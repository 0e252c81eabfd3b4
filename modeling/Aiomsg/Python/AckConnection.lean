import Aiomsg.Python.Asyncio
import Aiomsg.Python.Blocking
import Mathlib.Data.List.ReduceOption

/-!
# The connection an ACK goes to

An ACK is queued 20 ms after its DATA_REQ with the identity of the peer, "to the exact connection
the DATA_REQ arrived on". The sender looks the identity up when the ACK's turn comes. If the peer
has dropped and come back in between, the identity is that of the new connection, and the ACK is put
on its queue.

An identity leads back to the connection as long as it is not registered again while an ACK is owed
to it: while the ACK's timer runs, it is in the send queue, or the sender has it in hand
(`NoAckOwed`).

## Scope

"On none" is allowed: the peer may be gone when the sender comes to its ACK. The condition is one on
the step that enters a connection, and it looks at what the socket still has to send. It says
nothing of how long that may take.

## Main results

* `acksOnSame_of_noAckOwed` — along such runs an ACK is put on the writer queue of the connection
  its DATA_REQ arrived on or on none, in both packages
* `ack_on_later` — a run of each in which a peer reconnects too early
-/

namespace Aiomsg

namespace Python

variable {D : Type}

/-! ### ACKs that are owed -/

def Item.isAck (item : Item D) : Bool :=
  match item.wire with
  | .ack _ => true
  | _ => false

/-- If the item is an ACK, then of a DATA_REQ that arrived on connection `c`. -/
def AckOn (log : List (Event D)) (c : ℕ) (item : Item D) : Prop :=
  ∀ msgId, item.wire = .ack msgId →
    ∃ r payload, item.origin = .request r c ∧ .arrived r c msgId payload ∈ log

/-- Every ACK on the writer queue of a connection is of a DATA_REQ that arrived on it. -/
def AcksOnSame (log : List (Event D)) : Prop :=
  ∀ c item, .written c item ∈ log → AckOn log c item

/-- If the item is an ACK, then of a DATA_REQ that arrived on a connection, and it is for an
identity that has that connection or none. -/
def Owed (connections : List (Bytes × ℕ)) (log : List (Event D)) (item : Item D) : Prop :=
  ∀ msgId, item.wire = .ack msgId → ∃ r c payload identity, item.origin = .request r c ∧
    .arrived r c msgId payload ∈ log ∧ item.identity = some identity ∧
      ∀ c', (identity, c') ∈ connections → c' = c

section Owed

variable {connections connections' : List (Bytes × ℕ)} {log : List (Event D)} {item : Item D}
  {c : ℕ}

theorem AckOn.append (h : AckOn log c item) (later : List (Event D)) :
    AckOn (log ++ later) c item := by
  intro msgId hwire
  obtain ⟨r, payload, horigin, harrived⟩ := h msgId hwire
  exact ⟨r, payload, horigin, List.mem_append_left _ harrived⟩

theorem AcksOnSame.append {later : List (Event D)} (h : AcksOnSame log)
    (hlater : ∀ c item, .written c item ∈ later → AckOn log c item) :
    AcksOnSame (log ++ later) := by
  intro c item hmem
  rcases List.mem_append.mp hmem with hmem | hmem
  · exact (h c item hmem).append later
  · exact (hlater c item hmem).append later

/-- More in the log and fewer connections leave an ACK owed. -/
theorem Owed.mono (h : Owed connections log item) (hsub : connections' ⊆ connections)
    (later : List (Event D)) : Owed connections' (log ++ later) item := by
  intro msgId hwire
  obtain ⟨r, c, payload, identity, horigin, harrived, hidentity, honly⟩ := h msgId hwire
  exact ⟨r, c, payload, identity, horigin, List.mem_append_left _ harrived, hidentity,
    fun c' hmem => honly c' (hsub hmem)⟩

/-- So does a new connection of another identity. -/
theorem Owed.insert {identity : Bytes} (h : Owed connections log item)
    (hother : item.isAck = true → item.identity ≠ some identity) (made : ℕ) :
    Owed (connections ++ [(identity, made)]) log item := by
  intro msgId hwire
  obtain ⟨r, c, payload, identity', horigin, harrived, hidentity, honly⟩ := h msgId hwire
  refine ⟨r, c, payload, identity', horigin, harrived, hidentity, fun c' hmem => ?_⟩
  rcases List.mem_append.mp hmem with hmem | hmem
  · exact honly c' hmem
  · obtain ⟨rfl, -⟩ := Prod.mk.inj (List.mem_singleton.mp hmem)
    exact absurd hidentity (hother (by rw [Item.isAck, hwire]))

/-- A message is not owed. -/
theorem owed_message (connections : List (Bytes × ℕ)) (log : List (Event D))
    (identity : Option Bytes) (ack : Bool) (msgId : Bytes) (data : D) (origin : Origin) :
    Owed connections log ⟨identity, wireOf ack msgId data, origin⟩ :=
  fun msgId' hwire => absurd hwire (wireOf_ne_ack ack msgId msgId' data)

/-- The ACK of a DATA_REQ that has just arrived is owed. -/
theorem owed_request {peers : Peers} {identity : Bytes} (h : peers.identity c = some identity)
    (log later : List (Event D)) (r : ℕ) (msgId : Bytes) (payload : D) :
    Owed peers.connections (log ++ .arrived r c msgId payload :: later)
      ⟨some identity, .ack msgId, .request r c⟩ := by
  rintro msgId' hwire
  obtain rfl := Wire.ack.inj hwire
  refine ⟨r, c, payload, identity, rfl, by simp, rfl, fun c' hmem => ?_⟩
  exact Peers.eq_of_mem hmem (Peers.mem_of_identity h)

/-- An ACK that is put on a connection of its identity is put on its own connection. -/
theorem Owed.ackOn (h : Owed connections log item)
    (hconnection : ∀ identity, item.identity = some identity → (identity, c) ∈ connections) :
    AckOn log c item := by
  intro msgId hwire
  obtain ⟨r, c', payload, identity, horigin, harrived, hidentity, honly⟩ := h msgId hwire
  obtain rfl := honly c (hconnection identity hidentity)
  exact ⟨r, payload, horigin, harrived⟩

end Owed

/-! ### The blocking socket -/

namespace Blocking

/-- The item the sender has and has not looked up yet. -/
def Sender.inHand : Sender D → List (Item D)
  | .holding item => [item]
  | .waiting item _ => [item]
  | .routing item => [item]
  | .raised item => [item]
  | .cleared item => [item]
  | .idle | .putting _ _ | .finished => []

/-- The items that are to be looked up. -/
def Socket.pending (s : Socket D) : List (Item D) :=
  s.deferred ++ s.userSendQueue.reduceOption ++ s.sender.inHand

/-- If a connection is entered, no ACK is owed to its identity. -/
def NoAckOwed (s : Socket D) : Action D → Prop
  | .register identity => ¬ s.peers.Has identity →
      ∀ item ∈ s.pending, item.isAck = true → item.identity ≠ some identity
  | _ => True

instance (s : Socket D) : ∀ a, Decidable (NoAckOwed s a)
  | .register _ => inferInstanceAs (Decidable (_ → ∀ _ ∈ _, _ → _))
  | .send .. | .resend .. | .registered | .unregister _ | .unregistered | .receive ..
  | .notifyAck _ | .recv | .get | .check | .wake | .timeout | .route | .put | .clear | .putBack
  | .close | .shutdown => .isTrue trivial

/-- **The invariant.** Every ACK that is still to be looked up is owed to its own connection, and so
is one that has been. -/
structure AcksOwed (s : Socket D) : Prop where
  pending : ∀ item ∈ s.pending, Owed s.peers.connections s.log item
  putting : ∀ targets item, s.sender = .putting targets item → ∀ c ∈ targets, AckOn s.log c item
  written : AcksOnSame s.log

theorem mem_pending {s : Socket D} {item : Item D} : item ∈ s.pending ↔
    item ∈ s.deferred ∨ some item ∈ s.userSendQueue ∨ item ∈ s.sender.inHand := by
  rw [Socket.pending, List.mem_append, List.mem_append, List.reduceOption_mem_iff, or_assoc]

theorem Sender.inHand_signal (sender : Sender D) : sender.signal.inHand = sender.inHand := by
  cases sender <;> rfl

variable {s t : Socket D}

/-- A step that puts nothing on a writer queue and enters no connection keeps the invariant if what
it adds to the pending items is owed. -/
theorem AcksOwed.quiet {later : List (Event D)} (h : AcksOwed s)
    (hpending : ∀ item ∈ t.pending, item ∈ s.pending ∨ Owed t.peers.connections t.log item)
    (hconnections : t.peers.connections ⊆ s.peers.connections) (hlog : t.log = s.log ++ later)
    (hwritten : ∀ c item, .written c item ∉ later)
    (hputting : ∀ targets item, t.sender = .putting targets item →
      s.sender = .putting targets item) : AcksOwed t where
  pending item hmem := by
    rcases hpending item hmem with hmem | howed
    · rw [hlog]
      exact (h.pending item hmem).mono hconnections later
    · exact howed
  putting targets item hsender c hc := by
    rw [hlog]
    exact (h.putting targets item (hputting targets item hsender) c hc).append later
  written := by
    rw [hlog]
    exact h.written.append fun c item hmem => absurd hmem (hwritten c item)

/-- The same where the log stays as it is. -/
theorem AcksOwed.same (h : AcksOwed s) (hpending : t.pending ⊆ s.pending)
    (hconnections : t.peers.connections ⊆ s.peers.connections) (hlog : t.log = s.log)
    (hputting : ∀ targets item, t.sender = .putting targets item →
      s.sender = .putting targets item) : AcksOwed t :=
  h.quiet (fun _ hmem => .inl (hpending hmem)) hconnections (hlog.trans (List.append_nil _).symm)
    (fun _ _ => List.not_mem_nil) hputting

/-- Queueing an item that is owed. -/
theorem AcksOwed.enqueue (h : AcksOwed s) (item : Item D)
    (hitem : Owed s.peers.connections s.log item) : AcksOwed (s.enqueue item) := by
  refine h.quiet (fun item' hmem => ?_) (List.Subset.refl _) rfl (by simp) fun _ _ hs => hs
  rcases mem_pending.mp hmem with hmem | hmem | hmem
  · exact .inl (mem_pending.mpr (.inl hmem))
  · rcases List.mem_append.mp hmem with hmem | hmem
    · exact .inl (mem_pending.mpr (.inr (.inl hmem)))
    · obtain rfl := Option.some.inj (List.mem_singleton.mp hmem)
      exact .inr (hitem.mono (List.Subset.refl _) _)
  · exact .inl (mem_pending.mpr (.inr (.inr hmem)))

theorem AcksOwed.sendAs (h : AcksOwed s) (n : ℕ) (data : D) (identity : Option Bytes)
    (retries : Option ℤ) (msgId : Bytes) :
    AcksOwed (s.sendAs n data identity retries msgId) := by
  refine AcksOwed.enqueue ?_ _ (owed_message _ _ _ _ _ _ _)
  exact h.same (List.Subset.refl _) (List.Subset.refl _) rfl fun _ _ hs => hs

theorem AcksOwed.register {identity : Bytes} (h : AcksOwed s) (hhas : ¬ s.peers.Has identity)
    (hnone : ∀ item ∈ s.pending, item.isAck = true → item.identity ≠ some identity) (lock : Lock) :
    AcksOwed { s with peers := s.peers.insert identity hhas, lock := lock } where
  pending item hmem := (h.pending item hmem).insert (hnone item hmem) _
  putting := h.putting
  written := h.written

theorem AcksOwed.receiveDataReq {c : ℕ} {identity : Bytes} (h : AcksOwed s)
    (hidentity : s.peers.identity c = some identity) (msgId : Bytes) (payload : D) :
    AcksOwed (s.receiveDataReq c identity msgId payload) := by
  refine h.quiet (fun item hmem => ?_) (List.Subset.refl _) rfl ?_ fun _ _ hs => hs
  · rcases mem_pending.mp hmem with hmem | hmem
    · rcases List.mem_append.mp hmem with hmem | hmem
      · exact .inl (mem_pending.mpr (.inl hmem))
      · obtain rfl := List.mem_singleton.mp hmem
        exact .inr (owed_request hidentity _ _ _ _ _)
    · exact .inl (mem_pending.mpr (.inr hmem))
  · intro c item
    split_ifs <;> simp

theorem AcksOwed.notifyAck {i : ℕ} {item : Item D} (h : AcksOwed s)
    (hitem : s.deferred[i]? = some item) :
    AcksOwed ({ s with deferred := s.deferred.eraseIdx i }.enqueue item) := by
  have hmem : item ∈ s.pending := mem_pending.mpr (.inl (List.mem_of_getElem? hitem))
  refine AcksOwed.enqueue ?_ item (h.pending item hmem)
  refine h.same (fun item' hmem' => ?_) (List.Subset.refl _) rfl fun _ _ hs => hs
  rcases mem_pending.mp hmem' with hmem' | hmem'
  · exact mem_pending.mpr (.inl ((List.eraseIdx_sublist _ _).subset hmem'))
  · exact mem_pending.mpr (.inr hmem')

/-- The sender goes on with the item it has. -/
theorem AcksOwed.advance {sender : Sender D} (h : AcksOwed s)
    (hhand : sender.inHand ⊆ s.sender.inHand)
    (hputting : ∀ targets item, sender = .putting targets item → s.sender = .putting targets item)
    (event : Bool) : AcksOwed { s with sender := sender, atLeastOneConnection := event } := by
  refine h.same (fun item hmem => ?_) (List.Subset.refl _) rfl hputting
  rcases mem_pending.mp hmem with hmem | hmem | hmem
  · exact mem_pending.mpr (.inl hmem)
  · exact mem_pending.mpr (.inr (.inl hmem))
  · exact mem_pending.mpr (.inr (.inr (hhand hmem)))

/-- The sender takes from the send queue. -/
theorem AcksOwed.take {first : Option (Item D)} {rest : List (Option (Item D))} {sender : Sender D}
    (h : AcksOwed s) (hqueue : s.userSendQueue = first :: rest)
    (hhand : ∀ item ∈ sender.inHand, some item = first)
    (hputting : ∀ targets item, sender ≠ .putting targets item) :
    AcksOwed { s with sender := sender, userSendQueue := rest } := by
  refine h.same (fun item hmem => ?_) (List.Subset.refl _) rfl fun targets item hs =>
    absurd hs (hputting targets item)
  rcases mem_pending.mp hmem with hmem | hmem | hmem
  · exact mem_pending.mpr (.inl hmem)
  · refine mem_pending.mpr (.inr (.inl ?_))
    rw [hqueue]
    exact List.mem_cons_of_mem _ hmem
  · refine mem_pending.mpr (.inr (.inl ?_))
    rw [hqueue, hhand item hmem]
    exact List.mem_cons_self

theorem AcksOwed.route {item : Item D} {sender : Sender D} {peers : Peers} (h : AcksOwed s)
    (hsender : s.sender = .routing item) (hfound : Socket.Found s.peers item (sender, peers)) :
    AcksOwed { s with sender := sender, peers := peers } := by
  have hitem : item ∈ s.pending := by
    refine mem_pending.mpr (.inr (.inr ?_))
    rw [hsender]
    exact List.mem_singleton_self item
  have hempty (item' : Item D) (hmem : item' ∈ s.deferred ++ s.userSendQueue.reduceOption ++ []) :
      item' ∈ s.pending := by
    rw [List.append_nil] at hmem
    exact List.mem_append_left _ hmem
  cases hfound with
  | dropped hsame =>
    exact h.same hempty (fun _ hmem => hsame ▸ hmem) rfl fun targets item hs => absurd hs (by simp)
  | raised =>
    refine h.advance ?_ (fun targets item hs => absurd hs (by simp)) s.atLeastOneConnection
    rw [hsender]
    exact List.Subset.refl _
  | targets hsame hne hnodup hidentity =>
    refine ⟨fun item' hmem => ?_, ?_, h.written⟩
    · have howed := (h.pending item' (hempty item' hmem)).mono (fun _ hmem => hsame ▸ hmem) []
      rwa [List.append_nil] at howed
    · intro targets item hs c hc
      obtain ⟨rfl, rfl⟩ := Sender.putting.inj hs
      exact (h.pending _ hitem).ackOn fun identity hid => hidentity identity hid c hc

theorem AcksOwed.put {c : ℕ} {rest : List ℕ} {item : Item D} {sender : Sender D} (h : AcksOwed s)
    (hsender : s.sender = .putting (c :: rest) item)
    (hnext : sender = .idle ∨ sender = .putting rest item) :
    AcksOwed { s with sender := sender, log := s.log ++ [.written c item] } := by
  have hon := h.putting (c :: rest) item hsender
  have hhand : sender.inHand = [] := by
    rcases hnext with rfl | rfl <;> rfl
  refine ⟨fun item' hmem => ?_, fun targets item' hs c' hc' => ?_, ?_⟩
  · refine (h.pending item' ?_).mono (List.Subset.refl _) _
    rcases mem_pending.mp hmem with hmem | hmem | hmem
    · exact mem_pending.mpr (.inl hmem)
    · exact mem_pending.mpr (.inr (.inl hmem))
    · exact absurd hmem (by simp [hhand])
  · rcases hnext with rfl | rfl
    · exact absurd hs (by simp)
    · obtain ⟨rfl, rfl⟩ := Sender.putting.inj hs
      exact (hon c' (List.mem_cons_of_mem c hc')).append _
  · refine h.written.append fun c' item' hmem => ?_
    obtain ⟨rfl, rfl⟩ := Event.written.inj (List.mem_singleton.mp hmem)
    exact hon c' List.mem_cons_self

theorem AcksOwed.putBack {item : Item D} (h : AcksOwed s) (hsender : s.sender = .cleared item) :
    AcksOwed { s with sender := .idle, userSendQueue := s.userSendQueue ++ [some item] } := by
  refine h.same (fun item' hmem => ?_) (List.Subset.refl _) rfl fun _ _ hs => absurd hs (by simp)
  rcases mem_pending.mp hmem with hmem | hmem | hmem
  · exact mem_pending.mpr (.inl hmem)
  · rcases List.mem_append.mp hmem with hmem | hmem
    · exact mem_pending.mpr (.inr (.inl hmem))
    · refine mem_pending.mpr (.inr (.inr ?_))
      rw [Option.some.inj (List.mem_singleton.mp hmem), hsender]
      exact List.mem_singleton_self item
  · exact absurd hmem List.not_mem_nil

/-- **One step.** A step that does not enter a connection to whose identity an ACK is owed keeps
the invariant. -/
theorem AcksOwed.step {a : Action D} (h : AcksOwed s) (hnone : NoAckOwed s a)
    (hstep : s.step a = some t) : AcksOwed t := by
  cases Socket.step_cases hstep with
  | send data identity retries msgId =>
    refine AcksOwed.sendAs ?_ _ _ _ _ _
    exact h.same (List.Subset.refl _) (List.Subset.refl _) rfl fun _ _ hs => hs
  | resend msgId hexpire hretries =>
    refine AcksOwed.sendAs ?_ _ _ _ _ _
    exact h.same (List.Subset.refl _) (List.Subset.refl _) rfl fun _ _ hs => hs
  | register hlock hhas => exact h.register hhas (hnone hhas) _
  | first hlock hlength =>
    refine h.same ?_ (List.Subset.refl _) rfl fun targets item hs => ?_
    · show s.deferred ++ s.userSendQueue.reduceOption ++ s.sender.signal.inHand ⊆ _
      rw [Sender.inHand_signal]
      exact List.Subset.refl _
    · cases hsender : s.sender <;> simp_all [Socket.setEvent, Sender.signal]
  | unregister hlock hidentity =>
    exact h.same (List.Subset.refl _) List.filter_sublist.subset rfl fun _ _ hs => hs
  | dataReq msgId payload hidentity => exact h.receiveDataReq hidentity msgId payload
  | notifyAck hitem => exact h.notifyAck hitem
  | finish hsender hqueue =>
    exact h.take hqueue (fun _ hmem => absurd hmem List.not_mem_nil) (by simp)
  | get hsender hqueue =>
    exact h.take hqueue (fun _ hmem => congrArg some (List.mem_singleton.mp hmem)) (by simp)
  | pass hsender hevent | wait hsender hevent | wake hsender | again hsender | clear hsender =>
    refine h.advance ?_ (by simp) _
    rw [hsender]
    exact List.Subset.refl _
  | giveUp hsender => exact h.advance (List.nil_subset _) (by simp) _
  | route hsender hlock hfound => exact h.route hsender hfound
  | put hsender => exact h.put hsender (.inr rfl)
  | putLast hsender => exact h.put hsender (.inl rfl)
  | putBack hsender => exact h.putBack hsender
  | shutdown =>
    refine h.same ?_ (List.Subset.refl _) rfl fun _ _ hs => hs
    show s.deferred ++ (s.userSendQueue ++ [none]).reduceOption ++ s.sender.inHand ⊆ _
    rw [List.reduceOption_append]
    simp [Socket.pending]
  | expire | refuse | further | last | remaining | data | ack | ignore | recv | close =>
    exact h.same (List.Subset.refl _) (List.Subset.refl _) rfl fun _ _ hs => hs

end Blocking

/-! ### The socket on an event loop -/

namespace Asyncio

/-- The item the sender has. -/
def Sender.inHand : Sender D → List (Item D)
  | .awaiting item _ => item.toList
  | .finished => []

/-- The items that are to be looked up. -/
def Socket.pending (s : Socket D) : List (Item D) :=
  s.deferred ++ s.userSendQueue ++ s.sender.inHand

/-- If a connection is entered, no ACK is owed to its identity. -/
def NoAckOwed (s : Socket D) : Action D → Prop
  | .register identity => ¬ s.peers.Has identity →
      ∀ item ∈ s.pending, item.isAck = true → item.identity ≠ some identity
  | _ => True

instance (s : Socket D) : ∀ a, Decidable (NoAckOwed s a)
  | .register _ => inferInstanceAs (Decidable (_ → ∀ _ ∈ _, _ → _))
  | .send .. | .resend _ | .runTask .. | .unregister _ | .waitClosed | .receive ..
  | .notifyAck _ | .recv | .get | .check | .resume | .close | .cancelSender
  | .cancelTasks => .isTrue trivial

/-- **The invariant.** Every ACK that is still to be looked up is owed to its own connection. -/
structure AcksOwed (s : Socket D) : Prop where
  pending : ∀ item ∈ s.pending, Owed s.peers.connections s.log item
  written : AcksOnSame s.log

theorem mem_pending {s : Socket D} {item : Item D} : item ∈ s.pending ↔
    item ∈ s.deferred ∨ item ∈ s.userSendQueue ∨ item ∈ s.sender.inHand := by
  rw [Socket.pending, List.mem_append, List.mem_append, or_assoc]

theorem Sender.inHand_signal (sender : Sender D) : sender.signal.inHand = sender.inHand := by
  cases sender <;> rfl

variable {s t : Socket D}

/-- A step that puts nothing on a writer queue and enters no connection keeps the invariant if what
it adds to the pending items is owed. -/
theorem AcksOwed.quiet {later : List (Event D)} (h : AcksOwed s)
    (hpending : ∀ item ∈ t.pending, item ∈ s.pending ∨ Owed t.peers.connections t.log item)
    (hconnections : t.peers.connections ⊆ s.peers.connections) (hlog : t.log = s.log ++ later)
    (hwritten : ∀ c item, .written c item ∉ later) : AcksOwed t where
  pending item hmem := by
    rcases hpending item hmem with hmem | howed
    · rw [hlog]
      exact (h.pending item hmem).mono hconnections later
    · exact howed
  written := by
    rw [hlog]
    exact h.written.append fun c item hmem => absurd hmem (hwritten c item)

/-- The same where the log stays as it is. -/
theorem AcksOwed.same (h : AcksOwed s) (hpending : t.pending ⊆ s.pending)
    (hconnections : t.peers.connections ⊆ s.peers.connections) (hlog : t.log = s.log) :
    AcksOwed t :=
  h.quiet (fun _ hmem => .inl (hpending hmem)) hconnections (hlog.trans (List.append_nil _).symm)
    fun _ _ => List.not_mem_nil

/-- Queueing an item that is owed. -/
theorem AcksOwed.enqueue (h : AcksOwed s) (item : Item D)
    (hitem : Owed s.peers.connections s.log item) : AcksOwed (s.enqueue item) := by
  refine h.quiet (fun item' hmem => ?_) (List.Subset.refl _) rfl (by simp)
  rcases mem_pending.mp hmem with hmem | hmem | hmem
  · exact .inl (mem_pending.mpr (.inl hmem))
  · rcases List.mem_append.mp hmem with hmem | hmem
    · exact .inl (mem_pending.mpr (.inr (.inl hmem)))
    · obtain rfl := List.mem_singleton.mp hmem
      exact .inr (hitem.mono (List.Subset.refl _) _)
  · exact .inl (mem_pending.mpr (.inr (.inr hmem)))

theorem AcksOwed.sendAs (h : AcksOwed s) (n : ℕ) (data : D) (identity : Option Bytes)
    (retries : Option ℤ) (msgId : Bytes) :
    AcksOwed (s.sendAs n data identity retries msgId) := by
  refine AcksOwed.enqueue ?_ _ (owed_message _ _ _ _ _ _ _)
  exact h.same (List.Subset.refl _) (List.Subset.refl _) rfl

/-- A connection enters, and the sender may be signalled. -/
theorem AcksOwed.register {identity : Bytes} {sender : Sender D} (h : AcksOwed s)
    (hhas : ¬ s.peers.Has identity)
    (hnone : ∀ item ∈ s.pending, item.isAck = true → item.identity ≠ some identity)
    (hhand : sender.inHand = s.sender.inHand) (event : Bool) :
    AcksOwed { s with
      peers := s.peers.insert identity hhas
      atLeastOneConnection := event
      sender := sender } := by
  refine ⟨fun item hmem => ?_, h.written⟩
  have hmem' : item ∈ s.pending := by
    rw [Socket.pending, ← hhand]
    exact hmem
  exact (h.pending item hmem').insert (hnone item hmem') _

theorem AcksOwed.receiveDataReq {c : ℕ} {identity : Bytes} (h : AcksOwed s)
    (hidentity : s.peers.identity c = some identity) (msgId : Bytes) (payload : D) :
    AcksOwed (s.receiveDataReq c identity msgId payload) := by
  unfold Socket.receiveDataReq
  split_ifs
  · refine h.quiet (fun item hmem => ?_) (List.Subset.refl _) rfl (by simp)
    rcases mem_pending.mp hmem with hmem | hmem
    · rcases List.mem_append.mp hmem with hmem | hmem
      · exact .inl (mem_pending.mpr (.inl hmem))
      · obtain rfl := List.mem_singleton.mp hmem
        exact .inr (owed_request hidentity _ _ _ _ _)
    · exact .inl (mem_pending.mpr (.inr hmem))
  · exact h.quiet (fun _ hmem => .inl hmem) (List.Subset.refl _) rfl (by simp)

theorem AcksOwed.notifyAck {i : ℕ} {item : Item D} (h : AcksOwed s)
    (hitem : s.deferred[i]? = some item) :
    AcksOwed ({ s with deferred := s.deferred.eraseIdx i }.enqueue item) := by
  have hmem : item ∈ s.pending := mem_pending.mpr (.inl (List.mem_of_getElem? hitem))
  refine AcksOwed.enqueue ?_ item (h.pending item hmem)
  refine h.same (fun item' hmem' => ?_) (List.Subset.refl _) rfl
  rcases mem_pending.mp hmem' with hmem' | hmem'
  · exact mem_pending.mpr (.inl ((List.eraseIdx_sublist _ _).subset hmem'))
  · exact mem_pending.mpr (.inr hmem')

theorem AcksOwed.get {item : Item D} {rest : List (Item D)} (h : AcksOwed s)
    (hqueue : s.userSendQueue = item :: rest) (wait : Wait) :
    AcksOwed { s with sender := .awaiting (some item) wait, userSendQueue := rest } := by
  refine h.same (fun item' hmem => ?_) (List.Subset.refl _) rfl
  rcases mem_pending.mp hmem with hmem | hmem | hmem
  · exact mem_pending.mpr (.inl hmem)
  · refine mem_pending.mpr (.inr (.inl ?_))
    rw [hqueue]
    exact List.mem_cons_of_mem _ hmem
  · refine mem_pending.mpr (.inr (.inl ?_))
    rw [hqueue, List.mem_singleton.mp hmem]
    exact List.mem_cons_self

/-- The item in hand is put on the writer queues that were found for it. -/
theorem AcksOwed.serve {item : Item D} {targets : List ℕ} {peers : Peers} {wait : Wait}
    (h : AcksOwed s) (hsender : s.sender = .awaiting (some item) wait)
    (hfound : Socket.Found s.peers item (some targets, peers)) :
    AcksOwed { s with
      peers := peers
      log := s.log ++ targets.map (.written · item)
      sender := .awaiting none .created } := by
  have hitem : item ∈ s.pending := by
    refine mem_pending.mpr (.inr (.inr ?_))
    rw [hsender]
    exact List.mem_singleton_self item
  obtain _ | ⟨hsame, -, hidentity⟩ := hfound
  constructor
  · intro item' hmem
    refine (h.pending item' ?_).mono (fun _ hmem => hsame ▸ hmem) _
    rcases mem_pending.mp hmem with hmem | hmem | hmem
    · exact mem_pending.mpr (.inl hmem)
    · exact mem_pending.mpr (.inr (.inl hmem))
    · exact absurd hmem List.not_mem_nil
  · refine h.written.append fun c item' hmem => ?_
    obtain ⟨c', hc', heq⟩ := List.mem_map.mp hmem
    obtain ⟨rfl, rfl⟩ := Event.written.inj heq
    exact (h.pending _ hitem).ackOn fun identity hid => hidentity identity hid c' hc'

theorem AcksOwed.putBack {item : Item D} {wait : Wait} (h : AcksOwed s)
    (hsender : s.sender = .awaiting (some item) wait) :
    AcksOwed { s with
      atLeastOneConnection := false
      userSendQueue := s.userSendQueue ++ [item]
      sender := .awaiting none .created } := by
  refine h.same (fun item' hmem => ?_) (List.Subset.refl _) rfl
  rcases mem_pending.mp hmem with hmem | hmem | hmem
  · exact mem_pending.mpr (.inl hmem)
  · rcases List.mem_append.mp hmem with hmem | hmem
    · exact mem_pending.mpr (.inr (.inl hmem))
    · refine mem_pending.mpr (.inr (.inr ?_))
      rw [List.mem_singleton.mp hmem, hsender]
      exact List.mem_singleton_self item
  · exact absurd hmem List.not_mem_nil

/-- **One step.** A step that does not enter a connection to whose identity an ACK is owed keeps
the invariant. -/
theorem AcksOwed.step {a : Action D} (h : AcksOwed s) (hnone : NoAckOwed s a)
    (hstep : s.step a = some t) : AcksOwed t := by
  cases Socket.step_cases hstep with
  | send data identity retries msgId =>
    refine AcksOwed.sendAs ?_ _ _ _ _ _
    exact h.same (List.Subset.refl _) (List.Subset.refl _) rfl
  | runTask msgId htask =>
    refine AcksOwed.sendAs ?_ _ _ _ _ _
    exact h.same (List.Subset.refl _) (List.Subset.refl _) rfl
  | first hhas hempty => exact h.register hhas (hnone hhas) (Sender.inHand_signal _) _
  | further hhas hempty => exact h.register hhas (hnone hhas) rfl _
  | unregister hidentity => exact h.same (List.Subset.refl _) List.filter_sublist.subset rfl
  | dataReq msgId payload hidentity => exact h.receiveDataReq hidentity msgId payload
  | notifyAck hitem => exact h.notifyAck hitem
  | get hsender hqueue => exact h.get hqueue _
  | check wait hsender =>
    refine h.same ?_ (List.Subset.refl _) rfl
    rw [Socket.pending, Socket.pending, hsender]
    exact List.Subset.refl _
  | serve hsender hfound => exact h.serve hsender hfound
  | putBack hsender hidentity hempty => exact h.putBack hsender
  | cancelSender =>
    refine h.same (fun item hmem => List.mem_append_left _ ?_) (List.Subset.refl _) rfl
    rw [← List.append_nil (s.deferred ++ s.userSendQueue)]
    exact hmem
  | expire | resend | refuse | waitClosed | data | ack | ignore | recv | close | cancelTasks =>
    exact h.same (List.Subset.refl _) (List.Subset.refl _) rfl

end Asyncio

/-! ### Both packages -/

/-- **Same-connection ACK.** In both packages: in every run in which no connection is entered while
an ACK is owed to its identity, every ACK that is put on a writer queue is put on that of the
connection on which its DATA_REQ arrived. -/
theorem acksOnSame_of_noAckOwed (sendMode : SendMode) (delivery : DeliveryGuarantee) :
    (∀ (actions : List (Blocking.Action D)) (s : Blocking.Socket D),
      (Blocking.machine D).run (.new sendMode delivery) actions = some s →
      (Blocking.machine D).Along Blocking.NoAckOwed (.new sendMode delivery) actions →
      AcksOnSame s.log) ∧
    ∀ (actions : List (Asyncio.Action D)) (s : Asyncio.Socket D),
      (Asyncio.machine D).run (.new sendMode delivery) actions = some s →
      (Asyncio.machine D).Along Asyncio.NoAckOwed (.new sendMode delivery) actions →
      AcksOnSame s.log := by
  constructor
  · intro actions s hrun hnone
    have hnew : Blocking.AcksOwed (.new sendMode delivery : Blocking.Socket D) := by
      refine ⟨fun _ hmem => absurd hmem List.not_mem_nil, fun targets item hs => ?_,
        fun _ _ hmem => absurd hmem List.not_mem_nil⟩
      exact absurd hs (by simp [Blocking.Socket.new])
    have howed : Blocking.AcksOwed s :=
      hnone.invariant (fun s a t hs ha => hs.step ha) hrun hnew
    exact howed.written
  · intro actions s hrun hnone
    have hnew : Asyncio.AcksOwed (.new sendMode delivery : Asyncio.Socket D) :=
      ⟨fun _ hmem => absurd hmem List.not_mem_nil, fun _ _ hmem => absurd hmem List.not_mem_nil⟩
    have howed : Asyncio.AcksOwed s :=
      hnone.invariant (fun s a t hs ha => hs.step ha) hrun hnew
    exact howed.written

/-- The writer queues on which ACKs were put, with the connections their DATA_REQs arrived on. -/
def ackPuts (log : List (Event D)) : List (ℕ × ℕ) :=
  log.filterMap fun
    | .written c ⟨_, .ack _, .request _ c'⟩ => some (c, c')
    | _ => none

namespace Blocking

/-- A peer sends a DATA_REQ, gets its ACK, drops and comes back. -/
def backAfter : List (Action ℕ) :=
  [.register (sixteen 1), .registered, .receive 0 (.dataReq (sixteen 9) 7), .notifyAck 0, .get,
    .check, .route, .put, .unregister 0, .unregistered, .register (sixteen 1), .registered]

/-- The peer drops and comes back within 20 ms of its DATA_REQ. -/
def backBefore : List (Action ℕ) :=
  [.register (sixteen 1), .registered, .receive 0 (.dataReq (sixteen 9) 7), .unregister 0,
    .unregistered, .register (sixteen 1), .registered, .notifyAck 0, .get, .check, .route, .put]

end Blocking

namespace Asyncio

/-- A peer sends a DATA_REQ, gets its ACK, drops and comes back. -/
def backAfter : List (Action ℕ) :=
  [.register (sixteen 1), .receive 0 (.dataReq (sixteen 9) 7), .notifyAck 0, .get, .check, .resume,
    .unregister 0, .waitClosed, .register (sixteen 1)]

/-- The peer drops and comes back within 20 ms of its DATA_REQ. -/
def backBefore : List (Action ℕ) :=
  [.register (sixteen 1), .receive 0 (.dataReq (sixteen 9) 7), .unregister 0, .waitClosed,
    .register (sixteen 1), .notifyAck 0, .get, .check, .resume]

end Asyncio

theorem backAfter_acksOnSame :
    (∃ s : Blocking.Socket ℕ,
      (Blocking.machine ℕ).run (.new .roundRobin .atMostOnce) Blocking.backAfter = some s ∧
        ackPuts s.log = [(0, 0)] ∧ AcksOnSame s.log) ∧
    ∃ s : Asyncio.Socket ℕ,
      (Asyncio.machine ℕ).run (.new .roundRobin .atMostOnce) Asyncio.backAfter = some s ∧
        ackPuts s.log = [(0, 0)] ∧ AcksOnSame s.log := by
  refine ⟨⟨_, rfl, by decide, ?_⟩, ⟨_, rfl, by decide, ?_⟩⟩
  · exact (acksOnSame_of_noAckOwed .roundRobin .atMostOnce).1 Blocking.backAfter _ rfl (by decide)
  · exact (acksOnSame_of_noAckOwed .roundRobin .atMostOnce).2 Asyncio.backAfter _ rfl (by decide)

/-- The ACK of a DATA_REQ that arrived on connection `0` is put on the queue of connection `1`. -/
theorem ack_on_later :
    (∃ s : Blocking.Socket ℕ,
      (Blocking.machine ℕ).run (.new .roundRobin .atMostOnce) Blocking.backBefore = some s ∧
        ackPuts s.log = [(1, 0)] ∧ ¬ AcksOnSame s.log) ∧
    ∃ s : Asyncio.Socket ℕ,
      (Asyncio.machine ℕ).run (.new .roundRobin .atMostOnce) Asyncio.backBefore = some s ∧
        ackPuts s.log = [(1, 0)] ∧ ¬ AcksOnSame s.log := by
  refine ⟨⟨_, rfl, by decide, fun hsame => ?_⟩, ⟨_, rfl, by decide, fun hsame => ?_⟩⟩
  · obtain ⟨r, payload, horigin, -⟩ :=
      hsame 1 ⟨some (sixteen 1), .ack (sixteen 9), .request 0 0⟩ (by decide) (sixteen 9) rfl
    exact absurd horigin (by simp)
  · obtain ⟨r, payload, horigin, -⟩ :=
      hsame 1 ⟨some (sixteen 1), .ack (sixteen 9), .request 0 0⟩ (by decide) (sixteen 9) rfl
    exact absurd horigin (by simp)

end Python

end Aiomsg
