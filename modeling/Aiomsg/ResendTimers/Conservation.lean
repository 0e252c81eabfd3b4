import Aiomsg.ResendTimers.Basic
import Aiomsg.Lib.AssocList
import Mathlib.Algebra.Order.Group.Multiset
import Mathlib.Tactic.Abel

/-!
# No message is forgotten

A message the broker has accepted moves: into the buffer while nobody is connected, into `pending`
under a new id with each transmission, out of it again when its timer runs out. `Core` accounts for
all of them at every moment, also in the middle of a flush, where some are in neither place but *in
hand*: taken out of the buffer and not transmitted yet.

The other half of `Core` is about the timer. An id in `pending` must be on its way around the two
threads: its `Arm` is in the timer's channel, or the timer has it armed with a deadline, or its
`ResendTimeout` is in the broker's channel. What could break this is a `Cancel` that arrives for an
id that is pending again; that ids are never reused excludes it, and is why the statement is about
fewer than `2 ^ 64` transmissions.

## Scope

The account is of messages and not of deliveries. "Discharged" means that an ACK with the id of one
of the message's transmissions was processed; whether the peer's application has the message is a
matter of the network. "Given up" is the end of the retries, and the message is not kept anywhere
after it.

## Main results

* `Core.transmit`, `Core.process` — what one transmission and one command do to the account
* `conservation`
-/

namespace Aiomsg

namespace ResendTimers

open Broker

variable {C D : Type}

/-- The messages waiting for an acknowledgement. -/
def pendingMessages (b : Broker C D) : List (Option Identity × D) :=
  b.pending.entries.map fun e => e.2.message

/-- Where the account finds the messages: in the buffer, in `pending`, among those discharged and
among those given up. -/
def World.places (w : World C D) : Multiset (Option Identity × D) :=
  w.broker.buffer + pendingMessages w.broker + w.discharged.map Pending.message +
    w.gaveUp.map Pending.message

/-- An id on its way around the two threads. -/
def Covered (w : World C D) (msgId : MsgId) : Prop :=
  .arm msgId ∈ w.toTimer ∨
    (msgId ∈ w.timer.armed ∧ ∃ deadline, (deadline, msgId) ∈ w.timer.deadlines) ∨
    .resendTimeout msgId ∈ w.cmds

/-- The account, with some messages in hand.

`covered` is what makes the account more than bookkeeping: a message in `pending` whose id were on
no way any more would stay there for ever, accounted for and forgotten. -/
structure Core (w : World C D) (hand : List (Option Identity × D)) : Prop where
  issued : ∀ msgId ∈ w.broker.pending, msgId ∈ issued w.effects
  /-- A cancelled id was given out once and does not come back. -/
  cancelled : ∀ msgId, .cancel msgId ∈ w.toTimer →
    msgId ∈ Aiomsg.issued w.effects ∧ msgId ∉ w.broker.pending
  /-- Every message around is one that is sent with an acknowledgement. -/
  reliable : ∀ m ∈ hand ++ (w.broker.buffer ++ pendingMessages w.broker),
    w.broker.atLeastOnce m.1 = true
  reliableSends : ∀ identity data, .send identity data ∈ w.cmds →
    w.broker.atLeastOnce identity = true
  conserved : (w.accepted : Multiset (Option Identity × D)) = hand + w.places
  covered : ∀ msgId ∈ w.broker.pending, Covered w msgId

/-! ### Transmitting -/

theorem timerMsgs_route (b : Broker C D) (target : Option Identity) (frame : Envelope D) :
    (b.route target frame).2.filterMap timerMsg = [] := by
  refine List.filterMap_eq_nil_iff.mpr fun e he => ?_
  obtain ⟨w, f, rfl⟩ := frames_of_route b target frame e he
  rfl

theorem timerMsgs_transmit {b : Broker C D} {identity : Option Identity} (data : D) (retries : ℕ)
    (h : b.atLeastOnce identity = true) :
    (b.transmit identity data retries).2.filterMap timerMsg
      = [.arm (msgIdOf b.salt b.nextId)] := by
  rw [transmit_of_atLeastOnce data retries h]
  show _ :: List.filterMap timerMsg (route _ _ _).2 = _
  rw [timerMsgs_route]

theorem pending_transmit {b : Broker C D} {identity : Option Identity} (data : D) (retries : ℕ)
    (h : b.atLeastOnce identity = true) :
    (b.transmit identity data retries).1.pending
      = b.pending.insert (msgIdOf b.salt b.nextId) ⟨identity, data, retries⟩ := by
  rw [transmit_of_atLeastOnce data retries h, route_pending]
  rfl

/-- The channels only grow when the broker acts. -/
theorem Covered.emit {w : World C D} {msgId : MsgId} (h : Covered w msgId)
    (r : Broker C D × List (Effect C D)) : Covered (w.emit r) msgId :=
  h.imp_left (List.mem_append_left _)

/-- **One transmission** takes a message out of hand and into `pending`, under a new id. -/
theorem Core.transmit {w : World C D} {hand : List (Option Identity × D)}
    {identity : Option Identity} {data : D} (h : Core w ((identity, data) :: hand))
    (hfresh : msgIdOf w.broker.salt w.broker.nextId ∉ Aiomsg.issued w.effects) (retries : ℕ) :
    Core (w.emit (w.broker.transmit identity data retries)) hand := by
  have hack : w.broker.atLeastOnce identity = true := h.reliable (identity, data) List.mem_cons_self
  have htable := w.broker.sameTable_transmit identity data retries
  have hpending := pending_transmit data retries hack
  have hnew : msgIdOf w.broker.salt w.broker.nextId ∉ w.broker.pending :=
    fun hmem => hfresh (h.issued _ hmem)
  have hmessages : pendingMessages (w.broker.transmit identity data retries).1
      = (identity, data) :: pendingMessages w.broker := by
    rw [pendingMessages, hpending, AList.entries_insert_of_notMem hnew]
    rfl
  have hissued : Aiomsg.issued (w.emit (w.broker.transmit identity data retries)).effects
      = Aiomsg.issued w.effects ++ [msgIdOf w.broker.salt w.broker.nextId] := by
    show Aiomsg.issued (w.effects ++ _) = _
    rw [issued_append, issued_transmit data retries hack]
  have htimer : (w.emit (w.broker.transmit identity data retries)).toTimer
      = w.toTimer ++ [.arm (msgIdOf w.broker.salt w.broker.nextId)] :=
    congrArg (w.toTimer ++ ·) (timerMsgs_transmit data retries hack)
  have hmem : ∀ msgId, msgId ∈ (w.emit (w.broker.transmit identity data retries)).broker.pending ↔
      msgId = msgIdOf w.broker.salt w.broker.nextId ∨ msgId ∈ w.broker.pending := fun msgId => by
    show msgId ∈ (w.broker.transmit identity data retries).1.pending ↔ _
    rw [hpending, AList.mem_insert]
  refine ⟨fun msgId hin => ?_, fun msgId hcancel => ?_, fun m hm => ?_, fun i d hsend => ?_, ?_,
    fun msgId hin => ?_⟩
  · rw [hissued, List.mem_append, List.mem_singleton]
    exact ((hmem msgId).mp hin).symm.imp_left (h.issued msgId)
  · rw [htimer, List.mem_append] at hcancel
    obtain ⟨hold, hout⟩ := h.cancelled msgId (hcancel.resolve_right (by simp))
    refine ⟨hissued ▸ List.mem_append_left _ hold, fun hin => ?_⟩
    rcases (hmem msgId).mp hin with rfl | hin
    · exact hfresh hold
    · exact hout hin
  · show (w.broker.transmit identity data retries).1.atLeastOnce m.1 = true
    rw [htable.atLeastOnce]
    refine h.reliable m ?_
    have hm' : m ∈ hand ++ ((w.broker.transmit identity data retries).1.buffer ++
        pendingMessages (w.broker.transmit identity data retries).1) := hm
    rw [transmit_buffer, hmessages] at hm'
    simp only [List.mem_append, List.mem_cons] at hm' ⊢
    tauto
  · show (w.broker.transmit identity data retries).1.atLeastOnce i = true
    rw [htable.atLeastOnce]
    exact h.reliableSends i d hsend
  · show (w.accepted : Multiset (Option Identity × D)) = hand +
      ((w.broker.transmit identity data retries).1.buffer +
        pendingMessages (w.broker.transmit identity data retries).1 + _ + _)
    rw [h.conserved, transmit_buffer, hmessages, World.places, ← Multiset.cons_coe,
      ← Multiset.cons_coe, ← Multiset.singleton_add, ← Multiset.singleton_add]
    abel
  · rcases (hmem msgId).mp hin with rfl | hin
    · exact .inl (htimer ▸ List.mem_append_right _ (List.mem_singleton_self _))
    · exact (h.covered msgId hin).emit _

theorem World.emit_emit (w : World C D) (r r' : Broker C D × List (Effect C D)) :
    (w.emit r).emit r' = w.emit (r'.1, r.2 ++ r'.2) := by
  simp [World.emit]

theorem World.emit_self (w : World C D) : w.emit (w.broker, []) = w := by
  simp [World.emit]

/-- **A flush** transmits what is in hand, one message after the other. -/
theorem Core.transmitAll {b₀ : Broker C D} {msgs : List (Option Identity × D)} {w : World C D}
    {hand : List (Option Identity × D)} (h : Core w (msgs ++ hand))
    (hissues : Issues b₀ w.broker w.effects)
    (hcount : (Aiomsg.issued (w.emit (w.broker.transmitAll msgs)).effects).length < 2 ^ 64) :
    Core (w.emit (w.broker.transmitAll msgs)) hand := by
  induction msgs generalizing w with
  | nil =>
    rw [Broker.transmitAll, World.emit_self]
    exact h
  | cons msg rest ih =>
    have hemit : w.emit (w.broker.transmitAll (msg :: rest))
        = (w.emit (w.broker.transmit msg.1 msg.2 maxRetries)).emit
          ((w.emit (w.broker.transmit msg.1 msg.2 maxRetries)).broker.transmitAll rest) := by
      rw [World.emit_emit]
      rfl
    rw [hemit] at hcount ⊢
    refine ih (h.transmit (hissues.fresh ?_) maxRetries)
      (hissues.trans (issues_transmit _ _ _ _)) hcount
    refine Nat.lt_of_le_of_lt ?_ hcount
    show _ ≤ (Aiomsg.issued ((w.effects ++ _) ++ _)).length
    rw [issued_append, issued_append, List.length_append, List.length_append]
    omega

/-! ### The other changes -/

/-- A change that moves no message and loses sight of no pending id. -/
theorem Core.keep {w w' : World C D} {hand : List (Option Identity × D)} (h : Core w hand)
    (hpending : w'.broker.pending = w.broker.pending) (hplaces : w'.places = w.places)
    (hbuffer : w'.broker.buffer = w.broker.buffer)
    (hack : w'.broker.atLeastOnce = w.broker.atLeastOnce)
    (hissued : Aiomsg.issued w'.effects = Aiomsg.issued w.effects)
    (haccepted : w'.accepted = w.accepted)
    (hcancel : ∀ msgId, .cancel msgId ∈ w'.toTimer → .cancel msgId ∈ w.toTimer)
    (hsends : ∀ identity data, .send identity data ∈ w'.cmds →
      .send identity data ∈ w.cmds ∨ w.broker.atLeastOnce identity = true)
    (hcovered : ∀ msgId ∈ w.broker.pending, Covered w msgId → Covered w' msgId) :
    Core w' hand := by
  refine ⟨?_, fun msgId hmem => ?_, ?_, fun i d hsend => ?_, ?_, ?_⟩
  · rw [hpending, hissued]
    exact h.issued
  · rw [hpending, hissued]
    exact h.cancelled msgId (hcancel msgId hmem)
  · rw [hbuffer, hack, pendingMessages, hpending]
    exact h.reliable
  · rw [hack]
    exact (hsends i d hsend).elim (h.reliableSends i d) id
  · rw [haccepted, hplaces]
    exact h.conserved
  · rw [hpending]
    exact fun msgId hin => hcovered msgId hin (h.covered msgId hin)

/-- Taking an entry out of `pending` puts its message in hand. -/
theorem Core.forget {w w' : World C D} {hand : List (Option Identity × D)} (h : Core w hand)
    {msgId : MsgId} {p : Pending D} (hp : w.broker.pending.lookup msgId = some p)
    (hbroker : w'.broker = w.broker.forget msgId) (hdischarged : w'.discharged = w.discharged)
    (hgaveUp : w'.gaveUp = w.gaveUp)
    (hissued : Aiomsg.issued w'.effects = Aiomsg.issued w.effects)
    (haccepted : w'.accepted = w.accepted)
    (hcancel : ∀ m, .cancel m ∈ w'.toTimer → .cancel m ∈ w.toTimer ∨ m = msgId)
    (hsends : ∀ identity data, .send identity data ∈ w'.cmds → .send identity data ∈ w.cmds)
    (hcovered : ∀ m, m ≠ msgId → Covered w m → Covered w' m) :
    Core w' (p.message :: hand) := by
  have hin : ∀ m, m ∈ w'.broker.pending ↔ m ≠ msgId ∧ m ∈ w.broker.pending := fun m => by
    rw [hbroker]
    exact AList.mem_erase
  have hperm : (pendingMessages w.broker).Perm (p.message :: pendingMessages w'.broker) := by
    rw [hbroker]
    exact (AList.entries_perm hp).map fun e => e.2.message
  have hbuffer : w'.broker.buffer = w.broker.buffer := by rw [hbroker]; rfl
  have hack : w'.broker.atLeastOnce = w.broker.atLeastOnce := by rw [hbroker]; rfl
  refine ⟨fun m hm => ?_, fun m hm => ?_, fun m hm => ?_, fun i d hsend => ?_, ?_, fun m hm => ?_⟩
  · rw [hissued]
    exact h.issued m ((hin m).mp hm).2
  · rw [hissued, hin]
    rcases hcancel m hm with hm | rfl
    · exact ⟨(h.cancelled m hm).1, fun hmem => (h.cancelled m hm).2 hmem.2⟩
    · exact ⟨h.issued m (AList.lookup_isSome.mp (by rw [hp]; rfl)), fun hmem => hmem.1 rfl⟩
  · rw [hack]
    refine h.reliable m ?_
    rw [List.mem_append, List.mem_append, hperm.mem_iff]
    rw [hbuffer] at hm
    simp only [List.mem_append, List.mem_cons, List.cons_append] at hm ⊢
    tauto
  · rw [hack]
    exact h.reliableSends i d (hsends i d hsend)
  · have hmulti : (pendingMessages w.broker : Multiset (Option Identity × D))
        = p.message ::ₘ pendingMessages w'.broker := Multiset.coe_eq_coe.mpr hperm
    rw [haccepted, h.conserved, World.places, World.places, hmulti, hbuffer, hdischarged, hgaveUp,
      ← Multiset.cons_coe, ← Multiset.singleton_add, ← Multiset.singleton_add]
    abel
  · exact hcovered m ((hin m).mp hm).1 (h.covered m ((hin m).mp hm).2)

/-- A message in hand is laid down somewhere, or one is taken up. -/
theorem Core.rehand {w w' : World C D} {hand hand' : List (Option Identity × D)} (h : Core w hand)
    (hpending : w'.broker.pending = w.broker.pending)
    (hack : w'.broker.atLeastOnce = w.broker.atLeastOnce)
    (heffects : Aiomsg.issued w'.effects = Aiomsg.issued w.effects)
    (htoTimer : w'.toTimer = w.toTimer) (htimer : w'.timer = w.timer) (hcmds : w'.cmds = w.cmds)
    (hreliable : ∀ m ∈ hand' ++ w'.broker.buffer,
      m ∈ hand ++ w.broker.buffer ∨ w.broker.atLeastOnce m.1 = true)
    (hconserved : (w.accepted : Multiset (Option Identity × D)) = hand + w.places →
      (w'.accepted : Multiset (Option Identity × D)) = hand' + w'.places) :
    Core w' hand' := by
  refine ⟨?_, ?_, fun m hm => ?_, ?_, hconserved h.conserved, ?_⟩
  · rw [hpending, heffects]
    exact h.issued
  · rw [hpending, heffects, htoTimer]
    exact h.cancelled
  · rw [hack]
    rw [pendingMessages, hpending, ← List.append_assoc, List.mem_append] at hm
    rcases hm with hm | hm
    · refine (hreliable m hm).elim (fun hm => h.reliable m ?_) id
      rw [← List.append_assoc]
      exact List.mem_append_left _ hm
    · refine h.reliable m ?_
      rw [← List.append_assoc]
      exact List.mem_append_right _ hm
  · rw [hack, hcmds]
    exact h.reliableSends
  · rw [hpending]
    intro m hm
    have hcov := h.covered m hm
    rw [Covered, htoTimer, htimer, hcmds]
    exact hcov

/-! ### One command -/

/-- Taking a command off the channel, unless it is the timeout of a pending id. -/
theorem Core.dequeue {w : World C D} {hand : List (Option Identity × D)} (h : Core w hand)
    {cmd : Command C D} {rest : List (Command C D)} (hcmds : w.cmds = cmd :: rest)
    (hcmd : ∀ msgId ∈ w.broker.pending, cmd ≠ .resendTimeout msgId) :
    Core { w with cmds := rest } hand := by
  refine h.keep rfl rfl rfl rfl rfl rfl (fun _ => id) (fun i d hsend => .inl ?_) ?_
  · rw [hcmds]
    exact List.mem_cons_of_mem _ hsend
  · rintro msgId hin (harm | harmed | htimeout)
    · exact .inl harm
    · exact .inr (.inl harmed)
    · rw [hcmds] at htimeout
      exact .inr (.inr ((List.mem_cons.mp htimeout).resolve_left (hcmd msgId hin).symm))

/-- Taking the timeout of a pending id off the channel, and its entry out of `pending`. -/
theorem Core.dequeue_timeout {w : World C D} (h : Core w []) {msgId : MsgId} {p : Pending D}
    {rest : List (Command C D)} (hcmds : w.cmds = .resendTimeout msgId :: rest)
    (hp : w.broker.pending.lookup msgId = some p) :
    Core { w with cmds := rest, closed := false, broker := w.broker.forget msgId } [p.message] := by
  refine h.forget hp rfl rfl rfl rfl rfl (fun _ => .inl) (fun i d hsend => ?_) ?_
  · rw [hcmds]
    exact List.mem_cons_of_mem _ hsend
  · rintro m hne (harm | harmed | htimeout)
    · exact .inl harm
    · exact .inr (.inl harmed)
    · rw [hcmds] at htimeout
      refine .inr (.inr ((List.mem_cons.mp htimeout).resolve_left fun heq => hne ?_))
      exact Command.resendTimeout.inj heq

/-- Taking the timeout of an entry with retries left settles nothing yet. -/
theorem World.emit_take_timeout {w : World C D} {msgId : MsgId} {p : Pending D}
    (hp : w.broker.pending.lookup msgId = some p) (hretries : p.retries ≠ 0)
    (rest : List (Command C D)) (r : Broker C D × List (Effect C D)) :
    (w.take (.resendTimeout msgId) rest).emit r
      = World.emit { w with cmds := rest, closed := false, broker := w.broker.forget msgId } r := by
  simp [World.emit, World.take, Command.send?, discharges, givesUp, Command.isClose, hp, hretries]

/-- A command that is no message, and moves none. -/
theorem Core.process_keep {w : World C D} (h : Core w []) {cmd : Command C D}
    {rest : List (Command C D)} (hcmds : w.cmds = cmd :: rest)
    (hcmd : ∀ msgId ∈ w.broker.pending, cmd ≠ .resendTimeout msgId) (hsend : cmd.send? = none)
    (hdischarges : discharges w.broker cmd = none) (hgivesUp : givesUp w.broker cmd = none)
    {b' : Broker C D} {es : List (Effect C D)} (hpending : b'.pending = w.broker.pending)
    (hbuffer : b'.buffer = w.broker.buffer) (hack : b'.atLeastOnce = w.broker.atLeastOnce)
    (hissued : Aiomsg.issued es = []) (htimer : es.filterMap timerMsg = []) :
    Core ((w.take cmd rest).emit (b', es)) [] := by
  have hworld : (w.take cmd rest).emit (b', es)
      = { w with
          broker := b', closed := cmd.isClose, cmds := rest, effects := w.effects ++ es } := by
    simp [World.emit, World.take, hsend, hdischarges, hgivesUp, htimer]
  rw [hworld]
  refine (h.dequeue hcmds hcmd).keep hpending ?_ hbuffer hack ?_ rfl (fun _ => id)
    (fun _ _ => .inl) fun _ _ => id
  · rw [World.places, World.places, pendingMessages, hpending, hbuffer]
    rfl
  · rw [issued_append, hissued, List.append_nil]

/-- A message just handed over is in hand. -/
theorem Core.take_send {w : World C D} (h : Core w []) {identity : Option Identity} {data : D}
    {rest : List (Command C D)} (hcmds : w.cmds = .send identity data :: rest) :
    Core (w.take (.send identity data) rest) [(identity, data)] := by
  have hack : w.broker.atLeastOnce identity = true :=
    h.reliableSends identity data (hcmds ▸ List.mem_cons_self)
  refine (h.dequeue hcmds fun _ _ => nofun).rehand rfl rfl rfl rfl rfl rfl (fun m hm => ?_) ?_
  · rcases List.mem_cons.mp hm with rfl | hm
    · exact .inr hack
    · exact .inl hm
  · intro hconserved
    have hplaces : (w.take (.send identity data) rest).places
        = World.places { w with cmds := rest } := by
      simp [World.places, World.take, discharges, givesUp]
    have haccepted : ((w.take (.send identity data) rest).accepted : Multiset (Option Identity × D))
        = w.accepted + {(identity, data)} := (Multiset.coe_add _ _).symm
    have hbefore : (w.accepted : Multiset (Option Identity × D))
        = World.places { w with cmds := rest } := by
      simpa using hconserved
    rw [hplaces, haccepted, hbefore]
    exact add_comm _ _

/-- A message in hand is put in the buffer. -/
theorem Core.buffer {w : World C D} {hand : List (Option Identity × D)}
    {m : Option Identity × D} (h : Core w (m :: hand)) :
    Core (w.emit ({ w.broker with buffer := w.broker.buffer ++ [m] }, [])) hand := by
  refine h.rehand rfl rfl ?_ ?_ rfl rfl (fun x hx => .inl ?_) fun hconserved => ?_
  · show Aiomsg.issued (w.effects ++ []) = _
    rw [List.append_nil]
  · exact List.append_nil _
  · have hx' : x ∈ hand ++ (w.broker.buffer ++ [m]) := hx
    simp only [List.mem_append, List.mem_cons, List.not_mem_nil, or_false] at hx' ⊢
    tauto
  · show (w.accepted : Multiset (Option Identity × D)) = hand +
      (↑(w.broker.buffer ++ [m]) + pendingMessages w.broker + _ + _)
    rw [hconserved, World.places, ← Multiset.coe_add, ← Multiset.cons_coe, ← Multiset.singleton_add,
      Multiset.coe_singleton]
    abel

/-- An entry in hand is discharged or given up: the account has it. -/
theorem Core.settle {w : World C D} {hand : List (Option Identity × D)} {p : Pending D}
    (h : Core w (p.message :: hand)) {discharged gaveUp : List (Pending D)} (closed : Bool)
    (hsettled : (discharged.map Pending.message : Multiset (Option Identity × D))
        + gaveUp.map Pending.message
      = p.message ::ₘ ((w.discharged.map Pending.message : Multiset (Option Identity × D))
        + w.gaveUp.map Pending.message)) :
    Core { w with discharged := discharged, gaveUp := gaveUp, closed := closed } hand := by
  refine h.rehand rfl rfl rfl rfl rfl rfl (fun x hx => .inl ?_) fun hconserved => ?_
  · exact List.mem_cons_of_mem _ hx
  · show (w.accepted : Multiset (Option Identity × D)) = hand +
      (w.broker.buffer + pendingMessages w.broker + _ + _)
    rw [add_assoc _ (discharged.map Pending.message : Multiset (Option Identity × D)), hsettled,
      hconserved, World.places, ← Multiset.cons_coe, ← Multiset.singleton_add,
      ← Multiset.singleton_add]
    abel

/-- A connection comes up, and everything buffered is in hand. -/
theorem Core.connect {w : World C D} (h : Core w []) {identity : Identity} {writer accept : C}
    {rest : List (Command C D)} (hcmds : w.cmds = .connectionUp identity writer accept :: rest) :
    Core ((w.take (.connectionUp identity writer accept) rest).emit
      (w.broker.connect identity writer, [.accept accept true])) w.broker.buffer := by
  have hworld : (w.take (.connectionUp identity writer accept) rest).emit
        (w.broker.connect identity writer, [.accept accept true])
      = { w with
          broker := w.broker.connect identity writer
          closed := false
          cmds := rest
          effects := w.effects ++ [.accept accept true] } := by
    simp [World.emit, World.take, Command.send?, discharges, givesUp, timerMsg, Command.isClose]
  rw [hworld]
  refine (h.dequeue hcmds fun _ _ => nofun).rehand rfl rfl ?_ rfl rfl rfl (fun m hm => .inl ?_) ?_
  · show Aiomsg.issued (w.effects ++ [.accept accept true]) = _
    rw [issued_append]
    exact List.append_nil _
  · rwa [Broker.connect, List.append_nil] at hm
  · intro hconserved
    refine hconserved.trans ?_
    show (0 : Multiset (Option Identity × D)) + (w.broker.buffer + pendingMessages w.broker + _ + _)
      = w.broker.buffer + (0 + pendingMessages w.broker + _ + _)
    abel

/-- A connection comes up, and everything buffered is transmitted. -/
theorem Core.flush {b₀ : Broker C D} {w : World C D} (h : Core w [])
    (hissues : Issues b₀ w.broker w.effects) {identity : Identity} {writer accept : C}
    {rest : List (Command C D)} (hcmds : w.cmds = .connectionUp identity writer accept :: rest)
    (hcount : (Aiomsg.issued ((w.take (.connectionUp identity writer accept) rest).emit
      (((w.broker.connect identity writer).transmitAll w.broker.buffer).1, .accept accept true ::
        ((w.broker.connect identity writer).transmitAll w.broker.buffer).2)).effects).length
          < 2 ^ 64) :
    Core ((w.take (.connectionUp identity writer accept) rest).emit
      (((w.broker.connect identity writer).transmitAll w.broker.buffer).1, .accept accept true ::
        ((w.broker.connect identity writer).transmitAll w.broker.buffer).2)) [] := by
  have hemit : (w.take (.connectionUp identity writer accept) rest).emit
        (((w.broker.connect identity writer).transmitAll w.broker.buffer).1,
          .accept accept true :: ((w.broker.connect identity writer).transmitAll w.broker.buffer).2)
      = ((w.take (.connectionUp identity writer accept) rest).emit
          (w.broker.connect identity writer, [.accept accept true])).emit
        ((w.broker.connect identity writer).transmitAll w.broker.buffer) := by
    rw [World.emit_emit]
    rfl
  rw [hemit] at hcount ⊢
  have hopen := h.connect hcmds
  rw [← List.append_nil w.broker.buffer] at hopen
  exact hopen.transmitAll (hissues.trans (.of_none rfl rfl rfl rfl)) hcount

/-- An ACK for an entry: it is discharged, and its timer cancelled. -/
theorem Core.discharge {w : World C D} (h : Core w []) {identity : Identity} {msgId : MsgId}
    {rest : List (Command C D)} (hcmds : w.cmds = .received identity (.ack msgId) :: rest)
    {p : Pending D} (hp : w.broker.pending.lookup msgId = some p) :
    Core ((w.take (.received identity (.ack msgId)) rest).emit
      (w.broker.forget msgId, [.cancel msgId])) [] := by
  have hworld : (w.take (.received identity (.ack msgId)) rest).emit
        (w.broker.forget msgId, [.cancel msgId])
      = { w with
          broker := w.broker.forget msgId
          closed := false
          cmds := rest
          toTimer := w.toTimer ++ [.cancel msgId]
          effects := w.effects ++ [.cancel msgId]
          discharged := w.discharged ++ [p]
          gaveUp := w.gaveUp } := by
    simp [World.emit, World.take, Command.send?, discharges, givesUp, timerMsg, Command.isClose, hp]
  rw [hworld]
  have hhand : Core { w with
      broker := w.broker.forget msgId, cmds := rest, toTimer := w.toTimer ++ [.cancel msgId],
      effects := w.effects ++ [.cancel msgId] } [p.message] := by
    refine (h.dequeue hcmds fun _ _ => nofun).forget hp rfl rfl rfl ?_ rfl (fun m hm => ?_)
      (fun _ _ => id) fun m _ hcov => ?_
    · show Aiomsg.issued (w.effects ++ [.cancel msgId]) = _
      rw [issued_append]
      exact List.append_nil _
    · refine (List.mem_append.mp hm).imp_right fun hm => ?_
      exact TimerMsg.cancel.inj (List.mem_singleton.mp hm)
    · exact hcov.imp_left (List.mem_append_left _)
  refine hhand.settle false ?_
  rw [List.map_append, ← Multiset.coe_add, ← Multiset.singleton_add]
  show _ + {p.message} + _ = _
  abel

/-- The timeout of an entry without retries: it is given up. -/
theorem Core.giveUp {w : World C D} (h : Core w []) {msgId : MsgId} {rest : List (Command C D)}
    (hcmds : w.cmds = .resendTimeout msgId :: rest) {p : Pending D}
    (hp : w.broker.pending.lookup msgId = some p) (hretries : p.retries = 0) :
    Core ((w.take (.resendTimeout msgId) rest).emit (w.broker.forget msgId, [])) [] := by
  have hworld : (w.take (.resendTimeout msgId) rest).emit (w.broker.forget msgId, [])
      = { w with
          broker := w.broker.forget msgId
          closed := false
          cmds := rest
          discharged := w.discharged
          gaveUp := w.gaveUp ++ [p] } := by
    simp [World.emit, World.take, Command.send?, discharges, givesUp, Command.isClose, hp, hretries]
  rw [hworld]
  refine (h.dequeue_timeout hcmds hp).settle false ?_
  rw [List.map_append, ← Multiset.coe_add, ← Multiset.singleton_add]
  show _ + (_ + {p.message}) = _
  abel

/-- **One command** keeps the account. -/
theorem Core.process {b₀ : Broker C D} {w : World C D} (h : Core w [])
    (hissues : Issues b₀ w.broker w.effects) {cmd : Command C D} {rest : List (Command C D)}
    (hcmds : w.cmds = cmd :: rest)
    (hcount : (Aiomsg.issued (w.process cmd rest).effects).length < 2 ^ 64) :
    Core (w.process cmd rest) [] := by
  have hbefore : (Aiomsg.issued w.effects).length < 2 ^ 64 := by
    refine Nat.lt_of_le_of_lt ?_ hcount
    show _ ≤ (Aiomsg.issued (w.effects ++ _)).length
    rw [issued_append, List.length_append]
    exact Nat.le_add_right _ _
  have hfresh := hissues.fresh hbefore
  rw [World.process] at hcount ⊢
  have hturn := w.broker.turn_step cmd
  generalize w.broker.step cmd = r at hturn hcount
  cases hturn with
  | turnedAway | disconnected | data | hello | heartbeat | close =>
    exact h.process_keep hcmds (fun _ _ => nofun) rfl rfl rfl rfl rfl rfl rfl rfl
  | @dataReq identity msgId payload =>
    exact h.process_keep hcmds (fun _ _ => nofun) rfl rfl rfl rfl rfl rfl
      (issued_route w.broker (some identity) (.ack msgId))
      (timerMsgs_route w.broker (some identity) (.ack msgId))
  | ackIgnored hnone =>
    exact h.process_keep hcmds (fun _ _ => nofun) rfl hnone rfl rfl rfl rfl rfl rfl
  | @timeoutIgnored msgId hnone =>
    refine h.process_keep hcmds (fun m hm heq => ?_) rfl rfl ?_ rfl rfl rfl rfl rfl
    · obtain rfl := Command.resendTimeout.inj heq
      exact AList.lookup_eq_none.mp hnone hm
    · rw [givesUp, hnone]
      rfl
  | buffered => exact (h.take_send hcmds).buffer
  | sent => exact (h.take_send hcmds).transmit hfresh maxRetries
  | connected => exact h.flush hissues hcmds hcount
  | acked hp => exact h.discharge hcmds hp
  | gaveUp hp hretries => exact h.giveUp hcmds hp hretries
  | rebuffered hp hretries =>
    rw [World.emit_take_timeout hp hretries]
    exact (h.dequeue_timeout hcmds hp).buffer
  | @resent msgId p hp hretries =>
    rw [World.emit_take_timeout hp hretries] at hcount ⊢
    exact (h.dequeue_timeout hcmds hp).transmit hfresh (p.retries - 1)

/-! ### The timer thread -/

/-- A step of the timer thread, or of the clock: the broker and what it has done stay as they are.
-/
theorem Core.timer {w w' : World C D} (h : Core w []) (hbroker : w'.broker = w.broker)
    (heffects : w'.effects = w.effects) (haccepted : w'.accepted = w.accepted)
    (hdischarged : w'.discharged = w.discharged) (hgaveUp : w'.gaveUp = w.gaveUp)
    (hcancel : ∀ msgId, .cancel msgId ∈ w'.toTimer → .cancel msgId ∈ w.toTimer)
    (hsends : ∀ identity data, .send identity data ∈ w'.cmds → .send identity data ∈ w.cmds)
    (hcovered : ∀ msgId ∈ w.broker.pending, Covered w msgId → Covered w' msgId) : Core w' [] := by
  refine h.keep (by rw [hbroker]) ?_ (by rw [hbroker]) (by rw [hbroker]) (by rw [heffects])
    haccepted hcancel (fun i d hsend => .inl (hsends i d hsend)) hcovered
  rw [World.places, World.places, hbroker, hdischarged, hgaveUp]

/-- The timer takes a message: an `Arm` becomes a deadline, and a `Cancel` is for an id that is
pending no more. -/
theorem Core.receive {w : World C D} (h : Core w []) {msg : TimerMsg} {rest : List TimerMsg}
    (hmsg : w.toTimer = msg :: rest) :
    Core { w with toTimer := rest, timer := w.timer.receive w.now msg } [] := by
  refine h.timer rfl rfl rfl rfl rfl (fun m hm => ?_) (fun _ _ => id) fun m hin hcov => ?_
  · rw [hmsg]
    exact List.mem_cons_of_mem _ hm
  · cases msg with
    | arm msgId =>
      rcases hcov with harm | ⟨harmed, deadline, hdeadline⟩ | htimeout
      · rw [hmsg] at harm
        rcases List.mem_cons.mp harm with heq | harm
        · obtain rfl := TimerMsg.arm.inj heq
          refine .inr (.inl ⟨Finset.mem_insert_self _ _, w.now + resendTimeout, ?_⟩)
          exact List.mem_append_right _ (List.mem_singleton_self _)
        · exact .inl harm
      · exact .inr (.inl ⟨Finset.mem_insert_of_mem harmed, deadline,
          List.mem_append_left _ hdeadline⟩)
      · exact .inr (.inr htimeout)
    | cancel msgId =>
      have hne : m ≠ msgId := by
        rintro rfl
        exact (h.cancelled m (hmsg ▸ List.mem_cons_self)).2 hin
      rcases hcov with harm | ⟨harmed, hdeadline⟩ | htimeout
      · rw [hmsg] at harm
        exact .inl ((List.mem_cons.mp harm).resolve_left nofun)
      · exact .inr (.inl ⟨Finset.mem_erase.mpr ⟨hne, harmed⟩, hdeadline⟩)
      · exact .inr (.inr htimeout)

/-- A deadline that fires becomes a timeout in the broker's channel. -/
theorem Core.fire {w : World C D} (h : Core w []) {deadline : ℕ} {msgId : MsgId}
    {rest : List (ℕ × MsgId)} (hfront : w.timer.deadlines = (deadline, msgId) :: rest) :
    Core { w with
      cmds := w.cmds ++ [.resendTimeout msgId]
      timer := { w.timer with deadlines := rest, armed := w.timer.armed.erase msgId } } [] := by
  refine h.timer rfl rfl rfl rfl rfl (fun _ => id) (fun i d hsend => ?_) fun m _ hcov => ?_
  · exact (List.mem_append.mp hsend).resolve_right (by simp)
  · by_cases hm : m = msgId
    · subst hm
      exact .inr (.inr (List.mem_append_right _ (List.mem_singleton_self _)))
    · rcases hcov with harm | ⟨harmed, t, ht⟩ | htimeout
      · exact .inl harm
      · rw [hfront] at ht
        refine .inr (.inl ⟨Finset.mem_erase.mpr ⟨hm, harmed⟩, t, ?_⟩)
        exact (List.mem_cons.mp ht).resolve_left fun heq => hm (Prod.mk.inj heq).2
      · exact .inr (.inr (List.mem_append_left _ htimeout))

/-- A tombstone at the front is nobody's deadline. -/
theorem Core.skip {w : World C D} (h : Core w []) {deadline : ℕ} {msgId : MsgId}
    {rest : List (ℕ × MsgId)} (hfront : w.timer.deadlines = (deadline, msgId) :: rest)
    (harmed : msgId ∉ w.timer.armed) :
    Core { w with timer := { w.timer with deadlines := rest } } [] := by
  refine h.timer rfl rfl rfl rfl rfl (fun _ => id) (fun _ _ => id) fun m _ hcov => ?_
  rcases hcov with harm | ⟨hm, t, ht⟩ | htimeout
  · exact .inl harm
  · rw [hfront] at ht
    refine .inr (.inl ⟨hm, t, (List.mem_cons.mp ht).resolve_left fun heq => harmed ?_⟩)
    exact (Prod.mk.inj heq).2 ▸ hm
  · exact .inr (.inr htimeout)

/-! ### Every run -/

/-- What holds in every reachable state: the ids given out, and, as long as they are fewer than
`2 ^ 64`, the account. -/
structure Inv (b₀ : Broker C D) (w : World C D) : Prop where
  issues : Issues b₀ w.broker w.effects
  core : (issued w.effects).length < 2 ^ 64 → Core w []

theorem inv_start (sendMode : SendMode) (salt : List.Vector UInt8 8) :
    Inv (.new sendMode .atLeastOnce salt) (World.start sendMode salt : World C D) where
  issues := .of_none rfl rfl rfl rfl
  core := fun _ =>
    { issued := fun _ hin => absurd hin (AList.notMem_empty _)
      cancelled := fun _ hmem => absurd hmem List.not_mem_nil
      reliable := fun _ hmem => absurd hmem List.not_mem_nil
      reliableSends := fun _ _ hmem => absurd hmem List.not_mem_nil
      conserved := rfl
      covered := fun _ hin => absurd hin (AList.notMem_empty _) }

theorem Inv.step {b₀ : Broker C D} {w w' : World C D} (h : Inv b₀ w) (hstep : Step w w') :
    Inv b₀ w' := by
  cases hstep with
  | @post cmd hcmd =>
    refine ⟨h.issues, fun hcount => (h.core hcount).keep rfl rfl rfl rfl rfl rfl (fun _ => id)
      (fun i d hsend => ?_) fun m _ hcov => hcov.imp_right (.imp_right (List.mem_append_left _))⟩
    refine (List.mem_append.mp hsend).imp_right fun hmem => ?_
    obtain rfl := List.mem_singleton.mp hmem
    exact hcmd
  | process hcmds =>
    refine ⟨h.issues.trans (issues_step _ _), fun hcount => ?_⟩
    refine Core.process (h.core (Nat.lt_of_le_of_lt ?_ hcount)) h.issues hcmds hcount
    show _ ≤ (issued (w.effects ++ _)).length
    rw [issued_append, List.length_append]
    exact Nat.le_add_right _ _
  | receive _ hmsg => exact ⟨h.issues, fun hcount => (h.core hcount).receive hmsg⟩
  | fire _ hfront => exact ⟨h.issues, fun hcount => (h.core hcount).fire hfront⟩
  | skip _ hfront _ harmed => exact ⟨h.issues, fun hcount => (h.core hcount).skip hfront harmed⟩
  | tick | timeout | readClock | wait =>
    exact ⟨h.issues, fun hcount => (h.core hcount).timer rfl rfl rfl rfl rfl (fun _ => id)
      (fun _ _ => id) fun _ _ => id⟩

/-- **No accepted message is forgotten.** In every reachable state of the broker and its timer,
after fewer than `2 ^ 64` transmissions: the messages accepted so far are, one for one, those in the
buffer, those in `pending`, those discharged by an ACK for their id, and those given up without
retries left; every pending id is on its way around the two threads; and no id was armed twice. -/
theorem conservation {sendMode : SendMode} {salt : List.Vector UInt8 8} {w : World C D}
    (hreach : (system C D sendMode salt).Reachable w)
    (hcount : (transmitted w.effects).length < 2 ^ 64) :
    w.accepted.Perm (w.broker.buffer ++ pendingMessages w.broker ++
      w.discharged.map Pending.message ++ w.gaveUp.map Pending.message) ∧
    (∀ msgId ∈ w.broker.pending, Covered w msgId) ∧
    (arms w.effects).Nodup := by
  have hinv : Inv (.new sendMode .atLeastOnce salt) w := by
    refine hreach.invariant ?_ fun _ _ h hstep => h.step hstep.2
    rintro _ rfl
    exact inv_start sendMode salt
  have hids : (issued w.effects).length < 2 ^ 64 :=
    Nat.lt_of_le_of_lt (length_issued_le w.effects) hcount
  have hcore := hinv.core hids
  refine ⟨?_, hcore.covered, ?_⟩
  · have hplaces := hcore.conserved
    rw [World.places, Multiset.coe_nil, zero_add, Multiset.coe_add, Multiset.coe_add,
      Multiset.coe_add] at hplaces
    exact Multiset.coe_eq_coe.mp hplaces
  · rw [hinv.issues.armed]
    exact hinv.issues.nodup hids

/-- One peer, one message transmitted to it, and its timer armed. -/
def oneArmed : World ℕ ℕ :=
  let up : Command ℕ ℕ := .connectionUp (List.Vector.replicate 16 1) 0 0
  let w : World ℕ ℕ := .start .roundRobin (List.Vector.replicate 8 0)
  let w := { w with cmds := [up] }.process up []
  let w := { w with cmds := [.send none 7] }.process (.send none 7) []
  let arm : TimerMsg := .arm (msgIdOf (List.Vector.replicate 8 0) 0)
  { w with toTimer := [], timer := w.timer.receive 0 arm }

theorem oneArmed_conserved :
    oneArmed.accepted = [(none, 7)] ∧ pendingMessages oneArmed.broker = [(none, 7)] ∧
    oneArmed.accepted.Perm (oneArmed.broker.buffer ++ pendingMessages oneArmed.broker ++
      oneArmed.discharged.map Pending.message ++ oneArmed.gaveUp.map Pending.message) ∧
    Covered oneArmed (msgIdOf (List.Vector.replicate 8 0) 0) := by
  have hup : ∀ b : Broker ℕ ℕ, FromOutside b (.connectionUp (List.Vector.replicate 16 1) 0 0) :=
    fun _ => trivial
  have hsend : ∀ b : Broker ℕ ℕ, b.atLeastOnce none = true → FromOutside b (.send none 7) :=
    fun _ h => h
  have hreach : (system ℕ ℕ .roundRobin (List.Vector.replicate 8 0)).Reachable oneArmed :=
    .step (.step (.step (.step (.step (.init rfl) ⟨rfl, .post (hup _)⟩) ⟨rfl, .process rfl⟩)
      ⟨rfl, .post (hsend _ rfl)⟩) ⟨rfl, .process rfl⟩) ⟨rfl, .receive rfl rfl⟩
  have hwhole := conservation hreach (by decide)
  have hin : msgIdOf (List.Vector.replicate 8 0) 0 ∈ oneArmed.broker.pending :=
    AList.lookup_isSome.mp (by decide)
  exact ⟨by decide, by decide, hwhole.1, hwhole.2.1 _ hin⟩

end ResendTimers

end Aiomsg
