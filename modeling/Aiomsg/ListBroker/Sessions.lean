import Aiomsg.Lib.Machine
import Aiomsg.ListBroker.Basic

/-!
# A broker and its sessions

Many connections work on one broker: in the Java and the C# port each has a thread or a task of its
own and takes the lock for every access, in the JavaScript ports callbacks run one after the other.
Either way a step of the whole is one operation on the broker, and steps of different connections
come in any order.

A connection registers at most once, under the identity its peer gave. From then on, until it takes
itself off the list, it passes on what its peer sends. So what it passes on comes under an identity
that leads back to it: this is why an ACK goes out on the connection the message came in on,
although the broker looks the connection up by identity.

## Scope

An inbox that takes every payload, and connections that take every ACK as long as they pass anything
on, are those of the JavaScript, the browser and the Java port. The C# port writes to channels which
it completes when the socket or the connection stops, and a completed channel refuses: a payload
that a reader passes on while the socket is disposed, or an ACK for a connection that has just
stopped, is dropped there. What is said here of the inbox and of the ACKs is not said of that port.
Nothing else depends on it.

The threads that read and write, and the bytes, are not here. A connection is a number, and an
envelope comes in whole.

## Main results

* `Served.logs_of_run` — what the events of a run bring
* `Served.Table` — identities and connections of the list are distinct
* `Served.table_of_run`
* `Served.senders_of_run` — who a payload is said to be from
-/

namespace Aiomsg

/-- A broker at work. -/
structure Served (κ C D : Type) extends ListBroker κ C D where
  /-- The connections that have tried to register. -/
  started : List C
  /-- What the application is given: payloads with the identities of their senders. -/
  inbox : List (D × Identity)
  /-- The ACKs that the connections' peers have asked for. -/
  due : List (C × MsgId)

namespace Served

variable {κ C D : Type}

def new (sendMode : SendMode) (delivery : DeliveryGuarantee) (cursor : κ) : Served κ C D where
  toListBroker := .new sendMode delivery cursor
  started := []
  inbox := []
  due := []

/-- What happens at a broker. -/
inductive Event (C D : Type) where
  | send (target : Option Identity) (data : D)
  | register (identity : Identity) (conn : C)
  | received (conn : C) (envelope : Envelope D)
  | unregister (conn : C)
  | expire (due : MsgId × InFlight D → Bool)
  | close (forget : Bool)

/-- The message the application hands over. -/
def Event.send? : Event C D → Option (Option Identity × D)
  | .send target data => some (target, data)
  | _ => none

/-- The payload a connection passes on. -/
def Event.payload? : Event C D → Option D
  | .received _ (.data payload) => some payload
  | .received _ (.dataReq _ payload) => some payload
  | _ => none

/-- The ACK a connection's peer asks for. -/
def Event.request? : Event C D → Option (C × MsgId)
  | .received conn (.dataReq msgId _) => some (conn, msgId)
  | _ => none

/-- The payload a connection passes on, and the connection. -/
def Event.delivery? : Event C D → Option (C × D)
  | .received conn (.data payload) => some (conn, payload)
  | .received conn (.dataReq _ payload) => some (conn, payload)
  | _ => none

/-- The identity a connection tries to register under. -/
def Event.registered? [DecidableEq C] (conn : C) : Event C D → Option Identity
  | .register identity conn' => if conn' = conn then some identity else none
  | _ => none

section Step

variable [DecidableEq C] (P : Variant κ D) (env : Outside)

/-- Operate on the broker. -/
def apply (w : Served κ C D) (op : ListBroker.Op C D) : Served κ C D :=
  { w with toListBroker := w.toListBroker.step P env op }

/-- A payload is put into the inbox, which takes it. That of `csharp-lib` takes none any more once
`DisposeAsync` has completed it. -/
def deliver (w : Served κ C D) (sender : Identity) (payload : D) : Served κ C D :=
  { w with inbox := w.inbox ++ [(payload, sender)] }

/-- A connection passes on an envelope, as one from `sender`. A HELLO or a HEARTBEAT changes
nothing. -/
def received (w : Served κ C D) (conn : C) (sender : Identity) : Envelope D → Served κ C D
  | .data payload => w.deliver sender payload
  | .dataReq msgId payload =>
    { (w.deliver sender payload).apply P env (.answer sender msgId) with
      due := w.due ++ [(conn, msgId)] }
  | .ack msgId => w.apply P env (.acknowledge msgId)
  | _ => w

/-- The identity a connection is listed under. -/
def peerOf (w : Served κ C D) (conn : C) : Option Identity :=
  (w.conns.find? fun e => e.2 = conn).map Prod.fst

def step (w : Served κ C D) : Event C D → Option (Served κ C D)
  | .send target data => some (w.apply P env (.send target data))
  | .register identity conn =>
    if conn ∈ w.started then none
    else some { w.apply P env (.register identity conn) with started := conn :: w.started }
  | .received conn envelope =>
    (w.peerOf conn).map fun sender => w.received P env conn sender envelope
  | .unregister conn => some (w.apply P env (.unregister conn))
  | .expire due => some (w.apply P env (.expire due))
  | .close forget => some (w.apply P env (.close forget))

def machine : Machine (Served κ C D) (Event C D) where
  step := step P env

end Step

/-! ### Steps are operations -/

section Operations

variable [DecidableEq C] {P : Variant κ D} {env : Outside} {w w' : Served κ C D}

/-- What an envelope makes its connection do. -/
theorem received_cases (P : Variant κ D) (env : Outside) (w : Served κ C D) (conn : C)
    (sender : Identity) (envelope : Envelope D) :
    let w' := w.received P env conn sender envelope
    w'.started = w.started ∧
      ((w'.toListBroker = w.toListBroker ∧ w'.due = w.due) ∨
        (∃ msgId, w'.toListBroker = w.toListBroker.step P env (.answer sender msgId) ∧
          w'.due = w.due ++ [(conn, msgId)]) ∨
        ∃ msgId, w'.toListBroker = w.toListBroker.step P env (.acknowledge msgId) ∧
          w'.due = w.due) := by
  cases envelope with
  | hello | heartbeat | data => exact ⟨rfl, .inl ⟨rfl, rfl⟩⟩
  | dataReq msgId payload => exact ⟨rfl, .inr (.inl ⟨msgId, rfl, rfl⟩)⟩
  | ack msgId => exact ⟨rfl, .inr (.inr ⟨msgId, rfl, rfl⟩)⟩

/-- What a step does with the broker is one of its operations, or nothing. -/
theorem exists_ops_of_step {e : Event C D} (h : w.step P env e = some w') :
    ∃ ops, w'.toListBroker = w.toListBroker.run P env ops := by
  cases e with
  | send target data => exact ⟨[.send target data], by cases h; rfl⟩
  | register identity conn =>
    rw [step] at h
    split at h
    · cases h
    · exact ⟨[.register identity conn], by cases h; rfl⟩
  | received conn envelope =>
    obtain ⟨sender, -, rfl⟩ := Option.map_eq_some_iff.mp h
    obtain ⟨-, ⟨h', -⟩ | ⟨msgId, h', -⟩ | ⟨msgId, h', -⟩⟩ :=
      w.received_cases P env conn sender envelope
    · exact ⟨[], h'⟩
    · exact ⟨[.answer sender msgId], h'⟩
    · exact ⟨[.acknowledge msgId], h'⟩
  | unregister conn => exact ⟨[.unregister conn], by cases h; rfl⟩
  | expire due => exact ⟨[.expire due], by cases h; rfl⟩
  | close forget => exact ⟨[.close forget], by cases h; rfl⟩

/-- What happens at a broker is a run of its operations. -/
theorem exists_ops_of_run {es : List (Event C D)} (h : (machine P env).run w es = some w') :
    ∃ ops, w'.toListBroker = w.toListBroker.run P env ops := by
  induction es generalizing w with
  | nil => exact ⟨[], by cases h; rfl⟩
  | cons e rest ih =>
    obtain ⟨u, hstep, hrun⟩ := Machine.exists_step_of_run_cons h
    obtain ⟨ops, hops⟩ := exists_ops_of_step hstep
    obtain ⟨ops', hops'⟩ := ih hrun
    refine ⟨ops ++ ops', ?_⟩
    rw [hops', hops, ListBroker.run, ListBroker.run, ListBroker.run, List.foldl_append]

/-- Only `close` closes. -/
theorem closed_step {e : Event C D} (he : ∀ forget, e ≠ .close forget)
    (h : w.step P env e = some w') : w'.closed = w.closed := by
  have hsame := ListBroker.closed_sameTable (κ := κ) (C := C) P env
  cases e with
  | send target data =>
    cases h
    exact (hsame.send { w.toListBroker with handed := w.handed ++ [(target, data)] } _ _).closed
  | register identity conn =>
    rw [step] at h
    split at h
    · cases h
    · cases h
      rcases ListBroker.step_register_cases P env w.toListBroker identity conn with
        ⟨heq, -⟩ | ⟨heq, -⟩
      · exact congrArg ListBroker.closed heq
      · exact (congrArg ListBroker.closed heq).trans
          (hsame.sendAll (w.connect identity conn) w.buffer).closed
  | received conn envelope =>
    obtain ⟨sender, -, rfl⟩ := Option.map_eq_some_iff.mp h
    cases envelope with
    | hello | heartbeat | data | ack => rfl
    | dataReq msgId payload =>
      exact (ListBroker.routes_route P w.toListBroker (some sender) (.ack msgId)).closed
  | unregister conn => cases h; rfl
  | expire due =>
    cases h
    exact (hsame.resendAll
      { w.toListBroker with pending := w.pending.filter fun e => ! due e } _).closed
  | close forget => exact absurd rfl (he forget)

end Operations

/-! ### What the events bring -/

section Logs

variable {w w' : Served κ C D}

/-- What the application hands over, what it is given, and the ACKs that are due, event by event. -/
structure Logs (es : List (Event C D)) (w w' : Served κ C D) : Prop where
  handed : w'.handed = w.handed ++ es.filterMap Event.send?
  inbox : w'.inbox.map Prod.fst = w.inbox.map Prod.fst ++ es.filterMap Event.payload?
  due : w'.due = w.due ++ es.filterMap Event.request?

theorem Logs.of_eq {e : Event C D} (hsend : e.send? = none) (hpayload : e.payload? = none)
    (hrequest : e.request? = none) (hhanded : w'.handed = w.handed) (hinbox : w'.inbox = w.inbox)
    (hdue : w'.due = w.due) : Logs [e] w w' where
  handed := by rw [hhanded, List.filterMap_cons_none hsend]; exact (List.append_nil _).symm
  inbox := by rw [hinbox, List.filterMap_cons_none hpayload]; exact (List.append_nil _).symm
  due := by rw [hdue, List.filterMap_cons_none hrequest]; exact (List.append_nil _).symm

variable [DecidableEq C] {P : Variant κ D} {env : Outside}

/-- Only the application hands messages over. -/
theorem handed_step (P : Variant κ D) (env : Outside) (b : ListBroker κ C D)
    (op : ListBroker.Op C D) (h : ∀ target data, op ≠ .send target data) :
    (b.step P env op).handed = b.handed := by
  have hsame := ListBroker.closed_handed (κ := κ) (C := C) P env
  cases op with
  | send target data => exact absurd rfl (h target data)
  | register identity conn =>
    rcases ListBroker.step_register_cases P env b identity conn with ⟨heq, -⟩ | ⟨heq, -⟩
    · rw [heq]
    · rw [heq]
      exact hsame.sendAll (b.connect identity conn) b.buffer
  | unregister | acknowledge | close => rfl
  | answer sender msgId => exact (ListBroker.routes_route P b (some sender) (.ack msgId)).handed
  | expire due =>
    exact hsame.resendAll { b with pending := b.pending.filter fun e => ! due e } _

theorem logs_of_step {e : Event C D} (h : w.step P env e = some w') : Logs [e] w w' := by
  cases e with
  | send target data =>
    cases h
    have hhanded := (ListBroker.closed_handed (κ := κ) (C := C) P env).send
      { w.toListBroker with handed := w.handed ++ [(target, data)] } target data
    exact ⟨hhanded, (List.append_nil _).symm, (List.append_nil _).symm⟩
  | register identity conn =>
    rw [step] at h
    split at h
    · cases h
    · cases h
      exact .of_eq rfl rfl rfl (handed_step P env _ _ (by simp)) rfl rfl
  | unregister | expire | close =>
    cases h
    exact .of_eq rfl rfl rfl (handed_step P env _ _ (by simp)) rfl rfl
  | received conn envelope =>
    obtain ⟨sender, -, rfl⟩ := Option.map_eq_some_iff.mp h
    cases envelope with
    | hello | heartbeat => exact .of_eq rfl rfl rfl rfl rfl rfl
    | ack msgId => exact .of_eq rfl rfl rfl (handed_step P env _ _ (by simp)) rfl rfl
    | data payload => exact ⟨(List.append_nil _).symm, List.map_append, (List.append_nil _).symm⟩
    | dataReq msgId payload =>
      have hhanded := handed_step P env w.toListBroker (.answer sender msgId) (by simp)
      exact ⟨hhanded.trans (List.append_nil _).symm, List.map_append, rfl⟩

theorem logs_of_run {es : List (Event C D)} (h : (machine P env).run w es = some w') :
    Logs es w w' := by
  induction es generalizing w with
  | nil =>
    cases h
    exact ⟨(List.append_nil _).symm, (List.append_nil _).symm, (List.append_nil _).symm⟩
  | cons e rest ih =>
    obtain ⟨u, hstep, hrun⟩ := Machine.exists_step_of_run_cons h
    have hone := logs_of_step hstep
    have hrest := ih hrun
    refine ⟨?_, ?_, ?_⟩
    · rw [hrest.handed, hone.handed, List.append_assoc, ← List.filterMap_append]
      rfl
    · rw [hrest.inbox, hone.inbox, List.append_assoc, ← List.filterMap_append]
      rfl
    · rw [hrest.due, hone.due, List.append_assoc, ← List.filterMap_append]
      rfl

end Logs

/-! ### The list of connections -/

/-- The list has every identity and every connection once, and only connections that registered. -/
structure Table (w : Served κ C D) : Prop where
  identities : (w.conns.map Prod.fst).Nodup
  handles : (w.conns.map Prod.snd).Nodup
  started : ∀ e ∈ w.conns, e.2 ∈ w.started

/-- An identity of the list leads to its connection. -/
theorem Table.findConn {w : Served κ C D} (h : Table w) {e : Identity × C} (he : e ∈ w.conns) :
    w.findConn e.1 = some e.2 := by
  have hinj := List.inj_on_of_nodup_map h.identities
  cases hfind : w.conns.find? fun e' => e'.1 = e.1 with
  | none => exact absurd (List.find?_eq_none.mp hfind e he) (by simp)
  | some e' =>
    have hfst : e'.1 = e.1 := by simpa using List.find?_some hfind
    rw [ListBroker.findConn, hfind, hinj (List.mem_of_find?_eq_some hfind) he hfst]
    rfl

theorem table_new (sendMode : SendMode) (delivery : DeliveryGuarantee) (cursor : κ) :
    Table (new sendMode delivery cursor : Served κ C D) :=
  ⟨by simp [new, ListBroker.new], by simp [new, ListBroker.new], by simp [new, ListBroker.new]⟩

/-- A list that lost some of its connections. -/
theorem Table.of_sublist {w w' : Served κ C D} (h : Table w) (hconns : w'.conns.Sublist w.conns)
    (hstarted : w'.started = w.started) : Table w' where
  identities := h.identities.sublist (hconns.map _)
  handles := h.handles.sublist (hconns.map _)
  started e he := hstarted ▸ h.started e (hconns.subset he)

section TableSteps

variable [DecidableEq C] {P : Variant κ D} {env : Outside} {w w' : Served κ C D}

/-- Only a registration adds to the list. -/
theorem conns_step (P : Variant κ D) (env : Outside) (b : ListBroker κ C D)
    (op : ListBroker.Op C D) :
    (b.step P env op).conns.Sublist b.conns ∨
      ∃ identity conn, op = .register identity conn ∧ identity ∉ b.conns.map Prod.fst ∧
        (b.step P env op).conns = b.conns ++ [(identity, conn)] := by
  have hsame := ListBroker.closed_sameTable (κ := κ) (C := C) P env
  have hstay : ∀ {l : List (Identity × C)}, l = b.conns → l.Sublist b.conns := by
    rintro _ rfl
    exact List.Sublist.refl _
  cases op with
  | send target data =>
    refine .inl (hstay ?_)
    exact (hsame.send { b with handed := b.handed ++ [(target, data)] } target data).conns
  | register identity conn =>
    rcases ListBroker.step_register_cases P env b identity conn with ⟨h, -⟩ | ⟨h, hnew⟩
    · exact .inl (by rw [h])
    · refine .inr ⟨identity, conn, rfl, hnew, ?_⟩
      rw [h]
      exact (hsame.sendAll (b.connect identity conn) b.buffer).conns
  | unregister conn => exact .inl List.eraseP_sublist
  | answer sender msgId =>
    exact .inl (hstay (ListBroker.routes_route P b (some sender) (.ack msgId)).conns)
  | acknowledge msgId => exact .inl (.refl _)
  | expire due =>
    refine .inl (hstay ?_)
    exact (hsame.resendAll { b with pending := b.pending.filter fun e => ! due e } _).conns
  | close forget => exact .inl (.refl _)

/-- Whoever is on the list was there before, or has just registered. -/
theorem mem_conns_step {e : Event C D} (hstep : w.step P env e = some w')
    {entry : Identity × C} (hentry : entry ∈ w'.conns) :
    entry ∈ w.conns ∨ e = .register entry.1 entry.2 := by
  have hstay (op : ListBroker.Op C D) (hop : ∀ identity conn, op ≠ .register identity conn)
      (hmem : entry ∈ (w.toListBroker.step P env op).conns) : entry ∈ w.conns := by
    rcases conns_step P env w.toListBroker op with hconns | ⟨identity, conn, heq, -⟩
    · exact hconns.subset hmem
    · exact absurd heq (hop identity conn)
  cases e with
  | send | unregister | expire | close =>
    cases hstep
    exact .inl (hstay _ (by simp) hentry)
  | register identity conn =>
    rw [Served.step] at hstep
    split at hstep
    · cases hstep
    · cases hstep
      rcases conns_step P env w.toListBroker (.register identity conn) with
        hconns | ⟨identity', conn', heq, -, hconns⟩
      · exact .inl (hconns.subset hentry)
      · cases heq
        have hmem : entry ∈ w.conns ++ [(identity, conn)] := hconns ▸ hentry
        rcases List.mem_append.mp hmem with hmem | hmem
        · exact .inl hmem
        · rw [List.mem_singleton.mp hmem]
          exact .inr rfl
  | received conn envelope =>
    obtain ⟨sender, -, rfl⟩ := Option.map_eq_some_iff.mp hstep
    cases envelope with
    | hello | heartbeat | data => exact .inl hentry
    | ack msgId => exact .inl (hstay (.acknowledge msgId) (by simp) hentry)
    | dataReq msgId payload => exact .inl (hstay (.answer sender msgId) (by simp) hentry)

/-- An operation that registers nobody keeps the list in order. -/
theorem Table.apply (h : Table w) {op : ListBroker.Op C D}
    (hop : ∀ identity conn, op ≠ .register identity conn) : Table (w.apply P env op) := by
  rcases conns_step P env w.toListBroker op with hconns | ⟨identity, conn, heq, -⟩
  · exact h.of_sublist hconns rfl
  · exact absurd heq (hop identity conn)

theorem Table.received (h : Table w) (conn : C) (sender : Identity) (envelope : Envelope D) :
    Table (w.received P env conn sender envelope) := by
  cases envelope with
  | hello | heartbeat | data => exact h.of_sublist (List.Sublist.refl _) rfl
  | dataReq msgId payload =>
    have hdeliver : Table (w.deliver sender payload) := h.of_sublist (List.Sublist.refl _) rfl
    have happly : Table ((w.deliver sender payload).apply P env (.answer sender msgId)) :=
      hdeliver.apply (by simp)
    exact happly.of_sublist (List.Sublist.refl _) rfl
  | ack msgId => exact h.apply (by simp)

theorem Table.step {e : Event C D} (h : Table w) (hstep : w.step P env e = some w') :
    Table w' := by
  cases e with
  | send | unregister | expire | close =>
    cases hstep
    exact h.apply (by simp)
  | register identity conn =>
    rw [Served.step] at hstep
    split at hstep
    · cases hstep
    rename_i hnew
    cases hstep
    have hfresh : conn ∉ w.conns.map Prod.snd := fun hmem => by
      obtain ⟨e, he, rfl⟩ := List.mem_map.mp hmem
      exact hnew (h.started e he)
    rcases conns_step P env w.toListBroker (.register identity conn) with
      hconns | ⟨identity', conn', heq, hidentity, hconns⟩
    · exact ⟨h.identities.sublist (hconns.map _), h.handles.sublist (hconns.map _),
        fun e he => List.mem_cons_of_mem _ (h.started e (hconns.subset he))⟩
    · cases heq
      refine ⟨?_, ?_, ?_⟩
      · show (((w.toListBroker.step P env _).conns).map Prod.fst).Nodup
        rw [hconns, List.map_append]
        exact List.nodup_append_comm.mp (List.nodup_cons.mpr ⟨hidentity, h.identities⟩)
      · show (((w.toListBroker.step P env _).conns).map Prod.snd).Nodup
        rw [hconns, List.map_append]
        exact List.nodup_append_comm.mp (List.nodup_cons.mpr ⟨hfresh, h.handles⟩)
      · intro e he
        have he' : e ∈ w.conns ++ [(identity, conn)] := hconns ▸ he
        rcases List.mem_append.mp he' with hmem | hmem
        · exact List.mem_cons_of_mem _ (h.started e hmem)
        · rw [List.mem_singleton.mp hmem]
          exact List.mem_cons_self
  | received conn envelope =>
    obtain ⟨sender, -, rfl⟩ := Option.map_eq_some_iff.mp hstep
    exact h.received conn sender envelope

/-- **The list is in order whatever happens.** -/
theorem table_of_run {es : List (Event C D)} (hrun : (machine P env).run w es = some w')
    (h : Table w) : Table w' :=
  Machine.invariant (fun _ _ _ h hstep => h.step hstep) hrun h

end TableSteps

/-! ### Senders -/

/-- The identity a connection registered under, if it did. -/
def registeredAs [DecidableEq C] (es : List (Event C D)) (conn : C) : Option Identity :=
  es.findSome? (Event.registered? conn)

section Senders

variable [DecidableEq C] {P : Variant κ D} {env : Outside} {w w' : Served κ C D}
  {es : List (Event C D)}

theorem registeredAs_append (es es' : List (Event C D)) (conn : C) :
    registeredAs (es ++ es') conn = (registeredAs es conn).or (registeredAs es' conn) :=
  List.findSome?_append

theorem registeredAs_mono {conn : C} {identity : Identity}
    (h : registeredAs es conn = some identity) (e : Event C D) :
    registeredAs (es ++ [e]) conn = some identity := by
  rw [registeredAs_append, h, Option.some_or]

theorem registeredAs_snoc {e : Event C D} {conn : C} (h : e.registered? conn = none) :
    registeredAs (es ++ [e]) conn = registeredAs es conn := by
  rw [registeredAs_append, registeredAs, registeredAs, List.findSome?_cons, h]
  exact Option.or_none

/-- Connections are listed as they registered, and payloads given with the identity that the
connection they came in on registered under. -/
structure Senders (es : List (Event C D)) (w : Served κ C D) : Prop where
  conns : ∀ e ∈ w.conns, registeredAs es e.2 = some e.1
  started : ∀ conn, conn ∉ w.started → registeredAs es conn = none
  inbox : List.Forall₂ (fun d m => m.1 = d.2 ∧ registeredAs es d.1 = some m.2)
    (es.filterMap Event.delivery?) w.inbox

theorem senders_new (sendMode : SendMode) (delivery : DeliveryGuarantee) (cursor : κ) :
    Senders [] (new sendMode delivery cursor : Served κ C D) where
  conns _ h := absurd h List.not_mem_nil
  started _ _ := rfl
  inbox := .nil

/-- An event that is neither a registration nor a delivery. -/
theorem Senders.snoc (h : Senders es w) {e : Event C D}
    (hregister : ∀ conn, e.registered? conn = none) (hdelivery : e.delivery? = none)
    (hconns : w'.conns.Sublist w.conns) (hstarted : w'.started = w.started)
    (hinbox : w'.inbox = w.inbox) : Senders (es ++ [e]) w' := by
  have hsame (conn : C) : registeredAs (es ++ [e]) conn = registeredAs es conn :=
    registeredAs_snoc (hregister conn)
  refine ⟨fun e' he' => ?_, fun conn hconn => ?_, ?_⟩
  · rw [hsame]
    exact h.conns e' (hconns.subset he')
  · rw [hsame]
    exact h.started conn (hstarted ▸ hconn)
  · simp only [hsame]
    rw [hinbox, List.filterMap_append, List.filterMap_cons_none hdelivery, List.filterMap_nil,
      List.append_nil]
    exact h.inbox

/-- A payload is given with the identity its connection is listed under. -/
theorem Senders.deliver (h : Senders es w) {conn : C} {sender : Identity}
    (hsender : w.peerOf conn = some sender) {payload : D} {e : Event C D}
    (hregister : ∀ conn, e.registered? conn = none) (hdelivery : e.delivery? = some (conn, payload))
    (hconns : w'.conns.Sublist w.conns) (hstarted : w'.started = w.started)
    (hinbox : w'.inbox = w.inbox ++ [(payload, sender)]) : Senders (es ++ [e]) w' := by
  have hsame (conn : C) : registeredAs (es ++ [e]) conn = registeredAs es conn :=
    registeredAs_snoc (hregister conn)
  obtain ⟨entry, hfind, hentry⟩ := Option.map_eq_some_iff.mp hsender
  have hconn : entry.2 = conn := by simpa using List.find?_some hfind
  have hlisted := h.conns entry (List.mem_of_find?_eq_some hfind)
  rw [hconn, hentry] at hlisted
  refine ⟨fun e' he' => ?_, fun conn hconn => ?_, ?_⟩
  · rw [hsame]
    exact h.conns e' (hconns.subset he')
  · rw [hsame]
    exact h.started conn (hstarted ▸ hconn)
  · simp only [hsame]
    rw [hinbox, List.filterMap_append, List.filterMap_cons_some hdelivery, List.filterMap_nil]
    exact List.rel_append h.inbox (.cons ⟨rfl, hlisted⟩ .nil)

theorem Senders.step {e : Event C D} (h : Senders es w) (hstep : w.step P env e = some w') :
    Senders (es ++ [e]) w' := by
  have hsublist (op : ListBroker.Op C D) (hop : ∀ identity conn, op ≠ .register identity conn) :
      (w.toListBroker.step P env op).conns.Sublist w.conns := by
    rcases conns_step P env w.toListBroker op with hconns | ⟨identity, conn, heq, -⟩
    · exact hconns
    · exact absurd heq (hop identity conn)
  cases e with
  | send | unregister | expire | close =>
    cases hstep
    exact h.snoc (fun _ => rfl) rfl (hsublist _ (by simp)) rfl rfl
  | register identity conn =>
    rw [Served.step] at hstep
    split at hstep
    · cases hstep
    rename_i hnew
    cases hstep
    have hself : registeredAs (es ++ [.register identity conn]) conn = some identity := by
      rw [registeredAs_append, h.started conn hnew, Option.none_or, registeredAs,
        List.findSome?_cons, Event.registered?, if_pos rfl]
    have hother {conn' : C} (hne : conn ≠ conn') :
        registeredAs (es ++ [.register identity conn]) conn' = registeredAs es conn' :=
      registeredAs_snoc (if_neg hne)
    refine ⟨fun e he => ?_, fun conn' hconn' => ?_, ?_⟩
    · have hmem : e ∈ w.conns ∨ e = (identity, conn) := by
        rcases conns_step P env w.toListBroker (.register identity conn) with
          hconns | ⟨identity', conn', heq, -, hconns⟩
        · exact .inl (hconns.subset he)
        · cases heq
          have he' : e ∈ w.conns ++ [(identity, conn)] := hconns ▸ he
          exact (List.mem_append.mp he').imp_right List.mem_singleton.mp
      rcases hmem with hold | rfl
      · exact registeredAs_mono (h.conns e hold) _
      · exact hself
    · obtain ⟨hne, hconn'⟩ := not_or.mp (mt List.mem_cons.mpr hconn')
      rw [hother (Ne.symm hne)]
      exact h.started conn' hconn'
    · rw [List.filterMap_append, List.filterMap_cons_none rfl, List.filterMap_nil,
        List.append_nil]
      exact h.inbox.imp fun d m hm => ⟨hm.1, registeredAs_mono hm.2 _⟩
  | received conn envelope =>
    obtain ⟨sender, hsender, rfl⟩ := Option.map_eq_some_iff.mp hstep
    cases envelope with
    | hello | heartbeat => exact h.snoc (fun _ => rfl) rfl (.refl _) rfl rfl
    | ack msgId => exact h.snoc (fun _ => rfl) rfl (hsublist _ (by simp)) rfl rfl
    | data payload => exact h.deliver hsender (fun _ => rfl) rfl (.refl _) rfl rfl
    | dataReq msgId payload =>
      exact h.deliver hsender (fun _ => rfl) rfl (hsublist (.answer sender msgId) (by simp)) rfl rfl

theorem Senders.run {es' : List (Event C D)} (h : Senders es w)
    (hrun : (machine P env).run w es' = some w') : Senders (es ++ es') w' := by
  induction es' generalizing es w with
  | nil =>
    cases hrun
    rwa [List.append_nil]
  | cons e rest ih =>
    obtain ⟨u, hstep, hrest⟩ := Machine.exists_step_of_run_cons hrun
    rw [List.append_cons]
    exact ih (h.step hstep) hrest

/-- What the application has been given stays given. -/
theorem inbox_prefix {e : Event C D} (h : w.step P env e = some w') : w.inbox <+: w'.inbox := by
  cases e with
  | send | unregister | expire | close =>
    cases h
    exact List.prefix_refl _
  | register identity conn =>
    rw [Served.step] at h
    split at h
    · cases h
    · cases h
      exact List.prefix_refl _
  | received conn envelope =>
    obtain ⟨sender, -, rfl⟩ := Option.map_eq_some_iff.mp h
    cases envelope with
    | hello | heartbeat | ack => exact List.prefix_refl _
    | data payload | dataReq msgId payload => exact List.prefix_append _ _

/-- **Every payload is given with the identity its connection registered under.** -/
theorem senders_of_run {sendMode : SendMode} {delivery : DeliveryGuarantee} {cursor : κ}
    (hrun : (machine P env).run (new sendMode delivery cursor) es = some w) : Senders es w :=
  (senders_new sendMode delivery cursor).run hrun

end Senders

end Served

end Aiomsg
