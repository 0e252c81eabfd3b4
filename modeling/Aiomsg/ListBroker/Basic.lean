import Aiomsg.Broker.Messages

/-!
# The brokers that keep their connections in a list

The broker of `javascript-lib/src/socket.js`, of `browser-lib/src/socket.js`, of
`java-lib/src/main/java/aiomsg/Socket.java` and of `csharp-lib/Aiomsg/Socket.cs`. They have the same
functions under the same names, and differ in how they walk round their connections, in how an entry
joins the messages that wait for an ACK, and in what makes an entry expire. The first two are a
`Variant`; the third is up to the operations of each port.

Message ids are random bytes and deadlines come from a clock. `Outside` is what the calls of
`transmit` will see there, for the life of the socket; `drawn` counts them.

A broker puts frames on its connections in `out`, in order. What else it keeps for statements only
is said at the fields. Payloads are of any type `D`, connections of any type `C`.

## Scope

An operation is one critical section: in Java and C# it is made under the socket's lock, in
JavaScript within one callback. So operations do not overlap, and a run is a list of them. Frames
are put on a connection's queue, or written at once; either way `out` has them in the order in which
that is done.

## Main definitions

* `Turns`, `Variant` — how the ports differ
* `ListBroker.route`, `transmit`, `send`, `register`, `unregister`, `acknowledge`, `expire`
* `ListBroker.Op`, `ListBroker.step` — the operations as one type
-/

namespace Aiomsg

/-- How a broker walks round its connections: whose turn it is among `n` of them, and where the
cursor is after that. -/
structure Turns (κ : Type) where
  pick : κ → ℕ → ℕ
  next : κ → ℕ → κ
  pick_lt : ∀ (cursor : κ) {n : ℕ}, 0 < n → pick cursor n < n

/-- A message that waits for its ACK, with the number of its id among those drawn. -/
structure InFlight (D : Type) extends Pending D where
  draw : ℕ
  deadline : ℤ

/-- How the ports differ. An entry that joins is put among the waiting ones, wherever that is; if
its id is one of theirs, the port may do as it likes. In some ports, sending looks at the flag that
the socket is closed. -/
structure Variant (κ D : Type) where
  turns : Turns κ
  checksClosed : Bool
  keep : MsgId × InFlight D → List (MsgId × InFlight D) → List (MsgId × InFlight D)
  keep_perm : ∀ e l, (∀ e' ∈ l, e'.1 ≠ e.1) → (keep e l).Perm (e :: l)
  resendMs : ℤ

/-- What the calls of `transmit` see outside the broker, in order. -/
structure Outside where
  msgId : ℕ → MsgId
  clock : ℕ → ℤ

/-- How the wait for an ACK ends. `dropped` is what `close` makes of it in the ports that clear
their waiting messages then, and what becomes of a message that is sent after `close` where that is
checked. -/
inductive Fate where
  | acked
  | gaveUp
  | dropped
deriving DecidableEq

structure ListBroker (κ C D : Type) where
  sendMode : SendMode
  delivery : DeliveryGuarantee
  closed : Bool
  conns : List (Identity × C)
  rrCursor : κ
  buffer : List (Option Identity × D)
  pending : List (MsgId × InFlight D)
  drawn : ℕ
  out : List (C × Envelope D)
  /-- The messages the application has handed over. -/
  handed : List (Option Identity × D)
  /-- The transmissions, each with its id if it asks for an ACK. -/
  transmitted : List (Option MsgId × Pending D)
  /-- The messages that no longer wait for an ACK. -/
  ended : List (Fate × Option Identity × D)
  /-- The messages that were put back in the buffer. -/
  rebuffered : List (Option Identity × D)

namespace ListBroker

variable {κ C D : Type}

def new (sendMode : SendMode) (delivery : DeliveryGuarantee) (cursor : κ) : ListBroker κ C D where
  sendMode := sendMode
  delivery := delivery
  closed := false
  conns := []
  rrCursor := cursor
  buffer := []
  pending := []
  drawn := 0
  out := []
  handed := []
  transmitted := []
  ended := []
  rebuffered := []

def findConn (b : ListBroker κ C D) (identity : Identity) : Option C :=
  (b.conns.find? fun e => e.1 = identity).map Prod.snd

/-- Put a frame on some connections. -/
def write (b : ListBroker κ C D) (cs : List C) (frame : Envelope D) : ListBroker κ C D :=
  { b with out := b.out ++ cs.map fun c => (c, frame) }

def atLeastOnce (b : ListBroker κ C D) (target : Option Identity) : Bool :=
  b.delivery == .atLeastOnce && (target.isSome || b.sendMode == .roundRobin)

/-- Note a transmission. -/
def mark (b : ListBroker κ C D) (msgId : Option MsgId) (message : Pending D) : ListBroker κ C D :=
  { b with transmitted := b.transmitted ++ [(msgId, message)] }

section Functions

variable (P : Variant κ D) (env : Outside)

def route (b : ListBroker κ C D) (target : Option Identity) (frame : Envelope D) :
    ListBroker κ C D :=
  if b.closed then b
  else
    match target with
    | some identity => b.write (b.findConn identity).toList frame
    | none =>
      if b.conns.isEmpty then b
      else
        match b.sendMode with
        | .publish => b.write (b.conns.map Prod.snd) frame
        | .roundRobin =>
          let turn := P.turns.pick b.rrCursor b.conns.length
          { b with rrCursor := P.turns.next b.rrCursor b.conns.length }.write
            (b.conns[turn]?.toList.map Prod.snd) frame

/-- The entry of a transmission that asks for an ACK. -/
def entryOf (b : ListBroker κ C D) (message : Pending D) : MsgId × InFlight D :=
  (env.msgId b.drawn,
    { toPending := message, draw := b.drawn, deadline := env.clock b.drawn + P.resendMs })

/-- Enter a transmission, before it is routed. -/
def enter (b : ListBroker κ C D) (message : Pending D) : ListBroker κ C D :=
  { b.mark (some (env.msgId b.drawn)) message with
    drawn := b.drawn + 1
    pending := P.keep (b.entryOf P env message) b.pending }

def transmit (b : ListBroker κ C D) (target : Option Identity) (data : D) (retries : ℕ) :
    ListBroker κ C D :=
  if b.atLeastOnce target then
    (b.enter P env ⟨target, data, retries⟩).route P target (.dataReq (env.msgId b.drawn) data)
  else (b.mark none ⟨target, data, retries⟩).route P target (.data data)

/-- Note how the wait of a message ends. -/
def finish (b : ListBroker κ C D) (fate : Fate) (message : Option Identity × D) :
    ListBroker κ C D :=
  { b with ended := b.ended ++ [(fate, message)] }

def send (b : ListBroker κ C D) (target : Option Identity) (data : D) : ListBroker κ C D :=
  if P.checksClosed && b.closed then b.finish .dropped (target, data)
  else if b.conns.isEmpty then { b with buffer := b.buffer ++ [(target, data)] }
  else b.transmit P env target data maxRetries

/-- The loop that sends what was buffered. -/
def sendAll (b : ListBroker κ C D) : List (Option Identity × D) → ListBroker κ C D
  | [] => b
  | (target, data) :: rest => (b.send P env target data).sendAll rest

/-- `none` for a duplicate identity. -/
def register (b : ListBroker κ C D) (identity : Identity) (conn : C) : Option (ListBroker κ C D) :=
  if (b.findConn identity).isSome then none
  else
    -- Flush the send buffer now that a peer exists.
    some ({ b with conns := b.conns ++ [(identity, conn)], buffer := [] }.sendAll P env b.buffer)

/-- What an expired entry comes to once it has been taken out. -/
def resend (b : ListBroker κ C D) (p : InFlight D) : ListBroker κ C D :=
  if p.retries = 0 then b.finish .gaveUp (p.identity, p.data)
  else if b.conns.isEmpty then
    { b with
      buffer := b.buffer ++ [(p.identity, p.data)]
      rebuffered := b.rebuffered ++ [(p.identity, p.data)] }
  else b.transmit P env p.identity p.data (p.retries - 1)

def resendAll (b : ListBroker κ C D) : List (MsgId × InFlight D) → ListBroker κ C D
  | [] => b
  | e :: rest => (b.resend P env e.2).resendAll rest

/-- Take out the entries that are due, and resend them one after the other. -/
def expire (b : ListBroker κ C D) (due : MsgId × InFlight D → Bool) : ListBroker κ C D :=
  { b with pending := b.pending.filter fun e => ! due e }.resendAll P env (b.pending.filter due)

end Functions

def unregister [DecidableEq C] (b : ListBroker κ C D) (conn : C) : ListBroker κ C D :=
  { b with conns := b.conns.eraseP fun e => e.2 = conn }

/-- Whom a waiting message is for, and what it is. -/
def messageOf (e : MsgId × InFlight D) : Option Identity × D := (e.2.identity, e.2.data)

/-- Take some entries out of the waiting ones for good. -/
def settle (b : ListBroker κ C D) (fate : Fate) (which : MsgId × InFlight D → Bool) :
    ListBroker κ C D :=
  { b with
    pending := b.pending.filter fun e => ! which e
    ended := b.ended ++ (b.pending.filter which).map fun e => (fate, messageOf e) }

def acknowledge (b : ListBroker κ C D) (msgId : MsgId) : ListBroker κ C D :=
  b.settle .acked fun e => e.1 = msgId

/-- The flag that the socket is closed. Some ports forget their waiting messages with it. -/
def close (b : ListBroker κ C D) (forget : Bool) : ListBroker κ C D :=
  { b with closed := true }.settle .dropped fun _ => forget

/-! ### The operations as one type -/

/-- What the ports do with their brokers. -/
inductive Op (C D : Type) where
  | send (target : Option Identity) (data : D)
  | register (identity : Identity) (conn : C)
  | unregister (conn : C)
  | answer (sender : Identity) (msgId : MsgId)
  | acknowledge (msgId : MsgId)
  | expire (due : MsgId × InFlight D → Bool)
  | close (forget : Bool)

/-- Hand a message over, and send it. -/
def hand (P : Variant κ D) (env : Outside) (b : ListBroker κ C D) (target : Option Identity)
    (data : D) : ListBroker κ C D :=
  { b with handed := b.handed ++ [(target, data)] }.send P env target data

def step [DecidableEq C] (P : Variant κ D) (env : Outside) (b : ListBroker κ C D) :
    Op C D → ListBroker κ C D
  | .send target data => b.hand P env target data
  | .register identity conn => (b.register P env identity conn).getD b
  | .unregister conn => b.unregister conn
  | .answer sender msgId => b.route P (some sender) (.ack msgId)
  | .acknowledge msgId => b.acknowledge msgId
  | .expire due => b.expire P env due
  | .close forget => b.close forget

def run [DecidableEq C] (P : Variant κ D) (env : Outside) (b : ListBroker κ C D)
    (ops : List (Op C D)) : ListBroker κ C D :=
  ops.foldl (step P env) b

/-! ### What routing does -/

/-- **Routing puts one frame on some registered connections**, each at most once, and on one of them
at most unless it is published. -/
theorem exists_route_eq (P : Variant κ D) (b : ListBroker κ C D) (target : Option Identity)
    (frame : Envelope D) :
    ∃ cursor cs, b.route P target frame = { b with rrCursor := cursor }.write cs frame ∧
      cs.Sublist (b.conns.map Prod.snd) ∧ (b.closed = true → cs = []) ∧
      (target.isSome = true ∨ b.sendMode = .roundRobin → cs.length ≤ 1) := by
  have hnone : b = { b with rrCursor := b.rrCursor }.write [] frame := by simp [write]
  unfold route
  split
  · exact ⟨b.rrCursor, [], hnone, by simp⟩
  rename_i hclosed
  split
  · rename_i identity
    refine ⟨b.rrCursor, (b.findConn identity).toList, rfl, ?_, ?_, ?_⟩
    · cases hfind : b.findConn identity with
      | none => simp
      | some c =>
        obtain ⟨e, he, rfl⟩ := Option.map_eq_some_iff.mp hfind
        simpa using ⟨e.1, List.mem_of_find?_eq_some he⟩
    · simp [hclosed]
    · intro _
      cases b.findConn identity <;> simp
  · split
    · exact ⟨b.rrCursor, [], hnone, by simp⟩
    · split
      · rename_i hmode
        refine ⟨b.rrCursor, b.conns.map Prod.snd, rfl, List.Sublist.refl _, ?_, ?_⟩
        · simp [hclosed]
        · intro h
          simp [hmode] at h
      · refine ⟨_, _, rfl, ?_, ?_, ?_⟩
        · refine List.Sublist.map Prod.snd ?_
          cases hturn : b.conns[P.turns.pick b.rrCursor b.conns.length]? with
          | none => simp
          | some e => simpa using List.mem_of_getElem? hturn
        · simp [hclosed]
        · intro _
          cases b.conns[P.turns.pick b.rrCursor b.conns.length]? <;> simp

/-- A relation between brokers that routing stays within. -/
structure Routes (b b' : ListBroker κ C D) : Prop where
  sendMode : b'.sendMode = b.sendMode
  delivery : b'.delivery = b.delivery
  closed : b'.closed = b.closed
  conns : b'.conns = b.conns
  buffer : b'.buffer = b.buffer
  pending : b'.pending = b.pending
  drawn : b'.drawn = b.drawn
  handed : b'.handed = b.handed
  transmitted : b'.transmitted = b.transmitted
  ended : b'.ended = b.ended
  rebuffered : b'.rebuffered = b.rebuffered

theorem routes_route (P : Variant κ D) (b : ListBroker κ C D) (target : Option Identity)
    (frame : Envelope D) : Routes b (b.route P target frame) := by
  obtain ⟨cursor, cs, h, -⟩ := b.exists_route_eq P target frame
  rw [h]
  constructor <;> rfl

/-- The fields that say whom messages can go to. -/
structure SameTable (b b' : ListBroker κ C D) : Prop where
  sendMode : b'.sendMode = b.sendMode
  delivery : b'.delivery = b.delivery
  closed : b'.closed = b.closed
  conns : b'.conns = b.conns

theorem SameTable.refl (b : ListBroker κ C D) : SameTable b b := ⟨rfl, rfl, rfl, rfl⟩

theorem SameTable.trans {b b' b'' : ListBroker κ C D} (h : SameTable b b')
    (h' : SameTable b' b'') : SameTable b b'' :=
  ⟨h'.sendMode.trans h.sendMode, h'.delivery.trans h.delivery, h'.closed.trans h.closed,
    h'.conns.trans h.conns⟩

/-! ### What every operation that sends has in common -/

/-- A relation between brokers that routing, buffering, entering and giving up stay within. What an
operation sends, it sends by these. -/
structure Closed (P : Variant κ D) (env : Outside)
    (R : ListBroker κ C D → ListBroker κ C D → Prop) : Prop where
  refl : ∀ b, R b b
  trans : ∀ {b b' b''}, R b b' → R b' b'' → R b b''
  transmit : ∀ b target data retries, R b (b.transmit P env target data retries)
  buffer : ∀ b message, b.conns = [] → R b { b with buffer := b.buffer ++ [message] }
  rebuffer : ∀ b message, b.conns = [] →
    R b { b with buffer := b.buffer ++ [message], rebuffered := b.rebuffered ++ [message] }
  finish : ∀ b fate message, R b (b.finish fate message)

namespace Closed

variable {P : Variant κ D} {env : Outside} {R : ListBroker κ C D → ListBroker κ C D → Prop}
  (hR : Closed P env R)
include hR

theorem send (b : ListBroker κ C D) (target : Option Identity) (data : D) :
    R b (b.send P env target data) := by
  unfold ListBroker.send
  split
  · exact hR.finish b _ _
  · split
    · rename_i h
      exact hR.buffer b _ (List.isEmpty_iff.mp h)
    · exact hR.transmit b _ _ _

theorem sendAll (b : ListBroker κ C D) (messages : List (Option Identity × D)) :
    R b (b.sendAll P env messages) := by
  induction messages generalizing b with
  | nil => exact hR.refl b
  | cons message rest ih => exact hR.trans (hR.send b message.1 message.2) (ih _)

theorem resend (b : ListBroker κ C D) (p : InFlight D) : R b (b.resend P env p) := by
  unfold ListBroker.resend
  split
  · exact hR.finish b _ _
  · split
    · rename_i h
      exact hR.rebuffer b _ (List.isEmpty_iff.mp h)
    · exact hR.transmit b _ _ _

theorem resendAll (b : ListBroker κ C D) (es : List (MsgId × InFlight D)) :
    R b (b.resendAll P env es) := by
  induction es generalizing b with
  | nil => exact hR.refl b
  | cons e rest ih => exact hR.trans (hR.resend b e.2) (ih _)

end Closed

theorem sameTable_transmit (P : Variant κ D) (env : Outside) (b : ListBroker κ C D)
    (target : Option Identity) (data : D) (retries : ℕ) :
    SameTable b (b.transmit P env target data retries) := by
  unfold transmit
  split
  · have hroute := routes_route P (b.enter P env ⟨target, data, retries⟩) target
      (.dataReq (env.msgId b.drawn) data)
    exact ⟨hroute.sendMode, hroute.delivery, hroute.closed, hroute.conns⟩
  · have hroute := routes_route P (b.mark none ⟨target, data, retries⟩) target (.data data)
    exact ⟨hroute.sendMode, hroute.delivery, hroute.closed, hroute.conns⟩

/-- Sending leaves the table alone. -/
theorem closed_sameTable (P : Variant κ D) (env : Outside) :
    Closed P env (SameTable (κ := κ) (C := C) (D := D)) where
  refl := .refl
  trans := .trans
  transmit := sameTable_transmit P env
  buffer _ _ _ := ⟨rfl, rfl, rfl, rfl⟩
  rebuffer _ _ _ := ⟨rfl, rfl, rfl, rfl⟩
  finish _ _ _ := ⟨rfl, rfl, rfl, rfl⟩

/-- Nor is anything handed over by it. -/
theorem closed_handed (P : Variant κ D) (env : Outside) :
    Closed P env fun b b' : ListBroker κ C D => b'.handed = b.handed where
  refl _ := rfl
  trans h h' := h'.trans h
  transmit b target data retries := by
    unfold transmit
    split
    · exact (routes_route P (b.enter P env ⟨target, data, retries⟩) target _).handed
    · exact (routes_route P (b.mark none ⟨target, data, retries⟩) target _).handed
  buffer _ _ _ := rfl
  rebuffer _ _ _ := rfl
  finish _ _ _ := rfl

/-! ### Transmitting -/

/-- What a transmission adds besides its frames. -/
theorem routes_transmit_of_atLeastOnce (P : Variant κ D) (env : Outside) {b : ListBroker κ C D}
    {target : Option Identity} (h : b.atLeastOnce target = true) (data : D) (retries : ℕ) :
    Routes (b.enter P env ⟨target, data, retries⟩) (b.transmit P env target data retries) := by
  rw [transmit, if_pos h]
  exact routes_route P _ _ _

theorem routes_transmit_of_atMostOnce (P : Variant κ D) (env : Outside) {b : ListBroker κ C D}
    {target : Option Identity} (h : b.atLeastOnce target = false) (data : D) (retries : ℕ) :
    Routes (b.mark none ⟨target, data, retries⟩) (b.transmit P env target data retries) := by
  rw [transmit, h]
  exact routes_route P _ _ _

/-- The three ways of sending. -/
theorem send_cases (P : Variant κ D) (env : Outside) (b : ListBroker κ C D)
    (target : Option Identity) (data : D) :
    (b.closed = true ∧ b.send P env target data = b.finish .dropped (target, data)) ∨
    (b.conns = [] ∧
      b.send P env target data = { b with buffer := b.buffer ++ [(target, data)] }) ∨
    (b.conns ≠ [] ∧ b.send P env target data = b.transmit P env target data maxRetries) := by
  unfold send
  split
  · rename_i h
    exact .inl ⟨(Bool.and_eq_true_iff.mp h).2, rfl⟩
  · split
    · rename_i h
      exact .inr (.inl ⟨List.isEmpty_iff.mp h, rfl⟩)
    · rename_i h
      exact .inr (.inr ⟨by simpa using h, rfl⟩)

/-- The three ends of a timeout. -/
theorem resend_cases (P : Variant κ D) (env : Outside) (b : ListBroker κ C D) (p : InFlight D) :
    b.resend P env p = b.finish .gaveUp (p.identity, p.data) ∨
    (b.conns = [] ∧ b.resend P env p =
      { b with
        buffer := b.buffer ++ [(p.identity, p.data)]
        rebuffered := b.rebuffered ++ [(p.identity, p.data)] }) ∨
    (0 < p.retries ∧ b.conns ≠ [] ∧
      b.resend P env p = b.transmit P env p.identity p.data (p.retries - 1)) := by
  unfold resend
  split
  · exact .inl rfl
  · rename_i hretries
    split
    · rename_i h
      exact .inr (.inl ⟨List.isEmpty_iff.mp h, rfl⟩)
    · rename_i h
      exact .inr (.inr ⟨Nat.pos_of_ne_zero hretries, by simpa using h, rfl⟩)

/-- The broker with a connection more, and nothing buffered. -/
def connect (b : ListBroker κ C D) (identity : Identity) (conn : C) : ListBroker κ C D :=
  { b with conns := b.conns ++ [(identity, conn)], buffer := [] }

theorem register_eq_some {P : Variant κ D} {env : Outside} {b b' : ListBroker κ C D}
    {identity : Identity} {conn : C} (h : b.register P env identity conn = some b') :
    b.findConn identity = none ∧ b' = (b.connect identity conn).sendAll P env b.buffer := by
  unfold register at h
  split at h
  · cases h
  · rename_i hfind
    exact ⟨by simpa using hfind, (Option.some.inj h).symm⟩

theorem findConn_eq_none_iff {b : ListBroker κ C D} {identity : Identity} :
    b.findConn identity = none ↔ identity ∉ b.conns.map Prod.fst := by
  rw [findConn, Option.map_eq_none_iff, List.find?_eq_none]
  constructor
  · intro h hmem
    obtain ⟨e, he, rfl⟩ := List.mem_map.mp hmem
    exact h e he (by simp)
  · intro h e he heq
    exact h (List.mem_map.mpr ⟨e, he, by simpa using heq⟩)

/-- The two ways a registration can go. -/
theorem step_register_cases [DecidableEq C] (P : Variant κ D) (env : Outside) (b : ListBroker κ C D)
    (identity : Identity) (conn : C) :
    (b.step P env (.register identity conn) = b ∧ identity ∈ b.conns.map Prod.fst) ∨
      (b.step P env (.register identity conn) = (b.connect identity conn).sendAll P env b.buffer ∧
        identity ∉ b.conns.map Prod.fst) := by
  cases h : b.register P env identity conn with
  | none =>
    refine .inl ⟨by rw [step, h]; rfl, ?_⟩
    by_contra hmem
    rw [register, findConn_eq_none_iff.mpr hmem] at h
    cases h
  | some b' =>
    obtain ⟨hfind, rfl⟩ := register_eq_some h
    exact .inr ⟨by rw [step, h]; rfl, findConn_eq_none_iff.mp hfind⟩

end ListBroker

end Aiomsg
