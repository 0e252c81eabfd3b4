import Aiomsg.Broker.Basic

/-!
# The brokers that keep their connections in an array

The broker of `c-lib/src/aiomsg.c`, of `zig-lib/src/aiomsg.zig` and of
`cpp-lib-sync/src/socket.cpp`. They have the same text but for where they keep the messages that
wait for an ACK, and how they take entries out. Unlike the broker of `rust-lib-sync` there is no
timer thread: each waiting message has its deadline, and the broker sweeps them.

A call of `broker_transmit` looks outside the broker: at the clock, at random bytes for the id of
the message, and, in `broker_route`, at the flag that says that the socket shuts down. What it sees
there is a `Draw`. Calls that may transmit more than once take a sequence of draws, of which the
`k`-th is for the `k`-th message they handle.

What the broker puts on the queues of its connections, and on that of the application, is kept in
`out` and `inbox`, in the order in which it is put there. The ports differ in how they add to the
waiting messages, which is the parameter `keep`, and `RESEND_MS` is the parameter `resendMs`.
Allocation succeeds.

## Scope

Who owns the memory of a connection is another matter, and threads are as well: an operation here is
what the one thread that has the broker does with one command. `out` and `inbox` only grow. They are
the queues together with what has been taken from them, and no operation reads them.

## Main definitions

* `ArrayBroker.find`, `route`, `transmit`, `send`, `sendAll`, `join`, `resend` — what the ports have
  in common
-/

namespace Aiomsg

/-- What a call of `broker_transmit` sees outside the broker. -/
structure Draw where
  msgId : MsgId
  now : ℤ
  shutdown : Bool

namespace ArrayBroker

/-- `conn_entry`. -/
structure Entry (C : Type) where
  identity : Identity
  conn : C

/-- A send buffered while no peers were connected. -/
structure Buffered (D : Type) where
  identity : Option Identity
  data : D

/-- A message that waits for its ACK. -/
structure Waiting (D : Type) where
  msgId : MsgId
  identity : Option Identity
  data : D
  retries : ℕ
  deadline : ℤ

end ArrayBroker

open ArrayBroker

/-- The broker's fields, the two of the socket that it reads, and what it has put on queues.
`size_t` has 64 bits. -/
structure ArrayBroker (C D : Type) where
  mode : SendMode
  delivery : DeliveryGuarantee
  conns : List (Entry C)
  rrCursor : UInt64
  buffer : List (Buffered D)
  pending : List (Waiting D)
  out : List (C × Envelope D)
  inbox : List (Identity × D)

namespace ArrayBroker

variable {C D : Type}

def new (mode : SendMode) (delivery : DeliveryGuarantee) : ArrayBroker C D where
  mode := mode
  delivery := delivery
  conns := []
  rrCursor := 0
  buffer := []
  pending := []
  out := []
  inbox := []

def find (b : ArrayBroker C D) (identity : Identity) : Option C :=
  (b.conns.find? fun e => e.identity == identity).map Entry.conn

/-- `out_push`. -/
def push (b : ArrayBroker C D) (conn : C) (frame : Envelope D) : ArrayBroker C D :=
  { b with out := b.out ++ [(conn, frame)] }

/-- The connection whose turn it is. -/
def inTurn (b : ArrayBroker C D) : Option C :=
  (b.conns[b.rrCursor.toNat % b.conns.length]?).map Entry.conn

def route (b : ArrayBroker C D) (shutdown : Bool) (identity : Option Identity)
    (frame : Envelope D) : ArrayBroker C D :=
  -- tearing down: stop queueing to connections
  if shutdown then b
  else
    match identity with
    | some id =>
      match b.find id with
      | some c => b.push c frame
      | none => b
    | none =>
      match b.mode with
      | .publish => { b with out := b.out ++ b.conns.map fun e => (e.conn, frame) }
      | .roundRobin =>
        match b.inTurn with
        | some c => { b with rrCursor := b.rrCursor + 1 }.push c frame
        | none => b

/-- Routing advances the cursor and puts frames on queues. -/
theorem exists_route_eq (b : ArrayBroker C D) (shutdown : Bool) (identity : Option Identity)
    (frame : Envelope D) : ∃ cursor out,
      b.route shutdown identity frame = { b with rrCursor := cursor, out := b.out ++ out } := by
  have hsame : b = { b with rrCursor := b.rrCursor, out := b.out ++ [] } := by
    rw [List.append_nil]
  unfold route
  split
  · exact ⟨_, _, hsame⟩
  · split
    · split
      · exact ⟨_, _, rfl⟩
      · exact ⟨_, _, hsame⟩
    · split
      · exact ⟨_, _, rfl⟩
      · split
        · exact ⟨_, _, rfl⟩
        · exact ⟨_, _, hsame⟩

section Route

variable (b : ArrayBroker C D) (shutdown : Bool) (identity : Option Identity) (frame : Envelope D)

@[simp] theorem mode_route : (b.route shutdown identity frame).mode = b.mode := by
  obtain ⟨cursor, out, h⟩ := b.exists_route_eq shutdown identity frame
  rw [h]

@[simp] theorem delivery_route : (b.route shutdown identity frame).delivery = b.delivery := by
  obtain ⟨cursor, out, h⟩ := b.exists_route_eq shutdown identity frame
  rw [h]

@[simp] theorem conns_route : (b.route shutdown identity frame).conns = b.conns := by
  obtain ⟨cursor, out, h⟩ := b.exists_route_eq shutdown identity frame
  rw [h]

@[simp] theorem buffer_route : (b.route shutdown identity frame).buffer = b.buffer := by
  obtain ⟨cursor, out, h⟩ := b.exists_route_eq shutdown identity frame
  rw [h]

@[simp] theorem pending_route : (b.route shutdown identity frame).pending = b.pending := by
  obtain ⟨cursor, out, h⟩ := b.exists_route_eq shutdown identity frame
  rw [h]

end Route

/-- `broker_buffer`. -/
def keepFor (b : ArrayBroker C D) (identity : Option Identity) (data : D) : ArrayBroker C D :=
  { b with buffer := b.buffer ++ [⟨identity, data⟩] }

def atLeastOnce (b : ArrayBroker C D) (identity : Option Identity) : Bool :=
  b.delivery == .atLeastOnce && (identity.isSome || b.mode == .roundRobin)

section Transmit

variable (keep : Waiting D → List (Waiting D) → List (Waiting D)) (resendMs : ℤ)

def transmit (b : ArrayBroker C D) (draw : Draw) (identity : Option Identity) (data : D)
    (retries : ℕ) : ArrayBroker C D :=
  if b.atLeastOnce identity then
    let p : Waiting D := ⟨draw.msgId, identity, data, retries, draw.now + resendMs⟩
    { b with pending := keep p b.pending }.route draw.shutdown identity (.dataReq draw.msgId data)
  else b.route draw.shutdown identity (.data data)

def send (b : ArrayBroker C D) (draw : Draw) (identity : Option Identity) (data : D) :
    ArrayBroker C D :=
  if b.conns.isEmpty then b.keepFor identity data
  else b.transmit keep resendMs draw identity data maxRetries

/-- The loop that sends what was buffered. -/
def sendAll (b : ArrayBroker C D) (draws : ℕ → Draw) : List (Buffered D) → ArrayBroker C D
  | [] => b
  | q :: rest =>
    (b.send keep resendMs (draws 0) q.identity q.data).sendAll (fun k => draws (k + 1)) rest

/-- A new connection, with nothing buffered. -/
def connect (b : ArrayBroker C D) (identity : Identity) (conn : C) : ArrayBroker C D :=
  { b with conns := b.conns ++ [⟨identity, conn⟩], buffer := [] }

/-- What `broker_up` does with a connection whose identity is not taken. -/
def join (b : ArrayBroker C D) (draws : ℕ → Draw) (identity : Identity) (conn : C) :
    ArrayBroker C D :=
  -- Flush the send buffer now that a peer exists.
  (b.connect identity conn).sendAll keep resendMs draws b.buffer

/-- What a sweep does with an expired entry that it has taken out. -/
def resend (b : ArrayBroker C D) (draw : Draw) (p : Waiting D) : ArrayBroker C D :=
  if p.retries > 0 then
    if b.conns.isEmpty then b.keepFor p.identity p.data
    else b.transmit keep resendMs draw p.identity p.data (p.retries - 1)
  else b

/-- A sweep's expired entries, one after the other. -/
def resendAll (b : ArrayBroker C D) (draws : ℕ → Draw) : List (Waiting D) → ArrayBroker C D
  | [] => b
  | p :: rest => (b.resend keep resendMs (draws 0) p).resendAll (fun k => draws (k + 1)) rest

end Transmit

/-! ### What all that sends has in common -/

/-- A relation between brokers that routing stays within, and so does whatever leaves the
connections, the cursor and what is queued alone. -/
structure Closed (R : ArrayBroker C D → ArrayBroker C D → Prop) : Prop where
  refl : ∀ b, R b b
  trans : ∀ {b b' b''}, R b b' → R b' b'' → R b b''
  route : ∀ b shutdown identity frame, R b (b.route shutdown identity frame)
  same : ∀ {b b' : ArrayBroker C D}, b'.mode = b.mode → b'.conns = b.conns →
    b'.rrCursor = b.rrCursor → b'.out = b.out → R b b'

namespace Closed

variable {R : ArrayBroker C D → ArrayBroker C D → Prop} (hR : Closed R)
  (keep : Waiting D → List (Waiting D) → List (Waiting D)) (resendMs : ℤ)
include hR

theorem transmit (b : ArrayBroker C D) (draw : Draw) (identity : Option Identity) (data : D)
    (retries : ℕ) : R b (b.transmit keep resendMs draw identity data retries) := by
  unfold ArrayBroker.transmit
  split
  · have henter : R b { b with
        pending := keep ⟨draw.msgId, identity, data, retries, draw.now + resendMs⟩ b.pending } :=
      hR.same rfl rfl rfl rfl
    exact hR.trans henter (hR.route _ _ _ _)
  · exact hR.route _ _ _ _

theorem send (b : ArrayBroker C D) (draw : Draw) (identity : Option Identity) (data : D) :
    R b (b.send keep resendMs draw identity data) := by
  unfold ArrayBroker.send
  split
  · exact hR.same rfl rfl rfl rfl
  · exact hR.transmit keep resendMs _ _ _ _ _

theorem sendAll (b : ArrayBroker C D) (draws : ℕ → Draw) (l : List (Buffered D)) :
    R b (b.sendAll keep resendMs draws l) := by
  induction l generalizing b draws with
  | nil => exact hR.refl b
  | cons q rest ih =>
    exact hR.trans (hR.send keep resendMs b (draws 0) q.identity q.data) (ih _ _)

theorem resend (b : ArrayBroker C D) (draw : Draw) (p : Waiting D) :
    R b (b.resend keep resendMs draw p) := by
  unfold ArrayBroker.resend
  split
  · split
    · exact hR.same rfl rfl rfl rfl
    · exact hR.transmit keep resendMs _ _ _ _ _
  · exact hR.refl b

end Closed

/-- The same connections, and frames for these only. -/
structure Within (b b' : ArrayBroker C D) : Prop where
  conns : b'.conns = b.conns
  out : ∀ x ∈ b'.out, x ∈ b.out ∨ ∃ e ∈ b.conns, e.conn = x.1

theorem Within.refl (b : ArrayBroker C D) : Within b b := ⟨rfl, fun _ h => .inl h⟩

theorem Within.trans {b b' b'' : ArrayBroker C D} (h : Within b b') (h' : Within b' b'') :
    Within b b'' where
  conns := h'.conns.trans h.conns
  out := by
    intro x hx
    obtain hx | hx := h'.out x hx
    · exact h.out x hx
    · exact .inr (h.conns ▸ hx)

theorem exists_of_find {b : ArrayBroker C D} {identity : Identity} {c : C}
    (h : b.find identity = some c) : ∃ e ∈ b.conns, e.conn = c := by
  obtain ⟨e, he, hconn⟩ := Option.map_eq_some_iff.mp h
  exact ⟨e, List.mem_of_find?_eq_some he, hconn⟩

theorem exists_of_inTurn {b : ArrayBroker C D} {c : C} (h : b.inTurn = some c) :
    ∃ e ∈ b.conns, e.conn = c := by
  obtain ⟨e, he, hconn⟩ := Option.map_eq_some_iff.mp h
  exact ⟨e, List.mem_of_getElem? he, hconn⟩

theorem within_push {b : ArrayBroker C D} {c : C} (h : ∃ e ∈ b.conns, e.conn = c)
    (cursor : UInt64) (frame : Envelope D) :
    Within b ({ b with rrCursor := cursor }.push c frame) where
  conns := rfl
  out := by
    intro x hx
    obtain hx | hx := List.mem_append.mp hx
    · exact .inl hx
    · exact .inr (List.mem_singleton.mp hx ▸ h)

theorem within_route (b : ArrayBroker C D) (shutdown : Bool) (identity : Option Identity)
    (frame : Envelope D) : Within b (b.route shutdown identity frame) := by
  unfold route
  split
  · exact .refl b
  · split
    · split
      · exact within_push (exists_of_find ‹_›) b.rrCursor frame
      · exact .refl b
    · split
      · refine ⟨rfl, fun x hx => ?_⟩
        obtain hx | hx := List.mem_append.mp hx
        · exact .inl hx
        · obtain ⟨e, he, rfl⟩ := List.mem_map.mp hx
          exact .inr ⟨e, he, rfl⟩
      · split
        · exact within_push (exists_of_inTurn ‹_›) _ frame
        · exact .refl b

theorem closed_within : Closed (Within (C := C) (D := D)) where
  refl := .refl
  trans := .trans
  route := within_route
  same := fun _ hconns _ hout => ⟨hconns, fun _ h => .inl (hout ▸ h)⟩

end ArrayBroker

end Aiomsg
