import Aiomsg.Protocol.Envelope
import Mathlib.Data.List.AList

/-!
# The broker

`rust-lib-sync/src/broker.rs`: the one thread that owns the connection set, the send buffer and the
table of unacknowledged messages. It takes commands off a channel one at a time, so a run of the
broker is a list of commands and the broker itself is a step function.

## What a step returns

A handler changes the broker and sends on channels it holds the sending end of: the writer of a
connection, the receive queue of the application, the channel on which a session waits for its
answer, the channel of the timer thread. The step function returns these sends as a list of
`Effect`s, in the order in which they are made. A send on a channel whose receiver is gone is
ignored by the source (`let _ =`), so an effect never fails.

Two type parameters keep the model honest about what the broker can depend on. `C` is the type of
channel handles: the broker stores them and sends on them and never compares them. `D` is the type
of payloads, `Bytes` in the source: the broker moves them and never looks inside. A frame is put on
a writer as the envelope it encodes; its bytes are `Envelope.frame`.

`HashMap` is `AList`, a list of entries without duplicate keys. Where the source iterates over a
map (`conns.values()` in `route`) the order is unspecified; here it is the order of the entries. The
iteration sends one frame on each writer, so its order does not show on any single channel.

## Scope

The thread's `recv` on the command channel is not here: a run is given its commands. So nothing is
said of when a command arrives, and a property of all command lists is one of all interleavings of
those who send them. The timer thread is a machine of its own that is composed with this one
elsewhere, and sessions are as well.

The source bounds nothing. The buffer and the table of unacknowledged messages grow as long as
memory lasts, and so do the lists here.

## Main definitions

* `Command`, `Effect` — what comes in and what goes out
* `Broker.handleSend`, `transmit`, `route`, `handleUp`, `handleDown`, `handleReceived`,
  `handleResend` — the handlers, one for one
* `Broker.step`, `Broker.run` — the command loop
-/

namespace Aiomsg

inductive SendMode where
  | roundRobin
  | publish
deriving DecidableEq, Repr

inductive DeliveryGuarantee where
  | atMostOnce
  | atLeastOnce
deriving DecidableEq, Repr

/-- A message in flight: whom it is for, what it is, and how often it may still be resent. -/
structure Pending (D : Type) where
  identity : Option Identity
  data : D
  retries : ℕ

/-- Messages the broker processes. They come from the application (`send`, `close`), from the
sessions (`connectionUp`, `connectionDown`, `received`) and from the timer thread (`resendTimeout`).
-/
inductive Command (C D : Type) where
  | send (identity : Option Identity) (data : D)
  | connectionUp (identity : Identity) (writer accept : C)
  | connectionDown (identity : Identity)
  | received (identity : Identity) (envelope : Envelope D)
  | resendTimeout (msgId : MsgId)
  | close

/-- What a handler does to the channels it holds. -/
inductive Effect (C D : Type) where
  /-- A frame on the writer of a connection. -/
  | frame (writer : C) (envelope : Envelope D)
  /-- A message on the receive queue. -/
  | recv (identity : Identity) (payload : D)
  /-- The answer to a `ConnectionUp`. -/
  | accept (reply : C) (ok : Bool)
  /-- `TimerMsg::Arm` on the timer's channel. -/
  | arm (msgId : MsgId)
  /-- `TimerMsg::Cancel` on the timer's channel. -/
  | cancel (msgId : MsgId)
  /-- A mark that `transmit` was called, with the id it gave out if it gave one. It goes on no
  channel; it is what statements about transmissions count. -/
  | transmit (msgId : Option MsgId) (message : Pending D)

def maxRetries : ℕ := 5

/-- The broker's fields. `rrCursor` and `nextId` wrap: a 64-bit `usize` and a `u64`.

`conns` and `order` have the same identities. That is an invariant and not a field: the source keeps
two collections, and it is the handlers that keep them in step. -/
structure Broker (C D : Type) where
  sendMode : SendMode
  delivery : DeliveryGuarantee
  conns : AList fun _ : Identity => C
  order : List Identity
  rrCursor : UInt64
  buffer : List (Option Identity × D)
  pending : AList fun _ : MsgId => Pending D
  salt : List.Vector UInt8 8
  nextId : UInt64

namespace Broker

variable {C D : Type}

def new (sendMode : SendMode) (delivery : DeliveryGuarantee) (salt : List.Vector UInt8 8) :
    Broker C D where
  sendMode := sendMode
  delivery := delivery
  conns := ∅
  order := []
  rrCursor := 0
  buffer := []
  pending := ∅
  salt := salt
  nextId := 0

/-- The id with a given counter: eight bytes of salt, then the counter, big-endian. -/
def msgIdOf (salt : List.Vector UInt8 8) (counter : UInt64) : MsgId :=
  ⟨salt.toList ++ BigEndian.encode 8 counter.toNat, by simp⟩

/-- The next message id. -/
def nextMsgId (b : Broker C D) : MsgId × Broker C D :=
  (msgIdOf b.salt b.nextId, { b with nextId := b.nextId + 1 })

/-- The next peer in turn. -/
def nextRoundRobin (b : Broker C D) : Option Identity × Broker C D :=
  if b.order.isEmpty then (none, b)
  else (b.order[b.rrCursor.toNat % b.order.length]?, { b with rrCursor := b.rrCursor + 1 })

/-- `if let Some(tx) = self.conns.get(&id) { let _ = tx.send(frame); }` -/
def sendTo (b : Broker C D) (id : Identity) (frame : Envelope D) : List (Effect C D) :=
  match b.conns.lookup id with
  | some tx => [.frame tx frame]
  | none => []

def route (b : Broker C D) (target : Option Identity) (frame : Envelope D) :
    Broker C D × List (Effect C D) :=
  match target with
  | some id => (b, b.sendTo id frame)
  | none =>
    match b.sendMode with
    | .publish => (b, b.conns.entries.map fun entry => .frame entry.2 frame)
    | .roundRobin =>
      match b.nextRoundRobin with
      | (some id, b') => (b', b'.sendTo id frame)
      | (none, b') => (b', [])

/-- Whether `transmit` asks for an acknowledgement. -/
def atLeastOnce (b : Broker C D) (identity : Option Identity) : Bool :=
  b.delivery == .atLeastOnce && (identity.isSome || b.sendMode == .roundRobin)

def transmit (b : Broker C D) (identity : Option Identity) (data : D) (retries : ℕ) :
    Broker C D × List (Effect C D) :=
  if b.atLeastOnce identity then
    let msgId := b.nextMsgId.1
    let b₁ := b.nextMsgId.2
    let b₂ := { b₁ with pending := b₁.pending.insert msgId ⟨identity, data, retries⟩ }
    let routed := b₂.route identity (.dataReq msgId data)
    (routed.1, .transmit (some msgId) ⟨identity, data, retries⟩ :: .arm msgId :: routed.2)
  else
    let routed := b.route identity (.data data)
    (routed.1, .transmit none ⟨identity, data, retries⟩ :: routed.2)

def handleSend (b : Broker C D) (identity : Option Identity) (data : D) :
    Broker C D × List (Effect C D) :=
  if b.conns.entries.isEmpty then ({ b with buffer := b.buffer ++ [(identity, data)] }, [])
  else b.transmit identity data maxRetries

/-- `for (id, data) in buffered { self.handle_send(id, data); }` -/
def sendAll (b : Broker C D) : List (Option Identity × D) → Broker C D × List (Effect C D)
  | [] => (b, [])
  | (identity, data) :: rest =>
    let sent := b.handleSend identity data
    ((sent.1.sendAll rest).1, sent.2 ++ (sent.1.sendAll rest).2)

def handleUp (b : Broker C D) (identity : Identity) (writer accept : C) :
    Broker C D × List (Effect C D) :=
  if (b.conns.lookup identity).isSome then (b, [.accept accept false])
  else
    let b₁ := { b with conns := b.conns.insert identity writer, order := b.order ++ [identity] }
    let flushed := { b₁ with buffer := [] }.sendAll b₁.buffer
    (flushed.1, .accept accept true :: flushed.2)

/-- Remove the connection; `order.remove(pos)` at the first position of the identity is
`List.erase`. -/
def handleDown (b : Broker C D) (identity : Identity) : Broker C D :=
  { b with conns := b.conns.erase identity, order := b.order.erase identity }

def handleReceived (b : Broker C D) (identity : Identity) (envelope : Envelope D) :
    Broker C D × List (Effect C D) :=
  match envelope with
  | .data payload => (b, [.recv identity payload])
  | .dataReq msgId payload =>
    let routed := b.route (some identity) (.ack msgId)
    (routed.1, .recv identity payload :: routed.2)
  | .ack msgId =>
    match b.pending.lookup msgId with
    | some _ => ({ b with pending := b.pending.erase msgId }, [.cancel msgId])
    | none => (b, [])
  | .hello _ _ => (b, [])
  | .heartbeat => (b, [])

def handleResend (b : Broker C D) (msgId : MsgId) : Broker C D × List (Effect C D) :=
  match b.pending.lookup msgId with
  | none => (b, [])
  | some pending =>
    let b₁ := { b with pending := b.pending.erase msgId }
    if pending.retries = 0 then (b₁, [])
    else if b₁.conns.entries.isEmpty then
      ({ b₁ with buffer := b₁.buffer ++ [(pending.identity, pending.data)] }, [])
    else b₁.transmit pending.identity pending.data (pending.retries - 1)

/-- One turn of the command loop. `Close` ends the loop and changes nothing. -/
def step (b : Broker C D) : Command C D → Broker C D × List (Effect C D)
  | .send identity data => b.handleSend identity data
  | .connectionUp identity writer accept => b.handleUp identity writer accept
  | .connectionDown identity => (b.handleDown identity, [])
  | .received identity envelope => b.handleReceived identity envelope
  | .resendTimeout msgId => b.handleResend msgId
  | .close => (b, [])

/-- The command loop on a list of commands, up to the first `Close`: the broker afterwards and all
effects in order. -/
def run (b : Broker C D) : List (Command C D) → Broker C D × List (Effect C D)
  | [] => (b, [])
  | .close :: _ => (b, [])
  | cmd :: cmds => (((b.step cmd).1.run cmds).1, (b.step cmd).2 ++ ((b.step cmd).1.run cmds).2)

end Broker

end Aiomsg
