import Aiomsg.JsLib.Inbox
import Aiomsg.JsLib.Protocol
import Aiomsg.ListBroker.Outgoing
import Mathlib.Logic.Function.Basic

/-!
# The JavaScript sockets

`Socket` of `javascript-lib/src/socket.js` and of `browser-lib/src/socket.js`. Everything a socket
does, it does in a callback, and callbacks do not overlap. So a socket is a machine whose actions
are the calls of the application and the callbacks of the runtime: bytes that arrive, a connection
that is up or gone, a timer that fires.

The broker is the one of `ListBroker`, at work for the connections. What it puts on connections is
written at once. A connection is known by its number; it stays in the model when it is gone.

A connection is *live* until it is destroyed (closed, in the browser), and *started* once HELLO was
written: with TLS and in the browser that is when the runtime says that it is up.

## Scope

A connection is in the model from where it has reached `#runConnection`. One that a server accepts
is looked at by `sniffAndUpgrade` before, and that is left out: until then it is in no field of the
socket, `close` knows nothing of it, and it goes on being read and may be answered with an upgrade
or with an error. What it comes to is the action `accepted`, at which `#accept` looks at `closed`.
Nothing that is said of the connections of a socket is said of one that is still being sniffed.

The runtime's side is what an action asks for: no data for a connection that is not live and
started, and one `close` event for each connection. A timer of a connection does not fire before its
time; when a timer of a retry or of a resend fires is left to the runtime. Servers, TLS and the
WebSocket frames below the adapter are not here: a connection carries bytes, cut anyhow.

A message is short enough for its frame: that a builder throws, and what `send` or a flush leaves
undone then, is not in the model.

There are no promises: a call of `recv` takes the next number, and what becomes of it is `Inbox`'s
matter.

## Main definitions

* `Conn`, `Socket` — the state
* `Socket.onFrames` — the loop of `#onData`
* `Socket.Action`, `Socket.machine`
-/

namespace Aiomsg

namespace JsLib

def heartbeatMs : ℕ := 5000

def timeoutMs : ℕ := 15000

inductive Platform where
  | node
  | browser
deriving DecidableEq

def Platform.port : Platform → Variant ℕ Bytes
  | .node => JsLib.port Bytes
  | .browser => BrowserLib.port Bytes

/-- A call of `connect`: its number, and whether its connections start only when they are up. -/
structure Loop where
  number : ℕ
  deferred : Bool
deriving DecidableEq

structure Conn where
  /-- The call of `connect` that it is for; none if it was accepted. -/
  loop : Option Loop
  /-- It is in `sockets`. -/
  owned : Bool
  live : Bool
  started : Bool
  handshaked : Bool
  decoder : Decoder
  heartbeatTimer : Option ℕ
  timeoutTimer : Option ℕ
  /-- The bytes that have arrived. -/
  inbound : Bytes
  /-- The frames that were written while it was live. -/
  sent : List (Envelope Bytes)
  lastWrite : ℕ
  lastData : ℕ

/-- The `Conn` of a socket that was just made. -/
def Conn.new (loop : Option Loop) : Conn where
  loop := loop
  owned := true
  live := true
  started := false
  handshaked := false
  decoder := .new
  heartbeatTimer := none
  timeoutTimer := none
  inbound := []
  sent := []
  lastWrite := 0
  lastData := 0

/-- `readyState === WebSocket.OPEN`. -/
def Conn.isOpen (k : Conn) : Bool := k.live && k.started

structure Socket where
  id : Identity
  served : Served ℕ ℕ Bytes
  inbox : Inbox (Bytes × Identity)
  conn : ℕ → Conn
  /-- The connections made so far. -/
  count : ℕ
  reconnectTimers : List Loop
  /-- The calls of `connect` so far. -/
  loops : ℕ
  now : ℕ
  /-- What has happened at the broker. -/
  events : List (Served.Event ℕ Bytes)

namespace Socket

def closed (s : Socket) : Bool := s.served.closed

def new (id : Identity) (sendMode : SendMode) (delivery : DeliveryGuarantee) : Socket where
  id := id
  served := .new sendMode delivery 0
  inbox := .new
  conn _ := { Conn.new none with owned := false, live := false }
  count := 0
  reconnectTimers := []
  loops := 0
  now := 0
  events := []

def modify (s : Socket) (c : ℕ) (f : Conn → Conn) : Socket :=
  { s with conn := Function.update s.conn c (f (s.conn c)) }

section Callbacks

variable (p : Platform) (env : Outside)

/-! ### Timers and writes -/

/-- `#write`, and with it `#scheduleHeartbeat`. What is written to a destroyed connection is
lost. -/
def write (s : Socket) (c : ℕ) (frame : Envelope Bytes) : Socket :=
  if p = .browser ∧ (s.conn c).isOpen = false then s
  else
    s.modify c fun k =>
      { k with
        sent := if k.live then k.sent ++ [frame] else k.sent
        heartbeatTimer := some (s.now + heartbeatMs)
        lastWrite := s.now }

def writeAll (s : Socket) : List (ℕ × Envelope Bytes) → Socket
  | [] => s
  | (c, frame) :: rest => (s.write p c frame).writeAll rest

def resetTimeout (s : Socket) (c : ℕ) : Socket :=
  s.modify c fun k => { k with timeoutTimer := some (s.now + timeoutMs), lastData := s.now }

/-- `socket.destroy()`, `ws.close()`. -/
def destroy (s : Socket) (c : ℕ) : Socket := s.modify c fun k => { k with live := false }

/-! ### The broker -/

/-- An operation of the broker for its connections. Messages go to the inbox, frames are written. -/
def operate (s : Socket) (e : Served.Event ℕ Bytes) : Socket :=
  match s.served.step p.port env e with
  | none => s
  | some w =>
    { s with
      served := w
      inbox := (w.inbox.drop s.served.inbox.length).foldl Inbox.push s.inbox
      events := s.events ++ [e] }.writeAll p (w.out.drop s.served.out.length)

/-! ### The life of a connection -/

/-- Our half of the handshake. -/
def start (s : Socket) (c : ℕ) : Socket :=
  ((s.modify c fun k => { k with started := true }).write p c
    (.hello Protocol.protocolVersion s.id)).resetTimeout c

/-- `#completeHandshake`, with what it returns. -/
def completeHandshake (s : Socket) (c : ℕ) : Envelope Bytes → Socket × Bool
  | .hello version identity =>
    if version ≠ Protocol.protocolVersion then (s.destroy c, false)
    else if (s.served.findConn identity).isSome then (s.destroy c, false)
    else
      ((s.modify c fun k => { k with handshaked := true }).operate p env (.register identity c),
        true)
  | _ => (s.destroy c, false)

/-- The body of the loop of `#onData`, and whether the loop goes on. -/
def onFrame (s : Socket) (c : ℕ) (envelope : Bytes) : Socket × Bool :=
  match parseEnvelope envelope with
  | none => (s, true)
  | some e =>
    if (s.conn c).handshaked then (s.operate p env (.received c e), true)
    else s.completeHandshake p env c e

/-- The loop of `#onData`. -/
def onFrames : ℕ → Socket → ℕ → Socket
  | 0, s, _ => s
  | fuel + 1, s, c =>
    match (s.conn c).decoder.pop with
    | none => s
    | some (envelope, decoder) =>
      let r := (s.modify c fun k => { k with decoder := decoder }).onFrame p env c envelope
      if r.2 then onFrames fuel r.1 c else r.1

def onData (s : Socket) (c : ℕ) (chunk : Bytes) : Socket :=
  let s := (s.resetTimeout c).modify c fun k =>
    { k with decoder := k.decoder.push chunk, inbound := k.inbound ++ chunk }
  s.onFrames p env ((s.conn c).decoder.buf.length + 1) c

/-- `#runConnection`. -/
def runConnection (s : Socket) (loop : Option Loop) (prebuffer : Bytes) : Socket :=
  let c := s.count
  let s := { s with count := c + 1 }.modify c fun _ => .new loop
  let s := if loop.any Loop.deferred then s else s.start p c
  if prebuffer.isEmpty then s else s.onData p env c prebuffer

/-- `retry`, `#scheduleReconnect`. -/
def retry (s : Socket) (loop : Loop) : Socket :=
  if s.closed then s else { s with reconnectTimers := s.reconnectTimers ++ [loop] }

/-- `#connectLoop`. Only in the browser can the attempt be `refused` at once. -/
def connectLoop (s : Socket) (loop : Loop) (refused : Bool) : Socket :=
  if s.closed then s
  else if p = .browser ∧ refused then s.retry loop
  else s.runConnection p env (some loop) []

def teardown (s : Socket) (c : ℕ) : Socket :=
  (s.modify c fun k =>
    { k with owned := false, live := false, heartbeatTimer := none, timeoutTimer := none }).operate
      p env (.unregister c)

/-- What listens for the end of a connection. -/
def gone (s : Socket) (c : ℕ) : Socket :=
  match p, (s.conn c).loop with
  | _, none => s.teardown p env c
  | .node, some loop => (s.retry loop).teardown p env c
  | .browser, some loop => (s.teardown p env c).retry loop

/-- The callback of the heartbeat timer. -/
def onHeartbeat (s : Socket) (c : ℕ) : Socket :=
  let s := s.modify c fun k => { k with heartbeatTimer := none }
  if (s.conn c).live then s.write p c .heartbeat else s

/-- The callback of the timer for a quiet peer. -/
def onTimeout (s : Socket) (c : ℕ) : Socket :=
  (s.modify c fun k => { k with timeoutTimer := none }).destroy c

/-- `close`. -/
def close (s : Socket) : Socket :=
  if s.closed then s
  else
    let s := s.operate p env (.close true)
    { s with
      reconnectTimers := []
      conn := fun c => if (s.conn c).owned then { s.conn c with live := false } else s.conn c
      inbox := s.inbox.close }

end Callbacks

/-! ### Actions -/

inductive Action where
  | connect (deferred refused : Bool)
  | send (target : Option Identity) (data : Bytes)
  | take
  | close
  /-- A retry's timer fires. -/
  | reconnect (i : ℕ) (refused : Bool)
  /-- What the sniff of an accepted connection came to: `none` if it hands nothing on. The sniff
  itself, in which the connection is none of the socket's yet, is not in the model. -/
  | accepted (prebuffer : Option Bytes)
  | opened (c : ℕ)
  | data (c : ℕ) (chunk : Bytes)
  | gone (c : ℕ)
  | heartbeat (c : ℕ)
  | timeout (c : ℕ)
  /-- The timer of a waiting entry fires. -/
  | resend (key : MsgId)
  | tick (ms : ℕ)

def step (p : Platform) (env : Outside) (s : Socket) : Action → Option Socket
  | .connect deferred refused =>
    some ({ s with loops := s.loops + 1 }.connectLoop p env ⟨s.loops, deferred⟩ refused)
  | .send target data => some (s.operate p env (.send target data))
  | .take => some { s with inbox := s.inbox.take }
  | .close => some (s.close p env)
  | .reconnect i refused =>
    s.reconnectTimers[i]?.map fun loop =>
      { s with reconnectTimers := s.reconnectTimers.eraseIdx i }.connectLoop p env loop refused
  | .accepted none => some s
  | .accepted (some prebuffer) =>
    if p = .browser then none
    else some (if s.closed then s else s.runConnection p env none prebuffer)
  | .opened c =>
    if (s.conn c).live ∧ (s.conn c).started = false then some (s.start p c) else none
  | .data c chunk => if (s.conn c).isOpen then some (s.onData p env c chunk) else none
  | .gone c => if (s.conn c).owned then some (s.gone p env c) else none
  | .heartbeat c =>
    if (s.conn c).heartbeatTimer.any (· ≤ s.now) then some (s.onHeartbeat p c) else none
  | .timeout c =>
    if (s.conn c).timeoutTimer.any (· ≤ s.now) then some (s.onTimeout c) else none
  | .resend key => some (s.operate p env (.expire fun e => e.1 = key))
  | .tick ms => some { s with now := s.now + ms }

def machine (p : Platform) (env : Outside) : Machine Socket Action where
  step := step p env

end Socket

end JsLib

end Aiomsg
