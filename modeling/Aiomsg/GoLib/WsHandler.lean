import Aiomsg.Lib.Machine
import Aiomsg.Ws.Frame

/-!
# The goroutines of a WebSocket connection

`handleConnection` of `golang-lib/conn.go` over a `wsConn` of `golang-lib/ws.go`, from the moment
the writer is started, as a machine. There are three goroutines: the writer; the one that runs
`handleConnection` itself, which is the reader first and waits for the writer afterwards; and the
one that waits for the connection's context to be done and then closes the connection.

All three put frames on the inner connection. A frame is written under `writeMu`, and the close
frame within `closeOnce` as well, so `Close` goes through both before it comes to the inner `Close`.

## The inner connection

A `Write` on the inner connection hands its bytes to a send buffer. `room` is the number of bytes
that the buffer can take; the peer makes room by reading. A `Write` that finds less room than it has
bytes fills the buffer up and blocks until the peer reads or the inner connection is closed. There
is no deadline on it. A `Read` has the deadline that `runReader` sets, so it always comes to an end
by itself.

## What a step is

`go t` is the next step that the goroutine `t` does without anything being given to it, and it is no
step where the goroutine is blocked. The unlock of `writeMu` and the return from `closeOnce.Do`,
with nothing in between, are one step. What depends on others is an action of its own: an envelope
for the writer, a message from the peer, a command that the broker takes, room in the send buffer.

## Scope

The broker is here only in what it does to the goroutines: it takes `cmdReceived` and `cmdConnDown`,
and it closes the writer channel. What the reader makes of the bytes of a frame is one action with
its outcome in it; the frames themselves are read in another module. The handshake, the dialling and
the `Upgrade` come before this machine starts.

`writeMu` and `closeOnce` are modelled by who holds them, and a goroutine that finds one taken has
no step. No fairness is assumed of them: which of two waiting goroutines gets the lock is open.

## Main definitions

* `WsHandler` — the state
* `WsAction`, `WsHandler.step`, `wsMachine` — the steps
* `WsHandler.go_cases`, `WsHandler.step_cases` — the steps by what they change
-/

namespace Aiomsg

namespace GoLib

open Ws

/-- One frame from the server: FIN=1, RSV=0, unmasked. -/
def encodeServerFrame (opcode : UInt8) (payload : Bytes) : Bytes :=
  let n := payload.length
  let header :=
    if n < 126 then [0x80 ||| opcode, UInt8.ofNat n]
    else if n < 65536 then [0x80 ||| opcode, 126, UInt8.ofNat (n >>> 8), UInt8.ofNat n]
    else (0x80 ||| opcode) :: 127 :: BigEndian.encode 8 n
  header ++ payload

def closePayload (code : ℕ) : Bytes :=
  if code = 0 then [] else [UInt8.ofNat (code >>> 8), UInt8.ofNat code]

/-- What `writeFrame` passes to `Write`. -/
def writeFrame (env : Bytes) : Bytes := Protocol.putLenPrefix env.length ++ env

def encodeHeartbeat : Bytes := [Protocol.tHeartbeat]

/-- The goroutines of a connection. There is exactly one of each, so locks can name their holders by
these. -/
inductive Thread where
  | writer
  /-- The goroutine that runs `handleConnection`. -/
  | reader
  /-- The goroutine that calls `conn.Close` when the context is done. -/
  | closer
deriving DecidableEq

/-- A frame that is to be written, and by which call. -/
inductive Job where
  /-- `Write(p)` -/
  | data (p : Bytes)
  /-- `writeControl(opPong, payload)` -/
  | pong (payload : Bytes)
  /-- `fail(code)`, or `sendClose(code)` on a close frame from the peer. -/
  | fail (code : ℕ)
  /-- `Close()` -/
  | close

def Job.frame : Job → Bytes
  | .data p => encodeServerFrame opBin p
  | .pong payload => encodeServerFrame opPong payload
  | .fail code => encodeServerFrame opClose (closePayload code)
  | .close => encodeServerFrame opClose (closePayload 1000)

/-- Whether the frame is written within `closeOnce`. -/
def Job.closing : Job → Bool
  | .data _ | .pong _ => false
  | .fail _ | .close => true

/-- Where a goroutine stands. -/
inductive Pc where
  /-- The writer is at its `select`, the reader in `readFrame`, the closer at `<-connCtx.Done()`. -/
  | idle
  /-- At `closeOnce.Do`. -/
  | once (job : Job)
  /-- At `writeMu.Lock`. -/
  | lock (job : Job)
  /-- In the inner `Write`, with the bytes that are still to be written. -/
  | write (job : Job) (rest : Bytes)
  /-- The inner `Write` has returned, without an error or with one. -/
  | unlock (job : Job) (ok : Bool)
  /-- At the inner `Close`. -/
  | innerClose
  /-- At the `select` of `runReader` that sends `cmdReceived`. -/
  | passing
  /-- At the `select` that sends `cmdConnDown`. -/
  | down
  /-- At `connCancel()`. -/
  | cancel
  /-- In `wg.Wait`. -/
  | wgWait
  | returned

/-- `closeOnce`: its function has not been called, is run by a goroutine, or has returned. -/
inductive Once where
  | fresh
  | running (t : Thread)
  | done
deriving DecidableEq

/-- The connection and its goroutines. `ctxDone` is whether the socket's context is done and
`connCancelled` whether `connCancel` has been called; `writerChClosed` is whether the broker has
closed the writer channel.

`room` and `wire` are the two sides of the send buffer: how much it can still take, and all that it
has ever taken. `closed` is the inner connection's, and is set once. -/
structure WsHandler where
  pc : Thread → Pc
  writeMu : Option Thread
  closeOnce : Once
  room : ℕ
  wire : Bytes
  closed : Bool
  ctxDone : Bool
  connCancelled : Bool
  writerChClosed : Bool

/-- What the reader makes of what it reads from the peer. Only the reader's next step depends on it,
and there are as many cases as there are such steps. -/
inductive Incoming where
  | ping (payload : Bytes)
  /-- A close frame, a text frame or a violation of the protocol, with the code of the answer. -/
  | closing (code : ℕ)
  /-- An envelope for the broker. -/
  | message
  /-- A heartbeat, a HELLO, an unknown envelope or a pong. -/
  | ignored

inductive WsAction where
  /-- The goroutine's next step. -/
  | go (t : Thread)
  /-- The writer receives an envelope. -/
  | takes (env : Bytes)
  /-- The writer's timer goes off. -/
  | heartbeat
  /-- The reader reads from the peer. -/
  | reads (incoming : Incoming)
  /-- The broker takes `cmdReceived` from the reader. -/
  | passes
  /-- The broker takes `cmdConnDown`. -/
  | tells
  /-- The broker closes the writer channel. -/
  | closesWriterCh
  /-- The socket is closed, and its context done. -/
  | ctxDone
  /-- The peer reads and makes room for `n` bytes. -/
  | peerReads (n : ℕ)

namespace WsHandler

/-- The writer and the closer have been started, and the send buffer can take `room` bytes. -/
def new (room : ℕ) : WsHandler where
  pc _ := .idle
  writeMu := none
  closeOnce := .fresh
  room := room
  wire := []
  closed := false
  ctxDone := false
  connCancelled := false
  writerChClosed := false

/-- Whether `connCtx` is done. -/
def connDone (s : WsHandler) : Bool := s.ctxDone || s.connCancelled

def setPc (s : WsHandler) (t : Thread) (pc : Pc) : WsHandler :=
  { s with pc := Function.update s.pc t pc }

/-- The next step of a goroutine in its own loop. -/
def goIdle (s : WsHandler) : Thread → Option WsHandler
  | .writer =>
    if s.connDone ∨ s.writerChClosed then some (s.setPc .writer .returned) else none
  -- The deadline passes, or the connection is closed.
  | .reader => some (s.setPc .reader .down)
  | .closer => if s.connDone then some (s.setPc .closer (.once .close)) else none

/-- The inner `Write`. -/
def goWrite (s : WsHandler) (t : Thread) (job : Job) (rest : Bytes) : Option WsHandler :=
  if s.closed then some (s.setPc t (.unlock job false))
  else if rest.length ≤ s.room then
    some ({ s with room := s.room - rest.length, wire := s.wire ++ rest }.setPc t
      (.unlock job true))
  else if s.room = 0 then none
  else
    some ({ s with room := 0, wire := s.wire ++ rest.take s.room }.setPc t
      (.write job (rest.drop s.room)))

/-- Where a goroutine goes on after it has released `writeMu`. -/
def afterUnlock : Job → Bool → Pc
  | .data _, true => .idle
  | .data _, false => .returned
  | .pong _, _ => .idle
  | .fail _, _ => .down
  | .close, _ => .innerClose

/-- Where a goroutine goes on if `closeOnce` has been done before. -/
def afterOnce : Job → Pc
  | .fail _ => .down
  | _ => .innerClose

def go (s : WsHandler) (t : Thread) : Option WsHandler :=
  match s.pc t with
  | .idle => s.goIdle t
  | .once job =>
    match s.closeOnce with
    | .fresh => some ({ s with closeOnce := .running t }.setPc t (.lock job))
    | .running _ => none
    | .done => some (s.setPc t (afterOnce job))
  | .lock job =>
    match s.writeMu with
    | none => some ({ s with writeMu := some t }.setPc t (.write job job.frame))
    | some _ => none
  | .write job rest => s.goWrite t job rest
  | .unlock job ok =>
    some ({ s with
      writeMu := none
      closeOnce := if job.closing then .done else s.closeOnce }.setPc t (afterUnlock job ok))
  | .innerClose => some ({ s with closed := true }.setPc t .returned)
  | .passing => if s.connDone then some (s.setPc t .down) else none
  | .down => if s.ctxDone then some (s.setPc t .cancel) else none
  | .cancel => some ({ s with connCancelled := true }.setPc t .wgWait)
  | .wgWait =>
    match s.pc .writer with
    -- `handleConnection` returns, and its deferred `conn.Close` is run.
    | .returned => some (s.setPc t (.once .close))
    | _ => none
  | .returned => none

/-- The reader has read something. -/
def read (s : WsHandler) : Incoming → WsHandler
  | .ping payload => s.setPc .reader (.lock (.pong payload))
  | .closing code => s.setPc .reader (.once (.fail code))
  | .message => s.setPc .reader .passing
  | .ignored => s

def step (s : WsHandler) : WsAction → Option WsHandler
  | .go t => s.go t
  | .takes env =>
    match s.pc .writer with
    | .idle => some (s.setPc .writer (.lock (.data (writeFrame env))))
    | _ => none
  | .heartbeat =>
    match s.pc .writer with
    | .idle => some (s.setPc .writer (.lock (.data (writeFrame encodeHeartbeat))))
    | _ => none
  | .reads incoming =>
    match s.pc .reader with
    | .idle => some (s.read incoming)
    | _ => none
  | .passes =>
    match s.pc .reader with
    | .passing => some (s.setPc .reader .idle)
    | _ => none
  | .tells =>
    match s.pc .reader with
    | .down => some (s.setPc .reader .cancel)
    | _ => none
  | .closesWriterCh => some { s with writerChClosed := true }
  | .ctxDone => some { s with ctxDone := true }
  | .peerReads n => some { s with room := s.room + n }

/-! ### The steps by what they change -/

/-- Where a goroutine goes on by itself without anything else being changed, outside of `writeMu`
and of the function of `closeOnce`. Such steps need no argument about locks, and are kept apart for
that reason. -/
inductive Walks (s : WsHandler) : Thread → Pc → Pc → Prop where
  | ended (h : s.connDone = true ∨ s.writerChClosed = true) : Walks s .writer .idle .returned
  | deadline : Walks s .reader .idle .down
  | closes (h : s.connDone = true) : Walks s .closer .idle (.once .close)
  | once {t job} (h : s.closeOnce = .done) : Walks s t (.once job) (afterOnce job)
  | unpassed {t} (h : s.connDone = true) : Walks s t .passing .down
  | untold {t} (h : s.ctxDone = true) : Walks s t .down .cancel
  | waited {t} (h : s.pc .writer = .returned) : Walks s t .wgWait (.once .close)

/-- The steps of a goroutine, those alike together. -/
inductive Goes (s : WsHandler) (t : Thread) : WsHandler → Prop where
  | walks {pc pc'} (hpc : s.pc t = pc) (h : Walks s t pc pc') : Goes s t (s.setPc t pc')
  | enter {job} (hpc : s.pc t = .once job) (hfresh : s.closeOnce = .fresh) :
      Goes s t ({ s with closeOnce := .running t }.setPc t (.lock job))
  | acquire {job} (hpc : s.pc t = .lock job) (hfree : s.writeMu = none) :
      Goes s t ({ s with writeMu := some t }.setPc t (.write job job.frame))
  | write {job rest u} (hpc : s.pc t = .write job rest) (h : s.goWrite t job rest = some u) :
      Goes s t u
  | release {job ok} (hpc : s.pc t = .unlock job ok) :
      Goes s t ({ s with
        writeMu := none
        closeOnce := if job.closing then .done else s.closeOnce }.setPc t (afterUnlock job ok))
  | close (hpc : s.pc t = .innerClose) : Goes s t ({ s with closed := true }.setPc t .returned)
  | cancel (hpc : s.pc t = .cancel) :
      Goes s t ({ s with connCancelled := true }.setPc t .wgWait)

theorem goIdle_cases {s u : WsHandler} {t : Thread} (hpc : s.pc t = .idle)
    (h : s.goIdle t = some u) : Goes s t u := by
  cases t with
  | writer =>
    obtain ⟨hends, ⟨⟩⟩ := Option.ite_none_right_eq_some.mp h
    exact .walks hpc (.ended hends)
  | reader =>
    cases h
    exact .walks hpc .deadline
  | closer =>
    obtain ⟨hdone, ⟨⟩⟩ := Option.ite_none_right_eq_some.mp h
    exact .walks hpc (.closes hdone)

theorem go_cases {s u : WsHandler} {t : Thread} (h : s.go t = some u) : Goes s t u := by
  unfold go at h
  split at h
  · exact goIdle_cases ‹_› h
  · rename_i job hpc
    split at h
    · cases h
      exact .enter hpc ‹_›
    · exact absurd h (by simp)
    · cases h
      exact .walks hpc (.once ‹_›)
  · split at h
    · cases h
      exact .acquire ‹_› ‹_›
    · exact absurd h (by simp)
  · exact .write ‹_› h
  · cases h
    exact .release ‹_›
  · cases h
    exact .close ‹_›
  · obtain ⟨hdone, ⟨⟩⟩ := Option.ite_none_right_eq_some.mp h
    exact .walks ‹_› (.unpassed hdone)
  · obtain ⟨hctx, ⟨⟩⟩ := Option.ite_none_right_eq_some.mp h
    exact .walks ‹_› (.untold hctx)
  · cases h
    exact .cancel ‹_›
  · rename_i hpc
    split at h
    · cases h
      exact .walks hpc (.waited ‹_›)
    · exact absurd h (by simp)
  · exact absurd h (by simp)

/-- Where a goroutine goes on when something is given to it. -/
inductive Given : Thread → Pc → Pc → Prop where
  | env (p : Bytes) : Given .writer .idle (.lock (.data p))
  | ping (payload : Bytes) : Given .reader .idle (.lock (.pong payload))
  | closing (code : ℕ) : Given .reader .idle (.once (.fail code))
  | message : Given .reader .idle .passing
  | passed : Given .reader .passing .idle
  | told : Given .reader .down .cancel

/-- The steps, those alike together. -/
inductive Step (s : WsHandler) : WsAction → WsHandler → Prop where
  | go {t u} (h : s.go t = some u) : Step s (.go t) u
  | given {a t pc pc'} (hpc : s.pc t = pc) (h : Given t pc pc') : Step s a (s.setPc t pc')
  | ignored {a} : Step s a s
  | closesWriterCh : Step s .closesWriterCh { s with writerChClosed := true }
  | ctxDone : Step s .ctxDone { s with ctxDone := true }
  | peerReads {n} : Step s (.peerReads n) { s with room := s.room + n }

theorem step_cases {s u : WsHandler} {a : WsAction} (h : s.step a = some u) : Step s a u := by
  cases a with
  | go t => exact .go h
  | takes env =>
    simp only [step] at h
    split at h
    · cases h
      exact .given ‹_› (.env _)
    · exact absurd h (by simp)
  | heartbeat =>
    simp only [step] at h
    split at h
    · cases h
      exact .given ‹_› (.env _)
    · exact absurd h (by simp)
  | reads incoming =>
    simp only [step] at h
    split at h
    · cases h
      cases incoming with
      | ping payload => exact .given ‹_› (.ping payload)
      | closing code => exact .given ‹_› (.closing code)
      | message => exact .given ‹_› .message
      | ignored => exact .ignored
    · exact absurd h (by simp)
  | passes =>
    simp only [step] at h
    split at h
    · cases h
      exact .given ‹_› .passed
    · exact absurd h (by simp)
  | tells =>
    simp only [step] at h
    split at h
    · cases h
      exact .given ‹_› .told
    · exact absurd h (by simp)
  | closesWriterCh =>
    cases h
    exact .closesWriterCh
  | ctxDone =>
    cases h
    exact .ctxDone
  | peerReads n =>
    cases h
    exact .peerReads

end WsHandler

/-- The connection as a machine. -/
def wsMachine : Machine WsHandler WsAction := ⟨WsHandler.step⟩

end GoLib

end Aiomsg
