import Aiomsg.Lib.Machine
import Aiomsg.Protocol.Envelope
import Aiomsg.Ws.Front

/-!
# Two coroutines, one transport

`WsTransport` of `cpp-lib-async/src/socket.cpp`, with the two coroutines of a registered connection.
`writer` sends what is in `out`, and heartbeats; `reader` sends nothing of its own, but `fill`,
which it reads through, answers a PING with a PONG and a Close frame with a Close frame. Both end in
`write_all` of the transport underneath, which is `asio::async_write`: it writes some of what is
left, waits, and writes some more, and whoever is ready runs in between.

The coroutines run on one executor, so a coroutine is not interrupted between two waits, and an
action here is what one of them does from one wait to the next, or less. When `live` runs out, and
when a read or a write fails, what `reader` waits for is left as it is; the group of the two waits
then ends, now or when `live` runs out, and only then does `stop` close the transport. Nothing is
written after that.

What `reader` does with the bytes it gets is left out but for what it queues: `queue` may happen at
any time, with any bytes.

## What goes wrong

Nothing keeps one `write_all` from starting while the other is not done. In `crossing` a PONG is
written behind the first two bytes of a data frame, and the peer takes it for the payload.

## Scope

The transport underneath is a TCP stream or TLS over one. How much `write_some` takes each time,
when it fails and when bytes arrive is all free. `live`, `hb` and `wake` are timers that are waited
on, and each of them may be done at any moment.

A connection is here from its registration, when both coroutines run, to its `stop`. The handshake
writes its HELLO before there is a `writer`, and is in `Start` as whole frames on the wire. What the
peer makes of a PONG inside a data frame is told by the counterexample and is not part of the
invariant.

## Main definitions

* `FrameParser` — the parser, and what is left of the inbound side
* `Whole` — bytes that are the beginning of frames one behind the other
* `Conn`, `machine` — the connection and what its coroutines do

## Main results

* `Conn.Inv.step` — a step that starts no frame inside another
* `whole_of_alone`
-/

namespace Aiomsg

namespace CppAsync

open Aiomsg.Ws (front unmasked codeOf lengthBytes opCont opText opBin opClose opPing opPong)

/-! ### The parser -/

/-- `FrameParser`: `pos` is the consumed prefix of `buf`, which is compacted lazily. -/
structure FrameParser where
  buf : Bytes
  pos : ℕ

/-- What a single parsed client frame means to the transport layer. -/
inductive Event where
  | need
  | binary
  | ping
  | pong
  | close
  | protocolError
deriving DecidableEq

structure FrameParser.Result where
  event : Event
  payload : Bytes
  code : UInt16

namespace FrameParser

def feed (parser : FrameParser) (data : Bytes) : FrameParser :=
  if 0 < parser.pos ∧ parser.pos = parser.buf.length then ⟨data, 0⟩
  else if 4096 < parser.pos then ⟨parser.buf.drop parser.pos ++ data, 0⟩
  else { parser with buf := parser.buf ++ data }

/-- The `switch (opcode)` of `next`. -/
def dispatch (opcode : UInt8) (payload : Bytes) : Result :=
  if opcode = opBin ∨ opcode = opCont then ⟨.binary, payload, 0⟩
  else if opcode = opPing then ⟨.ping, payload, 0⟩
  else if opcode = opPong then ⟨.pong, payload, 0⟩
  else if opcode = opText then ⟨.protocolError, [], 1003⟩ -- text is not valid for aiomsg
  else if opcode = opClose then ⟨.close, [], codeOf payload⟩
  else ⟨.protocolError, [], 1002⟩ -- unknown opcode

def next (parser : FrameParser) : Result × FrameParser :=
  let p := parser.buf.drop parser.pos
  match front p with
  | .needMore => (⟨.need, [], 0⟩, parser)
  | .protocol code => (⟨.protocolError, [], code⟩, parser)
  | .known opcode _ len header =>
    (dispatch opcode (unmasked p len header),
      { parser with pos := parser.pos + (header + 4 + len) })

end FrameParser

/-! ### Frames for the client -/

/-- A frame as a server may send it: any first byte with no RSV bit set, and a payload that is not
masked. -/
structure Frame where
  first : UInt8
  payload : Bytes
  rsv : first &&& 0x70 = 0

def Frame.bytes (f : Frame) : Bytes := f.first :: lengthBytes f.payload.length ++ f.payload

theorem or_and_rsv : ∀ opcode : UInt8, opcode &&& 0x70 = 0 → (0x80 ||| opcode) &&& 0x70 = 0 := by
  decide +kernel

/-- `server_frame`. -/
def serverFrame (opcode : UInt8) (payload : Bytes) (h : opcode &&& 0x70 = 0) : Frame where
  first := 0x80 ||| opcode
  payload := payload
  rsv := or_and_rsv opcode h

/-- The bytes of frames one behind the other. -/
def concat (frames : List Frame) : Bytes := (frames.map Frame.bytes).flatten

/-- Bytes that are the beginning of frames one behind the other. -/
def Whole (bytes : Bytes) : Prop := ∃ frames, bytes <+: concat frames

theorem concat_append (frames frames' : List Frame) :
    concat (frames ++ frames') = concat frames ++ concat frames' := by
  rw [concat, List.map_append, List.flatten_append]
  rfl

@[simp] theorem concat_singleton (f : Frame) : concat [f] = f.bytes := by simp [concat]

/-- If anything is there, then a frame begins there. -/
theorem Whole.exists_cons {b : UInt8} {bytes : Bytes} (h : Whole (b :: bytes)) :
    ∃ (f : Frame) (frames : List Frame), f.first = b ∧
      bytes <+: lengthBytes f.payload.length ++ f.payload ++ concat frames := by
  obtain ⟨frames, hprefix⟩ := h
  cases frames with
  | nil => exact absurd (List.prefix_nil.mp hprefix) (by simp)
  | cons f frames =>
    have hcons : b :: bytes <+: f.first :: (lengthBytes f.payload.length ++ f.payload
        ++ concat frames) := by simpa [concat, Frame.bytes] using hprefix
    obtain ⟨hfirst, hrest⟩ := List.cons_prefix_cons.mp hcons
    exact ⟨f, frames, hfirst.symm, hrest⟩

theorem Whole.rsv {b : UInt8} {bytes : Bytes} (h : Whole (b :: bytes)) : b &&& 0x70 = 0 := by
  obtain ⟨f, -, rfl, -⟩ := h.exists_cons
  exact f.rsv

/-- Behind a short frame the next one begins. -/
theorem Whole.behind_short {b len : UInt8} {bytes : Bytes} (h : Whole (b :: len :: bytes))
    (hlen : len < 126) : Whole (bytes.drop len.toNat) := by
  have hnat : len.toNat < 126 := UInt8.lt_iff_toNat_lt.mp hlen
  obtain ⟨f, frames, -, hprefix⟩ := h.exists_cons
  have hshort : f.payload.length = len.toNat ∧ bytes <+: f.payload ++ concat frames := by
    rw [lengthBytes] at hprefix
    split_ifs at hprefix with hseven hsixteen
    · obtain ⟨rfl, hrest⟩ := List.cons_prefix_cons.mp hprefix
      refine ⟨?_, hrest⟩
      rw [UInt8.toNat_ofNat_of_lt' (hseven.trans (by decide : 126 < UInt8.size))]
    · obtain ⟨rfl, -⟩ := List.cons_prefix_cons.mp hprefix
      exact absurd hnat (by decide)
    · obtain ⟨rfl, -⟩ := List.cons_prefix_cons.mp hprefix
      exact absurd hnat (by decide)
  refine ⟨frames, ?_⟩
  have hdrop := hshort.2.drop len.toNat
  rwa [← hshort.1, List.drop_left, hshort.1] at hdrop

/-! ### The connection -/

/-- An `async_write` under way, and how much of it is written. Between two calls of `write_some` the
coroutine waits, and that is when the other one may run. -/
structure Write where
  frame : Frame
  done : ℕ

namespace Write

/-- Some of the frame is on the wire, and some is not. -/
def isOpen (w : Write) : Bool := decide (0 < w.done ∧ w.done < w.frame.bytes.length)

/-- What is on the wire of a frame that is not all there. -/
def begun (w : Write) : Bytes :=
  if w.done < w.frame.bytes.length then w.frame.bytes.take w.done else []

/-- The next `n` bytes. -/
def moved (w : Write) (n : ℕ) : Bytes := (w.frame.bytes.drop w.done).take n

end Write

/-- Where `reader` is. A write that is cut off by an exception stays in `thrown`: what has been
written of its frame is on the wire, and the frame will not be finished. -/
inductive Reader where
  /-- In `read_some` or `fill`, not waiting. -/
  | filling
  /-- In `fill`, waiting for the transport underneath to read. -/
  | reading
  /-- In `fill`, or if `closing` in `send_close`, waiting for `write_all`. -/
  | writing (w : Write) (closing : Bool)
  /-- `read_some` has thrown or has been cancelled; `w` is what it was writing then. -/
  | thrown (w : Option Write)
  | ended

/-- Where `writer` is. -/
inductive Writer where
  /-- At `while (!c->out.empty())`. -/
  | draining
  | writing (w : Write)
  /-- Waiting to be woken, or for `hb` to run out. -/
  | waiting
  | ended

/-- A registered `Conn` with its transport, and what has been written to the one underneath.

The first four fields are the transport's and are touched by `reader` alone; `out`, `wake` and
`stopping` are shared. `reader` and `writer` say where the coroutines stand, with the write that
each of them is waiting for. `wire` is all that has been written, and nothing reads it. -/
structure Conn where
  parser : FrameParser
  decoded : Bytes
  decodedPos : ℕ
  closeSent : Bool
  out : List Bytes
  wake : Bool
  stopping : Bool
  reader : Reader
  writer : Writer
  wire : Bytes

def frameHeartbeat : Bytes := [0, 0, 0, 1, Protocol.tHeartbeat]

/-- The size of the buffer in `reader`. -/
def bufSize : ℕ := 16384

namespace Conn

def queue (c : Conn) (b : Bytes) : Conn :=
  -- `try_send` on a closed channel does nothing.
  { c with out := c.out ++ [b], wake := c.wake || !c.stopping }

def stop (c : Conn) : Conn := { c with stopping := true }

def binaryFrame (payload : Bytes) : Frame := serverFrame opBin payload (by decide)

def pongFrame (payload : Bytes) : Frame := serverFrame opPong payload (by decide)

def closeFrame (code : UInt16) : Frame :=
  serverFrame opClose [UInt8.ofNat (code.toNat >>> 8), UInt8.ofNat code.toNat] (by decide)

/-- `send_close`, and the `throw` behind it. -/
def sendClose (c : Conn) (code : UInt16) : Conn :=
  if c.closeSent then { c with reader := .thrown none }
  else { c with closeSent := true, reader := .writing ⟨closeFrame code, 0⟩ true }

/-- One turn of the loop in `fill`, or if there is payload, `read_some` returns some and is called
again. -/
def fill (c : Conn) : Conn :=
  if c.decodedPos ≠ c.decoded.length then
    { c with decodedPos := c.decodedPos + min bufSize (c.decoded.length - c.decodedPos) }
  else
    let (r, parser) := c.parser.next
    let c := { c with parser := parser, decoded := [], decodedPos := 0 }
    match r.event with
    | .binary => { c with decoded := r.payload }
    | .ping => { c with reader := .writing ⟨pongFrame r.payload, 0⟩ false }
    | .pong => c
    | .close => c.sendClose r.code
    | .protocolError => c.sendClose r.code
    | .need => { c with reader := .reading }

end Conn

/-- What can happen. -/
inductive Act where
  /-- Somebody queues bytes for the peer. -/
  | queue (b : Bytes)
  /-- Somebody else stops the connection. -/
  | stop
  /-- `reader` goes on, not waiting. -/
  | fill
  /-- Bytes arrive for `reader`. -/
  | arrive (data : Bytes)
  /-- `write_some` for `reader`. -/
  | readerMoves (n : ℕ)
  /-- The write of `reader` is done. -/
  | readerWrote
  /-- What `reader` waits for fails, or is cancelled because `live` has run out. -/
  | readerThrows
  /-- The group of `read_some` and `live` has ended, and `reader` stops the connection. -/
  | readerStops
  /-- `writer` goes on, not waiting. -/
  | drain
  /-- `write_some` for `writer`. -/
  | writerMoves (n : ℕ)
  /-- The write of `writer` is done. -/
  | writerWrote
  /-- What `writer` waits for fails, and it stops the connection. -/
  | writerStops
  | woken
  | beat

def Conn.step (c : Conn) : Act → Option Conn
  | .queue b => some (c.queue b)
  | .stop => some c.stop
  | .fill =>
    match c.reader with
    | .filling => some c.fill
    | _ => none
  | .arrive data =>
    match c.reader with
    | .reading =>
      if c.stopping = false ∧ data ≠ [] ∧ data.length ≤ bufSize then
        some { c with parser := c.parser.feed data, reader := .filling }
      else none
    | _ => none
  | .readerMoves n =>
    match c.reader with
    | .writing w closing =>
      if c.stopping = false ∧ 0 < n ∧ w.done + n ≤ w.frame.bytes.length then
        some { c with
          wire := c.wire ++ w.moved n, reader := .writing ⟨w.frame, w.done + n⟩ closing }
      else none
    | _ => none
  | .readerWrote =>
    match c.reader with
    | .writing w closing =>
      if w.done = w.frame.bytes.length then
        some { c with reader := if closing then .thrown none else .filling }
      else none
    | _ => none
  | .readerThrows =>
    match c.reader with
    | .reading => some { c with reader := .thrown none }
    | .writing w _ => some { c with reader := .thrown (some w) }
    | _ => none
  | .readerStops =>
    match c.reader with
    | .thrown _ => some { c.stop with reader := .ended }
    | _ => none
  | .drain =>
    match c.writer, c.out with
    | .draining, b :: out =>
      some { c with out := out, writer := .writing ⟨Conn.binaryFrame b, 0⟩ }
    | .draining, [] => some { c with writer := .waiting }
    | _, _ => none
  | .writerMoves n =>
    match c.writer with
    | .writing w =>
      if c.stopping = false ∧ 0 < n ∧ w.done + n ≤ w.frame.bytes.length then
        some { c with wire := c.wire ++ w.moved n, writer := .writing ⟨w.frame, w.done + n⟩ }
      else none
    | _ => none
  | .writerWrote =>
    match c.writer with
    | .writing w =>
      if w.done = w.frame.bytes.length then some { c with writer := .draining } else none
    | _ => none
  | .writerStops =>
    match c.writer with
    | .writing _ | .waiting => some { c.stop with writer := .ended }
    | _ => none
  | .woken =>
    match c.writer with
    | .waiting => if c.wake then some { c with wake := false, writer := .draining } else none
    | _ => none
  | .beat =>
    match c.writer with
    | .waiting => some { c with writer := .writing ⟨Conn.binaryFrame frameHeartbeat, 0⟩ }
    | _ => none

def machine : Machine Conn Act where
  step := Conn.step

/-- A registered connection whose coroutines have not run yet. What has been written before is whole
frames, and anything may have been read and queued. -/
structure Conn.Start (c : Conn) : Prop where
  wire : ∃ frames, c.wire = concat frames
  stopping : c.stopping = false
  reader : c.reader = .filling
  writer : c.writer = .draining

/-! ### Whole frames -/

/-- What is on the wire of a frame of `reader` that is not all there. -/
def Reader.begun : Reader → Bytes
  | .writing w _ | .thrown (some w) => w.begun
  | _ => []

/-- What is on the wire of a frame of `writer` that is not all there. -/
def Writer.begun : Writer → Bytes
  | .writing w => w.begun
  | _ => []

/-- A coroutine moves bytes only if no frame of the other one is on the wire in part. It is a
condition on the connection before the step. A frame that is all written but not yet reported as
done does not count. -/
def Alone (c : Conn) : Act → Prop
  | .readerMoves _ => c.writer.begun = []
  | .writerMoves _ => c.reader.begun = []
  | _ => True

instance (c : Conn) : ∀ a, Decidable (Alone c a)
  | .readerMoves _ => inferInstanceAs (Decidable (_ = _))
  | .writerMoves _ => inferInstanceAs (Decidable (_ = _))
  | .queue _ | .stop | .fill | .arrive _ | .readerWrote | .readerThrows | .readerStops | .drain
  | .writerWrote | .writerStops | .woken | .beat => .isTrue trivial

namespace Write

theorem begun_prefix (w : Write) : w.begun <+: w.frame.bytes := by
  rw [begun]
  split_ifs
  · exact List.take_prefix _ _
  · exact List.nil_prefix

@[simp] theorem begun_zero (f : Frame) : (⟨f, 0⟩ : Write).begun = [] := by simp [begun]

theorem begun_of_done {w : Write} (h : w.done = w.frame.bytes.length) : w.begun = [] :=
  if_neg (Nat.not_lt.mpr h.ge)

/-- **A `write_some`.** What is on the wire behind whole frames grows to a whole frame, or to more
of one. -/
theorem exists_concat_moved (w : Write) {n : ℕ} (hpos : 0 < n)
    (hn : w.done + n ≤ w.frame.bytes.length) (frames : List Frame) :
    ∃ frames', concat frames ++ w.begun ++ w.moved n
      = concat frames' ++ (⟨w.frame, w.done + n⟩ : Write).begun := by
  have hbegun : w.begun = w.frame.bytes.take w.done := if_pos (by omega)
  have hmoved : w.begun ++ w.moved n = w.frame.bytes.take (w.done + n) := by
    rw [hbegun, moved, ← List.take_add]
  rw [List.append_assoc, hmoved]
  by_cases hlast : w.done + n < w.frame.bytes.length
  · exact ⟨frames, congrArg (concat frames ++ ·) (if_pos hlast).symm⟩
  · have hall : w.frame.bytes.take (w.done + n) = w.frame.bytes := List.take_of_length_le (by omega)
    have hnone : (⟨w.frame, w.done + n⟩ : Write).begun = [] := if_neg hlast
    refine ⟨frames ++ [w.frame], ?_⟩
    rw [hall, hnone, List.append_nil, concat_append, concat_singleton]

end Write

theorem Reader.begun_prefix (r : Reader) : ∃ f : Frame, r.begun <+: f.bytes := by
  have hnil : ∃ f : Frame, [] <+: f.bytes := ⟨Conn.binaryFrame [], List.nil_prefix⟩
  cases r with
  | writing w closing => exact ⟨w.frame, w.begun_prefix⟩
  | thrown w =>
    cases w with
    | none => exact hnil
    | some w => exact ⟨w.frame, w.begun_prefix⟩
  | filling | reading | ended => exact hnil

theorem Writer.begun_prefix (w : Writer) : ∃ f : Frame, w.begun <+: f.bytes := by
  have hnil : ∃ f : Frame, [] <+: f.bytes := ⟨Conn.binaryFrame [], List.nil_prefix⟩
  cases w with
  | writing w => exact ⟨w.frame, w.begun_prefix⟩
  | draining | waiting | ended => exact hnil

namespace Conn

/-- While the transport is open, what is written is whole frames, and behind them the beginning of
at most one that `reader` or `writer` has not finished. -/
def Sound (c : Conn) : Prop :=
  (c.reader.begun = [] ∨ c.writer.begun = []) ∧
    ∃ frames, c.wire = concat frames ++ c.reader.begun ++ c.writer.begun

/-- The invariant. The first part is what is wanted and is kept when the connection stops; the
second is what the next write needs to know, and is only asked for while there can be one. -/
structure Inv (c : Conn) : Prop where
  whole : Whole c.wire
  sound : c.stopping = false → c.Sound

theorem Sound.whole {c : Conn} (h : c.Sound) : Whole c.wire := by
  obtain ⟨hone, frames, hwire⟩ := h
  obtain ⟨f, hf⟩ : ∃ f : Frame, c.reader.begun ++ c.writer.begun <+: f.bytes := by
    rcases hone with hnil | hnil
    · rw [hnil, List.nil_append]
      exact c.writer.begun_prefix
    · rw [hnil, List.append_nil]
      exact c.reader.begun_prefix
  refine ⟨frames ++ [f], ?_⟩
  rw [hwire, List.append_assoc, concat_append, concat_singleton]
  exact (List.prefix_append_right_inj _).mpr hf

theorem Inv.of_sound {c : Conn} (h : c.Sound) : c.Inv := ⟨h.whole, fun _ => h⟩

theorem Start.inv {c : Conn} (h : c.Start) : c.Inv := by
  obtain ⟨frames, hwire⟩ := h.wire
  have hsound : c.Sound := by
    refine ⟨.inl (by rw [h.reader]; rfl), frames, ?_⟩
    rw [h.reader, h.writer, hwire]
    simp [Reader.begun, Writer.begun]
  exact .of_sound hsound

/-- Nothing is written, and no frame of the coroutines is on the wire in part that was not. -/
theorem Inv.of_eq {c c' : Conn} (h : c.Inv) (hwire : c'.wire = c.wire)
    (hopen : c'.stopping = false → c.stopping = false)
    (hbegun : c'.stopping = false →
      c'.reader.begun = c.reader.begun ∧ c'.writer.begun = c.writer.begun) : c'.Inv := by
  refine ⟨hwire ▸ h.whole, fun hstop => ?_⟩
  obtain ⟨hreader, hwriter⟩ := hbegun hstop
  rw [Sound, hreader, hwriter, hwire]
  exact h.sound (hopen hstop)

/-- A `write_some` for a coroutine that has its frame alone on the wire. -/
theorem Inv.moves {c c' : Conn} {w : Write} {n : ℕ} (h : c.Inv)
    (hstep : c.stopping = false ∧ 0 < n ∧ w.done + n ≤ w.frame.bytes.length)
    (hwire : c'.wire = c.wire ++ w.moved n) (hbegun : c.reader.begun ++ c.writer.begun = w.begun)
    (hone : c'.reader.begun = [] ∨ c'.writer.begun = [])
    (hbegun' : c'.reader.begun ++ c'.writer.begun = (⟨w.frame, w.done + n⟩ : Write).begun) :
    c'.Inv := by
  obtain ⟨hopen, hpos, hn⟩ := hstep
  obtain ⟨-, frames, hframes⟩ := h.sound hopen
  rw [List.append_assoc, hbegun] at hframes
  obtain ⟨frames', hframes'⟩ := w.exists_concat_moved hpos hn frames
  refine .of_sound ⟨hone, frames', ?_⟩
  rw [hwire, hframes, hframes', List.append_assoc, hbegun']

theorem wire_sendClose (c : Conn) (code : UInt16) : (c.sendClose code).wire = c.wire ∧
    (c.sendClose code).stopping = c.stopping ∧ (c.sendClose code).writer = c.writer ∧
    (c.sendClose code).reader.begun = [] := by
  rw [sendClose]
  split_ifs
  · exact ⟨rfl, rfl, rfl, rfl⟩
  · exact ⟨rfl, rfl, rfl, Write.begun_zero _⟩

/-- `fill` writes nothing by itself. -/
theorem wire_fill {c : Conn} (h : c.reader = .filling) : c.fill.wire = c.wire ∧
    c.fill.stopping = c.stopping ∧ c.fill.writer = c.writer ∧ c.fill.reader.begun = [] := by
  rw [fill]
  by_cases hpos : c.decodedPos ≠ c.decoded.length
  · rw [if_pos hpos]
    exact ⟨rfl, rfl, rfl, by rw [h]; rfl⟩
  rw [if_neg hpos]
  obtain ⟨⟨event, payload, code⟩, parser⟩ := c.parser.next
  cases event with
  | binary | pong => exact ⟨rfl, rfl, rfl, by rw [h]; rfl⟩
  | need => exact ⟨rfl, rfl, rfl, rfl⟩
  | ping => exact ⟨rfl, rfl, rfl, Write.begun_zero _⟩
  | close | protocolError => exact wire_sendClose _ code

/-- What an action does to what `Inv` is about: nothing, or it stops the connection, or it moves
bytes for one of the coroutines. -/
inductive Change (c : Conn) : Act → Conn → Prop
  | quiet {a : Act} {c' : Conn} (hwire : c'.wire = c.wire) (hstopping : c'.stopping = c.stopping)
      (hreader : c'.reader.begun = c.reader.begun) (hwriter : c'.writer.begun = c.writer.begun) :
      Change c a c'
  | stopped {a : Act} {c' : Conn} (hwire : c'.wire = c.wire) (hstopping : c'.stopping = true) :
      Change c a c'
  | readerMoves {w : Write} {closing : Bool} {n : ℕ} (hreader : c.reader = .writing w closing)
      (hmoves : c.stopping = false ∧ 0 < n ∧ w.done + n ≤ w.frame.bytes.length) :
      Change c (.readerMoves n) { c with
        wire := c.wire ++ w.moved n, reader := .writing ⟨w.frame, w.done + n⟩ closing }
  | writerMoves {w : Write} {n : ℕ} (hwriter : c.writer = .writing w)
      (hmoves : c.stopping = false ∧ 0 < n ∧ w.done + n ≤ w.frame.bytes.length) :
      Change c (.writerMoves n)
        { c with wire := c.wire ++ w.moved n, writer := .writing ⟨w.frame, w.done + n⟩ }

section Change

variable {c c' : Conn}

/-- An action of `reader` that moves nothing. -/
theorem Change.reader {a : Act} {r : Reader} (hbegun : r.begun = c.reader.begun) :
    Change c a { c with reader := r } :=
  .quiet rfl rfl hbegun rfl

/-- An action of `writer` that moves nothing. -/
theorem Change.writer {a : Act} {w : Writer} (hbegun : w.begun = c.writer.begun) :
    Change c a { c with writer := w } :=
  .quiet rfl rfl rfl hbegun

theorem change_fill (h : c.step .fill = some c') : Change c .fill c' := by
  simp only [Conn.step] at h
  split at h
  case h_1 hreader =>
    cases h
    obtain ⟨hwire, hstopping, hwriter, hbegun⟩ := wire_fill hreader
    refine .quiet hwire hstopping ?_ (congrArg Writer.begun hwriter)
    rw [hbegun, hreader]
    rfl
  case h_2 => cases h

theorem change_arrive {data : Bytes} (h : c.step (.arrive data) = some c') :
    Change c (.arrive data) c' := by
  simp only [Conn.step] at h
  split at h
  case h_1 hreader =>
    obtain ⟨-, ⟨⟩⟩ := Option.ite_none_right_eq_some.mp h
    refine .quiet rfl rfl ?_ rfl
    rw [hreader]
    rfl
  case h_2 => cases h

theorem change_readerMoves {n : ℕ} (h : c.step (.readerMoves n) = some c') :
    Change c (.readerMoves n) c' := by
  simp only [Conn.step] at h
  split at h
  case h_1 w closing hreader =>
    obtain ⟨hmoves, ⟨⟩⟩ := Option.ite_none_right_eq_some.mp h
    exact .readerMoves hreader hmoves
  case h_2 => cases h

/-- When a frame is written there is no part of it on the wire. -/
theorem change_readerWrote (h : c.step .readerWrote = some c') : Change c .readerWrote c' := by
  simp only [Conn.step] at h
  split at h
  case h_1 w closing hreader =>
    obtain ⟨hdone, ⟨⟩⟩ := Option.ite_none_right_eq_some.mp h
    have hnil : c.reader.begun = [] := by
      rw [hreader]
      exact Write.begun_of_done hdone
    refine .reader ?_
    rw [hnil]
    cases closing <;> rfl
  case h_2 => cases h

theorem change_readerThrows (h : c.step .readerThrows = some c') : Change c .readerThrows c' := by
  simp only [Conn.step] at h
  split at h
  case h_1 hreader =>
    cases h
    exact .reader (by rw [hreader]; rfl)
  case h_2 w closing hreader =>
    cases h
    exact .reader (by rw [hreader]; rfl)
  case h_3 => cases h

theorem change_readerStops (h : c.step .readerStops = some c') : Change c .readerStops c' := by
  simp only [Conn.step] at h
  split at h
  case h_1 => cases h; exact .stopped rfl rfl
  case h_2 => cases h

theorem change_drain (h : c.step .drain = some c') : Change c .drain c' := by
  simp only [Conn.step] at h
  split at h
  case h_1 b out hwriter hout =>
    cases h
    refine .quiet rfl rfl rfl ?_
    rw [hwriter]
    exact Write.begun_zero _
  case h_2 hwriter hout =>
    cases h
    exact .writer (by rw [hwriter]; rfl)
  case h_3 => cases h

theorem change_writerMoves {n : ℕ} (h : c.step (.writerMoves n) = some c') :
    Change c (.writerMoves n) c' := by
  simp only [Conn.step] at h
  split at h
  case h_1 w hwriter =>
    obtain ⟨hmoves, ⟨⟩⟩ := Option.ite_none_right_eq_some.mp h
    exact .writerMoves hwriter hmoves
  case h_2 => cases h

theorem change_writerWrote (h : c.step .writerWrote = some c') : Change c .writerWrote c' := by
  simp only [Conn.step] at h
  split at h
  case h_1 w hwriter =>
    obtain ⟨hdone, ⟨⟩⟩ := Option.ite_none_right_eq_some.mp h
    refine .writer ?_
    rw [hwriter]
    exact (Write.begun_of_done hdone).symm
  case h_2 => cases h

theorem change_writerStops (h : c.step .writerStops = some c') : Change c .writerStops c' := by
  simp only [Conn.step] at h
  split at h
  case h_1 => cases h; exact .stopped rfl rfl
  case h_2 => cases h; exact .stopped rfl rfl
  case h_3 => cases h

theorem change_woken (h : c.step .woken = some c') : Change c .woken c' := by
  simp only [Conn.step] at h
  split at h
  case h_1 hwriter =>
    obtain ⟨-, ⟨⟩⟩ := Option.ite_none_right_eq_some.mp h
    exact .quiet rfl rfl rfl (by rw [hwriter]; rfl)
  case h_2 => cases h

theorem change_beat (h : c.step .beat = some c') : Change c .beat c' := by
  simp only [Conn.step] at h
  split at h
  case h_1 hwriter =>
    cases h
    refine .writer ?_
    rw [hwriter]
    exact Write.begun_zero _
  case h_2 => cases h

theorem change_step {a : Act} (h : c.step a = some c') : Change c a c' := by
  cases a with
  | queue b => cases h; exact .quiet rfl rfl rfl rfl
  | stop => cases h; exact .stopped rfl rfl
  | fill => exact change_fill h
  | arrive data => exact change_arrive h
  | readerMoves n => exact change_readerMoves h
  | readerWrote => exact change_readerWrote h
  | readerThrows => exact change_readerThrows h
  | readerStops => exact change_readerStops h
  | drain => exact change_drain h
  | writerMoves n => exact change_writerMoves h
  | writerWrote => exact change_writerWrote h
  | writerStops => exact change_writerStops h
  | woken => exact change_woken h
  | beat => exact change_beat h

end Change

/-- **One action.** If no frame is started inside another, what is written stays whole. -/
theorem Inv.step {c c' : Conn} {a : Act} (h : c.Inv) (halone : Alone c a)
    (hstep : machine.step c a = some c') : c'.Inv := by
  cases change_step hstep with
  | quiet hwire hstopping hreader hwriter =>
    exact h.of_eq hwire hstopping.symm.trans fun _ => ⟨hreader, hwriter⟩
  | stopped hwire hstopping =>
    have hnot : c'.stopping ≠ false := by simp [hstopping]
    exact h.of_eq hwire (fun hopen => absurd hopen hnot) fun hopen => absurd hopen hnot
  | readerMoves hreader hmoves =>
    have hnil : c.writer.begun = [] := halone
    refine h.moves hmoves rfl ?_ (.inr hnil) ?_
    · rw [hreader, hnil]
      exact List.append_nil _
    · show _ ++ c.writer.begun = _
      rw [hnil]
      exact List.append_nil _
  | writerMoves hwriter hmoves =>
    have hnil : c.reader.begun = [] := halone
    refine h.moves hmoves rfl ?_ (.inl hnil) ?_
    · rw [hwriter, hnil]
      rfl
    · show c.reader.begun ++ _ = _
      rw [hnil]
      rfl

end Conn

/-- **Whole frames, if they are written alone.** In every run in which a coroutine moves bytes only
while no frame of the other one is on the wire in part, what is written is the beginning of whole
frames one behind the other. -/
theorem whole_of_alone {c c' : Conn} {as : List Act} (h : c.Start)
    (halone : machine.Along Alone c as) (hrun : machine.run c as = some c') : Whole c'.wire :=
  (halone.invariant (I := Conn.Inv) (fun _ _ _ hinv halone => hinv.step halone) hrun h.inv).whole

/-! ### A PONG inside a data frame -/

/-- A connection on which nothing has been read, with a message for the peer. -/
def crossingStart : Conn where
  parser := ⟨[], 0⟩
  decoded := []
  decodedPos := 0
  closeSent := false
  out := [Protocol.data [0xff, 0xff]]
  wake := true
  stopping := false
  reader := .filling
  writer := .draining
  wire := []

/-- The transport takes two bytes of the message, a PING is answered, and the rest is written. -/
def crossing : List Act :=
  [.drain, .writerMoves 2, .fill, .arrive [0x89, 0x80, 0, 0, 0, 0], .fill, .readerMoves 2,
    .writerMoves 7]

theorem crossingStart_start : crossingStart.Start := ⟨⟨[], rfl⟩, rfl, rfl, rfl⟩

/-- The same in an order in which no frame is started inside another. -/
def apart : List Act :=
  [.drain, .writerMoves 2, .writerMoves 7, .fill, .arrive [0x89, 0x80, 0, 0, 0, 0], .fill,
    .readerMoves 2]

theorem apart_whole : ∃ c', machine.run crossingStart apart = some c' ∧ Whole c'.wire := by
  refine ⟨_, rfl, ?_⟩
  exact whole_of_alone crossingStart_start (by decide : machine.Along Alone _ apart) rfl

/-- The peer reads seven bytes of payload, and then a byte that begins no frame. -/
theorem not_whole_crossing : ¬ ∀ (c c' : Conn) (as : List Act), c.Start →
    machine.run c as = some c' → Whole c'.wire := by
  intro hwhole
  have hwire : (machine.run crossingStart crossing).map Conn.wire
      = some [0x82, 0x07, 0x8a, 0x00, 0, 0, 0, 3, 3, 0xff, 0xff] := by decide
  obtain ⟨c', hrun, hbytes⟩ := Option.map_eq_some_iff.mp hwire
  have hfirst := hwhole _ _ _ crossingStart_start hrun
  rw [hbytes] at hfirst
  have hnext : Whole [0xff, 0xff] := hfirst.behind_short (by decide)
  exact absurd hnext.rsv (by decide)

end CppAsync

end Aiomsg
