import Aiomsg.Lib.Effect
import Aiomsg.Lib.Reader
import Aiomsg.Lib.Split
import Aiomsg.Ws.Frame

/-!
# Readers and writers on the event loop

The pairs of a reader and a writer that `_connection` of `python-lib/aiomsg/__init__.py` is called
with: what `open_connection` returns, and the two that `sniff_and_wrap` of `ws.py` puts together.
All three end at the `StreamReader` and the `StreamWriter` of the connection, and whether the writer
is closed means whether `close` has been called on that one. No operation but `close` does that, and
this is what the fields of a `Duplex` say.

An arrival `.err .wouldBlock` is a task that is cancelled while it waits for more; the other kinds
stand for what `read_msg` catches.

## Scope

`StreamReader` has a limit for `readuntil` and none for `readexactly`, which is what is used behind
the upgrade. What asyncio does to a transport on its own account, after a reset or when it is
collected, is not `close`.

## Main definitions

* `Stream`, `Prepended`, `WsStream` — the pairs
* `Duplex` — what `_connection` asks of a pair

## Main results

* `WsStream.within_readexactly`, `Prepended.within_readexactly`
* `WsStream.lowers_fillOnce` — why the loop of the adapter ends
-/

namespace Aiomsg

namespace Python

namespace Handshake

open Ws (opBin opCont opPing opPong opText opClose xorMask closeCode toBeBytes serverFrame)

/-- What is raised: `EOFError` with `IncompleteReadError`, `OSError` with `TimeoutError`,
`LimitOverrunError`, `CancelledError` and `IndexError`. -/
inductive Exc where
  | eof
  | os
  | limitOverrun
  | cancelled
  | index
deriving DecidableEq

/-- What a failed read raises. -/
def Exc.ofKind : ErrorKind → Exc
  | .unexpectedEof => .eof
  | .wouldBlock => .cancelled
  | .timedOut | .interrupted | .other => .os

/-- `try` with an `except` for some exceptions and `None` for them. -/
def caught {σ α : Type} (p : Exc → Bool) (x : EStateM Exc σ α) : EStateM Exc σ (Option α) :=
  tryCatch (do let a ← x; return some a) fun e => if p e then return none else throw e

theorem within_caught {σ α : Type} {R : σ → σ → Prop} [IsPreorder σ R] {x : EStateM Exc σ α}
    (p : Exc → Bool) (hx : EStateM.Within R x) : EStateM.Within R (caught p x) := by
  refine .tryCatch (.bind hx fun a => .pure _) fun e => ?_
  split_ifs
  · exact .pure _
  · exact .throw _

/-! ### The stream of a connection -/

/-- A `StreamReader` and a `StreamWriter`: what arrives, what the next `drain`s raise, what has been
written, and whether `close` has been called. -/
structure Stream where
  incoming : Source
  drains : List (Option Exc)
  written : Bytes
  closed : Bool

namespace Stream

def opened (incoming : Source) (drains : List (Option Exc)) : Stream :=
  ⟨incoming, drains, [], false⟩

def write (data : Bytes) (s : Stream) : Stream := { s with written := s.written ++ data }

def close (s : Stream) : Stream := { s with closed := true }

def drain : EStateM Exc Stream Unit := fun s =>
  match s.drains with
  | [] => .ok () s
  | none :: drains => .ok () { s with drains := drains }
  | some e :: drains => .error e { s with drains := drains }

def readexactly (n : ℕ) : EStateM Exc Stream Bytes := fun s =>
  match s.incoming.readExact n with
  | (.ok data, src) => .ok data { s with incoming := src }
  | (.error kind, src) => .error (.ofKind kind) { s with incoming := src }

/-- The `limit` of a `StreamReader`. -/
def limit : ℕ := 65536

/-- The loop of `readuntil(b"\r\n\r\n")`, with the bytes in the buffer. -/
def readuntil (buffer : Bytes) (src : Source) : Except Exc Bytes × Source :=
  match Split.find [13, 10, 13, 10] buffer with
  | some isep =>
    if limit < isep then (.error .limitOverrun, Source.putBack buffer src)
    else (.ok (buffer.take (isep + 4)), Source.putBack (buffer.drop (isep + 4)) src)
  | none =>
    if limit + 3 < buffer.length then (.error .limitOverrun, Source.putBack buffer src)
    else
      match src with
      | [] => (.error .eof, [])
      | .err kind :: src => (.error (.ofKind kind), Source.putBack buffer src)
      | .bytes b bs :: src => readuntil (buffer ++ b :: bs) src

def readHead : EStateM Exc Stream Bytes := fun s =>
  match readuntil [] s.incoming with
  | (.ok data, src) => .ok data { s with incoming := src }
  | (.error e, src) => .error e { s with incoming := src }

/-- What every operation but `close` keeps to: the writer is as open as before, and nothing is put
on the stream. -/
def Later (s s' : Stream) : Prop :=
  s'.closed = s.closed ∧ s'.incoming.weight ≤ s.incoming.weight

instance : IsPreorder Stream Later where
  refl _ := ⟨rfl, le_rfl⟩
  trans _ _ _ h h' := ⟨h'.1.trans h.1, h'.2.trans h.2⟩

theorem within_drain : drain.Within Later := by
  intro s
  rw [EStateM.after, EStateM.run, drain]
  rcases s.drains with _ | ⟨_ | _, _⟩
  · exact ⟨rfl, le_rfl⟩
  · exact ⟨rfl, le_rfl⟩
  · exact ⟨rfl, le_rfl⟩

theorem within_readexactly (n : ℕ) : (readexactly n).Within Later := by
  intro s
  have hle := Source.weight_readExact_le n s.incoming
  rw [EStateM.after, EStateM.run, readexactly]
  rcases hread : s.incoming.readExact n with ⟨_ | _, src⟩
  · rw [hread] at hle
    exact ⟨rfl, hle⟩
  · rw [hread] at hle
    exact ⟨rfl, hle⟩

theorem lowers_readexactly (n : ℕ) : (readexactly (n + 1)).Lowers (·.incoming.weight) := by
  intro s data s' h
  rw [EStateM.run, readexactly] at h
  rcases hread : s.incoming.readExact (n + 1) with ⟨_ | _, src⟩
  · rw [hread] at h
    cases h
  · rw [hread] at h
    cases h
    have hweight := (Source.readExact_ok hread).2.2
    show src.weight < s.incoming.weight
    omega

theorem weight_readuntil (buffer : Bytes) (src : Source) :
    (readuntil buffer src).2.weight ≤ 2 * buffer.length + src.weight := by
  fun_induction readuntil buffer src with
  | case1 => exact (Source.weight_putBack _ _).le
  | case2 =>
    rw [Source.weight_putBack, List.length_drop]
    omega
  | case3 => exact (Source.weight_putBack _ _).le
  | case4 => exact Nat.zero_le _
  | case5 =>
    rw [Source.weight_putBack, Source.weight]
    omega
  | case6 buffer hfind hlimit b bs src ih =>
    rw [List.length_append, List.length_cons] at ih
    rw [Source.weight]
    omega

theorem within_readHead : readHead.Within Later := by
  intro s
  have hle := weight_readuntil [] s.incoming
  rw [List.length_nil, Nat.mul_zero, Nat.zero_add] at hle
  rw [EStateM.after, EStateM.run, readHead]
  rcases hread : readuntil [] s.incoming with ⟨_ | _, src⟩
  · rw [hread] at hle
    exact ⟨rfl, hle⟩
  · rw [hread] at hle
    exact ⟨rfl, hle⟩

end Stream

/-! ### What `_connection` asks of a pair -/

/-- A reader and a writer, by their methods. `closed` is whether the writer of the connection itself
has been closed. -/
structure Duplex (σ : Type) where
  readexactly : ℕ → EStateM Exc σ Bytes
  write : Bytes → σ → σ
  drain : EStateM Exc σ Unit
  close : σ → σ
  closed : σ → Bool
  within_readexactly : ∀ n, (readexactly n).Within fun s s' => closed s' = closed s
  closed_write : ∀ data s, closed (write data s) = closed s
  within_drain : drain.Within fun s s' => closed s' = closed s
  closed_close : ∀ s, closed (close s) = true

/-- The pair that `open_connection` returns. -/
def plain : Duplex Stream where
  readexactly := Stream.readexactly
  write := Stream.write
  drain := Stream.drain
  close := Stream.close
  closed := Stream.closed
  within_readexactly := fun n s => (Stream.within_readexactly n s).1
  closed_write := fun _ _ => rfl
  within_drain := fun s => (Stream.within_drain s).1
  closed_close := fun _ => rfl

/-! ### The pushed back byte -/

/-- A `_PrependReader` and the writer. -/
structure Prepended where
  pre : Bytes
  stream : Stream

namespace Prepended

/-- What is done to the stream. -/
def onStream {α : Type} (x : EStateM Exc Stream α) : EStateM Exc Prepended α :=
  x.zoom stream fun stream p => { p with stream := stream }

def readexactly (n : ℕ) : EStateM Exc Prepended Bytes := fun p =>
  if p.pre = [] then onStream (Stream.readexactly n) p
  else if n ≤ p.pre.length then .ok (p.pre.take n) { p with pre := p.pre.drop n }
  else
    let rest := do
      let tail ← onStream (Stream.readexactly (n - p.pre.length))
      return p.pre ++ tail
    rest.run { p with pre := [] }

/-- The writer is as open as before. -/
def Open (p p' : Prepended) : Prop := p'.stream.closed = p.stream.closed

instance : IsPreorder Prepended Open where
  refl _ := rfl
  trans _ _ _ h h' := Eq.trans h' h

theorem within_onStream {α : Type} {x : EStateM Exc Stream α} (hx : x.Within Stream.Later) :
    (onStream x).Within Open := by
  intro p
  rw [onStream, EStateM.after_zoom]
  exact (hx p.stream).1

theorem within_readexactly (n : ℕ) : (readexactly n).Within Open := by
  intro p
  rw [EStateM.after, EStateM.run, readexactly]
  split_ifs
  · exact within_onStream (Stream.within_readexactly n) p
  · exact rfl
  · have hrest : EStateM.Within Open (do
        let tail ← onStream (Stream.readexactly (n - p.pre.length))
        return p.pre ++ tail) :=
      .bind (within_onStream (Stream.within_readexactly _)) fun _ => .pure _
    exact hrest { p with pre := [] }

end Prepended

/-- The pair for raw aiomsg on an accepted connection. -/
def prepended : Duplex Prepended where
  readexactly := Prepended.readexactly
  write := fun data p => { p with stream := p.stream.write data }
  drain := Prepended.onStream Stream.drain
  close := fun p => { p with stream := p.stream.close }
  closed := fun p => p.stream.closed
  within_readexactly := Prepended.within_readexactly
  closed_write := fun _ _ => rfl
  within_drain := Prepended.within_onStream Stream.within_drain
  closed_close := fun _ => rfl

/-! ### The WebSocket adapter -/

/-- A `WSReader` and a `WSWriter` with the `_CloseGuard` they share. -/
structure WsStream where
  raw : Stream
  /-- The `_buf` of the reader. -/
  received : Bytes
  /-- The `_buf` of the writer. -/
  pending : Bytes
  closeSent : Bool

namespace WsStream

def new (raw : Stream) : WsStream := ⟨raw, [], [], false⟩

/-- What is done to the stream below. -/
def onRaw {α : Type} (x : EStateM Exc Stream α) : EStateM Exc WsStream α :=
  x.zoom raw fun raw ws => { ws with raw := raw }

/-- A frame of the adapter's own. -/
def writeRaw (frame : Bytes) (ws : WsStream) : WsStream := { ws with raw := ws.raw.write frame }

/-- `send_close` -/
def sendClose (code : UInt16) (ws : WsStream) : WsStream :=
  if ws.closeSent then ws
  else { ws with closeSent := true }.writeRaw (serverFrame opClose (toBeBytes code))

/-- `_fail` -/
def fail {α : Type} (code : UInt16) : EStateM Exc WsStream α := do
  modify (sendClose code)
  throw .eof

/-- The length of a frame, by the second byte of it. -/
def readLength (b1 : UInt8) : EStateM Exc WsStream ℕ := do
  let length := (b1 &&& 0x7F).toNat
  if length = 126 then
    let ext ← onRaw (Stream.readexactly 2)
    return BigEndian.value ext
  else if length = 127 then
    let ext ← onRaw (Stream.readexactly 8)
    if ext.headD 0 &&& 0x80 ≠ 0 then fail 1002 -- 64-bit length MSB MUST be 0
    else return BigEndian.value ext
  else return length

/-- `_read_client_frame` behind the first two bytes. -/
def readBehind (b0 b1 : UInt8) : EStateM Exc WsStream (UInt8 × Bytes) := do
  if b0 &&& 0x70 ≠ 0 then fail 1002 -- any RSV bit set
  else if b1 &&& 0x80 = 0 then fail 1002 -- every client frame MUST be masked
  else
    let opcode := b0 &&& 0x0F
    let length ← readLength b1
    if 0x8 ≤ opcode ∧ (b0 &&& 0x80 = 0 ∨ 125 < length) then
      fail 1002 -- control frames: FIN=1, ≤125 bytes
    else
      let mask ← onRaw (Stream.readexactly 4)
      let raw ← onRaw (Stream.readexactly length)
      return (opcode, xorMask mask raw)

/-- What `_fill_once` does with a frame. -/
def handle (opcode : UInt8) (payload : Bytes) : EStateM Exc WsStream Unit := do
  if opcode = opBin ∨ opcode = opCont then
    modify fun ws => { ws with received := ws.received ++ payload }
  else if opcode = opPing then modify (writeRaw (serverFrame opPong payload))
  else if opcode = opPong then pure ()
  else if opcode = opText then fail 1003 -- text is not valid for aiomsg
  else if opcode = opClose then fail (closeCode payload)
  else fail 1002 -- unknown opcode

/-- `_fill_once`, with `_read_client_frame`. -/
def fillOnce : EStateM Exc WsStream Unit := do
  let head ← onRaw (Stream.readexactly 2)
  let (opcode, payload) ← readBehind (head.getD 0 0) (head.getD 1 0)
  handle opcode payload

/-- What is done to the stream below: it is as open as before, and nothing is put on it. -/
def Later (ws ws' : WsStream) : Prop := Stream.Later ws.raw ws'.raw

instance : IsPreorder WsStream Later where
  refl ws := refl_of Stream.Later ws.raw
  trans _ _ _ h h' := IsTrans.trans (r := Stream.Later) _ _ _ h h'

theorem within_onRaw {α : Type} {x : EStateM Exc Stream α} (hx : x.Within Stream.Later) :
    (onRaw x).Within Later :=
  .zoom (fun _ _ => rfl) hx

theorem later_writeRaw (frame : Bytes) (ws : WsStream) : Later ws (ws.writeRaw frame) :=
  ⟨rfl, le_rfl⟩

theorem later_sendClose (code : UInt16) (ws : WsStream) : Later ws (ws.sendClose code) := by
  rw [sendClose]
  split_ifs
  · exact ⟨rfl, le_rfl⟩
  · exact ⟨rfl, le_rfl⟩

theorem within_fail {α : Type} (code : UInt16) : (fail (α := α) code).Within Later :=
  .bind (.modify (later_sendClose code)) fun _ => .throw _

theorem within_readLength (b1 : UInt8) : (readLength b1).Within Later := by
  rw [readLength]
  split_ifs
  · exact .bind (within_onRaw (Stream.within_readexactly 2)) fun _ => .pure _
  · refine .bind (within_onRaw (Stream.within_readexactly 8)) fun ext => ?_
    split_ifs
    · exact within_fail 1002
    · exact .pure _
  · exact .pure _

theorem within_readBehind (b0 b1 : UInt8) : (readBehind b0 b1).Within Later := by
  rw [readBehind]
  split_ifs
  · exact within_fail 1002
  · exact within_fail 1002
  · refine .bind (within_readLength b1) fun length => ?_
    split_ifs
    · exact within_fail 1002
    · refine .bind (within_onRaw (Stream.within_readexactly 4)) fun mask => ?_
      exact .bind (within_onRaw (Stream.within_readexactly length)) fun raw => .pure _

theorem within_handle (opcode : UInt8) (payload : Bytes) :
    (handle opcode payload).Within Later := by
  rw [handle]
  split_ifs
  · exact .modify fun ws => ⟨rfl, le_rfl⟩
  · exact .modify (later_writeRaw _)
  · exact .pure _
  · exact within_fail 1003
  · exact within_fail _
  · exact within_fail 1002

theorem within_behind (head : Bytes) : EStateM.Within Later (do
    let (opcode, payload) ← readBehind (head.getD 0 0) (head.getD 1 0)
    handle opcode payload) :=
  .bind (within_readBehind _ _) fun (opcode, payload) => within_handle opcode payload

theorem within_fillOnce : fillOnce.Within Later :=
  .bind (within_onRaw (Stream.within_readexactly 2)) within_behind

theorem lowers_fillOnce : fillOnce.Lowers (·.raw.incoming.weight) :=
  .bind (.zoom (fun _ _ => rfl) (Stream.lowers_readexactly 1)) fun head ws =>
    (within_behind head ws).2

/-- `WSReader.readexactly` -/
def readexactly (n : ℕ) (ws : WsStream) : EStateM.Result Exc WsStream Bytes :=
  if n ≤ ws.received.length then
    .ok (ws.received.take n) { ws with received := ws.received.drop n }
  else
    match _h : fillOnce.run ws with
    | .ok () ws' => readexactly n ws'
    | .error e ws' => .error e ws'
termination_by ws.raw.incoming.weight
decreasing_by exact lowers_fillOnce _ _ _ _h

theorem within_readexactly (n : ℕ) : EStateM.Within Later (readexactly n) := by
  intro ws
  unfold EStateM.after EStateM.run
  fun_induction readexactly n ws with
  | case1 ws hthere => exact ⟨rfl, le_rfl⟩
  | case2 ws hmore ws' hfill ih => exact IsTrans.trans _ _ _ (within_fillOnce.of_ok hfill) ih
  | case3 ws hmore e ws' hfill => exact within_fillOnce.of_error hfill

/-- `WSWriter.drain` -/
def drain : EStateM Exc WsStream Unit := do
  modify fun ws =>
    if ws.pending = [] then ws
    else { ws with pending := [] }.writeRaw (serverFrame opBin ws.pending)
  onRaw Stream.drain

theorem within_drain : drain.Within Later := by
  refine .bind (.modify fun ws => ?_) fun _ => within_onRaw Stream.within_drain
  split_ifs
  · exact ⟨rfl, le_rfl⟩
  · exact ⟨rfl, le_rfl⟩

/-- `WSWriter.close` -/
def close (ws : WsStream) : WsStream :=
  { ws.sendClose 1000 with raw := (ws.sendClose 1000).raw.close }

end WsStream

/-- The pair for a WebSocket. -/
def websocket : Duplex WsStream where
  readexactly := WsStream.readexactly
  write := fun data ws => { ws with pending := ws.pending ++ data }
  drain := WsStream.drain
  close := WsStream.close
  closed := fun ws => ws.raw.closed
  within_readexactly := fun n ws => (WsStream.within_readexactly n ws).1
  closed_write := fun _ _ => rfl
  within_drain := fun ws => (WsStream.within_drain ws).1
  closed_close := fun _ => rfl

end Handshake

end Python

end Aiomsg
