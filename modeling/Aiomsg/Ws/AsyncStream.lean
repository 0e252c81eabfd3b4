import Aiomsg.Ws.Front
import Aiomsg.Ws.Stream

/-!
# The asynchronous WebSocket adapter

`WsStream` in `rust-lib-async/src/ws.rs`. It is a second adapter, with a parser of its own. Where
the synchronous one writes a PONG or a Close frame at once, this one queues it in `out_buf` and
writes as much of that as the inner stream takes, whenever it is polled; and `poll_read` goes round
one loop for frames, payload and inner reads alike.

An inner read that is not ready returns `Poll::Pending`, and `poll_read` returns it as it returns an
error. Both leave the caller to poll again, and `.error .wouldBlock` stands for the first here. An
inner write takes some bytes, or none because it is not ready; `poll_read` never looks at which.

## Scope

Wakers are not modelled. A poll that is not ready returns, and is made again by the schedule; that
somebody is woken to make it is the runtime's part and tokio's contract. Errors of inner writes are
among the outcomes that take no bytes.

## Main results

* `AsyncWsStream.parseOne_eq` — the second parser takes every decision of the first
* `AsyncWsStream.pollRead_spec` — what one `poll_read` does to `due` and `told`
* `AsyncWsStream.pollToEnd_eq` — the polls up to the first that yields nothing
-/

namespace Aiomsg

namespace Ws

/-- The stream underneath: what will arrive on it, how much each `poll_write` will take (`none` for
`Poll::Pending`, and everything once the list is used up), and what has been written to it. -/
structure AsyncDuplex where
  input : Source
  room : List (Option ℕ)
  output : Bytes

/-- `poll_write`: how many bytes were taken. -/
def AsyncDuplex.pollWrite (inner : AsyncDuplex) (bytes : Bytes) : Option ℕ × AsyncDuplex :=
  match inner.room with
  | [] => (some bytes.length, { inner with output := inner.output ++ bytes })
  | none :: room => (none, { inner with room := room })
  | some n :: room =>
    (some (min n bytes.length),
      { inner with room := room, output := inner.output ++ bytes.take n })

/-- A write takes a prefix of what it is given. -/
theorem AsyncDuplex.pollWrite_eq (inner : AsyncDuplex) (bytes : Bytes) :
    ∃ n room, n.getD 0 ≤ bytes.length ∧ inner.pollWrite bytes
      = (n, ⟨inner.input, room, inner.output ++ bytes.take (n.getD 0)⟩) := by
  obtain ⟨input, room, output⟩ := inner
  rcases room with _ | ⟨_ | n, room⟩
  · exact ⟨some bytes.length, [], Nat.le_refl _, by simp [AsyncDuplex.pollWrite]⟩
  · exact ⟨none, room, Nat.zero_le _, by simp [AsyncDuplex.pollWrite]⟩
  · refine ⟨some (min n bytes.length), room, Nat.min_le_right _ _, ?_⟩
    rw [Option.getD_some, ← List.take_eq_take_min]
    rfl

structure AsyncWsStream where
  inner : AsyncDuplex
  /-- Raw bytes read from `inner`, not yet parsed. -/
  inBuf : Bytes
  /-- Unmasked payload ready for `poll_read`. -/
  ready : Bytes
  /-- Encoded frames queued to write to `inner`. -/
  outBuf : Bytes
  /-- How much of `outBuf` has been flushed. -/
  outPos : ℕ
  closeSent : Bool
  eof : Bool

/-- The outcome of parsing one client frame from `inBuf`. -/
inductive AsyncParsed where
  /-- Incomplete: read more. -/
  | need
  | payload (payload : Bytes)
  /-- PING or PONG handled; nothing to deliver. -/
  | control
  /-- Close frame: the stream ends cleanly. -/
  | eof
  /-- Protocol violation: close queued, the stream ends. -/
  | error
deriving DecidableEq

namespace AsyncWsStream

def new (inner : AsyncDuplex) : AsyncWsStream where
  inner := inner
  inBuf := []
  ready := []
  outBuf := []
  outPos := 0
  closeSent := false
  eof := false

def queueFrame (ws : AsyncWsStream) (opcode : UInt8) (payload : Bytes) : AsyncWsStream :=
  { ws with outBuf := ws.outBuf ++ serverFrame opcode payload }

def queueClose (ws : AsyncWsStream) (code : UInt16) : AsyncWsStream :=
  if ws.closeSent then ws else { ws with closeSent := true }.queueFrame opClose (toBeBytes code)

/-- The `match opcode` of `parse_one`, on a complete frame that has been drained. -/
def dispatch (ws : AsyncWsStream) (opcode : UInt8) (payload : Bytes) :
    AsyncParsed × AsyncWsStream :=
  if opcode = opBin ∨ opcode = opCont then (.payload payload, ws)
  else if opcode = opPing then (.control, ws.queueFrame opPong payload)
  else if opcode = opPong then (.control, ws)
  else if opcode = opText then (.error, ws.queueClose 1003) -- text is not valid for aiomsg
  else if opcode = opClose then
    let code := if 2 ≤ payload.length then fromBeBytes (payload.getD 0 0) (payload.getD 1 0)
      else 1000
    (.eof, ws.queueClose code)
  else (.error, ws.queueClose 1002) -- unknown opcode

/-- `parse_one` from where `len` and `off` are known. -/
def parseRest (ws : AsyncWsStream) (opcode : UInt8) (fin : Bool) (len off : ℕ) :
    AsyncParsed × AsyncWsStream :=
  let buf := ws.inBuf
  if 0x8 ≤ opcode ∧ (fin = false ∨ 125 < len) then
    (.error, ws.queueClose 1002) -- control frame limits
  else if buf.length < off + 4 + len then (.need, ws)
  else
    let mask := [buf.getD off 0, buf.getD (off + 1) 0, buf.getD (off + 2) 0, buf.getD (off + 3) 0]
    let payload := (List.range len).map fun i => buf.getD (off + 4 + i) 0 ^^^ mask.getD (i &&& 3) 0
    { ws with inBuf := buf.drop (off + 4 + len) }.dispatch opcode payload

/-- Parse and consume one client frame from `inBuf`. -/
def parseOne (ws : AsyncWsStream) : AsyncParsed × AsyncWsStream :=
  let buf := ws.inBuf
  if buf.length < 2 then (.need, ws)
  else
    let b0 := buf.getD 0 0
    let b1 := buf.getD 1 0
    if b0 &&& 0x70 ≠ 0 then (.error, ws.queueClose 1002) -- RSV bits set
    else
      let opcode := b0 &&& 0x0f
      let fin := decide (b0 &&& 0x80 ≠ 0)
      if b1 &&& 0x80 = 0 then (.error, ws.queueClose 1002) -- client frames MUST be masked
      else
        let len := (b1 &&& 0x7f).toNat
        if len = 126 then
          if buf.length < 4 then (.need, ws)
          else
            ws.parseRest opcode fin (fromBeBytes (buf.getD 2 0) (buf.getD 3 0)).toNat 4
        else if len = 127 then
          if buf.length < 10 then (.need, ws)
          else if buf.getD 2 0 &&& 0x80 ≠ 0 then
            (.error, ws.queueClose 1002) -- 64-bit length MSB must be 0
          else ws.parseRest opcode fin (BigEndian.value ((buf.drop 2).take 8)) 10
        else ws.parseRest opcode fin len 2

/-- Write as much of `outBuf` to `inner` as it will accept right now. Returns `true` once fully
drained. -/
def flushOut (ws : AsyncWsStream) : Bool × AsyncWsStream :=
  if _h : ws.outPos < ws.outBuf.length then
    match ws.inner.pollWrite (ws.outBuf.drop ws.outPos) with
    | (none, inner) => (false, { ws with inner := inner })
    | (some 0, inner) => (false, { ws with inner := inner }) -- `WriteZero`
    | (some (n + 1), inner) => flushOut { ws with inner := inner, outPos := ws.outPos + (n + 1) }
  else (true, { ws with outBuf := [], outPos := 0 })
termination_by ws.outBuf.length - ws.outPos

/-- The length of the scratch buffer for inner reads. -/
def tmpSize : ℕ := 8192

/-- What is left to do: it drops with every frame, every inner read and every byte handed out. -/
def size (ws : AsyncWsStream) : ℕ :=
  ws.inner.input.weight + ws.inBuf.length + ws.ready.length + (!ws.eof).toNat

def setInput (ws : AsyncWsStream) (input : Source) : AsyncWsStream :=
  { ws with inner := { ws.inner with input := input } }

/-! ### The second parser -/

/-- What `parse_one` does, in terms of what the synchronous parser finds. -/
def consume (ws : AsyncWsStream) : Parsed × ℕ → AsyncParsed × AsyncWsStream
  | (.needMore, _) => (.need, ws)
  | (.data p, n) => (.payload p, { ws with inBuf := ws.inBuf.drop n })
  | (.ping p, n) => (.control, { ws with inBuf := ws.inBuf.drop n }.queueFrame opPong p)
  | (.pong, n) => (.control, { ws with inBuf := ws.inBuf.drop n })
  | (.close code, n) => (.eof, { ws with inBuf := ws.inBuf.drop n }.queueClose code)
  | (.protocol code, n) => (.error, { ws with inBuf := ws.inBuf.drop n }.queueClose code)

theorem getD_of_lt {buf : Bytes} {i : ℕ} (h : i < buf.length) : buf.getD i 0 = buf[i] := by
  rw [List.getD_eq_getElem?_getD, List.getElem?_eq_getElem h, Option.getD_some]

/-- The payload collected byte by byte. -/
theorem payload_eq {buf mask : Bytes} {off len : ℕ} (h : off + len ≤ buf.length) :
    (List.range len).map (fun i => buf.getD (off + i) 0 ^^^ mask.getD (i &&& 3) 0)
      = xorMask mask ((buf.drop off).take len) := by
  refine List.ext_getElem ?_ fun i hi hi' => ?_
  · rw [List.length_map, List.length_range, length_xorMask, List.length_take, List.length_drop]
    omega
  · have hlt : i < len := by rwa [List.length_map, List.length_range] at hi
    have hbuf : off + i < buf.length := by omega
    simp only [xorMask, List.getElem_map, List.getElem_range, List.getElem_mapIdx,
      List.getElem_take, List.getElem_drop, getD_of_lt hbuf]

/-- The mask, its four bytes looked up one by one. -/
theorem mask_eq {buf : Bytes} {off : ℕ} (h : off + 4 ≤ buf.length) :
    [buf.getD off 0, buf.getD (off + 1) 0, buf.getD (off + 2) 0, buf.getD (off + 3) 0]
      = (buf.drop off).take 4 := by
  rw [getD_of_lt (by omega : off < buf.length), getD_of_lt (by omega : off + 1 < buf.length),
    getD_of_lt (by omega : off + 2 < buf.length), getD_of_lt (by omega : off + 3 < buf.length),
    List.drop_eq_getElem_cons (by omega : off < buf.length),
    List.drop_eq_getElem_cons (by omega : off + 1 < buf.length),
    List.drop_eq_getElem_cons (by omega : off + 1 + 1 < buf.length),
    List.drop_eq_getElem_cons (by omega : off + 1 + 1 + 1 < buf.length)]
  rfl

theorem closeCode_eq (payload : Bytes) :
    (if 2 ≤ payload.length then fromBeBytes (payload.getD 0 0) (payload.getD 1 0) else 1000)
      = closeCode payload := by
  match payload with
  | [] | [_] => rfl
  | b :: b' :: bs => exact if_pos (Nat.le_add_left 2 _)

theorem toNat_fromBeBytes (b b' : UInt8) :
    (fromBeBytes b b').toNat = BigEndian.value [b, b'] := by
  have hlt := BigEndian.value_lt [b, b']
  rw [show 256 ^ [b, b'].length = 2 ^ 16 by norm_num] at hlt
  rw [fromBeBytes, UInt16.toNat_ofNat', Nat.mod_eq_of_lt hlt]

theorem dispatch_eq (ws : AsyncWsStream) (opcode : UInt8) (payload : Bytes) (n : ℕ) :
    ({ ws with inBuf := ws.inBuf.drop n } : AsyncWsStream).dispatch opcode payload
      = ws.consume (dispose opcode payload, n) := by
  rw [dispatch, dispose, closeCode_eq]
  split_ifs <;> rfl

/-- `parse_one` once the header is there. -/
theorem parseRest_eq (ws : AsyncWsStream) {opcode : UInt8} {fin : Bool} {len off : ℕ}
    (h : clientHead ws.inBuf = .known opcode fin len off) :
    ws.parseRest opcode fin len off = ws.consume (parseClientFrame ws.inBuf) := by
  rw [parseRest, parseClientFrame_of_known h]
  dsimp only
  split_ifs with hcontrol hshort
  · rfl
  · rfl
  · rw [payload_eq (by omega), mask_eq (by omega)]
    exact ws.dispatch_eq opcode _ _

/-- `parse_one` up to where the header is there. -/
theorem parseOne_head (ws : AsyncWsStream) : ws.parseOne = match clientHead ws.inBuf with
    | .needMore => (.need, ws)
    | .protocol code => (.error, ws.queueClose code)
    | .known opcode fin len off => ws.parseRest opcode fin len off := by
  rw [parseOne, ← frontHead_eq, frontHead]
  simp only [toNat_fromBeBytes, BigEndian.shift_pair, BigEndian.foldl_shift, Nat.zero_mul,
    Nat.zero_add]
  split_ifs <;> rfl

/-- **The second parser takes every decision of the first**, in the same order and on the same
bytes. -/
theorem parseOne_eq (ws : AsyncWsStream) :
    ws.parseOne = ws.consume (parseClientFrame ws.inBuf) := by
  rw [parseOne_head]
  match h : clientHead ws.inBuf with
  | .needMore => rw [parseClientFrame, h]; rfl
  | .protocol code => rw [parseClientFrame, h]; rfl
  | .known opcode fin len off => exact ws.parseRest_eq h

/-- What `parse_one` does, by what the buffer begins with. -/
inductive ParsedOne (ws : AsyncWsStream) : AsyncParsed × AsyncWsStream → Prop
  | need (h : verdict ws.inBuf = .more) : ParsedOne ws (.need, ws)
  | payload {p rest : Bytes} (h : verdict ws.inBuf = .item (.data p) rest) :
      ParsedOne ws (.payload p, { ws with inBuf := rest })
  | ping {p rest : Bytes} (h : verdict ws.inBuf = .item (.ping p) rest) :
      ParsedOne ws (.control, { ws with inBuf := rest }.queueFrame opPong p)
  | pong {rest : Bytes} (h : verdict ws.inBuf = .item .pong rest) :
      ParsedOne ws (.control, { ws with inBuf := rest })
  | eof {code : UInt16} {rest : Bytes} (h : verdict ws.inBuf = .stop code)
      (hrest : rest.length ≤ ws.inBuf.length) :
      ParsedOne ws (.eof, { ws with inBuf := rest }.queueClose code)
  | error {code : UInt16} {rest : Bytes} (h : verdict ws.inBuf = .stop code)
      (hrest : rest.length ≤ ws.inBuf.length) :
      ParsedOne ws (.error, { ws with inBuf := rest }.queueClose code)

theorem parsedOne_parseOne (ws : AsyncWsStream) : ParsedOne ws ws.parseOne := by
  rw [parseOne_eq]
  have hdrop : ∀ n, (ws.inBuf.drop n).length ≤ ws.inBuf.length := fun n => by
    rw [List.length_drop]
    exact Nat.sub_le _ _
  rcases hparse : parseClientFrame ws.inBuf with ⟨parsed, n⟩
  have hverdict := verdict_of_parse hparse
  cases parsed with
  | needMore => exact .need hverdict
  | data p => exact .payload hverdict
  | ping p => exact .ping hverdict
  | pong => exact .pong hverdict
  | close code => exact .eof hverdict (hdrop n)
  | protocol code => exact .error hverdict (hdrop n)

section Queue

variable (ws : AsyncWsStream) (code : UInt16)

@[simp] theorem queueClose_inner : (ws.queueClose code).inner = ws.inner := by
  rw [queueClose]
  split_ifs <;> rfl

@[simp] theorem queueClose_inBuf : (ws.queueClose code).inBuf = ws.inBuf := by
  rw [queueClose]
  split_ifs <;> rfl

@[simp] theorem queueClose_ready : (ws.queueClose code).ready = ws.ready := by
  rw [queueClose]
  split_ifs <;> rfl

end Queue

/-! ### Flushing -/

/-- Bytes written and bytes still queued, in the order in which they reach the client. -/
def sent (ws : AsyncWsStream) : Bytes := ws.inner.output ++ ws.outBuf.drop ws.outPos

/-- A stream that has sent a Close frame has ended, and no more of the queue has gone out than there
was. -/
structure Inv (ws : AsyncWsStream) : Prop where
  outPos : ws.outPos ≤ ws.outBuf.length
  close : ws.closeSent = true → ws.eof = true

/-- What flushing may change: how much of the queue has gone out, and nothing else. -/
structure Flushed (ws ws' : AsyncWsStream) : Prop where
  sent : ws'.sent = ws.sent
  input : ws'.inner.input = ws.inner.input
  inBuf : ws'.inBuf = ws.inBuf
  ready : ws'.ready = ws.ready
  eof : ws'.eof = ws.eof
  inv : ws.Inv → ws'.Inv

theorem flushed_flushOut (ws : AsyncWsStream) : Flushed ws ws.flushOut.2 := by
  have hwrite : ∀ {ws : AsyncWsStream} {n : Option ℕ} {inner : AsyncDuplex},
      ws.outPos < ws.outBuf.length →
      ws.inner.pollWrite (ws.outBuf.drop ws.outPos) = (n, inner) →
      Flushed ws { ws with inner := inner, outPos := ws.outPos + n.getD 0 } := by
    intro ws n inner hpos h
    obtain ⟨n', room, hle, heq⟩ := ws.inner.pollWrite_eq (ws.outBuf.drop ws.outPos)
    obtain ⟨rfl, rfl⟩ := Prod.mk.inj (heq.symm.trans h)
    rw [List.length_drop] at hle
    refine ⟨?_, rfl, rfl, rfl, rfl, fun hinv => ⟨?_, hinv.close⟩⟩
    · rw [sent, sent, List.append_assoc, ← List.drop_drop, List.take_append_drop]
    · show ws.outPos + n'.getD 0 ≤ ws.outBuf.length
      omega
  fun_induction flushOut ws with
  | case1 ws hpos inner h => exact hwrite hpos h
  | case2 ws hpos inner h => exact hwrite hpos h
  | case3 ws hpos n inner h ih =>
    have hfirst := hwrite hpos h
    exact ⟨ih.sent.trans hfirst.sent, ih.input.trans hfirst.input, ih.inBuf.trans hfirst.inBuf,
      ih.ready.trans hfirst.ready, ih.eof.trans hfirst.eof, fun hinv => ih.inv (hfirst.inv hinv)⟩
  | case4 ws hpos =>
    refine ⟨?_, rfl, rfl, rfl, rfl, fun hinv => ⟨Nat.le_refl _, hinv.close⟩⟩
    rw [sent, sent, List.drop_of_length_le (not_lt.mp hpos)]
    rfl

/-! ### What is still to come -/

/-- What the application will get. -/
def due (ws : AsyncWsStream) : Bytes :=
  ws.ready ++ if ws.eof then [] else carriedIn (ws.inBuf ++ ws.inner.input.stream)

/-- What the client will have heard in the end, if all that is queued reaches it. -/
def told (ws : AsyncWsStream) : Bytes :=
  ws.sent ++ if ws.eof then [] else answerTo (ws.inBuf ++ ws.inner.input.stream)

section Flushed

variable {ws ws' : AsyncWsStream} (h : Flushed ws ws')
include h

theorem Flushed.due : ws'.due = ws.due := by
  rw [AsyncWsStream.due, AsyncWsStream.due, h.ready, h.eof, h.inBuf, h.input]

theorem Flushed.told : ws'.told = ws.told := by
  rw [AsyncWsStream.told, AsyncWsStream.told, h.sent, h.eof, h.inBuf, h.input]

theorem Flushed.size : ws'.size = ws.size := by
  rw [AsyncWsStream.size, AsyncWsStream.size, h.ready, h.eof, h.inBuf, h.input]

end Flushed

/-- The loop body of `poll_read` on the outcome of `parse_one`. -/
def settle : AsyncParsed × AsyncWsStream → AsyncWsStream
  | (.payload p, ws) => { ws with ready := ws.ready ++ p }
  | (.control, ws) | (.need, ws) => ws
  | (.eof, ws) | (.error, ws) => { ws with eof := true }

/-- Nothing is ready and the end has not been reached. -/
structure Hungry (ws : AsyncWsStream) : Prop where
  ready : ws.ready = []
  eof : ws.eof = false

theorem Hungry.due {ws : AsyncWsStream} (h : ws.Hungry) :
    ws.due = carriedIn (ws.inBuf ++ ws.inner.input.stream) := by
  simp [AsyncWsStream.due, h.ready, h.eof]

theorem Hungry.told {ws : AsyncWsStream} (h : ws.Hungry) :
    ws.told = ws.sent ++ answerTo (ws.inBuf ++ ws.inner.input.stream) := by
  simp [AsyncWsStream.told, h.eof]

theorem Hungry.closeSent {ws : AsyncWsStream} (h : ws.Hungry) (hinv : ws.Inv) :
    ws.closeSent = false :=
  Bool.eq_false_iff.mpr fun hsent => Bool.eq_false_iff.mp h.eof (hinv.close hsent)

theorem sent_queueFrame (ws : AsyncWsStream) (h : ws.outPos ≤ ws.outBuf.length) (opcode : UInt8)
    (payload : Bytes) :
    (ws.queueFrame opcode payload).sent = ws.sent ++ serverFrame opcode payload := by
  rw [sent, sent, queueFrame, List.drop_append_of_le_length h, List.append_assoc]

/-- Every outcome but `need` leaves less to do. -/
theorem ParsedOne.size {ws : AsyncWsStream} {r : AsyncParsed × AsyncWsStream} (h : ParsedOne ws r)
    (heof : ws.eof = false) (hneed : r.1 ≠ .need) : (settle r).size < ws.size := by
  cases h with
  | need => exact absurd rfl hneed
  | payload h =>
    have hlen := length_lt_of_item h
    simp only [settle, AsyncWsStream.size, List.length_append, Item.carried] at hlen ⊢
    omega
  | ping h =>
    have hlen := length_lt_of_item h
    simp only [settle, queueFrame, AsyncWsStream.size] at hlen ⊢
    omega
  | pong h =>
    have hlen := length_lt_of_item h
    simp only [settle, AsyncWsStream.size] at hlen ⊢
    omega
  | eof h hrest | error h hrest =>
    simp only [settle, AsyncWsStream.size, heof, queueClose_inner, queueClose_inBuf,
      queueClose_ready, Bool.not_true, Bool.not_false, Bool.toNat_true, Bool.toNat_false]
    omega

/-- What one turn of the loop does with what `parse_one` found. -/
structure Settled (ws : AsyncWsStream) (r : AsyncParsed × AsyncWsStream) : Prop where
  due : (settle r).due = ws.due
  told : (settle r).told = ws.told
  inv : (settle r).Inv
  need : r.1 = .need → r.2 = ws ∧ verdict ws.inBuf = .more

/-- A stop, whichever way it is reported. -/
theorem Hungry.stop {ws : AsyncWsStream} (hungry : ws.Hungry) (hinv : ws.Inv) {code : UInt16}
    (h : verdict ws.inBuf = .stop code) (rest : Bytes) :
    let ws' := { { ws with inBuf := rest }.queueClose code with eof := true }
    ws'.due = ws.due ∧ ws'.told = ws.told ∧ ws'.Inv := by
  have hclose : ({ ws with inBuf := rest } : AsyncWsStream).queueClose code
      = { ws with inBuf := rest, closeSent := true }.queueFrame opClose (toBeBytes code) := by
    rw [queueClose, if_neg (by simp [hungry.closeSent hinv])]
  refine ⟨?_, ?_, ⟨?_, fun _ => rfl⟩⟩
  · rw [hungry.due, carriedIn_stop h]
    simp [AsyncWsStream.due, hungry.ready]
  · rw [hungry.told, answerTo_stop h]
    simp only [AsyncWsStream.told, if_true, List.append_nil]
    rw [hclose]
    exact sent_queueFrame { ws with inBuf := rest, closeSent := true } hinv.outPos _ _
  · rw [hclose]
    exact hinv.outPos.trans (by simp [queueFrame])

theorem ParsedOne.settled {ws : AsyncWsStream} {r : AsyncParsed × AsyncWsStream}
    (h : ParsedOne ws r) (hungry : ws.Hungry) (hinv : ws.Inv) : Settled ws r := by
  cases h with
  | need h => exact ⟨rfl, rfl, hinv, fun _ => ⟨rfl, h⟩⟩
  | @payload p rest h =>
    refine ⟨?_, ?_, ⟨hinv.outPos, hinv.close⟩, fun hneed => absurd hneed (by simp)⟩
    · rw [hungry.due, carriedIn_item h]
      simp [settle, AsyncWsStream.due, hungry.ready, hungry.eof, Item.carried]
    · rw [hungry.told, answerTo_item h]
      simp [settle, AsyncWsStream.told, hungry.eof, Item.answer, sent]
  | @ping p rest h =>
    have hsent := sent_queueFrame { ws with inBuf := rest } hinv.outPos opPong p
    refine ⟨?_, ?_, ⟨hinv.outPos.trans (by simp [settle, queueFrame]), hinv.close⟩,
      fun hneed => absurd hneed (by simp)⟩
    · rw [hungry.due, carriedIn_item h]
      simp [settle, queueFrame, AsyncWsStream.due, hungry.ready, hungry.eof, Item.carried]
    · rw [hungry.told, answerTo_item h, ← List.append_assoc]
      show _ ++ (if ws.eof then [] else answerTo (rest ++ ws.inner.input.stream)) = _
      rw [hungry.eof]
      exact congrArg (· ++ answerTo (rest ++ ws.inner.input.stream)) hsent
  | @pong rest h =>
    refine ⟨?_, ?_, ⟨hinv.outPos, hinv.close⟩, fun hneed => absurd hneed (by simp)⟩
    · rw [hungry.due, carriedIn_item h]
      simp [settle, AsyncWsStream.due, hungry.ready, hungry.eof, Item.carried]
    · rw [hungry.told, answerTo_item h]
      simp [settle, AsyncWsStream.told, hungry.eof, Item.answer, sent]
  | eof h hrest =>
    obtain ⟨hdue, htold, hafter⟩ := hungry.stop hinv h _
    exact ⟨hdue, htold, hafter, fun hneed => absurd hneed (by simp)⟩
  | error h hrest =>
    obtain ⟨hdue, htold, hafter⟩ := hungry.stop hinv h _
    exact ⟨hdue, htold, hafter, fun hneed => absurd hneed (by simp)⟩

/-! ### Polling -/

/-- There is less to do after an inner read that returns bytes. -/
theorem size_extend {ws : AsyncWsStream} {cap : ℕ} {b : UInt8} {bs : Bytes} {input : Source}
    (hread : ws.inner.input.read cap = (.ok (b :: bs), input)) :
    ({ ws.setInput input with inBuf := ws.inBuf ++ b :: bs } : AsyncWsStream).size < ws.size := by
  obtain ⟨-, hweight, -⟩ := Source.read_ok hread
  simp only [size, setInput, List.length_append, List.length_cons] at hweight ⊢
  omega

theorem size_parseOne (ws : AsyncWsStream) {r : AsyncParsed × AsyncWsStream}
    (heof : ¬ ws.flushOut.2.eof = true) (hparse : ws.flushOut.2.parseOne = r)
    (hneed : r.1 ≠ .need) : (settle r).size < ws.size := by
  subst hparse
  rw [← (flushed_flushOut ws).size]
  exact (parsedOne_parseOne _).size (Bool.eq_false_iff.mpr heof) hneed

theorem eq_of_parseOne_need {ws ws₁ : AsyncWsStream} (h : ws.parseOne = (.need, ws₁)) :
    ws₁ = ws ∧ verdict ws.inBuf = .more := by
  have hparsed := parsedOne_parseOne ws
  rw [h] at hparsed
  cases hparsed with
  | need hmore => exact ⟨rfl, hmore⟩

theorem size_of_parseOne_need {ws ws₁ : AsyncWsStream}
    (h : ws.flushOut.2.parseOne = (.need, ws₁)) : ws₁.size = ws.size := by
  rw [(eq_of_parseOne_need h).1, (flushed_flushOut ws).size]

/-- `poll_read` with room for `cap` bytes. -/
def pollRead (ws : AsyncWsStream) (cap : ℕ) : Except ErrorKind Bytes × AsyncWsStream :=
  -- Opportunistically flush queued control/close frames.
  let ws₀ := ws.flushOut.2
  if ws₀.ready ≠ [] then
    (.ok (ws₀.ready.take cap), { ws₀ with ready := ws₀.ready.drop cap })
  else if _heof : ws₀.eof then (.ok [], ws₀)
  else
    match _hparse : ws₀.parseOne with
    | (.payload p, ws₁) => pollRead { ws₁ with ready := ws₁.ready ++ p } cap
    | (.control, ws₁) => pollRead ws₁ cap
    | (.eof, ws₁) => pollRead { ws₁ with eof := true } cap
    | (.error, ws₁) => pollRead { ws₁ with eof := true } cap
    | (.need, ws₁) =>
      match _hread : ws₁.inner.input.read tmpSize with
      | (.error kind, input) => (.error kind, ws₁.setInput input)
      | (.ok [], input) => (.ok [], { ws₁.setInput input with eof := true })
      | (.ok (b :: bs), input) =>
        pollRead { ws₁.setInput input with inBuf := ws₁.inBuf ++ b :: bs } cap
termination_by ws.size
decreasing_by
  · have hsize := size_parseOne ws _heof _hparse (by simp)
    exact hsize
  · have hsize := size_parseOne ws _heof _hparse (by simp)
    exact hsize
  · have hsize := size_parseOne ws _heof _hparse (by simp)
    exact hsize
  · have hsize := size_parseOne ws _heof _hparse (by simp)
    exact hsize
  · exact (size_extend _hread).trans_eq (size_of_parseOne_need _hparse)

/-- Every `poll_read` but the last leaves less to do. -/
theorem size_pollRead (ws : AsyncWsStream) {cap : ℕ} (hcap : 0 < cap)
    (h : (ws.pollRead cap).1 ≠ .ok []) : (ws.pollRead cap).2.size < ws.size := by
  fun_induction pollRead ws cap with
  | case1 ws ws₀ hready =>
    have hpos := List.length_pos_iff.mpr hready
    rw [← (flushed_flushOut ws).size]
    simp only [size, List.length_drop, ws₀] at hpos ⊢
    omega
  | case2 => exact absurd rfl h
  | case3 ws ws₀ hready heof p ws₁ hparse ih =>
    have hsize := size_parseOne ws heof hparse (by simp)
    exact (ih h).trans hsize
  | case4 ws ws₀ hready heof ws₁ hparse ih =>
    have hsize := size_parseOne ws heof hparse (by simp)
    exact (ih h).trans hsize
  | case5 ws ws₀ hready heof ws₁ hparse ih =>
    have hsize := size_parseOne ws heof hparse (by simp)
    exact (ih h).trans hsize
  | case6 ws ws₀ hready heof ws₁ hparse ih =>
    have hsize := size_parseOne ws heof hparse (by simp)
    exact (ih h).trans hsize
  | case7 ws ws₀ hready heof ws₁ hparse kind input hread =>
    rw [← size_of_parseOne_need hparse]
    have hweight := congrArg Source.weight (Source.read_error hread)
    simp only [size, setInput, Source.weight] at hweight ⊢
    omega
  | case8 => exact absurd rfl h
  | case9 ws ws₀ hready heof ws₁ hparse b bs input hread ih =>
    exact (ih h).trans ((size_extend hread).trans_eq (size_of_parseOne_need hparse))

/-- What one `poll_read` does: it takes what it yields off the front of what is due, and if that is
nothing, nothing is due. -/
structure PollSpec (ws : AsyncWsStream) (r : Except ErrorKind Bytes × AsyncWsStream) : Prop where
  inv : r.2.Inv
  told : r.2.told = ws.told
  due : ws.due = WsStream.returned r.1 ++ r.2.due
  last : r.1 = .ok [] → r.2.eof = true ∧ r.2.due = []

theorem PollSpec.of_eq {ws ws₁ : AsyncWsStream} {r : Except ErrorKind Bytes × AsyncWsStream}
    (h : PollSpec ws₁ r) (hdue : ws₁.due = ws.due) (htold : ws₁.told = ws.told) : PollSpec ws r :=
  ⟨h.inv, h.told.trans htold, hdue.symm.trans h.due, h.last⟩

/-- An inner read: what has arrived moves from the inner stream to `inBuf`. -/
theorem coming_extend {ws : AsyncWsStream} {bytes : Bytes} {input : Source}
    (hstream : ws.inner.input.stream = bytes ++ input.stream) :
    ({ ws.setInput input with inBuf := ws.inBuf ++ bytes } : AsyncWsStream).due = ws.due ∧
      ({ ws.setInput input with inBuf := ws.inBuf ++ bytes } : AsyncWsStream).told = ws.told := by
  simp [due, told, sent, setInput, hstream]

/-- The state in which `parse_one` is called. -/
theorem hungry_flushOut {ws : AsyncWsStream} (hready : ¬ ws.flushOut.2.ready ≠ [])
    (heof : ¬ ws.flushOut.2.eof = true) : ws.flushOut.2.Hungry :=
  ⟨not_not.mp hready, Bool.eq_false_iff.mpr heof⟩

/-- **What one `poll_read` does.** -/
theorem pollRead_spec {ws : AsyncWsStream} (h : ws.Inv) {cap : ℕ} (hcap : 0 < cap) :
    PollSpec ws (ws.pollRead cap) := by
  -- A turn that goes on: flushing and settling change neither `due` nor `told`.
  have hturn : ∀ (ws : AsyncWsStream) {r : AsyncParsed × AsyncWsStream}, ws.Inv →
      ¬ ws.flushOut.2.ready ≠ [] → ¬ ws.flushOut.2.eof = true → ws.flushOut.2.parseOne = r →
      (settle r).due = ws.due ∧ (settle r).told = ws.told ∧ (settle r).Inv := by
    intro ws r hinv hready heof hparse
    subst hparse
    have hflush := flushed_flushOut ws
    have hsettled := (parsedOne_parseOne _).settled (hungry_flushOut hready heof) (hflush.inv hinv)
    exact ⟨hsettled.due.trans hflush.due, hsettled.told.trans hflush.told, hsettled.inv⟩
  fun_induction pollRead ws cap with
  | case1 ws ws₀ hready =>
    have hflush := flushed_flushOut ws
    have hinv := hflush.inv h
    refine ⟨⟨hinv.outPos, hinv.close⟩, hflush.told, ?_, fun hnone => ?_⟩
    · rw [← hflush.due]
      show ws₀.ready ++ _ = ws₀.ready.take cap ++ (ws₀.ready.drop cap ++ _)
      rw [← List.append_assoc, List.take_append_drop]
    · have hpos := List.length_pos_iff.mpr hready
      have hlen := congrArg List.length (Except.ok.inj hnone)
      rw [List.length_take, List.length_nil] at hlen
      omega
  | case2 ws ws₀ hready heof =>
    have hflush := flushed_flushOut ws
    refine ⟨hflush.inv h, hflush.told, hflush.due.symm, fun _ => ⟨heof, ?_⟩⟩
    simp [AsyncWsStream.due, heof, not_not.mp hready]
  | case3 ws ws₀ hready heof p ws₁ hparse ih =>
    obtain ⟨hdue, htold, hinv⟩ := hturn ws h hready heof hparse
    exact (ih hinv).of_eq hdue htold
  | case4 ws ws₀ hready heof ws₁ hparse ih =>
    obtain ⟨hdue, htold, hinv⟩ := hturn ws h hready heof hparse
    exact (ih hinv).of_eq hdue htold
  | case5 ws ws₀ hready heof ws₁ hparse ih =>
    obtain ⟨hdue, htold, hinv⟩ := hturn ws h hready heof hparse
    exact (ih hinv).of_eq hdue htold
  | case6 ws ws₀ hready heof ws₁ hparse ih =>
    obtain ⟨hdue, htold, hinv⟩ := hturn ws h hready heof hparse
    exact (ih hinv).of_eq hdue htold
  | case7 ws ws₀ hready heof ws₁ hparse kind input hread =>
    obtain ⟨hdue, htold, hinv⟩ := hturn ws h hready heof hparse
    have hstream : ws₁.inner.input.stream = [] ++ input.stream := by
      rw [Source.read_error hread]
      rfl
    have hsame := coming_extend hstream
    rw [List.append_nil] at hsame
    exact ⟨⟨hinv.outPos, hinv.close⟩, hsame.2.trans htold, (hsame.1.trans hdue).symm, nofun⟩
  | case8 ws ws₀ hready heof ws₁ hparse input hread =>
    obtain ⟨hdue, htold, hinv⟩ := hturn ws h hready heof hparse
    obtain ⟨hsame, hmore⟩ := eq_of_parseOne_need hparse
    have hungry : ws₁.Hungry := hsame ▸ hungry_flushOut hready heof
    rw [← hsame] at hmore
    have hempty : ws₁.inner.input.stream = [] := by
      rw [Source.read_eof (by decide) hread]
      rfl
    have hnothing : ({ ws₁.setInput input with eof := true } : AsyncWsStream).due = [] := by
      simp [AsyncWsStream.due, setInput, hungry.ready]
    refine ⟨⟨hinv.outPos, fun _ => rfl⟩, ?_, ?_, fun _ => ⟨rfl, hnothing⟩⟩
    · rw [← htold, settle, hungry.told, hempty, List.append_nil, answerTo_more hmore]
      rfl
    · rw [← hdue, settle, hungry.due, hempty, List.append_nil, carriedIn_more hmore]
      exact hnothing.symm
  | case9 ws ws₀ hready heof ws₁ hparse b bs input hread ih =>
    obtain ⟨hdue, htold, hinv⟩ := hturn ws h hready heof hparse
    have hsame := coming_extend (Source.read_ok hread).1
    exact (ih ⟨hinv.outPos, hinv.close⟩).of_eq (hsame.1.trans hdue) (hsame.2.trans htold)

/-- Poll with one buffer after the other until a poll yields no bytes: all bytes yielded, and the
state after the last poll. A poll that is not ready or fails is followed by another. -/
def pollToEnd (ws : AsyncWsStream) (caps : ℕ → ℕ+) (polls : ℕ) : Bytes × AsyncWsStream :=
  match _h : ws.pollRead (caps polls) with
  | (.ok [], ws') => ([], ws')
  | (.ok (b :: bs), ws') =>
    (b :: bs ++ (pollToEnd ws' caps (polls + 1)).1, (pollToEnd ws' caps (polls + 1)).2)
  | (.error _, ws') => pollToEnd ws' caps (polls + 1)
termination_by ws.size
decreasing_by
  all_goals
    have hsize := size_pollRead ws (caps polls).pos (by rw [_h]; simp)
    rwa [_h] at hsize

/-- **The polls up to the first that yields nothing** yield what was due, and leave the client told
but for what is still queued. -/
theorem pollToEnd_eq {ws : AsyncWsStream} (h : ws.Inv) (caps : ℕ → ℕ+) (polls : ℕ) :
    (ws.pollToEnd caps polls).1 = ws.due ∧ (ws.pollToEnd caps polls).2.sent = ws.told := by
  fun_induction pollToEnd ws caps polls with
  | case1 ws polls ws' hpoll =>
    have hspec := pollRead_spec h (caps polls).pos
    rw [hpoll] at hspec
    obtain ⟨heof, hdue⟩ := hspec.last rfl
    refine ⟨?_, ?_⟩
    · rw [hspec.due, hdue]
      rfl
    · rw [← hspec.told, told, heof]
      simp
  | case2 ws polls b bs ws' hpoll ih =>
    have hspec := pollRead_spec h (caps polls).pos
    rw [hpoll] at hspec
    obtain ⟨hbytes, hsent⟩ := ih hspec.inv
    refine ⟨?_, hsent.trans hspec.told⟩
    rw [hbytes, hspec.due]
    rfl
  | case3 ws polls kind ws' hpoll ih =>
    have hspec := pollRead_spec h (caps polls).pos
    rw [hpoll] at hspec
    obtain ⟨hbytes, hsent⟩ := ih hspec.inv
    refine ⟨?_, hsent.trans hspec.told⟩
    rw [hbytes, hspec.due]
    rfl

/-- All that a fresh adapter yields, and all that it tells the client. -/
theorem pollToEnd_new (inner : AsyncDuplex) (caps : ℕ → ℕ+) :
    ((new inner).pollToEnd caps 0).1 = carriedIn inner.input.stream ∧
      ((new inner).pollToEnd caps 0).2.sent = inner.output ++ answerTo inner.input.stream := by
  have hungry : (new inner).Hungry := ⟨rfl, rfl⟩
  have hinv : (new inner).Inv := ⟨Nat.le_refl _, by simp [new]⟩
  obtain ⟨hbytes, hsent⟩ := pollToEnd_eq hinv caps 0
  refine ⟨hbytes.trans hungry.due, ?_⟩
  rw [hsent, hungry.told]
  show (inner.output ++ []) ++ _ = _
  rw [List.append_nil]
  rfl

end AsyncWsStream

end Ws

end Aiomsg
