import Aiomsg.Lib.Reader
import Aiomsg.Ws.Parse
import Mathlib.Data.PNat.Notation

/-!
# The WebSocket adapter

`WsStream` in `rust-lib-sync/src/ws.rs` presents a WebSocket connection as a byte stream. Between
two calls of `read` it keeps four things: bytes that are not a frame yet, payload that has not been
asked for yet and how much of it has, and whether the end was reached. `pump` takes frames off the
first until there is payload or nothing more to take, answering the client on the way.

## Refinement

What is still to come is a function of the state: `due` is what the application will get and `told`
what the client will have heard in the end, if the rest of the stream is read as the grammar says. A
`read` takes what it returns off the front of `due` and leaves `told` alone; it does so whether it
returns bytes, fails for the moment, or loops over any number of frames and inner reads. So the
first `read` that returns nothing has nothing to return.

Inner writes succeed. Inner reads may fail any number of times; the caller then calls again.

## Scope

The adapter is driven by its reader alone. Writes of the application go through the same inner
stream and are frames of their own; they touch none of the four things that a `read` depends on.

## Main results

* `WsStream.read_spec` — what one `read` does to `due` and `told`
* `WsStream.readToEnd_eq` — the reads up to the first that returns nothing
* `wsStream_refines`
-/

namespace Aiomsg

namespace Ws

/-- The stream underneath: what will arrive on it, and what has been written to it. -/
structure Duplex where
  input : Source
  output : Bytes

structure WsStream where
  inner : Duplex
  /-- Unparsed inbound bytes. -/
  rawbuf : Bytes
  /-- Decoded, not-yet-read binary payload. -/
  payload : Bytes
  /-- Read cursor into `payload`. -/
  payloadPos : ℕ
  closeSent : Bool
  eof : Bool

/-- The length of the scratch buffer for inner reads. -/
def chunkSize : ℕ := 16 * 1024

/-! ### Items -/

def Item.carried : Item → Bytes
  | .data payload => payload
  | .ping _ | .pong => []

def Item.answer : Item → Bytes
  | .ping payload => serverFrame opPong payload
  | .data _ | .pong => []

/-- A frame takes up more than its payload. -/
theorem length_lt_of_item {buf rest : Bytes} {b : Item} (h : verdict buf = .item b rest) :
    b.carried.length + rest.length < buf.length := by
  obtain ⟨f, -, rfl, rfl⟩ := verdict_eq_item h
  have hcarried : f.item.carried.length ≤ f.len := by
    rw [← f.length_payload, ClientFrame.item]
    split_ifs
    · exact Nat.le_refl _
    · exact Nat.zero_le _
    · exact Nat.zero_le _
  rw [List.length_append, f.length_bytes]
  omega

/-- What the frames of a stream carry. -/
def carriedIn (stream : Bytes) : Bytes := (clientFrames.drain stream).1.flatMap Item.carried

/-- What the client hears to a stream. -/
def answerTo (stream : Bytes) : Bytes :=
  (clientFrames.drain stream).1.flatMap Item.answer ++
    ((reason stream).map fun code => serverFrame opClose (toBeBytes code)).getD []

section Coming

variable {buf rest : Bytes} {b : Item} {code : UInt16}

theorem carriedIn_item (h : verdict buf = .item b rest) (more : Bytes) :
    carriedIn (buf ++ more) = b.carried ++ carriedIn (rest ++ more) := by
  rw [carriedIn, Deframer.drain_item (clientFrames.item_append more h), List.flatMap_cons,
    carriedIn]

theorem answerTo_item (h : verdict buf = .item b rest) (more : Bytes) :
    answerTo (buf ++ more) = b.answer ++ answerTo (rest ++ more) := by
  rw [answerTo, reason, Deframer.drain_item (clientFrames.item_append more h), List.flatMap_cons,
    List.append_assoc, answerTo, reason]

theorem carriedIn_stop (h : verdict buf = .stop code) (more : Bytes) :
    carriedIn (buf ++ more) = [] := by
  rw [carriedIn, Deframer.drain_stop (clientFrames.stop_append more h), List.flatMap_nil]

theorem answerTo_stop (h : verdict buf = .stop code) (more : Bytes) :
    answerTo (buf ++ more) = serverFrame opClose (toBeBytes code) := by
  rw [answerTo, reason, Deframer.drain_stop (clientFrames.stop_append more h)]
  rfl

theorem carriedIn_more (h : verdict buf = .more) : carriedIn buf = [] := by
  rw [carriedIn, Deframer.drain_more h, List.flatMap_nil]

theorem answerTo_more (h : verdict buf = .more) : answerTo buf = [] := by
  rw [answerTo, reason, Deframer.drain_more h]
  rfl

end Coming

namespace WsStream

def new (inner : Duplex) (leftover : Bytes) : WsStream where
  inner := inner
  rawbuf := leftover
  payload := []
  payloadPos := 0
  closeSent := false
  eof := false

/-- `self.inner.write_all(&bytes)`, and `flush`. -/
def writeAll (ws : WsStream) (bytes : Bytes) : WsStream :=
  { ws with inner := { ws.inner with output := ws.inner.output ++ bytes } }

def sendClose (ws : WsStream) (code : UInt16) : WsStream :=
  if ws.closeSent then ws
  else { ws with closeSent := true }.writeAll (serverFrame opClose (toBeBytes code))

section SendClose

variable (ws : WsStream) (code : UInt16)

@[simp] theorem sendClose_input : (ws.sendClose code).inner.input = ws.inner.input := by
  rw [sendClose]
  split_ifs <;> rfl

@[simp] theorem sendClose_rawbuf : (ws.sendClose code).rawbuf = ws.rawbuf := by
  rw [sendClose]
  split_ifs <;> rfl

@[simp] theorem sendClose_payload : (ws.sendClose code).payload = ws.payload := by
  rw [sendClose]
  split_ifs <;> rfl

@[simp] theorem sendClose_payloadPos : (ws.sendClose code).payloadPos = ws.payloadPos := by
  rw [sendClose]
  split_ifs <;> rfl

end SendClose

/-- Drain complete frames buffered in `rawbuf` into `payload`, handling any control frames. Returns
`true` if `payload` gained bytes or EOF was reached, `false` if more inbound bytes are needed. -/
def pump (ws : WsStream) : Bool × WsStream :=
  match h : parseClientFrame ws.rawbuf with
  | (.needMore, _) => (false, ws)
  | (.data p, consumed) =>
    (true, { ws with rawbuf := ws.rawbuf.drop consumed, payload := ws.payload ++ p })
  | (.ping p, consumed) =>
    pump ({ ws with rawbuf := ws.rawbuf.drop consumed }.writeAll (serverFrame opPong p))
  | (.pong, consumed) => pump { ws with rawbuf := ws.rawbuf.drop consumed }
  | (.close code, consumed) =>
    (true, { { ws with rawbuf := ws.rawbuf.drop consumed }.sendClose code with eof := true })
  | (.protocol code, _) => (true, { ws.sendClose code with eof := true })
termination_by ws.rawbuf.length
decreasing_by all_goals exact clientFrames.shrinks (verdict_of_parse h)

/-- Hand back decoded payload. -/
def handBack (ws : WsStream) (cap : ℕ) : Bytes × WsStream :=
  let n := min cap (ws.payload.length - ws.payloadPos)
  let pos := ws.payloadPos + n
  ((ws.payload.drop ws.payloadPos).take n,
    if pos = ws.payload.length then { ws with payload := [], payloadPos := 0 }
    else { ws with payloadPos := pos })

/-- The inner stream after a read. -/
def setInput (ws : WsStream) (input : Source) : WsStream :=
  { ws with inner := { ws.inner with input := input } }

/-- What is left to do: it drops with every frame, every inner read and every byte handed back. -/
def size (ws : WsStream) : ℕ :=
  ws.inner.input.weight + ws.rawbuf.length + (ws.payload.length - ws.payloadPos) + (!ws.eof).toNat

/-! ### What `pump` does -/

/-- One run of `pump`, frame by frame. -/
inductive Pumped : WsStream → Bool × WsStream → Prop
  | more {ws : WsStream} (h : verdict ws.rawbuf = .more) : Pumped ws (false, ws)
  | data {ws : WsStream} {p rest : Bytes} (h : verdict ws.rawbuf = .item (.data p) rest) :
      Pumped ws (true, { ws with rawbuf := rest, payload := ws.payload ++ p })
  | ping {ws : WsStream} {p rest : Bytes} {r : Bool × WsStream}
      (h : verdict ws.rawbuf = .item (.ping p) rest)
      (hrest : Pumped ({ ws with rawbuf := rest }.writeAll (serverFrame opPong p)) r) : Pumped ws r
  | pong {ws : WsStream} {rest : Bytes} {r : Bool × WsStream}
      (h : verdict ws.rawbuf = .item .pong rest)
      (hrest : Pumped { ws with rawbuf := rest } r) : Pumped ws r
  | stop {ws : WsStream} {code : UInt16} {rest : Bytes} (h : verdict ws.rawbuf = .stop code)
      (hrest : rest.length ≤ ws.rawbuf.length) :
      Pumped ws (true, { { ws with rawbuf := rest }.sendClose code with eof := true })

theorem pumped_pump (ws : WsStream) : Pumped ws ws.pump := by
  fun_induction pump ws with
  | case1 ws n h => exact .more (verdict_of_parse h)
  | case2 ws p consumed h => exact .data (verdict_of_parse h)
  | case3 ws p consumed h ih => exact .ping (verdict_of_parse h) ih
  | case4 ws consumed h ih => exact .pong (verdict_of_parse h) ih
  | case5 ws code consumed h =>
    refine .stop (verdict_of_parse h) ?_
    rw [List.length_drop]
    exact Nat.sub_le _ _
  | case6 ws code n h => exact .stop (verdict_of_parse h) (Nat.le_refl _)

/-- `pump` on an open stream: it leaves the inner stream to be read alone, and there is less to do
afterwards if it returns `true`. -/
theorem Pumped.size {ws : WsStream} {r : Bool × WsStream} (h : Pumped ws r)
    (heof : ws.eof = false) : r.2.size + r.1.toNat ≤ ws.size := by
  induction h with
  | more => exact Nat.le_refl _
  | @data ws p rest h =>
    have hlen := length_lt_of_item h
    simp only [WsStream.size, heof, List.length_append, Item.carried, Bool.toNat_true] at hlen ⊢
    omega
  | @ping ws p rest r h hrest ih =>
    have hlen := length_lt_of_item h
    have ih := ih heof
    simp only [WsStream.size, writeAll, heof] at hlen ih ⊢
    omega
  | @pong ws rest r h hrest ih =>
    have hlen := length_lt_of_item h
    have ih := ih heof
    simp only [WsStream.size, heof] at hlen ih ⊢
    omega
  | @stop ws code rest h hrest =>
    simp only [WsStream.size, heof, sendClose_input, sendClose_rawbuf, sendClose_payload,
      sendClose_payloadPos, Bool.not_true, Bool.not_false, Bool.toNat_true, Bool.toNat_false]
    omega

theorem size_pump {ws ws₁ : WsStream} {more : Bool} (heof : ¬ ws.eof = true)
    (hpump : ws.pump = (more, ws₁)) : ws₁.size + more.toNat ≤ ws.size := by
  have hsize := (pumped_pump ws).size (Bool.eq_false_iff.mpr heof)
  rwa [hpump] at hsize

/-- There is less to do after an inner read that returns bytes. -/
theorem size_extend {ws : WsStream} {cap : ℕ} {b : UInt8} {bs : Bytes} {input : Source}
    (hread : ws.inner.input.read cap = (.ok (b :: bs), input)) :
    ({ ws.setInput input with rawbuf := ws.rawbuf ++ b :: bs } : WsStream).size < ws.size := by
  obtain ⟨-, hweight, -⟩ := Source.read_ok hread
  simp only [size, setInput, List.length_append, List.length_cons] at hweight ⊢
  omega

/-! ### Reading -/

def read (ws : WsStream) (cap : ℕ) : Except ErrorKind Bytes × WsStream :=
  if ws.payloadPos < ws.payload.length then (.ok (ws.handBack cap).1, (ws.handBack cap).2)
  else if _heof : ws.eof then (.ok [], ws)
  else
    match _hpump : ws.pump with
    | (true, ws₁) => ws₁.read cap
    | (false, ws₁) =>
      match _hread : ws₁.inner.input.read chunkSize with
      | (.error kind, input) => (.error kind, ws₁.setInput input)
      | (.ok [], input) => (.ok [], { ws₁.setInput input with eof := true })
      | (.ok (b :: bs), input) =>
        read { ws₁.setInput input with rawbuf := ws₁.rawbuf ++ b :: bs } cap
termination_by ws.size
decreasing_by
  · exact size_pump _heof _hpump
  · exact (size_extend _hread).trans_le (size_pump _heof _hpump)

theorem size_handBack {ws : WsStream} (hpos : ws.payloadPos < ws.payload.length) {cap : ℕ}
    (hcap : 0 < cap) : (ws.handBack cap).2.size < ws.size := by
  rw [handBack]
  by_cases hend : ws.payloadPos + min cap (ws.payload.length - ws.payloadPos) = ws.payload.length
  · simp only [hend, if_true, size, List.length_nil]
    omega
  · simp only [hend, if_false, size]
    omega

/-- Every `read` but the last leaves less to do. -/
theorem size_read (ws : WsStream) {cap : ℕ} (hcap : 0 < cap) (h : (ws.read cap).1 ≠ .ok []) :
    (ws.read cap).2.size < ws.size := by
  fun_induction read ws cap with
  | case1 ws hpos => exact size_handBack hpos hcap
  | case2 => exact absurd rfl h
  | case3 ws hpos heof ws₁ hpump ih => exact (ih h).trans (size_pump heof hpump)
  | case4 ws hpos heof ws₁ hpump kind input hread =>
    have hpumped := size_pump heof hpump
    have hweight := congrArg Source.weight (Source.read_error hread)
    simp only [size, setInput, Source.weight] at hpumped hweight ⊢
    omega
  | case5 => exact absurd rfl h
  | case6 ws hpos heof ws₁ hpump b bs input hread ih =>
    exact ((ih h).trans (size_extend hread)).trans_le (size_pump heof hpump)

/-! ### What is still to come -/

/-- The stream is open and all payload has been handed back: `pump` is called. -/
structure Hungry (ws : WsStream) : Prop where
  eof : ws.eof = false
  closeSent : ws.closeSent = false
  payload : ws.payload = []
  payloadPos : ws.payloadPos = 0

/-- What holds between two reads. -/
structure Inv (ws : WsStream) : Prop where
  cursor : ws.payloadPos < ws.payload.length ∨ ws.payload = [] ∧ ws.payloadPos = 0
  close : ws.closeSent = true → ws.eof = true

/-- The bytes the application will get. -/
def due (ws : WsStream) : Bytes :=
  ws.payload.drop ws.payloadPos ++
    if ws.eof then [] else carriedIn (ws.rawbuf ++ ws.inner.input.stream)

/-- The bytes the client will have heard. -/
def told (ws : WsStream) : Bytes :=
  ws.inner.output ++ if ws.eof then [] else answerTo (ws.rawbuf ++ ws.inner.input.stream)

theorem Hungry.inv {ws : WsStream} (h : ws.Hungry) : ws.Inv :=
  ⟨.inr ⟨h.payload, h.payloadPos⟩, fun hsent => absurd hsent (by simp [h.closeSent])⟩

theorem Hungry.due {ws : WsStream} (h : ws.Hungry) :
    ws.due = carriedIn (ws.rawbuf ++ ws.inner.input.stream) := by
  simp [WsStream.due, h.eof, h.payload]

theorem Hungry.told {ws : WsStream} (h : ws.Hungry) :
    ws.told = ws.inner.output ++ answerTo (ws.rawbuf ++ ws.inner.input.stream) := by
  simp [WsStream.told, h.eof]

/-- **What `pump` does**: it moves things from what is to come to what is there. -/
theorem Pumped.spec {ws : WsStream} {r : Bool × WsStream} (h : Pumped ws r) (hungry : ws.Hungry) :
    r.2.due = ws.due ∧ r.2.told = ws.told ∧ r.2.Inv ∧
      (r.1 = false → r.2.Hungry ∧ verdict r.2.rawbuf = .more) := by
  induction h with
  | more h => exact ⟨rfl, rfl, hungry.inv, fun _ => ⟨hungry, h⟩⟩
  | @data ws p rest h =>
    rw [hungry.due, hungry.told, carriedIn_item h, answerTo_item h]
    refine ⟨?_, ?_, ⟨?_, hungry.inv.close⟩, nofun⟩
    · simp [WsStream.due, hungry.eof, hungry.payload, hungry.payloadPos, Item.carried]
    · simp [WsStream.told, hungry.eof, Item.answer]
    · show ws.payloadPos < (ws.payload ++ p).length ∨ ws.payload ++ p = [] ∧ ws.payloadPos = 0
      rw [hungry.payload, hungry.payloadPos, List.nil_append]
      by_cases hp : p = []
      · exact .inr ⟨hp, rfl⟩
      · exact .inl (List.length_pos_iff.mpr hp)
  | @ping ws p rest r h hrest ih =>
    have hnext : ({ ws with rawbuf := rest }.writeAll (serverFrame opPong p)).Hungry :=
      ⟨hungry.eof, hungry.closeSent, hungry.payload, hungry.payloadPos⟩
    obtain ⟨hdue, htold, hafter⟩ := ih hnext
    refine ⟨?_, ?_, hafter⟩
    · rw [hdue, hnext.due, hungry.due, carriedIn_item h]
      rfl
    · rw [htold, hnext.told, hungry.told, answerTo_item h, ← List.append_assoc]
      rfl
  | @pong ws rest r h hrest ih =>
    have hnext : ({ ws with rawbuf := rest } : WsStream).Hungry :=
      ⟨hungry.eof, hungry.closeSent, hungry.payload, hungry.payloadPos⟩
    obtain ⟨hdue, htold, hafter⟩ := ih hnext
    refine ⟨?_, ?_, hafter⟩
    · rw [hdue, hnext.due, hungry.due, carriedIn_item h]
      rfl
    · rw [htold, hnext.told, hungry.told, answerTo_item h]
      rfl
  | @stop ws code rest h hrest =>
    rw [hungry.due, hungry.told, carriedIn_stop h, answerTo_stop h]
    refine ⟨?_, ?_, ⟨.inr ?_, fun _ => rfl⟩, nofun⟩
    · simp [WsStream.due, hungry.payload]
    · simp [WsStream.told, sendClose, writeAll, hungry.closeSent]
    · simp [hungry.payload, hungry.payloadPos]

/-- Not open, or all payload handed back. -/
theorem Inv.hungry {ws : WsStream} (h : ws.Inv) (hpos : ¬ ws.payloadPos < ws.payload.length)
    (heof : ¬ ws.eof = true) : ws.Hungry := by
  obtain ⟨hpayload, hzero⟩ := h.cursor.resolve_left hpos
  exact ⟨Bool.eq_false_iff.mpr heof, Bool.eq_false_iff.mpr fun hsent => heof (h.close hsent),
    hpayload, hzero⟩

theorem handBack_spec {ws : WsStream} (h : ws.Inv) (hpos : ws.payloadPos < ws.payload.length)
    (cap : ℕ) :
    ws.due = (ws.handBack cap).1 ++ (ws.handBack cap).2.due ∧
      (ws.handBack cap).2.told = ws.told ∧ (ws.handBack cap).2.Inv := by
  have hsplit := List.take_append_drop (min cap (ws.payload.length - ws.payloadPos))
    (ws.payload.drop ws.payloadPos)
  rw [List.drop_drop] at hsplit
  rw [handBack]
  by_cases hend : ws.payloadPos + min cap (ws.payload.length - ws.payloadPos) = ws.payload.length
  · rw [if_pos hend]
    rw [hend, List.drop_length] at hsplit
    refine ⟨?_, rfl, .inr ⟨rfl, rfl⟩, h.close⟩
    show ws.payload.drop ws.payloadPos ++ _ = (ws.payload.drop ws.payloadPos).take _ ++ ([] ++ _)
    rw [← List.append_assoc, hsplit]
  · rw [if_neg hend]
    refine ⟨?_, rfl, .inl ?_, h.close⟩
    · show ws.payload.drop ws.payloadPos ++ _ = (ws.payload.drop ws.payloadPos).take _ ++ (_ ++ _)
      rw [← List.append_assoc, hsplit]
    · show ws.payloadPos + min cap (ws.payload.length - ws.payloadPos) < ws.payload.length
      omega

/-- The bytes a `read` returns. -/
def returned : Except ErrorKind Bytes → Bytes
  | .ok bytes => bytes
  | .error _ => []

/-- What one `read` does: it takes what it returns off the front of what is due, and if that is
nothing, nothing is due. -/
structure ReadSpec (ws : WsStream) (r : Except ErrorKind Bytes × WsStream) : Prop where
  inv : r.2.Inv
  told : r.2.told = ws.told
  due : ws.due = returned r.1 ++ r.2.due
  last : r.1 = .ok [] → r.2.eof = true ∧ r.2.due = []

theorem ReadSpec.of_eq {ws ws₁ : WsStream} {r : Except ErrorKind Bytes × WsStream}
    (h : ReadSpec ws₁ r) (hdue : ws₁.due = ws.due) (htold : ws₁.told = ws.told) : ReadSpec ws r :=
  ⟨h.inv, h.told.trans htold, hdue.symm.trans h.due, h.last⟩

theorem Inv.pump_spec {ws ws₁ : WsStream} {more : Bool} (h : ws.Inv)
    (hpos : ¬ ws.payloadPos < ws.payload.length) (heof : ¬ ws.eof = true)
    (hpump : ws.pump = (more, ws₁)) :
    ws₁.due = ws.due ∧ ws₁.told = ws.told ∧ ws₁.Inv ∧
      (more = false → ws₁.Hungry ∧ verdict ws₁.rawbuf = .more) := by
  have hspec := (pumped_pump ws).spec (h.hungry hpos heof)
  rwa [hpump] at hspec

/-- An inner read: what has arrived moves from the inner stream to `rawbuf`. -/
theorem coming_extend {ws : WsStream} {bytes : Bytes} {input : Source}
    (hstream : ws.inner.input.stream = bytes ++ input.stream) :
    ({ ws.setInput input with rawbuf := ws.rawbuf ++ bytes } : WsStream).due = ws.due ∧
      ({ ws.setInput input with rawbuf := ws.rawbuf ++ bytes } : WsStream).told = ws.told := by
  simp [due, told, setInput, hstream]

/-- **What one `read` does.** -/
theorem read_spec {ws : WsStream} (h : ws.Inv) {cap : ℕ} (hcap : 0 < cap) :
    ReadSpec ws (ws.read cap) := by
  fun_induction read ws cap with
  | case1 ws hpos =>
    obtain ⟨hdue, htold, hinv⟩ := handBack_spec h hpos cap
    refine ⟨hinv, htold, hdue, fun hnone => ?_⟩
    have hlen := congrArg List.length (Except.ok.inj hnone)
    simp only [handBack, List.length_take, List.length_drop, List.length_nil] at hlen
    omega
  | case2 ws hpos heof =>
    obtain ⟨hpayload, -⟩ := h.cursor.resolve_left hpos
    exact ⟨h, rfl, rfl, fun _ => ⟨heof, by simp [WsStream.due, heof, hpayload]⟩⟩
  | case3 ws hpos heof ws₁ hpump ih =>
    obtain ⟨hdue, htold, hinv, -⟩ := h.pump_spec hpos heof hpump
    exact (ih hinv).of_eq hdue htold
  | case4 ws hpos heof ws₁ hpump kind input hread =>
    obtain ⟨hdue, htold, hinv, -⟩ := h.pump_spec hpos heof hpump
    have hstream : ws₁.inner.input.stream = [] ++ input.stream := by
      rw [Source.read_error hread]
      rfl
    have hsame := coming_extend hstream
    rw [List.append_nil] at hsame
    exact ⟨⟨hinv.cursor, hinv.close⟩, hsame.2.trans htold, (hsame.1.trans hdue).symm, nofun⟩
  | case5 ws hpos heof ws₁ hpump input hread =>
    obtain ⟨hdue, htold, hinv, hmore⟩ := h.pump_spec hpos heof hpump
    obtain ⟨hungry, hverdict⟩ := hmore rfl
    have hempty : ws₁.inner.input.stream = [] := by
      rw [Source.read_eof (by decide) hread]
      rfl
    have hnothing : ({ ws₁.setInput input with eof := true } : WsStream).due = [] := by
      simp [WsStream.due, setInput, hungry.payload]
    refine ⟨⟨hinv.cursor, fun _ => rfl⟩, ?_, ?_, fun _ => ⟨rfl, hnothing⟩⟩
    · rw [← htold, hungry.told, hempty, List.append_nil, answerTo_more hverdict]
      rfl
    · rw [← hdue, hungry.due, hempty, List.append_nil, carriedIn_more hverdict]
      exact hnothing.symm
  | case6 ws hpos heof ws₁ hpump b bs input hread ih =>
    obtain ⟨hdue, htold, hinv, -⟩ := h.pump_spec hpos heof hpump
    have hsame := coming_extend (Source.read_ok hread).1
    exact (ih ⟨hinv.cursor, hinv.close⟩).of_eq (hsame.1.trans hdue) (hsame.2.trans htold)

/-- Call `read` with one buffer after the other until it returns nothing: all bytes it returned, and
the state after the last call. A call that fails is followed by another. -/
def readToEnd (ws : WsStream) (caps : ℕ → ℕ+) (calls : ℕ) : Bytes × WsStream :=
  match _h : ws.read (caps calls) with
  | (.ok [], ws') => ([], ws')
  | (.ok (b :: bs), ws') =>
    (b :: bs ++ (readToEnd ws' caps (calls + 1)).1, (readToEnd ws' caps (calls + 1)).2)
  | (.error _, ws') => readToEnd ws' caps (calls + 1)
termination_by ws.size
decreasing_by
  all_goals
    have hsize := size_read ws (caps calls).pos (by rw [_h]; nofun)
    rwa [_h] at hsize

/-- **The reads up to the first that returns nothing** return what was due, and leave the client
told. -/
theorem readToEnd_eq {ws : WsStream} (h : ws.Inv) (caps : ℕ → ℕ+) (calls : ℕ) :
    (ws.readToEnd caps calls).1 = ws.due ∧ (ws.readToEnd caps calls).2.inner.output = ws.told := by
  fun_induction readToEnd ws caps calls with
  | case1 ws calls ws' hread =>
    have hspec := read_spec h (caps calls).pos
    rw [hread] at hspec
    obtain ⟨heof, hdue⟩ := hspec.last rfl
    refine ⟨?_, ?_⟩
    · rw [hspec.due, hdue]
      rfl
    · rw [← hspec.told, told, heof]
      simp
  | case2 ws calls b bs ws' hread ih =>
    have hspec := read_spec h (caps calls).pos
    rw [hread] at hspec
    obtain ⟨hbytes, houtput⟩ := ih hspec.inv
    refine ⟨?_, houtput.trans hspec.told⟩
    rw [hbytes, hspec.due]
    rfl
  | case3 ws calls kind ws' hread ih =>
    have hspec := read_spec h (caps calls).pos
    rw [hread] at hspec
    obtain ⟨hbytes, houtput⟩ := ih hspec.inv
    refine ⟨?_, houtput.trans hspec.told⟩
    rw [hbytes, hspec.due]
    rfl

theorem hungry_new (inner : Duplex) (leftover : Bytes) : (new inner leftover).Hungry :=
  ⟨rfl, rfl, rfl, rfl⟩

end WsStream

/-! ### The grammar's account -/

theorem ClientFrame.carried_item (f : ClientFrame) : f.item.carried = f.carried := by
  rw [ClientFrame.item, ClientFrame.carried]
  split_ifs <;> rfl

/-- A PING that passes is short, so its PONG has the short header. -/
theorem ClientFrame.answer_item (f : ClientFrame) (h : f.Passes) : f.item.answer = f.answer := by
  rw [ClientFrame.item, ClientFrame.answer]
  by_cases hping : f.opcode = opPing
  · have hshort : f.payload.length < 126 := by
      have hlen : ¬ 125 < f.len := fun hlong => h.1 ⟨by rw [hping]; decide, .inr hlong⟩
      rw [f.length_payload]
      omega
    have hdata : ¬ (f.opcode = opBin ∨ f.opcode = opCont) := by rw [hping]; decide
    rw [if_neg hdata, if_pos hping, if_pos hping, Item.answer, serverFrame]
    simp only [if_pos hshort]
    rfl
  · rw [if_neg hping]
    split_ifs <;> rfl

theorem serverFrame_close (code : UInt16) :
    serverFrame opClose (toBeBytes code) = closeFrame code := by
  have hlen : (toBeBytes code).length = 2 := BigEndian.length_encode 2 _
  rw [serverFrame, closeFrame]
  simp only [hlen]
  rfl

theorem carriedIn_eq {stream : Bytes} {frames : List ClientFrame} {code : Option UInt16}
    (h : Reading stream frames code) : carriedIn stream = content frames := by
  rw [carriedIn, (drain_of_reading h).1, content, List.flatMap_def, List.map_map]
  refine congrArg List.flatten (List.map_congr_left fun f _ => ?_)
  exact f.carried_item

theorem answerTo_eq {stream : Bytes} {frames : List ClientFrame} {code : Option UInt16}
    (h : Reading stream frames code) : answerTo stream = reply frames code := by
  have hpasses : ∀ f ∈ frames, f.Passes := by
    obtain ⟨tail, -, hpasses, -⟩ := h
    exact hpasses
  have hanswers : frames.map (Item.answer ∘ ClientFrame.item) = frames.map ClientFrame.answer :=
    List.map_congr_left fun f hf => f.answer_item (hpasses f hf)
  have hclose : (fun code => serverFrame opClose (toBeBytes code)) = closeFrame :=
    funext serverFrame_close
  rw [answerTo, (drain_of_reading h).1, (drain_of_reading h).2, reply, List.flatMap_def,
    List.map_map, hanswers, hclose]

/-- **The adapter presents what the grammar says.** Take any inbound stream, cut in any way into the
bytes left over from the upgrade and what inner reads deliver, with any number of failed reads in
between, and buffers of any sizes but zero. The stream has a reading, and for every reading of it:
the bytes `read` returns until it first returns nothing are the payloads of the binary and
continuation frames, and the bytes written to the inner stream are a PONG for each PING and then the
Close frame there is a reason for, if there is one. Another way of cutting the same stream, with
other buffers, gives the same. -/
theorem wsStream_refines (inner : Duplex) (leftover : Bytes) (caps : ℕ → ℕ+) :
    (∃ frames code, Reading (leftover ++ inner.input.stream) frames code) ∧
    (∀ frames code, Reading (leftover ++ inner.input.stream) frames code →
      ((WsStream.new inner leftover).readToEnd caps 0).1 = content frames ∧
      ((WsStream.new inner leftover).readToEnd caps 0).2.inner.output
        = inner.output ++ reply frames code) ∧
    ∀ (input' : Source) (leftover' : Bytes) (caps' : ℕ → ℕ+),
      leftover' ++ input'.stream = leftover ++ inner.input.stream →
      ((WsStream.new ⟨input', inner.output⟩ leftover').readToEnd caps' 0).1
        = ((WsStream.new inner leftover).readToEnd caps 0).1 ∧
      ((WsStream.new ⟨input', inner.output⟩ leftover').readToEnd caps' 0).2.inner.output
        = ((WsStream.new inner leftover).readToEnd caps 0).2.inner.output := by
  have hread : ∀ (inner : Duplex) (leftover : Bytes) (caps : ℕ → ℕ+),
      ((WsStream.new inner leftover).readToEnd caps 0).1
        = carriedIn (leftover ++ inner.input.stream) ∧
      ((WsStream.new inner leftover).readToEnd caps 0).2.inner.output
        = inner.output ++ answerTo (leftover ++ inner.input.stream) := by
    intro inner leftover caps
    have hnew := WsStream.hungry_new inner leftover
    obtain ⟨hbytes, houtput⟩ := WsStream.readToEnd_eq hnew.inv caps 0
    exact ⟨hbytes.trans hnew.due, houtput.trans hnew.told⟩
  obtain ⟨hbytes, houtput⟩ := hread inner leftover caps
  refine ⟨exists_reading _, fun frames code hreading => ?_, fun input' leftover' caps' heq => ?_⟩
  · rw [hbytes, houtput, carriedIn_eq hreading, answerTo_eq hreading]
    exact ⟨rfl, rfl⟩
  · obtain ⟨hbytes', houtput'⟩ := hread ⟨input', inner.output⟩ leftover' caps'
    rw [hbytes', houtput', hbytes, houtput, heq]
    exact ⟨rfl, rfl⟩

/-- A frame of at most 125 bytes, not fragmented, under one mask. -/
def ClientFrame.small (opcode : UInt8) (payload : Bytes) (hopcode : opcode < 16)
    (hlen : payload.length < 126) : ClientFrame where
  fin := true
  opcode := opcode
  opcode_lt := hopcode
  form := .seven
  len := payload.length
  len_lt := hlen
  mask := ⟨[0xa1, 0xb2, 0xc3, 0xd4], rfl⟩
  payload := payload
  length_payload := rfl

/-- A PING, two bytes of data and a Close frame without a code. The PING is left over from the
upgrade but for its last byte, and a read fails before the Close frame. -/
def smallInput : Source :=
  [.bytes 0xa4 [0x82, 0x82, 0xa1, 0xb2, 0xc3, 0xd4, 0xa6, 0xba], .err .wouldBlock,
    .bytes 0x88 [0x80, 0xa1, 0xb2, 0xc3, 0xd4]]

theorem smallInput_refines :
    ((WsStream.new ⟨smallInput, []⟩ [0x89, 0x81, 0xa1, 0xb2, 0xc3, 0xd4]).readToEnd
      (fun _ => 1) 0).1 = [7, 8] ∧
    ((WsStream.new ⟨smallInput, []⟩ [0x89, 0x81, 0xa1, 0xb2, 0xc3, 0xd4]).readToEnd
      (fun _ => 1) 0).2.inner.output = [0x8A, 1, 5, 0x88, 2, 0x03, 0xE8] := by
  let ping := ClientFrame.small opPing [5] (by decide) (by decide)
  let bin := ClientFrame.small opBin [7, 8] (by decide) (by decide)
  let close := ClientFrame.small opClose [] (by decide) (by decide)
  have hreading : Reading ((ping.bytes ++ bin.bytes) ++ close.bytes) [ping, bin] (some 1000) :=
    ⟨close.bytes, rfl, by decide, .stop (.close close [] rfl (by decide))⟩
  have hstream : (ping.bytes ++ bin.bytes) ++ close.bytes
      = [0x89, 0x81, 0xa1, 0xb2, 0xc3, 0xd4] ++ smallInput.stream := by
    decide
  rw [hstream] at hreading
  exact (wsStream_refines _ _ _).2.1 [ping, bin] (some 1000) hreading

end Ws

end Aiomsg
