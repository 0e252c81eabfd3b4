import Aiomsg.Protocol.FrameDecoder
import Mathlib.Data.Nat.Bitwise

/-!
# The C codec

`c-lib/src/protocol.c`: the frame builder, the envelope parser and the incremental decoder. The
decoder keeps its bytes in one growing array with a read position `head` and a write position
`tail`; popping only moves `head`, and pushing first slides the unread bytes to the front when it
runs out of room. Allocation is assumed to succeed, so `frame` and `push` have no failure result.

The array is modelled as the list of its `cap` bytes. Bytes between `tail` and `cap` are
uninitialised in the source; they stand as zeros here and nothing reads them.

## Scope

Sizes are natural numbers here, and nothing overflows. What `size_t` makes of them, and what a
refused allocation does, is the subject of the decoder on 64-bit sizes, which rests on this one.

## Main results

* `Decoder.content_push`, `Decoder.Valid.push` — a push appends to the unread bytes
* `Decoder.pop_cases` — a pop is one cut of the splitter on the unread bytes
* `Decoder.popAll_eq` — popping to exhaustion yields the splitter's items
* `parseEnvelope_eq_decode` — the C parser and the Rust one agree
-/

namespace Aiomsg

namespace CLib

open Protocol

/-! ### Building frames -/

/-- `frame`: the four bytes of `env_len`, each cast to `uint8_t` after a shift, then the type and
the two parts of the body. -/
def frame (type : UInt8) (lead body : Bytes) : Bytes :=
  let envLen := 1 + lead.length + body.length
  [UInt8.ofNat (envLen >>> 24), UInt8.ofNat (envLen >>> 16), UInt8.ofNat (envLen >>> 8),
    UInt8.ofNat envLen, type] ++ lead ++ body

def frameHello (identity : Identity) : Bytes := frame tHello [protocolVersion] identity.toList

def frameHeartbeat : Bytes := frame tHeartbeat [] []

def frameData (payload : Bytes) : Bytes := frame tData [] payload

def frameDataReq (msgId : MsgId) (payload : Bytes) : Bytes := frame tDataReq msgId.toList payload

def frameAck (msgId : MsgId) : Bytes := frame tAck msgId.toList []

theorem frame_eq (type : UInt8) (lead body : Bytes) :
    frame type lead body
      = BigEndian.encode 4 (type :: (lead ++ body)).length ++ (type :: (lead ++ body)) := by
  have hlen : (type :: (lead ++ body)).length = 1 + lead.length + body.length := by
    simp only [List.length_cons, List.length_append]
    omega
  rw [hlen]
  simp only [frame, BigEndian.encode, Nat.shiftRight_eq_div_pow, List.cons_append,
    List.nil_append, Nat.reducePow, Nat.div_one]

/-! ### Parsing envelopes -/

theorem pos_of_hello {body : Bytes} (h : ¬ body.length < 1 + identitySize) : 0 < body.length := by
  unfold identitySize at h
  omega

theorem sixteen_of_hello {body : Bytes} (h : ¬ body.length < 1 + identitySize) :
    16 ≤ (body.drop 1).length := by
  unfold identitySize at h
  rw [List.length_drop]
  omega

theorem sixteen_of_msgId {body : Bytes} (h : ¬ body.length < msgIdSize) : 16 ≤ body.length :=
  Nat.le_of_not_lt h

/-- `aiomsg_parse_envelope`; `none` stands for its `-1`. -/
def parseEnvelope : Bytes → Option (Envelope Bytes)
  | [] => none
  | type :: body =>
    if type = tHello then
      if h : body.length < 1 + identitySize then none
      else
        some (.hello (body.get ⟨0, pos_of_hello h⟩)
          (firstSixteen (body.drop 1) (sixteen_of_hello h)))
    else if type = tHeartbeat then some .heartbeat
    else if type = tData then some (.data body)
    else if type = tDataReq then
      if h : body.length < msgIdSize then none
      else some (.dataReq (firstSixteen body (sixteen_of_msgId h)) (body.drop msgIdSize))
    else if type = tAck then
      if h : body.length < msgIdSize then none
      else some (.ack (firstSixteen body (sixteen_of_msgId h)))
    else none

theorem parseEnvelope_eq_decode (env : Bytes) : parseEnvelope env = decode env := by
  cases env <;> rfl

/-! ### The decoder -/

/-- `aiomsg_decoder`: the array, of `cap` bytes, and the two positions in it. That they are in order
and within the array is `Valid`, which every operation keeps. -/
structure Decoder where
  buf : Bytes
  head : ℕ
  tail : ℕ
  cap : ℕ

namespace Decoder

def init : Decoder where
  buf := []
  head := 0
  tail := 0
  cap := 0

/-- `while (cap - d->tail < n) cap *= 2`. The source enters the loop with `cap` nonzero; the second
condition says so, and is what makes the loop end. -/
def growCap (tail n cap : ℕ) : ℕ :=
  if _h : cap - tail < n ∧ 0 < cap then growCap tail n (cap * 2) else cap
termination_by n + tail - cap

/-- Slide the unread bytes to the front of the array: `memmove(buf, buf + head, used)`. -/
def compact (d : Decoder) : Decoder :=
  if 0 < d.head then
    let used := d.tail - d.head
    { d with
      buf := (d.buf.drop d.head).take used ++ d.buf.drop used
      head := 0
      tail := used }
  else d

/-- Enlarge the array: `realloc` to the capacity the growth loop finds. -/
def grow (d : Decoder) (n : ℕ) : Decoder :=
  let cap := growCap d.tail n (if d.cap = 0 then 4096 else d.cap)
  { d with buf := d.buf ++ List.replicate (cap - d.cap) 0, cap := cap }

/-- Make room for `n` bytes at the tail, compacting consumed bytes first, then growing. -/
def makeRoom (d : Decoder) (n : ℕ) : Decoder :=
  if d.cap - d.tail < n then
    if d.compact.cap - d.compact.tail < n then d.compact.grow n else d.compact
  else d

/-- `memcpy(buf + tail, bytes, n); tail += n`. -/
def copyIn (d : Decoder) (bytes : Bytes) : Decoder :=
  { d with
    buf := d.buf.take d.tail ++ bytes ++ d.buf.drop (d.tail + bytes.length)
    tail := d.tail + bytes.length }

/-- `aiomsg_decoder_push`. -/
def push (d : Decoder) (bytes : Bytes) : Decoder := (d.makeRoom bytes.length).copyIn bytes

/-- The bytes pushed and not yet popped: `buf[head..tail)`. -/
def content (d : Decoder) : Bytes := (d.buf.drop d.head).take (d.tail - d.head)

/-- The frame length read off the four bytes at `p`. -/
def frameLen (p : Bytes) : ℕ :=
  match p with
  | p₀ :: p₁ :: p₂ :: p₃ :: _ =>
    p₀.toNat <<< 24 ||| p₁.toNat <<< 16 ||| p₂.toNat <<< 8 ||| p₃.toNat
  | _ => 0

/-- `aiomsg_decoder_pop`: the position and length of the envelope in the array, which is not moved,
and the decoder with its read position advanced. -/
def pop (d : Decoder) : Option (ℕ × ℕ) × Decoder :=
  let avail := d.tail - d.head
  if avail < 4 then (none, d)
  else
    let flen := frameLen (d.buf.drop d.head)
    if avail < 4 + flen then (none, d)
    else (some (d.head + 4, flen), { d with head := d.head + (4 + flen) })

/-- The bytes an envelope pointer and length denote. -/
def view (d : Decoder) (env : ℕ × ℕ) : Bytes := (d.buf.drop env.1).take env.2

/-- The positions stay inside the array and in order. -/
structure Valid (d : Decoder) : Prop where
  length_buf : d.buf.length = d.cap
  head_le : d.head ≤ d.tail
  tail_le : d.tail ≤ d.cap

theorem valid_init : Valid init := ⟨rfl, Nat.le_refl _, Nat.le_refl _⟩

theorem Valid.length_content {d : Decoder} (h : d.Valid) :
    d.content.length = d.tail - d.head := by
  have h₁ := h.length_buf
  have h₂ := h.tail_le
  rw [content, List.length_take, List.length_drop]
  omega

/-! ### Pushing -/

/-- The growth loop never shrinks the array and leaves room for `n` bytes behind `tail`. -/
theorem growCap_spec {tail n cap : ℕ} (hpos : 0 < cap) :
    cap ≤ growCap tail n cap ∧ n ≤ growCap tail n cap - tail := by
  fun_induction growCap tail n cap with
  | case1 cap h ih =>
    obtain ⟨hle, hroom⟩ := ih (by omega)
    exact ⟨by omega, hroom⟩
  | case2 cap h => exact ⟨Nat.le_refl _, by omega⟩

theorem Valid.compact {d : Decoder} (h : d.Valid) : d.compact.Valid := by
  obtain ⟨hlen, hht, htc⟩ := h
  rw [Decoder.compact]
  split_ifs
  · refine ⟨?_, Nat.zero_le _, show d.tail - d.head ≤ d.cap by omega⟩
    simp only [List.length_append, List.length_take, List.length_drop]
    omega
  · exact ⟨hlen, hht, htc⟩

theorem content_compact {d : Decoder} (h : d.Valid) : d.compact.content = d.content := by
  rw [Decoder.compact]
  split_ifs
  · have hlen := h.length_content
    rw [content] at hlen
    simp only [content, List.drop_zero, Nat.sub_zero]
    rw [List.take_append_of_le_length (by omega), List.take_of_length_le (by omega)]
  · rfl

theorem Valid.grow {d : Decoder} (h : d.Valid) (n : ℕ) : (d.grow n).Valid := by
  obtain ⟨hlen, hht, htc⟩ := h
  have hcap : d.cap ≤ growCap d.tail n (if d.cap = 0 then 4096 else d.cap) := by
    refine le_trans ?_ (growCap_spec (by split_ifs <;> omega)).1
    split_ifs <;> omega
  refine ⟨?_, hht, le_trans htc hcap⟩
  simp only [Decoder.grow, List.length_append, List.length_replicate]
  omega

theorem content_grow {d : Decoder} (h : d.Valid) (n : ℕ) : (d.grow n).content = d.content := by
  obtain ⟨hlen, hht, htc⟩ := h
  show ((d.buf ++ List.replicate _ 0).drop d.head).take (d.tail - d.head) = d.content
  rw [content, List.drop_append_of_le_length (by omega),
    List.take_append_of_le_length (by rw [List.length_drop]; omega)]

/-- **Room is made without touching the unread bytes.** -/
theorem makeRoom_spec {d : Decoder} (h : d.Valid) (n : ℕ) :
    (d.makeRoom n).Valid ∧ (d.makeRoom n).content = d.content ∧
      n ≤ (d.makeRoom n).cap - (d.makeRoom n).tail := by
  rw [makeRoom]
  split_ifs with h₁ h₂
  · refine ⟨h.compact.grow n, by rw [content_grow h.compact, content_compact h], ?_⟩
    exact (growCap_spec (by split_ifs <;> omega)).2
  · exact ⟨h.compact, content_compact h, by omega⟩
  · exact ⟨h, rfl, by omega⟩

theorem Valid.copyIn {d : Decoder} (h : d.Valid) {bytes : Bytes}
    (hroom : bytes.length ≤ d.cap - d.tail) : (d.copyIn bytes).Valid := by
  obtain ⟨hlen, hht, htc⟩ := h
  refine ⟨?_, ?_, ?_⟩
  · simp only [Decoder.copyIn, List.length_append, List.length_take, List.length_drop]
    omega
  · show d.head ≤ d.tail + bytes.length
    omega
  · show d.tail + bytes.length ≤ d.cap
    omega

theorem content_copyIn {d : Decoder} (h : d.Valid) (bytes : Bytes) :
    (d.copyIn bytes).content = d.content ++ bytes := by
  have hlen := h.length_buf
  have hht := h.head_le
  have htc := h.tail_le
  have htake : (d.buf.take d.tail).length = d.tail := List.length_take_of_le (by omega)
  have hall : (d.content ++ bytes).length = d.tail + bytes.length - d.head := by
    rw [List.length_append, h.length_content]
    omega
  show ((d.buf.take d.tail ++ bytes ++ d.buf.drop (d.tail + bytes.length)).drop d.head).take
      (d.tail + bytes.length - d.head) = d.content ++ bytes
  rw [List.append_assoc, List.drop_append_of_le_length (by omega), List.drop_take, ← content,
    ← List.append_assoc, List.take_append_of_le_length (by omega),
    List.take_of_length_le (by omega)]

theorem Valid.push {d : Decoder} (h : d.Valid) (bytes : Bytes) : (d.push bytes).Valid := by
  obtain ⟨hvalid, -, hroom⟩ := makeRoom_spec h bytes.length
  exact hvalid.copyIn hroom

/-- **A push appends to the unread bytes.** -/
theorem content_push {d : Decoder} (h : d.Valid) (bytes : Bytes) :
    (d.push bytes).content = d.content ++ bytes := by
  obtain ⟨hvalid, hcontent, -⟩ := makeRoom_spec h bytes.length
  rw [push, content_copyIn hvalid, hcontent]

/-! ### Popping -/

/-- The shifts and ors of `aiomsg_decoder_pop` read a big-endian number. -/
theorem frameLen_eq {p : Bytes} (h : 4 ≤ p.length) : frameLen p = LengthPrefix.announced p := by
  match p with
  | p₀ :: p₁ :: p₂ :: p₃ :: _ =>
    have h₁ : p₁.toNat < 256 := p₁.toNat_lt
    have h₂ : p₂.toNat < 256 := p₂.toNat_lt
    have h₃ : p₃.toNat < 256 := p₃.toNat_lt
    obtain ⟨b₃, b₂⟩ : p₂.toNat * 2 ^ 8 + p₃.toNat < 2 ^ 16 ∧
        p₁.toNat * 2 ^ 16 + (p₂.toNat * 2 ^ 8 + p₃.toNat) < 2 ^ 24 := ⟨by omega, by omega⟩
    have e₃ : p₂.toNat <<< 8 ||| p₃.toNat = p₂.toNat * 2 ^ 8 + p₃.toNat := BigEndian.shiftLeft_or h₃
    have e₂ := BigEndian.shiftLeft_or (a := p₁.toNat) b₃
    have e₁ := BigEndian.shiftLeft_or (a := p₀.toNat) b₂
    rw [frameLen, Nat.or_assoc, Nat.or_assoc, e₃, e₂, e₁]
    simp only [LengthPrefix.announced, BigEndian.value, List.take_succ_cons, List.take_zero,
      List.length_cons, List.length_nil]
    clear b₃ b₂ e₃ e₂ e₁
    omega

theorem frameLen_drop_head {d : Decoder} (h : d.Valid) (h4 : 4 ≤ d.tail - d.head) :
    frameLen (d.buf.drop d.head) = LengthPrefix.announced d.content := by
  have hlen := h.length_content
  rw [frameLen_eq (by rw [List.length_drop, h.length_buf]; have := h.tail_le; omega),
    LengthPrefix.announced, LengthPrefix.announced, content, List.take_take, Nat.min_eq_left h4]

/-- **A pop is one cut of the splitter** on the unread bytes: an incomplete frame is left alone, and
a complete one is pointed at where it lies. -/
theorem pop_of_more {d : Decoder} (h : d.Valid) (hp : LengthPrefix.parse d.content = .more) :
    d.pop = (none, d) := by
  have hlen := h.length_content
  rw [LengthPrefix.parse_eq_more_iff, hlen] at hp
  rw [pop]
  dsimp only
  split_ifs with h₁ h₂
  · rfl
  · rfl
  · rw [frameLen_drop_head h (by omega)] at h₂
    omega

theorem pop_of_item {d : Decoder} (h : d.Valid) {env rest : Bytes}
    (hp : LengthPrefix.parse d.content = .item env rest) :
    d.pop = (some (d.head + 4, env.length), { d with head := d.head + (4 + env.length) }) ∧
      d.view (d.head + 4, env.length) = env ∧
      Valid { d with head := d.head + (4 + env.length) } ∧
      content { d with head := d.head + (4 + env.length) } = rest := by
  obtain ⟨hle, henv, hrest⟩ := LengthPrefix.parse_eq_item hp
  have hlen := h.length_content
  have hflen := frameLen_drop_head h (by omega)
  have hbuf := h.length_buf
  have htail := h.tail_le
  have hlenv : env.length = LengthPrefix.announced d.content := by
    rw [henv, List.length_take, List.length_drop]
    omega
  refine ⟨?_, ?_, ⟨hbuf, ?_, htail⟩, ?_⟩
  · rw [pop]
    dsimp only
    rw [if_neg (by omega), hflen, if_neg (by omega), hlenv]
  · show (d.buf.drop (d.head + 4)).take env.length = env
    have hmin : min (LengthPrefix.announced d.content) (d.tail - d.head - 4)
        = LengthPrefix.announced d.content := by omega
    rw [hlenv, henv, content, List.drop_take, List.drop_drop, List.take_take, ← content, hmin]
  · show d.head + (4 + env.length) ≤ d.tail
    omega
  · show (d.buf.drop (d.head + (4 + env.length))).take (d.tail - (d.head + (4 + env.length))) = rest
    rw [hrest, ← hlenv, content, List.drop_take, List.drop_take, List.drop_drop, List.drop_drop]
    congr 1
    omega

/-- Everything one pop can do. -/
theorem pop_cases {d : Decoder} (h : d.Valid) :
    (d.pop = (none, d) ∧ LengthPrefix.parse d.content = .more) ∨
      ∃ env rest, LengthPrefix.parse d.content = .item env rest ∧
        d.pop = (some (d.head + 4, env.length), { d with head := d.head + (4 + env.length) }) := by
  match hp : LengthPrefix.parse d.content with
  | .more => exact .inl ⟨pop_of_more h hp, rfl⟩
  | .item env rest => exact .inr ⟨env, rest, rfl, (pop_of_item h hp).1⟩

/-- `while (aiomsg_decoder_pop(..))`: the envelopes, each read before the next push, and the decoder
afterwards. -/
def popAll (d : Decoder) : List Bytes × Decoder :=
  match _h : d.pop with
  | (some env, d') => (d.view env :: (popAll d').1, (popAll d').2)
  | (none, d') => ([], d')
termination_by d.tail - d.head
decreasing_by
  all_goals
    rw [pop] at _h
    dsimp only at _h
    split_ifs at _h
    · cases _h
    · cases _h
    · cases _h
      simp only
      omega

/-- **Popping to exhaustion** yields the splitter's items and keeps what the splitter leaves. -/
theorem popAll_eq {d : Decoder} (h : d.Valid) :
    d.popAll.1 = LengthPrefix.deframer.items d.content ∧
      d.popAll.2.content = LengthPrefix.deframer.leftover d.content ∧ d.popAll.2.Valid := by
  fun_induction popAll d with
  | case1 d env d' hpop ih =>
    rcases pop_cases h with ⟨hnone, -⟩ | ⟨body, rest, hp, hsome⟩
    · cases hnone.symm.trans hpop
    · obtain ⟨-, hview, hvalid, hcontent⟩ := pop_of_item h hp
      cases hsome.symm.trans hpop
      obtain ⟨hitems, hleft, hvalid'⟩ := ih hvalid
      refine ⟨?_, ?_, hvalid'⟩
      · rw [Deframer.items_of_item hp, hview, hitems, hcontent]
      · rw [Deframer.leftover_of_item hp, hleft, hcontent]
  | case2 d d' hpop =>
    rcases pop_cases h with ⟨hnone, hp⟩ | ⟨body, rest, hp, hsome⟩
    · cases hnone.symm.trans hpop
      exact ⟨(Deframer.items_of_more hp).symm, (Deframer.leftover_of_more hp).symm, h⟩
    · cases hsome.symm.trans hpop

/-- Pushing chunk after chunk appends them all. -/
theorem push_chunks {d : Decoder} (h : d.Valid) (chunks : List Bytes) :
    (chunks.foldl push d).Valid ∧ (chunks.foldl push d).content = d.content ++ chunks.flatten := by
  induction chunks generalizing d with
  | nil => exact ⟨h, (List.append_nil _).symm⟩
  | cons c chunks ih =>
    obtain ⟨hvalid, hcontent⟩ := ih (h.push c)
    exact ⟨hvalid, by rw [List.foldl_cons, hcontent, content_push h, List.flatten_cons,
      List.append_assoc]⟩

end Decoder

end CLib

end Aiomsg
