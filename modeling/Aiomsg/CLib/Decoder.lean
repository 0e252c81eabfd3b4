import Aiomsg.CLib.Protocol
import Aiomsg.Lib.Machine

/-!
# The decoder of `c-lib` on 64-bit sizes

`aiomsg_decoder_push` and `aiomsg_decoder_pop` once more, with positions of type `size_t` that wrap,
a growth loop that need not end, and an allocation that may fail. A push that fails may have slid
the unread bytes to the front before; it has not changed what they are.

As long as fewer than `2 ^ 62` bytes are pushed, no size wraps: the loop doubles a capacity only
while it is below the bytes that are to fit, so it ends below `2 ^ 63`. There every call does what
the decoder on natural numbers does, and its lemmas carry over.

## Scope

`realloc` is granted or refused call by call, and what is in the memory it adds is of no account.
The bound of `2 ^ 62` bytes is on all pushes together and is about the positions alone; a frame may
announce any length its prefix can hold.

## Main definitions

* `SizedDecoder`, `SizedDecoder.push`, `SizedDecoder.pop`
* `InUse`, `InUse.machine` — a decoder in use, and what it was given and has handed out

## Main results

* `SizedDecoder.growCap_eq_none`, `SizedDecoder.growCap_eq` — when the growth loop ends
* `SizedDecoder.push_spec`, `SizedDecoder.pop_of_item` — one call, on natural numbers
* `InUse.decoder_represents` — what holds of the decoder after any calls
-/

namespace Aiomsg

namespace CLib

open Protocol

/-- `aiomsg_decoder`, with `size_t` of 64 bits. `buf` is the memory from `buf` to `buf + cap`; its
length is `cap` wherever the decoder is used, which is part of the invariant and not of the type. -/
structure SizedDecoder where
  buf : Bytes
  head : UInt64
  tail : UInt64
  cap : UInt64

namespace SizedDecoder

def init : SizedDecoder where
  buf := []
  head := 0
  tail := 0
  cap := 0

/-- `if (d->head > 0)`: the unread bytes are slid to the front. -/
def compact (d : SizedDecoder) : SizedDecoder :=
  let used := d.tail - d.head
  if 0 < d.head then
    { d with
      buf := (d.buf.drop d.head.toNat).take used.toNat ++ d.buf.drop used.toNat
      head := 0
      tail := used }
  else d

/-- `while (cap - d->tail < n) cap *= 2`, for so many turns; `none` where it has not ended. -/
def growCap : ℕ → UInt64 → UInt64 → UInt64 → Option UInt64
  | 0, _, _, _ => none
  | turns + 1, tail, n, cap =>
    if cap - tail < n then growCap turns tail n (cap * 2) else some cap

/-- `realloc`. -/
def grown (d : SizedDecoder) (cap : UInt64) : SizedDecoder :=
  { d with buf := d.buf ++ List.replicate (cap.toNat - d.cap.toNat) 0, cap := cap }

/-- `memcpy(d->buf + d->tail, bytes, n); d->tail += n`. -/
def copyIn (d : SizedDecoder) (bytes : Bytes) : SizedDecoder :=
  { d with
    buf := d.buf.take d.tail.toNat ++ bytes ++ d.buf.drop (d.tail.toNat + bytes.length)
    tail := d.tail + UInt64.ofNat bytes.length }

/-- `aiomsg_decoder_push`: whether it returns 0, and the decoder; `none` if it does not return. An
allocation is `granted` or not. A capacity that has been doubled 64 times is 0 and stays 0, so that
a loop that has not ended by then does not end. -/
def push (granted : Bool) (d : SizedDecoder) (bytes : Bytes) : Option (Bool × SizedDecoder) :=
  let n := UInt64.ofNat bytes.length
  if d.cap - d.tail < n then
    let d := d.compact
    if d.cap - d.tail < n then
      match growCap 65 d.tail n (if d.cap = 0 then 4096 else d.cap) with
      | none => none
      | some cap => if granted then some (true, (d.grown cap).copyIn bytes) else some (false, d)
    else some (true, d.copyIn bytes)
  else some (true, d.copyIn bytes)

/-- The length in front of a frame. -/
def frameLen (p : Bytes) : UInt64 :=
  match p with
  | p₀ :: p₁ :: p₂ :: p₃ :: _ =>
    p₀.toUInt64 <<< 24 ||| p₁.toUInt64 <<< 16 ||| p₂.toUInt64 <<< 8 ||| p₃.toUInt64
  | _ => 0

/-- `aiomsg_decoder_pop`: where the envelope is, and how long. -/
def pop (d : SizedDecoder) : Option (UInt64 × UInt64) × SizedDecoder :=
  let avail := d.tail - d.head
  if avail < 4 then (none, d)
  else
    let flen := frameLen (d.buf.drop d.head.toNat)
    if avail < 4 + flen then (none, d)
    else (some (d.head + 4, flen), { d with head := d.head + (4 + flen) })

/-- The bytes that a pointer and a length denote. -/
def view (d : SizedDecoder) (env : UInt64 × UInt64) : Bytes :=
  (d.buf.drop env.1.toNat).take env.2.toNat

/-- `buf[head..tail)` -/
def content (d : SizedDecoder) : Bytes :=
  (d.buf.drop d.head.toNat).take (d.tail.toNat - d.head.toNat)

/-- The decoder on natural numbers. -/
def toDecoder (d : SizedDecoder) : Decoder where
  buf := d.buf
  head := d.head.toNat
  tail := d.tail.toNat
  cap := d.cap.toNat

/-! ### The growth loop -/

/-- A capacity that has been doubled so often. -/
def doubled (k : ℕ) (cap : UInt64) : UInt64 := (· * 2)^[k] cap

theorem doubled_succ (k : ℕ) (cap : UInt64) : doubled (k + 1) cap = doubled k (cap * 2) :=
  Function.iterate_succ_apply _ k cap

theorem toNat_doubled (k : ℕ) (cap : UInt64) :
    (doubled k cap).toNat = cap.toNat * 2 ^ k % 2 ^ 64 := by
  induction k generalizing cap with
  | zero =>
    rw [pow_zero, Nat.mul_one, Nat.mod_eq_of_lt cap.toNat_lt]
    rfl
  | succ k ih =>
    rw [doubled_succ, ih, UInt64.toNat_mul, Nat.mod_mul_mod, pow_succ' 2 k, ← Nat.mul_assoc]
    rfl

theorem doubled_of_le {k : ℕ} (h : 64 ≤ k) (cap : UInt64) : doubled k cap = 0 := by
  have hpow : cap.toNat * 2 ^ k = cap.toNat * 2 ^ (k - 64) * 2 ^ 64 := by
    rw [Nat.mul_assoc, ← pow_add, Nat.sub_add_cancel h]
  apply UInt64.toNat_inj.mp
  rw [toNat_doubled, hpow, Nat.mul_mod_left]
  rfl

/-- Turns after turns that did not end it. -/
theorem growCap_add {k : ℕ} {tail n cap : UInt64} (h : growCap k tail n cap = none) (m : ℕ) :
    growCap (k + m) tail n cap = growCap m tail n (doubled k cap) := by
  induction k generalizing cap with
  | zero =>
    rw [Nat.zero_add]
    rfl
  | succ k ih =>
    rw [growCap] at h
    split_ifs at h with hshort
    rw [Nat.add_right_comm, growCap, if_pos hshort, ih h, doubled_succ]

theorem growCap_eq_none_of_le {k m : ℕ} {tail n cap : UInt64} (h : growCap m tail n cap = none)
    (hle : k ≤ m) : growCap k tail n cap = none := by
  induction k generalizing m cap with
  | zero => rfl
  | succ k ih =>
    obtain ⟨m, rfl⟩ := Nat.exists_eq_add_of_le hle
    rw [Nat.add_right_comm, growCap] at h
    split_ifs at h with hshort
    rw [growCap, if_pos hshort]
    exact ih h (Nat.le_add_right k m)

/-- **A loop that has not ended after 65 turns does not end.** -/
theorem growCap_eq_none {tail n cap : UInt64} (h : growCap 65 tail n cap = none) (turns : ℕ) :
    growCap turns tail n cap = none := by
  have hlast : growCap 1 tail n 0 = none := by
    rw [← doubled_of_le (Nat.le_refl 64) cap, ← growCap_add (growCap_eq_none_of_le h (by decide)) 1]
    exact h
  have hzero : ∀ turns, growCap turns tail n 0 = none := by
    intro turns
    induction turns with
    | zero => rfl
    | succ turns ih =>
      rw [growCap] at hlast ⊢
      split_ifs at hlast with hshort
      rw [if_pos hshort]
      exact ih
  rcases Nat.le_total turns 65 with hle | hle
  · exact growCap_eq_none_of_le h hle
  · obtain ⟨m, rfl⟩ := Nat.exists_eq_add_of_le hle
    rw [growCap_add h, doubled_of_le (by decide)]
    exact hzero m

/-! ### Sizes that do not wrap -/

/-- The positions are in order, and the array is one that the growth loop can have come to. -/
structure Sound (d : SizedDecoder) : Prop where
  valid : d.toDecoder.Valid
  cap_lt : d.cap.toNat < 2 ^ 63

theorem sound_init : Sound init := ⟨Decoder.valid_init, by decide⟩

theorem Sound.toNat_used {d : SizedDecoder} (h : d.Sound) :
    (d.tail - d.head).toNat = d.tail.toNat - d.head.toNat :=
  UInt64.toNat_sub_of_le _ _ (UInt64.le_iff_toNat_le.mpr h.valid.head_le)

theorem Sound.toNat_room {d : SizedDecoder} (h : d.Sound) :
    (d.cap - d.tail).toNat = d.cap.toNat - d.tail.toNat :=
  UInt64.toNat_sub_of_le _ _ (UInt64.le_iff_toNat_le.mpr h.valid.tail_le)

theorem toDecoder_compact {d : SizedDecoder} (h : d.Sound) :
    d.compact.toDecoder = d.toDecoder.compact := by
  rw [compact, Decoder.compact]
  by_cases hhead : 0 < d.head
  · have hpos : 0 < d.toDecoder.head := UInt64.lt_iff_toNat_lt.mp hhead
    rw [if_pos hhead, if_pos hpos, toDecoder, h.toNat_used]
    rfl
  · have hzero : ¬ 0 < d.toDecoder.head := fun hpos => hhead (UInt64.lt_iff_toNat_lt.mpr hpos)
    rw [if_neg hhead, if_neg hzero]

theorem Sound.compact {d : SizedDecoder} (h : d.Sound) : d.compact.Sound := by
  refine ⟨toDecoder_compact h ▸ h.valid.compact, ?_⟩
  rw [SizedDecoder.compact]
  split_ifs
  · exact h.cap_lt
  · exact h.cap_lt

/-- **The growth loop ends**, and no doubling wraps. -/
theorem growCap_eq {tail n cap : UInt64} {turns : ℕ} (hpos : 0 < cap.toNat)
    (htail : tail.toNat ≤ cap.toNat) (hcap : cap.toNat < 2 ^ 63)
    (hfits : tail.toNat + n.toNat < 2 ^ 62) (hturns : 2 ^ 62 ≤ cap.toNat * 2 ^ turns) :
    ∃ cap' : UInt64, growCap (turns + 1) tail n cap = some cap' ∧
      cap'.toNat = Decoder.growCap tail.toNat n.toNat cap.toNat ∧ cap'.toNat < 2 ^ 63 := by
  induction turns generalizing cap with
  | zero =>
    have hroom : ¬ cap - tail < n := by
      rw [UInt64.lt_iff_toNat_lt, UInt64.toNat_sub_of_le _ _ (UInt64.le_iff_toNat_le.mpr htail)]
      omega
    refine ⟨cap, ?_, ?_, hcap⟩
    · rw [growCap, if_neg hroom]
    · rw [Decoder.growCap, dif_neg (by omega)]
  | succ turns ih =>
    have hiff : cap - tail < n ↔ cap.toNat - tail.toNat < n.toNat := by
      rw [UInt64.lt_iff_toNat_lt, UInt64.toNat_sub_of_le _ _ (UInt64.le_iff_toNat_le.mpr htail)]
    by_cases hshort : cap - tail < n
    · have hless := hiff.mp hshort
      have hdouble : (cap * 2).toNat = cap.toNat * 2 := by
        rw [UInt64.toNat_mul]
        exact Nat.mod_eq_of_lt (by show cap.toNat * 2 < 2 ^ 64; omega)
      rw [growCap, if_pos hshort, Decoder.growCap, dif_pos ⟨hless, hpos⟩, ← hdouble]
      refine ih ?_ ?_ ?_ ?_
      · omega
      · omega
      · omega
      · rw [hdouble, Nat.mul_assoc, ← pow_succ']
        exact hturns
    · refine ⟨cap, ?_, ?_, hcap⟩
      · rw [growCap, if_neg hshort]
      · rw [Decoder.growCap, dif_neg (fun h => hshort (hiff.mpr h.1))]

/-! ### One call -/

/-- The bytes are copied in behind `tail`, if there is room. -/
theorem toDecoder_copyIn {d : SizedDecoder} (h : d.Sound) {bytes : Bytes}
    (hroom : bytes.length ≤ d.cap.toNat - d.tail.toNat) :
    (d.copyIn bytes).toDecoder = d.toDecoder.copyIn bytes ∧ (d.copyIn bytes).Sound := by
  have hcap := h.cap_lt
  have htail : d.tail.toNat ≤ d.cap.toNat := h.valid.tail_le
  have hnat : (d.tail + UInt64.ofNat bytes.length).toNat = d.tail.toNat + bytes.length := by
    rw [UInt64.toNat_add, UInt64.toNat_ofNat', Nat.mod_eq_of_lt (by omega : bytes.length < 2 ^ 64)]
    exact Nat.mod_eq_of_lt (by omega)
  have heq : (d.copyIn bytes).toDecoder = d.toDecoder.copyIn bytes := by
    rw [toDecoder, copyIn, hnat]
    rfl
  exact ⟨heq, ⟨heq ▸ h.valid.copyIn hroom, hcap⟩⟩

theorem toDecoder_grown {d : SizedDecoder} (h : d.Sound) {n : ℕ} {cap : UInt64}
    (hcap : cap.toNat = Decoder.growCap d.tail.toNat n (if d.cap.toNat = 0 then 4096
      else d.cap.toNat)) (hlt : cap.toNat < 2 ^ 63) :
    (d.grown cap).toDecoder = d.toDecoder.grow n ∧ (d.grown cap).Sound := by
  have heq : (d.grown cap).toDecoder = d.toDecoder.grow n := by
    rw [toDecoder, grown, Decoder.grow]
    simp only [hcap]
    rfl
  exact ⟨heq, ⟨heq ▸ h.valid.grow n, hlt⟩⟩

/-- The test for room, on natural numbers. -/
theorem Sound.short_iff {d : SizedDecoder} (h : d.Sound) {n : ℕ} (hn : n < 2 ^ 64) :
    d.cap - d.tail < UInt64.ofNat n ↔ d.toDecoder.cap - d.toDecoder.tail < n := by
  rw [UInt64.lt_iff_toNat_lt, h.toNat_room, UInt64.toNat_ofNat_of_lt' hn]
  rfl

/-- Behind the slide there are only unread bytes. -/
theorem Sound.tail_compact {d : SizedDecoder} (h : d.Sound) :
    d.compact.tail.toNat = d.toDecoder.content.length := by
  rw [h.valid.length_content, SizedDecoder.compact]
  split_ifs with hhead
  · exact h.toNat_used
  · have hzero : ¬ 0 < d.head.toNat := fun hpos => hhead (UInt64.lt_iff_toNat_lt.mpr hpos)
    show d.tail.toNat = d.tail.toNat - d.head.toNat
    omega

/-- The growth loop of a push. -/
theorem Sound.growCap_push {d : SizedDecoder} (h : d.Sound) {n : ℕ}
    (hfits : d.tail.toNat + n < 2 ^ 62) :
    ∃ cap : UInt64, growCap 65 d.tail (UInt64.ofNat n) (if d.cap = 0 then 4096 else d.cap) =
        some cap ∧
      cap.toNat = Decoder.growCap d.tail.toNat n (if d.cap.toNat = 0 then 4096 else d.cap.toNat) ∧
      cap.toNat < 2 ^ 63 := by
  have hcap := h.cap_lt
  have htail : d.tail.toNat ≤ d.cap.toNat := h.valid.tail_le
  have hn : (UInt64.ofNat n).toNat = n :=
    UInt64.toNat_ofNat_of_lt' (by show n < 2 ^ 64; omega)
  have hnat : (if d.cap = 0 then 4096 else d.cap).toNat =
      if d.cap.toNat = 0 then 4096 else d.cap.toNat := by
    rw [← UInt64.toNat_zero, apply_ite UInt64.toNat]
    exact if_congr UInt64.toNat_inj.symm rfl rfl
  have hbounds : 0 < (if d.cap.toNat = 0 then 4096 else d.cap.toNat) ∧
      d.tail.toNat ≤ (if d.cap.toNat = 0 then 4096 else d.cap.toNat) ∧
      (if d.cap.toNat = 0 then 4096 else d.cap.toNat) < 2 ^ 63 ∧
      2 ^ 62 ≤ (if d.cap.toNat = 0 then 4096 else d.cap.toNat) * 2 ^ 64 := by
    split_ifs <;> omega
  rw [← hnat] at hbounds
  obtain ⟨hpos, hle, hlt, hturns⟩ := hbounds
  have hgrow := growCap_eq (n := UInt64.ofNat n) hpos hle hlt (by rwa [hn]) hturns
  rwa [hnat, hn] at hgrow

theorem cap_compact (d : SizedDecoder) : d.compact.cap = d.cap := by
  rw [compact]
  split_ifs
  · rfl
  · rfl

/-- **What a push does**: it returns, and has appended the bytes or, if an allocation was needed and
not granted, only slid the unread ones. -/
theorem push_spec {d : SizedDecoder} (h : d.Sound) {bytes : Bytes}
    (hfits : d.toDecoder.content.length + bytes.length < 2 ^ 62) (granted : Bool) :
    (∃ d', d.push granted bytes = some (true, d') ∧ d'.toDecoder = d.toDecoder.push bytes ∧
      d'.Sound) ∨
    (granted = false ∧ d.cap.toNat < d.toDecoder.content.length + bytes.length ∧
      d.push granted bytes = some (false, d.compact)) := by
  have hlt : bytes.length < 2 ^ 64 := by omega
  have hc := h.compact
  have hcompact := toDecoder_compact h
  rw [push]
  dsimp only
  by_cases hfirst : d.cap - d.tail < UInt64.ofNat bytes.length
  · have hshort : d.toDecoder.cap - d.toDecoder.tail < bytes.length := (h.short_iff hlt).mp hfirst
    rw [if_pos hfirst]
    by_cases hsecond : d.compact.cap - d.compact.tail < UInt64.ofNat bytes.length
    · have hshort' := (hc.short_iff hlt).mp hsecond
      obtain ⟨cap, hgrow, hcap, hcaplt⟩ :=
        hc.growCap_push (n := bytes.length) (by rw [h.tail_compact]; exact hfits)
      rw [if_pos hsecond, hgrow]
      dsimp only
      cases granted with
      | false =>
        have hneeds : d.compact.cap.toNat - d.compact.tail.toNat < bytes.length := hshort'
        rw [cap_compact, h.tail_compact] at hneeds
        exact .inr ⟨rfl, by omega, if_neg Bool.false_ne_true⟩
      | true =>
        obtain ⟨hgrown, hsound⟩ := toDecoder_grown hc hcap hcaplt
        have hmake : d.toDecoder.makeRoom bytes.length = (d.compact.grown cap).toDecoder := by
          rw [Decoder.makeRoom, if_pos hshort, ← hcompact, if_pos hshort', hgrown]
        have hroom := (Decoder.makeRoom_spec h.valid bytes.length).2.2
        rw [hmake] at hroom
        obtain ⟨heq, hsound'⟩ := toDecoder_copyIn hsound hroom
        refine .inl ⟨(d.compact.grown cap).copyIn bytes, if_pos rfl, ?_, hsound'⟩
        rw [heq, Decoder.push, hmake]
    · have hroom : ¬ d.compact.toDecoder.cap - d.compact.toDecoder.tail < bytes.length :=
        fun hshort' => hsecond ((hc.short_iff hlt).mpr hshort')
      obtain ⟨heq, hsound⟩ := toDecoder_copyIn hc (Nat.le_of_not_lt hroom)
      refine .inl ⟨d.compact.copyIn bytes, if_neg hsecond, ?_, hsound⟩
      rw [heq, Decoder.push, Decoder.makeRoom, if_pos hshort, ← hcompact, if_neg hroom]
  · have hroom : ¬ d.toDecoder.cap - d.toDecoder.tail < bytes.length :=
      fun hshort => hfirst ((h.short_iff hlt).mpr hshort)
    obtain ⟨heq, hsound⟩ := toDecoder_copyIn h (Nat.le_of_not_lt hroom)
    refine .inl ⟨d.copyIn bytes, if_neg hfirst, ?_, hsound⟩
    rw [heq, Decoder.push, Decoder.makeRoom, if_neg hroom]

/-- A byte at its place in a length. -/
theorem toNat_shifted (x : UInt8) {k : UInt64} (hk : k.toNat ≤ 24) :
    (x.toUInt64 <<< k).toNat = x.toNat <<< k.toNat := by
  have hx : x.toNat < 2 ^ 8 := x.toNat_lt
  have hlt : x.toNat * 2 ^ k.toNat < 2 ^ 64 := calc
    x.toNat * 2 ^ k.toNat ≤ x.toNat * 2 ^ 24 :=
      Nat.mul_le_mul_left _ (Nat.pow_le_pow_right (by decide) hk)
    _ < 2 ^ 64 := by omega
  rw [UInt64.toNat_shiftLeft, UInt8.toNat_toUInt64, Nat.mod_eq_of_lt (by omega : k.toNat < 64),
    Nat.shiftLeft_eq, Nat.mod_eq_of_lt hlt]

theorem toNat_frameLen (p : Bytes) : (frameLen p).toNat = Decoder.frameLen p := by
  rcases p with _ | ⟨p₀, _ | ⟨p₁, _ | ⟨p₂, _ | ⟨p₃, rest⟩⟩⟩⟩
  · rfl
  · rfl
  · rfl
  · rfl
  · rw [frameLen, Decoder.frameLen, UInt64.toNat_or, UInt64.toNat_or, UInt64.toNat_or,
      toNat_shifted p₀ (by decide), toNat_shifted p₁ (by decide), toNat_shifted p₂ (by decide),
      UInt8.toNat_toUInt64]
    rfl

/-- The size of a frame. -/
theorem toNat_four_add {x : UInt64} (hx : x.toNat < 2 ^ 32) : (4 + x).toNat = 4 + x.toNat := by
  rw [UInt64.toNat_add]
  exact Nat.mod_eq_of_lt (by show 4 + x.toNat < 2 ^ 64; omega)

theorem Sound.toNat_frameLen {d : SizedDecoder} (h : d.Sound) (h4 : 4 ≤ (d.tail - d.head).toNat) :
    (frameLen (d.buf.drop d.head.toNat)).toNat = LengthPrefix.announced d.toDecoder.content := by
  rw [h.toNat_used] at h4
  rw [SizedDecoder.toNat_frameLen]
  exact Decoder.frameLen_drop_head h.valid h4

/-- **An incomplete frame is left alone.** -/
theorem pop_of_more {d : SizedDecoder} (h : d.Sound)
    (hp : LengthPrefix.parse d.toDecoder.content = .more) : d.pop = (none, d) := by
  rw [LengthPrefix.parse_eq_more_iff, h.valid.length_content] at hp
  have hused : (d.tail - d.head).toNat = d.toDecoder.tail - d.toDecoder.head := h.toNat_used
  rw [pop]
  dsimp only
  split_ifs with h₁ h₂
  · rfl
  · rfl
  · rw [UInt64.lt_iff_toNat_lt] at h₁ h₂
    have h4 : 4 ≤ (d.tail - d.head).toNat := Nat.le_of_not_lt h₁
    have hflen := h.toNat_frameLen h4
    have hsmall := LengthPrefix.announced_lt d.toDecoder.content
    rw [toNat_four_add (by omega), hflen] at h₂
    omega

/-- **A complete frame is pointed at** where it lies. -/
theorem pop_of_item {d : SizedDecoder} (h : d.Sound) {env rest : Bytes}
    (hp : LengthPrefix.parse d.toDecoder.content = .item env rest) :
    ∃ e d', d.pop = (some e, d') ∧ d'.Sound ∧ d'.toDecoder.content = rest ∧ d'.buf = d.buf ∧
      d'.view e = env ∧ d.head.toNat ≤ d'.head.toNat ∧ e.1.toNat + e.2.toNat = d'.head.toNat := by
  obtain ⟨-, hview, hvalid, hcontent⟩ := Decoder.pop_of_item h.valid hp
  obtain ⟨hle, henv, -⟩ := LengthPrefix.parse_eq_item hp
  have hlen := h.valid.length_content
  have hused : (d.tail - d.head).toNat = d.toDecoder.tail - d.toDecoder.head := h.toNat_used
  have hsmall := LengthPrefix.announced_lt d.toDecoder.content
  have hcap := h.cap_lt
  have htail : d.tail.toNat ≤ d.cap.toNat := h.valid.tail_le
  have hfour : 4 ≤ (d.tail - d.head).toNat := by omega
  have hhead : d.toDecoder.head = d.head.toNat := rfl
  have hend : d.toDecoder.tail = d.tail.toNat := rfl
  generalize hf : frameLen (d.buf.drop d.head.toNat) = flen
  have hflen : flen.toNat = LengthPrefix.announced d.toDecoder.content :=
    hf ▸ h.toNat_frameLen hfour
  have hneed := toNat_four_add (by omega : flen.toNat < 2 ^ 32)
  have hlenv : env.length = flen.toNat := by
    rw [henv, List.length_take, List.length_drop, hflen]
    omega
  have hstart : (d.head + 4).toNat = d.head.toNat + 4 := by
    rw [UInt64.toNat_add]
    exact Nat.mod_eq_of_lt (by show d.head.toNat + 4 < 2 ^ 64; omega)
  have hnext : (d.head + (4 + flen)).toNat = d.head.toNat + (4 + env.length) := by
    rw [UInt64.toNat_add, hneed, hlenv]
    exact Nat.mod_eq_of_lt (by omega)
  have hto : toDecoder { d with head := d.head + (4 + flen) } =
      { d.toDecoder with head := d.toDecoder.head + (4 + env.length) } := by
    rw [toDecoder, hnext]
    rfl
  refine ⟨(d.head + 4, flen), { d with head := d.head + (4 + flen) }, ?_, ⟨hto ▸ hvalid, hcap⟩,
    hto ▸ hcontent, rfl, ?_, ?_, ?_⟩
  · have hsome₁ : ¬ d.tail - d.head < 4 := fun hlt => by
      rw [UInt64.lt_iff_toNat_lt] at hlt
      exact Nat.not_lt.mpr hfour hlt
    have hsome₂ : ¬ d.tail - d.head < 4 + flen := fun hlt => by
      rw [UInt64.lt_iff_toNat_lt, hneed, hflen] at hlt
      omega
    rw [pop]
    dsimp only
    rw [if_neg hsome₁, hf, if_neg hsome₂]
  · show (d.buf.drop (d.head + 4).toNat).take flen.toNat = env
    rw [hstart, ← hlenv]
    exact hview
  · show d.head.toNat ≤ (d.head + (4 + flen)).toNat
    omega
  · show (d.head + 4).toNat + flen.toNat = (d.head + (4 + flen)).toNat
    omega

/-- A push that fails has done no more than slide the unread bytes. -/
theorem eq_compact_of_push {d d' : SizedDecoder} {granted : Bool} {bytes : Bytes}
    (h : d.push granted bytes = some (false, d')) : d' = d.compact := by
  rw [push] at h
  dsimp only at h
  split at h
  · split at h
    · split at h
      · cases h
      · cases granted with
        | false => exact (Prod.mk.inj (Option.some.inj h)).2.symm
        | true => cases h
    · cases h
  · cases h

theorem Sound.content_compact {d : SizedDecoder} (h : d.Sound) : d.compact.content = d.content :=
  (congrArg Decoder.content (toDecoder_compact h)).trans (Decoder.content_compact h.valid)

end SizedDecoder

/-! ### A decoder in use -/

/-- A decoder, with the bytes that pushes have taken, the envelopes as they were when they were
popped, and the pointers handed out since the last push. -/
structure InUse where
  decoder : SizedDecoder
  pushed : Bytes
  popped : List Bytes
  held : List (UInt64 × UInt64)

namespace InUse

/-- A call. The allocation of a push may fail. -/
inductive Op where
  | push (granted : Bool) (bytes : Bytes)
  | pop

/-- The bytes a call is to add. -/
def Op.bytes : Op → Bytes
  | .push _ bytes => bytes
  | .pop => []

def Op.size (op : Op) : ℕ := op.bytes.length

/-- The call is not refused an allocation. -/
def Op.granted : Op → Bool
  | .push granted _ => granted
  | .pop => true

/-- `aiomsg_decoder_init` -/
def start : InUse where
  decoder := SizedDecoder.init
  pushed := []
  popped := []
  held := []

def push (u : InUse) (granted : Bool) (bytes : Bytes) : Option InUse :=
  match u.decoder.push granted bytes with
  | none => none
  | some (true, d) => some { u with decoder := d, pushed := u.pushed ++ bytes, held := [] }
  | some (false, d) => some { u with decoder := d, held := [] }

def pop (u : InUse) : InUse :=
  match u.decoder.pop with
  | (none, d) => { u with decoder := d }
  | (some env, d) =>
    { u with decoder := d, popped := u.popped ++ [d.view env], held := u.held ++ [env] }

/-- A push that does not return is not a step. -/
def machine : Machine InUse Op where
  step u
    | .push granted bytes => u.push granted bytes
    | .pop => some u.pop

/-- What a decoder represents. -/
structure Represents (u : InUse) : Prop where
  head_le : u.decoder.head ≤ u.decoder.tail
  tail_le : u.decoder.tail ≤ u.decoder.cap
  length_buf : u.decoder.buf.length = u.decoder.cap.toNat
  /-- The bytes from `head` to `tail` are those pushed and not popped. -/
  pushed_eq : u.pushed = (u.popped.map LengthPrefix.frame).flatten ++ u.decoder.content
  /-- The popped envelopes are the first of the stream. -/
  items_eq : LengthPrefix.deframer.items u.pushed =
    u.popped ++ LengthPrefix.deframer.items u.decoder.content
  /-- A pop finds the next one, if it is complete. -/
  pop_eq : u.pop.popped =
    u.popped ++ (LengthPrefix.deframer.items u.decoder.content).head?.toList
  /-- What has been handed out since the last push reads as it did. -/
  held_suffix : u.held.map u.decoder.view <:+ u.popped
  held_le : ∀ env ∈ u.held, env.1.toNat + env.2.toNat ≤ u.decoder.head.toNat
  /-- A push whose allocation is granted, or not needed, appends its bytes. -/
  stored : ∀ granted bytes, u.decoder.content.length + bytes.length < 2 ^ 62 →
    granted = true ∨ u.decoder.content.length + bytes.length ≤ u.decoder.cap.toNat →
    ∃ d', u.decoder.push granted bytes = some (true, d') ∧ d'.content = u.decoder.content ++ bytes
  /-- A push that fails leaves the bytes that are there. -/
  failed : ∀ granted bytes d', u.decoder.push granted bytes = some (false, d') →
    d'.content = u.decoder.content

/-- What the calls keep. -/
structure Kept (u : InUse) : Prop where
  sound : u.decoder.Sound
  pushed_eq : u.pushed = (u.popped.map LengthPrefix.frame).flatten ++ u.decoder.content
  popped_lt : ∀ env ∈ u.popped, env.length < 2 ^ 32
  held_suffix : u.held.map u.decoder.view <:+ u.popped
  held_le : ∀ env ∈ u.held, env.1.toNat + env.2.toNat ≤ u.decoder.head.toNat

theorem kept_start : start.Kept where
  sound := SizedDecoder.sound_init
  pushed_eq := rfl
  popped_lt := fun _ hmem => absurd hmem List.not_mem_nil
  held_suffix := List.nil_suffix
  held_le := fun _ hmem => absurd hmem List.not_mem_nil

/-- **A push returns.** -/
theorem Kept.push {u : InUse} (h : u.Kept) (granted : Bool) {bytes : Bytes}
    (hfits : u.decoder.content.length + bytes.length < 2 ^ 62) :
    ∃ v, u.push granted bytes = some v ∧ v.Kept ∧
      v.decoder.content.length ≤ u.decoder.content.length + bytes.length ∧
      (granted = true → v.pushed = u.pushed ++ bytes) := by
  rcases SizedDecoder.push_spec h.sound hfits granted with
    ⟨d, hpush, hto, hsound⟩ | ⟨rfl, -, hpush⟩
  · have hcontent : d.content = u.decoder.content ++ bytes :=
      (congrArg Decoder.content hto).trans (Decoder.content_push h.sound.valid bytes)
    refine ⟨{ u with decoder := d, pushed := u.pushed ++ bytes, held := [] }, ?_, ?_, ?_,
      fun _ => rfl⟩
    · rw [InUse.push, hpush]
    · refine ⟨hsound, ?_, h.popped_lt, List.nil_suffix, fun _ hmem => absurd hmem List.not_mem_nil⟩
      show u.pushed ++ bytes = _
      rw [h.pushed_eq, hcontent, List.append_assoc]
    · show d.content.length ≤ _
      rw [hcontent, List.length_append]
  · have hcontent := h.sound.content_compact
    refine ⟨{ u with decoder := u.decoder.compact, held := [] }, ?_, ?_, ?_, nofun⟩
    · rw [InUse.push, hpush]
    · refine ⟨h.sound.compact, ?_, h.popped_lt, List.nil_suffix,
        fun _ hmem => absurd hmem List.not_mem_nil⟩
      exact h.pushed_eq.trans (congrArg _ hcontent.symm)
    · show u.decoder.compact.content.length ≤ _
      rw [hcontent]
      exact Nat.le_add_right _ _

/-- **A pop** takes the next envelope, if it is complete. -/
theorem Kept.pop {u : InUse} (h : u.Kept) :
    u.pop.Kept ∧ u.pop.decoder.content.length ≤ u.decoder.content.length ∧
      u.pop.popped = u.popped ++ (LengthPrefix.deframer.items u.decoder.content).head?.toList := by
  match hp : LengthPrefix.parse u.decoder.content with
  | .more =>
    have hpop : u.pop = u := by
      rw [InUse.pop, SizedDecoder.pop_of_more h.sound hp]
    rw [hpop, Deframer.items_of_more hp]
    exact ⟨h, Nat.le_refl _, (List.append_nil _).symm⟩
  | .item env rest =>
    obtain ⟨e, d, hpop, hsound, hcontent, hbuf, hview, hle, hend⟩ :=
      SizedDecoder.pop_of_item h.sound hp
    obtain ⟨happend, hlt⟩ := LengthPrefix.eq_frame_append_of_item hp
    have hu : u.pop = ⟨d, u.pushed, u.popped ++ [env], u.held ++ [e]⟩ := by
      rw [InUse.pop, hpop, ← hview]
    rw [hu, Deframer.items_of_item hp]
    refine ⟨⟨hsound, ?_, ?_, ?_, ?_⟩, ?_, rfl⟩
    · show u.pushed = ((u.popped ++ [env]).map LengthPrefix.frame).flatten ++ d.content
      have hrest : d.content = rest := hcontent
      rw [h.pushed_eq, hrest, List.map_append, List.flatten_append, List.append_assoc]
      exact congrArg _ (happend.trans (congrArg (· ++ rest) (List.append_nil _).symm))
    · intro body hmem
      rcases List.mem_append.mp hmem with hmem | hmem
      · exact h.popped_lt body hmem
      · exact List.mem_singleton.mp hmem ▸ hlt
    · have hsame : d.view = u.decoder.view := by
        funext e
        rw [SizedDecoder.view, SizedDecoder.view, hbuf]
      obtain ⟨before, hbefore⟩ := h.held_suffix
      refine ⟨before, ?_⟩
      show before ++ (u.held ++ [e]).map d.view = u.popped ++ [env]
      rw [List.map_append, List.map_singleton, hview, hsame, ← List.append_assoc, hbefore]
    · intro e' hmem
      rcases List.mem_append.mp hmem with hmem | hmem
      · exact Nat.le_trans (h.held_le e' hmem) hle
      · rw [List.mem_singleton.mp hmem]
        exact Nat.le_of_eq hend
    · show d.toDecoder.content.length ≤ u.decoder.content.length
      rw [hcontent, happend, List.length_append]
      exact Nat.le_add_left _ _

@[simp] theorem pushed_pop (u : InUse) : u.pop.pushed = u.pushed := by
  rw [pop]
  split <;> rfl

theorem Kept.represents {u : InUse} (h : u.Kept) : u.Represents where
  head_le := UInt64.le_iff_toNat_le.mpr h.sound.valid.head_le
  tail_le := UInt64.le_iff_toNat_le.mpr h.sound.valid.tail_le
  length_buf := h.sound.valid.length_buf
  pushed_eq := h.pushed_eq
  items_eq := by rw [h.pushed_eq, LengthPrefix.items_frames_append h.popped_lt]
  pop_eq := h.pop.2.2
  held_suffix := h.held_suffix
  held_le := h.held_le
  stored := by
    intro granted bytes hfits hroom
    rcases SizedDecoder.push_spec h.sound hfits granted with
      ⟨d, hpush, hto, -⟩ | ⟨hrefused, hneeds, -⟩
    · exact ⟨d, hpush, (congrArg Decoder.content hto).trans
        (Decoder.content_push h.sound.valid bytes)⟩
    · rcases hroom with hgranted | hroom
      · exact absurd (hgranted.symm.trans hrefused) (by simp)
      · exact absurd hroom (Nat.not_le.mpr hneeds)
  failed := by
    rintro granted bytes d' hpush
    rw [SizedDecoder.eq_compact_of_push hpush, h.sound.content_compact]

/-- **The run lemma**: all calls return, and keep what they are to keep. Those that are refused no
allocation add their bytes. -/
theorem Kept.run {u : InUse} (h : u.Kept) {ops : List Op}
    (hfits : u.decoder.content.length + (ops.map Op.size).sum < 2 ^ 62) :
    ∃ v, machine.run u ops = some v ∧ v.Kept ∧
      ((∀ op ∈ ops, op.granted = true) → v.pushed = u.pushed ++ (ops.map Op.bytes).flatten) := by
  induction ops generalizing u with
  | nil => exact ⟨u, rfl, h, fun _ => (List.append_nil _).symm⟩
  | cons op ops ih =>
    rw [List.map_cons, List.sum_cons] at hfits
    cases op with
    | push granted bytes =>
      rw [Op.size, Op.bytes] at hfits
      have hroom : u.decoder.content.length + bytes.length < 2 ^ 62 := by omega
      obtain ⟨v, hstep, hv, hle, hadds⟩ := h.push granted hroom
      obtain ⟨w, hrun, hw, hlater⟩ := ih hv (by omega)
      refine ⟨w, Machine.run_cons_of_step hstep hrun, hw, fun hgranted => ?_⟩
      rw [hlater fun op hop => hgranted op (List.mem_cons_of_mem _ hop),
        hadds (hgranted _ List.mem_cons_self), List.append_assoc]
      rfl
    | pop =>
      obtain ⟨hv, hle, -⟩ := h.pop
      rw [Op.size, Op.bytes] at hfits
      obtain ⟨w, hrun, hw, hlater⟩ := ih hv (by omega)
      refine ⟨w, Machine.run_cons_of_step rfl hrun, hw, fun hgranted => ?_⟩
      rw [hlater fun op hop => hgranted op (List.mem_cons_of_mem _ hop), pushed_pop]
      rfl

/-- **The decoder represents the bytes that were pushed and not popped**, after any calls that push
fewer than `2 ^ 62` bytes. All of them return, and if no allocation fails what was pushed is all
that they were given. -/
theorem decoder_represents {ops : List Op} (hfits : (ops.map Op.size).sum < 2 ^ 62) :
    ∃ u, machine.run start ops = some u ∧ u.Represents ∧
      ((∀ op ∈ ops, op.granted = true) → u.pushed = (ops.map Op.bytes).flatten) := by
  have hstart : start.decoder.content.length + (ops.map Op.size).sum < 2 ^ 62 := by
    show 0 + (ops.map Op.size).sum < 2 ^ 62
    omega
  obtain ⟨u, hrun, hu, hpushed⟩ := kept_start.run hstart
  exact ⟨u, hrun, hu.represents, hpushed⟩

/-- A frame in two pieces, and once more behind a push whose allocation fails. -/
theorem decoder_represents_split :
    ∃ u v, machine.run start [.push true [0, 0, 0, 2, 7], .pop, .push true [8]] = some u ∧
      u.Represents ∧ u.pushed = [0, 0, 0, 2, 7, 8] ∧
      machine.run start [.push false [9], .push true [0, 0, 0, 2, 7], .pop, .push true [8], .pop]
        = some v ∧ v.Represents := by
  have hsplit : (List.map Op.size
      [.push true [0, 0, 0, 2, 7], .pop, .push true [8]]).sum < 2 ^ 62 := by decide
  have hrefused : (List.map Op.size [.push false [9], .push true [0, 0, 0, 2, 7], .pop,
      .push true [8], .pop]).sum < 2 ^ 62 := by decide
  obtain ⟨u, hu, hrep, hpushed⟩ := decoder_represents hsplit
  obtain ⟨v, hv, hrep', -⟩ := decoder_represents hrefused
  exact ⟨u, v, hu, hrep, hpushed (by simp [Op.granted]), hv, hrep'⟩

end InUse

end CLib

end Aiomsg
