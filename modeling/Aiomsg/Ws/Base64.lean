import Aiomsg.Ws.Accept
import Mathlib.Algebra.Order.Floor.Div
import Mathlib.Data.FinEnum
import Mathlib.Data.Fintype.Basic
import Mathlib.Data.Nat.Digits.Lemmas

/-!
# Base64 as a change of base

`base64_encode` writes the number that a byte string is, with two or four zero bits behind it where
they are needed, in base 64; `base64_decode` reads a number in base 64 and gives its whole bytes.
Its accumulator has 32 bits and drops the others, but no more than the last fourteen are looked at.

So the decoder does not look at the padding, nor at the bits that are left over. A key that it gives
sixteen bytes for has 22 digits, and it is what the encoder makes of these bytes if the last digit
has four zero bits at its end and two padding characters follow.

## Scope

Characters outside of the alphabet make the decoder fail, and nothing more is said of them. Keys are
of any length here; a request asks for the ones that give sixteen bytes.

## Main results

* `base64Digits_eq` — what the decoder computes
* `exists_encodes` — what the encoder computes
* `base64Digits_eq_wideDigits` — the bits that are dropped are not needed
* `base64Decode_base64Encode` — the decoder undoes the encoder
* `base64Encode_eq_iff` — the keys that are encodings
* `parseUpgrade_canonical_iff`
-/

namespace Aiomsg

namespace Ws

/-- The number written with digits in base 64, the most significant first. -/
def sextets (vs : List ℕ) : ℕ := Nat.ofDigits 64 vs.reverse

@[simp] theorem sextets_nil : sextets [] = 0 := rfl

theorem sextets_cons (v : ℕ) (vs : List ℕ) :
    sextets (v :: vs) = v * 64 ^ vs.length + sextets vs := by
  rw [sextets, List.reverse_cons, Nat.ofDigits_append, Nat.ofDigits_singleton, List.length_reverse,
    ← sextets]
  ring

theorem sextets_concat (vs : List ℕ) (v : ℕ) : sextets (vs ++ [v]) = sextets vs * 64 + v := by
  rw [sextets, List.reverse_append, List.reverse_singleton, List.singleton_append,
    Nat.ofDigits_cons, ← sextets]
  ring

theorem sextets_lt {vs : List ℕ} (h : ∀ v ∈ vs, v < 64) : sextets vs < 64 ^ vs.length := by
  have hlt := Nat.ofDigits_lt_base_pow_length (b := 64) (l := vs.reverse) (by decide)
    fun v hv => h v (List.mem_reverse.mp hv)
  rwa [List.length_reverse] at hlt

theorem eq_of_sextets {vs ws : List ℕ} (hvs : ∀ v ∈ vs, v < 64) (hws : ∀ w ∈ ws, w < 64)
    (hlen : vs.length = ws.length) (h : sextets vs = sextets ws) : vs = ws := by
  refine List.reverse_injective (Nat.ofDigits_inj_of_len_eq (by decide : 1 < 64) ?_ ?_ ?_ h)
  · rw [List.length_reverse, List.length_reverse, hlen]
  · exact fun v hv => hvs v (List.mem_reverse.mp hv)
  · exact fun w hw => hws w (List.mem_reverse.mp hw)

/-! ### Digits -/

/-- The digit for a value. -/
def digitOf (v : ℕ) : Char :=
  "ABCDEFGHIJKLMNOPQRSTUVWXYZabcdefghijklmnopqrstuvwxyz0123456789+/".toList.getD v 'A'

theorem base64Digit_eq (n : UInt32) : base64Digit n = digitOf (n.toNat % 64) := by
  have hmask : (n &&& 63).toNat = n.toNat % 64 := by
    rw [UInt32.toNat_and]
    exact Nat.and_two_pow_sub_one_eq_mod n.toNat 6
  rw [base64Digit, hmask, digitOf]

theorem base64Val_cases : ∀ c : UInt8, base64Val c = none ∨
    c.toNat < 128 ∧ ∃ v < 64, base64Val c = some (UInt32.ofNat v) ∧
      Char.ofNat c.toNat = digitOf v := by
  decide +kernel

theorem digitOf_cases : ∀ v < 64, digitOf v ≠ '=' ∧
    (asBytes [digitOf v]).map base64Val = [some (UInt32.ofNat v)] ∧
    (digitOf v ∈ ['A', 'Q', 'g', 'w'] ↔ v % 16 = 0) := by
  decide +kernel

/-! ### The decoder -/

/-- Six bits come in behind the others, of which there are 32 in all. -/
theorem toNat_shift_or (acc : UInt32) {u : UInt32} (h : u.toNat < 64) :
    (acc <<< 6 ||| u).toNat = acc.toNat % 2 ^ 26 * 64 + u.toNat := by
  have hshift : (acc <<< 6).toNat = (acc.toNat % 2 ^ 26) <<< 6 := by
    rw [UInt32.toNat_shiftLeft, show UInt32.toNat 6 % 32 = 6 from rfl, Nat.shiftLeft_eq,
      Nat.shiftLeft_eq]
    omega
  rw [UInt32.toNat_or, hshift]
  exact BigEndian.shiftLeft_or h

/-- The byte in front of a number whose last digits make `k` bytes and `e` bits. -/
theorem encode_succ_digits {q r s b n k e : ℕ} (hr : r < 2 ^ b) (hs : s < 64 ^ n)
    (hbits : b + 6 * n = 8 * k + e) :
    BigEndian.encode (k + 1) (((q * 2 ^ b + r) * 64 ^ n + s) / 2 ^ e) =
      UInt8.ofNat q :: BigEndian.encode k ((r * 64 ^ n + s) / 2 ^ e) := by
  have hpow : 2 ^ b * 64 ^ n = 256 ^ k * 2 ^ e := by
    rw [show 64 = 2 ^ 6 from rfl, show 256 = 2 ^ 8 from rfl, ← pow_mul, ← pow_mul, ← pow_add,
      ← pow_add, hbits]
  have hlow : (r * 64 ^ n + s) / 2 ^ e < 256 ^ k := by
    refine Nat.div_lt_of_lt_mul ?_
    calc r * 64 ^ n + s < (r + 1) * 64 ^ n := by rw [Nat.succ_mul]; omega
      _ ≤ 2 ^ b * 64 ^ n := Nat.mul_le_mul_right _ hr
      _ = 2 ^ e * 256 ^ k := by rw [hpow, Nat.mul_comm]
  have hsplit : ((q * 2 ^ b + r) * 64 ^ n + s) / 2 ^ e =
      q * 256 ^ k + (r * 64 ^ n + s) / 2 ^ e := by
    calc ((q * 2 ^ b + r) * 64 ^ n + s) / 2 ^ e
        = (r * 64 ^ n + s + q * (2 ^ b * 64 ^ n)) / 2 ^ e := by ring_nf
      _ = (r * 64 ^ n + s + q * 256 ^ k * 2 ^ e) / 2 ^ e := by rw [hpow, Nat.mul_assoc]
      _ = q * 256 ^ k + (r * 64 ^ n + s) / 2 ^ e := by
        rw [Nat.add_mul_div_right _ _ (Nat.two_pow_pos e), Nat.add_comm]
  have hfirst : (q * 256 ^ k + (r * 64 ^ n + s) / 2 ^ e) / 256 ^ k = q := by
    rw [Nat.add_comm, Nat.add_mul_div_right _ _ (Nat.pow_pos (by decide)),
      Nat.div_eq_of_lt hlow, Nat.zero_add]
  rw [hsplit, BigEndian.encode, hfirst, BigEndian.encode_mul_add]

/-- Of the accumulator the decoder writes the byte in front of the bits that are left over. -/
theorem toNat_shift_toUInt8 (acc : UInt32) {bits : ℕ} (h : bits < 32) :
    (acc >>> UInt32.ofNat bits).toUInt8 = UInt8.ofNat (acc.toNat / 2 ^ bits % 256) := by
  have hbits : (UInt32.ofNat bits).toNat % 32 = bits := by
    rw [UInt32.toNat_ofNat_of_lt' (Nat.lt_trans h (by decide)), Nat.mod_eq_of_lt h]
  apply UInt8.toNat_inj.mp
  rw [UInt32.toNat_toUInt8, UInt32.toNat_shiftRight, hbits, Nat.shiftRight_eq_div_pow,
    UInt8.toNat_ofNat', Nat.mod_mod]

/-- **What the decoder computes**, from any number of bits that are left over. -/
theorem base64Digits_eq {cs : Bytes} {vs : List ℕ}
    (h : cs.map base64Val = vs.map fun v => some (UInt32.ofNat v)) (hvs : ∀ v ∈ vs, v < 64)
    (acc : UInt32) {bits : ℕ} (hbits : bits = 0 ∨ bits = 2 ∨ bits = 4 ∨ bits = 6) :
    base64Digits cs acc bits = some (BigEndian.encode ((bits + 6 * vs.length) / 8)
      ((acc.toNat % 2 ^ bits * 64 ^ vs.length + sextets vs)
        / 2 ^ ((bits + 6 * vs.length) % 8))) := by
  induction vs generalizing cs acc bits with
  | nil =>
    obtain rfl := List.map_eq_nil_iff.mp h
    rcases hbits with rfl | rfl | rfl | rfl <;> rfl
  | cons v vs ih =>
    obtain ⟨c, cs, rfl, hc, hcs⟩ := List.map_eq_cons_iff.mp h
    obtain ⟨hv, hvs⟩ := List.forall_mem_cons.mp hvs
    have hu : (UInt32.ofNat v).toNat = v :=
      UInt32.toNat_ofNat_of_lt' (Nat.lt_trans hv (by decide))
    have hacc := toNat_shift_or acc (hu.symm ▸ hv)
    rw [hu] at hacc
    generalize hacc' : acc <<< 6 ||| UInt32.ofNat v = acc' at hacc
    rw [base64Digits, hc, List.length_cons, sextets_cons]
    dsimp only
    rw [hacc']
    by_cases hzero : bits = 0
    · -- No byte is full yet.
      subst hzero
      have hlow : acc'.toNat % 2 ^ 6 = v := by omega
      rw [if_neg (by decide), ih hcs hvs acc' (by simp), Nat.zero_add, hlow, pow_zero, Nat.mod_one,
        Nat.zero_mul, Nat.zero_add, Nat.zero_add, Nat.mul_succ, Nat.add_comm 6]
    · obtain ⟨b, rfl⟩ : ∃ b, bits = b + 2 := ⟨bits - 2, by omega⟩
      have hb : b = 0 ∨ b = 2 ∨ b = 4 := by omega
      have hdiv : (b + 2 + 6 * (vs.length + 1)) / 8 = (b + 6 * vs.length) / 8 + 1 := by omega
      have hmod : (b + 2 + 6 * (vs.length + 1)) % 8 = (b + 6 * vs.length) % 8 := by omega
      have hlow : acc.toNat % 2 ^ (b + 2) * 64 + v =
          acc'.toNat / 2 ^ b % 256 * 2 ^ b + acc'.toNat % 2 ^ b := by
        rcases hb with rfl | rfl | rfl <;> omega
      have hfront : acc.toNat % 2 ^ (b + 2) * 64 ^ (vs.length + 1) +
          (v * 64 ^ vs.length + sextets vs) =
          (acc'.toNat / 2 ^ b % 256 * 2 ^ b + acc'.toNat % 2 ^ b) * 64 ^ vs.length +
            sextets vs := by
        rw [← hlow, pow_succ]
        ring
      rw [if_pos (by omega), show b + 2 + 6 - 8 = b by omega, ih hcs hvs acc' (by omega),
        Option.map_some, hdiv, hmod, hfront, toNat_shift_toUInt8 acc' (by omega),
        encode_succ_digits (Nat.mod_lt _ (Nat.two_pow_pos b)) (sextets_lt hvs)
          (Nat.div_add_mod _ 8).symm]

/-! ### The encoder -/

/-- The padding that makes the bits of so many bytes whole digits. -/
def paddingOf (n : ℕ) : ℕ := (3 - n % 3) % 3

theorem toNat_chunkValue (b₀ b₁ b₂ : UInt8) :
    (chunkValue b₀ b₁ b₂).toNat = b₀.toNat * 2 ^ 16 + b₁.toNat * 2 ^ 8 + b₂.toNat := by
  have h₀ := b₀.toNat_lt
  have h₁ := b₁.toNat_lt
  have h₂ := b₂.toNat_lt
  have hshift₀ : (b₀.toUInt32 <<< 16).toNat = b₀.toNat <<< 16 := by
    rw [UInt32.toNat_shiftLeft, UInt8.toNat_toUInt32, show UInt32.toNat 16 % 32 = 16 from rfl,
      Nat.shiftLeft_eq]
    omega
  have hshift₁ : (b₁.toUInt32 <<< 8).toNat = b₁.toNat <<< 8 := by
    rw [UInt32.toNat_shiftLeft, UInt8.toNat_toUInt32, show UInt32.toNat 8 % 32 = 8 from rfl,
      Nat.shiftLeft_eq]
    omega
  have hfront : b₀.toNat <<< 16 ||| b₁.toNat <<< 8 = (b₀.toNat * 2 ^ 8 + b₁.toNat) <<< 8 := by
    rw [BigEndian.shiftLeft_or (by rw [Nat.shiftLeft_eq]; omega), Nat.shiftLeft_eq,
      Nat.shiftLeft_eq]
    ring
  rw [chunkValue, UInt32.toNat_or, UInt32.toNat_or, hshift₀, hshift₁, UInt8.toNat_toUInt32, hfront,
    BigEndian.shiftLeft_or h₂]
  ring

/-- A digit of a chunk. -/
theorem base64Digit_shift {c : UInt32} {k v : ℕ} (hk : k < 32) (hv : c.toNat / 2 ^ k % 64 = v) :
    base64Digit (c >>> UInt32.ofNat k) = digitOf v := by
  have hshift : (UInt32.ofNat k).toNat % 32 = k := by
    rw [UInt32.toNat_ofNat_of_lt' (Nat.lt_trans hk (by decide)), Nat.mod_eq_of_lt hk]
  rw [base64Digit_eq, UInt32.toNat_shiftRight, hshift, Nat.shiftRight_eq_div_pow, hv]

theorem base64Digit_chunk (b₀ b₁ b₂ : UInt8) :
    base64Digit (chunkValue b₀ b₁ b₂ >>> 18) = digitOf (b₀.toNat / 4) ∧
      base64Digit (chunkValue b₀ b₁ b₂ >>> 12) = digitOf (b₀.toNat % 4 * 16 + b₁.toNat / 16) ∧
      base64Digit (chunkValue b₀ b₁ b₂ >>> 6) = digitOf (b₁.toNat % 16 * 4 + b₂.toNat / 64) ∧
      base64Digit (chunkValue b₀ b₁ b₂) = digitOf (b₂.toNat % 64) := by
  have hlt₀ := b₀.toNat_lt
  have hlt₁ := b₁.toNat_lt
  have hlt₂ := b₂.toNat_lt
  have hn := toNat_chunkValue b₀ b₁ b₂
  refine ⟨?_, ?_, ?_, ?_⟩
  · exact base64Digit_shift (k := 18) (by decide) (by rw [hn]; omega)
  · exact base64Digit_shift (k := 12) (by decide) (by rw [hn]; omega)
  · exact base64Digit_shift (k := 6) (by decide) (by rw [hn]; omega)
  · rw [base64Digit_eq, hn]
    congr 1
    omega

/-- The digits of an encoding. -/
structure Encodes (d : Bytes) (vs : List ℕ) : Prop where
  lt : ∀ v ∈ vs, v < 64
  encode : base64Encode d = vs.map digitOf ++ List.replicate (paddingOf d.length) '='
  length : 6 * vs.length = 8 * d.length + 2 * paddingOf d.length
  value : sextets vs = BigEndian.value d * 4 ^ paddingOf d.length

theorem encodes_nil : Encodes [] [] where
  lt := fun _ hv => absurd hv List.not_mem_nil
  encode := rfl
  length := rfl
  value := rfl

theorem encodes_one (b₀ : UInt8) : Encodes [b₀] [b₀.toNat / 4, b₀.toNat % 4 * 16] := by
  obtain ⟨h18, h12, -, -⟩ := base64Digit_chunk b₀ 0 0
  have hlt := b₀.toNat_lt
  refine ⟨?_, ?_, rfl, ?_⟩
  · simp only [List.forall_mem_cons]
    exact ⟨by omega, by omega, by simp⟩
  · rw [base64Encode, h18, h12]
    rfl
  · have hvalue : BigEndian.value [b₀] * 4 ^ paddingOf [b₀].length = b₀.toNat * 16 := by
      simp [BigEndian.value, paddingOf]
    rw [hvalue, sextets_cons, sextets_cons, sextets_nil]
    simp only [List.length_cons, List.length_nil]
    omega

theorem encodes_two (b₀ b₁ : UInt8) : Encodes [b₀, b₁]
    [b₀.toNat / 4, b₀.toNat % 4 * 16 + b₁.toNat / 16, b₁.toNat % 16 * 4] := by
  obtain ⟨h18, h12, h6, -⟩ := base64Digit_chunk b₀ b₁ 0
  have hlt₀ := b₀.toNat_lt
  have hlt₁ := b₁.toNat_lt
  refine ⟨?_, ?_, rfl, ?_⟩
  · simp only [List.forall_mem_cons]
    exact ⟨by omega, by omega, by omega, by simp⟩
  · rw [base64Encode, h18, h12, h6]
    rfl
  · have hvalue : BigEndian.value [b₀, b₁] * 4 ^ paddingOf [b₀, b₁].length =
        (b₀.toNat * 256 + b₁.toNat) * 4 := by
      simp [BigEndian.value, paddingOf]
    rw [hvalue, sextets_cons, sextets_cons, sextets_cons, sextets_nil]
    simp only [List.length_cons, List.length_nil]
    omega

/-- A whole chunk has no padding. -/
theorem paddingOf_three (b₀ b₁ b₂ : UInt8) (rest : Bytes) :
    paddingOf (b₀ :: b₁ :: b₂ :: rest).length = paddingOf rest.length := by
  rw [paddingOf, paddingOf]
  simp only [List.length_cons]
  omega

/-- The digits of a chunk are its bytes, as a number. -/
theorem sextets_chunk (b₀ b₁ b₂ : UInt8) (vs : List ℕ) :
    sextets (b₀.toNat / 4 :: (b₀.toNat % 4 * 16 + b₁.toNat / 16) ::
        (b₁.toNat % 16 * 4 + b₂.toNat / 64) :: b₂.toNat % 64 :: vs) =
      (b₀.toNat * 256 ^ 2 + b₁.toNat * 256 + b₂.toNat) * 64 ^ vs.length + sextets vs := by
  have hbytes : b₀.toNat / 4 * 64 ^ 3 + (b₀.toNat % 4 * 16 + b₁.toNat / 16) * 64 ^ 2 +
      (b₁.toNat % 16 * 4 + b₂.toNat / 64) * 64 + b₂.toNat % 64 =
      b₀.toNat * 256 ^ 2 + b₁.toNat * 256 + b₂.toNat := by omega
  rw [← hbytes]
  simp only [sextets_cons, List.length_cons]
  ring

theorem Encodes.cons {rest : Bytes} {vs : List ℕ} (h : Encodes rest vs) (b₀ b₁ b₂ : UInt8) :
    Encodes (b₀ :: b₁ :: b₂ :: rest) (b₀.toNat / 4 :: (b₀.toNat % 4 * 16 + b₁.toNat / 16) ::
      (b₁.toNat % 16 * 4 + b₂.toNat / 64) :: b₂.toNat % 64 :: vs) := by
  obtain ⟨h18, h12, h6, h0⟩ := base64Digit_chunk b₀ b₁ b₂
  have hlt₀ := b₀.toNat_lt
  have hlt₁ := b₁.toNat_lt
  have hlt₂ := b₂.toNat_lt
  have hlen := h.length
  refine ⟨?_, ?_, ?_, ?_⟩
  · simp only [List.forall_mem_cons]
    exact ⟨by omega, by omega, by omega, by omega, h.lt⟩
  · rw [base64Encode, h18, h12, h6, h0, h.encode, paddingOf_three]
    rfl
  · rw [paddingOf_three]
    simp only [List.length_cons]
    omega
  · have hpow : 64 ^ vs.length = 256 ^ rest.length * 4 ^ paddingOf rest.length := by
      rw [show 64 = 2 ^ 6 from rfl, show 256 = 2 ^ 8 from rfl, show 4 = 2 ^ 2 from rfl,
        ← pow_mul, ← pow_mul, ← pow_mul, ← pow_add, hlen]
    rw [sextets_chunk, paddingOf_three, h.value, hpow]
    simp only [BigEndian.value, List.length_cons]
    ring

/-- **What the encoder computes.** -/
theorem exists_encodes (d : Bytes) : ∃ vs : List ℕ, Encodes d vs := by
  induction d using base64Encode.induct with
  | case1 => exact ⟨[], encodes_nil⟩
  | case2 b₀ => exact ⟨_, encodes_one b₀⟩
  | case3 b₀ b₁ => exact ⟨_, encodes_two b₀ b₁⟩
  | case4 b₀ b₁ b₂ rest ih =>
    obtain ⟨vs, h⟩ := ih
    exact ⟨_, h.cons b₀ b₁ b₂⟩

/-! ### Keys -/

theorem exists_byte_of_utf8 {c : Char} (h : 128 ≤ c.toNat) :
    ∃ b ∈ String.utf8EncodeChar c, 128 ≤ b.toNat := by
  have hlast : 128 ≤ (UInt8.ofNat (c.val.toNat % 64 + 128)).toNat := by
    rw [UInt8.toNat_ofNat']
    omega
  refine ⟨UInt8.ofNat (c.val.toNat % 64 + 128), ?_, hlast⟩
  have hnot : ¬ c.val.toNat ≤ 127 := Nat.not_le.mpr h
  rw [String.utf8EncodeChar, if_neg hnot]
  split_ifs <;> simp

/-- A character whose bytes are digits is a digit. -/
theorem exists_digitOf {c : Char} (h : ∀ b ∈ String.utf8EncodeChar c, base64Val b ≠ none) :
    ∃ v < 64, c = digitOf v := by
  have hascii : c.toNat < 128 := by
    by_contra hnot
    obtain ⟨b, hb, hle⟩ := exists_byte_of_utf8 (Nat.le_of_not_lt hnot)
    rcases base64Val_cases b with hnone | ⟨hlt, -⟩
    · exact h b hb hnone
    · omega
  have hbytes : String.utf8EncodeChar c = [UInt8.ofNat c.toNat] := by
    rw [String.utf8EncodeChar]
    exact if_pos (Nat.le_of_lt_succ hascii)
  have hbyte := h (UInt8.ofNat c.toNat) (by rw [hbytes]; exact List.mem_singleton_self _)
  have hnat : (UInt8.ofNat c.toNat).toNat = c.toNat := by
    rw [UInt8.toNat_ofNat']
    omega
  rcases base64Val_cases (UInt8.ofNat c.toNat) with hnone | ⟨-, v, hv, -, hc⟩
  · exact absurd hnone hbyte
  · refine ⟨v, hv, ?_⟩
    rw [← hc, hnat, Char.ofNat_toNat]

/-- A key that is decoded consists of digits, and padding. -/
theorem exists_digits {key : Text} (h : base64Decode key ≠ none) :
    ∃ vs : List ℕ, (∀ v ∈ vs, v < 64) ∧ key.rdropWhile (· = '=') = vs.map digitOf := by
  have hbytes := base64Val_of_base64Digits h
  have hchars : ∀ c ∈ key.rdropWhile (· = '='), ∃ v < 64, c = digitOf v := fun c hc =>
    exists_digitOf fun b hb => hbytes b (List.mem_flatMap.mpr ⟨c, hc, hb⟩)
  choose! valueOf hlt heq using hchars
  refine ⟨(key.rdropWhile (· = '=')).map valueOf, List.forall_mem_map.mpr hlt, ?_⟩
  rw [List.map_map]
  exact (List.map_id _).symm.trans (List.map_congr_left heq)

theorem map_base64Val_digitOf {vs : List ℕ} (hvs : ∀ v ∈ vs, v < 64) :
    (asBytes (vs.map digitOf)).map base64Val = vs.map fun v => some (UInt32.ofNat v) := by
  induction vs with
  | nil => rfl
  | cons v vs ih =>
    obtain ⟨hv, hvs⟩ := List.forall_mem_cons.mp hvs
    have hfirst := (digitOf_cases v hv).2.1
    rw [asBytes, List.flatMap_singleton] at hfirst
    rw [asBytes, List.map_cons, List.flatMap_cons, List.map_append, hfirst, ← asBytes, ih hvs]
    rfl

/-- **What is decoded** of a key. -/
theorem base64Decode_eq {key : Text} {vs : List ℕ} (hvs : ∀ v ∈ vs, v < 64)
    (h : key.rdropWhile (· = '=') = vs.map digitOf) :
    base64Decode key = some (BigEndian.encode (6 * vs.length / 8)
      (sextets vs / 2 ^ (6 * vs.length % 8))) := by
  rw [base64Decode, h, base64Digits_eq (map_base64Val_digitOf hvs) hvs 0 (Or.inl rfl), pow_zero,
    Nat.mod_one, Nat.zero_mul, Nat.zero_add, Nat.zero_add]

/-! ### There and back -/

/-- The loop of the decoder on an accumulator that drops nothing. -/
def wideDigits : Bytes → ℕ → ℕ → Option Bytes
  | [], _, _ => some []
  | c :: cs, acc, bits =>
    match base64Val c with
    | none => none
    | some v =>
      let acc := acc * 64 + v.toNat
      if 8 ≤ bits + 6 then
        (wideDigits cs acc (bits + 6 - 8)).map (UInt8.ofNat (acc / 2 ^ (bits + 6 - 8)) :: ·)
      else wideDigits cs acc (bits + 6)

/-- The decoder, with such an accumulator. -/
def wideDecode (s : Text) : Option Bytes := wideDigits (asBytes (s.rdropWhile (· = '='))) 0 0

theorem lt_of_base64Val {c : UInt8} {v : UInt32} (h : base64Val c = some v) : v.toNat < 64 := by
  rcases base64Val_cases c with hnone | ⟨-, u, hu, hval, -⟩
  · exact absurd (hnone.symm.trans h) (Option.some_ne_none v).symm
  · obtain rfl := Option.some.inj (h.symm.trans hval)
    rwa [UInt32.toNat_ofNat_of_lt' (Nat.lt_trans hu (by decide))]

/-- A byte of the last 32 bits. -/
theorem byte_mod_two_pow (m : ℕ) {b : ℕ} (hb : b + 8 ≤ 32) :
    UInt8.ofNat (m % 2 ^ 32 / 2 ^ b % 256) = UInt8.ofNat (m / 2 ^ b) := by
  have hpow : 2 ^ 32 = 2 ^ b * 2 ^ (32 - b) := by
    rw [← pow_add, Nat.add_sub_cancel' (by omega)]
  have hdvd : 256 ∣ 2 ^ (32 - b) := pow_dvd_pow 2 (by omega : 8 ≤ 32 - b)
  apply UInt8.toNat_inj.mp
  rw [UInt8.toNat_ofNat', UInt8.toNat_ofNat', hpow, Nat.mod_mul_right_div_self, Nat.mod_mod,
    Nat.mod_mod_of_dvd _ hdvd]

/-- **No bit that is still needed is dropped**: the two accumulators agree in their last 32 bits. -/
theorem base64Digits_eq_wideDigits (cs : Bytes) {acc : UInt32} {n bits : ℕ}
    (hacc : acc.toNat = n % 2 ^ 32) (hbits : bits < 8) :
    base64Digits cs acc bits = wideDigits cs n bits := by
  induction cs generalizing acc n bits with
  | nil => rfl
  | cons c cs ih =>
    rw [base64Digits, wideDigits]
    rcases hval : base64Val c with _ | v
    · rfl
    · have hv := lt_of_base64Val hval
      have hnext : (acc <<< 6 ||| v).toNat = (n * 64 + v.toNat) % 2 ^ 32 := by
        rw [toNat_shift_or acc hv, hacc]
        omega
      dsimp only
      by_cases hfull : 8 ≤ bits + 6
      · rw [if_pos hfull, if_pos hfull, toNat_shift_toUInt8 _ (by omega), hnext,
          byte_mod_two_pow _ (by omega), ih hnext (by omega)]
      · rw [if_neg hfull, if_neg hfull, ih hnext (by omega)]

theorem base64Decode_eq_wideDecode (key : Text) : base64Decode key = wideDecode key :=
  base64Digits_eq_wideDigits _ rfl (by decide)

/-- The padding is stripped off, and nothing else. -/
theorem rdropWhile_encoded {vs : List ℕ} (hvs : ∀ v ∈ vs, v < 64) (pad : ℕ) :
    (vs.map digitOf ++ List.replicate pad '=').rdropWhile (· = '=') = vs.map digitOf := by
  induction pad with
  | zero =>
    rw [List.replicate_zero, List.append_nil, List.rdropWhile_eq_self_iff]
    intro hne
    obtain ⟨v, hv, heq⟩ := List.mem_map.mp (List.getLast_mem hne)
    rw [← heq, decide_eq_true_eq]
    exact (digitOf_cases v (hvs v hv)).1
  | succ pad ih =>
    rw [List.replicate_succ', ← List.append_assoc, List.rdropWhile_concat_pos _ _ _ (by decide), ih]

theorem length_base64Encode (d : Bytes) : (base64Encode d).length = 4 * (d.length ⌈/⌉ 3) := by
  obtain ⟨vs, -, henc, hlen, -⟩ := exists_encodes d
  rw [henc, List.length_append, List.length_map, List.length_replicate, Nat.ceilDiv_eq_add_pred_div]
  rw [paddingOf] at hlen ⊢
  omega

/-- **The decoder undoes the encoder**, whatever its accumulator drops. -/
theorem base64Decode_base64Encode (d : Bytes) :
    base64Decode (base64Encode d) = some d ∧
      (base64Encode d).length = 4 * (d.length ⌈/⌉ 3) ∧
      ∀ key : Text, base64Decode key = wideDecode key := by
  refine ⟨?_, length_base64Encode d, base64Decode_eq_wideDecode⟩
  obtain ⟨vs, hvs, henc, hlen, hval⟩ := exists_encodes d
  have hpad : paddingOf d.length < 3 := Nat.mod_lt _ (by decide)
  have hdiv : 6 * vs.length / 8 = d.length := by omega
  have hmod : 6 * vs.length % 8 = 2 * paddingOf d.length := by omega
  have hvalue : sextets vs / 2 ^ (6 * vs.length % 8) = BigEndian.value d := by
    rw [hmod, hval, pow_mul]
    exact Nat.mul_div_cancel _ (Nat.pow_pos (by decide))
  rw [henc, base64Decode_eq hvs (rdropWhile_encoded hvs _), hdiv, hvalue, BigEndian.encode_value]

/-! ### Canonical keys -/

/-- A number of digits and a padding of an encoder's length have one string that they encode. -/
theorem base64Encode_eq {d : Bytes} {vs : List ℕ} {pad : ℕ} (hvs : ∀ v ∈ vs, v < 64)
    (hpad : pad < 3) (hlen : 6 * vs.length = 8 * d.length + 2 * pad)
    (hval : sextets vs = BigEndian.value d * 4 ^ pad) :
    base64Encode d = vs.map digitOf ++ List.replicate pad '=' := by
  obtain ⟨ws, hws, henc, hlen', hval'⟩ := exists_encodes d
  have hpad' : paddingOf d.length < 3 := Nat.mod_lt _ (by decide)
  obtain rfl : pad = paddingOf d.length := by omega
  rw [henc, eq_of_sextets hws hvs (by omega) (hval'.trans hval.symm)]

/-- Sixteen bytes leave four bits of the last digit, which are zero, and two padding characters. -/
def Canonical (key : Text) : Prop :=
  ∃ front c, key = front ++ [c, '=', '='] ∧ c ∈ ['A', 'Q', 'g', 'w']

theorem canonical_base64Encode {d : Bytes} (h : d.length = 16) : Canonical (base64Encode d) := by
  obtain ⟨vs, hvs, henc, hlen, hval⟩ := exists_encodes d
  have hpad : paddingOf d.length = 2 := by rw [h]; rfl
  rw [hpad] at henc hlen hval
  obtain ⟨front, v, rfl⟩ : ∃ front v, vs = front ++ [v] :=
    (List.eq_nil_or_concat' vs).resolve_left (by rintro rfl; simp [h] at hlen)
  have hlast : v < 64 := hvs v (by simp)
  have hzero : v % 16 = 0 := by
    rw [sextets_concat] at hval
    omega
  refine ⟨front.map digitOf, digitOf v, ?_, (digitOf_cases v hlast).2.2.mpr hzero⟩
  rw [henc, List.map_append, List.append_assoc]
  rfl

/-- A digit in front of two padding characters ends what is decoded. -/
theorem rdropWhile_padding {front : Text} {c : Char} (hc : c ≠ '=') :
    (front ++ [c, '=', '=']).rdropWhile (· = '=') = front ++ [c] := by
  have hsplit : front ++ [c, '=', '='] = front ++ [c] ++ ['='] ++ ['='] := by simp
  rw [hsplit, List.rdropWhile_concat_pos _ _ _ (by decide),
    List.rdropWhile_concat_pos _ _ _ (by decide),
    List.rdropWhile_concat_neg _ _ _ (by simpa using hc)]

/-- **When the encoder undoes the decoder**, of the keys that it gives sixteen bytes for. -/
theorem base64Encode_eq_iff {key : Text} {d : Bytes} (hkey : base64Decode key = some d)
    (hd : d.length = 16) : base64Encode d = key ↔ Canonical key := by
  constructor
  · rintro rfl
    exact canonical_base64Encode hd
  · rintro ⟨front, c, rfl, hc⟩
    have hpad : c ≠ '=' := by
      rintro rfl
      revert hc
      decide
    have hne : base64Decode (front ++ [c, '=', '=']) ≠ none := by
      rw [hkey]
      exact Option.some_ne_none d
    obtain ⟨vs, hvs, hdigits⟩ := exists_digits hne
    rw [base64Decode_eq hvs hdigits, Option.some_inj] at hkey
    have hlen : vs.length = 22 := by
      rw [← hkey, BigEndian.length_encode] at hd
      omega
    rw [rdropWhile_padding hpad] at hdigits
    obtain ⟨ws, w, rfl, hws, hw⟩ := List.map_eq_append_iff.mp hdigits.symm
    obtain ⟨v, rfl, rfl⟩ := List.map_eq_singleton_iff.mp hw
    have hzero : v % 16 = 0 := (digitOf_cases v (hvs v (by simp))).2.2.mp hc
    have hlt : sextets (ws ++ [v]) / 16 < 256 ^ 16 := by
      have hlt := sextets_lt hvs
      rw [hlen] at hlt
      omega
    have hvalue : BigEndian.value d = sextets (ws ++ [v]) / 16 := by
      rw [← hkey, hlen]
      exact BigEndian.value_encode_of_lt hlt
    have hval : sextets (ws ++ [v]) = BigEndian.value d * 4 ^ 2 := by
      rw [hvalue, sextets_concat]
      omega
    rw [base64Encode_eq hvs (by decide) (by rw [hlen, hd]) hval, List.map_append, hws,
      List.append_assoc]
    rfl

/-! ### Requests -/

theorem validateHeaders_eq_ok_iff {lines : List Text} {key : Text} :
    validateHeaders lines = .ok key ↔ Upgrades lines ∧
      lastHeader "sec-websocket-version".toList lines = some "13".toList ∧
      lastHeader "sec-websocket-key".toList lines = some key := by
  by_cases hupgrades : Upgrades lines
  · obtain ⟨value, hvalue, htoken⟩ := hupgrades.connection
    rw [validateHeaders, Headers.foldlM_line, if_pos hupgrades.wellFormed]
    simp only [Headers.check, Headers.with, Option.or_none]
    rw [if_neg (not_not.mpr hupgrades.upgrade), hvalue, Option.map_some, Option.map_some,
      Option.getD_some, hasUpgradeToken_iff.mpr htoken, if_neg (by decide), and_iff_right hupgrades]
    by_cases hversion : lastHeader "sec-websocket-version".toList lines = some "13".toList
    · obtain ⟨value', bytes, hvalue', hdecode, hlen⟩ := hupgrades.key hversion
      have hsixteen : (base64Decode value').map List.length = some 16 := by
        rw [hdecode, Option.map_some, hlen]
      rw [if_neg (not_not.mpr hversion), hvalue', and_iff_right hversion]
      dsimp only
      rw [if_neg (not_not.mpr hsixteen), Except.ok.injEq, Option.some_inj]
    · rw [if_pos hversion]
      exact iff_of_false (by simp) fun h => hversion h.1
  · refine iff_of_false ?_ fun h => hupgrades h.1
    rw [(validateHeaders_eq_badRequest_iff lines).mpr hupgrades]
    simp

/-- The request asks for an upgrade with this key. -/
def AsksWith (request : Bytes) (key : Text) : Prop :=
  ∃ text, Utf8.decode request = some text ∧ IsGet (requestWords (splitLines text)) ∧
    Upgrades (splitLines text).tail ∧
    lastHeader "sec-websocket-version".toList (splitLines text).tail = some "13".toList ∧
    lastHeader "sec-websocket-key".toList (splitLines text).tail = some key

theorem Sync.parseUpgrade_eq_ok_iff {request : Bytes} {key : Text} :
    Sync.parseUpgrade request = .ok key ↔ AsksWith request key := by
  rw [Sync.parseUpgrade, AsksWith]
  rcases htext : Utf8.decode request with _ | text
  · simp
  · simp only [Option.some_inj, exists_eq_left', ← validateHeaders_eq_ok_iff]
    by_cases hget : IsGet (requestWords (splitLines text))
    · rw [if_neg (not_not.mpr hget), and_iff_right hget]
    · rw [if_pos hget]
      exact iff_of_false (by simp) fun h => hget h.1

/-- **The keys that are accepted are encodings** if the key that the request has is. -/
theorem parseUpgrade_canonical_iff (request : Bytes) :
    (∀ key, Sync.parseUpgrade request = .ok key →
        ∃ d : Bytes, d.length = 16 ∧ key = base64Encode d) ↔
      ∀ key, AsksWith request key → Canonical key := by
  refine forall_congr' fun key => ?_
  rw [Sync.parseUpgrade_eq_ok_iff]
  refine imp_congr_right fun hasks => ?_
  obtain ⟨text, -, -, hupgrades, hversion, hkey⟩ := hasks
  obtain ⟨_, bytes, hkey', hdecode, hlen⟩ := hupgrades.key hversion
  obtain rfl := Option.some.inj (hkey'.symm.trans hkey)
  constructor
  · rintro ⟨d, hd, rfl⟩
    exact canonical_base64Encode hd
  · exact fun h => ⟨bytes, hlen, ((base64Encode_eq_iff hdecode hlen).mpr h).symm⟩

/-- A request whose key lacks its padding. -/
def unpaddedRequest : Bytes :=
  asBytes ("GET / HTTP/1.1\r\nUpgrade: websocket\r\nConnection: Upgrade\r\n".toList ++
    "Sec-WebSocket-Version: 13\r\nSec-WebSocket-Key: dGhlIHNhbXBsZSBub25jZQ\r\n\r\n".toList)

theorem not_parseUpgrade_unpadded :
    ¬ ∀ (request : Bytes) (key : Text), Sync.parseUpgrade request = .ok key →
      ∃ d : Bytes, d.length = 16 ∧ key = base64Encode d := by
  intro h
  obtain ⟨d, hd, hkey⟩ := h unpaddedRequest "dGhlIHNhbXBsZSBub25jZQ".toList (by decide +kernel)
  obtain ⟨front, c, hcanonical, -⟩ := canonical_base64Encode hd
  have hlast : "dGhlIHNhbXBsZSBub25jZQ".toList.getLast? = some '=' := by
    rw [hkey, hcanonical]
    simp
  revert hlast
  decide

end Ws

end Aiomsg
