import Mathlib.Algebra.Order.Ring.Nat
import Mathlib.Data.Nat.Bitwise
import Mathlib.Tactic.Ring

/-!
# Big-endian bytes

A `w`-byte big-endian number, in both directions. `encode w n` is total: it keeps the low `w`
bytes of `n` and drops the rest, which is what a cast to a `w`-byte unsigned type followed by
writing its bytes does. Bounds are therefore not part of the definitions; they are hypotheses on
the theorems that say when nothing was dropped.

## Main results

* `value_encode` — reading back what was written gives `n % 256 ^ w`
* `encode_value` — every byte string is the encoding of its own value
* `encode_add` — the upper bytes and the lower ones
* `encode_inj` — below `256 ^ w` the encoding determines the number
* `foldl_shift` — reading with shifts and ors, byte after byte
-/

namespace BigEndian

/-- The low `w` bytes of `n`, most significant first. -/
def encode : ℕ → ℕ → List UInt8
  | 0, _ => []
  | w + 1, n => UInt8.ofNat (n / 256 ^ w) :: encode w n

/-- The number a byte string denotes, most significant byte first. -/
def value : List UInt8 → ℕ
  | [] => 0
  | b :: bs => b.toNat * 256 ^ bs.length + value bs

@[simp] theorem length_encode (w n : ℕ) : (encode w n).length = w := by
  induction w with
  | zero => rfl
  | succ w ih => rw [encode, List.length_cons, ih]

theorem value_lt (bs : List UInt8) : value bs < 256 ^ bs.length := by
  induction bs with
  | nil => simp [value]
  | cons b bs ih =>
    have hb : b.toNat < 256 := b.toNat_lt
    calc value (b :: bs) = b.toNat * 256 ^ bs.length + value bs := rfl
      _ < b.toNat * 256 ^ bs.length + 256 ^ bs.length := by omega
      _ = (b.toNat + 1) * 256 ^ bs.length := by ring
      _ ≤ 256 * 256 ^ bs.length := Nat.mul_le_mul_right _ hb
      _ = 256 ^ (b :: bs).length := by rw [List.length_cons, pow_succ']

/-- **Read after write.** Only the low `w` bytes survive. -/
theorem value_encode (w n : ℕ) : value (encode w n) = n % 256 ^ w := by
  induction w with
  | zero => simp [encode, value, Nat.mod_one]
  | succ w ih =>
    have hbyte : (UInt8.ofNat (n / 256 ^ w)).toNat = n / 256 ^ w % 256 := by
      rw [UInt8.toNat_ofNat']
    rw [encode, value, length_encode, ih, hbyte, pow_succ, Nat.mod_mul]
    ring

theorem value_encode_of_lt {w n : ℕ} (h : n < 256 ^ w) : value (encode w n) = n := by
  rw [value_encode, Nat.mod_eq_of_lt h]

/-- Adding a multiple of `256 ^ w` does not change the low `w` bytes. -/
theorem encode_mul_add (w k m : ℕ) : encode w (k * 256 ^ w + m) = encode w m := by
  induction w generalizing k with
  | zero => rfl
  | succ w ih =>
    have hsplit : k * 256 ^ (w + 1) + m = k * 256 * 256 ^ w + m := by ring
    have hhead : UInt8.ofNat ((k * 256 * 256 ^ w + m) / 256 ^ w) = UInt8.ofNat (m / 256 ^ w) := by
      apply UInt8.toNat_inj.mp
      rw [UInt8.toNat_ofNat', UInt8.toNat_ofNat', Nat.add_comm,
        Nat.add_mul_div_right _ _ (Nat.pow_pos (by decide))]
      exact Nat.add_mul_mod_self_right _ _ _
    rw [encode, encode, hsplit, hhead, ih]

theorem encode_mod (w n : ℕ) : encode w (n % 256 ^ w) = encode w n := by
  rw [← encode_mul_add w (n / 256 ^ w), Nat.mul_comm, Nat.div_add_mod]

/-- The upper bytes, and the lower ones behind them. -/
theorem encode_add (v w n : ℕ) : encode (v + w) n = encode v (n / 256 ^ w) ++ encode w n := by
  induction v with
  | zero => rw [Nat.zero_add, encode, List.nil_append]
  | succ v ih =>
    rw [Nat.add_right_comm, encode, encode, ih, Nat.div_div_eq_div_mul, ← pow_add, Nat.add_comm w,
      List.cons_append]

/-- **Write after read.** -/
theorem encode_value (bs : List UInt8) : encode bs.length (value bs) = bs := by
  induction bs with
  | nil => rfl
  | cons b bs ih =>
    have hdiv : (b.toNat * 256 ^ bs.length + value bs) / 256 ^ bs.length = b.toNat := by
      rw [Nat.add_comm, Nat.add_mul_div_right _ _ (Nat.pow_pos (by decide)),
        Nat.div_eq_of_lt (value_lt bs), Nat.zero_add]
    rw [value, List.length_cons, encode, hdiv, encode_mul_add, ih, UInt8.ofNat_toNat]

theorem encode_inj {w m n : ℕ} (hm : m < 256 ^ w) (hn : n < 256 ^ w)
    (h : encode w m = encode w n) : m = n := by
  rw [← value_encode_of_lt hm, ← value_encode_of_lt hn, h]

/-! ### Shifts and ors -/

theorem shiftLeft_or {a b i : ℕ} (h : b < 2 ^ i) : a <<< i ||| b = a * 2 ^ i + b := by
  rw [← Nat.shiftLeft_add_eq_or_of_lt h, Nat.shiftLeft_eq]

/-- `n = (n << 8) | b`, byte after byte. -/
theorem foldl_shift (bs : List UInt8) (n : ℕ) :
    bs.foldl (fun n b => n <<< 8 ||| b.toNat) n = n * 256 ^ bs.length + value bs := by
  induction bs generalizing n with
  | nil => simp [value]
  | cons b bs ih =>
    rw [List.foldl_cons, ih, shiftLeft_or b.toNat_lt, value, List.length_cons, pow_succ']
    ring

theorem shift_pair (b b' : UInt8) : b.toNat <<< 8 ||| b'.toNat = value [b, b'] := by
  have hfold := foldl_shift [b, b'] 0
  simpa using hfold

end BigEndian
