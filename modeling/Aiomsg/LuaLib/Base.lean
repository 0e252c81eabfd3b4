import Aiomsg.Protocol.Envelope
import Mathlib.Data.Nat.Bitwise

/-!
# Strings and bit operations of Lua

The two string functions that the Lua port reads frames with, by the reference manual: positions are
counted from 1, a negative one from the end, and a range that is not in the string is cut down to
it. `bxor` of `lua-lib/aiomsg/ws.lua`, which goes through its arguments bit by bit.

## Scope

Only what `ws.lua` uses is here. Strings are byte strings, as Lua's are. Here `bxor` is on natural
numbers, which is what it is given where frames are unmasked; as a computation on a host's numbers
it is followed in a module of its own.

## Main results

* `sub_of_le` — a range inside a string
* `bxor_eq` — the loop is the bitwise operation
-/

namespace Aiomsg

namespace LuaLib

open Protocol

/-! ### Strings -/

/-- The first position of a range, in a string of `n` bytes. -/
def startPos (n i : ℤ) : ℤ :=
  if 0 < i then i else if i = 0 then 1 else if i < -n then 1 else n + i + 1

/-- The last position of a range. -/
def endPos (n j : ℤ) : ℤ :=
  if n < j then n else if 0 ≤ j then j else if j < -n then 0 else n + j + 1

/-- `string.sub(s, i, j)`. -/
def sub (s : Bytes) (i j : ℤ) : Bytes :=
  let start := startPos s.length i
  let stop := endPos s.length j
  if start ≤ stop then (s.drop (start - 1).toNat).take (stop - start + 1).toNat else []

/-- `string.byte(s, i, j)`. -/
def byteRange (s : Bytes) (i j : ℤ) : List ℕ := (sub s i j).map UInt8.toNat

/-- `string.byte(s, i)`: nil where there is no such byte. -/
def byteAt (s : Bytes) (i : ℤ) : Option ℕ := (byteRange s i i).head?

/-- `s .. t`: it raises where the length of the result is no integer. -/
def concat (s t : Bytes) : Option Bytes :=
  if s.length + t.length < 2 ^ 63 then some (s ++ t) else none

/-- A range that starts behind the first byte is shorter than the string. -/
theorem length_sub_lt {s : Bytes} {i j : ℤ} (hs : s ≠ []) (h : 1 < startPos s.length i) :
    (sub s i j).length < s.length := by
  have hpos := List.length_pos_iff.mpr hs
  rw [sub]
  split_ifs
  · rw [List.length_take, List.length_drop]
    omega
  · exact hpos

/-- A range inside the string. -/
theorem sub_of_le {s : Bytes} {i n : ℕ} (h : i + n ≤ s.length) :
    sub s (i + 1) (i + n) = (s.drop i).take n := by
  have hstart : startPos s.length ((i : ℤ) + 1) = i + 1 := by
    rw [startPos, if_pos (by omega)]
  have hend : endPos s.length ((i : ℤ) + n) = i + n := by
    rw [endPos, if_neg (by omega), if_pos (by omega)]
  rw [sub]
  simp only [hstart, hend]
  by_cases hn : n = 0
  · rw [hn, if_neg (by omega), List.take_zero]
  · rw [if_pos (by omega), show ((i : ℤ) + 1 - 1).toNat = i by omega,
      show ((i : ℤ) + n - (i + 1) + 1).toNat = n by omega]

/-- The rest of a string. -/
theorem sub_rest {s : Bytes} {i : ℕ} (h : i ≤ s.length) : sub s (i + 1) (-1) = s.drop i := by
  have hstart : startPos s.length ((i : ℤ) + 1) = i + 1 := by
    rw [startPos, if_pos (by omega)]
  have hend : endPos s.length (-1) = s.length := by
    rw [endPos, if_neg (by omega), if_neg (by decide)]
    split_ifs <;> omega
  rw [sub]
  simp only [hstart, hend]
  by_cases hn : i = s.length
  · rw [if_neg (by omega), hn, List.drop_length]
  · rw [if_pos (by omega), show ((i : ℤ) + 1 - 1).toNat = i by omega, List.take_of_length_le]
    rw [List.length_drop]
    omega

/-- A range whose end, counted from the end of the string, is in front of its start. -/
theorem sub_of_lt {s : Bytes} {i j : ℤ} (hi : 1 ≤ i) (hj : j < 0) (h : s.length + j + 1 < i) :
    sub s i j = [] := by
  have hstart : startPos s.length i = i := by rw [startPos, if_pos (by omega)]
  have hend : endPos s.length j < i := by
    rw [endPos]
    split_ifs <;> omega
  rw [sub]
  simp only [hstart]
  rw [if_neg (by omega)]

theorem byteAt_of_lt {s : Bytes} {i : ℕ} (h : i < s.length) :
    byteAt s (i + 1) = some s[i].toNat := by
  have hsub := sub_of_le (s := s) (i := i) (n := 1) h
  rw [Nat.cast_one] at hsub
  rw [byteAt, byteRange, hsub, List.drop_eq_getElem_cons h]
  rfl

theorem byteAt_nil (i : ℤ) : byteAt [] i = none := by
  rw [byteAt, byteRange, sub]
  split_ifs
  · rw [List.drop_nil, List.take_nil]
    rfl
  · rfl

/-! ### Bits -/

/-- The loop of `bxor`. -/
def bxorLoop (r bit a b : ℕ) : ℕ :=
  if 0 < a ∨ 0 < b then
    bxorLoop (if a % 2 ≠ b % 2 then r + bit else r) (bit * 2) (a / 2) (b / 2)
  else r
termination_by a + b

def bxor (a b : ℕ) : ℕ := bxorLoop 0 1 a b

/-- The lowest bit of an exclusive or, and the others. -/
theorem xor_split (a b : ℕ) :
    a ^^^ b = 2 * (a / 2 ^^^ b / 2) + if a % 2 ≠ b % 2 then 1 else 0 := by
  have hlow : (a ^^^ b) % 2 = if a % 2 ≠ b % 2 then 1 else 0 := by
    rw [Nat.xor_mod_two_eq]
    split_ifs <;> omega
  rw [← Nat.xor_div_two, ← hlow, Nat.div_add_mod]

theorem bxorLoop_eq (r bit a b : ℕ) : bxorLoop r bit a b = r + bit * (a ^^^ b) := by
  fun_induction bxorLoop r bit a b with
  | case1 r bit a b hpos ih =>
    simp only [dite_eq_ite] at ih
    rw [ih, xor_split a b]
    split_ifs
    · ring
    · ring
  | case2 r bit a b hzero =>
    obtain ⟨rfl, rfl⟩ : a = 0 ∧ b = 0 := by omega
    rw [Nat.xor_self, Nat.mul_zero, Nat.add_zero]

/-- **The loop is the bitwise operation.** -/
theorem bxor_eq (a b : ℕ) : bxor a b = a ^^^ b := by
  rw [bxor, bxorLoop_eq, Nat.zero_add, Nat.one_mul]

theorem ofNat_bxor (a b : UInt8) : UInt8.ofNat (bxor a.toNat b.toNat) = a ^^^ b := by
  rw [bxor_eq, ← UInt8.toNat_xor, UInt8.ofNat_toNat]

end LuaLib

end Aiomsg
