import Mathlib.Data.Int.Basic
import Mathlib.Algebra.Order.Ring.Int
import Mathlib.Tactic.Positivity

/-!
# Signed machine integers

A signed `w`-bit register holds the balanced residue of what was put into it. `wrap w n` is that
residue as an integer, so that a sum of two registers is `wrap w (a + b)` and a cast of a wider one
is `wrap w a`.

## Scope

A sum is wrapped once, at its end. That intermediate results wrap too makes no difference to it,
since a residue does not depend on when it is taken; a comparison of intermediate results is another
matter, and is made where it is made.

## Main results

* `wrap_of_fits` — a number in the signed range is held as it is
* `wrap_unsigned` — an unsigned number with the top bit set reads as what it is short of `2 ^ w`
-/

namespace TwosComplement

/-- What a signed register of `w` bits holds. -/
def wrap (w : ℕ) (n : ℤ) : ℤ := n.bmod (2 ^ w)

theorem wrap_of_fits {w : ℕ} {n : ℤ} (lo : -(2 ^ w : ℤ) ≤ 2 * n) (hi : 2 * n < 2 ^ w) :
    wrap w n = n :=
  Int.bmod_eq_of_le_mul_two (by push_cast; omega) (by push_cast; omega)

theorem le_wrap (w : ℕ) (n : ℤ) : -(2 ^ w : ℤ) ≤ 2 * wrap w n := by
  have hle := Int.le_bmod (x := n) (m := 2 ^ w) (by positivity)
  rw [wrap]
  push_cast at hle ⊢
  omega

theorem wrap_lt (w : ℕ) (n : ℤ) : 2 * wrap w n < 2 ^ w := by
  have hlt := Int.bmod_lt (x := n) (m := 2 ^ w) (by positivity)
  rw [wrap]
  push_cast at hlt ⊢
  omega

theorem wrap_add_modulus (w : ℕ) (n : ℤ) : wrap w (n + 2 ^ w) = wrap w n := by
  have hcast : (2 ^ w : ℤ) = ((2 ^ w : ℕ) : ℤ) := by push_cast; rfl
  rw [wrap, wrap, hcast, Int.add_bmod_right]

/-- A cast that reads an unsigned number as a signed one. -/
theorem wrap_unsigned {w : ℕ} {n : ℤ} (lo : (2 ^ w : ℤ) ≤ 2 * n) (hi : n < 2 ^ w) :
    wrap w n = n - 2 ^ w := by
  have hback := wrap_add_modulus w (n - 2 ^ w)
  rw [Int.sub_add_cancel] at hback
  rw [hback, wrap_of_fits (by omega) (by omega)]

/-- A register differs from what was put into it by a multiple of `2 ^ w`. -/
theorem wrap_emod (w : ℕ) (n : ℤ) : wrap w n % 2 ^ w = n % 2 ^ w := by
  have hcast : (2 ^ w : ℤ) = ((2 ^ w : ℕ) : ℤ) := by push_cast; rfl
  rw [wrap, hcast, Int.bmod_emod]

end TwosComplement
