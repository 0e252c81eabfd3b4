import Aiomsg.Lib.Traced
import Aiomsg.LuaLib.Base
import Aiomsg.Ws.Accept
import Mathlib.Data.Rat.Floor
import Mathlib.Tactic.NormNum

/-!
# Word operations on Lua numbers

`band`, `bor`, `bxor` and `rotl32` of `lua-lib/aiomsg/ws.lua` once more, as what they are there:
arithmetic on numbers that the host may have to round. A host is the function `rnd`, which every
result of an operation passes through. Doubles have all integers below `2 ^ 53`, and the quotients
of these by small powers of two; where a host has integers of 64 bits as well, these have the same
integers. That is `Exact`, and all that is asked of a host.

An operation leaves what it comes to. The only operands of `math.floor` are quotients, and these
are told apart from the other numbers, for they are no integers.

## Scope

A host is asked for nothing but `Exact`: what it does with numbers that are not exact is open, and
that none of these comes up is part of what is proved. Comparison and `math.floor` are exact on
every host. Negative numbers do not come up.

## Main definitions

* `Intermediate`, `Fine` — what an operation comes to
* `Arith.band`, `Arith.bor`, `Arith.bxor`, `Arith.rotl32`

## Main results

* `Arith.yields_bitLoop` — the three loops are one
* `Arith.yields_band`, `Arith.yields_bor`, `Arith.yields_bxor`, `Arith.yields_rotl32`
-/

namespace Aiomsg

namespace LuaLib

open Traced

/-- What an operation comes to: a number, or a quotient under `math.floor`. -/
inductive Intermediate where
  | number (q : ℚ)
  | quotient (q : ℚ)
deriving DecidableEq

def Intermediate.val : Intermediate → ℚ
  | .number q => q
  | .quotient q => q

/-- A number that doubles have, as an integer over a small power of two. -/
def Exact (q : ℚ) : Prop := ∃ n k : ℕ, n < 2 ^ 53 ∧ k ≤ 32 ∧ q = n / 2 ^ k

/-- An integer that doubles have, or a quotient of one. -/
def Fine : Intermediate → Prop
  | .number q => ∃ n : ℕ, n < 2 ^ 53 ∧ q = n
  | .quotient q => Exact q

abbrev Lua := Traced Intermediate

namespace Arith

/-! ### Operations -/

section Operations

variable (rnd : ℚ → ℚ)

def number (q : ℚ) : Lua ℚ := emit (.number (rnd q)) (rnd q)

def add (x y : ℚ) : Lua ℚ := number rnd (x + y)

def sub (x y : ℚ) : Lua ℚ := number rnd (x - y)

def mul (x y : ℚ) : Lua ℚ := number rnd (x * y)

/-- `x % y` -/
def mod (x y : ℚ) : Lua ℚ := number rnd (x - ⌊x / y⌋ * y)

/-- `x ^ y`, where `y` is an integer. -/
def pow (x y : ℚ) : Lua ℚ := number rnd (x ^ ⌊y⌋)

/-- `math.floor(x / y)` -/
def floorDiv (x y : ℚ) : Lua ℚ := do
  let q ← emit (.quotient (rnd (x / y))) (rnd (x / y))
  number rnd ⌊q⌋

/-- `if set then r = r + bit end` -/
def addIf (set : Bool) (r bit : ℚ) : Lua ℚ := if set then add rnd r bit else pure r

/-- The loop that the bitwise operations are, for so many turns: while there may be bits left, the
one at `bit` is added to `r` if the test of the lowest bits says so. -/
def bitLoop (more : ℚ → ℚ → Bool) (test : ℚ → ℚ → Lua Bool) : ℕ → ℚ → ℚ → ℚ → ℚ → Lua ℚ
  | 0, _, _, _, _ => fail
  | turns + 1, r, bit, a, b =>
    if more a b then do
      let set ← test a b
      let r ← addIf rnd set r bit
      let a ← floorDiv rnd a (2 : ℕ)
      let b ← floorDiv rnd b (2 : ℕ)
      let bit ← mul rnd bit (2 : ℕ)
      bitLoop more test turns r bit a b
    else pure r

/-- `x % 2 == 1` -/
def odd (x : ℚ) : Lua Bool := do
  let low ← mod rnd x (2 : ℕ)
  pure (low = (1 : ℕ))

/-- `a > 0 and b > 0`, and then `a % 2 == 1 and b % 2 == 1`. -/
def band (turns : ℕ) (a b : ℚ) : Lua ℚ :=
  bitLoop rnd (fun a b => 0 < a && 0 < b)
    (fun a b => do
      let set ← odd rnd a
      if set then odd rnd b else pure false)
    turns (0 : ℕ) (1 : ℕ) a b

/-- `a > 0 or b > 0`, and then `a % 2 == 1 or b % 2 == 1`. -/
def bor (turns : ℕ) (a b : ℚ) : Lua ℚ :=
  bitLoop rnd (fun a b => 0 < a || 0 < b)
    (fun a b => do
      let set ← odd rnd a
      if set then pure true else odd rnd b)
    turns (0 : ℕ) (1 : ℕ) a b

/-- `a > 0 or b > 0`, and then `a % 2 ~= b % 2`. -/
def bxor (turns : ℕ) (a b : ℚ) : Lua ℚ :=
  bitLoop rnd (fun a b => 0 < a || 0 < b)
    (fun a b => do
      let low ← mod rnd a (2 : ℕ)
      let low' ← mod rnd b (2 : ℕ)
      pure (low ≠ low'))
    turns (0 : ℕ) (1 : ℕ) a b

/-- `(x % hi) * (2 ^ n) + math.floor(x / hi)`, where `hi` is `2 ^ (32 - n)`. -/
def rotl32 (x n : ℚ) : Lua ℚ := do
  let x ← mod rnd x (0x100000000 : ℕ)
  let rest ← sub rnd (32 : ℕ) n
  let hi ← pow rnd (2 : ℕ) rest
  let low ← mod rnd x hi
  let shift ← pow rnd (2 : ℕ) n
  let upper ← mul rnd low shift
  let lower ← floorDiv rnd x hi
  add rnd upper lower

end Operations

/-! ### Integers and their bits -/

theorem exact_natCast {n : ℕ} (h : n < 2 ^ 53) : Exact n :=
  ⟨n, 0, h, Nat.zero_le _, by rw [pow_zero, div_one]⟩

theorem floor_natCast_div (x y : ℕ) : ⌊(x : ℚ) / y⌋ = ((x / y : ℕ) : ℤ) := by
  rw [Rat.floor_natCast_div_natCast, Int.natCast_ediv]

/-- The lowest bits, and the others. -/
theorem bitwise_split {f : Bool → Bool → Bool} (hf : f false false = false) (a b : ℕ) :
    Nat.bitwise f a b =
      (f (a % 2 = 1) (b % 2 = 1)).toNat + 2 * Nat.bitwise f (a / 2) (b / 2) := by
  have hlow := Nat.testBit_bitwise hf a b 0
  have hothers := Nat.bitwise_div_two_pow (x := a) (y := b) (n := 1) hf
  rw [Nat.testBit_zero, Nat.testBit_zero, Nat.testBit_zero] at hlow
  rw [pow_one] at hothers
  rw [← hlow, ← hothers]
  rcases Nat.mod_two_eq_zero_or_one (Nat.bitwise f a b) with h | h
  · rw [h, decide_eq_false (by decide), Bool.toNat_false]
    omega
  · rw [h, decide_eq_true rfl, Bool.toNat_true]
    omega

theorem pos_natCast (a : ℕ) : decide ((0 : ℚ) < a) = decide (0 < a) :=
  decide_eq_decide.mpr Nat.cast_pos

/-- `a > 0 or b > 0` -/
theorem zero_of_not_more {a b : ℕ} (h : (decide ((0 : ℚ) < a) || decide ((0 : ℚ) < b)) = false) :
    a = 0 ∧ b = 0 := by
  rw [pos_natCast, pos_natCast, Bool.or_eq_false_iff, decide_eq_false_iff_not,
    decide_eq_false_iff_not] at h
  omega

/-- A rotation moves the bits that stay up, and puts the others behind them. -/
theorem toNat_rotateLeft {n : ℕ} (hn : 0 < n) (hlt : n < 32) (x : UInt32) :
    (Ws.rotateLeft x (UInt32.ofNat n)).toNat =
      x.toNat % 2 ^ (32 - n) * 2 ^ n + x.toNat / 2 ^ (32 - n) := by
  have hword : 2 ^ (32 - n) * 2 ^ n = 2 ^ 32 := by
    rw [← pow_add, Nat.sub_add_cancel hlt.le]
  have hshift : (UInt32.ofNat n).toNat = n :=
    UInt32.toNat_ofNat_of_lt' (by show n < 2 ^ 32; omega)
  have hback : (32 - UInt32.ofNat n).toNat = 32 - n := by
    rw [UInt32.toNat_sub_of_le _ _ (UInt32.le_iff_toNat_le.mpr (by rw [hshift]; exact hlt.le)),
      hshift]
    rfl
  have hlow : x.toNat / 2 ^ (32 - n) < 2 ^ n :=
    Nat.div_lt_of_lt_mul (by rw [hword]; exact x.toNat_lt)
  have hjoin := BigEndian.shiftLeft_or (a := x.toNat % 2 ^ (32 - n)) hlow
  rw [Nat.shiftLeft_eq] at hjoin
  rw [Ws.rotateLeft, UInt32.toNat_or, UInt32.toNat_shiftLeft, UInt32.toNat_shiftRight, hshift,
    hback, Nat.mod_eq_of_lt hlt, Nat.mod_eq_of_lt (by omega : 32 - n < 32), Nat.shiftLeft_eq,
    Nat.shiftRight_eq_div_pow, ← hword, Nat.mul_mod_mul_right, hjoin]

/-! ### Operations on integers -/

section Integers

variable {rnd : ℚ → ℚ} (hrnd : ∀ q, Exact q → rnd q = q)

include hrnd

theorem yields_number {n : ℕ} (h : n < 2 ^ 53) : Yields Fine (number rnd n) (n : ℚ) := by
  rw [number, hrnd _ (exact_natCast h)]
  exact Yields.emit ⟨n, h, rfl⟩ _

theorem yields_add {x y : ℕ} (h : x + y < 2 ^ 53) :
    Yields Fine (add rnd x y) ((x + y : ℕ) : ℚ) := by
  rw [add, ← Nat.cast_add]
  exact yields_number hrnd h

theorem yields_sub {x y : ℕ} (hle : y ≤ x) (h : x < 2 ^ 53) :
    Yields Fine (sub rnd x y) ((x - y : ℕ) : ℚ) := by
  rw [sub, ← Nat.cast_sub hle]
  exact yields_number hrnd (lt_of_le_of_lt (Nat.sub_le x y) h)

theorem yields_mul {x y : ℕ} (h : x * y < 2 ^ 53) :
    Yields Fine (mul rnd x y) ((x * y : ℕ) : ℚ) := by
  rw [mul, ← Nat.cast_mul]
  exact yields_number hrnd h

theorem yields_mod {x : ℕ} (y : ℕ) (h : x < 2 ^ 53) :
    Yields Fine (mod rnd x y) ((x % y : ℕ) : ℚ) := by
  have hmod : (x : ℚ) - ⌊(x : ℚ) / y⌋ * y = ((x % y : ℕ) : ℚ) := by
    have hdiv : (x : ℚ) = ((y * (x / y) + x % y : ℕ) : ℚ) := by rw [Nat.div_add_mod]
    rw [floor_natCast_div, Int.cast_natCast, sub_eq_iff_eq_add, hdiv]
    push_cast
    ring
  rw [mod, hmod]
  exact yields_number hrnd (lt_of_le_of_lt (Nat.mod_le x y) h)

theorem yields_pow {x y : ℕ} (h : x ^ y < 2 ^ 53) :
    Yields Fine (pow rnd x y) ((x ^ y : ℕ) : ℚ) := by
  rw [pow, Int.floor_natCast, zpow_natCast, ← Nat.cast_pow]
  exact yields_number hrnd h

/-- The quotient is exact, since it is by a power of two. -/
theorem yields_floorDiv {x k : ℕ} (h : x < 2 ^ 53) (hk : k ≤ 32) :
    Yields Fine (floorDiv rnd x (2 ^ k : ℕ)) ((x / 2 ^ k : ℕ) : ℚ) := by
  have hexact : Exact ((x : ℚ) / (2 ^ k : ℕ)) :=
    ⟨x, k, h, hk, by rw [Nat.cast_pow, Nat.cast_ofNat]⟩
  have hfloor : ((⌊(x : ℚ) / (2 ^ k : ℕ)⌋ : ℤ) : ℚ) = ((x / 2 ^ k : ℕ) : ℚ) := by
    rw [floor_natCast_div, Int.cast_natCast]
  rw [floorDiv, hrnd _ hexact]
  refine (Yields.emit (e := Intermediate.quotient _) hexact _).bind ?_
  rw [hfloor]
  exact yields_number hrnd (lt_of_le_of_lt (Nat.div_le_self _ _) h)

theorem yields_half {x : ℕ} (h : x < 2 ^ 53) :
    Yields Fine (floorDiv rnd x (2 : ℕ)) ((x / 2 : ℕ) : ℚ) :=
  yields_floorDiv (k := 1) hrnd h (by decide)

/-! ### The loops -/

/-- One bit of the result. -/
theorem yields_addIf (set : Bool) {r bit : ℕ} (h : r + bit < 2 ^ 53) :
    Yields Fine (addIf rnd set r bit) ((r + bit * set.toNat : ℕ) : ℚ) := by
  cases set with
  | false =>
    rw [Bool.toNat_false, Nat.mul_zero, Nat.add_zero]
    exact Yields.pure _
  | true =>
    rw [Bool.toNat_true, Nat.mul_one]
    exact yields_add hrnd h

/-- **A loop over the bits** of two words of `n` bits, from bit `j` of the result on. -/
theorem yields_bitLoop {f : Bool → Bool → Bool} (hf : f false false = false)
    {more : ℚ → ℚ → Bool} {test : ℚ → ℚ → Lua Bool} (hzero : more (0 : ℕ) (0 : ℕ) = false)
    (hmore : ∀ a b : ℕ, more a b = false → Nat.bitwise f a b = 0)
    (htest : ∀ a b : ℕ, a < 2 ^ 53 → b < 2 ^ 53 →
      Yields Fine (test a b) (f (a % 2 = 1) (b % 2 = 1)))
    {j n turns r a b : ℕ} (hsum : j + n = 32) (hturns : n < turns) (hr : r < 2 ^ j)
    (ha : a < 2 ^ n) (hb : b < 2 ^ n) :
    Yields Fine (bitLoop rnd more test turns r (2 ^ j : ℕ) a b)
      ((r + 2 ^ j * Nat.bitwise f a b : ℕ) : ℚ) := by
  -- the bits that are left; `r` has those below `j`, and stays below `2 ^ j`
  induction n generalizing j turns r a b with
  | zero =>
    obtain ⟨turns, rfl⟩ := Nat.exists_eq_succ_of_ne_zero (Nat.ne_of_gt hturns)
    obtain rfl : a = 0 := by omega
    obtain rfl : b = 0 := by omega
    rw [bitLoop, hzero, hmore 0 0 hzero, Nat.mul_zero, Nat.add_zero]
    exact Yields.pure _
  | succ n ih =>
    obtain ⟨turns, rfl⟩ := Nat.exists_eq_succ_of_ne_zero (by omega : turns ≠ 0)
    rw [bitLoop]
    cases hgo : more a b with
    | false =>
      rw [hmore a b hgo, Nat.mul_zero, Nat.add_zero]
      exact Yields.pure _
    | true =>
      have hbit : 2 ^ j * 2 ≤ 2 ^ 32 := by
        rw [← pow_succ]
        exact Nat.pow_le_pow_right (by decide) (by omega)
      have hword : 2 ^ (n + 1) ≤ 2 ^ 32 := Nat.pow_le_pow_right (by decide) (by omega)
      rw [pow_succ] at ha hb hword
      set low := f (a % 2 = 1) (b % 2 = 1)
      have hset : 2 ^ j * low.toNat ≤ 2 ^ j * 1 := Nat.mul_le_mul_left _ (Bool.toNat_le low)
      have hall : r + 2 ^ j * Nat.bitwise f a b =
          r + 2 ^ j * low.toNat + 2 ^ (j + 1) * Nat.bitwise f (a / 2) (b / 2) := by
        rw [bitwise_split hf a b]
        ring
      rw [if_pos rfl, hall]
      have ha' : a < 2 ^ 53 := by omega
      have hb' : b < 2 ^ 53 := by omega
      refine (htest a b ha' hb').bind ?_
      refine (yields_addIf hrnd low (by omega : r + 2 ^ j < 2 ^ 53)).bind ?_
      refine (yields_half hrnd ha').bind ?_
      refine (yields_half hrnd hb').bind ?_
      refine (yields_mul hrnd (by omega : 2 ^ j * 2 < 2 ^ 53)).bind ?_
      exact ih (j := j + 1) (by omega) (by omega) (by rw [pow_succ]; omega) (by omega) (by omega)

theorem yields_odd {x : ℕ} (h : x < 2 ^ 53) :
    Yields Fine (odd rnd x) (x % 2 = 1 : Bool) := by
  refine (yields_mod hrnd 2 h).bind ?_
  have heq : decide (((x % 2 : ℕ) : ℚ) = (1 : ℕ)) = decide (x % 2 = 1) :=
    decide_eq_decide.mpr Nat.cast_inj
  rw [heq]
  exact Yields.pure _

/-- The loops on words. -/
theorem yields_loop {f : Bool → Bool → Bool} (hf : f false false = false)
    {more : ℚ → ℚ → Bool} {test : ℚ → ℚ → Lua Bool} (hzero : more (0 : ℕ) (0 : ℕ) = false)
    (hmore : ∀ a b : ℕ, more a b = false → Nat.bitwise f a b = 0)
    (htest : ∀ a b : ℕ, a < 2 ^ 53 → b < 2 ^ 53 →
      Yields Fine (test a b) (f (a % 2 = 1) (b % 2 = 1)))
    {turns : ℕ} (hturns : 32 < turns) (x y : UInt32) :
    Yields Fine (bitLoop rnd more test turns (0 : ℕ) (1 : ℕ) x.toNat y.toNat)
      (Nat.bitwise f x.toNat y.toNat : ℚ) := by
  have hloop := yields_bitLoop (j := 0) (r := 0) hrnd hf hzero hmore htest (Nat.zero_add 32) hturns
    Nat.one_pos x.toNat_lt y.toNat_lt
  rwa [Nat.zero_add, pow_zero, Nat.one_mul] at hloop

theorem yields_band {turns : ℕ} (hturns : 32 < turns)
    (x y : UInt32) : Yields Fine (band rnd turns x.toNat y.toNat) ((x &&& y).toNat : ℚ) := by
  rw [UInt32.toNat_and]
  refine yields_loop (f := and) hrnd rfl ?_ ?_ ?_ hturns x y
  · rw [pos_natCast]
    rfl
  · intro a b hmore
    rw [pos_natCast, pos_natCast] at hmore
    rcases Nat.eq_zero_or_pos a with rfl | ha
    · rw [Nat.bitwise_zero_left]
      rfl
    · rcases Nat.eq_zero_or_pos b with rfl | hb
      · rw [Nat.bitwise_zero_right]
        rfl
      · rw [decide_eq_true ha, decide_eq_true hb] at hmore
        cases hmore
  · intro a b ha hb
    refine (yields_odd hrnd ha).bind ?_
    cases decide (a % 2 = 1) with
    | false => exact Yields.pure _
    | true => exact yields_odd hrnd hb

theorem yields_bor {turns : ℕ} (hturns : 32 < turns)
    (x y : UInt32) : Yields Fine (bor rnd turns x.toNat y.toNat) ((x ||| y).toNat : ℚ) := by
  rw [UInt32.toNat_or]
  refine yields_loop (f := or) hrnd rfl ?_ ?_ ?_ hturns x y
  · rw [pos_natCast]
    rfl
  · intro a b hmore
    obtain ⟨rfl, rfl⟩ := zero_of_not_more hmore
    exact Nat.bitwise_zero
  · intro a b ha hb
    refine (yields_odd hrnd ha).bind ?_
    cases decide (a % 2 = 1) with
    | false => exact yields_odd hrnd hb
    | true => exact Yields.pure _

theorem yields_bxor {turns : ℕ} (hturns : 32 < turns)
    (x y : UInt32) : Yields Fine (bxor rnd turns x.toNat y.toNat) ((x ^^^ y).toNat : ℚ) := by
  rw [UInt32.toNat_xor]
  refine yields_loop (f := bne) hrnd rfl ?_ ?_ ?_ hturns x y
  · rw [pos_natCast]
    rfl
  · intro a b hmore
    obtain ⟨rfl, rfl⟩ := zero_of_not_more hmore
    exact Nat.bitwise_zero
  · intro a b ha hb
    refine (yields_mod hrnd 2 ha).bind ?_
    refine (yields_mod hrnd 2 hb).bind ?_
    have hcast : decide (((a % 2 : ℕ) : ℚ) ≠ (b % 2 : ℕ)) = decide (a % 2 ≠ b % 2) :=
      decide_eq_decide.mpr Nat.cast_injective.ne_iff
    have heq : decide (a % 2 ≠ b % 2) = (decide (a % 2 = 1) != decide (b % 2 = 1)) := by
      rcases Nat.mod_two_eq_zero_or_one a with h | h <;>
        rcases Nat.mod_two_eq_zero_or_one b with h' | h' <;> simp [h, h']
    rw [hcast, heq]
    exact Yields.pure _

theorem yields_rotl32 {n : ℕ} (hn : 0 < n) (hlt : n < 32)
    (x : UInt32) :
    Yields Fine (rotl32 rnd x.toNat n) ((Ws.rotateLeft x (UInt32.ofNat n)).toNat : ℚ) := by
  have hx : x.toNat < 0x100000000 := x.toNat_lt
  have hpow : 2 ^ n < 2 ^ 32 := Nat.pow_lt_pow_right (by decide) hlt
  have hhi : 2 ^ (32 - n) < 2 ^ 32 := Nat.pow_lt_pow_right (by decide) (by omega)
  have hword : 2 ^ (32 - n) * 2 ^ n = 2 ^ 32 := by
    rw [← pow_add, Nat.sub_add_cancel hlt.le]
  have hupper : x.toNat % 2 ^ (32 - n) * 2 ^ n < 2 ^ 32 := by
    rw [← hword]
    exact Nat.mul_lt_mul_of_pos_right (Nat.mod_lt _ (by positivity)) (by positivity)
  have hlower : x.toNat / 2 ^ (32 - n) ≤ x.toNat := Nat.div_le_self _ _
  have hlow : x.toNat % 2 ^ (32 - n) ≤ x.toNat := Nat.mod_le _ _
  rw [toNat_rotateLeft hn hlt, rotl32]
  refine (yields_mod hrnd 0x100000000 (by omega : x.toNat < 2 ^ 53)).bind ?_
  rw [Nat.mod_eq_of_lt hx]
  refine (yields_sub hrnd hlt.le (by decide)).bind ?_
  refine (yields_pow hrnd (by omega : 2 ^ (32 - n) < 2 ^ 53)).bind ?_
  refine (yields_mod hrnd (2 ^ (32 - n)) (by omega : x.toNat < 2 ^ 53)).bind ?_
  refine (yields_pow hrnd (by omega : 2 ^ n < 2 ^ 53)).bind ?_
  refine (yields_mul hrnd (by omega : x.toNat % 2 ^ (32 - n) * 2 ^ n < 2 ^ 53)).bind ?_
  refine (yields_floorDiv hrnd (by omega : x.toNat < 2 ^ 53) (Nat.sub_le 32 n)).bind ?_
  exact yields_add hrnd (by omega)

end Integers

end Arith

end LuaLib

end Aiomsg
