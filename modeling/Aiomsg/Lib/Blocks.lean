import Aiomsg.Lib.Deframe
import Mathlib.Algebra.Order.Ring.Nat

/-!
# Blocks of a fixed size

Cutting a stream into blocks of `n` elements is a deframer that never stops, so the blocks of a
stream do not depend on the pieces that it arrives in. Where the length is a multiple of `n`, the
blocks are `List.toChunks`.

## The last block

`List.toChunks` is how a program that has all of its input at hand cuts it, and has a shorter block
at the end. A deframer keeps that one back. The two agree where there is none, which is where
padding has seen to it.

## Main definitions

* `Deframer.blocks`

## Main results

* `Deframer.getElem?_items_blocks` — the blocks by their numbers
* `Deframer.length_leftover_blocks` — what is left over is what does not fill a block
* `Deframer.toChunks_eq_items`
-/

namespace Deframer

section Blocks

variable (α : Type) (n : ℕ)

/-- Wait for `n` elements. -/
def parseBlock (xs : List α) : Parse α (List α) Empty :=
  if xs.length < n then .more else .item (xs.take n) (xs.drop n)

variable {α n}

theorem parseBlock_append {xs b rest : List α} (h : parseBlock α n xs = .item b rest)
    (ys : List α) : parseBlock α n (xs ++ ys) = .item b (rest ++ ys) := by
  rw [parseBlock] at h ⊢
  split_ifs at h with hlt
  cases h
  have hle : n ≤ xs.length := Nat.le_of_not_lt hlt
  have hlong : ¬ (xs ++ ys).length < n := by
    rw [List.length_append]
    omega
  rw [if_neg hlong, List.take_append_of_le_length hle, List.drop_append_of_le_length hle]

theorem parseBlock_shrinks [NeZero n] {xs b rest : List α}
    (h : parseBlock α n xs = .item b rest) : rest.length < xs.length := by
  have hpos := NeZero.pos n
  rw [parseBlock] at h
  split_ifs at h with hlt
  cases h
  rw [List.length_drop]
  omega

theorem parseBlock_ne_stop {xs : List α} {c : Empty} : parseBlock α n xs ≠ .stop c := c.elim

variable (α n)

/-- Blocks of `n` elements. -/
def blocks [NeZero n] : Deframer α (List α) Empty where
  parse := parseBlock α n
  shrinks := parseBlock_shrinks
  item_append := fun ys h => parseBlock_append h ys
  stop_append := fun _ h => absurd h parseBlock_ne_stop

variable {α n} [NeZero n]

theorem parse_blocks (xs : List α) : (blocks α n).parse xs =
    if xs.length < n then .more else .item (xs.take n) (xs.drop n) := rfl

theorem parse_blocks_of_lt {xs : List α} (h : xs.length < n) :
    (blocks α n).parse xs = .more := if_pos h

theorem parse_blocks_append {b : List α} (h : b.length = n) (xs : List α) :
    (blocks α n).parse (b ++ xs) = .item b xs := by
  have hlong : ¬ (b ++ xs).length < n := by
    rw [List.length_append]
    omega
  rw [parse_blocks, if_neg hlong, List.take_left' h, List.drop_left' h]

/-- Induction along the blocks of a stream. -/
theorem blocks_induction {motive : List α → Prop} (short : ∀ xs, xs.length < n → motive xs)
    (block : ∀ b xs, b.length = n → motive xs → motive (b ++ xs)) (xs : List α) : motive xs := by
  induction xs using (blocks α n).drain_induction with
  | more xs h =>
    rw [parse_blocks] at h
    split_ifs at h with hlt
    exact short xs hlt
  | item xs b rest h ih =>
    rw [parse_blocks] at h
    split_ifs at h with hlt
    cases h
    have hb : (xs.take n).length = n := List.length_take_of_le (Nat.le_of_not_lt hlt)
    rw [← List.take_append_drop n xs]
    exact block _ _ hb ih
  | stop xs c => exact c.elim

theorem leftover_blocks_append {b : List α} (h : b.length = n) (xs : List α) :
    (blocks α n).leftover (b ++ xs) = (blocks α n).leftover xs :=
  leftover_of_item (parse_blocks_append h xs)

theorem items_blocks_append {b : List α} (h : b.length = n) (xs : List α) :
    (blocks α n).items (b ++ xs) = b :: (blocks α n).items xs :=
  items_of_item (parse_blocks_append h xs)

theorem length_leftover_blocks (xs : List α) :
    ((blocks α n).leftover xs).length = xs.length % n := by
  induction xs using blocks_induction (n := n) with
  | short xs h => rw [leftover_of_more (parse_blocks_of_lt h), Nat.mod_eq_of_lt h]
  | block b xs h ih =>
    rw [leftover_blocks_append h, ih, List.length_append, h, Nat.add_mod_left]

theorem length_items_blocks (xs : List α) : ((blocks α n).items xs).length = xs.length / n := by
  induction xs using blocks_induction (n := n) with
  | short xs h =>
    rw [items_of_more (parse_blocks_of_lt h), Nat.div_eq_of_lt h]
    rfl
  | block b xs h ih =>
    rw [items_blocks_append h, List.length_cons, ih, List.length_append, h,
      Nat.add_div_left _ (NeZero.pos n)]

/-- The blocks by their numbers. -/
theorem getElem?_items_blocks {xs : List α} {k : ℕ} (hk : n * k + n ≤ xs.length) :
    ((blocks α n).items xs)[k]? = some ((xs.drop (n * k)).take n) := by
  induction k generalizing xs with
  | zero =>
    rw [Nat.mul_zero, Nat.zero_add] at hk
    have hparse : (blocks α n).parse xs = .item (xs.take n) (xs.drop n) := by
      rw [parse_blocks, if_neg (Nat.not_lt.mpr hk)]
    rw [items_of_item hparse, Nat.mul_zero, List.drop_zero]
    rfl
  | succ k ih =>
    rw [Nat.mul_succ] at hk
    have hparse : (blocks α n).parse xs = .item (xs.take n) (xs.drop n) := by
      rw [parse_blocks, if_neg (by omega)]
    rw [items_of_item hparse, List.getElem?_cons_succ, ih (by rw [List.length_drop]; omega),
      List.drop_drop, Nat.mul_succ, Nat.add_comm n]

/-! ### As chunks of a list -/

theorem toChunks_go_push (k : ℕ) (xs : List α) (front : Array α) (done : Array (List α)) :
    List.toChunks.go k xs front done = done.toList ++ List.toChunks.go k xs front #[] := by
  induction xs generalizing front done with
  | nil => simp [List.toChunks.go]
  | cons x xs ih =>
    rw [List.toChunks.go, List.toChunks.go]
    split_ifs with hfull
    · rw [ih _ (done.push _), ih _ (Array.push #[] _)]
      simp
    · exact ih _ _

theorem toChunks_go_append {k : ℕ} {front : Array α} {b : List α}
    (h : front.size + b.length ≤ k) (xs : List α) (done : Array (List α)) :
    List.toChunks.go k (b ++ xs) front done =
      List.toChunks.go k xs (front ++ b.toArray) done := by
  induction b generalizing front with
  | nil => simp
  | cons x b ih =>
    rw [List.length_cons] at h
    have hroom : ¬ (front.size == k) = true := by
      rw [beq_iff_eq]
      omega
    rw [List.cons_append, List.toChunks.go, if_neg hroom, ih (by rw [Array.size_push]; omega)]
    simp

theorem toChunks_cons (x : α) (xs : List α) :
    (x :: xs).toChunks n = List.toChunks.go n xs #[x] #[] := by
  obtain ⟨k, rfl⟩ : ∃ k, n = k + 1 := Nat.exists_eq_succ_of_ne_zero (NeZero.ne n)
  rw [List.toChunks]
  exact Nat.succ_ne_zero k

theorem toChunks_append {b : List α} (h : b.length = n) (xs : List α) :
    (b ++ xs).toChunks n = b :: xs.toChunks n := by
  obtain ⟨c, b, rfl⟩ := List.exists_cons_of_length_pos (h ▸ NeZero.pos n)
  have hsize : #[c].size + b.length = n := (Nat.add_comm _ _).trans h
  have hfull : ((#[c] ++ b.toArray).size == n) = true := by
    rw [beq_iff_eq, Array.size_append]
    exact hsize
  rw [List.cons_append, toChunks_cons, toChunks_go_append hsize.le]
  cases xs with
  | nil => simp [List.toChunks, List.toChunks.go]
  | cons x xs =>
    rw [List.toChunks.go, if_pos hfull, toChunks_go_push, toChunks_cons]
    simp

theorem toChunks_eq_items {xs : List α} (h : n ∣ xs.length) :
    xs.toChunks n = (blocks α n).items xs := by
  induction xs using blocks_induction (n := n) with
  | short xs hlt =>
    obtain rfl := List.length_eq_zero_iff.mp (Nat.eq_zero_of_dvd_of_lt h hlt)
    rw [items_of_more (parse_blocks_of_lt hlt), List.toChunks]
  | block b xs hb ih =>
    rw [List.length_append, hb] at h
    rw [toChunks_append hb, items_blocks_append hb, ih ((Nat.dvd_add_right (dvd_refl n)).mp h)]

end Blocks

end Deframer
