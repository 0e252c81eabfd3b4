import Mathlib.Data.List.DropRight
import Mathlib.Data.List.Infix

/-!
# Searching and splitting

Finding a sequence in another, and cutting at separators, over any type with decidable equality.
What a search finds it has found as soon as all of it is there: searching a prefix finds the first
occurrence if that ends in it, and nothing else (`findEnd_take`).

## Conventions

Searches are for the first occurrence. `atPair` cuts at every occurrence, and `once` at the first
one only; neither drops the empty pieces, so a text that ends with a separator has an empty piece at
its end, as the splitting functions of most languages have it.
-/

namespace Split

variable {α : Type} [DecidableEq α]

/-- Where a sequence first occurs in another. -/
def find (needle : List α) : List α → Option ℕ
  | [] => if needle = [] then some 0 else none
  | x :: xs => if needle <+: x :: xs then some 0 else (find needle xs).map (· + 1)

/-- The end of the first occurrence. -/
def findEnd (needle xs : List α) : Option ℕ := (find needle xs).map (· + needle.length)

/-- Cut at every `x` that is followed by a `y`. -/
def atPair (x y : α) : List α → List (List α)
  | [] => [[]]
  | [a] => [[a]]
  | a :: b :: rest =>
    if a = x ∧ b = y then [] :: atPair x y rest
    else
      match atPair x y (b :: rest) with
      | [] => [[a]]
      | piece :: pieces => (a :: piece) :: pieces

/-- Cut at the first `x`, if there is one. -/
def once (x : α) (xs : List α) : Option (List α × List α) :=
  if x ∈ xs then some (xs.takeWhile (· ≠ x), (xs.dropWhile (· ≠ x)).tail) else none

/-- Without what passes the test at either end. -/
def trim (p : α → Bool) (xs : List α) : List α := (xs.dropWhile p).rdropWhile p

variable {needle xs : List α} {i : ℕ}

theorem find_add_length_le (h : find needle xs = some i) : i + needle.length ≤ xs.length := by
  induction xs generalizing i with
  | nil =>
    rw [find] at h
    split_ifs at h with hnil
    obtain rfl := Option.some.inj h
    simp [hnil]
  | cons x xs ih =>
    rw [find] at h
    split_ifs at h with hpre
    · obtain rfl := Option.some.inj h
      have hle := hpre.length_le
      omega
    · obtain ⟨j, hj, rfl⟩ := Option.map_eq_some_iff.mp h
      have hle := ih hj
      rw [List.length_cons]
      omega

/-- **Searching a prefix** finds the first occurrence if it ends in the prefix. -/
theorem find_take_of_le (h : find needle xs = some i) {k : ℕ} (hk : i + needle.length ≤ k) :
    find needle (xs.take k) = some i := by
  induction xs generalizing i k with
  | nil => rwa [List.take_nil]
  | cons x xs ih =>
    rw [find] at h
    split_ifs at h with hpre
    · obtain rfl := Option.some.inj h
      rw [Nat.zero_add] at hk
      have htake : needle <+: (x :: xs).take k := by
        rw [List.prefix_take_iff]
        exact ⟨hpre, hk⟩
      match hlist : (x :: xs).take k with
      | [] =>
        rw [hlist, List.prefix_nil] at htake
        rw [find, if_pos htake]
      | y :: ys =>
        rw [hlist] at htake
        rw [find, if_pos htake]
    · obtain ⟨j, hj, rfl⟩ := Option.map_eq_some_iff.mp h
      obtain ⟨k, rfl⟩ : ∃ n, k = n + 1 := ⟨k - 1, by omega⟩
      have hnot : ¬ needle <+: x :: xs.take k := by
        intro hshort
        refine hpre (hshort.trans ?_)
        rw [← List.take_succ_cons]
        exact List.take_prefix _ _
      rw [List.take_succ_cons, find, if_neg hnot, ih hj (by omega)]
      rfl

/-- What has been found stays found. -/
theorem find_append (h : find needle xs = some i) (ys : List α) :
    find needle (xs ++ ys) = some i := by
  induction xs generalizing i with
  | nil =>
    rw [find] at h
    split_ifs at h with hnil
    subst hnil
    cases ys with
    | nil => exact h
    | cons y ys => rw [List.nil_append, find, if_pos List.nil_prefix, ← h]
  | cons x xs ih =>
    rw [find] at h
    rw [List.cons_append, find]
    split_ifs at h with hpre
    · have hlong : needle <+: x :: (xs ++ ys) := hpre.trans (List.prefix_append (x :: xs) ys)
      rw [if_pos hlong, ← h]
    · obtain ⟨j, hj, rfl⟩ := Option.map_eq_some_iff.mp h
      -- it does not begin at `x` either when more follows: it fits into what is there
      have hnot : ¬ needle <+: x :: (xs ++ ys) := by
        intro hlong
        have hle := find_add_length_le hj
        have hfit : needle.length ≤ (x :: xs).length := by
          rw [List.length_cons]
          omega
        exact hpre (List.prefix_of_prefix_length_le hlong (List.prefix_append (x :: xs) ys) hfit)
      rw [if_neg hnot, ih hj]
      rfl

theorem find_of_take {k : ℕ} (h : find needle (xs.take k) = some i) : find needle xs = some i := by
  have happend := find_append h (xs.drop k)
  rwa [List.take_append_drop] at happend

/-- **Searching a prefix** finds the first occurrence if that ends in it, and nothing otherwise. -/
theorem findEnd_take (needle xs : List α) (k : ℕ) :
    findEnd needle (xs.take k) = (findEnd needle xs).filter (· ≤ k) := by
  rw [findEnd, findEnd]
  match hshort : find needle (xs.take k) with
  | some i =>
    have hle := find_add_length_le hshort
    have hk : i + needle.length ≤ k := hle.trans (List.length_take_le _ _)
    rw [find_of_take hshort]
    simp [Option.filter, hk]
  | none =>
    match hlong : find needle xs with
    | none => rfl
    | some i =>
      have hk : ¬ i + needle.length ≤ k := by
        intro hk
        rw [find_take_of_le hlong hk] at hshort
        exact absurd hshort (by simp)
      simp [Option.filter, hk]

theorem findEnd_le {n : ℕ} (h : findEnd needle xs = some n) : n ≤ xs.length := by
  obtain ⟨i, hi, rfl⟩ := Option.map_eq_some_iff.mp h
  exact find_add_length_le hi

/-- Elements that the sequence does not begin with are passed over. -/
theorem find_append_of_forall_ne {c : α} {cs : List α} (hne : ∀ x ∈ xs, x ≠ c) (ys : List α) :
    find (c :: cs) (xs ++ ys) = (find (c :: cs) ys).map (· + xs.length) := by
  induction xs with
  | nil => simp
  | cons x xs ih =>
    have hnot : ¬ c :: cs <+: x :: (xs ++ ys) := by
      rw [List.cons_prefix_cons]
      exact fun h => hne x List.mem_cons_self h.1.symm
    rw [List.cons_append, find, if_neg hnot, ih fun y hy => hne y (List.mem_cons_of_mem _ hy),
      Option.map_map]
    rfl

/-- What comes before the first `x` is the first piece, if a `y` follows. -/
theorem atPair_append {x y : α} (hnot : x ∉ xs) (ys : List α) :
    atPair x y (xs ++ x :: y :: ys) = xs :: atPair x y ys := by
  induction xs with
  | nil => rw [List.nil_append, atPair, if_pos ⟨rfl, rfl⟩]
  | cons a xs ih =>
    rw [List.mem_cons, not_or] at hnot
    have hpiece := ih hnot.2
    obtain ⟨b, rest, hrest⟩ : ∃ b rest, xs ++ x :: y :: ys = b :: rest := by
      cases xs <;> exact ⟨_, _, rfl⟩
    rw [hrest] at hpiece
    rw [List.cons_append, hrest, atPair, if_neg fun h => hnot.1 h.1.symm, hpiece]

end Split
