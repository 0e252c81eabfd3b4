import Mathlib.Data.List.Perm.Basic

/-!
# Removal by swapping

To take an entry out of an array without moving the others up, the last entry is put in its place.
What was before the place stays as it is, and what is behind it is the same entries as before in
some order.

## Scope

The order of the others is not kept, and no theorem says what it comes to. What a user of such an
array may rely on is that nothing is lost and nothing doubled (`perm_swapRemove`), and a loop that
goes on behind the place is right to look at the same place again.
-/

namespace List

variable {α : Type}

/-- Put the last entry in the place `i` and drop it at the end. -/
def swapRemove (l : List α) (i : ℕ) : List α :=
  match l.getLast? with
  | none => []
  | some last => (l.set i last).dropLast

theorem exists_swapRemove_eq (l₁ : List α) (a : α) (l₂ : List α) :
    ∃ l, l.Perm l₂ ∧ (l₁ ++ a :: l₂).swapRemove l₁.length = l₁ ++ l := by
  rcases l₂.eq_nil_or_concat with rfl | ⟨init, last, rfl⟩
  · refine ⟨[], .nil, ?_⟩
    simp [swapRemove]
  · rw [concat_eq_append]
    have hcons : l₁ ++ a :: (init ++ [last]) = l₁ ++ a :: init ++ [last] := by simp
    refine ⟨last :: init, (perm_append_singleton last init).symm, ?_⟩
    rw [hcons, swapRemove, getLast?_concat]
    have hdrop : (last :: init ++ [last]).dropLast = last :: init := dropLast_concat
    simpa using hdrop

/-- The entry that is taken out, and the others. -/
theorem perm_swapRemove {l : List α} {i : ℕ} (h : i < l.length) :
    l.Perm (l[i] :: l.swapRemove i) := by
  have hsplit : l = l.take i ++ l[i] :: l.drop (i + 1) := by simp
  obtain ⟨l₂, hperm, hremove⟩ := exists_swapRemove_eq (l.take i) l[i] (l.drop (i + 1))
  rw [← hsplit, length_take_of_le (Nat.le_of_lt h)] at hremove
  rw [hremove]
  calc
    l.Perm (l.take i ++ l[i] :: l.drop (i + 1)) := .of_eq hsplit
    _ ~ l[i] :: (l.take i ++ l.drop (i + 1)) := perm_middle
    _ ~ l[i] :: (l.take i ++ l₂) := (hperm.symm.append_left _).cons _

end List
