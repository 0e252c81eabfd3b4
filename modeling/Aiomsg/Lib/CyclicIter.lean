import Mathlib.Data.List.Rotate

/-!
# Cyclic iterators

An iterator that goes through another one, saves what it gives, and goes round what it has saved
when the other one is at its end. What it will give in one round is a list, `upcoming`, and a step
rotates it by one. So an iterator over a list, from wherever it stands, gives what is in that list
and nothing else.

## Main definitions

* `CyclicIter`, `CyclicIter.next` — the iterator
* `CyclicIter.upcoming` — one round, from where it stands

## Main results

* `CyclicIter.next_fst`, `CyclicIter.upcoming_next` — a step gives the head and rotates
* `CyclicIter.take_of_upcoming` — what several steps give
-/

/-- A cyclic iterator. -/
structure CyclicIter (α : Type*) where
  /-- What the other iterator has yet to give, as long as it is there. -/
  source : Option (List α)
  saved : List α
  index : ℕ

namespace CyclicIter

variable {α : Type*} {c : CyclicIter α}

def ofList (xs : List α) : CyclicIter α := ⟨some xs, [], 0⟩

/-- A step through what is saved. -/
def again (c : CyclicIter α) : Option α × CyclicIter α :=
  match c.saved[c.index]? with
  | some x => (some x, ⟨none, c.saved, if c.index + 1 = c.saved.length then 0 else c.index + 1⟩)
  | none => (none, ⟨none, c.saved, c.index⟩)

def next (c : CyclicIter α) : Option α × CyclicIter α :=
  match c.source with
  | some (x :: rest) => (some x, ⟨some rest, c.saved ++ [x], c.index⟩)
  | some [] | none => c.again

/-- What the first `k` steps give. -/
def take : ℕ → CyclicIter α → List α
  | 0, _ => []
  | k + 1, c =>
    match c.next with
    | (some x, c') => x :: take k c'
    | (none, _) => []

/-- One round. -/
def upcoming (c : CyclicIter α) : List α :=
  match c.source with
  | some rest => rest ++ c.saved
  | none => c.saved.drop c.index ++ c.saved.take c.index

/-- The index is one of what is saved, and is not used before the other iterator is at its end. -/
structure Wf (c : CyclicIter α) : Prop where
  source : c.source.isSome → c.index = 0
  index : c.index < c.saved.length ∨ c.index = 0

theorem wf_ofList (xs : List α) : Wf (ofList xs) := ⟨fun _ => rfl, .inr rfl⟩

@[simp] theorem upcoming_ofList (xs : List α) : (ofList xs).upcoming = xs := List.append_nil xs

/-- A round through what is saved. -/
def round (c : CyclicIter α) : List α := c.saved.drop c.index ++ c.saved.take c.index

theorem again_spec (h : c.Wf) :
    c.again.1 = c.round.head? ∧ c.again.2.upcoming = c.round.rotate 1 ∧ c.again.2.Wf := by
  cases hsaved : c.saved[c.index]? with
  | none =>
    have hlen : c.saved.length ≤ c.index := List.getElem?_eq_none_iff.mp hsaved
    have hnil : c.saved = [] := by
      obtain hlt | hzero := h.index
      · exact absurd hlen (Nat.not_le.mpr hlt)
      · exact List.length_eq_zero_iff.mp (by omega)
    rw [again, hsaved]
    refine ⟨by simp [round, hnil], by simp [upcoming, round, hnil], fun habsurd => ?_, h.index⟩
    cases habsurd
  | some x =>
    obtain ⟨hlt, hx⟩ := List.getElem?_eq_some_iff.mp hsaved
    have hround : c.round = x :: (c.saved.drop (c.index + 1) ++ c.saved.take c.index) := by
      rw [round, List.drop_eq_getElem_cons hlt, hx]
      rfl
    have hrotate : c.round.rotate 1 = c.saved.drop (c.index + 1) ++ c.saved.take (c.index + 1) := by
      rw [hround, List.rotate_cons_succ, List.rotate_zero, List.append_assoc,
        List.take_succ_eq_append_getElem hlt, hx]
    have hagain : c.again =
        (some x, ⟨none, c.saved, if c.index + 1 = c.saved.length then 0 else c.index + 1⟩) := by
      rw [again, hsaved]
    rw [hagain, hrotate]
    refine ⟨by rw [hround]; rfl, ?_, fun habsurd => ?_, ?_⟩
    · by_cases hlast : c.index + 1 = c.saved.length
      · simp [upcoming, hlast]
      · simp [upcoming, hlast]
    · cases habsurd
    · by_cases hlast : c.index + 1 = c.saved.length
      · exact .inr (if_pos hlast)
      · have hnext : c.index + 1 < c.saved.length := by omega
        rw [if_neg hlast]
        exact .inl hnext

theorem upcoming_of_end (h : c.Wf) (hend : c.source = some [] ∨ c.source = none) :
    c.upcoming = c.round := by
  obtain hsource | hsource := hend
  · have hzero : c.index = 0 := h.source (by rw [hsource]; rfl)
    simp [upcoming, round, hsource, hzero]
  · rw [upcoming, hsource, round]

/-- A step while the other iterator is there. -/
theorem next_of_source {x : α} {rest : List α} (hsource : c.source = some (x :: rest)) :
    c.next = (some x, ⟨some rest, c.saved ++ [x], c.index⟩) := by
  rw [next, hsource]

/-- **A step** gives the first element of the round, and puts it behind the others. -/
theorem next_spec (h : c.Wf) :
    c.next.1 = c.upcoming.head? ∧ c.next.2.upcoming = c.upcoming.rotate 1 ∧ c.next.2.Wf := by
  cases hsource : c.source with
  | none =>
    have hnext : c.next = c.again := by rw [next, hsource]
    rw [hnext, upcoming_of_end h (.inr hsource)]
    exact again_spec h
  | some left =>
    cases left with
    | nil =>
      have hnext : c.next = c.again := by rw [next, hsource]
      rw [hnext, upcoming_of_end h (.inl hsource)]
      exact again_spec h
    | cons x rest =>
      have hzero : c.index = 0 := h.source (by rw [hsource]; rfl)
      have hup : c.upcoming = x :: (rest ++ c.saved) := by
        rw [upcoming, hsource]
        rfl
      rw [next_of_source hsource, hup]
      refine ⟨rfl, ?_, fun _ => hzero, .inr hzero⟩
      rw [List.rotate_cons_succ, List.rotate_zero, List.append_assoc]
      rfl

theorem next_fst (h : c.Wf) : c.next.1 = c.upcoming.head? := (next_spec h).1

theorem upcoming_next (h : c.Wf) : c.next.2.upcoming = c.upcoming.rotate 1 := (next_spec h).2.1

theorem Wf.next (h : c.Wf) : c.next.2.Wf := (next_spec h).2.2

theorem next_of_upcoming {x : α} {rest : List α} (h : c.Wf) (hup : c.upcoming = x :: rest) :
    ∃ c', c.next = (some x, c') ∧ c'.Wf ∧ c'.upcoming = rest ++ [x] := by
  refine ⟨c.next.2, Prod.ext ?_ rfl, h.next, ?_⟩
  · rw [next_fst h, hup]
    rfl
  · rw [upcoming_next h, hup, List.rotate_cons_succ, List.rotate_zero]

/-- What comes in a round is what the next steps give. -/
theorem take_of_upcoming {xs rest : List α} (h : c.Wf) (hup : c.upcoming = xs ++ rest) :
    c.take xs.length = xs := by
  induction xs generalizing c rest with
  | nil => rfl
  | cons x xs ih =>
    obtain ⟨c', hnext, hwf, hup'⟩ := next_of_upcoming h hup
    have hround : c'.upcoming = xs ++ (rest ++ [x]) := hup'.trans (List.append_assoc xs rest [x])
    rw [List.length_cons, take, hnext]
    exact congrArg (x :: ·) (ih hwf hround)

end CyclicIter
