import Mathlib.Logic.Relation
import Mathlib.Order.Basic

/-!
# Lock order

Threads that hold locks and wait for them, at one moment. A deadlock is a thread that waits for
itself, through whoever holds what it waits for. If the locks are ranked and everybody waits only
for a lock above all that it holds, there is none.

## Scope

A moment is all there is: how the locks were taken, and whether the threads ever give them back, is
not part of it. So `Ordered` is a condition on a state, and that a program keeps it in every state
is to be shown as an invariant of the program.

Nothing is asked of the ranks but a preorder. Two locks may have the same rank; whoever holds one of
them may not wait for the other.

## Main results

* `Locking.Ordered.not_waitsFor_self` — no deadlock where the order is kept
-/

/-- Who holds which locks, and who waits for which. -/
structure Locking (θ L : Type*) where
  holds : θ → L → Prop
  waits : θ → Option L

namespace Locking

open Relation

variable {θ L R : Type*} [Preorder R] {s : Locking θ L} {rank : L → R}

/-- The thread waits for a lock that the other one holds. -/
def WaitsFor (s : Locking θ L) (t u : θ) : Prop := ∃ l ∈ s.waits t, s.holds u l

/-- Who waits for a lock holds only locks below it. -/
def Ordered (s : Locking θ L) (rank : L → R) : Prop :=
  ∀ t, ∀ l ∈ s.waits t, ∀ k, s.holds t k → rank k < rank l

/-- Along a chain of threads the locks that they wait for rise. -/
theorem Ordered.rank_lt (h : s.Ordered rank) {t u : θ} (htu : TransGen s.WaitsFor t u) :
    ∃ l ∈ s.waits t, ∀ k ∈ s.waits u, rank l < rank k := by
  induction htu with
  | single htu =>
    obtain ⟨l, hl, hu⟩ := htu
    exact ⟨l, hl, fun k hk => h _ k hk l hu⟩
  | tail _ htail ih =>
    obtain ⟨l, hl, hbelow⟩ := ih
    obtain ⟨k, hk, hu⟩ := htail
    exact ⟨l, hl, fun k' hk' => (hbelow k hk).trans (h _ k' hk' k hu)⟩

/-- **No deadlock** where the order is kept. -/
theorem Ordered.not_waitsFor_self (h : s.Ordered rank) (t : θ) : ¬ TransGen s.WaitsFor t t := by
  intro hself
  obtain ⟨l, hl, hbelow⟩ := h.rank_lt hself
  exact lt_irrefl _ (hbelow l hl)

end Locking
