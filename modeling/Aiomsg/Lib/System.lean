import Mathlib.Logic.Relation

/-!
# Transition systems

A system is a set of initial states and a step relation; what is proved of a system is proved of
every state it can reach, by an invariant that steps preserve.

## Scope

A system and a `Machine` are two views of one thing. Where steps are told apart by nothing but their
effect, a relation is enough, and states are reached rather than runs made; so nothing here can be
run, and a witness has to build its run by hand. A component whose steps are actions that somebody
takes is a machine.

There is no liveness, and there are no infinite runs: a reachable state is at the end of a finite
one.
-/

/-- A transition system. -/
structure System (σ : Type) where
  init : σ → Prop
  step : σ → σ → Prop

namespace System

variable {σ : Type} {sys : System σ}

/-- The states some run ends in. -/
inductive Reachable (sys : System σ) : σ → Prop
  | init {s : σ} (h : sys.init s) : Reachable sys s
  | step {s t : σ} (h : Reachable sys s) (hstep : sys.step s t) : Reachable sys t

/-- **The invariant rule.** What holds at the start and is kept by every step holds of every
reachable state. -/
theorem Reachable.invariant {P : σ → Prop} (init : ∀ s, sys.init s → P s)
    (step : ∀ s t, P s → sys.step s t → P t) {s : σ} (h : sys.Reachable s) : P s := by
  induction h with
  | init h => exact init _ h
  | step _ hstep ih => exact step _ _ ih hstep

/-- The invariant rule on top of an invariant: a step may be taken to start where that one holds. -/
theorem Reachable.invariant_over {I P : σ → Prop} (base : ∀ s, sys.Reachable s → I s)
    (init : ∀ s, sys.init s → P s) (step : ∀ s t, I s → P s → sys.step s t → P t) {s : σ}
    (h : sys.Reachable s) : P s := by
  induction h with
  | init h => exact init _ h
  | step hreach hstep ih => exact step _ _ (base _ hreach) ih hstep

end System
