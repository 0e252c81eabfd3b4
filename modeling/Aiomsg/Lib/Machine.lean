import Mathlib.Data.Option.Basic

/-!
# Labelled machines

A machine is a partial step function on states: `step s a` is the state after the action `a`, or
`none` where `a` cannot happen in `s`. A run is a list of actions, so that "for every interleaving"
is a quantifier over lists and a given interleaving can be evaluated.

A statement about all runs is an invariant. A statement about the runs that avoid something is an
invariant *along* runs: `Along P` says that every step of the run is taken where `P` allows it, and
`Along.invariant` gives the step lemma `P` as a hypothesis.

## Why a function

The step function is partial rather than relational. Where a program has a choice, the choice is
part of the action: which goroutine goes on, which case of a `select` is taken, what the peer sends.
So machines are deterministic, a run is determined by its actions, and a concrete run is evaluated
by the kernel.

Where a statement is about steps "of the same kind" a step relation is put over the function, with
one constructor for each kind; that is the business of the machine concerned.

## Main results

* `Along.invariant` — what the allowed steps keep holds at the end of an allowed run
* `Along.simulates` — a step-wise simulation is a simulation of runs
-/

/-- A machine with states `σ` and actions `α`. -/
structure Machine (σ α : Type) where
  step : σ → α → Option σ

namespace Machine

variable {σ α τ β : Type} (m : Machine σ α)

/-- The state at the end of a run, `none` if some action of it cannot happen. -/
def run : σ → List α → Option σ
  | s, [] => some s
  | s, a :: rest => (m.step s a).bind fun t => run t rest

/-- Every step of the run is taken where `P` allows it. -/
def Along (P : σ → α → Prop) : σ → List α → Prop
  | _, [] => True
  | s, a :: rest => P s a ∧ ∀ t ∈ m.step s a, Along P t rest

instance decidableAlong (P : σ → α → Prop) [∀ s a, Decidable (P s a)] :
    ∀ (s : σ) (as : List α), Decidable (m.Along P s as)
  | _, [] => .isTrue trivial
  | s, _ :: rest =>
    have : ∀ t, Decidable (m.Along P t rest) := fun t => decidableAlong P t rest
    inferInstanceAs (Decidable (_ ∧ ∀ t ∈ m.step s _, m.Along P t rest))

/-- What a run does step by step, where `f` says what an action does in the state it is taken in. -/
def observed (f : σ → α → Option β) : σ → List α → List β
  | _, [] => []
  | s, a :: rest => (f s a).toList ++ (m.step s a).elim [] fun t => observed f t rest

@[simp] theorem run_nil (s : σ) : m.run s [] = some s := rfl

theorem run_cons (s : σ) (a : α) (rest : List α) :
    m.run s (a :: rest) = (m.step s a).bind fun t => m.run t rest := rfl

theorem run_append (s : σ) (as bs : List α) :
    m.run s (as ++ bs) = (m.run s as).bind fun t => m.run t bs := by
  induction as generalizing s with
  | nil => rfl
  | cons a rest ih =>
    rw [List.cons_append, run_cons, run_cons, Option.bind_assoc]
    congr 1
    funext t
    exact ih t

variable {m} {P : σ → α → Prop} {s t : σ} {as : List α}

theorem exists_step_of_run_cons {a : α} (h : m.run s (a :: as) = some t) :
    ∃ u, m.step s a = some u ∧ m.run u as = some t :=
  Option.bind_eq_some_iff.mp h

theorem Along.tail {a : α} {u : σ} (h : m.Along P s (a :: as)) (hstep : m.step s a = some u) :
    m.Along P u as :=
  h.2 u hstep

/-- A run that goes on from where a step leads. -/
theorem run_cons_of_step {a : α} {u : σ} (hstep : m.step s a = some u)
    (hrun : m.run u as = some t) : m.run s (a :: as) = some t := by
  rw [run_cons, hstep]
  exact hrun

theorem observed_cons_of_step {f : σ → α → Option β} {a : α} {u : σ} (hstep : m.step s a = some u) :
    m.observed f s (a :: as) = (f s a).toList ++ m.observed f u as := by
  rw [observed, hstep]
  rfl

theorem Along.cons_of_step {a : α} {u : σ} (h : P s a) (hstep : m.step s a = some u)
    (halong : m.Along P u as) : m.Along P s (a :: as) := by
  refine ⟨h, fun t ht => ?_⟩
  obtain rfl : u = t := Option.some.inj (hstep.symm.trans ht)
  exact halong

/-- **The invariant rule.** What a step keeps wherever `P` allows the step holds at the end of a
run that `P` allows. -/
theorem Along.invariant {I : σ → Prop}
    (step : ∀ s a t, I s → P s a → m.step s a = some t → I t)
    (halong : m.Along P s as) (hrun : m.run s as = some t) (init : I s) : I t := by
  induction as generalizing s with
  | nil =>
    obtain rfl : s = t := Option.some.inj hrun
    exact init
  | cons a rest ih =>
    obtain ⟨u, hstep, hrest⟩ := exists_step_of_run_cons hrun
    exact ih (halong.tail hstep) hrest (step s a u init halong.1 hstep)

/-- A run that is allowed is allowed up to any point of it. -/
theorem Along.of_prefix {bs : List α} (h : m.Along P s as) (hpre : bs <+: as) : m.Along P s bs := by
  induction bs generalizing s as with
  | nil => trivial
  | cons b bs ih =>
    obtain ⟨rest, rfl⟩ := hpre
    refine ⟨h.1, fun t ht => ?_⟩
    exact ih (h.2 t ht) (List.prefix_append bs rest)

/-- A condition that always holds is met along every run. -/
theorem along_of_forall (h : ∀ s a, P s a) (s : σ) (as : List α) : m.Along P s as := by
  induction as generalizing s with
  | nil => trivial
  | cons a rest ih => exact ⟨h s a, fun t _ => ih t⟩

/-- Two conditions are met along a run if each of them is. -/
theorem along_and {Q : σ → α → Prop} :
    m.Along (fun s a => P s a ∧ Q s a) s as ↔ m.Along P s as ∧ m.Along Q s as := by
  induction as generalizing s with
  | nil => exact ⟨fun _ => ⟨trivial, trivial⟩, fun _ => trivial⟩
  | cons a rest ih =>
    constructor
    · rintro ⟨⟨hP, hQ⟩, hrest⟩
      exact ⟨⟨hP, fun t ht => (ih.mp (hrest t ht)).1⟩, hQ, fun t ht => (ih.mp (hrest t ht)).2⟩
    · rintro ⟨⟨hP, hPrest⟩, hQ, hQrest⟩
      exact ⟨⟨hP, hQ⟩, fun t ht => ih.mpr ⟨hPrest t ht, hQrest t ht⟩⟩

/-- The invariant rule for all runs. -/
theorem invariant {I : σ → Prop} (step : ∀ s a t, I s → m.step s a = some t → I t)
    (hrun : m.run s as = some t) (init : I s) : I t :=
  Along.invariant (P := fun _ _ => True) (fun s a t hI _ => step s a t hI)
    (along_of_forall (fun _ _ => trivial) s as) hrun init

/-- **Simulation.** If every allowed step of `m` from a state with the invariant is a run of `n`
between the states' images, then so is every allowed run. -/
theorem Along.simulates {n : Machine τ β} {image : σ → τ} {I : σ → Prop}
    (keep : ∀ s a t, I s → P s a → m.step s a = some t → I t)
    (step : ∀ s a t, I s → P s a → m.step s a = some t →
      ∃ bs, n.run (image s) bs = some (image t))
    (halong : m.Along P s as) (hrun : m.run s as = some t) (init : I s) :
    ∃ bs, n.run (image s) bs = some (image t) := by
  induction as generalizing s with
  | nil =>
    obtain rfl : s = t := Option.some.inj hrun
    exact ⟨[], rfl⟩
  | cons a rest ih =>
    obtain ⟨u, hstep, hrest⟩ := exists_step_of_run_cons hrun
    obtain ⟨first, hfirst⟩ := step s a u init halong.1 hstep
    obtain ⟨later, hlater⟩ := ih (halong.tail hstep) hrest (keep s a u init halong.1 hstep)
    refine ⟨first ++ later, ?_⟩
    rw [run_append, hfirst]
    exact hlater

end Machine
