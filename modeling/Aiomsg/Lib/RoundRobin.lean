import Mathlib.Algebra.Group.Nat.Defs
import Mathlib.Data.List.Rotate

/-!
# Serving members in turn

A component has members and a cursor of 64 bits. Some of its events take a turn: they serve the
member at the cursor, modulo the number of members, and advance the cursor. Others change who the
members are, and leave the cursor where it is.

So which member comes first after a change is anybody's guess. But as many turns as there are
members, with no change between them, serve each member once, as long as the cursor does not wrap:
the modulus need not divide the number of values that a cursor can have.

## Scope

A change of members does not move the cursor, and a member that is served may be gone before
anything reaches it. What a turn does for the member that it serves is the component's own affair:
here it is served by being named.

The bound on the cursor is on the turns of the run in question. Nothing is said of the turn at which
a cursor wraps, where two neighbours may change places.

## Main definitions

* `RoundRobin` — the events of a component and how they are seen
* `RoundRobin.Law` — what an event may do
* `RoundRobin.FairFrom` — as many turns as there are members serve each of them once

## Main results

* `RoundRobin.Law.served_eq` — whom the turns of a run serve
* `RoundRobin.Law.fairFrom`
-/

/-- A component with states `σ` and events `ε` that serves members of type `α`. -/
structure RoundRobin (σ ε α : Type) where
  step : σ → ε → σ → Prop
  members : σ → List α
  cursor : σ → UInt64
  /-- Whom an event serves, if it takes a turn. -/
  served : ε → Option (List α)
  /-- The event changes who the members are. -/
  churns : ε → Prop

namespace RoundRobin

variable {σ ε α : Type} (r : RoundRobin σ ε α)

/-- The events of a run, one after the other. -/
inductive Run : σ → List ε → σ → Prop
  | nil (s : σ) : Run s [] s
  | cons {s t u : σ} {e : ε} {es : List ε} (hstep : r.step s e t) (hrest : Run t es u) :
      Run s (e :: es) u

/-- Whom the turns of a run serve. -/
def turns (es : List ε) : List (List α) := es.filterMap r.served

/-- As many turns from `s` on as there are `members`, with no change between them, serve one member
each, and each member once. -/
def FairFrom (s : σ) (members : List α) : Prop :=
  ∀ es t, r.Run s es t → (∀ e ∈ es, ¬ r.churns e) → (r.turns es).length = members.length →
    (r.cursor s).toNat + members.length ≤ 2 ^ 64 →
    (∀ out ∈ r.turns es, out.length = 1) ∧ (r.turns es).flatten.Perm members

/-- What an event may do to a state with the invariant `I`. -/
structure Law (I : σ → Prop) : Prop where
  keep : ∀ {s e t}, I s → r.step s e t → I t
  members : ∀ {s e t}, I s → r.step s e t → ¬ r.churns e → r.members t = r.members s
  idle : ∀ {s e t}, r.step s e t → ¬ r.churns e → r.served e = none → r.cursor t = r.cursor s
  turn : ∀ {s e t out}, I s → r.step s e t → r.served e = some out → r.members s ≠ [] →
    (∃ a, (r.members s)[(r.cursor s).toNat % (r.members s).length]? = some a ∧ out = [a]) ∧
      r.cursor t = r.cursor s + 1

variable {r} {I : σ → Prop} {s t u : σ} {es es' : List ε}

theorem Run.append (h : r.Run s es t) (h' : r.Run t es' u) : r.Run s (es ++ es') u := by
  induction h with
  | nil => exact h'
  | cons hstep _ ih => exact .cons hstep (ih h')

theorem Run.single {e : ε} (h : r.step s e t) : r.Run s [e] t := .cons h (.nil t)

/-- The order in which the members are listed does not matter. -/
theorem FairFrom.of_perm {l l' : List α} (h : r.FairFrom s l) (hperm : l.Perm l') :
    r.FairFrom s l' := by
  intro es t hrun hquiet hlen hcursor
  rw [← hperm.length_eq] at hlen hcursor
  obtain ⟨hone, hflat⟩ := h es t hrun hquiet hlen hcursor
  exact ⟨hone, hflat.trans hperm⟩

namespace Law

variable (law : r.Law I)
include law

theorem run (h : r.Run s es t) (hs : I s) : I t := by
  induction h with
  | nil => exact hs
  | cons hstep _ ih => exact ih (law.keep hs hstep)

/-- **Whom the turns serve.** The `k`-th turn serves the member `k` places after the cursor. -/
theorem served_eq (h : r.Run s es t) (hs : I s) (hquiet : ∀ e ∈ es, ¬ r.churns e)
    (hmembers : r.members s ≠ []) (hcursor : (r.cursor s).toNat + (r.turns es).length ≤ 2 ^ 64) :
    r.turns es = (List.range (r.turns es).length).map fun k =>
      ((r.members s)[((r.cursor s).toNat + k) % (r.members s).length]?).toList := by
  induction h with
  | nil => rfl
  | @cons s t u e es hstep hrest ih =>
    have hquiet' : ∀ e ∈ es, ¬ r.churns e := fun e he => hquiet e (List.mem_cons_of_mem _ he)
    have hsame := law.members hs hstep (hquiet e List.mem_cons_self)
    cases hserved : r.served e with
    | none =>
      have hturns : r.turns (e :: es) = r.turns es := List.filterMap_cons_none hserved
      have hstay := law.idle hstep (hquiet e List.mem_cons_self) hserved
      rw [hturns] at hcursor ⊢
      have hih := ih (law.keep hs hstep) hquiet' (hsame ▸ hmembers) (hstay ▸ hcursor)
      rwa [hsame, hstay] at hih
    | some out =>
      have hturns : r.turns (e :: es) = out :: r.turns es := List.filterMap_cons_some hserved
      obtain ⟨⟨a, hfirst, rfl⟩, hnext⟩ := law.turn hs hstep hserved hmembers
      rw [hturns, List.length_cons] at hcursor ⊢
      -- The cursor may wrap with the last turn, after which nobody looks at it.
      have hone : (1 : UInt64).toNat = 1 := rfl
      have hstep' : (r.cursor t).toNat = ((r.cursor s).toNat + 1) % 2 ^ 64 := by
        rw [hnext, UInt64.toNat_add, hone]
      have hih := ih (law.keep hs hstep) hquiet' (hsame ▸ hmembers) (by omega)
      rw [List.range_succ_eq_map, List.map_cons, List.map_map, Nat.add_zero, hfirst]
      refine congrArg ([a] :: ·) (hih.trans (List.map_congr_left fun k hk => ?_))
      have hk' : k < (r.turns es).length := List.mem_range.mp hk
      have hplace : (r.cursor t).toNat + k = (r.cursor s).toNat + (k + 1) := by omega
      rw [hsame, hplace]
      rfl

/-- **Fairness.** -/
theorem fairFrom (hs : I s) (hmembers : r.members s ≠ []) : r.FairFrom s (r.members s) := by
  intro es t hrun hquiet hlen hcursor
  have hserved := law.served_eq hrun hs hquiet hmembers (hlen ▸ hcursor)
  have hrotate : r.turns es = ((r.members s).rotate (r.cursor s).toNat).map fun a => [a] := by
    rw [hserved, hlen]
    refine List.ext_getElem (by simp) fun k hk hk' => ?_
    simp only [List.getElem_map, List.getElem_range, List.getElem_rotate]
    rw [List.getElem?_eq_getElem (Nat.mod_lt _ (List.length_pos_iff.mpr hmembers))]
    simp [Nat.add_comm]
  rw [hrotate]
  constructor
  · intro out hout
    obtain ⟨a, -, rfl⟩ := List.mem_map.mp hout
    rfl
  · rw [← List.flatMap_def, List.flatMap_singleton']
    exact List.rotate_perm _ _

end Law

end RoundRobin
