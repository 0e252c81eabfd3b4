import Mathlib.Data.Nat.Basic
import Mathlib.Order.Defs.Unbundled

/-!
# Effects that may raise

A computation that reads and writes a state and may raise is an `EStateM`. What it has done to the
state before it raises stays done, so there is a state to speak of however it ends: `after`. The
rules here are about what all computations of a kind do to that state, and lead from the parts of a
computation to the whole of it.

## Main definitions

* `EStateM.after` — the state that is left
* `EStateM.Within` — all that can be left is related to what there was
* `EStateM.Lowers` — whoever returns has made a measure smaller

## Main results

* `EStateM.Within.bind`, `EStateM.Within.tryCatch`, `EStateM.Lowers.bind`
-/

namespace EStateM

variable {ε σ α β : Type}

/-- The state that is left when a computation returns or raises. -/
def after (x : EStateM ε σ α) (s : σ) : σ :=
  match x.run s with
  | .ok _ s' => s'
  | .error _ s' => s'

theorem after_of_ok {x : EStateM ε σ α} {s s' : σ} {a : α} (h : x.run s = .ok a s') :
    x.after s = s' := by
  rw [after, h]

theorem after_of_error {x : EStateM ε σ α} {s s' : σ} {e : ε} (h : x.run s = .error e s') :
    x.after s = s' := by
  rw [after, h]

theorem run_handled (x : EStateM ε σ α) (handle : ε → EStateM ε σ α) (s : σ) :
    (tryCatch x handle).run s =
      match x.run s with
      | .ok a s' => .ok a s'
      | .error e s' => (handle e).run s' := by
  show EStateM.tryCatch x handle s = _
  rw [EStateM.tryCatch]
  match h : x s with
  | .ok _ _ => rw [EStateM.run, h]
  | .error _ _ =>
    rw [EStateM.run, h]
    rfl

/-! ### Relations that a computation stays within -/

/-- However it ends, `x` leads from a state to a related one. -/
def Within (R : σ → σ → Prop) (x : EStateM ε σ α) : Prop := ∀ s, R s (x.after s)

namespace Within

variable {R : σ → σ → Prop} {x : EStateM ε σ α}

theorem of_ok (h : Within R x) {s s' : σ} {a : α} (hrun : x.run s = .ok a s') : R s s' :=
  after_of_ok hrun ▸ h s

theorem of_error (h : Within R x) {s s' : σ} {e : ε} (hrun : x.run s = .error e s') : R s s' :=
  after_of_error hrun ▸ h s

theorem modify {f : σ → σ} (h : ∀ s, R s (f s)) :
    Within R (modify f : EStateM ε σ PUnit) := h

section Preorder

variable [IsPreorder σ R]

theorem pure (a : α) : Within R (pure a : EStateM ε σ α) := fun s => refl s

theorem throw (e : ε) : Within R (throw e : EStateM ε σ α) := fun s => refl s

/-- **One computation after the other.** -/
theorem bind {k : α → EStateM ε σ β} (hx : Within R x) (hk : ∀ a, Within R (k a)) :
    Within R (x >>= k) := by
  intro s
  match hrun : x.run s with
  | .ok a s' =>
    have hafter : (x >>= k).after s = (k a).after s' := by rw [after, run_bind, hrun, after]
    rw [hafter]
    exact IsTrans.trans _ _ _ (hx.of_ok hrun) (hk a s')
  | .error e s' =>
    have hafter : (x >>= k).after s = s' := by rw [after, run_bind, hrun]
    rw [hafter]
    exact hx.of_error hrun

/-- **A handler** goes on from the state that was left when the exception was raised. -/
theorem tryCatch {handle : ε → EStateM ε σ α} (hx : Within R x)
    (hhandle : ∀ e, Within R (handle e)) : Within R (tryCatch x handle) := by
  intro s
  match hrun : x.run s with
  | .ok a s' =>
    have hafter : (MonadExcept.tryCatch x handle).after s = s' := by
      rw [after, run_handled, hrun]
    rw [hafter]
    exact hx.of_ok hrun
  | .error e s' =>
    have hafter : (MonadExcept.tryCatch x handle).after s = (handle e).after s' := by
      rw [after, run_handled, hrun, after]
    rw [hafter]
    exact IsTrans.trans _ _ _ (hx.of_error hrun) (hhandle e s')

end Preorder

end Within

/-! ### Parts of a state -/

/-- A computation on a part of the state. -/
def zoom {τ : Type} (get : τ → σ) (set : σ → τ → τ) (x : EStateM ε σ α) : EStateM ε τ α := fun t =>
  match x.run (get t) with
  | .ok a s => .ok a (set s t)
  | .error e s => .error e (set s t)

theorem after_zoom {τ : Type} (get : τ → σ) (set : σ → τ → τ) (x : EStateM ε σ α) (t : τ) :
    (zoom get set x).after t = set (x.after (get t)) t := by
  rw [after, EStateM.run, zoom, after]
  match x.run (get t) with
  | .ok _ _ => rfl
  | .error _ _ => rfl

/-- What a computation does to the part it does to the whole. -/
theorem Within.zoom {τ : Type} {get : τ → σ} {set : σ → τ → τ} (hget : ∀ s t, get (set s t) = s)
    {R : σ → σ → Prop} {x : EStateM ε σ α} (hx : Within R x) :
    Within (fun t t' => R (get t) (get t')) (EStateM.zoom get set x) := by
  intro t
  rw [after_zoom, hget]
  exact hx (get t)

/-! ### Measures -/

/-- Whoever returns has made the measure smaller. -/
def Lowers (f : σ → ℕ) (x : EStateM ε σ α) : Prop := ∀ s a s', x.run s = .ok a s' → f s' < f s

/-- What comes after must not make it larger. -/
theorem Lowers.bind {f : σ → ℕ} {x : EStateM ε σ α} {k : α → EStateM ε σ β} (hx : Lowers f x)
    (hk : ∀ a, Within (fun s s' => f s' ≤ f s) (k a)) : Lowers f (x >>= k) := by
  intro s b s'' h
  rw [run_bind] at h
  match hrun : x.run s with
  | .ok a s' =>
    rw [hrun] at h
    have hlower := hx s a s' hrun
    have hlater := (hk a).of_ok h
    exact lt_of_le_of_lt hlater hlower
  | .error e s' =>
    rw [hrun] at h
    cases h

theorem Lowers.zoom {τ : Type} {get : τ → σ} {set : σ → τ → τ} (hget : ∀ s t, get (set s t) = s)
    {f : σ → ℕ} {x : EStateM ε σ α} (hx : Lowers f x) :
    Lowers (fun t => f (get t)) (EStateM.zoom get set x) := by
  intro t a t' h
  rw [EStateM.run, EStateM.zoom] at h
  match hrun : x.run (get t) with
  | .ok a' s' =>
    rw [hrun] at h
    cases h
    show f (get (set s' t)) < f (get t)
    rw [hget]
    exact hx _ _ _ hrun
  | .error e s' =>
    rw [hrun] at h
    cases h

end EStateM
