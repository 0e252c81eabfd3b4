import Mathlib.Data.List.Basic

/-!
# Computations that leave a trace

What a computation passes through on the way may matter as much as what it comes to: numbers that
have to be exact, cells that are read, calls that are made. A traced computation leaves a list of
such things, and has a result unless it fails. `Yields P x a` says that `x` has the result `a` and
that all it left is as `P` says; its rules follow the structure of a program.

## Main results

* `Yields.bind` — one computation after another
* `Yields.foldlM_range'` — the rule for a loop, with the states that it goes through
-/

/-- A computation. -/
structure Traced (ε α : Type) where
  trace : List ε
  result : Option α

namespace Traced

variable {ε α β σ : Type} {P : ε → Prop}

instance : Monad (Traced ε) where
  pure a := ⟨[], some a⟩
  bind x f :=
    match x.result with
    | none => ⟨x.trace, none⟩
    | some a => ⟨x.trace ++ (f a).trace, (f a).result⟩

/-- It leaves one thing, and is done. -/
def emit (e : ε) (a : α) : Traced ε α := ⟨[e], some a⟩

/-- It leaves nothing, and fails. -/
def fail : Traced ε α := ⟨[], none⟩

def ofOption (o : Option α) : Traced ε α := ⟨[], o⟩

/-- It comes to `a`, and all that it leaves is as `P` says. -/
structure Yields (P : ε → Prop) (x : Traced ε α) (a : α) : Prop where
  result : x.result = some a
  trace : ∀ e ∈ x.trace, P e

theorem bind_of_result {x : Traced ε α} {a : α} (h : x.result = some a) (f : α → Traced ε β) :
    x >>= f = ⟨x.trace ++ (f a).trace, (f a).result⟩ := by
  rcases x with ⟨trace, result⟩
  obtain rfl : result = some a := h
  rfl

/-- A computation leaves what its first part leaves. -/
theorem mem_trace_bind {x : Traced ε α} {e : ε} (h : e ∈ x.trace) (f : α → Traced ε β) :
    e ∈ (x >>= f).trace := by
  rcases x with ⟨trace, _ | a⟩
  · exact h
  · exact List.mem_append_left _ h

namespace Yields

protected theorem pure (a : α) : Yields P (pure a) a := ⟨rfl, fun _ h => absurd h List.not_mem_nil⟩

protected theorem emit {e : ε} (h : P e) (a : α) : Yields P (emit e a) a := by
  refine ⟨rfl, fun e' hmem => ?_⟩
  obtain rfl : e' = e := List.mem_singleton.mp hmem
  exact h

protected theorem ofOption {o : Option α} {a : α} (h : o = some a) : Yields P (ofOption o) a :=
  ⟨h, fun _ hmem => absurd hmem List.not_mem_nil⟩

protected theorem bind {x : Traced ε α} {f : α → Traced ε β} {a : α} {b : β} (hx : Yields P x a)
    (hf : Yields P (f a) b) : Yields P (x >>= f) b := by
  rw [bind_of_result hx.result]
  refine ⟨hf.result, fun e hmem => ?_⟩
  rcases List.mem_append.mp hmem with hmem | hmem
  · exact hx.trace e hmem
  · exact hf.trace e hmem

/-- **The rule for a loop** that counts: what one turn makes of the state before it. -/
theorem foldlM_range' {body : σ → ℕ → Traced ε σ} {first step count : ℕ} (s : ℕ → σ)
    (h : ∀ k < count, Yields P (body (s k) (first + step * k)) (s (k + 1))) :
    Yields P ((List.range' first count step).foldlM body (s 0)) (s count) := by
  induction count generalizing first s with
  | zero => exact Yields.pure (s 0)
  | succ count ih =>
    rw [List.range'_succ, List.foldlM_cons]
    refine (h 0 (Nat.succ_pos count)).bind (ih (fun k => s (k + 1)) fun k hk => ?_)
    have hstep := h (k + 1) (Nat.succ_lt_succ hk)
    rwa [Nat.mul_succ, Nat.add_comm (step * k) step, ← Nat.add_assoc] at hstep

end Yields

end Traced
