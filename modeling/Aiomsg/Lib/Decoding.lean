import Aiomsg.Lib.Deframe
import Aiomsg.Lib.Machine

/-!
# Decoders fed by hand

A decoder keeps what is pushed into it, and a pop takes the next frame off the front, if a complete
one is there. What a pop hands out may be a copy of the frame or a view of the decoder's own memory;
a view is looked at until the next push, and not behind it. A push or a pop may also fail, and then
the decoder is not used again.

The plainest decoder is a deframer on a list (`Deframer.decoding`). It never fails, so everything
another decoder may differ in shows against it: which frames come out, when none does, what a view
shows later, and whether a call fails. `Refines` says that a decoder agrees with the deframer call
by call where the calls are safe, and `Exact` that only safe calls succeed.

## Main results

* `Refines.outcomes_eq` — safe calls give the deframer's outcomes
* `Refines.Exact.outcomes_eq_iff` — and no others do, if the decoder fails wherever it is unsafe
-/

/-- A decoder with states `σ` that is fed with `α`s and hands out frames `β`, seen through handles
`η`. -/
structure Decoding (α β σ η : Type) where
  /-- `none` where the push fails. -/
  push : σ → List α → Option σ
  /-- `none` where the pop fails, `some none` where there is no complete frame. -/
  pop : σ → Option (Option (η × σ))
  /-- What a handle shows. -/
  view : σ → η → β

namespace Decoding

variable {α β σ η : Type}

/-- What a decoder's owner does. -/
inductive Call (α : Type) where
  | push (bytes : List α)
  | pop
  /-- Look at the frames popped since the last push. -/
  | look
deriving DecidableEq

/-- What the owner is told. -/
inductive Outcome (β : Type) where
  | pushed
  | null
  | frame (b : β)
  | seen (bs : List β)
deriving DecidableEq

/-- A decoder in use: the frames popped since the last push, and everything seen so far. -/
structure Use (β σ η : Type) where
  decoder : σ
  held : List η
  log : List (Outcome β)

def start (s : σ) : Use β σ η where
  decoder := s
  held := []
  log := []

variable (D : Decoding α β σ η)

def popped (u : Use β σ η) : Option (η × σ) → Use β σ η
  | none => { u with log := u.log ++ [.null] }
  | some (h, s) => ⟨s, u.held ++ [h], u.log ++ [.frame (D.view s h)]⟩

/-- A decoder and its owner. A call that fails is no step. -/
def machine : Machine (Use β σ η) (Call α) where
  step u
    | .push bytes => (D.push u.decoder bytes).map fun s => ⟨s, [], u.log ++ [.pushed]⟩
    | .pop => (D.pop u.decoder).map (D.popped u)
    | .look => some { u with log := u.log ++ [.seen (u.held.map (D.view u.decoder))] }

/-- Everything the owner is told, `none` if a call fails. -/
def outcomes (s : σ) (calls : List (Call α)) : Option (List (Outcome β)) :=
  (D.machine.run (start s) calls).map Use.log

/-- The bytes of the pushes. -/
def stream (calls : List (Call α)) : List α :=
  calls.flatMap fun
    | .push bytes => bytes
    | _ => []

end Decoding

/-! ### A deframer as a decoder -/

namespace Deframer

open Decoding

variable {α β : Type} (d : Deframer α β Empty)

def decoding : Decoding α β (List α) β where
  push buf bytes := some (buf ++ bytes)
  pop buf :=
    some (match d.parse buf with
      | .more => none
      | .item b rest => some (b, rest)
      | .stop c => c.elim)
  view _ b := b

variable {d} {buf rest : List α} {b : β}

theorem decoding_pop_of_more (h : d.parse buf = .more) : d.decoding.pop buf = some none := by
  rw [decoding]
  simp only [h]

theorem decoding_pop_of_item (h : d.parse buf = .item b rest) :
    d.decoding.pop buf = some (some (b, rest)) := by
  rw [decoding]
  simp only [h]

/-- No call fails. -/
theorem exists_decoding_step (u : Use β (List α) β) (c : Call α) :
    ∃ v, d.decoding.machine.step u c = some v := by
  cases c with
  | push bytes => exact ⟨_, rfl⟩
  | pop => exact ⟨_, rfl⟩
  | look => exact ⟨_, rfl⟩

theorem exists_decoding_run (u : Use β (List α) β) (calls : List (Call α)) :
    ∃ v, d.decoding.machine.run u calls = some v := by
  induction calls generalizing u with
  | nil => exact ⟨u, rfl⟩
  | cons c calls ih =>
    obtain ⟨v, hstep⟩ := exists_decoding_step (d := d) u c
    obtain ⟨w, hrun⟩ := ih v
    exact ⟨w, Machine.run_cons_of_step hstep hrun⟩

end Deframer

/-! ### Decoders against deframers -/

namespace Decoding

variable {α β σ η : Type} {D : Decoding α β σ η} {d : Deframer α β Empty}

/-- What a pop does, in terms of the deframer: it leaves an incomplete frame alone, or hands out the
frame at the front and leaves what is seen through any handle as it is. -/
inductive PopSpec (D : Decoding α β σ η) (d : Deframer α β Empty) (Inv : σ → Prop)
    (content : σ → List α) (s : σ) : Option (Option (η × σ)) → Prop
  | null (h : d.parse (content s) = .more) : PopSpec D d Inv content s (some none)
  | frame {f : η} {t : σ} (h : d.parse (content s) = .item (D.view t f) (content t)) (inv : Inv t)
      (same : ∀ g, D.view t g = D.view s g) : PopSpec D d Inv content s (some (some (f, t)))

/-- A decoder that works like the deframer on its content, where the calls are safe. -/
structure Refines (D : Decoding α β σ η) (d : Deframer α β Empty) where
  Inv : σ → Prop
  content : σ → List α
  safe : σ → Call α → Prop
  push : ∀ {s bytes}, Inv s → safe s (.push bytes) →
    ∃ t, D.push s bytes = some t ∧ Inv t ∧ content t = content s ++ bytes
  pop : ∀ {s}, Inv s → safe s .pop → PopSpec D d Inv content s (D.pop s)

namespace Refines

variable (R : Refines D d)

/-- Every call is made where it is safe. -/
abbrev Safe (s : σ) (calls : List (Call α)) : Prop :=
  D.machine.Along (fun u c => R.safe u.decoder c) (start s) calls

/-- A decoder and the deframer, at the same place in the same stream. -/
structure Sim (u : Use β σ η) (v : Use β (List α) β) : Prop where
  inv : R.Inv u.decoder
  content : v.decoder = R.content u.decoder
  held : v.held = u.held.map (D.view u.decoder)
  log : v.log = u.log

variable {R} {u u' : Use β σ η} {v : Use β (List α) β} {s : σ} {c : Call α}
  {calls : List (Call α)}

theorem sim_start (h : R.Inv s) : R.Sim (start s) (start (R.content s)) := by
  constructor
  · exact h
  · rfl
  · rfl
  · rfl

/-- **One safe call** keeps the decoder and the deframer together. -/
theorem Sim.step (h : R.Sim u v) (hsafe : R.safe u.decoder c) :
    ∃ u', D.machine.step u c = some u' ∧
      ∃ v', d.decoding.machine.step v c = some v' ∧ R.Sim u' v' := by
  obtain ⟨hinv, hcontent, hheld, hlog⟩ := h
  cases c with
  | push bytes =>
    obtain ⟨t, hpush, hinv', happend⟩ := R.push hinv hsafe
    refine ⟨⟨t, [], u.log ++ [.pushed]⟩, ?_, _, rfl, hinv', ?_, rfl, ?_⟩
    · rw [machine]
      simp only [hpush, Option.map_some]
    · rw [happend, ← hcontent]
    · rw [hlog]
  | look =>
    refine ⟨_, rfl, _, rfl, hinv, hcontent, hheld, ?_⟩
    show v.log ++ [.seen (v.held.map (d.decoding.view v.decoder))]
      = u.log ++ [.seen (u.held.map (D.view u.decoder))]
    rw [hlog, hheld]
    exact congrArg (fun bs => u.log ++ [.seen bs]) (List.map_id _)
  | pop =>
    have hspec := R.pop hinv hsafe
    generalize hpop : D.pop u.decoder = out at hspec
    cases hspec with
    | null hmore =>
      refine ⟨{ u with log := u.log ++ [.null] }, ?_, { v with log := v.log ++ [.null] }, ?_,
        hinv, hcontent, hheld, ?_⟩
      · rw [machine]
        simp only [hpop, Option.map_some, popped]
      · rw [machine]
        simp only [Deframer.decoding_pop_of_more (hcontent ▸ hmore), Option.map_some, popped]
      · show v.log ++ [.null] = u.log ++ [.null]
        rw [hlog]
    | @frame f t hitem hinv' hsame =>
      refine ⟨⟨t, u.held ++ [f], u.log ++ [.frame (D.view t f)]⟩, ?_,
        ⟨R.content t, v.held ++ [D.view t f], v.log ++ [.frame (D.view t f)]⟩, ?_,
        hinv', rfl, ?_, ?_⟩
      · rw [machine]
        simp only [hpop, Option.map_some, popped]
      · rw [machine]
        simp only [Deframer.decoding_pop_of_item (hcontent ▸ hitem), Option.map_some, popped]
        rfl
      · show v.held ++ [D.view t f] = (u.held ++ [f]).map (D.view t)
        rw [hheld, List.map_append, List.map_congr_left fun g _ => (hsame g).symm]
        rfl
      · show v.log ++ [.frame (D.view t f)] = u.log ++ [.frame (D.view t f)]
        rw [hlog]

theorem Sim.run (h : R.Sim u v)
    (halong : D.machine.Along (fun u c => R.safe u.decoder c) u calls) :
    ∃ u', D.machine.run u calls = some u' ∧
      ∃ v', d.decoding.machine.run v calls = some v' ∧ R.Sim u' v' := by
  induction calls generalizing u v with
  | nil => exact ⟨u, rfl, v, rfl, h⟩
  | cons c calls ih =>
    obtain ⟨u₁, hu, v₁, hv, h₁⟩ := h.step halong.1
    obtain ⟨u', hu', v', hv', h'⟩ := ih h₁ (halong.tail hu)
    exact ⟨u', Machine.run_cons_of_step hu hu', v', Machine.run_cons_of_step hv hv', h'⟩

/-- **Safe calls give the deframer's outcomes.** -/
theorem outcomes_eq (hinv : R.Inv s) (hsafe : R.Safe s calls) :
    D.outcomes s calls = d.decoding.outcomes (R.content s) calls := by
  obtain ⟨u', hu, v', hv, h⟩ := (sim_start hinv).run hsafe
  rw [outcomes, outcomes, hu, hv, Option.map_some, Option.map_some, h.log]

/-! ### Decoders that fail wherever they are not safe -/

/-- Only safe calls succeed. -/
def Exact (R : Refines D d) : Prop :=
  ∀ {u u' : Use β σ η} {c : Call α}, R.Inv u.decoder → D.machine.step u c = some u' →
    R.safe u.decoder c

/-- It is enough to look at the pushes and pops. -/
theorem exact_of_fails (hpush : ∀ {s bytes}, R.Inv s → ¬ R.safe s (.push bytes) →
      D.push s bytes = none)
    (hpop : ∀ {s}, R.Inv s → ¬ R.safe s .pop → D.pop s = none)
    (hlook : ∀ s, R.safe s .look) : R.Exact := by
  intro u u' c hinv hstep
  by_contra hunsafe
  cases c with
  | push bytes =>
    rw [machine] at hstep
    simp only [hpush hinv hunsafe] at hstep
    cases hstep
  | pop =>
    rw [machine] at hstep
    simp only [hpop hinv hunsafe] at hstep
    cases hstep
  | look => exact hunsafe (hlook _)

theorem Exact.step (hR : R.Exact) (h : R.Sim u v) (hstep : D.machine.step u c = some u') :
    ∃ v', d.decoding.machine.step v c = some v' ∧ R.Sim u' v' := by
  obtain ⟨u₁, hu, v', hv, h'⟩ := h.step (hR h.inv hstep)
  obtain rfl : u₁ = u' := Option.some.inj (hu.symm.trans hstep)
  exact ⟨v', hv, h'⟩

theorem Exact.along_of_run (hR : R.Exact) (h : R.Sim u v)
    (hrun : D.machine.run u calls = some u') :
    D.machine.Along (fun u c => R.safe u.decoder c) u calls := by
  induction calls generalizing u v with
  | nil => trivial
  | cons c calls ih =>
    obtain ⟨w, hstep, hrest⟩ := Machine.exists_step_of_run_cons hrun
    obtain ⟨w', -, hsim⟩ := hR.step h hstep
    exact .cons_of_step (hR h.inv hstep) hstep (ih hsim hrest)

/-- **The outcomes are the deframer's if and only if every call is safe.** -/
theorem Exact.outcomes_eq_iff (hR : R.Exact) (hinv : R.Inv s) (calls : List (Call α)) :
    D.outcomes s calls = d.decoding.outcomes (R.content s) calls ↔ R.Safe s calls := by
  constructor
  · intro heq
    obtain ⟨v, hv⟩ := d.exists_decoding_run (start (R.content s)) calls
    have hlog : D.outcomes s calls = some v.log := by
      rw [heq, outcomes, hv, Option.map_some]
    obtain ⟨u, hu, -⟩ := Option.map_eq_some_iff.mp hlog
    exact hR.along_of_run (sim_start hinv) hu
  · exact outcomes_eq hinv

/-- Where safety shows in the content, it is a condition on the deframer's own run. -/
theorem along_iff {P : List α → Call α → Prop}
    (hP : ∀ {s c}, R.Inv s → (R.safe s c ↔ P (R.content s) c)) (h : R.Sim u v) :
    D.machine.Along (fun u c => R.safe u.decoder c) u calls ↔
      d.decoding.machine.Along (fun v c => P v.decoder c) v calls := by
  induction calls generalizing u v with
  | nil => exact Iff.rfl
  | cons c calls ih =>
    have hhead : R.safe u.decoder c ↔ P v.decoder c := by rw [hP h.inv, h.content]
    constructor
    · rintro ⟨hsafe, hrest⟩
      obtain ⟨u₁, hu, v₁, hv, h₁⟩ := h.step hsafe
      exact .cons_of_step (hhead.mp hsafe) hv ((ih h₁).mp (hrest u₁ hu))
    · rintro ⟨hP', hrest⟩
      obtain ⟨u₁, hu, v₁, hv, h₁⟩ := h.step (hhead.mpr hP')
      exact .cons_of_step (hhead.mpr hP') hu ((ih h₁).mpr (hrest v₁ hv))

/-- **The outcomes are the deframer's if and only if its own run meets the condition.** -/
theorem Exact.outcomes_eq_iff_along (hR : R.Exact) {P : List α → Call α → Prop}
    (hP : ∀ {s c}, R.Inv s → (R.safe s c ↔ P (R.content s) c)) (hinv : R.Inv s)
    (calls : List (Call α)) : D.outcomes s calls = d.decoding.outcomes (R.content s) calls ↔
      d.decoding.machine.Along (fun v c => P v.decoder c) (start (R.content s)) calls :=
  (hR.outcomes_eq_iff hinv calls).trans (along_iff hP (sim_start hinv))

end Refines

end Decoding
