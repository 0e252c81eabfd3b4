import Aiomsg.GoLib.WsHandler

/-!
# Who holds what

The mutex and the once of a WebSocket connection as the goroutines see them: a goroutine holds
`writeMu` exactly while it is in the inner `Write` or has just come out of it, and it runs
`closeOnce` exactly while it has the close frame to write. With that goes where each of the three
goroutines can be at all, and that the closer returns only after the inner `Close`.

## Scope

This says where goroutines are, and not that they get on. That a goroutine is in the inner `Write`
for good is a run like any other, and with it the mutex is held for good; which runs these are is
the subject of the module that follows.

`Moves` has one field for each thing that a step may disturb. A step touches the place of one
goroutine and at most one of the mutex and the once, so most fields are closed by what the step
leaves as it was.

## Main results

* `WsHandler.Inv.go`, `WsHandler.Inv.step` — every step keeps this
-/

namespace Aiomsg

namespace GoLib

/-! ### Who does what -/

/-- The goroutines that do a job. -/
def Job.IsOf : Job → Thread → Prop
  | .data _, t => t = .writer
  | .pong _, t => t = .reader
  | .fail _, t => t = .reader
  | .close, t => t ≠ .writer

namespace Pc

/-- Where a goroutine can be. -/
def IsOf : Pc → Thread → Prop
  | .idle, _ => True
  | .once job, t => job.closing = true ∧ job.IsOf t
  | .lock job, t => job.IsOf t
  | .write job _, t => job.IsOf t
  | .unlock job _, t => job.IsOf t
  | .innerClose, t => t ≠ .writer
  | .passing, t => t = .reader
  | .down, t => t = .reader
  | .cancel, t => t = .reader
  | .wgWait, t => t = .reader
  | .returned, _ => True

/-- The goroutine holds `writeMu`. -/
def Holds : Pc → Prop
  | .write _ _ => True
  | .unlock _ _ => True
  | _ => False

/-- The goroutine is in the function of `closeOnce`. -/
def Closing : Pc → Prop
  | .lock job => job.closing = true
  | .write job _ => job.closing = true
  | .unlock job _ => job.closing = true
  | _ => False

/-- The reader has called `connCancel`. -/
def Past : Pc → Prop
  | .once job => job = .close
  | .lock job => job = .close
  | .write job _ => job = .close
  | .unlock job _ => job = .close
  | .innerClose => True
  | .wgWait => True
  | .returned => True
  | _ => False

end Pc

namespace WsHandler

variable {s u : WsHandler} {t : Thread} {pc : Pc}

/-- **The invariant.** Who holds the mutex and who runs the once can be read off where the
goroutines are, and the other way round; so no two of them are where only the holder can be. -/
structure Inv (s : WsHandler) : Prop where
  isOf : ∀ t, (s.pc t).IsOf t
  holds : ∀ t, (s.pc t).Holds ↔ s.writeMu = some t
  closing : ∀ t, (s.pc t).Closing ↔ s.closeOnce = .running t
  closed : s.pc .closer = .returned → s.closed = true
  past : s.connCancelled = true → (s.pc .reader).Past

theorem inv_new (room : ℕ) : Inv (new room) where
  isOf _ := trivial
  holds _ := iff_of_false id (by simp [new])
  closing _ := iff_of_false id (by simp [new])
  closed h := absurd h (by simp [new])
  past h := absurd h (by simp [new])

/-! What the invariant says of a goroutine that is at `pc`. -/

theorem Inv.isOf_of (h : Inv s) (hpc : s.pc t = pc) : pc.IsOf t := by
  rw [← hpc]
  exact h.isOf t

theorem Inv.holds_of (h : Inv s) (hpc : s.pc t = pc) : pc.Holds ↔ s.writeMu = some t := by
  rw [← hpc]
  exact h.holds t

theorem Inv.closing_of (h : Inv s) (hpc : s.pc t = pc) :
    pc.Closing ↔ s.closeOnce = .running t := by
  rw [← hpc]
  exact h.closing t

theorem Inv.past_of (h : Inv s) (hpc : s.pc .reader = pc) (hcancelled : s.connCancelled = true) :
    pc.Past := by
  rw [← hpc]
  exact h.past hcancelled

/-- What a step of the goroutine `t` to `pc` has to keep. -/
structure Moves (s u : WsHandler) (t : Thread) (pc : Pc) : Prop where
  moved : u.pc = Function.update s.pc t pc
  isOf : pc.IsOf t
  holds : pc.Holds ↔ u.writeMu = some t
  holds_others : ∀ t' ≠ t, (u.writeMu = some t' ↔ s.writeMu = some t')
  closing : pc.Closing ↔ u.closeOnce = .running t
  closing_others : ∀ t' ≠ t, (u.closeOnce = .running t' ↔ s.closeOnce = .running t')
  closed : s.closed = true ∨ t = .closer ∧ pc = .returned → u.closed = true
  past : t = .reader → u.connCancelled = true → pc.Past
  past_others : t ≠ .reader → u.connCancelled = true → s.connCancelled = true

/-- A goroutine that does not return closes nothing. -/
theorem closed_of_ne {closed : Prop} (hpc : pc ≠ .returned)
    (h : closed ∨ t = .closer ∧ pc = .returned) : closed := by
  rcases h with hclosed | ⟨-, hreturned⟩
  · exact hclosed
  · exact absurd hreturned hpc

theorem Inv.moves (h : Inv s) (hmoves : Moves s u t pc) : Inv u where
  isOf t' := by
    rw [hmoves.moved]
    by_cases heq : t' = t
    · subst heq
      rw [Function.update_self]
      exact hmoves.isOf
    · rw [Function.update_of_ne heq]
      exact h.isOf t'
  holds t' := by
    rw [hmoves.moved]
    by_cases heq : t' = t
    · subst heq
      rw [Function.update_self]
      exact hmoves.holds
    · rw [Function.update_of_ne heq]
      exact (h.holds t').trans (hmoves.holds_others t' heq).symm
  closing t' := by
    rw [hmoves.moved]
    by_cases heq : t' = t
    · subst heq
      rw [Function.update_self]
      exact hmoves.closing
    · rw [Function.update_of_ne heq]
      exact (h.closing t').trans (hmoves.closing_others t' heq).symm
  closed hreturned := by
    rw [hmoves.moved] at hreturned
    by_cases heq : t = .closer
    · subst heq
      rw [Function.update_self] at hreturned
      exact hmoves.closed (.inr ⟨rfl, hreturned⟩)
    · rw [Function.update_of_ne (Ne.symm heq)] at hreturned
      exact hmoves.closed (.inl (h.closed hreturned))
  past hcancelled := by
    rw [hmoves.moved]
    by_cases heq : t = .reader
    · subst heq
      rw [Function.update_self]
      exact hmoves.past rfl hcancelled
    · rw [Function.update_of_ne (Ne.symm heq)]
      exact h.past (hmoves.past_others heq hcancelled)

/-- A step that changes nothing but where one goroutine is, and neither takes `writeMu` or
`closeOnce` nor gives them back. -/
theorem Inv.setPc (h : Inv s) (hisOf : pc.IsOf t) (hholds : pc.Holds ↔ (s.pc t).Holds)
    (hclosing : pc.Closing ↔ (s.pc t).Closing)
    (hclosed : t = .closer → pc = .returned → s.closed = true)
    (hpast : t = .reader → (s.pc .reader).Past → pc.Past) : Inv (s.setPc t pc) := by
  have hmoves : Moves s (s.setPc t pc) t pc := by
    refine ⟨rfl, hisOf, hholds.trans (h.holds t), fun _ _ => .rfl, hclosing.trans (h.closing t),
      fun _ _ => .rfl, ?_, fun ht hcancelled => hpast ht (h.past hcancelled), fun _ => id⟩
    rintro (hs | ⟨ht, hpc⟩)
    · exact hs
    · exact hclosed ht hpc
  exact h.moves hmoves

/-- The send buffer does not matter. -/
theorem Inv.of_eq (h : Inv s) (room : ℕ) (wire : Bytes) :
    Inv { s with room := room, wire := wire } :=
  ⟨h.isOf, h.holds, h.closing, h.closed, h.past⟩

/-- Entering `closeOnce`. -/
theorem Inv.enter {job : Job} (h : Inv s) (hpc : s.pc t = .once job)
    (hfresh : s.closeOnce = .fresh) :
    Inv ({ s with closeOnce := .running t }.setPc t (.lock job)) := by
  have hisOf : job.closing = true ∧ job.IsOf t := h.isOf_of hpc
  have hholds := h.holds_of hpc
  have hmoves : Moves s ({ s with closeOnce := .running t }.setPc t (.lock job)) t (.lock job) := by
    refine ⟨rfl, hisOf.2, hholds, fun _ _ => .rfl, iff_of_true hisOf.1 rfl, fun t' ht' => ?_,
      closed_of_ne nofun, ?_, fun _ => id⟩
    · refine iff_of_false (fun heq => ht' (Once.running.inj heq).symm) ?_
      rw [hfresh]
      exact nofun
    · rintro rfl hcancelled
      have hpast := h.past_of hpc hcancelled
      exact hpast
  exact h.moves hmoves

/-- Taking `writeMu`. -/
theorem Inv.acquire {job : Job} (h : Inv s) (hpc : s.pc t = .lock job)
    (hfree : s.writeMu = none) :
    Inv ({ s with writeMu := some t }.setPc t (.write job job.frame)) := by
  have hisOf := h.isOf_of hpc
  have hclosing := h.closing_of hpc
  have hmoves : Moves s ({ s with writeMu := some t }.setPc t (.write job job.frame)) t
      (.write job job.frame) := by
    refine ⟨rfl, hisOf, iff_of_true trivial rfl, fun t' ht' => ?_, hclosing, fun _ _ => .rfl,
      closed_of_ne nofun, ?_, fun _ => id⟩
    · refine iff_of_false (fun heq => ht' (Option.some.inj heq).symm) ?_
      rw [hfree]
      exact nofun
    · rintro rfl hcancelled
      have hpast := h.past_of hpc hcancelled
      exact hpast
  exact h.moves hmoves

/-- Staying in the inner `Write`, or leaving it. -/
theorem Inv.writes {job : Job} {rest : Bytes} (h : Inv s) (hpc : s.pc t = .write job rest)
    (hpc' : (∃ rest', pc = .write job rest') ∨ ∃ ok, pc = .unlock job ok) :
    Inv (s.setPc t pc) := by
  have hisOf := h.isOf_of hpc
  rcases hpc' with ⟨rest', rfl⟩ | ⟨ok, rfl⟩
  · exact h.setPc hisOf (by rw [hpc]; exact .rfl) (by rw [hpc]; exact .rfl)
      (fun _ hreturned => absurd hreturned (by simp)) (by rintro rfl hpast; rwa [hpc] at hpast)
  · exact h.setPc hisOf (by rw [hpc]; exact .rfl) (by rw [hpc]; exact .rfl)
      (fun _ hreturned => absurd hreturned (by simp)) (by rintro rfl hpast; rwa [hpc] at hpast)

theorem Inv.goWrite {job : Job} {rest : Bytes} (h : Inv s) (hpc : s.pc t = .write job rest)
    (hgo : s.goWrite t job rest = some u) : Inv u := by
  unfold WsHandler.goWrite at hgo
  split_ifs at hgo
  · cases hgo
    exact h.writes hpc (.inr ⟨_, rfl⟩)
  · cases hgo
    exact (h.of_eq _ _).writes hpc (.inr ⟨_, rfl⟩)
  · cases hgo
    exact (h.of_eq _ _).writes hpc (.inl ⟨_, rfl⟩)

theorem afterUnlock_free (job : Job) (ok : Bool) :
    ¬ (afterUnlock job ok).Holds ∧ ¬ (afterUnlock job ok).Closing := by
  cases job with
  | data p => cases ok <;> exact ⟨id, id⟩
  | pong | fail | close => exact ⟨id, id⟩

/-- Giving `writeMu` back, and leaving `closeOnce` if the frame was the close frame. -/
theorem Inv.release {job : Job} {ok : Bool} (h : Inv s) (hpc : s.pc t = .unlock job ok) :
    Inv ({ s with
      writeMu := none
      closeOnce := if job.closing then .done else s.closeOnce }.setPc t (afterUnlock job ok)) := by
  have hisOf := h.isOf_of hpc
  have hmu : s.writeMu = some t := (h.holds_of hpc).mp trivial
  have honce : job.closing = true ↔ s.closeOnce = .running t := h.closing_of hpc
  suffices hmoves : Moves s ({ s with
      writeMu := none
      closeOnce := if job.closing then .done else s.closeOnce }.setPc t (afterUnlock job ok)) t
        (afterUnlock job ok) from h.moves hmoves
  refine ⟨rfl, ?_, ?_, fun t' ht' => ?_, ?_, fun t' ht' => ?_, ?_, ?_, fun _ => id⟩
  · cases job with
    | data p => cases ok <;> trivial
    | pong payload => trivial
    | fail code => exact hisOf
    | close => exact hisOf
  · exact iff_of_false (afterUnlock_free job ok).1 (by simp [WsHandler.setPc])
  · refine iff_of_false (by simp [WsHandler.setPc]) fun heq => ?_
    exact ht' (Option.some.inj (heq.symm.trans hmu))
  · refine iff_of_false (afterUnlock_free job ok).2 fun heq => ?_
    by_cases hclosing : job.closing = true
    · exact absurd ((if_pos hclosing).symm.trans heq) (by simp)
    · exact hclosing (honce.mpr ((if_neg hclosing).symm.trans heq))
  · show (if job.closing = true then Once.done else s.closeOnce) = .running t' ↔ _
    by_cases hclosing : job.closing = true
    · rw [if_pos hclosing, honce.mp hclosing]
      exact iff_of_false (by simp) fun heq => ht' (Once.running.inj heq).symm
    · rw [if_neg hclosing]
  · rintro (hs | ⟨rfl, hreturned⟩)
    · exact hs
    · cases job with
      | data p => exact absurd hisOf (by simp [Pc.IsOf, Job.IsOf])
      | pong | fail | close => exact absurd hreturned (by simp [afterUnlock])
  · rintro rfl hcancelled
    obtain rfl : job = .close := h.past_of hpc hcancelled
    trivial

/-- A goroutine that is at `pc` goes on to `pc'`, both outside of `writeMu` and `closeOnce`. -/
theorem Inv.passes {pc' : Pc} (h : Inv s) (hpc : s.pc t = pc) (hisOf : pc'.IsOf t)
    (hfree : ¬ pc.Holds ∧ ¬ pc.Closing) (hfree' : ¬ pc'.Holds ∧ ¬ pc'.Closing)
    (hreturned : pc' ≠ .returned) (hpast : t = .reader → pc.Past → pc'.Past) :
    Inv (s.setPc t pc') := by
  subst hpc
  refine h.setPc hisOf (iff_of_false hfree'.1 hfree.1) (iff_of_false hfree'.2 hfree.2)
    (fun _ heq => absurd heq hreturned) ?_
  rintro rfl
  exact hpast rfl

/-- The inner `Close`. -/
theorem Inv.close (h : Inv s) (hpc : s.pc t = .innerClose) :
    Inv ({ s with closed := true }.setPc t .returned) := by
  have hholds := h.holds_of hpc
  have hclosing := h.closing_of hpc
  have hmoves : Moves s ({ s with closed := true }.setPc t .returned) t .returned :=
    ⟨rfl, trivial, hholds, fun _ _ => .rfl, hclosing, fun _ _ => .rfl, fun _ => rfl,
      fun _ _ => trivial, fun _ => id⟩
  exact h.moves hmoves

/-- `connCancel()` -/
theorem Inv.cancel (h : Inv s) (hpc : s.pc t = .cancel) :
    Inv ({ s with connCancelled := true }.setPc t .wgWait) := by
  have hisOf := h.isOf_of hpc
  have hholds := h.holds_of hpc
  have hclosing := h.closing_of hpc
  have hmoves : Moves s ({ s with connCancelled := true }.setPc t .wgWait) t .wgWait :=
    ⟨rfl, hisOf, hholds, fun _ _ => .rfl, hclosing, fun _ _ => .rfl, closed_of_ne nofun,
      fun _ _ => trivial, fun ht => absurd hisOf ht⟩
  exact h.moves hmoves

/-- A goroutine goes on by itself, outside of `writeMu` and `closeOnce`. -/
theorem Inv.walks {pc' : Pc} (h : Inv s) (hpc : s.pc t = pc) (hwalks : Walks s t pc pc') :
    Inv (s.setPc t pc') := by
  have hisOf := h.isOf_of hpc
  cases hwalks with
  | ended =>
    exact h.setPc trivial (by rw [hpc]; exact .rfl) (by rw [hpc]; exact .rfl)
      (fun ht => absurd ht (by simp)) fun ht => absurd ht (by simp)
  | deadline => exact h.passes hpc rfl ⟨id, id⟩ ⟨id, id⟩ (by simp) fun _ => id
  | closes =>
    exact h.passes hpc ⟨rfl, by simp [Job.IsOf]⟩ ⟨id, id⟩ ⟨id, id⟩ (by simp)
      fun ht => absurd ht (by simp)
  | @once _ job =>
    cases job with
    | data | pong => exact absurd hisOf.1 (by simp [Job.closing])
    | fail code =>
      refine h.passes hpc hisOf.2 ⟨id, id⟩ ⟨id, id⟩ (by simp [afterOnce]) fun _ hpast => ?_
      exact absurd hpast (by simp [Pc.Past])
    | close =>
      exact h.passes hpc hisOf.2 ⟨id, id⟩ ⟨id, id⟩ (by simp [afterOnce]) fun _ _ => trivial
  | unpassed | untold => exact h.passes hpc hisOf ⟨id, id⟩ ⟨id, id⟩ (by simp) fun _ => id
  | waited =>
    obtain rfl : t = .reader := hisOf
    exact h.passes hpc ⟨rfl, by simp [Job.IsOf]⟩ ⟨id, id⟩ ⟨id, id⟩ (by simp) fun _ _ => rfl

/-- **A goroutine's step.** -/
theorem Inv.go (h : Inv s) (hgo : s.go t = some u) : Inv u := by
  cases go_cases hgo with
  | walks hpc hwalks => exact h.walks hpc hwalks
  | enter hpc hfresh => exact h.enter hpc hfresh
  | acquire hpc hfree => exact h.acquire hpc hfree
  | write hpc hwrite => exact h.goWrite hpc hwrite
  | release hpc => exact h.release hpc
  | close hpc => exact h.close hpc
  | cancel hpc => exact h.cancel hpc

/-- A goroutine goes on with what it is given. -/
theorem Inv.given {pc' : Pc} (h : Inv s) (hpc : s.pc t = pc) (hgiven : Given t pc pc') :
    Inv (s.setPc t pc') := by
  cases hgiven with
  | env p =>
    exact h.passes hpc rfl ⟨id, id⟩ ⟨id, by simp [Pc.Closing, Job.closing]⟩ (by simp)
      fun ht => absurd ht (by simp)
  | ping payload =>
    exact h.passes hpc rfl ⟨id, id⟩ ⟨id, by simp [Pc.Closing, Job.closing]⟩ (by simp)
      fun _ hpast => False.elim hpast
  | closing code =>
    exact h.passes hpc ⟨rfl, rfl⟩ ⟨id, id⟩ ⟨id, id⟩ (by simp) fun _ hpast => False.elim hpast
  | message => exact h.passes hpc rfl ⟨id, id⟩ ⟨id, id⟩ (by simp) fun _ => id
  | passed => exact h.passes hpc trivial ⟨id, id⟩ ⟨id, id⟩ (by simp) fun _ => id
  | told => exact h.passes hpc rfl ⟨id, id⟩ ⟨id, id⟩ (by simp) fun _ => id

/-- **One step.** Who holds `writeMu` and who runs `closeOnce` is where it says. -/
theorem Inv.step {a : WsAction} (h : Inv s) (hstep : wsMachine.step s a = some u) : Inv u := by
  cases step_cases hstep with
  | go hgo => exact h.go hgo
  | given hpc hgiven => exact h.given hpc hgiven
  | ignored => exact h
  | closesWriterCh | ctxDone => exact ⟨h.isOf, h.holds, h.closing, h.closed, h.past⟩
  | peerReads => exact h.of_eq _ _

end WsHandler

end GoLib

end Aiomsg
