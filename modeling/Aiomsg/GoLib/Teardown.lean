import Aiomsg.GoLib.WsLocks
import Mathlib.Algebra.Order.Group.Nat

/-!
# The teardown of a WebSocket connection

When the context of a connection is done one goroutine calls `Close`. On a `wsConn` this does not go
to the inner connection at once: it writes a close frame first, which takes `closeOnce` and
`writeMu`, and a frame is written for as long as the peer takes to read it. If the peer reads no
more, a goroutine that holds `writeMu` in the inner `Write` waits for the inner `Close`, and the
goroutine that would call it waits for `writeMu`. The reader comes to its end by its deadline and
then waits for the writer.

This does not happen if the send buffer has room: from the moment the context is done until the
close frame has been written, for what is left of the frame that is being written and for the close
frame (`LeavesRoom`). Then every goroutine that holds `writeMu` gives it back by itself.

## Scope

The condition is about room and not about time. Nothing here says how long a peer takes to read, and
a peer that reads on, however slowly, is no deadlock: it gives room, and the writer goes on. What is
excluded is that nobody can go on without it.

That the inner `Close` wakes whoever is blocked in the inner `Write` is the inner connection's part
of the contract, and it is in the machine: once `closed` is set every `Write` returns with an error.

## Main results

* `Roomy.go`, `Safe.step` — the room that is left is enough
* `exists_go` — some goroutine comes closer to the inner `Close`
* `goesOn_of_leavesRoom` — no deadlock along such runs, and the inner `Close` is reached
* `teardown_deadlock` — a run that is not one of them
-/

namespace Aiomsg

namespace GoLib

/-! ### Room for the close frame -/

/-- The length of a close frame with a code in it. -/
def closeLength : ℕ := 4

theorem length_frame_le {job : Job} (h : job.closing = true) : job.frame.length ≤ closeLength := by
  have hclose : ∀ code,
      (encodeServerFrame Ws.opClose (closePayload code)).length ≤ closeLength := by
    intro code
    by_cases hcode : code = 0
    · simp [encodeServerFrame, closePayload, hcode, closeLength]
    · simp [encodeServerFrame, closePayload, hcode, closeLength]
  cases job with
  | data | pong => exact absurd h (by simp [Job.closing])
  | fail code => exact hclose code
  | close => exact hclose 1000

/-- What is to be kept for the close frame while a frame is written. -/
def Job.reserve (job : Job) : ℕ := if job.closing then 0 else closeLength

/-- What the holder of `writeMu` needs before it gives it back, with the close frame. -/
def Pc.need : Pc → ℕ
  | .write job rest => rest.length + job.reserve
  | .unlock job _ => job.reserve
  | _ => closeLength

namespace WsHandler

/-- The bytes of the frame that is being written and of the close frame that are not in the send
buffer yet. -/
def need (s : WsHandler) : ℕ :=
  match s.writeMu with
  | some t => (s.pc t).need
  | none => closeLength

/-- The send buffer has room for these, or the close frame has been written, or the inner connection
is closed. -/
def Roomy (s : WsHandler) : Prop := s.closeOnce = .done ∨ s.closed = true ∨ s.need ≤ s.room

instance (s : WsHandler) : Decidable s.Roomy := inferInstanceAs (Decidable (_ ∨ _))

/-- A goroutine at `pc` goes on: if it cancels the context, there is room; if the context is done
and it begins to write a frame, there is room for that and for the close frame, unless the close
frame has been written. -/
def LeavesRoomAt (s : WsHandler) : Pc → Prop
  | .cancel => s.Roomy
  | .lock job => s.connDone = true →
      s.closeOnce = .done ∨ s.closed = true ∨ (Pc.write job job.frame).need ≤ s.room
  | _ => True

instance (s : WsHandler) : ∀ pc, Decidable (s.LeavesRoomAt pc)
  | .cancel => inferInstanceAs (Decidable s.Roomy)
  | .lock _ => inferInstanceAs (Decidable (_ → _ ∨ _))
  | .idle | .once _ | .write _ _ | .unlock _ _ | .innerClose | .passing | .down | .wgWait
  | .returned => .isTrue trivial

/-- When the context becomes done there is room, and from then on the frames that are written leave
room, until the close frame has been written. -/
def LeavesRoom (s : WsHandler) : WsAction → Prop
  | .ctxDone => s.Roomy
  | .go t => s.LeavesRoomAt (s.pc t)
  | _ => True

instance (s : WsHandler) : ∀ a, Decidable (s.LeavesRoom a)
  | .ctxDone => inferInstanceAs (Decidable s.Roomy)
  | .go t => inferInstanceAs (Decidable (s.LeavesRoomAt (s.pc t)))
  | .takes _ | .heartbeat | .reads _ | .passes | .tells | .closesWriterCh | .peerReads _ =>
    .isTrue trivial

variable {s u : WsHandler} {t : Thread} {pc : Pc}

theorem need_of_holder (h : s.writeMu = some t) : s.need = (s.pc t).need := by
  rw [need, h]

theorem need_of_free (h : s.writeMu = none) : s.need = closeLength := by
  rw [need, h]

theorem need_setPc (h : s.writeMu ≠ some t) : (s.setPc t pc).need = s.need := by
  cases hmu : s.writeMu with
  | none => exact (need_of_free (s := s.setPc t pc) hmu).trans (need_of_free hmu).symm
  | some t' =>
    have hne : t' ≠ t := fun heq => h (hmu.trans (congrArg some heq))
    rw [need_of_holder (s := s.setPc t pc) hmu, need_of_holder hmu]
    exact congrArg Pc.need (Function.update_of_ne hne _ _)

theorem Roomy.setPc (h : s.Roomy) (hmu : s.writeMu ≠ some t) : (s.setPc t pc).Roomy := by
  unfold Roomy
  rw [need_setPc hmu]
  exact h

/-- In the inner `Write` there is room for the rest of the frame. -/
theorem Roomy.goWrite {job : Job} {rest : Bytes} (h : s.Roomy) (hmu : s.writeMu = some t)
    (hpc : s.pc t = .write job rest) (hgo : s.goWrite t job rest = some u) : u.Roomy := by
  have hneed : s.need = rest.length + job.reserve := by
    rw [need_of_holder hmu, hpc]
    rfl
  unfold WsHandler.goWrite at hgo
  rcases h with hdone | hclosed | hroom
  · left
    split_ifs at hgo <;> cases hgo <;> exact hdone
  · right
    left
    rw [if_pos hclosed] at hgo
    cases hgo
    exact hclosed
  · rw [hneed] at hroom
    split_ifs at hgo with hclosed hfits
    · cases hgo
      exact .inr (.inl hclosed)
    · cases hgo
      right
      right
      refine Eq.trans_le (need_of_holder (t := t) ?_) ?_
      · exact hmu
      · show (Function.update s.pc t (.unlock job true) t).need ≤ s.room - rest.length
        rw [Function.update_self]
        exact Nat.le_sub_of_add_le (by rwa [Nat.add_comm])
    · omega

theorem Inv.not_holder (h : Inv s) (hpc : s.pc t = pc) (hfree : ¬ pc.Holds) :
    s.writeMu ≠ some t := by
  intro hmu
  have hholds := (h.holds t).mpr hmu
  rw [hpc] at hholds
  exact hfree hholds

/-- Giving `writeMu` back: either that was the close frame, or there is still room for it. -/
theorem Roomy.release {job : Job} {ok : Bool} (h : s.Roomy) (hmu : s.writeMu = some t)
    (hpc : s.pc t = .unlock job ok) :
    ({ s with
      writeMu := none
      closeOnce := if job.closing then .done else s.closeOnce }.setPc t
        (afterUnlock job ok)).Roomy := by
  by_cases hclosing : job.closing = true
  · exact .inl (if_pos hclosing)
  · have hneed : s.need = closeLength := by
      rw [need_of_holder hmu, hpc]
      exact if_neg hclosing
    rcases h with hdone | hclosed | hroom
    · exact .inl ((if_neg hclosing).trans hdone)
    · exact .inr (.inl hclosed)
    · rw [hneed] at hroom
      exact .inr (.inr hroom)

/-- **A goroutine's step.** The room that is left is enough afterwards. -/
theorem Roomy.go (hI : Inv s) (h : s.Roomy) (hdone : s.connDone = true ∨ s.pc t = .cancel)
    (hleaves : s.LeavesRoomAt (s.pc t)) (hgo : s.go t = some u) : u.Roomy := by
  cases go_cases hgo with
  | walks hpc hwalks =>
    refine h.setPc (hI.not_holder hpc ?_)
    cases hwalks <;> exact id
  | enter hpc hfresh =>
    have hentered : { s with closeOnce := Once.running t }.Roomy :=
      h.imp_left fun hs => absurd (hfresh.symm.trans hs) (by simp)
    exact hentered.setPc (hI.not_holder hpc id)
  | @acquire job hpc =>
    rw [hpc] at hleaves hdone
    rcases hleaves (hdone.resolve_right (by simp)) with hs | hs | hroom
    · exact .inl hs
    · exact .inr (.inl hs)
    · refine .inr (.inr ?_)
      show (Function.update s.pc t (.write job job.frame) t).need ≤ s.room
      rw [Function.update_self]
      exact hroom
  | write hpc hwrite => exact h.goWrite ((hI.holds t).mp (hpc ▸ trivial)) hpc hwrite
  | release hpc => exact h.release ((hI.holds t).mp (hpc ▸ trivial)) hpc
  | close => exact .inr (.inl rfl)
  | cancel hpc =>
    exact Roomy.setPc (s := { s with connCancelled := true }) h (hI.not_holder hpc id)

/-- Only `connCancel` makes the context done among the steps of the goroutines. -/
theorem connDone_go (hgo : s.go t = some u) :
    u.connDone = s.connDone ∨ s.pc t = .cancel ∧ u.connDone = true := by
  cases go_cases hgo with
  | walks | enter | acquire | release | close => exact .inl rfl
  | write hpc hwrite =>
    left
    unfold WsHandler.goWrite at hwrite
    split_ifs at hwrite <;> cases hwrite <;> rfl
  | cancel hpc => exact .inr ⟨hpc, Bool.or_true _⟩

/-- From the moment the context is done there is room. Before that nothing is asked: a peer that
does not read may hold up the writer for as long as nobody wants to leave. -/
structure Safe (s : WsHandler) : Prop where
  inv : Inv s
  roomy : s.connDone = true → s.Roomy

theorem safe_new (room : ℕ) : Safe (new room) :=
  ⟨inv_new room, fun h => absurd h (by simp [new, connDone])⟩

/-- **One step.** Steps that leave room keep the room. -/
theorem Safe.step {a : WsAction} (h : Safe s) (hleaves : s.LeavesRoom a)
    (hstep : wsMachine.step s a = some u) : Safe u := by
  refine ⟨h.inv.step hstep, fun hu => ?_⟩
  cases step_cases hstep with
  | @go t _ hgo =>
    rcases connDone_go hgo with hsame | ⟨hcancel, -⟩
    · have hdone : s.connDone = true := hsame.symm.trans hu
      exact (h.roomy hdone).go h.inv (.inl hdone) hleaves hgo
    · have hroomy : s.Roomy := by
        have hat : s.LeavesRoomAt (s.pc t) := hleaves
        rwa [hcancel] at hat
      exact hroomy.go h.inv (.inr hcancel) hleaves hgo
  | given hpc hgiven =>
    refine (h.roomy hu).setPc (h.inv.not_holder hpc ?_)
    cases hgiven <;> exact id
  | ignored => exact h.roomy hu
  | closesWriterCh => exact h.roomy hu
  | ctxDone => exact hleaves
  | peerReads =>
    exact (h.roomy hu).imp_right (.imp_right fun hroom => Nat.le_add_right_of_le hroom)

end WsHandler

/-! ### Somebody can go on -/

/-- How far a goroutine is from the inner `Close`, or from giving `writeMu` back. The numbers only
have to go down along the ways that `Advances` takes. A goroutine that waits for the broker or for
the writer has rank 0, since it need not move for the closer to get on. -/
def Pc.rank (t : Thread) : Pc → ℕ
  | .idle => if t = .closer then 8 else 0
  | .once _ => 7
  | .lock job => if job.closing then 6 else 3
  | .write job _ => if job.closing then 5 else 2
  | .unlock job _ => if job.closing then 4 else 1
  | .innerClose => 1
  | .passing | .down | .cancel | .wgWait | .returned => 0

namespace WsHandler

variable {s u : WsHandler} {t : Thread} {pc : Pc}

def rank (s : WsHandler) : ℕ :=
  (s.pc .writer).rank .writer + (s.pc .reader).rank .reader + (s.pc .closer).rank .closer

theorem rank_lt (hmoved : u.pc = Function.update s.pc t pc) (h : pc.rank t < (s.pc t).rank t) :
    u.rank < s.rank := by
  unfold rank
  rw [hmoved]
  cases t with
  | writer =>
    rw [Function.update_self, Function.update_of_ne (by simp), Function.update_of_ne (by simp)]
    omega
  | reader =>
    rw [Function.update_self, Function.update_of_ne (by simp), Function.update_of_ne (by simp)]
    omega
  | closer =>
    rw [Function.update_self, Function.update_of_ne (by simp), Function.update_of_ne (by simp)]
    omega

/-- Some goroutine has a step that brings it closer and leaves room. The step is the goroutine's
own, so it needs neither the peer nor the broker. -/
def Advances (s : WsHandler) : Prop :=
  ∃ t u, s.go t = some u ∧ s.LeavesRoomAt (s.pc t) ∧ u.rank < s.rank

/-- A step to `pc`, from where the goroutine leaves room. -/
theorem advances_of_go (hgo : s.go t = some u) (hmoved : u.pc = Function.update s.pc t pc)
    (hleaves : s.LeavesRoomAt (s.pc t)) (hrank : pc.rank t < (s.pc t).rank t) : s.Advances :=
  ⟨t, u, hgo, hleaves, rank_lt hmoved hrank⟩

theorem rank_afterUnlock {job : Job} {ok : Bool} (h : job.IsOf t) :
    (afterUnlock job ok).rank t < (Pc.unlock job ok).rank t := by
  cases job with
  | data p =>
    obtain rfl : t = .writer := h
    cases ok <;> exact Nat.zero_lt_one
  | pong payload =>
    obtain rfl : t = .reader := h
    exact Nat.zero_lt_one
  | fail code => exact Nat.zero_lt_succ 3
  | close => exact Nat.succ_lt_succ (Nat.zero_lt_succ 2)

/-- Who holds `writeMu` can go on. -/
theorem Inv.advances_holder (h : Inv s) (hmu : s.writeMu = some t)
    (hroom : s.closed = true ∨ s.need ≤ s.room) : s.Advances := by
  have hholds := (h.holds t).mpr hmu
  have hneed := need_of_holder hmu
  cases hpc : s.pc t with
  | write job rest =>
    have hleaves : s.LeavesRoomAt (s.pc t) := by
      rw [hpc]
      trivial
    have hrank : ∀ ok, (Pc.unlock job ok).rank t < (s.pc t).rank t := by
      intro ok
      rw [hpc]
      show (if job.closing then 4 else 1) < if job.closing then 5 else 2
      split_ifs <;> decide
    have hgo : s.go t = s.goWrite t job rest := by
      rw [WsHandler.go, hpc]
    by_cases hclosed : s.closed = true
    · have hwrite : s.go t = some (s.setPc t (.unlock job false)) := hgo.trans (if_pos hclosed)
      exact advances_of_go hwrite rfl hleaves (hrank false)
    · have hfits : rest.length ≤ s.room := by
        rw [hneed, hpc] at hroom
        exact (Nat.le_add_right _ _).trans (hroom.resolve_left hclosed)
      have hwrite := hgo.trans ((if_neg hclosed).trans (if_pos hfits))
      exact advances_of_go hwrite rfl hleaves (hrank true)
  | unlock job ok =>
    have hisOf := h.isOf_of hpc
    have hgo : s.go t = some ({ s with
        writeMu := none
        closeOnce := if job.closing then .done else s.closeOnce }.setPc t
          (afterUnlock job ok)) := by
      rw [WsHandler.go, hpc]
    refine advances_of_go hgo rfl ?_ ?_
    · rw [hpc]
      trivial
    · rw [hpc]
      exact rank_afterUnlock hisOf
  | idle | once | lock | innerClose | passing | down | cancel | wgWait | returned =>
    rw [hpc] at hholds
    exact hholds.elim

/-- Who waits for `writeMu` can go on, or its holder can. -/
theorem Inv.advances_lock {job : Job} (h : Inv s) (hpc : s.pc t = .lock job)
    (hroom : s.closed = true ∨ job.closing = true ∧ s.need ≤ s.room) : s.Advances := by
  cases hmu : s.writeMu with
  | some t' => exact h.advances_holder hmu (hroom.imp_right And.right)
  | none =>
    have hgo : s.go t = some ({ s with writeMu := some t }.setPc t (.write job job.frame)) := by
      simp only [WsHandler.go, hpc, hmu]
    refine advances_of_go hgo rfl ?_ ?_
    · rw [hpc]
      intro _
      refine .inr (hroom.imp_right fun ⟨hclosing, hneed⟩ => ?_)
      have hfree := need_of_free hmu
      have hreserve : job.reserve = 0 := if_pos hclosing
      show job.frame.length + job.reserve ≤ s.room
      rw [hreserve]
      exact ((length_frame_le hclosing).trans hfree.ge).trans hneed
    · rw [hpc]
      show (if job.closing then 5 else 2) < if job.closing then 6 else 3
      split_ifs <;> decide

/-- Who runs `closeOnce` can go on, or the holder of `writeMu` can. -/
theorem Inv.advances_running (h : Inv s) (honce : s.closeOnce = .running t)
    (hroom : s.closed = true ∨ s.need ≤ s.room) : s.Advances := by
  have hclosing := (h.closing t).mpr honce
  cases hpc : s.pc t with
  | lock job =>
    rw [hpc] at hclosing
    exact h.advances_lock hpc (hroom.imp_right fun hneed => ⟨hclosing, hneed⟩)
  | write job rest | unlock job ok =>
    have hmu : s.writeMu = some t := (h.holds_of hpc).mp trivial
    exact h.advances_holder hmu hroom
  | idle | once | innerClose | passing | down | cancel | wgWait | returned =>
    rw [hpc] at hclosing
    exact hclosing.elim

theorem go_once_fresh {job : Job} (hpc : s.pc t = .once job) (honce : s.closeOnce = .fresh) :
    s.go t = some ({ s with closeOnce := .running t }.setPc t (.lock job)) := by
  simp only [WsHandler.go, hpc, honce]

theorem go_once_done {job : Job} (hpc : s.pc t = .once job) (honce : s.closeOnce = .done) :
    s.go t = some (s.setPc t (afterOnce job)) := by
  simp only [WsHandler.go, hpc, honce]

/-- Where the closer is as long as it has not closed the inner connection. -/
theorem Inv.closer (h : Inv s) (hopen : s.closed = false) :
    s.pc .closer = .idle ∨ s.pc .closer = .once .close ∨ (s.pc .closer).Closing ∨
      s.pc .closer = .innerClose := by
  cases hpc : s.pc .closer with
  | idle => exact .inl rfl
  | innerClose => exact .inr (.inr (.inr rfl))
  | once job | lock job | write job | unlock job =>
    have hisOf := h.isOf_of hpc
    cases job <;> simp_all [Pc.IsOf, Job.IsOf, Job.closing, Pc.Closing]
  | passing | down | cancel | wgWait => exact absurd (h.isOf_of hpc) (by simp [Pc.IsOf])
  | returned => exact absurd (hopen.symm.trans (h.closed hpc)) (by simp)

/-- **Somebody can go on.** As long as the inner connection is not closed some goroutine comes
closer to closing it. -/
theorem exists_go (h : Safe s) (hdone : s.connDone = true) (hopen : s.closed = false) :
    s.Advances := by
  have hrunning : ∀ t, s.closeOnce = .running t → s.Advances := fun t honce =>
    h.inv.advances_running honce ((h.roomy hdone).resolve_left (by rw [honce]; simp))
  rcases h.inv.closer hopen with hpc | hpc | hclosing | hpc
  · have hgo : s.go .closer = some (s.setPc .closer (.once .close)) := by
      rw [WsHandler.go, hpc]
      exact if_pos hdone
    exact advances_of_go hgo rfl (by rw [hpc]; trivial) (by rw [hpc]; decide)
  · cases honce : s.closeOnce with
    | fresh =>
      exact advances_of_go (go_once_fresh hpc honce) rfl (by rw [hpc]; trivial)
        (by rw [hpc]; decide)
    | running t => exact hrunning t honce
    | done =>
      exact advances_of_go (go_once_done hpc honce) rfl (by rw [hpc]; trivial) (by rw [hpc]; decide)
  · exact hrunning .closer ((h.inv.closing .closer).mp hclosing)
  · have hgo : s.go .closer = some ({ s with closed := true }.setPc .closer .returned) := by
      rw [WsHandler.go, hpc]
    exact advances_of_go hgo rfl (by rw [hpc]; trivial) (by rw [hpc]; decide)

/-- The inner connection gets closed by the goroutines' own steps. -/
theorem exists_closes (h : Safe s) (hdone : s.connDone = true) :
    ∃ (ts : List Thread) (u : WsHandler),
      wsMachine.run s (ts.map .go) = some u ∧ u.closed = true := by
  induction hrank : s.rank using Nat.strong_induction_on generalizing s with
  | _ n ih =>
    cases hopen : s.closed with
    | true => exact ⟨[], s, rfl, hopen⟩
    | false =>
      obtain ⟨t, v, hgo, hleaves, hless⟩ := exists_go h hdone hopen
      have hv : Safe v := h.step (a := .go t) hleaves hgo
      have hvdone : v.connDone = true := by
        rcases connDone_go hgo with hsame | ⟨-, hv⟩
        · exact hsame.trans hdone
        · exact hv
      obtain ⟨ts, u, hrun, hclosed⟩ := ih v.rank (hrank ▸ hless) hv hvdone rfl
      exact ⟨t :: ts, u, Machine.run_cons_of_step hgo hrun, hclosed⟩

/-- Once the inner connection is closed, somebody can go on when a goroutine waits for `writeMu` or
holds it. -/
theorem Inv.exists_go_of_locks (h : Inv s) (hclosed : s.closed = true) (hpc : s.pc t = pc)
    (hlocks : (∃ job, pc = .lock job) ∨ pc.Holds) : ∃ t u, s.go t = some u := by
  subst hpc
  obtain ⟨t', u, hgo, -⟩ : s.Advances := by
    rcases hlocks with ⟨job, hlock⟩ | hholds
    · exact h.advances_lock hlock (.inl hclosed)
    · exact h.advances_holder ((h.holds t).mp hholds) (.inl hclosed)
  exact ⟨t', u, hgo⟩

/-- The writer does not wait for anything else. -/
theorem Inv.exists_go_of_writer (h : Inv s) (hdone : s.connDone = true) (hclosed : s.closed = true)
    (hpc : s.pc .writer ≠ .returned) : ∃ t u, s.go t = some u := by
  cases hat : s.pc .writer with
  | idle =>
    refine ⟨.writer, ?_⟩
    rw [WsHandler.go, hat]
    exact ⟨_, if_pos (.inl hdone)⟩
  | lock job => exact h.exists_go_of_locks hclosed hat (.inl ⟨job, rfl⟩)
  | write job rest => exact h.exists_go_of_locks hclosed hat (.inr trivial)
  | unlock job ok => exact h.exists_go_of_locks hclosed hat (.inr trivial)
  | once job =>
    have hisOf := h.isOf_of hat
    cases job <;> exact absurd hisOf (by simp [Pc.IsOf, Job.IsOf, Job.closing])
  | innerClose | passing | down | cancel | wgWait =>
    exact absurd (h.isOf_of hat) (by simp [Pc.IsOf])
  | returned => exact absurd hat hpc

/-- While the reader waits to tell the broker, the context is done by the socket's only. -/
theorem Inv.ctxDone_of_down (h : Inv s) (hdone : s.connDone = true) (hpc : s.pc t = .down) :
    s.ctxDone = true := by
  refine (Bool.or_eq_true_iff.mp hdone).resolve_right fun hcancelled => ?_
  obtain rfl : t = .reader := h.isOf_of hpc
  exact h.past_of hpc hcancelled

/-- Once the inner connection is closed, who has not returned can go on, or somebody it waits for
can. -/
theorem Inv.exists_go_of_closed (h : Inv s) (hdone : s.connDone = true) (hclosed : s.closed = true)
    (hpc : s.pc t ≠ .returned) : ∃ t u, s.go t = some u := by
  cases hat : s.pc t with
  | idle =>
    refine ⟨t, ?_⟩
    rw [WsHandler.go, hat]
    cases t with
    | writer => exact ⟨_, if_pos (.inl hdone)⟩
    | reader => exact ⟨_, rfl⟩
    | closer => exact ⟨_, if_pos hdone⟩
  | once job =>
    cases honce : s.closeOnce with
    | fresh => exact ⟨t, _, go_once_fresh hat honce⟩
    | running t' =>
      obtain ⟨t, u, hgo, -⟩ := h.advances_running honce (.inl hclosed)
      exact ⟨t, u, hgo⟩
    | done => exact ⟨t, _, go_once_done hat honce⟩
  | lock job => exact h.exists_go_of_locks hclosed hat (.inl ⟨job, rfl⟩)
  | write job rest => exact h.exists_go_of_locks hclosed hat (.inr trivial)
  | unlock job ok => exact h.exists_go_of_locks hclosed hat (.inr trivial)
  | innerClose | cancel =>
    refine ⟨t, ?_⟩
    rw [WsHandler.go, hat]
    exact ⟨_, rfl⟩
  | passing =>
    refine ⟨t, ?_⟩
    rw [WsHandler.go, hat]
    exact ⟨_, if_pos hdone⟩
  | down =>
    refine ⟨t, ?_⟩
    rw [WsHandler.go, hat]
    exact ⟨_, if_pos (h.ctxDone_of_down hdone hat)⟩
  | wgWait =>
    by_cases hwriter : s.pc .writer = .returned
    · refine ⟨t, ?_⟩
      simp only [WsHandler.go, hat, hwriter]
      exact ⟨_, rfl⟩
    · exact h.exists_go_of_writer hdone hclosed hwriter
  | returned => exact absurd hat hpc

end WsHandler

open WsHandler

/-- **No deadlock if there is room.** Suppose that when the context becomes done there is room for
the rest of the frame that is being written and for the close frame, and that from then on every
frame that is begun leaves room for the close frame until that has been written. Then in every state
in which the context is done and some goroutine has not returned, so also while `wg.Wait` has not,
some goroutine can go on by itself, and the goroutines' own steps lead to the inner `Close`. -/
theorem goesOn_of_leavesRoom (room : ℕ) (actions : List WsAction) {s : WsHandler}
    (hrun : wsMachine.run (new room) actions = some s)
    (halong : wsMachine.Along LeavesRoom (new room) actions) (hdone : s.connDone = true) :
    ((∃ t, s.pc t ≠ .returned) → ∃ t u, wsMachine.step s (.go t) = some u) ∧
      ∃ (ts : List Thread) (u : WsHandler),
        wsMachine.run s (ts.map .go) = some u ∧ u.closed = true := by
  have h : Safe s := Machine.Along.invariant
    (fun _ _ _ hI hleaves hstep => hI.step hleaves hstep) halong hrun (safe_new room)
  refine ⟨fun ⟨t, hpc⟩ => ?_, exists_closes h hdone⟩
  cases hopen : s.closed with
  | true => exact h.inv.exists_go_of_closed hdone hopen hpc
  | false =>
    obtain ⟨t, u, hgo, -, -⟩ := exists_go h hdone hopen
    exact ⟨t, u, hgo⟩

/-- The writer is in the middle of a frame when the socket is closed, and there is room for it. -/
theorem goesOn_amidFrame :
    ∃ s, wsMachine.run (new 100) [.takes [7], .go .writer, .ctxDone, .go .closer, .go .closer]
        = some s ∧ s.pc .reader ≠ .returned ∧
      (∃ t u, wsMachine.step s (.go t) = some u) ∧
      ∃ (ts : List Thread) (u : WsHandler),
        wsMachine.run s (ts.map .go) = some u ∧ u.closed = true := by
  refine ⟨_, rfl, by simp [setPc, new, Function.update], ?_⟩
  have h := goesOn_of_leavesRoom 100
    [.takes [7], .go .writer, .ctxDone, .go .closer, .go .closer] rfl (by decide) rfl
  exact ⟨h.1 ⟨.reader, by simp [setPc, new, Function.update]⟩, h.2⟩

/-- The writer fills the send buffer and blocks, and the peer reads no more. The socket is closed,
the closer waits for `writeMu`, and the reader comes to its end and waits for the writer. The inner
connection is not closed, and nothing can happen any more unless the peer reads: the socket may be
closed once more, and the broker may close the writer channel. -/
theorem teardown_deadlock :
    ∃ s, wsMachine.run (new 8) [.takes [1, 2, 3, 4, 5, 6], .go .writer, .go .writer, .ctxDone,
        .go .closer, .go .closer, .go .reader, .go .reader, .go .reader] = some s ∧
      s.connDone = true ∧ s.closed = false ∧ s.pc .reader = .wgWait ∧
      ∀ a u, wsMachine.step s a = some u →
        a = .ctxDone ∨ a = .closesWriterCh ∨ ∃ n, a = .peerReads n := by
  refine ⟨_, rfl, rfl, rfl, rfl, fun a u hstep => ?_⟩
  cases a with
  | ctxDone => exact .inl rfl
  | closesWriterCh => exact .inr (.inl rfl)
  | peerReads n => exact .inr (.inr ⟨n, rfl⟩)
  | go t => cases t <;> exact absurd (show none = some u from hstep) (by simp)
  | takes | heartbeat | reads | passes | tells =>
    exact absurd (show none = some u from hstep) (by simp)

end GoLib

end Aiomsg
