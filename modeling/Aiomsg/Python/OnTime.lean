import Aiomsg.Python.IoLock

/-!
# How long the lock is held

The docstring of `msgproto.py` says that each attempt holds the lock for at most the timeout of the
raw socket. For a TCP or TLS socket an attempt is all that a call makes. `_send_raw` of the adapter
makes as many as it needs: a peer that does not read keeps it, and with it the lock, for as long as
it likes, and nobody looks at `abort()` meanwhile. That goes for the writer, and for a reader that
answers a ping or a Close.

## Scope

"On time" is put in terms of attempts, as the model has no clock: the lock is held past one timeout
if a thread makes another attempt after an attempt that timed out without going back to `abort()`.
An attempt that moves bytes is never late, however small.

## Main definitions

* `OnTime` — an attempt that timed out is the last before the lock is released and `abort` checked
* `NoRetry` — the steps that keep to that

## Main results

* `onTime_iff` — every state of a run is on time exactly if no attempt of `_send_raw` times out
* `run_timeouts` — how long the lock is held otherwise
-/

namespace Aiomsg

namespace Python

namespace BlockingWs

/-- The lock is held for at most one attempt that times out: such an attempt is the last one of a
thread before the lock is released and `abort()` is checked. -/
def OnTime (s : Conn) : Prop :=
  ∀ t control, s.held = some (t, control) → control.attempting = true → s.late t = false

/-- No attempt of `_send_raw` times out. -/
def NoRetry (s : Conn) (a : Action) : Prop :=
  a = .attempt .timeout → ∀ t control, s.held = some (t, control) → control.sendsRaw = false

/-- Every thread that wants the lock has checked `abort` since its last attempt that timed out. -/
structure Timely (s : Conn) : Prop where
  onTime : OnTime s
  wanting : ∀ t, s.wants t = true → (∀ control, s.held ≠ some (t, control)) → s.late t = false

theorem timely_new (sock : Sock) : Timely (.new sock) where
  onTime := nofun
  wanting := fun _ _ _ => rfl

/-- Only a call in front of an attempt makes one. -/
theorem Sock.attempting_of_attempt {sock sock' : Sock} {control control' : Control} {o : Outcome}
    (h : sock.attempt control o = some (sock', control')) : control.attempting = true := by
  match control with
  | .recv _ => rfl
  | .send _ => rfl
  | .wsRecv _ => rfl
  | .wsAnswer _ _ => rfl
  | .wsSend _ _ => rfl
  | .returned _ => cases h
  | .raised _ => cases h

/-- A timeout that `_send_raw` does not see ends the call. -/
theorem Sock.attempt_timeout {sock sock' : Sock} {control control' : Control}
    (h : sock.attempt control .timeout = some (sock', control')) (hraw : control.sendsRaw = false) :
    control'.attempting = false := by
  match control with
  | .recv _ =>
    cases h
    rfl
  | .send _ =>
    cases h
    rfl
  | .wsRecv _ =>
    cases h
    rfl
  | .wsAnswer _ _ => cases hraw
  | .wsSend _ _ => cases hraw
  | .returned _ => cases h
  | .raised _ => cases h

/-- A thread that takes the lock has checked `abort` since its last attempt that timed out. -/
theorem Timely.acquired {s u : Conn} {t : Thread} {control : Control} (hs : Timely s)
    (hfree : s.held = none) (hwants : s.wants t = true) (hheld : u.held = some (t, control))
    (hlate : u.late = s.late) (hsame : ∀ t, u.wants t = s.wants t) : Timely u := by
  have hnot : ∀ t control, s.held ≠ some (t, control) := by
    intro t control hbefore
    rw [hfree] at hbefore
    cases hbefore
  constructor
  · intro t' c hu _
    rw [hheld] at hu
    cases hu
    rw [hlate]
    exact hs.wanting t hwants (hnot t)
  · intro t' hu _
    rw [hsame] at hu
    rw [hlate]
    exact hs.wanting t' hu (hnot t')

/-- An attempt that times out ends the call; any other leaves its thread in time. -/
theorem Timely.attempted {s u : Conn} {t : Thread} {control control' : Control} {o : Outcome}
    (hs : Timely s) (hheld : s.held = some (t, control)) (hattempting : control.attempting = true)
    (hends : o = .timeout → control'.attempting = false) (hu : u.held = some (t, control'))
    (hlate : u.late = if o = .timeout then Function.update s.late t true else s.late)
    (hsame : ∀ t, u.wants t = s.wants t) : Timely u := by
  constructor
  · intro t' c hc hagain
    rw [hu] at hc
    cases hc
    have hgoes : o ≠ .timeout := by
      intro ho
      rw [hends ho] at hagain
      cases hagain
    rw [hlate, if_neg hgoes]
    exact hs.onTime t control hheld hattempting
  · intro t' hwants hnot
    have hne : t' ≠ t := by
      rintro rfl
      exact hnot control' hu
    have hother : ∀ c, s.held ≠ some (t', c) := by
      intro c hc
      rw [hheld] at hc
      cases hc
      exact hne rfl
    rw [hsame] at hwants
    rw [hlate]
    split_ifs
    · rw [Function.update_of_ne hne]
      exact hs.wanting t' hwants hother
    · exact hs.wanting t' hwants hother

/-- Behind the lock a thread does not want it before its next abort check. -/
theorem Timely.released {s u : Conn} {t : Thread} {control : Control} (hs : Timely s)
    (hheld : s.held = some (t, control)) (hfree : u.held = none) (hlate : u.late = s.late)
    (hwants : ∀ t', u.wants t' = true → t' ≠ t ∧ s.wants t' = true) : Timely u := by
  constructor
  · intro t' c hu _
    rw [hfree] at hu
    cases hu
  · intro t' hu _
    obtain ⟨hne, hbefore⟩ := hwants t' hu
    rw [hlate]
    refine hs.wanting t' hbefore fun c hc => ?_
    rw [hheld] at hc
    cases hc
    exact hne rfl

/-- **One step** on which `_send_raw` has nothing to try again. -/
theorem Timely.step {s u : Conn} {a : Action} (hs : Timely s) (hretry : NoRetry s a)
    (h : machine.step s a = some u) : Timely u := by
  match a, Conn.step_cases h with
  | _, .move hsock hheld hlate hwants =>
    constructor
    · intro t control hu hattempting
      rw [hheld] at hu
      exact hlate t (hs.onTime t control hu hattempting)
    · intro t hu hnot
      rw [hheld] at hnot
      rcases hwants t hu with hbefore | hchecked
      · exact hlate t (hs.wanting t hbefore hnot)
      · exact hchecked
  | _, .recvInto hfree hreader =>
    have hwants : s.wants .reader = true := by rw [Conn.wants, hreader, Reader.wants]
    exact hs.acquired hfree hwants rfl rfl fun _ => rfl
  | _, .send hfree hwriter =>
    have hwants : s.wants .writer = true := by rw [Conn.wants, hwriter, Writer.wants]
    exact hs.acquired hfree hwants rfl rfl fun _ => rfl
  | _, .attempt t control control' o sock hheld hattempt =>
    refine hs.attempted hheld (Sock.attempting_of_attempt hattempt) ?_ rfl rfl fun _ => rfl
    rintro rfl
    exact Sock.attempt_timeout hattempt (hretry rfl t control hheld)
  | _, .release t control hheld hended hfree hsock hlate hwants =>
    exact hs.released hheld hfree hlate hwants

/-- An attempt of `_send_raw` that times out is followed by another one. -/
theorem step_timeout {s : Conn} {t : Thread} {control : Control}
    (hheld : s.held = some (t, control)) (hraw : control.sendsRaw = true) :
    ∃ u, machine.step s (.attempt .timeout) = some u ∧ u.held = some (t, control) ∧
      u.late t = true := by
  have hstays : s.sock.attempt control .timeout = some (s.sock, control) := by
    match control with
    | .wsAnswer _ _ => rfl
    | .wsSend _ _ => rfl
  refine ⟨{ s with late := Function.update s.late t true }, ?_, hheld, Function.update_self ..⟩
  show s.attempt .timeout = _
  rw [Conn.attempt, hheld]
  dsimp only
  rw [hstays, Option.map_some, if_pos rfl, ← hheld]

theorem Control.attempting_of_sendsRaw {control : Control} (h : control.sendsRaw = true) :
    control.attempting = true := by
  match control with
  | .wsAnswer _ _ => rfl
  | .wsSend _ _ => rfl

/-- It goes on as long as the attempts time out. -/
theorem run_timeouts {t : Thread} {control : Control} (hraw : control.sendsRaw = true) (k : ℕ)
    {s : Conn} (hheld : s.held = some (t, control)) :
    ∃ u, machine.run s (List.replicate k (.attempt .timeout)) = some u ∧
      u.held = some (t, control) := by
  induction k generalizing s with
  | zero => exact ⟨s, rfl, hheld⟩
  | succ k ih =>
    obtain ⟨u, hstep, hu, -⟩ := step_timeout hheld hraw
    obtain ⟨v, hrun, hv⟩ := ih hu
    exact ⟨v, Machine.run_cons_of_step hstep hrun, hv⟩

/-- **The lock is held for at most one attempt that times out** in exactly the runs in which no
attempt of `_send_raw` does, whatever the transport is. -/
theorem onTime_iff (sock : Sock) (as : List Action) :
    (∀ bs s, bs <+: as → machine.run (.new sock) bs = some s → OnTime s)
      ↔ machine.Along NoRetry (.new sock) as := by
  constructor
  · generalize Conn.new sock = start
    intro hall
    induction as generalizing start with
    | nil => trivial
    | cons a as ih =>
      refine ⟨?_, fun u hstep => ih u fun bs s hpre hrun => ?_⟩
      · rintro rfl t control hheld
        by_contra hraw
        have hsends : control.sendsRaw = true := by simpa using hraw
        obtain ⟨u, hstep, hu, hlate⟩ := step_timeout hheld hsends
        have hontime : OnTime u :=
          hall [.attempt .timeout] u (List.cons_prefix_cons.mpr ⟨rfl, List.nil_prefix⟩)
            (Machine.run_cons_of_step hstep rfl)
        rw [hontime t control hu (Control.attempting_of_sendsRaw hsends)] at hlate
        cases hlate
      · exact hall (a :: bs) s (List.cons_prefix_cons.mpr ⟨rfl, hpre⟩)
          (Machine.run_cons_of_step hstep hrun)
  · intro halong bs s hpre hrun
    exact ((halong.of_prefix hpre).invariant (fun _ _ _ => Timely.step) hrun
      (timely_new sock)).onTime

/-- A WebSocket peer that stops reading: the writer takes the lock and goes on trying. -/
def stuckWriter : List Action := [.write [2], .checkWriter, .acquire .writer]

theorem stuckWriter_not_onTime :
    (∃ s, machine.run (.new (.adapter (.new []))) (stuckWriter ++ [.attempt .timeout]) = some s ∧
        ¬ OnTime s) ∧
      ∀ k, ∃ s, machine.run (.new (.adapter (.new [])))
          (stuckWriter ++ List.replicate k (.attempt .timeout)) = some s ∧
        s.held = some (.writer, .wsSend 1 [0x82, 1, 2]) := by
  obtain ⟨s, hrun, hheld⟩ : ∃ s, machine.run (.new (.adapter (.new []))) stuckWriter = some s ∧
      s.held = some (.writer, .wsSend 1 [0x82, 1, 2]) := ⟨_, rfl, rfl⟩
  constructor
  · obtain ⟨u, hstep, hu, hlate⟩ := step_timeout hheld rfl
    refine ⟨u, ?_, fun hontime => ?_⟩
    · rw [Machine.run_append, hrun]
      exact Machine.run_cons_of_step hstep rfl
    · rw [hontime .writer _ hu rfl] at hlate
      cases hlate
  · intro k
    obtain ⟨u, hlater, hu⟩ := run_timeouts rfl k hheld
    exact ⟨u, by rw [Machine.run_append, hrun]; exact hlater, hu⟩

end BlockingWs

end Python

end Aiomsg
