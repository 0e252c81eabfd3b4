import Aiomsg.JsLib.Socket

/-!
# The life of a JavaScript socket

A call of `connect` is for the life of the socket: at any time before `close` it has one connection
or one timer for the next attempt, and never both. Behind `close` no connection is live, and no
timer of a retry is left.

Most of what happens on a connection is of no consequence for this. `Keeps` is what those callbacks
have in common.

## Scope

A call of `connect` is followed and not its address: two calls with one address are two attempts at
any time. When a retry is made is the timer's, and how often is not bounded. Accepted connections
have no attempt behind them and are never retried.

## Main results

* `Socket.keeps_onFrames` — whatever arrives, connections stay whose they are
* `Socket.Lifecycle` — one attempt for each call of `connect`, none after `close`
* `Socket.lifecycle_of_run`
* `Socket.one_attempt`
-/

namespace Aiomsg

namespace JsLib

namespace Socket

/-! ### What does not matter -/

/-- Connections stay whose they are, and none comes to life. -/
structure Keeps (s s' : Socket) : Prop where
  id : s'.id = s.id
  count : s'.count = s.count
  loops : s'.loops = s.loops
  now : s'.now = s.now
  reconnectTimers : s'.reconnectTimers = s.reconnectTimers
  closed : s'.closed = s.closed
  owned : ∀ c, (s'.conn c).owned = (s.conn c).owned
  loop : ∀ c, (s'.conn c).loop = (s.conn c).loop
  live : ∀ c, (s'.conn c).live = true → (s.conn c).live = true

theorem Keeps.refl (s : Socket) : Keeps s s :=
  ⟨rfl, rfl, rfl, rfl, rfl, rfl, fun _ => rfl, fun _ => rfl, fun _ h => h⟩

theorem Keeps.trans {s s' s'' : Socket} (h : Keeps s s') (h' : Keeps s' s'') : Keeps s s'' where
  id := h'.id.trans h.id
  count := h'.count.trans h.count
  loops := h'.loops.trans h.loops
  now := h'.now.trans h.now
  reconnectTimers := h'.reconnectTimers.trans h.reconnectTimers
  closed := h'.closed.trans h.closed
  owned c := (h'.owned c).trans (h.owned c)
  loop c := (h'.loop c).trans (h.loop c)
  live c hc := h.live c (h'.live c hc)

@[simp] theorem modify_conn_self (s : Socket) (c : ℕ) (f : Conn → Conn) :
    (s.modify c f).conn c = f (s.conn c) :=
  Function.update_self ..

theorem modify_conn_of_ne (s : Socket) {c c' : ℕ} (h : c' ≠ c) (f : Conn → Conn) :
    (s.modify c f).conn c' = s.conn c' :=
  Function.update_of_ne h ..

/-- A change to one connection that leaves it whose it is. -/
theorem keeps_modify (s : Socket) (c : ℕ) {f : Conn → Conn}
    (howned : (f (s.conn c)).owned = (s.conn c).owned)
    (hloop : (f (s.conn c)).loop = (s.conn c).loop)
    (hlive : (f (s.conn c)).live = true → (s.conn c).live = true) : Keeps s (s.modify c f) := by
  have hcases (c' : ℕ) :
      ((s.modify c f).conn c').owned = (s.conn c').owned ∧
        ((s.modify c f).conn c').loop = (s.conn c').loop ∧
          (((s.modify c f).conn c').live = true → (s.conn c').live = true) := by
    by_cases hc : c' = c
    · subst hc
      rw [modify_conn_self]
      exact ⟨howned, hloop, hlive⟩
    · rw [modify_conn_of_ne s hc]
      exact ⟨rfl, rfl, fun h => h⟩
  exact ⟨rfl, rfl, rfl, rfl, rfl, rfl, fun c' => (hcases c').1, fun c' => (hcases c').2.1,
    fun c' => (hcases c').2.2⟩

section Callbacks

variable {p : Platform} {env : Outside}

theorem keeps_write (p : Platform) (s : Socket) (c : ℕ) (frame : Envelope Bytes) :
    Keeps s (s.write p c frame) := by
  unfold write
  split
  · exact .refl s
  · exact keeps_modify s c rfl rfl fun h => h

theorem keeps_writeAll (p : Platform) (s : Socket) (frames : List (ℕ × Envelope Bytes)) :
    Keeps s (s.writeAll p frames) := by
  induction frames generalizing s with
  | nil => exact .refl s
  | cons f rest ih => exact (keeps_write p s f.1 f.2).trans (ih _)

theorem keeps_resetTimeout (s : Socket) (c : ℕ) : Keeps s (s.resetTimeout c) :=
  keeps_modify s c rfl rfl fun h => h

theorem keeps_destroy (s : Socket) (c : ℕ) : Keeps s (s.destroy c) :=
  keeps_modify s c rfl rfl fun h => Bool.noConfusion h

theorem keeps_operate (p : Platform) (env : Outside) (s : Socket) {e : Served.Event ℕ Bytes}
    (he : ∀ forget, e ≠ .close forget) : Keeps s (s.operate p env e) := by
  unfold operate
  split
  · exact .refl s
  · rename_i w hstep
    refine Keeps.trans ?_ (keeps_writeAll p _ _)
    exact ⟨rfl, rfl, rfl, rfl, rfl, Served.closed_step he hstep, fun _ => rfl, fun _ => rfl,
      fun _ h => h⟩

theorem keeps_start (p : Platform) (s : Socket) (c : ℕ) : Keeps s (s.start p c) := by
  refine Keeps.trans (Keeps.trans ?_ (keeps_write p _ c _)) (keeps_resetTimeout _ c)
  exact keeps_modify s c rfl rfl fun h => h

theorem keeps_completeHandshake (p : Platform) (env : Outside) (s : Socket) (c : ℕ)
    (e : Envelope Bytes) : Keeps s (s.completeHandshake p env c e).1 := by
  cases e with
  | hello version identity =>
    rw [completeHandshake]
    split
    · exact keeps_destroy s c
    · split
      · exact keeps_destroy s c
      · exact Keeps.trans (keeps_modify s c rfl rfl fun h => h)
          (keeps_operate p env _ (by simp))
  | heartbeat | data | dataReq | ack => exact keeps_destroy s c

theorem keeps_onFrame (p : Platform) (env : Outside) (s : Socket) (c : ℕ) (envelope : Bytes) :
    Keeps s (s.onFrame p env c envelope).1 := by
  unfold onFrame
  split
  · exact .refl s
  · split
    · exact keeps_operate p env s (by simp)
    · exact keeps_completeHandshake p env s c _

/-- Whatever frames a connection handles. -/
theorem keeps_onFrames (p : Platform) (env : Outside) (fuel : ℕ) (s : Socket) (c : ℕ) :
    Keeps s (onFrames p env fuel s c) := by
  induction fuel generalizing s with
  | zero => exact .refl s
  | succ fuel ih =>
    rw [onFrames]
    split
    · exact .refl s
    · rename_i envelope decoder _
      have hpop : Keeps s (s.modify c fun k => { k with decoder := decoder }) :=
        keeps_modify s c rfl rfl fun h => h
      have hframe := hpop.trans (keeps_onFrame p env _ c envelope)
      simp only
      split
      · exact hframe.trans (ih _)
      · exact hframe

theorem keeps_onData (p : Platform) (env : Outside) (s : Socket) (c : ℕ) (chunk : Bytes) :
    Keeps s (s.onData p env c chunk) := by
  refine Keeps.trans (Keeps.trans (keeps_resetTimeout s c) ?_) (keeps_onFrames p env _ _ c)
  exact keeps_modify _ c rfl rfl fun h => h

theorem keeps_onHeartbeat (p : Platform) (s : Socket) (c : ℕ) : Keeps s (s.onHeartbeat p c) := by
  have hmodify : Keeps s (s.modify c fun k => { k with heartbeatTimer := none }) :=
    keeps_modify s c rfl rfl fun h => h
  unfold onHeartbeat
  simp only
  split
  · exact hmodify.trans (keeps_write p _ c _)
  · exact hmodify

theorem keeps_onTimeout (s : Socket) (c : ℕ) : Keeps s (s.onTimeout c) :=
  Keeps.trans (keeps_modify s c rfl rfl fun h => h)
          (keeps_destroy _ c)

end Callbacks

/-! ### Attempts -/

/-- The connection is an attempt of the `n`-th call of `connect`. -/
def Tries (s : Socket) (c n : ℕ) : Prop :=
  (s.conn c).owned = true ∧ (s.conn c).loop.map Loop.number = some n

/-- The calls of `connect` that have a timer for their next attempt. -/
def waiting (s : Socket) : List ℕ := s.reconnectTimers.map Loop.number

/-- Every call of `connect` has one attempt, but for the one in the `gap`, which has none.

The gap is open only within a callback, between the end of one attempt and the beginning of the
next. In every state that actions lead to there is none. -/
structure Lifecycle (gap : Option ℕ) (s : Socket) : Prop where
  below : ∀ c, (s.conn c).owned = true → c < s.count
  alive : ∀ c, (s.conn c).live = true → (s.conn c).owned = true
  known : ∀ c n, s.Tries c n → n < s.loops
  waiting_known : ∀ n ∈ s.waiting, n < s.loops
  single : ∀ c c' n, s.Tries c n → s.Tries c' n → c = c'
  nodup : s.waiting.Nodup
  apart : ∀ c n, s.Tries c n → n ∉ s.waiting
  trying : s.closed = false → ∀ n < s.loops, gap ≠ some n → (∃ c, s.Tries c n) ∨ n ∈ s.waiting
  gap : ∀ n, gap = some n → n < s.loops ∧ n ∉ s.waiting ∧ ∀ c, ¬ s.Tries c n
  finished : s.closed = true → s.reconnectTimers = [] ∧ ∀ c, (s.conn c).live = false

theorem lifecycle_new (id : Identity) (sendMode : SendMode) (delivery : DeliveryGuarantee) :
    Lifecycle none (new id sendMode delivery) where
  below _ h := Bool.noConfusion h
  alive _ h := Bool.noConfusion h
  known _ _ h := Bool.noConfusion h.1
  waiting_known _ h := absurd h List.not_mem_nil
  single _ _ _ h := Bool.noConfusion h.1
  nodup := List.nodup_nil
  apart _ _ _ := List.not_mem_nil
  trying _ n h := absurd h (Nat.not_lt_zero n)
  gap _ h := absurd h (by simp)
  finished h := Bool.noConfusion h

section Lifecycle

variable {p : Platform} {env : Outside} {s s' : Socket} {gap : Option ℕ}

theorem Keeps.tries_iff (h : Keeps s s') (c n : ℕ) : s'.Tries c n ↔ s.Tries c n := by
  rw [Tries, Tries, h.owned, h.loop]

theorem Keeps.waiting (h : Keeps s s') : s'.waiting = s.waiting := by
  rw [Socket.waiting, Socket.waiting, h.reconnectTimers]

theorem Lifecycle.keeps (h : Lifecycle gap s) (hkeeps : Keeps s s') : Lifecycle gap s' where
  below c hc := hkeeps.count ▸ h.below c (hkeeps.owned c ▸ hc)
  alive c hc := (hkeeps.owned c).trans (h.alive c (hkeeps.live c hc))
  known c n hc := hkeeps.loops ▸ h.known c n ((hkeeps.tries_iff c n).mp hc)
  waiting_known := by
    rw [hkeeps.waiting, hkeeps.loops]
    exact h.waiting_known
  single c c' n hc hc' := h.single c c' n ((hkeeps.tries_iff c n).mp hc)
    ((hkeeps.tries_iff c' n).mp hc')
  nodup := hkeeps.waiting ▸ h.nodup
  apart c n hc := hkeeps.waiting ▸ h.apart c n ((hkeeps.tries_iff c n).mp hc)
  trying := by
    simp only [hkeeps.tries_iff, hkeeps.waiting, hkeeps.loops, hkeeps.closed]
    exact h.trying
  gap := by
    simp only [hkeeps.tries_iff, hkeeps.waiting, hkeeps.loops]
    exact h.gap
  finished := by
    rw [hkeeps.closed, hkeeps.reconnectTimers]
    intro hclosed
    refine ⟨(h.finished hclosed).1, fun c => Bool.eq_false_iff.mpr fun hc => ?_⟩
    have hdead := (h.finished hclosed).2 c
    rw [hkeeps.live c hc] at hdead
    cases hdead

/-- What is over needs no attempts. -/
theorem Lifecycle.of_closed (h : Lifecycle gap s) (hclosed : s.closed = true) :
    Lifecycle none s :=
  { h with
    trying := fun hopen => absurd (hclosed.symm.trans hopen) (by simp)
    gap := fun _ hnone => absurd hnone (by simp) }

/-- The socket with a connection more. -/
def extend (s : Socket) (loop : Option Loop) : Socket :=
  { s with count := s.count + 1 }.modify s.count fun _ => .new loop

theorem extend_conn (s : Socket) (loop : Option Loop) (c : ℕ) :
    (s.extend loop).conn c = if c = s.count then .new loop else s.conn c := by
  split
  · rename_i h
    rw [h]
    exact modify_conn_self ..
  · rename_i h
    exact modify_conn_of_ne _ h _

/-- **A connection more.** It fills the gap, if it is an attempt for it. -/
theorem Lifecycle.extend (h : Lifecycle gap s) (loop : Option Loop)
    (hopen : s.closed = false) (hloop : loop.map Loop.number = gap) :
    Lifecycle none (s.extend loop) := by
  have htries (c n : ℕ) :
      (s.extend loop).Tries c n ↔ (c = s.count ∧ gap = some n) ∨ (c ≠ s.count ∧ s.Tries c n) := by
    rw [Tries, extend_conn]
    split
    · rename_i hc
      simp [hc, Conn.new, hloop]
    · rename_i hc
      simp [hc, Tries]
  have hnew (c n : ℕ) (hc : s.Tries c n) : c ≠ s.count := (h.below c hc.1).ne
  constructor
  · intro c hc
    rw [extend_conn] at hc
    split at hc
    · rename_i heq
      exact heq ▸ Nat.lt_succ_self s.count
    · exact (h.below c hc).trans (Nat.lt_succ_self _)
  · intro c hc
    rw [extend_conn] at hc ⊢
    split
    · rfl
    · rename_i hne
      rw [if_neg hne] at hc
      exact h.alive c hc
  · intro c n hc
    rcases (htries c n).mp hc with ⟨-, hgap⟩ | ⟨-, hc⟩
    · exact (h.gap n hgap).1
    · exact h.known c n hc
  · exact h.waiting_known
  · intro c c' n hc hc'
    rcases (htries c n).mp hc with ⟨hcount, hgap⟩ | ⟨-, hc⟩
    · rcases (htries c' n).mp hc' with ⟨hcount', -⟩ | ⟨-, hc'⟩
      · rw [hcount, hcount']
      · exact absurd hc' ((h.gap n hgap).2.2 c')
    · rcases (htries c' n).mp hc' with ⟨-, hgap⟩ | ⟨-, hc'⟩
      · exact absurd hc ((h.gap n hgap).2.2 c)
      · exact h.single c c' n hc hc'
  · exact h.nodup
  · intro c n hc
    rcases (htries c n).mp hc with ⟨-, hgap⟩ | ⟨-, hc⟩
    · exact (h.gap n hgap).2.1
    · exact h.apart c n hc
  · intro _ n hn _
    by_cases hgap : gap = some n
    · exact .inl ⟨s.count, (htries _ n).mpr (.inl ⟨rfl, hgap⟩)⟩
    · rcases h.trying hopen n hn hgap with ⟨c, hc⟩ | hwaiting
      · exact .inl ⟨c, (htries c n).mpr (.inr ⟨hnew c n hc, hc⟩)⟩
      · exact .inr hwaiting
  · intro n hnone
    cases hnone
  · intro hclosed
    exact absurd (hclosed.symm.trans hopen) (by simp)

/-- **A timer more.** -/
theorem Lifecycle.wait (h : Lifecycle gap s) {loop : Loop} (hopen : s.closed = false)
    (hloop : gap = some loop.number) :
    Lifecycle none { s with reconnectTimers := s.reconnectTimers ++ [loop] } := by
  obtain ⟨hknown, hnew, hidle⟩ := h.gap _ hloop
  have hwaiting : ({ s with reconnectTimers := s.reconnectTimers ++ [loop] } : Socket).waiting =
      s.waiting ++ [loop.number] := by simp [waiting]
  constructor
  · exact h.below
  · exact h.alive
  · exact h.known
  · intro n hn
    rw [hwaiting] at hn
    rcases List.mem_append.mp hn with hn | hn
    · exact h.waiting_known n hn
    · exact List.mem_singleton.mp hn ▸ hknown
  · exact h.single
  · rw [hwaiting]
    exact List.nodup_append_comm.mp (List.nodup_cons.mpr ⟨hnew, h.nodup⟩)
  · intro c n hc
    rw [hwaiting]
    intro hn
    rcases List.mem_append.mp hn with hn | hn
    · exact h.apart c n hc hn
    · exact hidle c (List.mem_singleton.mp hn ▸ hc)
  · intro _ n hn _
    rw [hwaiting]
    by_cases hgap : gap = some n
    · have heq : loop.number = n := Option.some.inj (hloop.symm.trans hgap)
      exact .inr (List.mem_append_right _ (heq ▸ List.mem_cons_self))
    · exact (h.trying hopen n hn hgap).imp_right (List.mem_append_left _)
  · intro n hnone
    cases hnone
  · intro hclosed
    exact absurd (hclosed.symm.trans hopen) (by simp)

theorem keeps_runConnection (p : Platform) (env : Outside) (s : Socket) (loop : Option Loop)
    (prebuffer : Bytes) : Keeps (s.extend loop) (s.runConnection p env loop prebuffer) := by
  have hstart : Keeps (s.extend loop)
      (if loop.any Loop.deferred then s.extend loop else (s.extend loop).start p s.count) := by
    split
    · exact .refl _
    · exact keeps_start p _ _
  unfold runConnection
  simp only
  split
  · exact hstart
  · exact hstart.trans (keeps_onData p env _ _ _)

theorem Lifecycle.retry (h : Lifecycle gap s) {loop : Loop} (hloop : gap = some loop.number) :
    Lifecycle none (s.retry loop) := by
  unfold Socket.retry
  split
  · rename_i hclosed
    exact h.of_closed hclosed
  · rename_i hopen
    exact h.wait (by simpa using hopen) hloop

theorem Lifecycle.connectLoop (h : Lifecycle gap s) {loop : Loop} (refused : Bool)
    (hloop : gap = some loop.number) : Lifecycle none (s.connectLoop p env loop refused) := by
  unfold Socket.connectLoop
  split
  · rename_i hclosed
    exact h.of_closed hclosed
  · rename_i hopen
    split
    · exact h.retry hloop
    · have hextend := h.extend (some loop) (by simpa using hopen) hloop.symm
      exact hextend.keeps (keeps_runConnection p env s (some loop) [])

/-! ### The end of a connection -/

/-- The socket without a connection. -/
def drop (s : Socket) (c : ℕ) : Socket :=
  s.modify c fun k =>
    { k with owned := false, live := false, heartbeatTimer := none, timeoutTimer := none }

theorem keeps_teardown (p : Platform) (env : Outside) (s : Socket) (c : ℕ) :
    Keeps (s.drop c) (s.teardown p env c) :=
  keeps_operate p env _ (by simp)

/-- A connection less leaves a gap, if it was for a call of `connect`. -/
theorem Lifecycle.drop (h : Lifecycle none s) {c : ℕ} (hc : (s.conn c).owned = true) :
    Lifecycle ((s.conn c).loop.map Loop.number) (s.drop c) := by
  have hconn (c' : ℕ) (hc' : c' ≠ c) : (s.drop c).conn c' = s.conn c' := modify_conn_of_ne s hc' _
  have hgone : ((s.drop c).conn c).owned = false := by rw [Socket.drop, modify_conn_self]
  have hdead : ((s.drop c).conn c).live = false := by rw [Socket.drop, modify_conn_self]
  have htries (c' n : ℕ) : (s.drop c).Tries c' n ↔ c' ≠ c ∧ s.Tries c' n := by
    by_cases heq : c' = c
    · subst heq
      simp [Tries, hgone]
    · rw [Tries, hconn c' heq]
      exact ⟨fun htry => ⟨heq, htry⟩, fun htry => htry.2⟩
  constructor
  · intro c' hc'
    by_cases heq : c' = c
    · exact heq ▸ h.below c hc
    · exact h.below c' (hconn c' heq ▸ hc')
  · intro c' hc'
    by_cases heq : c' = c
    · subst heq
      rw [hdead] at hc'
      cases hc'
    · rw [hconn c' heq] at hc' ⊢
      exact h.alive c' hc'
  · exact fun c' n hc' => h.known c' n ((htries c' n).mp hc').2
  · exact h.waiting_known
  · exact fun c' c'' n hc' hc'' =>
      h.single c' c'' n ((htries c' n).mp hc').2 ((htries c'' n).mp hc'').2
  · exact h.nodup
  · exact fun c' n hc' => h.apart c' n ((htries c' n).mp hc').2
  · intro hopen n hn hgap
    refine (h.trying hopen n hn (by simp)).imp_left ?_
    rintro ⟨c', hc'⟩
    refine ⟨c', (htries c' n).mpr ⟨?_, hc'⟩⟩
    rintro rfl
    exact hgap hc'.2
  · intro n hn
    have htry : s.Tries c n := ⟨hc, hn⟩
    refine ⟨h.known c n htry, h.apart c n htry, fun c' hc' => ?_⟩
    obtain ⟨hne, hc'⟩ := (htries c' n).mp hc'
    exact hne (h.single c' c n hc' htry)
  · intro hclosed
    refine ⟨(h.finished hclosed).1, fun c' => ?_⟩
    by_cases heq : c' = c
    · exact heq ▸ hdead
    · rw [hconn c' heq]
      exact (h.finished hclosed).2 c'

/-- Writing does not look at the timers of the retries. -/
theorem writeAll_reconnectTimers (p : Platform) (s : Socket) (timers : List Loop)
    (frames : List (ℕ × Envelope Bytes)) :
    ({ s with reconnectTimers := timers } : Socket).writeAll p frames =
      { s.writeAll p frames with reconnectTimers := timers } := by
  induction frames generalizing s with
  | nil => rfl
  | cons f rest ih =>
    have hwrite : ({ s with reconnectTimers := timers } : Socket).write p f.1 f.2 =
        { s.write p f.1 f.2 with reconnectTimers := timers } := by
      unfold write
      split <;> rfl
    show (({ s with reconnectTimers := timers } : Socket).write p f.1 f.2).writeAll p rest = _
    rw [hwrite, ih]
    rfl

/-- Nor does the end of a connection. -/
theorem teardown_reconnectTimers (p : Platform) (env : Outside) (s : Socket) (timers : List Loop)
    (c : ℕ) : ({ s with reconnectTimers := timers } : Socket).teardown p env c =
      { s.teardown p env c with reconnectTimers := timers } :=
  writeAll_reconnectTimers p
    { s.drop c with
      served := s.served.apply p.port env (.unregister c)
      inbox := ((s.served.apply p.port env (.unregister c)).inbox.drop
        s.served.inbox.length).foldl Inbox.push s.inbox
      events := s.events ++ [.unregister c] } timers _

/-- In whichever order the two listeners run. -/
theorem retry_teardown (p : Platform) (env : Outside) (s : Socket) (c : ℕ) (loop : Loop) :
    (s.retry loop).teardown p env c = (s.teardown p env c).retry loop := by
  have hkeeps := keeps_teardown p env s c
  have hclosed : (s.teardown p env c).closed = s.closed := hkeeps.closed
  have htimers : (s.teardown p env c).reconnectTimers = s.reconnectTimers := hkeeps.reconnectTimers
  rw [retry, retry, hclosed, htimers]
  split
  · rfl
  · exact teardown_reconnectTimers p env s _ c

theorem Lifecycle.gone (h : Lifecycle none s) {c : ℕ} (hc : (s.conn c).owned = true) :
    Lifecycle none (s.gone p env c) := by
  have hteardown := (h.drop hc).keeps (keeps_teardown p env s c)
  unfold Socket.gone
  split
  · rename_i hloop
    rwa [hloop] at hteardown
  · rename_i loop hloop
    rw [retry_teardown]
    exact hteardown.retry (by rw [hloop]; rfl)
  · rename_i loop hloop
    exact hteardown.retry (by rw [hloop]; rfl)

/-! ### Closing -/

/-- The socket whose broker was told to close, before the frames are written, of which there are
none. -/
def shut (p : Platform) (env : Outside) (s : Socket) : Socket :=
  { s with
    served := s.served.apply p.port env (.close true)
    inbox := ((s.served.apply p.port env (.close true)).inbox.drop
      s.served.inbox.length).foldl Inbox.push s.inbox
    events := s.events ++ [.close true] }

theorem keeps_operate_close (p : Platform) (env : Outside) (s : Socket) :
    Keeps (s.shut p env) (s.operate p env (.close true)) :=
  keeps_writeAll p _ _

theorem Lifecycle.close (h : Lifecycle none s) : Lifecycle none (s.close p env) := by
  unfold Socket.close
  split
  · exact h
  · have hkeeps := keeps_operate_close p env s
    simp only
    generalize s.operate p env (.close true) = t at hkeeps
    have howned (c : ℕ) : (if (t.conn c).owned then { t.conn c with live := false }
        else t.conn c).owned = (s.conn c).owned := by
      refine Eq.trans ?_ (hkeeps.owned c)
      split <;> rfl
    have hloop (c : ℕ) : (if (t.conn c).owned then { t.conn c with live := false }
        else t.conn c).loop = (s.conn c).loop := by
      refine Eq.trans ?_ (hkeeps.loop c)
      split <;> rfl
    have htries (c n : ℕ) : ({ t with
          reconnectTimers := []
          conn := fun c => if (t.conn c).owned then { t.conn c with live := false } else t.conn c
          inbox := t.inbox.close } : Socket).Tries c n ↔ s.Tries c n := by
      rw [Tries, Tries, howned, hloop]
    have hdead (c : ℕ) : (if (t.conn c).owned then { t.conn c with live := false }
        else t.conn c).live = false := by
      split
      · rfl
      · rename_i hnone
        refine Bool.eq_false_iff.mpr fun hlive => hnone ?_
        exact (hkeeps.owned c).trans (h.alive c (hkeeps.live c hlive))
    constructor
    · intro c hc
      exact hkeeps.count ▸ h.below c ((howned c).symm.trans hc)
    · intro c hc
      exact absurd (hc.symm.trans (hdead c)) (by simp)
    · exact fun c n hc => hkeeps.loops ▸ h.known c n ((htries c n).mp hc)
    · exact fun n hn => absurd hn List.not_mem_nil
    · exact fun c c' n hc hc' => h.single c c' n ((htries c n).mp hc) ((htries c' n).mp hc')
    · exact List.nodup_nil
    · exact fun _ _ _ => List.not_mem_nil
    · exact fun hopen => absurd (hkeeps.closed.symm.trans hopen) (by simp [shut, closed]; rfl)
    · exact fun n hn => absurd hn (by simp)
    · exact fun _ => ⟨rfl, hdead⟩

/-! ### Whole runs -/

/-- A call of `connect` more, for which there is no attempt yet. -/
theorem Lifecycle.called (h : Lifecycle none s) :
    Lifecycle (some s.loops) { s with loops := s.loops + 1 } := by
  constructor
  · exact h.below
  · exact h.alive
  · exact fun c n hc => (h.known c n hc).trans (Nat.lt_succ_self _)
  · exact fun n hn => (h.waiting_known n hn).trans (Nat.lt_succ_self _)
  · exact h.single
  · exact h.nodup
  · exact h.apart
  · intro hopen n hn hne
    have hlt : n < s.loops := by
      have hle : n ≤ s.loops := Nat.le_of_lt_succ hn
      exact lt_of_le_of_ne hle fun heq => hne (congrArg some heq.symm)
    exact h.trying hopen n hlt (by simp)
  · intro n hn
    obtain rfl : s.loops = n := Option.some.inj hn
    refine ⟨Nat.lt_succ_self _, fun hmem => ?_, fun c hc => ?_⟩
    · exact (h.waiting_known _ hmem).ne rfl
    · exact (h.known c _ hc).ne rfl
  · exact h.finished

/-- A timer that fires leaves a gap for its call. -/
theorem Lifecycle.fired (h : Lifecycle none s) {i : ℕ} {loop : Loop}
    (hloop : s.reconnectTimers[i]? = some loop) :
    Lifecycle (some loop.number)
      { s with reconnectTimers := s.reconnectTimers.eraseIdx i } := by
  have hopen : s.closed = false := by
    refine Bool.eq_false_iff.mpr fun hclosed => ?_
    rw [(h.finished hclosed).1] at hloop
    cases hloop
  obtain ⟨hi, hget⟩ := List.getElem?_eq_some_iff.mp hloop
  have hperm : (loop :: s.reconnectTimers.eraseIdx i).Perm s.reconnectTimers := by
    rw [← hget]
    exact List.getElem_cons_eraseIdx_perm hi
  have hwaiting := hperm.map Loop.number
  obtain ⟨hout, hnodup⟩ := List.nodup_cons.mp (hwaiting.nodup_iff.mpr h.nodup)
  have hmem (n : ℕ) : n ∈ s.waiting ↔
      n = loop.number ∨ n ∈ (s.reconnectTimers.eraseIdx i).map Loop.number := by
    rw [waiting, ← hwaiting.mem_iff, List.map_cons, List.mem_cons]
  constructor
  · exact h.below
  · exact h.alive
  · exact h.known
  · exact fun n hn => h.waiting_known n ((hmem n).mpr (.inr hn))
  · exact h.single
  · exact hnodup
  · exact fun c n hc hn => h.apart c n hc ((hmem n).mpr (.inr hn))
  · intro _ n hn hne
    refine (h.trying hopen n hn (by simp)).imp_right fun hin => ?_
    exact ((hmem n).mp hin).resolve_left fun heq => hne (congrArg some heq.symm)
  · intro n hn
    obtain rfl : loop.number = n := Option.some.inj hn
    have hin : loop.number ∈ s.waiting := (hmem _).mpr (.inl rfl)
    exact ⟨h.waiting_known _ hin, hout, fun c hc => h.apart c _ hc hin⟩
  · exact fun hclosed => absurd (hclosed.symm.trans hopen) (by simp)

/-- An accepted connection is an attempt for no call. -/
theorem Lifecycle.accepted (h : Lifecycle none s) {prebuffer : Option Bytes}
    (hstep : s.step p env (.accepted prebuffer) = some s') : Lifecycle none s' := by
  cases prebuffer with
  | none =>
    cases hstep
    exact h
  | some prebuffer =>
    rw [Socket.step] at hstep
    split at hstep
    · cases hstep
    · cases hstep
      split
      · exact h
      · rename_i hopen
        have hextend := h.extend none (by simpa using hopen) rfl
        exact hextend.keeps (keeps_runConnection p env s none prebuffer)

/-- Every action keeps to one attempt for each call. -/
theorem Lifecycle.step (h : Lifecycle none s) {a : Action} (hstep : s.step p env a = some s') :
    Lifecycle none s' := by
  cases a with
  | connect deferred refused =>
    cases hstep
    exact h.called.connectLoop refused rfl
  | send target data =>
    cases hstep
    exact h.keeps (keeps_operate p env s (by simp))
  | take =>
    cases hstep
    exact h.keeps ⟨rfl, rfl, rfl, rfl, rfl, rfl, fun _ => rfl, fun _ => rfl, fun _ hc => hc⟩
  | close =>
    cases hstep
    exact h.close
  | reconnect i refused =>
    obtain ⟨loop, hloop, rfl⟩ := Option.map_eq_some_iff.mp hstep
    exact (h.fired hloop).connectLoop refused rfl
  | accepted prebuffer => exact h.accepted hstep
  | opened c =>
    rw [Socket.step] at hstep
    split at hstep
    · cases hstep
      exact h.keeps (keeps_start p s c)
    · cases hstep
  | data c chunk =>
    rw [Socket.step] at hstep
    split at hstep
    · cases hstep
      exact h.keeps (keeps_onData p env s c chunk)
    · cases hstep
  | gone c =>
    rw [Socket.step] at hstep
    split at hstep
    · rename_i hc
      cases hstep
      exact h.gone hc
    · cases hstep
  | heartbeat c =>
    rw [Socket.step] at hstep
    split at hstep
    · cases hstep
      exact h.keeps (keeps_onHeartbeat p s c)
    · cases hstep
  | timeout c =>
    rw [Socket.step] at hstep
    split at hstep
    · cases hstep
      exact h.keeps (keeps_onTimeout s c)
    · cases hstep
  | resend key =>
    cases hstep
    exact h.keeps (keeps_operate p env s (by simp))
  | tick ms =>
    cases hstep
    exact ⟨h.below, h.alive, h.known, h.waiting_known, h.single, h.nodup, h.apart, h.trying, h.gap,
      h.finished⟩

theorem lifecycle_of_run (h : Lifecycle none s) {as : List Action}
    (hrun : (machine p env).run s as = some s') : Lifecycle none s' :=
  Machine.invariant (fun _ _ _ h hstep => h.step hstep) hrun h

/-- **One attempt for each call of `connect`**: before `close`, a connection or a timer, and only
one of them. -/
theorem one_attempt {id : Identity} {sendMode : SendMode} {delivery : DeliveryGuarantee}
    {as : List Action} (hrun : (machine p env).run (new id sendMode delivery) as = some s)
    (hopen : s.closed = false) {n : ℕ} (hn : n < s.loops) :
    ((∃! c, s.Tries c n) ∧ n ∉ s.waiting) ∨ ((∀ c, ¬ s.Tries c n) ∧ s.waiting.count n = 1) := by
  have h := lifecycle_of_run (lifecycle_new id sendMode delivery) hrun
  rcases h.trying hopen n hn (by simp) with ⟨c, hc⟩ | hwaiting
  · exact .inl ⟨⟨c, hc, fun c' hc' => h.single c' c n hc' hc⟩, h.apart c n hc⟩
  · exact .inr ⟨fun c hc => h.apart c n hc hwaiting,
      List.count_eq_one_of_mem h.nodup hwaiting⟩

end Lifecycle

/-- A socket that connects twice. The first connection is lost; the second one reaches a peer, which
sends `[7]` in two pieces, and wants an ACK for `[8]`. -/
def visit (p : Platform) : Option Socket :=
  let me : Identity := List.Vector.replicate 16 1
  let peer : Identity := List.Vector.replicate 16 2
  (machine p Served.tellingIds).run (new me .roundRobin .atMostOnce)
    [.connect false false, .send none [5], .connect true false, .gone 0, .opened 1,
      .data 1 (Protocol.hello peer ++ [0, 0, 0, 2]), .tick 300, .data 1 [3, 7],
      .data 1 (Protocol.dataReq (Served.tellingIds.msgId 9) [8]), .take]

theorem one_attempt_visit :
    ∃ s, visit .node = some s ∧ s.waiting = [0] ∧
      (((∃! c, s.Tries c 0) ∧ 0 ∉ s.waiting) ∨
        ((∀ c, ¬ s.Tries c 0) ∧ s.waiting.count 0 = 1)) := by
  refine ⟨_, rfl, rfl, ?_⟩
  exact one_attempt (show visit .node = some _ from rfl) rfl (by decide)

end Socket

end JsLib

end Aiomsg
