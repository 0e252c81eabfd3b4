import Aiomsg.Lib.Machine
import Aiomsg.ResendTimers.Basic
import Mathlib.Data.List.Basic

/-!
# The timer thread by itself

`timer_loop` of `rust-lib-sync/src/broker.rs`, with any messages, any readings of a clock that does
not go back, and any timeout. A turn of its loop is two steps. First it waits, for which it reads
the clock if there is a deadline, and handles the message that has come, if one has; for an `Arm` it
reads the clock again. Then it reads the clock once more and fires what is due.

The queue is sorted only because every deadline is as far ahead of its reading as every other.
A `Cancel` takes the id out of `armed` and leaves the deadline where it is. So what `armed` says of
an id is what the last thing that happened to it says, and that is how the account below puts it:
an id is `Live` if it was armed and nothing has happened to it since.

A `Cancel` that comes before its `Arm` therefore cancels nothing.

## Scope

The thread is alone here. What it is sent is any list, in any order, so also a `Cancel` in front of
its `Arm`, an id that is armed twice, and one that is armed again after it has fired. Clock readings
are the thread's own, and it makes one for each purpose that the source makes one for.

## Main definitions

* `fireDue`, `TimerThread.step` — the loop
* `Live`, `Account` — what the locals say about the past

## Main results

* `timer_loop_fires` — what fires, when, and that nothing that is due is left
* `steps_of_fireDue` — the loop fires as the two-thread model of `ResendTimers.Basic` does
-/

namespace Aiomsg

namespace ResendTimers

/-- What `timer_loop` has done. The log of a thread is all that statements about it may look at. -/
inductive Record where
  | arm (msgId : MsgId) (time : ℕ)
  | cancel (msgId : MsgId)
  /-- `Command::ResendTimeout` is sent. -/
  | fire (msgId : MsgId) (now : ℕ)
deriving DecidableEq

namespace Record

def msgId : Record → MsgId
  | arm msgId _ | cancel msgId | fire msgId _ => msgId

def armed : Record → Option MsgId
  | arm msgId _ => some msgId
  | cancel _ | fire _ _ => none

def fired : Record → Option MsgId
  | fire msgId _ => some msgId
  | arm _ _ | cancel _ => none

/-- The entry that an `Arm` puts into the queue. -/
def deadline (timeout : ℕ) : Record → Option (ℕ × MsgId)
  | arm msgId time => some (time + timeout, msgId)
  | cancel _ | fire _ _ => none

end Record

/-- Handle a message. -/
def Timer.handle (timeout : ℕ) (t : Timer) (now : ℕ) : TimerMsg → Timer
  | .arm msgId =>
    { deadlines := t.deadlines ++ [(now + timeout, msgId)]
      armed := insert msgId t.armed
      phase := .handled }
  | .cancel msgId => { t with armed := t.armed.erase msgId, phase := .handled }

theorem Timer.receive_eq (t : Timer) (now : ℕ) (msg : TimerMsg) :
    t.receive now msg = t.handle resendTimeout now msg := by
  cases msg <;> rfl

/-- Fire every deadline now due, skipping ids that were cancelled. `sends` tells whether there is
somebody to send to; if not, the thread ends. -/
def fireDue (now : ℕ) : (ℕ → Bool) → List (ℕ × MsgId) → Finset MsgId →
    List MsgId × Option (List (ℕ × MsgId) × Finset MsgId)
  | _, [], armed => ([], some ([], armed))
  | sends, (deadline, msgId) :: rest, armed =>
    if now < deadline then ([], some ((deadline, msgId) :: rest, armed))
    else if msgId ∈ armed then
      if sends 0 then
        let r := fireDue now (fun k => sends (k + 1)) rest (armed.erase msgId)
        (msgId :: r.1, r.2)
      else ([], none)
    else fireDue now sends rest armed

structure TimerThread where
  /-- The locals, as long as the thread runs. -/
  timer : Option Timer
  /-- The last reading of the clock. -/
  clock : ℕ
  log : List Record

/-- A step of the loop. `waitAt` and `now` are readings of the clock. -/
inductive Turn where
  | receive (waitAt : ℕ) (msg : TimerMsg) (now : ℕ)
  | timeout (waitAt : ℕ)
  /-- `Shutdown`, or there is nobody left to send anything. -/
  | stop
  | fire (now : ℕ) (sends : ℕ → Bool)

def TimerMsg.record (now : ℕ) : TimerMsg → Record
  | arm msgId => .arm msgId now
  | cancel msgId => .cancel msgId

/-- The id that is armed in a step. -/
def Turn.armed : Turn → Option MsgId
  | receive _ (.arm msgId) _ => some msgId
  | receive _ (.cancel _) _ | timeout _ | stop | fire _ _ => none

/-- The last reading before a message is handled. Without a deadline there is none. -/
def Timer.waited (t : Timer) (clock waitAt : ℕ) : ℕ := if t.deadlines.isEmpty then clock else waitAt

/-- The last reading when a message has been handled. -/
def TimerMsg.read (waited now : ℕ) : TimerMsg → ℕ
  | arm _ => now
  | cancel _ => waited

namespace TimerThread

def start (clock : ℕ) : TimerThread := ⟨some ⟨[], ∅, .waiting⟩, clock, []⟩

def step (timeout : ℕ) (s : TimerThread) (turn : Turn) : Option TimerThread :=
  s.timer.bind fun t =>
    match t.phase, turn with
    | .waiting, .receive waitAt msg now =>
      if s.clock ≤ t.waited s.clock waitAt ∧
          t.waited s.clock waitAt ≤ msg.read (t.waited s.clock waitAt) now then
        some ⟨some (t.handle timeout now msg), msg.read (t.waited s.clock waitAt) now,
          s.log ++ [msg.record now]⟩
      else none
    | .waiting, .timeout waitAt =>
      if t.deadlines ≠ [] ∧ s.clock ≤ waitAt then
        some ⟨some { t with phase := .handled }, waitAt, s.log⟩
      else none
    | .waiting, .stop => some ⟨none, s.clock, s.log⟩
    | .handled, .fire now sends =>
      if s.clock ≤ now then
        let r := fireDue now sends t.deadlines t.armed
        some ⟨r.2.map fun x => ⟨x.1, x.2, .waiting⟩, now, s.log ++ r.1.map fun m => .fire m now⟩
      else none
    | _, _ => none

end TimerThread

/-- `timer_loop`. -/
def timerLoop (timeout : ℕ) : Machine TimerThread Turn where
  step := TimerThread.step timeout

/-! ### What a log says about an id -/

/-- The id was armed at this time, and nothing has happened to it since. -/
def Live (log : List Record) (msgId : MsgId) (time : ℕ) : Prop :=
  ∃ p q, log = p ++ .arm msgId time :: q ∧ ∀ r ∈ q, r.msgId ≠ msgId

section Log

variable {log pre post : List Record} {r x : Record} {msgId : MsgId} {time timeout now : ℕ}

/-- Where an entry stands in a list with one more entry. -/
theorem split_concat (h : log ++ [r] = pre ++ x :: post) :
    post = [] ∧ log = pre ∧ r = x ∨ ∃ post', post = post' ++ [r] ∧ log = pre ++ x :: post' := by
  obtain ⟨left, hpre, hleft⟩ | ⟨right, hlog, hright⟩ := List.append_eq_append_iff.mp h
  · cases left with
    | nil =>
      obtain ⟨hr, hpost⟩ := List.cons.inj hleft
      exact .inl ⟨hpost.symm, by rw [hpre, List.append_nil], hr⟩
    | cons => simp at hleft
  · cases right with
    | nil =>
      obtain ⟨hx, hpost⟩ := List.cons.inj hright
      exact .inl ⟨hpost, by rw [hlog, List.append_nil], hx.symm⟩
    | cons y post' =>
      obtain ⟨rfl, hpost⟩ := List.cons.inj hright
      exact .inr ⟨post', hpost, hlog⟩

theorem live_concat : Live (log ++ [r]) msgId time ↔
    r = .arm msgId time ∨ r.msgId ≠ msgId ∧ Live log msgId time := by
  constructor
  · rintro ⟨p, q, hsplit, hq⟩
    obtain ⟨-, -, hr⟩ | ⟨q', rfl, hlog⟩ := split_concat hsplit
    · exact .inl hr
    · refine .inr ⟨hq r (by simp), p, q', hlog, fun x hx => hq x ?_⟩
      exact List.mem_append_left _ hx
  · rintro (rfl | ⟨hr, p, q, rfl, hq⟩)
    · exact ⟨log, [], rfl, by simp⟩
    · refine ⟨p, q ++ [r], by simp, fun x hx => ?_⟩
      obtain hx | hx := List.mem_append.mp hx
      · exact hq x hx
      · rw [List.mem_singleton.mp hx]
        exact hr

theorem not_live_nil : ¬ Live [] msgId time := by
  rintro ⟨p, q, h, -⟩
  exact absurd h.symm (by simp)

end Log

/-- What the queue and the set say about what has happened so far. -/
structure Account (timeout : ℕ) (deadlines : List (ℕ × MsgId)) (armed : Finset MsgId)
    (log : List Record) : Prop where
  armed_iff : ∀ msgId, msgId ∈ armed ↔ ∃ time, Live log msgId time
  pending : ∀ msgId time, Live log msgId time → (time + timeout, msgId) ∈ deadlines
  /-- The entries leave the queue in the order in which they came, with or without firing. -/
  queued : ∃ popped, log.filterMap (Record.deadline timeout) = popped ++ deadlines ∧
    (log.filterMap Record.fired).Sublist (popped.map Prod.snd)
  fired : ∀ pre msgId now post, log = pre ++ .fire msgId now :: post →
    (∃ time, Live pre msgId time) ∧ ∃ time, .arm msgId time ∈ pre ∧ time + timeout ≤ now

namespace Account

variable {timeout now deadline : ℕ} {deadlines rest : List (ℕ × MsgId)} {armed : Finset MsgId}
  {log : List Record} {msgId : MsgId}

theorem nil : Account timeout [] ∅ [] where
  armed_iff msgId := iff_of_false (Finset.notMem_empty _) fun ⟨_, h⟩ => not_live_nil h
  pending _ _ h := absurd h not_live_nil
  queued := ⟨[], rfl, .slnil⟩
  fired pre _ _ _ h := absurd h.symm (by simp)

/-- What a queued deadline is the deadline of. -/
theorem exists_arm (h : Account timeout deadlines armed log)
    (hmem : (deadline, msgId) ∈ deadlines) :
    ∃ time, .arm msgId time ∈ log ∧ time + timeout = deadline := by
  obtain ⟨popped, hqueued, -⟩ := h.queued
  have hlog : (deadline, msgId) ∈ log.filterMap (Record.deadline timeout) := by
    rw [hqueued]
    exact List.mem_append_right _ hmem
  obtain ⟨r, hr, heq⟩ := List.mem_filterMap.mp hlog
  cases r with
  | arm msgId' time =>
    obtain ⟨rfl, rfl⟩ := Prod.mk.inj (Option.some.inj heq)
    exact ⟨time, hr, rfl⟩
  | cancel | fire => cases heq

theorem armed_eq (timeout : ℕ) (log : List Record) :
    log.filterMap Record.armed = (log.filterMap (Record.deadline timeout)).map Prod.snd := by
  rw [List.map_filterMap]
  congr 1
  funext r
  cases r <;> rfl

/-- Ids fire in the order in which they were armed. -/
theorem order (h : Account timeout deadlines armed log) :
    (log.filterMap Record.fired).Sublist (log.filterMap Record.armed) := by
  obtain ⟨popped, hqueued, hfired⟩ := h.queued
  rw [armed_eq timeout, hqueued, List.map_append]
  exact hfired.trans (List.sublist_append_left _ _)

theorem fired_concat (h : Account timeout deadlines armed log) {r : Record}
    (hr : ∀ msgId now, r = .fire msgId now →
      (∃ time, Live log msgId time) ∧ ∃ time, .arm msgId time ∈ log ∧ time + timeout ≤ now) :
    ∀ pre msgId now post, log ++ [r] = pre ++ .fire msgId now :: post →
      (∃ time, Live pre msgId time) ∧ ∃ time, .arm msgId time ∈ pre ∧ time + timeout ≤ now := by
  intro pre msgId now post hsplit
  obtain ⟨-, rfl, hfire⟩ | ⟨post', -, hlog⟩ := split_concat hsplit
  · exact hr msgId now hfire
  · exact h.fired pre msgId now post' hlog

/-- What happens may take entries off the front of the queue, and fires no others. -/
theorem queued_concat (h : Account timeout deadlines armed log) {r : Record}
    {deadlines' : List (ℕ × MsgId)} (front : List (ℕ × MsgId))
    (hdeadlines : deadlines ++ (r.deadline timeout).toList = front ++ deadlines')
    (hfires : r.fired.toList.Sublist (front.map Prod.snd)) :
    ∃ popped, (log ++ [r]).filterMap (Record.deadline timeout) = popped ++ deadlines' ∧
      ((log ++ [r]).filterMap Record.fired).Sublist (popped.map Prod.snd) := by
  obtain ⟨popped, hqueued, hfired⟩ := h.queued
  have hone : ∀ {α : Type} (f : Record → Option α), [r].filterMap f = (f r).toList := by
    intro α f
    cases hf : f r <;> simp [hf]
  refine ⟨popped ++ front, ?_, ?_⟩
  · rw [List.filterMap_append, hqueued, hone, List.append_assoc, List.append_assoc, hdeadlines]
  · rw [List.filterMap_append, hone, List.map_append]
    exact hfired.append hfires

theorem arm (h : Account timeout deadlines armed log) (msgId : MsgId) (time : ℕ) :
    Account timeout (deadlines ++ [(time + timeout, msgId)]) (insert msgId armed)
      (log ++ [.arm msgId time]) where
  armed_iff := by
    intro msgId'
    rw [Finset.mem_insert, h.armed_iff]
    constructor
    · rintro (rfl | ⟨time', hlive⟩)
      · exact ⟨time, live_concat.mpr (.inl rfl)⟩
      · by_cases hid : msgId = msgId'
        · exact ⟨time, live_concat.mpr (.inl (hid ▸ rfl))⟩
        · exact ⟨time', live_concat.mpr (.inr ⟨hid, hlive⟩)⟩
    · rintro ⟨time', hlive⟩
      obtain heq | ⟨-, hlive⟩ := live_concat.mp hlive
      · cases heq
        exact .inl rfl
      · exact .inr ⟨time', hlive⟩
  pending := by
    intro msgId' time' hlive
    obtain heq | ⟨-, hlive⟩ := live_concat.mp hlive
    · cases heq
      exact List.mem_append_right _ (List.mem_singleton_self _)
    · exact List.mem_append_left _ (h.pending _ _ hlive)
  queued := h.queued_concat [] rfl .slnil
  fired := h.fired_concat (by rintro _ _ ⟨⟩)

theorem armed_iff_erase (h : Account timeout deadlines armed log) (r : Record)
    (hr : ∀ time, r ≠ .arm r.msgId time) (msgId : MsgId) :
    msgId ∈ armed.erase r.msgId ↔ ∃ time, Live (log ++ [r]) msgId time := by
  rw [Finset.mem_erase, h.armed_iff]
  constructor
  · rintro ⟨hid, time, hlive⟩
    exact ⟨time, live_concat.mpr (.inr ⟨hid.symm, hlive⟩)⟩
  · rintro ⟨time, hlive⟩
    obtain rfl | ⟨hid, hlive⟩ := live_concat.mp hlive
    · exact absurd rfl (hr time)
    · exact ⟨hid.symm, time, hlive⟩

/-- What was live before is not the id to which something happens, and is still queued. -/
theorem pending_concat (h : Account timeout deadlines armed log) {r : Record}
    (hr : ∀ time, r ≠ .arm r.msgId time) {msgId : MsgId} {time : ℕ}
    (hlive : Live (log ++ [r]) msgId time) :
    r.msgId ≠ msgId ∧ (time + timeout, msgId) ∈ deadlines := by
  obtain rfl | ⟨hid, hlive⟩ := live_concat.mp hlive
  · exact absurd rfl (hr time)
  · exact ⟨hid, h.pending _ _ hlive⟩

theorem cancel (h : Account timeout deadlines armed log) (msgId : MsgId) :
    Account timeout deadlines (armed.erase msgId) (log ++ [.cancel msgId]) where
  armed_iff := h.armed_iff_erase (.cancel msgId) (by rintro _ ⟨⟩)
  pending := by
    intro msgId' time hlive
    exact (h.pending_concat (by rintro _ ⟨⟩) hlive).2
  queued := h.queued_concat [] (List.append_nil _) .slnil
  fired := h.fired_concat (by rintro _ _ ⟨⟩)

/-- The front of the queue fires. -/
theorem fire (h : Account timeout ((deadline, msgId) :: rest) armed log) (hmem : msgId ∈ armed)
    (hdue : deadline ≤ now) :
    Account timeout rest (armed.erase msgId) (log ++ [.fire msgId now]) where
  armed_iff := h.armed_iff_erase (.fire msgId now) (by rintro _ ⟨⟩)
  pending := by
    intro msgId' time hlive
    obtain ⟨hid, hmem⟩ := h.pending_concat (by rintro _ ⟨⟩) hlive
    obtain heq | hmem := List.mem_cons.mp hmem
    · exact absurd (congrArg Prod.snd heq).symm hid
    · exact hmem
  queued := h.queued_concat [(deadline, msgId)] (List.append_nil _) (.refl _)
  fired := by
    refine h.fired_concat ?_
    rintro msgId' now' ⟨⟩
    obtain ⟨time, harm, htime⟩ := h.exists_arm List.mem_cons_self
    exact ⟨(h.armed_iff msgId).mp hmem, time, harm, htime ▸ hdue⟩

/-- The front of the queue is a tombstone. -/
theorem skip (h : Account timeout ((deadline, msgId) :: rest) armed log) (hmem : msgId ∉ armed) :
    Account timeout rest armed log where
  armed_iff := h.armed_iff
  pending := by
    intro msgId' time hlive
    obtain heq | hrest := List.mem_cons.mp (h.pending _ _ hlive)
    · obtain rfl : msgId' = msgId := congrArg Prod.snd heq
      exact absurd ((h.armed_iff _).mpr ⟨time, hlive⟩) hmem
    · exact hrest
  queued := by
    obtain ⟨popped, hqueued, hfired⟩ := h.queued
    refine ⟨popped ++ [(deadline, msgId)], ?_, ?_⟩
    · rw [hqueued, List.append_assoc]
      rfl
    · rw [List.map_append]
      exact hfired.trans (List.sublist_append_left _ _)
  fired := h.fired

/-- The loop that fires keeps the account. If it comes to its end, what is left is not due. -/
theorem fires_due (h : Account timeout deadlines armed log)
    (hsorted : deadlines.Pairwise fun x y => x.1 ≤ y.1) (now : ℕ) (sends : ℕ → Bool) :
    ∃ deadlines' armed', deadlines' <:+ deadlines ∧
      Account timeout deadlines' armed'
        (log ++ (fireDue now sends deadlines armed).1.map fun msgId => .fire msgId now) ∧
      ∀ x ∈ (fireDue now sends deadlines armed).2,
        x = (deadlines', armed') ∧ ∀ e ∈ deadlines', now < e.1 := by
  induction deadlines generalizing sends armed log with
  | nil =>
    refine ⟨[], armed, List.suffix_rfl, ?_, ?_⟩
    · simpa [fireDue] using h
    · simp [fireDue]
  | cons e rest ih =>
    obtain ⟨deadline, msgId⟩ := e
    obtain ⟨hfirst, hrest⟩ := List.pairwise_cons.mp hsorted
    rw [fireDue]
    split
    case isTrue hlater =>
      refine ⟨(deadline, msgId) :: rest, armed, List.suffix_rfl, by simpa using h, ?_⟩
      rintro x ⟨⟩
      refine ⟨rfl, fun e he => ?_⟩
      obtain rfl | he := List.mem_cons.mp he
      · exact hlater
      · exact lt_of_lt_of_le hlater (hfirst e he)
    case isFalse hdue =>
      split
      case isTrue hmem =>
        split
        case isTrue hsend =>
          obtain ⟨deadlines', armed', hsuffix, haccount, hleft⟩ :=
            ih (h.fire hmem (Nat.le_of_not_lt hdue)) hrest fun k => sends (k + 1)
          refine ⟨deadlines', armed', hsuffix.trans (List.suffix_cons _ _), ?_, hleft⟩
          simpa using haccount
        case isFalse hsend =>
          -- The thread ends here, and what it had popped is gone with its locals.
          refine ⟨(deadline, msgId) :: rest, armed, List.suffix_rfl, by simpa using h, ?_⟩
          rintro x ⟨⟩
      case isFalse hmem =>
        obtain ⟨deadlines', armed', hsuffix, haccount, hleft⟩ := ih (h.skip hmem) hrest sends
        exact ⟨deadlines', armed', hsuffix.trans (List.suffix_cons _ _), haccount, hleft⟩

end Account

/-! ### The invariant -/

namespace TimerThread

variable {timeout : ℕ} {s s' : TimerThread}

/-- **The invariant.** -/
structure Inv (timeout : ℕ) (s : TimerThread) : Prop where
  account : ∃ deadlines armed, Account timeout deadlines armed s.log ∧
    ∀ t ∈ s.timer, t.deadlines = deadlines ∧ t.armed = armed
  sorted : ∀ t ∈ s.timer, t.deadlines.Pairwise fun x y => x.1 ≤ y.1
  bounded : ∀ t ∈ s.timer, ∀ e ∈ t.deadlines, e.1 ≤ s.clock + timeout
  /-- Nothing that was due at the last reading is left in the queue. -/
  later : ∀ t ∈ s.timer, t.phase = .waiting → ∀ e ∈ t.deadlines, s.clock < e.1

theorem inv_start (timeout clock : ℕ) : Inv timeout (start clock) where
  account := ⟨[], ∅, .nil, by rintro _ ⟨⟩; exact ⟨rfl, rfl⟩⟩
  sorted := by rintro _ ⟨⟩; exact .nil
  bounded := by rintro _ ⟨⟩ _ ⟨⟩
  later := by rintro _ ⟨⟩ _ _ ⟨⟩

namespace Inv

theorem arm (h : Inv timeout s) {t : Timer} (ht : s.timer = some t) {now : ℕ}
    (hclock : s.clock ≤ now) (msgId : MsgId) :
    Inv timeout ⟨some (t.handle timeout now (.arm msgId)), now, s.log ++ [.arm msgId now]⟩ where
  account := by
    obtain ⟨deadlines, armed, haccount, hlocals⟩ := h.account
    obtain ⟨rfl, rfl⟩ := hlocals t ht
    exact ⟨_, _, haccount.arm msgId now, by rintro _ ⟨⟩; exact ⟨rfl, rfl⟩⟩
  sorted := by
    rintro _ ⟨⟩
    refine List.pairwise_append.mpr
      ⟨h.sorted t ht, List.pairwise_singleton _ _, fun x hx y hy => ?_⟩
    rw [List.mem_singleton.mp hy]
    exact (h.bounded t ht x hx).trans (Nat.add_le_add_right hclock timeout)
  bounded := by
    rintro _ ⟨⟩ e he
    obtain he | he := List.mem_append.mp he
    · exact (h.bounded t ht e he).trans (Nat.add_le_add_right hclock timeout)
    · rw [List.mem_singleton.mp he]
  later := by rintro _ ⟨⟩ ⟨⟩

/-- The queue stays, and the clock may go on. -/
theorem keeps {t t' : Timer} {clock : ℕ} {log : List Record} (h : Inv timeout s)
    (ht : s.timer = some t) (hdeadlines : t'.deadlines = t.deadlines)
    (hphase : t'.phase = .handled) (hclock : s.clock ≤ clock)
    (haccount : Account timeout t.deadlines t.armed s.log →
      Account timeout t.deadlines t'.armed log) :
    Inv timeout ⟨some t', clock, log⟩ where
  account := by
    obtain ⟨deadlines, armed, hold, hlocals⟩ := h.account
    obtain ⟨rfl, rfl⟩ := hlocals t ht
    exact ⟨_, _, haccount hold, by rintro _ ⟨⟩; exact ⟨hdeadlines, rfl⟩⟩
  sorted := by
    rintro _ ⟨⟩
    rw [hdeadlines]
    exact h.sorted t ht
  bounded := by
    rintro _ ⟨⟩ e he
    rw [hdeadlines] at he
    exact (h.bounded t ht e he).trans (Nat.add_le_add_right hclock timeout)
  later := by
    rintro _ ⟨⟩ hwaiting
    rw [hphase] at hwaiting
    cases hwaiting

theorem stop (h : Inv timeout s) : Inv timeout ⟨none, s.clock, s.log⟩ where
  account := by
    obtain ⟨deadlines, armed, haccount, -⟩ := h.account
    exact ⟨deadlines, armed, haccount, by rintro _ ⟨⟩⟩
  sorted := by rintro _ ⟨⟩
  bounded := by rintro _ ⟨⟩
  later := by rintro _ ⟨⟩

theorem fire (h : Inv timeout s) {t : Timer} (ht : s.timer = some t) {now : ℕ}
    (hclock : s.clock ≤ now) (sends : ℕ → Bool) :
    let r := fireDue now sends t.deadlines t.armed
    Inv timeout ⟨r.2.map fun x => ⟨x.1, x.2, .waiting⟩, now,
      s.log ++ r.1.map fun m => .fire m now⟩ := by
  intro r
  obtain ⟨deadlines, armed, haccount, hlocals⟩ := h.account
  obtain ⟨rfl, rfl⟩ := hlocals t ht
  obtain ⟨deadlines', armed', hsuffix, haccount', hleft⟩ :=
    haccount.fires_due (h.sorted t ht) now sends
  have hleft' : ∀ t' ∈ r.2.map fun x => (⟨x.1, x.2, .waiting⟩ : Timer),
      t' = ⟨deadlines', armed', .waiting⟩ ∧ ∀ e ∈ deadlines', now < e.1 := by
    intro t' ht'
    obtain ⟨x, hx, rfl⟩ := Option.map_eq_some_iff.mp ht'
    obtain ⟨rfl, hlater⟩ := hleft x hx
    exact ⟨rfl, hlater⟩
  refine ⟨⟨deadlines', armed', haccount', fun t' ht' => ?_⟩, fun t' ht' => ?_,
    fun t' ht' e he => ?_, fun t' ht' _ => ?_⟩
  · rw [(hleft' t' ht').1]
    exact ⟨rfl, rfl⟩
  · rw [(hleft' t' ht').1]
    exact (h.sorted t ht).sublist hsuffix.sublist
  · rw [(hleft' t' ht').1] at he
    exact (h.bounded t ht e (hsuffix.subset he)).trans (Nat.add_le_add_right hclock timeout)
  · obtain ⟨rfl, hlater⟩ := hleft' t' ht'
    exact hlater

/-- Every step keeps the invariant. -/
theorem step (h : Inv timeout s) {turn : Turn} (hstep : s.step timeout turn = some s') :
    Inv timeout s' := by
  obtain ⟨t, ht, hturn⟩ := Option.bind_eq_some_iff.mp hstep
  split at hturn
  case h_1 waitAt msg now hphase =>
    obtain ⟨⟨hwaited, hread⟩, ⟨⟩⟩ := Option.ite_none_right_eq_some.mp hturn
    cases msg with
    | arm msgId => exact h.arm ht (hwaited.trans hread) msgId
    | cancel msgId => exact h.keeps ht rfl rfl hwaited fun haccount => haccount.cancel msgId
  case h_2 waitAt hphase =>
    obtain ⟨⟨-, hclock⟩, ⟨⟩⟩ := Option.ite_none_right_eq_some.mp hturn
    exact h.keeps ht rfl rfl hclock id
  case h_3 =>
    cases hturn
    exact h.stop
  case h_4 now sends hphase =>
    obtain ⟨hclock, ⟨⟩⟩ := Option.ite_none_right_eq_some.mp hturn
    exact h.fire ht hclock sends
  case h_5 => cases hturn

end Inv

/-- What is armed in a step is in the log. -/
theorem armed_step {turn : Turn} (hstep : s.step timeout turn = some s') :
    s'.log.filterMap Record.armed = s.log.filterMap Record.armed ++ turn.armed.toList := by
  obtain ⟨t, ht, hturn⟩ := Option.bind_eq_some_iff.mp hstep
  split at hturn
  case h_1 waitAt msg now hphase =>
    obtain ⟨-, ⟨⟩⟩ := Option.ite_none_right_eq_some.mp hturn
    rw [List.filterMap_append]
    cases msg <;> rfl
  case h_2 waitAt hphase =>
    obtain ⟨-, ⟨⟩⟩ := Option.ite_none_right_eq_some.mp hturn
    exact (List.append_nil _).symm
  case h_3 =>
    cases hturn
    exact (List.append_nil _).symm
  case h_4 now sends hphase =>
    obtain ⟨-, ⟨⟩⟩ := Option.ite_none_right_eq_some.mp hturn
    have hnone : ((fireDue now sends t.deadlines t.armed).1.map
        fun m => Record.fire m now).filterMap Record.armed = [] := by
      simp [List.filterMap_map, Function.comp_def, Record.armed]
    rw [List.filterMap_append, hnone]
    rfl
  case h_5 => cases hturn

theorem armed_run {turns : List Turn} (hrun : (timerLoop timeout).run s turns = some s') :
    s'.log.filterMap Record.armed = s.log.filterMap Record.armed ++ turns.filterMap Turn.armed := by
  induction turns generalizing s with
  | nil =>
    obtain rfl : s = s' := Option.some.inj hrun
    exact (List.append_nil _).symm
  | cons turn rest ih =>
    obtain ⟨u, hstep, hrest⟩ := Machine.exists_step_of_run_cons hrun
    rw [ih hrest, armed_step hstep, List.append_assoc]
    cases harmed : turn.armed with
    | none => rw [List.filterMap_cons_none harmed]; rfl
    | some msgId => rw [List.filterMap_cons_some harmed]; rfl

end TimerThread

/-! ### What fires -/

section Once

variable {log p q : List Record} {msgId : MsgId} {time timeout : ℕ}

/-- An id that is armed once is armed neither before nor after that. -/
theorem not_armed_twice (honce : (log.filterMap Record.armed).Nodup)
    (hsplit : log = p ++ .arm msgId time :: q) (time' : ℕ) :
    .arm msgId time' ∉ p ∧ .arm msgId time' ∉ q := by
  have hsome : (Record.arm msgId time).armed = some msgId := rfl
  rw [hsplit, List.filterMap_append, List.filterMap_cons_some hsome] at honce
  have harmed : ∀ l : List Record, .arm msgId time' ∈ l → msgId ∈ l.filterMap Record.armed :=
    fun l hl => List.mem_filterMap.mpr ⟨_, hl, rfl⟩
  obtain ⟨-, hq, hpq⟩ := List.nodup_append.mp honce
  exact ⟨fun h => hpq msgId (harmed p h) msgId List.mem_cons_self rfl,
    fun h => (List.nodup_cons.mp hq).1 (harmed q h)⟩

/-- What fires was armed long enough before, and not cancelled since. -/
theorem Account.fired_once {deadlines : List (ℕ × MsgId)} {armed : Finset MsgId}
    (h : Account timeout deadlines armed log) (honce : (log.filterMap Record.armed).Nodup)
    {pre post : List Record} {now : ℕ} (hsplit : log = pre ++ .fire msgId now :: post) :
    ∃ time p q, pre = p ++ .arm msgId time :: q ∧ time + timeout ≤ now ∧ .cancel msgId ∉ q := by
  obtain ⟨⟨time, p, q, hpre, hq⟩, time', harm, hdue⟩ := h.fired pre msgId now post hsplit
  have hpreOnce : (pre.filterMap Record.armed).Nodup := by
    rw [hsplit, List.filterMap_append] at honce
    exact (List.nodup_append.mp honce).1
  refine ⟨time, p, q, hpre, ?_, fun hcancel => hq _ hcancel rfl⟩
  obtain ⟨hp, hq⟩ := not_armed_twice hpreOnce hpre time'
  rw [hpre] at harm
  obtain harm | harm := List.mem_append.mp harm
  · exact absurd harm hp
  · obtain heq | harm := List.mem_cons.mp harm
    · cases heq
      exact hdue
    · exact absurd harm hq

/-- What is not live any more was cancelled or fired, or is armed again. -/
theorem exists_fire (hsplit : log = p ++ .arm msgId time :: q) (hlive : ¬ Live log msgId time)
    (harm : ∀ time', .arm msgId time' ∉ q) (hcancel : .cancel msgId ∉ q) :
    ∃ now, .fire msgId now ∈ q := by
  by_contra hfire
  refine hlive ⟨p, q, hsplit, fun r hr hid => ?_⟩
  subst hid
  cases r with
  | arm msgId time' => exact harm time' hr
  | cancel msgId => exact hcancel hr
  | fire msgId now => exact hfire ⟨now, hr⟩

end Once

/-- **The resend timer.** If no id is armed twice: the queue is sorted at all times; nothing fires
twice, and what fires was armed at least the timeout ago and not cancelled after that; after each
round of firing, everything that was armed, not cancelled after that, and is due has fired; and ids
fire in the order in which they were armed. -/
theorem timer_loop_fires {timeout clock : ℕ} {turns : List Turn} {s : TimerThread}
    (hrun : (timerLoop timeout).run (.start clock) turns = some s)
    (honce : (turns.filterMap Turn.armed).Nodup) :
    (∀ t ∈ s.timer, t.deadlines.Pairwise fun x y => x.1 ≤ y.1) ∧
    (s.log.filterMap Record.fired).Nodup ∧
    (∀ pre msgId now post, s.log = pre ++ .fire msgId now :: post →
      ∃ time p q, pre = p ++ .arm msgId time :: q ∧ time + timeout ≤ now ∧ .cancel msgId ∉ q) ∧
    (∀ t ∈ s.timer, t.phase = .waiting → ∀ msgId time p q, s.log = p ++ .arm msgId time :: q →
      time + timeout ≤ s.clock → .cancel msgId ∉ q → ∃ now, .fire msgId now ∈ q) ∧
    (s.log.filterMap Record.fired).Sublist (s.log.filterMap Record.armed) := by
  have hinv : TimerThread.Inv timeout s := Machine.invariant
    (fun _ _ _ hI hstep => hI.step hstep) hrun (TimerThread.inv_start timeout clock)
  have hlogOnce : (s.log.filterMap Record.armed).Nodup := by
    rw [TimerThread.armed_run hrun]
    exact honce
  obtain ⟨deadlines, armed, haccount, hlocals⟩ := hinv.account
  refine ⟨hinv.sorted, haccount.order.nodup hlogOnce, fun pre msgId now post hsplit =>
    haccount.fired_once hlogOnce hsplit, fun t ht hwaiting msgId time p q hsplit hdue hcancel => ?_,
    haccount.order⟩
  refine exists_fire hsplit (fun hlive => ?_)
    (fun time' => (not_armed_twice hlogOnce hsplit time').2) hcancel
  obtain ⟨rfl, rfl⟩ := hlocals t ht
  exact absurd (hinv.later t ht hwaiting _ (haccount.pending _ _ hlive)) (Nat.not_lt.mpr hdue)

/-- Two ids are armed, the second is cancelled, and both deadlines have passed when the loop gets to
look at them. -/
def oneCancelled : List Turn :=
  [.receive 0 (.arm (List.Vector.replicate 16 1)) 10, .fire 11 fun _ => true,
    .receive 12 (.arm (List.Vector.replicate 16 2)) 13, .fire 13 fun _ => true,
    .receive 20 (.cancel (List.Vector.replicate 16 2)) 0, .fire 21 fun _ => true, .timeout 22,
    .fire 5013 fun _ => true]

theorem oneCancelled_log : ((timerLoop resendTimeout).run (.start 7) oneCancelled).map
    TimerThread.log = some [.arm (List.Vector.replicate 16 1) 10,
      .arm (List.Vector.replicate 16 2) 13, .cancel (List.Vector.replicate 16 2),
      .fire (List.Vector.replicate 16 1) 5013] := by
  decide

theorem oneCancelled_fires : ∃ s, (timerLoop resendTimeout).run (.start 7) oneCancelled = some s ∧
    s.log.filterMap Record.fired = [List.Vector.replicate 16 1] ∧
    (s.log.filterMap Record.fired).Nodup := by
  obtain ⟨s, hrun, hlog⟩ := Option.map_eq_some_iff.mp oneCancelled_log
  refine ⟨s, hrun, ?_, (timer_loop_fires hrun (by decide)).2.1⟩
  rw [hlog]
  rfl

/-- A cancellation that comes before its id is armed. -/
def cancelledFirst : List Turn :=
  [.receive 0 (.cancel (List.Vector.replicate 16 1)) 0, .fire 1 fun _ => true,
    .receive 0 (.arm (List.Vector.replicate 16 1)) 2, .fire 3 fun _ => true, .timeout 5002,
    .fire 5002 fun _ => true]

theorem cancelledFirst_log : ((timerLoop resendTimeout).run (.start 0) cancelledFirst).map
    TimerThread.log = some ([.cancel (List.Vector.replicate 16 1),
      .arm (List.Vector.replicate 16 1) 2] ++ .fire (List.Vector.replicate 16 1) 5002 :: []) := by
  decide

/-- The id is armed once, and fires although a cancellation of it has been handled. -/
theorem cancelledFirst_fires : (cancelledFirst.filterMap Turn.armed).Nodup ∧
    ∃ s, (timerLoop resendTimeout).run (.start 0) cancelledFirst = some s ∧
      ¬ ∀ pre msgId now post, s.log = pre ++ .fire msgId now :: post → .cancel msgId ∉ pre := by
  obtain ⟨s, hrun, hlog⟩ := Option.map_eq_some_iff.mp cancelledFirst_log
  exact ⟨by decide, s, hrun, fun h => h _ _ _ _ hlog List.mem_cons_self⟩

/-! ### The two-thread model -/

section TwoThreads

variable {C D : Type} {now : ℕ}

/-- A look at the front of the queue that ends the loop. -/
theorem step_wait (w : World C D) {deadlines : List (ℕ × MsgId)} {armed : Finset MsgId}
    (hw : w.timer = ⟨deadlines, armed, .firing now⟩)
    (hlater : ∀ deadline msgId, deadlines.head? = some (deadline, msgId) → now < deadline) :
    Step w { w with cmds := w.cmds ++ [], timer := ⟨deadlines, armed, .waiting⟩ } := by
  have hstep : Step w { w with timer := { w.timer with phase := .waiting } } :=
    .wait (by rw [hw]) (by rw [hw]; exact hlater)
  rwa [hw, ← List.append_nil w.cmds] at hstep

/-- From where it has read the clock, the timer thread of the two-thread model does what `fireDue`
does, as the broker is there. -/
theorem steps_of_fireDue (w : World C D) {deadlines : List (ℕ × MsgId)} {armed : Finset MsgId}
    (hw : w.timer = ⟨deadlines, armed, .firing now⟩) :
    ∃ x, (fireDue now (fun _ => true) deadlines armed).2 = some x ∧
      Relation.ReflTransGen Step w { w with
        cmds := w.cmds ++ (fireDue now (fun _ => true) deadlines armed).1.map .resendTimeout
        timer := ⟨x.1, x.2, .waiting⟩ } := by
  induction deadlines generalizing w armed with
  | nil => exact ⟨([], armed), rfl, .single (step_wait w hw (by rintro _ _ ⟨⟩))⟩
  | cons e rest ih =>
    obtain ⟨deadline, msgId⟩ := e
    rw [fireDue]
    split
    case isTrue hlater =>
      exact ⟨_, rfl, .single (step_wait w hw (by rintro _ _ ⟨⟩; exact hlater))⟩
    case isFalse hdue =>
      split
      case isTrue hmem =>
        have hstep : Step w { w with
            cmds := w.cmds ++ [.resendTimeout msgId]
            timer := ⟨rest, armed.erase msgId, .firing now⟩ } := by
          have hfire := Step.fire (w := w) (by rw [hw]) (by rw [hw]) (Nat.le_of_not_lt hdue)
            (by rw [hw]; exact hmem)
          rwa [hw] at hfire
        obtain ⟨x, hx, hsteps⟩ := ih { w with
          cmds := w.cmds ++ [.resendTimeout msgId]
          timer := ⟨rest, armed.erase msgId, .firing now⟩ } rfl
        refine ⟨x, hx, .head hstep ?_⟩
        simpa using hsteps
      case isFalse hmem =>
        have hstep : Step w { w with timer := ⟨rest, armed, .firing now⟩ } := by
          have hskip := Step.skip (w := w) (by rw [hw]) (by rw [hw]) (Nat.le_of_not_lt hdue)
            (by rw [hw]; exact hmem)
          rwa [hw] at hskip
        obtain ⟨x, hx, hsteps⟩ := ih { w with timer := ⟨rest, armed, .firing now⟩ } rfl
        exact ⟨x, hx, .head hstep hsteps⟩

end TwoThreads

end ResendTimers

end Aiomsg
