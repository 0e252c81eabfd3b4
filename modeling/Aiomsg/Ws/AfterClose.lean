import Aiomsg.Ws.Outbound

/-!
# Data after a Close frame

The writer task of a connection goes on for as long as the broker sends it something. The reader
queues a Close frame when the client sends one or breaks the protocol, and `close_sent` keeps it
from queueing a second; but `poll_write` does not look at `close_sent`. So a frame that the broker
sends after that is queued behind the Close frame.

It is so for every `poll_write` that is accepted once the flag is set, and for no other poll.
Whether one is accepted depends on the inner stream alone, which has to take all that is queued
(`drains`).

## Scope

The order is that in which frames are queued, which is the order in which they are written. Whether
the inner stream ever takes them is open. A PONG behind a Close frame is no data, and none is
queued: `poll_read` parses nothing once it has come to the end.

## Main results

* `AsyncWsStream.Transcript.closeLast_iff` — exactly when no data frame follows a Close frame
-/

namespace Aiomsg

namespace Ws

/-- No data frame follows a Close frame. -/
def CloseLast (log : List ServerFrame) : Prop :=
  log.Pairwise fun f g => f.close?.isSome = true → g.binary? = none

/-- `CloseLast` for what follows a Close frame, if there has been one. -/
def CloseLastFrom (closeSent : Bool) (log : List ServerFrame) : Prop :=
  CloseLast log ∧ (closeSent = true → ∀ f ∈ log, f.binary? = none)

theorem closeLastFrom_false (log : List ServerFrame) : CloseLastFrom false log ↔ CloseLast log := by
  simp [CloseLastFrom]

/-- Control frames may come at any time. -/
theorem closeLastFrom_of_control {log : List ServerFrame} (closeSent : Bool)
    (h : ∀ f ∈ log, f.binary? = none) : CloseLastFrom closeSent log := by
  constructor
  · refine List.pairwise_of_forall_mem_list ?_
    intro _ _ g hg _
    exact h g hg
  · intro _
    exact h

theorem closeLastFrom_binary (closeSent : Bool) (buf : Bytes) :
    CloseLastFrom closeSent [.binary buf] ↔ closeSent = false := by
  simp [CloseLastFrom, CloseLast, ServerFrame.binary?]

theorem length_closes_eq_zero (log : List ServerFrame) :
    (log.filterMap ServerFrame.close?).length = 0 ↔ ∀ f ∈ log, f.close?.isSome = false := by
  simp [List.filterMap_eq_nil_iff]

/-- Frames one behind the other, with the flag that is up to date between them. -/
theorem closeLastFrom_append {now later : List ServerFrame} {closeSent closeSent' : Bool}
    (h : (now.filterMap ServerFrame.close?).length + closeSent.toNat = closeSent'.toNat) :
    CloseLastFrom closeSent (now ++ later)
      ↔ CloseLastFrom closeSent now ∧ CloseLastFrom closeSent' later := by
  -- The flag is set behind `now` exactly if it was before or `now` has a Close frame.
  have hflag : closeSent' = true ↔ closeSent = true ∨ ∃ f ∈ now, f.close?.isSome = true := by
    have hzero := length_closes_eq_zero now
    have hone := Bool.toNat_le closeSent'
    constructor
    · rintro rfl
      by_contra hneither
      obtain ⟨hsent, hnone⟩ := not_or.mp hneither
      have hlen := hzero.mpr fun f hf => Bool.eq_false_iff.mpr fun hclose => hnone ⟨f, hf, hclose⟩
      rw [hlen, Bool.eq_false_iff.mpr hsent] at h
      simp at h
    · intro hset
      by_contra hunset
      rw [Bool.eq_false_iff.mpr hunset, Bool.toNat_false, Nat.add_eq_zero_iff] at h
      obtain ⟨hlen, hsent⟩ := h
      rcases hset with rfl | ⟨f, hf, hclose⟩
      · simp at hsent
      · rw [hzero.mp hlen f hf] at hclose
        simp at hclose
  rw [CloseLastFrom, CloseLastFrom, CloseLastFrom, CloseLast, List.pairwise_append,
    List.forall_mem_append]
  constructor
  · rintro ⟨⟨hnow, hlater, hboth⟩, hsent⟩
    refine ⟨⟨hnow, fun h => (hsent h).1⟩, hlater, fun h g hg => ?_⟩
    rcases hflag.mp h with hbefore | ⟨f, hf, hclose⟩
    · exact (hsent hbefore).2 g hg
    · exact hboth f hf g hg hclose
  · rintro ⟨⟨hnow, hsent⟩, hlater, hsent'⟩
    refine ⟨⟨hnow, hlater, fun f hf g hg hclose => ?_⟩, fun h => ?_⟩
    · exact hsent' (hflag.mpr (.inr ⟨f, hf, hclose⟩)) g hg
    · exact ⟨hsent h, hsent' (hflag.mpr (.inl h))⟩

/-- Whether an inner stream that takes this much of each write takes `n` bytes. -/
def drains : List (Option ℕ) → ℕ → Bool
  | _, 0 => true
  | [], _ + 1 => true
  | none :: _, _ + 1 => false
  | some k :: room, n + 1 => decide (k ≠ 0) && drains room (n + 1 - k)

theorem drains_pollWrite (inner : AsyncDuplex) {bytes : Bytes} (h : 0 < bytes.length) :
    drains inner.room bytes.length = match inner.pollWrite bytes with
      | (none, _) | (some 0, _) => false
      | (some (n + 1), inner') => drains inner'.room (bytes.length - (n + 1)) := by
  obtain ⟨n, hn⟩ := Nat.exists_eq_add_of_lt h
  rw [Nat.zero_add] at hn
  obtain ⟨input, room, output⟩ := inner
  rcases room with _ | ⟨_ | k, room⟩
  · simp [AsyncDuplex.pollWrite, hn, drains]
  · simp [AsyncDuplex.pollWrite, hn, drains]
  · rcases k with _ | k
    · simp [AsyncDuplex.pollWrite, hn, drains]
    · have hmin : min (k + 1) (n + 1) = min k n + 1 := by omega
      have hleft : n + 1 - (k + 1) = n + 1 - (min k n + 1) := by omega
      simp only [AsyncDuplex.pollWrite, hn, drains, hmin, hleft]
      simp

namespace AsyncWsStream

/-- Whether the inner stream takes all that is queued. -/
def drained (ws : AsyncWsStream) : Bool := drains ws.inner.room (ws.outBuf.length - ws.outPos)

theorem flushOut_fst (ws : AsyncWsStream) : ws.flushOut.1 = ws.drained := by
  fun_induction flushOut ws with
  | case1 ws hpos inner hwrite =>
    have hpending : 0 < (ws.outBuf.drop ws.outPos).length := by simpa using hpos
    rw [drained, ← List.length_drop, drains_pollWrite ws.inner hpending, hwrite]
  | case2 ws hpos inner hwrite =>
    have hpending : 0 < (ws.outBuf.drop ws.outPos).length := by simpa using hpos
    rw [drained, ← List.length_drop, drains_pollWrite ws.inner hpending, hwrite]
  | case3 ws hpos n inner hwrite ih =>
    have hpending : 0 < (ws.outBuf.drop ws.outPos).length := by simpa using hpos
    have hnext := drains_pollWrite ws.inner hpending
    rw [hwrite, List.length_drop] at hnext
    rw [ih, drained, drained, hnext]
    exact congrArg (drains inner.room) (Nat.sub_sub _ _ _).symm
  | case4 ws hpos =>
    have hnone : ws.outBuf.length - ws.outPos = 0 := by omega
    rw [drained, hnone]
    exact (drains.eq_1 _).symm

/-- A `poll_write` is ready exactly if what is queued is drained. -/
theorem pollWrite_ready (ws : AsyncWsStream) (buf : Bytes) :
    (ws.pollWrite buf).1 = if ws.drained then some buf.length else none := by
  rw [pollWrite, ← flushOut_fst]
  rcases ws.flushOut with ⟨_ | _, ws₀⟩ <;> rfl

/-- The frames that a list of polls queues, in order, with what each of the polls adds to `sent`. -/
inductive Transcript : AsyncWsStream → List Call → List ServerFrame → Prop
  | nil {ws : AsyncWsStream} : Transcript ws [] []
  | cons {ws : AsyncWsStream} {c : Call} {cs : List Call} {now later : List ServerFrame}
      (hqueues : Queues ws c now) (hsends : Sends ws (ws.call c) now)
      (hlater : Transcript (ws.call c) cs later) : Transcript ws (c :: cs) (now ++ later)

theorem exists_transcript (ws : AsyncWsStream) (houtPos : ws.outPos ≤ ws.outBuf.length)
    (cs : List Call) : ∃ log, Transcript ws cs log := by
  induction cs generalizing ws with
  | nil => exact ⟨[], .nil⟩
  | cons c cs ih =>
    obtain ⟨now, hqueues, hsends⟩ := queued_call houtPos c
    obtain ⟨later, hlater⟩ := ih (ws.call c) hsends.outPos
    exact ⟨now ++ later, .cons hqueues hsends hlater⟩

theorem Transcript.sent {ws : AsyncWsStream} {cs : List Call} {log : List ServerFrame}
    (h : Transcript ws cs log) : (ws.calls cs).sent = ws.sent ++ wire log := by
  induction h with
  | nil => exact (List.append_nil _).symm
  | cons hqueues hsends hlater ih =>
    rw [wire_append, ← List.append_assoc, ← hsends.sent]
    exact ih

/-- A poll that is no `poll_write`, or is one before a Close frame has been queued, or one that
finds the inner stream unable to take what is queued. -/
def InTime (ws : AsyncWsStream) (c : Call) : Prop :=
  ∀ buf, c = .write buf → ws.closeSent = false ∨ ws.drained = false

/-- Every poll of the list is in time. -/
def AllInTime (ws : AsyncWsStream) : List Call → Prop
  | [] => True
  | c :: cs => ws.InTime c ∧ (ws.call c).AllInTime cs

/-- **One poll.** -/
theorem Queues.closeLast_iff {ws : AsyncWsStream} {c : Call} {now : List ServerFrame}
    (h : Queues ws c now) : CloseLastFrom ws.closeSent now ↔ ws.InTime c := by
  have hclosing : ∀ sent code, ∀ f ∈ closing sent code, f.binary? = none := by
    intro sent code f hf
    rw [closing] at hf
    split_ifs at hf
    · simp at hf
    · obtain ⟨_, -, rfl⟩ := List.mem_map.mp hf
      rfl
  have hpongs : ∀ frames, ∀ f ∈ pongs frames, f.binary? = none := by
    intro frames f hf
    obtain ⟨_, -, rfl⟩ := List.mem_map.mp hf
    rfl
  have hother : (∀ buf, c ≠ .write buf) → (∀ f ∈ now, f.binary? = none) →
      (CloseLastFrom ws.closeSent now ↔ ws.InTime c) := fun hc hnow =>
    iff_of_true (closeLastFrom_of_control _ hnow) fun buf hwrite => absurd hwrite (hc buf)
  cases h with
  | read =>
    exact hother (by simp) (List.forall_mem_append.mpr ⟨hpongs _, hclosing _ _⟩)
  | flush => exact hother (by simp) (by simp)
  | shutdown => exact hother (by simp) (hclosing _ _)
  | @accepted buf h =>
    rw [pollWrite_ready] at h
    have hdrained : ws.drained = true := by
      by_contra hnot
      simp [hnot] at h
    rw [closeLastFrom_binary]
    constructor
    · rintro hsent _ -
      exact .inl hsent
    · intro hintime
      rcases hintime buf rfl with hsent | hnot
      · exact hsent
      · exact absurd (hdrained.symm.trans hnot) (by simp)
  | @notReady buf h =>
    rw [pollWrite_ready] at h
    have hnot : ws.drained = false := by
      by_contra hdrained
      simp [hdrained] at h
    exact iff_of_true (closeLastFrom_of_control _ (by simp)) fun _ _ => .inr hnot

/-- **All polls.** No data frame follows a Close frame exactly if every poll is in time. -/
theorem Transcript.closeLast_iff {ws : AsyncWsStream} {cs : List Call} {log : List ServerFrame}
    (h : Transcript ws cs log) : CloseLastFrom ws.closeSent log ↔ ws.AllInTime cs := by
  induction h with
  | nil => exact iff_of_true (closeLastFrom_of_control _ (by simp)) trivial
  | cons hqueues hsends hlater ih =>
    rw [closeLastFrom_append hsends.closes, ih, hqueues.closeLast_iff]
    rfl

/-- **Data after a Close frame.** Take any stream of the client, however it arrives, any inner
stream to write to, and any list of polls of the two halves. What has been written and what is still
queued are the frames that the polls have queued; and no data frame is behind a Close frame among
them exactly if each `poll_write` comes before a Close frame has been queued, or finds the inner
stream unable to take what is queued. -/
theorem close_last_iff (input : Source) (room : List (Option ℕ)) (cs : List Call) :
    let start := new ⟨input, room, []⟩
    (∃ log, Transcript start cs log) ∧ ∀ log, Transcript start cs log →
      (start.calls cs).sent = wire log ∧ (CloseLast log ↔ start.AllInTime cs) := by
  intro start
  refine ⟨exists_transcript start (Nat.le_refl _) cs, fun log hlog => ⟨hlog.sent, ?_⟩⟩
  rw [← closeLastFrom_false]
  exact hlog.closeLast_iff

/-- The client closes, the reader answers it, and then the writer sends a heartbeat. -/
theorem data_after_close :
    let start := new ⟨[.bytes 0x88 [0x80, 0, 0, 0, 0]], [], []⟩
    let cs := [.read 16, .write [0, 0, 0, 1, 0x02]]
    (start.calls cs).inner.output = [0x88, 2, 0x03, 0xe8, 0x82, 5, 0, 0, 0, 1, 0x02] ∧
      ¬ ∀ log, Transcript start cs log → CloseLast log := by
  intro start cs
  refine ⟨by decide +kernel, fun hall => ?_⟩
  obtain ⟨log, hlog⟩ := exists_transcript start (Nat.le_refl _) cs
  have hlast := (closeLastFrom_false log).mpr (hall log hlog)
  obtain ⟨-, hwrite, -⟩ := hlog.closeLast_iff.mp hlast
  have hlate :
      (start.call (.read 16)).closeSent = true ∧ (start.call (.read 16)).drained = true := by
    decide +kernel
  rcases hwrite _ rfl with hsent | hfull
  · exact absurd (hlate.1.symm.trans hsent) (by simp)
  · exact absurd (hlate.2.symm.trans hfull) (by simp)

end AsyncWsStream

end Ws

end Aiomsg
