import Aiomsg.Broker.Labels

/-!
# How often a message is transmitted

`MAX_RETRIES` is meant to bound the transmissions of a message: one for the `Send`, one for each
retry. The retries that are left live in the `pending` entry, and each resend hands one less to the
next entry. One path drops the number: when a timer runs out while nobody is connected,
`handle_resend` puts the message back in `buffer`, which has no place for it, and the flush starts
over with `MAX_RETRIES`. A peer that comes and goes can so be sent one message any number of times.

The count below is an amortised one. A message in the buffer still has a whole budget of
`1 + MAX_RETRIES` transmissions, a pending one as many as it has retries. Every turn but that one
pays for its transmissions out of these budgets.

## Scope

The bound is on transmissions and not on deliveries: a DATA_REQ that a peer gets twice under two ids
is two messages to it. Timers do not occur. When a `ResendTimeout` comes is left to the list of
commands, so the bound holds whatever the timer thread does.

## Main results

* `spent_run` — without re-buffering, transmissions are paid for by the messages sent
* `transmissions_le_of_not_rebuffers` — then one `Send` causes at most `1 + MAX_RETRIES`
* `flapping_transmissions` — a peer that goes and comes back once, and seven transmissions
-/

namespace Aiomsg

namespace Broker

variable {C D : Type}

/-! ### Budgets -/

section Budget

variable (mine : D → Bool)

/-- The transmissions among some effects that are of messages of interest. -/
def spent (effects : List (Effect C D)) : ℕ := (transmitted effects).countP fun p => mine p.data

/-- What the buffered messages of interest may still spend. -/
def bufferBudget (buffer : List (Option Identity × D)) : ℕ :=
  (1 + maxRetries) * buffer.countP fun m => mine m.2

/-- What one pending message may still spend. -/
def entryBudget (p : Pending D) : ℕ := if mine p.data then p.retries else 0

/-- What the pending messages of interest may still spend. -/
def pendingBudget (pending : AList fun _ : MsgId => Pending D) : ℕ :=
  (pending.entries.map fun e => entryBudget mine e.2).sum

/-- What the broker may still spend on the messages of interest. -/
def budget (b : Broker C D) : ℕ := bufferBudget mine b.buffer + pendingBudget mine b.pending

/-- The step that loses count: a timer runs out for a message with retries left, and nobody is
connected. It is a condition on the broker before the step and on the command. -/
def Rebuffers (b : Broker C D) : Command C D → Prop
  | .resendTimeout msgId => ∃ p ∈ b.pending.lookup msgId,
      p.retries ≠ 0 ∧ b.conns.entries.isEmpty = true ∧ mine p.data = true
  | _ => False

instance (b : Broker C D) : (cmd : Command C D) → Decidable (Rebuffers mine b cmd)
  | .resendTimeout msgId => inferInstanceAs (Decidable (∃ p ∈ b.pending.lookup msgId,
      p.retries ≠ 0 ∧ b.conns.entries.isEmpty = true ∧ mine p.data = true))
  | .send _ _ | .connectionUp _ _ _ | .connectionDown _ | .received _ _ | .close =>
    inferInstanceAs (Decidable False)

@[simp] theorem spent_nil : spent mine ([] : List (Effect C D)) = 0 := rfl

@[simp] theorem spent_append (es es' : List (Effect C D)) :
    spent mine (es ++ es') = spent mine es + spent mine es' := by
  simp [spent]

@[simp] theorem bufferBudget_nil : bufferBudget mine [] = 0 := rfl

@[simp] theorem bufferBudget_append (msgs msgs' : List (Option Identity × D)) :
    bufferBudget mine (msgs ++ msgs') = bufferBudget mine msgs + bufferBudget mine msgs' := by
  simp [bufferBudget, Nat.mul_add]

theorem bufferBudget_singleton (identity : Option Identity) (data : D) :
    bufferBudget mine [(identity, data)] = if mine data then 1 + maxRetries else 0 := by
  cases h : mine data <;> simp [bufferBudget, h]

theorem pendingBudget_erase_add {pending : AList fun _ : MsgId => Pending D} {msgId : MsgId}
    {p : Pending D} (h : pending.lookup msgId = some p) :
    entryBudget mine p + pendingBudget mine (pending.erase msgId) = pendingBudget mine pending := by
  have hperm := (AList.entries_perm h).map fun e => entryBudget mine e.2
  exact (hperm.sum_eq).symm

theorem pendingBudget_erase_le (pending : AList fun _ : MsgId => Pending D) (msgId : MsgId) :
    pendingBudget mine (pending.erase msgId) ≤ pendingBudget mine pending := by
  cases h : pending.lookup msgId with
  | some p =>
    have hadd := pendingBudget_erase_add mine h
    omega
  | none =>
    have herase : (pending.erase msgId).entries = pending.entries :=
      List.kerase_of_notMem_keys (AList.lookup_eq_none.mp h)
    rw [pendingBudget, herase]
    rfl

theorem pendingBudget_insert_le (pending : AList fun _ : MsgId => Pending D) (msgId : MsgId)
    (p : Pending D) :
    pendingBudget mine (pending.insert msgId p)
      ≤ entryBudget mine p + pendingBudget mine pending := by
  have herase := pendingBudget_erase_le mine pending msgId
  have hinsert : pendingBudget mine (pending.insert msgId p)
      = entryBudget mine p + pendingBudget mine (pending.erase msgId) := rfl
  omega

/-! ### Every transmission is paid for -/

theorem spent_transmit (b : Broker C D) (identity : Option Identity) (data : D) (retries : ℕ) :
    spent mine (b.transmit identity data retries).2
        + budget mine (b.transmit identity data retries).1
      ≤ budget mine b + if mine data then 1 + retries else 0 := by
  have hspent : spent mine (b.transmit identity data retries).2 = if mine data then 1 else 0 := by
    rw [spent, transmitted_transmit]
    cases h : mine data <;> simp [h]
  have hpending : pendingBudget mine (b.transmit identity data retries).1.pending
      ≤ (if mine data then retries else 0) + pendingBudget mine b.pending := by
    cases h : b.atLeastOnce identity with
    | true =>
      rw [transmit_of_atLeastOnce data retries h, route_pending]
      exact pendingBudget_insert_le mine b.pending _ _
    | false =>
      rw [transmit_of_atMostOnce data retries h, route_pending]
      exact Nat.le_add_left _ _
  rw [hspent, budget, transmit_buffer, budget]
  split_ifs at hpending ⊢ <;> omega

theorem spent_transmitAll (b : Broker C D) (msgs : List (Option Identity × D)) :
    spent mine (b.transmitAll msgs).2 + budget mine (b.transmitAll msgs).1
      ≤ budget mine b + bufferBudget mine msgs := by
  induction msgs generalizing b with
  | nil => simp [transmitAll]
  | cons msg rest ih =>
    have hfirst := spent_transmit mine b msg.1 msg.2 maxRetries
    have hrest := ih (b.transmit msg.1 msg.2 maxRetries).1
    have hmsg : bufferBudget mine [msg] = _ := bufferBudget_singleton mine msg.1 msg.2
    have hcons : bufferBudget mine (msg :: rest) = _ := bufferBudget_append mine [msg] rest
    rw [hcons, hmsg]
    show spent mine (_ ++ _) + budget mine ((b.transmit _ _ _).1.transmitAll rest).1 ≤ _
    rw [spent_append]
    omega

/-- One turn pays for its transmissions, unless it puts a message back in the buffer. -/
theorem spent_step (b : Broker C D) (cmd : Command C D) (h : ¬ Rebuffers mine b cmd) :
    spent mine (b.step cmd).2 + budget mine (b.step cmd).1
      ≤ budget mine b + bufferBudget mine cmd.send?.toList := by
  have hturn := b.turn_step cmd
  generalize b.step cmd = r at hturn
  cases hturn with
  | buffered =>
    show 0 + (bufferBudget mine (b.buffer ++ [_]) + pendingBudget mine b.pending)
      ≤ budget mine b + bufferBudget mine [_]
    rw [bufferBudget_append, budget]
    omega
  | sent =>
    refine (spent_transmit mine b _ _ _).trans (Nat.add_le_add_left (Nat.le_of_eq ?_) _)
    exact (bufferBudget_singleton mine _ _).symm
  | @connected identity writer _ _ =>
    have hflush := spent_transmitAll mine (b.connect identity writer) b.buffer
    have hconnect : budget mine (b.connect identity writer) = pendingBudget mine b.pending :=
      Nat.zero_add _
    have hb : budget mine b = bufferBudget mine b.buffer + pendingBudget mine b.pending := rfl
    refine hflush.trans ?_
    omega
  | @acked _ msgId | @gaveUp msgId =>
    have herase := pendingBudget_erase_le mine b.pending msgId
    show 0 + (bufferBudget mine b.buffer + pendingBudget mine (b.pending.erase msgId)) ≤ _
    rw [budget]
    omega
  | @rebuffered msgId p hlookup hretries hconns =>
    -- the only message put back is not one of interest
    have hother : mine p.data = false := by
      by_contra hmine
      exact h ⟨p, hlookup, hretries, hconns, by simpa using hmine⟩
    have herase := pendingBudget_erase_le mine b.pending msgId
    have hback := bufferBudget_singleton mine p.identity p.data
    rw [hother] at hback
    show 0 + (bufferBudget mine (b.buffer ++ [_]) + pendingBudget mine (b.pending.erase msgId)) ≤ _
    rw [bufferBudget_append, hback, budget]
    simp only [Bool.false_eq_true, if_false]
    omega
  | @resent msgId p hlookup hretries =>
    have hresend := spent_transmit mine (b.forget msgId) p.identity p.data (p.retries - 1)
    have herase := pendingBudget_erase_add mine hlookup
    have hforget : budget mine (b.forget msgId)
        = bufferBudget mine b.buffer + pendingBudget mine (b.pending.erase msgId) := rfl
    have hentry : (if mine p.data then 1 + (p.retries - 1) else 0) = entryBudget mine p := by
      rw [entryBudget, Nat.add_sub_cancel' (Nat.one_le_iff_ne_zero.mpr hretries)]
    have hb : budget mine b = bufferBudget mine b.buffer + pendingBudget mine b.pending := rfl
    refine hresend.trans ?_
    omega
  | @dataReq identity msgId =>
    have hack : spent mine (b.route (some identity) (.ack msgId)).2 = 0 := by
      rw [spent, transmitted_route]
      rfl
    show spent mine (b.route (some identity) (.ack msgId)).2 + _ ≤ _
    rw [hack, Nat.zero_add]
    exact Nat.le_add_right _ _
  | turnedAway | data | ackIgnored | hello | heartbeat | timeoutIgnored | disconnected | close =>
    exact Nat.le_of_eq (Nat.zero_add _)

end Budget

/-- A condition on every step of a run: on the broker before it and on the command. `Close` ends the
run, and what is behind it is not looked at. -/
def EachStep (P : Broker C D → Command C D → Prop) : Broker C D → List (Command C D) → Prop
  | _, [] => True
  | b, cmd :: cmds => cmd.isClose = true ∨ P b cmd ∧ EachStep P (b.step cmd).1 cmds

instance EachStep.instDecidable (P : Broker C D → Command C D → Prop)
    [∀ b cmd, Decidable (P b cmd)] :
    (b : Broker C D) → (cmds : List (Command C D)) → Decidable (EachStep P b cmds)
  | _, [] => isTrue trivial
  | b, cmd :: cmds =>
    have := EachStep.instDecidable P (b.step cmd).1 cmds
    inferInstanceAs (Decidable (cmd.isClose = true ∨ P b cmd ∧ EachStep P (b.step cmd).1 cmds))

theorem EachStep.cons {P : Broker C D → Command C D → Prop} {b : Broker C D} {cmd : Command C D}
    {cmds : List (Command C D)} (hclose : cmd ≠ .close) (h : EachStep P b (cmd :: cmds)) :
    P b cmd ∧ EachStep P (b.step cmd).1 cmds := by
  refine h.resolve_left fun hisClose => hclose ?_
  cases cmd <;> first | rfl | exact Bool.noConfusion hisClose

/-- **Without re-buffering every transmission is paid for**, by what the broker held before the run
or by the messages handed over in it. -/
theorem spent_run (mine : D → Bool) {b : Broker C D} {cmds : List (Command C D)}
    (h : EachStep (fun b cmd => ¬ Rebuffers mine b cmd) b cmds) :
    spent mine (b.run cmds).2 + budget mine (b.run cmds).1
      ≤ budget mine b + bufferBudget mine (sends cmds) := by
  induction cmds generalizing b with
  | nil => exact Nat.le_of_eq (Nat.zero_add _)
  | cons cmd rest ih =>
    by_cases hclose : cmd = .close
    · subst hclose
      exact Nat.le_of_eq (Nat.zero_add _)
    · obtain ⟨hcmd, hrest⟩ := h.cons hclose
      have hfirst := spent_step mine b cmd hcmd
      have hthen := ih hrest
      rw [run_cons hclose, sends_cons hclose, spent_append, bufferBudget_append]
      show _ + budget mine ((b.step cmd).1.run rest).1 ≤ _
      omega

end Broker

/-! ### One accepted `Send` -/

variable {C D : Type}

open Broker

/-- The transmissions caused by the command at one position: those of its label, in the labelled
run. -/
def transmissionsOf (sendMode : SendMode) (salt : List.Vector UInt8 8) (cmds : List (Command C D))
    (i : ℕ) : List (Pending (ℕ × D)) :=
  (transmitted ((new sendMode .atLeastOnce salt).run (labelled cmds)).2).filter fun p =>
    p.data.1 == i

theorem countP_sends_labelFrom (k i : ℕ) (cmds : List (Command C D)) :
    (sends (labelFrom k cmds)).countP (fun m => m.2.1 == i) ≤ if k ≤ i then 1 else 0 := by
  induction cmds generalizing k with
  | nil => exact Nat.zero_le _
  | cons cmd rest ih =>
    rw [labelFrom]
    by_cases hclose : cmd = .close
    · subst hclose
      exact Nat.zero_le _
    · have hclose' : cmd.map (Prod.mk k) ≠ .close := fun h => hclose (cmd.map_eq_close.mp h)
      have hsend : ((cmd.map (Prod.mk k)).send?.toList).countP (fun m => m.2.1 == i)
          ≤ if k = i then 1 else 0 := by
        cases cmd with
        | send identity data =>
          by_cases hki : k = i <;> simp [Command.map, Command.send?, hki]
        | _ => exact Nat.zero_le _
      have hrest := ih (k + 1)
      rw [sends_cons hclose', List.countP_append]
      split_ifs at * <;> omega

/-- **One accepted `Send` causes at most `1 + MAX_RETRIES` transmissions**, in every run in which
its message is never put back in the buffer by a timer that runs out while nobody is connected. -/
theorem transmissions_le_of_not_rebuffers (sendMode : SendMode) (salt : List.Vector UInt8 8)
    (cmds : List (Command C D)) (i : ℕ)
    (h : EachStep (fun b cmd => ¬ Rebuffers (fun d => d.1 == i) b cmd)
      (new sendMode .atLeastOnce salt) (labelled cmds)) :
    (transmissionsOf sendMode salt cmds i).length ≤ 1 + maxRetries := by
  have hspent := spent_run (fun d : ℕ × D => d.1 == i) h
  have hnew :
      budget (fun d : ℕ × D => d.1 == i) (new sendMode .atLeastOnce salt : Broker C _) = 0 :=
    rfl
  have hone : (sends (labelled cmds)).countP (fun m => m.2.1 == i) ≤ 1 :=
    countP_sends_labelFrom 0 i cmds
  have hbudget : bufferBudget (fun d : ℕ × D => d.1 == i) (sends (labelled cmds))
      ≤ (1 + maxRetries) * 1 := Nat.mul_le_mul_left _ hone
  rw [transmissionsOf, ← List.countP_eq_length_filter]
  show spent (fun d : ℕ × D => d.1 == i) _ ≤ _
  omega

/-- The id the broker of the examples below gives out at a count. -/
def flapId (n : UInt64) : MsgId := msgIdOf (List.Vector.replicate 8 0) n

/-- A message resent four times to a peer that never answers; then the peer goes, the timer runs
out, and the peer comes back. -/
def flapping : List (Command ℕ Unit) :=
  [.connectionUp (List.Vector.replicate 16 1) 0 0, .send none (),
    .resendTimeout (flapId 0), .resendTimeout (flapId 1), .resendTimeout (flapId 2),
    .resendTimeout (flapId 3), .connectionDown (List.Vector.replicate 16 1),
    .resendTimeout (flapId 4), .connectionUp (List.Vector.replicate 16 1) 1 1,
    .resendTimeout (flapId 5)]

/-- Seven transmissions of one message, one more than `1 + MAX_RETRIES`. -/
theorem flapping_transmissions :
    ¬ (transmissionsOf .roundRobin (List.Vector.replicate 8 0) flapping 1).length
      ≤ 1 + maxRetries := by
  decide

/-- The same peer while it stays: six transmissions, and then the message is given up. -/
theorem staying_transmissions :
    (transmissionsOf .roundRobin (List.Vector.replicate 8 0)
      (flapping.take 6 ++ [.resendTimeout (flapId 4), .resendTimeout (flapId 5)]) 1).length
      ≤ 1 + maxRetries :=
  transmissions_le_of_not_rebuffers _ _ _ _ (by decide)

end Aiomsg
