import Aiomsg.AsyncBroker.Basic
import Aiomsg.Broker.Provenance
import Mathlib.Data.Finset.Basic

/-!
# The asynchronous broker refines the synchronous one

Every run of the asynchronous broker is matched by a run of the synchronous broker and its timer
thread on the same commands. What the two have in hand is not alike: one keeps deadlines and looks
at `pending` when they pass, the other has sent `Arm` and `Cancel` down a channel and will be sent
timeouts back.

## The relation

The run that is found lets the timer thread lag. Between two turns of the asynchronous broker it
waits with nothing armed, and all it has been sent is still in its channel; the ids of the `Arm`s
there are, in order, the ids in the queue of deadlines. When the asynchronous broker takes a
deadline off the front, the thread is let run over the `Cancel`s in front of the next `Arm`, over
that `Arm`, and through the five seconds behind it; its timeout is processed before anything else
happens. The two clocks have nothing to do with each other, and cannot: the thread reads its own
when it takes the `Arm`, and takes none while it fires.

An id whose message is gone is fired all the same, in both, and in both nothing comes of it.

## Scope

The relation is an inclusion of runs: what the asynchronous broker does, the other might do. The
converse is not claimed, and would be about time. The synchronous pair may cancel an armed id before
its deadline is taken off, fire late, or fire while commands are waiting, and the asynchronous one
has no way to do some of these.

Payloads, handles and the clock are arbitrary, and so is the delivery guarantee; with at-most-once
delivery both have nothing armed.

## Main results

* `Sim.handle`, `Sim.fireDue` — the relation is kept, command by command and deadline by deadline
* `async_refines_sync`
-/

namespace Aiomsg

open ResendTimers

variable {C D : Type}

/-! ### Runs of the synchronous broker -/

/-- Nothing is put on the command channel from outside. -/
def Inside (w w' : World C D) : Prop :=
  ∀ cmd, w'.cmds = w.cmds ++ [cmd] → ∃ msgId, cmd = .resendTimeout msgId

/-- A run of the synchronous broker and its timer thread, with the commands that were put on the
command channel from outside, in order. -/
inductive SyncRun : World C D → List (Command C D) → World C D → Prop
  | refl (w : World C D) : SyncRun w [] w
  | post {w w' : World C D} {cmds : List (Command C D)} (h : SyncRun w cmds w')
      (hopen : w'.closed = false) {cmd : Command C D} (hcmd : ∀ msgId, cmd ≠ .resendTimeout msgId) :
      SyncRun w (cmds ++ [cmd]) { w' with cmds := w'.cmds ++ [cmd] }
  | step {w w' w'' : World C D} {cmds : List (Command C D)} (h : SyncRun w cmds w')
      (hopen : w'.closed = false) (hstep : Step w' w'') (hinside : Inside w' w'') :
      SyncRun w cmds w''

theorem SyncRun.trans {w w' w'' : World C D} {cmds cmds' : List (Command C D)}
    (h : SyncRun w cmds w') (h' : SyncRun w' cmds' w'') : SyncRun w (cmds ++ cmds') w'' := by
  induction h' with
  | refl =>
    rw [List.append_nil]
    exact h
  | post _ hopen hcmd ih =>
    rw [← List.append_assoc]
    exact ih.post hopen hcmd
  | step _ hopen hstep hinside ih => exact ih.step hopen hstep hinside

/-- A new broker with any delivery guarantee, and a new timer thread. -/
def ResendTimers.World.new (sendMode : SendMode) (delivery : DeliveryGuarantee)
    (salt : List.Vector UInt8 8) : World C D :=
  { World.start sendMode salt with broker := .new sendMode delivery salt }

/-- The commands of a run, up to the first `Close`. -/
def commands : List (AsyncInput C D) → List (Command C D)
  | [] => []
  | .cmd .close :: _ => [.close]
  | .cmd cmd :: inputs => cmd.toCommand :: commands inputs
  | .deadline :: inputs => commands inputs

/-! ### The timer thread, while it lags -/

/-- The timer thread waiting, with nothing armed. -/
def idle : Timer := ⟨[], ∅, .waiting⟩

def TimerMsg.arm? : TimerMsg → Option MsgId
  | .arm msgId => some msgId
  | .cancel _ => none

section Timer

variable {w : World C D}

/-- A step that leaves the command channel alone comes from inside. -/
theorem inside_of_cmds {w' : World C D} (h : w'.cmds = w.cmds) : Inside w w' := by
  intro cmd hcmd
  rw [h] at hcmd
  exact absurd hcmd (by simp)

/-- Reading the clock with nothing due. -/
theorem run_handled (hopen : w.closed = false) (hphase : w.timer.phase = .handled)
    (hdue : ∀ deadline msgId, w.timer.deadlines.head? = some (deadline, msgId) → w.now < deadline) :
    SyncRun w [] { w with timer := { w.timer with phase := .waiting } } := by
  have hread := (SyncRun.refl w).step hopen (.readClock hphase) (inside_of_cmds rfl)
  exact hread.step hopen (.wait rfl hdue) (inside_of_cmds rfl)

/-- The thread takes a `Cancel`. -/
theorem run_cancel (hopen : w.closed = false) (hidle : w.timer = idle) {msgId : MsgId}
    {rest : List TimerMsg} (hmsg : w.toTimer = .cancel msgId :: rest) :
    SyncRun w [] { w with toTimer := rest, timer := idle } := by
  have hwaiting : w.timer.phase = .waiting := by rw [hidle]; rfl
  have hreceived : w.timer.receive w.now (.cancel msgId) = ⟨[], ∅, .handled⟩ := by
    rw [hidle]
    simp [idle, Timer.receive]
  have htake := (SyncRun.refl w).step hopen (.receive hwaiting hmsg) (inside_of_cmds rfl)
  rw [hreceived] at htake
  exact htake.trans (run_handled hopen rfl (by simp))

/-- The thread takes an `Arm`, waits, and fires it. -/
theorem run_arm (hopen : w.closed = false) (hidle : w.timer = idle) {msgId : MsgId}
    {rest : List TimerMsg} (hmsg : w.toTimer = .arm msgId :: rest) :
    SyncRun w [] { w with
      toTimer := rest
      timer := idle
      now := w.now + resendTimeout
      cmds := w.cmds ++ [.resendTimeout msgId] } := by
  have hwaiting : w.timer.phase = .waiting := by rw [hidle]; rfl
  have hpos : 0 < resendTimeout := by decide
  have hreceived : w.timer.receive w.now (.arm msgId)
      = ⟨[(w.now + resendTimeout, msgId)], {msgId}, .handled⟩ := by
    rw [hidle]
    simp [idle, Timer.receive]
  have htake := (SyncRun.refl w).step hopen (.receive hwaiting hmsg) (inside_of_cmds rfl)
  rw [hreceived] at htake
  have hnotDue : ∀ deadline id,
      [(w.now + resendTimeout, msgId)].head? = some (deadline, id) → w.now < deadline := by
    rintro _ _ ⟨⟩
    exact Nat.lt_add_of_pos_right hpos
  -- Back to waiting, and five seconds later the wait is over.
  have hwait : SyncRun w [] { w with
      toTimer := rest
      timer := ⟨[(w.now + resendTimeout, msgId)], {msgId}, .waiting⟩ } :=
    htake.trans (run_handled hopen rfl hnotDue)
  have hread : SyncRun w [] { w with
      toTimer := rest
      timer := ⟨[(w.now + resendTimeout, msgId)], {msgId}, .firing (w.now + resendTimeout)⟩
      now := w.now + resendTimeout } := by
    have htick := hwait.step hopen (.tick (Nat.le_add_right w.now resendTimeout))
      (inside_of_cmds rfl)
    have htimeout := htick.step hopen (.timeout rfl (by simp)) (inside_of_cmds rfl)
    exact htimeout.step hopen (.readClock rfl) (inside_of_cmds rfl)
  have hfire : SyncRun w [] { w with
      toTimer := rest
      timer := ⟨[], Finset.erase {msgId} msgId, .firing (w.now + resendTimeout)⟩
      now := w.now + resendTimeout
      cmds := w.cmds ++ [.resendTimeout msgId] } := by
    refine hread.step hopen (.fire rfl rfl (Nat.le_refl _) (Finset.mem_singleton_self _)) ?_
    intro cmd hcmd
    exact ⟨msgId, (List.singleton_inj.mp (List.append_cancel_left hcmd)).symm⟩
  rw [Finset.erase_singleton] at hfire
  exact hfire.step hopen (.wait rfl (by simp)) (inside_of_cmds rfl)

end Timer

/-! ### The relation -/

/-- How the two brokers correspond between two turns of the asynchronous one. -/
structure Sim (a : AsyncBroker C D) (w : World C D) : Prop where
  broker : w.broker = a.toBroker
  isOpen : w.closed = false
  cmds : w.cmds = []
  timer : w.timer = idle
  arms : w.toTimer.filterMap TimerMsg.arm? = a.deadlines.map Prod.snd

/-- The `Arm`s a handler puts on the timer's channel. -/
theorem arms_timerMsgs (es : List (Effect C D)) :
    (es.filterMap timerMsg).filterMap TimerMsg.arm? = arms es := by
  rw [List.filterMap_filterMap, arms]
  refine congrArg (List.filterMap · es) (funext fun e => ?_)
  cases e <;> rfl

/-- The broker processes the one command on its channel. -/
theorem Sim.process {clock : ℕ →o ℕ} {a : AsyncBroker C D} {w : World C D} {cmd : Command C D}
    {r : AsyncBroker C D × List (Effect C D)} (hbroker : w.broker = a.toBroker)
    (hopen : w.closed = false) (hcmds : w.cmds = [cmd]) (htimer : w.timer = idle)
    (harms : w.toTimer.filterMap TimerMsg.arm? = a.deadlines.map Prod.snd)
    (hcmd : cmd.isClose = false) (h : AsyncBroker.Mirrors clock a r (a.toBroker.step cmd)) :
    SyncRun w [] (w.process cmd []) ∧ Sim r.1 (w.process cmd []) ∧
      (w.process cmd []).effects.filter Effect.visible
        = w.effects.filter Effect.visible ++ r.2 := by
  obtain ⟨new, hnew, hids, -⟩ := h.deadlines
  refine ⟨(SyncRun.refl w).step hopen (.process hcmds) fun cmd' hcmd' => ?_,
    ⟨?_, hcmd, rfl, htimer, ?_⟩, ?_⟩
  · rw [hcmds] at hcmd'
    exact absurd hcmd' (by simp [World.process, World.emit, World.take])
  · show (w.broker.step cmd).1 = r.1.toBroker
    rw [hbroker, h.broker]
  · show (w.toTimer ++ (w.broker.step cmd).2.filterMap timerMsg).filterMap _ = _
    rw [List.filterMap_append, harms, arms_timerMsgs, hbroker, hnew, List.map_append, hids]
  · show (w.effects ++ (w.broker.step cmd).2).filter _ = _
    rw [List.filter_append, hbroker, h.effects]

theorem AsyncCommand.toCommand_ne (cmd : AsyncCommand C D) (msgId : MsgId) :
    cmd.toCommand ≠ .resendTimeout msgId := by
  cases cmd <;> simp [AsyncCommand.toCommand]

section Sim

variable {clock : ℕ →o ℕ} {a : AsyncBroker C D} {w : World C D}

theorem Sim.post (h : Sim a w) (cmd : AsyncCommand C D) :
    SyncRun w [cmd.toCommand] { w with cmds := [cmd.toCommand] } := by
  have hpost := (SyncRun.refl w).post h.isOpen cmd.toCommand_ne
  rw [h.cmds] at hpost
  exact hpost

/-- **One command.** -/
theorem Sim.handle (h : Sim a w) {cmd : AsyncCommand C D} (hcmd : cmd.toCommand.isClose = false) :
    ∃ w', SyncRun w [cmd.toCommand] w' ∧ Sim (a.handle clock cmd).1 w' ∧
      w'.effects.filter Effect.visible
        = w.effects.filter Effect.visible ++ (a.handle clock cmd).2 := by
  obtain ⟨hrun, hsim, heffects⟩ := Sim.process (w := { w with cmds := [cmd.toCommand] }) h.broker
    h.isOpen rfl h.timer h.arms hcmd (AsyncBroker.mirrors_handle clock a cmd)
  exact ⟨_, (h.post cmd).trans hrun, hsim, heffects⟩

/-- The thread takes what is in front of the next `Arm`, and fires that. -/
theorem exists_run_arm (hopen : w.closed = false) (hidle : w.timer = idle) {msgId : MsgId}
    {ids : List MsgId} (harms : w.toTimer.filterMap TimerMsg.arm? = msgId :: ids) :
    ∃ rest now, rest.filterMap TimerMsg.arm? = ids ∧
      SyncRun w [] { w with
        toTimer := rest
        timer := idle
        now := now
        cmds := w.cmds ++ [.resendTimeout msgId] } := by
  generalize hmsgs : w.toTimer = msgs at harms
  induction msgs generalizing w with
  | nil => exact absurd harms (by simp)
  | cons msg msgs ih =>
    cases msg with
    | arm msgId' =>
      obtain ⟨rfl, hids⟩ := List.cons.inj harms
      exact ⟨msgs, _, hids, run_arm hopen hidle hmsgs⟩
    | cancel msgId' =>
      obtain ⟨rest, now, hids, hrun⟩ :=
        ih (w := { w with toTimer := msgs, timer := idle }) hopen rfl rfl harms
      exact ⟨rest, now, hids, (run_cancel hopen hidle hmsgs).trans hrun⟩

/-- **One deadline.** -/
theorem Sim.fireResend (clock : ℕ →o ℕ) (h : Sim a w) {deadline : ℕ} {msgId : MsgId}
    {rest : List (ℕ × MsgId)} (hfront : a.deadlines = (deadline, msgId) :: rest) :
    ∃ w', SyncRun w [] w' ∧ Sim (({ a with deadlines := rest }).fireResend clock msgId).1 w' ∧
      w'.effects.filter Effect.visible = w.effects.filter Effect.visible ++
        (({ a with deadlines := rest }).fireResend clock msgId).2 := by
  have harms := h.arms
  rw [hfront] at harms
  obtain ⟨msgs, now, hids, hrun⟩ := exists_run_arm h.isOpen h.timer harms
  obtain ⟨hrun', hsim, heffects⟩ := Sim.process (a := { a with deadlines := rest })
    (w := { w with toTimer := msgs, timer := idle, now := now, cmds := [.resendTimeout msgId] })
    h.broker h.isOpen rfl rfl hids rfl
    (AsyncBroker.mirrors_fireResend clock { a with deadlines := rest } msgId)
  rw [h.cmds] at hrun
  exact ⟨_, hrun.trans hrun', hsim, heffects⟩

/-- **The deadlines that have passed**, one after the other. -/
theorem Sim.fireDue (h : Sim a w) {now : ℕ} (hnow : now ≤ clock a.readings) :
    ∃ w', SyncRun w [] w' ∧ Sim (a.fireDue clock now hnow).1 w' ∧
      w'.effects.filter Effect.visible
        = w.effects.filter Effect.visible ++ (a.fireDue clock now hnow).2 := by
  fun_induction AsyncBroker.fireDue clock a now hnow generalizing w with
  | case1 a hnow hnone => exact ⟨w, .refl w, h, (List.append_nil _).symm⟩
  | case2 a hnow deadline msgId rest hfront hdue =>
    exact ⟨w, .refl w, h, (List.append_nil _).symm⟩
  | case3 a hnow deadline msgId rest hfront hdue popped fired hlater =>
    rename_i ih
    obtain ⟨w₁, hrun₁, hsim₁, heffects₁⟩ := Sim.fireResend clock h hfront
    obtain ⟨w₂, hrun₂, hsim₂, heffects₂⟩ := ih hsim₁
    refine ⟨w₂, hrun₁.trans hrun₂, hsim₂, ?_⟩
    rw [heffects₂, heffects₁, List.append_assoc]

theorem Sim.fireDueResends (clock : ℕ →o ℕ) (h : Sim a w) :
    ∃ w', SyncRun w [] w' ∧ Sim (a.fireDueResends clock).1 w' ∧
      w'.effects.filter Effect.visible
        = w.effects.filter Effect.visible ++ (a.fireDueResends clock).2 := by
  have hread : Sim (a.instantNow clock).2 w := ⟨h.broker, h.isOpen, h.cmds, h.timer, h.arms⟩
  exact hread.fireDue (AsyncBroker.le_instantNow clock a)

/-- **A whole run**, from any two states that correspond. -/
theorem Sim.run (h : Sim a w) (inputs : List (AsyncInput C D)) :
    ∃ w', SyncRun w (commands inputs) w' ∧ w'.cmds = [] ∧
      w'.broker = (a.run clock inputs).1.toBroker ∧
      w'.effects.filter Effect.visible
        = w.effects.filter Effect.visible ++ (a.run clock inputs).2 := by
  induction inputs generalizing a w with
  | nil => exact ⟨w, .refl w, h.cmds, h.broker, (List.append_nil _).symm⟩
  | cons input inputs ih =>
    -- A turn that is not the last.
    have hgo : ∀ {cmds : List (Command C D)} {w₁ : World C D}, SyncRun w cmds w₁ →
        Sim (a.step clock input).1 w₁ →
        w₁.effects.filter Effect.visible
          = w.effects.filter Effect.visible ++ (a.step clock input).2 →
        ∃ w', SyncRun w (cmds ++ commands inputs) w' ∧ w'.cmds = [] ∧
          w'.broker = ((a.step clock input).1.run clock inputs).1.toBroker ∧
          w'.effects.filter Effect.visible = w.effects.filter Effect.visible ++
            ((a.step clock input).2 ++ ((a.step clock input).1.run clock inputs).2) := by
      intro cmds w₁ hrun₁ hsim₁ heffects₁
      obtain ⟨w₂, hrun₂, hcmds₂, hbroker₂, heffects₂⟩ := ih hsim₁
      refine ⟨w₂, hrun₁.trans hrun₂, hcmds₂, hbroker₂, ?_⟩
      rw [heffects₂, heffects₁, List.append_assoc]
    cases input with
    | deadline =>
      obtain ⟨w₁, hrun₁, hsim₁, heffects₁⟩ := Sim.fireDueResends clock h
      exact hgo hrun₁ hsim₁ heffects₁
    | cmd cmd =>
      have hcmd : cmd.toCommand.isClose = false → ∃ w₁, SyncRun w [cmd.toCommand] w₁ ∧
          Sim (a.handle clock cmd).1 w₁ ∧ w₁.effects.filter Effect.visible
            = w.effects.filter Effect.visible ++ (a.handle clock cmd).2 := fun h' => h.handle h'
      cases cmd with
      | close =>
        have hclose := (h.post .close).step h.isOpen (.process rfl) fun cmd' hcmd' =>
          absurd hcmd' (by simp [World.process, World.emit, World.take])
        refine ⟨_, hclose, rfl, h.broker, ?_⟩
        show (w.effects ++ []).filter _ = _
        rw [List.append_nil]
        exact (List.append_nil _).symm
      | send | connectionUp | connectionDown | received =>
        obtain ⟨w₁, hrun₁, hsim₁, heffects₁⟩ := hcmd rfl
        exact hgo hrun₁ hsim₁ heffects₁

end Sim

/-! ### What is stale stays stale -/

/-- What a stretch of a run of the asynchronous broker does, told by the effects the synchronous one
would have: ids are given out in order, and what is waiting at the end was waiting before or was
given its id on the way. -/
def Stretch (b b' : Broker C D) (es : List (Effect C D)) : Prop :=
  ∃ full : List (Effect C D), es = full.filter Effect.visible ∧ Broker.Issues b b' full ∧
    ∀ msgId ∈ b'.pending, msgId ∈ b.pending ∨ msgId ∈ issued full

theorem issued_visible (es : List (Effect C D)) :
    issued (es.filter Effect.visible) = issued es := by
  rw [issued, List.filterMap_filter]
  refine congrArg (List.filterMap · es) (funext fun e => ?_)
  cases e <;> rfl

theorem Stretch.refl (b : Broker C D) : Stretch b b [] :=
  ⟨[], rfl, .of_none rfl rfl rfl rfl, fun _ h => .inl h⟩

theorem Stretch.trans {b b' b'' : Broker C D} {es es' : List (Effect C D)} (h : Stretch b b' es)
    (h' : Stretch b' b'' es') : Stretch b b'' (es ++ es') := by
  obtain ⟨full, rfl, hissues, hpending⟩ := h
  obtain ⟨full', rfl, hissues', hpending'⟩ := h'
  refine ⟨full ++ full', (List.filter_append ..).symm, hissues.trans hissues', ?_⟩
  intro msgId hmem
  rw [issued_append, List.mem_append, ← or_assoc]
  exact (hpending' msgId hmem).imp_left (hpending msgId)

theorem stretch_step (b : Broker C D) (cmd : Command C D) :
    Stretch b (b.step cmd).1 ((b.step cmd).2.filter Effect.visible) := by
  refine ⟨(b.step cmd).2, rfl, Broker.issues_step _ _, ?_⟩
  intro msgId hmem
  obtain ⟨q, hq⟩ := Option.isSome_iff_exists.mp (AList.lookup_isSome.mpr hmem)
  rcases Broker.entry_step hq with hbefore | hmark
  · exact .inl (AList.lookup_isSome.mp (Option.isSome_iff_exists.mpr ⟨q, hbefore⟩))
  · exact .inr (mem_issued hmark)

namespace AsyncBroker

variable (clock : ℕ →o ℕ)

theorem stretch_run (a : AsyncBroker C D) (inputs : List (AsyncInput C D)) :
    Stretch a.toBroker (a.run clock inputs).1.toBroker (a.run clock inputs).2 :=
  run_of_steps clock .refl .trans stretch_step a inputs

/-- A run goes on from where its first part ended. -/
theorem exists_stretch_append (a : AsyncBroker C D) (before after : List (AsyncInput C D)) :
    ∃ es, (a.run clock (before ++ after)).2 = (a.run clock before).2 ++ es ∧
      Stretch (a.run clock before).1.toBroker (a.run clock (before ++ after)).1.toBroker es := by
  induction before generalizing a with
  | nil => exact ⟨_, rfl, stretch_run clock a after⟩
  | cons input before ih =>
    by_cases hclose : input = .cmd .close
    · subst hclose
      exact ⟨[], rfl, .refl _⟩
    · obtain ⟨es, heffects, hstretch⟩ := ih (a.step clock input).1
      refine ⟨es, ?_, ?_⟩
      · rw [List.cons_append, run_cons clock hclose, run_cons clock hclose, heffects,
          List.append_assoc]
      · rw [List.cons_append, run_cons clock hclose, run_cons clock hclose]
        exact hstretch

/-- **An id that is not waited for any more is never waited for again**, once acknowledged or
superseded. -/
theorem notMem_pending_of_stale {a : AsyncBroker C D} {before after : List (AsyncInput C D)}
    {msgId : MsgId} (hcount : (issued (a.run clock (before ++ after)).2).length < 2 ^ 64)
    (hissued : msgId ∈ issued (a.run clock before).2)
    (hgone : msgId ∉ (a.run clock before).1.pending) :
    msgId ∉ (a.run clock (before ++ after)).1.pending := by
  obtain ⟨es, heffects, full, rfl, -, hpending⟩ := exists_stretch_append clock a before after
  obtain ⟨all, hall, hissues, -⟩ := stretch_run clock a (before ++ after)
  have hnodup : (issued (a.run clock (before ++ after)).2).Nodup := by
    rw [hall, issued_visible] at hcount ⊢
    exact hissues.nodup hcount
  intro hmem
  rcases hpending msgId hmem with hbefore | hagain
  · exact hgone hbefore
  · rw [heffects, issued_append, issued_visible] at hnodup
    exact (List.nodup_append.mp hnodup).2.2 msgId hissued msgId hagain rfl

end AsyncBroker

/-- **The asynchronous broker refines the synchronous one.** For every run of the asynchronous
broker, with any commands, any turns in which it looks for deadlines that have passed, and any clock
that does not go back, there is a run of the synchronous broker and its timer thread from the same
salt, on the same commands in the same order, at whose end every command has been processed. The two
brokers are then in the same state: `conns`, `order`, `rr_cursor`, `buffer`, `pending` and the
counter. They have had the same effects in the same order, but for the messages to the timer: the
frames on every writer, the receive queue, the answers to sessions, and the transmissions behind
them.

A deadline whose message is gone when it comes to the front changes nothing and puts nothing on any
channel, and nor does a timeout for it in the synchronous broker. And a message that is gone stays
gone: an id that was given out before some point of the run and was acknowledged or superseded by
then is not waited for at the end, as long as the 64-bit counter has not gone round. -/
theorem async_refines_sync (sendMode : SendMode) (delivery : DeliveryGuarantee)
    (salt : List.Vector UInt8 8) (clock : ℕ →o ℕ) (inputs : List (AsyncInput C D)) :
    let start := AsyncBroker.new sendMode delivery salt
    let a := start.run clock inputs
    ∃ w, SyncRun (World.new sendMode delivery salt) (commands inputs) w ∧ w.cmds = [] ∧
      w.broker = a.1.toBroker ∧ w.effects.filter Effect.visible = a.2 ∧
      (∀ msgId, msgId ∉ a.1.pending →
        a.1.fireResend clock msgId = (a.1, []) ∧ w.broker.handleResend msgId = (w.broker, [])) ∧
      ∀ before after msgId, inputs = before ++ after → (issued a.2).length < 2 ^ 64 →
        msgId ∈ issued (start.run clock before).2 →
        msgId ∉ (start.run clock before).1.pending → msgId ∉ a.1.pending := by
  intro start a
  have hstart : Sim start (World.new sendMode delivery salt) := ⟨rfl, rfl, rfl, rfl, rfl⟩
  obtain ⟨w, hrun, hcmds, hbroker, heffects⟩ := hstart.run inputs
  refine ⟨w, hrun, hcmds, hbroker, heffects, ?_, ?_⟩
  · intro msgId hgone
    have hnone : a.1.pending.lookup msgId = none := AList.lookup_eq_none.mpr hgone
    refine ⟨by rw [AsyncBroker.fireResend, hnone], Broker.handleResend_of_none ?_⟩
    rw [hbroker]
    exact hnone
  · rintro before after msgId rfl hcount hissued hgone
    exact AsyncBroker.notMem_pending_of_stale clock hcount hissued hgone

/-- A peer comes up and is sent a message. It does not acknowledge it in time, and is sent it again
under another id. It acknowledges that one, whose deadline then passes as well, and goes. -/
def resentInputs : List (AsyncInput ℕ ℕ) :=
  let peer : Identity := List.Vector.replicate 16 1
  [.cmd (.connectionUp peer 0 1), .cmd (.send none 7), .deadline,
    .cmd (.received peer (.ack (Broker.msgIdOf (List.Vector.replicate 8 0) 1))), .deadline,
    .cmd (.connectionDown peer)]

/-- A clock that is read every five seconds. -/
def slowHand : ℕ →o ℕ := ⟨fun n => 5000 * n, fun _ _ h => Nat.mul_le_mul_left 5000 h⟩

theorem resentInputs_refines :
    let salt : List.Vector UInt8 8 := List.Vector.replicate 8 0
    let start : AsyncBroker ℕ ℕ := AsyncBroker.new .roundRobin .atLeastOnce salt
    let a := start.run slowHand resentInputs
    issued a.2 = [Broker.msgIdOf salt 0, Broker.msgIdOf salt 1] ∧ a.1.deadlines = [] ∧
      (∃ w, SyncRun (World.new .roundRobin .atLeastOnce salt) (commands resentInputs) w ∧
        w.broker = a.1.toBroker ∧ w.effects.filter Effect.visible = a.2) ∧
      Broker.msgIdOf salt 0 ∉ a.1.pending ∧ Broker.msgIdOf salt 1 ∉ a.1.pending := by
  intro salt start a
  have hissued : issued a.2 = [Broker.msgIdOf salt 0, Broker.msgIdOf salt 1] := by decide +kernel
  have hcount : (issued a.2).length < 2 ^ 64 := by
    rw [hissued]
    decide
  obtain ⟨w, hrun, -, hbroker, heffects, -, hstale⟩ :=
    async_refines_sync .roundRobin .atLeastOnce salt slowHand resentInputs
  refine ⟨hissued, by decide +kernel, ⟨w, hrun, hbroker, heffects⟩, ?_, ?_⟩
  · exact hstale (resentInputs.take 3) (resentInputs.drop 3) _ rfl hcount
      (by decide) (by decide +kernel)
  · exact hstale (resentInputs.take 4) (resentInputs.drop 4) _ rfl hcount
      (by decide +kernel) (by decide +kernel)

end Aiomsg
