import Aiomsg.ResendTimers.Basic
import Mathlib.Order.Hom.Basic

/-!
# The asynchronous broker

`rust-lib-async/src/broker.rs`. It has no timer thread. Each transmission that asks for an
acknowledgement puts its deadline at the end of a queue that belongs to the broker; an ACK takes the
message out of `pending` and leaves its deadline where it is; and when the first deadline has
passed, `fire_due_resends` takes deadlines off the front and skips those whose message is gone.

What the two brokers have in common has the same text in both sources, and is the synchronous
broker's here: `AsyncBroker` extends `Broker`. What calls `Instant::now()`, what `handle_received`
does with an ACK, and what fires has a body of its own.

A clock is the sequence of its readings, which does not go back; `readings` says how often it has
been read.

## Scope

`select!` is a choice, and the choice is an input: a run is a list of commands and of deadlines that
were found ready, in any order. That `deadline` occurs only when the first deadline has passed is
not demanded, and need not be, as `fire_due_resends` looks at the clock itself.

A clock that goes back is excluded by `Instant`. Nothing else is assumed of it: it may stand still,
and it may jump.

## Main definitions

* `AsyncBroker.transmit`, `handleSend`, `handleUp`, `handleReceived`, `fireResend`
* `AsyncBroker.fireDueResends` — the loop over the deadlines that have passed
* `AsyncBroker.step`, `AsyncBroker.run` — the two branches of `select!`

## Main results

* `Mirrors` — a handler does what its synchronous counterpart does, and queues the deadlines which
  that one arms
-/

namespace Aiomsg

open ResendTimers (resendTimeout)

variable {C D : Type}

/-- Messages the asynchronous broker processes. Timeouts are not among them. -/
inductive AsyncCommand (C D : Type) where
  | send (identity : Option Identity) (data : D)
  | connectionUp (identity : Identity) (writer accept : C)
  | connectionDown (identity : Identity)
  | received (identity : Identity) (envelope : Envelope D)
  | close

/-- The same command to the synchronous broker. -/
def AsyncCommand.toCommand : AsyncCommand C D → Command C D
  | .send identity data => .send identity data
  | .connectionUp identity writer accept => .connectionUp identity writer accept
  | .connectionDown identity => .connectionDown identity
  | .received identity envelope => .received identity envelope
  | .close => .close

/-- What `select!` finds ready: a command, or the first deadline. Which of the two is taken if both
are ready is open. -/
inductive AsyncInput (C D : Type) where
  | cmd (cmd : AsyncCommand C D)
  | deadline

structure AsyncBroker (C D : Type) extends Broker C D where
  /-- Resend deadlines in fire order. -/
  deadlines : List (ℕ × MsgId)
  /-- How often the clock has been read. -/
  readings : ℕ

namespace AsyncBroker

def new (sendMode : SendMode) (delivery : DeliveryGuarantee) (salt : List.Vector UInt8 8) :
    AsyncBroker C D where
  toBroker := .new sendMode delivery salt
  deadlines := []
  readings := 0

section Handlers

variable (clock : ℕ →o ℕ)

/-- `Instant::now()`. -/
def instantNow (a : AsyncBroker C D) : ℕ × AsyncBroker C D :=
  (clock a.readings, { a with readings := a.readings + 1 })

def route (a : AsyncBroker C D) (target : Option Identity) (frame : Envelope D) :
    AsyncBroker C D × List (Effect C D) :=
  let routed := a.toBroker.route target frame
  ({ a with toBroker := routed.1 }, routed.2)

def transmit (a : AsyncBroker C D) (identity : Option Identity) (data : D) (retries : ℕ) :
    AsyncBroker C D × List (Effect C D) :=
  if a.atLeastOnce identity then
    let msgId := a.nextMsgId.1
    let a₁ := { a with toBroker := a.nextMsgId.2 }
    let now := (a₁.instantNow clock).1
    let a₂ := (a₁.instantNow clock).2
    let a₃ := { a₂ with
      deadlines := a₂.deadlines ++ [(now + resendTimeout, msgId)]
      pending := a₂.pending.insert msgId ⟨identity, data, retries⟩ }
    let routed := a₃.route identity (.dataReq msgId data)
    (routed.1, .transmit (some msgId) ⟨identity, data, retries⟩ :: routed.2)
  else
    let routed := a.route identity (.data data)
    (routed.1, .transmit none ⟨identity, data, retries⟩ :: routed.2)

def handleSend (a : AsyncBroker C D) (identity : Option Identity) (data : D) :
    AsyncBroker C D × List (Effect C D) :=
  if a.conns.entries.isEmpty then ({ a with buffer := a.buffer ++ [(identity, data)] }, [])
  else a.transmit clock identity data maxRetries

/-- `for (id, data) in buffered { self.handle_send(id, data); }` -/
def sendAll (a : AsyncBroker C D) :
    List (Option Identity × D) → AsyncBroker C D × List (Effect C D)
  | [] => (a, [])
  | (identity, data) :: rest =>
    let sent := a.handleSend clock identity data
    ((sent.1.sendAll rest).1, sent.2 ++ (sent.1.sendAll rest).2)

def handleUp (a : AsyncBroker C D) (identity : Identity) (writer accept : C) :
    AsyncBroker C D × List (Effect C D) :=
  if (a.conns.lookup identity).isSome then (a, [.accept accept false])
  else
    let a₁ := { a with conns := a.conns.insert identity writer, order := a.order ++ [identity] }
    let flushed := { a₁ with buffer := [] }.sendAll clock a₁.buffer
    (flushed.1, .accept accept true :: flushed.2)

def handleDown (a : AsyncBroker C D) (identity : Identity) : AsyncBroker C D :=
  { a with toBroker := a.toBroker.handleDown identity }

def handleReceived (a : AsyncBroker C D) (identity : Identity) (envelope : Envelope D) :
    AsyncBroker C D × List (Effect C D) :=
  match envelope with
  | .data payload => (a, [.recv identity payload])
  | .dataReq msgId payload =>
    let routed := a.route (some identity) (.ack msgId)
    (routed.1, .recv identity payload :: routed.2)
  -- Just drop the bookkeeping; the matching deadline is skipped as stale.
  | .ack msgId => ({ a with pending := a.pending.erase msgId }, [])
  | .hello _ _ => (a, [])
  | .heartbeat => (a, [])

def fireResend (a : AsyncBroker C D) (msgId : MsgId) : AsyncBroker C D × List (Effect C D) :=
  match a.pending.lookup msgId with
  -- Absent means the ACK already arrived, or a previous retry superseded this id.
  | none => (a, [])
  | some pending =>
    let a₁ := { a with pending := a.pending.erase msgId }
    if pending.retries = 0 then (a₁, [])
    else if a₁.conns.entries.isEmpty then
      ({ a₁ with buffer := a₁.buffer ++ [(pending.identity, pending.data)] }, [])
    else a₁.transmit clock pending.identity pending.data (pending.retries - 1)

end Handlers

end AsyncBroker

/-- What is seen of an effect outside the broker and its timer. -/
def Effect.visible : Effect C D → Bool
  | .arm _ | .cancel _ => false
  | _ => true

namespace AsyncBroker

variable (clock : ℕ →o ℕ)

/-- The outcome `r` of a handler on `a` is the outcome `s` of the synchronous one: the same state,
the same effects, and at the end of the queue a deadline for each id that one arms.

The effects differ by `Arm` and `Cancel`, which the asynchronous broker has nobody to send to. -/
structure Mirrors (a : AsyncBroker C D) (r : AsyncBroker C D × List (Effect C D))
    (s : Broker C D × List (Effect C D)) : Prop where
  broker : r.1.toBroker = s.1
  effects : r.2 = s.2.filter Effect.visible
  readings : a.readings ≤ r.1.readings
  deadlines : ∃ new : List (ℕ × MsgId), r.1.deadlines = a.deadlines ++ new ∧
    new.map Prod.snd = arms s.2 ∧ ∀ e ∈ new, clock a.readings + resendTimeout ≤ e.1


section Mirrors

variable {clock}

/-- A handler that arms nothing. -/
theorem Mirrors.of_eq {a a' : AsyncBroker C D} {es : List (Effect C D)}
    {s : Broker C D × List (Effect C D)} (hbroker : a'.toBroker = s.1)
    (heffects : es = s.2.filter Effect.visible) (hdeadlines : a'.deadlines = a.deadlines)
    (hreadings : a'.readings = a.readings) (harms : arms s.2 = []) :
    Mirrors clock a (a', es) s :=
  ⟨hbroker, heffects, hreadings.ge, [], by rw [hdeadlines, List.append_nil],
    by rw [harms, List.map_nil], fun _ h => absurd h List.not_mem_nil⟩

theorem Mirrors.trans {a : AsyncBroker C D} {r r' : AsyncBroker C D × List (Effect C D)}
    {s s' : Broker C D × List (Effect C D)} (h : Mirrors clock a r s)
    (h' : Mirrors clock r.1 r' s') : Mirrors clock a (r'.1, r.2 ++ r'.2) (s'.1, s.2 ++ s'.2) := by
  obtain ⟨new, hnew, hids, hlate⟩ := h.deadlines
  obtain ⟨new', hnew', hids', hlate'⟩ := h'.deadlines
  refine ⟨h'.broker, ?_, h.readings.trans h'.readings, new ++ new', ?_, ?_, ?_⟩
  · rw [h.effects, h'.effects, List.filter_append]
  · rw [hnew', hnew, List.append_assoc]
  · rw [List.map_append, hids, hids', arms_append]
  · intro e he
    rcases List.mem_append.mp he with he | he
    · exact hlate e he
    · exact (Nat.add_le_add_right (clock.monotone h.readings) _).trans (hlate' e he)

end Mirrors

theorem visible_route (b : Broker C D) (target : Option Identity) (frame : Envelope D) :
    (b.route target frame).2.filter Effect.visible = (b.route target frame).2 := by
  refine List.filter_eq_self.mpr fun e he => ?_
  obtain ⟨w, f, rfl⟩ := Broker.frames_of_route b target frame e he
  rfl

/-- **A transmission** is the synchronous one; the id that one arms gets a deadline. -/
theorem mirrors_transmit (a : AsyncBroker C D) (identity : Option Identity) (data : D)
    (retries : ℕ) :
    Mirrors clock a (a.transmit clock identity data retries)
      (a.toBroker.transmit identity data retries) := by
  cases hack : a.atLeastOnce identity with
  | true =>
    rw [transmit, if_pos hack, Broker.transmit_of_atLeastOnce data retries hack]
    refine ⟨rfl, ?_, Nat.le_succ _,
      [(clock a.readings + resendTimeout, Broker.msgIdOf a.salt a.nextId)], rfl, ?_, ?_⟩
    · have hroute := visible_route (a.enter ⟨identity, data, retries⟩) identity
        (.dataReq (Broker.msgIdOf a.salt a.nextId) data)
      exact congrArg (Effect.transmit (some (Broker.msgIdOf a.salt a.nextId))
        ⟨identity, data, retries⟩ :: ·) hroute.symm
    · show [_] = _ :: arms (Broker.route _ _ _).2
      rw [Broker.arms_route]
    · intro e he
      rw [List.mem_singleton.mp he]
  | false =>
    rw [transmit, hack, Broker.transmit_of_atMostOnce data retries hack]
    refine .of_eq rfl ?_ rfl rfl (Broker.arms_route _ _ _)
    exact congrArg _ (visible_route a.toBroker identity _).symm

theorem mirrors_handleSend (a : AsyncBroker C D) (identity : Option Identity) (data : D) :
    Mirrors clock a (a.handleSend clock identity data) (a.toBroker.handleSend identity data) := by
  rw [handleSend, Broker.handleSend]
  split_ifs
  · exact .of_eq rfl rfl rfl rfl rfl
  · exact mirrors_transmit clock a identity data maxRetries

theorem mirrors_sendAll (a : AsyncBroker C D) (msgs : List (Option Identity × D)) :
    Mirrors clock a (a.sendAll clock msgs) (a.toBroker.sendAll msgs) := by
  induction msgs generalizing a with
  | nil => exact .of_eq rfl rfl rfl rfl rfl
  | cons msg rest ih =>
    obtain ⟨identity, data⟩ := msg
    have hsend := mirrors_handleSend clock a identity data
    have hrest := ih (a.handleSend clock identity data).1
    rw [hsend.broker] at hrest
    exact hsend.trans hrest

theorem mirrors_handleUp (a : AsyncBroker C D) (identity : Identity) (writer accept : C) :
    Mirrors clock a (a.handleUp clock identity writer accept)
      (a.toBroker.handleUp identity writer accept) := by
  rw [handleUp, Broker.handleUp]
  split_ifs
  · exact .of_eq rfl rfl rfl rfl rfl
  · let a₁ : AsyncBroker C D :=
      { a with
        conns := a.conns.insert identity writer
        order := a.order ++ [identity]
        buffer := [] }
    have hflush := mirrors_sendAll clock a₁ a.buffer
    exact ⟨hflush.broker, congrArg (Effect.accept accept true :: ·) hflush.effects,
      hflush.readings, hflush.deadlines⟩

theorem mirrors_handleReceived (a : AsyncBroker C D) (identity : Identity)
    (envelope : Envelope D) :
    Mirrors clock a (a.handleReceived identity envelope)
      (a.toBroker.handleReceived identity envelope) := by
  cases envelope with
  | data payload => exact .of_eq rfl rfl rfl rfl rfl
  | dataReq msgId payload =>
    refine .of_eq rfl ?_ rfl rfl (Broker.arms_route a.toBroker (some identity) (.ack msgId))
    exact congrArg _ (visible_route a.toBroker (some identity) _).symm
  | ack msgId =>
    cases h : a.pending.lookup msgId with
    | none =>
      have hkeys : msgId ∉ a.pending.entries.keys := AList.lookup_eq_none.mp h
      have herase : a.pending.erase msgId = a.pending :=
        AList.ext (List.kerase_of_notMem_keys hkeys)
      rw [Broker.handleReceived_ack_of_none h]
      refine .of_eq ?_ rfl rfl rfl rfl
      show ({ a.toBroker with pending := a.pending.erase msgId } : Broker C D) = a.toBroker
      rw [herase]
    | some p =>
      rw [Broker.handleReceived_ack_of_some h]
      exact .of_eq rfl rfl rfl rfl rfl
  | hello => exact .of_eq rfl rfl rfl rfl rfl
  | heartbeat => exact .of_eq rfl rfl rfl rfl rfl

/-- **A deadline** does what the synchronous broker does with a timeout. -/
theorem mirrors_fireResend (a : AsyncBroker C D) (msgId : MsgId) :
    Mirrors clock a (a.fireResend clock msgId) (a.toBroker.handleResend msgId) := by
  cases h : a.pending.lookup msgId with
  | none =>
    rw [fireResend, h, Broker.handleResend_of_none h]
    exact .of_eq rfl rfl rfl rfl rfl
  | some p =>
    rw [fireResend, h, Broker.handleResend_of_some h]
    dsimp only
    split_ifs
    · exact .of_eq rfl rfl rfl rfl rfl
    · exact .of_eq rfl rfl rfl rfl rfl
    · let a₁ : AsyncBroker C D := { a with pending := a.pending.erase msgId }
      have hsend := mirrors_transmit clock a₁ p.identity p.data (p.retries - 1)
      exact ⟨hsend.broker, hsend.effects, hsend.readings, hsend.deadlines⟩

/-! ### The loop over the deadlines -/

/-- How many deadlines have passed. -/
def dueCount (a : AsyncBroker C D) (now : ℕ) : ℕ := a.deadlines.countP fun e => e.1 ≤ now

theorem le_fireResend (a : AsyncBroker C D) (msgId : MsgId) :
    clock a.readings ≤ clock (a.fireResend clock msgId).1.readings :=
  clock.monotone (mirrors_fireResend clock a msgId).readings

/-- Firing a deadline queues no deadline that has passed. -/
theorem dueCount_fireResend {a : AsyncBroker C D} {now : ℕ} (h : now ≤ clock a.readings)
    (msgId : MsgId) : (a.fireResend clock msgId).1.dueCount now = a.dueCount now := by
  obtain ⟨new, hnew, -, hlate⟩ := (mirrors_fireResend clock a msgId).deadlines
  have hnone : new.countP (fun e => e.1 ≤ now) = 0 := by
    refine List.countP_eq_zero.mpr fun e he => ?_
    have hpos : 0 < resendTimeout := by decide
    have hlate' := hlate e he
    rw [decide_eq_true_iff]
    omega
  rw [dueCount, dueCount, hnew, List.countP_append, hnone, Nat.add_zero]

/-- The `while let` of `fire_due_resends`, with the time it read. The clock has not gone back since:
what is queued here is not due yet, and the loop ends. -/
def fireDue (a : AsyncBroker C D) (now : ℕ) (h : now ≤ clock a.readings) :
    AsyncBroker C D × List (Effect C D) :=
  match _hdeadlines : a.deadlines with
  | [] => (a, [])
  | (deadline, msgId) :: rest =>
    if _hdue : now < deadline then (a, [])
    else
      let popped := { a with deadlines := rest }
      let fired := popped.fireResend clock msgId
      have hlater := h.trans (le_fireResend clock popped msgId)
      ((fired.1.fireDue now hlater).1, fired.2 ++ (fired.1.fireDue now hlater).2)
termination_by a.dueCount now
decreasing_by
  all_goals
  have hcount := dueCount_fireResend clock (a := { a with deadlines := rest }) h msgId
  rw [hcount, dueCount, dueCount, _hdeadlines, List.countP_cons, if_pos (by simpa using _hdue)]
  exact Nat.lt_succ_self _

theorem le_instantNow (a : AsyncBroker C D) :
    (a.instantNow clock).1 ≤ clock (a.instantNow clock).2.readings :=
  clock.monotone (Nat.le_succ _)

/-- Pop and process every deadline that has already passed. -/
def fireDueResends (a : AsyncBroker C D) : AsyncBroker C D × List (Effect C D) :=
  (a.instantNow clock).2.fireDue clock (a.instantNow clock).1 (le_instantNow clock a)

/-! ### The run loop -/

/-- The handler of a command. -/
def handle (a : AsyncBroker C D) : AsyncCommand C D → AsyncBroker C D × List (Effect C D)
  | .send identity data => a.handleSend clock identity data
  | .connectionUp identity writer accept => a.handleUp clock identity writer accept
  | .connectionDown identity => (a.handleDown identity, [])
  | .received identity envelope => a.handleReceived identity envelope
  | .close => (a, [])

/-- One turn of `select!`. -/
def step (a : AsyncBroker C D) : AsyncInput C D → AsyncBroker C D × List (Effect C D)
  | .cmd cmd => a.handle clock cmd
  | .deadline => a.fireDueResends clock

/-- The run loop, up to the first `Close`. -/
def run (a : AsyncBroker C D) : List (AsyncInput C D) → AsyncBroker C D × List (Effect C D)
  | [] => (a, [])
  | .cmd .close :: _ => (a, [])
  | input :: inputs =>
    (((a.step clock input).1.run inputs).1,
      (a.step clock input).2 ++ ((a.step clock input).1.run inputs).2)

theorem mirrors_handle (a : AsyncBroker C D) (cmd : AsyncCommand C D) :
    Mirrors clock a (a.handle clock cmd) (a.toBroker.step cmd.toCommand) := by
  cases cmd with
  | send identity data => exact mirrors_handleSend clock a identity data
  | connectionUp identity writer accept => exact mirrors_handleUp clock a identity writer accept
  | connectionDown identity => exact .of_eq rfl rfl rfl rfl rfl
  | received identity envelope => exact mirrors_handleReceived clock a identity envelope
  | close => exact .of_eq rfl rfl rfl rfl rfl

theorem run_cons {input : AsyncInput C D} (h : input ≠ .cmd .close) (a : AsyncBroker C D)
    (inputs : List (AsyncInput C D)) :
    a.run clock (input :: inputs)
      = (((a.step clock input).1.run clock inputs).1,
          (a.step clock input).2 ++ ((a.step clock input).1.run clock inputs).2) := by
  rw [run]
  exact h

/-! ### What holds of synchronous steps -/

section Steps

variable {R : Broker C D → Broker C D → List (Effect C D) → Prop}
  (hrefl : ∀ b, R b b [])
  (htrans : ∀ {b b' b'' es es'}, R b b' es → R b' b'' es' → R b b'' (es ++ es'))
  (hstep : ∀ b cmd, R b (b.step cmd).1 ((b.step cmd).2.filter Effect.visible))

include hstep in
theorem Mirrors.of_step {clock : ℕ →o ℕ} {a : AsyncBroker C D} {cmd : Command C D}
    {r : AsyncBroker C D × List (Effect C D)} (h : Mirrors clock a r (a.toBroker.step cmd)) :
    R a.toBroker r.1.toBroker r.2 := by
  rw [h.broker, h.effects]
  exact hstep a.toBroker cmd

include hrefl htrans hstep

theorem fireDue_of_steps (a : AsyncBroker C D) {now : ℕ} (hnow : now ≤ clock a.readings) :
    R a.toBroker (a.fireDue clock now hnow).1.toBroker (a.fireDue clock now hnow).2 := by
  fun_induction AsyncBroker.fireDue clock a now hnow with
  | case1 a hnow hnone => exact hrefl _
  | case2 a hnow deadline msgId rest hfront hdue => exact hrefl _
  | case3 a hnow deadline msgId rest hfront hdue popped fired hlater =>
    rename_i ih
    have hmirrors : Mirrors clock popped fired (popped.toBroker.step (.resendTimeout msgId)) :=
      mirrors_fireResend clock popped msgId
    exact htrans (hmirrors.of_step hstep) ih

theorem step_of_steps (a : AsyncBroker C D) (input : AsyncInput C D) :
    R a.toBroker (a.step clock input).1.toBroker (a.step clock input).2 := by
  cases input with
  | cmd cmd => exact (mirrors_handle clock a cmd).of_step hstep
  | deadline =>
    exact fireDue_of_steps clock hrefl htrans hstep (a.instantNow clock).2 (le_instantNow clock a)

/-- **What holds of synchronous steps holds of asynchronous runs**, if it holds of nothing
happening and of one thing after another. -/
theorem run_of_steps (a : AsyncBroker C D) (inputs : List (AsyncInput C D)) :
    R a.toBroker (a.run clock inputs).1.toBroker (a.run clock inputs).2 := by
  induction inputs generalizing a with
  | nil => exact hrefl _
  | cons input inputs ih =>
    by_cases hclose : input = .cmd .close
    · subst hclose
      exact hrefl _
    · rw [run_cons clock hclose]
      exact htrans (step_of_steps clock hrefl htrans hstep a input) (ih _)

end Steps

end AsyncBroker

end Aiomsg
