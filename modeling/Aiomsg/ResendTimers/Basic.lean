import Aiomsg.Broker.Ids
import Aiomsg.Lib.System
import Mathlib.Data.Finset.Insert
import Mathlib.Data.Finset.Erase

/-!
# The broker and its resend timer

`rust-lib-sync/src/broker.rs` runs two threads: the broker, and `timer_loop`, which turns each armed
message id into a `ResendTimeout` command after five seconds unless it is cancelled before. They
share nothing but two channels. The broker sends `Arm` and `Cancel` to the timer; the timer sends
`ResendTimeout` to the broker, into the same channel as everybody else's commands.

`timer_loop` is cut at the points where the other thread can be seen to run: when it takes a message
or stops waiting for one, when it reads the clock, and at each deadline it takes off the queue. The
clock is a number that does not go back.

After `Close` the broker is dropped, and its timer thread with it; there are no further steps.

## Scope

Only messages that are sent with an acknowledgement are posted (`FromOutside`), since the others
leave no trace in either thread. Steps are allowed more than the code does where this costs nothing:
a wait may time out early, and the clock may jump. A property of all runs is then one of the code's
runs.

The ghosts of `World` (`effects`, `accepted`, `discharged`, `gaveUp`) are read by no step.

## Main definitions

* `Timer` — the locals of `timer_loop`, and where it stands
* `World`, `Step`, `system` — both threads, both channels, and the clock
* `World.accepted`, `discharged`, `gaveUp` — what has become of messages so far
-/

namespace Aiomsg

namespace ResendTimers

variable {C D : Type}

/-- Milliseconds. -/
def resendTimeout : ℕ := 5000

/-- Messages the broker's single resend-timer thread accepts. The third, `Shutdown`, is sent when
the broker is dropped. -/
inductive TimerMsg where
  | arm (msgId : MsgId)
  | cancel (msgId : MsgId)
deriving DecidableEq

/-- Where `timer_loop` stands. -/
inductive Phase where
  /-- In `recv` or `recv_timeout`. -/
  | waiting
  /-- Before it reads the clock. -/
  | handled
  /-- In the loop that fires what is due, with the time it read. -/
  | firing (now : ℕ)

/-- The locals of `timer_loop`, and where it stands. An id may be in `deadlines` and not in `armed`:
that is what a `Cancel` leaves behind. -/
structure Timer where
  deadlines : List (ℕ × MsgId)
  armed : Finset MsgId
  phase : Phase

/-- Handle a message. -/
def Timer.receive (t : Timer) (now : ℕ) : TimerMsg → Timer
  | .arm msgId =>
    { deadlines := t.deadlines ++ [(now + resendTimeout, msgId)]
      armed := insert msgId t.armed
      phase := .handled }
  | .cancel msgId => { t with armed := t.armed.erase msgId, phase := .handled }

/-- Both threads, both channels and the clock. Channels are queues without bound, as those of
`std::sync::mpsc` are. -/
structure World (C D : Type) where
  broker : Broker C D
  closed : Bool
  /-- The command channel. -/
  cmds : List (Command C D)
  /-- The timer's channel. -/
  toTimer : List TimerMsg
  timer : Timer
  now : ℕ
  /-- Everything the broker has done so far. -/
  effects : List (Effect C D)
  /-- The messages of the `Send`s processed so far. -/
  accepted : List (Option Identity × D)
  /-- The entries taken out of `pending` because of an ACK for their id. -/
  discharged : List (Pending D)
  /-- The entries taken out of `pending` because they had no retries left. -/
  gaveUp : List (Pending D)

/-- The message on the timer's channel that an effect is. -/
def timerMsg : Effect C D → Option TimerMsg
  | .arm msgId => some (.arm msgId)
  | .cancel msgId => some (.cancel msgId)
  | _ => none

/-- The entry an ACK takes out of `pending`. -/
def discharges (b : Broker C D) : Command C D → Option (Pending D)
  | .received _ (.ack msgId) => b.pending.lookup msgId
  | _ => none

/-- The entry `handle_resend` gives up. -/
def givesUp (b : Broker C D) : Command C D → Option (Pending D)
  | .resendTimeout msgId => (b.pending.lookup msgId).filter fun p => p.retries = 0
  | _ => none

namespace World

/-- What the broker did reaches the channels. -/
def emit (w : World C D) (r : Broker C D × List (Effect C D)) : World C D :=
  { w with
    broker := r.1
    toTimer := w.toTimer ++ r.2.filterMap timerMsg
    effects := w.effects ++ r.2 }

/-- The broker takes a command off its channel. -/
def take (w : World C D) (cmd : Command C D) (rest : List (Command C D)) : World C D :=
  { w with
    closed := cmd.isClose
    cmds := rest
    accepted := w.accepted ++ cmd.send?.toList
    discharged := w.discharged ++ (discharges w.broker cmd).toList
    gaveUp := w.gaveUp ++ (givesUp w.broker cmd).toList }

/-- The broker processes a command. -/
def process (w : World C D) (cmd : Command C D) (rest : List (Command C D)) : World C D :=
  (w.take cmd rest).emit (w.broker.step cmd)

end World

/-- A command that comes from outside: anything but a timeout, and only messages that are sent with
an acknowledgement. -/
def FromOutside (b : Broker C D) : Command C D → Prop
  | .send identity _ => b.atLeastOnce identity = true
  | .resendTimeout _ => False
  | _ => True

inductive Step (w : World C D) : World C D → Prop
  | post {cmd : Command C D} (h : FromOutside w.broker cmd) :
      Step w { w with cmds := w.cmds ++ [cmd] }
  | process {cmd : Command C D} {rest : List (Command C D)} (hcmds : w.cmds = cmd :: rest) :
      Step w (w.process cmd rest)
  | tick {later : ℕ} (h : w.now ≤ later) : Step w { w with now := later }
  /-- `recv` or `recv_timeout` returns a message. -/
  | receive {msg : TimerMsg} {rest : List TimerMsg} (hphase : w.timer.phase = .waiting)
      (hmsg : w.toTimer = msg :: rest) :
      Step w { w with toTimer := rest, timer := w.timer.receive w.now msg }
  /-- `recv_timeout` gives up. It may do so at any time here, which only adds runs. -/
  | timeout (hphase : w.timer.phase = .waiting) (hdeadlines : w.timer.deadlines ≠ []) :
      Step w { w with timer := { w.timer with phase := .handled } }
  | readClock (hphase : w.timer.phase = .handled) :
      Step w { w with timer := { w.timer with phase := .firing w.now } }
  /-- The front deadline is due and its id is still armed. -/
  | fire {now deadline : ℕ} {msgId : MsgId} {rest : List (ℕ × MsgId)}
      (hphase : w.timer.phase = .firing now)
      (hfront : w.timer.deadlines = (deadline, msgId) :: rest)
      (hdue : deadline ≤ now) (harmed : msgId ∈ w.timer.armed) :
      Step w { w with
        cmds := w.cmds ++ [.resendTimeout msgId]
        timer := { w.timer with deadlines := rest, armed := w.timer.armed.erase msgId } }
  /-- The front deadline is due and its id was cancelled. -/
  | skip {now deadline : ℕ} {msgId : MsgId} {rest : List (ℕ × MsgId)}
      (hphase : w.timer.phase = .firing now)
      (hfront : w.timer.deadlines = (deadline, msgId) :: rest)
      (hdue : deadline ≤ now) (harmed : msgId ∉ w.timer.armed) :
      Step w { w with timer := { w.timer with deadlines := rest } }
  /-- No deadline is due any more. -/
  | wait {now : ℕ} (hphase : w.timer.phase = .firing now)
      (hdue : ∀ deadline msgId, w.timer.deadlines.head? = some (deadline, msgId) → now < deadline) :
      Step w { w with timer := { w.timer with phase := .waiting } }

/-- A new broker and a new timer thread. -/
def World.start (sendMode : SendMode) (salt : List.Vector UInt8 8) : World C D where
  broker := .new sendMode .atLeastOnce salt
  closed := false
  cmds := []
  toTimer := []
  timer := ⟨[], ∅, .waiting⟩
  now := 0
  effects := []
  accepted := []
  discharged := []
  gaveUp := []

/-- A broker with `AtLeastOnce` delivery and its timer thread. -/
def system (C D : Type) (sendMode : SendMode) (salt : List.Vector UInt8 8) :
    System (World C D) where
  init w := w = .start sendMode salt
  step w w' := w.closed = false ∧ Step w w'

end ResendTimers

end Aiomsg
