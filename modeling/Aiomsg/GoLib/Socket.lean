import Aiomsg.GoLib.Broker
import Aiomsg.Lib.Chan

/-!
# The Go socket

The broker of `golang-lib/broker.go` together with the goroutines of `golang-lib/conn.go` and the
resend timers, as a machine whose actions are the steps of these goroutines. A run is a list of
actions, so it is an interleaving.

## What a step is

* The broker's loop takes a command only when the handler of the one before is through. Its channel
  is unbuffered, so taking a command is a step of the goroutine that sends it as well. After that
  the handler's channel operations are left to be done, and each is a step (`op`).
* A connection goroutine runs `handleConnection` from the end of the handshake. It offers itself to
  the broker, waits for the answer, starts the writer, reads, and leaves. Each of these is a step,
  and so is each turn of the writer's `select` and each return of `writeFrame`.
* At a `select` of which several cases are ready any of them may be taken.

A send on a closed channel panics, and so does closing it again. Neither is a step here.

## Scope

What happens on the wire is not here. The handshake of a connection is one step that says which
identity the peer gave, a frame that the reader passes on is one action, and `writeFrame` is two
steps, the second of which says whether it failed. `acceptLoop` and `connectLoop` are not here
either: connections are numbered, all of them exist from the start, and one that was never dialled
or accepted is one that does no step.

Time is left to the schedule. A resend timer may go off at any moment after it was started, and so
may the writer's heartbeat timer; nothing that is said of this machine depends on `resendTimeout` or
`heartbeatInterval`. The reader's deadline is one of the reasons for `readerEnds`.

Channels that carry no data are flags: `connCancelled` is the connection's context, `done` the
socket's, `cancelled` the cancel channel of a resend. The accept channel has one slot, and is an
`Option`.

## Main definitions

* `Conn`, `Socket` — the state
* `ConnAction`, `Conn.step` — the steps of one connection by itself
* `Action`, `Socket.step`, `machine` — the steps of the socket

## Main results

* `Conn.takes_step` — by itself a connection only takes from its channels
* `Socket.step_cases` — the steps by what they change
* `Socket.performs` — a channel operation leaves the other connections alone
-/

namespace Aiomsg

namespace GoLib

/-- Where `handleConnection` stands. Each value is a place at which the goroutine may be held up, or
at which another goroutine may come between: that is why `accepted` and `running` are two, since the
writer is started by a statement of its own behind the receive from `accept`. -/
inductive Phase where
  | handshake
  /-- At the `select` that sends `cmdConnUp`. -/
  | registering
  /-- At the `select` that receives from `accept`. -/
  | awaiting
  /-- `accepted` is true, and the writer is not started yet. -/
  | accepted
  /-- In `runReader`. -/
  | running
  /-- At the `select` that sends `cmdConnDown`. -/
  | leaving
  /-- In `wg.Wait`, after `connCancel`. -/
  | waiting
  | ended
deriving DecidableEq

/-- Where `runWriter` stands. While it is in `writeFrame` it holds the envelope that it has taken
off the channel, so the envelope is neither on the channel nor lost. -/
inductive Writer (D : Type) where
  | unstarted
  /-- At the `select`. -/
  | selecting
  /-- In `writeFrame`. -/
  | writing (env : Envelope D)
  | returned

/-- A connection goroutine, its channels and its writer. `connCancelled` says whether `connCancel`
has been called.

The two channels are the broker's ends as well: `accept` and `writerCh` are made by the goroutine
and sent along in `cmdConnUp`, and from then on the broker sends on both and closes the second. A
connection that the broker has not heard of has them as they were made, which is `Fresh`. -/
structure Conn (D : Type) where
  identity : Identity
  phase : Phase
  accept : Option Bool
  writerCh : Chan (Envelope D) writerBuffer
  closed : Bool
  writer : Writer D
  connCancelled : Bool

/-- The steps of a connection by itself. -/
inductive ConnAction where
  /-- The peer's HELLO has been read. -/
  | handshake (peerId : Identity)
  /-- A `select` before the writer is started takes `<-s.ctx.Done()`. -/
  | giveUp
  | readAccept
  | startWriter
  /-- The writer receives from its channel. -/
  | take
  /-- The writer's timer goes off. -/
  | heartbeat
  | wrote
  | writeFails
  /-- The writer's context is done, or its channel is closed and empty. -/
  | writerStops
  | readerEnds
  /-- The `select` that sends `cmdConnDown` takes `<-s.ctx.Done()`, and `connCancel` is called. -/
  | leave
  | wgWait

/-- What a step does to the channel of the connection's writer. -/
def ConnAction.taken {T : Type} : ConnAction → Option (Chan.Op T)
  | .take => some .take
  | _ => none

namespace Conn

variable {D : Type}

def new : Conn D where
  identity := List.Vector.replicate 16 0
  phase := .handshake
  accept := none
  writerCh := .new _ _
  closed := false
  writer := .unstarted
  connCancelled := false

/-- `done` is whether the socket's context is. -/
def step (done : Bool) (c : Conn D) : ConnAction → Option (Conn D)
  | .handshake peerId =>
    if c.phase = .handshake then some { c with identity := peerId, phase := .registering } else none
  | .giveUp =>
    if done ∧ (c.phase = .registering ∨ c.phase = .awaiting) then some { c with phase := .ended }
    else none
  | .readAccept =>
    match c.phase, c.accept with
    | .awaiting, some ok =>
      some { c with accept := none, phase := if ok then .accepted else .ended }
    | _, _ => none
  | .startWriter =>
    if c.phase = .accepted then some { c with phase := .running, writer := .selecting } else none
  | .take =>
    match c.writer, c.writerCh.take with
    | .selecting, some (env, rest) => some { c with writerCh := rest, writer := .writing env }
    | _, _ => none
  | .heartbeat =>
    match c.writer with
    | .selecting => some { c with writer := .writing .heartbeat }
    | _ => none
  | .wrote =>
    match c.writer with
    | .writing _ => some { c with writer := .selecting }
    | _ => none
  | .writeFails =>
    match c.writer with
    | .writing _ => some { c with writer := .returned }
    | _ => none
  | .writerStops =>
    match c.writer with
    | .selecting =>
      if done ∨ c.connCancelled ∨ c.closed ∧ c.writerCh.queue.isEmpty then
        some { c with writer := .returned }
      else none
    | _ => none
  | .readerEnds => if c.phase = .running then some { c with phase := .leaving } else none
  | .leave =>
    if done ∧ c.phase = .leaving then some { c with phase := .waiting, connCancelled := true }
    else none
  | .wgWait =>
    match c.phase, c.writer with
    | .waiting, .returned => some { c with phase := .ended }
    | _, _ => none

/-! ### What a step of a connection does to its channels -/

/-- The connection has been at the `select` that sends `cmdConnUp`. -/
def Known (c : Conn D) : Prop := c.phase ≠ .handshake ∧ c.phase ≠ .registering

/-- Nothing has been done to the connection's channels. -/
structure Fresh (c : Conn D) : Prop where
  accept : c.accept = none
  writerCh : c.writerCh = .new _ _
  closed : c.closed = false

theorem fresh_new : Fresh (new : Conn D) := ⟨rfl, rfl, rfl⟩

/-- By itself a connection only takes from its channels: `taken` is what it does to the channel of
its writer.

This is all that the flush and the teardown need to know of the steps of connections. It says
nothing of the phase but that a known connection stays known. -/
structure Takes (taken : Option (Chan.Op (Envelope D))) (c c' : Conn D) : Prop where
  known : c.Known → c'.Known
  closed : c'.closed = c.closed
  accept : c.accept = none → c'.accept = none
  writerCh : (Chan.machine _ _).run c.writerCh taken.toList = some c'.writerCh

/-- The step moves the goroutines and leaves the channels alone. -/
theorem Takes.of_eq {c c' : Conn D} (hknown : c.Known → c'.Known) (hclosed : c'.closed = c.closed)
    (haccept : c'.accept = c.accept) (hwriterCh : c'.writerCh = c.writerCh) : Takes none c c' :=
  ⟨hknown, hclosed, fun h => haccept.trans h, congrArg some hwriterCh.symm⟩

theorem takes_step {done : Bool} {c c' : Conn D} {action : ConnAction}
    (h : c.step done action = some c') : Takes action.taken c c' := by
  cases action with
  | handshake peerId =>
    obtain ⟨hphase, ⟨⟩⟩ := Option.ite_none_right_eq_some.mp h
    exact .of_eq (fun hknown => absurd hphase hknown.1) rfl rfl rfl
  | giveUp =>
    obtain ⟨-, ⟨⟩⟩ := Option.ite_none_right_eq_some.mp h
    exact .of_eq (fun _ => ⟨by simp, by simp⟩) rfl rfl rfl
  | readAccept =>
    simp only [step] at h
    split at h
    · rename_i ok _ _
      obtain rfl := Option.some.inj h
      refine ⟨fun _ => ?_, rfl, fun _ => rfl, rfl⟩
      cases ok <;> exact ⟨by simp, by simp⟩
    · exact absurd h (by simp)
  | startWriter =>
    obtain ⟨-, ⟨⟩⟩ := Option.ite_none_right_eq_some.mp h
    exact .of_eq (fun _ => ⟨by simp, by simp⟩) rfl rfl rfl
  | take =>
    simp only [step] at h
    split at h
    · obtain rfl := Option.some.inj h
      rename_i env rest _ htake
      refine ⟨id, rfl, id, ?_⟩
      show ((c.writerCh.take.map Prod.snd).bind some) = _
      rw [htake]
      rfl
    · exact absurd h (by simp)
  | heartbeat | wrote | writeFails =>
    simp only [step] at h
    split at h
    · obtain rfl := Option.some.inj h
      exact .of_eq id rfl rfl rfl
    · exact absurd h (by simp)
  | writerStops =>
    simp only [step] at h
    split at h
    · obtain ⟨-, ⟨⟩⟩ := Option.ite_none_right_eq_some.mp h
      exact .of_eq id rfl rfl rfl
    · exact absurd h (by simp)
  | readerEnds =>
    obtain ⟨-, ⟨⟩⟩ := Option.ite_none_right_eq_some.mp h
    exact .of_eq (fun _ => ⟨by simp, by simp⟩) rfl rfl rfl
  | leave =>
    obtain ⟨-, ⟨⟩⟩ := Option.ite_none_right_eq_some.mp h
    exact .of_eq (fun _ => ⟨by simp, by simp⟩) rfl rfl rfl
  | wgWait =>
    simp only [step] at h
    split at h
    · obtain rfl := Option.some.inj h
      exact .of_eq (fun _ => ⟨by simp, by simp⟩) rfl rfl rfl
    · exact absurd h (by simp)

/-- There is nothing to take from fresh channels. -/
theorem Takes.fresh {action : ConnAction} {c c' : Conn D} (h : Takes action.taken c c')
    (hfresh : Fresh c) : Fresh c' := by
  refine ⟨h.accept hfresh.accept, ?_, h.closed.trans hfresh.closed⟩
  have hrun := h.writerCh
  rw [hfresh.writerCh] at hrun
  cases action with
  | take => exact absurd hrun (by simp [ConnAction.taken, Machine.run, Chan.machine, Chan.take,
      Chan.new])
  | _ => exact (Option.some.inj hrun).symm

end Conn

/-- The goroutine of a resend timer: which transmission it is for, whether its cancel channel is
closed, and whether it is past its first `select` and sends `cmdResend`. -/
structure Timer where
  number : ℕ
  msgId : MsgId
  cancelled : Bool
  fired : Bool

/-- The socket. `ops` is what is left of the handler that is running, `done` whether the context is
done, `stopped` whether the broker's loop has ended.

The broker has already been changed by the whole handler when its first operation is performed.
Nobody but the broker reads these fields, so the difference cannot be seen. -/
structure Socket (D : Type) where
  broker : Broker D
  ops : List (ChanOp D)
  conns : ℕ → Conn D
  timers : List Timer
  recv : Chan (Identity × D) recvBuffer
  done : Bool
  stopped : Bool

inductive Action (D : Type) where
  /-- The application sends. -/
  | send (identity : Option Identity) (data : D)
  /-- The application receives. -/
  | recv
  /-- The application closes the socket. -/
  | close
  /-- A connection does a step by itself. -/
  | conn (c : ℕ) (action : ConnAction)
  /-- The broker takes `cmdConnUp` from a connection. -/
  | connUp (c : ℕ)
  /-- The broker takes `cmdReceived` from the reader of a connection. -/
  | received (c : ℕ) (env : Envelope D)
  /-- The broker takes `cmdConnDown` from a connection, which then calls `connCancel`. -/
  | connDown (c : ℕ)
  /-- The timer at a position goes off. -/
  | fire (i : ℕ)
  /-- It ends without having sent `cmdResend`. -/
  | timerEnds (i : ℕ)
  /-- The broker takes `cmdResend` from it. -/
  | resend (i : ℕ)
  /-- The broker's handler does its next channel operation. -/
  | op
  /-- The `select` of `deliver` takes `<-b.ctx.Done()`. -/
  | abandon
  /-- The broker's `select` takes `<-b.ctx.Done()`. -/
  | shutdown

/-- The message that is sent. -/
def Action.message {D : Type} : Action D → Option (BufferedMsg D)
  | .send identity data => some ⟨identity, data⟩
  | _ => none

/-- Whether the broker's loop takes its next turn. -/
def Action.turns {D : Type} : Action D → Bool
  | .send .. | .connUp _ | .received .. | .connDown _ | .resend _ | .shutdown => true
  | _ => false

/-- The envelopes that `runReader` passes on. -/
def passesOn {D : Type} : Envelope D → Bool
  | .data _ | .dataReq _ _ | .ack _ => true
  | .hello _ _ | .heartbeat => false

namespace Socket

variable {D : Type}

def new (sendMode : SendMode) (delivery : DeliveryGuarantee) : Socket D where
  broker := .new sendMode delivery
  ops := []
  conns _ := .new
  timers := []
  recv := .new _ _
  done := false
  stopped := false

/-- Whether the broker is at the `select` of its loop: the handler before is through, and the loop
has not ended. -/
def AtSelect (s : Socket D) : Prop := s.ops.isEmpty ∧ s.stopped = false

instance (s : Socket D) : Decidable s.AtSelect := inferInstanceAs (Decidable (_ ∧ _))

def setConn (s : Socket D) (c : ℕ) (conn : Conn D) : Socket D :=
  { s with conns := Function.update s.conns c conn }

variable (rand : ℕ → MsgId)

/-- The broker takes a command. -/
def handle (s : Socket D) (cmd : Command D) : Socket D :=
  { s with broker := (s.broker.handle rand cmd).1, ops := (s.broker.handle rand cmd).2 }

/-- One channel operation, if it does not block.

`trySend` never blocks but panics on a closed channel, as does a second `close`. Both are `none`, so
a run that reaches one of them stops there, and that none does is something to be proved. -/
def perform (s : Socket D) : ChanOp D → Option (Socket D)
  | .accept c ok =>
    match (s.conns c).accept with
    | none => some (s.setConn c { s.conns c with accept := some ok })
    | some _ => none
  | .trySend c env =>
    if (s.conns c).closed then none
    else some (s.setConn c { s.conns c with writerCh := (s.conns c).writerCh.offer env })
  | .close c =>
    if (s.conns c).closed then none else some (s.setConn c { s.conns c with closed := true })
  | .deliver identity data =>
    if s.recv.room = 0 then none else some { s with recv := s.recv.offer (identity, data) }
  | .startTimer number msgId =>
    some { s with timers := s.timers ++ [⟨number, msgId, false, false⟩] }
  | .cancel number =>
    some { s with timers := s.timers.map fun timer =>
      if timer.number = number then { timer with cancelled := true } else timer }

def step (s : Socket D) : Action D → Option (Socket D)
  | .send identity data =>
    if s.AtSelect then some (s.handle rand (.send identity data)) else none
  | .recv => s.recv.take.map fun taken => { s with recv := taken.2 }
  | .close => some { s with done := true }
  | .conn c action => ((s.conns c).step s.done action).map (s.setConn c)
  | .connUp c =>
    if s.AtSelect ∧ (s.conns c).phase = .registering then
      some ((s.handle rand (.connUp (s.conns c).identity c)).setConn c
        { s.conns c with phase := .awaiting })
    else none
  | .received c env =>
    if s.AtSelect ∧ (s.conns c).phase = .running ∧ passesOn env then
      some (s.handle rand (.received (s.conns c).identity env))
    else none
  | .connDown c =>
    if s.AtSelect ∧ (s.conns c).phase = .leaving then
      some ((s.handle rand (.connDown (s.conns c).identity)).setConn c
        { s.conns c with phase := .waiting, connCancelled := true })
    else none
  | .fire i =>
    match s.timers[i]? with
    | some timer => some { s with timers := s.timers.set i { timer with fired := true } }
    | none => none
  | .timerEnds i =>
    match s.timers[i]? with
    | some timer =>
      if s.done ∨ timer.cancelled ∧ timer.fired = false then
        some { s with timers := s.timers.eraseIdx i }
      else none
    | none => none
  | .resend i =>
    match s.timers[i]? with
    | some timer =>
      if s.AtSelect ∧ timer.fired then
        some { s.handle rand (.resend timer.msgId) with timers := s.timers.eraseIdx i }
      else none
    | none => none
  | .op =>
    match s.ops with
    | op :: rest => { s with ops := rest }.perform op
    | [] => none
  | .abandon =>
    match s.ops with
    | .deliver _ _ :: rest => if s.done then some { s with ops := rest } else none
    | _ => none
  | .shutdown =>
    if s.AtSelect ∧ s.done then some { s with ops := s.broker.shutdown, stopped := true } else none

/-- The offer that an operation makes to the writer channel of the connection `c`. -/
def offer (c : ℕ) : ChanOp D → Option (Chan.Op (Envelope D))
  | .trySend c' env => if c' = c then some (.offer env) else none
  | _ => none

/-- What an action does to the channel of the writer of the connection `c`: the handler's next
operation may be an offer to it, and the writer may take from it. -/
def traffic (c : ℕ) (s : Socket D) : Action D → Option (Chan.Op (Envelope D))
  | .op => s.ops.head?.bind (offer c)
  | .conn c' action => if c' = c then action.taken else none
  | _ => none

/-! ### The steps by what they change -/

/-- The steps, those alike together. The broker takes a command, a connection goes on, a handler
goes on, or the application, a timer or the context does something that is none of these. -/
inductive Step (s : Socket D) : Action D → Socket D → Prop where
  | handles {a cmd} (timers : List Timer) (ha : a.turns = true) (hmessage : cmd.message = a.message)
      (hcmd : ∀ id c, cmd ≠ .connUp id c) : Step s a { s.handle rand cmd with timers := timers }
  | connUp {c} (hphase : (s.conns c).phase = .registering) :
      Step s (.connUp c) ((s.handle rand (.connUp (s.conns c).identity c)).setConn c
        { s.conns c with phase := .awaiting })
  | connDown {c} :
      Step s (.connDown c) ((s.handle rand (.connDown (s.conns c).identity)).setConn c
        { s.conns c with phase := .waiting, connCancelled := true })
  | conn {c action conn} (h : (s.conns c).step s.done action = some conn) :
      Step s (.conn c action) (s.setConn c conn)
  | op {op rest t} (hops : s.ops = op :: rest) (h : { s with ops := rest }.perform op = some t) :
      Step s .op t
  | abandon {identity data rest} (hops : s.ops = .deliver identity data :: rest) :
      Step s .abandon { s with ops := rest }
  | shutdown : Step s .shutdown { s with ops := s.broker.shutdown, stopped := true }
  | aside {a} (timers : List Timer) (recv : Chan (Identity × D) recvBuffer) (done : Bool)
      (ha : a.turns = false) (hmessage : a.message = none)
      (htraffic : ∀ c, traffic c s a = none) :
      Step s a { s with timers := timers, recv := recv, done := done }

theorem step_cases {s t : Socket D} {a : Action D} (h : s.step rand a = some t) :
    Step rand s a t := by
  cases a with
  | send identity data =>
    obtain ⟨-, ⟨⟩⟩ := Option.ite_none_right_eq_some.mp h
    exact .handles _ rfl rfl (by simp)
  | recv =>
    obtain ⟨taken, -, rfl⟩ := Option.map_eq_some_iff.mp h
    exact .aside _ _ _ rfl rfl fun _ => rfl
  | close =>
    cases h
    exact .aside _ _ _ rfl rfl fun _ => rfl
  | conn c action =>
    obtain ⟨conn, hconn, rfl⟩ := Option.map_eq_some_iff.mp h
    exact .conn hconn
  | connUp c =>
    obtain ⟨⟨-, hphase⟩, ⟨⟩⟩ := Option.ite_none_right_eq_some.mp h
    exact .connUp hphase
  | received c env =>
    obtain ⟨-, ⟨⟩⟩ := Option.ite_none_right_eq_some.mp h
    exact .handles _ rfl rfl (by simp)
  | connDown c =>
    obtain ⟨-, ⟨⟩⟩ := Option.ite_none_right_eq_some.mp h
    exact .connDown
  | fire i =>
    simp only [step] at h
    split at h
    · cases h
      exact .aside _ _ _ rfl rfl fun _ => rfl
    · exact absurd h (by simp)
  | timerEnds i =>
    simp only [step] at h
    split at h
    · obtain ⟨-, ⟨⟩⟩ := Option.ite_none_right_eq_some.mp h
      exact .aside _ _ _ rfl rfl fun _ => rfl
    · exact absurd h (by simp)
  | resend i =>
    simp only [step] at h
    split at h
    · obtain ⟨-, ⟨⟩⟩ := Option.ite_none_right_eq_some.mp h
      exact .handles _ rfl rfl (by simp)
    · exact absurd h (by simp)
  | op =>
    simp only [step] at h
    split at h
    · exact .op ‹_› h
    · exact absurd h (by simp)
  | abandon =>
    simp only [step] at h
    split at h
    · obtain ⟨-, ⟨⟩⟩ := Option.ite_none_right_eq_some.mp h
      exact .abandon ‹_›
    · exact absurd h (by simp)
  | shutdown =>
    obtain ⟨-, ⟨⟩⟩ := Option.ite_none_right_eq_some.mp h
    exact .shutdown

variable {s t : Socket D}

@[simp] theorem conns_setConn_self (s : Socket D) (c : ℕ) (conn : Conn D) :
    (s.setConn c conn).conns c = conn :=
  Function.update_self _ _ _

theorem conns_setConn_of_ne {c c' : ℕ} (h : c' ≠ c) (s : Socket D) (conn : Conn D) :
    (s.setConn c conn).conns c' = s.conns c' :=
  Function.update_of_ne h _ _

/-- What a channel operation leaves alone. -/
structure Performs (s t : Socket D) (op : ChanOp D) : Prop where
  broker : t.broker = s.broker
  ops : t.ops = s.ops
  phase : ∀ c, (t.conns c).phase = (s.conns c).phase
  others : ∀ c, op.conn ≠ some c → t.conns c = s.conns c

theorem performs_setConn {c : ℕ} {conn : Conn D} {op : ChanOp D} (hop : op.conn = some c)
    (hphase : conn.phase = (s.conns c).phase) : Performs s (s.setConn c conn) op := by
  refine ⟨rfl, rfl, fun c' => ?_, fun c' hc' => ?_⟩
  · by_cases heq : c' = c
    · subst heq
      rw [conns_setConn_self]
      exact hphase
    · rw [conns_setConn_of_ne heq]
  · exact conns_setConn_of_ne (fun heq => hc' (hop.trans (congrArg some heq.symm))) s conn

theorem performs {op : ChanOp D} (h : s.perform op = some t) : Performs s t op := by
  cases op with
  | accept c ok =>
    simp only [perform] at h
    split at h
    · cases h
      exact performs_setConn rfl rfl
    · exact absurd h (by simp)
  | trySend c env =>
    obtain ⟨-, ⟨⟩⟩ := Option.ite_none_left_eq_some.mp h
    exact performs_setConn rfl rfl
  | close c =>
    obtain ⟨-, ⟨⟩⟩ := Option.ite_none_left_eq_some.mp h
    exact performs_setConn rfl rfl
  | deliver identity data =>
    obtain ⟨-, ⟨⟩⟩ := Option.ite_none_left_eq_some.mp h
    exact ⟨rfl, rfl, fun _ => rfl, fun _ _ => rfl⟩
  | startTimer | cancel =>
    cases h
    exact ⟨rfl, rfl, fun _ => rfl, fun _ _ => rfl⟩

end Socket

/-- The socket as a machine. -/
def machine (D : Type) (rand : ℕ → MsgId) : Machine (Socket D) (Action D) := ⟨Socket.step rand⟩

end GoLib

end Aiomsg
