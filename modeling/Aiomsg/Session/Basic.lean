import Aiomsg.Broker.Trace
import Aiomsg.Lib.System

/-!
# Sessions and their broker

`rust-lib-sync/src/conn.rs`: one session for each connection, any number of them at once, all
sending commands to one broker over one channel. A session that has read its peer's HELLO makes a
writer channel and an accept channel, sends `ConnectionUp` (`register`) and waits on the accept
channel. If it reads `true` it forwards what it receives, and at its end it sends `ConnectionDown`;
if it reads `false` it ends at once.

The channel to the broker is a queue. A session posts at its back whenever it is scheduled, the
broker takes from its front; so the order of the steps below ranges over all interleavings of the
sessions' command streams with each other and with the commands of the application and the timer.

`S` is the type of sessions. Each session makes its two channels itself and gives them to nobody
else, so a channel is named by its session: the broker of this system is a `Broker S D`. Which
session posted a command is recorded in `Posted.origin`, for the statements only: the broker does
not see it, and neither `ConnectionDown` nor `Received` says it.

## Scope

A session's side of the wire is left out: when it reads a frame, which one, and when it ends are
free. So are HELLO and HEARTBEAT, which never reach the broker. A session that serves may post
anything it could have decoded, and the network puts the frames that were really sent in place of
that.

The answer stays on the accept channel in the model, and `answers` is all of it. A session reads the
first one and never looks again.

## Main definitions

* `World` — the broker, the queue, where each session stands, and what the broker has done so far
* `Step`, `system` — the steps of sessions, environment and broker
-/

namespace Aiomsg

namespace Session

variable {S D : Type}

/-- Where a session stands. -/
inductive Phase where
  /-- Before `register`. -/
  | idle
  /-- In `accept_rx.recv()`. -/
  | waiting
  /-- In the read loop. -/
  | serving
  /-- At its end. -/
  | over
deriving DecidableEq, Repr

/-- A command in the channel, with the session that put it there. -/
structure Posted (S D : Type) where
  origin : Option S
  cmd : Command S D

/-- A command the broker has processed, with what it did. -/
structure Done (S D : Type) extends Posted S D where
  effects : List (Effect S D)

/-- The broker, the channel to it, where each session stands, and what the broker has done so far.
Only `log` is not in the program; it remembers each command with its effects. -/
structure World (S D : Type) where
  broker : Broker S D
  queue : List (Posted S D)
  phase : S → Phase
  log : List (Done S D)

/-- The answer an effect gives to a session. -/
def answerTo [DecidableEq S] (s : S) : Effect S D → Option Bool
  | .accept s' ok => if s' = s then some ok else none
  | _ => none

/-- Whether a command is the end of a session. -/
def Posted.isDownOf [DecidableEq S] (s : S) (p : Posted S D) : Bool :=
  match p.cmd with
  | .connectionDown _ => p.origin == some s
  | _ => false

namespace World

variable [DecidableEq S]

/-- What the broker has put on the accept channel of a session. -/
def answers (w : World S D) (s : S) : List Bool :=
  (w.log.flatMap Done.effects).filterMap (answerTo s)

/-- Whether the broker has processed the `ConnectionDown` of a session. -/
def downed (w : World S D) (s : S) : Bool := w.log.any fun d => d.toPosted.isDownOf s

/-- The commands of a session the broker has not taken yet. -/
def outstanding (w : World S D) (s : S) : List (Command S D) :=
  (w.queue.filter fun p => p.origin == some s).map Posted.cmd

/-- Put a command in the channel. -/
def post (w : World S D) (origin : Option S) (cmd : Command S D) : World S D :=
  { w with queue := w.queue ++ [⟨origin, cmd⟩] }

/-- Move a session on. -/
def enter (w : World S D) (s : S) (phase : Phase) : World S D :=
  { w with phase := Function.update w.phase s phase }

/-- Let the broker process a command. -/
def process (w : World S D) (p : Posted S D) (rest : List (Posted S D)) : World S D :=
  { w with
    broker := (w.broker.step p.cmd).1
    queue := rest
    log := w.log ++ [⟨p, (w.broker.step p.cmd).2⟩] }

end World

/-- The steps. `ident` is the identity each session reads in its peer's HELLO; it may be the same
for several. -/
inductive Step [DecidableEq S] (ident : S → Identity) (w : World S D) : World S D → Prop
  | up {s : S} (hphase : w.phase s = .idle) :
      Step ident w ((w.post (some s) (.connectionUp (ident s) s s)).enter s .waiting)
  | accepted {s : S} (hphase : w.phase s = .waiting) (hanswer : (w.answers s).head? = some true) :
      Step ident w (w.enter s .serving)
  | rejected {s : S} (hphase : w.phase s = .waiting) (hanswer : (w.answers s).head? = some false) :
      Step ident w (w.enter s .over)
  | forward {s : S} (envelope : Envelope D) (hphase : w.phase s = .serving) :
      Step ident w (w.post (some s) (.received (ident s) envelope))
  | down {s : S} (hphase : w.phase s = .serving) :
      Step ident w ((w.post (some s) (.connectionDown (ident s))).enter s .over)
  | send (identity : Option Identity) (data : D) :
      Step ident w (w.post none (.send identity data))
  | timeout (msgId : MsgId) : Step ident w (w.post none (.resendTimeout msgId))
  | process {p : Posted S D} {rest : List (Posted S D)} (hqueue : w.queue = p :: rest) :
      Step ident w (w.process p rest)

/-- Sessions that have not begun, and a new broker. -/
def World.start (sendMode : SendMode) (delivery : DeliveryGuarantee)
    (salt : List.Vector UInt8 8) : World S D where
  broker := .new sendMode delivery salt
  queue := []
  phase := fun _ => .idle
  log := []

/-- A broker of any kind and its sessions. -/
def system (S D : Type) [DecidableEq S] (ident : S → Identity) : System (World S D) where
  init w := ∃ sendMode delivery salt, w = .start sendMode delivery salt
  step := Step ident

end Session

end Aiomsg
