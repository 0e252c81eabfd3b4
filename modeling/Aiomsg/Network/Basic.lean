import Aiomsg.Conn.PlainSession
import Aiomsg.Session.History

/-!
# Brokers connected to brokers

Any number of nodes, each a broker with its sessions, and connections between them. A connection has
two ends, and each end is a session of its node; what the broker of a node puts on the writer of a
session goes, as bytes, to the session at the other end, which decodes it and forwards it to its own
broker. A direction of a connection is a queue of frames, on which the sessions also put HELLO and
HEARTBEAT. A disconnect may lose any number of the last of them, and a connection that is made anew
has new ends.

Every node is the `Session` system of its own sessions, except that a session forwards what arrives
and nothing else; so whatever was proved of that system holds of each node (`Inv.worlds`).

## Scope

A connection is a pair of queues of whole frames. How a session cuts the bytes of a socket into
frames is not part of the network. The frame decoder does it right for every way of cutting them;
`plain_session` does not if its handshake ends within a frame, as it starts its reader on a new
decoder then (`Conn.plainSession`). So what is proved here is about brokers, their registration and
the frames that are forwarded to them, and holds of a session as far as its frames come out as they
went in. Of a plain session that has lost the beginning of a frame nothing is said.

Payloads are bounded as the codec demands: a DATA_REQ is seventeen bytes longer than its payload,
and its length must fit in its four-byte prefix. Sessions that cannot be told apart by the HELLO
they read are not excluded, and nothing is said of when anything happens.

## Main definitions

* `Topology` — nodes and ends
* `Net`, `Step`, `network`
-/

namespace Aiomsg

namespace Network

open Session Conn Protocol

/-- Nodes, and the ends of all connections there will ever be between them. `ident` is the identity
the session at an end reads in the HELLO from the other.

A connection that is made again is another pair of ends. So ends are never used twice, and what is
said of an end is said of one connection. -/
structure Topology (N E : Type) where
  node : E → N
  peer : E → E
  peer_peer : ∀ e, peer (peer e) = e
  ident : E → Identity

variable {N E : Type} [DecidableEq N] [DecidableEq E]

/-- The nodes, the frames on their way from each end to the other, and all frames ever put on the
way. `wire` is what can still arrive; `sent` is for the statements only. -/
structure Net (N E : Type) where
  world : N → World E Bytes
  wire : E → List Bytes
  sent : E → List Bytes

/-- The envelopes a session forwards for what it reads. -/
def arrivals (frame : Bytes) : List (Envelope Bytes) :=
  (LengthPrefix.deframer.items frame).filterMap forwarded

/-- A payload whose DATA_REQ fits its length prefix. -/
def Short (payload : Bytes) : Prop := 17 + payload.length < 2 ^ 32

instance (payload : Bytes) : Decidable (Short payload) := Nat.decLt _ _

namespace Net

/-- Everything the broker of a node has done. -/
def effects (net : Net N E) (n : N) : List (Effect E Bytes) := (net.world n).effects

/-- Change one node. -/
def setWorld (net : Net N E) (n : N) (w : World E Bytes) : Net N E :=
  { net with world := Function.update net.world n w }

/-- Put the frames among some effects on the wires. -/
def transmit (net : Net N E) (es : List (Effect E Bytes)) : Net N E :=
  { net with
    wire := fun e => net.wire e ++ (framesOn e es).map Envelope.frame
    sent := fun e => net.sent e ++ (framesOn e es).map Envelope.frame }

/-- Let the broker of a node process a command. -/
def process (net : Net N E) (n : N) (p : Posted E Bytes) (rest : List (Posted E Bytes)) : Net N E :=
  (net.setWorld n ((net.world n).process p rest)).transmit ((net.world n).broker.step p.cmd).2

/-- Replace what is on its way from one end. -/
def setWire (net : Net N E) (e : E) (frames : List Bytes) : Net N E :=
  { net with wire := Function.update net.wire e frames }

end Net

inductive Step (T : Topology N E) (net : Net N E) : Net N E → Prop
  | up {e : E} (hphase : (net.world (T.node e)).phase e = .idle) :
      Step T net (net.setWorld (T.node e)
        (((net.world (T.node e)).post (some e) (.connectionUp (T.ident e) e e)).enter e .waiting))
  | accepted {e : E} (hphase : (net.world (T.node e)).phase e = .waiting)
      (hanswer : ((net.world (T.node e)).answers e).head? = some true) :
      Step T net (net.setWorld (T.node e) ((net.world (T.node e)).enter e .serving))
  | rejected {e : E} (hphase : (net.world (T.node e)).phase e = .waiting)
      (hanswer : ((net.world (T.node e)).answers e).head? = some false) :
      Step T net (net.setWorld (T.node e) ((net.world (T.node e)).enter e .over))
  | down {e : E} (hphase : (net.world (T.node e)).phase e = .serving) :
      Step T net (net.setWorld (T.node e)
        (((net.world (T.node e)).post (some e) (.connectionDown (T.ident e))).enter e .over))
  | send {n : N} (identity : Option Identity) {data : Bytes} (hshort : Short data) :
      Step T net (net.setWorld n ((net.world n).post none (.send identity data)))
  | timeout {n : N} (msgId : MsgId) :
      Step T net (net.setWorld n ((net.world n).post none (.resendTimeout msgId)))
  /-- The broker of a node processes a command. -/
  | process {n : N} {p : Posted E Bytes} {rest : List (Posted E Bytes)}
      (hqueue : (net.world n).queue = p :: rest) :
      Step T net (net.process n p rest)
  /-- A session reads a frame and forwards its envelope. -/
  | deliver {e : E} {frame : Bytes} {rest : List Bytes} {envelope : Envelope Bytes}
      (hphase : (net.world (T.node e)).phase e = .serving)
      (hwire : net.wire (T.peer e) = frame :: rest)
      (harrivals : arrivals frame = [envelope]) :
      Step T net ((net.setWorld (T.node e)
        ((net.world (T.node e)).post (some e) (.received (T.ident e) envelope))).setWire (T.peer e)
          rest)
  /-- A session puts a frame of its own on the way. -/
  | own {e : E} {frame : Bytes}
      (hframe : (∃ identity, frame = hello identity) ∨ frame = heartbeat) :
      Step T net (net.setWire e (net.wire e ++ [frame]))
  /-- A session reads a frame and forwards nothing. -/
  | ignore {e : E} {frame : Bytes} {rest : List Bytes} (hwire : net.wire e = frame :: rest)
      (harrivals : arrivals frame = []) : Step T net (net.setWire e rest)
  /-- Frames that were on their way last are lost. It may happen at any time here, not only at a
  disconnect, which only adds runs. -/
  | lose {e : E} (kept : ℕ) : Step T net (net.setWire e ((net.wire e).take kept))
  /-- An ACK arrives once more. -/
  | again {e : E} {msgId : MsgId} (hsent : (Envelope.ack msgId).frame ∈ net.sent e) :
      Step T net (net.setWire e (net.wire e ++ [(Envelope.ack msgId).frame]))

/-- Nodes whose brokers are new, and no connections. -/
def network (T : Topology N E) : System (Net N E) where
  init net := (∀ n, ∃ sendMode delivery salt, net.world n = .start sendMode delivery salt) ∧
    (∀ e, net.wire e = []) ∧ ∀ e, net.sent e = []
  step := Step T

end Network

end Aiomsg
