import Aiomsg.Session.Table

/-!
# Acknowledgements go back on the connection they answer

The broker finds the writer for an ACK by looking up the identity of the sender of the DATA_REQ, so
"the same connection" is not something it checks. It follows from the table being exact: while
anything of a session is left in the queue before its `ConnectionDown`, the writer under its
identity is its own, whatever other sessions of that identity there have been or will be.

## Scope

"Put on the writer" is the end of what the broker can promise. Whether the writer's thread gets the
ACK onto the wire before the connection ends is not said.

## Main results

* `acked_on_same_connection`
-/

namespace Aiomsg

variable {S D : Type}

def Envelope.ack? : Envelope D → Option MsgId
  | .ack msgId => some msgId
  | _ => none

/-- The ids of the ACKs put on one writer. -/
def acksOn [DecidableEq S] (s : S) (effects : List (Effect S D)) : List MsgId :=
  (framesOn s effects).filterMap Envelope.ack?

/-- The id of a DATA_REQ. -/
def Command.dataReq? : Command S D → Option MsgId
  | .received _ (.dataReq msgId _) => some msgId
  | _ => none

theorem Command.eq_of_dataReq? {cmd : Command S D} {msgId : MsgId}
    (h : cmd.dataReq? = some msgId) :
    ∃ id payload, cmd = .received id (.dataReq msgId payload) := by
  cases cmd with
  | received id envelope =>
    cases envelope with
    | dataReq msgId' payload => exact ⟨id, payload, by rw [Option.some.inj h]⟩
    | hello | heartbeat | data | ack => exact absurd h nofun
  | send | connectionUp | connectionDown | resendTimeout | close => exact absurd h nofun

namespace Session

theorem not_ack_of_mem_transmit {b : Broker S D} {identity : Option Identity} {data : D}
    {retries : ℕ} {e : Effect S D} (h : e ∈ (b.transmit identity data retries).2) (w : S)
    (msgId : MsgId) : e ≠ .frame w (.ack msgId) := by
  rintro rfl
  obtain ⟨_, heq⟩ | ⟨_, heq⟩ | ⟨_, _, f, -, heq, rfl | ⟨_, rfl⟩⟩ := Broker.mem_transmit h <;>
    exact absurd heq nofun

variable [DecidableEq S]

/-- The id of a processed DATA_REQ of one session. -/
def Done.dataReqOf (s : S) (d : Done S D) : Option MsgId :=
  if d.origin = some s then d.cmd.dataReq? else none

/-- The ids of the DATA_REQs of one session that the broker has processed, in order. -/
def World.dataReqs (w : World S D) (s : S) : List MsgId := w.log.filterMap (Done.dataReqOf s)

/-- The ids of the ACKs the broker has put on the writer of one session, in order. -/
def World.acks (w : World S D) (s : S) : List MsgId := acksOn s (w.log.flatMap Done.effects)

/-! ### Where ACKs come from -/

theorem acksOn_eq_nil {effects : List (Effect S D)} (s : S)
    (h : ∀ e ∈ effects, ∀ w msgId, e ≠ .frame w (.ack msgId)) : acksOn s effects = [] := by
  refine List.filterMap_eq_nil_iff.mpr fun f hf => ?_
  have hframe := mem_framesOn.mp hf
  cases f with
  | ack msgId => exact absurd rfl (h _ hframe _ _)
  | hello | heartbeat | data | dataReq => rfl

/-- Only a DATA_REQ is acknowledged. -/
theorem acksOn_step {b : Broker S D} {cmd : Command S D} (h : cmd.dataReq? = none) (s : S) :
    acksOn s (b.step cmd).2 = [] := by
  refine acksOn_eq_nil s fun e he => ?_
  have hturn := b.turn_step cmd
  generalize b.step cmd = r at hturn he
  cases hturn with
  | sent | resent => exact not_ack_of_mem_transmit he
  | connected =>
    rcases List.mem_cons.mp he with rfl | he
    · exact nofun
    · obtain ⟨b', identity, data, -, he⟩ := Broker.mem_transmitAll he
      exact not_ack_of_mem_transmit he
  | dataReq => exact absurd h (Option.some_ne_none _)
  | turnedAway | data | acked =>
    rw [List.mem_singleton.mp he]
    exact nofun
  | buffered | disconnected | ackIgnored | hello | heartbeat | timeoutIgnored | gaveUp
  | rebuffered | close => exact absurd he List.not_mem_nil

variable {ident : S → Identity} {w : World S D}

/-- A DATA_REQ at the front is delivered, and acknowledged on the writer of its session. -/
theorem Inv.step_dataReq (h : Inv ident w) {s : S} {id : Identity} {msgId : MsgId} {payload : D}
    {rest : List (Posted S D)}
    (hqueue : w.queue = ⟨some s, .received id (.dataReq msgId payload)⟩ :: rest) :
    id = ident s ∧ w.broker.step (.received id (.dataReq msgId payload))
      = (w.broker, [.recv id payload, .frame s (.ack msgId)]) := by
  obtain ⟨hself, ⟨envelope, hcmd⟩ | hcmd⟩ := h.front hqueue (by simp)
  · obtain ⟨rfl, rfl⟩ := Command.received.inj hcmd
    refine ⟨rfl, ?_⟩
    show (w.broker, .recv (ident s) payload :: w.broker.sendTo (ident s) (.ack msgId)) = _
    rw [Broker.sendTo, hself]
  · exact absurd hcmd (by simp)

theorem acks_process (w : World S D) (p : Posted S D) (rest : List (Posted S D)) (s : S) :
    (w.process p rest).acks s = w.acks s ++ acksOn s (w.broker.step p.cmd).2 := by
  simp [World.acks, World.process, acksOn]

theorem dataReqs_process (w : World S D) (p : Posted S D) (rest : List (Posted S D)) (s : S) :
    (w.process p rest).dataReqs s
      = w.dataReqs s ++ (if p.origin = some s then p.cmd.dataReq? else none).toList := by
  rw [World.dataReqs, World.process, List.filterMap_append, List.filterMap_cons, Done.dataReqOf]
  cases if p.origin = some s then p.cmd.dataReq? else none <;> rfl

/-- The broker's turn acknowledges what it takes, and only that. -/
theorem Inv.acks_process (h : Inv ident w) {p : Posted S D} {rest : List (Posted S D)}
    (hqueue : w.queue = p :: rest) (s : S) :
    acksOn s (w.broker.step p.cmd).2
      = (if p.origin = some s then p.cmd.dataReq? else none).toList := by
  cases hreq : p.cmd.dataReq? with
  | none =>
    rw [acksOn_step hreq, ite_self]
    rfl
  | some msgId =>
    obtain ⟨origin, cmd⟩ := p
    obtain ⟨id, payload, rfl⟩ := Command.eq_of_dataReq? hreq
    cases origin with
    | none =>
      -- only sessions forward frames
      obtain ⟨_, _, hcmd⟩ | ⟨_, hcmd⟩ := h.others _ (hqueue ▸ List.mem_cons_self) rfl <;>
        exact absurd hcmd nofun
    | some s' =>
      rw [(h.step_dataReq hqueue).2]
      by_cases hs : s' = s <;>
        simp [acksOn, framesOn, frames, List.filterMap_cons, Effect.frame?, Envelope.ack?, hs]

theorem Inv.acks_step {w' : World S D} (h : Inv ident w) (hacks : ∀ s, w.acks s = w.dataReqs s)
    (hstep : Step ident w w') : ∀ s, w'.acks s = w'.dataReqs s := by
  cases hstep with
  | process hqueue =>
    intro s
    rw [Session.acks_process, dataReqs_process, hacks, h.acks_process hqueue]
  | up | accepted | rejected | forward | down | send | timeout => exact hacks

/-- What the log says of a command: the effects are those of a step of a broker, and those of a
DATA_REQ are its delivery and its ACK. -/
structure Logged (d : Done S D) : Prop where
  step : ∃ b : Broker S D, d.effects = (b.step d.cmd).2
  dataReq : ∀ id msgId payload, d.cmd = .received id (.dataReq msgId payload) →
    ∃ s, d.origin = some s ∧ d.effects = [.recv id payload, .frame s (.ack msgId)]

theorem Inv.logged_process (h : Inv ident w) {p : Posted S D} {rest : List (Posted S D)}
    (hqueue : w.queue = p :: rest) : Logged ⟨p, (w.broker.step p.cmd).2⟩ := by
  refine ⟨⟨w.broker, rfl⟩, fun id msgId payload hcmd => ?_⟩
  obtain ⟨origin, cmd⟩ := p
  obtain rfl : cmd = _ := hcmd
  cases origin with
  | none =>
    obtain ⟨_, _, heq⟩ | ⟨_, heq⟩ := h.others _ (hqueue ▸ List.mem_cons_self) rfl <;>
      exact absurd heq nofun
  | some s => exact ⟨s, rfl, congrArg Prod.snd (h.step_dataReq hqueue).2⟩

theorem logged_of_reachable (hreach : (system S D ident).Reachable w) : ∀ d ∈ w.log, Logged d := by
  refine hreach.invariant_over (P := fun w => ∀ d ∈ w.log, Logged d) (fun _ => inv_of_reachable)
    ?_ ?_
  · rintro _ ⟨_, _, _, rfl⟩ d hd
    exact absurd hd List.not_mem_nil
  · rintro w w' hinv hlog hstep
    cases hstep with
    | process hqueue =>
      intro d hd
      rcases List.mem_append.mp hd with hd | hd
      · exact hlog d hd
      · rw [List.mem_singleton.mp hd]
        exact hinv.logged_process hqueue
    | up | accepted | rejected | forward | down | send | timeout => exact hlog

/-- **Every DATA_REQ is acknowledged once, on the connection it came in on.** In every reachable
state of a broker and its sessions: if a DATA_REQ of a session is at the front of the queue, then
processing it puts its payload on the receive queue and an ACK with its id on the writer of that
session, in this order, and does nothing else; and the ACKs a writer has got are those of the
DATA_REQs of its session, in order. -/
theorem acked_on_same_connection (hreach : (system S D ident).Reachable w) :
    (∀ s id msgId payload rest,
      w.queue = ⟨some s, .received id (.dataReq msgId payload)⟩ :: rest →
        id = ident s ∧ w.broker.step (.received id (.dataReq msgId payload))
          = (w.broker, [.recv id payload, .frame s (.ack msgId)])) ∧
    ∀ s, w.acks s = w.dataReqs s := by
  have hacks : ∀ s, w.acks s = w.dataReqs s := by
    refine hreach.invariant_over (P := fun w => ∀ s, w.acks s = w.dataReqs s)
      (fun _ => inv_of_reachable) ?_ fun _ _ => Inv.acks_step
    rintro _ ⟨_, _, _, rfl⟩ s
    rfl
  exact ⟨fun _ _ _ _ _ hqueue => (inv_of_reachable hreach).step_dataReq hqueue, hacks⟩

/-- Two sessions of one peer, one after the other; the first forwards a DATA_REQ just before it
ends, the second has asked to be let in. -/
def reconnecting : World Bool ℕ :=
  let peer : Identity := List.Vector.replicate 16 1
  let msgId : MsgId := List.Vector.replicate 16 9
  let w := World.start .roundRobin .atLeastOnce (List.Vector.replicate 8 0)
  let w := (w.post (some true) (.connectionUp peer true true)).enter true .waiting
  let w := (w.process ⟨some true, .connectionUp peer true true⟩ []).enter true .serving
  let w := w.post (some true) (.received peer (.dataReq msgId 5))
  let w := (w.post (some true) (.connectionDown peer)).enter true .over
  (w.post (some false) (.connectionUp peer false false)).enter false .waiting

theorem reconnecting_acked :
    reconnecting.broker.step (.received (List.Vector.replicate 16 1)
        (.dataReq (List.Vector.replicate 16 9) 5))
      = (reconnecting.broker, [.recv (List.Vector.replicate 16 1) 5,
          .frame true (.ack (List.Vector.replicate 16 9))]) := by
  have hreach : (system Bool ℕ fun _ => List.Vector.replicate 16 1).Reachable reconnecting :=
    .step (.step (.step (.step (.step (.step (.init ⟨_, _, _, rfl⟩) (.up rfl)) (.process rfl))
      (.accepted rfl rfl)) (.forward _ rfl)) (.down rfl)) (.up rfl)
  exact ((acked_on_same_connection hreach).1 _ _ _ _ _ rfl).2

end Session

end Aiomsg
