import Aiomsg.GoLib.Socket

/-!
# The flush of the Go broker

The first connection that is accepted gets what was sent while nobody was connected. The flush is
part of `handleUp`, which offers one envelope after another to the new connection's writer channel
and does not wait. That channel has room for `writerBuffer` envelopes, and its only receiver is a
writer that is not started before the connection goroutine has read the answer to its `cmdConnUp`.
What finds the channel full is dropped, as it is for any other message.

So the first `writerBuffer` envelopes always get through, whatever the other goroutines do in the
meantime, and how many of the others do depends on how fast the writer is started and writes.

## Scope

Delivery is at-most-once, so that there are no resends among the sends; with acknowledgements the
flush puts DATA_REQs on the channel in the same way. What the writer does with an envelope once it
has taken it off is the connection's business, and so is what is still on the channel when the
connection ends.

The traffic of the channel is not made up for the statements. It is read off the actions of the run:
an operation of the handler is an offer, and the only taker is the connection's own writer.

## Main results

* `Broker.Alone.sendAll` — what the flush offers, and to whom
* `Inv.step` — before it is entered in the table a connection's channels are untouched
* `Serving.step`, `Serving.run` — what is done to the channel during the flush
* `flush_puts` — what gets through, and that the handler does not wait
* `flush_drops` — a flush of one message too many
-/

namespace Aiomsg

namespace GoLib

variable {D : Type} (rand : ℕ → MsgId)

namespace Broker

/-! ### What the flush offers -/

/-- No acknowledgements are asked for and none is waited for. Then every send is a routed DATA, and
a resend timer that goes off finds nothing. -/
structure Plain (b : Broker D) : Prop where
  delivery : b.delivery = .atMostOnce
  pending : ∀ msgId, b.pending.lookup msgId = none

theorem plain_new (sendMode : SendMode) : Plain (new sendMode .atMostOnce : Broker D) :=
  ⟨rfl, fun _ => AList.lookup_empty _⟩

theorem Plain.of_eq {b b' : Broker D} (hb : Plain b) (hdelivery : b'.delivery = b.delivery)
    (hpending : b'.pending = b.pending) : Plain b' := by
  refine ⟨hdelivery.trans hb.delivery, fun msgId => ?_⟩
  rw [hpending]
  exact hb.pending msgId

theorem Plain.transmit_eq {b : Broker D} (hb : Plain b) (identity : Option Identity) (data : D)
    (retries : ℕ) : b.transmit rand identity data retries = b.route identity (.data data) := by
  refine if_neg ?_
  simp [atLeastOnce, hb.delivery]

theorem pending_nextRoundRobin (b : Broker D) : b.nextRoundRobin.2.pending = b.pending := by
  rw [nextRoundRobin]
  split_ifs <;> rfl

theorem pending_route (b : Broker D) (identity : Option Identity) (env : Envelope D) :
    (b.route identity env).1.pending = b.pending := by
  have hnext := b.pending_nextRoundRobin
  unfold route
  split
  · rfl
  · split
    · rfl
    · split <;> rename_i heq <;> rw [heq] at hnext <;> exact hnext

theorem Plain.route {b : Broker D} (hb : Plain b) (identity : Option Identity)
    (env : Envelope D) : Plain (b.route identity env).1 :=
  hb.of_eq (b.sameTable_route _ _).delivery (b.pending_route _ _)

theorem Plain.transmit {b : Broker D} (hb : Plain b) (identity : Option Identity) (data : D)
    (retries : ℕ) : Plain (b.transmit rand identity data retries).1 := by
  rw [hb.transmit_eq]
  exact hb.route _ _

theorem Plain.sendAll {b : Broker D} (hb : Plain b) (h : b.conns.entries.isEmpty = false)
    (messages : List (BufferedMsg D)) : Plain (b.sendAll rand messages).1 := by
  induction messages generalizing b with
  | nil => exact hb
  | cons m rest ih =>
    have hsent := b.sameTable_transmit rand m.identity m.data maxRetries
    simp only [Broker.sendAll, handleSend_of_connected rand h]
    exact ih (hb.transmit rand _ _ _) (hsent.conns.symm ▸ h)

theorem Plain.handle {b : Broker D} (hb : Plain b) (cmd : Command D) :
    Plain (b.handle rand cmd).1 := by
  have hturn := b.turn_handle rand cmd
  generalize b.handle rand cmd = r at hturn
  cases hturn with
  | buffered | turnedAway | disconnected | resendIgnored => exact hb.of_eq rfl rfl
  | sent => exact hb.transmit rand _ _ _
  | @connected identity conn =>
    have hconnected : Plain (b.connect identity conn) := hb.of_eq rfl rfl
    exact hconnected.sendAll rand (isEmpty_connect _ _ _) _
  | @received identity env =>
    cases env with
    | data | hello | heartbeat => exact hb
    | dataReq msgId payload => exact hb.route _ _
    | ack msgId =>
      have hignored : b.handleReceived identity (.ack msgId) = (b, []) := by
        simp only [handleReceived, hb.pending]
      rw [hignored]
      exact hb
  | gaveUp h | rebuffered h | resent h => exact absurd ((hb.pending _).symm.trans h) (by simp)

/-- The envelopes for the only peer: those for nobody in particular and those for the peer. A
message that is directed at anybody else has no connection to go to, and `route` lets it fall. -/
def due (peer : Identity) (messages : List (BufferedMsg D)) : List (Envelope D) :=
  (messages.filter fun m => m.identity = none ∨ m.identity = some peer).map fun m => .data m.data

/-- One connection is in the table, and no acknowledgements are asked for. That is the broker during
the flush: `handleUp` has entered the connection, and the buffer was only filled because the table
was empty. -/
structure Alone (peer : Identity) (conn : ℕ) (b : Broker D) : Prop where
  plain : Plain b
  conns : b.conns = (∅ : AList fun _ : Identity => ℕ).insert peer conn
  order : b.order = [peer]

variable {peer : Identity} {conn : ℕ}

theorem Alone.sendTo {b : Broker D} (h : Alone peer conn b) (id : Identity) (env : Envelope D) :
    b.sendTo id env = if id = peer then [.trySend conn env] else [] := by
  rw [Broker.sendTo, h.conns]
  by_cases hid : id = peer
  · rw [hid, AList.lookup_insert, if_pos rfl]
  · rw [AList.lookup_insert_ne hid, AList.lookup_empty, if_neg hid]

/-- Both send modes reach the only peer. -/
theorem Alone.route {b : Broker D} (h : Alone peer conn b) (identity : Option Identity)
    (env : Envelope D) :
    (b.route identity env).2
      = if identity = none ∨ identity = some peer then [.trySend conn env] else [] := by
  cases identity with
  | some id =>
    show b.sendTo id env = _
    rw [h.sendTo]
    simp
  | none =>
    obtain hmode | hmode : b.sendMode = .publish ∨ b.sendMode = .roundRobin := by
      cases b.sendMode <;> simp
    · have hpublish : (b.route none env).2
          = b.conns.entries.map fun entry => .trySend entry.2 env := by
        simp only [Broker.route, hmode]
      rw [hpublish, h.conns]
      rfl
    · have hnext : b.nextRoundRobin = (some peer, { b with rrCursor := b.rrCursor + 1 }) := by
        simp [nextRoundRobin, h.order, Nat.mod_one]
      have hrobin : (b.route none env).2
          = { b with rrCursor := b.rrCursor + 1 }.sendTo peer env := by
        simp only [Broker.route, hmode, hnext]
      have hturned : Alone peer conn { b with rrCursor := b.rrCursor + 1 } :=
        ⟨h.plain.of_eq rfl rfl, h.conns, h.order⟩
      rw [hrobin, hturned.sendTo]
      simp

theorem Alone.transmit {b : Broker D} (h : Alone peer conn b) (identity : Option Identity)
    (data : D) : Alone peer conn (b.transmit rand identity data maxRetries).1 := by
  have htable := b.sameTable_transmit rand identity data maxRetries
  exact ⟨h.plain.transmit rand _ _ _, htable.conns.trans h.conns, htable.order.trans h.order⟩

/-- **What the flush offers.** The envelopes for the peer, in order, to its writer channel. -/
theorem Alone.sendAll {b : Broker D} (h : Alone peer conn b) (messages : List (BufferedMsg D)) :
    (b.sendAll rand messages).2 = (due peer messages).map (.trySend conn) := by
  have hconns : b.conns.entries.isEmpty = false := by
    rw [h.conns]
    rfl
  induction messages generalizing b with
  | nil => rfl
  | cons m rest ih =>
    have hsent := b.sameTable_transmit rand m.identity m.data maxRetries
    simp only [Broker.sendAll, handleSend_of_connected rand hconns]
    rw [ih (h.transmit rand _ _) (hsent.conns.symm ▸ hconns), h.plain.transmit_eq, h.route]
    by_cases hdue : m.identity = none ∨ m.identity = some peer
    · simp [due, hdue]
    · simp [due, hdue]

theorem Tidy.alone {b : Broker D} (htidy : Tidy b) (hplain : Plain b)
    (h : b.conns.entries.isEmpty = true) : Alone peer conn (b.connect peer conn) := by
  have hconns : b.conns = ∅ := AList.ext (List.isEmpty_iff.mp h)
  refine ⟨hplain.of_eq rfl rfl, ?_, ?_⟩
  · rw [Broker.connect, hconns]
  · rw [Broker.connect, htidy.order_eq_nil h, List.nil_append]

/-- What `handleUp` does when nobody is connected: it answers and offers the whole buffer. -/
theorem Tidy.handleUp {b : Broker D} (htidy : Tidy b) (hplain : Plain b)
    (h : b.conns.entries.isEmpty = true) (peer : Identity) (conn : ℕ) :
    (b.handleUp rand peer conn).1.buffer = [] ∧
      (b.handleUp rand peer conn).2
        = .accept conn true :: (due peer b.buffer).map (.trySend conn) := by
  have hnew : peer ∉ b.conns := by
    rw [AList.ext (List.isEmpty_iff.mp h) (t := (∅ : AList fun _ : Identity => ℕ))]
    exact AList.notMem_empty peer
  have hflushed := sameTable_sendAll rand (b.isEmpty_connect peer conn) b.buffer
  rw [handleUp_of_notMem rand hnew]
  exact ⟨hflushed.buffer, congrArg _ ((htidy.alone hplain h).sendAll rand b.buffer)⟩

end Broker

open Aiomsg.GoLib.Broker

namespace Socket

/-! ### Before a connection is entered -/

/-- The connection has been at the `select` that sends `cmdConnUp`. -/
def Known (s : Socket D) (c : ℕ) : Prop := (s.conns c).Known

/-- The channels of connections that the broker has not heard of are untouched.

Untouched means not closed, not answered and with an empty writer channel. The broker can only use a
channel that is in its table or in the operations left to do, so `within` and `uses` carry `fresh`
along. -/
structure Inv (s : Socket D) : Prop where
  plain : Plain s.broker
  tidy : Tidy s.broker
  within : Within s.Known s.broker
  uses : Uses s.Known s.ops
  fresh : ∀ c, ¬ s.Known c → (s.conns c).Fresh

theorem inv_new (sendMode : SendMode) : Inv (new sendMode .atMostOnce : Socket D) where
  plain := plain_new sendMode
  tidy := tidy_new _ _
  within id c h := absurd ((AList.lookup_empty id).symm.trans h) (by simp)
  uses := uses_nil
  fresh _ _ := Conn.fresh_new

variable {s t : Socket D}

theorem known_setConn {c : ℕ} {conn : Conn D} (h : s.Known c → conn.Known) {c' : ℕ}
    (hc' : s.Known c') : (s.setConn c conn).Known c' := by
  unfold Known
  by_cases heq : c' = c
  · subst heq
    rw [conns_setConn_self]
    exact h hc'
  · rw [conns_setConn_of_ne heq]
    exact hc'

/-- A connection may go on as long as its channels are still untouched while it is not known. -/
theorem Inv.setConn (h : Inv s) {c : ℕ} {conn : Conn D} (hknown : s.Known c → conn.Known)
    (hfresh : ¬ conn.Known → conn.Fresh) : Inv (s.setConn c conn) where
  plain := h.plain
  tidy := h.tidy
  within id c' hc' := known_setConn hknown (h.within id c' hc')
  uses op hop c' hc' := known_setConn hknown (h.uses op hop c' hc')
  fresh c' hc' := by
    by_cases heq : c' = c
    · subst heq
      unfold Known at hc'
      rw [conns_setConn_self] at hc' ⊢
      exact hfresh hc'
    · rw [conns_setConn_of_ne heq]
      unfold Known at hc'
      rw [conns_setConn_of_ne heq] at hc'
      exact h.fresh c' hc'

/-- The broker may take a command if it is not told of a connection it has not heard of. -/
theorem Inv.handle (h : Inv s) {cmd : Command D}
    (hcmd : ∀ id c, cmd = .connUp id c → s.Known c) : Inv (s.handle rand cmd) where
  plain := h.plain.handle rand cmd
  tidy := h.tidy.handle rand cmd
  within := (h.within.handle rand hcmd).1
  uses := (h.within.handle rand hcmd).2
  fresh := h.fresh

theorem Inv.perform (h : Inv s) {op : ChanOp D} {rest : List (ChanOp D)}
    (hops : s.ops = op :: rest) (hstep : { s with ops := rest }.perform op = some t) : Inv t := by
  obtain ⟨hbroker, hrest, hphase, hothers⟩ := performs hstep
  have hknown : t.Known = s.Known := by
    funext c
    simp only [Known, Conn.Known, hphase]
  have huses : Uses s.Known (op :: rest) := hops ▸ h.uses
  refine ⟨hbroker ▸ h.plain, hbroker ▸ h.tidy, ?_, ?_, fun c hc => ?_⟩
  · rw [hbroker, hknown]
    exact h.within
  · rw [hrest, hknown]
    exact fun op' hop' => huses op' (List.mem_cons_of_mem op hop')
  · rw [hknown] at hc
    rw [hothers c fun hop => hc (huses op List.mem_cons_self c hop)]
    exact h.fresh c hc

/-- **The invariant.** A connection's channels are untouched before it is entered. -/
theorem Inv.step {a : Action D} (h : Inv s) (hstep : (machine D rand).step s a = some t) :
    Inv t := by
  cases step_cases rand hstep with
  | handles timers ha hmessage hcmd =>
    have ht := h.handle rand fun id c heq => absurd heq (hcmd id c)
    exact ⟨ht.plain, ht.tidy, ht.within, ht.uses, ht.fresh⟩
  | @connUp c =>
    have hawaiting : { s.conns c with phase := .awaiting }.Known := ⟨by simp, by simp⟩
    have hs : Inv (s.setConn c { s.conns c with phase := .awaiting }) :=
      h.setConn (fun _ => hawaiting) fun hnot => absurd hawaiting hnot
    refine hs.handle rand fun id c' heq => ?_
    obtain ⟨-, rfl⟩ := Command.connUp.inj heq
    unfold Known
    rw [conns_setConn_self]
    exact hawaiting
  | @connDown c =>
    have hwaiting : { s.conns c with phase := .waiting, connCancelled := true }.Known :=
      ⟨by simp, by simp⟩
    exact (h.handle rand fun _ _ heq => absurd heq (by simp)).setConn (fun _ => hwaiting)
      fun hnot => absurd hwaiting hnot
  | @conn c action conn hconn =>
    have htakes := Conn.takes_step hconn
    exact h.setConn htakes.known fun hnot =>
      htakes.fresh (h.fresh c fun hknown => hnot (htakes.known hknown))
  | op hops hop => exact h.perform hops hop
  | abandon hops =>
    refine ⟨h.plain, h.tidy, h.within, fun op hop => ?_, h.fresh⟩
    exact h.uses op (hops ▸ List.mem_cons_of_mem _ hop)
  | shutdown => exact ⟨h.plain, h.tidy, h.within, h.within.shutdown, h.fresh⟩
  | aside => exact ⟨h.plain, h.tidy, h.within, h.uses, h.fresh⟩

/-! ### While nobody is connected -/

/-- While nobody is connected a message is buffered and no other command but `cmdConnUp` changes the
buffer. -/
theorem buffer_handle {b : Broker D} (hplain : Plain b) (h : b.conns.entries.isEmpty = true)
    {cmd : Command D} (hcmd : ∀ id c, cmd ≠ .connUp id c) :
    (b.handle rand cmd).1.conns.entries.isEmpty = true ∧
      (b.handle rand cmd).1.buffer = b.buffer ++ cmd.message.toList := by
  have hturn := b.turn_handle rand cmd
  generalize b.handle rand cmd = r at hturn
  cases hturn with
  | buffered => exact ⟨h, rfl⟩
  | sent hconns => exact absurd (hconns.symm.trans h) (by simp)
  | @turnedAway identity conn | @connected identity conn => exact absurd rfl (hcmd identity conn)
  | @disconnected identity =>
    refine ⟨?_, (List.append_nil _).symm⟩
    show (b.conns.entries.kerase identity).isEmpty = true
    rw [List.isEmpty_iff.mp h]
    rfl
  | @received identity env =>
    have htable := b.sameTable_handleReceived identity env
    exact ⟨htable.conns.symm ▸ h, htable.buffer.trans (List.append_nil _).symm⟩
  | resendIgnored => exact ⟨h, (List.append_nil _).symm⟩
  | gaveUp hp | rebuffered hp | resent hp =>
    exact absurd ((hplain.pending _).symm.trans hp) (by simp)

/-- The broker takes the action's command, or the action is none of the broker's. -/
theorem broker_step {a : Action D} (hstep : (machine D rand).step s a = some t) :
    (∃ cmd, t.broker = (s.broker.handle rand cmd).1 ∧ cmd.message = a.message ∧
      ∀ id c, cmd = .connUp id c → a = .connUp c) ∨
    t.broker = s.broker ∧ a.message = none := by
  cases step_cases rand hstep with
  | handles timers ha hmessage hcmd =>
    exact .inl ⟨_, rfl, hmessage, fun id c heq => absurd heq (hcmd id c)⟩
  | connUp =>
    refine .inl ⟨_, rfl, rfl, fun _ c' heq => ?_⟩
    rw [(Command.connUp.inj heq).2]
  | connDown => exact .inl ⟨_, rfl, rfl, fun _ _ heq => absurd heq (by simp)⟩
  | op hops hop => exact .inr ⟨(performs hop).broker, rfl⟩
  | conn | abandon | shutdown => exact .inr ⟨rfl, rfl⟩
  | aside timers recv done ha hmessage => exact .inr ⟨rfl, hmessage⟩

/-- As long as nobody comes up, what is sent is added to the buffer. -/
theorem buffer_run {actions : List (Action D)} (h : Inv s)
    (hempty : s.broker.conns.entries.isEmpty = true) (hnone : ∀ c, .connUp c ∉ actions)
    (hrun : (machine D rand).run s actions = some t) :
    t.broker.conns.entries.isEmpty = true ∧
      t.broker.buffer = s.broker.buffer ++ actions.filterMap Action.message := by
  induction actions generalizing s with
  | nil =>
    obtain rfl : s = t := Option.some.inj hrun
    exact ⟨hempty, (List.append_nil _).symm⟩
  | cons a rest ih =>
    obtain ⟨u, hstep, hrest⟩ := Machine.exists_step_of_run_cons hrun
    have hu : u.broker.conns.entries.isEmpty = true ∧
        u.broker.buffer = s.broker.buffer ++ a.message.toList := by
      rcases broker_step rand hstep with ⟨cmd, hbroker, hmessage, hup⟩ | ⟨hbroker, hmessage⟩
      · rw [hbroker, ← hmessage]
        refine buffer_handle rand h.plain hempty fun id c heq => hnone c ?_
        rw [hup id c heq]
        exact List.mem_cons_self
      · rw [hbroker, hmessage]
        exact ⟨hempty, (List.append_nil _).symm⟩
    obtain ⟨hconns, hbuffer⟩ := ih (h.step rand hstep) hu.1
      (fun c hc => hnone c (List.mem_cons_of_mem a hc)) hrest
    refine ⟨hconns, ?_⟩
    rw [hbuffer, hu.2, List.append_assoc]
    congr 1
    cases hmessage : a.message <;> simp [hmessage]

/-! ### While the flush is running -/

/-- The flush of the envelopes `due` to the connection `c` is running, and `ops` is what has been
done to its writer channel, which was empty in the beginning. The envelopes that have been offered
come first, and the handler has exactly the others still to offer. -/
structure Serving (c : ℕ) (due : List (Envelope D)) (ops : List (Chan.Op (Envelope D)))
    (s : Socket D) : Prop where
  closed : (s.conns c).closed = false
  buffer : s.broker.buffer = []
  channel : (Chan.machine _ _).run (.new _ _) ops = some (s.conns c).writerCh
  progress : ∃ left, ops.filterMap Chan.Op.offered ++ left = due ∧
    (s.ops = left.map (.trySend c) ∨
      s.ops = .accept c true :: left.map (.trySend c) ∧ (s.conns c).accept = none)

variable {c : ℕ} {envs : List (Envelope D)} {ops : List (Chan.Op (Envelope D))}

/-- What is done to the channel next. -/
theorem Serving.channel_append (h : Serving c envs ops s) {op : Option (Chan.Op (Envelope D))}
    {chan : Chan (Envelope D) writerBuffer}
    (hrun : (Chan.machine _ _).run (s.conns c).writerCh op.toList = some chan) :
    (Chan.machine _ _).run (.new _ _) (ops ++ op.toList) = some chan := by
  rw [Machine.run_append, h.channel]
  exact hrun

theorem offered_taken (action : ConnAction) :
    (action.taken (T := Envelope D)).toList.filterMap Chan.Op.offered = [] := by
  cases action <;> rfl

/-- A step of the connection by itself. -/
theorem Serving.takes (h : Serving c envs ops s) {c' : ℕ} {action : ConnAction} {conn : Conn D}
    (htakes : (s.conns c').Takes action.taken conn) :
    Serving c envs (ops ++ (traffic c s (.conn c' action)).toList) (s.setConn c' conn) := by
  obtain ⟨left, hdue, hops⟩ := h.progress
  simp only [traffic]
  by_cases heq : c' = c
  · subst heq
    rw [if_pos rfl]
    refine ⟨?_, h.buffer, ?_, left, ?_, ?_⟩
    · rw [conns_setConn_self]
      exact htakes.closed.trans h.closed
    · rw [conns_setConn_self]
      exact h.channel_append htakes.writerCh
    · rw [List.filterMap_append, offered_taken, List.append_nil]
      exact hdue
    · rw [conns_setConn_self]
      exact hops.imp_right fun ⟨hlist, haccept⟩ => ⟨hlist, htakes.accept haccept⟩
  · rw [if_neg heq]
    have hsame : (s.setConn c' conn).conns c = s.conns c :=
      conns_setConn_of_ne (fun h => heq h.symm) _ _
    refine ⟨?_, h.buffer, ?_, left, ?_, ?_⟩
    · rw [hsame]
      exact h.closed
    · rw [hsame]
      exact h.channel_append rfl
    · rw [Option.toList_none, List.append_nil]
      exact hdue
    · rw [hsame]
      exact hops

/-- The next operation of the handler: the answer, or the next offer. -/
theorem Serving.perform (h : Serving c envs ops s) {op : ChanOp D} {rest : List (ChanOp D)}
    (hops : s.ops = op :: rest) (hstep : { s with ops := rest }.perform op = some t) :
    Serving c envs (ops ++ (traffic c s .op).toList) t := by
  obtain ⟨left, hdue, hleft | ⟨hleft, haccept⟩⟩ := h.progress
  · cases left with
    | nil => exact absurd (hops.symm.trans hleft) (by simp)
    | cons env later =>
      obtain ⟨rfl, rfl⟩ := List.cons.inj (hops.symm.trans hleft)
      obtain ⟨-, ⟨⟩⟩ := Option.ite_none_left_eq_some.mp hstep
      have htraffic : traffic c s .op = some (.offer env) := by
        simp only [traffic, hops, List.head?_cons, Option.bind_some, offer, if_pos]
      rw [htraffic]
      refine ⟨?_, h.buffer, ?_, later, ?_, .inl rfl⟩
      · rw [conns_setConn_self]
        exact h.closed
      · rw [conns_setConn_self]
        exact h.channel_append rfl
      · rw [List.filterMap_append, ← hdue]
        simp [Chan.Op.offered]
  · obtain ⟨rfl, rfl⟩ := List.cons.inj (hops.symm.trans hleft)
    have htraffic : traffic c s .op = none := by
      simp only [traffic, hops, List.head?_cons, Option.bind_some, offer]
    simp only [Socket.perform] at hstep
    rw [haccept] at hstep
    cases hstep
    rw [htraffic, Option.toList_none, List.append_nil]
    refine ⟨?_, h.buffer, ?_, left, hdue, .inl rfl⟩
    · rw [conns_setConn_self]
      exact h.closed
    · rw [conns_setConn_self]
      exact h.channel

/-- **One step.** Whatever is done during the flush, what has been offered to the channel and what
the handler has still to offer is what was due. -/
theorem Serving.step {a : Action D} (h : Serving c envs ops s) (ha : a.turns = false)
    (hstep : (machine D rand).step s a = some t) :
    Serving c envs (ops ++ (traffic c s a).toList) t := by
  cases step_cases rand hstep with
  | handles timers hturns => exact absurd (ha.symm.trans hturns) (by simp)
  | connUp | connDown | shutdown => exact absurd ha (by simp [Action.turns])
  | conn hconn => exact h.takes (Conn.takes_step hconn)
  | op hops hop => exact h.perform hops hop
  | abandon hops =>
    obtain ⟨left, -, hleft | ⟨hleft, -⟩⟩ := h.progress
    · cases left <;> exact absurd (hops.symm.trans hleft) (by simp)
    · exact absurd (hops.symm.trans hleft) (by simp)
  | aside timers recv done hturns hmessage htraffic =>
    rw [htraffic c, Option.toList_none, List.append_nil]
    exact ⟨h.closed, h.buffer, h.channel, h.progress⟩

/-- **The run.** What is done to the channel is what the actions of the run do, one by one. -/
theorem Serving.run {actions : List (Action D)} (h : Serving c envs ops s)
    (hquiet : ∀ a ∈ actions, a.turns = false)
    (hrun : (machine D rand).run s actions = some t) :
    Serving c envs (ops ++ (machine D rand).observed (traffic c) s actions) t := by
  induction actions generalizing s ops with
  | nil =>
    obtain rfl : s = t := Option.some.inj hrun
    rw [Machine.observed, List.append_nil]
    exact h
  | cons a rest ih =>
    obtain ⟨u, hstep, hrest⟩ := Machine.exists_step_of_run_cons hrun
    rw [Machine.observed_cons_of_step hstep, ← List.append_assoc]
    exact ih (h.step rand (hquiet a List.mem_cons_self) hstep)
      (fun a' ha' => hquiet a' (List.mem_cons_of_mem a ha')) hrest

/-- The handler by itself: it offers what is left and returns. -/
theorem exists_run_offers {left : List (Envelope D)} (hops : s.ops = left.map (.trySend c))
    (hclosed : (s.conns c).closed = false) :
    ∃ t, (machine D rand).run s (List.replicate s.ops.length .op) = some t ∧ t.ops = [] ∧
      (t.conns c).writerCh = (s.conns c).writerCh.offerAll left := by
  rw [hops, List.length_map]
  induction left generalizing s with
  | nil => exact ⟨s, rfl, hops, rfl⟩
  | cons env later ih =>
    let u : Socket D := { s with ops := later.map (.trySend c) }.setConn c
      { s.conns c with writerCh := (s.conns c).writerCh.offer env }
    have hstep : (machine D rand).step s .op = some u := by
      show s.step rand .op = some u
      simp only [Socket.step, hops, List.map_cons, Socket.perform]
      exact if_neg (by simp [hclosed])
    have hu : u.conns c = { s.conns c with writerCh := (s.conns c).writerCh.offer env } :=
      conns_setConn_self _ _ _
    obtain ⟨t, hrun, hdone, hchan⟩ := ih (s := u) rfl (by rw [hu]; exact hclosed)
    refine ⟨t, Machine.run_cons_of_step hstep hrun, hdone, ?_⟩
    rw [hchan, hu]
    rfl

/-- The handler by itself: it answers if it has not, offers what is left and returns. It waits for
none of the other goroutines. -/
theorem exists_run_ops {left : List (Envelope D)} (hclosed : (s.conns c).closed = false)
    (hops : s.ops = left.map (.trySend c) ∨
      s.ops = .accept c true :: left.map (.trySend c) ∧ (s.conns c).accept = none) :
    ∃ t, (machine D rand).run s (List.replicate s.ops.length .op) = some t ∧ t.ops = [] ∧
      (t.conns c).writerCh = (s.conns c).writerCh.offerAll left := by
  rcases hops with hops | ⟨hops, haccept⟩
  · exact exists_run_offers rand hops hclosed
  · let u : Socket D := { s with ops := left.map (.trySend c) }.setConn c
      { s.conns c with accept := some true }
    have hstep : (machine D rand).step s .op = some u := by
      show s.step rand .op = some u
      simp only [Socket.step, hops, Socket.perform]
      rw [haccept]
    have hu : u.conns c = { s.conns c with accept := some true } := conns_setConn_self _ _ _
    obtain ⟨t, hrun, hdone, hchan⟩ :=
      exists_run_offers rand (s := u) rfl (by rw [hu]; exact hclosed)
    rw [hops]
    refine ⟨t, Machine.run_cons_of_step hstep hrun, hdone, ?_⟩
    rw [hchan, hu]

/-- The flush begins: nobody is connected, and the broker takes `cmdConnUp`. -/
theorem Inv.serving (h : Inv s) (hempty : s.broker.conns.entries.isEmpty = true)
    (hup : (machine D rand).step s (.connUp c) = some t) :
    Serving c (due (s.conns c).identity s.broker.buffer) [] t ∧
      (t.conns c).writerCh = .new _ _ ∧ (t.conns c).accept = none ∧
      t.ops = .accept c true ::
        (due (s.conns c).identity s.broker.buffer).map (.trySend c) := by
  obtain ⟨⟨-, hphase⟩, ⟨⟩⟩ := Option.ite_none_right_eq_some.mp hup
  have hfresh := h.fresh c fun hknown => hknown.2 hphase
  obtain ⟨hbuffer, hops⟩ := h.tidy.handleUp rand h.plain hempty (s.conns c).identity c
  rw [conns_setConn_self]
  refine ⟨⟨?_, hbuffer, ?_, _, rfl, .inr ⟨hops, ?_⟩⟩, hfresh.writerCh, hfresh.accept, hops⟩
  · rw [conns_setConn_self]
    exact hfresh.closed
  · rw [conns_setConn_self]
    exact congrArg some hfresh.writerCh.symm
  · rw [conns_setConn_self]
    exact hfresh.accept

/-- When the handler has returned, all that was due has been offered. -/
theorem Serving.offered_eq (h : Serving c envs ops s) (hdone : s.ops = []) :
    ops.filterMap Chan.Op.offered = envs := by
  obtain ⟨left, hdue, hleft | ⟨hleft, -⟩⟩ := h.progress
  · obtain rfl : left = [] := List.map_eq_nil_iff.mp (hleft.symm.trans hdone)
    exact (List.append_nil _).symm.trans hdue
  · exact absurd (hleft.symm.trans hdone) (by simp)

/-- What has been put on the channel: some of the envelopes that have been offered, in order, and
the first `writerBuffer` of them in any case. -/
theorem Serving.put (h : Serving c envs ops s) :
    (s.conns c).writerCh.put.Sublist (ops.filterMap Chan.Op.offered) ∧
      (ops.filterMap Chan.Op.offered).take writerBuffer <+: (s.conns c).writerCh.put := by
  obtain ⟨through, hput, hsub, hfirst⟩ := Chan.put_of_run h.channel
  have hput : (s.conns c).writerCh.put = through := hput
  exact ⟨hput ▸ hsub, hput ▸ hfirst⟩

/-- If there is room for all that was due, it has been put on the channel. -/
theorem Serving.put_eq (h : Serving c envs ops s) (hdone : s.ops = [])
    (hfits : envs.length ≤ writerBuffer) : (s.conns c).writerCh.put = envs := by
  have hoffered := h.offered_eq hdone
  have hput := Chan.put_of_fits h.channel (by rw [hoffered]; exact hfits)
  rw [hoffered] at hput
  exact hput

end Socket

open Socket

/-- **The flush.** Whatever has happened before: what is sent while nobody is connected is in the
buffer when a connection comes up, and `handleUp` takes all of it. Take any interleaving of the
other goroutines with the handler.

* What the actions have done to the connection's writer channel, one by one, is a run of an empty
  channel of `writerBuffer` places: an offer puts the envelope on it unless it is full at that turn,
  and then the envelope is gone.
* The envelopes that have been offered are the first of those due to the connection, in order, and
  the handler has exactly the others still to offer. When it is through it has offered them all.
* What was put on the channel is in order, and the first `writerBuffer` offers are among it.
* The handler needs nobody else: doing its own operations one after another it gets to its end.

So all envelopes get through under every scheduling if and only if there are no more than
`writerBuffer`. -/
theorem flush_puts (sendMode : SendMode) (before waiting : List (Action D)) (c : ℕ)
    {s s₁ s₂ : Socket D}
    (hbefore : (machine D rand).run (.new sendMode .atMostOnce) before = some s)
    (hempty : s.broker.conns.entries.isEmpty = true) (hnone : ∀ c, .connUp c ∉ waiting)
    (hwaiting : (machine D rand).run s waiting = some s₁)
    (hup : (machine D rand).step s₁ (.connUp c) = some s₂) :
    let messages := s.broker.buffer ++ waiting.filterMap Action.message
    let envs := due (s₁.conns c).identity messages
    s₁.broker.buffer = messages ∧
      (∀ flush s₃, (∀ a ∈ flush, a.turns = false) →
        (machine D rand).run s₂ flush = some s₃ →
        let ops := (machine D rand).observed (traffic c) s₂ flush
        let offered := ops.filterMap Chan.Op.offered
        s₃.broker.buffer = [] ∧
          (Chan.machine _ _).run (.new _ writerBuffer) ops = some (s₃.conns c).writerCh ∧
          (∃ left, offered ++ left = envs ∧
            (s₃.ops = left.map (.trySend c) ∨ s₃.ops = .accept c true :: left.map (.trySend c))) ∧
          (s₃.ops = [] → offered = envs) ∧
          (s₃.conns c).writerCh.put.Sublist offered ∧
          offered.take writerBuffer <+: (s₃.conns c).writerCh.put ∧
          ∃ s₄, (machine D rand).run s₃ (List.replicate s₃.ops.length .op) = some s₄ ∧
            s₄.ops = []) ∧
      ((∀ flush s₃, (∀ a ∈ flush, a.turns = false) →
        (machine D rand).run s₂ flush = some s₃ → s₃.ops = [] →
        (s₃.conns c).writerCh.put = envs) ↔ envs.length ≤ writerBuffer) := by
  intro messages envs
  have hs : Inv s := Machine.invariant (fun _ _ _ hI => hI.step rand) hbefore (inv_new sendMode)
  obtain ⟨hempty₁, hbuffer⟩ := buffer_run rand hs hempty hnone hwaiting
  have hs₁ : Inv s₁ := Machine.invariant (fun _ _ _ hI => hI.step rand) hwaiting hs
  obtain ⟨hserving, hnew, haccept, hops⟩ := hs₁.serving rand hempty₁ hup
  rw [hbuffer] at hserving hops
  refine ⟨hbuffer, fun flush s₃ hquiet hflush => ?_, fun hall => ?_, fun hfits => ?_⟩
  · have hs₃ := hserving.run rand hquiet hflush
    rw [List.nil_append] at hs₃
    obtain ⟨left, hdue, hleft⟩ := hs₃.progress
    obtain ⟨s₄, hrun, hdone, -⟩ := exists_run_ops rand hs₃.closed hleft
    exact ⟨hs₃.buffer, hs₃.channel, ⟨left, hdue, hleft.imp_right And.left⟩, hs₃.offered_eq,
      hs₃.put.1, hs₃.put.2, s₄, hrun, hdone⟩
  · -- The connection goroutine does nothing until `handleUp` has returned.
    obtain ⟨s₃, hflush, hdone, hchan⟩ :=
      exists_run_ops rand hserving.closed (.inr ⟨hops, haccept⟩)
    have hquiet : ∀ a ∈ List.replicate s₂.ops.length (Action.op : Action D), a.turns = false := by
      intro a ha
      rw [List.eq_of_mem_replicate ha]
      rfl
    have hput : (s₃.conns c).writerCh.put = envs.take writerBuffer := by
      rw [hchan, hnew, Chan.put_offerAll, Chan.put_new, Chan.room_new, List.nil_append]
    have heq : envs.take writerBuffer = envs :=
      hput.symm.trans (hall _ s₃ hquiet hflush hdone)
    calc envs.length = (envs.take writerBuffer).length := congrArg List.length heq.symm
      _ ≤ writerBuffer := List.length_take_le _ _
  · intro flush s₃ hquiet hflush hdone
    exact (hserving.run rand hquiet hflush).put_eq hdone hfits

/-- Four messages are sent while nobody is connected, the second of them to another peer. A peer
connects, and its writer is started and takes an envelope while the flush is running. -/
theorem flush_puts_three :
    let peer : Identity := List.Vector.replicate 16 1
    let other : Identity := List.Vector.replicate 16 2
    let waiting : List (Action ℕ) := [.send none 7, .send (some other) 8, .send (some peer) 9,
      .send none 10, .conn 0 (.handshake peer)]
    let flush : List (Action ℕ) := [.op, .op, .conn 0 .readAccept, .conn 0 .startWriter,
      .conn 0 .take, .op]
    ∃ s₁ s₂ s₃, (machine ℕ fun _ => peer).run (.new .publish .atMostOnce) waiting = some s₁ ∧
      (machine ℕ fun _ => peer).step s₁ (.connUp 0) = some s₂ ∧
      (machine ℕ fun _ => peer).run s₂ flush = some s₃ ∧
      (machine ℕ fun _ => peer).observed (traffic 0) s₂ flush
        = [.offer (.data 7), .take, .offer (.data 9)] ∧
      s₃.ops = [.trySend 0 (.data 10)] ∧
      (Chan.machine _ _).run (.new _ writerBuffer)
        ((machine ℕ fun _ => peer).observed (traffic 0) s₂ flush)
          = some (s₃.conns 0).writerCh ∧
      (∃ s₄, (machine ℕ fun _ => peer).run s₃ (List.replicate s₃.ops.length .op) = some s₄ ∧
        s₄.ops = []) ∧
      ∀ flush' s₄, (∀ a ∈ flush', a.turns = false) →
        (machine ℕ fun _ => peer).run s₂ flush' = some s₄ → s₄.ops = [] →
        (s₄.conns 0).writerCh.put = [.data 7, .data 9, .data 10] := by
  intro peer other waiting flush
  refine ⟨_, _, _, rfl, rfl, rfl, rfl, rfl, ?_⟩
  have h := flush_puts (fun _ => peer) .publish [] waiting 0 rfl rfl (by simp [waiting]) rfl rfl
  have hflush := h.2.1 flush _ (by simp [flush, Action.turns]) rfl
  exact ⟨hflush.2.1, hflush.2.2.2.2.2.2, h.2.2.mpr (by decide)⟩

/-- 257 messages are sent, a peer connects, and its connection goroutine does nothing before
`handleUp` has returned. Then 256 messages have been put on the writer channel and none is
buffered. -/
theorem flush_drops :
    let peer : Identity := List.Vector.replicate 16 1
    ((machine ℕ fun _ => peer).run (.new .roundRobin .atMostOnce)
        (List.replicate 257 (.send none 7) ++ [.conn 0 (.handshake peer), .connUp 0] ++
          List.replicate 258 .op)).map
        (fun s => (s.ops.isEmpty, s.broker.buffer.isEmpty, (s.conns 0).writerCh.put.length))
      = some (true, true, 256) := by
  decide +kernel

end GoLib

end Aiomsg
