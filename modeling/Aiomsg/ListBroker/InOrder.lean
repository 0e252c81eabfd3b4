import Aiomsg.ListBroker.Outgoing

/-!
# The order of messages without a delivery guarantee

Without a delivery guarantee the transmissions, and behind them the buffer, are what the application
handed over, in this order: the buffer is in use only while nobody is connected, and the first to
register gets all of it before anything else. As a connection sees a subsequence of the
transmissions, it sees a subsequence of what the application handed over.

In the JavaScript ports a message that is sent after the socket was closed is dropped, be it from
the application or from the buffer.

## Scope

This is the sending side up to the connection's queue. With a delivery guarantee the order is not
kept, and is not meant to be: a message that is sent again comes after others that were sent later.

## Main results

* `ListBroker.inLine_run` — transmissions and buffer are what was handed over, in order
* `Served.in_order`
-/

namespace Aiomsg

variable {κ C D : Type}

/-- The payloads of the messages among some frames. -/
def payloadsOf (frames : List (C × Envelope D)) : List D := (messagesOf frames).map Prod.snd

namespace ListBroker

/-- Whom the transmitted messages were for, and what they were. -/
def transmittedMessages (b : ListBroker κ C D) : List (Option Identity × D) :=
  b.transmitted.map fun t => (t.2.identity, t.2.data)

/-- The messages in the order they go out: the transmitted ones and the buffered ones. -/
def line (b : ListBroker κ C D) : List (Option Identity × D) := b.transmittedMessages ++ b.buffer

/-- Without a delivery guarantee, the messages are in line. Those in the hands of an operation come
next. -/
structure InLine (P : Variant κ D) (held : List (Option Identity × D)) (b : ListBroker κ C D) :
    Prop where
  delivery : b.delivery = .atMostOnce
  pending : b.pending = []
  idle : b.conns = [] ∨ b.buffer = []
  sublist : (b.line ++ held).Sublist b.handed
  eq : (P.checksClosed && b.closed) = false → b.line ++ held = b.handed

section InLine

variable {P : Variant κ D} {env : Outside} {held : List (Option Identity × D)}
  {b b' : ListBroker κ C D}

theorem inLine_new (P : Variant κ D) (sendMode : SendMode) (cursor : κ) :
    InLine P [] (new sendMode .atMostOnce cursor : ListBroker κ C D) where
  delivery := rfl
  pending := rfl
  idle := .inl rfl
  sublist := List.Sublist.refl _
  eq _ := rfl

/-- Routing changes nothing of this. -/
theorem InLine.of_routes (h : InLine P held b) (hroutes : Routes b b') : InLine P held b' := by
  have hline : b'.line = b.line := by
    rw [line, line, transmittedMessages, transmittedMessages, hroutes.transmitted, hroutes.buffer]
  refine ⟨hroutes.delivery.trans h.delivery, hroutes.pending.trans h.pending, ?_, ?_, ?_⟩
  · rw [hroutes.conns, hroutes.buffer]
    exact h.idle
  · rw [hline, hroutes.handed]
    exact h.sublist
  · rw [hline, hroutes.handed, hroutes.closed]
    exact h.eq

theorem InLine.atLeastOnce (h : InLine P held b) (target : Option Identity) :
    b.atLeastOnce target = false := by
  rw [ListBroker.atLeastOnce, h.delivery]
  rfl

/-- The next message is transmitted, the buffer being empty. -/
theorem InLine.transmit {target : Option Identity} {data : D}
    (h : InLine P ((target, data) :: held) b) (hbuffer : b.buffer = []) (retries : ℕ) :
    InLine P held (b.transmit P env target data retries) := by
  refine InLine.of_routes ?_
    (routes_transmit_of_atMostOnce P env (h.atLeastOnce target) data retries)
  have hline : (b.mark none ⟨target, data, retries⟩).line ++ held =
      b.line ++ (target, data) :: held := by
    rw [line, line, transmittedMessages, transmittedMessages, mark, hbuffer, List.map_append]
    simp
  refine ⟨h.delivery, h.pending, h.idle, ?_, ?_⟩
  · rw [hline]
    exact h.sublist
  · rw [hline]
    exact h.eq

theorem InLine.send {target : Option Identity} {data : D}
    (h : InLine P ((target, data) :: held) b) : InLine P held (b.send P env target data) := by
  unfold ListBroker.send
  split
  · rename_i hclosed
    refine ⟨h.delivery, h.pending, h.idle, ?_, ?_⟩
    · have hdrop : (b.line ++ held).Sublist (b.line ++ (target, data) :: held) :=
        (List.Sublist.refl _).append (List.sublist_cons_self _ _)
      exact hdrop.trans h.sublist
    · intro hopen
      exact absurd (hclosed.symm.trans hopen) (by simp)
  · split
    · rename_i hempty
      have hline : b.line ++ [(target, data)] ++ held = b.line ++ (target, data) :: held := by
        simp
      refine ⟨h.delivery, h.pending, .inl (List.isEmpty_iff.mp hempty), ?_, ?_⟩
      · rw [line, ← List.append_assoc]
        exact hline ▸ h.sublist
      · rw [line, ← List.append_assoc]
        exact hline ▸ h.eq
    · rename_i hne
      exact h.transmit (h.idle.resolve_left (by simpa using hne)) _

theorem InLine.sendAll (messages : List (Option Identity × D))
    (h : InLine P (messages ++ held) b) : InLine P held (b.sendAll P env messages) := by
  induction messages generalizing b with
  | nil => exact h
  | cons message rest ih => exact ih h.send

/-- Every operation keeps the messages in line. -/
theorem InLine.step [DecidableEq C] (h : InLine P [] b) (op : Op C D) :
    InLine P [] (b.step P env op) := by
  cases op with
  | send target data =>
    refine InLine.send ⟨h.delivery, h.pending, h.idle, ?_, ?_⟩
    · exact (List.append_nil _ ▸ h.sublist).append (List.Sublist.refl _)
    · intro hopen
      have heq := h.eq hopen
      rw [List.append_nil] at heq
      exact congrArg (· ++ [(target, data)]) heq
  | register identity conn =>
    rcases step_register_cases P env b identity conn with ⟨heq, -⟩ | ⟨heq, -⟩
    · rw [heq]
      exact h
    · rw [heq]
      have hline : (b.connect identity conn).line ++ (b.buffer ++ []) = b.line ++ [] := by
        rw [line, line, connect, transmittedMessages, transmittedMessages]
        simp
      refine InLine.sendAll b.buffer ⟨h.delivery, h.pending, .inr rfl, ?_, ?_⟩
      · rw [hline]
        exact h.sublist
      · rw [hline]
        exact h.eq
  | unregister conn =>
    refine ⟨h.delivery, h.pending, h.idle.imp_left fun hconns => ?_, h.sublist, h.eq⟩
    show b.conns.eraseP _ = []
    rw [hconns]
    rfl
  | answer sender msgId => exact h.of_routes (routes_route P b (some sender) (.ack msgId))
  | acknowledge msgId =>
    refine ⟨h.delivery, ?_, h.idle, h.sublist, h.eq⟩
    show b.pending.filter _ = []
    rw [h.pending]
    rfl
  | expire due =>
    have hsame : b.step P env (.expire due) = { b with pending := [] } := by
      rw [ListBroker.step, expire, h.pending]
      rfl
    rw [hsame]
    exact ⟨h.delivery, rfl, h.idle, h.sublist, h.eq⟩
  | close forget =>
    refine ⟨h.delivery, ?_, h.idle, h.sublist, fun hopen => h.eq ?_⟩
    · show b.pending.filter _ = []
      rw [h.pending]
      rfl
    · have hchecks : (P.checksClosed && true) = false := hopen
      rw [Bool.and_true] at hchecks
      rw [hchecks, Bool.false_and]

theorem inLine_run [DecidableEq C] (h : InLine P [] b) (ops : List (Op C D)) :
    InLine P [] (b.run P env ops) := by
  induction ops generalizing b with
  | nil => exact h
  | cons op rest ih => exact ih (h.step op)

end InLine

end ListBroker

namespace Served

open ListBroker

variable [DecidableEq C] {P : Variant κ D} {env : Outside}

theorem inLine_of_run {sendMode : SendMode} {cursor : κ} {es : List (Event C D)}
    {w : Served κ C D}
    (hrun : (machine P env).run (new sendMode .atMostOnce cursor) es = some w) :
    InLine P [] w.toListBroker := by
  obtain ⟨ops, hops⟩ := exists_ops_of_run hrun
  rw [hops]
  exact inLine_run (inLine_new P sendMode cursor) ops

/-- The payloads of the transmissions are a part of those handed over. -/
theorem stamps_sublist {sendMode : SendMode} {cursor : κ} {es : List (Event C D)}
    {w : Served κ C D}
    (hrun : (machine P env).run (new sendMode .atMostOnce cursor) es = some w) :
    ((ListBroker.stamps w.transmitted).map Prod.snd).Sublist
      ((es.filterMap Event.send?).map Prod.snd) := by
  have hline := inLine_of_run hrun
  have hsends : w.handed = es.filterMap Event.send? := (logs_of_run hrun).handed
  have hstamps : (ListBroker.stamps w.transmitted).map Prod.snd =
      w.transmittedMessages.map Prod.snd := by
    rw [ListBroker.stamps, transmittedMessages, List.map_map, List.map_map]
    rfl
  have hhanded := hline.sublist
  rw [List.append_nil, hsends] at hhanded
  rw [hstamps]
  exact ((List.sublist_append_left _ _).trans hhanded).map _

/-- What is put out for a connection is a part of what was handed over. -/
theorem payloads_sublist {sendMode : SendMode} {cursor : κ} {es : List (Event C D)}
    {w : Served κ C D}
    (hrun : (machine P env).run (new sendMode .atMostOnce cursor) es = some w) (conn : C) :
    (payloadsOf (framesFor conn w.out)).Sublist ((es.filterMap Event.send?).map Prod.snd) := by
  have houtgoing := (healthy_of_run hrun (healthy_new sendMode .atMostOnce cursor)).outgoing
  exact ((houtgoing.single conn).map Prod.snd).trans (stamps_sublist hrun)

/-- **Messages keep their order.** On any connection, the payloads put out are a subsequence of
those handed over; under `RoundRobin` those put out altogether are one. While the socket is open,
what was handed over is what was transmitted and what waits in the buffer. -/
theorem in_order {sendMode : SendMode} {cursor : κ} {es : List (Event C D)} {w : Served κ C D}
    (hrun : (machine P env).run (new sendMode .atMostOnce cursor) es = some w) :
    let sends := es.filterMap Event.send?
    (∀ conn, (payloadsOf (framesFor conn w.out)).Sublist (sends.map Prod.snd)) ∧
      (w.sendMode = .roundRobin → (payloadsOf w.out).Sublist (sends.map Prod.snd)) ∧
      (w.closed = false → w.transmittedMessages ++ w.buffer = sends) := by
  intro sends
  refine ⟨payloads_sublist hrun, fun hmode => ?_, fun hopen => ?_⟩
  · have houtgoing := (healthy_of_run hrun (healthy_new sendMode .atMostOnce cursor)).outgoing
    exact ((houtgoing.whole hmode).map Prod.snd).trans (stamps_sublist hrun)
  · have heq := (inLine_of_run hrun).eq (by rw [hopen, Bool.and_false])
    rw [List.append_nil, show w.handed = sends from (logs_of_run hrun).handed] at heq
    exact heq

theorem in_order_firstPeer :
    ∃ w, firstPeer .atMostOnce = some w ∧ payloadsOf (framesFor 3 w.out) = [5, 6, 7] ∧
      (payloadsOf (framesFor 3 w.out)).Sublist [5, 6, 7] :=
  ⟨_, rfl, rfl, (in_order (show firstPeer .atMostOnce = some _ from rfl)).1 3⟩

end Served

end Aiomsg
