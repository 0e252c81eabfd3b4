import Aiomsg.Lib.Relay
import Aiomsg.Python.Asyncio
import Aiomsg.Python.Blocking
import Mathlib.Data.List.ReduceOption

/-!
# The order of sends

Both senders take a message off the send queue before they know whether there is a connection, and
put it back when there is none. They put it back at the end. If another message is in the queue at
that moment, the two have changed places.

Seen from the undirected messages alone a socket with at-most-once delivery is a relay: a queue, a
message in hand and the connections that are still to get it. Its one step that a relay does not
have is putting a message back behind another. So along the runs in which that does not happen
(`PutsBackAlone`) the relay's order is the socket's.

## Scope

Order is that of the calls of `send` that have returned. Directed messages go their own ways and are
not compared. With acknowledgements a message may be sent again later on purpose, and so nothing is
claimed of that mode.

## Main results

* `Blocking.relay_step`, `Asyncio.relay_step` — a step of a socket is a run of its relay
* `inSendOrder_of_putsBackAlone` — the order, in both packages
* `sends_swapped` — a run of each in which two messages change places
-/

namespace Aiomsg

namespace Python

variable {D : Type}

/-! ### Sockets as relays -/

theorem undirectedPuts_append (log later : List (Event D)) :
    undirectedPuts (log ++ later) = undirectedPuts log ++ undirectedPuts later :=
  List.filterMap_append

/-- A relay that holds an item it has handed to nobody. A directed item is none of its business. -/
def Item.taken (item : Item D) : Relay.Hand ℕ :=
  match item.undirected? with
  | some n => .taken n
  | none => .empty

/-- A relay that hands an item out. -/
def Item.serving (targets : List ℕ) (item : Item D) : Relay.Hand ℕ :=
  match item.undirected? with
  | some n => .serving n targets
  | none => .empty

theorem undirectedPuts_written (targets : List ℕ) (item : Item D) :
    undirectedPuts (targets.map (.written · item)) =
      match item.undirected? with
      | some n => targets.map fun c => (n, c)
      | none => [] := by
  cases hn : item.undirected? with
  | none => simp [undirectedPuts, Event.undirectedPut?, List.filterMap_map, Function.comp_def, hn]
  | some n => simp [undirectedPuts, Event.undirectedPut?, List.filterMap_map, Function.comp_def, hn]

/-- A socket as a relay, from the number of messages, the queue, the hand and the log. -/
def relayOf (messages : ℕ) (queue : List (Item D)) (hand : Relay.Hand ℕ) (log : List (Event D)) :
    Relay ℕ where
  next := messages
  queue := queue.filterMap Item.undirected?
  hand := hand
  out := undirectedPuts log

/-- There is a run of the relay from one state to another. -/
def Relays (r r' : Relay ℕ) : Prop := ∃ ops, (Relay.machine ℕ).run r ops = some r'

section Relays

variable {messages : ℕ} {queue : List (Item D)} {hand : Relay.Hand ℕ} {log : List (Event D)}

theorem Relays.refl (r : Relay ℕ) : Relays r r := ⟨[], rfl⟩

theorem Relays.of_step {r r' : Relay ℕ} (op : Relay.Op ℕ) (h : r.step op = some r') :
    Relays r r' := by
  refine ⟨[op], ?_⟩
  rw [Machine.run_cons]
  show (r.step op).bind _ = _
  rw [h]
  rfl

theorem Relays.trans {r r' r'' : Relay ℕ} (h : Relays r r') (h' : Relays r' r'') :
    Relays r r'' := by
  obtain ⟨first, hfirst⟩ := h
  obtain ⟨later, hlater⟩ := h'
  refine ⟨first ++ later, ?_⟩
  rw [Machine.run_append, hfirst]
  exact hlater

/-- `send` gives the next number to its message. -/
theorem relays_send (item : Item D) (horigin : item.origin = .message messages) :
    Relays (relayOf messages queue hand log)
      (relayOf (messages + 1) (queue ++ [item]) hand (log ++ [.queued item])) := by
  have hlog : undirectedPuts (log ++ [.queued item]) = undirectedPuts log := by
    simp [undirectedPuts, Event.undirectedPut?]
  cases hidentity : item.identity with
  | none =>
    refine .of_step .send ?_
    simp [Relay.step, relayOf, hlog, Item.undirected?, hidentity, horigin]
  | some identity =>
    refine .of_step .skip ?_
    simp [Relay.step, relayOf, hlog, Item.undirected?, hidentity]

/-- An item that is no message of the application passes by. -/
theorem relays_pass (item : Item D) (hitem : item.undirected? = none) :
    Relays (relayOf messages queue hand log)
      (relayOf messages (queue ++ [item]) hand (log ++ [.queued item])) := by
  have hsame : relayOf messages (queue ++ [item]) hand (log ++ [.queued item])
      = relayOf messages queue hand log := by
    simp [relayOf, undirectedPuts, Event.undirectedPut?, hitem]
  rw [hsame]
  exact .refl _

theorem relays_take (item : Item D) :
    Relays (relayOf messages (item :: queue) .empty log)
      (relayOf messages queue item.taken log) := by
  cases hn : item.undirected? with
  | none =>
    have hsame : relayOf messages (item :: queue) .empty log
        = relayOf messages queue item.taken log := by
      simp [relayOf, Item.taken, hn]
    rw [hsame]
    exact .refl _
  | some n =>
    refine .of_step .take ?_
    simp [Relay.step, relayOf, Item.taken, hn]

theorem relays_drop :
    Relays (relayOf messages queue hand log) (relayOf messages queue .empty log) :=
  .of_step .drop rfl

theorem relays_serve {targets : List ℕ} (item : Item D) (hnodup : targets.Nodup) :
    Relays (relayOf messages queue item.taken log)
      (relayOf messages queue (item.serving targets) log) := by
  cases hn : item.undirected? with
  | none =>
    simp only [Item.taken, Item.serving, hn]
    exact .refl _
  | some n =>
    refine .of_step (.serve targets) ?_
    simp [Relay.step, relayOf, Item.taken, Item.serving, hn, hnodup]

theorem relays_deliver (c : ℕ) (rest : List ℕ) (item : Item D) :
    Relays (relayOf messages queue (item.serving (c :: rest)) log)
      (relayOf messages queue (item.serving rest) (log ++ [.written c item])) := by
  have hput := undirectedPuts_written [c] item
  simp only [List.map_cons, List.map_nil] at hput
  cases hn : item.undirected? with
  | none =>
    rw [hn] at hput
    simp only [Item.serving, hn, relayOf, undirectedPuts_append, hput, List.append_nil]
    exact .refl _
  | some n =>
    rw [hn] at hput
    refine .of_step .deliver ?_
    simp [Relay.step, relayOf, Item.serving, hn, undirectedPuts_append, hput]

/-- Delivering one after the other to all targets. -/
theorem relays_deliver_all (targets : List ℕ) (item : Item D) :
    Relays (relayOf messages queue (item.serving targets) log)
      (relayOf messages queue (item.serving []) (log ++ targets.map (.written · item))) := by
  induction targets generalizing log with
  | nil =>
    rw [List.map_nil, List.append_nil]
    exact .refl _
  | cons c rest ih =>
    have hrest := @ih (log ++ [.written c item])
    rw [List.append_assoc] at hrest
    exact (relays_deliver c rest item).trans hrest

/-- Putting a message back where no other waits. -/
theorem relays_putBack (item : Item D) (halone : queue.filterMap Item.undirected? = []) :
    Relays (relayOf messages queue item.taken log)
      (relayOf messages (queue ++ [item]) .empty log) := by
  cases hn : item.undirected? with
  | none =>
    have hsame : relayOf messages (queue ++ [item]) .empty log
        = relayOf messages queue item.taken log := by
      simp [relayOf, Item.taken, hn]
    rw [hsame]
    exact .refl _
  | some n =>
    refine .of_step .putBack ?_
    simp [Relay.step, relayOf, Item.taken, hn, halone]

/-- What the order of a relay says of a log. -/
theorem inSendOrder_of_relays {sends : ℕ}
    (h : Relays (relayOf 0 ([] : List (Item D)) .empty []) (relayOf sends queue hand log)) :
    InSendOrder log := by
  have hinit : (relayOf 0 ([] : List (Item D)) .empty []).Ordered := by
    constructor <;> simp [relayOf, undirectedPuts, Relay.Hand.Below, Relay.Hand.Behind]
  obtain ⟨ops, hrun⟩ := h
  have hordered := Relay.ordered_of_run hinit hrun
  exact ⟨hordered.out_sorted, hordered.out_nodup⟩

end Relays

/-! ### The blocking socket -/

namespace Blocking

/-- What the sender has in hand. -/
def Sender.hand : Sender D → Relay.Hand ℕ
  | .idle => .empty
  | .holding item => item.taken
  | .waiting item _ => item.taken
  | .routing item => item.taken
  | .raised item => item.taken
  | .cleared item => item.taken
  | .putting targets item => item.serving targets
  | .finished => .empty

/-- The socket as a relay. -/
def Socket.relay (s : Socket D) : Relay ℕ :=
  relayOf s.messages s.userSendQueue.reduceOption s.sender.hand s.log

/-- If the sender puts its message back, no other undirected message is in the send queue. -/
def PutsBackAlone (s : Socket D) : Action D → Prop
  | .putBack => s.userSendQueue.reduceOption.filterMap Item.undirected? = []
  | _ => True

instance (s : Socket D) : ∀ a, Decidable (PutsBackAlone s a)
  | .putBack => inferInstanceAs (Decidable (_ = _))
  | .send .. | .resend .. | .register _ | .registered | .unregister _ | .unregistered
  | .receive .. | .notifyAck _ | .recv | .get | .check | .wake | .timeout | .route | .put
  | .clear | .close | .shutdown => .isTrue trivial

/-- With at-most-once delivery nothing is resent, and what waits to be queued are ACKs. -/
structure Once (s : Socket D) : Prop where
  delivery : s.delivery = .atMostOnce
  timers : s.resends.timers = []
  deferred : ∀ item ∈ s.deferred, item.undirected? = none

theorem Sender.hand_signal (sender : Sender D) : sender.signal.hand = sender.hand := by
  cases sender <;> rfl

variable {s t : Socket D}

theorem Once.sendAs (h : Once s) (n : ℕ) (data : D) (identity : Option Bytes)
    (retries : Option ℤ) (msgId : Bytes) : Once (s.sendAs n data identity retries msgId) := by
  refine ⟨h.delivery, ?_, h.deferred⟩
  simp [Socket.sendAs, Socket.enqueue, asksForAck, h.delivery, h.timers]

theorem Once.not_expire (h : Once s) {handle : ℕ} {timer : Timer D} {resends : Resends D} :
    s.resends.expire handle ≠ some (timer, resends) := by
  simp [Resends.expire, h.timers]

theorem Once.step {a : Action D} (h : Once s) (hstep : s.step a = some t) : Once t := by
  cases Socket.step_cases hstep with
  | send data identity retries msgId =>
    have hs : Once { s with messages := s.messages + 1 } := ⟨h.delivery, h.timers, h.deferred⟩
    exact hs.sendAs _ _ _ _ _
  | expire msgId hexpire => exact absurd hexpire h.not_expire
  | resend msgId hexpire => exact absurd hexpire h.not_expire
  | dataReq msgId payload hidentity =>
    refine ⟨h.delivery, h.timers, fun item hmem => ?_⟩
    rcases List.mem_append.mp hmem with hmem | hmem
    · exact h.deferred item hmem
    · obtain rfl := List.mem_singleton.mp hmem
      rfl
  | ack msgId =>
    refine ⟨h.delivery, ?_, h.deferred⟩
    unfold Resends.acknowledge
    split <;> simp [h.timers]
  | notifyAck hitem =>
    exact ⟨h.delivery, h.timers,
      fun item hmem => h.deferred item ((List.eraseIdx_sublist _ _).subset hmem)⟩
  | close =>
    refine ⟨h.delivery, ?_, h.deferred⟩
    simp [Resends.cancelAll, h.timers]
  | refuse | register | first | further | unregister | last | remaining | data | ignore | recv
  | finish | get | pass | wait | wake | giveUp | again | route | put | putLast | clear | putBack
  | shutdown => exact ⟨h.delivery, h.timers, h.deferred⟩

theorem reduceOption_push (queue : List (Option (Item D))) (item : Item D) :
    (queue ++ [some item]).reduceOption = queue.reduceOption ++ [item] := by
  rw [List.reduceOption_append]
  rfl

theorem relay_send (s : Socket D) (data : D) (identity : Option Bytes) (retries : Option ℤ)
    (msgId : Bytes) : Relays s.relay (s.send data identity retries msgId).relay := by
  show Relays s.relay (relayOf (s.messages + 1) (s.userSendQueue ++ [some _]).reduceOption
    s.sender.hand (s.log ++ [.queued _]))
  rw [reduceOption_push]
  exact relays_send _ rfl

theorem relay_receiveDataReq (s : Socket D) (c : ℕ) (identity msgId : Bytes) (payload : D) :
    (s.receiveDataReq c identity msgId payload).relay = s.relay := by
  simp only [Socket.relay, Socket.receiveDataReq, Socket.deliver, relayOf, undirectedPuts_append]
  split_ifs <;> simp [undirectedPuts, Event.undirectedPut?]

theorem relay_notifyAck {i : ℕ} {item : Item D} (h : Once s) (hitem : s.deferred[i]? = some item) :
    Relays s.relay ({ s with deferred := s.deferred.eraseIdx i }.enqueue item).relay := by
  show Relays s.relay (relayOf s.messages (s.userSendQueue ++ [some item]).reduceOption
    s.sender.hand (s.log ++ [.queued item]))
  rw [reduceOption_push]
  exact relays_pass item (h.deferred item (List.mem_of_getElem? hitem))

theorem relay_route {item : Item D} {sender : Sender D} {peers : Peers}
    (hsender : s.sender = .routing item) (hfound : Socket.Found s.peers item (sender, peers)) :
    Relays s.relay { s with sender := sender, peers := peers }.relay := by
  have hhand : s.sender.hand = item.taken := by
    rw [hsender]
    rfl
  unfold Socket.relay
  rw [hhand]
  cases hfound with
  | dropped => exact relays_drop
  | raised => exact .refl _
  | targets _ _ hnodup => exact relays_serve item hnodup

/-- **One step.** A step that `PutsBackAlone` allows is a run of the relay. -/
theorem relay_step {a : Action D} (h : Once s) (halone : PutsBackAlone s a)
    (hstep : s.step a = some t) : Relays s.relay t.relay := by
  have hhand {sender : Sender D} (hsender : s.sender = sender) : s.relay = relayOf s.messages
      s.userSendQueue.reduceOption sender.hand s.log := by
    rw [← hsender]
    rfl
  cases Socket.step_cases hstep with
  | send data identity retries msgId => exact relay_send s data identity retries msgId
  | expire msgId hexpire => exact absurd hexpire h.not_expire
  | resend msgId hexpire => exact absurd hexpire h.not_expire
  | first hlock hlength =>
    show Relays s.relay (relayOf _ _ s.sender.signal.hand _)
    rw [Sender.hand_signal]
    exact .refl _
  | dataReq msgId payload hidentity =>
    rw [relay_receiveDataReq]
    exact .refl _
  | notifyAck hitem => exact relay_notifyAck h hitem
  | finish hsender hqueue =>
    rw [hhand hsender, hqueue]
    exact .refl _
  | get hsender hqueue =>
    rw [hhand hsender, hqueue]
    exact relays_take _
  | giveUp hsender =>
    rw [hhand hsender]
    exact relays_drop
  | route hsender hlock hfound => exact relay_route hsender hfound
  | put hsender =>
    rw [hhand hsender]
    exact relays_deliver _ _ _
  | putLast hsender =>
    rw [hhand hsender]
    exact (relays_deliver _ _ _).trans relays_drop
  | putBack hsender =>
    rw [hhand hsender]
    show Relays _ (relayOf _ (s.userSendQueue ++ [some _]).reduceOption _ _)
    rw [reduceOption_push]
    exact relays_putBack _ halone
  | shutdown =>
    show Relays s.relay (relayOf _ (s.userSendQueue ++ [none]).reduceOption _ _)
    rw [List.reduceOption_append]
    exact ⟨[], by simp [Socket.relay]⟩
  | pass hsender | wait hsender | wake hsender | again hsender | clear hsender =>
    rw [hhand hsender]
    exact .refl _
  | refuse | register | further | unregister | last | remaining | data | ack | ignore | recv
  | close => exact .refl _

/-- **Send order, threads.** -/
theorem inSendOrder (sendMode : SendMode) {actions : List (Action D)} {s : Socket D}
    (hrun : (machine D).run (.new sendMode .atMostOnce) actions = some s)
    (halone : (machine D).Along PutsBackAlone (.new sendMode .atMostOnce) actions) :
    InSendOrder s.log := by
  have hnew : Once (Socket.new sendMode .atMostOnce : Socket D) :=
    ⟨rfl, rfl, fun _ hmem => absurd hmem List.not_mem_nil⟩
  have hrelays : Relays (Socket.new sendMode .atMostOnce : Socket D).relay s.relay :=
    halone.simulates (fun s a t hs _ => hs.step) (fun s a t hs ha => relay_step hs ha) hrun hnew
  exact inSendOrder_of_relays hrelays

end Blocking

/-! ### The socket on an event loop -/

namespace Asyncio

/-- What the sender has in hand. -/
def Sender.hand : Sender D → Relay.Hand ℕ
  | .awaiting (some item) _ => item.taken
  | .awaiting none _ => .empty
  | .finished => .empty

/-- The socket as a relay. -/
def Socket.relay (s : Socket D) : Relay ℕ :=
  relayOf s.messages s.userSendQueue s.sender.hand s.log

/-- Whether the sender has an item without an identity. -/
def Sender.HasUndirected : Sender D → Bool
  | .awaiting (some item) _ => item.identity.isNone
  | .awaiting none _ => false
  | .finished => false

/-- If the sender goes on with an undirected message and there is no connection, so that it puts the
message back, no other undirected message is in the send queue. -/
def PutsBackAlone (s : Socket D) : Action D → Prop
  | .resume => s.sender.HasUndirected → s.peers.connections = [] →
      s.userSendQueue.filterMap Item.undirected? = []
  | _ => True

instance (s : Socket D) : ∀ a, Decidable (PutsBackAlone s a)
  | .resume => inferInstanceAs (Decidable (_ → _))
  | .send .. | .resend _ | .runTask .. | .register _ | .unregister _ | .waitClosed
  | .receive .. | .notifyAck _ | .recv | .get | .check | .close | .cancelSender
  | .cancelTasks => .isTrue trivial

/-- With at-most-once delivery nothing is resent, and what waits to be queued are ACKs. -/
structure Once (s : Socket D) : Prop where
  delivery : s.delivery = .atMostOnce
  timers : s.resends.timers = []
  tasks : s.tasks = []
  deferred : ∀ item ∈ s.deferred, item.undirected? = none

theorem Sender.hand_signal (sender : Sender D) : sender.signal.hand = sender.hand := by
  cases sender with
  | awaiting item wait => cases item <;> rfl
  | finished => rfl

variable {s t : Socket D}

theorem Once.sendAs (h : Once s) (n : ℕ) (data : D) (identity : Option Bytes)
    (retries : Option ℤ) (msgId : Bytes) : Once (s.sendAs n data identity retries msgId) := by
  refine ⟨h.delivery, ?_, h.tasks, h.deferred⟩
  simp [Socket.sendAs, Socket.enqueue, asksForAck, h.delivery, h.timers]

theorem Once.not_expire (h : Once s) {handle : ℕ} {timer : Timer D} {resends : Resends D} :
    s.resends.expire handle ≠ some (timer, resends) := by
  simp [Resends.expire, h.timers]

theorem Once.receiveDataReq (h : Once s) (c : ℕ) (identity msgId : Bytes) (payload : D) :
    Once (s.receiveDataReq c identity msgId payload) := by
  unfold Socket.receiveDataReq
  split_ifs
  · refine ⟨h.delivery, h.timers, h.tasks, fun item hmem => ?_⟩
    rcases List.mem_append.mp hmem with hmem | hmem
    · exact h.deferred item hmem
    · obtain rfl := List.mem_singleton.mp hmem
      rfl
  · exact ⟨h.delivery, h.timers, h.tasks, h.deferred⟩

theorem Once.step {a : Action D} (h : Once s) (hstep : s.step a = some t) : Once t := by
  cases Socket.step_cases hstep with
  | send data identity retries msgId =>
    have hs : Once { s with messages := s.messages + 1 } :=
      ⟨h.delivery, h.timers, h.tasks, h.deferred⟩
    exact hs.sendAs _ _ _ _ _
  | expire hexpire => exact absurd hexpire h.not_expire
  | resend hexpire => exact absurd hexpire h.not_expire
  | runTask msgId htask => exact absurd htask (by simp [h.tasks])
  | dataReq msgId payload hidentity => exact h.receiveDataReq _ _ _ _
  | ack msgId =>
    refine ⟨h.delivery, ?_, h.tasks, h.deferred⟩
    unfold Resends.acknowledge
    split <;> simp [h.timers]
  | notifyAck hitem =>
    exact ⟨h.delivery, h.timers, h.tasks,
      fun item hmem => h.deferred item ((List.eraseIdx_sublist _ _).subset hmem)⟩
  | close =>
    refine ⟨h.delivery, ?_, h.tasks, h.deferred⟩
    simp [Resends.cancelAll, h.timers]
  | cancelTasks => exact ⟨h.delivery, h.timers, rfl, h.deferred⟩
  | refuse | first | further | unregister | waitClosed | data | ignore | recv | get | check
  | serve | putBack | cancelSender => exact ⟨h.delivery, h.timers, h.tasks, h.deferred⟩

theorem relay_receiveDataReq (s : Socket D) (c : ℕ) (identity msgId : Bytes) (payload : D) :
    (s.receiveDataReq c identity msgId payload).relay = s.relay := by
  unfold Socket.receiveDataReq
  split_ifs <;> simp [Socket.relay, relayOf, undirectedPuts, Event.undirectedPut?]

/-- **One step.** A step that `PutsBackAlone` allows is a run of the relay. -/
theorem relay_step {a : Action D} (h : Once s) (halone : PutsBackAlone s a)
    (hstep : s.step a = some t) : Relays s.relay t.relay := by
  have hhand {sender : Sender D} (hsender : s.sender = sender) :
      s.relay = relayOf s.messages s.userSendQueue sender.hand s.log := by
    rw [← hsender]
    rfl
  cases Socket.step_cases hstep with
  | send data identity retries msgId => exact relays_send _ rfl
  | expire hexpire => exact absurd hexpire h.not_expire
  | resend hexpire => exact absurd hexpire h.not_expire
  | runTask msgId htask => exact absurd htask (by simp [h.tasks])
  | first hhas hempty =>
    show Relays s.relay (relayOf _ _ s.sender.signal.hand _)
    rw [Sender.hand_signal]
    exact .refl _
  | dataReq msgId payload hidentity =>
    rw [relay_receiveDataReq]
    exact .refl _
  | notifyAck hitem => exact relays_pass _ (h.deferred _ (List.mem_of_getElem? hitem))
  | get hsender hqueue =>
    rw [hhand hsender, hqueue]
    exact relays_take _
  | check wait hsender =>
    rename_i item
    rw [hhand hsender]
    cases item <;> exact .refl _
  | serve hsender hfound =>
    rw [hhand hsender]
    obtain _ | ⟨-, hnodup, -⟩ := hfound
    exact ((relays_serve _ hnodup).trans (relays_deliver_all _ _)).trans relays_drop
  | putBack hsender hidentity hempty =>
    have hundirected : s.sender.HasUndirected := by
      rw [hsender]
      exact Option.isNone_iff_eq_none.mpr hidentity
    rw [hhand hsender]
    exact relays_putBack _ (halone hundirected hempty)
  | cancelSender => exact relays_drop
  | refuse | further | unregister | waitClosed | data | ack | ignore | recv | close
  | cancelTasks => exact .refl _

/-- **Send order, event loop.** -/
theorem inSendOrder (sendMode : SendMode) {actions : List (Action D)} {s : Socket D}
    (hrun : (machine D).run (.new sendMode .atMostOnce) actions = some s)
    (halone : (machine D).Along PutsBackAlone (.new sendMode .atMostOnce) actions) :
    InSendOrder s.log := by
  have hnew : Once (Socket.new sendMode .atMostOnce : Socket D) :=
    ⟨rfl, rfl, rfl, fun _ hmem => absurd hmem List.not_mem_nil⟩
  have hrelays : Relays (Socket.new sendMode .atMostOnce : Socket D).relay s.relay :=
    halone.simulates (fun s a t hs _ => hs.step) (fun s a t hs ha => relay_step hs ha) hrun hnew
  exact inSendOrder_of_relays hrelays

end Asyncio

/-! ### Both packages -/

/-- **Send order.** In both packages, with at-most-once delivery: in every run in which the sender
puts a message back only while no other undirected message is in the send queue, the undirected
messages are put on writer queues in the order of the calls of `send`, and none twice on one
queue. -/
theorem inSendOrder_of_putsBackAlone (sendMode : SendMode) :
    (∀ (actions : List (Blocking.Action D)) (s : Blocking.Socket D),
      (Blocking.machine D).run (.new sendMode .atMostOnce) actions = some s →
      (Blocking.machine D).Along Blocking.PutsBackAlone (.new sendMode .atMostOnce) actions →
      InSendOrder s.log) ∧
    ∀ (actions : List (Asyncio.Action D)) (s : Asyncio.Socket D),
      (Asyncio.machine D).run (.new sendMode .atMostOnce) actions = some s →
      (Asyncio.machine D).Along Asyncio.PutsBackAlone (.new sendMode .atMostOnce) actions →
      InSendOrder s.log :=
  ⟨fun _ _ hrun halone => Blocking.inSendOrder sendMode hrun halone,
    fun _ _ hrun halone => Asyncio.inSendOrder sendMode hrun halone⟩

namespace Blocking

/-- A message is put back; the next one is sent after that. -/
def backAlone : List (Action ℕ) :=
  [.register (sixteen 1), .registered, .send 10 none none [], .get, .check, .unregister 0,
    .unregistered, .route, .clear, .putBack, .send 11 none none [], .register (sixteen 2),
    .registered, .get, .check, .route, .put, .get, .check, .route, .put]

/-- The same with the second message sent before the first is put back. -/
def backBehind : List (Action ℕ) :=
  [.register (sixteen 1), .registered, .send 10 none none [], .get, .check, .unregister 0,
    .unregistered, .send 11 none none [], .route, .clear, .putBack, .register (sixteen 2),
    .registered, .get, .check, .route, .put, .get, .check, .route, .put]

end Blocking

namespace Asyncio

/-- A message is put back; the next one is sent after that. -/
def backAlone : List (Action ℕ) :=
  [.register (sixteen 1), .send 10 none none [], .get, .check, .unregister 0, .resume,
    .send 11 none none [], .waitClosed, .register (sixteen 2), .get, .check, .resume, .get, .check,
    .resume]

/-- The same with the second message sent before the first is put back. -/
def backBehind : List (Action ℕ) :=
  [.register (sixteen 1), .send 10 none none [], .get, .check, .unregister 0,
    .send 11 none none [], .resume, .waitClosed, .register (sixteen 2), .get, .check, .resume, .get,
    .check, .resume]

end Asyncio

theorem backAlone_inSendOrder :
    (∃ s : Blocking.Socket ℕ,
      (Blocking.machine ℕ).run (.new .roundRobin .atMostOnce) Blocking.backAlone = some s ∧
        undirectedPuts s.log = [(0, 1), (1, 1)] ∧ InSendOrder s.log) ∧
    ∃ s : Asyncio.Socket ℕ,
      (Asyncio.machine ℕ).run (.new .roundRobin .atMostOnce) Asyncio.backAlone = some s ∧
        undirectedPuts s.log = [(0, 1), (1, 1)] ∧ InSendOrder s.log := by
  refine ⟨⟨_, rfl, by decide, ?_⟩, ⟨_, rfl, by decide, ?_⟩⟩
  · exact (inSendOrder_of_putsBackAlone .roundRobin).1 Blocking.backAlone _ rfl (by decide)
  · exact (inSendOrder_of_putsBackAlone .roundRobin).2 Asyncio.backAlone _ rfl (by decide)

/-- The message that was put back is sent after the one that was sent after it. -/
theorem sends_swapped :
    (∃ s : Blocking.Socket ℕ,
      (Blocking.machine ℕ).run (.new .roundRobin .atMostOnce) Blocking.backBehind = some s ∧
        undirectedPuts s.log = [(1, 1), (0, 1)] ∧ ¬ InSendOrder s.log) ∧
    ∃ s : Asyncio.Socket ℕ,
      (Asyncio.machine ℕ).run (.new .roundRobin .atMostOnce) Asyncio.backBehind = some s ∧
        undirectedPuts s.log = [(1, 1), (0, 1)] ∧ ¬ InSendOrder s.log :=
  ⟨⟨_, rfl, by decide, by decide⟩, ⟨_, rfl, by decide, by decide⟩⟩

end Python

end Aiomsg
