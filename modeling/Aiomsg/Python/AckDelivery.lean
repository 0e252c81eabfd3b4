import Aiomsg.Python.Blocking

/-!
# Acknowledgement and delivery in the blocking socket

`raw_recv` hands the payload of a DATA_REQ to `_deliver` and then starts the timer that puts the ACK
on the send queue. `_deliver` drops the payload when the receive queue is full, and nothing tells
`raw_recv` that it did. (In the other package the same `put_nowait` stands in `raw_recv` itself, and
its exception leaves `raw_recv` before the ACK is scheduled.)

So an ACK stands for a delivery in those runs in which no DATA_REQ is received while the receive
queue is full.

## Scope

Delivery is to the receive queue, of which the application takes when it likes. The converse, that
each delivered DATA_REQ gets an ACK, is not claimed: the socket may be closed before the timer goes
off.

## Main results

* `ackImpliesDelivery_of_room` — in such a run, every ACK queued is for a DATA_REQ that was
  delivered
* `ack_without_delivery` — a DATA_REQ behind 65536 unread messages
-/

namespace Aiomsg

namespace Python

namespace Blocking

variable {D : Type}

/-- The item is the ACK of a DATA_REQ whose payload was put on the receive queue. -/
def Backed (log : List (Event D)) (item : Item D) : Prop :=
  ∃ r c msgId identity payload, item.wire = .ack msgId ∧ item.origin = .request r c ∧
    .arrived r c msgId payload ∈ log ∧ .delivered r identity payload ∈ log

/-- An ACK is put on the send queue only if the payload of its DATA_REQ was put on the receive
queue. -/
def AckImpliesDelivery (log : List (Event D)) : Prop :=
  ∀ item msgId, .queued item ∈ log → item.wire = .ack msgId → Backed log item

/-- If a DATA_REQ is received, the receive queue is not full. -/
def HasRoom (s : Socket D) : Action D → Prop
  | .receive _ (.dataReq _ _) => s.queueRecv.length < maxsize
  | _ => True

instance (s : Socket D) : ∀ a, Decidable (HasRoom s a)
  | .receive _ (.dataReq _ _) => inferInstanceAs (Decidable (_ < _))
  | .receive _ (.data _) | .receive _ (.ack _) | .receive _ (.hello _ _) | .receive _ .heartbeat
  | .send .. | .resend .. | .register _ | .registered | .unregister _ | .unregistered
  | .notifyAck _ | .recv | .get | .check | .wake | .timeout | .route | .put | .clear | .putBack
  | .close | .shutdown => .isTrue trivial

/-! ### The invariant -/

/-- **The invariant.** The ACKs that are queued and those whose timers are running are of DATA_REQs
that were delivered. -/
structure AcksBacked (s : Socket D) : Prop where
  deferred : ∀ item ∈ s.deferred, Backed s.log item
  queued : AckImpliesDelivery s.log

theorem Backed.append {log : List (Event D)} {item : Item D} (h : Backed log item)
    (later : List (Event D)) : Backed (log ++ later) item := by
  obtain ⟨r, c, msgId, identity, payload, hwire, horigin, harrived, hdelivered⟩ := h
  exact ⟨r, c, msgId, identity, payload, hwire, horigin, List.mem_append_left _ harrived,
    List.mem_append_left _ hdelivered⟩

/-- Nothing that is no ACK can break the law, and no ACK that is backed. -/
theorem AckImpliesDelivery.append {log later : List (Event D)} (h : AckImpliesDelivery log)
    (hlater : ∀ item msgId, .queued item ∈ later → item.wire = .ack msgId →
      Backed (log ++ later) item) :
    AckImpliesDelivery (log ++ later) := by
  intro item msgId hmem hwire
  rcases List.mem_append.mp hmem with hmem | hmem
  · exact (h item msgId hmem hwire).append later
  · exact hlater item msgId hmem hwire

theorem AcksBacked.new (sendMode : SendMode) (delivery : DeliveryGuarantee) :
    AcksBacked (Socket.new sendMode delivery : Socket D) where
  deferred _ hmem := absurd hmem List.not_mem_nil
  queued _ _ hmem := absurd hmem List.not_mem_nil

variable {s t : Socket D}

/-- The invariant reads the running timers and the log, and takes any event that is no ACK. -/
theorem AcksBacked.log {later : List (Event D)} (h : AcksBacked s)
    (hdeferred : t.deferred = s.deferred) (hlog : t.log = s.log ++ later)
    (hlater : ∀ item msgId, .queued item ∈ later → item.wire ≠ .ack msgId) : AcksBacked t where
  deferred := by
    rw [hdeferred, hlog]
    intro item hmem
    exact (h.deferred item hmem).append later
  queued := by
    rw [hlog]
    refine h.queued.append fun item msgId hmem hwire => ?_
    exact absurd hwire (hlater item msgId hmem)

theorem AcksBacked.same (h : AcksBacked s) (hdeferred : t.deferred = s.deferred)
    (hlog : t.log = s.log) : AcksBacked t :=
  h.log hdeferred (hlog.trans (List.append_nil _).symm) fun _ _ hmem => absurd hmem List.not_mem_nil

theorem AcksBacked.sendAs (h : AcksBacked s) (n : ℕ) (data : D) (identity : Option Bytes)
    (retries : Option ℤ) (msgId : Bytes) :
    AcksBacked (s.sendAs n data identity retries msgId) := by
  refine h.log rfl rfl fun item msgId' hmem => ?_
  obtain rfl := Event.queued.inj (List.mem_singleton.mp hmem)
  exact wireOf_ne_ack _ _ _ _

theorem AcksBacked.receiveDataReq (h : AcksBacked s) (hroom : s.queueRecv.length < maxsize) (c : ℕ)
    (identity msgId : Bytes) (payload : D) :
    AcksBacked (s.receiveDataReq c identity msgId payload) := by
  have hlog : (s.receiveDataReq c identity msgId payload).log = s.log ++
      [.arrived s.requests c msgId payload, .delivered s.requests identity payload] := by
    simp [Socket.receiveDataReq, hroom]
  constructor
  · intro item hmem
    rw [hlog]
    rcases List.mem_append.mp hmem with hmem | hmem
    · exact (h.deferred item hmem).append _
    · obtain rfl := List.mem_singleton.mp hmem
      exact ⟨s.requests, c, msgId, identity, payload, rfl, rfl, by simp, by simp⟩
  · rw [hlog]
    exact h.queued.append fun item msgId hmem => absurd hmem (by simp)

theorem AcksBacked.notifyAck {i : ℕ} {item : Item D} (h : AcksBacked s)
    (hitem : s.deferred[i]? = some item) :
    AcksBacked ({ s with deferred := s.deferred.eraseIdx i }.enqueue item) where
  deferred item' hmem :=
    (h.deferred item' ((List.eraseIdx_sublist _ _).subset hmem)).append _
  queued := by
    refine h.queued.append fun item' msgId hmem _ => ?_
    obtain rfl := Event.queued.inj (List.mem_singleton.mp hmem)
    exact (h.deferred _ (List.mem_of_getElem? hitem)).append _

/-- **One step.** A step that does not receive a DATA_REQ into a full queue keeps the invariant. -/
theorem AcksBacked.step {a : Action D} (h : AcksBacked s) (hroom : HasRoom s a)
    (hstep : s.step a = some t) : AcksBacked t := by
  cases Socket.step_cases hstep with
  | send data identity retries msgId =>
    exact (h.same (t := { s with messages := s.messages + 1 }) rfl rfl).sendAs _ _ _ _ _
  | resend msgId hexpire hretries =>
    rename_i handle timer resends
    have hs : AcksBacked { s with resends := resends.forget timer.msgId } := h.same rfl rfl
    exact hs.sendAs _ _ _ _ _
  | dataReq msgId payload hidentity => exact h.receiveDataReq hroom _ _ _ _
  | notifyAck hitem => exact h.notifyAck hitem
  | put hsender | putLast hsender =>
    exact h.log rfl rfl fun item msgId hmem => absurd hmem (by simp)
  | expire | refuse | register | first | further | unregister | last | remaining | data | ack
  | ignore | recv | finish | get | pass | wait | wake | giveUp | again | route | clear | putBack
  | close | shutdown => exact h.same rfl rfl

/-- **An ACK implies delivery.** In every run in which no DATA_REQ is received while the receive
queue is full, an ACK is put on the send queue only if the payload of its DATA_REQ was put on the
receive queue. -/
theorem ackImpliesDelivery_of_room (sendMode : SendMode) (delivery : DeliveryGuarantee)
    (actions : List (Action D)) (s : Socket D)
    (hrun : (machine D).run (.new sendMode delivery) actions = some s)
    (hroom : (machine D).Along HasRoom (.new sendMode delivery) actions) :
    AckImpliesDelivery s.log := by
  have hbacked : AcksBacked s :=
    hroom.invariant (fun s a t hs ha => hs.step ha) hrun (.new sendMode delivery)
  exact hbacked.queued

/-- One DATA_REQ, and its ACK after 20 ms. -/
def oneRequest : List (Action ℕ) :=
  [.register (sixteen 1), .registered, .receive 0 (.dataReq (sixteen 9) 8), .notifyAck 0]

theorem oneRequest_ackImpliesDelivery :
    ∃ s : Socket ℕ, (machine ℕ).run (.new .roundRobin .atMostOnce) oneRequest = some s ∧
      .queued ⟨some (sixteen 1), .ack (sixteen 9), .request 0 0⟩ ∈ s.log ∧
      AckImpliesDelivery s.log := by
  refine ⟨_, rfl, by decide, ?_⟩
  exact ackImpliesDelivery_of_room .roundRobin .atMostOnce oneRequest _ rfl (by decide)

/-! ### A full queue -/

/-- Messages that nobody takes fill the receive queue. -/
theorem run_receive_data (s : Socket D) (c : ℕ) (identity : Bytes) (payload : D)
    (hidentity : s.peers.identity c = some identity) (hlock : s.lock ≠ .registering c) (n : ℕ)
    (hroom : s.queueRecv.length + n ≤ maxsize) :
    (machine D).run s (List.replicate n (.receive c (.data payload)))
      = some { s with queueRecv := s.queueRecv ++ List.replicate n (identity, payload) } := by
  induction n generalizing s with
  | zero => simp
  | succ n ih =>
    have hlt : s.queueRecv.length < maxsize := by omega
    have hstep : (machine D).step s (.receive c (.data payload))
        = some { s with queueRecv := s.queueRecv ++ [(identity, payload)] } := by
      simp [machine, Socket.step, Socket.receive, Socket.deliver, hidentity, hlock, hlt]
    have hrest := ih { s with queueRecv := s.queueRecv ++ [(identity, payload)] } hidentity hlock
      (by simp only [List.length_append, List.length_singleton]; omega)
    rw [List.replicate_succ, Machine.run_cons, hstep, Option.bind_some, hrest]
    simp [List.replicate_succ]

/-- A DATA_REQ that meets a full queue is dropped, and after 20 ms its ACK is queued. -/
theorem run_receive_full (s : Socket D) (c : ℕ) (identity msgId : Bytes) (payload : D)
    (hidentity : s.peers.identity c = some identity) (hlock : s.lock ≠ .registering c)
    (hfull : ¬ s.queueRecv.length < maxsize) (hdeferred : s.deferred = []) :
    ∃ t, (machine D).run s [.receive c (.dataReq msgId payload), .notifyAck 0] = some t ∧
      t.log = s.log ++ [.arrived s.requests c msgId payload,
        .queued ⟨some identity, .ack msgId, .request s.requests c⟩] := by
  have hreceive : (machine D).step s (.receive c (.dataReq msgId payload))
      = some (s.receiveDataReq c identity msgId payload) := by
    simp [machine, Socket.step, Socket.receive, hidentity, hlock]
  rw [Machine.run_cons, hreceive, Option.bind_some]
  simp [Machine.run_cons, machine, Socket.step, Socket.notifyAck, Socket.receiveDataReq,
    Socket.deliver, Socket.enqueue, hfull, hdeferred]

/-- 65536 messages that the application does not take, and then a DATA_REQ. -/
def fullQueue : List (Action ℕ) :=
  [.register (sixteen 1), .registered] ++
    (List.replicate maxsize (.receive 0 (.data 7)) ++
      [.receive 0 (.dataReq (sixteen 9) 8), .notifyAck 0])

/-- The payload is dropped and its ACK is put on the send queue. -/
theorem ack_without_delivery :
    ∃ s : Socket ℕ, (machine ℕ).run (.new .roundRobin .atMostOnce) fullQueue = some s ∧
      .queued ⟨some (sixteen 1), .ack (sixteen 9), .request 0 0⟩ ∈ s.log ∧
      (∀ r identity payload, .delivered r identity payload ∉ s.log) ∧
      ¬ AckImpliesDelivery s.log := by
  obtain ⟨s, hup, hidentity, hlock, hrecv, hdeferred, hrequests, hlog⟩ : ∃ s : Socket ℕ,
      (machine ℕ).run (.new .roundRobin .atMostOnce) [.register (sixteen 1), .registered] = some s ∧
        s.peers.identity 0 = some (sixteen 1) ∧ s.lock ≠ .registering 0 ∧ s.queueRecv = [] ∧
        s.deferred = [] ∧ s.requests = 0 ∧ s.log = [] :=
    ⟨_, rfl, rfl, by simp, rfl, rfl, rfl, rfl⟩
  have hfill := run_receive_data s 0 (sixteen 1) 7 hidentity hlock maxsize (by simp [hrecv])
  obtain ⟨t, hfull, htlog⟩ := run_receive_full
    { s with queueRecv := s.queueRecv ++ List.replicate maxsize (sixteen 1, 7) } 0 (sixteen 1)
    (sixteen 9) 8 hidentity hlock (by simp [hrecv]) hdeferred
  simp only [hlog, hrequests, List.nil_append] at htlog
  have hundelivered : ∀ r identity payload, .delivered r identity payload ∉ t.log := by
    simp [htlog]
  refine ⟨t, ?_, by simp [htlog], hundelivered, fun hlaw => ?_⟩
  · rw [fullQueue, Machine.run_append, hup, Option.bind_some, Machine.run_append, hfill,
      Option.bind_some, hfull]
  · obtain ⟨r, c, msgId, identity, payload, -, -, -, hdelivered⟩ :=
      hlaw ⟨some (sixteen 1), .ack (sixteen 9), .request 0 0⟩ (sixteen 9) (by simp [htlog]) rfl
    exact hundelivered r identity payload hdelivered

end Blocking

end Python

end Aiomsg
