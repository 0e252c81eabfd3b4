import Aiomsg.Lib.Machine
import Aiomsg.Python.Basic

/-!
# The socket on an event loop

`python-lib/aiomsg/__init__.py` as a machine whose actions are the steps of its event loop: what a
task or a callback does from one `await` to the next. There are no threads, so within such a step
nothing else happens. In particular the sender finds the table empty, clears the event and puts its
item back in one step, and a connection enters the table and sets the event in one.

The sender waits for two tasks at a time, `q_task` for an item and `w_task` for the event, and goes
on when both are done. The item is out of the queue as soon as `q_task` has it, and `w_task` is done
once and for all when the event was set at one moment; by the time the sender runs, the event may
have been cleared and the table may be empty.

A connection that ends is taken out of the table, then its transport is closed, which suspends, and
only then is the event cleared if the table is empty.

## Scope

Bytes and transports are not here. A connection is a number, what arrives on it is an envelope that
has been decoded, and putting something on a writer queue is the end of it. How a connection comes
to its end, by a timeout, by an error or by `close`, is all one. The loop runs ready tasks in an
order of its own, and the model lets them run in any.

## Main definitions

* `Socket`, `Sender`, `Wait` — the state
* `Action`, `Socket.step`, `machine` — the steps of the loop
* `Socket.step_cases` — what a step can do
-/

namespace Aiomsg

namespace Python

namespace Asyncio

/-- Where `w_task` stands: it has not run yet, it waits for the event, or it is done. -/
inductive Wait where
  | created
  | waiting
  | done
deriving DecidableEq

/-- What a `set` of the event does to a task that waits for it. -/
def Wait.signal : Wait → Wait
  | .waiting => .done
  | wait => wait

/-- Where the sender stands: in `asyncio.wait` with the results of its two tasks, or returned. -/
inductive Sender (D : Type) where
  | awaiting (item : Option (Item D)) (wait : Wait)
  | finished

/-- What a `set` of the event does to the sender. -/
def Sender.signal {D : Type} : Sender D → Sender D
  | .awaiting item wait => .awaiting item wait.signal
  | .finished => .finished

/-- A task that `resend` created and that has not run: a call `send(data, identity)` for the message
with number `n`. -/
structure Task (D : Type) where
  n : ℕ
  data : D
  identity : Option Bytes

/-- The socket. `closing` counts the connections that are out of the table and wait for their
transport to be closed; `deferred` are the items of the `notify_ack` calls that are scheduled. -/
structure Socket (D : Type) where
  sendMode : SendMode
  delivery : DeliveryGuarantee
  closed : Bool
  peers : Peers
  closing : ℕ
  atLeastOneConnection : Bool
  queueRecv : List (Bytes × D)
  userSendQueue : List (Item D)
  resends : Resends D
  tasks : List (Task D)
  deferred : List (Item D)
  sender : Sender D
  messages : ℕ
  requests : ℕ
  log : List (Event D)

/-- The `maxsize` of `_queue_recv`. -/
def maxsize : ℕ := 65536

/-- The steps. `msgId` is the one `uuid.uuid4()` gives. -/
inductive Action (D : Type) where
  /-- The application runs `send`. -/
  | send (data : D) (identity : Option Bytes) (retries : Option ℤ) (msgId : Bytes)
  /-- The loop calls the `resend` of a timer. -/
  | resend (handle : ℕ)
  /-- A task that a `resend` created runs. -/
  | runTask (i : ℕ) (msgId : Bytes)
  /-- A connection whose HELLO has been read enters the table. -/
  | register (identity : Bytes)
  /-- Connection `c` has ended and leaves the table. -/
  | unregister (c : ℕ)
  /-- `writer.wait_closed()` of a connection that has left returns. -/
  | waitClosed
  /-- The reader of connection `c` calls `raw_recv`. -/
  | receive (c : ℕ) (env : Wire D)
  /-- The loop calls a `notify_ack`. -/
  | notifyAck (i : ℕ)
  /-- The application takes a message off the receive queue. -/
  | recv
  /-- `q_task` takes an item off the send queue. -/
  | get
  /-- `w_task` runs for the first time. -/
  | check
  /-- Both tasks are done and the sender goes on. -/
  | resume
  /-- `_close` sets `closed` and cancels the resends. -/
  | close
  /-- `_close` cancels the sender. -/
  | cancelSender
  /-- `_close` cancels the tasks of the resends. -/
  | cancelTasks

namespace Socket

variable {D : Type}

def new (sendMode : SendMode) (delivery : DeliveryGuarantee) : Socket D where
  sendMode := sendMode
  delivery := delivery
  closed := false
  peers := .new
  closing := 0
  atLeastOneConnection := false
  queueRecv := []
  userSendQueue := []
  resends := .new
  tasks := []
  deferred := []
  sender := .awaiting none .created
  messages := 0
  requests := 0
  log := []

/-! ### Sending and resending -/

/-- `_user_send_queue.put`; the queue has no bound. -/
def enqueue (s : Socket D) (item : Item D) : Socket D :=
  { s with userSendQueue := s.userSendQueue ++ [item], log := s.log ++ [.queued item] }

/-- The body of `send`, for the message with number `n`. -/
def sendAs (s : Socket D) (n : ℕ) (data : D) (identity : Option Bytes) (retries : Option ℤ)
    (msgId : Bytes) : Socket D :=
  let ack := asksForAck s.sendMode s.delivery identity
  { s with
    resends :=
      if ack then s.resends.arm n msgId identity data (timerRetries retries) else s.resends
  }.enqueue ⟨identity, wireOf ack msgId data, .message n⟩

/-- `send`, called by the application. -/
def send (s : Socket D) (data : D) (identity : Option Bytes) (retries : Option ℤ) (msgId : Bytes) :
    Socket D :=
  { s with messages := s.messages + 1 }.sendAs s.messages data identity retries msgId

/-- `resend(retries)`, called by its timer: the task it creates calls `send` without `retries`. -/
def resend (s : Socket D) (handle : ℕ) : Option (Socket D) :=
  (s.resends.expire handle).map fun (t, resends) =>
    if t.retries = 0 then { s with resends := resends }
    else { s with
      resends := resends.forget t.msgId
      tasks := s.tasks ++ [⟨t.n, t.data, t.identity⟩] }

def runTask (s : Socket D) (i : ℕ) (msgId : Bytes) : Option (Socket D) :=
  (s.tasks[i]?).map fun task =>
    { s with tasks := s.tasks.eraseIdx i }.sendAs task.n task.data task.identity none msgId

/-! ### Connections -/

/-- `_connection` from the HELLO to `connection.run()`. -/
def register (s : Socket D) (identity : Bytes) : Socket D :=
  if h : s.peers.Has identity then s
  else if s.peers.connections = [] then
    { s with
      peers := s.peers.insert identity h
      atLeastOneConnection := true
      sender := s.sender.signal }
  else { s with peers := s.peers.insert identity h }

/-- The `finally` of `_connection` up to the closing of the transport. -/
def unregister (s : Socket D) (c : ℕ) : Option (Socket D) :=
  (s.peers.identity c).map fun identity =>
    { s with peers := s.peers.remove identity, closing := s.closing + 1 }

/-- The rest of it. -/
def waitClosed (s : Socket D) : Option (Socket D) :=
  match s.closing with
  | 0 => none
  | closing + 1 =>
    some { s with
      closing := closing
      atLeastOneConnection :=
        if s.peers.connections = [] then false else s.atLeastOneConnection }

/-! ### Receiving -/

/-- The branch of `raw_recv` for a DATA_REQ; `put_nowait` raises when the queue is full. -/
def receiveDataReq (s : Socket D) (c : ℕ) (identity msgId : Bytes) (payload : D) : Socket D :=
  if s.queueRecv.length < maxsize then
    { s with
      queueRecv := s.queueRecv ++ [(identity, payload)]
      deferred := s.deferred ++ [⟨some identity, .ack msgId, .request s.requests c⟩]
      requests := s.requests + 1
      log := s.log ++ [.arrived s.requests c msgId payload,
        .delivered s.requests identity payload] }
  else { s with
    requests := s.requests + 1
    log := s.log ++ [.arrived s.requests c msgId payload] }

/-- `raw_recv`, and its caller where it catches `QueueFull`. -/
def receive (s : Socket D) (c : ℕ) (env : Wire D) : Option (Socket D) :=
  (s.peers.identity c).map fun identity =>
    match env with
    | .data payload =>
      { s with
        queueRecv :=
          if s.queueRecv.length < maxsize then s.queueRecv ++ [(identity, payload)]
          else s.queueRecv }
    | .dataReq msgId payload => s.receiveDataReq c identity msgId payload
    | .ack msgId => { s with resends := s.resends.acknowledge msgId }
    | .hello _ _ => s
    | .heartbeat => s

/-- `notify_ack`. -/
def notifyAck (s : Socket D) (i : ℕ) : Option (Socket D) :=
  (s.deferred[i]?).map fun item => { s with deferred := s.deferred.eraseIdx i }.enqueue item

/-- `recv_identity`. -/
def recv (s : Socket D) : Option (Socket D) :=
  match s.queueRecv with
  | [] => none
  | _ :: rest => some { s with queueRecv := rest }

/-! ### The sender -/

def get (s : Socket D) : Option (Socket D) :=
  match s.sender, s.userSendQueue with
  | .awaiting none wait, item :: rest =>
    some { s with sender := .awaiting (some item) wait, userSendQueue := rest }
  | _, _ => none

def check (s : Socket D) : Option (Socket D) :=
  match s.sender with
  | .awaiting item .created =>
    some { s with
      sender := .awaiting item (if s.atLeastOneConnection then .done else .waiting) }
  | _ => none

/-- `_sender_publish`, `_sender_robin` and `_sender_identity`: the connections whose writer queues
get the item, none of them if it is dropped, or `none` for `NoConnectionsAvailableError`; and the
table with its cycle moved on. A writer queue has no bound. -/
def lookFor (sendMode : SendMode) (peers : Peers) (item : Item D) : Option (List ℕ) × Peers :=
  match item.identity, sendMode with
  | some identity, _ => (some (peers.get identity).toList, peers)
  | none, .publish =>
    if peers.connections = [] then (none, peers)
    else (some (peers.connections.map Prod.snd), peers)
  | none, .roundRobin =>
    match peers.next with
    | none => (none, peers)
    | some (identity, peers) => (some (peers.get identity).toList, peers)

/-- The body of the loop after `asyncio.wait`, and the creation of the next two tasks. -/
def resume (s : Socket D) : Option (Socket D) :=
  match s.sender with
  | .awaiting (some item) .done =>
    match lookFor s.sendMode s.peers item with
    | (some targets, peers) =>
      some { s with
        peers := peers
        log := s.log ++ targets.map (.written · item)
        sender := .awaiting none .created }
    | (none, peers) =>
      some { s with
        peers := peers
        atLeastOneConnection := false
        userSendQueue := s.userSendQueue ++ [item]
        sender := .awaiting none .created }
  | _ => none

/-! ### Closing -/

def close (s : Socket D) : Option (Socket D) :=
  some { s with closed := true, resends := s.resends.cancelAll }

def cancelSender (s : Socket D) : Option (Socket D) :=
  if s.closed then some { s with sender := .finished } else none

def cancelTasks (s : Socket D) : Option (Socket D) :=
  if s.closed then some { s with tasks := [] } else none

def step (s : Socket D) : Action D → Option (Socket D)
  | .send data identity retries msgId => some (s.send data identity retries msgId)
  | .resend handle => s.resend handle
  | .runTask i msgId => s.runTask i msgId
  | .register identity => some (s.register identity)
  | .unregister c => s.unregister c
  | .waitClosed => s.waitClosed
  | .receive c env => s.receive c env
  | .notifyAck i => s.notifyAck i
  | .recv => s.recv
  | .get => s.get
  | .check => s.check
  | .resume => s.resume
  | .close => s.close
  | .cancelSender => s.cancelSender
  | .cancelTasks => s.cancelTasks

end Socket

/-! ### What a step can do -/

namespace Socket

variable {D : Type}

/-- What `lookFor` finds for an item: that there is no connection, or the connections that are to
get it. Their numbers are different, and if the item is for an identity they are those of that
identity. -/
inductive Found (peers : Peers) (item : Item D) : Option (List ℕ) × Peers → Prop
  | raised (hidentity : item.identity = none) (hempty : peers.connections = []) :
      Found peers item (none, peers)
  | targets {peers' : Peers} {targets : List ℕ} (hsame : peers'.connections = peers.connections)
      (hnodup : targets.Nodup)
      (hidentity : ∀ identity, item.identity = some identity →
        ∀ c ∈ targets, (identity, c) ∈ peers.connections) :
      Found peers item (some targets, peers')

theorem found_lookFor (sendMode : SendMode) (peers : Peers) (item : Item D) :
    Found peers item (lookFor sendMode peers item) := by
  unfold lookFor
  split
  · rename_i identity hitem
    refine .targets rfl (Option.toList_nodup _) fun identity' hitem' c hc => ?_
    obtain rfl : identity = identity' := Option.some.inj (hitem.symm.trans hitem')
    exact Peers.mem_of_get (Option.mem_toList.mp hc)
  · rename_i hitem
    split
    · rename_i hempty
      exact .raised hitem hempty
    · refine .targets rfl peers.nodup_numbers fun identity hid => ?_
      exact absurd (hitem.symm.trans hid) (by simp)
  · rename_i hitem
    split
    · rename_i hnext
      exact .raised hitem (Peers.connections_of_next_eq_none hnext)
    · rename_i hnext
      refine .targets (Peers.connections_next hnext) (Option.toList_nodup _) fun identity hid => ?_
      exact absurd (hitem.symm.trans hid) (by simp)

/-- The steps by what they do. -/
inductive Step (s : Socket D) : Action D → Socket D → Prop
  | send (data : D) (identity : Option Bytes) (retries : Option ℤ) (msgId : Bytes) :
      Step s (.send data identity retries msgId) (s.send data identity retries msgId)
  | expire {handle : ℕ} {t : Timer D} {resends : Resends D}
      (hexpire : s.resends.expire handle = some (t, resends)) (hretries : t.retries = 0) :
      Step s (.resend handle) { s with resends := resends }
  | resend {handle : ℕ} {t : Timer D} {resends : Resends D}
      (hexpire : s.resends.expire handle = some (t, resends)) (hretries : t.retries ≠ 0) :
      Step s (.resend handle)
        { s with
          resends := resends.forget t.msgId
          tasks := s.tasks ++ [⟨t.n, t.data, t.identity⟩] }
  | runTask {i : ℕ} {task : Task D} (msgId : Bytes) (htask : s.tasks[i]? = some task) :
      Step s (.runTask i msgId)
        ({ s with tasks := s.tasks.eraseIdx i }.sendAs task.n task.data task.identity none msgId)
  | refuse {identity : Bytes} (h : s.peers.Has identity) : Step s (.register identity) s
  | first {identity : Bytes} (h : ¬ s.peers.Has identity) (hempty : s.peers.connections = []) :
      Step s (.register identity)
        { s with
          peers := s.peers.insert identity h
          atLeastOneConnection := true
          sender := s.sender.signal }
  | further {identity : Bytes} (h : ¬ s.peers.Has identity) (hempty : s.peers.connections ≠ []) :
      Step s (.register identity) { s with peers := s.peers.insert identity h }
  | unregister {c : ℕ} {identity : Bytes} (hidentity : s.peers.identity c = some identity) :
      Step s (.unregister c)
        { s with peers := s.peers.remove identity, closing := s.closing + 1 }
  | waitClosed (closing : ℕ) (event : Bool) :
      Step s .waitClosed { s with closing := closing, atLeastOneConnection := event }
  | data {c : ℕ} (payload : D) (queueRecv : List (Bytes × D)) :
      Step s (.receive c (.data payload)) { s with queueRecv := queueRecv }
  | dataReq {c : ℕ} {identity : Bytes} (msgId : Bytes) (payload : D)
      (hidentity : s.peers.identity c = some identity) :
      Step s (.receive c (.dataReq msgId payload)) (s.receiveDataReq c identity msgId payload)
  | ack {c : ℕ} (msgId : Bytes) :
      Step s (.receive c (.ack msgId)) { s with resends := s.resends.acknowledge msgId }
  | ignore {c : ℕ} (env : Wire D) : Step s (.receive c env) s
  | notifyAck {i : ℕ} {item : Item D} (hitem : s.deferred[i]? = some item) :
      Step s (.notifyAck i) ({ s with deferred := s.deferred.eraseIdx i }.enqueue item)
  | recv {first : Bytes × D} {rest : List (Bytes × D)} (hqueue : s.queueRecv = first :: rest) :
      Step s .recv { s with queueRecv := rest }
  | get {item : Item D} {rest : List (Item D)} {wait : Wait}
      (hsender : s.sender = .awaiting none wait) (hqueue : s.userSendQueue = item :: rest) :
      Step s .get { s with sender := .awaiting (some item) wait, userSendQueue := rest }
  | check {item : Option (Item D)} (wait : Wait) (hsender : s.sender = .awaiting item .created) :
      Step s .check { s with sender := .awaiting item wait }
  | serve {item : Item D} {targets : List ℕ} {peers : Peers}
      (hsender : s.sender = .awaiting (some item) .done)
      (hfound : Found s.peers item (some targets, peers)) :
      Step s .resume
        { s with
          peers := peers
          log := s.log ++ targets.map (.written · item)
          sender := .awaiting none .created }
  | putBack {item : Item D} (hsender : s.sender = .awaiting (some item) .done)
      (hidentity : item.identity = none) (hempty : s.peers.connections = []) :
      Step s .resume
        { s with
          atLeastOneConnection := false
          userSendQueue := s.userSendQueue ++ [item]
          sender := .awaiting none .created }
  | close : Step s .close { s with closed := true, resends := s.resends.cancelAll }
  | cancelSender : Step s .cancelSender { s with sender := .finished }
  | cancelTasks : Step s .cancelTasks { s with tasks := [] }

variable {s t : Socket D}

theorem resend_cases {handle : ℕ} (h : s.resend handle = some t) : Step s (.resend handle) t := by
  obtain ⟨⟨timer, resends⟩, hexpire, rfl⟩ := Option.map_eq_some_iff.mp h
  show Step s _ (if timer.retries = 0 then _ else _)
  split_ifs with hretries
  · exact .expire hexpire hretries
  · exact .resend hexpire hretries

theorem register_cases (s : Socket D) (identity : Bytes) :
    Step s (.register identity) (s.register identity) := by
  unfold register
  split_ifs with hhas hempty
  · exact .refuse hhas
  · exact .first hhas hempty
  · exact .further hhas hempty

theorem waitClosed_cases (h : s.waitClosed = some t) : Step s .waitClosed t := by
  unfold waitClosed at h
  split at h
  · exact absurd h (by simp)
  · obtain rfl := Option.some.inj h
    exact .waitClosed _ _

theorem receive_cases {c : ℕ} {env : Wire D} (h : s.receive c env = some t) :
    Step s (.receive c env) t := by
  obtain ⟨identity, hidentity, rfl⟩ := Option.map_eq_some_iff.mp h
  cases env with
  | data payload => exact .data payload _
  | dataReq msgId payload => exact .dataReq msgId payload hidentity
  | ack msgId => exact .ack msgId
  | hello version identity => exact .ignore _
  | heartbeat => exact .ignore _

theorem recv_cases (h : s.recv = some t) : Step s .recv t := by
  unfold recv at h
  split at h
  · exact absurd h (by simp)
  · rename_i hqueue
    obtain rfl := Option.some.inj h
    exact .recv hqueue

theorem get_cases (h : s.get = some t) : Step s .get t := by
  unfold get at h
  split at h
  · rename_i hsender hqueue
    obtain rfl := Option.some.inj h
    exact .get hsender hqueue
  · exact absurd h (by simp)

theorem check_cases (h : s.check = some t) : Step s .check t := by
  unfold check at h
  split at h
  · rename_i hsender
    obtain rfl := Option.some.inj h
    exact .check _ hsender
  · exact absurd h (by simp)

theorem resume_cases (h : s.resume = some t) : Step s .resume t := by
  unfold resume at h
  split at h
  · rename_i item hsender
    have hfound := found_lookFor s.sendMode s.peers item
    split at h
    · rename_i targets peers hlook
      obtain rfl := Option.some.inj h
      rw [hlook] at hfound
      exact .serve hsender hfound
    · rename_i peers hlook
      obtain rfl := Option.some.inj h
      rw [hlook] at hfound
      obtain ⟨hidentity, hempty⟩ | _ := hfound
      exact .putBack hsender hidentity hempty
  · exact absurd h (by simp)

/-- **What a step can do.** -/
theorem step_cases {a : Action D} (h : s.step a = some t) : Step s a t := by
  cases a with
  | send data identity retries msgId =>
    obtain rfl := Option.some.inj h
    exact .send data identity retries msgId
  | resend handle => exact resend_cases h
  | runTask i msgId =>
    obtain ⟨task, htask, rfl⟩ := Option.map_eq_some_iff.mp h
    exact .runTask msgId htask
  | register identity =>
    obtain rfl := Option.some.inj h
    exact register_cases s identity
  | unregister c =>
    obtain ⟨identity, hidentity, rfl⟩ := Option.map_eq_some_iff.mp h
    exact .unregister hidentity
  | waitClosed => exact waitClosed_cases h
  | receive c env => exact receive_cases h
  | notifyAck i =>
    obtain ⟨item, hitem, rfl⟩ := Option.map_eq_some_iff.mp h
    exact .notifyAck hitem
  | recv => exact recv_cases h
  | get => exact get_cases h
  | check => exact check_cases h
  | resume => exact resume_cases h
  | close =>
    obtain rfl := Option.some.inj h
    exact .close
  | cancelSender =>
    obtain ⟨-, rfl⟩ : s.closed = true ∧ _ = t := by simpa [step, cancelSender] using h
    exact .cancelSender
  | cancelTasks =>
    obtain ⟨-, rfl⟩ : s.closed = true ∧ _ = t := by simpa [step, cancelTasks] using h
    exact .cancelTasks

end Socket

/-- The socket on an event loop as a machine. -/
def machine (D : Type) : Machine (Socket D) (Action D) where
  step := Socket.step

end Asyncio

end Python

end Aiomsg
