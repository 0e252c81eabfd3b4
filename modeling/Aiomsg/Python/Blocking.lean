import Aiomsg.Lib.Machine
import Aiomsg.Python.Basic

/-!
# The blocking socket

`python-lib-blocking/aiomsg_blocking/__init__.py` as a machine whose actions are the steps of its
threads. A run is a list of actions, so it is an interleaving of the application's threads, the
connection threads, their readers, the timers and the sender.

## What a step is

A step is what a thread does between two points at which another thread can see a difference.

* A connection thread changes `_connections` and `_robin` under `_conn_lock` and then, still under
  it, updates the event. The event is read and written by others without the lock, so these are two
  steps (`register` and `registered`, `unregister` and `unregistered`) with the lock held between.
* The sender's loop is a step for each of its statements that touch shared state: taking an item,
  looking at the event, waking from `wait`, routing (under the lock), each `writer_queue.put`, and
  on `NoConnectionsAvailableError` the `clear` and then the `put`.
* `Event.wait` returns `True` if the flag is set when it is called or if `set` is called while it
  waits, also if the flag has been cleared again when the thread runs. So a waiting sender records
  that it has been signalled, and after that the flag does not matter to it.

## Scope

A connection thread is here from its registration on, and a reader with each envelope it passes on.
Sockets, frames and `io_lock` are the subject of other modules. A `threading.Timer` may go off at
any time after it was started, and a `queue.Queue` is a list. The interpreter may switch threads
between any two steps, and never within one.

## Main definitions

* `Socket`, `Sender`, `Lock` — the state
* `Action`, `Socket.step`, `machine` — the steps of the threads
-/

namespace Aiomsg

namespace Python

namespace Blocking

/-- Who holds `_conn_lock` between its change of the table and its update of the event: nobody,
the thread that registers the connection `c`, or a thread that unregisters one. -/
inductive Lock where
  | free
  | registering (c : ℕ)
  | unregistering
deriving DecidableEq

/-- Where the sender thread stands. There is a value for each place between two statements that
touch what others touch, and whichever item it has taken off the queue is part of it: an item is
never in two places. -/
inductive Sender (D : Type) where
  /-- At the top of the loop, in `_user_send_queue.get()`. -/
  | idle
  /-- About to call `at_least_one_connection.wait`. -/
  | holding (item : Item D)
  /-- In the call, and whether the event has been set since it began. -/
  | waiting (item : Item D) (signaled : Bool)
  /-- The call has returned `True`. -/
  | routing (item : Item D)
  /-- `NoConnectionsAvailableError` has been caught. -/
  | raised (item : Item D)
  /-- The event has been cleared after that. -/
  | cleared (item : Item D)
  /-- Out of the lock, with the connections whose writer queues are still to get the item. -/
  | putting (targets : List ℕ) (item : Item D)
  /-- Returned. -/
  | finished

/-- The socket. An item `none` of the send queue is `_SHUTDOWN`; `deferred` are the items of the
`notify_ack` timers that have not gone off. -/
structure Socket (D : Type) where
  sendMode : SendMode
  delivery : DeliveryGuarantee
  closed : Bool
  shutdownPut : Bool
  peers : Peers
  lock : Lock
  atLeastOneConnection : Bool
  queueRecv : List (Bytes × D)
  userSendQueue : List (Option (Item D))
  resends : Resends D
  deferred : List (Item D)
  sender : Sender D
  messages : ℕ
  requests : ℕ
  log : List (Event D)

/-- The `maxsize` of `_queue_recv`. -/
def maxsize : ℕ := 65536

/-- The steps. `msgId` is the one `uuid.uuid4()` gives. -/
inductive Action (D : Type) where
  /-- The application calls `send`. -/
  | send (data : D) (identity : Option Bytes) (retries : Option ℤ) (msgId : Bytes)
  /-- A resend timer goes off. -/
  | resend (handle : ℕ) (msgId : Bytes)
  /-- A connection thread that has read a HELLO takes the lock and enters its connection. -/
  | register (identity : Bytes)
  /-- It updates the event and releases the lock. -/
  | registered
  /-- The thread of connection `c` takes the lock and takes its connection out. -/
  | unregister (c : ℕ)
  /-- It updates the event and releases the lock. -/
  | unregistered
  /-- The reader of connection `c` calls `raw_recv`. -/
  | receive (c : ℕ) (env : Wire D)
  /-- A `notify_ack` timer goes off. -/
  | notifyAck (i : ℕ)
  /-- The application takes a message off the receive queue. -/
  | recv
  /-- The sender takes an item off the send queue. -/
  | get
  /-- The sender calls `wait` and looks at the flag. -/
  | check
  /-- The call to `wait` returns `True` after a `set`. -/
  | wake
  /-- The call to `wait` returns `False`. -/
  | timeout
  /-- The sender takes the lock and looks for connections. -/
  | route
  /-- The sender puts its item on the next writer queue. -/
  | put
  /-- The sender clears the event. -/
  | clear
  /-- The sender puts its item back on the send queue. -/
  | putBack
  /-- `close` sets `closed` and cancels the resends. -/
  | close
  /-- `close` puts `_SHUTDOWN` on the send queue. -/
  | shutdown

/-- What a `set` of the event does to a sender that waits for it. -/
def Sender.signal {D : Type} : Sender D → Sender D
  | .waiting item _ => .waiting item true
  | sender => sender

namespace Socket

variable {D : Type}

def new (sendMode : SendMode) (delivery : DeliveryGuarantee) : Socket D where
  sendMode := sendMode
  delivery := delivery
  closed := false
  shutdownPut := false
  peers := .new
  lock := .free
  atLeastOneConnection := false
  queueRecv := []
  userSendQueue := []
  resends := .new
  deferred := []
  sender := .idle
  messages := 0
  requests := 0
  log := []

/-! ### Sending and resending -/

/-- `_user_send_queue.put`. -/
def enqueue (s : Socket D) (item : Item D) : Socket D :=
  { s with userSendQueue := s.userSendQueue ++ [some item], log := s.log ++ [.queued item] }

/-- The body of `send`, for the message with number `n`. -/
def sendAs (s : Socket D) (n : ℕ) (data : D) (identity : Option Bytes) (retries : Option ℤ)
    (msgId : Bytes) : Socket D :=
  let ack := asksForAck s.sendMode s.delivery identity
  { s with
    resends :=
      if ack then s.resends.arm n msgId identity data (timerRetries retries) else s.resends
  }.enqueue ⟨identity, wireOf ack msgId data, .message n⟩

/-- `send`, called by the application. -/
def send (s : Socket D) (data : D) (identity : Option Bytes) (retries : Option ℤ) (msgId : Bytes) :
    Socket D :=
  { s with messages := s.messages + 1 }.sendAs s.messages data identity retries msgId

/-- `resend(remaining)`, called by its timer. -/
def resend (s : Socket D) (handle : ℕ) (msgId : Bytes) : Option (Socket D) :=
  (s.resends.expire handle).map fun (t, resends) =>
    let s := { s with resends := resends }
    if s.closed then s
    else if t.retries = 0 then s
    else { s with resends := s.resends.forget t.msgId }.sendAs t.n t.data t.identity
      (some t.retries) msgId

/-! ### Connections -/

/-- `at_least_one_connection.set()`. -/
def setEvent (s : Socket D) : Socket D :=
  { s with atLeastOneConnection := true, sender := s.sender.signal }

/-- The lines of `_connection` under the lock, up to the update of the event. -/
def register (s : Socket D) (identity : Bytes) : Option (Socket D) :=
  match s.lock with
  | .free =>
    if h : s.peers.Has identity then some s
    else some { s with
      peers := s.peers.insert identity h
      lock := .registering s.peers.made }
  | _ => none

def registered (s : Socket D) : Option (Socket D) :=
  match s.lock with
  | .registering _ =>
    let s := if s.peers.connections.length = 1 then s.setEvent else s
    some { s with lock := .free }
  | _ => none

/-- The `finally` of `_connection` under the lock, up to the update of the event. -/
def unregister (s : Socket D) (c : ℕ) : Option (Socket D) :=
  match s.lock, s.peers.identity c with
  | .free, some identity =>
    some { s with peers := s.peers.remove identity, lock := .unregistering }
  | _, _ => none

def unregistered (s : Socket D) : Option (Socket D) :=
  match s.lock with
  | .unregistering =>
    let s := if s.peers.connections = [] then { s with atLeastOneConnection := false } else s
    some { s with lock := .free }
  | _ => none

/-! ### Receiving -/

/-- `_deliver`. -/
def deliver (s : Socket D) (identity : Bytes) (payload : D) : Socket D :=
  { s with
    queueRecv :=
      if s.queueRecv.length < maxsize then s.queueRecv ++ [(identity, payload)] else s.queueRecv }

/-- The branch of `raw_recv` for a DATA_REQ. -/
def receiveDataReq (s : Socket D) (c : ℕ) (identity msgId : Bytes) (payload : D) : Socket D :=
  { s.deliver identity payload with
    deferred := s.deferred ++ [⟨some identity, .ack msgId, .request s.requests c⟩]
    requests := s.requests + 1
    log := s.log ++ .arrived s.requests c msgId payload ::
      if s.queueRecv.length < maxsize then [.delivered s.requests identity payload] else [] }

/-- `raw_recv`. The reader of a connection runs from the release of the lock that entered it to the
taking of the lock that takes it out. -/
def receive (s : Socket D) (c : ℕ) (env : Wire D) : Option (Socket D) :=
  match s.peers.identity c with
  | none => none
  | some identity =>
    if s.lock = .registering c then none
    else match env with
      | .data payload => some (s.deliver identity payload)
      | .dataReq msgId payload => some (s.receiveDataReq c identity msgId payload)
      | .ack msgId => some { s with resends := s.resends.acknowledge msgId }
      | .hello _ _ => some s
      | .heartbeat => some s

/-- `notify_ack`. -/
def notifyAck (s : Socket D) (i : ℕ) : Option (Socket D) :=
  (s.deferred[i]?).map fun item => { s with deferred := s.deferred.eraseIdx i }.enqueue item

/-- `recv_identity`. -/
def recv (s : Socket D) : Option (Socket D) :=
  match s.queueRecv with
  | [] => none
  | _ :: rest => some { s with queueRecv := rest }

/-! ### The sender -/

def get (s : Socket D) : Option (Socket D) :=
  match s.sender, s.userSendQueue with
  | .idle, none :: rest => some { s with sender := .finished, userSendQueue := rest }
  | .idle, some item :: rest => some { s with sender := .holding item, userSendQueue := rest }
  | _, _ => none

def check (s : Socket D) : Option (Socket D) :=
  match s.sender with
  | .holding item =>
    some { s with
      sender := if s.atLeastOneConnection then .routing item else .waiting item false }
  | _ => none

def wake (s : Socket D) : Option (Socket D) :=
  match s.sender with
  | .waiting item true => some { s with sender := .routing item }
  | _ => none

def timeout (s : Socket D) : Option (Socket D) :=
  match s.sender with
  | .waiting item false =>
    some { s with sender := if s.closed then .finished else .holding item }
  | _ => none

/-- `_sender_publish`, `_sender_robin` and `_sender_identity` up to the release of the lock: where
the sender stands then, and the table with its cycle moved on. -/
def lookFor (sendMode : SendMode) (peers : Peers) (item : Item D) : Sender D × Peers :=
  match item.identity, sendMode with
  | some identity, _ =>
    match peers.get identity with
    | none => (.idle, peers)
    | some c => (.putting [c] item, peers)
  | none, .publish =>
    if peers.connections = [] then (.raised item, peers)
    else (.putting (peers.connections.map Prod.snd) item, peers)
  | none, .roundRobin =>
    if peers.connections = [] then (.raised item, peers)
    else match peers.next with
      | none => (.idle, peers)
      | some (identity, peers) =>
        match peers.get identity with
        | none => (.idle, peers)
        | some c => (.putting [c] item, peers)

def route (s : Socket D) : Option (Socket D) :=
  match s.sender, s.lock with
  | .routing item, .free =>
    let (sender, peers) := lookFor s.sendMode s.peers item
    some { s with sender := sender, peers := peers }
  | _, _ => none

def put (s : Socket D) : Option (Socket D) :=
  match s.sender with
  | .putting (c :: rest) item =>
    some { s with
      sender := if rest = [] then .idle else .putting rest item
      log := s.log ++ [.written c item] }
  | _ => none

def clear (s : Socket D) : Option (Socket D) :=
  match s.sender with
  | .raised item => some { s with sender := .cleared item, atLeastOneConnection := false }
  | _ => none

def putBack (s : Socket D) : Option (Socket D) :=
  match s.sender with
  | .cleared item =>
    some { s with sender := .idle, userSendQueue := s.userSendQueue ++ [some item] }
  | _ => none

/-! ### Closing -/

def close (s : Socket D) : Option (Socket D) :=
  if s.closed then none
  else some { s with
    closed := true
    resends := { s.resends.cancelAll with waitingForAcks := [] } }

def shutdown (s : Socket D) : Option (Socket D) :=
  if s.closed && !s.shutdownPut then
    some { s with shutdownPut := true, userSendQueue := s.userSendQueue ++ [none] }
  else none

def step (s : Socket D) : Action D → Option (Socket D)
  | .send data identity retries msgId => some (s.send data identity retries msgId)
  | .resend handle msgId => s.resend handle msgId
  | .register identity => s.register identity
  | .registered => s.registered
  | .unregister c => s.unregister c
  | .unregistered => s.unregistered
  | .receive c env => s.receive c env
  | .notifyAck i => s.notifyAck i
  | .recv => s.recv
  | .get => s.get
  | .check => s.check
  | .wake => s.wake
  | .timeout => s.timeout
  | .route => s.route
  | .put => s.put
  | .clear => s.clear
  | .putBack => s.putBack
  | .close => s.close
  | .shutdown => s.shutdown

end Socket

/-! ### What a step can do -/

namespace Socket

variable {D : Type}

/-- What `lookFor` finds for an item: that it is to be dropped, that there is no connection, or the
connections that are to get it. Their numbers are different, and if the item is for an identity they
are those of that identity. -/
inductive Found (peers : Peers) (item : Item D) : Sender D × Peers → Prop
  | dropped {peers' : Peers} (hsame : peers'.connections = peers.connections) :
      Found peers item (.idle, peers')
  | raised (hidentity : item.identity = none) (hempty : peers.connections = []) :
      Found peers item (.raised item, peers)
  | targets {peers' : Peers} {targets : List ℕ} (hsame : peers'.connections = peers.connections)
      (hne : targets ≠ []) (hnodup : targets.Nodup)
      (hidentity : ∀ identity, item.identity = some identity →
        ∀ c ∈ targets, (identity, c) ∈ peers.connections) :
      Found peers item (.putting targets item, peers')

theorem found_lookFor (sendMode : SendMode) (peers : Peers) (item : Item D) :
    Found peers item (lookFor sendMode peers item) := by
  unfold lookFor
  split
  · rename_i identity hitem
    split
    · exact .dropped rfl
    · rename_i c hget
      refine .targets rfl (List.cons_ne_nil _ _) (List.nodup_singleton _) ?_
      intro identity' hitem' c' hc'
      obtain rfl : identity = identity' := Option.some.inj (hitem.symm.trans hitem')
      obtain rfl := List.mem_singleton.mp hc'
      exact Peers.mem_of_get hget
  · rename_i hitem
    split
    · rename_i hempty
      exact .raised hitem hempty
    · rename_i hempty
      refine .targets rfl ?_ peers.nodup_numbers fun identity hid => ?_
      · simpa using hempty
      · exact absurd (hitem.symm.trans hid) (by simp)
  · rename_i hitem
    split
    · rename_i hempty
      exact .raised hitem hempty
    · split
      · exact .dropped rfl
      · rename_i identity peers' hnext
        split
        · exact .dropped (Peers.connections_next hnext)
        · refine .targets (Peers.connections_next hnext) (List.cons_ne_nil _ _)
            (List.nodup_singleton _) fun identity hid => ?_
          exact absurd (hitem.symm.trans hid) (by simp)

/-- The steps by what they do. -/
inductive Step (s : Socket D) : Action D → Socket D → Prop
  | send (data : D) (identity : Option Bytes) (retries : Option ℤ) (msgId : Bytes) :
      Step s (.send data identity retries msgId) (s.send data identity retries msgId)
  | expire {handle : ℕ} {t : Timer D} {resends : Resends D} (msgId : Bytes)
      (hexpire : s.resends.expire handle = some (t, resends)) :
      Step s (.resend handle msgId) { s with resends := resends }
  | resend {handle : ℕ} {t : Timer D} {resends : Resends D} (msgId : Bytes)
      (hexpire : s.resends.expire handle = some (t, resends)) (hretries : t.retries ≠ 0) :
      Step s (.resend handle msgId)
        ({ s with resends := resends.forget t.msgId }.sendAs t.n t.data t.identity
          (some t.retries) msgId)
  | refuse {identity : Bytes} (hlock : s.lock = .free) (h : s.peers.Has identity) :
      Step s (.register identity) s
  | register {identity : Bytes} (hlock : s.lock = .free) (h : ¬ s.peers.Has identity) :
      Step s (.register identity)
        { s with peers := s.peers.insert identity h, lock := .registering s.peers.made }
  | first {c : ℕ} (hlock : s.lock = .registering c) (hlength : s.peers.connections.length = 1) :
      Step s .registered { s.setEvent with lock := .free }
  | further {c : ℕ} (hlock : s.lock = .registering c) (hlength : s.peers.connections.length ≠ 1) :
      Step s .registered { s with lock := .free }
  | unregister {c : ℕ} {identity : Bytes} (hlock : s.lock = .free)
      (hidentity : s.peers.identity c = some identity) :
      Step s (.unregister c) { s with peers := s.peers.remove identity, lock := .unregistering }
  | last (hlock : s.lock = .unregistering) (hempty : s.peers.connections = []) :
      Step s .unregistered { s with atLeastOneConnection := false, lock := .free }
  | remaining (hlock : s.lock = .unregistering) (hempty : s.peers.connections ≠ []) :
      Step s .unregistered { s with lock := .free }
  | data {c : ℕ} {identity : Bytes} (payload : D) (hidentity : s.peers.identity c = some identity) :
      Step s (.receive c (.data payload)) (s.deliver identity payload)
  | dataReq {c : ℕ} {identity : Bytes} (msgId : Bytes) (payload : D)
      (hidentity : s.peers.identity c = some identity) :
      Step s (.receive c (.dataReq msgId payload)) (s.receiveDataReq c identity msgId payload)
  | ack {c : ℕ} (msgId : Bytes) :
      Step s (.receive c (.ack msgId)) { s with resends := s.resends.acknowledge msgId }
  | ignore {c : ℕ} (env : Wire D) : Step s (.receive c env) s
  | notifyAck {i : ℕ} {item : Item D} (hitem : s.deferred[i]? = some item) :
      Step s (.notifyAck i) ({ s with deferred := s.deferred.eraseIdx i }.enqueue item)
  | recv {first : Bytes × D} {rest : List (Bytes × D)} (hqueue : s.queueRecv = first :: rest) :
      Step s .recv { s with queueRecv := rest }
  | finish {rest : List (Option (Item D))} (hsender : s.sender = .idle)
      (hqueue : s.userSendQueue = none :: rest) :
      Step s .get { s with sender := .finished, userSendQueue := rest }
  | get {item : Item D} {rest : List (Option (Item D))} (hsender : s.sender = .idle)
      (hqueue : s.userSendQueue = some item :: rest) :
      Step s .get { s with sender := .holding item, userSendQueue := rest }
  | pass {item : Item D} (hsender : s.sender = .holding item)
      (hevent : s.atLeastOneConnection = true) :
      Step s .check { s with sender := .routing item }
  | wait {item : Item D} (hsender : s.sender = .holding item)
      (hevent : s.atLeastOneConnection = false) :
      Step s .check { s with sender := .waiting item false }
  | wake {item : Item D} (hsender : s.sender = .waiting item true) :
      Step s .wake { s with sender := .routing item }
  | giveUp {item : Item D} (hsender : s.sender = .waiting item false) :
      Step s .timeout { s with sender := .finished }
  | again {item : Item D} (hsender : s.sender = .waiting item false) :
      Step s .timeout { s with sender := .holding item }
  | route {item : Item D} {sender : Sender D} {peers : Peers} (hsender : s.sender = .routing item)
      (hlock : s.lock = .free) (hfound : Found s.peers item (sender, peers)) :
      Step s .route { s with sender := sender, peers := peers }
  | put {c c' : ℕ} {rest : List ℕ} {item : Item D}
      (hsender : s.sender = .putting (c :: c' :: rest) item) :
      Step s .put
        { s with sender := .putting (c' :: rest) item, log := s.log ++ [.written c item] }
  | putLast {c : ℕ} {item : Item D} (hsender : s.sender = .putting [c] item) :
      Step s .put { s with sender := .idle, log := s.log ++ [.written c item] }
  | clear {item : Item D} (hsender : s.sender = .raised item) :
      Step s .clear { s with sender := .cleared item, atLeastOneConnection := false }
  | putBack {item : Item D} (hsender : s.sender = .cleared item) :
      Step s .putBack
        { s with sender := .idle, userSendQueue := s.userSendQueue ++ [some item] }
  | close :
      Step s .close
        { s with closed := true, resends := { s.resends.cancelAll with waitingForAcks := [] } }
  | shutdown :
      Step s .shutdown
        { s with shutdownPut := true, userSendQueue := s.userSendQueue ++ [none] }

variable {s t : Socket D}

theorem resend_cases {handle : ℕ} {msgId : Bytes} (h : s.resend handle msgId = some t) :
    Step s (.resend handle msgId) t := by
  obtain ⟨⟨timer, resends⟩, hexpire, rfl⟩ := Option.map_eq_some_iff.mp h
  show Step s _ (if s.closed then _ else if timer.retries = 0 then _ else _)
  split_ifs with hclosed hretries
  · exact .expire msgId hexpire
  · exact .expire msgId hexpire
  · exact .resend msgId hexpire hretries

theorem register_cases {identity : Bytes} (h : s.register identity = some t) :
    Step s (.register identity) t := by
  unfold register at h
  split at h
  · rename_i hlock
    split_ifs at h with hhas
    · obtain rfl := Option.some.inj h
      exact .refuse hlock hhas
    · obtain rfl := Option.some.inj h
      exact .register hlock hhas
  · exact absurd h (by simp)

theorem registered_cases (h : s.registered = some t) : Step s .registered t := by
  unfold registered at h
  split at h
  · rename_i c hlock
    obtain rfl := Option.some.inj h
    split_ifs with hlength
    · exact .first hlock hlength
    · exact .further hlock hlength
  · exact absurd h (by simp)

theorem unregister_cases {c : ℕ} (h : s.unregister c = some t) : Step s (.unregister c) t := by
  unfold unregister at h
  split at h
  · rename_i identity hlock hidentity
    obtain rfl := Option.some.inj h
    exact .unregister hlock hidentity
  · exact absurd h (by simp)

theorem unregistered_cases (h : s.unregistered = some t) : Step s .unregistered t := by
  unfold unregistered at h
  split at h
  · rename_i hlock
    obtain rfl := Option.some.inj h
    split_ifs with hempty
    · exact .last hlock hempty
    · exact .remaining hlock hempty
  · exact absurd h (by simp)

theorem receive_cases {c : ℕ} {env : Wire D} (h : s.receive c env = some t) :
    Step s (.receive c env) t := by
  unfold receive at h
  split at h
  · exact absurd h (by simp)
  · rename_i identity hidentity
    split_ifs at h
    cases env with
    | data payload =>
      obtain rfl := Option.some.inj h
      exact .data payload hidentity
    | dataReq msgId payload =>
      obtain rfl := Option.some.inj h
      exact .dataReq msgId payload hidentity
    | ack msgId =>
      obtain rfl := Option.some.inj h
      exact .ack msgId
    | hello version identity =>
      obtain rfl := Option.some.inj h
      exact .ignore _
    | heartbeat =>
      obtain rfl := Option.some.inj h
      exact .ignore _

theorem get_cases (h : s.get = some t) : Step s .get t := by
  unfold get at h
  split at h
  · rename_i hsender hqueue
    obtain rfl := Option.some.inj h
    exact .finish hsender hqueue
  · rename_i hsender hqueue
    obtain rfl := Option.some.inj h
    exact .get hsender hqueue
  · exact absurd h (by simp)

theorem check_cases (h : s.check = some t) : Step s .check t := by
  unfold check at h
  split at h
  · rename_i item hsender
    obtain rfl := Option.some.inj h
    split_ifs with hevent
    · exact .pass hsender hevent
    · exact .wait hsender (Bool.eq_false_iff.mpr hevent)
  · exact absurd h (by simp)

theorem timeout_cases (h : s.timeout = some t) : Step s .timeout t := by
  unfold timeout at h
  split at h
  · rename_i item hsender
    obtain rfl := Option.some.inj h
    split_ifs
    · exact .giveUp hsender
    · exact .again hsender
  · exact absurd h (by simp)

theorem put_cases (h : s.put = some t) : Step s .put t := by
  unfold put at h
  split at h
  · rename_i c rest item hsender
    obtain rfl := Option.some.inj h
    cases rest with
    | nil => exact .putLast hsender
    | cons c' rest => exact .put hsender
  · exact absurd h (by simp)

theorem recv_cases (h : s.recv = some t) : Step s .recv t := by
  unfold recv at h
  split at h
  · exact absurd h (by simp)
  · rename_i hqueue
    obtain rfl := Option.some.inj h
    exact .recv hqueue

theorem wake_cases (h : s.wake = some t) : Step s .wake t := by
  unfold wake at h
  split at h
  · rename_i hsender
    obtain rfl := Option.some.inj h
    exact .wake hsender
  · exact absurd h (by simp)

theorem route_cases (h : s.route = some t) : Step s .route t := by
  unfold route at h
  split at h
  · rename_i item hsender hlock
    obtain rfl := Option.some.inj h
    exact .route hsender hlock (found_lookFor s.sendMode s.peers item)
  · exact absurd h (by simp)

theorem clear_cases (h : s.clear = some t) : Step s .clear t := by
  unfold clear at h
  split at h
  · rename_i hsender
    obtain rfl := Option.some.inj h
    exact .clear hsender
  · exact absurd h (by simp)

theorem putBack_cases (h : s.putBack = some t) : Step s .putBack t := by
  unfold putBack at h
  split at h
  · rename_i hsender
    obtain rfl := Option.some.inj h
    exact .putBack hsender
  · exact absurd h (by simp)

/-- **What a step can do.** -/
theorem step_cases {a : Action D} (h : s.step a = some t) : Step s a t := by
  cases a with
  | send data identity retries msgId =>
    obtain rfl := Option.some.inj h
    exact .send data identity retries msgId
  | resend handle msgId => exact resend_cases h
  | register identity => exact register_cases h
  | registered => exact registered_cases h
  | unregister c => exact unregister_cases h
  | unregistered => exact unregistered_cases h
  | receive c env => exact receive_cases h
  | notifyAck i =>
    obtain ⟨item, hitem, rfl⟩ := Option.map_eq_some_iff.mp h
    exact .notifyAck hitem
  | recv => exact recv_cases h
  | get => exact get_cases h
  | check => exact check_cases h
  | wake => exact wake_cases h
  | timeout => exact timeout_cases h
  | route => exact route_cases h
  | put => exact put_cases h
  | clear => exact clear_cases h
  | putBack => exact putBack_cases h
  | close =>
    obtain ⟨-, rfl⟩ : s.closed = false ∧ _ = t := by simpa [step, close] using h
    exact .close
  | shutdown =>
    obtain ⟨-, rfl⟩ : (s.closed = true ∧ s.shutdownPut = false) ∧ _ = t := by
      simpa [step, shutdown] using h
    exact .shutdown

end Socket

/-- The blocking socket as a machine. -/
def machine (D : Type) : Machine (Socket D) (Action D) where
  step := Socket.step

end Blocking

end Python

end Aiomsg
