import Aiomsg.Python.Asyncio
import Aiomsg.Python.Blocking
import Mathlib.Algebra.Order.BigOperators.Group.List

/-!
# How often a message is sent again

A DATA_REQ that is not acknowledged within five seconds is sent again as a new DATA_REQ with a timer
of its own. The number of times this may still happen is the argument of the timer: five at first,
or one less than the `retries` that `send` was given, and the timer that goes off with zero drops
the message.

The blocking package gives the argument on to the `send` of the new DATA_REQ, and the message is
sent at most six times. The other package calls `send(data, identity)` there: every timer but the
first has five as its argument, none of them has zero, and the message is sent again until it is
acknowledged. The one message it does not send again is one that was sent with `retries=1`, whose
first timer has zero.

## Scope

Transmissions are counted when a DATA_REQ is put on the send queue. That it is put on a writer
queue, and written, is later and may not happen; the bound is one from above, and the excess is real
as soon as the peer is there.

## Main results

* `Asyncio.exists_resends` — a message whose timer does not have zero may be sent any number of
  times
* `dataReqs_le_six_iff` — when a message is sent at most six times
* `seven_dataReqs` — the default
-/

namespace Aiomsg

namespace Python

variable {D : Type}

/-! ### Counting -/

/-- Whether a DATA_REQ for the message with number `n` was queued. -/
def Event.isDataReqOf (n : ℕ) : Event D → Bool
  | .queued ⟨_, .dataReq _ _, .message n'⟩ => n' = n
  | _ => false

/-- The number of DATA_REQs that were queued for a message. -/
def dataReqs (n : ℕ) (log : List (Event D)) : ℕ := log.countP (Event.isDataReqOf n)

/-- Whether an id was given to a DATA_REQ for a message. -/
def issued (n : ℕ) (log : List (Event D)) (msgId : Bytes) : Bool :=
  log.any fun
    | .queued ⟨_, .dataReq msgId' _, .message n'⟩ => n' = n && msgId' = msgId
    | _ => false

theorem dataReqs_append (n : ℕ) (log later : List (Event D)) :
    dataReqs n (log ++ later) = dataReqs n log + dataReqs n later :=
  List.countP_append

/-- What `send` queues is a DATA_REQ of its message if it asks for an acknowledgement. -/
theorem dataReqs_sent (n n' : ℕ) (identity : Option Bytes) (ack : Bool) (msgId : Bytes) (data : D) :
    dataReqs n [.queued ⟨identity, wireOf ack msgId data, .message n'⟩]
      = if ack = true ∧ n' = n then 1 else 0 := by
  cases ack <;> simp [dataReqs, wireOf, Event.isDataReqOf, List.countP_cons]

/-- Nothing that is received is queued at once. -/
theorem dataReqs_received (n r c : ℕ) (msgId identity : Bytes) (payload : D) (room : Prop)
    [Decidable room] :
    dataReqs n (.arrived r c msgId payload ::
      if room then [.delivered r identity payload] else []) = 0 := by
  split_ifs <;> rfl

/-! ### Numbers and handles -/

/-- What has a number has one that was given out, and so has a timer its handle. -/
structure Numbered (messages : ℕ) (log : List (Event D)) (resends : Resends D)
    (deferred : List (Item D)) : Prop where
  log : ∀ n, messages ≤ n → dataReqs n log = 0
  timers : ∀ t ∈ resends.timers, t.n < messages
  handles : ∀ t ∈ resends.timers, t.handle < resends.handles
  deferred : ∀ item ∈ deferred, ∀ n, dataReqs n [.queued item] = 0

section Numbered

variable {messages : ℕ} {log later : List (Event D)} {resends resends' : Resends D}
  {deferred deferred' : List (Item D)}

theorem Numbered.empty : Numbered 0 ([] : List (Event D)) .new [] := by
  constructor <;> simp [Resends.new, dataReqs]

/-- Fewer timers, fewer ACKs to come, and in the log what is no DATA_REQ. -/
theorem Numbered.less (h : Numbered messages log resends deferred)
    (hlater : ∀ n, dataReqs n later = 0) (htimers : resends'.timers ⊆ resends.timers)
    (hhandles : resends'.handles = resends.handles) (hdeferred : deferred' ⊆ deferred) :
    Numbered messages (log ++ later) resends' deferred' where
  log n hn := by rw [dataReqs_append, h.log n hn, hlater n]
  timers t ht := h.timers t (htimers ht)
  handles t ht := by
    rw [hhandles]
    exact h.handles t (htimers ht)
  deferred item hmem := h.deferred item (hdeferred hmem)

/-- One more number. -/
theorem Numbered.succ (h : Numbered messages log resends deferred) :
    Numbered (messages + 1) log resends deferred where
  log n hn := h.log n (Nat.le_of_succ_le hn)
  timers t ht := (h.timers t ht).trans (Nat.lt_succ_self _)
  handles := h.handles
  deferred := h.deferred

/-- `send` for a message that has a number. -/
theorem Numbered.send (h : Numbered messages log resends deferred) {n : ℕ} (hn : n < messages)
    (ack : Bool) (msgId : Bytes) (identity : Option Bytes) (data : D) (retries : ℤ) :
    Numbered messages (log ++ [.queued ⟨identity, wireOf ack msgId data, .message n⟩])
      (if ack then resends.arm n msgId identity data retries else resends) deferred where
  log n' hn' := by
    have hne : n ≠ n' := (hn.trans_le hn').ne
    rw [dataReqs_append, h.log n' hn', dataReqs_sent, if_neg fun hand => hne hand.2]
  timers t ht := by
    split_ifs at ht
    · rcases List.mem_append.mp ht with ht | ht
      · exact h.timers t ht
      · rw [List.mem_singleton.mp ht]
        exact hn
    · exact h.timers t ht
  handles t ht := by
    split_ifs at ht ⊢
    · rcases List.mem_append.mp ht with ht | ht
      · exact (h.handles t ht).trans (Nat.lt_succ_self _)
      · rw [List.mem_singleton.mp ht]
        exact Nat.lt_succ_self _
    · exact h.handles t ht
  deferred := h.deferred

/-- An ACK to come. -/
theorem Numbered.defer (h : Numbered messages log resends deferred) (identity : Option Bytes)
    (msgId : Bytes) (origin : Origin) :
    Numbered messages log resends (deferred ++ [⟨identity, .ack msgId, origin⟩]) where
  log := h.log
  timers := h.timers
  handles := h.handles
  deferred item hmem n := by
    rcases List.mem_append.mp hmem with hmem | hmem
    · exact h.deferred item hmem n
    · rw [List.mem_singleton.mp hmem]
      rfl

end Numbered

theorem Resends.timers_acknowledge (r : Resends D) (msgId : Bytes) :
    (r.acknowledge msgId).timers ⊆ r.timers := by
  unfold Resends.acknowledge
  split
  · exact List.Subset.refl _
  · exact List.filter_sublist.subset

theorem Resends.handles_acknowledge (r : Resends D) (msgId : Bytes) :
    (r.acknowledge msgId).handles = r.handles := by
  unfold Resends.acknowledge
  split <;> rfl

/-- A timer that goes off is one that was running, and the others go on. -/
theorem Resends.of_expire {r r' : Resends D} {handle : ℕ} {t : Timer D}
    (h : r.expire handle = some (t, r')) :
    t ∈ r.timers ∧ t.handle = handle ∧ r'.handles = r.handles ∧
      r'.timers = r.timers.filter fun t => t.handle ≠ handle := by
  obtain ⟨t', hfind, heq⟩ := Option.map_eq_some_iff.mp h
  obtain ⟨rfl, rfl⟩ := Prod.mk.inj heq
  have hhandle : t'.handle = handle := by simpa using List.find?_some hfind
  exact ⟨List.mem_of_find?_eq_some hfind, hhandle, rfl, rfl⟩

/-- The newest timer can go off. -/
theorem Resends.expire_arm (r : Resends D) (n : ℕ) (msgId : Bytes) (identity : Option Bytes)
    (data : D) (retries : ℤ) (hhandles : ∀ t ∈ r.timers, t.handle < r.handles) :
    ∃ r', (r.arm n msgId identity data retries).expire r.handles
      = some (⟨r.handles, n, msgId, identity, data, retries⟩, r') := by
  have hold : r.timers.find? (fun t => t.handle = r.handles) = none := by
    refine List.find?_eq_none.mpr fun t ht => ?_
    simpa using (hhandles t ht).ne
  simp [Resends.expire, Resends.arm, List.find?_append, hold]

/-! ### The socket on an event loop -/

namespace Asyncio

/-- No ACK is received for a DATA_REQ of the message. -/
def NeverAcked (n : ℕ) (s : Socket D) : Action D → Prop
  | .receive _ (.ack msgId) => issued n s.log msgId = false
  | _ => True

instance (n : ℕ) (s : Socket D) : ∀ a, Decidable (NeverAcked n s a)
  | .receive _ (.ack _) => inferInstanceAs (Decidable (_ = _))
  | .receive _ (.data _) | .receive _ (.dataReq _ _) | .receive _ (.hello _ _)
  | .receive _ .heartbeat | .send .. | .resend _ | .runTask .. | .register _ | .unregister _
  | .waitClosed | .notifyAck _ | .recv | .get | .check | .resume | .close | .cancelSender
  | .cancelTasks => .isTrue trivial

/-- Numbers and handles are those that were given out. -/
structure Known (s : Socket D) : Prop where
  numbered : Numbered s.messages s.log s.resends s.deferred
  tasks : ∀ task ∈ s.tasks, task.n < s.messages

variable {s t : Socket D}

theorem Known.sendAs {n : ℕ} (h : Known s) (hn : n < s.messages) (data : D)
    (identity : Option Bytes) (retries : Option ℤ) (msgId : Bytes) :
    Known (s.sendAs n data identity retries msgId) :=
  ⟨h.numbered.send hn _ _ _ _ _, h.tasks⟩

/-- What takes timers or ACKs away and queues no message. -/
theorem Known.less {later : List (Event D)} (h : Known s) (hmessages : t.messages = s.messages)
    (hlog : t.log = s.log ++ later) (hlater : ∀ n, dataReqs n later = 0)
    (htimers : t.resends.timers ⊆ s.resends.timers)
    (hhandles : t.resends.handles = s.resends.handles) (hdeferred : t.deferred ⊆ s.deferred)
    (htasks : t.tasks ⊆ s.tasks) : Known t where
  numbered := by
    rw [hmessages, hlog]
    exact h.numbered.less hlater htimers hhandles hdeferred
  tasks task hmem := by
    rw [hmessages]
    exact h.tasks task (htasks hmem)

theorem Known.same (h : Known s) (hmessages : t.messages = s.messages) (hlog : t.log = s.log)
    (hresends : t.resends = s.resends) (hdeferred : t.deferred = s.deferred)
    (htasks : t.tasks = s.tasks) : Known t where
  numbered := by
    rw [hmessages, hlog, hresends, hdeferred]
    exact h.numbered
  tasks := by
    rw [hmessages, htasks]
    exact h.tasks

theorem Known.receiveDataReq (h : Known s) (c : ℕ) (identity msgId : Bytes) (payload : D) :
    Known (s.receiveDataReq c identity msgId payload) := by
  have hquiet (later : List (Event D)) (hlater : ∀ n, dataReqs n later = 0) :
      Numbered s.messages (s.log ++ later) s.resends s.deferred :=
    h.numbered.less hlater (List.Subset.refl _) rfl (List.Subset.refl _)
  unfold Socket.receiveDataReq
  split_ifs
  · exact ⟨(hquiet _ fun n => rfl).defer _ _ _, h.tasks⟩
  · exact ⟨hquiet _ fun n => rfl, h.tasks⟩

theorem Known.step {a : Action D} (h : Known s) (hstep : s.step a = some t) : Known t := by
  cases Socket.step_cases hstep with
  | send data identity retries msgId =>
    have hs : Known { s with messages := s.messages + 1 } :=
      ⟨h.numbered.succ, fun task hmem => (h.tasks task hmem).trans (Nat.lt_succ_self _)⟩
    exact hs.sendAs (Nat.lt_succ_self _) _ _ _ _
  | expire hexpire hretries =>
    obtain ⟨-, -, hhandles, htimers⟩ := Resends.of_expire hexpire
    refine h.less rfl (List.append_nil _).symm (fun n => rfl) ?_ hhandles (List.Subset.refl _)
      (List.Subset.refl _)
    rw [htimers]
    exact List.filter_sublist.subset
  | resend hexpire hretries =>
    obtain ⟨htimer, -, hhandles, htimers⟩ := Resends.of_expire hexpire
    constructor
    · rw [← List.append_nil s.log]
      refine h.numbered.less (fun n => rfl) ?_ hhandles (List.Subset.refl _)
      show Resends.timers _ ⊆ _
      rw [Resends.forget, htimers]
      exact List.filter_sublist.subset
    · intro task hmem
      rcases List.mem_append.mp hmem with hmem | hmem
      · exact h.tasks task hmem
      · rw [List.mem_singleton.mp hmem]
        exact h.numbered.timers _ htimer
  | runTask msgId htask =>
    rename_i i task
    have hs : Known { s with tasks := s.tasks.eraseIdx i } :=
      ⟨h.numbered, fun task hmem => h.tasks task ((List.eraseIdx_sublist _ _).subset hmem)⟩
    exact hs.sendAs (h.tasks _ (List.mem_of_getElem? htask)) _ _ _ _
  | dataReq msgId payload hidentity => exact h.receiveDataReq _ _ _ _
  | ack msgId =>
    exact h.less rfl (List.append_nil _).symm (fun n => rfl) (Resends.timers_acknowledge _ _)
      (Resends.handles_acknowledge _ _) (List.Subset.refl _) (List.Subset.refl _)
  | notifyAck hitem =>
    refine h.less rfl rfl ?_ (List.Subset.refl _) rfl (List.eraseIdx_sublist _ _).subset
      (List.Subset.refl _)
    exact h.numbered.deferred _ (List.mem_of_getElem? hitem)
  | serve hsender hfound =>
    refine h.less rfl rfl (fun n => ?_) (List.Subset.refl _) rfl (List.Subset.refl _)
      (List.Subset.refl _)
    simp [dataReqs, Event.isDataReqOf]
  | close =>
    exact h.less rfl (List.append_nil _).symm (fun n => rfl) List.filter_sublist.subset rfl
      (List.Subset.refl _) (List.Subset.refl _)
  | cancelTasks => exact ⟨h.numbered, fun task hmem => absurd hmem List.not_mem_nil⟩
  | refuse | first | further | unregister | waitClosed | data | ignore | recv | get | check
  | putBack | cancelSender => exact h.same rfl rfl rfl rfl rfl

/-- **Known along runs.** -/
theorem known_of_run {sendMode : SendMode} {delivery : DeliveryGuarantee}
    {actions : List (Action D)}
    (hrun : (machine D).run (.new sendMode delivery) actions = some s) : Known s :=
  Machine.invariant (fun _ _ _ hs => hs.step) hrun
    ⟨.empty, fun _ hmem => absurd hmem List.not_mem_nil⟩

/-- The timer with the handle is of the message and will have it sent again. -/
def Armed (n handle : ℕ) (s : Socket D) : Prop :=
  ∃ timer resends, s.resends.expire handle = some (timer, resends) ∧ timer.n = n ∧
    timer.retries ≠ 0 ∧ asksForAck s.sendMode s.delivery timer.identity = true

/-- `send` arms the next handle, if its timer does not have zero. -/
theorem armed_sendAs (hhandles : ∀ t ∈ s.resends.timers, t.handle < s.resends.handles) (n : ℕ)
    (data : D) (identity : Option Bytes) (retries : Option ℤ) (msgId : Bytes)
    (hack : asksForAck s.sendMode s.delivery identity = true)
    (hretries : timerRetries retries ≠ 0) :
    Armed n s.resends.handles (s.sendAs n data identity retries msgId) := by
  obtain ⟨resends, hexpire⟩ :=
    s.resends.expire_arm n msgId identity data (timerRetries retries) hhandles
  refine ⟨⟨s.resends.handles, n, msgId, identity, data, timerRetries retries⟩, resends, ?_, rfl,
    hretries, hack⟩
  rw [← hexpire, Socket.sendAs, hack]
  rfl

theorem dataReqs_sendAs (n : ℕ) (data : D) (identity : Option Bytes) (retries : Option ℤ)
    (msgId : Bytes) (hack : asksForAck s.sendMode s.delivery identity = true) :
    dataReqs n (s.sendAs n data identity retries msgId).log = dataReqs n s.log + 1 := by
  show dataReqs n (s.log ++ [.queued ⟨identity, wireOf _ msgId data, .message n⟩]) = _
  rw [dataReqs_append, dataReqs_sent, if_pos ⟨hack, rfl⟩]

/-- **One resend.** A timer that goes off leads to a DATA_REQ with a timer that will go off. -/
theorem exists_resend {n handle : ℕ} (hknown : Known s) (harmed : Armed n handle s) :
    ∃ mid u, s.step (.resend handle) = some mid ∧ mid.step (.runTask s.tasks.length []) = some u ∧
      Armed n s.resends.handles u ∧ dataReqs n u.log = dataReqs n s.log + 1 := by
  obtain ⟨timer, resends, hexpire, rfl, hretries, hack⟩ := harmed
  obtain ⟨-, -, hhandles, htimers⟩ := Resends.of_expire hexpire
  let mid : Socket D :=
    { s with
      resends := resends.forget timer.msgId
      tasks := s.tasks ++ [⟨timer.n, timer.data, timer.identity⟩] }
  have hresend : s.step (.resend handle) = some mid := by
    simp [Socket.step, Socket.resend, hexpire, hretries, mid]
  let base : Socket D := { mid with tasks := mid.tasks.eraseIdx s.tasks.length }
  have htask : mid.step (.runTask s.tasks.length [])
      = some (base.sendAs timer.n timer.data timer.identity none []) := by
    simp [Socket.step, Socket.runTask, mid, base]
  have hlt : ∀ t ∈ base.resends.timers, t.handle < base.resends.handles := by
    show ∀ t ∈ resends.timers, t.handle < resends.handles
    rw [htimers, hhandles]
    exact fun t ht => hknown.numbered.handles t (List.mem_of_mem_filter ht)
  refine ⟨mid, _, hresend, htask, ?_, dataReqs_sendAs _ _ _ _ _ hack⟩
  rw [← hhandles]
  exact armed_sendAs hlt _ _ _ _ _ hack (by simp [timerRetries])

/-- **Without end.** A message with a timer that will have it sent again may be sent any number of
times, without an ACK being received at all. -/
theorem exists_resends {n handle : ℕ} (hknown : Known s) (harmed : Armed n handle s) (k : ℕ) :
    ∃ actions t, (machine D).run s actions = some t ∧ (machine D).Along (NeverAcked n) s actions ∧
      dataReqs n t.log = dataReqs n s.log + k := by
  induction k generalizing s handle with
  | zero => exact ⟨[], s, rfl, trivial, rfl⟩
  | succ k ih =>
    obtain ⟨mid, u, hresend, htask, hagain, hcount⟩ := exists_resend hknown harmed
    obtain ⟨actions, t, hrun, halong, htotal⟩ := ih ((hknown.step hresend).step htask) hagain
    refine ⟨.resend handle :: .runTask s.tasks.length [] :: actions, t, ?_, ?_, ?_⟩
    · exact Machine.run_cons_of_step hresend (Machine.run_cons_of_step htask hrun)
    · exact .cons_of_step trivial hresend (.cons_of_step trivial htask halong)
    · rw [htotal, hcount]
      omega

/-- The message has been sent at most once and will not be sent again. -/
structure Dropped (n : ℕ) (s : Socket D) : Prop where
  lt : n < s.messages
  count : dataReqs n s.log ≤ 1
  timers : ∀ t ∈ s.resends.timers, t.n = n → t.retries = 0
  tasks : ∀ task ∈ s.tasks, task.n ≠ n

theorem Dropped.sendAs {n n' : ℕ} (h : Dropped n s) (hne : n' ≠ n) (data : D)
    (identity : Option Bytes) (retries : Option ℤ) (msgId : Bytes) :
    Dropped n (s.sendAs n' data identity retries msgId) where
  lt := h.lt
  count := by
    show dataReqs n (s.log ++ [.queued ⟨identity, wireOf _ msgId data, .message n'⟩]) ≤ 1
    rw [dataReqs_append, dataReqs_sent, if_neg fun hand => hne hand.2]
    exact h.count
  timers t ht hn := by
    simp only [Socket.sendAs, Socket.enqueue] at ht
    split_ifs at ht
    · rcases List.mem_append.mp ht with ht | ht
      · exact h.timers t ht hn
      · rw [List.mem_singleton.mp ht] at hn
        exact absurd hn hne
    · exact h.timers t ht hn
  tasks := h.tasks

theorem Dropped.less {n : ℕ} {later : List (Event D)} (h : Dropped n s)
    (hmessages : t.messages = s.messages) (hlog : t.log = s.log ++ later)
    (hlater : dataReqs n later = 0) (htimers : t.resends.timers ⊆ s.resends.timers)
    (htasks : t.tasks ⊆ s.tasks) : Dropped n t where
  lt := hmessages ▸ h.lt
  count := by
    rw [hlog, dataReqs_append, hlater]
    exact h.count
  timers t ht := h.timers t (htimers ht)
  tasks task hmem := h.tasks task (htasks hmem)

theorem Dropped.same {n : ℕ} (h : Dropped n s) (hmessages : t.messages = s.messages)
    (hlog : t.log = s.log) (htimers : t.resends.timers ⊆ s.resends.timers)
    (htasks : t.tasks ⊆ s.tasks) : Dropped n t :=
  h.less hmessages (hlog.trans (List.append_nil _).symm) rfl htimers htasks

theorem Dropped.step {n : ℕ} {a : Action D} (h : Dropped n s) (hknown : Known s)
    (hstep : s.step a = some t) : Dropped n t := by
  cases Socket.step_cases hstep with
  | send data identity retries msgId =>
    have hs : Dropped n { s with messages := s.messages + 1 } :=
      ⟨h.lt.trans (Nat.lt_succ_self _), h.count, h.timers, h.tasks⟩
    exact hs.sendAs h.lt.ne' _ _ _ _
  | expire hexpire hretries =>
    obtain ⟨-, -, -, htimers⟩ := Resends.of_expire hexpire
    refine h.same rfl rfl ?_ (List.Subset.refl _)
    rw [htimers]
    exact List.filter_sublist.subset
  | resend hexpire hretries =>
    obtain ⟨htimer, -, -, htimers⟩ := Resends.of_expire hexpire
    refine ⟨h.lt, h.count, fun t ht => h.timers t ?_, fun task hmem => ?_⟩
    · rw [Resends.forget, htimers] at ht
      exact List.mem_of_mem_filter ht
    · rcases List.mem_append.mp hmem with hmem | hmem
      · exact h.tasks task hmem
      · rw [List.mem_singleton.mp hmem]
        exact fun hn => hretries (h.timers _ htimer hn)
  | runTask msgId htask =>
    rename_i i task
    have hs : Dropped n { s with tasks := s.tasks.eraseIdx i } :=
      h.same rfl rfl (List.Subset.refl _) (List.eraseIdx_sublist _ _).subset
    exact hs.sendAs (h.tasks _ (List.mem_of_getElem? htask)) _ _ _ _
  | dataReq msgId payload hidentity =>
    unfold Socket.receiveDataReq
    split_ifs
    · exact h.less rfl rfl rfl (List.Subset.refl _) (List.Subset.refl _)
    · exact h.less rfl rfl rfl (List.Subset.refl _) (List.Subset.refl _)
  | ack msgId => exact h.same rfl rfl (Resends.timers_acknowledge _ _) (List.Subset.refl _)
  | notifyAck hitem =>
    refine h.less rfl rfl ?_ (List.Subset.refl _) (List.Subset.refl _)
    exact hknown.numbered.deferred _ (List.mem_of_getElem? hitem) n
  | serve hsender hfound =>
    refine h.less rfl rfl ?_ (List.Subset.refl _) (List.Subset.refl _)
    simp [dataReqs, Event.isDataReqOf]
  | close => exact h.same rfl rfl List.filter_sublist.subset (List.Subset.refl _)
  | cancelTasks => exact h.same rfl rfl (List.Subset.refl _) (List.nil_subset _)
  | refuse | first | further | unregister | waitClosed | data | ignore | recv | get | check
  | putBack | cancelSender =>
    exact h.same rfl rfl (List.Subset.refl _) (List.Subset.refl _)

/-- The number of DATA_REQs for the message that was just sent stays at six or less as long as none
of them is acknowledged. -/
def Bounded (n : ℕ) (s : Socket D) : Prop :=
  ∀ actions t, (machine D).run s actions = some t →
    (machine D).Along (NeverAcked n) s actions → dataReqs n t.log ≤ 1 + 5

/-- A message sent in a state with known numbers is sent at most six times if and only if it was
sent with `retries=1`. -/
theorem bounded_send_iff (hknown : Known s) (data : D) (identity : Option Bytes)
    (retries : Option ℤ) (msgId : Bytes)
    (hack : asksForAck s.sendMode s.delivery identity = true) :
    Bounded s.messages (s.send data identity retries msgId) ↔ retries = some 1 := by
  have hnone : dataReqs s.messages s.log = 0 := hknown.numbered.log _ le_rfl
  have hcount : dataReqs s.messages (s.send data identity retries msgId).log = 1 := by
    have h := dataReqs_sendAs (s := { s with messages := s.messages + 1 }) s.messages data identity
      retries msgId hack
    rwa [hnone] at h
  have hsent : Known (s.send data identity retries msgId) :=
    hknown.step (a := .send data identity retries msgId) rfl
  constructor
  · intro hbounded
    by_contra hone
    have hretries : timerRetries retries ≠ 0 := by
      cases retries with
      | none => simp [timerRetries]
      | some k =>
        intro hzero
        refine hone (congrArg some ?_)
        simp only [timerRetries] at hzero
        omega
    have harmed : Armed s.messages s.resends.handles (s.send data identity retries msgId) :=
      armed_sendAs (s := { s with messages := s.messages + 1 }) hknown.numbered.handles _ _ _ _ _
        hack hretries
    obtain ⟨actions, t, hrun, halong, htotal⟩ := exists_resends hsent harmed 6
    have hle := hbounded actions t hrun halong
    omega
  · rintro rfl actions t hrun -
    have hdropped : Dropped s.messages (s.send data identity (some 1) msgId) := by
      refine ⟨Nat.lt_succ_self _, hcount.le, fun t ht hn => ?_, fun task hmem => ?_⟩
      · simp only [Socket.send, Socket.sendAs, Socket.enqueue, hack, if_true] at ht
        rcases List.mem_append.mp ht with ht | ht
        · exact absurd hn (hknown.numbered.timers t ht).ne
        · rw [List.mem_singleton.mp ht]
          rfl
      · exact (hknown.tasks task hmem).ne
    have hend : Dropped s.messages t ∧ Known t :=
      Machine.invariant (I := fun u => Dropped s.messages u ∧ Known u)
        (fun _ _ _ hu hstep => ⟨hu.1.step hu.2 hstep, hu.2.step hstep⟩) hrun ⟨hdropped, hsent⟩
    exact hend.1.count.trans (by decide)

end Asyncio

/-! ### The blocking socket -/

/-- How often a timer of the message will have it sent again. -/
def Timer.budget (n : ℕ) (t : Timer D) : ℕ := if t.n = n then t.retries.toNat else 0

/-- What all timers of the message will have sent. -/
def Resends.budget (n : ℕ) (r : Resends D) : ℕ := (r.timers.map (Timer.budget n)).sum

theorem Resends.budget_le_of_sublist {n : ℕ} {r r' : Resends D}
    (h : r'.timers.Sublist r.timers) : r'.budget n ≤ r.budget n :=
  (h.map _).sum_le_sum fun _ _ => Nat.zero_le _

theorem Resends.sublist_acknowledge (r : Resends D) (msgId : Bytes) :
    (r.acknowledge msgId).timers.Sublist r.timers := by
  unfold Resends.acknowledge
  split
  · exact List.Sublist.refl _
  · exact List.filter_sublist

theorem Resends.budget_arm (r : Resends D) (n n' : ℕ) (msgId : Bytes) (identity : Option Bytes)
    (data : D) (retries : ℤ) :
    (r.arm n' msgId identity data retries).budget n
      = r.budget n + if n' = n then retries.toNat else 0 := by
  simp [Resends.budget, Resends.arm, Timer.budget]

/-- A timer that goes off leaves the budgets of the others. -/
theorem Resends.budget_of_expire {n handle : ℕ} {r r' : Resends D} {t : Timer D}
    (h : r.expire handle = some (t, r')) : t.budget n + r'.budget n ≤ r.budget n := by
  obtain ⟨hmem, hhandle, -, htimers⟩ := Resends.of_expire h
  obtain ⟨front, back, hsplit⟩ := List.append_of_mem hmem
  have hsub : r'.timers.Sublist (front ++ back) := by
    rw [htimers, hsplit, List.filter_append, List.filter_cons_of_neg (by simpa using hhandle)]
    exact List.filter_sublist.append List.filter_sublist
  have hle : (r'.timers.map (Timer.budget n)).sum ≤ ((front ++ back).map (Timer.budget n)).sum :=
    (hsub.map _).sum_le_sum fun _ _ => Nat.zero_le _
  simp only [Resends.budget, hsplit, List.map_append, List.map_cons, List.sum_append,
    List.sum_cons] at hle ⊢
  omega

namespace Blocking

/-- Numbers and handles are those that were given out. -/
def Known (s : Socket D) : Prop := Numbered s.messages s.log s.resends s.deferred

variable {s t : Socket D}

theorem Known.same (h : Known s) (hmessages : t.messages = s.messages) (hlog : t.log = s.log)
    (hresends : t.resends = s.resends) (hdeferred : t.deferred = s.deferred) : Known t := by
  rw [Known, hmessages, hlog, hresends, hdeferred]
  exact h

/-- What takes timers or ACKs away and queues no message. -/
theorem Known.less {later : List (Event D)} (h : Known s) (hmessages : t.messages = s.messages)
    (hlog : t.log = s.log ++ later) (hlater : ∀ n, dataReqs n later = 0)
    (htimers : t.resends.timers ⊆ s.resends.timers)
    (hhandles : t.resends.handles = s.resends.handles) (hdeferred : t.deferred ⊆ s.deferred) :
    Known t := by
  rw [Known, hmessages, hlog]
  exact Numbered.less h hlater htimers hhandles hdeferred

theorem Known.step {a : Action D} (h : Known s) (hstep : s.step a = some t) : Known t := by
  cases Socket.step_cases hstep with
  | send data identity retries msgId =>
    exact Numbered.send h.succ (Nat.lt_succ_self _) _ _ _ _ _
  | expire msgId hexpire =>
    obtain ⟨-, -, hhandles, htimers⟩ := Resends.of_expire hexpire
    refine h.less rfl (List.append_nil _).symm (fun n => rfl) ?_ hhandles (List.Subset.refl _)
    rw [htimers]
    exact List.filter_sublist.subset
  | resend msgId hexpire hretries =>
    rename_i handle timer resends
    obtain ⟨htimer, -, hhandles, htimers⟩ := Resends.of_expire hexpire
    have hs : Known { s with resends := resends.forget timer.msgId } := by
      refine h.less rfl (List.append_nil _).symm (fun n => rfl) ?_ hhandles (List.Subset.refl _)
      show resends.timers ⊆ _
      rw [htimers]
      exact List.filter_sublist.subset
    exact hs.send (h.timers timer htimer) _ _ _ _ _
  | dataReq msgId payload hidentity =>
    refine Numbered.defer (Numbered.less h (fun n => ?_) (List.Subset.refl _) rfl
      (List.Subset.refl _)) _ _ _
    exact dataReqs_received n _ _ _ _ _ _
  | ack msgId =>
    exact h.less rfl (List.append_nil _).symm (fun n => rfl) (Resends.timers_acknowledge _ _)
      (Resends.handles_acknowledge _ _) (List.Subset.refl _)
  | notifyAck hitem =>
    refine h.less rfl rfl ?_ (List.Subset.refl _) rfl (List.eraseIdx_sublist _ _).subset
    exact h.deferred _ (List.mem_of_getElem? hitem)
  | put hsender | putLast hsender =>
    exact h.less rfl rfl (fun n => rfl) (List.Subset.refl _) rfl (List.Subset.refl _)
  | close =>
    exact h.less rfl (List.append_nil _).symm (fun n => rfl) List.filter_sublist.subset rfl
      (List.Subset.refl _)
  | refuse | register | first | further | unregister | last | remaining | data | ignore | recv
  | finish | get | pass | wait | wake | giveUp | again | route | clear | putBack | shutdown =>
    exact h.same rfl rfl rfl rfl

theorem known_of_run {sendMode : SendMode} {delivery : DeliveryGuarantee}
    {actions : List (Action D)}
    (hrun : (machine D).run (.new sendMode delivery) actions = some s) : Known s :=
  Machine.invariant (I := Known) (fun _ _ _ hs => hs.step) hrun .empty

/-- What has been sent of the message and what its timers will have sent is six at most. -/
structure Paid (n : ℕ) (s : Socket D) : Prop where
  lt : n < s.messages
  spent : dataReqs n s.log + s.resends.budget n ≤ 1 + 5
  timers : ∀ t ∈ s.resends.timers, t.n = n → 0 ≤ t.retries

theorem Paid.less {n : ℕ} {later : List (Event D)} (h : Paid n s)
    (hmessages : t.messages = s.messages) (hlog : t.log = s.log ++ later)
    (hlater : dataReqs n later = 0) (htimers : t.resends.timers.Sublist s.resends.timers) :
    Paid n t where
  lt := hmessages ▸ h.lt
  spent := by
    have hspent := h.spent
    have hbudget := Resends.budget_le_of_sublist (n := n) htimers
    rw [hlog, dataReqs_append, hlater]
    omega
  timers t ht := h.timers t (htimers.subset ht)

theorem Paid.same {n : ℕ} (h : Paid n s) (hmessages : t.messages = s.messages)
    (hlog : t.log = s.log) (htimers : t.resends.timers.Sublist s.resends.timers) : Paid n t :=
  h.less hmessages (hlog.trans (List.append_nil _).symm) rfl htimers

/-- `send` for a message: another one, or this one with enough left to pay for it. -/
theorem Paid.sendAs {n n' : ℕ} {retries : Option ℤ} (hlt : n < s.messages)
    (htimers : ∀ t ∈ s.resends.timers, t.n = n → 0 ≤ t.retries)
    (hspent : dataReqs n s.log + s.resends.budget n +
      (if n' = n then 1 + (timerRetries retries).toNat else 0) ≤ 1 + 5)
    (hretries : n' = n → 0 ≤ timerRetries retries) (data : D) (identity : Option Bytes)
    (msgId : Bytes) : Paid n (s.sendAs n' data identity retries msgId) where
  lt := hlt
  spent := by
    show dataReqs n (s.log ++ [.queued ⟨identity, wireOf _ msgId data, .message n'⟩]) +
      (if _ then s.resends.arm n' msgId identity data _ else s.resends).budget n ≤ _
    rw [dataReqs_append, dataReqs_sent]
    by_cases hack : asksForAck s.sendMode s.delivery identity = true
    · rw [if_pos hack, Resends.budget_arm]
      by_cases hn : n' = n
      · simp only [hn, hack, and_self, if_true] at hspent ⊢
        omega
      · simp only [hn, and_false, if_false] at hspent ⊢
        omega
    · rw [if_neg hack, if_neg fun hand => hack hand.1]
      omega
  timers t ht hn := by
    simp only [Socket.sendAs, Socket.enqueue] at ht
    split_ifs at ht
    · rcases List.mem_append.mp ht with ht | ht
      · exact htimers t ht hn
      · rw [List.mem_singleton.mp ht] at hn ⊢
        exact hretries hn
    · exact htimers t ht hn

theorem Paid.step {n : ℕ} {a : Action D} (h : Paid n s) (hknown : Known s)
    (hstep : s.step a = some t) : Paid n t := by
  cases Socket.step_cases hstep with
  | send data identity retries msgId =>
    have hne : s.messages ≠ n := h.lt.ne'
    refine Paid.sendAs (s := { s with messages := s.messages + 1 })
      (h.lt.trans (Nat.lt_succ_self _)) h.timers ?_ (fun hn => absurd hn hne) _ _ _
    rw [if_neg hne]
    exact h.spent
  | expire msgId hexpire =>
    obtain ⟨-, -, -, htimers⟩ := Resends.of_expire hexpire
    refine h.same rfl rfl ?_
    rw [htimers]
    exact List.filter_sublist
  | resend msgId hexpire hretries =>
    rename_i handle timer resends
    obtain ⟨htimer, -, -, htimers⟩ := Resends.of_expire hexpire
    have hpay := Resends.budget_of_expire (n := n) hexpire
    refine Paid.sendAs (s := { s with resends := resends.forget timer.msgId }) h.lt ?_ ?_ ?_ _ _ _
    · show ∀ t ∈ resends.timers, _
      rw [htimers]
      exact fun t ht => h.timers t (List.mem_of_mem_filter ht)
    · -- The timer that goes off pays for the DATA_REQ and for the timer that comes with it.
      have hspent := h.spent
      have hforget : (resends.forget timer.msgId).budget n = resends.budget n := rfl
      rw [hforget]
      by_cases hn : timer.n = n
      · have hnonneg := h.timers timer htimer hn
        simp only [Timer.budget, hn, if_true] at hpay
        simp only [hn, if_true, timerRetries]
        omega
      · simp only [hn, if_false]
        omega
    · intro hn
      have hnonneg := h.timers timer htimer hn
      simp only [timerRetries]
      omega
  | dataReq msgId payload hidentity =>
    exact h.less rfl rfl (dataReqs_received n _ _ _ _ _ _) (List.Sublist.refl _)
  | ack msgId => exact h.same rfl rfl (Resends.sublist_acknowledge _ _)
  | notifyAck hitem =>
    refine h.less rfl rfl ?_ (List.Sublist.refl _)
    exact hknown.deferred _ (List.mem_of_getElem? hitem) n
  | put hsender | putLast hsender => exact h.less rfl rfl rfl (List.Sublist.refl _)
  | close => exact h.same rfl rfl List.filter_sublist
  | refuse | register | first | further | unregister | last | remaining | data | ignore | recv
  | finish | get | pass | wait | wake | giveUp | again | route | clear | putBack | shutdown =>
    exact h.same rfl rfl (List.Sublist.refl _)

/-- A message sent with at most six in all to send is sent at most six times. -/
theorem dataReqs_le_of_run (hknown : Known s) (data : D) (identity : Option Bytes)
    {retries : Option ℤ} (msgId : Bytes) (hnonneg : 0 ≤ timerRetries retries)
    (hle : timerRetries retries ≤ 5) {actions : List (Action D)}
    (hrun : (machine D).run (s.send data identity retries msgId) actions = some t) :
    dataReqs s.messages t.log ≤ 1 + 5 := by
  have hpaid : Paid s.messages (s.send data identity retries msgId) := by
    have hnone : s.resends.budget s.messages = 0 := by
      refine List.sum_eq_zero fun k hk => ?_
      obtain ⟨timer, htimer, rfl⟩ := List.mem_map.mp hk
      exact if_neg (hknown.timers timer htimer).ne
    refine Paid.sendAs (s := { s with messages := s.messages + 1 }) (Nat.lt_succ_self _)
      (fun t ht hn => absurd hn (hknown.timers t ht).ne) ?_ (fun _ => hnonneg) _ _ _
    show dataReqs s.messages s.log + s.resends.budget s.messages + _ ≤ _
    rw [hknown.log _ le_rfl, hnone, if_pos rfl]
    omega
  have hsent : Known (s.send data identity retries msgId) :=
    hknown.step (a := .send data identity retries msgId) rfl
  have hend : Paid s.messages t ∧ Known t :=
    Machine.invariant (I := fun u => Paid s.messages u ∧ Known u)
      (fun _ _ _ hu hstep => ⟨hu.1.step hu.2 hstep, hu.2.step hstep⟩) hrun ⟨hpaid, hsent⟩
  have hspent := hend.1.spent
  omega

end Blocking

/-! ### Both packages -/

/-- **Bounded retry.** On the event loop, a message that asks for an acknowledgement and gets none
is sent at most `1 + 5` times in every run if and only if it was sent with `retries=1`. On threads,
one whose first timer has a number from zero to five, as it has by default, is sent at most `1 + 5`
times. -/
theorem dataReqs_le_six_iff (sendMode : SendMode) (delivery : DeliveryGuarantee) (data : D)
    (identity : Option Bytes) (retries : Option ℤ) (msgId : Bytes) :
    (∀ (before : List (Asyncio.Action D)) (s : Asyncio.Socket D),
      (Asyncio.machine D).run (.new sendMode delivery) before = some s →
      asksForAck s.sendMode s.delivery identity = true →
      (Asyncio.Bounded s.messages (s.send data identity retries msgId) ↔ retries = some 1)) ∧
    ∀ (before after : List (Blocking.Action D)) (s t : Blocking.Socket D),
      (Blocking.machine D).run (.new sendMode delivery) before = some s →
      0 ≤ timerRetries retries → timerRetries retries ≤ 5 →
      (Blocking.machine D).run (s.send data identity retries msgId) after = some t →
      dataReqs s.messages t.log ≤ 1 + 5 := by
  constructor
  · intro before s hrun hack
    exact Asyncio.bounded_send_iff (Asyncio.known_of_run hrun) data identity retries msgId hack
  · intro before after s t hrun hnonneg hle hafter
    exact Blocking.dataReqs_le_of_run (Blocking.known_of_run hrun) data identity msgId hnonneg hle
      hafter

namespace Asyncio

/-- A new socket sends a message with the default number of retries. -/
def sentOnce : Socket ℕ := (Socket.new .roundRobin .atLeastOnce).send 7 none none (sixteen 1)

/-- Six times five seconds without an ACK. -/
def sixTimeouts : List (Action ℕ) :=
  [.resend 0, .runTask 0 (sixteen 2), .resend 1, .runTask 0 (sixteen 3), .resend 2,
    .runTask 0 (sixteen 4), .resend 3, .runTask 0 (sixteen 5), .resend 4, .runTask 0 (sixteen 6),
    .resend 5, .runTask 0 (sixteen 7)]

end Asyncio

/-- Six times five seconds without an ACK, on threads. -/
def Blocking.sixTimeouts : List (Blocking.Action ℕ) :=
  [.resend 0 (sixteen 2), .resend 1 (sixteen 3), .resend 2 (sixteen 4), .resend 3 (sixteen 5),
    .resend 4 (sixteen 6), .resend 5 (sixteen 7)]

/-- With `retries=1` the message is sent once; on threads the default is sent six times. -/
theorem retriesOne_bounded :
    Asyncio.Bounded 0 ((Asyncio.Socket.new .roundRobin .atLeastOnce).send 7 none (some 1)
      (sixteen 1)) ∧
    ∃ t : Blocking.Socket ℕ, (Blocking.machine ℕ).run
        ((Blocking.Socket.new .roundRobin .atLeastOnce).send 7 none none (sixteen 1))
        Blocking.sixTimeouts = some t ∧
      dataReqs 0 t.log = 6 ∧ dataReqs 0 t.log ≤ 1 + 5 := by
  constructor
  · exact ((dataReqs_le_six_iff .roundRobin .atLeastOnce 7 none (some 1) (sixteen 1)).1 [] _ rfl
      rfl).mpr rfl
  · refine ⟨_, rfl, by decide, ?_⟩
    exact (dataReqs_le_six_iff .roundRobin .atLeastOnce 7 none none (sixteen 1)).2 []
      Blocking.sixTimeouts _ _ rfl (by decide) (by decide) rfl

/-- The seventh DATA_REQ of one message that is never acknowledged. -/
theorem seven_dataReqs :
    (∃ t : Asyncio.Socket ℕ, (Asyncio.machine ℕ).run Asyncio.sentOnce Asyncio.sixTimeouts = some t ∧
      (Asyncio.machine ℕ).Along (Asyncio.NeverAcked 0) Asyncio.sentOnce Asyncio.sixTimeouts ∧
      dataReqs 0 t.log = 7) ∧
    ¬ Asyncio.Bounded 0 Asyncio.sentOnce := by
  refine ⟨⟨_, rfl, by decide, by decide⟩, fun hbounded => ?_⟩
  have hle := hbounded Asyncio.sixTimeouts _ rfl (by decide)
  exact absurd hle (by decide)

end Python

end Aiomsg
