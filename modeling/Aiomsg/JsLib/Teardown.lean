import Aiomsg.JsLib.Lifecycle

/-!
# The end of a JavaScript socket

`close` is the end: whatever the runtime still has to say, nothing is written and nothing received
behind it, no connection is made, no retry is due, and nothing waits for an ACK.

## Scope

This is about the connections that have reached `#runConnection`, which are those in `sockets`. An
accepted connection that is still being sniffed when the socket is closed is not among them: `close`
leaves it alone, and it is read, and may be answered, until the sniff is through. It comes no
further than that, as `#accept` destroys it then.

## Main results

* `Socket.Lifecycle.silent_run` — after `close` every action is silent
* `Socket.silent_after_close`
-/

namespace Aiomsg

namespace JsLib

namespace Socket

section Silence

variable {p : Platform} {env : Outside} {s s' : Socket}

/-- Nothing is written, nothing received, and no connection made. -/
structure Silent (s s' : Socket) : Prop where
  closed : s'.closed = true
  count : s'.count = s.count
  sent : ∀ c, (s'.conn c).sent = (s.conn c).sent
  inbound : ∀ c, (s'.conn c).inbound = (s.conn c).inbound
  out : s'.served.out = s.served.out
  inbox : s'.served.inbox = s.served.inbox
  pending : s.served.pending = [] → s'.served.pending = []

theorem Silent.refl (hclosed : s.closed = true) : Silent s s :=
  ⟨hclosed, rfl, fun _ => rfl, fun _ => rfl, rfl, rfl, fun h => h⟩

theorem Silent.trans {s'' : Socket} (h : Silent s s') (h' : Silent s' s'') : Silent s s'' where
  closed := h'.closed
  count := h'.count.trans h.count
  sent c := (h'.sent c).trans (h.sent c)
  inbound c := (h'.inbound c).trans (h.inbound c)
  out := h'.out.trans h.out
  inbox := h'.inbox.trans h.inbox
  pending hs := h'.pending (h.pending hs)

/-- A change to one connection that touches neither what was sent nor what has arrived. -/
theorem silent_modify (hclosed : s.closed = true) (c : ℕ) {f : Conn → Conn}
    (hsent : (f (s.conn c)).sent = (s.conn c).sent)
    (hinbound : (f (s.conn c)).inbound = (s.conn c).inbound) : Silent s (s.modify c f) := by
  refine ⟨hclosed, rfl, fun c' => ?_, fun c' => ?_, rfl, rfl, fun h => h⟩
  · by_cases hc : c' = c
    · rw [hc, modify_conn_self, hsent]
    · rw [modify_conn_of_ne s hc]
  · by_cases hc : c' = c
    · rw [hc, modify_conn_self, hinbound]
    · rw [modify_conn_of_ne s hc]

/-- An operation of the broker that is not about a connection's frames. -/
theorem silent_operate (p : Platform) (env : Outside) (hclosed : s.closed = true)
    {e : Served.Event ℕ Bytes} (op : ListBroker.Op ℕ Bytes)
    (he : s.served.step p.port env e = some (s.served.apply p.port env op)) :
    Silent s (s.operate p env e) := by
  have hguard : p.port.checksClosed = true := by cases p <;> rfl
  have hout := ListBroker.out_step_of_closed p.port env hclosed op
  have hpending := ListBroker.pending_step_of_closed env hguard (b := s.served.toListBroker) hclosed
  have hclosed' : (s.served.apply p.port env op).closed = true := by
    by_cases hop : ∃ forget, e = .close forget
    · obtain ⟨forget, rfl⟩ := hop
      have heq := Option.some.inj he
      rw [← heq]
      rfl
    · exact (Served.closed_step (fun forget h => hop ⟨forget, h⟩) he).trans hclosed
  unfold operate
  rw [he]
  have hdrop : (s.served.apply p.port env op).out.drop s.served.out.length = [] := by
    rw [show (s.served.apply p.port env op).out = s.served.out from hout, List.drop_length]
  simp only [hdrop]
  exact ⟨hclosed', rfl, fun _ => rfl, fun _ => rfl, hout, rfl, fun h => hpending h op⟩

/-- **After `close` every action is silent.** -/
theorem Lifecycle.silent_step (h : Lifecycle none s) (hclosed : s.closed = true) {a : Action}
    (hstep : s.step p env a = some s') : Silent s s' := by
  obtain ⟨htimers, hdead⟩ := h.finished hclosed
  have hquiet := Silent.refl hclosed
  cases a with
  | connect deferred refused =>
    have heq : ({ s with loops := s.loops + 1 } : Socket).connectLoop p env ⟨s.loops, deferred⟩
        refused = { s with loops := s.loops + 1 } := if_pos hclosed
    cases hstep
    rw [heq]
    exact ⟨hclosed, rfl, fun _ => rfl, fun _ => rfl, rfl, rfl, fun h => h⟩
  | send target data =>
    cases hstep
    exact silent_operate p env hclosed (.send target data) rfl
  | take =>
    cases hstep
    exact ⟨hclosed, rfl, fun _ => rfl, fun _ => rfl, rfl, rfl, fun h => h⟩
  | close =>
    cases hstep
    rw [Socket.close, if_pos hclosed]
    exact hquiet
  | reconnect i refused =>
    obtain ⟨loop, hloop, -⟩ := Option.map_eq_some_iff.mp hstep
    rw [htimers] at hloop
    cases hloop
  | accepted prebuffer =>
    cases prebuffer with
    | none =>
      cases hstep
      exact hquiet
    | some prebuffer =>
      rw [Socket.step] at hstep
      split at hstep
      · cases hstep
      · cases hstep
        exact hquiet
  | opened c =>
    rw [Socket.step, if_neg (by simp [hdead c])] at hstep
    cases hstep
  | data c chunk =>
    rw [Socket.step, if_neg (by simp [Conn.isOpen, hdead c])] at hstep
    cases hstep
  | gone c =>
    rw [Socket.step] at hstep
    split at hstep
    · cases hstep
      have hdrop : Silent s (s.drop c) := silent_modify hclosed c rfl rfl
      have hteardown : Silent s (s.teardown p env c) :=
        hdrop.trans (silent_operate p env hdrop.closed (.unregister c) rfl)
      have hretry (t : Socket) (loop : Loop) (ht : t.closed = true) : t.retry loop = t :=
        if_pos ht
      unfold Socket.gone
      split
      · exact hteardown
      · rw [hretry s _ hclosed]
        exact hteardown
      · rw [hretry _ _ hteardown.closed]
        exact hteardown
    · cases hstep
  | heartbeat c =>
    rw [Socket.step] at hstep
    split at hstep
    · cases hstep
      have hstill :
          ((s.modify c fun k => { k with heartbeatTimer := none }).conn c).live = false := by
        rw [modify_conn_self]
        exact hdead c
      unfold onHeartbeat
      simp only
      rw [if_neg (by rw [hstill]; simp)]
      exact silent_modify hclosed c rfl rfl
    · cases hstep
  | timeout c =>
    rw [Socket.step] at hstep
    split at hstep
    · cases hstep
      have hmodify : Silent s (s.modify c fun k => { k with timeoutTimer := none }) :=
        silent_modify hclosed c rfl rfl
      have hdestroy (t : Socket) (ht : t.closed = true) : Silent t (t.destroy c) :=
        silent_modify ht c rfl rfl
      exact hmodify.trans (hdestroy _ hmodify.closed)
    · cases hstep
  | resend key =>
    cases hstep
    exact silent_operate p env hclosed (.expire fun e => e.1 = key) rfl
  | tick ms =>
    cases hstep
    exact ⟨hclosed, rfl, fun _ => rfl, fun _ => rfl, rfl, rfl, fun h => h⟩

theorem Lifecycle.silent_run (h : Lifecycle none s) (hclosed : s.closed = true) {as : List Action}
    (hrun : (machine p env).run s as = some s') : Silent s s' := by
  induction as generalizing s with
  | nil =>
    cases hrun
    exact .refl hclosed
  | cons a rest ih =>
    obtain ⟨t, hstep, hrest⟩ := Machine.exists_step_of_run_cons hrun
    have hsilent := h.silent_step hclosed hstep
    exact hsilent.trans (ih (h.step hstep) hsilent.closed hrest)

/-! ### What waits for an ACK -/

/-- Only `close` closes. -/
theorem closed_of_step {a : Action} (ha : a ≠ .close) (hstep : s.step p env a = some s') :
    s'.closed = s.closed := by
  have hrun (t : Socket) (loop : Option Loop) (prebuffer : Bytes) :
      (t.runConnection p env loop prebuffer).closed = t.closed :=
    (keeps_runConnection p env t loop prebuffer).closed
  have hretry (t : Socket) (loop : Loop) : (t.retry loop).closed = t.closed := by
    unfold Socket.retry
    split <;> rfl
  have hloop (t : Socket) (loop : Loop) (refused : Bool) :
      (t.connectLoop p env loop refused).closed = t.closed := by
    unfold Socket.connectLoop
    split
    · rfl
    · split
      · exact hretry t loop
      · exact hrun t _ _
  cases a with
  | close => exact absurd rfl ha
  | connect deferred refused =>
    cases hstep
    exact hloop _ _ _
  | send target data =>
    cases hstep
    exact (keeps_operate p env s (by simp)).closed
  | take | tick =>
    cases hstep
    rfl
  | reconnect i refused =>
    obtain ⟨loop, -, rfl⟩ := Option.map_eq_some_iff.mp hstep
    exact hloop _ _ _
  | accepted prebuffer =>
    cases prebuffer with
    | none =>
      cases hstep
      rfl
    | some prebuffer =>
      rw [Socket.step] at hstep
      split at hstep
      · cases hstep
      · cases hstep
        split
        · rfl
        · exact hrun s none prebuffer
  | opened c =>
    rw [Socket.step] at hstep
    split at hstep
    · cases hstep
      exact (keeps_start p s c).closed
    · cases hstep
  | data c chunk =>
    rw [Socket.step] at hstep
    split at hstep
    · cases hstep
      exact (keeps_onData p env s c chunk).closed
    · cases hstep
  | gone c =>
    rw [Socket.step] at hstep
    split at hstep
    · cases hstep
      have hteardown (t : Socket) : (t.teardown p env c).closed = t.closed :=
        (keeps_teardown p env t c).closed
      unfold Socket.gone
      split
      · exact hteardown s
      · exact (hteardown _).trans (hretry s _)
      · exact (hretry _ _).trans (hteardown s)
    · cases hstep
  | heartbeat c =>
    rw [Socket.step] at hstep
    split at hstep
    · cases hstep
      exact (keeps_onHeartbeat p s c).closed
    · cases hstep
  | timeout c =>
    rw [Socket.step] at hstep
    split at hstep
    · cases hstep
      exact (keeps_onTimeout s c).closed
    · cases hstep
  | resend key =>
    cases hstep
    exact (keeps_operate p env s (by simp)).closed

/-- Writing leaves the broker alone. -/
theorem served_writeAll (p : Platform) (s : Socket) (frames : List (ℕ × Envelope Bytes)) :
    (s.writeAll p frames).served = s.served := by
  induction frames generalizing s with
  | nil => rfl
  | cons f rest ih =>
    refine (ih _).trans ?_
    unfold write
    split <;> rfl

theorem pending_close (p : Platform) (env : Outside) (hopen : s.closed = false) :
    (s.close p env).served.pending = [] := by
  have hserved : (s.close p env).served = s.served.apply p.port env (.close true) := by
    rw [Socket.close, hopen]
    exact served_writeAll p (s.shut p env) _
  rw [hserved]
  show s.served.pending.filter (fun _ => false) = []
  exact List.filter_false _

/-- Behind `close`, nothing waits for an ACK. -/
theorem pending_of_run (h : Lifecycle none s) (hpending : s.closed = true → s.served.pending = [])
    {as : List Action} (hrun : (machine p env).run s as = some s') :
    s'.closed = true → s'.served.pending = [] := by
  have hboth := Machine.invariant (m := machine p env)
    (I := fun s => Lifecycle none s ∧ (s.closed = true → s.served.pending = []))
    (fun t a u ht hstep => ⟨ht.1.step hstep, fun hu => ?_⟩) hrun ⟨h, hpending⟩
  · exact hboth.2
  · cases hclosed : t.closed with
    | true => exact (ht.1.silent_step hclosed hstep).pending (ht.2 hclosed)
    | false =>
      by_cases ha : a = .close
      · subst ha
        cases hstep
        exact pending_close p env hclosed
      · rw [closed_of_step ha hstep, hclosed] at hu
        cases hu

/-- **Behind `close` there is silence** on the connections that have reached `#runConnection`.
Nothing more is written to them or received, none of them stays live and none is added, no retry is
due, and nothing waits for an ACK. -/
theorem silent_after_close {id : Identity} {sendMode : SendMode} {delivery : DeliveryGuarantee}
    {as bs : List Action} (hrun : (machine p env).run (new id sendMode delivery) as = some s)
    (hclosed : s.closed = true) (hrun' : (machine p env).run s bs = some s') :
    (∀ c, (s'.conn c).live = false ∧ (s'.conn c).sent = (s.conn c).sent ∧
        (s'.conn c).inbound = (s.conn c).inbound) ∧
      s'.count = s.count ∧ s'.reconnectTimers = [] ∧ s'.served.out = s.served.out ∧
      s'.served.inbox = s.served.inbox ∧ s'.served.pending = [] := by
  have h := lifecycle_of_run (lifecycle_new id sendMode delivery) hrun
  have h' := lifecycle_of_run h hrun'
  have hsilent := h.silent_run hclosed hrun'
  have hover := h'.finished hsilent.closed
  have hpending := pending_of_run (lifecycle_new id sendMode delivery) (fun _ => rfl) hrun hclosed
  exact ⟨fun c => ⟨hover.2 c, hsilent.sent c, hsilent.inbound c⟩, hsilent.count, hover.1,
    hsilent.out, hsilent.inbox, hsilent.pending hpending⟩

end Silence

/-- A socket that closes while a message waits for its ACK, and is then asked to send another. -/
theorem silent_after_close_visit :
    ∃ s s', (machine .node Served.tellingIds).run
        (new (List.Vector.replicate 16 1) .roundRobin .atLeastOnce)
        [.connect false false, .data 0 (Protocol.hello (List.Vector.replicate 16 2)),
          .send none [5], .close] = some s ∧
      (machine .node Served.tellingIds).run s [.send none [6], .gone 0, .take] = some s' ∧
      s'.reconnectTimers = [] ∧ s'.served.pending = [] := by
  have hclose (s : Socket) (hs : (machine .node Served.tellingIds).run
      (new (List.Vector.replicate 16 1) .roundRobin .atLeastOnce)
      [.connect false false, .data 0 (Protocol.hello (List.Vector.replicate 16 2)), .send none [5],
        .close] = some s) (hclosed : s.closed = true) (s' : Socket)
      (hs' : (machine .node Served.tellingIds).run s [.send none [6], .gone 0, .take] = some s') :
      s'.reconnectTimers = [] ∧ s'.served.pending = [] := by
    have hsilent := silent_after_close hs hclosed hs'
    exact ⟨hsilent.2.2.1, hsilent.2.2.2.2.2⟩
  exact ⟨_, _, rfl, rfl, hclose _ rfl rfl _ rfl⟩

end Socket

end JsLib

end Aiomsg
