import Aiomsg.JsLib.Lifecycle

/-!
# What the callbacks of a JavaScript socket are made of

Every callback changes connections and timers, operates on the broker, and takes from the inbox or
closes it. A property that these keep, every action keeps: `Stable` is the list of them. Messages
are handed over by the application's own calls alone, so these are apart.

So the broker of a socket has been through the socket's events, one after the other, and its inbox
has been given what the broker had for the application.

## Scope

`Stable` lists what callbacks are made of and leaves out when they do what. A property that needs
the guards (that a connection is live, that a timer is due) is not proved this way, and has its own
step lemma.

## Main results

* `Socket.Stable.run` — what the parts of the callbacks keep, runs keep
* `Socket.traced_of_run`
* `Socket.sends_of_run` — what is handed over to the broker is what the application sends
-/

namespace Aiomsg

namespace JsLib

namespace Socket

/-- The property looks at the broker, its events and the inbox, and all that callbacks do to these
keeps it. -/
structure Stable (p : Platform) (env : Outside) (I : Socket → Prop) : Prop where
  aside : ∀ (s : Socket) (conn : ℕ → Conn) (count : ℕ) (reconnectTimers : List Loop)
    (loops now : ℕ), I s → I { s with conn, count, reconnectTimers, loops, now }
  operate : ∀ (s : Socket) (e : Served.Event ℕ Bytes), e.send? = none → I s →
    I (s.operate p env e)
  take : ∀ s : Socket, I s → I { s with inbox := s.inbox.take }
  close : ∀ s : Socket, I s → I { s with inbox := s.inbox.close }

section Stable

variable {p : Platform} {env : Outside} {I : Socket → Prop} {s s' : Socket}

theorem Stable.modify (hI : Stable p env I) (h : I s) (c : ℕ) (f : Conn → Conn) :
    I (s.modify c f) :=
  hI.aside s _ _ _ _ _ h

theorem Stable.write (hI : Stable p env I) (h : I s) (c : ℕ) (frame : Envelope Bytes) :
    I (s.write p c frame) := by
  unfold Socket.write
  split
  · exact h
  · exact hI.modify h c _

theorem Stable.resetTimeout (hI : Stable p env I) (h : I s) (c : ℕ) : I (s.resetTimeout c) := by
  unfold Socket.resetTimeout
  exact hI.modify h c _

theorem Stable.destroy (hI : Stable p env I) (h : I s) (c : ℕ) : I (s.destroy c) := by
  unfold Socket.destroy
  exact hI.modify h c _

theorem Stable.start (hI : Stable p env I) (h : I s) (c : ℕ) : I (s.start p c) := by
  unfold Socket.start
  exact hI.resetTimeout (hI.write (hI.modify h c _) c _) c

theorem Stable.completeHandshake (hI : Stable p env I) (h : I s) (c : ℕ) (e : Envelope Bytes) :
    I (s.completeHandshake p env c e).1 := by
  cases e with
  | hello version identity =>
    rw [Socket.completeHandshake]
    split
    · exact hI.destroy h c
    · split
      · exact hI.destroy h c
      · exact hI.operate _ _ rfl (hI.modify h c _)
  | heartbeat | data | dataReq | ack => exact hI.destroy h c

theorem Stable.onFrame (hI : Stable p env I) (h : I s) (c : ℕ) (envelope : Bytes) :
    I (s.onFrame p env c envelope).1 := by
  unfold Socket.onFrame
  split
  · exact h
  · split
    · exact hI.operate s _ rfl h
    · exact hI.completeHandshake h c _

theorem Stable.onFrames (hI : Stable p env I) (fuel : ℕ) (h : I s) (c : ℕ) :
    I (s.onFrames p env fuel c) := by
  induction fuel generalizing s with
  | zero => exact h
  | succ fuel ih =>
    rw [Socket.onFrames]
    split
    · exact h
    · rename_i envelope decoder _
      have hframe := hI.onFrame (hI.modify h c fun k => { k with decoder := decoder }) c envelope
      simp only
      split
      · exact ih hframe
      · exact hframe

theorem Stable.onData (hI : Stable p env I) (h : I s) (c : ℕ) (chunk : Bytes) :
    I (s.onData p env c chunk) :=
  hI.onFrames _ (hI.modify (hI.resetTimeout h c) c _) c

theorem Stable.runConnection (hI : Stable p env I) (h : I s) (loop : Option Loop)
    (prebuffer : Bytes) : I (s.runConnection p env loop prebuffer) := by
  have hextend : I (s.extend loop) := hI.modify (hI.aside s _ _ _ _ _ h) s.count _
  have hstart : I (if loop.any Loop.deferred then s.extend loop
      else (s.extend loop).start p s.count) := by
    split
    · exact hextend
    · exact hI.start hextend s.count
  unfold Socket.runConnection
  simp only
  split
  · exact hstart
  · exact hI.onData hstart _ _

theorem Stable.retry (hI : Stable p env I) (h : I s) (loop : Loop) : I (s.retry loop) := by
  unfold Socket.retry
  split
  · exact h
  · exact hI.aside s _ _ _ _ _ h

theorem Stable.connectLoop (hI : Stable p env I) (h : I s) (loop : Loop) (refused : Bool) :
    I (s.connectLoop p env loop refused) := by
  unfold Socket.connectLoop
  split
  · exact h
  · split
    · exact hI.retry h loop
    · exact hI.runConnection h _ _

theorem Stable.gone (hI : Stable p env I) (h : I s) (c : ℕ) : I (s.gone p env c) := by
  have hteardown {t : Socket} (ht : I t) : I (t.teardown p env c) :=
    hI.operate _ _ rfl (hI.modify ht c _)
  unfold Socket.gone
  split
  · exact hteardown h
  · exact hteardown (hI.retry h _)
  · exact hI.retry (hteardown h) _

theorem Stable.shutdown (hI : Stable p env I) (h : I s) : I (s.close p env) := by
  unfold Socket.close
  split
  · exact h
  · have hoperate := hI.close _ (hI.operate s (.close true) rfl h)
    exact hI.aside _ _ _ _ _ _ hoperate

/-- **Every action is made of the parts**, but for the application's call. -/
theorem Stable.step (hI : Stable p env I) (h : I s) {a : Action}
    (ha : ∀ target data, a ≠ .send target data) (hstep : s.step p env a = some s') : I s' := by
  cases a with
  | connect deferred refused =>
    cases hstep
    exact hI.connectLoop (hI.aside s _ _ _ _ _ h) _ refused
  | send target data => exact absurd rfl (ha target data)
  | take =>
    cases hstep
    exact hI.take s h
  | close =>
    cases hstep
    exact hI.shutdown h
  | reconnect i refused =>
    obtain ⟨loop, -, rfl⟩ := Option.map_eq_some_iff.mp hstep
    exact hI.connectLoop (hI.aside s _ _ _ _ _ h) loop refused
  | accepted prebuffer =>
    cases prebuffer with
    | none =>
      cases hstep
      exact h
    | some prebuffer =>
      rw [Socket.step] at hstep
      split at hstep
      · cases hstep
      · cases hstep
        split
        · exact h
        · exact hI.runConnection h none prebuffer
  | opened c =>
    rw [Socket.step] at hstep
    split at hstep
    · cases hstep
      exact hI.start h c
    · cases hstep
  | data c chunk =>
    rw [Socket.step] at hstep
    split at hstep
    · cases hstep
      exact hI.onData h c chunk
    · cases hstep
  | gone c =>
    rw [Socket.step] at hstep
    split at hstep
    · cases hstep
      exact hI.gone h c
    · cases hstep
  | heartbeat c =>
    rw [Socket.step] at hstep
    split at hstep
    · cases hstep
      have hmodify := hI.modify h c fun k => { k with heartbeatTimer := none }
      unfold onHeartbeat
      simp only
      split
      · exact hI.write hmodify c _
      · exact hmodify
    · cases hstep
  | timeout c =>
    rw [Socket.step] at hstep
    split at hstep
    · cases hstep
      exact hI.destroy (hI.modify h c _) c
    · cases hstep
  | resend key =>
    cases hstep
    exact hI.operate s _ rfl h
  | tick ms =>
    cases hstep
    exact hI.aside s _ _ _ _ _ h

theorem Stable.run (hI : Stable p env I)
    (hsend : ∀ s target data, I s → I (s.operate p env (.send target data))) {as : List Action}
    (hrun : (machine p env).run s as = some s') (h : I s) : I s' := by
  refine Machine.invariant (fun t a u ht hstep => ?_) hrun h
  by_cases ha : ∃ target data, a = .send target data
  · obtain ⟨target, data, rfl⟩ := ha
    cases hstep
    exact hsend t target data ht
  · exact hI.step ht (fun target data heq => ha ⟨target, data, heq⟩) hstep

end Stable

/-! ### The broker and the inbox -/

section Operate

variable {p : Platform} {env : Outside} {s : Socket}

/-- Writing is about connections only. -/
theorem exists_conn_write (p : Platform) (s : Socket) (c : ℕ) (frame : Envelope Bytes) :
    ∃ conn, s.write p c frame = { s with conn := conn } := by
  unfold write
  split
  · exact ⟨s.conn, rfl⟩
  · exact ⟨_, rfl⟩

theorem exists_conn_writeAll (p : Platform) (s : Socket) (frames : List (ℕ × Envelope Bytes)) :
    ∃ conn, s.writeAll p frames = { s with conn := conn } := by
  induction frames generalizing s with
  | nil => exact ⟨s.conn, rfl⟩
  | cons f rest ih =>
    obtain ⟨conn, hconn⟩ := exists_conn_write p s f.1 f.2
    obtain ⟨conn', hconn'⟩ := ih (s.write p f.1 f.2)
    refine ⟨conn', hconn'.trans ?_⟩
    rw [hconn]

/-- An operation has no effect, or is a step of the broker whose messages go to the inbox. -/
theorem operate_cases (p : Platform) (env : Outside) (s : Socket) (e : Served.Event ℕ Bytes) :
    (s.served.step p.port env e = none ∧ s.operate p env e = s) ∨
    ∃ w conn, s.served.step p.port env e = some w ∧
      s.operate p env e =
        { s with
          served := w
          inbox := (w.inbox.drop s.served.inbox.length).foldl Inbox.push s.inbox
          events := s.events ++ [e]
          conn := conn } := by
  unfold operate
  split
  · rename_i hstep
    exact .inl ⟨hstep, rfl⟩
  · rename_i w hstep
    obtain ⟨conn, hconn⟩ := exists_conn_writeAll p
      { s with
        served := w
        inbox := (w.inbox.drop s.served.inbox.length).foldl Inbox.push s.inbox
        events := s.events ++ [e] } (w.out.drop s.served.out.length)
    exact .inr ⟨w, conn, hstep, hconn⟩

/-- The broker has been through the events, and the inbox was given what it had. -/
structure Traced (p : Platform) (env : Outside) (sendMode : SendMode)
    (delivery : DeliveryGuarantee) (s : Socket) : Prop where
  run : (Served.machine p.port env).run (.new sendMode delivery 0) s.events = some s.served
  inbox : s.inbox.Fair s.served.inbox

theorem traced_new (p : Platform) (env : Outside) (id : Identity) (sendMode : SendMode)
    (delivery : DeliveryGuarantee) : Traced p env sendMode delivery (new id sendMode delivery) :=
  ⟨rfl, Inbox.fair_new⟩

theorem Traced.operate {sendMode : SendMode} {delivery : DeliveryGuarantee}
    (h : Traced p env sendMode delivery s) (e : Served.Event ℕ Bytes) :
    Traced p env sendMode delivery (s.operate p env e) := by
  rcases operate_cases p env s e with ⟨-, heq⟩ | ⟨w, conn, hstep, heq⟩
  · rwa [heq]
  · rw [heq]
    constructor
    · show (Served.machine p.port env).run (.new sendMode delivery 0) (s.events ++ [e]) = some w
      rw [Machine.run_append, h.run]
      exact Machine.run_cons_of_step (m := Served.machine p.port env) hstep rfl
    · have hprefix : s.served.inbox <+: w.inbox := Served.inbox_prefix hstep
      have hpushed := h.inbox.pushAll (w.inbox.drop s.served.inbox.length)
      rwa [List.prefix_iff_eq_append.mp hprefix] at hpushed

theorem stable_traced (p : Platform) (env : Outside) (sendMode : SendMode)
    (delivery : DeliveryGuarantee) : Stable p env (Traced p env sendMode delivery) where
  aside _ _ _ _ _ _ h := ⟨h.run, h.inbox⟩
  take _ h := ⟨h.run, h.inbox.take⟩
  close _ h := ⟨h.run, h.inbox.close⟩
  operate _ e _ h := h.operate e

theorem traced_of_run {id : Identity} {sendMode : SendMode} {delivery : DeliveryGuarantee}
    {as : List Action} (hrun : (machine p env).run (new id sendMode delivery) as = some s) :
    Traced p env sendMode delivery s :=
  (stable_traced p env sendMode delivery).run (fun _ _ _ h => h.operate _) hrun
    (traced_new p env id sendMode delivery)

/-- The socket keeps its identity. -/
theorem id_of_run {id : Identity} {sendMode : SendMode} {delivery : DeliveryGuarantee}
    {as : List Action} (hrun : (machine p env).run (new id sendMode delivery) as = some s) :
    s.id = id := by
  have hoperate (t : Socket) (e : Served.Event ℕ Bytes) (ht : t.id = id) :
      (t.operate p env e).id = id := by
    rcases operate_cases p env t e with ⟨-, heq⟩ | ⟨w, conn, -, heq⟩
    · rwa [heq]
    · rwa [heq]
  have hstable : Stable p env fun t => t.id = id :=
    ⟨fun _ _ _ _ _ _ h => h, fun t e _ h => hoperate t e h, fun _ h => h, fun _ h => h⟩
  exact hstable.run (fun t target data h => hoperate t (.send target data) h) hrun rfl

/-- The message that the application hands over. -/
def Action.send? : Action → Option (Option Identity × Bytes)
  | .send target payload => some (target, payload)
  | _ => none

theorem Action.send?_eq_none {a : Action} (h : ∀ target payload, a ≠ .send target payload) :
    a.send? = none := by
  unfold Action.send?
  split
  · exact absurd rfl (h _ _)
  · rfl

/-- **What is handed over to the broker is what the application sends.** -/
theorem sends_of_run {as : List Action} {s' : Socket} (hrun : (machine p env).run s as = some s') :
    s'.events.filterMap Served.Event.send? =
      s.events.filterMap Served.Event.send? ++ as.filterMap Action.send? := by
  induction as generalizing s with
  | nil =>
    cases hrun
    exact (List.append_nil _).symm
  | cons a rest ih =>
    obtain ⟨t, hstep, hrest⟩ := Machine.exists_step_of_run_cons hrun
    rw [ih hrest]
    have hother (ha : ∀ target data, a ≠ .send target data) :
        t.events.filterMap Served.Event.send? = s.events.filterMap Served.Event.send? := by
      refine Stable.step (p := p) (I := fun u => u.events.filterMap Served.Event.send? =
        s.events.filterMap Served.Event.send?) ⟨?_, ?_, ?_, ?_⟩ rfl ha hstep
      · exact fun _ _ _ _ _ _ h => h
      · intro u e he hu
        rcases operate_cases p env u e with ⟨-, heq⟩ | ⟨w, conn, -, heq⟩
        · rwa [heq]
        · rw [heq]
          show (u.events ++ [e]).filterMap Served.Event.send? = _
          rw [List.filterMap_append, List.filterMap_cons_none he, List.filterMap_nil,
            List.append_nil, hu]
      · exact fun _ h => h
      · exact fun _ h => h
    by_cases ha : ∃ target payload, a = .send target payload
    · obtain ⟨target, payload, rfl⟩ := ha
      cases hstep
      rcases operate_cases p env s (.send target payload) with ⟨hnone, -⟩ | ⟨w, conn, -, heq⟩
      · cases hnone
      · have hevents : (s.operate p env (.send target payload)).events =
            s.events ++ [.send target payload] := congrArg Socket.events heq
        rw [hevents, List.filterMap_append, List.append_assoc]
        rfl
    · have hnot (target : Option Identity) (payload : Bytes) : a ≠ .send target payload :=
        fun heq => ha ⟨target, payload, heq⟩
      rw [hother hnot, List.filterMap_cons_none (Action.send?_eq_none hnot)]

end Operate

end Socket

end JsLib

end Aiomsg
