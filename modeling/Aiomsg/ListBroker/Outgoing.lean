import Aiomsg.ListBroker.Ports
import Aiomsg.Session.SameConnection

/-!
# What a broker puts on its connections

Besides the ACKs, every frame that goes out belongs to a transmission. A transmission puts its frame
on a connection once at most, as the list has every connection once; a frame for one peer goes out
once altogether. So what is seen on a connection is a subsequence of the transmissions.

## Scope

A frame has been put out when the broker has handed it to its connection. The connection may be at
its end without the broker knowing, and then the frame is lost behind `out`.

## Main results

* `ListBroker.closed_sends` — what sending adds to the frames and to the transmissions
* `Served.healthy_of_run` — each connection sees a part of the transmissions, and its ACKs
-/

namespace Aiomsg

variable {κ C D : Type}

/-- The messages among some frames. -/
def messagesOf (frames : List (C × Envelope D)) : List (Option MsgId × D) :=
  frames.filterMap fun f => f.2.message?

/-- The frames for one connection. -/
def framesFor [DecidableEq C] (conn : C) (frames : List (C × Envelope D)) :
    List (C × Envelope D) :=
  frames.filter fun f => f.1 = conn

/-- The ACKs among some frames, with their connections. -/
def acksOf (frames : List (C × Envelope D)) : List (C × MsgId) :=
  frames.filterMap fun f => f.2.ack?.map fun msgId => (f.1, msgId)

@[simp] theorem messagesOf_append (fs gs : List (C × Envelope D)) :
    messagesOf (fs ++ gs) = messagesOf fs ++ messagesOf gs :=
  List.filterMap_append

@[simp] theorem framesFor_append [DecidableEq C] (conn : C) (fs gs : List (C × Envelope D)) :
    framesFor conn (fs ++ gs) = framesFor conn fs ++ framesFor conn gs :=
  List.filter_append ..

@[simp] theorem acksOf_append (fs gs : List (C × Envelope D)) :
    acksOf (fs ++ gs) = acksOf fs ++ acksOf gs :=
  List.filterMap_append

/-- Frames that are all the same message, one for each connection. -/
theorem messagesOf_map (cs : List C) {frame : Envelope D} {m : Option MsgId × D}
    (h : frame.message? = some m) :
    messagesOf (cs.map fun c => (c, frame)) = cs.map fun _ => m := by
  rw [messagesOf, List.filterMap_map, ← List.filterMap_eq_map]
  exact List.filterMap_congr fun c _ => h

theorem acksOf_map (cs : List C) {frame : Envelope D} (h : frame.ack? = none) :
    acksOf (cs.map fun c => (c, frame)) = [] := by
  rw [acksOf, List.filterMap_map]
  refine List.filterMap_eq_nil_iff.mpr fun c _ => ?_
  show frame.ack?.map _ = none
  rw [h]
  rfl

theorem framesFor_map [DecidableEq C] (conn : C) (cs : List C) (frame : Envelope D) :
    framesFor conn (cs.map fun c => (c, frame)) =
      (cs.filter fun c => c = conn).map fun c => (c, frame) := by
  rw [framesFor, List.filter_map]
  rfl

/-- Of at most one connection, at most one message. -/
theorem messages_sublist_of_length_le_one {cs : List C} {frame : Envelope D}
    {m : Option MsgId × D} (h : frame.message? = some m) (hcs : cs.length ≤ 1) :
    (messagesOf (cs.map fun c => (c, frame))).Sublist [m] := by
  rw [messagesOf_map cs h]
  cases cs with
  | nil => exact List.nil_sublist _
  | cons c rest =>
    obtain rfl : rest = [] := List.eq_nil_of_length_eq_zero (by simpa using hcs)
    exact List.Sublist.refl _

namespace ListBroker

/-- The transmissions with their ids and payloads. -/
def stamps (transmitted : List (Option MsgId × Pending D)) : List (Option MsgId × D) :=
  transmitted.map fun t => (t.1, t.2.data)

/-- What an operation that sends adds. -/
structure Sends [DecidableEq C] (b b' : ListBroker κ C D) (frames : List (C × Envelope D))
    (sent : List (Option MsgId × Pending D)) : Prop where
  table : SameTable b b'
  out : b'.out = b.out ++ frames
  transmitted : b'.transmitted = b.transmitted ++ sent
  single : (b.conns.map Prod.snd).Nodup → ∀ conn,
    (messagesOf (framesFor conn frames)).Sublist (stamps sent)
  whole : b.sendMode = .roundRobin → (messagesOf frames).Sublist (stamps sent)
  acks : acksOf frames = []
  closed : b.closed = true → frames = []
  targets : ∀ f ∈ frames, f.1 ∈ b.conns.map Prod.snd ∧ f.2.message?.isSome = true

section Sending

variable [DecidableEq C]

theorem Sends.refl {b b' : ListBroker κ C D} (htable : SameTable b b') (hout : b'.out = b.out)
    (htransmitted : b'.transmitted = b.transmitted) : Sends b b' [] [] where
  table := htable
  out := by rw [hout, List.append_nil]
  transmitted := by rw [htransmitted, List.append_nil]
  single _ _ := List.Sublist.refl _
  whole _ := List.Sublist.refl _
  acks := rfl
  closed _ := rfl
  targets _ h := absurd h List.not_mem_nil

theorem Sends.trans {b b' b'' : ListBroker κ C D} {fs gs : List (C × Envelope D)}
    {ss ts : List (Option MsgId × Pending D)} (h : Sends b b' fs ss) (h' : Sends b' b'' gs ts) :
    Sends b b'' (fs ++ gs) (ss ++ ts) where
  table := h.table.trans h'.table
  out := by rw [h'.out, h.out, List.append_assoc]
  transmitted := by rw [h'.transmitted, h.transmitted, List.append_assoc]
  single hnodup conn := by
    rw [framesFor_append, messagesOf_append, stamps, List.map_append]
    exact (h.single hnodup conn).append (h'.single (h.table.conns ▸ hnodup) conn)
  whole hmode := by
    rw [messagesOf_append, stamps, List.map_append]
    exact (h.whole hmode).append (h'.whole (h.table.sendMode ▸ hmode))
  acks := by rw [acksOf_append, h.acks, h'.acks, List.nil_append]
  closed hclosed := by
    rw [h.closed hclosed, h'.closed (h.table.closed.trans hclosed), List.nil_append]
  targets f hf := (List.mem_append.mp hf).elim (h.targets f)
    (h.table.conns ▸ h'.targets f)

/-- A frame that is a message, routed and noted as its transmission. -/
theorem sends_route (P : Variant κ D) {b : ListBroker κ C D} (b' : ListBroker κ C D)
    (target : Option Identity) (frame : Envelope D) {msgId : Option MsgId} {message : Pending D}
    (htable : SameTable b b') (hout : b'.out = b.out)
    (htransmitted : b'.transmitted = b.transmitted ++ [(msgId, message)])
    (hmessage : frame.message? = some (msgId, message.data)) (hack : frame.ack? = none) :
    ∃ frames, Sends b (b'.route P target frame) frames [(msgId, message)] := by
  obtain ⟨cursor, cs, hroute, hsub, hclosed, hone⟩ := b'.exists_route_eq P target frame
  refine ⟨cs.map fun c => (c, frame), ?_, ?_, ?_, ?_, ?_, acksOf_map cs hack, ?_, ?_⟩
  · rw [hroute]
    exact ⟨htable.sendMode, htable.delivery, htable.closed, htable.conns⟩
  · rw [hroute, ← hout]
    rfl
  · rw [hroute]
    exact htransmitted
  · intro hnodup conn
    rw [framesFor_map]
    have hcs : cs.Nodup := (htable.conns ▸ hnodup : (b'.conns.map Prod.snd).Nodup).sublist hsub
    refine messages_sublist_of_length_le_one hmessage ?_
    have hcount := List.nodup_iff_count_le_one.mp hcs conn
    rwa [List.count_eq_countP, List.countP_eq_length_filter] at hcount
  · intro hmode
    exact messages_sublist_of_length_le_one hmessage (hone (.inr (htable.sendMode.trans hmode)))
  · intro h
    rw [hclosed (htable.closed.trans h)]
    rfl
  · rintro f hf
    obtain ⟨c, hc, rfl⟩ := List.mem_map.mp hf
    refine ⟨htable.conns ▸ hsub.subset hc, ?_⟩
    rw [hmessage]
    rfl

/-- **What sending adds.** -/
theorem closed_sends (P : Variant κ D) (env : Outside) :
    Closed P env fun b b' : ListBroker κ C D => ∃ frames sent, Sends b b' frames sent where
  refl b := ⟨[], [], .refl (.refl b) rfl rfl⟩
  trans := by
    rintro b b' b'' ⟨fs, ss, h⟩ ⟨gs, ts, h'⟩
    exact ⟨_, _, h.trans h'⟩
  transmit b target data retries := by
    unfold transmit
    split
    · obtain ⟨frames, h⟩ := sends_route P (b := b) (b.enter P env ⟨target, data, retries⟩) target
        (.dataReq (env.msgId b.drawn) data) ⟨rfl, rfl, rfl, rfl⟩ rfl rfl rfl rfl
      exact ⟨frames, _, h⟩
    · obtain ⟨frames, h⟩ := sends_route P (b := b) (b.mark none ⟨target, data, retries⟩) target
        (.data data) ⟨rfl, rfl, rfl, rfl⟩ rfl rfl rfl rfl
      exact ⟨frames, _, h⟩
  buffer b _ _ := ⟨[], [], .refl ⟨rfl, rfl, rfl, rfl⟩ rfl rfl⟩
  rebuffer b _ _ := ⟨[], [], .refl ⟨rfl, rfl, rfl, rfl⟩ rfl rfl⟩
  finish b _ _ := ⟨[], [], .refl ⟨rfl, rfl, rfl, rfl⟩ rfl rfl⟩

end Sending

/-! ### Whole runs -/

/-- What is known of the frames and the transmissions of a broker with a list in order. The ACKs
that were asked for are `due`. -/
structure Outgoing [DecidableEq C] (due : List (C × MsgId)) (b : ListBroker κ C D) : Prop where
  single : ∀ conn, (messagesOf (framesFor conn b.out)).Sublist (stamps b.transmitted)
  whole : b.sendMode = .roundRobin → (messagesOf b.out).Sublist (stamps b.transmitted)
  acks_sublist : (acksOf b.out).Sublist due
  acks_eq : b.closed = false → acksOf b.out = due

section Runs

variable [DecidableEq C] {P : Variant κ D} {env : Outside} {due : List (C × MsgId)}
  {b b' : ListBroker κ C D}

/-- Nothing but frames and transmissions matters, and whether the socket is closed. -/
theorem Outgoing.congr (h : Outgoing due b) (hmode : b'.sendMode = b.sendMode)
    (hout : b'.out = b.out) (htransmitted : b'.transmitted = b.transmitted)
    (hclosed : b'.closed = false → b.closed = false) : Outgoing due b' := by
  refine ⟨?_, ?_, ?_, ?_⟩
  · rw [hout, htransmitted]
    exact h.single
  · rw [hout, htransmitted, hmode]
    exact h.whole
  · rw [hout]
    exact h.acks_sublist
  · rw [hout]
    exact fun hb => h.acks_eq (hclosed hb)

theorem Outgoing.sends (h : Outgoing due b) (hnodup : (b.conns.map Prod.snd).Nodup)
    (hsends : ∃ frames sent, Sends b b' frames sent) : Outgoing due b' := by
  obtain ⟨frames, sent, hs⟩ := hsends
  have hacks : acksOf b'.out = acksOf b.out := by
    rw [hs.out, acksOf_append, hs.acks, List.append_nil]
  refine ⟨fun conn => ?_, fun hmode => ?_, hacks ▸ h.acks_sublist, fun hb => ?_⟩
  · rw [hs.out, hs.transmitted, framesFor_append, messagesOf_append, stamps, List.map_append]
    exact (h.single conn).append (hs.single hnodup conn)
  · have hmode' : b.sendMode = .roundRobin := hs.table.sendMode.symm.trans hmode
    rw [hs.out, hs.transmitted, messagesOf_append, stamps, List.map_append]
    exact (h.whole hmode').append (hs.whole hmode')
  · rw [hacks]
    exact h.acks_eq (hs.table.closed.symm.trans hb)

/-- An ACK goes out on the connection that is listed under the identity. -/
theorem Outgoing.answer (P : Variant κ D) (h : Outgoing due b) {sender : Identity} {conn : C}
    (msgId : MsgId) (hfind : b.findConn sender = some conn) :
    Outgoing (due ++ [(conn, msgId)]) (b.route P (some sender) (.ack msgId)) := by
  cases hclosed : b.closed with
  | true =>
    have hsame : b.route P (some sender) (.ack msgId) = b := by rw [route, if_pos hclosed]
    rw [hsame]
    refine ⟨h.single, h.whole, h.acks_sublist.trans (List.sublist_append_left _ _), ?_⟩
    rw [hclosed]
    simp
  | false =>
    have hone : b.route P (some sender) (.ack msgId) = b.write [conn] (.ack msgId) := by
      rw [route, hclosed, hfind]
      rfl
    have hmessages : messagesOf [(conn, (.ack msgId : Envelope D))] = [] := rfl
    have hacks : acksOf (b.out ++ [(conn, .ack msgId)]) = due ++ [(conn, msgId)] := by
      rw [acksOf_append, h.acks_eq hclosed]
      rfl
    rw [hone]
    refine ⟨fun conn' => ?_, fun hmode => ?_, ?_, fun _ => hacks⟩
    · have hnone : messagesOf (framesFor conn' [(conn, (.ack msgId : Envelope D))]) = [] :=
        List.sublist_nil.mp (hmessages ▸ List.filter_sublist.filterMap _)
      show (messagesOf (framesFor conn' (b.out ++ [(conn, .ack msgId)]))).Sublist _
      rw [framesFor_append, messagesOf_append, hnone, List.append_nil]
      exact h.single conn'
    · show (messagesOf (b.out ++ [(conn, .ack msgId)])).Sublist _
      rw [messagesOf_append, hmessages, List.append_nil]
      exact h.whole hmode
    · exact hacks ▸ List.Sublist.refl _

/-- Every operation but an ACK's, the list being in order before and after it. -/
theorem Outgoing.step (h : Outgoing due b) (op : Op C D)
    (hop : ∀ sender msgId, op ≠ .answer sender msgId)
    (hnodup : (b.conns.map Prod.snd).Nodup)
    (hnodup' : ((b.step P env op).conns.map Prod.snd).Nodup) :
    Outgoing due (b.step P env op) := by
  have hsends := closed_sends (κ := κ) (C := C) P env
  have hsame := closed_sameTable (κ := κ) (C := C) P env
  cases op with
  | send target data =>
    have hhand : Outgoing due { b with handed := b.handed ++ [(target, data)] } :=
      h.congr rfl rfl rfl id
    exact hhand.sends hnodup (hsends.send _ target data)
  | register identity conn =>
    rcases step_register_cases P env b identity conn with ⟨heq, -⟩ | ⟨heq, -⟩
    · rw [heq]
      exact h
    · rw [heq] at hnodup' ⊢
      have hconns := (hsame.sendAll (b.connect identity conn) b.buffer).conns
      rw [hconns] at hnodup'
      have hconnect : Outgoing due (b.connect identity conn) := h.congr rfl rfl rfl id
      exact hconnect.sends hnodup' (hsends.sendAll _ _)
  | answer sender msgId => exact absurd rfl (hop sender msgId)
  | unregister conn => exact h.congr rfl rfl rfl id
  | acknowledge msgId => exact h.congr rfl rfl rfl id
  | expire due' =>
    have htake : Outgoing due { b with pending := b.pending.filter fun e => ! due' e } :=
      h.congr rfl rfl rfl id
    exact htake.sends hnodup (hsends.resendAll _ _)
  | close forget =>
    exact h.congr rfl rfl rfl fun hclosed => Bool.noConfusion hclosed

end Runs

end ListBroker

namespace ListBroker

/-- Nothing is put on a connection of a closed broker. -/
theorem out_step_of_closed [DecidableEq C] (P : Variant κ D) (env : Outside) {b : ListBroker κ C D}
    (h : b.closed = true) (op : Op C D) : (b.step P env op).out = b.out := by
  have hsends := closed_sends (κ := κ) (C := C) P env
  have hnone (b' b'' : ListBroker κ C D) (hs : ∃ frames sent, Sends b' b'' frames sent)
      (hb' : b'.closed = true) : b''.out = b'.out := by
    obtain ⟨frames, sent, hs⟩ := hs
    rw [hs.out, hs.closed hb', List.append_nil]
  cases op with
  | send target data =>
    exact hnone { b with handed := b.handed ++ [(target, data)] } _ (hsends.send _ _ _) h
  | register identity conn =>
    rcases step_register_cases P env b identity conn with ⟨heq, -⟩ | ⟨heq, -⟩
    · rw [heq]
    · rw [heq]
      exact hnone (b.connect identity conn) _ (hsends.sendAll _ _) h
  | unregister | acknowledge | close => rfl
  | answer sender msgId =>
    show (b.route P (some sender) (.ack msgId)).out = b.out
    rw [route, if_pos h]
  | expire due =>
    exact hnone { b with pending := b.pending.filter fun e => ! due e } _ (hsends.resendAll _ _) h

/-- Frames go out on connections that are listed then, and they are messages or ACKs. -/
def PutsOut (b b' : ListBroker κ C D) : Prop :=
  ∃ frames, b'.out = b.out ++ frames ∧ ∀ f ∈ frames, f.1 ∈ b'.conns.map Prod.snd ∧
    (f.2.message?.isSome = true ∨ f.2.ack?.isSome = true)

theorem PutsOut.quiet {b b' : ListBroker κ C D} (h : b'.out = b.out) : PutsOut b b' :=
  ⟨[], h.trans (List.append_nil _).symm, fun _ hf => absurd hf List.not_mem_nil⟩

theorem PutsOut.of_sends [DecidableEq C] {b b' : ListBroker κ C D}
    (h : ∃ frames sent, Sends b b' frames sent) : PutsOut b b' := by
  obtain ⟨frames, sent, h⟩ := h
  refine ⟨frames, h.out, fun f hf => ⟨?_, .inl (h.targets f hf).2⟩⟩
  rw [h.table.conns]
  exact (h.targets f hf).1

theorem putsOut_op [DecidableEq C] (P : Variant κ D) (env : Outside) (b : ListBroker κ C D)
    (op : Op C D) : PutsOut b (b.step P env op) := by
  have hsends := closed_sends (κ := κ) (C := C) P env
  cases op with
  | send target data =>
    have hputs : PutsOut { b with handed := b.handed ++ [(target, data)] }
        (b.step P env (.send target data)) := .of_sends (hsends.send _ target data)
    exact hputs
  | register identity conn =>
    rcases step_register_cases P env b identity conn with ⟨heq, -⟩ | ⟨heq, -⟩
    · rw [heq]
      exact .quiet rfl
    · rw [heq]
      have hputs : PutsOut (b.connect identity conn)
          ((b.connect identity conn).sendAll P env b.buffer) := .of_sends (hsends.sendAll _ _)
      exact hputs
  | unregister | acknowledge | close => exact .quiet rfl
  | answer sender msgId =>
    obtain ⟨cursor, cs, hroute, hsub, -⟩ := b.exists_route_eq P (some sender) (.ack msgId)
    refine ⟨cs.map fun c => (c, .ack msgId), congrArg ListBroker.out hroute, fun f hf => ?_⟩
    obtain ⟨c, hc, rfl⟩ := List.mem_map.mp hf
    refine ⟨?_, .inr rfl⟩
    rw [show (b.step P env (.answer sender msgId)).conns = b.conns from
      (routes_route P b (some sender) (.ack msgId)).conns]
    exact hsub.subset hc
  | expire due =>
    have hputs : PutsOut { b with pending := b.pending.filter fun e => ! due e }
        (b.step P env (.expire due)) := .of_sends (hsends.resendAll _ _)
    exact hputs

/-- Sending to a closed broker that looks at its flag leaves nothing waiting. -/
theorem sendAll_pending_of_closed {P : Variant κ D} (env : Outside) (hP : P.checksClosed = true)
    {b : ListBroker κ C D} (h : b.closed = true) (messages : List (Option Identity × D)) :
    (b.sendAll P env messages).pending = b.pending := by
  induction messages generalizing b with
  | nil => rfl
  | cons m rest ih =>
    have hsend : b.send P env m.1 m.2 = b.finish .dropped m := by
      rw [send, hP, h]
      rfl
    show ((b.send P env m.1 m.2).sendAll P env rest).pending = _
    rw [hsend, ih (b := b.finish .dropped m) h]
    rfl

/-- **In a closed broker that looks at its flag, nothing comes to wait for an ACK.** -/
theorem pending_step_of_closed [DecidableEq C] {P : Variant κ D} (env : Outside)
    (hP : P.checksClosed = true) {b : ListBroker κ C D} (h : b.closed = true)
    (hpending : b.pending = []) (op : Op C D) : (b.step P env op).pending = [] := by
  cases op with
  | send target data =>
    exact (sendAll_pending_of_closed env hP (b := { b with handed := b.handed ++ [(target, data)] })
      h [(target, data)]).trans hpending
  | register identity conn =>
    rcases step_register_cases P env b identity conn with ⟨heq, -⟩ | ⟨heq, -⟩
    · rw [heq, hpending]
    · rw [heq]
      exact (sendAll_pending_of_closed env hP (b := b.connect identity conn) h b.buffer).trans
        hpending
  | unregister conn => exact hpending
  | answer sender msgId =>
    exact (routes_route P b (some sender) (.ack msgId)).pending.trans hpending
  | acknowledge msgId =>
    show b.pending.filter _ = []
    rw [hpending]
    rfl
  | expire due =>
    show (expire P env b due).pending = []
    rw [expire, hpending]
    rfl
  | close forget =>
    show b.pending.filter _ = []
    rw [hpending]
    rfl

end ListBroker

/-! ### Runs with sessions -/

namespace Served

variable [DecidableEq C] {P : Variant κ D} {env : Outside} {w w' : Served κ C D}

/-- A list in order, and what goes out as it should be. -/
structure Healthy (w : Served κ C D) : Prop where
  table : Table w
  outgoing : ListBroker.Outgoing w.due w.toListBroker

theorem healthy_new (sendMode : SendMode) (delivery : DeliveryGuarantee) (cursor : κ) :
    Healthy (new sendMode delivery cursor : Served κ C D) where
  table := table_new sendMode delivery cursor
  outgoing := ⟨fun _ => List.Sublist.refl _, fun _ => List.Sublist.refl _, List.Sublist.refl _,
    fun _ => rfl⟩

theorem findConn_of_peerOf (h : Table w) {conn : C} {sender : Identity}
    (hpeer : w.peerOf conn = some sender) : w.findConn sender = some conn := by
  obtain ⟨e, hfind, rfl⟩ := Option.map_eq_some_iff.mp hpeer
  have hconn : e.2 = conn := by simpa using List.find?_some hfind
  rw [h.findConn (List.mem_of_find?_eq_some hfind), hconn]

theorem Healthy.step {e : Event C D} (h : Healthy w) (hstep : w.step P env e = some w') :
    Healthy w' := by
  have htable := h.table.step hstep
  refine ⟨htable, ?_⟩
  cases e with
  | send | unregister | expire | close =>
    cases hstep
    exact h.outgoing.step _ (by simp) h.table.handles htable.handles
  | register identity conn =>
    rw [Served.step] at hstep
    split at hstep
    · cases hstep
    · cases hstep
      exact h.outgoing.step _ (by simp) h.table.handles htable.handles
  | received conn envelope =>
    obtain ⟨sender, hpeer, rfl⟩ := Option.map_eq_some_iff.mp hstep
    cases envelope with
    | hello | heartbeat | data => exact h.outgoing
    | dataReq msgId payload => exact h.outgoing.answer P msgId (findConn_of_peerOf h.table hpeer)
    | ack msgId => exact h.outgoing.congr rfl rfl rfl id

theorem healthy_of_run {es : List (Event C D)} (hrun : (machine P env).run w es = some w')
    (h : Healthy w) : Healthy w' :=
  Machine.invariant (fun _ _ _ h hstep => h.step hstep) hrun h

/-- The same, with its events. -/
theorem putsOut_step {e : Event C D} (hstep : w.step P env e = some w') :
    ListBroker.PutsOut w.toListBroker w'.toListBroker := by
  cases e with
  | send | unregister | expire | close =>
    cases hstep
    exact ListBroker.putsOut_op P env w.toListBroker _
  | register identity conn =>
    rw [Served.step] at hstep
    split at hstep
    · cases hstep
    · cases hstep
      exact ListBroker.putsOut_op P env w.toListBroker (.register identity conn)
  | received conn envelope =>
    obtain ⟨sender, -, rfl⟩ := Option.map_eq_some_iff.mp hstep
    cases envelope with
    | hello | heartbeat | data | ack => exact .quiet rfl
    | dataReq msgId payload =>
      exact ListBroker.putsOut_op P env w.toListBroker (.answer sender msgId)

/-- A broker puts out messages and ACKs, and nothing else. -/
theorem kinds_of_run {sendMode : SendMode} {delivery : DeliveryGuarantee} {cursor : κ}
    {es : List (Event C D)}
    (hrun : (machine P env).run (new sendMode delivery cursor) es = some w) :
    ∀ f ∈ w.out, f.2.message?.isSome = true ∨ f.2.ack?.isSome = true := by
  refine Machine.invariant (m := machine P env)
    (I := fun w => ∀ f ∈ w.out, f.2.message?.isSome = true ∨ f.2.ack?.isSome = true) ?_ hrun ?_
  · intro v e v' h hstep f hf
    obtain ⟨frames, hout, hframes⟩ := putsOut_step hstep
    rw [show v'.out = v.out ++ frames from hout] at hf
    exact (List.mem_append.mp hf).elim (h f) fun hf => (hframes f hf).2
  · exact fun f hf => absurd hf List.not_mem_nil

section Main

variable {sendMode : SendMode} {delivery : DeliveryGuarantee} {cursor : κ}
  {es : List (Event C D)} (hrun : (machine P env).run (new sendMode delivery cursor) es = some w)
include hrun

/-- **ACKs go back where the message came from**, in order and once. Until the socket is closed, all
that are due go out. The application gets every message that is passed on. -/
theorem answered :
    (acksOf w.out).Sublist (es.filterMap Event.request?) ∧
      (w.closed = false → acksOf w.out = es.filterMap Event.request?) ∧
      w.inbox.map Prod.fst = es.filterMap Event.payload? := by
  have houtgoing := (healthy_of_run hrun (healthy_new sendMode delivery cursor)).outgoing
  have hlogs := logs_of_run hrun
  have hdue : w.due = es.filterMap Event.request? := hlogs.due
  rw [← hdue]
  exact ⟨houtgoing.acks_sublist, houtgoing.acks_eq, hlogs.inbox⟩

/-- **Every message is in one place.** -/
theorem accounts (hfresh : env.Fresh w.drawn) :
    w.accounted.Perm (es.filterMap Event.send?) ∧ (w.pending.map Prod.fst).Nodup := by
  have hsends : w.handed = es.filterMap Event.send? := (logs_of_run hrun).handed
  obtain ⟨ops, hops⟩ := exists_ops_of_run hrun
  have hbooks : ListBroker.Books env [] w.toListBroker := by
    rw [hops] at hfresh ⊢
    exact ListBroker.books_run P hfresh (ListBroker.books_new env sendMode delivery cursor) le_rfl
  rw [← hsends]
  exact ⟨hbooks.perm, hbooks.numbered.nodup_msgId hfresh⟩

end Main

theorem answered_firstPeer :
    ∃ w, firstPeer .atLeastOnce = some w ∧ w.closed = false ∧
      (acksOf w.out).Sublist [(3, tellingIds.msgId 9)] ∧
      acksOf w.out = [(3, tellingIds.msgId 9)] ∧ w.inbox.map Prod.fst = [8] := by
  refine ⟨_, rfl, rfl, ?_⟩
  have hanswered := answered (show firstPeer .atLeastOnce = some _ from rfl)
  exact ⟨hanswered.1, hanswered.2.1 rfl, hanswered.2.2⟩

/-- One message was acknowledged, and two wait. -/
theorem accounts_firstPeer :
    ∃ w, firstPeer .atLeastOnce = some w ∧ w.pending.length = 2 ∧ w.ended.length = 1 ∧
      w.accounted.Perm [(none, 5), (some (List.Vector.replicate 16 1), 6), (none, 7)] := by
  refine ⟨_, rfl, by decide, by decide, ?_⟩
  exact (accounts (show firstPeer .atLeastOnce = some _ from rfl)
    (fresh_tellingIds.mono (by decide))).1

end Served

end Aiomsg
