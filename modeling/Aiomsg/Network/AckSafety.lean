import Aiomsg.Network.Basic

/-!
# An acknowledgement means delivery

When the broker of a node drops an entry of `pending` because of an ACK, the payload of that entry
has been put on the receive queue of the node at the other end of the connection the ACK came in on,
out of a DATA_REQ with the id of the entry. The argument goes once around the connection. The ACK is
a frame the other broker put on the writer of its session; it did so in the step in which it took a
DATA_REQ of that id from the same session; the session had read it from the first node; and there it
was put out by a transmission of that id. The entry is of a transmission of that id too, and ids are
given out once, so the two transmissions are one.

`Inv` holds what the argument needs to know of messages on their way, in queues and in logs; what it
needs of each node by itself is `Session.History`.

## Scope

The statement is about the step in which the entry is dropped, in any reachable state. It does not
say that an ACK ever comes: a connection may lose it, and then the message is sent again under
another id, to which the same applies. That the payload has been put on the receive queue is where
it ends; whether the application of the other node ever looks at its queue is its own affair.

## Main results

* `inv_of_reachable`
* `acked_delivered`
-/

namespace Aiomsg

namespace Network

open Session Conn Protocol

/-! ### Frames -/

theorem arrivals_frame {envelope : Envelope Bytes} (h : envelope.Encodable)
    (hlen : envelope.body.length < 2 ^ 32) :
    arrivals envelope.frame = (forwarded envelope.body).toList := by
  have hitems : LengthPrefix.deframer.items (LengthPrefix.frame envelope.body)
      = [envelope.body] := by
    have hone : ∀ body ∈ [envelope.body], body.length < 2 ^ 32 :=
      fun body hbody => List.mem_singleton.mp hbody ▸ hlen
    simpa using LengthPrefix.items_frames hone
  rw [arrivals, Envelope.frame_eq h, putLenPrefix_eq]
  show (LengthPrefix.deframer.items (LengthPrefix.frame envelope.body)).filterMap forwarded = _
  rw [hitems, List.filterMap_cons]
  cases forwarded envelope.body <;> rfl

/-- What is forwarded for an encoded envelope is that envelope. -/
theorem eq_of_arrivals {envelope envelope' : Envelope Bytes} (h : envelope.Encodable)
    (hlen : envelope.body.length < 2 ^ 32) (harrivals : arrivals envelope.frame = [envelope']) :
    envelope' = envelope := by
  rw [arrivals_frame h hlen] at harrivals
  have hforwarded : forwarded envelope.body = some envelope' :=
    Option.toList_eq_singleton_iff.mp harrivals
  rw [forwarded, Envelope.decode_body] at hforwarded
  split at hforwarded
  · exact absurd hforwarded (Option.some_ne_none _).symm
  · exact absurd hforwarded (Option.some_ne_none _).symm
  · exact absurd hforwarded (Option.some_ne_none _).symm
  · rename_i heq
    rw [← Option.some.inj hforwarded, ← Option.some.inj heq]

theorem arrivals_hello (identity : Identity) : arrivals (hello identity) = [] := by
  have hlen : (Envelope.hello protocolVersion identity).body.length < 2 ^ 32 := by
    simp [Envelope.body]
  have hencodable : (Envelope.hello protocolVersion identity).Encodable := rfl
  have harrivals := arrivals_frame hencodable hlen
  rw [forwarded, Envelope.decode_body] at harrivals
  exact harrivals

theorem arrivals_heartbeat : arrivals heartbeat = [] := by
  have hencodable : (Envelope.heartbeat : Envelope Bytes).Encodable := trivial
  have harrivals := arrivals_frame hencodable (by decide)
  rw [forwarded, Envelope.decode_body] at harrivals
  exact harrivals

/-! ### What is on its way, in queues and in logs -/

variable {N E : Type} {T : Topology N E} {net : Net N E}

/-- A command a node may have: a message of the application is not too long, and an envelope is what
a session of the node reads in a frame from its other end. -/
structure Fine (T : Topology N E) (sent : E → List Bytes) (n : N) (p : Posted E Bytes) : Prop where
  short : ∀ identity data, p.cmd = .send identity data → Short data
  arrived : ∀ id envelope, p.cmd = .received id envelope →
    ∃ e, p.origin = some e ∧ T.node e = n ∧ ∃ frame ∈ sent (T.peer e), arrivals frame = [envelope]

theorem Fine.mono {sent sent' : E → List Bytes} {n : N} {p : Posted E Bytes} (h : Fine T sent n p)
    (hsub : ∀ e, sent e ⊆ sent' e) : Fine T sent' n p := by
  refine ⟨h.short, fun id envelope hcmd => ?_⟩
  obtain ⟨e, horigin, hnode, frame, hframe, harrivals⟩ := h.arrived id envelope hcmd
  exact ⟨e, horigin, hnode, frame, hsub _ hframe, harrivals⟩

variable [DecidableEq E]

/-- What holds in every reachable state. -/
structure Inv (T : Topology N E) (net : Net N E) : Prop where
  worlds : ∀ n, (system E Bytes T.ident).Reachable (net.world n)
  /-- A session belongs to one node. -/
  home : ∀ n e, (net.world n).phase e ≠ .idle → T.node e = n
  queued : ∀ n, ∀ p ∈ (net.world n).queue, Fine T net.sent n p
  logged : ∀ n, ∀ d ∈ (net.world n).log, Fine T net.sent n d.toPosted
  sent : ∀ e, ∀ frame ∈ net.sent e, ∃ envelope : Envelope Bytes,
    frame = envelope.frame ∧ .frame e envelope ∈ net.effects (T.node e)
  wire : ∀ e, ∀ frame ∈ net.wire e, frame ∈ net.sent e ∨ arrivals frame = []

/-- What is on its way from one end changes. -/
theorem Inv.setWire (h : Inv T net) {e : E} {frames : List Bytes}
    (hframes : ∀ frame ∈ frames, frame ∈ net.sent e ∨ arrivals frame = []) :
    Inv T (net.setWire e frames) := by
  refine ⟨h.worlds, h.home, h.queued, h.logged, h.sent, fun e' frame hf => ?_⟩
  show frame ∈ net.sent e' ∨ _
  have hf' : frame ∈ Function.update net.wire e frames e' := hf
  by_cases he : e' = e
  · subst he
    rw [Function.update_self] at hf'
    exact hframes frame hf'
  · rw [Function.update_of_ne he] at hf'
    exact h.wire e' frame hf'

section Nodes

variable [DecidableEq N]

theorem inv_init (h : (network T).init net) : Inv T net := by
  obtain ⟨hworld, hwire, hsent⟩ := h
  refine ⟨fun n => .init (hworld n), fun n e he => ?_, fun n p hp => ?_, fun n d hd => ?_,
    fun e frame hf => ?_, fun e frame hf => ?_⟩
  · obtain ⟨sendMode, delivery, salt, hw⟩ := hworld n
    rw [hw] at he
    exact absurd rfl he
  · obtain ⟨sendMode, delivery, salt, hw⟩ := hworld n
    rw [hw] at hp
    exact absurd hp List.not_mem_nil
  · obtain ⟨sendMode, delivery, salt, hw⟩ := hworld n
    rw [hw] at hd
    exact absurd hd List.not_mem_nil
  · rw [hsent] at hf
    exact absurd hf List.not_mem_nil
  · rw [hwire] at hf
    exact absurd hf List.not_mem_nil

omit [DecidableEq E] in
/-- To show something of every node after one has changed. -/
theorem forall_setWorld {P : N → World E Bytes → Prop} {n : N} {w : World E Bytes}
    (hn : P n w) (hothers : ∀ m, P m (net.world m)) (m : N) : P m ((net.setWorld n w).world m) := by
  show P m (Function.update net.world n w m)
  by_cases hm : m = n
  · subst hm
    rw [Function.update_self]
    exact hn
  · rw [Function.update_of_ne hm]
    exact hothers m

/-- A step of one node in which its broker does nothing. -/
theorem Inv.setWorld (h : Inv T net) {n : N} {w : World E Bytes}
    (hstep : Session.Step T.ident (net.world n) w) (hlog : w.log = (net.world n).log)
    (hphase : ∀ e, w.phase e ≠ .idle → (net.world n).phase e ≠ .idle ∨ T.node e = n)
    (hqueue : ∀ p ∈ w.queue, p ∈ (net.world n).queue ∨ Fine T net.sent n p) :
    Inv T (net.setWorld n w) where
  worlds := forall_setWorld (P := fun _ w => (system E Bytes T.ident).Reachable w)
    (.step (h.worlds n) hstep) h.worlds
  home := by
    refine forall_setWorld (P := fun n w => ∀ e, w.phase e ≠ .idle → T.node e = n)
      (fun e he => ?_) h.home
    rcases hphase e he with he | he
    · exact h.home n e he
    · exact he
  queued := by
    refine forall_setWorld (P := fun n w => ∀ p ∈ w.queue, Fine T net.sent n p)
      (fun p hp => ?_) h.queued
    rcases hqueue p hp with hp | hp
    · exact h.queued n p hp
    · exact hp
  logged := by
    refine forall_setWorld (P := fun n w => ∀ d ∈ w.log, Fine T net.sent n d.toPosted)
      (fun d hd => ?_) h.logged
    rw [hlog] at hd
    exact h.logged n d hd
  sent := by
    have heffects : ∀ m, (net.setWorld n w).effects m = net.effects m :=
      forall_setWorld (P := fun m w => w.effects = net.effects m)
        (by rw [World.effects, hlog]; rfl) fun _ => rfl
    intro e frame hf
    rw [heffects]
    exact h.sent e frame hf
  wire := h.wire

omit [DecidableEq N] in
/-- Only a session of the node is written to. -/
theorem node_of_mem_effects (hreach : (system E Bytes T.ident).Reachable (net.world n))
    (hhome : ∀ e, (net.world n).phase e ≠ .idle → T.node e = n) {e : E} {envelope : Envelope Bytes}
    (h : .frame e envelope ∈ net.effects n) : T.node e = n :=
  hhome e ((history_of_reachable hreach).begun e envelope h)

/-- The broker of a node takes its turn. -/
theorem Inv.process (h : Inv T net) {n : N} {p : Posted E Bytes} {rest : List (Posted E Bytes)}
    (hqueue : (net.world n).queue = p :: rest) :
    Inv T (net.process n p rest) := by
  have hsub : ∀ e, net.sent e ⊆ net.sent e ++ (framesOn e ((net.world n).broker.step p.cmd).2).map
      Envelope.frame := fun e => List.subset_append_left _ _
  have hworlds : ∀ m, (system E Bytes T.ident).Reachable
      ((net.setWorld n ((net.world n).process p rest)).world m) :=
    forall_setWorld (P := fun _ w => (system E Bytes T.ident).Reachable w)
      (.step (h.worlds n) (.process hqueue)) h.worlds
  have hhome : ∀ m e, ((net.setWorld n ((net.world n).process p rest)).world m).phase e ≠ .idle →
      T.node e = m :=
    forall_setWorld (P := fun m w => ∀ e, w.phase e ≠ .idle → T.node e = m) (h.home n) h.home
  have hold : ∀ m, net.effects m ⊆ (net.setWorld n ((net.world n).process p rest)).effects m :=
    forall_setWorld (P := fun m w => net.effects m ⊆ w.effects)
      (by rw [effects_process]; exact List.subset_append_left _ _) fun _ => List.Subset.refl _
  refine ⟨hworlds, hhome, ?_, ?_, fun e frame hf => ?_, fun e frame hf => ?_⟩
  · refine forall_setWorld (P := fun n w => ∀ p ∈ w.queue, Fine T _ n p) (fun q hq => ?_)
      fun m q hq => (h.queued m q hq).mono hsub
    refine (h.queued n q ?_).mono hsub
    rw [hqueue]
    exact List.mem_cons_of_mem _ hq
  · refine forall_setWorld (P := fun n w => ∀ d ∈ w.log, Fine T _ n d.toPosted) (fun d hd => ?_)
      fun m d hd => (h.logged m d hd).mono hsub
    rcases List.mem_append.mp hd with hd | hd
    · exact (h.logged n d hd).mono hsub
    · rw [List.mem_singleton.mp hd]
      refine (h.queued n p ?_).mono hsub
      rw [hqueue]
      exact List.mem_cons_self
  · rcases List.mem_append.mp hf with hf | hf
    · obtain ⟨envelope, hframe, heffect⟩ := h.sent e frame hf
      exact ⟨envelope, hframe, hold _ heffect⟩
    · obtain ⟨envelope, henvelope, rfl⟩ := List.mem_map.mp hf
      have heffect : .frame e envelope
          ∈ (net.setWorld n ((net.world n).process p rest)).effects n := by
        show _ ∈ (Function.update net.world n _ n).effects
        rw [Function.update_self, effects_process]
        exact List.mem_append_right _ (mem_framesOn.mp henvelope)
      refine ⟨envelope, rfl, ?_⟩
      rw [node_of_mem_effects (hworlds n) (hhome n) heffect]
      exact heffect
  · rcases List.mem_append.mp hf with hf | hf
    · exact (h.wire e frame hf).imp_left (hsub e ·)
    · exact .inl (List.mem_append_right _ hf)

omit [DecidableEq N] in
theorem node_of_phase_enter {w : World E Bytes} {e e' : E} {phase : Phase}
    (h : (w.enter e phase).phase e' ≠ .idle) : w.phase e' ≠ .idle ∨ T.node e' = T.node e := by
  by_cases he : e' = e
  · exact .inr (congrArg T.node he)
  · have hother : (w.enter e phase).phase e' = w.phase e' := Function.update_of_ne he _ _
    exact .inl (hother ▸ h)

omit [DecidableEq E] [DecidableEq N] in
theorem mem_or_fine_of_mem_post {w : World E Bytes} {n : N} {origin : Option E}
    {cmd : Command E Bytes} (hfine : Fine T net.sent n ⟨origin, cmd⟩) {p : Posted E Bytes}
    (h : p ∈ (w.post origin cmd).queue) : p ∈ w.queue ∨ Fine T net.sent n p := by
  rcases List.mem_append.mp h with h | h
  · exact .inl h
  · exact .inr (List.mem_singleton.mp h ▸ hfine)

theorem Inv.step {net' : Net N E} (h : Inv T net) (hstep : Step T net net') : Inv T net' := by
  cases hstep with
  | up hphase =>
    refine h.setWorld (.up hphase) rfl (fun _ => node_of_phase_enter)
      fun _ => mem_or_fine_of_mem_post ⟨?_, ?_⟩ <;> exact nofun
  | accepted hphase hanswer =>
    exact h.setWorld (.accepted hphase hanswer) rfl (fun _ => node_of_phase_enter) fun _ => .inl
  | rejected hphase hanswer =>
    exact h.setWorld (.rejected hphase hanswer) rfl (fun _ => node_of_phase_enter) fun _ => .inl
  | down hphase =>
    refine h.setWorld (.down hphase) rfl (fun _ => node_of_phase_enter)
      fun _ => mem_or_fine_of_mem_post ⟨?_, ?_⟩ <;> exact nofun
  | send identity hshort =>
    refine h.setWorld (.send _ _) rfl (fun _ => .inl) fun _ => mem_or_fine_of_mem_post ⟨?_, ?_⟩
    · rintro _ _ heq
      obtain ⟨-, rfl⟩ := Command.send.inj heq
      exact hshort
    · exact nofun
  | timeout msgId =>
    refine h.setWorld (.timeout msgId) rfl (fun _ => .inl)
      fun _ => mem_or_fine_of_mem_post ⟨?_, ?_⟩ <;> exact nofun
  | process hqueue => exact h.process hqueue
  | @deliver e frame rest envelope hphase hwire harrivals =>
    have hsent : frame ∈ net.sent (T.peer e) := by
      refine (h.wire _ frame (hwire ▸ List.mem_cons_self)).resolve_right fun hnone => ?_
      exact absurd (harrivals.symm.trans hnone) (List.cons_ne_nil _ _)
    have hfine : Fine T net.sent (T.node e) ⟨some e, .received (T.ident e) envelope⟩ := by
      refine ⟨nofun, fun id envelope' heq => ⟨e, rfl, rfl, frame, hsent, ?_⟩⟩
      obtain ⟨-, rfl⟩ := Command.received.inj heq
      exact harrivals
    have hposted := h.setWorld (.forward envelope hphase) rfl (fun _ => .inl)
      fun _ => mem_or_fine_of_mem_post hfine
    exact hposted.setWire fun f hf => h.wire _ f (hwire ▸ List.mem_cons_of_mem _ hf)
  | own hframe =>
    refine h.setWire fun f hf => ?_
    rcases List.mem_append.mp hf with hf | hf
    · exact h.wire _ f hf
    · rw [List.mem_singleton.mp hf]
      rcases hframe with ⟨identity, rfl⟩ | rfl
      · exact .inr (arrivals_hello identity)
      · exact .inr arrivals_heartbeat
  | ignore hwire harrivals =>
    exact h.setWire fun f hf => h.wire _ f (hwire ▸ List.mem_cons_of_mem _ hf)
  | lose kept => exact h.setWire fun f hf => h.wire _ f (List.mem_of_mem_take hf)
  | again hsent =>
    refine h.setWire fun f hf => ?_
    rcases List.mem_append.mp hf with hf | hf
    · exact h.wire _ f hf
    · exact .inl (List.mem_singleton.mp hf ▸ hsent)

theorem inv_of_reachable (h : (network T).Reachable net) : Inv T net :=
  h.invariant (fun _ => inv_init) fun _ _ => Inv.step

end Nodes

/-! ### Once around the connection -/

variable {n : N}

/-- A frame on a writer has an origin in a step of the log. -/
theorem origin_of_mem_effects {w : World E Bytes} (hreach : (system E Bytes T.ident).Reachable w)
    {e : E} {envelope : Envelope Bytes} (h : .frame e envelope ∈ w.effects) :
    ∃ d ∈ w.log, .frame e envelope ∈ d.effects ∧ Broker.Origin d.cmd d.effects envelope := by
  obtain ⟨d, hd, heffect⟩ := List.mem_flatMap.mp h
  obtain ⟨b, hstep⟩ := (logged_of_reachable hreach d hd).step
  refine ⟨d, hd, heffect, ?_⟩
  rw [hstep] at heffect ⊢
  exact Broker.origin_step heffect

/-- What a node transmits is not too long. -/
theorem Inv.short (h : Inv T net) {p : Pending Bytes} (hp : p ∈ transmitted (net.effects n)) :
    Short p.data := by
  obtain ⟨d, hd, identity, hcmd⟩ := (history_of_reachable (h.worlds n)).handed p hp
  exact (h.logged n d hd).short identity p.data hcmd

/-- What a broker puts on a writer can be encoded. -/
theorem Inv.fits (h : Inv T net) {e : E} {envelope : Envelope Bytes}
    (hframe : .frame e envelope ∈ net.effects n) :
    envelope.Encodable ∧ envelope.body.length < 2 ^ 32 := by
  obtain ⟨d, hd, -, horigin⟩ := origin_of_mem_effects (h.worlds n) hframe
  have hshort : ∀ p ∈ transmitted d.effects, Short p.data := by
    intro p hp
    obtain ⟨effect, heffect, heq⟩ := List.mem_filterMap.mp hp
    exact h.short (List.mem_filterMap.mpr ⟨effect, List.mem_flatMap.mpr ⟨d, hd, heffect⟩, heq⟩)
  cases horigin with
  | data p hp =>
    have hlen := hshort p hp
    rw [Short] at hlen
    exact ⟨trivial, by simp only [Envelope.body, List.length_cons]; omega⟩
  | dataReq msgId p hp =>
    have hlen := hshort p (Broker.mem_transmitted hp)
    rw [Short] at hlen
    refine ⟨trivial, ?_⟩
    simp only [Envelope.body, List.length_cons, List.length_append, List.Vector.toList_length]
    omega
  | ack msgId => exact ⟨trivial, by simp [Envelope.body]⟩

/-- What a session forwards, the broker at the other end has put on the writer there. -/
theorem Inv.put_out (h : Inv T net) {e : E} {frame : Bytes} {envelope : Envelope Bytes}
    (hsent : frame ∈ net.sent e) (harrivals : arrivals frame = [envelope]) :
    .frame e envelope ∈ net.effects (T.node e) := by
  obtain ⟨envelope', rfl, hframe⟩ := h.sent e frame hsent
  obtain ⟨hencodable, hlen⟩ := h.fits hframe
  rwa [eq_of_arrivals hencodable hlen harrivals]

/-- An ACK a session has forwarded: the node at the other end has delivered a DATA_REQ of its id,
which it had from this node on this connection. -/
theorem Inv.delivered (h : Inv T net) {id : Identity} {m : MsgId} {p : Posted E Bytes}
    (hfine : Fine T net.sent n p) (hcmd : p.cmd = .received id (.ack m)) :
    ∃ e, p.origin = some e ∧ T.node e = n ∧
      ∃ d ∈ (net.world (T.node (T.peer e))).log, d.origin = some (T.peer e) ∧
        ∃ id' payload, d.cmd = .received id' (.dataReq m payload) ∧ .recv id' payload ∈ d.effects ∧
          .frame e (.dataReq m payload) ∈ net.effects n := by
  obtain ⟨e, horigin, rfl, frame, hsent, harrivals⟩ := hfine.arrived id _ hcmd
  have hack := h.put_out hsent harrivals
  obtain ⟨d, hd, heffect, hack⟩ := origin_of_mem_effects (h.worlds _) hack
  generalize henvelope : (Envelope.ack m : Envelope Bytes) = envelope at hack
  cases hack with
  | data | dataReq => exact absurd henvelope nofun
  | ack m' id' payload hreq =>
    obtain rfl := Envelope.ack.inj henvelope
    obtain ⟨s, hs, heffects⟩ := (logged_of_reachable (h.worlds _) d hd).dataReq id' m payload hreq
    -- the session that forwarded the DATA_REQ is the one its ACK went to
    obtain rfl : T.peer e = s := by
      rw [heffects] at heffect
      simpa using heffect
    obtain ⟨e', he', -, frame', hsent', harrivals'⟩ := (h.logged _ d hd).arrived id' _ hreq
    obtain rfl : T.peer e = e' := Option.some.inj (hs.symm.trans he')
    rw [T.peer_peer] at hsent'
    refine ⟨e, horigin, rfl, d, hd, hs, id', payload, hreq, ?_, h.put_out hsent' harrivals'⟩
    rw [heffects]
    exact List.mem_cons_self

/-- A DATA_REQ carries the payload of a transmission of its id. -/
theorem Inv.transmitted (h : Inv T net) {e : E} {m : MsgId} {payload : Bytes}
    (hframe : .frame e (.dataReq m payload) ∈ net.effects n) :
    ∃ p : Pending Bytes, p.data = payload ∧ .transmit (some m) p ∈ net.effects n := by
  obtain ⟨d, hd, -, horigin⟩ := origin_of_mem_effects (h.worlds n) hframe
  generalize henvelope : (Envelope.dataReq m payload : Envelope Bytes) = envelope at horigin
  cases horigin with
  | data | ack => exact absurd henvelope nofun
  | dataReq m' p hp =>
    obtain ⟨rfl, rfl⟩ := Envelope.dataReq.inj henvelope
    exact ⟨p, rfl, List.mem_flatMap.mpr ⟨d, hd, hp⟩⟩

/-- Below `2 ^ 64` transmissions a node gives out no id twice. -/
theorem Inv.nodup (h : Inv T net) (hcount : (Aiomsg.transmitted (net.effects n)).length < 2 ^ 64) :
    (issued (net.effects n)).Nodup := by
  obtain ⟨b, hissues⟩ := (history_of_reachable (h.worlds n)).issues
  exact hissues.nodup ((length_issued_le _).trans_lt hcount)

/-- **An entry is dropped for an ACK only after its payload was delivered.** Take any reachable
state of the network, and a node that has transmitted fewer than `2 ^ 64` times and whose broker is
about to take an ACK for an entry of `pending`. Processing it drops that entry and no other. The ACK
came in on a connection of the node, and the node at the other end has taken, from its end of that
connection, a DATA_REQ with the id and the payload of the entry, which this node had put on that
connection, and has put the payload on its receive queue. And of all transmissions the node has ever
made exactly one was given that id, the one the entry is of. -/
theorem acked_delivered [DecidableEq N] (hreach : (network T).Reachable net)
    (hcount : (Aiomsg.transmitted (net.effects n)).length < 2 ^ 64) {origin : Option E}
    {id : Identity} {m : MsgId} {rest : List (Posted E Bytes)} {entry : Pending Bytes}
    (hqueue : (net.world n).queue = ⟨origin, .received id (.ack m)⟩ :: rest)
    (hentry : (net.world n).broker.pending.lookup m = some entry) :
    (net.world n).broker.step (.received id (.ack m))
      = ({ (net.world n).broker with pending := (net.world n).broker.pending.erase m },
          [.cancel m]) ∧
    (∃ e, origin = some e ∧ T.node e = n ∧ .frame e (.dataReq m entry.data) ∈ net.effects n ∧
      ∃ d ∈ (net.world (T.node (T.peer e))).log, d.origin = some (T.peer e) ∧
        ∃ id', d.cmd = .received id' (.dataReq m entry.data) ∧ .recv id' entry.data ∈ d.effects) ∧
    .transmit (some m) entry ∈ net.effects n ∧ (issued (net.effects n)).count m = 1 := by
  have hinv := inv_of_reachable hreach
  have hmark := (history_of_reachable (hinv.worlds n)).entries m entry hentry
  have hnodup := hinv.nodup hcount
  refine ⟨?_, ?_, hmark, List.count_eq_one_of_mem hnodup (mem_issued hmark)⟩
  · show Broker.handleReceived _ id (.ack m) = _
    rw [Broker.handleReceived, hentry]
  · have hfine := hinv.queued n _ (hqueue ▸ List.mem_cons_self)
    obtain ⟨e, horigin, hnode, d, hd, hs, id', payload, hreq, hrecv, hframe⟩ :=
      hinv.delivered hfine rfl
    obtain ⟨p, rfl, hp⟩ := hinv.transmitted hframe
    obtain rfl : p = entry := eq_of_nodup_issued hnodup hp hmark
    exact ⟨e, horigin, hnode, hframe, d, hd, hs, id', hreq, hrecv⟩

/-- Two nodes and one connection, whose ends are named after their nodes. -/
def pair : Topology Bool Bool where
  node := id
  peer := not
  peer_peer := Bool.not_not
  ident := fun _ => List.Vector.replicate 16 1

/-- The pair, connected, after a DATA_REQ from `true` has been delivered at `false` and its ACK has
come back. -/
def exchange : Net Bool Bool :=
  let ident : Identity := List.Vector.replicate 16 1
  let msgId : MsgId := Broker.msgIdOf (List.Vector.replicate 8 0) 0
  let net : Net Bool Bool :=
    ⟨fun _ => .start .roundRobin .atLeastOnce (List.Vector.replicate 8 0), fun _ => [], fun _ => []⟩
  let net := net.setWorld true (((net.world true).post (some true)
    (.connectionUp ident true true)).enter true .waiting)
  let net := net.setWorld false (((net.world false).post (some false)
    (.connectionUp ident false false)).enter false .waiting)
  let net := net.process true ⟨some true, .connectionUp ident true true⟩ []
  let net := net.process false ⟨some false, .connectionUp ident false false⟩ []
  let net := net.setWorld true ((net.world true).enter true .serving)
  let net := net.setWorld false ((net.world false).enter false .serving)
  let net := net.setWorld true ((net.world true).post none (.send none [7]))
  let net := net.process true ⟨none, .send none [7]⟩ []
  let net := (net.setWorld false ((net.world false).post (some false)
    (.received ident (.dataReq msgId [7])))).setWire true []
  let net := net.process false ⟨some false, .received ident (.dataReq msgId [7])⟩ []
  (net.setWorld true ((net.world true).post (some true) (.received ident (.ack msgId)))).setWire
    false []

theorem exchange_delivered :
    ∃ d ∈ (exchange.world false).log, d.origin = some false ∧ ∃ id, .recv id [7] ∈ d.effects := by
  have hreq : arrivals (Envelope.dataReq (Broker.msgIdOf (List.Vector.replicate 8 0) 0) [7]).frame
      = [.dataReq (Broker.msgIdOf (List.Vector.replicate 8 0) 0) [7]] := by
    refine Eq.trans (arrivals_frame (by exact trivial) (by decide)) ?_
    rw [forwarded, Envelope.decode_body]
    rfl
  have hack : arrivals (Envelope.ack (Broker.msgIdOf (List.Vector.replicate 8 0) 0)).frame
      = [.ack (Broker.msgIdOf (List.Vector.replicate 8 0) 0)] := by
    refine Eq.trans (arrivals_frame (by exact trivial) (by decide)) ?_
    rw [forwarded, Envelope.decode_body]
    rfl
  have hreach : (network pair).Reachable exchange :=
    .step (.step (.step (.step (.step (.step (.step (.step (.step (.step (.step (.init
      ⟨fun _ => ⟨_, _, _, rfl⟩, fun _ => rfl, fun _ => rfl⟩)
      (.up rfl)) (.up rfl)) (.process rfl)) (.process rfl)) (.accepted rfl rfl))
      (.accepted rfl rfl)) (.send none (by decide))) (.process rfl)) (.deliver rfl rfl hreq))
      (.process rfl)) (.deliver rfl rfl hack)
  obtain ⟨-, ⟨e, he, -, -, d, hd, hs, id, -, hrecv⟩, -⟩ :=
    acked_delivered (n := true) hreach (by decide) rfl rfl
  obtain rfl := Option.some.inj he
  exact ⟨d, hd, hs, id, hrecv⟩

end Network

end Aiomsg
