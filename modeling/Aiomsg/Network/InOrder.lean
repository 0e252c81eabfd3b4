import Aiomsg.Network.AckSafety
import Aiomsg.Session.Ledger

/-!
# From application to application

What the application at one end of a connection gets through it, against what the application at the
other end has sent. A message of one node goes onto a writer, over a wire, through a session into a
queue, and is taken from there by the broker of the other node. At each of these places the messages
are in the order in which they were put on the writer, and a disconnect loses some but repeats none;
so those taken, those queued and those on their way, in this order, are among those put on the
writer (`Flow`). The rest is what the broker of the sending node owes to its log (`Session.Ledger`).

An ACK may arrive twice in this network, and that does not matter here: it brings no message.

## Scope

Order is a matter of one connection. Under `RoundRobin` the messages of an application go to several
peers, and nothing is said of the order in which two of them get theirs. That something arrives is
not said either: these are bounds from above on what applications get.

## Main results

* `delivered_in_order` — one connection
* `delivered_once` — all connections of a node together
* `requests_delivered_once` — the same for DATA_REQs, by their ids
-/

namespace Aiomsg

namespace Network

open Session Conn Protocol

variable {N E : Type} [DecidableEq E] {T : Topology N E} {net : Net N E}

namespace Net

/-- The messages on their way from an end. -/
def onWire (net : Net N E) (e : E) : List (Option MsgId × Bytes) :=
  ((net.wire e).flatMap arrivals).filterMap Envelope.message?

end Net

/-- The messages that have reached the node of an end or are on their way there are among those put
on the writer of the other end, in order.

The three lists are one behind the other as they are in the pipeline, those that have got furthest
in front. So a step that moves a message from one to the next leaves the list as it is. -/
def Flow (T : Topology N E) (net : Net N E) (e : E) : Prop :=
  ((net.world (T.node e)).taken e ++ (net.world (T.node e)).queued e
    ++ net.onWire (T.peer e)).Sublist (messagesOn (T.peer e) (net.effects (T.node (T.peer e))))

/-- What arrives with the frame of a message is that message. -/
theorem filterMap_message_arrivals {envelope : Envelope Bytes} (h : envelope.Encodable)
    (hlen : envelope.body.length < 2 ^ 32) :
    (arrivals envelope.frame).filterMap Envelope.message? = envelope.message?.toList := by
  rw [arrivals_frame h hlen, forwarded, Envelope.decode_body]
  cases envelope <;> rfl

theorem filterMap_message_frames {fs : List (Envelope Bytes)}
    (h : ∀ f ∈ fs, f.Encodable ∧ f.body.length < 2 ^ 32) :
    ((fs.map Envelope.frame).flatMap arrivals).filterMap Envelope.message?
      = fs.filterMap Envelope.message? := by
  induction fs with
  | nil => rfl
  | cons f fs ih =>
    obtain ⟨hencodable, hlen⟩ := h f List.mem_cons_self
    rw [List.map_cons, List.flatMap_cons, List.filterMap_append,
      filterMap_message_arrivals hencodable hlen,
      ih fun f' hf' => h f' (List.mem_cons_of_mem f hf'), List.filterMap_cons]
    cases f.message? <;> rfl

/-- What is on its way from one end changes. -/
theorem Flow.setWire {e : E} (h : Flow T net e) {e' : E} {frames : List Bytes}
    (hframes : ((frames.flatMap arrivals).filterMap Envelope.message?).Sublist (net.onWire e')) :
    Flow T (net.setWire e' frames) e := by
  refine List.Sublist.trans (List.Sublist.append (List.Sublist.refl _) ?_) h
  show (((Function.update net.wire e' frames (T.peer e)).flatMap arrivals).filterMap _).Sublist _
  by_cases he : T.peer e = e'
  · subst he
    rw [Function.update_self]
    exact hframes
  · rw [Function.update_of_ne he]
    exact List.Sublist.refl _

section Nodes

variable [DecidableEq N]

/-- A step of one node in which its broker does nothing and no message comes in. -/
theorem Flow.setWorld {e : E} (h : Flow T net e) {n : N} {w : World E Bytes}
    (hlog : w.log = (net.world n).log) (hqueued : w.queued e = (net.world n).queued e) :
    Flow T (net.setWorld n w) e := by
  have hsame : ∀ m, ((net.setWorld n w).world m).taken e = (net.world m).taken e ∧
      ((net.setWorld n w).world m).queued e = (net.world m).queued e ∧
      (net.setWorld n w).effects m = net.effects m := by
    refine forall_setWorld (P := fun m w => w.taken e = (net.world m).taken e ∧
      w.queued e = (net.world m).queued e ∧ w.effects = net.effects m) ⟨?_, hqueued, ?_⟩
      fun m => ⟨rfl, rfl, rfl⟩
    · rw [World.taken, hlog]
      rfl
    · rw [World.effects, hlog]
      rfl
  rw [Flow, (hsame _).1, (hsame _).2.1, (hsame _).2.2]
  exact h

/-- A command that brings no message of a session. -/
theorem queued_post_of_none (w : World E Bytes) {origin : Option E} {cmd : Command E Bytes} {e : E}
    (h : (⟨origin, cmd⟩ : Posted E Bytes).messageOf e = none) :
    (w.post origin cmd).queued e = w.queued e := by
  rw [queued_post, h]
  exact List.append_nil _

omit [DecidableEq N] in
theorem messageOf_eq_none {origin : Option E} {cmd : Command E Bytes} (h : cmd.message? = none)
    (e : E) : (⟨origin, cmd⟩ : Posted E Bytes).messageOf e = none := by
  rw [Posted.messageOf]
  split
  · exact h
  · rfl

/-- The broker of a node takes its turn. -/
theorem Flow.process (hinv : Inv T net) {e : E} (h : Flow T net e) {n : N} {p : Posted E Bytes}
    {rest : List (Posted E Bytes)} (hqueue : (net.world n).queue = p :: rest) :
    Flow T (net.process n p rest) e := by
  have hinv' : Inv T (net.process n p rest) := hinv.process hqueue
  have hpassed : ∀ m, ((net.process n p rest).world m).taken e
      ++ ((net.process n p rest).world m).queued e
        = (net.world m).taken e ++ (net.world m).queued e :=
    forall_setWorld (P := fun m w => w.taken e ++ w.queued e
      = (net.world m).taken e ++ (net.world m).queued e)
      (taken_append_queued_process hqueue e) fun _ => rfl
  have heffects : (net.process n p rest).effects n
      = net.effects n ++ ((net.world n).broker.step p.cmd).2 := by
    show (Function.update net.world n _ n).effects = _
    rw [Function.update_self, effects_process]
    rfl
  have hfits : ∀ f ∈ framesOn (T.peer e) ((net.world n).broker.step p.cmd).2,
      f.Encodable ∧ f.body.length < 2 ^ 32 := by
    intro f hf
    refine hinv'.fits (n := n) (e := T.peer e) ?_
    rw [heffects]
    exact List.mem_append_right _ (mem_framesOn.mp hf)
  have hwire : (net.process n p rest).onWire (T.peer e)
      = net.onWire (T.peer e) ++ messagesOn (T.peer e) ((net.world n).broker.step p.cmd).2 := by
    show ((net.wire (T.peer e) ++ List.map Envelope.frame _).flatMap arrivals).filterMap _ = _
    rw [List.flatMap_append, List.filterMap_append, filterMap_message_frames hfits]
    rfl
  rw [Flow, hpassed, hwire, ← List.append_assoc]
  by_cases hn : T.node (T.peer e) = n
  · rw [hn, heffects, messagesOn_append]
    rw [Flow, hn] at h
    exact h.append (List.Sublist.refl _)
  · -- the broker of another node puts nothing on this writer
    have hnone : framesOn (T.peer e) ((net.world n).broker.step p.cmd).2 = [] := by
      refine List.eq_nil_iff_forall_not_mem.mpr fun f hf => hn ?_
      have hframe : .frame (T.peer e) f ∈ (net.process n p rest).effects n := by
        rw [heffects]
        exact List.mem_append_right _ (mem_framesOn.mp hf)
      exact node_of_mem_effects (hinv'.worlds n) (hinv'.home n) hframe
    have hother : (net.process n p rest).effects (T.node (T.peer e))
        = net.effects (T.node (T.peer e)) := by
      show (Function.update net.world n _ (T.node (T.peer e))).effects = _
      rw [Function.update_of_ne hn]
      rfl
    rw [messagesOn, hnone, hother]
    exact (List.append_nil _).symm ▸ h

/-- A session reads a frame and forwards its envelope. -/
theorem Flow.deliver {e e' : E} (h : Flow T net e) {frame : Bytes} {rest : List Bytes}
    {envelope : Envelope Bytes} (hwire : net.wire (T.peer e') = frame :: rest)
    (harrivals : arrivals frame = [envelope]) :
    Flow T ((net.setWorld (T.node e') ((net.world (T.node e')).post (some e')
      (.received (T.ident e') envelope))).setWire (T.peer e') rest) e := by
  have hrest : net.onWire (T.peer e') = envelope.message?.toList
      ++ (rest.flatMap arrivals).filterMap Envelope.message? := by
    rw [Net.onWire, hwire, List.flatMap_cons, harrivals, List.filterMap_append]
    cases h : envelope.message? <;> simp [h]
  by_cases he : e = e'
  · subst he
    have hsame : ∀ m, (((net.setWorld (T.node e) ((net.world (T.node e)).post (some e)
        (.received (T.ident e) envelope))).world m).taken e = (net.world m).taken e) ∧
        (net.setWorld (T.node e) ((net.world (T.node e)).post (some e)
          (.received (T.ident e) envelope))).effects m = net.effects m :=
      forall_setWorld (P := fun m w => w.taken e = (net.world m).taken e ∧
        w.effects = net.effects m) ⟨rfl, rfl⟩ fun m => ⟨rfl, rfl⟩
    have hqueued : ((net.setWorld (T.node e) ((net.world (T.node e)).post (some e)
        (.received (T.ident e) envelope))).world (T.node e)).queued e
          = (net.world (T.node e)).queued e ++ envelope.message?.toList := by
      show (Function.update net.world (T.node e) _ (T.node e)).queued e = _
      rw [Function.update_self, queued_post, Posted.messageOf, if_pos rfl]
      rfl
    have hleft : (Net.setWire (net.setWorld (T.node e) ((net.world (T.node e)).post (some e)
        (.received (T.ident e) envelope))) (T.peer e) rest).onWire (T.peer e)
          = (rest.flatMap arrivals).filterMap Envelope.message? := by
      show ((Function.update net.wire (T.peer e) rest (T.peer e)).flatMap arrivals).filterMap _ = _
      rw [Function.update_self]
    rw [Flow, hleft]
    show ((World.taken _ e ++ World.queued _ e) ++ _).Sublist (messagesOn _ (Net.effects _ _))
    rw [Flow, hrest, ← List.append_assoc, List.append_assoc (World.taken _ e), ← hqueued,
      ← (hsame _).1, ← (hsame _).2] at h
    exact h
  · have hpeer : T.peer e ≠ T.peer e' := fun heq => he (by rw [← T.peer_peer e, heq, T.peer_peer])
    have hother : (⟨some e', .received (T.ident e') envelope⟩ : Posted E Bytes).messageOf e
        = none := by
      rw [Posted.messageOf, if_neg fun heq => he (Option.some.inj heq).symm]
    have hposted := h.setWorld (n := T.node e')
      (w := (net.world (T.node e')).post (some e') (.received (T.ident e') envelope)) rfl
      (queued_post_of_none _ hother)
    refine hposted.setWire ?_
    show List.Sublist _ (net.onWire (T.peer e'))
    rw [hrest]
    exact List.sublist_append_right _ _

theorem flow_step {net' : Net N E} (hinv : Inv T net) (h : ∀ e, Flow T net e)
    (hstep : Step T net net') (e : E) : Flow T net' e := by
  have hnothing {e' : E} {frame : Bytes}
      (hnone : (arrivals frame).filterMap Envelope.message? = []) :
      Flow T (net.setWire e' (net.wire e' ++ [frame])) e := by
    refine (h e).setWire ?_
    rw [List.flatMap_append, List.flatMap_singleton, List.filterMap_append, hnone, List.append_nil]
    exact List.Sublist.refl _
  cases hstep with
  | up | down =>
    exact (h e).setWorld rfl (queued_post_of_none _ (messageOf_eq_none rfl e))
  | accepted | rejected => exact (h e).setWorld rfl rfl
  | send | timeout => exact (h e).setWorld rfl (queued_post_of_none _ (messageOf_eq_none rfl e))
  | process hqueue => exact (h e).process hinv hqueue
  | deliver _ hwire harrivals => exact (h e).deliver hwire harrivals
  | own hframe =>
    refine hnothing ?_
    rcases hframe with ⟨identity, rfl⟩ | rfl
    · rw [arrivals_hello]
      rfl
    · rw [arrivals_heartbeat]
      rfl
  | ignore hwire harrivals =>
    refine (h e).setWire ?_
    rw [Net.onWire, hwire, List.flatMap_cons, harrivals]
    exact List.Sublist.refl _
  | lose kept =>
    refine (h e).setWire ?_
    rw [Net.onWire]
    nth_rewrite 2 [← List.take_append_drop kept (net.wire _)]
    rw [List.flatMap_append, List.filterMap_append]
    exact List.sublist_append_left _ _
  | again =>
    refine hnothing ?_
    rw [filterMap_message_arrivals (by exact trivial) (by simp [Envelope.body])]
    rfl

/-- **In every reachable state messages flow in order.** -/
theorem flow_of_reachable (hreach : (network T).Reachable net) (e : E) : Flow T net e := by
  refine hreach.invariant_over (P := fun net => ∀ e, Flow T net e) (fun _ => inv_of_reachable) ?_
    (fun _ _ => flow_step) e
  rintro net ⟨hworld, hwire, -⟩ e
  obtain ⟨sendMode, delivery, salt, hw⟩ := hworld (T.node e)
  rw [Flow, hw, Net.onWire, hwire]
  exact List.nil_sublist _

/-! ### What the applications see -/

/-- The messages the application gets through an end are among those put on the other end. -/
theorem taken_sublist (hreach : (network T).Reachable net) (e : E) :
    ((net.world (T.node e)).taken e).Sublist
      (messagesOn (T.peer e) (net.effects (T.node (T.peer e)))) := by
  have hflow := flow_of_reachable hreach e
  rw [Flow, List.append_assoc] at hflow
  exact (List.sublist_append_left _ _).trans hflow

/-- **One connection delivers in order, and nothing twice.** In every reachable state, what the
application of a node got through an end of a connection are payloads that the broker at the other
end put on its writer, each at most as often as it was put there, in the same order. If that broker
is an `AtMostOnce` one, they are payloads that its application sent, each at most as often as it was
sent, in the order in which they were sent. -/
theorem delivered_in_order (hreach : (network T).Reachable net) (e : E) :
    ((net.world (T.node e)).delivered e).Sublist
      ((messagesOn (T.peer e) (net.effects (T.node (T.peer e)))).map Prod.snd) ∧
    ((net.world (T.node (T.peer e))).broker.delivery = .atMostOnce →
      ((net.world (T.node e)).delivered e).Sublist
        ((net.world (T.node (T.peer e))).sends.map Prod.snd)) := by
  have hinv := inv_of_reachable hreach
  have hwritten : ((net.world (T.node e)).delivered e).Sublist
      ((messagesOn (T.peer e) (net.effects (T.node (T.peer e)))).map Prod.snd) := by
    rw [delivered_eq (hinv.worlds _)]
    exact (taken_sublist hreach e).map _
  refine ⟨hwritten, fun hdelivery => hwritten.trans ?_⟩
  have hsent := (ledger_of_reachable (hinv.worlds (T.node (T.peer e)))).atMostOnce hdelivery
  refine (hsent.written (T.peer e)).trans ?_
  rw [← hsent.transmitted, List.map_append, List.map_map]
  exact List.sublist_append_left _ _

/-- What node `true` of the pair puts on the writer for a payload. -/
def carrying : DeliveryGuarantee → Envelope Bytes
  | .atMostOnce => .data [7]
  | .atLeastOnce => .dataReq (Broker.msgIdOf (List.Vector.replicate 8 0) 0) [7]

/-- The pair, connected, after a message from `true` has been delivered at `false`. -/
def handedOver (delivery : DeliveryGuarantee) : Net Bool Bool :=
  let ident : Identity := List.Vector.replicate 16 1
  let net : Net Bool Bool :=
    ⟨fun _ => .start .roundRobin delivery (List.Vector.replicate 8 0), fun _ => [], fun _ => []⟩
  let net := net.setWorld true (((net.world true).post (some true)
    (.connectionUp ident true true)).enter true .waiting)
  let net := net.setWorld false (((net.world false).post (some false)
    (.connectionUp ident false false)).enter false .waiting)
  let net := net.process true ⟨some true, .connectionUp ident true true⟩ []
  let net := net.process false ⟨some false, .connectionUp ident false false⟩ []
  let net := net.setWorld false ((net.world false).enter false .serving)
  let net := net.setWorld true ((net.world true).post none (.send none [7]))
  let net := net.process true ⟨none, .send none [7]⟩ []
  let net := (net.setWorld false ((net.world false).post (some false)
    (.received ident (carrying delivery)))).setWire true []
  net.process false ⟨some false, .received ident (carrying delivery)⟩ []

theorem reachable_handedOver (delivery : DeliveryGuarantee) :
    (network pair).Reachable (handedOver delivery) := by
  have harrivals : arrivals (carrying delivery).frame = [carrying delivery] := by
    cases delivery <;>
    · refine Eq.trans (arrivals_frame (by exact trivial) (by decide)) ?_
      rw [forwarded, Envelope.decode_body]
      rfl
  cases delivery <;>
  exact .step (.step (.step (.step (.step (.step (.step (.step (.step (.init
    ⟨fun _ => ⟨_, _, _, rfl⟩, fun _ => rfl, fun _ => rfl⟩)
    (.up rfl)) (.up rfl)) (.process rfl)) (.process rfl)) (.accepted rfl rfl))
    (.send none (by decide))) (.process rfl)) (.deliver rfl rfl harrivals)) (.process rfl)

theorem handedOver_in_order :
    ((handedOver .atMostOnce).world false).delivered false = [[7]] ∧
      (((handedOver .atMostOnce).world false).delivered false).Sublist
        (((handedOver .atMostOnce).world true).sends.map Prod.snd) :=
  ⟨rfl, (delivered_in_order (reachable_handedOver .atMostOnce) false).2 rfl⟩

/-- What goes through several ends of the connections of one node. -/
theorem taken_subperm (hreach : (network T).Reachable net) {n : N} {ends : List E}
    (hnodup : ends.Nodup) (hends : ∀ e ∈ ends, T.node (T.peer e) = n) :
    (ends.flatMap fun e => (net.world (T.node e)).taken e).Subperm (messages (net.effects n)) := by
  have hpeers : (ends.map T.peer).Nodup :=
    hnodup.map fun e e' heq => by rw [← T.peer_peer e, heq, T.peer_peer]
  have hsub : (ends.flatMap fun e => (net.world (T.node e)).taken e).Sublist
      ((ends.map T.peer).flatMap fun e => messagesOn e (net.effects n)) := by
    rw [List.flatMap_map]
    clear hnodup hpeers
    induction ends with
    | nil => exact List.Sublist.refl _
    | cons e ends ih =>
      have hhead := taken_sublist hreach e
      rw [hends e List.mem_cons_self] at hhead
      exact hhead.append (ih fun e' he' => hends e' (List.mem_cons_of_mem e he'))
  exact hsub.subperm.trans (flatMap_messagesOn_subperm hpeers _)

/-- **A round-robin node's messages reach one application each, once.** In every reachable state,
take a node with `AtMostOnce` delivery and `RoundRobin` sending, and any different connections of
it. What the applications at their other ends have got through them, all together, is among what the
application of the node has sent: each payload at most as often as it was sent. -/
theorem delivered_once (hreach : (network T).Reachable net) {n : N}
    (hdelivery : (net.world n).broker.delivery = .atMostOnce)
    (hmode : (net.world n).broker.sendMode = .roundRobin) {ends : List E} (hnodup : ends.Nodup)
    (hends : ∀ e ∈ ends, T.node (T.peer e) = n) :
    (ends.flatMap fun e => (net.world (T.node e)).delivered e).Subperm
      ((net.world n).sends.map Prod.snd) := by
  have hinv := inv_of_reachable hreach
  have hledger := ledger_of_reachable (hinv.worlds n)
  have heq : (ends.flatMap fun e => (net.world (T.node e)).delivered e)
      = (ends.flatMap fun e => (net.world (T.node e)).taken e).map Prod.snd := by
    rw [List.map_flatMap]
    exact List.flatMap_congr fun e _ => delivered_eq (hinv.worlds _) e
  rw [heq]
  have hpayloads := subperm_filterMap (taken_subperm hreach hnodup hends) (some ∘ Prod.snd)
  rw [List.filterMap_eq_map] at hpayloads
  refine hpayloads.trans ?_
  refine ((hledger.roundRobin hmode).map Prod.snd).subperm.trans ?_
  rw [map_snd_stamps, ← (hledger.atMostOnce hdelivery).transmitted, List.map_append, List.map_map]
  exact (List.sublist_append_left _ _).subperm

theorem handedOver_once :
    ([false].flatMap fun e => ((handedOver .atMostOnce).world e).delivered e).Subperm
      (((handedOver .atMostOnce).world true).sends.map Prod.snd) :=
  delivered_once (n := true) (reachable_handedOver .atMostOnce) rfl rfl
    (List.nodup_singleton false) fun e he => by rw [List.mem_singleton.mp he]; rfl

/-- **A DATA_REQ is delivered once.** In every reachable state, take a node that has transmitted
fewer than `2 ^ 64` times, and any different connections of it. The DATA_REQs that the brokers at
their other ends have taken from them, all together, have different ids, each given out by the node:
a retransmission is a DATA_REQ with another id. -/
theorem requests_delivered_once (hreach : (network T).Reachable net) {n : N}
    (hcount : (transmitted (net.effects n)).length < 2 ^ 64) {ends : List E}
    (hnodup : ends.Nodup) (hends : ∀ e ∈ ends, T.node (T.peer e) = n) :
    (ends.flatMap fun e => ((net.world (T.node e)).taken e).filterMap Prod.fst).Nodup ∧
    ∀ e ∈ ends, ∀ msgId ∈ ((net.world (T.node e)).taken e).filterMap Prod.fst,
      msgId ∈ issued (net.effects n) := by
  have hinv := inv_of_reachable hreach
  have hledger := ledger_of_reachable (hinv.worlds n)
  have hsub : (ends.flatMap fun e => ((net.world (T.node e)).taken e).filterMap Prod.fst).Subperm
      (issued (net.effects n)) := by
    rw [← List.filterMap_flatMap]
    exact (subperm_filterMap (taken_subperm hreach hnodup hends) _).trans hledger.requests.subperm
  refine ⟨?_, fun e he msgId hid => hsub.subset (List.mem_flatMap.mpr ⟨e, he, hid⟩)⟩
  obtain ⟨ids, hperm, hsublist⟩ := hsub
  exact hperm.nodup_iff.mp ((hinv.nodup hcount).sublist hsublist)

theorem handedOver_request :
    (((handedOver .atLeastOnce).world false).taken false).filterMap Prod.fst
      = [Broker.msgIdOf (List.Vector.replicate 8 0) 0] ∧
    ∀ msgId ∈ (((handedOver .atLeastOnce).world false).taken false).filterMap Prod.fst,
      msgId ∈ issued ((handedOver .atLeastOnce).effects true) :=
  ⟨rfl, (requests_delivered_once (n := true) (reachable_handedOver .atLeastOnce) (by decide)
    (List.nodup_singleton false) fun e he => by rw [List.mem_singleton.mp he]; rfl).2 false
      (List.mem_singleton_self false)⟩

end Nodes

end Network

end Aiomsg
