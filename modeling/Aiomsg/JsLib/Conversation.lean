import Aiomsg.JsLib.Delivery
import Aiomsg.JsLib.Output
import Aiomsg.ListBroker.InOrder

/-!
# Two JavaScript sockets in conversation

A connection of one socket and a connection of another are the two ends of a stream if what has
come in at either end is the beginning of what was written at the other. Then what one application
hands over and what the other one gets can be compared, through both codecs, both connections and
both brokers.

No order of the two sockets' steps is given, and none is needed. Each of them has been through a run
of its own, and the bytes say all that one may know of the other.

## Main results

* `Socket.heard` — what a connection passes on is what the broker at the other end has put out
* `Socket.conversation`

## Scope

* What lies between the ends is TCP, TLS or a WebSocket, and is not here. It may be slow, it may cut
  the bytes anyhow, and it may break off; it does not lose bytes in the middle or invent any.
* A frame of `2 ^ 32` bytes or more is not written in Node, where the builder throws, and is written
  with a wrong length in the browser. So the envelopes written are assumed to be shorter.
* A socket may have other connections, to anyone, and nothing is said of these.
-/

namespace Aiomsg

/-- What a broker puts out has no version to get wrong. -/
theorem Envelope.encodable_of_kind {e : Envelope Bytes}
    (h : e.message?.isSome = true ∨ e.ack?.isSome = true) : e.Encodable := by
  cases e with
  | hello | heartbeat => rcases h with h | h <;> cases h
  | data | dataReq | ack => trivial

namespace JsLib

/-- The bytes of a frame; `none` stands for the `RangeError`. -/
def Platform.frameOf : Platform → Envelope Bytes → Option Bytes
  | .node, e => JsLib.frameOf e
  | .browser, e => some (BrowserLib.frameOf e)

theorem Platform.frameOf_eq (p : Platform) {e : Envelope Bytes} (h : e.Fits) :
    p.frameOf e = some e.frame := by
  cases p with
  | node => exact JsLib.frameOf_eq h
  | browser => exact congrArg some (BrowserLib.frameOf_eq e)

/-- The bytes that a connection has written. A frame whose builder throws is not among them. -/
def Conn.outbound (p : Platform) (k : Conn) : Bytes := (k.sent.filterMap p.frameOf).flatten

theorem Conn.outbound_eq (p : Platform) {k : Conn} (h : ∀ e ∈ k.sent, e.Fits) :
    k.outbound p = (k.sent.map Envelope.frame).flatten := by
  rw [outbound, ← List.filterMap_eq_map]
  exact congrArg List.flatten (List.filterMap_congr fun e he => p.frameOf_eq (h e he))

namespace Socket

/-! ### What the application gets through a connection -/

/-- What the application has got, or finds in its inbox, of what one connection has passed on.

A message in the inbox comes with an identity and not with a connection. But the inbox and the
events agree entry by entry (`messages_of_run`), so the events tell which connection it was. -/
def gotBy (s : Socket) (c : ℕ) : List (Bytes × Identity) :=
  (((s.events.filterMap Served.Event.delivery?).zip (s.inbox.received ++ s.inbox.items)).filter
    fun g => g.1.1 = c).map Prod.snd

section Got

variable {p : Platform} {env : Outside} {s : Socket} {c : ℕ}

/-- The payloads that a connection passes on are those of its envelopes. -/
theorem deliveries_eq (s : Socket) (c : ℕ) :
    ((s.events.filterMap Served.Event.delivery?).filter fun d => d.1 = c).map Prod.snd =
      ((s.passed c).filterMap Envelope.message?).map Prod.snd := by
  rw [passed, List.filter_filterMap, List.map_filterMap, List.filterMap_filterMap,
    List.map_filterMap]
  refine List.filterMap_congr fun e _ => ?_
  cases e with
  | received conn envelope =>
    by_cases hconn : conn = c
    · cases envelope <;> simp [Served.Event.delivery?, passedOn?, Envelope.message?, hconn]
    · cases envelope <;> simp [Served.Event.delivery?, passedOn?, hconn]
  | send | register | unregister | expire | close => rfl

theorem map_fst_gotBy {id : Identity} {sendMode : SendMode} {delivery : DeliveryGuarantee}
    {as : List Action} (hrun : (machine p env).run (new id sendMode delivery) as = some s) (c : ℕ) :
    (s.gotBy c).map Prod.fst = ((s.passed c).filterMap Envelope.message?).map Prod.snd := by
  rw [← deliveries_eq, gotBy]
  have hmessages := messages_of_run hrun
  generalize s.events.filterMap Served.Event.delivery? = ds at hmessages ⊢
  generalize s.inbox.received ++ s.inbox.items = ms at hmessages ⊢
  induction hmessages with
  | nil => rfl
  | @cons d m ds ms h _ ih =>
    by_cases hd : d.1 = c
    · simpa [hd, h.1] using ih
    · simpa [hd] using ih

/-- The application is told the identity that the connection's HELLO gave. -/
theorem registered_of_gotBy {id : Identity} {sendMode : SendMode} {delivery : DeliveryGuarantee}
    {as : List Action} (hrun : (machine p env).run (new id sendMode delivery) as = some s)
    {m : Bytes × Identity} (hm : m ∈ s.gotBy c) :
    Served.registeredAs s.events c = some m.2 := by
  obtain ⟨g, hg, rfl⟩ := List.mem_map.mp hm
  obtain ⟨hzip, hconn⟩ := List.mem_filter.mp hg
  have hpair := (List.forall₂_iff_zip.mp (messages_of_run hrun)).2 hzip
  rw [← show g.1.1 = c by simpa using hconn]
  exact hpair.2

/-- Nothing is got through a connection that has not had a HELLO. -/
theorem handshaked_of_gotBy {id : Identity} {sendMode : SendMode} {delivery : DeliveryGuarantee}
    {as : List Action} (hrun : (machine p env).run (new id sendMode delivery) as = some s)
    {m : Bytes × Identity} (hm : m ∈ s.gotBy c) : (s.conn c).handshaked = true := by
  by_contra hnew
  have henvelopes := envelopes_of_run hrun c
  rw [if_neg hnew] at henvelopes
  have hgot := map_fst_gotBy hrun c
  rw [henvelopes.1] at hgot
  rw [List.map_eq_nil_iff.mp hgot] at hm
  exact absurd hm List.not_mem_nil

end Got

/-! ### One direction -/

section Heard

variable {p q : Platform} {env env' : Outside} {s t : Socket} {c d : ℕ} {id id' : Identity}
  {sendMode sendMode' : SendMode} {delivery delivery' : DeliveryGuarantee} {as as' : List Action}

/-- What a connection writes is what the builders are made for, as long as it is short enough. -/
theorem fits_of_run (hrun : (machine p env).run (new id sendMode delivery) as = some s)
    (hshort : ∀ e ∈ (s.conn c).sent, e.body.length < 2 ^ 32) : ∀ e ∈ (s.conn c).sent, e.Fits := by
  intro e he
  refine ⟨?_, hshort e he⟩
  have hwired := wired_of_run hrun
  by_cases hheartbeat : e = .heartbeat
  · rw [hheartbeat]
    trivial
  cases hstarted : (s.conn c).started with
  | false =>
    rw [(hwired.idle c hstarted).2.1] at he
    exact absurd he List.not_mem_nil
  | true =>
    obtain ⟨rest, hrest, -⟩ := hwired.spoken c hstarted
    have hspoken : e ∈ (s.conn c).spoken := List.mem_filter.mpr ⟨he, by simpa using hheartbeat⟩
    have hmem : e ∈ .hello Protocol.protocolVersion s.id :: s.outFor c :=
      hrest ▸ List.mem_append_left rest hspoken
    rcases List.mem_cons.mp hmem with rfl | hout
    · rfl
    · obtain ⟨f, hf, rfl⟩ := List.mem_map.mp hout
      have hkinds := Served.kinds_of_run (traced_of_run hrun).run
      exact Envelope.encodable_of_kind (hkinds f (List.mem_of_mem_filter hf))

/-- **What a connection passes on is what the broker at the other end has put out for it**, as far
as it has come; all of it, once all bytes have come and both ends are live. It comes under the
identity of the socket at the other end. -/
theorem heard (hs : (machine p env).run (new id sendMode delivery) as = some s)
    (ht : (machine q env').run (new id' sendMode' delivery') as' = some t)
    (hbytes : (t.conn d).inbound <+: (s.conn c).outbound p)
    (hshort : ∀ e ∈ (s.conn c).sent, e.body.length < 2 ^ 32) :
    ((t.conn d).handshaked = true → Served.registeredAs t.events d = some id) ∧
      ∃ rest, s.outFor c = (t.passed d).filter (· ≠ .heartbeat) ++ rest ∧
        ((t.conn d).inbound = (s.conn c).outbound p → (s.conn c).live = true →
          (t.conn d).live = true → rest = []) := by
  have hfits := fits_of_run hs hshort
  have hwired := wired_of_run hs
  have hrun := envelopes_of_run ht d
  rw [Conn.outbound_eq p hfits] at hbytes ⊢
  have hsent : recognised (t.conn d).inbound <+: (s.conn c).sent :=
    recognised_of_prefix hfits hbytes
  cases hhandshaked : (t.conn d).handshaked with
  | false =>
    rw [hhandshaked, if_neg (by simp)] at hrun
    obtain ⟨hpassed, hnone⟩ := hrun
    refine ⟨fun h => absurd h (by simp), s.outFor c, by rw [hpassed]; rfl, ?_⟩
    intro hall hlive hlive'
    -- All has come and no envelope is in it, so nothing was written.
    have hempty : (s.conn c).sent = [] := by
      rw [← recognised_frames hfits, ← hall]
      exact hnone hlive'
    cases hstarted : (s.conn c).started with
    | false => exact (hwired.idle c hstarted).1
    | true =>
      obtain ⟨rest, hrest, hrest'⟩ := hwired.spoken c hstarted
      rw [hrest' hlive, Conn.spoken, hempty] at hrest
      cases hrest
  | true =>
    rw [hhandshaked, if_pos rfl] at hrun
    obtain ⟨identity, behind, hregistered, hrecognised, hbehind⟩ := hrun
    have hstarted : (s.conn c).started = true := by
      by_contra hnew
      rw [(hwired.idle c (by simpa using hnew)).2.1, hrecognised] at hsent
      exact absurd (List.prefix_nil.mp hsent) (by simp)
    obtain ⟨rest, hrest, hrest'⟩ := hwired.spoken c hstarted
    obtain ⟨more, hmore⟩ := hsent.filter (· ≠ .heartbeat)
    have hsplit : .hello Protocol.protocolVersion id :: s.outFor c =
        .hello Protocol.protocolVersion identity ::
          ((t.passed d).filter (· ≠ .heartbeat) ++
            (behind.filter (· ≠ .heartbeat) ++ more ++ rest)) := by
      rw [← id_of_run hs, hrest, Conn.spoken, ← hmore, hrecognised]
      simp
    obtain ⟨hhello, hout⟩ := List.cons.inj hsplit
    obtain rfl : id = identity := by simpa using hhello
    refine ⟨fun _ => hregistered, _, hout, ?_⟩
    intro hall hlive hlive'
    have hwhole : recognised (t.conn d).inbound = (s.conn c).sent := by
      rw [hall, recognised_frames hfits]
    rw [hwhole] at hmore
    rw [hbehind hlive', List.append_right_eq_self.mp hmore, hrest' hlive]
    rfl

end Heard

/-! ### Both directions -/

/-- Two connections are the ends of a stream: what has come in at either is the beginning of what
was written at the other.

This is about the two sockets as they are now, and says nothing of when a byte was written and when
it came in. It holds at every moment of two sockets with a stream between them. -/
structure Joined (p q : Platform) (s t : Socket) (c d : ℕ) : Prop where
  there : (t.conn d).inbound <+: (s.conn c).outbound p
  back : (s.conn c).inbound <+: (t.conn d).outbound q

section Both

variable {p q : Platform} {env env' : Outside} {s t : Socket} {c d : ℕ} {id id' : Identity}
  {sendMode sendMode' : SendMode} {delivery delivery' : DeliveryGuarantee} {as as' : List Action}

theorem payloadsOf_framesFor (s : Socket) (c : ℕ) :
    payloadsOf (framesFor c s.served.out) =
      ((s.outFor c).filterMap Envelope.message?).map Prod.snd := by
  rw [outFor, List.filterMap_map]
  rfl

/-- Heartbeats are no messages. -/
theorem filterMap_message_filter (es : List (Envelope Bytes)) :
    (es.filter (· ≠ .heartbeat)).filterMap Envelope.message? = es.filterMap Envelope.message? := by
  rw [List.filterMap_filter]
  refine List.filterMap_congr fun e _ => ?_
  cases e <;> rfl

theorem eq_of_request {e : Served.Event ℕ Bytes} {c : ℕ} {msgId : MsgId}
    (h : e.request? = some (c, msgId)) : ∃ payload, e = .received c (.dataReq msgId payload) := by
  unfold Served.Event.request? at h
  split at h
  · rename_i payload
    cases h
    exact ⟨payload, rfl⟩
  · cases h

/-- An ACK that goes out on a connection answers a message that came in on it. -/
theorem requested_of_ack (hrun : (machine p env).run (new id sendMode delivery) as = some s)
    {msgId : MsgId} (h : .ack msgId ∈ s.outFor c) :
    ∃ payload, .dataReq msgId payload ∈ s.passed c := by
  have htraced := traced_of_run hrun
  have houtgoing := (Served.healthy_of_run htraced.run (Served.healthy_new ..)).outgoing
  obtain ⟨⟨conn, frame⟩, hframe, rfl⟩ := List.mem_map.mp h
  obtain ⟨hout, hconn⟩ := List.mem_filter.mp hframe
  obtain rfl : conn = c := by simpa using hconn
  have hack : (conn, msgId) ∈ acksOf s.served.out := List.mem_filterMap.mpr ⟨_, hout, rfl⟩
  have hdue : (conn, msgId) ∈ s.events.filterMap Served.Event.request? := by
    rw [← show s.served.due = s.events.filterMap Served.Event.request? from
      (Served.logs_of_run htraced.run).due]
    exact houtgoing.acks_sublist.subset hack
  obtain ⟨e, he, hrequest⟩ := List.mem_filterMap.mp hdue
  obtain ⟨payload, rfl⟩ := eq_of_request hrequest
  exact ⟨payload, List.mem_filterMap.mpr ⟨_, he, by rw [passedOn?, if_pos rfl]⟩⟩

/-- **What is said at one end is heard at the other.** Let two sockets have come through runs of
their own, and let a connection of each be the ends of a stream. What the one application gets
through its connection comes under the other socket's identity. It is what the other broker has put
out for this connection, in order and as far as the bytes have come: all of it when they all have
and both ends are live. With `AtMostOnce` it is a part of what the other application sent, in order
and each message once. And an ACK is passed on only for a message that the application got. -/
theorem conversation (hs : (machine p env).run (new id sendMode delivery) as = some s)
    (ht : (machine q env').run (new id' sendMode' delivery') as' = some t)
    (hjoined : Joined p q s t c d)
    (hshort : ∀ e ∈ (s.conn c).sent, e.body.length < 2 ^ 32)
    (hshort' : ∀ e ∈ (t.conn d).sent, e.body.length < 2 ^ 32) :
    (∀ m ∈ t.gotBy d, m.2 = id) ∧
      (t.gotBy d).map Prod.fst <+: payloadsOf (framesFor c s.served.out) ∧
      ((t.conn d).inbound = (s.conn c).outbound p → (s.conn c).live = true →
        (t.conn d).live = true →
          (t.gotBy d).map Prod.fst = payloadsOf (framesFor c s.served.out)) ∧
      (delivery = .atMostOnce →
        ((t.gotBy d).map Prod.fst).Sublist ((as.filterMap Action.send?).map Prod.snd)) ∧
      ∀ msgId, .ack msgId ∈ s.passed c →
        ∃ payload, .dataReq msgId payload ∈ s.outFor c ∧ (payload, id) ∈ t.gotBy d := by
  obtain ⟨hidentity, rest, hout, hrest⟩ := heard hs ht hjoined.there hshort
  obtain ⟨-, rest', hout', -⟩ := heard ht hs hjoined.back hshort'
  have hpayloads : payloadsOf (framesFor c s.served.out) =
      (t.gotBy d).map Prod.fst ++ (rest.filterMap Envelope.message?).map Prod.snd := by
    rw [payloadsOf_framesFor, hout, List.filterMap_append, filterMap_message_filter,
      List.map_append, map_fst_gotBy ht]
  have hprefix : (t.gotBy d).map Prod.fst <+: payloadsOf (framesFor c s.served.out) :=
    ⟨_, hpayloads.symm⟩
  have hsender (m : Bytes × Identity) (hm : m ∈ t.gotBy d) : m.2 = id := by
    have hregistered := registered_of_gotBy ht hm
    rw [hidentity (handshaked_of_gotBy ht hm)] at hregistered
    exact (Option.some.inj hregistered).symm
  refine ⟨hsender, hprefix, ?_, ?_, ?_⟩
  · intro hall hlive hlive'
    rw [hpayloads, hrest hall hlive hlive']
    exact (List.append_nil _).symm
  · rintro rfl
    have hsends := Served.payloads_sublist (traced_of_run hs).run c
    rw [sends_of_run hs] at hsends
    exact hprefix.sublist.trans hsends
  · intro msgId hack
    have hmem : .ack msgId ∈ t.outFor d := by
      rw [hout']
      exact List.mem_append_left _ (List.mem_filter.mpr ⟨hack, by simp⟩)
    obtain ⟨payload, hrequest⟩ := requested_of_ack ht hmem
    refine ⟨payload, ?_, ?_⟩
    · rw [hout]
      exact List.mem_append_left _ (List.mem_filter.mpr ⟨hrequest, by simp⟩)
    · have hgot : payload ∈ (t.gotBy d).map Prod.fst := by
        rw [map_fst_gotBy ht]
        exact List.mem_map.mpr ⟨_, List.mem_filterMap.mpr ⟨_, hrequest, rfl⟩, rfl⟩
      obtain ⟨m, hm, rfl⟩ := List.mem_map.mp hgot
      rw [← hsender m hm]
      exact hm

end Both

/-- A socket that asks for an ACK for everything it sends, and has got them. -/
def asker : Option Socket :=
  let msgId := Served.tellingIds.msgId
  (machine .node Served.tellingIds).run
    (new (List.Vector.replicate 16 1) .roundRobin .atLeastOnce)
    [.connect false false, .data 0 (Protocol.hello (List.Vector.replicate 16 2)), .send none [5],
      .send none [6], .data 0 (Protocol.ack (msgId 0) ++ [0, 0]),
      .data 0 ((Protocol.ack (msgId 1)).drop 2 ++ Protocol.data [7] ++ [0])]

/-- The socket that it talks to. What comes to it is cut in the first and in the last frame. -/
def answerer : Option Socket :=
  let msgId := Served.tellingIds.msgId
  let hello := Protocol.hello (List.Vector.replicate 16 1)
  (machine .node Served.tellingIds).run
    (new (List.Vector.replicate 16 2) .roundRobin .atMostOnce)
    [.accepted (some (hello.take 3)),
      .data 0 (hello.drop 3 ++ Protocol.dataReq (msgId 0) [5] ++
        (Protocol.dataReq (msgId 1) [6]).take 9),
      .take, .data 0 ((Protocol.dataReq (msgId 1) [6]).drop 9), .send none [7], .tick 5000,
      .heartbeat 0]

theorem conversation_both_ways :
    ∃ s t, asker = some s ∧ answerer = some t ∧
      t.gotBy 0 = [([5], List.Vector.replicate 16 1), ([6], List.Vector.replicate 16 1)] ∧
      (t.gotBy 0).map Prod.fst = payloadsOf (framesFor 0 s.served.out) ∧
      (∃ payload, .dataReq (Served.tellingIds.msgId 1) payload ∈ s.outFor 0 ∧
        (payload, List.Vector.replicate 16 1) ∈ t.gotBy 0) ∧
      s.gotBy 0 = [([7], List.Vector.replicate 16 2)] ∧
      ((s.gotBy 0).map Prod.fst).Sublist [[7]] := by
  have hthere := conversation (show asker = some _ from rfl) (show answerer = some _ from rfl)
    (c := 0) (d := 0) ⟨⟨[], rfl⟩, ⟨[0, 0, 1, 2], rfl⟩⟩ (by decide) (by decide)
  have hback := conversation (show answerer = some _ from rfl) (show asker = some _ from rfl)
    (c := 0) (d := 0) ⟨⟨[0, 0, 1, 2], rfl⟩, ⟨[], rfl⟩⟩ (by decide) (by decide)
  refine ⟨_, _, rfl, rfl, rfl, hthere.2.2.1 rfl rfl rfl, ?_, rfl, hback.2.2.2.1 rfl⟩
  exact hthere.2.2.2.2 _ (by decide)

end Socket

end JsLib

end Aiomsg
