import Aiomsg.JsLib.Trace

/-!
# What a JavaScript socket receives

However the runtime cuts a connection's bytes, the connection passes the same envelopes on to the
broker: the recognised ones behind the HELLO, which comes first. They are all there as soon as their
last byte is, as long as the connection is live.

From the broker the payloads go to the inbox, each with the identity that its connection's HELLO
gave, and the application's promises are served in order.

An envelope is passed on because the connection is on the broker's list. `Roster` is what connects
the list with the connections' own flags.

## Scope

"Delivered" is up to the promise. A payload that no call of `recv` asks for stays in the inbox, and
after `close` what is there is still handed out. Nothing is said of how long the bytes take: a chunk
is what the runtime calls back with.

The bytes are those behind the sniff, with the bytes that the sniff has put back in front of them,
and below a WebSocket they are the payloads of its frames.

## Main results

* `Socket.Reads` — how far a connection has come in its bytes
* `Socket.sound_of_run` — no action loses, repeats or reorders an envelope
* `Socket.envelopes_of_run` — bytes come to a HELLO and what is passed on
* `Socket.delivered_to_application`
-/

namespace Aiomsg

namespace JsLib

/-- A frame at the front of a buffer, whatever is behind it. -/
theorem recognised_of_pop {d d' : Decoder} {envelope : Bytes} (h : d.pop = some (envelope, d'))
    (more : Bytes) :
    recognised (d.buf ++ more) =
      (parseEnvelope envelope).toList ++ recognised (d'.buf ++ more) := by
  rw [Decoder.pop_eq] at h
  cases hparse : LengthPrefix.deframer.parse d.buf with
  | more =>
    rw [hparse] at h
    cases h
  | item body rest =>
    rw [hparse] at h
    cases h
    have hitem := LengthPrefix.deframer.item_append more hparse
    rw [recognised, recognised, Deframer.items_of_item hitem, List.filterMap_cons]
    cases parseEnvelope envelope <;> rfl
  | stop c => exact c.elim

theorem length_of_pop {d d' : Decoder} {envelope : Bytes} (h : d.pop = some (envelope, d')) :
    d'.buf.length < d.buf.length := by
  unfold Decoder.pop at h
  simp only at h
  split_ifs at h with hshort hpart
  cases h
  rw [List.length_drop]
  omega

/-- Nothing is at hand when there is no complete frame. -/
theorem recognised_of_pop_none {d : Decoder} (h : d.pop = none) : recognised d.buf = [] := by
  rw [Decoder.pop_eq] at h
  cases hparse : LengthPrefix.deframer.parse d.buf with
  | more => rw [recognised, Deframer.items_of_more hparse, List.filterMap_nil]
  | item body rest =>
    rw [hparse] at h
    cases h
  | stop c => exact c.elim

/-- The envelope that a connection passes on with an event. -/
def passedOn? (c : ℕ) : Served.Event ℕ Bytes → Option (Envelope Bytes)
  | .received conn envelope => if conn = c then some envelope else none
  | _ => none

/-- A connection that stays what it is, unless it comes to its end. -/
structure Conn.Kin (k k' : Conn) : Prop where
  owned : k'.owned = k.owned
  handshaked : k'.handshaked = k.handshaked
  live : k'.live = true → k.live = true

theorem Conn.Kin.refl (k : Conn) : k.Kin k := ⟨rfl, rfl, fun h => h⟩

theorem Conn.Kin.trans {k k' k'' : Conn} (h : k.Kin k') (h' : k'.Kin k'') : k.Kin k'' :=
  ⟨h'.owned.trans h.owned, h'.handshaked.trans h.handshaked, fun hk => h.live (h'.live hk)⟩

namespace Socket

/-- What a connection has passed on to the broker. -/
def passed (s : Socket) (c : ℕ) : List (Envelope Bytes) := s.events.filterMap (passedOn? c)

/-- The broker's list and the connections' flags. -/
structure Roster (s : Socket) : Prop where
  table : s.served.Table
  started : ∀ c ∈ s.served.started, (s.conn c).handshaked = true
  listed : ∀ c, (s.conn c).handshaked = true → (s.conn c).owned = true →
    c ∈ s.served.conns.map Prod.snd
  owned : ∀ e ∈ s.served.conns, (s.conn e.2).owned = true ∧ (s.conn e.2).handshaked = true
  below : ∀ c, (s.conn c).handshaked = true ∨ (s.conn c).owned = true → c < s.count
  alive : ∀ c, (s.conn c).live = true → (s.conn c).owned = true

/-- How far a connection has come in its bytes: it registered as its HELLO says, what it passed on
are the envelopes behind the HELLO, then comes the `front`, and the decoder has the rest.

`more` stands for all bytes that may follow. The equations hold whatever it is, so bytes that arrive
need no lemma of their own: they are the beginning of `more`. -/
structure Reads (front : List (Envelope Bytes)) (s : Socket) (c : ℕ) : Prop where
  opened : (s.conn c).handshaked = true → ∃ identity,
    Served.registeredAs s.events c = some identity ∧
      ∀ more, recognised ((s.conn c).inbound ++ more) =
        .hello Protocol.protocolVersion identity ::
          (s.passed c ++ (front ++ recognised ((s.conn c).decoder.buf ++ more)))
  silent : (s.conn c).handshaked = false →
    s.passed c = [] ∧ Served.registeredAs s.events c = none
  fresh : (s.conn c).handshaked = false → (s.conn c).live = true →
    ∀ more, recognised ((s.conn c).inbound ++ more) =
      front ++ recognised ((s.conn c).decoder.buf ++ more)

section Roster

variable {s s' : Socket}

theorem roster_new (id : Identity) (sendMode : SendMode) (delivery : DeliveryGuarantee) :
    Roster (new id sendMode delivery) where
  table := Served.table_new sendMode delivery 0
  started _ h := absurd h List.not_mem_nil
  listed _ h := Bool.noConfusion h
  owned _ h := absurd h List.not_mem_nil
  below _ h := h.elim (fun h => Bool.noConfusion h) fun h => Bool.noConfusion h
  alive _ h := Bool.noConfusion h

/-- The list is what it was, and the connections are. -/
theorem Roster.congr (h : Roster s) (hconns : s'.served.conns = s.served.conns)
    (hstarted : s'.served.started = s.served.started) (hcount : s'.count = s.count)
    (hkin : ∀ c, (s.conn c).Kin (s'.conn c)) : Roster s' where
  table := h.table.of_sublist (by rw [hconns]) hstarted
  started := by
    rw [hstarted]
    exact fun c hc => (hkin c).handshaked.trans (h.started c hc)
  listed c hc howned := by
    rw [hconns]
    exact h.listed c ((hkin c).handshaked.symm.trans hc) ((hkin c).owned.symm.trans howned)
  owned := by
    rw [hconns]
    exact fun e he => ⟨(hkin e.2).owned.trans (h.owned e he).1,
      (hkin e.2).handshaked.trans (h.owned e he).2⟩
  below c := by
    rw [hcount, (hkin c).handshaked, (hkin c).owned]
    exact h.below c
  alive c hc := (hkin c).owned.trans (h.alive c ((hkin c).live hc))

/-- A connection that nothing came of. -/
theorem Reads.congr {front : List (Envelope Bytes)} {c : ℕ} (h : Reads front s c)
    (hkin : (s.conn c).Kin (s'.conn c)) (hdecoder : (s'.conn c).decoder = (s.conn c).decoder)
    (hinbound : (s'.conn c).inbound = (s.conn c).inbound) (hpassed : s'.passed c = s.passed c)
    (hregistered : Served.registeredAs s'.events c = Served.registeredAs s.events c) :
    Reads front s' c where
  opened hc := by
    rw [hinbound, hdecoder, hpassed, hregistered]
    exact h.opened (hkin.handshaked.symm.trans hc)
  silent hc := by
    rw [hpassed, hregistered]
    exact h.silent (hkin.handshaked.symm.trans hc)
  fresh hc hlive := by
    rw [hinbound, hdecoder]
    exact h.fresh (hkin.handshaked.symm.trans hc) (hkin.live hlive)

/-- A change to one connection. -/
theorem kin_modify (s : Socket) (c : ℕ) {f : Conn → Conn} (h : (s.conn c).Kin (f (s.conn c)))
    (c' : ℕ) : (s.conn c').Kin ((s.modify c f).conn c') := by
  by_cases hc : c' = c
  · rw [hc, modify_conn_self]
    exact h
  · rw [modify_conn_of_ne s hc]
    exact .refl _

end Roster

/-! ### What has nothing to do with it -/

/-- What callbacks do that is of no consequence for what is received. -/
structure Aside (s s' : Socket) : Prop where
  conns : s'.served.conns = s.served.conns
  started : s'.served.started = s.served.started
  count : s'.count = s.count
  kin : ∀ c, (s.conn c).Kin (s'.conn c)
  decoder : ∀ c, (s'.conn c).decoder = (s.conn c).decoder
  inbound : ∀ c, (s'.conn c).inbound = (s.conn c).inbound
  passed : ∀ c, s'.passed c = s.passed c
  registered : ∀ c, Served.registeredAs s'.events c = Served.registeredAs s.events c

theorem Aside.refl (s : Socket) : Aside s s :=
  ⟨rfl, rfl, rfl, fun _ => .refl _, fun _ => rfl, fun _ => rfl, fun _ => rfl, fun _ => rfl⟩

theorem Aside.trans {s s' s'' : Socket} (h : Aside s s') (h' : Aside s' s'') : Aside s s'' where
  conns := h'.conns.trans h.conns
  started := h'.started.trans h.started
  count := h'.count.trans h.count
  kin c := (h.kin c).trans (h'.kin c)
  decoder c := (h'.decoder c).trans (h.decoder c)
  inbound c := (h'.inbound c).trans (h.inbound c)
  passed c := (h'.passed c).trans (h.passed c)
  registered c := (h'.registered c).trans (h.registered c)

section Aside

variable {s s' : Socket}

theorem Roster.aside (h : Roster s) (ha : Aside s s') : Roster s' :=
  h.congr ha.conns ha.started ha.count ha.kin

theorem Reads.aside {front : List (Envelope Bytes)} {c : ℕ} (h : Reads front s c)
    (ha : Aside s s') : Reads front s' c :=
  h.congr (ha.kin c) (ha.decoder c) (ha.inbound c) (ha.passed c) (ha.registered c)

theorem aside_modify (s : Socket) (c : ℕ) {f : Conn → Conn} (hkin : (s.conn c).Kin (f (s.conn c)))
    (hdecoder : (f (s.conn c)).decoder = (s.conn c).decoder)
    (hinbound : (f (s.conn c)).inbound = (s.conn c).inbound) : Aside s (s.modify c f) := by
  refine ⟨rfl, rfl, rfl, kin_modify s c hkin, fun c' => ?_, fun c' => ?_, fun _ => rfl,
    fun _ => rfl⟩
  · by_cases hc : c' = c
    · rw [hc, modify_conn_self, hdecoder]
    · rw [modify_conn_of_ne s hc]
  · by_cases hc : c' = c
    · rw [hc, modify_conn_self, hinbound]
    · rw [modify_conn_of_ne s hc]

theorem aside_write (p : Platform) (s : Socket) (c : ℕ) (frame : Envelope Bytes) :
    Aside s (s.write p c frame) := by
  unfold write
  split
  · exact .refl s
  · exact aside_modify s c ⟨rfl, rfl, fun h => h⟩ rfl rfl

theorem aside_resetTimeout (s : Socket) (c : ℕ) : Aside s (s.resetTimeout c) :=
  aside_modify s c ⟨rfl, rfl, fun h => h⟩ rfl rfl

theorem aside_destroy (s : Socket) (c : ℕ) : Aside s (s.destroy c) :=
  aside_modify s c ⟨rfl, rfl, fun h => Bool.noConfusion h⟩ rfl rfl

theorem aside_start (p : Platform) (s : Socket) (c : ℕ) : Aside s (s.start p c) := by
  refine Aside.trans (Aside.trans ?_ (aside_write p _ c _)) (aside_resetTimeout _ c)
  exact aside_modify s c ⟨rfl, rfl, fun h => h⟩ rfl rfl

theorem aside_retry (s : Socket) (loop : Loop) : Aside s (s.retry loop) := by
  unfold retry
  split
  · exact .refl s
  · exact ⟨rfl, rfl, rfl, fun _ => .refl _, fun _ => rfl, fun _ => rfl, fun _ => rfl,
      fun _ => rfl⟩

end Aside

/-! ### Operations of the broker -/

/-- The broker took a step for an event. -/
structure Operated (e : Served.Event ℕ Bytes) (w : Served ℕ ℕ Bytes) (s s' : Socket) : Prop where
  served : s'.served = w
  events : s'.events = s.events ++ [e]
  count : s'.count = s.count
  kin : ∀ c, (s.conn c).Kin (s'.conn c)
  decoder : ∀ c, (s'.conn c).decoder = (s.conn c).decoder
  inbound : ∀ c, (s'.conn c).inbound = (s.conn c).inbound
  live : ∀ c, (s'.conn c).live = (s.conn c).live

section Operated

variable {p : Platform} {env : Outside} {s s' : Socket} {e : Served.Event ℕ Bytes}
  {w : Served ℕ ℕ Bytes}

theorem live_writeAll (p : Platform) (s : Socket) (frames : List (ℕ × Envelope Bytes)) (c : ℕ) :
    ((s.writeAll p frames).conn c).live = (s.conn c).live := by
  induction frames generalizing s with
  | nil => rfl
  | cons f rest ih =>
    refine (ih (s.write p f.1 f.2)).trans ?_
    unfold write
    split
    · rfl
    · by_cases hc : c = f.1
      · rw [hc, modify_conn_self]
      · rw [modify_conn_of_ne s hc]

theorem aside_writeAll (p : Platform) (s : Socket) (frames : List (ℕ × Envelope Bytes)) :
    Aside s (s.writeAll p frames) := by
  induction frames generalizing s with
  | nil => exact .refl s
  | cons f rest ih => exact (aside_write p s f.1 f.2).trans (ih _)

theorem operated (h : s.served.step p.port env e = some w) :
    Operated e w s (s.operate p env e) := by
  unfold operate
  rw [h]
  simp only
  generalize hbase : ({ s with
      served := w
      inbox := (w.inbox.drop s.served.inbox.length).foldl Inbox.push s.inbox
      events := s.events ++ [e] } : Socket) = t
  obtain ⟨conn, hconn⟩ := exists_conn_writeAll p t (w.out.drop s.served.out.length)
  have haside := aside_writeAll p t (w.out.drop s.served.out.length)
  have hlive := live_writeAll p t (w.out.drop s.served.out.length)
  subst hbase
  exact ⟨congrArg Socket.served hconn, congrArg Socket.events hconn, haside.count, haside.kin,
    haside.decoder, haside.inbound, hlive⟩

/-- What an event adds to what a connection passed on. -/
theorem Operated.passed (h : Operated e w s s') (c : ℕ) :
    s'.passed c = s.passed c ++ (passedOn? c e).toList := by
  rw [Socket.passed, Socket.passed, h.events, List.filterMap_append]
  rfl

theorem Operated.registered (h : Operated e w s s') {c : ℕ} (he : e.registered? c = none) :
    Served.registeredAs s'.events c = Served.registeredAs s.events c := by
  rw [h.events]
  exact Served.registeredAs_snoc he

/-- What an event means for a connection that it is not about. -/
theorem Operated.reads (h : Operated e w s s') {front : List (Envelope Bytes)} {c : ℕ}
    (hreads : Reads front s c) (hpassed : passedOn? c e = none)
    (hregistered : e.registered? c = none) :
    Reads front s' c := by
  refine hreads.congr (h.kin c) (h.decoder c) (h.inbound c) ?_ (h.registered hregistered)
  rw [h.passed, hpassed]
  exact List.append_nil _

/-- Operations that neither register nor unregister leave the list alone. -/
theorem conns_step_of_idle (P : Variant ℕ Bytes) (env : Outside) (b : ListBroker ℕ ℕ Bytes)
    {op : ListBroker.Op ℕ Bytes} (hregister : ∀ identity conn, op ≠ .register identity conn)
    (hunregister : ∀ conn, op ≠ .unregister conn) : (b.step P env op).conns = b.conns := by
  have hsame := ListBroker.closed_sameTable (κ := ℕ) (C := ℕ) P env
  cases op with
  | send target data =>
    exact (hsame.send { b with handed := b.handed ++ [(target, data)] } target data).conns
  | register identity conn => exact absurd rfl (hregister identity conn)
  | unregister conn => exact absurd rfl (hunregister conn)
  | answer sender msgId => exact (ListBroker.routes_route P b (some sender) (.ack msgId)).conns
  | acknowledge | close => rfl
  | expire due =>
    exact (hsame.resendAll { b with pending := b.pending.filter fun e => ! due e } _).conns

/-- An operation for no connection in particular. -/
theorem aside_operate (p : Platform) (env : Outside) (s : Socket) {e : Served.Event ℕ Bytes}
    (op : ListBroker.Op ℕ Bytes)
    (he : s.served.step p.port env e = some (s.served.apply p.port env op))
    (hregister : ∀ identity conn, op ≠ .register identity conn)
    (hunregister : ∀ conn, op ≠ .unregister conn) (hpassed : ∀ c, passedOn? c e = none)
    (hregistered : ∀ c, e.registered? c = none) : Aside s (s.operate p env e) := by
  have h := operated he
  refine ⟨?_, ?_, h.count, h.kin, h.decoder, h.inbound, fun c => ?_,
    fun c => h.registered (hregistered c)⟩
  · rw [h.served]
    exact conns_step_of_idle p.port env s.served.toListBroker hregister hunregister
  · rw [h.served]
    rfl
  · rw [h.passed, hpassed]
    exact List.append_nil _

end Operated

/-! ### The bytes of a connection -/

/-- The broker's list is in order, every connection knows where it is in its bytes, and none has
left a frame that is complete, unless it has come to its end. Between two callbacks this holds of
every connection; within one it fails for the connection at work, which is what `Handling` is for.
-/
structure Sound (s : Socket) : Prop where
  roster : Roster s
  reads : ∀ c, Reads [] s c
  drained : ∀ c, (s.conn c).live = true → (s.conn c).decoder.pop = none

/-- A live connection is at work, and has something at hand. -/
structure Handling (front : List (Envelope Bytes)) (c : ℕ) (s : Socket) : Prop where
  roster : Roster s
  reads : Reads front s c
  others : ∀ c', c' ≠ c → Reads [] s c'
  drained : ∀ c', c' ≠ c → (s.conn c').live = true → (s.conn c').decoder.pop = none
  live : (s.conn c).live = true

section Frames

variable {p : Platform} {env : Outside} {s s' : Socket} {c : ℕ} {front : List (Envelope Bytes)}

theorem Sound.aside (h : Sound s) (ha : Aside s s') : Sound s' where
  roster := h.roster.aside ha
  reads c := (h.reads c).aside ha
  drained c hc := (ha.decoder c).symm ▸ h.drained c ((ha.kin c).live hc)

theorem Handling.sound (h : Handling [] c s) (hpop : (s.conn c).decoder.pop = none) : Sound s where
  roster := h.roster
  reads c' := by
    by_cases hc : c' = c
    · exact hc ▸ h.reads
    · exact h.others c' hc
  drained c' := by
    by_cases hc : c' = c
    · exact fun _ => hc ▸ hpop
    · exact h.drained c' hc

/-- A connection that does not shake hands is given up. -/
theorem Handling.destroy (h : Handling front c s) (hnew : (s.conn c).handshaked = false) :
    Sound (s.destroy c) := by
  have haside := aside_destroy s c
  have hself : ((s.destroy c).conn c).live = false := by rw [Socket.destroy, modify_conn_self]
  have hstill : ((s.destroy c).conn c).handshaked = false :=
    (haside.kin c).handshaked.trans hnew
  refine ⟨h.roster.aside haside, fun c' => ?_, fun c' hc' => ?_⟩
  · by_cases hc : c' = c
    · subst hc
      refine ⟨?_, ?_, ?_⟩
      · exact fun htrue => absurd (htrue.symm.trans hstill) (by simp)
      · exact fun hfalse => (h.reads.aside haside).silent hfalse
      · exact fun _ htrue => absurd (htrue.symm.trans hself) (by simp)
    · exact (h.others c' hc).aside haside
  · have hc : c' ≠ c := by
      rintro rfl
      exact absurd (hc'.symm.trans hself) (by simp)
    rw [haside.decoder]
    exact h.drained c' hc ((haside.kin c').live hc')

/-- A frame is taken out of the decoder. -/
theorem Handling.pop (h : Handling [] c s) {envelope : Bytes} {d : Decoder}
    (hpop : (s.conn c).decoder.pop = some (envelope, d)) :
    Handling (parseEnvelope envelope).toList c (s.modify c fun k => { k with decoder := d }) := by
  have hrecognised := recognised_of_pop hpop
  have hself : (s.modify c fun k => { k with decoder := d }).conn c =
      { s.conn c with decoder := d } := modify_conn_self ..
  have hother {c' : ℕ} (hc : c' ≠ c) :
      (s.modify c fun k => { k with decoder := d }).conn c' = s.conn c' :=
    modify_conn_of_ne s hc _
  refine ⟨?_, ⟨?_, ?_, ?_⟩, fun c' hc => ?_, fun c' hc => ?_, ?_⟩
  · exact h.roster.congr rfl rfl rfl (kin_modify s c ⟨rfl, rfl, fun h => h⟩)
  · simp only [hself, ← hrecognised]
    exact h.reads.opened
  · rw [hself]
    exact h.reads.silent
  · simp only [hself, ← hrecognised]
    exact h.reads.fresh
  · have hkin : (s.conn c').Kin ((s.modify c fun k => { k with decoder := d }).conn c') := by
      rw [hother hc]
      exact .refl _
    exact (h.others c' hc).congr hkin (by rw [hother hc]) (by rw [hother hc]) rfl rfl
  · rw [hother hc]
    exact h.drained c' hc
  · rw [hself]
    exact h.live

/-- A connection that has shaken hands passes the envelope on. -/
theorem Handling.received (p : Platform) (env : Outside) {e : Envelope Bytes}
    (h : Handling [e] c s) (hhandshaked : (s.conn c).handshaked = true) :
    Handling [] c (s.operate p env (.received c e)) := by
  have howned := h.roster.alive c h.live
  obtain ⟨entry, hentry, hconn⟩ := List.mem_map.mp (h.roster.listed c hhandshaked howned)
  obtain ⟨sender, hsender⟩ : ∃ sender, s.served.peerOf c = some sender := by
    cases hfind : s.served.conns.find? fun e => e.2 = c with
    | none => exact absurd (List.find?_eq_none.mp hfind entry hentry) (by simp [hconn])
    | some found => exact ⟨found.1, by rw [Served.peerOf, hfind]; rfl⟩
  have hstep : s.served.step p.port env (.received c e) =
      some (s.served.received p.port env c sender e) := by
    rw [Served.step, hsender]
    rfl
  have hop := operated hstep
  have hpassed (c' : ℕ) :
      (s.operate p env (.received c e)).passed c' = s.passed c' ++ if c = c' then [e] else [] := by
    rw [hop.passed]
    congr 1
    by_cases hc : c = c' <;> simp [passedOn?, hc]
  have hother {c' : ℕ} (hc : c' ≠ c) : passedOn? c' (.received c e) = none :=
    if_neg (Ne.symm hc)
  refine ⟨h.roster.congr ?_ ?_ hop.count hop.kin, ⟨?_, ?_, ?_⟩,
    fun c' hc => hop.reads (h.others c' hc) (hother hc) rfl, fun c' hc => ?_, ?_⟩
  · rw [hop.served]
    cases e with
    | hello | heartbeat | data | ack => rfl
    | dataReq msgId payload =>
      exact (ListBroker.routes_route p.port s.served.toListBroker (some sender) (.ack msgId)).conns
  · rw [hop.served]
    exact (s.served.received_cases p.port env c sender e).1
  · intro _
    obtain ⟨identity, hregistered, hidentity⟩ := h.reads.opened hhandshaked
    refine ⟨identity, (hop.registered rfl).trans hregistered, fun more => ?_⟩
    rw [hop.inbound, hop.decoder, hpassed, if_pos rfl, hidentity, List.append_assoc]
    rfl
  · rw [(hop.kin c).handshaked, hhandshaked]
    exact fun hfalse => Bool.noConfusion hfalse
  · rw [(hop.kin c).handshaked, hhandshaked]
    exact fun hfalse => Bool.noConfusion hfalse
  · rw [hop.live, hop.decoder]
    exact h.drained c' hc
  · rw [hop.live]
    exact h.live

/-- A connection shakes hands: it is put on the list under the identity of the HELLO. -/
theorem Handling.registered (p : Platform) (env : Outside) {identity : Identity}
    (h : Handling [.hello Protocol.protocolVersion identity] c s)
    (hnew : (s.conn c).handshaked = false) (hfree : s.served.findConn identity = none) :
    Handling [] c ((s.modify c fun k => { k with handshaked := true }).operate p env
      (.register identity c)) := by
  have hunknown : c ∉ s.served.started := fun hmem =>
    absurd ((h.roster.started c hmem).symm.trans hnew) (by simp)
  have hstep : s.served.step p.port env (.register identity c) =
      some { s.served.apply p.port env (.register identity c) with
        started := c :: s.served.started } := by
    rw [Served.step, if_neg hunknown]
  have hop := operated (s := s.modify c fun k => { k with handshaked := true }) hstep
  have htable := h.roster.table.step hstep
  have hconns : (s.served.apply p.port env (.register identity c)).conns =
      s.served.conns ++ [(identity, c)] := by
    rcases ListBroker.step_register_cases p.port env s.served.toListBroker identity c with
      ⟨-, hmem⟩ | ⟨heq, -⟩
    · exact absurd hmem (ListBroker.findConn_eq_none_iff.mp hfree)
    · have hsame := (ListBroker.closed_sameTable (κ := ℕ) (C := ℕ) p.port env).sendAll
        (s.served.connect identity c) s.served.buffer
      exact (congrArg ListBroker.conns heq).trans hsame.conns
  generalize (s.modify c fun k => { k with handshaked := true }).operate p env
    (.register identity c) = t at hop
  have howned (c' : ℕ) : (t.conn c').owned = (s.conn c').owned := by
    rw [(hop.kin c').owned]
    by_cases hc : c' = c
    · rw [hc, modify_conn_self]
    · rw [modify_conn_of_ne s hc]
  have hself : (t.conn c).handshaked = true := by
    rw [(hop.kin c).handshaked, modify_conn_self]
  have hlive : (t.conn c).live = true := by
    rw [hop.live, modify_conn_self]
    exact h.live
  have hkin {c' : ℕ} (hc : c' ≠ c) : (s.conn c').Kin (t.conn c') := by
    have hkin' := hop.kin c'
    rwa [modify_conn_of_ne s hc] at hkin'
  have hlisted : t.served.conns = s.served.conns ++ [(identity, c)] := by
    rw [hop.served]
    exact hconns
  obtain ⟨hpassed, hregistered⟩ := h.reads.silent hnew
  refine ⟨⟨?_, fun c' hc' => ?_, fun c' hc' ho => ?_, fun e he => ?_, fun c' hc' => ?_,
    fun c' hc' => ?_⟩, ⟨fun _ => ?_, ?_, ?_⟩, fun c' hc => ?_, fun c' hc => ?_, hlive⟩
  · rw [hop.served]
    exact htable
  · rw [hop.served] at hc'
    by_cases hc : c' = c
    · exact hc ▸ hself
    · exact (hkin hc).handshaked.trans
        (h.roster.started c' ((List.mem_cons.mp hc').resolve_left hc))
  · rw [hlisted, List.map_append]
    by_cases hc : c' = c
    · exact List.mem_append_right _ (List.mem_singleton.mpr hc)
    · exact List.mem_append_left _ (h.roster.listed c' ((hkin hc).handshaked.symm.trans hc')
        ((howned c').symm.trans ho))
  · rw [hlisted] at he
    rw [howned]
    rcases List.mem_append.mp he with he | he
    · have hold := h.roster.owned e he
      have hc : e.2 ≠ c := fun heq => absurd (hold.2.symm.trans (heq ▸ hnew)) (by simp)
      exact ⟨hold.1, (hkin hc).handshaked.trans hold.2⟩
    · rw [List.mem_singleton.mp he]
      exact ⟨h.roster.alive c h.live, hself⟩
  · rw [hop.count]
    by_cases hc : c' = c
    · exact hc ▸ h.roster.below c (.inr (h.roster.alive c h.live))
    · rw [(hkin hc).handshaked, (hkin hc).owned] at hc'
      exact h.roster.below c' hc'
  · rw [howned]
    by_cases hc : c' = c
    · exact hc ▸ h.roster.alive c h.live
    · exact h.roster.alive c' ((hkin hc).live hc')
  · refine ⟨identity, ?_, fun more => ?_⟩
    · rw [hop.events]
      show Served.registeredAs (s.events ++ [.register identity c]) c = _
      rw [Served.registeredAs_append, hregistered, Option.none_or, Served.registeredAs,
        List.findSome?_cons, Served.Event.registered?, if_pos rfl]
    · rw [hop.inbound, hop.decoder, hop.passed, modify_conn_self]
      show _ = _ :: (s.passed c ++ [] ++ _)
      rw [hpassed]
      exact h.reads.fresh hnew h.live more
  · rw [hself]
    exact fun hfalse => Bool.noConfusion hfalse
  · rw [hself]
    exact fun hfalse => Bool.noConfusion hfalse
  · refine (h.others c' hc).congr (hkin hc) ?_ ?_ ?_ ?_
    · rw [hop.decoder, modify_conn_of_ne s hc]
    · rw [hop.inbound, modify_conn_of_ne s hc]
    · rw [hop.passed]
      exact List.append_nil _
    · exact hop.registered (if_neg (Ne.symm hc))
  · rw [hop.live, hop.decoder, modify_conn_of_ne s hc]
    exact h.drained c' hc

/-- What the handshake leads to, as its result says. -/
theorem Handling.completeHandshake (p : Platform) (env : Outside) {e : Envelope Bytes}
    (h : Handling [e] c s) (hnew : (s.conn c).handshaked = false) :
    let r := s.completeHandshake p env c e
    (r.2 = true → Handling [] c r.1) ∧ (r.2 = false → Sound r.1) := by
  have hgiven : Sound (s.destroy c) := h.destroy hnew
  have hfalse : (false = true → Handling [] c (s.destroy c)) ∧
      (false = false → Sound (s.destroy c)) :=
    ⟨fun hfalse => Bool.noConfusion hfalse, fun _ => hgiven⟩
  cases e with
  | hello version identity =>
    simp only [Socket.completeHandshake]
    split
    · exact hfalse
    · rename_i hversion
      split
      · exact hfalse
      · rename_i hfree
        obtain rfl : version = Protocol.protocolVersion := not_not.mp hversion
        refine ⟨fun _ => ?_, fun hfalse => Bool.noConfusion hfalse⟩
        exact h.registered p env hnew (by simpa using hfree)
  | heartbeat | data | dataReq | ack => exact hfalse

/-- What is at hand is handled, as far as the connection goes on. -/
theorem Handling.onFrame (p : Platform) (env : Outside) {envelope : Bytes}
    (h : Handling (parseEnvelope envelope).toList c s) :
    let r := s.onFrame p env c envelope
    (r.2 = true → Handling [] c r.1) ∧ (r.2 = false → Sound r.1) := by
  simp only [Socket.onFrame]
  cases hparse : parseEnvelope envelope with
  | none =>
    rw [hparse] at h
    exact ⟨fun _ => h, fun hfalse => Bool.noConfusion hfalse⟩
  | some e =>
    rw [hparse] at h
    simp only
    split
    · rename_i hhandshaked
      exact ⟨fun _ => h.received p env hhandshaked, fun hfalse => Bool.noConfusion hfalse⟩
    · rename_i hnew
      exact h.completeHandshake p env (by simpa using hnew)

/-- Handling a frame does not touch the decoders. -/
theorem decoder_onFrame (p : Platform) (env : Outside) (s : Socket) (c : ℕ) (envelope : Bytes)
    (c' : ℕ) : ((s.onFrame p env c envelope).1.conn c').decoder = (s.conn c').decoder := by
  have hoperate (t : Socket) (e : Served.Event ℕ Bytes) :
      ((t.operate p env e).conn c').decoder = (t.conn c').decoder := by
    cases hstep : t.served.step p.port env e with
    | none => rw [operate, hstep]
    | some w => exact (operated hstep).decoder c'
  have hmodify : ((s.modify c fun k => { k with handshaked := true }).conn c').decoder =
      (s.conn c').decoder := by
    by_cases hc : c' = c
    · rw [hc, modify_conn_self]
    · rw [modify_conn_of_ne s hc]
  have hdestroy := (aside_destroy s c).decoder c'
  unfold Socket.onFrame
  split
  · rfl
  · rename_i e _
    split
    · exact hoperate s _
    · cases e with
      | hello version identity =>
        rw [Socket.completeHandshake]
        split
        · exact hdestroy
        · split
          · exact hdestroy
          · exact (hoperate _ _).trans hmodify
      | heartbeat | data | dataReq | ack => exact hdestroy

/-- **The loop empties the decoder**, unless the connection is given up. -/
theorem Handling.onFrames (p : Platform) (env : Outside) {fuel : ℕ} (h : Handling [] c s)
    (hfuel : (s.conn c).decoder.buf.length < fuel) : Sound (s.onFrames p env fuel c) := by
  induction fuel generalizing s with
  | zero => exact absurd hfuel (Nat.not_lt_zero _)
  | succ fuel ih =>
    rw [Socket.onFrames]
    split
    · rename_i hpop
      exact h.sound hpop
    · rename_i envelope d hpop
      obtain ⟨hgo, hstop⟩ := (h.pop hpop).onFrame p env
      have hdecoder := decoder_onFrame p env (s.modify c fun k => { k with decoder := d }) c
        envelope c
      rw [modify_conn_self] at hdecoder
      simp only
      split
      · rename_i hgoes
        refine ih (hgo hgoes) ?_
        rw [hdecoder]
        exact lt_of_lt_of_le (length_of_pop hpop) (Nat.le_of_lt_succ hfuel)
      · rename_i hstops
        exact hstop (by simpa using hstops)

/-- More bytes. -/
theorem Sound.push (h : Sound s) (hlive : (s.conn c).live = true) (chunk : Bytes) :
    Handling [] c (s.modify c fun k =>
      { k with decoder := k.decoder.push chunk, inbound := k.inbound ++ chunk }) := by
  generalize hf : (fun k : Conn =>
    { k with decoder := k.decoder.push chunk, inbound := k.inbound ++ chunk }) = f
  have hkin : (s.conn c).Kin (f (s.conn c)) := by
    subst hf
    exact ⟨rfl, rfl, fun h => h⟩
  have hdecoder : (f (s.conn c)).decoder.buf = (s.conn c).decoder.buf ++ chunk := by
    subst hf
    exact congrArg Decoder.buf (Decoder.push_eq _ _)
  have hinbound : (f (s.conn c)).inbound = (s.conn c).inbound ++ chunk := by
    subst hf
    rfl
  have hstill : (f (s.conn c)).live = true := by
    subst hf
    exact hlive
  clear hf
  refine ⟨h.roster.congr rfl rfl rfl (kin_modify s c hkin), ⟨?_, ?_, ?_⟩, fun c' hc => ?_,
    fun c' hc => ?_, ?_⟩
  · rw [modify_conn_self]
    intro hhandshaked
    obtain ⟨identity, hregistered, hidentity⟩ :=
      (h.reads c).opened (hkin.handshaked.symm.trans hhandshaked)
    refine ⟨identity, hregistered, fun more => ?_⟩
    rw [hdecoder, hinbound, List.append_assoc, List.append_assoc]
    exact hidentity (chunk ++ more)
  · rw [modify_conn_self]
    exact fun hnew => (h.reads c).silent (hkin.handshaked.symm.trans hnew)
  · rw [modify_conn_self]
    intro hnew _ more
    rw [hdecoder, hinbound, List.append_assoc, List.append_assoc]
    exact (h.reads c).fresh (hkin.handshaked.symm.trans hnew) hlive (chunk ++ more)
  · have hother : (s.modify c f).conn c' = s.conn c' := modify_conn_of_ne s hc f
    exact (h.reads c').congr (kin_modify s c hkin c') (by rw [hother]) (by rw [hother]) rfl rfl
  · rw [modify_conn_of_ne s hc]
    exact h.drained c'
  · rw [modify_conn_self]
    exact hstill

theorem Sound.onData (p : Platform) (env : Outside) (h : Sound s) (hlive : (s.conn c).live = true)
    (chunk : Bytes) : Sound (s.onData p env c chunk) := by
  have hreset := h.aside (aside_resetTimeout s c)
  have hstill : ((s.resetTimeout c).conn c).live = true := by
    rw [resetTimeout, modify_conn_self]
    exact hlive
  exact (hreset.push hstill chunk).onFrames p env (Nat.lt_succ_self _)

/-! ### Connections come and go -/

theorem live_start (p : Platform) (s : Socket) (c : ℕ) :
    ((s.start p c).conn c).live = (s.conn c).live := by
  unfold start resetTimeout write
  rw [modify_conn_self]
  split <;> simp

theorem Sound.extend (h : Sound s) (loop : Option Loop) : Sound (s.extend loop) := by
  have hnew : (s.conn s.count).handshaked = false := by
    refine Bool.eq_false_iff.mpr fun htrue => ?_
    exact absurd (h.roster.below s.count (.inl htrue)) (lt_irrefl _)
  have hself : (s.extend loop).conn s.count = .new loop := modify_conn_self ..
  have hother {c : ℕ} (hc : c ≠ s.count) : (s.extend loop).conn c = s.conn c :=
    modify_conn_of_ne _ hc _
  have hne {c : ℕ} (hc : (s.conn c).handshaked = true) : c ≠ s.count := by
    rintro rfl
    exact absurd (hc.symm.trans hnew) (by simp)
  refine ⟨⟨h.roster.table, fun c hc => ?_, fun c hc howned => ?_, fun e he => ?_, fun c hc => ?_,
    fun c hc => ?_⟩, fun c => ?_, fun c hc => ?_⟩
  · have hold := h.roster.started c hc
    rw [hother (hne hold)]
    exact hold
  · have hc' : c ≠ s.count := by
      rintro rfl
      rw [hself] at hc
      exact Bool.noConfusion hc
    rw [hother hc'] at hc howned
    exact h.roster.listed c hc howned
  · have hold := h.roster.owned e he
    rw [hother (hne hold.2)]
    exact hold
  · by_cases hc' : c = s.count
    · exact hc' ▸ Nat.lt_succ_self _
    · rw [hother hc'] at hc
      exact (h.roster.below c hc).trans (Nat.lt_succ_self _)
  · by_cases hc' : c = s.count
    · rw [hc', hself]
      rfl
    · rw [hother hc'] at hc ⊢
      exact h.roster.alive c hc
  · by_cases hc' : c = s.count
    · subst hc'
      refine ⟨?_, ?_, ?_⟩
      · rw [hself]
        exact fun htrue => Bool.noConfusion htrue
      · exact fun _ => (h.reads s.count).silent hnew
      · rw [hself]
        exact fun _ _ more => rfl
    · have hkin : (s.conn c).Kin ((s.extend loop).conn c) := by
        rw [hother hc']
        exact .refl _
      exact (h.reads c).congr hkin (by rw [hother hc']) (by rw [hother hc']) rfl rfl
  · by_cases hc' : c = s.count
    · rw [hc', hself]
      rfl
    · rw [hother hc'] at hc ⊢
      exact h.drained c hc

theorem Sound.runConnection (p : Platform) (env : Outside) (h : Sound s) (loop : Option Loop)
    (prebuffer : Bytes) : Sound (s.runConnection p env loop prebuffer) := by
  have hextend := h.extend loop
  have hlive : ((s.extend loop).conn s.count).live = true := by
    rw [Socket.extend, modify_conn_self]
    rfl
  have hstart : Sound (if loop.any Loop.deferred then s.extend loop
        else (s.extend loop).start p s.count) ∧
      ((if loop.any Loop.deferred then s.extend loop
        else (s.extend loop).start p s.count).conn s.count).live = true := by
    split
    · exact ⟨hextend, hlive⟩
    · refine ⟨hextend.aside (aside_start p _ _), ?_⟩
      rw [live_start]
      exact hlive
  unfold Socket.runConnection
  simp only
  split
  · exact hstart.1
  · exact hstart.1.onData p env hstart.2 prebuffer

/-- Handles that occur once are gone with their entry. -/
theorem not_mem_eraseP_handle {α : Type} {l : List (α × ℕ)} (h : (l.map Prod.snd).Nodup) (c : ℕ) :
    c ∉ (l.eraseP fun e => e.2 = c).map Prod.snd := by
  induction l with
  | nil => exact List.not_mem_nil
  | cons e rest ih =>
    obtain ⟨hnew, hrest⟩ := List.nodup_cons.mp h
    by_cases he : e.2 = c
    · rw [List.eraseP_cons_of_pos (by simpa using he)]
      exact he ▸ hnew
    · rw [List.eraseP_cons_of_neg (by simpa using he), List.map_cons, List.mem_cons, not_or]
      exact ⟨Ne.symm he, ih hrest⟩

/-- The end of a connection takes it off the list. -/
theorem Sound.teardown (p : Platform) (env : Outside) (h : Sound s) (c : ℕ) :
    Sound (s.teardown p env c) := by
  have hop : Operated (.unregister c) (s.served.apply p.port env (.unregister c)) (s.drop c)
      (s.teardown p env c) := operated rfl
  generalize s.teardown p env c = t at hop
  have hconns : t.served.conns = s.served.conns.eraseP fun e => e.2 = c := by
    rw [hop.served]
    rfl
  have hgone : c ∉ t.served.conns.map Prod.snd := by
    rw [hconns]
    exact not_mem_eraseP_handle h.roster.table.handles c
  have hfields (c' : ℕ) : (t.conn c').handshaked = (s.conn c').handshaked ∧
      (t.conn c').decoder = (s.conn c').decoder ∧ (t.conn c').inbound = (s.conn c').inbound ∧
      ((t.conn c').owned = true ↔ c' ≠ c ∧ (s.conn c').owned = true) ∧
      ((t.conn c').live = true → c' ≠ c ∧ (s.conn c').live = true) := by
    rw [(hop.kin c').handshaked, (hop.kin c').owned, hop.decoder, hop.inbound, hop.live]
    by_cases hc : c' = c
    · rw [hc, Socket.drop, modify_conn_self]
      simp
    · rw [Socket.drop, modify_conn_of_ne s hc]
      simp [hc]
  have hpassed (c' : ℕ) : t.passed c' = s.passed c' :=
    (hop.passed c').trans (List.append_nil _)
  have hregistered (c' : ℕ) : Served.registeredAs t.events c' = Served.registeredAs s.events c' :=
    hop.registered rfl
  refine ⟨⟨?_, fun c' hc' => ?_, fun c' hc' howned => ?_, fun e he => ?_, fun c' hc' => ?_,
    fun c' hc' => ?_⟩, fun c' => ⟨?_, ?_, ?_⟩, fun c' hc' => ?_⟩
  · rw [hop.served]
    exact h.roster.table.apply (by simp)
  · rw [hop.served] at hc'
    exact (hfields c').1.trans (h.roster.started c' hc')
  · obtain ⟨hne, howned⟩ := (hfields c').2.2.2.1.mp howned
    obtain ⟨e, he, rfl⟩ := List.mem_map.mp
      (h.roster.listed c' ((hfields c').1.symm.trans hc') howned)
    rw [hconns]
    exact List.mem_map_of_mem ((List.mem_eraseP_of_neg (by simpa using hne)).mpr he)
  · have hne : e.2 ≠ c := fun heq => hgone (heq ▸ List.mem_map_of_mem he)
    have hold := h.roster.owned e (List.mem_of_mem_eraseP (hconns ▸ he))
    exact ⟨(hfields e.2).2.2.2.1.mpr ⟨hne, hold.1⟩, (hfields e.2).1.trans hold.2⟩
  · rw [hop.count]
    exact h.roster.below c' (hc'.imp (hfields c').1.symm.trans
      fun howned => ((hfields c').2.2.2.1.mp howned).2)
  · obtain ⟨hne, hlive⟩ := (hfields c').2.2.2.2 hc'
    exact (hfields c').2.2.2.1.mpr ⟨hne, h.roster.alive c' hlive⟩
  · rw [(hfields c').1, (hfields c').2.1, (hfields c').2.2.1, hpassed, hregistered]
    exact (h.reads c').opened
  · rw [(hfields c').1, hpassed, hregistered]
    exact (h.reads c').silent
  · rw [(hfields c').1, (hfields c').2.1, (hfields c').2.2.1]
    exact fun hnew hlive => (h.reads c').fresh hnew ((hfields c').2.2.2.2 hlive).2
  · rw [(hfields c').2.1]
    exact h.drained c' ((hfields c').2.2.2.2 hc').2

theorem Sound.gone (p : Platform) (env : Outside) (h : Sound s) (c : ℕ) :
    Sound (s.gone p env c) := by
  unfold Socket.gone
  split
  · exact h.teardown _ env c
  · exact (h.aside (aside_retry s _)).teardown _ env c
  · exact (h.teardown _ env c).aside (aside_retry _ _)

theorem Sound.connectLoop (p : Platform) (env : Outside) (h : Sound s) (loop : Loop)
    (refused : Bool) : Sound (s.connectLoop p env loop refused) := by
  unfold Socket.connectLoop
  split
  · exact h
  · split
    · exact h.aside (aside_retry s loop)
    · exact h.runConnection p env (some loop) []

theorem Sound.close (p : Platform) (env : Outside) (h : Sound s) : Sound (s.close p env) := by
  unfold Socket.close
  split
  · exact h
  · have hoperate := h.aside (aside_operate p env s (e := .close true) (.close true) rfl (by simp)
      (by simp) (fun _ => rfl) fun _ => rfl)
    simp only
    generalize s.operate p env (.close true) = t at hoperate
    refine hoperate.aside ⟨rfl, rfl, rfl, fun c => ?_, fun c => ?_, fun c => ?_, fun _ => rfl,
      fun _ => rfl⟩
    · show (t.conn c).Kin (if (t.conn c).owned then { t.conn c with live := false } else t.conn c)
      split
      · exact ⟨rfl, rfl, fun h => Bool.noConfusion h⟩
      · exact .refl _
    · show (if (t.conn c).owned then { t.conn c with live := false } else t.conn c).decoder = _
      split <;> rfl
    · show (if (t.conn c).owned then { t.conn c with live := false } else t.conn c).inbound = _
      split <;> rfl

/-! ### Whole runs -/

theorem sound_new (id : Identity) (sendMode : SendMode) (delivery : DeliveryGuarantee) :
    Sound (new id sendMode delivery) where
  roster := roster_new id sendMode delivery
  reads _ := ⟨fun h => Bool.noConfusion h, fun _ => ⟨rfl, rfl⟩, fun _ h => Bool.noConfusion h⟩
  drained _ h := Bool.noConfusion h

/-- **Every action** leaves every connection knowing where it is in its bytes. -/
theorem Sound.step (h : Sound s) {a : Action} (hstep : s.step p env a = some s') : Sound s' := by
  cases a with
  | connect deferred refused =>
    cases hstep
    have hloops : Sound { s with loops := s.loops + 1 } :=
      h.aside ⟨rfl, rfl, rfl, fun _ => .refl _, fun _ => rfl, fun _ => rfl, fun _ => rfl,
        fun _ => rfl⟩
    exact hloops.connectLoop p env _ refused
  | send target data =>
    cases hstep
    exact h.aside (aside_operate p env s (.send target data) rfl (by simp) (by simp)
      (fun _ => rfl) fun _ => rfl)
  | take | tick =>
    cases hstep
    exact h.aside ⟨rfl, rfl, rfl, fun _ => .refl _, fun _ => rfl, fun _ => rfl, fun _ => rfl,
      fun _ => rfl⟩
  | close =>
    cases hstep
    exact h.close p env
  | reconnect i refused =>
    obtain ⟨loop, -, rfl⟩ := Option.map_eq_some_iff.mp hstep
    have htimers : Sound { s with reconnectTimers := s.reconnectTimers.eraseIdx i } :=
      h.aside ⟨rfl, rfl, rfl, fun _ => .refl _, fun _ => rfl, fun _ => rfl, fun _ => rfl,
        fun _ => rfl⟩
    exact htimers.connectLoop p env loop refused
  | accepted prebuffer =>
    cases prebuffer with
    | none =>
      cases hstep
      exact h
    | some prebuffer =>
      rw [Socket.step] at hstep
      split at hstep
      · cases hstep
      · cases hstep
        split
        · exact h
        · exact h.runConnection p env none prebuffer
  | opened c =>
    rw [Socket.step] at hstep
    split at hstep
    · cases hstep
      exact h.aside (aside_start p s c)
    · cases hstep
  | data c chunk =>
    rw [Socket.step] at hstep
    split at hstep
    · rename_i hopen
      cases hstep
      exact h.onData p env (Bool.and_eq_true_iff.mp hopen).1 chunk
    · cases hstep
  | gone c =>
    rw [Socket.step] at hstep
    split at hstep
    · cases hstep
      exact h.gone p env c
    · cases hstep
  | heartbeat c =>
    rw [Socket.step] at hstep
    split at hstep
    · cases hstep
      have hmodify : Sound (s.modify c fun k => { k with heartbeatTimer := none }) :=
        h.aside (aside_modify s c ⟨rfl, rfl, fun h => h⟩ rfl rfl)
      unfold onHeartbeat
      simp only
      split
      · exact hmodify.aside (aside_write p _ c _)
      · exact hmodify
    · cases hstep
  | timeout c =>
    rw [Socket.step] at hstep
    split at hstep
    · cases hstep
      have hmodify : Sound (s.modify c fun k => { k with timeoutTimer := none }) :=
        h.aside (aside_modify s c ⟨rfl, rfl, fun h => h⟩ rfl rfl)
      exact hmodify.aside (aside_destroy _ c)
    · cases hstep
  | resend key =>
    cases hstep
    exact h.aside (aside_operate p env s (.expire fun e => e.1 = key) rfl (by simp) (by simp)
      (fun _ => rfl) fun _ => rfl)

theorem sound_of_run (h : Sound s) {as : List Action}
    (hrun : (machine p env).run s as = some s') : Sound s' :=
  Machine.invariant (fun _ _ _ h hstep => h.step hstep) hrun h

/-- The envelopes of a connection's bytes are its peer's HELLO and those it has passed on, and
others only if it has come to its end. -/
theorem envelopes_of_run {id : Identity} {sendMode : SendMode} {delivery : DeliveryGuarantee}
    {as : List Action} (hrun : (machine p env).run (new id sendMode delivery) as = some s)
    (c : ℕ) :
    if (s.conn c).handshaked then
      ∃ identity rest, Served.registeredAs s.events c = some identity ∧
        recognised (s.conn c).inbound =
          .hello Protocol.protocolVersion identity :: (s.passed c ++ rest) ∧
        ((s.conn c).live = true → rest = [])
    else
      s.passed c = [] ∧ ((s.conn c).live = true → recognised (s.conn c).inbound = []) := by
  have h := sound_of_run (sound_new id sendMode delivery) hrun
  split
  · rename_i hhandshaked
    obtain ⟨identity, hregistered, hidentity⟩ := (h.reads c).opened hhandshaked
    refine ⟨identity, recognised (s.conn c).decoder.buf, hregistered, ?_, fun hlive => ?_⟩
    · simpa using hidentity []
    · exact recognised_of_pop_none (h.drained c hlive)
  · rename_i hnew
    have hfresh : (s.conn c).handshaked = false := by simpa using hnew
    refine ⟨((h.reads c).silent hfresh).1, fun hlive => ?_⟩
    have hrecognised := (h.reads c).fresh hfresh hlive []
    rw [List.append_nil, List.append_nil, List.nil_append] at hrecognised
    rw [hrecognised]
    exact recognised_of_pop_none (h.drained c hlive)

/-- What the application has got, or finds in its inbox, is what the connections have passed on. -/
theorem messages_of_run {id : Identity} {sendMode : SendMode} {delivery : DeliveryGuarantee}
    {as : List Action} (hrun : (machine p env).run (new id sendMode delivery) as = some s) :
    List.Forall₂ (fun d m => m.1 = d.2 ∧ Served.registeredAs s.events d.1 = some m.2)
      (s.events.filterMap Served.Event.delivery?) (s.inbox.received ++ s.inbox.items) := by
  have htraced := traced_of_run hrun
  rw [htraced.inbox.items]
  exact (Served.senders_of_run htraced.run).inbox

/-- **What arrives is delivered.** The envelopes that a connection's bytes come to are the peer's
HELLO, the ones the connection has passed on, and, only if it has come to its end, some others. A
payload comes with the identity of that HELLO, and the application's calls are answered in order. -/
theorem delivered_to_application {id : Identity} {sendMode : SendMode}
    {delivery : DeliveryGuarantee} {as : List Action}
    (hrun : (machine p env).run (new id sendMode delivery) as = some s) :
    (∀ c, if (s.conn c).handshaked then
        ∃ identity rest, Served.registeredAs s.events c = some identity ∧
          recognised (s.conn c).inbound =
            .hello Protocol.protocolVersion identity :: (s.passed c ++ rest) ∧
          ((s.conn c).live = true → rest = [])
      else
        s.passed c = [] ∧ ((s.conn c).live = true → recognised (s.conn c).inbound = [])) ∧
      List.Forall₂ (fun d m => m.1 = d.2 ∧ Served.registeredAs s.events d.1 = some m.2)
        (s.events.filterMap Served.Event.delivery?) (s.inbox.received ++ s.inbox.items) ∧
      s.inbox.resolved.map Prod.fst ++ s.inbox.waiters = List.range s.inbox.takes :=
  ⟨envelopes_of_run hrun, messages_of_run hrun, (traced_of_run hrun).inbox.calls⟩

end Frames

theorem delivered_to_application_visit :
    ∃ s, visit .node = some s ∧
      List.Forall₂ (fun d m => m.1 = d.2 ∧ Served.registeredAs s.events d.1 = some m.2)
        (s.events.filterMap Served.Event.delivery?) (s.inbox.received ++ s.inbox.items) ∧
      s.inbox.received = [([7], List.Vector.replicate 16 2)] ∧
      s.inbox.items = [([8], List.Vector.replicate 16 2)] := by
  refine ⟨_, rfl, ?_, rfl, rfl⟩
  exact (delivered_to_application (show visit .node = some _ from rfl)).2.1

end Socket

end JsLib

end Aiomsg
