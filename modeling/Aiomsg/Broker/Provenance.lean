import Aiomsg.Broker.Trace

/-!
# Where frames and entries come from

Reading a step of the broker backwards: a frame on a writer is a frame of a transmission in the same
step, or the ACK of the DATA_REQ the step processed; an entry of `pending` was there before, or is
that of a transmission in the step; and a payload is never made up.

## Scope

Nothing is said of how often, or in which order. A frame has an origin, and that is all that safety
needs: an ACK that is on a writer means that a DATA_REQ with its id came in, and a payload on a
writer means that somebody handed it over.
-/

namespace Aiomsg

namespace Broker

variable {C D : Type}

/-- A DATA_REQ frame carries the id and the payload of its transmission. -/
theorem mark_of_mem_transmit {b : Broker C D} {identity : Option Identity} {data : D} {retries : ℕ}
    {w : C} {msgId : MsgId} {payload : D}
    (h : .frame w (.dataReq msgId payload) ∈ (b.transmit identity data retries).2) :
    .transmit (some msgId) ⟨identity, data, retries⟩ ∈ (b.transmit identity data retries).2 ∧
      payload = data := by
  cases hack : b.atLeastOnce identity with
  | true =>
    rw [transmit_of_atLeastOnce data retries hack] at h ⊢
    have hroute : .frame w (.dataReq msgId payload) ∈ ((b.enter ⟨identity, data, retries⟩).route
        identity (.dataReq (msgIdOf b.salt b.nextId) data)).2 := by simpa using h
    obtain ⟨_, _, -, heq⟩ := mem_route hroute
    obtain ⟨-, henvelope⟩ := Effect.frame.inj heq
    obtain ⟨rfl, rfl⟩ := Envelope.dataReq.inj henvelope
    exact ⟨List.mem_cons_self, rfl⟩
  | false =>
    rw [transmit_of_atMostOnce data retries hack] at h
    have hroute : .frame w (.dataReq msgId payload) ∈ (b.route identity (.data data)).2 := by
      simpa using h
    obtain ⟨_, _, -, heq⟩ := mem_route hroute
    exact absurd (Effect.frame.inj heq).2 nofun

/-- Where a frame of a step comes from. -/
inductive Origin (cmd : Command C D) (effects : List (Effect C D)) : Envelope D → Prop
  | data (p : Pending D) (h : p ∈ transmitted effects) : Origin cmd effects (.data p.data)
  | dataReq (msgId : MsgId) (p : Pending D) (h : .transmit (some msgId) p ∈ effects) :
      Origin cmd effects (.dataReq msgId p.data)
  | ack (msgId : MsgId) (identity : Identity) (payload : D)
      (h : cmd = .received identity (.dataReq msgId payload)) : Origin cmd effects (.ack msgId)

theorem mem_transmitted {effects : List (Effect C D)} {msgId : Option MsgId} {p : Pending D}
    (h : .transmit msgId p ∈ effects) : p ∈ transmitted effects :=
  List.mem_filterMap.mpr ⟨_, h, rfl⟩

theorem Origin.mono {cmd : Command C D} {es es' : List (Effect C D)} {f : Envelope D}
    (h : Origin cmd es f) (hsub : es ⊆ es') : Origin cmd es' f := by
  cases h with
  | data p hp =>
    obtain ⟨e, he, heq⟩ := List.mem_filterMap.mp hp
    exact .data p (List.mem_filterMap.mpr ⟨e, hsub he, heq⟩)
  | dataReq msgId p hp => exact .dataReq msgId p (hsub hp)
  | ack msgId identity payload hcmd => exact .ack msgId identity payload hcmd

theorem origin_transmit {b : Broker C D} {identity : Option Identity} {data : D} {retries : ℕ}
    {w : C} {f : Envelope D} (cmd : Command C D)
    (h : .frame w f ∈ (b.transmit identity data retries).2) :
    Origin cmd (b.transmit identity data retries).2 f := by
  obtain ⟨_, heq⟩ | ⟨_, heq⟩ | ⟨_, w', f', -, heq, hf⟩ := mem_transmit h
  · exact absurd heq nofun
  · exact absurd heq nofun
  · obtain ⟨rfl, rfl⟩ := Effect.frame.inj heq
    rcases hf with rfl | ⟨msgId, rfl⟩
    · refine .data ⟨identity, data, retries⟩ ?_
      rw [transmitted_transmit]
      exact List.mem_singleton_self _
    · exact .dataReq msgId ⟨identity, data, retries⟩ (mark_of_mem_transmit h).1

theorem origin_transmitAll {b : Broker C D} {msgs : List (Option Identity × D)} {w : C}
    {f : Envelope D} (cmd : Command C D) (h : .frame w f ∈ (b.transmitAll msgs).2) :
    Origin cmd (b.transmitAll msgs).2 f := by
  induction msgs generalizing b with
  | nil => exact absurd h List.not_mem_nil
  | cons msg rest ih =>
    rcases List.mem_append.mp h with h | h
    · exact (origin_transmit cmd h).mono (List.subset_append_left _ _)
    · exact (ih h).mono (List.subset_append_right _ _)

/-- **Every frame a step puts out has an origin in that step.** -/
theorem origin_step {b : Broker C D} {cmd : Command C D} {w : C} {f : Envelope D}
    (h : .frame w f ∈ (b.step cmd).2) : Origin cmd (b.step cmd).2 f := by
  have hturn := b.turn_step cmd
  generalize b.step cmd = r at hturn h
  cases hturn with
  | sent | resent => exact origin_transmit _ h
  | connected =>
    have hflush := (List.mem_cons.mp h).resolve_left nofun
    exact (origin_transmitAll _ hflush).mono (List.subset_cons_self _ _)
  | dataReq =>
    obtain ⟨_, -, heq⟩ := mem_sendTo ((List.mem_cons.mp h).resolve_left nofun)
    obtain ⟨-, rfl⟩ := Effect.frame.inj heq
    exact .ack _ _ _ rfl
  | turnedAway | data | acked => exact absurd (List.mem_singleton.mp h) nofun
  | buffered | disconnected | ackIgnored | hello | heartbeat | timeoutIgnored | gaveUp
  | rebuffered | close => exact absurd h List.not_mem_nil

/-- A frame is put on a writer that is registered after the step. -/
theorem registered_step {b : Broker C D} {cmd : Command C D} {w : C} {f : Envelope D}
    (h : .frame w f ∈ (b.step cmd).2) : ∃ id, (b.step cmd).1.conns.lookup id = some w := by
  have htransmit : ∀ {b : Broker C D} {i d n}, .frame w f ∈ (b.transmit i d n).2 →
      ∃ id, b.conns.lookup id = some w := by
    intro b i d n h
    obtain ⟨_, heq⟩ | ⟨_, heq⟩ | ⟨id, w', f', hw, heq, -⟩ := mem_transmit h
    · exact absurd heq nofun
    · exact absurd heq nofun
    · obtain ⟨rfl, -⟩ := Effect.frame.inj heq
      exact ⟨id, hw⟩
  have hturn := b.turn_step cmd
  generalize b.step cmd = r at hturn h
  cases hturn with
  | sent =>
    rw [(b.sameTable_transmit _ _ _).conns]
    exact htransmit h
  | resent =>
    rw [((b.forget _).sameTable_transmit _ _ _).conns]
    exact htransmit h
  | @connected identity writer =>
    obtain ⟨b', i, d, htable, he⟩ := mem_transmitAll ((List.mem_cons.mp h).resolve_left nofun)
    rw [((b.connect identity writer).sameTable_transmitAll _).conns, ← htable.conns]
    exact htransmit he
  | dataReq =>
    obtain ⟨w', hw, heq⟩ := mem_sendTo ((List.mem_cons.mp h).resolve_left nofun)
    obtain ⟨rfl, -⟩ := Effect.frame.inj heq
    exact ⟨_, hw⟩
  | turnedAway | data | acked => exact absurd (List.mem_singleton.mp h) nofun
  | buffered | disconnected | ackIgnored | hello | heartbeat | timeoutIgnored | gaveUp
  | rebuffered | close => exact absurd h List.not_mem_nil

/-! ### Entries -/

theorem lookup_insert_cases {pending : AList fun _ : MsgId => Pending D} {msgId m : MsgId}
    {p q : Pending D} (h : (pending.insert msgId p).lookup m = some q) :
    m = msgId ∧ q = p ∨ pending.lookup m = some q := by
  by_cases hm : m = msgId
  · subst hm
    rw [AList.lookup_insert] at h
    exact .inl ⟨rfl, (Option.some.inj h).symm⟩
  · rw [AList.lookup_insert_ne hm] at h
    exact .inr h

theorem lookup_of_lookup_erase {pending : AList fun _ : MsgId => Pending D} {msgId m : MsgId}
    {q : Pending D} (h : (pending.erase msgId).lookup m = some q) : pending.lookup m = some q := by
  by_cases hm : m = msgId
  · subst hm
    rw [AList.lookup_erase] at h
    exact absurd h nofun
  · rwa [AList.lookup_erase_ne hm] at h

theorem entry_transmit {b : Broker C D} {identity : Option Identity} {data : D} {retries : ℕ}
    {m : MsgId} {q : Pending D}
    (h : (b.transmit identity data retries).1.pending.lookup m = some q) :
    b.pending.lookup m = some q ∨
      .transmit (some m) q ∈ (b.transmit identity data retries).2 := by
  cases hack : b.atLeastOnce identity with
  | true =>
    rw [transmit_of_atLeastOnce data retries hack, route_pending] at h
    rw [transmit_of_atLeastOnce data retries hack]
    rcases lookup_insert_cases h with ⟨rfl, rfl⟩ | h
    · exact .inr List.mem_cons_self
    · exact .inl h
  | false =>
    rw [transmit_of_atMostOnce data retries hack, route_pending] at h
    exact .inl h

theorem entry_transmitAll {b : Broker C D} {msgs : List (Option Identity × D)} {m : MsgId}
    {q : Pending D} (h : (b.transmitAll msgs).1.pending.lookup m = some q) :
    b.pending.lookup m = some q ∨ .transmit (some m) q ∈ (b.transmitAll msgs).2 := by
  induction msgs generalizing b with
  | nil => exact .inl h
  | cons msg rest ih =>
    rcases ih h with h | h
    · exact (entry_transmit h).imp_right (List.mem_append_left _)
    · exact .inr (List.mem_append_right _ h)

/-- **Every entry of `pending` was there before the step or is of a transmission in it.** -/
theorem entry_step {b : Broker C D} {cmd : Command C D} {m : MsgId} {q : Pending D}
    (h : (b.step cmd).1.pending.lookup m = some q) :
    b.pending.lookup m = some q ∨ .transmit (some m) q ∈ (b.step cmd).2 := by
  have hturn := b.turn_step cmd
  generalize b.step cmd = r at hturn h
  cases hturn with
  | sent => exact entry_transmit h
  | connected => exact (entry_transmitAll h).imp_right (List.mem_cons_of_mem _)
  | resent => exact (entry_transmit h).imp_left lookup_of_lookup_erase
  | acked | gaveUp | rebuffered => exact .inl (lookup_of_lookup_erase h)
  | buffered | turnedAway | disconnected | data | dataReq | ackIgnored | hello | heartbeat
  | timeoutIgnored | close => exact .inl h

/-! ### Payloads -/

/-- Every payload the broker holds has a property. -/
structure Holds (ok : D → Prop) (b : Broker C D) : Prop where
  buffer : ∀ m ∈ b.buffer, ok m.2
  pending : ∀ msgId p, b.pending.lookup msgId = some p → ok p.data

theorem Holds.transmit {ok : D → Prop} {b : Broker C D} (h : Holds ok b)
    (identity : Option Identity) {data : D} (hdata : ok data) (retries : ℕ) :
    Holds ok (b.transmit identity data retries).1 := by
  refine ⟨?_, fun m q hq => ?_⟩
  · rw [transmit_buffer]
    exact h.buffer
  · rcases entry_transmit hq with hq | hq
    · exact h.pending m q hq
    · have hmark := mem_transmitted hq
      rw [transmitted_transmit] at hmark
      rw [List.mem_singleton.mp hmark]
      exact hdata

theorem Holds.transmitAll {ok : D → Prop} {b : Broker C D} (h : Holds ok b)
    {msgs : List (Option Identity × D)} (hmsgs : ∀ m ∈ msgs, ok m.2) :
    Holds ok (b.transmitAll msgs).1 := by
  induction msgs generalizing b with
  | nil => exact h
  | cons msg rest ih =>
    exact ih (h.transmit _ (hmsgs msg List.mem_cons_self) _)
      fun m hm => hmsgs m (List.mem_cons_of_mem _ hm)

/-- **No payload is made up**: what the broker holds after a step, and what it transmits in it, it
held before or was handed. -/
theorem Holds.step {ok : D → Prop} {b : Broker C D} (h : Holds ok b) {cmd : Command C D}
    (hcmd : ∀ identity data, cmd = .send identity data → ok data) :
    Holds ok (b.step cmd).1 ∧ ∀ p ∈ transmitted (b.step cmd).2, ok p.data := by
  have hforget : ∀ msgId, Holds ok (b.forget msgId) := fun msgId =>
    ⟨h.buffer, fun m q hq => h.pending m q (lookup_of_lookup_erase hq)⟩
  have hturn := b.turn_step cmd
  generalize b.step cmd = r at hturn
  cases hturn with
  | buffered =>
    refine ⟨⟨fun m hm => ?_, h.pending⟩, fun p hp => absurd hp List.not_mem_nil⟩
    rcases List.mem_append.mp hm with hm | hm
    · exact h.buffer m hm
    · rw [List.mem_singleton.mp hm]
      exact hcmd _ _ rfl
  | sent =>
    refine ⟨h.transmit _ (hcmd _ _ rfl) _, fun p hp => ?_⟩
    rw [transmitted_transmit] at hp
    rw [List.mem_singleton.mp hp]
    exact hcmd _ _ rfl
  | @connected identity writer =>
    have hconnect : Holds ok (b.connect identity writer) :=
      ⟨fun m hm => absurd hm List.not_mem_nil, h.pending⟩
    refine ⟨hconnect.transmitAll h.buffer, fun p hp => ?_⟩
    have hmsg : p.message ∈ b.buffer := by
      rw [← transmitted_transmitAll (b.connect identity writer) b.buffer]
      exact List.mem_map_of_mem hp
    exact h.buffer p.message hmsg
  | @resent msgId p hp =>
    have hdata : ok p.data := h.pending msgId p hp
    refine ⟨(hforget _).transmit _ hdata _, fun q hq => ?_⟩
    rw [transmitted_transmit] at hq
    rw [List.mem_singleton.mp hq]
    exact hdata
  | rebuffered hp =>
    refine ⟨⟨fun m hm => ?_, (hforget _).pending⟩, fun p hp => absurd hp List.not_mem_nil⟩
    rcases List.mem_append.mp hm with hm | hm
    · exact h.buffer m hm
    · rw [List.mem_singleton.mp hm]
      exact h.pending _ _ hp
  | acked | gaveUp => exact ⟨hforget _, fun p hp => absurd hp List.not_mem_nil⟩
  | @dataReq identity msgId payload =>
    refine ⟨h, fun p hp => ?_⟩
    have hnone : transmitted (b.route (some identity) (.ack msgId)).2 = [] :=
      transmitted_route _ _ _
    have hp' : p ∈ transmitted (b.route (some identity) (.ack msgId)).2 := hp
    rw [hnone] at hp'
    exact absurd hp' List.not_mem_nil
  | turnedAway | data | ackIgnored | hello | heartbeat | timeoutIgnored | close =>
    exact ⟨h, fun p hp => absurd hp List.not_mem_nil⟩
  | disconnected => exact ⟨⟨h.buffer, h.pending⟩, fun p hp => absurd hp List.not_mem_nil⟩

end Broker

end Aiomsg
