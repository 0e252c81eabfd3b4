import Aiomsg.Broker.Trace

/-!
# Message ids

`next_msg_id` gives out the broker's salt followed by a 64-bit counter. `Issues` follows the ids
given out over any stretch of a run: they are consecutive, each is armed once, and as long as there
are fewer than `2 ^ 64` of them no two are the same, which is what "never reused for the life of the
broker" in the source comes to.

## Scope

The counter wraps after `2 ^ 64` ids. The bound is a hypothesis where it is needed, and only there.
That two brokers have different salts is not said here: the salt is drawn at random when a broker is
made.

## Main results

* `Broker.issues_step`
* `Broker.Issues.nodup`, `Broker.Issues.fresh`
-/

namespace Aiomsg

variable {C D : Type}

def Effect.issued? : Effect C D → Option MsgId
  | .transmit msgId _ => msgId
  | _ => none

def Effect.arm? : Effect C D → Option MsgId
  | .arm msgId => some msgId
  | _ => none

/-- The ids given out among some effects, in order. -/
def issued (effects : List (Effect C D)) : List MsgId := effects.filterMap Effect.issued?

/-- The ids armed among some effects, in order. -/
def arms (effects : List (Effect C D)) : List MsgId := effects.filterMap Effect.arm?

@[simp] theorem issued_append (es es' : List (Effect C D)) :
    issued (es ++ es') = issued es ++ issued es' :=
  List.filterMap_append

@[simp] theorem arms_append (es es' : List (Effect C D)) : arms (es ++ es') = arms es ++ arms es' :=
  List.filterMap_append

/-- Not every transmission is given an id. -/
theorem length_issued_le (es : List (Effect C D)) :
    (issued es).length ≤ (transmitted es).length := by
  induction es with
  | nil => exact Nat.le_refl _
  | cons e es ih =>
    cases e with
    | transmit msgId message =>
      cases msgId with
      | none => exact ih.trans (Nat.le_succ _)
      | some msgId => exact Nat.succ_le_succ ih
    | frame | recv | accept | arm | cancel => exact ih

theorem mem_issued {es : List (Effect C D)} {msgId : MsgId} {p : Pending D}
    (h : .transmit (some msgId) p ∈ es) : msgId ∈ issued es :=
  List.mem_filterMap.mpr ⟨_, h, rfl⟩

/-- Where no id is given out twice, an id says which transmission it was given to. -/
theorem eq_of_nodup_issued {es : List (Effect C D)} (hnodup : (issued es).Nodup) {msgId : MsgId}
    {p q : Pending D} (hp : .transmit (some msgId) p ∈ es) (hq : .transmit (some msgId) q ∈ es) :
    p = q := by
  induction es with
  | nil => exact absurd hp List.not_mem_nil
  | cons e es ih =>
    by_cases he : e.issued? = some msgId
    · -- the id of the head is not given out again
      have hcons : issued (e :: es) = msgId :: issued es := List.filterMap_cons_some he
      rw [hcons] at hnodup
      have hrest : ∀ r, .transmit (some msgId) r ∉ es :=
        fun r hr => (List.nodup_cons.mp hnodup).1 (mem_issued hr)
      have hp' := (List.mem_cons.mp hp).resolve_right (hrest p)
      have hq' := (List.mem_cons.mp hq).resolve_right (hrest q)
      exact (Effect.transmit.inj (hp'.trans hq'.symm)).2
    · have htail : ∀ r, .transmit (some msgId) r ∈ e :: es → .transmit (some msgId) r ∈ es := by
        intro r hr
        refine (List.mem_cons.mp hr).resolve_left ?_
        rintro rfl
        exact he rfl
      have hsub : (issued es).Sublist (issued (e :: es)) :=
        (List.sublist_cons_self e es).filterMap _
      exact ih (hnodup.sublist hsub) (htail p hp) (htail q hq)

namespace Broker

theorem msgIdOf_injective (salt : List.Vector UInt8 8) : Function.Injective (msgIdOf salt) := by
  intro n m h
  have hlists := List.append_cancel_left (congrArg List.Vector.toList h)
  exact UInt64.toNat_inj.mp (BigEndian.encode_inj (n.toNat_lt) (m.toNat_lt) hlists)

@[simp] theorem issued_route (b : Broker C D) (target : Option Identity) (frame : Envelope D) :
    issued (b.route target frame).2 = [] := by
  refine List.filterMap_eq_nil_iff.mpr fun e he => ?_
  obtain ⟨w, f, rfl⟩ := frames_of_route b target frame e he
  rfl

@[simp] theorem arms_route (b : Broker C D) (target : Option Identity) (frame : Envelope D) :
    arms (b.route target frame).2 = [] := by
  refine List.filterMap_eq_nil_iff.mpr fun e he => ?_
  obtain ⟨w, f, rfl⟩ := frames_of_route b target frame e he
  rfl

/-- What a stretch of a run does to the ids: from `b` to `b'`, with effects `es`. Stretches compose,
so this is proved once for each handler and holds of runs. -/
structure Issues (b b' : Broker C D) (es : List (Effect C D)) : Prop where
  salt : b'.salt = b.salt
  nextId : b'.nextId = b.nextId + UInt64.ofNat (issued es).length
  ids : issued es =
    (List.range (issued es).length).map fun k => msgIdOf b.salt (b.nextId + UInt64.ofNat k)
  armed : arms es = issued es

/-- A stretch in which no id is given out. -/
theorem Issues.of_none {b b' : Broker C D} {es : List (Effect C D)} (hsalt : b'.salt = b.salt)
    (hnext : b'.nextId = b.nextId) (hissued : issued es = []) (harms : arms es = []) :
    Issues b b' es where
  salt := hsalt
  nextId := by rw [hissued, hnext]; exact (UInt64.add_zero _).symm
  ids := by rw [hissued]; rfl
  armed := by rw [hissued, harms]

theorem Issues.trans {b b' b'' : Broker C D} {es es' : List (Effect C D)} (h : Issues b b' es)
    (h' : Issues b' b'' es') : Issues b b'' (es ++ es') where
  salt := h'.salt.trans h.salt
  nextId := by
    rw [h'.nextId, h.nextId, issued_append, List.length_append, UInt64.ofNat_add, UInt64.add_assoc]
  ids := by
    rw [issued_append, List.length_append, List.range_add, List.map_append, ← h.ids, List.map_map]
    congr 1
    refine h'.ids.trans (List.map_congr_left fun k _ => ?_)
    show msgIdOf b'.salt (b'.nextId + UInt64.ofNat k) = msgIdOf b.salt (b.nextId + UInt64.ofNat _)
    rw [h.salt, h.nextId, UInt64.ofNat_add, UInt64.add_assoc]
  armed := by rw [arms_append, issued_append, h.armed, h'.armed]

theorem issued_transmit {b : Broker C D} {identity : Option Identity} (data : D) (retries : ℕ)
    (h : b.atLeastOnce identity = true) :
    issued (b.transmit identity data retries).2 = [msgIdOf b.salt b.nextId] := by
  rw [transmit_of_atLeastOnce data retries h]
  show _ :: issued (route _ _ _).2 = _
  rw [issued_route]

theorem issues_transmit (b : Broker C D) (identity : Option Identity) (data : D) (retries : ℕ) :
    Issues b (b.transmit identity data retries).1 (b.transmit identity data retries).2 := by
  cases hack : b.atLeastOnce identity with
  | true =>
    refine ⟨(b.sameTable_transmit _ _ _).salt, ?_, ?_, ?_⟩
    · rw [issued_transmit data retries hack, transmit_of_atLeastOnce data retries hack,
        route_nextId]
      rfl
    · rw [issued_transmit data retries hack]
      show _ = [msgIdOf b.salt (b.nextId + 0)]
      rw [UInt64.add_zero]
    · rw [issued_transmit data retries hack, transmit_of_atLeastOnce data retries hack]
      show _ :: arms (route _ _ _).2 = _
      rw [arms_route]
  | false =>
    rw [transmit_of_atMostOnce data retries hack]
    exact .of_none (sameTable_route _ _ _).salt (route_nextId _ _ _) (issued_route _ _ _)
      (arms_route _ _ _)

theorem issues_transmitAll (b : Broker C D) (msgs : List (Option Identity × D)) :
    Issues b (b.transmitAll msgs).1 (b.transmitAll msgs).2 := by
  induction msgs generalizing b with
  | nil => exact .of_none rfl rfl rfl rfl
  | cons msg rest ih => exact (issues_transmit b msg.1 msg.2 maxRetries).trans (ih _)

/-- **Ids are given out one after the other**, whatever the command. -/
theorem issues_step (b : Broker C D) (cmd : Command C D) :
    Issues b (b.step cmd).1 (b.step cmd).2 := by
  have hturn := b.turn_step cmd
  generalize b.step cmd = r at hturn
  cases hturn with
  | sent => exact issues_transmit _ _ _ _
  | @connected identity writer accept _ =>
    have hflush := issues_transmitAll (b.connect identity writer) b.buffer
    exact ⟨hflush.salt, hflush.nextId, hflush.ids, hflush.armed⟩
  | @resent msgId p =>
    have hresend := issues_transmit (b.forget msgId) p.identity p.data (p.retries - 1)
    exact ⟨hresend.salt, hresend.nextId, hresend.ids, hresend.armed⟩
  | @dataReq identity msgId payload =>
    exact .of_none rfl rfl (issued_route b (some identity) (.ack msgId))
      (arms_route b (some identity) (.ack msgId))
  | buffered | turnedAway | disconnected | data | acked | ackIgnored | hello | heartbeat
  | timeoutIgnored | gaveUp | rebuffered | close => exact .of_none rfl rfl rfl rfl

/-- Fewer than `2 ^ 64` counts apart, ids differ. -/
theorem msgIdOf_add_inj {salt : List.Vector UInt8 8} {start : UInt64} {n m : ℕ} (hn : n < 2 ^ 64)
    (hm : m < 2 ^ 64)
    (heq : msgIdOf salt (start + UInt64.ofNat n) = msgIdOf salt (start + UInt64.ofNat m)) :
    n = m := by
  have hsum := (UInt64.add_right_inj start).mp (msgIdOf_injective salt heq)
  have hnat := congrArg UInt64.toNat hsum
  rwa [UInt64.toNat_ofNat_of_lt' hn, UInt64.toNat_ofNat_of_lt' hm] at hnat

/-- **Below `2 ^ 64` transmissions no id is given out twice.** -/
theorem Issues.nodup {b b' : Broker C D} {es : List (Effect C D)} (h : Issues b b' es)
    (hcount : (issued es).length < 2 ^ 64) : (issued es).Nodup := by
  rw [h.ids]
  refine List.Nodup.map_on (fun n hn m hm heq => ?_) List.nodup_range
  rw [List.mem_range] at hn hm
  exact msgIdOf_add_inj (hn.trans hcount) (hm.trans hcount) heq

/-- **The next id is new.** -/
theorem Issues.fresh {b b' : Broker C D} {es : List (Effect C D)} (h : Issues b b' es)
    (hcount : (issued es).length < 2 ^ 64) : msgIdOf b'.salt b'.nextId ∉ issued es := by
  intro hmem
  rw [h.ids, h.salt, h.nextId] at hmem
  obtain ⟨k, hk, heq⟩ := List.mem_map.mp hmem
  rw [List.mem_range] at hk
  exact absurd (msgIdOf_add_inj (hk.trans hcount) hcount heq) hk.ne

end Broker

end Aiomsg
