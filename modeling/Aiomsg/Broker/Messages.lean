import Aiomsg.Broker.AtMostOnce
import Aiomsg.Broker.Ids
import Aiomsg.Broker.Provenance
import Mathlib.Data.List.Perm.Subperm

/-!
# Messages going out and coming in

A DATA and a DATA_REQ bring the application at the other end a message. Here is what the broker does
with messages, whatever its delivery guarantee: what it takes from a session it puts on the receive
queue, once; and what it puts on writers is what it transmitted. A transmission that is given to one
peer puts out at most one frame, so the messages on any number of different writers together are
among the transmissions.

## Scope

A message is known by its id and its payload. Where two transmissions have the same of both they are
counted as often as they occur: everything is stated about lists, as sublists or permutations, and
not about sets.

## Main results

* `received_step` — a message taken is a message received
* `messages_step` — under `RoundRobin` the messages put out are among the transmissions
* `requests_step` — the ids of the DATA_REQs put out are among those given out
* `flatMap_messagesOn_subperm` — different writers share the messages among them
-/

namespace Aiomsg

variable {C D : Type}

/-- What a DATA or a DATA_REQ brings: its id, if it is to be acknowledged, and its payload. -/
def Envelope.message? : Envelope D → Option (Option MsgId × D)
  | .data payload => some (none, payload)
  | .dataReq msgId payload => some (some msgId, payload)
  | _ => none

/-- The message a session forwards with a command. -/
def Command.message? : Command C D → Option (Option MsgId × D)
  | .received _ envelope => envelope.message?
  | _ => none

def Effect.recv? : Effect C D → Option D
  | .recv _ payload => some payload
  | _ => none

/-- The id a transmission was given and its payload. -/
def Effect.stamp? : Effect C D → Option (Option MsgId × D)
  | .transmit msgId message => some (msgId, message.data)
  | _ => none

/-- The payloads some effects put on the receive queue, in order. -/
def received (effects : List (Effect C D)) : List D := effects.filterMap Effect.recv?

/-- The transmissions among some effects, in order. -/
def stamps (effects : List (Effect C D)) : List (Option MsgId × D) :=
  effects.filterMap Effect.stamp?

/-- The messages some effects put on writers, in order. -/
def messages (effects : List (Effect C D)) : List (Option MsgId × D) :=
  (frames effects).filterMap fun f => f.2.message?

/-- The messages some effects put on one writer, in order. -/
def messagesOn [DecidableEq C] (w : C) (effects : List (Effect C D)) : List (Option MsgId × D) :=
  (framesOn w effects).filterMap Envelope.message?

@[simp] theorem received_append (es es' : List (Effect C D)) :
    received (es ++ es') = received es ++ received es' :=
  List.filterMap_append

@[simp] theorem stamps_append (es es' : List (Effect C D)) :
    stamps (es ++ es') = stamps es ++ stamps es' :=
  List.filterMap_append

@[simp] theorem messages_append (es es' : List (Effect C D)) :
    messages (es ++ es') = messages es ++ messages es' := by
  simp [messages, frames, List.filterMap_append]

@[simp] theorem messagesOn_append [DecidableEq C] (w : C) (es es' : List (Effect C D)) :
    messagesOn w (es ++ es') = messagesOn w es ++ messagesOn w es' := by
  simp [messagesOn]

/-- The payloads of the transmissions. -/
theorem map_snd_stamps (es : List (Effect C D)) :
    (stamps es).map Prod.snd = (transmitted es).map Pending.data := by
  induction es with
  | nil => rfl
  | cons e es ih =>
    cases e with
    | transmit msgId message => exact congrArg (message.data :: ·) ih
    | frame | recv | accept | arm | cancel => exact ih

/-- The ids of the transmissions. -/
theorem filterMap_fst_stamps (es : List (Effect C D)) :
    (stamps es).filterMap Prod.fst = issued es := by
  induction es with
  | nil => rfl
  | cons e es ih =>
    cases e with
    | transmit msgId message =>
      cases msgId with
      | none => exact ih
      | some msgId => exact congrArg (msgId :: ·) ih
    | frame | recv | accept | arm | cancel => exact ih

/-! ### Coming in -/

namespace Broker

theorem received_transmit (b : Broker C D) (identity : Option Identity) (data : D) (retries : ℕ) :
    received (b.transmit identity data retries).2 = [] := by
  refine List.filterMap_eq_nil_iff.mpr fun e he => ?_
  rcases mem_transmit he with ⟨_, rfl⟩ | ⟨_, rfl⟩ | ⟨_, _, _, _, rfl, _⟩
  · rfl
  · rfl
  · rfl

theorem received_transmitAll (b : Broker C D) (msgs : List (Option Identity × D)) :
    received (b.transmitAll msgs).2 = [] := by
  induction msgs generalizing b with
  | nil => rfl
  | cons msg rest ih => rw [transmitAll, received_append, received_transmit, ih, List.append_nil]

/-- **A message taken is a message received**, once, and nothing else is received. -/
theorem received_step (b : Broker C D) (cmd : Command C D) :
    received (b.step cmd).2 = cmd.message?.toList.map Prod.snd := by
  have hturn := b.turn_step cmd
  generalize b.step cmd = r at hturn
  cases hturn with
  | sent => exact received_transmit _ _ _ _
  | resent => exact received_transmit _ _ _ _
  | connected => exact received_transmitAll _ _
  | @dataReq identity msgId payload =>
    have hack : received (b.sendTo identity (.ack msgId)) = [] := by
      refine List.filterMap_eq_nil_iff.mpr fun e he => ?_
      obtain ⟨w, -, rfl⟩ := mem_sendTo he
      rfl
    show payload :: received (b.sendTo identity (.ack msgId)) = [payload]
    rw [hack]
  | buffered | turnedAway | disconnected | data | acked | ackIgnored | hello | heartbeat
  | timeoutIgnored | gaveUp | rebuffered | close => rfl

/-! ### Going out -/

/-- What is for one peer goes to one writer at most. -/
theorem route_snd_of_single (b : Broker C D) {target : Option Identity} (frame : Envelope D)
    (h : target.isSome = true ∨ b.sendMode = .roundRobin) :
    (b.route target frame).2 = [] ∨ ∃ w, (b.route target frame).2 = [.frame w frame] := by
  have hsendTo (b' : Broker C D) (id : Identity) :
      b'.sendTo id frame = [] ∨ ∃ w, b'.sendTo id frame = [.frame w frame] := by
    rw [sendTo]
    cases b'.conns.lookup id with
    | none => exact .inl rfl
    | some w => exact .inr ⟨w, rfl⟩
  cases target with
  | some id => exact hsendTo b id
  | none =>
    have hmode : b.sendMode = .roundRobin := h.resolve_left Bool.false_ne_true
    simp only [route, hmode, nextRoundRobin]
    split_ifs with hempty
    · exact .inl rfl
    · cases b.order[b.rrCursor.toNat % b.order.length]? with
      | none => exact .inl rfl
      | some id => exact hsendTo _ id

/-- The frames of a transmission, and its stamp. -/
theorem exists_transmit_snd (b : Broker C D) (identity : Option Identity) (data : D)
    (retries : ℕ) :
    ∃ (msgId : Option MsgId) (b' : Broker C D) (frame : Envelope D),
      b'.sendMode = b.sendMode ∧ frame.message? = some (msgId, data) ∧
      (msgId.isSome = true → identity.isSome = true ∨ b.sendMode = .roundRobin) ∧
      frames (b.transmit identity data retries).2 = frames (b'.route identity frame).2 ∧
      stamps (b.transmit identity data retries).2 = [(msgId, data)] := by
  have hstamps (b' : Broker C D) (frame : Envelope D) :
      stamps (b'.route identity frame).2 = [] := by
    refine List.filterMap_eq_nil_iff.mpr fun e he => ?_
    obtain ⟨_, w, _, rfl⟩ := mem_route he
    rfl
  cases hack : b.atLeastOnce identity with
  | true =>
    have hmode : identity.isSome = true ∨ b.sendMode = .roundRobin := by
      rw [atLeastOnce, Bool.and_eq_true, Bool.or_eq_true] at hack
      exact hack.2.imp_right eq_of_beq
    rw [transmit_of_atLeastOnce data retries hack]
    refine ⟨some (msgIdOf b.salt b.nextId), b.enter ⟨identity, data, retries⟩,
      .dataReq (msgIdOf b.salt b.nextId) data, rfl, rfl, fun _ => hmode, rfl, ?_⟩
    exact congrArg (_ :: ·) (hstamps _ _)
  | false =>
    rw [transmit_of_atMostOnce data retries hack]
    refine ⟨none, b, .data data, rfl, rfl, fun hnone => absurd hnone (by simp), rfl, ?_⟩
    exact congrArg (_ :: ·) (hstamps _ _)

theorem messages_of_frames {es : List (Effect C D)} {w : C} {frame : Envelope D}
    {m : Option MsgId × D} (hframe : frame.message? = some m)
    (h : es = [] ∨ es = [.frame w frame]) : (messages es).Sublist [m] := by
  rcases h with rfl | rfl
  · exact List.nil_sublist _
  · have hone : messages [Effect.frame w frame] = [m] := by
      simp [messages, frames, Effect.frame?, hframe]
    rw [hone]

/-- A transmission for one peer puts out one message at most, its own. -/
theorem messages_transmit (b : Broker C D) {identity : Option Identity} (data : D) (retries : ℕ)
    (h : identity.isSome = true ∨ b.sendMode = .roundRobin) :
    (messages (b.transmit identity data retries).2).Sublist
      (stamps (b.transmit identity data retries).2) := by
  obtain ⟨msgId, b', frame, hmode, hframe, -, hframes, hstamps⟩ :=
    b.exists_transmit_snd identity data retries
  have hmessages : messages (b.transmit identity data retries).2
      = messages (b'.route identity frame).2 := by
    rw [messages, messages, hframes]
  rw [hmessages, hstamps]
  rcases b'.route_snd_of_single frame (hmode ▸ h) with hnil | ⟨w, hone⟩
  · rw [hnil]
    exact List.nil_sublist _
  · exact messages_of_frames (w := w) hframe (.inr hone)

theorem messages_transmitAll {b : Broker C D} (hmode : b.sendMode = .roundRobin)
    (msgs : List (Option Identity × D)) :
    (messages (b.transmitAll msgs).2).Sublist (stamps (b.transmitAll msgs).2) := by
  induction msgs generalizing b with
  | nil => exact List.Sublist.refl _
  | cons msg rest ih =>
    rw [transmitAll, messages_append, stamps_append]
    refine (b.messages_transmit _ _ (.inr hmode)).append (ih ?_)
    exact (b.sameTable_transmit _ _ _).sendMode.trans hmode

theorem messages_sendTo_ack (b : Broker C D) (id : Identity) (msgId : MsgId) :
    messages (b.sendTo id (.ack msgId)) = [] := by
  rw [sendTo]
  cases b.conns.lookup id <;> rfl

/-- **Under `RoundRobin` each message put out is a transmission**, and none is put out twice. -/
theorem messages_step {b : Broker C D} (hmode : b.sendMode = .roundRobin) (cmd : Command C D) :
    (messages (b.step cmd).2).Sublist (stamps (b.step cmd).2) := by
  have hturn := b.turn_step cmd
  generalize b.step cmd = r at hturn
  cases hturn with
  | sent => exact b.messages_transmit _ _ (.inr hmode)
  | resent => exact (b.forget _).messages_transmit _ _ (.inr hmode)
  | @connected identity writer _ _ =>
    exact messages_transmitAll (b := b.connect identity writer) hmode b.buffer
  | @dataReq identity msgId payload =>
    show (messages (b.sendTo identity (.ack msgId))).Sublist _
    rw [messages_sendTo_ack]
    exact List.nil_sublist _
  | buffered | turnedAway | disconnected | data | acked | ackIgnored | hello | heartbeat
  | timeoutIgnored | gaveUp | rebuffered | close => exact List.nil_sublist _

/-! ### Requests -/

/-- The ids of the DATA_REQs some effects put on writers. -/
def requests (effects : List (Effect C D)) : List MsgId := (messages effects).filterMap Prod.fst

@[simp] theorem requests_append (es es' : List (Effect C D)) :
    requests (es ++ es') = requests es ++ requests es' := by
  simp [requests]

theorem requests_transmit (b : Broker C D) (identity : Option Identity) (data : D)
    (retries : ℕ) : (requests (b.transmit identity data retries).2).Sublist
      (issued (b.transmit identity data retries).2) := by
  obtain ⟨msgId, b', frame, -, hframe, hsingle, hframes, hstamps⟩ :=
    b.exists_transmit_snd identity data retries
  cases msgId with
  | some msgId =>
    rw [← filterMap_fst_stamps]
    exact (b.messages_transmit data retries (hsingle rfl)).filterMap _
  | none =>
    -- without an id every frame is a DATA
    have hnil : requests (b.transmit identity data retries).2 = [] := by
      rw [requests, messages, hframes]
      refine List.filterMap_eq_nil_iff.mpr fun m hm => ?_
      obtain ⟨f, hf, hfm⟩ := List.mem_filterMap.mp hm
      obtain ⟨e, he, hef⟩ := List.mem_filterMap.mp hf
      obtain ⟨_, w, _, rfl⟩ := mem_route he
      obtain rfl := Option.some.inj hef
      obtain rfl := Option.some.inj (hframe.symm.trans hfm)
      rfl
    rw [hnil]
    exact List.nil_sublist _

theorem requests_transmitAll (b : Broker C D) (msgs : List (Option Identity × D)) :
    (requests (b.transmitAll msgs).2).Sublist (issued (b.transmitAll msgs).2) := by
  induction msgs generalizing b with
  | nil => exact List.Sublist.refl _
  | cons msg rest ih =>
    rw [transmitAll, requests_append, issued_append]
    exact (b.requests_transmit _ _ _).append (ih _)

/-- **The DATA_REQs put out are of different transmissions**, under both send modes. -/
theorem requests_step (b : Broker C D) (cmd : Command C D) :
    (requests (b.step cmd).2).Sublist (issued (b.step cmd).2) := by
  have hturn := b.turn_step cmd
  generalize b.step cmd = r at hturn
  cases hturn with
  | sent => exact b.requests_transmit _ _ _
  | resent => exact (b.forget _).requests_transmit _ _ _
  | @connected identity writer _ _ =>
    exact (b.connect identity writer).requests_transmitAll b.buffer
  | @dataReq identity msgId payload =>
    have hnil : requests (b.sendTo identity (.ack msgId)) = [] := by
      rw [requests, messages_sendTo_ack]
      rfl
    show (requests (b.sendTo identity (.ack msgId))).Sublist _
    rw [hnil]
    exact List.nil_sublist _
  | buffered | turnedAway | disconnected | data | acked | ackIgnored | hello | heartbeat
  | timeoutIgnored | gaveUp | rebuffered | close => exact List.nil_sublist _

theorem Plain.issued_transmitAll {b : Broker C D} (hb : Plain b)
    (msgs : List (Option Identity × D)) : issued (b.transmitAll msgs).2 = [] := by
  induction msgs generalizing b with
  | nil => rfl
  | cons msg rest ih =>
    rw [Broker.transmitAll, issued_append, ih (hb.transmit _ _ _), List.append_nil, hb.transmit_eq]
    exact issued_route b _ _

/-- A broker that asks for no acknowledgements gives out no ids. -/
theorem Plain.issued_step {b : Broker C D} (hb : Plain b) (cmd : Command C D) :
    issued (b.step cmd).2 = [] := by
  have hturn := b.turn_step cmd
  generalize b.step cmd = r at hturn
  cases hturn with
  | sent =>
    rw [hb.transmit_eq]
    exact issued_route b _ _
  | @connected identity writer _ _ =>
    exact Plain.issued_transmitAll (hb.of_eq rfl rfl : Plain (b.connect identity writer)) b.buffer
  | acked h | gaveUp h | rebuffered h | resent h => simp [hb.pending] at h
  | @dataReq identity msgId payload => exact issued_route b (some identity) (.ack msgId)
  | buffered | turnedAway | disconnected | data | ackIgnored | hello | heartbeat
  | timeoutIgnored | close => rfl

/-- A broker that asks for no acknowledgements puts out DATA, and ACKs. -/
theorem Plain.messagesOn_step [DecidableEq C] {b : Broker C D} (hb : Plain b) (cmd : Command C D)
    (w : C) : messagesOn w (b.step cmd).2 = (dataOn w (b.step cmd).2).map (none, ·) := by
  have hdata : ∀ f ∈ framesOn w (b.step cmd).2, f.message? = f.data?.map (none, ·) := by
    intro f hf
    cases f with
    | dataReq msgId payload =>
      have horigin := origin_step (mem_framesOn.mp hf)
      cases horigin with
      | dataReq msgId p hp =>
        have hnone : issued (b.step cmd).2 = [] := hb.issued_step cmd
        exact absurd (mem_issued hp) (hnone ▸ List.not_mem_nil)
    | data | ack | hello | heartbeat => rfl
  rw [messagesOn, dataOn, List.map_filterMap]
  exact List.filterMap_congr hdata

end Broker

/-! ### Different writers -/

/-- The entries under different keys are different entries. -/
theorem flatMap_filter_subperm {K V : Type} [DecidableEq K] {ks : List K} (hks : ks.Nodup)
    (l : List (K × V)) :
    (ks.flatMap fun k => l.filter fun e => e.1 = k).Subperm l := by
  induction ks generalizing l with
  | nil => exact List.nil_subperm
  | cons k ks ih =>
    obtain ⟨hk, hks⟩ := List.nodup_cons.mp hks
    have hrest : (ks.flatMap fun k' => l.filter fun e => e.1 = k')
        = ks.flatMap fun k' => (l.filter fun e => ! decide (e.1 = k)).filter fun e => e.1 = k' := by
      refine List.flatMap_congr fun k' hk' => ?_
      rw [List.filter_filter]
      refine List.filter_congr fun e _ => ?_
      by_cases he : e.1 = k'
      · have hne : e.1 ≠ k := by
          rintro rfl
          exact hk (he ▸ hk')
        simp [he, he ▸ hne]
      · simp [he]
    rw [List.flatMap_cons, hrest]
    have hsub := List.Subperm.append (List.Subperm.refl (l.filter fun e => e.1 = k))
      (ih hks (l.filter fun e => ! decide (e.1 = k)))
    exact hsub.trans (List.filter_append_perm _ l).subperm

theorem subperm_filterMap {α β : Type} {l l' : List α} (h : l.Subperm l') (f : α → Option β) :
    (l.filterMap f).Subperm (l'.filterMap f) := by
  obtain ⟨m, hperm, hsub⟩ := h
  exact ⟨m.filterMap f, hperm.filterMap f, hsub.filterMap f⟩

/-- **Different writers share the messages among them.** -/
theorem flatMap_messagesOn_subperm [DecidableEq C] {ws : List C} (hws : ws.Nodup)
    (es : List (Effect C D)) : (ws.flatMap fun w => messagesOn w es).Subperm (messages es) := by
  have heq : (ws.flatMap fun w => messagesOn w es)
      = (ws.flatMap fun w => (frames es).filter fun f => f.1 = w).filterMap
          fun f => f.2.message? := by
    rw [List.filterMap_flatMap]
    refine List.flatMap_congr fun w _ => ?_
    rw [messagesOn, framesOn, List.filterMap_map]
    rfl
  rw [heq]
  exact subperm_filterMap (flatMap_filter_subperm hws (frames es)) _

end Aiomsg
