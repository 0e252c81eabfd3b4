import Aiomsg.Broker.Trace

/-!
# At-most-once delivery

A broker with `AtMostOnce` delivery keeps no unacknowledged messages, so a message handed over is
either in the buffer or has been routed, once. The buffer is only used while nobody is connected,
and it is flushed, whole and in order, by the first connection; so nothing overtakes anything, and
what one writer gets is a subsequence of what was sent.

## Scope

Writers are told apart here, so handles have decidable equality; the broker itself never compares
them. A writer is not used again for another connection, which is what `conn.rs` does: it makes a
channel for each session.

## Main results

* `transmitted_append_buffer` — routed messages, then the buffer, are the messages sent
* `data_sublist_transmitted` — each writer gets each routed message at most once
* `atMostOnce_in_order`
-/

namespace Aiomsg

open Broker

variable {C D : Type}

/-- The messages addressed to nobody in particular. -/
def undirected (msgs : List (Option Identity × D)) : List D :=
  (msgs.filter fun m => m.1.isNone).map Prod.snd

def Envelope.data? : Envelope D → Option D
  | .data payload => some payload
  | _ => none

/-- The payloads of the DATA frames put on one writer. -/
def dataOn [DecidableEq C] (w : C) (effects : List (Effect C D)) : List D :=
  (framesOn w effects).filterMap Envelope.data?

namespace Broker

/-- A broker that asks for no acknowledgements, and waits for none. -/
structure Plain (b : Broker C D) : Prop where
  delivery : b.delivery = .atMostOnce
  pending : ∀ msgId, b.pending.lookup msgId = none

theorem Plain.atLeastOnce {b : Broker C D} (hb : Plain b) (identity : Option Identity) :
    b.atLeastOnce identity = false := by
  rw [Broker.atLeastOnce, hb.delivery]
  rfl

theorem Plain.transmit_eq {b : Broker C D} (hb : Plain b) (identity : Option Identity) (data : D)
    (retries : ℕ) :
    b.transmit identity data retries =
      ((b.route identity (.data data)).1,
        .transmit none ⟨identity, data, retries⟩ :: (b.route identity (.data data)).2) :=
  transmit_of_atMostOnce data retries (hb.atLeastOnce identity)

theorem Plain.of_eq {b b' : Broker C D} (hb : Plain b) (hdelivery : b'.delivery = b.delivery)
    (hpending : b'.pending = b.pending) : Plain b' := by
  refine ⟨hdelivery.trans hb.delivery, fun msgId => ?_⟩
  rw [hpending]
  exact hb.pending msgId

theorem Plain.transmit {b : Broker C D} (hb : Plain b) (identity : Option Identity) (data : D)
    (retries : ℕ) : Plain (b.transmit identity data retries).1 := by
  rw [hb.transmit_eq]
  exact hb.of_eq (sameTable_route _ _ _).delivery (route_pending _ _ _)

theorem Plain.transmitAll {b : Broker C D} (hb : Plain b) (msgs : List (Option Identity × D)) :
    Plain (b.transmitAll msgs).1 := by
  induction msgs generalizing b with
  | nil => exact hb
  | cons msg rest ih => exact ih (hb.transmit _ _ _)

theorem Plain.step {b : Broker C D} (hb : Plain b) (cmd : Command C D) :
    Plain (b.step cmd).1 := by
  have hturn := b.turn_step cmd
  generalize b.step cmd = r at hturn
  cases hturn with
  | sent => exact hb.transmit _ _ _
  | connected h =>
    exact Plain.transmitAll (hb.of_eq rfl rfl : Plain (b.connect _ _)) _
  | buffered | disconnected => exact hb.of_eq rfl rfl
  | acked h | gaveUp h | rebuffered h | resent h => simp [hb.pending] at h
  | turnedAway | data | dataReq | ackIgnored | hello | heartbeat | timeoutIgnored | close =>
    exact hb

/-! ### Nothing lost, nothing twice, in order -/

/-- One turn moves messages from the command and the buffer to the routed ones, in order. -/
theorem transmitted_step {b : Broker C D} (hb : Plain b) (htidy : Tidy b) (cmd : Command C D) :
    (transmitted (b.step cmd).2).map Pending.message ++ (b.step cmd).1.buffer
      = b.buffer ++ cmd.send?.toList := by
  have hturn := b.turn_step cmd
  generalize b.step cmd = r at hturn
  cases hturn with
  | buffered => rfl
  | sent h =>
    -- somebody is connected, so the buffer is empty and nothing is overtaken
    have hbuffer : b.buffer = [] := by
      by_contra hne
      rw [htidy.idle hne] at h
      exact Bool.noConfusion h
    rw [transmitted_transmit, transmit_buffer, hbuffer]
    rfl
  | @connected identity writer _ h =>
    show (transmitted ((b.connect identity writer).transmitAll b.buffer).2).map _ ++ _ = _
    rw [transmitted_transmitAll, transmitAll_buffer]
    rfl
  | acked h | gaveUp h | rebuffered h | resent h => simp [hb.pending] at h
  | @dataReq identity msgId payload =>
    show (transmitted (b.route (some identity) (.ack msgId)).2).map _ ++ _ = _
    rw [transmitted_route]
    exact (List.append_nil _).symm
  | turnedAway | disconnected | data | ackIgnored | hello | heartbeat | timeoutIgnored | close =>
    exact (List.append_nil _).symm

/-- **No loss, no duplication, no overtaking.** The messages routed in a run, followed by those
still buffered after it, are those buffered before it followed by those handed over in it. -/
theorem transmitted_append_buffer {b : Broker C D} (hb : Plain b) (htidy : Tidy b)
    (cmds : List (Command C D)) :
    (transmitted (b.run cmds).2).map Pending.message ++ (b.run cmds).1.buffer
      = b.buffer ++ sends cmds := by
  induction cmds generalizing b with
  | nil => exact (List.append_nil _).symm
  | cons cmd rest ih =>
    by_cases hclose : cmd = .close
    · subst hclose
      exact (List.append_nil _).symm
    · rw [run_cons hclose, sends_cons hclose, transmitted_append, List.map_append,
        List.append_assoc, ih (hb.step cmd) (htidy.step cmd), ← List.append_assoc,
        transmitted_step hb htidy, List.append_assoc]

/-! ### Who gets a routed message -/

/-- The frames of one routed message: on one registered writer in turn, or once on each. Under
`publish` the order is that of the table's entries, so it is stated up to permutation. -/
def PutOut (b : Broker C D) (r : Pending D × List (C × Envelope D)) : Prop :=
  match b.sendMode with
  | .roundRobin => ∃ id w, b.conns.lookup id = some w ∧ r.2 = [(w, .data r.1.data)]
  | .publish => r.2.Perm (b.conns.entries.map fun entry => (entry.2, .data r.1.data))

theorem SameTable.putOut_iff {b b' : Broker C D} (h : SameTable b b')
    (r : Pending D × List (C × Envelope D)) : PutOut b' r ↔ PutOut b r := by
  rw [PutOut, PutOut, h.sendMode, h.conns]

/-- With somebody connected the round-robin cursor always points at a connected peer. -/
theorem Tidy.exists_turn {b : Broker C D} (htidy : Tidy b)
    (hconns : b.conns.entries.isEmpty = false) :
    ∃ id w, b.order[b.rrCursor.toNat % b.order.length]? = some id ∧
      b.conns.lookup id = some w := by
  obtain ⟨entry, hentry⟩ := List.exists_mem_of_ne_nil b.conns.entries (by
    rintro hnil
    rw [hnil] at hconns
    exact Bool.noConfusion hconns)
  have hmem : entry.1 ∈ b.order :=
    (htidy.mem_order _).mpr (AList.mem_keys.mp (List.mem_map_of_mem hentry))
  have hlt : b.rrCursor.toNat % b.order.length < b.order.length :=
    Nat.mod_lt _ (List.length_pos_of_mem hmem)
  have hid : b.order[b.rrCursor.toNat % b.order.length] ∈ b.conns :=
    (htidy.mem_order _).mp (List.getElem_mem hlt)
  obtain ⟨w, hw⟩ := Option.isSome_iff_exists.mp (AList.lookup_isSome.mpr hid)
  exact ⟨_, w, List.getElem?_eq_getElem hlt, hw⟩

theorem putOut_route {b : Broker C D} (htidy : Tidy b)
    (hconns : b.conns.entries.isEmpty = false) (data : D) (retries : ℕ) :
    PutOut b (⟨none, data, retries⟩, frames (b.route none (.data data)).2) := by
  obtain hmode | hmode : b.sendMode = .publish ∨ b.sendMode = .roundRobin := by
    cases b.sendMode <;> simp
  · simp [PutOut, route, hmode, frames, List.filterMap_map, Function.comp_def, Effect.frame?]
  · obtain ⟨id, w, hturn, hw⟩ := htidy.exists_turn hconns
    have hne : b.order.isEmpty = false := by
      by_contra hempty
      rw [Bool.not_eq_false, List.isEmpty_iff] at hempty
      simp [hempty] at hturn
    simp only [PutOut, route, hmode, nextRoundRobin, hne, Bool.false_eq_true, if_false, hturn]
    exact ⟨id, w, hw, by simp [sendTo, hw, frames, Effect.frame?]⟩

theorem Plain.routings_transmit {b : Broker C D} (hb : Plain b) (identity : Option Identity)
    (data : D) (retries : ℕ) {rest : List (Effect C D)} (hrest : burst rest = []) :
    routings ((b.transmit identity data retries).2 ++ rest) =
      (⟨identity, data, retries⟩, frames (b.route identity (.data data)).2) :: routings rest := by
  rw [hb.transmit_eq]
  show (_, burst ((b.route identity (.data data)).2 ++ rest)) ::
    routings ((b.route identity (.data data)).2 ++ rest) = _
  rw [burst_append (frames_of_route b _ _) hrest, routings_append (frames_of_route b _ _)]

theorem Plain.burst_transmitAll {b : Broker C D} (hb : Plain b)
    (msgs : List (Option Identity × D)) : burst (b.transmitAll msgs).2 = [] := by
  cases msgs with
  | nil => rfl
  | cons msg rest =>
    rw [Broker.transmitAll, hb.transmit_eq]
    rfl

theorem putOut_transmitAll {b : Broker C D} (hb : Plain b) (htidy : Tidy b)
    (hconns : b.conns.entries.isEmpty = false) (msgs : List (Option Identity × D)) :
    ∀ r ∈ routings (b.transmitAll msgs).2, r.1.identity = none → PutOut b r := by
  induction msgs generalizing b with
  | nil => exact fun r hr => absurd hr List.not_mem_nil
  | cons msg rest ih =>
    obtain ⟨identity, data⟩ := msg
    intro r hr hnone
    have htable := b.sameTable_transmit identity data maxRetries
    rw [Broker.transmitAll,
      hb.routings_transmit _ _ _ ((hb.transmit _ _ _).burst_transmitAll rest)] at hr
    obtain rfl | hr := List.mem_cons.mp hr
    · obtain rfl : identity = none := hnone
      exact putOut_route htidy hconns _ _
    · rw [← htable.putOut_iff]
      exact ih (hb.transmit _ _ _) (htidy.transmit _ _ _) (by rw [htable.conns]; exact hconns) r hr
        hnone

/-- Each message a step routes goes to the peers registered at that moment. -/
theorem putOut_step {b : Broker C D} (hb : Plain b) (htidy : Tidy b) (cmd : Command C D) :
    ∀ r ∈ routings (b.step cmd).2, r.1.identity = none → PutOut (b.step cmd).1 r := by
  have hturn := b.turn_step cmd
  generalize b.step cmd = r at hturn
  intro q hq hnone
  cases hturn with
  | @sent identity data h =>
    rw [← List.append_nil (b.transmit _ _ _).2, hb.routings_transmit _ _ _ rfl] at hq
    obtain rfl := List.mem_singleton.mp hq
    obtain rfl : identity = none := hnone
    exact ((b.sameTable_transmit _ _ _).putOut_iff _).mpr (putOut_route htidy h _ _)
  | @connected identity writer _ h =>
    have hplain : Plain (b.connect identity writer) := hb.of_eq rfl rfl
    refine (((b.connect identity writer).sameTable_transmitAll _).putOut_iff _).mpr ?_
    exact putOut_transmitAll hplain (htidy.connect h _) (isEmpty_connect _ _ _) _ q hq hnone
  | acked h | gaveUp h | rebuffered h | resent h => simp [hb.pending] at h
  | @dataReq identity msgId payload =>
    have hframes := frames_of_route b (some identity) (.ack msgId)
    have hq' : q ∈ routings ((b.route (some identity) (.ack msgId)).2 ++ []) := by
      rw [List.append_nil]
      exact hq
    rw [routings_append hframes] at hq'
    exact absurd hq' List.not_mem_nil
  | buffered | turnedAway | disconnected | data | ackIgnored | hello | heartbeat
  | timeoutIgnored | close => exact absurd hq List.not_mem_nil

/-! ### What one writer gets -/

/-- The writers of the registered connections. -/
def writers (b : Broker C D) : List C := b.conns.entries.map fun entry => entry.2

/-- Routing puts the one frame once on each of some registered writers. -/
theorem route_snd (b : Broker C D) (target : Option Identity) (frame : Envelope D) :
    ∃ ws : List C, ws.Sublist b.writers ∧ (b.route target frame).2 = ws.map (.frame · frame) := by
  have hsendTo : ∀ id, ∃ ws : List C, ws.Sublist b.writers ∧
      b.sendTo id frame = ws.map (.frame · frame) := by
    intro id
    cases hw : b.conns.lookup id with
    | none => exact ⟨[], List.nil_sublist _, by rw [sendTo, hw]; rfl⟩
    | some w =>
      have hmem : w ∈ b.writers := List.mem_map_of_mem (AList.mem_lookup_iff.mp hw)
      exact ⟨[w], List.singleton_sublist.mpr hmem, by rw [sendTo, hw]; rfl⟩
  cases target with
  | some id => exact hsendTo id
  | none =>
    cases hmode : b.sendMode with
    | publish =>
      refine ⟨b.writers, List.Sublist.refl _, ?_⟩
      simp [route, hmode, writers, Function.comp_def]
    | roundRobin =>
      have hnil : ∃ ws : List C, ws.Sublist b.writers ∧ [] = ws.map (Effect.frame · frame) :=
        ⟨[], List.nil_sublist _, rfl⟩
      simp only [route, hmode, nextRoundRobin]
      split_ifs with hempty
      · exact hnil
      · cases b.order[b.rrCursor.toNat % b.order.length]? with
        | none => exact hnil
        | some id => exact hsendTo id

/-- The registered writers stay distinct if those still to come are new. -/
theorem writers_step (b : Broker C D) (cmd : Command C D) {later : List C}
    (h : (b.writers ++ (cmd.writer?.toList ++ later)).Nodup) :
    ((b.step cmd).1.writers ++ later).Nodup := by
  have hkeep : ∀ b' : Broker C D, b'.conns = b.conns → (b'.writers ++ later).Nodup := by
    intro b' hconns
    rw [writers, hconns]
    exact h.sublist ((List.Sublist.refl _).append (List.sublist_append_right _ _))
  have hturn := b.turn_step cmd
  generalize b.step cmd = r at hturn
  cases hturn with
  | sent => exact hkeep _ (b.sameTable_transmit _ _ _).conns
  | resent => exact hkeep _ ((b.forget _).sameTable_transmit _ _ _).conns
  | @connected identity writer _ hmem =>
    have hconns := ((b.connect identity writer).sameTable_transmitAll b.buffer).conns
    rw [writers, hconns, connect, AList.entries_insert_of_notMem hmem]
    show (writer :: (b.writers ++ later)).Nodup
    exact (List.perm_middle.nodup_iff).mp h
  | @disconnected identity =>
    have hsub : (b.handleDown identity).writers.Sublist b.writers := by
      rw [writers, writers]
      exact List.Sublist.map _ (List.kerase_sublist identity b.conns.entries)
    exact h.sublist (hsub.append (List.sublist_append_right _ _))
  | buffered | rebuffered | acked | gaveUp | turnedAway | data | dataReq | ackIgnored | hello
  | heartbeat | timeoutIgnored | close => exact hkeep _ rfl

variable [DecidableEq C]

theorem dataOn_map_frame (w : C) (ws : List C) (data : D) :
    dataOn w (ws.map (Effect.frame · (.data data))) = List.replicate (ws.count w) data := by
  induction ws with
  | nil => rfl
  | cons w' ws ih =>
    by_cases h : w' = w <;>
      simp_all [dataOn, framesOn, frames, Effect.frame?, Envelope.data?, List.replicate_succ]

theorem dataOn_map_ack (w : C) (ws : List C) (msgId : MsgId) :
    dataOn w (ws.map (Effect.frame · (.ack msgId : Envelope D))) = [] := by
  induction ws with
  | nil => rfl
  | cons w' ws ih =>
    by_cases h : w' = w <;>
      simp_all [dataOn, framesOn, frames, Effect.frame?, Envelope.data?]

@[simp] theorem dataOn_append (w : C) (es es' : List (Effect C D)) :
    dataOn w (es ++ es') = dataOn w es ++ dataOn w es' := by
  simp [dataOn]

/-- One message goes to one writer at most once. -/
theorem Plain.dataOn_transmit {b : Broker C D} (hb : Plain b) (hwriters : b.writers.Nodup) (w : C)
    (identity : Option Identity) (data : D) (retries : ℕ) :
    (dataOn w (b.transmit identity data retries).2).Sublist [data] := by
  obtain ⟨ws, hws, heq⟩ := b.route_snd identity (.data data)
  rw [hb.transmit_eq]
  show (dataOn w (b.route identity (.data data)).2).Sublist [data]
  rw [heq, dataOn_map_frame]
  exact List.replicate_sublist_replicate data |>.mpr
    (List.nodup_iff_count_le_one.mp (hwriters.sublist hws) w)

theorem Plain.dataOn_transmitAll {b : Broker C D} (hb : Plain b) (hwriters : b.writers.Nodup)
    (w : C) (msgs : List (Option Identity × D)) :
    (dataOn w (b.transmitAll msgs).2).Sublist (msgs.map Prod.snd) := by
  induction msgs generalizing b with
  | nil => exact List.Sublist.refl _
  | cons msg rest ih =>
    have hconns := (b.sameTable_transmit msg.1 msg.2 maxRetries).conns
    rw [Broker.transmitAll, dataOn_append, List.map_cons]
    refine List.Sublist.append (hb.dataOn_transmit hwriters w _ _ _) (ih (hb.transmit _ _ _) ?_)
    rw [writers, hconns]
    exact hwriters

theorem dataOn_step {b : Broker C D} (hb : Plain b) (cmd : Command C D)
    (hwriters : (b.writers ++ cmd.writer?.toList).Nodup) (w : C) :
    (dataOn w (b.step cmd).2).Sublist ((transmitted (b.step cmd).2).map Pending.data) := by
  have hturn := b.turn_step cmd
  generalize b.step cmd = r at hturn
  cases hturn with
  | sent h =>
    rw [transmitted_transmit]
    exact hb.dataOn_transmit hwriters.of_append_left w _ _ _
  | @connected identity writer _ h =>
    have hplain : Plain (b.connect identity writer) := hb.of_eq rfl rfl
    have hnodup : (b.connect identity writer).writers.Nodup := by
      rw [writers, connect, AList.entries_insert_of_notMem h]
      exact List.nodup_append_comm.mp hwriters
    show (dataOn w ((b.connect identity writer).transmitAll b.buffer).2).Sublist
      ((transmitted ((b.connect identity writer).transmitAll b.buffer).2).map Pending.data)
    have hmsgs := congrArg (List.map Prod.snd)
      ((b.connect identity writer).transmitted_transmitAll b.buffer)
    rw [List.map_map] at hmsgs
    show List.Sublist _ (List.map (Prod.snd ∘ Pending.message) _)
    rw [hmsgs]
    exact hplain.dataOn_transmitAll hnodup w b.buffer
  | acked h | gaveUp h | rebuffered h | resent h => simp [hb.pending] at h
  | @dataReq identity msgId payload =>
    obtain ⟨ws, -, heq⟩ := b.route_snd (some identity) (.ack msgId)
    show (dataOn w (b.route (some identity) (.ack msgId)).2).Sublist _
    rw [heq, dataOn_map_ack]
    exact List.nil_sublist _
  | buffered | turnedAway | disconnected | data | ackIgnored | hello | heartbeat
  | timeoutIgnored | close => exact List.nil_sublist _

/-- **Each writer gets each routed message at most once, in order.** -/
theorem data_sublist_transmitted {b : Broker C D} (hb : Plain b) (cmds : List (Command C D))
    (hwriters : (b.writers ++ cmds.filterMap Command.writer?).Nodup) (w : C) :
    (dataOn w (b.run cmds).2).Sublist ((transmitted (b.run cmds).2).map Pending.data) := by
  induction cmds generalizing b with
  | nil => exact List.nil_sublist _
  | cons cmd rest ih =>
    by_cases hclose : cmd = .close
    · subst hclose
      exact List.nil_sublist _
    · have hcons : (cmd :: rest).filterMap Command.writer?
          = cmd.writer?.toList ++ rest.filterMap Command.writer? := by
        rw [List.filterMap_cons]
        cases cmd.writer? <;> rfl
      rw [hcons] at hwriters
      rw [run_cons hclose, dataOn_append, transmitted_append, List.map_append]
      refine (dataOn_step hb cmd ?_ w).append (ih (hb.step cmd) (b.writers_step cmd hwriters))
      rw [← List.append_assoc] at hwriters
      exact hwriters.of_append_left

end Broker

/-! ### The whole run -/

variable [DecidableEq C]

/-- **At-most-once delivery keeps the order, loses nothing and duplicates nothing.** In every state
a broker with `AtMostOnce` delivery can reach:

* nothing is buffered while somebody is connected;
* the undirected messages routed so far, then those in the buffer, are those sent, in order;
* whatever the next command, each undirected message it routes goes to one registered writer under
  `RoundRobin` and once to each registered writer under `Publish`;
* the DATA frames of a writer are a subsequence of what was sent.

A writer is a channel its session made for itself (`register`), so no two `ConnectionUp`s bring the
same one; the last part rests on that. -/
theorem atMostOnce_in_order (sendMode : SendMode) (salt : List.Vector UInt8 8)
    (cmds : List (Command C D)) (hwriters : (cmds.filterMap Command.writer?).Nodup) :
    let run := (new sendMode .atMostOnce salt : Broker C D).run cmds
    (run.1.buffer ≠ [] → run.1.conns = ∅) ∧
    undirected ((transmitted run.2).map Pending.message) ++ undirected run.1.buffer
      = undirected (sends cmds) ∧
    (∀ cmd, ∀ r ∈ routings (run.1.step cmd).2, r.1.identity = none → PutOut (run.1.step cmd).1 r) ∧
    ∀ w, (dataOn w run.2).Sublist ((sends cmds).map Prod.snd) := by
  intro run
  have hplain₀ : Plain (new sendMode .atMostOnce salt : Broker C D) := ⟨rfl, fun _ => rfl⟩
  have htidy₀ := tidy_new (C := C) (D := D) sendMode .atMostOnce salt
  have hplain : Plain run.1 := run_induction (fun _ cmd h => h.step cmd) hplain₀ cmds
  have htidy : Tidy run.1 := htidy₀.run cmds
  have hall : (transmitted run.2).map Pending.message ++ run.1.buffer = sends cmds :=
    transmitted_append_buffer hplain₀ htidy₀ cmds
  refine ⟨fun hne => ?_, ?_, putOut_step hplain htidy, fun w => ?_⟩
  · exact AList.ext (List.isEmpty_iff.mp (htidy.idle hne))
  · rw [← hall, undirected, undirected, undirected, List.filter_append, List.map_append]
  · have hrouted : ((transmitted run.2).map Pending.data).Sublist ((sends cmds).map Prod.snd) := by
      rw [← hall, List.map_append, List.map_map]
      exact List.sublist_append_left _ _
    exact (data_sublist_transmitted hplain₀ cmds hwriters w).trans hrouted

/-- A message sent before anybody is there, one to the first peer, one after it has left, and a
second peer. -/
def handover : List (Command ℕ ℕ) :=
  [.send none 1, .connectionUp (List.Vector.replicate 16 1) 0 0, .send none 2,
    .connectionDown (List.Vector.replicate 16 1), .send none 3,
    .connectionUp (List.Vector.replicate 16 2) 1 1, .send none 4]

theorem handover_in_order :
    let run := (new .roundRobin .atMostOnce (List.Vector.replicate 8 0)).run handover
    (dataOn 0 run.2 = [1, 2] ∧ dataOn 1 run.2 = [3, 4]) ∧
      undirected ((transmitted run.2).map Pending.message) ++ undirected run.1.buffer
        = [1, 2, 3, 4] ∧
      (dataOn 0 run.2).Sublist [1, 2, 3, 4] := by
  have hwhole := atMostOnce_in_order .roundRobin (List.Vector.replicate 8 0) handover (by decide)
  exact ⟨by decide, hwhole.2.1, hwhole.2.2.2 0⟩

end Aiomsg
