import Aiomsg.AsyncBroker.Basic
import Aiomsg.Broker.AtMostOnce

/-!
# The send buffer

What is sent while nobody is connected is buffered, and the first connection that is accepted takes
the whole buffer: each message goes through `handle_send` as if it were sent then. A message for one
peer in particular is put on that peer's writer if it is the one that came up. If another came up it
is dropped, as a message for a peer that is not connected is whenever somebody else is. So a message
for one peer is kept in the buffer until *somebody* comes up, not until its peer does.

Both brokers do the same here; the asynchronous one is followed through the steps of the synchronous
one that it mirrors.

## Scope

"Whatever else happens" is any list of inputs in which no connection is accepted. Connections may be
asked for and turned away meanwhile, which can only be if somebody is connected, or peers may leave;
none of it takes anything out of the buffer.

## Main results

* `Broker.keeps_step` — without a connection being accepted, a step only adds to the buffer
* `Broker.flush_eq` — what the first connection gets
* `Broker.kept_until_up`, `AsyncBroker.kept_until_up` — both together, in a run
* `buffered_until_up` — for a message for one peer, from the start
* `dropped_by_other` — another peer comes up first
-/

namespace Aiomsg

variable {C D : Type}

/-- Whether an effect is the acceptance of a connection. -/
def Effect.accepts : Effect C D → Bool
  | .accept _ ok => ok
  | _ => false

/-- No connection is accepted. -/
def NoneAccepted (effects : List (Effect C D)) : Prop := ∀ e ∈ effects, e.accepts = false

instance (effects : List (Effect C D)) : Decidable (NoneAccepted effects) :=
  inferInstanceAs (Decidable (∀ _ ∈ _, _))

theorem NoneAccepted.of_visible {effects : List (Effect C D)}
    (h : NoneAccepted (effects.filter Effect.visible)) : NoneAccepted effects := by
  intro e he
  cases hvisible : e.visible with
  | true => exact h e (List.mem_filter.mpr ⟨he, hvisible⟩)
  | false => cases e <;> first | rfl | exact absurd hvisible (by simp [Effect.visible])

namespace Broker

/-! ### Until somebody comes up -/

/-- A stretch of a run in which no connection is accepted only adds to the buffer, and if nobody
was connected nobody is. -/
def Keeps (b b' : Broker C D) (effects : List (Effect C D)) : Prop :=
  NoneAccepted effects → b.buffer <+: b'.buffer ∧
    (b.conns.entries.isEmpty = true → b'.conns.entries.isEmpty = true)

theorem Keeps.refl (b : Broker C D) : Keeps b b [] := fun _ => ⟨List.prefix_refl _, id⟩

theorem Keeps.trans {b b' b'' : Broker C D} {es es' : List (Effect C D)} (h : Keeps b b' es)
    (h' : Keeps b' b'' es') : Keeps b b'' (es ++ es') := by
  intro hnone
  obtain ⟨hfirst, hempty⟩ := h fun e he => hnone e (List.mem_append_left _ he)
  obtain ⟨hlater, hempty'⟩ := h' fun e he => hnone e (List.mem_append_right _ he)
  exact ⟨hfirst.trans hlater, fun hconns => hempty' (hempty hconns)⟩

theorem isEmpty_handleDown {b : Broker C D} (h : b.conns.entries.isEmpty = true)
    (identity : Identity) : (b.handleDown identity).conns.entries.isEmpty = true := by
  show (b.conns.entries.kerase identity).isEmpty = true
  rw [List.isEmpty_iff.mp h]
  rfl

/-- **One step.** Without a connection being accepted, a step only adds to the buffer. -/
theorem keeps_step (b : Broker C D) (cmd : Command C D) :
    Keeps b (b.step cmd).1 (b.step cmd).2 := by
  have hturn := b.turn_step cmd
  generalize b.step cmd = r at hturn
  intro hnone
  cases hturn with
  | buffered h => exact ⟨List.prefix_append _ _, id⟩
  | rebuffered => exact ⟨List.prefix_append _ _, id⟩
  | connected h => exact absurd (hnone _ List.mem_cons_self) (by simp [Effect.accepts])
  | sent =>
    rw [transmit_buffer, (b.sameTable_transmit _ _ _).conns]
    exact ⟨List.prefix_refl _, id⟩
  | resent =>
    rw [transmit_buffer, (sameTable_transmit _ _ _ _).conns]
    exact ⟨List.prefix_refl _, id⟩
  | disconnected => exact ⟨List.prefix_refl _, fun h => isEmpty_handleDown h _⟩
  | turnedAway | data | dataReq | acked | ackIgnored | hello | heartbeat | timeoutIgnored | gaveUp
  | close => exact ⟨List.prefix_refl _, id⟩

theorem keeps_run (b : Broker C D) (cmds : List (Command C D)) :
    Keeps b (b.run cmds).1 (b.run cmds).2 := by
  induction cmds generalizing b with
  | nil => exact .refl b
  | cons cmd rest ih =>
    by_cases hclose : cmd = .close
    · subst hclose
      exact .refl b
    · rw [run_cons hclose]
      exact (b.keeps_step cmd).trans (ih _)

/-! ### When somebody comes up -/

/-- What the only peer gets of a message: it is routed, and put on the peer's writer unless it is
for another. -/
def flushed (peer : Identity) (writer : C) (message : Option Identity × D) : List (Effect C D) :=
  .transmit none ⟨message.1, message.2, maxRetries⟩ ::
    if message.1 = none ∨ message.1 = some peer then [.frame writer (.data message.2)] else []

/-- One peer is connected, and no acknowledgements are asked for. -/
structure Alone (peer : Identity) (writer : C) (b : Broker C D) : Prop where
  plain : Plain b
  conns : b.conns = (∅ : AList fun _ : Identity => C).insert peer writer
  order : b.order = [peer]

variable {peer : Identity} {writer : C}

theorem Alone.sendTo {b : Broker C D} (h : Alone peer writer b) (id : Identity)
    (frame : Envelope D) :
    b.sendTo id frame = if id = peer then [.frame writer frame] else [] := by
  unfold Broker.sendTo
  rw [h.conns]
  split_ifs with hid
  · rw [hid, AList.lookup_insert]
  · rw [AList.lookup_insert_ne hid, AList.lookup_empty]

theorem Alone.route {b : Broker C D} (h : Alone peer writer b) (target : Option Identity)
    (frame : Envelope D) :
    (b.route target frame).2
      = if target = none ∨ target = some peer then [.frame writer frame] else [] := by
  cases target with
  | some id =>
    show b.sendTo id frame = _
    rw [h.sendTo]
    simp
  | none =>
    obtain hmode | hmode : b.sendMode = .publish ∨ b.sendMode = .roundRobin := by
      cases b.sendMode <;> simp
    · have hpublish : (b.route none frame).2
          = b.conns.entries.map fun entry => .frame entry.2 frame := by
        simp only [Broker.route, hmode]
      rw [hpublish, h.conns]
      rfl
    · have hnext : b.nextRoundRobin = (some peer, { b with rrCursor := b.rrCursor + 1 }) := by
        simp [nextRoundRobin, h.order, Nat.mod_one]
      have hrobin : (b.route none frame).2
          = { b with rrCursor := b.rrCursor + 1 }.sendTo peer frame := by
        simp only [Broker.route, hmode, hnext]
      have hturned : Alone peer writer { b with rrCursor := b.rrCursor + 1 } :=
        ⟨h.plain.of_eq rfl rfl, h.conns, h.order⟩
      rw [hrobin, hturned.sendTo]
      simp

theorem Alone.transmit {b : Broker C D} (h : Alone peer writer b) (identity : Option Identity)
    (data : D) : Alone peer writer (b.transmit identity data maxRetries).1 := by
  have htable := b.sameTable_transmit identity data maxRetries
  exact ⟨h.plain.transmit _ _ _, htable.conns.trans h.conns, htable.order.trans h.order⟩

/-- **The flush.** Every message is routed, in order; those for the peer and those for nobody in
particular are put on its writer. -/
theorem Alone.transmitAll {b : Broker C D} (h : Alone peer writer b)
    (messages : List (Option Identity × D)) :
    (b.transmitAll messages).2 = messages.flatMap (flushed peer writer) := by
  induction messages generalizing b with
  | nil => rfl
  | cons message rest ih =>
    obtain ⟨identity, data⟩ := message
    rw [Broker.transmitAll, ih (h.transmit identity data), List.flatMap_cons, h.plain.transmit_eq,
      h.route]
    rfl

/-- What the first connection does: it takes the whole buffer. -/
theorem flush_eq {b : Broker C D} (hplain : Plain b) (htidy : Tidy b)
    (hempty : b.conns.entries.isEmpty = true) (peer : Identity) (writer accept : C) :
    (b.step (.connectionUp peer writer accept)).1.buffer = [] ∧
      (b.step (.connectionUp peer writer accept)).2
        = .accept accept true :: b.buffer.flatMap (flushed peer writer) := by
  have hconns : b.conns = ∅ := AList.ext (List.isEmpty_iff.mp hempty)
  have horder : b.order = [] := by
    refine List.eq_nil_iff_forall_not_mem.mpr fun id hid => ?_
    have hmem := (htidy.mem_order id).mp hid
    rw [hconns] at hmem
    exact AList.notMem_empty id hmem
  have hnew : peer ∉ b.conns := by
    rw [hconns]
    exact AList.notMem_empty peer
  have halone : Alone peer writer (b.connect peer writer) := by
    refine ⟨hplain.of_eq rfl rfl, ?_, ?_⟩
    · rw [connect, hconns]
    · rw [connect, horder, List.nil_append]
  show (b.handleUp peer writer accept).1.buffer = [] ∧ (b.handleUp peer writer accept).2 = _
  rw [handleUp_of_notMem hnew]
  refine ⟨?_, congrArg _ (halone.transmitAll b.buffer)⟩
  rw [transmitAll_buffer]
  rfl

/-- The outcome of a first connection: the buffer is empty, and its messages have been routed. -/
def Takes (buffer : List (Option Identity × D)) (peer : Identity) (writer accept : C)
    (b : Broker C D) (effects : List (Effect C D)) : Prop :=
  b.buffer = [] ∧ effects = .accept accept true :: buffer.flatMap (flushed peer writer)

/-- A message sent while nobody is connected stays in the buffer, in its place, until the first
connection takes it. -/
theorem kept_until_up {b : Broker C D} (hplain : Plain b) (htidy : Tidy b)
    (hempty : b.conns.entries.isEmpty = true) (identity : Option Identity) (data : D)
    (after : List (Command C D))
    (hnone : NoneAccepted ((b.step (.send identity data)).1.run after).2) :
    b.buffer ++ [(identity, data)] <+: ((b.step (.send identity data)).1.run after).1.buffer ∧
      ∀ peer writer accept, Takes ((b.step (.send identity data)).1.run after).1.buffer peer writer
        accept
        (((b.step (.send identity data)).1.run after).1.step (.connectionUp peer writer accept)).1
        (((b.step (.send identity data)).1.run after).1.step
          (.connectionUp peer writer accept)).2 := by
  have hsent : (b.step (.send identity data)).1
      = { b with buffer := b.buffer ++ [(identity, data)] } :=
    congrArg Prod.fst (handleSend_of_isEmpty hempty identity data)
  obtain ⟨hkept, hstill⟩ := keeps_run _ after hnone
  refine ⟨?_, fun peer writer accept => ?_⟩
  · have hbuffer := congrArg Broker.buffer hsent
    rwa [hbuffer] at hkept
  · exact flush_eq (run_induction (fun _ cmd h => h.step cmd) (hplain.step _) after)
      ((htidy.step _).run after) (hstill (by rw [hsent]; exact hempty)) peer writer accept

end Broker

open Broker

theorem visible_flushed (messages : List (Option Identity × D)) (peer : Identity) (writer : C) :
    (messages.flatMap (flushed peer writer)).filter Effect.visible
      = messages.flatMap (flushed peer writer) := by
  refine List.filter_eq_self.mpr fun e he => ?_
  obtain ⟨message, -, he⟩ := List.mem_flatMap.mp he
  unfold flushed at he
  split_ifs at he
  · rcases List.mem_cons.mp he with rfl | he
    · rfl
    · rw [List.mem_singleton.mp he]
      rfl
  · rw [List.mem_singleton.mp he]
    rfl

namespace AsyncBroker

variable (clock : ℕ →o ℕ)

theorem plain_run {a : AsyncBroker C D} (h : Plain a.toBroker) (inputs : List (AsyncInput C D)) :
    Plain (a.run clock inputs).1.toBroker :=
  run_of_steps clock (R := fun b b' _ => Plain b → Plain b') (fun _ => id)
    (fun h h' hb => h' (h hb)) (fun _ cmd hb => hb.step cmd) a inputs h

theorem tidy_run {a : AsyncBroker C D} (h : Tidy a.toBroker) (inputs : List (AsyncInput C D)) :
    Tidy (a.run clock inputs).1.toBroker :=
  run_of_steps clock (R := fun b b' _ => Tidy b → Tidy b') (fun _ => id)
    (fun h h' hb => h' (h hb)) (fun _ cmd hb => hb.step cmd) a inputs h

theorem keeps_run (a : AsyncBroker C D) (inputs : List (AsyncInput C D)) :
    Keeps a.toBroker (a.run clock inputs).1.toBroker (a.run clock inputs).2 :=
  run_of_steps clock .refl .trans (fun b cmd hnone => b.keeps_step cmd hnone.of_visible) a inputs

/-- The same for the asynchronous broker, by the steps that it mirrors. -/
theorem kept_until_up {a : AsyncBroker C D} (hplain : Plain a.toBroker) (htidy : Tidy a.toBroker)
    (hempty : a.conns.entries.isEmpty = true) (identity : Option Identity) (data : D)
    (after : List (AsyncInput C D))
    (hnone : NoneAccepted ((a.step clock (.cmd (.send identity data))).1.run clock after).2) :
    a.buffer ++ [(identity, data)]
        <+: ((a.step clock (.cmd (.send identity data))).1.run clock after).1.buffer ∧
      ∀ peer writer accept,
        Takes ((a.step clock (.cmd (.send identity data))).1.run clock after).1.buffer peer writer
          accept
          (((a.step clock (.cmd (.send identity data))).1.run clock after).1.step clock
            (.cmd (.connectionUp peer writer accept))).1.toBroker
          (((a.step clock (.cmd (.send identity data))).1.run clock after).1.step clock
            (.cmd (.connectionUp peer writer accept))).2 := by
  have hmirrors := mirrors_handle clock a (.send identity data)
  have hsent : (a.step clock (.cmd (.send identity data))).1.toBroker
      = { a.toBroker with buffer := a.buffer ++ [(identity, data)] } :=
    hmirrors.broker.trans (congrArg Prod.fst (handleSend_of_isEmpty hempty identity data))
  have hplain' : Plain (a.step clock (.cmd (.send identity data))).1.toBroker :=
    hmirrors.broker ▸ hplain.step _
  have htidy' : Tidy (a.step clock (.cmd (.send identity data))).1.toBroker :=
    hmirrors.broker ▸ htidy.step _
  obtain ⟨hkept, hstill⟩ := keeps_run clock _ after hnone
  have hbuffer := congrArg Broker.buffer hsent
  rw [hbuffer] at hkept
  refine ⟨hkept, fun peer writer accept => ?_⟩
  have hup := mirrors_handle clock
    ((a.step clock (.cmd (.send identity data))).1.run clock after).1
    (.connectionUp peer writer accept)
  obtain ⟨htaken, heffects⟩ := flush_eq (plain_run clock hplain' after)
    (tidy_run clock htidy' after) (hstill (by rw [hsent]; exact hempty)) peer writer accept
  refine ⟨(congrArg Broker.buffer hup.broker).trans htaken, hup.effects.trans ?_⟩
  refine (congrArg (List.filter Effect.visible) heffects).trans ?_
  exact congrArg (Effect.accept accept true :: ·) (visible_flushed _ _ _)

end AsyncBroker

/-- **Buffered until somebody comes up.** In both brokers with at-most-once delivery: a message for
the peer `id` that is sent while nobody is connected is in the buffer, in its place, as long as no
connection is accepted, whatever else happens. The first connection that is accepted takes the whole
buffer. The message is put on its writer if it is that of `id`, and dropped if it is another. -/
theorem buffered_until_up (sendMode : SendMode) (salt : List.Vector UInt8 8) (id : Identity)
    (data : D) :
    (∀ before after : List (Command C D),
      let b := ((Broker.new sendMode .atMostOnce salt).run before).1
      let r := (b.step (.send (some id) data)).1.run after
      b.conns.entries.isEmpty = true → NoneAccepted r.2 →
      b.buffer ++ [(some id, data)] <+: r.1.buffer ∧
        ∀ peer writer accept, Takes r.1.buffer peer writer accept
          (r.1.step (.connectionUp peer writer accept)).1
          (r.1.step (.connectionUp peer writer accept)).2) ∧
    ∀ (clock : ℕ →o ℕ) (before after : List (AsyncInput C D)),
      let a := ((AsyncBroker.new sendMode .atMostOnce salt).run clock before).1
      let r := (a.step clock (.cmd (.send (some id) data))).1.run clock after
      a.conns.entries.isEmpty = true → NoneAccepted r.2 →
      a.buffer ++ [(some id, data)] <+: r.1.buffer ∧
        ∀ peer writer accept, Takes r.1.buffer peer writer accept
          (r.1.step clock (.cmd (.connectionUp peer writer accept))).1.toBroker
          (r.1.step clock (.cmd (.connectionUp peer writer accept))).2 := by
  have hplain : Plain (Broker.new sendMode .atMostOnce salt : Broker C D) :=
    ⟨rfl, fun _ => AList.lookup_empty _⟩
  have htidy : Tidy (Broker.new sendMode .atMostOnce salt : Broker C D) := tidy_new _ _ _
  constructor
  · intro before after b r hempty hnone
    exact kept_until_up (run_induction (fun _ cmd h => h.step cmd) hplain before)
      (htidy.run before) hempty (some id) data after hnone
  · intro clock before after a r hempty hnone
    exact AsyncBroker.kept_until_up clock (AsyncBroker.plain_run clock hplain before)
      (AsyncBroker.tidy_run clock htidy before) hempty (some id) data after hnone

/-- Another peer goes and another message is sent before the peer comes up. -/
theorem buffered_until_up_twice :
    let peer : Identity := List.Vector.replicate 16 1
    let salt := List.Vector.replicate 8 0
    let b : Broker ℕ ℕ := ((Broker.new .roundRobin .atMostOnce salt).run
      [.send (some peer) 7, .connectionDown (List.Vector.replicate 16 2), .send none 8]).1
    let a : AsyncBroker ℕ ℕ := ((AsyncBroker.new .roundRobin .atMostOnce salt).run OrderHom.id
      [.cmd (.send (some peer) 7), .cmd (.send none 8)]).1
    ([(some peer, 7)] <+: b.buffer ∧
        Takes b.buffer peer 0 0 (b.step (.connectionUp peer 0 0)).1
          (b.step (.connectionUp peer 0 0)).2) ∧
      [(some peer, 7)] <+: a.buffer := by
  intro peer salt b a
  have h := buffered_until_up (C := ℕ) .roundRobin salt peer 7
  have hsync := h.1 [] [.connectionDown (List.Vector.replicate 16 2), .send none 8] rfl (by decide)
  have hasync := h.2 OrderHom.id [] [.cmd (.send none 8)] rfl (by decide)
  exact ⟨⟨hsync.1, hsync.2 peer 0 0⟩, hasync.1⟩

/-- A message for one peer is buffered and another peer comes up: the message is neither in the
buffer nor on any writer. -/
theorem dropped_by_other :
    let peer : Identity := List.Vector.replicate 16 1
    let other : Identity := List.Vector.replicate 16 2
    let start : Broker ℕ ℕ := Broker.new .roundRobin .atMostOnce (List.Vector.replicate 8 0)
    let start' : AsyncBroker ℕ ℕ :=
      AsyncBroker.new .roundRobin .atMostOnce (List.Vector.replicate 8 0)
    peer ≠ other ∧
      ((start.run [.send (some peer) 7]).1.buffer = [(some peer, 7)] ∧
        (start.run [.send (some peer) 7, .connectionUp other 0 0]).1.buffer = [] ∧
        frames (start.run [.send (some peer) 7, .connectionUp other 0 0]).2 = []) ∧
      (start'.run .id [.cmd (.send (some peer) 7)]).1.buffer = [(some peer, 7)] ∧
        (start'.run .id [.cmd (.send (some peer) 7), .cmd (.connectionUp other 0 0)]).1.buffer
          = [] ∧
        frames (start'.run .id
          [.cmd (.send (some peer) 7), .cmd (.connectionUp other 0 0)]).2 = [] := by
  intro peer other start start'
  exact ⟨by decide, ⟨rfl, rfl, rfl⟩, ⟨rfl, rfl, rfl⟩⟩

end Aiomsg
