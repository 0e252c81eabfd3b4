import Aiomsg.Broker.Basic

/-!
# What the handlers leave alone, and what they put out

The lemmas every statement about the broker is built from. Each handler is described once, here,
and no later proof unfolds one.

* Only `ConnectionUp` and `ConnectionDown` touch the connection table (`SameTable`).
* `route` puts out frames of the one envelope it is given, on registered writers, and moves at most
  the round-robin cursor.
* `transmit` is `route`, preceded in the at-least-once case by a fresh id and its pending entry.
* A flush with a peer connected is a sequence of calls of `transmit`.

## The turns

A handler has many branches, and most statements care about few of them. `Turn` lists what one turn
of the command loop can come to, with the guards of the branch as hypotheses and the outcome written
out, and `turn_step` says that there is nothing else. So an invariant of the broker is a case
analysis on `Turn`, and when a handler changes it is this module that changes with it.
-/

namespace Aiomsg

namespace Broker

variable {C D : Type}

/-! ### The connection table -/

/-- The fields no message traffic changes. -/
structure SameTable (b b' : Broker C D) : Prop where
  conns : b'.conns = b.conns
  order : b'.order = b.order
  sendMode : b'.sendMode = b.sendMode
  delivery : b'.delivery = b.delivery
  salt : b'.salt = b.salt

theorem SameTable.refl (b : Broker C D) : SameTable b b := ⟨rfl, rfl, rfl, rfl, rfl⟩

theorem SameTable.trans {b₁ b₂ b₃ : Broker C D} (h : SameTable b₁ b₂) (h' : SameTable b₂ b₃) :
    SameTable b₁ b₃ :=
  ⟨h'.conns.trans h.conns, h'.order.trans h.order, h'.sendMode.trans h.sendMode,
    h'.delivery.trans h.delivery, h'.salt.trans h.salt⟩

/-! ### Routing -/

/-- Routing moves at most the round-robin cursor. -/
theorem route_fst (b : Broker C D) (target : Option Identity) (frame : Envelope D) :
    ∃ cursor, (b.route target frame).1 = { b with rrCursor := cursor } := by
  cases target with
  | some id => exact ⟨b.rrCursor, rfl⟩
  | none =>
    obtain hmode | hmode : b.sendMode = .publish ∨ b.sendMode = .roundRobin := by
      cases b.sendMode <;> simp
    · have hsame : (b.route none frame).1 = b := by simp only [route, hmode]
      exact ⟨b.rrCursor, hsame⟩
    · by_cases hempty : b.order.isEmpty
      · have hsame : (b.route none frame).1 = b := by
          simp only [route, hmode, nextRoundRobin, if_pos hempty]
        exact ⟨b.rrCursor, hsame⟩
      · refine ⟨b.rrCursor + 1, ?_⟩
        simp only [route, hmode, nextRoundRobin, hempty]
        cases b.order[b.rrCursor.toNat % b.order.length]? <;> rfl

theorem sameTable_route (b : Broker C D) (target : Option Identity) (frame : Envelope D) :
    SameTable b (b.route target frame).1 := by
  obtain ⟨cursor, h⟩ := b.route_fst target frame
  rw [h]
  exact ⟨rfl, rfl, rfl, rfl, rfl⟩

@[simp] theorem route_buffer (b : Broker C D) (target : Option Identity) (frame : Envelope D) :
    (b.route target frame).1.buffer = b.buffer := by
  obtain ⟨cursor, h⟩ := b.route_fst target frame
  rw [h]

@[simp] theorem route_pending (b : Broker C D) (target : Option Identity) (frame : Envelope D) :
    (b.route target frame).1.pending = b.pending := by
  obtain ⟨cursor, h⟩ := b.route_fst target frame
  rw [h]

@[simp] theorem route_nextId (b : Broker C D) (target : Option Identity) (frame : Envelope D) :
    (b.route target frame).1.nextId = b.nextId := by
  obtain ⟨cursor, h⟩ := b.route_fst target frame
  rw [h]

theorem mem_sendTo {b : Broker C D} {id : Identity} {frame : Envelope D} {e : Effect C D}
    (h : e ∈ b.sendTo id frame) : ∃ w, b.conns.lookup id = some w ∧ e = .frame w frame := by
  rw [sendTo] at h
  cases hw : b.conns.lookup id with
  | none => simp [hw] at h
  | some w => exact ⟨w, rfl, by simpa [hw] using h⟩

/-- Routing puts out frames of the envelope it is given, on registered writers only. -/
theorem mem_route {b : Broker C D} {target : Option Identity} {frame : Envelope D}
    {e : Effect C D} (h : e ∈ (b.route target frame).2) :
    ∃ id w, b.conns.lookup id = some w ∧ e = .frame w frame := by
  cases target with
  | some id => exact ⟨id, mem_sendTo h⟩
  | none =>
    cases hmode : b.sendMode with
    | publish =>
      simp only [route, hmode, List.mem_map] at h
      obtain ⟨⟨id, w⟩, hentry, rfl⟩ := h
      exact ⟨id, w, AList.mem_lookup_iff.mpr hentry, rfl⟩
    | roundRobin =>
      simp only [route, hmode, nextRoundRobin] at h
      split_ifs at h with hempty
      · exact absurd h List.not_mem_nil
      · cases hturn : b.order[b.rrCursor.toNat % b.order.length]? with
        | none =>
          rw [hturn] at h
          exact absurd h List.not_mem_nil
        | some id =>
          rw [hturn] at h
          exact ⟨id, mem_sendTo h⟩

/-! ### Transmitting -/

/-- The broker after an id was given out and its entry made. -/
def enter (b : Broker C D) (p : Pending D) : Broker C D :=
  { b with
    nextId := b.nextId + 1
    pending := b.pending.insert (msgIdOf b.salt b.nextId) p }

/-- An acknowledged transmission: a fresh id, its entry, its timer, its frames. -/
theorem transmit_of_atLeastOnce {b : Broker C D} {identity : Option Identity} (data : D)
    (retries : ℕ) (h : b.atLeastOnce identity = true) :
    b.transmit identity data retries =
      (((b.enter ⟨identity, data, retries⟩).route identity
          (.dataReq (msgIdOf b.salt b.nextId) data)).1,
        .transmit (some (msgIdOf b.salt b.nextId)) ⟨identity, data, retries⟩ ::
          .arm (msgIdOf b.salt b.nextId) ::
            ((b.enter ⟨identity, data, retries⟩).route identity
              (.dataReq (msgIdOf b.salt b.nextId) data)).2) := by
  rw [transmit, if_pos h]
  rfl

/-- A plain transmission is its routing. -/
theorem transmit_of_atMostOnce {b : Broker C D} {identity : Option Identity} (data : D)
    (retries : ℕ) (h : b.atLeastOnce identity = false) :
    b.transmit identity data retries =
      ((b.route identity (.data data)).1,
        .transmit none ⟨identity, data, retries⟩ :: (b.route identity (.data data)).2) := by
  rw [transmit, h]
  rfl

theorem sameTable_transmit (b : Broker C D) (identity : Option Identity) (data : D)
    (retries : ℕ) : SameTable b (b.transmit identity data retries).1 := by
  cases h : b.atLeastOnce identity with
  | true =>
    rw [transmit_of_atLeastOnce data retries h]
    have henter : SameTable b (b.enter ⟨identity, data, retries⟩) := ⟨rfl, rfl, rfl, rfl, rfl⟩
    exact henter.trans (sameTable_route _ _ _)
  | false =>
    rw [transmit_of_atMostOnce data retries h]
    exact sameTable_route _ _ _

@[simp] theorem transmit_buffer (b : Broker C D) (identity : Option Identity) (data : D)
    (retries : ℕ) : (b.transmit identity data retries).1.buffer = b.buffer := by
  cases h : b.atLeastOnce identity with
  | true =>
    rw [transmit_of_atLeastOnce data retries h, route_buffer]
    rfl
  | false => rw [transmit_of_atMostOnce data retries h, route_buffer]

/-- A transmission arms a timer and puts DATA or DATA_REQ frames on registered writers; it does
nothing else to a channel. -/
theorem mem_transmit {b : Broker C D} {identity : Option Identity} {data : D} {retries : ℕ}
    {e : Effect C D} (h : e ∈ (b.transmit identity data retries).2) :
    (∃ msgId, e = .transmit msgId ⟨identity, data, retries⟩) ∨ (∃ msgId, e = .arm msgId) ∨
      ∃ id w f, b.conns.lookup id = some w ∧ e = .frame w f ∧
        (f = .data data ∨ ∃ msgId, f = .dataReq msgId data) := by
  cases hack : b.atLeastOnce identity with
  | true =>
    rw [transmit_of_atLeastOnce data retries hack] at h
    rcases List.mem_cons.mp h with rfl | h
    · exact .inl ⟨_, rfl⟩
    rcases List.mem_cons.mp h with rfl | h
    · exact .inr (.inl ⟨_, rfl⟩)
    obtain ⟨id, w, hw, rfl⟩ := mem_route h
    exact .inr (.inr ⟨id, w, _, hw, rfl, .inr ⟨_, rfl⟩⟩)
  | false =>
    rw [transmit_of_atMostOnce data retries hack] at h
    rcases List.mem_cons.mp h with rfl | h
    · exact .inl ⟨_, rfl⟩
    obtain ⟨id, w, hw, rfl⟩ := mem_route h
    exact .inr (.inr ⟨id, w, _, hw, rfl, .inl rfl⟩)

theorem SameTable.atLeastOnce {b b' : Broker C D} (h : SameTable b b')
    (identity : Option Identity) : b'.atLeastOnce identity = b.atLeastOnce identity := by
  rw [Broker.atLeastOnce, Broker.atLeastOnce, h.delivery, h.sendMode]

/-! ### Flushing -/

/-- Call `transmit` for each message in turn, each with a full budget of retries. -/
def transmitAll (b : Broker C D) : List (Option Identity × D) → Broker C D × List (Effect C D)
  | [] => (b, [])
  | (identity, data) :: rest =>
    (((b.transmit identity data maxRetries).1.transmitAll rest).1,
      (b.transmit identity data maxRetries).2 ++
        ((b.transmit identity data maxRetries).1.transmitAll rest).2)

theorem handleSend_of_isEmpty {b : Broker C D} (h : b.conns.entries.isEmpty = true)
    (identity : Option Identity) (data : D) :
    b.handleSend identity data = ({ b with buffer := b.buffer ++ [(identity, data)] }, []) := by
  rw [handleSend, if_pos h]

theorem handleSend_of_not_isEmpty {b : Broker C D} (h : b.conns.entries.isEmpty = false)
    (identity : Option Identity) (data : D) :
    b.handleSend identity data = b.transmit identity data maxRetries := by
  rw [handleSend, h]
  rfl

/-- **With a peer connected, flushing is transmitting.** -/
theorem sendAll_eq_transmitAll {b : Broker C D} (h : b.conns.entries.isEmpty = false)
    (msgs : List (Option Identity × D)) : b.sendAll msgs = b.transmitAll msgs := by
  induction msgs generalizing b with
  | nil => rfl
  | cons msg rest ih =>
    obtain ⟨identity, data⟩ := msg
    have hconns := (b.sameTable_transmit identity data maxRetries).conns
    rw [sendAll, transmitAll, handleSend_of_not_isEmpty h, ih (by rw [hconns]; exact h)]

theorem sameTable_transmitAll (b : Broker C D) (msgs : List (Option Identity × D)) :
    SameTable b (b.transmitAll msgs).1 := by
  induction msgs generalizing b with
  | nil => exact SameTable.refl b
  | cons msg rest ih => exact (b.sameTable_transmit msg.1 msg.2 maxRetries).trans (ih _)

@[simp] theorem transmitAll_buffer (b : Broker C D) (msgs : List (Option Identity × D)) :
    (b.transmitAll msgs).1.buffer = b.buffer := by
  induction msgs generalizing b with
  | nil => rfl
  | cons msg rest ih => rw [transmitAll, ih, transmit_buffer]

/-- Whatever a flush puts out, one of its transmissions does, with the table unchanged. -/
theorem mem_transmitAll {b : Broker C D} {msgs : List (Option Identity × D)} {e : Effect C D}
    (h : e ∈ (b.transmitAll msgs).2) :
    ∃ b' identity data, SameTable b b' ∧ e ∈ (b'.transmit identity data maxRetries).2 := by
  induction msgs generalizing b with
  | nil => exact absurd h List.not_mem_nil
  | cons msg rest ih =>
    rcases List.mem_append.mp h with h | h
    · exact ⟨b, msg.1, msg.2, SameTable.refl b, h⟩
    · obtain ⟨b', identity, data, htable, he⟩ := ih h
      exact ⟨b', identity, data, (b.sameTable_transmit _ _ _).trans htable, he⟩

/-! ### Connections coming up -/

/-- The table with a connection added and the buffer taken out of it. -/
def connect (b : Broker C D) (identity : Identity) (writer : C) : Broker C D :=
  { b with
    conns := b.conns.insert identity writer
    order := b.order ++ [identity]
    buffer := [] }

theorem isEmpty_connect (b : Broker C D) (identity : Identity) (writer : C) :
    (b.connect identity writer).conns.entries.isEmpty = false := by
  simp [connect]

/-- A second connection with an identity is turned away. -/
theorem handleUp_of_mem {b : Broker C D} {identity : Identity} (h : identity ∈ b.conns)
    (writer accept : C) : b.handleUp identity writer accept = (b, [.accept accept false]) := by
  rw [handleUp, if_pos (AList.lookup_isSome.mpr h)]

/-- A first connection with an identity is entered, and everything buffered goes out. -/
theorem handleUp_of_notMem {b : Broker C D} {identity : Identity} (h : identity ∉ b.conns)
    (writer accept : C) :
    b.handleUp identity writer accept =
      (((b.connect identity writer).transmitAll b.buffer).1,
        .accept accept true :: ((b.connect identity writer).transmitAll b.buffer).2) := by
  rw [handleUp, if_neg (by rw [AList.lookup_isSome]; exact h),
    ← sendAll_eq_transmitAll (b.isEmpty_connect _ _)]
  rfl

/-! ### Resending -/

/-- The broker with one entry taken out of the table of unacknowledged messages. -/
def forget (b : Broker C D) (msgId : MsgId) : Broker C D :=
  { b with pending := b.pending.erase msgId }

theorem sameTable_forget (b : Broker C D) (msgId : MsgId) : SameTable b (b.forget msgId) :=
  ⟨rfl, rfl, rfl, rfl, rfl⟩

theorem handleResend_of_none {b : Broker C D} {msgId : MsgId}
    (h : b.pending.lookup msgId = none) : b.handleResend msgId = (b, []) := by
  rw [handleResend, h]

/-- The three fates of an entry whose timer has run out: given up, put back in the buffer, resent
with one retry less. -/
theorem handleResend_of_some {b : Broker C D} {msgId : MsgId} {p : Pending D}
    (h : b.pending.lookup msgId = some p) :
    b.handleResend msgId =
      if p.retries = 0 then (b.forget msgId, [])
      else if b.conns.entries.isEmpty then
        ({ b.forget msgId with buffer := b.buffer ++ [(p.identity, p.data)] }, [])
      else (b.forget msgId).transmit p.identity p.data (p.retries - 1) := by
  rw [handleResend, h]
  rfl

theorem handleReceived_ack_of_some {b : Broker C D} {msgId : MsgId} {p : Pending D}
    (h : b.pending.lookup msgId = some p) (identity : Identity) :
    b.handleReceived identity (.ack msgId) = (b.forget msgId, [.cancel msgId]) := by
  rw [handleReceived, h]
  rfl

theorem handleReceived_ack_of_none {b : Broker C D} {msgId : MsgId}
    (h : b.pending.lookup msgId = none) (identity : Identity) :
    b.handleReceived identity (.ack msgId) = (b, []) := by
  rw [handleReceived, h]

/-! ### One turn of the loop -/

/-- Everything one turn of the command loop can do. Statements about runs split on this, never on
the handlers. -/
inductive Turn (b : Broker C D) : Command C D → Broker C D × List (Effect C D) → Prop
  | buffered {identity : Option Identity} {data : D} (h : b.conns.entries.isEmpty = true) :
      Turn b (.send identity data) ({ b with buffer := b.buffer ++ [(identity, data)] }, [])
  | sent {identity : Option Identity} {data : D} (h : b.conns.entries.isEmpty = false) :
      Turn b (.send identity data) (b.transmit identity data maxRetries)
  | turnedAway {identity : Identity} {writer accept : C} (h : identity ∈ b.conns) :
      Turn b (.connectionUp identity writer accept) (b, [.accept accept false])
  | connected {identity : Identity} {writer accept : C} (h : identity ∉ b.conns) :
      Turn b (.connectionUp identity writer accept)
        (((b.connect identity writer).transmitAll b.buffer).1,
          .accept accept true :: ((b.connect identity writer).transmitAll b.buffer).2)
  | disconnected {identity : Identity} :
      Turn b (.connectionDown identity) (b.handleDown identity, [])
  | data {identity : Identity} {payload : D} :
      Turn b (.received identity (.data payload)) (b, [.recv identity payload])
  | dataReq {identity : Identity} {msgId : MsgId} {payload : D} :
      Turn b (.received identity (.dataReq msgId payload))
        (b, .recv identity payload :: b.sendTo identity (.ack msgId))
  | acked {identity : Identity} {msgId : MsgId} {p : Pending D}
      (h : b.pending.lookup msgId = some p) :
      Turn b (.received identity (.ack msgId)) (b.forget msgId, [.cancel msgId])
  | ackIgnored {identity : Identity} {msgId : MsgId} (h : b.pending.lookup msgId = none) :
      Turn b (.received identity (.ack msgId)) (b, [])
  | hello {identity : Identity} {version : UInt8} {peer : Identity} :
      Turn b (.received identity (.hello version peer)) (b, [])
  | heartbeat {identity : Identity} : Turn b (.received identity .heartbeat) (b, [])
  | timeoutIgnored {msgId : MsgId} (h : b.pending.lookup msgId = none) :
      Turn b (.resendTimeout msgId) (b, [])
  | gaveUp {msgId : MsgId} {p : Pending D} (h : b.pending.lookup msgId = some p)
      (hretries : p.retries = 0) : Turn b (.resendTimeout msgId) (b.forget msgId, [])
  | rebuffered {msgId : MsgId} {p : Pending D} (h : b.pending.lookup msgId = some p)
      (hretries : p.retries ≠ 0) (hconns : b.conns.entries.isEmpty = true) :
      Turn b (.resendTimeout msgId)
        ({ b.forget msgId with buffer := b.buffer ++ [(p.identity, p.data)] }, [])
  | resent {msgId : MsgId} {p : Pending D} (h : b.pending.lookup msgId = some p)
      (hretries : p.retries ≠ 0) (hconns : b.conns.entries.isEmpty = false) :
      Turn b (.resendTimeout msgId)
        ((b.forget msgId).transmit p.identity p.data (p.retries - 1))
  | close : Turn b .close (b, [])

/-- **Every step is one of the turns.** -/
theorem turn_step (b : Broker C D) (cmd : Command C D) : Turn b cmd (b.step cmd) := by
  cases cmd with
  | send identity data =>
    show Turn b _ (b.handleSend identity data)
    cases h : b.conns.entries.isEmpty with
    | true =>
      rw [handleSend_of_isEmpty h]
      exact .buffered h
    | false =>
      rw [handleSend_of_not_isEmpty h]
      exact .sent h
  | connectionUp identity writer accept =>
    show Turn b _ (b.handleUp identity writer accept)
    by_cases h : identity ∈ b.conns
    · rw [handleUp_of_mem h]
      exact .turnedAway h
    · rw [handleUp_of_notMem h]
      exact .connected h
  | connectionDown identity => exact .disconnected
  | received identity envelope =>
    cases envelope with
    | data payload => exact .data
    | dataReq msgId payload => exact .dataReq
    | ack msgId =>
      show Turn b _ (b.handleReceived identity (.ack msgId))
      cases h : b.pending.lookup msgId with
      | none =>
        rw [handleReceived_ack_of_none h]
        exact .ackIgnored h
      | some p =>
        rw [handleReceived_ack_of_some h]
        exact .acked h
    | hello version peer => exact .hello
    | heartbeat => exact .heartbeat
  | resendTimeout msgId =>
    show Turn b _ (b.handleResend msgId)
    cases h : b.pending.lookup msgId with
    | none =>
      rw [handleResend_of_none h]
      exact .timeoutIgnored h
    | some p =>
      rw [handleResend_of_some h]
      split_ifs with hretries hconns
      · exact .gaveUp h hretries
      · exact .rebuffered h hretries hconns
      · exact .resent h hretries (by simpa using hconns)
  | close => exact .close

/-! ### Well-formed brokers -/

/-- What holds of the broker's tables in every state, whatever the commands: the round-robin order
lists each connected identity once, and nothing waits in the buffer while somebody is connected.

`idle` is what lets a first connection flush the buffer without asking who else is there. -/
structure Tidy (b : Broker C D) : Prop where
  nodup_order : b.order.Nodup
  mem_order : ∀ id, id ∈ b.order ↔ id ∈ b.conns
  idle : b.buffer ≠ [] → b.conns.entries.isEmpty = true

theorem tidy_new (sendMode : SendMode) (delivery : DeliveryGuarantee)
    (salt : List.Vector UInt8 8) : Tidy (new sendMode delivery salt : Broker C D) :=
  ⟨List.nodup_nil, fun _ => by simp [new], fun h => absurd rfl h⟩

theorem Tidy.of_sameTable {b b' : Broker C D} (hb : Tidy b) (h : SameTable b b')
    (hbuffer : b'.buffer = b.buffer) : Tidy b' := by
  refine ⟨?_, ?_, ?_⟩
  · rw [h.order]
    exact hb.nodup_order
  · rw [h.order, h.conns]
    exact hb.mem_order
  · rw [hbuffer, h.conns]
    exact hb.idle

theorem Tidy.transmit {b : Broker C D} (hb : Tidy b) (identity : Option Identity) (data : D)
    (retries : ℕ) : Tidy (b.transmit identity data retries).1 :=
  hb.of_sameTable (sameTable_transmit _ _ _ _) (transmit_buffer _ _ _ _)

theorem Tidy.transmitAll {b : Broker C D} (hb : Tidy b) (msgs : List (Option Identity × D)) :
    Tidy (b.transmitAll msgs).1 :=
  hb.of_sameTable (sameTable_transmitAll _ _) (transmitAll_buffer _ _)

theorem Tidy.connect {b : Broker C D} (hb : Tidy b) {identity : Identity}
    (h : identity ∉ b.conns) (writer : C) : Tidy (b.connect identity writer) := by
  refine ⟨?_, fun id => ?_, fun hbuffer => absurd rfl hbuffer⟩
  · refine List.Nodup.append hb.nodup_order (List.nodup_singleton identity) ?_
    rw [List.disjoint_singleton]
    exact fun hmem => h ((hb.mem_order identity).mp hmem)
  · show id ∈ b.order ++ [identity] ↔ id ∈ b.conns.insert identity writer
    rw [List.mem_append, List.mem_singleton, AList.mem_insert, hb.mem_order]
    exact or_comm

theorem Tidy.handleDown {b : Broker C D} (hb : Tidy b) (identity : Identity) :
    Tidy (b.handleDown identity) := by
  refine ⟨hb.nodup_order.erase _, fun id => ?_, fun hbuffer => ?_⟩
  · show id ∈ b.order.erase identity ↔ id ∈ b.conns.erase identity
    rw [hb.nodup_order.mem_erase_iff, AList.mem_erase, hb.mem_order]
  · show (b.conns.entries.kerase identity).isEmpty = true
    have hempty : b.conns.entries = [] := List.isEmpty_iff.mp (hb.idle hbuffer)
    rw [hempty]
    rfl

theorem Tidy.step {b : Broker C D} (hb : Tidy b) (cmd : Command C D) : Tidy (b.step cmd).1 := by
  have hturn := b.turn_step cmd
  generalize b.step cmd = r at hturn
  cases hturn with
  | buffered h => exact ⟨hb.nodup_order, hb.mem_order, fun _ => h⟩
  | sent => exact hb.transmit _ _ _
  | connected h => exact (hb.connect h _).transmitAll _
  | disconnected => exact hb.handleDown _
  | acked | gaveUp => exact hb.of_sameTable (sameTable_forget b _) rfl
  | rebuffered _ _ hconns => exact ⟨hb.nodup_order, hb.mem_order, fun _ => hconns⟩
  | resent =>
    exact (hb.of_sameTable (sameTable_forget b _) rfl).transmit _ _ _
  | turnedAway | data | dataReq | ackIgnored | hello | heartbeat | timeoutIgnored | close =>
    exact hb

/-- Only `ConnectionUp` and `ConnectionDown` touch the connections. -/
theorem conns_step {b : Broker C D} {cmd : Command C D}
    (hup : ∀ identity writer accept, cmd ≠ .connectionUp identity writer accept)
    (hdown : ∀ identity, cmd ≠ .connectionDown identity) : (b.step cmd).1.conns = b.conns := by
  have hturn := b.turn_step cmd
  generalize b.step cmd = r at hturn
  cases hturn with
  | sent => exact (b.sameTable_transmit _ _ _).conns
  | resent => exact ((b.forget _).sameTable_transmit _ _ _).conns
  | turnedAway | connected => exact absurd rfl (hup _ _ _)
  | disconnected => exact absurd rfl (hdown _)
  | buffered | rebuffered | acked | gaveUp | data | dataReq | ackIgnored | hello | heartbeat
  | timeoutIgnored | close => rfl

theorem conns_up (b : Broker C D) (identity : Identity) (writer accept : C) :
    (b.step (.connectionUp identity writer accept)).1.conns
      = if identity ∈ b.conns then b.conns else b.conns.insert identity writer := by
  have hturn := b.turn_step (.connectionUp identity writer accept)
  generalize b.step (.connectionUp identity writer accept) = r at hturn
  cases hturn with
  | turnedAway h => rw [if_pos h]
  | connected h =>
    rw [if_neg h, ((b.connect identity writer).sameTable_transmitAll b.buffer).conns]
    rfl

/-! ### Runs -/

theorem run_cons {cmd : Command C D} (h : cmd ≠ .close) (b : Broker C D)
    (cmds : List (Command C D)) :
    b.run (cmd :: cmds) =
      (((b.step cmd).1.run cmds).1, (b.step cmd).2 ++ ((b.step cmd).1.run cmds).2) := by
  cases cmd <;> first | rfl | exact absurd rfl h

/-- What each step keeps, a run keeps. -/
theorem run_induction {P : Broker C D → Prop} (step : ∀ b cmd, P b → P (b.step cmd).1)
    {b : Broker C D} (hb : P b) (cmds : List (Command C D)) : P (b.run cmds).1 := by
  induction cmds generalizing b with
  | nil => exact hb
  | cons cmd rest ih =>
    by_cases hclose : cmd = .close
    · subst hclose
      exact hb
    · rw [run_cons hclose]
      exact ih (step b cmd hb)

theorem Tidy.run {b : Broker C D} (hb : Tidy b) (cmds : List (Command C D)) :
    Tidy (b.run cmds).1 :=
  run_induction (fun _ cmd h => h.step cmd) hb cmds

end Broker

end Aiomsg
