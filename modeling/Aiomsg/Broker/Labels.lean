import Aiomsg.Broker.Trace
import Aiomsg.Lib.AssocList

/-!
# Following one message through a run

Two messages may have the same payload, so a statement about what becomes of *one* accepted `Send`
cannot be read off the payloads. It can be read off a labelled run, in which the payload of every
command carries the position of that command. The broker never looks inside a payload, so labels
change nothing: `run_map` says that erasing them from the labelled run gives the run itself.

## Scope

This is parametricity, proved by hand for the one type parameter that matters. Handles of channels
could be renamed in the same way, and nothing here needs that.

## Main results

* `Broker.run_map` — the broker commutes with every function on payloads
* `run_labelled` — the labelled run, labels erased, is the run
-/

namespace Aiomsg

variable {C D E : Type}

def Envelope.map (f : D → E) : Envelope D → Envelope E
  | .hello version identity => .hello version identity
  | .heartbeat => .heartbeat
  | .data payload => .data (f payload)
  | .dataReq msgId payload => .dataReq msgId (f payload)
  | .ack msgId => .ack msgId

def Pending.map (f : D → E) (p : Pending D) : Pending E := ⟨p.identity, f p.data, p.retries⟩

def Command.map (f : D → E) : Command C D → Command C E
  | .send identity data => .send identity (f data)
  | .connectionUp identity writer accept => .connectionUp identity writer accept
  | .connectionDown identity => .connectionDown identity
  | .received identity envelope => .received identity (envelope.map f)
  | .resendTimeout msgId => .resendTimeout msgId
  | .close => .close

theorem Command.map_eq_close {f : D → E} (cmd : Command C D) :
    cmd.map f = .close ↔ cmd = .close := by
  cases cmd <;> simp [Command.map]

def Effect.map (f : D → E) : Effect C D → Effect C E
  | .frame writer envelope => .frame writer (envelope.map f)
  | .recv identity payload => .recv identity (f payload)
  | .accept reply ok => .accept reply ok
  | .arm msgId => .arm msgId
  | .cancel msgId => .cancel msgId
  | .transmit msgId message => .transmit msgId (message.map f)

namespace Broker

/-- Apply a function to every payload the broker holds. -/
def map (f : D → E) (b : Broker C D) : Broker C E where
  sendMode := b.sendMode
  delivery := b.delivery
  conns := b.conns
  order := b.order
  rrCursor := b.rrCursor
  buffer := b.buffer.map (Prod.map id f)
  pending := b.pending.mapVal (Pending.map f)
  salt := b.salt
  nextId := b.nextId

/-- Apply a function to every payload in the outcome of a handler. -/
def mapResult (f : D → E) (r : Broker C D × List (Effect C D)) : Broker C E × List (Effect C E) :=
  (r.1.map f, r.2.map (Effect.map f))

variable (f : D → E)

@[simp] theorem map_new (sendMode : SendMode) (delivery : DeliveryGuarantee)
    (salt : List.Vector UInt8 8) :
    (new sendMode delivery salt : Broker C D).map f = new sendMode delivery salt := rfl

theorem sendTo_map (b : Broker C D) (id : Identity) (frame : Envelope D) :
    (b.map f).sendTo id (frame.map f) = (b.sendTo id frame).map (Effect.map f) := by
  have hconns : (b.map f).conns = b.conns := rfl
  rw [sendTo, sendTo, hconns]
  cases b.conns.lookup id <;> rfl

theorem route_map (b : Broker C D) (target : Option Identity) (frame : Envelope D) :
    (b.map f).route target (frame.map f) = mapResult f (b.route target frame) := by
  cases target with
  | some id => exact Prod.ext rfl (sendTo_map f b id frame)
  | none =>
    cases h : b.sendMode with
    | publish =>
      simp only [route, h, mapResult, map, List.map_map]
      rfl
    | roundRobin =>
      have hmode : (b.map f).sendMode = .roundRobin := h
      simp only [route, h, hmode, nextRoundRobin]
      have horder : (b.map f).order = b.order := rfl
      have hcursor : (b.map f).rrCursor = b.rrCursor := rfl
      rw [horder, hcursor]
      split_ifs with hempty
      · rfl
      · cases b.order[b.rrCursor.toNat % b.order.length]? with
        | none => rfl
        | some id =>
          exact Prod.ext rfl (sendTo_map f { b with rrCursor := b.rrCursor + 1 } id frame)

theorem enter_map (b : Broker C D) (p : Pending D) :
    (b.map f).enter (p.map f) = (b.enter p).map f := by
  simp [enter, map]

theorem transmit_map (b : Broker C D) (identity : Option Identity) (data : D) (retries : ℕ) :
    (b.map f).transmit identity (f data) retries
      = mapResult f (b.transmit identity data retries) := by
  have hmap : (b.map f).atLeastOnce identity = b.atLeastOnce identity := rfl
  cases h : b.atLeastOnce identity with
  | true =>
    have henter := enter_map f b ⟨identity, data, retries⟩
    have hroute := route_map f (b.enter ⟨identity, data, retries⟩) identity
      (.dataReq (msgIdOf b.salt b.nextId) data)
    rw [← henter] at hroute
    rw [transmit_of_atLeastOnce data retries h, transmit_of_atLeastOnce _ retries (hmap.trans h)]
    exact congrArg (fun r : Broker C E × List (Effect C E) => (r.1, _ :: _ :: r.2)) hroute
  | false =>
    rw [transmit_of_atMostOnce data retries h, transmit_of_atMostOnce _ retries (hmap.trans h)]
    exact congrArg (fun r : Broker C E × List (Effect C E) => (r.1, _ :: r.2))
      (route_map f b identity (.data data))

theorem transmitAll_map (b : Broker C D) (msgs : List (Option Identity × D)) :
    (b.map f).transmitAll (msgs.map (Prod.map id f)) = mapResult f (b.transmitAll msgs) := by
  induction msgs generalizing b with
  | nil => rfl
  | cons msg rest ih =>
    have hfirst := transmit_map f b msg.1 msg.2 maxRetries
    rw [List.map_cons]
    simp only [transmitAll, Prod.map_fst, Prod.map_snd, id_eq, hfirst, mapResult, ih,
      List.map_append]

theorem forget_map (b : Broker C D) (msgId : MsgId) :
    (b.map f).forget msgId = (b.forget msgId).map f := by
  simp [forget, map]

theorem handleSend_map (b : Broker C D) (identity : Option Identity) (data : D) :
    (b.map f).handleSend identity (f data) = mapResult f (b.handleSend identity data) := by
  have hconns : (b.map f).conns = b.conns := rfl
  cases h : b.conns.entries.isEmpty with
  | true =>
    rw [handleSend_of_isEmpty h, handleSend_of_isEmpty (by rw [hconns]; exact h)]
    simp [mapResult, map]
  | false =>
    rw [handleSend_of_not_isEmpty h, handleSend_of_not_isEmpty (by rw [hconns]; exact h)]
    exact transmit_map f b identity data maxRetries

theorem handleUp_map (b : Broker C D) (identity : Identity) (writer accept : C) :
    (b.map f).handleUp identity writer accept
      = mapResult f (b.handleUp identity writer accept) := by
  have hconns : (b.map f).conns = b.conns := rfl
  by_cases h : identity ∈ b.conns
  · rw [handleUp_of_mem h, handleUp_of_mem (by rw [hconns]; exact h)]
    rfl
  · rw [handleUp_of_notMem h, handleUp_of_notMem (by rw [hconns]; exact h)]
    exact congrArg (fun r : Broker C E × List (Effect C E) => (r.1, _ :: r.2))
      (transmitAll_map f (b.connect identity writer) b.buffer)

theorem handleReceived_map (b : Broker C D) (identity : Identity) (envelope : Envelope D) :
    (b.map f).handleReceived identity (envelope.map f)
      = mapResult f (b.handleReceived identity envelope) := by
  cases envelope with
  | data payload => rfl
  | dataReq msgId payload =>
    exact congrArg (fun es => (_, _ :: es)) (sendTo_map f b identity (.ack msgId))
  | ack msgId =>
    have hlookup : (b.map f).pending.lookup msgId = (b.pending.lookup msgId).map (Pending.map f) :=
      AList.lookup_mapVal _ msgId b.pending
    show (b.map f).handleReceived identity (.ack msgId) = _
    cases h : b.pending.lookup msgId with
    | none =>
      rw [handleReceived_ack_of_none h, handleReceived_ack_of_none (by rw [hlookup, h]; rfl)]
      rfl
    | some p =>
      rw [h] at hlookup
      rw [handleReceived_ack_of_some h, handleReceived_ack_of_some hlookup, forget_map]
      rfl
  | hello version peer => rfl
  | heartbeat => rfl

theorem handleResend_map (b : Broker C D) (msgId : MsgId) :
    (b.map f).handleResend msgId = mapResult f (b.handleResend msgId) := by
  have hlookup : (b.map f).pending.lookup msgId = (b.pending.lookup msgId).map (Pending.map f) :=
    AList.lookup_mapVal _ msgId b.pending
  cases h : b.pending.lookup msgId with
  | none =>
    rw [handleResend_of_none h, handleResend_of_none (by rw [hlookup, h]; rfl)]
    rfl
  | some p =>
    rw [h] at hlookup
    have hretries : (p.map f).retries = p.retries := rfl
    have hconns : (b.map f).conns = b.conns := rfl
    rw [handleResend_of_some h, handleResend_of_some hlookup, hretries, hconns, forget_map]
    split_ifs
    · rfl
    · simp [mapResult, map, forget, Pending.map]
    · exact transmit_map f (b.forget msgId) p.identity p.data (p.retries - 1)

/-- One turn commutes with every function on payloads. -/
theorem step_map (b : Broker C D) (cmd : Command C D) :
    (b.map f).step (cmd.map f) = mapResult f (b.step cmd) := by
  cases cmd with
  | send identity data => exact handleSend_map f b identity data
  | connectionUp identity writer accept => exact handleUp_map f b identity writer accept
  | connectionDown identity => rfl
  | received identity envelope => exact handleReceived_map f b identity envelope
  | resendTimeout msgId => exact handleResend_map f b msgId
  | close => rfl

/-- **The broker never looks inside a payload.** A run commutes with every function on them. -/
theorem run_map (b : Broker C D) (cmds : List (Command C D)) :
    (b.map f).run (cmds.map (Command.map f)) = mapResult f (b.run cmds) := by
  induction cmds generalizing b with
  | nil => rfl
  | cons cmd rest ih =>
    by_cases hclose : cmd = .close
    · subst hclose
      rfl
    · have hclose' : cmd.map f ≠ .close := fun h => hclose (cmd.map_eq_close.mp h)
      rw [List.map_cons, run_cons hclose, run_cons hclose', step_map]
      simp only [mapResult, ih, List.map_append]

end Broker

/-! ### Labels -/

/-- Label the payload of each command with its position, counting from `k`. -/
def labelFrom (k : ℕ) : List (Command C D) → List (Command C (ℕ × D))
  | [] => []
  | cmd :: rest => cmd.map (Prod.mk k) :: labelFrom (k + 1) rest

/-- Label the payload of each command with its position. -/
def labelled (cmds : List (Command C D)) : List (Command C (ℕ × D)) := labelFrom 0 cmds

theorem Command.map_map {F : Type} (f : D → E) (g : E → F) (cmd : Command C D) :
    (cmd.map f).map g = cmd.map (g ∘ f) := by
  cases cmd with
  | received identity envelope => cases envelope <;> rfl
  | _ => rfl

theorem Command.map_id (cmd : Command C D) : cmd.map id = cmd := by
  cases cmd with
  | received identity envelope => cases envelope <;> rfl
  | _ => rfl

theorem map_snd_labelFrom (k : ℕ) (cmds : List (Command C D)) :
    (labelFrom k cmds).map (Command.map Prod.snd) = cmds := by
  induction cmds generalizing k with
  | nil => rfl
  | cons cmd rest ih =>
    rw [labelFrom, List.map_cons, ih, Command.map_map]
    exact congrArg (· :: rest) cmd.map_id

/-- **The labelled run, labels erased, is the run.** -/
theorem run_labelled (sendMode : SendMode) (delivery : DeliveryGuarantee)
    (salt : List.Vector UInt8 8) (cmds : List (Command C D)) :
    Broker.mapResult Prod.snd ((Broker.new sendMode delivery salt).run (labelled cmds))
      = (Broker.new sendMode delivery salt).run cmds := by
  rw [← Broker.run_map, labelled, map_snd_labelFrom, Broker.map_new]

end Aiomsg
