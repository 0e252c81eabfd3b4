import Aiomsg.Protocol.Envelope

/-!
# `envelope.decode`

The decoder of `envelope.py`, which the two Python packages have a copy of each, against the Rust
one. The Rust decoder looks at the length of the body first. This one slices: a slice of a body that
is too short is a shorter slice, and only the version of a HELLO is looked up by its index, which
raises if it is not there. So the two agree but for the envelopes that are too short for their type.

An identity or an id of fewer than sixteen bytes can come out of it, so the fields of `Envelope` are
byte strings here.

## Scope

The encoders of the package are those of the other ports, and are not repeated. A type byte that is
not known gives `None` in both decoders. What `raw_recv` does with a short identity or id belongs to
the sockets.

## Main results

* `Codec.agrees_iff` — exactly when the two decoders agree
* `Codec.decode_eq_error_iff` — the only envelope on which this one raises
-/

namespace Aiomsg

namespace Python

namespace Codec

open Protocol (tHello tHeartbeat tData tDataReq tAck identitySize msgIdSize)

/-- `MsgType` -/
inductive MsgType where
  | hello
  | heartbeat
  | data
  | dataReq
  | ack
deriving DecidableEq

/-- A decoded envelope. Only the fields relevant to `type` are populated. -/
structure Envelope where
  type : MsgType
  version : UInt8 := 0
  identity : Bytes := []
  msgId : Bytes := []
  payload : Bytes := []
deriving DecidableEq

/-- The exception of an index that is out of range. -/
inductive IndexError where
  | outOfRange
deriving DecidableEq

/-- `bytes[i]` -/
def item (bytes : Bytes) (i : ℕ) : Except IndexError UInt8 :=
  match bytes[i]? with
  | some b => .ok b
  | none => .error .outOfRange

/-- `bytes[start:stop]` -/
def slice (bytes : Bytes) (start stop : ℕ) : Bytes := (bytes.take stop).drop start

/-- Decode one envelope (the bytes inside a frame). -/
def decode : Bytes → Except IndexError (Option Envelope)
  | [] => .ok none
  | t :: body =>
    if t = tHello then
      match item body 0 with
      | .error e => .error e
      | .ok version =>
        let identity := slice body 1 (1 + identitySize)
        .ok (some { type := .hello, version := version, identity := identity })
    else if t = tHeartbeat then .ok (some { type := .heartbeat })
    else if t = tData then .ok (some { type := .data, payload := body })
    else if t = tDataReq then
      let msgId := slice body 0 msgIdSize
      .ok (some { type := .dataReq, msgId := msgId, payload := body.drop msgIdSize })
    else if t = tAck then .ok (some { type := .ack, msgId := slice body 0 msgIdSize })
    else .ok none -- unknown type, ignore

/-- What the Rust decoder has found, with the fields named as here. -/
def ofRust : Aiomsg.Envelope Bytes → Envelope
  | .hello version identity => { type := .hello, version := version, identity := identity.toList }
  | .heartbeat => { type := .heartbeat }
  | .data payload => { type := .data, payload := payload }
  | .dataReq msgId payload => { type := .dataReq, msgId := msgId.toList, payload := payload }
  | .ack msgId => { type := .ack, msgId := msgId.toList }

/-- The decoder returns, and returns what the Rust decoder does. -/
def Agrees (envelope : Bytes) : Prop :=
  decode envelope = .ok ((Protocol.decode envelope).map ofRust)

/-- An envelope of a type that has an identity or an id, without the sixteen bytes of it. -/
def Truncated : Bytes → Prop
  | [] => False
  | t :: body =>
    t = tHello ∧ body.length < 1 + identitySize ∨
      (t = tDataReq ∨ t = tAck) ∧ body.length < msgIdSize

theorem agrees_hello (body : Bytes) :
    Agrees (tHello :: body) ↔ ¬ body.length < 1 + identitySize := by
  rw [Agrees, decode, Protocol.decode, if_pos rfl, if_pos rfl]
  rcases body with _ | ⟨version, rest⟩
  · simp [item, identitySize]
  · rw [item, List.getElem?_cons_zero]
    by_cases hshort : (version :: rest).length < 1 + identitySize
    · rw [dif_pos hshort]
      simpa using hshort
    · have hidentity : slice (version :: rest) 1 (1 + identitySize) = rest.take 16 := by
        rw [slice, Nat.add_comm 1, List.take_succ_cons]
        rfl
      rw [dif_neg hshort, hidentity]
      exact iff_of_true rfl hshort

theorem agrees_dataReq (body : Bytes) :
    Agrees (tDataReq :: body) ↔ ¬ body.length < msgIdSize := by
  rw [Agrees, decode, Protocol.decode, if_neg (by decide), if_neg (by decide), if_neg (by decide),
    if_pos rfl, if_neg (by decide), if_neg (by decide), if_neg (by decide), if_pos rfl]
  by_cases hshort : body.length < msgIdSize
  · rw [dif_pos hshort]
    simpa using hshort
  · rw [dif_neg hshort]
    exact iff_of_true rfl hshort

theorem agrees_ack (body : Bytes) : Agrees (tAck :: body) ↔ ¬ body.length < msgIdSize := by
  rw [Agrees, decode, Protocol.decode, if_neg (by decide), if_neg (by decide), if_neg (by decide),
    if_neg (by decide), if_pos rfl, if_neg (by decide), if_neg (by decide), if_neg (by decide),
    if_neg (by decide), if_pos rfl]
  by_cases hshort : body.length < msgIdSize
  · rw [dif_pos hshort]
    simpa using hshort
  · rw [dif_neg hshort]
    exact iff_of_true rfl hshort

theorem agrees_of_no_id {t : UInt8} (hhello : t ≠ tHello) (hdataReq : t ≠ tDataReq)
    (hack : t ≠ tAck) (body : Bytes) : Agrees (t :: body) := by
  rw [Agrees, decode, Protocol.decode]
  simp only [hhello, hdataReq, hack, if_false]
  split_ifs <;> rfl

/-- **The two decoders agree** but for the envelopes that are too short for their type. -/
theorem agrees_iff (envelope : Bytes) : Agrees envelope ↔ ¬ Truncated envelope := by
  match envelope with
  | [] => exact iff_of_true rfl id
  | t :: body =>
    by_cases hhello : t = tHello
    · subst hhello
      rw [agrees_hello, Truncated]
      simp [tHello, tDataReq, tAck]
    · by_cases hdataReq : t = tDataReq
      · subst hdataReq
        rw [agrees_dataReq, Truncated]
        simp [hhello]
      · by_cases hack : t = tAck
        · subst hack
          rw [agrees_ack, Truncated]
          simp [hhello]
        · refine iff_of_true (agrees_of_no_id hhello hdataReq hack body) ?_
          rw [Truncated]
          simp [hhello, hdataReq, hack]

/-- The only envelope on which `decode` raises is a HELLO that ends behind its type. -/
theorem decode_eq_error_iff {envelope : Bytes} {e : IndexError} :
    decode envelope = .error e ↔ envelope = [tHello] := by
  rcases envelope with _ | ⟨t, body⟩
  · simp [decode]
  · rw [decode]
    by_cases hhello : t = tHello
    · subst hhello
      rcases body with _ | ⟨version, rest⟩
      · simp [item]
      · simp [item]
    · simp only [hhello, if_false]
      refine iff_of_false ?_ (by simp [hhello])
      split_ifs <;> simp

end Codec

end Python

end Aiomsg
