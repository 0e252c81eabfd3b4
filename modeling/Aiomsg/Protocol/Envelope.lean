import Aiomsg.Lib.BigEndian
import Mathlib.Data.Vector.Basic

/-!
# Envelopes and frames

The wire format of `rust-lib-sync/src/protocol.rs`: the five envelopes, the encoders that build a
complete length-prefixed frame, and `decode`, which reads one envelope once the framing layer has
stripped the prefix.

`Envelope` is generic in the payload. The codec works on `Envelope Bytes`; the broker, which moves
payloads around without ever looking into them, is modelled for any payload type.

## The length prefix

The prefix is written through a cast, `body_len as u32`, so an encoder is total and for a body of
`2 ^ 32` bytes or more it writes a prefix that is not the length of the body. Nothing here hides
that: `putLenPrefix` reduces modulo `2 ^ 32`, and the bound is a hypothesis wherever a statement
needs the prefix to be right.

## Scope

Sixteen bytes are a type here, so an identity of another length cannot be built, and `decode` has to
show that it has found enough. Allocation and the sharing of buffers (`Bytes` and `BytesMut` in the
source) are not modelled: a byte string is a list.

## Main results

* `decode_body` — decoding the body of an encoded envelope gives the envelope back
* `frame_eq` — an encoded envelope is the prefix of its body's length followed by its body
-/

namespace Aiomsg

/-- A byte string, the `Bytes` of the source. -/
abbrev Bytes := List UInt8

/-- The identity of a socket. -/
abbrev Identity := List.Vector UInt8 16

/-- The id of one at-least-once transmission. -/
abbrev MsgId := List.Vector UInt8 16

namespace Protocol

def protocolVersion : UInt8 := 1

def identitySize : ℕ := 16

def msgIdSize : ℕ := 16

def tHello : UInt8 := 0x01

def tHeartbeat : UInt8 := 0x02

def tData : UInt8 := 0x03

def tDataReq : UInt8 := 0x04

def tAck : UInt8 := 0x05

end Protocol

/-- A decoded envelope with payload type `D`. Unknown types have no constructor; `decode` gives
`none` for them, as for whatever is too short. -/
inductive Envelope (D : Type) where
  | hello (version : UInt8) (identity : Identity)
  | heartbeat
  | data (payload : D)
  | dataReq (msgId : MsgId) (payload : D)
  | ack (msgId : MsgId)
deriving DecidableEq

namespace Protocol

/-! ### Encoders -/

/-- The four prefix bytes: `body_len as u32`, big-endian. -/
def putLenPrefix (bodyLen : ℕ) : Bytes := BigEndian.encode 4 (bodyLen % 2 ^ 32)

theorem putLenPrefix_eq (bodyLen : ℕ) : putLenPrefix bodyLen = BigEndian.encode 4 bodyLen :=
  BigEndian.encode_mod 4 bodyLen

def hello (identity : Identity) : Bytes :=
  putLenPrefix (2 + identitySize) ++ (tHello :: protocolVersion :: identity.toList)

def heartbeat : Bytes := [0, 0, 0, 1, tHeartbeat]

def data (payload : Bytes) : Bytes :=
  putLenPrefix (1 + payload.length) ++ (tData :: payload)

def dataReq (msgId : MsgId) (payload : Bytes) : Bytes :=
  putLenPrefix (1 + msgIdSize + payload.length) ++ (tDataReq :: (msgId.toList ++ payload))

def ack (msgId : MsgId) : Bytes :=
  putLenPrefix (1 + msgIdSize) ++ (tAck :: msgId.toList)

/-! ### Decoder -/

/-- The first sixteen bytes of a slice that is known to have them: `copy_from_slice` into a
`[u8; 16]`. -/
def firstSixteen (slice : Bytes) (h : 16 ≤ slice.length) : List.Vector UInt8 16 :=
  ⟨slice.take 16, by rw [List.length_take]; omega⟩

/-- Decode one envelope from the bytes behind the prefix. `none` for an empty, truncated or
unknown one. -/
def decode : Bytes → Option (Envelope Bytes)
  | [] => none
  | t :: body =>
    if t = tHello then
      if h : body.length < 1 + identitySize then none
      else
        some (.hello (body.get ⟨0, by unfold identitySize at h; omega⟩)
          (firstSixteen (body.drop 1) (by unfold identitySize at h; simp; omega)))
    else if t = tHeartbeat then some .heartbeat
    else if t = tData then some (.data body)
    else if t = tDataReq then
      if h : body.length < msgIdSize then none
      else some (.dataReq (firstSixteen body (Nat.le_of_not_lt h)) (body.drop msgIdSize))
    else if t = tAck then
      if h : body.length < msgIdSize then none
      else some (.ack (firstSixteen body (Nat.le_of_not_lt h)))
    else none

@[simp] theorem firstSixteen_append (v : List.Vector UInt8 16) (tail : Bytes)
    (h : 16 ≤ (v.toList ++ tail).length) : firstSixteen (v.toList ++ tail) h = v := by
  apply List.Vector.eq
  rw [firstSixteen, List.Vector.toList_mk, List.take_append_of_le_length (by simp),
    List.take_of_length_le (by simp)]

@[simp] theorem firstSixteen_toList (v : List.Vector UInt8 16) (h : 16 ≤ v.toList.length) :
    firstSixteen v.toList h = v := by
  apply List.Vector.eq
  rw [firstSixteen, List.Vector.toList_mk, List.take_of_length_le (by simp)]

/-! ### The envelopes the encoders build -/

end Protocol

namespace Envelope

open Protocol

/-- The bytes behind the prefix of an encoded envelope. -/
def body : Envelope Bytes → Bytes
  | .hello version identity => tHello :: version :: identity.toList
  | .heartbeat => [tHeartbeat]
  | .data payload => tData :: payload
  | .dataReq msgId payload => tDataReq :: (msgId.toList ++ payload)
  | .ack msgId => tAck :: msgId.toList

/-- The frame the encoder for this envelope returns. `hello` takes no version: it always writes
its own, so a HELLO of another version is not built by any encoder. -/
def frame : Envelope Bytes → Bytes
  | .hello _ identity => Protocol.hello identity
  | .heartbeat => Protocol.heartbeat
  | .data payload => Protocol.data payload
  | .dataReq msgId payload => Protocol.dataReq msgId payload
  | .ack msgId => Protocol.ack msgId

/-- One of the envelopes the encoders build: a HELLO has this implementation's version. -/
def Encodable : Envelope Bytes → Prop
  | .hello version _ => version = protocolVersion
  | _ => True

/-- **Decode after encode**, on the bytes behind the prefix. -/
theorem decode_body (e : Envelope Bytes) : decode e.body = some e := by
  cases e with
  | hello version identity => simp [body, decode, identitySize]
  | heartbeat => rfl
  | data payload => rfl
  | dataReq msgId payload =>
    have hlen : ¬ (msgId.toList ++ payload).length < msgIdSize := by simp [msgIdSize]
    have hdrop : (msgId.toList ++ payload).drop msgIdSize = payload := by
      rw [List.drop_append_of_le_length (by simp [msgIdSize]),
        List.drop_of_length_le (by simp [msgIdSize]), List.nil_append]
    rw [body, decode, if_neg (by decide), if_neg (by decide), if_neg (by decide), if_pos rfl,
      dif_neg hlen, firstSixteen_append, hdrop]
  | ack msgId =>
    have hlen : ¬ msgId.toList.length < msgIdSize := by simp [msgIdSize]
    rw [body, decode, if_neg (by decide), if_neg (by decide), if_neg (by decide),
      if_neg (by decide), if_pos rfl, dif_neg hlen, firstSixteen_toList]

/-- **An encoded envelope is its body behind the body's length.** -/
theorem frame_eq {e : Envelope Bytes} (h : e.Encodable) :
    e.frame = putLenPrefix e.body.length ++ e.body := by
  cases e with
  | hello version identity =>
    simp only [Encodable] at h
    subst h
    simp [frame, body, Protocol.hello, identitySize]
  | heartbeat => decide
  | data payload => simp [frame, body, Protocol.data, Nat.add_comm]
  | dataReq msgId payload =>
    simp [frame, body, Protocol.dataReq, msgIdSize, Nat.add_comm, Nat.add_left_comm]
  | ack msgId => simp [frame, body, Protocol.ack, msgIdSize]

end Envelope

end Aiomsg
