import Aiomsg.CLib.Protocol
import Aiomsg.Lib.Decoding
import Aiomsg.Protocol.RoundTrip

/-!
# The JavaScript codec

`javascript-lib/src/protocol.js` and `browser-lib/src/protocol.js`. They share the parser and the
decoder, whose buffer is replaced as a whole whenever it changes, so that a view taken earlier keeps
showing what it showed.

They differ in the prefix: Node's `writeUInt32BE` throws a `RangeError` for a length that does not
fit, the browser's `setUint32` takes it modulo `2 ^ 32`.

## Scope

The receiving side is one for both, since `DataView` and `Buffer` read a prefix alike. Chunks are
byte strings of any length, and a buffer is a value: the source replaces it and never writes into
it.

## Main results

* `Decoder.pop_eq` — a pop is one cut of the splitter
* `frameOf_eq`, `BrowserLib.frameOf_eq` — what the frame builders write
* `recognised_of_prefix` — what is read of the beginning of some frames
-/

namespace Aiomsg

open Protocol

namespace JsLib

/-! ### Building frames -/

/-- `frame`; `none` stands for the `RangeError`. -/
def frame (type : UInt8) (body : Bytes) : Option Bytes :=
  if 2 ^ 32 ≤ 1 + body.length then none
  else some (BigEndian.encode 4 (1 + body.length) ++ type :: body)

def frameHello (identity : Identity) : Option Bytes :=
  frame tHello (protocolVersion :: identity.toList)

def frameHeartbeat : Option Bytes := frame tHeartbeat []

def frameData (payload : Bytes) : Option Bytes := frame tData payload

def frameDataReq (msgId : MsgId) (payload : Bytes) : Option Bytes :=
  frame tDataReq (msgId.toList ++ payload)

def frameAck (msgId : MsgId) : Option Bytes := frame tAck msgId.toList

/-- The frame of an envelope, by the builder for its type. -/
def frameOf : Envelope Bytes → Option Bytes
  | .hello _ identity => frameHello identity
  | .heartbeat => frameHeartbeat
  | .data payload => frameData payload
  | .dataReq msgId payload => frameDataReq msgId payload
  | .ack msgId => frameAck msgId

/-- **The builders write what the Rust encoders write**, as long as its length fits. -/
theorem frameOf_eq {e : Envelope Bytes} (h : e.Fits) : frameOf e = some e.frame := by
  have hframe {type : UInt8} {body : Bytes} (hlen : (type :: body).length < 2 ^ 32) :
      frame type body = some (LengthPrefix.frame (type :: body)) := by
    rw [List.length_cons, Nat.add_comm] at hlen
    rw [frame, if_neg (Nat.not_le.mpr hlen), LengthPrefix.frame, List.length_cons, Nat.add_comm]
  rw [h.frame_eq_frame]
  obtain ⟨hencodable, hlen⟩ := h
  cases e with
  | hello version identity =>
    obtain rfl : version = protocolVersion := hencodable
    exact hframe hlen
  | heartbeat | data | dataReq | ack => exact hframe hlen

/-! ### Parsing envelopes -/

/-- `parseEnvelope`. -/
def parseEnvelope (env : Bytes) : Option (Envelope Bytes) :=
  match env with
  | [] => none
  | type :: body =>
    if type = tHello then
      if h : body.length < 1 + identitySize then none
      else
        some (.hello (body.get ⟨0, CLib.pos_of_hello h⟩)
          (firstSixteen (body.drop 1) (CLib.sixteen_of_hello h)))
    else if type = tHeartbeat then some .heartbeat
    else if type = tData then some (.data body)
    else if type = tDataReq then
      if h : body.length < msgIdSize then none
      else some (.dataReq (firstSixteen body (CLib.sixteen_of_msgId h)) (body.drop msgIdSize))
    else if type = tAck then
      if h : body.length < msgIdSize then none
      else some (.ack (firstSixteen body (CLib.sixteen_of_msgId h)))
    else none

theorem parseEnvelope_eq_decode (env : Bytes) : parseEnvelope env = decode env := by
  cases env <;> rfl

/-! ### The decoder -/

/-- `Decoder`: its buffer. -/
structure Decoder where
  buf : Bytes

namespace Decoder

def new : Decoder := ⟨[]⟩

def push (d : Decoder) (chunk : Bytes) : Decoder :=
  if d.buf.length = 0 then ⟨chunk⟩ else ⟨d.buf ++ chunk⟩

/-- The next complete envelope, or `none`. -/
def pop (d : Decoder) : Option (Bytes × Decoder) :=
  if d.buf.length < 4 then none
  else
    let len := BigEndian.value (d.buf.take 4)
    if d.buf.length < 4 + len then none
    else some ((d.buf.drop 4).take len, ⟨d.buf.drop (4 + len)⟩)

theorem push_eq (d : Decoder) (chunk : Bytes) : d.push chunk = ⟨d.buf ++ chunk⟩ := by
  unfold push
  split
  · rename_i h
    rw [List.eq_nil_of_length_eq_zero h, List.nil_append]
  · rfl

/-- **A pop is one cut of the splitter.** -/
theorem pop_eq (d : Decoder) :
    d.pop = match LengthPrefix.deframer.parse d.buf with
      | .more => none
      | .item body rest => some (body, ⟨rest⟩)
      | .stop c => c.elim := by
  show d.pop = match LengthPrefix.parse d.buf with
    | .more => none
    | .item body rest => some (body, ⟨rest⟩)
    | .stop c => c.elim
  unfold pop LengthPrefix.parse LengthPrefix.announced
  simp only
  split_ifs with h₁ h₂
  · rfl
  · rfl
  · simp only [List.drop_drop]

end Decoder

/-! ### Streams -/

/-- The envelopes some bytes come to. What cannot be parsed is skipped. -/
def recognised (bytes : Bytes) : List (Envelope Bytes) :=
  (LengthPrefix.deframer.items bytes).filterMap parseEnvelope

@[simp] theorem recognised_nil : recognised [] = [] := by
  rw [recognised, LengthPrefix.items_nil, List.filterMap_nil]

/-- **What was framed is recognised.** -/
theorem recognised_frames {es : List (Envelope Bytes)} (h : ∀ e ∈ es, e.Fits) :
    recognised (es.map Envelope.frame).flatten = es := by
  rw [recognised, Envelope.items_frames h, List.filterMap_map]
  have hsome : (parseEnvelope ∘ Envelope.body) = some := by
    funext e
    exact (parseEnvelope_eq_decode e.body).trans (Envelope.decode_body e)
  rw [hsome, List.filterMap_some]

/-- More bytes come to the same envelopes, and maybe others behind them. -/
theorem recognised_prefix {bytes more : Bytes} (h : bytes <+: more) :
    recognised bytes <+: recognised more := by
  obtain ⟨rest, rfl⟩ := h
  rw [recognised, recognised, Deframer.items_append, List.filterMap_append]
  exact List.prefix_append _ _

/-- What is read of the beginning of some frames. -/
theorem recognised_of_prefix {bytes : Bytes} {es : List (Envelope Bytes)} (h : ∀ e ∈ es, e.Fits)
    (hbytes : bytes <+: (es.map Envelope.frame).flatten) : recognised bytes <+: es := by
  have hprefix := recognised_prefix hbytes
  rwa [recognised_frames h] at hprefix

end JsLib

namespace BrowserLib

/-- `frame`: `setUint32` takes the length modulo `2 ^ 32`. -/
def frame (type : UInt8) (body : Bytes) : Bytes :=
  BigEndian.encode 4 ((1 + body.length) % 2 ^ 32) ++ type :: body

def frameHello (identity : Identity) : Bytes :=
  frame tHello (protocolVersion :: identity.toList)

def frameHeartbeat : Bytes := frame tHeartbeat []

def frameData (payload : Bytes) : Bytes := frame tData payload

def frameDataReq (msgId : MsgId) (payload : Bytes) : Bytes :=
  frame tDataReq (msgId.toList ++ payload)

def frameAck (msgId : MsgId) : Bytes := frame tAck msgId.toList

/-- The frame of an envelope, by the builder for its type. -/
def frameOf : Envelope Bytes → Bytes
  | .hello _ identity => frameHello identity
  | .heartbeat => frameHeartbeat
  | .data payload => frameData payload
  | .dataReq msgId payload => frameDataReq msgId payload
  | .ack msgId => frameAck msgId

/-- **The builders write what the Rust encoders write**, be the length too great or not. -/
theorem frameOf_eq (e : Envelope Bytes) : frameOf e = e.frame := by
  cases e with
  | heartbeat => rfl
  | data payload => rfl
  | hello version identity =>
    show frame tHello _ = Protocol.hello identity
    rw [frame, Protocol.hello, putLenPrefix]
    simp [identitySize]
  | dataReq msgId payload =>
    show frame tDataReq _ = Protocol.dataReq msgId payload
    rw [frame, Protocol.dataReq, putLenPrefix, List.length_append, List.Vector.toList_length,
      ← Nat.add_assoc]
    rfl
  | ack msgId =>
    show frame tAck _ = Protocol.ack msgId
    rw [frame, Protocol.ack, putLenPrefix, List.Vector.toList_length]
    rfl

end BrowserLib

end Aiomsg
