import Aiomsg.Ws.Frame

/-!
# What a client may send, and what it is to hear

The abstract side of the adapter: RFC 6455 as far as it is used here, as a grammar of byte strings
and not as a parser. A stream is a sequence of frames that pass, and behind them either a reason to
close the connection or nothing but the beginning of a frame. `Reading` says so; it does not say how
one finds out, and nothing in it knows of buffers or reads.

What the application gets is the payloads of the binary and continuation frames among them. What the
client gets is a PONG for each PING, and a Close frame if there is a reason for one.

A length can be written in three ways. The RFC asks for the shortest; the adapter takes any, and so
does this grammar.

## Scope

Where the RFC asks for more than the adapters check, the grammar does not: lengths may be written in
more bytes than they need, a continuation frame may come first, and the code of a Close frame is
taken as it is.

## Main definitions

* `Header`, `ClientFrame` — a frame that can be written down, and its bytes
* `Stops` — the reasons to close the connection, each with its code
* `Reading` — what a stream comes to
-/

namespace Aiomsg

namespace Ws

/-- The three ways of writing a length. -/
inductive LengthForm where
  | seven
  | sixteen
  | sixtyFour
deriving DecidableEq, Repr

/-- What a form has room for. In the last one the top bit is not used. -/
def LengthForm.bound : LengthForm → ℕ
  | .seven => 126
  | .sixteen => 2 ^ 16
  | .sixtyFour => 2 ^ 63

/-- The header of a masked frame without RSV bits, up to its mask. -/
structure Header where
  fin : Bool
  opcode : UInt8
  opcode_lt : opcode < 16
  form : LengthForm
  len : ℕ
  len_lt : len < form.bound

namespace Header

/-- The mask bit and the length. -/
def lengthBytes (h : Header) : Bytes :=
  match h.form with
  | .seven => [0x80 ||| UInt8.ofNat h.len]
  | .sixteen => 0xFE :: BigEndian.encode 2 h.len
  | .sixtyFour => 0xFF :: BigEndian.encode 8 h.len

def bytes (h : Header) : Bytes := ((if h.fin then 0x80 else 0) ||| h.opcode) :: h.lengthBytes

/-- A control frame that is fragmented or too long. -/
def Illegal (h : Header) : Prop := 0x8 ≤ h.opcode ∧ (h.fin = false ∨ 125 < h.len)

instance (h : Header) : Decidable h.Illegal := inferInstanceAs (Decidable (_ ∧ _))

end Header

/-- A complete frame, its payload as the client means it. -/
structure ClientFrame extends Header where
  mask : List.Vector UInt8 4
  payload : Bytes
  length_payload : payload.length = len

namespace ClientFrame

def bytes (f : ClientFrame) : Bytes :=
  f.toHeader.bytes ++ (f.mask.toList ++ xorMask f.mask.toList f.payload)

/-- A frame after which the stream goes on. -/
def Passes (f : ClientFrame) : Prop :=
  ¬ f.Illegal ∧ (f.opcode = opBin ∨ f.opcode = opCont ∨ f.opcode = opPing ∨ f.opcode = opPong)

instance (f : ClientFrame) : Decidable f.Passes := inferInstanceAs (Decidable (_ ∧ _))

/-- What a frame that passes adds to the stream of the application. -/
def carried (f : ClientFrame) : Bytes :=
  if f.opcode = opBin ∨ f.opcode = opCont then f.payload else []

/-- What the client hears to a frame that passes: a PONG to a PING, with its payload. -/
def answer (f : ClientFrame) : Bytes :=
  if f.opcode = opPing then 0x8A :: UInt8.ofNat f.payload.length :: f.payload else []

end ClientFrame

/-- A Close frame with a code. -/
def closeFrame (code : UInt16) : Bytes := 0x88 :: 2 :: BigEndian.encode 2 code.toNat

/-- The byte string begins with a reason to close the connection. -/
inductive Stops : Bytes → UInt16 → Prop
  | rsv {b0 b1 : UInt8} (rest : Bytes) (h : b0 &&& 0x70 ≠ 0) : Stops (b0 :: b1 :: rest) 1002
  | unmasked {b0 b1 : UInt8} (rest : Bytes) (h : b1 &&& 0x80 = 0) : Stops (b0 :: b1 :: rest) 1002
  | lengthTop {b0 b1 : UInt8} {len : Bytes} (rest : Bytes) (hform : b1 &&& 0x7f = 127)
      (hlen : len.length = 8) (htop : 2 ^ 63 ≤ BigEndian.value len) :
      Stops (b0 :: b1 :: (len ++ rest)) 1002
  | control (h : Header) (rest : Bytes) (hillegal : h.Illegal) : Stops (h.bytes ++ rest) 1002
  | unknown (f : ClientFrame) (rest : Bytes)
      (hopcode : f.opcode ∉ [opCont, opText, opBin, opClose, opPing, opPong]) :
      Stops (f.bytes ++ rest) 1002
  | text (f : ClientFrame) (rest : Bytes) (hopcode : f.opcode = opText) :
      Stops (f.bytes ++ rest) 1003
  /-- The client closes the connection. Its code is echoed. -/
  | close (f : ClientFrame) (rest : Bytes) (hopcode : f.opcode = opClose) (hlegal : ¬ f.Illegal) :
      Stops (f.bytes ++ rest) (closeCode f.payload)

/-- How a stream ends behind the frames that pass: with a reason to close the connection, or because
there is nothing more, neither a reason nor a complete frame. -/
inductive Ends (tail : Bytes) : Option UInt16 → Prop
  | stop {code : UInt16} (h : Stops tail code) : Ends tail (some code)
  | eof (hframe : ∀ f : ClientFrame, ¬ f.bytes <+: tail) (hstop : ∀ code, ¬ Stops tail code) :
      Ends tail none

/-- What a stream comes to: the frames that pass, and the code to close the connection with if there
is a reason to. -/
def Reading (stream : Bytes) (frames : List ClientFrame) (code : Option UInt16) : Prop :=
  ∃ tail, stream = (frames.map ClientFrame.bytes).flatten ++ tail ∧ (∀ f ∈ frames, f.Passes) ∧
    Ends tail code

/-- The bytes the application is to get. -/
def content (frames : List ClientFrame) : Bytes := (frames.map ClientFrame.carried).flatten

/-- The bytes the client is to hear. -/
def reply (frames : List ClientFrame) (code : Option UInt16) : Bytes :=
  (frames.map ClientFrame.answer).flatten ++ (code.map closeFrame).getD []

end Ws

end Aiomsg
