import Aiomsg.Protocol.Envelope

/-!
# WebSocket frames, as the adapter reads and writes them

The frame layer of `rust-lib-sync/src/ws.rs`: `server_frame`, which encodes what goes to the client,
and `parse_client_frame`, which looks at the bytes received so far and says what they begin with.

The checks of `parse_client_frame` need different numbers of bytes. The RSV bits and the mask bit
are looked at once there are two; the top bit of a 64-bit length once there are ten; the limits on
control frames once the length is known; and a text frame or an unknown opcode is only turned down
once the whole frame is there. `clientHead` is the part up to where the length is known.

A `usize` has 64 bits here, so a length that passes the check on its top bit fits, and no sum of the
offsets overflows.

## Scope

Extensions are not negotiated, so RSV bits are always a violation. Whether a continuation frame
continues anything is not looked at by the source, and a fragmented message is the payloads of its
frames one behind the other. Text is turned down as a whole.
-/

namespace Aiomsg

namespace Ws

def opCont : UInt8 := 0x0

def opText : UInt8 := 0x1

def opBin : UInt8 := 0x2

def opClose : UInt8 := 0x8

def opPing : UInt8 := 0x9

def opPong : UInt8 := 0xA

/-- Encode one server to client frame: FIN=1, RSV=0, unmasked, given opcode. -/
def serverFrame (opcode : UInt8) (payload : Bytes) : Bytes :=
  let n := payload.length
  let header :=
    if n < 126 then [UInt8.ofNat n]
    else if n < 65536 then 126 :: BigEndian.encode 2 n
    else 127 :: BigEndian.encode 8 n
  (0x80 ||| opcode) :: header ++ payload

/-- `u16::to_be_bytes`. -/
def toBeBytes (code : UInt16) : Bytes := BigEndian.encode 2 code.toNat

/-- `u16::from_be_bytes`. -/
def fromBeBytes (b b' : UInt8) : UInt16 := UInt16.ofNat (BigEndian.value [b, b'])

/-- A single parsed client frame, or a signal that more bytes are needed. -/
inductive Parsed where
  /-- Binary or continuation payload (unmasked). -/
  | data (payload : Bytes)
  | ping (payload : Bytes)
  | pong
  | close (code : UInt16)
  | needMore
  /-- Close code for a protocol violation. -/
  | protocol (code : UInt16)
deriving DecidableEq

/-- What is known of a frame before its mask. -/
inductive Head where
  | needMore
  | protocol (code : UInt16)
  | known (opcode : UInt8) (fin : Bool) (len offset : ℕ)
deriving DecidableEq

/-- `parse_client_frame` up to where `len` and `offset` are known. -/
def clientHead : Bytes → Head
  | b0 :: b1 :: rest =>
    if b0 &&& 0x70 ≠ 0 then .protocol 1002 -- RSV bits set
    else if b1 &&& 0x80 = 0 then .protocol 1002 -- client frames MUST be masked
    else
      let opcode := b0 &&& 0x0f
      let fin := decide (b0 &&& 0x80 ≠ 0)
      let len := (b1 &&& 0x7f).toNat
      if len = 126 then
        if rest.length < 2 then .needMore
        else .known opcode fin (BigEndian.value (rest.take 2)) 4
      else if len = 127 then
        if rest.length < 8 then .needMore
        else if rest.headD 0 &&& 0x80 ≠ 0 then .protocol 1002 -- 64-bit length MSB must be 0
        else .known opcode fin (BigEndian.value (rest.take 8)) 10
      else .known opcode fin len 2
  | _ => .needMore

/-- `for (i, byte) in masked.iter().enumerate() { payload[i] = byte ^ mask[i & 3]; }` -/
def xorMask (mask masked : Bytes) : Bytes :=
  masked.mapIdx fun i byte => byte ^^^ mask.getD (i &&& 3) 0

/-- The code a Close frame gives, or 1000. -/
def closeCode : Bytes → UInt16
  | b :: b' :: _ => fromBeBytes b b'
  | _ => 1000

/-- The `match opcode` on a complete frame. -/
def dispose (opcode : UInt8) (payload : Bytes) : Parsed :=
  if opcode = opBin ∨ opcode = opCont then .data payload
  else if opcode = opPing then .ping payload
  else if opcode = opPong then .pong
  else if opcode = opText then .protocol 1003 -- text is not valid for aiomsg
  else if opcode = opClose then .close (closeCode payload)
  else .protocol 1002 -- unknown opcode

/-- Parse one client frame from the front of `buf`. On success returns the parse and how many bytes
it consumed; `NeedMore` consumes nothing. -/
def parseClientFrame (buf : Bytes) : Parsed × ℕ :=
  match clientHead buf with
  | .needMore => (.needMore, 0)
  | .protocol code => (.protocol code, 0)
  | .known opcode fin len offset =>
    if 0x8 ≤ opcode ∧ (fin = false ∨ 125 < len) then
      (.protocol 1002, 0) -- control frames: FIN=1, <=125 bytes
    else if buf.length < offset + 4 + len then (.needMore, 0)
    else
      let mask := (buf.drop offset).take 4
      let masked := (buf.drop (offset + 4)).take len
      (dispose opcode (xorMask mask masked), offset + 4 + len)

@[simp] theorem length_xorMask (mask masked : Bytes) :
    (xorMask mask masked).length = masked.length := by simp [xorMask]

/-- **Masking twice is doing nothing.** -/
@[simp] theorem xorMask_xorMask (mask masked : Bytes) :
    xorMask mask (xorMask mask masked) = masked := by
  refine List.ext_getElem (by simp) fun i hi hi' => ?_
  simp only [xorMask, List.getElem_mapIdx, UInt8.xor_assoc, UInt8.xor_self, UInt8.xor_zero]

end Ws

end Aiomsg
