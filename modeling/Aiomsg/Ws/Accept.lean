import Aiomsg.Ws.Http

/-!
# The answer to an upgrade request

`success_response` and `error_response` of `rust-lib-sync/src/ws.rs`, with the SHA-1 and the base64
that the crate has of its own for `Sec-WebSocket-Accept`. The hasher takes its input in pieces and
keeps the bytes of an incomplete block; `fill` is below 64 between two calls, which is what makes
the padding of `finish` come to an end.

## Scope

The hasher is here as the crate has it, and is compared with nothing: that it computes SHA-1 is said
in terms of the other crate's function elsewhere. Lengths are `u64` and wrap.

## Main definitions

* `Sha1.update`, `Sha1.finish` — the hasher
* `base64Encode`, `acceptKey`
* `successResponse`, `errorResponse`
-/

namespace Aiomsg

namespace Ws

/-! ### SHA-1 -/

/-- The five words of the state. -/
abbrev Sha1State := UInt32 × UInt32 × UInt32 × UInt32 × UInt32

/-- `u32::rotate_left` -/
def rotateLeft (x n : UInt32) : UInt32 := x <<< n ||| x >>> (32 - n)

/-- `chunks_exact(4)`, each read as a big-endian word. -/
def wordsOf : Bytes → List UInt32
  | b₀ :: b₁ :: b₂ :: b₃ :: rest =>
    UInt32.ofNat (BigEndian.value [b₀, b₁, b₂, b₃]) :: wordsOf rest
  | _ => []

/-- The words `w` of a block, from the sixteen that are in it. -/
def schedule (block : Bytes) : List UInt32 :=
  (List.range 64).foldl (fun w i =>
    w ++ [rotateLeft
      (w.getD (i + 13) 0 ^^^ w.getD (i + 8) 0 ^^^ w.getD (i + 2) 0 ^^^ w.getD i 0) 1])
    (wordsOf block)

/-- The function and the constant of a round. -/
def roundOf (i : ℕ) (b c d : UInt32) : UInt32 × UInt32 :=
  if i < 20 then (b &&& c ||| ~~~b &&& d, 0x5A827999)
  else if i < 40 then (b ^^^ c ^^^ d, 0x6ED9EBA1)
  else if i < 60 then (b &&& c ||| b &&& d ||| c &&& d, 0x8F1BBCDC)
  else (b ^^^ c ^^^ d, 0xCA62C1D6)

/-- One round, with its number and its word. -/
def sha1Round : Sha1State → UInt32 × ℕ → Sha1State
  | (a, b, c, d, e), (word, i) =>
    let (f, k) := roundOf i b c d
    (rotateLeft a 5 + f + e + k + word, a, rotateLeft b 30, c, d)

def processBlock (state : Sha1State) (block : Bytes) : Sha1State :=
  let (a, b, c, d, e) := (schedule block).zipIdx.foldl sha1Round state
  (state.1 + a, state.2.1 + b, state.2.2.1 + c, state.2.2.2.1 + d, state.2.2.2.2 + e)

/-- The hasher. `block` is the buffer of 64 bytes, of which the first `fill` are what has come in
since the last whole block; the rest is stale. Both bounds are fields, so `update` and `finish` have
to keep them. -/
structure Sha1 where
  state : Sha1State
  len : UInt64
  block : Bytes
  fill : ℕ
  length_block : block.length = 64
  fill_lt : fill < 64

namespace Sha1

def new : Sha1 where
  state := (0x67452301, 0xEFCDAB89, 0x98BADCFE, 0x10325476, 0xC3D2E1F0)
  len := 0
  block := List.replicate 64 0
  fill := 0
  length_block := List.length_replicate
  fill_lt := Nat.zero_lt_succ 63

/-- `self.block[self.fill..self.fill + data.len()].copy_from_slice(data)` -/
def copied (h : Sha1) (data : Bytes) : Bytes :=
  h.block.take h.fill ++ data ++ h.block.drop (h.fill + data.length)

theorem length_copied (h : Sha1) {data : Bytes} (hfit : h.fill + data.length ≤ 64) :
    (h.copied data).length = 64 := by
  have hblock := h.length_block
  rw [copied, List.length_append, List.length_append, List.length_take, List.length_drop]
  omega

theorem fill_add_take_le (h : Sha1) (data : Bytes) :
    h.fill + (data.take (64 - h.fill)).length ≤ 64 := by
  have hlt := h.fill_lt
  have hle := List.length_take_le (64 - h.fill) data
  omega

/-- One turn of the loop of `update`: the bytes go into the block, and it is processed if it is
full. -/
def fillBlock (h : Sha1) (taken : Bytes) (hfit : h.fill + taken.length ≤ 64) : Sha1 :=
  if hfull : h.fill + taken.length = 64 then
    { h with
      state := processBlock h.state (h.copied taken)
      block := h.copied taken
      fill := 0
      length_block := h.length_copied hfit
      fill_lt := Nat.zero_lt_succ 63 }
  else
    { h with
      block := h.copied taken
      fill := h.fill + taken.length
      length_block := h.length_copied hfit
      fill_lt := Nat.lt_of_le_of_ne hfit hfull }

/-- The loop of `update`. -/
def absorb (h : Sha1) (data : Bytes) : Sha1 :=
  if _hdata : data = [] then h
  else
    absorb (h.fillBlock (data.take (64 - h.fill)) (h.fill_add_take_le data))
      (data.drop (64 - h.fill))
termination_by data.length
decreasing_by
  have hlt := h.fill_lt
  have hpos := List.length_pos_iff.mpr _hdata
  rw [List.length_drop]
  omega

def update (h : Sha1) (data : Bytes) : Sha1 :=
  { h with len := h.len + UInt64.ofNat data.length }.absorb data

theorem fill_fillBlock (h : Sha1) (taken : Bytes) (hfit : h.fill + taken.length ≤ 64) :
    (h.fillBlock taken hfit).fill = (h.fill + taken.length) % 64 := by
  rw [fillBlock]
  split_ifs with hfull
  · rw [hfull]
  · exact (Nat.mod_eq_of_lt (Nat.lt_of_le_of_ne hfit hfull)).symm

/-- A byte moves `fill` on by one. -/
theorem fill_update_singleton (h : Sha1) (b : UInt8) :
    (h.update [b]).fill = (h.fill + 1) % 64 := by
  have hlt := h.fill_lt
  have htake : [b].take (64 - h.fill) = [b] := List.take_of_length_le (by simp; omega)
  have hdrop : [b].drop (64 - h.fill) = [] := List.drop_of_length_le (by simp; omega)
  rw [update, absorb, dif_neg (by simp), hdrop, absorb, dif_pos rfl, fill_fillBlock, htake]
  rfl

/-- `while self.fill != 56 { self.update(&[0x00]); }` -/
def pad (h : Sha1) : Sha1 :=
  if h.fill = 56 then h else pad (h.update [0x00])
termination_by (120 - h.fill) % 64
decreasing_by
  rw [fill_update_singleton]
  have hlt := h.fill_lt
  omega

def finish (h : Sha1) : Bytes :=
  let bitLen := h.len * 8
  let h := (h.update [0x80]).pad.update (BigEndian.encode 8 bitLen.toNat)
  [h.state.1, h.state.2.1, h.state.2.2.1, h.state.2.2.2.1, h.state.2.2.2.2].flatMap
    fun word => BigEndian.encode 4 word.toNat

end Sha1

/-! ### Base64 -/

def base64Digit (n : UInt32) : Char :=
  "ABCDEFGHIJKLMNOPQRSTUVWXYZabcdefghijklmnopqrstuvwxyz0123456789+/".toList.getD
    (n &&& 63).toNat 'A'

/-- The three bytes of a chunk as a number. -/
def chunkValue (b₀ b₁ b₂ : UInt8) : UInt32 :=
  b₀.toUInt32 <<< 16 ||| b₁.toUInt32 <<< 8 ||| b₂.toUInt32

def base64Encode : Bytes → Text
  | [] => []
  | [b₀] =>
    let n := chunkValue b₀ 0 0
    [base64Digit (n >>> 18), base64Digit (n >>> 12), '=', '=']
  | [b₀, b₁] =>
    let n := chunkValue b₀ b₁ 0
    [base64Digit (n >>> 18), base64Digit (n >>> 12), base64Digit (n >>> 6), '=']
  | b₀ :: b₁ :: b₂ :: rest =>
    let n := chunkValue b₀ b₁ b₂
    base64Digit (n >>> 18) :: base64Digit (n >>> 12) :: base64Digit (n >>> 6) :: base64Digit n ::
      base64Encode rest

/-! ### Responses -/

def wsGuid : Text := "258EAFA5-E914-47DA-95CA-C5AB0DC85B11".toList

/-- The `Sec-WebSocket-Accept` value for a `Sec-WebSocket-Key`. -/
def acceptKey (key : Text) : Text :=
  base64Encode ((Sha1.new.update (asBytes key)).update (asBytes wsGuid)).finish

def successResponse (key : Text) : Bytes :=
  asBytes ("HTTP/1.1 101 Switching Protocols\r\n".toList ++ "Upgrade: websocket\r\n".toList ++
    "Connection: Upgrade\r\n".toList ++ "Sec-WebSocket-Accept: ".toList ++ acceptKey key ++
    "\r\n\r\n".toList)

def errorResponse (status : Status) : Bytes :=
  match status with
  | .upgradeRequired =>
    asBytes ("HTTP/1.1 ".toList ++ status.text ++ "\r\nSec-WebSocket-Version: 13\r\n\r\n".toList)
  | .badRequest => asBytes ("HTTP/1.1 ".toList ++ status.text ++ "\r\n\r\n".toList)

example : acceptKey "dGhlIHNhbXBsZSBub25jZQ==".toList = "s3pPLMBiTxaQ9kYGzzhZRbK+xOo=".toList := by
  decide +kernel

end Ws

end Aiomsg
