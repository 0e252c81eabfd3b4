import Aiomsg.Protocol.SignedPrefix

/-!
# The Java frame decoder

`Protocol.Decoder` of `java-lib/src/main/java/aiomsg/Protocol.java`. An `int` is an integer that is
wrapped where it is computed. The calls of the class library that check their arguments are
functions of their own, with `none` for the exception.

Below `2 ^ 31` bytes a push is never more than a copy. A pop reads the prefix into an `int`, and for
the lengths from `2 ^ 31 - 4` on it does not wait for the frame: it takes the completeness test for
passed and asks for a copy that ends in front of where it starts.

## Scope

Memory is not bounded, and `OutOfMemoryError` does not occur. The arrays of the statements are below
`2 ^ 31` bytes because no array of the language is longer. What the owner's buffer has behind the
bytes that are pushed is arbitrary (`behind`), since `push` is handed an array and a length.

## Main results

* `Decoder.appends_push`, `Decoder.slices_envelope` — what a push and the copy in a pop come to
* `Decoder.outcomes_eq_iff` — the decoder is the splitter if and only if no pop meets a long length
-/

namespace Aiomsg

namespace JavaLib

open Protocol Decoding TwosComplement

/-! ### The class library -/

/-- `Arrays.copyOfRange`: behind the end of the array there are zeros. -/
def copyOfRange (original : Bytes) (start stop : ℤ) : Option Bytes :=
  -- ArrayIndexOutOfBoundsException
  if start < 0 ∨ (original.length : ℤ) < start then none
  -- IllegalArgumentException
  else if stop < start then none
  else
    let newLength := (stop - start).toNat
    some ((original.drop start.toNat ++ List.replicate newLength 0).take newLength)

/-- `new byte[n]`. -/
def newBytes (n : ℤ) : Option Bytes :=
  -- NegativeArraySizeException
  if n < 0 then none else some (List.replicate n.toNat 0)

/-- `System.arraycopy`: `dest` with the copied bytes in it. -/
def arraycopy (src : Bytes) (srcPos : ℤ) (dest : Bytes) (destPos length : ℤ) : Option Bytes :=
  -- IndexOutOfBoundsException
  if srcPos < 0 ∨ destPos < 0 ∨ length < 0 ∨ (src.length : ℤ) < srcPos + length ∨
      (dest.length : ℤ) < destPos + length then none
  else
    some (dest.take destPos.toNat ++ (src.drop srcPos.toNat).take length.toNat ++
      dest.drop (destPos + length).toNat)

theorem copyOfRange_of_le {a : Bytes} {i j : ℕ} (hij : i ≤ j) (hj : j ≤ a.length) :
    copyOfRange a i j = some ((a.drop i).take (j - i)) := by
  have hlen : ((j : ℤ) - i).toNat = j - i := by omega
  rw [copyOfRange, if_neg (by omega), if_neg (by omega)]
  simp only [hlen, Int.toNat_natCast]
  rw [List.take_append_of_le_length (by rw [List.length_drop]; omega)]

/-- A copy to the front of an array that is long enough. -/
theorem arraycopy_front {src dest : Bytes} (h : src.length ≤ dest.length) :
    arraycopy src 0 dest 0 src.length = some (src ++ dest.drop src.length) := by
  rw [arraycopy, if_neg (by omega)]
  simp only [Int.toNat_zero, List.take_zero, List.drop_zero, List.nil_append, Int.zero_add,
    Int.toNat_natCast, List.take_length]

/-- A copy that fills what is left of an array. -/
theorem arraycopy_back {src behind dest spare : Bytes} (h : spare.length = src.length) :
    arraycopy (src ++ behind) 0 (dest ++ spare) dest.length src.length = some (dest ++ src) := by
  have hend : ((dest.length : ℤ) + src.length).toNat = (dest ++ spare).length := by
    rw [List.length_append, h]
    omega
  rw [arraycopy, if_neg (by simp only [List.length_append]; omega)]
  simp only [hend, Int.toNat_natCast, Int.toNat_zero, List.drop_zero, List.take_left,
    List.drop_length, List.append_nil]

theorem arraycopy_of_lt {src dest : Bytes} {i n : ℕ} (h : dest.length < i + n) :
    arraycopy src 0 dest i n = none := by
  rw [arraycopy, if_pos (by omega)]

/-! ### The decoder -/

/-- `Decoder`. -/
abbrev Decoder := ArrayDecoder

namespace Decoder

open ArrayDecoder

/-- Push the first `len` bytes of `bytes`. -/
def push (d : Decoder) (bytes : Bytes) (len : ℤ) : Option Decoder := do
  -- Compact consumed bytes, then append.
  let remaining ← copyOfRange d.data d.head d.data.length
  let combined ← newBytes (wrap 32 (remaining.length + len))
  let combined ← arraycopy remaining 0 combined 0 remaining.length
  let combined ← arraycopy bytes 0 combined remaining.length len
  return ⟨combined, 0⟩

/-- `Arrays.copyOfRange(data, head + 4, head + 4 + envLen)`, with `start` for `head + 4`. -/
def envelope (data : Bytes) (start envLen : ℤ) : Option Bytes :=
  copyOfRange data start (wrap 32 (start + envLen))

/-- The next complete envelope (a copy), or `some none`. -/
def pop (d : Decoder) : Option (Option (Bytes × Decoder)) := d.popWith envelope

/-- A decoder whose owner pushes `bytes` out of a buffer that has `behind bytes` after them. -/
def decoding (behind : Bytes → Bytes) : Decoding UInt8 Bytes Decoder Bytes where
  push d bytes := push d (bytes ++ behind bytes) bytes.length
  pop := pop
  view _ env := env

theorem copyOfRange_head {d : Decoder} (h : d.Valid) :
    copyOfRange d.data d.head d.data.length = some d.content := by
  obtain ⟨hnonneg, hinside, -⟩ := h
  obtain ⟨i, hi⟩ := Int.eq_ofNat_of_zero_le hnonneg
  rw [hi, copyOfRange_of_le (by omega) le_rfl, content, hi, Int.toNat_natCast,
    List.take_of_length_le (by rw [List.length_drop])]

/-- A push, behind the copy of what has not been read. -/
theorem push_eq {d : ArrayDecoder} (h : d.Valid) (bytes : Bytes) (len : ℤ) :
    push d bytes len = (newBytes (wrap 32 (d.content.length + len))).bind fun combined =>
      (arraycopy d.content 0 combined 0 d.content.length).bind fun combined =>
        (arraycopy bytes 0 combined d.content.length len).bind fun combined =>
          some ⟨combined, 0⟩ := by
  rw [push, copyOfRange_head h]
  rfl

theorem push_of_fits {d : ArrayDecoder} (h : d.Valid) {bytes behind : Bytes}
    (hfits : d.content.length + bytes.length < 2 ^ 31) :
    push d (bytes ++ behind) bytes.length = some ⟨d.content ++ bytes, 0⟩ := by
  have hsum : wrap 32 ((d.content.length : ℤ) + bytes.length)
      = ((d.content.length + bytes.length : ℕ) : ℤ) := by
    push_cast
    exact wrap_of_fits (by omega) (by omega)
  have hnew : newBytes (wrap 32 ((d.content.length : ℤ) + bytes.length))
      = some (List.replicate (d.content.length + bytes.length) 0) := by
    rw [hsum, newBytes, if_neg (by omega), Int.toNat_natCast]
  have hfirst := @arraycopy_front d.content (List.replicate (d.content.length + bytes.length) 0)
    (by rw [List.length_replicate]; omega)
  have hsecond := @arraycopy_back bytes behind d.content
    ((List.replicate (d.content.length + bytes.length) 0).drop d.content.length)
    (by rw [List.length_drop, List.length_replicate]; omega)
  rw [push_eq h, hnew, Option.bind_some, hfirst, Option.bind_some, hsecond, Option.bind_some]

theorem push_of_not_fits {d : ArrayDecoder} (h : d.Valid) {bytes behind : Bytes}
    (hfits : ¬ d.content.length + bytes.length < 2 ^ 31) :
    push d (bytes ++ behind) bytes.length = none := by
  have hsmall := length_content_lt h
  rw [push_eq h]
  by_cases hneg : wrap 32 ((d.content.length : ℤ) + bytes.length) < 0
  · rw [newBytes, if_pos hneg, Option.bind_none]
  -- an array too short for what is copied into it
  have hshort := wrap_lt 32 ((d.content.length : ℤ) + bytes.length)
  rw [newBytes, if_neg hneg, Option.bind_some]
  by_cases hfirst : d.content.length ≤ (wrap 32 ((d.content.length : ℤ) + bytes.length)).toNat
  · rw [arraycopy_front (by rw [List.length_replicate]; exact hfirst), Option.bind_some,
      arraycopy_of_lt, Option.bind_none]
    rw [List.length_append, List.length_drop, List.length_replicate]
    omega
  · have hnone := @arraycopy_of_lt d.content
      (List.replicate (wrap 32 ((d.content.length : ℤ) + bytes.length)).toNat 0) 0 d.content.length
      (by rw [List.length_replicate]; omega)
    rw [Nat.cast_zero] at hnone
    rw [hnone, Option.bind_none]

theorem appends_push (behind : Bytes → Bytes) :
    Appends fun d bytes => push d (bytes ++ behind bytes) bytes.length := by
  intro d bytes h
  split_ifs with hfits
  · exact push_of_fits h hfits
  · exact push_of_not_fits h hfits

/-- **A copy that is to end in front of its start**, because the end was wrapped, is refused. -/
theorem slices_envelope : Slices envelope := by
  constructor
  · intro a i n hsmall hle
    have hstop : wrap 32 ((i : ℤ) + n) = ((i + n : ℕ) : ℤ) := by
      push_cast
      exact wrap_of_fits (by omega) (by omega)
    rw [envelope, hstop, copyOfRange_of_le (by omega) hle, Nat.add_sub_cancel_left]
  · intro a i n hi hsmall hlow hhigh hout
    have hstop : wrap 32 ((i : ℤ) + n) < i := by
      rcases hout with hneg | hbig
      · rw [wrap_of_fits (by omega) (by omega)]
        omega
      · rw [wrap_unsigned (by omega) (by omega)]
        omega
    rw [envelope, copyOfRange, if_neg (by omega), if_pos hstop]

theorem outcomes_eq_iff (behind : Bytes → Bytes) {calls : List (Call UInt8)}
    (hfits : BufferedBelow (2 ^ 31) calls) :
    (decoding behind).outcomes .new calls = splitter.outcomes [] calls ↔
      PopsBelow (2 ^ 31 - 4) calls :=
  ArrayDecoder.outcomes_eq_iff (appends_push behind) slices_envelope hfits

end Decoder

end JavaLib

end Aiomsg
