import Aiomsg.JavaLib.Protocol

/-!
# The C# frame decoder

`Protocol.Decoder` of `csharp-lib/Aiomsg/Protocol.cs`, which is the Java decoder on spans. The
project does not ask for checked arithmetic, so an `int` wraps. A span that does not lie in its
array is refused, and for the lengths from `2 ^ 31 - 4` on that is what a pop asks for: the span's
length is negative, or takes it past the end of any array.

## Scope

An exception ends the use of the decoder, and the pop or push that throws is `none`. That an array
cannot be made longer than memory allows is an exception of another kind, and is left out: sizes
below `2 ^ 31` are taken to be available.

## Main results

* `Decoder.outcomes_eq_iff` — the decoder is the splitter if and only if no pop meets a long length
* `decoders_split_iff` — the same of both ports
-/

namespace Aiomsg

namespace CsharpLib

open Protocol Decoding TwosComplement

/-! ### The class library -/

/-- `array.AsSpan(start, length)`, as the bytes it shows. -/
def asSpan (array : Bytes) (start length : ℤ) : Option Bytes :=
  -- ArgumentOutOfRangeException
  if start < 0 ∨ length < 0 ∨ (array.length : ℤ) < start + length then none
  else some ((array.drop start.toNat).take length.toNat)

/-- `array.AsSpan(start)`. -/
def asSpanFrom (array : Bytes) (start : ℤ) : Option Bytes :=
  if start < 0 ∨ (array.length : ℤ) < start then none else some (array.drop start.toNat)

/-- `new byte[n]`. -/
def newBytes (n : ℤ) : Option Bytes :=
  -- OverflowException
  if n < 0 then none else some (List.replicate n.toNat 0)

/-- `source.CopyTo(array.AsSpan(start))`: `array` with the copied bytes in it. -/
def copyTo (source array : Bytes) (start : ℤ) : Option Bytes := do
  let span ← asSpanFrom array start
  -- ArgumentException
  if span.length < source.length then none
  else some (array.take start.toNat ++ (source ++ span.drop source.length))

theorem copyTo_of_fits {source front spare : Bytes} (h : source.length ≤ spare.length) :
    copyTo source (front ++ spare) front.length
      = some (front ++ (source ++ spare.drop source.length)) := by
  have hspan : asSpanFrom (front ++ spare) front.length = some spare := by
    rw [asSpanFrom, if_neg (by rw [List.length_append]; omega), Int.toNat_natCast, List.drop_left]
  rw [copyTo, hspan]
  show (if spare.length < source.length then none
    else some ((front ++ spare).take (front.length : ℤ).toNat ++ _)) = _
  rw [if_neg (Nat.not_lt.mpr h), Int.toNat_natCast, List.take_left]

theorem copyTo_of_lt {source array : Bytes} {i : ℕ} (h : array.length < i + source.length) :
    copyTo source array i = none := by
  rw [copyTo, asSpanFrom]
  split_ifs with hout
  · rfl
  · show (if (array.drop (i : ℤ).toNat).length < source.length then none else some _) = none
    rw [if_pos (by rw [List.length_drop]; omega)]

/-! ### The decoder -/

/-- `Decoder`. -/
abbrev Decoder := ArrayDecoder

namespace Decoder

open ArrayDecoder

def push (d : Decoder) (bytes : Bytes) : Option Decoder := do
  -- Compact consumed bytes, then append.
  let remaining := d.data.length - d.head
  let combined ← newBytes (wrap 32 (remaining + bytes.length))
  let unread ← asSpanFrom d.data d.head
  let combined ← copyTo unread combined 0
  let combined ← copyTo bytes combined remaining
  return ⟨combined, 0⟩

/-- The next complete envelope (a copy), or `some none`. -/
def pop (d : Decoder) : Option (Option (Bytes × Decoder)) := d.popWith asSpan

def decoding : Decoding UInt8 Bytes Decoder Bytes where
  push := push
  pop := pop
  view _ env := env

/-- A push, with what has not been read in place of the span that shows it. -/
theorem push_eq {d : Decoder} (h : d.Valid) (bytes : Bytes) :
    push d bytes = (newBytes (wrap 32 (d.content.length + bytes.length))).bind fun combined =>
      (copyTo d.content combined 0).bind fun combined =>
        (copyTo bytes combined d.content.length).bind fun combined => some ⟨combined, 0⟩ := by
  have hspan : asSpanFrom d.data d.head = some d.content := by
    have hnonneg := h.nonneg
    have hinside := h.inside
    rw [asSpanFrom, if_neg (by omega), content]
  rw [push, ← length_content h, hspan]
  rfl

theorem push_of_fits {d : Decoder} (h : d.Valid) {bytes : Bytes}
    (hfits : d.content.length + bytes.length < 2 ^ 31) :
    push d bytes = some ⟨d.content ++ bytes, 0⟩ := by
  have hsum : wrap 32 ((d.content.length : ℤ) + bytes.length)
      = ((d.content.length + bytes.length : ℕ) : ℤ) := by
    push_cast
    exact wrap_of_fits (by omega) (by omega)
  have hnew : newBytes (wrap 32 ((d.content.length : ℤ) + bytes.length))
      = some (List.replicate (d.content.length + bytes.length) 0) := by
    rw [hsum, newBytes, if_neg (by omega), Int.toNat_natCast]
  have hfirst := @copyTo_of_fits d.content [] (List.replicate (d.content.length + bytes.length) 0)
    (by rw [List.length_replicate]; omega)
  have hsecond := @copyTo_of_fits bytes d.content
    ((List.replicate (d.content.length + bytes.length) 0).drop d.content.length)
    (by rw [List.length_drop, List.length_replicate]; omega)
  rw [List.nil_append, List.nil_append, List.length_nil, Nat.cast_zero] at hfirst
  rw [push_eq h, hnew, Option.bind_some, hfirst, Option.bind_some, hsecond, Option.bind_some,
    List.drop_of_length_le (by rw [List.length_drop, List.length_replicate]; omega),
    List.append_nil]

theorem push_of_not_fits {d : Decoder} (h : d.Valid) {bytes : Bytes}
    (hfits : ¬ d.content.length + bytes.length < 2 ^ 31) : push d bytes = none := by
  have hsmall := length_content_lt h
  rw [push_eq h]
  by_cases hneg : wrap 32 ((d.content.length : ℤ) + bytes.length) < 0
  · rw [newBytes, if_pos hneg, Option.bind_none]
  -- an array too short for what is copied into it
  have hshort := wrap_lt 32 ((d.content.length : ℤ) + bytes.length)
  rw [newBytes, if_neg hneg, Option.bind_some]
  by_cases hfirst : d.content.length ≤ (wrap 32 ((d.content.length : ℤ) + bytes.length)).toNat
  · have hcopy := @copyTo_of_fits d.content []
      (List.replicate (wrap 32 ((d.content.length : ℤ) + bytes.length)).toNat 0)
      (by rw [List.length_replicate]; exact hfirst)
    rw [List.nil_append, List.nil_append, List.length_nil, Nat.cast_zero] at hcopy
    rw [hcopy, Option.bind_some, copyTo_of_lt, Option.bind_none]
    rw [List.length_append, List.length_drop, List.length_replicate]
    omega
  · have hnone := @copyTo_of_lt d.content
      (List.replicate (wrap 32 ((d.content.length : ℤ) + bytes.length)).toNat 0) 0
      (by rw [List.length_replicate]; omega)
    rw [Nat.cast_zero] at hnone
    rw [hnone, Option.bind_none]

theorem appends_push : Appends push := by
  intro d bytes h
  split_ifs with hfits
  · exact push_of_fits h hfits
  · exact push_of_not_fits h hfits

theorem slices_asSpan : Slices asSpan := by
  constructor
  · intro a i n hsmall hle
    rw [asSpan, if_neg (by omega), Int.toNat_natCast, Int.toNat_natCast]
  · intro a i n hi hsmall hlow hhigh hout
    rw [asSpan, if_pos (by omega)]

theorem outcomes_eq_iff {calls : List (Call UInt8)} (hfits : BufferedBelow (2 ^ 31) calls) :
    decoding.outcomes .new calls = splitter.outcomes [] calls ↔ PopsBelow (2 ^ 31 - 4) calls :=
  ArrayDecoder.outcomes_eq_iff appends_push slices_asSpan hfits

end Decoder

/-- **Both decoders are the splitter if and only if no pop meets a length of `2 ^ 31 - 4` or more**,
as long as fewer than `2 ^ 31` bytes are buffered. -/
theorem decoders_split_iff (behind : Bytes → Bytes) {calls : List (Call UInt8)}
    (hfits : BufferedBelow (2 ^ 31) calls) :
    ((JavaLib.Decoder.decoding behind).outcomes .new calls = splitter.outcomes [] calls ↔
        PopsBelow (2 ^ 31 - 4) calls) ∧
      (Decoder.decoding.outcomes .new calls = splitter.outcomes [] calls ↔
        PopsBelow (2 ^ 31 - 4) calls) := by
  constructor
  · exact JavaLib.Decoder.outcomes_eq_iff behind hfits
  · exact Decoder.outcomes_eq_iff hfits

/-- A frame that comes in two pieces. -/
theorem decoders_split_two_pieces :
    (JavaLib.Decoder.decoding fun _ => [9]).outcomes .new
          [.push [0, 0, 0], .pop, .push [1, 7], .pop]
        = splitter.outcomes [] [.push [0, 0, 0], .pop, .push [1, 7], .pop] ∧
      Decoder.decoding.outcomes .new [.push [0, 0, 0], .pop, .push [1, 7], .pop]
        = splitter.outcomes [] [.push [0, 0, 0], .pop, .push [1, 7], .pop] := by
  have hboth := @decoders_split_iff (fun _ => [9]) [.push [0, 0, 0], .pop, .push [1, 7], .pop]
    (by decide)
  exact ⟨hboth.1.mpr (by decide), hboth.2.mpr (by decide)⟩

/-- Four bytes, and no decoder left. -/
theorem decoders_throw : ¬ ∀ (behind : Bytes → Bytes) (calls : List (Call UInt8)),
    BufferedBelow (2 ^ 31) calls →
      (JavaLib.Decoder.decoding behind).outcomes .new calls = splitter.outcomes [] calls ∧
        Decoder.decoding.outcomes .new calls = splitter.outcomes [] calls := by
  intro h
  have hjava := (h (fun _ => []) [.push [255, 255, 255, 255], .pop] (by decide)).1
  revert hjava
  decide

end CsharpLib

end Aiomsg
