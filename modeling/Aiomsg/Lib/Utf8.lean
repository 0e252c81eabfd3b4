import Mathlib.Data.List.Basic

/-!
# Decoding UTF-8

A byte string is cut into characters and ill-formed sequences, from the front. An ill-formed
sequence is as long as it could be the beginning of a character, and a byte that no character begins
with is one of its own; this is the cut that a lossy decoder makes when it puts U+FFFD for each of
them. A strict decoder accepts exactly the byte strings in which there is none.

## Scope

The bounds of the first continuation byte are what excludes overlong forms, surrogates and numbers
above `0x10FFFF`, and where they are checked decides where an ill-formed sequence ends. So they are
part of the cut, and not a test on its result.

There is no encoder. Nothing that is verified with this writes text.

## Main definitions

* `Utf8.units` — the cut
* `Utf8.decode`, `Utf8.decodeLossy` — the two decoders
-/

namespace Utf8

/-- Whether a byte continues a character. -/
def isCont (b : UInt8) : Bool := b &&& 0xC0 = 0x80

/-- Whether `b'` may follow the first byte `b` of three: no overlong form and no surrogate. -/
def mayFollow3 (b b' : UInt8) : Bool :=
  (if b = 0xE0 then 0xA0 else 0x80) ≤ b' ∧ b' ≤ (if b = 0xED then 0x9F else 0xBF)

/-- Whether `b'` may follow the first byte `b` of four: no overlong form, and not too large. -/
def mayFollow4 (b b' : UInt8) : Bool :=
  (if b = 0xF0 then 0x90 else 0x80) ≤ b' ∧ b' ≤ (if b = 0xF4 then 0x8F else 0xBF)

/-- The bits that the first byte of a character gives, and what the other bytes have to be: `none`
if no character begins with it. -/
def shape (b : UInt8) : Option (UInt8 × List (UInt8 → Bool)) :=
  if b < 0x80 then some (b, [])
  else if 0xC2 ≤ b ∧ b ≤ 0xDF then some (b &&& 0x1F, [isCont])
  else if 0xE0 ≤ b ∧ b ≤ 0xEF then some (b &&& 0x0F, [mayFollow3 b, isCont])
  else if 0xF0 ≤ b ∧ b ≤ 0xF4 then some (b &&& 0x07, [mayFollow4 b, isCont, isCont])
  else none

/-- The bytes at the front that pass the tests, whether each test was passed, and what is left. -/
def follow : List (UInt8 → Bool) → List UInt8 → List UInt8 × Bool × List UInt8
  | [], rest => ([], true, rest)
  | _ :: _, [] => ([], false, [])
  | test :: tests, b :: rest =>
    if test b then (b :: (follow tests rest).1, (follow tests rest).2) else ([], false, b :: rest)

/-- The character whose code is given by these bits, six from each byte but the first. -/
def assemble (bits : UInt8) (conts : List UInt8) : Char :=
  Char.ofNat (conts.foldl (fun n b => n * 64 + (b &&& 0x3F).toNat) bits.toNat)

/-- What a byte string begins with, a character or an ill-formed sequence, and what follows it. -/
def front (b : UInt8) (rest : List UInt8) : Option Char × List UInt8 :=
  match shape b with
  | none => (none, rest)
  | some (bits, tests) =>
    let (conts, passed, rest') := follow tests rest
    (if passed then some (assemble bits conts) else none, rest')

theorem length_follow_le (tests : List (UInt8 → Bool)) (rest : List UInt8) :
    (follow tests rest).2.2.length ≤ rest.length := by
  induction tests generalizing rest with
  | nil => exact Nat.le_refl _
  | cons test tests ih =>
    match rest with
    | [] => exact Nat.le_refl _
    | b :: rest =>
      rw [follow]
      split_ifs
      · exact Nat.le_succ_of_le (ih rest)
      · exact Nat.le_refl _

theorem length_front_le (b : UInt8) (rest : List UInt8) :
    (front b rest).2.length ≤ rest.length := by
  rw [front]
  match shape b with
  | none => exact Nat.le_refl _
  | some (_, tests) => exact length_follow_le tests rest

/-- The characters of a byte string, with `none` for each ill-formed sequence. -/
def units : List UInt8 → List (Option Char)
  | [] => []
  | b :: rest => (front b rest).1 :: units (front b rest).2
termination_by bytes => bytes.length
decreasing_by exact Nat.lt_succ_of_le (length_front_le b rest)

/-- Strict decoding. -/
def decode (bytes : List UInt8) : Option (List Char) :=
  if none ∈ units bytes then none else some ((units bytes).filterMap id)

/-- Decoding with U+FFFD for each ill-formed sequence. -/
def decodeLossy (bytes : List UInt8) : List Char := (units bytes).map (·.getD (Char.ofNat 0xFFFD))

/-- What is decoded strictly is decoded to the same characters lossily. -/
theorem decodeLossy_of_decode {bytes : List UInt8} {text : List Char}
    (h : decode bytes = some text) : decodeLossy bytes = text := by
  have hsame : ∀ us : List (Option Char), none ∉ us →
      us.map (·.getD (Char.ofNat 0xFFFD)) = us.filterMap id := by
    intro us hus
    induction us with
    | nil => rfl
    | cons u us ih =>
      rw [List.mem_cons, not_or] at hus
      obtain ⟨c, rfl⟩ := Option.ne_none_iff_exists'.mp fun hu => hus.1 hu.symm
      rw [List.map_cons, ih hus.2]
      rfl
  rw [decode] at h
  split_ifs at h with hnone
  rw [decodeLossy, hsame _ hnone]
  exact Option.some.inj h

/-- ASCII is decoded byte by byte. -/
theorem decode_ascii {bytes : List UInt8} (hascii : ∀ b ∈ bytes, b < 0x80) :
    decode bytes = some (bytes.map fun b => Char.ofNat b.toNat) := by
  have hunits : units bytes = (bytes.map fun b => Char.ofNat b.toNat).map some := by
    induction bytes with
    | nil => rw [units, List.map_nil, List.map_nil]
    | cons b bytes ih =>
      have hfront : front b bytes = (some (Char.ofNat b.toNat), bytes) := by
        rw [front, shape, if_pos (hascii b List.mem_cons_self)]
        rfl
      rw [units, hfront, ih fun b' hb' => hascii b' (List.mem_cons_of_mem _ hb')]
      rfl
  rw [decode, hunits, if_neg (by simp), List.filterMap_map]
  simp

example : decode [0x61, 0xC3, 0xA9, 0xF0, 0x9F, 0x98, 0x80] = some ['a', 'é', '😀'] := by
  decide +kernel

example : units [0xE2, 0x82, 0x41, 0xED, 0xA0] = [none, some 'A', none, none] := by decide +kernel

end Utf8
