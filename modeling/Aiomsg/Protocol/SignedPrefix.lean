import Aiomsg.Lib.Decoding
import Aiomsg.Lib.LengthPrefix
import Aiomsg.Lib.TwosComplement
import Aiomsg.Protocol.Envelope

/-!
# The length prefix in a machine integer

Two conditions under which decoders of several ports are compared with the splitter: how much is
buffered at a time, and which lengths are announced when a pop is made. The length that matters is
the one at the front of what has not been read, complete or not, because a port that adds 4 to it
does so before it knows whether the frame is there.

A port that keeps the prefix in a signed `int` sees a negative length from `2 ^ 31` on, and adding 4
overflows for the four lengths below that. What the completeness test is then made of is
`signed_long`: the sum is below every number of bytes for which the test is made, so the test
passes. The port then asks for a piece of its array that has no length, or ends behind any array.

Two ports have such a decoder, on an array with a read position (`ArrayDecoder`). They differ in the
calls of their class libraries: how an array is made of two, and how a piece of it is taken. A port
that says what these do is the splitter as long as the lengths are short, and throws on all others
(`ArrayDecoder.refines`, `ArrayDecoder.exact`).

## Scope

Lengths from `2 ^ 31 - 4` on are legal on the wire, and the Rust decoder waits for such a frame.
Nothing here says that a port ought to accept them; only where it parts from the splitter, and that
it does so by an exception.
-/

namespace Aiomsg

namespace Protocol

open Decoding TwosComplement

/-- A push leaves fewer than `bound` bytes buffered. -/
def FitsBelow (bound : ℕ) (buf : Bytes) : Call UInt8 → Prop
  | .push bytes => buf.length + bytes.length < bound
  | .pop => True
  | .look => True

/-- A pop is made where no length is announced, or one below `bound`. -/
def AnnouncesBelow (bound : ℕ) (buf : Bytes) : Call UInt8 → Prop
  | .push _ => True
  | .pop => buf.length < 4 ∨ LengthPrefix.announced buf < bound
  | .look => True

instance (bound : ℕ) (buf : Bytes) : ∀ c, Decidable (FitsBelow bound buf c)
  | .push bytes => inferInstanceAs (Decidable (buf.length + bytes.length < bound))
  | .pop => .isTrue trivial
  | .look => .isTrue trivial

/-- The splitter in use, at the start of a stream. -/
abbrev splitter : Decoding UInt8 Bytes Bytes Bytes := LengthPrefix.deframer.decoding

instance (bound : ℕ) (buf : Bytes) : ∀ c, Decidable (AnnouncesBelow bound buf c)
  | .push _ => .isTrue trivial
  | .pop => inferInstanceAs (Decidable (buf.length < 4 ∨ LengthPrefix.announced buf < bound))
  | .look => .isTrue trivial

/-- The buffer of the splitter never holds `bound` bytes after a push. -/
def BufferedBelow (bound : ℕ) (calls : List (Call UInt8)) : Prop :=
  splitter.machine.Along (fun v c => FitsBelow bound v.decoder c) (start []) calls

/-- No pop is made while the bytes not yet read begin with a length of `bound` or more. -/
def PopsBelow (bound : ℕ) (calls : List (Call UInt8)) : Prop :=
  splitter.machine.Along (fun v c => AnnouncesBelow bound v.decoder c) (start []) calls

instance (bound : ℕ) (calls : List (Call UInt8)) : Decidable (BufferedBelow bound calls) :=
  inferInstanceAs (Decidable (splitter.machine.Along _ _ _))

instance (bound : ℕ) (calls : List (Call UInt8)) : Decidable (PopsBelow bound calls) :=
  inferInstanceAs (Decidable (splitter.machine.Along _ _ _))

/-- A length that leaves room for the prefix is read as it is. -/
theorem signed_short {n : ℕ} (h : n < 2 ^ 31 - 4) :
    wrap 32 (n : ℤ) = n ∧ wrap 32 (4 + (n : ℤ)) = 4 + n := by
  constructor
  · exact wrap_of_fits (by omega) (by omega)
  · exact wrap_of_fits (by omega) (by omega)

/-- **A longer one** makes the sum smaller than 4, and is itself negative or out of reach. -/
theorem signed_long {n : ℕ} (h : 2 ^ 31 - 4 ≤ n) (hn : n < 2 ^ 32) :
    wrap 32 (4 + wrap 32 (n : ℤ)) < 4 ∧
      ((wrap 32 (n : ℤ) < 0 ∧ -(2 ^ 31) ≤ wrap 32 (n : ℤ)) ∨ wrap 32 (n : ℤ) = n ∧ n < 2 ^ 31) := by
  by_cases htop : n < 2 ^ 31
  · have hn' : wrap 32 (n : ℤ) = n := wrap_of_fits (by omega) (by omega)
    have hsum : wrap 32 (4 + (n : ℤ)) = 4 + n - 2 ^ 32 := wrap_unsigned (by omega) (by omega)
    rw [hn', hsum]
    omega
  · have hn' : wrap 32 (n : ℤ) = n - 2 ^ 32 := wrap_unsigned (by omega) (by omega)
    have hsum : wrap 32 (4 + ((n : ℤ) - 2 ^ 32)) = 4 + ((n : ℤ) - 2 ^ 32) :=
      wrap_of_fits (by omega) (by omega)
    rw [hn', hsum]
    omega

/-! ### Decoders on an array -/

/-- The bytes received, and how far they have been read. -/
structure ArrayDecoder where
  data : Bytes
  head : ℤ

namespace ArrayDecoder

def new : ArrayDecoder where
  data := []
  head := 0

/-- Take the next frame off, where `slice array start length` is a piece of an array, or `none` for
an exception. -/
def popWith (slice : Bytes → ℤ → ℤ → Option Bytes) (d : ArrayDecoder) :
    Option (Option (Bytes × ArrayDecoder)) :=
  let avail := d.data.length - d.head
  if avail < 4 then some none
  else
    let envLen := wrap 32 (BigEndian.value ((d.data.drop d.head.toNat).take 4))
    if avail < wrap 32 (4 + envLen) then some none
    else do
      let env ← slice d.data (wrap 32 (d.head + 4)) envLen
      return some (env, ⟨d.data, wrap 32 (d.head + wrap 32 (4 + envLen))⟩)

/-- The read position is inside the array, and the array is one. -/
structure Valid (d : ArrayDecoder) : Prop where
  nonneg : 0 ≤ d.head
  inside : d.head ≤ d.data.length
  small : d.data.length < 2 ^ 31

/-- The bytes pushed and not yet popped. -/
def content (d : ArrayDecoder) : Bytes := d.data.drop d.head.toNat

theorem length_content {d : ArrayDecoder} (h : d.Valid) :
    (d.content.length : ℤ) = d.data.length - d.head := by
  have hnonneg := h.nonneg
  have hinside := h.inside
  rw [content, List.length_drop]
  omega

theorem length_content_lt {d : ArrayDecoder} (h : d.Valid) : d.content.length < 2 ^ 31 := by
  have hlen := length_content h
  have hnonneg := h.nonneg
  have hsmall := h.small
  omega

theorem valid_new : new.Valid := by
  constructor
  · exact le_rfl
  · exact le_rfl
  · decide

/-- A piece inside an array is cut out. One of negative length is refused, and so is one that ends
where no array does. -/
structure Slices (slice : Bytes → ℤ → ℤ → Option Bytes) : Prop where
  inside : ∀ {a : Bytes} {i n : ℕ}, a.length < 2 ^ 31 → i + n ≤ a.length →
    slice a i n = some ((a.drop i).take n)
  outside : ∀ {a : Bytes} {i : ℕ} {n : ℤ}, i ≤ a.length → a.length < 2 ^ 31 → -(2 ^ 31) ≤ n →
    n < 2 ^ 31 → (n < 0 ∨ 2 ^ 31 ≤ i + n) → slice a i n = none

variable {slice : Bytes → ℤ → ℤ → Option Bytes} {d : ArrayDecoder}

theorem pop_of_empty (h : d.Valid) (hfour : d.content.length < 4) :
    d.popWith slice = some none := by
  have havail := length_content h
  rw [popWith]
  simp only [← havail]
  rw [if_pos (by omega)]

/-- The completeness test, on a length that leaves room for the prefix. -/
theorem pop_of_short (hslice : Slices slice) (h : d.Valid) (hfour : 4 ≤ d.content.length)
    (hshort : LengthPrefix.announced d.content < 2 ^ 31 - 4) :
    d.popWith slice = if d.content.length < 4 + LengthPrefix.announced d.content then some none
      else some (some ((d.content.drop 4).take (LengthPrefix.announced d.content),
        ⟨d.data, d.head + (4 + LengthPrefix.announced d.content)⟩)) := by
  obtain ⟨hlen, hsum⟩ := signed_short hshort
  have havail := length_content h
  obtain ⟨hnonneg, hinside, hsmall⟩ := h
  have hannounced : BigEndian.value ((d.data.drop d.head.toNat).take 4)
      = LengthPrefix.announced d.content := rfl
  rw [popWith]
  simp only [hannounced, hlen, hsum, ← havail]
  rw [if_neg (by omega)]
  by_cases hmore : d.content.length < 4 + LengthPrefix.announced d.content
  · rw [if_pos (by omega), if_pos hmore]
  have hstart : wrap 32 (d.head + 4) = ((d.head.toNat + 4 : ℕ) : ℤ) := by
    rw [wrap_of_fits (by omega) (by omega)]
    omega
  have hhead : wrap 32 (d.head + (4 + (LengthPrefix.announced d.content : ℤ)))
      = d.head + (4 + LengthPrefix.announced d.content) := wrap_of_fits (by omega) (by omega)
  have hpiece : slice d.data ((d.head.toNat + 4 : ℕ) : ℤ) (LengthPrefix.announced d.content)
      = some ((d.content.drop 4).take (LengthPrefix.announced d.content)) := by
    rw [hslice.inside hsmall (by omega), content, List.drop_drop]
  rw [if_neg (by omega), if_neg hmore, hstart, hhead, hpiece]
  rfl

/-- **A pop on a longer length throws**, however much of the frame is there. -/
theorem pop_of_long (hslice : Slices slice) (h : d.Valid) (hfour : 4 ≤ d.content.length)
    (hlong : 2 ^ 31 - 4 ≤ LengthPrefix.announced d.content) : d.popWith slice = none := by
  obtain ⟨hsum, hlen⟩ := signed_long hlong (LengthPrefix.announced_lt _)
  have havail := length_content h
  obtain ⟨hnonneg, hinside, hsmall⟩ := h
  have hannounced : BigEndian.value ((d.data.drop d.head.toNat).take 4)
      = LengthPrefix.announced d.content := rfl
  rw [popWith]
  simp only [hannounced, ← havail]
  rw [if_neg (by omega), if_neg (by omega)]
  have hstart : wrap 32 (d.head + 4) = ((d.head.toNat + 4 : ℕ) : ℤ) := by
    rw [wrap_of_fits (by omega) (by omega)]
    omega
  have hpiece : slice d.data ((d.head.toNat + 4 : ℕ) : ℤ)
      (wrap 32 (LengthPrefix.announced d.content)) = none := by
    apply hslice.outside (by omega) hsmall
    · omega
    · omega
    · rcases hlen with ⟨hneg, -⟩ | ⟨hsame, -⟩
      · exact .inl hneg
      · right
        omega
  rw [hstart, hpiece]
  rfl

variable {push : ArrayDecoder → Bytes → Option ArrayDecoder}

/-- A decoder in use. What is popped is a copy. -/
def decoding (push : ArrayDecoder → Bytes → Option ArrayDecoder)
    (slice : Bytes → ℤ → ℤ → Option Bytes) : Decoding UInt8 Bytes ArrayDecoder Bytes where
  push := push
  pop := popWith slice
  view _ env := env

theorem popSpec_popWith (hslice : Slices slice) (h : d.Valid)
    (hshort : AnnouncesBelow (2 ^ 31 - 4) d.content .pop) :
    PopSpec (decoding push slice) LengthPrefix.deframer Valid content d (d.popWith slice) := by
  by_cases hfour : d.content.length < 4
  · rw [pop_of_empty h hfour]
    exact .null (LengthPrefix.parse_eq_more_iff.mpr (.inl hfour))
  have hbelow : LengthPrefix.announced d.content < 2 ^ 31 - 4 := hshort.resolve_left hfour
  rw [pop_of_short hslice h (Nat.le_of_not_lt hfour) hbelow]
  split_ifs with hmore
  · exact .null (LengthPrefix.parse_eq_more_iff.mpr (.inr hmore))
  have havail := length_content h
  obtain ⟨hnonneg, hinside, hsmall⟩ := h
  refine .frame ?_ ⟨by dsimp only; omega, by dsimp only; omega, hsmall⟩ fun _ => rfl
  have hhead : (d.head + (4 + (LengthPrefix.announced d.content : ℤ))).toNat
      = d.head.toNat + (4 + LengthPrefix.announced d.content) := by omega
  rw [LengthPrefix.deframer_parse, LengthPrefix.parse_of_le (Nat.le_of_not_lt hmore)]
  show Parse.item _ _ = Parse.item _ (d.data.drop (d.head + (4 + (_ : ℤ))).toNat)
  rw [hhead, content, List.drop_drop, List.drop_drop, Nat.add_assoc]
  rfl

/-- A push makes one array of what has not been read and what is new, if there is such an array. -/
def Appends (push : ArrayDecoder → Bytes → Option ArrayDecoder) : Prop :=
  ∀ {d bytes}, Valid d → push d bytes =
    if d.content.length + bytes.length < 2 ^ 31 then some ⟨d.content ++ bytes, 0⟩ else none

/-- **The decoder is the splitter** as long as its array is one and the lengths are short. -/
def refines (hpush : Appends push) (hslice : Slices slice) :
    Refines (decoding push slice) LengthPrefix.deframer where
  Inv := Valid
  content := content
  safe d c := FitsBelow (2 ^ 31) d.content c ∧ AnnouncesBelow (2 ^ 31 - 4) d.content c
  push := by
    intro d bytes h hsafe
    have hfits : d.content.length + bytes.length < 2 ^ 31 := hsafe.1
    refine ⟨⟨d.content ++ bytes, 0⟩, ?_, ⟨le_rfl, Int.natCast_nonneg _, ?_⟩, rfl⟩
    · exact (hpush h).trans (if_pos hfits)
    · rw [List.length_append]
      exact hfits
  pop := fun h hsafe => popSpec_popWith hslice h hsafe.2

/-- **On any other call it throws.** -/
theorem exact (hpush : Appends push) (hslice : Slices slice) : (refines hpush hslice).Exact := by
  apply Refines.exact_of_fails
  · intro d bytes h hunsafe
    exact (hpush h).trans (if_neg fun hfits => hunsafe ⟨hfits, trivial⟩)
  · intro d h hunsafe
    have hlong : ¬ AnnouncesBelow (2 ^ 31 - 4) d.content .pop := fun hb => hunsafe ⟨trivial, hb⟩
    rw [AnnouncesBelow, not_or, Nat.not_lt, Nat.not_lt] at hlong
    exact pop_of_long hslice h hlong.1 hlong.2
  · exact fun _ => ⟨trivial, trivial⟩

/-- Below `2 ^ 31` buffered bytes, the outcomes are the splitter's if and only if no pop meets a
length of `2 ^ 31 - 4` or more. -/
theorem outcomes_eq_iff (hpush : Appends push) (hslice : Slices slice) {calls : List (Call UInt8)}
    (hfits : BufferedBelow (2 ^ 31) calls) :
    (decoding push slice).outcomes new calls = splitter.outcomes [] calls ↔
      PopsBelow (2 ^ 31 - 4) calls := by
  have hiff := Refines.Exact.outcomes_eq_iff_along (exact hpush hslice)
    (P := fun buf c => FitsBelow (2 ^ 31) buf c ∧ AnnouncesBelow (2 ^ 31 - 4) buf c)
    (fun _ => Iff.rfl) valid_new calls
  refine hiff.trans (Machine.along_and.trans ?_)
  exact and_iff_right hfits

end ArrayDecoder

end Protocol

end Aiomsg
