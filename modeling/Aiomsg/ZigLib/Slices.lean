import Aiomsg.Protocol.SignedPrefix
import Aiomsg.ZigLib.Protocol

/-!
# Popped slices

What `Decoder.pop` returns is a slice of the decoder's own buffer. `Decoder.pop` of the codec reads
it at once; here it is kept as an offset and a length, so that one can ask what it shows after
further pops. A push moves or clears the buffer, and no slice is looked at behind it.

Of the arithmetic, two sums may not fit their type. `4 + env_len` is added in the `u32` of the
prefix before it is known whether the frame is there, and `self.head * 2` in a push is no `usize`
once the read position has passed `2 ^ 63`. Everything else is a position in a buffer.

## Scope

A trap is what safe builds do on overflow; in a build without checks the sum would wrap or be
undefined, and nothing is said of that. Allocation succeeds, so that a call fails for no other
reason.

## Main results

* `pop_eq_popSlice` — the codec's `pop` reads the slice out
* `Decoder.exact` — a call traps if and only if one of the two sums does not fit
* `decoder_splits_iff` — otherwise, and only otherwise, the decoder is the splitter
-/

namespace Aiomsg

namespace ZigLib

open Protocol Decoding

/-- `[]const u8`, inside the decoder's buffer. -/
structure Slice where
  offset : ℕ
  len : ℕ
deriving DecidableEq

namespace Decoder

/-- The bytes a slice shows. -/
def view (d : Decoder) (s : Slice) : Bytes := (d.buf.drop s.offset).take s.len

/-- `pop`: `none` where `4 + env_len` overflows. -/
def popSlice (d : Decoder) : Option (Option (Slice × Decoder)) :=
  let avail := d.buf.drop d.head
  if avail.length < 4 then some none
  else
    let envLen := BigEndian.value (avail.take 4)
    if 2 ^ 32 ≤ 4 + envLen then none
    else if avail.length < 4 + envLen then some none
    else some (some (⟨d.head + 4, envLen⟩, { d with head := d.head + (4 + envLen) }))

/-- `push`: `none` where `self.head * 2` overflows. It is computed behind the two comparisons. -/
def pushChecked (d : Decoder) (bytes : Bytes) : Option Decoder :=
  if 0 < d.head ∧ d.head = d.buf.length then some (d.push bytes)
  else if 4096 < d.head ∧ 2 ^ 64 ≤ d.head * 2 then none
  else some (d.push bytes)

/-- A decoder in use. -/
def decoding : Decoding UInt8 Bytes Decoder Slice where
  push := pushChecked
  pop := popSlice
  view := view

/-- The codec's `pop` reads the slice out. -/
theorem pop_eq_popSlice (d : Decoder) : d.pop = match d.popSlice with
    | none => .panic
    | some none => .null
    | some (some (s, d')) => .envelope (d'.view s) d' := by
  rw [pop, popSlice]
  dsimp only
  split_ifs
  · rfl
  · rfl
  · rfl
  · simp only [view, List.drop_drop]

/-- The two sums fit: `4 + env_len` for a pop, `self.head * 2` for a push that has to add it. -/
def NoOverflow (d : Decoder) : Call UInt8 → Prop
  | .push _ => d.head < 2 ^ 63 ∨ d.head = d.buf.length
  | .pop => d.content.length < 4 ∨ 4 + LengthPrefix.announced d.content < 2 ^ 32
  | .look => True

theorem pushChecked_of_fits {d : Decoder} {bytes : Bytes} (h : d.NoOverflow (.push bytes)) :
    d.pushChecked bytes = some (d.push bytes) := by
  rw [NoOverflow] at h
  rw [pushChecked]
  split_ifs with hread hbig
  · rfl
  · omega
  · rfl

theorem pushChecked_of_not_fits {d : Decoder} {bytes : Bytes} (h : ¬ d.NoOverflow (.push bytes)) :
    d.pushChecked bytes = none := by
  rw [NoOverflow, not_or] at h
  rw [pushChecked, if_neg fun hread => h.2 hread.2, if_pos (by omega)]

theorem popSlice_of_not_fits {d : Decoder} (h : ¬ d.NoOverflow .pop) : d.popSlice = none := by
  rw [NoOverflow, not_or, Nat.not_lt, Nat.not_lt] at h
  rw [popSlice, ← content, ← LengthPrefix.announced]
  dsimp only
  rw [if_neg (Nat.not_lt.mpr h.1), if_pos h.2]

theorem popSlice_of_fits {d : Decoder} (hvalid : d.Valid) (h : d.NoOverflow .pop) :
    Decoding.PopSpec decoding LengthPrefix.deframer Valid content d d.popSlice := by
  have hlen : d.content.length = d.buf.length - d.head := List.length_drop
  have hinside : d.head ≤ d.buf.length := hvalid
  rw [NoOverflow] at h
  rw [popSlice, ← content, ← LengthPrefix.announced]
  dsimp only
  split_ifs with hfour hlong hshort
  · exact .null (LengthPrefix.parse_eq_more_iff.mpr (.inl hfour))
  · omega
  · exact .null (LengthPrefix.parse_eq_more_iff.mpr (.inr hshort))
  · refine .frame ?_ ?_ fun _ => rfl
    · rw [LengthPrefix.deframer_parse, LengthPrefix.parse_of_le (Nat.le_of_not_lt hshort)]
      simp only [decoding, view, content, List.drop_drop, Nat.add_assoc]
    · show d.head + (4 + LengthPrefix.announced d.content) ≤ d.buf.length
      omega

/-- **The decoder is the splitter** as long as nothing overflows, and a slice keeps showing its
frame until the next push. -/
def refines : Refines decoding LengthPrefix.deframer where
  Inv := Valid
  content := content
  safe := NoOverflow
  push := fun hvalid hfits =>
    ⟨_, pushChecked_of_fits hfits, hvalid.push _, content_push hvalid _⟩
  pop := popSlice_of_fits

/-- **Where something overflows, the call traps.** -/
theorem exact : refines.Exact := by
  apply Refines.exact_of_fails
  · exact fun _ h => pushChecked_of_not_fits h
  · exact fun _ h => popSlice_of_not_fits h
  · exact fun _ => trivial

theorem valid_init : init.Valid := Nat.zero_le _

end Decoder

/-- **The decoder is the splitter, without a trap, if and only if every call is made where its sum
fits.** -/
theorem decoder_splits_iff (calls : List (Call UInt8)) :
    Decoder.decoding.outcomes .init calls = splitter.outcomes [] calls ↔
      Decoder.decoding.machine.Along (fun u c => u.decoder.NoOverflow c) (start .init) calls :=
  Refines.Exact.outcomes_eq_iff Decoder.exact Decoder.valid_init calls

/-- The first four bytes of a frame of `2 ^ 32 - 4`. -/
theorem decoder_traps : ¬ ∀ calls : List (Call UInt8),
    Decoder.decoding.outcomes .init calls = splitter.outcomes [] calls := by
  intro h
  have htrap := h [.push [255, 255, 255, 252], .pop]
  revert htrap
  decide

/-! ### Streams of a size that occurs -/

namespace Decoder

/-- A call leaves no more in the buffer than was there and what it pushes. -/
theorem length_step_le {u u' : Use Bytes Decoder Slice} {c : Call UInt8}
    (h : decoding.machine.step u c = some u') :
    u'.decoder.buf.length ≤ u.decoder.buf.length + (stream [c]).length := by
  cases c with
  | push bytes =>
    obtain ⟨d, hpush, rfl⟩ := Option.map_eq_some_iff.mp h
    have hd : d = u.decoder.push bytes := by
      change u.decoder.pushChecked bytes = some d at hpush
      rw [pushChecked] at hpush
      split_ifs at hpush
      · exact (Option.some.inj hpush).symm
      · exact (Option.some.inj hpush).symm
    have hstream : stream [Call.push bytes] = bytes := by simp [stream]
    show d.buf.length ≤ _
    rw [hd, hstream, push]
    split_ifs
    · exact Nat.le_add_left _ _
    · rw [List.length_append, List.length_drop]
      omega
    · rw [List.length_append]
  | look =>
    obtain rfl := Option.some.inj h
    exact Nat.le_add_right _ _
  | pop =>
    obtain ⟨out, hpop, rfl⟩ := Option.map_eq_some_iff.mp h
    change u.decoder.popSlice = some out at hpop
    rw [popSlice] at hpop
    dsimp only at hpop
    split_ifs at hpop
    all_goals
      obtain rfl := Option.some.inj hpop
      exact Nat.le_add_right _ _

/-- With fewer than `2 ^ 63` bytes in all, only the lengths announced to a pop matter. -/
theorem along_noOverflow_iff {u : Use Bytes Decoder Slice} {v : Use Bytes Bytes Bytes}
    {calls : List (Call UInt8)} (hsim : refines.Sim u v)
    (hsize : u.decoder.buf.length + (stream calls).length < 2 ^ 63) :
    decoding.machine.Along (fun u c => u.decoder.NoOverflow c) u calls ↔
      splitter.machine.Along (fun v c => AnnouncesBelow (2 ^ 32 - 4) v.decoder c) v calls := by
  induction calls generalizing u v with
  | nil => exact Iff.rfl
  | cons c calls ih =>
    have hsplit : (stream (c :: calls)).length = (stream [c]).length + (stream calls).length := by
      simp [stream]
    have hhead : u.decoder.NoOverflow c ↔ AnnouncesBelow (2 ^ 32 - 4) v.decoder c := by
      have hinside : u.decoder.head ≤ u.decoder.buf.length := hsim.inv
      have hcontent : v.decoder = u.decoder.content := hsim.content
      cases c with
      | push bytes => exact ⟨fun _ => trivial, fun _ => .inl (by omega)⟩
      | look => exact Iff.rfl
      | pop =>
        rw [NoOverflow, AnnouncesBelow, hcontent]
        omega
    have hnext : ∀ u', decoding.machine.step u c = some u' →
        u'.decoder.buf.length + (stream calls).length < 2 ^ 63 := by
      intro u' hstep
      have hle := length_step_le hstep
      omega
    constructor
    · rintro ⟨hsafe, hrest⟩
      obtain ⟨u', hu, v', hv, hsim'⟩ := hsim.step hsafe
      exact .cons_of_step (hhead.mp hsafe) hv ((ih hsim' (hnext u' hu)).mp (hrest u' hu))
    · rintro ⟨hbelow, hrest⟩
      obtain ⟨u', hu, v', hv, hsim'⟩ := hsim.step (hhead.mpr hbelow)
      exact .cons_of_step (hhead.mpr hbelow) hu ((ih hsim' (hnext u' hu)).mpr (hrest v' hv))

/-- **A stream below `2 ^ 63` bytes** is split without a trap if and only if no pop meets a length
of `2 ^ 32 - 4` or more. -/
theorem outcomes_eq_iff_popsBelow {calls : List (Call UInt8)}
    (hsize : (stream calls).length < 2 ^ 63) :
    decoding.outcomes .init calls = splitter.outcomes [] calls ↔ PopsBelow (2 ^ 32 - 4) calls := by
  have hiff := Refines.Exact.outcomes_eq_iff exact valid_init calls
  refine hiff.trans (along_noOverflow_iff (Refines.sim_start valid_init) ?_)
  show [].length + _ < _
  rwa [List.length_nil, Nat.zero_add]

end Decoder

end ZigLib

end Aiomsg
