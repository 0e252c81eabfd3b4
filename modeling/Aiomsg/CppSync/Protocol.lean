import Aiomsg.Protocol.SignedPrefix

/-!
# The C++ frame decoder

`Decoder` of `cpp-lib-sync/src/protocol.cpp`. The bytes are in a vector with a read position, and a
push reclaims what has been read every now and then. Nothing is checked, so no call fails.

Whether a frame is there is decided in `size_t`. The read position then moves by `4 + env_len`,
which is added in 32 bits: behind one of the last four lengths it has moved by as many bytes as the
sum is over `2 ^ 32`, and the frame that was just handed out is read again as if it were new ones.

## Scope

Memory is not bounded: `std::vector` throws when it cannot grow, and nothing is said of that. Views
are offsets into the vector. A push may move the bytes, and that is why a view is good until the
next push only; pops leave the bytes where they are.

## Main results

* `Decoder.sound_iff` — what one call is to keep, and when it does
* `Decoder.along_sound_iff` — the same of runs
-/

namespace Aiomsg

namespace CppSync

open Protocol Decoding

/-- The view that `pop` hands out, inside the decoder's buffer. -/
structure Slice where
  offset : ℕ
  len : ℕ
deriving DecidableEq

/-- `Decoder`. The read position is below `2 ^ 64` because it is a position in a vector, so it is a
natural number here; the sum that is added to it is not. -/
structure Decoder where
  buf : Bytes
  /-- Read position; bytes before it are consumed. -/
  head : ℕ

namespace Decoder

def new : Decoder where
  buf := []
  head := 0

def push (d : Decoder) (bytes : Bytes) : Decoder :=
  if 0 < d.head ∧ d.head = d.buf.length then ⟨bytes, 0⟩
  else if 4096 < d.head ∧ d.buf.length ≤ d.head * 2 % 2 ^ 64 then ⟨d.buf.drop d.head ++ bytes, 0⟩
  else { d with buf := d.buf ++ bytes }

/-- The sum `4 + env_len` that moves the read position is a `uint32_t`. -/
def pop (d : Decoder) : Option (Slice × Decoder) :=
  let avail := d.buf.length - d.head
  if avail < 4 then none
  else
    let envLen := BigEndian.value ((d.buf.drop d.head).take 4)
    if avail < 4 + envLen then none
    else some (⟨d.head + 4, envLen⟩, { d with head := d.head + (4 + envLen) % 2 ^ 32 })

/-- The bytes a view shows. -/
def view (d : Decoder) (s : Slice) : Bytes := (d.buf.drop s.offset).take s.len

/-- A decoder in use. -/
def decoding : Decoding UInt8 Bytes Decoder Slice where
  push d bytes := some (d.push bytes)
  pop d := some d.pop
  view := view

/-- The bytes pushed and not yet popped. -/
def content (d : Decoder) : Bytes := d.buf.drop d.head

/-- The read position is inside the buffer. -/
def Valid (d : Decoder) : Prop := d.head ≤ d.buf.length

theorem valid_new : new.Valid := le_rfl

/-- What one call is to keep: the read position is inside the buffer, a push takes away nothing but
what has been read, and a pop moves the read position by the whole frame. -/
def Sound (d : Decoder) : Call UInt8 → Prop
  | .push bytes => (d.push bytes).Valid ∧ (d.push bytes).content = d.content ++ bytes
  | .pop => ∀ s d', d.pop = some (s, d') → d'.Valid ∧ d'.head = d.head + (4 + s.len)
  | .look => True

/-- A pop is not made on a complete frame of `2 ^ 32 - 4` bytes or more. -/
def PopsSmaller (buf : Bytes) : Call UInt8 → Prop
  | .push _ => True
  | .pop => ∀ env rest, LengthPrefix.parse buf = .item env rest → env.length < 2 ^ 32 - 4
  | .look => True

/-- **A push takes away nothing but what has been read.** -/
theorem sound_push {d : Decoder} (h : d.Valid) (bytes : Bytes) : d.Sound (.push bytes) := by
  rw [Sound, push, content, content]
  split_ifs with hread hlazy
  · refine ⟨Nat.zero_le _, ?_⟩
    rw [hread.2, List.drop_length]
    rfl
  · exact ⟨Nat.zero_le _, rfl⟩
  · constructor
    · show d.head ≤ (d.buf ++ bytes).length
      rw [List.length_append]
      exact h.trans (Nat.le_add_right _ _)
    · exact List.drop_append_of_le_length h

theorem pop_of_more {d : Decoder} (h : LengthPrefix.parse d.content = .more) : d.pop = none := by
  have hshort := LengthPrefix.parse_eq_more_iff.mp h
  have hlen : d.content.length = d.buf.length - d.head := List.length_drop
  rw [pop, ← hlen, ← content, ← LengthPrefix.announced]
  dsimp only
  split_ifs with hfour hmore
  · rfl
  · rfl
  · exact absurd hshort (not_or.mpr ⟨hfour, hmore⟩)

theorem pop_of_item {d : Decoder} {env rest : Bytes}
    (h : LengthPrefix.parse d.content = .item env rest) :
    d.pop = some (⟨d.head + 4, env.length⟩,
        { d with head := d.head + (4 + env.length) % 2 ^ 32 }) ∧
      env = (d.content.drop 4).take env.length ∧ rest = d.content.drop (4 + env.length) ∧
      d.head + (4 + env.length) ≤ d.buf.length := by
  obtain ⟨hle, henv, hrest⟩ := LengthPrefix.parse_eq_item h
  have hlen : d.content.length = d.buf.length - d.head := List.length_drop
  have hann : env.length = LengthPrefix.announced d.content := by
    rw [henv, List.length_take_of_le (by rw [List.length_drop]; omega)]
  refine ⟨?_, ?_, ?_, by omega⟩
  · rw [pop, ← hlen, ← content, ← LengthPrefix.announced, hann]
    dsimp only
    rw [if_neg (by omega), if_neg (by omega)]
  · rw [hann]
    exact henv
  · rw [hrest, hann, List.drop_drop]

/-- **A pop moves the read position by the whole frame if and only if the sum fits 32 bits.** -/
theorem sound_pop_iff {d : Decoder} : d.Sound .pop ↔ PopsSmaller d.content .pop := by
  rcases hparse : LengthPrefix.parse d.content with _ | ⟨env, rest⟩ | c
  · constructor
    · intro _ env rest hitem
      rw [hparse] at hitem
      cases hitem
    · intro _ s d' hpop
      rw [pop_of_more hparse] at hpop
      cases hpop
  · obtain ⟨hpop, -, -, hinside⟩ := pop_of_item hparse
    have hbound : env.length < 2 ^ 32 := (LengthPrefix.eq_frame_append_of_item hparse).2
    constructor
    · intro hsound env' rest' hitem
      obtain ⟨-, hhead⟩ := hsound _ _ hpop
      rw [hparse] at hitem
      cases hitem
      have hsum : (4 + env.length) % 2 ^ 32 = 4 + env.length := Nat.add_left_cancel hhead
      omega
    · intro hsmaller s d' hpop'
      have hsmall : env.length < 2 ^ 32 - 4 := hsmaller env rest hparse
      rw [hpop] at hpop'
      cases hpop'
      have hsum : (4 + env.length) % 2 ^ 32 = 4 + env.length := Nat.mod_eq_of_lt (by omega)
      constructor
      · show d.head + (4 + env.length) % 2 ^ 32 ≤ d.buf.length
        rw [hsum]
        exact hinside
      · show d.head + (4 + env.length) % 2 ^ 32 = d.head + (4 + env.length)
        rw [hsum]
  · exact c.elim

theorem sound_iff {d : Decoder} {c : Call UInt8} (h : d.Valid) :
    d.Sound c ↔ PopsSmaller d.content c := by
  cases c with
  | push bytes => exact ⟨fun _ => trivial, fun _ => sound_push h bytes⟩
  | pop => exact sound_pop_iff
  | look => exact Iff.rfl

theorem popSpec_pop {d : Decoder} (hsound : d.Sound .pop) :
    PopSpec decoding LengthPrefix.deframer Valid content d (some d.pop) := by
  rcases hparse : LengthPrefix.parse d.content with _ | ⟨env, rest⟩ | c
  · rw [pop_of_more hparse]
    exact .null hparse
  · obtain ⟨hpop, henv, hrest, -⟩ := pop_of_item hparse
    obtain ⟨hvalid, hhead⟩ := hsound _ _ hpop
    rw [hpop]
    have hview : (d.buf.drop (d.head + 4)).take env.length = env := by
      rw [← List.drop_drop, ← content]
      exact henv.symm
    have hcontent : d.buf.drop (d.head + (4 + env.length) % 2 ^ 32) = rest := by
      change d.head + (4 + env.length) % 2 ^ 32 = d.head + (4 + env.length) at hhead
      rw [hhead, ← List.drop_drop, ← content]
      exact hrest.symm
    refine .frame ?_ hvalid fun _ => rfl
    show LengthPrefix.parse d.content = .item ((d.buf.drop (d.head + 4)).take env.length)
      (d.buf.drop (d.head + (4 + env.length) % 2 ^ 32))
    rw [hview, hcontent, hparse]
  · exact c.elim

/-- The decoder is the splitter as long as its calls are sound. -/
def refines : Refines decoding LengthPrefix.deframer where
  Inv := Valid
  content := content
  safe := Sound
  push := fun _ hsound => ⟨_, rfl, hsound.1, hsound.2⟩
  pop := fun _ hsound => popSpec_pop hsound

/-- **Every call of a run is sound if and only if no pop is made on a complete frame of `2 ^ 32 - 4`
bytes or more.** -/
theorem along_sound_iff (calls : List (Call UInt8)) :
    decoding.machine.Along (fun u c => u.decoder.Sound c) (start .new) calls ↔
      splitter.machine.Along (fun v c => PopsSmaller v.decoder c) (start []) calls :=
  Refines.along_iff (R := refines) (P := PopsSmaller) sound_iff (Refines.sim_start valid_new)

end Decoder

/-- **The decoder is the splitter, and its read position and buffer are kept right, if and only if
no pop is made on a complete frame of `2 ^ 32 - 4` bytes or more.** -/
theorem decoder_sound_iff (calls : List (Call UInt8)) :
    (Decoder.decoding.outcomes .new calls = splitter.outcomes [] calls ∧
        Decoder.decoding.machine.Along (fun u c => u.decoder.Sound c) (start .new) calls) ↔
      splitter.machine.Along (fun v c => Decoder.PopsSmaller v.decoder c) (start []) calls := by
  constructor
  · rintro ⟨-, hsound⟩
    exact (Decoder.along_sound_iff calls).mp hsound
  · intro hsmaller
    have hsound := (Decoder.along_sound_iff calls).mpr hsmaller
    exact ⟨Refines.outcomes_eq (R := Decoder.refines) Decoder.valid_new hsound, hsound⟩

/-- A frame of `2 ^ 32 - 4` bytes, pushed and popped. -/
theorem decoder_rereads : ¬ ∀ calls : List (Call UInt8),
    Decoder.decoding.outcomes .new calls = splitter.outcomes [] calls ∧
      Decoder.decoding.machine.Along (fun u c => u.decoder.Sound c) (start .new) calls := by
  intro h
  obtain ⟨body, hlen⟩ : ∃ body : Bytes, body.length = 2 ^ 32 - 4 :=
    ⟨List.replicate (2 ^ 32 - 4) 0, List.length_replicate⟩
  have hsmaller := (Decoder.along_sound_iff _).mp (h [.push (LengthPrefix.frame body), .pop]).2
  have hpop := (hsmaller.tail rfl).1
  have hparse := @LengthPrefix.parse_frame_append body (by omega) []
  rw [List.append_nil] at hparse
  have hlt : body.length < 2 ^ 32 - 4 := hpop body [] hparse
  omega

end CppSync

end Aiomsg
