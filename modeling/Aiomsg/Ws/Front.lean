import Aiomsg.Ws.Parse

/-!
# The front of a frame, three times over

`parse_one` in `cpp-lib-sync/src/ws.cpp`, `FrameParser::next` in `cpp-lib-async/src/ws.cpp` and
`feed` in `zig-lib/src/ws.zig` begin alike: they look at the bytes that are not parsed yet, and find
that more are needed, or that the connection must end with a close code, or what kind of frame there
is, how long it is and where its mask begins. `front` is that part. What they do with the frame then
is their own.

A length with the top bit set is turned down before it is used, so no sum of it overflows.

## Scope

Only the part that the three have in common is here. How a frame is unmasked, in place or into a
copy, and what is done with it are in the modules about each.

## Main results

* `frontHead_eq`, `fronted_front` — the three take every decision of `parseClientFrame`
-/

namespace Aiomsg

namespace Ws

/-- The front of a frame, up to where `len` and `offset` are known. -/
def frontHead (p : Bytes) : Head :=
  if p.length < 2 then .needMore
  else
    let b0 := p.getD 0 0
    let b1 := p.getD 1 0
    if b0 &&& 0x70 ≠ 0 then .protocol 1002 -- RSV bits set
    else
      let opcode := b0 &&& 0x0f
      let fin := decide (b0 &&& 0x80 ≠ 0)
      if b1 &&& 0x80 = 0 then .protocol 1002 -- every client frame MUST be masked
      else
        let len := (b1 &&& 0x7f).toNat
        if len = 126 then
          if p.length < 4 then .needMore
          else .known opcode fin ((p.getD 2 0).toNat <<< 8 ||| (p.getD 3 0).toNat) 4
        else if len = 127 then
          if p.length < 10 then .needMore
          else if p.getD 2 0 &&& 0x80 ≠ 0 then .protocol 1002 -- 64-bit length MSB must be 0
          else
            .known opcode fin (((p.drop 2).take 8).foldl (fun len b => len <<< 8 ||| b.toNat) 0) 10
        else .known opcode fin len 2

/-- The front of a frame. `known` is a frame all of which is there. -/
def front (p : Bytes) : Head :=
  match frontHead p with
  | .known opcode fin len offset =>
    if 0x8 ≤ opcode ∧ (fin = false ∨ 125 < len) then .protocol 1002 -- control-frame constraints
    else if p.length < offset + 4 + len then .needMore -- need mask (4) + payload
    else .known opcode fin len offset
  | head => head

/-- `for (i = 0; i < len; ++i) payload[i] = masked[i] ^ mask[i & 3];` -/
def unmasked (p : Bytes) (len offset : ℕ) : Bytes :=
  xorMask ((p.drop offset).take 4) ((p.drop (offset + 4)).take len)

/-- `payload.size() >= 2 ? (payload[0] << 8) | payload[1] : 1000` -/
def codeOf (payload : Bytes) : UInt16 :=
  if 2 ≤ payload.length
    then UInt16.ofNat ((payload.getD 0 0).toNat <<< 8 ||| (payload.getD 1 0).toNat) else 1000

/-- The length as the two C++ ports write it in front of a payload. -/
def lengthBytes (len : ℕ) : Bytes :=
  if len < 126 then [UInt8.ofNat len]
  else if len < 65536 then [126, UInt8.ofNat (len >>> 8), UInt8.ofNat len]
  else 127 :: (List.range 8).map fun i => UInt8.ofNat (len >>> (56 - 8 * i))

theorem codeOf_eq (payload : Bytes) : codeOf payload = closeCode payload := by
  rcases payload with _ | ⟨b, _ | ⟨b', bs⟩⟩
  · rfl
  · rfl
  · have hlen : 2 ≤ (b :: b' :: bs).length := Nat.le_add_left 2 _
    rw [codeOf, if_pos hlen]
    show UInt16.ofNat (b.toNat <<< 8 ||| b'.toNat) = UInt16.ofNat (BigEndian.value [b, b'])
    rw [BigEndian.shift_pair]

theorem frontHead_eq (p : Bytes) : frontHead p = clientHead p := by
  rcases p with _ | ⟨b0, _ | ⟨b1, rest⟩⟩
  · rfl
  · rfl
  · have htop : rest.getD 0 0 = rest.headD 0 := by
      cases rest <;> rfl
    have htwo : ¬ rest.length < 2 → (rest.getD 0 0).toNat <<< 8 ||| (rest.getD 1 0).toNat
        = BigEndian.value (rest.take 2) := by
      intro hlong
      rw [BigEndian.shift_pair]
      rcases rest with _ | ⟨x, _ | ⟨y, rest⟩⟩
      · exact absurd Nat.two_pos hlong
      · exact absurd Nat.one_lt_two hlong
      · rfl
    have hfour : rest.length + 1 + 1 < 4 ↔ rest.length < 2 := by omega
    have hten : rest.length + 1 + 1 < 10 ↔ rest.length < 8 := by omega
    rw [frontHead, clientHead]
    simp only [List.length_cons, List.getD_cons_zero, List.getD_cons_succ, List.drop_succ_cons,
      List.drop_zero, BigEndian.foldl_shift, Nat.zero_mul, Nat.zero_add, hfour, hten]
    rw [if_neg (by omega : ¬ rest.length + 1 + 1 < 2)]
    split_ifs <;> simp_all

/-- **The three take every decision of the first parser.** -/
theorem parseClientFrame_front (p : Bytes) : parseClientFrame p = match front p with
    | .needMore => (.needMore, 0)
    | .protocol code => (.protocol code, 0)
    | .known opcode _ len offset => (dispose opcode (unmasked p len offset), offset + 4 + len) := by
  rw [parseClientFrame, front, frontHead_eq]
  cases clientHead p with
  | needMore | protocol => rfl
  | known opcode fin len offset =>
    dsimp only
    split_ifs <;> rfl

/-- What the front of a frame says about what follows. -/
inductive Fronted (p : Bytes) : Head → Prop
  | needMore (h : verdict p = .more) : Fronted p .needMore
  | protocol {code : UInt16} (h : verdict p = .stop code) : Fronted p (.protocol code)
  | known {opcode : UInt8} {fin : Bool} {len offset : ℕ} (hfit : offset + 4 + len ≤ p.length)
      (h : verdict p
        = (dispose opcode (unmasked p len offset)).verdict (p.drop (offset + 4 + len))) :
      Fronted p (.known opcode fin len offset)

theorem fronted_front (p : Bytes) : Fronted p (front p) := by
  have hparse := parseClientFrame_front p
  cases hfront : front p with
  | needMore =>
    rw [hfront] at hparse
    exact .needMore (verdict_of_parse hparse)
  | protocol code =>
    rw [hfront] at hparse
    exact .protocol (verdict_of_parse hparse)
  | known opcode fin len offset =>
    rw [hfront] at hparse
    refine .known ?_ (verdict_of_parse hparse)
    rw [front] at hfront
    split at hfront
    · split_ifs at hfront with hcontrol hshort
      cases hfront
      exact Nat.le_of_not_lt hshort
    · rename_i hknown
      exact absurd hfront (hknown _ _ _ _)

end Ws

end Aiomsg
