import Aiomsg.Lib.Machine
import Aiomsg.Lib.TwosComplement
import Aiomsg.LuaLib.Base
import Aiomsg.Ws.Stream

/-!
# The Lua adapter

`parse_frame` and `ingest` of `lua-lib/aiomsg/ws.lua`, on a Lua with integers of 64 bits. A call
that runs into a nil where a number is needed raises.

A length of 63 bits is put together without overflow. The sum that is compared with what has arrived
is not: for the last fourteen lengths `offset + 4 + len` is a negative number, every buffer is
longer, and the frame is taken for complete with the ten bytes of its header. There is no payload to
unmask then, and the first byte of it is nil.

## Scope

Lua has integers of 64 bits from 5.3 on. On an older one a length is a double, and that is not
looked at. `ingest` collects what the frames carry, and what it returns with an error is followed as
well; its caller is not.

## Main results

* `parseSpec_parseFrame` — what `parse_frame` makes of a buffer, in terms of the grammar
* `TooLong` — the streams in which such a header comes where a header is expected
* `ingests_iff` — on all others, and only there, `ingest` returns what the grammar says
-/

namespace Aiomsg

namespace LuaLib

open Ws Protocol TwosComplement

/-- What is known of a frame before its mask. -/
inductive LuaHead where
  | more
  | err (code : ℕ)
  | known (opcode fin : ℕ) (len offset : ℤ)
deriving DecidableEq

/-- `for i = 3, 10 do len = len * 256 + string.byte(buf, i) end`, on integers that wrap. -/
def accumulate (bs : Bytes) (len : ℤ) : ℤ :=
  bs.foldl (fun len b => wrap 64 (wrap 64 (len * 256) + b.toNat)) len

/-- `parse_frame` up to where `len` and `offset` are known. -/
def parseHead (buf : Bytes) : LuaHead :=
  if buf.length < 2 then .more
  else
    let b0 := (buf.getD 0 0).toNat
    let b1 := (buf.getD 1 0).toNat
    if b0 / 16 % 8 ≠ 0 then .err 1002 -- any RSV bit set
    else
      let fin := b0 / 128 % 2
      let opcode := b0 % 16
      if b1 / 128 % 2 ≠ 1 then .err 1002 -- every client frame MUST be masked
      else
        let len := b1 % 128
        if len = 126 then
          if buf.length < 4 then .more
          else .known opcode fin ((buf.getD 2 0).toNat * 256 + (buf.getD 3 0).toNat) 4
        else if len = 127 then
          if buf.length < 10 then .more
          else if (buf.getD 2 0).toNat / 128 % 2 = 1 then .err 1002 -- 64-bit length MSB MUST be 0
          else .known opcode fin (accumulate ((buf.drop 2).take 8) 0) 10
        else .known opcode fin len 2

/-- `for i = 1, len do out[i] = string.char(bxor(string.byte(masked, i), mask[(i - 1) % 4 + 1]))
end`, with `i + 1` for `i`; `none` where an operand is nil. -/
def unmask (masked : Bytes) (mask : List ℕ) : ℕ → ℕ → Option Bytes
  | 0, _ => some []
  | n + 1, i => do
    let a ← byteAt masked (i + 1)
    let b ← mask[i % 4]?
    let out ← unmask masked mask n (i + 1)
    return UInt8.ofNat (bxor a b) :: out

/-- What `parse_frame` comes to. -/
inductive LuaParsed where
  /-- `nil`: more bytes are needed. -/
  | more
  | err (code : ℕ)
  | frame (opcode fin : ℕ) (payload : Bytes) (consumed : ℤ)
  | raises
deriving DecidableEq

/-- Try to parse one masked client frame from `buf`. -/
def parseFrame (buf : Bytes) : LuaParsed :=
  match parseHead buf with
  | .more => .more
  | .err code => .err code
  | .known opcode fin len offset =>
    if 0x8 ≤ opcode ∧ (fin ≠ 1 ∨ 125 < len) then .err 1002 -- control frames: FIN=1, <=125
    else if buf.length < wrap 64 (offset + 4 + len) then .more
    else
      let mask := byteRange buf (offset + 1) (offset + 4)
      let masked := sub buf (offset + 5) (wrap 64 (offset + 4 + len))
      match unmask masked mask len.toNat 0 with
      | none => .raises
      | some payload => .frame opcode fin payload (wrap 64 (offset + 4 + len))

/-! ### Headers -/

theorem rsv_iff : ∀ b : UInt8, b.toNat / 16 % 8 ≠ 0 ↔ b &&& 0x70 ≠ 0 := by decide +kernel

theorem toNat_opcode : ∀ b : UInt8, b.toNat % 16 = (b &&& 0x0f).toNat := by decide +kernel

theorem toNat_top : ∀ b : UInt8, b.toNat / 128 % 2 = if decide (b &&& 0x80 ≠ 0) then 1 else 0 := by
  decide +kernel

theorem toNat_len : ∀ b : UInt8, b.toNat % 128 = (b &&& 0x7f).toNat := by decide +kernel

theorem top_ne_one_iff (b : UInt8) : b.toNat / 128 % 2 ≠ 1 ↔ b &&& 0x80 = 0 := by
  rw [toNat_top]
  by_cases h : b &&& 0x80 = 0
  · rw [if_neg (by rw [decide_eq_true_eq]; exact not_not.mpr h)]
    exact iff_of_true Nat.zero_ne_one h
  · rw [if_pos (decide_eq_true h)]
    exact iff_of_false (not_not.mpr rfl) h

/-- A length with its top bit clear is put together without overflow. -/
theorem accumulate_eq (bs : Bytes) {n : ℕ} (h : n * 256 ^ bs.length + BigEndian.value bs < 2 ^ 63) :
    accumulate bs n = ((n * 256 ^ bs.length + BigEndian.value bs : ℕ) : ℤ) := by
  induction bs generalizing n with
  | nil => simp [accumulate, BigEndian.value]
  | cons b bs ih =>
    have hsplit : n * 256 ^ (b :: bs).length + BigEndian.value (b :: bs)
        = (n * 256 + b.toNat) * 256 ^ bs.length + BigEndian.value bs := by
      rw [BigEndian.value, List.length_cons, pow_succ']
      ring
    rw [hsplit] at h ⊢
    have hone : n * 256 + b.toNat ≤ (n * 256 + b.toNat) * 256 ^ bs.length :=
      Nat.le_mul_of_pos_right _ (Nat.pow_pos (by decide))
    have hstep : wrap 64 (wrap 64 ((n : ℤ) * 256) + b.toNat) = ((n * 256 + b.toNat : ℕ) : ℤ) := by
      rw [wrap_of_fits (n := (n : ℤ) * 256) (by omega) (by omega),
        wrap_of_fits (by omega) (by omega)]
      push_cast
      rfl
    have hfold : accumulate (b :: bs) n
        = accumulate bs (wrap 64 (wrap 64 ((n : ℤ) * 256) + b.toNat)) := by
      rw [accumulate, List.foldl_cons, ← accumulate]
    rw [hfold, hstep]
    exact ih h

/-- What the header parse of the first adapter is in numbers. -/
def LuaHead.ofHead : Head → LuaHead
  | .needMore => .more
  | .protocol code => .err code.toNat
  | .known opcode fin len offset => .known opcode.toNat (if fin then 1 else 0) len offset

section Head

variable {b0 b1 : UInt8} {rest : Bytes}

/-- The parse behind the checks on the first two bytes. -/
theorem parseHead_cons (hrsv : b0 &&& 0x70 = 0) (hmask : b1 &&& 0x80 ≠ 0) :
    parseHead (b0 :: b1 :: rest) =
      if (b1 &&& 0x7f).toNat = 126 then
        if rest.length < 2 then .more
        else .known (b0 &&& 0x0f).toNat (if decide (b0 &&& 0x80 ≠ 0) then 1 else 0)
          ((rest.getD 0 0).toNat * 256 + (rest.getD 1 0).toNat) 4
      else if (b1 &&& 0x7f).toNat = 127 then
        if rest.length < 8 then .more
        else if rest.headD 0 &&& 0x80 ≠ 0 then .err 1002
        else .known (b0 &&& 0x0f).toNat (if decide (b0 &&& 0x80 ≠ 0) then 1 else 0)
          (accumulate (rest.take 8) 0) 10
      else .known (b0 &&& 0x0f).toNat (if decide (b0 &&& 0x80 ≠ 0) then 1 else 0)
        (b1 &&& 0x7f).toNat 2 := by
  have hlen : (b0 :: b1 :: rest).length = rest.length + 2 := rfl
  have hthird : rest.getD 0 0 = rest.headD 0 := by
    cases rest <;> rfl
  have htop : (rest.headD 0).toNat / 128 % 2 = 1 ↔ rest.headD 0 &&& 0x80 ≠ 0 := by
    rw [← not_iff_not, not_not]
    exact top_ne_one_iff _
  have hfour : rest.length + 2 < 4 ↔ rest.length < 2 := by omega
  have hten : rest.length + 2 < 10 ↔ rest.length < 8 := by omega
  rw [parseHead, hlen, if_neg (by omega : ¬ rest.length + 2 < 2)]
  simp only [List.getD_cons_zero, List.getD_cons_succ, List.drop_succ_cons, List.drop_zero]
  rw [if_neg (mt (rsv_iff b0).mp (not_not.mpr hrsv)), if_neg (mt (top_ne_one_iff b1).mp hmask),
    toNat_len, toNat_opcode, toNat_top]
  simp only [hfour, hten, hthird, htop]

/-- **The header is what it is for the other ports.** -/
theorem parseHead_eq (buf : Bytes) : parseHead buf = .ofHead (clientHead buf) := by
  rcases buf with _ | ⟨b0, _ | ⟨b1, rest⟩⟩
  · rfl
  · rfl
  by_cases hrsv : b0 &&& 0x70 = 0
  swap
  · rw [parseHead, if_neg (by rw [List.length_cons, List.length_cons]; omega), clientHead,
      if_pos hrsv]
    exact if_pos ((rsv_iff b0).mpr hrsv)
  by_cases hmask : b1 &&& 0x80 = 0
  · rw [parseHead, if_neg (by rw [List.length_cons, List.length_cons]; omega), clientHead,
      if_neg (not_not.mpr hrsv), if_pos hmask]
    exact (if_neg (mt (rsv_iff b0).mp (not_not.mpr hrsv))).trans
      (if_pos ((top_ne_one_iff b1).mpr hmask))
  rw [parseHead_cons hrsv hmask]
  by_cases h16 : b1 &&& 0x7f = 126
  · rw [clientHead_sixteen hrsv hmask h16, h16, if_pos (by decide)]
    by_cases hshort : rest.length < 2
    · rw [if_pos hshort, if_pos hshort]
      rfl
    rw [if_neg hshort, if_neg hshort]
    rcases rest with _ | ⟨x, _ | ⟨y, rest⟩⟩
    · exact absurd Nat.two_pos hshort
    · exact absurd Nat.one_lt_two hshort
    · have hvalue : (x.toNat : ℤ) * 256 + y.toNat = (BigEndian.value [x, y] : ℕ) := by
        rw [← BigEndian.shift_pair, BigEndian.shiftLeft_or y.toNat_lt]
        push_cast
        rfl
      exact congrArg (LuaHead.known _ _ · _) hvalue
  by_cases h64 : b1 &&& 0x7f = 127
  · rw [clientHead_sixtyFour hrsv hmask h64, h64, if_neg (by decide), if_pos (by decide)]
    by_cases hshort : rest.length < 8
    · rw [if_pos hshort, if_pos hshort]
      rfl
    rw [if_neg hshort, if_neg hshort]
    by_cases htop : rest.headD 0 &&& 0x80 ≠ 0
    · rw [if_pos htop, if_pos htop]
      rfl
    rw [if_neg htop, if_neg htop]
    have hbound := (top_clear_iff (Nat.le_of_not_lt hshort)).mp (not_not.mp htop)
    have hacc := accumulate_eq (rest.take 8) (n := 0) (by omega)
    rw [Nat.zero_mul, Nat.zero_add, Nat.cast_zero] at hacc
    exact congrArg (LuaHead.known _ _ · _) hacc
  · have hlt : (b1 &&& 0x7f).toNat < 126 := UInt8.lt_iff_toNat_lt.mp (len_lt b1 h16 h64)
    rw [clientHead_seven hrsv hmask (len_lt b1 h16 h64), if_neg (by omega), if_neg (by omega)]
    rfl

end Head

/-! ### Frames -/

/-- The payload of a frame all of which is there. -/
theorem unmask_eq {masked mask : Bytes} (hmask : mask.length = 4) {n i : ℕ}
    (hn : i + n = masked.length) :
    unmask masked (mask.map UInt8.toNat) n i = some ((xorMask mask masked).drop i) := by
  induction n generalizing i with
  | zero =>
    rw [unmask, List.drop_of_length_le]
    rw [length_xorMask]
    omega
  | succ n ih =>
    have hi : i < masked.length := by omega
    have hkey : i % 4 < mask.length := by rw [hmask]; exact Nat.mod_lt _ (by decide)
    have hmod : i &&& 3 = i % 4 := Nat.and_two_pow_sub_one_eq_mod i 2
    have hbyte : (mask.map UInt8.toNat)[i % 4]? = some mask[i % 4].toNat := by
      rw [List.getElem?_map, List.getElem?_eq_getElem hkey]
      rfl
    have hxor : (xorMask mask masked).drop i
        = (masked[i] ^^^ mask[i % 4]) :: (xorMask mask masked).drop (i + 1) := by
      rw [List.drop_eq_getElem_cons (by rw [length_xorMask]; exact hi)]
      simp only [xorMask, List.getElem_mapIdx, hmod, List.getD_eq_getElem _ _ hkey]
    have hrest := ih (i := i + 1) (by omega)
    rw [unmask, byteAt_of_lt hi, hbyte, hrest, hxor, ← ofNat_bxor]
    rfl

/-- Nothing can be unmasked where there is nothing. -/
theorem unmask_nil (mask : List ℕ) {n : ℕ} (h : 0 < n) (i : ℕ) : unmask [] mask n i = none := by
  obtain ⟨m, rfl⟩ : ∃ m, n = m + 1 := ⟨n - 1, by omega⟩
  rw [unmask, byteAt_nil]
  rfl

/-- A header of no control frame, with one of the last fourteen lengths. -/
def TooLongAt (buf : Bytes) : Prop :=
  ∃ (h : Header) (rest : Bytes), buf = h.bytes ++ rest ∧ h.opcode < 8 ∧ 2 ^ 63 - 14 ≤ h.len

/-- What `parse_frame` makes of a buffer, in terms of the grammar. -/
inductive ParseSpec (buf : Bytes) : LuaParsed → Prop
  | more (h : verdict buf = .more) (hlen : ¬ TooLongAt buf) : ParseSpec buf .more
  | err {code : UInt16} (h : verdict buf = .stop code) : ParseSpec buf (.err code.toNat)
  | frame {fin : ℕ} (f : ClientFrame) (rest : Bytes) (hbuf : buf = f.bytes ++ rest)
      (hlegal : ¬ f.Illegal) (hlen : ¬ TooLongAt buf) :
      ParseSpec buf (.frame f.opcode.toNat fin f.payload f.bytes.length)
  | raises (h : TooLongAt buf) : ParseSpec buf .raises

/-- Two headers at the front of one buffer are the same. -/
theorem tooLongAt_iff {h : Header} {rest : Bytes} :
    TooLongAt (h.bytes ++ rest) ↔ h.opcode < 8 ∧ 2 ^ 63 - 14 ≤ h.len := by
  constructor
  · rintro ⟨h', rest', hbuf, hop, hlen⟩
    have hsame := clientHead_bytes h rest
    rw [hbuf, clientHead_bytes] at hsame
    obtain ⟨hopcode, -, hlength, -⟩ := Head.known.inj hsame
    exact ⟨hopcode ▸ hop, hlength ▸ hlen⟩
  · rintro ⟨hop, hlen⟩
    exact ⟨h, rest, rfl, hop, hlen⟩

theorem length_header_le (h : Header) : h.bytes.length ≤ 10 := by
  obtain ⟨fin, opcode, hopcode, form, len, hlen⟩ := h
  cases form with
  | seven => exact Nat.le_of_ble_eq_true rfl
  | sixteen => simp [Header.bytes, Header.lengthBytes]
  | sixtyFour => simp [Header.bytes, Header.lengthBytes]

theorem length_header_of_long {h : Header} (hlen : 2 ^ 16 ≤ h.len) : h.bytes.length = 10 := by
  obtain ⟨fin, opcode, hopcode, form, len, hbound⟩ := h
  cases form with
  | seven =>
    change len < 126 at hbound
    dsimp only at hlen
    omega
  | sixteen => exact absurd hbound (Nat.not_lt.mpr hlen)
  | sixtyFour => simp [Header.bytes, Header.lengthBytes]

theorem header_len_lt (h : Header) : h.len < 2 ^ 63 := by
  obtain ⟨fin, opcode, hopcode, form, len, hbound⟩ := h
  cases form with
  | seven => exact lt_trans hbound (by decide)
  | sixteen => exact lt_trans hbound (by decide)
  | sixtyFour => exact hbound

/-- The parse behind a header that passes its checks. -/
theorem parseFrame_of_known {h : Header} {rest : Bytes} :
    parseFrame (h.bytes ++ rest) =
      if h.Illegal then .err 1002
      else if ((h.bytes ++ rest).length : ℤ) < wrap 64 (h.bytes.length + 4 + h.len) then .more
      else
        match unmask
          (sub (h.bytes ++ rest) (h.bytes.length + 5) (wrap 64 (h.bytes.length + 4 + h.len)))
          (byteRange (h.bytes ++ rest) (h.bytes.length + 1) (h.bytes.length + 4)) h.len 0 with
        | none => .raises
        | some payload => .frame h.opcode.toNat (if h.fin then 1 else 0) payload
          (wrap 64 (h.bytes.length + 4 + h.len)) := by
  have hop : 0x8 ≤ h.opcode.toNat ↔ 0x8 ≤ h.opcode := Iff.rfl
  have hfin : (if h.fin then 1 else 0) ≠ 1 ↔ h.fin = false := by
    cases h.fin <;> decide
  have hlen : (125 : ℤ) < h.len ↔ 125 < h.len := Nat.cast_lt (α := ℤ) (m := 125)
  rw [parseFrame, parseHead_eq, clientHead_bytes, LuaHead.ofHead]
  simp only [hop, hfin, hlen, Int.toNat_natCast]
  rfl

/-- A sum of 63 bits or more is a negative number, and the range it ends is empty. -/
theorem sub_of_long {buf : Bytes} {n : ℕ} (hbuf : buf.length < 2 ^ 63) (hlong : 2 ^ 63 ≤ n + 14)
    (hn : n < 2 ^ 63) :
    wrap 64 (10 + 4 + n) < 0 ∧ sub buf (10 + 5) (wrap 64 (10 + 4 + n)) = [] := by
  rw [wrap_unsigned (by omega) (by omega)]
  exact ⟨by omega, sub_of_lt (by omega) (by omega) (by omega)⟩

/-- The parse behind a header whose sums do not overflow. -/
theorem parseSpec_of_fits {h : Header} {rest : Bytes} (hlegal : ¬ h.Illegal)
    (hfits : h.len < 2 ^ 63 - 14) : ParseSpec (h.bytes ++ rest) (parseFrame (h.bytes ++ rest)) := by
  have hnot : ¬ TooLongAt (h.bytes ++ rest) := fun hat =>
    absurd (tooLongAt_iff.mp hat).2 (Nat.not_le.mpr hfits)
  have hten := length_header_le h
  have hwhole : (h.bytes ++ rest).length = h.bytes.length + rest.length := List.length_append
  have hparse := parseClientFrame_of_known (clientHead_bytes h rest)
  have hchecks : ¬ (0x8 ≤ h.opcode ∧ (h.fin = false ∨ 125 < h.len)) := hlegal
  rw [if_neg hchecks] at hparse
  have hwrap : wrap 64 (h.bytes.length + 4 + h.len)
      = ((h.bytes.length + 4 : ℕ) : ℤ) + h.len := by
    rw [wrap_of_fits (by omega) (by omega)]
    push_cast
    rfl
  rw [parseFrame_of_known, if_neg hlegal, hwrap]
  by_cases hshort : (h.bytes ++ rest).length < h.bytes.length + 4 + h.len
  · rw [if_pos (by omega)]
    rw [if_pos hshort] at hparse
    exact .more (verdict_of_parse hparse) hnot
  have hlen : 4 + h.len ≤ rest.length := by omega
  have hmask : byteRange (h.bytes ++ rest) (h.bytes.length + 1) (h.bytes.length + 4)
      = (rest.take 4).map UInt8.toNat := by
    have hsub := sub_of_le (s := h.bytes ++ rest) (i := h.bytes.length) (n := 4) (by omega)
    rw [List.drop_left] at hsub
    rw [← hsub]
    rfl
  have hmasked : sub (h.bytes ++ rest) (h.bytes.length + 5)
      (((h.bytes.length + 4 : ℕ) : ℤ) + h.len) = (rest.drop 4).take h.len := by
    have hsub := sub_of_le (s := h.bytes ++ rest) (i := h.bytes.length + 4) (n := h.len) (by omega)
    rw [← List.drop_drop, List.drop_left] at hsub
    rw [← hsub, Nat.cast_add, add_assoc, add_assoc]
    rfl
  have hunmask : unmask ((rest.drop 4).take h.len) ((rest.take 4).map UInt8.toNat) h.len 0
      = some (h.frame rest hlen).payload := by
    refine unmask_eq (length_mask_of_le hlen) ?_
    rw [List.length_take, List.length_drop]
    omega
  have hbytes : (h.frame rest hlen).bytes.length = h.bytes.length + 4 + h.len :=
    ClientFrame.length_bytes _
  rw [if_neg (by omega), hmask, hmasked, hunmask, ← Nat.cast_add, ← hbytes]
  exact .frame (h.frame rest hlen) _ (Header.bytes_frame hlen).symm hlegal hnot

/-- **What `parse_frame` makes of a string.** -/
theorem parseSpec_parseFrame {buf : Bytes} (hbuf : buf.length < 2 ^ 63) :
    ParseSpec buf (parseFrame buf) := by
  have hfound := found_clientHead buf
  generalize hhead : clientHead buf = head at hfound
  cases hfound with
  | needMore =>
    rw [parseFrame, parseHead_eq, hhead]
    refine .more ?_ ?_
    · have hparse : parseClientFrame buf = (.needMore, 0) := by rw [parseClientFrame, hhead]
      exact verdict_of_parse hparse
    · rintro ⟨h, rest, rfl, -⟩
      cases (clientHead_bytes h rest).symm.trans hhead
  | protocol hstop =>
    rw [parseFrame, parseHead_eq, hhead]
    exact .err (verdict_of_stops hstop)
  | known h rest hsplit =>
    subst hsplit
    by_cases hillegal : h.Illegal
    · rw [parseFrame_of_known, if_pos hillegal]
      exact .err (verdict_of_stops (.control h rest hillegal))
    by_cases hfits : h.len < 2 ^ 63 - 14
    · exact parseSpec_of_fits hillegal hfits
    have hlong : 2 ^ 63 - 14 ≤ h.len := Nat.le_of_not_lt hfits
    have hopcode : h.opcode < 8 := by
      by_contra hcontrol
      exact hillegal ⟨UInt8.not_lt.mp hcontrol, .inr (by omega)⟩
    obtain ⟨hneg, hsub⟩ := sub_of_long hbuf (by omega) (header_len_lt h)
    rw [parseFrame_of_known, if_neg hillegal, length_header_of_long (by omega)]
    simp only [Nat.cast_ofNat]
    rw [if_neg (by omega), hsub, unmask_nil _ (by omega)]
    exact .raises (tooLongAt_iff.mpr ⟨hopcode, hlong⟩)

/-- A frame takes something off the buffer, also where its end is a negative number. -/
theorem length_sub_lt_of_frame {buf payload : Bytes} {opcode fin : ℕ} {consumed : ℤ}
    (h : parseFrame buf = .frame opcode fin payload consumed) :
    (sub buf (consumed + 1) (-1)).length < buf.length := by
  have hfound := found_clientHead buf
  generalize hhead : clientHead buf = head at hfound
  cases hfound with
  | needMore =>
    rw [parseFrame, parseHead_eq, hhead] at h
    cases h
  | protocol =>
    rw [parseFrame, parseHead_eq, hhead] at h
    cases h
  | known hd rest hsplit =>
    have hpos : buf ≠ [] := by
      rintro rfl
      cases hhead
    subst hsplit
    rw [parseFrame_of_known] at h
    by_cases hillegal : hd.Illegal
    · rw [if_pos hillegal] at h
      cases h
    by_cases hshort : ((hd.bytes ++ rest).length : ℤ) < wrap 64 (hd.bytes.length + 4 + hd.len)
    · rw [if_neg hillegal, if_pos hshort] at h
      cases h
    rw [if_neg hillegal, if_neg hshort] at h
    rcases hunmask : unmask (sub (hd.bytes ++ rest) (hd.bytes.length + 5)
      (wrap 64 (hd.bytes.length + 4 + hd.len))) (byteRange (hd.bytes ++ rest)
        (hd.bytes.length + 1) (hd.bytes.length + 4)) hd.len 0 with _ | out
    · rw [hunmask] at h
      cases h
    rw [hunmask] at h
    obtain ⟨-, -, -, rfl⟩ := LuaParsed.frame.inj h
    refine length_sub_lt hpos ?_
    have hten := length_header_le hd
    have hlen := header_len_lt hd
    have hlow := le_wrap 64 (hd.bytes.length + 4 + hd.len : ℤ)
    have hhigh := wrap_lt 64 (hd.bytes.length + 4 + hd.len : ℤ)
    have hmod := wrap_emod 64 (hd.bytes.length + 4 + hd.len : ℤ)
    generalize wrap 64 (hd.bytes.length + 4 + hd.len) = consumed at *
    rw [startPos]
    by_cases hneg : consumed < 0
    · -- the payload is not empty, so the end of the frame is behind its header
      have hmasked : ¬ ((hd.bytes ++ rest).length : ℤ) + consumed + 1 < hd.bytes.length + 5 := by
        intro hlt
        rw [sub_of_lt (by omega) hneg hlt, unmask_nil _ (by omega)] at hunmask
        cases hunmask
      split_ifs <;> omega
    · split_ifs <;> omega

/-! ### Calls -/

/-- `u16`. -/
def u16 (code : ℕ) : Bytes := [code / 256 % 256, code % 256].map UInt8.ofNat

/-- `M.encode`. -/
def encode (opcode : ℕ) (payload : Bytes) : Bytes :=
  let n := payload.length
  let header :=
    if n < 126 then [0x80 + opcode, n]
    else if n < 65536 then [0x80 + opcode, 126, n / 256 % 256, n % 256]
    else [0x80 + opcode, 127, n / 2 ^ 56 % 256, n / 2 ^ 48 % 256, n / 2 ^ 40 % 256,
      n / 2 ^ 32 % 256, n / 2 ^ 24 % 256, n / 2 ^ 16 % 256, n / 256 % 256, n % 256]
  header.map UInt8.ofNat ++ payload

/-- The code a Close frame gives, or 1000. -/
def codeOf (payload : Bytes) : ℕ :=
  if 2 ≤ payload.length then (payload.getD 0 0).toNat * 256 + (payload.getD 1 0).toNat else 1000

/-- What `ingest` returns, and `state.buf` after it. -/
structure Ingested where
  payload : Bytes
  control : Bytes
  closed : Bool
  buf : Bytes

/-- A call that sends a Close frame. -/
def closing (code : ℕ) (buf : Bytes) : Ingested := ⟨[], encode 0x8 (u16 code), true, buf⟩

/-- The loop of `ingest`; `none` where it raises. -/
def pump (buf : Bytes) : Option Ingested :=
  match _h : parseFrame buf with
  | .more => some ⟨[], [], false, buf⟩
  | .err code => some (closing code buf)
  | .raises => none
  | .frame opcode _ payload consumed =>
    let rest := sub buf (consumed + 1) (-1)
    if opcode = 0x2 ∨ opcode = 0x0 then
      (pump rest).map fun r => { r with payload := payload ++ r.payload }
    else if opcode = 0x9 then
      (pump rest).map fun r => { r with control := encode 0xA payload ++ r.control }
    else if opcode = 0xA then pump rest
    else if opcode = 0x1 then some (closing 1003 rest) -- text is not valid for aiomsg
    else if opcode = 0x8 then some (closing (codeOf payload) rest)
    else some (closing 1002 rest) -- unknown opcode
termination_by buf.length
decreasing_by all_goals exact length_sub_lt_of_frame _h

def ingest (buf raw : Bytes) : Option Ingested := (concat buf raw).bind pump

/-- One run of the loop, frame by frame. -/
inductive Pumped : Bytes → Option Ingested → Prop
  | more {buf : Bytes} (h : verdict buf = .more) (hnot : ¬ TooLongAt buf) :
      Pumped buf (some ⟨[], [], false, buf⟩)
  | stop {buf : Bytes} {code : UInt16} {n : ℕ} {rest : Bytes} (h : verdict buf = .stop code) :
      Pumped buf (some (closing n rest))
  | raises {buf : Bytes} (h : TooLongAt buf) : Pumped buf none
  | frame (f : ClientFrame) (answer : Bytes) {rest : Bytes} {r : Option Ingested} (h : f.Passes)
      (hrest : Pumped rest r) :
      Pumped (f.bytes ++ rest) (r.map fun r =>
        { r with payload := f.carried ++ r.payload, control := answer ++ r.control })

/-- What the loop goes on with when a frame has been parsed. -/
theorem exists_frame {buf payload : Bytes} {opcode fin : ℕ} {consumed : ℤ}
    (hbuf : buf.length < 2 ^ 63) (h : parseFrame buf = .frame opcode fin payload consumed) :
    ∃ (f : ClientFrame) (rest : Bytes), buf = f.bytes ++ rest ∧ ¬ f.Illegal ∧
      opcode = f.opcode.toNat ∧ payload = f.payload ∧ sub buf (consumed + 1) (-1) = rest := by
  have hspec := parseSpec_parseFrame hbuf
  rw [h] at hspec
  cases hspec with
  | frame f rest hsplit hlegal hnot =>
    refine ⟨f, rest, hsplit, hlegal, rfl, rfl, ?_⟩
    rw [hsplit, sub_rest (by rw [List.length_append]; omega), List.drop_left]

/-- **The loop goes from frame to frame.** -/
theorem pumped_pump {buf : Bytes} (hbuf : buf.length < 2 ^ 63) : Pumped buf (pump buf) := by
  fun_induction pump buf with
  | case1 buf hparse =>
    have hspec := parseSpec_parseFrame hbuf
    rw [hparse] at hspec
    cases hspec with
    | more h hnot => exact .more h hnot
  | case2 buf code hparse =>
    have hspec := parseSpec_parseFrame hbuf
    rw [hparse] at hspec
    cases hspec with
    | err h => exact .stop h
  | case3 buf hparse =>
    have hspec := parseSpec_parseFrame hbuf
    rw [hparse] at hspec
    cases hspec with
    | raises h => exact .raises h
  | case4 buf op fin payload consumed hparse rest hdata ih =>
    obtain ⟨f, tail, rfl, hlegal, rfl, rfl, htail⟩ := exists_frame hbuf hparse
    rw [show rest = tail from htail] at ih ⊢
    have hop : f.opcode = opBin ∨ f.opcode = opCont :=
      hdata.imp UInt8.toNat_inj.mp UInt8.toNat_inj.mp
    have hrun := Pumped.frame f [] ⟨hlegal, hop.elim .inl fun h => .inr (.inl h)⟩
      (ih (by rw [List.length_append] at hbuf; omega))
    rw [ClientFrame.carried, if_pos hop] at hrun
    exact hrun
  | case5 buf fin payload consumed rest hparse hdata ih =>
    obtain ⟨f, tail, rfl, hlegal, hping, rfl, htail⟩ := exists_frame hbuf hparse
    rw [show rest = tail from htail] at ih ⊢
    have hop : f.opcode = opPing := UInt8.toNat_inj.mp hping.symm
    have hrun := Pumped.frame f (encode 0xA f.payload)
      ⟨hlegal, .inr (.inr (.inl hop))⟩ (ih (by rw [List.length_append] at hbuf; omega))
    rw [ClientFrame.carried, if_neg (by rw [hop]; decide)] at hrun
    exact hrun
  | case6 buf fin payload consumed rest hparse hdata hne ih =>
    obtain ⟨f, tail, rfl, hlegal, hpong, rfl, htail⟩ := exists_frame hbuf hparse
    rw [show rest = tail from htail] at ih ⊢
    have hop : f.opcode = opPong := UInt8.toNat_inj.mp hpong.symm
    have hrun := Pumped.frame f [] ⟨hlegal, .inr (.inr (.inr hop))⟩
      (ih (by rw [List.length_append] at hbuf; omega))
    rw [ClientFrame.carried, if_neg (by rw [hop]; decide)] at hrun
    simp only [List.nil_append] at hrun
    rwa [Option.map_id'] at hrun
  | case7 buf fin payload consumed rest hparse =>
    obtain ⟨f, tail, rfl, hlegal, htext, rfl, htail⟩ := exists_frame hbuf hparse
    have hop : f.opcode = opText := UInt8.toNat_inj.mp htext.symm
    exact .stop (verdict_of_stops (.text f tail hop))
  | case8 buf fin payload consumed rest hparse =>
    obtain ⟨f, tail, rfl, hlegal, hclose, rfl, htail⟩ := exists_frame hbuf hparse
    have hop : f.opcode = opClose := UInt8.toNat_inj.mp hclose.symm
    exact .stop (verdict_of_stops (.close f tail hop hlegal))
  | case9 buf op fin payload consumed hparse rest hdata hping hpong =>
    obtain ⟨f, tail, rfl, hlegal, rfl, rfl, htail⟩ := exists_frame hbuf hparse
    have hnot : ¬ f.Passes := by
      rintro ⟨-, hop | hop | hop | hop⟩
      · exact hdata (.inl (congrArg UInt8.toNat hop))
      · exact hdata (.inr (congrArg UInt8.toNat hop))
      · exact hping (congrArg UInt8.toNat hop)
      · exact hpong (congrArg UInt8.toNat hop)
    obtain ⟨code, hstop⟩ := ClientFrame.exists_verdict_stop hlegal hnot tail
    exact .stop hstop

/-! ### Streams -/

/-- Behind frames that pass, a header of data with one of the last fourteen lengths. -/
def TooLong (stream : Bytes) : Prop :=
  ∃ (frames : List ClientFrame) (tail : Bytes),
    stream = (frames.map ClientFrame.bytes).flatten ++ tail ∧ (∀ f ∈ frames, f.Passes) ∧
      TooLongAt tail

/-- There is no string with all of such a frame. -/
theorem verdict_of_tooLongAt {buf : Bytes} (hbuf : buf.length < 2 ^ 63) (h : TooLongAt buf) :
    verdict buf = .more := by
  obtain ⟨h, rest, rfl, hopcode, hlong⟩ := h
  have hparse := parseClientFrame_of_known (clientHead_bytes h rest)
  have hlegal : ¬ (0x8 ≤ h.opcode ∧ (h.fin = false ∨ 125 < h.len)) := fun hcontrol =>
    absurd hopcode (UInt8.not_lt.mpr hcontrol.1)
  have hten := length_header_of_long (h := h) (by omega)
  rw [if_neg hlegal, if_pos (by omega)] at hparse
  exact verdict_of_parse hparse

theorem tooLong_of_tooLongAt {buf : Bytes} (h : TooLongAt buf) : TooLong buf :=
  ⟨[], buf, rfl, nofun, h⟩

/-- A string that holds no frame that passes is too long only at its front. -/
theorem tooLongAt_of_tooLong {buf : Bytes} (hverdict : ∀ b rest, verdict buf ≠ .item b rest)
    (h : TooLong buf) : TooLongAt buf := by
  obtain ⟨_ | ⟨f, frames⟩, tail, rfl, hpasses, hat⟩ := h
  · exact hat
  · rw [f.flatten_cons_append] at hverdict
    exact absurd (verdict_of_passes (hpasses f List.mem_cons_self) _) (hverdict _ _)

/-- A frame that passes is looked past. -/
theorem tooLong_frame {f : ClientFrame} {rest : Bytes} (hf : f.Passes)
    (hbuf : (f.bytes ++ rest).length < 2 ^ 63) : TooLong (f.bytes ++ rest) ↔ TooLong rest := by
  have hitem := verdict_of_passes hf rest
  constructor
  · rintro ⟨_ | ⟨g, frames⟩, tail, hsplit, hpasses, hat⟩
    · obtain rfl : f.bytes ++ rest = tail := hsplit
      exact absurd (hitem.symm.trans (verdict_of_tooLongAt hbuf hat)) nofun
    · rw [g.flatten_cons_append] at hsplit
      rw [hsplit, verdict_of_passes (hpasses g List.mem_cons_self)] at hitem
      obtain ⟨-, rfl⟩ := Parse.item.inj hitem
      exact ⟨frames, tail, rfl, fun g hg => hpasses g (List.mem_cons_of_mem _ hg), hat⟩
  · exact hf.exists_cons

/-- **The loop raises on the strings that are too long, and on no others.** -/
theorem Pumped.isSome_iff {buf : Bytes} {r : Option Ingested} (h : Pumped buf r)
    (hbuf : buf.length < 2 ^ 63) : r.isSome = true ↔ ¬ TooLong buf := by
  induction h with
  | more h hnot =>
    refine iff_of_true rfl fun hlong => hnot (tooLongAt_of_tooLong ?_ hlong)
    rw [h]
    exact nofun
  | stop h =>
    refine iff_of_true rfl fun hlong => ?_
    have hat := tooLongAt_of_tooLong (by rw [h]; exact nofun) hlong
    exact absurd (h.symm.trans (verdict_of_tooLongAt hbuf hat)) nofun
  | raises h => exact iff_of_false Bool.false_ne_true (not_not.mpr (tooLong_of_tooLongAt h))
  | frame f answer hf hrest ih =>
    rw [Option.isSome_map, tooLong_frame hf hbuf]
    exact ih (by rw [List.length_append] at hbuf; omega)

/-- What a call makes of the string in its buffer. -/
structure PumpSpec (buf : Bytes) (r : Ingested) : Prop where
  payload : r.payload = carriedIn buf
  closed : r.closed = (reason buf).isSome
  kept : r.closed = false → (clientFrames.drain buf).2 = .inl r.buf

theorem Pumped.spec {buf : Bytes} {out : Option Ingested} (h : Pumped buf out) :
    ∀ r ∈ out, PumpSpec buf r := by
  induction h with
  | more h =>
    rintro r ⟨⟩
    have hdrain := Deframer.drain_more (d := clientFrames) h
    exact ⟨(carriedIn_more h).symm, by rw [reason, hdrain]; rfl, fun _ => by rw [hdrain]⟩
  | @stop buf code n rest h =>
    rintro r ⟨⟩
    have hcarried := carriedIn_stop h []
    rw [List.append_nil] at hcarried
    exact ⟨hcarried.symm, by rw [reason, Deframer.drain_stop (d := clientFrames) h]; rfl,
      fun hopen => Bool.noConfusion hopen⟩
  | raises =>
    intro r hr
    cases hr
  | @frame f answer rest out hf hrest ih =>
    intro r hr
    obtain ⟨r, hout, rfl⟩ := Option.map_eq_some_iff.mp hr
    obtain ⟨hpayload, hclosed, hkept⟩ := ih r hout
    have hitem : clientFrames.parse (f.bytes ++ rest) = .item f.item rest :=
      verdict_of_passes hf rest
    have hcarried := carriedIn_item hitem []
    rw [List.append_nil, List.append_nil, f.carried_item] at hcarried
    refine ⟨?_, ?_, fun hopen => ?_⟩
    · rw [hcarried, ← hpayload]
    · rw [reason, Deframer.drain_item hitem, ← reason]
      exact hclosed
    · rw [Deframer.drain_item hitem]
      exact hkept hopen

/-! ### Calls one after another -/

/-- The parser, from call to call: what a call leaves in `state.buf`. -/
def parser : Machine Bytes Bytes where
  step buf raw := (ingest buf raw).map Ingested.buf

/-- What the calls return, if none of them raises. -/
def results : Bytes → List Bytes → Option (List Ingested)
  | _, [] => some []
  | buf, raw :: raws => (ingest buf raw).bind fun r => (results r.buf raws).map (r :: ·)

/-- The payloads up to the call that reports closed. -/
def payloads : List Ingested → Bytes
  | [] => []
  | r :: rs => r.payload ++ if r.closed then [] else payloads rs

/-- `state.buf` at the end. -/
def keptBy (buf : Bytes) (rs : List Ingested) : Bytes := (rs.map Ingested.buf).getLastD buf

/-- What is asked of the calls on a stream: none raises; together they return what the grammar says,
up to the one that reports closed, if there is a reason to; and otherwise what is left of the stream
is kept. -/
def Ingests (raws : List Bytes) : Prop :=
  ∃ rs, results [] raws = some rs ∧ ∀ frames code, Reading raws.flatten frames code →
    payloads rs = content frames ∧ ((∃ r ∈ rs, r.closed = true) ↔ code ≠ none) ∧
      ((∀ r ∈ rs, r.closed = false) →
        raws.flatten = (frames.map ClientFrame.bytes).flatten ++ keptBy [] rs)

/-- A call gets through: the string it makes is one, and not too long. -/
def Sound (buf raw : Bytes) : Prop := (buf ++ raw).length < 2 ^ 63 ∧ ¬ TooLong (buf ++ raw)

theorem exists_ingest_iff {buf raw : Bytes} : (∃ r, ingest buf raw = some r) ↔ Sound buf raw := by
  rw [ingest, concat, Sound, List.length_append, ← Option.isSome_iff_exists]
  split_ifs with hlen
  · rw [Option.bind_some, (pumped_pump (by rwa [List.length_append])).isSome_iff
      (by rwa [List.length_append])]
    exact (and_iff_right hlen).symm
  · exact iff_of_false Bool.false_ne_true fun h => hlen h.1

theorem pumpSpec_of_ingest {buf raw : Bytes} {r : Ingested} (h : ingest buf raw = some r) :
    PumpSpec (buf ++ raw) r := by
  have hsound := exists_ingest_iff.mp ⟨r, h⟩
  rw [ingest, concat, if_pos (by rw [← List.length_append]; exact hsound.1), Option.bind_some] at h
  exact (pumped_pump hsound.1).spec r h

theorem parser_step {buf raw : Bytes} {r : Ingested} (h : ingest buf raw = some r) :
    parser.step buf raw = some r.buf :=
  congrArg (Option.map Ingested.buf) h

/-- **The calls get through if and only if each of them does.** -/
theorem exists_results_iff {buf : Bytes} {raws : List Bytes} :
    (∃ rs, results buf raws = some rs) ↔ parser.Along Sound buf raws := by
  induction raws generalizing buf with
  | nil => exact iff_of_true ⟨[], rfl⟩ trivial
  | cons raw raws ih =>
    constructor
    · rintro ⟨rs, hrs⟩
      obtain ⟨r, hr, hrest⟩ := Option.bind_eq_some_iff.mp hrs
      obtain ⟨rs, hrest, -⟩ := Option.map_eq_some_iff.mp hrest
      exact .cons_of_step (exists_ingest_iff.mp ⟨r, hr⟩) (parser_step hr) (ih.mp ⟨rs, hrest⟩)
    · rintro ⟨hsound, hrest⟩
      obtain ⟨r, hr⟩ := exists_ingest_iff.mpr hsound
      obtain ⟨rs, hrs⟩ := ih.mpr (hrest r.buf (parser_step hr))
      exact ⟨r :: rs, by rw [results, hr, Option.bind_some, hrs]; rfl⟩

/-- **What the calls return is what one call would on all of it.** -/
theorem results_spec {buf : Bytes} {raws : List Bytes} {rs : List Ingested}
    (h : results buf raws = some rs) (hbuf : verdict buf = .more) :
    payloads rs = carriedIn (buf ++ raws.flatten) ∧
      ((∃ r ∈ rs, r.closed = true) ↔ (reason (buf ++ raws.flatten)).isSome = true) ∧
      ((∀ r ∈ rs, r.closed = false) →
        (clientFrames.drain (buf ++ raws.flatten)).2 = .inl (keptBy buf rs)) := by
  induction raws generalizing buf rs with
  | nil =>
    obtain rfl := Option.some.inj h
    have hdrain := Deframer.drain_more (d := clientFrames) hbuf
    rw [List.flatten_nil, List.append_nil]
    refine ⟨(carriedIn_more hbuf).symm, iff_of_false ?_ ?_, fun _ => ?_⟩
    · rintro ⟨r, hr, -⟩
      cases hr
    · rw [reason, hdrain]
      exact Bool.false_ne_true
    · rw [hdrain]
      rfl
  | cons raw raws ih =>
    obtain ⟨r, hr, hrest⟩ := Option.bind_eq_some_iff.mp h
    obtain ⟨rs, hrs, rfl⟩ := Option.map_eq_some_iff.mp hrest
    obtain ⟨hpayload, hclosed, hkept⟩ := pumpSpec_of_ingest hr
    rw [List.flatten_cons, ← List.append_assoc, payloads]
    rcases hstop : r.closed with _ | _
    · -- what is kept is no frame yet, and what follows is read behind it
      have hleft := hkept hstop
      have happend := Deframer.drain_append hleft raws.flatten
      obtain ⟨hpayloads, hany, hall⟩ := ih hrs (Deframer.drain_rest hleft)
      refine ⟨?_, ?_, fun hopen => ?_⟩
      · rw [if_neg Bool.false_ne_true, hpayload, hpayloads, carriedIn, carriedIn, carriedIn,
          happend, List.flatMap_append]
      · rw [reason, happend, ← reason, ← hany, List.exists_mem_cons_iff, hstop]
        simp
      · rw [happend, hall fun r hr => hopen r (List.mem_cons_of_mem _ hr), keptBy, keptBy,
          List.map_cons, List.getLastD_cons]
    · rw [hstop] at hclosed
      obtain ⟨code, hcode⟩ := Option.isSome_iff_exists.mp hclosed.symm
      have hend : (clientFrames.drain (buf ++ raw)).2 = .inr code :=
        Sum.getRight?_eq_some_iff.mp hcode
      have happend := Deframer.drain_append_of_stop hend raws.flatten
      refine ⟨?_, ?_, fun hopen => ?_⟩
      · rw [if_pos rfl, List.append_nil, hpayload, carriedIn, carriedIn, happend]
      · rw [reason, happend, ← reason, hcode]
        exact iff_of_true ⟨r, List.mem_cons_self, hstop⟩ rfl
      · exact Bool.noConfusion (hstop.symm.trans (hopen r List.mem_cons_self))

/-- **The calls return what the grammar says if and only if none of them makes a string that is too
long.** -/
theorem ingests_iff (raws : List Bytes) : Ingests raws ↔ parser.Along Sound [] raws := by
  constructor
  · rintro ⟨rs, hrs, -⟩
    exact exists_results_iff.mp ⟨rs, hrs⟩
  · intro hsound
    obtain ⟨rs, hrs⟩ := exists_results_iff.mpr hsound
    obtain ⟨hpayloads, hclosed, hkept⟩ := results_spec hrs rfl
    rw [List.nil_append] at hpayloads hclosed hkept
    refine ⟨rs, hrs, fun frames code hreading => ⟨?_, ?_, fun hopen => ?_⟩⟩
    · rw [hpayloads, carriedIn_eq hreading]
    · rw [hclosed, (drain_of_reading hreading).2, Option.isSome_iff_ne_none]
    · exact eq_append_of_drain hreading (hkept hopen)

/-- A binary frame of `2 ^ 63 - 1` bytes, of which the header has come. -/
theorem ingest_raises : ¬ ∀ raws, Ingests raws := by
  intro h
  obtain ⟨rs, hrs, -⟩ := h [[0x82, 0xFF, 0x7F, 0xFF, 0xFF, 0xFF, 0xFF, 0xFF, 0xFF, 0xFF]]
  have hsound := (exists_results_iff.mp ⟨rs, hrs⟩).1
  refine hsound.2 (tooLong_of_tooLongAt ?_)
  exact ⟨⟨true, opBin, by decide, .sixtyFour, 2 ^ 63 - 1, by decide⟩, [], by decide,
    by decide, by decide⟩

end LuaLib

end Aiomsg
