import Aiomsg.Lib.Deframe
import Aiomsg.Ws.Grammar
import Mathlib.Data.FinEnum
import Mathlib.Data.Fintype.Basic

/-!
# The parser finds what the grammar says

`parseClientFrame` is compared with the grammar once, in both directions: on the bytes of a frame it
gives that frame, and what it gives for a buffer is in the buffer. That the verdict does not change
when more bytes arrive is then a fact about the grammar, where a frame followed by something is
still a frame followed by something.

## Scope

The parser has an opinion on every buffer, and so does the grammar. Nothing is assumed of the bytes,
and a stream need not be one that a client would send.

## Main results

* `parseClientFrame_bytes`, `parseClientFrame_cases` — the two directions
* `clientFrames` — the parser as a `Deframer`
* `drain_of_reading`, `exists_reading` — what the deframer makes of a stream is what the grammar
  says it comes to
-/

namespace Aiomsg

namespace Ws

/-! ### Bits of a header -/

/-- What the masks of the source leave of a first byte that was put together. -/
theorem first_bits : ∀ (fin : Bool) (opcode : UInt8), opcode < 16 →
    ((if fin then 0x80 else 0) ||| opcode) &&& 0x70 = 0 ∧
      ((if fin then 0x80 else 0) ||| opcode) &&& 0x0f = opcode ∧
      decide (((if fin then 0x80 else 0) ||| opcode) &&& 0x80 ≠ 0) = fin := by
  decide +kernel

/-- What the masks of the source say about any byte. -/
theorem byte_bits : ∀ b : UInt8,
    (b &&& 0x70 = 0 → (if decide (b &&& 0x80 ≠ 0) then 0x80 else 0) ||| (b &&& 0x0f) = b) ∧
      b &&& 0x0f < 16 ∧
      (0x80 ||| b) &&& 0x80 ≠ 0 ∧
      (b < 126 → (0x80 ||| b) &&& 0x7f = b) ∧
      (b &&& 0x80 ≠ 0 → 0x80 ||| (b &&& 0x7f) = b) ∧
      (b &&& 0x7f ≠ 126 → b &&& 0x7f ≠ 127 → b &&& 0x7f < 126) ∧
      (b &&& 0x80 = 0 ↔ b < 128) := by
  decide +kernel

theorem first_and_rsv (fin : Bool) (opcode : UInt8) (h : opcode < 16) :
    ((if fin then 0x80 else 0) ||| opcode) &&& 0x70 = 0 :=
  (first_bits fin opcode h).1

theorem first_and_opcode (fin : Bool) (opcode : UInt8) (h : opcode < 16) :
    ((if fin then 0x80 else 0) ||| opcode) &&& 0x0f = opcode :=
  (first_bits fin opcode h).2.1

theorem first_and_fin (fin : Bool) (opcode : UInt8) (h : opcode < 16) :
    decide (((if fin then 0x80 else 0) ||| opcode) &&& 0x80 ≠ 0) = fin :=
  (first_bits fin opcode h).2.2

theorem first_eq (b : UInt8) :
    b &&& 0x70 = 0 → (if decide (b &&& 0x80 ≠ 0) then 0x80 else 0) ||| (b &&& 0x0f) = b :=
  (byte_bits b).1

theorem opcode_lt (b : UInt8) : b &&& 0x0f < 16 := (byte_bits b).2.1

theorem second_and_mask (b : UInt8) : (0x80 ||| b) &&& 0x80 ≠ 0 := (byte_bits b).2.2.1

theorem second_and_len (b : UInt8) : b < 126 → (0x80 ||| b) &&& 0x7f = b :=
  (byte_bits b).2.2.2.1

theorem second_eq (b : UInt8) : b &&& 0x80 ≠ 0 → 0x80 ||| (b &&& 0x7f) = b :=
  (byte_bits b).2.2.2.2.1

theorem len_lt (b : UInt8) : b &&& 0x7f ≠ 126 → b &&& 0x7f ≠ 127 → b &&& 0x7f < 126 :=
  (byte_bits b).2.2.2.2.2.1

theorem top_iff (b : UInt8) : b &&& 0x80 = 0 ↔ b < 128 := (byte_bits b).2.2.2.2.2.2

/-- The top bit of eight bytes. -/
theorem value_lt_iff {b : UInt8} {bs : Bytes} (h : bs.length = 7) :
    BigEndian.value (b :: bs) < 2 ^ 63 ↔ b &&& 0x80 = 0 := by
  have hlow := BigEndian.value_lt bs
  rw [top_iff, UInt8.lt_iff_toNat_lt, BigEndian.value]
  rw [h] at hlow ⊢
  show _ ↔ b.toNat < 128
  omega

/-! ### Headers -/

section Head

variable {b0 b1 : UInt8} {rest : Bytes}

theorem clientHead_seven (hrsv : b0 &&& 0x70 = 0) (hmask : b1 &&& 0x80 ≠ 0)
    (hlen : b1 &&& 0x7f < 126) : clientHead (b0 :: b1 :: rest)
      = .known (b0 &&& 0x0f) (decide (b0 &&& 0x80 ≠ 0)) (b1 &&& 0x7f).toNat 2 := by
  have hlt : (b1 &&& 0x7f).toNat < 126 := UInt8.lt_iff_toNat_lt.mp hlen
  rw [clientHead, if_neg (not_not.mpr hrsv), if_neg hmask]
  simp only [if_neg (by omega : ¬ (b1 &&& 0x7f).toNat = 126),
    if_neg (by omega : ¬ (b1 &&& 0x7f).toNat = 127)]

theorem clientHead_sixteen (hrsv : b0 &&& 0x70 = 0) (hmask : b1 &&& 0x80 ≠ 0)
    (hlen : b1 &&& 0x7f = 126) : clientHead (b0 :: b1 :: rest)
      = if rest.length < 2 then .needMore
        else .known (b0 &&& 0x0f) (decide (b0 &&& 0x80 ≠ 0)) (BigEndian.value (rest.take 2)) 4 := by
  rw [clientHead, if_neg (not_not.mpr hrsv), if_neg hmask]
  simp only [hlen]
  rfl

theorem clientHead_sixtyFour (hrsv : b0 &&& 0x70 = 0) (hmask : b1 &&& 0x80 ≠ 0)
    (hlen : b1 &&& 0x7f = 127) : clientHead (b0 :: b1 :: rest)
      = if rest.length < 8 then .needMore
        else if rest.headD 0 &&& 0x80 ≠ 0 then .protocol 1002
        else .known (b0 &&& 0x0f) (decide (b0 &&& 0x80 ≠ 0)) (BigEndian.value (rest.take 8))
          10 := by
  rw [clientHead, if_neg (not_not.mpr hrsv), if_neg hmask]
  simp only [hlen]
  rfl

end Head

/-- The top bit of a 64-bit length, looked up where the length is. -/
theorem top_clear_iff {rest : Bytes} (h : 8 ≤ rest.length) :
    rest.headD 0 &&& 0x80 = 0 ↔ BigEndian.value (rest.take 8) < 2 ^ 63 := by
  cases rest with
  | nil => exact absurd h (by decide)
  | cons b bs =>
    have hlen : (bs.take 7).length = 7 := by
      rw [List.length_cons] at h
      rw [List.length_take]
      omega
    exact (value_lt_iff hlen).symm

/-- On the bytes of a header, the header is found. -/
theorem clientHead_bytes (h : Header) (rest : Bytes) :
    clientHead (h.bytes ++ rest) = .known h.opcode h.fin h.len h.bytes.length := by
  obtain ⟨fin, opcode, hopcode, form, len, hlen⟩ := h
  have hrsv := first_and_rsv fin opcode hopcode
  cases form with
  | seven =>
    have hlt : len < 126 := hlen
    have hnat : (UInt8.ofNat len).toNat = len :=
      UInt8.toNat_ofNat_of_lt' (hlt.trans (by decide : 126 < UInt8.size))
    have hsmall : UInt8.ofNat len < 126 := by
      rw [UInt8.lt_iff_toNat_lt, hnat]
      exact hlt
    have hsecond := second_and_len _ hsmall
    show clientHead (_ :: (0x80 ||| UInt8.ofNat len) :: rest) = .known opcode fin len 2
    rw [clientHead_seven hrsv (second_and_mask _) (hsecond.symm ▸ hsmall), hsecond, hnat,
      first_and_opcode _ _ hopcode, first_and_fin _ _ hopcode]
  | sixteen =>
    have hlt : len < 256 ^ 2 := hlen
    have hlong : ¬ (BigEndian.encode 2 len ++ rest).length < 2 := by
      rw [List.length_append, BigEndian.length_encode]
      omega
    show clientHead (_ :: 0xFE :: (BigEndian.encode 2 len ++ rest)) = .known opcode fin len 4
    rw [clientHead_sixteen hrsv (by decide) (by decide), if_neg hlong,
      List.take_append_of_le_length (by simp), List.take_of_length_le (by simp),
      BigEndian.value_encode_of_lt hlt, first_and_opcode _ _ hopcode, first_and_fin _ _ hopcode]
  | sixtyFour =>
    have hlt : len < 2 ^ 63 := hlen
    have hvalue : BigEndian.value ((BigEndian.encode 8 len ++ rest).take 8) = len := by
      rw [List.take_append_of_le_length (by simp), List.take_of_length_le (by simp),
        BigEndian.value_encode_of_lt (by omega)]
    have htop : (BigEndian.encode 8 len ++ rest).headD 0 &&& 0x80 = 0 := by
      rw [top_clear_iff (by simp), hvalue]
      exact hlt
    have hlong : ¬ (BigEndian.encode 8 len ++ rest).length < 8 := by
      rw [List.length_append, BigEndian.length_encode]
      omega
    show clientHead (_ :: 0xFF :: (BigEndian.encode 8 len ++ rest)) = .known opcode fin len 10
    rw [clientHead_sixtyFour hrsv (by decide) (by decide), if_neg hlong,
      if_neg (not_not.mpr htop), hvalue, first_and_opcode _ _ hopcode, first_and_fin _ _ hopcode]

/-- What `clientHead` finds is in the buffer. -/
inductive Found (buf : Bytes) : Head → Prop
  | needMore : Found buf .needMore
  | protocol (h : Stops buf 1002) : Found buf (.protocol 1002)
  | known (h : Header) (rest : Bytes) (hbuf : buf = h.bytes ++ rest) :
      Found buf (.known h.opcode h.fin h.len h.bytes.length)

theorem found_seven {b0 b1 : UInt8} (rest : Bytes) (hrsv : b0 &&& 0x70 = 0)
    (hmask : b1 &&& 0x80 ≠ 0) (hlen : b1 &&& 0x7f < 126) :
    Found (b0 :: b1 :: rest)
      (.known (b0 &&& 0x0f) (decide (b0 &&& 0x80 ≠ 0)) (b1 &&& 0x7f).toNat 2) := by
  have hbound : (b1 &&& 0x7f).toNat < LengthForm.seven.bound := UInt8.lt_iff_toNat_lt.mp hlen
  refine .known ⟨decide (b0 &&& 0x80 ≠ 0), b0 &&& 0x0f, opcode_lt b0, .seven, _, hbound⟩ rest ?_
  show b0 :: b1 :: rest = ((if decide (b0 &&& 0x80 ≠ 0) then 0x80 else 0) ||| (b0 &&& 0x0f)) ::
    (0x80 ||| UInt8.ofNat (b1 &&& 0x7f).toNat) :: rest
  rw [first_eq b0 hrsv, UInt8.ofNat_toNat, second_eq b1 hmask]

/-- The header of a frame whose length is written in more than seven bits. -/
theorem found_extended {b0 b1 : UInt8} {rest : Bytes} (form : LengthForm) {w : ℕ}
    (hrsv : b0 &&& 0x70 = 0) (hw : w ≤ rest.length)
    (hbound : BigEndian.value (rest.take w) < form.bound)
    (hbytes : ∀ h : Header, h.form = form → h.lengthBytes = b1 :: BigEndian.encode w h.len) :
    Found (b0 :: b1 :: rest)
      (.known (b0 &&& 0x0f) (decide (b0 &&& 0x80 ≠ 0)) (BigEndian.value (rest.take w))
        (w + 2)) := by
  let h : Header := ⟨decide (b0 &&& 0x80 ≠ 0), b0 &&& 0x0f, opcode_lt b0, form, _, hbound⟩
  have htake : (rest.take w).length = w := by rw [List.length_take]; omega
  have hencode : BigEndian.encode w (BigEndian.value (rest.take w)) = rest.take w := by
    have heq := BigEndian.encode_value (rest.take w)
    rwa [htake] at heq
  have hhead : h.bytes = b0 :: b1 :: rest.take w := by
    show ((if decide (b0 &&& 0x80 ≠ 0) then 0x80 else 0) ||| (b0 &&& 0x0f)) :: h.lengthBytes = _
    rw [hbytes h rfl, first_eq b0 hrsv]
    exact congrArg (b0 :: b1 :: ·) hencode
  have hfound : Found (b0 :: b1 :: rest) (.known h.opcode h.fin h.len h.bytes.length) := by
    refine .known h (rest.drop w) ?_
    rw [hhead]
    show _ = b0 :: b1 :: (rest.take w ++ rest.drop w)
    rw [List.take_append_drop]
  rwa [hhead, List.length_cons, List.length_cons, htake] at hfound

theorem found_clientHead (buf : Bytes) : Found buf (clientHead buf) := by
  match buf with
  | [] | [_] => exact .needMore
  | b0 :: b1 :: rest =>
    by_cases hrsv : b0 &&& 0x70 = 0
    · by_cases hmask : b1 &&& 0x80 = 0
      · rw [clientHead, if_neg (not_not.mpr hrsv), if_pos hmask]
        exact .protocol (.unmasked rest hmask)
      · by_cases h16 : b1 &&& 0x7f = 126
        · obtain rfl : b1 = 0xFE := by rw [← second_eq b1 hmask, h16]; rfl
          rw [clientHead_sixteen hrsv hmask h16]
          split_ifs with hshort
          · exact .needMore
          · have hlt := BigEndian.value_lt (rest.take 2)
            rw [List.length_take, Nat.min_eq_left (by omega)] at hlt
            exact found_extended .sixteen hrsv (by omega) hlt
              fun h hform => by rw [Header.lengthBytes, hform]
        · by_cases h64 : b1 &&& 0x7f = 127
          · obtain rfl : b1 = 0xFF := by rw [← second_eq b1 hmask, h64]; rfl
            rw [clientHead_sixtyFour hrsv hmask h64]
            split_ifs with hshort htop
            · exact .needMore
            · have hvalue := mt (top_clear_iff (by omega)).mpr htop
              have hlen : (rest.take 8).length = 8 := by rw [List.length_take]; omega
              have hstop : Stops (b0 :: 0xFF :: (rest.take 8 ++ rest.drop 8)) 1002 :=
                .lengthTop _ h64 hlen (not_lt.mp hvalue)
              rw [List.take_append_drop] at hstop
              exact .protocol hstop
            · exact found_extended .sixtyFour hrsv (by omega)
                ((top_clear_iff (by omega)).mp (not_not.mp htop))
                fun h hform => by rw [Header.lengthBytes, hform]
          · rw [clientHead_seven hrsv hmask (len_lt b1 h16 h64)]
            exact found_seven rest hrsv hmask (len_lt b1 h16 h64)
    · rw [clientHead, if_pos hrsv]
      exact .protocol (.rsv rest hrsv)

/-! ### Frames -/

theorem ClientFrame.length_bytes (f : ClientFrame) :
    f.bytes.length = f.toHeader.bytes.length + 4 + f.len := by
  simp [ClientFrame.bytes, f.length_payload, Nat.add_assoc]

section Behind

variable {h : Header} {rest : Bytes}

theorem length_mask_of_le (hlen : 4 + h.len ≤ rest.length) : (rest.take 4).length = 4 := by
  rw [List.length_take]
  omega

theorem length_masked_of_le (hlen : 4 + h.len ≤ rest.length) :
    (xorMask (rest.take 4) ((rest.drop 4).take h.len)).length = h.len := by
  rw [length_xorMask, List.length_take, List.length_drop]
  omega

/-- The frame behind a header, with its mask and its payload taken from the bytes that follow. -/
def Header.frame (h : Header) (rest : Bytes) (hlen : 4 + h.len ≤ rest.length) : ClientFrame where
  toHeader := h
  mask := ⟨rest.take 4, length_mask_of_le hlen⟩
  payload := xorMask (rest.take 4) ((rest.drop 4).take h.len)
  length_payload := length_masked_of_le hlen

theorem Header.bytes_frame (hlen : 4 + h.len ≤ rest.length) :
    (h.frame rest hlen).bytes ++ (rest.drop 4).drop h.len = h.bytes ++ rest := by
  show h.bytes ++ (rest.take 4 ++ xorMask (rest.take 4) (xorMask (rest.take 4) _)) ++ _ = _
  rw [xorMask_xorMask, List.append_assoc, List.append_assoc, List.take_append_drop,
    List.take_append_drop]

end Behind

/-- A header that is not allowed is turned down whatever follows it. -/
theorem parseClientFrame_of_illegal {h : Header} (hillegal : h.Illegal) (rest : Bytes) :
    parseClientFrame (h.bytes ++ rest) = (.protocol 1002, 0) := by
  rw [parseClientFrame, clientHead_bytes]
  exact if_pos hillegal

/-- **On the bytes of a frame, the frame is found**, whatever follows it. -/
theorem parseClientFrame_bytes {f : ClientFrame} (hlegal : ¬ f.Illegal) (rest : Bytes) :
    parseClientFrame (f.bytes ++ rest) = (dispose f.opcode f.payload, f.bytes.length) := by
  have hlen := f.length_bytes
  have hdrop : (f.bytes ++ rest).drop f.toHeader.bytes.length
      = f.mask.toList ++ (xorMask f.mask.toList f.payload ++ rest) := by
    rw [ClientFrame.bytes, List.append_assoc, List.drop_left, List.append_assoc]
  have hmask : ((f.bytes ++ rest).drop f.toHeader.bytes.length).take 4 = f.mask.toList := by
    rw [hdrop, List.take_left' f.mask.toList_length]
  have hmasked : ((f.bytes ++ rest).drop (f.toHeader.bytes.length + 4)).take f.len
      = xorMask f.mask.toList f.payload := by
    rw [← List.drop_drop, hdrop, List.drop_left' f.mask.toList_length,
      List.take_left' ((length_xorMask _ _).trans f.length_payload)]
  have hhead : clientHead (f.bytes ++ rest)
      = .known f.opcode f.fin f.len f.toHeader.bytes.length := by
    rw [ClientFrame.bytes, List.append_assoc]
    exact clientHead_bytes _ _
  have hlong : ¬ (f.bytes ++ rest).length < f.toHeader.bytes.length + 4 + f.len := by
    rw [List.length_append]
    omega
  rw [parseClientFrame, hhead]
  simp only [if_neg (show ¬ (0x8 ≤ f.opcode ∧ (f.fin = false ∨ 125 < f.len)) from hlegal),
    if_neg hlong, hmask, hmasked, xorMask_xorMask, hlen]

/-- **What the parser finds is in the buffer**: nothing yet, a reason to stop, or a frame. -/
theorem parseClientFrame_cases (buf : Bytes) :
    parseClientFrame buf = (.needMore, 0) ∨
    Stops buf 1002 ∧ parseClientFrame buf = (.protocol 1002, 0) ∨
    ∃ (f : ClientFrame) (rest : Bytes), buf = f.bytes ++ rest ∧ ¬ f.Illegal := by
  have hfound := found_clientHead buf
  rw [parseClientFrame]
  generalize clientHead buf = head at hfound
  cases hfound with
  | needMore => exact .inl rfl
  | protocol h => exact .inr (.inl ⟨h, rfl⟩)
  | known h rest hbuf =>
    by_cases hillegal : h.Illegal
    · refine .inr (.inl ⟨hbuf ▸ .control h rest hillegal, ?_⟩)
      exact if_pos hillegal
    · by_cases hlong : buf.length < h.bytes.length + 4 + h.len
      · refine .inl ?_
        exact (if_neg hillegal).trans (if_pos hlong)
      · refine .inr (.inr ?_)
        rw [hbuf, List.length_append] at hlong
        exact ⟨h.frame rest (by omega), (rest.drop 4).drop h.len,
          hbuf.trans (Header.bytes_frame _).symm, hillegal⟩

/-! ### The parser as a deframer -/

/-- A frame after which the stream goes on, as `pump` sees it. -/
inductive Item where
  | data (payload : Bytes)
  | ping (payload : Bytes)
  | pong
deriving DecidableEq

/-- What a parse comes to, with what follows the frame. -/
def Parsed.verdict (rest : Bytes) : Parsed → Parse UInt8 Item UInt16
  | .needMore => .more
  | .data payload => .item (.data payload) rest
  | .ping payload => .item (.ping payload) rest
  | .pong => .item .pong rest
  | .close code => .stop code
  | .protocol code => .stop code

/-- The verdict of the parser on a buffer. -/
def verdict (buf : Bytes) : Parse UInt8 Item UInt16 :=
  (parseClientFrame buf).1.verdict (buf.drop (parseClientFrame buf).2)

theorem verdict_of_parse {buf : Bytes} {parsed : Parsed} {n : ℕ}
    (h : parseClientFrame buf = (parsed, n)) : verdict buf = parsed.verdict (buf.drop n) := by
  rw [verdict, h]

section Known

variable {buf : Bytes} {opcode : UInt8} {fin : Bool} {len offset : ℕ}

/-- The parser once the header is there. -/
theorem parseClientFrame_of_known (h : clientHead buf = .known opcode fin len offset) :
    parseClientFrame buf = if 0x8 ≤ opcode ∧ (fin = false ∨ 125 < len) then (.protocol 1002, 0)
      else if buf.length < offset + 4 + len then (.needMore, 0)
      else (dispose opcode (xorMask ((buf.drop offset).take 4) ((buf.drop (offset + 4)).take len)),
        offset + 4 + len) := by
  rw [parseClientFrame, h]

end Known

/-- What `pump` sees of a frame that passes. -/
def ClientFrame.item (f : ClientFrame) : Item :=
  if f.opcode = opBin ∨ f.opcode = opCont then .data f.payload
  else if f.opcode = opPing then .ping f.payload
  else .pong

theorem verdict_of_passes {f : ClientFrame} (h : f.Passes) (rest : Bytes) :
    verdict (f.bytes ++ rest) = .item f.item rest := by
  rw [verdict_of_parse (parseClientFrame_bytes h.1 rest), List.drop_left, ClientFrame.item, dispose]
  rcases h.2 with hop | hop | hop | hop <;>
    simp [hop, opBin, opCont, opPing, opPong, Parsed.verdict]

/-- A reason to stop is found, whatever it is. -/
theorem verdict_of_stops {buf : Bytes} {code : UInt16} (h : Stops buf code) :
    verdict buf = .stop code := by
  have hhead : ∀ {buf}, clientHead buf = .protocol 1002 → verdict buf = .stop 1002 := by
    intro buf hhead
    have hparse : parseClientFrame buf = (.protocol 1002, 0) := by rw [parseClientFrame, hhead]
    exact verdict_of_parse hparse
  cases h with
  | rsv rest h =>
    refine hhead ?_
    rw [clientHead, if_pos h]
  | @unmasked b0 b1 rest h =>
    refine hhead ?_
    rw [clientHead, if_pos h, ite_self]
  | @lengthTop b0 b1 len rest hform hlen htop =>
    refine hhead ?_
    by_cases hrsv : b0 &&& 0x70 = 0
    · by_cases hmask : b1 &&& 0x80 = 0
      · rw [clientHead, if_pos hmask, ite_self]
      · have hlong : 8 ≤ (len ++ rest).length := by rw [List.length_append]; omega
        have hset : ¬ (len ++ rest).headD 0 &&& 0x80 = 0 := by
          rw [top_clear_iff hlong, List.take_left' hlen]
          exact not_lt.mpr htop
        rw [clientHead_sixtyFour hrsv hmask hform, if_neg (not_lt.mpr hlong), if_pos hset]
    · rw [clientHead, if_pos hrsv]
  | control h rest hillegal => exact verdict_of_parse (parseClientFrame_of_illegal hillegal rest)
  | unknown f rest hopcode =>
    by_cases hillegal : f.Illegal
    · rw [ClientFrame.bytes, List.append_assoc]
      exact verdict_of_parse (parseClientFrame_of_illegal hillegal _)
    · rw [verdict_of_parse (parseClientFrame_bytes hillegal rest), dispose]
      simp only [List.mem_cons, List.not_mem_nil, or_false, not_or] at hopcode
      simp [hopcode, Parsed.verdict]
  | text f rest hopcode =>
    have hlegal : ¬ f.Illegal := fun h => absurd h.1 (by rw [hopcode]; decide)
    rw [verdict_of_parse (parseClientFrame_bytes hlegal rest), hopcode]
    rfl
  | close f rest hopcode hlegal =>
    rw [verdict_of_parse (parseClientFrame_bytes hlegal rest), hopcode]
    rfl

/-- A complete frame passes or is a reason to stop. -/
theorem ClientFrame.passes_or_stops {f : ClientFrame} (hlegal : ¬ f.Illegal) (rest : Bytes) :
    f.Passes ∨ ∃ code, Stops (f.bytes ++ rest) code := by
  by_cases hknown : f.opcode ∈ [opCont, opText, opBin, opClose, opPing, opPong]
  · simp only [List.mem_cons, List.not_mem_nil, or_false] at hknown
    rcases hknown with hop | hop | hop | hop | hop | hop
    · exact .inl ⟨hlegal, .inr (.inl hop)⟩
    · exact .inr ⟨_, .text f rest hop⟩
    · exact .inl ⟨hlegal, .inl hop⟩
    · exact .inr ⟨_, .close f rest hop hlegal⟩
    · exact .inl ⟨hlegal, .inr (.inr (.inl hop))⟩
    · exact .inl ⟨hlegal, .inr (.inr (.inr hop))⟩
  · exact .inr ⟨_, .unknown f rest hknown⟩

theorem ClientFrame.exists_verdict_stop {f : ClientFrame} (hlegal : ¬ f.Illegal) (hnot : ¬ f.Passes)
    (rest : Bytes) : ∃ code, verdict (f.bytes ++ rest) = .stop code := by
  obtain ⟨code, hstop⟩ := (ClientFrame.passes_or_stops hlegal rest).resolve_left hnot
  exact ⟨code, verdict_of_stops hstop⟩

/-- Every buffer needs more bytes, or begins with a reason to stop, or with a frame that passes. -/
theorem verdict_cases (buf : Bytes) :
    verdict buf = .more ∨ (∃ code, Stops buf code) ∨
      ∃ (f : ClientFrame) (rest : Bytes), f.Passes ∧ buf = f.bytes ++ rest := by
  obtain hmore | ⟨hstop, -⟩ | ⟨f, rest, rfl, hlegal⟩ := parseClientFrame_cases buf
  · exact .inl (verdict_of_parse hmore)
  · exact .inr (.inl ⟨_, hstop⟩)
  · rcases ClientFrame.passes_or_stops hlegal rest with hpasses | hstop
    · exact .inr (.inr ⟨f, rest, hpasses, rfl⟩)
    · exact .inr (.inl hstop)

theorem verdict_eq_item {buf rest : Bytes} {b : Item} (h : verdict buf = .item b rest) :
    ∃ f : ClientFrame, f.Passes ∧ f.item = b ∧ buf = f.bytes ++ rest := by
  obtain hmore | ⟨code, hstop⟩ | ⟨f, rest', hpasses, rfl⟩ := verdict_cases buf
  · exact absurd (hmore.symm.trans h) nofun
  · exact absurd ((verdict_of_stops hstop).symm.trans h) nofun
  · obtain ⟨rfl, rfl⟩ := Parse.item.inj ((verdict_of_passes hpasses rest').symm.trans h)
    exact ⟨f, hpasses, rfl, rfl⟩

theorem verdict_eq_stop {buf : Bytes} {code : UInt16} (h : verdict buf = .stop code) :
    Stops buf code := by
  obtain hmore | ⟨code', hstop⟩ | ⟨f, rest', hpasses, rfl⟩ := verdict_cases buf
  · exact absurd (hmore.symm.trans h) nofun
  · obtain rfl := Parse.stop.inj ((verdict_of_stops hstop).symm.trans h)
    exact hstop
  · exact absurd ((verdict_of_passes hpasses rest').symm.trans h) nofun

theorem Stops.append {buf : Bytes} {code : UInt16} (h : Stops buf code) (more : Bytes) :
    Stops (buf ++ more) code := by
  cases h with
  | rsv rest h => exact .rsv (rest ++ more) h
  | unmasked rest h => exact .unmasked (rest ++ more) h
  | lengthTop rest hform hlen htop =>
    rw [List.cons_append, List.cons_append, List.append_assoc]
    exact .lengthTop (rest ++ more) hform hlen htop
  | control h rest hillegal =>
    rw [List.append_assoc]
    exact .control h (rest ++ more) hillegal
  | unknown f rest hopcode =>
    rw [List.append_assoc]
    exact .unknown f (rest ++ more) hopcode
  | text f rest hopcode =>
    rw [List.append_assoc]
    exact .text f (rest ++ more) hopcode
  | close f rest hopcode hlegal =>
    rw [List.append_assoc]
    exact .close f (rest ++ more) hopcode hlegal

/-- **The parser as a deframer.** It does not change its mind when more bytes arrive, because the
grammar does not. -/
def clientFrames : Deframer UInt8 Item UInt16 where
  parse := verdict
  shrinks h := by
    obtain ⟨f, -, -, rfl⟩ := verdict_eq_item h
    rw [List.length_append, f.length_bytes]
    omega
  item_append ys h := by
    obtain ⟨f, hpasses, rfl, rfl⟩ := verdict_eq_item h
    rw [List.append_assoc]
    exact verdict_of_passes hpasses _
  stop_append ys h := verdict_of_stops ((verdict_eq_stop h).append ys)

/-! ### What a stream comes to -/

theorem verdict_eq_more_iff {buf : Bytes} : verdict buf = .more ↔ Ends buf none := by
  constructor
  · intro h
    refine .eof ?_ fun code hstop => absurd (h.symm.trans (verdict_of_stops hstop)) nofun
    rintro f ⟨rest, rfl⟩
    by_cases hillegal : f.Illegal
    · have hstop : Stops (f.bytes ++ rest) 1002 := by
        rw [ClientFrame.bytes, List.append_assoc]
        exact .control _ _ hillegal
      exact absurd (h.symm.trans (verdict_of_stops hstop)) nofun
    · rcases ClientFrame.passes_or_stops hillegal rest with hpasses | ⟨code, hstop⟩
      · exact absurd (h.symm.trans (verdict_of_passes hpasses rest)) nofun
      · exact absurd (h.symm.trans (verdict_of_stops hstop)) nofun
  · rintro (_ | ⟨hframe, hstop⟩)
    obtain hmore | ⟨code, hcode⟩ | ⟨f, rest, -, rfl⟩ := verdict_cases buf
    · exact hmore
    · exact absurd hcode (hstop code)
    · exact absurd (List.prefix_append _ _) (hframe f)

/-- The reason for which a stream was not read to its end. -/
def reason (stream : Bytes) : Option UInt16 := (clientFrames.drain stream).2.getRight?

theorem ClientFrame.flatten_cons_append (f : ClientFrame) (frames : List ClientFrame)
    (tail : Bytes) : ((f :: frames).map ClientFrame.bytes).flatten ++ tail =
      f.bytes ++ ((frames.map ClientFrame.bytes).flatten ++ tail) := by
  rw [List.map_cons, List.flatten_cons, List.append_assoc]

/-- What comes behind frames that pass comes behind one more. -/
theorem ClientFrame.Passes.exists_cons {f : ClientFrame} (hpasses : f.Passes) {stream : Bytes}
    {P : Bytes → Prop} (h : ∃ (frames : List ClientFrame) (tail : Bytes),
      stream = (frames.map ClientFrame.bytes).flatten ++ tail ∧ (∀ g ∈ frames, g.Passes) ∧
        P tail) :
    ∃ (frames : List ClientFrame) (tail : Bytes),
      f.bytes ++ stream = (frames.map ClientFrame.bytes).flatten ++ tail ∧
        (∀ g ∈ frames, g.Passes) ∧ P tail := by
  obtain ⟨frames, tail, rfl, hall, htail⟩ := h
  exact ⟨f :: frames, tail, (f.flatten_cons_append frames tail).symm,
    List.forall_mem_cons.mpr ⟨hpasses, hall⟩, htail⟩

/-- Frames that pass are drained one by one. -/
theorem drain_frames {frames : List ClientFrame} (h : ∀ f ∈ frames, f.Passes) (tail : Bytes) :
    clientFrames.drain ((frames.map ClientFrame.bytes).flatten ++ tail)
      = (frames.map ClientFrame.item ++ (clientFrames.drain tail).1,
        (clientFrames.drain tail).2) := by
  induction frames with
  | nil => rfl
  | cons f frames ih =>
    have hitem : clientFrames.parse (f.bytes ++ ((frames.map ClientFrame.bytes).flatten ++ tail))
        = .item f.item _ := verdict_of_passes (h f List.mem_cons_self) _
    rw [f.flatten_cons_append, Deframer.drain_item hitem,
      ih fun f hf => h f (List.mem_cons_of_mem _ hf)]
    rfl

/-- **The deframer reads a stream as the grammar does.** -/
theorem drain_of_reading {stream : Bytes} {frames : List ClientFrame} {code : Option UInt16}
    (h : Reading stream frames code) :
    (clientFrames.drain stream).1 = frames.map ClientFrame.item ∧ reason stream = code := by
  obtain ⟨tail, rfl, hpasses, hends⟩ := h
  rw [reason, drain_frames hpasses]
  cases hends with
  | stop hstop =>
    rw [Deframer.drain_stop (d := clientFrames) (verdict_of_stops hstop)]
    exact ⟨List.append_nil _, rfl⟩
  | eof hframe hstop =>
    rw [Deframer.drain_more (d := clientFrames) (verdict_eq_more_iff.mpr (.eof hframe hstop))]
    exact ⟨List.append_nil _, rfl⟩

/-- What the deframer leaves over is what the grammar does. -/
theorem eq_append_of_drain {stream rest : Bytes} {frames : List ClientFrame} {code : Option UInt16}
    (h : Reading stream frames code) (hrest : (clientFrames.drain stream).2 = .inl rest) :
    stream = (frames.map ClientFrame.bytes).flatten ++ rest := by
  obtain ⟨tail, rfl, hpasses, hends⟩ := h
  rw [drain_frames hpasses] at hrest
  cases hends with
  | stop hstop =>
    rw [Deframer.drain_stop (d := clientFrames) (verdict_of_stops hstop)] at hrest
    cases hrest
  | eof hframe hstop =>
    rw [Deframer.drain_more (d := clientFrames) (verdict_eq_more_iff.mpr (.eof hframe hstop))]
      at hrest
    cases hrest
    rfl

/-- Every stream comes to something. -/
theorem exists_reading (stream : Bytes) : ∃ frames code, Reading stream frames code := by
  induction stream using clientFrames.drain_induction with
  | more xs h => exact ⟨[], none, xs, rfl, nofun, verdict_eq_more_iff.mp h⟩
  | stop xs code h => exact ⟨[], some code, xs, rfl, nofun, .stop (verdict_eq_stop h)⟩
  | item xs b rest h ih =>
    obtain ⟨f, hpasses, -, rfl⟩ := verdict_eq_item h
    obtain ⟨frames, code, tail, rfl, hall, hends⟩ := ih
    exact ⟨f :: frames, code, tail, (f.flatten_cons_append frames tail).symm,
      List.forall_mem_cons.mpr ⟨hpasses, hall⟩, hends⟩

end Ws

end Aiomsg
