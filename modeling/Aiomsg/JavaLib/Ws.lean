import Aiomsg.Lib.TwosComplement
import Aiomsg.Ws.ReadHead
import Aiomsg.Ws.Stream

/-!
# The Java adapter reads

`Framed.fillOneFrame` of `java-lib/src/main/java/aiomsg/Ws.java`, on the stream of one peer.
Whatever is written goes out, unless the stream is broken; a frame is put together as in
`serverFrame` of the first adapter.

The checks of a header are made on a length of 64 bits, and the payload is read with that length
cast to an `int`. A negative one throws. One that comes out as a small number is taken for the
length: the call returns with fewer bytes read than the frame has, and the next call takes the rest
of the payload for frames. `maxArray` is the largest array there is memory for.

## Scope

A call of `fillOneFrame` is followed from a frame boundary on. Where it has taken too few bytes of a
frame, the next call is no longer at one, and nothing is said of it but that it is reached.
`maxArray` stands for the heap: to ask for a longer array is an `OutOfMemoryError`.

## Main results

* `fillOneFrame_frame`, `fillSpec_fillOneFrame` — what one call does, in terms of the grammar
* `Narrowed` — the streams in which a length is cut where a header is expected
* `readsFrames_iff` — on all others, and only there, what a call takes off is one frame
-/

namespace Aiomsg

namespace JavaLib

open Ws Protocol TwosComplement

/-- What a call comes to other than a result. -/
inductive Stop where
  /-- The end of the stream in front of a frame. -/
  | closed
  /-- `EOFException`. -/
  | eof
  /-- An `IOException` of the connection. -/
  | io
  | blocked
  | negativeArraySize
  | outOfMemory
  /-- `fail(code)`. -/
  | fail (code : UInt16)
deriving DecidableEq

/-- For want of bytes a call blocks, or throws, or reports the end. -/
def Stop.Short : Behind → Stop → Prop
  | .silence, e => e = .blocked
  | .eof, e => e = .closed ∨ e = .eof
  | .broken, e => e = .io

/-- `n` bytes, one after another or at once, with `atEnd` for the end of the stream. -/
def readBytes (atEnd : Stop) (n : ℕ) (s : Blocking) : Except Stop (Bytes × Blocking) :=
  if n ≤ s.sent.length then .ok (s.sent.take n, s.skip n)
  else
    match s.behind with
    | .silence => .error .blocked
    | .eof => .error atEnd
    | .broken => .error .io

/-- `readFully`. -/
def readFully (maxArray : ℕ) (n : ℤ) (s : Blocking) : Except Stop (Bytes × Blocking) :=
  if n < 0 then .error .negativeArraySize
  else if maxArray < n.toNat then .error .outOfMemory
  else readBytes .eof n.toNat s

/-- `fillOneFrame` up to where the frame is read: its opcode and its payload. -/
def nextFrame (maxArray : ℕ) (s : Blocking) : Except Stop (UInt8 × Bytes × Blocking) := do
  let (opcode, fin, len, s) ← readHead (readBytes .closed) (readBytes .eof) .fail s
  if 0x8 ≤ opcode ∧ (fin = false ∨ 125 < len) then throw (.fail 1002) -- control frame limits
  else
    let (mask, s) ← readFully maxArray 4 s
    let (payload, s) ← readFully maxArray (wrap 32 len) s
    return (opcode, xorMask mask payload, s)

/-- `Framed`, with what it has written. `rawIn` is what the peer has still to send; `leftover` is
the payload of the last data frame, which is replaced as a whole by the next one. -/
structure Framed where
  rawIn : Blocking
  /-- Unmasked payload not yet read out. -/
  leftover : Bytes
  leftoverPos : ℕ
  written : Bytes
  /-- Writes throw. -/
  outBroken : Bool
  closeSent : Bool

/-- What `fillOneFrame` comes to. -/
inductive Fill where
  | returned (more : Bool)
  | threw (e : Stop)
  | blocked
deriving DecidableEq

namespace Framed

def sendClose (f : Framed) (code : UInt16) : Framed :=
  if f.closeSent then f
  else if f.outBroken then { f with closeSent := true } -- peer already gone
  else
    { f with closeSent := true, written := f.written ++ serverFrame opClose (toBeBytes code) }

def fillOneFrame (maxArray : ℕ) (f : Framed) : Fill × Framed :=
  match nextFrame maxArray f.rawIn with
  | .error .blocked => (.blocked, f)
  | .error .closed => (.returned false, f)
  | .error (.fail code) => (.returned false, f.sendClose code)
  | .error e => (.threw e, f)
  | .ok (opcode, payload, rawIn) =>
    let f := { f with rawIn := rawIn }
    if opcode = opBin ∨ opcode = opCont then
      (.returned true, { f with leftover := payload, leftoverPos := 0 })
    else if opcode = opPing then
      if f.outBroken then (.threw .io, f)
      else (.returned true, { f with written := f.written ++ serverFrame opPong payload })
    else if opcode = opPong then (.returned true, f)
    else if opcode = opText then (.returned false, f.sendClose 1003)
    else if opcode = opClose then (.returned false, f.sendClose (closeCode payload))
    else (.returned false, f.sendClose 1002)

end Framed

/-! ### One frame -/

theorem reads_readBytes {atEnd : Stop} (h : atEnd = .closed ∨ atEnd = .eof) :
    Blocking.Reads Stop.Short (readBytes atEnd) := by
  constructor
  · intro n s hn
    rw [readBytes, if_pos hn]
  · intro n s hn
    rw [readBytes, if_neg (Nat.not_le.mpr hn)]
    cases s.behind with
    | silence => exact ⟨_, rfl, rfl⟩
    | broken => exact ⟨_, rfl, rfl⟩
    | eof => exact ⟨_, rfl, h⟩

theorem readFully_of_le {maxArray n : ℕ} {s : Blocking} (hroom : n ≤ maxArray)
    (hn : n ≤ s.sent.length) : readFully maxArray n s = .ok (s.sent.take n, s.skip n) := by
  rw [readFully, if_neg (by omega), Int.toNat_natCast, if_neg (by omega), readBytes, if_pos hn]

/-- A read that succeeds has read as many bytes as it was asked for. -/
theorem readFully_ok {maxArray : ℕ} {n : ℤ} {s s' : Blocking} {bs : Bytes}
    (h : readFully maxArray n s = .ok (bs, s')) :
    0 ≤ n ∧ n.toNat ≤ maxArray ∧ n.toNat ≤ s.sent.length ∧ bs = s.sent.take n.toNat ∧
      s' = s.skip n.toNat := by
  rw [readFully] at h
  split_ifs at h with hneg hroom
  rw [readBytes] at h
  split_ifs at h with hn
  · cases h
    exact ⟨Int.not_lt.mp hneg, Nat.le_of_not_lt hroom, hn, rfl, rfl⟩
  · cases hbehind : s.behind <;> rw [hbehind] at h <;> cases h

/-- What is read of the payload: the length that is left of the header's in an `int`. -/
def narrow (len : ℕ) : ℤ := wrap 32 len

theorem narrow_of_short {len : ℕ} (h : len < 2 ^ 31) : narrow len = len :=
  wrap_of_fits (by omega) (by omega)

/-- A length that comes out of the cast as no negative number is its low 31 bits. -/
theorem narrow_nonneg_iff {len : ℕ} : 0 ≤ narrow len ↔ len % 2 ^ 32 < 2 ^ 31 := by
  have hlow := le_wrap 32 (len : ℤ)
  have hhigh := wrap_lt 32 (len : ℤ)
  have hmod := wrap_emod 32 (len : ℤ)
  rw [narrow]
  omega

theorem narrow_toNat {len : ℕ} (h : 0 ≤ narrow len) : (narrow len).toNat = len % 2 ^ 32 := by
  have hhigh := wrap_lt 32 (len : ℤ)
  have hmod := wrap_emod 32 (len : ℤ)
  rw [narrow] at h ⊢
  omega

/-- What is there for a call to succeed behind a header: room for the arrays, the mask, and as many
bytes as the narrowed length asks for. -/
structure Enough (maxArray len : ℕ) (rest : Bytes) : Prop where
  mask : 4 ≤ maxArray
  nonneg : 0 ≤ narrow len
  room : (narrow len).toNat ≤ maxArray
  bytes : 4 + (narrow len).toNat ≤ rest.length

theorem nextFrame_of_known {maxArray : ℕ} {s : Blocking} {h : Header} {rest : Bytes}
    (hsent : s.sent = h.bytes ++ rest) : nextFrame maxArray s =
      if 0x8 ≤ h.opcode ∧ (h.fin = false ∨ 125 < h.len) then .error (.fail 1002)
      else (readFully maxArray 4 (s.skip h.bytes.length)).bind fun r =>
        (readFully maxArray (narrow h.len) r.2).bind fun r' =>
          .ok (h.opcode, xorMask r.1 r'.1, r'.2) := by
  have hknown : clientHead s.sent = .known h.opcode h.fin h.len h.bytes.length := by
    rw [hsent]
    exact clientHead_bytes h rest
  have hspec := headSpec_readHead (reads_readBytes (.inl rfl)) (reads_readBytes (.inr rfl))
    Stop.fail s
  rw [nextFrame]
  generalize readHead (readBytes .closed) (readBytes .eof) Stop.fail s = r at hspec
  cases hspec with
  | starved _ hhead => exact absurd (hknown.symm.trans hhead) nofun
  | fail hhead => exact absurd (hknown.symm.trans hhead) nofun
  | known hhead =>
    rw [hknown] at hhead
    cases hhead
    rfl

/-- Behind a header that passes its checks, with enough there, a frame is read. -/
theorem nextFrame_of_enough (maxArray : ℕ) {s : Blocking} {h : Header} {rest : Bytes}
    (hsent : s.sent = h.bytes ++ rest) (hlegal : ¬ h.Illegal)
    (henough : Enough maxArray h.len rest) :
    nextFrame maxArray s = .ok (h.opcode,
      xorMask (rest.take 4) ((rest.drop 4).take (narrow h.len).toNat),
      ⟨rest.drop (4 + (narrow h.len).toNat), s.behind⟩) := by
  obtain ⟨hmask, hnonneg, hroom, hbytes⟩ := henough
  have hchecks : ¬ (0x8 ≤ h.opcode ∧ (h.fin = false ∨ 125 < h.len)) := hlegal
  have hrest : (s.skip h.bytes.length).sent = rest := by
    rw [Blocking.skip_sent, hsent, List.drop_left]
  obtain ⟨n, hn⟩ := Int.eq_ofNat_of_zero_le hnonneg
  rw [hn, Int.toNat_natCast] at hroom hbytes ⊢
  have hfour : readFully maxArray 4 (s.skip h.bytes.length)
      = .ok (rest.take 4, (s.skip h.bytes.length).skip 4) := by
    rw [← hrest]
    exact readFully_of_le (n := 4) hmask (by rw [hrest]; omega)
  have hafter : ((s.skip h.bytes.length).skip 4).sent = rest.drop 4 := by
    rw [Blocking.skip_sent, hrest]
  have hpayload : readFully maxArray n ((s.skip h.bytes.length).skip 4)
      = .ok ((rest.drop 4).take n, ((s.skip h.bytes.length).skip 4).skip n) := by
    rw [← hafter]
    exact readFully_of_le hroom (by rw [hafter, List.length_drop]; omega)
  rw [nextFrame_of_known hsent, if_neg hchecks, hfour, Except.bind, hn, hpayload]
  have hskip : ((s.skip h.bytes.length).skip 4).skip n = ⟨rest.drop (4 + n), s.behind⟩ := by
    rw [Blocking.skip_skip, Blocking.skip, hrest]
    rfl
  rw [← hskip]
  rfl

/-- **A frame is read only behind a header that passes its checks, with enough there.** -/
theorem nextFrame_ok {maxArray : ℕ} {s s' : Blocking} {opcode : UInt8} {payload : Bytes}
    (hok : nextFrame maxArray s = .ok (opcode, payload, s')) :
    ∃ (h : Header) (rest : Bytes), s.sent = h.bytes ++ rest ∧ ¬ h.Illegal ∧
      Enough maxArray h.len rest ∧ opcode = h.opcode := by
  have hspec := headSpec_readHead (reads_readBytes (.inl rfl)) (reads_readBytes (.inr rfl))
    Stop.fail s
  have hfound := found_clientHead s.sent
  have hstart := hok
  rw [nextFrame] at hstart
  generalize readHead (readBytes .closed) (readBytes .eof) Stop.fail s = r at hspec hstart
  cases hspec with
  | starved => cases hstart
  | fail => cases hstart
  | known hhead =>
    rw [hhead] at hfound
    cases hfound with
    | known h rest hsent =>
      refine ⟨h, rest, hsent, ?_⟩
      rw [nextFrame_of_known hsent] at hok
      split_ifs at hok with hillegal
      have hrest : (s.skip h.bytes.length).sent = rest := by
        rw [Blocking.skip_sent, hsent, List.drop_left]
      rcases hmask : readFully maxArray 4 (s.skip h.bytes.length) with e | ⟨mask, s₁⟩
      · rw [hmask] at hok
        cases hok
      rcases hpayload : readFully maxArray (narrow h.len) s₁ with e | ⟨masked, s₂⟩
      · rw [hmask, Except.bind, hpayload] at hok
        cases hok
      rw [hmask, Except.bind, hpayload] at hok
      cases hok
      obtain ⟨-, hroom₁, hfour, -, rfl⟩ := readFully_ok hmask
      obtain ⟨hnonneg, hroom₂, hbytes, -, -⟩ := readFully_ok hpayload
      rw [hrest] at hfour
      rw [Blocking.skip_sent, hrest, List.length_drop] at hbytes
      exact ⟨hillegal, ⟨hroom₁, hnonneg, hroom₂, by omega⟩, rfl⟩

/-! ### One call -/

/-- A frame that a call gets through: it passes, there is room for it, and its length is an `int`.
-/
structure Framed.Readable (maxArray : ℕ) (f : Framed) (g : ClientFrame) : Prop where
  passes : g.Passes
  mask : 4 ≤ maxArray
  room : g.len ≤ maxArray
  short : g.len < 2 ^ 31
  heard : g.opcode = opPing → f.outBroken = false

/-- A call has taken one frame off the stream, with its payload as the client means it. -/
structure Framed.Takes (f f' : Framed) (g : ClientFrame) : Prop where
  passes : g.Passes
  sent : f.rawIn.sent = g.bytes ++ f'.rawIn.sent
  data : g.opcode = opBin ∨ g.opcode = opCont → f'.leftover = g.payload ∧ f'.leftoverPos = 0
  control : ¬ (g.opcode = opBin ∨ g.opcode = opCont) →
    f'.leftover = f.leftover ∧ f'.leftoverPos = f.leftoverPos
  written : f'.written = f.written ++ g.answer
  outBroken : f'.outBroken = f.outBroken

/-- A header of data with a length that is no `int`, but whose low 32 bits are a number of bytes
that there is room for and that follow. -/
def NarrowedAt (maxArray : ℕ) (buf : Bytes) : Prop :=
  ∃ (h : Header) (rest : Bytes), buf = h.bytes ++ rest ∧ (h.opcode = opBin ∨ h.opcode = opCont) ∧
    2 ^ 31 ≤ h.len ∧ h.len % 2 ^ 32 < 2 ^ 31 ∧ 4 ≤ maxArray ∧ h.len % 2 ^ 32 ≤ maxArray ∧
    4 + h.len % 2 ^ 32 ≤ rest.length

theorem legal_of_data {h : Header} (hdata : h.opcode = opBin ∨ h.opcode = opCont) :
    ¬ h.Illegal := by
  rintro ⟨hcontrol, -⟩
  rcases hdata with hop | hop
  · rw [hop] at hcontrol
    exact absurd hcontrol (by decide)
  · rw [hop] at hcontrol
    exact absurd hcontrol (by decide)

namespace Framed

variable {maxArray : ℕ} {f f' : Framed}

/-- **A frame that can be got through is taken.** -/
theorem fillOneFrame_frame {g : ClientFrame} {rest : Bytes} (hsent : f.rawIn.sent = g.bytes ++ rest)
    (h : f.Readable maxArray g) :
    ∃ f', f.fillOneFrame maxArray = (.returned true, f') ∧ f.Takes f' g ∧
      f'.rawIn.sent = rest := by
  obtain ⟨hpasses, hmask, hroom, hshort, hheard⟩ := h
  have hnarrow := narrow_of_short hshort
  have hlen := g.length_payload
  rw [ClientFrame.bytes, List.append_assoc, List.append_assoc] at hsent
  have htake : (g.mask.toList ++ (xorMask g.mask.toList g.payload ++ rest)).take 4
      = g.mask.toList := List.take_left' g.mask.toList_length
  have hdrop : (g.mask.toList ++ (xorMask g.mask.toList g.payload ++ rest)).drop 4
      = xorMask g.mask.toList g.payload ++ rest := List.drop_left' g.mask.toList_length
  have hnext := nextFrame_of_enough maxArray hsent hpasses.1 (by
    refine ⟨hmask, by omega, by omega, ?_⟩
    rw [List.length_append, List.length_append, length_xorMask, g.mask.toList_length]
    omega)
  have hbody : (xorMask g.mask.toList g.payload ++ rest).take g.len
      = xorMask g.mask.toList g.payload := List.take_left' ((length_xorMask _ _).trans hlen)
  have htail : (xorMask g.mask.toList g.payload ++ rest).drop g.len = rest :=
    List.drop_left' ((length_xorMask _ _).trans hlen)
  rw [hnarrow, Int.toNat_natCast, ← List.drop_drop, htake, hdrop, hbody, htail, xorMask_xorMask]
    at hnext
  have hwhole : f.rawIn.sent = g.bytes ++ rest := by
    rw [hsent, ClientFrame.bytes, List.append_assoc, List.append_assoc]
  have hanswer := g.answer_item hpasses
  rw [ClientFrame.item] at hanswer
  rw [fillOneFrame, hnext]
  dsimp only
  split_ifs with hdata hping hbroken hpong htext hclose
  · refine ⟨_, rfl, ⟨hpasses, hwhole, fun _ => ⟨rfl, rfl⟩, fun hnot => absurd hdata hnot, ?_, rfl⟩,
      rfl⟩
    rw [if_pos hdata] at hanswer
    rw [← hanswer]
    exact (List.append_nil _).symm
  · exact absurd hbroken (by rw [hheard hping]; exact Bool.false_ne_true)
  · refine ⟨_, rfl, ⟨hpasses, hwhole, fun hyes => absurd hyes hdata, fun _ => ⟨rfl, rfl⟩, ?_, rfl⟩,
      rfl⟩
    rw [if_neg hdata, if_pos hping] at hanswer
    rw [← hanswer]
    rfl
  · refine ⟨_, rfl, ⟨hpasses, hwhole, fun hyes => absurd hyes hdata, fun _ => ⟨rfl, rfl⟩, ?_, rfl⟩,
      rfl⟩
    rw [if_neg hdata, if_neg hping] at hanswer
    rw [← hanswer]
    exact (List.append_nil _).symm
  all_goals
    rcases hpasses.2 with hop | hop | hop | hop
    · exact absurd (.inl hop) hdata
    · exact absurd (.inr hop) hdata
    · exact absurd hop hping
    · exact absurd hop hpong

/-- **A call that returns true has met a frame that can be got through, or a length that was cut.**
-/
theorem fillOneFrame_true (h : f.fillOneFrame maxArray = (.returned true, f')) :
    (∃ g rest, f.rawIn.sent = g.bytes ++ rest ∧ f.Readable maxArray g) ∨
      NarrowedAt maxArray f.rawIn.sent := by
  rw [fillOneFrame] at h
  rcases hnext : nextFrame maxArray f.rawIn with e | ⟨opcode, payload, rawIn⟩
  · rw [hnext] at h
    cases e <;> cases h
  rw [hnext] at h
  obtain ⟨hd, rest, hsent, hlegal, ⟨hmask, hnonneg, hroom, hbytes⟩, rfl⟩ := nextFrame_ok hnext
  rw [narrow_toNat hnonneg] at hroom hbytes
  have hknown : (hd.opcode = opBin ∨ hd.opcode = opCont) ∨ hd.opcode = opPong ∨
      hd.opcode = opPing ∧ f.outBroken = false := by
    dsimp only at h
    split_ifs at h with hdata hping hbroken hpong
    · exact .inl hdata
    · cases h
    · exact .inr (.inr ⟨hping, Bool.eq_false_iff.mpr hbroken⟩)
    · exact .inr (.inl hpong)
    all_goals cases h
  by_cases hlong : 2 ^ 31 ≤ hd.len
  · right
    refine ⟨hd, rest, hsent, hknown.resolve_right ?_, hlong, narrow_nonneg_iff.mp hnonneg, hmask,
      hroom, hbytes⟩
    -- a control frame with such a length has been turned down
    intro hcontrol
    refine hlegal ⟨?_, .inr (by omega)⟩
    rcases hcontrol with hop | ⟨hop, -⟩
    · rw [hop]
      decide
    · rw [hop]
      decide
  · left
    rw [Nat.mod_eq_of_lt (by omega)] at hroom hbytes
    refine ⟨hd.frame rest hbytes, (rest.drop 4).drop hd.len,
      hsent.trans (Header.bytes_frame hbytes).symm,
      ⟨⟨hlegal, ?_⟩, hmask, hroom, Nat.lt_of_not_le hlong, ?_⟩⟩
    · rcases hknown with (hop | hop) | hop | ⟨hop, -⟩
      · exact .inl hop
      · exact .inr (.inl hop)
      · exact .inr (.inr (.inr hop))
      · exact .inr (.inr (.inl hop))
    · intro hping
      change hd.opcode = opPing at hping
      rcases hknown with (hop | hop) | hop | ⟨-, hheard⟩
      · exact absurd (hping.symm.trans hop) (by decide)
      · exact absurd (hping.symm.trans hop) (by decide)
      · exact absurd (hping.symm.trans hop) (by decide)
      · exact hheard

/-- What is asked of one call: if it returns true, it has taken one frame. -/
def TakesOne (maxArray : ℕ) (f : Framed) : Prop :=
  ∀ f', f.fillOneFrame maxArray = (.returned true, f') → ∃ g, f.Takes f' g

theorem takesOne_of_not_narrowedAt (h : ¬ NarrowedAt maxArray f.rawIn.sent) :
    f.TakesOne maxArray := by
  intro f' hfill
  obtain ⟨g, rest, hsent, hreadable⟩ := (fillOneFrame_true hfill).resolve_right h
  obtain ⟨f₁, hfill₁, htakes, -⟩ := fillOneFrame_frame hsent hreadable
  obtain rfl : f' = f₁ := (Prod.mk.inj (hfill.symm.trans hfill₁)).2
  exact ⟨g, htakes⟩

/-- **Where the length is cut, less than a frame is taken.** -/
theorem not_takesOne_of_narrowedAt (h : NarrowedAt maxArray f.rawIn.sent) :
    ¬ f.TakesOne maxArray := by
  obtain ⟨hd, rest, hsent, hdata, hlong, hlow, hmask, hroom, hbytes⟩ := h
  have hnonneg := narrow_nonneg_iff.mpr hlow
  have hnarrow := narrow_toNat hnonneg
  have hnext := nextFrame_of_enough maxArray hsent (legal_of_data hdata)
    ⟨hmask, hnonneg, by omega, by omega⟩
  intro htakes
  have hfill : ∃ f', f.fillOneFrame maxArray = (.returned true, f') ∧
      f'.rawIn.sent = rest.drop (4 + hd.len % 2 ^ 32) := by
    rw [fillOneFrame, hnext]
    dsimp only
    rw [if_pos hdata, hnarrow]
    exact ⟨_, rfl, rfl⟩
  obtain ⟨f', hcall, hafter⟩ := hfill
  obtain ⟨g, htake⟩ := htakes f' hcall
  -- the frame that was taken would have the header that is there, and all of its length
  have hg : clientHead f.rawIn.sent = .known g.opcode g.fin g.len g.toHeader.bytes.length := by
    rw [htake.sent, ClientFrame.bytes, List.append_assoc]
    exact clientHead_bytes g.toHeader _
  have hh : clientHead f.rawIn.sent = .known hd.opcode hd.fin hd.len hd.bytes.length := by
    rw [hsent]
    exact clientHead_bytes hd rest
  have hlen : g.len = hd.len ∧ g.toHeader.bytes.length = hd.bytes.length := by
    have hsame := Head.known.inj (hg.symm.trans hh)
    exact ⟨hsame.2.2.1, hsame.2.2.2⟩
  have hcount := congrArg List.length (hsent.symm.trans htake.sent)
  rw [hafter, List.length_append, List.length_append, g.length_bytes, List.length_drop] at hcount
  omega

/-! ### Calls one after another -/

/-- `n` calls, if all of them return true. -/
def after (maxArray : ℕ) : ℕ → Framed → Option Framed
  | 0, f => some f
  | n + 1, f =>
    match f.fillOneFrame maxArray with
    | (.returned true, f') => after maxArray n f'
    | _ => none

theorem after_succ {n : ℕ} (h : f.fillOneFrame maxArray = (.returned true, f')) :
    after maxArray (n + 1) f = after maxArray n f' := by
  rw [after, h]

theorem exists_of_after_succ {n : ℕ} {f'' : Framed} (h : after maxArray (n + 1) f = some f'') :
    ∃ f', f.fillOneFrame maxArray = (.returned true, f') ∧ after maxArray n f' = some f'' := by
  rw [after] at h
  split at h
  · exact ⟨_, ‹_›, h⟩
  · cases h

/-- Behind frames that can be got through, there is a length that is cut. -/
def Narrowed (maxArray : ℕ) (f : Framed) : Prop :=
  ∃ (frames : List ClientFrame) (tail : Bytes),
    f.rawIn.sent = (frames.map ClientFrame.bytes).flatten ++ tail ∧
      (∀ g ∈ frames, f.Readable maxArray g) ∧ NarrowedAt maxArray tail

theorem Readable.of_takes {g g' : ClientFrame} (h : f'.Readable maxArray g')
    (htakes : f.Takes f' g) :
    f.Readable maxArray g' :=
  ⟨h.passes, h.mask, h.room, h.short, fun hping => htakes.outBroken ▸ h.heard hping⟩

theorem Readable.after_takes {g g' : ClientFrame} (h : f.Readable maxArray g')
    (htakes : f.Takes f' g) : f'.Readable maxArray g' :=
  ⟨h.passes, h.mask, h.room, h.short, fun hping => htakes.outBroken.trans (h.heard hping)⟩

/-- What is asked of the calls on a stream: what they have taken off are frames, and each takes one
more. -/
def ReadsFrames (maxArray : ℕ) (f : Framed) : Prop :=
  ∀ n f', after maxArray n f = some f' →
    (∃ frames : List ClientFrame, frames.length = n ∧ (∀ g ∈ frames, g.Passes) ∧
      f.rawIn.sent = (frames.map ClientFrame.bytes).flatten ++ f'.rawIn.sent) ∧
    f'.TakesOne maxArray

/-- The calls get to whatever comes behind frames that can be got through. -/
theorem exists_after {frames : List ClientFrame} {tail : Bytes}
    (hsent : f.rawIn.sent = (frames.map ClientFrame.bytes).flatten ++ tail)
    (hall : ∀ g ∈ frames, f.Readable maxArray g) :
    ∃ f', after maxArray frames.length f = some f' ∧ f'.rawIn.sent = tail := by
  induction frames generalizing f with
  | nil => exact ⟨f, rfl, hsent⟩
  | cons g frames ih =>
    rw [g.flatten_cons_append] at hsent
    obtain ⟨f₁, hfill, htakes, hrest⟩ := fillOneFrame_frame hsent (hall g List.mem_cons_self)
    obtain ⟨f', hafter, htail⟩ := ih hrest fun g' hg' =>
      (hall g' (List.mem_cons_of_mem _ hg')).after_takes htakes
    exact ⟨f', (after_succ hfill).trans hafter, htail⟩

theorem Narrowed.cons {g : ClientFrame} {rest : Bytes} (hreadable : f.Readable maxArray g)
    (hsent : f.rawIn.sent = g.bytes ++ rest) (htakes : f.Takes f' g) (hrest : f'.rawIn.sent = rest)
    (h : f'.Narrowed maxArray) : f.Narrowed maxArray := by
  obtain ⟨frames, tail, htail, hall, hat⟩ := h
  refine ⟨g :: frames, tail, ?_, ?_, hat⟩
  · rw [hsent, ← hrest, htail, g.flatten_cons_append]
  · intro g' hg'
    rcases List.mem_cons.mp hg' with rfl | hg'
    · exact hreadable
    · exact (hall g' hg').of_takes htakes

/-- **What the calls take off are frames**, as long as no length is cut. -/
theorem readsFrames_of_not_narrowed (h : ¬ f.Narrowed maxArray) : f.ReadsFrames maxArray := by
  intro n
  induction n generalizing f with
  | zero =>
    intro f' hafter
    obtain rfl := Option.some.inj hafter
    refine ⟨⟨[], rfl, nofun, rfl⟩, takesOne_of_not_narrowedAt fun hat => h ?_⟩
    exact ⟨[], _, rfl, nofun, hat⟩
  | succ n ih =>
    intro f' hafter
    obtain ⟨f₁, hfill, hrest⟩ := exists_of_after_succ hafter
    have hnot : ¬ NarrowedAt maxArray f.rawIn.sent := fun hat => h ⟨[], _, rfl, nofun, hat⟩
    obtain ⟨g, rest, hsent, hreadable⟩ := (fillOneFrame_true hfill).resolve_right hnot
    obtain ⟨f₂, hfill₂, htakes, hrest₂⟩ := fillOneFrame_frame hsent hreadable
    obtain rfl : f₁ = f₂ := (Prod.mk.inj (hfill.symm.trans hfill₂)).2
    obtain ⟨⟨frames, hlen, hall, htail⟩, htake⟩ :=
      ih (fun hnarrowed => h (hnarrowed.cons hreadable hsent htakes hrest₂)) f' hrest
    refine ⟨⟨g :: frames, ?_, ?_, ?_⟩, htake⟩
    · rw [List.length_cons, hlen]
    · intro g' hg'
      rcases List.mem_cons.mp hg' with rfl | hg'
      · exact hreadable.passes
      · exact hall g' hg'
    · rw [hsent, ← hrest₂, htail, g.flatten_cons_append]

end Framed

/-- **The calls take frames off the stream if and only if no length on the way is cut.** -/
theorem readsFrames_iff (maxArray : ℕ) (f : Framed) :
    f.ReadsFrames maxArray ↔ ¬ f.Narrowed maxArray := by
  constructor
  · rintro hreads ⟨frames, tail, hsent, hall, hat⟩
    obtain ⟨f', hafter, htail⟩ := Framed.exists_after hsent hall
    exact Framed.not_takesOne_of_narrowedAt (htail ▸ hat) (hreads _ f' hafter).2
  · exact Framed.readsFrames_of_not_narrowed

/-- A binary frame of `2 ^ 32 + 2` bytes, of which two have come, on a machine with the largest
arrays there are. -/
theorem fillOneFrame_cuts : ¬ ∀ (maxArray : ℕ) (f : Framed), f.ReadsFrames maxArray := by
  intro h
  refine Framed.not_takesOne_of_narrowedAt ?_ ((h (2 ^ 31 - 1)
    ⟨⟨[0x82, 0xFF, 0, 0, 0, 1, 0, 0, 0, 2, 0, 0, 0, 0, 5, 6], .silence⟩,
      [], 0, [], false, false⟩) 0 _ rfl).2
  exact ⟨⟨true, opBin, by decide, .sixtyFour, 2 ^ 32 + 2, by decide⟩, [0, 0, 0, 0, 5, 6],
    by decide, .inl rfl, by decide, by decide, by decide, by decide, by decide⟩

end JavaLib

end Aiomsg
