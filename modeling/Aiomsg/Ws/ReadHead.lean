import Aiomsg.Lib.Blocking
import Aiomsg.Ws.Parse

/-!
# The front of a frame, read off a connection

`readNextFrame` in `golang-lib/ws.go` and `fillOneFrame` in `java-lib/src/main/java/aiomsg/Ws.java`
begin alike. They do not look at a buffer: they read two bytes, decide, and read the rest of the
length if it has one, waiting for each piece. `readHead` is that part. How a read is made and how it
fails is the port's own, and so is the way a call fails with a close code.

## Scope

A piecewise reader may decide earlier than a parser that waits for the whole front: it turns down a
reserved bit when it has two bytes. What is compared is the decision, given all that the peer sends.

## Main results

* `headSpec_readHead` — piece by piece one finds out what `clientHead` says of all that was sent
-/

namespace Aiomsg

namespace Ws

section ReadHead

variable {ε : Type} (first next : ℕ → Blocking → Except ε (Bytes × Blocking))
  (fail : UInt16 → ε)

/-- What is made of the first two bytes. -/
def readRest (b0 b1 : UInt8) (s : Blocking) : Except ε (UInt8 × Bool × ℕ × Blocking) :=
  if b0 &&& 0x70 ≠ 0 then throw (fail 1002) -- RSV bits set
  else
    let opcode := b0 &&& 0x0f
    let fin := decide (b0 &&& 0x80 ≠ 0)
    if b1 &&& 0x80 = 0 then throw (fail 1002) -- client frames MUST be masked
    else
      let len := (b1 &&& 0x7f).toNat
      if len = 126 then do
        let (ext, s) ← next 2 s
        return (opcode, fin, BigEndian.value ext, s)
      else if len = 127 then do
        let (ext, s) ← next 8 s
        if ext.headD 0 &&& 0x80 ≠ 0 then throw (fail 1002) -- 64-bit length MSB must be 0
        return (opcode, fin, BigEndian.value ext, s)
      else return (opcode, fin, len, s)

/-- The opcode, the FIN bit, the length, and what follows. -/
def readHead (s : Blocking) : Except ε (UInt8 × Bool × ℕ × Blocking) := do
  let (h, s) ← first 2 s
  readRest next fail (h.getD 0 0) (h.getD 1 0) s

variable {first next fail} {short : Behind → ε → Prop} {b0 b1 : UInt8} {s : Blocking}

/-- What comes of the front of a frame, in terms of all that was sent. -/
inductive HeadSpec (short : Behind → ε → Prop) (fail : UInt16 → ε) (s : Blocking) :
    Except ε (UInt8 × Bool × ℕ × Blocking) → Prop
  | starved {e : ε} (h : short s.behind e) (hhead : clientHead s.sent = .needMore) :
      HeadSpec short fail s (.error e)
  | fail {code : UInt16} (hhead : clientHead s.sent = .protocol code) :
      HeadSpec short fail s (.error (fail code))
  | known {opcode : UInt8} {fin : Bool} {len offset : ℕ}
      (hhead : clientHead s.sent = .known opcode fin len offset) :
      HeadSpec short fail s (.ok (opcode, fin, len, s.skip offset))

theorem readRest_sixteen (hrsv : b0 &&& 0x70 = 0) (hmask : b1 &&& 0x80 ≠ 0)
    (hlen : b1 &&& 0x7f = 126) : readRest next fail b0 b1 s = (next 2 s).bind fun r =>
      .ok (b0 &&& 0x0f, decide (b0 &&& 0x80 ≠ 0), BigEndian.value r.1, r.2) := by
  rw [readRest, if_neg (not_not.mpr hrsv), if_neg hmask]
  simp only [hlen]
  rfl

theorem readRest_sixtyFour (hrsv : b0 &&& 0x70 = 0) (hmask : b1 &&& 0x80 ≠ 0)
    (hlen : b1 &&& 0x7f = 127) : readRest next fail b0 b1 s = (next 8 s).bind fun r =>
      if r.1.headD 0 &&& 0x80 ≠ 0 then .error (fail 1002)
      else .ok (b0 &&& 0x0f, decide (b0 &&& 0x80 ≠ 0), BigEndian.value r.1, r.2) := by
  rw [readRest, if_neg (not_not.mpr hrsv), if_neg hmask]
  simp only [hlen]
  refine congrArg (Except.bind (next 8 s)) ?_
  funext r
  split_ifs <;> rfl

theorem readRest_seven (hrsv : b0 &&& 0x70 = 0) (hmask : b1 &&& 0x80 ≠ 0)
    (hlen : b1 &&& 0x7f < 126) : readRest next fail b0 b1 s
      = .ok (b0 &&& 0x0f, decide (b0 &&& 0x80 ≠ 0), (b1 &&& 0x7f).toNat, s) := by
  have hlt : (b1 &&& 0x7f).toNat < 126 := UInt8.lt_iff_toNat_lt.mp hlen
  rw [readRest, if_neg (not_not.mpr hrsv), if_neg hmask]
  simp only [if_neg (by omega : ¬ (b1 &&& 0x7f).toNat = 126),
    if_neg (by omega : ¬ (b1 &&& 0x7f).toNat = 127)]
  rfl

theorem headSpec_readRest (hnext : Blocking.Reads short next) {t : Blocking}
    (hsent : t.sent = b0 :: b1 :: s.sent) (hskip : s = t.skip 2) :
    HeadSpec short fail t (readRest next fail b0 b1 s) := by
  have hbehind : s.behind = t.behind := by rw [hskip, Blocking.skip_behind]
  by_cases hrsv : b0 &&& 0x70 = 0
  swap
  · rw [readRest, if_pos hrsv]
    exact .fail (by rw [hsent, clientHead, if_pos hrsv])
  by_cases hmask : b1 &&& 0x80 = 0
  · rw [readRest, if_neg (not_not.mpr hrsv), if_pos hmask]
    exact .fail (by rw [hsent, clientHead, if_neg (not_not.mpr hrsv), if_pos hmask])
  by_cases h16 : b1 &&& 0x7f = 126
  · have hhead := @clientHead_sixteen b0 b1 s.sent hrsv hmask h16
    rw [← hsent] at hhead
    rw [readRest_sixteen hrsv hmask h16]
    by_cases hfew : s.sent.length < 2
    · obtain ⟨e, he, hshort⟩ := hnext.starved hfew
      rw [he]
      exact .starved (hbehind ▸ hshort) (hhead.trans (if_pos hfew))
    · rw [hnext.enough (Nat.le_of_not_lt hfew), hskip, Blocking.skip_skip]
      exact .known (hskip ▸ hhead.trans (if_neg hfew))
  by_cases h64 : b1 &&& 0x7f = 127
  · have hhead := @clientHead_sixtyFour b0 b1 s.sent hrsv hmask h64
    rw [← hsent] at hhead
    rw [readRest_sixtyFour hrsv hmask h64]
    by_cases hfew : s.sent.length < 8
    · obtain ⟨e, he, hshort⟩ := hnext.starved hfew
      rw [he]
      exact .starved (hbehind ▸ hshort) (hhead.trans (if_pos hfew))
    · have hfirst : (s.sent.take 8).headD 0 = s.sent.headD 0 := by
        rcases s.sent with _ | ⟨b, bs⟩
        · rfl
        · rfl
      rw [if_neg hfew] at hhead
      rw [hnext.enough (Nat.le_of_not_lt hfew), Except.bind, hfirst]
      split_ifs at hhead with htop
      · rw [if_pos htop]
        exact .fail hhead
      · rw [if_neg htop, hskip, Blocking.skip_skip]
        exact .known (hskip ▸ hhead)
  · have hhead := @clientHead_seven b0 b1 s.sent hrsv hmask (len_lt b1 h16 h64)
    rw [← hsent] at hhead
    rw [readRest_seven hrsv hmask (len_lt b1 h16 h64), hskip]
    exact .known hhead

theorem clientHead_of_lt {buf : Bytes} (h : buf.length < 2) : clientHead buf = .needMore := by
  rcases buf with _ | ⟨b0, _ | ⟨b1, rest⟩⟩
  · rfl
  · rfl
  · exact absurd h (Nat.not_lt.mpr (Nat.le_add_left 2 _))

/-- **Piece by piece one finds out what the parser says of all that was sent.** -/
theorem headSpec_readHead (hfirst : Blocking.Reads short first) (hnext : Blocking.Reads short next)
    (fail : UInt16 → ε) (s : Blocking) : HeadSpec short fail s (readHead first next fail s) := by
  have hfew : s.sent.length < 2 → HeadSpec short fail s (readHead first next fail s) := by
    intro hlt
    obtain ⟨e, he, hshort⟩ := hfirst.starved hlt
    rw [readHead, he]
    exact .starved hshort (clientHead_of_lt hlt)
  rcases hsent : s.sent with _ | ⟨b0, _ | ⟨b1, rest⟩⟩
  · exact hfew (by rw [hsent]; exact Nat.two_pos)
  · exact hfew (by rw [hsent]; exact Nat.one_lt_two)
  · have htwo : first 2 s = .ok ([b0, b1], s.skip 2) := by
      rw [hfirst.enough (by rw [hsent]; exact Nat.le_add_left 2 _), hsent]
      rfl
    have hrest : s.sent = b0 :: b1 :: (s.skip 2).sent := by rw [Blocking.skip_sent, hsent]; rfl
    rw [readHead, htwo]
    exact headSpec_readRest hnext hrest rfl

end ReadHead

end Ws

end Aiomsg
