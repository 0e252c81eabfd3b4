import Aiomsg.GoLib.WsHandler
import Aiomsg.Ws.ReadHead
import Aiomsg.Ws.Stream

/-!
# The Go adapter reads

`wsConn.Read` and `readNextFrame` of `golang-lib/ws.go`, on the stream of one peer. A call waits for
what it needs, so what comes of it depends on all that the peer sends and on what is behind that. A
`Write` on the inner connection returns, with or without an error, which is ignored.

The payload of a frame is allocated before any of it has been read. `make` panics on a length above
what the platform has for a slice; `maxSlice` is that bound. The length has passed its checks by
then, but they only say that it has 63 bits, so ten header bytes and four of mask are enough.

## Scope

There is one reader, and what it writes (pongs, a close frame) is recorded and never held up; that a
`Write` may block is the subject of the goroutines' machine, not of this one. A stream is all that
the peer will ever send together with what is behind it, so "blocks" is a result like the others: it
is what a call comes to at the end of a stream behind which there is silence.

Memory is bounded by `maxSlice` alone. That an allocation below this bound may fail as well is a
property of the machine that the program runs on.

## Main results

* `nextSpec_nextFrame` — what one call reads, in terms of the grammar
* `Oversized` — the streams in which such a header comes where a header is expected
* `readsWell_iff` — on all others, and only there, the calls and the reads do what they should
-/

namespace Aiomsg

namespace GoLib

open Ws Protocol

/-- What a call comes to other than a result. `blocked` is a call that does not return; `panic` is
the run-time error of `make`, and ends the program, since nobody recovers. -/
inductive Stop where
  | eof
  | unexpectedEof
  /-- An error of the inner connection. -/
  | conn
  | blocked
  /-- `c.fail(code)`. -/
  | fail (code : UInt16)
  | panic
deriving DecidableEq

/-- For want of bytes a call blocks or returns an error. -/
def Stop.Short : Behind → Stop → Prop
  | .silence, e => e = .blocked
  | .eof, e => e = .eof ∨ e = .unexpectedEof
  | .broken, e => e = .conn

/-- `io.ReadFull`. -/
def readFull (n : ℕ) (s : Blocking) : Except Stop (Bytes × Blocking) :=
  if n ≤ s.sent.length then .ok (s.sent.take n, s.skip n)
  else
    match s.behind with
    | .silence => .error .blocked
    | .eof => .error (if s.sent.isEmpty then .eof else .unexpectedEof)
    | .broken => .error .conn

/-- `make([]byte, length)`. -/
def makeBytes (maxSlice length : ℕ) : Except Stop Unit :=
  if maxSlice < length then .error .panic else .ok ()

/-- `readNextFrame` up to where the frame is read: its opcode and its payload. -/
def nextFrame (maxSlice : ℕ) (s : Blocking) : Except Stop (UInt8 × Bytes × Blocking) := do
  let (opcode, fin, length, s) ← readHead readFull readFull .fail s
  if 0x8 ≤ opcode ∧ (fin = false ∨ 125 < length) then throw (.fail 1002) -- control-frame limits
  else
    let (mask, s) ← readFull 4 s
    let () ← makeBytes maxSlice length
    let (payload, s) ← readFull length s
    return (opcode, xorMask mask payload, s)

/-- `wsConn`, with what it has written. `inbuf` holds the payload of frames that have been read and
not yet been handed out; `br` is what the peer has still to send. -/
structure WsConn where
  br : Blocking
  inbuf : Bytes
  written : Bytes
  closeSent : Bool

namespace WsConn

def new (br : Blocking) : WsConn where
  br := br
  inbuf := []
  written := []
  closeSent := false

def writeControl (c : WsConn) (opcode : UInt8) (payload : Bytes) : WsConn :=
  { c with written := c.written ++ encodeServerFrame opcode payload }

/-- At most one close frame for the life of the connection. -/
def sendClose (c : WsConn) (code : ℕ) : WsConn :=
  if c.closeSent then c else { c.writeControl opClose (closePayload code) with closeSent := true }

/-- One call: `none` is the error `nil`. Nobody reads on behind another one, so what it leaves of
the stream is not said. -/
def readNextFrame (maxSlice : ℕ) (c : WsConn) : Option Stop × WsConn :=
  match nextFrame maxSlice c.br with
  | .error (.fail code) => (some .eof, c.sendClose code.toNat)
  | .error e => (some e, c)
  | .ok (opcode, payload, br) =>
    let c := { c with br := br }
    if opcode = opBin ∨ opcode = opCont then (none, { c with inbuf := c.inbuf ++ payload })
    else if opcode = opPing then (none, c.writeControl opPong payload)
    else if opcode = opPong then (none, c)
    else if opcode = opText then (some .eof, c.sendClose 1003) -- text is not valid for aiomsg
    else if opcode = opClose then
      let code := if 2 ≤ payload.length then BigEndian.value (payload.take 2) else 1000
      (some .eof, c.sendClose code)
    else (some .eof, c.sendClose 1002) -- unknown opcode

end WsConn

/-! ### One frame -/

theorem reads_readFull : Blocking.Reads Stop.Short readFull := by
  constructor
  · intro n s h
    rw [readFull, if_pos h]
  · intro n s h
    rw [readFull, if_neg (Nat.not_le.mpr h)]
    cases s.behind with
    | silence => exact ⟨_, rfl, rfl⟩
    | broken => exact ⟨_, rfl, rfl⟩
    | eof =>
      refine ⟨_, rfl, ?_⟩
      split_ifs
      · exact .inl rfl
      · exact .inr rfl

/-- A header that passes its checks and announces more than a slice can hold, and its mask. -/
def OversizedAt (maxSlice : ℕ) (buf : Bytes) : Prop :=
  ∃ (h : Header) (rest : Bytes), buf = h.bytes ++ rest ∧ 4 ≤ rest.length ∧ ¬ h.Illegal ∧
    maxSlice < h.len

/-- What one call reads, in terms of the grammar. -/
inductive NextSpec (maxSlice : ℕ) (s : Blocking) : Except Stop (UInt8 × Bytes × Blocking) → Prop
  | starved {e : Stop} (h : Stop.Short s.behind e) (hmore : verdict s.sent = .more) :
      NextSpec maxSlice s (.error e)
  | fail {code : UInt16} (hstop : verdict s.sent = .stop code) :
      NextSpec maxSlice s (.error (.fail code))
  | panic (h : OversizedAt maxSlice s.sent) : NextSpec maxSlice s (.error .panic)
  | frame (f : ClientFrame) (rest : Bytes) (hsent : s.sent = f.bytes ++ rest)
      (hlegal : ¬ f.Illegal) : NextSpec maxSlice s (.ok (f.opcode, f.payload, ⟨rest, s.behind⟩))

theorem nextFrame_of_known {maxSlice : ℕ} {s : Blocking} {opcode : UInt8} {fin : Bool}
    {len offset : ℕ}
    (hhead : readHead readFull readFull Stop.fail s = .ok (opcode, fin, len, s.skip offset)) :
    nextFrame maxSlice s = if 0x8 ≤ opcode ∧ (fin = false ∨ 125 < len) then .error (.fail 1002)
      else (readFull 4 (s.skip offset)).bind fun r => (makeBytes maxSlice len).bind fun _ =>
        (readFull len r.2).bind fun r' => .ok (opcode, xorMask r.1 r'.1, r'.2) := by
  rw [nextFrame, hhead]
  rfl

/-- Behind a header that passes its checks, the mask and the payload are all that matters. -/
theorem nextSpec_of_known {maxSlice : ℕ} {s : Blocking} {h : Header} {rest : Bytes}
    (hsent : s.sent = h.bytes ++ rest)
    (hhead : readHead readFull readFull Stop.fail s
      = .ok (h.opcode, h.fin, h.len, s.skip h.bytes.length)) :
    NextSpec maxSlice s (nextFrame maxSlice s) := by
  have hknown : clientHead s.sent = .known h.opcode h.fin h.len h.bytes.length := by
    rw [hsent]
    exact clientHead_bytes h rest
  have hparse := parseClientFrame_of_known hknown
  have hlen : s.sent.length = h.bytes.length + rest.length := by rw [hsent, List.length_append]
  have hrest : (s.skip h.bytes.length).sent = rest := by
    rw [Blocking.skip_sent, hsent, List.drop_left]
  rw [nextFrame_of_known hhead]
  by_cases hillegal : 0x8 ≤ h.opcode ∧ (h.fin = false ∨ 125 < h.len)
  · rw [if_pos hillegal] at hparse ⊢
    exact .fail (verdict_of_parse hparse)
  rw [if_neg hillegal] at hparse ⊢
  have hshort : s.sent.length < h.bytes.length + 4 + h.len → verdict s.sent = .more := by
    intro hlt
    rw [if_pos hlt] at hparse
    exact verdict_of_parse hparse
  by_cases hmask : rest.length < 4
  · obtain ⟨e, he, hstarved⟩ := reads_readFull.starved (n := 4) (s := s.skip h.bytes.length)
      (by rw [hrest]; exact hmask)
    rw [he]
    exact .starved hstarved (hshort (by omega))
  rw [reads_readFull.enough (by rw [hrest]; omega), hrest, Except.bind, Blocking.skip_skip]
  dsimp only
  by_cases hbig : maxSlice < h.len
  · rw [makeBytes, if_pos hbig]
    exact .panic ⟨h, rest, hsent, Nat.le_of_not_lt hmask, hillegal, hbig⟩
  rw [makeBytes, if_neg hbig, Except.bind]
  have hpayload : (s.skip (h.bytes.length + 4)).sent = rest.drop 4 := by
    rw [← Blocking.skip_skip, Blocking.skip_sent, hrest]
  by_cases hfew : (rest.drop 4).length < h.len
  · obtain ⟨e, he, hstarved⟩ := reads_readFull.starved (n := h.len)
      (s := s.skip (h.bytes.length + 4)) (by rw [hpayload]; exact hfew)
    rw [he]
    refine .starved hstarved (hshort ?_)
    rw [List.length_drop] at hfew
    omega
  rw [reads_readFull.enough (by rw [hpayload]; omega), hpayload, Except.bind, Blocking.skip_skip]
  have hlen : 4 + h.len ≤ rest.length := by
    rw [List.length_drop] at hfew
    omega
  have hskip : s.skip (h.bytes.length + 4 + h.len) = ⟨(rest.drop 4).drop h.len, s.behind⟩ := by
    rw [← Blocking.skip_skip, Blocking.skip, hpayload, Blocking.skip_behind]
  rw [hskip]
  exact .frame (h.frame rest hlen) _ (hsent.trans (Header.bytes_frame hlen).symm) hillegal

/-- **What one call reads.** -/
theorem nextSpec_nextFrame (maxSlice : ℕ) (s : Blocking) :
    NextSpec maxSlice s (nextFrame maxSlice s) := by
  have hspec := headSpec_readHead reads_readFull reads_readFull Stop.fail s
  have hfound := found_clientHead s.sent
  generalize hread : readHead readFull readFull Stop.fail s = r at hspec
  cases hspec with
  | starved h hhead =>
    rw [nextFrame, hread]
    exact .starved h (verdict_of_parse (by rw [parseClientFrame, hhead]))
  | fail hhead =>
    rw [nextFrame, hread]
    exact .fail (verdict_of_parse (by rw [parseClientFrame, hhead]))
  | known hhead =>
    rw [hhead] at hfound
    cases hfound with
    | known h rest hbuf => exact nextSpec_of_known hbuf hread

/-- **An oversized header is the end**, whether its payload has come or not. -/
theorem nextFrame_of_oversized {maxSlice : ℕ} {s : Blocking} (h : OversizedAt maxSlice s.sent) :
    nextFrame maxSlice s = .error .panic := by
  obtain ⟨h, rest, hsent, hmask, hlegal, hbig⟩ := h
  have hknown : clientHead s.sent = .known h.opcode h.fin h.len h.bytes.length := by
    rw [hsent]
    exact clientHead_bytes h rest
  have hspec := headSpec_readHead reads_readFull reads_readFull Stop.fail s
  generalize hread : readHead readFull readFull Stop.fail s = r at hspec
  cases hspec with
  | starved _ hhead => exact absurd (hknown.symm.trans hhead) nofun
  | fail hhead => exact absurd (hknown.symm.trans hhead) nofun
  | known hhead =>
    rw [hknown] at hhead
    cases hhead
    have hrest : (s.skip h.bytes.length).sent = rest := by
      rw [Blocking.skip_sent, hsent, List.drop_left]
    have hchecks : ¬ (0x8 ≤ h.opcode ∧ (h.fin = false ∨ 125 < h.len)) := hlegal
    rw [nextFrame_of_known hread, if_neg hchecks,
      reads_readFull.enough (by rw [hrest]; exact hmask), Except.bind, makeBytes, if_pos hbig]
    rfl

/-! ### One call -/

namespace WsConn

variable {maxSlice : ℕ} {c c' : WsConn}

/-- What one call does, in terms of the grammar. -/
inductive CallSpec (maxSlice : ℕ) (c : WsConn) : Option Stop × WsConn → Prop
  | starved {e : Stop} {c' : WsConn} (h : Stop.Short c.br.behind e)
      (hmore : verdict c.br.sent = .more) : CallSpec maxSlice c (some e, c')
  | ended {code : UInt16} {c' : WsConn} (hstop : verdict c.br.sent = .stop code) :
      CallSpec maxSlice c (some .eof, c')
  | panic {c' : WsConn} (h : OversizedAt maxSlice c.br.sent) : CallSpec maxSlice c (some .panic, c')
  | frame {c' : WsConn} (f : ClientFrame) (hpasses : f.Passes)
      (hsent : c.br.sent = f.bytes ++ c'.br.sent) (hbehind : c'.br.behind = c.br.behind)
      (hinbuf : c'.inbuf = c.inbuf ++ f.carried) : CallSpec maxSlice c (none, c')

theorem callSpec_readNextFrame (maxSlice : ℕ) (c : WsConn) :
    CallSpec maxSlice c (c.readNextFrame maxSlice) := by
  have hspec := nextSpec_nextFrame maxSlice c.br
  rw [readNextFrame]
  generalize nextFrame maxSlice c.br = r at hspec
  cases hspec with
  | @starved e h hmore =>
    have hfail : ∀ code, e ≠ .fail code := by
      rintro code rfl
      cases hbehind : c.br.behind <;> rw [hbehind] at h
      · exact absurd h nofun
      · exact absurd h (not_or.mpr ⟨nofun, nofun⟩)
      · exact absurd h nofun
    cases e with
    | fail code => exact absurd rfl (hfail code)
    | _ => exact .starved h hmore
  | fail hstop => exact .ended hstop
  | panic h => exact .panic h
  | frame f rest hsent hlegal =>
    dsimp only
    split_ifs with hdata hping hpong htext hclose
    · refine .frame f ⟨hlegal, ?_⟩ hsent rfl ?_
      · exact hdata.elim .inl fun h => .inr (.inl h)
      · rw [ClientFrame.carried, if_pos hdata]
    · refine .frame f ⟨hlegal, .inr (.inr (.inl hping))⟩ hsent rfl ?_
      rw [ClientFrame.carried, if_neg hdata]
      exact (List.append_nil _).symm
    · refine .frame f ⟨hlegal, .inr (.inr (.inr hpong))⟩ hsent rfl ?_
      rw [ClientFrame.carried, if_neg hdata, List.append_nil]
    all_goals
      have hnot : ¬ f.Passes := by
        rintro ⟨-, hop | hop | hop | hop⟩
        · exact hdata (.inl hop)
        · exact hdata (.inr hop)
        · exact hping hop
        · exact hpong hop
      obtain ⟨code, hstop⟩ := ClientFrame.exists_verdict_stop hlegal hnot rest
      rw [← hsent] at hstop
      exact .ended hstop

theorem br_shrinks (h : c.readNextFrame maxSlice = (none, c')) :
    c'.br.sent.length < c.br.sent.length := by
  have hspec := callSpec_readNextFrame maxSlice c
  rw [h] at hspec
  cases hspec with
  | frame f hpasses hsent hbehind hinbuf =>
    rw [hsent, List.length_append, f.length_bytes]
    omega

/-- `Read` into a buffer of `cap` bytes. -/
def read (maxSlice cap : ℕ) (c : WsConn) : Except Stop Bytes × WsConn :=
  if c.inbuf.isEmpty then
    match _h : c.readNextFrame maxSlice with
    | (none, c') => read maxSlice cap c'
    | (some e, c') => (.error e, c')
  else (.ok (c.inbuf.take cap), { c with inbuf := c.inbuf.drop cap })
termination_by c.br.sent.length
decreasing_by exact br_shrinks _h

/-- Reads into buffers of the given sizes, one after another until one fails: what each of them
returns, and what the last one comes to if it fails. -/
def reads (maxSlice : ℕ) : WsConn → List ℕ → List Bytes × Option Stop
  | _, [] => ([], none)
  | c, cap :: caps =>
    match c.read maxSlice cap with
    | (.ok bytes, c') => (bytes :: (reads maxSlice c' caps).1, (reads maxSlice c' caps).2)
    | (.error e, _) => ([], some e)

/-- The connection after `n` calls of `readNextFrame`, if all of them return nil. -/
def after (maxSlice : ℕ) : ℕ → WsConn → Option WsConn
  | 0, c => some c
  | n + 1, c =>
    match c.readNextFrame maxSlice with
    | (none, c') => after maxSlice n c'
    | (some _, _) => none

end WsConn

/-! ### Streams with an oversized header -/

/-- Behind frames that pass, there is a header that announces more than a slice can hold, and its
mask. -/
def Oversized (maxSlice : ℕ) (stream : Bytes) : Prop :=
  ∃ (frames : List ClientFrame) (tail : Bytes),
    stream = (frames.map ClientFrame.bytes).flatten ++ tail ∧ (∀ f ∈ frames, f.Passes) ∧
      OversizedAt maxSlice tail

theorem OversizedAt.oversized {maxSlice : ℕ} {stream : Bytes} (h : OversizedAt maxSlice stream) :
    Oversized maxSlice stream :=
  ⟨[], stream, rfl, nofun, h⟩

theorem Oversized.cons {maxSlice : ℕ} {f : ClientFrame} {stream : Bytes} (hpasses : f.Passes)
    (h : Oversized maxSlice stream) : Oversized maxSlice (f.bytes ++ stream) :=
  hpasses.exists_cons h

namespace WsConn

variable {maxSlice : ℕ} {c c' : WsConn}

/-- What a call of `readNextFrame` is to come to: nil, with exactly one frame read, or an error, or
waiting for more. -/
structure Answers (c : WsConn) (r : Option Stop × WsConn) : Prop where
  not_panic : r.1 ≠ some .panic
  waits : r.1 = some .blocked → c.br.behind = .silence
  frame : r.1 = none → ∃ f : ClientFrame, f.Passes ∧ c.br.sent = f.bytes ++ r.2.br.sent ∧
    r.2.inbuf = c.inbuf ++ f.carried

theorem Short.cases {b : Behind} {e : Stop} (h : Stop.Short b e) :
    e ≠ .panic ∧ (e = .blocked → b = .silence) := by
  cases b with
  | silence =>
    obtain rfl : e = .blocked := h
    exact ⟨nofun, fun _ => rfl⟩
  | eof =>
    rcases h with rfl | rfl
    · exact ⟨nofun, nofun⟩
    · exact ⟨nofun, nofun⟩
  | broken =>
    obtain rfl : e = .conn := h
    exact ⟨nofun, nofun⟩

/-- **A call answers, unless it meets an oversized header.** -/
theorem answers_of_not_oversizedAt (h : ¬ OversizedAt maxSlice c.br.sent) :
    c.Answers (c.readNextFrame maxSlice) := by
  have hspec := callSpec_readNextFrame maxSlice c
  generalize c.readNextFrame maxSlice = r at hspec
  cases hspec with
  | starved hshort hmore =>
    obtain ⟨hpanic, hblocked⟩ := Short.cases hshort
    exact ⟨fun he => hpanic (Option.some.inj he), fun he => hblocked (Option.some.inj he), nofun⟩
  | ended hstop => exact ⟨nofun, nofun, nofun⟩
  | panic hat => exact absurd hat h
  | frame f hpasses hsent hbehind hinbuf =>
    exact ⟨nofun, nofun, fun _ => ⟨f, hpasses, hsent, hinbuf⟩⟩

theorem readNextFrame_of_oversizedAt (h : OversizedAt maxSlice c.br.sent) :
    c.readNextFrame maxSlice = (some .panic, c) := by
  rw [readNextFrame, nextFrame_of_oversized h]

/-- The calls that return nil take frames that pass off the stream. -/
theorem not_oversized_after {n : ℕ} (h : ¬ Oversized maxSlice c.br.sent)
    (hafter : after maxSlice n c = some c') : ¬ Oversized maxSlice c'.br.sent := by
  induction n generalizing c with
  | zero =>
    obtain rfl := Option.some.inj hafter
    exact h
  | succ n ih =>
    have hspec := callSpec_readNextFrame maxSlice c
    rw [after] at hafter
    generalize c.readNextFrame maxSlice = r at hspec hafter
    cases hspec with
    | starved => exact absurd hafter nofun
    | ended => exact absurd hafter nofun
    | panic => exact absurd hafter nofun
    | frame f hpasses hsent hbehind hinbuf =>
      exact ih (fun hover => h (hsent ▸ hover.cons hpasses)) hafter

/-- The calls get to whatever comes behind frames that pass, unless one of them panics before. -/
theorem exists_after {frames : List ClientFrame} {tail : Bytes}
    (hsent : c.br.sent = (frames.map ClientFrame.bytes).flatten ++ tail)
    (hall : ∀ f ∈ frames, f.Passes) :
    (∃ n c', after maxSlice n c = some c' ∧ (c'.readNextFrame maxSlice).1 = some .panic) ∨
      ∃ c', after maxSlice frames.length c = some c' ∧ c'.br.sent = tail := by
  induction frames generalizing c with
  | nil => exact .inr ⟨c, rfl, hsent⟩
  | cons f frames ih =>
    rw [f.flatten_cons_append] at hsent
    have hverdict := verdict_of_passes (hall f List.mem_cons_self)
      ((frames.map ClientFrame.bytes).flatten ++ tail)
    rw [← hsent] at hverdict
    have hspec := callSpec_readNextFrame maxSlice c
    generalize hcall : c.readNextFrame maxSlice = r at hspec
    cases hspec with
    | starved hshort hmore => exact absurd (hverdict.symm.trans hmore) nofun
    | ended hstop => exact absurd (hverdict.symm.trans hstop) nofun
    | panic hat =>
      left
      refine ⟨0, c, rfl, ?_⟩
      rw [hcall]
    | @frame c₁ g hpasses hg hbehind hinbuf =>
      have hitem := verdict_of_passes hpasses c₁.br.sent
      rw [← hg, hverdict] at hitem
      have hrest := (Parse.item.inj hitem).2.symm
      have hstep : ∀ n, after maxSlice (n + 1) c = after maxSlice n c₁ := by
        intro n
        rw [after, hcall]
      rcases ih hrest fun f hf => hall f (List.mem_cons_of_mem _ hf) with
        ⟨n, c', hafter, hpanic⟩ | ⟨c', hafter, htail⟩
      · exact .inl ⟨n + 1, c', (hstep n).trans hafter, hpanic⟩
      · exact .inr ⟨c', (hstep _).trans hafter, htail⟩

/-! ### Reads -/

/-- What is still to be read. -/
def due (c : WsConn) : Bytes := c.inbuf ++ carriedIn c.br.sent

/-- What a read that does not fail has put into a buffer of `cap` bytes: no more than fits, and
something if anything fits. -/
structure Fills (cap : ℕ) (bytes : Bytes) : Prop where
  fits : bytes.length ≤ cap
  progress : 0 < cap → bytes ≠ []

theorem fills_take {data : Bytes} (h : data ≠ []) (cap : ℕ) : Fills cap (data.take cap) where
  fits := List.length_take_le _ _
  progress := by
    intro hcap hnone
    rcases List.take_eq_nil_iff.mp hnone with hzero | hempty
    · omega
    · exact h hempty

/-- What one read does where no header is oversized.

`fills` and `bytes` are both needed. The second alone would let a read return nothing for ever, and
the first alone would let it return anything. -/
structure ReadSpec (maxSlice cap : ℕ) (c : WsConn) (r : Except Stop Bytes × WsConn) : Prop where
  not_panic : r.1 ≠ .error .panic
  fills : ∀ bytes, r.1 = .ok bytes → Fills cap bytes
  bytes : ∀ bytes, r.1 = .ok bytes →
    c.due = bytes ++ r.2.due ∧ ¬ Oversized maxSlice r.2.br.sent
  error : ∀ e, r.1 = .error e → c.due = []

theorem readSpec_read (cap : ℕ) (h : ¬ Oversized maxSlice c.br.sent) :
    ReadSpec maxSlice cap c (c.read maxSlice cap) := by
  fun_induction read maxSlice cap c with
  | case1 c hempty c' hcall ih =>
    have hspec := callSpec_readNextFrame maxSlice c
    rw [hcall] at hspec
    cases hspec with
    | frame f hpasses hsent hbehind hinbuf =>
      have hcarried := carriedIn_item (verdict_of_passes hpasses c'.br.sent) []
      rw [List.append_nil, List.append_nil, ← hsent, f.carried_item] at hcarried
      have hdue : c.due = c'.due := by
        rw [due, due, hinbuf, hcarried, List.append_assoc]
      have hread := ih fun hover => h (hsent ▸ hover.cons hpasses)
      exact ⟨hread.not_panic, hread.fills, hdue ▸ hread.bytes, hdue ▸ hread.error⟩
  | case2 c hempty e c' hcall =>
    have hanswer := answers_of_not_oversizedAt fun hat => h hat.oversized
    have hspec := callSpec_readNextFrame maxSlice c
    have hinbuf : c.inbuf = [] := List.isEmpty_iff.mp hempty
    rw [hcall] at hanswer hspec
    refine ⟨fun he => hanswer.not_panic (congrArg some (Except.error.inj he)), nofun, nofun, ?_⟩
    intro e' _
    rw [due, hinbuf, List.nil_append]
    cases hspec with
    | starved hshort hmore => exact carriedIn_more hmore
    | ended hstop =>
      have hnone := carriedIn_stop hstop []
      rwa [List.append_nil] at hnone
    | panic hat => exact absurd hat.oversized h
  | case3 c hempty =>
    refine ⟨nofun, ?_, ?_, nofun⟩
    · intro bytes hbytes
      obtain rfl := Except.ok.inj hbytes
      exact fills_take (fun hnone => hempty (List.isEmpty_iff.mpr hnone)) cap
    · intro bytes hbytes
      obtain rfl := Except.ok.inj hbytes
      refine ⟨?_, h⟩
      rw [due, due, ← List.append_assoc, List.take_append_drop]

/-- What reads into buffers of the given sizes are to return. Each of them returns something, unless
there is no room for it or it fails, and the others go on behind it as long as it does not. All that
they return is the data in order, and all of the data by the time one of them fails. -/
structure Yields (caps : List ℕ) (data : Bytes) (r : List Bytes × Option Stop) : Prop where
  not_panic : r.2 ≠ some .panic
  fills : List.Forall₂ Fills (caps.take r.1.length) r.1
  goesOn : r.2 = none → r.1.length = caps.length
  order : r.1.flatten <+: data
  all : r.2 ≠ none → r.1.flatten = data

theorem yields_reads (caps : List ℕ) (h : ¬ Oversized maxSlice c.br.sent) :
    Yields caps c.due (c.reads maxSlice caps) := by
  induction caps generalizing c with
  | nil => exact ⟨nofun, .nil, fun _ => rfl, List.nil_prefix, fun hne => absurd rfl hne⟩
  | cons cap caps ih =>
    have hspec := readSpec_read cap h
    rw [reads]
    rcases hread : c.read maxSlice cap with ⟨e | bytes, c'⟩
    · rw [hread] at hspec
      rw [hspec.error e rfl]
      exact ⟨fun he => hspec.not_panic (congrArg _ (Option.some.inj he)), .nil, nofun,
        List.nil_prefix, fun _ => rfl⟩
    · rw [hread] at hspec
      obtain ⟨hdue, hrest⟩ := hspec.bytes bytes rfl
      have hlater := ih hrest
      rw [hdue]
      refine ⟨hlater.not_panic, .cons (hspec.fills bytes rfl) hlater.fills, ?_, ?_, ?_⟩
      · intro hnone
        exact congrArg (· + 1) (hlater.goesOn hnone)
      · rw [List.flatten_cons]
        exact (List.prefix_append_right_inj bytes).mpr hlater.order
      · intro hne
        rw [List.flatten_cons, hlater.all hne]

end WsConn

/-! ### Every stream -/

/-- What is asked of the adapter on a stream: every call of `readNextFrame` answers, as long as
those before it returned nil, and reads of any sizes return the payloads of the binary and
continuation frames, each of them at least a byte of these until it fails. -/
structure ReadsWell (maxSlice : ℕ) (br : Blocking) : Prop where
  calls : ∀ n c, WsConn.after maxSlice n (.new br) = some c → c.Answers (c.readNextFrame maxSlice)
  reads : ∀ caps frames code, Reading br.sent frames code →
    WsConn.Yields caps (content frames) ((WsConn.new br).reads maxSlice caps)

/-- **The adapter reads well if and only if no header on the way announces more than a slice can
hold.** -/
theorem readsWell_iff (maxSlice : ℕ) (br : Blocking) :
    ReadsWell maxSlice br ↔ ¬ Oversized maxSlice br.sent := by
  constructor
  · rintro ⟨hcalls, -⟩ ⟨frames, tail, hsent, hall, hat⟩
    rcases @WsConn.exists_after maxSlice (.new br) frames tail hsent hall with
      ⟨n, c, hafter, hpanic⟩ | ⟨c, hafter, htail⟩
    · exact (hcalls n c hafter).not_panic hpanic
    · refine (hcalls _ c hafter).not_panic ?_
      rw [WsConn.readNextFrame_of_oversizedAt (htail ▸ hat)]
  · intro h
    constructor
    · intro n c hafter
      have hrest := WsConn.not_oversized_after (c := .new br) h hafter
      exact WsConn.answers_of_not_oversizedAt fun hat => hrest hat.oversized
    · intro caps frames code hreading
      have hyields := WsConn.yields_reads (c := .new br) caps h
      rw [WsConn.due] at hyields
      rwa [← carriedIn_eq hreading]

/-- Fourteen bytes, with room for slices of `2 ^ 48` bytes. -/
theorem readNextFrame_panics : ¬ ∀ (maxSlice : ℕ) (br : Blocking), ReadsWell maxSlice br := by
  intro h
  have hcall := (h (2 ^ 48) ⟨[0x82, 0xFF, 0x7F, 255, 255, 255, 255, 255, 255, 255, 1, 2, 3, 4],
    .silence⟩).calls 0 _ rfl
  exact hcall.not_panic (by decide)

end GoLib

end Aiomsg
