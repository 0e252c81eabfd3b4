import Aiomsg.Ws.Front
import Aiomsg.Ws.Session

/-!
# The read path of the C++ adapter

`parse_one` and `read` of `cpp-lib-sync/src/ws.cpp`, and `conn_read` of
`cpp-lib-sync/src/socket.cpp`. `read` reads once from the transport, which brings bytes, times out,
or reports the end, and then takes all complete frames off `inbuf`, those that were there before
included. It returns what the transport returned, or `-1` if a frame ends the connection.
`conn_read` pushes what the frames carry into the decoder if the return value is positive.

## What goes wrong

The frames are taken off whatever is returned, so what they carry is gone if it is not positive.
That is so for the bytes read past the request if the first read times out, and for what arrives in
one read with a Close frame or with what violates the protocol. If the first read reports the end,
those bytes are not even looked at.

## Scope

The bytes that the parser hands out go to the decoder as they are, and what the decoder makes of
them is its own module's matter. Writing does not fail here, since the source does not look. A read
brings any bytes at all, but at least one.

## Main definitions

* `Conn.connRead`, `Conn.run` — one read, and all of them
* `Lossless` — whenever a read brings nothing or ends the connection, what is buffered carries
  nothing

## Main results

* `State.parseAll_eq` — the loop of `read`
* `run_pushed_iff`
-/

namespace Aiomsg

namespace CppSync

open Aiomsg.Ws (opCont opText opBin opClose opPing opPong front unmasked codeOf codeOf_eq
  lengthBytes verdict dispose fronted_front clientFrames carriedIn carriedIn_item carriedIn_stop
  carriedIn_more carriedIn_append reason reason_item reason_stop reason_more Item)

def encodeServerFrame (opcode : UInt8) (payload : Bytes) : Bytes :=
  (0x80 ||| opcode) :: lengthBytes payload.length ++ payload

/-- `ws::State`, and what has been written with `rw`. The bytes in `inbuf` have been read and not
been parsed; after the upgrade these are the ones that came in one read with the end of the request.
-/
structure State where
  /-- Raw bytes awaiting WS-frame parsing. -/
  inbuf : Bytes
  closeSent : Bool
  wire : Bytes

namespace State

/-- `rw(f.data(), f.size())`, of which nobody looks at the result. -/
def rw (st : State) (f : Bytes) : State := { st with wire := st.wire ++ f }

def sendClose (st : State) (code : UInt16) : State :=
  if st.closeSent then st
  else
    { st with closeSent := true }.rw
      (encodeServerFrame opClose [UInt8.ofNat (code.toNat >>> 8), UInt8.ofNat code.toNat])

/-- The `switch (opcode)` of `parse_one`, on a frame that has been erased. -/
def dispatch (st : State) (out : Bytes) (opcode : UInt8) (payload : Bytes) : ℤ × State × Bytes :=
  if opcode = opBin ∨ opcode = opCont then (1, st, out ++ payload)
  else if opcode = opPing then (1, st.rw (encodeServerFrame opPong payload), out)
  else if opcode = opPong then (1, st, out) -- ignore
  else if opcode = opText then (-1, st.sendClose 1003, out) -- text is not valid for aiomsg
  else if opcode = opClose then (-1, st.sendClose (codeOf payload), out)
  else (-1, st.sendClose 1002, out) -- unknown opcode

/-- Parse one client frame from `inbuf`: 1 if a frame was consumed, 0 if more bytes are needed, -1
if the connection must close. Binary/continuation payload is appended to `out`. -/
def parseOne (st : State) (out : Bytes) : ℤ × State × Bytes :=
  match front st.inbuf with
  | .needMore => (0, st, out)
  | .protocol code => (-1, st.sendClose code, out)
  | .known opcode _ len offset =>
    { st with inbuf := st.inbuf.drop (offset + 4 + len) }.dispatch out opcode
      (unmasked st.inbuf len offset)

/-- What `parse_one` does, by what `inbuf` begins with. -/
inductive Parsed (st : State) (out : Bytes) : ℤ × State × Bytes → Prop
  | more (h : verdict st.inbuf = .more) : Parsed st out (0, st, out)
  | frame {b : Item} {st' : State} (h : verdict st.inbuf = .item b st'.inbuf) :
      Parsed st out (1, st', out ++ b.carried)
  | stop {code : UInt16} {st' : State} (h : verdict st.inbuf = .stop code) :
      Parsed st out (-1, st', out)

theorem parsed_dispatch {st st' : State} {opcode : UInt8} {payload : Bytes} (out : Bytes)
    (h : verdict st.inbuf = (dispose opcode payload).verdict st'.inbuf) :
    Parsed st out (st'.dispatch out opcode payload) := by
  have hnil : out = out ++ [] := (List.append_nil out).symm
  rw [dispatch, codeOf_eq]
  rw [dispose] at h
  split_ifs at h ⊢
  · exact .frame h
  · have hframe : Parsed st out (1, st'.rw (encodeServerFrame opPong payload), out ++ []) :=
      .frame (b := .ping payload) h
    rwa [← hnil] at hframe
  · have hframe : Parsed st out (1, st', out ++ []) := .frame (b := .pong) h
    rwa [← hnil] at hframe
  · exact .stop h
  · exact .stop h
  · exact .stop h

theorem parsed_parseOne (st : State) (out : Bytes) : Parsed st out (st.parseOne out) := by
  have hfronted := fronted_front st.inbuf
  rw [parseOne]
  generalize front st.inbuf = head at hfronted
  cases hfronted with
  | needMore h => exact .more h
  | protocol h => exact .stop h
  | known hfit h => exact parsed_dispatch out h

theorem length_parseOne {st : State} {out : Bytes} (h : (st.parseOne out).1 = 1) :
    (st.parseOne out).2.1.inbuf.length < st.inbuf.length := by
  have hparsed := parsed_parseOne st out
  generalize st.parseOne out = r at h hparsed
  cases hparsed with
  | frame hitem => exact clientFrames.shrinks hitem
  | more | stop => cases h

/-- The loop of `read`: 0 if more bytes are needed, -1 for a close or a protocol error. -/
def parseAll (st : State) (out : Bytes) : ℤ × State × Bytes :=
  if _h : (st.parseOne out).1 = 1 then parseAll (st.parseOne out).2.1 (st.parseOne out).2.2
  else st.parseOne out
termination_by st.inbuf.length
decreasing_by exact length_parseOne _h

end State

/-- What is left of a stream behind its last complete frame. -/
def unparsed (stream : Bytes) : Bytes := (clientFrames.drain stream).2.getLeft?.getD []

section Unparsed

variable {buf rest : Bytes} {b : Item}

theorem unparsed_item (h : verdict buf = .item b rest) : unparsed buf = unparsed rest := by
  rw [unparsed, Deframer.drain_item h, unparsed]

theorem unparsed_more (h : verdict buf = .more) : unparsed buf = buf := by
  rw [unparsed, Deframer.drain_more h]
  rfl

/-- What comes later of a stream comes of what is left of it. -/
theorem carriedIn_unparsed (h : reason buf = none) (more : Bytes) :
    carriedIn (buf ++ more) = carriedIn buf ++ carriedIn (unparsed buf ++ more) := by
  rw [reason] at h
  rcases hdrain : (clientFrames.drain buf).2 with left | code
  · rw [carriedIn, Deframer.drain_append hdrain, List.flatMap_append, carriedIn, carriedIn,
      unparsed, hdrain]
    rfl
  · rw [hdrain] at h
    cases h

end Unparsed

/-- **What the loop of `read` does.** It takes off all there is, and returns -1 if there is a reason
for the connection to end. -/
theorem State.parseAll_eq (st : State) (out : Bytes) : ∃ pr st',
    st.parseAll out = (pr, st', out ++ carriedIn st.inbuf) ∧
      (reason st.inbuf = none ∧ pr = 0 ∧ st'.inbuf = unparsed st.inbuf ∨
        (reason st.inbuf).isSome ∧ pr = -1) := by
  fun_induction parseAll st out with
  | case1 st out hone ih =>
    have hparsed := parsed_parseOne st out
    generalize st.parseOne out = r at hone ih hparsed
    cases hparsed with
    | more | stop => cases hone
    | @frame b st₁ hitem =>
      have hcarried := carriedIn_item hitem []
      have hreason := reason_item hitem []
      simp only [List.append_nil] at hcarried hreason
      obtain ⟨pr, st', hall, hends⟩ := ih
      refine ⟨pr, st', ?_, ?_⟩
      · rw [hall, hcarried, List.append_assoc]
      · rw [hreason, unparsed_item hitem]
        exact hends
  | case2 st out hne =>
    have hparsed := parsed_parseOne st out
    generalize st.parseOne out = r at hne hparsed
    cases hparsed with
    | frame => exact absurd rfl hne
    | more hmore =>
      refine ⟨0, st, ?_, .inl ⟨reason_more hmore, rfl, (unparsed_more hmore).symm⟩⟩
      rw [carriedIn_more hmore, List.append_nil]
    | @stop code st' hstop =>
      have hcarried := carriedIn_stop hstop []
      have hreason := reason_stop hstop []
      simp only [List.append_nil] at hcarried hreason
      refine ⟨-1, st', ?_, .inr ⟨by rw [hreason]; rfl, rfl⟩⟩
      rw [hcarried, List.append_nil]

/-! ### Reads -/

/-- What a read from the transport brings. -/
inductive Outcome where
  | chunk (data : Bytes) (h : data ≠ [])
  | timeout
  | close

/-- What `raw_read_some` returns. -/
def Outcome.result : Outcome → ℤ
  | .chunk data _ => data.length
  | .timeout => 0
  | .close => -1

/-- `st.inbuf.insert(st.inbuf.end(), buf, buf + r)`, if `r` is positive. -/
def State.insert (st : State) : Outcome → State
  | .chunk data _ => { st with inbuf := st.inbuf ++ data }
  | .timeout | .close => st

/-- `ws::read`. -/
def State.read (st : State) (o : Outcome) : ℤ × State × Bytes :=
  if o.result < 0 then (-1, st, [])
  else
    match (st.insert o).parseAll [] with
    | (pr, st, out) => (if pr < 0 then -1 else if 0 < o.result then o.result else 0, st, out)

/-- A connection: its state, and all that has been pushed into the decoder. -/
structure Conn where
  ws : State
  pushed : Bytes

namespace Conn

/-- The connection behind the upgrade, with the bytes that were read past the request. -/
def start (leftover : Bytes) : Conn where
  ws := ⟨leftover, false, []⟩
  pushed := []

def connRead (c : Conn) (o : Outcome) : ℤ × Conn :=
  match c.ws.read o with
  | (r, ws, out) => (r, ⟨ws, if 0 < r ∧ out ≠ [] then c.pushed ++ out else c.pushed⟩)

/-- Read until a read returns `-1`. -/
def run (c : Conn) : List Outcome → Conn
  | [] => c
  | o :: os =>
    match c.connRead o with
    | (r, c) => if r < 0 then c else c.run os

end Conn

/-- The bytes received until the end is reported. -/
def received : List Outcome → Bytes
  | [] => []
  | .chunk data _ :: os => data ++ received os
  | .timeout :: os => received os
  | .close :: _ => []

/-- Whenever a read brings nothing or ends the connection, and when no more is read, what is
buffered carries nothing. It follows the reads one by one, and looks at the buffer before each of
them and at what the read brings, never at what `read` returns. -/
def Lossless (inbuf : Bytes) : List Outcome → Prop
  | [] | .close :: _ => carriedIn inbuf = []
  | .timeout :: os =>
    carriedIn inbuf = [] ∧ ((reason inbuf).isSome ∨ Lossless (unparsed inbuf) os)
  | .chunk data _ :: os =>
    if (reason (inbuf ++ data)).isSome then carriedIn (inbuf ++ data) = []
    else Lossless (unparsed (inbuf ++ data)) os

namespace Conn

/-- What a read does to what is pushed and to what is buffered. -/
inductive Did (c : Conn) : Outcome → ℤ × Conn → Prop
  | close {c' : Conn} (hpushed : c'.pushed = c.pushed) : Did c .close (-1, c')
  | timeout {c' : Conn} (hreason : reason c.ws.inbuf = none) (hpushed : c'.pushed = c.pushed)
      (hinbuf : c'.ws.inbuf = unparsed c.ws.inbuf) : Did c .timeout (0, c')
  | timeoutEnds {c' : Conn} (hreason : (reason c.ws.inbuf).isSome)
      (hpushed : c'.pushed = c.pushed) : Did c .timeout (-1, c')
  | chunk {c' : Conn} {data : Bytes} (h : data ≠ []) (hreason : reason (c.ws.inbuf ++ data) = none)
      (hpushed : c'.pushed = c.pushed ++ carriedIn (c.ws.inbuf ++ data))
      (hinbuf : c'.ws.inbuf = unparsed (c.ws.inbuf ++ data)) :
      Did c (.chunk data h) (data.length, c')
  | chunkEnds {c' : Conn} {data : Bytes} (h : data ≠ [])
      (hreason : (reason (c.ws.inbuf ++ data)).isSome) (hpushed : c'.pushed = c.pushed) :
      Did c (.chunk data h) (-1, c')

theorem did_connRead (c : Conn) (o : Outcome) : Did c o (c.connRead o) := by
  obtain ⟨pr, st', hall, hends⟩ := (c.ws.insert o).parseAll_eq []
  rw [connRead, State.read, hall]
  cases o with
  | close => exact .close rfl
  | timeout =>
    rcases hends with ⟨hreason, rfl, hinbuf⟩ | ⟨hreason, rfl⟩
    · exact .timeout hreason rfl hinbuf
    · exact .timeoutEnds hreason rfl
  | chunk data h =>
    have hpos : 0 < (data.length : ℤ) := by
      exact_mod_cast List.length_pos_iff.mpr h
    have hgo : ¬ (data.length : ℤ) < 0 := by omega
    rw [Outcome.result, if_neg hgo]
    rcases hends with ⟨hreason, rfl, hinbuf⟩ | ⟨hreason, rfl⟩
    · have hzero : ¬ (0 : ℤ) < 0 := by decide
      simp only [if_neg hzero, if_pos hpos]
      refine .chunk h hreason ?_ hinbuf
      by_cases hnil : carriedIn (c.ws.inbuf ++ data) = []
      · simp [State.insert, hnil]
      · simp [State.insert, hnil, h]
    · exact .chunkEnds h hreason rfl

/-- Bytes that are no longer than the end of some bytes are all of these only if nothing stands in
front of it. -/
theorem eq_append_iff_of_le {gained front rest : Bytes} (h : gained.length ≤ rest.length) :
    gained = front ++ rest ↔ front = [] ∧ gained = rest := by
  constructor
  · intro heq
    have hlength := congrArg List.length heq
    rw [List.length_append] at hlength
    have hnil : front = [] := List.eq_nil_of_length_eq_zero (by omega)
    rw [hnil, List.nil_append] at heq
    exact ⟨hnil, heq⟩
  · rintro ⟨rfl, rfl⟩
    rfl

/-- What has been pushed is a part of what should have been, and all of it if nothing was lost. -/
theorem exists_run_pushed (c : Conn) (os : List Outcome) : ∃ gained,
    (c.run os).pushed = c.pushed ++ gained ∧
      gained.length ≤ (carriedIn (c.ws.inbuf ++ received os)).length ∧
      (gained = carriedIn (c.ws.inbuf ++ received os) ↔ Lossless c.ws.inbuf os) := by
  induction os generalizing c with
  | nil =>
    refine ⟨[], (List.append_nil _).symm, Nat.zero_le _, ?_⟩
    rw [received, List.append_nil]
    exact eq_comm
  | cons o os ih =>
    have hdid := did_connRead c o
    rw [run]
    generalize c.connRead o = r at hdid
    cases hdid with
    | close hpushed =>
      refine ⟨[], ?_, Nat.zero_le _, ?_⟩
      · rw [List.append_nil]
        exact hpushed
      · rw [received, List.append_nil]
        exact eq_comm
    | timeoutEnds hreason hpushed =>
      refine ⟨[], ?_, Nat.zero_le _, ?_⟩
      · rw [List.append_nil]
        exact hpushed
      · rw [received, carriedIn_append hreason, Lossless]
        exact ⟨fun hnil => ⟨hnil.symm, .inl hreason⟩, fun hnil => hnil.1.symm⟩
    | @timeout c' hreason hpushed hinbuf =>
      obtain ⟨gained, hgained, hlen, hiff⟩ := ih c'
      rw [hinbuf] at hlen hiff
      refine ⟨gained, ?_, ?_, ?_⟩
      · rw [← hpushed]
        exact hgained
      · rw [received, carriedIn_unparsed hreason, List.length_append]
        omega
      · have hends : ¬ (reason c.ws.inbuf).isSome := by simp [hreason]
        rw [received, carriedIn_unparsed hreason, eq_append_iff_of_le hlen, hiff, Lossless,
          or_iff_right hends]
    | @chunkEnds c' data h hreason hpushed =>
      refine ⟨[], ?_, Nat.zero_le _, ?_⟩
      · rw [List.append_nil]
        exact hpushed
      · rw [received, ← List.append_assoc, carriedIn_append hreason, Lossless, if_pos hreason]
        exact eq_comm
    | @chunk c' data h hreason hpushed hinbuf =>
      obtain ⟨gained, hgained, hlen, hiff⟩ := ih c'
      rw [hinbuf] at hlen hiff
      have hgo : ¬ (data.length : ℤ) < 0 := by omega
      refine ⟨carriedIn (c.ws.inbuf ++ data) ++ gained, ?_, ?_, ?_⟩
      · simp only [if_neg hgo]
        rw [hgained, hpushed, List.append_assoc]
      · rw [received, ← List.append_assoc, carriedIn_unparsed hreason, List.length_append,
          List.length_append]
        omega
      · rw [received, ← List.append_assoc, carriedIn_unparsed hreason, Lossless, hreason,
          List.append_cancel_left_eq, hiff]
        rfl

end Conn

/-- **When nothing is lost.** Take any bytes read past the request and any reads. What has been
pushed into the decoder is what the complete frames carry, of those bytes and all that was received,
if and only if whenever a read brings nothing or ends the connection, and at the end, what is
buffered carries nothing. -/
theorem run_pushed_iff (leftover : Bytes) (os : List Outcome) :
    ((Conn.start leftover).run os).pushed = carriedIn (leftover ++ received os) ↔
      Lossless leftover os := by
  obtain ⟨gained, hgained, -, hiff⟩ := (Conn.start leftover).exists_run_pushed os
  rw [hgained]
  exact hiff

/-- A frame that came with the request is lost if the first read times out. -/
theorem run_pushed_lost : ¬ ∀ leftover os,
    ((Conn.start leftover).run os).pushed = carriedIn (leftover ++ received os) := by
  intro hall
  have hpushed := hall [0x82, 0x81, 0, 0, 0, 0, 7] [.timeout]
  have hcarried : carriedIn ([0x82, 0x81, 0, 0, 0, 0, 7] ++ received [.timeout]) = [7] := by
    decide +kernel
  have hnone : ((Conn.start [0x82, 0x81, 0, 0, 0, 0, 7]).run [.timeout]).pushed = [] := by
    decide +kernel
  rw [hnone, hcarried] at hpushed
  cases hpushed

end CppSync

end Aiomsg
