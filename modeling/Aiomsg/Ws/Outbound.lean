import Aiomsg.Ws.AsyncStream

/-!
# What the asynchronous adapter writes

`tokio::io::split` gives the reader and the writer of a connection a half of the adapter each, and a
lock lets one of them poll at a time. So what the two do is a list of polls, and every order of them
is one. Both write through `out_buf`: a `poll_write` puts a frame there, a `poll_read` a PONG or a
Close frame, and each of them, like `poll_flush` and `poll_shutdown`, writes as much of it as the
inner stream takes at the moment, which may end in the middle of a frame.

At every point what has been written and what is still queued are whole frames, one behind the
other: `sent` grows by whole frames and by nothing else, and what flushing changes is only how much
of it has been written. Which frames these are is said poll by poll (`Queues`): the frame of a
`poll_write` that is accepted, a PONG for each PING that a `poll_read` parses, and a Close frame if
there has been none. What is parsed is said in terms of the grammar: the bytes that have arrived are
the frames that pass, one behind the other, and what is left in `in_buf`.

`poll_flush` and `poll_shutdown` go on to the inner stream's when all is written. Those move no
bytes, and are left out. A `poll_write` is not ready where `flush_out` is not, and fails where it
fails; both leave the adapter as `flush_out` does, and `none` stands for both.

## Main definitions

* `ServerFrame` — a frame for the client
* `AsyncWsStream.pollWrite`, `pollFlush`, `pollShutdown`, `calls` — the polls
* `AsyncWsStream.Queues`, `Logged` — the frames that a poll and a list of polls queue

## Main results

* `AsyncWsStream.read_pollRead` — what a `poll_read` parses and queues
* `AsyncWsStream.queued_call` — one poll
* `AsyncWsStream.outbound_whole` — all polls
-/

namespace Aiomsg

namespace Ws

/-- A frame that the adapter sends. There is no PING among them, since the adapter sends none;
keeping a connection alive is done by heartbeats one layer up. -/
inductive ServerFrame where
  | binary (payload : Bytes)
  | pong (payload : Bytes)
  | close (code : UInt16)
deriving DecidableEq

namespace ServerFrame

def bytes : ServerFrame → Bytes
  | .binary payload => serverFrame opBin payload
  | .pong payload => serverFrame opPong payload
  | .close code => serverFrame opClose (toBeBytes code)

/-- The payload of a binary frame. -/
def binary? : ServerFrame → Option Bytes
  | .binary payload => some payload
  | _ => none

/-- The payload of a PONG. -/
def pong? : ServerFrame → Option Bytes
  | .pong payload => some payload
  | _ => none

/-- The code of a Close frame. -/
def close? : ServerFrame → Option UInt16
  | .close code => some code
  | _ => none

end ServerFrame

/-- The bytes of frames one behind the other. -/
def wire (log : List ServerFrame) : Bytes := (log.map ServerFrame.bytes).flatten

theorem wire_append (log log' : List ServerFrame) : wire (log ++ log') = wire log ++ wire log' := by
  rw [wire, List.map_append, List.flatten_append]
  rfl

/-- The payload of a PING. -/
def ClientFrame.ping? (f : ClientFrame) : Option Bytes :=
  if f.opcode = opPing then some f.payload else none

/-- The PONGs for the PINGs among frames. -/
def pongs (frames : List ClientFrame) : List ServerFrame :=
  (frames.filterMap ClientFrame.ping?).map .pong

/-- The Close frame, if there is to be one and there has been none. -/
def closing (closeSent : Bool) (code : Option UInt16) : List ServerFrame :=
  if closeSent then [] else code.toList.map .close

/-- A frame that is no PING is not answered. -/
theorem pongs_eq_nil {f : ClientFrame} {b : Item} (h : f.item = b) (hping : ∀ p, b ≠ .ping p) :
    pongs [f] = [] := by
  have hne : f.opcode ≠ opPing := by
    intro hopcode
    refine hping f.payload (h.symm.trans ?_)
    rw [ClientFrame.item, hopcode]
    rfl
  simp [pongs, ClientFrame.ping?, hne]

theorem pongs_eq_singleton {f : ClientFrame} {p : Bytes} (h : f.item = .ping p) :
    pongs [f] = [.pong p] := by
  rw [ClientFrame.item] at h
  split_ifs at h with hdata hopcode
  cases h
  simp [pongs, ClientFrame.ping?, hopcode]

namespace AsyncWsStream

/-! ### Polling -/

/-- `poll_write`: the number of bytes taken, `none` if it is not ready. -/
def pollWrite (ws : AsyncWsStream) (buf : Bytes) : Option ℕ × AsyncWsStream :=
  -- Drain any queued bytes before accepting a new frame.
  match ws.flushOut with
  | (false, ws) => (none, ws)
  -- Best-effort; `poll_flush` finishes the job.
  | (true, ws) => (some buf.length, (ws.queueFrame opBin buf).flushOut.2)

def pollFlush (ws : AsyncWsStream) : Bool × AsyncWsStream := ws.flushOut

def pollShutdown (ws : AsyncWsStream) : Bool × AsyncWsStream := (ws.queueClose 1000).flushOut

/-- A poll by one of the halves. -/
inductive Call where
  | read (cap : ℕ)
  | write (buf : Bytes)
  | flush
  | shutdown

def call (ws : AsyncWsStream) : Call → AsyncWsStream
  | .read cap => (ws.pollRead cap).2
  | .write buf => (ws.pollWrite buf).2
  | .flush => ws.pollFlush.2
  | .shutdown => ws.pollShutdown.2

/-- The adapter after a list of polls. -/
def calls (ws : AsyncWsStream) (cs : List Call) : AsyncWsStream := cs.foldl call ws

/-- The buffers of the calls of `poll_write` that are ready, in order. -/
def written (ws : AsyncWsStream) : List Call → List Bytes
  | [] => []
  | .write buf :: cs =>
    (if (ws.pollWrite buf).1 = some buf.length then [buf] else [])
      ++ (ws.call (.write buf)).written cs
  | c :: cs => (ws.call c).written cs

/-! ### What a poll queues -/

/-- Between `ws` and `ws'` the client's `frames` have been parsed, and if there is a code, then
behind them something that ends the connection with that code. -/
structure Parses (ws ws' : AsyncWsStream) (frames : List ClientFrame) (code : Option UInt16) :
    Prop where
  passes : ∀ f ∈ frames, f.Passes
  taken : ∃ arrived rest, ws.inner.input.stream = arrived ++ ws'.inner.input.stream ∧
    ws.inBuf ++ arrived = (frames.map ClientFrame.bytes).flatten ++ rest ∧
    (code = none → rest = ws'.inBuf) ∧ ∀ c, code = some c → Stops rest c
  ended : code.isSome = true → ws'.eof = true
  /-- A stream that has ended is not read any more. -/
  atEnd : ws.eof = true → frames = [] ∧ code = none ∧ ws'.eof = true ∧
    ws'.inner.input = ws.inner.input ∧ ws'.inBuf = ws.inBuf

/-- The frames that a poll queues. -/
inductive Queues (ws : AsyncWsStream) : Call → List ServerFrame → Prop
  | read {cap : ℕ} {frames : List ClientFrame} {code : Option UInt16}
      (h : Parses ws (ws.pollRead cap).2 frames code) :
      Queues ws (.read cap) (pongs frames ++ closing ws.closeSent code)
  | accepted {buf : Bytes} (h : (ws.pollWrite buf).1 = some buf.length) :
      Queues ws (.write buf) [.binary buf]
  | notReady {buf : Bytes} (h : (ws.pollWrite buf).1 = none) : Queues ws (.write buf) []
  | flush : Queues ws .flush []
  | shutdown : Queues ws .shutdown (closing ws.closeSent (some 1000))

/-- The frames that a list of polls queues, in the order in which it does. -/
inductive Logged : AsyncWsStream → List Call → List ServerFrame → Prop
  | nil {ws : AsyncWsStream} : Logged ws [] []
  | cons {ws : AsyncWsStream} {c : Call} {cs : List Call} {now later : List ServerFrame}
      (hnow : Queues ws c now) (hlater : Logged (ws.call c) cs later) :
      Logged ws (c :: cs) (now ++ later)

/-- What a poll does to the outbound side: whole frames are queued, and `closeSent` says whether a
Close frame is among them, of which there is one only if there has been none. -/
structure Sends (ws ws' : AsyncWsStream) (log : List ServerFrame) : Prop where
  outPos : ws'.outPos ≤ ws'.outBuf.length
  sent : ws'.sent = ws.sent ++ wire log
  closes : (log.filterMap ServerFrame.close?).length + ws.closeSent.toNat = ws'.closeSent.toNat

theorem Sends.trans {ws ws' ws'' : AsyncWsStream} {log log' : List ServerFrame}
    (h : Sends ws ws' log) (h' : Sends ws' ws'' log') : Sends ws ws'' (log ++ log') where
  outPos := h'.outPos
  sent := by rw [h'.sent, h.sent, wire_append, List.append_assoc]
  closes := by
    have hfirst := h.closes
    have hlater := h'.closes
    rw [List.filterMap_append, List.length_append]
    omega

/-- Flushing does not go behind the end of the queue. -/
theorem flushOut_kept {ws : AsyncWsStream} (h : ws.outPos ≤ ws.outBuf.length) :
    ws.flushOut.2.outPos ≤ ws.flushOut.2.outBuf.length ∧
      ws.flushOut.2.closeSent = ws.closeSent := by
  fun_induction flushOut ws with
  | case1 | case2 => exact ⟨h, rfl⟩
  | case3 ws hpos n inner hwrite ih =>
    obtain ⟨n', room, hle, heq⟩ := ws.inner.pollWrite_eq (ws.outBuf.drop ws.outPos)
    obtain ⟨rfl, -⟩ := Prod.mk.inj (heq.symm.trans hwrite)
    rw [List.length_drop, Option.getD_some] at hle
    have hnext : ws.outPos + (n + 1) ≤ ws.outBuf.length := by omega
    exact ih hnext
  | case4 => exact ⟨Nat.le_refl _, rfl⟩

theorem sends_flushOut {ws : AsyncWsStream} (h : ws.outPos ≤ ws.outBuf.length) :
    Sends ws ws.flushOut.2 [] := by
  obtain ⟨houtPos, hclose⟩ := flushOut_kept h
  refine ⟨houtPos, ?_, ?_⟩
  · rw [(flushed_flushOut ws).sent]
    exact (List.append_nil _).symm
  · rw [hclose]
    simp

theorem sends_queueFrame (ws : AsyncWsStream) (h : ws.outPos ≤ ws.outBuf.length)
    (frame : ServerFrame) (hclose : frame.close? = none) {opcode : UInt8} {payload : Bytes}
    (hbytes : frame.bytes = serverFrame opcode payload) :
    Sends ws (ws.queueFrame opcode payload) [frame] where
  outPos := h.trans (by simp [queueFrame])
  sent := by
    rw [sent_queueFrame ws h, ← hbytes]
    simp [wire]
  closes := by
    rw [List.filterMap_cons_none hclose]
    exact Nat.zero_add _

theorem sends_queueClose (ws : AsyncWsStream) (h : ws.outPos ≤ ws.outBuf.length) (code : UInt16) :
    Sends ws (ws.queueClose code) (closing ws.closeSent (some code)) := by
  rw [queueClose]
  cases hsent : ws.closeSent with
  | true => exact ⟨h, (List.append_nil _).symm, by simp [closing, hsent]⟩
  | false =>
    refine ⟨h.trans (by simp [queueFrame]), ?_,
      by simp [closing, queueFrame, ServerFrame.close?, hsent]⟩
    refine (sent_queueFrame { ws with closeSent := true } h opClose (toBeBytes code)).trans ?_
    simp [closing, wire, ServerFrame.bytes, sent]

/-! ### One `poll_read` -/

/-- What a `poll_read` does: it parses frames and queues what there is to say to them. -/
structure Read (ws ws' : AsyncWsStream) (frames : List ClientFrame) (code : Option UInt16) :
    Prop where
  parses : Parses ws ws' frames code
  sends : Sends ws ws' (pongs frames ++ closing ws.closeSent code)

/-- The client's next frame is parsed, and then others. -/
theorem Read.cons {ws ws₁ ws' : AsyncWsStream} {f : ClientFrame} {frames : List ClientFrame}
    {code : Option UInt16} (h : Read ws₁ ws' frames code) (hpasses : f.Passes)
    (hopen : ws.eof = false) (hinput : ws₁.inner.input = ws.inner.input)
    (hbuf : ws.inBuf = f.bytes ++ ws₁.inBuf) (hclose : ws₁.closeSent = ws.closeSent)
    (hsends : Sends ws ws₁ (pongs [f])) : Read ws ws' (f :: frames) code := by
  obtain ⟨arrived, rest, hstream, htaken, hrest⟩ := h.parses.taken
  refine ⟨⟨?_, ⟨arrived, rest, hinput ▸ hstream, ?_, hrest⟩, h.parses.ended, ?_⟩, ?_⟩
  · exact List.forall_mem_cons.mpr ⟨hpasses, h.parses.passes⟩
  · rw [hbuf, List.append_assoc, htaken, List.map_cons, List.flatten_cons, List.append_assoc]
  · intro hended
    exact absurd (hopen.symm.trans hended) (by simp)
  · have hpongs : pongs (f :: frames) = pongs [f] ++ pongs frames := by
      rw [pongs, pongs, pongs, ← List.map_append, ← List.filterMap_append]
      rfl
    rw [hpongs, List.append_assoc, ← hclose]
    exact hsends.trans h.sends

/-- Bytes arrive, and then frames are parsed. -/
theorem Read.extend {ws ws₁ ws' : AsyncWsStream} {frames : List ClientFrame}
    {code : Option UInt16} {bytes : Bytes} (h : Read ws₁ ws' frames code)
    (hopen : ws.eof = false) (hinput : ws.inner.input.stream = bytes ++ ws₁.inner.input.stream)
    (hbuf : ws₁.inBuf = ws.inBuf ++ bytes) (hclose : ws₁.closeSent = ws.closeSent)
    (hsends : Sends ws ws₁ []) : Read ws ws' frames code := by
  obtain ⟨arrived, rest, hstream, htaken, hrest⟩ := h.parses.taken
  refine ⟨⟨h.parses.passes, ⟨bytes ++ arrived, rest, ?_, ?_, hrest⟩, h.parses.ended, ?_⟩, ?_⟩
  · rw [hinput, hstream, List.append_assoc]
  · rw [← List.append_assoc, ← hbuf]
    exact htaken
  · intro hended
    exact absurd (hopen.symm.trans hended) (by simp)
  · rw [← hclose]
    exact hsends.trans h.sends

/-- What is queued is flushed, and then frames are parsed. -/
theorem Read.flushed {ws ws' : AsyncWsStream} {frames : List ClientFrame} {code : Option UInt16}
    (h : Read ws.flushOut.2 ws' frames code) (houtPos : ws.outPos ≤ ws.outBuf.length) :
    Read ws ws' frames code := by
  have hflush := flushed_flushOut ws
  have hsends := sends_flushOut houtPos
  obtain ⟨arrived, rest, hstream, htaken, hrest⟩ := h.parses.taken
  refine ⟨⟨h.parses.passes, ⟨arrived, rest, ?_, ?_, hrest⟩, h.parses.ended, ?_⟩, ?_⟩
  · rw [← hflush.input]
    exact hstream
  · rw [← hflush.inBuf]
    exact htaken
  · intro hended
    have hover := h.parses.atEnd (hflush.eof.trans hended)
    rwa [hflush.input, hflush.inBuf] at hover
  · rw [← (flushOut_kept houtPos).2]
    exact hsends.trans h.sends

/-- Nothing is parsed, and neither what has arrived nor what is queued changes. -/
theorem Read.of_eq {ws ws' : AsyncWsStream} (houtPos : ws.outPos ≤ ws.outBuf.length)
    (hstream : ws'.inner.input.stream = ws.inner.input.stream)
    (hinput : ws.eof = true → ws'.inner.input = ws.inner.input)
    (houtput : ws'.inner.output = ws.inner.output) (hbuf : ws'.inBuf = ws.inBuf)
    (hqueue : ws'.outBuf = ws.outBuf ∧ ws'.outPos = ws.outPos)
    (hclose : ws'.closeSent = ws.closeSent) (heof : ws.eof = true → ws'.eof = true) :
    Read ws ws' [] none := by
  refine ⟨⟨nofun, ⟨[], ws.inBuf, ?_, ?_, fun _ => hbuf.symm, nofun⟩, nofun, ?_⟩, ?_, ?_, ?_⟩
  · rw [hstream, List.nil_append]
  · rw [List.append_nil, List.map_nil, List.flatten_nil, List.nil_append]
  · exact fun hended => ⟨rfl, rfl, heof hended, hinput hended, hbuf⟩
  · rw [hqueue.1, hqueue.2]
    exact houtPos
  · rw [sent, sent, houtput, hqueue.1, hqueue.2]
    simp [pongs, closing, wire]
  · rw [hclose]
    simp [pongs, closing]

/-- The connection ends, and nothing is parsed after that. -/
theorem Read.stop {ws ws₁ ws' : AsyncWsStream} {frames : List ClientFrame}
    {code : Option UInt16} {c : UInt16} (h : Read ws₁ ws' frames code)
    (hopen : ws.eof = false) (hended : ws₁.eof = true)
    (hinput : ws₁.inner.input = ws.inner.input) (hstops : Stops ws.inBuf c)
    (hsends : Sends ws ws₁ (closing ws.closeSent (some c))) : Read ws ws' [] (some c) := by
  obtain ⟨rfl, rfl, hended', hinput', -⟩ := h.parses.atEnd hended
  refine ⟨⟨nofun, ⟨[], ws.inBuf, ?_, ?_, nofun, ?_⟩, fun _ => hended', ?_⟩, ?_⟩
  · rw [hinput', hinput, List.nil_append]
  · rw [List.append_nil, List.map_nil, List.flatten_nil, List.nil_append]
  · rintro _ ⟨⟩
    exact hstops
  · intro hover
    exact absurd (hopen.symm.trans hover) (by simp)
  · have hnothing : pongs [] ++ closing ws₁.closeSent none = [] := by
      simp [pongs, closing]
    have hboth := hsends.trans (hnothing ▸ h.sends)
    rwa [List.append_nil] at hboth

/-- A turn of the loop that goes on after `parse_one`. -/
theorem Read.parsed {ws ws' : AsyncWsStream} {r : AsyncParsed × AsyncWsStream}
    (hparsed : ParsedOne ws r) (hneed : r.1 ≠ .need) (hopen : ws.eof = false)
    (houtPos : ws.outPos ≤ ws.outBuf.length)
    (ih : (settle r).outPos ≤ (settle r).outBuf.length →
      ∃ frames code, Read (settle r) ws' frames code) :
    ∃ frames code, Read ws ws' frames code := by
  cases hparsed with
  | need => exact absurd rfl hneed
  | payload h =>
    obtain ⟨frames, code, hread⟩ := ih houtPos
    obtain ⟨f, hpasses, hitem, hbuf⟩ := verdict_eq_item h
    refine ⟨f :: frames, code, hread.cons hpasses hopen rfl hbuf rfl ?_⟩
    rw [pongs_eq_nil hitem (by simp)]
    exact ⟨houtPos, (List.append_nil _).symm, Nat.zero_add _⟩
  | @ping p rest h =>
    have hsends := sends_queueFrame { ws with inBuf := rest } houtPos (.pong p) rfl rfl
    obtain ⟨frames, code, hread⟩ := ih hsends.outPos
    obtain ⟨f, hpasses, hitem, hbuf⟩ := verdict_eq_item h
    refine ⟨f :: frames, code, hread.cons hpasses hopen rfl hbuf rfl ?_⟩
    rw [pongs_eq_singleton hitem]
    exact ⟨hsends.outPos, hsends.sent, hsends.closes⟩
  | pong h =>
    obtain ⟨frames, code, hread⟩ := ih houtPos
    obtain ⟨f, hpasses, hitem, hbuf⟩ := verdict_eq_item h
    refine ⟨f :: frames, code, hread.cons hpasses hopen rfl hbuf rfl ?_⟩
    rw [pongs_eq_nil hitem (by simp)]
    exact ⟨houtPos, (List.append_nil _).symm, Nat.zero_add _⟩
  | @eof c rest h =>
    have hsends := sends_queueClose { ws with inBuf := rest } houtPos c
    obtain ⟨frames, code, hread⟩ := ih hsends.outPos
    refine ⟨[], some c, hread.stop hopen rfl ?_ (verdict_eq_stop h) ?_⟩
    · simp [settle]
    · exact ⟨hsends.outPos, hsends.sent, hsends.closes⟩
  | @error c rest h =>
    have hsends := sends_queueClose { ws with inBuf := rest } houtPos c
    obtain ⟨frames, code, hread⟩ := ih hsends.outPos
    refine ⟨[], some c, hread.stop hopen rfl ?_ (verdict_eq_stop h) ?_⟩
    · simp [settle]
    · exact ⟨hsends.outPos, hsends.sent, hsends.closes⟩

/-- **One `poll_read`** parses some frames and queues their PONGs, and the Close frame if it comes
to an end. -/
theorem read_pollRead {ws : AsyncWsStream} (houtPos : ws.outPos ≤ ws.outBuf.length) (cap : ℕ) :
    ∃ frames code, Read ws (ws.pollRead cap).2 frames code := by
  -- A turn that goes on: flush, parse one frame, and go round again.
  have hturn : ∀ {ws ws' : AsyncWsStream} {r : AsyncParsed × AsyncWsStream},
      ws.outPos ≤ ws.outBuf.length → ¬ ws.flushOut.2.eof = true → ws.flushOut.2.parseOne = r →
      r.1 ≠ .need → ((settle r).outPos ≤ (settle r).outBuf.length →
        ∃ frames code, Read (settle r) ws' frames code) →
      ∃ frames code, Read ws ws' frames code := by
    intro ws ws' r houtPos heof hparse hneed ih
    subst hparse
    obtain ⟨frames, code, hread⟩ := Read.parsed (parsedOne_parseOne _) hneed
      (Bool.eq_false_iff.mpr heof) (flushOut_kept houtPos).1 ih
    exact ⟨frames, code, hread.flushed houtPos⟩
  fun_induction pollRead ws cap with
  | case1 ws ws₀ hready =>
    have hread : Read ws₀ { ws₀ with ready := ws₀.ready.drop cap } [] none :=
      .of_eq (flushOut_kept houtPos).1 rfl (fun _ => rfl) rfl rfl ⟨rfl, rfl⟩ rfl id
    exact ⟨[], none, hread.flushed houtPos⟩
  | case2 ws ws₀ hready heof =>
    have hread : Read ws₀ ws₀ [] none :=
      .of_eq (flushOut_kept houtPos).1 rfl (fun _ => rfl) rfl rfl ⟨rfl, rfl⟩ rfl id
    exact ⟨[], none, hread.flushed houtPos⟩
  | case3 ws ws₀ hready heof p ws₁ hparse ih => exact hturn houtPos heof hparse (by simp) ih
  | case4 ws ws₀ hready heof ws₁ hparse ih => exact hturn houtPos heof hparse (by simp) ih
  | case5 ws ws₀ hready heof ws₁ hparse ih => exact hturn houtPos heof hparse (by simp) ih
  | case6 ws ws₀ hready heof ws₁ hparse ih => exact hturn houtPos heof hparse (by simp) ih
  | case7 ws ws₀ hready heof ws₁ hparse kind input hread =>
    obtain ⟨rfl, -⟩ := eq_of_parseOne_need hparse
    have hstream : input.stream = ws₀.inner.input.stream := by
      rw [Source.read_error hread]
      rfl
    have hread' : Read ws₀ (ws₀.setInput input) [] none :=
      .of_eq (flushOut_kept houtPos).1 hstream (fun hended => absurd hended heof) rfl rfl
        ⟨rfl, rfl⟩ rfl id
    exact ⟨[], none, hread'.flushed houtPos⟩
  | case8 ws ws₀ hready heof ws₁ hparse input hread =>
    obtain ⟨rfl, -⟩ := eq_of_parseOne_need hparse
    have hstream : input.stream = ws₀.inner.input.stream :=
      ((Source.read_ok hread).1.trans (List.nil_append _)).symm
    have hread' : Read ws₀ { ws₀.setInput input with eof := true } [] none :=
      .of_eq (flushOut_kept houtPos).1 hstream (fun hended => absurd hended heof) rfl rfl
        ⟨rfl, rfl⟩ rfl fun _ => rfl
    exact ⟨[], none, hread'.flushed houtPos⟩
  | case9 ws ws₀ hready heof ws₁ hparse b bs input hread ih =>
    obtain ⟨rfl, -⟩ := eq_of_parseOne_need hparse
    have houtPos' := (flushOut_kept houtPos).1
    obtain ⟨frames, code, hlater⟩ := ih houtPos'
    have hsends : Sends ws₀ { ws₀.setInput input with inBuf := ws₀.inBuf ++ b :: bs } [] :=
      ⟨houtPos', (List.append_nil _).symm, Nat.zero_add _⟩
    have hread' := hlater.extend (Bool.eq_false_iff.mpr heof) (Source.read_ok hread).1 rfl rfl
      hsends
    exact ⟨frames, code, hread'.flushed houtPos⟩

/-! ### Every poll -/

/-- **One poll.** What it queues is whole frames, and that is all that `sent` grows by. -/
theorem queued_call {ws : AsyncWsStream} (houtPos : ws.outPos ≤ ws.outBuf.length) (c : Call) :
    ∃ log, Queues ws c log ∧ Sends ws (ws.call c) log := by
  cases c with
  | read cap =>
    obtain ⟨frames, code, hread⟩ := read_pollRead houtPos cap
    exact ⟨_, .read hread.parses, hread.sends⟩
  | write buf =>
    have hflush := sends_flushOut houtPos
    rcases hdrained : ws.flushOut with ⟨_ | _, ws₀⟩
    · have hpoll : ws.pollWrite buf = (none, ws₀) := by rw [pollWrite, hdrained]
      refine ⟨[], .notReady (congrArg Prod.fst hpoll), ?_⟩
      rw [call, hpoll]
      rwa [hdrained] at hflush
    · have hpoll : ws.pollWrite buf = (some buf.length, (ws₀.queueFrame opBin buf).flushOut.2) := by
        rw [pollWrite, hdrained]
      refine ⟨[.binary buf], .accepted (congrArg Prod.fst hpoll), ?_⟩
      rw [call, hpoll]
      rw [hdrained] at hflush
      have hqueue := sends_queueFrame _ hflush.outPos (.binary buf) rfl rfl
      exact (hflush.trans hqueue).trans (sends_flushOut hqueue.outPos)
  | flush => exact ⟨[], .flush, sends_flushOut houtPos⟩
  | shutdown =>
    have hqueue := sends_queueClose ws houtPos 1000
    have hboth := hqueue.trans (sends_flushOut hqueue.outPos)
    rw [List.append_nil] at hboth
    exact ⟨_, .shutdown, hboth⟩

/-- All polls. -/
theorem logged_calls (ws : AsyncWsStream) (houtPos : ws.outPos ≤ ws.outBuf.length)
    (cs : List Call) : ∃ log, Logged ws cs log ∧ Sends ws (ws.calls cs) log := by
  induction cs generalizing ws with
  | nil => exact ⟨[], .nil, houtPos, (List.append_nil _).symm, Nat.zero_add _⟩
  | cons c cs ih =>
    obtain ⟨now, hnow, hsends⟩ := queued_call houtPos c
    obtain ⟨later, hlater, hsends'⟩ := ih (ws.call c) hsends.outPos
    exact ⟨now ++ later, .cons hnow hlater, hsends.trans hsends'⟩

/-- The binary frames are those of the calls of `poll_write` that were ready. -/
theorem Logged.binary {ws : AsyncWsStream} {cs : List Call} {log : List ServerFrame}
    (h : Logged ws cs log) : log.filterMap ServerFrame.binary? = ws.written cs := by
  have hpongs : ∀ frames, (pongs frames).filterMap ServerFrame.binary? = [] := fun frames => by
    simp [pongs, List.filterMap_eq_nil_iff, ServerFrame.binary?]
  have hclosing : ∀ sent code, (closing sent code).filterMap ServerFrame.binary? = [] := by
    intro sent code
    cases sent <;> cases code <;> rfl
  induction h with
  | nil => rfl
  | cons hnow hlater ih =>
    rw [List.filterMap_append, ih]
    cases hnow with
    | read => rw [List.filterMap_append, hpongs, hclosing]; rfl
    | accepted h => rw [written, if_pos h]; rfl
    | notReady h => rw [written, if_neg (by rw [h]; simp)]; rfl
    | flush => rfl
    | shutdown => rw [hclosing]; rfl

/-- Between `ws` and `ws'` the client's `frames` have been parsed, and all of what has arrived
besides is still there, unless the connection has been ended by it. -/
structure Consumes (ws ws' : AsyncWsStream) (frames : List ClientFrame) : Prop where
  passes : ∀ f ∈ frames, f.Passes
  taken : ∃ arrived rest, ws.inner.input.stream = arrived ++ ws'.inner.input.stream ∧
    ws.inBuf ++ arrived = (frames.map ClientFrame.bytes).flatten ++ rest ∧
    (rest = ws'.inBuf ∨ ws'.eof = true ∧ ∃ code, Stops rest code)
  atEnd : ws.eof = true → frames = [] ∧ ws'.eof = true ∧ ws'.inner.input = ws.inner.input ∧
    ws'.inBuf = ws.inBuf

theorem Parses.consumes {ws ws' : AsyncWsStream} {frames : List ClientFrame}
    {code : Option UInt16} (h : Parses ws ws' frames code) : Consumes ws ws' frames := by
  obtain ⟨arrived, rest, hstream, htaken, hnone, hsome⟩ := h.taken
  refine ⟨h.passes, ⟨arrived, rest, hstream, htaken, ?_⟩, fun hended => ?_⟩
  · cases hcode : code with
    | none => exact .inl (hnone hcode)
    | some c => exact .inr ⟨h.ended (by rw [hcode]; rfl), c, hsome c hcode⟩
  · obtain ⟨hframes, -, hover⟩ := h.atEnd hended
    exact ⟨hframes, hover⟩

/-- The inbound side is left alone. -/
theorem Consumes.of_eq {ws ws' : AsyncWsStream} (hinput : ws'.inner.input = ws.inner.input)
    (hbuf : ws'.inBuf = ws.inBuf) (heof : ws'.eof = ws.eof) : Consumes ws ws' [] := by
  refine ⟨nofun, ⟨[], ws.inBuf, ?_, ?_, .inl hbuf.symm⟩, fun hended => ?_⟩
  · rw [hinput, List.nil_append]
  · rw [List.append_nil, List.map_nil, List.flatten_nil, List.nil_append]
  · exact ⟨rfl, heof.trans hended, hinput, hbuf⟩

theorem Consumes.trans {ws ws' ws'' : AsyncWsStream} {frames frames' : List ClientFrame}
    (h : Consumes ws ws' frames) (h' : Consumes ws' ws'' frames') :
    Consumes ws ws'' (frames ++ frames') := by
  obtain ⟨arrived, rest, hstream, htaken, hrest⟩ := h.taken
  obtain ⟨arrived', rest', hstream', htaken', hrest'⟩ := h'.taken
  refine ⟨List.forall_mem_append.mpr ⟨h.passes, h'.passes⟩, ?_, fun hended => ?_⟩
  · rcases hrest with rfl | ⟨hended, code, hstops⟩
    · refine ⟨arrived ++ arrived', rest', ?_, ?_, hrest'⟩
      · rw [hstream, hstream', List.append_assoc]
      · rw [← List.append_assoc, htaken, List.append_assoc, htaken', List.map_append,
          List.flatten_append, List.append_assoc]
    · obtain ⟨rfl, hended', hinput, -⟩ := h'.atEnd hended
      refine ⟨arrived, rest, ?_, ?_, .inr ⟨hended', code, hstops⟩⟩
      · rw [hinput]
        exact hstream
      · rw [List.append_nil]
        exact htaken
  · obtain ⟨rfl, hended', hinput, hbuf⟩ := h.atEnd hended
    obtain ⟨rfl, hended'', hinput', hbuf'⟩ := h'.atEnd hended'
    exact ⟨rfl, hended'', hinput'.trans hinput, hbuf'.trans hbuf⟩

theorem consumes_flushOut (ws : AsyncWsStream) : Consumes ws ws.flushOut.2 [] :=
  .of_eq (flushed_flushOut ws).input (flushed_flushOut ws).inBuf (flushed_flushOut ws).eof

theorem consumes_pollWrite (ws : AsyncWsStream) (buf : Bytes) :
    Consumes ws (ws.pollWrite buf).2 [] := by
  have hflush := consumes_flushOut ws
  rw [pollWrite]
  rcases hdrained : ws.flushOut with ⟨_ | _, ws₀⟩
  · rwa [hdrained] at hflush
  · rw [hdrained] at hflush
    have hqueue : Consumes ws₀ (ws₀.queueFrame opBin buf) [] := .of_eq rfl rfl rfl
    exact (hflush.trans hqueue).trans (consumes_flushOut _)

theorem consumes_pollShutdown (ws : AsyncWsStream) : Consumes ws ws.pollShutdown.2 [] := by
  have hqueue : Consumes ws (ws.queueClose 1000) [] := by
    refine .of_eq (by simp) (by simp) ?_
    rw [queueClose]
    split_ifs <;> rfl
  exact hqueue.trans (consumes_flushOut _)

/-- The PONGs are those for the PINGs that were parsed. -/
theorem Logged.pong {ws : AsyncWsStream} {cs : List Call} {log : List ServerFrame}
    (h : Logged ws cs log) : ∃ frames, Consumes ws (ws.calls cs) frames ∧
      log.filterMap ServerFrame.pong? = frames.filterMap ClientFrame.ping? := by
  have hpongs : ∀ frames, (pongs frames).filterMap ServerFrame.pong?
      = frames.filterMap ClientFrame.ping? := fun frames => by
    simp [pongs, List.filterMap_map, Function.comp_def, ServerFrame.pong?]
  have hclosing : ∀ sent code, (closing sent code).filterMap ServerFrame.pong? = [] := by
    intro sent code
    cases sent <;> cases code <;> rfl
  induction h with
  | nil => exact ⟨[], .of_eq rfl rfl rfl, rfl⟩
  | @cons ws c cs now later hnow hlater ih =>
    obtain ⟨frames', hconsumes', hpong'⟩ := ih
    obtain ⟨frames, hconsumes, hpong⟩ : ∃ frames, Consumes ws (ws.call c) frames ∧
        now.filterMap ServerFrame.pong? = frames.filterMap ClientFrame.ping? := by
      cases hnow with
      | @read cap frames code h =>
        refine ⟨frames, h.consumes, ?_⟩
        rw [List.filterMap_append, hpongs, hclosing, List.append_nil]
      | accepted | notReady => exact ⟨[], consumes_pollWrite ws _, rfl⟩
      | flush => exact ⟨[], consumes_flushOut ws, rfl⟩
      | shutdown => exact ⟨[], consumes_pollShutdown ws, hclosing _ _⟩
    refine ⟨frames ++ frames', hconsumes.trans hconsumes', ?_⟩
    rw [List.filterMap_append, List.filterMap_append, hpong, hpong']

/-- **Whole frames.** Take any stream of the client, however it arrives, any inner stream to write
to, and any list of polls of the two halves. What has been written and what is still queued are
whole frames one behind the other, those that the polls have queued, in the order in which they did.
The binary frames among them are those of the calls of `poll_write` that were ready, the PONGs are
those for the PINGs that were parsed, and there is at most one Close frame. -/
theorem outbound_whole (input : Source) (room : List (Option ℕ)) (cs : List Call) :
    let start := new ⟨input, room, []⟩
    let ws := start.calls cs
    ∃ log frames, Logged start cs log ∧
      ws.inner.output ++ ws.outBuf.drop ws.outPos = wire log ∧
      log.filterMap ServerFrame.binary? = start.written cs ∧
      Consumes start ws frames ∧
      log.filterMap ServerFrame.pong? = frames.filterMap ClientFrame.ping? ∧
      (log.filterMap ServerFrame.close?).length ≤ 1 := by
  intro start ws
  obtain ⟨log, hlogged, hsends⟩ := logged_calls start (Nat.le_refl _) cs
  obtain ⟨frames, hconsumes, hpong⟩ := hlogged.pong
  refine ⟨log, frames, hlogged, hsends.sent, hlogged.binary, hconsumes, hpong, ?_⟩
  have hcloses := hsends.closes
  have hone := Bool.toNat_le (start.calls cs).closeSent
  omega

end AsyncWsStream

end Ws

end Aiomsg
