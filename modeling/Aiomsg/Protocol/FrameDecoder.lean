import Aiomsg.Lib.LengthPrefix
import Aiomsg.Lib.Reader
import Aiomsg.Protocol.Envelope

/-!
# The two deframers

`rust-lib-sync/src/protocol.rs` has two ways of reading frames. `read_frame` blocks until a whole
frame is there. `FrameDecoder` keeps whatever has arrived in a buffer and yields a frame once it is
complete, so that its owner may read with a timeout or push bytes in by hand.

Both are compared here with the abstract splitter `LengthPrefix.deframer`, and through it with each
other: `takeFrame` is one cut of the splitter, so a decoder can be driven in any order of pushes,
pops and reads without losing its place in the stream.

## Scope

A stream is a list of what single reads find, with errors among it. An empty read is the end of the
stream only where it comes up; statements about whole streams ask that there is none in the middle.
Nothing limits the length of a frame, since nothing in the source does.

## Main results

* `FrameDecoder.takeFrame_eq` — one `take_frame` is one cut of the splitter
* `Reading.Conserves.run` — popped frames, buffer and unread stream are always the whole stream
* `FrameDecoder.readAll_eq`, `readFrames_eq` — both deframers yield the splitter's items until EOF
-/

namespace Aiomsg

namespace Protocol

/-- The outcome of a single read attempt via `FrameDecoder`. -/
inductive Read1 where
  | frame (frame : Bytes)
  | pending
  | closed
deriving DecidableEq

/-- Incremental frame reader: the bytes received and not yet handed out, and the length of the
scratch buffer one read may fill. The contents of the scratch buffer are read before they are left,
so only its length matters. -/
structure FrameDecoder where
  buf : Bytes
  chunk : ℕ

/-- The error kinds `read1` reports as `Pending`. -/
def transient : ErrorKind → Bool
  | .wouldBlock | .timedOut | .interrupted => true
  | _ => false

namespace FrameDecoder

def new : FrameDecoder where
  buf := []
  chunk := 16 * 1024

/-- Split off the next complete frame from the buffer, if fully present. -/
def takeFrame (d : FrameDecoder) : Option Bytes × FrameDecoder :=
  if d.buf.length < 4 then (none, d)
  else
    let len := BigEndian.value (d.buf.take 4)
    if d.buf.length < 4 + len then (none, d)
    else (some ((d.buf.drop 4).take len), { d with buf := (d.buf.drop 4).drop len })

def extendFrom (d : FrameDecoder) (bytes : Bytes) : FrameDecoder := { d with buf := d.buf ++ bytes }

def pop (d : FrameDecoder) : Option Bytes × FrameDecoder := d.takeFrame

/-- Read at most once from `src`, returning the next complete frame if one is now available. -/
def read1 (d : FrameDecoder) (src : Source) : Except ErrorKind Read1 × FrameDecoder × Source :=
  match d.takeFrame with
  | (some frame, d') => (.ok (.frame frame), d', src)
  | (none, _) =>
    match src.read d.chunk with
    | (.ok [], src') => (.ok .closed, d, src')
    | (.ok bytes, src') =>
      match (d.extendFrom bytes).takeFrame with
      | (some frame, d') => (.ok (.frame frame), d', src')
      | (none, d') => (.ok .pending, d', src')
    | (.error kind, src') =>
      if transient kind then (.ok .pending, d, src') else (.error kind, d, src')

end FrameDecoder

/-- Read one frame, returning just the envelope bytes; `none` when the stream ends first. -/
def readFrame (src : Source) : Except ErrorKind (Option Bytes) × Source :=
  match src.readExact 4 with
  | (.error .unexpectedEof, src') => (.ok none, src')
  | (.error kind, src') => (.error kind, src')
  | (.ok lenBuf, src') =>
    match src'.readExact (BigEndian.value lenBuf) with
    | (.ok buf, src'') => (.ok (some buf), src'')
    | (.error .unexpectedEof, src'') => (.ok none, src'')
    | (.error kind, src'') => (.error kind, src'')

/-! ### `take_frame` is one cut of the splitter -/

namespace FrameDecoder

theorem takeFrame_eq (d : FrameDecoder) :
    d.takeFrame = match LengthPrefix.parse d.buf with
      | .more => (none, d)
      | .item frame rest => (some frame, { d with buf := rest })
      | .stop c => c.elim := by
  unfold takeFrame LengthPrefix.parse LengthPrefix.announced
  dsimp only
  split_ifs <;> rfl

theorem takeFrame_of_more {d : FrameDecoder} (h : LengthPrefix.parse d.buf = .more) :
    d.takeFrame = (none, d) := by
  rw [takeFrame_eq, h]

theorem takeFrame_of_item {d : FrameDecoder} {frame rest : Bytes}
    (h : LengthPrefix.parse d.buf = .item frame rest) :
    d.takeFrame = (some frame, { d with buf := rest }) := by
  rw [takeFrame_eq, h]

/-- Everything one `take_frame` can do: it leaves an incomplete frame alone, or hands out the body
of exactly the frame at the front of the buffer. -/
theorem takeFrame_cases (d : FrameDecoder) :
    (d.takeFrame = (none, d) ∧ LengthPrefix.parse d.buf = .more) ∨
      ∃ frame rest, d.takeFrame = (some frame, { d with buf := rest }) ∧
        d.buf = LengthPrefix.frame frame ++ rest ∧ frame.length < 2 ^ 32 := by
  match h : LengthPrefix.parse d.buf with
  | .more => exact .inl ⟨takeFrame_of_more h, rfl⟩
  | .item frame rest =>
    exact .inr ⟨frame, rest, takeFrame_of_item h, LengthPrefix.eq_frame_append_of_item h⟩

/-- Everything one `read1` can do: hand out a frame that was buffered already; report end of file;
take in some bytes and hand out the frame they complete, or none; fail. -/
theorem read1_cases (d : FrameDecoder) (src : Source) :
    (∃ frame rest, d.read1 src = (.ok (.frame frame), { d with buf := rest }, src) ∧
        d.buf = LengthPrefix.frame frame ++ rest ∧ frame.length < 2 ^ 32) ∨
      (LengthPrefix.parse d.buf = .more ∧
        ((∃ src', d.read1 src = (.ok .closed, d, src') ∧ src.read d.chunk = (.ok [], src')) ∨
          (∃ bs src', src.read d.chunk = (.ok bs, src') ∧ bs ≠ [] ∧
            ((d.read1 src = (.ok .pending, d.extendFrom bs, src') ∧
                LengthPrefix.parse (d.buf ++ bs) = .more) ∨
              ∃ frame rest, d.read1 src = (.ok (.frame frame), { d with buf := rest }, src') ∧
                d.buf ++ bs = LengthPrefix.frame frame ++ rest ∧ frame.length < 2 ^ 32)) ∨
          (∃ kind src', src.read d.chunk = (.error kind, src') ∧
            d.read1 src = (if transient kind then (.ok .pending, d, src')
              else (.error kind, d, src'))))) := by
  rcases d.takeFrame_cases with ⟨hnone, hmore⟩ | ⟨frame, rest, hsome, hbuf, hlen⟩
  · refine .inr ⟨hmore, ?_⟩
    match hread : src.read d.chunk with
    | (.ok [], src') => exact .inl ⟨src', by rw [read1, hnone, hread], rfl⟩
    | (.error kind, src') => exact .inr (.inr ⟨kind, src', rfl, by rw [read1, hnone, hread]⟩)
    | (.ok (b :: bs), src') =>
      refine .inr (.inl ⟨b :: bs, src', rfl, by simp, ?_⟩)
      rcases (d.extendFrom (b :: bs)).takeFrame_cases with ⟨hnone', hmore'⟩ |
        ⟨frame, rest, hsome, hbuf, hlen⟩
      · exact .inl ⟨by rw [read1, hnone, hread]; simp only [hnone'], hmore'⟩
      · exact .inr ⟨frame, rest, by rw [read1, hnone, hread]; simp only [hsome]; rfl, hbuf, hlen⟩
  · exact .inl ⟨frame, rest, by rw [read1, hsome], hbuf, hlen⟩

/-- What an outcome of `read1` means for the stream: the frame at the front of everything not yet
handed out is handed out, or all of it is kept. -/
def Read1Spec (d : FrameDecoder) (src : Source) (d' : FrameDecoder) (src' : Source) :
    Except ErrorKind Read1 → Prop
  | .ok (.frame frame) =>
    d.buf ++ src.stream = LengthPrefix.frame frame ++ (d'.buf ++ src'.stream) ∧
      frame.length < 2 ^ 32
  | .ok .pending => d.buf ++ src.stream = d'.buf ++ src'.stream
  | .ok .closed =>
    d.buf ++ src.stream = d'.buf ++ src'.stream ∧ LengthPrefix.parse d.buf = .more ∧
      (0 < d.chunk → src = [])
  | .error kind =>
    d.buf ++ src.stream = d'.buf ++ src'.stream ∧ Arrival.err kind ∈ src ∧ transient kind = false

theorem read1_spec {d d' : FrameDecoder} {src src' : Source} {out : Except ErrorKind Read1}
    (h : d.read1 src = (out, d', src')) :
    d'.chunk = d.chunk ∧ (∀ p, src.OnlyErrors p → src'.OnlyErrors p) ∧
      Read1Spec d src d' src' out := by
  rcases d.read1_cases src with ⟨frame, rest, heq, hbuf, hlen⟩ | ⟨hmore, hcases⟩
  · cases heq.symm.trans h
    exact ⟨rfl, fun _ hp => hp, by rw [hbuf, List.append_assoc], hlen⟩
  rcases hcases with ⟨src₁, heq, hread⟩ | ⟨bs, src₁, hread, -, hcases⟩ | ⟨kind, src₁, hread, heq⟩
  · obtain ⟨hstream, -, hp⟩ := Source.read_ok hread
    cases heq.symm.trans h
    exact ⟨rfl, hp, by rw [hstream, List.nil_append], hmore, fun hc => Source.read_eof hc hread⟩
  · obtain ⟨hstream, -, hp⟩ := Source.read_ok hread
    rcases hcases with ⟨heq, -⟩ | ⟨frame, rest, heq, hbuf, hlen⟩
    · cases heq.symm.trans h
      exact ⟨rfl, hp, by rw [Read1Spec, hstream]; simp [extendFrom]⟩
    · cases heq.symm.trans h
      refine ⟨rfl, hp, ?_, hlen⟩
      rw [hstream, ← List.append_assoc, hbuf, List.append_assoc]
  · have hsrc := Source.read_error hread
    rw [heq] at h
    split_ifs at h with ht
    · cases h
      exact ⟨rfl, fun p hp => (hsrc ▸ hp).tail, by rw [Read1Spec, hsrc, Source.stream_err]⟩
    · cases h
      exact ⟨rfl, fun p hp => (hsrc ▸ hp).tail, by rw [hsrc, Source.stream_err],
        hsrc ▸ List.mem_cons_self, by simpa using ht⟩

end FrameDecoder

/-! ### Driving a decoder

A decoder is fed by hand (`extend_from`) or by its own reads (`read1`), and frames leave it through
`pop` or `read1`. A schedule is any list of these calls against one source. -/

/-- One call a decoder's owner makes. -/
inductive DecoderCall where
  /-- Take the next arrival off the source and push its bytes in by hand. -/
  | extendFrom
  | pop
  | read1
deriving DecidableEq

/-- A decoder, the source it is fed from, and the frames it has handed out. -/
structure Reading where
  decoder : FrameDecoder
  src : Source
  popped : List Bytes

namespace Reading

def call (r : Reading) : DecoderCall → Reading
  | .extendFrom =>
    match r.src with
    | .bytes b bs :: src => { r with decoder := r.decoder.extendFrom (b :: bs), src := src }
    | .err _ :: src => { r with src := src }
    | [] => r
  | .pop =>
    match r.decoder.pop with
    | (some frame, d) => { r with decoder := d, popped := r.popped ++ [frame] }
    | (none, d) => { r with decoder := d }
  | .read1 =>
    match r.decoder.read1 r.src with
    | (.ok (.frame frame), d, src) => ⟨d, src, r.popped ++ [frame]⟩
    | (_, d, src) => ⟨d, src, r.popped⟩

def run (r : Reading) (calls : List DecoderCall) : Reading := calls.foldl call r

/-- The stream a reading has been given, put together again from its parts. -/
def whole (r : Reading) : Bytes :=
  (r.popped.map LengthPrefix.frame).flatten ++ (r.decoder.buf ++ r.src.stream)

/-- What every call keeps: the stream, and that what was handed out could be framed. -/
structure Conserves (stream : Bytes) (r : Reading) : Prop where
  whole : r.whole = stream
  framed : ∀ frame ∈ r.popped, frame.length < 2 ^ 32

/-- Handing out the frame at the front moves it from the stream to the frames. -/
theorem Conserves.hand_out {stream : Bytes} {r : Reading} {d : FrameDecoder} {src : Source}
    {frame : Bytes} (h : Conserves stream r)
    (heq : r.decoder.buf ++ r.src.stream = LengthPrefix.frame frame ++ (d.buf ++ src.stream))
    (hlen : frame.length < 2 ^ 32) : Conserves stream ⟨d, src, r.popped ++ [frame]⟩ := by
  constructor
  · rw [← h.whole, Reading.whole, Reading.whole, heq]
    simp
  · intro f hf
    rcases List.mem_append.mp hf with hf | hf
    · exact h.framed f hf
    · rw [List.mem_singleton.mp hf]
      exact hlen

/-- Moving bytes from the source into the buffer, or dropping an error, changes nothing. -/
theorem Conserves.shift {stream : Bytes} {r : Reading} {d : FrameDecoder} {src : Source}
    (h : Conserves stream r) (heq : r.decoder.buf ++ r.src.stream = d.buf ++ src.stream) :
    Conserves stream ⟨d, src, r.popped⟩ := by
  refine ⟨?_, h.framed⟩
  rw [← h.whole, Reading.whole, Reading.whole, heq]

theorem Conserves.pop {stream : Bytes} {r : Reading} (h : Conserves stream r) :
    Conserves stream (r.call .pop) := by
  rcases r.decoder.takeFrame_cases with ⟨hnone, -⟩ | ⟨frame, rest, hsome, hbuf, hlen⟩
  · simpa only [call, FrameDecoder.pop, hnone] using h
  · simpa only [call, FrameDecoder.pop, hsome] using
      h.hand_out (by rw [hbuf, List.append_assoc]) hlen

theorem Conserves.extendFrom {stream : Bytes} {r : Reading} (h : Conserves stream r) :
    Conserves stream (r.call .extendFrom) := by
  obtain ⟨d, src, popped⟩ := r
  match src with
  | [] => exact h
  | .err kind :: src => exact h.shift (by simp)
  | .bytes b bs :: src => exact h.shift (by simp [FrameDecoder.extendFrom])

theorem Conserves.read1 {stream : Bytes} {r : Reading} (h : Conserves stream r) :
    Conserves stream (r.call .read1) := by
  match heq : r.decoder.read1 r.src with
  | (.ok (.frame frame), d, src) =>
    obtain ⟨-, -, hstream, hlen⟩ := FrameDecoder.read1_spec heq
    simpa only [call, heq] using h.hand_out hstream hlen
  | (.ok .pending, d, src) =>
    obtain ⟨-, -, hstream⟩ := FrameDecoder.read1_spec heq
    simpa only [call, heq] using h.shift hstream
  | (.ok .closed, d, src) =>
    obtain ⟨-, -, hstream, -⟩ := FrameDecoder.read1_spec heq
    simpa only [call, heq] using h.shift hstream
  | (.error kind, d, src) =>
    obtain ⟨-, -, hstream, -⟩ := FrameDecoder.read1_spec heq
    simpa only [call, heq] using h.shift hstream

/-- **No schedule loses the place in the stream.** -/
theorem Conserves.run {stream : Bytes} {r : Reading} (h : Conserves stream r)
    (calls : List DecoderCall) : Conserves stream (r.run calls) := by
  induction calls generalizing r with
  | nil => exact h
  | cons c calls ih =>
    refine ih ?_
    cases c with
    | extendFrom => exact h.extendFrom
    | pop => exact h.pop
    | read1 => exact h.read1

/-- A decoder at the start of a source. -/
def start (src : Source) : Reading := ⟨FrameDecoder.new, src, []⟩

theorem conserves_start (src : Source) : Conserves src.stream (start src) :=
  ⟨by simp [start, Reading.whole, FrameDecoder.new], fun _ h => absurd h List.not_mem_nil⟩

/-- What has been handed out is the beginning of the splitter's items, and the splitter finds the
rest of them in what has not. -/
theorem Conserves.items {stream : Bytes} {r : Reading} (h : Conserves stream r) :
    LengthPrefix.deframer.items stream
      = r.popped ++ LengthPrefix.deframer.items (r.decoder.buf ++ r.src.stream) := by
  rw [← h.whole, Reading.whole, LengthPrefix.items_frames_append h.framed]

end Reading

/-! ### Popping to exhaustion -/

namespace FrameDecoder

/-- `while let Some(frame) = decoder.pop()`: the frames, and the decoder afterwards. -/
def popAll (d : FrameDecoder) : List Bytes × FrameDecoder :=
  match _h : d.pop with
  | (some frame, d') => (frame :: (popAll d').1, (popAll d').2)
  | (none, d') => ([], d')
termination_by d.buf.length
decreasing_by
  all_goals
    rcases d.takeFrame_cases with ⟨hnone, -⟩ | ⟨frame', rest, hsome, hbuf, -⟩
    · rw [pop, hnone] at _h
      cases _h
    · rw [pop, hsome] at _h
      cases _h
      show rest.length < d.buf.length
      rw [hbuf, List.length_append, LengthPrefix.length_frame]
      omega

/-- **Popping to exhaustion** hands out the splitter's items of the buffer and keeps what the
splitter leaves over. -/
theorem popAll_eq (d : FrameDecoder) :
    d.popAll = (LengthPrefix.deframer.items d.buf,
      { d with buf := LengthPrefix.deframer.leftover d.buf }) := by
  obtain ⟨buf, chunk⟩ := d
  induction buf using LengthPrefix.deframer.drain_induction with
  | more buf h =>
    have hpop : FrameDecoder.pop ⟨buf, chunk⟩ = (none, ⟨buf, chunk⟩) := takeFrame_of_more h
    rw [popAll, Deframer.items_of_more h, Deframer.leftover_of_more h]
    split
    · simp_all
    · simp_all
  | item buf frame rest h ih =>
    have hpop : FrameDecoder.pop ⟨buf, chunk⟩ = (some frame, ⟨rest, chunk⟩) := takeFrame_of_item h
    rw [popAll, Deframer.items_of_item h, Deframer.leftover_of_item h]
    split
    · simp_all
    · simp_all
  | stop buf c h => exact c.elim

/-! ### Reading until end of file -/

/-- What `read1` returns short of end of file and errors uses up either the buffer or the source. -/
theorem read1_progress {d d' : FrameDecoder} {src src' : Source} {out : Read1}
    (h : d.read1 src = (.ok out, d', src')) (hout : out ≠ .closed) :
    d'.buf.length + src'.weight < d.buf.length + src.weight := by
  rcases d.read1_cases src with ⟨frame, rest, heq, hbuf, -⟩ | ⟨-, hcases⟩
  · rw [heq] at h
    cases h
    show rest.length + src.weight < d.buf.length + src.weight
    rw [hbuf, List.length_append, LengthPrefix.length_frame]
    omega
  rcases hcases with ⟨src₁, heq, -⟩ | ⟨bs, src₁, hread, hne, hcases⟩ | ⟨kind, src₁, hread, heq⟩
  · rw [heq] at h
    cases h
    exact absurd rfl hout
  · have hweight := (Source.read_ok hread).2.1
    have hpos : 0 < bs.length := List.length_pos_iff.mpr hne
    rcases hcases with ⟨heq, -⟩ | ⟨frame, rest, heq, hbuf, -⟩
    · rw [heq] at h
      cases h
      rw [extendFrom, List.length_append]
      omega
    · rw [heq] at h
      cases h
      have hlen := congrArg List.length hbuf
      rw [List.length_append, List.length_append, LengthPrefix.length_frame] at hlen
      show rest.length + src'.weight < d.buf.length + src.weight
      omega
  · have hweight : src.weight = 1 + src₁.weight := by rw [Source.read_error hread, Source.weight]
    rw [heq] at h
    split_ifs at h
    · cases h
      omega
    · cases h

/-- Call `read1` until end of file or a lasting error, collecting the frames. -/
def readAll (d : FrameDecoder) (src : Source) : List Bytes :=
  match _h : d.read1 src with
  | (.ok (.frame frame), d', src') => frame :: readAll d' src'
  | (.ok .pending, d', src') => readAll d' src'
  | (.ok .closed, _, _) => []
  | (.error _, _, _) => []
termination_by d.buf.length + src.weight
decreasing_by all_goals exact read1_progress _h (by simp)

/-- **The decoder yields the splitter's items.** However the stream is cut into reads, and however
often a read times out in between. -/
theorem readAll_eq {d : FrameDecoder} {src : Source} (hchunk : 0 < d.chunk)
    (hsrc : src.OnlyErrors fun kind => transient kind = true) :
    d.readAll src = LengthPrefix.deframer.items (d.buf ++ src.stream) := by
  fun_induction readAll d src with
  | case1 d src frame d' src' h ih =>
    obtain ⟨hd, hp, hstream, hlen⟩ := read1_spec h
    have hparse : LengthPrefix.deframer.parse (d.buf ++ src.stream)
        = .item frame (d'.buf ++ src'.stream) := by
      rw [hstream]
      exact LengthPrefix.parse_frame_append hlen _
    rw [ih (hd ▸ hchunk) (hp _ hsrc), Deframer.items_of_item hparse]
  | case2 d src d' src' h ih =>
    obtain ⟨hd, hp, hstream⟩ := read1_spec h
    rw [ih (hd ▸ hchunk) (hp _ hsrc), hstream]
  | case3 d src d' src' h =>
    obtain ⟨-, -, -, hmore, hnil⟩ := read1_spec h
    rw [hnil hchunk, Source.stream_nil, List.append_nil, Deframer.items_of_more hmore]
  | case4 d src kind d' src' h =>
    obtain ⟨-, -, -, hmem, hlasting⟩ := read1_spec h
    rw [hsrc kind hmem] at hlasting
    cases hlasting

end FrameDecoder

/-- Call `read_frame` until it reports the end of the stream or an error. -/
def readFrames (src : Source) : List Bytes :=
  match _h : readFrame src with
  | (.ok (some frame), src') => frame :: readFrames src'
  | _ => []
termination_by src.weight
decreasing_by
  simp only [readFrame] at _h
  split at _h
  · cases _h
  · cases _h
  · rename_i lenBuf src₁ hfirst
    split at _h
    · rename_i buf src₂ hsecond
      cases _h
      have h₁ := (Source.readExact_ok hfirst).2.2
      have h₂ := (Source.readExact_ok hsecond).2.2
      omega
    · cases _h
    · cases _h

/-- On a source without errors `read_frame` makes one cut of the splitter. -/
theorem readFrame_of_item {src : Source} {frame rest : Bytes} (h : src.Clean)
    (hparse : LengthPrefix.parse src.stream = .item frame rest) :
    ∃ src', readFrame src = (.ok (some frame), src') ∧ src'.stream = rest ∧ src'.Clean := by
  obtain ⟨hle, rfl, rfl⟩ := LengthPrefix.parse_eq_item hparse
  obtain ⟨src₁, hfirst, hdrop, hclean⟩ := Source.readExact_of_le h (n := 4) (by omega)
  have hlen : LengthPrefix.announced src.stream ≤ src₁.stream.length := by
    rw [hdrop, List.length_drop]
    omega
  obtain ⟨src₂, hsecond, hdrop₂, hclean₂⟩ := Source.readExact_of_le hclean hlen
  refine ⟨src₂, ?_, by rw [hdrop₂, hdrop], hclean₂⟩
  rw [LengthPrefix.announced] at hsecond
  rw [readFrame, hfirst]
  simp only [hsecond, hdrop]
  rfl

theorem readFrame_of_more {src : Source} (h : src.Clean)
    (hparse : LengthPrefix.parse src.stream = .more) :
    ∃ src', readFrame src = (.ok none, src') := by
  by_cases h4 : src.stream.length < 4
  · exact ⟨[], by rw [readFrame, Source.readExact_of_lt h h4]⟩
  · have hshort : src.stream.length < 4 + LengthPrefix.announced src.stream := by
      rcases LengthPrefix.parse_eq_more_iff.mp hparse with hp | hp
      · exact absurd hp h4
      · exact hp
    obtain ⟨src₁, hfirst, hdrop, hclean⟩ := Source.readExact_of_le h (n := 4) (by omega)
    have hlen : src₁.stream.length < LengthPrefix.announced src.stream := by
      rw [hdrop, List.length_drop]
      omega
    have hsecond := Source.readExact_of_lt hclean hlen
    rw [LengthPrefix.announced] at hsecond
    exact ⟨[], by rw [readFrame, hfirst]; simp only [hsecond]⟩

/-- **Repeated `read_frame` yields the splitter's items**, however the stream is cut into reads. -/
theorem readFrames_eq {src : Source} (h : src.Clean) :
    readFrames src = LengthPrefix.deframer.items src.stream := by
  fun_induction readFrames src with
  | case1 src frame src' heq ih =>
    match hparse : LengthPrefix.parse src.stream with
    | .item body rest =>
      obtain ⟨src₁, hread, hrest, hclean⟩ := readFrame_of_item h hparse
      cases hread.symm.trans heq
      rw [Deframer.items_of_item hparse, ih hclean, hrest]
    | .more =>
      obtain ⟨src₁, hread⟩ := readFrame_of_more h hparse
      cases hread.symm.trans heq
  | case2 src heq =>
    match hparse : LengthPrefix.parse src.stream with
    | .item body rest =>
      obtain ⟨src₁, hread, -⟩ := readFrame_of_item h hparse
      exact absurd hread (heq _ _)
    | .more => rw [Deframer.items_of_more hparse]

end Protocol

end Aiomsg
