import Aiomsg.Conn.PlainSession
import Aiomsg.Ws.Sniff

/-!
# The sniff in front of a TLS session

`read_one_byte`, `tls_session` and the reading half of `tls_reader` of `rust-lib-sync/src/conn.rs`.
The byte that the sniff has taken cannot be put back into the TLS stream. It is the first byte of a
length, and the decoder of the session is given it before anything else; the decoder is kept from
the HELLO to the end.

The source is the plaintext. An arrival is what one read of the socket brings; a read that brings no
plaintext changes nothing and is left out. What the handshake has left of an arrival in the
connection, or a part of it, is what `drain_plaintext` finds. The HELLO is written and the handles
are cloned without an error, and the broker is there as long as the session is.

## Scope

Decryption is rustls's. What it does is in the source: a list of arrivals of plaintext. The session
behind a `G`, that is WebSocket, is a parameter, since nothing of it matters to the choice.

## Main definitions

* `tlsSession`
* `sessionOf` — what a session tells the broker, in terms of the frames of the stream

## Main results

* `tlsSession_sniffed`, `tlsSession_unsniffed`
* `sniff_transparent` — both crates
-/

namespace Aiomsg

open Protocol

namespace Conn

variable {C : Type}

/-- Read exactly one byte, retrying on read-timeout ticks until the deadline. -/
def readOneByte (late : ℕ → Bool) (src : Source) : Option (UInt8 × Source) :=
  match src.gather 1 (· ≠ []) transient ⟨fun _ => false, late⟩ 0 [] with
  | .stopped (b :: _) rest => some (b, rest)
  | _ => none

/-- The loop of `tls_reader`: what it sends to the broker. -/
def readerLoop (peer : Identity) : FrameDecoder → Source → List (Command C Bytes)
  | _, [] => []
  | _, .err _ :: _ => []
  | d, .bytes b bs :: src =>
    let (cmds, d) := forwardFrames (d.extendFrom (b :: bs)) peer
    cmds ++ readerLoop peer d src

/-- `drain_plaintext`, which finds no more than `drained` bytes. An error is left to the reader. -/
def drainPlaintext (drained : ℕ) (d : FrameDecoder) (src : Source) : FrameDecoder × Source :=
  match src.read drained with
  | (.ok bytes, src) => (d.extendFrom bytes, src)
  | (.error _, _) => (d, src)

/-- `tls_reader` -/
def tlsReader (peer : Identity) (drained : ℕ) (d : FrameDecoder) (src : Source) :
    List (Command C Bytes) :=
  let (cmds, d) := forwardFrames d peer
  let (d, src) := drainPlaintext drained d src
  let (cmds', d) := forwardFrames d peer
  cmds ++ cmds' ++ readerLoop peer d src

/-- `tls_session` behind the sniff. `accepted` is the broker's answer to its `ConnectionUp`. -/
def tlsRest (late : ℕ → Bool) (accepted : Bool) (writer accept : C) (drained : ℕ)
    (d : FrameDecoder) (src : Source) : List (Command C Bytes) :=
  match readHello late 0 d src with
  | none => []
  | some (peer, d, src) =>
    .connectionUp peer writer accept ::
      if accepted then tlsReader peer drained d src ++ [.connectionDown peer] else []

/-- `tls_session`, with what `ws_session` sends to the broker for what follows a `G`. -/
def tlsSession (wsSession : Source → List (Command C Bytes)) (late late' : ℕ → Bool)
    (accepted : Bool) (writer accept : C) (drained : ℕ) (sniff : Bool) (src : Source) :
    List (Command C Bytes) :=
  if sniff then
    match readOneByte late src with
    | none => []
    | some (b, src) =>
      if b = 71 then wsSession src
      else if b = 0x00 then
        tlsRest late' accepted writer accept drained (FrameDecoder.new.extendFrom [0x00]) src
      else []
  else tlsRest late' accepted writer accept drained .new src

/-- What a session tells the broker, if it hears these frames. -/
def sessionOf (accepted : Bool) (writer accept : C) : List Bytes → List (Command C Bytes)
  | [] => []
  | first :: frames =>
    match decode first with
    | some (.hello version peer) =>
      if version = protocolVersion then
        .connectionUp peer writer accept ::
          if accepted then
            (frames.filterMap forwarded).map (.received peer) ++ [.connectionDown peer]
          else []
      else []
    | _ => []

/-! ### The reader -/

/-- A forwarding hands on what is there in whole frames. -/
theorem forwardFrames_eq (d : FrameDecoder) (peer : Identity) :
    forwardFrames (C := C) d peer = ((deliverable d.buf).map (.received peer),
      { d with buf := LengthPrefix.deframer.leftover d.buf }) := by
  rw [forwardFrames, FrameDecoder.popAll_eq]
  rfl

/-- Bytes that follow what has been forwarded. -/
theorem deliverable_append (bytes more : Bytes) :
    deliverable (bytes ++ more)
      = deliverable bytes ++ deliverable (LengthPrefix.deframer.leftover bytes ++ more) := by
  rw [deliverable, Deframer.items_append, List.filterMap_append]
  rfl

theorem readerLoop_eq (peer : Identity) {d : FrameDecoder} {src : Source} (hsrc : src.Clean)
    (hmore : LengthPrefix.parse d.buf = .more) :
    readerLoop (C := C) peer d src = (deliverable (d.buf ++ src.stream)).map (.received peer) := by
  induction src generalizing d with
  | nil =>
    rw [Source.stream_nil, List.append_nil, deliverable_of_more hmore]
    rfl
  | cons a src ih =>
    match a with
    | .err kind => exact absurd hsrc Source.not_clean_err
    | .bytes b bs =>
      have hrest := ih (d := { d.extendFrom (b :: bs) with
        buf := LengthPrefix.deframer.leftover (d.extendFrom (b :: bs)).buf }) hsrc.tail
        (LengthPrefix.deframer.parse_leftover _)
      have hbuf : (d.extendFrom (b :: bs)).buf = d.buf ++ b :: bs := rfl
      rw [readerLoop, forwardFrames_eq]
      dsimp only at hrest ⊢
      rw [hrest, hbuf, Source.stream_bytes, ← List.append_assoc, deliverable_append (d.buf ++ _),
        List.map_append]

theorem drainPlaintext_eq (drained : ℕ) (d : FrameDecoder) {src : Source} (hsrc : src.Clean) :
    (drainPlaintext drained d src).1.buf ++ (drainPlaintext drained d src).2.stream
        = d.buf ++ src.stream ∧ (drainPlaintext drained d src).2.Clean := by
  rw [drainPlaintext]
  rcases hread : src.read drained with ⟨_ | _, src'⟩
  · exact ⟨rfl, hsrc⟩
  · obtain ⟨hstream, -, honly⟩ := Source.read_ok hread
    refine ⟨?_, honly _ hsrc⟩
    rw [hstream, ← List.append_assoc]
    rfl

/-- **The reader forwards** what the decoder and the stream hold together. -/
theorem tlsReader_eq (peer : Identity) (drained : ℕ) (d : FrameDecoder) {src : Source}
    (hsrc : src.Clean) :
    tlsReader (C := C) peer drained d src
      = (deliverable (d.buf ++ src.stream)).map (.received peer) := by
  rw [tlsReader, forwardFrames_eq]
  dsimp only
  obtain ⟨hsame, hclean⟩ := drainPlaintext_eq drained
    { d with buf := LengthPrefix.deframer.leftover d.buf } hsrc
  generalize drainPlaintext drained _ src = r at hsame hclean
  obtain ⟨d', src'⟩ := r
  dsimp only at hsame hclean ⊢
  have hrest := readerLoop_eq (C := C) peer (d := { d' with
    buf := LengthPrefix.deframer.leftover d'.buf }) hclean (LengthPrefix.deframer.parse_leftover _)
  rw [forwardFrames_eq]
  dsimp only at hrest ⊢
  rw [hrest, List.append_assoc, deliverable_append d.buf, ← hsame, deliverable_append d'.buf,
    List.map_append, List.map_append]

/-! ### The handshake -/

/-- What `read_hello` comes to on a stream. -/
inductive Greeting (stream : Bytes) : Option (Identity × FrameDecoder × Source) → Prop
  /-- The stream ends before a frame is there. -/
  | early (hmore : LengthPrefix.parse stream = .more) : Greeting stream none
  /-- The first frame is no HELLO of this version. -/
  | other {body rest : Bytes} (hitem : LengthPrefix.parse stream = .item body rest)
      (hnot : ∀ peer, decode body ≠ some (.hello protocolVersion peer)) : Greeting stream none
  | hello {body : Bytes} {peer : Identity} {d : FrameDecoder} {src : Source}
      (hitem : LengthPrefix.parse stream = .item body (d.buf ++ src.stream))
      (hhello : decode body = some (.hello protocolVersion peer)) (hclean : src.Clean) :
      Greeting stream (some (peer, d, src))

theorem greeting_readHello {late : ℕ → Bool} (hlate : ∀ n, late n = false) (polls : ℕ)
    {d : FrameDecoder} {src : Source} (hchunk : 0 < d.chunk) (hsrc : src.Clean) :
    Greeting (d.buf ++ src.stream) (readHello late polls d src) := by
  fun_induction readHello late polls d src with
  | case1 polls d src kind d' src' hread =>
    obtain ⟨-, -, -, hmem, -⟩ := FrameDecoder.read1_spec hread
    exact (hsrc kind hmem).elim
  | case2 polls d src frame d' src' hread peer hdecode =>
    obtain ⟨-, honly, hstream, hlength⟩ := FrameDecoder.read1_spec hread
    have hitem := LengthPrefix.parse_frame_append hlength (d'.buf ++ src'.stream)
    rw [← hstream] at hitem
    exact .hello hitem hdecode (honly _ hsrc)
  | case3 polls d src frame d' src' hread version peer hdecode hversion =>
    obtain ⟨-, -, hstream, hlength⟩ := FrameDecoder.read1_spec hread
    have hitem := LengthPrefix.parse_frame_append hlength (d'.buf ++ src'.stream)
    rw [← hstream] at hitem
    refine .other hitem fun peer' hhello => hversion ?_
    rw [hdecode, Option.some.injEq] at hhello
    exact (Envelope.hello.inj hhello).1
  | case4 polls d src frame d' src' hread hnot =>
    obtain ⟨-, -, hstream, hlength⟩ := FrameDecoder.read1_spec hread
    have hitem := LengthPrefix.parse_frame_append hlength (d'.buf ++ src'.stream)
    rw [← hstream] at hitem
    exact .other hitem fun peer hhello => hnot _ _ hhello
  | case5 polls d src d' src' hread hover => exact absurd hover (by simp [hlate])
  | case6 polls d src d' src' hread hover ih =>
    obtain ⟨hd, honly, hstream⟩ := FrameDecoder.read1_spec hread
    rw [hstream]
    exact ih (hd ▸ hchunk) (honly _ hsrc)
  | case7 polls d src d' src' hread =>
    obtain ⟨-, -, -, hmore, hnil⟩ := FrameDecoder.read1_spec hread
    rw [hnil hchunk, Source.stream_nil, List.append_nil]
    exact .early hmore

/-! ### The session -/

section Session

variable {wsSession : Source → List (Command C Bytes)} {late late' : ℕ → Bool} {accepted : Bool}
  {writer accept : C} {drained : ℕ}

/-- **A session hears the frames** of what its decoder holds and of what it reads. -/
theorem tlsRest_eq (hlate : ∀ n, late' n = false) {d : FrameDecoder} (hchunk : 0 < d.chunk)
    {src : Source} (hsrc : src.Clean) :
    tlsRest late' accepted writer accept drained d src
      = sessionOf accepted writer accept (LengthPrefix.deframer.items (d.buf ++ src.stream)) := by
  have hgreeting := greeting_readHello hlate 0 hchunk hsrc
  rw [tlsRest]
  generalize d.buf ++ src.stream = stream at hgreeting ⊢
  generalize readHello late' 0 d src = r at hgreeting ⊢
  cases hgreeting with
  | early hmore =>
    rw [Deframer.items_of_more hmore]
    rfl
  | @other body rest hitem hnot =>
    rw [Deframer.items_of_item hitem, sessionOf]
    match hdecode : decode body with
    | some (.hello version peer) =>
      have hversion : version ≠ protocolVersion := by
        rintro rfl
        exact hnot peer hdecode
      exact (if_neg hversion).symm
    | none => rfl
    | some (.heartbeat) => rfl
    | some (.data _) => rfl
    | some (.dataReq _ _) => rfl
    | some (.ack _) => rfl
  | @hello body peer d src hitem hhello hclean =>
    rw [Deframer.items_of_item hitem, sessionOf, hhello]
    dsimp only
    rw [if_pos rfl, tlsReader_eq peer drained d hclean]
    rfl

theorem readOneByte_eq (hlate : ∀ n, late n = false) {src : Source} (hsrc : src.Clean) {b : UInt8}
    {bytes : Bytes} (hstream : src.stream = b :: bytes) :
    readOneByte late src = some (b, src.behindFirst) ∧ src.behindFirst.stream = bytes := by
  have hclock : Source.Clock.Never ⟨fun _ => false, late⟩ := ⟨fun _ => rfl, hlate⟩
  obtain ⟨hgather, hrest⟩ :=
    Source.gather_first transient hclock 0 (hsrc.onlyErrors _) hstream
  rw [readOneByte, hgather]
  exact ⟨rfl, hrest⟩

theorem tlsSession_unsniffed (hlate : ∀ n, late' n = false) {src : Source} (hsrc : src.Clean) :
    tlsSession wsSession late late' accepted writer accept drained false src
      = sessionOf accepted writer accept (LengthPrefix.deframer.items src.stream) := by
  rw [tlsSession, if_neg Bool.false_ne_true, tlsRest_eq hlate (by decide) hsrc]
  rfl

theorem tlsSession_sniffed (hlate : ∀ n, late n = false) (hlate' : ∀ n, late' n = false)
    {src : Source} (hsrc : src.Clean) {bytes : Bytes} (hstream : src.stream = 0x00 :: bytes) :
    tlsSession wsSession late late' accepted writer accept drained true src
      = sessionOf accepted writer accept (LengthPrefix.deframer.items src.stream) := by
  obtain ⟨hbyte, hrest⟩ := readOneByte_eq hlate hsrc hstream
  rw [tlsSession, if_pos rfl, hbyte]
  dsimp only
  rw [if_neg (by decide), if_pos rfl, tlsRest_eq hlate' (by decide) hsrc.behindFirst, hrest,
    hstream]
  rfl

/-- **Another first byte**: nothing is told to the broker. -/
theorem tlsSession_other (hlate : ∀ n, late n = false) {src : Source} (hsrc : src.Clean)
    {b : UInt8} {bytes : Bytes} (hstream : src.stream = b :: bytes) (hzero : b ≠ 0x00)
    (hG : b ≠ 71) :
    tlsSession wsSession late late' accepted writer accept drained true src = [] := by
  obtain ⟨hbyte, -⟩ := readOneByte_eq hlate hsrc hstream
  rw [tlsSession, if_pos rfl, hbyte]
  dsimp only
  rw [if_neg hG, if_neg hzero]

end Session

open Ws (notReady) in
/-- **The sniff is transparent.** If the first byte is zero, the asynchronous crate reads the
original stream, with buffers of any sizes, and the TLS session of the synchronous one tells the
broker what it would without the sniff, which is what the frames of the stream amount to. If it is
neither zero nor a `G`, the one hands on no stream, and neither tells the broker anything. -/
theorem sniff_transparent (wsSession : Source → List (Command C Bytes)) (accepted : Bool)
    (writer accept : C) (drained : ℕ) (failure : Option ErrorKind) (room : List (Option ℕ)) :
    (∀ (src : Source) (bytes : Bytes), src.OnlyErrors (notReady ·) → src.stream = 0x00 :: bytes →
      ∃ p : Ws.Prefixed, Ws.Async.sniffAndWrap failure room src = ⟨.ok (some (.raw p)), []⟩ ∧
        ∀ (caps : ℕ → ℕ+) (turn : ℕ), p.readToEnd caps turn = src.stream) ∧
    (∀ (src : Source) (bytes : Bytes), src.Clean → src.stream = 0x00 :: bytes →
      tlsSession wsSession (fun _ => false) (fun _ => false) accepted writer accept drained true src
          = sessionOf accepted writer accept (LengthPrefix.deframer.items src.stream) ∧
        ∀ (drained' : ℕ) (src' : Source), src'.Clean → src'.stream = src.stream →
          tlsSession wsSession (fun _ => false) (fun _ => false) accepted writer accept drained'
              false src'
            = sessionOf accepted writer accept (LengthPrefix.deframer.items src.stream)) ∧
    ∀ (src : Source) (b : UInt8) (bytes : Bytes), src.stream = b :: bytes → b ≠ 0x00 → b ≠ 71 →
      (src.OnlyErrors (notReady ·) →
        Ws.Async.sniffAndWrap failure room src = ⟨.ok none, []⟩ ∧
          ∀ handleConnection : Ws.Async.Sniffed → List (Command C Bytes),
            Ws.Async.sniffThenHandle handleConnection failure room src = []) ∧
      (src.Clean → tlsSession wsSession (fun _ => false) (fun _ => false) accepted writer accept
        drained true src = []) := by
  refine ⟨?_, ?_, ?_⟩
  · intro src bytes hsrc hstream
    exact Ws.Async.sniffAndWrap_raw hsrc hstream
  · intro src bytes hsrc hstream
    refine ⟨tlsSession_sniffed (fun _ => rfl) (fun _ => rfl) hsrc hstream, ?_⟩
    intro drained' src' hsrc' hsame
    rw [tlsSession_unsniffed (fun _ => rfl) hsrc', hsame]
  · intro src b bytes hstream hzero hG
    constructor
    · intro hsrc
      have hother := Ws.Async.sniffAndWrap_other failure room hsrc hstream hzero hG
      refine ⟨hother, fun handleConnection => ?_⟩
      rw [Ws.Async.sniffThenHandle, hother]
    · intro hsrc
      exact tlsSession_other (fun _ => rfl) hsrc hstream hzero hG

/-- A HELLO with a DATA frame behind it, with or without the sniff, and a stream that begins with an
`X`. -/
theorem sniff_transparent_helloRead :
    tlsSession (fun _ => []) (fun _ => false) (fun _ => false) true () () 0 true
        (helloRead [] ++ probe)
      = sessionOf true () ()
        (LengthPrefix.deframer.items (Source.stream (helloRead [] ++ probe))) ∧
    Ws.Async.sniffAndWrap none [] [.bytes 88 [89]] = ⟨.ok none, []⟩ := by
  have hclean : Source.Clean (helloRead [] ++ probe) := by
    simp [helloRead, probe, Source.Clean, Source.OnlyErrors]
  have hready : Source.OnlyErrors (Ws.notReady ·) [.bytes 88 [89]] := by
    simp [Source.OnlyErrors]
  obtain ⟨-, htls, hother⟩ := sniff_transparent (C := Unit) (fun _ => []) true () () 0 none []
  exact ⟨(htls _ _ hclean rfl).1, ((hother _ 88 [89] rfl (by decide) (by decide)).1 hready).1⟩

end Conn

end Aiomsg
