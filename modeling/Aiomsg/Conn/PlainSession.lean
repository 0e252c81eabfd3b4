import Aiomsg.Broker.Basic
import Aiomsg.Protocol.PayloadOpacity

/-!
# The plain session

`plain_session` in `rust-lib-sync/src/conn.rs`: what one connection over plain TCP tells the broker.
The handshake reads through a `FrameDecoder`, which may take in more than the HELLO. What it has in
whole frames is forwarded; then the session goes on with `read_frame` on the socket itself, and the
decoder is not looked at again. Bytes of an incomplete frame behind the HELLO stay in it, and the
rest of that frame is read from the socket as if it were the beginning of one.

So whether a session hears its peer correctly depends on one thing: whether the read that completes
the HELLO ends between two frames. The TLS and WebSocket sessions keep their decoder and do not have
this.

The deadline of `read_hello` is asked for after each read that does not complete the frame; `late`
gives the answers. The broker is there as long as the session is, so no send to it fails.

## Scope

Only what the session tells the broker is modelled, so the thread that writes is not here, and
neither are its own HELLO and heartbeats. The socket is a list of arrivals with what one read brings
in each; an error or the end of it is the last. Deadlines are asked for through `late`, and may be
anything.

## Main results

* `received_plainSession` — what a session forwards
* `plainSession_exact_iff` — it forwards what it should, whatever follows, exactly if the read that
  completes the HELLO ends on a frame boundary
-/

namespace Aiomsg

open Protocol

namespace Conn

variable {C : Type}

/-- Read the peer's HELLO frame before the deadline, returning its identity. -/
def readHello (late : ℕ → Bool) (polls : ℕ) (d : FrameDecoder) (src : Source) :
    Option (Identity × FrameDecoder × Source) :=
  match _h : d.read1 src with
  | (.error _, _, _) => none
  | (.ok (.frame frame), d', src') =>
    match decode frame with
    | some (.hello version identity) =>
      if version = protocolVersion then some (identity, d', src') else none
    | _ => none
  | (.ok .pending, d', src') =>
    if late polls then none else readHello late (polls + 1) d' src'
  | (.ok .closed, _, _) => none
termination_by d.buf.length + src.weight
decreasing_by exact FrameDecoder.read1_progress _h (by simp)

/-- The envelope a session forwards for a frame. Heartbeats only prove liveness, HELLO is
unexpected, unknown types are ignored. -/
def forwarded (frame : Bytes) : Option (Envelope Bytes) :=
  match decode frame with
  | some .heartbeat | some (.hello _ _) | none => none
  | some envelope => some envelope

/-- Forward every complete frame currently buffered in `d` to the broker. -/
def forwardFrames (d : FrameDecoder) (peer : Identity) : List (Command C Bytes) × FrameDecoder :=
  ((d.popAll.1.filterMap forwarded).map (.received peer), d.popAll.2)

/-- The commands a plain session sends to the broker. `accepted` is the broker's answer to its
`ConnectionUp`. -/
def plainSession (late : ℕ → Bool) (accepted : Bool) (writer accept : C) (src : Source) :
    List (Command C Bytes) :=
  match readHello late 0 .new src with
  | none => []
  | some (peer, d, src') =>
    .connectionUp peer writer accept ::
      if accepted then
        (forwardFrames d peer).1 ++
          ((readFrames src').filterMap forwarded).map (.received peer) ++ [.connectionDown peer]
      else []

/-- The `Received` commands among some commands. -/
def received (cmds : List (Command C Bytes)) : List (Identity × Envelope Bytes) :=
  cmds.filterMap fun
    | .received identity envelope => some (identity, envelope)
    | _ => none

/-! ### The handshake -/

/-- The length of an arrival. -/
def size : Arrival → ℕ
  | .bytes _ bs => bs.length + 1
  | .err _ => 0

/-- The reads of a handshake with `peer`: each of at most 16 KiB, and the last of them the one that
completes the HELLO.

`last` is what ties the reads to the handshake. Without it there could be further reads, which
`read_hello` would never make. -/
structure Handshake (peer : Identity) (reads : Source) : Prop where
  clean : reads.Clean
  small : ∀ a ∈ reads, size a ≤ 16 * 1024
  hello : ∃ body rest, LengthPrefix.parse reads.stream = .item body rest ∧
    decode body = some (.hello protocolVersion peer)
  last : LengthPrefix.parse (Source.stream reads.dropLast) = .more

/-- A read of at most a chunk is taken in whole. -/
theorem read_bytes {cap : ℕ} {b : UInt8} {bs : List UInt8} (h : bs.length + 1 ≤ cap)
    (src : Source) : Source.read cap (.bytes b bs :: src) = (.ok (b :: bs), src) := by
  rw [Source.read, List.take_of_length_le h, List.drop_of_length_le h]
  rfl

theorem read1_bytes_of_more {d : FrameDecoder} {b : UInt8} {bs : List UInt8} (src : Source)
    (hmore : LengthPrefix.parse d.buf = .more) (hsmall : bs.length + 1 ≤ d.chunk)
    (hparse : LengthPrefix.parse (d.buf ++ b :: bs) = .more) :
    d.read1 (.bytes b bs :: src) = (.ok .pending, d.extendFrom (b :: bs), src) := by
  have htake : (d.extendFrom (b :: bs)).takeFrame = (none, d.extendFrom (b :: bs)) :=
    FrameDecoder.takeFrame_of_more hparse
  rw [FrameDecoder.read1, FrameDecoder.takeFrame_of_more hmore, read_bytes hsmall]
  simp only [htake]

theorem read1_bytes_of_item {d : FrameDecoder} {b : UInt8} {bs frame rest : List UInt8}
    (src : Source) (hmore : LengthPrefix.parse d.buf = .more) (hsmall : bs.length + 1 ≤ d.chunk)
    (hparse : LengthPrefix.parse (d.buf ++ b :: bs) = .item frame rest) :
    d.read1 (.bytes b bs :: src) = (.ok (.frame frame), { d with buf := rest }, src) := by
  have htake : (d.extendFrom (b :: bs)).takeFrame = (some frame, { d with buf := rest }) :=
    FrameDecoder.takeFrame_of_item hparse
  rw [FrameDecoder.read1, FrameDecoder.takeFrame_of_more hmore, read_bytes hsmall]
  simp only [htake]

theorem readHello_of_pending {late : ℕ → Bool} {polls : ℕ} {d d' : FrameDecoder}
    {src src' : Source} (h : d.read1 src = (.ok .pending, d', src')) (hlate : late polls = false) :
    readHello late polls d src = readHello late (polls + 1) d' src' := by
  rw [readHello]
  split <;> simp_all

theorem readHello_of_frame {late : ℕ → Bool} {polls : ℕ} {d d' : FrameDecoder}
    {src src' : Source} {frame : Bytes} {peer : Identity}
    (h : d.read1 src = (.ok (.frame frame), d', src'))
    (hdecode : decode frame = some (.hello protocolVersion peer)) :
    readHello late polls d src = some (peer, d', src') := by
  rw [readHello]
  split <;> simp_all

/-- Reading the HELLO: the reads up to the one that completes it are taken in whole, and what comes
behind the HELLO in them is left in the decoder. -/
theorem readHello_eq {late : ℕ → Bool} (hlate : ∀ n, late n = false) {peer : Identity}
    {body rest : Bytes} (hdecode : decode body = some (.hello protocolVersion peer))
    {d : FrameDecoder} (polls : ℕ) {reads : Source} (post : Source) (hclean : reads.Clean)
    (hsmall : ∀ a ∈ reads, size a ≤ d.chunk) (hmore : LengthPrefix.parse d.buf = .more)
    (hlast : LengthPrefix.parse (d.buf ++ Source.stream reads.dropLast) = .more)
    (hparse : LengthPrefix.parse (d.buf ++ reads.stream) = .item body rest) :
    readHello late polls d (reads ++ post) = some (peer, { d with buf := rest }, post) := by
  induction reads generalizing d polls with
  | nil =>
    rw [Source.stream_nil, List.append_nil, hmore] at hparse
    exact absurd hparse nofun
  | cons a reads ih =>
    match a, hclean with
    | .err _, hclean => exact absurd hclean Source.not_clean_err
    | .bytes b bs, hclean =>
      have hfit : bs.length + 1 ≤ d.chunk := hsmall _ List.mem_cons_self
      rcases List.eq_nil_or_concat reads with rfl | ⟨_, _, hcons⟩
      · rw [Source.stream_bytes, Source.stream_nil, List.append_nil] at hparse
        exact readHello_of_frame (read1_bytes_of_item post hmore hfit hparse) hdecode
      · have hne : reads ≠ [] := by simp [hcons]
        rw [List.dropLast_cons_of_ne_nil hne, Source.stream_bytes, ← List.append_assoc] at hlast
        rw [Source.stream_bytes, ← List.append_assoc] at hparse
        -- had this read completed a frame, the next ones would not undo it
        have hmore' : LengthPrefix.parse (d.buf ++ b :: bs) = .more := by
          match hcut : LengthPrefix.parse (d.buf ++ b :: bs) with
          | .more => rfl
          | .item frame tail =>
            have happend := LengthPrefix.deframer.item_append (Source.stream reads.dropLast) hcut
            exact absurd (happend.symm.trans hlast) nofun
        rw [List.cons_append,
          readHello_of_pending (read1_bytes_of_more _ hmore hfit hmore') (hlate polls)]
        exact ih (polls + 1) hclean.tail (fun a ha => hsmall a (List.mem_cons_of_mem _ ha)) hmore'
          hlast hparse

/-! ### What is forwarded -/

theorem received_append (cmds cmds' : List (Command C Bytes)) :
    received (cmds ++ cmds') = received cmds ++ received cmds' :=
  List.filterMap_append

theorem received_map (peer : Identity) (envelopes : List (Envelope Bytes)) :
    received (envelopes.map (Command.received (C := C) peer)) = envelopes.map (Prod.mk peer) := by
  rw [received, List.filterMap_map, ← List.filterMap_eq_map]
  rfl

/-- What should be forwarded of a stretch of the stream. -/
def deliverable (bytes : Bytes) : List (Envelope Bytes) :=
  (LengthPrefix.deframer.items bytes).filterMap forwarded

/-- **What a session forwards**: what the handshake left in the decoder in whole frames, and then
what the rest of the stream looks like when read on its own. -/
theorem received_plainSession {late : ℕ → Bool} (hlate : ∀ n, late n = false) (writer accept : C)
    {peer : Identity} {reads : Source} (h : Handshake peer reads) {body rest : Bytes}
    (hparse : LengthPrefix.parse reads.stream = .item body rest) {post : Source}
    (hpost : post.Clean) :
    received (plainSession late true writer accept (reads ++ post))
      = (deliverable rest ++ deliverable post.stream).map (Prod.mk peer) := by
  obtain ⟨body', rest', hparse', hdecode⟩ := h.hello
  obtain ⟨rfl, rfl⟩ := Parse.item.inj (hparse.symm.trans hparse')
  have hhello : readHello late 0 .new (reads ++ post)
      = some (peer, { FrameDecoder.new with buf := rest }, post) :=
    readHello_eq hlate hdecode 0 post h.clean h.small rfl h.last hparse
  rw [plainSession, hhello]
  show received (Command.connectionUp peer writer accept ::
    ((forwardFrames { FrameDecoder.new with buf := rest } peer).1 ++
      ((readFrames post).filterMap forwarded).map (.received peer) ++ [.connectionDown peer])) = _
  rw [forwardFrames, FrameDecoder.popAll_eq, readFrames_eq hpost, ← List.map_append]
  show received ((deliverable rest ++ deliverable post.stream).map (.received peer) ++ _) = _
  rw [received_append, received_map]
  exact List.append_nil _

theorem clean_singleton (b : UInt8) (bs : List UInt8) : Source.Clean [.bytes b bs] := by
  simp [Source.Clean, Source.OnlyErrors]

/-- A DATA frame with an empty payload, as a read of its own. -/
def probe : Source := [.bytes 0 [0, 0, 1, 3]]

theorem deliverable_of_more {bytes : Bytes} (h : LengthPrefix.parse bytes = .more) :
    deliverable bytes = [] := by
  rw [deliverable, Deframer.items_of_more h]
  rfl

theorem deliverable_of_item {bytes body rest : Bytes}
    (h : LengthPrefix.parse bytes = .item body rest) :
    deliverable bytes = (forwarded body).toList ++ deliverable rest := by
  rw [deliverable, Deframer.items_of_item h, List.filterMap_cons]
  cases forwarded body <;> rfl

theorem deliverable_probe : deliverable (Source.stream probe) = [.data []] := by
  have hparse : LengthPrefix.parse (Source.stream probe) = .item [3] [] := by decide
  rw [deliverable_of_item hparse, deliverable_of_more rfl]
  rfl

theorem deliverable_drop_probe {k : ℕ} (hk : 0 < k) :
    deliverable ((Source.stream probe).drop k) = [] := by
  refine deliverable_of_more ?_
  match k, hk with
  | 1, _ | 2, _ | 3, _ | 4, _ => decide
  | k + 5, _ =>
    rw [List.drop_of_length_le (Nat.le_add_left 5 k)]
    rfl

theorem decode_of_forwarded {frame : Bytes} {envelope : Envelope Bytes}
    (h : forwarded frame = some envelope) : decode frame = some envelope := by
  rw [forwarded] at h
  split at h <;> simp_all

/-- Behind one to three bytes the probe cannot complete a length of one: the last byte of the length
is one of its own zeros. -/
theorem announced_append_probe {started : Bytes} (hne : started ≠ []) (h4 : started.length < 4) :
    LengthPrefix.announced (started ++ Source.stream probe) ≠ 1 := by
  have hvalue : ∀ x y z : UInt8, BigEndian.value [x, y, z, 0] ≠ 1 := by
    intro x y z
    have hzero : (0 : UInt8).toNat = 0 := rfl
    simp only [BigEndian.value, List.length_cons, List.length_nil, hzero]
    omega
  rcases started with _ | ⟨x, _ | ⟨y, _ | ⟨z, _ | ⟨u, rest⟩⟩⟩⟩
  · exact absurd rfl hne
  · exact hvalue x 0 0
  · exact hvalue x y 0
  · exact hvalue x y z
  · simp only [List.length_cons] at h4
    omega

/-- Behind the beginning of a frame, the probe is not heard. -/
theorem deliverable_append_probe {started : Bytes} (hmore : LengthPrefix.parse started = .more)
    (hne : started ≠ []) : deliverable (started ++ Source.stream probe) ≠ [.data []] := by
  match hparse : LengthPrefix.parse (started ++ Source.stream probe) with
  | .more =>
    rw [deliverable_of_more hparse]
    exact nofun
  | .item body rest =>
    obtain ⟨hle, rfl, rfl⟩ := LengthPrefix.parse_eq_item hparse
    -- the frame that was started ends inside the probe
    have hgt : started.length < 4 + LengthPrefix.announced (started ++ Source.stream probe) := by
      rcases LengthPrefix.parse_eq_more_iff.mp hmore with h4 | hlt
      · omega
      · by_cases h4 : started.length < 4
        · omega
        · rw [LengthPrefix.announced_append (Nat.not_lt.mp h4)]
          exact hlt
    have hrest : ((started ++ Source.stream probe).drop 4).drop
          (LengthPrefix.announced (started ++ Source.stream probe))
        = (Source.stream probe).drop
          (4 + LengthPrefix.announced (started ++ Source.stream probe) - started.length) := by
      rw [List.drop_drop, List.drop_append, List.drop_of_length_le hgt.le, List.nil_append]
    rw [deliverable_of_item hparse, hrest, deliverable_drop_probe (by omega), List.append_nil]
    -- it would have to be a DATA frame of one byte, all of it from the probe
    intro heq
    have hdecode := decode_of_forwarded (Option.toList_eq_singleton_iff.mp heq)
    have hone := length_of_decode_data hdecode
    rw [List.length_take, List.length_drop, List.length_nil] at hone
    have hlen : LengthPrefix.announced (started ++ Source.stream probe) = 1 := by omega
    have h4 : ¬ started.length < 4 := fun h4 => announced_append_probe hne h4 hlen
    have hzero : (started ++ Source.stream probe).drop 4 = Source.stream probe := by
      rw [List.drop_append, List.drop_of_length_le (by omega), List.nil_append]
      have hsub : 4 - started.length = 0 := by omega
      rw [hsub, List.drop_zero]
    rw [hlen, hzero] at hdecode
    exact absurd hdecode (by decide)

/-- **A session forwards exactly what follows the HELLO, whatever follows it, if and only if the
read that completes the HELLO ends on a frame boundary.** -/
theorem plainSession_exact_iff {late : ℕ → Bool} (hlate : ∀ n, late n = false) (writer accept : C)
    {peer : Identity} {reads : Source} (h : Handshake peer reads) :
    (∀ post : Source, post.Clean →
      received (plainSession late true writer accept (reads ++ post))
        = ((LengthPrefix.deframer.items (Source.stream (reads ++ post))).tail.filterMap
            forwarded).map (Prod.mk peer)) ↔
      LengthPrefix.deframer.leftover reads.stream = [] := by
  obtain ⟨body, rest, hparse, -⟩ := h.hello
  have hitems : ∀ post : Source, (LengthPrefix.deframer.items (Source.stream (reads ++ post))).tail
      = LengthPrefix.deframer.items rest ++
        LengthPrefix.deframer.items (LengthPrefix.deframer.leftover rest ++ post.stream) := by
    intro post
    rw [Source.stream_append,
      Deframer.items_of_item (LengthPrefix.deframer.item_append post.stream hparse), List.tail_cons,
      Deframer.items_append]
  rw [Deframer.leftover_of_item hparse]
  constructor
  · intro hexact
    by_contra hne
    have hclean : probe.Clean := clean_singleton _ _
    have hprobe := hexact probe hclean
    rw [received_plainSession hlate writer accept h hparse hclean, hitems, List.filterMap_append]
      at hprobe
    have hdeliver := List.append_cancel_left
      (List.map_injective_iff.mpr (Prod.mk_right_injective peer) hprobe)
    rw [deliverable_probe] at hdeliver
    have hmore := LengthPrefix.deframer.parse_leftover rest
    exact deliverable_append_probe hmore hne hdeliver.symm
  · intro hboundary post hpost
    rw [received_plainSession hlate writer accept h hparse hpost, hitems, hboundary,
      List.nil_append, List.filterMap_append]
    rfl

/-- The HELLO of some peer, and `extra` bytes behind it, in one read. -/
def helloRead (extra : Bytes) : Source :=
  [.bytes 0 ([0, 0, 18, 1, 1] ++ List.replicate 16 7 ++ extra)]

theorem parse_helloRead (extra : Bytes) :
    LengthPrefix.parse (Source.stream (helloRead extra))
      = .item ([1, 1] ++ List.replicate 16 7) extra := by
  have hstream : Source.stream (helloRead extra)
      = LengthPrefix.frame ([1, 1] ++ List.replicate 16 7) ++ extra := by
    simp [helloRead, LengthPrefix.frame, BigEndian.encode]
  rw [hstream]
  exact LengthPrefix.parse_frame_append (by decide) extra

theorem handshake_helloRead {extra : Bytes} (h : extra.length ≤ 16000) :
    Handshake (List.Vector.replicate 16 7) (helloRead extra) where
  clean := by simp [helloRead, Source.Clean, Source.OnlyErrors]
  small := by
    intro a ha
    rw [List.mem_singleton.mp ha]
    simp [size]
    omega
  hello := ⟨_, extra, parse_helloRead extra, by decide⟩
  last := rfl

/-- A HELLO that comes in a read of its own, and a DATA frame. -/
theorem plainSession_exact_helloRead :
    received (plainSession (fun _ => false) true () () (helloRead [] ++ probe))
      = ((LengthPrefix.deframer.items (Source.stream (helloRead [] ++ probe))).tail.filterMap
          forwarded).map (Prod.mk (List.Vector.replicate 16 7)) := by
  have hboundary : LengthPrefix.deframer.leftover (Source.stream (helloRead [])) = [] := by
    have hparse := parse_helloRead []
    rw [← LengthPrefix.deframer_parse] at hparse
    rw [Deframer.leftover_of_item hparse]
    exact Deframer.leftover_of_more rfl
  have hlate : ∀ n, (fun _ : ℕ => false) n = false := fun _ => rfl
  exact (plainSession_exact_iff hlate () () (handshake_helloRead (by simp))).mpr hboundary probe
    (clean_singleton _ _)

/-- **A DATA frame whose first byte comes with the HELLO is lost.** The session is sent HELLO and
DATA complete and in order, and forwards nothing. -/
theorem plainSession_loses_data :
    Handshake (List.Vector.replicate 16 7) (helloRead [0]) ∧
    Source.stream (helloRead [0] ++ [.bytes 0 [0, 1, 3]])
      = hello (List.Vector.replicate 16 7) ++ data [] ∧
    received (plainSession (fun _ => false) true () () (helloRead [0] ++ [.bytes 0 [0, 1, 3]]))
      ≠ ((LengthPrefix.deframer.items
            (Source.stream (helloRead [0] ++ [.bytes 0 [0, 1, 3]]))).tail.filterMap
          forwarded).map (Prod.mk (List.Vector.replicate 16 7)) := by
  have hshake : Handshake (List.Vector.replicate 16 7) (helloRead [0]) :=
    handshake_helloRead (by simp)
  refine ⟨hshake, by decide, ?_⟩
  have hnothing : deliverable [0] ++ deliverable (Source.stream [.bytes 0 [0, 1, 3]]) = [] := by
    rw [deliverable_of_more rfl, deliverable_of_more (by decide)]
    rfl
  have hlate : ∀ n, (fun _ : ℕ => false) n = false := fun _ => rfl
  have hdata := deliverable_probe
  rw [deliverable] at hdata
  have hparse := parse_helloRead [0]
  rw [← LengthPrefix.deframer_parse] at hparse
  rw [received_plainSession hlate () () hshake (parse_helloRead [0]) (clean_singleton _ _),
    hnothing, Source.stream_append,
    Deframer.items_of_item (LengthPrefix.deframer.item_append _ hparse)]
  show [] ≠ ((LengthPrefix.deframer.items (Source.stream probe)).filterMap forwarded).map _
  rw [hdata]
  exact nofun

end Conn

end Aiomsg
