import Aiomsg.CLib.Protocol
import Aiomsg.Protocol.RoundTrip

/-!
# Payload bytes are never parsed as frames — up to the width of the prefix

The wire format puts a payload inside a frame whose length is announced in front of it, so a reader
steps over the payload whatever its bytes are. Both encoders write the announced length through a
narrowing cast: `body_len as u32` in Rust, four `uint8_t` casts of shifted bytes in C. From a body
of `2 ^ 32` bytes on, the prefix announces less than the body has, and the reader takes the rest of
the payload for frames.

The bound is exact in both directions, for both encoders and both decoders. A decoder never yields
an envelope of `2 ^ 32` bytes or more (`LengthPrefix.length_lt_of_mem_items`), so an oversized
payload cannot come out whole; below the bound the splitter undoes the encoder.

## Scope

The C encoder is given sizes as natural numbers, so the only narrowing is the one in the prefix. An
envelope without a payload never reaches the bound. What an application makes of a payload is its
own affair, and so is what the misread frames behind an oversized one would do to a broker.
-/

namespace Aiomsg

open Protocol Envelope

/-- The stream that starts with `first` and goes on with a frame for each of `following`. -/
def streamOf (first : Bytes) (following : List Bytes) : Bytes :=
  first ++ (following.map LengthPrefix.frame).flatten

/-- What `decode` can only have made from a DATA body of the payload's length plus one. -/
theorem Protocol.length_of_decode_data {frame payload : Bytes}
    (h : decode frame = some (.data payload)) : frame.length = 1 + payload.length := by
  match frame with
  | t :: body =>
    rw [decode] at h
    split_ifs at h <;> cases h
    rw [List.length_cons, Nat.add_comm]

theorem Protocol.length_of_decode_dataReq {frame payload : Bytes} {msgId : MsgId}
    (h : decode frame = some (.dataReq msgId payload)) : frame.length = 17 + payload.length := by
  match frame with
  | t :: body =>
    rw [decode] at h
    split_ifs at h with _ _ _ _ _ hlen <;> cases h
    have hlen : ¬ body.length < 16 := hlen
    rw [List.length_cons, List.length_drop, msgIdSize]
    omega

/-- A frame whose prefix is its body's length below `2 ^ 32` comes off the stream whole, and the
frames behind it come off as they are. -/
theorem items_streamOf {body : Bytes} {following : List Bytes} (hbody : body.length < 2 ^ 32)
    (hf : ∀ b ∈ following, b.length < 2 ^ 32) :
    LengthPrefix.deframer.items (streamOf (LengthPrefix.frame body) following)
      = body :: following := by
  have hall : ∀ b ∈ body :: following, b.length < 2 ^ 32 := by
    intro b hb
    rcases List.mem_cons.mp hb with rfl | hb
    · exact hbody
    · exact hf b hb
  exact LengthPrefix.items_frames hall

/-- The law for one envelope: a stream that starts with its frame yields it first, and then
everything behind it, exactly when its body is short enough for the prefix. -/
theorem map_decode_items_iff {e : Envelope Bytes} (he : e.Encodable) {following : List Bytes}
    (hf : ∀ b ∈ following, b.length < 2 ^ 32)
    (hlen : ∀ frame, decode frame = some e → frame.length = e.body.length) :
    (LengthPrefix.deframer.items (streamOf e.frame following)).map decode
      = some e :: following.map decode ↔ e.body.length < 2 ^ 32 := by
  constructor
  · intro h
    obtain ⟨frame, rest, hitems, hdecode, -⟩ := List.map_eq_cons_iff.mp h
    rw [← hlen frame hdecode]
    exact LengthPrefix.length_lt_of_mem_items _ frame (hitems ▸ List.mem_cons_self)
  · intro h
    rw [Fits.frame_eq_frame ⟨he, h⟩, items_streamOf h hf, List.map_cons, decode_body]

/-- The envelopes the Rust decoder yields from a source until end of file. -/
def rustYields (src : Source) : List (Option (Envelope Bytes)) :=
  (FrameDecoder.new.readAll src).map decode

/-- The envelopes the C decoder yields once a list of chunks has been pushed. -/
def cYields (chunks : List Bytes) : List (Option (Envelope Bytes)) :=
  (chunks.foldl CLib.Decoder.push CLib.Decoder.init).popAll.1.map CLib.parseEnvelope

theorem rustYields_eq {src : Source} (h : src.OnlyErrors fun kind => transient kind = true) :
    rustYields src = (LengthPrefix.deframer.items src.stream).map decode := by
  rw [rustYields, FrameDecoder.readAll_eq (by decide) h, FrameDecoder.new, List.nil_append]

theorem cYields_eq (chunks : List Bytes) :
    cYields chunks = (LengthPrefix.deframer.items chunks.flatten).map decode := by
  obtain ⟨hvalid, hcontent⟩ := CLib.Decoder.push_chunks CLib.Decoder.valid_init chunks
  rw [cYields, (CLib.Decoder.popAll_eq hvalid).1, hcontent]
  exact congrArg (fun f => List.map f _) (funext CLib.parseEnvelope_eq_decode)

theorem CLib.frameData_eq (payload : Bytes) :
    CLib.frameData payload = (Envelope.data payload).frame := by
  rw [CLib.frameData, CLib.frame_eq, Envelope.frame_eq (e := .data payload) trivial,
    putLenPrefix_eq]
  rfl

theorem CLib.frameDataReq_eq (msgId : MsgId) (payload : Bytes) :
    CLib.frameDataReq msgId payload = (Envelope.dataReq msgId payload).frame := by
  rw [CLib.frameDataReq, CLib.frame_eq, Envelope.frame_eq (e := .dataReq msgId payload) trivial,
    putLenPrefix_eq]
  rfl

theorem length_body_data (payload : Bytes) :
    (Envelope.data payload).body.length = 1 + payload.length := by
  rw [Envelope.body, List.length_cons, Nat.add_comm]

theorem length_body_dataReq (msgId : MsgId) (payload : Bytes) :
    (Envelope.dataReq msgId payload).body.length = 17 + payload.length := by
  rw [Envelope.body, List.length_cons, List.length_append, List.Vector.toList_length]
  omega

/-- **Payload bytes are never parsed as frames, exactly below the width of the prefix.** For each of
the two encoders of the two libraries, and however the stream is delivered: the decoder yields the
one envelope with the whole payload, followed by exactly the frames behind it, if and only if the
body has fewer than `2 ^ 32` bytes. -/
theorem payload_opaque_iff (msgId : MsgId) (payload : Bytes) {following : List Bytes}
    (hf : ∀ b ∈ following, b.length < 2 ^ 32) :
    (∀ src : Source, (src.OnlyErrors fun kind => transient kind = true) →
      src.stream = streamOf (Protocol.data payload) following →
        (rustYields src = some (.data payload) :: following.map decode ↔
          1 + payload.length < 2 ^ 32)) ∧
    (∀ src : Source, (src.OnlyErrors fun kind => transient kind = true) →
      src.stream = streamOf (Protocol.dataReq msgId payload) following →
        (rustYields src = some (.dataReq msgId payload) :: following.map decode ↔
          17 + payload.length < 2 ^ 32)) ∧
    (∀ chunks : List Bytes, chunks.flatten = streamOf (CLib.frameData payload) following →
      (cYields chunks = some (.data payload) :: following.map decode ↔
        1 + payload.length < 2 ^ 32)) ∧
    (∀ chunks : List Bytes, chunks.flatten = streamOf (CLib.frameDataReq msgId payload) following →
      (cYields chunks = some (.dataReq msgId payload) :: following.map decode ↔
        17 + payload.length < 2 ^ 32)) := by
  have hdata := map_decode_items_iff (e := .data payload) trivial hf fun frame h => by
    rw [length_of_decode_data h, length_body_data]
  have hreq := map_decode_items_iff (e := .dataReq msgId payload) trivial hf fun frame h => by
    rw [length_of_decode_dataReq h, length_body_dataReq]
  rw [length_body_data] at hdata
  rw [length_body_dataReq] at hreq
  refine ⟨fun src herr hsrc => ?_, fun src herr hsrc => ?_, fun chunks hchunks => ?_,
    fun chunks hchunks => ?_⟩
  · rw [rustYields_eq herr, hsrc]
    exact hdata
  · rw [rustYields_eq herr, hsrc]
    exact hreq
  · rw [cYields_eq, hchunks, CLib.frameData_eq]
    exact hdata
  · rw [cYields_eq, hchunks, CLib.frameDataReq_eq]
    exact hreq

/-- A payload that spells out a heartbeat frame, followed by a heartbeat. -/
theorem payload_opaque_heartbeat :
    rustYields [.bytes 0 [0, 0], .err .wouldBlock, .bytes 6 [3, 0, 0, 0, 1, 2, 0, 0, 0, 1, 2]]
        = [some (.data [0, 0, 0, 1, 2]), some .heartbeat] ∧
      cYields [[0, 0, 0, 6, 3], [0, 0, 0, 1, 2, 0, 0], [0, 1, 2]]
        = [some (.data [0, 0, 0, 1, 2]), some .heartbeat] := by
  obtain ⟨hrust, -, hc, -⟩ := payload_opaque_iff (List.Vector.replicate 16 0) [0, 0, 0, 1, 2]
    (show ∀ b ∈ [[2]], b.length < 2 ^ 32 by simp)
  have herr : Source.OnlyErrors (fun kind => transient kind = true) [.bytes 0 [0, 0],
      .err .wouldBlock, .bytes 6 [3, 0, 0, 0, 1, 2, 0, 0, 0, 1, 2]] := by
    simp [Source.OnlyErrors, transient]
  exact ⟨(hrust _ herr (by decide)).mpr (by decide), (hc _ (by decide)).mpr (by decide)⟩

/-- With `2 ^ 32 - 1` zero bytes of payload the body has `2 ^ 32` bytes, both prefixes announce an
empty frame, and neither decoder yields the payload. -/
theorem payload_of_two_pow_32_not_opaque :
    rustYields (Source.putBack (Protocol.data (List.replicate (2 ^ 32 - 1) 0)) [])
        ≠ [some (.data (List.replicate (2 ^ 32 - 1) 0))] ∧
      cYields [CLib.frameData (List.replicate (2 ^ 32 - 1) 0)]
        ≠ [some (.data (List.replicate (2 ^ 32 - 1) 0))] := by
  have hlen : (Envelope.data (List.replicate (2 ^ 32 - 1) 0)).body.length = 2 ^ 32 := by
    rw [length_body_data, List.length_replicate]
    omega
  have hiff := map_decode_items_iff (e := .data (List.replicate (2 ^ 32 - 1) 0)) trivial
    (show ∀ b ∈ ([] : List Bytes), b.length < 2 ^ 32 by simp) fun frame h => by
      rw [length_of_decode_data h, length_body_data]
  rw [hlen] at hiff
  have hstream : ∀ bs : Bytes, streamOf bs [] = bs := fun bs => List.append_nil bs
  rw [hstream] at hiff
  constructor
  · intro h
    rw [rustYields_eq (Source.onlyErrors_nil.putBack _), Source.stream_putBack, Source.stream_nil,
      List.append_nil] at h
    exact absurd (hiff.mp h) (Nat.lt_irrefl _)
  · intro h
    rw [cYields_eq, CLib.frameData_eq, List.flatten_singleton] at h
    exact absurd (hiff.mp h) (Nat.lt_irrefl _)

end Aiomsg
