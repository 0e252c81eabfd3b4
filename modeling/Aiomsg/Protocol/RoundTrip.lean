import Aiomsg.Protocol.FrameDecoder

/-!
# The codec round trip

Encoders, framing and `decode` put together: a list of envelopes written to a stream comes out of
a `FrameDecoder` as the same list, however the stream is cut and whichever calls drive the decoder.
The three layers meet in `frame_eq_frame`: below `2 ^ 32` bytes of body, an encoder's output is one
frame of the abstract splitter, so everything about cutting streams is inherited from there.

## Scope

A HELLO is only encodable with the version that the encoder writes; other versions can be decoded
and not be built. Round trips are stated for lists, since nothing between two frames marks where one
ends.
-/

namespace Aiomsg

namespace Envelope

open Protocol

/-- An envelope an encoder builds, with a body short enough for its length prefix. -/
def Fits (e : Envelope Bytes) : Prop := e.Encodable ∧ e.body.length < 2 ^ 32

/-- An envelope that fits is written as one frame of the splitter. -/
theorem Fits.frame_eq_frame {e : Envelope Bytes} (h : e.Fits) :
    e.frame = LengthPrefix.frame e.body := by
  rw [frame_eq h.1, putLenPrefix_eq, LengthPrefix.frame]

theorem flatten_frames {es : List (Envelope Bytes)} (h : ∀ e ∈ es, e.Fits) :
    (es.map frame).flatten = ((es.map body).map LengthPrefix.frame).flatten := by
  rw [List.map_map]
  exact congrArg _ (List.map_congr_left fun e he => (h e he).frame_eq_frame)

/-- **The splitter undoes the encoders.** -/
theorem items_frames {es : List (Envelope Bytes)} (h : ∀ e ∈ es, e.Fits) :
    LengthPrefix.deframer.items (es.map frame).flatten = es.map body := by
  rw [flatten_frames h]
  refine LengthPrefix.items_frames fun b hb => ?_
  obtain ⟨e, he, rfl⟩ := List.mem_map.mp hb
  exact (h e he).2

theorem map_decode_body (es : List (Envelope Bytes)) : (es.map body).map decode = es.map some := by
  rw [List.map_map]
  exact List.map_congr_left fun e _ => decode_body e

end Envelope

namespace Protocol

open Envelope

/-- Everything left to hand out splits off the envelopes not yet delivered. -/
theorem Reading.Conserves.split {es : List (Envelope Bytes)} {r : Reading}
    (hes : ∀ e ∈ es, e.Fits) (h : Conserves (es.map frame).flatten r) :
    ∃ done rest, es = done ++ rest ∧ r.popped = done.map body ∧
      r.decoder.buf ++ r.src.stream = (rest.map frame).flatten ∧
      LengthPrefix.deframer.items (r.decoder.buf ++ r.src.stream) = rest.map body := by
  have hitems := h.items
  rw [items_frames hes] at hitems
  obtain ⟨done, rest, rfl, hdone, hrest⟩ := List.map_eq_append_iff.mp hitems
  refine ⟨done, rest, rfl, hdone.symm, ?_, hrest.symm⟩
  have hwhole := h.whole
  rw [Reading.whole, ← hdone, ← flatten_frames fun e he => hes e (List.mem_append_left _ he),
    List.map_append, List.flatten_append] at hwhole
  exact List.append_cancel_left hwhole

/-- **The codec round trip under any chunking.** Whatever calls drive the decoder, the frames
handed out so far decode to a prefix of the envelopes written, the bytes not handed out are exactly
the remaining frames, and once the source is exhausted popping yields the remaining envelopes. On
an arbitrary stream, the decoder and repeated `read_frame` yield the same frames up to end of file,
each under its own cut of the stream. -/
theorem frameDecoder_round_trip :
    (∀ (es : List (Envelope Bytes)) (src : Source) (calls : List DecoderCall) (r : Reading),
      (∀ e ∈ es, e.Fits) → src.stream = (es.map frame).flatten →
      r = (Reading.start src).run calls →
        ∃ done rest, es = done ++ rest ∧ r.popped.map decode = done.map some ∧
          r.decoder.buf ++ r.src.stream = (rest.map frame).flatten ∧
          (r.src.stream = [] →
            r.decoder.popAll.1.map decode = rest.map some ∧ r.decoder.popAll.2.buf = [])) ∧
    (∀ src₁ src₂ : Source, (src₁.OnlyErrors fun kind => transient kind = true) → src₂.Clean →
      src₁.stream = src₂.stream → FrameDecoder.new.readAll src₁ = readFrames src₂) := by
  constructor
  · rintro es src calls r hes hsrc rfl
    have hcons := (Reading.conserves_start src).run calls
    rw [hsrc] at hcons
    obtain ⟨done, rest, hsplit, hpopped, hbytes, hitems⟩ := hcons.split hes
    refine ⟨done, rest, hsplit, by rw [hpopped, map_decode_body], hbytes, fun hend => ?_⟩
    rw [hend, List.append_nil] at hitems hbytes
    have hrest : ∀ e ∈ rest, e.Fits := fun e he => hes e (hsplit ▸ List.mem_append_right _ he)
    have hleft := LengthPrefix.frames_items_append_leftover
      ((Reading.start src).run calls).decoder.buf
    rw [hitems, ← flatten_frames hrest, ← hbytes] at hleft
    rw [FrameDecoder.popAll_eq, hitems, map_decode_body]
    exact ⟨rfl, List.append_right_eq_self.mp hleft⟩
  · intro src₁ src₂ h₁ h₂ hstream
    rw [FrameDecoder.readAll_eq (by decide) h₁, readFrames_eq h₂, FrameDecoder.new, List.nil_append,
      hstream]

/-- A heartbeat and a one-byte DATA, cut inside both length prefixes with a timeout in between. -/
theorem frameDecoder_round_trip_cut :
    (∃ done rest : List (Envelope Bytes), [.heartbeat, .data [7]] = done ++ rest ∧
      ((Reading.start [.bytes 0 [0], .err .timedOut, .bytes 0 [1, 2, 0, 0], .bytes 0 [2, 3, 7]]).run
        [.read1, .read1, .extendFrom, .pop, .read1]).popped.map decode = done.map some) ∧
    FrameDecoder.new.readAll [.bytes 0 [0], .err .timedOut, .bytes 0 [1, 2, 0]]
      = readFrames [.bytes 0 [0, 0, 1], .bytes 2 [0]] := by
  constructor
  · have hfits : ∀ e ∈ [Envelope.heartbeat, .data [7]], Envelope.Fits e := by
      simp [Fits, Envelope.Encodable, body]
    obtain ⟨done, rest, hsplit, hpopped, -⟩ := frameDecoder_round_trip.1 _
      [.bytes 0 [0], .err .timedOut, .bytes 0 [1, 2, 0, 0], .bytes 0 [2, 3, 7]]
      [.read1, .read1, .extendFrom, .pop, .read1] _ hfits (by decide) rfl
    exact ⟨done, rest, hsplit, hpopped⟩
  · exact frameDecoder_round_trip.2 _ _ (by simp [Source.OnlyErrors, transient])
      (by simp [Source.Clean, Source.OnlyErrors]) (by decide)

end Protocol

end Aiomsg
