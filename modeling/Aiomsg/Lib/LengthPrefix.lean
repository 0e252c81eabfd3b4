import Aiomsg.Lib.BigEndian
import Aiomsg.Lib.Deframe

/-!
# Length-prefixed frames

The abstract splitter of a stream of frames, each a four-byte big-endian length and that many
bytes. It is the specification every concrete decoder of such a stream is compared with.

## Scope

The length is read as a natural number below `2 ^ 32`, and a frame may be as long as it says: there
is no limit to reject a frame by, and none to allocate for. A decoder with a limit, or with a length
in a signed register, is compared with this one and not described by it.

The splitter never stops. Every four bytes announce a body, so what is not a frame yet is the
beginning of one.

## Main results

* `items_frames_append` — a concatenation of frames is cut into exactly the bodies it was built
  from, whatever follows
* `length_lt_of_mem_items` — no body that is ever cut off has `2 ^ 32` bytes or more
-/

namespace LengthPrefix

/-- The length announced by the first four bytes. -/
def announced (buf : List UInt8) : ℕ := BigEndian.value (buf.take 4)

/-- One frame around `body`. -/
def frame (body : List UInt8) : List UInt8 := BigEndian.encode 4 body.length ++ body

@[simp] theorem length_frame (body : List UInt8) : (frame body).length = 4 + body.length := by
  rw [frame, List.length_append, BigEndian.length_encode]

/-- Cut one frame off the front, if all of it is there. -/
def parse (buf : List UInt8) : Parse UInt8 (List UInt8) Empty :=
  if buf.length < 4 then .more
  else if buf.length < 4 + announced buf then .more
  else .item ((buf.drop 4).take (announced buf)) ((buf.drop 4).drop (announced buf))

theorem announced_append {buf : List UInt8} (h : 4 ≤ buf.length) (more : List UInt8) :
    announced (buf ++ more) = announced buf := by
  rw [announced, announced, List.take_append_of_le_length h]

theorem announced_lt (buf : List UInt8) : announced buf < 2 ^ 32 := by
  have hval := BigEndian.value_lt (buf.take 4)
  have hpow : 256 ^ (buf.take 4).length ≤ 256 ^ 4 :=
    Nat.pow_le_pow_right (by decide) (List.length_take_le _ _)
  exact lt_of_lt_of_le hval (le_trans hpow (by decide))

/-- Everything a cut says about the buffer it was made from. -/
theorem parse_eq_item {buf body rest : List UInt8} (h : parse buf = .item body rest) :
    4 + announced buf ≤ buf.length ∧ body = (buf.drop 4).take (announced buf) ∧
      rest = (buf.drop 4).drop (announced buf) := by
  unfold parse at h
  split_ifs at h with h₁ h₂
  cases h
  exact ⟨Nat.le_of_not_lt h₂, rfl, rfl⟩

theorem parse_of_le {buf : List UInt8} (h : 4 + announced buf ≤ buf.length) :
    parse buf = .item ((buf.drop 4).take (announced buf)) ((buf.drop 4).drop (announced buf)) := by
  rw [parse, if_neg (by omega), if_neg (by omega)]

theorem parse_eq_more_iff {buf : List UInt8} :
    parse buf = .more ↔ buf.length < 4 ∨ buf.length < 4 + announced buf := by
  unfold parse
  split_ifs with h₁ h₂
  · simp [h₁]
  · simp [h₂]
  · simp [h₁, h₂]

/-- The splitter. It never stops: any four bytes announce some length. -/
def deframer : Deframer UInt8 (List UInt8) Empty where
  parse := parse
  shrinks := by
    intro buf body rest h
    obtain ⟨hle, -, rfl⟩ := parse_eq_item h
    rw [List.length_drop, List.length_drop]
    omega
  item_append := by
    intro buf body rest more h
    obtain ⟨hle, rfl, rfl⟩ := parse_eq_item h
    have hann := announced_append (by omega : 4 ≤ buf.length) more
    rw [parse_of_le (by rw [hann, List.length_append]; omega), hann,
      List.drop_append_of_le_length (by omega : 4 ≤ buf.length),
      List.take_append_of_le_length (by rw [List.length_drop]; omega),
      List.drop_append_of_le_length (by rw [List.length_drop]; omega)]
  stop_append := fun {_ c} _ _ => c.elim

@[simp] theorem deframer_parse (buf : List UInt8) : deframer.parse buf = parse buf := rfl

/-- A body below `2 ^ 32` bytes is cut off whole, whatever follows it. -/
theorem parse_frame_append {body : List UInt8} (h : body.length < 2 ^ 32) (tail : List UInt8) :
    parse (frame body ++ tail) = .item body tail := by
  have hlen : (frame body ++ tail).length = 4 + (body.length + tail.length) := by
    rw [List.length_append, length_frame, Nat.add_assoc]
  have hdrop : (frame body ++ tail).drop 4 = body ++ tail := by
    rw [frame, List.append_assoc, List.drop_append_of_le_length (by simp),
      List.drop_of_length_le (by simp), List.nil_append]
  have hann : announced (frame body ++ tail) = body.length := by
    rw [announced, frame, List.append_assoc, List.take_append_of_le_length (by simp),
      List.take_of_length_le (by simp), BigEndian.value_encode_of_lt h]
  rw [parse_of_le (by omega), hdrop, hann, List.take_left, List.drop_left]

/-- **A concatenation of frames is cut into the bodies it was built from**, whatever follows. -/
theorem items_frames_append {bodies : List (List UInt8)}
    (h : ∀ body ∈ bodies, body.length < 2 ^ 32) (tail : List UInt8) :
    deframer.items ((bodies.map frame).flatten ++ tail) = bodies ++ deframer.items tail := by
  induction bodies with
  | nil => rfl
  | cons body bodies ih =>
    have hparse : deframer.parse (frame body ++ ((bodies.map frame).flatten ++ tail))
        = .item body ((bodies.map frame).flatten ++ tail) :=
      parse_frame_append (h body List.mem_cons_self) _
    rw [List.map_cons, List.flatten_cons, List.append_assoc,
      Deframer.items_of_item hparse,
      ih fun b hb => h b (List.mem_cons_of_mem _ hb), List.cons_append]

@[simp] theorem items_nil : deframer.items [] = [] := Deframer.items_of_more rfl

theorem items_frames {bodies : List (List UInt8)} (h : ∀ body ∈ bodies, body.length < 2 ^ 32) :
    deframer.items (bodies.map frame).flatten = bodies := by
  have hitems := items_frames_append h []
  rwa [items_nil, List.append_nil, List.append_nil] at hitems

/-- A cut takes one frame off the front and nothing else. -/
theorem eq_frame_append_of_item {buf body rest : List UInt8} (h : parse buf = .item body rest) :
    buf = frame body ++ rest ∧ body.length < 2 ^ 32 := by
  obtain ⟨hle, hbody, hrest⟩ := parse_eq_item h
  have hlen : body.length = announced buf := by
    rw [hbody, List.length_take_of_le (by rw [List.length_drop]; omega)]
  have hprefix : BigEndian.encode 4 body.length = buf.take 4 := by
    have hval := BigEndian.encode_value (buf.take 4)
    rwa [List.length_take_of_le (by omega : 4 ≤ buf.length), ← announced, ← hlen] at hval
  refine ⟨?_, hlen ▸ announced_lt buf⟩
  rw [frame, hprefix, hbody, hrest, List.append_assoc, List.take_append_drop,
    List.take_append_drop]

/-- Nothing the splitter cuts off is longer than a prefix can announce. -/
theorem length_lt_of_mem_items (buf : List UInt8) :
    ∀ body ∈ deframer.items buf, body.length < 2 ^ 32 := by
  induction buf using deframer.drain_induction with
  | more buf h =>
    intro body hmem
    rw [Deframer.items_of_more h] at hmem
    exact absurd hmem List.not_mem_nil
  | item buf body rest h ih =>
    intro body' hmem
    rw [Deframer.items_of_item h] at hmem
    rcases List.mem_cons.mp hmem with rfl | hmem
    · exact (eq_frame_append_of_item h).2
    · exact ih body' hmem
  | stop buf c h => exact c.elim

/-- **Nothing is lost.** A stream is the frames cut from it followed by what is left over. -/
theorem frames_items_append_leftover (buf : List UInt8) :
    ((deframer.items buf).map frame).flatten ++ deframer.leftover buf = buf := by
  induction buf using deframer.drain_induction with
  | more buf h => rw [Deframer.items_of_more h, Deframer.leftover_of_more h]; rfl
  | item buf body rest h ih =>
    rw [Deframer.items_of_item h, Deframer.leftover_of_item h, List.map_cons, List.flatten_cons,
      List.append_assoc, ih, ← (eq_frame_append_of_item h).1]
  | stop buf c h => exact c.elim

end LengthPrefix
