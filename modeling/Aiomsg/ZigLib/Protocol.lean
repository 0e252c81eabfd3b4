import Aiomsg.Protocol.FrameDecoder

/-!
# The Zig codec

`parseEnvelope` and `Decoder` of `zig-lib/src/protocol.zig`. The decoder keeps its bytes in one list
with a read position, and a push reclaims what has been read every now and then. Allocation
succeeds.

`pop` adds 4 to the length that a frame announces, in 32 bits. For the last four lengths that do not
fit, and a build that checks for overflow ends the process there; so does `pop` here. A frame of
such a length is never popped, and neither is what follows it.

## Reclaiming

What has been read stays in the list until a push finds enough of it, and the two conditions under
which it does are the source's. No statement depends on when that happens: all are about `content`,
the bytes behind the read position.

## Main results

* `Decoder.content_push` — a push appends to the unread bytes
* `Decoder.popSpec_pop`, `Decoder.popAll_some`, `Decoder.popAll_none` — popping, in terms of the
  splitter
-/

namespace Aiomsg

namespace ZigLib

open Protocol

theorem sixteen_of_hello {body : Bytes} (h : ¬ body.length < 1 + identitySize) :
    16 ≤ (body.drop 1).length := by
  rw [List.length_drop]
  simp only [identitySize] at h
  omega

theorem pos_of_hello {body : Bytes} (h : ¬ body.length < 1 + identitySize) : 0 < body.length := by
  omega

theorem sixteen_of_msgId {body : Bytes} (h : ¬ body.length < msgIdSize) : 16 ≤ body.length :=
  Nat.le_of_not_lt h

/-- Parse one envelope (no length prefix). -/
def parseEnvelope : Bytes → Option (Envelope Bytes)
  | [] => none
  | t :: body =>
    if t = tHello then
      if h : body.length < 1 + identitySize then none
      else
        some (.hello (body.get ⟨0, pos_of_hello h⟩)
          (firstSixteen (body.drop 1) (sixteen_of_hello h)))
    else if t = tHeartbeat then some .heartbeat
    else if t = tData then some (.data body)
    else if t = tDataReq then
      if h : body.length < msgIdSize then none
      else some (.dataReq (firstSixteen body (sixteen_of_msgId h)) (body.drop msgIdSize))
    else if t = tAck then
      if h : body.length < msgIdSize then none
      else some (.ack (firstSixteen body (sixteen_of_msgId h)))
    else none

theorem parseEnvelope_eq_decode (env : Bytes) : parseEnvelope env = decode env := by
  cases env <;> rfl

/-- `Decoder`. -/
structure Decoder where
  buf : Bytes
  /-- Consumed bytes before this offset. -/
  head : ℕ

namespace Decoder

def init : Decoder where
  buf := []
  head := 0

/-- The bytes pushed and not yet popped. -/
def content (d : Decoder) : Bytes := d.buf.drop d.head

def push (d : Decoder) (bytes : Bytes) : Decoder :=
  -- Reclaim consumed bytes lazily so the buffer doesn't grow unbounded.
  if 0 < d.head ∧ d.head = d.buf.length then ⟨bytes, 0⟩
  else if 4096 < d.head ∧ d.buf.length ≤ d.head * 2 then ⟨d.buf.drop d.head ++ bytes, 0⟩
  else { d with buf := d.buf ++ bytes }

/-- What `pop` comes to. A panic ends the process, so there is no decoder behind it. -/
inductive PopResult where
  | null
  | envelope (env : Bytes) (d : Decoder)
  /-- `4 + env_len` is no `u32`. -/
  | panic

def pop (d : Decoder) : PopResult :=
  let avail := d.buf.drop d.head
  if avail.length < 4 then .null
  else
    let envLen := BigEndian.value (avail.take 4)
    if 2 ^ 32 ≤ 4 + envLen then .panic
    else if avail.length < 4 + envLen then .null
    else .envelope ((avail.drop 4).take envLen) { d with head := d.head + (4 + envLen) }

/-- `while (dec.pop()) |env|`: the envelopes, and the decoder afterwards if there is one. -/
def popAll (d : Decoder) : List Bytes × Option Decoder :=
  match _h : d.pop with
  | .null => ([], some d)
  | .panic => ([], none)
  | .envelope env d' => (env :: (popAll d').1, (popAll d').2)
termination_by d.buf.length - d.head
decreasing_by
  all_goals
    rw [pop] at _h
    dsimp only at _h
    split_ifs at _h with h₁ h₂ h₃
    cases _h
    rw [List.length_drop] at h₁
    simp only
    omega

/-- The read position is inside the buffer. -/
def Valid (d : Decoder) : Prop := d.head ≤ d.buf.length

theorem Valid.push {d : Decoder} (h : d.Valid) (bytes : Bytes) : (d.push bytes).Valid := by
  rw [Decoder.push]
  split_ifs
  · exact Nat.zero_le _
  · exact Nat.zero_le _
  · show d.head ≤ (d.buf ++ bytes).length
    rw [List.length_append]
    exact h.trans (Nat.le_add_right _ _)

/-- **A push appends to the unread bytes.** -/
theorem content_push {d : Decoder} (h : d.Valid) (bytes : Bytes) :
    (d.push bytes).content = d.content ++ bytes := by
  rw [Decoder.push, content]
  split_ifs with hread hlazy
  · have hnone : d.content = [] := by rw [content, hread.2, List.drop_length]
    rw [hnone]
    rfl
  · rfl
  · show (d.buf ++ bytes).drop d.head = _
    rw [List.drop_append_of_le_length h, content]

/-- What `pop` does, in terms of the splitter. -/
inductive PopSpec (d : Decoder) : PopResult → Prop
  | null (h : LengthPrefix.parse d.content = .more) : PopSpec d .null
  | panic (h : 4 ≤ d.content.length) (hlong : 2 ^ 32 ≤ 4 + LengthPrefix.announced d.content) :
      PopSpec d .panic
  | envelope {env : Bytes} {d' : Decoder}
      (h : LengthPrefix.parse d.content = .item env d'.content) (hvalid : d'.Valid)
      (hshort : env.length < 2 ^ 32 - 4) : PopSpec d (.envelope env d')

theorem popSpec_pop {d : Decoder} (h : d.Valid) : PopSpec d d.pop := by
  rw [pop, ← content, ← LengthPrefix.announced]
  dsimp only
  split_ifs with hfour hlong hshort
  · exact .null (LengthPrefix.parse_eq_more_iff.mpr (.inl hfour))
  · exact .panic (Nat.le_of_not_lt hfour) hlong
  · exact .null (LengthPrefix.parse_eq_more_iff.mpr (.inr hshort))
  · have hcontent : d.content.length = d.buf.length - d.head := List.length_drop
    refine .envelope ?_ ?_ ?_
    · rw [LengthPrefix.parse_of_le (Nat.le_of_not_lt hshort), List.drop_drop]
      simp only [content, List.drop_drop]
    · show d.head + (4 + LengthPrefix.announced d.content) ≤ d.buf.length
      have hvalid : d.head ≤ d.buf.length := h
      omega
    · rw [List.length_take, List.length_drop]
      omega

/-- Popping to exhaustion. -/
theorem popAll_some {d d' : Decoder} {envs : List Bytes} (h : d.Valid)
    (hpop : d.popAll = (envs, some d')) : envs = LengthPrefix.deframer.items d.content ∧
      (∀ env ∈ envs, env.length < 2 ^ 32 - 4) ∧
      d'.content = LengthPrefix.deframer.leftover d.content ∧ d'.Valid := by
  fun_induction popAll d generalizing envs with
  | case1 d hnull =>
    cases hpop
    have hspec := popSpec_pop h
    rw [hnull] at hspec
    cases hspec with
    | null hmore =>
      exact ⟨(Deframer.items_of_more hmore).symm, nofun, (Deframer.leftover_of_more hmore).symm, h⟩
  | case2 d hpanic => cases hpop
  | case3 d env d₁ henv ih =>
    obtain ⟨rfl, hsome⟩ := Prod.mk.inj hpop
    have hspec := popSpec_pop h
    rw [henv] at hspec
    cases hspec with
    | envelope hitem hvalid hshort =>
      obtain ⟨hitems, hall, hleft, hvalid'⟩ := ih hvalid (Prod.ext rfl hsome)
      refine ⟨?_, List.forall_mem_cons.mpr ⟨hshort, hall⟩, ?_, hvalid'⟩
      · exact (congrArg (env :: ·) hitems).trans (Deframer.items_of_item hitem).symm
      · rw [Deframer.leftover_of_item hitem, hleft]

/-- Popping until the process is gone: the envelope that comes next is too long, if it comes. -/
theorem popAll_none {d : Decoder} {envs : List Bytes} (h : d.Valid)
    (hpop : d.popAll = (envs, none)) (more : Bytes) :
    (LengthPrefix.deframer.items (d.content ++ more)).takeWhile
      (fun env => env.length < 2 ^ 32 - 4) = envs := by
  fun_induction popAll d generalizing envs with
  | case1 d hnull => cases hpop
  | case2 d hpanic =>
    cases hpop
    have hspec := popSpec_pop h
    rw [hpanic] at hspec
    cases hspec with
    | panic hfour hlong =>
      have hann := LengthPrefix.announced_append hfour more
      rcases hparse : LengthPrefix.parse (d.content ++ more) with _ | ⟨env, rest⟩ | c
      · rw [Deframer.items_of_more hparse, List.takeWhile_nil]
      · obtain ⟨hle, henv, -⟩ := LengthPrefix.parse_eq_item hparse
        have hlen : env.length = LengthPrefix.announced (d.content ++ more) := by
          rw [henv, List.length_take, List.length_drop]
          omega
        have hneg : decide (env.length < 2 ^ 32 - 4) = false := decide_eq_false (by omega)
        rw [Deframer.items_of_item hparse, List.takeWhile_cons, hneg]
        rfl
      · exact c.elim
  | case3 d env d₁ henv ih =>
    obtain ⟨rfl, hnone⟩ := Prod.mk.inj hpop
    have hspec := popSpec_pop h
    rw [henv] at hspec
    cases hspec with
    | envelope hitem hvalid hshort =>
      have hpos : decide (env.length < 2 ^ 32 - 4) = true := decide_eq_true hshort
      rw [Deframer.items_of_item (LengthPrefix.deframer.item_append more hitem),
        List.takeWhile_cons, hpos, if_pos rfl, ih hvalid (Prod.ext rfl hnone)]

end Decoder

end ZigLib

end Aiomsg
