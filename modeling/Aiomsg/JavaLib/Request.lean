import Aiomsg.Lib.Blocking
import Aiomsg.Protocol.Envelope
import Mathlib.Data.List.Induction

/-!
# Where the Java port ends a request

`readRequest` of `java-lib/src/main/java/aiomsg/Ws.java`. The `G` has been read; what follows is
read byte by byte up to the blank line, so that nothing of the first frame is taken.

The blank line is found with a counter of four states. A byte that does not go on with the match
sets it back to the start, also when that byte is a CR and could be the first of the blank line. In
front of the blank line, then, every other CR of a run is missed: the counter is at the start behind
a run of even length, and past it behind a run of odd length (`phase`).

## Scope

The stream is all that the client will ever send, and what is behind it. The deadline of the
handshake is a broken stream here. The sniff that has read the `G`, and what is done with the
request, are not; that a request is cut short by a blank line that is no blank line cannot happen,
and that one goes past it can.

## Main results

* `foldl_advance_suffix` — what has been counted is there
* `phase` — the counter behind a string without a blank line
* `readRequest_stops_iff` — when the request ends at the first blank line
-/

namespace Aiomsg

namespace JavaLib

open Protocol

def maxRequestBytes : ℕ := 8192

/-- CR LF CR LF. -/
def blankLine : Bytes := [0x0D, 0x0A, 0x0D, 0x0A]

/-- One step of the terminator match. -/
def advance (state : ℕ) (b : UInt8) : ℕ :=
  if (state = 0 ∨ state = 2) ∧ b = 0x0D then state + 1
  else if (state = 1 ∨ state = 3) ∧ b = 0x0A then state + 1
  else 0

/-- What `readRequest` comes to. -/
inductive Request where
  | returned (bytes : Bytes)
  | null
  /-- An `IOException`. -/
  | threw
  | blocked
deriving DecidableEq

/-- A read with nothing there. -/
def Request.ofBehind : Behind → Request
  | .silence => .blocked
  | .eof => .null
  | .broken => .threw

/-- The loop of `readRequest`, with what is left of the stream. -/
def readLoop (behind : Behind) : Bytes → Bytes → ℕ → Request × Bytes
  | [], buf, _ => if maxRequestBytes < buf.length then (.null, []) else (.ofBehind behind, [])
  | b :: rest, buf, state =>
    if maxRequestBytes < buf.length then (.null, b :: rest)
    else if advance state b = 4 then (.returned (buf ++ [b]), rest)
    else readLoop behind rest (buf ++ [b]) (advance state b)

/-- The request that begins with the `G` already consumed, and what is left of the stream. -/
def readRequest (input : Blocking) : Request × Bytes := readLoop input.behind input.sent [0x47] 0

/-! ### The counter -/

/-- The counter behind a string. -/
abbrev counted (w : Bytes) : ℕ := w.foldl advance 0

theorem counted_concat (w : Bytes) (b : UInt8) : counted (w ++ [b]) = advance (counted w) b := by
  rw [counted, List.foldl_append, List.foldl_cons, List.foldl_nil]

/-- What a step of the counter can be. -/
theorem advance_cases (state : ℕ) (b : UInt8) :
    ((state = 0 ∨ state = 2) ∧ b = 0x0D ∧ advance state b = state + 1) ∨
      ((state = 1 ∨ state = 3) ∧ b = 0x0A ∧ advance state b = state + 1) ∨
      ((b = 0x0D → state ≠ 0 ∧ state ≠ 2) ∧ advance state b = 0) := by
  rw [advance]
  split_ifs with hcr hlf
  · exact .inl ⟨hcr.1, hcr.2, rfl⟩
  · exact .inr (.inl ⟨hlf.1, hlf.2, rfl⟩)
  · exact .inr (.inr ⟨fun hb => not_or.mp fun hs => hcr ⟨hs, hb⟩, rfl⟩)

/-- **What has been counted is there**: the string ends with as much of a blank line. -/
theorem foldl_advance_suffix (w : Bytes) : counted w ≤ 4 ∧ blankLine.take (counted w) <:+ w := by
  induction w using List.reverseRecOn with
  | nil => exact ⟨Nat.zero_le _, List.nil_suffix⟩
  | append_singleton w b ih =>
    obtain ⟨-, hsuffix⟩ := ih
    rw [counted_concat]
    rcases advance_cases (counted w) b with ⟨hstate, rfl, hnext⟩ | ⟨hstate, rfl, hnext⟩ | ⟨-, hnext⟩
    · rw [hnext]
      rcases hstate with hzero | htwo
      · rw [hzero]
        exact ⟨by decide, ⟨w, rfl⟩⟩
      · rw [htwo] at hsuffix ⊢
        obtain ⟨front, rfl⟩ := hsuffix
        exact ⟨by decide, ⟨front, by simp [blankLine]⟩⟩
    · rw [hnext]
      rcases hstate with hone | hthree
      · rw [hone] at hsuffix ⊢
        obtain ⟨front, rfl⟩ := hsuffix
        exact ⟨by decide, ⟨front, by simp [blankLine]⟩⟩
      · rw [hthree] at hsuffix ⊢
        obtain ⟨front, rfl⟩ := hsuffix
        exact ⟨by decide, ⟨front, by simp [blankLine]⟩⟩
    · rw [hnext]
      exact ⟨Nat.zero_le _, List.nil_suffix⟩

/-- Without a blank line nothing is counted to the end. -/
theorem counted_ne_four {w : Bytes} (h : ¬ blankLine <:+: w) : counted w ≠ 4 := by
  intro hfour
  have hsuffix := (foldl_advance_suffix w).2
  rw [hfour] at hsuffix
  exact h hsuffix.isInfix

/-- The number of CRs at the end. -/
def trailingReturns (w : Bytes) : ℕ := (w.reverse.takeWhile (· == 0x0D)).length

theorem trailingReturns_concat (w : Bytes) (b : UInt8) :
    trailingReturns (w ++ [b]) = if b = 0x0D then trailingReturns w + 1 else 0 := by
  rw [trailingReturns, List.reverse_append, List.reverse_singleton, List.singleton_append,
    List.takeWhile_cons]
  by_cases hb : b = 0x0D
  · rw [if_pos hb, hb]
    rfl
  · rw [if_neg hb, if_neg (by rw [beq_iff_eq]; exact hb)]
    rfl

/-- **The counter behind a string without a blank line**: it is between two bytes of a match only
behind an odd number of CRs. -/
theorem phase {w : Bytes} (h : ¬ blankLine <:+: w) :
    (trailingReturns w % 2 = 0 ∧ (counted w = 0 ∨ counted w = 2)) ∨
      (trailingReturns w % 2 = 1 ∧ (counted w = 1 ∨ counted w = 3)) := by
  induction w using List.reverseRecOn with
  | nil => exact .inl ⟨rfl, .inl rfl⟩
  | append_singleton w b ih =>
    have hw : ¬ blankLine <:+: w := fun hin => h (hin.trans (List.prefix_append w [b]).isInfix)
    have hfour := counted_ne_four h
    rw [counted_concat] at hfour ⊢
    rw [trailingReturns_concat]
    rcases advance_cases (counted w) b with ⟨hstate, rfl, hnext⟩ | ⟨hstate, rfl, hnext⟩ |
      ⟨hother, hnext⟩
    · rw [if_pos rfl, hnext]
      rcases ih hw with ⟨heven, -⟩ | ⟨-, hodd⟩
      · omega
      · omega
    · rw [if_neg (by decide), hnext]
      rw [hnext] at hfour
      omega
    · rw [hnext]
      split_ifs with hcr
      · obtain ⟨hzero, htwo⟩ := hother hcr
        rcases ih hw with ⟨-, hstate⟩ | ⟨hodd, -⟩
        · exact absurd hstate (not_or.mpr ⟨hzero, htwo⟩)
        · omega
      · exact .inl ⟨rfl, .inl rfl⟩

/-! ### The loop -/

section Step

variable {behind : Behind} {b : UInt8} {rest buf : Bytes} {state : ℕ}

theorem readLoop_step (next : ℕ) (hroom : buf.length ≤ maxRequestBytes)
    (hnext : advance state b = next) (hne : next ≠ 4) :
    readLoop behind (b :: rest) buf state = readLoop behind rest (buf ++ [b]) next := by
  rw [readLoop, if_neg (Nat.not_lt.mpr hroom), hnext, if_neg hne]

theorem readLoop_done (hroom : buf.length ≤ maxRequestBytes) (hdone : advance state b = 4) :
    readLoop behind (b :: rest) buf state = (.returned (buf ++ [b]), rest) := by
  rw [readLoop, if_neg (Nat.not_lt.mpr hroom), if_pos hdone]

/-- A blank line met at the start of a match. -/
theorem readLoop_blankLine (hroom : buf.length + 4 ≤ maxRequestBytes) :
    readLoop behind (blankLine ++ rest) buf 0 = (.returned (buf ++ blankLine), rest) := by
  rw [blankLine, List.cons_append, readLoop_step 1 (by omega) rfl (by decide),
    List.cons_append, readLoop_step 2 (by simp; omega) rfl (by decide),
    List.cons_append, readLoop_step 3 (by simp; omega) rfl (by decide),
    List.cons_append, readLoop_done (by simp; omega) rfl]
  simp

/-- A blank line met between two bytes of a match: its second half is taken for the first. -/
theorem readLoop_blankLine_of_odd (hroom : buf.length + 4 ≤ maxRequestBytes)
    (hstate : state = 1 ∨ state = 3) : readLoop behind (blankLine ++ rest) buf state
      = readLoop behind rest (buf ++ blankLine) 2 := by
  have hreset : advance state 0x0D = 0 := by
    rcases hstate with rfl | rfl
    · rfl
    · rfl
  rw [blankLine, List.cons_append, readLoop_step 0 (by omega) hreset (by decide),
    List.cons_append, readLoop_step 0 (by simp; omega) rfl (by decide),
    List.cons_append, readLoop_step 1 (by simp; omega) rfl (by decide),
    List.cons_append, readLoop_step 2 (by simp; omega) rfl (by decide),
    List.nil_append]
  simp

end Step

/-- The loop goes over bytes that do not finish a match. -/
theorem readLoop_append {behind : Behind} {xs rest w buf : Bytes}
    (hno : ∀ ys, ys ≠ [] → ys <+: xs → counted (w ++ ys) ≠ 4)
    (hlen : buf.length + xs.length ≤ maxRequestBytes + 1) :
    readLoop behind (xs ++ rest) buf (counted w)
      = readLoop behind rest (buf ++ xs) (counted (w ++ xs)) := by
  induction xs generalizing w buf with
  | nil => rw [List.nil_append, List.append_nil, List.append_nil]
  | cons b xs ih =>
    have hb := hno [b] (List.cons_ne_nil b []) ⟨xs, rfl⟩
    rw [counted_concat] at hb
    rw [List.length_cons] at hlen
    rw [List.cons_append, readLoop, if_neg (by omega), if_neg hb, ← counted_concat, ih]
    · rw [List.append_assoc, List.append_assoc, List.singleton_append]
    · intro ys _ hys
      rw [List.append_assoc]
      exact hno (b :: ys) (List.cons_ne_nil b ys) ((List.prefix_cons_inj b).mpr hys)
    · rw [List.length_append, List.length_singleton]
      omega

/-- A request that is returned is longer than what had been read before. -/
theorem length_lt_of_returned {behind : Behind} {sent buf bytes rest : Bytes} {state : ℕ}
    (h : readLoop behind sent buf state = (.returned bytes, rest)) : buf.length < bytes.length := by
  induction sent generalizing buf state with
  | nil =>
    rw [readLoop] at h
    split_ifs at h
    · cases h
    · cases behind <;> cases h
  | cons b sent ih =>
    rw [readLoop] at h
    split_ifs at h with hlong hdone
    · cases h
    · cases h
      rw [List.length_append, List.length_singleton]
      exact Nat.lt_succ_self _
    · have hlt := ih h
      rw [List.length_append, List.length_singleton] at hlt
      omega

/-- **The request ends at the first blank line if and only if an even number of CRs is in front of
it.** -/
theorem readRequest_stops_iff {input : Blocking} {front rest : Bytes}
    (hsent : 0x47 :: input.sent = front ++ (blankLine ++ rest))
    (hfirst : ¬ blankLine <:+: front ++ [0x0D, 0x0A, 0x0D])
    (hlen : (front ++ blankLine).length ≤ maxRequestBytes) :
    readRequest input = (.returned (front ++ blankLine), rest) ↔
      trailingReturns front % 2 = 0 := by
  -- the `G` is in front of the blank line, not in it
  obtain ⟨front, rfl⟩ : ∃ tail, front = 0x47 :: tail := by
    rcases front with _ | ⟨g, tail⟩
    · exact absurd (List.cons.inj hsent).1 (by decide)
    · exact ⟨tail, by rw [← (List.cons.inj hsent).1]⟩
  have hin : input.sent = front ++ (blankLine ++ rest) := (List.cons.inj hsent).2
  have hgo : ∀ ys, ys <+: 0x47 :: front → counted ys ≠ 4 := fun ys hys =>
    counted_ne_four fun hblank => hfirst
      (hblank.trans (hys.trans (List.prefix_append _ [0x0D, 0x0A, 0x0D])).isInfix)
  have hfour : (blankLine : Bytes).length = 4 := rfl
  rw [List.length_append, hfour] at hlen
  have hfront : readRequest input
      = readLoop input.behind (blankLine ++ rest) (0x47 :: front) (counted (0x47 :: front)) := by
    rw [readRequest, hin]
    have happ := @readLoop_append input.behind front (blankLine ++ rest) [0x47] [0x47]
      (fun ys _ hys => hgo _ ((List.prefix_cons_inj 0x47).mpr hys))
      (by rw [List.length_cons] at hlen; rw [List.length_singleton]; omega)
    exact happ
  have hblank : ¬ blankLine <:+: 0x47 :: front := fun hin' =>
    hfirst (hin'.trans (List.prefix_append _ [0x0D, 0x0A, 0x0D]).isInfix)
  -- half a match in front of the blank line would have been the first one
  have htwo : counted (0x47 :: front) ≠ 2 := by
    intro htwo
    have hsuffix := (foldl_advance_suffix (0x47 :: front)).2
    rw [htwo] at hsuffix
    obtain ⟨before, hbefore⟩ := hsuffix
    refine hfirst ⟨before, [0x0D], ?_⟩
    rw [← hbefore]
    simp [blankLine]
  rw [hfront]
  rcases phase hblank with ⟨heven, hzero | htwo'⟩ | ⟨hodd, hstate⟩
  · rw [hzero]
    exact iff_of_true (readLoop_blankLine hlen) heven
  · exact absurd htwo' htwo
  · rw [readLoop_blankLine_of_odd hlen hstate]
    refine iff_of_false ?_ (by omega)
    intro hstop
    exact absurd (length_lt_of_returned hstop) (Nat.lt_irrefl _)

/-- A request line and no header. -/
theorem readRequest_stops_get : readRequest ⟨[0x45, 0x0D, 0x0A, 0x0D, 0x0A, 7], .silence⟩
    = (.returned [0x47, 0x45, 0x0D, 0x0A, 0x0D, 0x0A], [7]) :=
  (@readRequest_stops_iff ⟨[0x45, 0x0D, 0x0A, 0x0D, 0x0A, 7], .silence⟩ [0x47, 0x45] [7] rfl
    (by decide) (by decide)).mpr rfl

/-- One CR too many in front of the blank line, and the first byte behind it is read. -/
theorem readRequest_runs_on : ¬ ∀ (input : Blocking) (front rest : Bytes),
    0x47 :: input.sent = front ++ (blankLine ++ rest) →
    ¬ blankLine <:+: front ++ [0x0D, 0x0A, 0x0D] →
    (front ++ blankLine).length ≤ maxRequestBytes →
      readRequest input = (.returned (front ++ blankLine), rest) := by
  intro h
  have hrun := h ⟨[0x45, 0x0D, 0x0D, 0x0A, 0x0D, 0x0A, 7], .silence⟩ [0x47, 0x45, 0x0D] [7] rfl
    (by decide) (by decide)
  revert hrun
  decide

end JavaLib

end Aiomsg
