import Aiomsg.Lib.Reader

/-!
# Reading until the buffer will do

The loop that reads into a growing buffer until a test on it holds. The buffer is a prefix of the
stream at every turn, and the test is made at the ends of reads only: so what such a loop stops with
depends on where the reads end, unless the test does not care. `gather_spec` says what it can stop
with, and `exists_gather` that it can stop there: with every prefix that passes the test and that
one read can reach from one that does not, if none before that does.

A read that fails with an error of the kind `retry` brings nothing, and the loop goes on. A clock
may end it, which is asked before a read or after one that has brought nothing.

## Scope

The capacity of one read is the same at every turn and is not zero. The test sees the whole buffer,
and not what has come last, so a test that looks at the end only has to find the end for itself.

A bound on the buffer is not part of the loop. Where a program has one it is part of its test, and
what it does then is for the program to say.

## Main results

* `Source.gather_spec`, `Source.exists_gather`
-/

namespace Source

/-- When a loop gives up: the answers by turns. -/
structure Clock where
  beforeRead : ℕ → Bool
  afterIdle : ℕ → Bool

/-- A clock that does not run out. -/
def Clock.Never (clock : Clock) : Prop :=
  (∀ n, clock.beforeRead n = false) ∧ ∀ n, clock.afterIdle n = false

/-- What a loop ends with. -/
inductive Gathered where
  /-- The test holds of the buffer. -/
  | stopped (buf : List UInt8) (rest : Source)
  | eof
  | late
  | failed (kind : ErrorKind)

/-- Read until the test holds of the buffer. -/
def gather (cap : ℕ) (stop : List UInt8 → Bool) (retry : ErrorKind → Bool) (clock : Clock)
    (turn : ℕ) (buf : List UInt8) (src : Source) : Gathered :=
  if stop buf then .stopped buf src
  else if clock.beforeRead turn then .late
  else
    match _h : src.read cap with
    | (.ok [], _) => .eof
    | (.ok (b :: bs), src') => gather cap stop retry clock (turn + 1) (buf ++ b :: bs) src'
    | (.error kind, src') =>
      if retry kind then
        if clock.afterIdle turn then .late else gather cap stop retry clock (turn + 1) buf src'
      else .failed kind
termination_by src.weight
decreasing_by
  · have hweight := (read_ok _h).2.1
    rw [List.length_cons] at hweight
    omega
  · rw [read_error _h, weight]
    omega

/-- What a loop on a stream can end with. -/
inductive GatherSpec (cap : ℕ) (stop : List UInt8 → Bool) (buf stream : List UInt8) :
    Gathered → Prop
  /-- It was there already, or one read has reached it from a prefix that does not do. -/
  | stopped {buf' : List UInt8} {rest : Source} (hstop : stop buf' = true)
      (hstream : buf' ++ rest.stream = stream)
      (hreach : buf' = buf ∨ ∃ k, buf.length ≤ k ∧ k < buf'.length ∧ buf'.length ≤ k + cap ∧
        stop (stream.take k) = false) : GatherSpec cap stop buf stream (.stopped buf' rest)
  | eof (hstop : stop stream = false) : GatherSpec cap stop buf stream .eof

/-- What comes of a stream does not depend on where the reads end, or on the errors of the kind `p`
between them. -/
def Independent {α : Type} (p : ErrorKind → Prop) (outcome : Source → α) (stream : List UInt8) :
    Prop :=
  ∀ src src' : Source, src.OnlyErrors p → src'.OnlyErrors p → src.stream = stream →
    src'.stream = stream → outcome src = outcome src'

/-- What follows the first byte. -/
def behindFirst : Source → Source
  | [] => []
  | .bytes _ bs :: src => putBack bs src
  | .err _ :: src => behindFirst src

theorem OnlyErrors.behindFirst {p : ErrorKind → Prop} {src : Source} (h : src.OnlyErrors p) :
    src.behindFirst.OnlyErrors p := by
  induction src with
  | nil => exact h
  | cons a src ih =>
    match a with
    | .bytes b bs => exact h.tail.putBack bs
    | .err kind => exact ih h.tail

/-- Where the read ends that is the first to end at `n` or behind it, from a place on. -/
def readEnd (cap n pos : ℕ) (src : Source) : ℕ :=
  if n ≤ pos then pos
  else
    match _h : src.read cap with
    | (.ok [], _) => pos
    | (.ok (b :: bs), src') => readEnd cap n (pos + (b :: bs).length) src'
    | (.error _, src') => readEnd cap n pos src'
termination_by src.weight
decreasing_by
  · have hweight := (read_ok _h).2.1
    rw [List.length_cons] at hweight
    omega
  · rw [read_error _h, weight]
    omega

theorem readEnd_of_le {cap n pos : ℕ} (h : n ≤ pos) (src : Source) :
    src.readEnd cap n pos = pos := by
  rw [readEnd, if_pos h]

theorem readEnd_of_read {cap n pos : ℕ} {b : UInt8} {bs : List UInt8} {src src' : Source}
    (hread : src.read cap = (.ok (b :: bs), src')) (hpos : pos < n) :
    src.readEnd cap n pos = src'.readEnd cap n (pos + (b :: bs).length) := by
  rw [readEnd, if_neg (by omega)]
  split <;> simp_all

/-- A read out of a run of bytes that has more. -/
theorem readEnd_putBack {cap n pos : ℕ} {bytes : List UInt8} (hcap : 0 < cap) (hpos : pos < n)
    (hle : cap ≤ bytes.length) (src : Source) :
    (putBack bytes src).readEnd cap n pos
      = (putBack (bytes.drop cap) src).readEnd cap n (pos + cap) := by
  match bytes with
  | [] => exact absurd hle (Nat.not_le.mpr hcap)
  | b :: bs =>
    obtain ⟨m, rfl⟩ : ∃ m, cap = m + 1 := ⟨cap - 1, by omega⟩
    have hlength : (b :: bs.take m).length = m + 1 := by
      rw [List.length_cons] at hle ⊢
      rw [List.length_take, Nat.min_eq_left (by omega)]
    rw [readEnd, if_neg (by omega)]
    simp only [putBack, read, List.take_succ_cons, hlength]

section Gather

variable {cap : ℕ} {stop : List UInt8 → Bool} {retry : ErrorKind → Bool} {clock : Clock}

theorem gather_spec (stop : List UInt8 → Bool) (retry : ErrorKind → Bool) (hcap : 0 < cap)
    (hclock : clock.Never) (turn : ℕ) (buf : List UInt8) {src : Source}
    (hsrc : src.OnlyErrors (retry ·)) :
    GatherSpec cap stop buf (buf ++ src.stream) (src.gather cap stop retry clock turn buf) := by
  fun_induction gather cap stop retry clock turn buf src with
  | case1 turn buf src hstop => exact .stopped hstop rfl (.inl rfl)
  | case2 turn buf src hstop hlate => exact absurd hlate (by simp [hclock.1])
  | case3 turn buf src hstop hlate src' hread =>
    obtain rfl := read_eof hcap hread
    rw [stream_nil, List.append_nil]
    exact .eof (Bool.eq_false_iff.mpr hstop)
  | case4 turn buf src hstop hlate b bs src' hread ih =>
    obtain ⟨hstream, -, honly⟩ := read_ok hread
    have hlength := length_read_le hread
    have hspec := ih (honly _ hsrc)
    rw [List.append_assoc, ← hstream] at hspec
    have htake : (buf ++ src.stream).take buf.length = buf := List.take_left
    generalize src'.gather cap stop retry clock (turn + 1) (buf ++ b :: bs) = r at hspec ⊢
    cases hspec with
    | eof hstop' => exact .eof hstop'
    | stopped hstop' hstream' hreach =>
      refine .stopped hstop' hstream' (.inr ?_)
      rcases hreach with rfl | ⟨k, hle, hlt, hcap', hnot⟩
      · refine ⟨buf.length, Nat.le_refl _, ?_, ?_, ?_⟩
        · rw [List.length_append, List.length_cons]
          omega
        · rw [List.length_append]
          omega
        · rw [htake]
          exact Bool.eq_false_iff.mpr hstop
      · rw [List.length_append] at hle
        exact ⟨k, by omega, hlt, hcap', hnot⟩
  | case5 turn buf src hstop hlate kind src' hread hretry hidle =>
    exact absurd hidle (by simp [hclock.2])
  | case6 turn buf src hstop hlate kind src' hread hretry hidle ih =>
    obtain rfl := read_error hread
    exact ih hsrc.tail
  | case7 turn buf src hstop hlate kind src' hread hretry =>
    obtain rfl := read_error hread
    exact absurd (hsrc kind List.mem_cons_self) hretry

/-- The errors that are left are errors that were there. -/
theorem onlyErrors_gather {p : ErrorKind → Prop} {turn : ℕ} {buf buf' : List UInt8}
    {src rest : Source} (h : src.gather cap stop retry clock turn buf = .stopped buf' rest)
    (hsrc : src.OnlyErrors p) : rest.OnlyErrors p := by
  fun_induction gather cap stop retry clock turn buf src with
  | case1 turn buf src hstop =>
    cases h
    exact hsrc
  | case2 => cases h
  | case3 => cases h
  | case4 turn buf src hstop hlate b bs src' hread ih => exact ih h ((read_ok hread).2.2 p hsrc)
  | case5 => cases h
  | case6 turn buf src hstop hlate kind src' hread hretry hidle ih =>
    obtain rfl := read_error hread
    exact ih h hsrc.tail
  | case7 => cases h

/-! ### Reaching a prefix -/

theorem Clean.onlyErrors {src : Source} (h : src.Clean) (p : ErrorKind → Prop) :
    src.OnlyErrors p :=
  fun kind hmem => (h kind hmem).elim

theorem gather_of_stop (turn : ℕ) {buf : List UInt8} (src : Source) (hstop : stop buf = true) :
    src.gather cap stop retry clock turn buf = .stopped buf src := by
  rw [gather, if_pos hstop]

/-- One read. -/
theorem gather_of_read (retry : ErrorKind → Bool) (hclock : clock.Never) (turn : ℕ)
    {buf bs : List UInt8} {src src' : Source} (hstop : stop buf = false) (hne : bs ≠ [])
    (hread : src.read cap = (.ok bs, src')) :
    src.gather cap stop retry clock turn buf
      = src'.gather cap stop retry clock (turn + 1) (buf ++ bs) := by
  rw [gather, if_neg (by simp [hstop]), if_neg (by simp [hclock.1])]
  split <;> simp_all

/-- A run of bytes that is read whole. -/
theorem read_putBack {bytes : List UInt8} (hcap : bytes.length ≤ cap) (hne : bytes ≠ [])
    (src : Source) : (putBack bytes src).read cap = (.ok bytes, src) := by
  match bytes with
  | b :: bs =>
    rw [putBack, read, List.take_of_length_le hcap, List.drop_of_length_le hcap]
    rfl

/-- Reading the first byte. -/
theorem gather_first (retry : ErrorKind → Bool) (hclock : clock.Never) (turn : ℕ) {src : Source}
    {b : UInt8} {bytes : List UInt8} (hsrc : src.OnlyErrors (retry ·))
    (hstream : src.stream = b :: bytes) :
    src.gather 1 (· ≠ []) retry clock turn [] = .stopped [b] src.behindFirst ∧
      src.behindFirst.stream = bytes := by
  induction src generalizing turn with
  | nil => cases hstream
  | cons a src ih =>
    match a with
    | .bytes b' bs =>
      rw [stream_bytes, List.cons_append, List.cons.injEq] at hstream
      obtain ⟨rfl, hbytes⟩ := hstream
      refine ⟨?_, by rw [behindFirst, stream_putBack, hbytes]⟩
      have hread : Source.read 1 (.bytes b' bs :: src) = (.ok [b'], putBack bs src) := rfl
      have hempty : (fun buf : List UInt8 => decide (buf ≠ [])) [] = false := rfl
      rw [gather_of_read retry hclock turn hempty (List.cons_ne_nil b' []) hread]
      exact gather_of_stop _ _ rfl
    | .err kind =>
      obtain ⟨hrun, hrest⟩ := ih (turn + 1) hsrc.tail hstream
      refine ⟨?_, hrest⟩
      have hretry : retry kind = true := hsrc kind List.mem_cons_self
      rw [behindFirst, ← hrun, gather, if_neg (by simp), if_neg (by simp [hclock.1])]
      simp only [read, hretry, hclock.2, if_true, Bool.false_eq_true, if_false]

/-- The bytes as reads of one byte each. -/
def singles (bytes : List UInt8) : Source := bytes.map fun b => .bytes b []

theorem stream_singles (bytes : List UInt8) : (singles bytes).stream = bytes := by
  induction bytes with
  | nil => rfl
  | cons b bytes ih =>
    show b :: (singles bytes).stream = b :: bytes
    rw [ih]

/-- Reads of one byte go on as long as the test does not hold. -/
theorem gather_singles (hcap : 0 < cap) (hclock : clock.Never) (turn : ℕ) (buf : List UInt8)
    {bytes : List UInt8} (src : Source)
    (hnot : ∀ k < bytes.length, stop (buf ++ bytes.take k) = false) :
    (singles bytes ++ src).gather cap stop retry clock turn buf
      = src.gather cap stop retry clock (turn + bytes.length) (buf ++ bytes) := by
  induction bytes generalizing turn buf with
  | nil => simp [singles]
  | cons b bytes ih =>
    have hfirst : stop buf = false := by
      have hzero := hnot 0 (Nat.zero_lt_succ _)
      rwa [List.take_zero, List.append_nil] at hzero
    have hrest : ∀ k < bytes.length, stop (buf ++ [b] ++ bytes.take k) = false := by
      intro k hk
      have hnext := hnot (k + 1) (Nat.succ_lt_succ hk)
      rwa [List.take_succ_cons, List.append_cons] at hnext
    have hturn := gather_of_read retry hclock turn hfirst (List.cons_ne_nil b [])
      (read_putBack (Nat.succ_le_of_lt hcap) (List.cons_ne_nil b []) (singles bytes ++ src))
    show (putBack [b] (singles bytes ++ src)).gather cap stop retry clock turn buf = _
    rw [hturn, ih (turn + 1) (buf ++ [b]) hrest, List.append_assoc, List.length_cons, Nat.add_assoc,
      Nat.add_comm 1]
    rfl

/-- **A prefix that one read can reach is reached**, if nothing before it passes the test. -/
theorem exists_gather (hcap : 0 < cap) {buf stream : List UInt8} {j k : ℕ}
    (hbuf : stream.take buf.length = buf) (hle : buf.length ≤ j)
    (hnot : ∀ i, buf.length ≤ i → i ≤ j → stop (stream.take i) = false) (hlt : j < k)
    (hreach : k ≤ j + cap) (hk : k ≤ stream.length) (hstop : stop (stream.take k) = true) :
    ∃ src : Source, src.Clean ∧ buf ++ src.stream = stream ∧
      ∀ clock : Clock, clock.Never → ∀ retry turn, ∃ rest : Source,
        src.gather cap stop retry clock turn buf = .stopped (stream.take k) rest ∧
          rest.stream = stream.drop k := by
  have hsplit : buf ++ (stream.take j).drop buf.length = stream.take j := by
    have hjoin := List.take_append_drop buf.length (stream.take j)
    rwa [List.take_take, Nat.min_eq_left hle, hbuf] at hjoin
  have hchunk : stream.take j ++ (stream.take k).drop j = stream.take k := by
    have hjoin := List.take_append_drop j (stream.take k)
    rwa [List.take_take, Nat.min_eq_left (Nat.le_of_lt hlt)] at hjoin
  have hlength : ((stream.take k).drop j).length = k - j := by
    rw [List.length_drop, List.length_take, Nat.min_eq_left hk]
  have hne : (stream.take k).drop j ≠ [] := List.length_pos_iff.mp (by omega)
  refine ⟨singles ((stream.take j).drop buf.length) ++
    putBack ((stream.take k).drop j) (putBack (stream.drop k) []), ?_, ?_, ?_⟩
  · intro kind hmem
    rcases List.mem_append.mp hmem with hmem | hmem
    · obtain ⟨b, -, hb⟩ := List.mem_map.mp hmem
      cases hb
    · exact ((onlyErrors_nil (p := fun _ => False)).putBack _).putBack _ kind hmem
  · rw [stream_append, stream_singles, stream_putBack, stream_putBack, stream_nil,
      List.append_nil, ← List.append_assoc, hsplit, ← List.append_assoc, hchunk,
      List.take_append_drop]
  · intro clock hclock retry turn
    refine ⟨putBack (stream.drop k) [], ?_, by rw [stream_putBack, stream_nil, List.append_nil]⟩
    have hbytes : ∀ i < ((stream.take j).drop buf.length).length,
        stop (buf ++ ((stream.take j).drop buf.length).take i) = false := by
      intro i hi
      have hpre : buf ++ ((stream.take j).drop buf.length).take i
          = stream.take (buf.length + i) := by
        have htake := congrArg (List.take (buf.length + i)) hsplit
        rw [List.take_append, Nat.add_sub_cancel_left, List.take_of_length_le (by omega),
          List.take_take] at htake
        rw [htake, Nat.min_eq_left]
        rw [List.length_drop, List.length_take] at hi
        omega
      rw [hpre]
      rw [List.length_drop, List.length_take] at hi
      exact hnot _ (by omega) (by omega)
    have hfit : ((stream.take k).drop j).length ≤ cap := by omega
    rw [gather_singles hcap hclock turn buf _ hbytes, hsplit,
      gather_of_read retry hclock _ (hnot j hle (Nat.le_refl _)) hne
        (read_putBack hfit hne (putBack (stream.drop k) [])), hchunk, gather_of_stop _ _ hstop]

end Gather

end Source
