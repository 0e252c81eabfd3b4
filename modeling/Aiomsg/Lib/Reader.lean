import Mathlib.Data.List.Basic

/-!
# A byte source read in pieces

The reading side of a socket, as the standard library's `Read` trait sees it. What a socket will
deliver is a `Source`: a list of arrivals, each a nonempty run of bytes or an error, with end of
file behind the last of them. `read` hands out at most as many bytes as the caller has room for and
keeps the rest of the arrival for the next call, so quantifying over all sources quantifies over
every way of cutting a stream into reads.

A run of bytes is nonempty by construction: `bytes b bs` carries its first byte. A read that
returns no bytes therefore means end of file, as it does in `Read::read`.

## Scope

A read does not wait. What will arrive is in the source from the start, so a program that reads from
it is a function, and time is not part of it: an error such as a timeout is an arrival like any
other, at a place that the source determines.

Reads that bring less than there is at hand are covered by cutting the arrival in two. A source
cannot take its mind back and cannot depend on what the program writes.

## Main results

* `Source.readExact_of_le`, `Source.readExact_of_lt` — on a source without errors, `readExact`
  takes the first `n` bytes of the stream or reports end of file, however the stream is cut
-/

/-- The error kinds a caller distinguishes. -/
inductive ErrorKind where
  | wouldBlock
  | timedOut
  | interrupted
  | unexpectedEof
  | other
deriving DecidableEq, Repr

/-- One thing a socket delivers. -/
inductive Arrival where
  /-- A nonempty run of bytes. -/
  | bytes (b : UInt8) (bs : List UInt8)
  /-- A failed read. -/
  | err (kind : ErrorKind)
deriving DecidableEq, Repr

/-- What a socket delivers before end of file. -/
abbrev Source := List Arrival

namespace Source

/-- The bytes of a source, with the errors left out. -/
def stream : Source → List UInt8
  | [] => []
  | .bytes b bs :: src => b :: bs ++ stream src
  | .err _ :: src => stream src

/-- A source whose errors are all of the kinds in `p`. -/
def OnlyErrors (p : ErrorKind → Prop) (src : Source) : Prop :=
  ∀ kind, Arrival.err kind ∈ src → p kind

/-- A source on which no read fails. -/
def Clean (src : Source) : Prop := OnlyErrors (fun _ => False) src

/-- Put unread bytes back in front. -/
def putBack : List UInt8 → Source → Source
  | [], src => src
  | b :: bs, src => .bytes b bs :: src

/-- `Read::read` with room for `cap` bytes: an error, or some bytes, none of them exactly at end
of file. -/
def read (cap : ℕ) : Source → Except ErrorKind (List UInt8) × Source
  | [] => (.ok [], [])
  | .err kind :: src => (.error kind, src)
  | .bytes b bs :: src => (.ok ((b :: bs).take cap), putBack ((b :: bs).drop cap) src)

/-- `Read::read_exact`: read until `n` bytes are there. An interrupted read is retried, end of
file in the middle is an error, and the bytes read up to an error are gone. -/
def readExact : ℕ → Source → Except ErrorKind (List UInt8) × Source
  | 0, src => (.ok [], src)
  | _ + 1, [] => (.error .unexpectedEof, [])
  | n + 1, .err .interrupted :: src => readExact (n + 1) src
  | _ + 1, .err kind :: src => (.error kind, src)
  | n + 1, .bytes b bs :: src =>
    if n < bs.length then
      (.ok ((b :: bs).take (n + 1)), putBack ((b :: bs).drop (n + 1)) src)
    else
      match readExact (n - bs.length) src with
      | (.ok tail, src') => (.ok (b :: bs ++ tail), src')
      | (.error kind, src') => (.error kind, src')

@[simp] theorem stream_nil : stream [] = [] := rfl

@[simp] theorem stream_bytes (b : UInt8) (bs : List UInt8) (src : Source) :
    stream (.bytes b bs :: src) = b :: bs ++ stream src := rfl

@[simp] theorem stream_err (kind : ErrorKind) (src : Source) :
    stream (.err kind :: src) = stream src := rfl

theorem stream_append (src src' : Source) :
    stream (src ++ src') = stream src ++ stream src' := by
  induction src with
  | nil => rfl
  | cons a src ih =>
    cases a with
    | bytes b bs => rw [List.cons_append, stream_bytes, stream_bytes, ih, List.append_assoc]
    | err kind => exact ih

@[simp] theorem stream_putBack (bs : List UInt8) (src : Source) :
    stream (putBack bs src) = bs ++ stream src := by
  cases bs <;> rfl

/-- A measure of what is left to read: it drops with every read that is not end of file, by more
than the number of bytes handed over. -/
def weight : Source → ℕ
  | [] => 0
  | .bytes _ bs :: src => 2 * (bs.length + 1) + weight src
  | .err _ :: src => 1 + weight src

theorem weight_putBack (bs : List UInt8) (src : Source) :
    weight (putBack bs src) = 2 * bs.length + weight src := by
  cases bs with
  | nil => rw [putBack, List.length_nil, Nat.mul_zero, Nat.zero_add]
  | cons b bs => rw [putBack, weight, List.length_cons]

section OnlyErrors

variable {p : ErrorKind → Prop} {src : Source}

theorem OnlyErrors.tail {a : Arrival} (h : OnlyErrors p (a :: src)) : OnlyErrors p src :=
  fun kind hk => h kind (List.mem_cons_of_mem _ hk)

theorem OnlyErrors.putBack (h : OnlyErrors p src) (bs : List UInt8) :
    OnlyErrors p (putBack bs src) := by
  cases bs with
  | nil => exact h
  | cons b bs =>
    intro kind hk
    rcases List.mem_cons.mp hk with hk | hk
    · cases hk
    · exact h kind hk

theorem onlyErrors_nil : OnlyErrors p [] := fun _ h => absurd h List.not_mem_nil

theorem not_clean_err {kind : ErrorKind} : ¬ Clean (.err kind :: src) := fun h =>
  h kind List.mem_cons_self

end OnlyErrors

/-- A successful read hands over a prefix of the stream. -/
theorem read_ok {cap : ℕ} {src src' : Source} {bs : List UInt8}
    (h : src.read cap = (.ok bs, src')) :
    src.stream = bs ++ src'.stream ∧ src.weight = 2 * bs.length + src'.weight ∧
      ∀ p, OnlyErrors p src → OnlyErrors p src' := by
  match src with
  | [] =>
    cases h
    exact ⟨rfl, rfl, fun _ h => h⟩
  | .err _ :: _ => cases h
  | .bytes b tail :: src =>
    cases h
    have hsplit := List.take_append_drop cap (b :: tail)
    refine ⟨?_, ?_, fun p hp => hp.tail.putBack _⟩
    · rw [stream_putBack, ← List.append_assoc, hsplit, stream_bytes]
    · have hlen := congrArg List.length hsplit
      rw [List.length_append, List.length_cons] at hlen
      rw [weight_putBack, weight]
      omega

/-- A read hands over no more bytes than there is room for. -/
theorem length_read_le {cap : ℕ} {src src' : Source} {bs : List UInt8}
    (h : src.read cap = (.ok bs, src')) : bs.length ≤ cap := by
  match src with
  | [] =>
    cases h
    exact Nat.zero_le _
  | .err _ :: _ => cases h
  | .bytes b tail :: src =>
    cases h
    exact List.length_take_le _ _

/-- With room for at least one byte, a read that returns none means end of file. -/
theorem read_eof {cap : ℕ} (hcap : 0 < cap) {src src' : Source}
    (h : src.read cap = (.ok [], src')) : src = [] := by
  obtain ⟨n, rfl⟩ : ∃ n, cap = n + 1 := ⟨cap - 1, by omega⟩
  match src with
  | [] => rfl
  | .err _ :: _ => cases h
  | .bytes b tail :: src =>
    rw [read, List.take_succ_cons] at h
    cases h

/-- A failed read takes nothing off the stream. -/
theorem read_error {cap : ℕ} {src src' : Source} {kind : ErrorKind}
    (h : src.read cap = (.error kind, src')) : src = .err kind :: src' := by
  match src with
  | [] => cases h
  | .err _ :: _ => cases h; rfl
  | .bytes _ _ :: _ => cases h

/-- A `readExact` that succeeds took exactly the bytes it returns off the stream. -/
theorem readExact_ok {n : ℕ} {src src' : Source} {bs : List UInt8}
    (h : src.readExact n = (.ok bs, src')) :
    bs.length = n ∧ src.stream = bs ++ src'.stream ∧ 2 * n + src'.weight ≤ src.weight := by
  induction src generalizing n bs with
  | nil =>
    match n with
    | 0 => cases h; exact ⟨rfl, rfl, by omega⟩
    | n + 1 => cases h
  | cons a src ih =>
    match n, a with
    | 0, a =>
      rw [readExact] at h
      cases h
      exact ⟨rfl, rfl, by omega⟩
    | n + 1, .err kind =>
      by_cases hk : kind = .interrupted
      · subst hk
        obtain ⟨hlen, hstream, hweight⟩ := ih h
        exact ⟨hlen, hstream, by rw [weight]; omega⟩
      · cases kind <;> first | exact absurd rfl hk | cases h
    | n + 1, .bytes b tail =>
      rw [readExact] at h
      split_ifs at h with hlt
      · cases h
        refine ⟨by rw [List.length_take, List.length_cons]; omega, ?_, ?_⟩
        · rw [stream_putBack, ← List.append_assoc, List.take_append_drop, stream_bytes]
        · rw [weight_putBack, weight, List.length_drop, List.length_cons]
          omega
      · match hread : readExact (n - tail.length) src with
        | (.ok rest, src₁) =>
          rw [hread] at h
          cases h
          obtain ⟨hlen, hstream, hweight⟩ := ih hread
          refine ⟨by rw [List.length_append, List.length_cons, hlen]; omega, ?_, ?_⟩
          · rw [stream_bytes, hstream, List.append_assoc]
          · rw [weight]
            omega
        | (.error kind, src₁) =>
          rw [hread] at h
          cases h

/-- A `readExact` that fails may have taken bytes off the stream, but puts none on it. -/
theorem weight_readExact_le (n : ℕ) (src : Source) : (src.readExact n).2.weight ≤ src.weight := by
  fun_induction readExact n src with
  | case1 => exact Nat.le_refl _
  | case2 => exact Nat.le_refl _
  | case3 n src ih =>
    rw [weight]
    omega
  | case4 n kind src hkind =>
    show weight src ≤ 1 + weight src
    omega
  | case5 n b bs src hlt =>
    rw [weight_putBack, weight, List.length_drop, List.length_cons]
    omega
  | case6 n b bs src hlt tail src' hread ih =>
    have hle : src'.weight ≤ weight src := by rwa [hread] at ih
    rw [weight]
    exact Nat.le_trans hle (Nat.le_add_left _ _)
  | case7 n b bs src hlt kind src' hread ih =>
    have hle : src'.weight ≤ weight src := by rwa [hread] at ih
    rw [weight]
    exact Nat.le_trans hle (Nat.le_add_left _ _)

/-- **Enough bytes.** However a clean source is cut, `readExact` takes the first `n` bytes. -/
theorem readExact_of_le {n : ℕ} {src : Source} (h : Clean src) (hn : n ≤ src.stream.length) :
    ∃ src', src.readExact n = (.ok (src.stream.take n), src') ∧
      src'.stream = src.stream.drop n ∧ src'.Clean := by
  induction src generalizing n with
  | nil =>
    have : n = 0 := by simpa using hn
    subst this
    exact ⟨[], rfl, rfl, h⟩
  | cons a src ih =>
    match n, a, h with
    | 0, a, h => exact ⟨_, by rw [readExact, List.take_zero], by rw [List.drop_zero], h⟩
    | n + 1, .err _, h => exact absurd h not_clean_err
    | n + 1, .bytes b bs, h =>
      by_cases hlt : n < bs.length
      · have hle : n + 1 ≤ (b :: bs).length := by rw [List.length_cons]; omega
        refine ⟨putBack ((b :: bs).drop (n + 1)) src, ?_, ?_, h.tail.putBack _⟩
        · rw [readExact, if_pos hlt, stream_bytes, List.take_append_of_le_length hle]
        · rw [stream_putBack, stream_bytes, List.drop_append_of_le_length hle]
      · have hlen : n - bs.length ≤ (stream src).length := by
          rw [stream_bytes] at hn
          simp only [List.length_append, List.length_cons] at hn
          omega
        obtain ⟨src', hread, hdrop, hclean⟩ := ih h.tail hlen
        have hsub : n + 1 - (b :: bs).length = n - bs.length := by
          rw [List.length_cons]
          omega
        have hall : (b :: bs).length ≤ n + 1 := by rw [List.length_cons]; omega
        refine ⟨src', ?_, ?_, hclean⟩
        · rw [readExact, if_neg hlt, hread, stream_bytes, List.take_append, hsub,
            List.take_of_length_le hall]
        · rw [hdrop, stream_bytes, List.drop_append, hsub, List.drop_of_length_le hall,
            List.nil_append]

/-- **Too few bytes.** However a clean source is cut, `readExact` then reports end of file. -/
theorem readExact_of_lt {n : ℕ} {src : Source} (h : Clean src) (hn : src.stream.length < n) :
    src.readExact n = (.error .unexpectedEof, []) := by
  induction src generalizing n with
  | nil =>
    obtain ⟨m, rfl⟩ : ∃ m, n = m + 1 := ⟨n - 1, by simp at hn; omega⟩
    rfl
  | cons a src ih =>
    match n, a, h with
    | 0, _, _ => exact absurd hn (Nat.not_lt_zero _)
    | n + 1, .err _, h => exact absurd h not_clean_err
    | n + 1, .bytes b bs, h =>
      rw [stream_bytes] at hn
      simp only [List.length_append, List.length_cons] at hn
      rw [readExact, if_neg (by omega), ih h.tail (by omega)]

end Source
