import Mathlib.Data.List.Basic

/-!
# A byte source that blocks

The reading side of a connection for code that waits until it has as many bytes as it asks for. How
the bytes were cut on their way cannot be seen from there, so a source is what the peer has sent and
has not been read, and what a read finds behind it: nothing yet, the end, or an error.

## Scope

A read either has all the bytes that it asks for or fails, and what it has taken off the source when
it fails is left open: nobody reads from such a source again. `Reads` says so by giving no source
behind a failure.

## Main definitions

* `Blocking`, `Behind` — the source
* `Blocking.Reads` — a function that takes `n` bytes off a source, or fails for want of them
-/

/-- What a read finds behind the bytes that have come. -/
inductive Behind where
  /-- The peer may still send something. -/
  | silence
  | eof
  | broken
deriving DecidableEq

structure Blocking where
  /-- What has come and has not been read. -/
  sent : List UInt8
  behind : Behind

namespace Blocking

def skip (s : Blocking) (n : ℕ) : Blocking := { s with sent := s.sent.drop n }

@[simp] theorem skip_sent (s : Blocking) (n : ℕ) : (s.skip n).sent = s.sent.drop n := rfl

@[simp] theorem skip_behind (s : Blocking) (n : ℕ) : (s.skip n).behind = s.behind := rfl

theorem skip_skip (s : Blocking) (m n : ℕ) : (s.skip m).skip n = s.skip (m + n) := by
  rw [skip, skip, skip, List.drop_drop]

/-- `read n` takes the next `n` bytes. Where there are fewer it fails, in a way that `short` allows
for what is behind them. -/
structure Reads {ε : Type} (short : Behind → ε → Prop)
    (read : ℕ → Blocking → Except ε (List UInt8 × Blocking)) : Prop where
  enough : ∀ {n s}, n ≤ s.sent.length → read n s = .ok (s.sent.take n, s.skip n)
  starved : ∀ {n s}, s.sent.length < n → ∃ e, read n s = .error e ∧ short s.behind e

end Blocking
