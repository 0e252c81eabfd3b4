import Mathlib.Data.List.Basic
import Mathlib.Order.Basic

/-!
# Writing in pieces

A loop that offers what is left until nothing is left, to a call that takes as much of it as it
likes. What is left may lie in several buffers, and which ones are offered may change from turn to
turn. All that matters is that the loop goes on with the rest of what it offered, `offered_rest`,
which is a field of `PartialWriter`: a loop that loses its place cannot be built.

How many turns it takes depends on the calls, and on nothing else. So two loops that begin with the
same bytes hand over the same bytes, with the same calls.

## Scope

A call may take nothing, may fail, and may be tried again: these are attempts, given from outside,
and the loop goes by them. How a call that takes less than it was offered comes about does not
matter.

A loop that is to abort, or whose call fails, ends with what it has handed over until then, a prefix
of what was offered. A list of attempts that comes to its end leaves the loop waiting, which is how
a peer that stops reading is seen from here.

## Main definitions

* `PartialWriter.loop`
* `PartialWriter.Moves` — the calls that move so many bytes

## Main results

* `PartialWriter.loop_of_moves` — everything is handed over, and the loop returns
* `PartialWriter.loop_prefix` — whatever the calls do, nothing else is
-/

/-- What a loop offers, and what it goes on with. -/
structure PartialWriter (σ α : Type) where
  more : σ → Bool
  buffers : σ → List (List α)
  rest : σ → ℕ → σ
  /-- The loop goes on as long as anything is left. -/
  more_iff : ∀ s, more s = true ↔ (buffers s).flatten ≠ []
  /-- It goes on with what has not been taken. -/
  offered_rest : ∀ s n, n ≤ (buffers s).flatten.length →
    (buffers (rest s n)).flatten = (buffers s).flatten.drop n

namespace PartialWriter

/-- What a call comes to. -/
inductive Attempt where
  /-- So many elements have been taken off the front of what was offered. -/
  | moved (n : ℕ)
  /-- None have, and the loop is to try again. -/
  | retry
  | failed
deriving DecidableEq

/-- What a loop comes to. -/
inductive WriteEnd where
  /-- It returns, with the calls that it did not need. -/
  | returned (unused : List Attempt)
  | aborted
  | failed
  /-- It waits for a call. -/
  | waiting
deriving DecidableEq

/-- The calls move `n` elements in all, each at least one and no more than it is offered, and leave
some calls unused. -/
inductive Moves : ℕ → List Attempt → List Attempt → Prop where
  | done (unused : List Attempt) : Moves 0 unused unused
  | retry {n : ℕ} {as unused : List Attempt} (hn : 0 < n) (h : Moves n as unused) :
      Moves n (.retry :: as) unused
  | moved {n k : ℕ} {as unused : List Attempt} (hk : 0 < k) (hle : k ≤ n)
      (h : Moves (n - k) as unused) : Moves n (.moved k :: as) unused

/-- No call takes more than it is offered. -/
def Allowed : ℕ → List Attempt → Prop
  | _, [] => True
  | n, .moved k :: as => k ≤ n ∧ Allowed (n - k) as
  | n, .retry :: as => Allowed n as
  | n, .failed :: as => Allowed n as

variable {σ α : Type} (w : PartialWriter σ α)

/-- What a state offers. -/
def offered (s : σ) : List α := (w.buffers s).flatten

/-- The loop, which asks before each call whether it is to abort: the elements handed over, and what
it comes to. -/
def loop (abort : ℕ → Bool) (turn : ℕ) (s : σ) (as : List Attempt) : List α × WriteEnd :=
  if w.more s then
    if abort turn then ([], .aborted)
    else
      match as with
      | [] => ([], .waiting)
      | .moved n :: as =>
        let r := loop abort (turn + 1) (w.rest s n) as
        ((w.offered s).take n ++ r.1, r.2)
      | .retry :: as => loop abort (turn + 1) s as
      | .failed :: _ => ([], .failed)
  else ([], .returned as)

variable {w} {abort : ℕ → Bool} {turn : ℕ} {s : σ} {as unused : List Attempt}

theorem more_of_length_pos (h : 0 < (w.offered s).length) : w.more s = true :=
  (w.more_iff s).mpr (List.length_pos_iff.mp h)

theorem loop_of_nil (h : w.offered s = []) : w.loop abort turn s as = ([], .returned as) := by
  have hmore : ¬ w.more s = true := fun hmore => (w.more_iff s).mp hmore h
  rw [loop.eq_def, if_neg hmore]

theorem length_offered_rest {n : ℕ} (h : n ≤ (w.offered s).length) :
    (w.offered (w.rest s n)).length = (w.offered s).length - n := by
  rw [offered, w.offered_rest s n h, List.length_drop, offered]

/-- **Everything is handed over**, once and in order, and the loop returns. -/
theorem loop_of_moves (habort : ∀ turn, abort turn = false) {n : ℕ}
    (hn : (w.offered s).length = n) (h : Moves n as unused) :
    w.loop abort turn s as = (w.offered s, .returned unused) := by
  induction h generalizing s turn with
  | done as =>
    have hnil := List.length_eq_zero_iff.mp hn
    rw [loop_of_nil hnil, hnil]
  | retry hpos h ih =>
    rw [loop, if_pos (more_of_length_pos (hn ▸ hpos)), habort, if_neg Bool.false_ne_true]
    exact ih hn
  | @moved n k as unused hk hle h ih =>
    have hrest : (w.offered (w.rest s k)).length = n - k := by
      rw [length_offered_rest (hn ▸ hle), hn]
    have hmore := more_of_length_pos (w := w) (s := s) (by omega)
    have hoffered : w.offered (w.rest s k) = (w.offered s).drop k :=
      w.offered_rest s k (hn ▸ hle)
    rw [loop, if_pos hmore, habort, if_neg Bool.false_ne_true]
    dsimp only
    rw [ih hrest, hoffered, List.take_append_drop]

/-- **Nothing else is handed over**, whatever the calls come to. -/
theorem loop_prefix {n : ℕ} (hn : (w.offered s).length = n) (h : Allowed n as) :
    (w.loop abort turn s as).1 <+: w.offered s := by
  induction as generalizing s turn n with
  | nil =>
    rw [loop.eq_def]
    split_ifs
    all_goals exact List.nil_prefix
  | cons a as ih =>
    rw [loop.eq_def]
    split_ifs
    · exact List.nil_prefix
    · cases a with
      | moved k =>
        obtain ⟨hle, hrest⟩ := h
        have hoffered : w.offered (w.rest s k) = (w.offered s).drop k :=
          w.offered_rest s k (hn ▸ hle)
        have hlen : (w.offered (w.rest s k)).length = n - k := by
          rw [length_offered_rest (hn ▸ hle), hn]
        have hpre := @ih (turn + 1) (w.rest s k) _ hlen hrest
        rw [hoffered] at hpre
        conv_rhs => rw [← List.take_append_drop k (w.offered s)]
        exact (List.prefix_append_right_inj _).mpr hpre
      | retry => exact ih hn h
      | failed => exact List.nil_prefix
    · exact List.nil_prefix

end PartialWriter
