import Aiomsg.Lib.Machine
import Mathlib.Data.List.Infix

/-!
# Bounded channels

A channel holds at most `cap` values. A sender that does not want to wait offers a value: it is put
on the channel if there is room and is gone if there is not. A receiver takes what was put on it
first.

How many of a number of offers get through depends on the receiver. What does not depend on it is
that those that get through do so in order, and that as many as there was room for in the beginning
are among them, and the first ones. A receiver that takes nothing leaves it at these.

## The record of what was taken

The queue's bound is a field of the structure, so a channel that holds too much cannot be built.
`taken` is not part of what a channel is. It is kept so that what has got through can be told after
the receiver has taken it, and no operation reads it.

There is no closing and there are no receivers that wait: who uses a channel says for itself what it
does when `take` has nothing for it.

## Main results

* `Chan.put_of_run` — what gets through, whatever the receiver does
* `Chan.put_of_fits` — everything gets through if there is room for it
* `Chan.put_offerAll` — what gets through if nothing is taken
-/

/-- A channel of capacity `cap`: what is on it, and what has been taken from it. -/
structure Chan (T : Type) (cap : ℕ) where
  queue : List T
  fits : queue.length ≤ cap
  taken : List T

namespace Chan

variable {T : Type} {cap : ℕ}

/-- A channel nothing has been put on. -/
def new (T : Type) (cap : ℕ) : Chan T cap := ⟨[], Nat.zero_le _, []⟩

/-- Everything that was ever put on the channel. -/
def put (c : Chan T cap) : List T := c.taken ++ c.queue

/-- The number of values that can be put on the channel before one is taken. -/
def room (c : Chan T cap) : ℕ := cap - c.queue.length

/-- Put a value on the channel if there is room. -/
def offer (c : Chan T cap) (x : T) : Chan T cap :=
  if h : c.queue.length < cap then
    ⟨c.queue ++ [x], by rw [List.length_append]; exact h, c.taken⟩
  else c

/-- Take the value that was put on the channel first. -/
def take : Chan T cap → Option (T × Chan T cap)
  | ⟨[], _, _⟩ => none
  | ⟨x :: rest, fits, taken⟩ =>
    some (x, ⟨rest, (Nat.le_succ _).trans fits, taken ++ [x]⟩)

/-- What happens to a channel. -/
inductive Op (T : Type) where
  | offer (x : T)
  | take

def machine (T : Type) (cap : ℕ) : Machine (Chan T cap) (Op T) where
  step c
    | .offer x => some (c.offer x)
    | .take => c.take.map Prod.snd

/-- The value that is offered. -/
def Op.offered : Op T → Option T
  | .offer x => some x
  | .take => none

@[simp] theorem put_new : (new T cap).put = [] := rfl

@[simp] theorem room_new : (new T cap).room = cap := rfl

theorem offer_of_room {c : Chan T cap} (h : 0 < c.room) (x : T) :
    (c.offer x).put = c.put ++ [x] ∧ (c.offer x).room + 1 = c.room := by
  have hlt : c.queue.length < cap := Nat.lt_of_sub_pos h
  unfold offer
  rw [dif_pos hlt]
  refine ⟨(List.append_assoc _ _ _).symm, ?_⟩
  simp only [room, List.length_append, List.length_singleton]
  omega

theorem offer_of_full {c : Chan T cap} (h : c.room = 0) (x : T) : c.offer x = c :=
  dif_neg (Nat.not_lt.mpr (Nat.le_of_sub_eq_zero h))

theorem take_eq_some {c c' : Chan T cap} {x : T} (h : c.take = some (x, c')) :
    c'.put = c.put ∧ c'.room = c.room + 1 := by
  obtain ⟨queue, fits, taken⟩ := c
  cases queue with
  | nil => exact absurd h (by simp [take])
  | cons y rest =>
    obtain ⟨rfl, rfl⟩ := Prod.mk.inj (Option.some.inj h)
    refine ⟨List.append_assoc _ _ _, ?_⟩
    simp only [room, List.length_cons] at fits ⊢
    omega

/-! ### Offers and takes in any order -/

/-- **What gets through.** Whatever is taken in between: some of the offers, in order, and the first
ones as long as there was room in the beginning. -/
theorem put_of_run {c c' : Chan T cap} {ops : List (Op T)}
    (h : (machine T cap).run c ops = some c') :
    ∃ through, c'.put = c.put ++ through ∧
      through.Sublist (ops.filterMap Op.offered) ∧
      (ops.filterMap Op.offered).take c.room <+: through := by
  induction ops generalizing c with
  | nil =>
    obtain rfl : c = c' := Option.some.inj h
    exact ⟨[], (List.append_nil _).symm, .slnil, by simp⟩
  | cons op rest ih =>
    obtain ⟨d, hstep, hrest⟩ := Machine.exists_step_of_run_cons h
    obtain ⟨through, hput, hsub, hfirst⟩ := ih hrest
    cases op with
    | take =>
      obtain ⟨⟨x, d'⟩, htake, rfl⟩ := Option.map_eq_some_iff.mp hstep
      obtain ⟨hsame, hroom⟩ := take_eq_some htake
      rw [hsame] at hput
      rw [hroom] at hfirst
      exact ⟨through, hput, hsub, (List.take_prefix_take_left (Nat.le_succ _)).trans hfirst⟩
    | offer x =>
      obtain rfl : c.offer x = d := Option.some.inj hstep
      show ∃ through, c'.put = c.put ++ through ∧
        through.Sublist (x :: rest.filterMap Op.offered) ∧
        (x :: rest.filterMap Op.offered).take c.room <+: through
      obtain hfull | hroom := Nat.eq_zero_or_pos c.room
      · rw [offer_of_full hfull] at hput
        refine ⟨through, hput, hsub.cons x, ?_⟩
        rw [hfull]
        exact List.nil_prefix
      · obtain ⟨hsame, hless⟩ := offer_of_room hroom x
        rw [hsame, List.append_assoc] at hput
        refine ⟨x :: through, hput, hsub.cons_cons x, ?_⟩
        rw [← hless]
        exact List.cons_prefix_cons.mpr ⟨rfl, hfirst⟩

/-- If there is room for all that is offered, all of it gets through. -/
theorem put_of_fits {c c' : Chan T cap} {ops : List (Op T)}
    (h : (machine T cap).run c ops = some c')
    (hfits : (ops.filterMap Op.offered).length ≤ c.room) :
    c'.put = c.put ++ ops.filterMap Op.offered := by
  obtain ⟨through, hput, hsub, hfirst⟩ := put_of_run h
  rw [List.take_of_length_le hfits] at hfirst
  rw [hput, hsub.eq_of_length_le hfirst.length_le]

/-! ### Offers in a row -/

/-- Offer one value after another. -/
def offerAll (c : Chan T cap) (xs : List T) : Chan T cap := xs.foldl offer c

/-- If nothing is taken, what there is room for gets through and no more. -/
theorem put_offerAll (c : Chan T cap) (xs : List T) :
    (c.offerAll xs).put = c.put ++ xs.take c.room := by
  induction xs generalizing c with
  | nil => simp [offerAll]
  | cons x rest ih =>
    show ((c.offer x).offerAll rest).put = _
    rw [ih]
    obtain hfull | hroom := Nat.eq_zero_or_pos c.room
    · simp [offer_of_full hfull, hfull]
    · obtain ⟨hsame, hless⟩ := offer_of_room hroom x
      rw [hsame, ← hless, List.take_succ_cons, List.append_assoc]
      rfl

end Chan
