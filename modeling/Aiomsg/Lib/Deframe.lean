import Mathlib.Data.List.Basic

/-!
# Cutting a stream into items, however it arrives

A *deframer* looks at the bytes it holds and either asks for more, cuts one item off the front, or
stops for good. Everything that matters about reading a stream in pieces follows from one
property: once a deframer has made up its mind, more input behind what it has seen does not change
its mind. That property is a field here, `item_append` and `stop_append`, so a deframer for which
it fails cannot be built.

`drain` cuts as often as possible. `drain_append` says that draining a prefix first and the rest
afterwards is draining the whole; every statement of the form "the result does not depend on how
the stream was split" is an instance of it.

## Main definitions

* `Parse`, `Deframer` — the verdict on a buffer, and a verdict function that is stable
* `Deframer.drain` — the items cut so far, and either the bytes left over or the reason to stop

## Main results

* `Deframer.drain_append` — draining in two goes is draining in one
* `Deframer.drain_rest` — what is left over holds no further item
-/

/-- What a deframer makes of the buffer in front of it. -/
inductive Parse (α β γ : Type) where
  /-- No complete item yet. -/
  | more
  /-- One complete item, and what follows it. -/
  | item (b : β) (rest : List α)
  /-- The end: nothing further is ever read. -/
  | stop (c : γ)
deriving DecidableEq

/-- A verdict function that consumes something with every item and is not swayed by bytes behind
the ones that decided it. -/
structure Deframer (α β γ : Type) where
  /-- The verdict on a buffer. -/
  parse : List α → Parse α β γ
  /-- Every item consumes input. -/
  shrinks : ∀ {xs b rest}, parse xs = .item b rest → rest.length < xs.length
  /-- An item stays the same item when more input follows. -/
  item_append : ∀ {xs b rest} (ys),
    parse xs = .item b rest → parse (xs ++ ys) = .item b (rest ++ ys)
  /-- A stop stays the same stop when more input follows. -/
  stop_append : ∀ {xs c} (ys), parse xs = .stop c → parse (xs ++ ys) = .stop c

namespace Deframer

variable {α β γ : Type} (d : Deframer α β γ)

/-- Cut items off the front until the deframer asks for more or stops. -/
def drain (xs : List α) : List β × (List α ⊕ γ) :=
  match _h : d.parse xs with
  | .more => ([], .inl xs)
  | .item b rest => (b :: (drain rest).1, (drain rest).2)
  | .stop c => ([], .inr c)
termination_by xs.length
decreasing_by all_goals exact d.shrinks _h

variable {d} {xs rest : List α} {b : β} {c : γ}

theorem drain_more (h : d.parse xs = .more) : d.drain xs = ([], .inl xs) := by
  rw [drain]
  split <;> simp_all

theorem drain_item (h : d.parse xs = .item b rest) :
    d.drain xs = (b :: (d.drain rest).1, (d.drain rest).2) := by
  rw [drain]
  split <;> simp_all

theorem drain_stop (h : d.parse xs = .stop c) : d.drain xs = ([], .inr c) := by
  rw [drain]
  split <;> simp_all

/-- Induction along the items `drain` cuts. -/
theorem drain_induction {motive : List α → Prop} (more : ∀ xs, d.parse xs = .more → motive xs)
    (item : ∀ xs b rest, d.parse xs = .item b rest → motive rest → motive xs)
    (stop : ∀ xs c, d.parse xs = .stop c → motive xs) (xs : List α) : motive xs := by
  induction hn : xs.length using Nat.strongRecOn generalizing xs with
  | ind n ih =>
    subst hn
    cases h : d.parse xs with
    | more => exact more xs h
    | item b rest => exact item xs b rest h (ih rest.length (d.shrinks h) rest rfl)
    | stop c => exact stop xs c h

/-- What `drain` leaves over holds no further item. -/
theorem drain_rest (h : (d.drain xs).2 = .inl rest) : d.parse rest = .more := by
  induction xs using d.drain_induction with
  | more xs hp =>
    rw [drain_more hp] at h
    cases h
    exact hp
  | item xs b r hp ih =>
    rw [drain_item hp] at h
    exact ih h
  | stop xs c hp =>
    rw [drain_stop hp] at h
    cases h

/-- **Draining in two goes is draining in one**, as long as the first go has not stopped. -/
theorem drain_append (h : (d.drain xs).2 = .inl rest) (ys : List α) :
    d.drain (xs ++ ys)
      = ((d.drain xs).1 ++ (d.drain (rest ++ ys)).1, (d.drain (rest ++ ys)).2) := by
  induction xs using d.drain_induction with
  | more xs hp =>
    rw [drain_more hp] at h ⊢
    cases h
    rfl
  | item xs b r hp ih =>
    rw [drain_item hp] at h
    rw [drain_item (d.item_append ys hp), ih h, drain_item hp]
    rfl
  | stop xs c hp =>
    rw [drain_stop hp] at h
    cases h

/-- Nothing is cut off behind a stop. -/
theorem drain_append_of_stop (h : (d.drain xs).2 = .inr c) (ys : List α) :
    d.drain (xs ++ ys) = d.drain xs := by
  induction xs using d.drain_induction with
  | more xs hp =>
    rw [drain_more hp] at h
    cases h
  | item xs b r hp ih =>
    rw [drain_item hp] at h
    rw [drain_item (d.item_append ys hp), ih h, drain_item hp]
  | stop xs c hp => rw [drain_stop (d.stop_append ys hp), drain_stop hp]

/-! ### Deframers that never stop -/

section NeverStops

variable (d : Deframer α β Empty)

/-- All items of a stream. -/
def items (xs : List α) : List β := (d.drain xs).1

/-- What is left of a stream behind its last item. -/
def leftover (xs : List α) : List α := (d.drain xs).2.elim id Empty.elim

variable {d} {xs : List α}

theorem drain_eq (xs : List α) : d.drain xs = (d.items xs, .inl (d.leftover xs)) := by
  rw [items, leftover]
  match h : d.drain xs with
  | (_, .inl _) => rfl

theorem items_of_more (h : d.parse xs = .more) : d.items xs = [] := by rw [items, drain_more h]

theorem leftover_of_more (h : d.parse xs = .more) : d.leftover xs = xs := by
  rw [leftover, drain_more h]
  rfl

theorem items_of_item {r : List α} (h : d.parse xs = .item b r) :
    d.items xs = b :: d.items r := by
  rw [items, drain_item h, items]

theorem leftover_of_item {r : List α} (h : d.parse xs = .item b r) :
    d.leftover xs = d.leftover r := by
  rw [leftover, drain_item h, leftover]

theorem parse_leftover (xs : List α) : d.parse (d.leftover xs) = .more :=
  drain_rest (by rw [drain_eq xs])

theorem items_append (xs ys : List α) :
    d.items (xs ++ ys) = d.items xs ++ d.items (d.leftover xs ++ ys) := by
  have h := drain_append (d := d) (by rw [drain_eq xs]) ys
  rw [drain_eq, drain_eq, drain_eq] at h
  exact congrArg Prod.fst h

theorem leftover_append (xs ys : List α) :
    d.leftover (xs ++ ys) = d.leftover (d.leftover xs ++ ys) := by
  have h := drain_append (d := d) (by rw [drain_eq xs]) ys
  rw [drain_eq, drain_eq, drain_eq] at h
  exact Sum.inl.inj (congrArg Prod.snd h)

end NeverStops

end Deframer
