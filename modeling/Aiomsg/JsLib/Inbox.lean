import Mathlib.Data.List.Range

/-!
# The inbox of the JavaScript ports

`Inbox` of `javascript-lib/src/socket.js` and of `browser-lib/src/socket.js`: messages that wait for
someone to take them, or takers that wait for a message, each of them a promise yet to be resolved.
A taker is known by the number of its call.

Takers are served in the order of their calls, and messages handed out in the order of their
arrival. So the promises of `take` are resolved one after the other, each of them once, and what
they are resolved with is what was pushed; `null` comes only from a closed inbox that is empty.

## Main results

* `Inbox.Fair` — promises in the order of the calls, messages in the order of the pushes
* `Inbox.Fair.push`, `Inbox.Fair.take`, `Inbox.Fair.close` — every operation keeps to it

## Scope

* A promise is the number of the call that made it. When the code behind an `await` goes on, once
  its promise is resolved, is the event loop's affair.
* `push` does not ask whether the inbox is closed, as in the source. That nothing is pushed behind
  `close` is a property of the sockets.
-/

namespace Aiomsg

namespace JsLib

structure Inbox (α : Type) where
  items : List α
  waiters : List ℕ
  closed : Bool
  /-- The calls of `take` so far. -/
  takes : ℕ
  /-- The promises that were resolved, and what with. -/
  resolved : List (ℕ × Option α)

namespace Inbox

variable {α : Type}

def new : Inbox α where
  items := []
  waiters := []
  closed := false
  takes := 0
  resolved := []

/-- Resolve the promise of a call. -/
def resolve (q : Inbox α) (call : ℕ) (result : Option α) : Inbox α :=
  { q with resolved := q.resolved ++ [(call, result)] }

def push (q : Inbox α) (item : α) : Inbox α :=
  match q.waiters with
  | waiter :: rest => { q with waiters := rest }.resolve waiter (some item)
  | [] => { q with items := q.items ++ [item] }

def take (q : Inbox α) : Inbox α :=
  match q.items with
  | item :: rest => { q with items := rest, takes := q.takes + 1 }.resolve q.takes (some item)
  | [] =>
    if q.closed then { q with takes := q.takes + 1 }.resolve q.takes none
    else { q with takes := q.takes + 1, waiters := q.waiters ++ [q.takes] }

def close (q : Inbox α) : Inbox α :=
  { q with
    closed := true
    waiters := []
    resolved := q.resolved ++ q.waiters.map fun waiter => (waiter, none) }

/-- The messages that were handed out. -/
def received (q : Inbox α) : List α := q.resolved.filterMap Prod.snd

@[simp] theorem received_resolve_some (q : Inbox α) (call : ℕ) (item : α) :
    (q.resolve call (some item)).received = q.received ++ [item] := by
  simp [received, resolve]

@[simp] theorem received_resolve_none (q : Inbox α) (call : ℕ) :
    (q.resolve call none).received = q.received := by
  simp [received, resolve]

/-- Promises are resolved in the order of the calls, and with what was pushed. -/
structure Fair (pushed : List α) (q : Inbox α) : Prop where
  calls : q.resolved.map Prod.fst ++ q.waiters = List.range q.takes
  items : q.received ++ q.items = pushed
  idle : q.items = [] ∨ q.waiters = []
  closed : q.closed = true → q.waiters = []
  nulls : ∀ call, (call, none) ∈ q.resolved → q.closed = true

theorem fair_new : Fair [] (new : Inbox α) where
  calls := rfl
  items := rfl
  idle := .inl rfl
  closed _ := rfl
  nulls _ h := absurd h List.not_mem_nil

section Steps

variable {pushed : List α} {q : Inbox α}

/-- A promise resolved with a message, while `q` has no closed promises to add. -/
theorem mem_resolve_some {call call' : ℕ} {item : α}
    (h : (call', none) ∈ (q.resolve call (some item)).resolved) : (call', none) ∈ q.resolved := by
  rcases List.mem_append.mp h with hmem | hmem
  · exact hmem
  · cases List.mem_singleton.mp hmem

theorem Fair.push (h : Fair pushed q) (item : α) : Fair (pushed ++ [item]) (q.push item) := by
  unfold Inbox.push
  split
  · rename_i waiter rest hwaiters
    have hempty : q.items = [] := h.idle.resolve_right (by simp [hwaiters])
    constructor
    · have hcalls := h.calls
      rw [hwaiters] at hcalls
      simpa [resolve] using hcalls
    · have hitems := h.items
      rw [hempty, List.append_nil] at hitems
      show ({ q with waiters := rest }.resolve waiter (some item)).received ++ q.items = _
      rw [received_resolve_some, hempty, List.append_nil, ← hitems]
      rfl
    · exact .inl hempty
    · intro hclosed
      rw [h.closed hclosed] at hwaiters
      cases hwaiters
    · exact fun call hmem => h.nulls call (mem_resolve_some hmem)
  · rename_i hwaiters
    constructor
    · exact h.calls
    · show q.received ++ (q.items ++ [item]) = _
      rw [← List.append_assoc, h.items]
    · exact .inr hwaiters
    · exact h.closed
    · exact h.nulls

theorem Fair.pushAll (h : Fair pushed q) (items : List α) :
    Fair (pushed ++ items) (items.foldl Inbox.push q) := by
  induction items generalizing pushed q with
  | nil => rwa [List.append_nil]
  | cons item rest ih =>
    rw [List.append_cons]
    exact ih (h.push item)

theorem Fair.take (h : Fair pushed q) : Fair pushed q.take := by
  unfold Inbox.take
  split
  · rename_i item rest hitems
    have hwaiters : q.waiters = [] := h.idle.resolve_left (by simp [hitems])
    have hcalls := h.calls
    rw [hwaiters, List.append_nil] at hcalls
    constructor
    · simp [resolve, hwaiters, hcalls, List.range_succ]
    · have hpushed := h.items
      rw [hitems] at hpushed
      rw [received_resolve_some, List.append_assoc]
      exact hpushed
    · exact .inr hwaiters
    · exact h.closed
    · exact fun call hmem => h.nulls call (mem_resolve_some hmem)
  · rename_i hitems
    split
    · rename_i hclosed
      have hcalls := h.calls
      rw [h.closed hclosed, List.append_nil] at hcalls
      constructor
      · simp [resolve, h.closed hclosed, hcalls, List.range_succ]
      · rw [received_resolve_none]
        exact h.items
      · exact .inl hitems
      · exact h.closed
      · exact fun _ _ => hclosed
    · rename_i hopen
      constructor
      · show q.resolved.map Prod.fst ++ (q.waiters ++ [q.takes]) = List.range (q.takes + 1)
        rw [← List.append_assoc, h.calls, List.range_succ]
      · exact h.items
      · exact .inl hitems
      · exact fun hclosed => absurd hclosed hopen
      · exact h.nulls

theorem Fair.close (h : Fair pushed q) : Fair pushed q.close := by
  constructor
  · simpa [Inbox.close, Function.comp_def] using h.calls
  · have hnone :
        (q.waiters.map fun waiter => (waiter, (none : Option α))).filterMap Prod.snd = [] :=
      List.filterMap_eq_nil_iff.mpr (by simp)
    have hitems := h.items
    rw [received] at hitems ⊢
    rw [Inbox.close, List.filterMap_append, hnone, List.append_nil]
    exact hitems
  · exact .inr rfl
  · exact fun _ => rfl
  · exact fun _ _ => rfl

end Steps

end Inbox

end JsLib

end Aiomsg
