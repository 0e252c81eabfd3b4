import Aiomsg.Lib.Machine
import Mathlib.Data.List.Nodup
import Mathlib.Algebra.Order.Group.Nat

/-!
# A relay

A relay takes numbered messages off a queue one at a time and hands each to any number of targets.
Messages are numbered in the order in which they are sent. A message that has been taken may be
put back as long as it has been handed to nobody.

A queue can only be put back into at its end. Doing that keeps the order only if the queue is empty,
and this is the one condition of the machine: `putBack` is a step of an empty queue.

## Scope

One message is in hand at a time, which is what makes the order a matter of the queue alone. A relay
with two hands would not keep it, and none of the steps can be taken twice at once.

What a target does with a message, and whether it ever gets it, is not seen. `out` is what was
handed over.

## Main results

* `Relay.Ordered.step` — the invariant
* `Relay.ordered_of_run` — what a relay hands out is in the order of the sends, no message twice to
  one target
-/

/-- What a relay has in hand: nothing, a message it has handed to nobody yet, or a message and the
targets that are still to get it. -/
inductive Relay.Hand (τ : Type) where
  | empty
  | taken (n : ℕ)
  | serving (n : ℕ) (targets : List τ)

/-- A relay: the number of the next message, the queue, the hand, and what has been handed out. -/
structure Relay (τ : Type) where
  next : ℕ
  queue : List ℕ
  hand : Relay.Hand τ
  out : List (ℕ × τ)

namespace Relay

variable {τ : Type}

inductive Op (τ : Type) where
  /-- A number that is used for something else. -/
  | skip
  | send
  | take
  | serve (targets : List τ)
  | deliver
  | drop
  | putBack

def step [DecidableEq τ] (r : Relay τ) : Op τ → Option (Relay τ)
  | .skip => some { r with next := r.next + 1 }
  | .send => some { r with next := r.next + 1, queue := r.queue ++ [r.next] }
  | .take =>
    match r.hand, r.queue with
    | .empty, n :: rest => some { r with hand := .taken n, queue := rest }
    | _, _ => none
  | .serve targets =>
    match r.hand with
    | .taken n => if targets.Nodup then some { r with hand := .serving n targets } else none
    | _ => none
  | .deliver =>
    match r.hand with
    | .serving n (t :: rest) => some { r with hand := .serving n rest, out := r.out ++ [(n, t)] }
    | _ => none
  | .drop => some { r with hand := .empty }
  | .putBack =>
    match r.hand, r.queue with
    | .taken n, [] => some { r with hand := .empty, queue := [n] }
    | _, _ => none

def machine (τ : Type) [DecidableEq τ] : Machine (Relay τ) (Op τ) where
  step := step

/-- What has been handed out is behind what is in hand and what is queued. -/
def Hand.Behind (out : List (ℕ × τ)) (queue : List ℕ) : Hand τ → Prop
  | .empty => ∀ e ∈ out, ∀ m ∈ queue, e.1 < m
  | .taken n => (∀ e ∈ out, e.1 < n) ∧ ∀ m ∈ queue, n < m
  | .serving n targets =>
    (∀ e ∈ out, e.1 ≤ n) ∧ (∀ m ∈ queue, n < m) ∧ targets.Nodup ∧ ∀ t ∈ targets, (n, t) ∉ out

/-- The numbers in the hand, the queue and the output are those of messages that were sent. -/
def Hand.Below (next : ℕ) : Hand τ → Prop
  | .empty => True
  | .taken n => n < next
  | .serving n _ => n < next

/-- **The invariant.** The output is in order without repetition, the queue is in order, and the
message in hand is between the two. -/
structure Ordered (r : Relay τ) : Prop where
  out_sorted : (r.out.map Prod.fst).Pairwise (· ≤ ·)
  out_nodup : r.out.Nodup
  out_lt : ∀ e ∈ r.out, e.1 < r.next
  queue_sorted : r.queue.Pairwise (· < ·)
  queue_lt : ∀ n ∈ r.queue, n < r.next
  hand_lt : r.hand.Below r.next
  behind : r.hand.Behind r.out r.queue

theorem Hand.Below.mono {h : Hand τ} {m n : ℕ} (hb : h.Below m) (hle : m ≤ n) : h.Below n := by
  cases h with
  | empty => trivial
  | taken k => exact lt_of_lt_of_le hb hle
  | serving k targets => exact lt_of_lt_of_le hb hle

/-- A message that is sent is behind everything. -/
theorem Hand.Behind.push {h : Hand τ} {out : List (ℕ × τ)} {queue : List ℕ} {next : ℕ}
    (hb : h.Behind out queue) (hbelow : h.Below next) (hout : ∀ e ∈ out, e.1 < next) :
    h.Behind out (queue ++ [next]) := by
  have hqueue {n : ℕ} (hn : n < next) (hq : ∀ m ∈ queue, n < m) : ∀ m ∈ queue ++ [next], n < m := by
    simpa [or_imp, forall_and] using And.intro hq hn
  cases h with
  | empty => exact fun e he => hqueue (hout e he) (hb e he)
  | taken n => exact ⟨hb.1, hqueue hbelow hb.2⟩
  | serving n targets => exact ⟨hb.1, hqueue hbelow hb.2.1, hb.2.2⟩

/-- Without the message in hand the output is still behind the queue. -/
theorem Hand.Behind.drop {h : Hand τ} {out : List (ℕ × τ)} {queue : List ℕ}
    (hb : h.Behind out queue) : (Hand.empty : Hand τ).Behind out queue := by
  cases h with
  | empty => exact hb
  | taken n => exact fun e he m hm => (hb.1 e he).trans (hb.2 m hm)
  | serving n targets => exact fun e he m hm => (hb.1 e he).trans_lt (hb.2.1 m hm)

variable {r r' : Relay τ}

theorem Ordered.send (h : r.Ordered) :
    ({ r with next := r.next + 1, queue := r.queue ++ [r.next] } : Relay τ).Ordered where
  out_sorted := h.out_sorted
  out_nodup := h.out_nodup
  out_lt e he := (h.out_lt e he).trans (Nat.lt_succ_self _)
  queue_sorted := by
    refine List.pairwise_append.mpr ⟨h.queue_sorted, List.pairwise_singleton _ _, ?_⟩
    simpa using h.queue_lt
  queue_lt := by
    intro n hn
    rcases List.mem_append.mp hn with hn | hn
    · exact (h.queue_lt n hn).trans (Nat.lt_succ_self _)
    · obtain rfl := List.mem_singleton.mp hn
      exact Nat.lt_succ_self _
  hand_lt := h.hand_lt.mono (Nat.le_succ _)
  behind := h.behind.push h.hand_lt h.out_lt

theorem Ordered.take {n : ℕ} {rest : List ℕ} (h : r.Ordered) (hhand : r.hand = .empty)
    (hqueue : r.queue = n :: rest) :
    ({ r with hand := .taken n, queue := rest } : Relay τ).Ordered := by
  have hsorted := List.pairwise_cons.mp (hqueue ▸ h.queue_sorted)
  have hbehind : (Hand.empty : Hand τ).Behind r.out (n :: rest) := by
    rw [← hhand, ← hqueue]
    exact h.behind
  exact
    { out_sorted := h.out_sorted
      out_nodup := h.out_nodup
      out_lt := h.out_lt
      queue_sorted := hsorted.2
      queue_lt := fun m hm => h.queue_lt m (hqueue ▸ List.mem_cons_of_mem n hm)
      hand_lt := h.queue_lt n (hqueue ▸ List.mem_cons_self)
      behind := ⟨fun e he => hbehind e he n List.mem_cons_self, hsorted.1⟩ }

theorem Ordered.serve {n : ℕ} {targets : List τ} (h : r.Ordered) (hhand : r.hand = .taken n)
    (hnodup : targets.Nodup) :
    ({ r with hand := .serving n targets } : Relay τ).Ordered := by
  have hbehind : (Hand.taken n : Hand τ).Behind r.out r.queue := hhand ▸ h.behind
  refine { h with
    hand_lt := ?_, behind := ⟨fun e he => (hbehind.1 e he).le, hbehind.2, hnodup, ?_⟩ }
  · exact (hhand ▸ h.hand_lt : (Hand.taken n : Hand τ).Below r.next)
  · intro t _ hmem
    exact lt_irrefl n (hbehind.1 _ hmem)

theorem Ordered.deliver {n : ℕ} {t : τ} {rest : List τ} (h : r.Ordered)
    (hhand : r.hand = .serving n (t :: rest)) :
    ({ r with hand := .serving n rest, out := r.out ++ [(n, t)] } : Relay τ).Ordered := by
  have hbehind : (Hand.serving n (t :: rest)).Behind r.out r.queue := hhand ▸ h.behind
  obtain ⟨hle, hlt, hnodup, hnew⟩ := hbehind
  have hn : n < r.next := (hhand ▸ h.hand_lt : (Hand.serving n (t :: rest)).Below r.next)
  obtain ⟨htrest, hrest⟩ := List.nodup_cons.mp hnodup
  exact
    { h with
      out_sorted := by
        rw [List.map_append, List.pairwise_append]
        refine ⟨h.out_sorted, List.pairwise_singleton _ _, ?_⟩
        simpa using hle
      out_nodup := by
        rw [List.nodup_append]
        refine ⟨h.out_nodup, List.nodup_singleton _, ?_⟩
        rintro e he e' he' rfl
        obtain rfl := List.mem_singleton.mp he'
        exact hnew t List.mem_cons_self he
      out_lt := by
        intro e he
        rcases List.mem_append.mp he with he | he
        · exact h.out_lt e he
        · obtain rfl := List.mem_singleton.mp he
          exact hn
      hand_lt := hn
      behind := by
        refine ⟨?_, hlt, hrest, ?_⟩
        · intro e he
          rcases List.mem_append.mp he with he | he
          · exact hle e he
          · obtain rfl := List.mem_singleton.mp he
            exact le_rfl
        · intro t' ht' hmem
          rcases List.mem_append.mp hmem with hmem | hmem
          · exact hnew t' (List.mem_cons_of_mem t ht') hmem
          · obtain ⟨-, rfl⟩ := Prod.mk.inj (List.mem_singleton.mp hmem)
            exact htrest ht' }

theorem Ordered.putBack {n : ℕ} (h : r.Ordered) (hhand : r.hand = .taken n) :
    ({ r with hand := .empty, queue := [n] } : Relay τ).Ordered := by
  have hbehind : (Hand.taken n : Hand τ).Behind r.out r.queue := hhand ▸ h.behind
  have hn : n < r.next := (hhand ▸ h.hand_lt : (Hand.taken n : Hand τ).Below r.next)
  refine { h with queue_sorted := List.pairwise_singleton _ _, queue_lt := ?_, hand_lt := trivial,
                  behind := ?_ }
  · simpa using hn
  · intro e he m hm
    obtain rfl := List.mem_singleton.mp hm
    exact hbehind.1 e he

variable [DecidableEq τ]

/-- **One step.** Every operation of a relay keeps the order. -/
theorem Ordered.step {op : Op τ} (h : r.Ordered) (hstep : r.step op = some r') : r'.Ordered := by
  revert hstep
  fun_cases Relay.step r op with
  | case1 =>
    rintro ⟨⟩
    exact { h with
      out_lt := fun e he => (h.out_lt e he).trans (Nat.lt_succ_self _)
      queue_lt := fun n hn => (h.queue_lt n hn).trans (Nat.lt_succ_self _)
      hand_lt := h.hand_lt.mono (Nat.le_succ _) }
  | case2 =>
    rintro ⟨⟩
    exact h.send
  | case3 n rest hqueue hhand =>
    rintro ⟨⟩
    exact h.take hhand hqueue
  | case5 targets n hhand hnodup =>
    rintro ⟨⟩
    exact h.serve hhand hnodup
  | case8 n t rest hhand =>
    rintro ⟨⟩
    exact h.deliver hhand
  | case10 =>
    rintro ⟨⟩
    exact { h with hand_lt := trivial, behind := h.behind.drop }
  | case11 n hqueue hhand =>
    rintro ⟨⟩
    exact h.putBack hhand
  | case4 | case6 | case7 | case9 | case12 => rintro ⟨⟩

/-- **Order.** A run that begins with nothing handed out hands messages out in the order in which
they were sent, and none twice to one target. -/
theorem ordered_of_run {ops : List (Op τ)} (h : r.Ordered)
    (hrun : (machine τ).run r ops = some r') : r'.Ordered :=
  Machine.invariant (fun _ _ _ hr hstep => Ordered.step hr hstep) hrun h

end Relay
