import Aiomsg.CLib.Broker
import Aiomsg.CppSync.Broker
import Aiomsg.ZigLib.Broker

/-!
# Three sweeps

`broker_sweep` of the C library goes through a list which grows in front of it, `brokerSweep` of the
Zig library through one that grows behind it and whose entries change places, and `sweep` of the
synchronous C++ library through one that stays as it is. What is put on the list while it is gone
through has a deadline in the future, and is passed by. So each of them handles exactly the entries
that had expired at the start, one after the other: the first and the last in the order of the list,
the second in some order.

## Scope

That what is put on the list is passed by needs two things of the surroundings. The clock does not
go back during the sweep, and a deadline is later than the reading it is counted from. Without the
first an entry could be handled again and again, and then a loop need not end.

The brokers agree in what becomes of their entries. They do not agree in the order in which they
resend, and so under round-robin not in which connection gets which message.

## Main definitions

* `ArrayBroker.handled`, `ArrayBroker.renewed` — what becomes of an expired entry
* `Swept` — what becomes of a broker when its expired entries are handled in a given order

## Main results

* `CLib.sweepLoop_eq`, `ZigLib.exists_sweepLoop_eq` — the loops end, and what they come to
* `sweeps_agree`
-/

namespace Aiomsg

namespace ArrayBroker

variable {C D : Type}

/-! ### Handling expired entries -/

@[simp] theorem find_withPending (b : ArrayBroker C D) (l : List (Waiting D)) (id : Identity) :
    { b with pending := l }.find id = b.find id := rfl

@[simp] theorem inTurn_withPending (b : ArrayBroker C D) (l : List (Waiting D)) :
    { b with pending := l }.inTurn = b.inTurn := rfl

/-- Routing has nothing to do with the waiting messages. -/
theorem route_withPending (b : ArrayBroker C D) (l : List (Waiting D)) (shutdown : Bool)
    (identity : Option Identity) (frame : Envelope D) :
    { b with pending := l }.route shutdown identity frame
      = { b.route shutdown identity frame with pending := l } := by
  simp only [route, find_withPending, inTurn_withPending]
  split
  · rfl
  · split
    · split <;> rfl
    · split
      · rfl
      · split <;> rfl

/-- The frame of a retransmission. -/
def frameOf (b : ArrayBroker C D) (draw : Draw) (p : Waiting D) : Envelope D :=
  if b.atLeastOnce p.identity then .dataReq draw.msgId p.data else .data p.data

/-- What becomes of an expired entry: it is dropped, buffered or retransmitted. -/
def handled (b : ArrayBroker C D) (draw : Draw) (p : Waiting D) : ArrayBroker C D :=
  if p.retries = 0 then b
  else if b.conns.isEmpty then b.keepFor p.identity p.data
  else b.route draw.shutdown p.identity (b.frameOf draw p)

/-- The entry that waits in its place. -/
def renewed (resendMs : ℤ) (b : ArrayBroker C D) (draw : Draw) (p : Waiting D) :
    List (Waiting D) :=
  if p.retries = 0 ∨ b.conns.isEmpty ∨ ¬ b.atLeastOnce p.identity then []
  else [⟨draw.msgId, p.identity, p.data, p.retries - 1, draw.now + resendMs⟩]

def handledAll (b : ArrayBroker C D) (draws : ℕ → Draw) : List (Waiting D) → ArrayBroker C D
  | [] => b
  | p :: rest => (b.handled (draws 0) p).handledAll (fun k => draws (k + 1)) rest

def renewedAll (resendMs : ℤ) (b : ArrayBroker C D) (draws : ℕ → Draw) :
    List (Waiting D) → List (Waiting D)
  | [] => []
  | p :: rest =>
    b.renewed resendMs (draws 0) p ++ b.renewedAll resendMs (fun k => draws (k + 1)) rest

variable {resendMs : ℤ}

theorem resend_eq (keep : Waiting D → List (Waiting D) → List (Waiting D)) (b : ArrayBroker C D)
    (draw : Draw) (p : Waiting D) :
    b.resend keep resendMs draw p =
      { b.handled draw p with
        pending := (b.renewed resendMs draw p).foldr keep (b.handled draw p).pending } := by
  by_cases hretries : p.retries = 0
  · simp [resend, handled, renewed, hretries]
  · by_cases hconns : b.conns.isEmpty
    · simp [resend, handled, renewed, hretries, hconns, Nat.pos_of_ne_zero]
    · by_cases halo : b.atLeastOnce p.identity
      · simp [resend, handled, renewed, frameOf, transmit, hretries, hconns, halo,
          Nat.pos_of_ne_zero, route_withPending]
      · have hnone : b.renewed resendMs draw p = [] := by simp [renewed, halo]
        have hresend : b.resend keep resendMs draw p = b.handled draw p := by
          simp [resend, handled, frameOf, transmit, hretries, hconns, halo, Nat.pos_of_ne_zero]
        rw [hnone, hresend, List.foldr_nil]

/-! ### Brokers that differ in the order of their waiting messages -/

/-- The same broker, up to the order of the waiting messages. -/
structure SameButOrder (b b' : ArrayBroker C D) : Prop where
  pending : b'.pending.Perm b.pending
  rest : b' = { b with pending := b'.pending }

namespace SameButOrder

theorem refl (b : ArrayBroker C D) : SameButOrder b b := ⟨.refl _, rfl⟩

theorem of_perm (b : ArrayBroker C D) {l : List (Waiting D)} (h : l.Perm b.pending) :
    SameButOrder b { b with pending := l } :=
  ⟨h, rfl⟩

theorem trans {b b' b'' : ArrayBroker C D} (h : SameButOrder b b') (h' : SameButOrder b' b'') :
    SameButOrder b b'' where
  pending := h'.pending.trans h.pending
  rest := by
    rw [h'.rest, h.rest]

end SameButOrder

theorem handled_withPending (b : ArrayBroker C D) (l : List (Waiting D)) (draw : Draw)
    (p : Waiting D) :
    { b with pending := l }.handled draw p = { b.handled draw p with pending := l } := by
  have hframe : { b with pending := l }.frameOf draw p = b.frameOf draw p := rfl
  simp only [handled, hframe, route_withPending]
  split
  · rfl
  · split <;> rfl

@[simp] theorem conns_handled (b : ArrayBroker C D) (draw : Draw) (p : Waiting D) :
    (b.handled draw p).conns = b.conns := by
  unfold handled
  split
  · rfl
  · split
    · rfl
    · exact conns_route ..

@[simp] theorem pending_handled (b : ArrayBroker C D) (draw : Draw) (p : Waiting D) :
    (b.handled draw p).pending = b.pending := by
  unfold handled
  split
  · rfl
  · split
    · rfl
    · exact pending_route ..

@[simp] theorem renewed_handled (b : ArrayBroker C D) (draw draw' : Draw) (p p' : Waiting D) :
    (b.handled draw' p').renewed resendMs draw p = b.renewed resendMs draw p := by
  have halo : (b.handled draw' p').atLeastOnce p.identity = b.atLeastOnce p.identity := by
    unfold handled
    split
    · rfl
    · split
      · rfl
      · simp [atLeastOnce]
  simp [renewed, halo]

@[simp] theorem renewedAll_handled (b : ArrayBroker C D) (draws : ℕ → Draw) (draw : Draw)
    (p : Waiting D) (l : List (Waiting D)) :
    (b.handled draw p).renewedAll resendMs draws l = b.renewedAll resendMs draws l := by
  induction l generalizing draws with
  | nil => rfl
  | cons q rest ih => rw [renewedAll, renewedAll, renewed_handled, ih]

/-- Adding to the waiting messages, wherever the port does it. -/
def Keeps (keep : Waiting D → List (Waiting D) → List (Waiting D)) : Prop :=
  ∀ p l, (keep p l).Perm (p :: l)

theorem Keeps.perm_foldr {keep : Waiting D → List (Waiting D) → List (Waiting D)}
    (hkeep : Keeps keep) (new l : List (Waiting D)) : (new.foldr keep l).Perm (new ++ l) := by
  induction new with
  | nil => exact .refl _
  | cons p new ih => exact (hkeep p _).trans (ih.cons p)

/-- Handling the same entry keeps brokers the same. -/
theorem SameButOrder.resend {keep keep' : Waiting D → List (Waiting D) → List (Waiting D)}
    (hkeep : Keeps keep) (hkeep' : Keeps keep') {b b' : ArrayBroker C D} (h : SameButOrder b b')
    (draw : Draw) (p : Waiting D) :
    SameButOrder (b.resend keep resendMs draw p) (b'.resend keep' resendMs draw p) := by
  have hrenewed : b'.renewed resendMs draw p = b.renewed resendMs draw p := by rw [h.rest]; rfl
  have hhandled : b'.handled draw p = { b.handled draw p with pending := b'.pending } := by
    conv_lhs => rw [h.rest]
    exact handled_withPending ..
  rw [resend_eq, resend_eq, hrenewed, hhandled]
  refine ⟨?_, rfl⟩
  rw [pending_handled]
  have hnew : ((b.renewed resendMs draw p).foldr keep' b'.pending).Perm
      (b.renewed resendMs draw p ++ b'.pending) := hkeep'.perm_foldr ..
  have hold := h.pending.append_left (b.renewed resendMs draw p)
  exact (hnew.trans hold).trans (hkeep.perm_foldr ..).symm

theorem SameButOrder.resendAll {keep keep' : Waiting D → List (Waiting D) → List (Waiting D)}
    (hkeep : Keeps keep) (hkeep' : Keeps keep') {b b' : ArrayBroker C D} (h : SameButOrder b b')
    (draws : ℕ → Draw) (l : List (Waiting D)) :
    SameButOrder (b.resendAll keep resendMs draws l) (b'.resendAll keep' resendMs draws l) := by
  induction l generalizing b b' draws with
  | nil => exact h
  | cons p rest ih => exact ih (h.resend hkeep hkeep' (draws 0) p) _

/-- What a sweep that starts at `now` takes off the list. -/
def due (now : ℤ) (p : Waiting D) : Bool := p.deadline ≤ now

/-- What waits anew is not due in the sweep which puts it there. -/
theorem not_due_renewed (hresend : 0 < resendMs) {now : ℤ} {draw : Draw} (hnow : now ≤ draw.now)
    (b : ArrayBroker C D) (p : Waiting D) :
    ∀ q ∈ b.renewed resendMs draw p, due now q = false := by
  intro q hq
  unfold renewed at hq
  split at hq
  · cases hq
  · obtain rfl := List.mem_singleton.mp hq
    simp only [due, decide_eq_false_iff_not]
    omega

theorem length_renewed_le (b : ArrayBroker C D) (draw : Draw) (p : Waiting D) :
    (b.renewed resendMs draw p).length ≤ 1 := by
  unfold renewed
  split <;> simp

/-! ### What a sweep comes to -/

theorem handledAll_withPending (b : ArrayBroker C D) (l : List (Waiting D)) (draws : ℕ → Draw)
    (order : List (Waiting D)) :
    { b with pending := l }.handledAll draws order
      = { b.handledAll draws order with pending := l } := by
  induction order generalizing b draws with
  | nil => rfl
  | cons p rest ih => rw [handledAll, handledAll, handled_withPending, ih]

/-- The waiting messages may be anything while one says what else was done. -/
theorem eq_handledAll {b b' : ArrayBroker C D} {l : List (Waiting D)} {draws : ℕ → Draw}
    {order : List (Waiting D)}
    (h : { b' with pending := l } = { b with pending := l }.handledAll draws order) :
    { b' with pending := b.pending } = b.handledAll draws order := by
  have hput := congrArg (fun st => { st with pending := b.pending }) h
  rw [handledAll_withPending] at hput
  exact hput.trans (handledAll_withPending b b.pending draws order).symm

@[simp] theorem pending_handledAll (b : ArrayBroker C D) (draws : ℕ → Draw)
    (order : List (Waiting D)) : (b.handledAll draws order).pending = b.pending := by
  induction order generalizing b draws with
  | nil => rfl
  | cons p rest ih => rw [handledAll, ih, pending_handled]

theorem renewedAll_withPending (b : ArrayBroker C D) (l : List (Waiting D)) (draws : ℕ → Draw)
    (order : List (Waiting D)) :
    { b with pending := l }.renewedAll resendMs draws order =
      b.renewedAll resendMs draws order := by
  induction order generalizing draws with
  | nil => rfl
  | cons p rest ih =>
    rw [renewedAll, renewedAll, ih]
    rfl

/-- What of the expired entries is buffered. -/
def rebuffered (b : ArrayBroker C D) (order : List (Waiting D)) : List (Buffered D) :=
  if b.conns.isEmpty then (order.filter (0 < ·.retries)).map fun p => ⟨p.identity, p.data⟩ else []

theorem buffer_handledAll (b : ArrayBroker C D) (draws : ℕ → Draw) (order : List (Waiting D)) :
    (b.handledAll draws order).buffer = b.buffer ++ b.rebuffered order := by
  induction order generalizing b draws with
  | nil => simp [handledAll, rebuffered]
  | cons p rest ih =>
    rw [handledAll, ih, rebuffered, conns_handled, rebuffered]
    by_cases hretries : p.retries = 0
    · simp [handled, hretries]
    · by_cases hconns : b.conns.isEmpty
      · simp [handled, keepFor, hretries, hconns, Nat.pos_of_ne_zero]
      · simp [handled, hretries, hconns]

/-- `b'` is what becomes of `b` when every entry that is due is handled once, in the order `order`,
the `k`-th with the `k`-th draw. -/
structure Swept (resendMs now : ℤ) (draws : ℕ → Draw) (order : List (Waiting D))
    (b b' : ArrayBroker C D) : Prop where
  each : order.Perm (b.pending.filter (due now))
  /-- What is not due is left alone, and what is retransmitted waits anew. -/
  pending : b'.pending.Perm
    (b.pending.filter (!due now ·) ++ b.renewedAll resendMs draws order)
  buffer : b'.buffer = b.buffer ++ b.rebuffered order
  /-- Nothing else has been done. -/
  rest : { b' with pending := b.pending } = b.handledAll draws order

variable (resendMs) in
theorem perm_resendAll {keep : Waiting D → List (Waiting D) → List (Waiting D)}
    (hkeep : Keeps keep) (b : ArrayBroker C D) (draws : ℕ → Draw) (order : List (Waiting D)) :
    (b.resendAll keep resendMs draws order).pending.Perm
        (b.pending ++ b.renewedAll resendMs draws order) ∧
      { b.resendAll keep resendMs draws order with pending := b.pending }
        = b.handledAll draws order := by
  induction order generalizing b draws with
  | nil => exact ⟨by simp [resendAll, renewedAll], rfl⟩
  | cons p rest ih =>
    have hnew := hkeep.perm_foldr (b.renewed resendMs (draws 0) p) b.pending
    obtain ⟨hpending, hrest⟩ := ih (b.resend keep resendMs (draws 0) p) fun k => draws (k + 1)
    rw [resendAll, handledAll, renewedAll]
    rw [resend_eq, pending_handled] at hpending hrest ⊢
    rw [renewedAll_withPending, renewedAll_handled] at hpending
    refine ⟨hpending.trans ?_, ?_⟩
    · rw [← List.append_assoc]
      exact (hnew.trans List.perm_append_comm).append_right _
    · rw [← eq_handledAll hrest, pending_handled]

/-- The order of the entries that are not due does not matter. -/
theorem Swept.of_perm {now : ℤ} {draws : ℕ → Draw} {order l : List (Waiting D)}
    {b b' : ArrayBroker C D} (h : Swept resendMs now draws order { b with pending := l } b')
    (hl : l.Perm b.pending) : Swept resendMs now draws order b b' where
  each := h.each.trans (hl.filter _)
  pending := by
    have hpending := h.pending
    rw [renewedAll_withPending] at hpending
    exact hpending.trans ((hl.filter _).append_right _)
  buffer := h.buffer
  rest := eq_handledAll h.rest

theorem SameButOrder.swept {now : ℤ} {draws : ℕ → Draw} {order : List (Waiting D)}
    {b b' b'' : ArrayBroker C D} (hsame : SameButOrder b' b'')
    (h : Swept resendMs now draws order b b') : Swept resendMs now draws order b b'' where
  each := h.each
  pending := hsame.pending.trans h.pending
  buffer := by
    rw [hsame.rest]
    exact h.buffer
  rest := by
    rw [hsame.rest]
    exact h.rest

end ArrayBroker

open ArrayBroker

variable {C D : Type} {resendMs : ℤ}

namespace CLib

theorem keeps_cons : Keeps (List.cons : Waiting D → List (Waiting D) → List (Waiting D)) :=
  fun _ _ => .refl _

/-- What the second loop of `broker_sweep` makes of deadlines is at least zero. -/
theorem soonestLoop_nonneg {soonest : ℤ} (hsoonest : 0 ≤ soonest) (clock : ℕ → ℤ)
    (pending : List (Waiting D)) : 0 ≤ soonestLoop soonest clock pending := by
  induction pending generalizing soonest clock with
  | nil => exact hsoonest
  | cons p rest ih =>
    refine ih ?_ _
    split <;> split <;> omega

/-- `broker_sweep` returns -1 if and only if no message waits. -/
theorem soonestLoop_eq_iff (clock : ℕ → ℤ) (pending : List (Waiting D)) :
    soonestLoop (-1) clock pending = -1 ↔ pending = [] := by
  cases pending with
  | nil => exact ⟨fun _ => rfl, fun _ => rfl⟩
  | cons p rest =>
    have hfirst : 0 ≤ if p.deadline - clock 0 < 0 then 0 else p.deadline - clock 0 := by
      split <;> omega
    have hnonneg := soonestLoop_nonneg hfirst (fun k => clock (k + 1)) rest
    have hloop : soonestLoop (-1) clock (p :: rest) =
        soonestLoop (if p.deadline - clock 0 < 0 then 0 else p.deadline - clock 0)
          (fun k => clock (k + 1)) rest := rfl
    constructor
    · intro h
      omega
    · intro h
      cases h

/-- `pp` points to the field that holds the first node of `rest`, and `passed` is what comes before
it. -/
def Place.At (pp : Place) (passed rest : List (Waiting D)) : Prop :=
  match pp with
  | head => passed = []
  | next behind => behind = rest.length

theorem Place.At.deref {pp : Place} {passed rest : List (Waiting D)} (h : pp.At passed rest) :
    pp.deref (passed ++ rest) = rest := by
  cases pp with
  | head =>
    obtain rfl : passed = [] := h
    rfl
  | next behind =>
    obtain rfl : behind = rest.length := h
    simp [Place.deref]

theorem Place.At.assign {pp : Place} {passed rest : List (Waiting D)} (h : pp.At passed rest)
    (rest' : List (Waiting D)) : pp.assign (passed ++ rest) rest' = passed ++ rest' := by
  cases pp with
  | head =>
    obtain rfl : passed = [] := h
    rfl
  | next behind =>
    obtain rfl : behind = rest.length := h
    simp [Place.assign]

theorem resend_withPending (b : ArrayBroker C D) (l : List (Waiting D)) (draw : Draw)
    (p : Waiting D) :
    { b with pending := l }.resend List.cons resendMs draw p =
      { b.handled draw p with pending := b.renewed resendMs draw p ++ l } := by
  have hrenewed : { b with pending := l }.renewed resendMs draw p = b.renewed resendMs draw p := rfl
  rw [resend_eq, pending_handled, handled_withPending, hrenewed, List.foldr_cons_eq_append]
  simp

/-- A node that has been put in just where `pp` looks costs one round. -/
theorem exists_sweepLoop_skip {now : ℤ} {n : ℕ} (hn : 0 < n) (draws : ℕ → Draw) {pp : Place}
    {p : Waiting D} {new passed rest : List (Waiting D)} (hlen : new.length ≤ 1)
    (hnew : ∀ q ∈ new, due now q = false) (hat : pp.At passed (p :: rest)) {b : ArrayBroker C D}
    (hpending : b.pending = new ++ (passed ++ rest)) :
    ∃ pp' n', n ≤ n' + 1 ∧ pp'.At (new ++ passed) rest ∧
      sweepLoop resendMs now n draws (pp.assigned rest) b =
        sweepLoop resendMs now n' draws pp' b := by
  cases pp with
  | next behind => exact ⟨.next rest.length, n, n.le_succ, rfl, rfl⟩
  | head =>
    obtain rfl : passed = [] := hat
    match new, hlen with
    | [], _ => exact ⟨.head, n, n.le_succ, rfl, rfl⟩
    | [q], _ =>
      obtain ⟨m, rfl⟩ : ∃ m, n = m + 1 := ⟨n - 1, by omega⟩
      refine ⟨.next rest.length, m, Nat.le_refl _, rfl, ?_⟩
      have hq : ¬ q.deadline ≤ now := by simpa [due] using hnew q List.mem_cons_self
      rw [Place.assigned, sweepLoop, hpending]
      simp only [Place.deref, List.cons_append, List.nil_append, if_neg hq]

/-- The first loop of `broker_sweep`. What has been passed is not due, and neither is what is put
in front of it. -/
theorem sweepLoop_eq (hresend : 0 < resendMs) {now : ℤ} (rest : List (Waiting D)) :
    ∀ (rounds : ℕ) (draws : ℕ → Draw) (pp : Place) (passed : List (Waiting D))
      (b : ArrayBroker C D), (∀ k, now ≤ (draws k).now) → 2 * rest.length < rounds →
      pp.At passed rest → b.pending = passed ++ rest →
      sweepLoop resendMs now rounds draws pp b =
        some ({ b with pending := passed ++ rest.filter (!due now ·) }.resendAll List.cons resendMs
          draws (rest.filter (due now))) := by
  induction rest with
  | nil =>
    intro rounds draws pp passed b hnow hrounds hat hpending
    obtain ⟨n, rfl⟩ : ∃ n, rounds = n + 1 := ⟨rounds - 1, by omega⟩
    rw [sweepLoop, hpending, hat.deref]
    simp [resendAll, ← hpending]
  | cons p rest ih =>
    intro rounds draws pp passed b hnow hrounds hat hpending
    rw [List.length_cons] at hrounds
    obtain ⟨n, rfl⟩ : ∃ n, rounds = n + 1 := ⟨rounds - 1, by omega⟩
    rw [sweepLoop, hpending, hat.deref]
    dsimp only
    by_cases hp : p.deadline ≤ now
    · have hdue : due now p = true := by simp [due, hp]
      rw [if_pos hp, hat.assign, resend_withPending]
      let b' := { b.handled (draws 0) p with
        pending := b.renewed resendMs (draws 0) p ++ (passed ++ rest) }
      obtain ⟨pp', n', hn', hat', hskip⟩ := exists_sweepLoop_skip (b := b') (n := n) (by omega)
        (fun k => draws (k + 1)) (length_renewed_le b (draws 0) p)
        (not_due_renewed hresend (hnow 0) b p) hat rfl
      rw [hskip, ih _ _ _ _ _ (fun k => hnow (k + 1)) (by omega) hat' (List.append_assoc ..).symm]
      simp only [b', hdue, List.filter_cons, Bool.not_true, if_true, Bool.false_eq_true, if_false,
        resendAll, resend_withPending, List.append_assoc]
    · have hdue : due now p = false := by simp [due, hp]
      have hat' : (Place.next rest.length).At (passed ++ [p]) rest := rfl
      rw [if_neg hp, ih _ _ _ _ _ hnow (by omega) hat' (by rw [hpending]; simp)]
      simp [hdue]

end CLib

namespace ZigLib

theorem keeps_append : Keeps (append : Waiting D → List (Waiting D) → List (Waiting D)) :=
  fun p l => List.perm_append_singleton p l

theorem foldr_append (new l : List (Waiting D)) : new.foldr append l = l ++ new.reverse := by
  induction new with
  | nil => simp
  | cons p new ih => rw [List.foldr_cons, ih, append, List.reverse_cons, List.append_assoc]

theorem resend_withPending (b : ArrayBroker C D) (l : List (Waiting D)) (draw : Draw)
    (p : Waiting D) :
    { b with pending := l }.resend append resendMs draw p =
      { b.handled draw p with pending := l ++ (b.renewed resendMs draw p).reverse } := by
  have hrenewed : { b with pending := l }.renewed resendMs draw p = b.renewed resendMs draw p := rfl
  rw [resend_eq, pending_handled, handled_withPending, hrenewed, foldr_append]

/-- The loop of `brokerSweep`. What stands before the index is not due, and neither is what is
appended; the other entries may change places. -/
theorem exists_sweepLoop_eq (hresend : 0 < resendMs) {now : ℤ} (rounds : ℕ) :
    ∀ (draws : ℕ → Draw) (passed rest : List (Waiting D)) (b : ArrayBroker C D),
      (∀ k, now ≤ (draws k).now) → rest.length + rest.countP (due now) < rounds →
      b.pending = passed ++ rest →
      ∃ order b', order.Perm (rest.filter (due now)) ∧
        sweepLoop resendMs now rounds draws passed.length b = some b' ∧
        SameButOrder ({ b with pending := passed ++ rest.filter (!due now ·) }.resendAll append
          resendMs draws order) b' := by
  induction rounds with
  | zero =>
    intro draws passed rest b hnow hrounds hpending
    omega
  | succ n ih =>
    intro draws passed rest b hnow hrounds hpending
    rw [sweepLoop, hpending]
    cases rest with
    | nil =>
      refine ⟨[], b, .refl _, by simp, ?_⟩
      simp [resendAll, ← hpending, SameButOrder.refl]
    | cons p rest =>
      rw [List.getElem?_append_right (Nat.le_refl _), Nat.sub_self, List.getElem?_cons_zero]
      dsimp only
      rw [List.length_cons] at hrounds
      by_cases hp : p.deadline ≤ now
      · have hdue : due now p = true := by simp [due, hp]
        obtain ⟨l, hl, hremove⟩ := List.exists_swapRemove_eq passed p rest
        rw [if_pos hp, hremove, resend_withPending]
        have hnew : ∀ q ∈ (b.renewed resendMs (draws 0) p).reverse, due now q = false :=
          fun q hq => not_due_renewed hresend (hnow 0) b p q (List.mem_reverse.mp hq)
        have hlen : (b.renewed resendMs (draws 0) p).reverse.length ≤ 1 := by
          rw [List.length_reverse]
          exact length_renewed_le b (draws 0) p
        generalize hrenewed : (b.renewed resendMs (draws 0) p).reverse = new at hnew hlen
        have hnone : new.filter (due now) = [] := by simpa using hnew
        have hall : new.filter (!due now ·) = new := by simpa using hnew
        have hrest : (l ++ new).length + (l ++ new).countP (due now) < n := by
          have hcount := hl.countP_eq (due now)
          rw [List.countP_cons_of_pos hdue] at hrounds
          rw [List.countP_append, List.countP_eq_length_filter (l := new), hnone,
            List.length_append, hl.length_eq, hcount]
          simp only [List.length_nil]
          omega
        obtain ⟨order, b', horder, hrun, hsame⟩ := ih (fun k => draws (k + 1)) passed (l ++ new)
          { b.handled (draws 0) p with pending := passed ++ (l ++ new) } (fun k => hnow (k + 1))
          hrest rfl
        refine ⟨p :: order, b', ?_, ?_, ?_⟩
        · rw [List.filter_append, hnone, List.append_nil] at horder
          rw [List.filter_cons_of_pos hdue]
          exact (horder.trans (hl.filter _)).cons p
        · rw [List.append_assoc, hrun]
        · have hkept : (p :: rest).filter (!due now ·) = rest.filter (!due now ·) := by simp [hdue]
          rw [hkept, resendAll, resend_withPending, hrenewed]
          refine .trans (.resendAll keeps_append keeps_append (.of_perm _ ?_) _ order) hsame
          rw [List.filter_append, hall, List.append_assoc]
          exact ((hl.filter _).append_right new).append_left passed
      · have hdue : due now p = false := by simp [due, hp]
        rw [if_neg hp]
        obtain ⟨order, b', horder, hrun, hsame⟩ := ih draws (passed ++ [p]) rest b hnow
          (by simp [hdue] at hrounds; omega) (by rw [hpending]; simp)
        refine ⟨order, b', ?_, ?_, ?_⟩
        · simpa [hdue] using horder
        · simpa using hrun
        · simpa [hdue] using hsame

end ZigLib

namespace CppSync

theorem keeps_pushBack : Keeps (pushBack : Waiting D → List (Waiting D) → List (Waiting D)) :=
  fun p l => List.perm_append_singleton p l

theorem expire_eq (now : ℤ) (pending : List (Waiting D)) :
    expire now pending = (pending.filter (due now), pending.filter (!due now ·)) := by
  induction pending with
  | nil => rfl
  | cons p rest ih =>
    by_cases hp : p.deadline ≤ now
    · simp [expire, ih, due, hp]
    · simp [expire, ih, due, hp]

theorem sweep_eq (now : ℤ) (draws : ℕ → Draw) (st : ArrayBroker C D) :
    (sweep resendMs now draws st).1 =
      { st with pending := st.pending.filter (!due now ·) }.resendAll pushBack resendMs draws
        (st.pending.filter (due now)) := by
  rw [sweep, expire_eq]

/-- The sweep in two phases. -/
theorem swept_sweep (now : ℤ) (draws : ℕ → Draw) (st : ArrayBroker C D) :
    Swept resendMs now draws (st.pending.filter (due now)) st
      (sweep resendMs now draws st).1 := by
  obtain ⟨hpending, hrest⟩ := perm_resendAll resendMs keeps_pushBack
    { st with pending := st.pending.filter (!due now ·) } draws (st.pending.filter (due now))
  rw [renewedAll_withPending] at hpending
  rw [sweep_eq]
  refine ⟨.refl _, hpending, ?_, eq_handledAll hrest⟩
  have hbuffer := congrArg buffer (eq_handledAll hrest)
  exact hbuffer.trans (buffer_handledAll st draws _)

end CppSync

/-- **The three sweeps agree.** Each of them ends. The C sweep comes to the same as the two-phase
sweep, up to the order in which messages wait afterwards, and the Zig sweep to the same as the
two-phase sweep of the same messages in some other order. -/
theorem sweeps_agree (hresend : 0 < resendMs) (b : ArrayBroker C D) (now : ℤ) (draws : ℕ → Draw)
    (hnow : ∀ k, now ≤ (draws k).now) (rounds : ℕ) (hrounds : 2 * b.pending.length < rounds)
    (clock : ℕ → ℤ) :
    Swept resendMs now draws (b.pending.filter (due now)) b
        (CppSync.sweep resendMs now draws b).1 ∧
      (∃ c, CLib.brokerSweep resendMs rounds now draws clock b =
          some (c, CLib.soonestLoop (-1) clock c.pending) ∧
        SameButOrder (CppSync.sweep resendMs now draws b).1 c ∧
        Swept resendMs now draws (b.pending.filter (due now)) b c) ∧
      ∃ z pending, ZigLib.brokerSweep resendMs rounds now draws b = some z ∧
        pending.Perm b.pending ∧
        SameButOrder (CppSync.sweep resendMs now draws { b with pending := pending }).1 z ∧
        Swept resendMs now draws (pending.filter (due now)) b z := by
  have hcpp : Swept resendMs now draws (b.pending.filter (due now)) b
      (CppSync.sweep resendMs now draws b).1 := CppSync.swept_sweep now draws b
  refine ⟨hcpp, ?_, ?_⟩
  · have hloop := CLib.sweepLoop_eq hresend b.pending rounds draws .head [] b hnow hrounds rfl rfl
    have hsame : SameButOrder (CppSync.sweep resendMs now draws b).1
        ({ b with pending := b.pending.filter (!due now ·) }.resendAll List.cons resendMs draws
          (b.pending.filter (due now))) := by
      rw [CppSync.sweep_eq]
      exact .resendAll CppSync.keeps_pushBack CLib.keeps_cons (.refl _) draws _
    refine ⟨_, ?_, hsame, hsame.swept hcpp⟩
    rw [CLib.brokerSweep, hloop]
    rfl
  · have hcount := b.pending.countP_le_length (p := due now)
    obtain ⟨order, z, horder, hloop, hsame⟩ := ZigLib.exists_sweepLoop_eq hresend rounds draws []
      b.pending b hnow (by omega) rfl
    have hdue : ∀ p ∈ order, due now p = true := fun p hp =>
      (List.mem_filter.mp (horder.mem_iff.mp hp)).2
    have hfirst : (order ++ b.pending.filter (!due now ·)).filter (due now) = order := by
      rw [List.filter_append, List.filter_eq_self.mpr hdue, List.filter_filter]
      simp
    have hlast : (order ++ b.pending.filter (!due now ·)).filter (!due now ·) =
        b.pending.filter (!due now ·) := by
      rw [List.filter_append, List.filter_filter, List.filter_eq_nil_iff.mpr fun p hp => by
        simp [hdue p hp]]
      simp
    have hperm : (order ++ b.pending.filter (!due now ·)).Perm b.pending :=
      (horder.append_right _).trans (List.filter_append_perm (due now) b.pending)
    have hsame' : SameButOrder (CppSync.sweep resendMs now draws
        { b with pending := order ++ b.pending.filter (!due now ·) }).1 z := by
      rw [CppSync.sweep_eq]
      dsimp only
      rw [hfirst, hlast]
      exact hsame
    refine ⟨z, _, hloop, hperm, hsame', ?_⟩
    exact (hsame'.swept (CppSync.swept_sweep now draws _)).of_perm hperm

/-- One message that has expired and one that has not, for two peers in turn. -/
def twoWaiting : ArrayBroker ℕ ℕ :=
  let peer : Identity := List.Vector.replicate 16 7
  { new .roundRobin .atLeastOnce with
    conns := [⟨peer, 0⟩]
    pending := [⟨peer, none, 42, 3, 0⟩, ⟨peer, none, 43, 3, 9⟩] }

theorem twoWaiting_sweeps_agree :
    let draws : ℕ → Draw := fun _ => ⟨List.Vector.replicate 16 0, 1, false⟩
    ∃ z, ZigLib.brokerSweep 5000 5 1 draws twoWaiting = some z ∧
      ∃ order, Swept 5000 1 draws order twoWaiting z := by
  intro draws
  have hresend : (0 : ℤ) < 5000 := by decide
  obtain ⟨-, -, z, pending, hz, -, -, hswept⟩ := sweeps_agree hresend twoWaiting 1 draws
    (fun _ => Int.le_refl _) 5 (by decide) fun _ => 1
  exact ⟨z, hz, _, hswept⟩

end Aiomsg
