import Aiomsg.ArrayBroker.Basic
import Aiomsg.Lib.Machine
import Aiomsg.Lib.SwapRemove

/-!
# The broker of the C library

The broker of `c-lib/src/aiomsg.c`, for any type of pointers to connections. Waiting messages are a
linked list, and `broker_transmit` puts a new one in front.

`broker_sweep` goes through that list with `pp`, a pointer to the field that holds the next node,
and transmits while it goes. So a new head may appear just where it looks. It is modelled with a
bound on the number of its rounds, and is `none` if they do not suffice.

## Scope

Allocation succeeds. An entry whose node cannot be allocated is dropped by the source without a
word, and the model has no such step. Freeing is left to the ownership of connections; here a
pointer is a value of type `C`, and nothing is read through it.

A clock and the random ids are inputs. Two draws may be alike, since nothing in the handlers checks
that they are not.

## Main definitions

* `CLib.brokerSweep` — the sweep, on a list that grows in front
* `CLib.brokerUp`, `CLib.brokerDown`, `CLib.brokerReceived` — the other handlers of `broker_main`
* `CLib.broker` — the handlers as a machine
-/

namespace Aiomsg

namespace CLib

open ArrayBroker

variable {C D : Type}

def resendMs : ℤ := 5000

def brokerFind (b : ArrayBroker C D) (identity : Identity) : Option C := b.find identity

def brokerRoute (b : ArrayBroker C D) (shutdown : Bool) (identity : Option Identity)
    (frame : Envelope D) : ArrayBroker C D :=
  b.route shutdown identity frame

def brokerBuffer (b : ArrayBroker C D) (identity : Option Identity) (data : D) :
    ArrayBroker C D :=
  b.keepFor identity data

section Resend

variable (resendMs : ℤ)

def brokerTransmit (b : ArrayBroker C D) (draw : Draw) (identity : Option Identity) (data : D)
    (retries : ℕ) : ArrayBroker C D :=
  b.transmit List.cons resendMs draw identity data retries

def brokerSend (b : ArrayBroker C D) (draw : Draw) (identity : Option Identity) (data : D) :
    ArrayBroker C D :=
  b.send List.cons resendMs draw identity data

/-- `conn *c` with `c->peer`. -/
def brokerUp (b : ArrayBroker C D) (draws : ℕ → Draw) (peer : Identity) (c : C) :
    ArrayBroker C D :=
  if (brokerFind b peer).isSome then b else b.join List.cons resendMs draws peer c

end Resend

section Sweep

/-- Where `pp` points: to `pending_head`, or to the `next` of a node. As nodes are put in at the
head only, how many come after it tells which node that is.

This is what lets the sweep be followed faithfully. An index from the front would be moved by each
node that the sweep itself puts in. -/
inductive Place where
  | head
  | next (behind : ℕ)

/-- The nodes from `*pp` on. -/
def Place.deref (pp : Place) (list : List (Waiting D)) : List (Waiting D) :=
  match pp with
  | head => list
  | next behind => list.drop (list.length - behind)

/-- The list after `*pp = rest`. -/
def Place.assign (pp : Place) (list rest : List (Waiting D)) : List (Waiting D) :=
  match pp with
  | head => rest
  | next behind => list.take (list.length - behind) ++ rest

/-- `pp` itself, after `*pp = rest`. -/
def Place.assigned (pp : Place) (rest : List (Waiting D)) : Place :=
  match pp with
  | head => head
  | next _ => next rest.length

/-- The first loop of `broker_sweep`. -/
def sweepLoop (resendMs now : ℤ) :
    ℕ → (ℕ → Draw) → Place → ArrayBroker C D → Option (ArrayBroker C D)
  | 0, _, _, _ => none
  | rounds + 1, draws, pp, b =>
    match pp.deref b.pending with
    | [] => some b
    | p :: next =>
      if p.deadline ≤ now then
        -- `*pp = p->next`
        let b₁ := { b with pending := pp.assign b.pending next }
        sweepLoop resendMs now rounds (fun k => draws (k + 1)) (pp.assigned next)
          (b₁.resend List.cons resendMs (draws 0) p)
      else sweepLoop resendMs now rounds draws (.next next.length) b

/-- The second loop of `broker_sweep`, which reads the clock for each node. -/
def soonestLoop : ℤ → (ℕ → ℤ) → List (Waiting D) → ℤ
  | soonest, _, [] => soonest
  | soonest, clock, p :: rest =>
    let d := if p.deadline - clock 0 < 0 then 0 else p.deadline - clock 0
    soonestLoop (if soonest < 0 ∨ d < soonest then d else soonest) (fun k => clock (k + 1)) rest

/-- `broker_sweep`. It reads the clock once at its start; `clock` are the readings at its end. -/
def brokerSweep (resendMs : ℤ) (rounds : ℕ) (now : ℤ) (draws : ℕ → Draw) (clock : ℕ → ℤ)
    (b : ArrayBroker C D) : Option (ArrayBroker C D × ℤ) :=
  (sweepLoop resendMs now rounds draws .head b).map fun b =>
    (b, soonestLoop (-1) clock b.pending)

end Sweep

/-- `broker_down`, but for `conn_free`. -/
def brokerDown [DecidableEq C] (b : ArrayBroker C D) (c : C) : ArrayBroker C D :=
  match b.conns.findIdx? fun e => e.conn = c with
  | some i => { b with conns := b.conns.swapRemove i }
  | none => b

/-- The first entry with the connection is taken out, if there is one. -/
theorem brokerDown_cases [DecidableEq C] (b : ArrayBroker C D) (c : C) :
    (∃ e, e.conn = c ∧ b.conns.Perm (e :: (brokerDown b c).conns) ∧
        brokerDown b c = { b with conns := (brokerDown b c).conns }) ∨
      (∀ e ∈ b.conns, e.conn ≠ c) ∧ brokerDown b c = b := by
  unfold brokerDown
  cases h : b.conns.findIdx? fun e => e.conn = c with
  | none => exact .inr ⟨by simpa using h, rfl⟩
  | some i =>
    obtain ⟨hlt, hconn, -⟩ := List.findIdx?_eq_some_iff_getElem.mp h
    exact .inl ⟨b.conns[i], of_decide_eq_true hconn, List.perm_swapRemove hlt, rfl⟩

def brokerReceived (b : ArrayBroker C D) (shutdown : Bool) (identity : Identity)
    (envelope : Envelope D) : ArrayBroker C D :=
  match envelope with
  | .data payload => { b with inbox := b.inbox ++ [(identity, payload)] }
  | .dataReq msgId payload =>
    brokerRoute { b with inbox := b.inbox ++ [(identity, payload)] } shutdown (some identity)
      (.ack msgId)
  | .ack msgId => { b with pending := b.pending.eraseP fun p => p.msgId = msgId }
  | .hello _ _ => b
  | .heartbeat => b

section Closed

variable {R : ArrayBroker C D → ArrayBroker C D → Prop} (hR : Closed R)
include hR

theorem closed_sweepLoop (resendMs now : ℤ) (rounds : ℕ) (draws : ℕ → Draw) (pp : Place)
    {b b' : ArrayBroker C D} (h : sweepLoop resendMs now rounds draws pp b = some b') : R b b' := by
  induction rounds generalizing draws pp b with
  | zero => cases h
  | succ rounds ih =>
    rw [sweepLoop] at h
    cases hderef : pp.deref b.pending with
    | nil =>
      rw [hderef] at h
      cases h
      exact hR.refl _
    | cons p next =>
      rw [hderef] at h
      dsimp only at h
      split at h
      · have htake : R b { b with pending := pp.assign b.pending next } := hR.same rfl rfl rfl rfl
        exact hR.trans (hR.trans htake (hR.resend List.cons resendMs _ (draws 0) p)) (ih _ _ h)
      · exact ih _ _ h

theorem closed_brokerSweep {resendMs : ℤ} {rounds : ℕ} {now : ℤ} {draws : ℕ → Draw}
    {clock : ℕ → ℤ} {b b' : ArrayBroker C D}
    (h : (brokerSweep resendMs rounds now draws clock b).map Prod.fst = some b') : R b b' := by
  obtain ⟨r, hsweep, rfl⟩ := Option.map_eq_some_iff.mp h
  obtain ⟨b₁, hloop, rfl⟩ := Option.map_eq_some_iff.mp hsweep
  exact closed_sweepLoop hR resendMs now rounds draws .head hloop

theorem closed_brokerReceived (b : ArrayBroker C D) (shutdown : Bool) (identity : Identity)
    (envelope : Envelope D) : R b (brokerReceived b shutdown identity envelope) := by
  cases envelope with
  | data payload => exact hR.same rfl rfl rfl rfl
  | dataReq msgId payload =>
    have hdeliver : R b { b with inbox := b.inbox ++ [(identity, payload)] } :=
      hR.same rfl rfl rfl rfl
    exact hR.trans hdeliver (hR.route _ shutdown (some identity) (.ack msgId))
  | ack msgId => exact hR.same rfl rfl rfl rfl
  | hello | heartbeat => exact hR.refl b

/-- A connection that is not turned away comes first, and then what was buffered. -/
theorem closed_brokerUp (resendMs : ℤ) {b : ArrayBroker C D} (draws : ℕ → Draw) {peer : Identity}
    {c : C} (h : (brokerFind b peer).isSome = false) :
    R (b.connect peer c) (brokerUp resendMs b draws peer c) := by
  rw [brokerUp, h]
  exact hR.sendAll List.cons resendMs _ draws _

end Closed

/-- What `broker_main` does next: a command, or a sweep. -/
inductive Input (C D : Type) where
  | send (draw : Draw) (identity : Option Identity) (data : D)
  | connUp (draws : ℕ → Draw) (peer : Identity) (c : C)
  | connDown (c : C)
  | received (shutdown : Bool) (identity : Identity) (envelope : Envelope D)
  | close
  | sweep (rounds : ℕ) (now : ℤ) (draws : ℕ → Draw) (clock : ℕ → ℤ)

/-- The broker thread, whatever comes in which order. -/
def broker (C D : Type) [DecidableEq C] (resendMs : ℤ) :
    Machine (ArrayBroker C D) (Input C D) where
  step
    | b, .send draw identity data => some (brokerSend resendMs b draw identity data)
    | b, .connUp draws peer c => some (brokerUp resendMs b draws peer c)
    | b, .connDown c => some (brokerDown b c)
    | b, .received shutdown identity envelope =>
      some (brokerReceived b shutdown identity envelope)
    | b, .close => some b
    | b, .sweep rounds now draws clock =>
      (brokerSweep resendMs rounds now draws clock b).map Prod.fst

end CLib

end Aiomsg
