import Aiomsg.Broker.Basic
import Mathlib.Data.List.Nodup

/-!
# The Python sockets

What the two Python packages share: `python-lib/aiomsg/__init__.py`, on an event loop, and
`python-lib-blocking/aiomsg_blocking/__init__.py`, on threads. Both keep one table of connections
with a round-robin cycle over it, one queue that `send` puts on and the sender takes from, and one
table of resend timers. They differ in what runs concurrently with what, which is the subject of the
modules about each.

Identities and message ids are Python `bytes` of any length. `envelope.decode` slices them out of
what it is given without checking that there are sixteen bytes, and the application may give `send`
any identity.

## Numbers and the log

Connections, messages of the application and DATA_REQs received are numbered in the order in which
they come, and a log records what is put on which queue. Both are there for the statements only:
the code has no numbers and no log, and no branch of the model reads either. A connection object is
compared by the source only by being held, so its number stands for it.

## Scope

Dicts keep the order of insertion, as Python's do, and the cycle over one is kept by hand. An
application that sends to an identity of its own making sends to nobody, unless a peer has it.
Logging is left out, as it changes nothing that is read here.

## Main definitions

* `Peers` — the table of connections and its cycle
* `Resends` — `waiting_for_acks` and the timers in it
* `Item`, `Event` — what goes through the send queue, and what the log records
-/

namespace Aiomsg

namespace Python

/-! ### The table of connections -/

/-- The connections by identity in the order of their registration, the cycle over the identities
with its next element first, and the number of connections registered so far.

The fields behind these say that it is a table: no identity twice, no number twice, and a cycle over
just the identities. Each operation has to show that it keeps them, so no state of a socket needs to
be checked for it. -/
structure Peers where
  connections : List (Bytes × ℕ)
  robin : List Bytes
  made : ℕ
  nodup_identities : (connections.map Prod.fst).Nodup
  nodup_numbers : (connections.map Prod.snd).Nodup
  numbers_lt : ∀ e ∈ connections, e.2 < made
  robin_perm : robin.Perm (connections.map Prod.fst)

namespace Peers

def new : Peers where
  connections := []
  robin := []
  made := 0
  nodup_identities := List.nodup_nil
  nodup_numbers := List.nodup_nil
  numbers_lt _ h := absurd h List.not_mem_nil
  robin_perm := .refl _

/-- Whether an identity is in the table. -/
def Has (p : Peers) (identity : Bytes) : Prop := identity ∈ p.connections.map Prod.fst

instance (p : Peers) (identity : Bytes) : Decidable (p.Has identity) :=
  inferInstanceAs (Decidable (_ ∈ _))

/-- The connection with an identity. -/
def get (p : Peers) (identity : Bytes) : Option ℕ := p.connections.lookup identity

/-- The identity of a connection. -/
def identity (p : Peers) (c : ℕ) : Option Bytes :=
  (p.connections.find? fun e => e.2 = c).map Prod.fst

theorem mem_of_get {p : Peers} {identity : Bytes} {c : ℕ} (h : p.get identity = some c) :
    (identity, c) ∈ p.connections := by
  obtain ⟨l₁, l₂, heq, -⟩ := List.lookup_eq_some_iff.mp h
  rw [heq]
  exact List.mem_append_right _ List.mem_cons_self

theorem mem_of_identity {p : Peers} {identity : Bytes} {c : ℕ} (h : p.identity c = some identity) :
    (identity, c) ∈ p.connections := by
  obtain ⟨e, hfind, rfl⟩ := Option.map_eq_some_iff.mp h
  have hc : e.2 = c := by simpa using List.find?_some hfind
  exact hc ▸ List.mem_of_find?_eq_some hfind

/-- There is one connection for an identity. -/
theorem eq_of_mem {p : Peers} {identity : Bytes} {c c' : ℕ} (h : (identity, c) ∈ p.connections)
    (h' : (identity, c') ∈ p.connections) : c = c' := by
  have heq := List.inj_on_of_nodup_map p.nodup_identities h h' rfl
  exact congrArg Prod.snd heq

/-- `self._connections[identity] = connection`, and a new cycle. -/
def insert (p : Peers) (identity : Bytes) (h : ¬ p.Has identity) : Peers where
  connections := p.connections ++ [(identity, p.made)]
  robin := (p.connections ++ [(identity, p.made)]).map Prod.fst
  made := p.made + 1
  nodup_identities := by
    rw [List.map_append]
    exact List.Nodup.append p.nodup_identities (List.nodup_singleton _)
      (List.disjoint_singleton.mpr h)
  nodup_numbers := by
    rw [List.map_append]
    refine List.Nodup.append p.nodup_numbers (List.nodup_singleton _)
      (List.disjoint_singleton.mpr fun hmem => ?_)
    obtain ⟨e, he, heq⟩ := List.mem_map.mp hmem
    exact absurd heq (p.numbers_lt e he).ne
  numbers_lt e he := by
    rcases List.mem_append.mp he with he | he
    · exact (p.numbers_lt e he).trans (Nat.lt_succ_self _)
    · rw [List.mem_singleton.mp he]
      exact Nat.lt_succ_self _
  robin_perm := .refl _

/-- `self._connections.pop(identity, None)`, and a new cycle. -/
def remove (p : Peers) (identity : Bytes) : Peers where
  connections := p.connections.filter fun e => e.1 ≠ identity
  robin := (p.connections.filter fun e => e.1 ≠ identity).map Prod.fst
  made := p.made
  nodup_identities := p.nodup_identities.sublist (List.filter_sublist.map _)
  nodup_numbers := p.nodup_numbers.sublist (List.filter_sublist.map _)
  numbers_lt e he := p.numbers_lt e (List.mem_of_mem_filter he)
  robin_perm := .refl _

/-- `next(self._robin)`: the next identity of the cycle, `none` for `StopIteration`. -/
def next (p : Peers) : Option (Bytes × Peers) :=
  match h : p.robin with
  | [] => none
  | identity :: rest =>
    some (identity, { p with
      robin := rest ++ [identity]
      robin_perm := ((List.perm_append_singleton identity rest).trans (.of_eq h.symm)).trans
        p.robin_perm })

@[simp] theorem connections_insert (p : Peers) (identity : Bytes) (h : ¬ p.Has identity) :
    (p.insert identity h).connections = p.connections ++ [(identity, p.made)] := rfl

@[simp] theorem connections_remove (p : Peers) (identity : Bytes) :
    (p.remove identity).connections = p.connections.filter fun e => e.1 ≠ identity := rfl

/-- Taking from the cycle leaves the table alone. -/
theorem connections_next {p p' : Peers} {identity : Bytes} (h : p.next = some (identity, p')) :
    p'.connections = p.connections := by
  unfold next at h
  split at h
  · exact absurd h (by simp)
  · obtain ⟨-, rfl⟩ := Prod.mk.inj (Option.some.inj h)
    rfl

/-- The cycle ends only where the table is empty. -/
theorem connections_of_next_eq_none {p : Peers} (h : p.next = none) : p.connections = [] := by
  unfold next at h
  split at h
  · rename_i hrobin
    have hperm := p.robin_perm
    rw [hrobin] at hperm
    simpa using hperm.symm.eq_nil
  · exact absurd h (by simp)

end Peers

/-! ### Items, resends and the log -/

/-- What an item of the send queue is there for: the message of the application with a number, or
the DATA_REQ with a number that arrived on connection `c`. -/
inductive Origin where
  | message (n : ℕ)
  | request (r c : ℕ)
deriving DecidableEq

/-- An envelope, with the fields `envelope.decode` gives it. -/
inductive Wire (D : Type) where
  | hello (version : UInt8) (identity : Bytes)
  | heartbeat
  | data (payload : D)
  | dataReq (msgId : Bytes) (payload : D)
  | ack (msgId : Bytes)
deriving DecidableEq

/-- An item of the send queue: a pair of an identity or `None` and an encoded envelope. -/
structure Item (D : Type) where
  identity : Option Bytes
  wire : Wire D
  origin : Origin
deriving DecidableEq

/-- What the log records. -/
inductive Event (D : Type) where
  /-- `send` or `notify_ack` put an item on the send queue. -/
  | queued (item : Item D)
  /-- The DATA_REQ number `r` reached `raw_recv` on connection `c`. -/
  | arrived (r c : ℕ) (msgId : Bytes) (payload : D)
  /-- The payload of the DATA_REQ number `r` was put on the receive queue. -/
  | delivered (r : ℕ) (identity : Bytes) (payload : D)
  /-- An item was put on the writer queue of connection `c`. -/
  | written (c : ℕ) (item : Item D)
deriving DecidableEq

/-- A resend timer: its handle, the message it is for, and the arguments its `resend` closes over
or is called with. -/
structure Timer (D : Type) where
  handle : ℕ
  n : ℕ
  msgId : Bytes
  identity : Option Bytes
  data : D
  retries : ℤ

/-- The dictionary `waiting_for_acks`, the timers that are running, and the next handle. -/
structure Resends (D : Type) where
  waitingForAcks : List (Bytes × ℕ)
  timers : List (Timer D)
  handles : ℕ

namespace Resends

variable {D : Type}

def new : Resends D := ⟨[], [], 0⟩

/-- `waiting_for_acks.pop(msg_id, None)`, or a `del` of the entry. -/
def forget (r : Resends D) (msgId : Bytes) : Resends D :=
  { r with waitingForAcks := r.waitingForAcks.filter fun e => e.1 ≠ msgId }

/-- Start a timer and enter it under its `msg_id`. -/
def arm (r : Resends D) (n : ℕ) (msgId : Bytes) (identity : Option Bytes) (data : D)
    (retries : ℤ) : Resends D where
  waitingForAcks := (r.forget msgId).waitingForAcks ++ [(msgId, r.handles)]
  timers := r.timers ++ [⟨r.handles, n, msgId, identity, data, retries⟩]
  handles := r.handles + 1

/-- An ACK: take the entry out and cancel its timer. -/
def acknowledge (r : Resends D) (msgId : Bytes) : Resends D :=
  match r.waitingForAcks.lookup msgId with
  | none => r
  | some handle =>
    { r.forget msgId with timers := r.timers.filter fun t => t.handle ≠ handle }

/-- The timer with a handle goes off: it is taken from the running ones. -/
def expire (r : Resends D) (handle : ℕ) : Option (Timer D × Resends D) :=
  (r.timers.find? fun t => t.handle = handle).map fun t =>
    (t, { r with timers := r.timers.filter fun t => t.handle ≠ handle })

/-- Cancel every timer that has an entry. -/
def cancelAll (r : Resends D) : Resends D :=
  { r with timers := r.timers.filter fun t => t.handle ∉ r.waitingForAcks.map Prod.snd }

end Resends

/-- The argument `send` gives to the timer: `5 if retries is None else retries - 1`. -/
def timerRetries : Option ℤ → ℤ
  | none => 5
  | some k => k - 1

/-- Whether `send` asks for an acknowledgement. `identity` is tested for truth, which `None` and the
empty byte string do not have. -/
def asksForAck (sendMode : SendMode) (delivery : DeliveryGuarantee) (identity : Option Bytes) :
    Bool :=
  (identity.any (· ≠ []) || sendMode = .roundRobin) && delivery = .atLeastOnce

/-- The envelope `send` makes. -/
def wireOf {D : Type} (ack : Bool) (msgId : Bytes) (data : D) : Wire D :=
  if ack then .dataReq msgId data else .data data

/-- A message is no ACK. -/
theorem wireOf_ne_ack {D : Type} (ack : Bool) (msgId msgId' : Bytes) (data : D) :
    wireOf ack msgId data ≠ .ack msgId' := by
  unfold wireOf
  split_ifs <;> simp

/-- The number of an item that `send` queued without an identity. -/
def Item.undirected? {D : Type} (item : Item D) : Option ℕ :=
  match item.identity, item.origin with
  | none, .message n => some n
  | _, _ => none

/-- The number and the connection of a put of an undirected message. -/
def Event.undirectedPut? {D : Type} : Event D → Option (ℕ × ℕ)
  | .written c item => item.undirected?.map (·, c)
  | _ => none

/-- The undirected messages put on writer queues, in the order of the puts. -/
def undirectedPuts {D : Type} (log : List (Event D)) : List (ℕ × ℕ) :=
  log.filterMap Event.undirectedPut?

/-- The undirected messages are put on writer queues in the order of the calls of `send`, and none
twice on one queue. -/
def InSendOrder {D : Type} (log : List (Event D)) : Prop :=
  ((undirectedPuts log).map Prod.fst).Pairwise (· ≤ ·) ∧ (undirectedPuts log).Nodup

instance {D : Type} (log : List (Event D)) : Decidable (InSendOrder log) :=
  inferInstanceAs (Decidable (_ ∧ _))

/-- The identity of a peer or the id of a message, for runs on fixed inputs. -/
def sixteen (b : UInt8) : Bytes := List.replicate 16 b

end Python

end Aiomsg
