import Aiomsg.Lib.CyclicIter
import Aiomsg.Python.Basic
import Mathlib.Data.Finset.Insert

/-!
# Round-robin over queues that may be full

`ConnectionsDict` and `_sender_robin` of `python-lib/aiomsg/__init__.py`. The dict makes a new
`itertools.cycle` over its keys whenever a key is set or deleted, so that the iterator never sees a
dict that has changed under it. `_sender_robin` has no bound on its loop: it ends when an identity
comes back whose queue it has found full. It is modelled with a bound on the number of its rounds,
and is `none` if they do not suffice.

Of a connection only the writer queue matters here.

## Scope

The writer queues are read and filled here and emptied by nobody. A call of `_sender_robin` runs
without an `await`, so no queue changes while it looks for one with room; between two calls anything
may have happened to them.

## Main definitions

* `ConnectionsDict` — the dict and its cycle, which is somewhere on its way round the keys
* `senderRobin` — `_sender_robin`

## Main results

* `sender_robin`
* `Shows.next`, `Shows.setitem`, `Shows.delitem` — the dict does what `Peers` does
-/

namespace Aiomsg

namespace Python

/-! ### The queue of a connection -/

/-- `asyncio.Queue`. -/
structure WriterQueue (D : Type) where
  maxsize : ℤ
  items : List D

namespace WriterQueue

variable {D : Type}

def full (q : WriterQueue D) : Bool :=
  if q.maxsize ≤ 0 then false else decide (q.maxsize ≤ q.items.length)

def put (q : WriterQueue D) (item : D) : WriterQueue D := { q with items := q.items ++ [item] }

/-- `none` is QueueFull. -/
def putNowait (q : WriterQueue D) (item : D) : Option (WriterQueue D) :=
  if q.full then none else some (q.put item)

end WriterQueue

/-! ### The dict -/

section Assign

variable {V : Type}

/-- `data[key] = value`, where a key that is there keeps its place. -/
def assign (data : List (Bytes × V)) (key : Bytes) (value : V) : List (Bytes × V) :=
  if key ∈ data.map Prod.fst then data.map fun e => if e.1 = key then (e.1, value) else e
  else data ++ [(key, value)]

theorem keys_assign (data : List (Bytes × V)) (key : Bytes) (value : V) :
    (assign data key value).map Prod.fst =
      if key ∈ data.map Prod.fst then data.map Prod.fst else data.map Prod.fst ++ [key] := by
  unfold assign
  split
  · rw [List.map_map]
    congr 1
    funext e
    by_cases h : e.1 = key <;> simp [h]
  · simp

theorem nodup_keys_assign {data : List (Bytes × V)} (h : (data.map Prod.fst).Nodup) (key : Bytes)
    (value : V) : ((assign data key value).map Prod.fst).Nodup := by
  rw [keys_assign]
  split
  · exact h
  · next hkey => exact h.append (List.nodup_singleton _) (List.disjoint_singleton.mpr hkey)

end Assign

/-- The items in the order in which they were set, and the cycle. -/
structure ConnectionsDict (V : Type) where
  data : List (Bytes × V)
  cycle : CyclicIter Bytes
  nodup_keys : (data.map Prod.fst).Nodup
  wf : cycle.Wf
  isRotated : cycle.upcoming.IsRotated (data.map Prod.fst)

namespace ConnectionsDict

variable {V : Type}

theorem isRotated_ofList (keys : List Bytes) :
    (CyclicIter.ofList keys).upcoming.IsRotated keys := by
  rw [CyclicIter.upcoming_ofList]

/-- `update_cycle`, of the dict with these items. -/
def updateCycle (data : List (Bytes × V)) (h : (data.map Prod.fst).Nodup) : ConnectionsDict V :=
  ⟨data, .ofList (data.map Prod.fst), h, CyclicIter.wf_ofList _, isRotated_ofList _⟩

def new : ConnectionsDict V := updateCycle [] List.nodup_nil

def setitem (d : ConnectionsDict V) (key : Bytes) (value : V) : ConnectionsDict V :=
  updateCycle (assign d.data key value) (nodup_keys_assign d.nodup_keys key value)

theorem nodup_keys_filter (d : ConnectionsDict V) (key : Bytes) :
    ((d.data.filter fun e => e.1 ≠ key).map Prod.fst).Nodup :=
  d.nodup_keys.sublist (List.filter_sublist.map _)

/-- `none` is KeyError. -/
def delitem (d : ConnectionsDict V) (key : Bytes) : Option (ConnectionsDict V) :=
  if key ∈ d.data.map Prod.fst then
    some (updateCycle (d.data.filter fun e => e.1 ≠ key) (d.nodup_keys_filter key))
  else none

/-- `none` is KeyError. -/
def get (d : ConnectionsDict V) (key : Bytes) : Option V := d.data.lookup key

theorem isRotated_next (d : ConnectionsDict V) :
    d.cycle.next.2.upcoming.IsRotated (d.data.map Prod.fst) := by
  rw [CyclicIter.upcoming_next d.wf]
  exact (List.IsRotated.forall d.cycle.upcoming 1).trans d.isRotated

/-- `__next__`, with `none` for NoConnectionsAvailableError. -/
def next (d : ConnectionsDict V) : Option Bytes × ConnectionsDict V :=
  (d.cycle.next.1, ⟨d.data, d.cycle.next.2, d.nodup_keys, d.wf.next, d.isRotated_next⟩)

theorem keys_change (data : List (Bytes × V)) (f : Bytes → V → V) :
    (data.map fun e => (e.1, f e.1 e.2)).map Prod.fst = data.map Prod.fst := by
  rw [List.map_map]
  rfl

/-- The values change by themselves, and the keys stay. -/
def change (d : ConnectionsDict V) (f : Bytes → V → V) : ConnectionsDict V :=
  ⟨d.data.map fun e => (e.1, f e.1 e.2), d.cycle, (keys_change d.data f).symm ▸ d.nodup_keys, d.wf,
    (keys_change d.data f).symm ▸ d.isRotated⟩

theorem mem_upcoming {d : ConnectionsDict V} {key : Bytes} :
    key ∈ d.cycle.upcoming ↔ key ∈ d.data.map Prod.fst :=
  d.isRotated.mem_iff

theorem nodup_upcoming (d : ConnectionsDict V) : d.cycle.upcoming.Nodup :=
  d.isRotated.nodup_iff.mpr d.nodup_keys

theorem length_upcoming (d : ConnectionsDict V) : d.cycle.upcoming.length = d.data.length := by
  rw [d.isRotated.perm.length_eq, List.length_map]

/-- The cycle gives each key once in as many steps as there are keys. -/
theorem take_cycle (d : ConnectionsDict V) : d.cycle.take d.data.length = d.cycle.upcoming := by
  rw [← d.length_upcoming]
  exact CyclicIter.take_of_upcoming d.wf (List.append_nil _).symm

/-- What the cycle gives is a key of the dict. -/
theorem mem_keys_of_next {d : ConnectionsDict V} {key : Bytes} (h : d.next.1 = some key) :
    key ∈ d.data.map Prod.fst := by
  have hhead : d.cycle.upcoming.head? = some key := (CyclicIter.next_fst d.wf).symm.trans h
  exact mem_upcoming.mp (List.mem_of_mem_head? hhead)

theorem next_of_upcoming {d : ConnectionsDict V} {key : Bytes} {rest : List Bytes}
    (hup : d.cycle.upcoming = key :: rest) :
    ∃ d', d.next = (some key, d') ∧ d'.data = d.data ∧ d'.cycle.upcoming = rest ++ [key] := by
  obtain ⟨c', hnext, -, hup'⟩ := CyclicIter.next_of_upcoming d.wf hup
  have hkey : d.next.1 = some key := congrArg Prod.fst hnext
  have hcycle : d.next.2.cycle = c' := congrArg Prod.snd hnext
  exact ⟨d.next.2, Prod.ext hkey rfl, rfl, hcycle ▸ hup'⟩

theorem get_eq_some_iff {d : ConnectionsDict V} {key : Bytes} {value : V} :
    d.get key = some value ↔ (key, value) ∈ d.data := by
  constructor
  · intro h
    obtain ⟨l, l', hdata, -⟩ := List.lookup_eq_some_iff.mp h
    rw [hdata]
    exact List.mem_append_right _ List.mem_cons_self
  · intro h
    cases hget : d.get key with
    | none =>
      have hnone := List.lookup_eq_none_iff.mp hget (key, value) h
      simp at hnone
    | some value' =>
      obtain ⟨l, l', hdata, -⟩ := List.lookup_eq_some_iff.mp hget
      have hmem : (key, value') ∈ d.data := by
        rw [hdata]
        exact List.mem_append_right _ List.mem_cons_self
      rw [← (Prod.mk.inj (List.inj_on_of_nodup_map d.nodup_keys hmem h rfl)).2]

theorem exists_get {d : ConnectionsDict V} {key : Bytes} (h : key ∈ d.data.map Prod.fst) :
    ∃ value, d.get key = some value := by
  obtain ⟨⟨key', value⟩, he, rfl⟩ := List.mem_map.mp h
  exact ⟨value, get_eq_some_iff.mpr he⟩

/-- What happens to the dict, one after the other. A key that is deleted and not there is a
KeyError, which leaves everything as it is. -/
inductive Op (V : Type) where
  | setitem (key : Bytes) (value : V)
  | delitem (key : Bytes)
  | next
  | change (f : Bytes → V → V)

def apply (d : ConnectionsDict V) : Op V → ConnectionsDict V
  | .setitem key value => d.setitem key value
  | .delitem key => (d.delitem key).getD d
  | .next => d.next.2
  | .change f => d.change f

def run (ops : List (Op V)) : ConnectionsDict V := ops.foldl apply new

end ConnectionsDict

/-! ### `_sender_robin` -/

inductive Outcome where
  | sent (identity : Bytes)
  | dropped
  /-- NoConnectionsAvailableError is raised. -/
  | noConnections
  /-- KeyError is raised. -/
  | keyError
deriving DecidableEq

section Robin

variable {D : Type}

/-- `_sender_robin`, from the head of its loop. -/
def senderRobin (message : D) : ℕ → Finset Bytes → ConnectionsDict (WriterQueue D) →
    Option (Outcome × ConnectionsDict (WriterQueue D))
  | 0, _, _ => none
  | rounds + 1, queuesFull, d =>
    match d.next with
    | (none, d') => some (.noConnections, d')
    | (some identity, d') =>
      if identity ∈ queuesFull then some (.dropped, d')
      else
        match d'.get identity with
        | none => some (.keyError, d')
        | some q =>
          match q.putNowait message with
          | some q' =>
            some (.sent identity, d'.change fun key old => if key = identity then q' else old)
          -- QueueFull. Trying a different peer.
          | none => senderRobin message rounds (insert identity queuesFull) d'

/-- The identity is connected and its queue is not full. -/
def ConnectionsDict.hasRoom (d : ConnectionsDict (WriterQueue D)) (identity : Bytes) : Bool :=
  (d.get identity).any fun q => !q.full

/-- What becomes of a message if `first` is the first identity whose queue has room: the outcome,
and the items afterwards. -/
def Served (data : List (Bytes × WriterQueue D)) (message : D) (first : Option Bytes)
    (outcome : Outcome) (data' : List (Bytes × WriterQueue D)) : Prop :=
  match first with
  | some identity => outcome = .sent identity ∧ ∃ l q l', data = l ++ (identity, q) :: l' ∧
      q.full = false ∧ data' = l ++ (identity, q.put message) :: l'
  | none => outcome = (if data = [] then .noConnections else .dropped) ∧ data' = data

variable {d : ConnectionsDict (WriterQueue D)}

/-- Setting what is not there changes nothing. -/
theorem map_eq_self {identity : Bytes} {q' : WriterQueue D} {data : List (Bytes × WriterQueue D)}
    (h : ∀ e ∈ data, e.1 ≠ identity) :
    (data.map fun e => (e.1, if e.1 = identity then q' else e.2)) = data := by
  have hsame : ∀ e ∈ data, (e.1, if e.1 = identity then q' else e.2) = id e := by
    intro e he
    rw [if_neg (h e he)]
    rfl
  rw [List.map_congr_left hsame, List.map_id]

/-- A message is put on one queue. -/
theorem data_put {identity : Bytes} {q : WriterQueue D} (h : d.get identity = some q)
    (q' : WriterQueue D) :
    ∃ l l', d.data = l ++ (identity, q) :: l' ∧
      (d.change fun key old => if key = identity then q' else old).data =
        l ++ (identity, q') :: l' := by
  obtain ⟨l, l', hdata, hl⟩ := List.lookup_eq_some_iff.mp h
  have hbefore : ∀ e ∈ l, e.1 ≠ identity := by
    intro e he
    have hne : identity ≠ e.1 := by simpa using hl e he
    exact hne.symm
  have hafter : ∀ e ∈ l', e.1 ≠ identity := by
    have hkeys := d.nodup_keys
    rw [hdata, List.map_append, List.map_cons] at hkeys
    intro e he heq
    have hmem : identity ∈ l'.map Prod.fst := List.mem_map.mpr ⟨e, he, heq⟩
    exact (List.nodup_cons.mp (List.nodup_append.mp hkeys).2.1).1 hmem
  refine ⟨l, l', hdata, ?_⟩
  show (d.data.map fun e => (e.1, if e.1 = identity then q' else e.2)) = _
  rw [hdata, List.map_append, List.map_cons, map_eq_self hbefore, map_eq_self hafter, if_pos rfl]

/-- The loop, when the identities in `tried` have been found full and those in `todo` come next. It
ends when the first of `tried` comes back. -/
theorem senderRobin_of_upcoming (message : D) {todo tried : List Bytes} {rounds : ℕ}
    (hup : d.cycle.upcoming = todo ++ tried) (hrounds : todo.length < rounds) :
    ∃ outcome d', senderRobin message rounds tried.toFinset d = some (outcome, d') ∧
      Served d.data message (todo.find? d.hasRoom) outcome d'.data := by
  induction todo generalizing tried d rounds with
  | nil =>
    obtain ⟨rounds, rfl⟩ := Nat.exists_eq_succ_of_ne_zero hrounds.ne'
    rw [senderRobin]
    cases tried with
    | nil =>
      have hnone : d.next = (none, d.next.2) :=
        Prod.ext ((CyclicIter.next_fst d.wf).trans (by rw [hup]; rfl)) rfl
      have hdata : d.data = [] := by
        rw [← List.length_eq_zero_iff, ← d.length_upcoming, hup]
        rfl
      rw [hnone]
      exact ⟨_, _, rfl, (if_pos hdata).symm, rfl⟩
    | cons identity rest =>
      obtain ⟨d', hnext, hdata, -⟩ := ConnectionsDict.next_of_upcoming hup
      have hne : d.data ≠ [] := by
        rw [← List.length_pos_iff, ← d.length_upcoming, hup]
        exact Nat.succ_pos _
      have hmem : identity ∈ (identity :: rest).toFinset := by simp
      rw [hnext]
      exact ⟨.dropped, d', if_pos hmem, (if_neg hne).symm, hdata⟩
  | cons identity todo ih =>
    obtain ⟨rounds, rfl⟩ := Nat.exists_eq_succ_of_ne_zero (Nat.ne_zero_of_lt hrounds)
    obtain ⟨d', hnext, hdata, hup'⟩ := ConnectionsDict.next_of_upcoming hup
    have hnodup := d.nodup_upcoming
    rw [hup] at hnodup
    have hnotMem : identity ∉ tried.toFinset := by
      rw [List.mem_toFinset]
      exact fun hmem => (List.nodup_cons.mp hnodup).1 (List.mem_append_right _ hmem)
    have hkey : identity ∈ d'.data.map Prod.fst := by
      rw [hdata]
      exact ConnectionsDict.mem_upcoming.mp (by rw [hup]; exact List.mem_cons_self)
    obtain ⟨q, hget⟩ := ConnectionsDict.exists_get hkey
    have hroom : d.hasRoom = d'.hasRoom := by
      funext key
      rw [ConnectionsDict.hasRoom, ConnectionsDict.hasRoom, ConnectionsDict.get,
        ConnectionsDict.get, hdata]
    rw [senderRobin, hnext, ← hdata, hroom]
    simp only [if_neg hnotMem, hget]
    cases hfull : q.full with
    | false =>
      have hfirst : d'.hasRoom identity = true := by simp [ConnectionsDict.hasRoom, hget, hfull]
      have hput : q.putNowait message = some (q.put message) := by
        simp [WriterQueue.putNowait, hfull]
      obtain ⟨l, l', hsplit, hdata'⟩ := data_put hget (q.put message)
      rw [hput, List.find?_cons_of_pos hfirst]
      exact ⟨_, _, rfl, rfl, l, q, l', hsplit, hfull, hdata'⟩
    | true =>
      have hnext : ¬ d'.hasRoom identity = true := by simp [ConnectionsDict.hasRoom, hget, hfull]
      have hput : q.putNowait message = none := by simp [WriterQueue.putNowait, hfull]
      have htried : insert identity tried.toFinset = (tried ++ [identity]).toFinset := by
        ext key
        rw [Finset.mem_insert, List.mem_toFinset, List.mem_toFinset, List.mem_append,
          List.mem_singleton, or_comm]
      rw [hput, List.find?_cons_of_neg hnext, htried]
      exact ih (hup'.trans (List.append_assoc todo tried [identity]))
        (Nat.lt_of_succ_lt_succ hrounds)

/-- A message finds no room exactly if all queues are full. -/
theorem find?_hasRoom_eq_none (d : ConnectionsDict (WriterQueue D)) :
    d.cycle.upcoming.find? d.hasRoom = none ↔ ∀ e ∈ d.data, e.2.full = true := by
  rw [List.find?_eq_none]
  constructor
  · rintro h ⟨identity, q⟩ he
    have hkey : identity ∈ d.cycle.upcoming :=
      ConnectionsDict.mem_upcoming.mpr (List.mem_map.mpr ⟨_, he, rfl⟩)
    have hnot := h identity hkey
    simpa [ConnectionsDict.hasRoom, ConnectionsDict.get_eq_some_iff.mpr he] using hnot
  · intro h identity hkey
    obtain ⟨⟨_, q⟩, he, rfl⟩ := List.mem_map.mp (ConnectionsDict.mem_upcoming.mp hkey)
    simp [ConnectionsDict.hasRoom, ConnectionsDict.get_eq_some_iff.mpr he, h _ he]

end Robin

/-- **Round-robin with full queues.** Wherever the cycle stands, as many rounds as there are
connections and one more are enough for `_sender_robin`. With no connection it raises
NoConnectionsAvailableError. Otherwise it puts the message on the first queue with room, in the
order in which the cycle goes on, and on no other; or drops it and changes nothing, if all are full.
And whatever has been set, deleted and taken before, the cycle gives a key of the dict. -/
theorem sender_robin (D V : Type) :
    (∀ (d : ConnectionsDict (WriterQueue D)) (message : D) (rounds : ℕ), d.data.length < rounds →
      ∃ outcome d', senderRobin message rounds ∅ d = some (outcome, d') ∧
        (outcome = .noConnections ↔ d.data = []) ∧
        (outcome = .dropped ↔ d.data ≠ [] ∧ ∀ e ∈ d.data, e.2.full = true) ∧
        (∀ identity, outcome = .sent identity ↔
          (d.cycle.take d.data.length).find? d.hasRoom = some identity) ∧
        (∀ identity, outcome = .sent identity → ∃ l q l', d.data = l ++ (identity, q) :: l' ∧
          q.full = false ∧ d'.data = l ++ (identity, q.put message) :: l') ∧
        ((∀ identity, outcome ≠ .sent identity) → d'.data = d.data)) ∧
    ∀ (ops : List (ConnectionsDict.Op V)) (identity : Bytes),
      (ConnectionsDict.run ops).next.1 = some identity →
        identity ∈ (ConnectionsDict.run ops).data.map Prod.fst := by
  refine ⟨fun d message rounds hrounds => ?_, fun ops identity h =>
    ConnectionsDict.mem_keys_of_next h⟩
  have hlength : d.cycle.upcoming.length < rounds := d.length_upcoming ▸ hrounds
  obtain ⟨outcome, d', hrun, hserved⟩ :=
    senderRobin_of_upcoming message (List.append_nil _).symm hlength
  refine ⟨outcome, d', hrun, ?_⟩
  rw [d.take_cycle, ← find?_hasRoom_eq_none]
  cases hfirst : d.cycle.upcoming.find? d.hasRoom with
  | some identity =>
    rw [hfirst] at hserved
    obtain ⟨rfl, hput⟩ := hserved
    have hne : d.data ≠ [] := by
      obtain ⟨l, q, l', hdata, -⟩ := hput
      simp [hdata]
    refine ⟨by simp [hne], by simp, fun identity' => ?_, fun identity' h => ?_, fun h => ?_⟩
    · rw [Outcome.sent.injEq, Option.some.injEq]
    · obtain rfl := Outcome.sent.inj h
      exact hput
    · exact absurd rfl (h identity)
  | none =>
    rw [hfirst] at hserved
    obtain ⟨houtcome, hdata⟩ := hserved
    by_cases hnil : d.data = []
    · rw [if_pos hnil] at houtcome
      subst houtcome
      simp [hnil, hdata]
    · rw [if_neg hnil] at houtcome
      subst houtcome
      simp [hnil, hdata]

/-- Three connections, of which the third is next. Its queue is full, and so is the first one's. -/
def twoFull : ConnectionsDict (WriterQueue ℕ) :=
  ConnectionsDict.run [.setitem [1] ⟨1, [10]⟩, .setitem [2] ⟨2, [20]⟩, .setitem [3] ⟨1, [30]⟩,
    .next, .next]

theorem twoFull_sent : (∃ d', senderRobin 40 4 ∅ twoFull = some (.sent [2], d')) ∧
    [3] ∈ twoFull.data.map Prod.fst := by
  obtain ⟨hsend, hkeys⟩ := sender_robin ℕ (WriterQueue ℕ)
  obtain ⟨outcome, d', hrun, -, -, hsent, -⟩ := hsend twoFull 40 4 (by decide)
  obtain rfl : outcome = .sent [2] := (hsent [2]).mpr (by decide)
  exact ⟨⟨d', hrun⟩, hkeys _ [3] (by decide)⟩

/-! ### The table of connections in the model of the sockets -/

/-- The dict of the source and the table of the model have the same keys in the same order, and
their cycles stand at the same place. -/
structure Shows {V : Type} (d : ConnectionsDict V) (p : Peers) : Prop where
  keys : d.data.map Prod.fst = p.connections.map Prod.fst
  robin : d.cycle.upcoming = p.robin

section Shows

variable {V : Type} {d : ConnectionsDict V} {p : Peers}

theorem map_fst_filter {W : Type} (data : List (Bytes × W)) (identity : Bytes) :
    (data.filter fun e => e.1 ≠ identity).map Prod.fst =
      (data.map Prod.fst).filter fun key => key ≠ identity := by
  rw [List.filter_map]
  rfl

theorem Shows.next (h : Shows d p) :
    d.next.1 = p.next.map Prod.fst ∧ ∀ x ∈ p.next, Shows d.next.2 x.2 := by
  have hfst : d.next.1 = p.robin.head? := (CyclicIter.next_fst d.wf).trans (congrArg _ h.robin)
  have hup : d.next.2.cycle.upcoming = p.robin.rotate 1 :=
    (CyclicIter.upcoming_next d.wf).trans (congrArg (List.rotate · 1) h.robin)
  unfold Peers.next
  split
  · next hnil =>
    rw [hnil] at hfst
    exact ⟨hfst, by rintro _ ⟨⟩⟩
  · next identity rest hrobin =>
    rw [hrobin] at hfst hup
    refine ⟨hfst, ?_⟩
    rintro _ ⟨⟩
    exact ⟨h.keys, hup.trans (by simp)⟩

theorem Shows.setitem (h : Shows d p) {identity : Bytes} (hnew : ¬ p.Has identity) (value : V) :
    Shows (d.setitem identity value) (p.insert identity hnew) := by
  have hkeys : (d.setitem identity value).data.map Prod.fst =
      (p.insert identity hnew).connections.map Prod.fst := by
    have hnot : identity ∉ d.data.map Prod.fst := by
      rw [h.keys]
      exact hnew
    show (assign d.data identity value).map Prod.fst = _
    rw [keys_assign, if_neg hnot, h.keys]
    simp
  exact ⟨hkeys, (CyclicIter.upcoming_ofList _).trans hkeys⟩

theorem Shows.delitem (h : Shows d p) {identity : Bytes} {d' : ConnectionsDict V}
    (hdel : d.delitem identity = some d') : Shows d' (p.remove identity) := by
  obtain ⟨-, ⟨⟩⟩ := Option.ite_none_right_eq_some.mp hdel
  have hkeys : (d.data.filter fun e => e.1 ≠ identity).map Prod.fst =
      (p.connections.filter fun e => e.1 ≠ identity).map Prod.fst := by
    rw [map_fst_filter, map_fst_filter, h.keys]
  exact ⟨hkeys, (CyclicIter.upcoming_ofList _).trans hkeys⟩

end Shows

end Python

end Aiomsg
