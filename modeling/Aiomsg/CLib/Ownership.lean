import Aiomsg.CLib.Broker
import Mathlib.Logic.Function.Basic

/-!
# Who frees a connection

`conn_session` and `broker_main` of `c-lib/src/aiomsg.c`, as far as they have to do with the storage
of a `conn`. Any number of sessions run, each with the one `conn` that it has allocated, which is
named after it. A session that fails before it registers frees its `conn`. Otherwise it hands it
over with CMD_CONN_UP, keeps on using it, and gives it up with CMD_CONN_DOWN; the broker frees it
when it gets there, whether it accepted the connection or turned it away.

The threads share the queue of commands, which is first in, first out, the flag `shutdown`, and the
fields of each `conn`. The broker takes all commands that are queued at a time. What it does with
one of them is cut into its accesses to `conn`s, between which the other threads run. What it reads
of `shutdown` while it routes is left open, and so is whether the allocation of a command succeeds.
At the end, when it has been told to close and nobody is registered, it leaves its loop and drops
what is still queued.

An access to a `conn` that has been freed is not ruled out by the model. It is written down in
`faults`.

## Scope

What is owned is the storage of a `conn` with its queue. The memory of commands and frames changes
hands in the same queues but has one owner at any moment by construction, and is not followed. Reads
and writes of a `conn`'s fields by two threads at once are guarded by its mutex in the source; a
step here is one access, so that a race within one field is not something this model can show.

Freeing twice is recorded as well: `freed` is a list and not a set.

## Main definitions

* `Ownership.Phase` — where a session is
* `Ownership.World`, `Ownership.step` — all threads
* `Ownership.Stage` — how far a `conn` has come on its way through the queue

## Main results

* `Ownership.conn_ownership`
-/

namespace Aiomsg

namespace CLib

namespace Ownership

open ArrayBroker

/-- Where `conn_session` is. -/
inductive Phase where
  | absent
  | handshaking
  /-- At `fail`. -/
  | failing
  /-- Registered, waiting for the answer. -/
  | waiting
  | steady
  /-- At `teardown`. -/
  | closing
  /-- CMD_CONN_DOWN is queued. -/
  | done
  /-- There was no storage for CMD_CONN_DOWN. -/
  | leaked
  /-- The session has freed its `conn`. -/
  | failed
deriving DecidableEq

/-- The session may read and write its `conn`. -/
def Phase.Uses : Phase → Prop
  | handshaking | failing | waiting | steady | closing => True
  | absent | done | leaked | failed => False

instance : DecidablePred Phase.Uses := fun p => by
  cases p <;> first | exact .isTrue trivial | exact .isFalse id

/-- `cmd`. -/
inductive Cmd (S D : Type) where
  | send (identity : Option Identity) (data : D)
  | connUp (c : S)
  | connDown (c : S)
  | received (identity : Identity) (envelope : Envelope D)
  | close

/-- An access of the broker to a `conn`. Handling one command is a list of these, and other threads
run between any two of them; a free that comes too early is therefore seen by whoever comes next. -/
inductive Touch (S : Type) where
  | read (c : S)
  | answer (c : S) (ok : Bool)
  /-- `out_push`. -/
  | push (c : S)
  /-- `conn_free`. -/
  | free (c : S)
deriving DecidableEq

def Touch.conn {S : Type} : Touch S → S
  | read c | answer c _ | push c | free c => c

/-- All threads. `phase` and `answer` are the sessions' side, `batch`, `work` and `broker` the
broker's, and `cmds` is between them. `faults` and `freed` are for the statements: no step is
prevented by what is in them. -/
structure World (S D : Type) where
  phase : S → Phase
  /-- `acc_done` and `acc_ok` of a `conn`. -/
  answer : S → Option Bool
  /-- The `conn`s that have been freed, as often as they have been. -/
  freed : List S
  /-- The `conn`s that were accessed when they had been freed. -/
  faults : List S
  cmds : List (Cmd S D)
  /-- What the broker has taken off the queue. -/
  batch : List (Cmd S D)
  /-- What is left to do of the command in hand. -/
  work : List (Touch S)
  broker : ArrayBroker S D
  closing : Bool
  /-- The broker has left its loop. -/
  exited : Bool
  shutdown : Bool

/-- What happens next. -/
inductive Act (S D : Type) where
  | start (s : S)
  /-- The session reads or writes its `conn`. -/
  | touch (s : S)
  | fail (s : S)
  | discard (s : S)
  | register (s : S)
  | proceed (s : S)
  | giveUp (s : S)
  | forward (s : S) (envelope : Envelope D)
  | leave (s : S)
  | report (s : S) (allocated : Bool)
  | send (identity : Option Identity) (data : D)
  | raise
  | close
  | fetch
  | process (draws : ℕ → Draw)
  | perform
  | sweep (rounds : ℕ) (now : ℤ) (draws : ℕ → Draw) (clock : ℕ → ℤ)
  | exit
  | drop

variable {S D : Type} [DecidableEq S]

namespace World

def start (mode : SendMode) (delivery : DeliveryGuarantee) : World S D where
  phase := fun _ => .absent
  answer := fun _ => none
  freed := []
  faults := []
  cmds := []
  batch := []
  work := []
  broker := .new mode delivery
  closing := false
  exited := false
  shutdown := false

def access (w : World S D) (c : S) : World S D :=
  if c ∈ w.freed then { w with faults := c :: w.faults } else w

def enter (w : World S D) (s : S) (phase : Phase) : World S D :=
  { w with phase := Function.update w.phase s phase }

/-- `cmd_push`. -/
def push (w : World S D) (cmd : Cmd S D) : World S D := { w with cmds := w.cmds ++ [cmd] }

/-- `conn_free`, which walks the queue of the `conn` before it frees it. -/
def free (w : World S D) (c : S) : World S D :=
  { w.access c with freed := c :: w.freed }

def perform (w : World S D) : Touch S → World S D
  | .answer c ok => { w.access c with answer := Function.update w.answer c (some ok) }
  | .read c | .push c => w.access c
  | .free c => w.free c

end World

section Step

variable (resendMs : ℤ) (peer : S → Identity)

/-- The command as the broker's handlers take it. `peer` are the identities in the peers' HELLOs. -/
def Cmd.input (draws : ℕ → Draw) : Cmd S D → Input S D
  | send identity data => .send (draws 0) identity data
  | connUp c => .connUp draws (peer c) c
  | connDown c => .connDown c
  | received identity envelope => .received (draws 0).shutdown identity envelope
  | close => .close

/-- What the handler of a command does to the `conn` in it. -/
def Cmd.touches (b : ArrayBroker S D) : Cmd S D → List (Touch S)
  | connUp c =>
    if (brokerFind b (peer c)).isSome then [.read c, .answer c false]
    else [.read c, .answer c true, .read c]
  | connDown c => [.free c]
  | send _ _ | received _ _ | close => []

def Cmd.isClose : Cmd S D → Bool
  | close => true
  | send _ _ | connUp _ | connDown _ | received _ _ => false

/-- What has been pushed, as accesses. -/
def pushes (b : ArrayBroker S D) : List (Touch S) := b.out.map fun x => .push x.1

/-- The broker is about to look at its queue. -/
def World.Idle (w : World S D) : Prop := w.exited = false ∧ w.batch = [] ∧ w.work = []

instance (w : World S D) : Decidable w.Idle :=
  decidable_of_iff (w.exited = false ∧ w.batch.isEmpty ∧ w.work = []) (by simp [World.Idle])

def step (w : World S D) : Act S D → Option (World S D)
  | .start s => if w.phase s = .absent then some (w.enter s .handshaking) else none
  | .touch s => if (w.phase s).Uses then some (w.access s) else none
  | .fail s => if w.phase s = .handshaking then some ((w.access s).enter s .failing) else none
  | .discard s => if w.phase s = .failing then some ((w.free s).enter s .failed) else none
  | .register s =>
    if w.phase s = .handshaking then some ((w.push (.connUp s)).enter s .waiting) else none
  | .proceed s =>
    if w.phase s = .waiting ∧ w.answer s = some true then some ((w.access s).enter s .steady)
    else none
  | .giveUp s =>
    if w.phase s = .waiting ∧ (w.answer s = some false ∨ w.answer s = none ∧ w.shutdown = true)
    then some ((w.access s).enter s .closing)
    else none
  | .forward s envelope =>
    if w.phase s = .steady then some ((w.access s).push (.received (peer s) envelope)) else none
  | .leave s => if w.phase s = .steady then some ((w.access s).enter s .closing) else none
  | .report s allocated =>
    if w.phase s = .closing then
      -- Without storage for the command `c` is leaked rather than freed.
      some (if allocated then (w.push (.connDown s)).enter s .done else w.enter s .leaked)
    else none
  | .send identity data => some (w.push (.send identity data))
  | .raise => some { w with shutdown := true }
  | .close => some (w.push .close)
  | .fetch => if w.Idle then some { w with batch := w.cmds, cmds := [] } else none
  | .process draws =>
    match w.exited, w.work, w.batch with
    | false, [], cmd :: rest =>
      ((CLib.broker S D resendMs).step { w.broker with out := [] } (cmd.input peer draws)).map
        fun b =>
          { w with
            batch := rest
            work := cmd.touches peer w.broker ++ pushes b
            broker := b
            closing := w.closing || cmd.isClose }
    | _, _, _ => none
  | .perform =>
    match w.work with
    | t :: rest => some { w.perform t with work := rest }
    | [] => none
  | .sweep rounds now draws clock =>
    if w.Idle then
      ((CLib.broker S D resendMs).step { w.broker with out := [] }
        (.sweep rounds now draws clock)).map fun b => { w with broker := b, work := pushes b }
    else none
  | .exit =>
    if w.Idle ∧ w.cmds.isEmpty ∧ w.closing = true ∧ w.broker.conns.isEmpty then
      some { w with exited := true }
    else none
  | .drop => if w.exited = true then some { w with cmds := [] } else none

/-- The threads of a socket. -/
def threads (S D : Type) [DecidableEq S] (resendMs : ℤ) (peer : S → Identity) :
    Machine (World S D) (Act S D) where
  step := step resendMs peer

end Step

/-! ### What a handler pushes -/

/-- A command in which there is no connection. -/
theorem within_step {resendMs : ℤ} {b b' : ArrayBroker S D} {input : Input S D}
    (h : (CLib.broker S D resendMs).step b input = some b')
    (hup : ∀ draws peer c, input ≠ .connUp draws peer c) (hdown : ∀ c, input ≠ .connDown c) :
    Within b b' := by
  cases input with
  | send draw identity data =>
    cases h
    exact closed_within.send List.cons resendMs b draw identity data
  | connUp draws peer c => exact absurd rfl (hup draws peer c)
  | connDown c => exact absurd rfl (hdown c)
  | received shutdown identity envelope =>
    cases h
    exact closed_brokerReceived closed_within b shutdown identity envelope
  | close =>
    cases h
    exact .refl b
  | sweep rounds now draws clock => exact closed_brokerSweep closed_within h

/-! ### How far a connection has come -/

/-- CMD_CONN_UP (`true`) or CMD_CONN_DOWN (`false`) of a `conn`. -/
def Cmd.about (c : S) : Cmd S D → Option Bool
  | connUp c' => if c' = c then some true else none
  | connDown c' => if c' = c then some false else none
  | send _ _ | received _ _ | close => none

namespace World

/-- What the broker has yet to learn of a `conn`. -/
def events (w : World S D) (c : S) : List Bool := (w.batch ++ w.cmds).filterMap (Cmd.about c)

/-- The broker has an entry for the `conn`. -/
def Held (w : World S D) (c : S) : Prop := ∃ e ∈ w.broker.conns, e.conn = c

/-- What is left to do to a `conn`. -/
def on (w : World S D) (c : S) : List (Touch S) := w.work.filter fun t => t.conn = c

end World

/-- The session has registered and may yet give its `conn` up. -/
def Phase.Registered : Phase → Prop
  | waiting | steady | closing | leaked => True
  | absent | handshaking | failing | done | failed => False

/-- How far a `conn` has come: what its session does, what is queued about it, whether the broker
holds it, what the broker is doing to it, and whether it is freed. -/
inductive Stage (c : S) (phase : Phase) (events : List Bool) (held : Prop)
    (touches : List (Touch S)) (freed : Prop) : Prop
  /-- The session's own. -/
  | own (hphase : phase = .absent ∨ phase = .handshaking ∨ phase = .failing)
      (hevents : events = []) (hheld : ¬ held) (htouches : touches = []) (hfreed : ¬ freed)
  /-- Freed by the session. -/
  | failed (hphase : phase = .failed) (hevents : events = []) (hheld : ¬ held)
      (htouches : touches = [])
  /-- The broker has not seen it yet. -/
  | queued (hphase : phase.Registered) (hevents : events = [true]) (hheld : ¬ held)
      (htouches : touches = []) (hfreed : ¬ freed)
  /-- The broker has seen it, and accepted it or not. -/
  | known (hphase : phase.Registered) (hevents : events = []) (htouches : .free c ∉ touches)
      (hfreed : ¬ freed)
  | doneQueued (hphase : phase = .done) (hevents : events = [true, false]) (hheld : ¬ held)
      (htouches : touches = []) (hfreed : ¬ freed)
  | doneKnown (hphase : phase = .done) (hevents : events = [false]) (htouches : .free c ∉ touches)
      (hfreed : ¬ freed)
  /-- The broker is about to free it. -/
  | freeing (hphase : phase = .done) (hevents : events = []) (hheld : ¬ held)
      (htouches : touches = [.free c]) (hfreed : ¬ freed)
  /-- Freed by the broker, or dropped at the end. -/
  | gone (hphase : phase = .done) (hevents : events = []) (hheld : ¬ held) (htouches : touches = [])

namespace Stage

omit [DecidableEq S]

variable {c : S} {phase : Phase} {events : List Bool} {held held' freed : Prop}
  {touches touches' : List (Touch S)}

/-- A session that uses its `conn` uses one that is not freed. -/
theorem live_of_uses (h : Stage c phase events held touches freed) (huses : phase.Uses) :
    ¬ freed := by
  cases h with
  | own _ _ _ _ hfreed | queued _ _ _ _ hfreed | known _ _ _ hfreed
  | doneQueued _ _ _ _ hfreed | doneKnown _ _ _ hfreed | freeing _ _ _ _ hfreed => exact hfreed
  | failed hphase | gone hphase =>
    rw [hphase] at huses
    exact huses.elim

/-- So does the broker, when something is left to do to a `conn`. -/
theorem live_of_touches (h : Stage c phase events held touches freed) (htouches : touches ≠ []) :
    ¬ freed := by
  cases h with
  | own _ _ _ _ hfreed | queued _ _ _ _ hfreed | known _ _ _ hfreed
  | doneQueued _ _ _ _ hfreed | doneKnown _ _ _ hfreed | freeing _ _ _ _ hfreed => exact hfreed
  | failed _ _ _ hnone | gone _ _ _ hnone => exact absurd hnone htouches

/-- What the broker holds is not freed. -/
theorem live_of_held (h : Stage c phase events held touches freed) (hheld : held) : ¬ freed := by
  cases h with
  | own _ _ _ _ hfreed | queued _ _ _ _ hfreed | known _ _ _ hfreed
  | doneQueued _ _ _ _ hfreed | doneKnown _ _ _ hfreed | freeing _ _ _ _ hfreed => exact hfreed
  | failed _ _ hnot | gone _ _ hnot => exact absurd hheld hnot

/-- Before it registers, a session has its `conn` to itself. -/
theorem own_of (h : Stage c phase events held touches freed)
    (hphase : phase = .absent ∨ phase = .handshaking ∨ phase = .failing) :
    events = [] ∧ ¬ held ∧ touches = [] ∧ ¬ freed := by
  have hnot : ∀ p : Phase, p = .absent ∨ p = .handshaking ∨ p = .failing →
      ¬ p.Registered ∧ p ≠ .done ∧ p ≠ .failed := by
    rintro p (rfl | rfl | rfl) <;> exact ⟨id, Phase.noConfusion, Phase.noConfusion⟩
  obtain ⟨hregistered, hdone, hfailed⟩ := hnot phase hphase
  cases h with
  | own _ hevents hheld htouches hfreed => exact ⟨hevents, hheld, htouches, hfreed⟩
  | failed habsurd => exact absurd habsurd hfailed
  | queued habsurd | known habsurd => exact absurd habsurd hregistered
  | doneQueued habsurd | doneKnown habsurd | freeing habsurd | gone habsurd =>
    exact absurd habsurd hdone

/-- A session that has registered goes on. -/
theorem goesOn (h : Stage c phase events held touches freed) (hphase : phase.Registered)
    {phase' : Phase} (hphase' : phase'.Registered) :
    Stage c phase' events held touches freed := by
  cases h with
  | queued _ hevents hheld htouches hfreed => exact .queued hphase' hevents hheld htouches hfreed
  | known _ hevents hfree hfreed => exact .known hphase' hevents hfree hfreed
  | own habsurd =>
    obtain rfl | rfl | rfl := habsurd <;> exact hphase.elim
  | failed habsurd | doneQueued habsurd | doneKnown habsurd | freeing habsurd | gone habsurd =>
    rw [habsurd] at hphase
    exact hphase.elim

/-- A session that has registered gives its `conn` up. -/
theorem reported (h : Stage c phase events held touches freed) (hphase : phase.Registered) :
    Stage c .done (events ++ [false]) held touches freed := by
  cases h with
  | queued _ hevents hheld htouches hfreed =>
    exact .doneQueued rfl (by rw [hevents]; rfl) hheld htouches hfreed
  | known _ hevents hfree hfreed => exact .doneKnown rfl (by rw [hevents]; rfl) hfree hfreed
  | own habsurd =>
    obtain rfl | rfl | rfl := habsurd <;> exact hphase.elim
  | failed habsurd | doneQueued habsurd | doneKnown habsurd | freeing habsurd | gone habsurd =>
    rw [habsurd] at hphase
    exact hphase.elim

/-- A handler pushes on what the broker holds. -/
theorem pushed (h : Stage c phase events held [] freed) (hheld : held' ↔ held)
    (hfree : .free c ∉ touches) (hnone : ¬ held → touches = []) :
    Stage c phase events held' touches freed := by
  cases h with
  | own hphase hevents hnot _ hfreed =>
    exact .own hphase hevents (fun h => hnot (hheld.mp h)) (hnone hnot) hfreed
  | failed hphase hevents hnot =>
    exact .failed hphase hevents (fun h => hnot (hheld.mp h)) (hnone hnot)
  | queued hphase hevents hnot _ hfreed =>
    exact .queued hphase hevents (fun h => hnot (hheld.mp h)) (hnone hnot) hfreed
  | known hphase hevents _ hfreed => exact .known hphase hevents hfree hfreed
  | doneQueued hphase hevents hnot _ hfreed =>
    exact .doneQueued hphase hevents (fun h => hnot (hheld.mp h)) (hnone hnot) hfreed
  | doneKnown hphase hevents _ hfreed => exact .doneKnown hphase hevents hfree hfreed
  | freeing _ _ _ htouches => cases htouches
  | gone hphase hevents hnot =>
    exact .gone hphase hevents (fun h => hnot (hheld.mp h)) (hnone hnot)

/-- The broker does not hold what is on its way to it. -/
theorem not_held_of_up (h : Stage c phase (true :: events) held touches freed) : ¬ held := by
  cases h with
  | own _ hevents | failed _ hevents | known _ hevents | doneKnown _ hevents | freeing _ hevents
  | gone _ hevents => cases hevents
  | queued _ _ hheld | doneQueued _ _ hheld => exact hheld

/-- The broker takes CMD_CONN_UP off the queue. -/
theorem taken_up (h : Stage c phase (true :: events) held [] freed)
    (hfree : .free c ∉ touches) : Stage c phase events held' touches freed := by
  cases h with
  | own _ hevents | failed _ hevents | known _ hevents | doneKnown _ hevents | freeing _ hevents
  | gone _ hevents => cases hevents
  | queued hphase hevents _ _ hfreed =>
    exact .known hphase (List.cons.inj hevents).2 hfree hfreed
  | doneQueued hphase hevents _ _ hfreed =>
    exact .doneKnown hphase (List.cons.inj hevents).2 hfree hfreed

/-- The broker takes CMD_CONN_DOWN off the queue. -/
theorem taken_down (h : Stage c phase (false :: events) held [] freed) (hheld : ¬ held') :
    Stage c phase events held' [.free c] freed := by
  cases h with
  | own _ hevents | failed _ hevents | queued _ hevents | known _ hevents | doneQueued _ hevents
  | freeing _ hevents | gone _ hevents => cases hevents
  | doneKnown hphase hevents _ hfreed =>
    exact .freeing hphase (List.cons.inj hevents).2 hheld rfl hfreed

/-- The broker does one of the things that are left to do to a `conn`. -/
theorem touched {t : Touch S} (h : Stage c phase events held (t :: touches) freed)
    (ht : t ≠ .free c) : Stage c phase events held touches freed := by
  cases h with
  | own _ _ _ hnone | failed _ _ _ hnone | queued _ _ _ hnone | doneQueued _ _ _ hnone
  | gone _ _ _ hnone => cases hnone
  | known hphase hevents hfree hfreed =>
    exact .known hphase hevents (fun h => hfree (List.mem_cons_of_mem _ h)) hfreed
  | doneKnown hphase hevents hfree hfreed =>
    exact .doneKnown hphase hevents (fun h => hfree (List.mem_cons_of_mem _ h)) hfreed
  | freeing _ _ _ hone => exact absurd (List.cons.inj hone).1 ht

/-- The broker frees a `conn`. -/
theorem released (h : Stage c phase events held (.free c :: touches) freed) :
    Stage c phase events held touches held' := by
  cases h with
  | own _ _ _ hnone | failed _ _ _ hnone | queued _ _ _ hnone | doneQueued _ _ _ hnone
  | gone _ _ _ hnone => cases hnone
  | known _ _ hfree | doneKnown _ _ hfree => exact absurd List.mem_cons_self hfree
  | freeing hphase hevents hheld hone =>
    exact .gone hphase hevents hheld (List.cons.inj hone).2

/-- At the end, what is queued is dropped. -/
theorem dropped (h : Stage c phase events held [] freed) (hheld : ¬ held) :
    Stage c phase [] held [] freed := by
  cases h with
  | own hphase _ _ _ hfreed => exact .own hphase rfl hheld rfl hfreed
  | failed hphase => exact .failed hphase rfl hheld rfl
  | queued hphase _ _ _ hfreed | known hphase _ _ hfreed =>
    exact .known hphase rfl List.not_mem_nil hfreed
  | doneQueued hphase | doneKnown hphase | gone hphase => exact .gone hphase rfl hheld rfl
  | freeing _ _ _ hone => cases hone

end Stage

/-- The invariant. -/
structure Inv (w : World S D) : Prop where
  stage : ∀ c, Stage c (w.phase c) (w.events c) (w.Held c) (w.on c) (c ∈ w.freed)
  nodup : w.freed.Nodup
  faults : w.faults = []
  entries : (w.broker.conns.map Entry.conn).Nodup
  exited : w.exited = true → w.batch = [] ∧ w.work = [] ∧ w.broker.conns = []

theorem access_of_notMem {w : World S D} {c : S} (h : c ∉ w.freed) : w.access c = w := by
  rw [World.access, if_neg h]

theorem inv_start (mode : SendMode) (delivery : DeliveryGuarantee) :
    Inv (World.start mode delivery : World S D) where
  stage := fun _ => .own (.inl rfl) rfl (fun ⟨_, he, _⟩ => List.not_mem_nil he) rfl List.not_mem_nil
  nodup := List.nodup_nil
  faults := rfl
  entries := List.nodup_nil
  exited := fun h => absurd h Bool.false_ne_true

namespace Inv

variable {w : World S D}

theorem live_of_uses (h : Inv w) {s : S} (hs : (w.phase s).Uses) : s ∉ w.freed :=
  (h.stage s).live_of_uses hs

theorem access_eq (h : Inv w) {s : S} (hs : (w.phase s).Uses) : w.access s = w :=
  access_of_notMem (h.live_of_uses hs)

/-! ### Sessions -/

/-- A session goes on, and may queue a command about its own `conn`. -/
theorem moves (h : Inv w) {s : S} {phase : Phase} {new : List (Cmd S D)}
    (hnew : ∀ c, c ≠ s → new.filterMap (Cmd.about c) = [])
    (hs : Stage s phase (w.events s ++ new.filterMap (Cmd.about s)) (w.Held s) (w.on s)
      (s ∈ w.freed)) :
    Inv ({ w with cmds := w.cmds ++ new }.enter s phase) where
  stage := by
    intro c
    have hevents : World.events ({ w with cmds := w.cmds ++ new }.enter s phase) c =
        w.events c ++ new.filterMap (Cmd.about c) := by
      simp [World.events, World.enter]
    rw [hevents]
    by_cases hc : c = s
    · subst hc
      have hphase : ({ w with cmds := w.cmds ++ new }.enter c phase).phase c = phase :=
        Function.update_self ..
      rw [hphase]
      exact hs
    · have hphase : ({ w with cmds := w.cmds ++ new }.enter s phase).phase c = w.phase c :=
        Function.update_of_ne hc ..
      rw [hphase, hnew c hc, List.append_nil]
      exact h.stage c
  nodup := h.nodup
  faults := h.faults
  entries := h.entries
  exited := h.exited

theorem enter (h : Inv w) {s : S} {phase : Phase}
    (hs : Stage s phase (w.events s) (w.Held s) (w.on s) (s ∈ w.freed)) :
    Inv (w.enter s phase) := by
  have hmoves : Inv ({ w with cmds := w.cmds ++ [] }.enter s phase) :=
    h.moves (fun _ _ => rfl) (by simpa using hs)
  rwa [List.append_nil] at hmoves

theorem start (h : Inv w) {s : S} (hs : w.phase s = .absent) : Inv (w.enter s .handshaking) := by
  obtain ⟨hevents, hheld, htouches, hfreed⟩ := (h.stage s).own_of (.inl hs)
  exact h.enter (.own (.inr (.inl rfl)) hevents hheld htouches hfreed)

theorem fail (h : Inv w) {s : S} (hs : w.phase s = .handshaking) : Inv (w.enter s .failing) := by
  obtain ⟨hevents, hheld, htouches, hfreed⟩ := (h.stage s).own_of (.inr (.inl hs))
  exact h.enter (.own (.inr (.inr rfl)) hevents hheld htouches hfreed)

theorem discard (h : Inv w) {s : S} (hs : w.phase s = .failing) :
    Inv ((w.free s).enter s .failed) := by
  obtain ⟨hevents, hheld, htouches, hfreed⟩ := (h.stage s).own_of (.inr (.inr hs))
  rw [World.free, access_of_notMem hfreed]
  refine ⟨fun c => ?_, List.nodup_cons.mpr ⟨hfreed, h.nodup⟩, h.faults, h.entries, h.exited⟩
  by_cases hc : c = s
  · subst hc
    exact .failed (Function.update_self ..) hevents hheld htouches
  · have hphase : Function.update w.phase s .failed c = w.phase c := Function.update_of_ne hc ..
    have hmem : c ∈ s :: w.freed ↔ c ∈ w.freed := by simp [hc]
    show Stage c (Function.update w.phase s .failed c) (w.events c) (w.Held c) (w.on c)
      (c ∈ s :: w.freed)
    rw [hphase, hmem]
    exact h.stage c

theorem register (h : Inv w) {s : S} (hs : w.phase s = .handshaking) :
    Inv ((w.push (.connUp s)).enter s .waiting) := by
  obtain ⟨hevents, hheld, htouches, hfreed⟩ := (h.stage s).own_of (.inr (.inl hs))
  refine h.moves (fun c hc => by simp [Cmd.about, hc.symm])
    (.queued trivial ?_ hheld htouches hfreed)
  simp [hevents, Cmd.about]

theorem goesOn (h : Inv w) {s : S} {phase : Phase} (hs : (w.phase s).Registered)
    (hphase : phase.Registered) : Inv (w.enter s phase) :=
  h.enter ((h.stage s).goesOn hs hphase)

theorem report (h : Inv w) {s : S} (hs : w.phase s = .closing) :
    Inv ((w.push (.connDown s)).enter s .done) := by
  have hregistered : (w.phase s).Registered := hs ▸ trivial
  refine h.moves (fun c hc => by simp [Cmd.about, hc.symm]) ?_
  have habout : [Cmd.connDown (D := D) s].filterMap (Cmd.about s) = [false] := by
    simp [Cmd.about]
  rw [habout]
  exact (h.stage s).reported hregistered

/-- Somebody queues a command in which there is no connection. -/
theorem push (h : Inv w) {cmd : Cmd S D} (hcmd : ∀ c, cmd.about c = none) : Inv (w.push cmd) where
  stage := by
    intro c
    have hevents : (w.push cmd).events c = w.events c := by
      simp [World.events, World.push, hcmd c]
    rw [hevents]
    exact h.stage c
  nodup := h.nodup
  faults := h.faults
  entries := h.entries
  exited := h.exited

/-! ### The broker -/

theorem fetch (h : Inv w) (hidle : w.Idle) : Inv { w with batch := w.cmds, cmds := [] } where
  stage := by
    intro c
    have hevents : World.events { w with batch := w.cmds, cmds := [] } c = w.events c := by
      simp [World.events, hidle.2.1]
    rw [hevents]
    exact h.stage c
  nodup := h.nodup
  faults := h.faults
  entries := h.entries
  exited := fun hexited => absurd (hidle.1.symm.trans hexited) Bool.false_ne_true

theorem perform (h : Inv w) {t : Touch S} {rest : List (Touch S)} (hwork : w.work = t :: rest) :
    Inv { w.perform t with work := rest } := by
  have hon : ∀ c, w.on c = if t.conn = c then t :: rest.filter (·.conn = c)
      else rest.filter (·.conn = c) := by
    intro c
    by_cases hc : t.conn = c <;> simp [World.on, hwork, hc]
  have hstage := h.stage t.conn
  rw [hon, if_pos rfl] at hstage
  have hlive : t.conn ∉ w.freed := hstage.live_of_touches (List.cons_ne_nil _ _)
  have hexited : w.exited = true → w.batch = [] ∧ rest = [] ∧ w.broker.conns = [] := by
    intro hexited
    have habsurd := (h.exited hexited).2.1
    rw [hwork] at habsurd
    cases habsurd
  have hkeep : ∀ c, t ≠ .free c → Stage c (w.phase c) (w.events c) (w.Held c)
      (rest.filter (·.conn = c)) (c ∈ w.freed) := by
    intro c hc
    have hstage := h.stage c
    rw [hon] at hstage
    split at hstage
    · exact hstage.touched hc
    · exact hstage
  cases t with
  | read c | push c =>
    have haccess : w.access c = w := access_of_notMem hlive
    rw [World.perform, haccess]
    exact ⟨fun c => hkeep c (by rintro ⟨⟩), h.nodup, h.faults, h.entries, hexited⟩
  | answer c ok =>
    have haccess : w.access c = w := access_of_notMem hlive
    rw [World.perform, haccess]
    exact ⟨fun c => hkeep c (by rintro ⟨⟩), h.nodup, h.faults, h.entries, hexited⟩
  | free c =>
    have haccess : w.access c = w := access_of_notMem hlive
    rw [World.perform, World.free, haccess]
    refine ⟨fun c' => ?_, List.nodup_cons.mpr ⟨hlive, h.nodup⟩, h.faults, h.entries, hexited⟩
    show Stage c' (w.phase c') (w.events c') (w.Held c') (rest.filter (·.conn = c'))
      (c' ∈ c :: w.freed)
    by_cases hc : c' = c
    · subst hc
      exact hstage.released
    · have hmem : c' ∈ c :: w.freed ↔ c' ∈ w.freed := by simp [hc]
      rw [hmem]
      exact hkeep c' fun habsurd => hc (Touch.free.inj habsurd).symm

/-- The broker has done what there is to do of a command or a sweep in which there is no
connection. -/
theorem within (h : Inv w) (hexited : w.exited = false) (hwork : w.work = [])
    {batch : List (Cmd S D)} {closing : Bool}
    (hevents : ∀ c, (batch ++ w.cmds).filterMap (Cmd.about c) = w.events c)
    {b : ArrayBroker S D} (hb : Within { w.broker with out := [] } b) :
    Inv { w with batch := batch, work := pushes b, broker := b, closing := closing } where
  stage := by
    intro c
    have hstage := h.stage c
    have hon : w.on c = [] := by simp [World.on, hwork]
    rw [hon] at hstage
    show Stage c (w.phase c) ((batch ++ w.cmds).filterMap (Cmd.about c))
      (∃ e ∈ b.conns, e.conn = c) ((pushes b).filter (·.conn = c)) (c ∈ w.freed)
    rw [hevents, hb.conns]
    refine hstage.pushed .rfl ?_ fun hheld => ?_
    · simp [pushes]
    · refine List.filter_eq_nil_iff.mpr fun t ht => ?_
      obtain ⟨x, hx, rfl⟩ := List.mem_map.mp ht
      obtain hnot | ⟨e, he, hconn⟩ := hb.out x hx
      · cases hnot
      · exact fun hc => hheld ⟨e, he, hconn.trans (of_decide_eq_true hc)⟩
  nodup := h.nodup
  faults := h.faults
  entries := by
    show (b.conns.map Entry.conn).Nodup
    rw [hb.conns]
    exact h.entries
  exited := fun habsurd => absurd (hexited.symm.trans habsurd) Bool.false_ne_true

/-- The broker takes a `conn` that registers off the queue, and accepts it or not. -/
theorem up (h : Inv w) (hexited : w.exited = false) (hwork : w.work = []) {s : S}
    {rest : List (Cmd S D)} (hbatch : w.batch = .connUp s :: rest) {b : ArrayBroker S D}
    (hconns : b.conns = w.broker.conns ∨ ∃ id, b.conns = w.broker.conns ++ [⟨id, s⟩])
    (hout : ∀ x ∈ b.out, ∃ e ∈ b.conns, e.conn = x.1) {touches : List (Touch S)}
    (htouches : ∀ t ∈ touches, t.conn = s ∧ t ≠ .free s) {closing : Bool} :
    Inv { w with batch := rest, work := touches ++ pushes b, broker := b, closing := closing } := by
  have hon : ∀ c, w.on c = [] := fun c => by simp [World.on, hwork]
  have hfirst : w.events s = true :: (rest ++ w.cmds).filterMap (Cmd.about s) := by
    simp [World.events, hbatch, Cmd.about]
  have hs := h.stage s
  rw [hon, hfirst] at hs
  have hfree : ∀ c, .free c ∉ (touches ++ pushes b).filter (·.conn = c) := by
    intro c hmem
    obtain hmem | hmem := List.mem_append.mp (List.mem_filter.mp hmem).1
    · obtain ⟨rfl, hne⟩ := htouches _ hmem
      exact hne rfl
    · simp [pushes] at hmem
  refine ⟨fun c => ?_, h.nodup, h.faults, ?_, fun habsurd =>
    absurd (hexited.symm.trans habsurd) Bool.false_ne_true⟩
  · show Stage c (w.phase c) ((rest ++ w.cmds).filterMap (Cmd.about c))
      (∃ e ∈ b.conns, e.conn = c) ((touches ++ pushes b).filter (·.conn = c)) (c ∈ w.freed)
    by_cases hc : c = s
    · subst hc
      exact hs.taken_up (hfree c)
    · have hevents : w.events c = (rest ++ w.cmds).filterMap (Cmd.about c) := by
        have hne : s ≠ c := fun habsurd => hc habsurd.symm
        simp [World.events, hbatch, Cmd.about, hne]
      have hheld : (∃ e ∈ b.conns, e.conn = c) ↔ w.Held c := by
        obtain hsame | ⟨id, hsame⟩ := hconns
        · rw [hsame]
          rfl
        · rw [hsame]
          have hne : ¬ s = c := fun habsurd => hc habsurd.symm
          simp [World.Held, hne]
      have hstage := h.stage c
      rw [hon, hevents] at hstage
      refine hstage.pushed hheld (hfree c) fun hnot => List.filter_eq_nil_iff.mpr fun t ht => ?_
      obtain ht | ht := List.mem_append.mp ht
      · obtain ⟨rfl, -⟩ := htouches t ht
        exact fun habsurd => hc (of_decide_eq_true habsurd).symm
      · obtain ⟨x, hx, rfl⟩ := List.mem_map.mp ht
        intro hx'
        obtain ⟨e, he, hconn⟩ := hout x hx
        exact hnot (hheld.mp ⟨e, he, hconn.trans (of_decide_eq_true hx')⟩)
  · show (b.conns.map Entry.conn).Nodup
    obtain hsame | ⟨id, hsame⟩ := hconns
    · rw [hsame]
      exact h.entries
    · rw [hsame, List.map_append]
      refine List.Nodup.append h.entries (List.nodup_singleton s) ?_
      rw [List.map_singleton, List.disjoint_singleton]
      intro hmem
      obtain ⟨e, he, hconn⟩ := List.mem_map.mp hmem
      exact hs.not_held_of_up ⟨e, he, hconn⟩

/-- The broker takes a `conn` that is given up off the queue. -/
theorem down (h : Inv w) (hexited : w.exited = false) (hwork : w.work = []) {s : S}
    {rest : List (Cmd S D)} (hbatch : w.batch = .connDown s :: rest) {closing : Bool} :
    let b := brokerDown { w.broker with out := [] } s
    Inv { w with batch := rest, work := .free s :: pushes b, broker := b, closing := closing } := by
  intro b
  have hon : ∀ c, w.on c = [] := fun c => by simp [World.on, hwork]
  have hfirst : w.events s = false :: (rest ++ w.cmds).filterMap (Cmd.about s) := by
    simp [World.events, hbatch, Cmd.about]
  have hs := h.stage s
  rw [hon, hfirst] at hs
  -- `brokerDown` takes out the only entry with this `conn`.
  have hb : b.out = [] ∧ (b.conns.map Entry.conn).Nodup ∧
      ∀ c, (∃ e ∈ b.conns, e.conn = c) ↔ w.Held c ∧ c ≠ s := by
    obtain ⟨e, he, hperm, hdown⟩ | ⟨hnone, hdown⟩ := brokerDown_cases { w.broker with out := [] } s
    · obtain ⟨hnotMem, hentries⟩ := List.nodup_cons.mp ((hperm.map Entry.conn).nodup h.entries)
      refine ⟨congrArg ArrayBroker.out hdown, hentries, fun c => ⟨?_, ?_⟩⟩
      · rintro ⟨e', he', rfl⟩
        refine ⟨⟨e', hperm.mem_iff.mpr (List.mem_cons_of_mem _ he'), rfl⟩, fun habsurd => ?_⟩
        exact hnotMem (he.symm ▸ List.mem_map.mpr ⟨e', he', habsurd⟩)
      · rintro ⟨⟨e', he', rfl⟩, hne⟩
        obtain rfl | he' := List.mem_cons.mp (hperm.mem_iff.mp he')
        · exact absurd he hne
        · exact ⟨e', he', rfl⟩
    · have hb : b = { w.broker with out := [] } := hdown
      rw [hb]
      refine ⟨rfl, h.entries, fun c => ⟨?_, fun hheld => hheld.1⟩⟩
      rintro ⟨e, he, rfl⟩
      exact ⟨⟨e, he, rfl⟩, hnone e he⟩
  obtain ⟨hout, hentries, hheld⟩ := hb
  have hpushes : pushes b = [] := by rw [pushes, hout]; rfl
  rw [hpushes]
  refine ⟨fun c => ?_, h.nodup, h.faults, hentries, fun habsurd =>
    absurd (hexited.symm.trans habsurd) Bool.false_ne_true⟩
  show Stage c (w.phase c) ((rest ++ w.cmds).filterMap (Cmd.about c))
    (∃ e ∈ b.conns, e.conn = c) ([Touch.free s].filter (·.conn = c)) (c ∈ w.freed)
  by_cases hc : c = s
  · subst hc
    have hfree : [Touch.free c].filter (·.conn = c) = [Touch.free c] := by simp [Touch.conn]
    rw [hfree]
    exact hs.taken_down fun habsurd => ((hheld c).mp habsurd).2 rfl
  · have hne : ¬ s = c := fun habsurd => hc habsurd.symm
    have hevents : w.events c = (rest ++ w.cmds).filterMap (Cmd.about c) := by
      simp [World.events, hbatch, Cmd.about, hne]
    have hfree : [Touch.free s].filter (·.conn = c) = [] := by simp [Touch.conn, hne]
    have hstage := h.stage c
    rw [hon, hevents] at hstage
    rw [hfree]
    exact hstage.pushed ((hheld c).trans (and_iff_left hc)) List.not_mem_nil fun _ => rfl

theorem exit (h : Inv w) (hidle : w.Idle) (hconns : w.broker.conns = []) :
    Inv { w with exited := true } :=
  ⟨h.stage, h.nodup, h.faults, h.entries, fun _ => ⟨hidle.2.1, hidle.2.2, hconns⟩⟩

theorem drop (h : Inv w) (hexited : w.exited = true) : Inv { w with cmds := [] } := by
  obtain ⟨hbatch, hwork, hconns⟩ := h.exited hexited
  refine ⟨fun c => ?_, h.nodup, h.faults, h.entries, h.exited⟩
  have hevents : World.events { w with cmds := [] } c = [] := by simp [World.events, hbatch]
  have hon : w.on c = [] := by simp [World.on, hwork]
  have hheld : ¬ w.Held c := by simp [World.Held, hconns]
  have hstage := h.stage c
  rw [hon] at hstage
  show Stage c (w.phase c) (World.events { w with cmds := [] } c) (w.Held c) (w.on c) (c ∈ w.freed)
  rw [hevents, hon]
  exact hstage.dropped hheld

/-- A command that the broker takes off the queue. -/
theorem process (h : Inv w) (hexited : w.exited = false) (hwork : w.work = []) {resendMs : ℤ}
    {peer : S → Identity} {draws : ℕ → Draw} {cmd : Cmd S D} {rest : List (Cmd S D)}
    (hbatch : w.batch = cmd :: rest) {b : ArrayBroker S D}
    (hb : (CLib.broker S D resendMs).step { w.broker with out := [] } (cmd.input peer draws) =
      some b)
    {closing : Bool} :
    Inv { w with
      batch := rest
      work := cmd.touches peer w.broker ++ pushes b
      broker := b
      closing := closing } := by
  have hplain : (∀ c, cmd.about c = none) →
      ∀ c, (rest ++ w.cmds).filterMap (Cmd.about c) = w.events c := by
    intro hcmd c
    simp [World.events, hbatch, hcmd c]
  cases cmd with
  | send identity data =>
    exact h.within hexited hwork (hplain fun _ => rfl)
      (within_step hb (by rintro _ _ _ ⟨⟩) (by rintro _ ⟨⟩))
  | received identity envelope =>
    exact h.within hexited hwork (hplain fun _ => rfl)
      (within_step hb (by rintro _ _ _ ⟨⟩) (by rintro _ ⟨⟩))
  | close =>
    exact h.within hexited hwork (hplain fun _ => rfl)
      (within_step hb (by rintro _ _ _ ⟨⟩) (by rintro _ ⟨⟩))
  | connDown s =>
    cases hb
    exact h.down hexited hwork hbatch
  | connUp s =>
    cases hb
    cases hfind : (brokerFind w.broker (peer s)).isSome with
    | true =>
      have hup : brokerUp resendMs { w.broker with out := [] } draws (peer s) s =
          { w.broker with out := [] } := if_pos hfind
      have htouches : Cmd.touches peer w.broker (.connUp s : Cmd S D) =
          [.read s, .answer s false] := if_pos hfind
      have hon : ∀ t ∈ [Touch.read s, .answer s false], t.conn = s ∧ t ≠ .free s := by
        simp [Touch.conn]
      rw [hup, htouches]
      exact h.up (b := { w.broker with out := [] }) hexited hwork hbatch (.inl rfl)
        (fun x hx => absurd hx List.not_mem_nil) hon
    | false =>
      have hwithin : Within ({ w.broker with out := [] }.connect (peer s) s)
          (brokerUp resendMs { w.broker with out := [] } draws (peer s) s) :=
        closed_brokerUp closed_within resendMs draws hfind
      have htouches : Cmd.touches peer w.broker (.connUp s : Cmd S D) =
          [.read s, .answer s true, .read s] := if_neg (by simp [hfind])
      rw [htouches]
      refine h.up hexited hwork hbatch (.inr ⟨peer s, hwithin.conns⟩) (fun x hx => ?_)
        (by simp [Touch.conn])
      obtain hnot | hentry := hwithin.out x hx
      · cases hnot
      · exact hwithin.conns ▸ hentry

/-- Every step keeps the invariant. -/
theorem step (h : Inv w) {resendMs : ℤ} {peer : S → Identity} {act : Act S D} {w' : World S D}
    (hstep : Ownership.step resendMs peer w act = some w') : Inv w' := by
  cases act with
  | start s =>
    obtain ⟨hs, ⟨⟩⟩ := Option.ite_none_right_eq_some.mp hstep
    exact h.start hs
  | touch s =>
    obtain ⟨hs, ⟨⟩⟩ := Option.ite_none_right_eq_some.mp hstep
    rw [h.access_eq hs]
    exact h
  | fail s =>
    obtain ⟨hs, ⟨⟩⟩ := Option.ite_none_right_eq_some.mp hstep
    rw [h.access_eq (hs ▸ trivial)]
    exact h.fail hs
  | discard s =>
    obtain ⟨hs, ⟨⟩⟩ := Option.ite_none_right_eq_some.mp hstep
    exact h.discard hs
  | register s =>
    obtain ⟨hs, ⟨⟩⟩ := Option.ite_none_right_eq_some.mp hstep
    exact h.register hs
  | proceed s =>
    obtain ⟨⟨hs, -⟩, ⟨⟩⟩ := Option.ite_none_right_eq_some.mp hstep
    rw [h.access_eq (hs ▸ trivial)]
    exact h.goesOn (hs ▸ trivial) trivial
  | giveUp s =>
    obtain ⟨⟨hs, -⟩, ⟨⟩⟩ := Option.ite_none_right_eq_some.mp hstep
    rw [h.access_eq (hs ▸ trivial)]
    exact h.goesOn (hs ▸ trivial) trivial
  | forward s envelope =>
    obtain ⟨hs, ⟨⟩⟩ := Option.ite_none_right_eq_some.mp hstep
    rw [h.access_eq (hs ▸ trivial)]
    exact h.push fun _ => rfl
  | leave s =>
    obtain ⟨hs, ⟨⟩⟩ := Option.ite_none_right_eq_some.mp hstep
    rw [h.access_eq (hs ▸ trivial)]
    exact h.goesOn (hs ▸ trivial) trivial
  | report s allocated =>
    obtain ⟨hs, ⟨⟩⟩ := Option.ite_none_right_eq_some.mp hstep
    cases allocated with
    | true => exact h.report hs
    | false => exact h.goesOn (hs ▸ trivial) trivial
  | send identity data =>
    cases hstep
    exact h.push fun _ => rfl
  | raise =>
    cases hstep
    exact ⟨h.stage, h.nodup, h.faults, h.entries, h.exited⟩
  | close =>
    cases hstep
    exact h.push fun _ => rfl
  | fetch =>
    obtain ⟨hidle, ⟨⟩⟩ := Option.ite_none_right_eq_some.mp hstep
    exact h.fetch hidle
  | process draws =>
    simp only [Ownership.step] at hstep
    split at hstep
    case h_1 cmd rest hexited hwork hbatch =>
      obtain ⟨b, hb, rfl⟩ := Option.map_eq_some_iff.mp hstep
      exact h.process hexited hwork hbatch hb
    case h_2 => cases hstep
  | perform =>
    simp only [Ownership.step] at hstep
    split at hstep
    case h_1 t rest hwork =>
      cases hstep
      exact h.perform hwork
    case h_2 => cases hstep
  | sweep rounds now draws clock =>
    obtain ⟨⟨hexited, hbatch, hwork⟩, hstep⟩ := Option.ite_none_right_eq_some.mp hstep
    obtain ⟨b, hb, rfl⟩ := Option.map_eq_some_iff.mp hstep
    exact h.within hexited hwork (fun _ => rfl)
      (within_step hb (by rintro _ _ _ ⟨⟩) (by rintro _ ⟨⟩))
  | exit =>
    obtain ⟨⟨hidle, -, -, hconns⟩, ⟨⟩⟩ := Option.ite_none_right_eq_some.mp hstep
    exact h.exit hidle (List.isEmpty_iff.mp hconns)
  | drop =>
    obtain ⟨hexited, ⟨⟩⟩ := Option.ite_none_right_eq_some.mp hstep
    exact h.drop hexited

end Inv

/-- **Ownership of connections.** Whatever the sessions, the callers and the broker do in whichever
order, no `conn` is freed twice, none is accessed when it has been freed, and none is freed that the
broker still has an entry for. -/
theorem conn_ownership {resendMs : ℤ} {peer : S → Identity} {mode : SendMode}
    {delivery : DeliveryGuarantee} {acts : List (Act S D)} {w : World S D}
    (h : (threads S D resendMs peer).run (.start mode delivery) acts = some w) :
    w.freed.Nodup ∧ w.faults = [] ∧ ∀ e ∈ w.broker.conns, e.conn ∉ w.freed := by
  have hinv : Inv w := Machine.invariant (fun _ _ _ hI hstep => hI.step hstep) h
    (inv_start mode delivery)
  exact ⟨hinv.nodup, hinv.faults, fun e he => (hinv.stage e.conn).live_of_held ⟨e, he, rfl⟩⟩

/-- Two peers have one identity. The second is turned away. The first gives up for the shutdown,
is accepted after that, and gets a message that it does not send any more. -/
def lateAccept : List (Act ℕ ℕ) :=
  let draws : ℕ → Draw := fun _ => ⟨List.Vector.replicate 16 0, 0, false⟩
  [.start 1, .start 2, .register 1, .register 2, .send none 42, .raise, .close, .giveUp 1,
    .report 1 true, .fetch, .process draws, .perform, .perform, .perform, .process draws, .perform,
    .perform, .giveUp 2, .report 2 true, .process draws, .perform, .process draws, .process draws,
    .perform, .sweep 1 0 draws fun _ => 0, .fetch, .process draws, .perform, .exit]

theorem lateAccept_freed : ((threads ℕ ℕ 5000 fun _ => List.Vector.replicate 16 7).run
    (.start .roundRobin .atMostOnce) lateAccept).map (fun w => (w.freed, w.exited)) =
      some ([2, 1], true) :=
  rfl

theorem lateAccept_owned : ∃ w, (threads ℕ ℕ 5000 fun _ => List.Vector.replicate 16 7).run
      (.start .roundRobin .atMostOnce) lateAccept = some w ∧ w.freed = [2, 1] ∧
    w.freed.Nodup ∧ w.faults = [] ∧ ∀ e ∈ w.broker.conns, e.conn ∉ w.freed := by
  obtain ⟨w, hrun, hw⟩ := Option.map_eq_some_iff.mp lateAccept_freed
  exact ⟨w, hrun, congrArg Prod.fst hw, conn_ownership hrun⟩

end Ownership

end CLib

end Aiomsg
