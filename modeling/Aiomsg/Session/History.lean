import Aiomsg.Session.SameConnection
import Aiomsg.Broker.Ids
import Aiomsg.Broker.Provenance

/-!
# What the broker of a node has done so far

The log of a `World` is a ghost: the broker keeps none of it. What its state owes to the log is
stated here once, for every reachable state: which ids were given out, which transmission each entry
of `pending` is of, that payloads come from the application, and that nothing goes out on the writer
of a session before it has begun.

## Scope

These are facts about one node. They say nothing of what happens to a frame once it is on a writer.

## Main results

* `history_of_reachable`
-/

namespace Aiomsg

namespace Session

variable {S D : Type}

/-- Everything the broker has done. -/
def World.effects (w : World S D) : List (Effect S D) := w.log.flatMap Done.effects

/-- A payload the application has handed over. -/
def World.Handed (w : World S D) (data : D) : Prop :=
  ∃ d ∈ w.log, ∃ identity, d.cmd = .send identity data

theorem effects_process (w : World S D) (p : Posted S D) (rest : List (Posted S D)) :
    (w.process p rest).effects = w.effects ++ (w.broker.step p.cmd).2 := by
  simp [World.effects, World.process]

theorem World.Handed.process {w : World S D} {data : D} (h : w.Handed data) (p : Posted S D)
    (rest : List (Posted S D)) : (w.process p rest).Handed data := by
  obtain ⟨d, hd, hcmd⟩ := h
  exact ⟨d, List.mem_append_left _ hd, hcmd⟩

/-- What the broker of a node owes to its log. -/
structure History (w : World S D) : Prop where
  issues : ∃ b : Broker S D, b.Issues w.broker w.effects
  /-- Every entry is of a transmission. -/
  entries : ∀ m p, w.broker.pending.lookup m = some p → .transmit (some m) p ∈ w.effects
  holds : w.broker.Holds w.Handed
  handed : ∀ p ∈ transmitted w.effects, w.Handed p.data
  /-- Only sessions that have begun are written to. -/
  begun : ∀ s f, .frame s f ∈ w.effects → w.phase s ≠ .idle

theorem history_start (sendMode : SendMode) (delivery : DeliveryGuarantee)
    (salt : List.Vector UInt8 8) : History (World.start sendMode delivery salt : World S D) where
  issues := ⟨_, .of_none rfl rfl rfl rfl⟩
  entries := fun _ p h => absurd h (Option.some_ne_none p).symm
  holds := ⟨fun _ hm => absurd hm List.not_mem_nil,
    fun _ p h => absurd h (Option.some_ne_none p).symm⟩
  handed := fun _ hp => absurd hp List.not_mem_nil
  begun := fun _ _ hf => absurd hf List.not_mem_nil

/-- A step that leaves the broker alone, and takes no session back to its start. -/
theorem History.of_eq {w w' : World S D} (h : History w) (hbroker : w'.broker = w.broker)
    (hlog : w'.log = w.log) (hphase : ∀ s, w.phase s ≠ .idle → w'.phase s ≠ .idle) :
    History w' := by
  obtain ⟨broker, queue, phase, log⟩ := w'
  obtain rfl : broker = w.broker := hbroker
  obtain rfl : log = w.log := hlog
  exact ⟨h.issues, h.entries, h.holds, h.handed, fun s f hf => hphase s (h.begun s f hf)⟩

variable [DecidableEq S] {ident : S → Identity} {w : World S D}

theorem phase_enter_ne_idle (w : World S D) (s : S) {phase : Phase} (hphase : phase ≠ .idle)
    (s' : S) (h : w.phase s' ≠ .idle) : (w.enter s phase).phase s' ≠ .idle := by
  show Function.update w.phase s phase s' ≠ .idle
  by_cases hs : s' = s
  · rw [hs, Function.update_self]
    exact hphase
  · rw [Function.update_of_ne hs]
    exact h

/-- A live session has begun. -/
theorem Inv.begun (h : Inv ident w) {s : S} (hlive : w.Live s) : w.phase s ≠ .idle := by
  intro hidle
  have hstage := h.stage s
  rw [hidle] at hstage
  exact absurd (hstage.eq_of_idle ▸ hlive.1) List.not_mem_nil

theorem Inv.history_process (h : Inv ident w) (hhist : History w) {p : Posted S D}
    {rest : List (Posted S D)} (hqueue : w.queue = p :: rest) : History (w.process p rest) := by
  have hsend : ∀ identity data, p.cmd = .send identity data → (w.process p rest).Handed data :=
    fun identity data hcmd =>
      ⟨_, List.mem_append_right _ (List.mem_singleton_self _), identity, hcmd⟩
  have hheld : w.broker.Holds (w.process p rest).Handed :=
    ⟨fun m hm => (hhist.holds.buffer m hm).process p rest,
      fun m q hq => (hhist.holds.pending m q hq).process p rest⟩
  have hstep := hheld.step hsend
  refine ⟨?_, fun m q hq => ?_, hstep.1, fun q hq => ?_, fun s f hf => ?_⟩
  · obtain ⟨b, hissues⟩ := hhist.issues
    rw [effects_process]
    exact ⟨b, hissues.trans (w.broker.issues_step p.cmd)⟩
  · rw [effects_process]
    rcases Broker.entry_step hq with hq | hq
    · exact List.mem_append_left _ (hhist.entries m q hq)
    · exact List.mem_append_right _ hq
  · rw [effects_process, transmitted_append] at hq
    rcases List.mem_append.mp hq with hq | hq
    · exact (hhist.handed q hq).process p rest
    · exact hstep.2 q hq
  · rw [effects_process] at hf
    rcases List.mem_append.mp hf with hf | hf
    · exact hhist.begun s f hf
    · -- the writer is in the table after the step, so it is that of a live session
      obtain ⟨id, hid⟩ := Broker.registered_step hf
      have hafter : Inv ident (w.process p rest) := h.step (.process hqueue)
      exact hafter.begun ((hafter.table id s).mp hid).2

theorem Inv.history_step {w' : World S D} (h : Inv ident w) (hhist : History w)
    (hstep : Step ident w w') : History w' := by
  cases hstep with
  | process hqueue => exact h.history_process hhist hqueue
  | up | accepted | rejected | down =>
    exact hhist.of_eq rfl rfl (phase_enter_ne_idle _ _ nofun)
  | forward | send | timeout => exact hhist.of_eq rfl rfl fun _ hphase => hphase

/-- **In every reachable state the broker's state is accounted for by its log.** -/
theorem history_of_reachable (hreach : (system S D ident).Reachable w) : History w := by
  refine hreach.invariant_over (fun _ => inv_of_reachable) ?_ fun _ _ => Inv.history_step
  rintro _ ⟨_, _, _, rfl⟩
  exact history_start _ _ _

end Session

end Aiomsg
