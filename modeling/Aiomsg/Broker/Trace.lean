import Aiomsg.Broker.Lemmas

/-!
# Reading off a run

The projections in which statements about runs of the broker are written: which messages the
application handed over, which messages were transmitted, and what went out on one writer.

A `transmit` mark is followed, within its step, by the frames of that transmission. `routings`
groups the effects of a step that way.

## The marks

Effects are read off in order, and each projection forgets the rest. Which frame belongs to which
transmission is the one thing that needs more than a filter, and it is why `transmit` leaves a mark.
-/

namespace Aiomsg

variable {C D : Type}

def Command.isClose : Command C D → Bool
  | .close => true
  | _ => false

/-- The message a command hands over. -/
def Command.send? : Command C D → Option (Option Identity × D)
  | .send identity data => some (identity, data)
  | _ => none

/-- The writer a command brings. -/
def Command.writer? : Command C D → Option C
  | .connectionUp _ writer _ => some writer
  | _ => none

/-- The messages handed over by the commands a run processes, in order. `Close` ends the run. -/
def sends (cmds : List (Command C D)) : List (Option Identity × D) :=
  (cmds.takeWhile fun cmd => !cmd.isClose).filterMap Command.send?

theorem sends_cons {cmd : Command C D} (h : cmd ≠ .close) (cmds : List (Command C D)) :
    sends (cmd :: cmds) = cmd.send?.toList ++ sends cmds := by
  cases cmd <;> first | rfl | exact absurd rfl h

/-- Whom a message is for, and what it is. -/
def Pending.message (p : Pending D) : Option Identity × D := (p.identity, p.data)

/-- The message of a transmission. -/
def Effect.transmitted? : Effect C D → Option (Pending D)
  | .transmit _ message => some message
  | _ => none

/-- A frame and the writer it is put on. -/
def Effect.frame? : Effect C D → Option (C × Envelope D)
  | .frame writer envelope => some (writer, envelope)
  | _ => none

/-- The transmissions among some effects, in order. -/
def transmitted (effects : List (Effect C D)) : List (Pending D) :=
  effects.filterMap Effect.transmitted?

/-- The frames among some effects, in order. -/
def frames (effects : List (Effect C D)) : List (C × Envelope D) :=
  effects.filterMap Effect.frame?

/-- The frames some effects put on one writer, in order. -/
def framesOn [DecidableEq C] (w : C) (effects : List (Effect C D)) : List (Envelope D) :=
  ((frames effects).filter fun f => f.1 = w).map Prod.snd

/-- The frames before the next `transmit` mark. -/
def burst (effects : List (Effect C D)) : List (C × Envelope D) :=
  frames (effects.takeWhile fun e => e.transmitted?.isNone)

/-- The transmissions of a step, each with the frames it put out. -/
def routings : List (Effect C D) → List (Pending D × List (C × Envelope D))
  | [] => []
  | .transmit _ message :: rest => (message, burst rest) :: routings rest
  | _ :: rest => routings rest

@[simp] theorem transmitted_append (es es' : List (Effect C D)) :
    transmitted (es ++ es') = transmitted es ++ transmitted es' :=
  List.filterMap_append

@[simp] theorem framesOn_append [DecidableEq C] (w : C) (es es' : List (Effect C D)) :
    framesOn w (es ++ es') = framesOn w es ++ framesOn w es' := by
  simp [framesOn, frames, List.filterMap_append]

theorem Effect.frame?_eq_some {e : Effect C D} {f : C × Envelope D} :
    e.frame? = some f ↔ e = .frame f.1 f.2 := by
  constructor
  · intro h
    cases e with
    | frame w envelope => rw [← Option.some.inj h]
    | recv | accept | arm | cancel | transmit => exact absurd h nofun
  · rintro rfl
    rfl

theorem mem_framesOn [DecidableEq C] {w : C} {f : Envelope D} {es : List (Effect C D)} :
    f ∈ framesOn w es ↔ .frame w f ∈ es := by
  simp [framesOn, frames, List.mem_filterMap, Effect.frame?_eq_some]

/-! ### Effects that are all frames -/

theorem transmitted_of_frames {es : List (Effect C D)} (h : ∀ e ∈ es, ∃ w f, e = .frame w f) :
    transmitted es = [] := by
  refine List.filterMap_eq_nil_iff.mpr fun e he => ?_
  obtain ⟨w, f, rfl⟩ := h e he
  rfl

theorem burst_append {es rest : List (Effect C D)} (h : ∀ e ∈ es, ∃ w f, e = .frame w f)
    (hrest : burst rest = []) : burst (es ++ rest) = frames es := by
  have hes : ∀ e ∈ es, e.transmitted?.isNone = true := by
    intro e he
    obtain ⟨w, f, rfl⟩ := h e he
    rfl
  rw [burst, List.takeWhile_append_of_pos hes, frames, List.filterMap_append]
  show frames es ++ burst rest = _
  rw [hrest, List.append_nil]

theorem routings_append {es rest : List (Effect C D)} (h : ∀ e ∈ es, ∃ w f, e = .frame w f) :
    routings (es ++ rest) = routings rest := by
  induction es with
  | nil => rfl
  | cons e es ih =>
    obtain ⟨w, f, rfl⟩ := h e List.mem_cons_self
    exact ih fun e he => h e (List.mem_cons_of_mem _ he)

/-! ### What the handlers transmit -/

namespace Broker

theorem frames_of_route (b : Broker C D) (target : Option Identity) (frame : Envelope D) :
    ∀ e ∈ (b.route target frame).2, ∃ w f, e = Effect.frame w f := by
  intro e he
  obtain ⟨-, w, -, rfl⟩ := mem_route he
  exact ⟨w, frame, rfl⟩

@[simp] theorem transmitted_route (b : Broker C D) (target : Option Identity) (frame : Envelope D) :
    transmitted (b.route target frame).2 = [] :=
  transmitted_of_frames (frames_of_route b target frame)

@[simp] theorem transmitted_transmit (b : Broker C D) (identity : Option Identity) (data : D)
    (retries : ℕ) :
    transmitted (b.transmit identity data retries).2 = [⟨identity, data, retries⟩] := by
  cases h : b.atLeastOnce identity with
  | true =>
    rw [transmit_of_atLeastOnce data retries h]
    exact congrArg (_ :: ·) (transmitted_route _ _ _)
  | false =>
    rw [transmit_of_atMostOnce data retries h]
    exact congrArg (_ :: ·) (transmitted_route _ _ _)

theorem transmitted_transmitAll (b : Broker C D) (msgs : List (Option Identity × D)) :
    (transmitted (b.transmitAll msgs).2).map Pending.message = msgs := by
  induction msgs generalizing b with
  | nil => rfl
  | cons msg rest ih =>
    rw [transmitAll, transmitted_append, List.map_append, transmitted_transmit, ih]
    rfl

end Broker

end Aiomsg
