import Aiomsg.Session.Basic

/-!
# Whose writer is in the table

`ConnectionDown` carries an identity and nothing that says which session sent it, and the broker
removes whatever writer it has under that identity. That this is always the writer of the session
that sent it is a fact about all the sessions together. It rests on three habits of a session: it
posts nothing after `ConnectionUp` until it has its answer, it posts nothing at all if the answer is
`false`, and `ConnectionDown` is the last thing it posts.

`Stage` says what these habits come to for one session: what it may have in the queue, given where
it stands and what the broker has told it. `Inv` joins the stages of all sessions with the broker's
table, and is kept by every step.

## Scope

Identities are whatever the peers say in their HELLO, and any number of sessions may have read the
same one. A session is accepted at most once in its life; a peer that comes back comes back as
another session.

## Main results

* `inv_of_reachable`
* `table_exact` — the table holds the writers of the live sessions, and nothing else
-/

namespace Aiomsg

namespace Session

variable {S D : Type}

/-! ### What the broker answers -/

section Answers

variable [DecidableEq S]

theorem answerTo_transmit {b : Broker S D} {identity : Option Identity} {data : D} {retries : ℕ}
    (s : S) {e : Effect S D} (h : e ∈ (b.transmit identity data retries).2) :
    answerTo s e = none := by
  obtain ⟨_, rfl⟩ | ⟨_, rfl⟩ | ⟨_, _, _, -, rfl, -⟩ := Broker.mem_transmit h <;> rfl

theorem answers_transmit (b : Broker S D) (identity : Option Identity) (data : D) (retries : ℕ)
    (s : S) : (b.transmit identity data retries).2.filterMap (answerTo s) = [] :=
  List.filterMap_eq_nil_iff.mpr fun _ he => answerTo_transmit s he

theorem answers_transmitAll (b : Broker S D) (msgs : List (Option Identity × D)) (s : S) :
    (b.transmitAll msgs).2.filterMap (answerTo s) = [] := by
  refine List.filterMap_eq_nil_iff.mpr fun e he => ?_
  obtain ⟨b', identity, data, -, he⟩ := Broker.mem_transmitAll he
  exact answerTo_transmit s he

/-- Only a `ConnectionUp` is answered. -/
theorem answers_step {b : Broker S D} {cmd : Command S D}
    (hup : ∀ identity writer accept, cmd ≠ .connectionUp identity writer accept) (s : S) :
    (b.step cmd).2.filterMap (answerTo s) = [] := by
  have hturn := b.turn_step cmd
  generalize b.step cmd = r at hturn
  cases hturn with
  | sent => exact answers_transmit _ _ _ _ s
  | resent => exact answers_transmit _ _ _ _ s
  | turnedAway | connected => exact absurd rfl (hup _ _ _)
  | @dataReq identity msgId payload =>
    refine List.filterMap_eq_nil_iff.mpr fun e he => ?_
    rcases List.mem_cons.mp he with rfl | he
    · rfl
    · obtain ⟨w, -, rfl⟩ := Broker.mem_sendTo he
      rfl
  | buffered | rebuffered | acked | gaveUp | data | ackIgnored | hello | heartbeat
  | timeoutIgnored | disconnected | close => rfl

/-- The answer to a `ConnectionUp` goes to the session that asked, and says whether its identity was
free. -/
theorem answers_up (b : Broker S D) (identity : Identity) (writer accept s : S) :
    (b.step (.connectionUp identity writer accept)).2.filterMap (answerTo s)
      = if accept = s then [decide (identity ∉ b.conns)] else [] := by
  have hturn := b.turn_step (.connectionUp identity writer accept)
  generalize b.step (.connectionUp identity writer accept) = r at hturn
  cases hturn with
  | turnedAway h => by_cases hs : accept = s <;> simp [answerTo, h, hs]
  | connected h =>
    rw [List.filterMap_cons, answers_transmitAll]
    by_cases hs : accept = s <;> simp [answerTo, h, hs]

end Answers

/-! ### One session -/

/-- What a session may have in the queue, given where it stands, what it was answered and whether
its end has been processed. -/
inductive Stage (ident : Identity) (s : S) : Phase → List (Command S D) → List Bool → Bool → Prop
  | idle : Stage ident s .idle [] [] false
  | asking : Stage ident s .waiting [.connectionUp ident s s] [] false
  | answered (ok : Bool) : Stage ident s .waiting [] [ok] false
  | serving (envelopes : List (Envelope D)) :
      Stage ident s .serving (envelopes.map (.received ident)) [true] false
  | leaving (envelopes : List (Envelope D)) :
      Stage ident s .over (envelopes.map (.received ident) ++ [.connectionDown ident]) [true] false
  | left : Stage ident s .over [] [true] true
  | refused : Stage ident s .over [] [false] false

/-- What the broker can find at the front of the queue: a `ConnectionUp` not answered yet, or
something of an accepted session whose end it has not processed. -/
inductive Taken (ident : Identity) (s : S) (phase : Phase) (rest : List (Command S D)) :
    Command S D → List Bool → Bool → Prop
  | up (hphase : phase = .waiting) (hrest : rest = []) :
      Taken ident s phase rest (.connectionUp ident s s) [] false
  | received (envelope : Envelope D) (hstage : Stage ident s phase rest [true] false) :
      Taken ident s phase rest (.received ident envelope) [true] false
  | down (hphase : phase = .over) (hrest : rest = []) :
      Taken ident s phase rest (.connectionDown ident) [true] false

theorem Stage.taken {ident : Identity} {s : S} {phase : Phase} {cmd : Command S D}
    {rest : List (Command S D)} {answers : List Bool} {downed : Bool}
    (h : Stage ident s phase (cmd :: rest) answers downed) :
    Taken ident s phase rest cmd answers downed := by
  generalize hcmds : cmd :: rest = cmds at h
  cases h with
  | idle | answered | left | refused => exact absurd hcmds (List.cons_ne_nil _ _)
  | asking =>
    obtain ⟨rfl, rfl⟩ := List.cons_eq_cons.mp hcmds
    exact .up rfl rfl
  | serving envelopes =>
    cases envelopes with
    | nil => exact absurd hcmds (List.cons_ne_nil _ _)
    | cons envelope envelopes =>
      obtain ⟨rfl, rfl⟩ := List.cons_eq_cons.mp hcmds
      exact .received envelope (.serving envelopes)
  | leaving envelopes =>
    cases envelopes with
    | nil =>
      obtain ⟨rfl, rfl⟩ := List.cons_eq_cons.mp hcmds
      exact .down rfl rfl
    | cons envelope envelopes =>
      obtain ⟨rfl, rfl⟩ := List.cons_eq_cons.mp hcmds
      exact .received envelope (.leaving envelopes)

theorem Stage.eq_of_idle {id : Identity} {s : S} {cmds : List (Command S D)}
    {answers : List Bool} {downed : Bool} (h : Stage id s .idle cmds answers downed) :
    answers = [] := by
  cases h with
  | idle => rfl

theorem Stage.eq_of_waiting {id : Identity} {s : S} {cmds : List (Command S D)}
    {answers : List Bool} {downed ok : Bool} (h : Stage id s .waiting cmds answers downed)
    (hanswer : answers.head? = some ok) : cmds = [] ∧ answers = [ok] ∧ downed = false := by
  cases h with
  | asking => exact absurd hanswer (Option.some_ne_none ok).symm
  | answered ok' => exact ⟨rfl, congrArg (fun ok => [ok]) (Option.some.inj hanswer), rfl⟩

theorem Stage.eq_of_serving {id : Identity} {s : S} {cmds : List (Command S D)}
    {answers : List Bool} {downed : Bool} (h : Stage id s .serving cmds answers downed) :
    ∃ envelopes : List (Envelope D), cmds = envelopes.map (.received id) ∧ answers = [true] ∧
      downed = false := by
  cases h with
  | serving envelopes => exact ⟨envelopes, rfl, rfl, rfl⟩

/-! ### All sessions and the table -/

variable [DecidableEq S]

namespace World

/-- A session the broker has accepted and whose `ConnectionDown` it has not processed. -/
def Live (w : World S D) (s : S) : Prop := true ∈ w.answers s ∧ w.downed s = false

theorem outstanding_post_self (w : World S D) (s : S) (cmd : Command S D) :
    (w.post (some s) cmd).outstanding s = w.outstanding s ++ [cmd] := by
  simp [outstanding, post]

theorem outstanding_post_of_ne (w : World S D) {origin : Option S} {s : S} (h : origin ≠ some s)
    (cmd : Command S D) : (w.post origin cmd).outstanding s = w.outstanding s := by
  simp [outstanding, post, h]

theorem outstanding_process_self {w : World S D} {s : S} {cmd : Command S D}
    {rest : List (Posted S D)} (h : w.queue = ⟨some s, cmd⟩ :: rest) :
    w.outstanding s = cmd :: (w.process ⟨some s, cmd⟩ rest).outstanding s := by
  simp [outstanding, process, h]

theorem outstanding_process_of_ne {w : World S D} {p : Posted S D} {rest : List (Posted S D)}
    (h : w.queue = p :: rest) {s : S} (hne : p.origin ≠ some s) :
    (w.process p rest).outstanding s = w.outstanding s := by
  simp [outstanding, process, h, hne]

theorem answers_process (w : World S D) (p : Posted S D) (rest : List (Posted S D)) (s : S) :
    (w.process p rest).answers s
      = w.answers s ++ (w.broker.step p.cmd).2.filterMap (answerTo s) := by
  simp [answers, process]

theorem downed_process (w : World S D) (p : Posted S D) (rest : List (Posted S D)) (s : S) :
    (w.process p rest).downed s = (w.downed s || p.isDownOf s) := by
  simp [downed, process]

theorem enter_eq_self (w : World S D) {s : S} {phase : Phase} (h : w.phase s = phase) :
    w.enter s phase = w := by
  rw [enter, ← h, Function.update_eq_self]

end World

/-- What holds in every reachable state. `stage` is about each session by itself, `table` joins
them: the table has a session under its identity exactly while the session is live. -/
structure Inv (ident : S → Identity) (w : World S D) : Prop where
  tidy : w.broker.Tidy
  /-- What nobody's session posted is a message or a timeout. -/
  others : ∀ p ∈ w.queue, p.origin = none →
    (∃ identity data, p.cmd = .send identity data) ∨ ∃ msgId, p.cmd = .resendTimeout msgId
  stage : ∀ s, Stage (ident s) s (w.phase s) (w.outstanding s) (w.answers s) (w.downed s)
  table : ∀ id s, w.broker.conns.lookup id = some s ↔ ident s = id ∧ w.Live s

variable {ident : S → Identity} {w : World S D}

theorem inv_start (sendMode : SendMode) (delivery : DeliveryGuarantee)
    (salt : List.Vector UInt8 8) : Inv ident (World.start sendMode delivery salt : World S D) where
  tidy := Broker.tidy_new _ _ _
  others := fun _ hp => absurd hp List.not_mem_nil
  stage := fun _ => .idle
  table := fun _ s =>
    ⟨fun h => absurd h (Option.some_ne_none s).symm, fun h => absurd h.2.1 List.not_mem_nil⟩

/-- A step that leaves the broker alone: what is to show is where the sessions stand after it. -/
theorem Inv.of_stage {w' : World S D} (h : Inv ident w) (hbroker : w'.broker = w.broker)
    (hlog : w'.log = w.log)
    (hothers : ∀ p ∈ w'.queue, p ∈ w.queue ∨ p.origin ≠ none ∨
      (∃ identity data, p.cmd = .send identity data) ∨ ∃ msgId, p.cmd = .resendTimeout msgId)
    (hstage : ∀ s, Stage (ident s) s (w'.phase s) (w'.outstanding s) (w.answers s) (w.downed s)) :
    Inv ident w' := by
  have hanswers : w'.answers = w.answers := by
    funext s
    rw [World.answers, hlog]
    rfl
  have hdowned : w'.downed = w.downed := by
    funext s
    rw [World.downed, hlog]
    rfl
  refine ⟨?_, fun p hp hnone => ?_, fun s => ?_, fun id s => ?_⟩
  · rw [hbroker]
    exact h.tidy
  · rcases hothers p hp with hp | hsome | hcmd
    · exact h.others p hp hnone
    · exact absurd hnone hsome
    · exact hcmd
  · rw [hanswers, hdowned]
    exact hstage s
  · rw [hbroker, World.Live, hanswers, hdowned]
    exact h.table id s

/-- A session moves on without posting anything. -/
theorem Inv.enter (h : Inv ident w) {s : S} {phase : Phase}
    (hstage : Stage (ident s) s phase (w.outstanding s) (w.answers s) (w.downed s)) :
    Inv ident (w.enter s phase) := by
  refine h.of_stage rfl rfl (fun p hp => .inl hp) fun s' => ?_
  show Stage _ _ (Function.update w.phase s phase s') (w.outstanding s') _ _
  by_cases hs : s' = s
  · subst hs
    rw [Function.update_self]
    exact hstage
  · rw [Function.update_of_ne hs]
    exact h.stage s'

/-- A session posts a command and moves on. -/
theorem Inv.post_enter (h : Inv ident w) {s : S} {phase : Phase} {cmd : Command S D}
    (hstage : Stage (ident s) s phase (w.outstanding s ++ [cmd]) (w.answers s) (w.downed s)) :
    Inv ident ((w.post (some s) cmd).enter s phase) := by
  refine h.of_stage rfl rfl (fun p hp => ?_) fun s' => ?_
  · rcases List.mem_append.mp hp with hp | hp
    · exact .inl hp
    · rw [List.mem_singleton.mp hp]
      exact .inr (.inl (Option.some_ne_none s))
  · show Stage _ _ (Function.update w.phase s phase s') ((w.post (some s) cmd).outstanding s') _ _
    by_cases hs : s' = s
    · subst hs
      rw [Function.update_self, World.outstanding_post_self]
      exact hstage
    · have hne : some s ≠ some s' := fun heq => hs (Option.some.inj heq).symm
      rw [Function.update_of_ne hs, World.outstanding_post_of_ne _ hne]
      exact h.stage s'

/-- The application or the timer posts a command. -/
theorem Inv.post_none (h : Inv ident w) {cmd : Command S D}
    (hcmd : (∃ identity data, cmd = .send identity data) ∨ ∃ msgId, cmd = .resendTimeout msgId) :
    Inv ident (w.post none cmd) := by
  refine h.of_stage rfl rfl (fun p hp => ?_) fun s => ?_
  · rcases List.mem_append.mp hp with hp | hp
    · exact .inl hp
    · rw [List.mem_singleton.mp hp]
      exact .inr (.inr hcmd)
  · rw [World.outstanding_post_of_ne _ (Option.some_ne_none s).symm]
    exact h.stage s

/-! ### The broker's turn -/

/-- The broker takes a command that neither opens nor closes a connection. -/
theorem Inv.process_traffic (h : Inv ident w) {p : Posted S D} {rest : List (Posted S D)}
    (hqueue : w.queue = p :: rest)
    (hup : ∀ identity writer accept, p.cmd ≠ .connectionUp identity writer accept)
    (hdown : ∀ identity, p.cmd ≠ .connectionDown identity)
    (hstage : ∀ s, p.origin = some s →
      Stage (ident s) s (w.phase s) ((w.process p rest).outstanding s) (w.answers s) (w.downed s)) :
    Inv ident (w.process p rest) := by
  have hanswers : ∀ s, (w.process p rest).answers s = w.answers s := fun s => by
    rw [World.answers_process, answers_step hup, List.append_nil]
  have hdowned : ∀ s, (w.process p rest).downed s = w.downed s := fun s => by
    have hnot : p.isDownOf s = false := by
      rw [Posted.isDownOf]
      split
      · exact absurd ‹_› (hdown _)
      · rfl
    rw [World.downed_process, hnot, Bool.or_false]
  refine ⟨h.tidy.step _, fun q hq => h.others q ?_, fun s => ?_, fun id s => ?_⟩
  · rw [hqueue]
    exact List.mem_cons_of_mem _ hq
  · rw [hanswers, hdowned]
    by_cases hs : p.origin = some s
    · exact hstage s hs
    · rw [World.outstanding_process_of_ne hqueue hs]
      exact h.stage s
  · have hconns : (w.process p rest).broker.conns = w.broker.conns := Broker.conns_step hup hdown
    rw [hconns, World.Live, hanswers, hdowned]
    exact h.table id s

theorem live_process_up (rest : List (Posted S D)) {s : S} (hdowned : w.downed s = false) (s' : S) :
    (w.process ⟨some s, .connectionUp (ident s) s s⟩ rest).Live s'
      ↔ w.Live s' ∨ s' = s ∧ ident s ∉ w.broker.conns := by
  rw [World.Live, World.answers_process, answers_up, World.downed_process]
  show _ ∧ (w.downed s' || false) = false ↔ _
  rw [Bool.or_false, World.Live, List.mem_append]
  by_cases hs : s = s'
  · subst hs
    simp [hdowned]
  · simp [hs, Ne.symm hs]

theorem isDownOf_connectionDown (s s' : S) (id : Identity) :
    Posted.isDownOf s' (⟨some s, .connectionDown id⟩ : Posted S D) = (some s == some s') := rfl

theorem live_process_down (rest : List (Posted S D)) (s s' : S) :
    (w.process ⟨some s, .connectionDown (ident s)⟩ rest).Live s' ↔ w.Live s' ∧ s' ≠ s := by
  have hnone : (w.broker.step (.connectionDown (ident s))).2.filterMap (answerTo s') = [] := rfl
  rw [World.Live, World.answers_process, World.downed_process, World.Live, hnone, List.append_nil]
  rw [isDownOf_connectionDown, Bool.or_eq_false_iff, beq_eq_false_iff_ne, ← and_assoc]
  refine and_congr_right fun _ => not_congr ⟨fun h => (Option.some.inj h).symm, fun h => h ▸ rfl⟩

/-- The broker takes a `ConnectionUp`: it enters the writer, or it turns the session away because
another one is live under the identity. -/
theorem Inv.process_up (h : Inv ident w) {s : S} {rest : List (Posted S D)}
    (hqueue : w.queue = ⟨some s, .connectionUp (ident s) s s⟩ :: rest)
    (hphase : w.phase s = .waiting) (hanswers : w.answers s = []) (hdowned : w.downed s = false)
    (hrest : (w.process ⟨some s, .connectionUp (ident s) s s⟩ rest).outstanding s = []) :
    Inv ident (w.process ⟨some s, .connectionUp (ident s) s s⟩ rest) := by
  refine ⟨h.tidy.step _, fun q hq => h.others q ?_, fun s' => ?_, fun id s' => ?_⟩
  · rw [hqueue]
    exact List.mem_cons_of_mem _ hq
  · have hdown : (w.process ⟨some s, .connectionUp (ident s) s s⟩ rest).downed s'
        = w.downed s' := by
      rw [World.downed_process]
      exact Bool.or_false _
    rw [World.answers_process, answers_up, hdown]
    by_cases hs : s = s'
    · subst hs
      rw [if_pos rfl, hrest, hanswers, hdowned]
      show Stage _ _ (w.phase s) _ _ _
      rw [hphase]
      exact .answered _
    · have hne : some s ≠ some s' := fun heq => hs (Option.some.inj heq)
      rw [if_neg hs, List.append_nil, World.outstanding_process_of_ne hqueue hne]
      exact h.stage s'
  · rw [live_process_up rest hdowned]
    show ((w.broker.step (.connectionUp (ident s) s s)).1.conns).lookup id = some s' ↔ _
    rw [Broker.conns_up]
    split_ifs with hmem
    · simp only [hmem, not_true_eq_false, and_false, or_false]
      exact h.table id s'
    · by_cases hid : id = ident s
      · subst hid
        -- nobody is live under the identity, since the table does not have it
        have hnotLive : ∀ s', ident s' = ident s → ¬ w.Live s' := by
          intro s' hs' hlive
          refine hmem (AList.lookup_isSome.mp ?_)
          rw [(h.table (ident s) s').mpr ⟨hs', hlive⟩]
          rfl
        rw [AList.lookup_insert, Option.some.injEq]
        constructor
        · rintro rfl
          exact ⟨rfl, .inr ⟨rfl, hmem⟩⟩
        · rintro ⟨hs', hlive | ⟨rfl, -⟩⟩
          · exact absurd hlive (hnotLive s' hs')
          · rfl
      · rw [AList.lookup_insert_ne hid, h.table]
        constructor
        · rintro ⟨hs', hlive⟩
          exact ⟨hs', .inl hlive⟩
        · rintro ⟨rfl, hlive | ⟨rfl, -⟩⟩
          · exact ⟨rfl, hlive⟩
          · exact absurd rfl hid

/-- The broker takes a `ConnectionDown`: the writer it removes is that of the session that sent
it. -/
theorem Inv.process_down (h : Inv ident w) {s : S} {rest : List (Posted S D)}
    (hqueue : w.queue = ⟨some s, .connectionDown (ident s)⟩ :: rest)
    (hphase : w.phase s = .over) (hanswers : w.answers s = [true]) (hdowned : w.downed s = false)
    (hrest : (w.process ⟨some s, .connectionDown (ident s)⟩ rest).outstanding s = []) :
    Inv ident (w.process ⟨some s, .connectionDown (ident s)⟩ rest) := by
  have hself : w.broker.conns.lookup (ident s) = some s := by
    refine (h.table (ident s) s).mpr ⟨rfl, ?_, hdowned⟩
    rw [hanswers]
    exact List.mem_singleton_self true
  refine ⟨h.tidy.step _, fun q hq => h.others q ?_, fun s' => ?_, fun id s' => ?_⟩
  · rw [hqueue]
    exact List.mem_cons_of_mem _ hq
  · have hsame : (w.process ⟨some s, .connectionDown (ident s)⟩ rest).answers s'
        = w.answers s' := by
      rw [World.answers_process]
      exact List.append_nil _
    rw [hsame, World.downed_process]
    by_cases hs : s = s'
    · subst hs
      rw [hrest, hanswers, isDownOf_connectionDown, beq_self_eq_true, Bool.or_true]
      show Stage _ _ (w.phase s) _ _ _
      rw [hphase]
      exact .left
    · have hne : some s ≠ some s' := fun heq => hs (Option.some.inj heq)
      rw [isDownOf_connectionDown, beq_eq_false_iff_ne.mpr hne, Bool.or_false,
        World.outstanding_process_of_ne hqueue hne]
      exact h.stage s'
  · rw [live_process_down]
    show (w.broker.conns.erase (ident s)).lookup id = some s' ↔ _
    by_cases hid : id = ident s
    · subst hid
      rw [AList.lookup_erase]
      constructor
      · exact fun hnone => absurd hnone.symm (Option.some_ne_none s')
      · rintro ⟨hs', hlive, hne⟩
        have hother := (h.table (ident s) s').mpr ⟨hs', hlive⟩
        exact absurd (Option.some.inj (hother.symm.trans hself)) hne
    · rw [AList.lookup_erase_ne hid, h.table]
      constructor
      · rintro ⟨hs', hlive⟩
        exact ⟨hs', hlive, fun heq => hid (heq ▸ hs').symm⟩
      · rintro ⟨hs', hlive, -⟩
        exact ⟨hs', hlive⟩

/-! ### Every step -/

theorem Inv.process (h : Inv ident w) {p : Posted S D} {rest : List (Posted S D)}
    (hqueue : w.queue = p :: rest) : Inv ident (w.process p rest) := by
  obtain ⟨origin, cmd⟩ := p
  cases origin with
  | none =>
    obtain ⟨_, _, rfl⟩ | ⟨_, rfl⟩ := h.others ⟨none, cmd⟩ (hqueue ▸ List.mem_cons_self) rfl
    · exact h.process_traffic hqueue nofun nofun nofun
    · exact h.process_traffic hqueue nofun nofun nofun
  | some s =>
    have hstage := h.stage s
    rw [World.outstanding_process_self hqueue] at hstage
    have htaken := hstage.taken
    generalize hanswers : w.answers s = answers at htaken
    generalize hdowned : w.downed s = downed at htaken
    cases htaken with
    | up hphase hrest => exact h.process_up hqueue hphase hanswers hdowned hrest
    | down hphase hrest => exact h.process_down hqueue hphase hanswers hdowned hrest
    | received envelope hafter =>
      refine h.process_traffic hqueue nofun nofun fun s' hs' => ?_
      obtain rfl := Option.some.inj hs'
      rw [hanswers, hdowned]
      exact hafter

/-- Every step keeps the invariant. -/
theorem Inv.step {w' : World S D} (h : Inv ident w) (hstep : Step ident w w') : Inv ident w' := by
  cases hstep with
  | @up s hphase =>
    have hstage := h.stage s
    rw [hphase] at hstage
    refine h.post_enter ?_
    generalize w.outstanding s = cmds at hstage ⊢
    generalize w.answers s = answers at hstage ⊢
    generalize w.downed s = downed at hstage ⊢
    cases hstage
    exact .asking
  | @accepted s hphase hanswer =>
    obtain ⟨hcmds, hanswers, hdowned⟩ := (hphase ▸ h.stage s).eq_of_waiting hanswer
    refine h.enter ?_
    rw [hcmds, hanswers, hdowned]
    exact .serving []
  | @rejected s hphase hanswer =>
    obtain ⟨hcmds, hanswers, hdowned⟩ := (hphase ▸ h.stage s).eq_of_waiting hanswer
    refine h.enter ?_
    rw [hcmds, hanswers, hdowned]
    exact .refused
  | @forward s envelope hphase =>
    obtain ⟨envelopes, hcmds, hanswers, hdowned⟩ := (hphase ▸ h.stage s).eq_of_serving
    rw [← World.enter_eq_self (w.post _ _) hphase]
    refine h.post_enter ?_
    have hmore : w.outstanding s ++ [.received (ident s) envelope]
        = (envelopes ++ [envelope]).map (.received (ident s)) := by
      rw [hcmds, List.map_append]
      rfl
    rw [hmore, hanswers, hdowned]
    exact .serving _
  | @down s hphase =>
    obtain ⟨envelopes, hcmds, hanswers, hdowned⟩ := (hphase ▸ h.stage s).eq_of_serving
    refine h.post_enter ?_
    rw [hcmds, hanswers, hdowned]
    exact .leaving envelopes
  | send identity data => exact h.post_none (.inl ⟨identity, data, rfl⟩)
  | timeout msgId => exact h.post_none (.inr ⟨msgId, rfl⟩)
  | process hqueue => exact h.process hqueue

theorem inv_of_reachable (h : (system S D ident).Reachable w) : Inv ident w :=
  h.invariant (fun _ ⟨_, _, _, hw⟩ => hw ▸ inv_start _ _ _) fun _ _ hinv hstep => hinv.step hstep

/-- **A session with anything but its `ConnectionUp` at the front is in the table**, under the
identity the command carries. -/
theorem Inv.front (h : Inv ident w) {s : S} {cmd : Command S D} {rest : List (Posted S D)}
    (hqueue : w.queue = ⟨some s, cmd⟩ :: rest)
    (hup : ∀ identity writer accept, cmd ≠ .connectionUp identity writer accept) :
    w.broker.conns.lookup (ident s) = some s ∧
      ((∃ envelope, cmd = .received (ident s) envelope) ∨ cmd = .connectionDown (ident s)) := by
  have hstage := h.stage s
  rw [World.outstanding_process_self hqueue] at hstage
  have htaken := hstage.taken
  generalize hanswers : w.answers s = answers at htaken
  generalize hdowned : w.downed s = downed at htaken
  have hself : answers = [true] → downed = false → w.broker.conns.lookup (ident s) = some s := by
    rintro rfl rfl
    refine (h.table (ident s) s).mpr ⟨rfl, ?_, hdowned⟩
    rw [hanswers]
    exact List.mem_singleton_self true
  cases htaken with
  | up => exact absurd rfl (hup _ _ _)
  | received envelope _ => exact ⟨hself rfl rfl, .inl ⟨envelope, rfl⟩⟩
  | down => exact ⟨hself rfl rfl, .inr rfl⟩

/-! ### The table, in every reachable state -/

/-- Turning a session away changes nothing. -/
theorem step_of_rejected {b : Broker S D} {cmd : Command S D} {s : S}
    (h : .accept s false ∈ (b.step cmd).2) : (b.step cmd).1 = b := by
  by_cases hup : ∃ identity writer accept, cmd = .connectionUp identity writer accept
  · obtain ⟨identity, writer, accept, rfl⟩ := hup
    have hturn := b.turn_step (.connectionUp identity writer accept)
    generalize b.step (.connectionUp identity writer accept) = r at hturn h
    cases hturn with
    | turnedAway => rfl
    | connected hmem =>
      rcases List.mem_cons.mp h with heq | he
      · exact absurd heq (by simp)
      · obtain ⟨b', identity', data, -, he⟩ := Broker.mem_transmitAll he
        have hnone := answerTo_transmit s he
        simp [answerTo] at hnone
  · have hnone := List.filterMap_eq_nil_iff.mp
      (answers_step (b := b) (fun i w a hcmd => hup ⟨i, w, a, hcmd⟩) s) _ h
    simp [answerTo] at hnone

/-- **The connection table is exact.** In every reachable state of a broker and its sessions,
`order` lists the connected identities without duplicates, and the writer under an identity is that
of the one session of that identity which was accepted and whose `ConnectionDown` has not been
processed. So a rejected `ConnectionUp` changes nothing, and a `ConnectionDown` removes the writer
of the session that sent it and no other. -/
theorem table_exact (hreach : (system S D ident).Reachable w) :
    w.broker.order.Nodup ∧
    (∀ id, id ∈ w.broker.order ↔ id ∈ w.broker.conns.keys) ∧
    (∀ id s, w.broker.conns.lookup id = some s ↔ ident s = id ∧ w.Live s) ∧
    (∀ id, w.broker.conns.lookup id = none ↔ ∀ s, ident s = id → ¬ w.Live s) ∧
    (∀ s s', w.Live s → w.Live s' → ident s = ident s' → s = s') ∧
    (∀ p rest s, w.queue = p :: rest → .accept s false ∈ (w.broker.step p.cmd).2 →
      (w.process p rest).broker = w.broker) ∧
    ∀ s id rest, w.queue = ⟨some s, .connectionDown id⟩ :: rest →
      w.broker.conns.lookup id = some s ∧
      ∀ id' s', s' ≠ s → w.broker.conns.lookup id' = some s' →
        (w.process ⟨some s, .connectionDown id⟩ rest).broker.conns.lookup id' = some s' := by
  have h := inv_of_reachable hreach
  refine ⟨h.tidy.nodup_order, h.tidy.mem_order, h.table, fun id => ?_, fun s s' hs hs' hid => ?_,
    fun p rest s _ hfalse => step_of_rejected hfalse, fun s id rest hqueue => ?_⟩
  · rw [Option.eq_none_iff_forall_ne_some]
    exact forall_congr' fun s => by rw [Ne, h.table, not_and]
  · have hone := (h.table (ident s') s).mpr ⟨hid, hs⟩
    have hother := (h.table (ident s') s').mpr ⟨rfl, hs'⟩
    exact Option.some.inj (hone.symm.trans hother)
  · obtain ⟨hself, ⟨_, hcmd⟩ | hcmd⟩ := h.front hqueue nofun
    · exact absurd hcmd nofun
    · obtain rfl : id = ident s := Command.connectionDown.inj hcmd
      refine ⟨hself, fun id' s' hne hs' => ?_⟩
      have hid : id' ≠ ident s := by
        rintro rfl
        exact hne (Option.some.inj (hs'.symm.trans hself))
      show (w.broker.conns.erase (ident s)).lookup id' = some s'
      rw [AList.lookup_erase_ne hid]
      exact hs'

/-- Two sessions of one peer, both processed: the first is in the table, the second turned away. -/
def twice : World Bool Unit :=
  let peer : Identity := List.Vector.replicate 16 1
  let first : Posted Bool Unit := ⟨some true, .connectionUp peer true true⟩
  let second : Posted Bool Unit := ⟨some false, .connectionUp peer false false⟩
  let w := World.start .roundRobin .atLeastOnce (List.Vector.replicate 8 0)
  let w := (w.post first.origin first.cmd).enter true .waiting
  let w := (w.post second.origin second.cmd).enter false .waiting
  (w.process first [second]).process second []

theorem twice_table :
    twice.broker.conns.lookup (List.Vector.replicate 16 1) = some true ∧ twice.Live true ∧
      ¬ twice.Live false := by
  have hreach : (system Bool Unit fun _ => List.Vector.replicate 16 1).Reachable twice :=
    .step (.step (.step (.step (.init ⟨_, _, _, rfl⟩) (.up rfl)) (.up rfl)) (.process rfl))
      (.process rfl)
  obtain ⟨-, -, htable, -, hone, -, -⟩ := table_exact hreach
  have hlive : twice.Live true := ((htable (List.Vector.replicate 16 1) true).mp rfl).2
  exact ⟨rfl, hlive, fun h => Bool.noConfusion (hone true false hlive h rfl)⟩

end Session

end Aiomsg
