import Aiomsg.Broker.Trace
import Aiomsg.Lib.RoundRobin

/-!
# Fairness of the round-robin order

One command may route many messages: a first connection flushes the whole buffer. So that a window
may begin and end anywhere, a run is cut into moves. Each call of `route` is a move of its own, and
so is each change of the connections; whatever else a handler does, it leaves these alone.

The order lists each connected identity once, after any joins and leaves, so a turn always finds a
writer.

## Scope

What is fair is the sending side. A frame on a writer may still be lost with the connection, and a
peer that is slow is served as often as one that is not. The cursor is a 64-bit counter that is
reduced modulo the number of peers; fairness is stated for windows in which it does not wrap.

## Main definitions

* `Move` — what a broker does, with the frames it puts on writers by it
* `Broker.Moves` — the moves of the broker
* `Broker.rota` — the broker as a component that serves its writers in turn

## Main results

* `Broker.turn_transmit` — an undirected message is one turn
* `Broker.exists_moves_run` — every run of the broker is a sequence of moves
* `Broker.rota_fairFrom`
-/

namespace Aiomsg

/-- What a broker does, with what it puts on writers. -/
inductive Move (C D : Type) where
  | join
  | leave
  /-- An undirected message, to the peer whose turn it is. -/
  | turn (out : List (C × Envelope D))
  | other (out : List (C × Envelope D))

namespace Move

variable {C D : Type}

def out : Move C D → List (C × Envelope D)
  | join | leave => []
  | turn out | other out => out

/-- The writers that a turn serves. -/
def served : Move C D → Option (List C)
  | turn out => some (out.map Prod.fst)
  | join | leave | other _ => none

/-- The move changes who is connected. -/
def Churns : Move C D → Prop
  | join | leave => True
  | turn _ | other _ => False

end Move

namespace Broker

variable {C D : Type}

/-- The moves of a broker. One command is a list of them, and what the list is need not be known: a
statement about all sequences of moves is one about all runs. -/
inductive Moves : Broker C D → Move C D → Broker C D → Prop
  | join {b : Broker C D} {identity : Identity} (h : identity ∉ b.conns) (writer : C) :
      Moves b .join (b.connect identity writer)
  | leave {b : Broker C D} {identity : Identity} (h : identity ∈ b.conns) :
      Moves b .leave (b.handleDown identity)
  | turn {b : Broker C D} (h : b.sendMode = .roundRobin) (frame : Envelope D) :
      Moves b (.turn (frames (b.route none frame).2)) (b.route none frame).1
  | toAll {b : Broker C D} (h : b.sendMode = .publish) (frame : Envelope D) :
      Moves b (.other (frames (b.route none frame).2)) (b.route none frame).1
  | toOne (b : Broker C D) (identity : Identity) (frame : Envelope D) :
      Moves b (.other (frames (b.route (some identity) frame).2)) (b.route (some identity) frame).1
  | other {b b' : Broker C D} (h : SameTable b b') (hcursor : b'.rrCursor = b.rrCursor) :
      Moves b (.other []) b'

/-- The broker as a component that serves its writers in turn. -/
def rota (C D : Type) : RoundRobin (Broker C D) (Move C D) C where
  step := Moves
  members b := b.order.filterMap b.conns.lookup
  cursor := rrCursor
  served := Move.served
  churns := Move.Churns

/-- **One undirected message is one turn.** A round-robin broker that transmits it enters it among
those that wait for an ACK, if it asks for one, and then takes one turn, which puts out all that the
transmission does. -/
theorem turn_transmit {b : Broker C D} (h : b.sendMode = .roundRobin) (data : D) (retries : ℕ) :
    ∃ b', SameTable b b' ∧ b'.rrCursor = b.rrCursor ∧
      Moves b' (.turn (frames (b.transmit none data retries).2))
        (b.transmit none data retries).1 := by
  cases hack : b.atLeastOnce none with
  | true =>
    rw [transmit_of_atLeastOnce data retries hack]
    refine ⟨b.enter ⟨none, data, retries⟩, ⟨rfl, rfl, rfl, rfl, rfl⟩, rfl, ?_⟩
    exact .turn (b := b.enter ⟨none, data, retries⟩) h (.dataReq (msgIdOf b.salt b.nextId) data)
  | false =>
    rw [transmit_of_atMostOnce data retries hack]
    exact ⟨b, ⟨rfl, rfl, rfl, rfl, rfl⟩, rfl, .turn h (.data data)⟩

/-! ### Runs are sequences of moves -/

/-- Some moves lead from one broker to another and put just these frames on writers. -/
def Goes (b : Broker C D) (out : List (C × Envelope D)) (b' : Broker C D) : Prop :=
  ∃ ms, (rota C D).Run b ms b' ∧ ms.flatMap Move.out = out

namespace Goes

theorem refl (b : Broker C D) : Goes b [] b := ⟨[], .nil b, rfl⟩

theorem of_move {b b' : Broker C D} {m : Move C D} (h : Moves b m b') : Goes b m.out b' :=
  ⟨[m], .single h, List.append_nil _⟩

theorem trans {b b' b'' : Broker C D} {out out' : List (C × Envelope D)} (h : Goes b out b')
    (h' : Goes b' out' b'') : Goes b (out ++ out') b'' := by
  obtain ⟨ms, hrun, rfl⟩ := h
  obtain ⟨ms', hrun', rfl⟩ := h'
  exact ⟨ms ++ ms', hrun.append hrun', List.flatMap_append⟩

theorem of_sameTable {b b' : Broker C D} (h : SameTable b b') (hcursor : b'.rrCursor = b.rrCursor) :
    Goes b [] b' :=
  of_move (.other h hcursor)

theorem route (b : Broker C D) (target : Option Identity) (frame : Envelope D) :
    Goes b (frames (b.route target frame).2) (b.route target frame).1 := by
  cases target with
  | some identity => exact of_move (.toOne b identity frame)
  | none =>
    cases hmode : b.sendMode with
    | publish => exact of_move (.toAll hmode frame)
    | roundRobin => exact of_move (.turn hmode frame)

theorem transmit (b : Broker C D) (identity : Option Identity) (data : D) (retries : ℕ) :
    Goes b (frames (b.transmit identity data retries).2)
      (b.transmit identity data retries).1 := by
  cases h : b.atLeastOnce identity with
  | true =>
    rw [transmit_of_atLeastOnce data retries h]
    have henter : Goes b [] (b.enter ⟨identity, data, retries⟩) :=
      of_sameTable ⟨rfl, rfl, rfl, rfl, rfl⟩ rfl
    exact henter.trans (route _ _ _)
  | false =>
    rw [transmit_of_atMostOnce data retries h]
    exact route _ _ _

theorem transmitAll (b : Broker C D) (msgs : List (Option Identity × D)) :
    Goes b (frames (b.transmitAll msgs).2) (b.transmitAll msgs).1 := by
  induction msgs generalizing b with
  | nil => exact refl b
  | cons msg rest ih =>
    obtain ⟨identity, data⟩ := msg
    have happend : frames (b.transmitAll ((identity, data) :: rest)).2 =
        frames (b.transmit identity data maxRetries).2 ++
          frames ((b.transmit identity data maxRetries).1.transmitAll rest).2 :=
      List.filterMap_append
    rw [happend]
    exact (transmit b identity data maxRetries).trans (ih _)

theorem forget (b : Broker C D) (msgId : MsgId) : Goes b [] (b.forget msgId) :=
  of_sameTable (sameTable_forget b msgId) rfl

/-- That a peer is gone which is not connected changes nothing. -/
theorem handleDown_of_notMem {b : Broker C D} (hb : Tidy b) {identity : Identity}
    (h : identity ∉ b.conns) : b.handleDown identity = b := by
  have hconns : b.conns.erase identity = b.conns := AList.ext (List.kerase_of_notMem_keys h)
  have horder : b.order.erase identity = b.order :=
    List.erase_of_not_mem fun hmem => h ((hb.mem_order identity).mp hmem)
  rw [handleDown, hconns, horder]

/-- A step of the broker is a sequence of moves. -/
theorem step {b : Broker C D} (hb : Tidy b) (cmd : Command C D) :
    Goes b (frames (b.step cmd).2) (b.step cmd).1 := by
  have hturn := b.turn_step cmd
  generalize b.step cmd = r at hturn
  cases hturn with
  | buffered => exact of_sameTable ⟨rfl, rfl, rfl, rfl, rfl⟩ rfl
  | sent => exact transmit b _ _ _
  | connected h => exact (of_move (.join h _)).trans (transmitAll _ _)
  | @disconnected identity =>
    by_cases h : identity ∈ b.conns
    · exact of_move (.leave h)
    · rw [handleDown_of_notMem hb h]
      exact refl b
  | dataReq => exact route b (some _) _
  | acked | gaveUp => exact forget b _
  | rebuffered => exact of_sameTable ⟨rfl, rfl, rfl, rfl, rfl⟩ rfl
  | resent => exact (forget b _).trans (transmit _ _ _ _)
  | turnedAway | data | ackIgnored | hello | heartbeat | timeoutIgnored | close => exact refl b

end Goes

/-- **Every run of the broker is a sequence of moves.** -/
theorem exists_moves_run {b : Broker C D} (hb : Tidy b) (cmds : List (Command C D)) :
    ∃ ms, (rota C D).Run b ms (b.run cmds).1 ∧
      ms.flatMap Move.out = frames (b.run cmds).2 := by
  induction cmds generalizing b with
  | nil => exact Goes.refl b
  | cons cmd rest ih =>
    by_cases hclose : cmd = .close
    · subst hclose
      exact Goes.refl b
    · have happend : frames (b.run (cmd :: rest)).2 =
          frames (b.step cmd).2 ++ frames ((b.step cmd).1.run rest).2 := by
        rw [run_cons hclose]
        exact List.filterMap_append
      rw [happend, run_cons hclose]
      exact (Goes.step hb cmd).trans (ih (hb.step cmd))

/-! ### The order lists whoever is connected -/

/-- What holds of the order after any moves. The buffer does not matter. -/
def Listed (b : Broker C D) : Prop := Tidy { b with buffer := [] }

theorem listed_new (sendMode : SendMode) (delivery : DeliveryGuarantee)
    (salt : List.Vector UInt8 8) : Listed (new sendMode delivery salt : Broker C D) :=
  tidy_new sendMode delivery salt

theorem Listed.of_sameTable {b b' : Broker C D} (hb : Listed b) (h : SameTable b b') : Listed b' :=
  Tidy.of_sameTable hb ⟨h.conns, h.order, h.sendMode, h.delivery, h.salt⟩ rfl

theorem Listed.move {b b' : Broker C D} {m : Move C D} (hb : Listed b) (h : Moves b m b') :
    Listed b' := by
  cases h with
  | join h writer => exact Tidy.connect (b := { b with buffer := [] }) hb h writer
  | leave => exact Tidy.handleDown (b := { b with buffer := [] }) hb _
  | turn | toAll | toOne => exact hb.of_sameTable (sameTable_route _ _ _)
  | other h => exact hb.of_sameTable h

/-- Every identity in the order has its writer. -/
theorem Listed.map_members {b : Broker C D} (hb : Listed b) :
    ((rota C D).members b).map some = b.order.map b.conns.lookup := by
  have hall : ∀ id ∈ b.order, (b.conns.lookup id).isSome := fun id hid =>
    AList.lookup_isSome.mpr ((hb.mem_order id).mp hid)
  have hsome : ∀ writer ∈ b.order.map b.conns.lookup, writer.isSome := by simpa using hall
  show (b.order.filterMap b.conns.lookup).map some = _
  rw [List.map_filterMap_some_eq_filter_map_isSome, List.filter_eq_self.mpr hsome]

theorem Listed.length_members {b : Broker C D} (hb : Listed b) :
    ((rota C D).members b).length = b.order.length := by
  have h := congrArg List.length hb.map_members
  rwa [List.length_map, List.length_map] at h

/-- The members are the registered writers. -/
theorem Listed.members_perm {b : Broker C D} (hb : Listed b) :
    ((rota C D).members b).Perm (b.conns.entries.map Sigma.snd) := by
  have horder : b.order.Perm b.conns.keys :=
    (List.perm_ext_iff_of_nodup hb.nodup_order b.conns.nodupKeys).mpr hb.mem_order
  have hwriters : b.conns.keys.filterMap b.conns.lookup = b.conns.entries.map Sigma.snd := by
    show (b.conns.entries.map Sigma.fst).filterMap b.conns.lookup = _
    rw [List.filterMap_map, ← List.filterMap_eq_map]
    refine List.filterMap_congr fun e he => ?_
    exact AList.mem_lookup_iff.mpr he
  exact hwriters ▸ horder.filterMap _

/-- What a turn does when somebody is connected. -/
theorem Listed.turn {b : Broker C D} (hb : Listed b) (h : b.sendMode = .roundRobin)
    (frame : Envelope D) (hmembers : (rota C D).members b ≠ []) :
    (∃ w, ((rota C D).members b)[b.rrCursor.toNat % ((rota C D).members b).length]? = some w ∧
      frames (b.route none frame).2 = [(w, frame)]) ∧
      (b.route none frame).1.rrCursor = b.rrCursor + 1 := by
  have hpos : 0 < b.order.length := hb.length_members ▸ List.length_pos_iff.mpr hmembers
  have hlt := Nat.mod_lt b.rrCursor.toNat hpos
  have hmem : b.order[b.rrCursor.toNat % b.order.length] ∈ b.conns :=
    (hb.mem_order _).mp (List.getElem_mem hlt)
  obtain ⟨w, hw⟩ := Option.isSome_iff_exists.mp (AList.lookup_isSome.mpr hmem)
  have hplace := congrArg (·[b.rrCursor.toNat % b.order.length]?) hb.map_members
  simp only [List.getElem?_map, List.getElem?_eq_getElem hlt, Option.map_some] at hplace
  have hempty : b.order.isEmpty = false := by
    rw [List.isEmpty_eq_false_iff]
    exact List.ne_nil_of_length_pos hpos
  rw [hb.length_members]
  refine ⟨⟨w, ?_, ?_⟩, ?_⟩
  · rw [hw] at hplace
    exact Option.map_injective (Option.some_injective C) hplace
  · simp [route, h, nextRoundRobin, hempty, List.getElem?_eq_getElem hlt, sendTo, hw, frames]
    rfl
  · simp [route, h, nextRoundRobin, hempty, List.getElem?_eq_getElem hlt]

theorem Moves.sameTable {b b' : Broker C D} {m : Move C D} (h : Moves b m b')
    (hquiet : ¬ m.Churns) : SameTable b b' := by
  cases h with
  | join | leave => exact absurd trivial hquiet
  | turn | toAll | toOne => exact sameTable_route _ _ _
  | other h => exact h

/-- The broker keeps the law. -/
theorem rota_law : (rota C D).Law Listed where
  keep := Listed.move
  members := by
    intro b m b' hb h hquiet
    have htable := h.sameTable hquiet
    show b'.order.filterMap b'.conns.lookup = b.order.filterMap b.conns.lookup
    rw [htable.order, htable.conns]
  idle := by
    intro b m b' h hquiet hserved
    cases h with
    | join | leave => exact absurd trivial hquiet
    | turn => cases hserved
    | toAll hmode frame =>
      show (b.route none frame).1.rrCursor = b.rrCursor
      simp only [route, hmode]
    | toOne => rfl
    | other h hcursor => exact hcursor
  turn := by
    intro b m b' out hb h hserved hmembers
    cases h with
    | turn hmode frame =>
      obtain ⟨⟨w, hw, hframes⟩, hcursor⟩ := hb.turn hmode frame hmembers
      refine ⟨⟨w, hw, ?_⟩, hcursor⟩
      rw [← Option.some.inj hserved, hframes]
      rfl
    | join | leave | toAll | toOne | other => cases hserved

/-- **Fairness.** In every state that any moves lead to, and in which somebody is connected, as many
turns as there are peers serve each registered writer once. -/
theorem rota_fairFrom {sendMode : SendMode} {delivery : DeliveryGuarantee}
    {salt : List.Vector UInt8 8} {ms : List (Move C D)} {b : Broker C D}
    (h : (rota C D).Run (new sendMode delivery salt) ms b) (hconns : b.conns.entries ≠ []) :
    (rota C D).FairFrom b (b.conns.entries.map Sigma.snd) := by
  have hlisted := rota_law.run h (listed_new sendMode delivery salt)
  have hmembers : (rota C D).members b ≠ [] := by
    intro hnil
    have hperm := hlisted.members_perm
    rw [hnil, List.nil_perm, List.map_eq_nil_iff] at hperm
    exact hconns hperm
  exact (rota_law.fairFrom hlisted hmembers).of_perm hlisted.members_perm

end Broker

end Aiomsg
