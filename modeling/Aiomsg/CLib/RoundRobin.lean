import Aiomsg.Broker.RoundRobin
import Aiomsg.CLib.Broker

/-!
# Fairness of the C broker

The moves of the broker of `c-lib/src/aiomsg.c`. A connection that goes leaves a hole in the array,
which the last one fills, and the cursor stays where it is; so a message may well go twice to one
peer across such a move, and not at all to another. Between two of them the law of
`Broker.RoundRobin` holds here too.

Once the socket shuts down, `broker_route` puts nothing on queues and leaves the cursor alone. That
is not a turn.

## Scope

What is served is a connection's queue in memory. The thread that empties it may be slow or gone,
and a queue has no bound. Pointers to connections are compared, as the source does, and are not used
again while one is in the array.

## Main results

* `turn_transmit` — an undirected message is one turn
* `exists_moves_run` — every run of the broker is a sequence of moves
* `round_robin_fair` — fairness of both brokers
-/

namespace Aiomsg

namespace CLib

open ArrayBroker

variable {C D : Type}

section Moves

variable [DecidableEq C]

/-- The moves of the broker. -/
inductive Moves : ArrayBroker C D → Move C D → ArrayBroker C D → Prop
  | join {b : ArrayBroker C D} {peer : Identity} (h : (b.find peer).isSome = false) (c : C) :
      Moves b .join (b.connect peer c)
  | leave {b : ArrayBroker C D} {c : C} (h : ∃ e ∈ b.conns, e.conn = c) :
      Moves b .leave (brokerDown b c)
  | turn {b : ArrayBroker C D} (h : b.mode = .roundRobin) {frame : Envelope D}
      {out : List (C × Envelope D)} (hout : (b.route false none frame).out = b.out ++ out) :
      Moves b (.turn out) (b.route false none frame)
  | toAll {b : ArrayBroker C D} {shutdown : Bool} {frame : Envelope D}
      (h : shutdown = true ∨ b.mode = .publish) {out : List (C × Envelope D)}
      (hout : (b.route shutdown none frame).out = b.out ++ out) :
      Moves b (.other out) (b.route shutdown none frame)
  | toOne {b : ArrayBroker C D} {shutdown : Bool} {identity : Identity} {frame : Envelope D}
      {out : List (C × Envelope D)}
      (hout : (b.route shutdown (some identity) frame).out = b.out ++ out) :
      Moves b (.other out) (b.route shutdown (some identity) frame)
  | other {b b' : ArrayBroker C D} (hmode : b'.mode = b.mode) (hconns : b'.conns = b.conns)
      (hcursor : b'.rrCursor = b.rrCursor) (hout : b'.out = b.out) : Moves b (.other []) b'

/-- The broker as a component that serves its connections in turn. -/
def rota (C D : Type) [DecidableEq C] : RoundRobin (ArrayBroker C D) (Move C D) C where
  step := Moves
  members b := b.conns.map Entry.conn
  cursor := rrCursor
  served := Move.served
  churns := Move.Churns

/-- **One undirected message is one turn**, as long as the socket is not shutting down: it is
entered among those that wait for an ACK, if it asks for one, and what is put on queues is what the
turn puts there. -/
theorem turn_transmit {b : ArrayBroker C D} (h : b.mode = .roundRobin) (resendMs : ℤ)
    {draw : Draw} (hdraw : draw.shutdown = false) (data : D) (retries : ℕ) :
    ∃ b' out, b'.conns = b.conns ∧ b'.rrCursor = b.rrCursor ∧ b'.out = b.out ∧
      Moves b' (.turn out) (brokerTransmit resendMs b draw none data retries) ∧
      (brokerTransmit resendMs b draw none data retries).out = b.out ++ out := by
  unfold brokerTransmit ArrayBroker.transmit
  rw [hdraw]
  split_ifs
  · let p : Waiting D := ⟨draw.msgId, none, data, retries, draw.now + resendMs⟩
    let b' : ArrayBroker C D := { b with pending := p :: b.pending }
    obtain ⟨cursor, out, heq⟩ := b'.exists_route_eq false none (.dataReq draw.msgId data)
    have hout := congrArg ArrayBroker.out heq
    exact ⟨b', out, rfl, rfl, rfl, .turn (b := b') h hout, hout⟩
  · obtain ⟨cursor, out, heq⟩ := b.exists_route_eq false none (.data data)
    have hout := congrArg ArrayBroker.out heq
    exact ⟨b, out, rfl, rfl, rfl, .turn h hout, hout⟩

/-! ### Runs are sequences of moves -/

/-- Some moves lead from one broker to another, and put on queues just what is there then and was
not before. -/
def Goes (b b' : ArrayBroker C D) : Prop :=
  ∃ ms, (rota C D).Run b ms b' ∧ b'.out = b.out ++ ms.flatMap Move.out

namespace Goes

theorem refl (b : ArrayBroker C D) : Goes b b := ⟨[], .nil b, (List.append_nil _).symm⟩

theorem of_move {b b' : ArrayBroker C D} {m : Move C D} (h : Moves b m b')
    (hout : b'.out = b.out ++ m.out) : Goes b b' :=
  ⟨[m], .single h, by simpa using hout⟩

theorem trans {b b' b'' : ArrayBroker C D} (h : Goes b b') (h' : Goes b' b'') : Goes b b'' := by
  obtain ⟨ms, hrun, hout⟩ := h
  obtain ⟨ms', hrun', hout'⟩ := h'
  refine ⟨ms ++ ms', hrun.append hrun', ?_⟩
  rw [hout', hout, List.flatMap_append, List.append_assoc]

theorem of_same {b b' : ArrayBroker C D} (hmode : b'.mode = b.mode) (hconns : b'.conns = b.conns)
    (hcursor : b'.rrCursor = b.rrCursor) (hout : b'.out = b.out) : Goes b b' :=
  of_move (.other hmode hconns hcursor hout) (hout.trans (List.append_nil _).symm)

theorem route (b : ArrayBroker C D) (shutdown : Bool) (identity : Option Identity)
    (frame : Envelope D) : Goes b (b.route shutdown identity frame) := by
  obtain ⟨cursor, out, heq⟩ := b.exists_route_eq shutdown identity frame
  have hout : (b.route shutdown identity frame).out = b.out ++ out := congrArg ArrayBroker.out heq
  cases identity with
  | some id => exact of_move (.toOne hout) hout
  | none =>
    cases hmode : b.mode with
    | publish => exact of_move (.toAll (.inr hmode) hout) hout
    | roundRobin =>
      cases shutdown with
      | true => exact of_move (.toAll (.inl rfl) hout) hout
      | false => exact of_move (.turn hmode hout) hout

theorem closed : Closed (Goes (C := C) (D := D)) := ⟨refl, trans, route, of_same⟩

theorem up (resendMs : ℤ) (b : ArrayBroker C D) (draws : ℕ → Draw) (peer : Identity) (c : C) :
    Goes b (brokerUp resendMs b draws peer c) := by
  unfold brokerUp
  cases hfind : (brokerFind b peer).isSome with
  | true => exact refl b
  | false =>
    have hjoin : Goes b (b.connect peer c) := of_move (.join hfind c) (List.append_nil _).symm
    exact hjoin.trans (closed.sendAll List.cons resendMs _ draws _)

theorem down (b : ArrayBroker C D) (c : C) : Goes b (brokerDown b c) := by
  obtain ⟨e, he, hperm, hdown⟩ | ⟨-, hdown⟩ := brokerDown_cases b c
  · have hmem : e ∈ b.conns := hperm.mem_iff.mpr List.mem_cons_self
    refine of_move (.leave ⟨e, hmem, he⟩) ?_
    rw [hdown]
    exact (List.append_nil _).symm
  · rw [hdown]
    exact refl b

/-- A step of the broker thread is a sequence of moves. -/
theorem step (resendMs : ℤ) {b b' : ArrayBroker C D} {input : Input C D}
    (h : (broker C D resendMs).step b input = some b') : Goes b b' := by
  cases input with
  | send draw identity data =>
    cases h
    exact closed.send List.cons resendMs b draw identity data
  | connUp draws peer c =>
    cases h
    exact up resendMs b draws peer c
  | connDown c =>
    cases h
    exact down b c
  | received shutdown identity envelope =>
    cases h
    exact closed_brokerReceived closed b shutdown identity envelope
  | close =>
    cases h
    exact refl b
  | sweep rounds now draws clock => exact closed_brokerSweep closed h

end Goes

/-- **Every run of the broker is a sequence of moves.** -/
theorem exists_moves_run (resendMs : ℤ) {b b' : ArrayBroker C D} {inputs : List (Input C D)}
    (h : (broker C D resendMs).run b inputs = some b') :
    ∃ ms, (rota C D).Run b ms b' ∧ b'.out = b.out ++ ms.flatMap Move.out :=
  Machine.invariant (I := Goes b)
    (fun _ _ _ hgoes hstep => hgoes.trans (Goes.step resendMs hstep)) h (Goes.refl b)

/-! ### The law -/

/-- No identity is registered twice. -/
def Distinct (b : ArrayBroker C D) : Prop := (b.conns.map Entry.identity).Nodup

theorem Distinct.move {b b' : ArrayBroker C D} {m : Move C D} (hb : Distinct b)
    (h : Moves b m b') : Distinct b' := by
  cases h with
  | @join peer h c =>
    have hfree : ∀ e ∈ b.conns, e.identity ≠ peer := by simpa [find] using h
    show ((b.conns ++ [Entry.mk peer c]).map Entry.identity).Nodup
    rw [List.map_append, List.map_singleton]
    refine List.Nodup.append hb (List.nodup_singleton peer) ?_
    rw [List.disjoint_singleton]
    intro hmem
    obtain ⟨e, he, hpeer⟩ := List.mem_map.mp hmem
    exact hfree e he hpeer
  | @leave c h =>
    obtain ⟨e, -, hperm, -⟩ | ⟨-, hdown⟩ := brokerDown_cases b c
    · exact (List.nodup_cons.mp ((hperm.map Entry.identity).nodup hb)).2
    · rw [hdown]
      exact hb
  | turn | toAll | toOne =>
    show (List.map Entry.identity (ArrayBroker.route ..).conns).Nodup
    rw [conns_route]
    exact hb
  | other hmode hconns =>
    show (b'.conns.map Entry.identity).Nodup
    rw [hconns]
    exact hb

/-- The broker keeps the law: the array of its connections is also the order of turns. -/
theorem rota_law : (rota C D).Law Distinct where
  keep := Distinct.move
  members := by
    intro b m b' _ h hquiet
    cases h with
    | join | leave => exact absurd trivial hquiet
    | turn | toAll | toOne =>
      show List.map Entry.conn (ArrayBroker.route ..).conns = _
      rw [conns_route]
      rfl
    | other hmode hconns =>
      show b'.conns.map Entry.conn = _
      rw [hconns]
      rfl
  idle := by
    intro b m b' h hquiet hserved
    cases h with
    | join | leave => exact absurd trivial hquiet
    | turn => cases hserved
    | @toAll shutdown frame h =>
      show (b.route shutdown none frame).rrCursor = b.rrCursor
      obtain rfl | hmode := h
      · rfl
      · cases shutdown <;> simp [ArrayBroker.route, hmode]
    | @toOne shutdown identity frame =>
      show (b.route shutdown (some identity) frame).rrCursor = b.rrCursor
      unfold ArrayBroker.route
      split
      · rfl
      · dsimp only
        split <;> rfl
    | other hmode hconns hcursor => exact hcursor
  turn := by
    intro b m b' out _ h hserved hmembers
    cases h with
    | @turn hmode frame out hout =>
      have hpos : 0 < b.conns.length := by
        rw [← List.length_map Entry.conn]
        exact List.length_pos_iff.mpr hmembers
      have hlt := Nat.mod_lt b.rrCursor.toNat hpos
      have hturn : b.inTurn = some b.conns[b.rrCursor.toNat % b.conns.length].conn := by
        rw [inTurn, List.getElem?_eq_getElem hlt]
        rfl
      have hroute : b.route false none frame = { b with rrCursor := b.rrCursor + 1 }.push
          b.conns[b.rrCursor.toNat % b.conns.length].conn frame := by
        simp [ArrayBroker.route, hmode, hturn]
      rw [hroute] at hout ⊢
      refine ⟨⟨b.conns[b.rrCursor.toNat % b.conns.length].conn, ?_, ?_⟩, rfl⟩
      · show (b.conns.map Entry.conn)[b.rrCursor.toNat % (b.conns.map Entry.conn).length]? = _
        rw [List.length_map, List.getElem?_map, List.getElem?_eq_getElem hlt]
        rfl
      · rw [← Option.some.inj hserved, ← List.append_cancel_left hout]
        rfl
    | join | leave | toAll | toOne | other => cases hserved

/-- In every state that any moves lead to, and in which somebody is connected, as many turns as
there are connections serve each of them once. -/
theorem rota_fairFrom {mode : SendMode} {delivery : DeliveryGuarantee} {ms : List (Move C D)}
    {b : ArrayBroker C D} (h : (rota C D).Run (.new mode delivery) ms b) (hconns : b.conns ≠ []) :
    Distinct b ∧ (rota C D).FairFrom b (b.conns.map Entry.conn) := by
  have hdistinct := rota_law.run h List.nodup_nil
  refine ⟨hdistinct, rota_law.fairFrom hdistinct fun hnil => hconns ?_⟩
  exact List.map_eq_nil_iff.mp hnil

end Moves

end CLib

/-- **Round-robin fairness.** Every run of either broker is a sequence of moves with the same frames
in the same order. In every state that moves lead to, as many turns as there are connected peers
serve each of them once, if nobody joins or leaves and the cursor does not wrap meanwhile. -/
theorem round_robin_fair {C D : Type} [DecidableEq C] (resendMs : ℤ) :
    (∀ sendMode delivery salt (cmds : List (Command C D)),
      ∃ ms, (Broker.rota C D).Run (.new sendMode delivery salt) ms
          ((Broker.new sendMode delivery salt).run cmds).1 ∧
        ms.flatMap Move.out = frames ((Broker.new sendMode delivery salt).run cmds).2) ∧
    (∀ sendMode delivery salt ms (b : Broker C D),
      (Broker.rota C D).Run (.new sendMode delivery salt) ms b → b.conns.entries ≠ [] →
        (Broker.rota C D).FairFrom b (b.conns.entries.map Sigma.snd)) ∧
    (∀ mode delivery inputs (b : ArrayBroker C D),
      (CLib.broker C D resendMs).run (.new mode delivery) inputs = some b →
        ∃ ms, (CLib.rota C D).Run (.new mode delivery) ms b ∧ b.out = ms.flatMap Move.out) ∧
    ∀ mode delivery ms (b : ArrayBroker C D),
      (CLib.rota C D).Run (.new mode delivery) ms b → b.conns ≠ [] →
        CLib.Distinct b ∧
          (CLib.rota C D).FairFrom b (b.conns.map ArrayBroker.Entry.conn) :=
  ⟨fun sendMode delivery salt cmds =>
      Broker.exists_moves_run (Broker.tidy_new sendMode delivery salt) cmds,
    fun _ _ _ _ _ h hconns => Broker.rota_fairFrom h hconns,
    fun _ _ _ _ h => CLib.exists_moves_run resendMs h,
    fun _ _ _ _ h hconns => CLib.rota_fairFrom h hconns⟩

/-- Two peers, of which the first leaves again when a third has joined. -/
def churned : List (CLib.Input ℕ ℕ) :=
  let draws : ℕ → Draw := fun _ => ⟨List.Vector.replicate 16 0, 0, false⟩
  [.connUp draws (List.Vector.replicate 16 1) 1, .connUp draws (List.Vector.replicate 16 2) 2,
    .send (draws 0) none 42, .connUp draws (List.Vector.replicate 16 3) 3, .connDown 1]

theorem churned_fair : ∃ b, (CLib.broker ℕ ℕ 5000).run (.new .roundRobin .atMostOnce) churned =
    some b ∧ (CLib.rota ℕ ℕ).FairFrom b [3, 2] := by
  obtain ⟨-, -, hmoves, hfair⟩ := round_robin_fair (C := ℕ) (D := ℕ) 5000
  refine ⟨_, rfl, ?_⟩
  obtain ⟨ms, hrun, -⟩ := hmoves .roundRobin .atMostOnce churned _ rfl
  exact (hfair _ _ ms _ hrun (List.cons_ne_nil _ _)).2

end Aiomsg
