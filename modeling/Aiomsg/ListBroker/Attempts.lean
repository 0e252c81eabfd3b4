import Aiomsg.ListBroker.InOrder

/-!
# How often a message is transmitted

A message is transmitted once, and then again for each of its `maxRetries` retries. A message whose
retry finds nobody connected goes back to the buffer, and from there it starts afresh. So the
transmissions of a message are bounded by how often it was handed over and how often it was put
back.

The argument is a budget. A message in the buffer has a transmission and all retries before it, one
that waits for its ACK its remaining retries; no operation adds to what was spent and what is left,
taken together, but handing a message over and putting it back.

## Scope

`which` chooses the messages that are counted, by whom they are for and what they are. It may choose
one payload or all. As messages have no name of their own, a bound on one message is the bound on
those that look like it.

## Main results

* `ListBroker.Within` — the budget
* `Served.attempts` — no message is transmitted more often, and no id goes out twice
-/

namespace Aiomsg

variable {κ C D : Type}

namespace ListBroker

section Budget

variable (which : Option Identity × D → Bool)

/-- The transmissions a message is worth, if it is one of those looked at. -/
def worth (message : Option Identity × D) (attempts : ℕ) : ℕ :=
  if which message then attempts else 0

/-- The retries some entries have left. -/
def retriesLeft (es : List (MsgId × InFlight D)) : ℕ :=
  (es.map fun e => worth which (messageOf e) e.2.retries).sum

/-- The transmissions some buffered messages have before them. -/
def buffered (messages : List (Option Identity × D)) : ℕ :=
  (messages.map fun m => worth which m (maxRetries + 1)).sum

/-- The transmissions that were made, and those that can still come. -/
def exposure (b : ListBroker κ C D) : ℕ :=
  b.transmittedMessages.countP which + retriesLeft which b.pending + buffered which b.buffer

/-- What may be transmitted. -/
def allowance (b : ListBroker κ C D) : ℕ := buffered which (b.handed ++ b.rebuffered)

/-- With what is in the hands of the operation, the budget is kept. -/
def Within (held : ℕ) (b : ListBroker κ C D) : Prop := exposure which b + held ≤ allowance which b

@[simp] theorem buffered_append (l l' : List (Option Identity × D)) :
    buffered which (l ++ l') = buffered which l + buffered which l' := by
  simp [buffered]

theorem buffered_singleton (m : Option Identity × D) :
    buffered which [m] = worth which m (maxRetries + 1) := by
  simp [buffered]

theorem buffered_eq_mul_countP (l : List (Option Identity × D)) :
    buffered which l = (maxRetries + 1) * l.countP which := by
  induction l with
  | nil => rfl
  | cons m rest ih =>
    rw [buffered, List.map_cons, List.sum_cons, ← buffered, ih, List.countP_cons, worth]
    split <;> simp [Nat.mul_add, Nat.add_comm]

theorem retriesLeft_perm {l l' : List (MsgId × InFlight D)} (h : l.Perm l') :
    retriesLeft which l = retriesLeft which l' :=
  (h.map _).sum_eq

theorem retriesLeft_cons (e : MsgId × InFlight D) (l : List (MsgId × InFlight D)) :
    retriesLeft which (e :: l) = worth which (messageOf e) e.2.retries + retriesLeft which l := by
  simp [retriesLeft]

theorem retriesLeft_append (l l' : List (MsgId × InFlight D)) :
    retriesLeft which (l ++ l') = retriesLeft which l + retriesLeft which l' := by
  simp [retriesLeft]

end Budget

/-! ### Operations -/

section Steps

variable {which : Option Identity × D → Bool} {P : Variant κ D} {env : Outside} {n held : ℕ}
  {b b' : ListBroker κ C D}

theorem exposure_of_routes (h : Routes b b') : exposure which b' = exposure which b := by
  rw [exposure, exposure, transmittedMessages, transmittedMessages, h.transmitted, h.pending,
    h.buffer]

theorem allowance_of_routes (h : Routes b b') : allowance which b' = allowance which b := by
  rw [allowance, allowance, h.handed, h.rebuffered]

theorem exposure_mark (b : ListBroker κ C D) (msgId : Option MsgId) (message : Pending D) :
    exposure which (b.mark msgId message) =
      exposure which b + worth which (message.identity, message.data) 1 := by
  rw [exposure, exposure, transmittedMessages, mark, List.map_append, List.countP_append, worth]
  simp only [List.map_cons, List.map_nil, List.countP_singleton, transmittedMessages]
  split <;> omega

/-- A transmission uses an attempt, and the message keeps its retries. -/
theorem Within.transmit (hfresh : env.Fresh n) (hnumbered : Numbered env b)
    {target : Option Identity} {data : D} {retries : ℕ}
    (hdrawn : (b.transmit P env target data retries).drawn ≤ n)
    (h : Within which (held + worth which (target, data) (retries + 1)) b) :
    Within which held (b.transmit P env target data retries) := by
  have hworth : worth which (target, data) (retries + 1) =
      worth which (target, data) 1 + worth which (target, data) retries := by
    unfold worth
    split <;> omega
  rw [Within] at h ⊢
  cases hreq : b.atLeastOnce target with
  | true =>
    have hroutes := routes_transmit_of_atLeastOnce P env hreq data retries
    rw [hroutes.drawn] at hdrawn
    have hperm := hnumbered.keep_perm (P := P) hfresh ⟨target, data, retries⟩ hdrawn
    have henter : exposure which (b.enter P env ⟨target, data, retries⟩) =
        exposure which b + worth which (target, data) 1 + worth which (target, data) retries := by
      have hleft := (retriesLeft_perm which hperm).trans (retriesLeft_cons which _ _)
      have hmark : exposure which (b.mark (some (env.msgId b.drawn)) ⟨target, data, retries⟩) =
          exposure which b + worth which (target, data) 1 := exposure_mark b _ _
      have hparts : exposure which (b.mark (some (env.msgId b.drawn)) ⟨target, data, retries⟩) =
          (b.enter P env ⟨target, data, retries⟩).transmittedMessages.countP which +
            retriesLeft which b.pending + buffered which b.buffer := rfl
      have henter : exposure which (b.enter P env ⟨target, data, retries⟩) =
          (b.enter P env ⟨target, data, retries⟩).transmittedMessages.countP which +
            retriesLeft which (b.enter P env ⟨target, data, retries⟩).pending +
              buffered which b.buffer := rfl
      rw [henter, hleft]
      show _ + (worth which (target, data) retries + _) + _ = _
      change _ = _ + worth which (target, data) 1 at hmark
      omega
    rw [exposure_of_routes hroutes, allowance_of_routes hroutes, henter]
    have hallow : allowance which (b.enter P env ⟨target, data, retries⟩) = allowance which b := rfl
    omega
  | false =>
    have hroutes := routes_transmit_of_atMostOnce P env hreq data retries
    rw [exposure_of_routes hroutes, allowance_of_routes hroutes, exposure_mark]
    have hallow : allowance which (b.mark none ⟨target, data, retries⟩) = allowance which b := rfl
    show _ + worth which (target, data) 1 + held ≤ _
    omega

/-- A message goes to the buffer with a transmission and all its retries. -/
theorem Within.buffer {message : Option Identity × D}
    (h : Within which (held + worth which message (maxRetries + 1)) b) :
    Within which held { b with buffer := b.buffer ++ [message] } := by
  rw [Within, exposure] at h ⊢
  show _ + _ + buffered which (b.buffer ++ [message]) + held ≤ _
  rw [buffered_append, buffered_singleton]
  show b.transmittedMessages.countP which + retriesLeft which b.pending + _ + held ≤
    allowance which b
  omega

/-- Nothing is spent on a message whose wait ends. -/
theorem Within.finish {message : Option Identity × D} {c : ℕ} (h : Within which (held + c) b)
    (fate : Fate) : Within which held (b.finish fate message) :=
  (Nat.add_le_add_left (Nat.le_add_right held c) _).trans h

theorem Within.send (hfresh : env.Fresh n) (hnumbered : Numbered env b)
    {target : Option Identity} {data : D} (hdrawn : (b.send P env target data).drawn ≤ n)
    (h : Within which (held + worth which (target, data) (maxRetries + 1)) b) :
    Within which held (b.send P env target data) := by
  rcases send_cases P env b target data with ⟨-, heq⟩ | ⟨-, heq⟩ | ⟨-, heq⟩
  · rw [heq]
    exact h.finish _
  · rw [heq]
    exact h.buffer
  · rw [heq] at hdrawn ⊢
    exact h.transmit hfresh hnumbered hdrawn

theorem Within.sendAll (hfresh : env.Fresh n) (hnumbered : Numbered env b)
    {messages : List (Option Identity × D)} (hdrawn : (b.sendAll P env messages).drawn ≤ n)
    (h : Within which (held + buffered which messages) b) :
    Within which held (b.sendAll P env messages) := by
  induction messages generalizing b with
  | nil => exact h
  | cons message rest ih =>
    have hcons : buffered which (message :: rest) =
        worth which message (maxRetries + 1) + buffered which rest := by simp [buffered]
    have hle := ((closed_drawn P env).sendAll (b.send P env message.1 message.2) rest).trans hdrawn
    have hstep := ((closed_numbered P hfresh).send b message.1 message.2).2 hle hnumbered
    refine ih hstep hdrawn (Within.send hfresh hnumbered hle ?_)
    rw [Nat.add_assoc, Nat.add_comm (buffered which rest), ← hcons]
    exact h

/-- A retry comes out of those its entry has left, unless the message starts afresh. -/
theorem Within.resend (hfresh : env.Fresh n) (hnumbered : Numbered env b) {p : InFlight D}
    (hdrawn : (b.resend P env p).drawn ≤ n)
    (h : Within which (held + worth which (p.identity, p.data) p.retries) b) :
    Within which held (b.resend P env p) := by
  rcases resend_cases P env b p with heq | ⟨-, heq⟩ | ⟨hpos, -, heq⟩
  · rw [heq]
    exact h.finish _
  · rw [heq]
    have hallow : allowance which { b with
          buffer := b.buffer ++ [(p.identity, p.data)]
          rebuffered := b.rebuffered ++ [(p.identity, p.data)] } =
        allowance which b + worth which (p.identity, p.data) (maxRetries + 1) := by
      rw [allowance, allowance, ← List.append_assoc, buffered_append, buffered_singleton]
    rw [Within, exposure] at h ⊢
    show b.transmittedMessages.countP which + retriesLeft which b.pending +
      buffered which (b.buffer ++ [(p.identity, p.data)]) + held ≤ _
    rw [hallow, buffered_append, buffered_singleton]
    omega
  · rw [heq] at hdrawn ⊢
    have hretries : p.retries - 1 + 1 = p.retries := Nat.succ_pred_eq_of_pos hpos
    exact Within.transmit hfresh hnumbered hdrawn (by rwa [hretries])

theorem Within.resendAll (hfresh : env.Fresh n) (hnumbered : Numbered env b)
    {es : List (MsgId × InFlight D)} (hdrawn : (b.resendAll P env es).drawn ≤ n)
    (h : Within which (held + retriesLeft which es) b) :
    Within which held (b.resendAll P env es) := by
  induction es generalizing b with
  | nil => exact h
  | cons e rest ih =>
    have hle := ((closed_drawn P env).resendAll (b.resend P env e.2) rest).trans hdrawn
    have hstep := ((closed_numbered P hfresh).resend b e.2).2 hle hnumbered
    refine ih hstep hdrawn (Within.resend hfresh hnumbered hle ?_)
    rw [Nat.add_assoc, Nat.add_comm (retriesLeft which rest)]
    rw [retriesLeft_cons] at h
    exact h

/-- Taking entries out, their retries are in the hands of the operation. -/
theorem Within.take (h : Within which held b) (due : MsgId × InFlight D → Bool) :
    Within which (held + retriesLeft which (b.pending.filter due))
      { b with pending := b.pending.filter fun e => ! due e } := by
  have hsplit := retriesLeft_perm which (List.filter_append_perm due b.pending)
  rw [retriesLeft_append] at hsplit
  rw [Within, exposure] at h ⊢
  show b.transmittedMessages.countP which + retriesLeft which (b.pending.filter fun e => ! due e) +
    buffered which b.buffer + _ ≤ allowance which b
  omega

/-- Every operation keeps to the budget. -/
theorem Within.step [DecidableEq C] (hfresh : env.Fresh n) (hnumbered : Numbered env b)
    {op : Op C D} (hdrawn : (b.step P env op).drawn ≤ n) (h : Within which 0 b) :
    Within which 0 (b.step P env op) := by
  cases op with
  | send target data =>
    have hallow : allowance which { b with handed := b.handed ++ [(target, data)] } =
        allowance which b + worth which (target, data) (maxRetries + 1) := by
      show buffered which (b.handed ++ [(target, data)] ++ b.rebuffered) =
        buffered which (b.handed ++ b.rebuffered) + _
      rw [buffered_append, buffered_append, buffered_append, buffered_singleton]
      omega
    have hhand : Within which (0 + worth which (target, data) (maxRetries + 1))
        { b with handed := b.handed ++ [(target, data)] } := by
      rw [Within, hallow]
      rw [Within] at h
      show exposure which b + _ ≤ _
      omega
    have hnumbered : Numbered env { b with handed := b.handed ++ [(target, data)] } :=
      hnumbered.of_sublist (List.Sublist.refl _) le_rfl
    show Within which 0 (b.hand P env target data)
    exact hhand.send hfresh hnumbered hdrawn
  | register identity conn =>
    rcases step_register_cases P env b identity conn with ⟨heq, -⟩ | ⟨heq, -⟩
    · rw [heq]
      exact h
    · rw [heq] at hdrawn ⊢
      have hconnect : Within which (0 + buffered which b.buffer) (b.connect identity conn) := by
        rw [Within, exposure] at h ⊢
        show b.transmittedMessages.countP which + retriesLeft which b.pending + 0 +
          (0 + buffered which b.buffer) ≤ allowance which b
        omega
      have hnumbered' : Numbered env (b.connect identity conn) :=
        hnumbered.of_sublist (List.Sublist.refl _) le_rfl
      exact hconnect.sendAll hfresh hnumbered' hdrawn
  | unregister conn => exact h
  | answer sender msgId =>
    have hroutes := routes_route P b (some sender) (.ack msgId)
    show exposure which (b.route P (some sender) (.ack msgId)) + 0 ≤
      allowance which (b.route P (some sender) (.ack msgId))
    rw [exposure_of_routes hroutes, allowance_of_routes hroutes]
    exact h
  | acknowledge msgId => exact (Nat.add_le_add_left (Nat.zero_le _) _).trans (h.take _)
  | expire due =>
    have hrest : Numbered env { b with pending := b.pending.filter fun e => ! due e } :=
      hnumbered.of_sublist List.filter_sublist le_rfl
    exact (h.take due).resendAll hfresh hrest hdrawn
  | close forget => exact (Nat.add_le_add_left (Nat.zero_le _) _).trans (h.take fun _ => forget)

/-- The budget is kept for good. -/
theorem within_run [DecidableEq C] (hfresh : env.Fresh n) (hbooks : Books env [] b)
    {ops : List (Op C D)} (hdrawn : (b.run P env ops).drawn ≤ n) (h : Within which 0 b) :
    Within which 0 (b.run P env ops) := by
  induction ops generalizing b with
  | nil => exact h
  | cons op rest ih =>
    have hle := (drawn_le_run P env (b.step P env op) rest).trans hdrawn
    exact ih (books_step P hfresh hbooks hle) hdrawn (h.step hfresh hbooks.numbered hle)

end Steps

/-! ### Ids -/

/-- The ids given out are those drawn. -/
theorem closed_ids (P : Variant κ D) (env : Outside) :
    Closed P env fun b b' : ListBroker κ C D =>
      b.transmitted.filterMap Prod.fst = (List.range b.drawn).map env.msgId →
        b'.transmitted.filterMap Prod.fst = (List.range b'.drawn).map env.msgId where
  refl _ := id
  trans h h' := h' ∘ h
  transmit b target data retries := by
    intro h
    cases hreq : b.atLeastOnce target with
    | true =>
      have hroutes := routes_transmit_of_atLeastOnce P env hreq data retries
      rw [hroutes.transmitted, hroutes.drawn]
      show (b.transmitted ++ [(some (env.msgId b.drawn), _)]).filterMap Prod.fst =
        (List.range (b.drawn + 1)).map env.msgId
      rw [List.filterMap_append, h, List.range_succ, List.map_append]
      rfl
    | false =>
      have hroutes := routes_transmit_of_atMostOnce P env hreq data retries
      rw [hroutes.transmitted, hroutes.drawn]
      show (b.transmitted ++ [(none, _)]).filterMap Prod.fst = _
      rw [List.filterMap_append, h]
      exact List.append_nil _
  buffer _ _ _ := id
  rebuffer _ _ _ := id
  finish _ _ _ := id

theorem ids_run [DecidableEq C] (P : Variant κ D) (env : Outside) {b : ListBroker κ C D}
    (h : b.transmitted.filterMap Prod.fst = (List.range b.drawn).map env.msgId)
    (ops : List (Op C D)) :
    (b.run P env ops).transmitted.filterMap Prod.fst =
      (List.range (b.run P env ops).drawn).map env.msgId := by
  have hids := closed_ids (κ := κ) (C := C) P env
  induction ops generalizing b with
  | nil => exact h
  | cons op rest ih =>
    refine ih ?_
    cases op with
    | send target data => exact hids.send { b with handed := b.handed ++ [(target, data)] } _ _ h
    | register identity conn =>
      rcases step_register_cases P env b identity conn with ⟨heq, -⟩ | ⟨heq, -⟩
      · rw [heq]
        exact h
      · rw [heq]
        exact hids.sendAll (b.connect identity conn) b.buffer h
    | unregister | acknowledge | close => exact h
    | answer sender msgId =>
      have hroutes := routes_route P b (some sender) (.ack msgId)
      show (b.route P (some sender) (.ack msgId)).transmitted.filterMap Prod.fst =
        (List.range (b.route P (some sender) (.ack msgId)).drawn).map env.msgId
      rw [hroutes.transmitted, hroutes.drawn]
      exact h
    | expire due =>
      exact hids.resendAll { b with pending := b.pending.filter fun e => ! due e } _ h

end ListBroker

namespace Served

open ListBroker

variable [DecidableEq C] {P : Variant κ D} {env : Outside}

/-- **No message is transmitted more often than its budget allows**, and, for one peer at a time, no
id goes out twice. -/
theorem attempts {sendMode : SendMode} {delivery : DeliveryGuarantee} {cursor : κ}
    {es : List (Event C D)} {w : Served κ C D}
    (hrun : (machine P env).run (new sendMode delivery cursor) es = some w)
    (hfresh : env.Fresh w.drawn) :
    (∀ which, w.transmittedMessages.countP which ≤
        (maxRetries + 1) *
          ((es.filterMap Event.send?).countP which + w.rebuffered.countP which)) ∧
      (∀ conn, ((messagesOf (framesFor conn w.out)).filterMap Prod.fst).Nodup) ∧
      (w.sendMode = .roundRobin → ((messagesOf w.out).filterMap Prod.fst).Nodup) := by
  have hsends : w.handed = es.filterMap Event.send? := (logs_of_run hrun).handed
  have houtgoing := (healthy_of_run hrun (healthy_new sendMode delivery cursor)).outgoing
  rw [← hsends]
  obtain ⟨ops, hops⟩ := exists_ops_of_run hrun
  have hids : ((ListBroker.stamps w.transmitted).filterMap Prod.fst).Nodup := by
    have heq : w.transmitted.filterMap Prod.fst = (List.range w.drawn).map env.msgId := by
      rw [hops]
      exact ids_run P env rfl ops
    rw [ListBroker.stamps, List.filterMap_map]
    show (w.transmitted.filterMap Prod.fst).Nodup
    rw [heq]
    refine List.nodup_range.map_on fun k hk k' hk' h => ?_
    exact hfresh (List.mem_range.mp hk) (List.mem_range.mp hk') h
  refine ⟨fun which => ?_, fun conn => ?_, fun hmode => ?_⟩
  · have hwithin : Within which 0 w.toListBroker := by
      rw [hops] at hfresh ⊢
      exact within_run hfresh (books_new env sendMode delivery cursor) le_rfl (Nat.zero_le _)
    rw [Within, exposure, allowance, buffered_eq_mul_countP which (w.handed ++ w.rebuffered),
      List.countP_append] at hwithin
    refine le_trans ?_ hwithin
    omega
  · exact hids.sublist ((houtgoing.single conn).filterMap _)
  · exact hids.sublist ((houtgoing.whole hmode).filterMap _)

theorem attempts_firstPeer :
    ∃ w, firstPeer .atLeastOnce = some w ∧ w.transmittedMessages.length = 3 ∧
      w.transmittedMessages.countP (fun m => m.2 = 5) ≤ (maxRetries + 1) * (1 + 0) :=
  ⟨_, rfl, rfl, (attempts (show firstPeer .atLeastOnce = some _ from rfl)
    (fresh_tellingIds.mono (by decide))).1 fun m => m.2 = 5⟩

end Served

end Aiomsg
