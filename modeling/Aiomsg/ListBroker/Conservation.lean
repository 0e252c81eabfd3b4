import Aiomsg.ListBroker.Basic

/-!
# No message gets lost in a broker, and none is made up

At any time a message that the application has handed over is in one place: in the buffer, among
those that wait for an ACK, among those sent without asking for one, or its wait has ended. So it
goes on for as long as the socket lives, however connections come and go, and whatever expires.

While an operation works, some messages are in its hands: those just taken out of the buffer, or the
entries just taken out of the waiting ones. `Books` has them as a parameter.

Ids are random bytes. That none of those drawn so far was drawn twice is a hypothesis: two waiting
messages under one id would leave one entry in the ports that keep them in a map.

## Scope

Messages are counted with what they are and whom they are for, up to order. Two equal messages are
two. What has ended is kept for the statement; the brokers forget it.

## Main results

* `Books` — the invariant, with what is in the hands of an operation
* `books_run`
-/

namespace Aiomsg

/-- No id is drawn twice in the first `n` draws. -/
def Outside.Fresh (env : Outside) (n : ℕ) : Prop := Set.InjOn env.msgId (Set.Iio n)

theorem Outside.Fresh.mono {env : Outside} {m n : ℕ} (h : env.Fresh n) (hle : m ≤ n) :
    env.Fresh m :=
  Set.InjOn.mono (fun _ hk => lt_of_lt_of_le hk hle) h

namespace ListBroker

variable {κ C D : Type}

/-- The messages sent without asking for an ACK. -/
def sentOnce (b : ListBroker κ C D) : List (Option Identity × D) :=
  (b.transmitted.filter fun t => t.1.isNone).map fun t => (t.2.identity, t.2.data)

/-- The places where a message can be. -/
def accounted (b : ListBroker κ C D) : List (Option Identity × D) :=
  b.buffer ++ b.pending.map messageOf ++ b.sentOnce ++ b.ended.map Prod.snd

/-- The waiting entries go by the numbers of their ids. -/
structure Numbered (env : Outside) (b : ListBroker κ C D) : Prop where
  msgId_eq : ∀ e ∈ b.pending, e.1 = env.msgId e.2.draw
  draw_lt : ∀ e ∈ b.pending, e.2.draw < b.drawn
  nodup : (b.pending.map fun e => e.2.draw).Nodup

/-- Every message handed over is accounted for, or in the hands of the operation. `numbered` is
there for the ports that look an entry up by its id: under distinct ids taking one out takes that
one out. -/
structure Books (env : Outside) (held : List (Option Identity × D)) (b : ListBroker κ C D) :
    Prop where
  numbered : Numbered env b
  perm : (held ++ b.accounted).Perm b.handed

theorem books_new (env : Outside) (sendMode : SendMode) (delivery : DeliveryGuarantee)
    (cursor : κ) : Books env [] (new sendMode delivery cursor : ListBroker κ C D) where
  numbered := ⟨by simp [new], by simp [new], by simp [new]⟩
  perm := by simp [new, accounted, sentOnce]

/-! ### Entries -/

/-- Entries that stay are numbered as they were. -/
theorem Numbered.of_sublist {env : Outside} {b b' : ListBroker κ C D} (h : Numbered env b)
    (hpending : b'.pending.Sublist b.pending) (hdrawn : b.drawn ≤ b'.drawn) : Numbered env b' where
  msgId_eq e he := h.msgId_eq e (hpending.subset he)
  draw_lt e he := (h.draw_lt e (hpending.subset he)).trans_le hdrawn
  nodup := h.nodup.sublist (hpending.map _)

/-- The waiting entries have ids of their own. -/
theorem Numbered.nodup_msgId {env : Outside} {b : ListBroker κ C D} (h : Numbered env b)
    (hfresh : env.Fresh b.drawn) : (b.pending.map Prod.fst).Nodup := by
  have hmap : b.pending.map Prod.fst = (b.pending.map fun e => e.2.draw).map env.msgId := by
    rw [List.map_map]
    exact List.map_congr_left h.msgId_eq
  rw [hmap]
  refine h.nodup.map_on fun k hk k' hk' heq => ?_
  obtain ⟨e, he, rfl⟩ := List.mem_map.mp hk
  obtain ⟨e', he', rfl⟩ := List.mem_map.mp hk'
  exact hfresh (h.draw_lt e he) (h.draw_lt e' he') heq

/-- Sending draws ids, and never takes one back. -/
theorem closed_drawn (P : Variant κ D) (env : Outside) :
    Closed P env fun b b' : ListBroker κ C D => b.drawn ≤ b'.drawn where
  refl _ := le_rfl
  trans := le_trans
  transmit b target data retries := by
    cases hreq : b.atLeastOnce target with
    | true =>
      rw [(routes_transmit_of_atLeastOnce P env hreq data retries).drawn]
      exact Nat.le_succ _
    | false => exact (routes_transmit_of_atMostOnce P env hreq data retries).drawn.ge
  buffer _ _ _ := le_rfl
  rebuffer _ _ _ := le_rfl
  finish _ _ _ := le_rfl

theorem drawn_le_step [DecidableEq C] (P : Variant κ D) (env : Outside) (b : ListBroker κ C D)
    (op : Op C D) : b.drawn ≤ (b.step P env op).drawn := by
  have hdrawn := closed_drawn (κ := κ) (C := C) P env
  cases op with
  | send target data => exact hdrawn.send { b with handed := b.handed ++ [(target, data)] } _ _
  | register identity conn =>
    rcases step_register_cases P env b identity conn with ⟨heq, -⟩ | ⟨heq, -⟩
    · rw [heq]
    · rw [heq]
      exact hdrawn.sendAll (b.connect identity conn) b.buffer
  | unregister | acknowledge | close => exact le_rfl
  | answer sender msgId => exact (routes_route P b (some sender) (.ack msgId)).drawn.ge
  | expire due =>
    exact hdrawn.resendAll { b with pending := b.pending.filter fun e => ! due e } _

theorem drawn_le_run [DecidableEq C] (P : Variant κ D) (env : Outside) (b : ListBroker κ C D)
    (ops : List (Op C D)) : b.drawn ≤ (b.run P env ops).drawn := by
  induction ops generalizing b with
  | nil => exact le_rfl
  | cons op rest ih => exact (drawn_le_step P env b op).trans (ih _)

section Entering

variable {P : Variant κ D} {env : Outside} {n : ℕ} (hfresh : env.Fresh n)
  {b : ListBroker κ C D} (h : Numbered env b) (message : Pending D) (hdrawn : b.drawn < n)
include hfresh h hdrawn

/-- An entry joins those that wait, wherever the port puts it. -/
theorem Numbered.keep_perm :
    (b.enter P env message).pending.Perm (b.entryOf P env message :: b.pending) := by
  refine P.keep_perm _ _ fun e he heq => ?_
  have hlt := h.draw_lt e he
  have hdraw : e.2.draw = b.drawn :=
    hfresh (hlt.trans hdrawn) hdrawn ((h.msgId_eq e he).symm.trans heq)
  exact hlt.ne hdraw

theorem Numbered.enter : Numbered env (b.enter P env message) := by
  have hperm := h.keep_perm (P := P) hfresh message hdrawn
  refine ⟨fun e he => ?_, fun e he => ?_, ?_⟩
  · rcases List.mem_cons.mp (hperm.mem_iff.mp he) with rfl | hmem
    · rfl
    · exact h.msgId_eq e hmem
  · rcases List.mem_cons.mp (hperm.mem_iff.mp he) with rfl | hmem
    · exact Nat.lt_succ_self _
    · exact (h.draw_lt e hmem).trans (Nat.lt_succ_self _)
  · refine (hperm.map _).nodup_iff.mpr (List.nodup_cons.mpr ⟨?_, h.nodup⟩)
    intro hmem
    obtain ⟨e, he, hdraw⟩ := List.mem_map.mp hmem
    exact (h.draw_lt e he).ne hdraw

end Entering

/-- Sending keeps the entries numbered. -/
theorem closed_numbered (P : Variant κ D) {env : Outside} {n : ℕ} (hfresh : env.Fresh n) :
    Closed P env fun b b' : ListBroker κ C D =>
      b.drawn ≤ b'.drawn ∧ (b'.drawn ≤ n → Numbered env b → Numbered env b') where
  refl _ := ⟨le_rfl, fun _ h => h⟩
  trans h h' := ⟨h.1.trans h'.1, fun hn hb => h'.2 hn (h.2 (h'.1.trans hn) hb)⟩
  transmit b target data retries := by
    refine ⟨(closed_drawn P env).transmit b target data retries, fun hn h => ?_⟩
    cases hreq : b.atLeastOnce target with
    | true =>
      have hroutes := routes_transmit_of_atLeastOnce P env hreq data retries
      rw [hroutes.drawn] at hn
      exact (h.enter hfresh _ hn).of_sublist (by rw [hroutes.pending]) hroutes.drawn.ge
    | false =>
      have hroutes := routes_transmit_of_atMostOnce P env hreq data retries
      exact h.of_sublist (by rw [hroutes.pending]; rfl) hroutes.drawn.ge
  buffer _ _ _ := ⟨le_rfl, fun _ h => h.of_sublist (List.Sublist.refl _) le_rfl⟩
  rebuffer _ _ _ := ⟨le_rfl, fun _ h => h.of_sublist (List.Sublist.refl _) le_rfl⟩
  finish _ _ _ := ⟨le_rfl, fun _ h => h.of_sublist (List.Sublist.refl _) le_rfl⟩

/-! ### Operations -/

/-- Routing changes none of the books. -/
theorem Books.of_routes {env : Outside} {held : List (Option Identity × D)}
    {b b' : ListBroker κ C D} (h : Books env held b) (hroutes : Routes b b') :
    Books env held b' where
  numbered := h.numbered.of_sublist (by rw [hroutes.pending]) hroutes.drawn.ge
  perm := by
    have haccounted : b'.accounted = b.accounted := by
      rw [accounted, accounted, sentOnce, sentOnce, hroutes.buffer, hroutes.pending,
        hroutes.transmitted, hroutes.ended]
    rw [haccounted, hroutes.handed]
    exact h.perm

section Steps

variable (P : Variant κ D) {env : Outside} {n : ℕ} (hfresh : env.Fresh n)
  {held : List (Option Identity × D)} {b : ListBroker κ C D}

theorem sentOnce_mark_some (b : ListBroker κ C D) (msgId : MsgId) (message : Pending D) :
    (b.mark (some msgId) message).sentOnce = b.sentOnce := by
  rw [sentOnce, mark, List.filter_append, List.map_append]
  exact List.append_nil _

theorem sentOnce_mark_none (b : ListBroker κ C D) (message : Pending D) :
    (b.mark none message).sentOnce = b.sentOnce ++ [(message.identity, message.data)] := by
  rw [sentOnce, mark, List.filter_append, List.map_append]
  rfl

include hfresh in
/-- A message that is transmitted waits for its ACK, or counts as sent. -/
theorem books_transmit {target : Option Identity} {data : D} {retries : ℕ}
    (h : Books env ((target, data) :: held) b)
    (hdrawn : (b.transmit P env target data retries).drawn ≤ n) :
    Books env held (b.transmit P env target data retries) := by
  cases hreq : b.atLeastOnce target with
  | true =>
    have hlt : b.drawn < n := by
      rw [(routes_transmit_of_atLeastOnce P env hreq data retries).drawn] at hdrawn
      exact hdrawn
    have hpending :=
      (h.numbered.keep_perm (P := P) hfresh ⟨target, data, retries⟩ hlt).map messageOf
    have haccounted : (b.enter P env ⟨target, data, retries⟩).accounted.Perm
        ((target, data) :: b.accounted) := by
      rw [accounted, accounted, List.append_assoc, List.append_assoc, List.append_assoc,
        List.append_assoc]
      refine (List.Perm.append_left b.buffer (hpending.append ?_)).trans List.perm_middle
      rw [show (b.enter P env ⟨target, data, retries⟩).sentOnce = b.sentOnce from
        sentOnce_mark_some b _ _]
      exact List.Perm.refl _
    have henter : Books env held (b.enter P env ⟨target, data, retries⟩) :=
      ⟨h.numbered.enter hfresh _ hlt,
        ((List.Perm.append_left held haccounted).trans List.perm_middle).trans h.perm⟩
    exact henter.of_routes (routes_transmit_of_atLeastOnce P env hreq data retries)
  | false =>
    have haccounted : (b.mark none ⟨target, data, retries⟩).accounted.Perm
        ((target, data) :: b.accounted) := by
      rw [accounted, sentOnce_mark_none, ← List.append_assoc, List.append_assoc _ [_] _]
      exact List.perm_middle
    have hmark : Books env held (b.mark none ⟨target, data, retries⟩) :=
      ⟨h.numbered.of_sublist (List.Sublist.refl _) le_rfl,
        ((List.Perm.append_left held haccounted).trans List.perm_middle).trans h.perm⟩
    exact hmark.of_routes (routes_transmit_of_atMostOnce P env hreq data retries)

/-- A message whose wait ends is no longer in the hands of the operation. -/
theorem books_finish {message : Option Identity × D} (h : Books env (message :: held) b)
    (fate : Fate) : Books env held (b.finish fate message) where
  numbered := h.numbered.of_sublist (List.Sublist.refl _) le_rfl
  perm := by
    have haccounted : (b.finish fate message).accounted.Perm (message :: b.accounted) := by
      rw [accounted, finish, List.map_append, ← List.append_assoc]
      exact List.perm_append_singleton message b.accounted
    exact ((List.Perm.append_left held haccounted).trans List.perm_middle).trans h.perm

/-- Nor is one that is put in the buffer. -/
theorem Books.of_buffer {message : Option Identity × D} (h : Books env (message :: held) b)
    {b' : ListBroker κ C D} (hbuffer : b'.buffer = b.buffer ++ [message])
    (hpending : b'.pending = b.pending) (hdrawn : b'.drawn = b.drawn)
    (htransmitted : b'.transmitted = b.transmitted) (hended : b'.ended = b.ended)
    (hhanded : b'.handed = b.handed) : Books env held b' where
  numbered := h.numbered.of_sublist (by rw [hpending]) hdrawn.ge
  perm := by
    have haccounted : b'.accounted.Perm (message :: b.accounted) := by
      rw [accounted, accounted, sentOnce, sentOnce, hbuffer, hpending, htransmitted, hended]
      simp only [List.append_assoc, List.singleton_append]
      exact List.perm_middle
    rw [hhanded]
    exact ((List.Perm.append_left held haccounted).trans List.perm_middle).trans h.perm

include hfresh

theorem books_send {target : Option Identity} {data : D}
    (h : Books env ((target, data) :: held) b) (hdrawn : (b.send P env target data).drawn ≤ n) :
    Books env held (b.send P env target data) := by
  rcases send_cases P env b target data with ⟨-, heq⟩ | ⟨-, heq⟩ | ⟨-, heq⟩
  · rw [heq]
    exact books_finish h _
  · rw [heq]
    exact h.of_buffer rfl rfl rfl rfl rfl rfl
  · rw [heq] at hdrawn ⊢
    exact books_transmit P hfresh h hdrawn

theorem books_sendAll (messages : List (Option Identity × D))
    (h : Books env (messages ++ held) b) (hdrawn : (b.sendAll P env messages).drawn ≤ n) :
    Books env held (b.sendAll P env messages) := by
  induction messages generalizing b with
  | nil => exact h
  | cons message rest ih =>
    have hrest := (closed_drawn P env).sendAll (b.send P env message.1 message.2) rest
    exact ih (books_send P hfresh h (hrest.trans hdrawn)) hdrawn

theorem books_resend {p : InFlight D} (h : Books env ((p.identity, p.data) :: held) b)
    (hdrawn : (b.resend P env p).drawn ≤ n) : Books env held (b.resend P env p) := by
  rcases resend_cases P env b p with heq | ⟨-, heq⟩ | ⟨-, -, heq⟩
  · rw [heq]
    exact books_finish h _
  · rw [heq]
    exact h.of_buffer rfl rfl rfl rfl rfl rfl
  · rw [heq] at hdrawn ⊢
    exact books_transmit P hfresh h hdrawn

theorem books_resendAll (es : List (MsgId × InFlight D))
    (h : Books env (es.map messageOf ++ held) b) (hdrawn : (b.resendAll P env es).drawn ≤ n) :
    Books env held (b.resendAll P env es) := by
  induction es generalizing b with
  | nil => exact h
  | cons e rest ih =>
    have hrest := (closed_drawn P env).resendAll (b.resend P env e.2) rest
    exact ih (books_resend P hfresh h (hrest.trans hdrawn)) hdrawn

omit hfresh

/-- Entries that are taken out are in the hands of the operation. -/
theorem Books.take (h : Books env held b) (which : MsgId × InFlight D → Bool) :
    Books env ((b.pending.filter which).map messageOf ++ held)
      { b with pending := b.pending.filter fun e => ! which e } where
  numbered := h.numbered.of_sublist List.filter_sublist le_rfl
  perm := by
    refine List.Perm.trans ?_ h.perm
    have hsplit := (List.filter_append_perm which b.pending).map messageOf
    rw [List.map_append] at hsplit
    rw [List.append_assoc]
    refine List.perm_append_comm_assoc _ _ _ |>.trans (List.Perm.append_left held ?_)
    rw [accounted, accounted, List.append_assoc, List.append_assoc, List.append_assoc,
      List.append_assoc]
    refine (List.perm_append_comm_assoc _ _ _).trans (List.Perm.append_left b.buffer ?_)
    rw [← List.append_assoc]
    exact hsplit.append_right _

/-- Entries settled for good are among the messages whose wait has ended. -/
theorem books_settle (h : Books env held b) (fate : Fate) (which : MsgId × InFlight D → Bool) :
    Books env held (b.settle fate which) where
  numbered := h.numbered.of_sublist List.filter_sublist le_rfl
  perm := by
    refine List.Perm.trans ?_ (h.take which).perm
    rw [List.append_assoc]
    refine List.Perm.trans (List.Perm.append_left held ?_) (List.perm_append_comm_assoc _ _ _)
    rw [accounted, settle, List.map_append, List.map_map, ← List.append_assoc]
    exact List.perm_append_comm

end Steps

/-! ### Whole runs -/

/-- Every operation keeps the books. -/
theorem books_step [DecidableEq C] (P : Variant κ D) {env : Outside} {n : ℕ}
    (hfresh : env.Fresh n) {b : ListBroker κ C D} (h : Books env [] b) {op : Op C D}
    (hdrawn : (b.step P env op).drawn ≤ n) : Books env [] (b.step P env op) := by
  cases op with
  | send target data =>
    refine books_send P hfresh ⟨h.numbered.of_sublist (List.Sublist.refl _) le_rfl, ?_⟩ hdrawn
    exact (List.Perm.cons _ h.perm).trans (List.perm_append_singleton _ _).symm
  | register identity conn =>
    rcases step_register_cases P env b identity conn with ⟨heq, -⟩ | ⟨heq, -⟩
    · rw [heq]
      exact h
    · rw [heq] at hdrawn ⊢
      have hnumbered : Numbered env (b.connect identity conn) :=
        h.numbered.of_sublist (List.Sublist.refl _) le_rfl
      refine books_sendAll P hfresh b.buffer ⟨hnumbered, ?_⟩ hdrawn
      rw [List.append_nil]
      refine List.Perm.trans ?_ h.perm
      rw [accounted, accounted, connect, List.nil_append, List.append_assoc b.buffer,
        List.append_assoc b.buffer]
      exact List.Perm.refl _
  | unregister conn => exact ⟨h.numbered.of_sublist (List.Sublist.refl _) le_rfl, h.perm⟩
  | answer sender msgId => exact h.of_routes (routes_route P b (some sender) (.ack msgId))
  | acknowledge msgId => exact books_settle h _ _
  | expire due =>
    exact books_resendAll P hfresh _ (h.take due) hdrawn
  | close forget =>
    have hclosed : Books env [] { b with closed := true } :=
      ⟨h.numbered.of_sublist (List.Sublist.refl _) le_rfl, h.perm⟩
    exact books_settle hclosed .dropped fun _ => forget

theorem books_run [DecidableEq C] (P : Variant κ D) {env : Outside} {n : ℕ}
    (hfresh : env.Fresh n) {b : ListBroker κ C D} (h : Books env [] b)
    {ops : List (Op C D)} (hdrawn : (b.run P env ops).drawn ≤ n) :
    Books env [] (b.run P env ops) := by
  induction ops generalizing b with
  | nil => exact h
  | cons op rest ih =>
    have hstep := (drawn_le_run P env (b.step P env op) rest).trans hdrawn
    exact ih (books_step P hfresh h hstep) hdrawn

end ListBroker

end Aiomsg
