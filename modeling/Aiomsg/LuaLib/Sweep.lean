import Aiomsg.Lib.Traversal
import Aiomsg.LuaLib.Ws
import Mathlib.Algebra.Order.Ring.Rat

/-!
# The resend sweep of the Lua port

`_sweep` of `lua-lib/aiomsg/socket.lua` with what it calls. It goes through `self.pending` with
`pairs`, clears what has expired and sends it again, if it is to be. To send something again with an
acknowledgement is to put it into `self.pending` under a new id, while the loop is still going on;
Lua leaves open what such a loop goes through afterwards.

Readings of the clock and random ids are taken from what the socket holds of either. Times are in
seconds.

## Scope

What Lua leaves open stays open: `pairs` is any traversal that the manual allows, and a table is
what it holds without an order. A statement about the sweep is about all traversals, and its failure
is that one of them goes wrong. Frames are queued and not written here.

## Main results

* `Socket.clearing_visit` — what the loop does where nothing is sent again with an acknowledgement
* `Socket.sweepsWell_iff` — the sweep is as it should be exactly there
-/

namespace Aiomsg

namespace LuaLib

open Protocol

inductive SendMode where
  | roundRobin
  | publish
deriving DecidableEq

inductive Delivery where
  | atMostOnce
  | atLeastOnce
deriving DecidableEq

/-- An entry of `self.pending`. -/
structure Waiting where
  target : Option Bytes
  data : Bytes
  retries : ℕ
  deadline : ℚ

structure Conn where
  peer : Bytes
  ws : Bool
  outbuf : Bytes
  lastSend : ℚ

structure Socket where
  sendMode : SendMode
  delivery : Delivery
  /-- Active (post-handshake) connections, in round-robin order. -/
  conns : List Conn
  rr : ℕ
  /-- Queued while no peer is connected. -/
  buffer : List (Option Bytes × Bytes)
  pending : Table Bytes Waiting
  closed : Bool
  /-- The readings of the clock to come. -/
  clock : ℕ → ℚ
  /-- The random ids to come. -/
  random : ℕ → MsgId

/-- `RESEND`. -/
def resend : ℚ := 5

def hexDigit (n : ℕ) : UInt8 := UInt8.ofNat (if n < 10 then 0x30 + n else 0x57 + n)

/-- `to_hex`. -/
def toHex (bytes : Bytes) : Bytes :=
  bytes.flatMap fun b => [hexDigit (b.toNat / 16), hexDigit (b.toNat % 16)]

namespace Socket

/-- `now()`. -/
def now (s : Socket) : ℚ × Socket := (s.clock 0, { s with clock := fun n => s.clock (n + 1) })

/-- `random_bytes(protocol.MSG_ID_SIZE)`. -/
def randomBytes (s : Socket) : MsgId × Socket :=
  (s.random 0, { s with random := fun n => s.random (n + 1) })

/-- `queue_frame` for the connection at a place in `self.conns`. -/
def queueFrame (s : Socket) (i : ℕ) (framed : Bytes) : Socket :=
  let (time, s) := s.now
  { s with conns := s.conns.modify i fun conn =>
      { conn with
        outbuf := conn.outbuf ++ if conn.ws then encode 0x2 framed else framed
        lastSend := time } }

def route (s : Socket) (target : Option Bytes) (framed : Bytes) : Socket :=
  if s.closed ∨ s.conns.length = 0 then s
  else
    match target with
    | some identity =>
      match s.conns.findIdx? fun conn => conn.peer = identity with
      | some i => s.queueFrame i framed
      | none => s -- by-identity: drop if peer is gone
    | none =>
      if s.sendMode = .publish then
        (List.range s.conns.length).foldl (fun s i => s.queueFrame i framed) s
      else
        let rr := s.rr % s.conns.length + 1
        { s with rr := rr }.queueFrame (rr - 1) framed

/-- What is sent to a target asks for an acknowledgement. -/
def AtLeastOnce (s : Socket) (target : Option Bytes) : Prop :=
  s.delivery = .atLeastOnce ∧ (target ≠ none ∨ s.sendMode = .roundRobin)

instance (s : Socket) (target : Option Bytes) : Decidable (s.AtLeastOnce target) :=
  inferInstanceAs (Decidable (_ ∧ _))

def transmit (s : Socket) (target : Option Bytes) (data : Bytes) (retries : ℕ) : Socket :=
  if ¬ s.AtLeastOnce target then s.route target (Protocol.data data)
  else
    let (msgId, s) := s.randomBytes
    let (time, s) := s.now
    let waiting := ⟨target, data, retries, time + resend⟩
    { s with pending := s.pending.assign (toHex msgId.toList) (some waiting) }.route target
      (dataReq msgId data)

/-- What `_sweep` does with an entry that has expired. -/
def handle (s : Socket) (key : Bytes) (p : Waiting) : Socket :=
  let s := { s with pending := s.pending.assign key none }
  if 0 < p.retries then
    if s.conns.length = 0 then { s with buffer := s.buffer ++ [(p.target, p.data)] }
    else s.transmit p.target p.data (p.retries - 1)
  else s

/-- The body of the loop. -/
def visit (current : ℚ) (key : Bytes) (p : Waiting) (s : Socket) : Socket :=
  if p.deadline ≤ current then s.handle key p else s

def sweep (s : Socket) : Traversal Socket :=
  let (current, s) := s.now
  Table.traverse pending (visit current) s.pending.entries.keys s

/-! ### What stays -/

/-- The connections and the modes are the same as far as the sweep looks at them. -/
structure Like (s s' : Socket) : Prop where
  conns : s'.conns.length = s.conns.length
  delivery : s'.delivery = s.delivery
  sendMode : s'.sendMode = s.sendMode

variable {s s' s'' : Socket}

theorem Like.refl (s : Socket) : s.Like s := ⟨rfl, rfl, rfl⟩

theorem Like.trans (h : s.Like s') (h' : s'.Like s'') : s.Like s'' where
  conns := h'.conns.trans h.conns
  delivery := h'.delivery.trans h.delivery
  sendMode := h'.sendMode.trans h.sendMode

theorem Like.atLeastOnce_iff (h : s.Like s') (target : Option Bytes) :
    s'.AtLeastOnce target ↔ s.AtLeastOnce target := by
  rw [AtLeastOnce, AtLeastOnce, h.delivery, h.sendMode]

theorem queueFrame_spec (s : Socket) (i : ℕ) (framed : Bytes) :
    (s.queueFrame i framed).pending = s.pending ∧ s.Like (s.queueFrame i framed) := by
  refine ⟨rfl, ?_, rfl, rfl⟩
  rw [queueFrame]
  exact List.length_modify _ _ _

/-- Nothing is routed into `self.pending`. -/
theorem route_spec (s : Socket) (target : Option Bytes) (framed : Bytes) :
    (s.route target framed).pending = s.pending ∧ s.Like (s.route target framed) := by
  have hall : ∀ (is : List ℕ) (s : Socket),
      (is.foldl (fun s i => s.queueFrame i framed) s).pending = s.pending ∧
        s.Like (is.foldl (fun s i => s.queueFrame i framed) s) := by
    intro is
    induction is with
    | nil => exact fun s => ⟨rfl, .refl s⟩
    | cons i is ih =>
      intro s
      obtain ⟨hpending, hlike⟩ := queueFrame_spec s i framed
      obtain ⟨hpending', hlike'⟩ := ih (s.queueFrame i framed)
      exact ⟨hpending'.trans hpending, hlike.trans hlike'⟩
  rw [route.eq_def]
  by_cases hnone : s.closed ∨ s.conns.length = 0
  · rw [if_pos hnone]
    exact ⟨rfl, .refl s⟩
  rw [if_neg hnone]
  rcases target with _ | identity
  · dsimp only
    split_ifs
    · exact hall _ s
    · obtain ⟨hpending, hlike⟩ := queueFrame_spec { s with rr := s.rr % s.conns.length + 1 }
        (s.rr % s.conns.length + 1 - 1) framed
      exact ⟨hpending, hlike.conns, hlike.delivery, hlike.sendMode⟩
  · dsimp only
    split
    · exact queueFrame_spec s _ framed
    · exact ⟨rfl, .refl s⟩

theorem transmit_of_not {target : Option Bytes} (h : ¬ s.AtLeastOnce target) (data : Bytes)
    (retries : ℕ) : (s.transmit target data retries).pending = s.pending ∧
      s.Like (s.transmit target data retries) := by
  rw [transmit, if_pos h]
  exact route_spec s target _

/-- What asks for an acknowledgement is put into `self.pending`. -/
theorem transmit_of_atLeastOnce {target : Option Bytes} (h : s.AtLeastOnce target) (data : Bytes)
    (retries : ℕ) : (s.transmit target data retries).pending
      = s.pending.assign (toHex (s.random 0).toList)
        (some ⟨target, data, retries, s.clock 0 + resend⟩) := by
  rw [transmit, if_neg (not_not.mpr h)]
  exact (route_spec _ target _).1

/-! ### The loop -/

/-- An entry that has expired is sent again, with an acknowledgement. -/
def Resends (s : Socket) (p : Waiting) : Prop :=
  0 < p.retries ∧ s.conns.length ≠ 0 ∧ s.AtLeastOnce p.target

instance (s : Socket) (p : Waiting) : Decidable (s.Resends p) :=
  inferInstanceAs (Decidable (_ ∧ _))

theorem Like.resends_iff (h : s.Like s') (p : Waiting) : s'.Resends p ↔ s.Resends p := by
  rw [Resends, Resends, h.conns, h.atLeastOnce_iff]

theorem handle_of_not {key : Bytes} {p : Waiting} (h : ¬ s.Resends p) :
    (s.handle key p).pending = s.pending.assign key none ∧ s.Like (s.handle key p) := by
  rw [handle]
  split_ifs with hretries hconns
  · exact ⟨rfl, rfl, rfl, rfl⟩
  · have hnot : ¬ { s with pending := s.pending.assign key none }.AtLeastOnce p.target :=
      fun halo => h ⟨hretries, hconns, halo⟩
    obtain ⟨hpending, hlike⟩ := transmit_of_not hnot p.data (p.retries - 1)
    exact ⟨hpending, hlike.conns, hlike.delivery, hlike.sendMode⟩
  · exact ⟨rfl, rfl, rfl, rfl⟩

/-- What is sent again with an acknowledgement is put into `self.pending`, in two assignments. -/
theorem handle_of_resends {key : Bytes} {p : Waiting} (h : s.Resends p) :
    (s.handle key p).pending = (s.pending.assign key none).assign (toHex (s.random 0).toList)
      (some ⟨p.target, p.data, p.retries - 1, s.clock 0 + resend⟩) := by
  obtain ⟨hretries, hconns, halo⟩ := h
  rw [handle, if_pos hretries, if_neg hconns]
  exact transmit_of_atLeastOnce (s := { s with pending := s.pending.assign key none }) halo p.data
    (p.retries - 1)

/-- Assignments come behind those that have been made. -/
theorem log_prefix_visit (current : ℚ) (key : Bytes) (p : Waiting) (s : Socket) :
    s.pending.log <+: (visit current key p s).pending.log := by
  rw [visit]
  split_ifs
  · by_cases h : s.Resends p
    · rw [handle_of_resends h, Table.log_assign, Table.log_assign, List.append_assoc]
      exact List.prefix_append _ _
    · rw [(handle_of_not h).1]
      exact List.prefix_append _ _
  · exact List.prefix_rfl

/-- **Where nothing is sent again with an acknowledgement**, the loop clears what has expired and
makes no other assignment. -/
theorem clearing_visit {current : ℚ} {es : List (Sigma fun _ : Bytes => Waiting)}
    (h : ∀ e ∈ es, e.2.deadline ≤ current → ¬ s.Resends e.2) :
    Table.Clearing pending (visit current) (fun p => p.deadline ≤ current) s.Like es where
  keep e he s' hlike := by
    rw [visit]
    split_ifs with hexpired
    · exact hlike.trans (handle_of_not (mt (hlike.resends_iff e.2).mp (h e he hexpired))).2
    · exact hlike
  clear e he s' hlike := by
    rw [visit]
    split_ifs with hexpired
    · exact (handle_of_not (mt (hlike.resends_iff e.2).mp (h e he hexpired))).1
    · rfl

/-! ### The sweep -/

/-- The entries that have expired at the start. -/
def expired (s : Socket) : List (Sigma fun _ : Bytes => Waiting) :=
  s.pending.entries.entries.filter fun e => e.2.deadline ≤ s.clock 0

/-- What is asked of a sweep: it comes to an end; each entry expired at the start has been handled
once, and nothing else has been done; each of them has been cleared, which is all that has been
assigned to `self.pending`; and it holds the other entries as it did. -/
def SweepsWell (s : Socket) : Prop :=
  ∃ s', s.sweep = .finished s' ∧
    s' = s.expired.foldl (fun s e => s.handle e.1 e.2) s.now.2 ∧
    s'.pending.log = s.pending.log ++ s.expired.map (fun e => ⟨e.1, true, none⟩) ∧
    ∀ key, s'.pending.entries.lookup key
      = (s.pending.entries.lookup key).filter fun p => ¬ p.deadline ≤ s.clock 0

theorem sweepsWell_of_not_resends (h : ∀ e ∈ s.expired, ¬ s.Resends e.2) : s.SweepsWell := by
  have hclearing : Table.Clearing pending (visit (s.clock 0)) (fun p => p.deadline ≤ s.clock 0)
      s.now.2.Like s.now.2.pending.entries.entries := by
    refine clearing_visit fun e he hexpired hresends => ?_
    exact h e (List.mem_filter.mpr ⟨he, decide_eq_true hexpired⟩) hresends
  refine ⟨_, hclearing.traverse_entries (.refl _), ?_, ?_, ?_⟩
  · rw [expired, List.foldl_filter, Table.behind]
    congr 1
    funext s' e
    rw [visit]
    simp only [decide_eq_true_eq]
  · exact hclearing.log_behind (.refl _) (Table.lists_entries _)
  · exact hclearing.lookup_entries (.refl _)

/-- **Where an entry is sent again with an acknowledgement**, the loop makes an assignment that
clears nothing. -/
theorem not_sweepsWell_of_resends {e : Sigma fun _ : Bytes => Waiting} (he : e ∈ s.expired)
    (h : s.Resends e.2) : ¬ s.SweepsWell := by
  rintro ⟨s', hsweep, -, hlog, -⟩
  -- the first such entry: up to it, the loop clears what has expired
  obtain ⟨e, hfind⟩ : ∃ e, s.pending.entries.entries.find?
      (fun e => decide (e.2.deadline ≤ s.clock 0 ∧ s.Resends e.2)) = some e := by
    rw [← Option.isSome_iff_exists, List.find?_isSome]
    obtain ⟨hmem, hexpired⟩ := List.mem_filter.mp he
    exact ⟨e, hmem, decide_eq_true ⟨decide_eq_true_eq.mp hexpired, h⟩⟩
  obtain ⟨hhere, pre, post, hsplit, hpre⟩ := List.find?_eq_some_iff_append.mp hfind
  obtain ⟨hexpired, hresends⟩ := decide_eq_true_eq.mp hhere
  have hclearing : Table.Clearing pending (visit (s.clock 0)) (fun p => p.deadline ≤ s.clock 0)
      s.now.2.Like pre := by
    refine clearing_visit fun e' he' hexpired' hresends' => ?_
    have hnot := hpre e' he'
    rw [Bool.not_eq_true', decide_eq_false_iff_not] at hnot
    exact hnot ⟨hexpired', hresends'⟩
  have hlists : s.now.2.pending.Lists (pre ++ e :: post) := hsplit ▸ Table.lists_entries s.pending
  obtain ⟨htraverse, hrest⟩ := hclearing.traverse_append (.refl _) hlists
  have hbefore := hclearing.log_behind (.refl _) hlists.left
  have hlike := hclearing.keep_behind (.refl _)
  generalize Table.behind (visit (s.clock 0)) pre s.now.2 = s₁ at htraverse hrest hbefore hlike
  have hkeys : s.sweep = Table.traverse pending (visit (s.clock 0))
      ((pre ++ e :: post).map Sigma.fst) s.now.2 := by
    rw [← hsplit]
    rfl
  rw [hkeys, htraverse, List.map_cons, Table.traverse_cons (hrest.lookup e List.mem_cons_self)]
    at hsweep
  split_ifs at hsweep
  -- its assignments are there at the end, behind those of the entries before it
  have hvisit : (visit (s.clock 0) e.1 e.2 s₁).pending = (s₁.pending.assign e.1 none).assign
      (toHex (s₁.random 0).toList)
      (some ⟨e.2.target, e.2.data, e.2.retries - 1, s₁.clock 0 + resend⟩) := by
    rw [visit, if_pos hexpired]
    exact handle_of_resends ((hlike.resends_iff e.2).mpr hresends)
  obtain ⟨more, hmore⟩ := Table.log_prefix_of_traverse (log_prefix_visit (s.clock 0)) hsweep
  rw [hvisit, Table.log_assign, Table.log_assign, hbefore, hlog, List.append_assoc,
    List.append_assoc, List.append_assoc] at hmore
  have hcleared : ∀ a ∈ s.expired.map fun e => (⟨e.1, true, none⟩ : Assignment Bytes Waiting),
      a.value = none := by
    intro a ha
    obtain ⟨e', -, rfl⟩ := List.mem_map.mp ha
    rfl
  rw [← List.append_cancel_left hmore] at hcleared
  cases hcleared _ (List.mem_append_right _ (List.mem_cons_of_mem _ List.mem_cons_self))

/-- **The sweep is as it should be if and only if nothing that has expired is sent again with an
acknowledgement.** -/
theorem sweepsWell_iff (s : Socket) : s.SweepsWell ↔ ∀ e ∈ s.expired, ¬ s.Resends e.2 := by
  constructor
  · intro hwell e he hresends
    exact not_sweepsWell_of_resends he hresends hwell
  · exact sweepsWell_of_not_resends

/-- A peer, and a message for it that has expired once. -/
theorem sweep_inserts : ¬ ∀ s : Socket, s.SweepsWell := by
  intro h
  let p : Waiting := ⟨none, [1], 5, 0⟩
  let s : Socket := ⟨.roundRobin, .atLeastOnce, [⟨[7], false, [], 0⟩], 0, [],
    ⟨(∅ : AList fun _ : Bytes => Waiting).insert [0] p, []⟩, false, fun _ => 0,
    fun _ => List.Vector.replicate 16 1⟩
  refine not_sweepsWell_of_resends (s := s) (e := ⟨[0], p⟩) ?_ ⟨by decide, by decide, rfl, .inr rfl⟩
    (h s)
  exact List.mem_filter.mpr ⟨List.mem_cons_self, decide_eq_true (le_refl (0 : ℚ))⟩

end Socket

end LuaLib

end Aiomsg
