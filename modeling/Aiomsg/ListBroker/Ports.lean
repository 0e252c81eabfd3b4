import Aiomsg.ListBroker.Conservation
import Aiomsg.ListBroker.Sessions
import Mathlib.Data.Int.ModEq

/-!
# The ports of the list broker

The four ports, and what each does with expired entries.

In JavaScript every entry has a timer of its own, which names the entry by its id. In Java the
sweeper takes out all that are due and then resends them. In C# it goes through a snapshot of those
that are due, and takes each out when its turn comes; in the meantime new entries have joined.

## Scope

Constants, cursors and containers are each port's own, as its source has them. Cursors of 32 bits
wrap, and stay valid picks when they have; those of JavaScript are doubles, and are natural numbers
here, which is what they are below `2 ^ 53`.

## Main results

* `JsLib.resend_eq_expire` — a timer's turn is an expiry
* `CsharpLib.sweep_eq_run` — a sweep over a snapshot is a run of expiries
-/

namespace Aiomsg

open ListBroker

variable {κ C D : Type}

/-- Set a key of a map that remembers insertion order. -/
def setKey (e : MsgId × InFlight D) (l : List (MsgId × InFlight D)) : List (MsgId × InFlight D) :=
  if l.any fun e' => e'.1 = e.1 then l.map fun e' => if e'.1 = e.1 then e else e' else l ++ [e]

theorem setKey_perm (e : MsgId × InFlight D) (l : List (MsgId × InFlight D))
    (h : ∀ e' ∈ l, e'.1 ≠ e.1) : (setKey e l).Perm (e :: l) := by
  have hnew : (l.any fun e' => e'.1 = e.1) = false := by simpa using h
  rw [setKey, hnew]
  exact List.perm_append_singleton e l

/-! ### `javascript-lib` and `browser-lib` -/

namespace JsLib

def turns : Turns ℕ where
  pick rrCursor n := rrCursor % n
  next rrCursor _ := rrCursor + 1
  pick_lt rrCursor _ h := Nat.mod_lt rrCursor h

def port (D : Type) : Variant ℕ D where
  turns := turns
  checksClosed := true
  keep := setKey
  keep_perm := setKey_perm
  resendMs := 5000

/-- `#resend`, which the timer of an entry calls. -/
def resend (env : Outside) (b : ListBroker ℕ C D) (key : MsgId) : ListBroker ℕ C D :=
  match b.pending.find? fun e => e.1 = key with
  | none => b
  | some e =>
    { b with pending := b.pending.filter fun e' => e'.1 ≠ key }.resend (port D) env e.2

end JsLib

/-- The broker of `browser-lib` is the one of `javascript-lib`. -/
def BrowserLib.port (D : Type) : Variant ℕ D where
  turns := JsLib.turns
  checksClosed := true
  keep := setKey
  keep_perm := setKey_perm
  resendMs := 5000

/-! ### `java-lib` -/

namespace JavaLib

/-- `Math.floorMod(rrCursor++, conns.size())`. -/
def turns : Turns Int32 where
  pick rrCursor n := (rrCursor.toInt % n).toNat
  next rrCursor _ := rrCursor + 1
  pick_lt rrCursor n h := by
    have hpos : (0 : ℤ) < n := by exact_mod_cast h
    have := Int.emod_lt_of_pos rrCursor.toInt hpos
    have := Int.emod_nonneg rrCursor.toInt hpos.ne'
    omega

def port (D : Type) : Variant Int32 D where
  turns := turns
  checksClosed := false
  keep e pending := pending ++ [e]
  keep_perm e pending _ := List.perm_append_singleton e pending
  resendMs := 5000

def sweep (env : Outside) (b : ListBroker Int32 C D) (now : ℤ) : ListBroker Int32 C D :=
  b.expire (port D) env fun e => e.2.deadline ≤ now

end JavaLib

/-! ### `csharp-lib` -/

namespace CsharpLib

/-- `(uint)_rrCursor++ % _conns.Count`. -/
def turns : Turns Int32 where
  pick rrCursor n := rrCursor.toUInt32.toNat % n
  next rrCursor _ := rrCursor + 1
  pick_lt _ _ h := Nat.mod_lt _ h

/-- Where a `Dictionary` puts a new key is its own business. -/
def port (keep : MsgId × InFlight D → List (MsgId × InFlight D) → List (MsgId × InFlight D))
    (keep_perm : ∀ e l, (∀ e' ∈ l, e'.1 ≠ e.1) → (keep e l).Perm (e :: l)) : Variant Int32 D where
  turns := turns
  checksClosed := false
  keep := keep
  keep_perm := keep_perm
  resendMs := 5000

/-- The loop over a snapshot of the entries that are due. -/
def sweepAll (P : Variant Int32 D) (env : Outside) (b : ListBroker Int32 C D) :
    List (MsgId × InFlight D) → ListBroker Int32 C D
  | [] => b
  | e :: rest =>
    sweepAll P env ({ b with pending := b.pending.filter fun e' => e'.1 ≠ e.1 }.resend P env e.2)
      rest

def sweep (P : Variant Int32 D) (env : Outside) (b : ListBroker Int32 C D) (now : ℤ) :
    ListBroker Int32 C D :=
  sweepAll P env b (b.pending.filter fun e => e.2.deadline ≤ now)

end CsharpLib

/-! ### One entry at a time -/

/-- With ids of their own, the entry with an id is the only one. -/
theorem filter_key_eq_singleton {l : List (MsgId × InFlight D)} (hnodup : (l.map Prod.fst).Nodup)
    {e : MsgId × InFlight D} (he : e ∈ l) : (l.filter fun e' => e'.1 = e.1) = [e] := by
  induction l with
  | nil => cases he
  | cons a rest ih =>
    obtain ⟨hnew, hrest⟩ := List.nodup_cons.mp hnodup
    rcases List.mem_cons.mp he with rfl | hmem
    · have hnone : (rest.filter fun e' => e'.1 = e.1) = [] := by
        refine List.filter_eq_nil_iff.mpr fun e' he' heq => hnew ?_
        exact of_decide_eq_true heq ▸ List.mem_map_of_mem he'
      rw [List.filter_cons_of_pos (by simp), hnone]
    · have hne : a.1 ≠ e.1 := fun heq => hnew (heq ▸ List.mem_map_of_mem hmem)
      rw [List.filter_cons_of_neg (by simpa using hne)]
      exact ih hrest hmem

/-- To expire one id is to take its entry out and resend it. -/
theorem expire_key (P : Variant κ D) (env : Outside) {b : ListBroker κ C D}
    (hnodup : (b.pending.map Prod.fst).Nodup) {e : MsgId × InFlight D} (he : e ∈ b.pending) :
    b.expire P env (fun e' => e'.1 = e.1) =
      { b with pending := b.pending.filter fun e' => e'.1 ≠ e.1 }.resend P env e.2 := by
  have hrest : (b.pending.filter fun e' => ! decide (e'.1 = e.1)) =
      b.pending.filter fun e' => e'.1 ≠ e.1 := by
    refine List.filter_congr fun e' _ => ?_
    by_cases h : e'.1 = e.1 <;> simp [h]
  rw [expire, filter_key_eq_singleton hnodup he, hrest]
  rfl

/-- **A timer's turn is an expiry.** -/
theorem JsLib.resend_eq_expire (env : Outside) {b : ListBroker ℕ C D}
    (hnodup : (b.pending.map Prod.fst).Nodup) (key : MsgId) :
    JsLib.resend env b key = b.expire (JsLib.port D) env fun e => e.1 = key := by
  rw [JsLib.resend]
  cases hfind : b.pending.find? fun e => e.1 = key with
  | none =>
    have hnone : (b.pending.filter fun e => e.1 = key) = [] :=
      List.filter_eq_nil_iff.mpr (List.find?_eq_none.mp hfind)
    have hall : (b.pending.filter fun e => ! decide (e.1 = key)) = b.pending := by
      refine List.filter_eq_self.mpr fun e he => ?_
      simpa using List.find?_eq_none.mp hfind e he
    rw [expire, hnone, hall]
    rfl
  | some e =>
    have hkey : e.1 = key := by simpa using List.find?_some hfind
    subst hkey
    exact (expire_key _ env hnodup (List.mem_of_find?_eq_some hfind)).symm

/-! ### A sweep over a snapshot -/

section Sweep

variable {P : Variant κ D} {env : Outside} {n : ℕ} (hfresh : env.Fresh n) {b : ListBroker κ C D}
  (h : Numbered env b) (p : InFlight D) (hdrawn : (b.resend P env p).drawn ≤ n)
include hfresh h hdrawn

/-- A resent entry leaves the others among the waiting ones. -/
theorem mem_pending_resend {e : MsgId × InFlight D} (he : e ∈ b.pending) :
    e ∈ (b.resend P env p).pending := by
  rcases resend_cases P env b p with heq | ⟨-, heq⟩ | ⟨-, -, heq⟩
  · rw [heq]
    exact he
  · rw [heq]
    exact he
  · rw [heq] at hdrawn ⊢
    cases hreq : b.atLeastOnce p.identity with
    | true =>
      have hroutes := routes_transmit_of_atLeastOnce P env hreq p.data (p.retries - 1)
      rw [hroutes.drawn] at hdrawn
      rw [hroutes.pending]
      exact (h.keep_perm hfresh _ hdrawn).mem_iff.mpr (List.mem_cons_of_mem _ he)
    | false =>
      rw [(routes_transmit_of_atMostOnce P env hreq p.data (p.retries - 1)).pending]
      exact he

theorem ListBroker.Numbered.resend : Numbered env (b.resend P env p) :=
  ((closed_numbered P hfresh).resend b p).2 hdrawn h

end Sweep

namespace CsharpLib

variable (P : Variant Int32 D) (env : Outside)

/-- The loop draws ids, and never takes one back. -/
theorem drawn_le_sweepAll (b : ListBroker Int32 C D) (es : List (MsgId × InFlight D)) :
    b.drawn ≤ (sweepAll P env b es).drawn := by
  induction es generalizing b with
  | nil => exact le_rfl
  | cons e rest ih =>
    have hresend := (closed_drawn P env).resend
      { b with pending := b.pending.filter fun e' => e'.1 ≠ e.1 } e.2
    exact hresend.trans (ih _)

variable {env} {n : ℕ} (hfresh : env.Fresh n) {b : ListBroker Int32 C D} (h : Numbered env b)
include hfresh h

/-- A snapshot worked off one by one. -/
theorem sweepAll_eq_run [DecidableEq C] {es : List (MsgId × InFlight D)}
    (hes : ∀ e ∈ es, e ∈ b.pending) (hnodup : (es.map Prod.fst).Nodup)
    (hdrawn : (sweepAll P env b es).drawn ≤ n) :
    sweepAll P env b es = b.run P env (es.map fun e => .expire fun e' => e'.1 = e.1) := by
  induction es generalizing b with
  | nil => rfl
  | cons e rest ih =>
    obtain ⟨hnew, hrest⟩ := List.nodup_cons.mp hnodup
    have htake : Numbered env { b with pending := b.pending.filter fun e' => e'.1 ≠ e.1 } :=
      h.of_sublist List.filter_sublist le_rfl
    have hresend := (drawn_le_sweepAll P env _ rest).trans hdrawn
    have hb : env.Fresh b.drawn :=
      hfresh.mono ((drawn_le_sweepAll P env b (e :: rest)).trans hdrawn)
    have hone := expire_key P env (h.nodup_msgId hb) (hes e List.mem_cons_self)
    rw [sweepAll, ih (htake.resend hfresh e.2 hresend) ?_ hrest hdrawn, List.map_cons, run, run,
      List.foldl_cons, ← hone]
    · rfl
    · intro e' he'
      refine mem_pending_resend hfresh htake e.2 hresend ?_
      refine List.mem_filter.mpr ⟨hes e' (List.mem_cons_of_mem _ he'), ?_⟩
      have hne : e'.1 ≠ e.1 := fun heq => hnew (heq ▸ List.mem_map_of_mem he')
      simpa using hne

/-- **A sweep over a snapshot is a run of expiries.** -/
theorem sweep_eq_run [DecidableEq C] (now : ℤ) (hdrawn : (sweep P env b now).drawn ≤ n) :
    ∃ ops, sweep P env b now = b.run P env ops := by
  refine ⟨_, sweepAll_eq_run P hfresh h (fun e he => (List.mem_filter.mp he).1) ?_ hdrawn⟩
  have hb : env.Fresh b.drawn := hfresh.mono ((drawn_le_sweepAll P env b _).trans hdrawn)
  exact (h.nodup_msgId hb).sublist (List.filter_sublist.map _)

end CsharpLib

namespace Served

/-- Ids that tell the first 256 draws apart, and a clock that stands still. -/
def tellingIds : Outside where
  msgId n := List.Vector.replicate 16 (UInt8.ofNat n)
  clock _ := 0

theorem fresh_tellingIds : tellingIds.Fresh 256 := by
  intro j hj k hk heq
  have hhead : UInt8.ofNat j = UInt8.ofNat k := congrArg List.Vector.head heq
  have hnat := congrArg UInt8.toNat hhead
  rw [UInt8.toNat_ofNat', UInt8.toNat_ofNat', Nat.mod_eq_of_lt hj, Nat.mod_eq_of_lt hk] at hnat
  exact hnat

/-- A broker whose first peer has two messages waiting for it. Another message follows, and a
message of the peer is answered. -/
def firstPeer (delivery : DeliveryGuarantee) : Option (Served ℕ ℕ ℕ) :=
  let me : Identity := List.Vector.replicate 16 1
  (machine (JsLib.port ℕ) tellingIds).run (new .roundRobin delivery 0)
    [.send none 5, .send (some me) 6, .register me 3, .send none 7,
      .received 3 (.dataReq (tellingIds.msgId 9) 8), .received 3 (.ack (tellingIds.msgId 1))]

end Served

end Aiomsg
