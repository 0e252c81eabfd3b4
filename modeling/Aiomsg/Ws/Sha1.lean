import Aiomsg.Lib.Blocks
import Aiomsg.Ws.Sniff

/-!
# The streaming SHA-1 against the one-shot one

The hasher of `rust-lib-sync` has processed the whole blocks of what it was given and holds the
rest; this is `Sha1.Holds`. `update` keeps it, whatever the pieces, so it holds of the padding as
well, which `finish` makes with calls of `update`. Such a call moves the length on too, but by then
the number of bits has been taken down.

The two crates have the same function for a block. `sha1` of `rust-lib-async` pads the whole message
first and cuts it into blocks then.

## Scope

That the function for a block is the one of the standard is not proved, as there is no other
definition of it to compare with: the two crates write the same. What is proved is that cutting a
message into pieces does not matter, and that padding it in pieces is padding it.

## Main results

* `Sha1.Holds.update`, `Sha1.Holds.foldl_update` — what the hasher holds
* `Sha1.pad_eq` — the loop of `finish`, for every fill level
* `finish_foldl_update` — the two functions agree
* `acceptKey_eq_computeAccept` — so do the answers to a request
-/

namespace Aiomsg

namespace Ws

open Deframer

/-- The blocks of a message. -/
abbrev sha1Blocks : Deframer UInt8 Bytes Empty := blocks UInt8 64

namespace Sha1

/-- The bytes of the incomplete block. -/
def pending (h : Sha1) : Bytes := h.block.take h.fill

@[simp] theorem length_pending (h : Sha1) : h.pending.length = h.fill := by
  rw [pending, List.length_take, h.length_block]
  exact Nat.min_eq_left h.fill_lt.le

theorem pending_of_fill {h : Sha1} (hfill : h.fill = 0) : h.pending = [] := by
  rw [pending, hfill, List.take_zero]

/-- What is copied comes behind the bytes that are there. -/
theorem take_copied (h : Sha1) (data : Bytes) :
    (h.copied data).take (h.fill + data.length) = h.pending ++ data := by
  have hlen : (h.pending ++ data).length = h.fill + data.length := by
    rw [List.length_append, length_pending]
  rw [copied]
  exact List.take_left' hlen

/-! ### The loop of `update` -/

/-- What the loop of `update` leaves, of what the hasher held and what came in. -/
structure Absorbed (h : Sha1) (data : Bytes) (h' : Sha1) : Prop where
  state : h'.state = (sha1Blocks.items (h.pending ++ data)).foldl processBlock h.state
  pending : h'.pending = sha1Blocks.leftover (h.pending ++ data)
  len : h'.len = h.len

theorem absorbed_nil (h : Sha1) : Absorbed h [] h := by
  have hshort : sha1Blocks.parse (h.pending ++ []) = .more := by
    refine parse_blocks_of_lt ?_
    rw [List.append_nil, length_pending]
    exact h.fill_lt
  refine ⟨?_, ?_, rfl⟩
  · rw [items_of_more hshort]
    rfl
  · rw [leftover_of_more hshort, List.append_nil]

theorem copied_of_full {h : Sha1} {data : Bytes} (hfull : h.fill + data.length = 64) :
    h.copied data = h.pending ++ data := by
  rw [← h.take_copied data, hfull]
  exact (List.take_of_length_le (h.length_copied hfull.le).le).symm

/-- One turn, with the turns behind it. Bytes are left only if the block was filled. -/
theorem absorbed_fillBlock {h h' : Sha1} {taken rest : Bytes} {hfit : h.fill + taken.length ≤ 64}
    (hrest : h.fill + taken.length = 64 ∨ rest = [])
    (hstep : Absorbed (h.fillBlock taken hfit) rest h') : Absorbed h (taken ++ rest) h' := by
  obtain ⟨hstate, hpending, hlen⟩ := hstep
  by_cases hfull : h.fill + taken.length = 64
  · have hblock : (h.pending ++ taken).length = 64 := by
      rw [List.length_append, length_pending, hfull]
    have hempty : (h.fillBlock taken hfit).pending = [] :=
      pending_of_fill (by rw [fill_fillBlock, hfull])
    have hprocessed :
        (h.fillBlock taken hfit).state = processBlock h.state (h.pending ++ taken) := by
      rw [← copied_of_full hfull, fillBlock, dif_pos hfull]
    rw [hempty, List.nil_append] at hstate hpending
    rw [hprocessed] at hstate
    refine ⟨?_, ?_, ?_⟩
    · rw [hstate, ← List.append_assoc, items_blocks_append hblock, List.foldl_cons]
    · rw [hpending, ← List.append_assoc, leftover_blocks_append hblock]
    · rw [hlen, fillBlock, dif_pos hfull]
  · obtain rfl := hrest.resolve_left hfull
    have hheld : (h.fillBlock taken hfit).pending = h.pending ++ taken := by
      rw [fillBlock, dif_neg hfull]
      exact h.take_copied taken
    rw [hheld] at hstate hpending
    refine ⟨?_, ?_, ?_⟩
    · rw [hstate, fillBlock, dif_neg hfull, List.append_assoc]
    · rw [hpending, List.append_assoc]
    · rw [hlen, fillBlock, dif_neg hfull]

theorem absorbed_absorb (h : Sha1) (data : Bytes) : Absorbed h data (h.absorb data) := by
  induction h, data using absorb.induct with
  | case1 h =>
    rw [absorb, dif_pos rfl]
    exact absorbed_nil h
  | case2 h data hdata ih =>
    rw [absorb, dif_neg hdata]
    nth_rewrite 1 [← List.take_append_drop (64 - h.fill) data]
    refine absorbed_fillBlock ?_ ih
    rw [List.length_take, List.drop_eq_nil_iff]
    have hlt := h.fill_lt
    omega

/-! ### What the hasher holds -/

/-- The hasher was given this message. -/
structure Holds (h : Sha1) (msg : Bytes) : Prop where
  state : h.state = (sha1Blocks.items msg).foldl processBlock new.state
  pending : h.pending = sha1Blocks.leftover msg
  len : h.len = UInt64.ofNat msg.length

/-- The number of bits, which is exact for fewer than `2 ^ 61` bytes. -/
theorem Holds.toNat_bitLen {h : Sha1} {msg : Bytes} (hmsg : Holds h msg) :
    (h.len * 8).toNat = msg.length * 8 % 2 ^ 64 := by
  rw [hmsg.len, UInt64.toNat_mul, UInt64.toNat_ofNat', Nat.mod_mul_mod]
  rfl

theorem holds_new : Holds new [] := by
  have hshort : sha1Blocks.parse [] = .more := parse_blocks_of_lt (by decide)
  refine ⟨?_, ?_, rfl⟩
  · rw [items_of_more hshort]
    rfl
  · rw [leftover_of_more hshort, pending_of_fill rfl]

theorem Holds.fill {h : Sha1} {msg : Bytes} (hmsg : Holds h msg) :
    h.fill = msg.length % 64 := by
  rw [← length_pending, hmsg.pending, length_leftover_blocks]

/-- **One call of `update`.** -/
theorem Holds.update {h : Sha1} {msg : Bytes} (hmsg : Holds h msg) (data : Bytes) :
    Holds (h.update data) (msg ++ data) := by
  obtain ⟨hstate, hpending, hlen⟩ :=
    absorbed_absorb { h with len := h.len + UInt64.ofNat data.length } data
  have hheld : Sha1.pending { h with len := h.len + UInt64.ofNat data.length } =
      sha1Blocks.leftover msg := hmsg.pending
  rw [hheld] at hstate hpending
  refine ⟨?_, ?_, ?_⟩
  · rw [Sha1.update, hstate, items_append msg data, List.foldl_append, ← hmsg.state]
  · rw [Sha1.update, hpending, leftover_append msg data]
  · rw [Sha1.update, hlen, List.length_append, UInt64.ofNat_add, ← hmsg.len]

/-- **Any number of calls.** -/
theorem Holds.foldl_update {h : Sha1} {msg : Bytes} (hmsg : Holds h msg) (chunks : List Bytes) :
    Holds (chunks.foldl Sha1.update h) (msg ++ chunks.flatten) := by
  induction chunks generalizing h msg with
  | nil => rwa [List.flatten_nil, List.append_nil]
  | cons data chunks ih =>
    rw [List.foldl_cons, List.flatten_cons, ← List.append_assoc]
    exact ih (hmsg.update data)

/-! ### The loop of `finish` -/

/-- `self.update(&[0x00])`, so often. -/
def zeros (k : ℕ) (h : Sha1) : Sha1 := (fun h => h.update [0x00])^[k] h

theorem zeros_succ (k : ℕ) (h : Sha1) : h.zeros (k + 1) = (h.update [0x00]).zeros k :=
  Function.iterate_succ_apply _ k h

theorem zeros_succ' (k : ℕ) (h : Sha1) : h.zeros (k + 1) = (h.zeros k).update [0x00] :=
  Function.iterate_succ_apply' _ k h

theorem fill_zeros (k : ℕ) (h : Sha1) : (h.zeros k).fill = (h.fill + k) % 64 := by
  induction k with
  | zero => exact (Nat.mod_eq_of_lt h.fill_lt).symm
  | succ k ih => rw [zeros_succ', fill_update_singleton, ih, Nat.mod_add_mod, Nat.add_assoc]

/-- **The loop of `finish`** comes to an end, whatever the fill level is. -/
theorem pad_eq (h : Sha1) : h.pad = h.zeros ((120 - h.fill) % 64) := by
  induction h using pad.induct with
  | case1 h hfill =>
    rw [pad, if_pos hfill, hfill]
    rfl
  | case2 h hfill ih =>
    have hlt := h.fill_lt
    have hsucc : (120 - h.fill) % 64 = (120 - (h.fill + 1) % 64) % 64 + 1 := by omega
    rw [pad, if_neg hfill, ih, hsucc, zeros_succ, fill_update_singleton]

theorem Holds.zeros {h : Sha1} {msg : Bytes} (hmsg : Holds h msg) (k : ℕ) :
    Holds (h.zeros k) (msg ++ List.replicate k 0) := by
  induction k with
  | zero => rwa [List.replicate_zero, List.append_nil]
  | succ k ih =>
    rw [zeros_succ', List.replicate_succ', ← List.append_assoc]
    exact ih.update [0x00]

end Sha1

/-! ### The one-shot function -/

/-- The five words as bytes. -/
def digest (h : Sha1State) : Bytes :=
  [h.1, h.2.1, h.2.2.1, h.2.2.2.1, h.2.2.2.2].flatMap fun word => BigEndian.encode 4 word.toNat

theorem length_digest (h : Sha1State) : (digest h).length = 20 := by
  simp [digest]

/-- `while msg.len() % 64 != 56 { msg.push(0); }` -/
def padZeros (msg : Bytes) : Bytes :=
  if msg.length % 64 = 56 then msg else padZeros (msg ++ [0])
termination_by (120 - msg.length % 64) % 64
decreasing_by
  rw [List.length_append, List.length_singleton]
  omega

theorem padZeros_eq (msg : Bytes) :
    padZeros msg = msg ++ List.replicate ((120 - msg.length % 64) % 64) 0 := by
  induction msg using padZeros.induct with
  | case1 msg hlen => rw [padZeros, if_pos hlen, hlen, List.replicate_zero, List.append_nil]
  | case2 msg hlen ih =>
    have hsucc : (120 - msg.length % 64) % 64 = (120 - (msg.length + 1) % 64) % 64 + 1 := by omega
    rw [padZeros, if_neg hlen, ih, List.length_append, List.length_singleton, hsucc,
      List.replicate_succ, List.append_assoc, List.singleton_append]

/-- A message with its padding. -/
def paddedMsg (msg : Bytes) : Bytes :=
  padZeros (msg ++ [0x80]) ++ BigEndian.encode 8 (msg.length * 8)

theorem paddedMsg_eq (msg : Bytes) :
    paddedMsg msg = msg ++ [0x80] ++ List.replicate ((119 - msg.length % 64) % 64) 0 ++
      BigEndian.encode 8 (msg.length * 8) := by
  have hzeros : (120 - (msg ++ [0x80]).length % 64) % 64 = (119 - msg.length % 64) % 64 := by
    rw [List.length_append, List.length_singleton]
    omega
  rw [paddedMsg, padZeros_eq, hzeros]

theorem dvd_length_paddedMsg (msg : Bytes) : 64 ∣ (paddedMsg msg).length := by
  rw [paddedMsg_eq]
  simp only [List.length_append, List.length_replicate, List.length_singleton,
    BigEndian.length_encode]
  omega

/-- `sha1` processes the blocks of the padded message. -/
theorem sha1_eq (data : Bytes) :
    Async.sha1 data = digest ((sha1Blocks.items (paddedMsg data)).foldl processBlock
      Sha1.new.state) := by
  have hmsg : data ++ 0x80 :: List.replicate ((119 - data.length % 64) % 64) 0 ++
      BigEndian.encode 8 (data.length * 8) = paddedMsg data := by
    rw [paddedMsg_eq, List.append_cons]
  rw [Async.sha1, hmsg, toChunks_eq_items (dvd_length_paddedMsg data)]
  rfl

/-- **`finish`** of a hasher that was given a message. -/
theorem Sha1.Holds.finish_eq {h : Sha1} {msg : Bytes} (hmsg : Holds h msg) :
    h.finish = Async.sha1 msg := by
  have hzeros : (120 - (h.update [0x80]).fill) % 64 = (119 - msg.length % 64) % 64 := by
    rw [fill_update_singleton, hmsg.fill]
    omega
  have hlen : BigEndian.encode 8 (h.len * 8).toNat = BigEndian.encode 8 (msg.length * 8) := by
    rw [hmsg.toNat_bitLen]
    exact BigEndian.encode_mod 8 _
  have hlast := ((hmsg.update [0x80]).zeros ((119 - msg.length % 64) % 64)).update
    (BigEndian.encode 8 (msg.length * 8))
  rw [sha1_eq, paddedMsg_eq, ← hlast.state, finish, pad_eq, hzeros, hlen]
  rfl

/-- **The two functions agree**, whatever the pieces are, and the loop of `finish` ends. -/
theorem finish_foldl_update (chunks : List Bytes) :
    (chunks.foldl Sha1.update Sha1.new).finish = Async.sha1 chunks.flatten ∧
      (Async.sha1 chunks.flatten).length = 20 ∧
      ∀ h : Sha1, ∃ k < 64, h.pad = h.zeros k ∧ (h.zeros k).fill = 56 ∧
        ∀ j < k, (h.zeros j).fill ≠ 56 := by
  refine ⟨?_, ?_, fun h => ?_⟩
  · have hholds := Sha1.holds_new.foldl_update chunks
    rw [List.nil_append] at hholds
    exact hholds.finish_eq
  · rw [sha1_eq, length_digest]
  · have hlt := h.fill_lt
    refine ⟨(120 - h.fill) % 64, Nat.mod_lt _ (by decide), h.pad_eq, ?_, ?_⟩
    · rw [Sha1.fill_zeros]
      omega
    · intro j hj
      rw [Sha1.fill_zeros]
      omega

/-- The two crates answer a key alike. -/
theorem acceptKey_eq_computeAccept (key : Text) : acceptKey key = Async.computeAccept key := by
  have hholds := (Sha1.holds_new.update (asBytes key)).update (asBytes wsGuid)
  rw [acceptKey, hholds.finish_eq, Async.computeAccept, List.nil_append]

end Ws

end Aiomsg
