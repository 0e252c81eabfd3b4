import Aiomsg.LuaLib.Arith
import Aiomsg.Ws.Sha1

/-!
# The SHA-1 of the Lua port

`sha1` of `lua-lib/aiomsg/ws.lua`: the words are Lua numbers, and so are the lengths, the loop
variables and the positions in the message. All of these, and every number that an operation comes
to, are left behind by the computation. It has no result where a loop needs more turns than it is
given, or where Lua raises.

On words, the operations are those of `rust-lib-async`, and so are a round, a block and the padding;
the loops go through the same states. The largest numbers are the sum of five words in a round and
the number of bits.

## Scope

Messages are below the length at which the number of bits is no longer exact. The tables and strings
that the source builds on the way are lists; that `table.concat` and `string.char` put them together
is the manual's word.

## Main definitions

* `Arith.padded`, `Arith.expand`, `Arith.round`, `Arith.processChunk`, `Arith.sha1`

## Main results

* `Arith.yields_round`, `Arith.yields_processChunk` — a round and a block
* `Arith.sha1_exact` — the digest, and what is left behind
-/

namespace Aiomsg

namespace LuaLib

open Traced

namespace Arith

/-- An argument that has to be an integer. -/
def toInteger (q : ℚ) : Option ℤ := if q.den = 1 then some q.num else none

/-- `w[i]` -/
def get (w : List ℚ) (i : ℚ) : Option ℚ :=
  (toInteger i).bind fun n => if 0 ≤ n then w[n.toNat]? else none

/-- An argument of `string.char`. -/
def toByte (q : ℚ) : Option UInt8 :=
  (toInteger q).bind fun n => if 0 ≤ n ∧ n < 256 then some (UInt8.ofNat n.toNat) else none

/-- `string.char` -/
def char (xs : List ℚ) : Lua Bytes := ofOption (xs.mapM toByte)

/-- `w[i] = v`, where `i` is the first number that is not in the table. -/
def put (w : List ℚ) (v : Lua ℚ) : Lua (List ℚ) := do
  let v ← v
  pure (w ++ [v])

section Digest

variable (rnd : ℚ → ℚ)

/-- `#s` -/
def length (s : Bytes) : Lua ℚ := number rnd s.length

/-- `for i = first, last, step` -/
def forLoop {σ : Type} (first last step : ℕ) (s : σ) (body : σ → ℚ → Lua σ) : Lua σ :=
  (List.range' first ((last + step - first) / step) step).foldlM
    (fun s (i : ℕ) => do
      let i ← number rnd i
      body s i) s

/-! ### Padding -/

/-- `while #msg % 64 ~= 56`, for so many turns. -/
def pad : ℕ → Bytes → Lua Bytes
  | 0, _ => fail
  | turns + 1, msg => do
    let len ← length rnd msg
    let fill ← mod rnd len (64 : ℕ)
    if fill = (56 : ℕ) then pure msg
    else do
      let msg ← ofOption (concat msg [0])
      pad turns msg

/-- `math.floor(h / 16777216) % 256`, `math.floor(h / 65536) % 256`, `math.floor(h / 256) % 256` and
`h % 256` -/
def quarters (h : ℚ) : Lua (List ℚ) := do
  let q₃ ← floorDiv rnd h (16777216 : ℕ)
  let b₃ ← mod rnd q₃ (256 : ℕ)
  let q₂ ← floorDiv rnd h (65536 : ℕ)
  let b₂ ← mod rnd q₂ (256 : ℕ)
  let q₁ ← floorDiv rnd h (256 : ℕ)
  let b₁ ← mod rnd q₁ (256 : ℕ)
  let b₀ ← mod rnd h (256 : ℕ)
  pure [b₃, b₂, b₁, b₀]

/-- The message with its padding. -/
def padded (turns : ℕ) (msg : Bytes) : Lua Bytes := do
  let len ← length rnd msg
  let ml ← mul rnd len (8 : ℕ)
  let msg ← ofOption (concat msg [0x80])
  let msg ← pad rnd turns msg
  let upper ← floorDiv rnd ml (4294967296 : ℕ)
  let hi ← mod rnd upper (4294967296 : ℕ)
  let lo ← mod rnd ml (4294967296 : ℕ)
  let his ← quarters rnd hi
  let los ← quarters rnd lo
  let tail ← char (his ++ los)
  ofOption (concat msg tail)

/-! ### The words of a block -/

/-- `a * 16777216 + b * 65536 + c * 256 + d`, where `a` to `d` are the bytes at `chunk + i * 4`. -/
def word (msg : Bytes) (chunk i : ℚ) : Lua ℚ := do
  let start ← mul rnd i (4 : ℕ)
  let first ← add rnd chunk start
  let start ← mul rnd i (4 : ℕ)
  let start ← add rnd chunk start
  let last ← add rnd start (3 : ℕ)
  let first ← ofOption (toInteger first)
  let last ← ofOption (toInteger last)
  match byteRange msg first last with
  | [a, b, c, d] => do
    let a ← mul rnd (a : ℚ) (16777216 : ℕ)
    let b ← mul rnd (b : ℚ) (65536 : ℕ)
    let sum ← add rnd a b
    let c ← mul rnd (c : ℚ) (256 : ℕ)
    let sum ← add rnd sum c
    add rnd sum (d : ℚ)
  | _ => fail

/-- `w[i - k]` -/
def entry (w : List ℚ) (i : ℚ) (k : ℕ) : Lua ℚ := do
  let j ← sub rnd i k
  ofOption (get w j)

/-- `rotl32(bxor(bxor(bxor(w[i - 3], w[i - 8]), w[i - 14]), w[i - 16]), 1)` -/
def expand (turns : ℕ) (w : List ℚ) (i : ℚ) : Lua ℚ := do
  let x ← entry rnd w i 3
  let y ← entry rnd w i 8
  let x ← bxor rnd turns x y
  let y ← entry rnd w i 14
  let x ← bxor rnd turns x y
  let y ← entry rnd w i 16
  let x ← bxor rnd turns x y
  rotl32 rnd x (1 : ℕ)

/-- The table `w`. It is filled from 0 on, and so it is a list. -/
def words (turns : ℕ) (msg : Bytes) (chunk : ℚ) : Lua (List ℚ) := do
  let w ← forLoop rnd 0 15 1 [] fun w i => put w (word rnd msg chunk i)
  forLoop rnd 16 79 1 w fun w i => put w (expand rnd turns w i)

/-! ### Rounds -/

/-- `f` and `k` -/
def choose (turns : ℕ) (i b c d : ℚ) : Lua (ℚ × ℚ) :=
  if i < (20 : ℕ) then do
    let x ← band rnd turns b c
    let n ← sub rnd (0xFFFFFFFF : ℕ) b
    let y ← band rnd turns n d
    let f ← bor rnd turns x y
    pure (f, (0x5A827999 : ℕ))
  else if i < (40 : ℕ) then do
    let x ← bxor rnd turns b c
    let f ← bxor rnd turns x d
    pure (f, (0x6ED9EBA1 : ℕ))
  else if i < (60 : ℕ) then do
    let x ← band rnd turns b c
    let y ← band rnd turns b d
    let x ← bor rnd turns x y
    let y ← band rnd turns c d
    let f ← bor rnd turns x y
    pure (f, (0x8F1BBCDC : ℕ))
  else do
    let x ← bxor rnd turns b c
    let f ← bxor rnd turns x d
    pure (f, (0xCA62C1D6 : ℕ))

/-- `a` to `e`, or `h0` to `h4`. -/
abbrev State := ℚ × ℚ × ℚ × ℚ × ℚ

/-- `h0` to `h4`, at first. -/
def start : State :=
  ((0x67452301 : ℕ), (0xEFCDAB89 : ℕ), (0x98BADCFE : ℕ), (0x10325476 : ℕ), (0xC3D2E1F0 : ℕ))

/-- `for i = 0, 79` -/
def round (turns : ℕ) (w : List ℚ) (s : State) (i : ℚ) : Lua State := do
  let (a, b, c, d, e) := s
  let (f, k) ← choose rnd turns i b c d
  let sum ← rotl32 rnd a (5 : ℕ)
  let sum ← add rnd sum f
  let sum ← add rnd sum e
  let sum ← add rnd sum k
  let v ← ofOption (get w i)
  let sum ← add rnd sum v
  let temp ← mod rnd sum (0x100000000 : ℕ)
  let r ← rotl32 rnd b (30 : ℕ)
  pure (temp, a, r, c, d)

/-- `(h + x) % 0x100000000` -/
def plus (h x : ℚ) : Lua ℚ := do
  let sum ← add rnd h x
  mod rnd sum (0x100000000 : ℕ)

/-- `for chunk = 1, #msg, 64` -/
def processChunk (turns : ℕ) (msg : Bytes) (h : State) (chunk : ℚ) : Lua State := do
  let w ← words rnd turns msg chunk
  let (a, b, c, d, e) ← forLoop rnd 0 79 1 h (round rnd turns w)
  let h₀ ← plus rnd h.1 a
  let h₁ ← plus rnd h.2.1 b
  let h₂ ← plus rnd h.2.2.1 c
  let h₃ ← plus rnd h.2.2.2.1 d
  let h₄ ← plus rnd h.2.2.2.2 e
  pure (h₀, h₁, h₂, h₃, h₄)

/-- `bytes` -/
def bytes (h : ℚ) : Lua Bytes := do
  let xs ← quarters rnd h
  char xs

/-- `sha1`, whose `while` loops have so many turns. -/
def sha1 (turns : ℕ) (msg : Bytes) : Lua Bytes := do
  let msg ← padded rnd turns msg
  let _ ← length rnd msg
  let h ← forLoop rnd 1 msg.length 64 start (processChunk rnd turns msg)
  let b₀ ← bytes rnd h.1
  let b₁ ← bytes rnd h.2.1
  let b₂ ← bytes rnd h.2.2.1
  let b₃ ← bytes rnd h.2.2.2.1
  let b₄ ← bytes rnd h.2.2.2.2
  ofOption ([b₀, b₁, b₂, b₃].foldrM concat b₄)

end Digest

/-! ### Integers and words -/

theorem toInteger_natCast (n : ℕ) : toInteger n = some (n : ℤ) := by
  rw [toInteger, Rat.den_natCast, if_pos rfl, Rat.num_natCast]

theorem get_natCast (w : List ℚ) (n : ℕ) : get w n = w[n]? := by
  rw [get, toInteger_natCast, Option.bind_some, if_pos (Int.natCast_nonneg n), Int.toNat_natCast]

theorem toByte_natCast {n : ℕ} (h : n < 256) : toByte n = some (UInt8.ofNat n) := by
  rw [toByte, toInteger_natCast, Option.bind_some, if_pos ⟨Int.natCast_nonneg n, by omega⟩,
    Int.toNat_natCast]

theorem yields_char {P : Intermediate → Prop} {ns : List ℕ} (h : ∀ n ∈ ns, n < 256) :
    Yields P (char (ns.map Nat.cast)) (ns.map UInt8.ofNat) := by
  refine Yields.ofOption ?_
  induction ns with
  | nil => rfl
  | cons n ns ih =>
    rw [List.map_cons, List.mapM_cons, toByte_natCast (h n List.mem_cons_self),
      ih fun m hm => h m (List.mem_cons_of_mem n hm)]
    rfl

/-- The bytes of a word. -/
def quartersOf (n : ℕ) : List ℕ :=
  [n / 2 ^ 24 % 256, n / 2 ^ 16 % 256, n / 2 ^ 8 % 256, n % 256]

theorem quartersOf_lt (n : ℕ) : ∀ m ∈ quartersOf n, m < 256 := by
  simp only [quartersOf, List.mem_cons, List.not_mem_nil, or_false]
  rintro m (rfl | rfl | rfl | rfl) <;> exact Nat.mod_lt _ (by decide)

theorem ofNat_mod (n : ℕ) : UInt8.ofNat (n % 256) = UInt8.ofNat n := by
  apply UInt8.toNat_inj.mp
  rw [UInt8.toNat_ofNat', UInt8.toNat_ofNat']
  exact Nat.mod_mod n 256

theorem ofNat_quartersOf (n : ℕ) : (quartersOf n).map UInt8.ofNat = BigEndian.encode 4 n := by
  simp only [quartersOf, List.map_cons, List.map_nil, BigEndian.encode, ofNat_mod, Nat.reducePow,
    Nat.div_one]

/-- The halves of a number of 64 bits. -/
theorem encode_halves (n : ℕ) :
    BigEndian.encode 4 (n / 2 ^ 32 % 4294967296) ++ BigEndian.encode 4 (n % 4294967296) =
      BigEndian.encode 8 n := by
  have hupper := BigEndian.encode_mod 4 (n / 2 ^ 32)
  have hlower := BigEndian.encode_mod 4 n
  have hall := BigEndian.encode_add 4 4 n
  simp only [Nat.reducePow, Nat.reduceAdd] at hupper hlower hall ⊢
  rw [hupper, hlower, hall]

/-- The words of a table. -/
def numbers (w : List UInt32) : List ℚ := w.map fun x => (x.toNat : ℚ)

theorem get_numbers {w : List UInt32} {i : ℕ} {x : UInt32} (h : w[i]? = some x) :
    get (numbers w) i = some (x.toNat : ℚ) := by
  rw [get_natCast, numbers, List.getElem?_map, h]
  rfl

theorem yields_put {P : Intermediate → Prop} {w : List UInt32} {v : Lua ℚ} {x : UInt32}
    (h : Yields P v (x.toNat : ℚ)) : Yields P (put (numbers w) v) (numbers (w ++ [x])) := by
  have happend : numbers w ++ [(x.toNat : ℚ)] = numbers (w ++ [x]) := by
    rw [numbers, numbers, List.map_append, List.map_singleton]
  refine h.bind ?_
  rw [happend]
  exact Yields.pure _

/-- The words of a state. -/
def nums (s : Ws.Sha1State) : State :=
  (s.1.toNat, s.2.1.toNat, s.2.2.1.toNat, s.2.2.2.1.toNat, s.2.2.2.2.toNat)

theorem exists_four {bs : Bytes} (h : 4 ≤ bs.length) :
    ∃ b₀ b₁ b₂ b₃ rest, bs = b₀ :: b₁ :: b₂ :: b₃ :: rest := by
  obtain ⟨b₀, bs, rfl⟩ := List.exists_cons_of_length_pos (by omega : 0 < bs.length)
  rw [List.length_cons] at h
  obtain ⟨b₁, bs, rfl⟩ := List.exists_cons_of_length_pos (by omega : 0 < bs.length)
  rw [List.length_cons] at h
  obtain ⟨b₂, bs, rfl⟩ := List.exists_cons_of_length_pos (by omega : 0 < bs.length)
  rw [List.length_cons] at h
  obtain ⟨b₃, bs, rfl⟩ := List.exists_cons_of_length_pos (by omega : 0 < bs.length)
  exact ⟨b₀, b₁, b₂, b₃, bs, rfl⟩

/-- The words of a block by their numbers. -/
theorem getElem?_wordsOf {bs : Bytes} {i : ℕ} (h : 4 * i + 4 ≤ bs.length) :
    (Ws.wordsOf bs)[i]? = some (UInt32.ofNat (BigEndian.value ((bs.drop (4 * i)).take 4))) := by
  induction i generalizing bs with
  | zero =>
    obtain ⟨b₀, b₁, b₂, b₃, rest, rfl⟩ := exists_four (by omega : 4 ≤ bs.length)
    rfl
  | succ i ih =>
    obtain ⟨b₀, b₁, b₂, b₃, rest, rfl⟩ := exists_four (by omega : 4 ≤ bs.length)
    simp only [List.length_cons] at h
    rw [Ws.wordsOf, List.getElem?_cons_succ, ih (by omega), Nat.mul_succ]
    rfl

theorem length_wordsOf {bs : Bytes} {n : ℕ} (h : bs.length = 4 * n) :
    (Ws.wordsOf bs).length = n := by
  induction n generalizing bs with
  | zero =>
    obtain rfl := List.length_eq_zero_iff.mp h
    rfl
  | succ n ih =>
    obtain ⟨b₀, b₁, b₂, b₃, rest, rfl⟩ := exists_four (by omega : 4 ≤ bs.length)
    simp only [List.length_cons] at h
    rw [Ws.wordsOf, List.length_cons, ih (by omega)]

theorem length_take_drop {msg : Bytes} {i n : ℕ} (h : i + n ≤ msg.length) :
    ((msg.drop i).take n).length = n :=
  List.length_take_of_le (by rw [List.length_drop]; omega)

theorem length_wordsOf_block {msg : Bytes} {k : ℕ} (h : 64 * k + 64 ≤ msg.length) :
    (Ws.wordsOf ((msg.drop (64 * k)).take 64)).length = 16 :=
  length_wordsOf (length_take_drop h)

/-- Where the words of a block are in the message. -/
theorem getElem?_wordsOf_block {msg : Bytes} {k i : ℕ} (h : 64 * k + 64 ≤ msg.length)
    (hi : i < 16) :
    (Ws.wordsOf ((msg.drop (64 * k)).take 64))[i]? =
      some (UInt32.ofNat (BigEndian.value ((msg.drop (64 * k + 4 * i)).take 4))) := by
  have hlen := length_take_drop h
  rw [getElem?_wordsOf (by omega), List.drop_take, List.drop_drop, List.take_take,
    Nat.min_eq_left (by omega)]

theorem toNat_word {bs : Bytes} (h : bs.length = 4) :
    (UInt32.ofNat (BigEndian.value bs)).toNat = BigEndian.value bs := by
  have hlt := BigEndian.value_lt bs
  rw [h] at hlt
  exact UInt32.toNat_ofNat_of_lt' hlt

/-- One word more, in a table whose next is the word `16 + i`. -/
def extended (w : List UInt32) (i : ℕ) : List UInt32 :=
  w ++ [Ws.rotateLeft
    (w.getD (i + 13) 0 ^^^ w.getD (i + 8) 0 ^^^ w.getD (i + 2) 0 ^^^ w.getD i 0) 1]

theorem length_foldl_extended (w : List UInt32) (j : ℕ) :
    ((List.range j).foldl extended w).length = w.length + j := by
  induction j with
  | zero => rfl
  | succ j ih =>
    rw [List.range_succ, List.foldl_append, List.foldl_cons, List.foldl_nil, extended,
      List.length_append, ih, List.length_singleton, Nat.add_assoc]

theorem concat_words (h : Ws.Sha1State) :
    [BigEndian.encode 4 h.1.toNat, BigEndian.encode 4 h.2.1.toNat,
      BigEndian.encode 4 h.2.2.1.toNat, BigEndian.encode 4 h.2.2.2.1.toNat].foldrM concat
        (BigEndian.encode 4 h.2.2.2.2.toNat) = some (Ws.digest h) := by
  simp [concat, Ws.digest]

/-! ### The program on words -/

section Words

variable {rnd : ℚ → ℚ} (hrnd : ∀ q, Exact q → rnd q = q)

include hrnd

theorem yields_length {s : Bytes} (h : s.length < 2 ^ 53) :
    Yields Fine (length rnd s) (s.length : ℚ) :=
  yields_number hrnd h

/-- The rule for a `for` loop, with the states that it goes through. -/
theorem yields_forLoop {σ : Type} {first last step : ℕ} {body : σ → ℚ → Lua σ} (s : ℕ → σ)
    (hstep : 0 < step) (hlast : last < 2 ^ 53)
    (h : ∀ k, first + step * k ≤ last →
      Yields Fine (body (s k) ((first + step * k : ℕ) : ℚ)) (s (k + 1))) :
    Yields Fine (forLoop rnd first last step (s 0) body) (s ((last + step - first) / step)) := by
  rw [forLoop]
  refine Yields.foldlM_range' s fun k hk => ?_
  have hturn : first + step * k ≤ last := by
    have hle := Nat.mul_le_of_le_div _ _ _ (Nat.succ_le_of_lt hk)
    rw [Nat.succ_mul, Nat.mul_comm k] at hle
    omega
  exact (yields_number hrnd (lt_of_le_of_lt hturn hlast)).bind (h k hturn)

theorem yields_pad {turns : ℕ} {msg : Bytes} (hturns : (120 - msg.length % 64) % 64 < turns)
    (hmsg : msg.length + (120 - msg.length % 64) % 64 < 2 ^ 53) :
    Yields Fine (pad rnd turns msg) (Ws.padZeros msg) := by
  induction turns generalizing msg with
  | zero => exact absurd hturns (Nat.not_lt_zero _)
  | succ turns ih =>
    rw [pad, Ws.padZeros]
    refine (yields_length hrnd (by omega)).bind ?_
    refine (yields_mod hrnd 64 (by omega)).bind ?_
    by_cases hfill : msg.length % 64 = 56
    · rw [if_pos (Nat.cast_inj.mpr hfill), if_pos hfill]
      exact Yields.pure msg
    · have hconcat : concat msg [0] = some (msg ++ [0]) :=
        if_pos (by rw [List.length_singleton]; omega)
      have hlen : (msg ++ [0]).length = msg.length + 1 := by
        rw [List.length_append, List.length_singleton]
      rw [if_neg fun h => hfill (Nat.cast_inj.mp h), if_neg hfill]
      exact (Yields.ofOption hconcat).bind (ih (by omega) (by omega))

theorem yields_quarters {n : ℕ} (h : n < 2 ^ 53) :
    Yields Fine (quarters rnd n) ((quartersOf n).map Nat.cast) := by
  have hle (k : ℕ) : n / 2 ^ k < 2 ^ 53 := lt_of_le_of_lt (Nat.div_le_self _ _) h
  refine (yields_floorDiv (k := 24) hrnd h (by decide)).bind ?_
  refine (yields_mod hrnd 256 (hle 24)).bind ?_
  refine (yields_floorDiv (k := 16) hrnd h (by decide)).bind ?_
  refine (yields_mod hrnd 256 (hle 16)).bind ?_
  refine (yields_floorDiv (k := 8) hrnd h (by decide)).bind ?_
  refine (yields_mod hrnd 256 (hle 8)).bind ?_
  exact (yields_mod hrnd 256 h).bind (Yields.pure _)

theorem yields_padded {turns : ℕ} (hturns : 64 ≤ turns) {msg : Bytes}
    (hmsg : msg.length < 2 ^ 50) : Yields Fine (padded rnd turns msg) (Ws.paddedMsg msg) := by
  have hlen : (msg ++ [0x80]).length = msg.length + 1 := by
    rw [List.length_append, List.length_singleton]
  have hzeros := Nat.mod_lt (120 - (msg ++ [0x80]).length % 64) (by decide : 0 < 64)
  have hconcat : concat msg [0x80] = some (msg ++ [0x80]) :=
    if_pos (by rw [List.length_singleton]; omega)
  have hpad : (Ws.padZeros (msg ++ [0x80])).length < 2 ^ 52 := by
    rw [Ws.padZeros_eq, List.length_append, List.length_replicate, hlen]
    omega
  have hbytes (m n : ℕ) : ∀ x ∈ quartersOf m ++ quartersOf n, x < 256 := by
    intro x hmem
    rcases List.mem_append.mp hmem with hmem | hmem
    · exact quartersOf_lt m x hmem
    · exact quartersOf_lt n x hmem
  have htail := yields_char (P := Fine)
    (hbytes (msg.length * 8 / 2 ^ 32 % 4294967296) (msg.length * 8 % 4294967296))
  rw [List.map_append, List.map_append, ofNat_quartersOf, ofNat_quartersOf,
    encode_halves] at htail
  have hpadded : concat (Ws.padZeros (msg ++ [0x80])) (BigEndian.encode 8 (msg.length * 8)) =
      some (Ws.paddedMsg msg) :=
    if_pos (by rw [BigEndian.length_encode]; omega)
  rw [padded]
  refine (yields_length hrnd (by omega)).bind ?_
  refine (yields_mul hrnd (by omega)).bind ?_
  refine (Yields.ofOption hconcat).bind ?_
  refine (yields_pad hrnd (by omega) (by omega)).bind ?_
  refine (yields_floorDiv (k := 32) hrnd (by omega : msg.length * 8 < 2 ^ 53) (by decide)).bind ?_
  refine (yields_mod hrnd 4294967296 (by omega)).bind ?_
  refine (yields_mod hrnd 4294967296 (by omega)).bind ?_
  refine (yields_quarters hrnd (by omega)).bind ?_
  refine (yields_quarters hrnd (by omega)).bind ?_
  exact htail.bind (Yields.ofOption hpadded)

theorem yields_word {msg : Bytes} {k i : ℕ} (hmsg : msg.length < 2 ^ 52)
    (h : 64 * k + 4 * i + 4 ≤ msg.length) :
    Yields Fine (word rnd msg ((1 + 64 * k : ℕ) : ℚ) (i : ℚ))
      (BigEndian.value ((msg.drop (64 * k + 4 * i)).take 4) : ℚ) := by
  obtain ⟨b₀, b₁, b₂, b₃, rest, hdrop⟩ :=
    exists_four (by rw [List.length_drop]; omega : 4 ≤ (msg.drop (64 * k + 4 * i)).length)
  have hbytes : byteRange msg ((1 + 64 * k + i * 4 : ℕ) : ℤ) ((1 + 64 * k + i * 4 + 3 : ℕ) : ℤ) =
      [b₀.toNat, b₁.toNat, b₂.toNat, b₃.toNat] := by
    have hsub := sub_of_le h
    rw [hdrop] at hsub
    have hfirst : ((64 * k + 4 * i : ℕ) : ℤ) + 1 = ((1 + 64 * k + i * 4 : ℕ) : ℤ) := by omega
    have hlast : ((64 * k + 4 * i : ℕ) : ℤ) + (4 : ℕ) = ((1 + 64 * k + i * 4 + 3 : ℕ) : ℤ) := by
      omega
    rw [hfirst, hlast] at hsub
    rw [byteRange, hsub]
    rfl
  have hvalue : BigEndian.value ((msg.drop (64 * k + 4 * i)).take 4) =
      b₀.toNat * 16777216 + b₁.toNat * 65536 + b₂.toNat * 256 + b₃.toNat := by
    rw [hdrop]
    simp only [BigEndian.value, List.take_succ_cons, List.take_zero, List.length_cons,
      List.length_nil]
    omega
  have h₀ := b₀.toNat_lt
  have h₁ := b₁.toNat_lt
  have h₂ := b₂.toNat_lt
  have h₃ := b₃.toNat_lt
  rw [hvalue, word]
  refine (yields_mul hrnd (by omega)).bind ?_
  refine (yields_add hrnd (by omega)).bind ?_
  refine (yields_mul hrnd (by omega)).bind ?_
  refine (yields_add hrnd (by omega)).bind ?_
  refine (yields_add hrnd (by omega)).bind ?_
  refine (Yields.ofOption (toInteger_natCast _)).bind ?_
  refine (Yields.ofOption (toInteger_natCast _)).bind ?_
  rw [hbytes]
  refine (yields_mul hrnd (by omega)).bind ?_
  refine (yields_mul hrnd (by omega)).bind ?_
  refine (yields_add hrnd (by omega)).bind ?_
  refine (yields_mul hrnd (by omega)).bind ?_
  refine (yields_add hrnd (by omega)).bind ?_
  exact yields_add hrnd (by omega)

/-- The words that are in the block. -/
theorem yields_blockWords {msg : Bytes} {k : ℕ} (hmsg : msg.length < 2 ^ 52)
    (h : 64 * k + 64 ≤ msg.length) :
    Yields Fine (forLoop rnd 0 15 1 [] fun w i => put w (word rnd msg ((1 + 64 * k : ℕ) : ℚ) i))
      (numbers (Ws.wordsOf ((msg.drop (64 * k)).take 64))) := by
  have hlen := length_wordsOf_block h
  have hget {i : ℕ} (hi : i < 16) := getElem?_wordsOf_block h hi
  generalize Ws.wordsOf ((msg.drop (64 * k)).take 64) = ws at hlen hget
  have hloop : Yields Fine
      (forLoop rnd 0 15 1 (numbers (ws.take 0)) fun w i =>
        put w (word rnd msg ((1 + 64 * k : ℕ) : ℚ) i)) (numbers (ws.take 16)) := by
    refine yields_forLoop hrnd (fun i => numbers (ws.take i)) (by decide) (by decide) fun i hi => ?_
    have hfits : 64 * k + 4 * i + 4 ≤ msg.length := by omega
    have hword := yields_word hrnd hmsg hfits
    rw [← toNat_word (length_take_drop hfits)] at hword
    rw [Nat.zero_add, Nat.one_mul, List.take_add_one, hget (by omega)]
    exact yields_put hword
  rwa [List.take_of_length_le hlen.le] at hloop

theorem yields_entry {w : List UInt32} {i m c : ℕ} (hi : i = m + c) (hm : m < w.length)
    (hlt : i < 2 ^ 53) : Yields Fine (entry rnd (numbers w) i c) ((w.getD m 0).toNat : ℚ) := by
  have hget : w[m]? = some (w.getD m 0) := by
    rw [List.getElem?_eq_getElem hm, List.getD_eq_getElem _ _ hm]
  refine (yields_sub hrnd (by omega) hlt).bind (Yields.ofOption ?_)
  rw [hi, Nat.add_sub_cancel]
  exact get_numbers hget

theorem yields_expand {turns : ℕ} (hturns : 32 < turns) {w : List UInt32} {j : ℕ}
    (hw : w.length = 16 + j) (hj : j < 64) :
    Yields Fine (expand rnd turns (numbers w) ((16 + 1 * j : ℕ) : ℚ))
      ((Ws.rotateLeft (w.getD (j + 13) 0 ^^^ w.getD (j + 8) 0 ^^^ w.getD (j + 2) 0 ^^^ w.getD j 0)
        1).toNat : ℚ) := by
  refine (yields_entry hrnd (m := j + 13) (by omega) (by omega) (by omega)).bind ?_
  refine (yields_entry hrnd (m := j + 8) (by omega) (by omega) (by omega)).bind ?_
  refine (yields_bxor hrnd hturns _ _).bind ?_
  refine (yields_entry hrnd (m := j + 2) (by omega) (by omega) (by omega)).bind ?_
  refine (yields_bxor hrnd hturns _ _).bind ?_
  refine (yields_entry hrnd (m := j) (by omega) (by omega) (by omega)).bind ?_
  refine (yields_bxor hrnd hturns _ _).bind ?_
  exact yields_rotl32 hrnd (n := 1) (by decide) (by decide) _

/-- **The words of a block.** -/
theorem yields_words {turns : ℕ} (hturns : 32 < turns) {msg : Bytes} {k : ℕ}
    (hmsg : msg.length < 2 ^ 52) (h : 64 * k + 64 ≤ msg.length) :
    Yields Fine (words rnd turns msg ((1 + 64 * k : ℕ) : ℚ))
      (numbers (Ws.schedule ((msg.drop (64 * k)).take 64))) := by
  refine (yields_blockWords hrnd hmsg h).bind ?_
  refine yields_forLoop hrnd
    (fun j => numbers ((List.range j).foldl extended (Ws.wordsOf ((msg.drop (64 * k)).take 64))))
    (by decide) (by decide) fun j hj => ?_
  have hlength := length_foldl_extended (Ws.wordsOf ((msg.drop (64 * k)).take 64)) j
  rw [length_wordsOf_block h] at hlength
  rw [List.range_succ, List.foldl_append]
  exact yields_put (yields_expand hrnd hturns hlength (by omega))

theorem yields_not (x : UInt32) :
    Yields Fine (sub rnd (0xFFFFFFFF : ℕ) x.toNat) ((~~~x).toNat : ℚ) := by
  have hx : x.toNat < 2 ^ 32 := x.toNat_lt
  rw [UInt32.toNat_not]
  exact yields_sub hrnd (by omega) (by decide)

/-- The function and the constant of a round. -/
theorem yields_choose {turns : ℕ} (hturns : 32 < turns) (i : ℕ) (b c d : UInt32) :
    Yields Fine (choose rnd turns i b.toNat c.toNat d.toNat)
      (((Ws.roundOf i b c d).1.toNat : ℚ), ((Ws.roundOf i b c d).2.toNat : ℚ)) := by
  rw [choose, Ws.roundOf]
  simp only [Nat.cast_lt]
  split_ifs
  · refine (yields_band hrnd hturns b c).bind ?_
    refine (yields_not hrnd b).bind ?_
    refine (yields_band hrnd hturns (~~~b) d).bind ?_
    exact (yields_bor hrnd hturns _ _).bind (Yields.pure _)
  · refine (yields_bxor hrnd hturns b c).bind ?_
    exact (yields_bxor hrnd hturns _ d).bind (Yields.pure _)
  · refine (yields_band hrnd hturns b c).bind ?_
    refine (yields_band hrnd hturns b d).bind ?_
    refine (yields_bor hrnd hturns _ _).bind ?_
    refine (yields_band hrnd hturns c d).bind ?_
    exact (yields_bor hrnd hturns _ _).bind (Yields.pure _)
  · refine (yields_bxor hrnd hturns b c).bind ?_
    exact (yields_bxor hrnd hturns _ d).bind (Yields.pure _)

/-- **One round.** -/
theorem yields_round {turns : ℕ} (hturns : 32 < turns) {w : List UInt32} {i : ℕ} {x : UInt32}
    (hx : w[i]? = some x) (s : Ws.Sha1State) :
    Yields Fine (round rnd turns (numbers w) (nums s) i) (nums (Ws.sha1Round s (x, i))) := by
  obtain ⟨a, b, c, d, e⟩ := s
  have hword (y : UInt32) : y.toNat < 2 ^ 32 := y.toNat_lt
  generalize hchosen : Ws.roundOf i b c d = chosen
  have h₀ := hword (Ws.rotateLeft a 5)
  have h₁ := hword chosen.1
  have h₂ := hword e
  have h₃ := hword chosen.2
  have h₄ := hword x
  have hchoose := yields_choose hrnd hturns i b c d
  rw [hchosen] at hchoose
  have hsum : ((Ws.rotateLeft a 5).toNat + chosen.1.toNat + e.toNat + chosen.2.toNat + x.toNat) %
      0x100000000 = (Ws.rotateLeft a 5 + chosen.1 + e + chosen.2 + x).toNat := by
    simp only [UInt32.toNat_add, Nat.mod_add_mod, Nat.reducePow]
  have hstep : Ws.sha1Round (a, b, c, d, e) (x, i) =
      (Ws.rotateLeft a 5 + chosen.1 + e + chosen.2 + x, a, Ws.rotateLeft b 30, c, d) := by
    rw [Ws.sha1Round, hchosen]
  have hfive : Yields Fine (rotl32 rnd a.toNat (5 : ℕ)) ((Ws.rotateLeft a 5).toNat : ℚ) :=
    yields_rotl32 hrnd (by decide) (by decide) a
  rw [hstep, round]
  dsimp only [nums]
  refine hchoose.bind ?_
  refine hfive.bind ?_
  refine (yields_add hrnd (by omega)).bind ?_
  refine (yields_add hrnd (by omega)).bind ?_
  refine (yields_add hrnd (by omega)).bind ?_
  refine (Yields.ofOption (get_numbers hx)).bind ?_
  refine (yields_add hrnd (by omega)).bind ?_
  refine (yields_mod hrnd 0x100000000 (by omega)).bind ?_
  rw [hsum]
  exact (yields_rotl32 hrnd (n := 30) (by decide) (by decide) b).bind (Yields.pure _)

theorem yields_plus (x y : UInt32) :
    Yields Fine (plus rnd x.toNat y.toNat) ((x + y).toNat : ℚ) := by
  have hx : x.toNat < 2 ^ 32 := x.toNat_lt
  have hy : y.toNat < 2 ^ 32 := y.toNat_lt
  rw [UInt32.toNat_add]
  exact (yields_add hrnd (by omega)).bind (yields_mod hrnd 0x100000000 (by omega))

/-- The rounds of a block. -/
theorem yields_rounds {turns : ℕ} (hturns : 32 < turns) {w : List UInt32} (hw : w.length = 80)
    (s : Ws.Sha1State) :
    Yields Fine (forLoop rnd 0 79 1 (nums s) (round rnd turns (numbers w)))
      (nums (w.zipIdx.foldl Ws.sha1Round s)) := by
  have hlen : w.zipIdx.length = 80 := by rw [List.length_zipIdx, hw]
  have hloop : Yields Fine (forLoop rnd 0 79 1 (nums s) (round rnd turns (numbers w)))
      (nums ((w.zipIdx.take 80).foldl Ws.sha1Round s)) := by
    refine yields_forLoop hrnd (fun i => nums ((w.zipIdx.take i).foldl Ws.sha1Round s))
      (by decide) (by decide) fun i hi => ?_
    have hget : w[i]? = some (w.get ⟨i, by omega⟩) := List.getElem?_eq_getElem (by omega)
    rw [Nat.zero_add, Nat.one_mul, List.take_add_one, List.getElem?_zipIdx, hget, Option.map_some,
      Option.toList_some, List.foldl_append, List.foldl_cons, List.foldl_nil, Nat.zero_add]
    exact yields_round hrnd hturns hget _
  rwa [List.take_of_length_le hlen.le] at hloop

/-- **One block.** -/
theorem yields_processChunk {turns : ℕ} (hturns : 32 < turns) {msg : Bytes} {k : ℕ}
    (hmsg : msg.length < 2 ^ 52) (h : 64 * k + 64 ≤ msg.length) (s : Ws.Sha1State) :
    Yields Fine (processChunk rnd turns msg (nums s) ((1 + 64 * k : ℕ) : ℚ))
      (nums (Ws.processBlock s ((msg.drop (64 * k)).take 64))) := by
  have hlen : (Ws.schedule ((msg.drop (64 * k)).take 64)).length = 80 := by
    have hlength := length_foldl_extended (Ws.wordsOf ((msg.drop (64 * k)).take 64)) 64
    rwa [length_wordsOf_block h] at hlength
  rw [Ws.processBlock]
  refine (yields_words hrnd hturns hmsg h).bind ?_
  refine (yields_rounds hrnd hturns hlen s).bind ?_
  generalize (Ws.schedule ((msg.drop (64 * k)).take 64)).zipIdx.foldl Ws.sha1Round s = t
  obtain ⟨a, b, c, d, e⟩ := t
  refine (yields_plus hrnd s.1 a).bind ?_
  refine (yields_plus hrnd s.2.1 b).bind ?_
  refine (yields_plus hrnd s.2.2.1 c).bind ?_
  refine (yields_plus hrnd s.2.2.2.1 d).bind ?_
  exact (yields_plus hrnd s.2.2.2.2 e).bind (Yields.pure _)

theorem yields_bytes (x : UInt32) :
    Yields Fine (bytes rnd x.toNat) (BigEndian.encode 4 x.toNat) := by
  have hx : x.toNat < 2 ^ 32 := x.toNat_lt
  refine (yields_quarters hrnd (by omega : x.toNat < 2 ^ 53)).bind ?_
  rw [← ofNat_quartersOf]
  exact yields_char (quartersOf_lt x.toNat)

/-- **All blocks.** -/
theorem yields_blocks {turns : ℕ} (hturns : 32 < turns) {msg : Bytes} (hmsg : msg.length < 2 ^ 52)
    (hdvd : 64 ∣ msg.length) (s : Ws.Sha1State) :
    Yields Fine (forLoop rnd 1 msg.length 64 (nums s) (processChunk rnd turns msg))
      (nums ((Ws.sha1Blocks.items msg).foldl Ws.processBlock s)) := by
  have hcount : (msg.length + 64 - 1) / 64 = (Ws.sha1Blocks.items msg).length := by
    rw [Ws.sha1Blocks, Deframer.length_items_blocks]
    omega
  have hloop : Yields Fine (forLoop rnd 1 msg.length 64 (nums s) (processChunk rnd turns msg))
      (nums (((Ws.sha1Blocks.items msg).take ((msg.length + 64 - 1) / 64)).foldl
        Ws.processBlock s)) := by
    refine yields_forLoop hrnd
      (fun k => nums (((Ws.sha1Blocks.items msg).take k).foldl Ws.processBlock s))
      (by decide) (by omega) fun k hk => ?_
    have hfits : 64 * k + 64 ≤ msg.length := by omega
    rw [List.take_add_one, Deframer.getElem?_items_blocks hfits, List.foldl_append,
      Option.toList_some, List.foldl_cons, List.foldl_nil]
    exact yields_processChunk hrnd hturns hmsg hfits _
  rwa [hcount, List.take_length] at hloop

/-- **The digest.** -/
theorem yields_sha1 {turns : ℕ} (hturns : 64 ≤ turns) {msg : Bytes} (hmsg : msg.length < 2 ^ 50) :
    Yields Fine (sha1 rnd turns msg) (Ws.Async.sha1 msg) := by
  have hlen : (Ws.paddedMsg msg).length < 2 ^ 52 := by
    rw [Ws.paddedMsg_eq]
    simp only [List.length_append, List.length_replicate, List.length_singleton,
      BigEndian.length_encode]
    omega
  have hdvd := Ws.dvd_length_paddedMsg msg
  rw [Ws.sha1_eq, sha1]
  refine (yields_padded hrnd hturns hmsg).bind ?_
  refine (yields_length hrnd (by omega)).bind ?_
  refine (yields_blocks hrnd (by omega) hlen hdvd Ws.Sha1.new.state).bind ?_
  generalize (Ws.sha1Blocks.items (Ws.paddedMsg msg)).foldl Ws.processBlock Ws.Sha1.new.state = h
  refine (yields_bytes hrnd h.1).bind ?_
  refine (yields_bytes hrnd h.2.1).bind ?_
  refine (yields_bytes hrnd h.2.2.1).bind ?_
  refine (yields_bytes hrnd h.2.2.2.1).bind ?_
  refine (yields_bytes hrnd h.2.2.2.2).bind ?_
  exact Yields.ofOption (concat_words h)

end Words

/-- **The Lua port computes the SHA-1 of `rust-lib-async`**, on every host that has the exact
numbers: what its operations come to are integers below `2 ^ 53`, or quotients that are exact. -/
theorem sha1_exact {rnd : ℚ → ℚ} (hrnd : ∀ q, Exact q → rnd q = q) {turns : ℕ} (hturns : 64 ≤ turns)
    {msg : Bytes} (hmsg : msg.length < 2 ^ 50) :
    (sha1 rnd turns msg).result = some (Ws.Async.sha1 msg) ∧ (Ws.Async.sha1 msg).length = 20 ∧
      ∀ v ∈ (sha1 rnd turns msg).trace, Fine v := by
  have hyields := yields_sha1 hrnd hturns hmsg
  refine ⟨hyields.result, ?_, hyields.trace⟩
  rw [Ws.sha1_eq, Ws.length_digest]

theorem sha1_exact_abc :
    (sha1 id 64 [0x61, 0x62, 0x63]).result = some (Ws.Async.sha1 [0x61, 0x62, 0x63]) ∧
      (Ws.Async.sha1 [0x61, 0x62, 0x63]).length = 20 ∧
        ∀ v ∈ (sha1 id 64 [0x61, 0x62, 0x63]).trace, Fine v :=
  sha1_exact (fun _ _ => rfl) (by decide) (by decide)

/-- The quotients are no integers: the eight bits of one byte are divided by `2 ^ 32`. -/
theorem not_integers :
    ¬ ∀ v ∈ (sha1 id 64 [0]).trace, ∃ n : ℕ, n < 2 ^ 53 ∧ v.val = n := by
  intro hall
  have hpadded : Intermediate.quotient (8 / 4294967296) ∈ (padded id 64 [0]).trace := by
    decide +kernel
  obtain ⟨n, -, hn⟩ := hall _ (mem_trace_bind hpadded _)
  have heq : (8 : ℚ) = n * 4294967296 := (div_eq_iff (by norm_num)).mp hn
  have hnat : 8 = n * 4294967296 := by exact_mod_cast heq
  omega

end Arith

end LuaLib

end Aiomsg
