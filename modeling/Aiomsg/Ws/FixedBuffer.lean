import Aiomsg.Ws.Upgrade

/-!
# The sniff with a fixed buffer

`server_sniff` of `c-lib/src/aiomsg.c` and `serverSniff` of `zig-lib/src/aiomsg.zig`, which are the
same. The request is copied into an array of 8192 bytes. A read brings up to 2048, and of those the
copying loop takes as many as there is room for. If the blank line is among them it has been found
all the same, and the bytes that have not been copied are not looked at again.

## Scope

The function that validates a request is a parameter, as the two ports have different ones. Whether
the response is written is not looked at. Behind the sniff the leftover is fed to the parser before
anything else is read, and what the parser makes of it belongs to the sessions.

## Main definitions

* `readRequest`, `serverSniff`

## Main results

* `readRequest_eq` — how much has been copied, and how much has been read
* `keeps_iff` — when no byte is lost
-/

namespace Aiomsg

namespace Ws

namespace FixedBuffer

/-- The size of the array. -/
def size : ℕ := 8192

/-- What the loop that reads the request ends with. -/
inductive Request where
  /-- What has been copied, and where the blank line ends in it. -/
  | complete (req : Bytes) (termEnd : ℕ) (rest : Source)
  /-- The array is full, and there is no blank line in it. -/
  | tooLong
  | dropped

/-- The loop that reads the request. The clock says behind which reads the deadline has passed. -/
def readRequest (retry : ErrorKind → Bool) (late : ℕ → Bool) (turn : ℕ) (req : Bytes)
    (src : Source) : Request :=
  if req.length < size then
    match _h : src.read 2048 with
    | (.ok [], _) => .dropped
    | (.ok (b :: bs), src') =>
      if late turn then .dropped
      else
        match headerEnd (req ++ (b :: bs).take (size - req.length)) with
        | some termEnd => .complete (req ++ (b :: bs).take (size - req.length)) termEnd src'
        | none => readRequest retry late (turn + 1) (req ++ (b :: bs).take (size - req.length)) src'
    | (.error kind, src') =>
      if ¬ retry kind ∨ late turn then .dropped else readRequest retry late (turn + 1) req src'
  else .tooLong
termination_by src.weight
decreasing_by
  · have hweight := (Source.read_ok _h).2.1
    rw [List.length_cons] at hweight
    omega
  · rw [Source.read_error _h, Source.weight]
    omega

/-- What a sniff comes to, and what has been written. -/
inductive Sniffed where
  /-- Raw aiomsg, with the byte that is pushed into the decoder. -/
  | raw (first : UInt8) (rest : Source)
  /-- Upgraded, with what is fed to the parser before anything else is read. -/
  | webSocket (response leftover : Bytes) (rest : Source)
  | drop (response : Option Bytes)

/-- The sniff, with the function that validates a request and gives the response. -/
def serverSniff (handshake : Bytes → Except Bytes Bytes) (retry : ErrorKind → Bool)
    (late late' : ℕ → Bool) (src : Source) : Sniffed :=
  match src.gather 1 (· ≠ []) retry ⟨fun _ => false, late⟩ 0 [] with
  | .stopped (first :: _) rest =>
    if first = 0x00 then .raw first rest
    else if first ≠ 71 then .drop none
    else
      match readRequest retry late' 0 [71] rest with
      | .dropped => .drop none
      | .tooLong => .drop (some (asBytes "HTTP/1.1 400 Bad Request\r\n\r\n".toList))
      | .complete req termEnd rest =>
        match handshake (req.take termEnd) with
        | .error response => .drop (some response)
        | .ok response => .webSocket response (req.drop termEnd) rest
  | _ => .drop none

/-- All bytes that the parser is fed: the leftover, and what later reads bring. -/
def Sniffed.fed : Sniffed → Option Bytes
  | .webSocket _ leftover rest => some (leftover ++ rest.stream)
  | _ => none

section Keeps

variable {retry : ErrorKind → Bool} {late : ℕ → Bool}

/-- What the copying loop takes of a read. -/
theorem append_take_eq (bytes more : Bytes) {req : Bytes} (hroom : req.length ≤ size) :
    req ++ bytes.take (size - req.length)
      = (req ++ (bytes ++ more)).take (min (req.length + bytes.length) size) := by
  have hsplit : min (req.length + bytes.length) size
      = req.length + min bytes.length (size - req.length) := by omega
  rw [hsplit, List.take_length_add_append, List.take_append_of_le_length (Nat.min_le_left _ _),
    Nat.min_comm, ← List.take_eq_take_min]

/-- **What has been copied, and what has been read**, once the blank line has been found: the read
that brings it has been read to its end, and it has been copied as far as there is room. -/
theorem readRequest_eq (hlate : ∀ turn, late turn = false) (turn : ℕ) {req : Bytes} {src : Source}
    (hsrc : src.OnlyErrors (retry ·)) {n : ℕ} (hend : headerEnd (req ++ src.stream) = some n)
    (hn : req.length < n) (hsize : n ≤ size) :
    ∃ rest, readRequest retry late turn req src
        = .complete ((req ++ src.stream).take (min (src.readEnd 2048 n req.length) size)) n rest ∧
      rest.stream = (req ++ src.stream).drop (src.readEnd 2048 n req.length) ∧
      n ≤ src.readEnd 2048 n req.length ∧
      src.readEnd 2048 n req.length ≤ (req ++ src.stream).length := by
  fun_induction readRequest retry late turn req src with
  | case1 turn req src hroom src' hread =>
    obtain rfl := Source.read_eof (by decide) hread
    rw [Source.stream_nil, List.append_nil] at hend
    exact absurd (headerEnd_le hend) (Nat.not_le.mpr hn)
  | case2 turn req src hroom b bs src' hread hover => exact absurd hover (by simp [hlate])
  | case3 turn req src hroom b bs src' hread hover termEnd hfound =>
    obtain ⟨hstream, -, -⟩ := Source.read_ok hread
    have hcopied := append_take_eq (b :: bs) src'.stream (Nat.le_of_lt hroom)
    rw [← hstream] at hcopied
    have hsome : ∃ m, headerEnd (req ++ src.stream) = some m ∧
        m ≤ min (req.length + (b :: bs).length) size ∧ m = termEnd := by
      rw [hcopied, headerEnd_take] at hfound
      obtain ⟨hm, hle⟩ := Option.filter_eq_some_iff.mp hfound
      exact ⟨termEnd, hm, of_decide_eq_true hle, rfl⟩
    obtain ⟨m, hm, hle, rfl⟩ := hsome
    obtain rfl := Option.some.inj (hend.symm.trans hm)
    have hreadEnd : src.readEnd 2048 n req.length = req.length + (b :: bs).length := by
      rw [Source.readEnd_of_read hread hn, Source.readEnd_of_le (by omega)]
    refine ⟨src', ?_, ?_, ?_, ?_⟩
    · rw [hreadEnd, hcopied]
    · rw [hreadEnd, hstream, List.drop_length_add_append, List.drop_left]
    · rw [hreadEnd]
      omega
    · rw [hreadEnd, hstream, List.length_append, List.length_append]
      omega
  | case4 turn req src hroom b bs src' hread hover hnone ih =>
    obtain ⟨hstream, -, honly⟩ := Source.read_ok hread
    have hcopied := append_take_eq (b :: bs) src'.stream (Nat.le_of_lt hroom)
    rw [← hstream] at hcopied
    -- there is room for all of the read, since the blank line ends behind it
    have hbefore : req.length + (b :: bs).length < n := by
      rw [hcopied, headerEnd_take, hend, Option.filter_some] at hnone
      split_ifs at hnone with hle
      have hle' : ¬ n ≤ min (req.length + (b :: bs).length) size := by simpa using hle
      omega
    have hall : (b :: bs).take (size - req.length) = b :: bs :=
      List.take_of_length_le (by omega)
    have hreadEnd := Source.readEnd_of_read hread hn
    rw [hall] at ih ⊢
    rw [List.append_assoc, ← hstream, List.length_append] at ih
    rw [hreadEnd]
    exact ih (honly _ hsrc) hend hbefore
  | case5 turn req src hroom kind src' hread hgives =>
    obtain rfl := Source.read_error hread
    have hretry := hsrc kind List.mem_cons_self
    simp [hlate, hretry] at hgives
  | case6 turn req src hroom kind src' hread hgoes ih =>
    obtain rfl := Source.read_error hread
    have hsame : Source.readEnd 2048 n req.length (.err kind :: src')
        = src'.readEnd 2048 n req.length := by
      rw [Source.readEnd, if_neg (by omega)]
      rfl
    rw [hsame]
    exact ih hsrc.tail hend hn
  | case7 turn req src hfull => omega

/-- **When no byte is lost.** For a stream that begins with a `G` and with a good request that fits
into the array, the parser is fed what comes behind the request if the read that brings the end of
the request ends within the array, and only then. -/
theorem keeps_iff {handshake : Bytes → Except Bytes Bytes} {late' : ℕ → Bool}
    (hlate : ∀ turn, late turn = false) (hlate' : ∀ turn, late' turn = false) {src : Source}
    (hsrc : src.OnlyErrors (retry ·)) {bytes response : Bytes} (hstream : src.stream = 71 :: bytes)
    {n : ℕ} (hend : headerEnd (71 :: bytes) = some n) (hsize : n ≤ size)
    (hgood : handshake ((71 :: bytes).take n) = .ok response) :
    (serverSniff handshake retry late late' src).fed = some ((71 :: bytes).drop n) ↔
      src.behindFirst.readEnd 2048 n 1 ≤ size := by
  have hclock : (⟨fun _ => false, late⟩ : Source.Clock).Never := ⟨fun _ => rfl, hlate⟩
  obtain ⟨hfirst, hrest⟩ := Source.gather_first retry hclock 0 hsrc hstream
  have hfour := four_le_headerEnd hend
  have hbefore : [(71 : UInt8)].length < n := by
    rw [List.length_singleton]
    omega
  obtain ⟨rest, hread, hdrop, hle, hlength⟩ :=
    readRequest_eq hlate' 0 hsrc.behindFirst (by rwa [hrest]) hbefore hsize
  rw [hrest, List.length_singleton, List.singleton_append] at hread hdrop hlength
  rw [List.length_singleton] at hle
  generalize src.behindFirst.readEnd 2048 n 1 = pos at hread hdrop hle hlength ⊢
  have hcopied : ((71 :: bytes).take (min pos size)).take n = (71 :: bytes).take n := by
    rw [List.take_take, Nat.min_eq_left (by omega)]
  rw [serverSniff, hfirst]
  dsimp only
  rw [if_neg (by decide), if_neg (by decide), hread]
  dsimp only
  rw [hcopied, hgood]
  dsimp only
  rw [Sniffed.fed, Option.some.injEq, hdrop]
  constructor
  · intro hsame
    have hcount := congrArg List.length hsame
    rw [List.length_append, List.length_drop, List.length_drop, List.length_drop,
      List.length_take] at hcount
    omega
  · intro hfits
    have hjoin := congrArg (List.drop n) (List.take_append_drop pos (71 :: bytes))
    rw [List.drop_append_of_le_length (by rw [List.length_take]; omega)] at hjoin
    rw [Nat.min_eq_left hfits, hjoin]

end Keeps

end FixedBuffer

end Ws

end Aiomsg
