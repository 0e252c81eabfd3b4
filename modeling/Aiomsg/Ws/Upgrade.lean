import Aiomsg.Lib.Gather
import Aiomsg.Protocol.FrameDecoder
import Aiomsg.Ws.Accept

/-!
# The upgrade on the server side

`accept_upgrade` of `rust-lib-sync/src/ws.rs`. It reads until the blank line is there or more than
`MAX_REQUEST_BYTES` bytes are, and looks for the blank line first. A request that goes beyond the
cap by less than a read is therefore answered as its headers say if its last read brings the blank
line, and with `400 Bad Request` if an earlier one goes beyond the cap without it.

## Scope

The deadline is looked at before each read, through `late`. A response is written in one piece or
fails. The base64 and the SHA-1 behind the accept key are the crate's own, and are computed here.

## Main definitions

* `acceptUpgrade`
* `Upgrade.outcome` — what is seen of it: the answer, and the bytes behind the request
* `NearCap` — the requests for which it matters where the reads end

## Main results

* `independent_acceptUpgrade_iff`
-/

namespace Aiomsg

namespace Ws

open Protocol (transient)

/-- `MAX_REQUEST_BYTES` -/
def maxRequestBytes : ℕ := 8192

/-- The end of the blank line: `find_subsequence(&buf, b"\r\n\r\n")` and four. -/
def headerEnd (buf : Bytes) : Option ℕ := Split.findEnd [13, 10, 13, 10] buf

/-- When the loop that reads the request stops. -/
def requestRead (buf : Bytes) : Bool := (headerEnd buf).isSome || maxRequestBytes < buf.length

/-- What `accept_upgrade` returns, and what it has written. -/
inductive Upgrade where
  /-- `Ok(Some(_))`, with a stream that begins with the leftover. -/
  | accepted (response leftover : Bytes) (rest : Source)
  /-- `Ok(None)`, with the answer if there is one. -/
  | rejected (response : Option Bytes)
  /-- `Err(_)` -/
  | failed (kind : ErrorKind)

/-- Behind the loop. The writing of the response fails if `written` has an error kind; nobody looks
at that of an error response. -/
def respond (written : Option ErrorKind) (buf : Bytes) (rest : Source) : Upgrade :=
  match headerEnd buf with
  | none => .rejected (some (errorResponse .badRequest))
  | some n =>
    match Sync.parseUpgrade (buf.take n) with
    | .ok key =>
      match written with
      | none => .accepted (successResponse key) (buf.drop n) rest
      | some kind => .failed kind
    | .error status => .rejected (some (errorResponse status))

/-- `accept_upgrade`. The clock says before which reads the deadline has passed. -/
def acceptUpgrade (late : ℕ → Bool) (written : Option ErrorKind) (first : Option UInt8)
    (src : Source) : Upgrade :=
  match src.gather 1024 requestRead transient ⟨late, fun _ => false⟩ 0 first.toList with
  | .stopped buf rest => respond written buf rest
  | .eof => .rejected none
  | .late => .rejected none
  | .failed kind => .failed kind

/-- What is seen of an upgrade. -/
inductive Outcome where
  /-- The answer, and the bytes behind the request, those that have been read and the others. -/
  | accepted (response following : Bytes)
  | rejected (response : Option Bytes)
  | failed (kind : ErrorKind)
deriving DecidableEq

def Upgrade.outcome : Upgrade → Outcome
  | .accepted response leftover rest => .accepted response (leftover ++ rest.stream)
  | .rejected response => .rejected response
  | .failed kind => .failed kind

/-- The answer to a request of `n` bytes at the beginning of a stream. -/
def answer (written : Option ErrorKind) (stream : Bytes) (n : ℕ) : Outcome :=
  match Sync.parseUpgrade (stream.take n) with
  | .ok key =>
    match written with
    | none => .accepted (successResponse key) (stream.drop n)
    | some kind => .failed kind
  | .error status => .rejected (some (errorResponse status))

/-- The answer to a request that is too long. -/
def tooLong : Outcome := .rejected (some (errorResponse .badRequest))

/-- The requests for which it matters where the reads end: those that go beyond the cap by two bytes
at least, and by no more than one read, and that are not answered with `400 Bad Request` anyway. -/
def NearCap (stream : Bytes) : Prop :=
  ∃ n, headerEnd stream = some n ∧ maxRequestBytes + 1 < n ∧ n ≤ maxRequestBytes + 1024 ∧
    Sync.parseUpgrade (stream.take n) ≠ .error .badRequest

theorem four_le_headerEnd {stream : Bytes} {n : ℕ} (h : headerEnd stream = some n) : 4 ≤ n := by
  obtain ⟨i, -, rfl⟩ := Option.map_eq_some_iff.mp h
  exact Nat.le_add_left _ _

theorem headerEnd_take (stream : Bytes) (k : ℕ) :
    headerEnd (stream.take k) = (headerEnd stream).filter (· ≤ k) := Split.findEnd_take _ _ _

theorem headerEnd_le {stream : Bytes} {n : ℕ} (h : headerEnd stream = some n) :
    n ≤ stream.length := Split.findEnd_le h

theorem headerEnd_append {xs : Bytes} {n : ℕ} (h : headerEnd xs = some n) (ys : Bytes) :
    headerEnd (xs ++ ys) = some n := by
  obtain ⟨i, hi, rfl⟩ := Option.map_eq_some_iff.mp h
  rw [headerEnd, Split.findEnd, Split.find_append hi, Option.map_some]

/-- When the loop stops at a prefix. -/
theorem requestRead_take_iff {stream : Bytes} {k : ℕ} (hk : k ≤ stream.length) :
    requestRead (stream.take k) = true ↔
      (∃ n, headerEnd stream = some n ∧ n ≤ k) ∨ maxRequestBytes < k := by
  rw [requestRead, headerEnd_take, Bool.or_eq_true, decide_eq_true_eq, List.length_take,
    Nat.min_eq_left hk]
  cases headerEnd stream with
  | none => simp
  | some n => simp [Option.filter]

/-- If the end of the request is not there, the loop stops beyond the cap. -/
theorem lt_of_requestRead_take {stream : Bytes} {k : ℕ} (hk : k ≤ stream.length)
    (hstop : requestRead (stream.take k) = true)
    (hend : ∀ n, headerEnd stream = some n → k < n) : maxRequestBytes < k := by
  rcases (requestRead_take_iff hk).mp hstop with ⟨n, hn, hle⟩ | hlong
  · exact absurd hle (Nat.not_le.mpr (hend n hn))
  · exact hlong

/-- The loop has not stopped when the stream ends. -/
theorem requestRead_eq_false_iff {stream : Bytes} : requestRead stream = false ↔
    headerEnd stream = none ∧ stream.length ≤ maxRequestBytes := by
  rw [requestRead, Bool.or_eq_false_iff, Option.isSome_eq_false_iff, Option.isNone_iff_eq_none,
    decide_eq_false_iff_not, Nat.not_lt]

theorem errorResponse_upgradeRequired_ne :
    errorResponse .upgradeRequired ≠ errorResponse .badRequest := by decide

/-- An answer is the answer to a request that is too long if the request is a bad one, and only
then. -/
theorem answer_eq_tooLong_iff (written : Option ErrorKind) (stream : Bytes) (n : ℕ) :
    answer written stream n = tooLong ↔
      Sync.parseUpgrade (stream.take n) = .error .badRequest := by
  rw [answer, tooLong]
  match Sync.parseUpgrade (stream.take n) with
  | .ok key =>
    cases written <;> simp
  | .error .badRequest => simp
  | .error .upgradeRequired => simp [errorResponse_upgradeRequired_ne]

/-- What is seen is decided by how much has been read when the loop stops. -/
theorem outcome_respond (written : Option ErrorKind) {buf stream : Bytes} {rest : Source}
    (hstream : buf ++ rest.stream = stream) :
    (respond written buf rest).outcome = match (headerEnd stream).filter (· ≤ buf.length) with
      | none => tooLong
      | some n => answer written stream n := by
  have hbuf : stream.take buf.length = buf := by rw [← hstream, List.take_left]
  have hheader := headerEnd_take stream buf.length
  rw [hbuf] at hheader
  rw [respond, ← hheader]
  match hend : headerEnd buf with
  | none => rfl
  | some n =>
    have hle := headerEnd_le hend
    have htake : stream.take n = buf.take n := by
      rw [← hstream, List.take_append_of_le_length hle]
    have hdrop : stream.drop n = buf.drop n ++ rest.stream := by
      rw [← hstream, List.drop_append_of_le_length hle]
    dsimp only
    rw [answer, htake, hdrop]
    match Sync.parseUpgrade (buf.take n) with
    | .error status => rfl
    | .ok key => cases written <;> rfl

section Outcome

variable (written : Option ErrorKind) {first : Option UInt8}

/-- What comes of a stream wherever the reads end, if it does not matter where they do. -/
def settled (stream : Bytes) : Outcome :=
  match headerEnd stream with
  | some n => if n ≤ maxRequestBytes + 1024 then answer written stream n else tooLong
  | none => if maxRequestBytes < stream.length then tooLong else .rejected none

theorem length_toList_le (first : Option UInt8) : first.toList.length ≤ 1 := by
  cases first <;> simp

/-- What is there when the loop stops is within a read of the cap. -/
theorem le_of_reach {stream buf : Bytes} {k : ℕ} (hk : k ≤ stream.length)
    (hbuf : buf.length ≤ maxRequestBytes)
    (hreach : stream.take k = buf ∨ ∃ j, buf.length ≤ j ∧ j < k ∧ k ≤ j + 1024 ∧
      requestRead (stream.take j) = false) : k ≤ maxRequestBytes + 1024 := by
  rcases hreach with hall | ⟨j, -, hlt, hread, hnot⟩
  · have hlength := congrArg List.length hall
    rw [List.length_take, Nat.min_eq_left hk] at hlength
    omega
  · rw [Bool.eq_false_iff, Ne, requestRead_take_iff (by omega)] at hnot
    have hcap : ¬ maxRequestBytes < j := fun h => hnot (.inr h)
    omega

theorem outcome_acceptUpgrade {src : Source} (hsrc : src.OnlyErrors (transient ·))
    (hcaps : ¬ NearCap (first.toList ++ src.stream)) :
    (acceptUpgrade (fun _ => false) written first src).outcome
      = settled written (first.toList ++ src.stream) := by
  have hclock : Source.Clock.Never ⟨fun _ => false, fun _ => false⟩ :=
    ⟨fun _ => rfl, fun _ => rfl⟩
  have hspec := Source.gather_spec requestRead transient (by decide : 0 < 1024) hclock 0
    first.toList hsrc
  have hfirst := length_toList_le first
  rw [acceptUpgrade]
  generalize first.toList ++ src.stream = stream at hspec hcaps ⊢
  generalize src.gather _ _ _ _ _ _ = r at hspec ⊢
  cases hspec with
  | eof hstop =>
    obtain ⟨hend, hshort⟩ := requestRead_eq_false_iff.mp hstop
    rw [settled, hend]
    exact (if_neg (Nat.not_lt.mpr hshort)).symm
  | @stopped buf rest hstop hstream hreach =>
    have hbuf : stream.take buf.length = buf := by rw [← hstream, List.take_left]
    have hlength : buf.length ≤ stream.length := by
      rw [← hstream, List.length_append]
      exact Nat.le_add_right _ _
    rw [← hbuf] at hstop
    have hle : buf.length ≤ maxRequestBytes + 1024 :=
      le_of_reach hlength (Nat.le_trans hfirst (by decide)) (by rwa [hbuf])
    rw [outcome_respond written hstream, settled]
    match hend : headerEnd stream with
    | none =>
      have hlong : maxRequestBytes < buf.length :=
        lt_of_requestRead_take hlength hstop (by rw [hend]; exact nofun)
      exact (if_pos (Nat.lt_of_lt_of_le hlong hlength)).symm
    | some n =>
      by_cases hn : n ≤ buf.length
      · rw [Option.filter_some, if_pos (by simpa using hn)]
        exact (if_pos (Nat.le_trans hn hle)).symm
      · rw [Option.filter_some, if_neg (by simpa using hn)]
        dsimp only
        split_ifs with hband
        · have hover : maxRequestBytes < buf.length := by
            refine lt_of_requestRead_take hlength hstop fun m hm => ?_
            obtain rfl := Option.some.inj (hend.symm.trans hm)
            exact Nat.not_le.mp hn
          refine ((answer_eq_tooLong_iff written stream n).mpr ?_).symm
          by_contra hbad
          exact hcaps ⟨n, hend, by omega, hband, hbad⟩
        · rfl

/-- A prefix within a read of the cap is reached. -/
theorem exists_acceptUpgrade (first : Option UInt8) (bytes : Bytes) {k : ℕ}
    (hcap : maxRequestBytes < k) (hread : k ≤ maxRequestBytes + 1024)
    (hk : k ≤ (first.toList ++ bytes).length)
    (hend : ∀ n, headerEnd (first.toList ++ bytes) = some n → maxRequestBytes < n) :
    ∃ src : Source, src.Clean ∧ src.stream = bytes ∧
      (acceptUpgrade (fun _ => false) written first src).outcome
        = match (headerEnd (first.toList ++ bytes)).filter (· ≤ k) with
          | none => tooLong
          | some n => answer written (first.toList ++ bytes) n := by
  have hfirst := length_toList_le first
  have hbuf : (first.toList ++ bytes).take first.toList.length = first.toList := List.take_left
  have hle : first.toList.length ≤ maxRequestBytes := Nat.le_trans hfirst (by decide)
  have hstop : requestRead ((first.toList ++ bytes).take k) = true :=
    (requestRead_take_iff hk).mpr (.inr hcap)
  have hnot : ∀ i, first.toList.length ≤ i → i ≤ maxRequestBytes →
      requestRead ((first.toList ++ bytes).take i) = false := by
    intro i _ hi
    rw [Bool.eq_false_iff, Ne, requestRead_take_iff (by omega)]
    rintro (⟨n, hn, hle'⟩ | hover)
    · have hlong := hend n hn
      omega
    · omega
  obtain ⟨src, hclean, hstream, hgather⟩ :=
    Source.exists_gather (by decide : 0 < 1024) hbuf hle hnot hcap hread hk hstop
  obtain ⟨rest, hrun, hrest⟩ :=
    hgather ⟨fun _ => false, fun _ => false⟩ ⟨fun _ => rfl, fun _ => rfl⟩ transient 0
  refine ⟨src, hclean, List.append_cancel_left hstream, ?_⟩
  have hjoin : (first.toList ++ bytes).take k ++ rest.stream = first.toList ++ bytes := by
    rw [hrest, List.take_append_drop]
  rw [acceptUpgrade, hrun]
  dsimp only
  rw [outcome_respond written hjoin, List.length_take, Nat.min_eq_left hk]

/-- **When it does not matter** to `accept_upgrade` where the reads end. -/
theorem independent_acceptUpgrade_iff (first : Option UInt8) (bytes : Bytes) :
    Source.Independent (transient ·)
        (fun src => (acceptUpgrade (fun _ => false) written first src).outcome) bytes
      ↔ ¬ NearCap (first.toList ++ bytes) := by
  constructor
  · rintro hsame ⟨n, hend, hlt, hle, hgood⟩
    have hn := headerEnd_le hend
    have hlong : ∀ m, headerEnd (first.toList ++ bytes) = some m → maxRequestBytes < m := by
      intro m hm
      obtain rfl := Option.some.inj (hend.symm.trans hm)
      omega
    obtain ⟨src, hclean, hstream, hout⟩ := exists_acceptUpgrade written first bytes
      (k := maxRequestBytes + 1) (by omega) (by omega) (by omega) hlong
    obtain ⟨src', hclean', hstream', hout'⟩ := exists_acceptUpgrade written first bytes (k := n)
      (by omega) hle hn hlong
    have heq := hsame src src' (hclean.onlyErrors _) (hclean'.onlyErrors _) hstream hstream'
    dsimp only at heq
    rw [hout, hout', hend, Option.filter_some, Option.filter_some, if_neg (by simpa using hlt),
      if_pos (by simp)] at heq
    exact hgood ((answer_eq_tooLong_iff written _ n).mp heq.symm)
  · intro hcaps src src' hsrc hsrc' hstream hstream'
    dsimp only
    rw [outcome_acceptUpgrade written hsrc (by rwa [hstream]),
      outcome_acceptUpgrade written hsrc' (by rwa [hstream']), hstream, hstream']

end Outcome

/-! ### A long path -/

/-- The request line of a request with a long path. -/
def longLine (n : ℕ) : Text := "GET ".toList ++ ('/' :: List.replicate n 'a') ++ " HTTP/1.1".toList

/-- Headers that name no version. -/
def plainHeaders : Text := "Upgrade: websocket\r\nConnection: Upgrade\r\n\r\n".toList

/-- A request with a long path. -/
def longPath (n : ℕ) : Bytes := asBytes (longLine n ++ '\r' :: '\n' :: plainHeaders)

theorem asBytes_append (s t : Text) : asBytes (s ++ t) = asBytes s ++ asBytes t :=
  List.flatMap_append

theorem asBytes_replicate (n : ℕ) : asBytes (List.replicate n 'a') = List.replicate n 97 := by
  induction n with
  | zero => rfl
  | succ n ih =>
    rw [List.replicate_succ, List.replicate_succ, ← ih]
    rfl

theorem asBytes_longLine (n : ℕ) : asBytes (longLine n) =
    asBytes "GET ".toList ++ (47 :: List.replicate n 97) ++ asBytes " HTTP/1.1".toList := by
  rw [longLine, asBytes_append, asBytes_append, ← asBytes_replicate]
  rfl

theorem mem_asBytes_longLine {n : ℕ} {b : UInt8} (h : b ∈ asBytes (longLine n)) :
    b ∈ asBytes "GET ".toList ∨ b = 47 ∨ b = 97 ∨ b ∈ asBytes " HTTP/1.1".toList := by
  rw [asBytes_longLine, List.mem_append, List.mem_append, List.mem_cons, List.mem_replicate] at h
  tauto

theorem longPath_eq (n : ℕ) :
    longPath n = asBytes (longLine n) ++ (13 :: 10 :: asBytes plainHeaders) := by
  rw [longPath, asBytes_append]
  rfl

theorem length_asBytes_longLine (n : ℕ) : (asBytes (longLine n)).length = n + 14 := by
  have hfront : (asBytes "GET ".toList).length = 4 := by decide
  have hback : (asBytes " HTTP/1.1".toList).length = 9 := by decide
  rw [asBytes_longLine, List.length_append, List.length_append, List.length_cons,
    List.length_replicate, hfront, hback]
  omega

theorem ne_of_mem_longLine {n : ℕ} {b : UInt8} (h : b ∈ asBytes (longLine n)) : b ≠ 13 := by
  have hfront : ∀ b ∈ asBytes "GET ".toList, b ≠ 13 := by decide +kernel
  have hback : ∀ b ∈ asBytes " HTTP/1.1".toList, b ≠ 13 := by decide +kernel
  rcases mem_asBytes_longLine h with h | rfl | rfl | h
  · exact hfront b h
  · decide
  · decide
  · exact hback b h

theorem headerEnd_longPath (n : ℕ) : headerEnd (longPath n) = some (n + 59) := by
  have hfind : Split.find [13, 10, 13, 10] (13 :: 10 :: asBytes plainHeaders) = some 41 := by
    decide
  rw [headerEnd, Split.findEnd, longPath_eq,
    Split.find_append_of_forall_ne fun b hb => ne_of_mem_longLine hb, hfind,
    length_asBytes_longLine]
  simp only [Option.map_some, List.length_cons, List.length_nil, Option.some.injEq]
  omega

theorem decode_longPath (n : ℕ) :
    Utf8.decode (longPath n) = some (longLine n ++ '\r' :: '\n' :: plainHeaders) := by
  have hfront : ∀ b ∈ asBytes "GET ".toList, b < 0x80 := by decide +kernel
  have hback : ∀ b ∈ asBytes " HTTP/1.1".toList, b < 0x80 := by decide +kernel
  have hsuffix : ∀ b ∈ 13 :: 10 :: asBytes plainHeaders, b < 0x80 := by decide +kernel
  have hascii : ∀ b ∈ longPath n, b < 0x80 := by
    intro b hb
    rw [longPath_eq, List.mem_append] at hb
    rcases hb with hb | hb
    · rcases mem_asBytes_longLine hb with hb | rfl | rfl | hb
      · exact hfront b hb
      · decide
      · decide
      · exact hback b hb
    · exact hsuffix b hb
  have hGet : ((asBytes "GET ".toList).map fun b => Char.ofNat b.toNat) = "GET ".toList := by
    decide
  have hHttp : ((asBytes " HTTP/1.1".toList).map fun b => Char.ofNat b.toNat)
      = " HTTP/1.1".toList := by decide
  have hHeaders : ((13 :: 10 :: asBytes plainHeaders).map fun b => Char.ofNat b.toNat)
      = '\r' :: '\n' :: plainHeaders := by decide
  rw [Utf8.decode_ascii hascii, longPath_eq, asBytes_longLine, List.map_append, List.map_append,
    List.map_append, hGet, hHttp, hHeaders, longLine, List.map_cons, List.map_replicate]
  rfl

theorem splitOn_longLine (n : ℕ) : (longLine n).splitOn ' '
    = ["GET".toList, '/' :: List.replicate n 'a', "HTTP/1.1".toList] := by
  have hpath : ' ' ∉ '/' :: List.replicate n 'a' := by
    intro hs
    rw [List.mem_cons, List.mem_replicate] at hs
    rcases hs with hs | ⟨-, hs⟩ <;> exact absurd hs (by decide)
  have hassoc : longLine n = "GET".toList ++ ' ' ::
      (('/' :: List.replicate n 'a') ++ ' ' :: "HTTP/1.1".toList) := by
    rw [longLine, List.append_assoc]
    rfl
  rw [hassoc, List.splitOn_append_cons_self_of_not_mem (by decide),
    List.splitOn_append_cons_self_of_not_mem hpath, List.splitOn_eq_singleton (by decide)]

/-- It is a good request, but for the version. -/
theorem parseUpgrade_longPath (n : ℕ) :
    Sync.parseUpgrade (longPath n) = .error .upgradeRequired := by
  have hline : '\r' ∉ longLine n := by
    intro hr
    rw [longLine, List.mem_append, List.mem_append, List.mem_cons, List.mem_replicate] at hr
    rcases hr with (hr | hr | ⟨-, hr⟩) | hr
    iterate 4 exact absurd hr (by decide)
  have hlines : splitLines (longLine n ++ '\r' :: '\n' :: plainHeaders)
      = longLine n :: splitLines plainHeaders := Split.atPair_append hline plainHeaders
  have hheaders : validateHeaders (splitLines plainHeaders) = .error .upgradeRequired := by
    decide
  rw [Sync.parseUpgrade, decode_longPath]
  dsimp only
  rw [hlines, requestWords, List.headD_cons, splitOn_longLine, List.tail_cons, hheaders, if_neg]
  have hversion : "HTTP/1.".toList <+: "HTTP/1.1".toList := by decide
  exact not_not.mpr ⟨rfl, hversion⟩

theorem length_longPath (n : ℕ) : (longPath n).length = n + 59 := by
  have hheaders : (asBytes plainHeaders).length = 43 := by decide
  rw [longPath_eq, List.length_append, List.length_cons, List.length_cons,
    length_asBytes_longLine, hheaders]

theorem nearCap_longPath : NearCap (longPath 8192) := by
  have hall := length_longPath 8192
  refine ⟨8192 + 59, headerEnd_longPath 8192, by decide, by decide, ?_⟩
  rw [List.take_of_length_le (by omega), parseUpgrade_longPath]
  simp

end Ws

end Aiomsg
