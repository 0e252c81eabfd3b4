import Aiomsg.Ws.Upgrade

/-!
# The sniff and the upgrade of the C++ library

`sniff_and_upgrade` of `cpp-lib-sync/src/ws.cpp`, with `parse_upgrade`. It reads until there is a
byte, and if that is a `G` until the blank line is there or more than `kMaxRequestBytes` bytes are.
Then it tests the size again, of all that has been read: a request below the cap is turned down as
too long if the read that brings the blank line brings more bytes behind it than the cap leaves room
for.

The base64 and the SHA-1 are OpenSSL's, and are parameters here.

## Scope

Both loops give up at a deadline, which is asked for after each read that times out. What is said of
cuts is said with deadlines that do not pass: whether a slow request is given up is a matter of time
and not of where its reads end. The answer is written and nobody looks at whether it got out.

`Evp` is arbitrary. The statements compare two cuts of one stream, and what OpenSSL makes of a key
is the same in both.

## Main definitions

* `parseUpgrade`, `sniffAndUpgrade`
* `Sniffed.seen` — what is seen of it
* `Straddles` — the streams for which it matters where the reads end

## Main results

* `independent_sniffAndUpgrade_iff`
* `upgrade_independent_iff` — both libraries
-/

namespace Aiomsg

namespace CppSync

open Protocol (transient)
open Ws (asBytes Status headerEnd headerEnd_take headerEnd_le four_le_headerEnd requestRead
  requestRead_take_iff lt_of_requestRead_take requestRead_eq_false_iff)

/-- What is used of OpenSSL. -/
structure Evp where
  /-- `EVP_DecodeBlock`: how many bytes it has written, and nothing if that is negative. -/
  decodeBlock : Bytes → Option ℕ
  /-- `EVP_EncodeBlock`: what it has written, and nothing if the count is negative. -/
  encodeBlock : Bytes → Bytes
  /-- `EVP_Digest` with `EVP_sha1()`. -/
  digest : Bytes → Bytes

/-- `kMaxRequestBytes` -/
def kMaxRequestBytes : ℕ := 8192

/-! ### Validating the request -/

/-- `base64_decode_len` -/
def base64DecodeLen (evp : Evp) (s : Bytes) : Option ℕ :=
  (evp.decodeBlock s).map fun n =>
    let pad := (s.rtakeWhile (· = 61)).length
    n - min pad n

def toLower (s : Bytes) : Bytes := s.map fun c => if 65 ≤ c ∧ c ≤ 90 then c + 32 else c

/-- Without spaces and tabs at either end. -/
def trim (s : Bytes) : Bytes := Split.trim (fun c => c = 32 ∨ c = 9) s

/-- `s.find(c)` -/
def find (c : UInt8) (s : Bytes) : Option ℕ := s.findIdx? (· = c)

/-- `s.rfind(c)` -/
def rfind (c : UInt8) (s : Bytes) : Option ℕ :=
  (s.reverse.findIdx? (· = c)).map (s.length - 1 - ·)

/-- Whether the request line is that of a `GET`. -/
def isGet (requestLine : Bytes) : Bool :=
  match find 32 requestLine, rfind 32 requestLine with
  | some s1, some s2 =>
    s1 ≠ s2 ∧ requestLine.take s1 = asBytes "GET".toList ∧
      asBytes "HTTP/1.".toList <+: requestLine.drop (s2 + 1)
  | _, _ => false

/-- The headers looked at. -/
structure Headers where
  upgrade : Bytes := []
  connection : Bytes := []
  version : Bytes := []
  key : Bytes := []
deriving DecidableEq

/-- One line: `none` if there is no colon in it. -/
def Headers.line (h : Headers) (line : Bytes) : Option Headers :=
  (Split.once 58 line).map fun (n, v) =>
    let name := toLower (trim n)
    let value := trim v
    if name = asBytes "upgrade".toList then { h with upgrade := toLower value }
    else if name = asBytes "connection".toList then { h with connection := toLower value }
    else if name = asBytes "sec-websocket-version".toList then { h with version := value }
    else if name = asBytes "sec-websocket-key".toList then { h with key := value }
    else h

/-- The loop over the lines from `pos` on. It ends at an empty line, or where no line ends. -/
def Headers.lines (h : Headers) (rest : Bytes) : Option Headers :=
  match _heol : Split.find [13, 10] rest with
  | none => some h
  | some 0 => some h
  | some (n + 1) =>
    match h.line (rest.take (n + 1)) with
    | none => none
    | some h => h.lines (rest.drop (n + 3))
termination_by rest.length
decreasing_by
  have hle := Split.find_add_length_le _heol
  rw [List.length_drop]
  simp only [List.length_cons, List.length_nil] at hle
  omega

def hasUpgradeToken (connection : Bytes) : Bool :=
  (connection.splitOn 44).any fun tok => trim tok = asBytes "upgrade".toList

/-- What the headers come to, once all lines have been read. -/
def Headers.check (evp : Evp) (h : Headers) : Except Status Bytes :=
  if h.upgrade ≠ asBytes "websocket".toList then .error .badRequest
  else if ¬ hasUpgradeToken h.connection then .error .badRequest
  else if h.version ≠ asBytes "13".toList then .error .upgradeRequired
  else if h.key = [] ∨ base64DecodeLen evp h.key ≠ some 16 then .error .badRequest
  else .ok h.key

/-- `parse_upgrade`, which gives the key or the status. Without an end of the first line, `pos` is
`npos + 2`, which is one. -/
def parseUpgrade (evp : Evp) (request : Bytes) : Except Status Bytes :=
  let lineEnd := Split.find [13, 10] request
  let requestLine := (lineEnd.map request.take).getD request
  let pos := (lineEnd.map (· + 2)).getD 1
  if ¬ isGet requestLine then .error .badRequest
  else
    match Headers.lines {} (request.drop pos) with
    | none => .error .badRequest
    | some h => h.check evp

/-! ### Responses -/

/-- `kGuid` -/
def kGuid : Bytes := asBytes "258EAFA5-E914-47DA-95CA-C5AB0DC85B11".toList

def acceptKey (evp : Evp) (key : Bytes) : Bytes := evp.encodeBlock (evp.digest (key ++ kGuid))

def successResponse (evp : Evp) (key : Bytes) : Bytes :=
  asBytes ("HTTP/1.1 101 Switching Protocols\r\n".toList ++ "Upgrade: websocket\r\n".toList ++
    "Connection: Upgrade\r\n".toList ++ "Sec-WebSocket-Accept: ".toList) ++ acceptKey evp key ++
    asBytes "\r\n\r\n".toList

def errorResponse (status : Status) : Bytes :=
  if "426".toList <+: status.text then
    asBytes ("HTTP/1.1 ".toList ++ status.text ++ "\r\nSec-WebSocket-Version: 13\r\n\r\n".toList)
  else asBytes ("HTTP/1.1 ".toList ++ status.text ++ "\r\n\r\n".toList)

/-! ### The sniff -/

/-- `find_header_end` -/
def findHeaderEnd (buf : Bytes) : Option ℕ := Split.find [13, 10, 13, 10] buf

/-- What `sniff_and_upgrade` returns, and what it has written. -/
inductive Sniffed where
  /-- `Sniff::Raw`, with the bytes to replay. -/
  | raw (replay : Bytes) (rest : Source)
  /-- `Sniff::WebSocket`, with what is in `st.inbuf`. -/
  | webSocket (response inbuf : Bytes) (rest : Source)
  /-- `Sniff::Reject`, with the answer if there is one. -/
  | reject (response : Option Bytes)

/-- Behind the loop that reads the request. -/
def finish (evp : Evp) (buf : Bytes) (rest : Source) : Sniffed :=
  match findHeaderEnd buf with
  | none => .reject (some (errorResponse .badRequest))
  | some hdrEnd =>
    if kMaxRequestBytes < buf.length then .reject (some (errorResponse .badRequest))
    else
      match parseUpgrade evp (buf.take (hdrEnd + 4)) with
      | .error status => .reject (some (errorResponse status))
      | .ok key => .webSocket (successResponse evp key) (buf.drop (hdrEnd + 4)) rest

/-- `sniff_and_upgrade`. The clocks say after which reads that have timed out the deadline has
passed, in the one loop and in the other. Nobody looks at the results of writing. -/
def sniffAndUpgrade (evp : Evp) (late late' : ℕ → Bool) (src : Source) : Sniffed :=
  match src.gather 2048 (· ≠ []) transient ⟨fun _ => false, late⟩ 0 [] with
  | .stopped (b :: bs) rest =>
    if b = 0x00 then .raw (b :: bs) rest
    else if b ≠ 71 then .reject none
    else
      match rest.gather 2048
          (fun buf => (findHeaderEnd buf).isSome || kMaxRequestBytes < buf.length)
          transient ⟨fun _ => false, late'⟩ 0 (b :: bs) with
      | .stopped buf rest => finish evp buf rest
      | _ => .reject none
  | _ => .reject none

/-- What is seen of a sniff. It forgets where the reads ended, and that is the point of it: a sniff
depends on the cut if and only if two of these differ. -/
inductive Seen where
  /-- All bytes, those to replay and the others. -/
  | raw (stream : Bytes)
  /-- The answer, and the bytes behind the request. -/
  | webSocket (response following : Bytes)
  | reject (response : Option Bytes)
deriving DecidableEq

def Sniffed.seen : Sniffed → Seen
  | .raw replay rest => .raw (replay ++ rest.stream)
  | .webSocket response inbuf rest => .webSocket response (inbuf ++ rest.stream)
  | .reject response => .reject response

/-- The answer to a request of `n` bytes at the beginning of a stream. -/
def answer (evp : Evp) (stream : Bytes) (n : ℕ) : Seen :=
  match parseUpgrade evp (stream.take n) with
  | .error status => .reject (some (errorResponse status))
  | .ok key => .webSocket (successResponse evp key) (stream.drop n)

/-- The answer to a request that is too long. -/
def tooLong : Seen := .reject (some (errorResponse .badRequest))

/-- The streams for which it matters where the reads end: those that begin with a `G` and with a
request below the cap and are longer than the cap, if a read that brings the end of the request can
go beyond it and the request is not answered with `400 Bad Request` anyway. -/
def Straddles (evp : Evp) (stream : Bytes) : Prop :=
  ∃ n, stream.head? = some 71 ∧ headerEnd stream = some n ∧ n ≤ kMaxRequestBytes ∧
    kMaxRequestBytes < stream.length ∧ kMaxRequestBytes < n + 2047 ∧
    parseUpgrade evp (stream.take n) ≠ .error .badRequest

theorem findHeaderEnd_eq (buf : Bytes) : headerEnd buf = (findHeaderEnd buf).map (· + 4) := rfl

theorem stop_eq :
    (fun buf => (findHeaderEnd buf).isSome || kMaxRequestBytes < buf.length) = requestRead := by
  funext buf
  rw [requestRead, findHeaderEnd_eq, Option.isSome_map]
  rfl

theorem errorResponse_upgradeRequired_ne :
    errorResponse .upgradeRequired ≠ errorResponse .badRequest := by decide

section Seen

variable (evp : Evp)

theorem answer_eq_tooLong_iff (stream : Bytes) (n : ℕ) :
    answer evp stream n = tooLong ↔ parseUpgrade evp (stream.take n) = .error .badRequest := by
  rw [answer, tooLong]
  match parseUpgrade evp (stream.take n) with
  | .ok key => simp
  | .error .badRequest => simp
  | .error .upgradeRequired => simp [errorResponse_upgradeRequired_ne]

/-- What is seen is decided by how much has been read when the loop stops. -/
theorem seen_finish {buf stream : Bytes} {rest : Source} (hstream : buf ++ rest.stream = stream) :
    (finish evp buf rest).seen = match (headerEnd stream).filter (· ≤ buf.length) with
      | none => tooLong
      | some n => if kMaxRequestBytes < buf.length then tooLong else answer evp stream n := by
  have hbuf : stream.take buf.length = buf := by rw [← hstream, List.take_left]
  have hheader := headerEnd_take stream buf.length
  rw [hbuf, findHeaderEnd_eq] at hheader
  rw [finish, ← hheader]
  match hend : findHeaderEnd buf with
  | none => rfl
  | some i =>
    have hle : i + 4 ≤ buf.length := headerEnd_le (by rw [findHeaderEnd_eq, hend, Option.map_some])
    have htake : stream.take (i + 4) = buf.take (i + 4) := by
      rw [← hstream, List.take_append_of_le_length hle]
    have hdrop : stream.drop (i + 4) = buf.drop (i + 4) ++ rest.stream := by
      rw [← hstream, List.drop_append_of_le_length hle]
    rw [Option.map_some]
    dsimp only
    split_ifs with hlong
    · rfl
    · rw [answer, htake, hdrop]
      match parseUpgrade evp (buf.take (i + 4)) with
      | .error status => rfl
      | .ok key => rfl

/-- What comes of a request wherever the reads end, if it does not matter where they do. -/
def settledRequest (stream : Bytes) : Seen :=
  match headerEnd stream with
  | some n => if n ≤ kMaxRequestBytes then answer evp stream n else tooLong
  | none => if kMaxRequestBytes < stream.length then tooLong else .reject none

/-- What comes of a stream. -/
def settled (stream : Bytes) : Seen :=
  match stream with
  | [] => .reject none
  | b :: bs =>
    if b = 0x00 then .raw (b :: bs)
    else if b ≠ 71 then .reject none
    else settledRequest evp (b :: bs)

/-- The second loop, on a buffer that one read has brought. -/
theorem seen_request {buf stream : Bytes} {src : Source} (hbuf : buf.length ≤ 2048)
    (hstream : buf ++ src.stream = stream) (hhead : stream.head? = some 71)
    (hsrc : src.OnlyErrors (transient ·)) (hstraddles : ¬ Straddles evp stream) :
    (match src.gather 2048 requestRead transient ⟨fun _ => false, fun _ => false⟩ 0 buf with
      | .stopped buf rest => finish evp buf rest
      | _ => .reject none : Sniffed).seen = settledRequest evp stream := by
  have hclock : Source.Clock.Never ⟨fun _ => false, fun _ => false⟩ :=
    ⟨fun _ => rfl, fun _ => rfl⟩
  have hspec := Source.gather_spec requestRead transient (by decide : 0 < 2048) hclock 0 buf hsrc
  rw [hstream] at hspec
  rw [settledRequest]
  generalize src.gather _ _ _ _ _ _ = r at hspec ⊢
  cases hspec with
  | eof hstop =>
    obtain ⟨hend, hshort⟩ := requestRead_eq_false_iff.mp hstop
    rw [hend]
    exact (if_neg (Nat.not_lt.mpr hshort)).symm
  | @stopped buf' rest hstop hstream' hreach =>
    have hprefix : stream.take buf'.length = buf' := by rw [← hstream', List.take_left]
    have hlength : buf'.length ≤ stream.length := by
      rw [← hstream', List.length_append]
      exact Nat.le_add_right _ _
    rw [← hprefix] at hstop
    dsimp only
    rw [seen_finish evp hstream']
    match hend : headerEnd stream with
    | none =>
      have hlong : kMaxRequestBytes < buf'.length :=
        lt_of_requestRead_take hlength hstop (by rw [hend]; exact nofun)
      exact (if_pos (Nat.lt_of_lt_of_le hlong hlength)).symm
    | some n =>
      by_cases hn : n ≤ buf'.length
      · rw [Option.filter_some, if_pos (by simpa using hn)]
        dsimp only
        by_cases hlong : kMaxRequestBytes < buf'.length
        · rw [if_pos hlong]
          split_ifs with hcap
          · -- one read has gone from before the end of the request to beyond the cap
            have hover : kMaxRequestBytes < n + 2047 := by
              rcases hreach with rfl | ⟨j, -, hlt, hread, hnot⟩
              · exact absurd hlong (by rw [kMaxRequestBytes]; omega)
              · rw [Bool.eq_false_iff, Ne, requestRead_take_iff (by omega)] at hnot
                have hbefore : ¬ n ≤ j := fun h => hnot (.inl ⟨n, hend, h⟩)
                omega
            refine ((answer_eq_tooLong_iff evp stream n).mpr ?_).symm
            by_contra hbad
            exact hstraddles ⟨n, hhead, hend, hcap, by omega, hover, hbad⟩
          · rfl
        · rw [if_neg hlong, if_pos (by omega)]
      · rw [Option.filter_some, if_neg (by simpa using hn)]
        dsimp only
        have hlong : kMaxRequestBytes < buf'.length := by
          refine lt_of_requestRead_take hlength hstop fun m hm => ?_
          obtain rfl := Option.some.inj (hend.symm.trans hm)
          exact Nat.not_le.mp hn
        rw [if_neg (by omega)]

theorem seen_sniffAndUpgrade {src : Source} (hsrc : src.OnlyErrors (transient ·))
    (hstraddles : ¬ Straddles evp src.stream) :
    (sniffAndUpgrade evp (fun _ => false) (fun _ => false) src).seen
      = settled evp src.stream := by
  have hclock : Source.Clock.Never ⟨fun _ => false, fun _ => false⟩ :=
    ⟨fun _ => rfl, fun _ => rfl⟩
  have hspec := Source.gather_spec (fun buf => decide (buf ≠ [])) transient
    (by decide : 0 < 2048) hclock 0 [] hsrc
  rw [List.nil_append] at hspec
  rw [sniffAndUpgrade]
  match hfirst : src.gather 2048 (fun buf => decide (buf ≠ [])) transient
      ⟨fun _ => false, fun _ => false⟩ 0 [] with
  | .stopped buf rest =>
    rw [hfirst] at hspec
    cases hspec with
    | stopped hstop hstream hreach =>
      have hrest := Source.onlyErrors_gather hfirst hsrc
      match buf with
      | [] => exact absurd hstop (by decide)
      | b :: bs =>
        have hbuf : (b :: bs).length ≤ 2048 := by
          rcases hreach with hnil | ⟨k, -, hlt, hle, hnot⟩
          · cases hnil
          · have hnil : src.stream.take k = [] := not_not.mp (of_decide_eq_false hnot)
            have hk := congrArg List.length hnil
            rw [← hstream, List.length_take, List.length_append, List.length_nil] at hk
            omega
        rw [← hstream] at hstraddles ⊢
        rw [List.cons_append] at hstraddles ⊢
        rw [settled]
        dsimp only
        split_ifs with hzero hG
        · rw [Sniffed.seen, List.cons_append]
        · rfl
        · rw [not_not] at hG
          subst hG
          rw [stop_eq]
          exact seen_request evp hbuf (List.cons_append ..) (by simp) hrest hstraddles
  | .eof =>
    rw [hfirst] at hspec
    cases hspec with
    | eof hstop =>
      have hnil : src.stream = [] := by simpa using hstop
      rw [hnil]
      rfl
  | .late =>
    rw [hfirst] at hspec
    cases hspec
  | .failed kind =>
    rw [hfirst] at hspec
    cases hspec

/-- A prefix is reached that one read brings from before the end of the request. -/
theorem exists_sniffAndUpgrade {stream : Bytes} {n k : ℕ} (hhead : stream.head? = some 71)
    (hend : headerEnd stream = some n) (hcap : n ≤ kMaxRequestBytes) (hn : n ≤ k)
    (hread : k ≤ n + 2047) (hk : k ≤ stream.length) :
    ∃ src : Source, src.Clean ∧ src.stream = stream ∧
      (sniffAndUpgrade evp (fun _ => false) (fun _ => false) src).seen
        = if kMaxRequestBytes < k then tooLong else answer evp stream n := by
  obtain ⟨bs, rfl⟩ : ∃ bs, stream = 71 :: bs := by
    match stream, hhead with
    | _ :: bs, rfl => exact ⟨bs, rfl⟩
  have hfour := four_le_headerEnd hend
  have hnot : ∀ i, [(71 : UInt8)].length ≤ i → i ≤ n - 1 →
      requestRead ((71 :: bs).take i) = false := by
    intro i _ hi
    rw [Bool.eq_false_iff, Ne, requestRead_take_iff (by omega)]
    rintro (⟨m, hm, hle⟩ | hover)
    · obtain rfl := Option.some.inj (hend.symm.trans hm)
      omega
    · exact absurd hover (by rw [Ws.maxRequestBytes]; rw [kMaxRequestBytes] at hcap; omega)
  have hfirst : (71 :: bs).take [(71 : UInt8)].length = [71] := rfl
  have hone : [(71 : UInt8)].length ≤ n - 1 := by
    rw [List.length_singleton]
    omega
  obtain ⟨src, hclean, hstream, hgather⟩ :=
    Source.exists_gather (by decide : 0 < 2048) hfirst hone hnot (by omega) (by omega) hk
      ((requestRead_take_iff hk).mpr (.inl ⟨n, hend, hn⟩))
  obtain ⟨rest, hrun, hrest⟩ :=
    hgather ⟨fun _ => false, fun _ => false⟩ ⟨fun _ => rfl, fun _ => rfl⟩ transient 0
  refine ⟨Source.putBack [71] src, hclean.putBack _, by rw [Source.stream_putBack, hstream], ?_⟩
  have hsniff : (Source.putBack [71] src).gather 2048 (· ≠ []) transient
      ⟨fun _ => false, fun _ => false⟩ 0 [] = .stopped [71] src := by
    have hempty : (fun buf : Bytes => decide (buf ≠ [])) [] = false := rfl
    rw [Source.gather_of_read transient ⟨fun _ => rfl, fun _ => rfl⟩ 0 hempty
      (List.cons_ne_nil 71 []) (Source.read_putBack (by decide) (List.cons_ne_nil 71 []) src)]
    exact Source.gather_of_stop _ _ rfl
  have hjoin : (71 :: bs).take k ++ rest.stream = 71 :: bs := by
    rw [hrest, List.take_append_drop]
  rw [sniffAndUpgrade, hsniff]
  dsimp only
  rw [if_neg (by decide), if_neg (by decide), stop_eq, hrun]
  dsimp only
  rw [seen_finish evp hjoin, List.length_take, Nat.min_eq_left hk, hend, Option.filter_some,
    if_pos (by simpa using hn)]

/-- **When it does not matter** to `sniff_and_upgrade` where the reads end. -/
theorem independent_sniffAndUpgrade_iff (stream : Bytes) :
    Source.Independent (transient ·)
        (fun src => (sniffAndUpgrade evp (fun _ => false) (fun _ => false) src).seen) stream
      ↔ ¬ Straddles evp stream := by
  constructor
  · rintro hsame ⟨n, hhead, hend, hcap, hlong, hover, hgood⟩
    obtain ⟨src, hclean, hstream, hseen⟩ := exists_sniffAndUpgrade evp (k := n) hhead hend hcap
      (Nat.le_refl n) (by omega) (headerEnd_le hend)
    obtain ⟨src', hclean', hstream', hseen'⟩ := exists_sniffAndUpgrade evp
      (k := kMaxRequestBytes + 1) hhead hend hcap (by omega) (by omega) hlong
    have heq := hsame src src' (hclean.onlyErrors _) (hclean'.onlyErrors _) hstream hstream'
    dsimp only at heq
    rw [hseen, hseen', if_neg (by omega), if_pos (by omega)] at heq
    exact hgood ((answer_eq_tooLong_iff evp stream n).mp heq)
  · intro hstraddles src src' hsrc hsrc' hstream hstream'
    dsimp only
    rw [seen_sniffAndUpgrade evp hsrc (by rwa [hstream]),
      seen_sniffAndUpgrade evp hsrc' (by rwa [hstream']), hstream, hstream']

end Seen

/-! ### A long path -/

theorem find_append_cons {c : UInt8} {xs : Bytes} (hxs : c ∉ xs) (ys : Bytes) :
    find c (xs ++ c :: ys) = some xs.length := by
  have hnone : xs.findIdx? (· = c) = none := by
    rw [List.findIdx?_eq_none_iff]
    intro x hx
    exact decide_eq_false fun h => hxs (h ▸ hx)
  rw [find, List.findIdx?_append, hnone, List.findIdx?_cons, if_pos (decide_eq_true rfl)]
  simp

theorem rfind_append_cons {c : UInt8} {ys : Bytes} (hys : c ∉ ys) (xs : Bytes) :
    rfind c (xs ++ c :: ys) = some xs.length := by
  have hreverse : (xs ++ c :: ys).reverse = ys.reverse ++ c :: xs.reverse := by simp
  have hfind := find_append_cons (fun h => hys (List.mem_reverse.mp h)) xs.reverse
  rw [find, ← hreverse] at hfind
  rw [rfind, hfind, Option.map_some, List.length_append, List.length_cons, List.length_reverse]
  congr 1
  omega

open Ws (longLine longPath plainHeaders asBytes_longLine longPath_eq headerEnd_longPath
  headerEnd_append length_longPath length_asBytes_longLine ne_of_mem_longLine)

theorem isGet_longLine (n : ℕ) : isGet (asBytes (longLine n)) = true := by
  have hline : asBytes (longLine n) = asBytes "GET".toList ++
      32 :: ((47 :: List.replicate n 97) ++ asBytes " HTTP/1.1".toList) := by
    rw [asBytes_longLine, List.append_assoc]
    rfl
  have hline' : asBytes (longLine n) = (asBytes "GET ".toList ++ (47 :: List.replicate n 97)) ++
      32 :: asBytes "HTTP/1.1".toList := by
    rw [asBytes_longLine]
    rfl
  have hfind : find 32 (asBytes (longLine n)) = some (asBytes "GET".toList).length := by
    rw [hline, find_append_cons (by decide)]
  have hrfind : rfind 32 (asBytes (longLine n))
      = some (asBytes "GET ".toList ++ (47 :: List.replicate n 97)).length := by
    rw [hline', rfind_append_cons (by decide)]
  rw [isGet, hfind, hrfind]
  dsimp only
  rw [decide_eq_true_eq]
  refine ⟨?_, ?_, ?_⟩
  · have hfront : (asBytes "GET".toList).length < (asBytes "GET ".toList).length := by
      decide
    rw [List.length_append]
    omega
  · rw [hline, List.take_left]
  · have hversion : asBytes "HTTP/1.".toList <+: asBytes "HTTP/1.1".toList := by decide
    rw [hline', ← List.drop_drop, List.drop_left]
    exact hversion

/-- It is a good request, but for the version. -/
theorem parseUpgrade_longPath (evp : Evp) (n : ℕ) :
    parseUpgrade evp (longPath n) = .error .upgradeRequired := by
  have hhere : Split.find [13, 10] (13 :: 10 :: asBytes plainHeaders) = some 0 := by
    decide
  have hfind : Split.find [13, 10] (longPath n) = some (asBytes (longLine n)).length := by
    rw [longPath_eq, Split.find_append_of_forall_ne fun b hb => ne_of_mem_longLine hb, hhere]
    simp
  have hlines : (Headers.lines {} (asBytes plainHeaders)).map (Headers.check evp)
      = some (.error .upgradeRequired) := by
    have hheaders : Headers.lines {} (asBytes plainHeaders) = some
        { upgrade := asBytes "websocket".toList, connection := asBytes "upgrade".toList } := by
      decide +kernel
    rw [hheaders, Option.map_some, Headers.check, if_neg (by simp), if_neg (by decide),
      if_pos (by decide)]
  have hdrop : (longPath n).drop ((asBytes (longLine n)).length + 2) = asBytes plainHeaders := by
    rw [longPath_eq, ← List.drop_drop, List.drop_left]
    rfl
  rw [parseUpgrade, hfind]
  simp only [Option.map_some, Option.getD_some, hdrop]
  rw [longPath_eq, List.take_left, isGet_longLine, if_neg (by simp)]
  obtain ⟨h, hh, hcheck⟩ := Option.map_eq_some_iff.mp hlines
  rw [hh]
  exact hcheck

theorem head_longPath (n : ℕ) (ys : Bytes) : (longPath n ++ ys).head? = some 71 := rfl

/-- Bytes behind it go beyond the cap. -/
theorem straddles_longPath (evp : Evp) :
    Straddles evp (longPath 8100 ++ List.replicate 100 0) := by
  have hall := length_longPath 8100
  have hend := headerEnd_append (headerEnd_longPath 8100) (List.replicate 100 0)
  have hcap : kMaxRequestBytes = 8192 := rfl
  refine ⟨8100 + 59, head_longPath 8100 _, hend, by omega, ?_, by omega, ?_⟩
  · rw [List.length_append, List.length_replicate]
    omega
  · rw [← hall, List.take_left, parseUpgrade_longPath]
    simp

/-- **When it does not matter** where the reads end, to the two functions. -/
theorem upgrade_independent_iff (evp : Evp) (written : Option ErrorKind) (first : Option UInt8)
    (bytes stream : Bytes) :
    (Source.Independent (transient ·)
        (fun src => (Ws.acceptUpgrade (fun _ => false) written first src).outcome) bytes
      ↔ ¬ Ws.NearCap (first.toList ++ bytes)) ∧
    (Source.Independent (transient ·)
        (fun src => (sniffAndUpgrade evp (fun _ => false) (fun _ => false) src).seen) stream
      ↔ ¬ Straddles evp stream) :=
  ⟨Ws.independent_acceptUpgrade_iff written first bytes, independent_sniffAndUpgrade_iff evp stream⟩

/-- A path of 8193 bytes to the one function, and one of 8101 bytes with 100 bytes behind the
request to the other. -/
theorem upgrade_longPath :
    ¬ Source.Independent (transient ·)
        (fun src => (Ws.acceptUpgrade (fun _ => false) none none src).outcome) (longPath 8192) ∧
    ¬ ∃ evp, Source.Independent (transient ·)
        (fun src => (sniffAndUpgrade evp (fun _ => false) (fun _ => false) src).seen)
        (longPath 8100 ++ List.replicate 100 0) := by
  constructor
  · rw [Ws.independent_acceptUpgrade_iff none none (longPath 8192), not_not, Option.toList_none,
      List.nil_append]
    exact Ws.nearCap_longPath
  · rintro ⟨evp, hsame⟩
    exact (independent_sniffAndUpgrade_iff evp _).mp hsame (straddles_longPath evp)

end CppSync

end Aiomsg
