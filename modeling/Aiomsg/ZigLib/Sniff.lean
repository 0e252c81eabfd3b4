import Aiomsg.CLib.Sniff

/-!
# The Zig upgrade

`handshakeResponse` of `zig-lib/src/ws.zig` and `serverSniff` of `zig-lib/src/aiomsg.zig`, and when
the two libraries keep what is read past the request. The headers are slices of the request here,
with none of the limits that C strings bring; the sniff is the same. The SHA-1 and the base64
encoder are the standard library's, and a parameter; allocation succeeds.

## Scope

Only what comes behind the request is counted. That the answer is written and what the peer makes of
it, and the raw branch, in which the first bytes are put back, are shared with the C library's
sniff.

## Main definitions

* `handshakeResponse`, `serverSniff`

## Main results

* `fed_iff` — exactly when no byte is lost, in the C library and in this one
-/

namespace Aiomsg

namespace ZigLib

open Aiomsg.Ws (asBytes maxRequestBytes headerEnd FixedBuffer.Sniffed)
open CLib (isBlank lower)

/-- The loop of `headerGet`, over the lines behind the request line. -/
def headerLines (name : Bytes) : List Bytes → Option Bytes
  | [] => none
  | line :: lines =>
    if line = [] then none
    else
      match Split.once 58 line with
      | none => headerLines name lines
      | some (hn, v) =>
        if (Split.trim isBlank hn).map lower = name.map lower then some (Split.trim isBlank v)
        else headerLines name lines

def headerGet (req name : Bytes) : Option Bytes := headerLines name (Split.atPair 13 10 req).tail

/-- `std.mem.tokenizeAny` with the separators `", \t"`, and the loop over the tokens. -/
def listHasToken (list token : Bytes) : Bool :=
  ((list.splitOnP CLib.isSeparator).filter (· ≠ [])).any fun tok => tok.map lower = token.map lower

/-- `std.base64.standard.Decoder.calcSizeForSlice`, which fails for a length that is no multiple of
four. -/
def base64DecodedLen (key : Bytes) : Option ℕ :=
  let n := key.length
  if n % 4 ≠ 0 then none
  else
    some (n / 4 * 3 - (if 1 ≤ n ∧ key.getD (n - 1) 0 = 61 then 1 else 0)
      - (if 2 ≤ n ∧ key.getD (n - 2) 0 = 61 then 1 else 0))

/-- `handshakeResponse`. The error responses are those of the C library. -/
def handshakeResponse (computeAccept : Bytes → Bytes) (req : Bytes) : Except Bytes Bytes :=
  if maxRequestBytes < req.length ∨ req.length < 4 ∨ req.take 4 ≠ asBytes "GET ".toList then
    .error CLib.badRequest
  else if (headerGet req (asBytes "Upgrade".toList)).map (·.map lower)
      ≠ some (asBytes "websocket".toList) then
    .error CLib.badRequest
  else if (headerGet req (asBytes "Connection".toList)).map
      (listHasToken · (asBytes "upgrade".toList)) ≠ some true then
    .error CLib.badRequest
  else if headerGet req (asBytes "Sec-WebSocket-Version".toList)
      ≠ some (asBytes "13".toList) then
    .error CLib.upgradeRequired
  else
    match headerGet req (asBytes "Sec-WebSocket-Key".toList) with
    | none => .error CLib.badRequest
    | some key =>
      if base64DecodedLen key ≠ some 16 then .error CLib.badRequest
      else .ok (CLib.switching (computeAccept key))

/-- `serverSniff`. Behind it, the leftover goes to the parser in `WsConn.upgrade`. -/
def serverSniff (computeAccept : Bytes → Bytes) :
    (ErrorKind → Bool) → (ℕ → Bool) → (ℕ → Bool) → Source → FixedBuffer.Sniffed :=
  Ws.FixedBuffer.serverSniff (handshakeResponse computeAccept)

/-! ### When no byte is lost -/

/-- **When no byte is lost**, in either library: for a stream that begins with a `G` and with a good
request that fits into the array, cut anywhere, the parser is fed what comes behind the request if
the read that brings the end of the request ends within the array, and only then. -/
theorem fed_iff (computeAccept : Bytes → Bytes) {retry : ErrorKind → Bool} {src : Source}
    (hsrc : src.OnlyErrors (retry ·)) {bytes : Bytes} (hstream : src.stream = 71 :: bytes) {n : ℕ}
    (hend : headerEnd (71 :: bytes) = some n) (hsize : n ≤ Ws.FixedBuffer.size) :
    (∀ response, CLib.handshakeResponse computeAccept ((71 :: bytes).take n) = .ok response →
      ((CLib.serverSniff computeAccept retry (fun _ => false) (fun _ => false) src).fed
          = some ((71 :: bytes).drop n) ↔
        src.behindFirst.readEnd 2048 n 1 ≤ Ws.FixedBuffer.size)) ∧
    (∀ response, handshakeResponse computeAccept ((71 :: bytes).take n) = .ok response →
      ((serverSniff computeAccept retry (fun _ => false) (fun _ => false) src).fed
          = some ((71 :: bytes).drop n) ↔
        src.behindFirst.readEnd 2048 n 1 ≤ Ws.FixedBuffer.size)) := by
  constructor
  · intro response hgood
    exact Ws.FixedBuffer.keeps_iff (fun _ => rfl) (fun _ => rfl) hsrc hstream hend hsize hgood
  · intro response hgood
    exact Ws.FixedBuffer.keeps_iff (fun _ => rfl) (fun _ => rfl) hsrc hstream hend hsize hgood

/-! ### A good request -/

open Ws (Text longLine asBytes_longLine length_asBytes_longLine ne_of_mem_longLine headerEnd_append)

/-- Headers of a good request. -/
def goodHeaders : Text := "Upgrade: websocket\r\nConnection: Upgrade\r\n".toList ++
  "Sec-WebSocket-Version: 13\r\nSec-WebSocket-Key: dGhlIHNhbXBsZSBub25jZQ==\r\n\r\n".toList

/-- A good request, with a path of any length. -/
def goodRequest (n : ℕ) : Bytes := asBytes (longLine n) ++ 13 :: 10 :: asBytes goodHeaders

def goodKey : Bytes := asBytes "dGhlIHNhbXBsZSBub25jZQ==".toList

theorem length_goodRequest (n : ℕ) : (goodRequest n).length = n + 131 := by
  have hheaders : (asBytes goodHeaders).length = 115 := by decide +kernel
  rw [goodRequest, List.length_append, List.length_cons, List.length_cons,
    length_asBytes_longLine, hheaders]

theorem headerEnd_goodRequest (n : ℕ) : headerEnd (goodRequest n) = some (n + 131) := by
  have hfind : Split.find [13, 10, 13, 10] (13 :: 10 :: asBytes goodHeaders) = some 113 := by
    decide +kernel
  rw [headerEnd, Split.findEnd, goodRequest,
    Split.find_append_of_forall_ne fun b hb => ne_of_mem_longLine hb, hfind,
    length_asBytes_longLine]
  simp only [Option.map_some, List.length_cons, List.length_nil, Option.some.injEq]
  omega

theorem take_four_goodRequest (n : ℕ) : (goodRequest n).take 4 = asBytes "GET ".toList := by
  have hfour : (asBytes "GET ".toList).length = 4 := by decide
  rw [goodRequest, asBytes_longLine, List.append_assoc, List.append_assoc, ← hfour, List.take_left]

/-- The request line is skipped by the C library, -/
theorem crlfLine_goodRequest (n : ℕ) :
    CLib.crlfLine (goodRequest n) = (asBytes (longLine n), asBytes goodHeaders) := by
  have hhere : Split.find [13, 10] (13 :: 10 :: asBytes goodHeaders) = some 0 := by decide
  have hfind : Split.find [13, 10] (goodRequest n) = some (asBytes (longLine n)).length := by
    rw [goodRequest, Split.find_append_of_forall_ne fun b hb => ne_of_mem_longLine hb, hhere]
    simp
  rw [CLib.crlfLine, hfind, goodRequest]
  dsimp only
  rw [List.take_left, ← List.drop_drop, List.drop_left]
  rfl

/-- and by this one. -/
theorem tail_atPair_goodRequest (n : ℕ) :
    (Split.atPair 13 10 (goodRequest n)).tail = Split.atPair 13 10 (asBytes goodHeaders) := by
  rw [goodRequest, Split.atPair_append fun hmem => ne_of_mem_longLine hmem rfl, List.tail_cons]

theorem line_goodRequest {n : ℕ} (hn : n + 131 ≤ maxRequestBytes) :
    ¬ (maxRequestBytes < (goodRequest n).length ∨ (goodRequest n).length < 4 ∨
      (goodRequest n).take 4 ≠ asBytes "GET ".toList) := by
  have hlength := length_goodRequest n
  rintro (hlong | hshort | hline)
  · omega
  · omega
  · exact hline (take_four_goodRequest n)

theorem cHandshakeResponse_goodRequest (computeAccept : Bytes → Bytes) {n : ℕ}
    (hn : n + 131 ≤ maxRequestBytes) :
    CLib.handshakeResponse computeAccept (goodRequest n)
      = .ok (CLib.switching (computeAccept goodKey)) := by
  have hget : ∀ name, CLib.headerGet (goodRequest n) name 256
      = CLib.headerLines name 256 (asBytes goodHeaders) := by
    intro name
    rw [CLib.headerGet, crlfLine_goodRequest]
  obtain ⟨hupgrade, hconnection, hversion, hkey, hlength⟩ :
      (CLib.headerLines (asBytes "Upgrade".toList) 256 (asBytes goodHeaders)).map (·.map lower)
          = some (asBytes "websocket".toList) ∧
        (CLib.headerLines (asBytes "Connection".toList) 256 (asBytes goodHeaders)).map
          (CLib.listHasToken · (asBytes "upgrade".toList)) = some true ∧
        CLib.headerLines (asBytes "Sec-WebSocket-Version".toList) 256 (asBytes goodHeaders)
          = some (asBytes "13".toList) ∧
        CLib.headerLines (asBytes "Sec-WebSocket-Key".toList) 256 (asBytes goodHeaders)
          = some goodKey ∧ CLib.b64DecodedLen goodKey = 16 := by decide +kernel
  rw [CLib.handshakeResponse, if_neg (line_goodRequest hn), hget, hget, hget, hget,
    if_neg (not_not.mpr hupgrade), if_neg (not_not.mpr hconnection),
    if_neg (not_not.mpr hversion), hkey]
  exact if_neg (not_not.mpr hlength)

theorem handshakeResponse_goodRequest (computeAccept : Bytes → Bytes) {n : ℕ}
    (hn : n + 131 ≤ maxRequestBytes) :
    handshakeResponse computeAccept (goodRequest n)
      = .ok (CLib.switching (computeAccept goodKey)) := by
  have hget : ∀ name, headerGet (goodRequest n) name
      = headerLines name (Split.atPair 13 10 (asBytes goodHeaders)) := by
    intro name
    rw [headerGet, tail_atPair_goodRequest]
  obtain ⟨hupgrade, hconnection, hversion, hkey, hlength⟩ :
      (headerLines (asBytes "Upgrade".toList) (Split.atPair 13 10 (asBytes goodHeaders))).map
          (·.map lower) = some (asBytes "websocket".toList) ∧
        (headerLines (asBytes "Connection".toList)
          (Split.atPair 13 10 (asBytes goodHeaders))).map
          (listHasToken · (asBytes "upgrade".toList)) = some true ∧
        headerLines (asBytes "Sec-WebSocket-Version".toList)
          (Split.atPair 13 10 (asBytes goodHeaders)) = some (asBytes "13".toList) ∧
        headerLines (asBytes "Sec-WebSocket-Key".toList)
          (Split.atPair 13 10 (asBytes goodHeaders)) = some goodKey ∧
        base64DecodedLen goodKey = some 16 := by decide
  rw [handshakeResponse, if_neg (line_goodRequest hn), hget, hget, hget, hget,
    if_neg (not_not.mpr hupgrade), if_neg (not_not.mpr hconnection),
    if_neg (not_not.mpr hversion), hkey]
  exact if_neg (not_not.mpr hlength)

/-- A good request of 7131 bytes, and 2000 bytes behind it. -/
def pipelined : Bytes := goodRequest 7000 ++ List.replicate 2000 0

/-- The stream, in one piece. -/
def pipelinedSource : Source := [.bytes 71 pipelined.tail]

theorem pipelined_eq : pipelined = 71 :: pipelined.tail := rfl

theorem headerEnd_pipelined : headerEnd pipelined = some 7131 :=
  headerEnd_append (headerEnd_goodRequest 7000) _

theorem take_pipelined : pipelined.take 7131 = goodRequest 7000 := by
  have hlength : (goodRequest 7000).length = 7131 := length_goodRequest 7000
  rw [pipelined, ← hlength, List.take_left]

/-- The fifth read ends one byte behind the array. -/
theorem readEnd_pipelined : pipelinedSource.behindFirst.readEnd 2048 7131 1 = 8193 := by
  have hlength : pipelined.tail.length = 9130 := by
    rw [List.length_tail, pipelined, List.length_append, length_goodRequest,
      List.length_replicate]
  have hdrop : ∀ k, (pipelined.tail.drop k).length = 9130 - k := by
    intro k
    rw [List.length_drop, hlength]
  rw [pipelinedSource, Source.behindFirst,
    Source.readEnd_putBack (by decide) (by decide) (by omega),
    Source.readEnd_putBack (by decide) (by decide) (by rw [hdrop]; omega), List.drop_drop,
    Source.readEnd_putBack (by decide) (by decide) (by rw [hdrop]; omega), List.drop_drop,
    Source.readEnd_putBack (by decide) (by decide) (by rw [hdrop]; omega),
    Source.readEnd_of_le (by decide)]

/-- The request is good, and a byte behind it is lost. -/
theorem fed_pipelined :
    (∃ response, CLib.handshakeResponse id (pipelined.take 7131) = .ok response) ∧
    (∃ response, handshakeResponse id (pipelined.take 7131) = .ok response) ∧
    headerEnd pipelined = some 7131 ∧ pipelinedSource.stream = pipelined ∧
    (CLib.serverSniff id Protocol.transient (fun _ => false) (fun _ => false)
        pipelinedSource).fed ≠ some (pipelined.drop 7131) ∧
    (serverSniff id Protocol.transient (fun _ => false) (fun _ => false)
        pipelinedSource).fed ≠ some (pipelined.drop 7131) := by
  have hstream : pipelinedSource.stream = 71 :: pipelined.tail := by
    rw [pipelinedSource, Source.stream_bytes, Source.stream_nil, List.append_nil]
  have hclean : pipelinedSource.OnlyErrors (Protocol.transient ·) := by
    simp [pipelinedSource, Source.OnlyErrors]
  have hC := cHandshakeResponse_goodRequest id (n := 7000) (by decide)
  have hZig := handshakeResponse_goodRequest id (n := 7000) (by decide)
  rw [← take_pipelined] at hC hZig
  have hlost : ¬ pipelinedSource.behindFirst.readEnd 2048 7131 1 ≤ Ws.FixedBuffer.size := by
    rw [readEnd_pipelined]
    decide
  have hend := headerEnd_pipelined
  rw [pipelined_eq] at hC hZig hend ⊢
  refine ⟨⟨_, hC⟩, ⟨_, hZig⟩, hend, hstream, ?_, ?_⟩
  · intro hfed
    exact hlost ((Ws.FixedBuffer.keeps_iff (fun _ => rfl) (fun _ => rfl) hclean hstream hend
      (by decide) hC).mp hfed)
  · intro hfed
    exact hlost ((Ws.FixedBuffer.keeps_iff (fun _ => rfl) (fun _ => rfl) hclean hstream hend
      (by decide) hZig).mp hfed)

/-- A short request, and three bytes behind it. -/
theorem fed_iff_goodRequest :
    (CLib.serverSniff id Protocol.transient (fun _ => false) (fun _ => false)
        [.bytes 71 (goodRequest 20 ++ [1, 2, 3]).tail]).fed = some [1, 2, 3] ∧
    (serverSniff id Protocol.transient (fun _ => false) (fun _ => false)
        [.bytes 71 (goodRequest 20 ++ [1, 2, 3]).tail]).fed = some [1, 2, 3] := by
  have hclean : Source.OnlyErrors (Protocol.transient ·)
      [.bytes 71 (goodRequest 20 ++ [1, 2, 3]).tail] := by simp [Source.OnlyErrors]
  have hend : headerEnd (71 :: (goodRequest 20 ++ [1, 2, 3]).tail) = some 151 :=
    headerEnd_append (headerEnd_goodRequest 20) _
  have hlength : (goodRequest 20).length = 151 := length_goodRequest 20
  have htake : (71 :: (goodRequest 20 ++ [1, 2, 3]).tail).take 151 = goodRequest 20 := by
    rw [← hlength]
    exact List.take_left
  have hdrop : (71 :: (goodRequest 20 ++ [1, 2, 3]).tail).drop 151 = [1, 2, 3] := by
    rw [← hlength]
    exact List.drop_left
  have hC := cHandshakeResponse_goodRequest id (n := 20) (by decide)
  have hZig := handshakeResponse_goodRequest id (n := 20) (by decide)
  rw [← htake] at hC hZig
  have hends : Source.readEnd 2048 151 1
      (Source.behindFirst [.bytes 71 (goodRequest 20 ++ [1, 2, 3]).tail])
        ≤ Ws.FixedBuffer.size := by decide +kernel
  have hstream : Source.stream [.bytes 71 (goodRequest 20 ++ [1, 2, 3]).tail]
      = 71 :: (goodRequest 20 ++ [1, 2, 3]).tail := by
    rw [Source.stream_bytes, Source.stream_nil, List.append_nil]
  obtain ⟨hkeepsC, hkeepsZig⟩ := fed_iff id hclean hstream hend (by decide)
  rw [← hdrop]
  exact ⟨(hkeepsC _ hC).mpr hends, (hkeepsZig _ hZig).mpr hends⟩

end ZigLib

end Aiomsg
