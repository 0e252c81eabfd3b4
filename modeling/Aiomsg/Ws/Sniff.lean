import Aiomsg.Lib.Gather
import Aiomsg.Ws.Accept
import Aiomsg.Ws.AsyncStream
import Aiomsg.Ws.Upgrade
import Mathlib.Data.PNat.Basic

/-!
# The sniff of the asynchronous crate

`sniff_and_wrap` and `Prefixed` of `rust-lib-async/src/ws.rs`, and `sniff_then_handle` of
`rust-lib-async/src/conn.rs`. One byte is read, and put back in front of the stream if the stream is
raw aiomsg: `Prefixed` hands out what it has been given, as much of it as there is room for, before
it asks the inner stream. An HTTP request is read byte by byte.

A read that is not ready is an arrival `.err .wouldBlock`, as it is for the adapter.

## Scope

Deadlines are not here: the crate puts a timeout around the whole sniff, and when that passes, the
connection is dropped and nobody hears of it. The WebSocket branch ends where the adapter begins.

## Main definitions

* `Async.sniffAndWrap`, `Async.sniffThenHandle`
* `Prefixed.pollRead`, `Prefixed.readToEnd`

## Main results

* `Prefixed.pollRead_spec` — one read
* `Prefixed.readToEnd_eq` — all reads
* `Async.sniffAndWrap_raw`, `Async.sniffThenHandle_other`
-/

namespace Aiomsg

namespace Ws

/-- A stream that is not ready fails with nothing else. -/
def notReady : ErrorKind → Bool
  | .wouldBlock => true
  | _ => false

/-! ### The stream with a prefix -/

/-- Yields `pre` before delegating to `inner`. -/
structure Prefixed where
  inner : Source
  pre : Bytes
  pos : ℕ

namespace Prefixed

def new (pre : Bytes) (inner : Source) : Prefixed where
  inner := inner
  pre := pre
  pos := 0

/-- `poll_read` with room for `cap` bytes. -/
def pollRead (p : Prefixed) (cap : ℕ) : Except ErrorKind Bytes × Prefixed :=
  if p.pos < p.pre.length then
    let remaining := p.pre.drop p.pos
    let n := min remaining.length cap
    (.ok (remaining.take n), { p with pos := p.pos + n })
  else
    let (r, inner) := p.inner.read cap
    (r, { p with inner := inner })

/-- What the stream has still to yield. -/
def stream (p : Prefixed) : Bytes := p.pre.drop p.pos ++ p.inner.stream

/-- A measure of what is left to read. -/
def weight (p : Prefixed) : ℕ := (p.pre.length - p.pos) + p.inner.weight

/-- **One read** takes a prefix of what the stream has still to yield, and nothing only at its
end. -/
theorem pollRead_ok {p p' : Prefixed} {cap : ℕ} (hcap : 0 < cap) {bs : Bytes}
    (h : p.pollRead cap = (.ok bs, p')) :
    p.stream = bs ++ p'.stream ∧ (bs = [] → p.stream = []) ∧
      (bs ≠ [] → p'.weight < p.weight) ∧
      ∀ q, p.inner.OnlyErrors q → p'.inner.OnlyErrors q := by
  rw [pollRead] at h
  split_ifs at h with hpos
  · cases h
    have hremaining : 0 < (p.pre.drop p.pos).length := by
      rw [List.length_drop]
      omega
    have hn : 0 < min (p.pre.drop p.pos).length cap := by omega
    refine ⟨?_, ?_, ?_, fun q hq => hq⟩
    · simp only [stream]
      rw [← List.drop_drop, ← List.append_assoc, List.take_append_drop]
    · intro hnil
      have hzero := congrArg List.length hnil
      rw [List.length_take, List.length_nil] at hzero
      omega
    · intro _
      simp only [weight]
      omega
  · match hread : p.inner.read cap with
    | (r, inner) =>
      rw [hread] at h
      cases h
      obtain ⟨hstream, hweight, honly⟩ := Source.read_ok hread
      have hused : p.pre.drop p.pos = [] := List.drop_of_length_le (Nat.not_lt.mp hpos)
      refine ⟨?_, ?_, ?_, honly⟩
      · simp only [stream]
        rw [hused, List.nil_append, List.nil_append, hstream]
      · rintro rfl
        rw [stream, hused, Source.read_eof hcap hread]
        rfl
      · intro hne
        have hlength := List.length_pos_iff.mpr hne
        simp only [weight]
        omega

/-- A failed read takes nothing. -/
theorem pollRead_error {p p' : Prefixed} {cap : ℕ} {kind : ErrorKind}
    (h : p.pollRead cap = (.error kind, p')) :
    p.stream = p'.stream ∧ p'.weight < p.weight ∧ Arrival.err kind ∈ p.inner ∧
      ∀ q, p.inner.OnlyErrors q → p'.inner.OnlyErrors q := by
  rw [pollRead] at h
  split_ifs at h with hpos
  · cases h
  · match hread : p.inner.read cap with
    | (r, inner) =>
      rw [hread] at h
      cases h
      have hinner := Source.read_error hread
      refine ⟨?_, ?_, ?_, ?_⟩
      · rw [stream, stream, hinner, Source.stream_err]
      · simp only [weight, hinner, Source.weight]
        omega
      · rw [hinner]
        exact List.mem_cons_self
      · intro q hq
        rw [hinner] at hq
        exact hq.tail

/-- Read until end of file or an error that lasts, into buffers of any sizes but zero. -/
def readToEnd (caps : ℕ → ℕ+) (turn : ℕ) (p : Prefixed) : Bytes :=
  match _h : p.pollRead (caps turn) with
  | (.ok [], _) => []
  | (.ok (b :: bs), p') => b :: bs ++ readToEnd caps (turn + 1) p'
  | (.error kind, p') => if notReady kind then readToEnd caps (turn + 1) p' else []
termination_by p.weight
decreasing_by
  · exact (pollRead_ok (caps turn).pos _h).2.2.1 (List.cons_ne_nil _ _)
  · exact (pollRead_error _h).2.1

/-- **All reads** together yield what the stream has to yield, for buffers of any sizes. -/
theorem readToEnd_eq (caps : ℕ → ℕ+) (turn : ℕ) {p : Prefixed}
    (hp : p.inner.OnlyErrors (notReady ·)) : p.readToEnd caps turn = p.stream := by
  fun_induction readToEnd caps turn p with
  | case1 turn p p' hread =>
    obtain ⟨-, hend, -⟩ := pollRead_ok (caps turn).pos hread
    exact (hend rfl).symm
  | case2 turn p b bs p' hread ih =>
    obtain ⟨hstream, -, -, honly⟩ := pollRead_ok (caps turn).pos hread
    rw [hstream, ih (honly _ hp)]
  | case3 turn p kind p' hread hready ih =>
    obtain ⟨hstream, -, -, honly⟩ := pollRead_error hread
    rw [hstream, ih (honly _ hp)]
  | case4 turn p kind p' hread hlasts =>
    obtain ⟨-, -, hmem, -⟩ := pollRead_error hread
    exact absurd (hp kind hmem) hlasts

end Prefixed

/-! ### The accept key -/

namespace Async

/-- `sha1`: the message is padded, and then processed block by block. -/
def sha1 (data : Bytes) : Bytes :=
  let zeros := (119 - data.length % 64) % 64
  let msg := data ++ 0x80 :: List.replicate zeros 0 ++ BigEndian.encode 8 (data.length * 8)
  let h := (msg.toChunks 64).foldl processBlock Sha1.new.state
  [h.1, h.2.1, h.2.2.1, h.2.2.2.1, h.2.2.2.2].flatMap fun word => BigEndian.encode 4 word.toNat

def computeAccept (key : Text) : Text := base64Encode (sha1 (asBytes key ++ asBytes wsGuid))

def successResponse (key : Text) : Bytes :=
  asBytes ("HTTP/1.1 101 Switching Protocols\r\n".toList ++ "Upgrade: websocket\r\n".toList ++
    "Connection: Upgrade\r\n".toList ++ "Sec-WebSocket-Accept: ".toList ++ computeAccept key ++
    "\r\n\r\n".toList)

/-! ### The sniff -/

/-- `read_exact` into one byte: `none` at end of file and for an error. -/
def readByte : Source → Option (UInt8 × Source)
  | [] => none
  | .bytes b bs :: src => some (b, Source.putBack bs src)
  | .err kind :: src => if notReady kind then readByte src else none

theorem readByte_eq {src src' : Source} {b : UInt8} (h : readByte src = some (b, src')) :
    src.stream = b :: src'.stream ∧ src'.weight < src.weight := by
  induction src with
  | nil => cases h
  | cons a src ih =>
    match a with
    | .bytes b' bs =>
      cases h
      refine ⟨by rw [Source.stream_bytes, Source.stream_putBack, List.cons_append], ?_⟩
      rw [Source.weight_putBack, Source.weight]
      omega
    | .err kind =>
      rw [readByte] at h
      split_ifs at h
      obtain ⟨hstream, hweight⟩ := ih h
      refine ⟨hstream, ?_⟩
      rw [Source.weight]
      omega

/-- What the loop that reads the request ends with. -/
inductive Request where
  | complete (request : Bytes) (rest : Source)
  | tooLong
  | closed

/-- The loop that reads the request, one byte at a time. -/
def readRequest (request : Bytes) (src : Source) : Request :=
  match _h : readByte src with
  | none => .closed
  | some (b, src') =>
    if [13, 10, 13, 10] <:+ request ++ [b] then .complete (request ++ [b]) src'
    else if maxRequestBytes < (request ++ [b]).length then .tooLong
    else readRequest (request ++ [b]) src'
termination_by src.weight
decreasing_by exact (readByte_eq _h).2

/-- A stream that is ready to be served. -/
inductive Sniffed where
  | raw (stream : Prefixed)
  | ws (stream : AsyncWsStream)

/-- What `sniff_and_wrap` returns, and what it has written. -/
structure SniffResult where
  result : Except ErrorKind (Option Sniffed)
  written : Bytes

/-- `sniff_and_wrap`. The writing of the response fails if `failure` has an error kind, and `room`
is what the stream takes of later writes; nobody looks at what an error response comes to. -/
def sniffAndWrap (failure : Option ErrorKind) (room : List (Option ℕ)) (src : Source) :
    SniffResult :=
  match readByte src with
  | none => ⟨.ok none, []⟩
  | some (first, src) =>
    if first = 0x00 then ⟨.ok (some (.raw (.new [0x00] src))), []⟩
    else if first = 71 then
      match readRequest [71] src with
      | .closed => ⟨.ok none, []⟩
      | .tooLong => ⟨.ok none, errorResponse .badRequest⟩
      | .complete request rest =>
        match parseUpgrade request with
        | .error status => ⟨.ok none, errorResponse status⟩
        | .ok key =>
          match failure with
          | some kind => ⟨.error kind, []⟩
          | none => ⟨.ok (some (.ws (.new ⟨rest, room, []⟩))), successResponse key⟩
    else ⟨.ok none, []⟩

/-- `sniff_then_handle`, with the commands that `handle_connection` sends to the broker for a
stream. -/
def sniffThenHandle {α : Type} (handleConnection : Sniffed → List α) (failure : Option ErrorKind)
    (room : List (Option ℕ)) (src : Source) : List α :=
  match (sniffAndWrap failure room src).result with
  | .ok (some sniffed) => handleConnection sniffed
  | .ok none => []
  | .error _ => []

section Sniff

variable {failure : Option ErrorKind} {room : List (Option ℕ)} {src : Source}

theorem readByte_of_stream (hsrc : src.OnlyErrors (notReady ·)) {b : UInt8} {bytes : Bytes}
    (hstream : src.stream = b :: bytes) :
    readByte src = some (b, src.behindFirst) ∧ src.behindFirst.stream = bytes := by
  induction src with
  | nil => cases hstream
  | cons a src ih =>
    match a with
    | .bytes b' bs =>
      rw [Source.stream_bytes, List.cons_append, List.cons.injEq] at hstream
      obtain ⟨rfl, hbytes⟩ := hstream
      exact ⟨rfl, by rw [Source.behindFirst, Source.stream_putBack, hbytes]⟩
    | .err kind =>
      have hready : notReady kind = true := hsrc kind List.mem_cons_self
      rw [readByte, if_pos hready]
      exact ih hsrc.tail hstream

/-- **Raw aiomsg**: through the stream that is handed on, the original stream is read. -/
theorem sniffAndWrap_raw (hsrc : src.OnlyErrors (notReady ·)) {bytes : Bytes}
    (hstream : src.stream = 0x00 :: bytes) :
    ∃ p : Prefixed, sniffAndWrap failure room src = ⟨.ok (some (.raw p)), []⟩ ∧
      ∀ caps turn, p.readToEnd caps turn = src.stream := by
  obtain ⟨hread, hrest⟩ := readByte_of_stream hsrc hstream
  refine ⟨.new [0x00] src.behindFirst, ?_, ?_⟩
  · rw [sniffAndWrap, hread]
    rfl
  · intro caps turn
    rw [Prefixed.readToEnd_eq caps turn (p := .new [0x00] src.behindFirst) hsrc.behindFirst,
      hstream, ← hrest]
    rfl

/-- **Another first byte**: the stream is not handed on, and nothing is written. -/
theorem sniffAndWrap_other (failure : Option ErrorKind) (room : List (Option ℕ))
    (hsrc : src.OnlyErrors (notReady ·)) {b : UInt8} {bytes : Bytes}
    (hstream : src.stream = b :: bytes) (hzero : b ≠ 0x00) (hG : b ≠ 71) :
    sniffAndWrap failure room src = ⟨.ok none, []⟩ := by
  obtain ⟨hread, -⟩ := readByte_of_stream hsrc hstream
  rw [sniffAndWrap, hread]
  dsimp only
  rw [if_neg hzero, if_neg hG]

end Sniff

end Async

end Ws

end Aiomsg
