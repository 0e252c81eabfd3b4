import Aiomsg.Ws.FixedBuffer

/-!
# The C upgrade

`aiomsg_ws_handshake_response` of `c-lib/src/ws.c` and `server_sniff` of `c-lib/src/aiomsg.c`. A
header value is copied into an array of 256 bytes and used as a string that ends at the first NUL.
The SHA-1 and the base64 are OpenSSL's, and a parameter here; allocation succeeds.

## Scope

Everything up to the response is here with its limits: 256 bytes for a header value, 8192 for a
request. Header names are compared without regard to case, as `strncasecmp` does in the C locale.
What is written is the response as a whole; a write that fails ends the connection and is not
followed.

## Main definitions

* `handshakeResponse`, `serverSniff`
-/

namespace Aiomsg

namespace CLib

open Aiomsg.Ws (asBytes maxRequestBytes FixedBuffer.Sniffed)

/-- A line, and what follows it: up to `\r\n`, or all there is. -/
def crlfLine (rest : Bytes) : Bytes × Bytes :=
  match Split.find [13, 10] rest with
  | some i => (rest.take i, rest.drop (i + 2))
  | none => (rest, [])

/-- What `strncasecmp` and `strcasecmp` make of a letter. -/
def lower (c : UInt8) : UInt8 := if 65 ≤ c ∧ c ≤ 90 then c + 32 else c

/-- Spaces and tabs. -/
def isBlank (c : UInt8) : Bool := c = 32 ∨ c = 9

/-- A string in an array. -/
def cstr (s : Bytes) : Bytes := s.takeWhile (· ≠ 0)

/-- `val` in `header_get`, for an array of `valCap` bytes. -/
def value (valCap : ℕ) (v : Bytes) : Bytes := cstr ((Split.trim isBlank v).take (valCap - 1))

theorem length_crlfLine_lt {rest : Bytes} (h : rest ≠ []) :
    (crlfLine rest).2.length < rest.length := by
  have hpos := List.length_pos_iff.mpr h
  rw [crlfLine]
  split
  · rw [List.length_drop]
    omega
  · exact hpos

/-- The loop of `header_get`, behind the request line. -/
def headerLines (name : Bytes) (valCap : ℕ) (rest : Bytes) : Option Bytes :=
  if _h : rest = [] then none
  else
    let line := (crlfLine rest).1
    if line = [] then none
    else
      match Split.once 58 line with
      | none => headerLines name valCap (crlfLine rest).2
      | some (hn, v) =>
        if hn.length = name.length ∧ hn.map lower = name.map lower then some (value valCap v)
        else headerLines name valCap (crlfLine rest).2
termination_by rest.length
decreasing_by all_goals exact length_crlfLine_lt _h

/-- `header_get` -/
def headerGet (req name : Bytes) (valCap : ℕ) : Option Bytes :=
  headerLines name valCap (crlfLine req).2

/-- What `list_has_token` skips before a token. -/
def isSeparator (c : UInt8) : Bool := c = 32 ∨ c = 44 ∨ c = 9

theorem length_dropWhile_token_lt {p : Bytes} (h : p ≠ []) :
    ((p.dropWhile isSeparator).dropWhile (· ≠ 44)).length < p.length := by
  obtain ⟨c, cs, rfl⟩ := List.exists_cons_of_ne_nil h
  have hle : ∀ (q : UInt8 → Bool) (l : Bytes), (l.dropWhile q).length ≤ l.length := fun q l =>
    (List.dropWhile_suffix q).length_le
  rw [List.length_cons]
  by_cases hsep : isSeparator c = true
  · rw [List.dropWhile_cons_of_pos hsep]
    exact Nat.lt_succ_of_le ((hle _ _).trans (hle _ _))
  · have hcomma : c ≠ 44 := by
      rintro rfl
      exact hsep (by decide)
    rw [List.dropWhile_cons_of_neg hsep, List.dropWhile_cons, if_pos (decide_eq_true hcomma)]
    exact Nat.lt_succ_of_le (hle _ _)

/-- `list_has_token` -/
def listHasToken (p token : Bytes) : Bool :=
  if _h : p = [] then false
  else
    let start := p.dropWhile isSeparator
    if ((start.takeWhile (· ≠ 44)).rdropWhile isBlank).map lower = token.map lower then true
    else listHasToken (start.dropWhile (· ≠ 44)) token
termination_by p.length
decreasing_by exact length_dropWhile_token_lt _h

/-- `b64_decoded_len` -/
def b64DecodedLen (s : Bytes) : ℤ :=
  let n := s.length
  if n = 0 ∨ n % 4 ≠ 0 then -1
  else
    let pad := (if s.getD (n - 1) 0 = 61 then 1 else 0) + (if s.getD (n - 2) 0 = 61 then 1 else 0)
    (n / 4 * 3 : ℕ) - (pad : ℤ)

def badRequest : Bytes := asBytes "HTTP/1.1 400 Bad Request\r\n\r\n".toList

def upgradeRequired : Bytes :=
  asBytes "HTTP/1.1 426 Upgrade Required\r\nSec-WebSocket-Version: 13\r\n\r\n".toList

/-- The response to a good request, with what `aiomsg_ws_compute_accept` gives for the key. -/
def switching (accept : Bytes) : Bytes :=
  asBytes ("HTTP/1.1 101 Switching Protocols\r\n".toList ++ "Upgrade: websocket\r\n".toList ++
    "Connection: Upgrade\r\n".toList ++ "Sec-WebSocket-Accept: ".toList) ++ accept ++
    asBytes "\r\n\r\n".toList

/-- `aiomsg_ws_handshake_response` -/
def handshakeResponse (computeAccept : Bytes → Bytes) (req : Bytes) : Except Bytes Bytes :=
  if maxRequestBytes < req.length ∨ req.length < 4 ∨ req.take 4 ≠ asBytes "GET ".toList then
    .error badRequest
  else if (headerGet req (asBytes "Upgrade".toList) 256).map (·.map lower)
      ≠ some (asBytes "websocket".toList) then
    .error badRequest
  else if (headerGet req (asBytes "Connection".toList) 256).map
      (listHasToken · (asBytes "upgrade".toList)) ≠ some true then
    .error badRequest
  else if headerGet req (asBytes "Sec-WebSocket-Version".toList) 256
      ≠ some (asBytes "13".toList) then
    .error upgradeRequired
  else
    match headerGet req (asBytes "Sec-WebSocket-Key".toList) 256 with
    | none => .error badRequest
    | some val =>
      if b64DecodedLen val ≠ 16 then .error badRequest else .ok (switching (computeAccept val))

/-- `server_sniff`. Behind it, the leftover goes to the parser in `WsConn.upgrade`. -/
def serverSniff (computeAccept : Bytes → Bytes) :
    (ErrorKind → Bool) → (ℕ → Bool) → (ℕ → Bool) → Source → FixedBuffer.Sniffed :=
  Ws.FixedBuffer.serverSniff (handshakeResponse computeAccept)

end CLib

end Aiomsg
