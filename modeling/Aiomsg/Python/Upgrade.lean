import Aiomsg.Ws.Accept
import Mathlib.Data.FinEnum
import Mathlib.Data.Fintype.Basic

/-!
# The upgrade request in Python

`parse_upgrade`, `success_response` and `error_response` of the two `ws.py`, which are copies of
each other. A request stays a byte string throughout, so there is nothing to decode but the key at
the end, and that is ASCII if it is base64. The headers are a dictionary; a name that occurs twice
has its last value. `hashlib.sha1` is a parameter.

## Scope

`b64decode` with `validate=True` is modelled by what it accepts and how much it gives; alphabets
other than the standard one are not used. The reason phrases are the source's. What is done with a
request that is turned down, beyond the answer, is the caller's.

## Main definitions

* `Upgrade.b64decode`, `Upgrade.parseUpgrade`

## Main results

* `Upgrade.parseUpgrade_eq_ok` — an accepted key stands for sixteen bytes, and is ASCII
-/

namespace Aiomsg

namespace Python

namespace Upgrade

open Ws (Status asBytes base64Val base64Digits base64Encode wsGuid base64Val_of_base64Digits)

/-- What `bytes.strip` strips. -/
def isSpace (b : UInt8) : Bool := b = 32 ∨ 9 ≤ b ∧ b ≤ 13

def strip (bytes : Bytes) : Bytes := Split.trim isSpace bytes

/-- `bytes.lower` -/
def lower (bytes : Bytes) : Bytes := bytes.map fun b => if 65 ≤ b ∧ b ≤ 90 then b + 32 else b

/-- `base64.b64decode(key, validate=True)`, with `none` for what it raises: no other characters, at
most two of padding, and no incomplete group. -/
def b64decode (key : Bytes) : Option Bytes :=
  let digits := key.rdropWhile (· = 61)
  if key.length % 4 = 0 ∧ key.length ≤ digits.length + 2 then base64Digits digits 0 0 else none

/-- The loop over the header lines. The dictionary has its latest entry first. -/
def readHeaders (headers : List (Bytes × Bytes)) :
    List Bytes → Except Status (List (Bytes × Bytes))
  | [] => .ok headers
  | line :: lines =>
    if line = [] then readHeaders headers lines
    else
      match Split.once 58 line with
      | none => .error .badRequest
      | some (name, value) => readHeaders ((lower (strip name), strip value) :: headers) lines

/-- `headers.get(name, b"")` -/
def header (headers : List (Bytes × Bytes)) (name : String) : Bytes :=
  (headers.lookup (asBytes name.toList)).getD []

/-- What the headers come to. -/
def checkHeaders (headers : List (Bytes × Bytes)) : Except Status Bytes :=
  if lower (header headers "upgrade") ≠ asBytes "websocket".toList then .error .badRequest
  else if !((header headers "connection").splitOn 44).any
      fun t => lower (strip t) == asBytes "upgrade".toList then
    .error .badRequest
  else if header headers "sec-websocket-version" ≠ asBytes "13".toList then
    .error .upgradeRequired
  else
    let key := header headers "sec-websocket-key"
    if (b64decode key).map List.length ≠ some 16 then .error .badRequest else .ok key

def parseUpgrade (request : Bytes) : Except Status Bytes :=
  let lines := Split.atPair 13 10 request
  let parts := (lines.headD []).splitOn 32
  if parts.length ≠ 3 ∨ parts.getD 0 [] ≠ asBytes "GET".toList
      ∨ ¬ asBytes "HTTP/1.".toList <+: parts.getD 2 [] then .error .badRequest
  else
    match readHeaders [] lines.tail with
    | .error status => .error status
    | .ok headers => checkHeaders headers

def computeAccept (sha1 : Bytes → Bytes) (key : Bytes) : Bytes :=
  asBytes (base64Encode (sha1 (key ++ asBytes wsGuid)))

def successResponse (sha1 : Bytes → Bytes) (key : Bytes) : Bytes :=
  asBytes ("HTTP/1.1 101 Switching Protocols\r\n".toList ++ "Upgrade: websocket\r\n".toList ++
    "Connection: Upgrade\r\n".toList ++ "Sec-WebSocket-Accept: ".toList) ++
    computeAccept sha1 key ++ asBytes "\r\n\r\n".toList

/-- The texts are those of the crates. -/
def errorResponse (status : Status) : Bytes := Ws.errorResponse status

/-! ### What is accepted -/

theorem ascii_of_base64Val : ∀ c : UInt8, (base64Val c).isSome → c < 128 := by
  decide +kernel

theorem ascii_of_base64Digits {cs : Bytes} {acc : UInt32} {bits : ℕ}
    (h : (base64Digits cs acc bits).isSome) : ∀ c ∈ cs, c < 128 := by
  intro c hc
  have hdigit := base64Val_of_base64Digits (Option.isSome_iff_ne_none.mp h) c hc
  exact ascii_of_base64Val c (Option.isSome_iff_ne_none.mpr hdigit)

/-- What `b64decode` takes is ASCII. -/
theorem ascii_of_b64decode {key : Bytes} (h : (b64decode key).isSome) : ∀ c ∈ key, c < 128 := by
  rw [b64decode] at h
  split_ifs at h
  · have hdigits := ascii_of_base64Digits h
    have hsplit : key.rdropWhile (· = 61) ++ key.rtakeWhile (· = 61) = key :=
      List.rdropWhile_append_rtakeWhile
    intro c hc
    rw [← hsplit, List.mem_append] at hc
    rcases hc with hc | hc
    · exact hdigits c hc
    · have hpad : c = 61 := by simpa using List.mem_rtakeWhile_imp hc
      rw [hpad]
      decide
  · cases h

/-- **A key that is accepted** stands for sixteen bytes, and decoding it as ASCII does not raise. -/
theorem parseUpgrade_eq_ok {request key : Bytes} (h : parseUpgrade request = .ok key) :
    (∃ nonce, b64decode key = some nonce ∧ nonce.length = 16) ∧ ∀ c ∈ key, c < 128 := by
  rw [parseUpgrade] at h
  split_ifs at h
  match hheaders : readHeaders [] (Split.atPair 13 10 request).tail with
  | .error status => simp [hheaders] at h
  | .ok headers =>
    rw [hheaders] at h
    dsimp only [checkHeaders] at h
    split_ifs at h with _ _ _ hkey
    obtain rfl := Except.ok.inj h
    obtain ⟨nonce, hnonce, hlength⟩ := Option.map_eq_some_iff.mp (not_not.mp hkey)
    exact ⟨⟨nonce, hnonce, hlength⟩, ascii_of_b64decode (by rw [hnonce]; rfl)⟩

end Upgrade

end Python

end Aiomsg
