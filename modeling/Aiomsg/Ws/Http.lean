import Aiomsg.Lib.Split
import Aiomsg.Lib.Utf8
import Aiomsg.Protocol.Envelope

/-!
# The upgrade request

`parse_upgrade` of the two Rust crates. Both decode the request, cut it into lines and look at the
request line and then at four headers, of each of which the last one counts. They were written
separately, and differ in two places. One decodes strictly and turns down what is not UTF-8, the
other puts U+FFFD where it is not. And one looks at the first and the third word of the request
line, the other wants there to be three words. What they do with the headers is the same.

A string is a list of characters here. `str::trim` strips the characters with the Unicode property
White_Space, `to_ascii_lowercase` the ASCII letters.

## Scope

A request is what is in front of the blank line and that line. Folded headers and header values that
are not text have no special treatment in the source and none here. `from_utf8_lossy` is modelled as
the standard library documents it, one replacement for each maximal piece that is no character.

## Main definitions

* `Headers`, `validateHeaders` — the header lines
* `Sync.parseUpgrade`, `Async.parseUpgrade` — the two functions
* `Upgrades` — what the headers have to be for an answer other than `400 Bad Request`

## Main results

* `validateHeaders_eq_badRequest_iff`
* `parseUpgrade_eq_iff` — exactly when the two functions agree
-/

namespace Aiomsg

namespace Ws

/-- A string. -/
abbrev Text := List Char

/-- `as_bytes` -/
def asBytes (s : Text) : Bytes := s.flatMap String.utf8EncodeChar

/-- An HTTP status line to reply with on rejection. -/
inductive Status where
  | badRequest
  | upgradeRequired
deriving DecidableEq

def Status.text : Status → Text
  | .badRequest => "400 Bad Request".toList
  | .upgradeRequired => "426 Upgrade Required".toList

/-! ### Base64 -/

/-- The value of a digit. -/
def base64Val (c : UInt8) : Option UInt32 :=
  if 65 ≤ c ∧ c ≤ 90 then some (c - 65).toUInt32 -- A to Z
  else if 97 ≤ c ∧ c ≤ 122 then some (c - 97 + 26).toUInt32 -- a to z
  else if 48 ≤ c ∧ c ≤ 57 then some (c - 48 + 52).toUInt32 -- 0 to 9
  else if c = 43 then some 62 -- +
  else if c = 47 then some 63 -- /
  else none

/-- The loop of `base64_decode`. -/
def base64Digits : Bytes → UInt32 → ℕ → Option Bytes
  | [], _, _ => some []
  | c :: cs, acc, bits =>
    match base64Val c with
    | none => none
    | some v =>
      let acc := acc <<< 6 ||| v
      if 8 ≤ bits + 6 then
        (base64Digits cs acc (bits + 6 - 8)).map
          ((acc >>> UInt32.ofNat (bits + 6 - 8)).toUInt8 :: ·)
      else base64Digits cs acc (bits + 6)

def base64Decode (s : Text) : Option Bytes :=
  base64Digits (asBytes (s.rdropWhile (· = '='))) 0 0

/-- There are only digits in what is decoded. -/
theorem base64Val_of_base64Digits {cs : Bytes} {acc : UInt32} {bits : ℕ}
    (h : base64Digits cs acc bits ≠ none) : ∀ c ∈ cs, base64Val c ≠ none := by
  induction cs generalizing acc bits with
  | nil => exact fun c hc => absurd hc List.not_mem_nil
  | cons c cs ih =>
    rw [base64Digits] at h
    match hval : base64Val c with
    | none => simp [hval] at h
    | some v =>
      rw [hval] at h
      dsimp only at h
      refine List.forall_mem_cons.mpr ⟨by rw [hval]; exact Option.some_ne_none v, ?_⟩
      split_ifs at h
      · exact ih fun hnone => h (by rw [hnone, Option.map_none])
      · exact ih h

/-! ### Headers -/

/-- `char::is_whitespace` -/
def isWhitespace (c : Char) : Bool :=
  let n := c.toNat
  (0x9 ≤ n ∧ n ≤ 0xD) ∨ n = 0x20 ∨ n = 0x85 ∨ n = 0xA0 ∨ n = 0x1680 ∨ (0x2000 ≤ n ∧ n ≤ 0x200A) ∨
    n = 0x2028 ∨ n = 0x2029 ∨ n = 0x202F ∨ n = 0x205F ∨ n = 0x3000

def trim (s : Text) : Text := Split.trim isWhitespace s

def toAsciiLowercase (s : Text) : Text := s.map Char.toLower

/-- The headers looked at. -/
structure Headers where
  upgrade : Option Text := none
  connection : Option Text := none
  wsVersion : Option Text := none
  key : Option Text := none

/-- One line: `none` if there is no colon in it. -/
def Headers.line (h : Headers) (line : Text) : Option Headers :=
  if line = [] then some h
  else
    match Split.once ':' line with
    | none => none
    | some (n, v) =>
      let name := toAsciiLowercase (trim n)
      let value := trim v
      if name = "upgrade".toList then some { h with upgrade := some (toAsciiLowercase value) }
      else if name = "connection".toList then
        some { h with connection := some (toAsciiLowercase value) }
      else if name = "sec-websocket-version".toList then some { h with wsVersion := some value }
      else if name = "sec-websocket-key".toList then some { h with key := some value }
      else some h

/-- `c.split(',').any(|t| t.trim() == "upgrade")` -/
def hasUpgradeToken (connection : Text) : Bool :=
  (connection.splitOn ',').any fun t => trim t = "upgrade".toList

/-- What the headers come to, once all lines have been read. -/
def Headers.check (h : Headers) : Except Status Text :=
  if h.upgrade ≠ some "websocket".toList then .error .badRequest
  else if (h.connection.map hasUpgradeToken).getD false = false then .error .badRequest
  else if h.wsVersion ≠ some "13".toList then .error .upgradeRequired
  else
    match h.key with
    | none => .error .badRequest
    | some key =>
      if (base64Decode key).map List.length ≠ some 16 then .error .badRequest else .ok key

/-- The rest of `parse_upgrade`, behind the request line. -/
def validateHeaders (lines : List Text) : Except Status Text :=
  match lines.foldlM Headers.line {} with
  | none => .error .badRequest
  | some h => h.check

/-! ### Requests -/

/-- `text.split("\r\n")` -/
def splitLines (text : Text) : List Text := Split.atPair '\r' '\n' text

/-- The words of the request line. -/
def requestWords (lines : List Text) : List Text := (lines.headD []).splitOn ' '

/-- The two words of the request line that are looked at. -/
def IsGet (words : List Text) : Prop :=
  words.getD 0 [] = "GET".toList ∧ "HTTP/1.".toList <+: words.getD 2 []

instance (words : List Text) : Decidable (IsGet words) := inferInstanceAs (Decidable (_ ∧ _))

/-- `parse_upgrade` of `rust-lib-sync`. -/
def Sync.parseUpgrade (request : Bytes) : Except Status Text :=
  match Utf8.decode request with
  | none => .error .badRequest
  | some text =>
    let lines := splitLines text
    let words := requestWords lines
    if ¬ IsGet words then .error .badRequest else validateHeaders lines.tail

/-- `parse_upgrade` of `rust-lib-async`. -/
def Async.parseUpgrade (request : Bytes) : Except Status Text :=
  let lines := splitLines (Utf8.decodeLossy request)
  let words := requestWords lines
  if words.length ≠ 3 ∨ ¬ IsGet words then .error .badRequest else validateHeaders lines.tail

/-! ### What the headers say -/

/-- The value in a line, if it is a header of this name. -/
def header? (name line : Text) : Option Text :=
  match Split.once ':' line with
  | none => none
  | some (n, v) => if toAsciiLowercase (trim n) = name then some (trim v) else none

/-- The value of the last header of a name. -/
def lastHeader (name : Text) : List Text → Option Text
  | [] => none
  | line :: lines => (lastHeader name lines).or (header? name line)

/-- No line is without a colon, but for empty ones. -/
def WellFormed (lines : List Text) : Prop := ∀ line ∈ lines, line ≠ [] → ':' ∈ line

instance (lines : List Text) : Decidable (WellFormed lines) :=
  inferInstanceAs (Decidable (∀ line ∈ lines, _))

/-- The headers that are answered with something other than `400 Bad Request`: they ask for an
upgrade to WebSocket, and the version is another one or there is a key of sixteen bytes. -/
structure Upgrades (lines : List Text) : Prop where
  wellFormed : WellFormed lines
  upgrade : (lastHeader "upgrade".toList lines).map toAsciiLowercase = some "websocket".toList
  connection : ∃ value, lastHeader "connection".toList lines = some value ∧
    ∃ token ∈ (toAsciiLowercase value).splitOn ',', trim token = "upgrade".toList
  key : lastHeader "sec-websocket-version".toList lines = some "13".toList →
    ∃ key bytes, lastHeader "sec-websocket-key".toList lines = some key ∧
      base64Decode key = some bytes ∧ bytes.length = 16

/-- What the lines add to headers. -/
def Headers.with (h : Headers) (lines : List Text) : Headers where
  upgrade := ((lastHeader "upgrade".toList lines).map toAsciiLowercase).or h.upgrade
  connection := ((lastHeader "connection".toList lines).map toAsciiLowercase).or h.connection
  wsVersion := (lastHeader "sec-websocket-version".toList lines).or h.wsVersion
  key := (lastHeader "sec-websocket-key".toList lines).or h.key

theorem once_eq_none_iff {c : Char} {line : Text} : Split.once c line = none ↔ c ∉ line := by
  rw [Split.once]
  split_ifs with h <;> simp [h]

theorem Headers.line_eq (h : Headers) (line : Text) :
    h.line line = if line ≠ [] ∧ ':' ∉ line then none else some (h.with [line]) := by
  rw [Headers.line]
  by_cases hempty : line = []
  · subst hempty
    rfl
  · rw [if_neg hempty]
    match honce : Split.once ':' line with
    | none =>
      rw [if_pos ⟨hempty, once_eq_none_iff.mp honce⟩]
    | some (n, v) =>
      have hcolon : ':' ∈ line := by
        by_contra hnot
        rw [once_eq_none_iff.mpr hnot] at honce
        exact absurd honce (by simp)
      have hheader : ∀ name, header? name line
          = if toAsciiLowercase (trim n) = name then some (trim v) else none := by
        intro name
        rw [header?, honce]
      rw [if_neg (by simp [hcolon])]
      simp only [Headers.with, lastHeader, hheader, Option.none_or]
      generalize toAsciiLowercase (trim n) = name
      split_ifs <;> simp_all

theorem Headers.with_cons (h : Headers) (line : Text) (lines : List Text) :
    h.with (line :: lines) = (h.with [line]).with lines := by
  simp only [Headers.with, lastHeader, Option.none_or, Option.map_or, Option.or_assoc]

/-- Reading all lines. -/
theorem Headers.foldlM_line (h : Headers) (lines : List Text) :
    lines.foldlM Headers.line h = if WellFormed lines then some (h.with lines) else none := by
  induction lines generalizing h with
  | nil =>
    rw [if_pos (by simp [WellFormed])]
    rfl
  | cons line lines ih =>
    have hcons : WellFormed (line :: lines) ↔ (line ≠ [] → ':' ∈ line) ∧ WellFormed lines :=
      List.forall_mem_cons
    rw [List.foldlM_cons, Headers.line_eq]
    by_cases hline : line ≠ [] → ':' ∈ line
    · have hgood : ¬ (line ≠ [] ∧ ':' ∉ line) := fun hbad => hbad.2 (hline hbad.1)
      rw [if_neg hgood, Option.bind_eq_bind, Option.bind_some, ih, Headers.with_cons h line lines]
      exact if_congr (hcons.trans (and_iff_right hline)).symm rfl rfl
    · rw [if_pos (Classical.not_imp.mp hline), if_neg fun hall => hline (hcons.mp hall).1]
      rfl

theorem hasUpgradeToken_iff {connection : Text} :
    hasUpgradeToken connection = true
      ↔ ∃ token ∈ connection.splitOn ',', trim token = "upgrade".toList := by
  rw [hasUpgradeToken, List.any_eq_true]
  simp only [decide_eq_true_eq]

/-- **Which headers are answered with `400 Bad Request`.** -/
theorem validateHeaders_eq_badRequest_iff (lines : List Text) :
    validateHeaders lines = .error .badRequest ↔ ¬ Upgrades lines := by
  rw [validateHeaders, Headers.foldlM_line]
  by_cases hform : WellFormed lines
  · rw [if_pos hform]
    simp only [Headers.check, Headers.with, Option.or_none]
    by_cases hupgrade :
        (lastHeader "upgrade".toList lines).map toAsciiLowercase = some "websocket".toList
    · rw [if_neg (not_not.mpr hupgrade)]
      match hconnection : lastHeader "connection".toList lines with
      | none =>
        refine iff_of_true rfl fun h => ?_
        obtain ⟨value, hvalue, -⟩ := h.connection
        rw [hconnection] at hvalue
        exact absurd hvalue (by simp)
      | some value =>
        rw [Option.map_some, Option.map_some, Option.getD_some]
        by_cases htoken : hasUpgradeToken (toAsciiLowercase value) = false
        · rw [if_pos htoken]
          refine iff_of_true rfl fun h => ?_
          obtain ⟨value', hvalue, htoken'⟩ := h.connection
          obtain rfl := Option.some.inj (hconnection.symm.trans hvalue)
          rw [hasUpgradeToken_iff.mpr htoken'] at htoken
          exact absurd htoken (by simp)
        · rw [if_neg htoken]
          rw [Bool.not_eq_false, hasUpgradeToken_iff] at htoken
          by_cases hversion : lastHeader "sec-websocket-version".toList lines = some "13".toList
          · rw [if_neg (not_not.mpr hversion)]
            match hkey : lastHeader "sec-websocket-key".toList lines with
            | none =>
              refine iff_of_true rfl fun h => ?_
              obtain ⟨key, -, hsome, -⟩ := h.key hversion
              rw [hkey] at hsome
              exact absurd hsome (by simp)
            | some key =>
              dsimp only
              split_ifs with hlength
              · refine iff_of_true rfl fun h => ?_
                obtain ⟨key', bytes, hsome, hdecode, hsixteen⟩ := h.key hversion
                obtain rfl := Option.some.inj (hkey.symm.trans hsome)
                rw [hdecode, Option.map_some, hsixteen] at hlength
                exact hlength rfl
              · refine iff_of_false (by simp) (not_not.mpr ?_)
                obtain ⟨bytes, hdecode, hsixteen⟩ := Option.map_eq_some_iff.mp (not_not.mp hlength)
                exact ⟨hform, hupgrade, ⟨value, hconnection, htoken⟩, fun _ =>
                  ⟨key, bytes, hkey, hdecode, hsixteen⟩⟩
          · rw [if_pos hversion]
            refine iff_of_false (by simp) (not_not.mpr ?_)
            exact ⟨hform, hupgrade, ⟨value, hconnection, htoken⟩, fun h => absurd h hversion⟩
    · rw [if_pos hupgrade]
      exact iff_of_true rfl fun h => hupgrade h.upgrade
  · rw [if_neg hform]
    exact iff_of_true rfl fun h => hform h.wellFormed

/-- A request line that both functions take for one, and that has more than three words. -/
def LongRequestLine (lines : List Text) : Prop :=
  IsGet (requestWords lines) ∧ 3 < (requestWords lines).length

/-- A request line of three words that both functions take for one. -/
def PlainRequestLine (lines : List Text) : Prop :=
  IsGet (requestWords lines) ∧ (requestWords lines).length = 3

/-- There are three words at least if the third one is not empty. -/
theorem three_le_of_isGet {words : List Text} (h : IsGet words) : 3 ≤ words.length := by
  by_contra hshort
  have hnone : words.getD 2 [] = [] := by
    rw [List.getD_eq_getElem?_getD, List.getElem?_eq_none (by omega)]
    rfl
  have hversion := h.2
  rw [hnone, List.prefix_nil] at hversion
  exact absurd hversion (by decide)

/-- **When the two functions agree.** They do on every request but two kinds: those of UTF-8 that
have more than three words in the request line, and those that are not UTF-8, if they are otherwise
such that they are answered with something other than `400 Bad Request`. -/
theorem parseUpgrade_eq_iff (request : Bytes) :
    Sync.parseUpgrade request = Async.parseUpgrade request ↔
      (∀ text, Utf8.decode request = some text →
        ¬ (LongRequestLine (splitLines text) ∧ Upgrades (splitLines text).tail)) ∧
      (Utf8.decode request = none →
        ¬ (PlainRequestLine (splitLines (Utf8.decodeLossy request)) ∧
            Upgrades (splitLines (Utf8.decodeLossy request)).tail)) := by
  rw [Sync.parseUpgrade, Async.parseUpgrade]
  match hdecode : Utf8.decode request with
  | some text =>
    rw [Utf8.decodeLossy_of_decode hdecode]
    have hsome : (∀ t, some text = some t →
          ¬ (LongRequestLine (splitLines t) ∧ Upgrades (splitLines t).tail)) ↔
        ¬ (LongRequestLine (splitLines text) ∧ Upgrades (splitLines text).tail) :=
      ⟨fun h => h text rfl, fun h t ht => Option.some.inj ht ▸ h⟩
    rw [hsome, and_iff_left (by simp)]
    dsimp only
    generalize splitLines text = lines
    by_cases hget : IsGet (requestWords lines)
    · have hthree := three_le_of_isGet hget
      rw [if_neg (not_not.mpr hget)]
      by_cases hlong : 3 < (requestWords lines).length
      · rw [if_pos (.inl (by omega)), validateHeaders_eq_badRequest_iff]
        exact not_congr (and_iff_right ⟨hget, hlong⟩).symm
      · have hneither : ¬ ((requestWords lines).length ≠ 3 ∨ ¬ IsGet (requestWords lines)) := by
          rw [not_or, not_not, not_not]
          exact ⟨by omega, hget⟩
        rw [if_neg hneither]
        exact iff_of_true rfl fun h => hlong h.1.2
    · rw [if_pos hget, if_pos (.inr hget)]
      exact iff_of_true rfl fun h => hget h.1.1
  | none =>
    dsimp only
    generalize splitLines (Utf8.decodeLossy request) = lines
    have hvacuous : ∀ t, (none : Option Text) = some t →
        ¬ (LongRequestLine (splitLines t) ∧ Upgrades (splitLines t).tail) := nofun
    rw [and_iff_right hvacuous]
    by_cases hplain : PlainRequestLine lines
    · have hneither : ¬ ((requestWords lines).length ≠ 3 ∨ ¬ IsGet (requestWords lines)) := by
        rw [not_or, not_not, not_not]
        exact ⟨hplain.2, hplain.1⟩
      rw [if_neg hneither, eq_comm, validateHeaders_eq_badRequest_iff]
      exact ⟨fun h _ hboth => h hboth.2, fun h hup => h rfl ⟨hplain, hup⟩⟩
    · have heither : (requestWords lines).length ≠ 3 ∨ ¬ IsGet (requestWords lines) := by
        by_contra hneither
        rw [not_or, not_not, not_not] at hneither
        exact hplain ⟨hneither.2, hneither.1⟩
      rw [if_pos heither]
      exact iff_of_true rfl fun _ h => hplain h.1

/-- A request with a fourth word in the request line, and of another version. -/
def longRequest : Bytes :=
  asBytes ("GET / HTTP/1.1 x\r\nUpgrade: websocket\r\nConnection: Upgrade\r\n".toList
    ++ "Sec-WebSocket-Version: 8\r\n\r\n".toList)

theorem parseUpgrade_longRequest :
    [13, 10, 13, 10] <:+ longRequest ∧
      Sync.parseUpgrade longRequest = .error .upgradeRequired ∧
      Async.parseUpgrade longRequest = .error .badRequest := by
  refine ⟨?_, ?_, ?_⟩ <;> decide +kernel

end Ws

end Aiomsg
