import Aiomsg.Lib.Reader
import Aiomsg.Python.Upgrade
import Aiomsg.Ws.Frame
import Aiomsg.Ws.Upgrade

/-!
# The WebSocket adapter of the blocking package

`WSSocket` of `python-lib-blocking/aiomsg_blocking/ws.py`, and the sniff that makes one. Bytes that
have arrived are in two places: in `_raw_buf` as long as no frame has been made of them, and in
`_out_buf` once they are payload that nobody has asked for yet. What came with the upgrade request
is put into the first, and stays there until `recv_into` is called; `_pump` takes frames out of it
until there is none or until one of them ends the stream, and what is behind that one stays there
for good. `pending` looks at the second place only.

`recv_into` is cut here where it asks the raw socket for something. `pump` is `_pump` up to where it
has a frame to send; when that has been sent, it is called again, and goes on from where it was.

## Scope

The buffers are lists, and `memoryview`s into them are not kept: what is handed out is copied first.
Frames that the adapter sends are built as in the other adapters. The sniff is on the accepting
side, and its deadline is an arrival like any other.

## Main definitions

* `WsSocket`, `WsSocket.pump` — the adapter
* `Complete`, `Hides` — what can be in a buffer
* `sniffAndWrap`

## Main results

* `WsSocket.pump_spec` — what a call leaves in `_raw_buf`
* `recvUntil_found` — the upgrade loses no byte
-/

namespace Aiomsg

namespace Python

namespace BlockingWs

open Ws (opBin opCont opPing opPong opText opClose xorMask closeCode toBeBytes serverFrame
  maxRequestBytes)
open Upgrade (parseUpgrade)

/-! ### Frames -/

/-- `parse_client_frame`: the opcode, the payload and how many bytes they took, or nothing if more
bytes are needed. A protocol error is raised with its close code. -/
def parseClientFrame (buf : Bytes) : Except UInt16 (Option (UInt8 × Bytes × ℕ)) :=
  match Ws.clientHead buf with
  | .needMore => .ok none
  | .protocol code => .error code
  | .known opcode fin length offset =>
    if 0x8 ≤ opcode ∧ (fin = false ∨ 125 < length) then
      .error 1002 -- control frames: FIN=1, ≤125 bytes
    else if buf.length < offset + 4 + length then .ok none
    else
      let mask := (buf.drop offset).take 4
      let raw := (buf.drop (offset + 4)).take length
      .ok (some (opcode, xorMask mask raw, offset + 4 + length))

/-- A frame takes some of the bytes that are there. -/
theorem consumed_of_parse {buf payload : Bytes} {opcode : UInt8} {consumed : ℕ}
    (h : parseClientFrame buf = .ok (some (opcode, payload, consumed))) :
    0 < consumed ∧ consumed ≤ buf.length := by
  rw [parseClientFrame] at h
  match hhead : Ws.clientHead buf with
  | .needMore => simp [hhead] at h
  | .protocol code => simp [hhead] at h
  | .known opcode' fin length offset =>
    rw [hhead] at h
    dsimp only at h
    split_ifs at h with hcontrol hshort
    · cases h
    · obtain rfl : offset + 4 + length = consumed := by
        rw [Except.ok.injEq, Option.some.injEq, Prod.mk.injEq, Prod.mk.injEq] at h
        exact h.2.2
      omega

theorem length_drop_lt {buf payload : Bytes} {opcode : UInt8} {consumed : ℕ}
    (h : parseClientFrame buf = .ok (some (opcode, payload, consumed))) :
    (buf.drop consumed).length < buf.length := by
  have hconsumed := consumed_of_parse h
  rw [List.length_drop]
  omega

/-- A complete client frame is at the front of the buffer. -/
def Complete (buf : Bytes) : Prop := ∃ frame, parseClientFrame buf = .ok (some frame)

instance (buf : Bytes) : Decidable (Complete buf) :=
  match h : parseClientFrame buf with
  | .ok (some frame) => .isTrue ⟨frame, h⟩
  | .ok none => .isFalse fun ⟨frame, hframe⟩ => by simp [h] at hframe
  | .error code => .isFalse fun ⟨frame, hframe⟩ => by simp [h] at hframe

/-- The opcodes on which the stream goes on. -/
def GoesOn (opcode : UInt8) : Prop :=
  opcode = opBin ∨ opcode = opCont ∨ opcode = opPing ∨ opcode = opPong

instance (opcode : UInt8) : Decidable (GoesOn opcode) := inferInstanceAs (Decidable (_ ∨ _))

/-- Behind the frame in the buffer that ends the stream there is another complete frame. -/
def Hides (buf : Bytes) : Prop :=
  match _h : parseClientFrame buf with
  | .ok (some (opcode, _, consumed)) =>
    if GoesOn opcode then Hides (buf.drop consumed) else Complete (buf.drop consumed)
  | _ => False
termination_by buf.length
decreasing_by exact length_drop_lt _h

theorem hides_of_frame {buf payload : Bytes} {opcode : UInt8} {consumed : ℕ}
    (h : parseClientFrame buf = .ok (some (opcode, payload, consumed))) :
    Hides buf ↔
      if GoesOn opcode then Hides (buf.drop consumed) else Complete (buf.drop consumed) := by
  rw [Hides]
  split
  · rename_i opcode' payload' consumed' hparse
    rw [hparse] at h
    cases h
    rfl
  · rename_i hno
    exact absurd h (hno _ _ _)

/-- Without a complete frame there is nothing to hide. -/
theorem not_hides {buf : Bytes} (h : ¬ Complete buf) : ¬ Hides buf := by
  rw [Hides]
  split
  · rename_i frame _ _ hparse
    exact absurd ⟨_, hparse⟩ h
  · exact id

/-! ### The adapter -/

structure WsSocket where
  rawBuf : Bytes
  outBuf : Bytes
  eof : Bool
  closeSent : Bool
deriving DecidableEq

namespace WsSocket

def new (initial : Bytes) : WsSocket := ⟨initial, [], false, false⟩

def pending (ws : WsSocket) : Bool := ws.outBuf ≠ []

/-- `_send_close(code)` and then `self._eof = True`, with the frame that is sent. -/
def fail (code : UInt16) (ws : WsSocket) : WsSocket × Option Bytes :=
  if ws.closeSent then ({ ws with eof := true }, none)
  else ({ ws with eof := true, closeSent := true }, some (serverFrame opClose (toBeBytes code)))

/-- `_pump`, up to a frame that is sent. -/
def pump (ws : WsSocket) : WsSocket × Option Bytes :=
  if ws.eof then (ws, none)
  else
    match _h : parseClientFrame ws.rawBuf with
    | .error code => ws.fail code
    | .ok none => (ws, none)
    | .ok (some (opcode, payload, consumed)) =>
      let rest := ws.rawBuf.drop consumed
      if opcode = opBin ∨ opcode = opCont then
        pump { ws with rawBuf := rest, outBuf := ws.outBuf ++ payload }
      else if opcode = opPing then ({ ws with rawBuf := rest }, some (serverFrame opPong payload))
      else if opcode = opPong then pump { ws with rawBuf := rest }
      else if opcode = opText then { ws with rawBuf := rest }.fail 1003 -- not valid for aiomsg
      else if opcode = opClose then { ws with rawBuf := rest }.fail (closeCode payload)
      else { ws with rawBuf := rest }.fail 1002 -- unknown opcode
termination_by ws.rawBuf.length
decreasing_by all_goals exact length_drop_lt _h

/-- No complete frame is in `_raw_buf`. -/
def Clear (ws : WsSocket) : Prop := ¬ Complete ws.rawBuf

/-- Nothing is in `_raw_buf` that `_pump` would leave there. -/
def Calm (ws : WsSocket) : Prop := ¬ Hides ws.rawBuf ∧ (ws.eof = true → ws.Clear)

theorem Clear.calm {ws : WsSocket} (h : ws.Clear) : ws.Calm := ⟨not_hides h, fun _ => h⟩

theorem clear_fail {ws : WsSocket} (h : ws.Clear) (code : UInt16) : (ws.fail code).1.Clear := by
  rw [fail]
  split_ifs
  · exact h
  · exact h

/-- **What `_pump` leaves.** If it has come to its end, there is no complete frame in `_raw_buf`. -/
theorem pump_spec {ws : WsSocket} (h : ws.Calm) :
    ws.pump.1.Calm ∧ (ws.pump.2 = none → ws.pump.1.Clear) := by
  have hfail : ∀ {ws : WsSocket} (code : UInt16), ws.Clear →
      (ws.fail code).1.Calm ∧ ((ws.fail code).2 = none → (ws.fail code).1.Clear) :=
    fun code hclear => ⟨(clear_fail hclear code).calm, fun _ => clear_fail hclear code⟩
  fun_induction pump ws with
  | case1 ws heof => exact ⟨h, fun _ => h.2 heof⟩
  | case2 ws heof code hparse =>
    refine hfail code ?_
    rintro ⟨frame, hframe⟩
    rw [hparse] at hframe
    cases hframe
  | case3 ws heof hparse =>
    have hclear : ws.Clear := by
      rintro ⟨frame, hframe⟩
      rw [hparse] at hframe
      cases hframe
    exact ⟨h, fun _ => hclear⟩
  | case4 ws heof opcode payload consumed hparse rest hdata ih =>
    have hgoes : GoesOn opcode := by
      rcases hdata with hbin | hcont
      · exact .inl hbin
      · exact .inr (.inl hcont)
    have hrest := h.1
    rw [hides_of_frame hparse, if_pos hgoes] at hrest
    exact ih ⟨hrest, fun hdone => absurd hdone heof⟩
  | case5 ws heof payload consumed rest hparse hdata =>
    have hrest := h.1
    rw [hides_of_frame hparse, if_pos (by decide)] at hrest
    exact ⟨⟨hrest, fun hdone => absurd hdone heof⟩, nofun⟩
  | case6 ws heof payload consumed rest hparse hdata hping ih =>
    have hrest := h.1
    rw [hides_of_frame hparse, if_pos (by decide)] at hrest
    exact ih ⟨hrest, fun hdone => absurd hdone heof⟩
  | case7 ws heof payload consumed rest hparse hdata hping hpong =>
    have hrest := h.1
    rw [hides_of_frame hparse, if_neg (by decide)] at hrest
    exact hfail 1003 hrest
  | case8 ws heof payload consumed rest hparse hdata hping hpong htext =>
    have hrest := h.1
    rw [hides_of_frame hparse, if_neg (by decide)] at hrest
    exact hfail _ hrest
  | case9 ws heof opcode payload consumed hparse rest hdata hping hpong htext hclose =>
    have hstops : ¬ GoesOn opcode := by
      rintro (hbin | hcont | hping' | hpong')
      · exact hdata (.inl hbin)
      · exact hdata (.inr hcont)
      · exact hping hping'
      · exact hpong hpong'
    have hrest := h.1
    rw [hides_of_frame hparse, if_neg hstops] at hrest
    exact hfail 1002 hrest

end WsSocket

/-! ### The sniff -/

/-- What the framing layer is given: a TCP or TLS socket, a `_PrependSocket` or a `WSSocket`. -/
inductive Sock where
  | plain
  | prepended (pre : Bytes)
  | adapter (ws : WsSocket)
deriving DecidableEq

/-- What `_recv_until` comes to: the request and what came behind it in the same reads, or what it
raises. -/
inductive Received where
  | found (request leftover : Bytes) (rest : Source)
  | badRequest
  | osError

/-- `_recv_until(raw, b"\r\n\r\n", buf)` -/
def recvUntil (buf : Bytes) (src : Source) : Received :=
  match Ws.headerEnd buf with
  | some n => .found (buf.take n) (buf.drop n) src
  | none =>
    if maxRequestBytes < buf.length then .badRequest
    else
      match _h : src.read 4096 with
      | (.error _, _) => .osError
      | (.ok [], _) => .badRequest
      | (.ok (b :: bs), src') => recvUntil (buf ++ b :: bs) src'
termination_by src.weight
decreasing_by
  have hweight := (Source.read_ok _h).2.1
  rw [List.length_cons] at hweight
  omega

/-- What `sniff_and_wrap` returns, and what it has written. -/
structure SniffResult where
  result : Option (Sock × Source)
  written : Bytes

/-- `sniff_and_wrap`. `sent` is whether the response goes out. -/
def sniffAndWrap (sha1 : Bytes → Bytes) (sent : Bool) (src : Source) : SniffResult :=
  match src.read 1 with
  | (.error _, _) => ⟨none, []⟩
  | (.ok [], _) => ⟨none, []⟩
  | (.ok (first :: _), src) =>
    if first = 0x00 then ⟨some (.prepended [first], src), []⟩ -- raw aiomsg; give the byte back
    else if first ≠ 71 then ⟨none, []⟩ -- not a `G`
    else
      match recvUntil [first] src with
      | .osError => ⟨none, []⟩
      | .badRequest => ⟨none, Upgrade.errorResponse .badRequest⟩
      | .found request leftover rest =>
        match parseUpgrade request with
        | .error status => ⟨none, Upgrade.errorResponse status⟩
        | .ok key =>
          if sent then ⟨some (.adapter (.new leftover), rest), Upgrade.successResponse sha1 key⟩
          else ⟨none, []⟩

/-- **The upgrade loses no byte**: what is not of the request is left over or still to come. -/
theorem recvUntil_found {buf request leftover : Bytes} {src rest : Source}
    (h : recvUntil buf src = .found request leftover rest) :
    Ws.headerEnd (buf ++ src.stream) = some request.length ∧
      buf ++ src.stream = request ++ leftover ++ rest.stream := by
  fun_induction recvUntil buf src with
  | case1 buf src n hend =>
    cases h
    have hlength : (buf.take n).length = n := List.length_take_of_le (Split.findEnd_le hend)
    rw [hlength, List.take_append_drop]
    exact ⟨Ws.headerEnd_append hend _, rfl⟩
  | case2 => cases h
  | case3 => cases h
  | case4 => cases h
  | case5 buf src hend hlimit b bs src' hread ih =>
    obtain ⟨hstream, -, -⟩ := Source.read_ok hread
    obtain ⟨hfound, hsplit⟩ := ih h
    rw [hstream, ← List.append_assoc]
    exact ⟨hfound, hsplit⟩

/-- The adapter starts with what came behind the request in the same reads. -/
theorem sniffAndWrap_ws {sha1 : Bytes → Bytes} {sent : Bool} {src rest : Source} {ws : WsSocket}
    (h : (sniffAndWrap sha1 sent src).result = some (.adapter ws, rest)) :
    ws = .new ws.rawBuf ∧ ∃ request, Ws.headerEnd src.stream = some request.length ∧
      src.stream = request ++ ws.rawBuf ++ rest.stream := by
  rw [sniffAndWrap] at h
  match hread : src.read 1 with
  | (.error _, _) => simp [hread] at h
  | (.ok [], _) => simp [hread] at h
  | (.ok (first :: more), src₁) =>
    obtain ⟨hstream, -, -⟩ := Source.read_ok hread
    have hmore : more = [] := by
      have hlength := Source.length_read_le hread
      rw [List.length_cons] at hlength
      exact List.length_eq_zero_iff.mp (by omega)
    subst hmore
    rw [hread] at h
    dsimp only at h
    split at h
    · cases h
    · split at h
      · cases h
      · match hreceived : recvUntil [first] src₁ with
        | .osError => simp [hreceived] at h
        | .badRequest => simp [hreceived] at h
        | .found request leftover rest' =>
          rw [hreceived] at h
          dsimp only at h
          match hparse : parseUpgrade request with
          | .error status => simp [hparse] at h
          | .ok key =>
            rw [hparse] at h
            dsimp only at h
            split at h
            · cases h
              rw [hstream]
              exact ⟨rfl, request, recvUntil_found hreceived⟩
            · cases h

end BlockingWs

end Python

end Aiomsg
