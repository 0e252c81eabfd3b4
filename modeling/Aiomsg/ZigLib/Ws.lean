import Aiomsg.CLib.Ws
import Aiomsg.Ws.Session
import Aiomsg.ZigLib.Protocol

/-!
# The Zig WebSocket adapter

`encode` and `feed` of `zig-lib/src/ws.zig`. A turn of the loop in `feed` breaks with `.open` or
`.close`, or goes on behind a frame; `feedOne` is one turn. A frame is unmasked where it lies, as in
the C adapter, and what is parsed is dropped at the end of every call. Allocation succeeds.

## Scope

Frames of any length are taken in, as `input` grows with them. What `feed` leaves in `out` is
written by its caller, in order. The masking key of a frame is read before the frame is unmasked
where it lies, so the buffer still holds it then.

## Main results

* `Ws.turned_feedOne` — a turn, in terms of the first parser
* `Ws.exists_fed_feed` — what a call pushes, and whether it ends the connection
-/

namespace Aiomsg

namespace ZigLib

open Aiomsg.Ws (opCont opText opBin opClose opPing opPong front unmasked codeOf codeOf_eq verdict
  dispose fronted_front clientFrames carriedIn carriedIn_item carriedIn_stop reason reason_item
  reason_stop Taken Item)
open CLib (unmask)

/-- The outcome of feeding inbound bytes. -/
inductive FeedResult where
  | open
  | close
deriving DecidableEq

/-- Per-connection WebSocket parser state. -/
structure Ws where
  /-- Partial inbound frames. -/
  input : Bytes
  /-- Control-frame bytes the caller must write to the peer after each feed. -/
  out : Bytes
  closeSent : Bool

/-- What a turn of the loop in `feed` does. -/
inductive Turn where
  | break (r : FeedResult) (w : Ws) (off : ℕ) (dec : Decoder)
  | next (w : Ws) (off : ℕ) (dec : Decoder)

namespace Ws

def init : Ws where
  input := []
  out := []
  closeSent := false

/-- Queue a server frame (payload <= 125, so a fixed 2-byte header) into `out`. -/
def queueControl (w : Ws) (opcode : UInt8) (payload : Bytes) : Ws :=
  { w with out := w.out ++ ([0x80 ||| opcode, UInt8.ofNat payload.length] ++ payload) }

/-- Queue a close frame with `code` (once). -/
def queueClose (w : Ws) (code : UInt16) : Ws :=
  if w.closeSent then w
  else
    { w with closeSent := true }.queueControl opClose
      [UInt8.ofNat (code.toNat >>> 8), UInt8.ofNat code.toNat]

/-- The `switch (opcode)`, on a frame unmasked in the buffer and ending at `off`. -/
def dispatch (w : Ws) (off : ℕ) (dec : Decoder) (opcode : UInt8) (masked : Bytes) : Turn :=
  if opcode = opBin ∨ opcode = opCont then .next w off (dec.push masked)
  else if opcode = opPing then .next (w.queueControl opPong masked) off dec
  else if opcode = opPong then .next w off dec
  else if opcode = opText then .break .close (w.queueClose 1003) off dec -- not valid for aiomsg
  else if opcode = opClose then .break .close (w.queueClose (codeOf masked)) off dec
  else .break .close (w.queueClose 1002) off dec -- unknown opcode

/-- One turn of the loop in `feed`, with `p = buf[off..]`. -/
def feedOne (w : Ws) (off : ℕ) (dec : Decoder) : Turn :=
  let p := w.input.drop off
  match front p with
  | .needMore => .break .open w off dec
  | .protocol code => .break .close (w.queueClose code) off dec
  | .known opcode _ plen hdr =>
    let start := off + hdr + 4
    let w := { w with input := unmask w.input start plen ((p.drop hdr).take 4) }
    w.dispatch (off + (hdr + 4 + plen)) dec opcode ((w.input.drop start).take plen)

/-- What a turn does, by what the buffer holds behind `off`. -/
inductive Turned (w : Ws) (off : ℕ) (dec : Decoder) : Turn → Prop
  | more (h : verdict (w.input.drop off) = .more) : Turned w off dec (.break .open w off dec)
  | close {code : UInt16} {w' : Ws} {off' : ℕ} (h : verdict (w.input.drop off) = .stop code) :
      Turned w off dec (.break .close w' off' dec)
  | next {b : Item} {w' : Ws} {off' : ℕ} {dec' : Decoder}
      (h : verdict (w.input.drop off) = .item b (w'.input.drop off'))
      (hvalid : dec.Valid → dec'.Valid)
      (hcontent : dec.Valid → dec'.content = dec.content ++ b.carried) :
      Turned w off dec (.next w' off' dec')

theorem turned_dispatch {w : Ws} {off off' : ℕ} {input masked : Bytes} {opcode : UInt8}
    (dec : Decoder)
    (h : verdict (w.input.drop off) = (dispose opcode masked).verdict (input.drop off')) :
    Turned w off dec ({ w with input := input }.dispatch off' dec opcode masked) := by
  rw [dispatch, codeOf_eq]
  rw [dispose] at h
  split_ifs at h ⊢
  · exact .next h (fun hvalid => hvalid.push masked) fun hvalid =>
      Decoder.content_push hvalid masked
  · exact .next h id fun _ => (List.append_nil _).symm
  · exact .next h id fun _ => (List.append_nil _).symm
  · exact .close h
  · exact .close h
  · exact .close h

/-- **A turn takes the decision of the first parser.** -/
theorem turned_feedOne (w : Ws) (off : ℕ) (dec : Decoder) :
    Turned w off dec (w.feedOne off dec) := by
  have hfronted := fronted_front (w.input.drop off)
  rw [feedOne]
  generalize front (w.input.drop off) = head at hfronted
  cases hfronted with
  | needMore h => exact .more h
  | protocol h => exact .close h
  | @known opcode fin len offset hfit h =>
    rw [List.length_drop] at hfit
    have hbuf : off + offset + 4 + len ≤ w.input.length := by omega
    refine turned_dispatch dec ?_
    have hend : off + (offset + 4 + len) = off + offset + 4 + len := by omega
    rw [CLib.Ws.unmask_frame _ hbuf, hend, CLib.Ws.unmask_rest _ hbuf, h, unmasked, List.drop_drop,
      List.drop_drop, List.drop_drop, ← Nat.add_assoc off offset 4, hend]

theorem length_feedOne {w w' : Ws} {off off' : ℕ} {dec dec' : Decoder}
    (h : w.feedOne off dec = .next w' off' dec') :
    (w'.input.drop off').length < (w.input.drop off).length := by
  have hturned := turned_feedOne w off dec
  rw [h] at hturned
  cases hturned with
  | next hverdict => exact clientFrames.shrinks hverdict

/-- The loop of `feed`, from `off` on, and the `copyForwards` behind it. -/
def feedLoop (w : Ws) (off : ℕ) (dec : Decoder) : FeedResult × Ws × Decoder :=
  match _h : w.feedOne off dec with
  | .break r w off dec => (r, { w with input := w.input.drop off }, dec)
  | .next w off dec => feedLoop w off dec
termination_by (w.input.drop off).length
decreasing_by exact length_feedOne _h

/-- Feed raw inbound bytes. -/
def feed (w : Ws) (data : Bytes) (dec : Decoder) : FeedResult × Ws × Decoder :=
  { w with input := w.input ++ data }.feedLoop 0 dec

/-- What a call does on the bytes in `buf`: what it pushes, and whether the connection goes on. -/
structure Fed (buf : Bytes) (dec : Decoder) (r : FeedResult × Ws × Decoder) (pushed : Bytes) :
    Prop where
  valid : r.2.2.Valid
  content : r.2.2.content = dec.content ++ pushed
  taken : Taken buf (decide (r.1 = .open)) pushed r.2.1.input

/-- One frame in front. -/
theorem Fed.cons {buf rest : Bytes} {b : Item} {dec dec₁ : Decoder}
    {r : FeedResult × Ws × Decoder} {pushed : Bytes} (h : Fed rest dec₁ r pushed)
    (hitem : verdict buf = .item b rest) (hcontent : dec₁.content = dec.content ++ b.carried) :
    Fed buf dec r (b.carried ++ pushed) := by
  refine ⟨h.valid, by rw [h.content, hcontent, List.append_assoc], ?_⟩
  have hsame := reason_item hitem []
  rw [List.append_nil, List.append_nil] at hsame
  have htaken := h.taken
  generalize decide (r.1 = .open) = on at htaken ⊢
  cases htaken with
  | goesOn hmore hcarried hreason =>
    refine .goesOn hmore (fun more => ?_) fun more => (reason_item hitem more).trans (hreason more)
    rw [carriedIn_item hitem, hcarried, List.append_assoc]
  | ends hcarried hreason =>
    refine .ends (fun more => ?_) (hsame ▸ hreason)
    rw [carriedIn_item hitem, hcarried]

/-- **What the loop does.** -/
theorem exists_fed_feedLoop (w : Ws) (off : ℕ) {dec : Decoder} (hvalid : dec.Valid) :
    ∃ pushed, Fed (w.input.drop off) dec (w.feedLoop off dec) pushed := by
  fun_induction feedLoop w off dec with
  | case1 w off dec r w' off' dec' hturn =>
    have hturned := turned_feedOne w off dec
    rw [hturn] at hturned
    cases hturned with
    | more h =>
      exact ⟨[], hvalid, (List.append_nil _).symm, .goesOn h (fun _ => rfl) fun _ => rfl⟩
    | close h =>
      have hend := reason_stop h []
      rw [List.append_nil] at hend
      exact ⟨[], hvalid, (List.append_nil _).symm, .ends (carriedIn_stop h) (by rw [hend]; rfl)⟩
  | case2 w off dec w' off' dec' hturn ih =>
    have hturned := turned_feedOne w off dec
    rw [hturn] at hturned
    cases hturned with
    | next h hkeeps hcontent =>
      obtain ⟨pushed, hfed⟩ := ih (hkeeps hvalid)
      exact ⟨_, hfed.cons h (hcontent hvalid)⟩

/-- **What one call of `feed` does.** -/
theorem exists_fed_feed (w : Ws) {dec : Decoder} (hvalid : dec.Valid) (data : Bytes) :
    ∃ pushed, Fed (w.input ++ data) dec (w.feed data dec) pushed := by
  have hfed := exists_fed_feedLoop { w with input := w.input ++ data } 0 hvalid
  rwa [List.drop_zero] at hfed

end Ws

end ZigLib

end Aiomsg
