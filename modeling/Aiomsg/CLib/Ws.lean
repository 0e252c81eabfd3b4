import Aiomsg.CLib.Protocol
import Aiomsg.Ws.Front
import Aiomsg.Ws.Stream

/-!
# The C WebSocket adapter

The frame layer of `c-lib/src/ws.c`, and what a connection thread of `c-lib/src/aiomsg.c` does with
it. `aiomsg_ws_feed` is handed bytes as they arrive. It walks over them with an offset, unmasks each
complete frame where it lies, pushes its payload into the decoder, and only at the end moves what is
left to the front of the array. It signals the end by returning `-1`, and is not called again.

A turn of its loop either breaks, returns `-1`, or goes on behind a frame; `feedOne` is one turn.
Lengths are 64-bit and a length with the top bit set is turned down before it is used, so no sum of
offsets overflows. Allocation succeeds.

## Scope

Only the server's side of the adapter is here, since the C library never connects by WebSocket. The
encoder is shared with what the writer thread puts on the wire, and is the same for every opcode.
The parser is not called again after it has returned `-1`, and what it would do then is not asked.

## Main results

* `Ws.turned_feedOne` — the third parser takes every decision of the first
* `WsConn.session_eq` — what is pushed and what is written, over all calls up to the first `-1`
-/

namespace Aiomsg

namespace CLib

open Aiomsg.Ws (opCont opText opBin opClose opPing opPong xorMask verdict verdict_of_parse dispose
  clientHead parseClientFrame parseClientFrame_of_known clientFrames Item carriedIn answerTo
  codeOf codeOf_eq frontHead frontHead_eq carriedIn_item answerTo_item carriedIn_stop answerTo_stop
  carriedIn_more answerTo_more)

/-- `aiomsg_ws_encode`. -/
def wsEncode (opcode : UInt8) (payload : Bytes) : Bytes :=
  let len := payload.length
  let header :=
    if 65536 ≤ len then 127 :: (List.range 8).map fun i => UInt8.ofNat (len >>> (56 - 8 * i))
    else if 126 ≤ len then [126, UInt8.ofNat (len >>> 8), UInt8.ofNat len]
    else [UInt8.ofNat len]
  (0x80 ||| opcode) :: header ++ payload

/-- `aiomsg_ws`: the bytes not yet parsed and the frames not yet written. -/
structure Ws where
  input : Bytes
  out : Bytes
  closeSent : Bool

/-- What one turn of the loop in `aiomsg_ws_feed` does: `break`, `return -1`, or go on at `off`. -/
inductive Turn where
  | more
  | fail (w : Ws) (dec : Decoder)
  | next (w : Ws) (off : ℕ) (dec : Decoder)

/-- `for (i = 0; i < plen; i++) masked[i] ^= mask[i & 3]`, on the array. -/
def unmask (buf : Bytes) (start plen : ℕ) (mask : Bytes) : Bytes :=
  buf.take start ++ (xorMask mask ((buf.drop start).take plen) ++ buf.drop (start + plen))

namespace Ws

/-- `aiomsg_ws_init`. -/
def init : Ws where
  input := []
  out := []
  closeSent := false

def queueFrame (w : Ws) (opcode : UInt8) (payload : Bytes) : Ws :=
  { w with out := w.out ++ wsEncode opcode payload }

/-- Queue a close frame with `code`, once. -/
def queueClose (w : Ws) (code : UInt16) : Ws :=
  if w.closeSent then w
  else
    { w with closeSent := true }.queueFrame opClose
      [UInt8.ofNat (code.toNat >>> 8), UInt8.ofNat code.toNat]

/-- The branches on the opcode, on a frame unmasked in the array and ending at `off`. -/
def dispatch (w : Ws) (off : ℕ) (dec : Decoder) (opcode : UInt8) (masked : Bytes) : Turn :=
  if opcode = opBin ∨ opcode = opCont then .next w off (dec.push masked)
  else if opcode = opPing then .next (w.queueFrame opPong masked) off dec
  else if opcode = opPong then .next w off dec
  else if opcode = opText then .fail (w.queueClose 1003) dec -- text is not valid for aiomsg
  else if opcode = opClose then
    let code := if 2 ≤ masked.length
      then UInt16.ofNat ((masked.getD 0 0).toNat <<< 8 ||| (masked.getD 1 0).toNat) else 1000
    -- Drop consumed bytes for tidiness, then signal close.
    .fail { w.queueClose code with input := w.input.drop off } dec
  else .fail (w.queueClose 1002) dec -- unknown opcode

/-- A turn of the loop from where `plen` and `hdr` are known. -/
def feedRest (w : Ws) (off : ℕ) (dec : Decoder) (opcode : UInt8) (fin : Bool) (plen hdr : ℕ) :
    Turn :=
  if 0x8 ≤ opcode ∧ (fin = false ∨ 125 < plen) then
    .fail (w.queueClose 1002) dec -- control frames: FIN=1, <=125 bytes
  else if w.input.length - off < hdr + 4 + plen then .more -- need mask (4) + payload
  else
    let mask := (w.input.drop (off + hdr)).take 4
    let start := off + hdr + 4
    let w := { w with input := unmask w.input start plen mask }
    w.dispatch (off + (hdr + 4 + plen)) dec opcode ((w.input.drop start).take plen)

/-- One turn of the loop in `aiomsg_ws_feed`, with `p = w->in + off`. -/
def feedOne (w : Ws) (off : ℕ) (dec : Decoder) : Turn :=
  if w.input.length - off < 2 then .more
  else
    let p := w.input.drop off
    let b0 := p.getD 0 0
    let b1 := p.getD 1 0
    if b0 &&& 0x70 ≠ 0 then .fail (w.queueClose 1002) dec -- RSV bits set
    else
      let opcode := b0 &&& 0x0f
      let fin := decide (b0 &&& 0x80 ≠ 0)
      if b1 &&& 0x80 = 0 then .fail (w.queueClose 1002) dec -- client frames MUST be masked
      else
        let plen := (b1 &&& 0x7f).toNat
        if plen = 126 then
          if w.input.length - off < 4 then .more
          else w.feedRest off dec opcode fin ((p.getD 2 0).toNat <<< 8 ||| (p.getD 3 0).toNat) 4
        else if plen = 127 then
          if w.input.length - off < 10 then .more
          else if p.getD 2 0 &&& 0x80 ≠ 0 then
            .fail (w.queueClose 1002) dec -- 64-bit length MSB must be 0
          else
            w.feedRest off dec opcode fin
              (((p.drop 2).take 8).foldl (fun plen b => plen <<< 8 ||| b.toNat) 0) 10
        else w.feedRest off dec opcode fin plen 2

/-! ### What is written -/

theorem wsEncode_eq (opcode : UInt8) (payload : Bytes) :
    wsEncode opcode payload = Aiomsg.Ws.serverFrame opcode payload := by
  rw [wsEncode, Aiomsg.Ws.serverFrame]
  have hlong : (List.range 8).map (fun i => UInt8.ofNat (payload.length >>> (56 - 8 * i)))
      = BigEndian.encode 8 payload.length := by
    simp [BigEndian.encode, List.range_succ, Nat.shiftRight_eq_div_pow]
  have hshort : [UInt8.ofNat (payload.length >>> 8), UInt8.ofNat payload.length]
      = BigEndian.encode 2 payload.length := by
    simp [BigEndian.encode, Nat.shiftRight_eq_div_pow]
  rw [hlong, hshort]
  split_ifs
  all_goals first | rfl | omega

theorem closeBody_eq (code : UInt16) :
    [UInt8.ofNat (code.toNat >>> 8), UInt8.ofNat code.toNat] = Aiomsg.Ws.toBeBytes code := by
  simp [Aiomsg.Ws.toBeBytes, BigEndian.encode, Nat.shiftRight_eq_div_pow]

/-! ### Unmasking in place -/

section Unmask

variable {buf : Bytes} {start plen : ℕ} (mask : Bytes) (h : start + plen ≤ buf.length)
include h

theorem unmask_frame :
    ((unmask buf start plen mask).drop start).take plen
      = xorMask mask ((buf.drop start).take plen) := by
  have hstart : (buf.take start).length = start := by rw [List.length_take]; omega
  have hplen : (xorMask mask ((buf.drop start).take plen)).length = plen := by
    rw [Aiomsg.Ws.length_xorMask, List.length_take, List.length_drop]
    omega
  rw [unmask, List.drop_left' hstart, List.take_left' hplen]

theorem unmask_rest :
    (unmask buf start plen mask).drop (start + plen) = buf.drop (start + plen) := by
  have hstart : (buf.take start).length = start := by rw [List.length_take]; omega
  have hplen : (xorMask mask ((buf.drop start).take plen)).length = plen := by
    rw [Aiomsg.Ws.length_xorMask, List.length_take, List.length_drop]
    omega
  rw [unmask, ← List.drop_drop, List.drop_left' hstart, List.drop_left' hplen]

end Unmask

/-! ### The third parser -/

/-- What a turn does, by what the array holds behind `off`. -/
inductive Turned (w : Ws) (off : ℕ) (dec : Decoder) : Turn → Prop
  | more (h : verdict (w.input.drop off) = .more) : Turned w off dec .more
  | data {p input : Bytes} {off' : ℕ}
      (h : verdict (w.input.drop off) = .item (.data p) (input.drop off')) :
      Turned w off dec (.next { w with input := input } off' (dec.push p))
  | ping {p input : Bytes} {off' : ℕ}
      (h : verdict (w.input.drop off) = .item (.ping p) (input.drop off')) :
      Turned w off dec (.next ({ w with input := input }.queueFrame opPong p) off' dec)
  | pong {input : Bytes} {off' : ℕ}
      (h : verdict (w.input.drop off) = .item .pong (input.drop off')) :
      Turned w off dec (.next { w with input := input } off' dec)
  | fail {code : UInt16} {input : Bytes} (h : verdict (w.input.drop off) = .stop code) :
      Turned w off dec (.fail { w.queueClose code with input := input } dec)

theorem queueClose_input (w : Ws) (input : Bytes) (code : UInt16) :
    ({ w with input := input } : Ws).queueClose code
      = { w.queueClose code with input := input } := by
  rw [queueClose, queueClose]
  split_ifs <;> rfl

theorem turned_dispatch {w : Ws} {off off' : ℕ} {input masked : Bytes} {opcode : UInt8}
    (dec : Decoder)
    (h : verdict (w.input.drop off) = (dispose opcode masked).verdict (input.drop off')) :
    Turned w off dec ({ w with input := input }.dispatch off' dec opcode masked) := by
  have hcode := codeOf_eq masked
  rw [codeOf] at hcode
  simp only [dispatch, hcode, queueClose_input]
  rw [dispose] at h
  split_ifs at h ⊢
  · exact .data h
  · exact .ping h
  · exact .pong h
  · exact .fail h
  · exact .fail h
  · exact .fail h

/-- A turn once the header is there. -/
theorem turned_feedRest {w : Ws} {off : ℕ} (dec : Decoder) {opcode : UInt8} {fin : Bool}
    {plen hdr : ℕ} (h : clientHead (w.input.drop off) = .known opcode fin plen hdr) :
    Turned w off dec (w.feedRest off dec opcode fin plen hdr) := by
  have hlen := List.length_drop (i := off) (l := w.input)
  have hparse := parseClientFrame_of_known h
  rw [feedRest]
  by_cases hcontrol : 0x8 ≤ opcode ∧ (fin = false ∨ 125 < plen)
  · rw [if_pos hcontrol]
    rw [if_pos hcontrol] at hparse
    exact .fail (verdict_of_parse hparse)
  rw [if_neg hcontrol]
  rw [if_neg hcontrol] at hparse
  by_cases hshort : w.input.length - off < hdr + 4 + plen
  · rw [if_pos hshort]
    rw [if_pos (hlen ▸ hshort)] at hparse
    exact .more (verdict_of_parse hparse)
  · rw [if_neg hshort]
    rw [if_neg (hlen ▸ hshort), List.drop_drop, List.drop_drop, ← Nat.add_assoc off hdr 4]
      at hparse
    have hfit : off + hdr + 4 + plen ≤ w.input.length := by omega
    have hend : off + (hdr + 4 + plen) = off + hdr + 4 + plen := by omega
    refine turned_dispatch dec ?_
    rw [unmask_frame _ hfit, verdict_of_parse hparse, List.drop_drop, hend, unmask_rest _ hfit]

/-- A turn up to where the header is there. -/
theorem feedOne_head (w : Ws) (off : ℕ) (dec : Decoder) :
    w.feedOne off dec = match clientHead (w.input.drop off) with
      | .needMore => .more
      | .protocol code => .fail (w.queueClose code) dec
      | .known opcode fin len offset => w.feedRest off dec opcode fin len offset := by
  have hlen := List.length_drop (i := off) (l := w.input)
  rw [feedOne, ← frontHead_eq, frontHead, ← hlen]
  generalize w.input.drop off = p
  dsimp only
  split_ifs <;> rfl

/-- **The third parser takes every decision of the first.** -/
theorem turned_feedOne (w : Ws) (off : ℕ) (dec : Decoder) :
    Turned w off dec (w.feedOne off dec) := by
  rw [feedOne_head]
  cases hhead : clientHead (w.input.drop off) with
  | needMore =>
    have hparse : parseClientFrame (w.input.drop off) = (.needMore, 0) := by
      rw [parseClientFrame, hhead]
    exact .more (verdict_of_parse hparse)
  | protocol code =>
    have hparse : parseClientFrame (w.input.drop off) = (.protocol code, 0) := by
      rw [parseClientFrame, hhead]
    exact .fail (verdict_of_parse hparse)
  | known opcode fin plen hdr => exact turned_feedRest dec hhead

theorem length_feedOne {w w' : Ws} {off off' : ℕ} {dec dec' : Decoder}
    (h : w.feedOne off dec = .next w' off' dec') :
    (w'.input.drop off').length < (w.input.drop off).length := by
  have hturned := turned_feedOne w off dec
  rw [h] at hturned
  cases hturned with
  | data hverdict => exact clientFrames.shrinks hverdict
  | ping hverdict => exact clientFrames.shrinks hverdict
  | pong hverdict => exact clientFrames.shrinks hverdict

/-- The loop of `aiomsg_ws_feed`, from `off` on, and the `memmove` behind it. -/
def feedLoop (w : Ws) (off : ℕ) (dec : Decoder) : ℤ × Ws × Decoder :=
  match _h : w.feedOne off dec with
  | .more => (0, { w with input := w.input.drop off }, dec)
  | .fail w' dec' => (-1, w', dec')
  | .next w' off' dec' => feedLoop w' off' dec'
termination_by (w.input.drop off).length
decreasing_by exact length_feedOne _h

/-- `aiomsg_ws_feed`. -/
def feed (w : Ws) (data : Bytes) (dec : Decoder) : ℤ × Ws × Decoder :=
  { w with input := w.input ++ data }.feedLoop 0 dec

/-- What has been pushed into the decoder and queued for the client between two points. -/
structure Grown (out : Bytes) (dec : Decoder) (w' : Ws) (dec' : Decoder) (pushed queued : Bytes) :
    Prop where
  valid : dec'.Valid
  content : dec'.content = dec.content ++ pushed
  out : w'.out = out ++ queued

/-- What a call does on the bytes in `buf`. If it returns 0 it has pushed and queued the first part
of what there is to push and queue, whatever arrives later, and keeps the bytes for the rest; if it
returns `-1` it has pushed and queued all of it. -/
inductive Fed (out buf : Bytes) (dec : Decoder) : ℤ × Ws × Decoder → Prop
  | more {w' : Ws} {dec' : Decoder} (pushed queued : Bytes)
      (hgrown : Grown out dec w' dec' pushed queued) (hopen : w'.closeSent = false)
      (hmore : verdict w'.input = .more)
      (hcarried : ∀ more, carriedIn (buf ++ more) = pushed ++ carriedIn (w'.input ++ more))
      (hanswer : ∀ more, answerTo (buf ++ more) = queued ++ answerTo (w'.input ++ more)) :
      Fed out buf dec (0, w', dec')
  | stop {w' : Ws} {dec' : Decoder} (pushed queued : Bytes)
      (hgrown : Grown out dec w' dec' pushed queued)
      (hcarried : ∀ more, carriedIn (buf ++ more) = pushed)
      (hanswer : ∀ more, answerTo (buf ++ more) = queued) : Fed out buf dec (-1, w', dec')

/-- One frame in front. -/
theorem Fed.cons {out buf rest : Bytes} {w₁ : Ws} {dec dec₁ : Decoder} {r : ℤ × Ws × Decoder}
    {b : Item} (h : Fed w₁.out rest dec₁ r) (hitem : verdict buf = .item b rest)
    (hgrown : Grown out dec w₁ dec₁ b.carried b.answer) : Fed out buf dec r := by
  have hcons : ∀ {w' : Ws} {dec' : Decoder} {pushed queued : Bytes},
      Grown w₁.out dec₁ w' dec' pushed queued →
      Grown out dec w' dec' (b.carried ++ pushed) (b.answer ++ queued) := by
    intro w' dec' pushed queued h
    refine ⟨h.valid, ?_, ?_⟩
    · rw [h.content, hgrown.content, List.append_assoc]
    · rw [h.out, hgrown.out, List.append_assoc]
  cases h with
  | more pushed queued hgrown' hopen hmore hcarried hanswer =>
    refine .more _ _ (hcons hgrown') hopen hmore (fun more => ?_) fun more => ?_
    · rw [carriedIn_item hitem, hcarried, List.append_assoc]
    · rw [answerTo_item hitem, hanswer, List.append_assoc]
  | stop pushed queued hgrown' hcarried hanswer =>
    refine .stop _ _ (hcons hgrown') (fun more => ?_) fun more => ?_
    · rw [carriedIn_item hitem, hcarried]
    · rw [answerTo_item hitem, hanswer]

/-- **What the loop does.** -/
theorem fed_feedLoop {w : Ws} {off : ℕ} {dec : Decoder} (hopen : w.closeSent = false)
    (hvalid : dec.Valid) : Fed w.out (w.input.drop off) dec (w.feedLoop off dec) := by
  fun_induction feedLoop w off dec with
  | case1 w off dec hturn =>
    have hturned := turned_feedOne w off dec
    rw [hturn] at hturned
    cases hturned with
    | more h =>
      exact .more [] [] ⟨hvalid, (List.append_nil _).symm, (List.append_nil _).symm⟩ hopen h
        (fun _ => rfl) fun _ => rfl
  | case2 w off dec w' dec' hturn =>
    have hturned := turned_feedOne w off dec
    rw [hturn] at hturned
    cases hturned with
    | fail h =>
      refine .stop [] _ ⟨hvalid, (List.append_nil _).symm, ?_⟩ (carriedIn_stop h) (answerTo_stop h)
      simp only [queueClose, hopen, Bool.false_eq_true, if_false, queueFrame, wsEncode_eq,
        closeBody_eq]
  | case3 w off dec w' off' dec' hturn ih =>
    have hturned := turned_feedOne w off dec
    rw [hturn] at hturned
    cases hturned with
    | @data p input off' h =>
      exact (ih hopen (hvalid.push p)).cons h
        ⟨hvalid.push p, Decoder.content_push hvalid p, (List.append_nil _).symm⟩
    | @ping p input off' h =>
      refine (ih hopen hvalid).cons h ⟨hvalid, (List.append_nil _).symm, ?_⟩
      exact congrArg (w.out ++ ·) (wsEncode_eq opPong p)
    | pong h =>
      exact (ih hopen hvalid).cons h
        ⟨hvalid, (List.append_nil _).symm, (List.append_nil _).symm⟩

/-- **What one call of `aiomsg_ws_feed` does.** -/
theorem fed_feed {w : Ws} {dec : Decoder} (hopen : w.closeSent = false) (hvalid : dec.Valid)
    (data : Bytes) : Fed w.out (w.input ++ data) dec (w.feed data dec) := by
  have hfed : Fed w.out ((w.input ++ data).drop 0) dec (w.feed data dec) :=
    fed_feedLoop (w := { w with input := w.input ++ data }) hopen hvalid
  rwa [List.drop_zero] at hfed

end Ws

/-! ### The connection thread -/

/-- What a connection thread holds: the adapter, the decoder, and what it has written to the peer
since the upgrade. -/
structure WsConn where
  ws : Ws
  dec : Decoder
  wire : Bytes

namespace WsConn

/-- Flush any pending control-frame bytes to the peer: `ws_flush_out`. -/
def wsFlushOut (c : WsConn) : WsConn :=
  { c with ws := { c.ws with out := [] }, wire := c.wire ++ c.ws.out }

/-- The end of the upgrade: bytes read past the request are the first frames. -/
def upgrade (leftover : Bytes) : ℤ × WsConn :=
  if leftover = [] then (1, ⟨.init, .init, []⟩)
  else
    let (fr, ws, dec) := Ws.init.feed leftover .init
    if fr ≠ 0 then (-1, ⟨ws, dec, []⟩) else (1, (⟨ws, dec, []⟩ : WsConn).wsFlushOut)

/-- `conn_read`, on the bytes it has read. -/
def connRead (c : WsConn) (data : Bytes) : ℤ × WsConn :=
  let (fr, ws, dec) := c.ws.feed data c.dec
  (if fr = 0 then data.length else -1, { c with ws := ws, dec := dec }.wsFlushOut)

/-- The thread takes `pops` envelopes off the decoder, as far as there are any. -/
def take (c : WsConn) (pops : ℕ) : WsConn := { c with dec := (fun d => d.pop.2)^[pops] c.dec }

/-- Read one run of bytes after the other, with some envelopes taken after each, until a read
returns `-1`. The bytes pushed into the decoder on the way, and the connection afterwards. -/
def run (c : WsConn) : List (Bytes × ℕ) → Bytes × WsConn
  | [] => ([], c)
  | (data, pops) :: reads =>
    let r := c.connRead data
    let pushed := r.2.dec.content.drop c.dec.content.length
    if r.1 < 0 then (pushed, r.2)
    else (pushed ++ ((r.2.take pops).run reads).1, ((r.2.take pops).run reads).2)

/-- The whole of a connection behind the request. -/
def session (leftover : Bytes) (pops : ℕ) (reads : List (Bytes × ℕ)) : Bytes × WsConn :=
  let r := upgrade leftover
  if r.1 < 0 then (r.2.dec.content, r.2)
  else (r.2.dec.content ++ ((r.2.take pops).run reads).1, ((r.2.take pops).run reads).2)

/-- All that has been told to the peer, written or queued. -/
def told (c : WsConn) : Bytes := c.wire ++ c.ws.out

/-- A connection between two reads. -/
structure Open (c : WsConn) : Prop where
  closeSent : c.ws.closeSent = false
  out : c.ws.out = []
  valid : c.dec.Valid
  more : Aiomsg.Ws.verdict c.ws.input = .more

theorem Open.take {c : WsConn} (h : c.Open) (pops : ℕ) : (c.take pops).Open := by
  have hstep : ∀ d : Decoder, d.Valid → d.pop.2.Valid := by
    intro d hd
    rcases Decoder.pop_cases hd with ⟨hnone, -⟩ | ⟨env, rest, hparse, hsome⟩
    · rw [hnone]
      exact hd
    · rw [hsome]
      exact (Decoder.pop_of_item hd hparse).2.2.1
  exact ⟨h.closeSent, h.out, Function.Iterate.rec Decoder.Valid h.valid hstep pops, h.more⟩

/-- **What the reads come to.** From a connection between two reads, all that is pushed and all that
the peer is told, however the bytes are cut and whatever is taken off the decoder in between. -/
theorem Open.run_eq {c : WsConn} (h : c.Open) (reads : List (Bytes × ℕ)) :
    (c.run reads).1 = carriedIn (c.ws.input ++ (reads.map Prod.fst).flatten) ∧
      (c.run reads).2.told
        = c.wire ++ answerTo (c.ws.input ++ (reads.map Prod.fst).flatten) := by
  induction reads generalizing c with
  | nil =>
    rw [List.map_nil, List.flatten_nil, List.append_nil, carriedIn_more h.more,
      answerTo_more h.more]
    exact ⟨rfl, congrArg (c.wire ++ ·) h.out⟩
  | cons read reads ih =>
    obtain ⟨data, pops⟩ := read
    have hfed := Ws.fed_feed h.closeSent h.valid data
    rw [run, connRead, List.map_cons, List.flatten_cons, ← List.append_assoc]
    generalize c.ws.feed data c.dec = r at hfed
    cases hfed with
    | @more w' dec' pushed queued hgrown hopen hmore hcarried hanswer =>
      have hnext : WsConn.Open ⟨{ w' with out := [] }, dec', c.wire ++ w'.out⟩ :=
        ⟨hopen, rfl, hgrown.valid, hmore⟩
      obtain ⟨hpushed, htold⟩ := ih (hnext.take pops)
      have hgo : ¬ ((data.length : ℤ) < 0) := by omega
      simp only [if_true, if_neg hgo, wsFlushOut]
      rw [hcarried, hanswer, hgrown.content, List.drop_left]
      refine ⟨congrArg (pushed ++ ·) hpushed, htold.trans ?_⟩
      show (c.wire ++ w'.out) ++ _ = _
      rw [hgrown.out, h.out, List.nil_append, List.append_assoc]
      rfl
    | @stop w' dec' pushed queued hgrown hcarried hanswer =>
      have hend : ¬ ((-1 : ℤ) = 0) := by decide
      simp only [if_neg hend, wsFlushOut]
      rw [hcarried, hanswer, hgrown.content, List.drop_left, if_pos (by decide)]
      refine ⟨rfl, ?_⟩
      show (c.wire ++ w'.out) ++ [] = _
      rw [List.append_nil, hgrown.out, h.out, List.nil_append]

/-- **The whole of a connection.** -/
theorem session_eq (leftover : Bytes) (pops : ℕ) (reads : List (Bytes × ℕ)) :
    (session leftover pops reads).1 = carriedIn (leftover ++ (reads.map Prod.fst).flatten) ∧
      (session leftover pops reads).2.told
        = answerTo (leftover ++ (reads.map Prod.fst).flatten) := by
  have hempty : verdict [] = .more := rfl
  rw [session, upgrade]
  by_cases hleft : leftover = []
  · subst hleft
    have hopen : WsConn.Open ⟨.init, .init, []⟩ := ⟨rfl, rfl, Decoder.valid_init, hempty⟩
    exact (hopen.take pops).run_eq reads
  · have hfed := Ws.fed_feed (w := .init) rfl Decoder.valid_init leftover
    rw [if_neg hleft]
    generalize Ws.init.feed leftover .init = r at hfed
    cases hfed with
    | @more w' dec' pushed queued hgrown hopen hmore hcarried hanswer =>
      have hnext : WsConn.Open ⟨{ w' with out := [] }, dec', [] ++ w'.out⟩ :=
        ⟨hopen, rfl, hgrown.valid, hmore⟩
      obtain ⟨hpushed, htold⟩ := (hnext.take pops).run_eq reads
      refine ⟨?_, ?_⟩
      · refine Eq.trans ?_ (hcarried _).symm
        exact congrArg₂ (· ++ ·) hgrown.content hpushed
      · refine htold.trans (Eq.trans ?_ (hanswer _).symm)
        show ([] ++ w'.out) ++ _ = _
        rw [hgrown.out]
        rfl
    | @stop w' dec' pushed queued hgrown hcarried hanswer =>
      refine ⟨hgrown.content.trans (hcarried _).symm, hgrown.out.trans (hanswer _).symm⟩

end WsConn

end CLib

end Aiomsg
