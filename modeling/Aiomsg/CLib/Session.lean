import Aiomsg.CLib.Ws
import Aiomsg.Ws.Session

/-!
# The C session

`conn_read`, `read_hello`, `forward_frames` and the loop of `conn_session` in
`c-lib/src/aiomsg.c`, over a WebSocket. `conn_read` returns `-1` for a read with which the
connection ends, though `aiomsg_ws_feed` may have pushed envelopes by then, and `conn_session`
leaves its loop on `-1`.

## Scope

On plain TCP `conn_read` pushes what it has read and nothing ends with it, so that case has no
question in it and is left out. The broker is there for the whole of the session. Whether it lets
the session in is an input.

## Main results

* `WsConn.connSession_iff` — when a session hands on all that it should
-/

namespace Aiomsg

namespace CLib

open Aiomsg.Ws (verdict reason reason_item reason_stop reason_more Taken Port Popped ReadResult
  commandsIn EndsAlone poppedIn_heard_iff allPopped_two_pow)

namespace Ws

/-- A call returns `-1` if there is a reason for the connection to end, and keeps what decides
otherwise. -/
theorem reason_feedLoop (w : Ws) (off : ℕ) (dec : Decoder) :
    (w.feedLoop off dec).1 = 0 ∧ (∀ more, reason (w.input.drop off ++ more)
        = reason ((w.feedLoop off dec).2.1.input ++ more)) ∨
      (w.feedLoop off dec).1 = -1 ∧ (reason (w.input.drop off)).isSome := by
  have hnext : ∀ {buf rest : Bytes} {b : Aiomsg.Ws.Item} {r : ℤ × Ws × Decoder},
      verdict buf = .item b rest →
      r.1 = 0 ∧ (∀ more, reason (rest ++ more) = reason (r.2.1.input ++ more)) ∨
        r.1 = -1 ∧ (reason rest).isSome →
      r.1 = 0 ∧ (∀ more, reason (buf ++ more) = reason (r.2.1.input ++ more)) ∨
        r.1 = -1 ∧ (reason buf).isSome := by
    rintro buf rest b r hitem (⟨hr, hrest⟩ | ⟨hr, hend⟩)
    · exact .inl ⟨hr, fun more => (reason_item hitem more).trans (hrest more)⟩
    · have hsame := reason_item hitem []
      rw [List.append_nil, List.append_nil] at hsame
      exact .inr ⟨hr, hsame ▸ hend⟩
  fun_induction feedLoop w off dec with
  | case1 w off dec hturn => exact .inl ⟨rfl, fun _ => rfl⟩
  | case2 w off dec w' dec' hturn =>
    have hturned := turned_feedOne w off dec
    rw [hturn] at hturned
    cases hturned with
    | fail h =>
      have hend := reason_stop h []
      rw [List.append_nil] at hend
      exact .inr ⟨rfl, by rw [hend]; rfl⟩
  | case3 w off dec w' off' dec' hturn ih =>
    have hturned := turned_feedOne w off dec
    rw [hturn] at hturned
    cases hturned with
    | data h => exact hnext h ih
    | ping h => exact hnext h ih
    | pong h => exact hnext h ih

/-- What a call does, in the terms of a session. -/
theorem taken_feed {w : Ws} {dec : Decoder} (hopen : w.closeSent = false) (hvalid : dec.Valid)
    (data : Bytes) : ∃ pushed, (w.feed data dec).2.2.Valid ∧
      (w.feed data dec).2.2.content = dec.content ++ pushed ∧
      ((w.feed data dec).1 = 0 ∧ (w.feed data dec).2.1.closeSent = false ∧
          Taken (w.input ++ data) true pushed (w.feed data dec).2.1.input ∨
        (w.feed data dec).1 = -1 ∧
          Taken (w.input ++ data) false pushed (w.feed data dec).2.1.input) := by
  have hfed := fed_feed hopen hvalid data
  have hreason := reason_feedLoop { w with input := w.input ++ data } 0 dec
  rw [← feed, List.drop_zero] at hreason
  generalize w.feed data dec = r at hfed hreason
  cases hfed with
  | @more w' dec' pushed queued hgrown hopen hmore hcarried hanswer =>
    obtain ⟨-, hreason⟩ | ⟨habsurd, -⟩ := hreason
    · exact ⟨pushed, hgrown.valid, hgrown.content,
        .inl ⟨rfl, hopen, .goesOn hmore hcarried hreason⟩⟩
    · cases habsurd
  | @stop w' dec' pushed queued hgrown hcarried hanswer =>
    obtain ⟨habsurd, -⟩ | ⟨-, hreason⟩ := hreason
    · cases habsurd
    · exact ⟨pushed, hgrown.valid, hgrown.content, .inr ⟨rfl, .ends hcarried hreason⟩⟩

end Ws

namespace WsConn

/-- How `read_hello` and `conn_session` take what `conn_read` returns. -/
def readResult (r : ℤ) : ReadResult :=
  if r < 0 then .closed else if 0 < r then .data else .idle

/-- The parts of a C session. -/
def port : Port WsConn where
  upgrade leftover := if (upgrade leftover).1 < 0 then none else some (upgrade leftover).2
  -- `raw_read` returns 0 where it times out, and `conn_read` does then.
  connRead c data :=
    if data = [] then (.idle, c) else (readResult (c.connRead data).1, (c.connRead data).2)
  pop c :=
    match c.dec.pop with
    | (some env, dec) => .envelope (c.dec.view env) { c with dec := dec }
    | (none, _) => .none
  popAll c := (c.dec.popAll.1, some { c with dec := c.dec.popAll.2 })
  parseEnvelope := parseEnvelope

/-- `conn_session`, behind the upgrade. -/
def connSession : Bytes → Bool → List Bytes → Option (Identity × List (Envelope Bytes)) :=
  port.session

/-- A connection between two calls of `conn_read`. -/
structure Ready (c : WsConn) : Prop where
  closeSent : c.ws.closeSent = false
  out : c.ws.out = []
  valid : c.dec.Valid

theorem ready_upgrade {leftover : Bytes} {c : WsConn} (h : port.upgrade leftover = some c) :
    Ready c ∧ Taken leftover true c.dec.content c.ws.input := by
  have hup : ¬ (upgrade leftover).1 < 0 ∧ (upgrade leftover).2 = c := by
    rw [port] at h
    dsimp only at h
    split_ifs at h with hneg
    exact ⟨hneg, Option.some.inj h⟩
  rw [upgrade] at hup
  by_cases hleft : leftover = []
  · subst hleft
    obtain ⟨-, rfl⟩ := hup
    exact ⟨⟨rfl, rfl, Decoder.valid_init⟩, .goesOn rfl (fun _ => rfl) fun _ => rfl⟩
  · rw [if_neg hleft] at hup
    obtain ⟨pushed, hvalid, hcontent, hfeed⟩ :=
      Ws.taken_feed (w := .init) rfl Decoder.valid_init leftover
    generalize Ws.init.feed leftover .init = r at hup hvalid hcontent hfeed
    obtain ⟨fr, ws, dec⟩ := r
    obtain rfl : dec.content = pushed := hcontent
    rcases hfeed with ⟨rfl, hopen, htaken⟩ | ⟨rfl, -⟩
    · obtain ⟨-, rfl⟩ := hup
      exact ⟨⟨hopen, rfl, hvalid⟩, htaken⟩
    · exact absurd (by decide : (-1 : ℤ) < 0) hup.1

/-- **A C session does what a session must do.** Its decoder can cut off any envelope. -/
theorem lawful_port :
    port.Lawful (fun c => c.ws.input) (fun c => c.dec.content) Ready (2 ^ 32) where
  parse := funext parseEnvelope_eq_decode
  upgrade := ready_upgrade
  timeout := by
    intro c
    simp [port]
  read := by
    intro c data hready hmore hdata
    obtain ⟨pushed, hvalid, hcontent, hfeed⟩ := Ws.taken_feed hready.closeSent hready.valid data
    have hread : port.connRead c data
        = (readResult (c.connRead data).1, (c.connRead data).2) := if_neg hdata
    rw [connRead] at hread
    generalize c.ws.feed data c.dec = r at hread hvalid hcontent hfeed
    obtain ⟨fr, ws, dec⟩ := r
    refine ⟨pushed, ({ c with ws := ws, dec := dec } : WsConn).wsFlushOut, ?_⟩
    rcases hfeed with ⟨rfl, hopen, htaken⟩ | ⟨rfl, htaken⟩
    · have hpos : 0 < (data.length : ℤ) := by
        exact_mod_cast List.length_pos_iff.mpr hdata
      have hdone : readResult (data.length : ℤ) = .data := by
        rw [readResult, if_neg (by omega), if_pos hpos]
      refine .inl ⟨?_, htaken, ⟨hopen, rfl, hvalid⟩, hcontent⟩
      rw [hread]
      dsimp only
      rw [if_pos rfl, hdone]
    · exact .inr ⟨hread, htaken⟩
  pop := by
    intro c env c' hready hpop
    obtain ⟨hnone, -⟩ | ⟨env', rest, hparse, hsome⟩ := Decoder.pop_cases hready.valid
    · rw [port] at hpop
      simp only [hnone] at hpop
      cases hpop
    · obtain ⟨-, hview, hvalid, hcontent⟩ := Decoder.pop_of_item hready.valid hparse
      rw [port] at hpop
      simp only [hsome, hview] at hpop
      cases hpop
      refine ⟨?_, (LengthPrefix.eq_frame_append_of_item hparse).2,
        ⟨hready.closeSent, hready.out, hvalid⟩, rfl⟩
      rw [LengthPrefix.deframer_parse, hparse, hcontent]
  popAll := by
    intro c envs c' hready hpop
    obtain ⟨henvs, hcontent, hvalid⟩ := Decoder.popAll_eq hready.valid
    cases hpop
    refine ⟨henvs, ?_, hcontent, ⟨hready.closeSent, hready.out, hvalid⟩, rfl⟩
    rw [henvs]
    exact LengthPrefix.length_lt_of_mem_items c.dec.content
  panic := by
    intro c envs _ hpop
    cases hpop

/-- **What a C session hands to the broker**, and when that is all there is. -/
theorem connSession_iff {leftover : Bytes} {accepted : Bool} {reads : List Bytes} {peer : Identity}
    {commands : List (Envelope Bytes)}
    (h : connSession leftover accepted reads = some (peer, commands)) :
    commands = commandsIn (leftover ++ reads.flatten) ↔ EndsAlone leftover reads := by
  rw [lawful_port.session_eq h, poppedIn_heard_iff]
  exact and_iff_left (allPopped_two_pow _)

end WsConn

end CLib

end Aiomsg
