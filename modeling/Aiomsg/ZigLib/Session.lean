import Aiomsg.CLib.Session
import Aiomsg.ZigLib.Ws

/-!
# The Zig session

`connRead`, `readHello`, `forwardFrames` and the loop of `runConnection` in
`zig-lib/src/aiomsg.zig`, over a WebSocket, and what is said about both ports. `connRead` returns
`.closed` for a read with which the connection ends, though `feed` may have pushed envelopes by
then, and `runConnection` leaves its loop on `.closed`.

So if the Close frame, or what violates the protocol, arrives in one read with the last bytes of a
message, neither port hands on the message. In `lastWords` it does, in `lastWordsApart` the same
bytes arrive in two reads.

## Scope

The session is on a WebSocket. On plain TCP there is no `feed`, and a read that ends the connection
brings no bytes. What is written to the peer is recorded and never blocks. Reads that time out are
reads of no bytes, and the deadline of the session is one of the reasons for a run to be as long as
it is.

## Main results

* `WsConn.runConnection_iff` — when a session hands on all that it should
* `forwards_iff` — both ports
-/

namespace Aiomsg

namespace ZigLib

open Aiomsg.Ws (verdict Taken Port Popped ReadResult commandsIn EndsAlone poppedIn_heard_iff
  AllPopped heard)

/-- What a connection holds for the read side, and what it has written to the peer since the
upgrade. The parser's output is in `ws` until it is flushed, and in `wire` from then on. -/
structure WsConn where
  ws : Ws
  dec : Decoder
  wire : Bytes

namespace WsConn

/-- Flush any pending WebSocket control-frame bytes (pong / close) to the peer. -/
def wsFlushOut (c : WsConn) : WsConn :=
  { c with ws := { c.ws with out := [] }, wire := c.wire ++ c.ws.out }

/-- The end of `serverSniff`: bytes read past the request are the first frames. -/
def upgrade (leftover : Bytes) : Option WsConn :=
  if leftover = [] then some ⟨.init, .init, []⟩
  else
    let (fr, ws, dec) := Ws.init.feed leftover .init
    if fr = .close then none else some (⟨ws, dec, []⟩ : WsConn).wsFlushOut

/-- `connRead`, on the bytes it has read. -/
def connRead (c : WsConn) (bytes : Bytes) : ReadResult × WsConn :=
  let (fr, ws, dec) := c.ws.feed bytes c.dec
  (if fr = .close then .closed else .data, { c with ws := ws, dec := dec }.wsFlushOut)

/-- The parts of a Zig session. -/
def port : Port WsConn where
  upgrade := upgrade
  -- `rawRead` returns 0 where it times out, and `connRead` returns `.idle` then.
  connRead c bytes := if bytes = [] then (.idle, c) else c.connRead bytes
  pop c :=
    match c.dec.pop with
    | .null => .none
    | .envelope env dec => .envelope env { c with dec := dec }
    | .panic => .panic
  popAll c := (c.dec.popAll.1, c.dec.popAll.2.map fun dec => { c with dec := dec })
  parseEnvelope := parseEnvelope

/-- `runConnection`, behind the upgrade. -/
def runConnection : Bytes → Bool → List Bytes → Option (Identity × List (Envelope Bytes)) :=
  port.session

theorem valid_upgrade {leftover : Bytes} {c : WsConn} (h : upgrade leftover = some c) :
    c.dec.Valid ∧ Taken leftover true c.dec.content c.ws.input := by
  rw [upgrade] at h
  by_cases hleft : leftover = []
  · rw [if_pos hleft] at h
    cases h
    rw [hleft]
    exact ⟨Nat.le_refl _, .goesOn rfl (fun _ => rfl) fun _ => rfl⟩
  · rw [if_neg hleft] at h
    have hvalid : Decoder.Valid .init := Nat.le_refl _
    obtain ⟨pushed, hfed⟩ := Ws.exists_fed_feed .init hvalid leftover
    generalize Ws.init.feed leftover .init = r at h hfed
    obtain ⟨_ | _, ws, dec⟩ := r
    · cases h
      obtain rfl : dec.content = pushed := hfed.content
      exact ⟨hfed.valid, hfed.taken⟩
    · cases h

/-- **A Zig session does what a session must do**, but for the longest envelopes. -/
theorem lawful_port :
    port.Lawful (fun c => c.ws.input) (fun c => c.dec.content) (fun c => c.dec.Valid)
      (2 ^ 32 - 4) where
  parse := funext parseEnvelope_eq_decode
  upgrade := valid_upgrade
  timeout := by
    intro c
    simp [port]
  read := by
    intro c bytes hvalid hmore hbytes
    obtain ⟨pushed, hfed⟩ := Ws.exists_fed_feed c.ws hvalid bytes
    have hread : port.connRead c bytes = c.connRead bytes := if_neg hbytes
    rw [connRead] at hread
    generalize c.ws.feed bytes c.dec = r at hread hfed
    obtain ⟨fr, ws, dec⟩ := r
    refine ⟨pushed, ({ c with ws := ws, dec := dec } : WsConn).wsFlushOut, ?_⟩
    cases fr with
    | «open» => exact .inl ⟨hread, hfed.taken, hfed.valid, hfed.content⟩
    | close => exact .inr ⟨hread, hfed.taken⟩
  pop := by
    intro c env c' hvalid hpop
    have hspec := Decoder.popSpec_pop hvalid
    rw [port] at hpop
    dsimp only at hpop
    generalize c.dec.pop = r at hspec hpop
    cases hspec with
    | null | panic => cases hpop
    | envelope hitem hvalid' hshort =>
      cases hpop
      exact ⟨hitem, hshort, hvalid', rfl⟩
  popAll := by
    intro c envs c' hvalid hpop
    obtain ⟨henvs, hsome⟩ := Prod.mk.inj hpop
    obtain ⟨dec, hdec, rfl⟩ := Option.map_eq_some_iff.mp hsome
    obtain ⟨hitems, hshort, hleft, hvalid'⟩ := Decoder.popAll_some hvalid (Prod.ext henvs hdec)
    exact ⟨hitems, hshort, hleft, hvalid', rfl⟩
  panic := by
    intro c envs hvalid hpop more
    obtain ⟨henvs, hnone⟩ := Prod.mk.inj hpop
    exact Decoder.popAll_none hvalid (Prod.ext henvs (Option.map_eq_none_iff.mp hnone)) more

/-- **What a Zig session hands to the broker**, and when that is all there is. -/
theorem runConnection_iff {leftover : Bytes} {accepted : Bool} {reads : List Bytes}
    {peer : Identity} {commands : List (Envelope Bytes)}
    (h : runConnection leftover accepted reads = some (peer, commands)) :
    commands = commandsIn (leftover ++ reads.flatten) ↔
      EndsAlone leftover reads ∧ AllPopped (2 ^ 32 - 4) (heard leftover reads) := by
  rw [lawful_port.session_eq h]
  exact poppedIn_heard_iff _ _ _

end WsConn

end ZigLib

/-! ### Both ports -/

open Aiomsg.Ws (commandsIn EndsAlone AllPopped heard)

/-- **What is handed to the broker.** Take any bytes behind the upgrade and any cut of them into
reads. If the session is registered, the C port hands on the envelopes for the broker that the whole
stream carries if and only if the read in which the Close frame or a violation arrives completes
none; the Zig port does if and only if moreover none is as long as `2 ^ 32 - 4` bytes, or comes
behind one that is. -/
theorem forwards_iff (leftover : Bytes) (accepted : Bool) (reads : List Bytes) :
    (∀ peer commands, CLib.WsConn.connSession leftover accepted reads = some (peer, commands) →
      (commands = commandsIn (leftover ++ reads.flatten) ↔ EndsAlone leftover reads)) ∧
    ∀ peer commands, ZigLib.WsConn.runConnection leftover accepted reads = some (peer, commands) →
      (commands = commandsIn (leftover ++ reads.flatten) ↔
        EndsAlone leftover reads ∧ AllPopped (2 ^ 32 - 4) (heard leftover reads)) :=
  ⟨fun _ _ => CLib.WsConn.connSession_iff, fun _ _ => ZigLib.WsConn.runConnection_iff⟩

/-- A HELLO in one frame, and then in one read a message of one byte and a Close frame. -/
def lastWords : List Bytes :=
  [[0x82, 0x96, 0, 0, 0, 0] ++ Protocol.hello (List.Vector.replicate 16 7),
    [0x82, 0x86, 0, 0, 0, 0] ++ Protocol.data [42] ++ [0x88, 0x80, 0, 0, 0, 0]]

/-- The same bytes, with the Close frame in a read of its own. -/
def lastWordsApart : List Bytes :=
  [[0x82, 0x96, 0, 0, 0, 0] ++ Protocol.hello (List.Vector.replicate 16 7),
    [0x82, 0x86, 0, 0, 0, 0] ++ Protocol.data [42], [0x88, 0x80, 0, 0, 0, 0]]

theorem lastWordsApart_forwarded : lastWordsApart.flatten = lastWords.flatten ∧
    [.data [42]] = commandsIn lastWordsApart.flatten ∧
    ∃ commands, ZigLib.WsConn.runConnection [] true lastWordsApart
      = some (List.Vector.replicate 16 7, commands) ∧
      commands = commandsIn lastWordsApart.flatten := by
  obtain ⟨hc, hzig⟩ := forwards_iff [] true lastWordsApart
  refine ⟨by decide, ?_, [.data [42]], by decide +kernel, ?_⟩
  · exact (hc (List.Vector.replicate 16 7) _ (by decide +kernel)).mpr (by decide +kernel)
  · exact (hzig (List.Vector.replicate 16 7) _ (by decide +kernel)).mpr (by decide +kernel)

/-- Both ports lose the message. -/
theorem lastWords_lost :
    (¬ ∀ leftover accepted reads peer commands,
      CLib.WsConn.connSession leftover accepted reads = some (peer, commands) →
      commands = commandsIn (leftover ++ reads.flatten)) ∧
    ¬ ∀ leftover accepted reads peer commands,
      ZigLib.WsConn.runConnection leftover accepted reads = some (peer, commands) →
      commands = commandsIn (leftover ++ reads.flatten) := by
  have hmessage : commandsIn ([] ++ lastWords.flatten) = [.data [42]] := by decide +kernel
  constructor
  · intro hall
    have hnone := hall [] true lastWords (List.Vector.replicate 16 7) [] (by decide +kernel)
    rw [hmessage] at hnone
    cases hnone
  · intro hall
    have hnone := hall [] true lastWords (List.Vector.replicate 16 7) [] (by decide +kernel)
    rw [hmessage] at hnone
    cases hnone

end Aiomsg
