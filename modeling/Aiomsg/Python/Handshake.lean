import Aiomsg.Lib.LengthPrefix
import Aiomsg.Python.Asyncio
import Aiomsg.Python.Codec
import Aiomsg.Python.Duplex
import Aiomsg.Python.Upgrade
import Aiomsg.Ws.Upgrade

/-!
# The handshake of the asynchronous package

A connection from where it has been accepted or opened to where its peer is registered:
`sniff_and_wrap`, `send_msg`, `read_msg`, and `_connection` with its two callers.

`_connection` closes the writer in a `finally` behind the registration. In front of it there are
four `return`s and whatever the awaits and `decode` raise, and nothing there closes the writer.
`_accept` closes it only if the sniff hands nothing on, and `new_connection` leaves it to
`_connection`, as its comment says.

## Scope

The other tasks of the event loop run while a connection waits. The socket here is the one they have
left when the HELLO has been read: nothing before looks at it.

A connection counts as closed if the code has called `close` on its writer. What becomes of a writer
that is dropped without that is up to the interpreter: its finalizer may close the transport at some
later time, and so does a reset by the peer. Neither is documented, nor the handler's doing.

What `connection.run()` does once the peer is registered, `hashlib.sha1` and the outcomes of the
drains are parameters.

## Main definitions

* `Duplex.connection`, `accept`, `newConnection`
* `Outcome.Tidy` — what is asked of a rejected connection

## Main results

* `Duplex.connection_tidy_iff`, `handlers_tidy_iff`
* `welcome_plain_iff` — which connections are registered, by what comes in
-/

namespace Aiomsg

namespace Python

namespace Handshake

open Protocol (tHello protocolVersion)
open Ws (maxRequestBytes)
open Upgrade (parseUpgrade successResponse errorResponse)

/-! ### `_connection` -/

/-- How `_connection` ends, or that it has got to `connection.run()`. -/
inductive Ended where
  | returned
  | raised (e : Exc)
  | registered (identity : Bytes)
deriving DecidableEq

/-- What a handler leaves: how `_connection` ended if it was called, whether the writer of the
connection has been closed, and the socket. `closed` says that the code has called `close` on the
writer; that CPython may finalize a `StreamWriter` nobody refers to any more, and close its
transport then, is not counted. -/
structure Outcome (D : Type) where
  ended : Option Ended
  closed : Bool
  socket : Asyncio.Socket D

/-- `_connection` has ended without having registered the peer. -/
def Outcome.Rejected {D : Type} (o : Outcome D) : Prop :=
  o.ended = some .returned ∨ ∃ e, o.ended = some (.raised e)

theorem Outcome.not_rejected {D : Type} {o : Outcome D} (hreturned : o.ended ≠ some .returned)
    (hraised : ∀ e, o.ended ≠ some (.raised e)) : ¬ o.Rejected := by
  rintro (h | ⟨e, h⟩)
  · exact hreturned h
  · exact hraised e h

/-- A rejected connection has been closed, and the table and the event are as they were. -/
def Outcome.Tidy {D : Type} (before : Asyncio.Socket D) (o : Outcome D) : Prop :=
  o.Rejected → o.closed = true ∧ o.socket.peers = before.peers ∧
    o.socket.atLeastOneConnection = before.atLeastOneConnection

/-- `envelope.hello` -/
def hello (identity : Bytes) : Bytes := tHello :: protocolVersion :: identity

namespace Duplex

variable {σ : Type} (io : Duplex σ)

/-- `send_msg` -/
def sendMsg (data : Bytes) : EStateM Exc σ Unit := do
  modify (io.write (BigEndian.encode 4 data.length))
  modify (io.write data)
  io.drain

/-- `read_msg`: `b""` if the connection is lost. -/
def readMsg : EStateM Exc σ Bytes := do
  let data ← caught (fun e => e = .eof ∨ e = .os) do
    let sizeBytes ← io.readexactly 4
    io.readexactly (BigEndian.value sizeBytes)
  return data.getD []

/-- `_connection` up to where the table is looked at: the identity in the HELLO of the peer, or
`none` if it has returned. -/
def handshake (identity : Bytes) : EStateM Exc σ (Option Bytes) := do
  io.sendMsg (hello identity)
  let helloRaw ← io.readMsg
  if helloRaw = [] then return none
  else
    match Codec.decode helloRaw with
    | .error _ => throw .index
    | .ok none => return none
    | .ok (some hello) =>
      if hello.type ≠ .hello then return none
      else if hello.version ≠ protocolVersion then return none -- unsupported protocol version
      else return some hello.identity

variable {D : Type}

/-- `_connection`. `run` is what `connection.run()` does to the pair, and the socket is left as it
is then. -/
def connection (run : σ → σ) (identity : Bytes) (socket : Asyncio.Socket D) (s : σ) : Outcome D :=
  match (io.handshake identity).run s with
  | .error e s => ⟨some (.raised e), io.closed s, socket⟩
  | .ok none s => ⟨some .returned, io.closed s, socket⟩
  | .ok (some peer) s =>
    if socket.peers.Has peer then ⟨some .returned, io.closed s, socket⟩ -- already connected
    else ⟨some (.registered peer), io.closed (io.close (run s)), socket.register peer⟩

/-- The connections that are registered: the HELLO goes out, and the first frame that comes in is a
HELLO of this version from a peer that is not in the table. -/
def Welcome (identity : Bytes) (socket : Asyncio.Socket D) (s : σ) : Prop :=
  ∃ s₁ s₂ frame h, (io.sendMsg (hello identity)).run s = .ok () s₁ ∧
    io.readMsg.run s₁ = .ok frame s₂ ∧ Codec.decode frame = .ok (some h) ∧ h.type = .hello ∧
    h.version = protocolVersion ∧ ¬ socket.peers.Has h.identity

end Duplex

/-! ### The handlers -/

/-- What `sniff_and_wrap` returns. -/
inductive Wrapped where
  | raw (first : Bytes)
  | ws

/-- The checks on a request. -/
def checkRequest (request : Bytes) : Except Ws.Status Bytes :=
  if maxRequestBytes < request.length then .error .badRequest else parseUpgrade request

def sniffAndWrap (sha1 : Bytes → Bytes) : EStateM Exc Stream (Option Wrapped) := do
  match ← caught (fun e => e = .eof ∨ e = .os) (Stream.readexactly 1) with
  | none => return none
  | some first =>
    if first = [0x00] then return some (.raw first)
    else if first ≠ [71] then return none -- not a `G`
    else
      match ← caught (fun e => e = .eof ∨ e = .limitOverrun ∨ e = .os) Stream.readHead with
      | none =>
        modify (Stream.write (errorResponse .badRequest))
        return none
      | some rest =>
        match checkRequest (first ++ rest) with
        | .error status =>
          modify (Stream.write (errorResponse status))
          return none
        | .ok key =>
          modify (Stream.write (successResponse sha1 key))
          let drained ← caught (fun e => e = .os) Stream.drain
          return drained.map fun _ => .ws

section Handlers

variable {D : Type} (sha1 : Bytes → Bytes) (run : (σ : Type) → Duplex σ → σ → σ) (identity : Bytes)
  (socket : Asyncio.Socket D)

/-- `_accept` -/
def accept (s : Stream) : Outcome D :=
  match (sniffAndWrap sha1).run s with
  | .error _ s => ⟨none, s.closed, socket⟩
  | .ok none s => ⟨none, s.close.closed, socket⟩
  | .ok (some (.raw first)) s =>
    prepended.connection (run _ prepended) identity socket ⟨first, s⟩
  | .ok (some .ws) s => websocket.connection (run _ websocket) identity socket (.new s)

/-- `new_connection`, from where the connection has been opened. Its comment says that the writer is
closed inside `_connection`, so it does not close it itself, and `closed` is what `_connection`
makes it; the finalizer that CPython has for a `StreamWriter` is not counted as closing it. -/
def newConnection (s : Stream) : Outcome D :=
  plain.connection (run _ plain) identity socket s

/-- The connections that the sniff does not hand on, or that are registered. -/
def Admits (s : Stream) : Prop :=
  match (sniffAndWrap sha1).run s with
  | .error _ _ => True
  | .ok none _ => True
  | .ok (some (.raw first)) s => prepended.Welcome identity socket ⟨first, s⟩
  | .ok (some .ws) s => websocket.Welcome identity socket (.new s)

end Handlers

/-! ### What the handlers leave -/

namespace Duplex

variable {σ : Type} (io : Duplex σ)

/-- The writer is as open as before. -/
def Open (s s' : σ) : Prop := io.closed s' = io.closed s

instance : IsPreorder σ io.Open where
  refl _ := rfl
  trans _ _ _ h h' := Eq.trans h' h

theorem within_sendMsg (data : Bytes) : (io.sendMsg data).Within io.Open := by
  rw [sendMsg]
  refine .bind (.modify fun s => io.closed_write _ s) fun _ => ?_
  exact .bind (.modify fun s => io.closed_write _ s) fun _ => io.within_drain

theorem within_readMsg : io.readMsg.Within io.Open := by
  refine .bind (within_caught _ ?_) fun _ => .pure _
  exact .bind (io.within_readexactly 4) fun _ => io.within_readexactly _

/-- **Nothing in front of the registration closes the writer**, whether it returns or raises. -/
theorem within_handshake (identity : Bytes) : (io.handshake identity).Within io.Open := by
  refine .bind (io.within_sendMsg _) fun _ => .bind io.within_readMsg fun helloRaw => ?_
  split_ifs
  · exact .pure _
  · split
    · exact .throw _
    · exact .pure _
    · split_ifs
      · exact .pure _
      · exact .pure _
      · exact .pure _

/-- Where the identity of a peer comes from. -/
theorem handshake_eq_some {identity peer : Bytes} {s s' : σ}
    (h : (io.handshake identity).run s = .ok (some peer) s') :
    ∃ s₁ frame hello', (io.sendMsg (hello identity)).run s = .ok () s₁ ∧
      io.readMsg.run s₁ = .ok frame s' ∧ Codec.decode frame = .ok (some hello') ∧
      hello'.type = .hello ∧ hello'.version = protocolVersion ∧ hello'.identity = peer := by
  rw [handshake, EStateM.run_bind] at h
  match hsend : (io.sendMsg (hello identity)).run s with
  | .error e s₁ => simp [hsend] at h
  | .ok () s₁ =>
    rw [hsend] at h
    dsimp only at h
    rw [EStateM.run_bind] at h
    match hread : io.readMsg.run s₁ with
    | .error e s₂ => simp [hread] at h
    | .ok frame s₂ =>
      rw [hread] at h
      dsimp only at h
      split_ifs at h with hempty
      · cases h
      · match hdecode : Codec.decode frame with
        | .error e =>
          rw [hdecode] at h
          cases h
        | .ok none =>
          rw [hdecode] at h
          cases h
        | .ok (some hello') =>
          rw [hdecode] at h
          dsimp only at h
          split_ifs at h with htype hversion
          · cases h
          · cases h
          · cases h
            exact ⟨s₁, frame, hello', rfl, hread, hdecode, not_not.mp htype, not_not.mp hversion,
              rfl⟩

theorem handshake_of_frame {identity frame : Bytes} {s s₁ s₂ : σ} {h : Codec.Envelope}
    (hsend : (io.sendMsg (hello identity)).run s = .ok () s₁)
    (hread : io.readMsg.run s₁ = .ok frame s₂) (hdecode : Codec.decode frame = .ok (some h))
    (htype : h.type = .hello) (hversion : h.version = protocolVersion) :
    (io.handshake identity).run s = .ok (some h.identity) s₂ := by
  have hne : frame ≠ [] := by
    rintro rfl
    cases hdecode
  rw [handshake, EStateM.run_bind, hsend]
  dsimp only
  rw [EStateM.run_bind, hread]
  dsimp only
  rw [if_neg hne, hdecode]
  dsimp only
  rw [if_neg (not_not.mpr htype), if_neg (not_not.mpr hversion)]
  rfl

variable {D : Type} {run : σ → σ} {identity : Bytes} {socket : Asyncio.Socket D} {s : σ}

/-- **A rejected connection** is left as open as it was, and the socket is left alone. -/
theorem connection_of_rejected (h : (io.connection run identity socket s).Rejected) :
    (io.connection run identity socket s).closed = io.closed s ∧
      (io.connection run identity socket s).socket = socket := by
  have hopen := io.within_handshake identity
  revert h
  rw [connection]
  match hrun : (io.handshake identity).run s with
  | .error e s' => exact fun _ => ⟨hopen.of_error hrun, rfl⟩
  | .ok none s' => exact fun _ => ⟨hopen.of_ok hrun, rfl⟩
  | .ok (some peer) s' =>
    dsimp only
    split_ifs
    · exact fun _ => ⟨hopen.of_ok hrun, rfl⟩
    · intro h
      exact absurd h (Outcome.not_rejected nofun nofun)

/-- The others are those that are registered. -/
theorem rejected_connection_iff :
    (io.connection run identity socket s).Rejected ↔ ¬ io.Welcome identity socket s := by
  constructor
  · rintro hrejected ⟨s₁, s₂, frame, h, hsend, hread, hdecode, htype, hversion, hnew⟩
    rw [connection, io.handshake_of_frame hsend hread hdecode htype hversion] at hrejected
    dsimp only at hrejected
    rw [if_neg hnew] at hrejected
    exact absurd hrejected (Outcome.not_rejected nofun nofun)
  · intro hnot
    rw [connection]
    match hrun : (io.handshake identity).run s with
    | .error e s' => exact .inr ⟨e, rfl⟩
    | .ok none s' => exact .inl rfl
    | .ok (some peer) s' =>
      dsimp only
      split_ifs with hhas
      · exact .inl rfl
      · obtain ⟨s₁, frame, h, hsend, hread, hdecode, htype, hversion, rfl⟩ :=
          io.handshake_eq_some hrun
        exact absurd ⟨s₁, s', frame, h, hsend, hread, hdecode, htype, hversion, hhas⟩ hnot

/-- **Nothing rejected is closed**: an open connection is left tidy exactly if it is registered. -/
theorem connection_tidy_iff (hopen : io.closed s = false) :
    (io.connection run identity socket s).Tidy socket ↔ io.Welcome identity socket s := by
  by_cases hwelcome : io.Welcome identity socket s
  · refine iff_of_true (fun hrejected => ?_) hwelcome
    exact absurd hwelcome (io.rejected_connection_iff.mp hrejected)
  · refine iff_of_false (fun htidy => ?_) hwelcome
    have hrejected : (io.connection run identity socket s).Rejected :=
      io.rejected_connection_iff.mpr hwelcome
    have hclosed := (htidy hrejected).1
    rw [(io.connection_of_rejected hrejected).1, hopen] at hclosed
    cases hclosed

end Duplex

/-- The sniff does not close the writer. -/
theorem within_sniffAndWrap (sha1 : Bytes → Bytes) : (sniffAndWrap sha1).Within Stream.Later := by
  have hwrite : ∀ data : Bytes, EStateM.Within (ε := Exc) Stream.Later (modify (.write data)) :=
    fun data => .modify fun s => ⟨rfl, le_rfl⟩
  refine .bind (within_caught _ (Stream.within_readexactly 1)) fun first => ?_
  match first with
  | none => exact .pure _
  | some first =>
    dsimp only
    split_ifs
    · exact .pure _
    · exact .pure _
    · refine .bind (within_caught _ Stream.within_readHead) fun rest => ?_
      match rest with
      | none => exact .bind (hwrite _) fun _ => .pure _
      | some rest =>
        dsimp only
        match checkRequest (first ++ rest) with
        | .error status => exact .bind (hwrite _) fun _ => .pure _
        | .ok key =>
          refine .bind (hwrite _) fun _ => ?_
          exact .bind (within_caught _ Stream.within_drain) fun _ => .pure _

section Handlers

variable {D : Type} {sha1 : Bytes → Bytes} {run : (σ : Type) → Duplex σ → σ → σ} {identity : Bytes}
  {socket : Asyncio.Socket D} {s : Stream}

theorem accept_tidy_iff (hopen : s.closed = false) :
    (accept sha1 run identity socket s).Tidy socket ↔ Admits sha1 identity socket s := by
  have hsniff := within_sniffAndWrap sha1
  rw [accept, Admits]
  match hrun : (sniffAndWrap sha1).run s with
  | .error e s' => exact iff_of_true (fun h => absurd h (Outcome.not_rejected nofun nofun)) trivial
  | .ok none s' => exact iff_of_true (fun h => absurd h (Outcome.not_rejected nofun nofun)) trivial
  | .ok (some (.raw first)) s' =>
    exact prepended.connection_tidy_iff ((hsniff.of_ok hrun).1.trans hopen)
  | .ok (some .ws) s' =>
    exact websocket.connection_tidy_iff ((hsniff.of_ok hrun).1.trans hopen)

theorem accept_of_rejected (h : (accept sha1 run identity socket s).Rejected) :
    (accept sha1 run identity socket s).closed = s.closed ∧
      (accept sha1 run identity socket s).socket = socket := by
  have hsniff := within_sniffAndWrap sha1
  revert h
  rw [accept]
  match hrun : (sniffAndWrap sha1).run s with
  | .error e s' => exact fun h => absurd h (Outcome.not_rejected nofun nofun)
  | .ok none s' => exact fun h => absurd h (Outcome.not_rejected nofun nofun)
  | .ok (some (.raw first)) s' =>
    intro h
    obtain ⟨hclosed, hsocket⟩ := prepended.connection_of_rejected h
    exact ⟨hclosed.trans (hsniff.of_ok hrun).1, hsocket⟩
  | .ok (some .ws) s' =>
    intro h
    obtain ⟨hclosed, hsocket⟩ := websocket.connection_of_rejected h
    exact ⟨hclosed.trans (hsniff.of_ok hrun).1, hsocket⟩

end Handlers

/-! ### The first frame -/

/-- The first frame of a stream, and `b""` if it does not come to its end. -/
def firstFrame (bytes : Bytes) : Bytes :=
  match LengthPrefix.parse bytes with
  | .item body _ => body
  | _ => []

theorem run_caught_ok {σ α : Type} {p : Exc → Bool} {x : EStateM Exc σ α} {s s' : σ} {a : α}
    (h : x.run s = .ok a s') : (caught p x).run s = .ok (some a) s' := by
  rw [caught, EStateM.run_handled, EStateM.run_bind, h]
  rfl

theorem run_caught_error {σ α : Type} {p : Exc → Bool} {x : EStateM Exc σ α} {s s' : σ} {e : Exc}
    (h : x.run s = .error e s') (he : p e = true) : (caught p x).run s = .ok none s' := by
  rw [caught, EStateM.run_handled, EStateM.run_bind, h]
  dsimp only
  rw [if_pos he]
  rfl

namespace Stream

theorem readexactly_of_le {n : ℕ} {s : Stream} (h : s.incoming.Clean)
    (hle : n ≤ s.incoming.stream.length) :
    ∃ src, (readexactly n).run s = .ok (s.incoming.stream.take n) { s with incoming := src } ∧
      src.stream = s.incoming.stream.drop n ∧ src.Clean := by
  obtain ⟨src, hread, hdrop, hclean⟩ := Source.readExact_of_le h hle
  exact ⟨src, by rw [EStateM.run, readexactly, hread], hdrop, hclean⟩

theorem readexactly_of_lt {n : ℕ} {s : Stream} (h : s.incoming.Clean)
    (hlt : s.incoming.stream.length < n) :
    (readexactly n).run s = .error .eof { s with incoming := [] } := by
  rw [EStateM.run, readexactly, Source.readExact_of_lt h hlt]
  rfl

end Stream

/-- `read_msg` reads the first frame, however it arrives. -/
theorem readMsg_plain {s : Stream} (h : s.incoming.Clean) :
    ∃ s', plain.readMsg.run s = .ok (firstFrame s.incoming.stream) s' := by
  have hend : ∀ x : EStateM Exc Stream Bytes, ∀ s', x.run s = .error .eof s' →
      EStateM.run (do
        let data ← caught (fun e => e = .eof ∨ e = .os) x
        return data.getD []) s = .ok [] s' := by
    intro x s' hrun
    rw [EStateM.run_bind, run_caught_error hrun (by decide)]
    rfl
  by_cases hheader : 4 ≤ s.incoming.stream.length
  · obtain ⟨src, hfirst, hdrop, hclean⟩ := Stream.readexactly_of_le h hheader
    have hbody : ∀ {r}, (Stream.readexactly (LengthPrefix.announced s.incoming.stream)).run
        { s with incoming := src } = r → EStateM.run (do
          let sizeBytes ← plain.readexactly 4
          plain.readexactly (BigEndian.value sizeBytes)) s = r := by
      intro r hrun
      rw [EStateM.run_bind, show (plain.readexactly 4).run s = _ from hfirst]
      exact hrun
    by_cases hall : LengthPrefix.announced s.incoming.stream ≤ src.stream.length
    · obtain ⟨src', hsecond, -, -⟩ :=
        Stream.readexactly_of_le (s := { s with incoming := src }) hclean hall
      have hparse : firstFrame s.incoming.stream
          = (s.incoming.stream.drop 4).take (LengthPrefix.announced s.incoming.stream) := by
        rw [hdrop, List.length_drop] at hall
        rw [firstFrame, LengthPrefix.parse_of_le (by omega)]
      refine ⟨{ s with incoming := src' }, ?_⟩
      rw [Duplex.readMsg, EStateM.run_bind, run_caught_ok (hbody hsecond), hparse, ← hdrop]
      rfl
    · have hshort := Stream.readexactly_of_lt (s := { s with incoming := src }) hclean
        (Nat.not_le.mp hall)
      have hparse : firstFrame s.incoming.stream = [] := by
        rw [hdrop, List.length_drop] at hall
        rw [firstFrame, LengthPrefix.parse_eq_more_iff.mpr (.inr (by omega))]
      rw [hparse]
      exact ⟨_, hend _ _ (hbody hshort)⟩
  · have hshort := Stream.readexactly_of_lt h (Nat.not_le.mp hheader)
    have hparse : firstFrame s.incoming.stream = [] := by
      rw [firstFrame, LengthPrefix.parse_eq_more_iff.mpr (.inl (Nat.not_le.mp hheader))]
    rw [hparse]
    refine ⟨_, hend _ { s with incoming := [] } ?_⟩
    rw [EStateM.run_bind, show (plain.readexactly 4).run s = _ from hshort]

section First

variable {D : Type} {identity : Bytes} {socket : Asyncio.Socket D} {incoming : Source}

/-- Which connections the connect end registers, by what comes in. -/
theorem welcome_plain_iff (hclean : incoming.Clean) :
    plain.Welcome identity socket (.opened incoming []) ↔
      ∃ h, Codec.decode (firstFrame incoming.stream) = .ok (some h) ∧ h.type = .hello ∧
        h.version = protocolVersion ∧ ¬ socket.peers.Has h.identity := by
  have hmsg : ∃ s', plain.readMsg.run (plain.write (hello identity)
      (plain.write (BigEndian.encode 4 (hello identity).length) (.opened incoming [])))
        = .ok (firstFrame incoming.stream) s' := readMsg_plain hclean
  obtain ⟨s', hread⟩ := hmsg
  constructor
  · rintro ⟨s₁, s₂, frame, h, hsend, hframe, hdecode, hrest⟩
    cases hsend
    rw [hread] at hframe
    cases hframe
    exact ⟨h, hdecode, hrest⟩
  · rintro ⟨h, hdecode, hrest⟩
    exact ⟨_, s', _, h, rfl, hread, hdecode, hrest⟩

end First

/-- **The two handlers.** What they leave of a connection that they reject is not closed, and the
socket is as it was. So they leave tidy exactly the connections that they do not reject: those that
the sniff does not hand on, and those whose first frame is a HELLO of this version from a peer that
is not in the table. -/
theorem handlers_tidy_iff {D : Type} (sha1 : Bytes → Bytes)
    (run : (σ : Type) → Duplex σ → σ → σ) (identity : Bytes) (socket : Asyncio.Socket D)
    (incoming : Source) (drains : List (Option Exc)) :
    ((newConnection run identity socket (.opened incoming drains)).Tidy socket
        ↔ plain.Welcome identity socket (.opened incoming drains)) ∧
      ((accept sha1 run identity socket (.opened incoming drains)).Tidy socket
        ↔ Admits sha1 identity socket (.opened incoming drains)) ∧
      ((newConnection run identity socket (.opened incoming drains)).Rejected →
        (newConnection run identity socket (.opened incoming drains)).closed = false ∧
          (newConnection run identity socket (.opened incoming drains)).socket = socket) ∧
      ((accept sha1 run identity socket (.opened incoming drains)).Rejected →
        (accept sha1 run identity socket (.opened incoming drains)).closed = false ∧
          (accept sha1 run identity socket (.opened incoming drains)).socket = socket) :=
  ⟨plain.connection_tidy_iff rfl, accept_tidy_iff rfl, plain.connection_of_rejected,
    accept_of_rejected⟩

/-- A HELLO of version 2 on an accepted connection. -/
def versionTwo : Source := [.bytes 0 [0, 0, 18, tHello, 2], .bytes 7 (List.replicate 15 7)]

theorem accept_versionTwo :
    ¬ (accept (fun _ => []) (fun _ _ s => s) (List.replicate 16 1)
      (.new .roundRobin .atMostOnce : Asyncio.Socket Bytes) (.opened versionTwo [])).Tidy
      (.new .roundRobin .atMostOnce) := by
  intro htidy
  have hended : (accept (fun _ => []) (fun _ _ s => s) (List.replicate 16 1)
      (.new .roundRobin .atMostOnce : Asyncio.Socket Bytes) (.opened versionTwo [])).ended
        = some .returned := by
    decide
  have hclosed := (htidy (.inl hended)).1
  revert hclosed
  decide

end Handshake

end Python

end Aiomsg
