import Aiomsg.Python.IoLock

/-!
# Whether a reader waits for what has arrived

A reader calls `_readable` before it takes the lock, and waits for the raw socket unless `pending`
says that there is something above it. `pending` of the adapter looks at `_out_buf`. That is enough
as long as no complete frame stays in `_raw_buf`, and none does where `_pump` has come to the end of
that buffer. Two things keep it from that: before the first `recv_into` it has not been called, and
behind a frame that ends the stream it stops.

## Scope

The state in which the question arises is that of a reader outside of `recv_into`: inside, it looks
at the buffers itself. For the connect end there is no adapter and nothing to be asked. That a
reader which waits is woken by the next bytes on the raw socket is `select`'s part, and too late for
those that are there already.

## Main definitions

* `Ready` — `pending` tells of what is in the adapter
* `NoHiding` — a read brings nothing that `_pump` leaves behind
* `Settled` — what a call leaves in the adapter

## Main results

* `ready_of_run`
-/

namespace Aiomsg

namespace Python

namespace BlockingWs

/-- A reader that is not in `recv_into` is told by `pending` of what the adapter has: payload, or a
complete frame. -/
def Ready (s : Conn) : Prop :=
  ∀ ws, s.sock = .adapter ws → (∀ control, s.held ≠ some (.reader, control)) →
    Complete ws.rawBuf ∨ ws.outBuf ≠ [] → s.sock.pending = true

/-- What is received brings no frame that ends the stream together with another one behind it. -/
def NoHiding (s : Conn) (a : Action) : Prop :=
  ∀ ws bytes, a = .attempt (.received bytes) → s.sock = .adapter ws → ¬ Hides (ws.rawBuf ++ bytes)

namespace Control

/-- The call is sending a frame of the adapter's own. -/
def answers : Control → Bool
  | .wsAnswer _ _ => true
  | _ => false

/-- The call is a `recv_into`, in front of an attempt. -/
def receives : Control → Bool
  | .recv _ | .wsRecv _ | .wsAnswer _ _ => true
  | _ => false

end Control

/-- What is in the adapter during a call. -/
structure Settled (r : WsSocket × Control) : Prop where
  calm : r.1.Calm
  clear : r.2.answers = false → r.1.Clear
  eof : ∀ room, r.2 = .wsRecv room → r.1.eof = false

namespace WsSocket

variable {ws : WsSocket}

theorem Clear.settled (h : ws.Clear) {control : Control} (hroom : ∀ room, control ≠ .wsRecv room) :
    Settled (ws, control) where
  calm := h.calm
  clear := fun _ => h
  eof := fun room hrecv => absurd hrecv (hroom room)

theorem settled_finish (h : ws.Clear) (room : ℕ) : Settled (ws.finish room) := by
  rw [finish]
  split_ifs
  · exact h.settled nofun
  · have hrest : ({ ws with outBuf := ws.outBuf.drop room } : WsSocket).Clear := h
    exact hrest.settled nofun

theorem settled_resume (h : ws.Calm) (room : ℕ) : Settled (ws.resume room) := by
  obtain ⟨hcalm, hclear⟩ := pump_spec h
  rw [resume]
  match hpump : ws.pump with
  | (ws', some frame) =>
    rw [hpump] at hcalm
    have hsends : Settled (ws', .wsAnswer room frame) := ⟨hcalm, nofun, nofun⟩
    exact hsends
  | (ws', none) =>
    rw [hpump] at hclear
    dsimp only
    split_ifs with hdone
    · exact settled_finish (hclear rfl) room
    · obtain ⟨-, heof⟩ := not_or.mp hdone
      exact ⟨(hclear rfl).calm, fun _ => hclear rfl, fun _ _ => Bool.not_eq_true _ ▸ heof⟩

theorem settled_recvInto (h : ws.Clear) (room : ℕ) : Settled (ws.recvInto room) := by
  rw [recvInto]
  split_ifs
  · exact settled_finish h room
  · exact settled_resume h.calm room

theorem settled_received (h : ws.Clear) (heof : ws.eof = false) {bytes : Bytes}
    (hhides : ¬ Hides (ws.rawBuf ++ bytes)) (room : ℕ) : Settled (ws.received room bytes) := by
  rw [received]
  split_ifs
  · have hended : ({ ws with eof := true } : WsSocket).Clear := h
    exact hended.settled nofun
  · refine settled_resume ⟨hhides, fun hdone => ?_⟩ room
    rw [heof] at hdone
    cases hdone

end WsSocket

/-- What an attempt leads to: the call goes on where it was or ends, or there is more for `_pump` to
look at. -/
inductive Attempted (sock : Sock) : Control → Outcome → Sock × Control → Prop
  | same {control control' : Control} {o : Outcome} (hanswers : control'.answers = control.answers)
      (hroom : ∀ room, control' ≠ .wsRecv room)
      (hreceives : control.receives = false → control'.receives = false) :
      Attempted sock control o (sock, control')
  | resumed (room : ℕ) (rest : Bytes) (o : Outcome) {r : Sock × Control}
      (hresume : sock.resume room = some r) : Attempted sock (.wsAnswer room rest) o r
  | received (room : ℕ) (bytes : Bytes) {r : Sock × Control}
      (hreceived : sock.received room bytes = some r) :
      Attempted sock (.wsRecv room) (.received bytes) r

theorem attempted_of_attempt {sock : Sock} {control : Control} {o : Outcome} {r : Sock × Control}
    (h : sock.attempt control o = some r) : Attempted sock control o r := by
  have hsame : ∀ {c : Control}, some (sock, c) = some r → c.answers = control.answers →
      (∀ room, c ≠ .wsRecv room) → (control.receives = false → c.receives = false) →
        Attempted sock control o r := by
    intro c heq hanswers hroom hreceives
    cases heq
    exact .same hanswers hroom hreceives
  match control, o with
  | .recv room, .received bytes =>
    rw [Sock.attempt] at h
    split_ifs at h
    exact hsame h rfl nofun fun _ => rfl
  | .recv room, .timeout =>
    exact hsame h rfl nofun fun _ => rfl
  | .recv room, .error =>
    exact hsame h rfl nofun fun _ => rfl
  | .send data, .sent n =>
    rw [Sock.attempt] at h
    split_ifs at h
    exact hsame h rfl nofun fun _ => rfl
  | .send data, .timeout =>
    exact hsame h rfl nofun fun _ => rfl
  | .send data, .error =>
    exact hsame h rfl nofun fun _ => rfl
  | .wsRecv room, .received bytes =>
    rw [Sock.attempt] at h
    split_ifs at h
    exact .received room bytes h
  | .wsRecv room, .timeout =>
    exact hsame h rfl nofun fun _ => rfl
  | .wsRecv room, .error =>
    exact hsame h rfl nofun fun _ => rfl
  | .wsAnswer room rest, .sent n =>
    rw [Sock.attempt] at h
    split_ifs at h
    · exact hsame h rfl nofun nofun
    · exact .resumed room rest _ h
  | .wsAnswer room rest, .timeout =>
    exact hsame h rfl nofun nofun
  | .wsAnswer room rest, .error =>
    exact .resumed room rest _ h
  | .wsSend length rest, .sent n =>
    rw [Sock.attempt] at h
    split_ifs at h
    · exact hsame h rfl nofun fun _ => rfl
    · exact hsame h rfl nofun fun _ => rfl
  | .wsSend length rest, .timeout =>
    exact hsame h rfl nofun fun _ => rfl
  | .wsSend length rest, .error =>
    exact hsame h rfl nofun fun _ => rfl

theorem Sock.resume_eq {sock : Sock} {room : ℕ} {r : Sock × Control}
    (h : sock.resume room = some r) :
    ∃ ws, sock = .adapter ws ∧ r = (.adapter (ws.resume room).1, (ws.resume room).2) := by
  match sock with
  | .plain => cases h
  | .prepended _ => cases h
  | .adapter ws => exact ⟨ws, rfl, (Option.some.inj h).symm⟩

theorem Sock.received_eq {sock : Sock} {room : ℕ} {bytes : Bytes} {r : Sock × Control}
    (h : sock.received room bytes = some r) :
    ∃ ws, sock = .adapter ws ∧
      r = (.adapter (ws.received room bytes).1, (ws.received room bytes).2) := by
  match sock with
  | .plain => cases h
  | .prepended _ => cases h
  | .adapter ws => exact ⟨ws, rfl, (Option.some.inj h).symm⟩

/-- An attempt keeps what is in the adapter settled. -/
theorem Attempted.settled {sock : Sock} {control : Control} {o : Outcome} {r : Sock × Control}
    (h : Attempted sock control o r) (hsettled : ∀ ws, sock = .adapter ws → Settled (ws, control))
    (hhiding : ∀ ws bytes, o = .received bytes → sock = .adapter ws →
      ¬ Hides (ws.rawBuf ++ bytes)) :
    ∀ ws, r.1 = .adapter ws → Settled (ws, r.2) := by
  match h with
  | .same hanswers hroom hreceives =>
    intro ws hsock
    have hbefore := hsettled ws hsock
    refine ⟨hbefore.calm, fun hno => hbefore.clear ?_, fun room hrecv => ?_⟩
    · rw [← hanswers]
      exact hno
    · exact absurd hrecv (hroom room)
  | .resumed room rest _ hresume =>
    obtain ⟨ws, hsock, rfl⟩ := Sock.resume_eq hresume
    intro ws' heq
    cases heq
    exact WsSocket.settled_resume (hsettled ws hsock).calm room
  | .received room bytes hreceived =>
    obtain ⟨ws, hsock, rfl⟩ := Sock.received_eq hreceived
    have hbefore := hsettled ws hsock
    intro ws' heq
    cases heq
    exact WsSocket.settled_received (hbefore.clear rfl) (hbefore.eof room rfl)
      (hhiding ws bytes rfl hsock) room

/-- A call of the writer stays one. -/
theorem Attempted.receives {sock : Sock} {control : Control} {o : Outcome} {r : Sock × Control}
    (h : Attempted sock control o r) (hreceives : control.receives = false) :
    r.2.receives = false := by
  match h with
  | .same _ _ hkeeps => exact hkeeps hreceives
  | .resumed _ _ _ _ => cases hreceives
  | .received _ _ _ => cases hreceives

/-- What is in the adapter between the steps. -/
structure Kept (s : Conn) : Prop where
  free : ∀ ws, s.sock = .adapter ws → s.held = none → ws.Clear
  held : ∀ ws t control, s.sock = .adapter ws → s.held = some (t, control) → Settled (ws, control)
  writer : ∀ control, s.held = some (.writer, control) → control.receives = false

theorem kept_new {ws : WsSocket} (h : ws.Clear) : Kept (.new (.adapter ws)) where
  free := fun ws' heq _ => by
    cases heq
    exact h
  held := nofun
  writer := nofun

theorem Kept.ready {s : Conn} (hs : Kept s) : Ready s := by
  intro ws hsock hnot hbuffered
  have hclear : ws.Clear := by
    match hheld : s.held with
    | none => exact hs.free ws hsock hheld
    | some (.reader, control) => exact absurd hheld (hnot control)
    | some (.writer, control) =>
      have hreceives := hs.writer control hheld
      refine (hs.held ws _ control hsock hheld).clear ?_
      match control with
      | .send _ => rfl
      | .wsSend _ _ => rfl
      | .returned _ => rfl
      | .raised _ => rfl
  rw [hsock]
  rcases hbuffered with hcomplete | hout
  · exact absurd hcomplete hclear
  · exact decide_eq_true hout

theorem Kept.of_free {s : Conn} (hfree : s.held = none)
    (hclear : ∀ ws, s.sock = .adapter ws → ws.Clear) : Kept s where
  free := fun ws hsock _ => hclear ws hsock
  held := fun ws t control _ hheld => by
    rw [hfree] at hheld
    cases hheld
  writer := fun control hheld => by
    rw [hfree] at hheld
    cases hheld

theorem Kept.of_held {s : Conn} {t : Thread} {control : Control}
    (hheld : s.held = some (t, control))
    (hsettled : ∀ ws, s.sock = .adapter ws → Settled (ws, control))
    (hwriter : t = .writer → control.receives = false) : Kept s where
  free := fun ws _ hfree => by
    rw [hheld] at hfree
    cases hfree
  held := fun ws t' c hsock hu => by
    rw [hheld] at hu
    cases hu
    exact hsettled ws hsock
  writer := fun c hu => by
    rw [hheld] at hu
    cases hu
    exact hwriter rfl

theorem Sock.settled_recvInto {sock : Sock} (h : ∀ ws, sock = .adapter ws → ws.Clear) (room : ℕ) :
    ∀ ws, (sock.recvInto room).1 = .adapter ws → Settled (ws, (sock.recvInto room).2) := by
  match sock with
  | .plain => exact nofun
  | .prepended [] => exact nofun
  | .prepended (_ :: _) => exact nofun
  | .adapter ws =>
    intro ws' hsock
    cases hsock
    exact WsSocket.settled_recvInto (h ws rfl) room

theorem Sock.receives_send (sock : Sock) (view : Bytes) : (sock.send view).receives = false := by
  match sock with
  | .plain => rfl
  | .prepended _ => rfl
  | .adapter _ => rfl

theorem Sock.send_ne_wsRecv (sock : Sock) (view : Bytes) (room : ℕ) :
    sock.send view ≠ .wsRecv room := by
  match sock with
  | .plain => exact nofun
  | .prepended _ => exact nofun
  | .adapter _ => exact nofun

/-- **One step** that hides nothing. -/
theorem Kept.step {s u : Conn} {a : Action} (hs : Kept s) (hhiding : NoHiding s a)
    (h : machine.step s a = some u) : Kept u := by
  match a, Conn.step_cases h with
  | _, .move hsock hheld hlate hwants =>
    constructor
    · rw [hsock, hheld]
      exact hs.free
    · rw [hsock, hheld]
      exact hs.held
    · rw [hheld]
      exact hs.writer
  | _, .recvInto hfree hreader =>
    exact .of_held rfl (Sock.settled_recvInto (fun ws hsock => hs.free ws hsock hfree) _) nofun
  | _, .send hfree hwriter =>
    exact .of_held rfl
      (fun ws hsock => (hs.free ws hsock hfree).settled (s.sock.send_ne_wsRecv _))
      fun _ => s.sock.receives_send _
  | _, .attempt t control control' o sock hheld hattempt =>
    have hattempted := attempted_of_attempt hattempt
    refine .of_held rfl ?_ ?_
    · exact hattempted.settled (fun ws hbefore => hs.held ws t control hbefore hheld)
        fun ws bytes ho hbefore => hhiding ws bytes (ho ▸ rfl) hbefore
    · rintro rfl
      exact hattempted.receives (hs.writer control hheld)
  | _, .release t control hheld hended hfree hsock hlate hwants =>
    refine .of_free hfree fun ws hu => ?_
    rw [hsock] at hu
    refine (hs.held ws t control hu hheld).clear ?_
    match control with
    | .returned _ => rfl
    | .raised _ => rfl

/-- **Readiness** right after the upgrade is a matter of what came with the request, and if there is
no complete frame in that, of what every read brings. -/
theorem ready_of_run {sha1 : Bytes → Bytes} {sent : Bool} {src rest : Source} {ws : WsSocket}
    (hsniff : (sniffAndWrap sha1 sent src).result = some (.adapter ws, rest)) :
    (Ready (.new (.adapter ws)) ↔ ¬ Complete ws.rawBuf) ∧
      (¬ Complete ws.rawBuf → ∀ as s, machine.Along NoHiding (.new (.adapter ws)) as →
        machine.run (.new (.adapter ws)) as = some s → Ready s) := by
  have hnew := (sniffAndWrap_ws hsniff).1
  constructor
  · constructor
    · intro hready hcomplete
      have hpending := hready ws rfl nofun (.inl hcomplete)
      rw [hnew] at hpending
      cases hpending
    · exact fun hclear => (kept_new hclear).ready
  · intro hclear as s halong hrun
    exact (halong.invariant (fun _ _ _ => Kept.step) hrun (kept_new hclear)).ready

/-- An upgrade request. -/
def request : Bytes :=
  Ws.asBytes ("GET / HTTP/1.1\r\nUpgrade: websocket\r\nConnection: Upgrade\r\n".toList ++
    "Sec-WebSocket-Version: 13\r\nSec-WebSocket-Key: dGhlIHNhbXBsZSBub25jZQ==\r\n\r\n".toList)

/-- A binary frame with one byte of payload. -/
def oneByte : Bytes := [0x82, 0x81, 0, 0, 0, 0, 65]

/-- A binary frame with three bytes of payload. -/
def threeBytes : Bytes := [0x82, 0x83, 0, 0, 0, 0, 65, 66, 67]

/-- Behind the request there are the first bytes of a frame. The reader wants two bytes, and is
given what is missing of the frame and the first byte of the next one. It takes its two bytes and
lets go of the lock, and the third is still in `_out_buf`. -/
theorem ready_of_run_upgraded :
    ∃ ws rest s,
      (sniffAndWrap (fun _ => []) true (Source.putBack (request ++ threeBytes.take 3) [])).result
        = some (.adapter ws, rest) ∧
      Ready (.new (.adapter ws)) ∧
      machine.run (.new (.adapter ws))
        [.read 2, .checkReader false, .poll true, .acquire .reader,
          .attempt (.received (threeBytes.drop 3 ++ [0x82])), .release] = some s ∧
      s.held = none ∧ s.sock = .adapter ⟨[0x82], [67], false, false⟩ ∧ s.sock.pending = true := by
  have hsniff : (sniffAndWrap (fun _ => []) true
      (Source.putBack (request ++ threeBytes.take 3) [])).result
        = some (.adapter (.new (threeBytes.take 3)), []) := by
    decide +kernel
  have hclear : ¬ Complete (WsSocket.new (threeBytes.take 3)).rawBuf := by decide
  have hruns : (machine.run (.new (.adapter (.new (threeBytes.take 3))))
      [.read 2, .checkReader false, .poll true, .acquire .reader,
        .attempt (.received (threeBytes.drop 3 ++ [0x82])), .release]).map
          (fun s => (s.sock, s.held)) = some (.adapter ⟨[0x82], [67], false, false⟩, none) := by
    decide +kernel
  obtain ⟨s, hrun, hpair⟩ := Option.map_eq_some_iff.mp hruns
  obtain ⟨hsock, hheld⟩ := Prod.mk.inj hpair
  have hready := ready_of_run hsniff
  have hshows : ¬ Hides (threeBytes ++ [0x82]) := by
    have hparse : parseClientFrame (threeBytes ++ [0x82])
        = .ok (some (Ws.opBin, [65, 66, 67], 9)) := by
      decide
    rw [hides_of_frame hparse, if_pos (by decide)]
    exact not_hides (by decide)
  have hno : ∀ {s : Conn} {a : Action}, (∀ bytes, a ≠ .attempt (.received bytes)) → NoHiding s a :=
    fun h _ bytes heq => absurd heq (h bytes)
  have halong : machine.Along NoHiding (.new (.adapter (.new (threeBytes.take 3))))
      [.read 2, .checkReader false, .poll true, .acquire .reader,
        .attempt (.received (threeBytes.drop 3 ++ [0x82])), .release] := by
    refine .cons_of_step (hno (by simp)) rfl (.cons_of_step (hno (by simp)) rfl
      (.cons_of_step (hno (by simp)) rfl (.cons_of_step (hno (by simp)) rfl
        ⟨fun ws bytes haction hadapter => ?_, fun _ _ => ⟨hno (by simp), fun _ _ => trivial⟩⟩)))
    obtain rfl : threeBytes.drop 3 ++ [0x82] = bytes :=
      Outcome.received.inj (Action.attempt.inj haction)
    have hwaits : ((Sock.adapter (.new (threeBytes.take 3))).recvInto 2).1
        = .adapter (.new (threeBytes.take 3)) := by
      decide +kernel
    obtain rfl : WsSocket.new (threeBytes.take 3) = ws :=
      Sock.adapter.inj (hwaits.symm.trans hadapter)
    exact hshows
  refine ⟨_, _, s, hsniff, hready.1.mpr hclear, hrun, hheld, hsock, ?_⟩
  exact hready.2 hclear _ s halong hrun _ hsock (fun control hreader => by simp [hheld] at hreader)
    (.inr (by simp))

/-- A client that sends a frame together with its request, and one that sends a frame behind its
Close. -/
theorem not_ready :
    (∃ ws rest, (sniffAndWrap (fun _ => []) true (Source.putBack (request ++ oneByte) [])).result
        = some (.adapter ws, rest) ∧ ¬ Ready (.new (.adapter ws))) ∧
      ∃ s, machine.run (.new (.adapter (.new [])))
          [.read 4, .checkReader false, .poll true, .acquire .reader,
            .attempt (.received ([0x88, 0x80, 0, 0, 0, 0] ++ oneByte)), .attempt (.sent 4),
            .release] = some s ∧ ¬ Ready s := by
  have hcomplete : Complete oneByte := by decide
  constructor
  · refine ⟨.new oneByte, [], by decide +kernel, fun hready => ?_⟩
    have hpending := hready _ rfl nofun (.inl hcomplete)
    cases hpending
  · have hrun : (machine.run (.new (.adapter (.new [])))
        [.read 4, .checkReader false, .poll true, .acquire .reader,
          .attempt (.received ([0x88, 0x80, 0, 0, 0, 0] ++ oneByte)), .attempt (.sent 4),
          .release]).map (fun s => (s.sock, s.held))
        = some (.adapter ⟨oneByte, [], true, true⟩, none) := by
      decide +kernel
    obtain ⟨s, hs, hpair⟩ := Option.map_eq_some_iff.mp hrun
    obtain ⟨hsock, hheld⟩ := Prod.mk.inj hpair
    refine ⟨s, hs, fun hready => ?_⟩
    have hpending := hready _ hsock (fun _ hreader => by rw [hheld] at hreader; cases hreader)
      (.inl hcomplete)
    rw [hsock] at hpending
    cases hpending

end BlockingWs

end Python

end Aiomsg
