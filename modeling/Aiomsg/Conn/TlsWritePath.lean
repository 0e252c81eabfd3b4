import Aiomsg.Lib.LockOrder
import Aiomsg.Lib.Machine
import Aiomsg.Protocol.Envelope
import Mathlib.Data.Prod.Lex
import Mathlib.Logic.Function.Basic

/-!
# The TLS write path

The two threads of a TLS connection in `rust-lib-sync/src/conn.rs`. `tls_writer` sends each frame
with `write_pending`. `tls_reader` decrypts what comes from the socket, and calls `write_pending`
too if rustls has something to say on its own account. Between them are two locks: `write_sock`,
which `write_pending` holds from beginning to end, and `conn`, which it holds inside that while it
makes and extracts ciphertext, and which the reader holds alone while it decrypts.

rustls is not part of the repository. It has a buffer of ciphertext that is not extracted yet, and
what it puts there is arbitrary. Of `writer().write` it is assumed that it accepts something if that
buffer is empty, of `write_tls` that it moves at least a byte, and of both that they do not fail.
The socket takes as many bytes as it has room for; when it has none, who writes to it is parked
until the peer reads. A write to it may also fail.

The threads are interleaved after each call to a lock, to rustls and to the socket.

## Scope

Plaintext that the reader gets out, and what becomes of it, is not here. Nor is anything said of
what the ciphertext means: it is a sequence of bytes in the order in which rustls made them, and the
question is whether the socket sees it in that order and whether the two threads can block each
other.

Time does not occur, so a peer that never reads parks the writer for ever. That is no deadlock in
the sense of the lock order, since nobody who is waited for is waiting.

## Main definitions

* `Tls` — both threads, the locks, rustls's buffer and the socket
* `Tls.writePending`, `Tls.step` — what a thread does next
* `Tls.Inv` — who holds which lock, and where each byte of ciphertext is

## Main results

* `Tls.tls_write_path`
-/

namespace Aiomsg

namespace Conn

open Protocol

inductive Thread where
  | reader
  | writer
deriving DecidableEq

inductive Lock where
  | writeSock
  | conn
deriving DecidableEq

/-- Where `write_pending` is. -/
inductive Call where
  | lockSock (frame : Option Bytes)
  | lockConn (frame : Option Bytes)
  /-- At the head of the loop over the frame, of which `left` is to be encrypted. -/
  | encrypt (left cipher : Bytes)
  /-- In the loop inside that loop. -/
  | makeRoom (left cipher : Bytes)
  /-- In the loop behind it. -/
  | extract (cipher : Bytes)
  /-- `conn` is released. In `write_all`, with this to write. -/
  | write (cipher : Bytes)
  | returned (ok : Bool)

/-- What decides how `write_pending` goes on. -/
inductive CallAct where
  /-- Nothing from outside. -/
  | go
  /-- `writer().write` encrypts the first `k` bytes into `out`. -/
  | accept (k : ℕ) (out : Bytes)
  /-- `write_tls` moves `k` bytes. -/
  | writeTls (k : ℕ)
  /-- The socket takes `k` bytes. -/
  | writeSock (k : ℕ)
  | fail

/-- Where a thread is. -/
inductive Pc where
  /-- `tls_reader`, before `drain_plaintext`. -/
  | handOver
  /-- `tls_reader`, in `read_sock.read`. -/
  | read
  /-- About to lock `conn`: for `drain_plaintext`, or to decrypt so many bytes. -/
  | enter (chunk : Option ℕ)
  /-- In the loop of `tls_reader` around `read_tls`, with so many bytes left. -/
  | decrypt (left : ℕ)
  /-- At `needs_flush`. -/
  | leave
  /-- At `forward_frames`. -/
  | forward
  /-- `tls_writer`, in `recv_timeout`. -/
  | recv
  | call (c : Call)
  | ended

structure Tls where
  pc : Thread → Pc
  writeSock : Option Thread
  conn : Option Thread
  /-- The ciphertext that rustls holds. -/
  outbound : Bytes
  /-- All ciphertext that rustls has made, in this order. -/
  produced : Bytes
  /-- What `write_tls` has moved. -/
  extracted : Bytes
  /-- What the socket has taken. -/
  wire : Bytes
  /-- How many bytes the socket takes before the peer reads again. -/
  room : ℕ
  /-- A write to the socket has failed. -/
  failed : Bool

inductive Act where
  | call (t : Thread) (a : CallAct)
  /-- `tls_writer`: a frame from the broker, or a heartbeat. -/
  | recv (frame : Bytes)
  | disconnect
  /-- `tls_writer`, after `write_pending`. -/
  | loop
  /-- `tls_reader`: what `forward_frames` returns. -/
  | forward (ok : Bool)
  /-- `tls_reader`: so many bytes from the socket, or its end. -/
  | read (n : Option ℕ)
  | lock
  /-- What `read_tls` returns, `none` for an error, and what rustls has to say then. -/
  | feed (fed : Option ℕ) (control : Bytes)
  /-- `process_new_packets` fails. -/
  | fatal (control : Bytes)
  | leave
  /-- `tls_reader`, after `write_pending`. -/
  | flushed
  /-- The peer reads from its socket. -/
  | peer (k : ℕ)

namespace Tls

/-- The connection after the handshake, with what that has left in rustls's buffer. -/
def start (outbound : Bytes) (room : ℕ) : Tls where
  pc
    | .reader => .handOver
    | .writer => .recv
  writeSock := none
  conn := none
  outbound := outbound
  produced := outbound
  extracted := []
  wire := []
  room := room
  failed := false

def goTo (s : Tls) (t : Thread) (pc : Pc) : Tls := { s with pc := Function.update s.pc t pc }

def wantsWrite (s : Tls) : Bool := !s.outbound.isEmpty

/-- rustls makes ciphertext. -/
def produce (s : Tls) (out : Bytes) : Tls :=
  { s with outbound := s.outbound ++ out, produced := s.produced ++ out }

/-- `write_tls`, with `k` bytes. -/
def writeTls (s : Tls) (k : ℕ) : Tls :=
  { s with outbound := s.outbound.drop k, extracted := s.extracted ++ s.outbound.take k }

/-- `write_pending`. -/
def writePending (s : Tls) (t : Thread) : Call → CallAct → Option Tls
  | .lockSock frame, .go =>
    if s.writeSock = none then
      some ({ s with writeSock := some t }.goTo t (.call (.lockConn frame)))
    else none
  | .lockConn frame, .go =>
    if s.conn = none then
      some ({ s with conn := some t }.goTo t
        (.call (match frame with
          | some frame => .encrypt frame []
          | none => .extract [])))
    else none
  | .encrypt left cipher, .go =>
    if left = [] then some (s.goTo t (.call (.extract cipher))) else none
  | .encrypt left cipher, .accept k out =>
    if left ≠ [] ∧ k ≤ left.length ∧ (s.wantsWrite = false → k ≠ 0) then
      some ((s.produce out).goTo t (.call (.makeRoom (left.drop k) cipher)))
    else none
  | .makeRoom left cipher, .go =>
    if s.wantsWrite = false then some (s.goTo t (.call (.encrypt left cipher))) else none
  | .makeRoom left cipher, .writeTls k =>
    if k ≠ 0 ∧ k ≤ s.outbound.length then
      some ((s.writeTls k).goTo t (.call (.makeRoom left (cipher ++ s.outbound.take k))))
    else none
  | .extract cipher, .go =>
    if s.wantsWrite = false then some ({ s with conn := none }.goTo t (.call (.write cipher)))
    else none
  | .extract cipher, .writeTls k =>
    if k ≠ 0 ∧ k ≤ s.outbound.length then
      some ((s.writeTls k).goTo t (.call (.extract (cipher ++ s.outbound.take k))))
    else none
  | .write cipher, .go =>
    if cipher = [] then some ({ s with writeSock := none }.goTo t (.call (.returned true)))
    else none
  | .write cipher, .writeSock k =>
    if k ≠ 0 ∧ k ≤ cipher.length ∧ k ≤ s.room then
      some ({ s with wire := s.wire ++ cipher.take k, room := s.room - k }.goTo t
        (.call (.write (cipher.drop k))))
    else none
  | .write cipher, .fail =>
    if cipher ≠ [] then
      some ({ s with writeSock := none, failed := true }.goTo t (.call (.returned false)))
    else none
  | _, _ => none

def step (s : Tls) : Act → Option Tls
  | .call t a =>
    match s.pc t with
    | .call c => s.writePending t c a
    | _ => none
  | .recv frame =>
    match s.pc .writer with
    | .recv => some (s.goTo .writer (.call (.lockSock (some frame))))
    | _ => none
  | .disconnect =>
    match s.pc .writer with
    | .recv => some (s.goTo .writer .ended)
    | _ => none
  | .loop =>
    match s.pc .writer with
    | .call (.returned ok) => some (s.goTo .writer (if ok then .recv else .ended))
    | _ => none
  | .forward ok =>
    match s.pc .reader with
    | .handOver => some (s.goTo .reader (if ok then .enter none else .ended))
    | .forward => some (s.goTo .reader (if ok then .read else .ended))
    | _ => none
  | .read n =>
    match s.pc .reader with
    | .read =>
      some (s.goTo .reader
        (match n with
        | some (k + 1) => .enter (some (k + 1))
        | some 0 | none => .ended))
    | _ => none
  | .lock =>
    match s.pc .reader with
    | .enter chunk =>
      if s.conn = none then
        some ({ s with conn := some .reader }.goTo .reader
          (match chunk with
          | some n => .decrypt n
          | none => .leave))
      else none
    | _ => none
  | .feed fed control =>
    match s.pc .reader with
    | .decrypt left =>
      match fed with
      -- Buffers full; drained, then retried.
      | none => some ((s.produce control).goTo .reader (.decrypt left))
      | some k =>
        if k ≤ left then
          some ((s.produce control).goTo .reader
            (if k = 0 ∨ k = left then .leave else .decrypt (left - k)))
        else none
    | _ => none
  | .fatal control =>
    match s.pc .reader with
    | .decrypt _ => some ({ s.produce control with conn := none }.goTo .reader .ended)
    | _ => none
  | .leave =>
    match s.pc .reader with
    | .leave =>
      -- The flush is after the lock has been released, and without its outcome being looked at.
      some ({ s with conn := none }.goTo .reader
        (if s.wantsWrite then .call (.lockSock none) else .forward))
    | _ => none
  | .flushed =>
    match s.pc .reader with
    | .call (.returned _) => some (s.goTo .reader .forward)
    | _ => none
  | .peer k => some { s with room := s.room + k }

end Tls

/-- Both threads, in any interleaving. -/
def tls : Machine Tls Act where
  step := Tls.step

/-! ### Who holds which lock -/

namespace Pc

/-- The thread is where `write_sock` is held. -/
def HasSock : Pc → Prop
  | .call (.lockConn _) | .call (.encrypt _ _) | .call (.makeRoom _ _) | .call (.extract _)
  | .call (.write _) => True
  | _ => False

/-- The thread is where `conn` is held. -/
def HasConn : Pc → Prop
  | .decrypt _ | .leave | .call (.encrypt _ _) | .call (.makeRoom _ _) | .call (.extract _) => True
  | _ => False

/-- The ciphertext in the local buffer. -/
def cipher : Pc → Bytes
  | .call (.encrypt _ cipher) | .call (.makeRoom _ cipher) | .call (.extract cipher)
  | .call (.write cipher) => cipher
  | _ => []

/-- The lock that the thread is about to take. -/
def waits : Pc → Option Lock
  | .call (.lockSock _) => some .writeSock
  | .enter _ | .call (.lockConn _) => some .conn
  | _ => none

/-- The thread is in `write_pending`. -/
def InCall : Pc → Prop
  | .call (.returned _) => False
  | .call _ => True
  | _ => False

/-- The thread is in a write to the socket. -/
def Writing : Pc → Prop
  | .call (.write _) => True
  | _ => False

end Pc

namespace Tls

variable {s s' : Tls} {t u : Thread} {pc : Pc}

/-- What has been extracted and is not written yet. -/
def inHand (s : Tls) : Bytes :=
  match s.writeSock with
  | some t => (s.pc t).cipher
  | none => []

/-- **The invariant.** -/
structure Inv (s : Tls) : Prop where
  sock : ∀ t, (s.pc t).HasSock ↔ s.writeSock = some t
  conn : ∀ t, (s.pc t).HasConn ↔ s.conn = some t
  produced : s.produced = s.extracted ++ s.outbound
  sent : s.failed = false → s.extracted = s.wire ++ s.inHand

theorem inv_start (outbound : Bytes) (room : ℕ) : Inv (start outbound room) where
  sock := by rintro ⟨⟩ <;> exact ⟨False.elim, nofun⟩
  conn := by rintro ⟨⟩ <;> exact ⟨False.elim, nofun⟩
  produced := rfl
  sent := fun _ => rfl

@[simp] theorem goTo_pc (s : Tls) (t : Thread) (pc : Pc) : (s.goTo t pc).pc t = pc :=
  Function.update_self ..

theorem goTo_pc_of_ne (h : u ≠ t) : (s.goTo t pc).pc u = s.pc u :=
  Function.update_of_ne h ..

/-- Who holds `write_sock` has the bytes that are not written yet. -/
theorem inHand_of_sock (h : s.writeSock = some t) : s.inHand = (s.pc t).cipher := by
  rw [inHand, h]

theorem inHand_goTo_of_sock (h : s.writeSock = some t) : (s.goTo t pc).inHand = pc.cipher := by
  have hsock : (s.goTo t pc).writeSock = some t := h
  rw [inHand_of_sock hsock, goTo_pc]

theorem inHand_goTo (h : pc.cipher = (s.pc t).cipher) : (s.goTo t pc).inHand = s.inHand := by
  cases hsock : s.writeSock with
  | none => simp [inHand, goTo, hsock]
  | some u =>
    have hgone : (s.goTo t pc).writeSock = some u := hsock
    rw [inHand_of_sock hgone, inHand_of_sock hsock]
    by_cases hu : u = t
    · rw [hu, goTo_pc, h]
    · rw [goTo_pc_of_ne hu]

/-- A lock that is taken is no other thread's, as before. -/
theorem taken_iff {lock : Option Thread} (h : lock = none) (hu : u ≠ t) :
    some t = some u ↔ lock = some u := by
  rw [h]
  exact iff_of_false (fun habsurd => hu (Option.some.inj habsurd).symm) (Option.some_ne_none u).symm

/-- A lock that is released was no other thread's. -/
theorem released_iff {lock : Option Thread} (h : lock = some t) (hu : u ≠ t) :
    none = some u ↔ lock = some u := by
  rw [h]
  exact iff_of_false (Option.some_ne_none u).symm fun habsurd => hu (Option.some.inj habsurd).symm

namespace Inv

/-- One thread moves. The locks of the other one are what they were. -/
theorem moves (h : Inv s) (hpc : s'.pc = Function.update s.pc t pc)
    (hsock : pc.HasSock ↔ s'.writeSock = some t)
    (hsocks : ∀ u, u ≠ t → (s'.writeSock = some u ↔ s.writeSock = some u))
    (hconn : pc.HasConn ↔ s'.conn = some t)
    (hconns : ∀ u, u ≠ t → (s'.conn = some u ↔ s.conn = some u))
    (hproduced : s'.produced = s'.extracted ++ s'.outbound)
    (hsent : s'.failed = false → s'.extracted = s'.wire ++ s'.inHand) : Inv s' where
  sock := by
    intro u
    rw [hpc]
    by_cases hu : u = t
    · rw [hu, Function.update_self]
      exact hsock
    · rw [Function.update_of_ne hu, hsocks u hu]
      exact h.sock u
  conn := by
    intro u
    rw [hpc]
    by_cases hu : u = t
    · rw [hu, Function.update_self]
      exact hconn
    · rw [Function.update_of_ne hu, hconns u hu]
      exact h.conn u
  produced := hproduced
  sent := hsent

variable {old : Pc}

theorem sock_of (h : Inv s) (hpc : s.pc t = old) (hsock : pc.HasSock ↔ old.HasSock) :
    pc.HasSock ↔ s.writeSock = some t := by
  rw [hsock, ← hpc]
  exact h.sock t

theorem conn_of (h : Inv s) (hpc : s.pc t = old) (hconn : pc.HasConn ↔ old.HasConn) :
    pc.HasConn ↔ s.conn = some t := by
  rw [hconn, ← hpc]
  exact h.conn t

theorem goTo (h : Inv s) (hpc : s.pc t = old) (hsock : pc.HasSock ↔ old.HasSock)
    (hconn : pc.HasConn ↔ old.HasConn) (hcipher : pc.cipher = old.cipher) : Inv (s.goTo t pc) := by
  refine h.moves rfl (h.sock_of hpc hsock) (fun _ _ => .rfl) (h.conn_of hpc hconn)
    (fun _ _ => .rfl) h.produced fun hfailed => ?_
  rw [inHand_goTo (hpc ▸ hcipher)]
  exact h.sent hfailed

theorem lockSock (h : Inv s) (hpc : s.pc t = old) (hfree : s.writeSock = none) (hsock : pc.HasSock)
    (hconn : pc.HasConn ↔ old.HasConn) (hcipher : pc.cipher = []) :
    Inv ({ s with writeSock := some t }.goTo t pc) := by
  refine h.moves rfl (iff_of_true hsock rfl) (fun _ hu => taken_iff hfree hu) (h.conn_of hpc hconn)
    (fun _ _ => .rfl) h.produced fun hfailed => ?_
  have hhand : ({ s with writeSock := some t }.goTo t pc).inHand = pc.cipher :=
    inHand_goTo_of_sock rfl
  have hnone : s.inHand = [] := by rw [inHand, hfree]
  rw [hhand, hcipher, ← hnone]
  exact h.sent hfailed

theorem lockConn (h : Inv s) (hpc : s.pc t = old) (hfree : s.conn = none)
    (hsock : pc.HasSock ↔ old.HasSock) (hconn : pc.HasConn) (hcipher : pc.cipher = old.cipher) :
    Inv ({ s with conn := some t }.goTo t pc) := by
  refine h.moves rfl (h.sock_of hpc hsock) (fun _ _ => .rfl) (iff_of_true hconn rfl)
    (fun _ hu => taken_iff hfree hu) h.produced fun hfailed => ?_
  have hhand : ({ s with conn := some t }.goTo t pc).inHand = s.inHand :=
    inHand_goTo (hpc ▸ hcipher)
  rw [hhand]
  exact h.sent hfailed

theorem unlockConn (h : Inv s) (hpc : s.pc t = old) (hheld : old.HasConn)
    (hsock : pc.HasSock ↔ old.HasSock) (hconn : ¬ pc.HasConn) (hcipher : pc.cipher = old.cipher) :
    Inv ({ s with conn := none }.goTo t pc) := by
  have hlock : s.conn = some t := (h.conn t).mp (hpc ▸ hheld)
  refine h.moves rfl (h.sock_of hpc hsock) (fun _ _ => .rfl)
    (iff_of_false hconn (Option.some_ne_none t).symm) (fun _ hu => released_iff hlock hu)
    h.produced fun hfailed => ?_
  have hhand : ({ s with conn := none }.goTo t pc).inHand = s.inHand :=
    inHand_goTo (hpc ▸ hcipher)
  rw [hhand]
  exact h.sent hfailed

theorem produce (h : Inv s) (out : Bytes) : Inv (s.produce out) where
  sock := h.sock
  conn := h.conn
  produced := by
    show s.produced ++ out = s.extracted ++ (s.outbound ++ out)
    rw [h.produced, List.append_assoc]
  sent := h.sent

theorem writeTls {k : ℕ} (h : Inv s) (hpc : s.pc t = old) (hheld : old.HasSock) (hsock : pc.HasSock)
    (hconn : pc.HasConn ↔ old.HasConn) (hcipher : pc.cipher = old.cipher ++ s.outbound.take k) :
    Inv ((s.writeTls k).goTo t pc) := by
  have hlock : s.writeSock = some t := (h.sock t).mp (hpc ▸ hheld)
  refine h.moves rfl (iff_of_true hsock hlock) (fun _ _ => .rfl) (h.conn_of hpc hconn)
    (fun _ _ => .rfl) ?_ fun hfailed => ?_
  · show s.produced = s.extracted ++ s.outbound.take k ++ s.outbound.drop k
    rw [List.append_assoc, List.take_append_drop]
    exact h.produced
  · have hhand : ((s.writeTls k).goTo t pc).inHand = pc.cipher := inHand_goTo_of_sock hlock
    show s.extracted ++ s.outbound.take k = s.wire ++ ((s.writeTls k).goTo t pc).inHand
    rw [hhand, hcipher, h.sent hfailed, inHand_of_sock hlock, hpc, List.append_assoc]

theorem send {sent : Bytes} {room : ℕ} (h : Inv s) (hpc : s.pc t = old) (hheld : old.HasSock)
    (hsock : pc.HasSock) (hconn : pc.HasConn ↔ old.HasConn)
    (hcipher : old.cipher = sent ++ pc.cipher) :
    Inv ({ s with wire := s.wire ++ sent, room := room }.goTo t pc) := by
  have hlock : s.writeSock = some t := (h.sock t).mp (hpc ▸ hheld)
  refine h.moves rfl (iff_of_true hsock hlock) (fun _ _ => .rfl) (h.conn_of hpc hconn)
    (fun _ _ => .rfl) h.produced fun hfailed => ?_
  have hhand : ({ s with wire := s.wire ++ sent, room := room }.goTo t pc).inHand = pc.cipher :=
    inHand_goTo_of_sock hlock
  rw [hhand]
  show s.extracted = s.wire ++ sent ++ pc.cipher
  rw [List.append_assoc, ← hcipher, ← hpc, ← inHand_of_sock hlock]
  exact h.sent hfailed

/-- `write_pending` returns, with everything written unless the socket has failed. -/
theorem unlockSock {failed : Bool} (h : Inv s) (hpc : s.pc t = old) (hheld : old.HasSock)
    (hsock : ¬ pc.HasSock) (hconn : pc.HasConn ↔ old.HasConn)
    (hdone : failed = false → s.failed = false ∧ old.cipher = []) :
    Inv ({ s with writeSock := none, failed := failed }.goTo t pc) := by
  have hlock : s.writeSock = some t := (h.sock t).mp (hpc ▸ hheld)
  refine h.moves rfl (iff_of_false hsock (Option.some_ne_none t).symm)
    (fun _ hu => released_iff hlock hu) (h.conn_of hpc hconn) (fun _ _ => .rfl) h.produced
    fun hfailed => ?_
  obtain ⟨hok, hnone⟩ := hdone hfailed
  have hsent := h.sent hok
  rw [inHand_of_sock hlock, hpc, hnone] at hsent
  exact hsent

/-! ### Steps -/

theorem writePending (h : Inv s) {c : Call} (hpc : s.pc t = .call c) {a : CallAct}
    (hstep : s.writePending t c a = some s') : Inv s' := by
  cases c with
  | lockSock frame =>
    cases a with
    | go =>
      obtain ⟨hfree, ⟨⟩⟩ := Option.ite_none_right_eq_some.mp hstep
      exact h.lockSock hpc hfree trivial .rfl rfl
    | _ => cases hstep
  | lockConn frame =>
    cases a with
    | go =>
      obtain ⟨hfree, ⟨⟩⟩ := Option.ite_none_right_eq_some.mp hstep
      cases frame with
      | some frame => exact h.lockConn hpc hfree .rfl trivial rfl
      | none => exact h.lockConn hpc hfree .rfl trivial rfl
    | _ => cases hstep
  | encrypt left cipher =>
    cases a with
    | go =>
      obtain ⟨-, ⟨⟩⟩ := Option.ite_none_right_eq_some.mp hstep
      exact h.goTo hpc .rfl .rfl rfl
    | accept k out =>
      obtain ⟨-, ⟨⟩⟩ := Option.ite_none_right_eq_some.mp hstep
      exact (h.produce out).goTo hpc .rfl .rfl rfl
    | _ => cases hstep
  | makeRoom left cipher =>
    cases a with
    | go =>
      obtain ⟨-, ⟨⟩⟩ := Option.ite_none_right_eq_some.mp hstep
      exact h.goTo hpc .rfl .rfl rfl
    | writeTls k =>
      obtain ⟨-, ⟨⟩⟩ := Option.ite_none_right_eq_some.mp hstep
      exact h.writeTls hpc trivial trivial .rfl rfl
    | _ => cases hstep
  | extract cipher =>
    cases a with
    | go =>
      obtain ⟨-, ⟨⟩⟩ := Option.ite_none_right_eq_some.mp hstep
      exact h.unlockConn hpc trivial .rfl id rfl
    | writeTls k =>
      obtain ⟨-, ⟨⟩⟩ := Option.ite_none_right_eq_some.mp hstep
      exact h.writeTls hpc trivial trivial .rfl rfl
    | _ => cases hstep
  | write cipher =>
    cases a with
    | go =>
      obtain ⟨hnil, ⟨⟩⟩ := Option.ite_none_right_eq_some.mp hstep
      exact h.unlockSock hpc trivial id .rfl fun hok => ⟨hok, hnil⟩
    | writeSock k =>
      obtain ⟨-, ⟨⟩⟩ := Option.ite_none_right_eq_some.mp hstep
      exact h.send hpc trivial trivial .rfl (List.take_append_drop k cipher).symm
    | fail =>
      obtain ⟨-, ⟨⟩⟩ := Option.ite_none_right_eq_some.mp hstep
      exact h.unlockSock hpc trivial id .rfl nofun
    | _ => cases hstep
  | returned ok => cases a <;> cases hstep

/-- Every step keeps the invariant. -/
theorem step (h : Inv s) {a : Act} (hstep : s.step a = some s') : Inv s' := by
  cases a with
  | call t a =>
    simp only [Tls.step] at hstep
    split at hstep
    case h_1 c hpc => exact h.writePending hpc hstep
    case h_2 => cases hstep
  | recv frame =>
    simp only [Tls.step] at hstep
    split at hstep
    case h_1 hpc =>
      cases hstep
      exact h.goTo hpc .rfl .rfl rfl
    case h_2 => cases hstep
  | disconnect =>
    simp only [Tls.step] at hstep
    split at hstep
    case h_1 hpc =>
      cases hstep
      exact h.goTo hpc .rfl .rfl rfl
    case h_2 => cases hstep
  | loop =>
    simp only [Tls.step] at hstep
    split at hstep
    case h_1 ok hpc =>
      cases hstep
      cases ok with
      | true => exact h.goTo hpc .rfl .rfl rfl
      | false => exact h.goTo hpc .rfl .rfl rfl
    case h_2 => cases hstep
  | forward ok =>
    simp only [Tls.step] at hstep
    split at hstep
    case h_1 hpc | h_2 hpc =>
      cases hstep
      cases ok with
      | true => exact h.goTo hpc .rfl .rfl rfl
      | false => exact h.goTo hpc .rfl .rfl rfl
    case h_3 => cases hstep
  | read n =>
    simp only [Tls.step] at hstep
    split at hstep
    case h_1 hpc =>
      cases hstep
      split <;> exact h.goTo hpc .rfl .rfl rfl
    case h_2 => cases hstep
  | lock =>
    simp only [Tls.step] at hstep
    split at hstep
    case h_1 chunk hpc =>
      obtain ⟨hfree, ⟨⟩⟩ := Option.ite_none_right_eq_some.mp hstep
      cases chunk with
      | some n => exact h.lockConn hpc hfree .rfl trivial rfl
      | none => exact h.lockConn hpc hfree .rfl trivial rfl
    case h_2 => cases hstep
  | feed fed control =>
    simp only [Tls.step] at hstep
    split at hstep
    case h_1 left hpc =>
      cases fed with
      | none =>
        cases hstep
        exact (h.produce control).goTo hpc .rfl .rfl rfl
      | some k =>
        obtain ⟨-, ⟨⟩⟩ := Option.ite_none_right_eq_some.mp hstep
        split <;> exact (h.produce control).goTo hpc .rfl .rfl rfl
    case h_2 => cases hstep
  | fatal control =>
    simp only [Tls.step] at hstep
    split at hstep
    case h_1 left hpc =>
      cases hstep
      exact (h.produce control).unlockConn hpc trivial .rfl id rfl
    case h_2 => cases hstep
  | leave =>
    simp only [Tls.step] at hstep
    split at hstep
    case h_1 hpc =>
      cases hstep
      split <;> exact h.unlockConn hpc trivial .rfl id rfl
    case h_2 => cases hstep
  | flushed =>
    simp only [Tls.step] at hstep
    split at hstep
    case h_1 hpc =>
      cases hstep
      exact h.goTo hpc .rfl .rfl rfl
    case h_2 => cases hstep
  | peer k =>
    cases hstep
    exact ⟨h.sock, h.conn, h.produced, h.sent⟩

end Inv

/-! ### The locks -/

/-- Both locks, as held and as waited for. -/
def locking (s : Tls) : Locking Thread Lock where
  holds t
    | .writeSock => s.writeSock = some t
    | .conn => s.conn = some t
  waits t := (s.pc t).waits

theorem not_hasConn_of_waits {l : Lock} (h : pc.waits = some l) : ¬ pc.HasConn := by
  intro hconn
  cases pc with
  | call c => cases c <;> first | exact hconn.elim | cases h
  | decrypt left => cases h
  | leave => cases h
  | _ => exact hconn.elim

theorem not_hasSock_of_waits (h : pc.waits = some .writeSock) : ¬ pc.HasSock := by
  intro hsock
  cases pc with
  | call c => cases c <;> first | exact hsock.elim | cases h
  | _ => exact hsock.elim

theorem not_writing_of_hasConn (h : pc.HasConn) : ¬ pc.Writing := by
  intro hwriting
  cases pc with
  | call c => cases c <;> first | exact hwriting.elim | exact h.elim
  | _ => exact hwriting.elim

theorem inCall_of_hasSock (h : pc.HasSock) : pc.InCall := by
  cases pc with
  | call c => cases c <;> first | exact h.elim | trivial
  | _ => exact h.elim

/-- `write_sock` comes before `conn`. -/
def rank : Lock → ℕ
  | .writeSock => 0
  | .conn => 1

theorem Inv.ordered (h : Inv s) : s.locking.Ordered rank := by
  intro t l hl k hk
  have hconn : ¬ (s.pc t).HasConn := not_hasConn_of_waits hl
  cases k with
  | conn => exact absurd ((h.conn t).mpr hk) hconn
  | writeSock =>
    cases l with
    | conn => exact Nat.zero_lt_one
    | writeSock => exact absurd ((h.sock t).mpr hk) (not_hasSock_of_waits hl)

/-- A thread about to enter its decrypt section waits for `conn` only if the other one is just
making or extracting ciphertext. -/
theorem Inv.free_of_writing (h : Inv s) {chunk : Option ℕ} (hreader : s.pc .reader = .enter chunk)
    (hwriter : (s.pc .writer).Writing) : s.conn = none := by
  cases hconn : s.conn with
  | none => rfl
  | some t =>
    have hheld : (s.pc t).HasConn := (h.conn t).mpr hconn
    cases t with
    | reader =>
      rw [hreader] at hheld
      exact hheld.elim
    | writer => exact absurd hwriter (not_writing_of_hasConn hheld)

/-! ### `conn` is released -/

/-- A step of `write_pending` with `conn` held before and after it. -/
def Extracts (t : Thread) (s' s : Tls) : Prop :=
  (s.pc t).HasConn ∧ (s'.pc t).HasConn ∧ ∃ a, s.step (.call t a) = some s'

/-- What is left to do with `conn` held. -/
def workLeft (s : Tls) (t : Thread) : ℕ ×ₗ ℕ ×ₗ ℕ :=
  match s.pc t with
  -- Only here may `writer().write` accept nothing, and then there is something to extract.
  | .call (.encrypt left _) =>
    toLex (left.length + 1, toLex (if s.wantsWrite then 2 else 0, s.outbound.length))
  | .call (.makeRoom left _) => toLex (left.length + 1, toLex (1, s.outbound.length))
  | _ => toLex (0, toLex (0, s.outbound.length))

theorem lt_of_left {a a' : ℕ} (h : a < a') (b b' : ℕ ×ₗ ℕ) :
    (toLex (a, b) : ℕ ×ₗ ℕ ×ₗ ℕ) < toLex (a', b') :=
  Prod.Lex.toLex_lt_toLex.mpr (.inl h)

theorem lt_of_middle (a : ℕ) {b b' : ℕ} (h : b < b') (c c' : ℕ) :
    (toLex (a, toLex (b, c)) : ℕ ×ₗ ℕ ×ₗ ℕ) < toLex (a, toLex (b', c')) :=
  Prod.Lex.toLex_lt_toLex.mpr (.inr ⟨rfl, Prod.Lex.toLex_lt_toLex.mpr (.inl h)⟩)

theorem lt_of_right (a b : ℕ) {c c' : ℕ} (h : c < c') :
    (toLex (a, toLex (b, c)) : ℕ ×ₗ ℕ ×ₗ ℕ) < toLex (a, toLex (b, c')) :=
  Prod.Lex.toLex_lt_toLex.mpr (.inr ⟨rfl, Prod.Lex.toLex_lt_toLex.mpr (.inr ⟨rfl, h⟩)⟩)

/-- `write_tls` leaves less in rustls's buffer. -/
theorem length_writeTls {k : ℕ} (hk : k ≠ 0 ∧ k ≤ s.outbound.length) (t : Thread) (pc : Pc) :
    ((s.writeTls k).goTo t pc).outbound.length < s.outbound.length := by
  show (s.outbound.drop k).length < s.outbound.length
  rw [List.length_drop]
  omega

theorem workLeft_lt (h : Extracts t s' s) : s'.workLeft t < s.workLeft t := by
  obtain ⟨hconn, hconn', a, hstep⟩ := h
  simp only [Tls.step] at hstep
  split at hstep
  case h_2 => cases hstep
  case h_1 c hpc =>
    simp only [workLeft, hpc]
    cases c with
    | encrypt left cipher =>
      cases a with
      | go =>
        obtain ⟨-, ⟨⟩⟩ := Option.ite_none_right_eq_some.mp hstep
        simp only [goTo_pc]
        exact lt_of_left (Nat.succ_pos _) _ _
      | accept k out =>
        obtain ⟨⟨hleft, hk, hsome⟩, ⟨⟩⟩ := Option.ite_none_right_eq_some.mp hstep
        simp only [goTo_pc]
        by_cases hzero : k = 0
        · have hwants : s.wantsWrite = true := by
            by_contra hnot
            exact hsome (Bool.not_eq_true _ ▸ hnot) hzero
          rw [hzero, List.drop_zero, if_pos hwants]
          exact lt_of_middle _ Nat.one_lt_two _ _
        · have hpos := List.length_pos_of_ne_nil hleft
          refine lt_of_left ?_ _ _
          rw [List.length_drop]
          omega
      | _ => cases hstep
    | makeRoom left cipher =>
      cases a with
      | go =>
        obtain ⟨hwants, ⟨⟩⟩ := Option.ite_none_right_eq_some.mp hstep
        have hwants' : (s.goTo t (.call (.encrypt left cipher))).wantsWrite = false := hwants
        simp only [goTo_pc, hwants']
        exact lt_of_middle _ Nat.one_pos _ _
      | writeTls k =>
        obtain ⟨hk, ⟨⟩⟩ := Option.ite_none_right_eq_some.mp hstep
        simp only [goTo_pc]
        exact lt_of_right _ _ (length_writeTls hk t _)
      | _ => cases hstep
    | extract cipher =>
      cases a with
      | go =>
        obtain ⟨-, ⟨⟩⟩ := Option.ite_none_right_eq_some.mp hstep
        rw [goTo_pc] at hconn'
        exact hconn'.elim
      | writeTls k =>
        obtain ⟨hk, ⟨⟩⟩ := Option.ite_none_right_eq_some.mp hstep
        simp only [goTo_pc]
        exact lt_of_right _ _ (length_writeTls hk t _)
      | _ => cases hstep
    | lockSock | lockConn | write | returned =>
      rw [hpc] at hconn
      exact hconn.elim

/-- **`conn` is released.** However much `writer().write` accepts and `write_tls` moves at a time,
`write_pending` does not stay in its loops for ever. -/
theorem extracts_wf (t : Thread) : WellFounded (Extracts t) :=
  Subrelation.wf workLeft_lt (InvImage.wf (fun s : Tls => s.workLeft t) wellFounded_lt)

/-- In these loops there is always something that it can do. -/
theorem exists_extracts {c : Call} (hpc : s.pc t = .call c) (hconn : (s.pc t).HasConn) :
    ∃ a s', s.step (.call t a) = some s' := by
  rw [hpc] at hconn
  simp only [Tls.step, hpc]
  cases c with
  | encrypt left cipher =>
    by_cases hleft : left = []
    · exact ⟨.go, _, if_pos hleft⟩
    · exact ⟨.accept left.length [], _, if_pos ⟨hleft, le_rfl, fun _ h =>
        hleft (List.length_eq_zero_iff.mp h)⟩⟩
  | makeRoom left cipher =>
    by_cases hwants : s.wantsWrite = false
    · exact ⟨.go, _, if_pos hwants⟩
    · refine ⟨.writeTls s.outbound.length, _, if_pos ⟨fun h => hwants ?_, le_rfl⟩⟩
      rw [wantsWrite, List.length_eq_zero_iff.mp h]
      rfl
  | extract cipher =>
    by_cases hwants : s.wantsWrite = false
    · exact ⟨.go, _, if_pos hwants⟩
    · refine ⟨.writeTls s.outbound.length, _, if_pos ⟨fun h => hwants ?_, le_rfl⟩⟩
      rw [wantsWrite, List.length_eq_zero_iff.mp h]
      rfl
  | lockSock | lockConn | write | returned => exact hconn.elim

end Tls

/-- **The TLS write path.** In every interleaving of the reader and the writer the socket gets a
prefix of the ciphertext as rustls makes it, and everything that has been extracted when
`write_pending` is not running, if no write to the socket fails. Nobody waits for `write_sock` or
writes to the socket with `conn` held, and the threads never wait for each other. While the writer
is in a write to the socket, the reader can enter its decrypt section. -/
theorem tls_write_path {outbound : Bytes} {room : ℕ} {acts : List Act} {s : Tls}
    (h : tls.run (.start outbound room) acts = some s) :
    (s.failed = false → s.wire <+: s.produced ∧ s.produced = s.extracted ++ s.outbound ∧
      ((∀ t, ¬ (s.pc t).InCall) → s.wire = s.extracted)) ∧
    (∀ t, s.conn = some t → (s.pc t).waits ≠ some .writeSock ∧ ¬ (s.pc t).Writing) ∧
    (∀ t, ¬ Relation.TransGen s.locking.WaitsFor t t) ∧
    ∀ chunk, s.pc .reader = .enter chunk → (s.pc .writer).Writing →
      ∃ s', s.step .lock = some s' := by
  have hinv : s.Inv := Machine.invariant (fun _ _ _ hI hstep => hI.step hstep) h
    (Tls.inv_start outbound room)
  refine ⟨fun hfailed => ⟨?_, hinv.produced, fun hnone => ?_⟩, fun t ht => ?_,
    hinv.ordered.not_waitsFor_self, fun chunk hreader hwriter => ?_⟩
  · rw [hinv.produced, hinv.sent hfailed, List.append_assoc]
    exact List.prefix_append ..
  · have hfree : s.writeSock = none := by
      cases hsock : s.writeSock with
      | none => rfl
      | some t => exact absurd (Tls.inCall_of_hasSock ((hinv.sock t).mpr hsock)) (hnone t)
    have hhand : s.inHand = [] := by rw [Tls.inHand, hfree]
    rw [hinv.sent hfailed, hhand, List.append_nil]
  · have hconn := (hinv.conn t).mpr ht
    exact ⟨fun hwaits => Tls.not_hasConn_of_waits hwaits hconn, Tls.not_writing_of_hasConn hconn⟩
  · have hfree := hinv.free_of_writing hreader hwriter
    simp only [Tls.step, hreader, if_pos hfree]
    exact ⟨_, rfl⟩

/-- The writer is parked with two of three bytes left when the reader has something to decrypt. -/
def parked : List Act :=
  [.forward true, .lock, .leave, .forward true, .recv [104, 105], .call .writer .go,
    .call .writer .go, .call .writer (.accept 2 [1, 2, 3]), .call .writer (.writeTls 3),
    .call .writer .go, .call .writer .go, .call .writer .go, .call .writer (.writeSock 1),
    .read (some 5)]

theorem parked_seen : (tls.run (.start [] 1) parked).map
    (fun s => (s.wire, s.room, s.failed, s.pc .reader, s.pc .writer)) =
      some ([1], 0, false, .enter (some 5), .call (.write [2, 3])) :=
  rfl

theorem parked_enters : ∃ s, tls.run (.start [] 1) parked = some s ∧ s.wire = [1] ∧
    s.wire <+: s.produced ∧ s.room = 0 ∧ ∃ s', s.step .lock = some s' := by
  obtain ⟨s, hrun, hseen⟩ := Option.map_eq_some_iff.mp parked_seen
  simp only [Prod.mk.injEq] at hseen
  obtain ⟨hwire, hroom, hok, hreader, hwriter⟩ := hseen
  obtain ⟨hwritten, -, -, henters⟩ := tls_write_path hrun
  exact ⟨s, hrun, hwire, (hwritten hok).1, hroom, henters (some 5) hreader (hwriter ▸ trivial)⟩

end Conn

end Aiomsg
