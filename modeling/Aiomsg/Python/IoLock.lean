import Aiomsg.Lib.Machine
import Aiomsg.Python.WsSocket
import Mathlib.Logic.Function.Basic

/-!
# The lock of a connection

`msgproto.py` of `python-lib-blocking` with the adapter under it, as a machine of two threads. A
connection has a thread that reads and one that writes, and `io_lock` is held for one call of
`recv_into`, `send` or `sendmsg` at a time. The raw socket has a short timeout. A step is what a
thread does up to the next place where another one may come in: an abort check, a wait for
readability, which is made without the lock, the taking of the lock, one attempt on the raw socket
under it, and its release.

The framing layer makes one attempt for each call and goes back to the abort check if that times
out. What the adapter makes of a call is up to it: `recv_into` reads until there is payload, and
lets a timeout out to the framing layer; `_send_raw` does not, it tries again. A frame of the
adapter's own goes out in the middle of a `recv_into`.

`sendmsg` gets the prefix and the envelope as two buffers, which are one view here. The thread that
makes the handshake is the writer while it sends its HELLO and the reader while it waits for the
other.

## Scope

What is sent is an argument of the call, and the framing that chooses it is elsewhere. A timeout is
any of the exceptions in `_RETRYABLE`; which of them it is makes no difference to the code. How long
an attempt takes is at most the timeout of the raw socket, and this is taken from the socket's
documentation: the model counts attempts and not time.

TLS is a raw socket here. An `SSLWantReadError` is one of the exceptions that are tried again.

## Main definitions

* `Control` — where a call is
* `Conn`, `Action`, `Conn.step`, `machine`

## Main results

* `Conn.step_cases` — what a step can do to the lock and to the socket
-/

namespace Aiomsg

namespace Python

namespace BlockingWs

open Ws (opBin serverFrame)

/-! ### Calls -/

/-- Where a call is: in front of an attempt on the raw socket, or at its end. Nothing happens
between two attempts of one call but what is worked out from the first for the second. -/
inductive Control where
  /-- `recv_into` of the raw socket. -/
  | recv (room : ℕ)
  /-- `send` or `sendmsg` of the raw socket. -/
  | send (data : Bytes)
  /-- The `recv` in the `recv_into` of the adapter. -/
  | wsRecv (room : ℕ)
  /-- The loop of `_send_raw`, in that `recv_into`. -/
  | wsAnswer (room : ℕ) (rest : Bytes)
  /-- The loop of `_send_raw`, in the `send` of the adapter. -/
  | wsSend (length : ℕ) (rest : Bytes)
  | returned (n : ℕ)
  /-- With whether the exception is one of `_RETRYABLE`. -/
  | raised (retryable : Bool)
deriving DecidableEq

namespace Control

/-- The call is in front of an attempt. -/
def attempting : Control → Bool
  | .returned _ | .raised _ => false
  | _ => true

/-- The attempt is one of `_send_raw`. -/
def sendsRaw : Control → Bool
  | .wsAnswer _ _ | .wsSend _ _ => true
  | _ => false

end Control

/-- What an attempt on the raw socket comes to; `timeout` is any of the exceptions on which it is
tried again. -/
inductive Outcome where
  | sent (n : ℕ)
  | received (bytes : Bytes)
  | timeout
  | error
deriving DecidableEq

namespace WsSocket

/-- The end of `recv_into`. -/
def finish (room : ℕ) (ws : WsSocket) : WsSocket × Control :=
  if ws.outBuf = [] then (ws, .returned 0)
  else ({ ws with outBuf := ws.outBuf.drop room }, .returned (min room ws.outBuf.length))

/-- The loop of `recv_into` from its `_pump` on. -/
def resume (room : ℕ) (ws : WsSocket) : WsSocket × Control :=
  match ws.pump with
  | (ws, some frame) => (ws, .wsAnswer room frame)
  | (ws, none) => if ws.outBuf ≠ [] ∨ ws.eof then ws.finish room else (ws, .wsRecv room)

/-- `recv_into` up to its first attempt. -/
def recvInto (room : ℕ) (ws : WsSocket) : WsSocket × Control :=
  if ws.outBuf ≠ [] ∨ ws.eof then ws.finish room else ws.resume room

/-- `recv_into` behind its `recv`. -/
def received (room : ℕ) (bytes : Bytes) (ws : WsSocket) : WsSocket × Control :=
  if bytes = [] then ({ ws with eof := true }, .returned 0)
  else { ws with rawBuf := ws.rawBuf ++ bytes }.resume room

end WsSocket

namespace Sock

/-- What `recv_into` does up to its first attempt. -/
def recvInto (room : ℕ) : Sock → Sock × Control
  | .plain => (.plain, .recv room)
  | .prepended [] => (.prepended [], .recv room)
  | .prepended (b :: bs) =>
    (.prepended ((b :: bs).drop room), .returned (min room (b :: bs).length))
  | .adapter ws => (.adapter (ws.recvInto room).1, (ws.recvInto room).2)

/-- What `send` or `sendmsg` does up to its first attempt. -/
def send (data : Bytes) : Sock → Control
  | .plain | .prepended _ => .send data
  | .adapter _ => .wsSend data.length (serverFrame opBin data)

/-- `_send_raw` has nothing more to send in a `recv_into`. -/
def resume (room : ℕ) : Sock → Option (Sock × Control)
  | .adapter ws => some (.adapter (ws.resume room).1, (ws.resume room).2)
  | _ => none

def received (room : ℕ) (bytes : Bytes) : Sock → Option (Sock × Control)
  | .adapter ws => some (.adapter (ws.received room bytes).1, (ws.received room bytes).2)
  | _ => none

/-- What an attempt leads to, up to the next one. -/
def attempt (sock : Sock) : Control → Outcome → Option (Sock × Control)
  | .recv room, .received bytes =>
    if bytes.length ≤ room then some (sock, .returned bytes.length) else none
  | .send data, .sent n => if n ≤ data.length then some (sock, .returned n) else none
  | .wsRecv room, .received bytes =>
    if bytes.length ≤ 65536 then sock.received room bytes else none
  | .recv _, .timeout | .send _, .timeout | .wsRecv _, .timeout => some (sock, .raised true)
  | .recv _, .error | .send _, .error | .wsRecv _, .error => some (sock, .raised false)
  | .wsAnswer room rest, .sent n =>
    if n < rest.length then some (sock, .wsAnswer room (rest.drop n)) else sock.resume room
  | .wsAnswer room rest, .timeout => some (sock, .wsAnswer room rest)
  | .wsAnswer room _, .error => sock.resume room -- peer gone; teardown proceeds via recv EOF
  | .wsSend length rest, .sent n =>
    if n < rest.length then some (sock, .wsSend length (rest.drop n))
    else some (sock, .returned length)
  | .wsSend length rest, .timeout => some (sock, .wsSend length rest)
  | .wsSend length _, .error => some (sock, .returned length)
  | _, _ => none

/-- `pending()`, where the object has one that looks at what is buffered above the raw socket. -/
def pending : Sock → Bool
  | .plain => false
  | .prepended pre => pre ≠ []
  | .adapter ws => ws.pending

end Sock

/-! ### The two threads -/

inductive Thread where
  | reader
  | writer
deriving DecidableEq

/-- Where the reader is in `_read_exactly`, with the number of bytes still to be read: outside of
it, at the abort check, in `_readable`, or at `with lock` and in its block. -/
inductive Reader where
  | idle
  | checking (left : ℕ)
  | polling (left : ℕ)
  | locking (left : ℕ)
deriving DecidableEq

/-- Where the writer is in `_send_view` or `_sendmsg_all`, with what is still to be sent. -/
inductive Writer where
  | idle
  | checking (view : Bytes)
  | locking (view : Bytes)
deriving DecidableEq

/-- A connection. `held` is who holds `io_lock`, and where its call is; `late` whether an attempt of
a thread has timed out since its last abort check. -/
structure Conn where
  sock : Sock
  reader : Reader
  writer : Writer
  held : Option (Thread × Control)
  aborting : Bool
  late : Thread → Bool

inductive Action where
  /-- `abort()` becomes true. -/
  | abort
  /-- `_read_exactly` is called for that many bytes. -/
  | read (nbytes : ℕ)
  /-- `send_msg` is called. -/
  | write (view : Bytes)
  /-- The head of the loop of the reader; `expired` is whether the deadline has passed. -/
  | checkReader (expired : Bool)
  /-- `_readable`; `ready` is what `select` or the TLS layer says. -/
  | poll (ready : Bool)
  /-- The head of the loop of the writer. -/
  | checkWriter
  | acquire (t : Thread)
  /-- The call under the lock makes its attempt. -/
  | attempt (o : Outcome)
  /-- The call under the lock has ended. -/
  | release

/-- What a reader makes of the end of a call. -/
def Reader.after : Reader → Control → Option Reader
  | .locking _, .returned 0 => some .idle -- clean EOF
  | .locking left, .returned (n + 1) => some (.checking (left - (n + 1)))
  | .locking left, .raised true => some (.checking left)
  | .locking _, .raised false => some .idle
  | _, _ => none

/-- What a writer makes of the end of a call. -/
def Writer.after : Writer → Control → Option Writer
  | .locking view, .returned n => some (.checking (view.drop n))
  | .locking view, .raised true => some (.checking view)
  | .locking _, .raised false => some .idle
  | _, _ => none

namespace Conn

/-- A connection that is about to be served. -/
def new (sock : Sock) : Conn where
  sock := sock
  reader := .idle
  writer := .idle
  held := none
  aborting := false
  late := fun _ => false

/-- An abort check. -/
def checked (s : Conn) (t : Thread) : Conn := { s with late := Function.update s.late t false }

def read (s : Conn) (nbytes : ℕ) : Option Conn :=
  match s.reader with
  | .idle => some { s with reader := .checking nbytes }
  | _ => none

def write (s : Conn) (view : Bytes) : Option Conn :=
  match s.writer with
  | .idle => some { s with writer := .checking view }
  | _ => none

def checkReader (s : Conn) (expired : Bool) : Option Conn :=
  match s.reader with
  | .checking left =>
    if left = 0 then some { s with reader := .idle }
    else if s.aborting ∨ expired then some { s.checked .reader with reader := .idle }
    else some { s.checked .reader with reader := .polling left }
  | _ => none

def poll (s : Conn) (ready : Bool) : Option Conn :=
  match s.reader with
  | .polling left =>
    some { s with reader := if s.sock.pending ∨ ready then .locking left else .checking left }
  | _ => none

def checkWriter (s : Conn) : Option Conn :=
  match s.writer with
  | .checking view =>
    if view = [] then some { s with writer := .idle }
    else if s.aborting then some { s.checked .writer with writer := .idle }
    else some { s.checked .writer with writer := .locking view }
  | _ => none

def acquire (s : Conn) (t : Thread) : Option Conn :=
  match s.held, t, s.reader, s.writer with
  | none, .reader, .locking left, _ =>
    some { s with
      sock := (s.sock.recvInto left).1
      held := some (.reader, (s.sock.recvInto left).2) }
  | none, .writer, _, .locking view => some { s with held := some (.writer, s.sock.send view) }
  | _, _, _, _ => none

def attempt (s : Conn) (o : Outcome) : Option Conn :=
  match s.held with
  | some (t, control) =>
    (s.sock.attempt control o).map fun (sock, control) =>
      { s with
        sock := sock
        held := some (t, control)
        late := if o = .timeout then Function.update s.late t true else s.late }
  | none => none

def release (s : Conn) : Option Conn :=
  match s.held with
  | some (.reader, control) =>
    (s.reader.after control).map fun reader => { s with reader := reader, held := none }
  | some (.writer, control) =>
    (s.writer.after control).map fun writer => { s with writer := writer, held := none }
  | none => none

def step (s : Conn) : Action → Option Conn
  | .abort => some { s with aborting := true }
  | .read nbytes => s.read nbytes
  | .write view => s.write view
  | .checkReader expired => s.checkReader expired
  | .poll ready => s.poll ready
  | .checkWriter => s.checkWriter
  | .acquire t => s.acquire t
  | .attempt o => s.attempt o
  | .release => s.release

end Conn

def machine : Machine Conn Action := ⟨Conn.step⟩

/-! ### What a step can do -/

/-- The reader has checked `abort`, and goes for the lock. -/
def Reader.wants : Reader → Bool
  | .polling _ | .locking _ => true
  | .idle | .checking _ => false

/-- The writer has checked `abort`, and goes for the lock. -/
def Writer.wants : Writer → Bool
  | .locking _ => true
  | .idle | .checking _ => false

namespace Conn

/-- A thread has checked `abort`, and goes for the lock or holds it. -/
def wants (s : Conn) : Thread → Bool
  | .reader => s.reader.wants
  | .writer => s.writer.wants

/-- The steps by what they do to the lock and to the socket. -/
inductive Step (s : Conn) : Action → Conn → Prop
  /-- A step outside of the lock. Before a thread goes for it, it checks `abort`. -/
  | move {a : Action} {u : Conn} (hsock : u.sock = s.sock) (hheld : u.held = s.held)
      (hlate : ∀ t, s.late t = false → u.late t = false)
      (hwants : ∀ t, u.wants t = true → s.wants t = true ∨ u.late t = false) : Step s a u
  | recvInto {left : ℕ} (hfree : s.held = none) (hreader : s.reader = .locking left) :
      Step s (.acquire .reader)
        { s with
          sock := (s.sock.recvInto left).1
          held := some (.reader, (s.sock.recvInto left).2) }
  | send {view : Bytes} (hfree : s.held = none) (hwriter : s.writer = .locking view) :
      Step s (.acquire .writer) { s with held := some (.writer, s.sock.send view) }
  | attempt (t : Thread) (control control' : Control) (o : Outcome) (sock : Sock)
      (hheld : s.held = some (t, control))
      (hattempt : s.sock.attempt control o = some (sock, control')) :
      Step s (.attempt o)
        { s with
          sock := sock
          held := some (t, control')
          late := if o = .timeout then Function.update s.late t true else s.late }
  /-- Behind the lock a thread is outside, or in front of an abort check. -/
  | release (t : Thread) (control : Control) {u : Conn} (hheld : s.held = some (t, control))
      (hended : control.attempting = false) (hfree : u.held = none) (hsock : u.sock = s.sock)
      (hlate : u.late = s.late) (hwants : ∀ t', u.wants t' = true → t' ≠ t ∧ s.wants t' = true) :
      Step s .release u

variable {s u : Conn}

/-- No attempt becomes late in an abort check. -/
theorem late_checked (s : Conn) (t t' : Thread) (h : s.late t' = false) :
    (s.checked t).late t' = false := by
  by_cases ht : t' = t
  · subst ht
    exact Function.update_self ..
  · exact (Function.update_of_ne ht ..).trans h

theorem late_checked_self (s : Conn) (t : Thread) : (s.checked t).late t = false :=
  Function.update_self ..

/-- The reader goes on without an abort check. -/
theorem Step.reader {a : Action} (r : Reader) (h : r.wants = true → s.reader.wants = true) :
    Step s a { s with reader := r } := by
  refine .move rfl rfl (fun t ht => ht) fun t ht => ?_
  match t with
  | .reader => exact .inl (h ht)
  | .writer => exact .inl ht

/-- The reader goes on with an abort check. -/
theorem Step.readerChecked {a : Action} (r : Reader) :
    Step s a { s.checked .reader with reader := r } := by
  refine .move rfl rfl (s.late_checked .reader) fun t ht => ?_
  match t with
  | .reader => exact .inr (s.late_checked_self .reader)
  | .writer => exact .inl ht

theorem Step.writer {a : Action} (w : Writer) (h : w.wants = true → s.writer.wants = true) :
    Step s a { s with writer := w } := by
  refine .move rfl rfl (fun t ht => ht) fun t ht => ?_
  match t with
  | .reader => exact .inl ht
  | .writer => exact .inl (h ht)

theorem Step.writerChecked {a : Action} (w : Writer) :
    Step s a { s.checked .writer with writer := w } := by
  refine .move rfl rfl (s.late_checked .writer) fun t ht => ?_
  match t with
  | .reader => exact .inl ht
  | .writer => exact .inr (s.late_checked_self .writer)

theorem step_read {nbytes : ℕ} (h : s.read nbytes = some u) : Step s (.read nbytes) u := by
  rw [read] at h
  split at h
  · cases h
    exact .reader _ nofun
  · cases h

theorem step_write {view : Bytes} (h : s.write view = some u) : Step s (.write view) u := by
  rw [write] at h
  split at h
  · cases h
    exact .writer _ nofun
  · cases h

theorem step_checkReader {expired : Bool} (h : s.checkReader expired = some u) :
    Step s (.checkReader expired) u := by
  rw [checkReader] at h
  split at h
  · split_ifs at h
    · cases h
      exact .reader _ nofun
    · cases h
      exact .readerChecked _
    · cases h
      exact .readerChecked _
  · cases h

theorem step_poll {ready : Bool} (h : s.poll ready = some u) : Step s (.poll ready) u := by
  rw [poll] at h
  split at h
  · rename_i left hreader
    cases h
    refine .reader _ fun _ => ?_
    rw [hreader, Reader.wants]
  · cases h

theorem step_checkWriter (h : s.checkWriter = some u) : Step s .checkWriter u := by
  rw [checkWriter] at h
  split at h
  · split_ifs at h
    · cases h
      exact .writer _ nofun
    · cases h
      exact .writerChecked _
    · cases h
      exact .writerChecked _
  · cases h

theorem step_acquire {t : Thread} (h : s.acquire t = some u) : Step s (.acquire t) u := by
  unfold acquire at h
  split at h
  · rename_i left hfree hreader
    cases h
    exact .recvInto hfree hreader
  · rename_i view hfree hwriter
    cases h
    exact .send hfree hwriter
  · cases h

theorem step_attempt {o : Outcome} (h : s.attempt o = some u) : Step s (.attempt o) u := by
  rw [attempt] at h
  split at h
  · rename_i t control hheld
    obtain ⟨⟨sock, control'⟩, hattempt, rfl⟩ := Option.map_eq_some_iff.mp h
    exact .attempt t control control' o sock hheld hattempt
  · cases h

/-- A reader goes on from the end of a call, with an abort check or not at all. -/
theorem reader_after {r r' : Reader} {control : Control} (h : r.after control = some r') :
    control.attempting = false ∧ r'.wants = false := by
  unfold Reader.after at h
  split at h
  · cases h
    exact ⟨rfl, rfl⟩
  · cases h
    exact ⟨rfl, rfl⟩
  · cases h
    exact ⟨rfl, rfl⟩
  · cases h
    exact ⟨rfl, rfl⟩
  · cases h

theorem writer_after {w w' : Writer} {control : Control} (h : w.after control = some w') :
    control.attempting = false ∧ w'.wants = false := by
  unfold Writer.after at h
  split at h
  · cases h
    exact ⟨rfl, rfl⟩
  · cases h
    exact ⟨rfl, rfl⟩
  · cases h
    exact ⟨rfl, rfl⟩
  · cases h

theorem step_release (h : s.release = some u) : Step s .release u := by
  rw [release] at h
  split at h
  · rename_i control hheld
    obtain ⟨reader, hafter, rfl⟩ := Option.map_eq_some_iff.mp h
    obtain ⟨hended, hwants⟩ := reader_after hafter
    refine .release .reader control hheld hended rfl rfl rfl fun t ht => ?_
    match t with
    | .reader =>
      rw [wants, hwants] at ht
      cases ht
    | .writer => exact ⟨by decide, ht⟩
  · rename_i control hheld
    obtain ⟨writer, hafter, rfl⟩ := Option.map_eq_some_iff.mp h
    obtain ⟨hended, hwants⟩ := writer_after hafter
    refine .release .writer control hheld hended rfl rfl rfl fun t ht => ?_
    match t with
    | .reader => exact ⟨by decide, ht⟩
    | .writer =>
      rw [wants, hwants] at ht
      cases ht
  · cases h

/-- **What a step can do.** -/
theorem step_cases {a : Action} (h : s.step a = some u) : Step s a u := by
  match a with
  | .abort =>
    cases h
    exact .move rfl rfl (fun t ht => ht) fun t ht => .inl ht
  | .read nbytes => exact step_read h
  | .write view => exact step_write h
  | .checkReader expired => exact step_checkReader h
  | .poll ready => exact step_poll h
  | .checkWriter => exact step_checkWriter h
  | .acquire t => exact step_acquire h
  | .attempt o => exact step_attempt h
  | .release => exact step_release h

end Conn

end BlockingWs

end Python

end Aiomsg
