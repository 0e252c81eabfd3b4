import Aiomsg.Lib.LengthPrefix
import Aiomsg.Lib.Reader
import Aiomsg.Python.Codec

/-!
# The readers of the Python packages

`msgproto.read_msg` and the loop around it, which is `Connection._recv` in the one package and
`Connection._recv_loop` in the other. `read_msg` reports that the connection is lost by returning
`b""`, which is also what it returns for a frame whose envelope is empty; and what `decode` raises
is not caught. So the content of a frame can end the loop, in two ways, although the envelopes that
it does not know are skipped. A HELLO behind the handshake goes to `raw_recv` like a message.

The two loops are the same but for `read_msg`, and `Receiver` is what they need of it. The
asynchronous one reads from a `StreamReader`, which does not fail unless the connection is lost. The
blocking one tries again when nothing has moved. It gives up when `abort()` holds, when nothing has
arrived for too long and on any other error of the socket: one arrival stands for each of these, as
it does for the time limit that the asynchronous loop puts on `read_msg`.

`raw_recv` may raise, and the loop catches what it does. A run records the envelopes that it is
called with.

## Scope

Timers, limits and cancellation are arrivals, so that when they come is free. What `raw_recv` does
is left out but for its being called: whether it raises cannot be seen from the loop, which catches
everything and goes on.

## Main definitions

* `Receiver`, `Receiver.readMsg`, `Receiver.recv` — `read_msg` and the loop
* `Async.framing`, `Blocking.framing` — the two packages

## Main results

* `Receiver.atEof_iff` — which frames end the loop
* `Receiver.exact_iff` — which frames keep it from passing exactly the messages on
-/

namespace Aiomsg

namespace Python

namespace Reader

open Protocol (tHello)
open Codec (decode MsgType)

/-- How a package receives exactly `n` bytes: `none` if the connection is lost before they are
there.

The laws are what the loop relies on. It reads what it asks for and no more, it gives up only where
bytes are missing or an error is fatal, and it uses up the stream, which is why the loop ends. -/
structure Receiver where
  exactly : ℕ → Source → Option Bytes × Source
  /-- The errors that do not mean that the connection is lost. -/
  Survives : ErrorKind → Prop
  weight_le : ∀ {n src data src'}, exactly n src = (some data, src') →
    2 * n + src'.weight ≤ src.weight
  exactly_of_le : ∀ {n src}, src.OnlyErrors Survives → n ≤ src.stream.length →
    ∃ src', exactly n src = (some (src.stream.take n), src') ∧
      src'.stream = src.stream.drop n ∧ src'.OnlyErrors Survives
  exactly_of_lt : ∀ {n src}, src.OnlyErrors Survives → src.stream.length < n →
    (exactly n src).1 = none

/-- What a loop has done. -/
structure Run where
  /-- The envelopes passed to `raw_recv`. -/
  passed : List Codec.Envelope
  /-- What was still to come when the last turn began. -/
  last : Source
  /-- `decode` has raised. -/
  raised : Bool

namespace Receiver

variable (rv : Receiver)

/-- A length and that many bytes. -/
def read (src : Source) : Option Bytes × Source :=
  match rv.exactly 4 src with
  | (none, src') => (none, src')
  | (some header, src') => rv.exactly (BigEndian.value header) src'

/-- `read_msg`: it returns `b""` if the connection is lost. -/
def readMsg (src : Source) : Bytes × Source :=
  match rv.read src with
  | (some data, src') => (data, src')
  | (none, src') => ([], src')

theorem weight_read {src src' : Source} {data : Bytes} (h : rv.read src = (some data, src')) :
    src'.weight < src.weight := by
  rw [read] at h
  match hheader : rv.exactly 4 src with
  | (none, src₁) => simp [hheader] at h
  | (some header, src₁) =>
    simp only [hheader] at h
    have hfirst := rv.weight_le hheader
    have hsecond := rv.weight_le h
    omega

theorem weight_readMsg {src : Source} (h : (rv.readMsg src).1 ≠ []) :
    (rv.readMsg src).2.weight < src.weight := by
  rw [readMsg] at h ⊢
  match hread : rv.read src with
  | (some data, src') => exact rv.weight_read hread
  | (none, src') => exact absurd (by rw [hread]) h

/-- The two reads of a frame. -/
theorem read_frame {src : Source} {body rest : Bytes} (h : src.OnlyErrors rv.Survives)
    (hlen : body.length < 2 ^ 32) (hstream : src.stream = LengthPrefix.frame body ++ rest) :
    ∃ src', rv.read src = (some body, src') ∧ src'.stream = rest ∧
      src'.OnlyErrors rv.Survives := by
  have hparse := LengthPrefix.parse_frame_append hlen rest
  rw [← hstream] at hparse
  obtain ⟨hle, hbody, hrest⟩ := LengthPrefix.parse_eq_item hparse
  obtain ⟨src₁, hfirst, hdrop, honly⟩ := rv.exactly_of_le h (n := 4) (by omega)
  have hthere : LengthPrefix.announced src.stream ≤ src₁.stream.length := by
    rw [hdrop, List.length_drop]
    omega
  obtain ⟨src₂, hsecond, hdrop₂, honly₂⟩ := rv.exactly_of_le honly hthere
  refine ⟨src₂, ?_, by rw [hdrop₂, hdrop, hrest], honly₂⟩
  rw [read, hfirst, hbody, ← hdrop]
  exact hsecond

theorem read_eof {src : Source} (h : src.OnlyErrors rv.Survives) (hstream : src.stream = []) :
    (rv.read src).1 = none := by
  have hnone : (rv.exactly 4 src).1 = none := rv.exactly_of_lt h (by simp [hstream])
  rw [read]
  match hheader : rv.exactly 4 src with
  | (none, src') => rfl
  | (some header, src') => simp [hheader] at hnone

/-- The loop that reads a connection until it is lost. -/
def recv (src : Source) : Run :=
  if _h : (rv.readMsg src).1 = [] then ⟨[], src, false⟩
  else
    match decode (rv.readMsg src).1 with
    | .error _ => ⟨[], src, true⟩
    | .ok none => recv (rv.readMsg src).2 -- unrecognised envelope, ignore it
    | .ok (some env) =>
      let later := recv (rv.readMsg src).2
      if env.type = .heartbeat then later else { later with passed := env :: later.passed }
termination_by src.weight
decreasing_by
  · exact rv.weight_readMsg _h
  · exact rv.weight_readMsg _h

end Receiver

/-- The loop has ended because there was nothing more to read. -/
def Run.AtEof (run : Run) : Prop := run.raised = false ∧ run.last.stream = []

/-- What the loop passes on for a frame that does not end it. -/
def event? (frame : Bytes) : Option Codec.Envelope :=
  match decode frame with
  | .ok (some env) => if env.type = .heartbeat then none else some env
  | _ => none

/-- The message in a frame: a DATA, DATA_REQ or ACK envelope. -/
def message? (frame : Bytes) : Option Codec.Envelope :=
  match decode frame with
  | .ok (some env) =>
    if env.type = .data ∨ env.type = .dataReq ∨ env.type = .ack then some env else none
  | _ => none

theorem type_of_message {frame : Bytes} {env : Codec.Envelope} (h : message? frame = some env) :
    env.type ≠ .hello := by
  rw [message?] at h
  split at h
  · split_ifs at h with htype
    obtain rfl := Option.some.inj h
    rintro hhello
    simp [hhello] at htype
  · simp at h

/-- A HELLO with something behind its type is passed on, and is no message. -/
theorem event_hello {frame : Bytes} (h : frame.head? = some tHello) (hlong : frame ≠ [tHello]) :
    message? frame = none ∧ ∃ env, event? frame = some env ∧ env.type = .hello := by
  match frame with
  | [] => simp at h
  | [t] => exact absurd (congrArg (fun t => [t]) (Option.some.inj h)) hlong
  | t :: version :: body =>
    obtain rfl := Option.some.inj h
    exact ⟨rfl, _, rfl, rfl⟩

/-- Of the other frames exactly the messages are passed on. -/
theorem event_eq_message {frame : Bytes} (h : frame.head? ≠ some tHello) :
    event? frame = message? frame := by
  rw [event?, message?]
  match frame with
  | [] => rfl
  | t :: body =>
    have hhello : t ≠ tHello := fun ht => h (congrArg some ht)
    rw [decode, if_neg hhello]
    split_ifs <;> rfl

namespace Receiver

variable {rv : Receiver}

/-- One turn of the loop, on a frame. -/
theorem recv_frame {src : Source} {frame rest : Bytes} (h : src.OnlyErrors rv.Survives)
    (hlen : frame.length < 2 ^ 32) (hstream : src.stream = LengthPrefix.frame frame ++ rest) :
    ∃ src', src'.stream = rest ∧ src'.OnlyErrors rv.Survives ∧
      rv.recv src =
        if frame = [] then ⟨[], src, false⟩
        else match decode frame with
          | .error _ => ⟨[], src, true⟩
          | .ok none => rv.recv src'
          | .ok (some env) =>
            if env.type = .heartbeat then rv.recv src'
            else { rv.recv src' with passed := env :: (rv.recv src').passed } := by
  obtain ⟨src', hread, hrest, honly⟩ := rv.read_frame h hlen hstream
  have hmsg : rv.readMsg src = (frame, src') := by rw [readMsg, hread]
  refine ⟨src', hrest, honly, ?_⟩
  rw [recv]
  simp only [hmsg]
  rfl

/-- A frame that ends the loop. -/
theorem not_atEof_of_frame {src : Source} {frame rest : Bytes} (h : src.OnlyErrors rv.Survives)
    (hlen : frame.length < 2 ^ 32) (hstream : src.stream = LengthPrefix.frame frame ++ rest)
    (hends : frame = [] ∨ frame = [tHello]) : ¬ (rv.recv src).AtEof := by
  obtain ⟨src', -, -, hrecv⟩ := recv_frame h hlen hstream
  rintro ⟨hraised, hlast⟩
  rcases hends with rfl | rfl
  · rw [hrecv, if_pos rfl] at hlast
    rw [hstream] at hlast
    simpa using congrArg List.length hlast
  · rw [hrecv] at hraised
    exact absurd hraised (by simp [decode, Codec.item])

/-- A frame that does not. -/
theorem recv_of_goes_on {src : Source} {frame rest : Bytes} (h : src.OnlyErrors rv.Survives)
    (hlen : frame.length < 2 ^ 32) (hstream : src.stream = LengthPrefix.frame frame ++ rest)
    (hempty : frame ≠ []) (hhello : frame ≠ [tHello]) :
    ∃ src', src'.stream = rest ∧ src'.OnlyErrors rv.Survives ∧
      rv.recv src
        = { rv.recv src' with passed := (event? frame).toList ++ (rv.recv src').passed } := by
  obtain ⟨src', hrest, honly, hrecv⟩ := recv_frame h hlen hstream
  refine ⟨src', hrest, honly, ?_⟩
  rw [hrecv, if_neg hempty, event?]
  match hdecode : decode frame with
  | .error _ => exact absurd (Codec.decode_eq_error_iff.mp hdecode) hhello
  | .ok none => rfl
  | .ok (some env) =>
    dsimp only
    split_ifs <;> rfl

theorem recv_eof {src : Source} (h : src.OnlyErrors rv.Survives) (hstream : src.stream = []) :
    rv.recv src = ⟨[], src, false⟩ := by
  have hmsg : (rv.readMsg src).1 = [] := by
    have hnone := rv.read_eof h hstream
    rw [readMsg]
    match hread : rv.read src with
    | (some data, src') => simp [hread] at hnone
    | (none, src') => rfl
  rw [recv, dif_pos hmsg]

/-- **Which frames end the loop**: an empty one, and a HELLO that ends behind its type. -/
theorem atEof_iff {frames : List Bytes} (hlen : ∀ f ∈ frames, f.length < 2 ^ 32) {src : Source}
    (h : src.OnlyErrors rv.Survives)
    (hstream : src.stream = (frames.map LengthPrefix.frame).flatten) :
    (rv.recv src).AtEof ↔ ∀ f ∈ frames, f ≠ [] ∧ f ≠ [tHello] := by
  induction frames generalizing src with
  | nil =>
    rw [recv_eof h hstream]
    exact iff_of_true ⟨rfl, hstream⟩ (by simp)
  | cons f fs ih =>
    rw [List.forall_mem_cons] at hlen ⊢
    rw [List.map_cons, List.flatten_cons] at hstream
    by_cases hgood : f ≠ [] ∧ f ≠ [tHello]
    · obtain ⟨src', hrest, honly, hrecv⟩ := recv_of_goes_on h hlen.1 hstream hgood.1 hgood.2
      have hlater := ih hlen.2 honly hrest
      rw [hrecv, and_iff_right hgood]
      exact hlater
    · have hends : f = [] ∨ f = [tHello] := by
        rw [not_and_or, not_not, not_not] at hgood
        exact hgood
      exact iff_of_false (not_atEof_of_frame h hlen.1 hstream hends) fun hall => hgood hall.1

/-- **Which frames keep the loop from passing on exactly the messages**, all of them: an empty one
and a HELLO. -/
theorem exact_iff {frames : List Bytes} (hlen : ∀ f ∈ frames, f.length < 2 ^ 32) {src : Source}
    (h : src.OnlyErrors rv.Survives)
    (hstream : src.stream = (frames.map LengthPrefix.frame).flatten) :
    (rv.recv src).passed = frames.filterMap message? ∧ (rv.recv src).AtEof
      ↔ ∀ f ∈ frames, f ≠ [] ∧ f.head? ≠ some tHello := by
  induction frames generalizing src with
  | nil =>
    rw [recv_eof h hstream]
    exact iff_of_true ⟨rfl, rfl, hstream⟩ (by simp)
  | cons f fs ih =>
    rw [List.forall_mem_cons] at hlen ⊢
    rw [List.map_cons, List.flatten_cons] at hstream
    by_cases hends : f = [] ∨ f = [tHello]
    · refine iff_of_false (fun hexact => ?_) ?_
      · exact not_atEof_of_frame h hlen.1 hstream hends hexact.2
      · rintro ⟨⟨hempty, hhead⟩, -⟩
        rcases hends with rfl | rfl
        · exact hempty rfl
        · exact hhead rfl
    · obtain ⟨hempty, hshort⟩ := not_or.mp hends
      obtain ⟨src', hrest, honly, hrecv⟩ := recv_of_goes_on h hlen.1 hstream hempty hshort
      have hlater := ih hlen.2 honly hrest
      by_cases hhead : f.head? = some tHello
      · -- The HELLO is passed on, but no message is one.
        obtain ⟨hnone, env, hevent, htype⟩ := event_hello hhead hshort
        refine iff_of_false ?_ fun hall => hall.1.2 hhead
        rintro ⟨hpassed, -⟩
        rw [hrecv, hevent, List.filterMap_cons_none hnone] at hpassed
        have hmem : env ∈ fs.filterMap message? := by
          rw [← hpassed]
          exact List.mem_cons_self
        obtain ⟨frame, -, hmessage⟩ := List.mem_filterMap.mp hmem
        exact type_of_message hmessage htype
      · have hfilter : (f :: fs).filterMap message?
            = (event? f).toList ++ fs.filterMap message? := by
          rw [event_eq_message hhead, List.filterMap_cons]
          cases message? f <;> rfl
        have hgood : f ≠ [] ∧ f.head? ≠ some tHello := ⟨hempty, hhead⟩
        rw [hfilter, hrecv, and_iff_right hgood, ← hlater]
        exact and_congr_left' (List.append_cancel_left_eq _ _ _).to_iff

end Receiver

/-! ### The two packages -/

namespace Async

/-- `StreamReader.readexactly`, with `none` for the errors that `read_msg` catches. -/
def readExactly (n : ℕ) (src : Source) : Option Bytes × Source :=
  match src.readExact n with
  | (.ok data, src') => (some data, src')
  | (.error _, src') => (none, src')

def receiver : Receiver where
  exactly := readExactly
  Survives := fun _ => False
  weight_le := by
    intro n src data src' h
    rw [readExactly] at h
    match hread : src.readExact n with
    | (.ok bytes, src₁) =>
      simp only [hread] at h
      cases h
      exact (Source.readExact_ok hread).2.2
    | (.error _, src₁) => simp [hread] at h
  exactly_of_le := by
    intro n src h hle
    obtain ⟨src', hread, hdrop, hclean⟩ := Source.readExact_of_le h hle
    exact ⟨src', by rw [readExactly, hread], hdrop, hclean⟩
  exactly_of_lt := by
    intro n src h hlt
    rw [readExactly, Source.readExact_of_lt h hlt]

end Async

namespace Blocking

/-- The errors on which `recv_into` is tried again. -/
def retryable : ErrorKind → Bool
  | .wouldBlock | .timedOut | .interrupted => true
  | .unexpectedEof | .other => false

/-- `_read_exactly`: `n` bytes, or `none` on EOF, `abort()` or idleness. -/
def readExactly (n : ℕ) (src : Source) : Option Bytes × Source :=
  if n = 0 then (some [], src)
  else
    match _h : src.read n with
    | (.error kind, src') => if retryable kind then readExactly n src' else (none, src')
    | (.ok [], src') => (none, src') -- clean EOF
    | (.ok (b :: bs), src') =>
      match readExactly (n - (b :: bs).length) src' with
      | (some data, src'') => (some (b :: bs ++ data), src'')
      | (none, src'') => (none, src'')
termination_by src.weight
decreasing_by
  · rw [Source.read_error _h, Source.weight]
    omega
  · have hweight := (Source.read_ok _h).2.1
    rw [List.length_cons] at hweight
    omega

theorem weight_readExactly {n : ℕ} {src src' : Source} {data : Bytes}
    (h : readExactly n src = (some data, src')) : 2 * n + src'.weight ≤ src.weight := by
  fun_induction readExactly n src generalizing data src' with
  | case1 src =>
    cases h
    omega
  | case2 n src hn kind src₁ hread hretry ih =>
    have hweight := ih h
    rw [Source.read_error hread, Source.weight]
    omega
  | case3 => simp at h
  | case4 => simp at h
  | case5 n src hn b bs src₁ hread rest src₂ hrest ih =>
    cases h
    have hfirst := (Source.read_ok hread).2.1
    have hlater := ih hrest
    omega
  | case6 => simp at h

/-- What is received is what comes off the stream. -/
theorem length_readExactly {n : ℕ} {src src' : Source} {data : Bytes}
    (h : readExactly n src = (some data, src')) :
    data.length = n ∧ src.stream = data ++ src'.stream := by
  fun_induction readExactly n src generalizing data src' with
  | case1 src =>
    cases h
    exact ⟨rfl, rfl⟩
  | case2 n src hn kind src₁ hread hretry ih =>
    obtain rfl := Source.read_error hread
    exact ih h
  | case3 => simp at h
  | case4 => simp at h
  | case5 n src hn b bs src₁ hread rest src₂ hrest ih =>
    cases h
    obtain ⟨hstream, -, -⟩ := Source.read_ok hread
    have hcap := Source.length_read_le hread
    obtain ⟨hlen, hlater⟩ := ih hrest
    refine ⟨?_, ?_⟩
    · rw [List.length_append]
      omega
    · rw [hstream, hlater, List.append_assoc]
  | case6 => simp at h

/-- Bytes that are there are received, whatever has to be tried again in between. -/
theorem readExactly_of_le {n : ℕ} {src : Source} (h : src.OnlyErrors (retryable ·))
    (hle : n ≤ src.stream.length) :
    ∃ src', readExactly n src = (some (src.stream.take n), src') ∧
      src'.stream = src.stream.drop n ∧ src'.OnlyErrors (retryable ·) := by
  fun_induction readExactly n src with
  | case1 src => exact ⟨src, by simp, by simp, h⟩
  | case2 n src hn kind src₁ hread hretry ih =>
    obtain rfl := Source.read_error hread
    exact ih h.tail hle
  | case3 n src hn kind src₁ hread hlost =>
    obtain rfl := Source.read_error hread
    exact absurd (h kind List.mem_cons_self) hlost
  | case4 n src hn src₁ hread =>
    obtain rfl := Source.read_eof (Nat.pos_of_ne_zero hn) hread
    exact absurd (Nat.le_zero.mp hle) hn
  | case5 n src hn b bs src₁ hread rest src₂ hrest ih =>
    obtain ⟨hstream, -, honly⟩ := Source.read_ok hread
    have hcap := Source.length_read_le hread
    rw [hstream, List.length_append] at hle
    obtain ⟨src', hlater, hdrop, honly'⟩ := ih (honly _ h) (by omega)
    obtain ⟨hdata, rfl⟩ := Prod.mk.inj (hrest.symm.trans hlater)
    obtain rfl := Option.some.inj hdata
    refine ⟨src₂, ?_, ?_, honly'⟩
    · rw [hstream, List.take_append, List.take_of_length_le hcap]
    · rw [hstream, List.drop_append, List.drop_of_length_le hcap, List.nil_append, hdrop]
  | case6 n src hn b bs src₁ hread src₂ hrest ih =>
    obtain ⟨hstream, -, honly⟩ := Source.read_ok hread
    have hcap := Source.length_read_le hread
    rw [hstream, List.length_append] at hle
    obtain ⟨src', hlater, -⟩ := ih (honly _ h) (by omega)
    rw [hrest] at hlater
    simp at hlater

/-- If the stream ends before, it is EOF. -/
theorem readExactly_of_lt {n : ℕ} {src : Source} (hlt : src.stream.length < n) :
    (readExactly n src).1 = none := by
  match hread : readExactly n src with
  | (none, src') => rfl
  | (some data, src') =>
    obtain ⟨hlen, hstream⟩ := length_readExactly hread
    rw [hstream, List.length_append] at hlt
    omega

def receiver : Receiver where
  exactly := readExactly
  Survives := fun kind => retryable kind
  weight_le := weight_readExactly
  exactly_of_le := readExactly_of_le
  exactly_of_lt := fun _ => readExactly_of_lt

end Blocking

/-- **`decode` and the reader of the asynchronous package.** `decode` agrees with the Rust decoder
but for the envelopes that are too short for their type, and raises on one of these. However a
sequence of frames arrives, the reader comes to the end of it exactly if none of them is empty or
that one. -/
theorem decode_and_recv_iff (envelope : Bytes) (frames : List Bytes)
    (hlen : ∀ f ∈ frames, f.length < 2 ^ 32) :
    (Codec.Agrees envelope ↔ ¬ Codec.Truncated envelope) ∧
      (∀ e, decode envelope = .error e ↔ envelope = [tHello]) ∧
      ∀ src : Source, src.Clean → src.stream = (frames.map LengthPrefix.frame).flatten →
        ((Async.receiver.recv src).AtEof ↔ ∀ f ∈ frames, f ≠ [] ∧ f ≠ [tHello]) :=
  ⟨Codec.agrees_iff envelope, fun _ => Codec.decode_eq_error_iff,
    fun _ hclean hstream => Receiver.atEof_iff hlen hclean hstream⟩

/-- A HEARTBEAT, an envelope of an unknown type, a DATA_REQ without the end of its id and a DATA, in
pieces that are cut within the frames. The third is decoded otherwise than in Rust, and the reader
comes to the end of them. -/
theorem decode_and_recv_iff_several :
    let incoming : Source := [.bytes 0 [0, 0], .bytes 1 [2, 0, 0], .bytes 0 [2, 9, 9, 0, 0, 0, 2],
      .bytes 4 [1, 0, 0, 0, 2, 3], .bytes 65 []]
    ¬ Codec.Agrees [Protocol.tDataReq, 1] ∧ (∀ e, decode [Protocol.tDataReq, 1] ≠ .error e) ∧
      (Async.receiver.recv incoming).AtEof := by
  intro incoming
  have h := decode_and_recv_iff [Protocol.tDataReq, 1]
    [[2], [9, 9], [Protocol.tDataReq, 1], [3, 65]] (by simp)
  refine ⟨fun hagrees => ?_, fun e herror => ?_, ?_⟩
  · exact h.1.mp hagrees (by simp [Codec.Truncated, Protocol.msgIdSize])
  · exact absurd ((h.2.1 e).mp herror) (by simp)
  · refine (h.2.2 incoming ?_ (by decide)).mpr (by decide)
    simp [incoming, Source.Clean, Source.OnlyErrors]

/-- A HELLO of one byte, and then a DATA. -/
theorem decode_raises :
    ¬ Codec.Agrees [tHello] ∧ decode [tHello] = .error .outOfRange ∧
      (Async.receiver.recv [.bytes 0 [0, 0, 1, 1], .bytes 0 [0, 0, 2, 3, 65]]).raised = true ∧
      (Async.receiver.recv [.bytes 0 [0, 0, 1, 1], .bytes 0 [0, 0, 2, 3, 65]]).passed = [] := by
  refine ⟨fun h => ?_, by decide, by decide +kernel, by decide +kernel⟩
  exact absurd ((Codec.agrees_iff _).mp h) (by simp [Codec.Truncated, Protocol.identitySize])

/-- **The readers of both packages.** However a sequence of frames arrives, a reader passes on
exactly the messages among them and comes to the end of it exactly if no frame is empty or a HELLO.
-/
theorem recv_exact_iff (frames : List Bytes) (hlen : ∀ f ∈ frames, f.length < 2 ^ 32) :
    (∀ src : Source, src.Clean → src.stream = (frames.map LengthPrefix.frame).flatten →
      ((Async.receiver.recv src).passed = frames.filterMap message? ∧
          (Async.receiver.recv src).AtEof
        ↔ ∀ f ∈ frames, f ≠ [] ∧ f.head? ≠ some tHello)) ∧
    ∀ src : Source, src.OnlyErrors (fun kind => Blocking.retryable kind) →
      src.stream = (frames.map LengthPrefix.frame).flatten →
      ((Blocking.receiver.recv src).passed = frames.filterMap message? ∧
          (Blocking.receiver.recv src).AtEof
        ↔ ∀ f ∈ frames, f ≠ [] ∧ f.head? ≠ some tHello) :=
  ⟨fun _ hclean hstream => Receiver.exact_iff hlen hclean hstream,
    fun _ honly hstream => Receiver.exact_iff hlen honly hstream⟩

theorem recv_exact_iff_data :
    (Blocking.receiver.recv [.bytes 0 [0], .err .timedOut, .bytes 0 [2, 3, 65]]).passed
        = [[3, 65]].filterMap message? ∧
      (Blocking.receiver.recv [.bytes 0 [0], .err .timedOut, .bytes 0 [2, 3, 65]]).AtEof
    ↔ ∀ f ∈ [[3, 65]], f ≠ [] ∧ f.head? ≠ some tHello :=
  (recv_exact_iff [[3, 65]] (by simp)).2 _
    (by simp [Source.OnlyErrors, Blocking.retryable]) (by decide)

/-- A frame of no bytes, and then a DATA. -/
theorem recv_stops_at_empty :
    (Async.receiver.recv [.bytes 0 [0, 0, 0], .bytes 0 [0, 0, 2, 3, 65]]).passed = [] ∧
      (Blocking.receiver.recv [.bytes 0 [0, 0, 0], .bytes 0 [0, 0, 2, 3, 65]]).passed = [] ∧
      [[], [3, 65]].filterMap message? = [{ type := .data, payload := [65] }] :=
  ⟨by decide +kernel, by decide +kernel, by decide⟩

end Reader

end Python

end Aiomsg
