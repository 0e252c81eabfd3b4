import Aiomsg.Lib.BigEndian
import Aiomsg.Lib.PartialWrite
import Aiomsg.Protocol.Envelope

/-!
# `send_msg` of the blocking package

`send_msg`, `_send_view` and `_sendmsg_all` of `aiomsg_blocking/msgproto.py`. A call of `send` or
`sendmsg` may take less than it is offered, and one that raises one of `_RETRYABLE` takes nothing.
`_send_view` has one view and takes off it what was sent. `_sendmsg_all` has two, so that the prefix
is not copied in front of the envelope, and splits what was sent between them; a view that is empty
is not offered again.

Both are the same loop, and what they offer is the same bytes at every turn.

## Scope

What a socket does is a list of outcomes, one for each call: so many bytes, an exception that is
tried again, or one that is not. The lock around a call, and how long it is held, are the subject of
other modules, as is what a peer makes of the bytes.

## Main results

* `sendMsg_exact` — on either path the socket gets the prefix and the envelope
* `sendMsg_prefix` — whatever the calls do, it gets nothing else
-/

namespace Aiomsg

namespace Python

namespace Framing

open PartialWriter (Attempt WriteEnd Moves Allowed)

/-! ### The two loops -/

theorem more_view (view : Bytes) : decide (view ≠ []) = true ↔ [view].flatten ≠ [] := by
  rw [decide_eq_true_eq, List.flatten_singleton]

theorem flatten_drop (view : Bytes) (n : ℕ) :
    [view.drop n].flatten = [view].flatten.drop n := by
  rw [List.flatten_singleton, List.flatten_singleton]

/-- `while view:` with `n = sock.send(view)` and `view = view[n:]` -/
def viewWriter : PartialWriter Bytes UInt8 where
  more view := decide (view ≠ [])
  buffers view := [view]
  rest view n := view.drop n
  more_iff := more_view
  offered_rest view n _ := flatten_drop view n

/-- `[v for v in (head, body) if v]` -/
def nonempty (head body : Bytes) : List Bytes := [head, body].filter (· ≠ [])

theorem flatten_nonempty (head body : Bytes) : (nonempty head body).flatten = head ++ body := by
  by_cases hhead : head = []
  · by_cases hbody : body = []
    · simp [nonempty, hhead, hbody]
    · simp [nonempty, hhead, hbody]
  · by_cases hbody : body = []
    · simp [nonempty, hhead, hbody]
    · simp [nonempty, hhead, hbody]

/-- What is left of the two views: `k = min(n, len(head))`, `head = head[k:]` and
`body = body[n - k:]`. -/
def splitOff (views : Bytes × Bytes) (n : ℕ) : Bytes × Bytes :=
  let k := min n views.1.length
  (views.1.drop k, views.2.drop (n - k))

theorem more_views (views : Bytes × Bytes) :
    decide (views.1 ≠ [] ∨ views.2 ≠ []) = true ↔ (nonempty views.1 views.2).flatten ≠ [] := by
  rw [decide_eq_true_eq, flatten_nonempty, ← not_and_or]
  exact not_congr List.append_eq_nil_iff.symm

/-- What was sent ends inside the prefix, at its end, or inside the envelope. -/
theorem flatten_splitOff (views : Bytes × Bytes) (n : ℕ) :
    (nonempty (splitOff views n).1 (splitOff views n).2).flatten =
      (nonempty views.1 views.2).flatten.drop n := by
  obtain ⟨head, body⟩ := views
  rw [flatten_nonempty, flatten_nonempty, splitOff, List.drop_append]
  dsimp only
  rcases Nat.le_total n head.length with hle | hle
  · rw [Nat.min_eq_left hle, Nat.sub_self, Nat.sub_eq_zero_of_le hle]
  · rw [Nat.min_eq_right hle, List.drop_length, List.drop_of_length_le hle]

/-- `while head or body:` with `n = sock.sendmsg([v for v in (head, body) if v])` -/
def scatterWriter : PartialWriter (Bytes × Bytes) UInt8 where
  more views := decide (views.1 ≠ [] ∨ views.2 ≠ [])
  buffers views := nonempty views.1 views.2
  rest := splitOff
  more_iff := more_views
  offered_rest views n _ := flatten_splitOff views n

/-- `_send_view` -/
def sendView (abort : ℕ → Bool) (view : Bytes) (as : List Attempt) : Bytes × WriteEnd :=
  viewWriter.loop abort 0 view as

/-- `_sendmsg_all` -/
def sendmsgAll (abort : ℕ → Bool) (head body : Bytes) (as : List Attempt) : Bytes × WriteEnd :=
  scatterWriter.loop abort 0 (head, body) as

/-! ### Frames -/

/-- The exception of `to_bytes` for a number that does not fit. -/
inductive OverflowError where
  | tooBig
deriving DecidableEq

/-- `n.to_bytes(4, byteorder="big")` -/
def toBytes (n : ℕ) : Except OverflowError Bytes :=
  if n < 2 ^ 32 then .ok (BigEndian.encode 4 n) else .error .tooBig

/-- `send_msg`: the bytes that the socket gets, and what the loop comes to. The socket has a
`sendmsg` that can be used, or not. -/
def sendMsg (hasSendmsg : Bool) (abort : ℕ → Bool) (data : Bytes) (as : List Attempt) :
    Except OverflowError (Bytes × WriteEnd) :=
  match toBytes data.length with
  | .error e => .error e
  | .ok prefixBytes =>
    if hasSendmsg then .ok (sendmsgAll abort prefixBytes data as)
    else .ok (sendView abort (prefixBytes ++ data) as)

variable {abort : ℕ → Bool} {data : Bytes} {as unused : List Attempt}

theorem length_frame (data : Bytes) :
    (BigEndian.encode 4 data.length ++ data).length = 4 + data.length := by
  rw [List.length_append, BigEndian.length_encode]

/-- Either path is a loop that begins with the whole frame. -/
theorem exists_loop (hdata : data.length < 2 ^ 32) (hasSendmsg : Bool) :
    ∃ (σ : Type) (w : PartialWriter σ UInt8) (s : σ),
      w.offered s = BigEndian.encode 4 data.length ++ data ∧
        ∀ abort as, sendMsg hasSendmsg abort data as = .ok (w.loop abort 0 s as) := by
  cases hasSendmsg with
  | true =>
    refine ⟨_, scatterWriter, (BigEndian.encode 4 data.length, data),
      flatten_nonempty (BigEndian.encode 4 data.length) data, ?_⟩
    intro abort as
    rw [sendMsg, toBytes, if_pos hdata]
    rfl
  | false =>
    refine ⟨_, viewWriter, BigEndian.encode 4 data.length ++ data, List.flatten_singleton, ?_⟩
    intro abort as
    rw [sendMsg, toBytes, if_pos hdata]
    rfl

/-- **The socket gets the prefix and the envelope**, on either path, and the loop returns. -/
theorem sendMsg_exact (hdata : data.length < 2 ^ 32) (habort : ∀ turn, abort turn = false)
    (hmoves : Moves (4 + data.length) as unused) (hasSendmsg : Bool) :
    sendMsg hasSendmsg abort data as =
      .ok (BigEndian.encode 4 data.length ++ data, .returned unused) := by
  obtain ⟨σ, w, s, hoffered, hsend⟩ := exists_loop hdata hasSendmsg
  have hlen := (congrArg List.length hoffered).trans (length_frame data)
  rw [hsend, PartialWriter.loop_of_moves habort hlen hmoves, hoffered]

/-- Nine bytes, in pieces that end inside the prefix, at its end and inside the envelope, with a
timeout and a call too many. -/
theorem sendMsg_exact_nine :
    sendMsg true (fun _ => false) [1, 2, 3, 4, 5]
        [.moved 3, .retry, .moved 1, .moved 2, .moved 3, .moved 8] =
      .ok ([0, 0, 0, 5, 1, 2, 3, 4, 5], .returned [.moved 8]) := by
  have hmoves : Moves 9 [.moved 3, .retry, .moved 1, .moved 2, .moved 3, .moved 8] [.moved 8] :=
    .moved (by decide) (by decide) <| .retry (by decide) <| .moved (by decide) (by decide) <|
      .moved (by decide) (by decide) <| .moved (by decide) (by decide) <| .done _
  exact @sendMsg_exact _ [1, 2, 3, 4, 5] _ _ (by decide) (fun _ => rfl) hmoves true

/-- **It gets nothing else**, whatever the calls come to and whether the loop is aborted. -/
theorem sendMsg_prefix {hasSendmsg : Bool} {sent : Bytes} {ended : WriteEnd}
    (hsent : sendMsg hasSendmsg abort data as = .ok (sent, ended))
    (hallowed : Allowed (4 + data.length) as) :
    sent <+: BigEndian.encode 4 data.length ++ data := by
  by_cases hdata : data.length < 2 ^ 32
  · obtain ⟨σ, w, s, hoffered, hsend⟩ := exists_loop hdata hasSendmsg
    have hlen := (congrArg List.length hoffered).trans (length_frame data)
    have hloop : w.loop abort 0 s as = (sent, ended) :=
      Except.ok.inj ((hsend abort as).symm.trans hsent)
    have hpre : (w.loop abort 0 s as).1 <+: w.offered s := PartialWriter.loop_prefix hlen hallowed
    rwa [hloop, hoffered] at hpre
  · rw [sendMsg, toBytes, if_neg hdata] at hsent
    cases hsent

end Framing

end Python

end Aiomsg
