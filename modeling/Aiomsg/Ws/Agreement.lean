import Aiomsg.CLib.Ws
import Aiomsg.Ws.AsyncStream

/-!
# Three adapters, one stream

The synchronous Rust adapter, the asynchronous one and the C one were written by hand three times.
Each has been shown to come to `carriedIn` and `answerTo` of the stream it reads; so on one stream,
cut in three ways, they come to the same, which is what the grammar says.

The C adapter is also given what happens between two of its reads: envelopes are taken off the
decoder, which moves its bytes about, and frames for the peer are written.

## Scope

What agrees is what the application gets and what the client hears, each as a sequence of bytes.
When either happens differs: one adapter writes its answers at once, another when it is polled, and
the third hands them to its caller.

## Main results

* `adapters_agree`
-/

namespace Aiomsg

namespace Ws

/-- **The three adapters agree.** Take any stream behind an upgrade, and cut it in three independent
ways: into left-over bytes and inner reads for the synchronous adapter, into inner reads for the
asynchronous one, and into left-over bytes and reads for the C one, with failed reads, polls that
are not ready, short writes and envelopes taken off the C decoder anywhere in between. Up to the end
of the stream, as each of them signals it, the bytes they hand to the application are the same, and
so are the control frames they write or queue. Both are what the grammar says: the payloads of the
binary and continuation frames, and a PONG for each PING followed by the one Close frame there is a
reason for, with its code. -/
theorem adapters_agree {stream leftover leftover' : Bytes} {input input' : Source}
    {reads : List (Bytes × ℕ)} (hsync : leftover ++ input.stream = stream)
    (hasync : input'.stream = stream)
    (hc : leftover' ++ (reads.map Prod.fst).flatten = stream)
    (caps caps' : ℕ → ℕ+) (room : List (Option ℕ)) (pops : ℕ) :
    let sync := (WsStream.new ⟨input, []⟩ leftover).readToEnd caps 0
    let async := (AsyncWsStream.new ⟨input', room, []⟩).pollToEnd caps' 0
    let c := CLib.WsConn.session leftover' pops reads
    (sync.1 = async.1 ∧ async.1 = c.1) ∧
      (sync.2.inner.output = async.2.sent ∧ async.2.sent = c.2.told) ∧
      ∃ frames code, Reading stream frames code ∧ sync.1 = content frames ∧
        sync.2.inner.output = reply frames code := by
  intro sync async c
  obtain ⟨hcarried, hanswer⟩ :
      sync.1 = carriedIn stream ∧ sync.2.inner.output = answerTo stream := by
    have hnew := WsStream.hungry_new ⟨input, []⟩ leftover
    obtain ⟨hbytes, houtput⟩ := WsStream.readToEnd_eq hnew.inv caps 0
    rw [← hsync]
    exact ⟨hbytes.trans hnew.due, houtput.trans hnew.told⟩
  obtain ⟨hcarried', hanswer'⟩ : async.1 = carriedIn stream ∧ async.2.sent = answerTo stream := by
    rw [← hasync]
    exact AsyncWsStream.pollToEnd_new ⟨input', room, []⟩ caps'
  obtain ⟨hcarried'', hanswer''⟩ : c.1 = carriedIn stream ∧ c.2.told = answerTo stream := by
    rw [← hc]
    exact CLib.WsConn.session_eq leftover' pops reads
  obtain ⟨frames, code, hreading⟩ := exists_reading stream
  refine ⟨⟨hcarried.trans hcarried'.symm, hcarried'.trans hcarried''.symm⟩,
    ⟨hanswer.trans hanswer'.symm, hanswer'.trans hanswer''.symm⟩, frames, code, hreading, ?_, ?_⟩
  · rw [hcarried, carriedIn_eq hreading]
  · rw [hanswer, answerTo_eq hreading]

/-- The bytes of `smallInput` and those left over before it, in one piece. -/
def smallWhole : Source :=
  [.bytes 0x89 [0x81, 0xa1, 0xb2, 0xc3, 0xd4, 0xa4, 0x82, 0x82, 0xa1, 0xb2, 0xc3, 0xd4, 0xa6, 0xba,
    0x88, 0x80, 0xa1, 0xb2, 0xc3, 0xd4]]

/-- The same bytes in two reads, with an envelope asked for after the second. -/
def smallReads : List (Bytes × ℕ) :=
  [([0x89, 0x81, 0xa1, 0xb2, 0xc3, 0xd4, 0xa4, 0x82], 0),
    ([0x82, 0xa1, 0xb2, 0xc3, 0xd4, 0xa6, 0xba, 0x88, 0x80, 0xa1, 0xb2, 0xc3, 0xd4], 1)]

/-- The asynchronous adapter gets the stream in one piece and cannot write at first. -/
theorem smallInput_agree :
    ((WsStream.new ⟨smallInput, []⟩ [0x89, 0x81, 0xa1, 0xb2, 0xc3, 0xd4]).readToEnd
      (fun _ => 1) 0).1
        = ((AsyncWsStream.new ⟨smallWhole, [none], []⟩).pollToEnd (fun _ => 4) 0).1 ∧
      ((AsyncWsStream.new ⟨smallWhole, [none], []⟩).pollToEnd (fun _ => 4) 0).2.sent
        = (CLib.WsConn.session [] 0 smallReads).2.told := by
  have hsync : [0x89, 0x81, 0xa1, 0xb2, 0xc3, 0xd4] ++ smallInput.stream = smallWhole.stream := by
    decide
  have hc : [] ++ (smallReads.map Prod.fst).flatten = smallWhole.stream := by decide
  have h := adapters_agree hsync rfl hc (fun _ => 1) (fun _ => 4) [none] 0
  exact ⟨h.1.1, h.2.1.2⟩

end Ws

end Aiomsg
