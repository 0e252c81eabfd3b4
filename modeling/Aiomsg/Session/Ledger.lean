import Aiomsg.Broker.Messages
import Aiomsg.Session.History

/-!
# What a node has received and sent

For a broker with its sessions: the messages the broker has taken from a session are the payloads it
has put on the receive queue for it, and the messages it has put on the writers of its sessions are
transmissions, which in turn are messages of the application. The log says which session a message
came from; the receive queue merges them.

## Scope

The receive queue of the source is one for all sessions. `delivered` is the part of it that came
through one session, and it is told from the log, since a message on the queue carries the sender's
identity and not the session.

## Main results

* `delivered_eq` — what the application got through a session is what the session forwarded
* `ledger_of_reachable`
-/

namespace Aiomsg

namespace Session

variable {S D : Type}

section Reading

variable [DecidableEq S]

/-- The message a session has posted with a command. -/
def Posted.messageOf (s : S) (p : Posted S D) : Option (Option MsgId × D) :=
  if p.origin = some s then p.cmd.message? else none

namespace World

/-- The messages the broker has taken from a session, in order. -/
def taken (w : World S D) (s : S) : List (Option MsgId × D) :=
  w.log.filterMap fun d => d.toPosted.messageOf s

/-- The messages of a session that are still in the queue. -/
def queued (w : World S D) (s : S) : List (Option MsgId × D) :=
  w.queue.filterMap (Posted.messageOf s)

/-- The payloads the broker has put on the receive queue for a session, in order. -/
def delivered (w : World S D) (s : S) : List D :=
  received ((w.log.filter fun d => d.origin = some s).flatMap Done.effects)

end World

end Reading

/-- The messages the application has handed over, in order. -/
def World.sends (w : World S D) : List (Option Identity × D) :=
  w.log.filterMap fun d => d.cmd.send?

theorem sends_process (w : World S D) (p : Posted S D) (rest : List (Posted S D)) :
    (w.process p rest).sends = w.sends ++ p.cmd.send?.toList := by
  rw [World.sends, World.sends, World.process, List.filterMap_append, List.filterMap_cons]
  cases p.cmd.send? <;> rfl

section Taken

variable [DecidableEq S]

theorem taken_process (w : World S D) (p : Posted S D) (rest : List (Posted S D)) (s : S) :
    (w.process p rest).taken s = w.taken s ++ (p.messageOf s).toList := by
  rw [World.taken, World.taken, World.process, List.filterMap_append, List.filterMap_cons]
  show _ ++ _ = _
  cases p.messageOf s <;> rfl

/-- The front of the queue is taken, and the others stay. -/
theorem taken_append_queued_process {w : World S D} {p : Posted S D} {rest : List (Posted S D)}
    (hqueue : w.queue = p :: rest) (s : S) :
    (w.process p rest).taken s ++ (w.process p rest).queued s = w.taken s ++ w.queued s := by
  rw [taken_process, World.queued, World.queued, hqueue, List.filterMap_cons, List.append_assoc]
  show _ ++ (_ ++ rest.filterMap (Posted.messageOf s)) = _
  cases p.messageOf s <;> rfl

/-- A command is posted behind everything. -/
theorem queued_post (w : World S D) (origin : Option S) (cmd : Command S D) (s : S) :
    (w.post origin cmd).queued s
      = w.queued s ++ ((⟨origin, cmd⟩ : Posted S D).messageOf s).toList := by
  rw [World.queued, World.queued, World.post, List.filterMap_append, List.filterMap_cons]
  cases (⟨origin, cmd⟩ : Posted S D).messageOf s <;> rfl

variable {ident : S → Identity} {w : World S D}

/-- **What the application got through a session** is what the session forwarded and the broker has
taken, in order. -/
theorem delivered_eq (hreach : (system S D ident).Reachable w) (s : S) :
    w.delivered s = (w.taken s).map Prod.snd := by
  have hlog := logged_of_reachable hreach
  rw [World.delivered, World.taken]
  generalize w.log = log at hlog
  induction log with
  | nil => rfl
  | cons d log ih =>
    have hrest := ih fun d' hd' => hlog d' (List.mem_cons_of_mem d hd')
    by_cases hd : d.origin = some s
    · obtain ⟨b, hstep⟩ := (hlog d List.mem_cons_self).step
      rw [List.filter_cons_of_pos (by simpa using hd), List.flatMap_cons, received_append, hrest,
        List.filterMap_cons, Posted.messageOf, if_pos hd, hstep, b.received_step]
      cases d.cmd.message? <;> rfl
    · rw [List.filter_cons_of_neg (by simpa using hd), List.filterMap_cons, Posted.messageOf,
        if_neg hd]
      exact hrest

end Taken

/-! ### What goes out -/

/-- What a broker without acknowledgements has sent: everything handed over and not buffered, and on
each writer some of it, in order. -/
structure SentPlain [DecidableEq S] (w : World S D) : Prop where
  plain : w.broker.Plain
  transmitted : (transmitted w.effects).map Pending.message ++ w.broker.buffer = w.sends
  written : ∀ s, ((messagesOn s w.effects).map Prod.snd).Sublist
    ((Aiomsg.transmitted w.effects).map Pending.data)

/-- What is on writers is accounted for by what was transmitted. -/
structure Ledger [DecidableEq S] (w : World S D) : Prop where
  requests : (Broker.requests w.effects).Sublist (issued w.effects)
  roundRobin : w.broker.sendMode = .roundRobin → (messages w.effects).Sublist (stamps w.effects)
  atMostOnce : w.broker.delivery = .atMostOnce → SentPlain w

end Session

namespace Broker

variable {C D : Type}

/-- How a broker sends and what it guarantees is settled when it is made. -/
theorem modes_step (b : Broker C D) (cmd : Command C D) :
    (b.step cmd).1.sendMode = b.sendMode ∧ (b.step cmd).1.delivery = b.delivery := by
  have hturn := b.turn_step cmd
  generalize b.step cmd = r at hturn
  cases hturn with
  | sent => exact ⟨(b.sameTable_transmit _ _ _).sendMode, (b.sameTable_transmit _ _ _).delivery⟩
  | @resent msgId p =>
    have htable := (b.forget msgId).sameTable_transmit p.identity p.data (p.retries - 1)
    exact ⟨htable.sendMode, htable.delivery⟩
  | @connected identity writer _ _ =>
    have htable := (b.connect identity writer).sameTable_transmitAll b.buffer
    exact ⟨htable.sendMode, htable.delivery⟩
  | buffered | turnedAway | disconnected | data | dataReq | acked | ackIgnored | hello | heartbeat
  | timeoutIgnored | gaveUp | rebuffered | close => exact ⟨rfl, rfl⟩

end Broker

namespace Session

variable {S D : Type} [DecidableEq S] {ident : S → Identity} {w : World S D}

/-- No writer is in the table twice, nor is one that is about to come. -/
theorem Inv.writers_nodup (h : Inv ident w) {p : Posted S D} {rest : List (Posted S D)}
    (hqueue : w.queue = p :: rest) : (w.broker.writers ++ p.cmd.writer?.toList).Nodup := by
  have hlive : ∀ s ∈ w.broker.writers, ∃ id, w.broker.conns.lookup id = some s := by
    intro s hs
    obtain ⟨entry, hentry, rfl⟩ := List.mem_map.mp hs
    exact ⟨entry.1, AList.mem_lookup_iff.mpr hentry⟩
  have hwriters : w.broker.writers.Nodup := by
    refine List.Nodup.map_on (fun e he e' he' heq => ?_) w.broker.conns.nodupKeys.nodup
    obtain ⟨id, s⟩ := e
    obtain ⟨id', s'⟩ := e'
    obtain rfl : s = s' := heq
    obtain ⟨rfl, -⟩ := (h.table id s).mp (AList.mem_lookup_iff.mpr he)
    obtain ⟨rfl, -⟩ := (h.table id' s).mp (AList.mem_lookup_iff.mpr he')
    rfl
  cases hwriter : p.cmd.writer? with
  | none => simpa using hwriters
  | some s =>
    refine List.nodup_append.mpr ⟨hwriters, List.nodup_singleton s, fun s' hs' t ht => ?_⟩
    obtain rfl := List.mem_singleton.mp ht
    rintro rfl
    -- the session has not been answered, so it is not in the table
    obtain ⟨id, hid⟩ := hlive s' hs'
    obtain ⟨-, hanswer, -⟩ := (h.table id s').mp hid
    obtain ⟨origin, cmd⟩ := p
    cases origin with
    | none =>
      obtain ⟨_, _, rfl⟩ | ⟨_, rfl⟩ := h.others _ (hqueue ▸ List.mem_cons_self) rfl <;>
        exact absurd hwriter nofun
    | some s =>
      have hstage := h.stage s
      rw [World.outstanding_process_self hqueue] at hstage
      have htaken := hstage.taken
      generalize hanswers : w.answers s = answers at htaken
      generalize w.downed s = downed at htaken
      cases htaken with
      | up =>
        obtain rfl := Option.some.inj hwriter
        rw [hanswers] at hanswer
        exact absurd hanswer List.not_mem_nil
      | received | down => exact absurd hwriter nofun

theorem Inv.sentPlain_process (h : Inv ident w) (hsent : SentPlain w) {p : Posted S D}
    {rest : List (Posted S D)} (hqueue : w.queue = p :: rest) : SentPlain (w.process p rest) where
  plain := hsent.plain.step p.cmd
  transmitted := by
    show (Aiomsg.transmitted (w.process p rest).effects).map _ ++ (w.broker.step p.cmd).1.buffer = _
    rw [effects_process, transmitted_append, List.map_append, List.append_assoc,
      Broker.transmitted_step hsent.plain h.tidy, ← List.append_assoc, hsent.transmitted,
      sends_process]
  written s := by
    rw [effects_process, messagesOn_append, transmitted_append, List.map_append, List.map_append]
    refine (hsent.written s).append ?_
    rw [hsent.plain.messagesOn_step, List.map_map]
    have hdata := Broker.dataOn_step hsent.plain p.cmd (h.writers_nodup hqueue) s
    simpa [Function.comp_def] using hdata

theorem Inv.ledger_process (h : Inv ident w) (hledger : Ledger w) {p : Posted S D}
    {rest : List (Posted S D)} (hqueue : w.queue = p :: rest) : Ledger (w.process p rest) where
  requests := by
    rw [effects_process, Broker.requests_append, issued_append]
    exact hledger.requests.append (w.broker.requests_step p.cmd)
  roundRobin hmode := by
    rw [show (w.process p rest).broker = (w.broker.step p.cmd).1 from rfl,
      (w.broker.modes_step p.cmd).1] at hmode
    rw [effects_process, messages_append, stamps_append]
    exact (hledger.roundRobin hmode).append (Broker.messages_step hmode p.cmd)
  atMostOnce hdelivery := by
    rw [show (w.process p rest).broker = (w.broker.step p.cmd).1 from rfl,
      (w.broker.modes_step p.cmd).2] at hdelivery
    exact h.sentPlain_process (hledger.atMostOnce hdelivery) hqueue

/-- A step in which the broker does nothing. -/
theorem Ledger.of_eq {w' : World S D} (h : Ledger w) (hbroker : w'.broker = w.broker)
    (hlog : w'.log = w.log) : Ledger w' := by
  obtain ⟨broker, queue, phase, log⟩ := w'
  obtain rfl : broker = w.broker := hbroker
  obtain rfl : log = w.log := hlog
  refine ⟨h.requests, h.roundRobin, fun hdelivery => ?_⟩
  have hsent := h.atMostOnce hdelivery
  exact ⟨hsent.plain, hsent.transmitted, hsent.written⟩

/-- **In every reachable state what is on writers is accounted for.** -/
theorem ledger_of_reachable (hreach : (system S D ident).Reachable w) : Ledger w := by
  refine hreach.invariant_over (fun _ => inv_of_reachable) ?_ ?_
  · rintro _ ⟨_, _, _, rfl⟩
    refine ⟨List.Sublist.refl _, fun _ => List.Sublist.refl _, fun hdelivery => ?_⟩
    exact ⟨⟨hdelivery, fun _ => rfl⟩, rfl, fun _ => List.Sublist.refl _⟩
  · rintro w w' hinv hledger hstep
    cases hstep with
    | process hqueue => exact hinv.ledger_process hledger hqueue
    | up | accepted | rejected | forward | down | send | timeout => exact hledger.of_eq rfl rfl

end Session

end Aiomsg
