import Aiomsg.Protocol.FrameDecoder
import Aiomsg.Ws.Stream
import Mathlib.Data.List.TakeWhile

/-!
# What a session hands to the broker

`conn_session` in `c-lib/src/aiomsg.c` and `runConnection` in `zig-lib/src/aiomsg.zig` are the same
function twice. Behind an upgrade a session reads until it has the peer's HELLO, registers, hands
the broker what came with the HELLO, and then, after every read that brings bytes, what has come
since. A read that brings bytes runs them through the WebSocket parser, which pushes what frames
carry into the decoder and says whether the connection must end. If it must, the session ends there:
what that read has pushed stays in the decoder.

`Port` is what the two have each in their own way, and `Port.session` is what they share. A session
is given what each of its reads brings, nothing where it times out. Where it ends for another reason
than what it has read (the peer closes, a write fails, the peer is silent for too long, shutdown)
its reads end there. Writes succeed until then, and what is written is not looked at here.

## Scope

The broker is not here, and `accepted` is its answer. Time is in the reads that bring nothing. On
plain TCP a session has no parser in front of its decoder, and the question that is asked here does
not come up.

## Main definitions

* `commandsIn` — the envelopes for the broker that a stream carries
* `Port`, `Port.session` — a session
* `heard` — the bytes of all reads before the one with which the connection ends
* `EndsAlone` — no envelope for the broker is completed in that read

## Main results

* `Port.Lawful.session_eq` — what a session hands to the broker is what `heard` carries
* `poppedIn_heard_iff` — when that is what the whole stream carries
-/

namespace Aiomsg

namespace Ws

/-! ### Envelopes for the broker -/

/-- HELLO and HEARTBEAT are not for the broker. -/
def forBroker : Envelope Bytes → Bool
  | .hello .. | .heartbeat => false
  | .data _ | .dataReq .. | .ack _ => true

/-- An envelope as it is handed to the broker. -/
def command (env : Bytes) : Option (Envelope Bytes) := (Protocol.decode env).filter forBroker

/-- The envelopes that are complete in what a stream carries. -/
def envelopesIn (stream : Bytes) : List Bytes := LengthPrefix.deframer.items (carriedIn stream)

/-- Those of them that are for the broker. -/
def commandsIn (stream : Bytes) : List (Envelope Bytes) := (envelopesIn stream).filterMap command

/-- The bytes of all reads before the one in which there is a reason for the connection to end. -/
def heard (stream : Bytes) : List Bytes → Bytes
  | [] => stream
  | data :: reads =>
    if (reason (stream ++ data)).isSome then stream else heard (stream ++ data) reads

/-- The read in which there is a reason for the connection to end completes no envelope for the
broker. -/
def EndsAlone (stream : Bytes) : List Bytes → Prop
  | [] => True
  | data :: reads =>
    if (reason (stream ++ data)).isSome then commandsIn (stream ++ data) = commandsIn stream
    else EndsAlone (stream ++ data) reads

instance decidableEndsAlone : ∀ stream reads, Decidable (EndsAlone stream reads)
  | _, [] => .isTrue trivial
  | stream, data :: reads =>
    have := decidableEndsAlone (stream ++ data) reads
    inferInstanceAs (Decidable (if (reason (stream ++ data)).isSome
      then commandsIn (stream ++ data) = commandsIn stream else EndsAlone (stream ++ data) reads))

/-- The envelopes of a stream before the first that is as long as `limit`. -/
def poppedIn (limit : ℕ) (stream : Bytes) : List Bytes :=
  (envelopesIn stream).takeWhile fun env => env.length < limit

/-- No envelope for the broker is as long as `limit`, or comes behind one that is. -/
def AllPopped (limit : ℕ) (stream : Bytes) : Prop :=
  ((envelopesIn stream).dropWhile fun env => env.length < limit).filterMap command = []

instance (limit : ℕ) (stream : Bytes) : Decidable (AllPopped limit stream) :=
  inferInstanceAs (Decidable (_ = _))

theorem exists_heard_eq (stream : Bytes) (reads : List Bytes) :
    ∃ more, heard stream reads = stream ++ more := by
  induction reads generalizing stream with
  | nil => exact ⟨[], (List.append_nil _).symm⟩
  | cons data reads ih =>
    rw [heard]
    split_ifs
    · exact ⟨[], (List.append_nil _).symm⟩
    · obtain ⟨more, hmore⟩ := ih (stream ++ data)
      exact ⟨data ++ more, by rw [hmore, List.append_assoc]⟩

/-! ### Streams that go on -/

section Coming

variable {buf rest : Bytes} {b : Item} {code : UInt16}

theorem reason_item (h : verdict buf = .item b rest) (more : Bytes) :
    reason (buf ++ more) = reason (rest ++ more) := by
  rw [reason, Deframer.drain_item (clientFrames.item_append more h), reason]

theorem reason_stop (h : verdict buf = .stop code) (more : Bytes) :
    reason (buf ++ more) = some code := by
  rw [reason, Deframer.drain_stop (clientFrames.stop_append more h)]
  rfl

theorem reason_more (h : verdict buf = .more) : reason buf = none := by
  rw [reason, Deframer.drain_more h]
  rfl

/-- Nothing is carried behind a reason to stop. -/
theorem carriedIn_append (h : (reason buf).isSome) (more : Bytes) :
    carriedIn (buf ++ more) = carriedIn buf := by
  obtain ⟨code, hcode⟩ := Option.isSome_iff_exists.mp h
  rw [carriedIn, carriedIn, Deframer.drain_append_of_stop (Sum.getRight?_eq_some_iff.mp hcode)]

end Coming

/-- The condition, read as a statement about all of the bytes. -/
theorem endsAlone_iff (stream : Bytes) (reads : List Bytes) :
    EndsAlone stream reads ↔
      commandsIn (heard stream reads) = commandsIn (stream ++ reads.flatten) := by
  induction reads generalizing stream with
  | nil => simp [EndsAlone, heard]
  | cons data reads ih =>
    rw [EndsAlone, heard, List.flatten_cons, ← List.append_assoc]
    split_ifs with hend
    · have hall : commandsIn (stream ++ data ++ reads.flatten) = commandsIn (stream ++ data) := by
        rw [commandsIn, envelopesIn, carriedIn_append hend, commandsIn, envelopesIn]
      rw [hall]
      exact eq_comm
    · exact ih (stream ++ data)

/-- More bytes carry more envelopes. -/
theorem exists_envelopesIn_append (stream more : Bytes) :
    ∃ rest, envelopesIn (stream ++ more) = envelopesIn stream ++ rest := by
  rcases hdrain : (clientFrames.drain stream).2 with left | code
  · have hcarried : carriedIn (stream ++ more) = carriedIn stream ++ carriedIn (left ++ more) := by
      rw [carriedIn, Deframer.drain_append hdrain, List.flatMap_append, carriedIn, carriedIn]
    exact ⟨_, by rw [envelopesIn, hcarried, Deframer.items_append, envelopesIn]⟩
  · have hend : (reason stream).isSome := by rw [reason, hdrain]; rfl
    exact ⟨[], by rw [envelopesIn, carriedIn_append hend, envelopesIn, List.append_nil]⟩

/-- What is heard carries a first part of it all. -/
theorem exists_commandsIn_eq (stream : Bytes) (reads : List Bytes) :
    ∃ rest, commandsIn (stream ++ reads.flatten) = commandsIn (heard stream reads) ++ rest := by
  induction reads generalizing stream with
  | nil => exact ⟨[], by simp [heard]⟩
  | cons data reads ih =>
    rw [heard, List.flatten_cons]
    split_ifs
    · obtain ⟨rest, hrest⟩ := exists_envelopesIn_append stream (data ++ reads.flatten)
      exact ⟨rest.filterMap command, by rw [commandsIn, hrest, List.filterMap_append, commandsIn]⟩
    · rw [← List.append_assoc]
      exact ih (stream ++ data)

/-- Every envelope is shorter than `2 ^ 32` bytes. -/
theorem allPopped_two_pow (stream : Bytes) : AllPopped (2 ^ 32) stream := by
  have hshort := LengthPrefix.length_lt_of_mem_items (carriedIn stream)
  have hnone : (envelopesIn stream).dropWhile (fun env => env.length < 2 ^ 32) = [] :=
    List.dropWhile_eq_nil_iff.mpr fun env henv => decide_eq_true (hshort env henv)
  rw [AllPopped, hnone, List.filterMap_nil]

/-- **When it is all there is.** -/
theorem poppedIn_heard_iff (limit : ℕ) (stream : Bytes) (reads : List Bytes) :
    (poppedIn limit (heard stream reads)).filterMap command
        = commandsIn (stream ++ reads.flatten) ↔
      EndsAlone stream reads ∧ AllPopped limit (heard stream reads) := by
  have hpopped : (poppedIn limit (heard stream reads)).filterMap command
      ++ ((envelopesIn (heard stream reads)).dropWhile fun env => env.length < limit).filterMap
        command = commandsIn (heard stream reads) := by
    rw [poppedIn, ← List.filterMap_append, List.takeWhile_append_dropWhile, commandsIn]
  obtain ⟨rest, hrest⟩ := exists_commandsIn_eq stream reads
  rw [endsAlone_iff, AllPopped]
  constructor
  · intro hall
    rw [hrest, ← hpopped, List.append_assoc] at hall
    obtain ⟨hnone, hnil⟩ := List.append_eq_nil_iff.mp (List.self_eq_append_right.mp hall)
    rw [hrest, hnil, List.append_nil]
    exact ⟨rfl, hnone⟩
  · rintro ⟨hends, hnone⟩
    rw [← hends, ← hpopped, hnone, List.append_nil]

/-- What a parser does with the bytes in `buf`. If the connection goes on, it has taken the first
part of what they carry, whatever arrives later, and keeps the bytes for the rest; if the connection
must end it has taken all of it. -/
inductive Taken (buf : Bytes) : Bool → Bytes → Bytes → Prop
  | goesOn {pushed input : Bytes} (hmore : verdict input = .more)
      (hcarried : ∀ more, carriedIn (buf ++ more) = pushed ++ carriedIn (input ++ more))
      (hreason : ∀ more, reason (buf ++ more) = reason (input ++ more)) :
      Taken buf true pushed input
  | ends {pushed input : Bytes} (hcarried : ∀ more, carriedIn (buf ++ more) = pushed)
      (hreason : (reason buf).isSome) : Taken buf false pushed input

/-! ### Sessions -/

/-- What a read comes to. -/
inductive ReadResult where
  | data
  | idle
  | closed
deriving DecidableEq

/-- What popping an envelope comes to: there is none, there is one, or the process is gone. -/
inductive Popped (σ : Type) where
  | none
  | envelope (env : Bytes) (s : σ)
  | panic

/-- What the ports have each in their own way. `σ` is what a session holds of its connection. -/
structure Port (σ : Type) where
  /-- The end of the upgrade, with the bytes that were read past the request. -/
  upgrade : Bytes → Option σ
  connRead : σ → Bytes → ReadResult × σ
  pop : σ → Popped σ
  /-- All envelopes, and what is held then if the process is still there. -/
  popAll : σ → List Bytes × Option σ
  parseEnvelope : Bytes → Option (Envelope Bytes)

namespace Port

variable {σ : Type} (p : Port σ)

/-- The identity in a HELLO of this version. -/
def greeting (env : Bytes) : Option Identity :=
  match p.parseEnvelope env with
  | some (.hello version identity) =>
    if version = Protocol.protocolVersion then some identity else none
  | _ => none

/-- `read_hello`: the peer's identity, what is held then, and the reads that are left. -/
def readHello (s : σ) (reads : List Bytes) : Option (Identity × σ × List Bytes) :=
  match p.pop s, reads with
  | .envelope env s, reads => (p.greeting env).map fun identity => (identity, s, reads)
  | .panic, _ => none
  | .none, [] => none
  | .none, data :: reads =>
    match p.connRead s data with
    | (.closed, _) => none
    | (_, s) => readHello s reads

/-- `forward_frames`: forward every buffered frame to the broker. -/
def forwardFrames (s : σ) : List (Envelope Bytes) × Option σ :=
  ((p.popAll s).1.filterMap fun env => (p.parseEnvelope env).filter forBroker, (p.popAll s).2)

/-- The loop of a registered session. -/
def steady (s : σ) : List Bytes → List (Envelope Bytes)
  | [] => []
  | data :: reads =>
    match p.connRead s data with
    | (.closed, _) => []
    | (.idle, s) => steady s reads
    | (.data, s) =>
      match p.forwardFrames s with
      | (commands, some s) => commands ++ steady s reads
      | (commands, none) => commands

/-- A session behind an upgrade, which the broker may turn down. If it is registered, the peer and
what is handed to the broker for it. -/
def session (leftover : Bytes) (accepted : Bool) (reads : List Bytes) :
    Option (Identity × List (Envelope Bytes)) :=
  match p.upgrade leftover with
  | none => none
  | some s =>
    match p.readHello s reads with
    | none => none
    | some (peer, s, reads) =>
      if accepted then
        match p.forwardFrames s with
        | (commands, some s) => some (peer, commands ++ p.steady s reads)
        | (commands, none) => some (peer, commands)
      else none

/-- What a port must do. `input` is what the parser keeps and `content` what the decoder keeps. A
port whose decoder can cut off any envelope below `2 ^ 32` bytes has that as its `limit`; another
may be gone at a longer one. -/
structure Lawful (input content : σ → Bytes) (Valid : σ → Prop) (limit : ℕ) : Prop where
  parse : p.parseEnvelope = Protocol.decode
  upgrade : ∀ {leftover s}, p.upgrade leftover = some s →
    Valid s ∧ Taken leftover true (content s) (input s)
  timeout : ∀ s, p.connRead s [] = (.idle, s)
  read : ∀ {s data}, Valid s → verdict (input s) = .more → data ≠ [] → ∃ pushed s',
    p.connRead s data = (.data, s') ∧ Taken (input s ++ data) true pushed (input s') ∧
        Valid s' ∧ content s' = content s ++ pushed ∨
      p.connRead s data = (.closed, s') ∧ Taken (input s ++ data) false pushed (input s')
  pop : ∀ {s env s'}, Valid s → p.pop s = .envelope env s' →
    LengthPrefix.deframer.parse (content s) = .item env (content s') ∧ env.length < limit ∧
      Valid s' ∧ input s' = input s
  popAll : ∀ {s envs s'}, Valid s → p.popAll s = (envs, some s') →
    envs = LengthPrefix.deframer.items (content s) ∧ (∀ env ∈ envs, env.length < limit) ∧
      content s' = LengthPrefix.deframer.leftover (content s) ∧ Valid s' ∧ input s' = input s
  panic : ∀ {s envs}, Valid s → p.popAll s = (envs, none) → ∀ more,
    (LengthPrefix.deframer.items (content s ++ more)).takeWhile (·.length < limit) = envs

/-- A session between two reads: the envelopes `taken` of the stream so far have been popped, and
what comes of the stream later comes of what is held. -/
structure Caught (input content : σ → Bytes) (Valid : σ → Prop) (limit : ℕ) (stream : Bytes)
    (taken : List Bytes) (s : σ) : Prop where
  valid : Valid s
  more : verdict (input s) = .more
  envelopes : ∀ more, envelopesIn (stream ++ more)
    = taken ++ LengthPrefix.deframer.items (content s ++ carriedIn (input s ++ more))
  reason : ∀ more, reason (stream ++ more) = reason (input s ++ more)
  short : ∀ env ∈ taken, env.length < limit

section Lawful

variable {p} {input content : σ → Bytes} {Valid : σ → Prop} {limit : ℕ} {stream : Bytes}
  {taken : List Bytes} {s s' : σ}

theorem Caught.envelopesIn_eq (h : Caught input content Valid limit stream taken s) :
    envelopesIn stream = taken ++ LengthPrefix.deframer.items (content s) := by
  have henvelopes := h.envelopes []
  rwa [List.append_nil, List.append_nil, carriedIn_more h.more, List.append_nil] at henvelopes

theorem Caught.reason_eq (h : Caught input content Valid limit stream taken s) :
    Ws.reason stream = none := by
  have hreason := h.reason []
  rwa [List.append_nil, List.append_nil, reason_more h.more] at hreason

theorem Lawful.caught_upgrade (h : p.Lawful input content Valid limit) {leftover : Bytes}
    (hupgrade : p.upgrade leftover = some s) :
    Caught input content Valid limit leftover [] s := by
  obtain ⟨hvalid, htaken⟩ := h.upgrade hupgrade
  cases htaken with
  | goesOn hmore hcarried hreason =>
    refine ⟨hvalid, hmore, fun more => ?_, hreason, nofun⟩
    rw [envelopesIn, hcarried, List.nil_append]

/-- A read after which the session goes on. -/
theorem Caught.read (hs : Caught input content Valid limit stream taken s)
    (h : p.Lawful input content Valid limit) {data : Bytes} {r : ReadResult}
    (hread : p.connRead s data = (r, s')) (hopen : r ≠ .closed) :
    Caught input content Valid limit (stream ++ data) taken s' := by
  by_cases hdata : data = []
  · subst hdata
    cases (h.timeout s).symm.trans hread
    rwa [List.append_nil]
  · obtain ⟨pushed, s₁, ⟨hread₁, htaken, hvalid, hcontent⟩ | ⟨hread₁, -⟩⟩ :=
      h.read hs.valid hs.more hdata
    · cases hread₁.symm.trans hread
      cases htaken with
      | goesOn hmore hcarried hreason =>
        refine ⟨hvalid, hmore, fun more => ?_, fun more => ?_, hs.short⟩
        · rw [List.append_assoc, hs.envelopes, ← List.append_assoc, hcarried, hcontent,
            List.append_assoc]
        · rw [List.append_assoc, hs.reason, ← List.append_assoc, hreason]
    · cases hread₁.symm.trans hread
      exact absurd rfl hopen

/-- The read with which the connection ends. -/
theorem Caught.ended (hs : Caught input content Valid limit stream taken s)
    (h : p.Lawful input content Valid limit) {data : Bytes}
    (hread : p.connRead s data = (.closed, s')) : (Ws.reason (stream ++ data)).isSome := by
  by_cases hdata : data = []
  · subst hdata
    cases (h.timeout s).symm.trans hread
  · obtain ⟨pushed, s₁, ⟨hread₁, -⟩ | ⟨hread₁, htaken⟩⟩ := h.read hs.valid hs.more hdata
    · cases hread₁.symm.trans hread
    · cases hread₁.symm.trans hread
      cases htaken with
      | ends hcarried hreason => rwa [hs.reason]

/-- A read that times out brings nothing. -/
theorem Caught.envelopesIn_of_idle (hs : Caught input content Valid limit stream taken s)
    (h : p.Lawful input content Valid limit) {data : Bytes}
    (hread : p.connRead s data = (.idle, s')) (hall : envelopesIn stream = taken) :
    envelopesIn (stream ++ data) = taken := by
  by_cases hdata : data = []
  · rw [hdata, List.append_nil, hall]
  · obtain ⟨pushed, s₁, ⟨hread₁, -⟩ | ⟨hread₁, -⟩⟩ := h.read hs.valid hs.more hdata
    · cases hread₁.symm.trans hread
    · cases hread₁.symm.trans hread

/-- All envelopes are popped, and the process is still there. -/
theorem Caught.popAll (hs : Caught input content Valid limit stream taken s)
    (h : p.Lawful input content Valid limit) {envs : List Bytes}
    (hpop : p.popAll s = (envs, some s')) :
    Caught input content Valid limit stream (taken ++ envs) s' ∧
      envelopesIn stream = taken ++ envs := by
  obtain ⟨rfl, hshort, hcontent, hvalid, hinput⟩ := h.popAll hs.valid hpop
  refine ⟨⟨hvalid, hinput ▸ hs.more, fun more => ?_, fun more => ?_, ?_⟩, hs.envelopesIn_eq⟩
  · rw [hs.envelopes, Deframer.items_append, hcontent, hinput, List.append_assoc]
  · rw [hs.reason, hinput]
  · exact List.forall_mem_append.mpr ⟨hs.short, hshort⟩

theorem takeWhile_append_of_short {limit : ℕ} {taken : List Bytes}
    (h : ∀ env ∈ taken, env.length < limit) (envs : List Bytes) :
    (taken ++ envs).takeWhile (fun env => env.length < limit)
      = taken ++ envs.takeWhile fun env => env.length < limit :=
  List.takeWhile_append_of_pos fun env henv => decide_eq_true (h env henv)

/-- Envelopes are popped until the process is gone. -/
theorem Caught.panic (hs : Caught input content Valid limit stream taken s)
    (h : p.Lawful input content Valid limit) {envs : List Bytes}
    (hpop : p.popAll s = (envs, none)) (more : Bytes) :
    (envelopesIn (stream ++ more)).takeWhile (fun env => env.length < limit) = taken ++ envs := by
  rw [hs.envelopes, takeWhile_append_of_short hs.short, h.panic hs.valid hpop]

theorem Lawful.forwardFrames (h : p.Lawful input content Valid limit) (s : σ) :
    p.forwardFrames s = ((p.popAll s).1.filterMap command, (p.popAll s).2) := by
  rw [Port.forwardFrames, h.parse]
  rfl

theorem Caught.poppedIn_eq (hs : Caught input content Valid limit stream taken s)
    (hall : envelopesIn stream = taken) : poppedIn limit stream = taken := by
  have happend := takeWhile_append_of_short hs.short []
  rw [List.append_nil, List.takeWhile_nil, List.append_nil] at happend
  rw [poppedIn, hall, happend]

/-- A HELLO is popped. -/
theorem Caught.pop (hs : Caught input content Valid limit stream [] s)
    (h : p.Lawful input content Valid limit) {env : Bytes} (hpop : p.pop s = .envelope env s') :
    Caught input content Valid limit stream [env] s' := by
  obtain ⟨hitem, hshort, hvalid, hinput⟩ := h.pop hs.valid hpop
  refine ⟨hvalid, hinput ▸ hs.more, fun more => ?_, fun more => ?_, ?_⟩
  · rw [hs.envelopes, hinput, Deframer.items_of_item (LengthPrefix.deframer.item_append _ hitem)]
    rfl
  · rw [hs.reason, hinput]
  · exact List.forall_mem_singleton.mpr hshort

theorem Lawful.command_of_greeting (h : p.Lawful input content Valid limit) {env : Bytes}
    {identity : Identity} (hgreeting : p.greeting env = some identity) : command env = none := by
  rw [greeting, h.parse] at hgreeting
  rw [command]
  cases hdecode : Protocol.decode env with
  | none => rfl
  | some e =>
    rw [hdecode] at hgreeting
    cases e with
    | hello version identity' => rfl
    | _ => cases hgreeting

/-- **The handshake** leaves a session between two reads, with the HELLO popped. -/
theorem Caught.readHello {peer : Identity} {reads reads' : List Bytes}
    (hs : Caught input content Valid limit stream [] s) (h : p.Lawful input content Valid limit)
    (hhello : p.readHello s reads = some (peer, s', reads')) :
    ∃ stream' env, Caught input content Valid limit stream' [env] s' ∧ command env = none ∧
      heard stream reads = heard stream' reads' := by
  induction reads generalizing stream s with
  | nil =>
    rw [Port.readHello.eq_def] at hhello
    rcases hpop : p.pop s with _ | ⟨env, s₁⟩ | _
    · rw [hpop] at hhello
      cases hhello
    · rw [hpop] at hhello
      obtain ⟨identity, hgreeting, heq⟩ := Option.map_eq_some_iff.mp hhello
      cases heq
      exact ⟨stream, env, hs.pop h hpop, h.command_of_greeting hgreeting, rfl⟩
    · rw [hpop] at hhello
      cases hhello
  | cons data reads ih =>
    rw [Port.readHello.eq_def] at hhello
    rcases hpop : p.pop s with _ | ⟨env, s₁⟩ | _
    · rw [hpop] at hhello
      rcases hread : p.connRead s data with ⟨r, s₁⟩
      simp only [hread] at hhello
      have hopen : r ≠ .closed := by
        rintro rfl
        cases hhello
      have hs₁ := hs.read h hread hopen
      have hrest : p.readHello s₁ reads = some (peer, s', reads') := by
        cases r with
        | closed => exact absurd rfl hopen
        | idle | data => exact hhello
      obtain ⟨stream', env, hs', hcommand, hheard⟩ := ih hs₁ hrest
      refine ⟨stream', env, hs', hcommand, ?_⟩
      rw [heard, if_neg (by rw [hs₁.reason_eq]; simp), hheard]
    · rw [hpop] at hhello
      obtain ⟨identity, hgreeting, heq⟩ := Option.map_eq_some_iff.mp hhello
      cases heq
      exact ⟨stream, env, hs.pop h hpop, h.command_of_greeting hgreeting, rfl⟩
    · rw [hpop] at hhello
      cases hhello

/-- **The loop of a session** hands on what is popped of the reads before the one with which the
connection ends. -/
theorem Caught.steady_eq (hs : Caught input content Valid limit stream taken s)
    (h : p.Lawful input content Valid limit) (hall : envelopesIn stream = taken)
    (reads : List Bytes) : (poppedIn limit (heard stream reads)).filterMap command
      = taken.filterMap command ++ p.steady s reads := by
  induction reads generalizing stream taken s with
  | nil => rw [heard, hs.poppedIn_eq hall, steady, List.append_nil]
  | cons data reads ih =>
    rw [heard, steady]
    rcases hread : p.connRead s data with ⟨r, s'⟩
    cases r with
    | closed =>
      rw [if_pos (hs.ended h hread), hs.poppedIn_eq hall]
      exact (List.append_nil _).symm
    | idle =>
      have hs' := hs.read h hread (by simp)
      rw [if_neg (by rw [hs'.reason_eq]; simp)]
      exact ih hs' (hs.envelopesIn_of_idle h hread hall)
    | data =>
      have hs' := hs.read h hread (by simp)
      rw [if_neg (by rw [hs'.reason_eq]; simp)]
      dsimp only
      rw [h.forwardFrames]
      rcases hpop : p.popAll s' with ⟨envs, _ | s''⟩
      · obtain ⟨more, hmore⟩ := exists_heard_eq (stream ++ data) reads
        rw [hmore, poppedIn, hs'.panic h hpop, List.filterMap_append]
      · obtain ⟨hs'', hall'⟩ := hs'.popAll h hpop
        rw [ih hs'' hall', List.filterMap_append, List.append_assoc]

/-- **What a session hands to the broker** is what is popped of the reads before the one with which
the connection ends. -/
theorem Lawful.session_eq (h : p.Lawful input content Valid limit) {leftover : Bytes}
    {accepted : Bool} {reads : List Bytes} {peer : Identity} {commands : List (Envelope Bytes)}
    (hsession : p.session leftover accepted reads = some (peer, commands)) :
    commands = (poppedIn limit (heard leftover reads)).filterMap command := by
  rw [session] at hsession
  rcases hupgrade : p.upgrade leftover with _ | s
  · rw [hupgrade] at hsession
    cases hsession
  rw [hupgrade] at hsession
  dsimp only at hsession
  rcases hhello : p.readHello s reads with _ | ⟨peer', s', reads'⟩
  · rw [hhello] at hsession
    cases hsession
  obtain ⟨stream', env, hs', hcommand, hheard⟩ := (h.caught_upgrade hupgrade).readHello h hhello
  have hnone : [env].filterMap command = [] := by rw [List.filterMap_cons_none hcommand]; rfl
  rw [hhello] at hsession
  dsimp only at hsession
  split_ifs at hsession
  rw [h.forwardFrames] at hsession
  rcases hpop : p.popAll s' with ⟨envs, _ | s''⟩
  · rw [hpop] at hsession
    cases hsession
    obtain ⟨more, hmore⟩ := exists_heard_eq stream' reads'
    rw [hheard, hmore, poppedIn, hs'.panic h hpop, List.filterMap_append, hnone, List.nil_append]
  · rw [hpop] at hsession
    cases hsession
    obtain ⟨hs'', hall⟩ := hs'.popAll h hpop
    rw [hheard, hs''.steady_eq h hall, List.filterMap_append, hnone, List.nil_append]

end Lawful

end Port

end Ws

end Aiomsg
