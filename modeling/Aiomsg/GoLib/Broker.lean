import Aiomsg.Broker.Basic

/-!
# The Go broker

`golang-lib/broker.go`: the goroutine that owns the connections, the routing, the send buffer and
the table of unacknowledged messages. It takes commands off an unbuffered channel one at a time.

## What a handler returns

Everything a handler touches belongs to the broker, except for the channels it sends on, and no
handler looks at what became of a send. So a handler is a function on brokers that returns the
channel operations it makes, in the order in which it makes them. Other goroutines run between any
two of these; `Socket.step` performs them one at a time.

A connection makes one writer channel and one accept channel, so both are named by the number of the
connection. `hasIdentity` and `identity` are one optional identity. Message ids are random: `rand`
is the sequence of values that `rand.Read` fills in, and `drawn` says how many have been used. The
timer of a transmission and its cancel channel are named by the position of its id in the sequence.
The round-robin cursor is a natural number; the source's `int` would overflow after `2 ^ 63` sends.

## Scope

The handlers are all here, with every branch. Left out is `startResendTimer`'s goroutine, which
belongs to the socket, and so does everything that a goroutine may do between two channel
operations.

A handler cannot fail and does not wait for an answer, so it is a function. Where the source ranges
over a map the model takes one order; docstrings say why no other could be told apart from it.

## Main definitions

* `Broker.handleSend`, `transmit`, `route`, `handleUp`, `handleDown`, `handleReceived`,
  `handleResend` — the handlers, one for one
* `Broker.handle` — one turn of the loop

## Main results

* `Broker.Tidy.handle` — the round-robin order lists the connections
* `Broker.Within.handle` — a handler uses the channels of connections that are in the table
-/

namespace Aiomsg

namespace GoLib

def maxRetries : ℕ := 5

def recvBuffer : ℕ := 1024

def writerBuffer : ℕ := 256

/-- `command`: what the other goroutines ask of the broker. The constructors are the values of
`cmdKind`, each with the fields that its handler reads. -/
inductive Command (D : Type) where
  | send (identity : Option Identity) (data : D)
  | connUp (identity : Identity) (conn : ℕ)
  | connDown (identity : Identity)
  | received (identity : Identity) (env : Envelope D)
  | resend (msgId : MsgId)

/-- A channel operation of the broker. These are the only things it does that another goroutine can
see. -/
inductive ChanOp (D : Type) where
  /-- `accept <- ok` -/
  | accept (conn : ℕ) (ok : Bool)
  /-- `trySend(ch, env)` on the writer channel of a connection. -/
  | trySend (conn : ℕ) (env : Envelope D)
  /-- `close(ch)` of the writer channel of a connection. -/
  | close (conn : ℕ)
  /-- The `select` of `deliver`. -/
  | deliver (identity : Identity) (data : D)
  /-- `startResendTimer` -/
  | startTimer (timer : ℕ) (msgId : MsgId)
  /-- `close(p.cancel)` -/
  | cancel (timer : ℕ)

/-- The connection whose accept or writer channel is used. -/
def ChanOp.conn {D : Type} : ChanOp D → Option ℕ
  | .accept conn _ => some conn
  | .trySend conn _ => some conn
  | .close conn => some conn
  | .deliver _ _ => none
  | .startTimer _ _ => none
  | .cancel _ => none

structure BufferedMsg (D : Type) where
  identity : Option Identity
  data : D

/-- The message that is sent. -/
def Command.message {D : Type} : Command D → Option (BufferedMsg D)
  | .send identity data => some ⟨identity, data⟩
  | _ => none

structure Pending (D : Type) where
  identity : Option Identity
  data : D
  retries : ℕ
  cancel : ℕ

/-- `broker`: what the goroutine owns. `conns` maps an identity to the number of its connection,
`order` is the same identities in the order in which they came, for the round robin, and `pending`
is keyed by message id. `drawn` is not in the source: it says how many ids have been drawn. -/
structure Broker (D : Type) where
  sendMode : SendMode
  delivery : DeliveryGuarantee
  conns : AList fun _ : Identity => ℕ
  order : List Identity
  rrCursor : ℕ
  buffer : List (BufferedMsg D)
  pending : AList fun _ : MsgId => Pending D
  drawn : ℕ

namespace Broker

variable {D : Type}

def new (sendMode : SendMode) (delivery : DeliveryGuarantee) : Broker D where
  sendMode := sendMode
  delivery := delivery
  conns := ∅
  order := []
  rrCursor := 0
  buffer := []
  pending := ∅
  drawn := 0

def nextRoundRobin (b : Broker D) : Option Identity × Broker D :=
  if b.order.isEmpty then (none, b)
  else (b.order[b.rrCursor % b.order.length]?, { b with rrCursor := b.rrCursor + 1 })

/-- `if ch, ok := b.conns[id]; ok { trySend(ch, env) }` -/
def sendTo (b : Broker D) (id : Identity) (env : Envelope D) : List (ChanOp D) :=
  match b.conns.lookup id with
  | some ch => [.trySend ch env]
  | none => []

/-- The order in which the source ranges over `conns` is unspecified. Each channel gets the envelope
once, so it does not show on any of them. -/
def route (b : Broker D) (identity : Option Identity) (env : Envelope D) :
    Broker D × List (ChanOp D) :=
  match identity with
  | some id => (b, b.sendTo id env)
  | none =>
    match b.sendMode with
    | .publish => (b, b.conns.entries.map fun entry => .trySend entry.2 env)
    | .roundRobin =>
      match b.nextRoundRobin with
      | (some target, b') => (b', b'.sendTo target env)
      | (none, b') => (b', [])

variable (rand : ℕ → MsgId)

def atLeastOnce (b : Broker D) (identity : Option Identity) : Bool :=
  b.delivery == .atLeastOnce && (identity.isSome || b.sendMode == .roundRobin)

def transmit (b : Broker D) (identity : Option Identity) (data : D) (retries : ℕ) :
    Broker D × List (ChanOp D) :=
  if b.atLeastOnce identity then
    let mid := rand b.drawn
    let b' := { b with
      pending := b.pending.insert mid ⟨identity, data, retries, b.drawn⟩, drawn := b.drawn + 1 }
    let routed := b'.route identity (.dataReq mid data)
    (routed.1, .startTimer b.drawn mid :: routed.2)
  else b.route identity (.data data)

def handleSend (b : Broker D) (identity : Option Identity) (data : D) :
    Broker D × List (ChanOp D) :=
  if b.conns.entries.isEmpty then ({ b with buffer := b.buffer ++ [⟨identity, data⟩] }, [])
  else b.transmit rand identity data maxRetries

/-- `for _, m := range buffered { b.handleSend(m.identity, m.hasIdentity, m.data) }` -/
def sendAll (b : Broker D) : List (BufferedMsg D) → Broker D × List (ChanOp D)
  | [] => (b, [])
  | m :: rest =>
    let sent := b.handleSend rand m.identity m.data
    ((sent.1.sendAll rest).1, sent.2 ++ (sent.1.sendAll rest).2)

def handleUp (b : Broker D) (identity : Identity) (conn : ℕ) : Broker D × List (ChanOp D) :=
  if (b.conns.lookup identity).isSome then (b, [.accept conn false])
  else
    let b' := { b with conns := b.conns.insert identity conn, order := b.order ++ [identity] }
    let flushed := { b' with buffer := [] }.sendAll rand b'.buffer
    (flushed.1, .accept conn true :: flushed.2)

/-- The loop over `order` removes the first entry that is the identity. -/
def handleDown (b : Broker D) (identity : Identity) : Broker D × List (ChanOp D) :=
  ({ b with conns := b.conns.erase identity, order := b.order.erase identity },
    match b.conns.lookup identity with
    | some ch => [.close ch]
    | none => [])

def handleReceived (b : Broker D) (identity : Identity) (env : Envelope D) :
    Broker D × List (ChanOp D) :=
  match env with
  | .data payload => (b, [.deliver identity payload])
  | .dataReq msgId payload =>
    let routed := b.route (some identity) (.ack msgId)
    (routed.1, .deliver identity payload :: routed.2)
  | .ack msgId =>
    match b.pending.lookup msgId with
    | some p => ({ b with pending := b.pending.erase msgId }, [.cancel p.cancel])
    | none => (b, [])
  | .hello _ _ => (b, [])
  | .heartbeat => (b, [])

def handleResend (b : Broker D) (msgId : MsgId) : Broker D × List (ChanOp D) :=
  match b.pending.lookup msgId with
  | none => (b, [])
  | some p =>
    let b' := { b with pending := b.pending.erase msgId }
    if p.retries = 0 then (b', [])
    else if b'.conns.entries.isEmpty then
      ({ b' with buffer := b'.buffer ++ [⟨p.identity, p.data⟩] }, [])
    else b'.transmit rand p.identity p.data (p.retries - 1)

/-- One turn of the loop of `run`. -/
def handle (b : Broker D) : Command D → Broker D × List (ChanOp D)
  | .send identity data => b.handleSend rand identity data
  | .connUp identity conn => b.handleUp rand identity conn
  | .connDown identity => b.handleDown identity
  | .received identity env => b.handleReceived identity env
  | .resend msgId => b.handleResend rand msgId

/-- The order in which the source ranges over `pending` and `conns` is unspecified. `close(b.recv)`,
the last thing it does, is seen by the application only. -/
def shutdown (b : Broker D) : List (ChanOp D) :=
  (b.pending.entries.map fun entry => .cancel entry.2.cancel) ++
    b.conns.entries.map fun entry => .close entry.2

/-! ### What a transmission leaves alone -/

/-- The fields that routing a message does not change. What is left are the cursor, the table of
unacknowledged messages and the number of ids drawn. -/
structure SameTable (b b' : Broker D) : Prop where
  sendMode : b'.sendMode = b.sendMode
  delivery : b'.delivery = b.delivery
  conns : b'.conns = b.conns
  order : b'.order = b.order
  buffer : b'.buffer = b.buffer

theorem SameTable.refl (b : Broker D) : SameTable b b := ⟨rfl, rfl, rfl, rfl, rfl⟩

theorem SameTable.trans {b b' b'' : Broker D} (h : SameTable b b') (h' : SameTable b' b'') :
    SameTable b b'' :=
  ⟨h'.sendMode.trans h.sendMode, h'.delivery.trans h.delivery, h'.conns.trans h.conns,
    h'.order.trans h.order, h'.buffer.trans h.buffer⟩

theorem sameTable_nextRoundRobin (b : Broker D) : SameTable b b.nextRoundRobin.2 := by
  unfold nextRoundRobin
  split_ifs
  · exact .refl b
  · exact ⟨rfl, rfl, rfl, rfl, rfl⟩

theorem sameTable_route (b : Broker D) (identity : Option Identity) (env : Envelope D) :
    SameTable b (b.route identity env).1 := by
  have hnext := b.sameTable_nextRoundRobin
  unfold route
  split
  · exact .refl b
  · split
    · exact .refl b
    · split <;> rename_i heq <;> rw [heq] at hnext <;> exact hnext

theorem sameTable_transmit (b : Broker D) (identity : Option Identity) (data : D) (retries : ℕ) :
    SameTable b (b.transmit rand identity data retries).1 := by
  unfold transmit
  split_ifs
  · have hdrawn : ∀ pending drawn, SameTable b { b with pending := pending, drawn := drawn } :=
      fun _ _ => ⟨rfl, rfl, rfl, rfl, rfl⟩
    exact (hdrawn _ _).trans (sameTable_route _ _ _)
  · exact b.sameTable_route _ _

theorem handleSend_of_isEmpty {b : Broker D} (h : b.conns.entries.isEmpty = true)
    (identity : Option Identity) (data : D) :
    b.handleSend rand identity data = ({ b with buffer := b.buffer ++ [⟨identity, data⟩] }, []) :=
  if_pos h

theorem handleSend_of_connected {b : Broker D} (h : b.conns.entries.isEmpty = false)
    (identity : Option Identity) (data : D) :
    b.handleSend rand identity data = b.transmit rand identity data maxRetries :=
  if_neg (by simp [h])

theorem sameTable_sendAll {b : Broker D} (h : b.conns.entries.isEmpty = false)
    (messages : List (BufferedMsg D)) : SameTable b (b.sendAll rand messages).1 := by
  induction messages generalizing b with
  | nil => exact .refl b
  | cons m rest ih =>
    have hsent := b.sameTable_transmit rand m.identity m.data maxRetries
    have hstill : (b.transmit rand m.identity m.data maxRetries).1.conns.entries.isEmpty = false :=
      hsent.conns.symm ▸ h
    simp only [sendAll, handleSend_of_connected rand h]
    exact hsent.trans (ih hstill)

/-- The table and the order once a connection has been entered. -/
def connect (b : Broker D) (identity : Identity) (conn : ℕ) : Broker D :=
  { b with
    conns := b.conns.insert identity conn, order := b.order ++ [identity], buffer := [] }

theorem isEmpty_connect (b : Broker D) (identity : Identity) (conn : ℕ) :
    (b.connect identity conn).conns.entries.isEmpty = false :=
  rfl

theorem handleUp_of_notMem {b : Broker D} {identity : Identity} (h : identity ∉ b.conns)
    (conn : ℕ) :
    b.handleUp rand identity conn
      = (((b.connect identity conn).sendAll rand b.buffer).1,
        .accept conn true :: ((b.connect identity conn).sendAll rand b.buffer).2) := by
  rw [handleUp, AList.lookup_eq_none.mpr h]
  rfl

theorem handleUp_of_mem {b : Broker D} {identity : Identity} (h : identity ∈ b.conns)
    (conn : ℕ) : b.handleUp rand identity conn = (b, [.accept conn false]) :=
  if_pos (AList.lookup_isSome.mpr h)

theorem sameTable_handleReceived (b : Broker D) (identity : Identity) (env : Envelope D) :
    SameTable b (b.handleReceived identity env).1 := by
  unfold handleReceived
  cases env with
  | data payload => exact .refl b
  | dataReq msgId payload => exact b.sameTable_route _ _
  | ack msgId =>
    show SameTable b (match b.pending.lookup msgId with
      | some p => ({ b with pending := b.pending.erase msgId }, [ChanOp.cancel p.cancel])
      | none => (b, [])).1
    split
    · exact ⟨rfl, rfl, rfl, rfl, rfl⟩
    · exact .refl b
  | hello => exact .refl b
  | heartbeat => exact .refl b

/-! ### One turn of the loop -/

/-- The turns of the loop, one for each branch that treats the table, the buffer or the pending
messages differently. Every invariant of the broker is proved by cases on this, and none unfolds a
handler. -/
inductive Turn (b : Broker D) : Command D → Broker D × List (ChanOp D) → Prop where
  | buffered {identity data} (h : b.conns.entries.isEmpty = true) :
      Turn b (.send identity data) ({ b with buffer := b.buffer ++ [⟨identity, data⟩] }, [])
  | sent {identity data} (h : b.conns.entries.isEmpty = false) :
      Turn b (.send identity data) (b.transmit rand identity data maxRetries)
  | turnedAway {identity conn} (h : identity ∈ b.conns) :
      Turn b (.connUp identity conn) (b, [.accept conn false])
  | connected {identity conn} (h : identity ∉ b.conns) :
      Turn b (.connUp identity conn) (((b.connect identity conn).sendAll rand b.buffer).1,
        .accept conn true :: ((b.connect identity conn).sendAll rand b.buffer).2)
  | disconnected {identity} : Turn b (.connDown identity) (b.handleDown identity)
  | received {identity env} : Turn b (.received identity env) (b.handleReceived identity env)
  | resendIgnored {msgId} (h : b.pending.lookup msgId = none) : Turn b (.resend msgId) (b, [])
  | gaveUp {msgId p} (h : b.pending.lookup msgId = some p) (hretries : p.retries = 0) :
      Turn b (.resend msgId) ({ b with pending := b.pending.erase msgId }, [])
  | rebuffered {msgId p} (h : b.pending.lookup msgId = some p)
      (hempty : b.conns.entries.isEmpty = true) :
      Turn b (.resend msgId) ({ b with
        pending := b.pending.erase msgId, buffer := b.buffer ++ [⟨p.identity, p.data⟩] }, [])
  | resent {msgId p} (h : b.pending.lookup msgId = some p)
      (hconns : b.conns.entries.isEmpty = false) :
      Turn b (.resend msgId) ({ b with pending := b.pending.erase msgId }.transmit rand
        p.identity p.data (p.retries - 1))

theorem turn_handle (b : Broker D) (cmd : Command D) : Turn rand b cmd (b.handle rand cmd) := by
  cases cmd with
  | send identity data =>
    show Turn rand b _ (b.handleSend rand identity data)
    cases h : b.conns.entries.isEmpty with
    | true =>
      rw [handleSend_of_isEmpty rand h]
      exact .buffered h
    | false =>
      rw [handleSend_of_connected rand h]
      exact .sent h
  | connUp identity conn =>
    show Turn rand b _ (b.handleUp rand identity conn)
    by_cases h : identity ∈ b.conns
    · rw [handleUp_of_mem rand h]
      exact .turnedAway h
    · rw [handleUp_of_notMem rand h]
      exact .connected h
  | connDown identity => exact .disconnected
  | received identity env => exact .received
  | resend msgId =>
    show Turn rand b _ (b.handleResend rand msgId)
    unfold handleResend
    split
    · rename_i h
      exact .resendIgnored h
    · rename_i p h
      by_cases hretries : p.retries = 0
      · rw [if_pos hretries]
        exact .gaveUp h hretries
      · rw [if_neg hretries]
        by_cases hempty : b.conns.entries.isEmpty = true
        · exact (if_pos hempty).symm ▸ Turn.rebuffered h hempty
        · exact (if_neg hempty).symm ▸ Turn.resent h (by simpa using hempty)

/-! ### The round-robin order -/

/-- The order lists the identities of the connections, each once. So a round robin over the order is
one over the connections, and `handleDown`, which removes one entry, removes the identity. -/
structure Tidy (b : Broker D) : Prop where
  nodup_order : b.order.Nodup
  mem_order : ∀ id, id ∈ b.order ↔ id ∈ b.conns

theorem tidy_new (sendMode : SendMode) (delivery : DeliveryGuarantee) :
    Tidy (new sendMode delivery : Broker D) :=
  ⟨List.nodup_nil, fun _ => by simp [new]⟩

theorem Tidy.of_eq {b b' : Broker D} (hb : Tidy b) (hconns : b'.conns = b.conns)
    (horder : b'.order = b.order) : Tidy b' := by
  constructor
  · rw [horder]
    exact hb.nodup_order
  · rw [horder, hconns]
    exact hb.mem_order

theorem Tidy.of_sameTable {b b' : Broker D} (hb : Tidy b) (h : SameTable b b') : Tidy b' :=
  hb.of_eq h.conns h.order

theorem Tidy.connect {b : Broker D} (hb : Tidy b) {identity : Identity} (h : identity ∉ b.conns)
    (conn : ℕ) : Tidy (b.connect identity conn) where
  nodup_order := by
    refine hb.nodup_order.append (List.nodup_singleton _) ?_
    rw [List.disjoint_singleton]
    exact fun hmem => h ((hb.mem_order identity).mp hmem)
  mem_order id := by
    show id ∈ b.order ++ [identity] ↔ id ∈ b.conns.insert identity conn
    rw [AList.mem_insert, List.mem_append, List.mem_singleton, hb.mem_order, or_comm]

theorem Tidy.handleDown {b : Broker D} (hb : Tidy b) (identity : Identity) :
    Tidy (b.handleDown identity).1 where
  nodup_order := hb.nodup_order.erase _
  mem_order id := by
    show id ∈ b.order.erase identity ↔ id ∈ b.conns.erase identity
    rw [hb.nodup_order.mem_erase_iff, AList.mem_erase, hb.mem_order]

theorem Tidy.handle {b : Broker D} (hb : Tidy b) (cmd : Command D) :
    Tidy (b.handle rand cmd).1 := by
  have hturn := b.turn_handle rand cmd
  generalize b.handle rand cmd = r at hturn
  cases hturn with
  | sent => exact hb.of_sameTable (b.sameTable_transmit _ _ _ _)
  | connected h =>
    exact (hb.connect h _).of_sameTable (sameTable_sendAll rand (isEmpty_connect _ _ _) _)
  | disconnected => exact hb.handleDown _
  | received => exact hb.of_sameTable (b.sameTable_handleReceived _ _)
  | @resent msgId p h =>
    have hb' : Tidy { b with pending := b.pending.erase msgId } := hb.of_eq rfl rfl
    exact hb'.of_sameTable (sameTable_transmit rand _ _ _ _)
  | buffered | turnedAway | resendIgnored | gaveUp | rebuffered => exact hb.of_eq rfl rfl

/-- An empty table has an empty order. -/
theorem Tidy.order_eq_nil {b : Broker D} (hb : Tidy b) (h : b.conns.entries.isEmpty = true) :
    b.order = [] := by
  have hconns : b.conns = ∅ := AList.ext (List.isEmpty_iff.mp h)
  refine List.eq_nil_iff_forall_not_mem.mpr fun id hid => ?_
  have hmem := (hb.mem_order id).mp hid
  rw [hconns] at hmem
  exact AList.notMem_empty id hmem

/-! ### The channels a handler uses -/

/-- All connections in the table are `known`. -/
def Within (known : ℕ → Prop) (b : Broker D) : Prop :=
  ∀ id c, b.conns.lookup id = some c → known c

variable {known : ℕ → Prop}

theorem Within.of_eq {b b' : Broker D} (h : Within known b) (hconns : b'.conns = b.conns) :
    Within known b' := by
  intro id c hc
  rw [hconns] at hc
  exact h id c hc

theorem Within.connect {b : Broker D} (h : Within known b) {conn : ℕ} (hconn : known conn)
    (identity : Identity) : Within known (b.connect identity conn) := by
  intro id c hc
  have hc : (b.conns.insert identity conn).lookup id = some c := hc
  by_cases hid : id = identity
  · rw [hid, AList.lookup_insert] at hc
    exact Option.some.inj hc ▸ hconn
  · rw [AList.lookup_insert_ne hid] at hc
    exact h id c hc

/-- The operations use channels of `known` connections. -/
def Uses (known : ℕ → Prop) (ops : List (ChanOp D)) : Prop :=
  ∀ op ∈ ops, ∀ c ∈ op.conn, known c

theorem Uses.append {ops ops' : List (ChanOp D)} (h : Uses known ops) (h' : Uses known ops') :
    Uses known (ops ++ ops') := by
  intro op hop
  rcases List.mem_append.mp hop with hop | hop
  · exact h op hop
  · exact h' op hop

theorem Uses.cons {op : ChanOp D} {ops : List (ChanOp D)} (h : ∀ c ∈ op.conn, known c)
    (h' : Uses known ops) : Uses known (op :: ops) :=
  List.forall_mem_cons.mpr ⟨h, h'⟩

theorem uses_nil : Uses known ([] : List (ChanOp D)) := fun _ h => absurd h List.not_mem_nil

theorem Within.sendTo {b : Broker D} (h : Within known b) (id : Identity) (env : Envelope D) :
    Uses known (b.sendTo id env) := by
  unfold Broker.sendTo
  split
  · rename_i ch hch
    refine .cons (fun c hc => ?_) uses_nil
    obtain rfl : ch = c := Option.some.inj hc
    exact h id ch hch
  · exact uses_nil

theorem Within.route {b : Broker D} (h : Within known b) (identity : Option Identity)
    (env : Envelope D) : Uses known (b.route identity env).2 := by
  have hnext := b.sameTable_nextRoundRobin
  unfold Broker.route
  split
  · exact h.sendTo _ _
  · split
    · intro op hop
      obtain ⟨entry, hentry, rfl⟩ := List.mem_map.mp hop
      intro c hc
      obtain rfl : entry.2 = c := Option.some.inj hc
      exact h entry.1 entry.2 (AList.mem_lookup_iff.mpr hentry)
    · split <;> rename_i heq <;> rw [heq] at hnext
      · exact (h.of_eq hnext.conns).sendTo _ _
      · exact uses_nil

theorem Within.transmit {b : Broker D} (h : Within known b) (identity : Option Identity)
    (data : D) (retries : ℕ) : Uses known (b.transmit rand identity data retries).2 := by
  unfold Broker.transmit
  split_ifs
  · have hdrawn : ∀ pending drawn,
        Within known { b with pending := pending, drawn := drawn } := fun _ _ => h.of_eq rfl
    exact .cons (fun c hc => absurd hc (by simp [ChanOp.conn])) ((hdrawn _ _).route _ _)
  · exact h.route _ _

theorem Within.sendAll {b : Broker D} (h : Within known b)
    (hconns : b.conns.entries.isEmpty = false) (messages : List (BufferedMsg D)) :
    Uses known (b.sendAll rand messages).2 := by
  induction messages generalizing b with
  | nil => exact uses_nil
  | cons m rest ih =>
    have hsent := b.sameTable_transmit rand m.identity m.data maxRetries
    simp only [Broker.sendAll, handleSend_of_connected rand hconns]
    exact (h.transmit rand _ _ _).append (ih (h.of_eq hsent.conns) (hsent.conns.symm ▸ hconns))

theorem Within.handleReceived {b : Broker D} (h : Within known b) (identity : Identity)
    (env : Envelope D) : Uses known (b.handleReceived identity env).2 := by
  unfold Broker.handleReceived
  cases env with
  | data payload => exact .cons (fun c hc => absurd hc (by simp [ChanOp.conn])) uses_nil
  | dataReq msgId payload =>
    exact .cons (fun c hc => absurd hc (by simp [ChanOp.conn])) (h.route _ _)
  | ack msgId =>
    show Uses known (match b.pending.lookup msgId with
      | some p => ({ b with pending := b.pending.erase msgId }, [ChanOp.cancel p.cancel])
      | none => (b, [])).2
    split
    · exact .cons (fun c hc => absurd hc (by simp [ChanOp.conn])) uses_nil
    · exact uses_nil
  | hello => exact uses_nil
  | heartbeat => exact uses_nil

/-- A handler uses the channels of connections in the table and that of a connection it is told
about, and enters no others. -/
theorem Within.handle {b : Broker D} (h : Within known b) {cmd : Command D}
    (hcmd : ∀ id c, cmd = .connUp id c → known c) :
    Within known (b.handle rand cmd).1 ∧ Uses known (b.handle rand cmd).2 := by
  have hturn := b.turn_handle rand cmd
  generalize b.handle rand cmd = r at hturn
  cases hturn with
  | buffered | resendIgnored | gaveUp | rebuffered => exact ⟨h.of_eq rfl, uses_nil⟩
  | sent => exact ⟨h.of_eq (b.sameTable_transmit _ _ _ _).conns, h.transmit rand _ _ _⟩
  | @turnedAway identity conn =>
    refine ⟨h, .cons (fun c hc => ?_) uses_nil⟩
    obtain rfl : conn = c := Option.some.inj hc
    exact hcmd _ _ rfl
  | @connected identity conn =>
    have hconnected := h.connect (hcmd _ _ rfl) identity
    refine ⟨hconnected.of_eq (sameTable_sendAll rand (isEmpty_connect _ _ _) _).conns,
      .cons (fun c hc => ?_) (hconnected.sendAll rand (isEmpty_connect _ _ _) _)⟩
    obtain rfl : conn = c := Option.some.inj hc
    exact hcmd _ _ rfl
  | @disconnected identity =>
    constructor
    · intro id c hc
      have hc : (b.conns.erase identity).lookup id = some c := hc
      by_cases hid : id = identity
      · rw [hid, AList.lookup_erase] at hc
        exact absurd hc (by simp)
      · rw [AList.lookup_erase_ne hid] at hc
        exact h id c hc
    · unfold Broker.handleDown
      split
      · rename_i ch hch
        refine .cons (fun c hc => ?_) uses_nil
        obtain rfl : ch = c := Option.some.inj hc
        exact h identity ch hch
      · exact uses_nil
  | received => exact ⟨h.of_eq (b.sameTable_handleReceived _ _).conns, h.handleReceived _ _⟩
  | @resent msgId p =>
    have h' : Within known { b with pending := b.pending.erase msgId } := h.of_eq rfl
    exact ⟨h'.of_eq (sameTable_transmit rand _ _ _ _).conns, h'.transmit rand _ _ _⟩

theorem Within.shutdown {b : Broker D} (h : Within known b) : Uses known b.shutdown := by
  refine .append (fun op hop => ?_) (fun op hop => ?_)
  · obtain ⟨entry, -, rfl⟩ := List.mem_map.mp hop
    exact fun c hc => absurd hc (by simp [ChanOp.conn])
  · obtain ⟨entry, hentry, rfl⟩ := List.mem_map.mp hop
    intro c hc
    obtain rfl : entry.2 = c := Option.some.inj hc
    exact h entry.1 entry.2 (AList.mem_lookup_iff.mpr hentry)

end Broker

end GoLib

end Aiomsg
