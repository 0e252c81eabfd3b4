import Aiomsg.Python.Blocking

/-!
# The event of the blocking socket

`at_least_one_connection` is what the sender waits on. A connection thread sets it when the table
goes from none to one and clears it when it becomes empty, both under `_conn_lock`. The sender
clears it too, when it finds the table empty, and it does so after it has released the lock. In
between a connection may have been registered, and then the event is cleared while the table is not
empty; nothing sets it again before the table has been empty once more.

The runs in which this does not happen are those in which the sender clears the event only while
there is no connection, or while the first one has yet to set the event (`ClearsEmpty`). Along these
the event says at every settled moment whether the table is empty.

## Scope

A settled moment is one at which nobody has an update to make. Between two of them the event may lag
behind the table, and that is no fault. That a sender which is not blocked gets on is left to the
scheduler.

## Main results

* `noLostWakeup_of_clearsEmpty` — the event and the table agree along such runs
* `lost_wakeup` — a run that is not one of them
-/

namespace Aiomsg

namespace Python

namespace Blocking

variable {D : Type}

/-- Whether the sender is at the top of its loop or waiting for the event. -/
def Sender.Rests : Sender D → Bool
  | .idle => true
  | .holding _ => true
  | .waiting _ _ => true
  | _ => false

/-- Whether the sender is in a call to `wait` that nothing has woken. -/
def Sender.Blocked : Sender D → Bool
  | .waiting _ false => true
  | _ => false

/-- No thread is between its change of the table and its update of the event, and the sender is at
the top of its loop or waiting. -/
def Socket.Settled (s : Socket D) : Prop := s.lock = .free ∧ s.sender.Rests

instance (s : Socket D) : Decidable s.Settled := inferInstanceAs (Decidable (_ ∧ _))

/-- The event is set if and only if there is a connection, and then the sender is not blocked. -/
def Socket.NoLostWakeup (s : Socket D) : Prop :=
  (s.atLeastOneConnection = true ↔ s.peers.connections ≠ []) ∧
    (s.peers.connections ≠ [] → s.sender.Blocked = false)

instance (s : Socket D) : Decidable s.NoLostWakeup := inferInstanceAs (Decidable (_ ∧ _))

/-- If the sender clears the event, there is no connection, or the first one has yet to set it. -/
def ClearsEmpty (s : Socket D) : Action D → Prop
  | .clear => s.peers.connections = [] ∨ s.lock ≠ .free ∧ s.lock ≠ .unregistering ∧
      s.peers.connections.length = 1
  | _ => True

instance (s : Socket D) : ∀ a, Decidable (ClearsEmpty s a)
  | .clear => inferInstanceAs (Decidable (_ ∨ _))
  | .send .. | .resend .. | .register _ | .registered | .unregister _ | .unregistered
  | .receive .. | .notifyAck _ | .recv | .get | .check | .wake | .timeout | .route | .put
  | .putBack | .close | .shutdown => .isTrue trivial

/-! ### The invariant -/

/-- What the event says about the table, by who holds the lock. -/
def Lock.Tells (event : Bool) (connections : List (Bytes × ℕ)) : Lock → Prop
  | .free => event = true ↔ connections ≠ []
  | .registering _ => connections ≠ [] ∧ (connections.length = 1 ∨ event = true)
  | .unregistering => connections ≠ [] → event = true

/-- **The invariant.** The event tells whether there are connections, up to the update that the
holder of the lock has yet to make, and a sender that is blocked is so because it is not set. -/
structure Agrees (s : Socket D) : Prop where
  tells : s.lock.Tells s.atLeastOneConnection s.peers.connections
  blocked : s.sender.Blocked = true → s.atLeastOneConnection = false

@[simp] theorem Sender.blocked_signal (sender : Sender D) : sender.signal.Blocked = false := by
  cases sender <;> rfl

theorem Agrees.new (sendMode : SendMode) (delivery : DeliveryGuarantee) :
    Agrees (Socket.new sendMode delivery : Socket D) where
  tells := by simp [Lock.Tells, Socket.new, Peers.new]
  blocked _ := rfl

variable {s t : Socket D}

theorem Agrees.told {lock : Lock} (h : Agrees s) (hlock : s.lock = lock) :
    lock.Tells s.atLeastOneConnection s.peers.connections :=
  hlock ▸ h.tells

/-- Entering a connection: the event is set, or the new connection is the only one. -/
theorem Agrees.register {identity : Bytes} (h : Agrees s) (hlock : s.lock = .free)
    (hhas : ¬ s.peers.Has identity) :
    Agrees { s with peers := s.peers.insert identity hhas, lock := .registering s.peers.made } where
  tells := by
    have htells : s.atLeastOneConnection = true ↔ s.peers.connections ≠ [] := h.told hlock
    refine ⟨by simp, ?_⟩
    by_cases hempty : s.peers.connections = []
    · left
      simp [hempty]
    · exact .inr (htells.mpr hempty)
  blocked := h.blocked

theorem agrees_first (hlength : s.peers.connections.length = 1) :
    Agrees { s.setEvent with lock := .free } where
  tells := by
    have hne : s.peers.connections ≠ [] := List.ne_nil_of_length_pos (by omega)
    simpa [Lock.Tells, Socket.setEvent] using hne
  blocked hb := absurd hb (by simp [Socket.setEvent])

theorem Agrees.further {c : ℕ} (h : Agrees s) (hlock : s.lock = .registering c)
    (hlength : s.peers.connections.length ≠ 1) : Agrees { s with lock := .free } where
  tells := by
    have htells : s.peers.connections ≠ [] ∧
        (s.peers.connections.length = 1 ∨ s.atLeastOneConnection = true) := h.told hlock
    exact iff_of_true (htells.2.resolve_left hlength) htells.1
  blocked := h.blocked

theorem Agrees.unregister (h : Agrees s) (hlock : s.lock = .free) (identity : Bytes) :
    Agrees { s with peers := s.peers.remove identity, lock := .unregistering } where
  tells := by
    intro hne
    have htells : s.atLeastOneConnection = true ↔ s.peers.connections ≠ [] := h.told hlock
    refine htells.mpr fun hempty => hne ?_
    simp [hempty]
  blocked := h.blocked

theorem Agrees.remaining (h : Agrees s) (hlock : s.lock = .unregistering)
    (hne : s.peers.connections ≠ []) : Agrees { s with lock := .free } where
  tells := by
    have hset : s.atLeastOneConnection = true := h.told hlock hne
    exact iff_of_true hset hne
  blocked := h.blocked

/-- The sender clears the event where the condition allows it. -/
theorem Agrees.clear (h : Agrees s) (hclear : ClearsEmpty s .clear) (item : Item D) :
    Agrees { s with sender := .cleared item, atLeastOneConnection := false } where
  tells := by
    show s.lock.Tells false s.peers.connections
    cases hlock : s.lock with
    | free =>
      rcases hclear with hempty | ⟨hfree, -⟩
      · simp [Lock.Tells, hempty]
      · exact absurd hlock hfree
    | registering c =>
      have hne : s.peers.connections ≠ [] := (h.told hlock).1
      rcases hclear with hempty | ⟨-, -, hlength⟩
      · exact absurd hempty hne
      · exact ⟨hne, .inl hlength⟩
    | unregistering =>
      rcases hclear with hempty | ⟨-, hlocked, -⟩
      · exact fun hne => absurd hempty hne
      · exact absurd hlock hlocked
  blocked _ := rfl

/-- Looking for connections leaves the table alone and does not end in `wait`. -/
theorem Agrees.route {item : Item D} {sender : Sender D} {peers : Peers} (h : Agrees s)
    (hfound : Socket.Found s.peers item (sender, peers)) :
    Agrees { s with sender := sender, peers := peers } := by
  cases hfound with
  | dropped hsame =>
    refine ⟨?_, fun hb => absurd hb (by simp [Sender.Blocked])⟩
    show s.lock.Tells s.atLeastOneConnection peers.connections
    rw [hsame]
    exact h.tells
  | raised => exact ⟨h.tells, fun hb => absurd hb (by simp [Sender.Blocked])⟩
  | targets hsame =>
    refine ⟨?_, fun hb => absurd hb (by simp [Sender.Blocked])⟩
    show s.lock.Tells s.atLeastOneConnection peers.connections
    rw [hsame]
    exact h.tells

/-- **One step.** A step that `ClearsEmpty` allows keeps the invariant. -/
theorem Agrees.step {a : Action D} (h : Agrees s) (hclear : ClearsEmpty s a)
    (hstep : s.step a = some t) : Agrees t := by
  cases Socket.step_cases hstep with
  | refuse hlock hhas => exact h
  | register hlock hhas => exact h.register hlock hhas
  | first hlock hlength => exact agrees_first hlength
  | further hlock hlength => exact h.further hlock hlength
  | unregister hlock hidentity => exact h.unregister hlock _
  | last hlock hempty =>
    refine ⟨?_, fun _ => rfl⟩
    simp [Lock.Tells, hempty]
  | remaining hlock hempty => exact h.remaining hlock hempty
  | clear hsender => exact h.clear hclear _
  | wait hsender hevent => exact ⟨h.tells, fun _ => hevent⟩
  | route hsender hlock hfound =>
    exact h.route hfound
  -- The other steps of the sender leave `wait`, or never were in it.
  | finish | get | pass | wake | giveUp | again | put | putLast | putBack =>
    exact ⟨h.tells, fun hb => absurd hb (by simp [Sender.Blocked])⟩
  -- The rest touch neither the event, nor the table, nor the sender.
  | send | expire | resend | data | dataReq | ack | ignore | notifyAck | recv | close | shutdown =>
    exact ⟨h.tells, h.blocked⟩

/-- **No lost wake-up.** In every run in which the sender clears the event only while there is no
connection, or while the first one has yet to set it, every settled state has the event set if and
only if there is a connection, and the sender is not blocked while there is one. -/
theorem noLostWakeup_of_clearsEmpty (sendMode : SendMode) (delivery : DeliveryGuarantee)
    (actions : List (Action D)) (s : Socket D)
    (hrun : (machine D).run (.new sendMode delivery) actions = some s)
    (hclear : (machine D).Along ClearsEmpty (.new sendMode delivery) actions)
    (hsettled : s.Settled) : s.NoLostWakeup := by
  have hagrees : Agrees s :=
    hclear.invariant (fun s a t hs ha => hs.step ha) hrun (.new sendMode delivery)
  have htells : s.atLeastOneConnection = true ↔ s.peers.connections ≠ [] :=
    hagrees.told hsettled.1
  refine ⟨htells, fun hne => ?_⟩
  by_contra hblocked
  have hunset := hagrees.blocked (Bool.not_eq_false _ ▸ hblocked)
  exact Bool.false_ne_true (hunset.symm.trans (htells.mpr hne))

/-- A message is sent while the last connection goes: the event is cleared once by its thread and
once by the sender, and the message is put back before a new peer connects. -/
def lastGone : List (Action ℕ) :=
  [.register (sixteen 1), .registered, .send 7 none none (sixteen 9), .get, .check, .unregister 0,
    .unregistered, .route, .clear, .putBack, .get, .check, .register (sixteen 2), .registered]

theorem lastGone_noLostWakeup :
    ∃ s : Socket ℕ, (machine ℕ).run (.new .roundRobin .atMostOnce) lastGone = some s ∧
      s.Settled ∧ s.peers.connections = [(sixteen 2, 1)] ∧ s.NoLostWakeup := by
  refine ⟨_, rfl, by decide, by decide, ?_⟩
  exact noLostWakeup_of_clearsEmpty .roundRobin .atMostOnce lastGone _ rfl (by decide) (by decide)

/-- The new peer connects after the sender has found the table empty and before it clears the
event. -/
def lostWakeup : List (Action ℕ) :=
  [.register (sixteen 1), .registered, .send 7 none none (sixteen 9), .get, .check, .unregister 0,
    .unregistered, .route, .register (sixteen 2), .registered, .clear, .putBack, .get, .check]

/-- A connection is in the table, the event is not set, and the sender is blocked. -/
theorem lost_wakeup :
    ∃ s : Socket ℕ, (machine ℕ).run (.new .roundRobin .atMostOnce) lostWakeup = some s ∧
      s.Settled ∧ s.atLeastOneConnection = false ∧ s.peers.connections = [(sixteen 2, 1)] ∧
      s.sender.Blocked = true ∧ ¬ s.NoLostWakeup := by
  refine ⟨_, rfl, ?_⟩
  decide

end Blocking

end Python

end Aiomsg
