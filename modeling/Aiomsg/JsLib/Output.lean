import Aiomsg.JsLib.Trace

/-!
# What a JavaScript socket sends

A connection sends its HELLO first. Behind it come the frames that the broker puts out for the
connection, in order, and heartbeats anywhere between them: all of these frames as long as the
connection is live, the first of them when it has come to its end.

The broker puts frames out for connections of its list only, and these have said HELLO.

## Scope

What is sent is what is handed to the runtime while the connection is live. The runtime may still
lose the last of it with the connection. In what order the frames of two connections are written is
not said, as nobody can tell.

## Main results

* `Socket.Wired` — what was sent, and what the broker has put out
* `Socket.wired_of_run`
-/

namespace Aiomsg

namespace JsLib

/-- What a connection has sent besides heartbeats. -/
def Conn.spoken (k : Conn) : List (Envelope Bytes) := k.sent.filter (· ≠ .heartbeat)

namespace Socket

/-- What the broker has put out for a connection. -/
def outFor (s : Socket) (c : ℕ) : List (Envelope Bytes) :=
  (framesFor c s.served.out).map Prod.snd

/-- What was sent is a HELLO and the frames that the broker has put out, as far as the connection
got. -/
structure Wired (s : Socket) : Prop where
  listed : ∀ e ∈ s.served.conns, (s.conn e.2).started = true
  below : ∀ c, (s.conn c).started = true → c < s.count
  idle : ∀ c, (s.conn c).started = false →
    s.outFor c = [] ∧ (s.conn c).sent = [] ∧ (s.conn c).heartbeatTimer = none
  spoken : ∀ c, (s.conn c).started = true → ∃ rest,
    .hello Protocol.protocolVersion s.id :: s.outFor c = (s.conn c).spoken ++ rest ∧
      ((s.conn c).live = true → rest = [])

theorem wired_new (id : Identity) (sendMode : SendMode) (delivery : DeliveryGuarantee) :
    Wired (new id sendMode delivery) where
  listed _ h := absurd h List.not_mem_nil
  below _ h := Bool.noConfusion h
  idle _ _ := ⟨rfl, rfl, rfl⟩
  spoken _ h := Bool.noConfusion h

/-! ### What sends nothing -/

/-- A callback that sends nothing, and arms no heartbeat. -/
structure Hush (s s' : Socket) : Prop where
  id : s'.id = s.id
  count : s'.count = s.count
  conns : s'.served.conns = s.served.conns
  out : s'.served.out = s.served.out
  started : ∀ c, (s'.conn c).started = (s.conn c).started
  sent : ∀ c, (s'.conn c).sent = (s.conn c).sent
  heartbeatTimer : ∀ c, (s.conn c).heartbeatTimer = none → (s'.conn c).heartbeatTimer = none
  live : ∀ c, (s'.conn c).live = true → (s.conn c).live = true

section Hush

variable {s s' : Socket}

theorem Wired.hush (h : Wired s) (hh : Hush s s') : Wired s' where
  listed := by
    rw [hh.conns]
    exact fun e he => (hh.started e.2).trans (h.listed e he)
  below c hc := hh.count ▸ h.below c ((hh.started c).symm.trans hc)
  idle c hc := by
    obtain ⟨hout, hsent, htimer⟩ := h.idle c ((hh.started c).symm.trans hc)
    refine ⟨?_, (hh.sent c).trans hsent, hh.heartbeatTimer c htimer⟩
    rw [outFor, hh.out]
    exact hout
  spoken c hc := by
    obtain ⟨rest, hrest, hlive⟩ := h.spoken c ((hh.started c).symm.trans hc)
    refine ⟨rest, ?_, fun hc' => hlive (hh.live c hc')⟩
    rw [outFor, hh.out, hh.id, Conn.spoken, hh.sent]
    exact hrest

theorem hush_modify (s : Socket) (c : ℕ) {f : Conn → Conn}
    (hstarted : (f (s.conn c)).started = (s.conn c).started)
    (hsent : (f (s.conn c)).sent = (s.conn c).sent)
    (htimer : (s.conn c).heartbeatTimer = none → (f (s.conn c)).heartbeatTimer = none)
    (hlive : (f (s.conn c)).live = true → (s.conn c).live = true) : Hush s (s.modify c f) := by
  have hcases (c' : ℕ) : ((s.modify c f).conn c').started = (s.conn c').started ∧
      ((s.modify c f).conn c').sent = (s.conn c').sent ∧
      ((s.conn c').heartbeatTimer = none → ((s.modify c f).conn c').heartbeatTimer = none) ∧
      (((s.modify c f).conn c').live = true → (s.conn c').live = true) := by
    by_cases hc : c' = c
    · rw [hc, modify_conn_self]
      exact ⟨hstarted, hsent, htimer, hlive⟩
    · rw [modify_conn_of_ne s hc]
      exact ⟨rfl, rfl, fun h => h, fun h => h⟩
  exact ⟨rfl, rfl, rfl, rfl, fun c' => (hcases c').1, fun c' => (hcases c').2.1,
    fun c' => (hcases c').2.2.1, fun c' => (hcases c').2.2.2⟩

theorem hush_resetTimeout (s : Socket) (c : ℕ) : Hush s (s.resetTimeout c) :=
  hush_modify s c rfl rfl (fun h => h) fun h => h

theorem hush_destroy (s : Socket) (c : ℕ) : Hush s (s.destroy c) :=
  hush_modify s c rfl rfl (fun h => h) fun h => Bool.noConfusion h

theorem hush_retry (s : Socket) (loop : Loop) : Hush s (s.retry loop) := by
  unfold retry
  split
  · exact ⟨rfl, rfl, rfl, rfl, fun _ => rfl, fun _ => rfl, fun _ h => h, fun _ h => h⟩
  · exact ⟨rfl, rfl, rfl, rfl, fun _ => rfl, fun _ => rfl, fun _ h => h, fun _ h => h⟩

end Hush

/-! ### Writing -/

section Writing

variable {p : Platform} {env : Outside} {s : Socket}

/-- What writing does to the connection. -/
theorem write_conn_self (p : Platform) (s : Socket) {c : ℕ} (hstarted : (s.conn c).started = true)
    (frame : Envelope Bytes) :
    ((s.write p c frame).conn c).started = true ∧
      ((s.write p c frame).conn c).live = (s.conn c).live ∧
      ((s.write p c frame).conn c).sent =
        if (s.conn c).live then (s.conn c).sent ++ [frame] else (s.conn c).sent := by
  unfold write
  split
  · rename_i hshut
    have hdead : (s.conn c).live = false := by simpa [Conn.isOpen, hstarted] using hshut.2
    exact ⟨hstarted, rfl, by rw [hdead]; rfl⟩
  · rw [modify_conn_self]
    exact ⟨hstarted, rfl, rfl⟩

theorem write_conn_of_ne (p : Platform) (s : Socket) {c c' : ℕ} (h : c' ≠ c)
    (frame : Envelope Bytes) : (s.write p c frame).conn c' = s.conn c' := by
  unfold write
  split
  · rfl
  · exact modify_conn_of_ne s h _

theorem write_started (p : Platform) (s : Socket) (c : ℕ) (frame : Envelope Bytes) (c' : ℕ) :
    ((s.write p c frame).conn c').started = (s.conn c').started := by
  unfold write
  split
  · rfl
  · by_cases hc : c' = c
    · rw [hc, modify_conn_self]
    · rw [modify_conn_of_ne s hc]

/-- Connections for which there are no frames are left alone. -/
theorem writeAll_conn_of_idle (p : Platform) (s : Socket) {frames : List (ℕ × Envelope Bytes)}
    {c : ℕ} (h : ∀ f ∈ frames, f.1 ≠ c) : (s.writeAll p frames).conn c = s.conn c := by
  induction frames generalizing s with
  | nil => rfl
  | cons f rest ih =>
    have hrest := ih (s.write p f.1 f.2) fun f' hf' => h f' (List.mem_cons_of_mem f hf')
    refine hrest.trans (write_conn_of_ne p s ?_ f.2)
    exact (h f List.mem_cons_self).symm

/-- **What is written to a live connection is sent**, if it has started. -/
theorem writeAll_sent (p : Platform) (s : Socket) {frames : List (ℕ × Envelope Bytes)}
    (h : ∀ f ∈ frames, (s.conn f.1).started = true) (c : ℕ) :
    ((s.writeAll p frames).conn c).started = (s.conn c).started ∧
      ((s.writeAll p frames).conn c).live = (s.conn c).live ∧
      ((s.writeAll p frames).conn c).sent =
        if (s.conn c).live then (s.conn c).sent ++ (framesFor c frames).map Prod.snd
        else (s.conn c).sent := by
  induction frames generalizing s with
  | nil => exact ⟨rfl, rfl, by simp [writeAll, framesFor]⟩
  | cons f rest ih =>
    have hstarted := h f List.mem_cons_self
    have hrest (f' : ℕ × Envelope Bytes) (hf' : f' ∈ rest) :
        ((s.write p f.1 f.2).conn f'.1).started = true :=
      (write_started p s f.1 f.2 f'.1).trans (h f' (List.mem_cons_of_mem f hf'))
    obtain ⟨hs, hl, hsent⟩ := ih (s.write p f.1 f.2) hrest
    refine ⟨hs.trans (write_started p s f.1 f.2 c), ?_⟩
    show ((s.write p f.1 f.2).writeAll p rest |>.conn c).live = _ ∧
      ((s.write p f.1 f.2).writeAll p rest |>.conn c).sent = _
    by_cases hc : c = f.1
    · subst hc
      obtain ⟨-, hlive, hone⟩ := write_conn_self p s hstarted f.2
      have hmine : framesFor f.1 (f :: rest) = f :: framesFor f.1 rest :=
        List.filter_cons_of_pos (by simp)
      rw [hl, hsent, hlive, hone, hmine, List.map_cons]
      refine ⟨rfl, ?_⟩
      split
      · rw [List.append_assoc]
        rfl
      · rfl
    · have hother : framesFor c (f :: rest) = framesFor c rest :=
        List.filter_cons_of_neg (by simpa using Ne.symm hc)
      rw [hl, hsent, write_conn_of_ne p s hc, hother]
      exact ⟨rfl, rfl⟩

/-- Frames of the broker are no heartbeats. -/
theorem filter_of_putsOut {frames : List (ℕ × Envelope Bytes)}
    (h : ∀ f ∈ frames, f.2.message?.isSome = true ∨ f.2.ack?.isSome = true) (c : ℕ) :
    ((framesFor c frames).map Prod.snd).filter (· ≠ .heartbeat) =
      (framesFor c frames).map Prod.snd := by
  refine List.filter_eq_self.mpr fun frame hframe => ?_
  obtain ⟨f, hf, rfl⟩ := List.mem_map.mp hframe
  have hkind := h f (List.mem_of_mem_filter hf)
  simp only [decide_eq_true_eq]
  intro heq
  rw [heq] at hkind
  rcases hkind with hkind | hkind <;> cases hkind

/-- **An operation of the broker.** Only a connection that has started may register. -/
theorem Wired.operate (h : Wired s) {e : Served.Event ℕ Bytes}
    (he : ∀ identity c, e = .register identity c → (s.conn c).started = true) :
    Wired (s.operate p env e) := by
  unfold Socket.operate
  split
  · exact h
  rename_i w hstep
  obtain ⟨frames, hout, hframes⟩ := Served.putsOut_step hstep
  have hlisted (entry : Identity × ℕ) (hentry : entry ∈ w.conns) :
      (s.conn entry.2).started = true := by
    rcases Served.mem_conns_step hstep hentry with hold | heq
    · exact h.listed entry hold
    · exact he entry.1 entry.2 heq
  have hdrop : w.out.drop s.served.out.length = frames := by
    rw [show w.out = s.served.out ++ frames from hout, List.drop_left]
  rw [hdrop]
  generalize hbase : ({ s with
      served := w
      inbox := (w.inbox.drop s.served.inbox.length).foldl Inbox.push s.inbox
      events := s.events ++ [e] } : Socket) = t
  have hfields : t.id = s.id ∧ t.count = s.count ∧ t.conn = s.conn ∧ t.served = w := by
    subst hbase
    exact ⟨rfl, rfl, rfl, rfl⟩
  clear hbase
  obtain ⟨hid, hcount, hconn, hserved⟩ := hfields
  have hready (f : ℕ × Envelope Bytes) (hf : f ∈ frames) : (t.conn f.1).started = true := by
    obtain ⟨entry, hentry, heq⟩ := List.mem_map.mp (hframes f hf).1
    rw [hconn, ← heq]
    exact hlisted entry hentry
  have hsent := writeAll_sent p t hready
  rw [hconn] at hsent
  obtain ⟨conn, heq⟩ := exists_conn_writeAll p t frames
  have hid' : (t.writeAll p frames).id = s.id := (congrArg Socket.id heq).trans hid
  have hcount' : (t.writeAll p frames).count = s.count := (congrArg Socket.count heq).trans hcount
  have hserved' : (t.writeAll p frames).served = w := (congrArg Socket.served heq).trans hserved
  have houtFor (c : ℕ) : (t.writeAll p frames).outFor c =
      s.outFor c ++ (framesFor c frames).map Prod.snd := by
    rw [outFor, hserved', outFor, show w.out = s.served.out ++ frames from hout, framesFor_append,
      List.map_append]
  refine ⟨fun entry hentry => ?_, fun c hc => ?_, fun c hc => ?_, fun c hc => ?_⟩
  · rw [hserved'] at hentry
    exact (hsent entry.2).1.trans (hlisted entry hentry)
  · rw [hcount']
    exact h.below c ((hsent c).1.symm.trans hc)
  · have hidle := (hsent c).1.symm.trans hc
    have hnone : ∀ f ∈ frames, f.1 ≠ c := by
      intro f hf hfc
      have htrue := hready f hf
      rw [hconn, hfc, hidle] at htrue
      cases htrue
    have hempty : framesFor c frames = [] :=
      List.filter_eq_nil_iff.mpr fun f hf => by simpa using hnone f hf
    obtain ⟨hout', hsent', htimer⟩ := h.idle c hidle
    rw [writeAll_conn_of_idle p t hnone, houtFor, hempty, hout', hconn]
    exact ⟨rfl, hsent', htimer⟩
  · obtain ⟨rest, hrest, hlive⟩ := h.spoken c ((hsent c).1.symm.trans hc)
    rw [houtFor, hid', Conn.spoken, (hsent c).2.2, (hsent c).2.1]
    cases hcases : (s.conn c).live with
    | true =>
      refine ⟨[], ?_, fun _ => rfl⟩
      rw [hlive hcases, List.append_nil, Conn.spoken] at hrest
      have hkind := filter_of_putsOut (fun f hf => (hframes f hf).2) c
      rw [if_pos rfl, List.filter_append, hkind, ← hrest, List.append_nil]
      rfl
    | false =>
      refine ⟨rest ++ (framesFor c frames).map Prod.snd, ?_, fun hfalse => Bool.noConfusion hfalse⟩
      rw [if_neg (by simp), ← List.append_assoc]
      exact congrArg (· ++ _) hrest

/-- The heartbeat of a connection that has one due. -/
theorem Wired.heartbeat (h : Wired s) {c : ℕ} (hstarted : (s.conn c).started = true) :
    Wired (s.write p c .heartbeat) := by
  obtain ⟨hself, hlive, hsent⟩ := write_conn_self p s hstarted .heartbeat
  obtain ⟨conn, heq⟩ := exists_conn_write p s c .heartbeat
  have hid : (s.write p c .heartbeat).id = s.id := by rw [heq]
  have hcount : (s.write p c .heartbeat).count = s.count := by rw [heq]
  have hserved : (s.write p c .heartbeat).served = s.served := by rw [heq]
  refine ⟨fun entry hentry => ?_, fun c' hc' => ?_, fun c' hc' => ?_, fun c' hc' => ?_⟩
  · rw [hserved] at hentry
    exact (write_started ..).trans (h.listed entry hentry)
  · rw [hcount]
    exact h.below c' ((write_started ..).symm.trans hc')
  · have hne : c' ≠ c := by
      rintro rfl
      exact absurd (hself.symm.trans hc') (by simp)
    rw [write_conn_of_ne p s hne] at hc' ⊢
    rw [outFor, hserved]
    exact h.idle c' hc'
  · obtain ⟨rest, hrest, hrest'⟩ := h.spoken c' ((write_started ..).symm.trans hc')
    have hspoken : ((s.write p c .heartbeat).conn c').spoken = (s.conn c').spoken ∧
        ((s.write p c .heartbeat).conn c').live = (s.conn c').live := by
      by_cases hc : c' = c
      · subst hc
        refine ⟨?_, hlive⟩
        rw [Conn.spoken, hsent, Conn.spoken]
        split
        · rw [List.filter_append]
          exact List.append_nil _
        · rfl
      · rw [write_conn_of_ne p s hc]
        exact ⟨rfl, rfl⟩
    refine ⟨rest, ?_, fun hlive' => hrest' (hspoken.2.symm.trans hlive')⟩
    rw [hspoken.1, hid, outFor, hserved]
    exact hrest

/-- A connection says HELLO. -/
theorem Wired.start (p : Platform) (h : Wired s) {c : ℕ} (hnew : (s.conn c).started = false)
    (hlive : (s.conn c).live = true) (hcount : c < s.count) :
    Wired (s.start p c) ∧ ((s.start p c).conn c).started = true := by
  obtain ⟨hout, hsent, -⟩ := h.idle c hnew
  generalize hopen : (s.modify c fun k => { k with started := true }) = t
  have hself : t.conn c = { s.conn c with started := true } := by
    subst hopen
    exact modify_conn_self ..
  have hother {c' : ℕ} (hc : c' ≠ c) : t.conn c' = s.conn c' := by
    subst hopen
    exact modify_conn_of_ne s hc _
  have hfields : t.id = s.id ∧ t.count = s.count ∧ t.served = s.served := by
    subst hopen
    exact ⟨rfl, rfl, rfl⟩
  obtain ⟨htid, htcount, htserved⟩ := hfields
  have hready : (t.conn c).started = true := by rw [hself]
  obtain ⟨hs, hl, hone⟩ := write_conn_self p t hready (.hello Protocol.protocolVersion s.id)
  obtain ⟨conn, heq⟩ := exists_conn_write p t c (.hello Protocol.protocolVersion s.id)
  have hstart : s.start p c =
      (t.write p c (.hello Protocol.protocolVersion s.id)).resetTimeout c := by
    rw [Socket.start, hopen]
  rw [hstart]
  generalize hwrite : t.write p c (.hello Protocol.protocolVersion s.id) = u at hs hl hone
  have hufields : u.id = s.id ∧ u.count = s.count ∧ u.served = s.served := by
    subst hwrite
    exact ⟨(congrArg Socket.id heq).trans htid, (congrArg Socket.count heq).trans htcount,
      (congrArg Socket.served heq).trans htserved⟩
  have huother {c' : ℕ} (hc : c' ≠ c) : u.conn c' = s.conn c' := by
    subst hwrite
    exact (write_conn_of_ne p t hc _).trans (hother hc)
  obtain ⟨hid, hcount', hserved⟩ := hufields
  have hwired : Wired u := by
    refine ⟨fun entry hentry => ?_, fun c' hc' => ?_, fun c' hc' => ?_, fun c' hc' => ?_⟩
    · rw [hserved] at hentry
      by_cases hc : entry.2 = c
      · rw [hc]
        exact hs
      · rw [huother hc]
        exact h.listed entry hentry
    · rw [hcount']
      by_cases hc : c' = c
      · exact hc ▸ hcount
      · exact h.below c' (huother hc ▸ hc')
    · have hc : c' ≠ c := by
        rintro rfl
        exact absurd (hs.symm.trans hc') (by simp)
      rw [huother hc] at hc' ⊢
      rw [outFor, hserved]
      exact h.idle c' hc'
    · by_cases hc : c' = c
      · subst hc
        refine ⟨[], ?_, fun _ => rfl⟩
        rw [outFor, hserved, ← outFor, hout, hid, Conn.spoken, hone, hself, hlive, hsent]
        rfl
      · rw [huother hc] at hc' ⊢
        rw [outFor, hserved, hid]
        exact h.spoken c' hc'
  have hreset := hush_resetTimeout u c
  exact ⟨hwired.hush hreset, (hreset.started c).trans hs⟩

end Writing

/-! ### The callbacks -/

section Callbacks

variable {p : Platform} {env : Outside} {s s' : Socket} {c : ℕ}

theorem started_operate (p : Platform) (env : Outside) (s : Socket) (e : Served.Event ℕ Bytes)
    (c : ℕ) : ((s.operate p env e).conn c).started = (s.conn c).started := by
  have hwriteAll (t : Socket) (frames : List (ℕ × Envelope Bytes)) :
      ((t.writeAll p frames).conn c).started = (t.conn c).started := by
    induction frames generalizing t with
    | nil => rfl
    | cons f rest ih => exact (ih _).trans (write_started p t f.1 f.2 c)
  unfold operate
  split
  · rfl
  · exact hwriteAll _ _

theorem Wired.completeHandshake (p : Platform) (env : Outside) (h : Wired s)
    (hstarted : (s.conn c).started = true) (e : Envelope Bytes) :
    Wired (s.completeHandshake p env c e).1 ∧
      ((s.completeHandshake p env c e).1.conn c).started = true := by
  have hdestroy := hush_destroy s c
  have hgiven : Wired (s.destroy c) ∧ ((s.destroy c).conn c).started = true :=
    ⟨h.hush hdestroy, (hdestroy.started c).trans hstarted⟩
  cases e with
  | hello version identity =>
    rw [Socket.completeHandshake]
    split
    · exact hgiven
    · split
      · exact hgiven
      · have hmodify : Hush s (s.modify c fun k => { k with handshaked := true }) :=
          hush_modify s c rfl rfl (fun h => h) fun h => h
        have hready := (hmodify.started c).trans hstarted
        refine ⟨(h.hush hmodify).operate ?_, (started_operate ..).trans hready⟩
        intro identity' c' heq
        cases heq
        exact hready
  | heartbeat | data | dataReq | ack => exact hgiven

theorem Wired.onFrame (p : Platform) (env : Outside) (h : Wired s)
    (hstarted : (s.conn c).started = true) (envelope : Bytes) :
    Wired (s.onFrame p env c envelope).1 ∧
      ((s.onFrame p env c envelope).1.conn c).started = true := by
  unfold Socket.onFrame
  split
  · exact ⟨h, hstarted⟩
  · split
    · exact ⟨h.operate (by simp), (started_operate ..).trans hstarted⟩
    · exact h.completeHandshake p env hstarted _

theorem Wired.onFrames (p : Platform) (env : Outside) (fuel : ℕ) (h : Wired s)
    (hstarted : (s.conn c).started = true) : Wired (s.onFrames p env fuel c) := by
  induction fuel generalizing s with
  | zero => exact h
  | succ fuel ih =>
    rw [Socket.onFrames]
    split
    · exact h
    · rename_i envelope d _
      have hpop : Hush s (s.modify c fun k => { k with decoder := d }) :=
        hush_modify s c rfl rfl (fun h => h) fun h => h
      obtain ⟨hframe, hready⟩ :=
        (h.hush hpop).onFrame p env ((hpop.started c).trans hstarted) envelope
      simp only
      split
      · exact ih hframe hready
      · exact hframe

theorem Wired.onData (p : Platform) (env : Outside) (h : Wired s)
    (hstarted : (s.conn c).started = true) (chunk : Bytes) : Wired (s.onData p env c chunk) := by
  have hreset := hush_resetTimeout s c
  have hpush : Hush (s.resetTimeout c) ((s.resetTimeout c).modify c fun k =>
      { k with decoder := k.decoder.push chunk, inbound := k.inbound ++ chunk }) :=
    hush_modify _ c rfl rfl (fun h => h) fun h => h
  refine ((h.hush hreset).hush hpush).onFrames p env _ ?_
  rw [hpush.started, hreset.started]
  exact hstarted

theorem Wired.extend (h : Wired s) (loop : Option Loop) : Wired (s.extend loop) := by
  have hnew : (s.conn s.count).started = false :=
    Bool.eq_false_iff.mpr fun htrue => absurd (h.below s.count htrue) (lt_irrefl _)
  have hself : (s.extend loop).conn s.count = .new loop := modify_conn_self ..
  have hother {c : ℕ} (hc : c ≠ s.count) : (s.extend loop).conn c = s.conn c :=
    modify_conn_of_ne _ hc _
  have hne {c : ℕ} (hc : ((s.extend loop).conn c).started = true) : c ≠ s.count := by
    rintro rfl
    rw [hself] at hc
    exact Bool.noConfusion hc
  refine ⟨fun entry hentry => ?_, fun c hc => ?_, fun c hc => ?_, fun c hc => ?_⟩
  · have hold := h.listed entry hentry
    rw [hother (by rintro heq; exact absurd (heq ▸ hold) (by simp [hnew]))]
    exact hold
  · have hold := hne hc
    rw [hother hold] at hc
    exact (h.below c hc).trans (Nat.lt_succ_self _)
  · by_cases hc' : c = s.count
    · subst hc'
      refine ⟨(h.idle s.count hnew).1, ?_⟩
      rw [hself]
      exact ⟨rfl, rfl⟩
    · rw [hother hc'] at hc ⊢
      exact h.idle c hc
  · have hold := hne hc
    rw [hother hold] at hc ⊢
    exact h.spoken c hc

/-- Bytes are at hand with an accepted connection only, and that starts at once. -/
theorem Wired.runConnection (p : Platform) (env : Outside) (h : Wired s) {loop : Option Loop}
    {prebuffer : Bytes} (hpre : loop.any Loop.deferred = true → prebuffer = []) :
    Wired (s.runConnection p env loop prebuffer) := by
  have hextend := h.extend loop
  have hself : (s.extend loop).conn s.count = .new loop := modify_conn_self ..
  have hcount : s.count < (s.extend loop).count := Nat.lt_succ_self _
  obtain ⟨hstart, hstarted⟩ := hextend.start p (c := s.count) (by rw [hself]; rfl)
    (by rw [hself]; rfl) hcount
  unfold Socket.runConnection
  simp only
  split
  · split
    · exact hextend
    · exact hstart
  · rename_i hbytes
    split
    · rename_i hdeferred
      exact absurd (hpre hdeferred) (by simpa using hbytes)
    · exact hstart.onData p env hstarted prebuffer

theorem Wired.connectLoop (p : Platform) (env : Outside) (h : Wired s) (loop : Loop)
    (refused : Bool) : Wired (s.connectLoop p env loop refused) := by
  unfold Socket.connectLoop
  split
  · exact h
  · split
    · exact h.hush (hush_retry s loop)
    · exact h.runConnection p env fun _ => rfl

theorem Wired.gone (p : Platform) (env : Outside) (h : Wired s) (c : ℕ) :
    Wired (s.gone p env c) := by
  have hteardown {t : Socket} (ht : Wired t) : Wired (t.teardown p env c) := by
    have hdrop : Hush t (t.drop c) :=
      hush_modify t c rfl rfl (fun _ => rfl) fun h => Bool.noConfusion h
    exact (ht.hush hdrop).operate (by simp)
  unfold Socket.gone
  split
  · exact hteardown h
  · exact hteardown (h.hush (hush_retry s _))
  · exact (hteardown h).hush (hush_retry _ _)

theorem Wired.close (p : Platform) (env : Outside) (h : Wired s) : Wired (s.close p env) := by
  unfold Socket.close
  split
  · exact h
  · have hoperate : Wired (s.operate p env (.close true)) := h.operate (by simp)
    simp only
    generalize s.operate p env (.close true) = t at hoperate
    refine hoperate.hush ⟨rfl, rfl, rfl, rfl, fun c => ?_, fun c => ?_, fun c => ?_, fun c => ?_⟩
    · show (if (t.conn c).owned then { t.conn c with live := false } else t.conn c).started = _
      split <;> rfl
    · show (if (t.conn c).owned then { t.conn c with live := false } else t.conn c).sent = _
      split <;> rfl
    · show _ → (if (t.conn c).owned then { t.conn c with live := false } else
        t.conn c).heartbeatTimer = none
      split <;> exact fun h => h
    · show (if (t.conn c).owned then { t.conn c with live := false } else t.conn c).live = true → _
      split
      · exact fun h => Bool.noConfusion h
      · exact fun h => h

/-! ### Whole runs -/

/-- **Every action** sends what the broker puts out. -/
theorem Wired.step (h : Wired s) (hlife : Lifecycle none s) {a : Action}
    (hstep : s.step p env a = some s') : Wired s' := by
  cases a with
  | connect deferred refused =>
    cases hstep
    have hloops : Wired { s with loops := s.loops + 1 } :=
      ⟨h.listed, h.below, h.idle, h.spoken⟩
    exact hloops.connectLoop p env _ refused
  | send target data =>
    cases hstep
    exact h.operate (by simp)
  | take | tick =>
    cases hstep
    exact ⟨h.listed, h.below, h.idle, h.spoken⟩
  | close =>
    cases hstep
    exact h.close p env
  | reconnect i refused =>
    obtain ⟨loop, -, rfl⟩ := Option.map_eq_some_iff.mp hstep
    have htimers : Wired { s with reconnectTimers := s.reconnectTimers.eraseIdx i } :=
      ⟨h.listed, h.below, h.idle, h.spoken⟩
    exact htimers.connectLoop p env loop refused
  | accepted prebuffer =>
    cases prebuffer with
    | none =>
      cases hstep
      exact h
    | some prebuffer =>
      rw [Socket.step] at hstep
      split at hstep
      · cases hstep
      · cases hstep
        split
        · exact h
        · exact h.runConnection p env fun hnone => Bool.noConfusion hnone
  | opened c =>
    rw [Socket.step] at hstep
    split at hstep
    · rename_i hready
      cases hstep
      exact (h.start p hready.2 hready.1 (hlife.below c (hlife.alive c hready.1))).1
    · cases hstep
  | data c chunk =>
    rw [Socket.step] at hstep
    split at hstep
    · rename_i hopen
      cases hstep
      exact h.onData p env (Bool.and_eq_true_iff.mp hopen).2 chunk
    · cases hstep
  | gone c =>
    rw [Socket.step] at hstep
    split at hstep
    · cases hstep
      exact h.gone p env c
    · cases hstep
  | heartbeat c =>
    rw [Socket.step] at hstep
    split at hstep
    · rename_i hdue
      cases hstep
      have hmodify : Hush s (s.modify c fun k => { k with heartbeatTimer := none }) :=
        hush_modify s c rfl rfl (fun _ => rfl) fun h => h
      have hstarted : (s.conn c).started = true := by
        by_contra hnew
        rw [(h.idle c (by simpa using hnew)).2.2] at hdue
        exact Bool.noConfusion hdue
      unfold onHeartbeat
      simp only
      split
      · exact (h.hush hmodify).heartbeat ((hmodify.started c).trans hstarted)
      · exact h.hush hmodify
    · cases hstep
  | timeout c =>
    rw [Socket.step] at hstep
    split at hstep
    · cases hstep
      have hmodify : Hush s (s.modify c fun k => { k with timeoutTimer := none }) :=
        hush_modify s c rfl rfl (fun h => h) fun h => h
      exact (h.hush hmodify).hush (hush_destroy _ c)
    · cases hstep
  | resend key =>
    cases hstep
    exact h.operate (by simp)

theorem wired_of_run {id : Identity} {sendMode : SendMode} {delivery : DeliveryGuarantee}
    {as : List Action} (hrun : (machine p env).run (new id sendMode delivery) as = some s) :
    Wired s := by
  have hboth := Machine.invariant (m := machine p env) (I := fun s => Wired s ∧ Lifecycle none s)
    (fun _ _ _ h hstep => ⟨h.1.step h.2 hstep, h.2.step hstep⟩) hrun
    ⟨wired_new id sendMode delivery, lifecycle_new id sendMode delivery⟩
  exact hboth.1

end Callbacks

end Socket

end JsLib

end Aiomsg
