import SharkMqtt.Broker.CleanStart

/-!
# The expired-session sweep against a connecting client

`cleanupExpiredSessions` (`broker/lifecycle.go`) looks once whether the client is
connected, then reads the record and, if it has expired, deletes it, clears the queue
and releases the filters, without a lock over these. `HandleConnection` meanwhile may
resume the very session: `Restore` does not look at the expiry time.

Both goroutines are machines over one process, for one ClientID of the sweep's list;
the rounds for other ClientIDs do not touch it. A publisher may queue a message at any
time: its session lookup can lie arbitrarily far back. `begun` and `lost` are ghosts:
from when on the queue is the new session's, and whether a message was cleared since.

The sweep takes the filters of a live session, and its messages, when it reads the
record before the session enters the manager and acts after. In runs without such
steps both are left alone (`intact_of_sweptBefore`).
-/

namespace SharkMqtt.Broker.Sweep

open Protocol Lib Function
open Teardown (StoredMessage sessionExpired)

/-! ## The two goroutines -/

/-- The next step of the sweep for the ClientID. -/
inductive Sweeper where
  | listing
  /-- `now` is taken once, after the list. -/
  | checking (now : ℕ)
  | reading (now : ℕ)
  | deleting (data : SessionData)
  | clearing (data : SessionData)
  | counting (data : SessionData)
  | releasing (topics : List Str)
  | done

/-- The next step of the client's connection. -/
inductive Client where
  /-- The owner check reads the stored record. -/
  | owner
  /-- `SessionExists`, `IsSessionExists`, and the two steps of `Restore`. -/
  | check
  | lookup
  | restore
  | insert (data : SessionData)
  /-- The filters of the restored session that are still to be entered. -/
  | entering (restored : Session) (left : List (Σ _ : Str, ℕ))
  /-- `CreateSession`, with the record a clean start will release. -/
  | create (isResuming : Bool) (stored : Option SessionData)
  /-- The teardown of a clean start. -/
  | discard (stored : Option SessionData)
  | releaseSession (left : List Str) (stored : Option SessionData)
  | releaseStored (left : List Str)
  | deleteSession
  | clearMessages
  | clearCount
  | register
  | deliver
  | reading
  /-- A filter is in the topic tree; `AddSubscriptionFilter` is next. -/
  | recording (topic : TopicFilter)
  | closed

/-- What stays fixed: the options and the CONNECT, its ClientID assigned. -/
structure Input where
  opts : BrokerOptions
  pkt : ConnectPacket

def Input.c (inp : Input) : Str := inp.pkt.clientID

structure State where
  p : Process
  /-- The ClientID has an entry in `connections`. -/
  registered : Bool
  sweeper : Sweeper := .listing
  client : Client := .owner
  begun : Bool := false
  lost : Bool := false

inductive Label where
  /-- The next step of the sweep; `now` is what it reads as the time. -/
  | sweep (now : ℕ)
  /-- The next step of the client's connection. -/
  | client (now : ℕ)
  /-- The client sends one filter to subscribe. -/
  | subscribe (topic : TopicFilter) (allowed : Str → Bool)
  /-- A publisher stores a message. -/
  | queue (msg : StoredMessage)

/-! ## Steps -/

def sweepStep (c : Str) (registered : Bool) (p : Process) (now : ℕ) :
    Sweeper → Option (Process × Sweeper)
  | .listing => some (p, if (p.out.stored c).isSome then .checking now else .done)
  | .checking now => some (p, if registered then .done else .reading now)
  | .reading now =>
    match p.out.stored c with
    | none => some (p, .done)
    | some data => some (p, if sessionExpired data now then .deleting data else .done)
  | .deleting data =>
    some ({ p with out := { p.out with stored := update p.out.stored c none } },
      .clearing data)
  | .clearing data => some ({ p with queued := update p.queued c [] }, .counting data)
  | .counting data =>
    some ({ p with offlineCount := update p.offlineCount c 0 }, .releasing data.filters)
  | .releasing [] => some (p, .done)
  | .releasing (topic :: left) =>
    some ({ p with topics := p.topics.unsubscribeTopic c topic }, .releasing left)
  | .done => none

/-- Whether clearing the queue now takes a message of the new session. -/
def State.clears (st : State) (c : Str) : Bool := st.lost || (st.begun && !(st.p.queued c).isEmpty)

def Input.negotiate (inp : Input) (s : Session) : Session :=
  { s with
    protocolVer := inp.pkt.protocolVersion
    expiryInterval := negotiatedExpiry inp.opts.toOptions inp.pkt
    outboundWindow := negotiatedWindow inp.opts.toOptions inp.pkt }

/-- The session after `CreateSession` and the negotiation. -/
def createSession (inp : Input) (existing : Option Session) (isResuming : Bool) : Session :=
  inp.negotiate <|
    match existing with
    | none => { clientID := inp.c }
    | some s => if !inp.pkt.flags.cleanSession && isResuming then s else { clientID := inp.c }

def State.setEngine (st : State) (q : QoSEngine) : State :=
  { st with p := { st.p with out := { st.p.out with engine := q } } }

def State.setSession (st : State) (c : Str) (s : Session) : State :=
  { st with p := { st.p with out := st.p.out.setSession c s } }

def clientStep (inp : Input) (st : State) (now : ℕ) : Client → Option State
  | .owner =>
    -- `SetClientVersion` comes right after the check
    some { st.setEngine (st.p.out.engine.setClientVersion inp.c inp.pkt.protocolVersion) with
      client :=
        if inp.pkt.flags.cleanSession then .create false (st.p.out.stored inp.c) else .check }
  | .check =>
    if (st.p.out.sessions inp.c).isSome then
      some { st with client := .create true none, begun := true }
    else some { st with client := .lookup }
  | .lookup =>
    some { st with
      client := if (st.p.out.stored inp.c).isSome then .restore else .create false none }
  | .restore =>
    match st.p.out.stored inp.c with
    | none => some { st with client := .create false none }
    | some data => some { st with client := .insert data }
  | .insert data =>
    some { st.setSession inp.c (restore data) with
      client := .entering (restore data) (restore data).subscriptions.entries, begun := true }
  | .entering restored [] =>
    some { st.setEngine (Outbound.restoreSessionInflight st.p.out.engine inp.c restored now) with
      client := .create true none }
  | .entering restored (sub :: left) =>
    some { st with
      p := { st.p with topics := st.p.topics.restoreFilter inp.c sub.1 sub.2 }
      client := .entering restored left }
  | .create isResuming stored =>
    let created := st.setSession inp.c (createSession inp (st.p.out.sessions inp.c) isResuming)
    if inp.pkt.flags.cleanSession then some { created with client := .discard stored }
    else some { created with client := .register, begun := true }
  | .discard stored =>
    some { st with
      client := .releaseSession ((st.p.out.sessions inp.c).elim [] Session.filters) stored }
  | .releaseSession [] stored =>
    some { st with client := .releaseStored (stored.elim [] SessionData.filters) }
  | .releaseSession (topic :: left) stored =>
    some { st with
      p := { st.p with topics := st.p.topics.unsubscribeTopic inp.c topic }
      client := .releaseSession left stored }
  | .releaseStored [] => some { st with client := .deleteSession }
  | .releaseStored (topic :: left) =>
    some { st with
      p := { st.p with topics := st.p.topics.unsubscribeTopic inp.c topic }
      client := .releaseStored left }
  | .deleteSession =>
    some { st with
      p := { st.p with
        out := { st.p.out with stored := update st.p.out.stored inp.c none } }
      client := .clearMessages }
  | .clearMessages =>
    -- what is queued from here on is the new session's
    some { st with
      p := { st.p with queued := update st.p.queued inp.c [] }
      lost := st.clears inp.c, client := .clearCount, begun := true }
  | .clearCount =>
    some { st with
      p := { st.p with offlineCount := update st.p.offlineCount inp.c 0 }
      client := .register }
  -- from here on the sweep's check finds the connection
  | .register => some { st with registered := true, client := .deliver }
  | .deliver => some { st with p := st.p.deliverQueuedMessages inp.c now, client := .reading }
  | .reading => none
  | .recording topic =>
    some { st with
      p := { st.p with out := st.p.out.onSession inp.c (·.addSubscriptionFilter topic) }
      client := .reading }
  | .closed => none

def step (inp : Input) (st : State) : Label → Option State
  | .sweep now =>
    match sweepStep inp.c st.registered st.p now st.sweeper with
    | none => none
    | some (p, sweeper) =>
      some { st with
        p := p, sweeper := sweeper
        lost := match st.sweeper with
          | .clearing _ => st.clears inp.c
          | _ => st.lost }
  | .client now => clientStep inp st now st.client
  | .subscribe topic allowed =>
    match st.client with
    | .reading =>
      match Process.enterFilter allowed inp.c st.p.topics topic with
      | none => some { st with client := .closed }
      | some none => some st
      | some (some topics) =>
        some { st with p := { st.p with topics := topics }, client := .recording topic }
    | _ => none
  | .queue msg => some { st with p := st.p.saveMessage inp.c msg }

/-! ## What is to be shown -/

/-- The filter is in the topic tree or its share group. -/
def Present (v : ClientView) (f : Str) : Prop := ∃ a, address f = some a ∧ (v.entry a).isSome = true

/-- The filters of the live session are present, and no message of it was cleared. -/
structure Intact (inp : Input) (st : State) : Prop where
  present : ∀ s, st.p.out.sessions inp.c = some s → ∀ f ∈ s.filters, Present (st.p.view inp.c) f
  kept : st.lost = false

/-- Both goroutines have finished: the client is connected, or refused for a malformed
filter, and no SUBSCRIBE is being handled. -/
def State.finished (st : State) : Bool :=
  match st.sweeper, st.client with
  | .done, .reading => true
  | .done, .closed => true
  | _, _ => false

/-- Before the two start: what holds of every client of a broker whose records are
such as a broker writes (`ready_of_run`). -/
def Ready (c : Str) (p : Process) : Prop :=
  ∃ connected, Restart.Sound Enterable c connected (p.view c)

theorem ready_of_run {opts : BrokerOptions} (engine : QoSEngine) {store : SessionStore}
    (queued : Str → List StoredMessage)
    (hstore : ∀ c, ∀ data ∈ store.get c, ∀ f ∈ data.filters, Enterable f)
    {ls : List Restart.Label} {st : Restart.State}
    (hrun : exec (Restart.step opts) (Restart.init engine store queued) ls = some st) (c : Str) :
    Ready c st.process :=
  ⟨st.connected c, exec_preserves (Restart.Inv Enterable)
    (fun _ _ _ h hstep => h.step (fun _ hf => hf) opts hstep)
    (Restart.inv_init engine queued hstore) hrun c⟩

def init (inp : Input) (p : Process) : State where
  p := p
  registered := (p.out.sessions inp.c).isSome

def Sweeper.acts : Sweeper → Bool
  | .deleting _ | .clearing _ | .counting _ | .releasing _ => true
  | _ => false

/-- The sweep takes nothing away once the client's session has entered the manager. -/
def SweptBefore (inp : Input) (st : State) : Label → Prop
  | .sweep _ => st.sweeper.acts = true → (st.p.out.sessions inp.c).isSome = false
  | _ => True

instance (inp : Input) (st : State) (l : Label) : Decidable (SweptBefore inp st l) := by
  cases l <;> dsimp only [SweptBefore] <;> infer_instance

/-! ## Each goroutine alone

Undisturbed, the steps make up the functions of `Process`. -/

section Alone

variable (inp : Input) (p : Process) (now : ℕ)

theorem sweep_alone : ∃ st, Repeats (step inp) (.sweep now) (init inp p) st ∧
    st.sweeper = .done ∧ st.p = p.cleanupExpiredSession inp.c now := by
  unfold Process.cleanupExpiredSession
  cases hdata : p.out.stored inp.c with
  | none =>
    refine ⟨{ init inp p with sweeper := .done }, ⟨1, ?_⟩, rfl, ?_⟩
    all_goals simp [exec, step, sweepStep, init, hdata]
  | some data =>
    cases hs : (p.out.sessions inp.c).isSome with
    | true =>
      refine ⟨{ init inp p with sweeper := .done }, ⟨2, ?_⟩, rfl, ?_⟩
      all_goals simp [List.replicate, exec, step, sweepStep, init, hdata, hs]
    | false =>
      cases hexp : sessionExpired data now with
      | false =>
        refine ⟨{ init inp p with sweeper := .done }, ⟨3, ?_⟩, rfl, ?_⟩
        all_goals simp [List.replicate, exec, step, sweepStep, init, hdata, hs, hexp]
      | true =>
        let st (topics : List Str) (tp : Topics) : State :=
          { p := { p.clearMessages inp.c with
              topics := tp
              out := { p.out with stored := update p.out.stored inp.c none } }
            registered := false, sweeper := .releasing topics }
        refine ⟨{ st [] (p.topics.unsubscribeTopics inp.c data.filters) with sweeper := .done },
          Repeats.trans (t := st data.filters p.topics) ⟨6, ?_⟩ (.trans
            (repeats_foldl st _ (fun _ _ _ => rfl) data.filters p.topics) ⟨1, rfl⟩), rfl, ?_⟩
        · simp [List.replicate, exec, step, sweepStep, init, hdata, hs, hexp, State.clears, st,
            Process.clearMessages]
        · simp [st, hexp]

theorem connect_clean (b : Outbound) (hclean : inp.pkt.flags.cleanSession = true) :
    (b.connect inp.opts.toOptions inp.pkt now).1 =
      { sessions := update b.sessions inp.c (some (inp.negotiate { clientID := inp.c }))
        stored := update b.stored inp.c none
        engine := b.engine.setClientVersion inp.c inp.pkt.protocolVersion } := by
  simp [Outbound.connect, Broker.connect, Outbound.resumedEngine, resumed, hclean,
    Input.negotiate, Input.c]

theorem connect_resume (b : Outbound) (hclean : inp.pkt.flags.cleanSession = false) :
    (b.connect inp.opts.toOptions inp.pkt now).1 =
      { b with engine := b.resumedEngine inp.pkt now }.setSession inp.c
        (inp.negotiate ((resumed (b.client inp.c) inp.pkt).getD { clientID := inp.c })) := by
  simp [hclean, Outbound.connect, Broker.connect, Outbound.client, Outbound.setSession,
    Input.negotiate, Input.c]

theorem createSession_fresh (existing : Option Session) :
    createSession inp existing false = inp.negotiate { clientID := inp.c } := by
  cases existing <;> simp [createSession]

/-- Without a clean start `CreateSession` leads to the read loop. -/
theorem create_alone {inp : Input} (hclean : inp.pkt.flags.cleanSession = false)
    (p : Process) (registered begun isResuming : Bool) :
    Repeats (step inp) (.client now)
      ⟨p, registered, .listing, .create isResuming none, begun, false⟩
      ⟨Process.deliverQueuedMessages { p with
          out := p.out.setSession inp.c (createSession inp (p.out.sessions inp.c) isResuming) }
          inp.c now,
        true, .listing, .reading, true, false⟩ :=
  ⟨3, by simp [List.replicate, exec, step, clientStep, hclean, State.setSession]⟩

/-- Alone, the handshake leads to its read loop and the process `q`. -/
def ConnectsTo (q : Process) : Prop :=
  ∃ st, Repeats (step inp) (.client now) (init inp p) st ∧ st.client = .reading ∧ st.p = q

theorem clean_alone (assigned : Str) (hid : inp.pkt.clientID ≠ [])
    (hclean : inp.pkt.flags.cleanSession = true) :
    ConnectsTo inp p now (p.connect inp.opts inp.pkt assigned now) := by
  rw [Process.connect, Process.register_clean inp.opts p now
    (CleanStart.cleanSession_assignClientID.trans hclean), Process.assignClientID, if_neg hid,
    connect_clean inp now _ hclean, Process.storedSession, if_neg hid]
  let st (topics : List Str) (tp : Topics) : State :=
    { p := { p with
        topics := tp
        out := { p.out with
          engine := p.out.engine.setClientVersion inp.c inp.pkt.protocolVersion }.setSession inp.c
            (inp.negotiate { clientID := inp.c }) }
      registered := (p.out.sessions inp.c).isSome, client := .releaseStored topics }
  -- the session found is the new one, so only the filters of the record are released
  refine ⟨_, Repeats.trans (t := st ((p.out.stored inp.c).elim [] SessionData.filters) p.topics)
    ⟨4, ?_⟩ (.trans (repeats_foldl st _ (fun _ _ _ => rfl) _ p.topics) ⟨6, rfl⟩), rfl, rfl⟩
  simp [List.replicate, exec, step, clientStep, init, hclean, createSession_fresh,
    State.setEngine, State.setSession, Outbound.setSession, st, Session.filters, Input.negotiate]

theorem resume_alone (assigned : Str) (hid : inp.pkt.clientID ≠ [])
    (hclean : inp.pkt.flags.cleanSession = false) :
    ConnectsTo inp p now (p.connect inp.opts inp.pkt assigned now) := by
  rw [Process.connect, Process.register_resume inp.opts p now
    (CleanStart.cleanSession_assignClientID.trans hclean), Process.assignClientID, if_neg hid,
    connect_resume inp now _ hclean]
  unfold Process.resumeTopics Process.restoredRecord Outbound.resumedEngine resumed
  rw [hclean]
  let checked : Outbound :=
    { p.out with engine := p.out.engine.setClientVersion inp.c inp.pkt.protocolVersion }
  cases hs : p.out.sessions inp.c with
  | some s =>
    refine ⟨_, .trans ⟨2, ?_⟩ (create_alone now hclean { p with out := checked } true true true),
      rfl, ?_⟩
    · simp [List.replicate, exec, step, clientStep, init, hclean, hs, State.setEngine, checked]
    · simp_all [Outbound.client, createSession, Input.c, checked]
  | none =>
    cases hdata : p.out.stored inp.c with
    | none =>
      refine ⟨_, .trans ⟨3, ?_⟩ (create_alone now hclean { p with out := checked } false false
        false), rfl, ?_⟩
      · simp [List.replicate, exec, step, clientStep, init, hclean, hs, hdata, State.setEngine,
          checked]
      · simp_all [Outbound.client, createSession, Input.c, checked]
    | some data =>
      let st (left : List (Σ _ : Str, ℕ)) (tp : Topics) : State :=
        { p := { p with topics := tp, out := checked.setSession inp.c (restore data) }
          registered := false, client := .entering (restore data) left, begun := true }
      refine ⟨_, Repeats.trans (t := st (restore data).subscriptions.entries p.topics)
        ⟨5, ?_⟩ (.trans (repeats_foldl st (fun tp sub => tp.restoreFilter inp.c sub.1 sub.2)
          (fun _ _ _ => rfl) _ p.topics) (.trans ⟨1, rfl⟩ (create_alone now hclean _ _ _ _))),
        rfl, ?_⟩
      · simp [List.replicate, exec, step, clientStep, init, hclean, hs, hdata, State.setEngine,
          State.setSession, st, checked]
      · simp_all [Outbound.client, createSession, Input.c, Outbound.setSession,
          Topics.restoreFilters, State.setEngine, st, checked]

theorem connect_alone (assigned : Str) (hid : inp.pkt.clientID ≠ []) :
    ConnectsTo inp p now (p.connect inp.opts inp.pkt assigned now) := by
  cases hclean : inp.pkt.flags.cleanSession with
  | true => exact clean_alone inp p now assigned hid hclean
  | false => exact resume_alone inp p now assigned hid hclean

end Alone

/-! ## The invariant -/

def Client.left : Client → List Str
  | .entering _ left => left.map Sigma.fst
  | _ => []

/-- What the client's position says about it: whether it starts clean, what it has
read, and that the session a clean start has made is new. -/
def PhaseOk (inp : Input) (v : ClientView) (begun : Bool) : Client → Prop
  | .owner => begun = false
  | .check | .lookup | .restore | .entering _ _ => inp.pkt.flags.cleanSession = false
  | .insert data => inp.pkt.flags.cleanSession = false ∧ ∀ f ∈ data.filters, Enterable f
  | .create _ _ => inp.pkt.flags.cleanSession = true → begun = false
  | .discard _ | .releaseSession _ _ | .releaseStored _ | .deleteSession | .clearMessages =>
    begun = false ∧ v.session = some (inp.c, [])
  | .recording topic => v.session.isSome = true ∧ Present v topic.topic
  | .clearCount | .register | .deliver | .reading => v.session.isSome = true
  | .closed => True

/-- Every filter of the session is present or on the list of those to be entered. -/
structure Inv (inp : Input) (st : State) : Prop where
  record : ∀ data ∈ (st.p.view inp.c).stored, ∀ f ∈ data.filters, Enterable f
  session : ∀ s ∈ (st.p.view inp.c).session, ∀ f ∈ s.2,
    Present (st.p.view inp.c) f ∨ Enterable f ∧ f ∈ st.client.left
  phase : PhaseOk inp (st.p.view inp.c) st.begun st.client
  begun : st.begun = true → (st.p.view inp.c).session.isSome = true
  kept : st.lost = false

variable {c : Str} {p : Process} {inp : Input}

theorem Ready.present (h : Ready c p) :
    ∀ s ∈ (p.view c).session, ∀ f ∈ s.2, Present (p.view c) f := by
  intro s hs f hf
  obtain ⟨connected, hsound⟩ := h
  obtain ⟨a, ha, hacc⟩ := hsound.listed s hs f hf
  refine ⟨a, ha, hsound.entered ?_ a (mem_addresses.mpr ⟨f, ?_, ha⟩) hacc⟩
  · by_contra hconn
    have hnone := (hsound.absent (Bool.eq_false_iff.mpr hconn)).1
    rw [hnone] at hs
    cases hs
  · rw [ClientView.filters, hs]
    exact hf

theorem inv_init (h : Ready inp.c p) : Inv inp (init inp p) where
  record := h.elim fun _ hsound => hsound.recorded
  session := fun s hs f hf => Or.inl (h.present s hs f hf)
  phase := rfl
  begun := nofun
  kept := rfl

/-! ## Presence -/

variable {v : ClientView}

theorem Present.mono {v' : ClientView} {f : Str} (h : Present v f)
    (hmono : ∀ a, (v.entry a).isSome = true → (v'.entry a).isSome = true) : Present v' f := by
  obtain ⟨a, ha, hentry⟩ := h
  exact ⟨a, ha, hmono a hentry⟩

theorem isSome_entry_restoreFilter {tp : Topics} {f : Str} {q : ℕ} {a : Address}
    (h : (tp.entry c a).isSome = true) : ((tp.restoreFilter c f q).entry c a).isSome = true := by
  rw [Topics.entry_restoreFilter]
  split_ifs
  · rfl
  · exact h

variable {topic : TopicFilter}

theorem isSome_entry_enterFilter {allowed : Str → Bool} {tp tp' : Topics}
    (henter : Process.enterFilter allowed c tp topic = some (some tp')) {a : Address}
    (h : (tp.entry c a).isSome = true) : (tp'.entry c a).isSome = true := by
  obtain ⟨a', -, -, hentry⟩ := Process.enterFilter_eq_some henter
  rw [hentry]
  split_ifs
  · rfl
  · exact h

/-! ## The sweep -/

theorem sweepStep_eq_some {registered : Bool} {p' : Process} {now : ℕ} {sw sw' : Sweeper}
    (h : sweepStep c registered p now sw = some (p', sw')) :
    p'.out.sessions = p.out.sessions ∧
      (∀ data, p'.out.stored c = some data → p.out.stored c = some data) ∧
      (sw.acts = false → p' = p) := by
  cases sw with
  | listing | checking => cases h; exact ⟨rfl, fun _ hd => hd, fun _ => rfl⟩
  | reading _ =>
    simp only [sweepStep] at h
    split at h <;> (cases h; exact ⟨rfl, fun _ hd => hd, fun _ => rfl⟩)
  | deleting data =>
    cases h
    refine ⟨rfl, fun d hd => ?_, nofun⟩
    simp only [update_self] at hd
    cases hd
  | clearing | counting => cases h; exact ⟨rfl, fun _ hd => hd, nofun⟩
  | releasing topics =>
    cases topics with
    | nil | cons => cases h; exact ⟨rfl, fun _ hd => hd, nofun⟩
  | done => cases h

/-- Without a session the position says nothing about the entries. -/
theorem PhaseOk.of_session_none {v' : ClientView} {begun : Bool} {cl : Client}
    (h : PhaseOk inp v begun cl) (hnone : v.session = none) : PhaseOk inp v' begun cl := by
  cases cl with
  | discard _ | releaseSession _ _ | releaseStored _ | deleteSession | clearMessages =>
    exact absurd (hnone.symm.trans h.2) nofun
  | recording topic =>
    have hsome := h.1
    rw [hnone] at hsome
    cases hsome
  | clearCount | register | deliver | reading =>
    have hsome : v.session.isSome = true := h
    rw [hnone] at hsome
    cases hsome
  | owner | check | lookup | restore | entering _ _ | insert _ | create _ _ | closed => exact h

theorem Inv.sweep {st st' : State} {now : ℕ} (h : Inv inp st)
    (hok : SweptBefore inp st (.sweep now)) (hstep : step inp st (.sweep now) = some st') :
    Inv inp st' := by
  simp only [step] at hstep
  split at hstep
  · cases hstep
  next p' sw' hsweep =>
  cases hstep
  obtain ⟨hsessions, hstored, hquiet⟩ := sweepStep_eq_some hsweep
  cases hacts : st.sweeper.acts with
  | false =>
    obtain rfl := hquiet hacts
    refine ⟨h.record, h.session, h.phase, h.begun, ?_⟩
    cases hsw : st.sweeper with
    | clearing data => rw [hsw] at hacts; cases hacts
    | listing | checking _ | reading _ | deleting _ | counting _ | releasing _ | done =>
      exact h.kept
  | true =>
    -- the client has no session, so there is nothing it could lose
    have hnone : st.p.out.sessions inp.c = none := by simpa using hok hacts
    have hsession : (st.p.view inp.c).session = none := by rw [Process.view, hnone]; rfl
    have hsession' : (p'.view inp.c).session = none := by
      rw [Process.view, hsessions, hnone]
      rfl
    have hbegun : st.begun = false := by
      by_contra hb
      have hsome := h.begun (Bool.eq_true_of_not_eq_false hb)
      rw [hsession] at hsome
      cases hsome
    refine ⟨fun data hdata => h.record data (hstored data hdata), ?_,
      h.phase.of_session_none hsession, ?_, ?_⟩
    · intro s hs
      rw [hsession'] at hs
      cases hs
    · intro hb
      cases hbegun.symm.trans hb
    · have hclears : st.clears inp.c = false := by
        rw [State.clears, h.kept, hbegun]
        rfl
      cases hsw : st.sweeper with
      | clearing data => exact hclears
      | listing | checking _ | reading _ | deleting _ | counting _ | releasing _ | done =>
        exact h.kept

/-! ## The client -/

section Client

variable {inp : Input} {st st' : State}

theorem PhaseOk.create_of_kept {begun isResuming : Bool} {stored : Option SessionData}
    (h : inp.pkt.flags.cleanSession = false) : PhaseOk inp v begun (.create isResuming stored) :=
  fun hclean => absurd (h.symm.trans hclean) nofun

theorem view_setSession (p : Process) (c : Str) (s : Session) :
    ({ p with out := p.out.setSession c s } : Process).view c =
      ⟨some s.subscriber, p.out.stored c, p.topics.entry c⟩ := by
  simp only [Process.view, Outbound.sessions_setSession]
  rfl

theorem filters_createSession (inp : Input) (existing : Option Session) (isResuming : Bool) :
    (inp.pkt.flags.cleanSession = true →
      (createSession inp existing isResuming).subscriber = (inp.c, [])) ∧
      ((createSession inp existing isResuming).filters = [] ∨
        ∃ s, existing = some s ∧ (createSession inp existing isResuming).filters = s.filters) := by
  cases existing with
  | none => exact ⟨fun _ => rfl, Or.inl rfl⟩
  | some s =>
    unfold createSession
    split_ifs with hresume
    · refine ⟨fun hclean => ?_, Or.inr ⟨s, rfl, rfl⟩⟩
      rw [hclean] at hresume
      cases hresume
    · exact ⟨fun _ => rfl, Or.inl rfl⟩

variable (h : Inv inp st)

include h

theorem Inv.present (hleft : st.client.left = []) :
    ∀ s ∈ (st.p.view inp.c).session, ∀ f ∈ s.2, Present (st.p.view inp.c) f := by
  intro s hs f hf
  rcases h.session s hs f hf with hp | ⟨-, hl⟩
  · exact hp
  · rw [hleft] at hl
    exact absurd hl List.not_mem_nil

theorem Inv.move (hview : st'.p.view inp.c = st.p.view inp.c) (hleft : st.client.left = [])
    (hphase : PhaseOk inp (st.p.view inp.c) st'.begun st'.client)
    (hbegun : st'.begun = true → (st.p.view inp.c).session.isSome = true)
    (hkept : st'.lost = false) : Inv inp st' := by
  refine ⟨?_, ?_, ?_, ?_, hkept⟩
  · rw [hview]
    exact h.record
  · rw [hview]
    intro s hs f hf
    exact Or.inl (h.present hleft s hs f hf)
  · rw [hview]
    exact hphase
  · rw [hview]
    exact hbegun

theorem Inv.discarding (hold : st.begun = false ∧ (st.p.view inp.c).session = some (inp.c, []))
    (hsession : (st'.p.view inp.c).session = (st.p.view inp.c).session)
    (hstored : ∀ data ∈ (st'.p.view inp.c).stored, data ∈ (st.p.view inp.c).stored)
    (hphase : PhaseOk inp (st'.p.view inp.c) st'.begun st'.client)
    (hkept : st'.lost = false) : Inv inp st' := by
  refine ⟨fun data hdata => h.record data (hstored data hdata), ?_, hphase, ?_, hkept⟩
  -- the new session has no filter that could be released
  · intro s hs f hf
    rw [hsession, hold.2] at hs
    cases hs
    exact absurd hf List.not_mem_nil
  · intro _
    rw [hsession, hold.2]
    rfl

theorem Inv.putSession {s : Session} (hp : st'.p = { st.p with out := st.p.out.setSession inp.c s })
    (hfilters : ∀ f ∈ s.filters,
      Present (st.p.view inp.c) f ∨ Enterable f ∧ f ∈ st'.client.left)
    (hphase : PhaseOk inp ⟨some s.subscriber, st.p.out.stored inp.c, st.p.topics.entry inp.c⟩
      st'.begun st'.client) (hkept : st'.lost = false) : Inv inp st' := by
  have hview := view_setSession st.p inp.c s
  rw [← hp] at hview
  refine ⟨?_, ?_, ?_, ?_, hkept⟩
  · rw [hview]
    exact h.record
  · rw [hview]
    rintro s' ⟨⟩ f hf
    exact hfilters f hf
  · rw [hview]
    exact hphase
  · intro _
    rw [hview]
    rfl

theorem Inv.enter {restored : Session} {sub : Σ _ : Str, ℕ} {left : List (Σ _ : Str, ℕ)}
    (hcl : st.client = .entering restored (sub :: left)) (hst : st' = { st with
      p := { st.p with topics := st.p.topics.restoreFilter inp.c sub.1 sub.2 }
      client := .entering restored left }) : Inv inp st' := by
  have hclean : PhaseOk inp (st.p.view inp.c) st.begun (.entering restored (sub :: left)) :=
    hcl ▸ h.phase
  subst hst
  refine ⟨h.record, fun s hs f hf => ?_, hclean, h.begun, h.kept⟩
  -- present before, just entered, or still on the list
  rcases h.session s hs f hf with hp | ⟨he, hl⟩
  · exact Or.inl (hp.mono fun a ha => isSome_entry_restoreFilter ha)
  · rw [hcl] at hl
    rcases List.mem_cons.mp hl with rfl | hl
    · obtain ⟨a, ha, hacc⟩ := he
      refine Or.inl ⟨a, ha, ?_⟩
      show ((st.p.topics.restoreFilter inp.c sub.1 sub.2).entry inp.c a).isSome = true
      rw [Topics.entry_restoreFilter, if_pos ⟨rfl, ha, hacc⟩]
      rfl
    · exact Or.inr ⟨he, hl⟩

/-- The filters of the session after `CreateSession` are present: they are those of
the session it resumes, which have all been entered. -/
theorem Inv.present_createSession {isResuming : Bool}
    {stored : Option SessionData} (hcl : st.client = .create isResuming stored) :
    ∀ f ∈ (createSession inp (st.p.out.sessions inp.c) isResuming).filters,
      Present (st.p.view inp.c) f := by
  intro f hf
  rcases (filters_createSession inp (st.p.out.sessions inp.c) isResuming).2 with
    hnil | ⟨s, hs, heq⟩
  · rw [hnil] at hf
    exact absurd hf List.not_mem_nil
  · rw [heq] at hf
    refine h.present (by rw [hcl]; rfl) s.subscriber ?_ f hf
    rw [Process.view, hs]
    rfl

theorem Inv.record_filter (hcl : st.client = .recording topic) (hst : st' = { st with
      p := { st.p with out := st.p.out.onSession inp.c (·.addSubscriptionFilter topic) }
      client := .reading }) : Inv inp st' := by
  obtain ⟨hsome, hpresent⟩ : PhaseOk inp (st.p.view inp.c) st.begun (.recording topic) :=
    hcl ▸ h.phase
  rw [Process.view, Option.isSome_map] at hsome
  obtain ⟨s, hs⟩ := Option.isSome_iff_exists.mp hsome
  subst hst
  refine h.putSession (s := s.addSubscriptionFilter topic) ?_ (fun f hf => ?_) rfl h.kept
  · simp only [Outbound.onSession, hs]
  · rcases Session.mem_filters_addSubscriptionFilter.mp hf with rfl | hold
    · exact Or.inl hpresent
    · refine Or.inl (h.present (by rw [hcl]; rfl) s.subscriber ?_ f hold)
      rw [Process.view, hs]
      rfl

theorem Inv.client {now : ℕ} (hstep : step inp st (.client now) = some st') : Inv inp st' := by
  obtain ⟨p, registered, sw, cl, begun, lost⟩ := st
  have hphase := h.phase
  simp only [step] at hstep
  revert hstep hphase h
  fun_cases clientStep inp ⟨p, registered, sw, cl, begun, lost⟩ now cl <;> rintro h ⟨⟩ hphase
  · refine h.move rfl rfl ?_ h.begun h.kept
    split_ifs with hclean
    · exact fun _ => hphase
    · exact Bool.eq_false_iff.mpr hclean
  next hsome =>
    refine h.move rfl rfl (PhaseOk.create_of_kept hphase) (fun _ => ?_) h.kept
    rw [Process.view, Option.isSome_map]
    exact hsome
  · exact h.move rfl rfl hphase h.begun h.kept
  · refine h.move rfl rfl ?_ h.begun h.kept
    split_ifs
    · exact hphase
    · exact PhaseOk.create_of_kept hphase
  · exact h.move rfl rfl (PhaseOk.create_of_kept hphase) h.begun h.kept
  next data hdata => exact h.move rfl rfl ⟨hphase, h.record data hdata⟩ h.begun h.kept
  next data =>
    refine h.putSession rfl (fun f hf => Or.inr ⟨?_, hf⟩) hphase.1 h.kept
    exact hphase.2 f (mem_filters_restore.mp hf)
  · exact h.move rfl rfl (PhaseOk.create_of_kept hphase) h.begun h.kept
  · exact h.enter rfl rfl
  next isResuming stored hclean _ =>
    have hpresent := h.present_createSession rfl
    refine h.putSession rfl (fun f hf => Or.inl (hpresent f hf)) ⟨hphase hclean, ?_⟩ h.kept
    rw [(filters_createSession inp _ isResuming).1 hclean]
  · exact h.putSession rfl (fun f hf => Or.inl (h.present_createSession rfl f hf)) rfl h.kept
  · exact h.move rfl rfl hphase h.begun h.kept
  · exact h.move rfl rfl hphase h.begun h.kept
  · exact h.discarding hphase rfl (fun _ hd => hd) hphase h.kept
  · exact h.move rfl rfl hphase h.begun h.kept
  · exact h.discarding hphase rfl (fun _ hd => hd) hphase h.kept
  · refine h.discarding hphase rfl (fun data hd => ?_) hphase h.kept
    simp only [Process.view, update_self] at hd
    cases hd
  · have hsome : (p.view inp.c).session.isSome = true := Option.isSome_of_eq_some hphase.2
    refine h.move rfl rfl hsome (fun _ => hsome) ?_
    rw [State.clears, h.kept, hphase.1]
    rfl
  · exact h.move rfl rfl hphase h.begun h.kept
  · exact h.move rfl rfl hphase h.begun h.kept
  · exact h.move (p.view_deliverQueuedMessages inp.c now inp.c) rfl hphase h.begun h.kept
  · exact h.record_filter rfl rfl

theorem Inv.subscribe {allowed : Str → Bool}
    (hstep : step inp st (.subscribe topic allowed) = some st') : Inv inp st' := by
  obtain ⟨p, registered, sw, cl, begun, lost⟩ := st
  simp only [step] at hstep
  split at hstep
  · split at hstep
    · cases hstep
      exact h.move rfl rfl trivial h.begun h.kept
    · cases hstep
      exact h
    next topics henter =>
      cases hstep
      obtain ⟨a, ha, -, hentry⟩ := Process.enterFilter_eq_some henter
      refine ⟨h.record, fun s hs f hf => Or.inl ?_, ⟨h.phase, a, ha, ?_⟩, h.begun, h.kept⟩
      · exact (h.present rfl s hs f hf).mono fun a ha => isSome_entry_enterFilter henter ha
      · show (topics.entry inp.c a).isSome = true
        rw [hentry, if_pos ⟨rfl, rfl⟩]
        rfl
  · cases hstep

end Client

/-! ## Whole runs -/

theorem Inv.step {st st' : State} {l : Label} (h : Inv inp st) (hok : SweptBefore inp st l)
    (hstep : step inp st l = some st') : Inv inp st' := by
  cases l with
  | sweep now => exact h.sweep hok hstep
  | client now => exact h.client hstep
  | subscribe topic allowed => exact h.subscribe hstep
  | queue msg =>
    cases hstep
    exact ⟨h.record, h.session, h.phase, h.begun, h.kept⟩

/-- **When the sweep takes nothing away after the client's session has entered the
manager, the filters of the live session are present and none of its messages was
cleared**, whatever the interleaving. -/
theorem intact_of_sweptBefore {inp : Input} {p : Process} (hready : Ready inp.c p)
    {ls : List Label} {st : State} (hok : Along (step inp) (SweptBefore inp) (init inp p) ls)
    (hrun : exec (step inp) (init inp p) ls = some st) (hfin : st.finished = true) :
    Intact inp st := by
  have hinv := exec_invariant (Inv inp) (fun _ _ _ h hok hs => h.step hok hs)
    (inv_init hready) hok hrun
  have hleft : st.client.left = [] := by
    unfold State.finished at hfin
    split at hfin
    next hcl => rw [hcl]; rfl
    next hcl => rw [hcl]; rfl
    · cases hfin
  refine ⟨fun s hs f hf => hinv.present hleft s.subscriber ?_ f hf, hinv.kept⟩
  rw [Process.view, hs]
  rfl

/-! ## An expired session that is resumed -/

def input : Input := ⟨Restart.options, Restart.connectPersistent⟩

/-- The client of `CleanStart.offline`, away with a filter and a queued message. -/
theorem ready_offline : Ready input.c CleanStart.offline := by
  refine ⟨true, nofun, ?_, nofun, ?_, nofun, fun _ a ha hacc => ?_⟩
  · rintro data ⟨⟩
    rfl
  · rintro data ⟨⟩ f hf
    obtain rfl := List.mem_singleton.mp hf
    exact ⟨.trie (ascii "a"), by decide, by decide⟩
  · exact (Topics.isSome_entry_restoreFilters (ascii "c") a _ _).mpr (Or.inr ⟨hacc, ha⟩)

def late : ℕ := 200 * second

/-- The sweep has read the record when the client resumes the session, and goes on
when the connection is registered. -/
def sweepAfterResume : List Label :=
  List.replicate 3 (.sweep late) ++ List.replicate 9 (.client late) ++
    List.replicate 5 (.sweep late) ++ [.client late]

theorem sweepAfterResume_not_intact :
    ∃ st, exec (step input) (init input CleanStart.offline) sweepAfterResume = some st ∧
      st.finished = true ∧
      (∃ s, st.p.out.sessions input.c = some s ∧ ascii "a" ∈ s.filters) ∧
      st.p.topics.entry input.c (.trie (ascii "a")) = none ∧ st.lost = true ∧
      ¬ Intact input st := by
  refine exec_reaches (by decide +kernel) fun st hst _ => ?_
  have hsession : ((st.p.out.sessions input.c).any fun s => decide (ascii "a" ∈ s.filters)) =
      true := of_exec hst (by decide +kernel)
  have hlost : st.lost = true := of_exec hst (by decide +kernel)
  refine ⟨by simpa [Option.any_eq_true] using hsession, of_exec hst (by decide +kernel), hlost,
    fun h => ?_⟩
  cases hlost.symm.trans h.kept

/-- The sweep ends before the client has a session; the client subscribes anew, and a
message is stored for it. -/
def sweepBeforeCreate : List Label :=
  List.replicate 3 (.sweep late) ++ List.replicate 2 (.client late) ++
    List.replicate 5 (.sweep late) ++ List.replicate 4 (.client late) ++
    [.subscribe ⟨ascii "a", 1, false, false, 0, none⟩ fun _ => true,
      .queue (Process.bufferedMessage CleanStart.message), .client late]

theorem sweepBeforeCreate_intact :
    ∃ st, exec (step input) (init input CleanStart.offline) sweepBeforeCreate = some st ∧
      (∃ s, st.p.out.sessions input.c = some s ∧ ascii "a" ∈ s.filters) ∧ Intact input st := by
  have hfacts : (exec (step input) (init input CleanStart.offline) sweepBeforeCreate).any
      (fun st => (st.p.out.sessions input.c).any fun s => decide (ascii "a" ∈ s.filters)) =
      true := by decide +kernel
  obtain ⟨st, hst, hsession⟩ := (Option.any_eq_true _ _).mp hfacts
  refine ⟨st, hst, by simpa [Option.any_eq_true] using hsession, ?_⟩
  exact intact_of_sweptBefore ready_offline (by decide +kernel) hst (of_exec hst (by decide +kernel))

end SharkMqtt.Broker.Sweep
