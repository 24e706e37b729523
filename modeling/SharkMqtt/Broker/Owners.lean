import SharkMqtt.Broker.Sweep

/-!
# Whose session a handshake takes

A session belongs to the username that created it: `HandleConnection` rejects a CONNECT
under another username, after one look at the session in the manager and one read of the
stored record. What the handshake does then it does by ClientID alone: `SessionExists`,
`IsSessionExists` and `Restore` for a resume, `CreateSession`, and for a clean start
`DeleteSession` and `ClearMessages`.

The machine runs any number of handshakes for one ClientID, each as a sequence of steps:
the owner check, the lookups, `CreateSession`, the teardown of a clean start and the
registration. A call on a store is carried out, finds nothing or fails. `acts` is a ghost:
each time a handshake resumes, replaces, deletes or attaches to a session, with the
username recorded for that session at that moment.

The one read that decides may fail, and is skipped then, while the later calls succeed;
and two users' checks may both pass before either session exists. Where the read answers
and no check passes between another user's check and `CreateSession`, every handshake
acts on sessions of its own user only, and the other user is rejected
(`acts_on_own_of_answered`, `rejected_of_alone`).
-/

namespace SharkMqtt.Broker.Owners

open Protocol Lib Function

abbrev ConnID := ℕ

/-! ## The machine -/

inductive Outcome where
  | ok
  | notFound
  | failed
deriving DecidableEq

/-- What a read returns of what is there. -/
def Outcome.read {α : Type} (o : Outcome) (found : Option α) : Option α :=
  match o with
  | .ok => found
  | .notFound | .failed => none

inductive Phase where
  | owner
  | rejected
  /-- `SessionExists`, `IsSessionExists`, `Restore`. -/
  | check
  | lookup
  | restore
  /-- `CreateSession`, with the record a clean start will release. -/
  | create (isResuming : Bool) (stored : Option SessionData)
  /-- The teardown of a clean start: up to `DeleteSession`, and `ClearMessages`. -/
  | discard (stored : Option SessionData)
  | clear
  | register
  | registered

/-- What stays fixed: the options, the ClientID and the CONNECT packets with their
assigned ClientIDs. -/
structure Input where
  opts : BrokerOptions
  c : Str
  pkt : ConnID → ConnectPacket
  assigned : ConnID → Str
  named : ∀ κ, (Process.assignClientID (pkt κ) (assigned κ)).clientID = c

/-- The packet the handshake goes on with after the owner check. -/
def Input.connect (inp : Input) (κ : ConnID) : Sweep.Input :=
  ⟨inp.opts, Process.assignClientID (inp.pkt κ) (inp.assigned κ)⟩

def Input.user (inp : Input) (κ : ConnID) : Str := (inp.pkt κ).username

def Input.clean (inp : Input) (κ : ConnID) : Bool := (inp.connect κ).pkt.flags.cleanSession

structure State where
  p : Process
  /-- The `Username` of the session in the manager, and of the record. -/
  sessionUser : Str := []
  recordUser : Str := []
  phase : ConnID → Phase := fun _ => .owner
  /-- The ClientID's entry in `connections`. -/
  connection : Option ConnID := none
  /-- Ghosts: the handshakes between their check and `CreateSession`, and what the
  handshakes have done to sessions of which user. -/
  opened : List ConnID := []
  acts : List (ConnID × Str) := []

/-- The user of the session in the manager, and of the stored one. -/
def State.sessionOwner (inp : Input) (st : State) : Option Str :=
  (st.p.out.sessions inp.c).map fun _ => st.sessionUser

def State.recordOwner (inp : Input) (st : State) : Option Str :=
  (st.p.out.stored inp.c).map fun _ => st.recordUser

/-- The owner check: `none` rejects, else the record read. An empty ClientID is not
checked. -/
def ownerCheck (inp : Input) (st : State) (κ : ConnID) (o : Outcome) :
    Option (Option SessionData) :=
  if (inp.pkt κ).clientID = [] then some none
  else if (st.sessionOwner inp).any (· != inp.user κ) then none
  else
    match o.read (st.p.out.stored inp.c) with
    | none => some none
    | some data => if st.recordUser != inp.user κ then none else some (some data)

def State.goto (st : State) (κ : ConnID) (phase : Phase) : State :=
  { st with phase := update st.phase κ phase }

/-- The handshake acts on a session of this user, if there is one. -/
def State.act (st : State) (κ : ConnID) (owner : Option Str) : State :=
  { st with acts := st.acts ++ owner.toList.map fun u => (κ, u) }

/-- The version of the connection is known. -/
def checked (inp : Sweep.Input) (p : Process) : Process :=
  { p with
    out := { p.out with
      engine := p.out.engine.setClientVersion inp.c inp.pkt.protocolVersion } }

/-- `Restore`, and the filters and deliveries of the restored session. -/
def restored (inp : Input) (p : Process) (data : SessionData) (now : ℕ) : Process :=
  { p with
    topics := p.topics.restoreFilters inp.c (restore data).subscriptions.entries
    out := { p.out.setSession inp.c (restore data) with
      engine := Outbound.restoreSessionInflight p.out.engine inp.c (restore data) now } }

/-- The filters a clean start releases: of the session in the manager, then of the
record. -/
def released (inp : Input) (p : Process) (stored : Option SessionData) : Process :=
  { p with
    topics :=
      (p.topics.unsubscribeTopics inp.c ((p.out.sessions inp.c).elim [] Session.filters))
        |>.unsubscribeTopics inp.c (stored.elim [] SessionData.filters) }

def deleteSession (inp : Input) (p : Process) (o : Outcome) : Process :=
  match o with
  | .ok => { p with out := { p.out with stored := update p.out.stored inp.c none } }
  | .notFound | .failed => p

/-- `ClearMessages`; the count is dropped in any case. -/
def clearMessages (inp : Input) (p : Process) (o : Outcome) : Process :=
  match o with
  | .ok => p.clearMessages inp.c
  | .notFound | .failed => { p with offlineCount := update p.offlineCount inp.c 0 }

/-- The handshake takes its next step; the store call in it comes back with `outcome`. -/
structure Label where
  κ : ConnID
  outcome : Outcome
  now : ℕ

def stepAt (inp : Input) (st : State) (l : Label) : Phase → Option State
  | .owner =>
    match ownerCheck inp st l.κ l.outcome with
    | none => some (st.goto l.κ .rejected)
    | some stored =>
      some { st.goto l.κ (if inp.clean l.κ then .create false stored else .check) with
        p := checked (inp.connect l.κ) st.p
        opened := l.κ :: st.opened }
  | .rejected => none
  | .check =>
    some (st.goto l.κ
      (if (st.p.out.sessions inp.c).isSome then .create true none else .lookup))
  | .lookup =>
    some (st.goto l.κ
      (if (l.outcome.read (st.p.out.stored inp.c)).isSome then .restore else .create false none))
  | .restore =>
    match l.outcome.read (st.p.out.stored inp.c) with
    | none => some (st.goto l.κ (.create false none))
    | some data =>
      -- it replaces what is in the manager by then
      let st := (st.act l.κ (st.sessionOwner inp)).act l.κ (st.recordOwner inp)
      some { st.goto l.κ (.create true none) with
        p := restored inp st.p data l.now
        sessionUser := st.recordUser }
  | .create isResuming stored =>
    -- resumed or kicked, the session found is at an end for its user
    let st := st.act l.κ (st.sessionOwner inp)
    let s := Sweep.createSession (inp.connect l.κ) (st.p.out.sessions inp.c) isResuming
    some { st.goto l.κ (if inp.clean l.κ then .discard stored else .register) with
      p := { st.p with out := st.p.out.setSession inp.c s }
      sessionUser := inp.user l.κ
      opened := st.opened.erase l.κ }
  | .discard stored =>
    let st := st.act l.κ (st.sessionOwner inp)
    let st := if l.outcome = .ok then st.act l.κ (st.recordOwner inp) else st
    some { st.goto l.κ .clear with
      p := deleteSession inp (released inp st.p stored) l.outcome }
  | .clear =>
    -- what is queued for a record that is still there
    let st := if l.outcome = .ok then st.act l.κ (st.recordOwner inp) else st
    some { st.goto l.κ .register with p := clearMessages inp st.p l.outcome }
  | .register =>
    some { (st.act l.κ (st.sessionOwner inp)).goto l.κ .registered with
      connection := some l.κ }
  | .registered => none

def step (inp : Input) (st : State) (l : Label) : Option State := stepAt inp st l (st.phase l.κ)

/-- Whatever session there is belongs to this user. -/
structure Holds (inp : Input) (st : State) (u : Str) : Prop where
  session : ∀ u' ∈ st.sessionOwner inp, u' = u
  record : ∀ u' ∈ st.recordOwner inp, u' = u

variable {inp : Input} {st : State}

/-! ## One handshake alone -/

section Alone

variable {κ : ConnID}

/-- Alone, with every call carried out, the handshake leads to the registration and the
process `q`. -/
def RegistersTo (inp : Input) (st : State) (κ : ConnID) (now : ℕ) (q : Process) : Prop :=
  ∃ st', Repeats (step inp) ⟨κ, .ok, now⟩ st st' ∧ st'.phase κ = .registered ∧ st'.p = q ∧
    st'.sessionUser = inp.user κ ∧ st'.connection = some κ

variable (h : Holds inp st (inp.user κ))

include h

/-- The owner check of a user who owns what there is reads the record. -/
theorem ownerCheck_of_holds :
    ownerCheck inp st κ .ok = some (st.p.storedSession (inp.pkt κ)) := by
  unfold ownerCheck Process.storedSession
  by_cases hid : (inp.pkt κ).clientID = []
  · rw [if_pos hid, if_pos hid]
  have hnamed : (inp.pkt κ).clientID = inp.c := by
    rw [← inp.named κ, Process.assignClientID, if_neg hid]
  have hsession : ¬ (st.sessionOwner inp).any (· != inp.user κ) = true := by
    intro hany
    obtain ⟨u, hu, hne⟩ := (Option.any_eq_true _ _).mp hany
    exact absurd (h.session u hu) (by simpa using hne)
  rw [if_neg hid, if_neg hsession, if_neg hid, hnamed]
  cases hdata : st.p.out.stored inp.c with
  | none => rfl
  | some data =>
    have huser : st.recordUser = inp.user κ := h.record _ (by simp [State.recordOwner, hdata])
    simp [Outcome.read, huser]

variable (now : ℕ) (hphase : st.phase κ = .owner)

include hphase

theorem clean_alone (hclean : (inp.connect κ).pkt.flags.cleanSession = true) :
    RegistersTo inp st κ now (st.p.register inp.opts (inp.pkt κ) (inp.assigned κ) now) := by
  have hc : (inp.connect κ).c = inp.c := inp.named κ
  have hout : (st.p.out.connect inp.opts.toOptions (inp.connect κ).pkt now).1 = _ :=
    Sweep.connect_clean (inp.connect κ) now st.p.out hclean
  rw [Process.register_clean inp.opts st.p now hclean]
  refine ⟨_, ⟨5, by
    simp [List.replicate, exec, step, stepAt, hphase, ownerCheck_of_holds h, Input.clean, hclean,
      State.goto, State.act]
    rfl⟩, by simp, ?_, by simp, by simp⟩
  refine Process.ext ?_ (Eq.trans ?_ hout.symm) ?_ ?_
  all_goals simp [Sweep.createSession_fresh, hc, inp.named κ, checked, released, deleteSession,
    clearMessages, Process.clearMessages, Outbound.setSession, Session.filters,
    Sweep.Input.negotiate, Topics.unsubscribeTopics]

theorem resume_alone (hclean : (inp.connect κ).pkt.flags.cleanSession = false) :
    RegistersTo inp st κ now (st.p.register inp.opts (inp.pkt κ) (inp.assigned κ) now) := by
  have hc : (inp.connect κ).c = inp.c := inp.named κ
  have hpkt : Process.assignClientID (inp.pkt κ) (inp.assigned κ) = (inp.connect κ).pkt := rfl
  have hid : (inp.connect κ).pkt.clientID = inp.c := hc
  have hout : (st.p.out.connect inp.opts.toOptions (inp.connect κ).pkt now).1 = _ :=
    Sweep.connect_resume (inp.connect κ) now st.p.out hclean
  have hcheck := ownerCheck_of_holds h
  rw [Process.register_resume inp.opts st.p now hclean, hpkt, hout]
  unfold Process.resumeTopics Process.restoredRecord Outbound.resumedEngine resumed
  rw [hclean, hid]
  cases hs : st.p.out.sessions inp.c with
  | some s =>
    refine ⟨_, ⟨4, by
      simp [List.replicate, exec, step, stepAt, hphase, hcheck, Input.clean, hclean, State.goto,
        State.act, checked, hs]
      rfl⟩, by simp, ?_, by simp, by simp⟩
    simp [hs, hc, Outbound.client, Sweep.createSession, hclean]
  | none =>
    cases hdata : st.p.out.stored inp.c with
    | none =>
      refine ⟨_, ⟨5, by
        simp [List.replicate, exec, step, stepAt, hphase, hcheck, Input.clean, hclean, State.goto,
          State.act, checked, hs, hdata, Outcome.read]
        rfl⟩, by simp, ?_, by simp, by simp⟩
      simp [hs, hdata, hc, Outbound.client, Sweep.createSession]
    | some data =>
      refine ⟨_, ⟨6, by
        simp [List.replicate, exec, step, stepAt, hphase, hcheck, Input.clean, hclean, State.goto,
          State.act, checked, hs, hdata, Outcome.read]
        rfl⟩, by simp, ?_, by simp, by simp⟩
      simp [hs, hdata, hc, Outbound.client, Sweep.createSession, hclean, restored,
        Outbound.setSession]

/-- **Alone, the steps make up `Process.register`.** -/
theorem register_alone :
    RegistersTo inp st κ now (st.p.register inp.opts (inp.pkt κ) (inp.assigned κ) now) := by
  cases hclean : (inp.connect κ).pkt.flags.cleanSession with
  | true => exact clean_alone h now hphase hclean
  | false => exact resume_alone h now hphase hclean

end Alone

/-! ## The condition -/

/-- The read of the owner check is carried out, or would not have told another user;
an assigned ClientID is not in use. -/
def AnsweredAt (inp : Input) (st : State) (l : Label) : Phase → Prop
  | .owner =>
    if (inp.pkt l.κ).clientID = [] then
      (st.sessionOwner inp).isNone = true ∧ (st.recordOwner inp).isNone = true
    else l.outcome = .ok ∨ ∀ u ∈ st.recordOwner inp, u = inp.user l.κ
  | _ => True

def Answered (inp : Input) (st : State) (l : Label) : Prop := AnsweredAt inp st l (st.phase l.κ)

/-- No handshake of another user is between its check and `CreateSession` when the
owner check is made. -/
def AloneAt (inp : Input) (st : State) (l : Label) : Phase → Prop
  | .owner => ∀ κ ∈ st.opened, inp.user κ = inp.user l.κ
  | _ => True

def Alone (inp : Input) (st : State) (l : Label) : Prop := AloneAt inp st l (st.phase l.κ)

instance (inp : Input) (st : State) (l : Label) (φ : Phase) :
    Decidable (AnsweredAt inp st l φ) := by
  cases φ <;> dsimp only [AnsweredAt] <;> infer_instance

instance (inp : Input) (st : State) (l : Label) (φ : Phase) : Decidable (AloneAt inp st l φ) := by
  cases φ <;> dsimp only [AloneAt] <;> infer_instance

instance (inp : Input) (st : State) (l : Label) : Decidable (Answered inp st l) :=
  inferInstanceAs (Decidable (AnsweredAt inp st l (st.phase l.κ)))

instance (inp : Input) (st : State) (l : Label) : Decidable (Alone inp st l) :=
  inferInstanceAs (Decidable (AloneAt inp st l (st.phase l.κ)))

/-! ## What holds along such runs -/

def Phase.active : Phase → Bool
  | .owner | .rejected => false
  | _ => true

def Phase.created : Phase → Bool
  | .discard _ | .clear | .register | .registered => true
  | _ => false

theorem active_of_created {φ : Phase} (h : φ.created = true) : φ.active = true := by
  cases φ with
  | owner | rejected => cases h
  | _ => rfl

structure Inv (inp : Input) (st : State) : Prop where
  same : ∀ κ κ', (st.phase κ).active = true → (st.phase κ').active = true →
    inp.user κ = inp.user κ'
  holds : ∀ κ, (st.phase κ).active = true → Holds inp st (inp.user κ)
  present : ∀ κ, (st.phase κ).created = true → (st.sessionOwner inp).isSome = true
  opened : ∀ κ, (st.phase κ).active = true → (st.phase κ).created = true ∨ κ ∈ st.opened
  acts : ∀ a ∈ st.acts, a.2 = inp.user a.1

section Steps

variable {inp : Input} {st st' : State} {κ : ConnID} {l : Label} {φ : Phase}
  {stored : Option SessionData}

/-- A handshake has acted on the session or the record as they were. -/
def Acted (inp : Input) (st : State) (κ : ConnID) (acts : List (ConnID × Str)) : Prop :=
  ∀ a ∈ acts, a ∈ st.acts ∨
    ∃ u, (u ∈ st.sessionOwner inp ∨ u ∈ st.recordOwner inp) ∧ a = (κ, u)

theorem Acted.act {acts : List (ConnID × Str)} {owner : Option Str} (h : Acted inp st κ acts)
    (howner : ∀ u ∈ owner, u ∈ st.sessionOwner inp ∨ u ∈ st.recordOwner inp) :
    Acted inp st κ (acts ++ owner.toList.map fun u => (κ, u)) := by
  intro a ha
  rcases List.mem_append.mp ha with hold | hnew
  · exact h a hold
  · obtain ⟨u, hu, rfl⟩ := List.mem_map.mp hnew
    exact Or.inr ⟨u, howner u (Option.mem_toList.mp hu), rfl⟩

theorem acted_session : Acted inp st κ (st.act κ (st.sessionOwner inp)).acts :=
  Acted.act (fun _ => Or.inl) fun _ => Or.inl

theorem Inv.advance (h : Inv inp st) (hκ : (st.phase κ).active = true)
    (hphase : st'.phase = update st.phase κ φ) (hholds : Holds inp st' (inp.user κ))
    (hpresent : φ.created = true ∨ (st.sessionOwner inp).isSome = true → (st'.sessionOwner inp).isSome = true)
    (hopened : ∀ κ' ∈ st.opened, κ' ∈ st'.opened ∨ κ' = κ)
    (hself : φ.created = true ∨ κ ∈ st'.opened)
    (hacts : Acted inp st κ st'.acts) : Inv inp st' := by
  -- whoever is active now was active before
  have hactive : ∀ κ', (st'.phase κ').active = true → (st.phase κ').active = true := by
    intro κ' hκ'
    rcases eq_or_ne κ' κ with rfl | hne
    · exact hκ
    · rwa [hphase, update_of_ne hne] at hκ'
  refine ⟨fun κ₁ κ₂ h₁ h₂ => ?_, fun κ' hκ' => ?_, fun κ' hκ' => ?_, fun κ' hκ' => ?_,
    fun a ha => ?_⟩
  · exact h.same κ₁ κ₂ (hactive κ₁ h₁) (hactive κ₂ h₂)
  · rw [h.same κ' κ (hactive κ' hκ') hκ]
    exact hholds
  · apply hpresent
    rcases eq_or_ne κ' κ with rfl | hne
    · rw [hphase, update_self] at hκ'
      exact Or.inl hκ'
    · rw [hphase, update_of_ne hne] at hκ'
      exact Or.inr (h.present κ' hκ')
  · rcases eq_or_ne κ' κ with rfl | hne
    · rw [hphase, update_self]
      exact hself
    · rw [hphase, update_of_ne hne] at hκ' ⊢
      rcases h.opened κ' hκ' with hcreated | hmem
      · exact Or.inl hcreated
      · exact Or.inr ((hopened κ' hmem).resolve_right hne)
  · rcases hacts a ha with hold | ⟨u, hu | hu, rfl⟩
    · exact h.acts a hold
    · exact (h.holds κ hκ).session u hu
    · exact (h.holds κ hκ).record u hu

/-- A step that only moves the handshake on, short of `CreateSession`. -/
theorem Inv.goto (h : Inv inp st) (hκ : (st.phase κ).active = true)
    (hnot : (st.phase κ).created = false) (hφ : φ.created = false) : Inv inp (st.goto κ φ) := by
  apply h.advance hκ rfl
  · exact ⟨(h.holds κ hκ).session, (h.holds κ hκ).record⟩
  · intro hor
    rw [hφ] at hor
    exact hor.resolve_left (by decide)
  · exact fun κ' hκ' => Or.inl hκ'
  · rcases h.opened κ hκ with hcreated | hmem
    · rw [hnot] at hcreated
      cases hcreated
    · exact Or.inr hmem
  · exact fun a ha => Or.inl ha

theorem holds_of_ownerCheck (hphase : st.phase l.κ = .owner) (hok : Answered inp st l)
    (hpass : ownerCheck inp st l.κ l.outcome = some stored) : Holds inp st (inp.user l.κ) := by
  rw [Answered, hphase, AnsweredAt] at hok
  unfold ownerCheck at hpass
  by_cases hid : (inp.pkt l.κ).clientID = []
  · simp only [if_pos hid] at hok
    constructor
    · rw [Option.isNone_iff_eq_none.mp hok.1]
      rintro u ⟨⟩
    · rw [Option.isNone_iff_eq_none.mp hok.2]
      rintro u ⟨⟩
  · simp only [if_neg hid] at hok hpass
    have hsession : ¬ (st.sessionOwner inp).any (· != inp.user l.κ) = true := by
      intro hother
      rw [if_pos hother] at hpass
      cases hpass
    refine ⟨fun u hu => ?_, fun u hu => ?_⟩
    · by_contra hne
      apply hsession
      rw [Option.mem_def.mp hu]
      simpa using hne
    · rcases hok with hanswered | hsame
      · -- the record was read, and passed
        obtain ⟨data, hdata, rfl⟩ := Option.map_eq_some_iff.mp hu
        rw [hanswered, Outcome.read, hdata] at hpass
        split_ifs at hpass with huser
        simpa using huser
      · exact hsame u hu

section

variable (h : Inv inp st)

include h

theorem Inv.owner (hphase : st.phase l.κ = .owner) (hok : Answered inp st l)
    (halone : Alone inp st l) (hstep : stepAt inp st l .owner = some st') : Inv inp st' := by
  simp only [stepAt] at hstep
  split at hstep
  · -- rejected: nobody else is concerned
    cases hstep
    have hkept : ∀ κ, ((st.goto l.κ .rejected).phase κ).active = (st.phase κ).active ∧
        ((st.goto l.κ .rejected).phase κ).created = (st.phase κ).created := by
      intro κ
      rcases eq_or_ne κ l.κ with rfl | hne
      · rw [hphase]
        simp [State.goto, Phase.active, Phase.created]
      · simp only [State.goto, update_of_ne hne, and_self]
    refine ⟨?_, fun κ hκ => ?_, fun κ hκ => ?_, ?_, h.acts⟩
    · simp only [hkept]
      exact h.same
    · rw [(hkept κ).1] at hκ
      exact ⟨(h.holds κ hκ).session, (h.holds κ hκ).record⟩
    · rw [(hkept κ).2] at hκ
      exact h.present κ hκ
    · simp only [hkept]
      exact h.opened
  next stored hpass =>
    cases hstep
    have hholds := holds_of_ownerCheck hphase hok hpass
    have hothers : ∀ κ, (st.phase κ).active = true → inp.user κ = inp.user l.κ := by
      intro κ hκ
      rcases h.opened κ hκ with hcreated | hmem
      · obtain ⟨u, hu⟩ := Option.isSome_iff_exists.mp (h.present κ hcreated)
        rw [← (h.holds κ hκ).session u hu, hholds.session u hu]
      · rw [Alone, hphase] at halone
        exact halone κ hmem
    have huser : ∀ {κ φ}, ((st.goto l.κ φ).phase κ).active = true →
        inp.user κ = inp.user l.κ := by
      intro κ φ hκ
      rcases eq_or_ne κ l.κ with rfl | hne
      · rfl
      · simp only [State.goto, update_of_ne hne] at hκ
        exact hothers κ hκ
    refine ⟨fun κ₁ κ₂ h₁ h₂ => ?_, fun κ hκ => ?_, fun κ hκ => ?_, fun κ hκ => ?_, h.acts⟩
    · rw [huser h₁, huser h₂]
    · rw [huser hκ]
      exact ⟨hholds.session, hholds.record⟩
    · rcases eq_or_ne κ l.κ with rfl | hne
      · simp only [State.goto, update_self] at hκ
        split_ifs at hκ <;> cases hκ
      · simp only [State.goto, update_of_ne hne] at hκ
        exact h.present κ hκ
    · rcases eq_or_ne κ l.κ with rfl | hne
      · exact Or.inr List.mem_cons_self
      · simp only [State.goto, update_of_ne hne] at hκ ⊢
        exact (h.opened κ hκ).imp_right (List.mem_cons_of_mem _)

theorem Inv.restore (hphase : st.phase l.κ = .restore)
    (hstep : stepAt inp st l .restore = some st') : Inv inp st' := by
  have hκ : (st.phase l.κ).active = true := by rw [hphase]; rfl
  have hnot : (st.phase l.κ).created = false := by rw [hphase]; rfl
  have hholds := h.holds l.κ hκ
  simp only [stepAt] at hstep
  split at hstep
  · cases hstep
    exact h.goto hκ hnot rfl
  next data hread =>
    cases hstep
    have hdata : st.p.out.stored inp.c = some data := by
      cases houtcome : l.outcome with
      | ok => rwa [houtcome] at hread
      | notFound | failed =>
        rw [houtcome] at hread
        cases hread
    have hrecord : st.recordUser = inp.user l.κ := by
      apply hholds.record
      simp [State.recordOwner, hdata]
    apply h.advance hκ (φ := .create true none) rfl
    · refine ⟨fun u hu => ?_, hholds.record⟩
      obtain ⟨-, -, rfl⟩ := Option.map_eq_some_iff.mp hu
      exact hrecord
    · simp [State.sessionOwner, restored, Outbound.setSession]
    · exact fun κ' hκ' => Or.inl hκ'
    · exact (h.opened l.κ hκ).imp_left fun hcreated => by rw [hnot] at hcreated; cases hcreated
    · exact acted_session.act fun _ => Or.inr

theorem Inv.create {isResuming : Bool} (hphase : st.phase l.κ = .create isResuming stored)
    (hstep : stepAt inp st l (.create isResuming stored) = some st') : Inv inp st' := by
  have hκ : (st.phase l.κ).active = true := by rw [hphase]; rfl
  have hholds := h.holds l.κ hκ
  cases hstep
  have hcreated : (if inp.clean l.κ then Phase.discard stored else .register).created = true := by
    split_ifs <;> rfl
  apply h.advance hκ rfl
  · refine ⟨fun u hu => ?_, hholds.record⟩
    obtain ⟨-, -, rfl⟩ := Option.map_eq_some_iff.mp hu
    rfl
  · simp [State.sessionOwner, Outbound.setSession]
  · intro κ' hκ'
    by_cases heq : κ' = l.κ
    · exact Or.inr heq
    · exact Or.inl ((List.mem_erase_of_ne heq).mpr hκ')
  · exact Or.inl hcreated
  · exact acted_session

/-- A step after `CreateSession`, which leaves the session in the manager. -/
theorem Inv.after (hcreated : (st.phase κ).created = true) (hφ : φ.created = true)
    (hphase : st'.phase = update st.phase κ φ)
    (hsession : st'.sessionOwner inp = st.sessionOwner inp)
    (hrecord : ∀ u ∈ st'.recordOwner inp, u ∈ st.recordOwner inp) (hopened : st'.opened = st.opened)
    (hacts : Acted inp st κ st'.acts) : Inv inp st' := by
  have hκ := active_of_created hcreated
  have hholds := h.holds κ hκ
  apply h.advance hκ hphase
  · exact ⟨by rw [hsession]; exact hholds.session, fun u hu => hholds.record u (hrecord u hu)⟩
  · intro _
    rw [hsession]
    exact h.present κ hcreated
  · exact fun κ' hκ' => Or.inl (by rw [hopened]; exact hκ')
  · exact Or.inl hφ
  · exact hacts

theorem Inv.discard (hphase : st.phase l.κ = .discard stored)
    (hstep : stepAt inp st l (.discard stored) = some st') : Inv inp st' := by
  have hcreated : (st.phase l.κ).created = true := by rw [hphase]; rfl
  cases houtcome : l.outcome with
  | ok =>
    simp only [stepAt, houtcome, if_true] at hstep
    cases hstep
    refine h.after hcreated (φ := .clear) rfl rfl rfl (fun u hu => ?_) rfl
      (acted_session.act fun _ => Or.inr)
    obtain ⟨data, hdata, -⟩ := Option.map_eq_some_iff.mp hu
    simp [deleteSession, released] at hdata
  | notFound | failed =>
    simp only [stepAt, houtcome, reduceCtorEq, if_false] at hstep
    cases hstep
    exact h.after hcreated (φ := .clear) rfl rfl rfl (fun _ hu => hu) rfl acted_session

theorem Inv.clear (hphase : st.phase l.κ = .clear)
    (hstep : stepAt inp st l .clear = some st') : Inv inp st' := by
  have hcreated : (st.phase l.κ).created = true := by rw [hphase]; rfl
  cases houtcome : l.outcome with
  | ok =>
    simp only [stepAt, houtcome, if_true] at hstep
    cases hstep
    exact h.after hcreated (φ := .register) rfl rfl rfl (fun _ hu => hu) rfl
      (Acted.act (fun _ => Or.inl) fun _ => Or.inr)
  | notFound | failed =>
    simp only [stepAt, houtcome, reduceCtorEq, if_false] at hstep
    cases hstep
    exact h.after hcreated (φ := .register) rfl rfl rfl (fun _ hu => hu) rfl
      fun a ha => Or.inl ha

theorem Inv.step (hok : Answered inp st l) (halone : Alone inp st l)
    (hstep : step inp st l = some st') : Inv inp st' := by
  unfold Owners.step at hstep
  generalize hphase : st.phase l.κ = φ at hstep
  cases φ with
  | owner => exact h.owner hphase hok halone hstep
  | rejected | registered => cases hstep
  | check | lookup =>
    cases hstep
    apply h.goto (by rw [hphase]; rfl) (by rw [hphase]; rfl)
    split_ifs <;> rfl
  | restore => exact h.restore hphase hstep
  | create isResuming stored => exact h.create hphase hstep
  | discard stored => exact h.discard hphase hstep
  | clear => exact h.clear hphase hstep
  | register =>
    cases hstep
    exact h.after (by rw [hphase]; rfl) (φ := .registered) rfl rfl rfl (fun _ hu => hu) rfl
      acted_session

end

end Steps

/-! ## The two results -/

structure Initial (st : State) : Prop where
  phases : ∀ κ, st.phase κ = .owner
  opened : st.opened = []
  acts : st.acts = []

theorem Initial.inv (h : Initial st) (inp : Input) : Inv inp st := by
  have hidle : ∀ κ, (st.phase κ).active ≠ true := fun κ => by rw [h.phases κ]; exact nofun
  refine ⟨fun κ _ hκ => absurd hκ (hidle κ), fun κ hκ => absurd hκ (hidle κ), fun κ hκ => ?_,
    fun κ hκ => absurd hκ (hidle κ), by simp [h.acts]⟩
  exact absurd (active_of_created hκ) (hidle κ)

theorem inv_of_run {st₀ : State} {ls : List Label} (hinit : Initial st₀)
    (hok : Along (step inp) (Answered inp) st₀ ls) (halone : Along (step inp) (Alone inp) st₀ ls)
    (hrun : exec (step inp) st₀ ls = some st) : Inv inp st :=
  exec_invariant (Inv inp) (fun _ _ _ h hl => h.step hl.1 hl.2) (hinit.inv inp) (hok.and halone)
    hrun

theorem mem_opened_step {st' : State} {l : Label} (hstep : step inp st l = some st') {κ : ConnID}
    (hκ : κ ∈ st'.opened) : κ ∈ st.opened ∨ κ = l.κ := by
  revert hstep
  unfold step
  fun_cases stepAt inp st l (st.phase l.κ) <;> rintro ⟨⟩
  case case2 => exact (List.mem_cons.mp hκ).symm
  case case8 => exact Or.inl (List.mem_of_mem_erase hκ)
  all_goals try exact Or.inl hκ
  all_goals next st₁ =>
    simp only [st₁] at hκ
    split_ifs at hκ <;> exact Or.inl hκ

/-- **A handshake whose owner check is answered resumes, replaces, deletes and attaches to
sessions of its own user only**, whatever the other calls on the stores come back with. -/
theorem acts_on_own_of_answered (inp : Input) (κ : ConnID) (st₀ st : State) (ls : List Label)
    (hinit : Initial st₀) (hone : ∀ l ∈ ls, l.κ = κ)
    (hok : Along (step inp) (Answered inp) st₀ ls) (hrun : exec (step inp) st₀ ls = some st) :
    ∀ a ∈ st.acts, a.2 = inp.user a.1 := by
  -- the only handshake that is ever opened is this one
  have hstep : ∀ (s : State) (l : Label) (s' : State), (∀ κ' ∈ s.opened, κ' = κ) →
      Answered inp s l ∧ l.κ = κ → step inp s l = some s' → ∀ κ' ∈ s'.opened, κ' = κ := by
    intro s l s' hs hl hstep κ' hκ'
    rcases mem_opened_step hstep hκ' with hold | rfl
    · exact hs κ' hold
    · exact hl.2
  have halone : Along (step inp) (Alone inp) st₀ ls := by
    refine Along.of_invariant _ hstep (fun s l hs hl => ?_) (by simp [hinit.opened])
      (hok.and (Along.of_forall hone st₀))
    unfold Alone
    cases s.phase l.κ with
    | owner =>
      intro κ' hκ'
      rw [hs κ' hκ', hl.2]
    | _ => trivial
  exact (inv_of_run hinit hok halone hrun).acts

/-- **Where every owner check is made while no other user's handshake is between its own
and `CreateSession`, a user that has created a session keeps it: every handshake of
another user stays before its check, which rejects it, or has been rejected, and all
handshakes act on sessions of their own user only.** -/
theorem rejected_of_alone (inp : Input) (hid : ∀ κ, (inp.pkt κ).clientID ≠ []) (st₀ st : State)
    (ls : List Label) (hinit : Initial st₀) (hok : ∀ l ∈ ls, l.outcome = .ok)
    (halone : Along (step inp) (Alone inp) st₀ ls) (hrun : exec (step inp) st₀ ls = some st) :
    (∀ κ, (st.phase κ).created = true → st.sessionOwner inp = some (inp.user κ) ∧
      ∀ κ', inp.user κ' ≠ inp.user κ →
        (st.phase κ' = .owner ∨ st.phase κ' = .rejected) ∧
          ∀ outcome, ownerCheck inp st κ' outcome = none) ∧
    ∀ a ∈ st.acts, a.2 = inp.user a.1 := by
  have hanswered : Along (step inp) (Answered inp) st₀ ls := by
    refine Along.of_invariant (fun _ => True) (fun _ _ _ _ _ _ => trivial) (fun s l _ hl => ?_)
      trivial (Along.of_forall hok st₀)
    unfold Answered
    cases s.phase l.κ with
    | owner =>
      rw [AnsweredAt, if_neg (hid l.κ)]
      exact Or.inl hl
    | _ => trivial
  have h := inv_of_run hinit hanswered halone hrun
  refine ⟨fun κ hcreated => ?_, h.acts⟩
  have hactive := active_of_created hcreated
  obtain ⟨u, hu⟩ := Option.isSome_iff_exists.mp (h.present κ hcreated)
  have howner : st.sessionOwner inp = some (inp.user κ) := by
    rw [hu, (h.holds κ hactive).session u hu]
  refine ⟨howner, fun κ' hne => ⟨?_, fun outcome => ?_⟩⟩
  · cases hp : st.phase κ' with
    | owner => exact Or.inl rfl
    | rejected => exact Or.inr rfl
    | _ => exact absurd (h.same κ' κ (by rw [hp]; rfl) hactive) hne
  · unfold ownerCheck
    rw [if_neg (hid κ'), howner]
    exact if_pos (by simpa using hne.symm)

/-! ## Two users and one ClientID -/

/-- Connection 0 is alice's, the others are bob's; none starts clean. -/
def twoUsers : Input where
  opts := Restart.options
  c := ascii "c"
  pkt := fun κ =>
    { Restart.connectPersistent with username := if κ = 0 then ascii "alice" else ascii "bob" }
  assigned := fun _ => []
  named := fun _ => rfl

def aliceAway : State where
  p := CleanStart.offline
  recordUser := ascii "alice"

/-- A handshake that resumes; what the read of its owner check comes back with is
given. -/
def resumes (κ : ConnID) (owner : Outcome) : List Label :=
  ⟨κ, owner, 1⟩ :: List.replicate 5 ⟨κ, .ok, 1⟩

/-- Alice comes back. -/
theorem alice_resumes_own :
    ∃ st, exec (step twoUsers) aliceAway (resumes 0 .ok) = some st ∧ st.connection = some 0 ∧
      (0, ascii "alice") ∈ st.acts ∧ ∀ a ∈ st.acts, a.2 = twoUsers.user a.1 := by
  have hok : Along (step twoUsers) (Answered twoUsers) aliceAway (resumes 0 .ok) := by
    decide +kernel
  refine exec_reaches (by decide +kernel) fun st hst _ => ⟨of_exec hst (by decide +kernel), ?_⟩
  exact acts_on_own_of_answered twoUsers 0 aliceAway st (resumes 0 .ok) ⟨fun _ => rfl, rfl, rfl⟩ (by decide)
    hok hst

/-- The read fails, the next ones do not: bob has alice's session. -/
theorem failed_check_hands_over_session :
    ∃ st, exec (step twoUsers) aliceAway (resumes 1 .failed) = some st ∧
      st.connection = some 1 ∧ (1, ascii "alice") ∈ st.acts ∧
      (st.p.out.sessions (ascii "c")).map Session.filters = some [ascii "a"] ∧
      twoUsers.user 1 = ascii "bob" :=
  exec_reaches (by decide +kernel) fun _ hst _ => of_exec hst (by decide +kernel)

def unused : State where
  p := Restart.fresh.process

def oneAfterTheOther : List Label := List.replicate 5 ⟨0, .ok, 1⟩ ++ [⟨1, .ok, 1⟩]

def Phase.isRejected : Phase → Bool
  | .rejected => true
  | _ => false

theorem oneAfterTheOther_rejected :
    ∃ st, exec (step twoUsers) unused oneAfterTheOther = some st ∧
      (st.phase 0).created = true ∧ (st.phase 1).isRejected = true ∧
      st.sessionOwner twoUsers = some (ascii "alice") ∧
      ∀ a ∈ st.acts, a.2 = twoUsers.user a.1 := by
  have halone : Along (step twoUsers) (Alone twoUsers) unused oneAfterTheOther := by decide +kernel
  refine exec_reaches (by decide +kernel) fun st hst hcreated => ?_
  obtain ⟨howner, hacts⟩ := rejected_of_alone twoUsers (fun _ => (by decide : ascii "c" ≠ [])) unused st
    oneAfterTheOther ⟨fun _ => rfl, rfl, rfl⟩ (by decide) halone hst
  exact ⟨of_exec hst (by decide +kernel), (howner 0 hcreated).1, hacts⟩

/-- Both owner checks, then alice's session, then bob's handshake goes on. -/
def bothChecks : List Label :=
  [⟨0, .ok, 1⟩, ⟨1, .ok, 1⟩] ++ List.replicate 4 ⟨0, .ok, 1⟩ ++ List.replicate 3 ⟨1, .ok, 1⟩

theorem bothChecks_hands_over_session :
    (∀ l ∈ bothChecks, l.outcome = .ok) ∧ twoUsers.user 1 ≠ twoUsers.user 0 ∧
      ∃ st, exec (step twoUsers) unused bothChecks = some st ∧ (st.phase 0).created = true ∧
        st.connection = some 1 ∧ (1, twoUsers.user 0) ∈ st.acts :=
  ⟨by decide, by decide,
    exec_reaches (by decide +kernel) fun _ hst _ => of_exec hst (by decide +kernel)⟩

end SharkMqtt.Broker.Owners
