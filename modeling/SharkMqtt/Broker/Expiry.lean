import SharkMqtt.Broker.CleanStart

/-!
# Sessions past their expiry time

A session that its client has left expires at `ExpiryTime`. The offline queue heeds
that time, and `cleanupExpiredSessions` deletes what has expired; the handshake does
not look at it. `IsSessionExists` and `Restore` find any record that is still there.

So what a CONNECT without Clean Start gets does not depend on when it arrives but on
whether a sweep has found the session expired before (`fresh_iff_swept`), in any run of
processes on the two stores in which the client stays away.
-/

namespace SharkMqtt.Broker.Expiry

open Protocol Lib Restart Function
open Teardown (StoredMessage messageExpiresAt sessionExpired)

/-! ## Starting afresh -/

/-- The Session Present flag of the CONNACK; MQTT 3.1 has none. -/
def sessionPresent (p : Process) (pkt : ConnectPacket) : Bool :=
  (resumed (p.out.client pkt.clientID) pkt).isSome &&
    (specFor pkt.protocolVersion).connAckSessionPresent

/-- The CONNECT gets nothing of the session that left the record. -/
structure Fresh (opts : BrokerOptions) (p : Process) (pkt : ConnectPacket) (assigned : Str)
    (now : ℕ) (data : SessionData) : Prop where
  notResumed : resumed (p.out.client data.clientID) (Process.assignClientID pkt assigned) = none
  sessionPresent : sessionPresent p (Process.assignClientID pkt assigned) = false
  /-- No filter in the session, and none of the record's in the tree. -/
  filters : ∀ s ∈ (p.connect opts pkt assigned now).out.sessions data.clientID, s.filters = []
  entries : ∀ a ∈ addresses data.filters,
    (p.connect opts pkt assigned now).topics.entry data.clientID a = none
  /-- No delivery in flight, and none sent again. -/
  inflight : ∀ s ∈ (p.connect opts pkt assigned now).out.sessions data.clientID, s.inflight = ∅
  resent : (p.out.connect opts.toOptions (Process.assignClientID pkt assigned) now).2 = []
  queued : p.queued data.clientID = []

structure Discarded (c : Str) (data : SessionData) (p : Process) : Prop where
  offline : p.out.sessions c = none
  deleted : p.out.stored c = none
  queued : p.queued c = []
  entries : ∀ a ∈ addresses data.filters, p.topics.entry c a = none

variable {data : SessionData}

theorem Discarded.fresh {p : Process} (h : Discarded data.clientID data p) (opts : BrokerOptions)
    {pkt : ConnectPacket} {assigned : Str} (now : ℕ)
    (hc : (Process.assignClientID pkt assigned).clientID = data.clientID)
    (hclean : (Process.assignClientID pkt assigned).flags.cleanSession = false) :
    Fresh opts p pkt assigned now data := by
  have hnone : resumed (p.out.client data.clientID) (Process.assignClientID pkt assigned) = none := by
    simp only [resumed, hclean, Outbound.client, h.offline, h.deleted, Bool.false_eq_true, if_false,
      Option.map_none]
  have hregister : p.connect opts pkt assigned now = p.register opts pkt assigned now := by
    unfold Process.connect
    rw [hc]
    apply CleanStart.deliverQueuedMessages_of_nil
    unfold Process.register
    simp only [hclean, Bool.false_eq_true, if_false]
    exact h.queued
  have hsession : (p.connect opts pkt assigned now).out.sessions data.clientID =
      (connect opts.toOptions (p.out.client data.clientID)
        (Process.assignClientID pkt assigned)).session := by
    rw [hregister]
    unfold Process.register
    simp only [hclean, Bool.false_eq_true, if_false, Outbound.connect, hc, update_self]
  have hview := Process.view_connect_of_none opts p now hc hclean h.offline h.deleted
  refine ⟨hnone, ?_, fun s hs => ?_, fun a ha => ?_, fun s hs => ?_, ?_, h.queued⟩
  · rw [Expiry.sessionPresent, hc, hnone]
    rfl
  · have hsub := congrArg ClientView.session hview
    simp only [Process.view, Option.mem_def.mp hs, Option.map_some, Option.some.injEq] at hsub
    exact congrArg Prod.snd hsub
  · exact (congrFun (congrArg ClientView.entry hview) a).trans (h.entries a ha)
  · rw [hsession, connect, hnone] at hs
    cases hs
    rfl
  · unfold Outbound.connect
    simp only [hc, hnone]

/-! ## What happens to a client that stays away -/

def Connects (c : Str) : Label → Prop
  | .connect pkt assigned _ => (Process.assignClientID pkt assigned).clientID = c
  | _ => False

def Expires (c : Str) (data : SessionData) : Label → Prop
  | .sweep c' now => c' = c ∧ sessionExpired data now = true
  | _ => False

variable {c : Str}

theorem sessions_of_view {p p' : Process} (hview : p'.view c = p.view c)
    (hoff : p.out.sessions c = none) : p'.out.sessions c = none := by
  have hsession := congrArg ClientView.session hview
  simp only [Process.view, hoff, Option.map_none] at hsession
  exact Option.map_eq_none_iff.mp hsession

section Steps

variable {opts : BrokerOptions} {st st' : State} {c : Str} {l : Label} {data : SessionData}
  {p : Process}

variable {c' : Str}

theorem ne_of_online (hoff : st.process.out.sessions c = none) (hon : st.online c' = true) :
    c ≠ c' := by
  rintro rfl
  rw [State.online, hoff] at hon
  cases hon

theorem view_handleSubscribe_of_ne (hne : c ≠ c') (allowed : Str → Bool)
    (topics : List TopicFilter) : (p.handleSubscribe opts allowed c' topics).view c = p.view c := by
  unfold Process.handleSubscribe
  split_ifs
  · rfl
  · refine Process.forFilters_induction (P := fun q => q.view c = p.view c)
      (fun q f q' hq hsub => ?_) topics p rfl
    rcases Process.subscribeFilter_eq_some hsub with rfl | ⟨a, -, -, hout, hentry⟩
    · exact hq
    · refine (Process.view_onSession_of_ne hout (fun a' => ?_) hne).trans hq
      exact (hentry c a').trans (if_neg fun hh => hne hh.1)

theorem view_handleUnsubscribe_of_ne (hne : c ≠ c') (topics : List Str) :
    (p.handleUnsubscribe c' topics).view c = p.view c := by
  refine Process.forFilters_induction (P := fun q => q.view c = p.view c)
    (fun q f q' hq hunsub => ?_) topics p rfl
  obtain ⟨a, -, hout, hentry⟩ := Process.unsubscribeFilter_eq_some hunsub
  refine (Process.view_onSession_of_ne hout (fun a' => ?_) hne).trans hq
  exact (hentry c a').trans (if_neg fun hh => hne hh.1)

/-- Only a sweep of its own and a restart touch what is kept of it. -/
theorem view_step (h : Inv (fun _ => True) st) (hoff : st.process.out.sessions c = none)
    (hquiet : ¬ Connects c l) (hstep : step opts st l = some st') :
    st'.process.view c = st.process.view c ∨ (∃ now, l = .sweep c now) ∨ l = .restart := by
  revert hstep hquiet
  fun_cases step opts st l <;> rintro hquiet ⟨⟩
  · exact Or.inl (Process.view_connect_of_ne opts st.process _ (Ne.symm hquiet))
  next hon =>
    exact Or.inl (Process.view_disconnect_of_ne _ (ne_of_online hoff hon)
      fun s hs => h.clientID_of_session hs)
  next hon => exact Or.inl (view_handleSubscribe_of_ne (ne_of_online hoff hon) _ _)
  next hon => exact Or.inl (view_handleUnsubscribe_of_ne (ne_of_online hoff hon) _)
  · exact Or.inl (st.process.view_routePublish opts _ _ _ c)
  next op hop =>
    left
    refine Process.view_of_sameSubscribers (p := st.process) ?_ ?_ c
    · exact st.process.out.sameSubscribers_run opts.toOptions hop
    · rfl
  next c' now =>
    rcases eq_or_ne c c' with rfl | hne
    · exact Or.inr (Or.inl ⟨now, rfl⟩)
    · exact Or.inl (Process.view_cleanupExpiredSession_of_ne now hne)
  · exact Or.inr (Or.inr rfl)

theorem recorded_step (h : Inv (fun _ => True) st) (hoff : st.process.out.sessions c = none)
    (hdata : st.process.out.stored c = some data) (hquiet : ¬ Connects c l)
    (hstep : step opts st l = some st') :
    Expires c data l ∧ Discarded c data st'.process ∨
      ¬ Expires c data l ∧ st'.process.out.sessions c = none ∧
        st'.process.out.stored c = some data := by
  rcases view_step h hoff hquiet hstep with hview | ⟨now, rfl⟩ | rfl
  · have hoff' := sessions_of_view hview hoff
    have hdata' : st'.process.out.stored c = some data :=
      (congrArg ClientView.stored hview).trans hdata
    refine Or.inr ⟨?_, hoff', hdata'⟩
    -- such a sweep would have deleted the record
    intro hexp
    cases l with
    | sweep c' now =>
      obtain ⟨rfl, hexpired⟩ := hexp
      cases hstep
      simp [Process.cleanupExpiredSession, hoff, hdata, hexpired] at hdata'
    | _ => exact hexp
  · cases hstep
    simp only [Process.cleanupExpiredSession, hoff, hdata, Option.isSome_none,
      Bool.false_eq_true, if_false]
    split_ifs with hexpired
    · refine Or.inl ⟨⟨rfl, hexpired⟩, hoff, update_self _ _ _,
        update_self _ _ _, fun a ha => ?_⟩
      exact Topics.entry_unsubscribeTopics_eq_none (Or.inr ha)
    · exact Or.inr ⟨fun hexp => hexpired hexp.2, hoff, hdata⟩
  · cases hstep
    exact Or.inr ⟨id, rfl, hdata⟩

/-! ### The offline queue -/

theorem queued_connect_of_ne {pkt : ConnectPacket} {assigned : Str} {now : ℕ}
    (hne : c ≠ (Process.assignClientID pkt assigned).clientID) :
    (p.connect opts pkt assigned now).queued c = p.queued c := by
  unfold Process.connect Process.deliverQueuedMessages
  simp only [update_of_ne hne]
  unfold Process.register
  simp only
  split_ifs
  · exact update_of_ne hne _ _
  · rfl

theorem queued_disconnect_of_ne {now : ℕ} (hne : c ≠ c') :
    (p.disconnect c' now).queued c = p.queued c := by
  unfold Process.disconnect
  split
  · rfl
  · split_ifs
    · exact foldl_keeps (Process.queued · c) (fun _ _ _ => update_of_ne hne _ _) _
    · exact update_of_ne hne _ _

theorem Discarded.deliverToClient (h : Discarded c data p) (c' source : Str) (pkt : PublishPacket)
    (now : ℕ) : Discarded c data (p.deliverToClient opts c' source pkt now) := by
  have hview := p.view_deliverToClient opts c' source pkt now c
  refine ⟨sessions_of_view hview h.offline, ?_, ?_, fun a ha => ?_⟩
  · exact (congrArg ClientView.stored hview).trans h.deleted
  · rcases eq_or_ne c c' with rfl | hne
    · have hsame : p.deliverToClient opts c source pkt now = p := by
        unfold Process.deliverToClient Process.queueOfflineMessage
        rw [h.offline, h.deleted]
        exact ite_self p
      rw [hsame]
      exact h.queued
    · rw [(queue_deliverToClient_of_ne hne).1]
      exact h.queued
  · exact (congrFun (congrArg ClientView.entry hview) a).trans (h.entries a ha)

theorem queued_handleSubscribe (p : Process) (c' : Str) (allowed : Str → Bool)
    (topics : List TopicFilter) : (p.handleSubscribe opts allowed c' topics).queued = p.queued := by
  unfold Process.handleSubscribe
  split_ifs
  · rfl
  · refine Process.forFilters_induction (P := fun q => q.queued = p.queued)
      (fun q f q' hq hsub => ?_) topics p rfl
    unfold Process.subscribeFilter at hsub
    split at hsub <;> cases hsub <;> exact hq

theorem queued_handleUnsubscribe (p : Process) (c' : Str) (topics : List Str) :
    (p.handleUnsubscribe c' topics).queued = p.queued := by
  refine Process.forFilters_induction (P := fun q => q.queued = p.queued)
    (fun q f q' hq hunsub => ?_) topics p rfl
  revert hunsub
  fun_cases Process.unsubscribeFilter c' q f <;> intro hunsub <;> cases hunsub <;> exact hq

theorem Discarded.queued_sweep (h : Discarded c data p) (c' : Str) (now : ℕ) :
    (p.cleanupExpiredSession c' now).queued c = [] := by
  unfold Process.cleanupExpiredSession
  split_ifs
  · exact h.queued
  · split
    · exact h.queued
    · split_ifs
      · rcases eq_or_ne c c' with rfl | hne
        · exact update_self _ _ _
        · exact (update_of_ne hne _ _).trans h.queued
      · exact h.queued

theorem Discarded.queued_step (h : Discarded c data st.process) (hquiet : ¬ Connects c l)
    (hstep : step opts st l = some st') : st'.process.queued c = [] := by
  revert hstep hquiet
  fun_cases step opts st l <;> rintro hquiet ⟨⟩
  · exact (queued_connect_of_ne (Ne.symm hquiet)).trans h.queued
  next hon => exact (queued_disconnect_of_ne (ne_of_online h.offline hon)).trans h.queued
  · exact (congrFun (queued_handleSubscribe st.process _ _ _) c).trans h.queued
  · exact (congrFun (queued_handleUnsubscribe st.process _ _) c).trans h.queued
  · exact (List.foldlRecOn _ _ h fun _ h c' _ => h.deliverToClient c' _ _ _).queued
  · exact h.queued
  · exact h.queued_sweep _ _
  · exact h.queued

theorem Discarded.step (h : Discarded c data st.process) (hinv : Inv (fun _ => True) st)
    (hquiet : ¬ Connects c l) (hstep : step opts st l = some st') :
    Discarded c data st'.process := by
  have hqueued := h.queued_step hquiet hstep
  rcases view_step hinv h.offline hquiet hstep with hview | ⟨now, rfl⟩ | rfl
  · refine ⟨sessions_of_view hview h.offline, ?_, hqueued, fun a ha => ?_⟩
    · exact (congrArg ClientView.stored hview).trans h.deleted
    · exact (congrFun (congrArg ClientView.entry hview) a).trans (h.entries a ha)
  · cases hstep
    simp only [Process.cleanupExpiredSession, h.offline, h.deleted, Option.isSome_none,
      Bool.false_eq_true, if_false]
    exact h
  · cases hstep
    exact ⟨rfl, h.deleted, hqueued, fun a _ => Topics.entry_empty c a⟩

end Steps

/-! ## Resuming depends on the sweep alone -/

theorem discarded_of_run {opts : BrokerOptions} {ls : List Label} {st st' : State}
    (hinv : Inv (fun _ => True) st) (h : Discarded c data st.process)
    (hquiet : ∀ l ∈ ls, ¬ Connects c l) (hrun : exec (step opts) st ls = some st') :
    Discarded c data st'.process := by
  have hstep : ∀ (s : State) (l : Label) (s' : State),
      Inv (fun _ => True) s ∧ Discarded c data s.process → ¬ Connects c l →
        step opts s l = some s' → Inv (fun _ => True) s' ∧ Discarded c data s'.process :=
    fun s l s' h hquiet hstep =>
      ⟨h.1.step (fun _ _ => trivial) opts hstep, h.2.step h.1 hquiet hstep⟩
  exact (exec_invariant _ hstep ⟨hinv, h⟩ (Along.of_forall hquiet st) hrun).2

theorem away_cases {opts : BrokerOptions} {st' : State} :
    ∀ {ls : List Label} {st : State}, Inv (fun _ => True) st →
      st.process.out.sessions c = none → st.process.out.stored c = some data →
      (∀ l ∈ ls, ¬ Connects c l) → exec (step opts) st ls = some st' →
      (∃ l ∈ ls, Expires c data l) ∧ Discarded c data st'.process ∨
        (∀ l ∈ ls, ¬ Expires c data l) ∧ st'.process.out.sessions c = none ∧
          st'.process.out.stored c = some data := by
  intro ls
  induction ls with
  | nil =>
    intro st _ hoff hdata _ hrun
    cases hrun
    exact Or.inr ⟨by simp, hoff, hdata⟩
  | cons l ls ih =>
    intro st hinv hoff hdata hquiet hrun
    obtain ⟨st₁, hstep, hrest⟩ := exec_cons_eq_some.mp hrun
    have hinv₁ := hinv.step (fun _ _ => trivial) opts hstep
    have hquiet' : ∀ l' ∈ ls, ¬ Connects c l' := fun l' hl' =>
      hquiet l' (List.mem_cons_of_mem l hl')
    rcases recorded_step hinv hoff hdata (hquiet l List.mem_cons_self) hstep with
      ⟨hexp, hgone⟩ | ⟨hnot, hoff₁, hdata₁⟩
    · exact Or.inl ⟨⟨l, List.mem_cons_self, hexp⟩, discarded_of_run hinv₁ hgone hquiet' hrest⟩
    · rcases ih hinv₁ hoff₁ hdata₁ hquiet' hrest with ⟨⟨l', hl', hexp⟩, hgone⟩ | ⟨hnone, hleft⟩
      · exact Or.inl ⟨⟨l', List.mem_cons_of_mem l hl', hexp⟩, hgone⟩
      · refine Or.inr ⟨fun l' hl' => ?_, hleft⟩
        rcases List.mem_cons.mp hl' with rfl | hmem
        · exact hnot
        · exact hnone l' hmem

/-- **A CONNECT without Clean Start gets nothing of the session that was left behind
exactly when a sweep has found it expired since.** When the CONNECT arrives makes no
difference. -/
theorem fresh_iff_swept (opts : BrokerOptions) (engine : QoSEngine) (store : SessionStore)
    (queued : Str → List StoredMessage) (before since : List Label) (st st' : State) (c : Str)
    (data : SessionData) (hbefore : exec (step opts) (init engine store queued) before = some st)
    (hoff : st.process.out.sessions c = none) (hdata : st.process.out.stored c = some data)
    (hquiet : ∀ l ∈ since, ¬ Connects c l) (hsince : exec (step opts) st since = some st')
    (pkt : ConnectPacket) (assigned : Str) (now : ℕ)
    (hc : (Process.assignClientID pkt assigned).clientID = c)
    (hclean : pkt.flags.cleanSession = false) :
    Fresh opts st'.process pkt assigned now data ↔ ∃ l ∈ since, Expires c data l := by
  have hinv := inv_of_run hbefore
  have hid : data.clientID = c := (hinv c).filed data hdata
  subst hid
  have hclean' : (Process.assignClientID pkt assigned).flags.cleanSession = false := by
    rw [CleanStart.cleanSession_assignClientID]
    exact hclean
  rcases away_cases hinv hoff hdata hquiet hsince with ⟨hswept, hgone⟩ | ⟨hnone, hoff', hdata'⟩
  · exact ⟨fun _ => hswept, fun _ => hgone.fresh opts now hc hclean'⟩
  · constructor
    · intro hfresh
      have hresumed := hfresh.notResumed
      simp only [resumed, hclean', Outbound.client, hoff', hdata', Bool.false_eq_true, if_false,
        Option.map_some] at hresumed
      cases hresumed
    · rintro ⟨l, hl, hexp⟩
      exact absurd hexp (hnone l hl)

/-! ### A session left at 0, resumed at 200 -/

def late : ℕ := 200 * second

/-- What the runs below leave: the record of an offline client, expired at `late`. -/
def leftExpired (st : State) : Bool :=
  !st.online (ascii "c") && (st.process.out.stored (ascii "c")).any (sessionExpired · late)

theorem expired_of_leftExpired {st : State} (h : leftExpired st = true) :
    st.process.out.sessions (ascii "c") = none ∧
      ∃ data, st.process.out.stored (ascii "c") = some data ∧ sessionExpired data late = true := by
  unfold leftExpired at h
  rw [Bool.and_eq_true, Option.any_eq_true] at h
  obtain ⟨honline, data, hdata, hexpired⟩ := h
  exact ⟨by simpa [State.online] using honline, data, hdata, hexpired⟩

theorem swept_session_fresh :
    ∃ st st' data, exec (step options) Restart.fresh leaves = some st ∧
      sessionExpired data late = true ∧
      exec (step options) st [.sweep (ascii "c") late] = some st' ∧
      Fresh options st'.process connectPersistent [] late data := by
  have hfacts : (exec (step options) Restart.fresh leaves).map leftExpired = some true := by
    decide +kernel
  obtain ⟨st, hst, hleft⟩ := Option.map_eq_some_iff.mp hfacts
  obtain ⟨hoff, data, hdata, hexpired⟩ := expired_of_leftExpired hleft
  refine ⟨st, _, data, hst, hexpired, rfl, ?_⟩
  refine (fresh_iff_swept options {} emptyStore (fun _ => []) leaves [.sweep (ascii "c") late] st _
    (ascii "c") data hst hoff hdata ?_ rfl connectPersistent [] late rfl rfl).mpr ?_
  · intro l hl
    rw [List.mem_singleton.mp hl]
    exact id
  · exact ⟨_, List.mem_singleton_self _, rfl, hexpired⟩

/-- Without a sweep the expired session is resumed with its subscription. -/
theorem expired_session_resumed :
    ∃ st data, exec (step options) Restart.fresh leaves = some st ∧
      st.process.out.sessions (ascii "c") = none ∧
      st.process.out.stored (ascii "c") = some data ∧ sessionExpired data late = true ∧
      sessionPresent st.process connectPersistent = true ∧
      ((st.process.connect options connectPersistent [] late).topics.match (ascii "a")).map
        Subscriber.clientID = [ascii "c"] ∧
      ¬ Fresh options st.process connectPersistent [] late data := by
  have hfacts : (exec (step options) Restart.fresh leaves).map (fun st =>
      (leftExpired st, sessionPresent st.process connectPersistent,
        ((st.process.connect options connectPersistent [] late).topics.match (ascii "a")).map
          Subscriber.clientID)) = some (true, true, [ascii "c"]) := by decide +kernel
  obtain ⟨st, hst, hvalues⟩ := Option.map_eq_some_iff.mp hfacts
  simp only [Prod.mk.injEq] at hvalues
  obtain ⟨hleft, hpresent, hmatch⟩ := hvalues
  obtain ⟨hoff, data, hdata, hexpired⟩ := expired_of_leftExpired hleft
  refine ⟨st, data, hst, hoff, hdata, hexpired, hpresent, hmatch, fun hfresh => ?_⟩
  have habsent := hfresh.sessionPresent
  cases hpresent.symm.trans habsent

end SharkMqtt.Broker.Expiry
