import SharkMqtt.Broker.Process

/-!
# Offline queueing after a restart

A persistent session keeps its entries in the topic tree when its client leaves, so
that a message for it is still matched and queued. The tree is memory of the
process: the next one starts with an empty tree and enters the filters of a stored
session when the client resumes it, not before.

The machine runs processes on the two stores, with every operation of `Process` and
restarts between them; `connected` is a ghost, the clients that have connected since
the process started. Until then a client has no entry at all, and afterwards every
filter of its session, or of its record while it is away, is entered (`Sound`). So a
message for a client that is away is queued exactly when the client has connected to
this process (`queued_iff_connected`), and a session in the manager is always matched
(`matched_of_session`).
-/

namespace SharkMqtt.Broker.Restart

open Protocol Lib Function
open Teardown (StoredMessage messageExpiresAt sessionExpired)

/-! ## The machine -/

structure State where
  process : Process
  connected : Str → Bool := fun _ => false

inductive Label where
  | connect (pkt : ConnectPacket) (assigned : Str) (now : ℕ)
  | disconnect (c : Str) (now : ℕ)
  | subscribe (c : Str) (topics : List TopicFilter) (allowed : Str → Bool)
  | unsubscribe (c : Str) (topics : List Str)
  | publish (source : Str) (pkt : PublishPacket) (now : ℕ)
  /-- A delivery, a flush, an acknowledgement or a retry. -/
  | deliver (op : Outbound.Op)
  | sweep (c : Str) (now : ℕ)
  | restart

def State.online (st : State) (c : Str) : Bool := (st.process.out.sessions c).isSome

def step (opts : BrokerOptions) (st : State) : Label → Option State
  | .connect pkt assigned now =>
    some
      { process := st.process.connect opts pkt assigned now
        connected := update st.connected (Process.assignClientID pkt assigned).clientID true }
  | .disconnect c now =>
    if st.online c then some { st with process := st.process.disconnect c now } else none
  | .subscribe c topics allowed =>
    if st.online c then
      some { st with process := st.process.handleSubscribe opts allowed c topics }
    else none
  | .unsubscribe c topics =>
    if st.online c then some { st with process := st.process.handleUnsubscribe c topics }
    else none
  | .publish source pkt now =>
    some { st with process := st.process.routePublish opts source pkt now }
  | .deliver op =>
    if op.delivers then
      some { st with
        process := { st.process with out := (st.process.out.run opts.toOptions op).1 } }
    else none
  | .sweep c now => some { st with process := st.process.cleanupExpiredSession c now }
  | .restart => some { process := st.process.restart }

def init (engine : QoSEngine) (store : SessionStore) (queued : Str → List StoredMessage) : State where
  process := .start engine store.get queued

/-! ## What holds of a client -/

/-- `P` is what is known of the filters in sessions and records. -/
structure Sound (P : Str → Prop) (c : Str) (connected : Bool) (v : ClientView) : Prop where
  owned : ∀ s ∈ v.session, s.1 = c
  filed : ∀ data ∈ v.stored, data.clientID = c
  listed : ∀ s ∈ v.session, ∀ f ∈ s.2, P f
  recorded : ∀ data ∈ v.stored, ∀ f ∈ data.filters, P f
  absent : connected = false → v.session = none ∧ ∀ a, v.entry a = none
  entered : connected = true → ∀ a ∈ addresses v.filters, a.accepted = true →
    (v.entry a).isSome = true

def Inv (P : Str → Prop) (st : State) : Prop := ∀ c, Sound P c (st.connected c) (st.process.view c)

variable {P : Str → Prop} {st : State}

/-- A client without filters and without a record is sound once it has connected. -/
theorem sound_of_empty {c : Str} {v : ClientView} (hsession : ∀ s ∈ v.session, s = (c, []))
    (hstored : v.stored = none) : Sound P c true v := by
  have hfilters : v.filters = [] := by
    rw [ClientView.filters, hstored]
    cases hs : v.session with
    | none => rfl
    | some s => rw [hsession s hs]
  refine ⟨fun s hs => ?_, ?_, fun s hs f hf => ?_, ?_, nofun, fun _ a ha => ?_⟩
  · rw [hsession s hs]
  · rw [hstored]
    exact nofun
  · rw [hsession s hs] at hf
    exact absurd hf List.not_mem_nil
  · rw [hstored]
    exact nofun
  · rw [hfilters] at ha
    exact absurd ha List.not_mem_nil

theorem Sound.restart {c : Str} {connected : Bool} {v : ClientView} (h : Sound P c connected v) :
    Sound P c false ⟨none, v.stored, fun _ => none⟩ where
  owned := nofun
  filed := h.filed
  listed := nofun
  recorded := h.recorded
  absent := fun _ => ⟨rfl, fun _ => rfl⟩
  entered := nofun

theorem inv_init (engine : QoSEngine) {store : SessionStore} (queued : Str → List StoredMessage)
    (hstore : ∀ c, ∀ data ∈ store.get c, ∀ f ∈ data.filters, P f) :
    Inv P (init engine store queued) := by
  intro c
  refine ⟨nofun, fun data hdata => store.filed c data hdata, nofun, hstore c,
    fun _ => ⟨rfl, fun a => ?_⟩, nofun⟩
  exact Topics.entry_empty c a

theorem Inv.update {st' : State} {c : Str} (h : Inv P st)
    (hview : ∀ c', c' ≠ c → st'.process.view c' = st.process.view c')
    (hconn : ∀ c', c' ≠ c → st'.connected c' = st.connected c')
    (hself : Sound P c (st'.connected c) (st'.process.view c)) : Inv P st' := by
  intro c'
  by_cases hc : c' = c
  · rw [hc]
    exact hself
  · rw [hview c' hc, hconn c' hc]
    exact h c'

theorem Inv.same (h : Inv P st) {p : Process} (hview : ∀ c, p.view c = st.process.view c) :
    Inv P { st with process := p } := by
  intro c
  rw [hview c]
  exact h c

/-! ## Steps -/

section Steps

variable {st : State} (h : Inv P st)

include h

variable {c : Str}

theorem Inv.connected_of_online (hon : st.online c = true) : st.connected c = true := by
  by_contra hconn
  have habsent := ((h c).absent (Bool.eq_false_iff.mpr hconn)).1
  obtain ⟨s, hs⟩ := Option.isSome_iff_exists.mp hon
  rw [Process.view, hs] at habsent
  cases habsent

theorem Inv.clientID_of_session {s : Session} (hs : st.process.out.sessions c = some s) :
    s.clientID = c :=
  (h c).owned s.subscriber (by rw [Process.view, hs]; rfl)

theorem Inv.connect (opts : BrokerOptions) (pkt : ConnectPacket) (assigned : Str) (now : ℕ)
    (hc : (Process.assignClientID pkt assigned).clientID = c) :
    Sound P c true ((st.process.connect opts pkt assigned now).view c) := by
  have hfiled := (h c).filed
  -- what the session's filters rest on: nothing, the session in memory, the record
  cases hclean : (Process.assignClientID pkt assigned).flags.cleanSession with
  | true =>
    rw [Process.view_connect_clean opts st.process now hc hclean]
    exact sound_of_empty (by simp) rfl
  | false =>
    cases hs : st.process.out.sessions c with
    | some s =>
      have hview : (st.process.connect opts pkt assigned now).view c = st.process.view c := by
        rw [Process.view_connect_of_session opts st.process now hc hclean hs]
        rw [Process.view, hs]
        rfl
      have hconn := h.connected_of_online (c := c) (by rw [State.online, hs]; rfl)
      rw [hview, ← hconn]
      exact h c
    | none =>
      cases hdata : st.process.out.stored c with
      | none =>
        rw [Process.view_connect_of_none opts st.process now hc hclean hs hdata]
        exact sound_of_empty (by simp) rfl
      | some data =>
        rw [Process.view_connect_of_record opts st.process now hc hclean hs hdata]
        have hid : data.clientID = c := hfiled data hdata
        have hlisted := (h c).recorded data hdata
        refine ⟨?_, ?_, ?_, ?_, ?_, fun _ a ha hacc => ?_⟩
        · rintro s ⟨⟩
          exact hid
        · rintro d ⟨⟩
          exact hid
        · rintro s ⟨⟩ f hf
          exact hlisted f (mem_filters_restore.mp hf)
        · rintro d ⟨⟩
          exact hlisted
        · rintro ⟨⟩
        · exact (Topics.isSome_entry_restoreFilters c a _ _).mpr (Or.inr ⟨hacc, ha⟩)

theorem Inv.disconnect (now : ℕ) (hon : st.online c = true) :
    Sound P c (st.connected c) ((st.process.disconnect c now).view c) := by
  obtain ⟨s, hs⟩ := Option.isSome_iff_exists.mp hon
  rw [h.connected_of_online hon]
  have hview : st.process.view c = ⟨some s.subscriber, st.process.out.stored c,
      st.process.topics.entry c⟩ := by
    rw [Process.view, hs]
    rfl
  rcases Process.view_disconnect now hs with hsaved | ⟨hsession, hstored⟩
  · rw [hsaved]
    refine ⟨?_, ?_, ?_, ?_, ?_, fun _ a ha hacc => ?_⟩
    · rintro _ ⟨⟩
    · rintro d ⟨⟩
      exact h.clientID_of_session hs
    · rintro _ ⟨⟩
    · rintro d ⟨⟩ f hf
      rw [s.filters_save now] at hf
      exact (h c).listed s.subscriber (by rw [hview]; rfl) f hf
    · rintro ⟨⟩
    · have hentered := (h c).entered (h.connected_of_online hon) a
      rw [hview] at hentered
      refine hentered ?_ hacc
      have ha : a ∈ addresses (s.save now).filters := ha
      rw [s.filters_save now] at ha
      exact ha
  · refine sound_of_empty ?_ hstored
    rw [hsession]
    rintro _ ⟨⟩

theorem Inv.sweep (c : Str) (now : ℕ) :
    Sound P c (st.connected c) ((st.process.cleanupExpiredSession c now).view c) := by
  rcases Process.view_cleanupExpiredSession (p := st.process) (c := c) now with
    hsame | ⟨hsession, hstored, hentry⟩
  · rw [hsame]
    exact h c
  · refine ⟨?_, ?_, ?_, ?_, fun hconn => ⟨hsession, fun a => ?_⟩, fun _ a ha => ?_⟩
    · rw [hsession]
      rintro _ ⟨⟩
    · rw [hstored]
      rintro _ ⟨⟩
    · rw [hsession]
      rintro _ ⟨⟩
    · rw [hstored]
      rintro _ ⟨⟩
    · exact hentry a (((h c).absent hconn).2 a)
    · rw [ClientView.filters, hsession, hstored] at ha
      exact absurd ha List.not_mem_nil

theorem Inv.filter_of_session {s : Session} (hs : st.process.out.sessions c = some s) {f : Str}
    (hf : f ∈ s.filters) : P f ∧ ∀ a, address f = some a → a.accepted = true →
      (st.process.topics.entry c a).isSome = true := by
  have hon : st.online c = true := by rw [State.online, hs]; rfl
  have hview : (st.process.view c).session = some s.subscriber := by rw [Process.view, hs]; rfl
  refine ⟨(h c).listed s.subscriber hview f hf, fun a haddr hacc => ?_⟩
  refine (h c).entered (h.connected_of_online hon) a (mem_addresses.mpr ⟨f, ?_, haddr⟩) hacc
  rw [ClientView.filters, hview]
  exact hf

theorem Inv.onSession {s : Session} {p : Process} {g : Session → Session}
    (hs : st.process.out.sessions c = some s) (hout : p.out = st.process.out.onSession c g)
    (hother : ∀ c' a, c' ≠ c → p.topics.entry c' a = st.process.topics.entry c' a)
    (hid : (g s).clientID = s.clientID) (hlisted : ∀ f ∈ (g s).filters, P f)
    (hentered : ∀ f ∈ (g s).filters, ∀ a, address f = some a → a.accepted = true →
      (p.topics.entry c a).isSome = true) :
    Inv P { st with process := p } ∧ State.online { st with process := p } c = true := by
  have hsession : (p.view c).session = some (g s).subscriber := by
    simp only [Process.view, hout]
    rw [Process.subscriber_onSession, if_pos rfl, hs]
    rfl
  have hstored : (p.view c).stored = st.process.out.stored c := by
    simp only [Process.view, hout, Outbound.stored_onSession]
  have hconn := h.connected_of_online (c := c) (by rw [State.online, hs]; rfl)
  constructor
  · refine h.update (c := c) (fun c' hc => ?_) (fun _ _ => rfl) ?_
    · exact Process.view_onSession_of_ne hout (fun a => hother c' a hc) hc
    refine ⟨fun s' hs' => ?_, fun data hdata => ?_, fun s' hs' f hf => ?_, fun data hdata => ?_,
      fun hfalse => ?_, fun _ a ha hacc => ?_⟩
    · cases hsession.symm.trans hs'
      exact hid.trans (h.clientID_of_session hs)
    · exact (h c).filed data (hstored.symm.trans hdata)
    · cases hsession.symm.trans hs'
      exact hlisted f hf
    · exact (h c).recorded data (hstored.symm.trans hdata)
    · cases hconn.symm.trans hfalse
    · rw [ClientView.filters, hsession] at ha
      obtain ⟨f, hf, haddr⟩ := mem_addresses.mp ha
      exact hentered f hf a haddr hacc
  · obtain ⟨s', hs', -⟩ := Option.map_eq_some_iff.mp hsession
    exact Option.isSome_iff_exists.mpr ⟨s', hs'⟩

section

variable (hon : st.online c = true)

include hon

theorem Inv.subscribeFilter (hP : ∀ f, Enterable f → P f)
    {allowed : Str → Bool} {topic : TopicFilter} {p : Process}
    (hsub : Process.subscribeFilter allowed c st.process topic = some p) :
    Inv P { st with process := p } ∧ State.online { st with process := p } c = true := by
  rcases Process.subscribeFilter_eq_some hsub with rfl | ⟨a, ha, hacc, hout, hentry⟩
  · exact ⟨h, hon⟩
  obtain ⟨s, hs⟩ := Option.isSome_iff_exists.mp hon
  refine h.onSession hs hout (fun c' a' hc => ?_) rfl (fun f hf => ?_) fun f hf a' haddr hacc' => ?_
  · exact (hentry c' a').trans (if_neg fun hh => hc hh.1)
  · rcases Session.mem_filters_addSubscriptionFilter.mp hf with rfl | hold
    · exact hP _ ⟨a, ha, hacc⟩
    · exact (h.filter_of_session hs hold).1
  · rw [hentry c a']
    split_ifs with hnew
    · rfl
    · rcases Session.mem_filters_addSubscriptionFilter.mp hf with rfl | hold
      · exact absurd ⟨rfl, Option.some.inj (haddr.symm.trans ha)⟩ hnew
      · exact (h.filter_of_session hs hold).2 a' haddr hacc'

theorem Inv.unsubscribeFilter {topic : Str} {p : Process}
    (hunsub : Process.unsubscribeFilter c st.process topic = some p) :
    Inv P { st with process := p } ∧ State.online { st with process := p } c = true := by
  obtain ⟨a, ha, hout, hentry⟩ := Process.unsubscribeFilter_eq_some hunsub
  obtain ⟨s, hs⟩ := Option.isSome_iff_exists.mp hon
  refine h.onSession hs hout (fun c' a' hc => ?_) rfl (fun f hf => ?_) fun f hf a' haddr hacc => ?_
  · exact (hentry c' a').trans (if_neg fun hh => hc hh.1)
  · exact (h.filter_of_session hs (Session.mem_filters_removeSubscription.mp hf).2).1
  · obtain ⟨hne, hold⟩ := Session.mem_filters_removeSubscription.mp hf
    rw [hentry c a', if_neg]
    · exact (h.filter_of_session hs hold).2 a' haddr hacc
    · rintro ⟨-, rfl⟩
      exact hne (address_injective haddr ha)

theorem Inv.handleSubscribe (hP : ∀ f, Enterable f → P f) (opts : BrokerOptions)
    (allowed : Str → Bool) (topics : List TopicFilter) :
    Inv P { st with process := st.process.handleSubscribe opts allowed c topics } := by
  unfold Process.handleSubscribe
  split_ifs
  · exact h
  · refine (Process.forFilters_induction
      (P := fun p => Inv P { st with process := p } ∧ State.online { st with process := p } c = true)
      (fun p f p' hp hsub => ?_) topics st.process ⟨h, hon⟩).1
    have hkept := Inv.subscribeFilter hp.1 hp.2 hP hsub
    exact hkept

theorem Inv.handleUnsubscribe (topics : List Str) :
    Inv P { st with process := st.process.handleUnsubscribe c topics } := by
  refine (Process.forFilters_induction
    (P := fun p => Inv P { st with process := p } ∧ State.online { st with process := p } c = true)
    (fun p f p' hp hunsub => ?_) topics st.process ⟨h, hon⟩).1
  have hkept := Inv.unsubscribeFilter hp.1 hp.2 hunsub
  exact hkept

end

theorem Inv.step (hP : ∀ f, Enterable f → P f) (opts : BrokerOptions) {l : Label} {st' : State}
    (hstep : step opts st l = some st') : Inv P st' := by
  revert hstep
  fun_cases Restart.step opts st l <;> rintro ⟨⟩
  next pkt assigned now =>
    refine h.update (fun c' hc => ?_) (fun c' hc => update_of_ne hc _ _) ?_
    · exact Process.view_connect_of_ne opts st.process now hc
    · simp only [update_self]
      exact h.connect opts pkt assigned now rfl
  next c now hon =>
    refine h.update (c := c) (fun c' hc => ?_) (fun _ _ => rfl) (h.disconnect now hon)
    exact Process.view_disconnect_of_ne now hc fun s hs => h.clientID_of_session hs
  next c topics allowed hon => exact h.handleSubscribe hon hP opts allowed topics
  next c topics hon => exact h.handleUnsubscribe hon topics
  · exact h.same (st.process.view_routePublish opts _ _ _)
  next op hop =>
    refine h.same fun c => Process.view_of_sameSubscribers (p := st.process) ?_ ?_ c
    · exact st.process.out.sameSubscribers_run opts.toOptions hop
    · rfl
  next c now =>
    refine h.update (c := c) (fun c' hc => ?_) (fun _ _ => rfl) (h.sweep c now)
    exact Process.view_cleanupExpiredSession_of_ne now hc
  · intro c
    have hview : st.process.restart.view c = ⟨none, (st.process.view c).stored, fun _ => none⟩ :=
      ClientView.ext rfl rfl (funext fun a => Topics.entry_empty c a)
    rw [hview]
    exact (h c).restart

end Steps

/-! ## What is queued -/

/-- The client is away, its record has not expired and its queue takes another
message. -/
structure Away (opts : BrokerOptions) (p : Process) (c : Str) (data : SessionData) (now : ℕ) :
    Prop where
  offline : p.out.sessions c = none
  stored : p.out.stored c = some data
  unexpired : sessionExpired data now = false
  room : opts.maxOfflineQueue = 0 ∨ p.offlineCount c < opts.maxOfflineQueue

section Queue

variable {opts : BrokerOptions} {p : Process} {c : Str} {data : SessionData} {pkt : PublishPacket}
  {source : Str} {now : ℕ}

theorem Away.deliverToClient (h : Away opts p c data now) (hqos : pkt.fixedHeader.qos ≠ 0) :
    p.deliverToClient opts c source pkt now =
      p.saveMessage c (Process.offlineMessage data pkt (messageExpiresAt pkt now)) := by
  unfold Process.deliverToClient Process.queueOfflineMessage
  rw [h.offline, h.stored]
  simp only [if_neg hqos, h.unexpired, Bool.false_eq_true, if_false]
  refine if_neg ?_
  rintro ⟨hpos, hfull⟩
  rcases h.room with hroom | hroom
  · exact absurd hroom (Nat.pos_iff_ne_zero.mp hpos)
  · exact absurd hroom (not_lt.mpr hfull)

theorem queue_deliverToClient_of_ne {c' : Str} (hc : c ≠ c') :
    (p.deliverToClient opts c' source pkt now).queued c = p.queued c ∧
      (p.deliverToClient opts c' source pkt now).offlineCount c = p.offlineCount c := by
  unfold Process.deliverToClient
  split
  · fun_cases Process.queueOfflineMessage opts p c' pkt (messageExpiresAt pkt now) now with
    | case5 => exact ⟨update_of_ne hc _ _, update_of_ne hc _ _⟩
    | _ => exact ⟨rfl, rfl⟩
  · split <;> exact ⟨rfl, rfl⟩

theorem Away.deliverToClient_of_ne (h : Away opts p c data now) {c' : Str} (hc : c ≠ c') :
    Away opts (p.deliverToClient opts c' source pkt now) c data now := by
  have hview := p.view_deliverToClient opts c' source pkt now c
  have hsession : ((p.deliverToClient opts c' source pkt now).out.sessions c).map
      Session.subscriber = none := by
    refine (congrArg ClientView.session hview).trans ?_
    rw [Process.view, h.offline]
    rfl
  refine ⟨Option.map_eq_none_iff.mp hsession, ?_, h.unexpired, ?_⟩
  · exact (congrArg ClientView.stored hview).trans h.stored
  · rw [(queue_deliverToClient_of_ne hc).2]
    exact h.room

theorem queued_deliverClients_of_notMem (cs : List Str) {p : Process} (hc : c ∉ cs) :
    (cs.foldl (fun p c => p.deliverToClient opts c source pkt now) p).queued c = p.queued c :=
  foldl_keeps (Process.queued · c)
    (fun _ _ hmem => (queue_deliverToClient_of_ne (ne_of_mem_of_not_mem hmem hc).symm).1) p

theorem Away.queued_deliverClients (hqos : pkt.fixedHeader.qos ≠ 0) (cs : List Str) :
    ∀ {p : Process}, Away opts p c data now → cs.Nodup → c ∈ cs →
      (cs.foldl (fun p c => p.deliverToClient opts c source pkt now) p).queued c =
        p.queued c ++ [Process.offlineMessage data pkt (messageExpiresAt pkt now)] := by
  induction cs with
  | nil => exact fun _ _ hmem => absurd hmem List.not_mem_nil
  | cons c' rest ih =>
    intro p h hnd hmem
    rw [List.nodup_cons] at hnd
    rcases List.mem_cons.mp hmem with rfl | hrest
    · refine (queued_deliverClients_of_notMem rest hnd.1).trans ?_
      refine (congrArg (Process.queued · c) (h.deliverToClient hqos)).trans ?_
      exact update_self _ _ _
    · have hc : c ≠ c' := fun heq => hnd.1 (heq ▸ hrest)
      refine (ih (h.deliverToClient_of_ne hc) hnd.2 hrest).trans ?_
      rw [(queue_deliverToClient_of_ne hc).1]

/-- The message is placed in the client's queue, once. -/
def Queues (opts : BrokerOptions) (p : Process) (source : Str) (pkt : PublishPacket) (now : ℕ)
    (c : Str) (data : SessionData) : Prop :=
  (p.routePublish opts source pkt now).queued c =
    p.queued c ++ [Process.offlineMessage data pkt (messageExpiresAt pkt now)]

/-- The walk of `Match` meets an entry of the client. -/
def Covered (p : Process) (c topic : Str) : Prop :=
  ∃ f, (p.topics.entry c (.trie f)).isSome = true ∧ Visited f topic

theorem Away.queues_iff_covered (h : Away opts p c data now) (hqos : pkt.fixedHeader.qos ≠ 0) :
    Queues opts p source pkt now c data ↔ Covered p c pkt.topic := by
  refine Iff.trans ?_ (p.topics.mem_match_iff pkt.topic c)
  unfold Queues Process.routePublish
  constructor
  · intro hq
    by_contra hmem
    rw [queued_deliverClients_of_notMem _ hmem] at hq
    simpa using congrArg List.length hq
  · exact h.queued_deliverClients hqos _ (p.topics.nodup_match pkt.topic)

end Queue

/-! ## Whole runs -/

theorem inv_of_run {opts : BrokerOptions} {engine : QoSEngine} {store : SessionStore}
    {queued : Str → List StoredMessage} {ls : List Label} {st : State}
    (hrun : exec (step opts) (init engine store queued) ls = some st) : Inv (fun _ => True) st :=
  exec_preserves _ (fun _ _ _ h hstep => h.step (fun _ _ => trivial) opts hstep)
    (inv_init engine queued fun _ _ _ _ _ => trivial) hrun

/-- **A message for a client that is away is queued exactly when the client has
connected to this process.** The filter that matches has to be one `Subscribe`
accepts, as every filter a session took from a SUBSCRIBE is; a record with another
one is covered by what else is entered for the client. -/
theorem queued_iff_connected (opts : BrokerOptions) (engine : QoSEngine) (store : SessionStore)
    (queued : Str → List StoredMessage) {ls : List Label} {st : State}
    (hrun : exec (step opts) (init engine store queued) ls = some st) {c f : Str}
    {data : SessionData} {pkt : PublishPacket} (source : Str) (now : ℕ)
    (haway : Away opts st.process c data now) (hf : f ∈ data.filters)
    (hplain : isSharedSubscription f = false) (hmatch : matchSysProtected f pkt.topic = true)
    (hqos : pkt.fixedHeader.qos = 1 ∨ pkt.fixedHeader.qos = 2) :
    Queues opts st.process source pkt now c data ↔
      st.connected c = true ∧ (validateTopicFilter f = true ∨ Covered st.process c pkt.topic) := by
  have hinv := inv_of_run hrun
  have hqos : pkt.fixedHeader.qos ≠ 0 := by rcases hqos with hq | hq <;> rw [hq] <;> decide
  rw [haway.queues_iff_covered hqos]
  constructor
  -- an entry is only made for a client that connects
  · rintro ⟨f', hentry, hvisited⟩
    refine ⟨?_, Or.inr ⟨f', hentry, hvisited⟩⟩
    by_contra hconn
    have hnone := ((hinv c).absent (Bool.eq_false_iff.mpr hconn)).2 (.trie f')
    have hnone : st.process.topics.entry c (.trie f') = none := hnone
    rw [hnone] at hentry
    cases hentry
  · rintro ⟨hconn, hvalid | hcovered⟩
    · refine ⟨f, (hinv c).entered hconn (.trie f) ?_ hvalid, visited_of_match hmatch⟩
      refine mem_addresses.mpr ⟨f, ?_, by rw [address, hplain]; rfl⟩
      rw [Process.view, haway.offline, haway.stored]
      exact hf
    · exact hcovered

/-- **A publish misses no live session.** Whatever was subscribed, resumed, swept and restarted
before, one after the other, each filter of a session in the manager has its entry in the trie or
its share group, and `Match` returns the client once for a topic that an ordinary one matches. -/
theorem matched_of_session (opts : BrokerOptions) (engine : QoSEngine) (store : SessionStore)
    (queued : Str → List StoredMessage) {ls : List Label} {st : State}
    (hrun : exec (step opts) (init engine store queued) ls = some st) {c f : Str} {s : Session}
    (hs : st.process.out.sessions c = some s) (hf : f ∈ s.filters) :
    (∀ a, address f = some a → a.accepted = true →
      (st.process.topics.entry c a).isSome = true) ∧
    ∀ topic, isSharedSubscription f = false → validateTopicFilter f = true →
      matchSysProtected f topic = true →
      ((st.process.topics.match topic).map Subscriber.clientID).count c = 1 := by
  have hinv := inv_of_run hrun
  have hentered : ∀ a, address f = some a → a.accepted = true →
      (st.process.topics.entry c a).isSome = true := by
    intro a ha
    refine (hinv c).entered (hinv.connected_of_online (Option.isSome_of_mem hs)) a ?_
    refine mem_addresses.mpr ⟨f, ?_, ha⟩
    rw [Process.view, hs]
    exact hf
  refine ⟨hentered, fun topic hplain hvalid hmatch => ?_⟩
  refine List.count_eq_one_of_mem (st.process.topics.nodup_match topic) ?_
  refine (st.process.topics.mem_match_iff topic c).mpr ⟨f, ?_, visited_of_match hmatch⟩
  exact hentered (.trie f) (by rw [address, hplain]; rfl) hvalid

/-! ## One session, with and without a restart -/

def options : BrokerOptions := { maxInflight := 10, sessionExpiry := 100 }

def connectPersistent : ConnectPacket where
  fixedHeader := { packetType := .connect }
  protocolName := ascii "MQTT"
  protocolVersion := 4
  flags := { cleanSession := false }
  keepAlive := 0
  clientID := ascii "c"

def publishQoS1 : PublishPacket where
  fixedHeader := { packetType := .publish, qos := 1 }
  packetID := 1
  topic := ascii "a"
  payload := ascii "m"

def emptyStore : SessionStore := ⟨fun _ => none, nofun⟩

def fresh : State := init {} emptyStore fun _ => []

/-- A client subscribes to `a` and leaves a session behind. -/
def leaves : List Label :=
  [.connect connectPersistent [] 0, .subscribe (ascii "c") [⟨ascii "a", 1, false, false, 0, none⟩]
    fun _ => true, .disconnect (ascii "c") 0]

/-- The client is away, with `a` in an unexpired record. -/
def leftRecord (st : State) : Bool :=
  !st.online (ascii "c") && (st.process.out.stored (ascii "c")).any fun data =>
    decide (ascii "a" ∈ data.filters) && !sessionExpired data 1

theorem away_of_leftRecord (h : leftRecord st = true) :
    ∃ data, Away options st.process (ascii "c") data 1 ∧ ascii "a" ∈ data.filters := by
  unfold leftRecord at h
  rw [Bool.and_eq_true, Option.any_eq_true] at h
  obtain ⟨honline, data, hdata, hrecord⟩ := h
  rw [Bool.and_eq_true, decide_eq_true_eq] at hrecord
  refine ⟨data, ⟨?_, hdata, ?_, Or.inl rfl⟩, hrecord.1⟩
  · simpa [State.online] using honline
  · simpa using hrecord.2

/-- In the process the client left, the message is queued. -/
theorem message_queued_without_restart :
    ∃ st data, exec (step options) fresh leaves = some st ∧
      Away options st.process (ascii "c") data 1 ∧
      Queues options st.process (ascii "p") publishQoS1 1 (ascii "c") data := by
  have hfacts : (exec (step options) fresh leaves).map
      (fun st => (st.connected (ascii "c"), leftRecord st)) =
      some (true, true) := by decide +kernel
  obtain ⟨st, hst, heq⟩ := Option.map_eq_some_iff.mp hfacts
  obtain ⟨hconn, hleft⟩ := Prod.mk.inj heq
  obtain ⟨data, haway, hmem⟩ := away_of_leftRecord hleft
  refine ⟨st, data, hst, haway, ?_⟩
  exact (queued_iff_connected options {} emptyStore (fun _ => []) hst (ascii "p") 1 haway hmem
    (by decide) (by decide) (Or.inl rfl)).mpr ⟨hconn, Or.inl (by decide)⟩

/-- In the next process on the same stores it is not. -/
theorem message_lost_after_restart :
    (exec (step options) fresh leaves).map
        (fun st => ((st.process.routePublish options (ascii "p") publishQoS1 1).queued
          (ascii "c")).length) = some 1 ∧
      ∃ st data, exec (step options) fresh (leaves ++ [.restart]) = some st ∧
        Away options st.process (ascii "c") data 1 ∧ ascii "a" ∈ data.filters ∧
        isSharedSubscription (ascii "a") = false ∧
        matchSysProtected (ascii "a") publishQoS1.topic = true ∧
        (st.process.routePublish options (ascii "p") publishQoS1 1).queued (ascii "c") = [] ∧
        ¬ Queues options st.process (ascii "p") publishQoS1 1 (ascii "c") data := by
  refine ⟨by decide +kernel, ?_⟩
  have hfacts : (exec (step options) fresh (leaves ++ [.restart])).map
      (fun st => (((st.process.routePublish options (ascii "p") publishQoS1 1).queued
        (ascii "c")).length, leftRecord st)) =
      some (0, true) := by decide +kernel
  obtain ⟨st, hst, heq⟩ := Option.map_eq_some_iff.mp hfacts
  obtain ⟨hlength, hleft⟩ := Prod.mk.inj heq
  obtain ⟨data, haway, hmem⟩ := away_of_leftRecord hleft
  have hqueue := List.length_eq_zero_iff.mp hlength
  refine ⟨st, data, hst, haway, hmem, by decide, by decide, hqueue, fun hq => ?_⟩
  unfold Queues at hq
  rw [hqueue] at hq
  simpa using congrArg List.length hq

/-- The client that comes back after a restart is matched again. -/
theorem matched_after_restart :
    ∃ st s, exec (step options) fresh (leaves ++ [.restart, .connect connectPersistent [] 1]) =
        some st ∧ st.process.out.sessions (ascii "c") = some s ∧
      ((st.process.topics.match (ascii "a")).map Subscriber.clientID).count (ascii "c") = 1 := by
  have hfacts : (exec (step options) fresh
      (leaves ++ [.restart, .connect connectPersistent [] 1])).any (fun st =>
        (st.process.out.sessions (ascii "c")).any fun s => decide (ascii "a" ∈ s.filters)) =
      true := by decide +kernel
  obtain ⟨st, hst, hsess⟩ := (Option.any_eq_true _ _).mp hfacts
  obtain ⟨s, hs, hf⟩ := (Option.any_eq_true _ _).mp hsess
  refine ⟨st, s, hst, hs, ?_⟩
  exact (matched_of_session options {} emptyStore (fun _ => []) hst hs (of_decide_eq_true hf)).2
    (ascii "a") (by decide) (by decide) (by decide)

end SharkMqtt.Broker.Restart
