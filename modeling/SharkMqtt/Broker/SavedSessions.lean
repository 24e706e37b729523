import SharkMqtt.Broker.Inbound
import SharkMqtt.Broker.Restart
import SharkMqtt.Broker.Tracking

/-!
# What a saved session keeps

`Save` and `Restore` (`broker/session.go`) convert every subscription, every delivery in
flight and every staged QoS 2 message into a record of the store and back. A delivery that is
sent again afterwards should be the packet it would have been without the detour. The record
has no place for the Message Expiry Interval, which a retransmission derives from the deadline,
and `protocolProperties` takes an empty record for a delivery without properties: one whose
only property is the interval loses it.
-/

namespace SharkMqtt.Broker

open Protocol Lib Outbound

/-! ## Subscriptions -/

/-- The session has options exactly for its filters, with their QoS. -/
def Session.Paired (s : Session) : Prop :=
  ∀ f, (s.subOptions.lookup f).map (·.qos) = s.subscriptions.lookup f

theorem Session.Paired.addSubscriptionFilter {s : Session} (h : s.Paired) (filter : TopicFilter) :
    (s.addSubscriptionFilter filter).Paired := by
  intro f
  unfold Session.addSubscriptionFilter
  by_cases hf : f = filter.topic
  · subst hf
    simp
  · simp [AList.lookup_insert_ne hf, h f]

theorem Session.Paired.removeSubscription {s : Session} (h : s.Paired) (topic : Str) :
    (s.removeSubscription topic).Paired := by
  intro f
  unfold Session.removeSubscription
  by_cases hf : f = topic
  · subst hf
    simp
  · simp [AList.lookup_erase_ne hf, h f]

theorem paired_restore (data : SessionData) : (restore data).Paired := by
  refine List.foldl_rel (r := fun (opts : AList fun _ : Str => SubscriptionOptions)
    (subs : AList fun _ : Str => ℕ) => ∀ f, (opts.lookup f).map (·.qos) = subs.lookup f)
    (fun _ => rfl) fun sub _ opts subs h f => ?_
  by_cases hf : f = sub.topic
  · subst hf
    simp [StoredSubscription.options]
  · simp [AList.lookup_insert_ne hf, h f]

/-- All sessions in the manager are paired. -/
abbrev Outbound.Paired (b : Outbound) : Prop := b.Holds (fun _ => Session.Paired) fun _ => True

section Runs

variable {b b' : Outbound} (h : b.Paired)

include h

theorem Outbound.Paired.same (hsame : b.SameSubscribers b') : b'.Paired := by
  refine ⟨fun c s hs f => ?_, fun _ _ _ => trivial⟩
  have hmaps := hsame.sessions c
  rw [hs] at hmaps
  obtain ⟨s₀, hs₀, heq⟩ := Option.map_eq_some_iff.mp hmaps.symm
  simp only [Session.maps, Prod.mk.injEq] at heq
  rw [← heq.2.1, ← heq.2.2]
  exact h.sessions c s₀ hs₀ f

theorem Outbound.Paired.connect (opts : Options) (pkt : ConnectPacket) (now : ℕ) :
    (b.connect opts pkt now).1.Paired := by
  refine ⟨fun c s hs => ?_, fun _ _ _ => trivial⟩
  simp only [Outbound.connect, Function.update_apply] at hs
  split_ifs at hs with hc
  · cases hs
    cases hres : resumed (b.client pkt.clientID) pkt with
    | none => exact fun _ => rfl
    | some s =>
      obtain ⟨-, hs | ⟨-, data, -, rfl⟩⟩ := resumed_eq_some.mp hres
      · exact h.sessions _ s hs
      · exact paired_restore data
  · exact h.sessions c s hs

end Runs

theorem paired_step {opts : BrokerOptions} {st st' : Restart.State} {l : Restart.Label}
    (h : st.process.out.Paired) (hstep : Restart.step opts st l = some st') :
    st'.process.out.Paired := by
  revert hstep
  fun_cases Restart.step opts st l <;> rintro ⟨⟩
  next pkt assigned now =>
    refine Outbound.Paired.same ?_ (Process.sameSubscribers_deliverListed _ now _ _)
    rw [Process.out_register]
    exact h.connect _ _ now
  next c now _ =>
    have hleft := Outbound.Holds.disconnect h (fun _ _ _ _ => trivial) c now
    fun_cases Process.disconnect st.process c now
    · exact h
    · rwa [Process.out_persistBufferedOutbound]
    · exact hleft
  next c topics allowed _ =>
    unfold Process.handleSubscribe
    split_ifs
    · exact h
    · refine Process.forFilters_induction (P := (·.out.Paired)) (fun p f p' hp hsub => ?_) _ _ h
      rcases Process.subscribeFilter_eq_some hsub with rfl | ⟨-, -, -, hout, -⟩
      · exact hp
      · exact hout ▸ hp.onSession fun s hs => hs.addSubscriptionFilter f
  next c topics _ =>
    refine Process.forFilters_induction (P := (·.out.Paired)) (fun p f p' hp hunsub => ?_) _ _ h
    obtain ⟨-, -, hout, -⟩ := Process.unsubscribeFilter_eq_some hunsub
    exact hout ▸ hp.onSession fun s hs => hs.removeSubscription f
  next source pkt now =>
    exact List.foldlRecOn (motive := fun p : Process => p.out.Paired) _ _ h fun p hp c _ =>
      Outbound.Paired.same hp (p.deliverToClient_frame opts c source pkt now).1
  next op hop => exact h.same (st.process.out.sameSubscribers_run opts.toOptions hop)
  next c now =>
    fun_cases Process.cleanupExpiredSession st.process c now
    all_goals exact ⟨h.sessions, fun _ _ _ => trivial⟩
  · exact ⟨fun _ _ hs => (by cases hs), fun _ _ _ => trivial⟩

/-- **Every session of a broker is paired**, whatever its clients do and however often it is
restarted. -/
theorem paired_of_run (opts : BrokerOptions) (engine : QoSEngine) (store : SessionStore)
    (queued : Str → List Teardown.StoredMessage) {ls : List Restart.Label} {st : Restart.State}
    (hrun : exec (Restart.step opts) (Restart.init engine store queued) ls = some st) :
    st.process.out.Paired :=
  exec_preserves (·.process.out.Paired) (fun _ _ _ h hstep => paired_step h hstep)
    ⟨nofun, fun _ _ _ => trivial⟩ hrun

theorem lookup_foldl_insert {β : Type} (g : (Σ _ : Str, ℕ) → β) (f : Str) :
    ∀ (l : List (Σ _ : Str, ℕ)) (m : AList fun _ : Str => β), l.NodupKeys →
      (l.foldl (fun m e => m.insert e.1 (g e)) m).lookup f =
        ((l.dlookup f).map fun q => g ⟨f, q⟩).or (m.lookup f) := by
  intro l
  induction l with
  | nil => intro m _; rfl
  | cons e rest ih =>
    intro m hnodup
    obtain ⟨hnotin, hrest⟩ := List.nodupKeys_cons.mp hnodup
    rw [List.foldl_cons, ih _ hrest]
    by_cases hf : f = e.1
    · subst hf
      rw [List.dlookup_eq_none.mpr hnotin, List.dlookup_cons_eq, AList.lookup_insert]
      rfl
    · rw [List.dlookup_cons_ne _ _ hf, AList.lookup_insert_ne hf]

section Restored

variable (s : Session) (saved : ℕ) (f : Str)

theorem subscriptions_restore_save :
    (restore (s.save saved)).subscriptions.lookup f = s.subscriptions.lookup f := by
  have hfold := lookup_foldl_insert (fun e => e.2) f s.subscriptions.entries ∅
    s.subscriptions.nodupKeys
  simp only [restore, Session.save, List.foldl_map]
  refine hfold.trans ?_
  simp [AList.lookup]

theorem subOptions_restore_save : (restore (s.save saved)).subOptions.lookup f =
    (s.subscriptions.lookup f).map fun q => { (s.subOptions.lookup f).getD {} with qos := q } := by
  have hfold := lookup_foldl_insert (fun e => (s.storedSubscription e).options) f
    s.subscriptions.entries ∅ s.subscriptions.nodupKeys
  simp only [restore, Session.save, List.foldl_map]
  refine hfold.trans ?_
  simp [AList.lookup, Session.storedSubscription, StoredSubscription.options]

theorem Session.Paired.restored {s : Session} (h : s.Paired) :
    (restore (s.save saved)).subOptions.lookup f = s.subOptions.lookup f := by
  rw [subOptions_restore_save, ← h f]
  cases s.subOptions.lookup f <;> rfl

end Restored

/-! ## Deliveries -/

/-- The properties the store has a place for. -/
def storedPart (p : Properties) : Properties where
  payloadFormat := p.payloadFormat
  contentType := p.contentType
  responseTopic := p.responseTopic
  correlationData := p.correlationData
  userProperties := p.userProperties
  subscriptionIdentifier := p.subscriptionIdentifier

/-- The delivery has no properties, or some the store has a place for and, beside the
interval of its deadline, no others. -/
def InflightMsg.Storable (m : InflightMsg) : Prop :=
  ∀ p, m.properties = some p → storeProperties (some p) ≠ {} ∧
    p = { storedPart p with messageExpiryInterval := p.messageExpiryInterval } ∧
    (m.expiresAt = none → p.messageExpiryInterval = none)

theorem protocolProperties_storeProperties {p : Properties} (h : storeProperties (some p) ≠ {}) :
    protocolProperties (storeProperties (some p)) = some (storedPart p) := by
  unfold protocolProperties
  rw [if_neg]
  · rfl
  · rintro ⟨h₁, h₂, h₃, h₄, h₅, h₆⟩
    generalize storeProperties (some p) = sp at *
    cases sp
    simp_all

theorem buildRetransmitPublish_restored_iff (m : InflightMsg) (now : ℕ) :
    buildRetransmitPublish m.store.restore now = buildRetransmitPublish m now ↔ m.Storable := by
  have hprops : buildRetransmitPublish m.store.restore now = buildRetransmitPublish m now ↔
      (buildRetransmitPublish m.store.restore now).properties =
        (buildRetransmitPublish m now).properties := by
    simp [buildRetransmitPublish, InflightMsg.store, InflightMessage.restore]
  rw [hprops]
  simp only [buildRetransmitPublish, InflightMsg.store, InflightMessage.restore]
  cases hp : m.properties with
  | none =>
    refine iff_of_true rfl fun p h => ?_
    rw [hp] at h
    cases h
  | some p =>
    have hstorable : m.Storable ↔ storeProperties (some p) ≠ {} ∧
        p = { storedPart p with messageExpiryInterval := p.messageExpiryInterval } ∧
        (m.expiresAt = none → p.messageExpiryInterval = none) := by
      simp [InflightMsg.Storable, hp]
    rw [hstorable]
    by_cases hempty : storeProperties (some p) = {}
    · -- the record is taken for one without properties
      rw [hempty]
      refine iff_of_false (fun h => ?_) fun h => h.1 rfl
      cases hd : m.expiresAt <;> rw [hd] at h <;> cases h
    · rw [protocolProperties_storeProperties hempty]
      cases m.expiresAt with
      | none =>
        refine ⟨fun h => ⟨hempty, ?_⟩, fun ⟨_, hpart, hnone⟩ => ?_⟩
        · obtain h : storedPart p = p := Option.some.inj h
          have hnone : p.messageExpiryInterval = none := h ▸ rfl
          rw [hnone]
          exact ⟨h.symm, fun _ => rfl⟩
        · rw [hnone rfl] at hpart
          exact congrArg some hpart.symm
      | some t =>
        refine ⟨fun h => ⟨hempty, ?_, nofun⟩, fun ⟨_, hpart, _⟩ => ?_⟩
        · exact (congrArg (fun q : Properties =>
            { q with messageExpiryInterval := p.messageExpiryInterval }) (Option.some.inj h)).symm
        · exact congrArg (fun q : Properties => some
            { q with messageExpiryInterval := some (remainingExpiry t now) }) hpart.symm

/-- A staged message that is restored would be saved as it was. -/
theorem store_restoreInbound (m : InboundQoS2) : m.store.restoreInbound.store = m.store := by
  simp [InboundQoS2.store, InflightMessage.restoreInbound,
    Inbound.storeProperties_protocolProperties]

/-- Save and Restore keep the subscriptions, the options (those of a paired session, as every
session of a broker is: `paired_of_run`), the identifiers and the handshake stages of every
session, and all that a record holds of the inbound QoS 2 messages that are staged; they keep what
is sent again exactly if every delivery can be stored. -/
theorem restored_session_iff (s : Session) (inbound : Inbound) (saved now : ℕ) :
    (∀ f, (restore (s.save saved)).subscriptions.lookup f = s.subscriptions.lookup f) ∧
    (s.Paired → ∀ f,
      (restore (s.save saved)).subOptions.lookup f = s.subOptions.lookup f) ∧
    (∀ id, ((restore (s.save saved)).inflight.lookup id).map
        (fun m => (m.packetID, m.qos, m.pendingPubRel)) =
      (s.inflight.lookup id).map fun m => (m.packetID, m.qos, m.pendingPubRel)) ∧
    (∀ id, ((Inbound.restore inbound.save).inboundQoS2.lookup id).map InboundQoS2.store =
      (inbound.inboundQoS2.lookup id).map InboundQoS2.store) ∧
    ((∀ id, ((restore (s.save saved)).inflight.lookup id).map (buildRetransmitPublish · now) =
        (s.inflight.lookup id).map (buildRetransmitPublish · now)) ↔
      ∀ id m, s.inflight.lookup id = some m → m.Storable) := by
  have hlookup : ∀ id, (restore (s.save saved)).inflight.lookup id =
      (s.inflight.lookup id).map fun m => m.store.restore := by
    intro id
    rw [lookup_restore, lookup_save, Option.map_map]
    rfl
  refine ⟨subscriptions_restore_save s saved, fun h => h.restored saved, fun id => ?_,
    fun id => ?_, ?_⟩
  · rw [hlookup, Option.map_map]
    rfl
  · rw [Inbound.lookup_restore_save, Option.map_map]
    exact congrFun (congrArg Option.map (funext store_restoreInbound)) _
  · simp only [hlookup, Option.map_map]
    refine forall_congr' fun id => ?_
    cases s.inflight.lookup id with
    | none => simp
    | some m => simp [buildRetransmitPublish_restored_iff]

/-- A QoS 1 delivery whose only property is a Message Expiry Interval of a minute. -/
def expiringDelivery : InflightMsg where
  packetID := 1
  qos := 1
  topic := ascii "a"
  payload := []
  retain := false
  expiresAt := some (60 * second)
  properties := some { messageExpiryInterval := some 60 }

/-- It is what `doDeliver` puts in flight, and is sent again without the interval. -/
theorem interval_lost :
    (({ clientID := ascii "c", protocolVer := version50 } : Session).doDeliver
      { pkt := { fixedHeader := { packetType := .publish, qos := 1 }, topic := ascii "a" }
        deliverQoS := 1, subOpts := {}, subIDs := [], expiresAt := some (60 * second) }
      false 0).1.inflight.lookup 1 = some expiringDelivery ∧
    (buildRetransmitPublish expiringDelivery 0).properties =
      some { messageExpiryInterval := some 60 } ∧
    (buildRetransmitPublish expiringDelivery.store.restore 0).properties = none := by
  decide +kernel

end SharkMqtt.Broker
