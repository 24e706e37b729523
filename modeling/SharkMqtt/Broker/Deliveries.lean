import SharkMqtt.Broker.Outbound

/-!
# What an operation does to a delivery

A delivery has an entry in the session's `Inflight` and one in the engine. The functions of
`Outbound` are described by what they do to the two; `turns_run` says it of every operation,
for every client and identifier.
-/

namespace SharkMqtt.Broker

open Protocol Lib Function

variable {retainedDelivery : Bool}

namespace Session

def sends (s : Session) (msg : OutboundMsg) (now : ℕ) : Bool :=
  decide (msg.deliverQoS > 0) && !expired msg.expiresAt now && s.canSendOutbound

def numbered (s : Session) (msg : OutboundMsg) (retainedDelivery : Bool) (now : ℕ) :
    PublishPacket :=
  { s.outboundPublish msg retainedDelivery now with packetID := s.nextPacketID.1 }

def withSent (s : Session) (msg : OutboundMsg) (retainedDelivery : Bool) (now : ℕ) : Session :=
  (s.nextPacketID.2.addInflight (inflightOf msg (s.outboundPublish msg retainedDelivery now)
    s.nextPacketID.1)).incOutboundUnacked

variable {s : Session} {msg : OutboundMsg} {now : ℕ}

theorem doDeliver_of_sends (h : s.sends msg now = true) (retainedDelivery : Bool) :
    s.doDeliver msg retainedDelivery now =
      (s.withSent msg retainedDelivery now, some (s.numbered msg retainedDelivery now)) := by
  simp only [sends, Bool.and_eq_true, decide_eq_true_eq, Bool.not_eq_true'] at h
  obtain ⟨⟨hqos, hexp⟩, hopen⟩ := h
  simp [doDeliver, hexp, hopen, hqos, withSent, numbered]

theorem doDeliver_of_not_sends (h : s.sends msg now = false) (retainedDelivery : Bool) :
    (s.doDeliver msg retainedDelivery now).1.inflight = s.inflight ∧
      (s.doDeliver msg retainedDelivery now).1.packetIDSeq = s.packetIDSeq ∧
      ((s.doDeliver msg retainedDelivery now).2 = none ∨ msg.deliverQoS = 0) := by
  unfold doDeliver
  split_ifs with hexp hfull hqos
  · exact ⟨rfl, rfl, Or.inl rfl⟩
  · unfold bufferOutbound
    split_ifs <;> exact ⟨rfl, rfl, Or.inl rfl⟩
  · simp [sends, hqos, hexp] at h
    simp [hqos, h] at hfull
  · exact ⟨rfl, rfl, Or.inr (by omega)⟩

theorem doDeliver_outcome (s : Session) (msg : OutboundMsg) (retainedDelivery : Bool) (now : ℕ) :
    (s.sends msg now = true ∧ msg.deliverQoS > 0 ∧
        s.doDeliver msg retainedDelivery now =
          (s.withSent msg retainedDelivery now, some (s.numbered msg retainedDelivery now))) ∨
      (∃ s', s'.inflight = s.inflight ∧ s.doDeliver msg retainedDelivery now = (s', none)) ∨
      (∃ s' pub, s'.inflight = s.inflight ∧ msg.deliverQoS = 0 ∧
        s.doDeliver msg retainedDelivery now = (s', some pub)) := by
  cases hsends : s.sends msg now with
  | true =>
    refine Or.inl ⟨rfl, ?_, doDeliver_of_sends hsends retainedDelivery⟩
    simp only [sends, Bool.and_eq_true, decide_eq_true_eq] at hsends
    exact hsends.1.1
  | false =>
    obtain ⟨hsame, -, hout⟩ := doDeliver_of_not_sends hsends retainedDelivery
    refine Or.inr ?_
    cases hpub : (s.doDeliver msg retainedDelivery now).2 with
    | none => exact Or.inl ⟨_, hsame, Prod.ext rfl hpub⟩
    | some pub =>
      refine Or.inr ⟨_, pub, hsame, hout.resolve_left ?_, Prod.ext rfl hpub⟩
      rw [hpub]
      exact Option.some_ne_none pub

theorem doDeliver_qos_of_not_sends {pub : PublishPacket} (h : s.sends msg now = false)
    (hpub : (s.doDeliver msg retainedDelivery now).2 = some pub) : pub.fixedHeader.qos = 0 := by
  have hqos : msg.deliverQoS = 0 := by
    rcases (doDeliver_of_not_sends h retainedDelivery).2.2 with hnone | hqos
    · rw [hnone] at hpub
      cases hpub
    · exact hqos
  unfold doDeliver at hpub
  split_ifs at hpub with hexp hfull hpos
  · omega
  · cases hpub
    simp [outboundPublish, hqos]

theorem lookup_doDeliver {id : UInt16} {m : InflightMsg}
    (h : (s.doDeliver msg retainedDelivery now).1.inflight.lookup id = some m) :
    s.inflight.lookup id = some m ∨
      m = inflightOf msg (s.outboundPublish msg retainedDelivery now) s.nextPacketID.1 := by
  cases hsends : s.sends msg now with
  | true =>
    rw [doDeliver_of_sends hsends] at h
    have hinsert := (Keyed.lookup_insert s.inflight _ id).symm.trans h
    split_ifs at hinsert with hid
    · exact Or.inr (Option.some.inj hinsert).symm
    · exact Or.inl hinsert
  | false =>
    rw [(doDeliver_of_not_sends hsends retainedDelivery).1] at h
    exact Or.inl h

end Session

namespace Outbound

/-! ## Deliveries -/

section Deliveries

variable {b : Outbound} {c : Str} {s : Session} {msg : OutboundMsg} {retainedDelivery : Bool}
  {now : ℕ}

theorem deliverOn_cases (hin : ∀ id, b.inflightAt c id = s.inflight.lookup id) :
    ((b.deliverOn c s msg retainedDelivery now).1.engine = b.engine ∧
      ∀ c' id', (b.deliverOn c s msg retainedDelivery now).1.inflightAt c' id' =
        b.inflightAt c' id') ∨
      (s.sends msg now = true ∧
        (b.deliverOn c s msg retainedDelivery now).1.engine =
          trackDelivery b.engine c msg (s.numbered msg retainedDelivery now) now ∧
        ∀ c' id', (b.deliverOn c s msg retainedDelivery now).1.inflightAt c' id' =
          if c' = c ∧ id' = s.nextPacketID.1 then
            some (Session.inflightOf msg (s.outboundPublish msg retainedDelivery now)
              s.nextPacketID.1)
          else b.inflightAt c' id') := by
  have hsame : ∀ s' : Session, s'.inflight = s.inflight → ∀ c' id',
      (b.setSession c s').inflightAt c' id' = b.inflightAt c' id' := by
    intro s' hinflight c' id'
    rw [inflightAt_setSession]
    split_ifs with hc
    · rw [hinflight, hc, hin]
    · rfl
  unfold deliverOn
  rcases s.doDeliver_outcome msg retainedDelivery now with
    ⟨hsends, hqos, he⟩ | ⟨s', hinflight, he⟩ | ⟨s', pub, hinflight, hqos, he⟩
  · rw [he]
    simp only [if_pos hqos]
    refine Or.inr ⟨hsends, trivial, ?_⟩
    intro c' id'
    refine (inflightAt_setSession b c c' id' _).trans ?_
    by_cases hc : c' = c
    · rw [if_pos hc]
      refine (Keyed.lookup_insert s.inflight _ id').trans ?_
      simp only [hc, true_and, hin]
      rfl
    · simp [hc]
  · rw [he]
    exact Or.inl ⟨rfl, hsame s' hinflight⟩
  · rw [he]
    simp only [hqos, gt_iff_lt, Nat.lt_irrefl, if_false]
    exact Or.inl ⟨trivial, hsame s' hinflight⟩

theorem stored_deliverOn : (b.deliverOn c s msg retainedDelivery now).1.stored = b.stored := by
  unfold deliverOn
  simp only
  split <;> rfl

theorem sessions_deliverOn (c' : Str) :
    (b.deliverOn c s msg retainedDelivery now).1.sessions c' =
      if c' = c then some (s.doDeliver msg retainedDelivery now).1 else b.sessions c' := by
  rw [← sessions_setSession]
  unfold deliverOn
  simp only
  split <;> rfl

theorem lookup_trackDelivery (q : QoSEngine) (c : Str) (msg : OutboundMsg) (pub : PublishPacket)
    (now : ℕ) : ∃ e : QoSEngine.InflightMessage,
      e.qos = (if msg.deliverQoS = 1 then 1 else 2) ∧ e.state = .sent ∧
        ∀ c' id', (trackDelivery q c msg pub now).getInflight c' id' =
          if (c' = c ∧ id' = pub.packetID) ∧ q.hasRoom c = true then some e
          else q.getInflight c' id' := by
  unfold trackDelivery
  split_ifs
  · exact ⟨_, rfl, rfl, fun c' id' => q.getInflight_track c c' _ id' _ _ _ _ _ _⟩
  · exact ⟨_, rfl, rfl, fun c' id' => q.getInflight_track c c' _ id' _ _ _ _ _ _⟩

end Deliveries

/-! ## Acknowledgements and give-ups -/

section Acknowledgements

variable (b : Outbound) (q : QoSEngine) (c c' : Str) (id id' : UInt16)

theorem inflightAt_settled :
    ({ b.onSession c (·.settle id) with engine := q } : Outbound).inflightAt c' id' =
      if c' = c ∧ id' = id then none else b.inflightAt c' id' := by
  refine (b.inflightAt_onSession c c' id' _).trans ?_
  by_cases hc : c' = c
  · subst hc
    unfold inflightAt
    cases b.sessions c' with
    | none => simp
    | some s => simp [Session.lookup_settle]
  · simp [hc]

theorem inflightAt_marked :
    ({ b.onSession c (·.markInflightPubRel id) with engine := q } : Outbound).inflightAt c' id' =
      (b.inflightAt c' id').map fun msg =>
        if (c' = c ∧ id' = id) ∧ msg.qos = 2 then { msg with pendingPubRel := true } else msg := by
  refine (b.inflightAt_onSession c c' id' _).trans ?_
  by_cases hc : c' = c
  · subst hc
    unfold inflightAt
    cases b.sessions c' with
    | none => simp
    | some s => simp [Session.lookup_markInflightPubRel]
  · simp [hc]

theorem inflightAt_giveUp (item : Str × UInt16) :
    (b.giveUp item).inflightAt c' id' = if (c', id') = item then none else b.inflightAt c' id' := by
  obtain ⟨c, id⟩ := item
  simp only [Prod.mk.injEq]
  exact b.inflightAt_settled b.engine c c' id id'

theorem inflightAt_giveUps (items : List (Str × UInt16)) (b : Outbound) :
    (items.foldl giveUp b).inflightAt c' id' =
      if (c', id') ∈ items then none else b.inflightAt c' id' := by
  refine (foldl_writes (inflightAt · c' id') items
    (fun b item => inflightAt_giveUp b c' id' item) b).trans ?_
  simp

theorem giveUps_frame (items : List (Str × UInt16)) : ∀ b : Outbound,
    (items.foldl giveUp b).engine = b.engine ∧ (items.foldl giveUp b).stored = b.stored ∧
      ∀ c, (items.foldl giveUp b).sessions c = none ↔ b.sessions c = none := by
  intro b
  refine ⟨?_, ?_, fun c => Eq.to_iff ?_⟩
  · exact foldl_keeps engine (fun b item _ => b.engine_onSession item.1 _) b
  · exact foldl_keeps stored (fun b item _ => b.stored_onSession item.1 _) b
  · exact foldl_keeps (sessions · c = none)
      (fun b item _ => propext (b.sessions_onSession_eq_none item.1 c _)) b

theorem doRetry_frame (now : ℕ) :
    (b.doRetry now).1.engine = (b.engine.collect now).engine ∧
      (b.doRetry now).1.stored = b.stored ∧
      ∀ c, (b.doRetry now).1.sessions c = none ↔ b.sessions c = none :=
  giveUps_frame (b.engine.collect now).toReport { b with engine := (b.engine.collect now).engine }

end Acknowledgements

/-! ## Restoring a session -/

variable {c' : Str}

section Restoring

variable {q : QoSEngine} {c : Str}

theorem hasRoom_iff :
    q.hasRoom c = true ↔ q.maxInflight = 0 ∨ (q.tableOf c).size < q.maxInflight := by
  unfold QoSEngine.hasRoom
  simp only [Bool.not_eq_true', Bool.and_eq_false_iff, decide_eq_false_iff_not]
  omega

/-- The entry a delivery is tracked with again. -/
structure RestoredAs (msg : InflightMsg) (e : QoSEngine.InflightMessage) : Prop where
  qos : e.qos = if msg.qos = 2 then 2 else 1
  acked : e.state = .acked ↔ msg.qos = 2 ∧ msg.pendingPubRel = true

variable (now : ℕ)

theorem lookup_restoreEntry (q : QoSEngine) (c : Str) (msg : InflightMsg) :
    ∃ e, RestoredAs msg e ∧
      ∀ c' id', (restoreEntry c now q msg).getInflight c' id' =
        if (c' = c ∧ id' = msg.packetID) ∧ q.hasRoom c = true then some e
        else q.getInflight c' id' := by
  have htrack := fun qos c' id' =>
    q.getInflight_track c c' msg.packetID id' msg.topic msg.payload msg.retain qos true now
  unfold restoreEntry
  split_ifs with hq hpending
  · -- the entry is tracked as sent, then marked
    have hok : (q.track c msg.packetID msg.topic msg.payload msg.retain 2 true now).1 =
        q.hasRoom c := by
      unfold QoSEngine.track
      split_ifs with hroom <;> simp [hroom]
    unfold QoSEngine.trackOutboundQoS2AwaitingPubComp QoSEngine.trackOutboundQoS2
    refine ⟨{ q.newEntry c msg.packetID msg.topic msg.payload msg.retain 2 true now with
      state := .acked }, ⟨(if_pos hq).symm, by simp [hq, hpending]⟩, fun c' id' => ?_⟩
    simp only [hok]
    by_cases hroom : q.hasRoom c = true
    · rw [if_pos hroom, QoSEngine.getInflight_markAcked]
      by_cases hsame : c' = c ∧ id' = msg.packetID
      · simp [hsame, htrack, hroom]
      · simp [hsame, htrack]
    · simp [htrack, hroom]
  · exact ⟨_, ⟨(if_pos hq).symm, by simp [hpending, QoSEngine.newEntry]⟩, htrack 2⟩
  · exact ⟨_, ⟨(if_neg hq).symm, by simp [hq, QoSEngine.newEntry]⟩, htrack 1⟩

theorem size_tableOf_restoreEntry (q : QoSEngine) (c : Str) (now : ℕ) (msg : InflightMsg) :
    (restoreEntry c now q msg).maxInflight = q.maxInflight ∧
      ((restoreEntry c now q msg).tableOf c).size ≤ (q.tableOf c).size + 1 := by
  constructor
  · unfold restoreEntry QoSEngine.trackOutboundQoS2AwaitingPubComp QoSEngine.trackOutboundQoS2
      QoSEngine.trackOutboundQoS1
    simp only
    split_ifs <;> simp
  · refine QoSEngine.size_tableOf_le msg.packetID fun id' hid' => ?_
    obtain ⟨e, -, hview⟩ := lookup_restoreEntry now q c msg
    rw [hview] at hid'
    split_ifs at hid' with hsame
    · exact Or.inl hsame.1.2
    · exact Or.inr hid'

theorem getInflight_restoreEntries {now : ℕ} {id' : UInt16} (msgs : List InflightMsg)
    (q : QoSEngine) (hother : ∀ msg ∈ msgs, ¬ (c' = c ∧ id' = msg.packetID)) :
    (msgs.foldl (restoreEntry c now) q).getInflight c' id' = q.getInflight c' id' := by
  refine foldl_keeps (QoSEngine.getInflight · c' id') (fun q msg hmsg => ?_) q
  obtain ⟨e, -, hview⟩ := lookup_restoreEntry now q c msg
  rw [hview, if_neg fun hsame => hother msg hmsg hsame.1]

theorem restoreEntries_tracked (msgs : List InflightMsg) : ∀ q : QoSEngine,
    (msgs.map InflightMsg.packetID).Nodup →
    (q.maxInflight = 0 ∨ (q.tableOf c).size + msgs.length ≤ q.maxInflight) →
      ∀ msg ∈ msgs, ∃ e,
        (msgs.foldl (restoreEntry c now) q).getInflight c msg.packetID = some e ∧
          RestoredAs msg e := by
  induction msgs with
  | nil => simp
  | cons first rest ih =>
    intro q hnodup hfit msg hmsg
    rw [List.map_cons, List.nodup_cons] at hnodup
    rw [List.foldl_cons]
    obtain ⟨hmax, hsize⟩ := size_tableOf_restoreEntry q c now first
    rcases List.mem_cons.mp hmsg with rfl | hmsg
    · have hroom : q.hasRoom c = true := by
        rw [hasRoom_iff]
        rw [List.length_cons] at hfit
        omega
      obtain ⟨e, he, hview⟩ := lookup_restoreEntry now q c msg
      refine ⟨e, ?_, he⟩
      rw [getInflight_restoreEntries rest, hview, if_pos ⟨⟨rfl, rfl⟩, hroom⟩]
      rintro m hm ⟨-, hid⟩
      exact hnodup.1 (hid ▸ List.mem_map_of_mem hm)
    · refine ih _ hnodup.2 ?_ msg hmsg
      rw [List.length_cons] at hfit
      omega

/-- Whether or not there is room, an entry of the client afterwards was there
before or tracks one of the deliveries. -/
theorem restoreEntries_sound (msgs : List InflightMsg) : ∀ (q : QoSEngine) (id : UInt16)
    (e : QoSEngine.InflightMessage),
    (msgs.foldl (restoreEntry c now) q).getInflight c id = some e →
      q.getInflight c id = some e ∨ ∃ msg ∈ msgs, msg.packetID = id ∧ RestoredAs msg e := by
  induction msgs with
  | nil => exact fun _ _ _ h => Or.inl h
  | cons first rest ih =>
    intro q id e h
    rcases ih _ id e h with hfirst | ⟨msg, hmsg, hid, he⟩
    · obtain ⟨e', he', hview⟩ := lookup_restoreEntry now q c first
      rw [hview] at hfirst
      split_ifs at hfirst with hsame
      · cases hfirst
        exact Or.inr ⟨first, List.mem_cons_self, hsame.1.2.symm, he'⟩
      · exact Or.inl hfirst
    · exact Or.inr ⟨msg, List.mem_cons_of_mem _ hmsg, hid, he⟩

end Restoring

/-! ## Connecting and disconnecting -/

variable {s : Session}

section Connecting

variable (opts : Options) (b : Outbound) (pkt : ConnectPacket) (now : ℕ) {data : SessionData}

theorem mem_inflightMsgs {msg : InflightMsg} :
    msg ∈ s.inflight.table.entries.map Sigma.snd ↔ s.inflight.lookup msg.packetID = some msg := by
  rw [List.mem_map]
  constructor
  · rintro ⟨⟨id, m⟩, he, rfl⟩
    have hid : m.packetID = id := s.inflight.key_of_mem_entries he
    exact AList.mem_lookup_iff.mpr (hid ▸ he)
  · intro h
    exact ⟨⟨msg.packetID, msg⟩, AList.mem_lookup_iff.mp h, rfl⟩

theorem nodup_inflightMsgs (s : Session) :
    ((s.inflight.table.entries.map Sigma.snd).map InflightMsg.packetID).Nodup := by
  have hkeys : (s.inflight.table.entries.map Sigma.snd).map InflightMsg.packetID =
      s.inflight.table.keys := by
    rw [List.map_map]
    exact List.map_congr_left fun e he => s.inflight.key_of_mem_entries he
  rw [hkeys]
  exact s.inflight.table.keys_nodup

theorem inflightAt_connect (c' : Str) (id' : UInt16) :
    (b.connect opts pkt now).1.inflightAt c' id' =
      if c' = pkt.clientID then
        (resumed (b.client pkt.clientID) pkt).bind (·.inflight.lookup id')
      else b.inflightAt c' id' := by
  unfold inflightAt connect Broker.connect
  simp only [update_apply]
  split_ifs with hc
  · cases resumed (b.client pkt.clientID) pkt <;> rfl
  · rfl

/-- The session a connect goes on with: the one in memory, or else the one in the
store. -/
theorem resumed_eq_some {b : Outbound} {pkt : ConnectPacket} :
    resumed (b.client pkt.clientID) pkt = some s ↔
      pkt.flags.cleanSession = false ∧
        (b.sessions pkt.clientID = some s ∨
          b.sessions pkt.clientID = none ∧
            ∃ data, b.stored pkt.clientID = some data ∧ restore data = s) := by
  unfold resumed client
  cases pkt.flags.cleanSession with
  | true => simp
  | false =>
    cases b.sessions pkt.clientID with
    | none | some => simp

theorem lookup_restore (data : SessionData) (id : UInt16) :
    (restore data).inflight.lookup id = (data.inflight.lookup id).map InflightMessage.restore :=
  Keyed.lookup_map data.inflight InflightMsg.packetID InflightMessage.restore (fun _ => rfl) id

theorem lookup_save (s : Session) (id : UInt16) :
    (s.save now).inflight.lookup id = (s.inflight.lookup id).map InflightMsg.store :=
  Keyed.lookup_map s.inflight InflightMessage.packetID InflightMsg.store (fun _ => rfl) id

theorem sessions_disconnect (c c' : Str) :
    (b.disconnect c now).sessions c' = if c' = c then none else b.sessions c' := by
  refine (update_apply _ c _ c').trans ?_
  split_ifs
  · unfold Broker.disconnect client
    cases b.sessions c <;> rfl
  · rfl

theorem inflightAt_disconnect (c c' : Str) (id' : UInt16) :
    (b.disconnect c now).inflightAt c' id' = if c' = c then none else b.inflightAt c' id' := by
  unfold inflightAt
  rw [sessions_disconnect]
  split_ifs <;> rfl

theorem stored_disconnect {c : Str} (h : (b.disconnect c now).stored c' = some data) :
    (b.stored c' = some data ∧ (c' = c → b.sessions c' = none)) ∨
      ∃ s, b.sessions c' = some s ∧ data = s.save now := by
  unfold disconnect Broker.disconnect client at h
  simp only [update_apply] at h
  split_ifs at h with hc
  · subst hc
    cases hs : b.sessions c' with
    | none =>
      rw [hs] at h
      exact Or.inl ⟨h, fun _ => rfl⟩
    | some s =>
      rw [hs] at h
      simp only at h
      split_ifs at h
      cases h
      exact Or.inr ⟨s, rfl, rfl⟩
  · exact Or.inl ⟨h, fun hsame => absurd hsame hc⟩

theorem sessions_connect_eq_none :
    (b.connect opts pkt now).1.sessions c' = none ↔ c' ≠ pkt.clientID ∧ b.sessions c' = none := by
  unfold connect
  simp only [update_apply]
  split_ifs with hc
  · simp [hc, Broker.connect]
  · simp [hc]

theorem mem_connect {w : Written} (hw : w ∈ (b.connect opts pkt now).2) :
    ∃ s, resumed (b.client pkt.clientID) pkt = some s ∧
      w ∈ resendSessionInflight pkt.clientID s now := by
  unfold connect at hw
  dsimp only at hw
  split at hw
  · cases hw
  next s hres => exact ⟨s, hres, hw⟩

theorem stored_connect (h : (b.connect opts pkt now).1.stored c' = some data) :
    b.stored c' = some data := by
  unfold connect Broker.connect client at h
  simp only [update_apply] at h
  split_ifs at h with hc hclean
  · rw [hc]
    exact h
  · exact h

theorem getInflight_resumedEngine_ne {b : Outbound} {pkt : ConnectPacket} {c : Str} {now : ℕ}
    (hc : c ≠ pkt.clientID) (id : UInt16) :
    (b.resumedEngine pkt now).getInflight c id = b.engine.getInflight c id := by
  unfold resumedEngine
  split_ifs
  · rfl
  · split
    · exact getInflight_restoreEntries _ _ fun msg _ hsame => hc hsame.1
    · rfl

end Connecting

/-! ## What an operation does to one delivery -/

def Op.offers (s : Session) (c : Str) (msg : OutboundMsg) (now : ℕ) : Op → Prop
  | .deliver c' msg' _ now' => c' = c ∧ msg' = msg ∧ now' = now
  | .flush c' now' => c' = c ∧ s.outboundQueue.head? = some msg ∧ now' = now
  | _ => False

/-- The entry of an identifier in `Inflight`, and the one the engine has for it. -/
inductive Turns (b b' : Outbound) (op : Op) (c : Str) (id : UInt16) : Prop
  | kept (hm : b'.inflightAt c id = b.inflightAt c id)
      (he : b'.engine.getInflight c id = b.engine.getInflight c id)
  | sent {s : Session} {msg : OutboundMsg} {pub : PublishPacket} {now : ℕ}
      {e : QoSEngine.InflightMessage} (hs : b.sessions c = some s) (hid : id = s.nextPacketID.1)
      (hop : op.offers s c msg now) (hsends : s.sends msg now = true)
      (hm : b'.inflightAt c id = some (Session.inflightOf msg pub id))
      (hqos : e.qos = if msg.deliverQoS = 1 then 1 else 2) (hstate : e.state = .sent)
      (he : b'.engine.getInflight c id =
        if b.engine.hasRoom c = true then some e else b.engine.getInflight c id)
  | ended (hm : b'.inflightAt c id = none) (he : b'.engine.getInflight c id = none)
      (hend : op.settles c id ∨ b'.sessions c = none ∨
        ∃ now, op = .tick now ∧ (c, id) ∈ (b.engine.collect now).toReport)
  | marked {reasonCode : UInt8} (hop : op = .pubRec c id reasonCode) (haccept : reasonCode < 0x80)
      (hm : b'.inflightAt c id = (b.inflightAt c id).map fun msg =>
        if msg.qos = 2 then { msg with pendingPubRel := true } else msg)
      (he : b'.engine.getInflight c id =
        (b.engine.getInflight c id).map fun e => { e with state := .acked })
  | retried {e e' : QoSEngine.InflightMessage} (hm : b'.inflightAt c id = b.inflightAt c id)
      (he : b.engine.getInflight c id = some e) (he' : b'.engine.getInflight c id = some e')
      (hqos : e'.qos = e.qos) (hstate : e'.state = e.state)
  | restored {pkt : ConnectPacket} {now : ℕ} {data : SessionData} (hop : op = .connect pkt now)
      (hc : pkt.clientID = c) (hclean : pkt.flags.cleanSession = false)
      (hs : b.sessions c = none) (hdata : b.stored c = some data)
      (hm : b'.inflightAt c id = (restore data).inflight.lookup id)
      (he : b'.engine = restoreSessionInflight (b.engine.setClientVersion c pkt.protocolVersion) c
        (restore data) now)
  | cleaned {pkt : ConnectPacket} {now : ℕ} (hop : op = .connect pkt now) (hc : pkt.clientID = c)
      (hclean : pkt.flags.cleanSession = true) (hm : b'.inflightAt c id = none)
      (he : b'.engine.getInflight c id = b.engine.getInflight c id)

section Turns

variable {b : Outbound} {op : Op} {c c' : Str} {id id' : UInt16}

theorem turns_deliverOn {s₀ s : Session} {msg : OutboundMsg} {now : ℕ} {retainedDelivery : Bool}
    (hs₀ : b.sessions c = some s₀) (hs : s.inflight = s₀.inflight)
    (hid : s.nextPacketID.1 = s₀.nextPacketID.1) (hop : op.offers s₀ c msg now)
    (hsends : s.sends msg now = true → s₀.sends msg now = true) :
    Turns b (b.deliverOn c s msg retainedDelivery now).1 op c' id' := by
  have hin : ∀ id, b.inflightAt c id = s.inflight.lookup id := by
    intro id
    rw [inflightAt, hs₀, hs]
    rfl
  rcases deliverOn_cases hin with ⟨hengine, hview⟩ | ⟨hsent, hengine, hview⟩
  · exact .kept (hview c' id') (by rw [hengine])
  · obtain ⟨e, hqos, hstate, htrack⟩ :=
      lookup_trackDelivery b.engine c msg (s.numbered msg retainedDelivery now) now
    by_cases hsame : c' = c ∧ id' = s.nextPacketID.1
    · obtain ⟨rfl, rfl⟩ := hsame
      refine .sent hs₀ hid hop (hsends hsent) ((hview _ _).trans (if_pos ⟨rfl, rfl⟩)) hqos hstate ?_
      rw [hengine, htrack]
      exact if_congr (and_iff_right ⟨rfl, rfl⟩) rfl rfl
    · refine .kept ((hview _ _).trans (if_neg hsame)) ?_
      rw [hengine, htrack, if_neg fun h => hsame h.1]

theorem turns_tick (b : Outbound) (now : ℕ) (c : Str) (id : UInt16) :
    Turns b (b.doRetry now).1 (.tick now) c id := by
  have hm : (b.doRetry now).1.inflightAt c id = _ := inflightAt_giveUps c id _ _
  have he : (b.doRetry now).1.engine.getInflight c id =
      (b.engine.getInflight c id).bind (b.engine.visited now c) := by
    rw [(b.doRetry_frame now).1, QoSEngine.getInflight_collect]
  by_cases hreport : (c, id) ∈ (b.engine.collect now).toReport
  · rw [if_pos hreport] at hm
    obtain ⟨e, hget, hfate⟩ := (b.engine.mem_toReport c id).mp hreport
    refine .ended hm ?_ (Or.inr (Or.inr ⟨now, rfl, hreport⟩))
    rw [he, hget, Option.bind_some, QoSEngine.visited, hfate]
  · rw [if_neg hreport] at hm
    cases hget : b.engine.getInflight c id with
    | none => exact .kept hm (by rw [he, hget]; rfl)
    | some e =>
      have hfate : b.engine.fate now c e ≠ .giveUp := fun hfate =>
        hreport ((b.engine.mem_toReport c id).mpr ⟨e, hget, hfate⟩)
      obtain ⟨e', hvisited, hqos, hstate, -⟩ := b.engine.visited_of_kept c hfate
      exact .retried hm hget (by rw [he, hget]; exact hvisited) hqos hstate

theorem turns_connect (b : Outbound) (opts : Options) (pkt : ConnectPacket) (now : ℕ) (c : Str)
    (id : UInt16) : Turns b (b.connect opts pkt now).1 (.connect pkt now) c id := by
  have hm := b.inflightAt_connect opts pkt now c id
  have he : (b.connect opts pkt now).1.engine = b.resumedEngine pkt now := rfl
  by_cases hc : c = pkt.clientID
  · subst hc
    rw [if_pos rfl] at hm
    cases hclean : pkt.flags.cleanSession with
    | true =>
      refine .cleaned rfl rfl hclean ?_ ?_
      · rw [hm, resumed, hclean]
        rfl
      · rw [he, resumedEngine, hclean]
        rfl
    | false =>
      cases hs : b.sessions pkt.clientID with
      | some s =>
        refine .kept ?_ ?_
        · rw [hm, resumed_eq_some.mpr ⟨hclean, Or.inl hs⟩, inflightAt, hs]
        · rw [he, resumedEngine, hclean, hs]
          rfl
      | none =>
        cases hdata : b.stored pkt.clientID with
        | some data =>
          refine .restored rfl rfl hclean hs hdata ?_ ?_
          · rw [hm, resumed_eq_some.mpr ⟨hclean, Or.inr ⟨hs, data, hdata, rfl⟩⟩]
            rfl
          · rw [he, resumedEngine, hclean, hs, hdata]
            rfl
        | none =>
          refine .kept ?_ ?_
          · rw [hm, inflightAt, hs, resumed, client, hs, hdata, hclean]
            rfl
          · rw [he, resumedEngine, hclean, hs, hdata]
            rfl
  · rw [if_neg hc] at hm
    exact .kept hm (getInflight_resumedEngine_ne hc id)

theorem turns_run (b : Outbound) (opts : Options) (op : Op) (c : Str) (id : UInt16) :
    Turns b (b.run opts op).1 op c id := by
  have hacts := b.acts_run opts op
  generalize b.run opts op = r at hacts
  cases hacts with
  | idle => exact .kept rfl rfl
  | deliver hs => exact turns_deliverOn hs rfl rfl ⟨rfl, rfl, rfl⟩ fun h => h
  | flush hs hq => exact turns_deliverOn hs rfl rfl ⟨rfl, by rw [hq]; rfl, rfl⟩ fun h => h
  | settle c' id' hop =>
    have hm := b.inflightAt_settled (b.engine.untrack c' id') c' c id' id
    have he := b.engine.getInflight_untrack c' c id' id
    by_cases hsame : c = c' ∧ id = id'
    · rw [if_pos hsame] at hm he
      exact .ended hm he (Or.inl (by rw [hsame.1, hsame.2]; exact hop))
    · rw [if_neg hsame] at hm he
      exact .kept hm he
  | @mark c' id' _ haccept =>
    have hm := b.inflightAt_marked (b.engine.ackPubRec c' id').2 c' c id' id
    have he := b.engine.getInflight_markAcked c' c id' id
    by_cases hsame : c = c' ∧ id = id'
    · obtain ⟨rfl, rfl⟩ := hsame
      simp only [and_self, true_and] at hm
      exact .marked rfl haccept hm (he.trans (if_pos ⟨rfl, rfl⟩))
    · refine .kept (hm.trans ?_) (he.trans (if_neg hsame))
      simp [hsame]
  | tick now => exact turns_tick b now c id
  | connect pkt now => exact turns_connect b opts pkt now c id
  | disconnect c' now =>
    have hm := b.inflightAt_disconnect now c' c id
    have he := b.engine.getInflight_removeClient c' c id
    by_cases hc : c = c'
    · rw [if_pos hc] at hm he
      refine .ended hm he (Or.inr (Or.inl ?_))
      rw [sessions_disconnect, if_pos hc]
    · rw [if_neg hc] at hm he
      exact .kept hm he

theorem sessions_run_eq_none {opts : Options} (h : (b.run opts op).1.sessions c = none) :
    b.sessions c = none ∨ ∃ now, op = .disconnect c now := by
  have hacts := b.acts_run opts op
  generalize b.run opts op = r at hacts h
  cases hacts with
  | idle => exact Or.inl h
  | deliver | flush =>
    rw [sessions_deliverOn] at h
    split_ifs at h
    exact Or.inl h
  | settle | mark => exact Or.inl ((b.sessions_onSession_eq_none _ c _).mp h)
  | tick now => exact Or.inl (((b.doRetry_frame now).2.2 c).mp h)
  | connect pkt now => exact Or.inl ((b.sessions_connect_eq_none opts pkt now).mp h).2
  | disconnect c' now =>
    rw [sessions_disconnect] at h
    split_ifs at h with hc
    · exact Or.inr ⟨now, by rw [hc]⟩
    · exact Or.inl h

end Turns

end Outbound

end SharkMqtt.Broker
