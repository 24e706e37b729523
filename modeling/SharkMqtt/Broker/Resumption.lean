import SharkMqtt.Protocol.Layout
import SharkMqtt.Broker.Handshakes

/-!
# Resuming a session under another version

A session outlives its connections, and its next connection may speak another version.
The first delivery of a message is built for the version the session has at that time;
what is resent (`buildRetransmitPublish`) replays the properties chosen then.

`Session.Fit` says that everything a session has to send can be sent in its version. The
operations of a connection keep it (`fit_whileConnected`); a resumption keeps it when it
is `Portable`. All that the machine of `Outbound` writes is then accepted by an encoder
of the version of the session.
-/

namespace SharkMqtt.Broker

open Protocol Lib

/-! ## Properties of a delivery -/

variable {o : Option Properties} {s : Session}

/-- A section whose values are another's, or are acceptable in themselves. -/
theorem SectionAccepted.relay {locus : Locus} {o' : Option Properties} (h : SectionAccepted locus o)
    (hvalues : ∀ q ∈ o', ∀ id, ∀ v ∈ q.get id, (∃ p ∈ o, v ∈ p.get id) ∨ ItemAccepted locus ⟨id, v⟩) :
    SectionAccepted locus o' := by
  intro q hq i hi
  rcases hvalues q hq i.1 i.2 (Properties.mem_items.mp hi) with ⟨p, hp, hv⟩ | hok
  · exact h p hp i (Properties.mem_items.mpr hv)
  · exact hok

theorem accepted_messageExpiryInterval (v : UInt32) :
    ItemAccepted .publish ⟨.messageExpiryInterval, v⟩ :=
  ⟨List.mem_cons_self, rfl, trivial⟩

theorem accepted_subscriptionIdentifier {v : UInt32} (hv : v ≠ 0) :
    ItemAccepted .publish ⟨.subscriptionIdentifier, v⟩ :=
  ⟨List.mem_cons_self, decide_eq_false hv, trivial⟩

theorem forwardedPublishProperties_accepted {props : Option Properties} {subIDs : List UInt32}
    (h : SectionAccepted .publish props) (hids : ∀ id ∈ subIDs, id ≠ 0) (expiresAt : Option ℕ)
    (now : ℕ) :
    SectionAccepted .publish (forwardedPublishProperties props subIDs expiresAt now) := by
  apply SectionAccepted.relay h
  intro q hq id v hv
  unfold forwardedPublishProperties at hq
  -- by identifier: relayed from the publisher, set for this subscriber, or absent
  cases props with
  | none =>
    split_ifs at hq <;> cases hq
    cases id with
    | subscriptionIdentifier => exact .inr (accepted_subscriptionIdentifier (hids v hv))
    | messageExpiryInterval => exact .inr (accepted_messageExpiryInterval v)
    | _ => cases hv
  | some p =>
    simp only at hq
    split_ifs at hq <;> cases hq <;> cases id <;>
      first
      | exact .inl ⟨p, rfl, hv⟩
      | exact .inr (accepted_subscriptionIdentifier (hids v hv))
      | exact .inr (accepted_messageExpiryInterval v)
      | cases hv

theorem storedProperties_accepted (h : SectionAccepted .publish o) :
    SectionAccepted .publish (protocolProperties (storeProperties o)) := by
  apply SectionAccepted.relay h
  intro q hq id v hv
  unfold protocolProperties at hq
  split_ifs at hq with hnone <;> cases hq
  cases o with
  | none => exact absurd ⟨rfl, rfl, rfl, rfl, rfl, rfl⟩ hnone
  | some p => cases id <;> first | exact .inl ⟨p, rfl, hv⟩ | cases hv

theorem refreshedProperties_accepted {msg : InflightMsg}
    (h : SectionAccepted .publish msg.properties) (now : ℕ) :
    SectionAccepted .publish (Outbound.buildRetransmitPublish msg now).properties := by
  apply SectionAccepted.relay h
  intro q hq id v hv
  unfold Outbound.buildRetransmitPublish at hq
  split at hq
  next props t hprops hexp =>
    cases hq
    cases id with
    | messageExpiryInterval => exact .inr (accepted_messageExpiryInterval v)
    | _ => exact .inl ⟨props, hprops, hv⟩
  · exact .inl ⟨q, hq, hv⟩

/-! ## Messages and entries -/

/-- A message as `deliverToClient` hands it on: the decoder, or the check of a will or of a
retained message, has seen its topic and its properties. -/
structure OutboundMsg.Deliverable (msg : OutboundMsg) : Prop where
  qos : msg.deliverQoS ≤ 2
  topicValid : validatePublishTopic msg.pkt.topic = true
  topic : WireString msg.pkt.topic
  properties : SectionAccepted .publish msg.pkt.properties
  subIDs : ∀ id ∈ msg.subIDs, id ≠ 0

/-- An entry of `Inflight` that can be sent again under 5.0. -/
structure InflightMsg.Resendable (m : InflightMsg) : Prop where
  packetID : m.packetID ≠ 0
  qos : m.qos = 1 ∨ m.qos = 2
  topicValid : validatePublishTopic m.topic = true
  topic : WireString m.topic
  properties : SectionAccepted .publish m.properties

/-- Everything the session has to send, it can send in its version. -/
structure Session.Fit (s : Session) : Prop where
  seq : s.packetIDSeq ≠ 0
  queue : ∀ msg ∈ s.outboundQueue, msg.Deliverable
  inflight : ∀ id m, s.inflight.lookup id = some m → m.Resendable
  version : (specFor s.protocolVer).properties = false →
    ∀ id m, s.inflight.lookup id = some m → m.properties = none

def SessionData.Fit (data : SessionData) : Prop :=
  ∀ id m, data.inflight.lookup id = some m → m.restore.Resendable

theorem InflightMsg.Resendable.stored {m : InflightMsg} (h : m.Resendable) :
    m.store.restore.Resendable :=
  { h with properties := storedProperties_accepted h.properties }

namespace Session

variable {s : Session} {msg : OutboundMsg}

theorem outboundPublish_properties_accepted (hmsg : msg.Deliverable) (s : Session)
    (retainedDelivery : Bool) (now : ℕ) :
    SectionAccepted .publish (s.outboundPublish msg retainedDelivery now).properties := by
  unfold outboundPublish
  split_ifs
  · exact forwardedPublishProperties_accepted hmsg.properties hmsg.subIDs _ now
  · rintro p ⟨⟩

theorem outboundPublish_properties_none (h : (specFor s.protocolVer).properties = false)
    (msg : OutboundMsg) (retainedDelivery : Bool) (now : ℕ) :
    (s.outboundPublish msg retainedDelivery now).properties = none := by
  simp [outboundPublish, h]

theorem settle_frame (s : Session) (id : UInt16) :
    (s.settle id).packetIDSeq = s.packetIDSeq ∧ (s.settle id).outboundQueue = s.outboundQueue ∧
      (s.settle id).protocolVer = s.protocolVer := by
  unfold settle removeInflight
  split_ifs <;> exact ⟨rfl, rfl, rfl⟩

theorem markInflightPubRel_frame (s : Session) (id : UInt16) :
    (s.markInflightPubRel id).packetIDSeq = s.packetIDSeq ∧
      (s.markInflightPubRel id).outboundQueue = s.outboundQueue ∧
      (s.markInflightPubRel id).protocolVer = s.protocolVer := by
  obtain ⟨table, heq, -⟩ := s.markInflightPubRel_eq id
  rw [heq]
  exact ⟨rfl, rfl, rfl⟩

/-- `inflight` and `version`, entry by entry. -/
theorem fit_of_entries (hseq : s.packetIDSeq ≠ 0) (hqueue : ∀ msg ∈ s.outboundQueue, msg.Deliverable)
    (h : ∀ id m, s.inflight.lookup id = some m →
      m.Resendable ∧ ((specFor s.protocolVer).properties = false → m.properties = none)) : s.Fit :=
  ⟨hseq, hqueue, fun id m hm => (h id m hm).1, fun hspec id m hm => (h id m hm).2 hspec⟩

theorem Fit.settle (h : s.Fit) (id : UInt16) : (s.settle id).Fit := by
  obtain ⟨hseq, hqueue, hver⟩ := s.settle_frame id
  refine fit_of_entries (hseq ▸ h.seq) (hqueue ▸ h.queue) fun id' m hm => ?_
  rw [lookup_settle] at hm
  split_ifs at hm
  rw [hver]
  exact ⟨h.inflight id' m hm, fun hspec => h.version hspec id' m hm⟩

theorem Fit.mark (h : s.Fit) (id : UInt16) : (s.markInflightPubRel id).Fit := by
  obtain ⟨hseq, hqueue, hver⟩ := s.markInflightPubRel_frame id
  refine fit_of_entries (hseq ▸ h.seq) (hqueue ▸ h.queue) fun id' m hm => ?_
  rw [lookup_markInflightPubRel] at hm
  obtain ⟨m₀, hm₀, rfl⟩ := Option.map_eq_some_iff.mp hm
  rw [hver]
  split_ifs
  · exact ⟨{ h.inflight id' m₀ hm₀ with }, fun hspec => h.version hspec id' m₀ hm₀⟩
  · exact ⟨h.inflight id' m₀ hm₀, fun hspec => h.version hspec id' m₀ hm₀⟩

theorem Fit.buffer (h : s.Fit) (hmsg : msg.Deliverable) : (s.bufferOutbound msg).2.Fit := by
  unfold bufferOutbound
  split_ifs
  · exact h
  · exact { h with
      queue := forall_mem_snoc h.queue hmsg }

theorem Fit.withSent (h : s.Fit) (hmsg : msg.Deliverable) (hpos : 0 < msg.deliverQoS)
    (retainedDelivery : Bool) (now : ℕ) : (s.withSent msg retainedDelivery now).Fit := by
  refine fit_of_entries (scanPacketID_seq s.inUse 65535 s.packetIDSeq) h.queue fun id m hm => ?_
  have hinsert := (Keyed.lookup_insert s.inflight _ id).symm.trans hm
  split_ifs at hinsert
  · cases hinsert
    refine ⟨⟨scanPacketID_ne_zero s.inUse 65535 h.seq, ?_, hmsg.topicValid, hmsg.topic,
      outboundPublish_properties_accepted hmsg s retainedDelivery now⟩,
      fun hspec => outboundPublish_properties_none hspec msg retainedDelivery now⟩
    have hle := hmsg.qos
    show msg.deliverQoS = 1 ∨ msg.deliverQoS = 2
    omega
  · exact ⟨h.inflight id m hinsert, fun hspec => h.version hspec id m hinsert⟩

theorem Fit.doDeliver (h : s.Fit) (hmsg : msg.Deliverable) (retainedDelivery : Bool) (now : ℕ) :
    (s.doDeliver msg retainedDelivery now).1.Fit := by
  unfold Session.doDeliver
  split_ifs with _ _ hpos
  · exact h
  · exact h.buffer hmsg
  · exact h.withSent hmsg hpos retainedDelivery now
  · exact h

end Session

theorem fit_whileConnected : WhileConnected OutboundMsg.Deliverable Session.Fit where
  settle := fun _ id h => h.settle id
  mark := fun _ id h => h.mark id
  deliver := fun _ _ retainedDelivery now hmsg h => h.doDeliver hmsg retainedDelivery now
  pop := fun s msg rest hq h => by
    refine ⟨h.queue msg (hq ▸ List.mem_cons_self), { h with queue := fun m hm => ?_ }⟩
    exact h.queue m (hq ▸ List.mem_cons_of_mem msg hm)

theorem Session.Fit.save (h : s.Fit) (now : ℕ) : (s.save now).Fit := by
  intro id m hm
  rw [Outbound.lookup_save] at hm
  obtain ⟨msg, hmsg, rfl⟩ := Option.map_eq_some_iff.mp hm
  exact (h.inflight id msg hmsg).stored

theorem Session.Fit.negotiate (h : s.Fit) {ver : UInt8}
    (hver : (specFor ver).properties = false → ∀ id m, s.inflight.lookup id = some m → m.properties = none)
    (expiry : UInt32) (window : UInt16) :
    Session.Fit { s with protocolVer := ver, expiryInterval := expiry, outboundWindow := window } :=
  ⟨h.seq, h.queue, h.inflight, hver⟩

/-- Between `Restore` and the negotiation the version of the record still stands, so this
is said of the version to come. -/
theorem fit_restore {data : SessionData} (h : data.Fit) {ver : UInt8}
    (hver : (specFor ver).properties = false →
      ∀ id m, (restore data).inflight.lookup id = some m → m.properties = none)
    (expiry : UInt32) (window : UInt16) :
    Session.Fit { restore data with
      protocolVer := ver, expiryInterval := expiry, outboundWindow := window } where
  seq := by
    show (1 : UInt16) ≠ 0
    decide
  queue := by rintro m ⟨⟩
  inflight := by
    intro id m hm
    rw [Outbound.lookup_restore] at hm
    obtain ⟨m₀, hm₀, rfl⟩ := Option.map_eq_some_iff.mp hm
    exact h id m₀ hm₀
  version := hver

/-! ## Packets -/

/-- The encoder takes the packet in the version, whatever its size. -/
structure Sendable (version : UInt8) (p : Packet) : Prop where
  goType : p.goType ≠ .connect
  flags : validateFixedHeaderFlags p.fixedHeader = none
  encodable : p.Encodable version

/-- The packet keeps the bound the client has set, if any. -/
def WithinBound (c : Codec) (p : Packet) : Prop :=
  c.outboundMax = 0 ∨
    (frame (headerOut p) (p.layout c.protocolVersion)).length ≤ c.outboundMax

theorem Sendable.encode {c : Codec} {p : Packet} (h : Sendable c.protocolVersion p)
    (hbound : WithinBound c p) : ∃ b, (c.encode p).1 = .ok b := by
  have hversion : c.versionFor p = c.protocolVersion := by
    cases p with
    | connect q => exact absurd rfl h.goType
    | _ => rfl
  refine ⟨_, Codec.encode_eq_ok h.flags ?_ ?_⟩
  · rw [hversion]
    exact h.encodable
  · rw [hversion]
    exact hbound

variable {version : UInt8}

theorem sectionOk_of {locus : Locus} (h : SectionAccepted locus o)
    (hver : (specFor version).properties = false → o = none) : SectionOk version locus o := by
  unfold SectionOk
  split_ifs with hspec
  · exact h
  · exact hver (eq_false_of_ne_true hspec)

theorem sectionAccepted_none (locus : Locus) : SectionAccepted locus none := by rintro p ⟨⟩

theorem publishTopicOk_of_valid {topic : Str} (h : validatePublishTopic topic = true)
    (props : Option Properties) : publishTopicOk version topic props = true := by
  unfold publishTopicOk
  split_ifs with hnil
  · rw [hnil] at h
    cases h
  · exact h

/-- An acknowledgement without a reason. -/
theorem ackEncodable {id : UInt16} (hid : id ≠ 0) (fh : FixedHeader) :
    AckPacket.Encodable version { fixedHeader := fh, packetID := id } :=
  ⟨hid, fun _ => ⟨rfl, rfl⟩, sectionAccepted_none _⟩

theorem sendable_pubRel {id : UInt16} (hid : id ≠ 0) :
    Sendable version (Outbound.pubRelPacket id) :=
  ⟨by rintro ⟨⟩, rfl, ackEncodable hid _⟩

theorem sendable_retransmit {m : InflightMsg} (h : m.Resendable)
    (hver : (specFor version).properties = false → m.properties = none) (now : ℕ) :
    Sendable version (.publish (Outbound.buildRetransmitPublish m now)) := by
  have hqos : m.qos.toUInt8 = 1 ∨ m.qos.toUInt8 = 2 := by
    rcases h.qos with hq | hq <;> rw [hq]
    · exact .inl rfl
    · exact .inr rfl
  refine ⟨by rintro ⟨⟩, ?_, publishTopicOk_of_valid h.topicValid _, fun hzero => ?_,
    fun _ => h.packetID, h.topic, sectionOk_of (refreshedProperties_accepted h.properties now) ?_⟩
  · rcases hqos with hq | hq <;>
      simp [Packet.fixedHeader, Outbound.buildRetransmitPublish, validateFixedHeaderFlags, hq]
  · change m.qos.toUInt8 = 0 at hzero
    rcases hqos with hq | hq <;> rw [hq] at hzero <;> cases hzero
  · intro hspec
    simp [Outbound.buildRetransmitPublish, hver hspec]

theorem toUInt8_of_le_two {q : ℕ} (h : q ≤ 2) : q.toUInt8 ≠ 3 ∧ (q.toUInt8 = 0 ↔ q = 0) := by
  rcases q with _ | _ | _ | q
  · decide
  · decide
  · decide
  · omega

variable {msg : OutboundMsg} {retainedDelivery : Bool}

theorem sendable_delivered (h : s.Fit) (hmsg : msg.Deliverable) {now : ℕ} {pub : PublishPacket}
    (hpub : (s.doDeliver msg retainedDelivery now).2 = some pub) :
    Sendable s.protocolVer (.publish pub) := by
  obtain ⟨hthree, hzero⟩ := toUInt8_of_le_two hmsg.qos
  have hprops := Session.outboundPublish_properties_accepted hmsg s retainedDelivery now
  have hnone := fun hspec => s.outboundPublish_properties_none hspec msg retainedDelivery now
  have hflags : validateFixedHeaderFlags
      (s.outboundPublish msg retainedDelivery now).fixedHeader = none := by
    simp [Session.outboundPublish, validateFixedHeaderFlags, hthree]
  unfold Session.doDeliver at hpub
  split_ifs at hpub with hexp hfull hpos <;> cases hpub <;>
    refine ⟨by rintro ⟨⟩, hflags, publishTopicOk_of_valid hmsg.topicValid _, fun hq => ?_,
      fun hq => ?_, hmsg.topic, sectionOk_of hprops hnone⟩
  · exact absurd (hzero.mp hq) hpos.ne'
  · exact scanPacketID_ne_zero s.inUse 65535 h.seq
  · rfl
  · have hq0 : (s.outboundPublish msg retainedDelivery now).fixedHeader.qos = 0 :=
      hzero.mpr (Nat.eq_zero_of_not_pos hpos)
    rw [hq0] at hq
    cases hq

namespace Outbound

/-! ## The broker -/

/-- The condition on a resumption: under a version without properties, none of the
deliveries in flight carries any. -/
def Portable (b : Outbound) (pkt : ConnectPacket) : Prop :=
  (specFor pkt.protocolVersion).properties = false →
    ∀ s ∈ resumed (b.client pkt.clientID) pkt, ∀ e ∈ s.inflight.table.entries, e.2.properties = none

instance (b : Outbound) (pkt : ConnectPacket) : Decidable (b.Portable pkt) :=
  inferInstanceAs (Decidable (_ → ∀ s ∈ _, ∀ e ∈ _, _))

/-- Every session and every record is fit, and the engine tracks no identifier 0. -/
structure Fit (b : Outbound) : Prop where
  holds : b.Holds (fun _ => Session.Fit) SessionData.Fit
  engine : ∀ c, b.engine.getInflight c 0 = none

/-- The sessions have the versions of their clients' connections. -/
def Matched (b : Outbound) (versions : Str → UInt8) : Prop :=
  b.Holds (fun c s => s.protocolVer = versions c) fun _ => True

section

variable {b : Outbound} {versions : Str → UInt8} {c : Str} {s : Session} {op : Op} {now : ℕ}
  {w : Written}

theorem doDeliver_protocolVer (s : Session) (msg : OutboundMsg) (retainedDelivery : Bool)
    (now : ℕ) : (s.doDeliver msg retainedDelivery now).1.protocolVer = s.protocolVer := by
  rcases s.doDeliver_cases msg retainedDelivery now with hs | ⟨-, hs⟩ | ⟨-, hs⟩ <;> rw [hs]
  · unfold Session.bufferOutbound
    split_ifs <;> rfl
  · rfl

theorem version_whileConnected (ver : UInt8) :
    WhileConnected (fun _ => True) fun s => s.protocolVer = ver where
  settle := fun s id h => (s.settle_frame id).2.2.trans h
  mark := fun s id h => (s.markInflightPubRel_frame id).2.2.trans h
  deliver := fun s msg retainedDelivery now _ h =>
    (doDeliver_protocolVer s msg retainedDelivery now).trans h
  pop := fun _ _ _ _ h => ⟨trivial, h⟩

theorem Matched.run (h : b.Matched versions) (opts : Options)
    (hop : ∀ pkt now, op ≠ .connect pkt now) : (b.run opts op).1.Matched versions := by
  cases op with
  | connect pkt now => exact absurd rfl (hop pkt now)
  | disconnect c now => exact h.disconnect (fun _ _ _ _ => trivial) c now
  | _ =>
    apply h.run_connected (fun c => version_whileConnected (versions c)) opts _ fun _ _ => trivial
    · exact hop
    · rintro _ _ ⟨⟩

/-! ### The engine -/

theorem Fit.run_engine (h : b.Fit) (opts : Options) (c : Str) :
    (b.run opts op).1.engine.getInflight c 0 = none := by
  have hold := h.engine c
  cases b.turns_run opts op c 0 with
  | kept _ he | cleaned _ _ _ _ he => exact he.trans hold
  | sent hs hid =>
    exact absurd hid.symm (scanPacketID_ne_zero _ 65535 (h.holds.sessions c _ hs).seq)
  | ended _ he => exact he
  | marked _ _ _ he =>
    rw [he, hold]
    rfl
  | retried _ he => cases hold.symm.trans he
  | restored _ _ _ _ hdata _ he =>
    rw [he, restoreSessionInflight, getInflight_restoreEntries]
    · exact hold
    · rintro m hm ⟨-, hid⟩
      have hlookup := mem_inflightMsgs.mp hm
      rw [lookup_restore] at hlookup
      obtain ⟨m₀, hm₀, rfl⟩ := Option.map_eq_some_iff.mp hlookup
      exact (h.holds.stored _ _ hdata _ m₀ hm₀).packetID hid.symm

/-! ### Runs -/

/-- A resumption under a version its deliveries are fit for. -/
theorem Fit.connect (h : b.Fit) (opts : Options) {pkt : ConnectPacket} (hport : b.Portable pkt)
    (now : ℕ) : (b.connect opts pkt now).1.Holds (fun _ => Session.Fit) SessionData.Fit := by
  refine ⟨fun c s hs => ?_, fun c data hdata =>
    h.holds.stored c data (b.stored_connect opts pkt now hdata)⟩
  unfold Outbound.connect at hs
  simp only [Function.update_apply] at hs
  split_ifs at hs with hc
  · cases hs
    cases hres : resumed (b.client pkt.clientID) pkt with
    | none =>
      exact ⟨(by decide : (1 : UInt16) ≠ 0), by rintro m ⟨⟩, by rintro id m ⟨⟩,
        by rintro - id m ⟨⟩⟩
    | some s =>
      have hver : (specFor pkt.protocolVersion).properties = false →
          ∀ id m, s.inflight.lookup id = some m → m.properties = none := by
        intro hspec id m hm
        exact hport hspec s hres ⟨id, m⟩ (AList.mem_lookup_iff.mp hm)
      obtain ⟨-, hs | ⟨-, data, hdata, rfl⟩⟩ := resumed_eq_some.mp hres
      · exact (h.holds.sessions _ s hs).negotiate hver _ _
      · exact fit_restore (h.holds.stored _ data hdata) hver _ _
  · exact h.holds.sessions c s hs

/-- **Step lemma**, the state. -/
theorem Fit.run (h : b.Fit) (opts : Options) (hmsg : ∀ msg, op.message = some msg → msg.Deliverable)
    (hport : ∀ pkt now, op = .connect pkt now → b.Portable pkt) : (b.run opts op).1.Fit := by
  refine ⟨?_, h.run_engine opts⟩
  cases op with
  | connect pkt now => exact h.connect opts (hport pkt now rfl) now
  | disconnect c now => exact h.holds.disconnect (fun _ _ now hs => hs.save now) c now
  | _ =>
    apply h.holds.run_connected (fun _ => fit_whileConnected) opts _ hmsg
    · rintro _ _ ⟨⟩
    · rintro _ _ ⟨⟩

theorem sendable_deliverOn (hs : s.Fit) (hver : s.protocolVer = versions c)
    (hmsg : msg.Deliverable) (hw : w ∈ (b.deliverOn c s msg retainedDelivery now).2) :
    Sendable (versions w.1) w.2 := by
  unfold Outbound.deliverOn at hw
  simp only at hw
  split at hw
  · cases hw
  next pub hpub =>
    rw [List.mem_singleton.mp hw, ← hver]
    exact sendable_delivered hs hmsg hpub

theorem sendable_doRetry (h : b.Fit) (hm : b.Matched versions) (hw : w ∈ (b.doRetry now).2) :
    Sendable (versions w.1) w.2 := by
  obtain ⟨⟨c', e⟩, he, hsent⟩ := List.mem_flatMap.mp hw
  obtain ⟨e₀, he₀, -, rfl⟩ := (b.engine.mem_toRetry c').mp he
  have hid : e₀.packetID ≠ 0 := by
    intro hzero
    rw [hzero, h.engine c'] at he₀
    cases he₀
  unfold resend at hsent
  split_ifs at hsent
  · rw [List.mem_singleton.mp hsent]
    exact sendable_pubRel hid
  · -- the session after the give-ups
    have hfit := (h.holds.engine (b.engine.collect now).engine).giveUps
      (fun _ => fit_whileConnected) (b.engine.collect now).toReport
    have hmatched := (hm.engine (b.engine.collect now).engine).giveUps
      (fun c => version_whileConnected (versions c)) (b.engine.collect now).toReport
    unfold republish at hsent
    split at hsent
    · cases hsent
    next m hm =>
      obtain ⟨s, hs, hlookup⟩ := Option.bind_eq_some_iff.mp hm
      split_ifs at hsent
      · rw [List.mem_singleton.mp hsent, ← hmatched.sessions c' s hs]
        have hs := hfit.sessions c' s hs
        exact sendable_retransmit (hs.inflight _ m hlookup)
          (fun hspec => hs.version hspec _ m hlookup) now
      · cases hsent

/-- **Step lemma**, what is written: every operation but a connect. -/
theorem Fit.writes (h : b.Fit) (hm : b.Matched versions) (opts : Options)
    (hmsg : ∀ msg, op.message = some msg → msg.Deliverable) (hop : ∀ pkt now, op ≠ .connect pkt now)
    (hw : w ∈ (b.run opts op).2) : Sendable (versions w.1) w.2 := by
  have hacts := b.acts_run opts op
  generalize b.run opts op = r at hacts hw
  cases hacts with
  | idle | settle | disconnect => cases hw
  | @deliver c s msg _ _ hs =>
    exact sendable_deliverOn (h.holds.sessions c s hs) (hm.sessions c s hs) (hmsg msg rfl) hw
  | @flush c s msg rest now hs hq =>
    obtain ⟨hfirst, hrest⟩ := fit_whileConnected.pop s msg rest hq (h.holds.sessions c s hs)
    exact sendable_deliverOn hrest (hm.sessions c s hs) hfirst hw
  | @mark c =>
    split_ifs at hw with htracked
    · rw [List.mem_singleton.mp hw]
      apply sendable_pubRel
      rintro rfl
      rw [QoSEngine.ackPubRec, QoSEngine.markAcked_fst, h.engine c] at htracked
      cases htracked
    · cases hw
  | tick now => exact sendable_doRetry h hm hw
  | connect pkt now => exact absurd rfl (hop pkt now)

theorem Fit.connect_writes (h : b.Fit) (opts : Options) {pkt : ConnectPacket}
    (hport : b.Portable pkt) (hw : w ∈ (b.connect opts pkt now).2) :
    w.1 = pkt.clientID ∧ Sendable pkt.protocolVersion w.2 := by
  obtain ⟨s, hres, hw⟩ := b.mem_connect opts pkt now hw
  obtain ⟨e, he, rfl⟩ := List.mem_map.mp hw
  have hentry : s.inflight.lookup e.1 = some e.2 := AList.mem_lookup_iff.mpr he
  have hresend : e.2.Resendable := by
    obtain ⟨-, hs | ⟨-, data, hdata, rfl⟩⟩ := resumed_eq_some.mp hres
    · exact (h.holds.sessions _ s hs).inflight _ _ hentry
    · rw [lookup_restore] at hentry
      obtain ⟨m, hm, hrestored⟩ := Option.map_eq_some_iff.mp hentry
      rw [← hrestored]
      exact h.holds.stored _ data hdata _ m hm
  split_ifs
  · exact ⟨rfl, sendable_pubRel hresend.packetID⟩
  · exact ⟨rfl, sendable_retransmit hresend (fun hspec => hport hspec s hres e he) now⟩

end

end Outbound

end SharkMqtt.Broker
