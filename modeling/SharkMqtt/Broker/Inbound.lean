import SharkMqtt.Broker.Delivery

/-!
# Inbound publishes

`broker/pub_sub.go` (`handlePublish` and the functions it refuses with),
`broker/qos_outbound.go` (`handlePubRel`) and the inbound half of
`broker/session.go`: the table of staged QoS 2 messages, the topic aliases, what
`Save` and `Restore` keep of them.

A QoS 2 PUBLISH is staged and answered with PUBREC; its PUBREL takes it off the
table and routes it. A PUBREC with a failure code ends the exchange for the
client, so after one nothing may be left on the table. The checks that refuse a
PUBLISH (the rate limit, the authoriser) come before the table is looked at,
though, and a resend of a message that is staged already runs into them:
`settles_iff` says that this is the only way the property is lost.
-/

namespace SharkMqtt.Broker

open Protocol Lib

def reasonCodeSuccess : UInt8 := 0x00
def reasonCodeFailureBase : UInt8 := 0x80
def reasonCodeProtocolError : UInt8 := 0x82
def reasonCodeNotAuthorized : UInt8 := 0x87
def reasonCodePacketIdentifierInUse : UInt8 := 0x91
def reasonCodeReceiveMaxExceeded : UInt8 := 0x93
def reasonCodeTopicAliasInvalid : UInt8 := 0x94
def reasonCodeQuotaExceeded : UInt8 := 0x97

/-- `InboundQoS2`, a message accepted with PUBREC that waits for its PUBREL. -/
structure InboundQoS2 where
  packetID : UInt16
  qos : UInt8
  topic : Str
  payload : Bytes
  retain : Bool
  properties : Option Properties

/-- The fields of `Session` the inbound handlers work with. -/
structure Inbound where
  protocolVer : UInt8 := version311
  username : Str := []
  inboundQoS2 : Keyed InboundQoS2.packetID := ∅
  receiveMax : UInt16 := 65535
  topicAliasMax : UInt16 := 0
  topicAliases : AList (fun _ : UInt16 => Str) := ∅

/-- What a handler asks of the rest of the broker. `retain` is a call of
`handleRetainedMessage`, `route` the loop over `Match` with `routeSharedPublish`
after it. -/
inductive Effect where
  | write (p : Packet)
  | close
  | retain (p : PublishPacket)
  | route (p : PublishPacket)
deriving DecidableEq

/-- What the rate limiter and the authoriser say while a PUBLISH is handled. A
session without a limiter, or a broker without an authoriser, allows everything. -/
structure Policy where
  allow : Bool := true
  canPublish : Str → Str → Bool := fun _ _ => true

namespace Inbound

def spec (s : Inbound) : Spec := specFor s.protocolVer

/-! ## The staged messages and the aliases -/

/-- A budget of 0 is no budget. -/
def addInboundQoS2 (s : Inbound) (msg : InboundQoS2) (maxPending : ℕ) : Option Inbound :=
  if maxPending > 0 ∧ s.inboundQoS2.size ≥ maxPending then none
  else some { s with inboundQoS2 := s.inboundQoS2.insert msg }

def hasInboundQoS2 (s : Inbound) (id : UInt16) : Bool := (s.inboundQoS2.lookup id).isSome

def takeInboundQoS2 (s : Inbound) (id : UInt16) : Option (InboundQoS2 × Inbound) :=
  (s.inboundQoS2.lookup id).map fun msg => (msg, { s with inboundQoS2 := s.inboundQoS2.erase id })

def registerTopicAlias (s : Inbound) (a : UInt16) (topic : Str) : Option Inbound :=
  if s.topicAliasMax = 0 ∨ a > s.topicAliasMax then none
  else some { s with topicAliases := s.topicAliases.insert a topic }

def resolveTopicAlias (s : Inbound) (a : UInt16) : Option Str := s.topicAliases.lookup a

/-! ## Refusals -/

def pubAckPacket (id : UInt16) (reason : UInt8) : Packet :=
  .pubAck { fixedHeader := { packetType := .pubAck }, packetID := id, reasonCode := reason }

def pubRecPacket (id : UInt16) (reason : UInt8) : Packet :=
  .pubRec { fixedHeader := { packetType := .pubRec }, packetID := id, reasonCode := reason }

def pubCompPacket (id : UInt16) : Packet :=
  .pubComp { fixedHeader := { packetType := .pubComp }, packetID := id }

/-- Only MQTT 5 has a DISCONNECT from the server. -/
def closeProtocolViolationWithReason (s : Inbound) (reason : UInt8) : List Effect :=
  (if s.spec.serverDisconnect then
    [.write (.disconnect { fixedHeader := { packetType := .disconnect }, reasonCode := reason })]
  else []) ++ [.close]

def ackDiscardedPublish (s : Inbound) (pkt : PublishPacket) (v5Reason : UInt8) : List Effect :=
  let reason := if s.spec.reasonCodes then v5Reason else reasonCodeSuccess
  if pkt.fixedHeader.qos = 1 then [.write (pubAckPacket pkt.packetID reason)]
  else if pkt.fixedHeader.qos = 2 then [.write (pubRecPacket pkt.packetID reason)]
  else []

def rejectInboundOverBudget (s : Inbound) (pkt : PublishPacket) : List Effect :=
  if s.spec.serverDisconnect then s.closeProtocolViolationWithReason reasonCodeReceiveMaxExceeded
  else s.ackDiscardedPublish pkt reasonCodeSuccess

/-! ## `handlePublish` -/

/-- The topic alias block: the packet with its topic filled in, or the reason the
connection is closed with. -/
def applyTopicAlias (s : Inbound) (pkt : PublishPacket) :
    Except UInt8 (Inbound × PublishPacket) :=
  match pkt.properties.bind (·.topicAlias) with
  | none => .ok (s, pkt)
  | some a =>
    if a = 0 then .error reasonCodeTopicAliasInvalid
    else if pkt.topic = [] then
      match s.resolveTopicAlias a with
      | none => .error reasonCodeProtocolError
      | some resolved => .ok (s, { pkt with topic := resolved })
    else
      match s.registerTopicAlias a pkt.topic with
      | none => .error reasonCodeTopicAliasInvalid
      | some s => .ok (s, pkt)

def stagedMessage (pkt : PublishPacket) : InboundQoS2 where
  packetID := pkt.packetID
  qos := pkt.fixedHeader.qos
  topic := pkt.topic
  payload := pkt.payload
  retain := pkt.fixedHeader.retain
  properties := pkt.properties

def retainEffects (pkt : PublishPacket) : List Effect :=
  if pkt.fixedHeader.retain then [.retain pkt] else []

/-- The QoS 2 branch: a message already staged is answered again and left as it
is. -/
def handleQoS2 (s : Inbound) (pkt : PublishPacket) : Inbound × List Effect :=
  if s.hasInboundQoS2 pkt.packetID then
    let reason := if pkt.fixedHeader.dup then reasonCodeSuccess else reasonCodePacketIdentifierInUse
    let reason := if s.spec.reasonCodes then reason else reasonCodeSuccess
    (s, [.write (pubRecPacket pkt.packetID reason)])
  else
    match s.addInboundQoS2 (stagedMessage pkt) s.receiveMax.toNat with
    | none => (s, s.rejectInboundOverBudget pkt)
    | some s => (s, retainEffects pkt ++ [.write (pubRecPacket pkt.packetID reasonCodeSuccess)])

def arrivesExpired (pkt : PublishPacket) : Bool :=
  pkt.properties.bind (·.messageExpiryInterval) == some 0

def handlePublish (policy : Policy) (s : Inbound) (pkt : PublishPacket) :
    Inbound × List Effect :=
  if !policy.allow then (s, s.ackDiscardedPublish pkt reasonCodeQuotaExceeded)
  else
    match s.applyTopicAlias pkt with
    | .error reason => (s, s.closeProtocolViolationWithReason reason)
    | .ok (s, pkt) =>
      if arrivesExpired pkt then (s, s.ackDiscardedPublish pkt reasonCodeSuccess)
      else if !validatePublishTopic pkt.topic then
        (s, s.closeProtocolViolationWithReason reasonCodeProtocolError)
      else if !policy.canPublish s.username pkt.topic then
        (s, s.ackDiscardedPublish pkt reasonCodeNotAuthorized)
      else if pkt.fixedHeader.qos = 2 then s.handleQoS2 pkt
      else
        (s, retainEffects pkt ++ .route pkt ::
          if pkt.fixedHeader.qos = 1 then [.write (pubAckPacket pkt.packetID reasonCodeSuccess)]
          else [])

/-! ## `handlePubRel` -/

def releasedPublish (msg : InboundQoS2) : PublishPacket where
  fixedHeader := { packetType := .publish, qos := msg.qos, retain := msg.retain }
  packetID := msg.packetID
  topic := msg.topic
  payload := msg.payload
  properties := msg.properties

/-- An identifier with nothing staged is completed all the same. -/
def handlePubRel (s : Inbound) (id : UInt16) : Inbound × List Effect :=
  match s.takeInboundQoS2 id with
  | none => (s, [.write (pubCompPacket id)])
  | some (msg, s) => (s, [.route (releasedPublish msg), .write (pubCompPacket id)])

/-! ## Save, Restore and the next connection -/

end Inbound

def InboundQoS2.store (m : InboundQoS2) : InflightMessage where
  packetID := m.packetID
  qos := m.qos.toNat
  topic := m.topic
  payload := m.payload
  retain := m.retain
  properties := storeProperties m.properties
  expiresAt := none
  pendingPubRel := false

def InflightMessage.restoreInbound (m : InflightMessage) : InboundQoS2 where
  packetID := m.packetID
  qos := m.qos.toUInt8
  topic := m.topic
  payload := m.payload
  retain := m.retain
  properties := protocolProperties m.properties

/-- The part of `SessionData` that belongs to the inbound half. -/
structure InboundData where
  protocolVer : UInt8
  username : Str
  inboundQoS2 : Keyed InflightMessage.packetID

namespace Inbound

def save (s : Inbound) : InboundData where
  protocolVer := s.protocolVer
  username := s.username
  inboundQoS2 := s.inboundQoS2.map InflightMessage.packetID InboundQoS2.store (fun _ => rfl)

def restore (data : InboundData) : Inbound where
  protocolVer := data.protocolVer
  username := data.username
  inboundQoS2 :=
    data.inboundQoS2.map InboundQoS2.packetID InflightMessage.restoreInbound (fun _ => rfl)

def serverTopicAliasMax : UInt16 := 64

/-- `CreateSession` on the session that is resumed, and the negotiation after
it: the limits and the aliases belong to the connection, the staged messages to
the session. -/
def resume (opts : Options) (pkt : ConnectPacket) (s : Inbound) : Inbound :=
  { s with
    protocolVer := pkt.protocolVersion
    username := pkt.username
    receiveMax := serverReceiveMax opts
    topicAliasMax := if (specFor pkt.protocolVersion).topicAlias then serverTopicAliasMax else 0
    topicAliases := ∅ }

/-! ## Runs of one session -/

/-- A session and whether its connection is still read from. -/
structure State where
  sess : Inbound
  connected : Bool := true

/-- A packet is handled, or the client reconnects to the session: over the one in
memory, or, after a teardown, over the one restored from its record. -/
inductive Label where
  | publish (policy : Policy) (pkt : PublishPacket)
  | pubRel (id : UInt16)
  | reconnect (opts : Options) (pkt : ConnectPacket) (restored : Bool)

def handled (s : Inbound) : Label → Inbound × List Effect
  | .publish policy pkt => s.handlePublish policy pkt
  | .pubRel id => s.handlePubRel id
  | .reconnect opts pkt restored => (resume opts pkt (if restored then restore s.save else s), [])

def step (st : State) : Label → Option State
  | .reconnect opts pkt restored =>
    some { sess := (st.sess.handled (.reconnect opts pkt restored)).1 }
  | l =>
    if st.connected then
      some { sess := (st.sess.handled l).1
             connected := !(st.sess.handled l).2.contains .close }
    else none

/-- A failure code other than "packet identifier in use". -/
def Fails (reason : UInt8) : Prop :=
  reasonCodeFailureBase ≤ reason ∧ reason ≠ reasonCodePacketIdentifierInUse

instance (reason : UInt8) : Decidable (Fails reason) := inferInstanceAs (Decidable (_ ∧ _))

/-- One of the effects is a PUBREC that ends the exchange of `id`. -/
def EndsExchange (id : UInt16) (effects : List Effect) : Prop :=
  ∃ p, .write (.pubRec p) ∈ effects ∧ p.packetID = id ∧ Fails p.reasonCode

/-- Where the exchange is ended, nothing is left on the table. -/
def Settles (st : State) (l : Label) : Prop :=
  ∀ id, EndsExchange id (st.sess.handled l).2 → (st.sess.handled l).1.inboundQoS2.lookup id = none

/-- The rate limiter refuses the packet, or the packet gets as far as the
authoriser and is refused there. -/
def refuses (policy : Policy) (s : Inbound) (pkt : PublishPacket) : Bool :=
  !policy.allow ||
    match s.applyTopicAlias pkt with
    | .error _ => false
    | .ok (s, pkt) =>
      !arrivesExpired pkt && validatePublishTopic pkt.topic &&
        !policy.canPublish s.username pkt.topic

/-- A QoS 2 PUBLISH is refused with a reason code while a message is staged under
its identifier. -/
def RefusedWhileStaged (st : State) : Label → Prop
  | .publish policy pkt =>
    pkt.fixedHeader.qos = 2 ∧ st.sess.hasInboundQoS2 pkt.packetID = true ∧
      st.sess.spec.reasonCodes = true ∧ st.sess.refuses policy pkt = true
  | _ => False

/-! ## Which handlers end an exchange -/

variable {id : UInt16} {s : Inbound} {pkt : PublishPacket} {policy : Policy} {reason : UInt8}

theorem not_endsExchange_nil : ¬ EndsExchange id [] := by
  rintro ⟨p, hp, -⟩
  cases hp

theorem endsExchange_singleton {packetID : UInt16} :
    EndsExchange id [.write (pubRecPacket packetID reason)] ↔ packetID = id ∧ Fails reason := by
  constructor
  · rintro ⟨p, hp, hid, hf⟩
    cases List.mem_singleton.mp hp
    exact ⟨hid, hf⟩
  · rintro ⟨hid, hf⟩
    exact ⟨_, List.mem_singleton.mpr rfl, hid, hf⟩

theorem endsExchange_append {a b : List Effect} :
    EndsExchange id (a ++ b) ↔ EndsExchange id a ∨ EndsExchange id b := by
  simp only [EndsExchange, List.mem_append, or_and_right, exists_or]

theorem not_endsExchange_of_forall {effects : List Effect} (h : ∀ p, .write (.pubRec p) ∉ effects) :
    ¬ EndsExchange id effects := by
  rintro ⟨p, hp, -⟩
  exact h p hp

theorem not_fails_success : ¬ Fails reasonCodeSuccess := by decide

theorem not_endsExchange_close : ¬ EndsExchange id (s.closeProtocolViolationWithReason reason) := by
  apply not_endsExchange_of_forall
  intro p hp
  unfold closeProtocolViolationWithReason at hp
  split at hp <;> simp at hp

theorem not_endsExchange_retain : ¬ EndsExchange id (retainEffects pkt) := by
  apply not_endsExchange_of_forall
  intro p hp
  unfold retainEffects at hp
  split at hp <;> simp at hp

/-- A discarded PUBLISH ends its exchange if it is a QoS 2 one and its client is
told a failure code. -/
theorem endsExchange_ackDiscardedPublish :
    EndsExchange id (s.ackDiscardedPublish pkt reason) ↔
      pkt.fixedHeader.qos = 2 ∧ s.spec.reasonCodes = true ∧ pkt.packetID = id ∧ Fails reason := by
  unfold ackDiscardedPublish
  split_ifs with hcodes h1 h2 h1 h2
  · simp [EndsExchange, pubAckPacket, h1]
  · simp [endsExchange_singleton, hcodes, h2]
  · simp [EndsExchange, h2]
  · simp [EndsExchange, pubAckPacket, hcodes]
  · simp [endsExchange_singleton, hcodes, not_fails_success]
  · simp [EndsExchange, hcodes]

theorem not_endsExchange_rejectInboundOverBudget :
    ¬ EndsExchange id (s.rejectInboundOverBudget pkt) := by
  unfold rejectInboundOverBudget
  split_ifs
  · exact not_endsExchange_close
  · rw [endsExchange_ackDiscardedPublish]
    exact fun h => not_fails_success h.2.2.2

theorem not_endsExchange_handleQoS2 : ¬ EndsExchange id (s.handleQoS2 pkt).2 := by
  unfold handleQoS2
  split
  · rw [endsExchange_singleton]
    rintro ⟨-, hf⟩
    revert hf
    split_ifs <;> decide
  · split
    · exact not_endsExchange_rejectInboundOverBudget
    · rw [endsExchange_append, endsExchange_singleton]
      rintro (h | h)
      · exact not_endsExchange_retain h
      · exact not_fails_success h.2

/-- The alias block touches the aliases of the session and an empty topic of the
packet, nothing else. -/
theorem applyTopicAlias_frame {s' : Inbound} {pkt' : PublishPacket}
    (h : s.applyTopicAlias pkt = .ok (s', pkt')) :
    (∃ aliases, s' = { s with topicAliases := aliases }) ∧
      ∃ topic, (pkt.topic ≠ [] → topic = pkt.topic) ∧ pkt' = { pkt with topic := topic } := by
  revert h
  fun_cases applyTopicAlias s pkt <;> intro h <;> cases h
  case case1 => exact ⟨⟨_, rfl⟩, _, fun _ => rfl, rfl⟩
  case case4 hempty _ _ => exact ⟨⟨_, rfl⟩, _, fun hne => absurd hempty hne, rfl⟩
  case case6 hreg =>
    unfold registerTopicAlias at hreg
    split_ifs at hreg
    cases hreg
    exact ⟨⟨_, rfl⟩, _, fun _ => rfl, rfl⟩

def accept (s : Inbound) (pkt : PublishPacket) : Inbound × List Effect :=
  if pkt.fixedHeader.qos = 2 then s.handleQoS2 pkt
  else
    (s, retainEffects pkt ++ .route pkt ::
      if pkt.fixedHeader.qos = 1 then [.write (pubAckPacket pkt.packetID reasonCodeSuccess)] else [])

/-- **Inversion.** A PUBLISH closes the connection, or is discarded with the code its
refusal has (an expired one with success), or passes with its topic filled in. -/
theorem handlePublish_cases (policy : Policy) (s : Inbound) (pkt : PublishPacket) :
    ∃ aliases, (s.refuses policy pkt = false ∧ ∃ reason, s.handlePublish policy pkt =
        ({ s with topicAliases := aliases }, s.closeProtocolViolationWithReason reason)) ∨
      (∃ reason, (if s.refuses policy pkt then Fails reason else reason = reasonCodeSuccess) ∧
        s.handlePublish policy pkt =
          ({ s with topicAliases := aliases }, s.ackDiscardedPublish pkt reason) ∧
        (s.refuses policy pkt = false → arrivesExpired pkt = true)) ∨
      (s.refuses policy pkt = false ∧ arrivesExpired pkt = false ∧
        ∃ topic, (pkt.topic ≠ [] → topic = pkt.topic) ∧ s.handlePublish policy pkt =
          accept { s with topicAliases := aliases } { pkt with topic := topic }) := by
  unfold handlePublish refuses
  cases policy.allow with
  | false => exact ⟨s.topicAliases, Or.inr (Or.inl ⟨_, (by decide : Fails _), rfl, nofun⟩)⟩
  | true =>
    cases halias : s.applyTopicAlias pkt with
    | error reason => exact ⟨s.topicAliases, Or.inl ⟨rfl, reason, rfl⟩⟩
    | ok r =>
      obtain ⟨s', pkt'⟩ := r
      obtain ⟨⟨aliases, rfl⟩, topic, htopic, rfl⟩ := applyTopicAlias_frame halias
      refine ⟨aliases, ?_⟩
      have hsame : arrivesExpired { pkt with topic := topic } = arrivesExpired pkt := rfl
      simp only [hsame]
      cases arrivesExpired pkt with
      | true => exact Or.inr (Or.inl ⟨_, rfl, rfl, fun _ => rfl⟩)
      | false =>
        cases validatePublishTopic topic with
        | false => exact Or.inl ⟨rfl, _, rfl⟩
        | true =>
          cases policy.canPublish s.username topic with
          | false => exact Or.inr (Or.inl ⟨_, (by decide : Fails _), rfl, nofun⟩)
          | true => exact Or.inr (Or.inr ⟨rfl, rfl, topic, htopic, rfl⟩)

theorem handlePublish_of_refuses (h : s.refuses policy pkt = true) :
    (s.handlePublish policy pkt).1.inboundQoS2 = s.inboundQoS2 ∧
      ∃ reason, Fails reason ∧
        (s.handlePublish policy pkt).2 = s.ackDiscardedPublish pkt reason := by
  obtain ⟨aliases, ⟨hr, -⟩ | ⟨reason, hf, he, -⟩ | ⟨hr, -⟩⟩ := handlePublish_cases policy s pkt
  · cases h.symm.trans hr
  · rw [if_pos h] at hf
    rw [he]
    exact ⟨rfl, reason, hf, rfl⟩
  · cases h.symm.trans hr

theorem refuses_of_endsExchange (h : EndsExchange id (s.handlePublish policy pkt).2) :
    s.refuses policy pkt = true := by
  obtain ⟨aliases, ⟨-, reason, he⟩ | ⟨reason, hreason, he, -⟩ | ⟨-, -, topic, -, he⟩⟩ :=
    handlePublish_cases policy s pkt
  · rw [he] at h
    exact absurd h not_endsExchange_close
  · rw [he] at h
    by_contra hr
    rw [if_neg hr] at hreason
    exact not_fails_success (hreason ▸ (endsExchange_ackDiscardedPublish.mp h).2.2.2)
  · rw [he, accept] at h
    split_ifs at h with htwo hone
    · exact absurd h not_endsExchange_handleQoS2
    all_goals
      refine absurd h (not_endsExchange_of_forall fun p hp => ?_)
      simp [retainEffects, pubAckPacket] at hp

theorem endsExchange_handlePublish :
    EndsExchange id (s.handlePublish policy pkt).2 ↔
      pkt.fixedHeader.qos = 2 ∧ s.spec.reasonCodes = true ∧ pkt.packetID = id ∧
        s.refuses policy pkt = true := by
  constructor
  · intro h
    have hr := refuses_of_endsExchange h
    obtain ⟨-, reason, -, he⟩ := handlePublish_of_refuses hr
    rw [he, endsExchange_ackDiscardedPublish] at h
    exact ⟨h.1, h.2.1, h.2.2.1, hr⟩
  · rintro ⟨hqos, hcodes, hid, hr⟩
    obtain ⟨-, reason, hf, he⟩ := handlePublish_of_refuses hr
    rw [he, endsExchange_ackDiscardedPublish]
    exact ⟨hqos, hcodes, hid, hf⟩

theorem not_endsExchange_handlePubRel {id' : UInt16} :
    ¬ EndsExchange id' (s.handlePubRel id).2 := by
  apply not_endsExchange_of_forall
  intro p hp
  unfold handlePubRel at hp
  split at hp <;> simp [pubCompPacket] at hp

/-- One step loses the property exactly when it refuses a PUBLISH whose
identifier is staged. -/
theorem settles_step_iff (st : State) (l : Label) : Settles st l ↔ ¬ RefusedWhileStaged st l := by
  cases l with
  | publish policy pkt =>
    constructor
    · rintro h ⟨hqos, hstaged, hcodes, hr⟩
      have hnone := h pkt.packetID (endsExchange_handlePublish.mpr ⟨hqos, hcodes, rfl, hr⟩)
      have hkept := (handlePublish_of_refuses hr).1
      rw [handled, hkept] at hnone
      rw [hasInboundQoS2, hnone] at hstaged
      cases hstaged
    · intro h id hends
      obtain ⟨hqos, hcodes, rfl, hr⟩ := endsExchange_handlePublish.mp hends
      rw [handled, (handlePublish_of_refuses hr).1]
      by_contra hsome
      exact h ⟨hqos, Option.isSome_iff_ne_none.mpr hsome, hcodes, hr⟩
  | pubRel id =>
    exact iff_of_true (fun id' h => absurd h not_endsExchange_handlePubRel) (fun h => h)
  | reconnect opts pkt restored =>
    exact iff_of_true (fun id' h => absurd h not_endsExchange_nil) (fun h => h)

/-- Over any run of a session, with any policies, a PUBREC that ends an exchange
leaves nothing staged under its identifier, exactly if no QoS 2 PUBLISH is refused
while its identifier is staged. -/
theorem settles_iff (st : State) (ls : List Label) :
    Along step Settles st ls ↔ Along step (fun st l => ¬ RefusedWhileStaged st l) st ls := by
  constructor
  · exact Along.of_invariant (fun _ => True) (fun _ _ _ _ _ _ => trivial)
      (fun st l _ h => (settles_step_iff st l).mp h) trivial
  · exact Along.of_invariant (fun _ => True) (fun _ _ _ _ _ _ => trivial)
      (fun st l _ h => (settles_step_iff st l).mpr h) trivial

/-! ## Publishes that are not refused -/

/-- The packet turns out to break the protocol: the connection is closed and
nothing is staged. -/
def Closes (s : Inbound) (r : Inbound × List Effect) : Prop :=
  ∃ reason, r.1.inboundQoS2 = s.inboundQoS2 ∧ r.2 = s.closeProtocolViolationWithReason reason

section Accepted

variable (hqos : pkt.fixedHeader.qos = 2) (hr : s.refuses policy pkt = false)
  (he : arrivesExpired pkt = false)

include hqos hr he

/-- A QoS 2 PUBLISH that is neither refused nor expired reaches the table, unless
it breaks the protocol and closes the connection. -/
theorem handlePublish_of_accepted : s.Closes (s.handlePublish policy pkt) ∨
      ∃ aliases topic, (pkt.topic ≠ [] → topic = pkt.topic) ∧
        s.handlePublish policy pkt =
          { s with topicAliases := aliases }.handleQoS2 { pkt with topic := topic } := by
  obtain ⟨aliases, ⟨-, reason, heq⟩ | ⟨reason, -, -, hexp⟩ | ⟨-, -, topic, htopic, heq⟩⟩ :=
    handlePublish_cases policy s pkt
  · rw [heq]
    exact Or.inl ⟨reason, rfl, rfl⟩
  · cases he.symm.trans (hexp hr)
  · exact Or.inr ⟨aliases, topic, htopic, heq.trans (if_pos hqos)⟩

theorem handlePublish_of_staged
    (hstaged : s.hasInboundQoS2 pkt.packetID = true) (hdup : pkt.fixedHeader.dup = true) :
    s.Closes (s.handlePublish policy pkt) ∨
      (s.handlePublish policy pkt).1.inboundQoS2 = s.inboundQoS2 ∧
        (s.handlePublish policy pkt).2 =
          [.write (pubRecPacket pkt.packetID reasonCodeSuccess)] := by
  rcases handlePublish_of_accepted hqos hr he with hcloses | ⟨aliases, topic, -, heq⟩
  · exact Or.inl hcloses
  · right
    have hhas : { s with topicAliases := aliases }.hasInboundQoS2 pkt.packetID = true := hstaged
    rw [heq, handleQoS2]
    simp only [hhas, if_true, hdup, ite_self]
    exact ⟨trivial, trivial⟩

theorem handlePublish_of_room (hstaged : s.hasInboundQoS2 pkt.packetID = false)
    (hroom : ¬ (s.receiveMax.toNat > 0 ∧ s.inboundQoS2.size ≥ s.receiveMax.toNat)) :
    s.Closes (s.handlePublish policy pkt) ∨
      ∃ topic, (pkt.topic ≠ [] → topic = pkt.topic) ∧
        (s.handlePublish policy pkt).1.inboundQoS2 =
          s.inboundQoS2.insert (stagedMessage { pkt with topic := topic }) ∧
        (s.handlePublish policy pkt).2 =
          retainEffects { pkt with topic := topic } ++
            [.write (pubRecPacket pkt.packetID reasonCodeSuccess)] := by
  rcases handlePublish_of_accepted hqos hr he with hcloses | ⟨aliases, topic, htopic, heq⟩
  · exact Or.inl hcloses
  · refine Or.inr ⟨topic, htopic, ?_⟩
    have hhas : { s with topicAliases := aliases }.hasInboundQoS2 pkt.packetID = false := hstaged
    rw [heq, handleQoS2, addInboundQoS2]
    simp only [hhas, Bool.false_eq_true, if_false, if_neg hroom]
    exact ⟨trivial, trivial⟩

end Accepted

theorem handlePubRel_of_staged {msg : InboundQoS2} (h : s.inboundQoS2.lookup id = some msg) :
    s.handlePubRel id =
      ({ s with inboundQoS2 := s.inboundQoS2.erase id },
        [.route (releasedPublish msg), .write (pubCompPacket id)]) := by
  unfold handlePubRel takeInboundQoS2
  rw [h]
  rfl

theorem handlePubRel_of_none (h : s.inboundQoS2.lookup id = none) :
    s.handlePubRel id = (s, [.write (pubCompPacket id)]) := by
  unfold handlePubRel takeInboundQoS2
  rw [h]
  rfl

theorem storeProperties_protocolProperties (sp : MessageProperties) :
    storeProperties (protocolProperties sp) = sp := by
  unfold protocolProperties
  split
  next h =>
    cases sp
    simp_all [storeProperties]
  · rfl

theorem lookup_restore_save (s : Inbound) (id : UInt16) :
    (restore s.save).inboundQoS2.lookup id =
      (s.inboundQoS2.lookup id).map fun msg => msg.store.restoreInbound := by
  have hrestored := s.save.inboundQoS2.lookup_map InboundQoS2.packetID
    InflightMessage.restoreInbound (fun _ => rfl) id
  have hsaved := s.inboundQoS2.lookup_map InflightMessage.packetID InboundQoS2.store
    (fun _ => rfl) id
  exact hrestored.trans ((congrArg _ hsaved).trans (Option.map_map _ _ _))

def qos2Publish (dup : Bool) : PublishPacket where
  fixedHeader := { packetType := .publish, qos := 2, dup }
  packetID := 1
  topic := ascii "t"

def session50 : State := { sess := { protocolVer := version50 } }

/-- A message is staged, and its resend meets the policy. -/
def resendUnder (policy : Policy) : List Label :=
  [.publish {} (qos2Publish false), .publish policy (qos2Publish true)]

/-- The resend of a staged message is refused, by the rate limiter or by an
authoriser that has changed its mind: the client hears 0x97 or 0x87, and the
message stays. -/
theorem refusedResend_stays_staged :
    ¬ Along step Settles session50 (resendUnder { allow := false }) ∧
      ¬ Along step Settles session50 (resendUnder { canPublish := fun _ _ => false }) := by
  constructor
  · intro h
    have hsecond := h.2.1 1 ⟨_, List.mem_singleton.mpr rfl, rfl, by decide⟩
    revert hsecond
    decide +kernel
  · intro h
    have hsecond := h.2.1 1 ⟨_, List.mem_singleton.mpr rfl, rfl, by decide⟩
    revert hsecond
    decide +kernel

end Inbound

end SharkMqtt.Broker
