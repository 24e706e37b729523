import SharkMqtt.Broker.Inbound
import SharkMqtt.Broker.Process
import SharkMqtt.Broker.Retained
import SharkMqtt.Broker.Tracking

/-!
# The ways of a message through the broker

A publish reaches a subscriber on many ways: at once, through the flow-control buffer,
after a QoS 2 handshake, as a retained message, from the offline queue. On each way it
passes from one record to the next (`PublishPacket`, `InboundQoS2`, `InflightMessage`,
`RetainedMessage`, `OutboundMsg`, `StoredMessage`, `InflightMsg`), and every record keeps
something else of it.

The machine here follows one line of descent of one publish: the record it is in, and
the PUBLISH packets written for it. A hop applies the function of the source that makes
the next record, with whatever session, stored record and time it finds.

`Content` is what should survive a hop: the properties to relay and the lifetime.
`Content.after` says what each hop does to it, and `sent_presents` that nothing else
happens to it on any way: what is written is what `Content.after` says.
-/

namespace SharkMqtt.Broker.MessagePaths

open Protocol Lib Process
open Teardown (StoredMessage messageExpiresAt sessionExpired routedMsg)
open Retained (retainedRecord)

/-! ## The machine -/

/-- The record that holds the copy. An outbound delivery has the properties that were built
for the version of the session it was first sent in. -/
inductive Copy where
  /-- Read from the publisher's connection. -/
  | received (pkt : PublishPacket)
  /-- About to be routed. -/
  | routing (pkt : PublishPacket)
  /-- About to be retained. -/
  | retaining (pkt : PublishPacket)
  | staged (m : InboundQoS2)
  | stagedRecord (m : InflightMessage)
  | retained (m : RetainedMessage)
  | buffered (m : OutboundMsg)
  | queued (m : StoredMessage)
  | inflight (builtFor : UInt8) (m : InflightMsg)
  | inflightRecord (builtFor : UInt8) (m : InflightMessage)
  /-- Dropped, or sent with QoS 0. -/
  | gone

/-- A PUBLISH written at `now` in a session of version `protocolVer`; `first` unless it is a
retransmission, which may be in a session of another version. -/
structure Sent where
  protocolVer : UInt8
  builtFor : UInt8
  pub : PublishPacket
  now : ℕ
  first : Bool

/-- The properties on the wire. -/
def Sent.written (s : Sent) : Option Properties :=
  if (specFor s.protocolVer).properties then s.pub.properties else none

structure State where
  copy : Copy
  sent : List Sent := []

/-- What `handlePublish` does with a PUBLISH; a retained one goes on twice. -/
inductive Branch where
  | route
  | retain
  | stage

/-- A session is looked at twice: `seen` when its subscriptions are matched, `sess` in
`doDeliver`. -/
inductive Hop where
  | receive (policy : Policy) (inb : Inbound) (branch : Branch)
  | saveInbound
  | restoreInbound
  | release
  | retain
  | replay (seen sess : Session)
  | deliver (source : Str) (seen sess : Session)
  | deliverShared (source : Str) (subQoS : ℕ) (seen sess : Session)
  | flush (sess : Session)
  | persist
  | enqueue (data : SessionData)
  | drain (seen sess : Session)
  | saveInflight
  | restoreInflight
  /-- After a reconnect or by the retry loop, to a client of this version. -/
  | resend (protocolVer : UInt8)

structure Label where
  hop : Hop
  now : ℕ

def routeEffect : Effect → Option PublishPacket
  | .route pkt => some pkt
  | _ => none

def retainEffect : Effect → Option PublishPacket
  | .retain pkt => some pkt
  | _ => none

/-- A PUBLISH is handled; `none` when it does not take this branch. -/
def arrive (policy : Policy) (inb : Inbound) (pkt : PublishPacket) : Branch → Option Copy
  | .route => ((inb.handlePublish policy pkt).2.findSome? routeEffect).map .routing
  | .retain => ((inb.handlePublish policy pkt).2.findSome? retainEffect).map .retaining
  | .stage =>
    if inb.hasInboundQoS2 pkt.packetID then none
    else ((inb.handlePublish policy pkt).1.inboundQoS2.lookup pkt.packetID).map .staged

/-- The message `deliverToSharedClient` hands to `doDeliver`; `none` when it returns. -/
def sharedMsg (source : Str) (pkt : PublishPacket) (subQoS : ℕ) (sess : Session) (now : ℕ) :
    Option OutboundMsg :=
  if source ≠ [] ∧ sess.clientID = source ∧ !sess.allowsLocalPublish pkt.topic then none
  else
    let d := deliverWithQoS sess pkt subQoS { qos := subQoS } []
    some ⟨d.pkt, d.deliverQoS, d.subOpts, d.subIDs, messageExpiresAt pkt now⟩

/-- The message a round of `deliverRetainedMessages` hands to `doDeliver`. -/
def replayedMsg (m : RetainedMessage) (sess : Session) : Option OutboundMsg :=
  let r := sess.matchSubscriptions m.topic true
  if !r.matched then none
  else
    let deliverQoS := if r.qos < m.qos.toNat then r.qos else m.qos.toNat
    let pubPkt : PublishPacket :=
      { fixedHeader := { packetType := .publish, qos := deliverQoS.toUInt8, retain := true }
        topic := m.topic
        payload := m.payload
        properties := protocolProperties m.properties }
    some ⟨pubPkt, deliverQoS, r.opts, r.subIDs, m.expiresAt⟩

/-- The message a round of `deliverQueuedMessages` hands to `doDeliver`. -/
def queuedMsg (m : StoredMessage) (sess : Session) (now : ℕ) : Option OutboundMsg :=
  match Process.round sess m now with
  | .deliver msg => some msg
  | .drop | .keep => none

variable {sess : Session} {now : ℕ} {msg : OutboundMsg} {pkt p : PublishPacket} {st : State}

def State.hand (st : State) (sess : Session) (msg : OutboundMsg) (retainedDelivery : Bool)
    (now : ℕ) : State :=
  let r := sess.doDeliver msg retainedDelivery now
  match r.2 with
  | none =>
    { st with
      copy := if r.1.outboundQueue = sess.outboundQueue ++ [msg] then .buffered msg else .gone }
  | some pub =>
    { copy :=
        if msg.deliverQoS > 0 then
          (r.1.inflight.lookup pub.packetID).elim .gone (.inflight sess.protocolVer)
        else .gone
      sent := st.sent ++ [⟨sess.protocolVer, sess.protocolVer, pub, now, true⟩] }

def State.move (st : State) (copy : Copy) : State := { st with copy := copy }

def step (st : State) (l : Label) : Option State :=
  match l.hop, st.copy with
  | .receive policy inb branch, .received pkt => (arrive policy inb pkt branch).map st.move
  | .saveInbound, .staged m => some (st.move (.stagedRecord m.store))
  | .restoreInbound, .stagedRecord m => some (st.move (.staged m.restoreInbound))
  | .release, .staged m => some (st.move (.routing (Inbound.releasedPublish m)))
  | .retain, .retaining pkt =>
    -- an empty payload deletes the retained message of the topic
    if pkt.payload = [] then none else some (st.move (.retained (retainedRecord pkt l.now)))
  | .replay seen sess, .retained m =>
    (replayedMsg m seen).map fun msg => st.hand sess msg true l.now
  | .deliver source seen sess, .routing pkt =>
    (routedMsg ⟨pkt, source, 0⟩ seen l.now).map fun msg => st.hand sess msg false l.now
  | .deliverShared source subQoS seen sess, .routing pkt =>
    (sharedMsg source pkt subQoS seen l.now).map fun msg => st.hand sess msg false l.now
  | .flush sess, .buffered msg => some (st.hand sess msg false l.now)
  | .persist, .buffered msg => some (st.move (.queued (bufferedMessage msg)))
  | .enqueue data, .routing pkt =>
    if pkt.fixedHeader.qos = 0 ∨ sessionExpired data l.now then none
    else some (st.move (.queued (offlineMessage data pkt (messageExpiresAt pkt l.now))))
  | .drain seen sess, .queued m =>
    (queuedMsg m seen l.now).map fun msg => st.hand sess msg false l.now
  | .saveInflight, .inflight ver m => some (st.move (.inflightRecord ver m.store))
  | .restoreInflight, .inflightRecord ver m => some (st.move (.inflight ver m.restore))
  | .resend protocolVer, .inflight ver m =>
    -- past its PUBREC the delivery goes on with PUBREL
    if m.qos = 2 ∧ m.pendingPubRel = true then none
    else
      some { st with
        sent := st.sent ++
          [⟨protocolVer, ver, Outbound.buildRetransmitPublish m l.now, l.now, false⟩] }
  | _, _ => none

def init (pkt : PublishPacket) : State := { copy := .received pkt }

/-! ## What a message carries -/

/-- The properties a delivery has to relay as they were published. -/
structure Relayed where
  payloadFormat : Option UInt8 := none
  contentType : Str := []
  responseTopic : Str := []
  correlationData : Option Bytes := none
  userProperties : List UserProperty := []
deriving DecidableEq

def relayed : Option Properties → Relayed
  | none => {}
  | some p => ⟨p.payloadFormat, p.contentType, p.responseTopic, p.correlationData, p.userProperties⟩

def relayedRecord (sp : MessageProperties) : Relayed :=
  ⟨sp.payloadFormat, sp.contentType, sp.responseTopic, sp.correlationData, sp.userProperties⟩

def interval (props : Option Properties) : Option UInt32 := props.bind (·.messageExpiryInterval)

variable (props : Option Properties) (s : Inbound) {effects : List Effect}

theorem relayedRecord_storeProperties : relayedRecord (storeProperties props) = relayed props := by
  cases props <;> rfl

theorem relayed_protocolProperties (sp : MessageProperties) :
    relayed (protocolProperties sp) = relayedRecord sp := by
  unfold protocolProperties
  split_ifs with h
  · obtain ⟨h₁, h₂, h₃, h₄, h₅, -⟩ := h
    simp [relayed, relayedRecord, h₁, h₂, h₃, h₄, h₅]
  · rfl

theorem interval_protocolProperties (sp : MessageProperties) :
    interval (protocolProperties sp) = none := by
  unfold protocolProperties
  split_ifs <;> rfl

theorem relayed_forwarded (subIDs : List UInt32) (expiresAt : Option ℕ) (now : ℕ) :
    relayed (forwardedPublishProperties props subIDs expiresAt now) = relayed props := by
  unfold forwardedPublishProperties
  cases props with
  | none => split_ifs <;> rfl
  | some p =>
    simp only
    by_cases hp : (p.payloadFormat.isSome || p.contentType ≠ [] || p.responseTopic ≠ [] ||
        p.correlationData.isSome || p.userProperties ≠ []) = true
    · split_ifs <;> rfl
    · simp only [Bool.or_eq_true, decide_eq_true_eq, not_or, not_not, Option.isSome_iff_ne_none]
        at hp
      obtain ⟨⟨⟨⟨h₁, h₂⟩, h₃⟩, h₄⟩, h₅⟩ := hp
      split_ifs <;> simp [relayed, h₁, h₂, h₃, h₄, h₅]

theorem interval_forwarded (subIDs : List UInt32) (expiresAt : Option ℕ) (now : ℕ) :
    interval (forwardedPublishProperties props subIDs expiresAt now) =
      expiresAt.map (remainingExpiry · now) := by
  have hadd : ∀ out : Option Properties, interval out = none →
      interval (if subIDs = [] ∧ expiresAt = none then out
        else some { out.getD {} with
          subscriptionIdentifier := subIDs
          messageExpiryInterval := expiresAt.map (remainingExpiry · now) }) =
        expiresAt.map (remainingExpiry · now) := by
    intro out hout
    split_ifs with hnone
    · rw [hout, hnone.2]
      rfl
    · rfl
  apply hadd
  cases props with
  | none => rfl
  | some p =>
    simp only
    split_ifs <;> rfl

/-- The publisher's properties and how long the message may live: the interval as it was
received, or the deadline it has become. -/
structure Content where
  relay : Relayed
  interval : Option UInt32
  deadline : Option ℕ

namespace Content

def ofPublish (pkt : PublishPacket) : Content :=
  ⟨relayed pkt.properties, MessagePaths.interval pkt.properties, none⟩

def fix (c : Content) (now : ℕ) : Content where
  relay := c.relay
  interval := none
  deadline := c.deadline <|>
    c.interval.bind fun e => if e > 0 then some (now + e.toNat * second) else none

/-- What a hop does to the content. Staging records keep no interval, queued ones no
properties, and a message queued without a deadline gets the one of the session. -/
def after (c : Content) (l : Label) : Content :=
  match l.hop with
  | .saveInbound => { c with interval := none }
  | .retain | .deliver _ _ _ | .deliverShared _ _ _ _ => c.fix l.now
  | .enqueue data =>
    { relay := {}
      interval := none
      deadline := (c.fix l.now).deadline <|>
        if data.expiryInterval > 0 then data.expiryTime else none }
  | .persist => { c with relay := {} }
  | _ => c

/-- What a PUBLISH built for this version relays. -/
def relayFor (c : Content) (ver : UInt8) : Relayed :=
  if (specFor ver).properties then c.relay else {}

end Content

/-- The packet has not been given a deadline yet. -/
def Holds (c : Content) (props : Option Properties) : Prop :=
  relayed props = c.relay ∧ interval props = c.interval ∧ c.deadline = none

/-- The interval has become the deadline of the record. -/
def Fixed (c : Content) (expiresAt : Option ℕ) : Prop := expiresAt = c.deadline ∧ c.interval = none

def Copy.Carries (c : Content) : Copy → Prop
  | .received pkt | .routing pkt | .retaining pkt => Holds c pkt.properties
  | .staged m => Holds c m.properties
  | .stagedRecord m => relayedRecord m.properties = c.relay ∧ c.interval = none ∧ c.deadline = none
  | .retained m => relayedRecord m.properties = c.relay ∧ Fixed c m.expiresAt
  | .buffered m => relayed m.pkt.properties = c.relay ∧ Fixed c m.expiresAt
  | .queued m => c.relay = {} ∧ Fixed c m.expiresAt
  | .inflight ver m =>
    relayed m.properties = c.relayFor ver ∧ Fixed c m.expiresAt ∧
      (m.expiresAt = none → interval m.properties = none)
  | .inflightRecord ver m => relayedRecord m.properties = c.relayFor ver ∧ Fixed c m.expiresAt
  | .gone => True

/-- What is written for a message with this content. -/
structure Presents (c : Content) (s : Sent) : Prop where
  relay : relayed s.pub.properties = c.relayFor s.builtFor
  advertised : ∀ i, interval s.pub.properties = some i →
    ∃ d, c.deadline = some d ∧ i = remainingExpiry d s.now
  started : s.first = true → ∀ d, c.deadline = some d → s.now ≤ d
  fixed : c.interval = none

variable {c : Content}

theorem messageExpiresAt_of_holds (h : Holds c pkt.properties) (now : ℕ) :
    messageExpiresAt pkt now = (c.fix now).deadline := by
  have hinterval : pkt.properties.bind (·.messageExpiryInterval) = c.interval := h.2.1
  unfold messageExpiresAt Content.fix
  rw [hinterval, h.2.2]
  cases c.interval <;> rfl

/-! ## `doDeliver` -/

/-- The properties of the PUBLISH built for a message, in any version. -/
theorem presents_outboundPublish (retainedDelivery : Bool)
    (hrelay : relayed msg.pkt.properties = c.relay) (hfixed : Fixed c msg.expiresAt)
    (hlive : expired msg.expiresAt now = false) {pub : PublishPacket}
    (hpub : pub.properties = (sess.outboundPublish msg retainedDelivery now).properties) :
    Presents c ⟨sess.protocolVer, sess.protocolVer, pub, now, true⟩ where
  relay := by
    rw [hpub]
    simp only [Session.outboundPublish, Content.relayFor]
    split_ifs
    · rw [relayed_forwarded]
      exact hrelay
    · rfl
  advertised := by
    intro i hi
    rw [hpub] at hi
    simp only [Session.outboundPublish] at hi
    split_ifs at hi
    · rw [interval_forwarded, hfixed.1] at hi
      obtain ⟨d, hd, rfl⟩ := Option.map_eq_some_iff.mp hi
      exact ⟨d, hd, rfl⟩
    · cases hi
  started := by
    intro _ d hd
    rw [hfixed.1, hd] at hlive
    exact not_lt.mp (of_decide_eq_false hlive)
  fixed := hfixed.2

/-- What `doDeliver` makes of the copy: nothing is written, or the PUBLISH built for a
message that has not expired, with the entry that tracks it unless it has QoS 0. -/
theorem State.hand_cases (st : State) (sess : Session) (msg : OutboundMsg)
    (retainedDelivery : Bool) (now : ℕ) :
    ((sess.doDeliver msg retainedDelivery now).2 = none ∧
        ∃ copy, (copy = .buffered msg ∨ copy = .gone) ∧
          st.hand sess msg retainedDelivery now = st.move copy) ∨
      (expired msg.expiresAt now = false ∧ ∃ id copy,
        (copy = .gone ∨ copy = .inflight sess.protocolVer (Session.inflightOf msg
            (sess.outboundPublish msg retainedDelivery now) sess.nextPacketID.1)) ∧
          (sess.doDeliver msg retainedDelivery now).2 =
            some { sess.outboundPublish msg retainedDelivery now with packetID := id } ∧
          st.hand sess msg retainedDelivery now =
            ⟨copy, st.sent ++ [⟨sess.protocolVer, sess.protocolVer,
              { sess.outboundPublish msg retainedDelivery now with packetID := id }, now, true⟩]⟩) := by
  unfold State.hand
  cases hd : sess.doDeliver msg retainedDelivery now with
  | mk sess' pub =>
    unfold Session.doDeliver at hd
    split_ifs at hd with hexp hfull hqos <;> cases hd
    · simp [State.move]
    · refine Or.inl ⟨rfl, _, ?_, rfl⟩
      split_ifs
      · exact Or.inl rfl
      · exact Or.inr rfl
    · refine Or.inr ⟨eq_false_of_ne_true hexp, _, _, Or.inr rfl, rfl, ?_⟩
      simp [hqos, Session.incOutboundUnacked, Session.addInflight, Keyed.lookup_insert,
        Session.inflightOf]
      rfl
    · refine Or.inr ⟨eq_false_of_ne_true hexp, _, _, Or.inl rfl, rfl, ?_⟩
      simp only [if_neg hqos]
      rfl

theorem carries_hand (hrelay : relayed msg.pkt.properties = c.relay)
    (hfixed : Fixed c msg.expiresAt) (st : State) (retainedDelivery : Bool) (now : ℕ) :
    (st.hand sess msg retainedDelivery now).copy.Carries c ∧
      ((st.hand sess msg retainedDelivery now).sent = st.sent ∨
        ∃ s, (st.hand sess msg retainedDelivery now).sent = st.sent ++ [s] ∧ Presents c s) := by
  obtain ⟨-, copy, hcopy, he⟩ | ⟨hlive, id, copy, hcopy, -, he⟩ :=
    st.hand_cases sess msg retainedDelivery now
  · rw [he]
    refine ⟨?_, Or.inl rfl⟩
    rcases hcopy with rfl | rfl
    · exact ⟨hrelay, hfixed⟩
    · trivial
  · have hpresents : Presents c ⟨sess.protocolVer, sess.protocolVer,
        { sess.outboundPublish msg retainedDelivery now with packetID := id }, now, true⟩ :=
      presents_outboundPublish retainedDelivery hrelay hfixed hlive rfl
    rw [he]
    refine ⟨?_, Or.inr ⟨_, rfl, hpresents⟩⟩
    rcases hcopy with rfl | rfl
    · trivial
    · refine ⟨hpresents.relay, hfixed, fun hnone => ?_⟩
      cases hi : interval (sess.outboundPublish msg retainedDelivery now).properties with
      | none => exact hi
      | some i =>
        obtain ⟨d, hd, -⟩ := hpresents.advertised i hi
        rw [← hfixed.1] at hd
        exact absurd (hnone.symm.trans hd) (by simp)

/-! ## Arriving -/

def Quiet (effects : List Effect) : Prop := ∀ p, Effect.route p ∉ effects ∧ Effect.retain p ∉ effects

theorem quiet_ackDiscardedPublish (pkt : PublishPacket) (reason : UInt8) :
    Quiet (s.ackDiscardedPublish pkt reason) := by
  intro p
  unfold Inbound.ackDiscardedPublish
  split_ifs <;> simp

theorem quiet_closeProtocolViolation (reason : UInt8) :
    Quiet (s.closeProtocolViolationWithReason reason) := by
  intro p
  unfold Inbound.closeProtocolViolationWithReason
  split_ifs <;> simp

theorem quiet_rejectInboundOverBudget (pkt : PublishPacket) :
    Quiet (s.rejectInboundOverBudget pkt) := by
  unfold Inbound.rejectInboundOverBudget
  split_ifs
  · exact quiet_closeProtocolViolation s _
  · exact quiet_ackDiscardedPublish s pkt _

/-- What goes on from a handler has the properties `props`. -/
structure Keeps (props : Option Properties) (s : Inbound) (r : Inbound × List Effect) : Prop where
  effects : ∀ p, Effect.route p ∈ r.2 ∨ Effect.retain p ∈ r.2 → p.properties = props
  staged : ∀ id m, r.1.inboundQoS2.lookup id = some m →
    s.inboundQoS2.lookup id = some m ∨ m.properties = props

theorem Keeps.of_quiet {props : Option Properties} {s s' : Inbound} (hquiet : Quiet effects)
    (hstaged : s'.inboundQoS2 = s.inboundQoS2) : Keeps props s (s', effects) where
  effects := by
    rintro p (hroute | hretain)
    · exact absurd hroute (hquiet p).1
    · exact absurd hretain (hquiet p).2
  staged := by
    intro id m hm
    rw [hstaged] at hm
    exact Or.inl hm

theorem mem_retainEffects (h : Effect.retain p ∈ Inbound.retainEffects pkt) : p = pkt := by
  unfold Inbound.retainEffects at h
  split_ifs at h
  · simpa using h
  · cases h

theorem not_route_mem_retainEffects : Effect.route p ∉ Inbound.retainEffects pkt := by
  unfold Inbound.retainEffects
  split_ifs <;> simp

theorem keeps_handleQoS2 (pkt : PublishPacket) : Keeps pkt.properties s (s.handleQoS2 pkt) := by
  fun_cases Inbound.handleQoS2 s pkt with
  | case1 => exact Keeps.of_quiet (fun p => by simp) rfl
  | case2 => exact Keeps.of_quiet (quiet_rejectInboundOverBudget s pkt) rfl
  | case3 _ s' hadded =>
    cases (Option.ite_none_left_eq_some.mp hadded).2
    refine ⟨fun p hp => ?_, fun id m hm => ?_⟩
    · simp only [List.mem_append, List.mem_singleton, reduceCtorEq, or_false] at hp
      rcases hp with hroute | hretain
      · exact absurd hroute not_route_mem_retainEffects
      · rw [mem_retainEffects hretain]
    · simp only [Keyed.lookup_insert] at hm
      split_ifs at hm
      · obtain rfl := Option.some.inj hm
        exact Or.inr rfl
      · exact Or.inl hm

/-- A PUBLISH goes nowhere, or has not expired and goes on as it is. -/
theorem handlePublish_outcome (policy : Policy) (s : Inbound) (pkt : PublishPacket) :
    (Quiet (s.handlePublish policy pkt).2 ∧
        (s.handlePublish policy pkt).1.inboundQoS2 = s.inboundQoS2) ∨
      (Keeps pkt.properties s (s.handlePublish policy pkt) ∧
        Inbound.arrivesExpired pkt = false) := by
  obtain ⟨aliases, ⟨-, reason, he⟩ | ⟨reason, -, he, -⟩ | ⟨-, hlive, topic, -, he⟩⟩ :=
    Inbound.handlePublish_cases policy s pkt <;> rw [he]
  · exact Or.inl ⟨quiet_closeProtocolViolation s _, rfl⟩
  · exact Or.inl ⟨quiet_ackDiscardedPublish s pkt _, rfl⟩
  · refine Or.inr ⟨?_, hlive⟩
    unfold Inbound.accept
    split_ifs
    · have hkeeps := keeps_handleQoS2 { s with topicAliases := aliases } { pkt with topic := topic }
      exact ⟨hkeeps.effects, hkeeps.staged⟩
    all_goals
      refine ⟨fun p hp => ?_, fun id m hm => Or.inl hm⟩
      simp only [List.mem_append, List.mem_cons, Effect.route.injEq, reduceCtorEq,
        List.not_mem_nil, or_false] at hp
      rcases hp with (hroute | rfl) | hretain
      · exact absurd hroute not_route_mem_retainEffects
      · rfl
      · rw [mem_retainEffects hretain]

theorem findSome?_routeEffect (h : effects.findSome? routeEffect = some p) :
    Effect.route p ∈ effects := by
  obtain ⟨e, he, hp⟩ := List.exists_of_findSome?_eq_some h
  cases e <;> cases hp
  exact he

theorem findSome?_retainEffect (h : effects.findSome? retainEffect = some p) :
    Effect.retain p ∈ effects := by
  obtain ⟨e, he, hp⟩ := List.exists_of_findSome?_eq_some h
  cases e <;> cases hp
  exact he

theorem arrive_spec {policy : Policy} {inb : Inbound} {branch : Branch} {copy : Copy}
    (h : arrive policy inb pkt branch = some copy) :
    (∀ c, Holds c pkt.properties → copy.Carries c) ∧ Inbound.arrivesExpired pkt = false := by
  have houtcome := handlePublish_outcome policy inb pkt
  cases branch with
  | route =>
    obtain ⟨p, hp, rfl⟩ := Option.map_eq_some_iff.mp h
    have hmem := findSome?_routeEffect hp
    obtain ⟨hkeeps, hlive⟩ := houtcome.resolve_left fun hquiet => (hquiet.1 p).1 hmem
    refine ⟨fun c hc => ?_, hlive⟩
    show Holds c p.properties
    rw [hkeeps.effects p (Or.inl hmem)]
    exact hc
  | retain =>
    obtain ⟨p, hp, rfl⟩ := Option.map_eq_some_iff.mp h
    have hmem := findSome?_retainEffect hp
    obtain ⟨hkeeps, hlive⟩ := houtcome.resolve_left fun hquiet => (hquiet.1 p).2 hmem
    refine ⟨fun c hc => ?_, hlive⟩
    show Holds c p.properties
    rw [hkeeps.effects p (Or.inr hmem)]
    exact hc
  | stage =>
    unfold arrive at h
    split_ifs at h with hstaged
    obtain ⟨m, hm, rfl⟩ := Option.map_eq_some_iff.mp h
    have hnew : inb.inboundQoS2.lookup pkt.packetID ≠ some m := by
      intro hold
      apply hstaged
      unfold Inbound.hasInboundQoS2
      rw [hold]
      rfl
    obtain ⟨hkeeps, hlive⟩ := houtcome.resolve_left fun hquiet => hnew (hquiet.2 ▸ hm)
    refine ⟨fun c hc => ?_, hlive⟩
    show Holds c m.properties
    rw [(hkeeps.staged pkt.packetID m hm).resolve_left hnew]
    exact hc

/-! ## Every hop does what `Content.after` says -/

/-- The copy has the content, and so has what is written in the step, if anything. -/
def Follows (st st' : State) (c : Content) : Prop :=
  st'.copy.Carries c ∧ (st'.sent = st.sent ∨ ∃ s, st'.sent = st.sent ++ [s] ∧ Presents c s)

theorem follows_move {copy : Copy} (h : copy.Carries c) :
    Follows st (st.move copy) c := ⟨h, Or.inl rfl⟩

theorem follows_routed (hc : Holds c pkt.properties) (hpkt : msg.pkt = pkt)
    (hexpires : msg.expiresAt = messageExpiresAt pkt now) :
    Follows st (st.hand sess msg false now) (c.fix now) := by
  apply carries_hand
  · rw [hpkt]
    exact hc.1
  · exact ⟨hexpires.trans (messageExpiresAt_of_holds hc now), rfl⟩

theorem routedMsg_spec {source : Str} (h : routedMsg ⟨pkt, source, 0⟩ sess now = some msg) :
    msg.pkt = pkt ∧ msg.expiresAt = messageExpiresAt pkt now := by
  unfold routedMsg at h
  simp only [Option.ite_none_left_eq_some, Option.some.injEq] at h
  obtain ⟨-, -, rfl⟩ := h
  exact ⟨rfl, rfl⟩

theorem sharedMsg_spec {source : Str} {subQoS : ℕ}
    (h : sharedMsg source pkt subQoS sess now = some msg) :
    msg.pkt = pkt ∧ msg.expiresAt = messageExpiresAt pkt now := by
  unfold sharedMsg at h
  simp only [Option.ite_none_left_eq_some, Option.some.injEq] at h
  obtain ⟨-, rfl⟩ := h
  exact ⟨rfl, rfl⟩

theorem replayedMsg_spec {m : RetainedMessage} (h : replayedMsg m sess = some msg) :
    relayed msg.pkt.properties = relayedRecord m.properties ∧ msg.expiresAt = m.expiresAt ∧
      msg.pkt.fixedHeader.retain = true := by
  unfold replayedMsg at h
  simp only [Option.ite_none_left_eq_some, Option.some.injEq] at h
  obtain ⟨-, rfl⟩ := h
  exact ⟨relayed_protocolProperties m.properties, rfl, rfl⟩

theorem queuedMsg_spec {m : StoredMessage} (h : queuedMsg m sess now = some msg) :
    relayed msg.pkt.properties = {} ∧ msg.expiresAt = m.expiresAt ∧
      msg.pkt.fixedHeader.retain = m.retain := by
  unfold queuedMsg Process.round at h
  simp only at h
  split_ifs at h <;> cases h
  all_goals
    refine ⟨?_, rfl, rfl⟩
    unfold queuedPublish
    simp only
    split_ifs
    · cases m.expiresAt <;> rfl
    · rfl

/-- A retransmission has the properties of the entry, with the time that is left. -/
theorem presents_buildRetransmitPublish {protocolVer ver : UInt8} {m : InflightMsg}
    (h : (Copy.inflight ver m).Carries c) (now : ℕ) :
    Presents c ⟨protocolVer, ver, Outbound.buildRetransmitPublish m now, now, false⟩ where
  relay := by
    rw [← h.1]
    unfold Outbound.buildRetransmitPublish
    cases m.properties <;> cases m.expiresAt <;> rfl
  advertised := by
    intro i hi
    rw [← h.2.1.1]
    have hnone := h.2.2
    unfold Outbound.buildRetransmitPublish at hi
    cases hp : m.properties with
    | none =>
      simp only [hp] at hi
      cases hi
    | some props =>
      cases hd : m.expiresAt with
      | none =>
        simp only [hp, hd] at hi
        rw [hp] at hnone
        rw [hnone hd] at hi
        cases hi
      | some d =>
        simp only [hp, hd] at hi
        exact ⟨d, rfl, (Option.some.inj hi).symm⟩
  started := by
    intro hfirst
    cases hfirst
  fixed := h.2.1.2

theorem follows_step {st' : State} {l : Label} (h : step st l = some st') (hc : st.copy.Carries c) :
    Follows st st' (c.after l) := by
  obtain ⟨hop, now⟩ := l
  obtain ⟨copy, sent⟩ := st
  unfold step at h
  simp only at h
  split at h
  · obtain ⟨copy, harrive, rfl⟩ := Option.map_eq_some_iff.mp h
    exact follows_move ((arrive_spec harrive).1 c hc)
  next m =>
    cases h
    refine follows_move ⟨?_, rfl, hc.2.2⟩
    exact (relayedRecord_storeProperties m.properties).trans hc.1
  next m =>
    cases h
    refine follows_move ⟨?_, ?_, hc.2.2⟩
    · exact (relayed_protocolProperties m.properties).trans hc.1
    · exact (interval_protocolProperties m.properties).trans hc.2.1.symm
  · cases h
    exact follows_move hc
  next pkt =>
    split_ifs at h
    cases h
    refine follows_move ⟨?_, ?_, rfl⟩
    · exact (relayedRecord_storeProperties pkt.properties).trans hc.1
    · exact messageExpiresAt_of_holds hc now
  · obtain ⟨msg, hmsg, rfl⟩ := Option.map_eq_some_iff.mp h
    obtain ⟨hrelay, hexpires, -⟩ := replayedMsg_spec hmsg
    exact carries_hand (hrelay.trans hc.1) (hexpires ▸ hc.2) ⟨_, sent⟩ true now
  · obtain ⟨msg, hmsg, rfl⟩ := Option.map_eq_some_iff.mp h
    obtain ⟨hpkt, hexpires⟩ := routedMsg_spec hmsg
    exact follows_routed hc hpkt hexpires
  · obtain ⟨msg, hmsg, rfl⟩ := Option.map_eq_some_iff.mp h
    obtain ⟨hpkt, hexpires⟩ := sharedMsg_spec hmsg
    exact follows_routed hc hpkt hexpires
  · cases h
    exact carries_hand hc.1 hc.2 ⟨_, sent⟩ false now
  · cases h
    exact follows_move ⟨rfl, hc.2⟩
  · split_ifs at h
    cases h
    refine follows_move ⟨rfl, ?_, rfl⟩
    rw [messageExpiresAt_of_holds hc now]
    rfl
  · obtain ⟨msg, hmsg, rfl⟩ := Option.map_eq_some_iff.mp h
    obtain ⟨hrelay, hexpires, -⟩ := queuedMsg_spec hmsg
    exact carries_hand (hrelay.trans hc.1.symm) (hexpires ▸ hc.2) ⟨_, sent⟩ false now
  next ver m =>
    cases h
    exact follows_move ⟨(relayedRecord_storeProperties m.properties).trans hc.1, hc.2.1⟩
  next ver m =>
    cases h
    refine follows_move ⟨?_, hc.2, fun _ => interval_protocolProperties m.properties⟩
    exact (relayed_protocolProperties m.properties).trans hc.1
  · split_ifs at h
    cases h
    refine ⟨hc, Or.inr ⟨_, rfl, ?_⟩⟩
    exact presents_buildRetransmitPublish hc now
  · cases h

/-! ## Runs -/

def Copy.pending : Copy → Bool
  | .inflight _ _ | .inflightRecord _ _ | .gone => false
  | _ => true

theorem sent_hand_of_pending {retainedDelivery : Bool}
    (h : (st.hand sess msg retainedDelivery now).copy.pending = true) :
    (st.hand sess msg retainedDelivery now).sent = st.sent := by
  obtain ⟨-, copy, -, he⟩ | ⟨-, id, copy, hcopy, -, he⟩ :=
    st.hand_cases sess msg retainedDelivery now
  · rw [he]
    rfl
  · rw [he] at h
    rcases hcopy with rfl | rfl <;> cases h

/-- Once the message has been sent, no hop changes its content. -/
theorem step_pending {st' : State} {l : Label} (h : step st l = some st') :
    (st.copy.pending = true ∧ (st'.copy.pending = true → st'.sent = st.sent)) ∨
      (st'.copy.pending = false ∧ ∀ c : Content, c.after l = c) := by
  obtain ⟨hop, now⟩ := l
  unfold step at h
  simp only at h
  split at h
  case h_1 _ _ hcopy =>
    obtain ⟨copy, -, rfl⟩ := Option.map_eq_some_iff.mp h
    exact Or.inl ⟨by rw [hcopy]; rfl, fun _ => rfl⟩
  case h_13 | h_14 =>
    cases h
    exact Or.inr ⟨rfl, fun _ => rfl⟩
  case h_15 _ _ _ hcopy =>
    split_ifs at h
    cases h
    exact Or.inr ⟨by rw [hcopy]; rfl, fun _ => rfl⟩
  case h_16 => cases h
  case h_5 _ hcopy | h_11 _ _ hcopy =>
    split_ifs at h
    cases h
    exact Or.inl ⟨by rw [hcopy]; rfl, fun _ => rfl⟩
  case h_2 _ hcopy | h_3 _ hcopy | h_4 _ hcopy | h_10 _ hcopy =>
    cases h
    exact Or.inl ⟨by rw [hcopy]; rfl, fun _ => rfl⟩
  case h_9 _ _ hcopy =>
    cases h
    exact Or.inl ⟨by rw [hcopy]; rfl, sent_hand_of_pending⟩
  all_goals
    next hcopy =>
      obtain ⟨msg, -, rfl⟩ := Option.map_eq_some_iff.mp h
      exact Or.inl ⟨by rw [hcopy]; rfl, sent_hand_of_pending⟩

def Content.run (c : Content) (ls : List Label) : Content := ls.foldl Content.after c

/-- On every way the record has the content `Content.after` gives it, and so has every
PUBLISH written for the message. -/
theorem sent_presents (pkt : PublishPacket) (ls : List Label) :
    ∀ st, exec step (init pkt) ls = some st →
      st.copy.Carries ((Content.ofPublish pkt).run ls) ∧
        (∀ s ∈ st.sent, Presents ((Content.ofPublish pkt).run ls) s) ∧
        (st.copy.pending = true → st.sent = []) := by
  induction ls using List.reverseRecOn with
  | nil =>
    intro st h
    cases h
    exact ⟨⟨rfl, rfl, rfl⟩, by simp [init], fun _ => rfl⟩
  | append_singleton ls l ih =>
    intro st' h
    obtain ⟨st, hst, hlast⟩ := exec_append_eq_some.mp h
    obtain ⟨st₁, hstep, hnil⟩ := exec_cons_eq_some.mp hlast
    cases hnil
    obtain ⟨hcarries, hsent, hpending⟩ := ih st hst
    obtain ⟨hcarries', hsent'⟩ := follows_step hstep hcarries
    have hrun : (Content.ofPublish pkt).run (ls ++ [l]) =
        ((Content.ofPublish pkt).run ls).after l := by
      unfold Content.run
      rw [List.foldl_append]
      rfl
    rw [hrun]
    -- what was sent before this step was sent with the content it still has
    have hold : ∀ s ∈ st.sent, Presents (((Content.ofPublish pkt).run ls).after l) s := by
      intro s hs
      rcases step_pending hstep with ⟨hp, -⟩ | ⟨-, hsame⟩
      · rw [hpending hp] at hs
        cases hs
      · rw [hsame]
        exact hsent s hs
    refine ⟨hcarries', ?_, ?_⟩
    · intro s hs
      rcases hsent' with heq | ⟨s', heq, hnew⟩
      · exact hold s (heq ▸ hs)
      · rw [heq, List.mem_append, List.mem_singleton] at hs
        rcases hs with hs | rfl
        · exact hold s hs
        · exact hnew
    · intro hp'
      rcases step_pending hstep with ⟨hp, hsame⟩ | ⟨hnot, -⟩
      · rw [hsame hp', hpending hp]
      · rw [hnot] at hp'
        cases hp'

end SharkMqtt.Broker.MessagePaths
