import SharkMqtt.Broker.Session

/-!
# Outbound deliveries

The outbound half of a session: `doDeliver` and `flushBufferedOutbound`
(`broker/pub_sub.go`), the acknowledgements (`broker/qos_outbound.go`), the
give-up callback (`broker/broker.go`), `Save` and `Restore` (`broker/session.go`)
and what a connect and a disconnect do to the session (`HandleConnection`,
`disconnect`). Each function is one of the source, on the session it works with;
what it writes to the wire is part of its result.

Times are nanoseconds; a zero `time.Time` is `none`.
-/

namespace SharkMqtt.Broker

open Protocol Lib

/-! ## Packet identifiers -/

/-- `packetIDSeq++`, skipping 0. -/
def nextSeq (seq : UInt16) : UInt16 := if seq + 1 = 0 then 1 else seq + 1

/-- The loop of `NextPacketID`: the identifier and the new sequence number. When
every attempt meets an identifier in use, the next one is taken anyway. -/
def scanPacketID (inUse : UInt16 → Bool) : ℕ → UInt16 → UInt16 × UInt16
  | 0, seq => (seq, nextSeq seq)
  | attempts + 1, seq =>
    if inUse seq then scanPacketID inUse attempts (nextSeq seq) else (seq, nextSeq seq)

namespace Session

def inUse (s : Session) (id : UInt16) : Bool := (s.inflight.lookup id).isSome

def nextPacketID (s : Session) : UInt16 × Session :=
  let r := scanPacketID s.inUse 65535 s.packetIDSeq
  (r.1, { s with packetIDSeq := r.2 })

/-! ## The operations of the session -/

def addInflight (s : Session) (msg : InflightMsg) : Session :=
  { s with inflight := s.inflight.insert msg }

def removeInflight (s : Session) (id : UInt16) : Bool × Session :=
  if s.inUse id then (true, { s with inflight := s.inflight.erase id }) else (false, s)

/-- A QoS 1 delivery and an unknown identifier are left untouched. -/
def markInflightPubRel (s : Session) (id : UInt16) : Session :=
  match s.inflight.lookup id with
  | none => s
  | some msg => if msg.qos = 2 then s.addInflight { msg with pendingPubRel := true } else s

def canSendOutbound (s : Session) : Bool := decide (s.outboundUnacked < s.outboundWindow.toNat)

def incOutboundUnacked (s : Session) : Session :=
  { s with outboundUnacked := s.outboundUnacked + 1 }

def decOutboundUnacked (s : Session) : Session :=
  { s with outboundUnacked := s.outboundUnacked - 1 }

def resetOutboundUnacked (s : Session) : Session := { s with outboundUnacked := 0 }

/-- `markInflightPubRel` stores an entry over itself. -/
theorem markInflightPubRel_eq (s : Session) (id : UInt16) :
    ∃ table, s.markInflightPubRel id = { s with inflight := table } ∧
      table.size = s.inflight.size ∧
      ∀ id', table.lookup id' = (s.inflight.lookup id').map fun msg =>
        if id' = id ∧ msg.qos = 2 then { msg with pendingPubRel := true } else msg := by
  have hsame : (∀ msg, s.inflight.lookup id = some msg → msg.qos ≠ 2) → ∀ id',
      s.inflight.lookup id' = (s.inflight.lookup id').map fun msg =>
        if id' = id ∧ msg.qos = 2 then { msg with pendingPubRel := true } else msg := by
    intro hqos id'
    cases hm : s.inflight.lookup id' with
    | none => rfl
    | some msg =>
      rw [Option.map_some, if_neg]
      rintro ⟨rfl, hq⟩
      exact hqos msg hm hq
  fun_cases markInflightPubRel s id with
  | case1 hm => exact ⟨_, rfl, rfl, hsame (by simp [hm])⟩
  | case2 msg hm hq =>
    have hkey : msg.packetID = id := s.inflight.keyed id msg hm
    refine ⟨_, rfl, ?_, fun id' => (Keyed.lookup_insert s.inflight _ id').trans ?_⟩
    · rw [Keyed.size_insert, hkey, hm]
      rfl
    · by_cases hid : id' = id
      · simp [hid, hkey, hm, hq]
      · simp [hid, hkey]
  | case3 msg hm hq => exact ⟨_, rfl, rfl, hsame (by simpa [hm] using hq)⟩

end Session

def maxBufferedOutbound : ℕ := 1000

namespace Session

def bufferOutbound (s : Session) (msg : OutboundMsg) : Bool × Session :=
  if s.outboundQueue.length ≥ maxBufferedOutbound then (false, s)
  else (true, { s with outboundQueue := s.outboundQueue ++ [msg] })

def popOutbound (s : Session) : Option (OutboundMsg × Session) :=
  match s.outboundQueue with
  | [] => none
  | msg :: rest => some (msg, { s with outboundQueue := rest })

end Session

/-! ## `doDeliver` -/

def second : ℕ := 1000000000

/-- `time.Now().After(expiresAt)` for a deadline that is set. -/
def expired (expiresAt : Option ℕ) (now : ℕ) : Bool :=
  match expiresAt with
  | none => false
  | some t => decide (t < now)

def remainingExpiry (expiresAt now : ℕ) : UInt32 :=
  if expiresAt ≤ now then 0
  else if expiresAt - now < second then 1
  else ((expiresAt - now) / second).toUInt32

/-- The publisher's properties a delivery relays, with the subscription
identifiers and the remaining expiry of this subscriber. -/
def forwardedPublishProperties (props : Option Properties) (subIDs : List UInt32)
    (expiresAt : Option ℕ) (now : ℕ) : Option Properties :=
  let out : Option Properties :=
    match props with
    | none => none
    | some p =>
      if p.payloadFormat.isSome || p.contentType ≠ [] || p.responseTopic ≠ [] ||
          p.correlationData.isSome || p.userProperties ≠ [] then
        some
          { payloadFormat := p.payloadFormat
            contentType := p.contentType
            responseTopic := p.responseTopic
            correlationData := p.correlationData
            userProperties := p.userProperties }
      else none
  if subIDs = [] ∧ expiresAt = none then out
  else
    some
      { out.getD {} with
        subscriptionIdentifier := subIDs
        messageExpiryInterval := expiresAt.map (remainingExpiry · now) }

namespace Session

/-- The PUBLISH built for this subscriber, before its packet identifier. -/
def outboundPublish (s : Session) (msg : OutboundMsg) (retainedDelivery : Bool) (now : ℕ) :
    PublishPacket where
  fixedHeader :=
    { packetType := .publish
      qos := msg.deliverQoS.toUInt8
      retain := retainedDelivery || (msg.subOpts.retainAsPublished && msg.pkt.fixedHeader.retain) }
  topic := msg.pkt.topic
  payload := msg.pkt.payload
  properties :=
    if (specFor s.protocolVer).properties then
      forwardedPublishProperties msg.pkt.properties msg.subIDs msg.expiresAt now
    else none

def inflightOf (msg : OutboundMsg) (pub : PublishPacket) (id : UInt16) : InflightMsg where
  packetID := id
  qos := msg.deliverQoS
  topic := msg.pkt.topic
  payload := msg.pkt.payload
  retain := pub.fixedHeader.retain
  expiresAt := msg.expiresAt
  properties := pub.properties

/-- `doDeliver` on the session it finds: the new session, and the PUBLISH handed
to `writePacket` if there is one. -/
def doDeliver (s : Session) (msg : OutboundMsg) (retainedDelivery : Bool) (now : ℕ) :
    Session × Option PublishPacket :=
  if expired msg.expiresAt now then (s, none)
  else if msg.deliverQoS > 0 && !s.canSendOutbound then ((s.bufferOutbound msg).2, none)
  else
    let pub := s.outboundPublish msg retainedDelivery now
    if msg.deliverQoS > 0 then
      let (id, s) := s.nextPacketID
      ((s.addInflight (inflightOf msg pub id)).incOutboundUnacked, some { pub with packetID := id })
    else (s, some pub)

end Session

/-! ## What one delivery does to the session -/

namespace Session

/-- The three things `doDeliver` does to a session: nothing, buffer the message,
or put it in flight. -/
theorem doDeliver_cases (s : Session) (msg : OutboundMsg) (retainedDelivery : Bool) (now : ℕ) :
    (s.doDeliver msg retainedDelivery now).1 = s ∨
      (s.canSendOutbound = false ∧
        (s.doDeliver msg retainedDelivery now).1 = (s.bufferOutbound msg).2) ∨
      (s.canSendOutbound = true ∧
        (s.doDeliver msg retainedDelivery now).1 =
          (s.nextPacketID.2.addInflight (inflightOf msg (s.outboundPublish msg retainedDelivery now)
            s.nextPacketID.1)).incOutboundUnacked) := by
  unfold doDeliver
  split_ifs with hexp hfull hqos
  · exact Or.inl rfl
  · simp only [Bool.and_eq_true, Bool.not_eq_true'] at hfull
    exact Or.inr (Or.inl ⟨hfull.2, rfl⟩)
  · refine Or.inr (Or.inr ⟨?_, rfl⟩)
    simpa [hqos] using hfull
  · exact Or.inl rfl

theorem doDeliver_outboundQueue {s : Session} (h : s.canSendOutbound = true) (msg : OutboundMsg)
    (retainedDelivery : Bool) (now : ℕ) :
    (s.doDeliver msg retainedDelivery now).1.outboundQueue = s.outboundQueue := by
  rcases s.doDeliver_cases msg retainedDelivery now with he | ⟨hfull, -⟩ | ⟨-, he⟩
  · rw [he]
  · rw [h] at hfull
    cases hfull
  · rw [he]
    rfl

/-- `flushBufferedOutbound`: deliver buffered messages while the window is open. -/
def flushBufferedOutbound (now : ℕ) (s : Session) : Session × List PublishPacket :=
  match hq : s.outboundQueue with
  | [] => (s, [])
  | msg :: rest =>
    if _hw : s.canSendOutbound then
      let r := ({ s with outboundQueue := rest }).doDeliver msg false now
      let f := flushBufferedOutbound now r.1
      (f.1, r.2.toList ++ f.2)
    else (s, [])
termination_by s.outboundQueue.length
decreasing_by
  rw [doDeliver_outboundQueue (s := { s with outboundQueue := rest }) _hw, hq]
  exact Nat.lt_succ_self _

/-! ## Acknowledgements -/

def settle (s : Session) (id : UInt16) : Session :=
  let r := s.removeInflight id
  if r.1 then r.2.decOutboundUnacked else r.2

def handlePubAck (now : ℕ) (id : UInt16) (s : Session) : Session :=
  ((s.settle id).flushBufferedOutbound now).1

def handlePubComp (now : ℕ) (id : UInt16) (s : Session) : Session :=
  ((s.settle id).flushBufferedOutbound now).1

def dropRejectedDelivery (now : ℕ) (id : UInt16) (s : Session) : Session :=
  ((s.settle id).flushBufferedOutbound now).1

/-- A refusing reason code ends the delivery; any other one moves a QoS 2
delivery to its second half. -/
def handlePubRec (now : ℕ) (id : UInt16) (reasonCode : UInt8) (s : Session) : Session :=
  if reasonCode ≥ 0x80 then s.dropRejectedDelivery now id else s.markInflightPubRel id

/-- The give-up callback of the QoS engine; it does not flush. -/
def giveUp (id : UInt16) (s : Session) : Session := s.settle id

end Session

/-! ## Save and Restore -/

structure MessageProperties where
  payloadFormat : Option UInt8 := none
  contentType : Str := []
  responseTopic : Str := []
  correlationData : Option Bytes := none
  userProperties : List UserProperty := []
  subscriptionIdentifier : List UInt32 := []

def storeProperties : Option Properties → MessageProperties
  | none => {}
  | some p =>
    { payloadFormat := p.payloadFormat
      contentType := p.contentType
      responseTopic := p.responseTopic
      correlationData := p.correlationData
      userProperties := p.userProperties
      subscriptionIdentifier := p.subscriptionIdentifier }

def protocolProperties (sp : MessageProperties) : Option Properties :=
  if sp.payloadFormat = none ∧ sp.contentType = [] ∧ sp.responseTopic = [] ∧
      sp.correlationData = none ∧ sp.userProperties = [] ∧ sp.subscriptionIdentifier = [] then none
  else
    some
      { payloadFormat := sp.payloadFormat
        contentType := sp.contentType
        responseTopic := sp.responseTopic
        correlationData := sp.correlationData
        userProperties := sp.userProperties
        subscriptionIdentifier := sp.subscriptionIdentifier }

structure InflightMessage where
  packetID : UInt16
  qos : ℕ
  topic : Str
  payload : Bytes
  retain : Bool
  properties : MessageProperties
  expiresAt : Option ℕ
  pendingPubRel : Bool

/-- `store.Subscription`: a filter and its options in one record. -/
structure StoredSubscription where
  topic : Str
  qos : ℕ
  noLocal : Bool
  retainAsPublished : Bool
  retainHandling : ℕ
  subscriptionIdentifier : Option UInt32

/-- `SessionData`: the stored record of a session. -/
structure SessionData where
  clientID : Str
  protocolVer : UInt8
  expiryInterval : UInt32
  expiryTime : Option ℕ
  subscriptions : List StoredSubscription
  inflight : Keyed InflightMessage.packetID

def InflightMsg.store (m : InflightMsg) : InflightMessage where
  packetID := m.packetID
  qos := m.qos
  topic := m.topic
  payload := m.payload
  retain := m.retain
  properties := storeProperties m.properties
  expiresAt := m.expiresAt
  pendingPubRel := m.pendingPubRel

def InflightMessage.restore (m : InflightMessage) : InflightMsg where
  packetID := m.packetID
  qos := m.qos
  topic := m.topic
  payload := m.payload
  retain := m.retain
  expiresAt := m.expiresAt
  properties := protocolProperties m.properties
  pendingPubRel := m.pendingPubRel

def Session.storedSubscription (s : Session) (entry : Σ _ : Str, ℕ) : StoredSubscription :=
  let opts := (s.subOptions.lookup entry.1).getD {}
  { topic := entry.1
    qos := entry.2
    noLocal := opts.noLocal
    retainAsPublished := opts.retainAsPublished
    retainHandling := opts.retainHandling
    subscriptionIdentifier := opts.subscriptionIdentifier }

def StoredSubscription.options (sub : StoredSubscription) : SubscriptionOptions where
  qos := sub.qos
  noLocal := sub.noLocal
  retainAsPublished := sub.retainAsPublished
  retainHandling := sub.retainHandling
  subscriptionIdentifier := sub.subscriptionIdentifier

def Session.save (now : ℕ) (s : Session) : SessionData where
  clientID := s.clientID
  protocolVer := s.protocolVer
  expiryInterval := s.expiryInterval
  expiryTime := if s.expiryInterval > 0 then some (now + s.expiryInterval.toNat * second) else none
  subscriptions := s.subscriptions.entries.map s.storedSubscription
  inflight := s.inflight.map InflightMessage.packetID InflightMsg.store (fun _ => rfl)

/-- `Restore` builds a new session: the entries of the record are back in flight,
the counter and the window start afresh. -/
def restore (data : SessionData) : Session where
  clientID := data.clientID
  protocolVer := data.protocolVer
  expiryInterval := data.expiryInterval
  subscriptions := data.subscriptions.foldl (fun m sub => m.insert sub.topic sub.qos) ∅
  subOptions := data.subscriptions.foldl (fun m sub => m.insert sub.topic sub.options) ∅
  inflight := data.inflight.map InflightMsg.packetID InflightMessage.restore (fun _ => rfl)

/-! ## Connecting and disconnecting -/

structure Options where
  maxInflight : ℕ
  /-- `sessionExpiry`, in seconds. -/
  sessionExpiry : UInt32

def negotiatedExpiry (opts : Options) (pkt : ConnectPacket) : UInt32 :=
  match pkt.properties.bind (·.sessionExpiryInterval) with
  | some clientVal => min clientVal opts.sessionExpiry
  | none => if pkt.flags.cleanSession then 0 else opts.sessionExpiry

/-- A limit of 0 is not configured. -/
def serverReceiveMax (opts : Options) : UInt16 :=
  if opts.maxInflight.toUInt16 = 0 then 65535 else opts.maxInflight.toUInt16

/-- The client's Receive Maximum, capped by the server's own. -/
def negotiatedWindow (opts : Options) (pkt : ConnectPacket) : UInt16 :=
  min ((pkt.properties.bind (·.receiveMaximum)).getD 65535) (serverReceiveMax opts)

/-- What the broker holds for one ClientID: the session in the manager and the
record in the store. -/
structure Client where
  session : Option Session := none
  stored : Option SessionData := none

/-- The session a CONNECT finds to resume: the one in memory, else the stored
one, neither for a clean session. -/
def resumed (c : Client) (pkt : ConnectPacket) : Option Session :=
  if pkt.flags.cleanSession then none
  else match c.session with
    | some s => some s
    | none => c.stored.map restore

/-- `HandleConnection`, as far as it concerns the session. -/
def connect (opts : Options) (c : Client) (pkt : ConnectPacket) : Client :=
  let s := (resumed c pkt).getD { clientID := pkt.clientID }
  { session := some
      { s with
        protocolVer := pkt.protocolVersion
        expiryInterval := negotiatedExpiry opts pkt
        outboundWindow := negotiatedWindow opts pkt }
    stored := if pkt.flags.cleanSession then none else c.stored }

/-- `disconnect`: save or delete the record, reset the counter, drop the session
from the manager. The buffered deliveries move to the offline queue. -/
def disconnect (c : Client) (now : ℕ) : Client :=
  match c.session with
  | none => c
  | some s => { session := none, stored := if s.expiryInterval > 0 then some (s.save now) else none }

end SharkMqtt.Broker
