import SharkMqtt.Broker.QoSEngine
import SharkMqtt.Broker.Window

/-!
# Sessions and the QoS engine

An outbound delivery has two owners: the session's `Inflight`, from which it is
saved and resent, and the table of the QoS engine, from which it is retried.
Here are the broker's functions that work with both: `doDeliver`, the
acknowledgements, the retry loop with its callbacks, and what a connect and a
disconnect do to them (`broker/pub_sub.go`, `broker/qos_outbound.go`,
`broker/broker.go`, `broker/conn_lifecycle.go`), for any number of clients.

Each function returns what it hands to `writePacket` beside the new state. A flush
of buffered deliveries is the sequence of its rounds, one step each.
-/

namespace SharkMqtt.Broker

open Protocol Lib Function

/-- What the broker keeps about outbound deliveries: the sessions in the manager,
the records in the store, the engine. -/
structure Outbound where
  sessions : Str → Option Session := fun _ => none
  stored : Str → Option SessionData := fun _ => none
  engine : QoSEngine

abbrev Written := Str × Packet

namespace Outbound

def setSession (b : Outbound) (c : Str) (s : Session) : Outbound :=
  { b with sessions := update b.sessions c (some s) }

def onSession (b : Outbound) (c : Str) (f : Session → Session) : Outbound :=
  match b.sessions c with
  | none => b
  | some s => b.setSession c (f s)

/-! ## Deliveries -/

/-- The tracking part of `doDeliver`; a full table is only logged. -/
def trackDelivery (q : QoSEngine) (c : Str) (msg : OutboundMsg) (pub : PublishPacket) (now : ℕ) :
    QoSEngine :=
  if msg.deliverQoS = 1 then
    (q.trackOutboundQoS1 c pub.packetID msg.pkt.topic msg.pkt.payload pub.fixedHeader.retain now).2
  else
    (q.trackOutboundQoS2 c pub.packetID msg.pkt.topic msg.pkt.payload pub.fixedHeader.retain now).2

def deliverOn (b : Outbound) (c : Str) (s : Session) (msg : OutboundMsg) (retainedDelivery : Bool)
    (now : ℕ) : Outbound × List Written :=
  let r := s.doDeliver msg retainedDelivery now
  match r.2 with
  | none => (b.setSession c r.1, [])
  | some pub =>
    let engine := if msg.deliverQoS > 0 then trackDelivery b.engine c msg pub now else b.engine
    ({ b.setSession c r.1 with engine := engine }, [(c, .publish pub)])

def doDeliver (b : Outbound) (c : Str) (msg : OutboundMsg) (retainedDelivery : Bool) (now : ℕ) :
    Outbound × List Written :=
  match b.sessions c with
  | none => (b, [])
  | some s => b.deliverOn c s msg retainedDelivery now

def flushRound (b : Outbound) (c : Str) (now : ℕ) : Outbound × List Written :=
  match b.sessions c with
  | none => (b, [])
  | some s =>
    if s.canSendOutbound then
      match s.popOutbound with
      | none => (b, [])
      | some (msg, s) => b.deliverOn c s msg false now
    else (b, [])

/-! ## Acknowledgements, up to their flush -/

def pubRelPacket (id : UInt16) : Packet :=
  .pubRel { fixedHeader := { packetType := .pubRel, qos := 1 }, packetID := id }

def handlePubAck (b : Outbound) (c : Str) (id : UInt16) : Outbound :=
  { b.onSession c (·.settle id) with engine := b.engine.ackQoS1 c id }

def handlePubComp (b : Outbound) (c : Str) (id : UInt16) : Outbound :=
  { b.onSession c (·.settle id) with engine := b.engine.ackPubComp c id }

def dropRejectedDelivery (b : Outbound) (c : Str) (id : UInt16) : Outbound :=
  { b.onSession c (·.settle id) with engine := b.engine.releaseInflight c id }

/-- The stage is recorded in the session whatever the engine says; the PUBREL
leaves only if the engine tracks the delivery. -/
def handlePubRec (b : Outbound) (c : Str) (id : UInt16) (reasonCode : UInt8) :
    Outbound × List Written :=
  if reasonCode ≥ 0x80 then (b.dropRejectedDelivery c id, [])
  else
    let r := b.engine.ackPubRec c id
    ({ b.onSession c (·.markInflightPubRel id) with engine := r.2 },
      if r.1 then [(c, pubRelPacket id)] else [])

/-! ## The retry loop -/

def buildRetransmitPublish (msg : InflightMsg) (now : ℕ) : PublishPacket where
  fixedHeader := { packetType := .publish, qos := msg.qos.toUInt8, dup := true, retain := msg.retain }
  packetID := msg.packetID
  topic := msg.topic
  payload := msg.payload
  properties :=
    match msg.properties, msg.expiresAt with
    | some props, some t => some { props with messageExpiryInterval := some (remainingExpiry t now) }
    | props, _ => props

/-- The session's `Inflight` is the authority for the content. -/
def republish (b : Outbound) (c : Str) (id : UInt16) (qos : ℕ) (now : ℕ) : List Written :=
  match (b.sessions c).bind (·.inflight.lookup id) with
  | none => []
  | some msg => if msg.qos = qos then [(c, .publish (buildRetransmitPublish msg now))] else []

def resend (b : Outbound) (now : ℕ) (item : Str × QoSEngine.InflightMessage) : List Written :=
  if item.2.isOutbound && item.2.qos == 2 && item.2.state == .acked then
    [(item.1, pubRelPacket item.2.packetID)]
  else b.republish item.1 item.2.packetID item.2.qos now

/-- The give-up callback: the engine has dropped its entry already. -/
def giveUp (b : Outbound) (item : Str × UInt16) : Outbound := b.onSession item.1 (·.giveUp item.2)

def doRetry (b : Outbound) (now : ℕ) : Outbound × List Written :=
  let r := b.engine.collect now
  let b := r.toReport.foldl giveUp { b with engine := r.engine }
  (b, r.toRetry.flatMap (b.resend now))

/-! ## Connecting and disconnecting -/

def restoreEntry (c : Str) (now : ℕ) (q : QoSEngine) (msg : InflightMsg) : QoSEngine :=
  if msg.qos = 2 then
    if msg.pendingPubRel then
      (q.trackOutboundQoS2AwaitingPubComp c msg.packetID msg.topic msg.payload msg.retain now).2
    else (q.trackOutboundQoS2 c msg.packetID msg.topic msg.payload msg.retain now).2
  else (q.trackOutboundQoS1 c msg.packetID msg.topic msg.payload msg.retain now).2

def restoreSessionInflight (q : QoSEngine) (c : Str) (restored : Session) (now : ℕ) : QoSEngine :=
  (restored.inflight.table.entries.map Sigma.snd).foldl (restoreEntry c now) q

def resendSessionInflight (c : Str) (s : Session) (now : ℕ) : List Written :=
  s.inflight.table.entries.map fun e =>
    if e.2.qos == 2 && e.2.pendingPubRel then (c, pubRelPacket e.2.packetID)
    else (c, .publish (buildRetransmitPublish e.2 now))

def client (b : Outbound) (c : Str) : Client := ⟨b.sessions c, b.stored c⟩

/-- The engine after the resume block of `HandleConnection`. A session found in
memory keeps its entries; one taken from the store is tracked afresh. -/
def resumedEngine (b : Outbound) (pkt : ConnectPacket) (now : ℕ) : QoSEngine :=
  let q := b.engine.setClientVersion pkt.clientID pkt.protocolVersion
  if pkt.flags.cleanSession then q
  else
    match b.sessions pkt.clientID, b.stored pkt.clientID with
    | none, some data => restoreSessionInflight q pkt.clientID (restore data) now
    | _, _ => q

def connect (opts : Options) (b : Outbound) (pkt : ConnectPacket) (now : ℕ) :
    Outbound × List Written :=
  let c := pkt.clientID
  let after := Broker.connect opts (b.client c) pkt
  ({ sessions := update b.sessions c after.session
     stored := update b.stored c after.stored
     engine := b.resumedEngine pkt now },
    match resumed (b.client c) pkt with
    | none => []
    | some s => resendSessionInflight c s now)

def disconnect (b : Outbound) (c : Str) (now : ℕ) : Outbound :=
  let after := Broker.disconnect (b.client c) now
  { sessions := update b.sessions c after.session
    stored := update b.stored c after.stored
    engine := b.engine.removeClient c }

/-! ## The machine -/

inductive Op where
  | deliver (c : Str) (msg : OutboundMsg) (retainedDelivery : Bool) (now : ℕ)
  /-- A round of a flush. -/
  | flush (c : Str) (now : ℕ)
  | pubAck (c : Str) (id : UInt16)
  | pubRec (c : Str) (id : UInt16) (reasonCode : UInt8)
  | pubComp (c : Str) (id : UInt16)
  /-- A tick of the retry loop, with its give-ups. -/
  | tick (now : ℕ)
  | connect (pkt : ConnectPacket) (now : ℕ)
  | disconnect (c : Str) (now : ℕ)

def run (opts : Options) (b : Outbound) : Op → Outbound × List Written
  | .deliver c msg retainedDelivery now => b.doDeliver c msg retainedDelivery now
  | .flush c now => b.flushRound c now
  | .pubAck c id => (b.handlePubAck c id, [])
  | .pubRec c id reasonCode => b.handlePubRec c id reasonCode
  | .pubComp c id => (b.handlePubComp c id, [])
  | .tick now => b.doRetry now
  | .connect pkt now => b.connect opts pkt now
  | .disconnect c now => (b.disconnect c now, [])

/-- A delivery's QoS is the smaller of two the decoder has checked. -/
def Op.enabled : Op → Bool
  | .deliver _ msg _ _ => decide (msg.deliverQoS ≤ 2)
  | _ => true

def inflightAt (b : Outbound) (c : Str) (id : UInt16) : Option InflightMsg :=
  (b.sessions c).bind (·.inflight.lookup id)

def storedAt (b : Outbound) (c : Str) (id : UInt16) : Option InflightMessage :=
  if (b.sessions c).isSome then none else (b.stored c).bind (·.inflight.lookup id)

/-- The machine's state: the broker, what the last operation wrote, and a ghost:
the deliveries for which an accepting PUBREC was received. -/
structure State where
  broker : Outbound
  written : List Written := []
  received : Str → UInt16 → Bool := fun _ _ => false

def Op.accepts (c : Str) (id : UInt16) : Op → Bool
  | .pubRec c' id' reasonCode => decide (c' = c ∧ id' = id) && decide (reasonCode < 0x80)
  | _ => false

/-- A PUBREC counts for the delivery that was outstanding when it came. -/
def State.receive (st : State) (op : Op) (c : Str) (id : UInt16) : Bool :=
  ((st.broker.inflightAt c id).isSome || (st.broker.storedAt c id).isSome) &&
    (st.received c id || op.accepts c id)

def step (opts : Options) (st : State) (op : Op) : Option State :=
  if op.enabled then
    let r := st.broker.run opts op
    some { broker := r.1, written := r.2, received := st.receive op }
  else none

def init (maxInflight retryInterval maxRetries : ℕ) : State where
  broker :=
    { engine :=
        { maxInflight := maxInflight, retryInterval := retryInterval, maxRetries := maxRetries } }

/-! ## What the functions do to `Inflight` -/

variable (b : Outbound) (c c' : Str) (id id' : UInt16) (f : Session → Session)

theorem handlePubRec_of_accepting {reasonCode : UInt8} (h : reasonCode < 0x80) :
    b.handlePubRec c id reasonCode =
      ({ b.onSession c (·.markInflightPubRel id) with engine := (b.engine.ackPubRec c id).2 },
        if (b.engine.ackPubRec c id).1 then [(c, pubRelPacket id)] else []) :=
  if_neg (UInt8.not_le.mpr h)

theorem sessions_setSession (s : Session) :
    (b.setSession c s).sessions c' = if c' = c then some s else b.sessions c' := by
  exact update_apply b.sessions c (some s) c'

theorem inflightAt_setSession (s : Session) :
    (b.setSession c s).inflightAt c' id' =
      if c' = c then s.inflight.lookup id' else b.inflightAt c' id' := by
  unfold inflightAt
  rw [sessions_setSession]
  split_ifs <;> rfl

theorem inflightAt_onSession :
    (b.onSession c f).inflightAt c' id' =
      if c' = c then (b.sessions c).bind fun s => (f s).inflight.lookup id'
      else b.inflightAt c' id' := by
  unfold onSession
  cases h : b.sessions c with
  | none =>
    split_ifs with hc
    · rw [hc, inflightAt, h]
      rfl
    · rfl
  | some s => exact b.inflightAt_setSession c c' id' (f s)

@[simp] theorem engine_onSession : (b.onSession c f).engine = b.engine := by
  unfold onSession
  cases b.sessions c <;> rfl

@[simp] theorem stored_onSession : (b.onSession c f).stored = b.stored := by
  unfold onSession
  cases b.sessions c <;> rfl

theorem sessions_onSession_eq_none :
    (b.onSession c f).sessions c' = none ↔ b.sessions c' = none := by
  unfold onSession
  cases h : b.sessions c with
  | none => rfl
  | some s =>
    rw [sessions_setSession]
    split_ifs with hc
    · simp [hc, h]
    · rfl

theorem flushRound_cases (now : ℕ) :
    b.flushRound c now = (b, []) ∨ ∃ s msg rest, b.sessions c = some s ∧
      s.outboundQueue = msg :: rest ∧
      b.flushRound c now = b.deliverOn c { s with outboundQueue := rest } msg false now := by
  unfold flushRound
  cases hs : b.sessions c with
  | none => exact .inl rfl
  | some s =>
    simp only
    split_ifs
    · unfold Session.popOutbound
      cases hq : s.outboundQueue with
      | nil => exact .inl rfl
      | cons msg rest => exact .inr ⟨s, msg, rest, rfl, hq, rfl⟩
    · exact .inl rfl

def Op.settles : Op → Prop
  | .pubAck c' id' | .pubComp c' id' => c' = c ∧ id' = id
  | .pubRec c' id' reasonCode => (c' = c ∧ id' = id) ∧ reasonCode ≥ 0x80
  | _ => False

inductive Acts (opts : Options) (b : Outbound) : Op → Outbound × List Written → Prop where
  | idle (op : Op) : Acts opts b op (b, [])
  | deliver {c : Str} {s : Session} {msg : OutboundMsg} {retainedDelivery : Bool} {now : ℕ}
      (hs : b.sessions c = some s) :
      Acts opts b (.deliver c msg retainedDelivery now)
        (b.deliverOn c s msg retainedDelivery now)
  | flush {c : Str} {s : Session} {msg : OutboundMsg} {rest : List OutboundMsg} {now : ℕ}
      (hs : b.sessions c = some s) (hq : s.outboundQueue = msg :: rest) :
      Acts opts b (.flush c now) (b.deliverOn c { s with outboundQueue := rest } msg false now)
  | settle {op : Op} (c : Str) (id : UInt16) (hop : op.settles c id) :
      Acts opts b op
        ({ b.onSession c (·.settle id) with engine := b.engine.untrack c id }, [])
  | mark {c : Str} {id : UInt16} {reasonCode : UInt8} (haccept : reasonCode < 0x80) :
      Acts opts b (.pubRec c id reasonCode)
        ({ b.onSession c (·.markInflightPubRel id) with engine := (b.engine.ackPubRec c id).2 },
          if (b.engine.ackPubRec c id).1 then [(c, pubRelPacket id)] else [])
  | tick (now : ℕ) : Acts opts b (.tick now) (b.doRetry now)
  | connect (pkt : ConnectPacket) (now : ℕ) :
      Acts opts b (.connect pkt now) (b.connect opts pkt now)
  | disconnect (c : Str) (now : ℕ) : Acts opts b (.disconnect c now) (b.disconnect c now, [])

theorem acts_run (opts : Options) (op : Op) : Acts opts b op (b.run opts op) := by
  cases op with
  | deliver c msg retainedDelivery now =>
    simp only [run, doDeliver]
    cases hs : b.sessions c with
    | none => exact .idle _
    | some s => exact .deliver hs
  | flush c now =>
    simp only [run]
    rcases b.flushRound_cases c now with hidle | ⟨s, msg, rest, hs, hq, hround⟩
    · rw [hidle]
      exact .idle _
    · rw [hround]
      exact .flush hs hq
  | pubAck c id => exact .settle c id ⟨rfl, rfl⟩
  | pubRec c id reasonCode =>
    simp only [run]
    rcases UInt8.le_or_lt 0x80 reasonCode with hreject | haccept
    · rw [handlePubRec, if_pos hreject]
      exact .settle c id ⟨⟨rfl, rfl⟩, hreject⟩
    · rw [b.handlePubRec_of_accepting c id haccept]
      exact .mark haccept
  | pubComp c id => exact .settle c id ⟨rfl, rfl⟩
  | tick now => exact .tick now
  | connect pkt now => exact .connect pkt now
  | disconnect c now => exact .disconnect c now

end Outbound

namespace Session

theorem lookup_settle (s : Session) (id id' : UInt16) :
    (s.settle id).inflight.lookup id' = if id' = id then none else s.inflight.lookup id' := by
  unfold settle removeInflight
  by_cases huse : s.inUse id = true
  · simp only [huse, if_true]
    exact Keyed.lookup_erase s.inflight id' id
  · split_ifs with h
    · rw [h]
      unfold inUse at huse
      simpa using huse
    · rfl

theorem lookup_markInflightPubRel (s : Session) (id id' : UInt16) :
    (s.markInflightPubRel id).inflight.lookup id' =
      (s.inflight.lookup id').map fun msg =>
        if id' = id ∧ msg.qos = 2 then { msg with pendingPubRel := true } else msg := by
  obtain ⟨table, heq, -, hlookup⟩ := s.markInflightPubRel_eq id
  rw [heq]
  exact hlookup id'

end Session

end SharkMqtt.Broker
