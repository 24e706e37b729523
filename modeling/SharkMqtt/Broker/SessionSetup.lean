import SharkMqtt.Broker.Inbound
import SharkMqtt.Broker.Window

/-!
# The session a handshake continues with

`CreateSession` builds a session, or continues one that is in memory, and `Restore` builds
one from a record (`broker/session.go`). The code after them takes the maps, the tracker of
the publish rate and the state as given. `Restore` makes neither a tracker nor a connected
session, and a session in memory is continued as it is.
-/

namespace SharkMqtt.Broker.SessionSetup

open Protocol Lib

/-! ## Sessions as they are built -/

/-- `State` of `broker/session_types.go`. -/
inductive SessionState where
  | disconnected | connecting | connected | disconnecting

structure PublishRateTracker where
  window : ℕ
  maxRate : ℤ := 0
  count : ℤ := 0
  windowStart : ℕ

/-- A map or tracker that was not made is nil, here `none`. -/
structure LiveSession where
  clientID : Str
  username : Str
  protocolVer : UInt8
  keepAlive : UInt16 := 0
  subscriptions : Option (AList fun _ : Str => ℕ) := none
  subOptions : Option (AList fun _ : Str => SubscriptionOptions) := none
  inflight : Option (Keyed InflightMsg.packetID) := none
  inboundQoS2 : Option (Keyed InboundQoS2.packetID) := none
  topicAliases : Option (AList fun _ : UInt16 => Str) := none
  packetIDSeq : UInt16 := 0
  publishRate : Option PublishRateTracker := none
  state : SessionState := .disconnected

/-- A record of the session store, with both halves of the session. -/
structure Record where
  data : SessionData
  inbound : InboundData

/-- `Restore`; the keep-alive of the record is overwritten before it is read. -/
def restore (r : Record) : LiveSession where
  clientID := r.data.clientID
  username := r.inbound.username
  protocolVer := r.data.protocolVer
  subscriptions := some (Broker.restore r.data).subscriptions
  subOptions := some (Broker.restore r.data).subOptions
  inflight := some (Broker.restore r.data).inflight
  inboundQoS2 := some (Inbound.restore r.inbound).inboundQoS2
  packetIDSeq := 1
  topicAliases := some ∅

def newSession (pkt : ConnectPacket) (now : ℕ) : LiveSession where
  clientID := pkt.clientID
  username := pkt.username
  protocolVer := pkt.protocolVersion
  keepAlive := pkt.keepAlive
  subscriptions := some ∅
  subOptions := some ∅
  inflight := some ∅
  inboundQoS2 := some ∅
  packetIDSeq := 1
  topicAliases := some ∅
  state := .connected
  publishRate := some { window := second, windowStart := now }

/-- `CreateSession` on a session that is continued. -/
def resume (pkt : ConnectPacket) (s : LiveSession) : LiveSession :=
  { s with
    keepAlive := pkt.keepAlive
    username := pkt.username
    protocolVer := pkt.protocolVersion
    -- Ranging over a nil map does nothing.
    subOptions := some <| s.subOptions.getD <| (s.subscriptions.getD ∅).entries.foldl
      (fun m sub => m.insert sub.1 { qos := sub.2 }) ∅
    topicAliases := some ∅ }

def createSession (existing : Option LiveSession) (pkt : ConnectPacket) (isResuming : Bool)
    (now : ℕ) : LiveSession :=
  match existing with
  | some s => if !pkt.flags.cleanSession && isResuming then resume pkt s else newSession pkt now
  | none => newSession pkt now

/-- `HandleConnection` up to `CreateSession`: the sessions in memory come before the store. -/
def handshakeSession (sessions : Str → Option LiveSession) (store : Str → Option Record)
    (pkt : ConnectPacket) (now : ℕ) : LiveSession :=
  if !pkt.flags.cleanSession && (sessions pkt.clientID).isSome then
    createSession (sessions pkt.clientID) pkt true now
  else if pkt.flags.cleanSession then createSession (sessions pkt.clientID) pkt false now
  else
    match store pkt.clientID with
    | some r => createSession (some (restore r)) pkt true now
    | none => createSession (sessions pkt.clientID) pkt false now

/-- `SetMaxRate` under the option `maxPublishRate`: it locks the tracker, so `none`, a panic,
where there is none. -/
def applyPublishRate (maxPublishRate : ℤ) (s : LiveSession) : Option LiveSession :=
  if maxPublishRate > 0 then
    s.publishRate.map fun t => { s with publishRate := some { t with maxRate := maxPublishRate } }
  else some s

/-! ## What the handshake relies on -/

/-- The maps that every path makes or keeps, the counter, the tracker and the state. -/
structure Ready (s : LiveSession) : Prop where
  subscriptions : s.subscriptions.isSome
  inflight : s.inflight.isSome
  inboundQoS2 : s.inboundQoS2.isSome
  packetIDSeq : s.packetIDSeq ≠ 0
  publishRate : s.publishRate.isSome
  state : s.state = .connected

/-- Everything that the code after `CreateSession` takes as given. -/
structure Complete (s : LiveSession) : Prop extends Ready s where
  subOptions : s.subOptions.isSome
  topicAliases : s.topicAliases.isSome
  ratesApply : ∀ rate, (applyPublishRate rate s).isSome

theorem Ready.ratesApply {s : LiveSession} (h : Ready s) (rate : ℤ) :
    (applyPublishRate rate s).isSome := by
  unfold applyPublishRate
  split
  · rw [Option.isSome_map]
    exact h.publishRate
  · rfl

theorem complete_newSession (pkt : ConnectPacket) (now : ℕ) : Complete (newSession pkt now) :=
  have hready : Ready (newSession pkt now) := ⟨rfl, rfl, rfl, by simp [newSession], rfl, rfl⟩
  { hready with subOptions := rfl, topicAliases := rfl, ratesApply := hready.ratesApply }

/-- `CreateSession` makes the two maps that belong to the connection and keeps the rest. -/
theorem complete_resume_iff (pkt : ConnectPacket) (s : LiveSession) :
    Complete (resume pkt s) ↔ Ready s := by
  constructor
  · intro h
    exact { h.toReady with }
  · intro h
    have hready : Ready (resume pkt s) := { h with }
    exact { hready with subOptions := rfl, topicAliases := rfl, ratesApply := hready.ratesApply }

/-- A session from the store is never complete: it has no tracker and is not connected. -/
theorem complete_iff (sessions : Str → Option LiveSession) (store : Str → Option Record)
    (pkt : ConnectPacket) (now : ℕ) :
    Complete (handshakeSession sessions store pkt now) ↔
      pkt.flags.cleanSession = true ∨
        match sessions pkt.clientID with
        | some s => Ready s
        | none => store pkt.clientID = none := by
  unfold handshakeSession createSession
  cases hclean : pkt.flags.cleanSession with
  | true => cases sessions pkt.clientID <;> simp [complete_newSession]
  | false =>
    cases sessions pkt.clientID with
    | some s => simp [complete_resume_iff]
    | none =>
      cases store pkt.clientID with
      | some r =>
        have hnot : ¬Ready (restore r) := fun h => nomatch h.publishRate
        simp [complete_resume_iff, hnot]
      | none => simp [complete_newSession]

def storeC (_ : Str) : Option Record :=
  some
    { data := ({ clientID := ascii "c", expiryInterval := 60 } : Session).save 0
      inbound := ({} : Inbound).save }

/-- With a limit on the publish rate the handshake of a client that resumes a stored session
panics. -/
theorem restored_session_panics :
    let s := handshakeSession (fun _ => none) storeC receiveOne 0
    applyPublishRate 1 s = none ∧ s.state = .disconnected :=
  ⟨rfl, rfl⟩

end SharkMqtt.Broker.SessionSetup
