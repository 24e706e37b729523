import SharkMqtt.Protocol.Topic

/-!
# Packets

The data model of `protocol/packets.go`, the property set of
`protocol/properties.go` and the capability table of `protocol/spec.go`.

A Go pointer to a scalar is an `Option`. A `[]byte` whose `nil` is told apart
from an empty slice by the code (Correlation Data, Authentication Data) is an
`Option Bytes`; where only the length is ever asked (payloads, passwords,
reason codes) it is a plain `Bytes`. Strings are absent when empty, as in the
source. `Packet` is the interface: one constructor for each of the fifteen Go
types, so the type switch of the codec is a match.
-/

namespace SharkMqtt

/-- A Go `[]byte`. -/
abbrev Bytes := List UInt8

namespace Protocol

inductive PacketType where
  | reserved | connect | connAck | publish | pubAck | pubRec | pubRel | pubComp
  | subscribe | subAck | unsubscribe | unsubAck | pingReq | pingResp | disconnect | auth
deriving DecidableEq

/-- `FixedHeader`; `headerSize` is the wire size of the header itself. -/
structure FixedHeader where
  packetType : PacketType
  dup : Bool := false
  qos : UInt8 := 0
  retain : Bool := false
  remainingLength : ℕ := 0
  headerSize : ℕ := 0
deriving DecidableEq

structure UserProperty where
  key : Str
  value : Str
deriving DecidableEq

structure Properties where
  payloadFormat : Option UInt8 := none
  messageExpiryInterval : Option UInt32 := none
  contentType : Str := []
  responseTopic : Str := []
  correlationData : Option Bytes := none
  subscriptionIdentifier : List UInt32 := []
  sessionExpiryInterval : Option UInt32 := none
  assignedClientID : Str := []
  serverKeepAlive : Option UInt16 := none
  authenticationMethod : Str := []
  authenticationData : Option Bytes := none
  requestProblemInfo : Option UInt8 := none
  willDelayInterval : Option UInt32 := none
  requestResponseInfo : Option UInt8 := none
  responseInfo : Str := []
  serverReference : Str := []
  receiveMaximum : Option UInt16 := none
  topicAliasMaximum : Option UInt16 := none
  topicAlias : Option UInt16 := none
  maximumQoS : Option UInt8 := none
  retainAvailable : Option UInt8 := none
  userProperties : List UserProperty := []
  maximumPacketSize : Option UInt32 := none
  wildcardSubAvailable : Option UInt8 := none
  subIDAvailable : Option UInt8 := none
  sharedSubAvailable : Option UInt8 := none
  reasonString : Str := []
deriving DecidableEq

structure ConnectFlags where
  usernameFlag : Bool := false
  passwordFlag : Bool := false
  willRetain : Bool := false
  willQoS : UInt8 := 0
  willFlag : Bool := false
  willTopicFlag : Bool := false
  cleanSession : Bool := false
  reserved : Bool := false
deriving DecidableEq

structure ConnectPacket where
  fixedHeader : FixedHeader
  protocolName : Str
  protocolVersion : UInt8
  flags : ConnectFlags
  keepAlive : UInt16
  clientID : Str
  willTopic : Str := []
  willMessage : Bytes := []
  username : Str := []
  password : Bytes := []
  properties : Option Properties := none
  willProperties : Option Properties := none
deriving DecidableEq

structure ConnAckPacket where
  fixedHeader : FixedHeader
  reasonCode : UInt8
  sessionPresent : Bool
  properties : Option Properties := none
deriving DecidableEq

structure PublishPacket where
  fixedHeader : FixedHeader
  packetID : UInt16 := 0
  topic : Str
  payload : Bytes := []
  properties : Option Properties := none
deriving DecidableEq

/-- `PubAckPacket`, `PubRecPacket`, `PubRelPacket` and `PubCompPacket` have the
same fields. -/
structure AckPacket where
  fixedHeader : FixedHeader
  packetID : UInt16
  reasonCode : UInt8 := 0
  properties : Option Properties := none
deriving DecidableEq

structure TopicFilter where
  topic : Str
  qos : UInt8
  noLocal : Bool := false
  retainAsPublished : Bool := false
  retainHandling : UInt8 := 0
  subscriptionIdentifier : Option UInt32 := none
deriving DecidableEq

structure SubscribePacket where
  fixedHeader : FixedHeader
  packetID : UInt16
  topics : List TopicFilter
  properties : Option Properties := none
deriving DecidableEq

/-- `SubAckPacket` and `UnsubAckPacket` have the same fields. -/
structure SubAckPacket where
  fixedHeader : FixedHeader
  packetID : UInt16
  reasonCodes : Bytes
  properties : Option Properties := none
deriving DecidableEq

structure UnsubscribePacket where
  fixedHeader : FixedHeader
  packetID : UInt16
  topics : List Str
  properties : Option Properties := none
deriving DecidableEq

/-- `DisconnectPacket` and `AuthPacket` have the same fields. -/
structure DisconnectPacket where
  fixedHeader : FixedHeader
  reasonCode : UInt8 := 0
  properties : Option Properties := none
deriving DecidableEq

inductive Packet where
  | connect (p : ConnectPacket)
  | connAck (p : ConnAckPacket)
  | publish (p : PublishPacket)
  | pubAck (p : AckPacket)
  | pubRec (p : AckPacket)
  | pubRel (p : AckPacket)
  | pubComp (p : AckPacket)
  | subscribe (p : SubscribePacket)
  | subAck (p : SubAckPacket)
  | unsubscribe (p : UnsubscribePacket)
  | unsubAck (p : SubAckPacket)
  | pingReq (fh : FixedHeader)
  | pingResp (fh : FixedHeader)
  | disconnect (p : DisconnectPacket)
  | auth (p : DisconnectPacket)
deriving DecidableEq

def Packet.fixedHeader : Packet → FixedHeader
  | .connect p => p.fixedHeader
  | .connAck p => p.fixedHeader
  | .publish p => p.fixedHeader
  | .pubAck p | .pubRec p | .pubRel p | .pubComp p => p.fixedHeader
  | .subscribe p => p.fixedHeader
  | .subAck p | .unsubAck p => p.fixedHeader
  | .unsubscribe p => p.fixedHeader
  | .pingReq fh | .pingResp fh => fh
  | .disconnect p | .auth p => p.fixedHeader

/-- The packet type that belongs to the Go type of the packet. -/
def Packet.goType : Packet → PacketType
  | .connect _ => .connect
  | .connAck _ => .connAck
  | .publish _ => .publish
  | .pubAck _ => .pubAck
  | .pubRec _ => .pubRec
  | .pubRel _ => .pubRel
  | .pubComp _ => .pubComp
  | .subscribe _ => .subscribe
  | .subAck _ => .subAck
  | .unsubscribe _ => .unsubscribe
  | .unsubAck _ => .unsubAck
  | .pingReq _ => .pingReq
  | .pingResp _ => .pingResp
  | .disconnect _ => .disconnect
  | .auth _ => .auth

/-! ## Versions and their capabilities -/

def version31 : UInt8 := 3
def version311 : UInt8 := 4
def version50 : UInt8 := 5

/-- The capabilities of one protocol version that the modelled code asks for. -/
structure Spec where
  allowEmptyID : Bool := false
  maxClientIDLen : ℕ := 0
  connAckSessionPresent : Bool := false
  properties : Bool := false
  reasonCodes : Bool := false
  serverDisconnect : Bool := false
  topicAlias : Bool := false
  authPacket : Bool := false
  retransmitUnacked : Bool := false

def specV31 : Spec := { maxClientIDLen := 23, retransmitUnacked := true }

def specV311 : Spec :=
  { allowEmptyID := true, connAckSessionPresent := true, retransmitUnacked := true }

def specV50 : Spec :=
  { allowEmptyID := true, connAckSessionPresent := true, properties := true,
    reasonCodes := true, serverDisconnect := true, topicAlias := true, authPacket := true }

def specOf (v : UInt8) : Option Spec :=
  if v = version31 then some specV31
  else if v = version311 then some specV311
  else if v = version50 then some specV50
  else none

/-- The retry loop handles the deliveries of sessions of this version. -/
def retransmits (v : UInt8) : Bool := (specOf v).elim true Spec.retransmitUnacked

/-- The table a codec or a session works with: an unknown version falls back to
3.1.1. -/
def specFor (v : UInt8) : Spec := (specOf v).getD specV311

/-- Only 5.0 has properties, reason codes, topic aliases and AUTH, and it has
them all. -/
theorem specFor_v5 (v : UInt8) :
    (specFor v).properties = (v == version50) ∧ (specFor v).reasonCodes = (v == version50) ∧
      (specFor v).topicAlias = (v == version50) ∧ (specFor v).authPacket = (v == version50) := by
  unfold specFor specOf
  by_cases h31 : v = version31
  · subst h31
    decide
  · by_cases h311 : v = version311
    · subst h311
      decide
    · by_cases h50 : v = version50
      · subst h50
        decide
      · simp [h31, h311, h50, specV311]

end Protocol
end SharkMqtt
