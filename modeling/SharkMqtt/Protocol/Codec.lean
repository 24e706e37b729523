import SharkMqtt.Protocol.Properties

/-!
# The codec

`protocol/codec.go`, `connect.go`, `publish.go` and `subscribe.go`: `Codec.Decode`,
`Codec.Encode` and the decoder and encoder of every packet type.

A decoder reads from the stream. Where the source first reads the body into a buffer
and then parses the buffer, the parser runs `inside` that buffer, so the two kinds of
length check stay apart: those against Remaining Length and those against what is left
of the buffer. An encoder returns the bytes or the error; nothing is written before
the last check has passed.

A codec carries the protocol version, and both directions change it when a CONNECT
goes by; a CONNECT that is refused after its version byte changes it too.
-/

namespace SharkMqtt.Protocol

open Lib Lib.Reader

structure Codec where
  maxPacketSize : ℕ
  protocolVersion : UInt8 := version311
  outboundMax : ℕ := 0
deriving DecidableEq

namespace Codec

def new (maxPacketSize : ℤ) : Codec :=
  { maxPacketSize := if maxPacketSize ≤ 0 then 256 * 1024 else maxPacketSize.toNat }

def setVersion (c : Codec) (v : UInt8) : Codec := { c with protocolVersion := v }

def newForVersion (maxPacketSize : ℤ) (version : UInt8) : Codec :=
  (new maxPacketSize).setVersion version

def setOutboundMaxPacketSize (c : Codec) (n : ℤ) : Codec := { c with outboundMax := n.toNat }

end Codec

/-! ## Fixed header -/

def PacketType.toByte : PacketType → UInt8
  | .reserved => 0
  | .connect => 1
  | .connAck => 2
  | .publish => 3
  | .pubAck => 4
  | .pubRec => 5
  | .pubRel => 6
  | .pubComp => 7
  | .subscribe => 8
  | .subAck => 9
  | .unsubscribe => 10
  | .unsubAck => 11
  | .pingReq => 12
  | .pingResp => 13
  | .disconnect => 14
  | .auth => 15

/-- The packet type of a nibble. -/
def PacketType.ofByte (b : UInt8) : PacketType :=
  match b.toNat with
  | 1 => .connect
  | 2 => .connAck
  | 3 => .publish
  | 4 => .pubAck
  | 5 => .pubRec
  | 6 => .pubRel
  | 7 => .pubComp
  | 8 => .subscribe
  | 9 => .subAck
  | 10 => .unsubscribe
  | 11 => .unsubAck
  | 12 => .pingReq
  | 13 => .pingResp
  | 14 => .disconnect
  | 15 => .auth
  | _ => .reserved

def parseFirstByte (b : UInt8) : FixedHeader :=
  { packetType := .ofByte ((b >>> 4) &&& 0x0F)
    dup := (b &&& 0x08) ≠ 0
    qos := (b >>> 1) &&& 0x03
    retain := (b &&& 0x01) ≠ 0 }

def decodeFixedHeader : Read FixedHeader := do
  let b ← readByte
  let len ← readBase128 .eof .invalidPacket true 4 0 0
  pure { parseFirstByte b with remainingLength := len.1, headerSize := 1 + len.2 }

def bit (c : Bool) (mask : UInt8) : UInt8 := if c then mask else 0

def firstByte (fh : FixedHeader) : UInt8 :=
  (fh.packetType.toByte <<< 4) ||| bit fh.dup 0x08 ||| ((fh.qos &&& 0x03) <<< 1)
    ||| bit fh.retain 0x01

def encodeFixedHeader (fh : FixedHeader) : Bytes := firstByte fh :: base128 fh.remainingLength

def validateFixedHeaderFlags (fh : FixedHeader) : Option Err :=
  if fh.packetType = .publish then
    if fh.qos = 3 then some .invalidPacket else none
  else if fh.packetType = .pubRel ∨ fh.packetType = .subscribe ∨
      fh.packetType = .unsubscribe then
    if fh.qos ≠ 1 ∨ fh.retain then some .invalidPacket else none
  else if fh.dup ∨ fh.qos ≠ 0 ∨ fh.retain then some .invalidPacket
  else none

def maxRemainingLength : ℕ := 256 * 1024 * 1024 - 1

/-- `Decode` up to the dispatch on the packet type. -/
def Codec.decodeHeader (c : Codec) : Read FixedHeader := do
  let fh ← decodeFixedHeader
  failWith (validateFixedHeaderFlags fh)
  failIf (maxRemainingLength < fh.remainingLength) .packetTooLarge
  failIf (c.maxPacketSize < fh.remainingLength + fh.headerSize) .packetTooLarge
  pure fh

/-- The header and the body, with the length of the body filled in. -/
def frame (fh : FixedHeader) (body : Bytes) : Bytes :=
  encodeFixedHeader { fh with remainingLength := body.length } ++ body

/-! ## Parts of bodies -/

/-- `if reader.Len() != 0 { return ErrMalformedPacket }` -/
def noneLeft : Read Unit := do
  let len ← remaining
  failIf (len ≠ 0) .malformedPacket

def readPropertySection (version : UInt8) (locus : Locus) : Read (Option Properties) :=
  readIf ((specFor version).properties = true) (decodeProperties locus) none

/-- A property section that must be the end of the body. -/
def lastProperties (locus : Locus) : Read (Option Properties) := do
  let props ← decodeProperties locus
  noneLeft
  pure props

def readPacketID : Read UInt16 := do
  let packetID ← readUint16
  failIf (packetID = 0) .malformedPacket
  pure packetID

/-! ## CONNECT -/

def protocolNameMQTT : Str := ascii "MQTT"
def protocolNameMQIsdp : Str := ascii "MQIsdp"

def parseConnectFlags (b : UInt8) : ConnectFlags :=
  { usernameFlag := (b &&& 0x80) ≠ 0
    passwordFlag := (b &&& 0x40) ≠ 0
    willRetain := (b &&& 0x20) ≠ 0
    willQoS := (b >>> 3) &&& 0x03
    willFlag := (b &&& 0x04) ≠ 0
    willTopicFlag := (b &&& 0x04) ≠ 0
    cleanSession := (b &&& 0x02) ≠ 0
    reserved := (b &&& 0x01) ≠ 0 }

/-- The flags byte; Reserved is never written, and the Will QoS only with a will. -/
def connectFlagsByte (f : ConnectFlags) : UInt8 :=
  bit f.usernameFlag 0x80 ||| bit f.passwordFlag 0x40 ||| bit f.willRetain 0x20
    ||| bit f.willFlag 0x04 ||| bit f.willFlag ((f.willQoS &&& 0x03) <<< 3)
    ||| bit f.cleanSession 0x02

/-- The fields up to the one that sets the version of the codec. -/
def connectHead : Read (Str × UInt8) := do
  let protoName ← readString
  let protoVer ← readByte
  pure (protoName, protoVer)

def readWill (version : UInt8) : Read (Option Properties × Str × Bytes) := do
  let willProps ← readPropertySection version .will
  let willTopic ← readString
  let willMessage ← readBlob
  pure (willProps, willTopic, willMessage)

def connectTail (fh : FixedHeader) (protoName : Str) (protoVer : UInt8) : Read ConnectPacket := do
  let connectFlags ← readByte
  let flags := parseConnectFlags connectFlags
  let keepAlive ← readUint16
  let props ← readPropertySection protoVer .connect
  let clientID ← readString
  let will ← readIf (flags.willFlag = true) (readWill protoVer) (none, [], [])
  let username ← readIf (flags.usernameFlag = true) readString []
  let password ← readIf (flags.passwordFlag = true) readBlob []
  noneLeft
  pure
    { fixedHeader := fh, protocolName := protoName, protocolVersion := protoVer, flags,
      keepAlive, clientID, willTopic := will.2.1, willMessage := will.2.2, username, password,
      properties := props, willProperties := will.1 }

/-- `decodeConnect`. The outer result fails where the source returns before `setVersion`;
otherwise it has the version that was set and what came of the rest. -/
def decodeConnect (fh : FixedHeader) : Read (UInt8 × Except Err ConnectPacket) := do
  let buf ← readFull fh.remainingLength
  let head ← inside buf (do
    let head ← connectHead
    let body ← rest
    pure (head, body))
  pure (head.1.2, (connectTail fh head.1.1 head.1.2 head.2).1)

def writeWill (p : ConnectPacket) : Except Err Bytes := do
  let willProps ← writePropertySection p.protocolVersion p.willProperties .will
  let willTopic ← writeString p.willTopic
  refuseIf (maxUint16 < p.willMessage.length) (.willMessageTooLong p.willMessage.length)
  pure (willProps ++ (willTopic ++ writeBinaryData p.willMessage))

def writePassword (password : Bytes) : Except Err Bytes := do
  refuseIf (maxUint16 < password.length) (.passwordTooLong password.length)
  pure (writeBinaryData password)

/-- `encodeConnect`; the body only. -/
def encodeConnect (p : ConnectPacket) : Except Err Bytes := do
  let protoName ← writeString p.protocolName
  let props ← writePropertySection p.protocolVersion p.properties .connect
  let clientID ← writeString p.clientID
  let will ← writeIf (p.flags.willFlag = true) (writeWill p)
  let username ← writeIf (p.flags.usernameFlag = true) (writeString p.username)
  let password ← writeIf (p.flags.passwordFlag = true) (writePassword p.password)
  pure (protoName ++ ([p.protocolVersion] ++ ([connectFlagsByte p.flags] ++
    (writeUint16 p.keepAlive ++ (props ++ (clientID ++ (will ++ (username ++ password))))))))

inductive ConnectViolation where
  /-- `"protocol: invalid protocol name %q"` -/
  | protocolName (name : Str)
  /-- `"protocol: unsupported protocol version %d"` -/
  | version (v : UInt8)
  /-- `"protocol: MQTT 3.1 requires protocol name %q"` and its sibling for later
  versions -/
  | nameForVersion (v : UInt8) (name : Str)
  /-- `"protocol: reserved flag must be 0"` -/
  | reservedFlag
  /-- `"protocol: invalid will QoS %d (must be 0, 1, or 2)"` -/
  | willQoS (qos : UInt8)
  /-- `"protocol: will QoS must be 0 when will flag is not set"` -/
  | willQoSWithoutWill
  /-- `"protocol: will retain must be 0 when will flag is not set"` -/
  | willRetainWithoutWill
  /-- `"protocol: password flag set but username flag not set"` -/
  | passwordWithoutUsername
  /-- `"protocol: MQTT %d does not allow a zero-length client ID"` -/
  | emptyClientID (v : UInt8)
  /-- `"protocol: zero-length client ID requires clean session"` -/
  | emptyClientIDNotClean
  /-- `"protocol: client ID length %d exceeds MQTT %d maximum %d"` -/
  | clientIDTooLong (len : ℕ) (v : UInt8) (max : ℕ)
  /-- `"protocol: will flag set but will topic is empty"` -/
  | emptyWillTopic

/-- `ValidateConnect`; `none` is a nil error. -/
def validateConnect (p : ConnectPacket) : Option ConnectViolation :=
  let spec := specFor p.protocolVersion
  if p.protocolName ≠ protocolNameMQTT ∧ p.protocolName ≠ protocolNameMQIsdp then
    some (.protocolName p.protocolName)
  else if p.protocolVersion ≠ version31 ∧ p.protocolVersion ≠ version311 ∧
      p.protocolVersion ≠ version50 then
    some (.version p.protocolVersion)
  else if p.protocolVersion = version31 ∧ p.protocolName ≠ protocolNameMQIsdp then
    some (.nameForVersion p.protocolVersion protocolNameMQIsdp)
  else if p.protocolVersion ≠ version31 ∧ p.protocolName ≠ protocolNameMQTT then
    some (.nameForVersion p.protocolVersion protocolNameMQTT)
  else if p.flags.reserved then some .reservedFlag
  else if p.flags.willFlag ∧ 2 < p.flags.willQoS then some (.willQoS p.flags.willQoS)
  else if ¬ p.flags.willFlag ∧ p.flags.willQoS ≠ 0 then some .willQoSWithoutWill
  else if ¬ p.flags.willFlag ∧ p.flags.willRetain then some .willRetainWithoutWill
  else if p.flags.passwordFlag ∧ ¬ p.flags.usernameFlag then some .passwordWithoutUsername
  else if p.clientID = [] ∧ ¬ spec.allowEmptyID then some (.emptyClientID p.protocolVersion)
  else if p.clientID = [] ∧ ¬ p.flags.cleanSession then some .emptyClientIDNotClean
  else if 0 < spec.maxClientIDLen ∧ spec.maxClientIDLen < p.clientID.length then
    some (.clientIDTooLong p.clientID.length p.protocolVersion spec.maxClientIDLen)
  else if p.flags.willFlag ∧ p.willTopic = [] then some .emptyWillTopic
  else none

/-! ## CONNACK -/

def decodeConnAck (version : UInt8) (fh : FixedHeader) : Read ConnAckPacket := do
  let buf ← readFull fh.remainingLength
  inside buf (do
    let spFlag ← readByte
    let reasonCode ← readByte
    failIf ((specFor version).properties = false ∧ fh.remainingLength ≠ 2) .malformedPacket
    let props ← readIf ((specFor version).properties = true ∧ 2 < fh.remainingLength)
      (lastProperties .connAck) none
    pure { fixedHeader := fh, reasonCode, sessionPresent := (spFlag &&& 0x01) ≠ 0,
           properties := props })

def encodeConnAck (version : UInt8) (p : ConnAckPacket) : Except Err Bytes := do
  let spByte := bit (p.sessionPresent && (specFor version).connAckSessionPresent) 0x01
  let props ← writePropertySection version p.properties .connAck
  pure ([spByte] ++ ([p.reasonCode] ++ props))

/-! ## PUBLISH -/

/-- An empty topic needs a topic alias, any other must be a topic name. -/
def publishTopicOk (version : UInt8) (topic : Str) (props : Option Properties) : Bool :=
  if topic = [] then
    (specFor version).topicAlias &&
      props.any fun p => p.topicAlias.any fun a => a != 0
  else validatePublishTopic topic

/-- The body of a PUBLISH after topic and packet identifier, `left` bytes of it. -/
def readPublishBody (version : UInt8) (left : ℕ) : Read (Option Properties × Bytes) :=
  if (specFor version).properties then do
    let data ← readFull left
    inside data (do
      let props ← mapError (.wrap "decode properties") (decodeProperties .publish)
      let payload ← rest
      pure (props, payload))
  else do
    let payload ← readFull left
    pure (none, payload)

/-- The packet identifier of a PUBLISH with `headerBytes` bytes read before it. -/
def readPublishID (fh : FixedHeader) (headerBytes : ℕ) : Read UInt16 :=
  readIf (0 < fh.qos) (do
    failIf (fh.remainingLength < headerBytes + 2) .malformedPacket
    readPacketID) 0

def decodePublish (version : UInt8) (fh : FixedHeader) : Read PublishPacket := do
  failIf (fh.remainingLength < 2) .malformedPacket
  let topic ← readStringBounded (fh.remainingLength - 2)
  let packetID ← readPublishID fh (2 + topic.length)
  let headerBytes := 2 + topic.length + if 0 < fh.qos then 2 else 0
  failIf (fh.remainingLength < headerBytes) .malformedPacket
  let body ← readPublishBody version (fh.remainingLength - headerBytes)
  failIf (publishTopicOk version topic body.1 = false) .malformedPacket
  pure { fixedHeader := fh, packetID, topic, payload := body.2, properties := body.1 }

def encodePublish (version : UInt8) (p : PublishPacket) : Except Err Bytes := do
  refuseIf (publishTopicOk version p.topic p.properties = false) .malformedPacket
  refuseIf (p.fixedHeader.qos = 0 ∧ p.packetID ≠ 0) .malformedPacket
  refuseIf (0 < p.fixedHeader.qos ∧ p.packetID = 0) .malformedPacket
  let topic ← writeString p.topic
  let props ← writePropertySection version p.properties .publish
  pure (topic ++ ((if 0 < p.fixedHeader.qos then writeUint16 p.packetID else []) ++
    (props ++ p.payload)))

/-! ## PUBACK, PUBREC, PUBREL and PUBCOMP -/

/-- `decodeAckFields`, with the packet the four callers build from it. -/
def decodeAck (version : UInt8) (fh : FixedHeader) : Read AckPacket := do
  failIf (fh.remainingLength < 2) .malformedPacket
  failIf ((specFor version).reasonCodes = false ∧ fh.remainingLength ≠ 2) .malformedPacket
  let data ← readFull fh.remainingLength
  inside data (do
    let packetID ← readPacketID
    let len ← remaining
    let reasonCode ← readIf (0 < len) readByte 0
    let len ← remaining
    let props ← readIf (0 < len) (lastProperties .ack) none
    pure { fixedHeader := fh, packetID, reasonCode, properties := props })

/-- The reason code and the properties of an acknowledgement, a DISCONNECT or an AUTH:
left out when both say nothing. -/
def writeReason (reasonCode : UInt8) (props : Option Properties) (locus : Locus) :
    Except Err Bytes :=
  match props with
  | none => if reasonCode ≠ 0 then .ok [reasonCode] else .ok []
  | some p => do
    let section_ ← encodeProperties p locus
    pure ([reasonCode] ++ section_)

def encodeAck (version : UInt8) (p : AckPacket) : Except Err Bytes := do
  refuseIf (p.packetID = 0) .malformedPacket
  refuseIf ((specFor version).reasonCodes = false ∧ (p.reasonCode ≠ 0 ∨ p.properties ≠ none))
    .malformedPacket
  let reason ← writeReason p.reasonCode p.properties .ack
  pure (writeUint16 p.packetID ++ reason)

/-! ## SUBSCRIBE and UNSUBSCRIBE -/

def parseFilter (topic : Str) (opts : UInt8) (subID : Option UInt32) : TopicFilter :=
  { topic
    qos := opts &&& 0x03
    noLocal := (opts &&& 0x04) ≠ 0
    retainAsPublished := (opts &&& 0x08) ≠ 0
    retainHandling := (opts >>> 4) &&& 0x03
    subscriptionIdentifier := subID }

def decodeFilter (version : UInt8) (subID : Option UInt32) (topics : List TopicFilter) :
    Read (List TopicFilter) := do
  let topic ← readStringFromReader
  let opts ← readByte
  failIf ((specFor version).properties = false ∧ opts &&& 0xFC ≠ 0) .malformedPacket
  failIf (opts &&& 0xC0 ≠ 0 ∨ opts &&& 0x03 = 3 ∨ (opts >>> 4) &&& 0x03 = 3) .malformedPacket
  pure (topics ++ [parseFilter topic opts subID])

/-- The Subscription Identifier of a SUBSCRIBE, which is copied to every filter. -/
def packetSubID (props : Option Properties) : Option UInt32 :=
  props.bind fun p => p.subscriptionIdentifier.head?

def decodeSubscribe (version : UInt8) (fh : FixedHeader) : Read SubscribePacket := do
  failIf (fh.remainingLength < 2) .malformedPacket
  let packetID ← readPacketID
  let data ← readFull (fh.remainingLength - 2)
  inside data (do
    let props ← readPropertySection version .subscribe
    let topics ← untilEmpty (decodeFilter version (packetSubID props)) []
    failIf (topics = []) .malformedPacket
    pure { fixedHeader := fh, packetID, topics, properties := props })

def optionsByte (f : TopicFilter) : UInt8 :=
  (f.qos &&& (0x03 : UInt8)) ||| bit f.noLocal 0x04 ||| bit f.retainAsPublished 0x08
    ||| ((f.retainHandling &&& (0x03 : UInt8)) <<< (4 : UInt8))

def encodeFilter (f : TopicFilter) : Except Err Bytes := do
  refuseIf (2 < f.qos ∨ 2 < f.retainHandling) .malformedPacket
  let topic ← writeString f.topic
  pure (topic ++ [optionsByte f])

def encodeSubscribe (version : UInt8) (p : SubscribePacket) : Except Err Bytes := do
  refuseIf (p.packetID = 0) .malformedPacket
  let props ← writePropertySection version p.properties .subscribe
  let topics ← writeAll encodeFilter p.topics
  refuseIf (p.topics = []) .malformedPacket
  pure (writeUint16 p.packetID ++ (props ++ topics))

def decodeTopic (topics : List Str) : Read (List Str) := do
  let topic ← readStringFromReader
  pure (topics ++ [topic])

def decodeUnsubscribe (version : UInt8) (fh : FixedHeader) : Read UnsubscribePacket := do
  failIf (fh.remainingLength < 2) .malformedPacket
  let packetID ← readPacketID
  let data ← readFull (fh.remainingLength - 2)
  inside data (do
    let props ← readPropertySection version .unsubscribe
    let topics ← untilEmpty decodeTopic []
    failIf (topics = []) .malformedPacket
    pure { fixedHeader := fh, packetID, topics, properties := props })

def encodeUnsubscribe (version : UInt8) (p : UnsubscribePacket) : Except Err Bytes := do
  refuseIf (p.packetID = 0) .malformedPacket
  let props ← writePropertySection version p.properties .unsubscribe
  let topics ← writeAll writeString p.topics
  refuseIf (p.topics = []) .malformedPacket
  pure (writeUint16 p.packetID ++ (props ++ topics))

/-! ## SUBACK and UNSUBACK -/

/-- The part the decoders of SUBACK and UNSUBACK share. -/
def decodeCodes (locus : Locus) (version : UInt8) (fh : FixedHeader) : Read SubAckPacket := do
  failIf (fh.remainingLength < 2) .malformedPacket
  let packetID ← readPacketID
  let body ← readIf (0 < fh.remainingLength - 2) (do
    let data ← readFull (fh.remainingLength - 2)
    inside data (do
      let props ← readPropertySection version locus
      let reasonCodes ← rest
      pure (props, reasonCodes))) (none, [])
  pure { fixedHeader := fh, packetID, reasonCodes := body.2, properties := body.1 }

def decodeSubAck (version : UInt8) (fh : FixedHeader) : Read SubAckPacket :=
  decodeCodes .subAck version fh

def decodeUnsubAck (version : UInt8) (fh : FixedHeader) : Read SubAckPacket := do
  failIf ((specFor version).reasonCodes = false ∧ fh.remainingLength ≠ 2) .malformedPacket
  decodeCodes .unsubAck version fh

/-- The part the encoders of SUBACK and UNSUBACK share. -/
def encodeCodes (locus : Locus) (version : UInt8) (p : SubAckPacket) : Except Err Bytes := do
  refuseIf (p.packetID = 0) .malformedPacket
  let props ← writePropertySection version p.properties locus
  pure (writeUint16 p.packetID ++ (props ++ p.reasonCodes))

def encodeSubAck (version : UInt8) (p : SubAckPacket) : Except Err Bytes :=
  encodeCodes .subAck version p

def encodeUnsubAck (version : UInt8) (p : SubAckPacket) : Except Err Bytes := do
  refuseIf ((specFor version).reasonCodes = false ∧ (p.reasonCodes ≠ [] ∨ p.properties ≠ none))
    .malformedPacket
  encodeCodes .unsubAck version p

/-! ## DISCONNECT and AUTH -/

/-- The body of a DISCONNECT or an AUTH; `valid` is the rule for its reason code. -/
def decodeReason (locus : Locus) (valid : UInt8 → Bool) (fh : FixedHeader) :
    Read DisconnectPacket := do
  let buf ← readFull fh.remainingLength
  inside buf (do
    let reasonCode ← readIf (0 < fh.remainingLength) readByte 0
    failIf (valid reasonCode = false) .malformedPacket
    let props ← readIf (1 < fh.remainingLength) (lastProperties locus) none
    pure { fixedHeader := fh, reasonCode, properties := props })

def decodeDisconnect (version : UInt8) (fh : FixedHeader) : Read DisconnectPacket := do
  failIf ((specFor version).reasonCodes = false ∧ 0 < fh.remainingLength) .malformedPacket
  decodeReason .disconnect (fun _ => true) fh

def encodeDisconnect (version : UInt8) (p : DisconnectPacket) : Except Err Bytes := do
  refuseIf ((specFor version).reasonCodes = false ∧ (p.reasonCode ≠ 0 ∨ p.properties ≠ none))
    .malformedPacket
  writeReason p.reasonCode p.properties .disconnect

def validAuthReasonCode (reasonCode : UInt8) : Bool :=
  reasonCode == 0x00 || reasonCode == 0x18 || reasonCode == 0x19

def decodeAuth (version : UInt8) (fh : FixedHeader) : Read DisconnectPacket := do
  failIf ((specFor version).authPacket = false) .invalidPacket
  decodeReason .auth validAuthReasonCode fh

def encodeAuth (version : UInt8) (p : DisconnectPacket) : Except Err Bytes := do
  refuseIf ((specFor version).authPacket = false) .invalidPacket
  refuseIf (validAuthReasonCode p.reasonCode = false) .malformedPacket
  writeReason p.reasonCode p.properties .auth

/-! ## Decode and Encode -/

/-- A packet without a body. -/
def decodePing (fh : FixedHeader) : Read FixedHeader := do
  failIf (fh.remainingLength ≠ 0) .malformedPacket
  pure fh

/-- The dispatch of `Decode`, CONNECT apart. -/
def decodeBody (version : UInt8) (fh : FixedHeader) : Read Packet :=
  match fh.packetType with
  | .connAck => Packet.connAck <$> decodeConnAck version fh
  | .publish => Packet.publish <$> decodePublish version fh
  | .pubAck => Packet.pubAck <$> decodeAck version fh
  | .pubRec => Packet.pubRec <$> decodeAck version fh
  | .pubRel => Packet.pubRel <$> decodeAck version fh
  | .pubComp => Packet.pubComp <$> decodeAck version fh
  | .subscribe => Packet.subscribe <$> decodeSubscribe version fh
  | .subAck => Packet.subAck <$> decodeSubAck version fh
  | .unsubscribe => Packet.unsubscribe <$> decodeUnsubscribe version fh
  | .unsubAck => Packet.unsubAck <$> decodeUnsubAck version fh
  | .pingReq => Packet.pingReq <$> decodePing fh
  | .pingResp => Packet.pingResp <$> decodePing fh
  | .disconnect => Packet.disconnect <$> decodeDisconnect version fh
  | .auth => Packet.auth <$> decodeAuth version fh
  | .connect | .reserved => throw .invalidPacket

/-- The body of an encoded packet, by its Go type. -/
def encodeBody (version : UInt8) : Packet → Except Err Bytes
  | .connect p => encodeConnect p
  | .connAck p => encodeConnAck version p
  | .publish p => encodePublish version p
  | .pubAck p | .pubRec p | .pubRel p | .pubComp p => encodeAck version p
  | .subscribe p => encodeSubscribe version p
  | .subAck p => encodeSubAck version p
  | .unsubscribe p => encodeUnsubscribe version p
  | .unsubAck p => encodeUnsubAck version p
  | .pingReq _ | .pingResp _ => .ok []
  | .disconnect p => encodeDisconnect version p
  | .auth p => encodeAuth version p

/-- The fixed header an encoder hands on: CONNECT sets its type, and PUBREL, SUBSCRIBE
and UNSUBSCRIBE set their reserved bits. -/
def headerOut : Packet → FixedHeader
  | .connect p => { p.fixedHeader with packetType := .connect }
  | .pubRel p => { p.fixedHeader with qos := 1, retain := false }
  | .subscribe p => { p.fixedHeader with qos := 1, retain := false }
  | .unsubscribe p => { p.fixedHeader with qos := 1, retain := false }
  | p => p.fixedHeader

namespace Codec

/-- `Decode` after the fixed header. -/
def decodePacket (c : Codec) (fh : FixedHeader) (body : Bytes) :
    Except Err Packet × Codec × Bytes :=
  if fh.packetType = .connect then
    match decodeConnect fh body with
    | (.error e, left) => (.error e, c, left)
    | (.ok (v, res), left) => (res.map .connect, c.setVersion v, left)
  else
    match decodeBody c.protocolVersion fh body with
    | (res, left) => (res, c, left)

/-- `Decode`: the packet or the error, the codec afterwards, and what is left of the
stream. -/
def decode (c : Codec) (s : Bytes) : Except Err Packet × Codec × Bytes :=
  match c.decodeHeader s with
  | (.error e, left) => (.error e, c, left)
  | (.ok fh, body) => c.decodePacket fh body

/-- The version a packet is encoded with: a CONNECT brings its own. -/
def versionFor (c : Codec) : Packet → UInt8
  | .connect p => p.protocolVersion
  | _ => c.protocolVersion

/-- `encodeTo`; nothing reaches the writer before the last check. -/
def encodeTo (c : Codec) (p : Packet) : Except Err Bytes × Codec :=
  match validateFixedHeaderFlags p.fixedHeader with
  | some e => (.error e, c)
  | none =>
    ((encodeBody (c.versionFor p) p).map (frame (headerOut p)), c.setVersion (c.versionFor p))

/-- `Encode`; a positive `outboundMax` bounds the whole packet. -/
def encode (c : Codec) (p : Packet) : Except Err Bytes × Codec :=
  if c.outboundMax = 0 then c.encodeTo p
  else
    match c.encodeTo p with
    | (.error e, c') => (.error e, c')
    | (.ok buf, c') =>
      if c.outboundMax < buf.length then (.error .packetTooLarge, c') else (.ok buf, c')

end Codec

end SharkMqtt.Protocol
