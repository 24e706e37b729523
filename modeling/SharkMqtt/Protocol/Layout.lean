import Mathlib.Tactic.MkIffOfInductiveProp
import SharkMqtt.Protocol.Codec
import SharkMqtt.Protocol.PropertySections

/-!
# Layout

What each encoder accepts and the bytes it writes, stated without the encoder: a
condition on the packet and a layout, joined by one theorem per packet type and one for
the dispatch (`encodeBody_eq_ok`).
-/

namespace SharkMqtt.Protocol

open Lib Lib.Reader

/-! ## Sections -/

/-- A section the codec can write: any accepted one in MQTT 5.0, none before. -/
def SectionOk (version : UInt8) (locus : Locus) (o : Option Properties) : Prop :=
  if (specFor version).properties = true then SectionAccepted locus o else o = none

def sectionPart (version : UInt8) (o : Option Properties) : Bytes :=
  if (specFor version).properties = true then sectionWire o else []

variable {version : UInt8} {b : Bytes}

theorem sectionAccepted_none (locus : Locus) : SectionAccepted locus none := by
  intro p hp
  cases hp

variable {locus : Locus}

theorem sectionAccepted_some {p : Properties} :
    SectionAccepted locus (some p) ↔ ∀ i ∈ p.items, ItemAccepted locus i := by
  simp [SectionAccepted]

theorem writePropertySection_eq_ok {o : Option Properties} :
    writePropertySection version o locus = .ok b ↔
      SectionOk version locus o ∧ b = sectionPart version o := by
  unfold writePropertySection SectionOk sectionPart
  cases (specFor version).properties with
  | true =>
    cases o with
    | none => simp [sectionAccepted_none, sectionWire, eq_comm]
    | some p => simpa [sectionAccepted_some, sectionWire] using Properties.encodeProperties_eq_ok
  | false => cases o <;> simp [eq_comm]

/-- Reason code and properties, absent when both say nothing. -/
def reasonPart (reasonCode : UInt8) : Option Properties → Bytes
  | none => if reasonCode ≠ 0 then [reasonCode] else []
  | some p => [reasonCode] ++ p.sectionBytes

theorem writeReason_eq_ok {reasonCode : UInt8} {o : Option Properties} :
    writeReason reasonCode o locus = .ok b ↔
      SectionAccepted locus o ∧ b = reasonPart reasonCode o := by
  cases o with
  | none =>
    by_cases hzero : reasonCode = 0
    · simp [writeReason, reasonPart, hzero, sectionAccepted_none, eq_comm]
    · simp [writeReason, reasonPart, hzero, sectionAccepted_none, eq_comm]
  | some p =>
    unfold writeReason
    rw [bind_written fun _ => Properties.encodeProperties_eq_ok, sectionAccepted_some, pure_eq_ok]
    rfl

/-- A checked writer that runs under a condition. -/
theorem writeIf_eq_ok {c : Prop} [Decidable c] {w : Except Err Bytes} {C : Prop} {enc : Bytes}
    (h : ∀ b, w = .ok b ↔ C ∧ b = enc) :
    writeIf c w = .ok b ↔ (c → C) ∧ b = if c then enc else [] := by
  unfold writeIf
  by_cases hc : c
  · simp [hc, h]
  · simp [hc, eq_comm]

/-! ## CONNECT -/

@[mk_iff] structure ConnectPacket.WillOk (p : ConnectPacket) : Prop where
  properties : SectionOk p.protocolVersion .will p.willProperties
  topic : WireString p.willTopic
  message : p.willMessage.length ≤ maxUint16

def ConnectPacket.willPart (p : ConnectPacket) : Bytes :=
  sectionPart p.protocolVersion p.willProperties ++
    (writeBinaryData p.willTopic ++ writeBinaryData p.willMessage)

@[mk_iff] structure ConnectPacket.Encodable (p : ConnectPacket) : Prop where
  name : WireString p.protocolName
  properties : SectionOk p.protocolVersion .connect p.properties
  clientID : WireString p.clientID
  will : p.flags.willFlag = true → p.WillOk
  username : p.flags.usernameFlag = true → WireString p.username
  password : p.flags.passwordFlag = true → p.password.length ≤ maxUint16

/-- The bytes after the protocol version. -/
def ConnectPacket.tailLayout (p : ConnectPacket) : Bytes :=
  [connectFlagsByte p.flags] ++ (writeUint16 p.keepAlive ++
    (sectionPart p.protocolVersion p.properties ++ (writeBinaryData p.clientID ++
      ((if p.flags.willFlag = true then p.willPart else []) ++
        ((if p.flags.usernameFlag = true then writeBinaryData p.username else []) ++
          (if p.flags.passwordFlag = true then writeBinaryData p.password else []))))))

def ConnectPacket.layout (p : ConnectPacket) : Bytes :=
  writeBinaryData p.protocolName ++ ([p.protocolVersion] ++ p.tailLayout)

theorem writeWill_eq_ok {p : ConnectPacket} : writeWill p = .ok b ↔ p.WillOk ∧ b = p.willPart := by
  unfold writeWill
  rw [bind_written fun _ => writePropertySection_eq_ok, bind_written fun _ => writeString_eq_ok,
    bind_refuseIf, pure_eq_ok, Nat.not_lt, ConnectPacket.willOk_iff, and_assoc, and_assoc]
  rfl

theorem writePassword_eq_ok {password : Bytes} :
    writePassword password = .ok b ↔
      password.length ≤ maxUint16 ∧ b = writeBinaryData password := by
  unfold writePassword
  rw [bind_refuseIf, pure_eq_ok, Nat.not_lt]

theorem encodeConnect_eq_ok {p : ConnectPacket} :
    encodeConnect p = .ok b ↔ p.Encodable ∧ b = p.layout := by
  unfold encodeConnect
  rw [bind_written fun _ => writeString_eq_ok, bind_written fun _ => writePropertySection_eq_ok,
    bind_written fun _ => writeString_eq_ok,
    bind_written fun _ => writeIf_eq_ok fun _ => writeWill_eq_ok,
    bind_written fun _ => writeIf_eq_ok fun _ => writeString_eq_ok,
    bind_written fun _ => writeIf_eq_ok fun _ => writePassword_eq_ok, pure_eq_ok,
    ConnectPacket.encodable_iff]
  simp only [and_assoc]
  rfl

/-! ## The other packets -/

section Others

variable {version : UInt8} {b : Bytes}

def ConnAckPacket.layout (version : UInt8) (p : ConnAckPacket) : Bytes :=
  [bit (p.sessionPresent && (specFor version).connAckSessionPresent) 0x01] ++
    ([p.reasonCode] ++ sectionPart version p.properties)

theorem encodeConnAck_eq_ok {p : ConnAckPacket} :
    encodeConnAck version p = .ok b ↔
      SectionOk version .connAck p.properties ∧ b = p.layout version := by
  unfold encodeConnAck
  rw [bind_written fun _ => writePropertySection_eq_ok, pure_eq_ok]
  rfl

structure PublishPacket.Encodable (version : UInt8) (p : PublishPacket) : Prop where
  topicOk : publishTopicOk version p.topic p.properties = true
  noID : p.fixedHeader.qos = 0 → p.packetID = 0
  hasID : 0 < p.fixedHeader.qos → p.packetID ≠ 0
  topic : WireString p.topic
  properties : SectionOk version .publish p.properties

def PublishPacket.layout (version : UInt8) (p : PublishPacket) : Bytes :=
  writeBinaryData p.topic ++ ((if 0 < p.fixedHeader.qos then writeUint16 p.packetID else []) ++
    (sectionPart version p.properties ++ p.payload))

theorem encodePublish_eq_ok {p : PublishPacket} :
    encodePublish version p = .ok b ↔ p.Encodable version ∧ b = p.layout version := by
  unfold encodePublish
  rw [bind_refuseIf, bind_refuseIf, bind_refuseIf, bind_written fun _ => writeString_eq_ok,
    bind_written fun _ => writePropertySection_eq_ok, pure_eq_ok]
  constructor
  · rintro ⟨htopicOk, hnoID, hhasID, ht, hp, hb⟩
    exact ⟨⟨eq_true_of_ne_false htopicOk, fun hq => not_not.mp fun hid => hnoID ⟨hq, hid⟩,
      fun hq hid => hhasID ⟨hq, hid⟩, ht, hp⟩, hb⟩
  · rintro ⟨⟨htopicOk, hnoID, hhasID, ht, hp⟩, hb⟩
    exact ⟨by simp [htopicOk], fun h => h.2 (hnoID h.1), fun h => hhasID h.1 h.2, ht, hp, hb⟩

/-- Before 5.0 an acknowledgement or a DISCONNECT has neither reason nor properties. -/
@[mk_iff] structure ReasonOk (version : UInt8) (locus : Locus) (reasonCode : UInt8)
    (props : Option Properties) : Prop where
  before5 : (specFor version).reasonCodes = false → reasonCode = 0 ∧ props = none
  properties : SectionAccepted locus props

theorem reason_before5 {c p q : Prop} : ¬ (c ∧ (¬ p ∨ ¬ q)) ↔ (c → p ∧ q) := by
  rw [not_and, ← not_and_or, not_not]

@[mk_iff] structure AckPacket.Encodable (version : UInt8) (p : AckPacket) : Prop where
  packetID : p.packetID ≠ 0
  reason : ReasonOk version .ack p.reasonCode p.properties

def AckPacket.layout (p : AckPacket) : Bytes :=
  writeUint16 p.packetID ++ reasonPart p.reasonCode p.properties

theorem encodeAck_eq_ok {p : AckPacket} :
    encodeAck version p = .ok b ↔ p.Encodable version ∧ b = p.layout := by
  unfold encodeAck
  rw [bind_refuseIf, bind_refuseIf, bind_written fun _ => writeReason_eq_ok, pure_eq_ok,
    reason_before5, AckPacket.encodable_iff, reasonOk_iff, and_assoc, and_assoc]
  rfl

@[mk_iff] structure FilterOk (f : TopicFilter) : Prop where
  qos : f.qos ≤ 2
  retainHandling : f.retainHandling ≤ 2
  topic : WireString f.topic

def filterBytes (f : TopicFilter) : Bytes := writeBinaryData f.topic ++ [optionsByte f]

theorem writes_encodeFilter : Writes encodeFilter FilterOk filterBytes := by
  intro f b
  unfold encodeFilter
  rw [bind_refuseIf, bind_written fun _ => writeString_eq_ok, pure_eq_ok, not_or, UInt8.not_lt,
    UInt8.not_lt, filterOk_iff]
  simp only [and_assoc]
  rfl

@[mk_iff] structure SubscribePacket.Encodable (version : UInt8) (p : SubscribePacket) : Prop where
  packetID : p.packetID ≠ 0
  properties : SectionOk version .subscribe p.properties
  filters : ∀ f ∈ p.topics, FilterOk f
  some : p.topics ≠ []

def SubscribePacket.layout (version : UInt8) (p : SubscribePacket) : Bytes :=
  writeUint16 p.packetID ++ (sectionPart version p.properties ++ p.topics.flatMap filterBytes)

theorem encodeSubscribe_eq_ok {p : SubscribePacket} :
    encodeSubscribe version p = .ok b ↔ p.Encodable version ∧ b = p.layout version := by
  unfold encodeSubscribe
  rw [bind_refuseIf, bind_written fun _ => writePropertySection_eq_ok,
    bind_written (writes_writeAll writes_encodeFilter p.topics), bind_refuseIf, pure_eq_ok,
    SubscribePacket.encodable_iff]
  simp only [and_assoc]
  rfl

@[mk_iff] structure UnsubscribePacket.Encodable (version : UInt8) (p : UnsubscribePacket) : Prop where
  packetID : p.packetID ≠ 0
  properties : SectionOk version .unsubscribe p.properties
  topics : ∀ t ∈ p.topics, WireString t
  some : p.topics ≠ []

def UnsubscribePacket.layout (version : UInt8) (p : UnsubscribePacket) : Bytes :=
  writeUint16 p.packetID ++ (sectionPart version p.properties ++ p.topics.flatMap writeBinaryData)

theorem encodeUnsubscribe_eq_ok {p : UnsubscribePacket} :
    encodeUnsubscribe version p = .ok b ↔ p.Encodable version ∧ b = p.layout version := by
  unfold encodeUnsubscribe
  rw [bind_refuseIf, bind_written fun _ => writePropertySection_eq_ok,
    bind_written (writes_writeAll (fun _ _ => writeString_eq_ok) p.topics), bind_refuseIf,
    pure_eq_ok, UnsubscribePacket.encodable_iff]
  simp only [and_assoc]
  rfl

@[mk_iff] structure SubAckPacket.Encodable (version : UInt8) (locus : Locus) (p : SubAckPacket) : Prop where
  packetID : p.packetID ≠ 0
  properties : SectionOk version locus p.properties

def SubAckPacket.layout (version : UInt8) (p : SubAckPacket) : Bytes :=
  writeUint16 p.packetID ++ (sectionPart version p.properties ++ p.reasonCodes)

theorem encodeCodes_eq_ok {p : SubAckPacket} :
    encodeCodes locus version p = .ok b ↔ p.Encodable version locus ∧ b = p.layout version := by
  unfold encodeCodes
  rw [bind_refuseIf, bind_written fun _ => writePropertySection_eq_ok, pure_eq_ok,
    SubAckPacket.encodable_iff, and_assoc]
  rfl

end Others

/-! ## All packets -/

namespace Packet

/-- The packets the encoder accepts, once the fixed header is valid. -/
def Encodable (version : UInt8) : Packet → Prop
  | .connect p => p.Encodable
  | .connAck p => SectionOk version .connAck p.properties
  | .publish p => p.Encodable version
  | .pubAck p | .pubRec p | .pubRel p | .pubComp p => p.Encodable version
  | .subscribe p => p.Encodable version
  | .subAck p => p.Encodable version .subAck
  | .unsubscribe p => p.Encodable version
  | .unsubAck p =>
    ((specFor version).reasonCodes = false → p.reasonCodes = [] ∧ p.properties = none) ∧
      p.Encodable version .unsubAck
  | .pingReq _ | .pingResp _ => True
  | .disconnect p => ReasonOk version .disconnect p.reasonCode p.properties
  | .auth p =>
    (specFor version).authPacket = true ∧ validAuthReasonCode p.reasonCode = true ∧
      SectionAccepted .auth p.properties

def layout (version : UInt8) : Packet → Bytes
  | .connect p => p.layout
  | .connAck p => p.layout version
  | .publish p => p.layout version
  | .pubAck p | .pubRec p | .pubRel p | .pubComp p => p.layout
  | .subscribe p => p.layout version
  | .subAck p | .unsubAck p => p.layout version
  | .unsubscribe p => p.layout version
  | .pingReq _ | .pingResp _ => []
  | .disconnect p | .auth p => reasonPart p.reasonCode p.properties

end Packet

theorem encodeUnsubAck_eq_ok {p : SubAckPacket} :
    encodeUnsubAck version p = .ok b ↔
      (Packet.unsubAck p).Encodable version ∧ b = p.layout version := by
  unfold encodeUnsubAck
  rw [bind_refuseIf, encodeCodes_eq_ok, reason_before5, ← and_assoc]
  rfl

theorem encodeDisconnect_eq_ok {p : DisconnectPacket} :
    encodeDisconnect version p = .ok b ↔
      ReasonOk version .disconnect p.reasonCode p.properties ∧
        b = reasonPart p.reasonCode p.properties := by
  unfold encodeDisconnect
  rw [bind_refuseIf, writeReason_eq_ok, reason_before5, reasonOk_iff, and_assoc]

theorem encodeAuth_eq_ok {p : DisconnectPacket} :
    encodeAuth version p = .ok b ↔
      (Packet.auth p).Encodable version ∧ b = reasonPart p.reasonCode p.properties := by
  unfold encodeAuth
  rw [bind_refuseIf, bind_refuseIf, writeReason_eq_ok, Bool.not_eq_false, Bool.not_eq_false]
  simp only [Packet.Encodable, and_assoc]

variable {p : Packet}

/-- **What the encoders accept and write.** -/
theorem encodeBody_eq_ok :
    encodeBody version p = .ok b ↔ p.Encodable version ∧ b = p.layout version := by
  cases p with
  | connect p => exact encodeConnect_eq_ok
  | connAck p => exact encodeConnAck_eq_ok
  | publish p => exact encodePublish_eq_ok
  | pubAck | pubRec | pubRel | pubComp => exact encodeAck_eq_ok
  | subscribe p => exact encodeSubscribe_eq_ok
  | subAck p => exact encodeCodes_eq_ok
  | unsubscribe p => exact encodeUnsubscribe_eq_ok
  | unsubAck p => exact encodeUnsubAck_eq_ok
  | pingReq | pingResp => simp [encodeBody, Packet.Encodable, Packet.layout, eq_comm]
  | disconnect p => exact encodeDisconnect_eq_ok
  | auth p => exact encodeAuth_eq_ok

/-- **Encode**, in those terms. -/
theorem Codec.encode_ok {c : Codec} (h : (c.encode p).1 = .ok b) :
    validateFixedHeaderFlags p.fixedHeader = none ∧ p.Encodable (c.versionFor p) ∧
      b = frame (headerOut p) (p.layout (c.versionFor p)) := by
  have hto : (c.encodeTo p).1 = .ok b := by
    revert h
    fun_cases encode c p with
    | case1 => exact id
    | case2 | case3 => rintro ⟨⟩
    | case4 _ buf c' hres =>
      rintro ⟨⟩
      rw [hres]
  revert hto
  fun_cases encodeTo c p with
  | case1 => rintro ⟨⟩
  | case2 hflags =>
    rcases hbody : encodeBody (c.versionFor p) p with e | body
    · rintro ⟨⟩
    · rintro ⟨⟩
      obtain ⟨henc, rfl⟩ := encodeBody_eq_ok.mp hbody
      exact ⟨hflags, henc, rfl⟩

/-- A packet that is accepted is written, unless a bound on the size forbids it. -/
theorem Codec.encode_eq_ok {c : Codec}
    (hflags : validateFixedHeaderFlags p.fixedHeader = none) (henc : p.Encodable (c.versionFor p))
    (hmax : c.outboundMax = 0 ∨
      (frame (headerOut p) (p.layout (c.versionFor p))).length ≤ c.outboundMax) :
    (c.encode p).1 = .ok (frame (headerOut p) (p.layout (c.versionFor p))) := by
  have hto : c.encodeTo p = (.ok (frame (headerOut p) (p.layout (c.versionFor p))),
      c.setVersion (c.versionFor p)) := by
    unfold encodeTo
    rw [hflags]
    rw [encodeBody_eq_ok.mpr ⟨henc, rfl⟩]
    rfl
  unfold encode
  rw [hto]
  split
  · rfl
  · rename_i hpos
    have hle := hmax.resolve_left hpos
    simp only
    rw [if_neg (Nat.not_lt.mpr hle)]

end SharkMqtt.Protocol
