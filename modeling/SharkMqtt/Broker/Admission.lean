import SharkMqtt.Protocol.Layout

/-!
# The checks of a handshake

`HandleConnection` (`broker/conn_lifecycle.go`) from the rate limit to the owner of the
session: what a CONNECT has to pass before it is given a session, in the order of the
source, and the code of the CONNACK with which each check rejects it.

MQTT 3.1 and 3.1.1 have the return codes 0x01 to 0x05, MQTT 5.0 has reason codes from 0x80
on. Five of the checks look at the version. The rate limit, which comes before the packet
is looked at, the authentication method and the will topic answer with a code of MQTT 5.0
always (`rejection_fits_iff`).
-/

namespace SharkMqtt.Broker.Admission

open Protocol

def connAckHasReasonCode (version : UInt8) : Bool := version = version50

structure Options where
  maxConnRate : ℕ := 0
  maxClientIDLength : ℕ := 0
  /-- The methods of the enhanced authenticators. -/
  enhancedAuth : List Str := []
  /-- Whether a ClientID, user name and password are accepted. -/
  authenticator : Option (Str → Str → Bytes → Bool) := none

/-- What the handshake finds outside its packet. -/
structure Env where
  /-- `connRate.Allow` -/
  rateAllows : Bool := true
  /-- `flapping.Check` is not `FlapAllow`. -/
  flapping : Bool := false
  /-- The exchange of AUTH packets has succeeded. -/
  exchanged : Bool := true
  /-- The user of the session in the manager, and of the record that the store returns. -/
  sessionUser : Option Str := none
  storedUser : Option Str := none

inductive Cause where
  | rateLimited
  | invalidConnect
  | flapping
  | clientIDTooLong
  | badAuthMethod
  | badCredentials
  | willTopic
  | sessionOwner
deriving DecidableEq

inductive Verdict where
  /-- A CONNACK with this code is the answer. -/
  | rejected (cause : Cause) (code : UInt8)
  /-- The handshake ends without a CONNACK. -/
  | dropped
  | admitted
deriving DecidableEq

/-- An unknown version has the zero `Spec` here. -/
def connAckForConnectRejection (pkt : ConnectPacket) : UInt8 :=
  let sp := (specOf pkt.protocolVersion).getD {}
  if connAckHasReasonCode pkt.protocolVersion then 0x82
  else if (pkt.clientID = [] ∧ sp.allowEmptyID = false) ∨
      (0 < sp.maxClientIDLen ∧ sp.maxClientIDLen < pkt.clientID.length) then 0x02
  else 0x01

/-- One of the two codes for a condition that both kinds of CONNACK can report. -/
def codeFor (pkt : ConnectPacket) (reasonCode returnCode : UInt8) : UInt8 :=
  if connAckHasReasonCode pkt.protocolVersion then reasonCode else returnCode

/-- Enhanced authentication if the CONNECT names a method, else the authenticator; `none` goes
on. -/
def authenticate (opts : Options) (env : Env) (pkt : ConnectPacket) : Option Verdict :=
  let method := (pkt.properties.map Properties.authenticationMethod).getD []
  if method ≠ [] then
    if method ∉ opts.enhancedAuth then some (.rejected .badAuthMethod 0x8C)
    else if env.exchanged then none
    else some .dropped
  else
    match opts.authenticator with
    | none => none
    | some accepts =>
      if accepts pkt.clientID pkt.username pkt.password then none
      else some (.rejected .badCredentials (codeFor pkt 0x86 0x04))

/-- The session in memory, then the stored one, belongs to somebody else. -/
def ownerMismatch (env : Env) (pkt : ConnectPacket) : Bool :=
  pkt.clientID ≠ [] &&
    (env.sessionUser.any (· ≠ pkt.username) || env.storedUser.any (· ≠ pkt.username))

def checkConnect (opts : Options) (env : Env) (pkt : ConnectPacket) : Verdict :=
  if (validateConnect pkt).isSome then .rejected .invalidConnect (connAckForConnectRejection pkt)
  else if env.flapping then .rejected .flapping (codeFor pkt 0x8A 0x03)
  else if 0 < opts.maxClientIDLength ∧ opts.maxClientIDLength < pkt.clientID.length then
    .rejected .clientIDTooLong (codeFor pkt 0x85 0x02)
  else
    match authenticate opts env pkt with
    | some verdict => verdict
    | none =>
      if pkt.flags.willFlag ∧ validatePublishTopic pkt.willTopic = false then
        .rejected .willTopic 0x80
      else if ownerMismatch env pkt then .rejected .sessionOwner (codeFor pkt 0x87 0x05)
      else .admitted

/-- The verdict, and the codec that writes the answer: the bound of the client is set when
the packet is looked at. -/
def handshake (opts : Options) (env : Env) (codec : Codec) (info : Option ConnectPacket) :
    Verdict × Codec :=
  if 0 < opts.maxConnRate ∧ env.rateAllows = false then (.rejected .rateLimited 0x9F, codec)
  else
    match info with
    | none => (.dropped, codec)
    | some pkt =>
      (checkConnect opts env pkt,
        match pkt.properties.bind Properties.maximumPacketSize with
        | some n => codec.setOutboundMaxPacketSize n.toNat
        | none => codec)

def buildConnAck (reasonCode : UInt8) (sessionPresent : Bool) : ConnAckPacket where
  fixedHeader := { packetType := .connAck }
  reasonCode := reasonCode
  sessionPresent := sessionPresent

/-- `sendConnAckRaw`: what is written, if the codec does not refuse it. -/
def sendConnAckRaw (codec : Codec) (reasonCode : UInt8) : Except Err Bytes :=
  (codec.encode (.connAck (buildConnAck reasonCode false))).1

/-! ## The codes -/

/-- A rejection that a client of this version knows. -/
def Fits (version code : UInt8) : Prop :=
  if version = version50 then 0x80 ≤ code else 0x01 ≤ code ∧ code ≤ 0x05

instance (version code : UInt8) : Decidable (Fits version code) :=
  inferInstanceAs (Decidable (if version = version50 then _ ≤ _ else _ ≤ _ ∧ _ ≤ _))

theorem fits_codeFor (pkt : ConnectPacket) {reasonCode returnCode : UInt8}
    (hreason : 0x80 ≤ reasonCode) (hreturn : 0x01 ≤ returnCode ∧ returnCode ≤ 0x05) :
    Fits pkt.protocolVersion (codeFor pkt reasonCode returnCode) := by
  unfold Fits codeFor connAckHasReasonCode
  by_cases hv : pkt.protocolVersion = version50
  · simpa [hv] using hreason
  · simpa [hv] using hreturn

theorem fits_connAckForConnectRejection (pkt : ConnectPacket) :
    Fits pkt.protocolVersion (connAckForConnectRejection pkt) := by
  unfold Fits connAckForConnectRejection connAckHasReasonCode
  by_cases hv : pkt.protocolVersion = version50
  · simp [hv]
  · simp only [hv, decide_false, if_false, Bool.false_eq_true]
    split_ifs <;> decide

variable {code : UInt8}

/-- Codes of MQTT 5.0 suit nobody else. -/
theorem fits_reasonCode_iff {version : UInt8} (hcode : 0x80 ≤ code) :
    Fits version code ↔ version = version50 := by
  unfold Fits
  by_cases hv : version = version50
  · simp [hv, hcode]
  · simp only [hv, if_false, iff_false, not_and]
    intro _ hle
    exact absurd (UInt8.le_trans hcode hle) (by decide)

/-- The checks that do not look at the version. -/
def Cause.blind : Cause → Bool
  | .rateLimited => true
  | .badAuthMethod => true
  | .willTopic => true
  | _ => false

/-- A code that was chosen as it should, for its cause. -/
def Chosen (pkt : ConnectPacket) (cause : Cause) (code : UInt8) : Prop :=
  if cause.blind then 0x80 ≤ code else Fits pkt.protocolVersion code

theorem authenticate_chosen {opts : Options} {env : Env} {pkt : ConnectPacket} {cause : Cause}
    (h : authenticate opts env pkt = some (.rejected cause code)) : Chosen pkt cause code := by
  revert h
  fun_cases authenticate opts env pkt <;> intro h <;> cases h
  · exact (by decide : (0x80 : UInt8) ≤ 0x8C)
  · exact fits_codeFor pkt (by decide) (by decide)

theorem checkConnect_chosen {opts : Options} {env : Env} {pkt : ConnectPacket} {cause : Cause}
    (h : checkConnect opts env pkt = .rejected cause code) : Chosen pkt cause code := by
  revert h
  fun_cases checkConnect opts env pkt <;> intro h <;> try cases h
  · exact fits_connAckForConnectRejection pkt
  · exact fits_codeFor pkt (by decide) (by decide)
  · exact fits_codeFor pkt (by decide) (by decide)
  next hauth => exact authenticate_chosen hauth
  · exact (by decide : (0x80 : UInt8) ≤ 0x80)
  · exact fits_codeFor pkt (by decide) (by decide)

/-- The code is the fourth byte of the CONNACK. -/
theorem code_on_wire {codec : Codec} {bytes : Bytes} (h : sendConnAckRaw codec code = .ok bytes) :
    bytes[3]? = some code := by
  obtain ⟨-, -, rfl⟩ := Codec.encode_ok h
  have hlayout : Packet.layout codec.protocolVersion (.connAck (buildConnAck code false)) =
      0 :: code :: sectionPart codec.protocolVersion none := rfl
  have hsection : (sectionPart codec.protocolVersion none).length ≤ 1 := by
    unfold sectionPart
    split_ifs
    · exact Nat.le_refl 1
    · exact Nat.zero_le 1
  show (frame (headerOut (.connAck (buildConnAck code false)))
    (Packet.layout codec.protocolVersion (.connAck (buildConnAck code false))))[3]? = some code
  rw [hlayout, frame, encodeFixedHeader, Lib.base128_of_lt]
  · rfl
  · simp only [List.length_cons]
    omega

/-- The client finds the code of its rejection in the CONNACK, if one reaches it, and it is
one of its version exactly if it has MQTT 5.0 or the check has looked at its version. -/
theorem rejection_fits_iff (opts : Options) (env : Env) (codec : Codec) (pkt : ConnectPacket)
    {cause : Cause} {code : UInt8}
    (h : (handshake opts env codec (some pkt)).1 = .rejected cause code) :
    (∀ bytes, sendConnAckRaw (handshake opts env codec (some pkt)).2 code = .ok bytes →
      bytes[3]? = some code) ∧
    (Fits pkt.protocolVersion code ↔
      pkt.protocolVersion = version50 ∨
        (cause ≠ .rateLimited ∧ cause ≠ .badAuthMethod ∧ cause ≠ .willTopic)) := by
  refine ⟨fun bytes hbytes => code_on_wire hbytes, ?_⟩
  have hchosen : Chosen pkt cause code := by
    unfold handshake at h
    split_ifs at h
    · cases h
      exact (by decide : (0x80 : UInt8) ≤ 0x9F)
    · exact checkConnect_chosen h
  have hblind : cause.blind = false ↔
      cause ≠ .rateLimited ∧ cause ≠ .badAuthMethod ∧ cause ≠ .willTopic := by
    cases cause <;> decide
  rw [← hblind]
  unfold Chosen at hchosen
  split_ifs at hchosen with hb
  · simp [fits_reasonCode_iff hchosen, hb]
  · simp [hchosen, hb]

/-- A CONNECT of MQTT 3.1.1, with a will if a topic is given. -/
def connect311 (willTopic : Str) : ConnectPacket where
  fixedHeader := { packetType := .connect }
  protocolName := protocolNameMQTT
  protocolVersion := version311
  flags := { cleanSession := true, willFlag := willTopic ≠ [] }
  keepAlive := 60
  clientID := ascii "c"
  willTopic := willTopic

theorem rejection_fits_flapping :
    Fits version311 0x03 ∧
      sendConnAckRaw { maxPacketSize := 1024 } 0x03 = .ok [0x20, 0x02, 0x00, 0x03] :=
  ⟨(rejection_fits_iff {} { flapping := true } { maxPacketSize := 1024 } (connect311 [])
    (by decide +kernel : (handshake {} { flapping := true } { maxPacketSize := 1024 }
      (some (connect311 []))).1 = .rejected .flapping 0x03)).2.mpr (Or.inr (by decide)),
    by decide +kernel⟩

/-- A client of MQTT 3.1.1 that comes too often is told 0x9F, and one whose will topic has a
wildcard 0x80. -/
theorem reason_code_for_311 :
    (handshake { maxConnRate := 1 } { rateAllows := false } { maxPacketSize := 1024 }
      (some (connect311 []))).1 = .rejected .rateLimited 0x9F ∧
    sendConnAckRaw { maxPacketSize := 1024 } 0x9F = .ok [0x20, 0x02, 0x00, 0x9F] ∧
    ¬ Fits version311 0x9F ∧
    (handshake {} {} { maxPacketSize := 1024 } (some (connect311 (ascii "a/#")))).1 =
      .rejected .willTopic 0x80 ∧
    sendConnAckRaw { maxPacketSize := 1024 } 0x80 = .ok [0x20, 0x02, 0x00, 0x80] ∧
    ¬ Fits version311 0x80 := by
  decide +kernel

end SharkMqtt.Broker.Admission
