import SharkMqtt.Lib.Writer
import SharkMqtt.Protocol.Wire

/-!
# Property sections

`protocol/properties.go` as a table. Every property has an identifier byte, a data
type, the sections it is valid in and a rule for its value; decoder and encoder are
written once over that table, with the source's case for an identifier as one row.

`Properties.get` lists the values the encoder writes for an identifier and
`Properties.put` is what the decoder does with a value it has read. Three laws tie the
two together (`get_put_self`, `get_put_ne`, `ext_get`), and no later proof looks at the
fields of the record again.
-/

namespace SharkMqtt.Protocol

open Lib Lib.Reader

/-! ## The table -/

/-- `propertyLocus`: the section a property stands in. -/
inductive Locus where
  | connect | will | connAck | publish
  /-- PUBACK, PUBREC, PUBREL and PUBCOMP -/
  | ack
  | subscribe | subAck | unsubscribe | unsubAck | disconnect | auth
deriving DecidableEq

def allLoci : List Locus :=
  [.connect, .will, .connAck, .publish, .ack, .subscribe, .subAck, .unsubscribe, .unsubAck,
    .disconnect, .auth]

inductive Kind where
  | byte | uint16 | uint32 | varInt | string | binary | pair

def Kind.Val : Kind → Type
  | .byte => UInt8
  | .uint16 => UInt16
  | .uint32 => UInt32
  | .varInt => UInt32
  | .string => Str
  | .binary => Bytes
  | .pair => UserProperty

/-- The property identifiers, in the order `encodeProperties` writes them. -/
inductive PropID where
  | payloadFormat | messageExpiryInterval | contentType | responseTopic | correlationData
  | subscriptionIdentifier | sessionExpiryInterval | assignedClientID | serverKeepAlive
  | authMethod | authData | requestProblemInfo | willDelayInterval | requestResponseInfo
  | responseInfo | serverReference | receiveMaximum | topicAliasMax | topicAlias | maximumQoS
  | retainAvailable | userProperty | maximumPacketSize | wildcardSubAvailable | subIDAvailable
  | sharedSubAvailable | reasonString
deriving DecidableEq

/-- The identifiers of `propertyProbes`, in its order. -/
def propertyProbes : List PropID :=
  [.payloadFormat, .messageExpiryInterval, .contentType, .responseTopic, .correlationData,
    .subscriptionIdentifier, .sessionExpiryInterval, .assignedClientID, .serverKeepAlive,
    .authMethod, .authData, .requestProblemInfo, .willDelayInterval, .requestResponseInfo,
    .responseInfo, .serverReference, .receiveMaximum, .topicAliasMax, .topicAlias, .maximumQoS,
    .retainAvailable, .userProperty, .maximumPacketSize, .wildcardSubAvailable, .subIDAvailable,
    .sharedSubAvailable, .reasonString]

namespace PropID

def code : PropID → UInt8
  | payloadFormat => 0x01
  | messageExpiryInterval => 0x02
  | contentType => 0x03
  | responseTopic => 0x08
  | correlationData => 0x09
  | subscriptionIdentifier => 0x0B
  | sessionExpiryInterval => 0x11
  | assignedClientID => 0x12
  | serverKeepAlive => 0x13
  | authMethod => 0x15
  | authData => 0x16
  | requestProblemInfo => 0x17
  | willDelayInterval => 0x18
  | requestResponseInfo => 0x19
  | responseInfo => 0x1A
  | serverReference => 0x1C
  | receiveMaximum => 0x21
  | topicAliasMax => 0x22
  | topicAlias => 0x23
  | maximumQoS => 0x24
  | retainAvailable => 0x25
  | userProperty => 0x26
  | maximumPacketSize => 0x27
  | wildcardSubAvailable => 0x28
  | subIDAvailable => 0x29
  | sharedSubAvailable => 0x2A
  | reasonString => 0x1F

/-- The lookup in `propertyLoci`. -/
def ofCode (b : UInt8) : Option PropID := propertyProbes.find? fun id => id.code = b

def kind : PropID → Kind
  | payloadFormat => .byte
  | messageExpiryInterval => .uint32
  | contentType => .string
  | responseTopic => .string
  | correlationData => .binary
  | subscriptionIdentifier => .varInt
  | sessionExpiryInterval => .uint32
  | assignedClientID => .string
  | serverKeepAlive => .uint16
  | authMethod => .string
  | authData => .binary
  | requestProblemInfo => .byte
  | willDelayInterval => .uint32
  | requestResponseInfo => .byte
  | responseInfo => .string
  | serverReference => .string
  | receiveMaximum => .uint16
  | topicAliasMax => .uint16
  | topicAlias => .uint16
  | maximumQoS => .byte
  | retainAvailable => .byte
  | userProperty => .pair
  | maximumPacketSize => .uint32
  | wildcardSubAvailable => .byte
  | subIDAvailable => .byte
  | sharedSubAvailable => .byte
  | reasonString => .string

def loci : PropID → List Locus
  | payloadFormat => [.publish, .will]
  | messageExpiryInterval => [.publish, .will]
  | contentType => [.publish, .will]
  | responseTopic => [.publish, .will]
  | correlationData => [.publish, .will]
  | subscriptionIdentifier => [.publish, .subscribe]
  | sessionExpiryInterval => [.connect, .connAck, .disconnect]
  | assignedClientID => [.connAck]
  | serverKeepAlive => [.connAck]
  | authMethod => [.connect, .connAck, .auth]
  | authData => [.connect, .connAck, .auth]
  | requestProblemInfo => [.connect]
  | willDelayInterval => [.will]
  | requestResponseInfo => [.connect]
  | responseInfo => [.connAck]
  | serverReference => [.connAck, .disconnect]
  | reasonString => [.connAck, .ack, .subAck, .unsubAck, .disconnect, .auth]
  | receiveMaximum => [.connect, .connAck]
  | topicAliasMax => [.connect, .connAck]
  | topicAlias => [.publish]
  | maximumQoS => [.connAck]
  | retainAvailable => [.connAck]
  | userProperty => allLoci
  | maximumPacketSize => [.connect, .connAck]
  | wildcardSubAvailable => [.connAck]
  | subIDAvailable => [.connAck]
  | sharedSubAvailable => [.connAck]

/-- The value rules, the same in `decodeProperties` and `validateProperties`: a flag
above 1 and a zero that would mean nothing are malformed. -/
def refuses : (id : PropID) → id.kind.Val → Bool
  | payloadFormat, (v : UInt8) => 1 < v
  | requestProblemInfo, (v : UInt8) => 1 < v
  | requestResponseInfo, (v : UInt8) => 1 < v
  | maximumQoS, (v : UInt8) => 1 < v
  | retainAvailable, (v : UInt8) => 1 < v
  | wildcardSubAvailable, (v : UInt8) => 1 < v
  | subIDAvailable, (v : UInt8) => 1 < v
  | sharedSubAvailable, (v : UInt8) => 1 < v
  | subscriptionIdentifier, (v : UInt32) => v = 0
  | receiveMaximum, (v : UInt16) => v = 0
  | topicAlias, (v : UInt16) => v = 0
  | maximumPacketSize, (v : UInt32) => v = 0
  | _, _ => false

/-- The two slices of the record. -/
def isSlice (id : PropID) : Bool := id = subscriptionIdentifier || id = userProperty

end PropID

def propertyMayRepeat (locus : Locus) (id : PropID) : Bool :=
  id = .userProperty || (id = .subscriptionIdentifier && locus = .publish)

/-! ## The record through the table -/

namespace Properties

/-- A string property is present when it is not empty. -/
def present (s : Str) : List Str := if s = [] then [] else [s]

/-- The values the encoder writes for an identifier, in order. -/
def get (p : Properties) : (id : PropID) → List id.kind.Val
  | .payloadFormat => p.payloadFormat.toList
  | .messageExpiryInterval => p.messageExpiryInterval.toList
  | .contentType => present p.contentType
  | .responseTopic => present p.responseTopic
  | .correlationData => p.correlationData.toList
  | .subscriptionIdentifier => p.subscriptionIdentifier
  | .sessionExpiryInterval => p.sessionExpiryInterval.toList
  | .assignedClientID => present p.assignedClientID
  | .serverKeepAlive => p.serverKeepAlive.toList
  | .authMethod => present p.authenticationMethod
  | .authData => p.authenticationData.toList
  | .requestProblemInfo => p.requestProblemInfo.toList
  | .willDelayInterval => p.willDelayInterval.toList
  | .requestResponseInfo => p.requestResponseInfo.toList
  | .responseInfo => present p.responseInfo
  | .serverReference => present p.serverReference
  | .receiveMaximum => p.receiveMaximum.toList
  | .topicAliasMax => p.topicAliasMaximum.toList
  | .topicAlias => p.topicAlias.toList
  | .maximumQoS => p.maximumQoS.toList
  | .retainAvailable => p.retainAvailable.toList
  | .userProperty => p.userProperties
  | .maximumPacketSize => p.maximumPacketSize.toList
  | .wildcardSubAvailable => p.wildcardSubAvailable.toList
  | .subIDAvailable => p.subIDAvailable.toList
  | .sharedSubAvailable => p.sharedSubAvailable.toList
  | .reasonString => present p.reasonString

/-- An empty binary value is read as nil. -/
def nonNil (data : Bytes) : Option Bytes := if data = [] then none else some data

def put (p : Properties) : (id : PropID) → id.kind.Val → Properties
  | .payloadFormat, v => { p with payloadFormat := some v }
  | .messageExpiryInterval, v => { p with messageExpiryInterval := some v }
  | .contentType, v => { p with contentType := v }
  | .responseTopic, v => { p with responseTopic := v }
  | .correlationData, v => { p with correlationData := nonNil v }
  | .subscriptionIdentifier, (v : UInt32) =>
    { p with subscriptionIdentifier := p.subscriptionIdentifier ++ [v] }
  | .sessionExpiryInterval, v => { p with sessionExpiryInterval := some v }
  | .assignedClientID, v => { p with assignedClientID := v }
  | .serverKeepAlive, v => { p with serverKeepAlive := some v }
  | .authMethod, v => { p with authenticationMethod := v }
  | .authData, v => { p with authenticationData := nonNil v }
  | .requestProblemInfo, v => { p with requestProblemInfo := some v }
  | .willDelayInterval, v => { p with willDelayInterval := some v }
  | .requestResponseInfo, v => { p with requestResponseInfo := some v }
  | .responseInfo, v => { p with responseInfo := v }
  | .serverReference, v => { p with serverReference := v }
  | .receiveMaximum, v => { p with receiveMaximum := some v }
  | .topicAliasMax, v => { p with topicAliasMaximum := some v }
  | .topicAlias, v => { p with topicAlias := some v }
  | .maximumQoS, v => { p with maximumQoS := some v }
  | .retainAvailable, v => { p with retainAvailable := some v }
  | .userProperty, (v : UserProperty) => { p with userProperties := p.userProperties ++ [v] }
  | .maximumPacketSize, v => { p with maximumPacketSize := some v }
  | .wildcardSubAvailable, v => { p with wildcardSubAvailable := some v }
  | .subIDAvailable, v => { p with subIDAvailable := some v }
  | .sharedSubAvailable, v => { p with sharedSubAvailable := some v }
  | .reasonString, v => { p with reasonString := v }

end Properties

/-- The values that come back as absence: an empty string and an empty binary. -/
def Kind.blank : (k : Kind) → k.Val → Bool
  | .string, (s : Str) => s = []
  | .binary, (b : Bytes) => b = []
  | _, _ => false

namespace Properties

theorem present_eq (s : Str) : present s = [] ++ if Kind.blank .string s then [] else [s] := by
  by_cases hs : s = []
  · subst hs
    rfl
  · have hblank : ¬ Kind.blank .string s = true := by simpa [Kind.blank] using hs
    rw [present, if_neg hs, if_neg hblank, List.nil_append]

theorem toList_nonNil_eq (data : Bytes) :
    (nonNil data).toList = [] ++ if Kind.blank .binary data then [] else [data] := by
  by_cases hd : data = []
  · subst hd
    rfl
  · have hblank : ¬ Kind.blank .binary data = true := by simpa [Kind.blank] using hd
    rw [nonNil, if_neg hd, if_neg hblank]
    rfl

variable (p : Properties)

/-- **What is stored is what the encoder will write**, added to a slice and in place of
anything else. -/
theorem get_put_self (id : PropID) (v : id.kind.Val) :
    (p.put id v).get id =
      (if id.isSlice then p.get id else []) ++ if id.kind.blank v then [] else [v] := by
  cases id <;> first | rfl | exact present_eq v | exact toList_nonNil_eq v

theorem get_put_ne {id id' : PropID} (v : id.kind.Val) (h : id' ≠ id) :
    (p.put id v).get id' = p.get id' := by
  cases id <;> cases id' <;> first | rfl | exact absurd rfl h

theorem toList_injective {α : Type} {a b : Option α} (h : a.toList = b.toList) : a = b := by
  cases a <;> cases b <;> simp_all

theorem present_injective {s t : Str} (h : present s = present t) : s = t := by
  unfold present at h
  split at h <;> split at h <;> simp_all

/-- **The record is determined by what the encoder writes.** -/
theorem ext_get {p q : Properties} (h : ∀ id, p.get id = q.get id) : p = q := by
  exact Properties.mk.injEq .. ▸ ⟨toList_injective (h .payloadFormat),
    toList_injective (h .messageExpiryInterval), present_injective (h .contentType),
    present_injective (h .responseTopic), toList_injective (h .correlationData),
    h .subscriptionIdentifier, toList_injective (h .sessionExpiryInterval),
    present_injective (h .assignedClientID), toList_injective (h .serverKeepAlive),
    present_injective (h .authMethod), toList_injective (h .authData),
    toList_injective (h .requestProblemInfo), toList_injective (h .willDelayInterval),
    toList_injective (h .requestResponseInfo), present_injective (h .responseInfo),
    present_injective (h .serverReference), toList_injective (h .receiveMaximum),
    toList_injective (h .topicAliasMax), toList_injective (h .topicAlias),
    toList_injective (h .maximumQoS), toList_injective (h .retainAvailable),
    h .userProperty, toList_injective (h .maximumPacketSize),
    toList_injective (h .wildcardSubAvailable), toList_injective (h .subIDAvailable),
    toList_injective (h .sharedSubAvailable), present_injective (h .reasonString)⟩

theorem get_empty (id : PropID) : Properties.get {} id = [] := by cases id <;> rfl

theorem length_get_le_one {id : PropID} (h : id.isSlice = false) : (p.get id).length ≤ 1 := by
  have htoList : ∀ {α : Type} (o : Option α), o.toList.length ≤ 1 := by
    intro α o
    cases o <;> simp
  have hpresent : ∀ s, (present s).length ≤ 1 := by
    intro s
    unfold present
    split <;> simp
  cases id <;> first | exact htoList _ | exact hpresent _ | cases h

end Properties

/-! ## Values on the wire -/

def readValue : (k : Kind) → Read k.Val
  | .byte => readByte
  | .uint16 => readUint16
  | .uint32 => readUint32
  | .varInt => readVarInt
  | .string => readStringFromReader
  | .binary => readBinaryDataFromReader
  | .pair => do
    let key ← readStringFromReader
    let value ← readStringFromReader
    pure (⟨key, value⟩ : UserProperty)

def writeValue : (k : Kind) → k.Val → Except Err Bytes
  | .byte, (v : UInt8) => .ok [v]
  | .uint16, v => .ok (writeUint16 v)
  | .uint32, v => .ok (writeUint32 v)
  | .varInt, v => .ok (writeVarInt v)
  | .string, s => writeString s
  | .binary, data => .ok (writeBinaryData data)
  | .pair, (u : UserProperty) => do
    let key ← writeString u.key
    let value ← writeString u.value
    pure (key ++ value)

abbrev Item := (id : PropID) × id.kind.Val

/-- The instances `encodeProperties` writes, in its order. -/
def Properties.items (p : Properties) : List Item :=
  propertyProbes.flatMap fun id => (p.get id).map (Sigma.mk id)

/-! ## Decoding -/

/-- The variables of the loop of `decodeProperties`. -/
structure Section where
  props : Properties := {}
  seen : List PropID := []

def maxUserProperties : ℕ := 100

def Section.add (st : Section) (i : Item) : Section :=
  { props := st.props.put i.1 i.2, seen := i.1 :: st.seen }

def decodeProperty (locus : Locus) (st : Section) : Read Section := do
  let propType ← readByte
  match PropID.ofCode propType with
  | none => throw (.unknownProperty propType)
  | some id => do
    failIf (locus ∉ id.loci) (.propertyNotValid propType)
    failIf (id ∈ st.seen ∧ propertyMayRepeat locus id = false) (.propertyRepeated propType)
    failIf (id = .userProperty ∧ maxUserProperties ≤ st.props.userProperties.length)
      .malformedPacket
    let v ← readValue id.kind
    failIf (id.refuses v = true) .malformedPacket
    pure (st.add ⟨id, v⟩)

/-- `decodeProperties`, on a reader over the packet's own bytes as in every caller. -/
def decodeProperties (locus : Locus) : Read (Option Properties) := do
  let propLen ← readVarInt
  if propLen = 0 then pure none
  else do
    let len ← remaining
    failIf (len < propLen.toNat) .malformedPacket
    let buf ← readFull propLen.toNat
    let st ← inside buf (untilEmpty (decodeProperty locus) {})
    pure (some st.props)

/-! ## Encoding -/

def validatePropertyLoci (props : Properties) (locus : Locus) : Option Err :=
  (propertyProbes.find? fun id => decide (props.get id ≠ [] ∧ locus ∉ id.loci)).map
    fun id => .propertyNotValid id.code

/-- `validateProperties`; the value rules come first. -/
def validateProperties (props : Properties) (locus : Locus) : Option Err :=
  if props.items.any fun i => i.1.refuses i.2 then some .malformedPacket
  else validatePropertyLoci props locus

def encodeProperty (i : Item) : Except Err Bytes := do
  let v ← writeValue i.1.kind i.2
  pure (i.1.code :: v)

/-- `encodeProperties`; the length is cast to a `uint32`. -/
def encodeProperties (props : Properties) (locus : Locus) : Except Err Bytes :=
  match validateProperties props locus with
  | some e => .error e
  | none => do
    let data ← writeAll encodeProperty props.items
    pure (writeVarInt (UInt32.ofNat data.length) ++ data)

/-- `writePropertySection` of a codec bound to `version`. -/
def writePropertySection (version : UInt8) (props : Option Properties) (locus : Locus) :
    Except Err Bytes :=
  if (specFor version).properties = false then
    match props with
    | none => .ok []
    | some _ => .error (.propertiesBeforeV5 version)
  else
    match props with
    | none => .ok (writeVarInt 0)
    | some p => encodeProperties p locus

end SharkMqtt.Protocol
