import SharkMqtt.Protocol.Framing
import SharkMqtt.Protocol.Layout

/-!
# Decoding what was encoded

`Encode` accepts some values the wire cannot represent. `Packet.Fits` lists them by
packet type: they are the places where a length, a count, a bit field or a derived
field is enforced on the decoding side only. Together with the size of the body
(`Packet.size`) it is exactly the condition under which a packet that was encoded comes
back, up to the fields the wire does not carry (`Packet.canon`).
-/

namespace SharkMqtt.Protocol

open Lib Lib.Reader

/-! ## The fixed header -/

/-- The fields of a fixed header that are on the wire as such. -/
def FixedHeader.carried (fh : FixedHeader) : FixedHeader :=
  { fh with remainingLength := 0, headerSize := 0 }

def twoBits : List UInt8 := [0, 1, 2, 3]

theorem mem_twoBits {q : UInt8} (h : q ≤ 3) : q ∈ twoBits := by
  have hle : q.toNat ≤ 3 := h
  simp only [twoBits, List.mem_cons, List.not_mem_nil, or_false, ← UInt8.toNat_inj]
  change q.toNat = 0 ∨ q.toNat = 1 ∨ q.toNat = 2 ∨ q.toNat = 3
  omega

/-- The first byte, over all packet types and flags. -/
theorem parseFirstByte_table : ∀ type ∈ (List.range 16).map (PacketType.ofByte ∘ UInt8.ofNat),
    ∀ qos ∈ twoBits, ∀ dup retain, parseFirstByte (firstByte ⟨type, dup, qos, retain, 0, 0⟩) =
      ⟨type, dup, qos, retain, 0, 0⟩ := by
  decide +kernel

variable {fh : FixedHeader}

theorem parseFirstByte_firstByte (h : fh.qos ≤ 3) : parseFirstByte (firstByte fh) = fh.carried := by
  have htype : fh.packetType ∈ (List.range 16).map (PacketType.ofByte ∘ UInt8.ofNat) := by
    cases fh.packetType <;> decide
  exact parseFirstByte_table fh.packetType htype fh.qos (mem_twoBits h) fh.dup fh.retain

theorem parses_decodeFixedHeader (hqos : fh.qos ≤ 3)
    (hlen : fh.remainingLength ≤ maxRemainingLength) :
    Parses decodeFixedHeader (encodeFixedHeader fh)
      { fh with headerSize := 1 + (base128 fh.remainingLength).length } := by
  have hlt : fh.remainingLength < 128 ^ 4 := Nat.lt_of_le_of_lt hlen (by decide)
  have hvalue : ({ parseFirstByte (firstByte fh) with
      remainingLength := fh.remainingLength
      headerSize := 1 + (base128 fh.remainingLength).length } : FixedHeader) =
        { fh with headerSize := 1 + (base128 fh.remainingLength).length } := by
    rw [parseFirstByte_firstByte hqos]
    rfl
  rw [← hvalue]
  exact (parses_next _ (firstByte fh)).bind ((parses_base128 (by omega) hlt).bind_pure
    (g := fun len => { parseFirstByte (firstByte fh) with
      remainingLength := len.1, headerSize := 1 + len.2 }))

theorem decodeFixedHeader_tooLong (hlen : maxRemainingLength < fh.remainingLength) (t : Bytes) :
    ∃ left, decodeFixedHeader (encodeFixedHeader fh ++ t) = (.error .invalidPacket, left) := by
  have hmax : maxRemainingLength + 1 = 128 ^ 4 := by decide
  have hle : 128 ^ 4 ≤ fh.remainingLength := hmax ▸ hlen
  obtain ⟨left, hread⟩ : ∃ left, readBase128 Err.eof .invalidPacket true 4 0 0
      (base128 fh.remainingLength ++ t) = (.error .invalidPacket, left) :=
    readBase128_tooLong hle t
  refine ⟨left, ?_⟩
  have hbyte := parses_next Err.eof (firstByte fh) (base128 fh.remainingLength ++ t)
  exact (bind_ok hbyte).trans (bind_error hread)

/-- The header read is the one of the packet and announces the body. -/
structure Announces (fh sent : FixedHeader) (body : Bytes) : Prop where
  carried : fh.carried = sent.carried
  length : body.length = fh.remainingLength
  size : body.length ≤ maxVarInt

/-! ## Parts -/

section Parts

variable {version : UInt8} {locus : Locus} {o : Option Properties}

theorem parses_readPropertySection (hok : SectionOk version locus o) (hf : SectionFits locus o)
    (hsize : (sectionPart version o).length ≤ maxVarInt) :
    ∃ r, Parses (readPropertySection version locus) (sectionPart version o) r ∧
      canonSection r = canonSection o := by
  unfold SectionOk at hok
  unfold sectionPart at hsize ⊢
  split_ifs at hok hsize ⊢ with hspec
  · obtain ⟨r, hr, hcanon⟩ := parses_section hok hf hsize
    exact ⟨r, parses_readIf (fun _ => hr) fun h => absurd hspec h, hcanon⟩
  · subst hok
    exact ⟨none, parses_readIf (fun h => absurd h hspec) fun _ => ⟨rfl, rfl⟩, rfl⟩

theorem length_sectionWire_pos (o : Option Properties) : 0 < (sectionWire o).length := by
  cases o with
  | none => exact length_base128_pos 0
  | some p =>
    have hpos := length_base128_pos (UInt32.ofNat p.dataBytes.length).toNat
    show 0 < (writeVarInt _ ++ p.dataBytes).length
    rw [List.length_append]
    exact Nat.add_pos_left hpos _

theorem whole_noneLeft : Whole noneLeft [] () := rfl

theorem whole_lastProperties (ha : SectionAccepted locus o) (hf : SectionFits locus o)
    (hsize : (sectionWire o).length ≤ maxVarInt) :
    ∃ r, Whole (lastProperties locus) (sectionWire o) r ∧ canonSection r = canonSection o := by
  obtain ⟨r, hr, hcanon⟩ := parses_section ha hf hsize
  exact ⟨r, hr.whole.bind (whole_noneLeft.bind rfl), hcanon⟩

theorem parses_buffered {α : Type} {r : Read α} {n : ℕ} {bs : Bytes} {a : α}
    (hn : bs.length = n) (h : Whole r bs a) :
    Parses (do let data ← readFull n; inside data r) bs a :=
  (parses_readFull hn).bind_last (parses_inside h)

theorem parses_readPacketID {id : UInt16} (h : id ≠ 0) : Parses readPacketID (writeUint16 id) id :=
  (parses_readUint16 id).bind_last ((parses_failIf h).bind_nil (Parses.pure id))

theorem length_packetID_append (id : UInt16) (bs : Bytes) :
    (writeUint16 id ++ bs).length = 2 + bs.length := by
  rw [List.length_append, writeUint16, length_bigEndian]

end Parts

/-! ## What the wire does not carry -/

/-- The flags of a CONNECT: without a will there is no Will QoS. -/
def ConnectFlags.canon (f : ConnectFlags) : ConnectFlags :=
  if f.willFlag = true then f else { f with willQoS := 0, willTopicFlag := false }

/-- A CONNECT without the fields whose flag is off. -/
def ConnectPacket.canon (p : ConnectPacket) : ConnectPacket :=
  { p with
    fixedHeader := p.fixedHeader.carried
    flags := p.flags.canon
    properties := canonSection p.properties
    willProperties := if p.flags.willFlag = true then canonSection p.willProperties else none
    willTopic := if p.flags.willFlag = true then p.willTopic else []
    willMessage := if p.flags.willFlag = true then p.willMessage else []
    username := if p.flags.usernameFlag = true then p.username else []
    password := if p.flags.passwordFlag = true then p.password else [] }

/-- A CONNACK; Session Present only where the version has it. -/
def ConnAckPacket.canon (version : UInt8) (p : ConnAckPacket) : ConnAckPacket :=
  { p with
    fixedHeader := p.fixedHeader.carried
    sessionPresent := p.sessionPresent && (specFor version).connAckSessionPresent
    properties := canonSection p.properties }

def PublishPacket.canon (p : PublishPacket) : PublishPacket :=
  { p with fixedHeader := p.fixedHeader.carried, properties := canonSection p.properties }

def AckPacket.canon (p : AckPacket) : AckPacket :=
  { p with fixedHeader := p.fixedHeader.carried, properties := canonSection p.properties }

def SubscribePacket.canon (p : SubscribePacket) : SubscribePacket :=
  { p with fixedHeader := p.fixedHeader.carried, properties := canonSection p.properties }

def SubAckPacket.canon (p : SubAckPacket) : SubAckPacket :=
  { p with fixedHeader := p.fixedHeader.carried, properties := canonSection p.properties }

def UnsubscribePacket.canon (p : UnsubscribePacket) : UnsubscribePacket :=
  { p with fixedHeader := p.fixedHeader.carried, properties := canonSection p.properties }

def DisconnectPacket.canon (p : DisconnectPacket) : DisconnectPacket :=
  { p with fixedHeader := p.fixedHeader.carried, properties := canonSection p.properties }

/-- A packet up to the fields its version does not put on the wire: header size and
Remaining Length, an all-absent property record and an empty slice, the CONNECT fields
whose flag is off, and Session Present in 3.1. -/
def Packet.canon (version : UInt8) : Packet → Packet
  | .connect p => .connect p.canon
  | .connAck p => .connAck (p.canon version)
  | .publish p => .publish p.canon
  | .pubAck p => .pubAck p.canon
  | .pubRec p => .pubRec p.canon
  | .pubRel p => .pubRel p.canon
  | .pubComp p => .pubComp p.canon
  | .subscribe p => .subscribe p.canon
  | .subAck p => .subAck p.canon
  | .unsubscribe p => .unsubscribe p.canon
  | .unsubAck p => .unsubAck p.canon
  | .pingReq fh => .pingReq fh.carried
  | .pingResp fh => .pingResp fh.carried
  | .disconnect p => .disconnect p.canon
  | .auth p => .auth p.canon

variable {version : UInt8} {p : ConnectPacket}

theorem Packet.goType_of_canon {p q : Packet} (h : q.canon version = p.canon version) :
    q.goType = p.goType := by
  have hcanon : ∀ r : Packet, (r.canon version).goType = r.goType := by
    intro r
    cases r <;> rfl
  rw [← hcanon q, h, hcanon p]

/-! ## What the wire can represent -/

/-- A will flag stands for the will topic flag, and a Will QoS has two bits. -/
@[mk_iff] structure ConnectPacket.Fits (p : ConnectPacket) : Prop where
  properties : SectionFits .connect p.properties
  willProperties : p.flags.willFlag = true → SectionFits .will p.willProperties
  willTopicFlag : p.flags.willFlag = true → p.flags.willTopicFlag = true
  willQoS : p.flags.willFlag = true → p.flags.willQoS ≤ 3
  reserved : p.flags.reserved = false

/-- A filter of a SUBSCRIBE carries the identifier of the packet, and before 5.0 no
options. -/
structure FilterFits (version : UInt8) (subID : Option UInt32) (f : TopicFilter) : Prop where
  subscriptionIdentifier : f.subscriptionIdentifier = subID
  before5 : (specFor version).properties = false →
    f.noLocal = false ∧ f.retainAsPublished = false ∧ f.retainHandling = 0

def Packet.Fits (version : UInt8) : Packet → Prop
  | .connect p => p.Fits
  | .connAck p => SectionFits .connAck p.properties
  | .publish p => p.fixedHeader.qos ≤ 2 ∧ SectionFits .publish p.properties
  | .pubAck p | .pubRec p | .pubRel p | .pubComp p => SectionFits .ack p.properties
  | .subscribe p => SectionFits .subscribe p.properties ∧
    ∀ f ∈ p.topics, FilterFits version (packetSubID p.properties) f
  | .subAck p => SectionFits .subAck p.properties
  | .unsubscribe p => SectionFits .unsubscribe p.properties
  | .unsubAck p => SectionFits .unsubAck p.properties
  | .pingReq _ | .pingResp _ => True
  | .disconnect p => SectionFits .disconnect p.properties
  | .auth p => SectionFits .auth p.properties

/-! ## CONNECT -/

theorem parseConnectFlags_table : ∀ willQoS ∈ twoBits, ∀ user pass retain clean,
    parseConnectFlags (connectFlagsByte ⟨user, pass, retain, willQoS, true, true, clean, false⟩) =
        ⟨user, pass, retain, willQoS, true, true, clean, false⟩ ∧
      parseConnectFlags (connectFlagsByte ⟨user, pass, retain, 0, false, false, clean, false⟩) =
        ⟨user, pass, retain, 0, false, false, clean, false⟩ := by
  decide +kernel

theorem parseConnectFlags_byte {f : ConnectFlags} (hreserved : f.reserved = false)
    (htopic : f.willFlag = true → f.willTopicFlag = true)
    (hqos : f.willFlag = true → f.willQoS ≤ 3) :
    parseConnectFlags (connectFlagsByte f) = f.canon := by
  obtain ⟨user, pass, retain, qos, will, topic, clean, reserved⟩ := f
  have hres : reserved = false := hreserved
  subst hres
  cases will with
  | true =>
    have ht : topic = true := htopic rfl
    subst ht
    exact (parseConnectFlags_table qos (mem_twoBits (hqos rfl)) user pass retain clean).1
  | false => exact (parseConnectFlags_table 0 (by decide) user pass retain clean).2

theorem ConnectFlags.canon_flags (f : ConnectFlags) :
    f.canon.willFlag = f.willFlag ∧ f.canon.usernameFlag = f.usernameFlag ∧
      f.canon.passwordFlag = f.passwordFlag ∧ f.canon.canon = f.canon := by
  unfold ConnectFlags.canon
  split
  · rename_i h
    simp [h]
  · rename_i h
    simp [h]

theorem parses_will (hok : p.Encodable) (hf : p.Fits) (hsize : p.tailLayout.length ≤ maxVarInt) :
    ∃ w, Parses (readIf (p.flags.willFlag = true) (readWill p.protocolVersion) (none, [], []))
        (if p.flags.willFlag = true then p.willPart else []) w ∧
      canonSection w.1 = (if p.flags.willFlag = true then canonSection p.willProperties else none) ∧
      w.2.1 = (if p.flags.willFlag = true then p.willTopic else []) ∧
      w.2.2 = (if p.flags.willFlag = true then p.willMessage else []) := by
  by_cases hwill : p.flags.willFlag = true
  · simp only [if_pos hwill]
    have hw := hok.will hwill
    have hpart : (sectionPart p.protocolVersion p.willProperties).length ≤ maxVarInt := by
      unfold ConnectPacket.tailLayout ConnectPacket.willPart at hsize
      simp only [List.length_append, if_pos hwill] at hsize
      omega
    obtain ⟨props, hprops, hcanon⟩ :=
      parses_readPropertySection hw.properties (hf.willProperties hwill) hpart
    refine ⟨(props, p.willTopic, p.willMessage), ?_, hcanon, rfl, rfl⟩
    refine parses_readIf (fun _ => ?_) fun h => absurd hwill h
    refine hprops.bind ((parses_readString hw.topic).bind ?_)
    exact (parses_readBlob hw.message).bind_pure
  · simp only [if_neg hwill]
    exact ⟨(none, [], []), parses_readIf (fun h => absurd h hwill) fun _ => ⟨rfl, rfl⟩, rfl, rfl, rfl⟩

theorem parses_optional {c : Prop} [Decidable c] {α τ' : Type} {r : Reader Err α (List τ')}
    {bs : List α} {a : List τ'} (h : c → Parses r bs a) :
    Parses (readIf c r []) (if c then bs else []) (if c then a else []) := by
  split_ifs with hc
  · exact parses_readIf (fun _ => h hc) fun h' => absurd hc h'
  · exact parses_readIf (fun h' => absurd h' hc) fun _ => ⟨rfl, rfl⟩

theorem whole_connectTail (hok : p.Encodable) (hf : p.Fits)
    (hsize : p.tailLayout.length ≤ maxVarInt) (hfh : fh.carried = p.fixedHeader.carried) :
    ∃ q, Whole (connectTail fh p.protocolName p.protocolVersion) p.tailLayout q ∧
      q.canon = p.canon ∧ q.flags.canon = q.flags := by
  have hflags := parseConnectFlags_byte hf.reserved hf.willTopicFlag hf.willQoS
  obtain ⟨hwillFlag, huserFlag, hpassFlag, hidem⟩ := p.flags.canon_flags
  have hpart : (sectionPart p.protocolVersion p.properties).length ≤ maxVarInt := by
    unfold ConnectPacket.tailLayout at hsize
    simp only [List.length_append] at hsize
    omega
  obtain ⟨props, hprops, hpcanon⟩ := parses_readPropertySection hok.properties hf.properties hpart
  obtain ⟨will, hwill, hwcanon, hwtopic, hwmessage⟩ := parses_will hok hf hsize
  have husername := parses_optional fun h => parses_readString (hok.username h)
  have hpassword := parses_optional fun h => parses_readBlob (hok.password h)
  refine ⟨{ fixedHeader := fh, protocolName := p.protocolName,
            protocolVersion := p.protocolVersion, flags := p.flags.canon,
            keepAlive := p.keepAlive, clientID := p.clientID, willTopic := will.2.1,
            willMessage := will.2.2,
            username := if p.flags.usernameFlag = true then p.username else [],
            password := if p.flags.passwordFlag = true then p.password else [],
            properties := props, willProperties := will.1 }, ?_, ?_, hidem⟩
  · refine Parses.bind_whole (parses_next _ _) ?_
    rw [hflags]
    dsimp only
    rw [hwillFlag, huserFlag, hpassFlag]
    refine Parses.bind_whole (parses_readUint16 _) ?_
    refine Parses.bind_whole hprops ?_
    refine Parses.bind_whole (parses_readString hok.clientID) ?_
    refine Parses.bind_whole hwill ?_
    refine Parses.bind_whole husername ?_
    refine Whole.bind hpassword.whole ?_
    exact whole_noneLeft.bind rfl
  · have hoff : ∀ {α : Type} (c : Prop) [Decidable c] (a d : α),
        (if c then (if c then a else d) else d) = if c then a else d := by
      intro α c _ a d
      split <;> rfl
    unfold ConnectPacket.canon
    simp only [hidem, hwillFlag, huserFlag, hpassFlag, hfh, hpcanon, hwcanon, hwtopic, hwmessage,
      hoff]

theorem parses_decodeConnect (hok : p.Encodable) (hf : p.Fits)
    (hfh : Announces fh p.fixedHeader p.layout) :
    ∃ q, Parses (decodeConnect fh) p.layout (p.protocolVersion, .ok q) ∧ q.canon = p.canon ∧
      q.flags.canon = q.flags := by
  have htailSize : p.tailLayout.length ≤ maxVarInt := by
    have hsize := hfh.size
    unfold ConnectPacket.layout at hsize
    simp only [List.length_append] at hsize
    omega
  obtain ⟨q, hq, hcanon, hflags⟩ := whole_connectTail hok hf htailSize hfh.carried
  refine ⟨q, ?_, hcanon, hflags⟩
  have hname : Parses connectHead (writeBinaryData p.protocolName ++ [p.protocolVersion])
      (p.protocolName, p.protocolVersion) :=
    (parses_readString hok.name).bind
      ((parses_next _ p.protocolVersion).bind_pure (g := fun v => (p.protocolName, v)))
  have hhead : Whole (do
      let head ← connectHead
      let body ← rest
      pure (head, body) : Read ((Str × UInt8) × Bytes)) p.layout
        ((p.protocolName, p.protocolVersion), p.tailLayout) := by
    unfold ConnectPacket.layout
    rw [← List.append_assoc]
    exact hname.bind_whole ((whole_rest _).bind rfl)
  refine (parses_readFull hfh.length).bind_last ((parses_inside hhead).bind_last ?_)
  rw [hq]
  exact Parses.pure _

/-! ## PUBLISH -/

/-- A field that is absent from the empty record and untouched by normalisation is the
same in every form of a section. -/
theorem bind_canonSection {α : Type} {f : Properties → Option α} (hnorm : ∀ p, f p.norm = f p)
    (hempty : f {} = none) (o : Option Properties) : (canonSection o).bind f = o.bind f := by
  cases o with
  | none => rfl
  | some p =>
    show (if p.norm = {} then none else some p.norm).bind f = f p
    split
    · rename_i hp
      rw [← hnorm p, hp, hempty]
      rfl
    · exact hnorm p

theorem publishTopicOk_congr {topic : Str} {o r : Option Properties}
    (h : canonSection r = canonSection o) :
    publishTopicOk version topic r = publishTopicOk version topic o := by
  have halias : r.bind Properties.topicAlias = o.bind Properties.topicAlias := by
    rw [← bind_canonSection (fun _ => rfl) rfl r, h, bind_canonSection (fun _ => rfl) rfl o]
  have hany : ∀ o : Option Properties, (o.any fun p => p.topicAlias.any fun a => a != 0) =
      (o.bind Properties.topicAlias).any fun a => a != 0 := by
    intro o
    cases o <;> rfl
  unfold publishTopicOk
  rw [hany r, hany o, halias]

section Packets

variable {version : UInt8} {fh : FixedHeader}

variable {o : Option Properties}

theorem parses_readPublishBody {payload : Bytes} {left : ℕ} (hok : SectionOk version .publish o)
    (hf : SectionFits .publish o) (hsize : (sectionPart version o).length ≤ maxVarInt)
    (hlen : (sectionPart version o ++ payload).length = left) :
    ∃ r, Parses (readPublishBody version left) (sectionPart version o ++ payload) (r, payload) ∧
      canonSection r = canonSection o := by
  unfold SectionOk at hok
  unfold sectionPart at hsize hlen ⊢
  unfold readPublishBody
  split_ifs at hok hsize hlen ⊢
  · obtain ⟨r, hr, hcanon⟩ := parses_section hok hf hsize
    refine ⟨r, parses_buffered hlen ?_, hcanon⟩
    exact hr.mapError.bind_whole ((whole_rest payload).bind rfl)
  · subst hok
    exact ⟨none, (parses_readFull hlen).bind_pure (g := fun payload => (none, payload)), rfl⟩

theorem parses_decodePublish {p : PublishPacket} (hok : p.Encodable version)
    (hf : SectionFits .publish p.properties) (hfh : Announces fh p.fixedHeader (p.layout version)) :
    ∃ q, Parses (decodePublish version fh) (p.layout version) q ∧
      q.canon = p.canon := by
  have hsize := hfh.size
  have hqos : fh.qos = p.fixedHeader.qos := (congrArg FixedHeader.qos hfh.carried :)
  have hid : (if 0 < p.fixedHeader.qos then writeUint16 p.packetID else []).length =
      if 0 < fh.qos then 2 else 0 := by
    rw [hqos]
    split
    · exact length_bigEndian 2 _
    · rfl
  have hparts : 2 + p.topic.length + ((if 0 < fh.qos then 2 else 0) +
      (sectionPart version p.properties ++ p.payload).length) = fh.remainingLength := by
    rw [← hfh.length, PublishPacket.layout]
    simp only [List.length_append, hid, length_writeBinaryData]
  have hpart : (sectionPart version p.properties).length ≤ maxVarInt := by
    rw [hfh.length] at hsize
    rw [List.length_append] at hparts
    omega
  obtain ⟨props, hbody, hcanon⟩ : ∃ r, Parses (readPublishBody version
      (fh.remainingLength - (2 + p.topic.length + if 0 < fh.qos then 2 else 0)))
      (sectionPart version p.properties ++ p.payload) (r, p.payload) ∧
        canonSection r = canonSection p.properties :=
    parses_readPublishBody hok.properties hf hpart (by omega)
  refine ⟨{ fixedHeader := fh, packetID := p.packetID, topic := p.topic, payload := p.payload,
            properties := props }, ?_, ?_⟩
  · have hreadID : Parses (readPublishID fh (2 + p.topic.length))
        (if 0 < p.fixedHeader.qos then writeUint16 p.packetID else []) p.packetID := by
      refine parses_readIf (fun hpos => ?_) fun hzero => ?_
      · rw [hqos] at hpos
        rw [if_pos hpos]
        have hroom : ¬ fh.remainingLength < 2 + p.topic.length + 2 := by
          rw [if_pos (hqos ▸ hpos)] at hparts
          omega
        exact (parses_failIf hroom).bind_nil (parses_readPacketID (hok.hasID hpos))
      · rw [hqos] at hzero
        rw [if_neg hzero]
        have hq0 : p.fixedHeader.qos = 0 := by
          apply UInt8.toNat_inj.mp
          have hnat : ¬ 0 < p.fixedHeader.qos.toNat := hzero
          show p.fixedHeader.qos.toNat = 0
          omega
        exact ⟨rfl, hok.noID hq0⟩
    refine (parses_failIf (by omega)).bind_nil ?_
    refine (parses_readStringBounded hok.topic (by omega)).bind ?_
    refine hreadID.bind ?_
    refine (parses_failIf (by omega)).bind_nil ?_
    refine hbody.bind_last ?_
    have htopicOk : ¬ publishTopicOk version p.topic props = false := by
      rw [publishTopicOk_congr hcanon, hok.topicOk]
      exact Bool.noConfusion
    exact (parses_failIf htopicOk).bind_nil (Parses.pure _)
  · simp only [PublishPacket.canon, hfh.carried, hcanon]

/-! ## Acknowledgements, DISCONNECT and AUTH -/

variable {α : Type} {locus : Locus}

/-- The reason code and the section behind it, each as far as it is there. -/
theorem parses_reasonPart {reasonCode : UInt8} (ha : SectionAccepted locus o)
    (hf : SectionFits locus o) (hsize : (reasonPart reasonCode o).length ≤ maxVarInt) :
    ∃ bs cs r, reasonPart reasonCode o = bs ++ cs ∧
      Parses (readIf (0 < (bs ++ cs).length) readByte 0) bs reasonCode ∧
      (∀ c [Decidable c], (c ↔ 0 < cs.length) →
        Whole (readIf c (lastProperties locus) none) cs r) ∧
      (1 < (bs ++ cs).length ↔ 0 < cs.length) ∧ canonSection r = canonSection o := by
  have hnone : ∀ c [Decidable c], (c ↔ 0 < 0) →
      Whole (readIf c (lastProperties locus) none) [] none := fun c _ hc =>
    whole_readIf (fun h => absurd (hc.mp h) (Nat.lt_irrefl 0)) fun _ => ⟨rfl, rfl⟩
  cases o with
  | none =>
    by_cases hzero : reasonCode = 0
    · subst hzero
      exact ⟨[], [], none, rfl, fun _ => rfl, hnone, by simp, rfl⟩
    · exact ⟨[reasonCode], [], none, if_pos hzero, fun _ => rfl, hnone, by simp, rfl⟩
  | some p =>
    have hpos : 0 < p.sectionBytes.length := length_sectionWire_pos (some p)
    obtain ⟨r, hr, hcanon⟩ := whole_lastProperties ha hf (Nat.le_of_succ_le hsize)
    refine ⟨[reasonCode], p.sectionBytes, r, rfl, fun _ => rfl, fun c _ hc => ?_, by simp, hcanon⟩
    exact whole_readIf (fun _ => hr) fun h => absurd (hc.mpr hpos) h

theorem parses_decodeAck {p : AckPacket} (hok : p.Encodable version)
    (hf : SectionFits .ack p.properties) (hfh : Announces fh p.fixedHeader p.layout) :
    ∃ q, Parses (decodeAck version fh) p.layout q ∧ q.canon = p.canon := by
  have hsize := hfh.size
  have hparts : 2 + (reasonPart p.reasonCode p.properties).length = fh.remainingLength := by
    rw [← hfh.length, AckPacket.layout, length_packetID_append]
  have hreason : (reasonPart p.reasonCode p.properties).length ≤ maxVarInt := by
    rw [hfh.length] at hsize
    omega
  obtain ⟨bs, cs, props, hpart, hcode, hprops, -, hcanon⟩ :=
    parses_reasonPart hok.reason.properties hf hreason
  refine ⟨⟨fh, p.packetID, p.reasonCode, props⟩, ?_, by
    simp only [AckPacket.canon, hfh.carried, hcanon]⟩
  refine (parses_failIf (by omega)).bind_nil ?_
  have hbefore : ¬ ((specFor version).reasonCodes = false ∧ fh.remainingLength ≠ 2) := by
    rintro ⟨hspec, hne⟩
    obtain ⟨hr, hp⟩ := hok.reason.before5 hspec
    rw [hr, hp] at hparts
    exact hne hparts.symm
  refine (parses_failIf hbefore).bind_nil ?_
  refine parses_buffered hfh.length ((parses_readPacketID hok.packetID).bind_whole ?_)
  rw [hpart]
  exact whole_remaining (hcode.bind_whole (whole_remaining ((hprops _ Iff.rfl).bind rfl)))

theorem parses_decodeReason {valid : UInt8 → Bool} {p : DisconnectPacket}
    (ha : SectionAccepted locus p.properties) (hf : SectionFits locus p.properties)
    (hvalid : valid p.reasonCode = true)
    (hfh : Announces fh p.fixedHeader (reasonPart p.reasonCode p.properties)) :
    ∃ q, Parses (decodeReason locus valid fh) (reasonPart p.reasonCode p.properties) q ∧
      q.canon = p.canon := by
  have hlen := hfh.length
  obtain ⟨bs, cs, props, hpart, hcode, hprops, hone, hcanon⟩ := parses_reasonPart ha hf hfh.size
  refine ⟨⟨fh, p.reasonCode, props⟩, parses_buffered hlen ?_, by
    simp only [DisconnectPacket.canon, hfh.carried, hcanon]⟩
  rw [hpart] at hlen ⊢
  rw [hlen] at hcode hone
  refine hcode.bind_whole ((parses_failIf (by simp [hvalid])).bind_nil_whole ?_)
  exact (hprops _ hone).bind rfl

theorem parses_decodeConnAck {p : ConnAckPacket} (hok : SectionOk version .connAck p.properties)
    (hf : SectionFits .connAck p.properties) (hfh : Announces fh p.fixedHeader (p.layout version)) :
    ∃ q, Parses (decodeConnAck version fh) (p.layout version) q ∧
      q.canon version = p.canon version := by
  have hsize := hfh.size
  rw [hfh.length] at hsize
  have hparts : 1 + (1 + (sectionPart version p.properties).length) = fh.remainingLength := by
    rw [← hfh.length, ConnAckPacket.layout]
    simp only [List.length_append, List.length_singleton]
  -- the section is the rest of the body in 5.0 and empty before
  obtain ⟨props, hprops, hcanon⟩ : ∃ r, Whole (readIf ((specFor version).properties = true ∧
      2 < fh.remainingLength) (lastProperties .connAck) none) (sectionPart version p.properties) r ∧
        canonSection r = canonSection p.properties := by
    unfold SectionOk at hok
    unfold sectionPart at hparts ⊢
    split_ifs at hok hparts ⊢ with hspec
    · have hwire := length_sectionWire_pos p.properties
      obtain ⟨r, hr, hcanon⟩ := whole_lastProperties hok hf (by omega)
      exact ⟨r, whole_readIf (fun _ => hr) fun h => absurd ⟨hspec, by omega⟩ h, hcanon⟩
    · rw [hok]
      exact ⟨none, whole_readIf (fun h => absurd h.1 hspec) fun _ => ⟨rfl, rfl⟩, rfl⟩
  refine ⟨{ fixedHeader := fh, reasonCode := p.reasonCode,
            sessionPresent := p.sessionPresent && (specFor version).connAckSessionPresent,
            properties := props }, ?_, ?_⟩
  · refine parses_buffered hfh.length ?_
    refine Parses.bind_whole (parses_next _ _) ?_
    refine Parses.bind_whole (parses_next _ _) ?_
    have hlen2 : ¬ ((specFor version).properties = false ∧ fh.remainingLength ≠ 2) := by
      rintro ⟨hspec, hne⟩
      unfold sectionPart at hparts
      rw [if_neg (by simp [hspec])] at hparts
      exact hne hparts.symm
    refine Parses.bind_whole (parses_failIf hlen2) ?_
    refine hprops.bind ?_
    have hsp : decide ((bit (p.sessionPresent && (specFor version).connAckSessionPresent) 0x01 &&&
        0x01) ≠ 0) = (p.sessionPresent && (specFor version).connAckSessionPresent) := by
      cases p.sessionPresent && (specFor version).connAckSessionPresent <;> decide
    rw [hsp]
    rfl
  · simp only [ConnAckPacket.canon, hfh.carried, hcanon, Bool.and_assoc, Bool.and_self]

/-! ## SUBSCRIBE, UNSUBSCRIBE and their acknowledgements -/

/-- The options byte, over all options. -/
theorem optionsByte_table : ∀ qos ∈ twoBits, ∀ rh ∈ twoBits, ∀ noLocal rap, qos ≤ 2 → rh ≤ 2 →
    let opts := optionsByte ⟨[], qos, noLocal, rap, rh, none⟩
    parseFilter [] opts none = ⟨[], qos, noLocal, rap, rh, none⟩ ∧
      ¬ (opts &&& 0xC0 ≠ 0 ∨ opts &&& 0x03 = 3 ∨ (opts >>> 4) &&& 0x03 = 3) ∧
      (noLocal = false → rap = false → rh = 0 → opts &&& 0xFC = 0) := by
  decide +kernel

theorem parses_decodeFilter {subID : Option UInt32} {topics : List TopicFilter} {f : TopicFilter}
    (hok : FilterOk f) (hf : FilterFits version subID f) :
    Parses (decodeFilter version subID topics) (filterBytes f) (topics ++ [f]) := by
  obtain ⟨topic, qos, noLocal, rap, rh, sub⟩ := f
  obtain ⟨hqos, hrh, htopic⟩ := hok
  have hq3 : qos ≤ 3 := UInt8.le_trans hqos (by decide)
  have hr3 : rh ≤ 3 := UInt8.le_trans hrh (by decide)
  obtain ⟨hparse, hrange, hreserved⟩ :=
    optionsByte_table qos (mem_twoBits hq3) rh (mem_twoBits hr3) noLocal rap hqos hrh
  have hsub : sub = subID := hf.subscriptionIdentifier
  subst hsub
  -- the byte does not depend on the topic or the identifier
  have hbyte : optionsByte ⟨topic, qos, noLocal, rap, rh, sub⟩ =
      optionsByte ⟨[], qos, noLocal, rap, rh, none⟩ := rfl
  have hfilter : parseFilter topic (optionsByte ⟨topic, qos, noLocal, rap, rh, sub⟩) sub =
      ⟨topic, qos, noLocal, rap, rh, sub⟩ := by
    rw [hbyte]
    have hcopy : ∀ opts, parseFilter topic opts sub =
        { parseFilter [] opts none with topic, subscriptionIdentifier := sub } := fun _ => rfl
    rw [hcopy, hparse]
  have hbefore : ¬ ((specFor version).properties = false ∧
      optionsByte ⟨topic, qos, noLocal, rap, rh, sub⟩ &&& 0xFC ≠ 0) := by
    rintro ⟨hspec, hne⟩
    obtain ⟨hn, hr, hz⟩ := hf.before5 hspec
    exact hne (hreserved hn hr hz)
  refine (parses_readStringFromReader htopic).bind ?_
  refine (parses_failIf hbefore).bind_nil ?_
  refine (parses_failIf hrange).bind_nil ?_
  rw [hfilter]
  exact Parses.pure _

theorem decodeFilter_takes (subID : Option UInt32) (topics : List TopicFilter) :
    Returns (decodeFilter version subID topics) fun _ k => 0 < k := by
  refine returns_readStringFromReader.bind fun topic k hk => ?_
  refine returns_readByte.bind fun opts j hj => ?_
  refine returns_failIf.bind fun _ _ _ => ?_
  refine returns_failIf.bind fun _ _ _ => Returns.pure ?_
  omega

theorem packetSubID_congr {r : Option Properties} (h : canonSection r = canonSection o) :
    packetSubID r = packetSubID o := by
  unfold packetSubID
  rw [← bind_canonSection (fun _ => rfl) rfl r, h, bind_canonSection (fun _ => rfl) rfl o]

/-- A packet identifier and a section, then the rest read whole. -/
theorem parses_identified {r : UInt16 → Option Properties → Read α} {packetID : UInt16} {bs : Bytes}
    {canon : α → α} {a : α} {sent : FixedHeader} (hid : packetID ≠ 0)
    (hok : SectionOk version locus o) (hf : SectionFits locus o)
    (hfh : Announces fh sent (writeUint16 packetID ++ (sectionPart version o ++ bs)))
    (h : ∀ props, canonSection props = canonSection o →
      ∃ q, Whole (r packetID props) bs q ∧ canon q = canon a) :
    ∃ q, Parses (do
        failIf (fh.remainingLength < 2) .malformedPacket
        let packetID ← readPacketID
        let data ← readFull (fh.remainingLength - 2)
        inside data (do
          let props ← readPropertySection version locus
          r packetID props)) (writeUint16 packetID ++ (sectionPart version o ++ bs)) q ∧
      canon q = canon a := by
  obtain ⟨-, hlen, hsize⟩ := hfh
  rw [length_packetID_append] at hlen hsize
  have hpart : (sectionPart version o).length ≤ maxVarInt := by
    rw [List.length_append] at hsize
    omega
  obtain ⟨props, hprops, hcanon⟩ := parses_readPropertySection hok hf hpart
  obtain ⟨q, hq, hsame⟩ := h props hcanon
  refine ⟨q, (parses_failIf (by omega)).bind_nil ((parses_readPacketID hid).bind ?_), hsame⟩
  exact parses_buffered (by omega) (hprops.bind_whole hq)

theorem parses_decodeSubscribe {p : SubscribePacket} (hok : p.Encodable version)
    (hf : SectionFits .subscribe p.properties)
    (hfilters : ∀ f ∈ p.topics, FilterFits version (packetSubID p.properties) f)
    (hfh : Announces fh p.fixedHeader (p.layout version)) :
    ∃ q, Parses (decodeSubscribe version fh) (p.layout version) q ∧ q.canon = p.canon := by
  refine parses_identified hok.packetID hok.properties hf hfh fun props hcanon => ?_
  refine ⟨{ p with fixedHeader := fh, properties := props }, ?_, by
    simp only [SubscribePacket.canon, hfh.carried, hcanon]⟩
  rw [packetSubID_congr hcanon]
  refine (whole_untilEmpty_snoc (P := fun f => FilterOk f ∧ FilterFits version _ f)
    (decodeFilter_takes (packetSubID p.properties)) (fun f => by simp [filterBytes])
    (fun x f hf => parses_decodeFilter hf.1 hf.2)
    fun f hf => ⟨hok.filters f hf, hfilters f hf⟩).bind ?_
  exact (parses_failIf hok.some).bind_nil_whole rfl

theorem decodeTopic_takes (topics : List Str) : Returns (decodeTopic topics) fun _ k => 0 < k := by
  refine returns_readStringFromReader.bind fun topic k hk => Returns.pure ?_
  rw [length_writeBinaryData] at hk
  omega

theorem parses_decodeUnsubscribe {p : UnsubscribePacket} (hok : p.Encodable version)
    (hf : SectionFits .unsubscribe p.properties)
    (hfh : Announces fh p.fixedHeader (p.layout version)) :
    ∃ q, Parses (decodeUnsubscribe version fh) (p.layout version) q ∧ q.canon = p.canon := by
  refine parses_identified hok.packetID hok.properties hf hfh fun props hcanon => ?_
  refine ⟨{ p with fixedHeader := fh, properties := props }, ?_, by
    simp only [UnsubscribePacket.canon, hfh.carried, hcanon]⟩
  refine (whole_untilEmpty_snoc decodeTopic_takes (fun t => by simp [writeBinaryData, bigEndian])
    (fun x t ht => (parses_readStringFromReader ht).bind_pure (g := fun t => x ++ [t]))
    hok.topics).bind ?_
  exact (parses_failIf hok.some).bind_nil_whole rfl

theorem parses_decodeCodes {p : SubAckPacket} (hok : p.Encodable version locus)
    (hf : SectionFits locus p.properties) (hfh : Announces fh p.fixedHeader (p.layout version)) :
    ∃ q, Parses (decodeCodes locus version fh) (p.layout version) q ∧ q.canon = p.canon := by
  have hparts : 2 + (sectionPart version p.properties ++ p.reasonCodes).length =
      fh.remainingLength := by
    rw [← hfh.length, SubAckPacket.layout, length_packetID_append]
  have hpart : (sectionPart version p.properties).length ≤ maxVarInt := by
    have hsize := hfh.size
    rw [hfh.length] at hsize
    rw [List.length_append] at hparts
    omega
  obtain ⟨props, hprops, hcanon⟩ := parses_readPropertySection hok.properties hf hpart
  refine ⟨{ p with fixedHeader := fh, properties := props }, ?_, by
    simp only [SubAckPacket.canon, hfh.carried, hcanon]⟩
  refine (parses_failIf (by omega)).bind_nil ((parses_readPacketID hok.packetID).bind ?_)
  refine Parses.bind_last (a := (props, p.reasonCodes)) (parses_readIf (fun _ => ?_) fun hshort => ?_)
    (Parses.pure _)
  · exact parses_buffered (by omega) (hprops.bind_whole ((whole_rest _).bind rfl))
  · -- nothing after the identifier: only before 5.0, where there are no properties
    have hempty : sectionPart version p.properties ++ p.reasonCodes = [] :=
      List.eq_nil_of_length_eq_zero (by omega)
    obtain ⟨hnil, hcodes⟩ := List.append_eq_nil_iff.mp hempty
    have hspec : (specFor version).properties ≠ true := by
      intro hspec
      have hpos := length_sectionWire_pos p.properties
      rw [sectionPart, if_pos hspec] at hnil
      rw [hnil] at hpos
      exact absurd hpos (Nat.lt_irrefl 0)
    have hnone := hprops []
    rw [hnil, readPropertySection, readIf, if_neg hspec] at hnone
    cases hnone
    exact ⟨hempty, by rw [hcodes]⟩

end Packets

/-! ## Any packet -/

section Any

variable {version : UInt8} {p : Packet} {fh : FixedHeader}

/-- What a decoder returns, as the packet that `decodeBody` makes of it. -/
theorem parses_packet {α : Type} {mk : α → Packet} {canon : α → α} {r : Read α} {bs : Bytes} {a : α}
    (hmk : ∀ q, (mk q).canon version = mk (canon q)) (h : ∃ q, Parses r bs q ∧ canon q = canon a) :
    ∃ q, Parses (mk <$> r) bs q ∧ q.canon version = (mk a).canon version := by
  obtain ⟨q, hq, hcanon⟩ := h
  exact ⟨mk q, hq.map, by rw [hmk, hmk, hcanon]⟩

/-- The same behind a check that the packet passes. -/
theorem parses_checked {α : Type} {mk : α → Packet} {canon : α → α} {c : Prop} [Decidable c] {e : Err}
    {r : Read α} {bs : Bytes} {a : α} (hc : ¬ c) (hmk : ∀ q, (mk q).canon version = mk (canon q))
    (h : ∃ q, Parses r bs q ∧ canon q = canon a) :
    ∃ q, Parses (mk <$> do failIf c e; r) bs q ∧ q.canon version = (mk a).canon version := by
  obtain ⟨q, hq, hcanon⟩ := h
  exact parses_packet hmk ⟨q, (parses_failIf hc).bind_nil hq, hcanon⟩

theorem parses_decodeBody (hconn : p.goType ≠ .connect) (hok : p.Encodable version)
    (hf : p.Fits version) (hfh : Announces fh p.fixedHeader (p.layout version))
    (htype : fh.packetType = p.goType) :
    ∃ q, Parses (decodeBody version fh) (p.layout version) q ∧
      q.canon version = p.canon version := by
  rw [decodeBody, htype]
  cases p with
  | connect p => exact absurd rfl hconn
  | connAck p => exact parses_packet (fun _ => rfl) (parses_decodeConnAck hok hf hfh)
  | publish p => exact parses_packet (fun _ => rfl) (parses_decodePublish hok hf.2 hfh)
  | pubAck | pubRec | pubRel | pubComp =>
    exact parses_packet (fun _ => rfl) (parses_decodeAck hok hf hfh)
  | subscribe p => exact parses_packet (fun _ => rfl) (parses_decodeSubscribe hok hf.1 hf.2 hfh)
  | subAck p => exact parses_packet (fun _ => rfl) (parses_decodeCodes hok hf hfh)
  | unsubscribe p => exact parses_packet (fun _ => rfl) (parses_decodeUnsubscribe hok hf hfh)
  | unsubAck p =>
    have hbefore : ¬ ((specFor version).reasonCodes = false ∧ fh.remainingLength ≠ 2) := by
      rintro ⟨hspec, hne⟩
      obtain ⟨hcodes, -⟩ := hok.1 hspec
      have hproperties : (specFor version).properties = false := by
        have hv := specFor_v5 version
        rw [hv.1, ← hv.2.1, hspec]
      have hlayout : (p.layout version).length = 2 := by
        rw [SubAckPacket.layout, length_packetID_append, hcodes, List.append_nil, sectionPart,
          if_neg (by simp [hproperties])]
        rfl
      exact hne (hfh.length.symm.trans hlayout)
    exact parses_checked hbefore (fun _ => rfl) (parses_decodeCodes hok.2 hf hfh)
  | pingReq | pingResp =>
    exact parses_packet (fun _ => rfl)
      ⟨fh, (parses_failIf (not_not.mpr hfh.length.symm)).bind_nil (Parses.pure fh), hfh.carried⟩
  | disconnect p =>
    have hbefore : ¬ ((specFor version).reasonCodes = false ∧ 0 < fh.remainingLength) := by
      rintro ⟨hspec, hpos⟩
      obtain ⟨hr, hp⟩ := hok.before5 hspec
      have hlayout : (reasonPart p.reasonCode p.properties).length = fh.remainingLength := hfh.length
      rw [hr, hp] at hlayout
      exact absurd hlayout.symm (Nat.ne_of_gt hpos)
    exact parses_checked hbefore (fun _ => rfl)
      (parses_decodeReason hok.properties hf rfl hfh)
  | auth p =>
    obtain ⟨hspec, hvalid, haccepted⟩ := hok
    exact parses_checked (by simp [hspec]) (fun _ => rfl)
      (parses_decodeReason haccepted hf hvalid hfh)

end Any

/-! ## Whole packets -/

theorem flags_of_valid (hflags : validateFixedHeaderFlags fh = none) :
    (fh.packetType = .publish → fh.qos ≠ 3) ∧ (fh.packetType ≠ .publish → fh.qos ≤ 1) ∧
      (fh.packetType = .pubRel ∨ fh.packetType = .subscribe ∨ fh.packetType = .unsubscribe →
        fh.qos = 1 ∧ fh.retain = false) := by
  unfold validateFixedHeaderFlags at hflags
  split_ifs at hflags <;> simp_all

theorem headerOut_eq {p : Packet} (htype : p.fixedHeader.packetType = p.goType)
    (hflags : validateFixedHeaderFlags p.fixedHeader = none) : headerOut p = p.fixedHeader := by
  have hreserved : (p.goType = .pubRel ∨ p.goType = .subscribe ∨ p.goType = .unsubscribe) →
      ({ p.fixedHeader with qos := 1, retain := false } : FixedHeader) = p.fixedHeader := by
    intro hset
    obtain ⟨hqos, hretain⟩ := (flags_of_valid hflags).2.2 (htype ▸ hset)
    rw [← hqos, ← hretain]
  cases p with
  | connect p =>
    have ht : p.fixedHeader.packetType = .connect := htype
    show ({ p.fixedHeader with packetType := .connect } : FixedHeader) = p.fixedHeader
    rw [← ht]
  | pubRel p => exact hreserved (.inl rfl)
  | subscribe p => exact hreserved (.inr (.inl rfl))
  | unsubscribe p => exact hreserved (.inr (.inr rfl))
  | _ => rfl

theorem qos_of_fits {p : Packet} (htype : p.fixedHeader.packetType = p.goType)
    (hflags : validateFixedHeaderFlags p.fixedHeader = none) (hf : p.Fits version) :
    p.fixedHeader.qos ≤ 3 := by
  by_cases hpub : p.goType = .publish
  · cases p with
    | publish p => exact UInt8.le_trans hf.1 (by decide)
    | _ => cases hpub
  · exact UInt8.le_trans ((flags_of_valid hflags).2.1 (htype ▸ hpub)) (by decide)

namespace Codec

theorem versionFor_other (c : Codec) {p : Packet} (h : p.goType ≠ .connect) :
    c.versionFor p = c.protocolVersion := by
  cases p with
  | connect p => exact absurd rfl h
  | _ => rfl

variable {c : Codec}

theorem versionFor_congr {d : Codec} (h : c.protocolVersion = d.protocolVersion) (p : Packet) :
    c.versionFor p = d.versionFor p := by
  cases p with
  | connect p => rfl
  | _ => exact h

/-- The header the decoder reads for a body of `n` bytes. -/
def headerFor (fh : FixedHeader) (n : ℕ) : FixedHeader :=
  { fh with remainingLength := n, headerSize := 1 + (base128 n).length }

theorem parses_decodeHeader {fh : FixedHeader} {body : Bytes} (hqos : fh.qos ≤ 3)
    (hflags : validateFixedHeaderFlags fh = none) (hmax : body.length ≤ maxRemainingLength)
    (hlimit : (frame fh body).length ≤ c.maxPacketSize) :
    Parses c.decodeHeader (encodeFixedHeader { fh with remainingLength := body.length })
      (headerFor fh body.length) := by
  have hfixed : Parses decodeFixedHeader
      (encodeFixedHeader { fh with remainingLength := body.length })
      (headerFor fh body.length) := parses_decodeFixedHeader hqos hmax
  have hlen : (frame fh body).length = 1 + (base128 body.length).length + body.length := by
    rw [frame, List.length_append]
    show (base128 body.length).length + 1 + _ = _
    omega
  refine hfixed.bind_last ?_
  have hvalid : validateFixedHeaderFlags (headerFor fh body.length) = none := hflags
  refine (parses_failWith hvalid).bind_nil ?_
  refine (parses_failIf (Nat.not_lt.mpr hmax)).bind_nil ?_
  have hroom : ¬ c.maxPacketSize < body.length + (1 + (base128 body.length).length) := by omega
  exact (parses_failIf hroom).bind_nil (Parses.pure _)

/-- **What was encoded is decoded**, by a codec of the same version whose limit admits
it, when the wire can represent it. The flags of a CONNECT come back in canonical form. -/
theorem decode_frame {p : Packet} (htype : p.fixedHeader.packetType = p.goType)
    (hflags : validateFixedHeaderFlags p.fixedHeader = none) (hok : p.Encodable (c.versionFor p))
    (hf : p.Fits (c.versionFor p)) (hmax : (p.layout (c.versionFor p)).length ≤ maxRemainingLength)
    (hlimit : (frame p.fixedHeader (p.layout (c.versionFor p))).length ≤ c.maxPacketSize) :
    ∃ q, (∀ t, c.decode (frame p.fixedHeader (p.layout (c.versionFor p)) ++ t) =
        (.ok q, c.setVersion (c.versionFor p), t)) ∧
      q.canon (c.versionFor p) = p.canon (c.versionFor p) ∧
      ∀ r, q = .connect r → r.flags.canon = r.flags := by
  have hqos := qos_of_fits htype hflags hf
  have hhead := parses_decodeHeader hqos hflags hmax hlimit
  have hsame : maxRemainingLength = maxVarInt := by decide
  have hfh : Announces (headerFor p.fixedHeader (p.layout (c.versionFor p)).length) p.fixedHeader
      (p.layout (c.versionFor p)) := ⟨rfl, rfl, hsame ▸ hmax⟩
  by_cases hconn : p.goType = .connect
  · cases p with
    | connect p =>
      obtain ⟨q, hq, hcanon, hflags⟩ := parses_decodeConnect hok hf hfh
      have ht : (headerFor p.fixedHeader p.layout.length).packetType = .connect := htype
      refine ⟨.connect q, fun t => ?_, congrArg Packet.connect hcanon, ?_⟩
      · rw [frame, List.append_assoc, decode_of_header (hhead _)]
        exact decodePacket_connect ht (hq t)
      · intro r hr
        cases hr
        exact hflags
    | _ => cases hconn
  · have hversion : c.versionFor p = c.protocolVersion := versionFor_other c hconn
    have hother : (headerFor p.fixedHeader (p.layout (c.versionFor p)).length).packetType ≠
        .connect := fun h => hconn (htype.symm.trans h)
    obtain ⟨q, hq, hcanon⟩ := parses_decodeBody hconn hok hf hfh htype
    refine ⟨q, fun t => ?_, hcanon, ?_⟩
    · rw [frame, List.append_assoc, decode_of_header (hhead _), decodePacket_other hother,
        ← hversion, hq t, hversion]
      rfl
    · intro r hr
      have htypes := Packet.goType_of_canon hcanon
      rw [hr] at htypes
      exact absurd htypes.symm hconn

end Codec

end SharkMqtt.Protocol
