import SharkMqtt.Protocol.Reencode

/-!
# What the wire can represent

When does a packet that `Encode` wrote come back from `Decode`? Exactly when it lies
within `Packet.Fits` and its body within the four bytes of Remaining Length, a
condition on the packet alone: the size of the body is arithmetic on the fields
(`Packet.size`). One direction is `Codec.decode_frame`. For the other, what a decoder
returns lies within the limits, and the limits depend only on what the wire carries.
A stream of such packets comes back whole (`Codec.decodeMany_encoded`).
-/

namespace SharkMqtt.Protocol

open Lib Lib.Reader

/-! ## Sizes -/

def varIntSize (n : ℕ) : ℕ := Nat.log 128 n + 1

def valueSize : (k : Kind) → k.Val → ℕ
  | .byte, _ => 1
  | .uint16, _ => 2
  | .uint32, _ => 4
  | .varInt, (v : UInt32) => varIntSize v.toNat
  | .string, (s : Str) => 2 + s.length
  | .binary, (data : Bytes) => 2 + data.length
  | .pair, (u : UserProperty) => (2 + u.key.length) + (2 + u.value.length)

namespace Properties

/-- Each property instance is its identifier and its value. -/
def dataSize (p : Properties) : ℕ := (p.items.map fun i => 1 + valueSize i.1.kind i.2).sum

/-- With the Property Length in front, an unsigned number of 32 bits. -/
def sectionSize (p : Properties) : ℕ := varIntSize (p.dataSize % 2 ^ 32) + p.dataSize

end Properties

/-- A section that MQTT 5.0 always writes and earlier versions never. -/
def sectionSize (version : UInt8) (o : Option Properties) : ℕ :=
  if (specFor version).properties = true then o.elim 1 Properties.sectionSize else 0

/-- Reason code and section where both may be left out. -/
def reasonSize (reasonCode : UInt8) (o : Option Properties) : ℕ :=
  o.elim (if reasonCode ≠ 0 then 1 else 0) fun p => 1 + p.sectionSize

def ConnectPacket.size (p : ConnectPacket) : ℕ :=
  (2 + p.protocolName.length) + (1 + (1 + (2 + (sectionSize p.protocolVersion p.properties +
    ((2 + p.clientID.length) +
      ((if p.flags.willFlag = true then sectionSize p.protocolVersion p.willProperties +
          ((2 + p.willTopic.length) + (2 + p.willMessage.length)) else 0) +
        ((if p.flags.usernameFlag = true then 2 + p.username.length else 0) +
          (if p.flags.passwordFlag = true then 2 + p.password.length else 0))))))))

def Packet.size (version : UInt8) : Packet → ℕ
  | .connect p => p.size
  | .connAck p => 1 + (1 + sectionSize version p.properties)
  | .publish p => (2 + p.topic.length) + ((if 0 < p.fixedHeader.qos then 2 else 0) +
    (sectionSize version p.properties + p.payload.length))
  | .pubAck p | .pubRec p | .pubRel p | .pubComp p => 2 + reasonSize p.reasonCode p.properties
  | .subscribe p => 2 + (sectionSize version p.properties +
    (p.topics.map fun f => (2 + f.topic.length) + 1).sum)
  | .subAck p | .unsubAck p => 2 + (sectionSize version p.properties + p.reasonCodes.length)
  | .unsubscribe p => 2 + (sectionSize version p.properties +
    (p.topics.map fun t => 2 + t.length).sum)
  | .pingReq _ | .pingResp _ => 0
  | .disconnect p | .auth p => reasonSize p.reasonCode p.properties

theorem length_valueBytes (k : Kind) (v : k.Val) : (valueBytes k v).length = valueSize k v := by
  cases k with
  | byte => rfl
  | uint16 => exact length_bigEndian 2 _
  | uint32 => exact length_bigEndian 4 _
  | varInt => exact length_base128 _
  | string | binary => exact length_writeBinaryData _
  | pair =>
    show (writeBinaryData _ ++ writeBinaryData _).length = _
    rw [List.length_append, length_writeBinaryData, length_writeBinaryData]
    rfl

namespace Properties

theorem length_data (p : Properties) : p.dataBytes.length = p.dataSize := by
  unfold dataBytes dataSize
  rw [List.length_flatMap]
  congr 2
  funext i
  show (valueBytes i.1.kind i.2).length + 1 = _
  rw [length_valueBytes, Nat.add_comm]

theorem length_sectionBytes (p : Properties) : p.sectionBytes.length = p.sectionSize := by
  unfold sectionBytes sectionSize
  rw [List.length_append, writeVarInt, length_base128, length_data]
  rfl

end Properties

theorem sum_map_le {α : Type} {f : α → ℕ} {n : ℕ} {l : List α} (h : ∀ a ∈ l, f a ≤ n) :
    (l.map f).sum ≤ l.length * n := by
  simpa using List.sum_le_card_nsmul (l.map f) n (List.forall_mem_map.mpr h)

/-- Any value but a pair of strings. -/
theorem valueSize_le {k : Kind} {v : k.Val} (hk : k ≠ .pair) (hw : k.Writable v) (hf : k.Fits v) :
    valueSize k v ≤ 2 + maxUint16 := by
  have hmax : maxUint16 = 65535 := rfl
  cases k with
  | byte | uint16 | uint32 => exact Nat.le_of_ble_eq_true rfl
  | varInt =>
    have hlog : Nat.log 128 (v : UInt32).toNat < 4 :=
      Nat.log_lt_of_lt_pow' (by decide) (Nat.lt_of_le_of_lt hf (by decide))
    show Nat.log 128 _ + 1 ≤ _
    omega
  | string => exact Nat.add_le_add_left hw.1 2
  | binary => exact Nat.add_le_add_left hf 2
  | pair => exact absurd rfl hk

/-- A section with no property given twice. -/
theorem Properties.dataSize_le {p : Properties} {n : ℕ} (hone : ∀ id, (p.get id).length ≤ 1)
    (hvalues : ∀ i ∈ p.items, valueSize i.1.kind i.2 ≤ n) :
    p.dataSize ≤ propertyProbes.length * 1 * (1 + n) := by
  have hcount : p.items.length ≤ propertyProbes.length * 1 := by
    unfold items
    rw [List.length_flatMap]
    apply sum_map_le
    intro id _
    rw [List.length_map]
    exact hone id
  calc p.dataSize ≤ p.items.length * (1 + n) :=
        sum_map_le fun i hi => Nat.add_le_add_left (hvalues i hi) 1
    _ ≤ propertyProbes.length * 1 * (1 + n) := Nat.mul_le_mul_right _ hcount

theorem length_sectionPart (version : UInt8) (o : Option Properties) :
    (sectionPart version o).length = sectionSize version o := by
  unfold sectionPart sectionSize
  split_ifs
  · cases o with
    | none => rfl
    | some p => exact p.length_sectionBytes
  · rfl

theorem length_reasonPart (reasonCode : UInt8) (o : Option Properties) :
    (reasonPart reasonCode o).length = reasonSize reasonCode o := by
  cases o with
  | none =>
    show (if reasonCode ≠ 0 then [reasonCode] else []).length = if reasonCode ≠ 0 then 1 else 0
    split <;> rfl
  | some p =>
    show ([reasonCode] ++ p.sectionBytes).length = 1 + p.sectionSize
    rw [List.length_append, p.length_sectionBytes]
    rfl

theorem length_ite {c : Prop} [Decidable c] {bs : Bytes} {n : ℕ} (h : bs.length = n) :
    (if c then bs else []).length = if c then n else 0 := by
  split
  · exact h
  · rfl

theorem length_writeUint16 (v : UInt16) : (writeUint16 v).length = 2 := length_bigEndian 2 _

variable (p : ConnectPacket)

theorem ConnectPacket.length_layout : p.layout.length = p.size := by
  have hwill : p.willPart.length = sectionSize p.protocolVersion p.willProperties +
      ((2 + p.willTopic.length) + (2 + p.willMessage.length)) := by
    rw [ConnectPacket.willPart, List.length_append, List.length_append, length_sectionPart,
      length_writeBinaryData, length_writeBinaryData]
  unfold ConnectPacket.layout ConnectPacket.tailLayout ConnectPacket.size
  simp only [List.length_append, List.length_singleton, length_writeBinaryData,
    length_writeUint16, length_sectionPart, length_ite hwill, length_ite (length_writeBinaryData _)]

theorem Packet.length_layout (version : UInt8) (p : Packet) :
    (p.layout version).length = p.size version := by
  have hack : ∀ p : AckPacket, p.layout.length = 2 + reasonSize p.reasonCode p.properties := by
    intro p
    rw [AckPacket.layout, length_packetID_append, length_reasonPart]
  have hcodes : ∀ p : SubAckPacket, (p.layout version).length =
      2 + (sectionSize version p.properties + p.reasonCodes.length) := by
    intro p
    rw [SubAckPacket.layout, length_packetID_append, List.length_append, length_sectionPart]
  cases p with
  | connect p => exact p.length_layout
  | connAck p =>
    show (ConnAckPacket.layout version p).length = _
    rw [ConnAckPacket.layout, List.length_append, List.length_append, length_sectionPart]
    rfl
  | publish p =>
    show (PublishPacket.layout version p).length = _
    rw [PublishPacket.layout, List.length_append, List.length_append, List.length_append,
      length_writeBinaryData, length_sectionPart, length_ite (length_writeUint16 _)]
    rfl
  | subscribe p =>
    show (SubscribePacket.layout version p).length = _
    rw [SubscribePacket.layout, length_packetID_append, List.length_append, length_sectionPart,
      List.length_flatMap]
    simp only [filterBytes, List.length_append, length_writeBinaryData, List.length_singleton]
    rfl
  | unsubscribe p =>
    show (UnsubscribePacket.layout version p).length = _
    rw [UnsubscribePacket.layout, length_packetID_append, List.length_append, length_sectionPart,
      List.length_flatMap]
    simp only [length_writeBinaryData]
    rfl
  | pubAck p | pubRec p | pubRel p | pubComp p => exact hack p
  | subAck p | unsubAck p => exact hcodes p
  | pingReq | pingResp => rfl
  | disconnect p | auth p => exact length_reasonPart p.reasonCode p.properties

/-! ## The limits depend only on what the wire carries -/

theorem Kind.fits_of_blank {k : Kind} {v : k.Val} (h : k.blank v = true) : k.Fits v := by
  cases k with
  | binary =>
    have hnil : @Eq Bytes v [] := by simpa [Kind.blank] using h
    rw [hnil]
    exact Nat.zero_le _
  | varInt => cases h
  | _ => trivial

theorem Properties.fits_norm {locus : Locus} {p : Properties} :
    p.norm.Fits locus ↔ p.Fits locus := by
  constructor
  · intro h
    refine ⟨forall_items.mpr fun id v hv => ?_, h.users, h.single⟩
    by_cases hblank : id.kind.blank v = true
    · exact Kind.fits_of_blank hblank
    · have hmem : v ∈ p.norm.get id := by
        rw [get_norm]
        exact List.mem_filter.mpr ⟨hv, by simp [hblank]⟩
      exact forall_items.mp h.values id v hmem
  · intro h
    refine ⟨forall_items.mpr fun id v hv => ?_, h.users, h.single⟩
    rw [get_norm] at hv
    exact forall_items.mp h.values id v (List.mem_filter.mp hv).1

theorem Properties.fits_empty (locus : Locus) : ({} : Properties).Fits locus where
  values := forall_items.mpr fun id v hv => by
    rw [get_empty] at hv
    cases hv
  users := Nat.zero_le _
  single _ := Nat.zero_le _

theorem sectionFits_canonSection {locus : Locus} {o : Option Properties} :
    SectionFits locus (canonSection o) ↔ SectionFits locus o := by
  cases o with
  | none => exact Iff.rfl
  | some p =>
    have hsome : ∀ q : Properties, SectionFits locus (some q) ↔ q.Fits locus := by
      simp [SectionFits]
    show SectionFits locus (if p.norm = {} then none else some p.norm) ↔ _
    rw [hsome, ← Properties.fits_norm]
    split
    · rename_i hempty
      rw [hempty]
      refine ⟨fun _ => Properties.fits_empty locus, fun _ q hq => ?_⟩
      cases hq
    · exact hsome p.norm

theorem ConnectPacket.fits_canon : p.canon.Fits ↔ p.Fits := by
  rw [ConnectPacket.fits_iff, ConnectPacket.fits_iff]
  unfold ConnectPacket.canon ConnectFlags.canon
  -- without a will only the properties and the reserved flag count
  by_cases hwill : p.flags.willFlag = true
  · simp [hwill, sectionFits_canonSection]
  · simp [hwill, sectionFits_canonSection]

/-- Whether the wire can represent a packet is a matter of its canonical form. -/
theorem Packet.fits_canon {version : UInt8} (p : Packet) :
    (p.canon version).Fits version ↔ p.Fits version := by
  cases p with
  | connect p => exact p.fits_canon
  | publish p => exact and_congr Iff.rfl sectionFits_canonSection
  | subscribe p =>
    have hid : packetSubID (canonSection p.properties) = packetSubID p.properties :=
      bind_canonSection (fun _ => rfl) rfl p.properties
    refine and_congr sectionFits_canonSection ?_
    show (∀ f ∈ p.topics, FilterFits version (packetSubID (canonSection p.properties)) f) ↔ _
    rw [hid]
  | pingReq | pingResp => exact Iff.rfl
  | _ => exact sectionFits_canonSection

theorem Packet.Fits.congr {version : UInt8} {p q : Packet} (h : q.Fits version)
    (hcanon : q.canon version = p.canon version) : p.Fits version := by
  rw [← p.fits_canon, ← hcanon, q.fits_canon]
  exact h

theorem ConnectPacket.canon_unreserved : p.unreserved.canon = p.canon.unreserved := by
  unfold ConnectPacket.unreserved ConnectPacket.canon ConnectFlags.canon
  by_cases hwill : p.flags.willFlag = true
  · simp only [if_pos hwill]
  · simp only [if_neg hwill]

/-! ## Packets that come back -/

namespace Codec

/-- Remaining Length has four bytes. -/
theorem decode_tooLong (c : Codec) (fh : FixedHeader) {body : Bytes}
    (h : maxRemainingLength < body.length) :
    ∃ left, c.decode (frame fh body) = (.error .invalidPacket, c, left) := by
  obtain ⟨left, hfixed⟩ : ∃ left, decodeFixedHeader (frame fh body) = (.error .invalidPacket, left) :=
    decodeFixedHeader_tooLong h body
  exact ⟨left, decode_of_header_error (bind_error hfixed)⟩

/-- The reserved flag of a CONNECT is not written: one that comes back had it off. -/
theorem fits_of_decode_connect {c c' : Codec} {p q : ConnectPacket} {left : Bytes}
    (htype : p.fixedHeader.packetType = .connect)
    (hflags : validateFixedHeaderFlags p.fixedHeader = none) (hok : p.Encodable)
    (hmax : p.layout.length ≤ maxRemainingLength)
    (hlimit : (frame p.fixedHeader p.layout).length ≤ c.maxPacketSize)
    (hdec : c.decode (frame p.fixedHeader p.layout) = (.ok (.connect q), c', left))
    (hcanon : q.canon = p.canon) : p.Fits := by
  have hq : q.unreserved.Fits := ((decode_returned hdec).connect q rfl).fits
  have hp : p.unreserved.Fits := by
    rw [← p.unreserved.fits_canon, p.canon_unreserved, ← hcanon, ← q.canon_unreserved,
      q.unreserved.fits_canon]
    exact hq
  -- the packet without the flag has the same bytes
  have hok' : p.unreserved.Encodable :=
    ⟨hok.name, hok.properties, hok.clientID,
      fun h => ⟨(hok.will h).properties, (hok.will h).topic, (hok.will h).message⟩,
      hok.username, hok.password⟩
  obtain ⟨r, hr, hrcanon, -⟩ := decode_frame (c := c) (p := .connect p.unreserved) htype hflags
    hok' hp hmax hlimit
  have hagain : c.decode (frame p.fixedHeader p.layout) =
      (.ok r, c.setVersion p.protocolVersion, []) := by
    have hnil := hr []
    rw [List.append_nil] at hnil
    exact hnil
  rw [hdec] at hagain
  cases hagain
  have hsame : p.canon = p.canon.unreserved := by
    rw [← p.canon_unreserved, ← hcanon]
    exact Packet.connect.inj hrcanon
  have hoff : p.canon.flags.reserved = p.canon.unreserved.flags.reserved :=
    congrArg (fun r : ConnectPacket => r.flags.reserved) hsame
  have hreserved : p.flags.reserved = false := p.flags.canon_reserved.symm.trans hoff
  rw [← p.unreserved_eq hreserved]
  exact hp

/-- **Which encoded packets come back.** Take a packet whose header names its own type,
the bytes `Encode` wrote for it, and a codec of the same version that admits as many
bytes. `Decode` returns the packet, up to what the wire does not carry, exactly when
the packet is within the limits of the wire. -/
theorem decode_encoded_iff {enc dec : Codec} {p : Packet} {b : Bytes}
    (htype : p.fixedHeader.packetType = p.goType) (henc : (enc.encode p).1 = .ok b)
    (hversion : dec.protocolVersion = enc.protocolVersion) (hlimit : b.length ≤ dec.maxPacketSize) :
    (∃ q dec', dec.decode b = (.ok q, dec', []) ∧
        q.canon (enc.versionFor p) = p.canon (enc.versionFor p)) ↔
      p.Fits (enc.versionFor p) ∧ p.size (enc.versionFor p) ≤ maxRemainingLength := by
  obtain ⟨hflags, hok, hb⟩ := encode_ok henc
  rw [headerOut_eq htype hflags] at hb
  subst hb
  have hsame : enc.versionFor p = dec.versionFor p := versionFor_congr hversion.symm p
  rw [hsame] at hok hlimit ⊢
  rw [← Packet.length_layout]
  constructor
  · rintro ⟨q, dec', hdec, hcanon⟩
    have hmax : (p.layout (dec.versionFor p)).length ≤ maxRemainingLength := by
      by_contra hlong
      obtain ⟨left, herr⟩ := dec.decode_tooLong p.fixedHeader (Nat.not_le.mp hlong)
      rw [herr] at hdec
      cases hdec
    refine ⟨?_, hmax⟩
    have hqtype := Packet.goType_of_canon hcanon
    by_cases hconn : p.goType = .connect
    · cases p with
      | connect p =>
        cases q with
        | connect q =>
          exact fits_of_decode_connect htype hflags hok hmax hlimit hdec
            (Packet.connect.inj hcanon)
        | _ => cases hqtype
      | _ => cases hconn
    · have hq : q.goType ≠ .connect := fun h => hconn (hqtype.symm.trans h)
      have hfits := ((decode_returned hdec).other hq).fits
      rw [dec.versionFor_other hconn] at hcanon ⊢
      exact hfits.congr hcanon
  · rintro ⟨hfits, hmax⟩
    obtain ⟨q, hq, hcanon, -⟩ := decode_frame htype hflags hok hfits hmax hlimit
    have hdec := hq []
    rw [List.append_nil] at hdec
    exact ⟨q, _, hdec, hcanon⟩

/-- An MQTT 5.0 PUBLISH at QoS 0, to topic `a`, with one Subscription Identifier. -/
def publishWith (id : UInt32) : Packet :=
  .publish
    { fixedHeader := { packetType := .publish }
      topic := [0x61]
      properties := some { subscriptionIdentifier := [id] } }

/-- A Subscription Identifier of 268435456 is written in five bytes, which the decoder
does not accept. -/
theorem encode_subscriptionIdentifier_tooLarge :
    (publishWith 268435456).fixedHeader.packetType = (publishWith 268435456).goType ∧
      ((newForVersion 0 version50).encode (publishWith 268435456)).1 =
        .ok [0x30, 0x0A, 0x00, 0x01, 0x61, 0x06, 0x0B, 0x80, 0x80, 0x80, 0x80, 0x01] ∧
      (newForVersion 0 version50).decode
          [0x30, 0x0A, 0x00, 0x01, 0x61, 0x06, 0x0B, 0x80, 0x80, 0x80, 0x80, 0x01] =
        (.error (.wrap "decode properties" .varIntTooLong), newForVersion 0 version50, []) := by
  decide +kernel

/-- The largest Subscription Identifier. -/
theorem decode_encoded_iff_publish :
    (∃ q dec', (newForVersion 0 version50).decode
        [0x30, 0x09, 0x00, 0x01, 0x61, 0x05, 0x0B, 0xFF, 0xFF, 0xFF, 0x7F] = (.ok q, dec', []) ∧
      q.canon version50 = (publishWith 268435455).canon version50) ↔
    (publishWith 268435455).Fits version50 ∧
      (publishWith 268435455).size version50 ≤ maxRemainingLength := by
  have henc : ((newForVersion 0 version50).encode (publishWith 268435455)).1 =
      .ok [0x30, 0x09, 0x00, 0x01, 0x61, 0x05, 0x0B, 0xFF, 0xFF, 0xFF, 0x7F] := by
    decide +kernel
  exact decode_encoded_iff rfl henc rfl (by decide)

/-- **A stream of encoded packets comes back packet by packet**, up to what the wire does not
carry, when they are of one version and within the limits of the wire and of the decoder. The
decoder has the version, or is told by the CONNECT that comes first. -/
theorem decodeMany_encoded {enc dec : Codec} {ps : List Packet} {bs : List Bytes}
    (henc : List.Forall₂ (fun p b => (enc.encode p).1 = .ok b) ps bs)
    (hps : ∀ p ∈ ps, p.fixedHeader.packetType = p.goType ∧
      enc.versionFor p = enc.protocolVersion ∧ p.Fits enc.protocolVersion ∧
      p.size enc.protocolVersion ≤ maxRemainingLength)
    (hbs : ∀ b ∈ bs, b.length ≤ dec.maxPacketSize)
    (hhead : ∀ p ∈ ps.head?, dec.versionFor p = enc.protocolVersion) (t : Bytes) :
    ∃ qs dec', decodeMany bs.length dec (bs.flatten ++ t) = (.ok qs, dec', t) ∧
      qs.map (·.canon enc.protocolVersion) = ps.map (·.canon enc.protocolVersion) := by
  induction henc generalizing dec with
  | nil => exact ⟨[], dec, rfl, rfl⟩
  | @cons p b ps bs hb _ ih =>
    obtain ⟨⟨htype, hversion, hfits, hsize⟩, hps⟩ := List.forall_mem_cons.mp hps
    obtain ⟨hflags, hok, rfl⟩ := encode_ok hb
    obtain ⟨hlimit, hbs⟩ := List.forall_mem_cons.mp hbs
    have hsame : dec.versionFor p = enc.protocolVersion := hhead p rfl
    rw [headerOut_eq htype hflags, hversion] at hlimit ⊢
    rw [hversion] at hok
    rw [← Packet.length_layout] at hsize
    rw [← hsame] at hok hfits hsize hlimit
    obtain ⟨q, hq, hcanon, -⟩ := decode_frame htype hflags hok hfits hsize hlimit
    rw [hsame] at hq hcanon
    -- from here on the decoder has the version
    obtain ⟨qs, dec', hmany, hcanons⟩ := @ih (dec.setVersion enc.protocolVersion) hps hbs
      fun p hp => (versionFor_congr rfl p).trans (hps p (List.mem_of_mem_head? hp)).2.1
    refine ⟨q :: qs, dec', ?_, by rw [List.map_cons, List.map_cons, hcanon, hcanons]⟩
    rw [List.flatten_cons, List.append_assoc]
    exact decodeMany_succ (hq _) hmany

/-- A CONNECT of version 5.0 and a PINGREQ. -/
def opening : List Packet :=
  [.connect ⟨{ packetType := .connect }, ascii "MQTT", version50, { cleanSession := true }, 0,
    ascii "c", [], [], [], [], none, none⟩, .pingReq { packetType := .pingReq }]

/-- The decoder starts out with version 3.1.1. -/
theorem decodeMany_encoded_opening :
    ∃ qs dec', decodeMany 2 (new 0)
        [16, 14, 0, 4, 77, 81, 84, 84, 5, 2, 0, 0, 0, 0, 1, 99, 192, 0] = (.ok qs, dec', []) ∧
      qs.map (·.canon version50) = opening.map (·.canon version50) := by
  have hps : ∀ p ∈ opening, p.fixedHeader.packetType = p.goType ∧
      (newForVersion 0 version50).versionFor p = version50 ∧ p.Fits version50 ∧
      p.size version50 ≤ maxRemainingLength := by
    refine List.forall_mem_cons.mpr ⟨⟨rfl, rfl, ⟨?_, ?_, ?_, ?_, rfl⟩, by decide⟩,
      List.forall_mem_singleton.mpr ⟨rfl, rfl, trivial, by decide⟩⟩ <;> simp [SectionFits]
  exact @decodeMany_encoded (newForVersion 0 version50) (new 0) opening
    [[16, 14, 0, 4, 77, 81, 84, 84, 5, 2, 0, 0, 0, 0, 1, 99], [192, 0]]
    (.cons (by decide +kernel) (.cons (by decide +kernel) .nil)) hps (by decide) (by decide) []

end Codec

end SharkMqtt.Protocol
