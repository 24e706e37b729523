import SharkMqtt.Protocol.RoundTrip

/-!
# Encoding what was decoded

The decoder is at least as strict as the encoder: whatever it returns the encoder
accepts, within the limits of `Packet.Fits`, in no more bytes than were read (three at
least: an empty section of MQTT 5.0 may be left out by the sender). One `Returns` lemma
per decoder says so, in the order in which the fields are read; from there the packet
is decoded again by `RoundTrip`.
-/

namespace SharkMqtt.Protocol

open Lib Lib.Reader

/-! ## Up to the sizes of the header and empty records -/

/-- An all-absent property record is nil. -/
def eraseSection (o : Option Properties) : Option Properties := if o = some {} then none else o

variable {locus : Locus} {o : Option Properties} (version : UInt8) {α : Type} {p : Packet}
  {fh : FixedHeader}

theorem SectionPlain.canonSection_eq (h : SectionPlain locus o) :
    canonSection o = eraseSection o := by
  cases o with
  | none => rfl
  | some p =>
    have hnorm : p.norm = p := (h p rfl).norm
    show (if p.norm = {} then none else some p.norm) = if some p = some {} then none else some p
    rw [hnorm]
    simp only [Option.some.injEq]

/-- A packet up to header size, Remaining Length and all-absent records. -/
def Packet.erase : Packet → Packet
  | .connect p => .connect
    { p with
      fixedHeader := p.fixedHeader.carried
      properties := eraseSection p.properties
      willProperties := eraseSection p.willProperties }
  | .connAck p => .connAck
    { p with fixedHeader := p.fixedHeader.carried, properties := eraseSection p.properties }
  | .publish p => .publish
    { p with fixedHeader := p.fixedHeader.carried, properties := eraseSection p.properties }
  | .pubAck p => .pubAck
    { p with fixedHeader := p.fixedHeader.carried, properties := eraseSection p.properties }
  | .pubRec p => .pubRec
    { p with fixedHeader := p.fixedHeader.carried, properties := eraseSection p.properties }
  | .pubRel p => .pubRel
    { p with fixedHeader := p.fixedHeader.carried, properties := eraseSection p.properties }
  | .pubComp p => .pubComp
    { p with fixedHeader := p.fixedHeader.carried, properties := eraseSection p.properties }
  | .subscribe p => .subscribe
    { p with fixedHeader := p.fixedHeader.carried, properties := eraseSection p.properties }
  | .subAck p => .subAck
    { p with fixedHeader := p.fixedHeader.carried, properties := eraseSection p.properties }
  | .unsubscribe p => .unsubscribe
    { p with fixedHeader := p.fixedHeader.carried, properties := eraseSection p.properties }
  | .unsubAck p => .unsubAck
    { p with fixedHeader := p.fixedHeader.carried, properties := eraseSection p.properties }
  | .pingReq fh => .pingReq fh.carried
  | .pingResp fh => .pingResp fh.carried
  | .disconnect p => .disconnect
    { p with fixedHeader := p.fixedHeader.carried, properties := eraseSection p.properties }
  | .auth p => .auth
    { p with fixedHeader := p.fixedHeader.carried, properties := eraseSection p.properties }

/-! ## Parts -/

theorem SectionPlain.accepted (h : SectionPlain locus o) :
    SectionAccepted locus o := fun p hp => (h p hp).accepted

theorem SectionPlain.fits (h : SectionPlain locus o) :
    SectionFits locus o := fun p hp => (h p hp).fits

theorem sectionPlain_none (locus : Locus) : SectionPlain locus none := by
  intro p hp
  cases hp

theorem sectionOk_none (locus : Locus) :
    SectionOk version locus none ∧ (sectionPart version none).length ≤ 1 := by
  unfold SectionOk sectionPart
  split_ifs
  · exact ⟨(sectionPlain_none locus).accepted, Nat.le_refl 1⟩
  · exact ⟨rfl, Nat.zero_le 1⟩

theorem returns_readPropertySection (locus : Locus) :
    Returns (readPropertySection version locus) fun o k =>
      SectionOk version locus o ∧ SectionPlain locus o ∧ (sectionPart version o).length ≤ k := by
  unfold SectionOk sectionPart
  refine returns_readIf (fun hspec => ?_) fun hspec => ?_
  · simp only [if_pos hspec]
    refine (returns_section locus).mono ?_
    rintro o k ⟨hplain, hlen⟩
    exact ⟨hplain.accepted, hplain, hlen⟩
  · rw [if_neg hspec, if_neg hspec]
    exact ⟨rfl, sectionPlain_none locus, Nat.le_refl 0⟩

theorem returns_noneLeft : Returns noneLeft fun _ k => k = 0 := by
  refine returns_remaining.bind fun len k hk => ?_
  refine returns_failIf.mono ?_
  omega

theorem returns_lastProperties (locus : Locus) :
    Returns (lastProperties locus) fun o k =>
      SectionPlain locus o ∧ (sectionWire o).length ≤ k := by
  refine (returns_section locus).bind fun o k ho => ?_
  refine returns_noneLeft.bind fun _ j hj => Returns.pure ⟨ho.1, ?_⟩
  omega

theorem returns_readPacketID : Returns readPacketID fun id k => id ≠ 0 ∧ k = 2 := by
  refine returns_readUint16.bind fun id k hk => ?_
  refine returns_failIf.bind fun _ j hj => Returns.pure ⟨hj.1, ?_⟩
  omega

theorem returns_buffered {r : Read α} {Q : α → ℕ → Prop} {n : ℕ}
    (hmono : ∀ a i j, i ≤ j → Q a i → Q a j) (h : Returns r Q) :
    Returns (do let data ← readFull n; inside data r) fun a k => Q a k ∧ k = n := by
  refine returns_readFull.bind fun data k hk => ?_
  refine (returns_inside h).mono ?_
  rintro a j ⟨⟨i, hi, hQ⟩, rfl⟩
  exact ⟨hmono a i _ (by omega) hQ, hk.2⟩

/-! ## What the decoders return -/

/-- A packet as a decoder returns it from `n` bytes. -/
structure Packet.Decoded (version : UInt8) (p : Packet) (n : ℕ) : Prop where
  encodable : p.Encodable version
  fits : p.Fits version
  size : (p.layout version).length ≤ max n 3
  plain : (p.goType = .connAck → (specFor version).connAckSessionPresent = true) →
    p.canon version = p.erase

theorem Packet.Decoded.mono {version : UInt8} {i j : ℕ} (hij : i ≤ j) (h : p.Decoded version i) :
    p.Decoded version j :=
  ⟨h.encodable, h.fits, by have := h.size; omega, h.plain⟩

section Decoders

variable {version : UInt8} {fh : FixedHeader} (locus : Locus)

theorem returns_decodeConnAck :
    Returns (decodeConnAck version fh) fun p k => (Packet.connAck p).Decoded version k := by
  refine (returns_buffered (Q := fun p k => (Packet.connAck p).Decoded version k)
    (fun _ _ _ => Packet.Decoded.mono) ?_).mono fun _ _ h => h.1
  refine returns_readByte.bind fun spFlag k₁ h₁ => ?_
  refine returns_readByte.bind fun reasonCode k₂ h₂ => ?_
  refine returns_failIf.bind fun _ k₃ h₃ => ?_
  refine Returns.bind (P := fun o k => SectionOk version .connAck o ∧
    SectionPlain .connAck o ∧ (sectionPart version o).length ≤ max k 1) ?_ fun props k₄ h₄ =>
      Returns.pure ?_
  · refine returns_readIf (fun hspec => ?_) fun _ => ?_
    · unfold SectionOk sectionPart
      simp only [if_pos hspec.1]
      refine (returns_lastProperties .connAck).mono ?_
      rintro o k ⟨hplain, hlen⟩
      exact ⟨hplain.accepted, hplain, by omega⟩
    · obtain ⟨hok, hlen⟩ := sectionOk_none version .connAck
      exact ⟨hok, sectionPlain_none .connAck, hlen⟩
  obtain ⟨hok, hplain, hlen⟩ := h₄
  refine ⟨hok, hplain.fits, ?_, fun hspec => ?_⟩
  · show (ConnAckPacket.layout version _).length ≤ _
    simp only [ConnAckPacket.layout, List.length_append, List.length_singleton]
    omega
  · simp only [Packet.canon, Packet.erase, ConnAckPacket.canon, hplain.canonSection_eq, hspec rfl,
      Bool.and_true]

theorem returns_readPublishBody (left : ℕ) :
    Returns (readPublishBody version left) fun r k => SectionOk version .publish r.1 ∧
      SectionPlain .publish r.1 ∧ (sectionPart version r.1 ++ r.2).length ≤ k := by
  unfold readPublishBody SectionOk sectionPart
  by_cases hspec : (specFor version).properties = true
  · simp only [if_pos hspec]
    refine (returns_buffered (fun _ _ _ hij h => ⟨h.1, h.2.1, Nat.le_trans h.2.2 hij⟩) ?_).mono
      fun _ _ h => h.1
    refine Returns.bind (returns_section .publish).mapError fun props k₁ h₁ => ?_
    refine returns_rest.bind fun payload k₂ h₂ => Returns.pure ?_
    refine ⟨h₁.1.accepted, h₁.1, ?_⟩
    show (sectionWire props ++ payload).length ≤ _
    rw [List.length_append]
    omega
  · simp only [if_neg hspec]
    refine returns_readFull.bind fun payload k hk => Returns.pure ?_
    refine ⟨rfl, sectionPlain_none _, ?_⟩
    show payload.length ≤ _
    omega

theorem returns_readPublishID (headerBytes : ℕ) :
    Returns (readPublishID fh headerBytes) fun id k =>
      (fh.qos = 0 → id = 0) ∧ (0 < fh.qos → id ≠ 0) ∧
        (if 0 < fh.qos then writeUint16 id else []).length ≤ k := by
  refine returns_readIf (fun hpos => ?_) fun hzero => ?_
  · refine returns_failIf.bind fun _ k₁ h₁ => ?_
    refine returns_readPacketID.mono ?_
    rintro id k ⟨hid, hk⟩
    refine ⟨fun hq => ?_, fun _ => hid, ?_⟩
    · rw [hq] at hpos
      exact absurd hpos (by decide)
    · rw [if_pos hpos, writeUint16, length_bigEndian]
      omega
  · refine ⟨fun _ => rfl, fun hpos => absurd hpos hzero, ?_⟩
    rw [if_neg hzero]
    exact Nat.le_refl 0

theorem returns_decodePublish (hqos : fh.qos ≤ 2) :
    Returns (decodePublish version fh) fun p k => (Packet.publish p).Decoded version k := by
  refine returns_failIf.bind fun _ k₀ h₀ => ?_
  refine returns_readStringBounded.bind fun topic k₁ h₁ => ?_
  refine (returns_readPublishID _).bind fun packetID k₂ h₂ => ?_
  refine returns_failIf.bind fun _ k₃ h₃ => ?_
  refine (returns_readPublishBody _).bind fun body k₄ h₄ => ?_
  refine returns_failIf.bind fun _ k₅ h₅ => Returns.pure ?_
  obtain ⟨htopic, -, hk₁⟩ := h₁
  obtain ⟨hnoID, hhasID, hk₂⟩ := h₂
  obtain ⟨hok, hplain, hk₄⟩ := h₄
  refine ⟨⟨eq_true_of_ne_false h₅.1, hnoID, hhasID, htopic, hok⟩, ⟨hqos, hplain.fits⟩, ?_,
    fun _ => ?_⟩
  · show (PublishPacket.layout version _).length ≤ _
    simp only [PublishPacket.layout]
    rw [List.length_append, List.length_append]
    omega
  · simp only [Packet.canon, Packet.erase, PublishPacket.canon, hplain.canonSection_eq]

theorem length_reasonPart_none_le (reasonCode : UInt8) :
    (reasonPart reasonCode none).length ≤ 1 := by
  by_cases hzero : reasonCode = 0
  · simp [reasonPart, hzero]
  · simp [reasonPart, hzero]

theorem length_reasonPart_le (reasonCode : UInt8) (o : Option Properties) :
    (reasonPart reasonCode o).length ≤ 1 + (sectionWire o).length := by
  cases o with
  | none => exact Nat.le_add_right_of_le (length_reasonPart_none_le reasonCode)
  | some p =>
    show ([reasonCode] ++ p.sectionBytes).length ≤ 1 + p.sectionBytes.length
    rw [List.length_append]
    exact Nat.le_refl _

/-- The section behind a reason code that has been read. -/
theorem returns_afterReason {c : Prop} [Decidable c] (reasonCode : UInt8) :
    Returns (readIf c (lastProperties locus) none) fun o k =>
      SectionPlain locus o ∧ (reasonPart reasonCode o).length ≤ 1 + k ∧ (¬ c → o = none) := by
  refine returns_readIf (fun hc => ?_) fun _ => ?_
  · refine (returns_lastProperties locus).mono ?_
    rintro o k ⟨hplain, hlen⟩
    have hle := length_reasonPart_le reasonCode o
    exact ⟨hplain, by omega, absurd hc⟩
  · exact ⟨sectionPlain_none locus, length_reasonPart_none_le reasonCode, fun _ => rfl⟩

/-- The end of an acknowledgement, which the source reads as far as it is there. -/
theorem returns_ackReason {α : Type} {f : UInt8 → Option Properties → α} :
    Returns (do
        let len ← remaining
        let reasonCode ← readIf (0 < len) readByte 0
        let len ← remaining
        let props ← readIf (0 < len) (lastProperties .ack) none
        pure (f reasonCode props) : Read α) fun a k => ∃ reasonCode o, a = f reasonCode o ∧
      SectionPlain .ack o ∧ (reasonPart reasonCode o).length ≤ k ∧
        (k = 0 → reasonCode = 0 ∧ o = none) := by
  intro s a left h
  obtain ⟨len, mid, hlen, h⟩ := of_bind_ok h
  cases hlen
  obtain ⟨reasonCode, mid, hcode, h⟩ := of_bind_ok h
  obtain ⟨len, mid', hlen, h⟩ := of_bind_ok h
  cases hlen
  obtain ⟨o, mid', ho, h⟩ := of_bind_ok h
  cases h
  cases s with
  | nil =>
    cases hcode
    cases ho
    exact ⟨[], rfl, 0, none, rfl, sectionPlain_none _, Nat.le_refl 0, fun _ => ⟨rfl, rfl⟩⟩
  | cons x s =>
    cases hcode
    obtain ⟨used, hs, hplain, hle, -⟩ := returns_afterReason .ack reasonCode mid o left ho
    refine ⟨reasonCode :: used, by rw [hs, List.cons_append], reasonCode, o, rfl, hplain, ?_, ?_⟩
    · rw [List.length_cons]
      omega
    · exact fun hzero => absurd hzero (Nat.succ_ne_zero _)

theorem returns_decodeAck :
    Returns (decodeAck version fh) fun p k =>
      p.Encodable version ∧ SectionPlain .ack p.properties ∧ p.layout.length ≤ k := by
  refine returns_failIf.bind fun _ k₀ h₀ => ?_
  refine returns_failIf.bind fun _ k₁ h₁ => ?_
  obtain ⟨hbefore, rfl⟩ := h₁
  refine (returns_buffered (Q := fun p k => p.packetID ≠ 0 ∧ SectionPlain .ack p.properties ∧
    p.layout.length ≤ k ∧ (k ≤ 2 → p.reasonCode = 0 ∧ p.properties = none))
      (fun _ i j hij h => ?_) ?_).mono ?_
  · obtain ⟨hid, hplain, hle, hnone⟩ := h
    exact ⟨hid, hplain, Nat.le_trans hle hij, fun hj => hnone (Nat.le_trans hij hj)⟩
  · refine returns_readPacketID.bind fun packetID k hk => ?_
    refine (returns_ackReason (f := AckPacket.mk fh packetID)).mono ?_
    rintro _ j ⟨reasonCode, o, rfl, hplain, hle, hnone⟩
    refine ⟨hk.1, hplain, ?_, fun hj => hnone (by omega)⟩
    show (writeUint16 packetID ++ reasonPart reasonCode o).length ≤ _
    rw [length_packetID_append]
    omega
  · rintro p k ⟨⟨hid, hplain, hle, hnone⟩, hk⟩
    refine ⟨⟨hid, ⟨fun hspec => hnone ?_, hplain.accepted⟩⟩, hplain, by omega⟩
    have hrl : fh.remainingLength = 2 := not_not.mp fun h => hbefore ⟨hspec, h⟩
    omega

/-- The end of the four acknowledgements: `mk` is the packet of the caller. -/
theorem AckPacket.decoded {p : AckPacket} {k : ℕ} {mk : AckPacket → Packet}
    (hmk : mk = .pubAck ∨ mk = .pubRec ∨ mk = .pubRel ∨ mk = .pubComp)
    (h : p.Encodable version ∧ SectionPlain .ack p.properties ∧ p.layout.length ≤ k) :
    (mk p).Decoded version k := by
  obtain ⟨hok, hplain, hlen⟩ := h
  have hcanon : p.canon =
      { p with fixedHeader := p.fixedHeader.carried, properties := eraseSection p.properties } := by
    rw [AckPacket.canon, hplain.canonSection_eq]
  have hsize : p.layout.length ≤ max k 3 := Nat.le_trans hlen (Nat.le_max_left k 3)
  rcases hmk with rfl | rfl | rfl | rfl
  · exact ⟨hok, hplain.fits, hsize, fun _ => congrArg Packet.pubAck hcanon⟩
  · exact ⟨hok, hplain.fits, hsize, fun _ => congrArg Packet.pubRec hcanon⟩
  · exact ⟨hok, hplain.fits, hsize, fun _ => congrArg Packet.pubRel hcanon⟩
  · exact ⟨hok, hplain.fits, hsize, fun _ => congrArg Packet.pubComp hcanon⟩

theorem returns_decodeReason (valid : UInt8 → Bool) :
    Returns (decodeReason locus valid fh) fun p k => SectionPlain locus p.properties ∧
      (reasonPart p.reasonCode p.properties).length ≤ k ∧ valid p.reasonCode = true ∧
        (fh.remainingLength = 0 → p.reasonCode = 0 ∧ p.properties = none) := by
  refine (returns_buffered (fun _ _ _ hij h =>
    ⟨h.1, Nat.le_trans h.2.1 hij, h.2.2⟩) ?_).mono fun _ _ h => h.1
  have hcode : Returns (readIf (0 < fh.remainingLength) readByte 0) fun r k =>
      (0 < fh.remainingLength → k = 1) ∧ (¬ 0 < fh.remainingLength → r = 0) :=
    returns_readIf (fun h => returns_readByte.mono fun _ _ hk => ⟨fun _ => hk, absurd h⟩)
      fun h => ⟨fun h' => absurd h' h, fun _ => rfl⟩
  refine hcode.bind fun reasonCode k₁ h₁ => ?_
  refine returns_failIf.bind fun _ k₂ h₂ => ?_
  refine (returns_afterReason locus reasonCode).bind fun o k₃ h₃ => Returns.pure ?_
  obtain ⟨hplain, hle, hnone⟩ := h₃
  refine ⟨hplain, ?_, eq_true_of_ne_false h₂.1, fun hzero => ⟨h₁.2 (by omega), hnone (by omega)⟩⟩
  show (reasonPart reasonCode o).length ≤ _
  by_cases hpos : 0 < fh.remainingLength
  · have hone := h₁.1 hpos
    omega
  · -- an empty body stands for reason code 0
    rw [h₁.2 hpos, hnone (by omega)]
    exact Nat.zero_le _

theorem returns_decodeDisconnect :
    Returns (decodeDisconnect version fh) fun p k => (Packet.disconnect p).Decoded version k := by
  refine returns_failIf.bind fun _ k₀ h₀ => ?_
  refine (returns_decodeReason .disconnect _).mono ?_
  rintro p k ⟨hplain, hlen, -, hempty⟩
  refine ⟨⟨fun hspec => hempty ?_, hplain.accepted⟩, hplain.fits, ?_, fun _ => ?_⟩
  · have hzero : ¬ 0 < fh.remainingLength := fun h => h₀.1 ⟨hspec, h⟩
    omega
  · show (reasonPart p.reasonCode p.properties).length ≤ _
    omega
  · simp only [Packet.canon, Packet.erase, DisconnectPacket.canon, hplain.canonSection_eq]

theorem returns_decodeAuth :
    Returns (decodeAuth version fh) fun p k => (Packet.auth p).Decoded version k := by
  refine returns_failIf.bind fun _ k₀ h₀ => ?_
  refine (returns_decodeReason .auth _).mono ?_
  rintro p k ⟨hplain, hlen, hvalid, -⟩
  refine ⟨⟨eq_true_of_ne_false h₀.1, hvalid, hplain.accepted⟩, hplain.fits, ?_, fun _ => ?_⟩
  · show (reasonPart p.reasonCode p.properties).length ≤ _
    omega
  · simp only [Packet.canon, Packet.erase, DisconnectPacket.canon, hplain.canonSection_eq]

theorem options_table : ∀ n < 256,
    let opts := UInt8.ofNat n
    ¬ (opts &&& 0xC0 ≠ 0 ∨ opts &&& 0x03 = 3 ∨ (opts >>> 4) &&& 0x03 = 3) →
      opts &&& 0x03 ≤ 2 ∧ (opts >>> 4) &&& 0x03 ≤ 2 ∧
        (opts &&& 0xFC = 0 → opts &&& 0x04 = 0 ∧ opts &&& 0x08 = 0 ∧ (opts >>> 4) &&& 0x03 = 0) := by
  decide +kernel

theorem returns_decodeFilter (subID : Option UInt32) (topics : List TopicFilter) :
    Returns (decodeFilter version subID topics) fun r k => ∃ f, r = topics ++ [f] ∧
      (FilterOk f ∧ FilterFits version subID f) ∧ k = (filterBytes f).length := by
  refine returns_readStringFromReader.bind fun topic k₁ h₁ => ?_
  refine returns_readByte.bind fun opts k₂ h₂ => ?_
  refine returns_failIf.bind fun _ k₃ h₃ => ?_
  refine returns_failIf.bind fun _ k₄ h₄ => Returns.pure ?_
  obtain ⟨htopic, hk₁⟩ := h₁
  have hopts : UInt8.ofNat opts.toNat = opts := UInt8.ofNat_toNat
  have htable := options_table opts.toNat opts.toNat_lt
  rw [hopts] at htable
  obtain ⟨hqos, hrh, hreserved⟩ := htable h₄.1
  refine ⟨_, rfl, ⟨⟨hqos, hrh, htopic⟩, rfl, fun hspec => ?_⟩, ?_⟩
  · have hzero : opts &&& 0xFC = 0 := not_not.mp fun h => h₃.1 ⟨hspec, h⟩
    obtain ⟨hlocal, hretain, hhandling⟩ := hreserved hzero
    exact ⟨decide_eq_false fun h => h hlocal, decide_eq_false fun h => h hretain, hhandling⟩
  · show _ = (writeBinaryData topic ++ [_]).length
    rw [List.length_append, List.length_singleton]
    omega

/-- SUBSCRIBE and UNSUBSCRIBE: a packet identifier, then the rest read whole. -/
theorem returns_identified {α : Type} {mk : α → Packet} {r : UInt16 → Read α}
    (h : ∀ packetID, packetID ≠ 0 → Returns (r packetID) fun p k => (mk p).Decoded version (2 + k)) :
    Returns (do
      failIf (fh.remainingLength < 2) .malformedPacket
      let packetID ← readPacketID
      let data ← readFull (fh.remainingLength - 2)
      inside data (r packetID)) fun p k => (mk p).Decoded version k := by
  refine returns_failIf.bind fun _ k₀ h₀ => ?_
  refine returns_readPacketID.bind fun packetID k₁ h₁ => ?_
  refine (returns_buffered (Q := fun p k => (mk p).Decoded version (2 + k)) ?_
    (h packetID h₁.1)).mono ?_
  · exact fun _ _ _ hij => Packet.Decoded.mono (Nat.add_le_add_left hij 2)
  · rintro p k ⟨hdecoded, -⟩
    exact hdecoded.mono (by omega)

theorem returns_decodeSubscribe :
    Returns (decodeSubscribe version fh) fun p k => (Packet.subscribe p).Decoded version k := by
  refine returns_identified fun packetID hid => ?_
  refine (returns_readPropertySection version .subscribe).bind fun props k₂ h₂ => ?_
  refine (returns_untilEmpty_snoc (decodeFilter_takes (packetSubID props))
    (returns_decodeFilter (packetSubID props))).bind fun topics k₃ h₃ => ?_
  refine returns_failIf.bind fun _ k₄ h₄ => Returns.pure ?_
  obtain ⟨hok, hplain, hlen⟩ := h₂
  refine ⟨⟨hid, hok, fun f hf => (h₃.1 f hf).1, h₄.1⟩, ⟨hplain.fits, fun f hf => (h₃.1 f hf).2⟩,
    ?_, fun _ => ?_⟩
  · show (writeUint16 packetID ++ (sectionPart version props ++ topics.flatMap filterBytes)).length ≤ _
    rw [length_packetID_append, List.length_append]
    omega
  · simp only [Packet.canon, Packet.erase, SubscribePacket.canon, hplain.canonSection_eq]

theorem returns_decodeUnsubscribe :
    Returns (decodeUnsubscribe version fh) fun p k => (Packet.unsubscribe p).Decoded version k := by
  refine returns_identified fun packetID hid => ?_
  refine (returns_readPropertySection version .unsubscribe).bind fun props k₂ h₂ => ?_
  have htopic : ∀ x, Returns (decodeTopic x) fun y k =>
      ∃ t, y = x ++ [t] ∧ WireString t ∧ k = (writeBinaryData t).length := by
    intro x
    refine returns_readStringFromReader.bind fun t k hk => Returns.pure ?_
    exact ⟨t, rfl, hk.1, hk.2⟩
  refine (returns_untilEmpty_snoc decodeTopic_takes htopic).bind fun topics k₃ h₃ => ?_
  refine returns_failIf.bind fun _ k₄ h₄ => Returns.pure ?_
  obtain ⟨hok, hplain, hlen⟩ := h₂
  refine ⟨⟨hid, hok, h₃.1, h₄.1⟩, hplain.fits, ?_, fun _ => ?_⟩
  · show (writeUint16 packetID ++
      (sectionPart version props ++ topics.flatMap writeBinaryData)).length ≤ _
    rw [length_packetID_append, List.length_append]
    omega
  · simp only [Packet.canon, Packet.erase, UnsubscribePacket.canon, hplain.canonSection_eq]

/-- A SUBACK or an UNSUBACK; an MQTT 5.0 one may end before its property section. -/
theorem returns_decodeCodes :
    Returns (decodeCodes locus version fh) fun p k => p.Encodable version locus ∧
      SectionPlain locus p.properties ∧ (p.layout version).length ≤ max k 3 ∧
        (fh.remainingLength = 2 → p.reasonCodes = [] ∧ p.properties = none) := by
  refine returns_failIf.bind fun _ k₀ h₀ => ?_
  refine returns_readPacketID.bind fun packetID k₁ h₁ => ?_
  refine Returns.bind (P := fun r k => SectionOk version locus r.1 ∧ SectionPlain locus r.1 ∧
    (sectionPart version r.1 ++ r.2).length ≤ max k 1 ∧
      (fh.remainingLength = 2 → r = (none, []))) ?_ fun body k₂ h₂ => Returns.pure ?_
  · refine returns_readIf (fun hpos => ?_) fun _ => ?_
    · refine (returns_buffered (fun _ _ _ hij h =>
        ⟨h.1, h.2.1, Nat.le_trans h.2.2.1 (max_le_max_right 1 hij), h.2.2.2⟩) ?_).mono
          fun _ _ h => h.1
      refine (returns_readPropertySection version locus).bind fun props j₁ g₁ => ?_
      refine returns_rest.bind fun reasonCodes j₂ g₂ => Returns.pure ?_
      obtain ⟨hok, hplain, hlen⟩ := g₁
      refine ⟨hok, hplain, ?_, fun h => absurd hpos (by omega)⟩
      show (sectionPart version props ++ reasonCodes).length ≤ _
      rw [List.length_append]
      omega
    · obtain ⟨hok, hlen⟩ := sectionOk_none version locus
      refine ⟨hok, sectionPlain_none locus, ?_, fun _ => rfl⟩
      rwa [List.append_nil]
  obtain ⟨hok, hplain, hlen, hshort⟩ := h₂
  refine ⟨⟨h₁.1, hok⟩, hplain, ?_, fun h => ?_⟩
  · show (writeUint16 packetID ++ (sectionPart version body.1 ++ body.2)).length ≤ _
    rw [length_packetID_append]
    omega
  · rw [hshort h]
    exact ⟨rfl, rfl⟩

theorem returns_decodeSubAck :
    Returns (decodeSubAck version fh) fun p k => (Packet.subAck p).Decoded version k := by
  refine (returns_decodeCodes .subAck).mono ?_
  rintro p k ⟨hok, hplain, hlen, -⟩
  refine ⟨hok, hplain.fits, hlen, fun _ => ?_⟩
  simp only [Packet.canon, Packet.erase, SubAckPacket.canon, hplain.canonSection_eq]

theorem returns_decodeUnsubAck :
    Returns (decodeUnsubAck version fh) fun p k => (Packet.unsubAck p).Decoded version k := by
  refine returns_failIf.bind fun _ k₀ h₀ => ?_
  refine (returns_decodeCodes .unsubAck).mono ?_
  rintro p k ⟨hok, hplain, hlen, hshort⟩
  refine ⟨⟨fun hspec => hshort (not_not.mp fun h => h₀.1 ⟨hspec, h⟩), hok⟩, hplain.fits, ?_,
    fun _ => ?_⟩
  · show (p.layout version).length ≤ _
    omega
  · simp only [Packet.canon, Packet.erase, SubAckPacket.canon, hplain.canonSection_eq]

theorem returns_decodePing : Returns (decodePing fh) fun fh' k => fh' = fh ∧ k = 0 := by
  refine returns_failIf.bind fun _ k₀ h₀ => Returns.pure ⟨rfl, ?_⟩
  omega

theorem returns_decodeBody (hqos : fh.packetType = .publish → fh.qos ≤ 2) :
    Returns (decodeBody version fh) fun p k => p.Decoded version k ∧ p.goType = fh.packetType := by
  unfold decodeBody
  split <;> rename_i htype
  · exact returns_decodeConnAck.map fun _ _ h => ⟨h, htype.symm⟩
  · exact (returns_decodePublish (hqos htype)).map fun _ _ h => ⟨h, htype.symm⟩
  · exact returns_decodeAck.map fun _ _ h => ⟨AckPacket.decoded (.inl rfl) h, htype.symm⟩
  · exact returns_decodeAck.map fun _ _ h => ⟨AckPacket.decoded (.inr (.inl rfl)) h, htype.symm⟩
  · exact returns_decodeAck.map fun _ _ h =>
      ⟨AckPacket.decoded (.inr (.inr (.inl rfl))) h, htype.symm⟩
  · exact returns_decodeAck.map fun _ _ h =>
      ⟨AckPacket.decoded (.inr (.inr (.inr rfl))) h, htype.symm⟩
  · exact returns_decodeSubscribe.map fun _ _ h => ⟨h, htype.symm⟩
  · exact returns_decodeSubAck.map fun _ _ h => ⟨h, htype.symm⟩
  · exact returns_decodeUnsubscribe.map fun _ _ h => ⟨h, htype.symm⟩
  · exact returns_decodeUnsubAck.map fun _ _ h => ⟨h, htype.symm⟩
  · exact returns_decodePing.map fun _ _ _ =>
      ⟨⟨trivial, trivial, Nat.zero_le _, fun _ => rfl⟩, htype.symm⟩
  · exact returns_decodePing.map fun _ _ _ =>
      ⟨⟨trivial, trivial, Nat.zero_le _, fun _ => rfl⟩, htype.symm⟩
  · exact returns_decodeDisconnect.map fun _ _ h => ⟨h, htype.symm⟩
  · exact returns_decodeAuth.map fun _ _ h => ⟨h, htype.symm⟩
  · exact Returns.throw
  · exact Returns.throw

end Decoders

/-! ## CONNECT -/

/-- Without the reserved flag, which only `ValidateConnect` looks at. -/
def ConnectPacket.unreserved (p : ConnectPacket) : ConnectPacket :=
  { p with flags := { p.flags with reserved := false } }

theorem ConnectPacket.unreserved_eq (p : ConnectPacket) (h : p.flags.reserved = false) :
    p.unreserved = p := by
  rw [unreserved, ← h]

/-- A CONNECT as the decoder returns it. -/
structure ConnectPacket.Decoded (p : ConnectPacket) (n : ℕ) : Prop where
  encodable : p.Encodable
  fits : p.unreserved.Fits
  size : p.layout.length ≤ n
  plain : (p.flags.willFlag = false → p.flags.willQoS = 0) →
    (Packet.connect p).canon p.protocolVersion = (Packet.connect p).erase

theorem returns_readWill :
    Returns (readWill version) fun w k => SectionOk version .will w.1 ∧ SectionPlain .will w.1 ∧
      WireString w.2.1 ∧ w.2.2.length ≤ maxUint16 ∧ (sectionPart version w.1 ++
        (writeBinaryData w.2.1 ++ writeBinaryData w.2.2)).length ≤ k := by
  refine (returns_readPropertySection version .will).bind fun props k₁ h₁ => ?_
  refine returns_readString.bind fun topic k₂ h₂ => ?_
  refine returns_readBlob.bind fun message k₃ h₃ => Returns.pure ?_
  obtain ⟨hok, hplain, hlen⟩ := h₁
  refine ⟨hok, hplain, h₂.1, h₃.1, ?_⟩
  show (sectionPart version props ++ (writeBinaryData topic ++ writeBinaryData message)).length ≤ _
  rw [List.length_append, List.length_append]
  omega

/-- A field that is there when its flag is. -/
theorem returns_optional {c : Prop} [Decidable c] {r : Read α} {d : α} {P : α → Prop}
    {bytes : α → Bytes} (h : Returns r fun a k => P a ∧ (bytes a).length ≤ k) :
    Returns (readIf c r d) fun a k => (c → P a) ∧ (¬ c → a = d) ∧
      (if c then bytes a else []).length ≤ k := by
  refine returns_readIf (fun hc => h.mono ?_) fun hc => ?_
  · rintro a k ⟨hP, hlen⟩
    rw [if_pos hc]
    exact ⟨fun _ => hP, fun h => absurd hc h, hlen⟩
  · rw [if_neg hc]
    exact ⟨fun h => absurd h hc, fun _ => rfl, Nat.le_refl 0⟩

theorem returns_connectTail {protoName : Str} (protoVer : UInt8) (hname : WireString protoName) :
    Returns (connectTail fh protoName protoVer) fun p k =>
      p.Decoded ((writeBinaryData protoName).length + 1 + k) := by
  refine returns_readByte.bind fun flagsByte k₁ h₁ => ?_
  have hqos : (parseConnectFlags flagsByte).willQoS ≤ 3 := Nat.and_le_right
  have htopicFlag : (parseConnectFlags flagsByte).willTopicFlag =
      (parseConnectFlags flagsByte).willFlag := rfl
  generalize parseConnectFlags flagsByte = flags at hqos htopicFlag
  refine returns_readUint16.bind fun keepAlive k₂ h₂ => ?_
  refine (returns_readPropertySection protoVer .connect).bind fun props k₃ h₃ => ?_
  refine returns_readString.bind fun clientID k₄ h₄ => ?_
  have hwillRead := (returns_readWill protoVer).mono fun w k h => And.intro
    (And.intro h.1 (And.intro h.2.1 (And.intro h.2.2.1 h.2.2.2.1))) h.2.2.2.2
  refine (returns_optional hwillRead).bind fun will k₅ h₅ => ?_
  refine (returns_optional (returns_readString.mono fun _ _ h =>
    ⟨h.1, Nat.le_of_eq h.2.symm⟩)).bind fun username k₆ h₆ => ?_
  refine (returns_optional (returns_readBlob.mono fun _ _ h =>
    ⟨h.1, Nat.le_of_eq h.2.symm⟩)).bind fun password k₇ h₇ => ?_
  refine returns_noneLeft.bind fun _ k₈ h₈ => Returns.pure ?_
  obtain ⟨hok, hplain, hlen₃⟩ := h₃
  obtain ⟨hwill, hnoWill, hlen₅⟩ := h₅
  obtain ⟨husername, hnoUsername, hlen₆⟩ := h₆
  obtain ⟨hpassword, hnoPassword, hlen₇⟩ := h₇
  refine ⟨⟨hname, hok, h₄.1, fun hw => ⟨(hwill hw).1, (hwill hw).2.2.1, (hwill hw).2.2.2⟩,
      husername, hpassword⟩,
    ⟨hplain.fits, fun hw => (hwill hw).2.1.fits, fun hw => htopicFlag.trans hw, fun _ => hqos,
      rfl⟩, ?_, fun hnoQoS => ?_⟩
  · simp only [ConnectPacket.layout, ConnectPacket.tailLayout, ConnectPacket.willPart]
    simp only [List.length_append, writeUint16, length_bigEndian, List.length_singleton]
    omega
  · have hflags : flags.canon = flags := by
      unfold ConnectFlags.canon
      split
      · rfl
      · rename_i hoff
        have hwillFlag : flags.willFlag = false := eq_false_of_ne_true hoff
        have hq : flags.willQoS = 0 := hnoQoS hwillFlag
        rw [hwillFlag] at htopicFlag
        rw [← hq, ← htopicFlag]
    have hwillPlain : SectionPlain .will will.1 := by
      by_cases hw : flags.willFlag = true
      · exact (hwill hw).2.1
      · rw [hnoWill hw]
        exact sectionPlain_none .will
    -- a field whose flag is off has been left at its default
    have hdefault : ∀ {α : Type} {c : Prop} [Decidable c] {a d : α}, (¬ c → a = d) →
        (if c then a else d) = a := by
      intro α c _ a d h
      split
      · rfl
      · rename_i hc
        exact (h hc).symm
    have hprops : (if flags.willFlag = true then canonSection will.1 else none) =
        eraseSection will.1 := by
      rw [← hwillPlain.canonSection_eq]
      exact hdefault fun hw => by rw [hnoWill hw]; rfl
    simp only [Packet.canon, Packet.erase, ConnectPacket.canon, hflags, hplain.canonSection_eq,
      hprops, hdefault hnoUsername, hdefault hnoPassword]
    rw [hdefault fun hw => by rw [hnoWill hw], hdefault fun hw => by rw [hnoWill hw]]

theorem ConnectPacket.Decoded.mono {p : ConnectPacket} {i j : ℕ} (hij : i ≤ j)
    (h : p.Decoded i) : p.Decoded j :=
  ⟨h.encodable, h.fits, Nat.le_trans h.size hij, h.plain⟩

theorem returns_decodeConnect :
    Returns (decodeConnect fh) fun r k => ∀ p, r.2 = .ok p → p.Decoded k := by
  refine returns_readFull.bind fun buf k₁ h₁ => ?_
  have hhead : Returns (do
      let head ← connectHead
      let body ← rest
      pure (head, body) : Read ((Str × UInt8) × Bytes)) fun r k =>
        WireString r.1.1 ∧ k = (writeBinaryData r.1.1).length + 1 + r.2.length := by
    have hfields : Returns connectHead fun r k =>
        WireString r.1 ∧ k = (writeBinaryData r.1).length + 1 := by
      refine returns_readString.bind fun name j₁ g₁ => ?_
      refine returns_readByte.bind fun ver j₂ g₂ => Returns.pure ⟨g₁.1, ?_⟩
      show _ = (writeBinaryData name).length + 1
      omega
    refine hfields.bind fun head j₁ g₁ => ?_
    refine returns_rest.bind fun body j₂ g₂ => Returns.pure ⟨g₁.1, ?_⟩
    show _ = (writeBinaryData head.1).length + 1 + body.length
    omega
  refine (returns_inside hhead).bind fun head k₂ h₂ => Returns.pure ?_
  obtain ⟨⟨j, hj, hname, hlen⟩, -⟩ := h₂
  intro p hp
  rcases htail : connectTail fh head.1.1 head.1.2 head.2 with ⟨res, left⟩
  rw [htail] at hp
  have hok : connectTail fh head.1.1 head.1.2 head.2 = (.ok p, left) := by
    rw [htail]
    exact congrArg (·, left) hp
  obtain ⟨used, hbody, hdec⟩ := returns_connectTail head.1.2 hname head.2 p left hok
  refine hdec.mono ?_
  have hused : head.2.length = used.length + left.length := by rw [hbody, List.length_append]
  omega

theorem ConnectFlags.willQoS_of_canon {f : ConnectFlags} (h : f.canon = f)
    (hwill : f.willFlag = false) : f.willQoS = 0 := by
  rw [← h, ConnectFlags.canon, if_neg (by simp [hwill])]

theorem ConnectFlags.canon_reserved (f : ConnectFlags) : f.canon.reserved = f.reserved := by
  unfold ConnectFlags.canon
  split <;> rfl

/-! ## Whole packets -/

/-- One check of `ValidateConnect`. -/
theorem of_check {c : Prop} [Decidable c] {e : α} {o : Option α}
    (h : (if c then some e else o) = none) : ¬ c ∧ o = none := by
  split at h
  · cases h
  · rename_i hc
    exact ⟨hc, h⟩

/-- What `ValidateConnect` checks that the decoder does not. -/
def ConnectFlags.Plain (f : ConnectFlags) : Prop :=
  f.reserved = false ∧ (f.willFlag = false → f.willQoS = 0)

theorem validateConnect_ok {p : ConnectPacket} (h : validateConnect p = none) : p.flags.Plain := by
  obtain ⟨-, h⟩ := of_check h
  obtain ⟨-, h⟩ := of_check h
  obtain ⟨-, h⟩ := of_check h
  obtain ⟨-, h⟩ := of_check h
  obtain ⟨hreserved, h⟩ := of_check h
  obtain ⟨-, h⟩ := of_check h
  obtain ⟨hqos, -⟩ := of_check h
  refine ⟨eq_false_of_ne_true hreserved, fun hwill => ?_⟩
  refine not_not.mp fun hne => hqos ⟨?_, hne⟩
  rw [hwill]
  exact Bool.noConfusion

theorem returns_decodeHeader (c : Codec) :
    Returns c.decodeHeader fun fh _ => validateFixedHeaderFlags fh = none ∧
      fh.remainingLength ≤ maxRemainingLength ∧ fh.qos ≤ 3 := by
  have hfixed : Returns decodeFixedHeader fun fh _ => fh.qos ≤ 3 := by
    refine returns_readByte.bind fun b k₁ h₁ => ?_
    refine (takes_readBase128 (Nat.le_refl 4) (by decide)).returns.bind fun len k₂ h₂ => Returns.pure ?_
    have hand : ((b >>> 1) &&& 0x03).toNat ≤ 3 := by exact Nat.and_le_right
    exact hand
  refine hfixed.bind fun fh k₁ h₁ => ?_
  refine returns_failWith.bind fun _ k₂ h₂ => ?_
  refine returns_failIf.bind fun _ k₃ h₃ => ?_
  refine returns_failIf.bind fun _ k₄ h₄ => Returns.pure ?_
  exact ⟨h₂.1, Nat.not_lt.mp h₃.1, h₁⟩

theorem publishQoS_le_two (hflags : validateFixedHeaderFlags fh = none) (hqos : fh.qos ≤ 3)
    (htype : fh.packetType = .publish) : fh.qos ≤ 2 := by
  have hne := (flags_of_valid hflags).1 htype
  have hne' : fh.qos.toNat ≠ 3 := fun h => hne (UInt8.toNat_inj.mp h)
  have hle : fh.qos.toNat ≤ 3 := hqos
  show fh.qos.toNat ≤ 2
  omega

/-- A packet as `Decode` returns it. -/
structure Packet.Returned (version : UInt8) (p : Packet) : Prop where
  type : p.fixedHeader.packetType = p.goType
  flags : validateFixedHeaderFlags p.fixedHeader = none
  length : p.fixedHeader.remainingLength ≤ maxRemainingLength
  other : p.goType ≠ .connect → p.Decoded version p.fixedHeader.remainingLength
  connect : ∀ q, p = .connect q → q.Decoded q.fixedHeader.remainingLength

theorem Codec.decode_returned {c c' : Codec} {s left : Bytes} (h : c.decode s = (.ok p, c', left)) :
    p.Returned c.protocolVersion := by
  rcases hhead : c.decodeHeader s with ⟨e | fh, body⟩
  · rw [decode_of_header_error hhead] at h
    cases h
  · rw [decode_of_header hhead] at h
    obtain ⟨-, -, hflags, hmax, hqos⟩ := returns_decodeHeader c s fh body hhead
    obtain ⟨rfl, used, hbody, hlen, -⟩ := decodePacket_ok h
    -- both accounts of what was taken split the same stream
    have hsame : ∀ {used' : Bytes}, body = used' ++ left → used'.length = used.length := by
      intro used' hbody'
      have heq := congrArg List.length (hbody.symm.trans hbody')
      rw [List.length_append, List.length_append] at heq
      omega
    rcases decodePacket_cases h with ⟨v, q, hconn, rfl, rfl, hdec⟩ | ⟨hconn, rfl, hdec⟩
    · obtain ⟨used', hbody', hq⟩ := returns_decodeConnect body _ _ hdec
      refine ⟨hconn, hflags, hmax, fun h => absurd rfl h, ?_⟩
      intro q' hq'
      cases hq'
      have hdecoded := hq q rfl
      rw [hsame hbody', hlen] at hdecoded
      exact hdecoded
    · obtain ⟨used', hbody', hdecoded, htype⟩ :=
        returns_decodeBody (publishQoS_le_two hflags hqos) body p left hdec
      rw [hsame hbody', hlen] at hdecoded
      refine ⟨htype.symm, hflags, hmax, fun _ => hdecoded, ?_⟩
      intro q hq
      exact absurd (hq ▸ htype.symm) hconn

namespace Packet.Returned

variable {version : UInt8} {p : Packet}

/-- The version of the packet is that of the codec, a CONNECT's apart. -/
theorem decoded {c : Codec} (h : p.Returned version) (hversion : c.protocolVersion = version)
    (hconnect : ∀ q, p = .connect q → q.flags.Plain) :
    p.Decoded (c.versionFor p) p.fixedHeader.remainingLength := by
  by_cases hconn : p.goType = .connect
  · cases p with
    | connect q =>
      have hq := h.connect q rfl
      obtain ⟨hreserved, hqos⟩ := hconnect q rfl
      have hfits : q.Fits := q.unreserved_eq hreserved ▸ hq.fits
      exact ⟨hq.encodable, hfits, Nat.le_trans hq.size (Nat.le_max_left _ 3),
        fun _ => hq.plain hqos⟩
    | _ => cases hconn
  · rw [c.versionFor_other hconn, hversion]
    exact h.other hconn

/-- From 3.1.1 on, such a packet differs from its canonical form in empty records only. -/
theorem canon_eq_erase {c : Codec} (h : p.Returned c.protocolVersion)
    (hversion : c.protocolVersion = version311 ∨ c.protocolVersion = version50)
    (hconnect : ∀ q, p = .connect q → q.flags.Plain) : p.canon (c.versionFor p) = p.erase := by
  refine (h.decoded rfl hconnect).plain fun hack => ?_
  have hother : p.goType ≠ .connect := by
    rw [hack]
    decide
  rw [c.versionFor_other hother]
  rcases hversion with hv | hv
  · rw [hv]
    rfl
  · rw [hv]
    rfl

end Packet.Returned

theorem Packet.canon_versionFor (c : Codec) {q : Packet} (h : q.goType = p.goType) :
    q.canon (c.versionFor p) = q.canon (c.versionFor q) := by
  by_cases hconn : q.goType = .connect
  · cases q with
    | connect q => rfl
    | _ => cases hconn
  · rw [c.versionFor_other hconn, c.versionFor_other fun hp => hconn (h.trans hp)]

namespace Codec

/-- **What was decoded can be encoded, and decodes to the same packet.** For a codec of
version 3.1.1 or 5.0, and a CONNECT that `ValidateConnect` accepts: `Encode` writes the
packet unless an outbound limit forbids it, and every codec of the version whose limit
admits the result reads the packet back from it. -/
theorem encode_decoded {c c' : Codec} {b left : Bytes} {p : Packet}
    (hversion : c.protocolVersion = version311 ∨ c.protocolVersion = version50)
    (hdec : c.decode b = (.ok p, c', left))
    (hconnect : ∀ q, p = .connect q → validateConnect q = none) :
    ∃ bs, (∀ enc : Codec, enc.protocolVersion = c.protocolVersion →
        (enc.outboundMax = 0 ∨ bs.length ≤ enc.outboundMax) → (enc.encode p).1 = .ok bs) ∧
      ∀ dec : Codec, dec.protocolVersion = c.protocolVersion → bs.length ≤ dec.maxPacketSize →
        ∀ t, ∃ q dec', dec.decode (bs ++ t) = (.ok q, dec', t) ∧ q.erase = p.erase := by
  have hp := decode_returned hdec
  have hdecoded := fun (k : Codec) hk =>
    hp.decoded (c := k) hk fun q hq => validateConnect_ok (hconnect q hq)
  have hself := hdecoded c rfl
  have hmax : (p.layout (c.versionFor p)).length ≤ maxRemainingLength := by
    have hlen := hself.size
    have hrl := hp.length
    have hthree : 3 ≤ maxRemainingLength := by decide
    omega
  -- codecs of one version agree on the version of the packet
  have hsame : ∀ k : Codec, k.protocolVersion = c.protocolVersion →
      k.versionFor p = c.versionFor p := fun k hk => versionFor_congr hk p
  refine ⟨frame p.fixedHeader (p.layout (c.versionFor p)), ?_, ?_⟩
  · intro enc henc hout
    have hheader := headerOut_eq hp.type hp.flags
    have hok := (hdecoded enc henc).encodable
    rw [← hsame enc henc] at hout ⊢
    rw [← hheader] at hout ⊢
    exact encode_eq_ok hp.flags hok hout
  · intro dec hdec' hlimit t
    have hd := hdecoded dec hdec'
    rw [← hsame dec hdec'] at hlimit hmax ⊢
    obtain ⟨q, hq, hcanon, hflags⟩ := decode_frame hp.type hp.flags hd.encodable hd.fits hmax hlimit
    refine ⟨q, _, hq t, ?_⟩
    have hqtype := Packet.goType_of_canon hcanon
    have hvalid : ∀ r, q = .connect r → r.flags.Plain := by
      intro r hr
      have hplain := hflags r hr
      refine ⟨?_, ConnectFlags.willQoS_of_canon hplain⟩
      subst hr
      cases p with
      | connect p =>
        have hsame : r.flags.canon = p.flags.canon := congrArg ConnectPacket.flags
          (Packet.connect.inj hcanon)
        rw [← hplain, hsame, ConnectFlags.canon_reserved]
        exact (validateConnect_ok (hconnect p rfl)).1
      | _ => cases hqtype
    have hqerase := (decode_returned (hq t)).canon_eq_erase (hdec' ▸ hversion) hvalid
    have hperase := (hdec' ▸ hp : p.Returned dec.protocolVersion).canon_eq_erase (hdec' ▸ hversion)
      fun r hr => validateConnect_ok (hconnect r hr)
    rw [← hqerase, ← hperase, ← hcanon, Packet.canon_versionFor dec hqtype]

/-- An MQTT 5.0 CONNECT without a client identifier, for a session of ten seconds. -/
theorem encode_decoded_connect :
    ∃ bs, (∀ enc : Codec, enc.protocolVersion = version50 →
        (enc.outboundMax = 0 ∨ bs.length ≤ enc.outboundMax) →
        (enc.encode (.connect
          { fixedHeader := { packetType := .connect, remainingLength := 18, headerSize := 2 }
            protocolName := protocolNameMQTT, protocolVersion := version50
            flags := { cleanSession := true }, keepAlive := 60, clientID := []
            properties := some { sessionExpiryInterval := some 10 } })).1 = .ok bs) ∧
      ∀ dec : Codec, dec.protocolVersion = version50 → bs.length ≤ dec.maxPacketSize →
        ∀ t, ∃ q dec', dec.decode (bs ++ t) = (.ok q, dec', t) ∧ q.erase = .connect
          { fixedHeader := { packetType := .connect }
            protocolName := protocolNameMQTT, protocolVersion := version50
            flags := { cleanSession := true }, keepAlive := 60, clientID := []
            properties := some { sessionExpiryInterval := some 10 } } :=
  encode_decoded (c := .newForVersion 0 version50)
    (b := [0x10, 0x12, 0x00, 0x04, 0x4D, 0x51, 0x54, 0x54, 0x05, 0x02, 0x00, 0x3C,
      0x05, 0x11, 0x00, 0x00, 0x00, 0x0A, 0x00, 0x00])
    (.inr rfl) rfl (by
      intro q hq
      cases hq
      rfl)

end Codec

end SharkMqtt.Protocol
