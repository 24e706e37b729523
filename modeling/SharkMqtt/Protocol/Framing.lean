import SharkMqtt.Protocol.Codec

/-!
# Framing

`Decode` reads from a connection on which the next packet may follow at once, so what
it takes off the stream matters as much as what it returns. Every decoder is framed by
Remaining Length: it takes exactly that many bytes when it returns a packet, never
more when it fails, and never looks further. PUBLISH is the one that reads nested
fields straight off the stream; its bound on the topic length is what keeps it inside.

The three facts of one `Decode` (`decode_ok`, `decode_error`) then carry over to a
stream of frames by induction (`decodeMany_accepted`).
-/

namespace SharkMqtt.Protocol

open Lib Lib.Reader

/-! ## The fixed header -/

theorem takes_decodeFixedHeader : Takes 5 (fun fh k => k = fh.headerSize) decodeFixedHeader := by
  refine (takes_next (by omega)).bind fun b k hk _ => ?_
  subst hk
  refine (takes_readBase128 (by omega) (by decide)).bind fun len j hj _ => Takes.pure ?_
  show 1 + (j + 0) = 1 + len.2
  omega

theorem decodeHeader_ok {c : Codec} {s body : Bytes} {fh : FixedHeader}
    (h : c.decodeHeader s = (.ok fh, body)) : decodeFixedHeader s = (.ok fh, body) := by
  obtain ⟨fh', mid, hfixed, hrest⟩ := of_bind_ok h
  obtain ⟨_, mid₁, hflags, hrest⟩ := of_bind_ok hrest
  obtain ⟨_, mid₂, hmax, hrest⟩ := of_bind_ok hrest
  obtain ⟨_, mid₃, hsize, hrest⟩ := of_bind_ok hrest
  cases hrest
  obtain ⟨u₁, h₁, -, hu₁⟩ := returns_failWith _ _ _ hflags
  obtain ⟨u₂, h₂, -, hu₂⟩ := returns_failIf _ _ _ hmax
  obtain ⟨u₃, h₃, -, hu₃⟩ := returns_failIf _ _ _ hsize
  rw [List.length_eq_zero_iff] at hu₁ hu₂ hu₃
  subst hu₁ hu₂ hu₃
  rw [hfixed, h₁, h₂, h₃]
  rfl

theorem takes_decodeHeader (c : Codec) :
    Takes 5 (fun fh k => k = fh.headerSize) c.decodeHeader := by
  refine takes_decodeFixedHeader.bind fun fh k hk _ => ?_
  refine takes_failWith.bind fun _ k₁ h₁ _ => ?_
  refine Takes.after_failIf fun _ => Takes.after_failIf fun _ => Takes.pure ?_
  omega

/-! ## Bodies -/

/-- The outcome every decoder is held to: the header it was given, and exactly the
body. -/
def Exact (fh : FixedHeader) (header : FixedHeader) (k : ℕ) : Prop :=
  header = fh ∧ k = fh.remainingLength

/-- A body that is read whole and then parsed. -/
theorem takes_buffered {n : ℕ} {α : Type} {Q : α → Prop} {r : Bytes → Read α}
    (h : ∀ buf, Yields (r buf) Q) :
    Takes n (fun a k => Q a ∧ k = n) (do let buf ← readFull n; inside buf (r buf)) := by
  refine (takes_readFull (Nat.le_refl n)).bind fun buf k hk _ => ?_
  refine (takes_inside (h buf)).mono (Nat.le_refl _) ?_
  rintro a j ⟨hQ, rfl⟩
  exact ⟨hQ, hk.2⟩

theorem takes_readPacketID {n : ℕ} (h : 2 ≤ n) : Takes n (fun _ k => k = 2) readPacketID := by
  refine (takes_readUint16 h).bind fun id k hk _ => ?_
  exact Takes.after_failIf fun _ => Takes.pure hk

section Bodies

variable (version : UInt8) (fh : FixedHeader)

theorem takes_decodeConnect :
    Takes fh.remainingLength (fun r k => (∀ p, r.2 = .ok p → p.fixedHeader = fh) ∧
      k = fh.remainingLength) (decodeConnect fh) := by
  refine (takes_readFull (Nat.le_refl _)).bind fun buf k hk _ => ?_
  have hhead : Yields (do let head ← connectHead
                          let body ← rest
                          pure (head, body) : Read ((Str × UInt8) × Bytes)) fun _ => True :=
    Yields.bind fun _ => Yields.bind fun _ => Yields.pure trivial
  refine (takes_inside hhead).bind fun head j hj _ => Takes.pure ?_
  refine ⟨fun p hp => ?_, by omega⟩
  have htail : Yields (connectTail fh head.1.1 head.1.2) fun p => p.fixedHeader = fh := by
    refine Yields.bind fun _ => Yields.bind fun _ => Yields.bind fun _ => ?_
    refine Yields.bind fun _ => Yields.bind fun _ => Yields.bind fun _ => ?_
    exact Yields.bind fun _ => Yields.bind fun _ => Yields.pure rfl
  exact htail head.2 p (connectTail fh head.1.1 head.1.2 head.2).2 (Prod.ext hp rfl)

theorem takes_decodeConnAck :
    Takes fh.remainingLength (fun p k => Exact fh p.fixedHeader k) (decodeConnAck version fh) := by
  refine takes_buffered fun buf => ?_
  refine Yields.bind fun _ => Yields.bind fun _ => Yields.bind fun _ => ?_
  exact Yields.bind fun _ => Yields.pure rfl

theorem takes_readPublishID {n : ℕ} {headerBytes : ℕ} (h : fh.remainingLength = n + headerBytes) :
    Takes n (fun _ k => k = if 0 < fh.qos then 2 else 0) (readPublishID fh headerBytes) := by
  refine takes_readIf (fun hqos => ?_) fun hqos => (if_neg hqos).symm
  refine Takes.after_failIf fun hroom => (takes_readPacketID (by omega)).mono (Nat.le_refl _) ?_
  intro _ k hk
  rw [if_pos hqos]
  exact hk

theorem takes_readPublishBody (left : ℕ) :
    Takes left (fun _ k => k = left) (readPublishBody version left) := by
  unfold readPublishBody
  split
  · have hbody : ∀ buf : Bytes, Yields (do
        let props ← mapError (.wrap "decode properties") (decodeProperties .publish)
        let payload ← rest
        pure (props, payload) : Read (Option Properties × Bytes)) fun _ => True :=
      fun _ => Yields.bind fun _ => Yields.bind fun _ => Yields.pure trivial
    exact (takes_buffered hbody).mono (Nat.le_refl _) fun _ _ h => h.2
  · refine (takes_readFull (Nat.le_refl _)).bind fun payload k hk _ => Takes.pure hk.2

/-- PUBLISH: topic, packet identifier and the rest add up to Remaining Length. -/
theorem takes_decodePublish :
    Takes fh.remainingLength (fun p k => Exact fh p.fixedHeader k) (decodePublish version fh) := by
  refine Takes.after_failIf fun hmin => ?_
  have hroom : 2 + (fh.remainingLength - 2) ≤ fh.remainingLength := by omega
  refine (takes_readStringBounded hroom).bind fun topic k₁ h₁ _ => ?_
  obtain ⟨-, htopic, rfl⟩ := h₁
  refine (takes_readPublishID fh (by omega)).bind fun packetID k₂ h₂ _ => ?_
  refine Takes.after_failIf fun hbytes => ?_
  have hleft : fh.remainingLength - (2 + topic.length) - k₂ =
      fh.remainingLength - (2 + topic.length + if 0 < fh.qos then 2 else 0) := by omega
  rw [hleft]
  refine (takes_readPublishBody version _).bind fun body k₄ h₄ _ => ?_
  refine Takes.after_failIf fun _ => Takes.pure ⟨rfl, ?_⟩
  omega

theorem takes_decodeAck :
    Takes fh.remainingLength (fun p k => Exact fh p.fixedHeader k) (decodeAck version fh) := by
  refine Takes.after_failIf fun _ => Takes.after_failIf fun _ => takes_buffered fun _ => ?_
  refine Yields.bind fun _ => Yields.bind fun _ => Yields.bind fun _ => ?_
  exact Yields.bind fun _ => Yields.bind fun _ => Yields.pure rfl

/-- SUBSCRIBE and UNSUBSCRIBE: a packet identifier, then the rest read whole. -/
theorem takes_identified {α : Type} {f : α → FixedHeader} {r : UInt16 → Read α}
    (h : ∀ packetID, Yields (r packetID) fun p => f p = fh) :
    Takes fh.remainingLength (fun p k => Exact fh (f p) k) (do
      failIf (fh.remainingLength < 2) .malformedPacket
      let packetID ← readPacketID
      let data ← readFull (fh.remainingLength - 2)
      inside data (r packetID)) := by
  refine Takes.after_failIf fun hmin => ?_
  refine (takes_readPacketID (by omega)).bind fun packetID k₁ h₁ _ => ?_
  subst h₁
  refine (takes_buffered fun _ => h packetID).mono (Nat.le_refl _) ?_
  rintro p k ⟨hfh, hk⟩
  exact ⟨hfh, by omega⟩

theorem takes_decodeSubscribe :
    Takes fh.remainingLength (fun p k => Exact fh p.fixedHeader k)
      (decodeSubscribe version fh) := by
  refine takes_identified fh fun _ => ?_
  refine Yields.bind fun _ => Yields.bind fun _ => ?_
  exact Yields.bind fun _ => Yields.pure rfl

theorem takes_decodeUnsubscribe :
    Takes fh.remainingLength (fun p k => Exact fh p.fixedHeader k)
      (decodeUnsubscribe version fh) := by
  refine takes_identified fh fun _ => ?_
  refine Yields.bind fun _ => Yields.bind fun _ => ?_
  exact Yields.bind fun _ => Yields.pure rfl

theorem takes_decodeCodes (locus : Locus) :
    Takes fh.remainingLength (fun p k => Exact fh p.fixedHeader k)
      (decodeCodes locus version fh) := by
  refine Takes.after_failIf fun hmin => ?_
  refine (takes_readPacketID (by omega)).bind fun packetID k₁ h₁ _ => ?_
  subst h₁
  have hbody : Takes (fh.remainingLength - 2) (fun _ k => k = fh.remainingLength - 2)
      (readIf (0 < fh.remainingLength - 2) (do
        let data ← readFull (fh.remainingLength - 2)
        inside data (do
          let props ← readPropertySection version locus
          let reasonCodes ← rest
          pure (props, reasonCodes))) (none, [])) := by
    refine takes_readIf (fun _ => ?_) fun hzero => by omega
    refine Takes.mono (takes_buffered (Q := fun _ => True) fun _ => ?_) (Nat.le_refl _)
      fun _ _ h => h.2
    exact Yields.bind fun _ => Yields.bind fun _ => Yields.pure trivial
  exact hbody.bind fun body k₂ h₂ _ => Takes.pure ⟨rfl, by omega⟩

theorem takes_decodeReason (locus : Locus) (valid : UInt8 → Bool) :
    Takes fh.remainingLength (fun p k => Exact fh p.fixedHeader k)
      (decodeReason locus valid fh) := by
  refine takes_buffered fun _ => ?_
  refine Yields.bind fun _ => Yields.bind fun _ => ?_
  exact Yields.bind fun _ => Yields.pure rfl

theorem takes_decodePing :
    Takes fh.remainingLength (fun fh' k => Exact fh fh' k) (decodePing fh) := by
  refine Takes.after_failIf fun hempty => Takes.pure ⟨rfl, ?_⟩
  omega

/-- **Every decoder takes exactly its body.** -/
theorem takes_decodeBody :
    Takes fh.remainingLength (fun p k => Exact fh p.fixedHeader k) (decodeBody version fh) := by
  unfold decodeBody
  split
  · exact (takes_decodeConnAck version fh).map fun _ _ h => h
  · exact (takes_decodePublish version fh).map fun _ _ h => h
  · exact (takes_decodeAck version fh).map fun _ _ h => h
  · exact (takes_decodeAck version fh).map fun _ _ h => h
  · exact (takes_decodeAck version fh).map fun _ _ h => h
  · exact (takes_decodeAck version fh).map fun _ _ h => h
  · exact (takes_decodeSubscribe version fh).map fun _ _ h => h
  · exact (takes_decodeCodes version fh .subAck).map fun _ _ h => h
  · exact (takes_decodeUnsubscribe version fh).map fun _ _ h => h
  · exact (Takes.after_failIf fun _ => takes_decodeCodes version fh .unsubAck).map fun _ _ h => h
  · exact (takes_decodePing fh).map fun _ _ h => h
  · exact (takes_decodePing fh).map fun _ _ h => h
  · exact (Takes.after_failIf fun _ => takes_decodeReason fh .disconnect _).map fun _ _ h => h
  · exact (Takes.after_failIf fun _ => takes_decodeReason fh .auth _).map fun _ _ h => h
  · exact Takes.throw
  · exact Takes.throw

end Bodies

/-! ## One packet -/

namespace Codec

variable {c c' : Codec} {s body left : Bytes} {fh : FixedHeader} {p : Packet}

theorem decode_of_header (h : c.decodeHeader s = (.ok fh, body)) :
    c.decode s = c.decodePacket fh body := by
  unfold decode
  rw [h]

theorem decode_of_header_error {e : Err} (h : c.decodeHeader s = (.error e, left)) :
    c.decode s = (.error e, c, left) := by
  unfold decode
  rw [h]

theorem decodePacket_connect (h : fh.packetType = .connect) {v : UInt8}
    {res : Except Err ConnectPacket} (hdec : decodeConnect fh body = (.ok (v, res), left)) :
    c.decodePacket fh body = (res.map .connect, c.setVersion v, left) := by
  unfold decodePacket
  rw [if_pos h, hdec]

theorem decodePacket_other (h : fh.packetType ≠ .connect) (body : Bytes) : c.decodePacket fh body =
      ((decodeBody c.protocolVersion fh body).1, c, (decodeBody c.protocolVersion fh body).2) := by
  unfold decodePacket
  rw [if_neg h]

theorem decodePacket_cases (h : c.decodePacket fh body = (.ok p, c', left)) :
    (∃ v q, fh.packetType = .connect ∧ p = .connect q ∧ c' = c.setVersion v ∧
        decodeConnect fh body = (.ok (v, .ok q), left)) ∨
      (fh.packetType ≠ .connect ∧ c' = c ∧
        decodeBody c.protocolVersion fh body = (.ok p, left)) := by
  revert h
  fun_cases decodePacket c fh body with
  | case1 => rintro ⟨⟩
  | case2 hconn v res left' hdec =>
    cases res with
    | error e => rintro ⟨⟩
    | ok q =>
      rintro ⟨⟩
      exact .inl ⟨v, q, hconn, rfl, rfl, hdec⟩
  | case3 hconn res left' hdec =>
    rintro ⟨⟩
    exact .inr ⟨hconn, rfl, hdec⟩

theorem decodePacket_ok (h : c.decodePacket fh body = (.ok p, c', left)) :
    p.fixedHeader = fh ∧ ∃ used, body = used ++ left ∧ used.length = fh.remainingLength ∧
      ∀ t, c.decodePacket fh (used ++ t) = (.ok p, c', t) := by
  rcases decodePacket_cases h with ⟨v, q, hconn, rfl, rfl, hdec⟩ | ⟨hconn, rfl, hdec⟩
  · obtain ⟨used, hbody, -, ⟨hfh, hlen⟩, hparse⟩ := (takes_decodeConnect fh).onOk body _ _ hdec
    refine ⟨hfh q rfl, used, hbody, hlen, fun t => ?_⟩
    exact decodePacket_connect hconn (hparse t)
  · obtain ⟨used, hbody, -, ⟨hfh, hlen⟩, hparse⟩ :=
      (takes_decodeBody c'.protocolVersion fh).onOk body p _ hdec
    refine ⟨hfh, used, hbody, hlen, fun t => ?_⟩
    rw [decodePacket_other hconn, hparse t]

theorem decodePacket_error {e : Err} (h : c.decodePacket fh body = (.error e, c', left)) :
    ∃ used, body = used ++ left ∧ used.length ≤ fh.remainingLength := by
  revert h
  fun_cases decodePacket c fh body with
  | case1 hconn e' left' hdec =>
    rintro ⟨⟩
    exact (takes_decodeConnect fh).onError body _ _ hdec
  | case2 hconn v res left' hdec =>
    -- a CONNECT that fails after its version byte has been read whole
    intro h
    obtain ⟨used, hbody, hle, -, -⟩ := (takes_decodeConnect fh).onOk body _ left' hdec
    have hleft : left' = left := (Prod.mk.inj (Prod.mk.inj h).2).2
    exact ⟨used, hleft ▸ hbody, hle⟩
  | case3 hconn res left' hdec =>
    rintro ⟨⟩
    exact (takes_decodeBody c.protocolVersion fh).onError body _ _ hdec

/-- **One `Decode` that returns a packet.** It took the fixed header and Remaining
Length bytes, and would have done the same with anything behind them. -/
theorem decode_ok (h : c.decode s = (.ok p, c', left)) :
    ∃ header used, s = header ++ (used ++ left) ∧
      decodeFixedHeader s = (.ok p.fixedHeader, used ++ left) ∧
      header.length = p.fixedHeader.headerSize ∧ used.length = p.fixedHeader.remainingLength ∧
      ∀ t, c.decode (header ++ (used ++ t)) = (.ok p, c', t) := by
  rcases hhead : c.decodeHeader s with ⟨e | fh, body⟩
  · rw [decode_of_header_error hhead] at h
    cases h
  · rw [decode_of_header hhead] at h
    obtain ⟨rfl, used, rfl, hlen, hagain⟩ := decodePacket_ok h
    obtain ⟨header, hs, -, hsize, hparse⟩ := (takes_decodeHeader c).onOk s _ _ hhead
    refine ⟨header, used, hs, decodeHeader_ok hhead, hsize, hlen, fun t => ?_⟩
    rw [decode_of_header (hparse (used ++ t)), hagain t]

/-- **One `Decode` that fails after a complete fixed header.** -/
theorem decode_error {e : Err} (hfixed : decodeFixedHeader s = (.ok fh, body))
    (h : c.decode s = (.error e, c', left)) :
    ∃ used, body = used ++ left ∧ used.length ≤ fh.remainingLength := by
  rcases hhead : c.decodeHeader s with ⟨e' | fh', body'⟩
  · -- one of the checks between header and body
    rw [decode_of_header_error hhead] at h
    cases h
    have hchecks : c.decodeHeader s = _ := bind_ok hfixed
    rw [hhead] at hchecks
    have hnone : Takes 0 (fun _ _ => True) (do
        failWith (validateFixedHeaderFlags fh)
        failIf (maxRemainingLength < fh.remainingLength) .packetTooLarge
        failIf (c.maxPacketSize < fh.remainingLength + fh.headerSize) .packetTooLarge
        pure fh : Read FixedHeader) := by
      refine takes_failWith.bind fun _ _ _ _ => ?_
      exact Takes.after_failIf fun _ => Takes.after_failIf fun _ => Takes.pure trivial
    obtain ⟨used, hbody, hzero⟩ := hnone.onError body e left hchecks.symm
    exact ⟨used, hbody, Nat.le_trans hzero (Nat.zero_le _)⟩
  · have hsame := decodeHeader_ok hhead
    rw [hfixed] at hsame
    cases hsame
    rw [decode_of_header hhead] at h
    exact decodePacket_error h

/-! ## Streams of frames -/

/-- `Decode` called `n` times; the first error ends it. -/
def decodeMany : ℕ → Codec → Bytes → Except Err (List Packet) × Codec × Bytes
  | 0, c, s => (.ok [], c, s)
  | n + 1, c, s =>
    match c.decode s with
    | (.error e, c', left) => (.error e, c', left)
    | (.ok p, c', left) =>
      match decodeMany n c' left with
      | (res, c'', left') => (res.map (p :: ·), c'', left')

/-- Frames, each accepted in the state of the codec in which it is reached. -/
inductive Accepted : Codec → List Bytes → List Packet → Codec → Prop where
  | nil (c : Codec) : Accepted c [] [] c
  | cons {c c' c'' : Codec} {f : Bytes} {fs : List Bytes} {p : Packet} {ps : List Packet} :
      c.decode f = (.ok p, c', []) → Accepted c' fs ps c'' → Accepted c (f :: fs) (p :: ps) c''

theorem decodeMany_succ {c'' : Codec} {left' : Bytes} {n : ℕ} {ps : List Packet}
    (h : c.decode s = (.ok p, c', left)) (hmany : decodeMany n c' left = (.ok ps, c'', left')) :
    decodeMany (n + 1) c s = (.ok (p :: ps), c'', left') := by
  unfold decodeMany
  rw [h]
  show (match decodeMany n c' left with
    | (res, c'', left') => (res.map (p :: ·), c'', left')) = _
  rw [hmany]
  rfl

theorem decodeMany_accepted {fs : List Bytes} {ps : List Packet} (h : Accepted c fs ps c')
    (t : Bytes) : decodeMany fs.length c (fs.flatten ++ t) = (.ok ps, c', t) := by
  induction h with
  | nil c => rfl
  | cons hf _ ih =>
    obtain ⟨header, used, hframe, -, -, -, hagain⟩ := decode_ok hf
    rw [List.append_nil] at hframe
    subst hframe
    rw [List.flatten_cons, List.append_assoc, List.append_assoc]
    exact decodeMany_succ (hagain _) ih

/-- **Framing.** A returned packet took exactly its fixed header and Remaining Length
bytes; an error behind a complete fixed header took at most that many; and a
concatenation of accepted frames decodes to their packets, whatever follows. -/
theorem decode_framed (c : Codec) :
    (∀ s p c' left, c.decode s = (.ok p, c', left) →
      ∃ header used, s = header ++ (used ++ left) ∧
        decodeFixedHeader s = (.ok p.fixedHeader, used ++ left) ∧
        header.length = p.fixedHeader.headerSize ∧
        used.length = p.fixedHeader.remainingLength) ∧
    (∀ s fh body e c' left, decodeFixedHeader s = (.ok fh, body) →
      c.decode s = (.error e, c', left) →
      ∃ used, body = used ++ left ∧ used.length ≤ fh.remainingLength) ∧
    (∀ fs ps c' t, Accepted c fs ps c' →
      decodeMany fs.length c (fs.flatten ++ t) = (.ok ps, c', t)) := by
  refine ⟨?_, ?_, ?_⟩
  · intro s p c' left h
    obtain ⟨header, used, hs, hfixed, hsize, hlen, -⟩ := decode_ok h
    exact ⟨header, used, hs, hfixed, hsize, hlen⟩
  · intro s fh body e c' left hfixed h
    exact decode_error hfixed h
  · intro fs ps c' t h
    exact decodeMany_accepted h t

/-- The payload `hi` on the topic `a`. -/
def hiFrame : Bytes := [0x30, 0x05, 0x00, 0x01, 0x61, 0x68, 0x69]

def hiPublish : PublishPacket where
  fixedHeader := { packetType := .publish, remainingLength := 5, headerSize := 2 }
  topic := ascii "a"
  payload := ascii "hi"

/-- A PUBLISH and a PINGREQ back to back, and a PUBLISH that ends in its topic. -/
theorem decode_framed_publish :
    (∃ header used : Bytes, hiFrame ++ [0xC0] = header ++ (used ++ [0xC0]) ∧
      decodeFixedHeader (hiFrame ++ [0xC0]) = (.ok hiPublish.fixedHeader, used ++ [0xC0]) ∧
      header.length = 2 ∧ used.length = 5) ∧
    (∃ used : Bytes, [0x00, 0x05, 0xC0] = used ++ [0xC0] ∧ used.length ≤ 2) ∧
    decodeMany 2 (.new 0) ([hiFrame, [0xC0, 0x00]].flatten ++ [0x30]) =
      (.ok [.publish hiPublish, .pingReq { packetType := .pingReq, headerSize := 2 }],
        .new 0, [0x30]) :=
  ⟨(decode_framed (.new 0)).1 (hiFrame ++ [0xC0]) (.publish hiPublish) (.new 0) [0xC0] rfl,
    (decode_framed (.new 0)).2.1 [0x30, 0x02, 0x00, 0x05, 0xC0]
      { packetType := .publish, remainingLength := 2, headerSize := 2 } [0x00, 0x05, 0xC0]
      .malformedPacket (.new 0) [0xC0] rfl rfl,
    (decode_framed (.new 0)).2.2 [hiFrame, [0xC0, 0x00]] _ _ [0x30]
      (.cons rfl (.cons rfl (.nil _)))⟩

end Codec

end SharkMqtt.Protocol
