import SharkMqtt.Protocol.Reencode
import SharkMqtt.Broker.ResumedWrites

/-!
# The answer to a PUBLISH

`handlePublish` has some ten exits. A PUBLISH that does not cost its sender the connection
is answered at each of them as its QoS asks: a publisher that is answered twice gives an
identifier up too early, one that is not answered never does, and an answer the codec
refuses ends the connection.
-/

namespace SharkMqtt.Broker.Inbound

open Protocol Lib ResumedWrites

def written (effects : List Effect) : List Packet :=
  effects.filterMap fun
    | .write p => some p
    | _ => none

def answer (pkt : PublishPacket) (reason : UInt8) : List Packet :=
  if pkt.fixedHeader.qos = 0 then []
  else if pkt.fixedHeader.qos = 1 then [pubAckPacket pkt.packetID reason]
  else [pubRecPacket pkt.packetID reason]

/-- The connection is closed, or what is written is the answer. -/
def Answers (pkt : PublishPacket) (effects : List Effect) : Prop :=
  .close ∈ effects ∨ ∃ reason, written effects = answer pkt reason

variable {s : Inbound} {pkt : PublishPacket}

theorem qos_cases {q : UInt8} (h : q ≤ 2) : q = 0 ∨ q = 1 ∨ q = 2 := by
  have hle : q.toNat ≤ 2 := h
  simp only [← UInt8.toNat_inj, UInt8.reduceToNat]
  omega

theorem answers_close (reason : UInt8) : Answers pkt (s.closeProtocolViolationWithReason reason) :=
  Or.inl (List.mem_append_right _ (List.mem_singleton.mpr rfl))

theorem answers_discarded (hqos : pkt.fixedHeader.qos ≤ 2) (reason : UInt8) :
    Answers pkt (s.ackDiscardedPublish pkt reason) := by
  refine Or.inr ⟨if s.spec.reasonCodes then reason else reasonCodeSuccess, ?_⟩
  rcases qos_cases hqos with h | h | h <;> simp [ackDiscardedPublish, answer, written, h]

theorem written_retain (effects : List Effect) :
    written (retainEffects pkt ++ effects) = written effects := by
  unfold written retainEffects
  split_ifs <;> simp

theorem answers_handleQoS2 (htwo : pkt.fixedHeader.qos = 2) : Answers pkt (s.handleQoS2 pkt).2 := by
  have hrec : ∀ reason, answer pkt reason = [pubRecPacket pkt.packetID reason] := by
    simp [answer, htwo]
  unfold handleQoS2
  split
  · exact Or.inr ⟨_, (hrec _).symm⟩
  · split
    · unfold rejectInboundOverBudget
      split_ifs
      · exact answers_close _
      · exact answers_discarded (htwo ▸ UInt8.le_refl 2) _
    · refine Or.inr ⟨reasonCodeSuccess, ?_⟩
      rw [written_retain, hrec]
      rfl

theorem answers_accept (hqos : pkt.fixedHeader.qos ≤ 2) : Answers pkt (s.accept pkt).2 := by
  unfold accept
  split_ifs with htwo hone
  · exact answers_handleQoS2 htwo
  all_goals
    refine Or.inr ⟨reasonCodeSuccess, ?_⟩
    rw [written_retain]
  · simp [written, answer, hone]
  · rcases qos_cases hqos with h | h | h
    · simp [written, answer, h]
    · exact absurd h hone
    · exact absurd h htwo

theorem answers_handlePublish (policy : Policy) (s : Inbound) (hqos : pkt.fixedHeader.qos ≤ 2) :
    Answers pkt (s.handlePublish policy pkt).2 := by
  obtain ⟨aliases, ⟨-, reason, he⟩ | ⟨reason, -, he, -⟩ | ⟨-, -, topic, -, he⟩⟩ :=
    handlePublish_cases policy s pkt <;> rw [he]
  · exact answers_close reason
  · exact answers_discarded hqos reason
  · exact @answers_accept _ { pkt with topic := topic } hqos

/-- A PUBLISH as the codec returns it closes the connection or gets the answer its QoS asks
for: none, one PUBACK or one PUBREC, with its identifier, and the codec of the session's
version writes it. -/
theorem publish_answered (c c' : Codec) (stream left : Bytes) (pkt : PublishPacket)
    (hread : c.decode stream = (.ok (.publish pkt), c', left)) (policy : Policy) (s : Inbound) :
    .close ∈ (s.handlePublish policy pkt).2 ∨
      ∃ reason, written (s.handlePublish policy pkt).2 = answer pkt reason ∧
        ∀ p ∈ answer pkt reason, ∀ codec : Codec, codec.protocolVersion = s.protocolVer →
          codec.outboundMax = 0 → ∃ b, (codec.encode p).1 = .ok b := by
  have hdecoded := (Codec.decode_returned hread).other nofun
  rcases answers_handlePublish policy s hdecoded.fits.1 with hclose | ⟨reason, hreason⟩
  · exact Or.inl hclose
  · refine Or.inr ⟨reason, hreason, fun p hp codec hversion hmax => ?_⟩
    have hwritten : .write p ∈ (s.handlePublish policy pkt).2 := by
      rw [← hreason] at hp
      obtain ⟨e, he, hep⟩ := List.mem_filterMap.mp hp
      cases e <;> cases hep
      exact he
    have hsend := allSendable_handlePublish policy s hdecoded.encodable.hasID p hwritten
    rw [← hversion] at hsend
    exact hsend.encode (Or.inl hmax)

/-- An MQTT 3.1.1 client that may not publish sends a QoS 1 PUBLISH to `a`. -/
theorem publish_answered_refused :
    ∃ pkt : PublishPacket, pkt.packetID = 7 ∧
      (.close ∈ (handlePublish { canPublish := fun _ _ => false } {} pkt).2 ∨
        ∃ reason, written (handlePublish { canPublish := fun _ _ => false } {} pkt).2 =
          answer pkt reason ∧ ∀ p ∈ answer pkt reason, ∀ codec : Codec,
            codec.protocolVersion = version311 → codec.outboundMax = 0 →
              ∃ b, (codec.encode p).1 = .ok b) :=
  ⟨_, rfl, publish_answered (.new 0) _ [0x32, 5, 0, 1, 0x61, 0, 7] _ _ rfl
    { canPublish := fun _ _ => false } {}⟩

end SharkMqtt.Broker.Inbound
