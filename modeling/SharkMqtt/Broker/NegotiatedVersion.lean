import SharkMqtt.Protocol.Framing
import SharkMqtt.Broker.WriteLoop

/-!
# The version of a connection

A codec takes its version from the handshake, and the writer of the connection encodes
with it from then on. `decodeConnect` sets it again for every CONNECT whose name and
version byte can be read, accepted or not, before the read loop has a say in it; the
packets still queued and the DISCONNECT that answers the second CONNECT are then encoded
in the version that one names.

`Renegotiates` is that situation, read off the stream alone: the frames before are
decoded, none of them ends the read loop, and the next one is such a CONNECT with another
version. It is exactly when some run leaves the negotiated version
(`negotiated_version_kept_iff`).
-/

namespace SharkMqtt.Broker.WriteLoop

open Protocol Lib Function

/-! ## The codec after `Decode` and `Encode` -/

/-- The version `Decode` sets: the frame at the head of the stream is a CONNECT that can
be read up to its version byte. -/
def announced (c : Codec) (s : Bytes) : Option UInt8 :=
  match c.decodeHeader s with
  | (.error _, _) => none
  | (.ok fh, body) =>
    if fh.packetType = .connect then
      match decodeConnect fh body with
      | (.error _, _) => none
      | (.ok (v, _), _) => some v
    else none

theorem decode_codec (c : Codec) (s : Bytes) :
    (c.decode s).2.1 = (announced c s).elim c c.setVersion := by
  unfold announced Codec.decode
  rcases c.decodeHeader s with ⟨e | fh, body⟩
  · rfl
  · simp only
    by_cases hconn : fh.packetType = .connect
    · unfold Codec.decodePacket
      rw [if_pos hconn, if_pos hconn]
      rcases decodeConnect fh body with ⟨e | ⟨v, res⟩, left⟩ <;> rfl
    · rw [if_neg hconn, Codec.decodePacket_other hconn]
      rfl

variable {c : Codec} {p : Packet}

theorem encode_codec (hp : p.goType ≠ .connect) : (c.encode p).2 = c := by
  have hversion : c.setVersion (c.versionFor p) = c := by
    cases p with
    | connect q => exact absurd rfl hp
    | _ => rfl
  have hto : (c.encodeTo p).2 = c := by
    fun_cases Codec.encodeTo c p with
    | case1 => rfl
    | case2 => exact hversion
  fun_cases Codec.encode c p with
  | case1 => exact hto
  | case2 _ _ _ hres | case3 _ _ _ hres | case4 _ _ _ hres => rwa [hres] at hto

/-! ## The stream -/

/-- The read loop gets from `stream` to `rest`: what is between them are frames that are
decoded and after which the loop can go on. -/
inductive Reaches (c : Codec) (stream : Bytes) : Bytes → Prop where
  | start : Reaches c stream stream
  | next {rest rest' : Bytes} {p : Packet} : Reaches c stream rest →
      c.decode rest = (.ok p, c, rest') → p.goType ≠ .connect → p.goType ≠ .disconnect →
      Reaches c stream rest'

/-- The read loop comes to a CONNECT that names another version. -/
def Renegotiates (c : Codec) (stream : Bytes) : Prop :=
  ∃ rest v, Reaches c stream rest ∧ announced c rest = some v ∧ v ≠ c.protocolVersion

theorem endsWith_eq_none {auth : Reauth} (h : endsWith auth p = none) :
    p.goType ≠ .connect ∧ p.goType ≠ .disconnect := by
  cases p with
  | connect | disconnect => cases h
  | _ => exact ⟨by rintro ⟨⟩, by rintro ⟨⟩⟩

theorem endsWith_goesOn (hconn : p.goType ≠ .connect) (hdisc : p.goType ≠ .disconnect) :
    endsWith .goesOn p = none := by
  cases p with
  | connect q => exact absurd rfl hconn
  | disconnect q => exact absurd rfl hdisc
  | _ => rfl

/-- What a teardown hands over as its last write is a DISCONNECT. -/
theorem final_of_actions {sess codec : Spec} {t : Teardown} {pkt : Packet}
    (h : .final pkt ∈ t.actions sess codec) : ∃ reason, pkt = disconnectPacket reason := by
  have hfarewell : ∀ spec reason, Action.final pkt ∈ farewell spec reason →
      pkt = disconnectPacket reason := by
    intro spec reason hmem
    unfold farewell at hmem
    split_ifs at hmem
    · simpa using hmem
    · cases hmem
  cases t with
  | takenOver => exact ⟨_, hfarewell codec 0x8E (by simpa [Teardown.actions] using h)⟩
  | violation reason => exact ⟨_, hfarewell sess reason (by simpa [Teardown.actions] using h)⟩
  | keepAlive => exact ⟨_, hfarewell sess 0x8D (by simpa [Teardown.actions] using h)⟩
  | readError e =>
    cases hreason : decodeErrorReasonCode e with
    | none => simp [Teardown.actions, hreason] at h
    | some reason => exact ⟨_, hfarewell sess reason (by simpa [Teardown.actions, hreason] using h)⟩
  | secondConnect => exact ⟨_, hfarewell sess 0x82 (by simpa [Teardown.actions] using h)⟩
  | shutdown =>
    simp only [Teardown.actions] at h
    split_ifs at h <;> simp at h
  | _ => simp [Teardown.actions] at h

/-! ## The invariant -/

/-- The codec is the negotiated one, now and at every write so far. -/
structure Kept (c : Codec) (stream : Bytes) (st : State) : Prop where
  codec : st.codec = c
  log : ∀ e ∈ st.log, e.codec = c
  queue : ∀ p ∈ st.out, p.goType ≠ .connect
  finals : ∀ i pkt, .final pkt ∈ st.teardowns i → pkt.goType ≠ .connect
  reached : st.reading = true → Reaches c stream st.stream

namespace Kept

variable {c : Codec} {stream : Bytes} {st st' : State}

theorem start (c : Codec) (qcap : ℕ) (stream : Bytes) :
    Kept c stream (WriteLoop.start c qcap stream) where
  codec := rfl
  log := by rintro e ⟨⟩
  queue := by rintro p ⟨⟩
  finals := by rintro i pkt ⟨⟩
  reached := fun _ => .start

section

variable (h : Kept c stream st)

include h

theorem enqueue {pkt : Packet} (henq : st.enqueue pkt = some st') : Kept c stream st' := by
  obtain ⟨hnot, rfl⟩ := enqueue_eq_some henq
  exact { h with
    queue := forall_mem_snoc h.queue hnot }

theorem put {pkt : Packet} (hpkt : pkt.goType ≠ .connect) (sock : Bool) :
    Kept c stream (st.put pkt sock) where
  codec := (encode_codec hpkt).trans h.codec
  log := forall_mem_snoc h.log h.codec
  queue := h.queue
  finals := h.finals
  reached := h.reached

theorem setTeardown (i : ℕ) {as : List Action}
    (has : ∀ pkt, .final pkt ∈ as → pkt.goType ≠ .connect) :
    Kept c stream { st with teardowns := update st.teardowns i as } := by
  refine { h with finals := fun j pkt hmem => ?_ }
  change Action.final pkt ∈ update st.teardowns i as j at hmem
  by_cases hj : j = i
  · subst hj
    rw [update_self] at hmem
    exact has pkt hmem
  · rw [update_of_ne hj] at hmem
    exact h.finals j pkt hmem

theorem tearDown (i : ℕ) (t : Teardown) : Kept c stream (st.tearDown i t) := by
  apply h.setTeardown i
  intro pkt hmem
  obtain ⟨reason, rfl⟩ := final_of_actions hmem
  rintro ⟨⟩

theorem act {i : ℕ} {a : Action} {rest : List Action} {o : Outcome}
    (hi : st.teardowns i = a :: rest) (hact : st.act a o = some st') : Kept c stream st' := by
  rcases act_cases hact with ⟨pkt, rfl, -, -, rfl⟩ | ⟨pkt, -, -, henq⟩ | ⟨-, rfl⟩ | ⟨-, rfl⟩ | ⟨-, rfl⟩
  · apply h.put
    apply h.finals i pkt
    rw [hi]
    exact List.mem_cons_self
  · exact h.enqueue henq
  · exact h
  · exact { h with }
  · exact { h with }

theorem write {sock : Bool} (hwrite : st.write sock = some st') : Kept c stream st' := by
  obtain ⟨pkt, rest, -, hout, hst'⟩ := write_eq_some hwrite
  have hpkt : pkt.goType ≠ .connect := h.queue pkt (hout ▸ List.mem_cons_self)
  have hrest : ∀ p ∈ rest, p.goType ≠ .connect :=
    fun p hp => h.queue p (hout ▸ List.mem_cons_of_mem pkt hp)
  rcases hst' with rfl | rfl <;> exact { h.put hpkt sock with queue := hrest }

/-- One `Decode`. The codec changes only if a CONNECT announces a version. -/
theorem read (hreading : st.reading = true)
    (hno : ¬ Renegotiates c stream) (auth : Reauth) : Kept c stream (st.read auth) := by
  have hcodec : (st.codec.decode st.stream).2.1 = c := by
    rw [decode_codec, h.codec]
    cases hv : announced c st.stream with
    | none => rfl
    | some v =>
      have hsame : v = c.protocolVersion :=
        by_contra fun hne => hno ⟨st.stream, v, h.reached hreading, hv, hne⟩
      subst hsame
      rfl
  unfold State.read
  split
  · apply Kept.tearDown
    exact { h with codec := hcodec, reached := by rintro ⟨⟩ }
  next pkt hpkt =>
    split
    · apply Kept.tearDown
      exact { h with codec := hcodec, reached := by rintro ⟨⟩ }
    next hgo =>
      obtain ⟨hconn, hdisc⟩ := endsWith_eq_none hgo
      refine { h with codec := hcodec, reached := fun _ => ?_ }
      refine (h.reached hreading).next (p := pkt) ?_ hconn hdisc
      rw [h.codec] at hpkt hcodec ⊢
      exact Prod.ext hpkt (Prod.ext hcodec rfl)

theorem step (hno : ¬ Renegotiates c stream) {l : Label}
    (hstep : WriteLoop.step st l = some st') : Kept c stream st' := by
  revert hstep
  fun_cases WriteLoop.step st l <;> intro hstep <;> try cases hstep
  · exact h.enqueue hstep
  · exact h.tearDown _ _
  next i o a rest hi =>
    obtain ⟨st₁, hact, rfl⟩ := Option.map_eq_some_iff.mp hstep
    apply (h.act hi hact).setTeardown i
    intro pkt hmem
    apply h.finals i pkt
    rw [hi]
    exact List.mem_cons_of_mem a hmem
  · exact h.write hstep
  · exact { h with }
  next auth hreading => exact h.read hreading hno auth
  all_goals
    apply Kept.tearDown
    exact { h with reached := by rintro ⟨⟩ }

end

end Kept

/-! ## Runs -/

theorem read_codec (st : State) (auth : Reauth) :
    (st.read auth).codec = (st.codec.decode st.stream).2.1 := by
  unfold State.read
  split
  · rfl
  · split <;> rfl

theorem read_of_ok {st : State} {auth : Reauth} {c' : Codec} {left : Bytes} {pkt : Packet}
    (hdec : st.codec.decode st.stream = (.ok pkt, c', left)) (hgo : endsWith auth pkt = none) :
    st.read auth = { st with codec := c', stream := left } := by
  unfold State.read
  simp only [hdec, hgo]

theorem exec_read {qcap : ℕ} {stream : Bytes} {ls : List Label} {st : State}
    (h : exec step (start c qcap stream) ls = some st) (hreading : st.reading = true)
    (auth : Reauth) :
    exec step (start c qcap stream) (ls ++ [.read auth]) = some (st.read auth) := by
  apply exec_append_eq_some.mpr
  refine ⟨st, h, exec_cons_eq_some.mpr ⟨st.read auth, ?_, rfl⟩⟩
  simp only [step, hreading, if_true]

theorem exists_run_of_reaches {stream rest : Bytes} (h : Reaches c stream rest) (qcap : ℕ) :
    ∃ ls st, exec step (start c qcap stream) ls = some st ∧ st.codec = c ∧
      st.stream = rest ∧ st.reading = true := by
  induction h with
  | start => exact ⟨[], start c qcap stream, rfl, rfl, rfl, rfl⟩
  | next _ hdec hconn hdisc ih =>
    obtain ⟨ls, st, hrun, hcodec, hstream, hreading⟩ := ih
    rw [← hstream, ← hcodec] at hdec
    refine ⟨ls ++ [.read .goesOn], _, exec_read hrun hreading .goesOn, ?_⟩
    rw [read_of_ok hdec (endsWith_goesOn hconn hdisc)]
    exact ⟨hcodec, rfl, hreading⟩

/-- The codec has the version, and had it whenever a packet was encoded. -/
def InVersion (v : UInt8) (st : State) : Prop :=
  st.codec.protocolVersion = v ∧ ∀ e ∈ st.log, e.codec.protocolVersion = v

/-- **The negotiated version is kept** by every run, and so every packet is encoded in it,
exactly when the stream holds no CONNECT with another version where the read loop would
read it. -/
theorem negotiated_version_kept_iff (c : Codec) (qcap : ℕ) (stream : Bytes) :
    (∀ ls st, exec step (start c qcap stream) ls = some st → InVersion c.protocolVersion st) ↔
      ¬ Renegotiates c stream := by
  constructor
  · rintro hall ⟨rest, v, hreach, hv, hne⟩
    obtain ⟨ls, st, hrun, hcodec, hstream, hreading⟩ := exists_run_of_reaches hreach qcap
    have hkept := (hall _ _ (exec_read hrun hreading .rejects)).1
    rw [read_codec, decode_codec, hcodec, hstream, hv] at hkept
    exact hne hkept
  · intro hno ls st hrun
    have hkept : Kept c stream st :=
      exec_preserves (Kept c stream) (fun _ _ _ h hstep => h.step hno hstep)
        (Kept.start c qcap stream) hrun
    refine ⟨by rw [hkept.codec], fun e he => ?_⟩
    rw [hkept.log e he]

/-- A CONNECT of version 3.1.1, Clean Session, ClientID `c`. -/
def connect311 : Bytes := [0x10, 13, 0, 4, 0x4D, 0x51, 0x54, 0x54, 4, 0x02, 0, 0, 0, 1, 0x63]

def pubAckNoMatching : Packet :=
  .pubAck { fixedHeader := { packetType := .pubAck }, packetID := 1, reasonCode := 0x10 }

/-- On a 5.0 connection with a PUBACK queued the client sends a CONNECT of version 3.1.1:
the closing DISCONNECT and the PUBACK are encoded as 3.1.1, and both are refused. -/
theorem secondConnect_changes_version :
    ∃ st, exec step (start (Codec.newForVersion 0 version50) 2 connect311)
        [.produce pubAckNoMatching, .read .rejects, .act 0 .done, .write true] = some st ∧
      st.protocolVer = version50 ∧ st.codec.protocolVersion = version311 ∧
      st.log.map (fun e => (e.pkt, e.codec.protocolVersion, e.sent)) =
        [(disconnectPacket 0x82, version311, false), (pubAckNoMatching, version311, false)] ∧
      ¬ InVersion version50 st := by
  refine exec_reaches (by decide +kernel) fun st hst _ => ?_
  have hcodec : st.codec.protocolVersion = version311 := of_exec hst (by decide +kernel)
  refine ⟨hcodec, of_exec hst (by decide +kernel), fun hkept => ?_⟩
  rw [hkept.1] at hcodec
  cases hcodec

end SharkMqtt.Broker.WriteLoop
