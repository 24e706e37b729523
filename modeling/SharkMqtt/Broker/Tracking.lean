import SharkMqtt.Broker.SessionInvariants

/-!
# The two owners of a delivery agree

Every QoS 1 or 2 entry of a session's `Inflight` should be tracked by the engine
under the same identifier and QoS, and be in the second half of its handshake in
both or in neither; then every accepting PUBREC for a QoS 2 delivery is answered.

The engine's limit and the connection's window are set independently, so a
delivery can be sent that the engine refuses to track; and the engine marks a
QoS 1 delivery on a PUBREC where the session does not. Runs without either keep
the two in agreement (`agreement_of_room`).
-/

namespace SharkMqtt.Broker

open Protocol Lib Function

/-- The engine's entry for a delivery of the session. -/
structure Agrees (msg : InflightMsg) (e : QoSEngine.InflightMessage) : Prop where
  qos : e.qos = msg.qos
  acked : e.state = .acked ↔ msg.pendingPubRel = true

namespace Outbound

def Tracked (b : Outbound) : Prop :=
  ∀ c id msg, b.inflightAt c id = some msg → msg.qos = 1 ∨ msg.qos = 2 →
    ∃ e, b.engine.getInflight c id = some e ∧ Agrees msg e

/-- An accepting PUBREC for an outstanding QoS 2 delivery is answered. -/
def AnswersPubRec (b : Outbound) : Prop :=
  ∀ c id msg, b.inflightAt c id = some msg → msg.qos = 2 → ∀ reasonCode < 0x80,
    (c, pubRelPacket id) ∈ (b.handlePubRec c id reasonCode).2

/-- The condition on an operation. The engine has room for a delivery that is put
in flight, and for all those of a record that is restored; no accepting PUBREC
names a QoS 1 delivery. -/
def Roomy (st : State) : Op → Prop
  | .deliver c msg _ now =>
    ∀ s ∈ st.broker.sessions c, s.sends msg now = true → st.broker.engine.hasRoom c = true
  | .flush c now =>
    ∀ s ∈ st.broker.sessions c, ∀ msg ∈ s.outboundQueue.head?, s.sends msg now = true →
      st.broker.engine.hasRoom c = true
  | .pubRec c id reasonCode => reasonCode < 0x80 → ∀ msg ∈ st.broker.inflightAt c id, msg.qos = 2
  | .connect pkt _ =>
    pkt.flags.cleanSession = false → st.broker.sessions pkt.clientID = none →
      ∀ data ∈ st.broker.stored pkt.clientID,
        st.broker.engine.maxInflight = 0 ∨ data.inflight.size ≤ st.broker.engine.maxInflight
  | _ => True

instance (st : State) (op : Op) : Decidable (Roomy st op) := by
  have (c : Str) : Decidable (st.broker.sessions c = none) :=
    decidable_of_iff _ Option.isNone_iff_eq_none
  cases op <;> dsimp only [Roomy] <;> infer_instance

/-! ## The invariant -/

/-- The two owners agree; only QoS 2 deliveries are in the second half of a
handshake, in memory and in the store; nothing is tracked for a client that is
away. -/
structure Consistent (b : Outbound) : Prop where
  tracked : b.Tracked
  pending : ∀ c id msg, b.inflightAt c id = some msg → msg.pendingPubRel = true → msg.qos = 2
  stored : ∀ c data id m, b.stored c = some data → data.inflight.lookup id = some m →
    m.pendingPubRel = true → m.qos = 2
  away : ∀ c, b.sessions c = none → ∀ id, b.engine.getInflight c id = none

theorem consistent_init (maxInflight retryInterval maxRetries : ℕ) :
    (init maxInflight retryInterval maxRetries).broker.Consistent where
  tracked := fun c id msg h => by cases h
  pending := fun c id msg h => by cases h
  stored := fun c data id m h => by cases h
  away := fun c _ id => rfl

section Steps

variable {opts : Options} {st : State} {op : Op}

theorem Roomy.hasRoom (hok : Roomy st op) {c : Str} {s : Session} {msg : OutboundMsg} {now : ℕ}
    (hs : st.broker.sessions c = some s) (hop : op.offers s c msg now)
    (hsends : s.sends msg now = true) : st.broker.engine.hasRoom c = true := by
  cases op with
  | deliver =>
    obtain ⟨rfl, rfl, rfl⟩ := hop
    exact hok s hs hsends
  | flush =>
    obtain ⟨rfl, hq, rfl⟩ := hop
    exact hok s hs msg hq hsends
  | _ => cases hop

/-- The engine takes the whole record of a client that was away. -/
theorem restored_tracked {q : QoSEngine} {c : Str} {data : SessionData} {now : ℕ}
    (hempty : ∀ id, q.getInflight c id = none)
    (hroom : q.maxInflight = 0 ∨ data.inflight.size ≤ q.maxInflight) {id : UInt16}
    {msg : InflightMsg} (hmsg : (restore data).inflight.lookup id = some msg) :
    ∃ e, (restoreSessionInflight q c (restore data) now).getInflight c id = some e ∧
      RestoredAs msg e := by
  have hsize : (q.tableOf c).size = 0 :=
    Keyed.size_eq_zero fun id' => (QoSEngine.getInflight_eq_tableOf ..).symm.trans (hempty id')
  have hlen : ((restore data).inflight.table.entries.map Sigma.snd).length =
      data.inflight.size := by
    have hsize : (restore data).inflight.size = data.inflight.size :=
      Keyed.size_map data.inflight InflightMsg.packetID InflightMessage.restore fun _ => rfl
    rw [← hsize, List.length_map]
    exact (List.length_map _).symm
  have hkey : msg.packetID = id := (restore data).inflight.keyed id msg hmsg
  subst hkey
  refine restoreEntries_tracked now _ q (nodup_inflightMsgs (restore data)) ?_ msg
    (mem_inflightMsgs.mpr hmsg)
  rw [hsize, hlen, Nat.zero_add]
  exact hroom

section

variable (h : st.broker.Consistent)

include h

theorem Consistent.away_run {c : Str}
    (haway : (st.broker.run opts op).1.sessions c = none) (id : UInt16) :
    (st.broker.run opts op).1.engine.getInflight c id = none := by
  rcases sessions_run_eq_none haway with hnone | ⟨now, rfl⟩
  · have hold := h.away c hnone id
    cases st.broker.turns_run opts op c id with
    | kept _ he | cleaned _ _ _ _ he => exact he.trans hold
    | sent hs => cases hnone.symm.trans hs
    | ended _ he => exact he
    | marked _ _ _ he => rw [he, hold]; rfl
    | retried _ he => cases hold.symm.trans he
    | restored hop hc =>
      subst hop
      exact absurd hc.symm ((st.broker.sessions_connect_eq_none opts _ _).mp haway).1
  · exact (st.broker.engine.getInflight_removeClient c c id).trans (if_pos rfl)

theorem Consistent.tracked_run (hok : Roomy st op)
    (hpending : ∀ c id msg, (st.broker.run opts op).1.inflightAt c id = some msg →
      msg.pendingPubRel = true → msg.qos = 2) : (st.broker.run opts op).1.Tracked := by
  intro c id msg hmsg hqos
  cases st.broker.turns_run opts op c id with
  | kept hm he =>
    rw [he]
    exact h.tracked c id msg (hm.symm.trans hmsg) hqos
  | sent hs hid hop hsends hm heqos hestate he =>
    rw [hm] at hmsg
    cases hmsg
    rw [if_pos (hok.hasRoom hs hop hsends)] at he
    refine ⟨_, he, heqos.trans ?_, by simp [hestate, Session.inflightOf]⟩
    rcases hqos with hone | htwo
    · exact (if_pos hone).trans hone.symm
    · have hne : _ ≠ 1 := fun hone => absurd (hone.symm.trans htwo) (by decide)
      exact (if_neg hne).trans htwo.symm
  | ended hm | cleaned _ _ _ hm => cases hm.symm.trans hmsg
  | marked hop haccept hm he =>
    subst hop
    rw [hm] at hmsg
    obtain ⟨m, hm, rfl⟩ := Option.map_eq_some_iff.mp hmsg
    have htwo : m.qos = 2 := hok haccept m hm
    obtain ⟨e, hget, hagrees⟩ := h.tracked c id m hm (Or.inr htwo)
    rw [he, hget, if_pos htwo]
    exact ⟨_, rfl, hagrees.qos, by simp⟩
  | retried hm he he' heqos hestate =>
    obtain ⟨e, hget, hagrees⟩ := h.tracked c id msg (hm.symm.trans hmsg) hqos
    cases he.symm.trans hget
    exact ⟨_, he', heqos.trans hagrees.qos, by rw [hestate]; exact hagrees.acked⟩
  | restored hop hc hclean hs hdata hm he =>
    subst hop hc
    rw [he]
    obtain ⟨e, hget, heqos, hacked⟩ := restored_tracked
      (q := st.broker.engine.setClientVersion _ _) (h.away _ hs) (hok hclean hs _ hdata)
      (hm.symm.trans hmsg)
    refine ⟨e, hget, ?_, ?_⟩
    · rcases hqos with hone | htwo
      · rw [heqos, hone]
        rfl
      · rw [heqos, htwo]
        rfl
    · rw [hacked]
      exact ⟨fun hboth => hboth.2, fun hp => ⟨hpending _ id msg hmsg hp, hp⟩⟩

theorem Consistent.run (hok : Roomy st op) : (st.broker.run opts op).1.Consistent := by
  have hholds : (st.broker.run opts op).1.Holds _ _ :=
    Holds.run ⟨fun c s hs id msg hmsg => h.pending c id msg (by rw [inflightAt, hs]; exact hmsg),
      fun c data hdata id m => h.stored c data id m hdata⟩ pendingInvariant opts op fun _ _ => trivial
  have hpending : ∀ c id msg, (st.broker.run opts op).1.inflightAt c id = some msg →
      msg.pendingPubRel = true → msg.qos = 2 := by
    intro c id msg hmsg
    obtain ⟨s, hs, hmsg⟩ := Option.bind_eq_some_iff.mp hmsg
    exact hholds.sessions c s hs id msg hmsg
  exact ⟨h.tracked_run hok hpending, hpending, fun c data id m hdata => hholds.stored c data hdata id m,
    fun c haway => h.away_run haway⟩

theorem Consistent.step {st' : State} (hok : Roomy st op)
    (hs : step opts st op = some st') : st'.broker.Consistent := by
  rw [step_eq_some hs]
  exact h.run hok

end

theorem Tracked.answersPubRec {b : Outbound} (h : b.Tracked) : b.AnswersPubRec := by
  intro c id msg hmsg hqos reasonCode hcode
  obtain ⟨e, he, -⟩ := h c id msg hmsg (Or.inr hqos)
  have hfound : (b.engine.ackPubRec c id).1 = true := by
    refine (b.engine.markAcked_fst c id).trans ?_
    rw [he]
    rfl
  rw [b.handlePubRec_of_accepting c id hcode]
  simp [hfound]

end Steps

/-- While the engine has room for what is sent and restored, and no PUBREC comes
for a QoS 1 delivery, the engine tracks every delivery in its stage, and every
accepting PUBREC is answered. -/
theorem agreement_of_room (maxInflight retryInterval maxRetries : ℕ) (opts : Options)
    (ops : List Op) (st : State)
    (hok : Along (step opts) Roomy (init maxInflight retryInterval maxRetries) ops)
    (hrun : exec (step opts) (init maxInflight retryInterval maxRetries) ops = some st) :
    st.broker.Tracked ∧ st.broker.AnswersPubRec := by
  have hconsistent : st.broker.Consistent :=
    exec_invariant (fun st => st.broker.Consistent) (fun _ _ _ h hok hs => h.step hok hs)
      (consistent_init maxInflight retryInterval maxRetries) hok hrun
  exact ⟨hconsistent.tracked, hconsistent.tracked.answersPubRec⟩

def qos2Message : OutboundMsg := { qos1Message with deliverQoS := 2 }

def persistentConnect : ConnectPacket := { receiveOne with properties := none }

/-- Two QoS 2 deliveries to a client with a window of 65535. -/
def twoDeliveries : List Op :=
  [.connect persistentConnect 0, .deliver (ascii "c") qos2Message false 0,
    .deliver (ascii "c") qos2Message false 0]

/-- An engine with a limit of one does not track the second delivery, and the
PUBREC for it gets no answer. -/
theorem full_engine_leaves_pubRec_unanswered :
    ∃ st, exec (step brokerDefaults) (init 1 20 3) twoDeliveries = some st ∧
      ¬ st.broker.Tracked ∧ ¬ st.broker.AnswersPubRec := by
  obtain ⟨st, hst⟩ := Option.isSome_iff_exists.mp
    (by decide +kernel : (exec (step brokerDefaults) (init 1 20 3) twoDeliveries).isSome = true)
  have hqos : (st.broker.inflightAt (ascii "c") 2).map InflightMsg.qos = some 2 :=
    of_exec hst (by decide +kernel)
  obtain ⟨msg, hmsg, hqos⟩ := Option.map_eq_some_iff.mp hqos
  refine ⟨st, hst, fun h => ?_, fun h => ?_⟩
  · have hnone : (st.broker.engine.getInflight (ascii "c") 2).isSome = false :=
      of_exec hst (by decide +kernel)
    obtain ⟨e, he, -⟩ := h _ _ msg hmsg (Or.inr hqos)
    rw [he] at hnone
    cases hnone
  · have hsilent : (st.broker.handlePubRec (ascii "c") 2 0).2.isEmpty = true :=
      of_exec hst (by decide +kernel)
    have hanswer := h _ _ msg hmsg hqos 0 (by decide)
    rw [List.isEmpty_iff.mp hsilent] at hanswer
    cases hanswer

/-- The first delivery is received, the client reconnects with its session restored,
and a second delivery follows. -/
def agreedRun : List Op :=
  [.connect persistentConnect 0, .deliver (ascii "c") qos2Message false 0,
    .pubRec (ascii "c") 1 0, .disconnect (ascii "c") 0, .connect persistentConnect 0,
    .deliver (ascii "c") qos2Message false 0]

theorem agreedRun_agrees :
    ∃ st, exec (step brokerDefaults) (init 2 20 3) agreedRun = some st ∧
      (st.broker.inflightAt (ascii "c") 1).map InflightMsg.pendingPubRel = some true ∧
      st.broker.Tracked ∧ st.broker.AnswersPubRec :=
  exec_reaches (by decide +kernel) fun st hst _ =>
    agreement_of_room 2 20 3 brokerDefaults agreedRun st (by decide +kernel) hst

end Outbound

end SharkMqtt.Broker
