import SharkMqtt.Broker.Tracking

/-!
# Which packet ends which delivery

A QoS 1 delivery ends with its PUBACK. A QoS 2 delivery ends with a PUBREC that
rejects it or with the PUBCOMP after its PUBREC, and only between these two does
the broker send PUBREL for its identifier. Either may be given up by the retry
loop.

`handlePubAck`, `handlePubRec` and `handlePubComp` settle whatever is in flight
under the identifier and look neither at its QoS nor at its stage. In a run in
which every acknowledgement is of the kind its delivery waits for, every step
keeps to the handshakes (`orderly_of_fitting`).
-/

namespace SharkMqtt.Broker.Outbound

open Protocol Lib

/-- The delivery is still in flight, at most one stage further. -/
def Continues (msg msg' : InflightMsg) : Prop :=
  msg' = msg ∨ msg' = { msg with pendingPubRel := true }

/-- The operations that may take a delivery out of `Inflight`. A clean connect
ends the session with all it has in flight. -/
def MayEnd (st : State) (c : Str) (id : UInt16) (msg : InflightMsg) : Op → Prop
  | .pubAck c' id' => c' = c ∧ id' = id ∧ msg.qos = 1
  | .pubRec c' id' reasonCode => c' = c ∧ id' = id ∧ msg.qos = 2 ∧ reasonCode ≥ 0x80
  | .pubComp c' id' => c' = c ∧ id' = id ∧ msg.qos = 2 ∧ st.received c id = true
  | .tick now => (c, id) ∈ (st.broker.engine.collect now).toReport
  | .connect pkt _ => pkt.clientID = c ∧ pkt.flags.cleanSession = true
  | _ => False

structure Orderly (st : State) (op : Op) (st' : State) : Prop where
  ends : ∀ c id msg, st.broker.inflightAt c id = some msg → st'.broker.sessions c ≠ none →
    MayEnd st c id msg op ∨ ∃ msg', st'.broker.inflightAt c id = some msg' ∧ Continues msg msg'
  releases : ∀ c id, (c, pubRelPacket id) ∈ st'.written →
    ∃ msg, st'.broker.inflightAt c id = some msg ∧ msg.qos = 2 ∧ st'.received c id = true

/-- The condition on an operation. An acknowledgement is of the kind the delivery
it names waits for; a delivery finds a free identifier; a clean connect finds
nothing tracked for the client. -/
def Fitting (st : State) : Op → Prop
  | .pubAck c id => ∀ msg ∈ st.broker.inflightAt c id, msg.qos = 1
  | .pubRec c id _ => ∀ msg ∈ st.broker.inflightAt c id, msg.qos = 2
  | .pubComp c id => ∀ msg ∈ st.broker.inflightAt c id, msg.qos = 2 ∧ msg.pendingPubRel = true
  | .deliver c _ _ _ | .flush c _ => ∀ s ∈ st.broker.sessions c, s.inflight.size < 65535
  | .connect pkt _ =>
    pkt.flags.cleanSession = true → st.broker.engine.inflightCount pkt.clientID = 0
  | _ => True

instance (st : State) : ∀ op : Op, Decidable (Fitting st op)
  | .pubAck .. | .pubRec .. | .pubComp .. | .deliver .. | .flush .. | .connect .. | .tick _
  | .disconnect .. => by dsimp only [Fitting]; infer_instance

/-! ## The invariant -/

/-- What the engine tracks is in flight, and marked there if it is marked in the
engine; a delivery is marked, in memory or in the record of a client that is
away, only if it is of QoS 2 and its PUBREC was received. -/
structure Sound (b : Outbound) (received : Str → UInt16 → Bool) : Prop where
  tracked : ∀ c id e, b.engine.getInflight c id = some e →
    ∃ msg, b.inflightAt c id = some msg ∧ (e.state = .acked → msg.pendingPubRel = true)
  marked : ∀ c id msg, b.inflightAt c id = some msg → msg.pendingPubRel = true →
    msg.qos = 2 ∧ received c id = true
  recorded : ∀ c id m, b.storedAt c id = some m → m.pendingPubRel = true →
    m.qos = 2 ∧ received c id = true

theorem sound_init (maxInflight retryInterval maxRetries : ℕ) :
    Sound (init maxInflight retryInterval maxRetries).broker fun _ _ => false where
  tracked := fun c id e h => by cases h
  marked := fun c id msg h => by cases h
  recorded := fun c id m h => by cases h

variable {st : State} {id : UInt16}

variable {c : Str}

/-- What was received for a delivery stays received while it is outstanding. -/
theorem State.receive_of_inflight {msg : InflightMsg} (h : st.broker.inflightAt c id = some msg)
    (op : Op) (hrec : (st.received c id || op.accepts c id) = true) :
    st.receive op c id = true := by
  unfold State.receive
  rw [h, hrec]
  rfl

variable {m : InflightMessage}

theorem State.receive_of_stored (h : st.broker.storedAt c id = some m) (op : Op)
    (hrec : (st.received c id || op.accepts c id) = true) : st.receive op c id = true := by
  unfold State.receive
  rw [h, hrec]
  simp

theorem storedAt_eq_some {b : Outbound} :
    b.storedAt c id = some m ↔
      b.sessions c = none ∧ ∃ data, b.stored c = some data ∧ data.inflight.lookup id = some m := by
  unfold storedAt
  cases b.sessions c with
  | none => simp [Option.bind_eq_some_iff]
  | some s => simp

section Received

variable {st : State} {c : Str} {id : UInt16} (h : Sound st.broker st.received) (op : Op)

include h

theorem Sound.received_marked {msg : InflightMsg} (hmsg : st.broker.inflightAt c id = some msg)
    (hp : msg.pendingPubRel = true) : msg.qos = 2 ∧ st.receive op c id = true := by
  obtain ⟨htwo, hrec⟩ := h.marked c id msg hmsg hp
  exact ⟨htwo, State.receive_of_inflight hmsg op (by rw [hrec]; rfl)⟩

theorem Sound.received_recorded (hm : st.broker.storedAt c id = some m)
    (hp : m.pendingPubRel = true) : m.qos = 2 ∧ st.receive op c id = true := by
  obtain ⟨htwo, hrec⟩ := h.recorded c id m hm hp
  exact ⟨htwo, State.receive_of_stored hm op (by rw [hrec]; rfl)⟩

end Received

def Keeps (st : State) (op : Op) (r : Outbound × List Written) : Prop :=
  Sound r.1 (st.receive op) ∧ Orderly st op ⟨r.1, r.2, st.receive op⟩

theorem storedAt_onSession (b : Outbound) (c c' : Str) (f : Session → Session) (id' : UInt16) :
    (b.onSession c f).storedAt c' id' = b.storedAt c' id' := by
  have hsome : ((b.onSession c f).sessions c').isSome = (b.sessions c').isSome := by
    rw [Bool.eq_iff_iff, Option.isSome_iff_ne_none, Option.isSome_iff_ne_none]
    exact not_congr (b.sessions_onSession_eq_none c c' f)
  unfold storedAt
  rw [hsome, stored_onSession]

theorem pubRelPacket_inj {id id' : UInt16} (h : pubRelPacket id = pubRelPacket id') : id = id' := by
  injection h with h
  injection h

/-! ## Runs -/

section Run

variable {opts : Options} {st : State} {op : Op} {c : Str} {id : UInt16}

theorem storedAt_run {b : Outbound} {m : InflightMessage}
    (h : (b.run opts op).1.storedAt c id = some m) :
    b.storedAt c id = some m ∨ ∃ msg, b.inflightAt c id = some msg ∧ m = msg.store := by
  have hacts := b.acts_run opts op
  generalize b.run opts op = r at hacts h
  cases hacts with
  | idle => exact Or.inl h
  | deliver | flush =>
    rw [storedAt_eq_some, sessions_deliverOn, stored_deliverOn] at h
    split_ifs at h
    · cases h.1
    · exact Or.inl (storedAt_eq_some.mpr h)
  | settle | mark => exact Or.inl ((storedAt_onSession b _ c _ id).symm.trans h)
  | tick now =>
    have hkept : (b.doRetry now).1.storedAt c id = b.storedAt c id :=
      foldl_keeps (storedAt · c id) (fun b item _ => storedAt_onSession b item.1 c _ id)
        { b with engine := (b.engine.collect now).engine }
    exact Or.inl (hkept.symm.trans h)
  | connect pkt now =>
    obtain ⟨hnone, data, hdata, hm⟩ := storedAt_eq_some.mp h
    rw [sessions_connect_eq_none] at hnone
    exact Or.inl (storedAt_eq_some.mpr ⟨hnone.2, data, b.stored_connect opts pkt now hdata, hm⟩)
  | disconnect c' now =>
    obtain ⟨hgone, data, hdata, hm⟩ := storedAt_eq_some.mp h
    rcases b.stored_disconnect now hdata with ⟨hold, haway⟩ | ⟨s, hs, rfl⟩
    · refine Or.inl (storedAt_eq_some.mpr ⟨?_, data, hold, hm⟩)
      rw [sessions_disconnect] at hgone
      split_ifs at hgone with hc
      · exact haway hc
      · exact hgone
    · rw [lookup_save] at hm
      obtain ⟨msg, hmsg, rfl⟩ := Option.map_eq_some_iff.mp hm
      exact Or.inr ⟨msg, by rw [inflightAt, hs]; exact hmsg, rfl⟩

theorem Sound.marked_run (h : Sound st.broker st.received) {msg : InflightMsg}
    (hmsg : (st.broker.run opts op).1.inflightAt c id = some msg)
    (hp : msg.pendingPubRel = true) : msg.qos = 2 ∧ st.receive op c id = true := by
  cases st.broker.turns_run opts op c id with
  | kept hm | retried hm => exact h.received_marked op (hm.symm.trans hmsg) hp
  | sent _ _ _ _ hm =>
    rw [hm] at hmsg
    cases hmsg
    cases hp
  | ended hm | cleaned _ _ _ hm => cases hm.symm.trans hmsg
  | marked hop haccept hm =>
    rw [hm] at hmsg
    obtain ⟨m, hm, rfl⟩ := Option.map_eq_some_iff.mp hmsg
    split_ifs at hp ⊢ with htwo
    · refine ⟨htwo, State.receive_of_inflight hm op ?_⟩
      simp [hop, Op.accepts, haccept]
    · exact h.received_marked op hm hp
  | restored hop hc hclean hs hdata hm =>
    rw [hm, lookup_restore] at hmsg
    obtain ⟨m, hm, rfl⟩ := Option.map_eq_some_iff.mp hmsg
    exact h.received_recorded op (storedAt_eq_some.mpr ⟨hs, _, hdata, hm⟩) hp

theorem released_run {b : Outbound} (hw : (c, pubRelPacket id) ∈ (b.run opts op).2) :
    (∃ msg, (b.run opts op).1.inflightAt c id = some msg ∧ msg.pendingPubRel = true) ∨
      ∃ e, (b.run opts op).1.engine.getInflight c id = some e ∧ e.state = .acked := by
  have hacts := b.acts_run opts op
  generalize b.run opts op = r at hacts hw ⊢
  cases hacts with
  | idle | settle | disconnect => cases hw
  | deliver | flush =>
    unfold Outbound.deliverOn at hw
    simp only at hw
    split at hw <;> simp [pubRelPacket] at hw
  | @mark c' id' =>
    have hfound : (b.engine.ackPubRec c' id').1 = (b.engine.getInflight c' id').isSome :=
      b.engine.markAcked_fst c' id'
    simp only [hfound] at hw
    split_ifs at hw with hsome
    · obtain ⟨e, he⟩ := Option.isSome_iff_exists.mp hsome
      simp only [List.mem_singleton, Prod.mk.injEq] at hw
      obtain ⟨rfl, hid⟩ := hw
      obtain rfl := pubRelPacket_inj hid
      refine Or.inr ⟨{ e with state := .acked }, ?_, rfl⟩
      refine (b.engine.getInflight_markAcked c c id id).trans ?_
      rw [if_pos ⟨rfl, rfl⟩, he]
      rfl
    · cases hw
  | tick now =>
    obtain ⟨⟨c', e⟩, he, hsent⟩ := List.mem_flatMap.mp hw
    obtain ⟨e₀, he₀, hfate, rfl⟩ := (b.engine.mem_toRetry c').mp he
    unfold resend at hsent
    split_ifs at hsent with hacked
    · simp only [List.mem_singleton, Prod.mk.injEq] at hsent
      obtain ⟨rfl, hid⟩ := hsent
      obtain rfl := pubRelPacket_inj hid
      simp only [Bool.and_eq_true, beq_iff_eq] at hacked
      refine Or.inr ⟨_, ?_, hacked.2⟩
      rw [(b.doRetry_frame now).1, QoSEngine.getInflight_collect]
      refine (congrArg (Option.bind · _) he₀).trans ?_
      simp [QoSEngine.visited, hfate]
    · -- the other sends are PUBLISH packets
      unfold republish at hsent
      split at hsent
      · cases hsent
      · split_ifs at hsent
        · simp [pubRelPacket] at hsent
        · cases hsent
  | connect pkt now =>
    unfold Outbound.connect at hw
    simp only at hw
    cases hres : Broker.resumed (b.client pkt.clientID) pkt with
    | none =>
      rw [hres] at hw
      cases hw
    | some s =>
      rw [hres] at hw
      obtain ⟨⟨key, msg⟩, hentry, hsent⟩ := List.mem_map.mp hw
      split_ifs at hsent with hmarked
      · obtain ⟨rfl, hid⟩ := Prod.mk.injEq _ _ _ _ ▸ hsent
        obtain rfl := pubRelPacket_inj hid
        simp only [Bool.and_eq_true, beq_iff_eq] at hmarked
        refine Or.inl ⟨msg, ?_, hmarked.2⟩
        rw [inflightAt_connect, if_pos rfl, hres]
        exact mem_inflightMsgs.mp (List.mem_map.mpr ⟨_, hentry, rfl⟩)
      · simp [pubRelPacket] at hsent

variable (hok : Fitting st op)
  (hseq : ∀ c s, st.broker.sessions c = some s → s.packetIDSeq ≠ 0)

include hok hseq

theorem Fitting.free {s : Session}
    {msg : OutboundMsg} {now : ℕ} (hs : st.broker.sessions c = some s)
    (hop : op.offers s c msg now) : st.broker.inflightAt c s.nextPacketID.1 = none := by
  have hsize : s.inflight.size < 65535 := by
    cases op with
    | deliver | flush =>
      obtain ⟨rfl, -⟩ := hop
      exact hok s hs
    | _ => cases hop
  rw [inflightAt, hs]
  exact Option.isNone_iff_eq_none.mp
    (Option.isSome_eq_false_iff.mp (Session.nextPacketID_free (hseq c s hs) hsize))

variable (h : Sound st.broker st.received)

include h

theorem Sound.tracked_run {e : QoSEngine.InflightMessage}
    (he' : (st.broker.run opts op).1.engine.getInflight c id = some e) :
    ∃ msg, (st.broker.run opts op).1.inflightAt c id = some msg ∧
      (e.state = .acked → msg.pendingPubRel = true) := by
  cases st.broker.turns_run opts op c id with
  | kept hm he =>
    rw [hm]
    exact h.tracked c id e (he.symm.trans he')
  | sent hs hid hop hsends hm hqos hstate he =>
    refine ⟨_, hm, fun hacked => ?_⟩
    rw [he] at he'
    split_ifs at he'
    · cases he'
      cases hstate.symm.trans hacked
    · obtain ⟨msg, hmsg, -⟩ := h.tracked c id e he'
      rw [hid, hok.free hseq hs hop] at hmsg
      cases hmsg
  | ended _ he => cases he.symm.trans he'
  | marked hop _ hm he =>
    subst hop
    rw [he] at he'
    obtain ⟨e₀, he₀, rfl⟩ := Option.map_eq_some_iff.mp he'
    obtain ⟨msg, hmsg, -⟩ := h.tracked c id e₀ he₀
    rw [hm, hmsg, Option.map_some, if_pos (hok msg hmsg)]
    exact ⟨_, rfl, fun _ => rfl⟩
  | retried hm he₀ he₁ _ hstate =>
    cases he₁.symm.trans he'
    rw [hm, hstate]
    exact h.tracked c id _ he₀
  | restored hop hc hclean hs hdata hm he =>
    rw [he] at he'
    rcases restoreEntries_sound _ _ _ id e he' with hold | ⟨msg, hmsg, rfl, hrestored⟩
    · obtain ⟨msg, hmsg, -⟩ := h.tracked c id e hold
      rw [inflightAt, hs] at hmsg
      cases hmsg
    · rw [hm]
      exact ⟨msg, mem_inflightMsgs.mp hmsg, fun hacked => (hrestored.acked.mp hacked).2⟩
  | cleaned hop hc hclean _ he =>
    subst hop hc
    have hnone := QoSEngine.getInflight_of_inflightCount (hok hclean) id
    cases hnone.symm.trans (he.symm.trans he')

theorem Sound.ends_run {msg : InflightMsg} (hmsg : st.broker.inflightAt c id = some msg)
    (hstays : (st.broker.run opts op).1.sessions c ≠ none) :
    MayEnd st c id msg op ∨
      ∃ msg', (st.broker.run opts op).1.inflightAt c id = some msg' ∧ Continues msg msg' := by
  cases st.broker.turns_run opts op c id with
  | kept hm | retried hm => exact Or.inr ⟨msg, hm.trans hmsg, Or.inl rfl⟩
  | sent hs hid hop =>
    rw [hid, hok.free hseq hs hop] at hmsg
    cases hmsg
  | ended _ _ hend =>
    rcases hend with hop | hgone | ⟨now, rfl, hreport⟩
    · refine Or.inl ?_
      cases op with
      | pubAck =>
        obtain ⟨rfl, rfl⟩ := hop
        exact ⟨rfl, rfl, hok msg hmsg⟩
      | pubRec =>
        obtain ⟨⟨rfl, rfl⟩, hreject⟩ := hop
        exact ⟨rfl, rfl, hok msg hmsg, hreject⟩
      | pubComp =>
        obtain ⟨rfl, rfl⟩ := hop
        obtain ⟨htwo, hp⟩ := hok msg hmsg
        exact ⟨rfl, rfl, htwo, (h.marked _ _ msg hmsg hp).2⟩
      | _ => cases hop
    · exact absurd hgone hstays
    · exact Or.inl hreport
  | marked _ _ hm =>
    rw [hm, hmsg, Option.map_some]
    refine Or.inr ⟨_, rfl, ?_⟩
    split_ifs
    · exact Or.inr rfl
    · exact Or.inl rfl
  | restored _ _ _ hs =>
    rw [inflightAt, hs] at hmsg
    cases hmsg
  | cleaned hop hc hclean =>
    subst hop
    exact Or.inl ⟨hc, hclean⟩

theorem Sound.run : Keeps st op (st.broker.run opts op) := by
  refine ⟨⟨fun c id e => h.tracked_run hok hseq, fun c id msg => h.marked_run,
    fun c id m hm hp => ?_⟩, fun c id msg => h.ends_run hok hseq, fun c id hw => ?_⟩
  · rcases storedAt_run hm with hold | ⟨msg, hmsg, rfl⟩
    · exact h.received_recorded op hold hp
    · exact h.received_marked op hmsg hp
  · have hmarked : ∃ msg, (st.broker.run opts op).1.inflightAt c id = some msg ∧
        msg.pendingPubRel = true := by
      rcases released_run hw with hmarked | ⟨e, he, hacked⟩
      · exact hmarked
      · obtain ⟨msg, hmsg, hp⟩ := h.tracked_run hok hseq he
        exact ⟨msg, hmsg, hp hacked⟩
    obtain ⟨msg, hmsg, hp⟩ := hmarked
    exact ⟨msg, hmsg, h.marked_run hmsg hp⟩

end Run

/-- Every step of a run whose acknowledgements fit their deliveries keeps to the
handshakes. -/
theorem orderly_of_fitting (maxInflight retryInterval maxRetries : ℕ) (opts : Options)
    (ops : List Op) (hok : Along (step opts) Fitting (init maxInflight retryInterval maxRetries) ops) :
    Along (step opts) (fun st op => ∀ st', step opts st op = some st' → Orderly st op st')
      (init maxInflight retryInterval maxRetries) ops := by
  refine Along.of_invariant (fun st => Sound st.broker st.received ∧
      st.broker.Holds (fun _ s => s.packetIDSeq ≠ 0) fun _ => True) (fun st op st' h hok hs => ?_)
    (fun st op h hok st' hs => ?_)
    ⟨sound_init maxInflight retryInterval maxRetries,
      holds_init maxInflight retryInterval maxRetries⟩ hok
  · rw [step_eq_some hs]
    exact ⟨(h.1.run hok h.2.sessions).1, h.2.run seqInvariant opts op fun _ _ => trivial⟩
  · rw [step_eq_some hs]
    exact (h.1.run hok h.2.sessions).2

def oneDelivery (msg : OutboundMsg) : List Op :=
  [.connect persistentConnect 0, .deliver (ascii "c") msg false 0]

/-- A PUBACK takes a QoS 2 delivery out of `Inflight`, and a PUBREC for a QoS 1
delivery is answered with PUBREL. -/
theorem misfits_break_handshakes :
    (∃ st st', exec (step brokerDefaults) (init 0 20 3) (oneDelivery qos2Message) = some st ∧
      step brokerDefaults st (.pubAck (ascii "c") 1) = some st' ∧
      ¬ Orderly st (.pubAck (ascii "c") 1) st') ∧
    ∃ st st', exec (step brokerDefaults) (init 0 20 3) (oneDelivery qos1Message) = some st ∧
      step brokerDefaults st (.pubRec (ascii "c") 1 0) = some st' ∧
      ¬ Orderly st (.pubRec (ascii "c") 1 0) st' := by
  constructor
  · have hrun : (exec (step brokerDefaults) (init 0 20 3) (oneDelivery qos2Message)).map (fun st =>
        ((st.broker.inflightAt (ascii "c") 1).map InflightMsg.qos,
          (step brokerDefaults st (.pubAck (ascii "c") 1)).map fun st' =>
            ((st'.broker.inflightAt (ascii "c") 1).isSome,
              (st'.broker.sessions (ascii "c")).isSome))) =
        some (some 2, some (false, true)) := by
      decide +kernel
    obtain ⟨st, hst, hfacts⟩ := Option.map_eq_some_iff.mp hrun
    obtain ⟨hqos, hnext⟩ := Prod.mk.injEq _ _ _ _ ▸ hfacts
    obtain ⟨msg, hmsg, htwo⟩ := Option.map_eq_some_iff.mp hqos
    obtain ⟨st', hst', hgone⟩ := Option.map_eq_some_iff.mp hnext
    obtain ⟨hgone, hsession⟩ := Prod.mk.injEq _ _ _ _ ▸ hgone
    refine ⟨st, st', hst, hst', fun h => ?_⟩
    rcases h.ends _ _ msg hmsg (Option.isSome_iff_ne_none.mp hsession) with hend | ⟨msg', hmsg', -⟩
    · exact absurd (hend.2.2.symm.trans htwo) (by decide)
    · rw [hmsg'] at hgone
      cases hgone
  · have hrun : (exec (step brokerDefaults) (init 0 20 3) (oneDelivery qos1Message)).map (fun st =>
        (step brokerDefaults st (.pubRec (ascii "c") 1 0)).map fun st' =>
          ((st'.broker.inflightAt (ascii "c") 1).map InflightMsg.qos,
            st'.written.any fun w => decide (w = (ascii "c", pubRelPacket 1)))) =
        some (some (some 1, true)) := by
      decide +kernel
    obtain ⟨st, hst, hnext⟩ := Option.map_eq_some_iff.mp hrun
    obtain ⟨st', hst', hfacts⟩ := Option.map_eq_some_iff.mp hnext
    obtain ⟨hqos, hwritten⟩ := Prod.mk.injEq _ _ _ _ ▸ hfacts
    obtain ⟨w, hw, hrel⟩ := List.any_eq_true.mp hwritten
    refine ⟨st, st', hst, hst', fun h => ?_⟩
    obtain ⟨msg, hmsg, htwo, -⟩ := h.releases _ _ (of_decide_eq_true hrel ▸ hw)
    rw [hmsg, Option.map_some, htwo] at hqos
    exact absurd (Option.some.inj hqos) (by decide)

/-- Both handshakes in full, with a reconnect before the PUBCOMP. -/
def fittingRun : List Op :=
  agreedRun ++ [.pubComp (ascii "c") 1, .deliver (ascii "c") qos1Message false 0,
    .pubAck (ascii "c") 3, .pubRec (ascii "c") 2 0x87]

theorem fittingRun_orderly :
    (exec (step brokerDefaults) (init 0 20 3) fittingRun).isSome = true ∧
      Along (step brokerDefaults) (fun st op =>
        ∀ st', step brokerDefaults st op = some st' → Orderly st op st') (init 0 20 3) fittingRun :=
  ⟨by decide +kernel, orderly_of_fitting 0 20 3 brokerDefaults fittingRun (by decide +kernel)⟩

end SharkMqtt.Broker.Outbound
