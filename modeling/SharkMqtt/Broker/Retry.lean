import SharkMqtt.Broker.Handshakes

/-!
# The retry loop beside the read loop

`doRetry` collects what is due under the engine's lock and sends it after the
lock is released, so that between the two a PUBREC can be handled: the session's
entry is marked, the engine's entry is marked under its lock, and the PUBREL is
written, each in a step of its own (`broker/qos_engine.go`,
`broker/qos_outbound.go`). Here is that machine for one client, with its
deliveries, acknowledgements, give-ups, connects and disconnects.

Once the broker has sent PUBREL for an identifier it must not send a PUBLISH with
it until the exchange has ended. `republish` looks the delivery up again but not
at its stage, so a snapshot taken before the PUBREC is sent after it as a PUBLISH.
A run in which every send finds its delivery in the stage of the snapshot never
does that (`silent_of_current`).
-/

namespace SharkMqtt.Broker.Retry

open Protocol Lib
open Outbound (resumed_eq_some lookup_restore lookup_save client pubRelPacket)

/-- The rest of a handler's work on an acknowledgement. The handlers of one
connection run one after the other, but one of a connection that was taken over
may still be running; here any number may. -/
inductive Handler where
  /-- PUBREC: the session's entry is marked. -/
  | marked (id : UInt16)
  /-- PUBREC: the engine's entry is marked too, the PUBREL is owed. -/
  | releasing (id : UInt16)
  /-- PUBACK, PUBCOMP or a rejecting PUBREC: the engine's entry is dropped. -/
  | ending (id : UInt16)
deriving DecidableEq

/-- The machine's state: the broker, the handlers and the retry loop under way,
what the last step wrote, and a ghost: the identifiers for which PUBREL was
written in the exchange that is open. -/
structure State where
  broker : Outbound
  handlers : List Handler := []
  toReport : List (Str × UInt16) := []
  toRetry : List (Str × QoSEngine.InflightMessage) := []
  written : List Written := []
  released : UInt16 → Bool := fun _ => false

inductive Label where
  | deliver (msg : OutboundMsg) (retainedDelivery : Bool) (now : ℕ)
  /-- A round of a flush. -/
  | flush (now : ℕ)
  | pubAck (id : UInt16)
  | pubRec (id : UInt16) (reasonCode : UInt8)
  | pubComp (id : UInt16)
  /-- The next step of the i-th handler. -/
  | handler (i : ℕ)
  /-- `doRetry` under the engine's lock. -/
  | snapshot (now : ℕ)
  /-- Its next give-up callback. -/
  | report
  /-- Its next send. -/
  | send (now : ℕ)
  | connect (now : ℕ)
  | disconnect (now : ℕ)

/-- The delivery outstanding under an identifier, in the session or, while the
client is away, in its record: whether it awaits the PUBCOMP. -/
def phase (b : Outbound) (c : Str) (id : UInt16) : Option Bool :=
  match b.sessions c with
  | some s => (s.inflight.lookup id).map InflightMsg.pendingPubRel
  | none => ((b.stored c).bind (·.inflight.lookup id)).map InflightMessage.pendingPubRel

def State.after (st : State) (c : Str) (b : Outbound) (written : List Written) : State :=
  { st with
    broker := b
    written := written
    released := fun id =>
      (st.released id || written.any fun w => decide (w = (c, pubRelPacket id))) &&
        (phase b c id).isSome }

/-- The broker and the written packets after the next step of a handler, and the
handler afterwards. -/
def advance (b : Outbound) (c : Str) : Handler → Outbound × List Written × Option Handler
  | .marked id =>
    let r := b.engine.ackPubRec c id
    ({ b with engine := r.2 }, [], if r.1 then some (.releasing id) else none)
  | .releasing id => (b, [(c, pubRelPacket id)], none)
  | .ending id => (b.onSession c (·.settle id), [], none)

def settleHandler (hs : List Handler) (i : ℕ) (next : Option Handler) : List Handler :=
  match next with
  | some h => hs.set i h
  | none => hs.eraseIdx i

theorem mem_settleHandler {hs : List Handler} {i : ℕ} {next : Option Handler} {h : Handler}
    (hmem : h ∈ settleHandler hs i next) : h ∈ hs ∨ next = some h := by
  cases next with
  | none => exact Or.inl (List.mem_of_mem_eraseIdx hmem)
  | some h' =>
    rcases List.mem_or_eq_of_mem_set hmem with hold | rfl
    · exact Or.inl hold
    · exact Or.inr rfl

/-- A packet that ends a delivery: the engine's entry is dropped first. -/
def State.beginEnding (st : State) (c : Str) (id : UInt16) : State :=
  { st.after c { st.broker with engine := st.broker.engine.untrack c id } [] with
    handlers := st.handlers ++ [.ending id] }

def State.handlePubRec (st : State) (c : Str) (id : UInt16) (reasonCode : UInt8) : State :=
  if reasonCode ≥ 0x80 then st.beginEnding c id
  else
    { st.after c (st.broker.onSession c (·.markInflightPubRel id)) [] with
      handlers := st.handlers ++ [.marked id] }

def step (opts : Options) (pkt : ConnectPacket) (st : State) : Label → Option State
  | .deliver msg retainedDelivery now =>
    if msg.deliverQoS ≤ 2 then
      let r := st.broker.doDeliver pkt.clientID msg retainedDelivery now
      some (st.after pkt.clientID r.1 r.2)
    else none
  | .flush now =>
    let r := st.broker.flushRound pkt.clientID now
    some (st.after pkt.clientID r.1 r.2)
  | .pubAck id => some (st.beginEnding pkt.clientID id)
  | .pubRec id reasonCode => some (st.handlePubRec pkt.clientID id reasonCode)
  | .pubComp id => some (st.beginEnding pkt.clientID id)
  | .handler i =>
    match st.handlers[i]? with
    | none => none
    | some h =>
      let r := advance st.broker pkt.clientID h
      some { st.after pkt.clientID r.1 r.2.1 with
        handlers := settleHandler st.handlers i r.2.2 }
  | .snapshot now =>
    if st.toReport.isEmpty && st.toRetry.isEmpty then
      let r := st.broker.engine.collect now
      some { st.after pkt.clientID { st.broker with engine := r.engine } [] with
        toReport := r.toReport, toRetry := r.toRetry }
    else none
  | .report =>
    match st.toReport with
    | [] => none
    | item :: rest =>
      some { st.after pkt.clientID (st.broker.giveUp item) [] with toReport := rest }
  | .send now =>
    -- the give-ups are reported before anything is sent
    match st.toReport, st.toRetry with
    | [], item :: rest =>
      some { st.after pkt.clientID st.broker (st.broker.resend now item) with toRetry := rest }
    | _, _ => none
  | .connect now =>
    let r := st.broker.connect opts pkt now
    some (st.after pkt.clientID r.1 r.2)
  | .disconnect now => some (st.after pkt.clientID (st.broker.disconnect pkt.clientID now) [])

def init (maxInflight retryInterval maxRetries : ℕ) : State where
  broker := (Outbound.init maxInflight retryInterval maxRetries).broker

/-! ## What the functions do to the stages -/

variable {s : Session}

section Phases

variable {b : Outbound} {c : Str} {id id' : UInt16}

theorem phase_of_session (hs : b.sessions c = some s) :
    phase b c id = (s.inflight.lookup id).map InflightMsg.pendingPubRel := by
  unfold phase
  rw [hs]

theorem phase_of_record {data : SessionData} (hs : b.sessions c = none)
    (hdata : b.stored c = some data) :
    phase b c id = (data.inflight.lookup id).map InflightMessage.pendingPubRel := by
  unfold phase
  rw [hs, hdata]
  rfl

theorem phase_of_inflightAt {msg : InflightMsg} (h : b.inflightAt c id = some msg) :
    phase b c id = some msg.pendingPubRel := by
  obtain ⟨s, hs, hmsg⟩ := Option.bind_eq_some_iff.mp h
  rw [phase_of_session hs, hmsg]
  rfl

theorem phase_setSession (s : Session) :
    phase (b.setSession c s) c id = (s.inflight.lookup id).map InflightMsg.pendingPubRel :=
  phase_of_session ((b.sessions_setSession c c s).trans (if_pos rfl))

theorem phase_onSession_ne {c' : Str} {f : Session → Session} (hc : c ≠ c') :
    phase (b.onSession c' f) c id = phase b c id := by
  unfold Outbound.onSession
  cases b.sessions c' with
  | none => rfl
  | some s =>
    unfold phase
    simp only [Outbound.sessions_setSession, if_neg hc]
    rfl

/-- A PUBREC can only move a delivery on. -/
theorem phase_marked (b : Outbound) (c : Str) (id id' : UInt16) :
    phase (b.onSession c (·.markInflightPubRel id)) c id' = phase b c id' ∨
      id' = id ∧ (phase b c id').isSome = true ∧
        phase (b.onSession c (·.markInflightPubRel id)) c id' = some true := by
  unfold Outbound.onSession
  cases hs : b.sessions c with
  | none => exact Or.inl rfl
  | some s =>
    simp only [phase_setSession, phase_of_session hs, Session.lookup_markInflightPubRel]
    cases s.inflight.lookup id' with
    | none => exact Or.inl rfl
    | some msg =>
      simp only [Option.map_some]
      split_ifs with hsame
      · exact Or.inr ⟨hsame.1, rfl, rfl⟩
      · exact Or.inl rfl

theorem phase_settled (b : Outbound) (c : Str) (id id' : UInt16) :
    phase (b.onSession c (·.settle id)) c id' =
      if id' = id ∧ (b.inflightAt c id).isSome = true then none else phase b c id' := by
  unfold Outbound.onSession Outbound.inflightAt
  cases hs : b.sessions c with
  | none => simp
  | some s =>
    simp only [phase_setSession, phase_of_session hs, Session.lookup_settle, Option.bind_some]
    by_cases hid : id' = id
    · subst hid
      cases s.inflight.lookup id' <;> simp
    · simp [hid]

theorem phase_deliverOn {s₀ : Session} (hs₀ : b.sessions c = some s₀)
    (hs : s.inflight = s₀.inflight) (msg : OutboundMsg) (retainedDelivery : Bool) (now : ℕ) :
    (s.sends msg now = false ∧
      ∀ id, phase (b.deliverOn c s msg retainedDelivery now).1 c id = phase b c id) ∨
      (s.sends msg now = true ∧
        ∀ id, phase (b.deliverOn c s msg retainedDelivery now).1 c id =
          if id = s.nextPacketID.1 then some false else phase b c id) := by
  have hafter : (b.deliverOn c s msg retainedDelivery now).1.sessions c =
      some (s.doDeliver msg retainedDelivery now).1 :=
    (Outbound.sessions_deliverOn c).trans (if_pos rfl)
  cases hsends : s.sends msg now with
  | true =>
    refine Or.inr ⟨rfl, fun id => ?_⟩
    rw [phase_of_session hafter, phase_of_session hs₀, Session.doDeliver_of_sends hsends, ← hs]
    have hinsert : (s.withSent msg retainedDelivery now).inflight.lookup id = _ :=
      Keyed.lookup_insert s.inflight _ id
    rw [hinsert]
    by_cases hid : id = s.nextPacketID.1
    · rw [if_pos hid]
      exact congrArg (Option.map _) (if_pos hid)
    · rw [if_neg hid]
      exact congrArg (Option.map _) (if_neg hid)
  | false =>
    refine Or.inl ⟨rfl, fun id => ?_⟩
    rw [phase_of_session hafter, phase_of_session hs₀,
      (Session.doDeliver_of_not_sends hsends retainedDelivery).1, hs]

theorem phase_of_resumed {pkt : ConnectPacket}
    (hres : resumed (b.client pkt.clientID) pkt = some s) :
    phase b pkt.clientID id = (s.inflight.lookup id).map InflightMsg.pendingPubRel := by
  obtain ⟨-, hs | ⟨hnone, data, hdata, rfl⟩⟩ := resumed_eq_some.mp hres
  · exact phase_of_session hs
  · rw [phase_of_record hnone hdata, lookup_restore, Option.map_map]
    rfl

theorem phase_connect (opts : Options) (b : Outbound) (pkt : ConnectPacket) (now : ℕ)
    (id : UInt16) :
    phase (b.connect opts pkt now).1 pkt.clientID id =
      if (resumed (b.client pkt.clientID) pkt).isSome then phase b pkt.clientID id else none := by
  have hafter : (b.connect opts pkt now).1.sessions pkt.clientID =
      (Broker.connect opts (b.client pkt.clientID) pkt).session := Function.update_self _ _ _
  rw [phase_of_session (hafter.trans rfl)]
  cases hres : resumed (b.client pkt.clientID) pkt with
  | none => rfl
  | some s => exact (phase_of_resumed hres).symm

theorem phase_disconnect (b : Outbound) (c : Str) (now : ℕ) (id : UInt16) :
    phase (b.disconnect c now) c id = phase b c id ∨
      (phase (b.disconnect c now) c id = none ∧ (b.disconnect c now).stored c = none) := by
  have hafter : (b.disconnect c now).sessions c = none :=
    (b.sessions_disconnect now c c).trans (if_pos rfl)
  have hstored : (b.disconnect c now).stored c = (Broker.disconnect (b.client c) now).stored :=
    Function.update_self _ _ _
  cases hs : b.sessions c with
  | none =>
    refine Or.inl ?_
    unfold phase
    rw [hafter, hstored]
    unfold Broker.disconnect client
    rw [hs]
  | some s =>
    unfold Broker.disconnect client at hstored
    rw [hs] at hstored
    simp only at hstored
    split_ifs at hstored with hkeep
    · refine Or.inl ?_
      rw [phase_of_record hafter hstored, phase_of_session hs, lookup_save, Option.map_map]
      rfl
    · refine Or.inr ⟨?_, hstored⟩
      unfold phase
      rw [hafter, hstored]
      rfl

end Phases

/-! ## The property and its condition -/

/-- Every PUBLISH a step writes with an identifier carries one for which no PUBREL
was written in the exchange that is open. -/
def Silent (c : Str) (st st' : State) : Prop :=
  ∀ pub : PublishPacket, (c, .publish pub) ∈ st'.written → pub.fixedHeader.qos ≠ 0 →
    st.released pub.packetID = false

/-- An entry of a snapshot that is sent as PUBREL. -/
def awaitsPubComp (e : QoSEngine.InflightMessage) : Bool :=
  e.isOutbound && e.qos == 2 && e.state == .acked

/-- The PUBREL of a handler finds the delivery outstanding under its identifier, if
there is one, awaiting the PUBCOMP. -/
def Handler.Ready (b : Outbound) (c : Str) : Handler → Prop
  | .releasing id => ∀ p ∈ phase b c id, p = true
  | .marked _ | .ending _ => True

instance (b : Outbound) (c : Str) (h : Handler) : Decidable (h.Ready b c) := by
  cases h <;> dsimp only [Handler.Ready] <;> infer_instance

/-- The condition on a step: a send of the retry loop, like the PUBREL of a handler,
finds the delivery in the stage it assumes; a delivery finds a free identifier. -/
def Current (c : Str) (st : State) : Label → Prop
  | .deliver _ _ _ | .flush _ => ∀ s ∈ st.broker.sessions c, s.inflight.size < 65535
  | .handler i => ∀ h ∈ st.handlers[i]?, h.Ready st.broker c
  | .send _ =>
    ∀ item ∈ st.toRetry.head?, ∀ p ∈ phase st.broker c item.2.packetID, p = awaitsPubComp item.2
  | _ => True

instance (c : Str) (st : State) (l : Label) : Decidable (Current c st l) := by
  cases l <;> dsimp only [Current] <;> infer_instance

/-! ## Writing -/

variable {msg : OutboundMsg} {retainedDelivery : Bool}

section Writing

variable {b : Outbound} {c : Str} {now : ℕ}

/-- A PUBLISH with an identifier that `doDeliver` writes carries the one drawn. -/
theorem deliverOn_publish {pub : PublishPacket}
    (h : (c, .publish pub) ∈ (b.deliverOn c s msg retainedDelivery now).2)
    (hqos : pub.fixedHeader.qos ≠ 0) :
    s.sends msg now = true ∧ pub = s.numbered msg retainedDelivery now := by
  unfold Outbound.deliverOn at h
  cases hsends : s.sends msg now with
  | true =>
    rw [Session.doDeliver_of_sends hsends] at h
    simp only [List.mem_singleton, Prod.mk.injEq, Packet.publish.injEq, true_and] at h
    exact ⟨rfl, h⟩
  | false =>
    exfalso
    cases hout : (s.doDeliver msg retainedDelivery now).2 with
    | none =>
      simp only [hout] at h
      cases h
    | some out =>
      simp only [hout, List.mem_singleton, Prod.mk.injEq, Packet.publish.injEq, true_and] at h
      subst h
      exact hqos (Session.doDeliver_qos_of_not_sends hsends hout)

theorem deliverOn_pubRel {a : AckPacket} :
    (c, .pubRel a) ∉ (b.deliverOn c s msg retainedDelivery now).2 := by
  unfold Outbound.deliverOn
  simp only
  split <;> simp

theorem mem_resend {item : Str × QoSEngine.InflightMessage} {p : Packet}
    (h : (c, p) ∈ b.resend now item) :
    item.1 = c ∧
      (awaitsPubComp item.2 = true ∧ p = pubRelPacket item.2.packetID ∨
        awaitsPubComp item.2 = false ∧
          ∃ msg, b.inflightAt c item.2.packetID = some msg ∧
            p = .publish (Outbound.buildRetransmitPublish msg now)) := by
  unfold Outbound.resend at h
  split_ifs at h with hacked
  · simp only [List.mem_singleton, Prod.mk.injEq] at h
    exact ⟨h.1.symm, Or.inl ⟨hacked, h.2⟩⟩
  · unfold Outbound.republish at h
    cases hmsg : (b.sessions item.1).bind (·.inflight.lookup item.2.packetID) with
    | none =>
      rw [hmsg] at h
      cases h
    | some msg =>
      rw [hmsg] at h
      simp only at h
      split_ifs at h with hqos
      · simp only [List.mem_singleton, Prod.mk.injEq] at h
        obtain ⟨rfl, rfl⟩ := h
        exact ⟨rfl, Or.inr ⟨by simpa [awaitsPubComp] using hacked, msg, hmsg, rfl⟩⟩
      · cases h

theorem mem_resendSessionInflight {p : Packet}
    (h : (c, p) ∈ Outbound.resendSessionInflight c s now) :
    ∃ msg, s.inflight.lookup msg.packetID = some msg ∧
      (msg.qos = 2 ∧ msg.pendingPubRel = true ∧ p = pubRelPacket msg.packetID ∨
        ¬ (msg.qos = 2 ∧ msg.pendingPubRel = true) ∧
          p = .publish (Outbound.buildRetransmitPublish msg now)) := by
  obtain ⟨⟨key, msg⟩, hentry, hsent⟩ := List.mem_map.mp h
  refine ⟨msg, Outbound.mem_inflightMsgs.mp (List.mem_map.mpr ⟨_, hentry, rfl⟩), ?_⟩
  simp only [Bool.and_eq_true, beq_iff_eq] at hsent
  split_ifs at hsent with hmarked
  · exact Or.inl ⟨hmarked.1, hmarked.2, (Prod.mk.inj hsent).2.symm⟩
  · exact Or.inr ⟨hmarked, (Prod.mk.inj hsent).2.symm⟩

end Writing

/-! ## The invariant -/

def Label.message : Label → Option OutboundMsg
  | .deliver msg _ _ => some msg
  | _ => none

variable {st' st : State}

theorem holds_step {M : OutboundMsg → Prop} {P : Session → Prop} {Q : SessionData → Prop}
    (inv : SessionInvariant M P Q) {opts : Options} {pkt : ConnectPacket} {l : Label}
    (h : st.broker.Holds (fun _ => P) Q) (hmsg : ∀ msg, l.message = some msg → M msg)
    (hs : step opts pkt st l = some st') : st'.broker.Holds (fun _ => P) Q := by
  revert hs
  fun_cases step opts pkt st l <;> rintro ⟨⟩
  next msg retainedDelivery now _ _ =>
    exact h.doDeliver (fun _ => inv.toWhileConnected) (hmsg msg rfl) retainedDelivery now
  next now _ => exact h.flushRound (fun _ => inv.toWhileConnected) now
  · exact h.engine _
  next id reasonCode =>
    unfold State.handlePubRec
    split_ifs
    · exact h.engine _
    · exact h.onSession fun s hs => inv.mark s id hs
  · exact h.engine _
  next hd _ _ =>
    cases hd with
    | marked id => exact h.engine _
    | releasing id => exact h
    | ending id => exact h.onSession fun s hs => inv.settle s id hs
  · exact h.engine _
  next item rest _ => exact h.onSession fun s hs => inv.settle s item.2 hs
  · exact h
  next now _ => exact h.connect inv opts pkt now
  · exact h.disconnect (fun _ => inv.save) pkt.clientID _

/-- What a session of the machine always satisfies. -/
def SessionOk (s : Session) : Prop :=
  s.packetIDSeq ≠ 0 ∧
    ∀ id msg, s.inflight.lookup id = some msg → msg.pendingPubRel = true → msg.qos = 2

def RecordOk (data : SessionData) : Prop :=
  True ∧ ∀ id m, data.inflight.lookup id = some m → m.pendingPubRel = true → m.qos = 2

theorem sessionOk_invariant : SessionInvariant (fun _ => True ∧ True) SessionOk RecordOk :=
  seqInvariant.and pendingInvariant

/-- A delivery for which PUBREL was written awaits the PUBCOMP. -/
structure Inv (c : Str) (st : State) : Prop where
  released : ∀ id, st.released id = true → phase st.broker c id = some true
  sessions : st.broker.Holds (fun _ => SessionOk) RecordOk

/-- What the stage of a delivery allows to write for it. -/
def Allowed (c : Str) (b : Outbound) : Packet → Prop
  | .publish pub => pub.fixedHeader.qos ≠ 0 → phase b c pub.packetID = some false
  | .pubRel a => phase b c a.packetID ≠ some false
  | _ => True

/-- A change of the broker that writes: a delivery that awaits the PUBCOMP goes on
awaiting it or ends, and what is written is allowed afterwards. -/
structure Keeps (c : Str) (b b' : Outbound) (written : List Written) : Prop where
  phases : ∀ id, phase b c id = some true → phase b' c id ≠ some false
  allowed : ∀ p, (c, p) ∈ written → Allowed c b' p

theorem Inv.step_of_keeps {c : Str} {b' : Outbound} {written : List Written} (h : Inv c st)
    (hkeeps : Keeps c st.broker b' written) (hholds : b'.Holds (fun _ => SessionOk) RecordOk)
    (hbroker : st'.broker = b') (hwritten : st'.written = written)
    (hreleased : st'.released = (st.after c b' written).released) :
    Inv c st' ∧ Silent c st st' := by
  refine ⟨⟨fun id hid => ?_, hbroker ▸ hholds⟩, fun pub hpub hqos => ?_⟩
  · rw [hreleased] at hid
    simp only [State.after, Bool.and_eq_true, Bool.or_eq_true, List.any_eq_true,
      decide_eq_true_eq] at hid
    obtain ⟨hcause, hsome⟩ := hid
    have hstage : phase b' c id ≠ some false := by
      rcases hcause with hold | ⟨w, hw, rfl⟩
      · exact hkeeps.phases id (h.released id hold)
      · exact hkeeps.allowed _ hw
    obtain ⟨pending, hphase⟩ := Option.isSome_iff_exists.mp hsome
    rw [hphase] at hstage
    rw [hbroker, hphase]
    cases pending with
    | true => rfl
    | false => exact absurd rfl hstage
  · rw [hwritten] at hpub
    rw [← Bool.not_eq_true]
    exact fun hreleased => hkeeps.phases _ (h.released _ hreleased) (hkeeps.allowed _ hpub hqos)

section Steps

variable {b : Outbound} {c : Str} {now : ℕ}

/-- Nothing is written and the stages only move on. -/
theorem keeps_of_silent {b' : Outbound}
    (h : ∀ id, phase b c id = some true → phase b' c id = some true ∨ phase b' c id = none) :
    Keeps c b b' [] where
  phases := fun id hid hfalse => by
    rcases h id hid with htrue | hnone
    · cases htrue.symm.trans hfalse
    · cases hnone.symm.trans hfalse
  allowed := fun _ hw => by cases hw

theorem keeps_of_same {written : List Written} (h : ∀ p, (c, p) ∈ written → Allowed c b p) :
    Keeps c b b written :=
  ⟨fun _ htrue hfalse => (by cases htrue.symm.trans hfalse), h⟩

theorem keeps_engine (q : QoSEngine) : Keeps c b { b with engine := q } [] :=
  keeps_of_silent fun _ h => Or.inl h

theorem keeps_settled (c' : Str) (id : UInt16) : Keeps c b (b.onSession c' (·.settle id)) [] := by
  refine keeps_of_silent fun id' hid' => ?_
  by_cases hc : c' = c
  · subst hc
    rw [phase_settled]
    split_ifs
    · exact Or.inr rfl
    · exact Or.inl hid'
  · exact Or.inl ((phase_onSession_ne (Ne.symm hc)).trans hid')

theorem keeps_marked (id : UInt16) : Keeps c b (b.onSession c (·.markInflightPubRel id)) [] := by
  refine keeps_of_silent fun id' hid' => Or.inl ?_
  rcases phase_marked b c id id' with hsame | ⟨-, -, htrue⟩
  · exact hsame.trans hid'
  · exact htrue

theorem keeps_deliverOn {s₀ : Session} (hs₀ : b.sessions c = some s₀)
    (hs : s.inflight = s₀.inflight) (hseq : s.packetIDSeq ≠ 0) (hsize : s₀.inflight.size < 65535) :
    Keeps c b (b.deliverOn c s msg retainedDelivery now).1
      (b.deliverOn c s msg retainedDelivery now).2 := by
  have hfree : phase b c s.nextPacketID.1 = none := by
    have hfree := Session.nextPacketID_free hseq (hs ▸ hsize)
    rw [phase_of_session hs₀, ← hs,
      Option.isNone_iff_eq_none.mp (Option.isSome_eq_false_iff.mp hfree)]
    rfl
  have hview := phase_deliverOn hs₀ hs msg retainedDelivery now
  refine ⟨fun id hid hfalse => ?_, fun p hp => ?_⟩
  · rcases hview with ⟨-, hsame⟩ | ⟨-, hdrawn⟩
    · cases hid.symm.trans ((hsame id).symm.trans hfalse)
    · rw [hdrawn] at hfalse
      split_ifs at hfalse with hd
      · rw [hd, hfree] at hid
        cases hid
      · cases hid.symm.trans hfalse
  · cases p with
    | publish pub =>
      intro hqos
      obtain ⟨hsends, rfl⟩ := deliverOn_publish hp hqos
      rcases hview with ⟨hnot, -⟩ | ⟨-, hdrawn⟩
      · cases hsends.symm.trans hnot
      · exact (hdrawn _).trans (if_pos rfl)
    | pubRel a => exact absurd hp deliverOn_pubRel
    | _ => trivial

theorem keeps_idle : Keeps c b b [] := keeps_of_same fun _ hw => by cases hw

theorem keeps_doDeliver (hholds : b.Holds (fun _ => SessionOk) RecordOk)
    (hsize : ∀ s ∈ b.sessions c, s.inflight.size < 65535) :
    Keeps c b (b.doDeliver c msg retainedDelivery now).1
      (b.doDeliver c msg retainedDelivery now).2 := by
  unfold Outbound.doDeliver
  cases hs : b.sessions c with
  | none => exact keeps_idle
  | some s => exact keeps_deliverOn hs rfl (hholds.sessions c s hs).1 (hsize s hs)

theorem keeps_flushRound (hholds : b.Holds (fun _ => SessionOk) RecordOk)
    (hsize : ∀ s ∈ b.sessions c, s.inflight.size < 65535) :
    Keeps c b (b.flushRound c now).1 (b.flushRound c now).2 := by
  rcases b.flushRound_cases c now with hidle | ⟨s, msg, rest, hs, -, hround⟩
  · rw [hidle]
    exact keeps_idle
  · rw [hround]
    exact keeps_deliverOn (s := { s with outboundQueue := rest }) hs rfl
      (hholds.sessions c s hs).1 (hsize s hs)

theorem keeps_resend {item : Str × QoSEngine.InflightMessage}
    (hstage : ∀ p ∈ phase b c item.2.packetID, p = awaitsPubComp item.2) :
    Keeps c b b (b.resend now item) := by
  refine keeps_of_same fun p hw => ?_
  obtain ⟨-, ⟨hawaits, rfl⟩ | ⟨hawaits, msg, hmsg, rfl⟩⟩ := mem_resend hw
  · intro hfalse
    cases (hstage false hfalse).trans hawaits
  · obtain ⟨s, -, hentry⟩ := Option.bind_eq_some_iff.mp hmsg
    have hkey : msg.packetID = item.2.packetID := s.inflight.keyed _ msg hentry
    have hphase := phase_of_inflightAt hmsg
    rw [(hstage _ hphase).trans hawaits, ← hkey] at hphase
    exact fun _ => hphase

theorem keeps_releasing {id : UInt16} (hready : ∀ p ∈ phase b c id, p = true) :
    Keeps c b b [(c, pubRelPacket id)] := by
  refine keeps_of_same fun p hw => ?_
  cases List.mem_singleton.mp hw
  intro hfalse
  cases hready false hfalse

theorem keeps_connect (hholds : b.Holds (fun _ => SessionOk) RecordOk) (opts : Options) (pkt : ConnectPacket)
    (now : ℕ) : Keeps pkt.clientID b (b.connect opts pkt now).1 (b.connect opts pkt now).2 := by
  refine ⟨fun id hid => ?_, fun p hw => ?_⟩
  · rw [phase_connect]
    split_ifs
    · rw [hid]
      decide
    · exact nofun
  · obtain ⟨s, hres, hsent⟩ := b.mem_connect opts pkt now hw
    obtain ⟨msg, hmsg, hcases⟩ := mem_resendSessionInflight hsent
    have hphase : phase (b.connect opts pkt now).1 pkt.clientID msg.packetID =
        some msg.pendingPubRel := by
      rw [phase_connect, hres, Option.isSome_some, if_pos rfl, phase_of_resumed hres, hmsg]
      rfl
    rcases hcases with ⟨-, hp, rfl⟩ | ⟨hnot, rfl⟩
    · rw [hp] at hphase
      exact fun hfalse => by cases hphase.symm.trans hfalse
    · have hok : SessionOk s := hholds.resumed sessionOk_invariant hres
      have hp : msg.pendingPubRel = false :=
        Bool.eq_false_of_not_eq_true fun hp => hnot ⟨hok.2 _ msg hmsg hp, hp⟩
      exact fun _ => hp ▸ hphase

theorem keeps_disconnect (now : ℕ) : Keeps c b (b.disconnect c now) [] := by
  refine keeps_of_silent fun id hid => ?_
  rcases phase_disconnect b c now id with hsame | ⟨hnone, -⟩
  · exact Or.inl (hsame.trans hid)
  · exact Or.inr hnone

end Steps

theorem Inv.step {opts : Options} {pkt : ConnectPacket} {l : Label} (h : Inv pkt.clientID st)
    (hok : Current pkt.clientID st l) (hs : step opts pkt st l = some st') :
    Inv pkt.clientID st' ∧ Silent pkt.clientID st st' := by
  have hholds := holds_step sessionOk_invariant h.sessions (fun _ _ => ⟨trivial, trivial⟩) hs
  have hkeeps : ∀ {b' : Outbound} {written : List Written},
      Keeps pkt.clientID st.broker b' written → st'.broker = b' → st'.written = written →
        st'.released = (st.after pkt.clientID b' written).released →
          Inv pkt.clientID st' ∧ Silent pkt.clientID st st' :=
    fun hk hb hw hr => h.step_of_keeps hk (hb ▸ hholds) hb hw hr
  revert hs hok
  fun_cases Retry.step opts pkt st l <;> rintro hok ⟨⟩
  · exact hkeeps (keeps_doDeliver h.sessions hok) rfl rfl rfl
  · exact hkeeps (keeps_flushRound h.sessions hok) rfl rfl rfl
  · exact hkeeps (keeps_engine _) rfl rfl rfl
  next id reasonCode =>
    unfold State.handlePubRec at hkeeps ⊢
    split_ifs at hkeeps ⊢
    · exact hkeeps (keeps_engine _) rfl rfl rfl
    · exact hkeeps (keeps_marked id) rfl rfl rfl
  · exact hkeeps (keeps_engine _) rfl rfl rfl
  next hd hh _ =>
    have hready : hd.Ready st.broker pkt.clientID := hok hd hh
    cases hd with
    | marked id => exact hkeeps (keeps_engine _) rfl rfl rfl
    | releasing id => exact hkeeps (keeps_releasing hready) rfl rfl rfl
    | ending id => exact hkeeps (keeps_settled pkt.clientID id) rfl rfl rfl
  · exact hkeeps (keeps_engine _) rfl rfl rfl
  next item rest _ => exact hkeeps (keeps_settled item.1 item.2) rfl rfl rfl
  next item rest hretry _ =>
    exact hkeeps (keeps_resend (hok item (by rw [hretry]; rfl))) rfl rfl rfl
  · exact hkeeps (keeps_connect h.sessions opts pkt _) rfl rfl rfl
  · exact hkeeps (keeps_disconnect _) rfl rfl rfl

/-- In a run in which every send finds its delivery in the stage it assumes, no
PUBLISH follows a PUBREL with its identifier before the exchange has ended. -/
theorem silent_of_current (maxInflight retryInterval maxRetries : ℕ) (opts : Options)
    (pkt : ConnectPacket) (ls : List Label) (hok : Along (step opts pkt) (Current pkt.clientID)
      (init maxInflight retryInterval maxRetries) ls) :
    Along (step opts pkt) (fun st l => ∀ st', step opts pkt st l = some st' →
      Silent pkt.clientID st st') (init maxInflight retryInterval maxRetries) ls := by
  refine Along.of_invariant (Inv pkt.clientID) (fun st l st' h hok hs => (h.step hok hs).1)
    (fun st l h hok st' hs => (h.step hok hs).2) ⟨fun id hid => ?_, ?_⟩ hok
  · cases hid
  · exact Outbound.holds_init maxInflight retryInterval maxRetries

def connect311 : ConnectPacket := { Outbound.persistentConnect with protocolVersion := version311 }

/-- The delivery is due and collected; its PUBREC is handled and the PUBREL written;
then the retry loop comes to its send. -/
def staleSnapshot : List Label :=
  [.connect 0, .deliver Outbound.qos2Message false 0, .snapshot 20, .pubRec 1 0, .handler 0,
    .handler 0]

/-- The send is a PUBLISH with the identifier of the PUBREL. -/
theorem staleSnapshot_publishes_after_pubRel :
    ∃ st st', exec (step brokerDefaults connect311) (init 0 20 3) staleSnapshot = some st ∧
      step brokerDefaults connect311 st (.send 20) = some st' ∧
      (ascii "c", pubRelPacket 1) ∈ st.written ∧ ¬ Silent (ascii "c") st st' := by
  obtain ⟨st, hst⟩ := Option.isSome_iff_exists.mp
    (by decide +kernel :
      (exec (step brokerDefaults connect311) (init 0 20 3) staleSnapshot).isSome = true)
  have hreleased : st.released 1 = true := of_exec hst (by decide +kernel)
  have hnext : ((step brokerDefaults connect311 st (.send 20)).map fun st' => st'.written.any
      fun w => match w with
        | (c, .publish pub) => decide (c = ascii "c") && decide (pub.fixedHeader.qos = 2) &&
            decide (pub.packetID = 1)
        | _ => false) = some true := of_exec hst (by decide +kernel)
  obtain ⟨st', hst', hsent⟩ := Option.map_eq_some_iff.mp hnext
  refine ⟨st, st', hst, hst', of_exec hst (by decide +kernel), fun h => ?_⟩
  obtain ⟨⟨c, p⟩, hp, hpub⟩ := List.any_eq_true.mp hsent
  cases p with
  | publish pub =>
    simp only [Bool.and_eq_true, decide_eq_true_eq] at hpub
    obtain ⟨⟨rfl, hqos⟩, hid⟩ := hpub
    have hquiet := h pub hp (by rw [hqos]; decide)
    rw [hid, hreleased] at hquiet
    cases hquiet
  | _ => cases hpub

/-- The send comes before the PUBREC, a second tick finds the delivery marked and
repeats the PUBREL, and the PUBCOMP ends the exchange. -/
def freshSnapshots : List Label :=
  [.connect 0, .deliver Outbound.qos2Message false 0, .snapshot 20, .send 20, .pubRec 1 0,
    .handler 0, .handler 0, .snapshot 40, .send 40, .pubComp 1, .handler 0]

theorem freshSnapshots_silent :
    (exec (step brokerDefaults connect311) (init 0 20 3) freshSnapshots).isSome = true ∧
      Along (step brokerDefaults connect311) (fun st l =>
        ∀ st', step brokerDefaults connect311 st l = some st' → Silent (ascii "c") st st')
        (init 0 20 3) freshSnapshots :=
  ⟨by decide +kernel,
    silent_of_current 0 20 3 brokerDefaults connect311 freshSnapshots (by decide +kernel)⟩

end SharkMqtt.Broker.Retry
