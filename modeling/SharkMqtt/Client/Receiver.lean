import SharkMqtt.Broker.Retry
import SharkMqtt.Lib.Exchange

/-!
# The client as receiver of QoS 2 deliveries

The client marks the identifier of a QoS 2 PUBLISH, passes the message to its
callback unless the mark stands already, and clears the mark on PUBREL
(`client/client.go`). Here it is connected to the broker's outbound path with its
retry loop: two links that keep their order, connections that drop and lose what
the links carry, sessions resumed in memory or restored from the store.

Every message whose exchange the broker completes should have been passed to the
callback exactly once. A delivery the broker gives up leaves the client's mark
standing, and the identifier is drawn again, soon after a restore; and a PUBLISH
sent after its PUBREL is taken for a new message. Without either the property
holds (`exactlyOnce_of_undisturbed`): under each identifier the machine is a run
of `Lib.Exchange`.
-/

namespace SharkMqtt.Client

open Protocol Lib Broker Function
open Broker.Retry (phase)
open Relation (ReflTransGen)

/-! ## The client -/

/-- The client's state, as far as it receives: `receivedQoS2`. -/
structure Receiver where
  receivedQoS2 : UInt16 → Bool := fun _ => false

structure Received where
  topic : Str
  qos : UInt8
  payload : Bytes

def pubAckPacket (id : UInt16) : Packet :=
  .pubAck { fixedHeader := { packetType := .pubAck }, packetID := id }

def pubRecPacket (id : UInt16) : Packet :=
  .pubRec { fixedHeader := { packetType := .pubRec }, packetID := id }

def pubCompPacket (id : UInt16) : Packet :=
  .pubComp { fixedHeader := { packetType := .pubComp }, packetID := id }

/-- The client afterwards, the callback's arguments if it is called, and the
acknowledgement. -/
def Receiver.handlePublish (r : Receiver) (pkt : PublishPacket) :
    Receiver × Option Received × List Packet :=
  let received : Received := ⟨pkt.topic, pkt.fixedHeader.qos, pkt.payload⟩
  if pkt.fixedHeader.qos = 2 then
    if r.receivedQoS2 pkt.packetID then (r, none, [pubRecPacket pkt.packetID])
    else
      ({ receivedQoS2 := update r.receivedQoS2 pkt.packetID true }, some received,
        [pubRecPacket pkt.packetID])
  else if pkt.fixedHeader.qos = 1 then (r, some received, [pubAckPacket pkt.packetID])
  else (r, some received, [])

def Receiver.handlePubRel (r : Receiver) (id : UInt16) : Receiver × List Packet :=
  ({ receivedQoS2 := update r.receivedQoS2 id false }, [pubCompPacket id])

/-- The marks are dropped for a clean session and when the broker has none. -/
def Receiver.connect (r : Receiver) (cleanSession sessionPresent : Bool) : Receiver :=
  if cleanSession || !sessionPresent then {} else r

/-! ## The machine -/

/-- The broker, the client, the links, and ghosts: each identifier's deliveries are
numbered as they are put in flight, a PUBLISH on the link carries the number of its
delivery, and for each identifier the numbers passed to the callback, those the
broker completed, and whether one was given up are recorded. -/
structure State where
  base : Retry.State
  receiver : Receiver := {}
  connected : Bool := false
  down : List (Packet × ℕ) := []
  up : List Packet := []
  gen : UInt16 → ℕ := fun _ => 0
  calls : UInt16 → List ℕ := fun _ => []
  completed : UInt16 → List ℕ := fun _ => []
  abandoned : UInt16 → Bool := fun _ => false

inductive Label where
  /-- The broker delivers, or goes on with a handler or the retry loop. -/
  | broker (l : Retry.Label)
  /-- The broker's read loop takes the next packet. -/
  | toBroker
  /-- The client takes the next packet. -/
  | toClient
  | drop
  | connect (now : ℕ)
  | disconnect (now : ℕ)

/-- The steps the broker takes by itself; its messages are of QoS 2. -/
def ownStep : Retry.Label → Bool
  | .deliver msg _ _ => decide (msg.deliverQoS = 2)
  | .flush _ | .handler _ | .snapshot _ | .report | .send _ => true
  | .pubAck _ | .pubRec _ _ | .pubComp _ | .connect _ | .disconnect _ => false

def tag (gen : UInt16 → ℕ) : Packet → ℕ
  | .publish pub => gen pub.packetID
  | _ => 0

/-- What reaches the link of what is written. -/
def outgoing (c : Str) (gen : UInt16 → ℕ) (written : List Written) : List (Packet × ℕ) :=
  written.filterMap fun w => if w.1 = c then some (w.2, tag gen w.2) else none

/-- A delivery is numbered when it becomes outstanding. -/
def State.numbers (st : State) (c : Str) (b : Outbound) (id : UInt16) : ℕ :=
  if (phase st.base.broker c id).isNone && (phase b c id).isSome then st.gen id + 1 else st.gen id

/-- The exchanges a handler completes: `RemoveInflight` has found the delivery. -/
def State.completedBy (st : State) (c : Str) : Retry.Label → UInt16 → List ℕ
  | .handler i =>
    match st.base.handlers[i]? with
    | some (.ending id) =>
      if (st.base.broker.inflightAt c id).isSome then
        update st.completed id (st.completed id ++ [st.gen id])
      else st.completed
    | _ => st.completed
  | _ => st.completed

/-- The deliveries a give-up callback abandons. -/
def State.abandonedBy (st : State) (c : Str) : Retry.Label → UInt16 → Bool
  | .report =>
    match st.base.toReport with
    | item :: _ =>
      if item.1 = c ∧ (st.base.broker.inflightAt c item.2).isSome = true then
        update st.abandoned item.2 true
      else st.abandoned
    | [] => st.abandoned
  | _ => st.abandoned

def State.follow (st : State) (c : Str) (l : Retry.Label) (base : Retry.State) : State :=
  { st with
    base := base
    gen := st.numbers c base.broker
    down :=
      if st.connected then st.down ++ outgoing c (st.numbers c base.broker) base.written
      else st.down
    completed := st.completedBy c l
    abandoned := st.abandonedBy c l }

/-- The step of the broker that handles a packet. -/
def handling : Packet → Option Retry.Label
  | .pubAck a => some (.pubAck a.packetID)
  | .pubRec a => some (.pubRec a.packetID a.reasonCode)
  | .pubComp a => some (.pubComp a.packetID)
  | _ => none

def State.receive (st : State) : Packet × ℕ → State
  | (.publish pub, k) =>
    let r := st.receiver.handlePublish pub
    { st with
      receiver := r.1
      up := st.up ++ r.2.2
      calls :=
        if r.2.1.isSome then update st.calls pub.packetID (st.calls pub.packetID ++ [k])
        else st.calls }
  | (.pubRel a, _) =>
    let r := st.receiver.handlePubRel a.packetID
    { st with receiver := r.1, up := st.up ++ r.2 }
  | _ => st

def step (opts : Options) (pkt : ConnectPacket) (st : State) : Label → Option State
  | .broker l =>
    if ownStep l then (Retry.step opts pkt st.base l).map (st.follow pkt.clientID l) else none
  | .toBroker =>
    match st.up with
    | [] => none
    | p :: rest =>
      match handling p with
      | none => some { st with up := rest }
      | some l =>
        (Retry.step opts pkt st.base l).map fun base =>
          { st.follow pkt.clientID l base with up := rest }
  | .toClient =>
    match st.down with
    | [] => none
    | item :: rest => some { st.receive item with down := rest }
  | .drop => some { st with connected := false, down := [], up := [] }
  | .connect now =>
    -- the old connection, if any, is gone; the CONNACK comes before what is resent
    let present := (resumed (st.base.broker.client pkt.clientID) pkt).isSome
    (Retry.step opts pkt st.base (.connect now)).map fun base =>
      { st with
        base := base
        receiver := st.receiver.connect pkt.flags.cleanSession present
        connected := true
        down := outgoing pkt.clientID st.gen base.written
        up := []
        abandoned := if present then st.abandoned else fun _ => false }
  | .disconnect now =>
    (Retry.step opts pkt st.base (.disconnect now)).map fun base =>
      { st with base := base, connected := false, down := [], up := [] }

def init (maxInflight retryInterval maxRetries : ℕ) : State where
  base := Retry.init maxInflight retryInterval maxRetries

/-- Every delivery the broker completed was passed to the callback exactly once. -/
def ExactlyOnce (st : State) : Prop := ∀ id, ∀ k ∈ st.completed id, (st.calls id).count k = 1

/-! ## The condition -/

/-- What a packet to the client is for the identifier's exchange. -/
def forwardOf (id : UInt16) : Packet × ℕ → Option Forward
  | (.publish pub, k) => if pub.packetID = id then some (.message k) else none
  | (.pubRel a, _) => if a.packetID = id then some .release else none
  | _ => none

/-- What a packet to the broker is for it. -/
def backwardOf (id : UInt16) : Packet → Option Backward
  | .pubRec a => if a.packetID = id then some .received else none
  | .pubComp a => if a.packetID = id then some .completed else none
  | _ => none

/-- Nothing is left of an earlier delivery under the identifier: none was given up
in this session, no packet on the links names it, and no handler is about to settle
it. -/
def Fresh (st : State) (id : UInt16) : Prop :=
  st.abandoned id = false ∧ (∀ item ∈ st.down, forwardOf id item = none) ∧
    (∀ p ∈ st.up, backwardOf id p = none) ∧ Retry.Handler.ending id ∉ st.base.handlers

instance (st : State) (id : UInt16) : Decidable (Fresh st id) :=
  inferInstanceAs (Decidable (_ ∧ _ ∧ _ ∧ _))

def drawn (c : Str) (st : State) : Retry.Label → Option UInt16
  | .deliver msg _ now =>
    (st.base.broker.sessions c).bind fun s =>
      if s.sends msg now then some s.nextPacketID.1 else none
  | .flush now =>
    (st.base.broker.sessions c).bind fun s => s.outboundQueue.head?.bind fun msg =>
      if s.sends msg now then some s.nextPacketID.1 else none
  | _ => none

/-- The condition on a step: the broker's sends find their delivery in the stage they
assume, and an identifier that is drawn is fresh. -/
def Undisturbed (c : Str) (st : State) : Label → Prop
  | .broker l => Retry.Current c st.base l ∧ ∀ id ∈ drawn c st l, Fresh st id
  | _ => True

instance (c : Str) (st : State) : ∀ l : Label, Decidable (Undisturbed c st l)
  | .broker l =>
    -- by looking at the identifier drawn, not by trying all of them
    have : Decidable (∀ id ∈ drawn c st l, Fresh st id) := Option.decidableForallMem _
    inferInstanceAs (Decidable (Retry.Current c st.base l ∧ ∀ id ∈ drawn c st l, Fresh st id))
  | .toBroker | .toClient | .drop | .connect _ | .disconnect _ => inferInstanceAs (Decidable True)

/-! ## One identifier -/

def hasSession (b : Outbound) (c : Str) : Bool := (b.sessions c).isSome || (b.stored c).isSome

/-- The state as the exchange under one identifier sees it. -/
def viewAt (c : Str) (st : State) (id : UInt16) : Exchange where
  stage := phase st.base.broker c id
  gen := st.gen id
  forward := st.down.filterMap (forwardOf id)
  backward := st.up.filterMap (backwardOf id)
  marked := st.receiver.receivedQoS2 id
  ending := st.base.handlers.contains (.ending id)
  abandoned := st.abandoned id
  shared := hasSession st.base.broker c
  accepted := st.calls id
  completed := st.completed id

variable {c : Str}

/-- What the stage of a delivery allows the broker to send for it; a message is of QoS 2. -/
def Allowed (c : Str) (b : Outbound) : Packet → Prop
  | .publish pub => pub.fixedHeader.qos = 2 ∧ phase b c pub.packetID = some false
  | .pubRel a => phase b c a.packetID ≠ some false
  | _ => True

section Outgoing

variable {gen : UInt16 → ℕ} {written : List Written} {p : Packet} {k : ℕ}

theorem mem_outgoing (h : (p, k) ∈ outgoing c gen written) : (c, p) ∈ written ∧ k = tag gen p := by
  obtain ⟨⟨c', p'⟩, hw, hout⟩ := List.mem_filterMap.mp h
  split_ifs at hout with hc
  cases hout
  exact ⟨hc ▸ hw, rfl⟩

/-- What is written for the client puts on the link what its exchanges send. -/
theorem forward_outgoing {b : Outbound} {id : UInt16} {f : Forward}
    (hallowed : ∀ p, (c, p) ∈ written → Allowed c b p)
    (h : f ∈ (outgoing c gen written).filterMap (forwardOf id)) :
    (f = .message (gen id) ∧ phase b c id = some false) ∨
      (f = .release ∧ phase b c id ≠ some false) := by
  obtain ⟨⟨p, k⟩, hitem, hf⟩ := List.mem_filterMap.mp h
  obtain ⟨hw, rfl⟩ := mem_outgoing hitem
  have hp := hallowed p hw
  cases p with
  | publish pub =>
    simp only [forwardOf] at hf
    split_ifs at hf with hid
    cases hf
    subst hid
    exact Or.inl ⟨rfl, hp.2⟩
  | pubRel a =>
    simp only [forwardOf] at hf
    split_ifs at hf with hid
    cases hf
    subst hid
    exact Or.inr ⟨rfl, hp⟩
  | _ => cases hf

end Outgoing

/-! ## What holds of all of the state -/

/-- Sessions carry QoS 2 messages only. -/
def SessionOk (s : Session) : Prop :=
  s.packetIDSeq ≠ 0 ∧ (∀ id msg, s.inflight.lookup id = some msg → msg.qos = 2) ∧
    ∀ msg ∈ s.outboundQueue, msg.deliverQoS = 2

def RecordOk (data : SessionData) : Prop :=
  True ∧ ∀ id m, data.inflight.lookup id = some m → m.qos = 2

variable {msg : OutboundMsg} {retainedDelivery : Bool}

theorem queue_doDeliver {s : Session} {m : OutboundMsg} {now : ℕ}
    (h : m ∈ (s.doDeliver msg retainedDelivery now).1.outboundQueue) :
    m ∈ s.outboundQueue ∨ m = msg := by
  unfold Session.doDeliver at h
  split_ifs at h
  · exact Or.inl h
  · unfold Session.bufferOutbound at h
    split_ifs at h
    · exact Or.inl h
    · rcases List.mem_append.mp h with h | h
      · exact Or.inl h
      · exact Or.inr (List.mem_singleton.mp h)
  · exact Or.inl h
  · exact Or.inl h

theorem qos2Invariant :
    SessionInvariant (fun msg => msg.deliverQoS = 2)
      (fun s => (∀ id msg, s.inflight.lookup id = some msg → msg.qos = 2) ∧
        ∀ msg ∈ s.outboundQueue, msg.deliverQoS = 2)
      (fun data => ∀ id m, data.inflight.lookup id = some m → m.qos = 2) where
  fresh := fun c => by refine ⟨fun id msg h => ?_, fun msg h => ?_⟩ <;> cases h
  negotiate := fun s _ _ _ h => h
  restore := fun data h => by
    refine ⟨fun id msg hmsg => ?_, fun msg hmsg => by cases hmsg⟩
    rw [Outbound.lookup_restore] at hmsg
    obtain ⟨m, hm, rfl⟩ := Option.map_eq_some_iff.mp hmsg
    exact h id m hm
  save := fun s now h id m hm => by
    rw [Outbound.lookup_save] at hm
    obtain ⟨msg, hmsg, rfl⟩ := Option.map_eq_some_iff.mp hm
    exact h.1 id msg hmsg
  settle := fun s id h => by
    refine ⟨fun id' msg hmsg => ?_, ?_⟩
    · rw [Session.lookup_settle] at hmsg
      split_ifs at hmsg
      exact h.1 id' msg hmsg
    · unfold Session.settle Session.removeInflight
      split_ifs <;> exact h.2
  mark := fun s id h => by
    refine ⟨fun id' msg hmsg => ?_, ?_⟩
    · rw [Session.lookup_markInflightPubRel] at hmsg
      obtain ⟨m, hm, rfl⟩ := Option.map_eq_some_iff.mp hmsg
      split_ifs <;> exact h.1 id' m hm
    · obtain ⟨table, heq, -⟩ := s.markInflightPubRel_eq id
      rw [heq]
      exact h.2
  deliver := fun s msg retainedDelivery now hmsg h => by
    refine ⟨fun id m hm => ?_, fun m hm => ?_⟩
    · rcases Session.lookup_doDeliver hm with hold | rfl
      · exact h.1 id m hold
      · exact hmsg
    · rcases queue_doDeliver hm with hold | rfl
      · exact h.2 m hold
      · exact hmsg
  pop := fun s msg rest hq h =>
    ⟨h.2 msg (hq ▸ List.mem_cons_self), h.1, fun m hm => h.2 m (hq ▸ List.mem_cons_of_mem _ hm)⟩

theorem sessionOk_invariant :
    SessionInvariant (fun msg => True ∧ msg.deliverQoS = 2) SessionOk RecordOk :=
  seqInvariant.and qos2Invariant

/-! ## The broker's steps -/

variable {d : UInt16}

section Simulation

variable {c : Str} {st : State} {l : Retry.Label} {base : Retry.State} {id : UInt16}

/-- Only a delivery that was not there gets a new number. -/
theorem numbers_eq_gen {b : Outbound} (h : phase st.base.broker c id = none → phase b c id = none) :
    st.numbers c b id = st.gen id := by
  unfold State.numbers
  cases hphase : phase st.base.broker c id with
  | none =>
    rw [h hphase]
    rfl
  | some b => rfl

theorem viewAt_follow :
    viewAt c (st.follow c l base) id =
      { viewAt c st id with
        stage := phase base.broker c id
        gen := st.numbers c base.broker id
        forward := (viewAt c st id).forward ++
          if st.connected then
            (outgoing c (st.numbers c base.broker) base.written).filterMap (forwardOf id)
          else []
        ending := base.handlers.contains (.ending id)
        abandoned := st.abandonedBy c l id
        shared := hasSession base.broker c
        completed := st.completedBy c l id } := by
  unfold viewAt State.follow
  cases st.connected with
  | true | false => simp

theorem hasSession_of_sessions {b b' : Outbound}
    (hsessions : b'.sessions c = none ↔ b.sessions c = none) (hstored : b'.stored = b.stored) :
    hasSession b' c = hasSession b c := by
  unfold hasSession
  rw [hstored]
  congr 1
  rw [Bool.eq_iff_iff, Option.isSome_iff_ne_none, Option.isSome_iff_ne_none]
  exact not_congr hsessions

theorem hasSession_onSession (b : Outbound) (c' : Str) (f : Session → Session) :
    hasSession (b.onSession c' f) c = hasSession b c :=
  hasSession_of_sessions (b.sessions_onSession_eq_none c' c f) (b.stored_onSession c' f)

/-- What a step of the broker does to the exchanges and puts on the link. -/
structure Simulates (c : Str) (st : State) (l : Retry.Label) (base : Retry.State) : Prop where
  steps : ∀ id, ReflTransGen Exchange.Step (viewAt c st id)
    (viewAt c (st.follow c l base) id)
  allowed : ∀ p, (c, p) ∈ base.written → Allowed c base.broker p

section Follow

-- the session stays, and no handler is added that settles a delivery
variable (hshared : hasSession base.broker c = hasSession st.base.broker c)
  (hhandlers : ∀ id, base.handlers.contains (.ending id) = true →
    st.base.handlers.contains (.ending id) = true)

include hshared hhandlers

/-- A step of the broker that leaves the delivery under an identifier in its stage
and sends what that stage allows. -/
theorem steps_follow (hphase : phase base.broker c id = phase st.base.broker c id)
    (hallowed : ∀ p, (c, p) ∈ base.written → Allowed c base.broker p)
    (habandoned : st.abandonedBy c l id = st.abandoned id)
    (hcompleted : st.completedBy c l id = st.completed id) :
    ReflTransGen Exchange.Step (viewAt c st id) (viewAt c (st.follow c l base) id) := by
  have hgen : st.numbers c base.broker id = st.gen id := numbers_eq_gen hphase.trans
  rw [viewAt_follow, hphase, hshared, hgen, habandoned, hcompleted]
  refine ReflTransGen.trans (Exchange.steps_ending (hhandlers id))
    (Exchange.steps_append _ { viewAt c st id with
      ending := base.handlers.contains (.ending id) } fun f hf => ?_)
  split_ifs at hf
  · have hforward := forward_outgoing hallowed hf
    rwa [hgen, hphase] at hforward
  · cases hf

/-- A step that draws an identifier starts an exchange under it. -/
theorem steps_draw (hfresh : Fresh st d) (hnone : phase st.base.broker c d = none)
    (hphase : ∀ id, phase base.broker c id =
      if id = d then some false else phase st.base.broker c id)
    (hhas : hasSession st.base.broker c = true)
    {pub : PublishPacket} (hid : pub.packetID = d) (hwritten : base.written = [(c, .publish pub)])
    (hallowed : ∀ p, (c, p) ∈ base.written → Allowed c base.broker p)
    (hsame : base.handlers = st.base.handlers) (habandoned : st.abandonedBy c l = st.abandoned)
    (hcompleted : st.completedBy c l = st.completed) (id : UInt16) :
    ReflTransGen Exchange.Step (viewAt c st id) (viewAt c (st.follow c l base) id) := by
  by_cases hd : id = d
  · subst hd
    obtain ⟨hab, hdown, hup, hend⟩ := hfresh
    have hgen : st.numbers c base.broker id = st.gen id + 1 := by
      unfold State.numbers
      rw [hnone, hphase, if_pos rfl]
      rfl
    have hforward : (viewAt c st id).forward = [] := List.filterMap_eq_nil_iff.mpr hdown
    have hbackward : (viewAt c st id).backward = [] := List.filterMap_eq_nil_iff.mpr hup
    have hending : (viewAt c st id).ending = false := by
      unfold viewAt
      simpa using hend
    rw [viewAt_follow, hphase, if_pos rfl, hshared, hgen, habandoned, hcompleted, hsame,
      hforward, List.nil_append]
    refine ReflTransGen.single (.draw (viewAt c st id) _ hnone hab hhas hforward hbackward
      hending ?_)
    cases st.connected with
    | false => exact Or.inl rfl
    | true =>
      rw [hwritten]
      simp [outgoing, forwardOf, tag, hid, hgen, viewAt]
  · exact steps_follow hshared hhandlers ((hphase id).trans (if_neg hd)) hallowed
      (congrFun habandoned id) (congrFun hcompleted id)

theorem Simulates.of_same (hphase : ∀ id, phase base.broker c id = phase st.base.broker c id)
    (hallowed : ∀ p, (c, p) ∈ base.written → Allowed c base.broker p)
    (habandoned : st.abandonedBy c l = st.abandoned)
    (hcompleted : st.completedBy c l = st.completed) : Simulates c st l base where
  steps := fun id => steps_follow hshared hhandlers (hphase id) hallowed
    (congrFun habandoned id) (congrFun hcompleted id)
  allowed := hallowed

theorem Simulates.of_settled (d : UInt16)
    (hphase : ∀ id, phase base.broker c id = if id = d then none else phase st.base.broker c id)
    (hwritten : base.written = []) (habandoned : ∀ id ≠ d, st.abandonedBy c l id = st.abandoned id)
    (hcompleted : ∀ id ≠ d, st.completedBy c l id = st.completed id)
    (hstep : Exchange.Step (viewAt c st d) { viewAt c st d with
      stage := none, abandoned := st.abandonedBy c l d, completed := st.completedBy c l d }) :
    Simulates c st l base := by
  have hallowed : ∀ p, (c, p) ∈ base.written → Allowed c base.broker p := by simp [hwritten]
  refine ⟨fun id => ?_, hallowed⟩
  by_cases hd : id = d
  · subst hd
    have hgen : st.numbers c base.broker id = st.gen id :=
      numbers_eq_gen fun _ => (hphase id).trans (if_pos rfl)
    have hnothing : (if st.connected then
        (outgoing c (st.numbers c base.broker) []).filterMap (forwardOf id) else []) = [] := by
      split_ifs <;> rfl
    rw [viewAt_follow, hphase, if_pos rfl, hgen, hshared, hwritten, hnothing, List.append_nil]
    exact ReflTransGen.head hstep (Exchange.steps_ending (hhandlers id))
  · exact steps_follow hshared hhandlers ((hphase id).trans (if_neg hd)) hallowed
      (habandoned id hd) (hcompleted id hd)

end Follow

variable {now : ℕ} {opts : Options} {pkt : ConnectPacket}

theorem simulates_deliverOn {s₀ s : Session} (hs₀ : st.base.broker.sessions c = some s₀)
    (hs : s.inflight = s₀.inflight) (hseq : s.packetIDSeq ≠ 0) (hsize : s₀.inflight.size < 65535)
    (hmsg : msg.deliverQoS = 2) (hfresh : s.sends msg now = true → Fresh st s.nextPacketID.1)
    (hbroker : base.broker = (st.base.broker.deliverOn c s msg retainedDelivery now).1)
    (hwritten : base.written = (st.base.broker.deliverOn c s msg retainedDelivery now).2)
    (hhandlers : base.handlers = st.base.handlers) (habandoned : st.abandonedBy c l = st.abandoned)
    (hcompleted : st.completedBy c l = st.completed) : Simulates c st l base := by
  have hhas : hasSession st.base.broker c = true := by
    unfold hasSession
    rw [hs₀]
    rfl
  have hshared : hasSession base.broker c = hasSession st.base.broker c := by
    rw [hbroker]
    refine hasSession_of_sessions ?_ Outbound.stored_deliverOn
    rw [Outbound.sessions_deliverOn, hs₀]
    simp
  rcases Retry.phase_deliverOn hs₀ hs msg retainedDelivery now with ⟨hsends, hsame⟩ | ⟨hsends, hview⟩
  · have hnothing : (st.base.broker.deliverOn c s msg retainedDelivery now).2 = [] := by
      unfold Outbound.deliverOn
      rcases (Session.doDeliver_of_not_sends hsends retainedDelivery).2.2 with hnone | hzero
      · simp only [hnone]
      · rw [hmsg] at hzero
        cases hzero
    refine .of_same hshared (fun id he => hhandlers ▸ he) (fun id => ?_)
      (by simp [hwritten, hnothing]) habandoned hcompleted
    rw [hbroker]
    exact hsame id
  · have hone : (st.base.broker.deliverOn c s msg retainedDelivery now).2 =
        [(c, .publish (s.numbered msg retainedDelivery now))] := by
      unfold Outbound.deliverOn
      rw [Session.doDeliver_of_sends hsends]
    have hnone : phase st.base.broker c s.nextPacketID.1 = none := by
      have hfree := Session.nextPacketID_free hseq (hs ▸ hsize)
      rw [Retry.phase_of_session hs₀, ← hs,
        Option.isNone_iff_eq_none.mp (Option.isSome_eq_false_iff.mp hfree)]
      rfl
    rw [← hbroker] at hview
    rw [← hwritten] at hone
    have hallowed : ∀ p, (c, p) ∈ base.written → Allowed c base.broker p := by
      intro p hp
      rw [hone] at hp
      cases List.mem_singleton.mp hp
      exact ⟨by simp [Session.numbered, Session.outboundPublish, hmsg],
        (hview _).trans (if_pos rfl)⟩
    exact ⟨steps_draw hshared (fun id he => hhandlers ▸ he) (hfresh hsends) hnone hview hhas rfl
      hone hallowed hhandlers habandoned hcompleted, hallowed⟩

variable {i : ℕ}

theorem contains_settleHandler {hs : List Retry.Handler} {next : Option Retry.Handler}
    (hnext : next ≠ some (.ending id))
    (h : (Retry.settleHandler hs i next).contains (.ending id) = true) :
    hs.contains (.ending id) = true := by
  rw [List.contains_iff_mem] at h ⊢
  rcases Retry.mem_settleHandler h with hold | hnew
  · exact hold
  · exact absurd hnew hnext

theorem simulates_ending (hh : st.base.handlers[i]? = some (.ending d))
    (hbroker : base.broker = st.base.broker.onSession c (·.settle d)) (hwritten : base.written = [])
    (hhandlers : base.handlers = Retry.settleHandler st.base.handlers i none) :
    Simulates c st (.handler i) base := by
  have hending : ∀ id, base.handlers.contains (.ending id) = true →
      st.base.handlers.contains (.ending id) = true := fun id h => by
    rw [hhandlers] at h
    exact contains_settleHandler (Option.some_ne_none _).symm h
  have hshared : hasSession base.broker c = hasSession st.base.broker c := by
    rw [hbroker]
    exact hasSession_onSession _ c _
  cases hfound : st.base.broker.inflightAt c d with
  | none =>
    refine .of_same hshared hending (fun id => ?_) (by simp [hwritten]) rfl ?_
    · simp [hbroker, Retry.phase_settled, hfound]
    · unfold State.completedBy
      simp [hh, hfound]
  | some msg =>
    have hcompleted : st.completedBy c (.handler i) =
        update st.completed d (st.completed d ++ [st.gen d]) := by
      unfold State.completedBy
      simp [hh, hfound]
    refine .of_settled hshared hending d (fun id => ?_) hwritten (fun _ _ => rfl)
      (fun id hd => ?_) ?_
    · simp [hbroker, Retry.phase_settled, hfound]
    · rw [hcompleted]
      exact update_of_ne hd _ _
    · rw [hcompleted, update_self]
      exact .finish _ _ (List.contains_iff_mem.mpr (List.mem_of_getElem? hh))
        (Retry.phase_of_inflightAt hfound)

theorem simulates_handler (hcond : Undisturbed pkt.clientID st (.broker (.handler i)))
    (hs : Retry.step opts pkt st.base (.handler i) = some base) :
    Simulates pkt.clientID st (.handler i) base := by
  simp only [Retry.step] at hs
  split at hs
  · cases hs
  next hd hh =>
    obtain rfl := Option.some.inj hs
    have hready : hd.Ready st.base.broker pkt.clientID := hcond.1 hd hh
    have hcompleted : (∀ d, hd ≠ .ending d) →
        st.completedBy pkt.clientID (.handler i) = st.completed := by
      intro hne
      unfold State.completedBy
      simp only [hh]
      cases hd with
      | ending d => exact absurd rfl (hne d)
      | marked | releasing => rfl
    cases hd with
    | marked d =>
      refine .of_same rfl (fun id he => ?_) (fun _ => rfl)
        (fun _ hp => absurd hp List.not_mem_nil) rfl (hcompleted fun d => by simp)
      refine contains_settleHandler ?_ he
      unfold Retry.advance
      simp only
      split_ifs <;> simp
    | releasing d =>
      refine .of_same rfl (fun id he => ?_) (fun _ => rfl) (fun p hp => ?_) rfl
        (hcompleted fun d => by simp)
      · exact contains_settleHandler (Option.some_ne_none _).symm he
      · cases List.mem_singleton.mp hp
        intro hfalse
        cases hready false hfalse
    | ending d => exact simulates_ending hh rfl rfl rfl

theorem simulates_report (hs : Retry.step opts pkt st.base .report = some base) :
    Simulates pkt.clientID st .report base := by
  simp only [Retry.step] at hs
  split at hs
  · cases hs
  next item rest hitems =>
    obtain rfl := Option.some.inj hs
    have hshared : hasSession (st.base.broker.giveUp item) pkt.clientID =
        hasSession st.base.broker pkt.clientID := hasSession_onSession _ item.1 _
    by_cases hfound : item.1 = pkt.clientID ∧
        (st.base.broker.inflightAt pkt.clientID item.2).isSome = true
    · obtain ⟨hc, hsome⟩ := hfound
      obtain ⟨msg, hmsg⟩ := Option.isSome_iff_exists.mp hsome
      have habandoned : st.abandonedBy pkt.clientID .report =
          update st.abandoned item.2 true := by
        unfold State.abandonedBy
        simp [hitems, hc, hsome]
      refine .of_settled hshared (fun _ he => he) item.2 (fun id => ?_) rfl (fun id hid => ?_)
        (fun _ _ => rfl) ?_
      · unfold Outbound.giveUp
        rw [hc]
        exact (Retry.phase_settled _ _ _ id).trans (by simp [hsome])
      · rw [habandoned]
        exact update_of_ne hid _ _
      · rw [habandoned, update_self]
        exact .giveUp _ msg.pendingPubRel (Retry.phase_of_inflightAt hmsg)
    · refine .of_same hshared (fun _ he => he) (fun id => ?_)
        (fun _ hp => absurd hp List.not_mem_nil) ?_ rfl
      · unfold Outbound.giveUp
        by_cases hc : item.1 = pkt.clientID
        · rw [hc]
          exact (Retry.phase_settled _ _ _ id).trans (if_neg fun h => hfound ⟨hc, h.2⟩)
        · exact Retry.phase_onSession_ne (Ne.symm hc)
      · unfold State.abandonedBy
        simp only [hitems, if_neg hfound]

theorem simulates_snapshot (hs : Retry.step opts pkt st.base (.snapshot now) = some base) :
    Simulates pkt.clientID st (.snapshot now) base := by
  simp only [Retry.step] at hs
  split_ifs at hs
  obtain rfl := Option.some.inj hs
  exact .of_same rfl (fun _ he => he) (fun _ => rfl) (fun _ hp => absurd hp List.not_mem_nil)
      rfl rfl

theorem qos_buildRetransmitPublish {msg : InflightMsg} (hmsg : msg.qos = 2) (now : ℕ) :
    (Outbound.buildRetransmitPublish msg now).fixedHeader.qos = 2 := by
  simp [Outbound.buildRetransmitPublish, hmsg]

variable (hok : st.base.broker.Holds (fun _ => SessionOk) RecordOk)

include hok

theorem simulates_deliver (hmsg : msg.deliverQoS = 2)
    (hcond : Undisturbed pkt.clientID st (.broker (.deliver msg retainedDelivery now)))
    (hs : Retry.step opts pkt st.base (.deliver msg retainedDelivery now) = some base) :
    Simulates pkt.clientID st (.deliver msg retainedDelivery now) base := by
  simp only [Retry.step] at hs
  split_ifs at hs
  obtain rfl := Option.some.inj hs
  obtain ⟨hsize, hfresh⟩ := hcond
  cases hsess : st.base.broker.sessions pkt.clientID with
  | none =>
    have hidle : st.base.broker.doDeliver pkt.clientID msg retainedDelivery now =
        (st.base.broker, []) := by
      unfold Outbound.doDeliver
      rw [hsess]
    rw [hidle]
    exact .of_same rfl (fun _ he => he) (fun _ => rfl) (fun _ hp => absurd hp List.not_mem_nil)
      rfl rfl
  | some s =>
    have hdeliver : st.base.broker.doDeliver pkt.clientID msg retainedDelivery now =
        st.base.broker.deliverOn pkt.clientID s msg retainedDelivery now := by
      unfold Outbound.doDeliver
      rw [hsess]
    rw [hdeliver]
    refine simulates_deliverOn hsess rfl (hok.sessions _ s hsess).1 (hsize s hsess) hmsg
      (fun hsends => hfresh _ ?_) rfl rfl rfl rfl rfl
    simp [drawn, hsess, hsends]

theorem simulates_flush (hcond : Undisturbed pkt.clientID st (.broker (.flush now)))
    (hs : Retry.step opts pkt st.base (.flush now) = some base) :
    Simulates pkt.clientID st (.flush now) base := by
  obtain rfl := Option.some.inj hs
  obtain ⟨hsize, hfresh⟩ := hcond
  rcases st.base.broker.flushRound_cases pkt.clientID now with
    hidle | ⟨s, msg, rest, hsess, hq, hround⟩
  · rw [hidle]
    exact .of_same rfl (fun _ he => he) (fun _ => rfl) (fun _ hp => absurd hp List.not_mem_nil)
      rfl rfl
  · rw [hround]
    obtain ⟨hseq, -, hqueue⟩ := hok.sessions _ s hsess
    refine simulates_deliverOn (s := { s with outboundQueue := rest }) hsess rfl hseq
      (hsize s hsess) (hqueue msg (hq ▸ List.mem_cons_self)) (fun hsends => hfresh _ ?_)
      rfl rfl rfl rfl rfl
    have hsends' : s.sends msg now = true := hsends
    simp only [drawn, hsess, hq, Option.bind_some, List.head?_cons, hsends', if_true]
    rfl

theorem simulates_send (hcond : Undisturbed pkt.clientID st (.broker (.send now)))
    (hs : Retry.step opts pkt st.base (.send now) = some base) :
    Simulates pkt.clientID st (.send now) base := by
  simp only [Retry.step] at hs
  split at hs
  next item rest hreport hretry =>
    obtain rfl := Option.some.inj hs
    have hstage := hcond.1 item (by rw [hretry]; rfl)
    refine .of_same rfl (fun _ he => he) (fun _ => rfl) (fun p hp => ?_) rfl rfl
    obtain ⟨-, ⟨hawaits, rfl⟩ | ⟨hawaits, msg, hmsg, rfl⟩⟩ := Retry.mem_resend hp
    · intro hfalse
      cases (hstage false hfalse).trans hawaits
    · obtain ⟨s, hsess, hentry⟩ := Option.bind_eq_some_iff.mp hmsg
      have hkey : msg.packetID = item.2.packetID := s.inflight.keyed _ msg hentry
      have hphase := Retry.phase_of_inflightAt hmsg
      rw [(hstage _ hphase).trans hawaits, ← hkey] at hphase
      exact ⟨qos_buildRetransmitPublish ((hok.sessions _ s hsess).2.1 _ msg hentry) now, hphase⟩
  · cases hs

/-- Every step the broker takes by itself is one of the exchanges'. -/
theorem simulates (hown : ownStep l = true) (hcond : Undisturbed pkt.clientID st (.broker l))
    (hs : Retry.step opts pkt st.base l = some base) : Simulates pkt.clientID st l base := by
  cases l with
  | deliver msg retainedDelivery now =>
    exact simulates_deliver hok (of_decide_eq_true hown) hcond hs
  | flush now => exact simulates_flush hok hcond hs
  | handler i => exact simulates_handler hcond hs
  | snapshot now => exact simulates_snapshot hs
  | report => exact simulates_report hs
  | send now => exact simulates_send hok hcond hs
  | pubAck | pubRec | pubComp | connect | disconnect => cases hown

end Simulation

/-! ## Packets that arrive -/

/-- The exchange after a step, written out. -/
theorem steps_view {e e' : Exchange} (view : Exchange) (hview : e' = view)
    (hsteps : ReflTransGen Exchange.Step e view) : ReflTransGen Exchange.Step e e' :=
  hview ▸ hsteps

variable {k : ℕ}

section Arriving

variable {c : Str} {st : State} {opts : Options} {pkt : ConnectPacket}

theorem steps_pubRec {rest : List Packet} (hup : st.up = pubRecPacket d :: rest) (id : UInt16) :
    ReflTransGen Exchange.Step (viewAt c st id)
      (viewAt c { st.follow c (.pubRec d 0) (st.base.handlePubRec c d 0) with up := rest } id) := by
  have hmark := Retry.phase_marked st.base.broker c d id
  have hgen : st.numbers c (st.base.broker.onSession c (·.markInflightPubRel d)) id = st.gen id := by
    refine numbers_eq_gen fun hnone => ?_
    rcases hmark with hsame | ⟨-, hsome, -⟩
    · exact hsame.trans hnone
    · rw [hnone] at hsome
      cases hsome
  refine steps_view { viewAt c st id with
      stage := phase (st.base.broker.onSession c (·.markInflightPubRel d)) c id
      backward := rest.filterMap (backwardOf id) } ?_ ?_
  · rw [show st.base.handlePubRec c d 0 =
      { st.base.after c (st.base.broker.onSession c (·.markInflightPubRel d)) [] with
        handlers := st.base.handlers ++ [.marked d] } from rfl]
    simp only [viewAt, State.follow, Retry.State.after, hgen, hasSession_onSession, outgoing,
      State.completedBy, State.abandonedBy]
    simp
  by_cases hid : id = d
  · subst hid
    refine ReflTransGen.single (.receipt _ _ _ ?_ (hmark.imp_right And.right))
    simp [viewAt, hup, pubRecPacket, backwardOf]
  · rw [hmark.resolve_right fun h => hid h.1]
    simp [viewAt, hup, pubRecPacket, backwardOf, Ne.symm hid, ReflTransGen.refl]

theorem steps_pubComp {rest : List Packet} (hup : st.up = pubCompPacket d :: rest) (id : UInt16) :
    ReflTransGen Exchange.Step (viewAt c st id)
      (viewAt c { st.follow c (.pubComp d) (st.base.beginEnding c d) with up := rest } id) := by
  have hgen : st.numbers c { st.base.broker with engine := st.base.broker.engine.untrack c d } id =
      st.gen id := numbers_eq_gen fun hnone => hnone
  refine steps_view { viewAt c st id with
      backward := rest.filterMap (backwardOf id)
      ending := (st.base.handlers ++ [Retry.Handler.ending d]).contains (.ending id) } ?_ ?_
  · unfold Retry.State.beginEnding
    simp only [viewAt, State.follow, Retry.State.after, hgen, outgoing, State.completedBy,
      State.abandonedBy]
    simp [hasSession, phase]
  by_cases hid : id = d
  · subst hid
    rw [show (st.base.handlers ++ [Retry.Handler.ending id]).contains (.ending id) = true by simp]
    refine ReflTransGen.single (.completion _ _ ?_)
    simp [viewAt, hup, pubCompPacket, backwardOf]
  · rw [show (st.base.handlers ++ [Retry.Handler.ending d]).contains (.ending id) =
      st.base.handlers.contains (.ending id) by simp [hid]]
    simp [viewAt, hup, pubCompPacket, backwardOf, Ne.symm hid, ReflTransGen.refl]

theorem steps_publish {pub : PublishPacket} {rest : List (Packet × ℕ)}
    (hdown : st.down = (.publish pub, k) :: rest) (hqos : pub.fixedHeader.qos = 2) (id : UInt16) :
    ReflTransGen Exchange.Step (viewAt c st id)
      (viewAt c { st.receive (.publish pub, k) with down := rest } id) := by
  by_cases hid : id = pub.packetID
  · subst hid
    have hforward : (viewAt c st pub.packetID).forward =
        .message k :: rest.filterMap (forwardOf pub.packetID) := by
      simp [viewAt, hdown, forwardOf]
    cases hmarked : st.receiver.receivedQoS2 pub.packetID with
    | true =>
      refine steps_view _ ?_ (.single (.duplicate _ k _ hforward hmarked))
      simp [viewAt, State.receive, Receiver.handlePublish, hqos, hmarked, pubRecPacket, backwardOf]
    | false =>
      refine steps_view _ ?_ (.single (.accept _ k _ hforward hmarked))
      simp [viewAt, State.receive, Receiver.handlePublish, hqos, hmarked, pubRecPacket, backwardOf]
  · refine steps_view (viewAt c st id) ?_ .refl
    cases hmarked : st.receiver.receivedQoS2 pub.packetID <;>
      simp [viewAt, State.receive, Receiver.handlePublish, hqos, hmarked, hdown, forwardOf,
        pubRecPacket, backwardOf, hid, Ne.symm hid]

theorem steps_pubRel {a : AckPacket} {rest : List (Packet × ℕ)}
    (hdown : st.down = (.pubRel a, k) :: rest) (id : UInt16) :
    ReflTransGen Exchange.Step (viewAt c st id)
      (viewAt c { st.receive (.pubRel a, k) with down := rest } id) := by
  by_cases hid : id = a.packetID
  · subst hid
    refine steps_view _ ?_ (.single (.clear _ (rest.filterMap (forwardOf a.packetID)) ?_))
    · simp [viewAt, State.receive, Receiver.handlePubRel, pubCompPacket, backwardOf]
    · simp [viewAt, hdown, forwardOf]
  · refine steps_view (viewAt c st id) ?_ .refl
    simp [viewAt, State.receive, Receiver.handlePubRel, hdown, forwardOf, pubCompPacket, backwardOf,
      hid, Ne.symm hid]

end Arriving

/-! ## Connecting and disconnecting -/

section Connecting

variable {st st' : State} {opts : Options} {pkt : ConnectPacket}

theorem steps_disconnect {now : ℕ} (hs : step opts pkt st (.disconnect now) = some st')
    (id : UInt16) :
    ReflTransGen Exchange.Step (viewAt pkt.clientID st id) (viewAt pkt.clientID st' id) := by
  obtain rfl := Option.some.inj hs
  have hnone : (st.base.broker.disconnect pkt.clientID now).sessions pkt.clientID = none :=
    (st.base.broker.sessions_disconnect now pkt.clientID pkt.clientID).trans (if_pos rfl)
  cases hstored : (st.base.broker.disconnect pkt.clientID now).stored pkt.clientID with
  | none =>
    have hphase : phase (st.base.broker.disconnect pkt.clientID now) pkt.clientID id = none := by
      unfold Retry.phase
      rw [hnone, hstored]
      rfl
    refine steps_view _ ?_ (.single (.forget _))
    simp [viewAt, Retry.State.after, hasSession, hnone, hstored, hphase]
  | some data =>
    have hphase : phase (st.base.broker.disconnect pkt.clientID now) pkt.clientID id =
        phase st.base.broker pkt.clientID id := by
      rcases Retry.phase_disconnect st.base.broker pkt.clientID now id with hsame | ⟨-, hgone⟩
      · exact hsame
      · rw [hgone] at hstored
        cases hstored
    have hshared : hasSession st.base.broker pkt.clientID = true := by
      unfold hasSession
      rcases st.base.broker.stored_disconnect now hstored with ⟨hold, -⟩ | ⟨s, hs, -⟩
      · simp [hold]
      · simp [hs]
    have hkept : hasSession (st.base.broker.disconnect pkt.clientID now) pkt.clientID = true := by
      simp [hasSession, hstored]
    refine steps_view _ ?_ (.single (.lose _))
    simp [viewAt, Retry.State.after, hshared, hphase, hkept]

theorem written_connect (hok : st.base.broker.Holds (fun _ => SessionOk) RecordOk) {now : ℕ} {p : Packet}
    (hw : (pkt.clientID, p) ∈ (st.base.broker.connect opts pkt now).2) :
    Allowed pkt.clientID st.base.broker p := by
  obtain ⟨s, hres, hsent⟩ := st.base.broker.mem_connect opts pkt now hw
  have hsess : SessionOk s := hok.resumed sessionOk_invariant hres
  obtain ⟨msg, hmsg, hcases⟩ := Retry.mem_resendSessionInflight hsent
  have htwo : msg.qos = 2 := hsess.2.1 _ msg hmsg
  have hphase : phase st.base.broker pkt.clientID msg.packetID = some msg.pendingPubRel := by
    rw [Retry.phase_of_resumed hres, hmsg]
    rfl
  rcases hcases with ⟨-, hp, rfl⟩ | ⟨hnot, rfl⟩
  · rw [hp] at hphase
    exact fun hfalse => by cases hphase.symm.trans hfalse
  · have hp : msg.pendingPubRel = false := Bool.eq_false_of_not_eq_true fun hp => hnot ⟨htwo, hp⟩
    exact ⟨qos_buildRetransmitPublish htwo now, hp ▸ hphase⟩

theorem steps_connect {now : ℕ} (hok : st.base.broker.Holds (fun _ => SessionOk) RecordOk)
    (hs : step opts pkt st (.connect now) = some st') (id : UInt16) :
    ReflTransGen Exchange.Step (viewAt pkt.clientID st id) (viewAt pkt.clientID st' id) := by
  obtain rfl := Option.some.inj hs
  have hhas : hasSession (st.base.broker.connect opts pkt now).1 pkt.clientID = true := by
    unfold hasSession
    rw [Bool.or_eq_true]
    refine Or.inl (Option.isSome_iff_ne_none.mpr fun hnone => ?_)
    exact (Outbound.sessions_connect_eq_none opts _ pkt now).mp hnone |>.1 rfl
  cases hres : resumed (st.base.broker.client pkt.clientID) pkt with
  | none =>
    have hwritten : (st.base.broker.connect opts pkt now).2 = [] := by
      unfold Outbound.connect
      simp only [hres]
    have hphase : phase (st.base.broker.connect opts pkt now).1 pkt.clientID id = none := by
      rw [Retry.phase_connect, hres]
      rfl
    refine steps_view _ ?_ (.single (.start _))
    simp [viewAt, Retry.State.after, hphase, hhas, hwritten, Receiver.connect, outgoing]
  | some s =>
    obtain ⟨hclean, hsource⟩ := Outbound.resumed_eq_some.mp hres
    have hshared : hasSession st.base.broker pkt.clientID = true := by
      unfold hasSession
      rcases hsource with hs | ⟨-, data, hdata, -⟩
      · simp [hs]
      · simp [hdata]
    have hphase : phase (st.base.broker.connect opts pkt now).1 pkt.clientID id =
        phase st.base.broker pkt.clientID id := by
      rw [Retry.phase_connect, hres]
      rfl
    refine steps_view _ ?_ (.head (.lose _) (Exchange.steps_append
      ((outgoing pkt.clientID st.gen (st.base.broker.connect opts pkt now).2).filterMap
        (forwardOf id))
      { viewAt pkt.clientID st id with forward := [], backward := [] }
        fun f hf => forward_outgoing (fun _ hw => written_connect hok hw) hf))
    simp [viewAt, Retry.State.after, hphase, hhas, hshared, Receiver.connect, hclean]

end Connecting

/-! ## Runs -/

/-- The exchanges are in order, and nothing but QoS 2 traffic is about. -/
structure Inv (c : Str) (st : State) : Prop where
  sessions : st.base.broker.Holds (fun _ => SessionOk) RecordOk
  published : ∀ pub k, (.publish pub, k) ∈ st.down → pub.fixedHeader.qos = 2
  answers : ∀ p ∈ st.up, ∃ id, p = pubRecPacket id ∨ p = pubCompPacket id
  exchanges : ∀ id, (viewAt c st id).Inv

theorem inv_init (c : Str) (maxInflight retryInterval maxRetries : ℕ) :
    Inv c (init maxInflight retryInterval maxRetries) where
  sessions := Outbound.holds_init maxInflight retryInterval maxRetries
  published := fun pub k h => by cases h
  answers := fun p h => by cases h
  exchanges := fun _ => Exchange.inv_init

variable {opts : Options} {pkt : ConnectPacket} {st : State} {st' : State}

theorem Inv.broker {l : Retry.Label} {base : Retry.State} (h : Inv pkt.clientID st)
    (hown : ownStep l = true) (hcond : Undisturbed pkt.clientID st (.broker l))
    (hs : Retry.step opts pkt st.base l = some base) :
    Inv pkt.clientID (st.follow pkt.clientID l base) := by
  have hsim := simulates h.sessions hown hcond hs
  refine ⟨?_, fun pub k hpub => ?_, h.answers, fun id => (h.exchanges id).steps (hsim.steps id)⟩
  · refine Retry.holds_step sessionOk_invariant h.sessions (fun msg hmsg => ⟨trivial, ?_⟩) hs
    cases l with
    | deliver m retainedDelivery now =>
      cases hmsg
      exact of_decide_eq_true hown
    | _ => cases hmsg
  · unfold State.follow at hpub
    split_ifs at hpub
    · rcases List.mem_append.mp hpub with hold | hnew
      · exact h.published pub k hold
      · exact (hsim.allowed _ (mem_outgoing hnew).1).1
    · exact h.published pub k hpub

/-- The broker's handling of a packet writes nothing. -/
theorem published_handling (h : Inv c st) (l : Retry.Label) {base : Retry.State}
    (hwritten : base.written = []) (pub : PublishPacket) (k : ℕ)
    (hpub : (.publish pub, k) ∈ (st.follow c l base).down) : pub.fixedHeader.qos = 2 := by
  unfold State.follow at hpub
  simp only [hwritten, outgoing, List.filterMap_nil, List.append_nil, ite_self] at hpub
  exact h.published pub k hpub

theorem Inv.toBroker (h : Inv pkt.clientID st) (hs : step opts pkt st .toBroker = some st') :
    Inv pkt.clientID st' := by
  cases hup : st.up with
  | nil =>
    simp only [step, hup] at hs
    cases hs
  | cons p rest =>
    have hrest : ∀ q ∈ rest, ∃ id, q = pubRecPacket id ∨ q = pubCompPacket id := fun q hq =>
      h.answers q (hup ▸ List.mem_cons_of_mem _ hq)
    obtain ⟨d, rfl | rfl⟩ := h.answers p (hup ▸ List.mem_cons_self)
    · simp only [step, hup] at hs
      obtain rfl := Option.some.inj hs
      refine ⟨?_, fun pub k hpub => published_handling h (.pubRec d 0) rfl pub k hpub, hrest, fun id =>
        (h.exchanges id).steps (steps_pubRec hup id)⟩
      exact h.sessions.onSession fun s hs => sessionOk_invariant.mark s d hs
    · simp only [step, hup] at hs
      obtain rfl := Option.some.inj hs
      exact ⟨h.sessions.engine _, fun pub k hpub => published_handling h (.pubComp d) rfl pub k hpub, hrest,
        fun id => (h.exchanges id).steps (steps_pubComp hup id)⟩

theorem Inv.toClient (h : Inv pkt.clientID st) (hs : step opts pkt st .toClient = some st') :
    Inv pkt.clientID st' := by
  cases hdown : st.down with
  | nil =>
    simp only [step, hdown] at hs
    cases hs
  | cons item rest =>
    simp only [step, hdown] at hs
    obtain rfl := Option.some.inj hs
    have hrest : ∀ pub k, (.publish pub, k) ∈ rest → pub.fixedHeader.qos = 2 := fun pub k hp =>
      h.published pub k (hdown ▸ List.mem_cons_of_mem _ hp)
    have hanswers : ∀ q, (∃ id, q = pubRecPacket id ∨ q = pubCompPacket id) →
        ∀ p ∈ st.up ++ [q], ∃ id, p = pubRecPacket id ∨ p = pubCompPacket id := by
      intro q hq
      exact forall_mem_snoc h.answers hq
    obtain ⟨p, k⟩ := item
    cases p with
    | publish pub =>
      have hqos := h.published pub k (hdown ▸ List.mem_cons_self)
      refine ⟨h.sessions, hrest, ?_, fun id => (h.exchanges id).steps (steps_publish hdown hqos id)⟩
      have hup : (st.receive (.publish pub, k)).up = st.up ++ [pubRecPacket pub.packetID] := by
        unfold State.receive Receiver.handlePublish
        simp only [hqos, if_true]
        split_ifs <;> rfl
      rw [hup]
      exact hanswers _ ⟨pub.packetID, Or.inl rfl⟩
    | pubRel a =>
      exact ⟨h.sessions, hrest, hanswers _ ⟨a.packetID, Or.inr rfl⟩, fun id =>
        (h.exchanges id).steps (steps_pubRel hdown id)⟩
    | _ =>
      -- a packet of another kind has no effect
      refine ⟨h.sessions, hrest, h.answers, fun id => (h.exchanges id).steps
        (steps_view (viewAt pkt.clientID st id) ?_ .refl)⟩
      simp [viewAt, State.receive, hdown, forwardOf, List.filterMap_cons]

theorem Inv.step {l : Label} (h : Inv pkt.clientID st) (hcond : Undisturbed pkt.clientID st l)
    (hs : step opts pkt st l = some st') : Inv pkt.clientID st' := by
  cases l with
  | broker l =>
    simp only [Client.step] at hs
    split_ifs at hs with hown
    obtain ⟨base, hbase, rfl⟩ := Option.map_eq_some_iff.mp hs
    exact h.broker hown hcond hbase
  | toBroker => exact h.toBroker hs
  | toClient => exact h.toClient hs
  | drop =>
    obtain rfl := Option.some.inj hs
    exact ⟨h.sessions, fun _ _ hpub => absurd hpub List.not_mem_nil,
      fun _ hp => absurd hp List.not_mem_nil, fun id => (h.exchanges id).lose⟩
  | connect now =>
    have hsteps := steps_connect h.sessions hs
    obtain rfl := Option.some.inj hs
    refine ⟨h.sessions.connect sessionOk_invariant opts pkt now, fun pub k hpub => ?_,
      fun _ hp => absurd hp List.not_mem_nil, fun id => (h.exchanges id).steps (hsteps id)⟩
    have hw : (pkt.clientID, .publish pub) ∈ (st.base.broker.connect opts pkt now).2 :=
      (mem_outgoing hpub).1
    exact (written_connect h.sessions hw).1
  | disconnect now =>
    have hsteps := steps_disconnect hs
    obtain rfl := Option.some.inj hs
    exact ⟨h.sessions.disconnect (fun _ => sessionOk_invariant.save) pkt.clientID now,
      fun _ _ hpub => absurd hpub List.not_mem_nil, fun _ hp => absurd hp List.not_mem_nil,
      fun id => (h.exchanges id).steps (hsteps id)⟩

/-- In a run in which the broker's sends find their deliveries in the stage they
assume and draw fresh identifiers, every delivery the broker completes was passed to
the callback exactly once. -/
theorem exactlyOnce_of_undisturbed (maxInflight retryInterval maxRetries : ℕ) (opts : Options)
    (pkt : ConnectPacket) (ls : List Label) (st : State)
    (hok : Along (step opts pkt) (Undisturbed pkt.clientID)
      (init maxInflight retryInterval maxRetries) ls)
    (hrun : exec (step opts pkt) (init maxInflight retryInterval maxRetries) ls = some st) :
    ExactlyOnce st := by
  have hinv : Inv pkt.clientID st :=
    exec_invariant (Inv pkt.clientID) (fun _ _ _ h hcond hs => h.step hcond hs)
      (inv_init pkt.clientID maxInflight retryInterval maxRetries) hok hrun
  exact fun id k hk => ((hinv.exchanges id).completed k hk).1

/-- The client's PUBREC is lost with the connection; the broker gives the delivery up
and saves the session; after the restore the next message gets the identifier again. -/
def reusedAfterGiveUp : List Label :=
  [.connect 0, .broker (.deliver Outbound.qos2Message false 0), .toClient, .drop,
    .broker (.snapshot 20), .broker .report, .disconnect 20, .connect 30,
    .broker (.deliver Outbound.qos2Message false 30), .toClient, .toBroker, .broker (.handler 0),
    .broker (.handler 0), .toClient, .toBroker, .broker (.handler 0)]

/-- The second message is suppressed as a duplicate of the first, and the broker
completes its exchange. -/
theorem reusedAfterGiveUp_suppresses :
    ∃ st, exec (step brokerDefaults Retry.connect311) (init 0 20 0) reusedAfterGiveUp = some st ∧
      st.completed 1 = [2] ∧ st.calls 1 = [1] ∧ ¬ ExactlyOnce st := by
  refine exec_reaches (by decide +kernel) fun st hst hcompleted => ?_
  have hcalls : st.calls 1 = [1] := of_exec hst (by decide +kernel)
  refine ⟨hcalls, fun h => ?_⟩
  have hcount := h 1 2 (by rw [hcompleted]; exact List.mem_singleton_self 2)
  rw [hcalls] at hcount
  exact absurd hcount (by decide)

/-- The PUBREC is lost with the connection; the session is restored, the delivery sent
again and recognised as a duplicate, and a second message follows under the same
identifier. -/
def resumedExchange : List Label :=
  [.connect 0, .broker (.deliver Outbound.qos2Message false 0), .toClient, .drop, .disconnect 20,
    .connect 30, .toClient, .toBroker, .broker (.handler 0), .broker (.handler 0), .toClient,
    .toBroker, .broker (.handler 0), .broker (.deliver Outbound.qos2Message false 40), .toClient,
    .toBroker, .broker (.handler 0), .broker (.handler 0), .toClient, .toBroker,
    .broker (.handler 0)]

theorem resumedExchange_exactlyOnce :
    ∃ st, exec (step brokerDefaults Retry.connect311) (init 0 20 3) resumedExchange = some st ∧
      st.completed 1 = [1, 2] ∧ ExactlyOnce st :=
  exec_reaches (by decide +kernel) fun st hst _ =>
    exactlyOnce_of_undisturbed 0 20 3 brokerDefaults Retry.connect311 resumedExchange st
      (by decide +kernel) hst

end SharkMqtt.Client
