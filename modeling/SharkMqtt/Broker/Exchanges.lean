import SharkMqtt.Lib.Handoff
import SharkMqtt.Broker.Inbound

/-!
# Inbound QoS 2 exchanges

A publisher that keeps to the QoS 2 rules, the links of its connection, and the
broker's side: the read loops, the session in the manager, the record in the
store. Connections are lost at any point. The session then survives in one of two
ways: its teardown saves it and the next handshake restores it, or a new
connection takes it over before the teardown.

A read loop decodes a packet, handles it and answers; the answer goes to the
connection registered for the client when it is written. A takeover closes the
old connection, but its read loop may be holding a packet it has decoded or an
answer it has not written yet, and goes on with it. Such a loop can stage a
message again whose exchange is over. As long as no loop handles or answers after
it was displaced, every released message is routed exactly once
(`exactlyOnce_of_current`).
-/

namespace SharkMqtt.Broker.Exchanges

open Protocol Lib Inbound Function
open Handoff (Stage Item)

/-- A packet of the publisher, with the number of the message it belongs to. -/
inductive Sent where
  | publish (n : ℕ) (pkt : PublishPacket)
  | release (n : ℕ) (id : UInt16)

def Sent.id : Sent → UInt16
  | .publish _ pkt => pkt.packetID
  | .release _ id => id

/-- A read loop: its session, the packet it has decoded, the answers it has still
to write. -/
structure Loop where
  sess : ℕ := 0
  inHand : Option Sent := none
  answers : List Packet := []

structure State where
  /-- The publisher: where it is with each identifier, and its messages so far. -/
  stage : UInt16 → Stage := fun _ => .idle
  next : ℕ := 0
  messages : ℕ → PublishPacket := fun _ => { fixedHeader := { packetType := .publish }, topic := [] }
  /-- The connection registered for the client, and what is on its links. -/
  conn : Option ℕ := none
  online : Bool := false
  forward : List Sent := []
  backward : List Packet := []
  /-- The broker: the read loops by connection, the sessions, which of them the
  manager has, and the record in the store. -/
  nextConn : ℕ := 0
  loops : ℕ → Loop := fun _ => {}
  nextSess : ℕ := 0
  sessions : ℕ → Inbound := fun _ => {}
  manager : Option ℕ := none
  record : Option InboundData := none
  /-- The packets handled so far, each with what its handler asked for. -/
  log : List (Sent × List Effect) := []

inductive Label where
  | begin (m : PublishPacket)
  | resend (id : UInt16)
  | resendRelease (id : UInt16)
  | receive
  | decode
  | handle (conn : ℕ) (policy : Policy)
  | answer (conn : ℕ) (placed : Bool)
  | lose
  | teardown
  | connect (pkt : ConnectPacket)
  | takeover (pkt : ConnectPacket)

/-! ## The publisher -/

def again (m : PublishPacket) : PublishPacket :=
  { m with fixedHeader := { m.fixedHeader with dup := true } }

/-- A PUBREC with a failure code ends the exchange, any other is answered with
PUBREL. What does not fit the stage is ignored. -/
def State.receive (st : State) : Packet → State
  | .pubRec a =>
    match st.stage a.packetID with
    | .idle => st
    | .offered n =>
      if a.reasonCode ≥ reasonCodeFailureBase then
        { st with stage := update st.stage a.packetID .idle }
      else
        { st with
          stage := update st.stage a.packetID (.released n)
          forward := st.forward ++ [.release n a.packetID] }
    | .released n => { st with forward := st.forward ++ [.release n a.packetID] }
  | .pubComp a =>
    match st.stage a.packetID with
    | .released _ => { st with stage := update st.stage a.packetID .idle }
    | _ => st
  | _ => st

/-! ## The broker -/

def State.lost (st : State) : State := { st with online := false, forward := [], backward := [] }

def writes (effects : List Effect) : List Packet :=
  effects.filterMap fun
    | .write p => some p
    | _ => none

/-- `handlePublish` works on the session of the loop, `handlePubRel` on the one in
the manager. -/
def State.process (st : State) (κ : ℕ) (policy : Policy) : Sent → State × List Effect
  | .publish _ pkt =>
    let σ := (st.loops κ).sess
    let r := (st.sessions σ).handlePublish policy pkt
    ({ st with sessions := update st.sessions σ r.1 }, r.2)
  | .release _ id =>
    match st.manager with
    | none => (st, [.write (pubCompPacket id)])
    | some σ =>
      let r := (st.sessions σ).handlePubRel id
      ({ st with sessions := update st.sessions σ r.1 }, r.2)

def State.setLoop (st : State) (κ : ℕ) (loop : Loop) : State :=
  { st with loops := update st.loops κ loop }

/-- A close hits the connection registered for the client; the DISCONNECT that
precedes it is on that connection already. -/
def State.handle (st : State) (κ : ℕ) (policy : Policy) (p : Sent) : State :=
  let r := st.process κ policy p
  let st' := { r.1 with log := st.log ++ [(p, r.2)] }
  let loop := st.loops κ
  if .close ∈ r.2 then (st'.setLoop κ { loop with inHand := none }).lost
  else st'.setLoop κ { loop with inHand := none, answers := loop.answers ++ writes r.2 }

def State.attach (st : State) (σ : ℕ) (s : Inbound) : State :=
  { st with
    conn := some st.nextConn
    nextConn := st.nextConn + 1
    online := true
    forward := []
    backward := []
    loops := update st.loops st.nextConn { sess := σ }
    sessions := update st.sessions σ s
    manager := some σ }

def step (opts : Options) (st : State) : Label → Option State
  | .begin m =>
    if st.online = true ∧ st.stage m.packetID = .idle ∧ m.fixedHeader.qos = 2 ∧
        m.fixedHeader.dup = false then
      some
        { st with
          stage := update st.stage m.packetID (.offered st.next)
          messages := update st.messages st.next m
          next := st.next + 1
          forward := st.forward ++ [.publish st.next m] }
    else none
  | .resend id =>
    match st.stage id with
    | .offered n =>
      if st.online then
        some { st with forward := st.forward ++ [.publish n (again (st.messages n))] }
      else none
    | _ => none
  | .resendRelease id =>
    match st.stage id with
    | .released n =>
      if st.online then some { st with forward := st.forward ++ [.release n id] } else none
    | _ => none
  | .receive =>
    match st.backward with
    | [] => none
    | p :: rest => some (State.receive { st with backward := rest } p)
  | .decode =>
    match st.conn, st.forward with
    | some κ, p :: rest =>
      let loop := st.loops κ
      if loop.inHand = none ∧ loop.answers = [] then
        some ({ st with forward := rest }.setLoop κ { loop with inHand := some p })
      else none
    | _, _ => none
  | .handle κ policy => (st.loops κ).inHand.map (st.handle κ policy)
  | .answer κ placed =>
    match (st.loops κ).answers with
    | [] => none
    | p :: rest =>
      some
        { st.setLoop κ { st.loops κ with answers := rest } with
          backward := if placed && st.online then st.backward ++ [p] else st.backward }
  | .lose => some st.lost
  | .teardown =>
    match st.conn, st.manager with
    | some κ, some σ =>
      if st.online = false ∧ (st.loops κ).inHand = none ∧ (st.loops κ).answers = [] then
        some { st with
          conn := none, manager := none, record := some (st.sessions σ).save }
      else none
    | _, _ => none
  | .connect pkt =>
    if st.conn = none then
      let s := (st.record.map Inbound.restore).getD {}
      some { st.attach st.nextSess (resume opts pkt s) with nextSess := st.nextSess + 1 }
    else none
  | .takeover pkt =>
    match st.conn, st.manager with
    | some _, some σ => some (st.attach σ (resume opts pkt (st.sessions σ)))
    | _, _ => none

/-! ## Exactly once -/

/-- The packet routed is the message, with what the store keeps of its
properties. The topic of a message sent with an alias only is the broker's to
find. -/
structure Relays (m pkt : PublishPacket) : Prop where
  topic : m.topic ≠ [] → pkt.topic = m.topic
  payload : pkt.payload = m.payload
  qos : pkt.fixedHeader.qos = m.fixedHeader.qos
  retain : pkt.fixedHeader.retain = m.fixedHeader.retain
  properties : storeProperties pkt.properties = storeProperties m.properties

/-- What the releases of message `n` led to, in order. -/
def releases (n : ℕ) (log : List (Sent × List Effect)) : List (List Effect) :=
  log.filterMap fun e =>
    match e.1 with
    | .release k _ => if k = n then some e.2 else none
    | .publish _ _ => none

/-- The first release routes the message and is answered with PUBCOMP, every
later one is only answered. -/
def RoutedOnce (m : PublishPacket) : List (List Effect) → Prop
  | [] => True
  | first :: later =>
    (∃ pkt, first = [.route pkt, .write (pubCompPacket m.packetID)] ∧ Relays m pkt) ∧
      ∀ effects ∈ later, effects = [.write (pubCompPacket m.packetID)]

structure ExactlyOnce (st : State) : Prop where
  released : ∀ n, RoutedOnce (st.messages n) (releases n st.log)
  published : ∀ n pkt effects, (.publish n pkt, effects) ∈ st.log → ∀ p, .route p ∉ effects

/-! ## The conditions -/

def State.publishInHand (st : State) (κ : ℕ) : Option PublishPacket :=
  (st.loops κ).inHand.bind fun
    | .publish _ pkt => some pkt
    | .release _ _ => none

/-- No message is refused: by the rate limiter or the authoriser, by its expiry
interval, by the inbound budget. -/
def Accepted (st : State) : Label → Prop
  | .handle κ policy =>
    ∀ pkt ∈ st.publishInHand κ,
      let s := st.sessions (st.loops κ).sess
      s.refuses policy pkt = false ∧ arrivesExpired pkt = false ∧
        (s.hasInboundQoS2 pkt.packetID = true ∨
          ¬ (s.receiveMax.toNat > 0 ∧ s.inboundQoS2.size ≥ s.receiveMax.toNat))
  | _ => True

instance (st : State) (l : Label) : Decidable (Accepted st l) := by
  cases l <;> dsimp only [Accepted] <;> infer_instance

/-- A read loop handles and answers on the connection registered. -/
def Current (st : State) : Label → Prop
  | .handle κ _ => st.conn = some κ
  | .answer κ _ => st.conn = some κ
  | _ => True

instance (st : State) (l : Label) : Decidable (Current st l) := by
  cases l <;> dsimp only [Current] <;> infer_instance

/-! ## The exchange of one identifier

What the exchanges depend on, with the packet in the hand of the current loop at
the head of the forward link and the answers of the loop at the end of the
backward link. Seen from one identifier it is a `Handoff`. -/

@[ext] structure Core where
  stage : UInt16 → Stage
  next : ℕ
  messages : ℕ → PublishPacket
  forward : List Sent
  backward : List Packet
  staged : UInt16 → Option InboundQoS2
  log : List (Sent × List Effect)

def itemOf (id : UInt16) : Sent → Option Item
  | .publish n pkt => if pkt.packetID = id then some (.offer n pkt.fixedHeader.dup) else none
  | .release n id' => if id' = id then some (.release n) else none

def reportOf (id : UInt16) : Packet → Option Backward
  | .pubRec a => if a.packetID = id then some .received else none
  | .pubComp a => if a.packetID = id then some .completed else none
  | _ => none

def delivers (effects : List Effect) : Bool :=
  effects.any fun
    | .route _ => true
    | _ => false

namespace Core

def view (c : Core) (id : UInt16) : Handoff where
  stage := c.stage id
  forward := c.forward.filterMap (itemOf id)
  backward := c.backward.filterMap (reportOf id)
  staged := (c.staged id).isSome
  done := fun n => if (c.messages n).packetID = id then (releases n c.log).map delivers else []

/-- The staged message is `m`, up to what a teardown drops of its properties. -/
def Carries (m : PublishPacket) (e : InboundQoS2) : Prop := Relays m (releasedPublish e)

def Belongs (c : Core) : Sent → Prop
  | .publish n pkt => n < c.next ∧ (pkt = c.messages n ∨ pkt = again (c.messages n))
  | .release n id => n < c.next ∧ id = (c.messages n).packetID

/-- A publish routes nothing; a release is answered with PUBCOMP and routes its
message or nothing. -/
def Entry (c : Core) : Sent × List Effect → Prop
  | (.publish _ _, effects) => ∀ p, .route p ∉ effects
  | (.release n id, effects) =>
    n < c.next ∧ id = (c.messages n).packetID ∧
      (effects = [.write (pubCompPacket id)] ∨
        ∃ pkt, effects = [.route pkt, .write (pubCompPacket id)] ∧ Relays (c.messages n) pkt)

structure Inv (c : Core) : Prop where
  views : ∀ id, (c.view id).Inv
  stages : ∀ id n, c.stage id = .offered n ∨ c.stage id = .released n →
    n < c.next ∧ (c.messages n).packetID = id
  qos : ∀ n < c.next, (c.messages n).fixedHeader.qos = 2
  sent : ∀ p ∈ c.forward, c.Belongs p
  reasons : ∀ a, .pubRec a ∈ c.backward → a.reasonCode < reasonCodeFailureBase
  content : ∀ id e n, c.staged id = some e →
    c.stage id = .offered n ∨ c.stage id = .released n → Carries (c.messages n) e
  log : ∀ e ∈ c.log, c.Entry e

/-! ### Messages and their staged forms -/

variable {m pkt : PublishPacket} {p : Sent} {id : UInt16} {n : ℕ} {effects : List Effect}
  {stage : Stage} {a : AckPacket} {answer : Packet}

theorem Carries.restored {e : InboundQoS2} (h : Carries m e) :
    Carries m e.store.restoreInbound where
  topic := h.topic
  payload := h.payload
  qos := (UInt8.ofNat_toNat).trans h.qos
  retain := h.retain
  properties := (storeProperties_protocolProperties _).trans h.properties

/-- What is staged for a packet of a message is the message. -/
theorem carries_stagedMessage {topic : Str} (hpkt : pkt = m ∨ pkt = again m)
    (htopic : pkt.topic ≠ [] → topic = pkt.topic) :
    Carries m (stagedMessage { pkt with topic := topic }) := by
  rcases hpkt with rfl | rfl
  · exact ⟨htopic, rfl, rfl, rfl, rfl⟩
  · exact ⟨htopic, rfl, rfl, rfl, rfl⟩

/-! ### Packets and identifiers -/

theorem itemOf_of_ne (h : id ≠ p.id) : itemOf id p = none := by
  cases p with
  | publish | release => exact if_neg (Ne.symm h)

theorem itemOf_publish :
    itemOf pkt.packetID (.publish n pkt) = some (.offer n pkt.fixedHeader.dup) :=
  if_pos rfl

theorem itemOf_release : itemOf id (.release n id) = some (.release n) := if_pos rfl

theorem filterMap_append_singleton {α β : Type} (f : α → Option β) (l : List α) (a : α) :
    (l ++ [a]).filterMap f = l.filterMap f ++ (f a).toList := by
  cases h : f a <;> simp [h]

theorem releases_append (n : ℕ) (log : List (Sent × List Effect)) (e : Sent × List Effect) :
    releases n (log ++ [e]) = releases n log ++ releases n [e] := by
  unfold releases
  rw [List.filterMap_append]

variable {c : Core}

theorem done_log {entry : Sent × List Effect}
    (h : (c.messages n).packetID = id → releases n [entry] = []) :
    (view { c with log := c.log ++ [entry] } id).done n = (c.view id).done n := by
  show (if _ then (releases n (c.log ++ [entry])).map delivers else []) = if _ then _ else _
  split_ifs with hid
  · rw [releases_append, h hid, List.append_nil]
  · rfl

theorem view_forward_cons {i : Item} {rest : List Sent} (hforward : c.forward = p :: rest)
    (hitem : itemOf id p = some i) : (c.view id).forward = i :: rest.filterMap (itemOf id) := by
  show c.forward.filterMap _ = _
  rw [hforward]
  exact List.filterMap_cons_some hitem

theorem view_backward_cons {b : Backward} {rest : List Packet} (hback : c.backward = answer :: rest)
    (hreport : reportOf id answer = some b) :
    (c.view id).backward = b :: rest.filterMap (reportOf id) := by
  show c.backward.filterMap _ = _
  rw [hback]
  exact List.filterMap_cons_some hreport

/-! ### Losing packets -/

/-- The links carry no more than before, and what was staged is staged, perhaps
after a teardown and a restore. -/
theorem Inv.lose (hi : c.Inv) {f : List Sent} {b : List Packet}
    {staged : UInt16 → Option InboundQoS2} (hf : f.Sublist c.forward) (hb : b.Sublist c.backward)
    (hstaged : ∀ id, staged id = c.staged id ∨
      staged id = (c.staged id).map fun e => e.store.restoreInbound) :
    Inv { c with forward := f, backward := b, staged := staged } := by
  refine { hi with
    views := fun id => ?_
    sent := fun p hp => hi.sent p (hf.subset hp)
    reasons := fun a ha => hi.reasons a (hb.subset ha)
    content := fun id e n he hstage => ?_ }
  · have hsome : (staged id).isSome = (c.staged id).isSome := by
      rcases hstaged id with heq | heq
      · rw [heq]
      · rw [heq, Option.isSome_map]
    have hview := (hi.views id).step
      (.lose _ _ _ (hf.filterMap (itemOf id)) (hb.filterMap (reportOf id)))
    unfold view at hview ⊢
    rwa [hsome]
  · rcases hstaged id with heq | heq
    · exact hi.content id e n (heq.symm.trans he) hstage
    · obtain ⟨e₀, he₀, rfl⟩ := Option.map_eq_some_iff.mp (heq.symm.trans he)
      exact (hi.content id e₀ n he₀ hstage).restored

theorem Inv.logPublish (hi : c.Inv) (heffects : ∀ p, .route p ∉ effects) :
    Inv { c with log := c.log ++ [(.publish n pkt, effects)] } := by
  refine { hi with
    views := fun id => ?_
    log := forall_mem_snoc hi.log heffects }
  convert hi.views id using 1
  exact Handoff.ext rfl rfl rfl rfl (funext fun _ => done_log fun _ => rfl)

/-! ### The publisher -/

def send (c : Core) (p : Sent) : Core := { c with forward := c.forward ++ [p] }

theorem view_send :
    (c.send p).view id = { c.view id with forward := (c.view id).forward ++ (itemOf id p).toList } :=
  Handoff.ext rfl (filterMap_append_singleton _ _ _) rfl rfl rfl

def draw (c : Core) (m : PublishPacket) : Core :=
  { c with
    stage := update c.stage m.packetID (.offered c.next)
    messages := update c.messages c.next m
    next := c.next + 1
    forward := c.forward ++ [.publish c.next m] }

theorem messages_draw (hn : n < c.next) : (c.draw m).messages n = c.messages n :=
  update_of_ne (Nat.ne_of_lt hn) _ _

theorem messages_draw_self : (c.draw m).messages c.next = m := update_self _ _ _

theorem stage_draw_self : (c.draw m).stage m.packetID = .offered c.next := update_self _ _ _

theorem stage_draw_of_ne (h : id ≠ m.packetID) : (c.draw m).stage id = c.stage id :=
  update_of_ne h _ _

def move (c : Core) (id : UInt16) (stage : Stage) (rest : List Packet) : Core :=
  { c with stage := update c.stage id stage, backward := rest }

theorem stage_move_of_ne {id' : UInt16} (rest : List Packet) (h : id' ≠ id) :
    (c.move id stage rest).stage id' = c.stage id' :=
  update_of_ne h _ _

theorem stage_move_self (rest : List Packet) : (c.move id stage rest).stage id = stage :=
  update_self _ _ _

variable {rest : List Packet}

theorem view_move_of_ne {id' : UInt16} {p : Packet} (hback : c.backward = p :: rest)
    (hp : reportOf id' p = none) (h : id' ≠ id) : (c.move id stage rest).view id' = c.view id' := by
  refine Handoff.ext (stage_move_of_ne rest h) rfl ?_ rfl rfl
  simp only [view, move, hback, List.filterMap_cons_none hp]

theorem view_move :
    (c.move id stage rest).view id =
      { c.view id with stage := stage, backward := rest.filterMap (reportOf id) } :=
  Handoff.ext (stage_move_self rest) rfl rfl rfl rfl

section

variable (hi : c.Inv)

include hi

theorem Inv.send (hb : c.Belongs p) (hview : ((c.send p).view p.id).Inv) : (c.send p).Inv := by
  refine { hi with
    views := fun id => ?_
    sent := forall_mem_snoc hi.sent hb }
  by_cases hid : id = p.id
  · exact hid ▸ hview
  · rw [view_send, itemOf_of_ne hid, Option.toList_none, List.append_nil]
    exact hi.views id

theorem Inv.resend (hstage : c.stage id = .offered n) :
    (c.send (.publish n (again (c.messages n)))).Inv := by
  obtain ⟨hlt, rfl⟩ := hi.stages id n (Or.inl hstage)
  refine hi.send ⟨hlt, Or.inr rfl⟩ ?_
  show ((c.send _).view (again (c.messages n)).packetID).Inv
  rw [view_send, itemOf_publish]
  exact (hi.views _).step (.offerAgain _ n hstage)

theorem Inv.resendRelease (hstage : c.stage id = .released n) : (c.send (.release n id)).Inv := by
  obtain ⟨hlt, hid⟩ := hi.stages id n (Or.inr hstage)
  refine hi.send ⟨hlt, hid.symm⟩ ?_
  show ((c.send _).view id).Inv
  rw [view_send, itemOf_release]
  exact (hi.views id).step (.releaseAgain _ n hstage)

theorem Inv.releases_next : releases c.next c.log = [] := by
  refine List.filterMap_eq_nil_iff.mpr fun e he => ?_
  obtain ⟨p, effects⟩ := e
  cases p with
  | publish n pkt => rfl
  | release n id => exact if_neg (Nat.ne_of_lt (hi.log _ he).1)

theorem Inv.done_draw (id : UInt16) : ((c.draw m).view id).done = (c.view id).done := by
  funext n
  show (if ((c.draw m).messages n).packetID = id then (releases n c.log).map delivers else []) =
    if (c.messages n).packetID = id then (releases n c.log).map delivers else []
  by_cases hn : n = c.next
  · rw [hn, hi.releases_next, List.map_nil, ite_self, ite_self]
  · rw [show (c.draw m).messages n = c.messages n from update_of_ne hn _ _]

theorem Inv.view_draw (id : UInt16) :
    (c.draw m).view id =
      { c.view id with
        stage := (c.draw m).stage id
        forward := (c.view id).forward ++ (itemOf id (.publish c.next m)).toList } :=
  Handoff.ext rfl (filterMap_append_singleton _ _ _) rfl rfl (hi.done_draw _)

theorem Inv.draw (hstage : c.stage m.packetID = .idle) (hqos : m.fixedHeader.qos = 2)
    (hdup : m.fixedHeader.dup = false) : (c.draw m).Inv := by
  constructor
  case views =>
    intro id
    by_cases hid : id = m.packetID
    · subst hid
      have hfresh : (c.view m.packetID).done c.next = [] := by
        show (if _ then (releases c.next c.log).map delivers else []) = []
        rw [hi.releases_next, List.map_nil, ite_self]
      rw [hi.view_draw, stage_draw_self, itemOf_publish, hdup]
      exact (hi.views _).step (.draw _ c.next hstage hfresh)
    · rw [hi.view_draw, stage_draw_of_ne hid, itemOf_of_ne (p := .publish c.next m) hid,
        Option.toList_none, List.append_nil]
      exact hi.views id
  case stages =>
    intro id n h
    by_cases hid : id = m.packetID
    · subst hid
      rw [stage_draw_self] at h
      rcases h with h | h
      · cases h
        exact ⟨Nat.lt_succ_self _, by rw [messages_draw_self]⟩
      · cases h
    · rw [stage_draw_of_ne hid] at h
      obtain ⟨hlt, heq⟩ := hi.stages id n h
      exact ⟨Nat.lt_succ_of_lt hlt, by rwa [messages_draw hlt]⟩
  case qos =>
    intro n hn
    rcases Nat.lt_succ_iff_lt_or_eq.mp hn with hlt | rfl
    · rw [messages_draw hlt]
      exact hi.qos n hlt
    · rwa [messages_draw_self]
  case sent =>
    refine forall_mem_snoc (fun p hp => ?_) ?_
    · have hb := hi.sent p hp
      cases p with
      | publish | release => exact ⟨Nat.lt_succ_of_lt hb.1, by rw [messages_draw hb.1]; exact hb.2⟩
    · exact ⟨Nat.lt_succ_self _, Or.inl messages_draw_self.symm⟩
  case reasons => exact hi.reasons
  case content =>
    intro id e n he h
    by_cases hid : id = m.packetID
    · subst hid
      have hnone : (c.staged m.packetID).isSome = false := ((hi.views _).idle hstage).staged
      rw [show c.staged m.packetID = some e from he] at hnone
      cases hnone
    · rw [stage_draw_of_ne hid] at h
      rw [messages_draw (hi.stages id n h).1]
      exact hi.content id e n he h
  case log =>
    intro e he
    have hentry := hi.log e he
    obtain ⟨p, effects⟩ := e
    cases p with
    | publish n pkt => exact hentry
    | release n id =>
      obtain ⟨hlt, hid, heffects⟩ := hentry
      refine ⟨Nat.lt_succ_of_lt hlt, ?_, ?_⟩
      · rwa [messages_draw hlt]
      · rwa [messages_draw hlt]

/-- The new stage belongs to no other message than the old one. -/
theorem Inv.move {p : Packet} (hback : c.backward = p :: rest)
    (hp : ∀ id' ≠ id, reportOf id' p = none)
    (hstage : ∀ n, stage = .offered n ∨ stage = .released n →
      c.stage id = .offered n ∨ c.stage id = .released n)
    (hview : ((c.move id stage rest).view id).Inv) : (c.move id stage rest).Inv := by
  have hold : ∀ id' n, (c.move id stage rest).stage id' = .offered n ∨
      (c.move id stage rest).stage id' = .released n →
        c.stage id' = .offered n ∨ c.stage id' = .released n := by
    intro id' n h
    by_cases hid : id' = id
    · subst hid
      rw [stage_move_self] at h
      exact hstage n h
    · rwa [stage_move_of_ne rest hid] at h
  refine { hi with
    views := fun id' => ?_
    stages := fun id' n h => hi.stages id' n (hold id' n h)
    reasons := fun a ha => hi.reasons a (hback ▸ List.mem_cons_of_mem _ ha)
    content := fun id' e n he h => hi.content id' e n he (hold id' n h) }
  by_cases hid : id' = id
  · exact hid ▸ hview
  · rw [view_move_of_ne hback (hp id' hid) hid]
    exact hi.views id'

theorem Inv.receipt (hback : c.backward = .pubRec a :: rest)
    (hstage : c.stage a.packetID = .offered n) :
    ((c.move a.packetID (.released n) rest).send (.release n a.packetID)).Inv := by
  have hreport := view_backward_cons hback (if_pos (rfl : a.packetID = a.packetID))
  refine Inv.resendRelease (hi.move hback (fun id' h => if_neg (Ne.symm h)) ?_ ?_)
    (stage_move_self rest)
  · rintro m (h | h) <;> cases h
    exact Or.inl hstage
  · rw [view_move]
    have hreleased := (hi.views a.packetID).step (.receipt _ n _ hreport (Or.inl hstage))
    exact hreleased.step
      (.lose _ (c.view a.packetID).forward _ (List.sublist_append_left _ _) (List.Sublist.refl _))

theorem Inv.completion (hback : c.backward = .pubComp a :: rest)
    (hstage : c.stage a.packetID = .released n) : (c.move a.packetID .idle rest).Inv := by
  have hreport := view_backward_cons hback (if_pos (rfl : a.packetID = a.packetID))
  refine hi.move hback (fun id' h => if_neg (Ne.symm h)) (fun m h => ?_) ?_
  · rcases h with h | h <;> cases h
  · rw [view_move]
    exact (hi.views a.packetID).step (.completion _ n _ hreport hstage)

end

/-! ### The broker -/

def handled (c : Core) (p : Sent) (rest : List Sent) (answer : Packet) (e : Option InboundQoS2)
    (effects : List Effect) : Core :=
  { c with
    forward := rest
    backward := c.backward ++ [answer]
    staged := update c.staged p.id e
    log := c.log ++ [(p, effects)] }

variable {rest : List Sent} {e : Option InboundQoS2}

theorem view_handled_of_ne (hforward : c.forward = p :: rest) (hb : c.Belongs p)
    (hanswer : reportOf id answer = none) (h : id ≠ p.id) :
    (c.handled p rest answer e effects).view id = c.view id := by
  refine Handoff.ext rfl ?_ ?_ ?_ (funext fun n => done_log fun hid => ?_)
  · simp only [view, handled, hforward, List.filterMap_cons_none (itemOf_of_ne h)]
  · simp only [view, handled, filterMap_append_singleton, hanswer, Option.toList_none,
      List.append_nil]
  · show (update c.staged p.id e id).isSome = _
    rw [update_of_ne h]
    rfl
  · -- a release counts for a message of its own identifier only
    cases p with
    | publish k pkt => rfl
    | release k id' =>
      have hk : k ≠ n := by
        rintro rfl
        exact h (hid.symm.trans hb.2.symm)
      simp [releases, hk]

theorem Inv.handled (hi : c.Inv) (hforward : c.forward = p :: rest)
    (hanswer : ∀ id ≠ p.id, reportOf id answer = none)
    (hreason : ∀ a, answer = .pubRec a → a.reasonCode < reasonCodeFailureBase)
    (hcontent : ∀ msg n, e = some msg → c.stage p.id = .offered n ∨ c.stage p.id = .released n →
      Carries (c.messages n) msg)
    (hentry : c.Entry (p, effects)) (hview : ((c.handled p rest answer e effects).view p.id).Inv) :
    (c.handled p rest answer e effects).Inv := by
  have hb : c.Belongs p := hi.sent p (hforward ▸ List.mem_cons_self)
  refine { hi with
    views := fun id => ?_
    sent := fun q hq => hi.sent q (hforward ▸ List.mem_cons_of_mem _ hq)
    reasons := fun a ha => ?_
    content := fun id msg n he h => ?_
    log := forall_mem_snoc hi.log hentry }
  · by_cases hid : id = p.id
    · exact hid ▸ hview
    · rw [view_handled_of_ne hforward hb (hanswer id hid) hid]
      exact hi.views id
  · rcases List.mem_append.mp ha with ha | ha
    · exact hi.reasons a ha
    · exact hreason a (List.mem_singleton.mp ha).symm
  · change update c.staged p.id e id = some msg at he
    by_cases hid : id = p.id
    · subst hid
      exact hcontent msg n (by rwa [update_self] at he) h
    · rw [update_of_ne hid] at he
      exact hi.content id msg n he h

theorem Inv.accept (hi : c.Inv) {msg : InboundQoS2} (hforward : c.forward = .publish n pkt :: rest)
    (hmsg : c.staged pkt.packetID = some msg ∨ Carries (c.messages n) msg)
    (heffects : ∀ p, .route p ∉ effects) :
    (c.handled (.publish n pkt) rest (pubRecPacket pkt.packetID reasonCodeSuccess) (some msg)
      effects).Inv := by
  have hitems := view_forward_cons hforward itemOf_publish
  have hmem : Item.offer n pkt.fixedHeader.dup ∈ (c.view pkt.packetID).forward :=
    hitems ▸ List.mem_cons_self
  refine hi.handled hforward (fun id h => if_neg (Ne.symm h)) ?_ ?_ heffects ?_
  · intro a ha
    cases ha
    exact (by decide : reasonCodeSuccess < reasonCodeFailureBase)
  · intro msg' k he hstage
    cases he
    rcases hmsg with hstaged | hcarries
    · exact hi.content _ _ k hstaged hstage
    · -- the offer belongs to the message outstanding
      have hcurrent : c.stage pkt.packetID = .offered n ∨ c.stage pkt.packetID = .released n :=
        (hi.views _).stage_of_offer hmem
      have hk : k = n := by
        rcases hstage with hstage | hstage <;> rcases hcurrent with hcurrent | hcurrent <;>
          cases hstage.symm.trans hcurrent <;> rfl
      exact hk ▸ hcarries
  · have hview : (c.handled (.publish n pkt) rest (pubRecPacket pkt.packetID reasonCodeSuccess)
        (some msg) effects).view pkt.packetID =
        { c.view pkt.packetID with
          forward := rest.filterMap (itemOf pkt.packetID)
          backward := (c.view pkt.packetID).backward ++ [.received]
          staged := true } := by
      refine Handoff.ext rfl rfl ?_ ?_ (funext fun _ => done_log fun _ => rfl)
      · exact (filterMap_append_singleton _ _ _).trans
          (congrArg (_ ++ ·) (congrArg Option.toList (if_pos rfl)))
      · exact congrArg Option.isSome (update_self pkt.packetID _ c.staged)
    show (Core.view _ pkt.packetID).Inv
    rw [hview]
    exact (hi.views _).step (.accept _ n _ _ hitems)

/-- What `handlePubRel` asks for, by what is staged. -/
def releaseEffects (id : UInt16) : Option InboundQoS2 → List Effect
  | none => [.write (pubCompPacket id)]
  | some msg => [.route (releasedPublish msg), .write (pubCompPacket id)]

theorem delivers_releaseEffects (id : UInt16) (e : Option InboundQoS2) :
    delivers (releaseEffects id e) = e.isSome := by
  cases e <;> rfl

theorem Inv.complete (hi : c.Inv) (hforward : c.forward = .release n id :: rest) :
    (c.handled (.release n id) rest (pubCompPacket id) none
      (releaseEffects id (c.staged id))).Inv := by
  have hitems := view_forward_cons hforward itemOf_release
  have hmem : Item.release n ∈ (c.view id).forward := hitems ▸ List.mem_cons_self
  obtain ⟨hlt, hid⟩ := hi.sent (.release n id) (hforward ▸ List.mem_cons_self)
  refine hi.handled hforward (fun id' h => if_neg (Ne.symm h)) (fun a ha => by cases ha)
    (fun msg k he => by cases he) ⟨hlt, hid, ?_⟩ ?_
  · cases hstaged : c.staged id with
    | none => exact Or.inl rfl
    | some msg =>
      have hstage : c.stage id = .released n := by
        refine (hi.views id).stage_of_release hmem ?_
        show (c.staged id).isSome = true
        rw [hstaged]
        rfl
      exact Or.inr ⟨_, rfl, hi.content id msg n hstaged (Or.inr hstage)⟩
  · have hview : (c.handled (.release n id) rest (pubCompPacket id) none
        (releaseEffects id (c.staged id))).view id =
        (c.view id).completed n (rest.filterMap (itemOf id)) := by
      refine Handoff.ext rfl rfl ?_ ?_ (funext fun k => ?_)
      · exact (filterMap_append_singleton _ _ _).trans
          (congrArg (_ ++ ·) (congrArg Option.toList (if_pos rfl)))
      · exact congrArg Option.isSome (update_self id _ c.staged)
      · by_cases hk : k = n
        · subst hk
          show (if (c.messages k).packetID = id then (releases k
            (c.log ++ [(.release k id, releaseEffects id (c.staged id))])).map delivers else []) = _
          rw [releases_append, Handoff.done_completed_self, if_pos hid.symm, List.map_append]
          show _ = (if (c.messages k).packetID = id then _ else _) ++ _
          rw [if_pos hid.symm, show releases k [(.release k id, releaseEffects id (c.staged id))] =
            [releaseEffects id (c.staged id)] by simp [releases], List.map_singleton,
            delivers_releaseEffects]
          rfl
        · rw [Handoff.done_completed_of_ne hk]
          exact done_log fun _ => by simp [releases, Ne.symm hk]
    show (Core.view _ id).Inv
    rw [hview]
    exact (hi.views id).step (.complete _ n _ hitems)

/-! ### What has been handled -/

theorem routedOnce_of_delivers {l : List (List Effect)}
    (hentries : ∀ effects ∈ l, effects = [.write (pubCompPacket m.packetID)] ∨
      ∃ pkt, effects = [.route pkt, .write (pubCompPacket m.packetID)] ∧ Relays m pkt)
    (hdone : l.map delivers = [] ∨ ∃ j, l.map delivers = true :: List.replicate j false) :
    RoutedOnce m l := by
  cases l with
  | nil => trivial
  | cons first later =>
    rcases hdone with hnil | ⟨j, hcons⟩
    · cases hnil
    obtain ⟨hfirst, hlater⟩ := List.cons.inj hcons
    constructor
    · rcases hentries first List.mem_cons_self with rfl | hrouted
      · cases hfirst
      · exact hrouted
    · intro effects hmem
      have hnot : delivers effects = false :=
        List.eq_of_mem_replicate (hlater ▸ List.mem_map_of_mem hmem)
      rcases hentries effects (List.mem_cons_of_mem _ hmem) with heq | ⟨pkt, rfl, -⟩
      · exact heq
      · cases hnot

theorem Inv.routedOnce (hi : c.Inv) (n : ℕ) : RoutedOnce (c.messages n) (releases n c.log) := by
  have hdone := (hi.views (c.messages n).packetID).done n
  rw [Handoff.Delivered, show (c.view (c.messages n).packetID).done n =
    (releases n c.log).map delivers from if_pos rfl] at hdone
  refine routedOnce_of_delivers (fun effects hmem => ?_) hdone
  obtain ⟨⟨p, effects'⟩, he, heq⟩ := List.mem_filterMap.mp hmem
  cases p with
  | publish k pkt => cases heq
  | release k id =>
    dsimp only at heq
    split_ifs at heq with hk
    subst hk
    cases heq
    obtain ⟨-, rfl, heffects⟩ := hi.log _ he
    exact heffects

end Core

/-! ## The runs -/

def State.hand (st : State) : List Sent :=
  match st.conn with
  | none => []
  | some κ => (st.loops κ).inHand.toList

def State.pending (st : State) : List Packet :=
  match st.conn with
  | none => []
  | some κ => (st.loops κ).answers

variable {κ n : ℕ} {s : Inbound} {id : UInt16} {policy : Policy}

theorem State.hand_of_conn (st : State) (h : st.conn = some κ) :
    st.hand = (st.loops κ).inHand.toList := by
  unfold State.hand
  rw [h]

theorem State.pending_of_conn (st : State) (h : st.conn = some κ) :
    st.pending = (st.loops κ).answers := by
  unfold State.pending
  rw [h]

/-- What is staged under an identifier, in memory or, between two connections, in
the record. -/
def State.stagedAt (st : State) (id : UInt16) : Option InboundQoS2 :=
  match st.manager with
  | some σ => (st.sessions σ).inboundQoS2.lookup id
  | none => ((st.record.map Inbound.restore).getD {}).inboundQoS2.lookup id

def State.core (st : State) : Core where
  stage := st.stage
  next := st.next
  messages := st.messages
  forward := st.hand ++ st.forward
  backward := st.backward ++ st.pending
  staged := st.stagedAt
  log := st.log

structure Inv (st : State) : Prop where
  core : st.core.Inv
  attached : st.manager = st.conn.map fun κ => (st.loops κ).sess

theorem inv_init : Inv {} where
  core :=
    { views := fun id => by
        have h : (State.core {}).view id = {} :=
          Handoff.ext rfl rfl rfl rfl (funext fun n => ite_self _)
        exact h ▸ Handoff.inv_init
      stages := fun _ _ h => by rcases h with h | h <;> cases h
      qos := fun _ h => absurd h (Nat.not_lt_zero _)
      sent := fun _ h => absurd h List.not_mem_nil
      reasons := fun _ h => absurd h List.not_mem_nil
      content := fun _ _ _ _ h => by rcases h with h | h <;> cases h
      log := fun _ h => absurd h List.not_mem_nil }
  attached := rfl

theorem Inv.exactlyOnce {st : State} (hi : Inv st) : ExactlyOnce st where
  released := hi.core.routedOnce
  published := fun _ _ _ hmem => hi.core.log _ hmem

variable {st st' : State}

/-- The publisher and the log are as before, the links carry no more than before,
and what was staged is staged. -/
structure Loses (st st' : State) : Prop where
  stage : st'.stage = st.stage
  next : st'.next = st.next
  messages : st'.messages = st.messages
  log : st'.log = st.log
  forward : (st'.hand ++ st'.forward).Sublist (st.hand ++ st.forward)
  backward : (st'.backward ++ st'.pending).Sublist (st.backward ++ st.pending)
  staged : ∀ id, st'.stagedAt id = st.stagedAt id ∨
    st'.stagedAt id = (st.stagedAt id).map fun e => e.store.restoreInbound
  attached : st'.manager = st'.conn.map fun κ => (st'.loops κ).sess

theorem Inv.loses (hi : Inv st) (h : Loses st st') : Inv st' := by
  refine ⟨?_, h.attached⟩
  have hcore : st'.core =
      { st.core with
        forward := st'.hand ++ st'.forward
        backward := st'.backward ++ st'.pending
        staged := st'.stagedAt } :=
    Core.ext h.stage h.next h.messages rfl rfl rfl h.log
  rw [hcore]
  exact hi.core.lose h.forward h.backward h.staged

theorem Inv.manager_eq (hi : Inv st) (hconn : st.conn = some κ) :
    st.manager = some (st.loops κ).sess := by
  rw [hi.attached, hconn]
  rfl

variable {p : Sent}

theorem State.forward_core (hconn : st.conn = some κ) (hhand : (st.loops κ).inHand = some p) :
    st.core.forward = p :: st.forward := by
  show st.hand ++ st.forward = _
  rw [st.hand_of_conn hconn, hhand]
  rfl

theorem State.staged_core {σ : ℕ} (hmanager : st.manager = some σ) :
    st.core.staged = (st.sessions σ).inboundQoS2.lookup := by
  funext id
  show st.stagedAt id = _
  unfold State.stagedAt
  rw [hmanager]

/-! ### Connections -/

theorem Inv.lost (hi : Inv st) : Inv st.lost :=
  hi.loses
    { stage := rfl
      next := rfl
      messages := rfl
      log := rfl
      forward := List.Sublist.append (List.Sublist.refl _) (List.nil_sublist _)
      backward := List.Sublist.append (List.nil_sublist _) (List.Sublist.refl _)
      staged := fun _ => Or.inl rfl
      attached := hi.attached }

/-- A new connection starts with empty links and a loop at rest. -/
theorem loses_attach {σ : ℕ} (hs : ∀ id, s.inboundQoS2.lookup id = st.stagedAt id) :
    Loses st { st.attach σ s with nextSess := n } where
  stage := rfl
  next := rfl
  messages := rfl
  log := rfl
  forward := by
    have h : State.hand { st.attach σ s with nextSess := n } = [] := by
      simp [State.hand, State.attach]
    rw [h]
    exact List.nil_sublist _
  backward := by
    have h : State.pending { st.attach σ s with nextSess := n } = [] := by
      simp [State.pending, State.attach]
    rw [h]
    exact List.nil_sublist _
  staged := by
    intro id
    rw [← hs id]
    simp [State.stagedAt, State.attach]
  attached := by simp [State.attach]

variable {opts : Options} {entry : Sent × List Effect}

theorem Inv.connect (hi : Inv st) {pkt : ConnectPacket} (hconn : st.conn = none) :
    Inv { st.attach st.nextSess (resume opts pkt ((st.record.map Inbound.restore).getD {})) with
      nextSess := st.nextSess + 1 } := by
  refine hi.loses (loses_attach fun id => ?_)
  have hmanager : st.manager = none := by
    rw [hi.attached, hconn]
    rfl
  unfold State.stagedAt
  rw [hmanager]
  rfl

theorem Inv.takeover (hi : Inv st) {pkt : ConnectPacket} {σ : ℕ} (hmanager : st.manager = some σ) :
    Inv (st.attach σ (resume opts pkt (st.sessions σ))) := by
  refine hi.loses (loses_attach (n := st.nextSess) fun id => ?_)
  exact (congrFun (State.staged_core hmanager) id).symm

theorem Inv.teardown (hi : Inv st) {σ : ℕ} (hconn : st.conn = some κ)
    (hmanager : st.manager = some σ) (hhand : (st.loops κ).inHand = none)
    (hanswers : (st.loops κ).answers = []) :
    Inv { st with conn := none, manager := none, record := some (st.sessions σ).save } := by
  refine hi.loses ⟨rfl, rfl, rfl, rfl, ?_, ?_, fun id => Or.inr ?_, rfl⟩
  · rw [st.hand_of_conn hconn, hhand]
    exact List.Sublist.refl _
  · rw [st.pending_of_conn hconn, hanswers]
    exact List.Sublist.refl _
  · have hbefore : st.stagedAt id = (st.sessions σ).inboundQoS2.lookup id :=
      congrFun (State.staged_core hmanager) id
    rw [hbefore]
    exact lookup_restore_save (st.sessions σ) id

theorem Inv.decode (hi : Inv st) {rest : List Sent} (hconn : st.conn = some κ)
    (hforward : st.forward = p :: rest) (hhand : (st.loops κ).inHand = none) :
    Inv ({ st with forward := rest }.setLoop κ { st.loops κ with inHand := some p }) := by
  have hattached := hi.attached
  refine hi.loses ⟨rfl, rfl, rfl, rfl, ?_, ?_, fun _ => Or.inl rfl, ?_⟩
  · simp [State.hand, State.setLoop, hconn, hhand, hforward]
  · simp [State.pending, State.setLoop, hconn]
  · simp [State.setLoop, hconn, hattached]

theorem Inv.answer (hi : Inv st) {p : Packet} {rest : List Packet} {placed : Bool}
    (hconn : st.conn = some κ) (hanswers : (st.loops κ).answers = p :: rest) :
    Inv { st.setLoop κ { st.loops κ with answers := rest } with
      backward := if placed && st.online then st.backward ++ [p] else st.backward } := by
  have hattached := hi.attached
  refine hi.loses ⟨rfl, rfl, rfl, rfl, ?_, ?_, fun _ => Or.inl rfl, ?_⟩
  · simp [State.hand, State.setLoop, hconn]
  · -- an answer that is placed moves on, one that is not is lost
    split
    · simp [State.pending, State.setLoop, hconn, hanswers]
    · simp [State.pending, State.setLoop, hconn, hanswers]
  · simp [State.setLoop, hconn, hattached]

/-! ### The publisher's side -/

theorem Inv.begin (hi : Inv st) {m : PublishPacket} (hstage : st.stage m.packetID = .idle)
    (hqos : m.fixedHeader.qos = 2) (hdup : m.fixedHeader.dup = false) :
    Inv { st with
      stage := update st.stage m.packetID (.offered st.next)
      messages := update st.messages st.next m
      next := st.next + 1
      forward := st.forward ++ [.publish st.next m] } := by
  refine ⟨?_, hi.attached⟩
  convert hi.core.draw hstage hqos hdup using 1
  exact Core.ext rfl rfl rfl (List.append_assoc _ _ _).symm rfl rfl rfl

theorem core_send : State.core { st with forward := st.forward ++ [p] } = st.core.send p :=
  Core.ext rfl rfl rfl (List.append_assoc _ _ _).symm rfl rfl rfl

theorem Inv.resend (hi : Inv st) (hstage : st.stage id = .offered n) :
    Inv { st with forward := st.forward ++ [.publish n (again (st.messages n))] } :=
  ⟨core_send ▸ hi.core.resend hstage, hi.attached⟩

theorem Inv.resendRelease (hi : Inv st) (hstage : st.stage id = .released n) :
    Inv { st with forward := st.forward ++ [.release n id] } :=
  ⟨core_send ▸ hi.core.resendRelease hstage, hi.attached⟩

theorem Inv.receive (hi : Inv st) {p : Packet} {rest : List Packet}
    (hback : st.backward = p :: rest) : Inv (State.receive { st with backward := rest } p) := by
  have hcore : st.core.backward = p :: (rest ++ st.pending) := by
    show st.backward ++ st.pending = _
    rw [hback]
    rfl
  have hpopped : Inv { st with backward := rest } := by
    refine hi.loses ⟨rfl, rfl, rfl, rfl, List.Sublist.refl _, ?_, fun _ => Or.inl rfl, hi.attached⟩
    rw [hback]
    exact List.sublist_cons_self _ _
  cases p with
  | pubRec a =>
    cases hstage : st.stage a.packetID with
    | idle =>
      simp only [State.receive, hstage]
      exact hpopped
    | offered n =>
      have hok : ¬ a.reasonCode ≥ reasonCodeFailureBase :=
        UInt8.not_le.mpr (hi.core.reasons a (hcore ▸ List.mem_cons_self))
      simp only [State.receive, hstage, if_neg hok]
      refine ⟨?_, hi.attached⟩
      convert hi.core.receipt hcore hstage using 1
      exact Core.ext rfl rfl rfl (List.append_assoc _ _ _).symm rfl rfl rfl
    | released n =>
      simp only [State.receive, hstage]
      exact hpopped.resendRelease hstage
  | pubComp a =>
    cases hstage : st.stage a.packetID with
    | released n =>
      simp only [State.receive, hstage]
      exact ⟨hi.core.completion hcore hstage, hi.attached⟩
    | idle | offered =>
      simp only [State.receive, hstage]
      exact hpopped
  | _ => exact hpopped

/-! ### Handling a packet -/

def State.finish (st : State) (κ : ℕ) (s : Inbound) (answers : List Packet)
    (entry : Sent × List Effect) : State :=
  { st with
    sessions := update st.sessions (st.loops κ).sess s
    loops := update st.loops κ { st.loops κ with inHand := none, answers := answers }
    log := st.log ++ [entry] }

variable {pkt : PublishPacket}

theorem handle_publish_eq {r : Inbound × List Effect}
    (hr : (st.sessions (st.loops κ).sess).handlePublish policy pkt = r) :
    st.handle κ policy (.publish n pkt) =
      if .close ∈ r.2 then (st.finish κ r.1 (st.loops κ).answers (.publish n pkt, r.2)).lost
      else st.finish κ r.1 ((st.loops κ).answers ++ writes r.2) (.publish n pkt, r.2) := by
  subst hr
  rfl

theorem handle_release_eq {r : Inbound × List Effect}
    (hmanager : st.manager = some (st.loops κ).sess)
    (hr : (st.sessions (st.loops κ).sess).handlePubRel id = r) (hopen : .close ∉ r.2) :
    st.handle κ policy (.release n id) =
      st.finish κ r.1 ((st.loops κ).answers ++ writes r.2) (.release n id, r.2) := by
  subst hr
  have hprocess : st.process κ policy (.release n id) =
      let r := (st.sessions (st.loops κ).sess).handlePubRel id
      ({ st with sessions := update st.sessions (st.loops κ).sess r.1 }, r.2) := by
    simp only [State.process]
    split
    next h => cases h.symm.trans hmanager
    next σ h =>
      cases h.symm.trans hmanager
      rfl
  unfold State.handle
  rw [hprocess]
  exact if_neg hopen

variable {answers : List Packet}

theorem loops_finish :
    (st.finish κ s answers entry).loops κ =
      { st.loops κ with inHand := none, answers := answers } :=
  update_self _ _ _

theorem close_mem_closeProtocolViolation (s : Inbound) (reason : UInt8) :
    .close ∈ s.closeProtocolViolationWithReason reason :=
  List.mem_append_right _ (List.mem_singleton.mpr rfl)

theorem route_not_mem_closeProtocolViolation (s : Inbound) (reason : UInt8) (p : PublishPacket) :
    .route p ∉ s.closeProtocolViolationWithReason reason := by
  unfold closeProtocolViolationWithReason
  split <;> simp

theorem writes_staging (pkt : PublishPacket) (p : Packet) :
    writes (retainEffects pkt ++ [.write p]) = [p] := by
  unfold retainEffects
  split <;> rfl

section Registered

variable {effects : List Effect} (hi : Inv st) (hconn : st.conn = some κ)
include hi hconn

theorem Inv.core_finish :
    (st.finish κ s answers entry).core =
      { st.core with
        forward := st.forward
        backward := st.backward ++ answers
        staged := s.inboundQoS2.lookup
        log := st.log ++ [entry] } := by
  have hconn' : (st.finish κ s answers entry).conn = some κ := hconn
  refine Core.ext rfl rfl rfl ?_ ?_ ?_ rfl
  · show (st.finish κ s answers entry).hand ++ st.forward = _
    rw [State.hand_of_conn _ hconn', loops_finish]
    rfl
  · show st.backward ++ (st.finish κ s answers entry).pending = _
    rw [State.pending_of_conn _ hconn', loops_finish]
  · funext id
    show (st.finish κ s answers entry).stagedAt id = _
    unfold State.stagedAt State.finish
    rw [hi.manager_eq hconn]
    simp only [update_self]

theorem Inv.attached_finish :
    (st.finish κ s answers entry).manager =
      (st.finish κ s answers entry).conn.map fun κ' =>
        ((st.finish κ s answers entry).loops κ').sess := by
  simp [State.finish, hconn, hi.manager_eq hconn]

theorem Inv.finish_closing (hs : s.inboundQoS2 = (st.sessions (st.loops κ).sess).inboundQoS2)
    (heffects : ∀ p, .route p ∉ effects) :
    Inv (st.finish κ s (st.loops κ).answers (.publish n pkt, effects)) := by
  refine ⟨?_, hi.attached_finish hconn⟩
  have hforward : st.forward.Sublist st.core.forward := List.sublist_append_right _ _
  have hbackward : (st.backward ++ (st.loops κ).answers).Sublist st.core.backward := by
    show List.Sublist _ (st.backward ++ st.pending)
    rw [st.pending_of_conn hconn]
  have hstaged : ∀ id, s.inboundQoS2.lookup id = st.core.staged id := by
    intro id
    rw [State.staged_core (hi.manager_eq hconn), hs]
  rw [hi.core_finish hconn]
  exact (hi.core.lose hforward hbackward fun id => Or.inl (hstaged id)).logPublish heffects

theorem Inv.finish_accepting {msg : InboundQoS2}
    (hhand : (st.loops κ).inHand = some (.publish n pkt)) (hs : s.inboundQoS2.lookup =
      update (st.sessions (st.loops κ).sess).inboundQoS2.lookup pkt.packetID (some msg))
    (hmsg : (st.sessions (st.loops κ).sess).inboundQoS2.lookup pkt.packetID = some msg ∨
      Core.Carries (st.messages n) msg) (heffects : ∀ p, .route p ∉ effects) :
    Inv (st.finish κ s ((st.loops κ).answers ++ [pubRecPacket pkt.packetID reasonCodeSuccess])
      (.publish n pkt, effects)) := by
  refine ⟨?_, hi.attached_finish hconn⟩
  have hstaged := State.staged_core (hi.manager_eq hconn)
  have haccepted := hi.core.accept (State.forward_core hconn hhand) (hstaged ▸ hmsg) heffects
  rw [hi.core_finish hconn]
  convert haccepted using 1
  refine Core.ext rfl rfl rfl rfl ?_ ?_ rfl
  · show _ = (st.backward ++ st.pending) ++ _
    rw [st.pending_of_conn hconn, List.append_assoc]
  · show s.inboundQoS2.lookup = update st.core.staged pkt.packetID (some msg)
    rw [hs, hstaged]

theorem Inv.handle_closing (hcloses : (st.sessions (st.loops κ).sess).Closes
      ((st.sessions (st.loops κ).sess).handlePublish policy pkt)) :
    Inv (st.handle κ policy (.publish n pkt)) := by
  obtain ⟨reason, htable, heffects⟩ := hcloses
  rw [handle_publish_eq rfl, heffects, if_pos (close_mem_closeProtocolViolation _ _)]
  exact (hi.finish_closing hconn htable (route_not_mem_closeProtocolViolation _ _)).lost

theorem Inv.handle_publish (hhand : (st.loops κ).inHand = some (.publish n pkt))
    (haccepted : Accepted st (.handle κ policy)) : Inv (st.handle κ policy (.publish n pkt)) := by
  have hmem : Sent.publish n pkt ∈ st.core.forward :=
    State.forward_core hconn hhand ▸ List.mem_cons_self
  obtain ⟨hlt, hpkt⟩ := hi.core.sent _ hmem
  have hqos : pkt.fixedHeader.qos = 2 := by
    rcases hpkt with rfl | rfl
    · exact hi.core.qos n hlt
    · exact hi.core.qos n hlt
  have hinHand : st.publishInHand κ = some pkt := by
    unfold State.publishInHand
    rw [hhand]
    rfl
  obtain ⟨hrefused, hexpired, hroom⟩ := haccepted pkt hinHand
  cases hlookup : (st.sessions (st.loops κ).sess).inboundQoS2.lookup pkt.packetID with
  | some msg =>
    have hstaged : (st.sessions (st.loops κ).sess).hasInboundQoS2 pkt.packetID = true := by
      rw [hasInboundQoS2, hlookup]
      rfl
    -- what arrives for a staged message is a retransmission
    have hdup : pkt.fixedHeader.dup = true := by
      refine (hi.core.views pkt.packetID).again_of_staged (n := n) ?_ ?_
      · exact List.mem_filterMap.mpr ⟨_, hmem, Core.itemOf_publish⟩
      · show (st.core.staged pkt.packetID).isSome = true
        rw [State.staged_core (hi.manager_eq hconn)]
        exact hstaged
    rcases handlePublish_of_staged hqos hrefused hexpired hstaged hdup with
      hcloses | ⟨htable, heffects⟩
    · exact hi.handle_closing hconn hcloses
    · rw [handle_publish_eq rfl, heffects, if_neg (by simp)]
      refine hi.finish_accepting hconn hhand ?_ (Or.inl hlookup) (by simp)
      rw [htable]
      exact (update_eq_self_iff.mpr hlookup.symm).symm
  | none =>
    have hstaged : (st.sessions (st.loops κ).sess).hasInboundQoS2 pkt.packetID = false := by
      rw [hasInboundQoS2, hlookup]
      rfl
    have hfree := hroom.resolve_left (Bool.eq_false_iff.mp hstaged)
    rcases handlePublish_of_room hqos hrefused hexpired hstaged hfree with
      hcloses | ⟨topic, htopic, htable, heffects⟩
    · exact hi.handle_closing hconn hcloses
    · rw [handle_publish_eq rfl, heffects, if_neg (by simp [retainEffects]), writes_staging]
      refine hi.finish_accepting hconn hhand ?_
        (Or.inr (Core.carries_stagedMessage hpkt htopic)) (by simp [retainEffects])
      rw [htable]
      funext id
      rw [Keyed.lookup_insert, update_apply]
      rfl

theorem Inv.handle_release (hhand : (st.loops κ).inHand = some (.release n id)) :
    Inv (st.handle κ policy (.release n id)) := by
  have hmanager := hi.manager_eq hconn
  have hcompleted := hi.core.complete (State.forward_core hconn hhand)
  obtain ⟨s, heq, hs⟩ : ∃ s, (st.sessions (st.loops κ).sess).handlePubRel id =
      (s, Core.releaseEffects id (st.core.staged id)) ∧
        s.inboundQoS2.lookup = update st.core.staged id none := by
    rw [State.staged_core hmanager]
    cases hlookup : (st.sessions (st.loops κ).sess).inboundQoS2.lookup id with
    | none =>
      exact ⟨_, handlePubRel_of_none hlookup,
        (update_eq_self_iff.mpr hlookup.symm).symm⟩
    | some msg =>
      refine ⟨_, handlePubRel_of_staged hlookup, funext fun id' => ?_⟩
      rw [update_apply]
      exact Keyed.lookup_erase _ _ _
  have hwrites : writes (Core.releaseEffects id (st.core.staged id)) = [pubCompPacket id] := by
    cases st.core.staged id <;> rfl
  rw [handle_release_eq hmanager heq (by cases st.core.staged id <;> simp [Core.releaseEffects]),
    hwrites]
  refine ⟨?_, hi.attached_finish hconn⟩
  rw [hi.core_finish hconn]
  convert hcompleted using 1
  refine Core.ext rfl rfl rfl rfl ?_ hs rfl
  show _ = (st.backward ++ st.pending) ++ _
  rw [st.pending_of_conn hconn, List.append_assoc]

end Registered

theorem Inv.step {l : Label} (hi : Inv st) (haccepted : Accepted st l) (hcurrent : Current st l)
    (hstep : step opts st l = some st') : Inv st' := by
  revert hstep
  fun_cases Exchanges.step opts st l <;> intro hstep <;> try cases hstep
  next h => exact hi.begin h.2.1 h.2.2.1 h.2.2.2
  next hstage _ => exact hi.resend hstage
  next hstage _ => exact hi.resendRelease hstage
  next hback => exact hi.receive hback
  next hforward hconn _ h => exact hi.decode hconn hforward h.1
  · obtain ⟨p, hhand, rfl⟩ := Option.map_eq_some_iff.mp hstep
    cases p with
    | publish n pkt => exact hi.handle_publish hcurrent hhand haccepted
    | release n id => exact hi.handle_release hcurrent hhand
  next hanswers => exact hi.answer hcurrent hanswers
  · exact hi.lost
  next hmanager hconn h => exact hi.teardown hconn hmanager h.2.1 h.2.2
  next hconn _ => exact hi.connect hconn
  next hmanager _ => exact hi.takeover hmanager

/-- Over every run in which no message is refused and no read loop handles or
answers after its connection was taken over, each message whose release is
processed is routed exactly once, with the first release. -/
theorem exactlyOnce_of_current {opts : Options} {ls : List Label} {st : State}
    (hrun : Along (step opts) (fun st l => Accepted st l ∧ Current st l) {} ls)
    (hexec : exec (step opts) {} ls = some st) : ExactlyOnce st :=
  (exec_invariant Inv (fun _ _ _ hi hok hstep => hi.step hok.1 hok.2 hstep) inv_init hrun
    hexec).exactlyOnce

/-! ### Two runs -/

def connect311 : ConnectPacket where
  fixedHeader := { packetType := .connect }
  protocolName := ascii "MQTT"
  protocolVersion := version311
  flags := { cleanSession := false }
  keepAlive := 0
  clientID := ascii "p"

def message (payload : String) : PublishPacket where
  fixedHeader := { packetType := .publish, qos := 2 }
  packetID := 1
  topic := ascii "t"
  payload := ascii payload

def options : Options := { maxInflight := 10, sessionExpiry := 100 }

/-- A packet goes to the broker, its answer comes back. -/
def turn (κ : ℕ) : List Label := [.decode, .handle κ {}, .answer κ true, .receive]

/-- The loop of connection 0 has decoded a PUBLISH when connection 1 takes over.
It handles the packet after the exchange is over, so that the identifier is taken
when the next message uses it. -/
def displacedLoop : List Label :=
  [.connect connect311, .begin (message "a"), .decode, .takeover connect311, .resend 1] ++
    turn 1 ++ turn 1 ++
    [.handle 0 {}, .answer 0 true, .receive, .begin (message "b")] ++ turn 1 ++ turn 1

/-- The release of the second message routes the first once more. -/
theorem displacedLoop_routes_twice :
    Along (step options) Accepted {} displacedLoop ∧
      ∃ st, exec (step options) {} displacedLoop = some st ∧
        releases 1 st.log = [[.route (releasedPublish (stagedMessage (message "a"))),
          .write (pubCompPacket 1)]] ∧ ¬ ExactlyOnce st := by
  refine ⟨by decide +kernel, exec_reaches (by decide +kernel) fun st hst hreleases h => ?_⟩
  have hmessage : st.messages 1 = message "b" := of_exec hst (by decide +kernel)
  have honce := h.released 1
  rw [hreleases, hmessage] at honce
  obtain ⟨⟨pkt, hfirst, hrelays⟩, -⟩ := honce
  obtain ⟨hpkt, -⟩ := List.cons.inj hfirst
  have hpayload := hrelays.payload
  rw [← Effect.route.inj hpkt] at hpayload
  exact absurd hpayload (by decide)

/-- The PUBREC is lost with the connection, the session goes through the store,
the PUBLISH and later the PUBREL are sent twice, with a takeover in between. -/
def interruptedExchange : List Label :=
  [.connect connect311, .begin (message "a"), .decode, .handle 0 {}, .lose, .answer 0 true,
    .teardown, .connect connect311, .resend 1] ++ turn 1 ++
    [.decode, .handle 1 {}, .answer 1 true, .takeover connect311, .resendRelease 1] ++ turn 2

theorem interruptedExchange_routes_once :
    ∃ st, exec (step options) {} interruptedExchange = some st ∧
      (releases 0 st.log).length = 2 ∧ ExactlyOnce st :=
  exec_reaches (by decide +kernel) fun _ hst _ => exactlyOnce_of_current (by decide +kernel) hst

end SharkMqtt.Broker.Exchanges
