import SharkMqtt.Broker.Tracking
import SharkMqtt.Broker.WriteLoop

/-!
# Deliveries beyond the Maximum Packet Size

A delivery takes its slot of the window in `doDeliver`; whether its PUBLISH fits the
client's Maximum Packet Size is found out by `Codec.Encode` in `writeLoop`, and
`classifyWriteError` swallows the refusal. Nothing goes back to the session, so the
delivery stays in `Inflight` and the slot stays taken. No acknowledgement can free it:
the client never saw the packet. Nor does the retry loop give it up: only an MQTT 5.0 client
has a Maximum Packet Size, and `doRetry` leaves 5.0 sessions alone (`retransmitPermitted`).
So the window is what it should be only as long as nothing was refused
(`released_iff_none_refused`).

The machine is one connection of MQTT 5.0 after its CONNACK: its session, its codec and the
queue between them. Deliveries are numbered as they are put in flight; the numbers and what
became of each delivery are ghosts.
-/

namespace SharkMqtt.Broker.Oversized

open Protocol Lib Function

/-! ## The machine -/

/-- A packet on its way to the writer; a QoS 1 or 2 PUBLISH with the number of its
delivery. -/
structure Queued where
  pkt : Packet
  delivery : Option ℕ := none

structure State where
  codec : Codec
  sess : Session
  /-- `out`, and behind it what the producers that wait for room hold. -/
  out : List Queued := []
  /-- The socket is closed and the writer gone. -/
  closed : Bool := false
  /-- How many deliveries were put in flight. -/
  sends : ℕ := 0
  /-- The delivery last put in flight under an identifier. -/
  number : UInt16 → ℕ := fun _ => 0
  /-- The deliveries whose PUBLISH was written to the socket. -/
  received : List ℕ := []
  /-- Those whose PUBLISH the codec refused. -/
  refused : List ℕ := []

def init (maxPacketSize outboundMax : ℕ) (c : Str) (window : UInt16) : State where
  codec := { maxPacketSize, protocolVersion := version50, outboundMax }
  sess := { clientID := c, protocolVer := version50, outboundWindow := window }

inductive Label where
  | deliver (msg : OutboundMsg) (retainedDelivery : Bool) (now : ℕ)
  /-- a round of a flush -/
  | flush (now : ℕ)
  /-- the writer takes from the queue; `sock` says whether the socket takes the bytes -/
  | write (sock : Bool)
  | pubAck (id : UInt16)
  /-- `tracked`: the engine tracks the delivery and answers with a PUBREL -/
  | pubRec (id : UInt16) (reasonCode : UInt8) (tracked : Bool)
  | pubComp (id : UInt16)

namespace State

def deliverOn (st : State) (s : Session) (msg : OutboundMsg) (retainedDelivery : Bool) (now : ℕ) :
    State :=
  let r := s.doDeliver msg retainedDelivery now
  match r.2 with
  | none => { st with sess := r.1 }
  | some pub =>
    if msg.deliverQoS > 0 then
      { st with
        sess := r.1
        out := st.out ++ [⟨.publish pub, some st.sends⟩]
        sends := st.sends + 1
        number := update st.number pub.packetID st.sends }
    else { st with sess := r.1, out := st.out ++ [⟨.publish pub, none⟩] }

def settle (st : State) (id : UInt16) : State := { st with sess := st.sess.settle id }

def receive (st : State) (delivery : Option ℕ) : State :=
  { st with
    received := delivery.toList ++ st.received
    refused := st.refused.filter (· ∉ delivery.toList) }

def refuse (st : State) (delivery : Option ℕ) : State :=
  { st with refused := delivery.toList.filter (· ∉ st.received) ++ st.refused }

/-- One round of `writeLoop`: `writeOne` and `classifyWriteError`. -/
def write (st : State) (sock : Bool) : Option State :=
  match st.closed, st.out with
  | false, q :: rest =>
    let st' := { st with out := rest, codec := (st.codec.encode q.pkt).2 }
    match (st.codec.encode q.pkt).1 with
    | .error e =>
      if WriteLoop.tooLarge e ∧ q.pkt.goType ≠ .connAck then some (st'.refuse q.delivery)
      else some { st' with closed := true }
    | .ok _ => if sock then some (st'.receive q.delivery) else some { st' with closed := true }
  | _, _ => none

end State

def step (st : State) : Label → Option State
  | .deliver msg retainedDelivery now => some (st.deliverOn st.sess msg retainedDelivery now)
  | .flush now =>
    match st.sess.outboundQueue with
    | [] => none
    | msg :: rest =>
      if st.sess.canSendOutbound then
        some (st.deliverOn { st.sess with outboundQueue := rest } msg false now)
      else none
  | .write sock => st.write sock
  | .pubAck id | .pubComp id => some (st.settle id)
  | .pubRec id reasonCode tracked =>
    if reasonCode ≥ 0x80 then some (st.settle id)
    else
      some { st with
        sess := st.sess.markInflightPubRel id
        out := st.out ++ if tracked then [⟨Outbound.pubRelPacket id, none⟩] else [] }

/-- The client acknowledges only what it received. -/
def Answers (st : State) : Label → Prop
  | .pubAck id | .pubRec id _ _ | .pubComp id =>
    st.sess.inUse id = true → st.number id ∈ st.received
  | _ => True

instance (st : State) (l : Label) : Decidable (Answers st l) := by
  cases l <;> dsimp only [Answers] <;> infer_instance

def State.held (st : State) : List ℕ := st.sess.inflight.table.keys.map st.number

theorem mem_held {st : State} {n : ℕ} :
    n ∈ st.held ↔ ∃ id, st.sess.inUse id = true ∧ st.number id = n := by
  unfold State.held
  rw [List.mem_map]
  constructor
  · rintro ⟨id, hid, hn⟩
    exact ⟨id, (st.sess.inflight.mem_keys_iff id).mp hid, hn⟩
  · rintro ⟨id, hid, hn⟩
    exact ⟨id, (st.sess.inflight.mem_keys_iff id).mpr hid, hn⟩

/-! ## What the steps do to the identifiers in use -/

section Identifiers

variable (s : Session) (id id' : UInt16)

theorem inUse_settle : (s.settle id).inUse id' = true ↔ id' ≠ id ∧ s.inUse id' = true := by
  unfold Session.inUse
  rw [s.lookup_settle]
  split_ifs with hid
  · simp [hid]
  · simp [hid]

theorem inUse_markInflightPubRel : (s.markInflightPubRel id).inUse id' = s.inUse id' := by
  unfold Session.inUse
  rw [s.lookup_markInflightPubRel, Option.isSome_map]

theorem inUse_withSent (msg : OutboundMsg) (retainedDelivery : Bool) (now : ℕ) :
    (s.withSent msg retainedDelivery now).inUse id' = true ↔
      id' = s.nextPacketID.1 ∨ s.inUse id' = true := by
  show ((s.inflight.insert _).lookup id').isSome = true ↔ _
  rw [Keyed.lookup_insert]
  split_ifs with hid
  · exact iff_of_true rfl (Or.inl hid)
  · exact (or_iff_right hid).symm

theorem nextPacketID_unused (h : s.Exact) (hopen : s.canSendOutbound = true) :
    s.inUse s.nextPacketID.1 = false := by
  have hwindow := s.outboundWindow.toNat_lt
  have hlt := h.canSendOutbound_iff.mp hopen
  exact Session.nextPacketID_free h.seq (by omega)

end Identifiers

/-! ## Every delivery is accounted for -/

/-- Every delivery is in flight or was received. -/
structure Inv (st : State) : Prop where
  exact : st.sess.Exact
  accounted : ∀ n < st.sends, (∃ id, st.sess.inUse id = true ∧ st.number id = n) ∨ n ∈ st.received
  queued : ∀ q ∈ st.out, ∀ n ∈ q.delivery, n < st.sends
  refused : ∀ n ∈ st.refused, n < st.sends ∧ n ∉ st.received

theorem inv_init (maxPacketSize outboundMax : ℕ) (c : Str) (window : UInt16) :
    Inv (init maxPacketSize outboundMax c window) where
  exact := ⟨rfl, (by decide : (1 : UInt16) ≠ 0)⟩
  accounted := by
    intro n hn
    cases hn
  queued := by
    intro q hq
    cases hq
  refused := by
    intro n hn
    cases hn

section Steps

variable {st : State}

theorem queued_append {out : List Queued} {q : Queued} {sends : ℕ}
    (h : ∀ q ∈ out, ∀ n ∈ q.delivery, n < sends) (hq : ∀ n ∈ q.delivery, n < sends) :
    ∀ q' ∈ out ++ [q], ∀ n ∈ q'.delivery, n < sends := by
  exact forall_mem_snoc h hq

section

variable (h : Inv st)

include h

/-- A step that puts nothing in flight and takes nothing out. -/
theorem Inv.keep {sess : Session} (hexact : sess.Exact)
    (hinUse : ∀ id, sess.inUse id = st.sess.inUse id) {codec : Codec} {out : List Queued}
    {closed : Bool} {received refused : List ℕ}
    (hqueued : ∀ q ∈ out, ∀ n ∈ q.delivery, n < st.sends)
    (hreceived : ∀ n ∈ st.received, n ∈ received)
    (hrefused : ∀ n ∈ refused, n < st.sends ∧ n ∉ received) :
    Inv { st with sess, codec, out, closed, received, refused } where
  exact := hexact
  accounted := by
    intro n hn
    rcases h.accounted n hn with ⟨id, hid, hnum⟩ | hrec
    · exact Or.inl ⟨id, (hinUse id).trans hid, hnum⟩
    · exact Or.inr (hreceived n hrec)
  queued := hqueued
  refused := hrefused

theorem Inv.settle (id : UInt16)
    (hrec : st.sess.inUse id = true → st.number id ∈ st.received) : Inv (st.settle id) where
  exact := h.exact.settle id
  accounted := by
    intro n hn
    rcases h.accounted n hn with ⟨id', huse, rfl⟩ | hold
    · by_cases hid : id' = id
      · exact Or.inr (hid ▸ hrec (hid ▸ huse))
      · exact Or.inl ⟨id', (inUse_settle st.sess id id').mpr ⟨hid, huse⟩, rfl⟩
    · exact Or.inr hold
  queued := h.queued
  refused := h.refused

/-- A delivery put in flight gets a number of its own, under an identifier that was free. -/
theorem Inv.send {s : Session} (hs : s.Exact) (hinflight : s.inflight = st.sess.inflight)
    {msg : OutboundMsg} {now : ℕ} (hsends : s.sends msg now = true) (retainedDelivery : Bool) :
    Inv { st with
      sess := s.withSent msg retainedDelivery now
      out := st.out ++ [⟨.publish (s.numbered msg retainedDelivery now), some st.sends⟩]
      sends := st.sends + 1
      number := update st.number s.nextPacketID.1 st.sends } := by
  have hopen : s.canSendOutbound = true := by
    simp only [Session.sends, Bool.and_eq_true] at hsends
    exact hsends.2
  have hsame : ∀ id, s.inUse id = st.sess.inUse id := by
    intro id
    unfold Session.inUse
    rw [hinflight]
  have hexact := hs.doDeliver msg retainedDelivery now
  rw [Session.doDeliver_of_sends hsends] at hexact
  refine ⟨hexact, ?_, ?_, ?_⟩
  · intro n hn
    rcases Nat.lt_succ_iff_lt_or_eq.mp hn with hlt | rfl
    · rcases h.accounted n hlt with ⟨id, huse, hnum⟩ | hgone
      · have hne : id ≠ s.nextPacketID.1 := by
          rintro rfl
          rw [← hsame, nextPacketID_unused s hs hopen] at huse
          cases huse
        refine Or.inl ⟨id, ?_, (update_of_ne hne ..).trans hnum⟩
        exact (inUse_withSent s id msg retainedDelivery now).mpr (Or.inr ((hsame id).trans huse))
      · exact Or.inr hgone
    · refine Or.inl ⟨s.nextPacketID.1, ?_, update_self ..⟩
      exact (inUse_withSent s _ msg retainedDelivery now).mpr (Or.inl rfl)
  · apply queued_append
    · intro q hq n hn
      exact Nat.lt_succ_of_lt (h.queued q hq n hn)
    · rintro n ⟨⟩
      exact Nat.lt_succ_self _
  · intro n hn
    exact ⟨Nat.lt_succ_of_lt (h.refused n hn).1, (h.refused n hn).2⟩

theorem Inv.deliverOn {s : Session} (hs : s.Exact)
    (hinflight : s.inflight = st.sess.inflight) (msg : OutboundMsg) (retainedDelivery : Bool)
    (now : ℕ) : Inv (st.deliverOn s msg retainedDelivery now) := by
  have hinUse : ∀ s' : Session, s'.inflight = s.inflight → ∀ id, s'.inUse id = st.sess.inUse id := by
    intro s' hsame id
    unfold Session.inUse
    rw [hsame, hinflight]
  have hexact := hs.doDeliver msg retainedDelivery now
  unfold State.deliverOn
  rcases s.doDeliver_outcome msg retainedDelivery now with
    ⟨hsends, hqos, he⟩ | ⟨s', hsame, he⟩ | ⟨s', pub, hsame, hqos, he⟩
  · rw [he]
    simp only [if_pos hqos]
    exact h.send hs hinflight hsends retainedDelivery
  · rw [he] at hexact ⊢
    exact h.keep hexact (hinUse s' hsame) h.queued (fun n hn => hn) h.refused
  · rw [he] at hexact ⊢
    simp only [hqos, Nat.lt_irrefl, gt_iff_lt, if_false]
    refine h.keep hexact (hinUse s' hsame) (queued_append h.queued ?_) (fun n hn => hn) h.refused
    rintro n ⟨⟩

theorem Inv.write {st' : State} {sock : Bool} (hs : st.write sock = some st') : Inv st' := by
  unfold State.write at hs
  split at hs
  case h_2 => cases hs
  case h_1 q rest hopen hout =>
    have hrest : ∀ q' ∈ rest, ∀ n ∈ q'.delivery, n < st.sends := by
      intro q' hq'
      apply h.queued
      rw [hout]
      exact List.mem_cons_of_mem _ hq'
    have hissued : ∀ n ∈ q.delivery.toList, n < st.sends := by
      intro n hn
      apply h.queued q
      · rw [hout]
        exact List.mem_cons_self
      · exact Option.mem_toList.mp hn
    have hclosed : ∀ codec, Inv { st with out := rest, codec, closed := true } := by
      intro codec
      exact h.keep h.exact (fun _ => rfl) hrest (fun n hn => hn) h.refused
    split at hs
    · split_ifs at hs with hlarge
      · cases hs
        refine h.keep h.exact (fun _ => rfl) hrest (fun n hn => hn) ?_
        intro n hn
        rcases List.mem_append.mp hn with hnew | hold
        · rw [List.mem_filter, decide_eq_true_iff] at hnew
          exact ⟨hissued n hnew.1, hnew.2⟩
        · exact h.refused n hold
      · cases hs
        exact hclosed _
    · split_ifs at hs
      · cases hs
        refine h.keep h.exact (fun _ => rfl) hrest (fun n hn => List.mem_append_right _ hn) ?_
        intro n hn
        rw [List.mem_filter, decide_eq_true_iff] at hn
        exact ⟨(h.refused n hn.1).1, List.not_mem_append hn.2 (h.refused n hn.1).2⟩
      · cases hs
        exact hclosed _

theorem inv_step {st' : State} {l : Label} (hok : Answers st l)
    (hs : step st l = some st') : Inv st' := by
  revert hs hok
  fun_cases step st l <;> intro hok hs <;> try cases hs
  next msg retainedDelivery now =>
    exact h.deliverOn h.exact rfl msg retainedDelivery now
  next now msg rest _ _ =>
    have hpop : ({ st.sess with outboundQueue := rest } : Session).Exact :=
      ⟨h.exact.unacked, h.exact.seq⟩
    exact h.deliverOn hpop rfl msg false now
  · exact h.write hs
  iterate 3 exact h.settle _ hok
  next id reasonCode tracked hrejects =>
    have hmark := h.exact.markInflightPubRel id
    have hinUse := inUse_markInflightPubRel st.sess id
    split_ifs
    · refine h.keep hmark hinUse (queued_append h.queued ?_) (fun n hn => hn) h.refused
      rintro n ⟨⟩
    · rw [List.append_nil]
      exact h.keep hmark hinUse h.queued (fun n hn => hn) h.refused

theorem Inv.mem_held {n : ℕ} (hn : n ∈ st.refused) : n ∈ st.held :=
  Oversized.mem_held.mpr
    ((h.accounted n (h.refused n hn).1).resolve_right (h.refused n hn).2)

theorem Inv.length_held : st.held.length = st.sess.outboundUnacked := by
  unfold State.held
  rw [List.length_map, h.exact.unacked]
  rfl

end

end Steps

/-- The deliveries the codec refused are out of `Inflight`, and only others count against
the window, exactly when it refused none. -/
theorem released_iff_none_refused (maxPacketSize outboundMax : ℕ) (c : Str) (window : UInt16)
    (ls : List Label) (st : State)
    (hok : Along step Answers (init maxPacketSize outboundMax c window) ls)
    (hrun : exec step (init maxPacketSize outboundMax c window) ls = some st) :
    ((∀ n ∈ st.refused, n ∉ st.held) ∧
        st.sess.outboundUnacked = (st.held.filter (· ∉ st.refused)).length) ↔
      st.refused = [] := by
  have h : Inv st := exec_invariant Inv (fun _ _ _ h hok hs => inv_step h hok hs)
    (inv_init maxPacketSize outboundMax c window) hok hrun
  constructor
  · rintro ⟨hfree, -⟩
    exact List.eq_nil_iff_forall_not_mem.mpr fun n hn => hfree n hn (h.mem_held hn)
  · intro hnone
    simp [hnone, h.length_held]

/-- QoS 1, with more bytes than a Maximum Packet Size of 100 leaves room for. -/
def longMessage : OutboundMsg :=
  { qos1Message with pkt := { qos1Message.pkt with payload := List.replicate 100 0x61 } }

/-- A long message takes the only slot; a short one has to wait. The codec has refused the long
one, so the client has nothing to acknowledge. -/
theorem oversized_delivery_keeps_slot :
    (exec step (init 1024 100 (ascii "c") 1)
        [.deliver longMessage false 0, .write true, .deliver qos1Message false 0]).map (fun st =>
      ((st.received, st.refused, st.held), st.sess.outboundUnacked, st.sess.canSendOutbound,
        st.out.length, st.sess.outboundQueue.length)) =
      some (([], [0], [0]), 1, false, 0, 1) := by
  decide +kernel

/-- Two messages that fit, one after the other. -/
def shortRun : List Label :=
  [.deliver qos1Message false 0, .write true, .deliver qos1Message false 0, .pubAck 1, .flush 0,
    .write true]

theorem released_iff_none_refused_shortRun :
    ∃ st, exec step (init 1024 100 (ascii "c") 1) shortRun = some st ∧ st.received = [1, 0] ∧
      st.sess.outboundUnacked = (st.held.filter (· ∉ st.refused)).length := by
  refine exec_reaches (by decide +kernel) fun st hst _ => ?_
  have hiff := released_iff_none_refused 1024 100 (ascii "c") 1 shortRun st (by decide +kernel) hst
  exact (hiff.mpr (of_exec hst (by decide +kernel))).2

end SharkMqtt.Broker.Oversized
