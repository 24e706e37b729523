import SharkMqtt.Broker.Tracking
import SharkMqtt.Lib.Stamps

/-!
# The order of retransmissions

When a session is resumed, `resendSessionInflight` sends its unacknowledged deliveries
again: PUBREL for those whose PUBREC has come, PUBLISH for the others. The PUBLISH packets
should go out in the order of the first sends, and the PUBREL packets in that of the
PUBRECs.

`InflightSnapshot` ranges over a map, so the order is any, and neither the entries nor the
records kept of them say when they were sent: `SentAt` is not read, and it is not stored.
The machine keeps the times as ghosts: a clock that ticks with every send and every PUBREC,
and for each identifier the stamp of its delivery. A resumption then has an order right for
every run through the map exactly when there is no order to get wrong
(`resent_in_order_iff`).
-/

namespace SharkMqtt.Broker.ResendOrder

open Protocol Lib Function

/-! ## The machine -/

def releases (m : InflightMsg) : Bool := m.qos == 2 && m.pendingPubRel

/-- A packet sent again, with the time of what it repeats: of the PUBREC for a PUBREL, of
the first send for a PUBLISH. -/
structure Resent where
  pkt : Packet
  released : Bool
  stamp : ℕ

structure State where
  client : Client := {}
  clock : ℕ := 0
  sentAt : UInt16 → ℕ := fun _ => 0
  pubRecAt : UInt16 → ℕ := fun _ => 0
  /-- What the last CONNECT had sent again. -/
  resent : List Resent := []

inductive Label where
  | deliver (msg : OutboundMsg) (retainedDelivery : Bool) (now : ℕ)
  /-- a round of a flush -/
  | flush (now : ℕ)
  /-- PUBACK, PUBCOMP, a refusing PUBREC or a give-up -/
  | settle (id : UInt16)
  /-- a PUBREC that accepts -/
  | pubRec (id : UInt16)
  /-- `order` is that of the run through the map -/
  | connect (pkt : ConnectPacket) (order : List UInt16) (now : ℕ)
  | disconnect (now : ℕ)

namespace State

/-- `doDeliver`; a delivery of QoS 1 or 2 that is sent gets its stamp. -/
def deliverOn (st : State) (s : Session) (msg : OutboundMsg) (retainedDelivery : Bool) (now : ℕ) :
    State :=
  let r := s.doDeliver msg retainedDelivery now
  let st' := { st with client := { st.client with session := some r.1 } }
  match r.2 with
  | none => st'
  | some pub =>
    if msg.deliverQoS > 0 then
      { st' with
        clock := st.clock + 1
        sentAt := update st.sentAt pub.packetID st.clock }
    else st'

/-- `MarkInflightPubRel`; the first PUBREC for a delivery counts. -/
def pubRec (st : State) (s : Session) (id : UInt16) : State :=
  let st' := { st with client := { st.client with session := some (s.markInflightPubRel id) } }
  if (s.inflight.lookup id).any fun m => m.qos == 2 && !m.pendingPubRel then
    { st' with
      clock := st.clock + 1
      pubRecAt := update st.pubRecAt id st.clock }
  else st'

def resend (st : State) (now : ℕ) (m : InflightMsg) : Resent :=
  if releases m then ⟨Outbound.pubRelPacket m.packetID, true, st.pubRecAt m.packetID⟩
  else ⟨.publish (Outbound.buildRetransmitPublish m now), false, st.sentAt m.packetID⟩

def resendSessionInflight (st : State) (s : Session) (order : List UInt16) (now : ℕ) :
    List Resent :=
  (order.filterMap s.inflight.lookup).map (st.resend now)

end State

def step (opts : Options) (st : State) : Label → Option State
  | .deliver msg retainedDelivery now =>
    st.client.session.map fun s => st.deliverOn s msg retainedDelivery now
  | .flush now =>
    match st.client.session with
    | none => none
    | some s =>
      match s.outboundQueue with
      | [] => none
      | msg :: rest =>
        if s.canSendOutbound then
          some (st.deliverOn { s with outboundQueue := rest } msg false now)
        else none
  | .settle id => some { st with client := st.client.onSession (·.settle id) }
  | .pubRec id => st.client.session.map fun s => st.pubRec s id
  | .connect pkt order now =>
    match resumed st.client pkt with
    | none => some { st with client := connect opts st.client pkt, resent := [] }
    | some s =>
      if order.Perm s.inflight.table.keys then
        some
          { st with
            client := connect opts st.client pkt
            resent := st.resendSessionInflight s order now }
      else none
  | .disconnect now => some { st with client := disconnect st.client now }

/-- The packets are those of `resendSessionInflight`, in the order of the table. -/
theorem resent_pkts (st : State) (c : Str) (s : Session) (now : ℕ) :
    (st.resendSessionInflight s s.inflight.table.keys now).map Resent.pkt =
      (Outbound.resendSessionInflight c s now).map Prod.snd := by
  unfold State.resendSessionInflight Outbound.resendSessionInflight
  rw [s.inflight.filterMap_lookup_keys, List.map_map, List.map_map, List.map_map]
  apply List.map_congr_left
  intro e _
  simp only [comp_apply, State.resend]
  by_cases hrel : releases e.2 = true
  · have hcond : (e.2.qos == 2 && e.2.pendingPubRel) = true := hrel
    rw [if_pos hrel, if_pos hcond]
  · have hcond : ¬(e.2.qos == 2 && e.2.pendingPubRel) = true := hrel
    rw [if_neg hrel, if_neg hcond]

/-- The PUBREL packets are in the order of their stamps, and so are the PUBLISH packets. -/
def InOrder (l : List Resent) : Prop :=
  (l.filter (·.released)).Pairwise (·.stamp ≤ ·.stamp) ∧
    (l.filter (!·.released)).Pairwise (·.stamp ≤ ·.stamp)

/-! ## Stamps of what is in flight -/

/-- The delivery under an identifier: of the session, or of the record while the client is
away. -/
def State.entry (st : State) (id : UInt16) : Option InflightMsg :=
  match st.client.session with
  | some s => s.inflight.lookup id
  | none => (st.client.stored.bind (·.inflight.lookup id)).map InflightMessage.restore

structure Inv (st : State) : Prop where
  sent : Stamped (fun id => (st.entry id).isSome = true) st.sentAt st.clock
  received : Stamped (fun id => (st.entry id).any (·.pendingPubRel) = true) st.pubRecAt st.clock

theorem inv_init : Inv {} where
  sent := ⟨fun _ h => Bool.noConfusion h, fun _ _ h => Bool.noConfusion h⟩
  received := ⟨fun _ h => Bool.noConfusion h, fun _ _ h => Bool.noConfusion h⟩

/-- A resumed session has the deliveries that were there. -/
theorem lookup_resumed {st : State} {pkt : ConnectPacket} {s : Session}
    (h : resumed st.client pkt = some s) (id : UInt16) : s.inflight.lookup id = st.entry id := by
  unfold resumed at h
  split_ifs at h
  unfold State.entry
  cases hsess : st.client.session with
  | some s' =>
    rw [hsess] at h
    cases h
    rfl
  | none =>
    rw [hsess] at h
    obtain ⟨data, hdata, rfl⟩ := Option.map_eq_some_iff.mp h
    rw [hdata]
    exact Keyed.lookup_map data.inflight InflightMsg.packetID _ (fun _ => rfl) id

section Steps

variable {st st' : State} {s : Session}

theorem Inv.shrink (h : Inv st)
    (hentry : ∀ id m', st'.entry id = some m' →
      ∃ m, st.entry id = some m ∧ m'.pendingPubRel = m.pendingPubRel)
    (hclock : st'.clock = st.clock) (hsent : st'.sentAt = st.sentAt)
    (hreceived : st'.pubRecAt = st.pubRecAt) : Inv st' := by
  constructor
  · rw [hclock, hsent]
    apply h.sent.mono _ (Nat.le_refl _)
    intro id hid
    obtain ⟨m', hm'⟩ := Option.isSome_iff_exists.mp hid
    obtain ⟨m, hm, -⟩ := hentry id m' hm'
    rw [hm]
    rfl
  · rw [hclock, hreceived]
    apply h.received.mono _ (Nat.le_refl _)
    intro id hid
    obtain ⟨m', hm', hpending⟩ := (Option.any_eq_true _ _).mp hid
    obtain ⟨m, hm, hsame⟩ := hentry id m' hm'
    rw [hm]
    exact hsame.symm.trans hpending

theorem Inv.deliverOn (h : Inv st) (hs : ∀ id, st.entry id = s.inflight.lookup id)
    (msg : OutboundMsg) (retainedDelivery : Bool) (now : ℕ) :
    Inv (st.deliverOn s msg retainedDelivery now) := by
  have hkeep : ∀ s' : Session, s'.inflight = s.inflight →
      Inv { st with client := { st.client with session := some s' } } := by
    intro s' hsame
    refine h.shrink ?_ rfl rfl rfl
    intro id m hm
    simp only [State.entry, hsame] at hm
    exact ⟨m, (hs id).trans hm, rfl⟩
  unfold State.deliverOn
  rcases s.doDeliver_outcome msg retainedDelivery now with
    ⟨-, hqos, he⟩ | ⟨s', hsame, he⟩ | ⟨s', pub, hsame, hqos, he⟩
  · rw [he]
    simp only [if_pos hqos]
    have hlookup : ∀ id, (s.withSent msg retainedDelivery now).inflight.lookup id =
        if id = s.nextPacketID.1 then some (Session.inflightOf msg
          (s.outboundPublish msg retainedDelivery now) s.nextPacketID.1)
        else st.entry id := by
      intro id
      rw [hs]
      exact Keyed.lookup_insert ..
    constructor
    · apply h.sent.stamp_now
      intro id hid
      by_cases hnew : id = s.nextPacketID.1
      · exact Or.inl hnew
      · refine Or.inr ?_
        simp only [State.entry] at hid
        rw [hlookup, if_neg hnew] at hid
        exact hid
    · apply h.received.mono _ (Nat.le_succ _)
      intro id hid
      simp only [State.entry] at hid
      rw [hlookup] at hid
      split_ifs at hid with hnew
      · -- the new delivery has had no PUBREC
        cases hid
      · exact hid
  · rw [he]
    exact hkeep s' hsame
  · rw [he]
    simp only [hqos, Nat.lt_irrefl, gt_iff_lt, if_false]
    exact hkeep s' hsame

theorem Inv.pubRec (h : Inv st) (hs : ∀ id, st.entry id = s.inflight.lookup id) (id : UInt16) :
    Inv (st.pubRec s id) := by
  have hlookup : ∀ id', (s.markInflightPubRel id).inflight.lookup id' =
      (st.entry id').map fun m =>
        if id' = id ∧ m.qos = 2 then { m with pendingPubRel := true } else m := by
    intro id'
    rw [hs]
    exact s.lookup_markInflightPubRel id id'
  unfold State.pubRec
  split_ifs with hfirst
  · constructor
    · apply h.sent.mono _ (Nat.le_succ _)
      intro id' hid'
      simp only [State.entry] at hid'
      rw [hlookup, Option.isSome_map] at hid'
      exact hid'
    · apply h.received.stamp_now
      intro id' hid'
      by_cases heq : id' = id
      · exact Or.inl heq
      · simp only [State.entry] at hid'
        rw [hlookup] at hid'
        simpa [heq] using hid'
  · -- a QoS 1 delivery, a repeated PUBREC or none at all: no entry changes
    refine h.shrink ?_ rfl rfl rfl
    intro id' m' hm'
    simp only [State.entry] at hm'
    rw [hlookup] at hm'
    obtain ⟨m, hm, rfl⟩ := Option.map_eq_some_iff.mp hm'
    refine ⟨m, hm, ?_⟩
    split_ifs with hmarked
    · obtain ⟨rfl, hqos⟩ := hmarked
      rw [← hs, hm] at hfirst
      cases hpending : m.pendingPubRel with
      | true => rfl
      | false => exact absurd (by simp [hqos, hpending]) hfirst
    · rfl

theorem entry_of_session (hs : st.client.session = some s) (id : UInt16) :
    st.entry id = s.inflight.lookup id := by
  unfold State.entry
  rw [hs]

theorem Inv.connect (h : Inv st) (opts : Options) (pkt : ConnectPacket) (resent : List Resent) :
    Inv { st with client := connect opts st.client pkt, resent := resent } := by
  refine h.shrink ?_ rfl rfl rfl
  intro id m hm
  have hm : ((resumed st.client pkt).getD { clientID := pkt.clientID }).inflight.lookup id =
    some m := hm
  cases hres : resumed st.client pkt with
  | none =>
    rw [hres] at hm
    cases hm
  | some s =>
    rw [hres] at hm
    exact ⟨m, (lookup_resumed hres id).symm.trans hm, rfl⟩

theorem Inv.disconnect (h : Inv st) (now : ℕ) :
    Inv { st with client := Broker.disconnect st.client now } := by
  refine h.shrink ?_ rfl rfl rfl
  intro id m hm
  unfold Broker.disconnect State.entry at hm
  cases hsess : st.client.session with
  | none =>
    refine ⟨m, ?_, rfl⟩
    unfold State.entry
    simpa only [hsess] using hm
  | some s =>
    simp only [hsess] at hm
    split_ifs at hm
    · obtain ⟨stored, hstored, rfl⟩ := Option.map_eq_some_iff.mp hm
      have hlookup : (s.inflight.lookup id).map InflightMsg.store = some stored :=
        (Keyed.lookup_map s.inflight InflightMessage.packetID _ (fun _ => rfl) id).symm.trans
          hstored
      obtain ⟨msg, hmsg, rfl⟩ := Option.map_eq_some_iff.mp hlookup
      exact ⟨msg, (entry_of_session hsess id).trans hmsg, rfl⟩
    · cases hm

theorem inv_step {opts : Options} {l : Label} (h : Inv st) (hs : step opts st l = some st') :
    Inv st' := by
  revert hs
  fun_cases step opts st l <;> intro hs <;> try cases hs
  · obtain ⟨s, hsess, rfl⟩ := Option.map_eq_some_iff.mp hs
    exact h.deliverOn (entry_of_session hsess) _ _ _
  next now s hsess msg rest hqueue hcan =>
    have hentry : ∀ id, st.entry id =
        ({ s with outboundQueue := rest } : Session).inflight.lookup id := by
      intro id
      rw [entry_of_session hsess]
    exact h.deliverOn hentry msg false now
  next id =>
    refine h.shrink ?_ rfl rfl rfl
    intro id' m hm
    refine ⟨m, ?_, rfl⟩
    unfold State.entry Client.onSession at hm
    unfold State.entry
    cases hsess : st.client.session with
    | none => simpa only [hsess, Option.map_none] using hm
    | some s =>
      simp only [hsess, Option.map_some, s.lookup_settle] at hm
      split_ifs at hm
      exact hm
  · obtain ⟨s, hsess, rfl⟩ := Option.map_eq_some_iff.mp hs
    exact h.pubRec (entry_of_session hsess) _
  · exact h.connect opts _ []
  · exact h.connect opts _ _
  · exact h.disconnect _

end Steps

/-! ## The order of a resumption -/

/-- `InflightSnapshot`, in one of its orders. -/
def snapshot (s : Session) : List InflightMsg := s.inflight.table.entries.map Sigma.snd

section Order

variable {st : State} {s : Session}

theorem released_resend (now : ℕ) (m : InflightMsg) : (st.resend now m).released = releases m := by
  unfold State.resend
  split_ifs with hrel
  · exact hrel.symm
  · exact (Bool.eq_false_iff.mpr hrel).symm

theorem filter_resend (now : ℕ) (l : List InflightMsg) :
    (l.map (st.resend now)).filter (·.released) = (l.filter releases).map (st.resend now) ∧
      (l.map (st.resend now)).filter (!·.released) =
        (l.filter (!releases ·)).map (st.resend now) := by
  simp only [List.filter_map, comp_def, released_resend, and_self]

theorem nodup_snapshot (s : Session) : ((snapshot s).map InflightMsg.packetID).Nodup := by
  have hkeys : (snapshot s).map InflightMsg.packetID = s.inflight.table.keys := by
    unfold snapshot AList.keys List.keys
    rw [List.map_map]
    apply List.map_congr_left
    intro e he
    exact s.inflight.key_of_mem_entries he
  rw [hkeys]
  exact s.inflight.table.keys_nodup

theorem lookup_of_mem_snapshot {m : InflightMsg} (hm : m ∈ snapshot s) :
    s.inflight.lookup m.packetID = some m := by
  obtain ⟨e, he, rfl⟩ := List.mem_map.mp hm
  rw [s.inflight.key_of_mem_entries he]
  exact AList.mem_lookup_iff.mpr he

/-- Part of a snapshot whose identifiers have distinct stamps. -/
theorem nodup_stamps {dom : UInt16 → Prop} {stamp : UInt16 → ℕ} {clock : ℕ}
    (h : Stamped dom stamp clock) {p : InflightMsg → Bool}
    (hdom : ∀ m ∈ snapshot s, p m = true → dom m.packetID) :
    (((snapshot s).filter p).map fun m => stamp m.packetID).Nodup := by
  refine (List.Nodup.filter p (nodup_snapshot s).of_map).map_on ?_
  intro m hm m' hm' heq
  obtain ⟨hm, hp⟩ := List.mem_filter.mp hm
  obtain ⟨hm', hp'⟩ := List.mem_filter.mp hm'
  have hid := h.inj _ _ (hdom m hm hp) (hdom m' hm' hp') heq
  have hsame := lookup_of_mem_snapshot hm'
  rw [← hid, lookup_of_mem_snapshot hm] at hsame
  exact Option.some.inj hsame

theorem forall_order_pairwise_iff {p : InflightMsg → Bool} {stamp : InflightMsg → ℕ}
    (hnodup : (((snapshot s).filter p).map stamp).Nodup) :
    (∀ order : List UInt16, order.Perm s.inflight.table.keys →
        ((order.filterMap s.inflight.lookup).filter p).Pairwise (stamp · ≤ stamp ·)) ↔
      ((snapshot s).filter p).length ≤ 1 := by
  have hkeys : s.inflight.table.keys.filterMap s.inflight.lookup = snapshot s :=
    s.inflight.filterMap_lookup_keys
  constructor
  · intro hall
    have hforward := hall _ (List.Perm.refl _)
    have hbackward := hall _ (List.reverse_perm s.inflight.table.keys)
    rw [hkeys] at hforward
    rw [List.filterMap_reverse, hkeys, List.filter_reverse] at hbackward
    exact length_le_one_of_pairwise_reverse hnodup hforward hbackward
  · intro hone order hperm
    have hlength : ((order.filterMap s.inflight.lookup).filter p).length ≤ 1 := by
      have hsame := ((hperm.filterMap s.inflight.lookup).filter p).length_eq
      rw [hkeys] at hsame
      omega
    rcases hl : (order.filterMap s.inflight.lookup).filter p with _ | ⟨a, _ | ⟨b, rest⟩⟩
    · exact List.Pairwise.nil
    · exact List.pairwise_singleton _ a
    · rw [hl, List.length_cons, List.length_cons] at hlength
      omega

theorem inOrder_resend_iff (order : List UInt16) (now : ℕ) :
    InOrder (st.resendSessionInflight s order now) ↔
      ((order.filterMap s.inflight.lookup).filter releases).Pairwise
          (fun m m' => (st.resend now m).stamp ≤ (st.resend now m').stamp) ∧
        ((order.filterMap s.inflight.lookup).filter (!releases ·)).Pairwise
          (fun m m' => (st.resend now m).stamp ≤ (st.resend now m').stamp) := by
  unfold InOrder State.resendSessionInflight
  rw [(filter_resend now _).1, (filter_resend now _).2, List.pairwise_map, List.pairwise_map]

theorem Inv.nodup_stamps (h : Inv st) {pkt : ConnectPacket}
    (hres : resumed st.client pkt = some s) (now : ℕ) :
    (((snapshot s).filter releases).map fun m => (st.resend now m).stamp).Nodup ∧
      (((snapshot s).filter (!releases ·)).map fun m => (st.resend now m).stamp).Nodup := by
  have hentry : ∀ m ∈ snapshot s, st.entry m.packetID = some m := by
    intro m hm
    rw [← lookup_resumed hres]
    exact lookup_of_mem_snapshot hm
  constructor
  · have hstamp : ((snapshot s).filter releases).map (fun m => (st.resend now m).stamp) =
        ((snapshot s).filter releases).map fun m => st.pubRecAt m.packetID := by
      apply List.map_congr_left
      intro m hm
      unfold State.resend
      rw [if_pos (List.mem_filter.mp hm).2]
    rw [hstamp]
    refine ResendOrder.nodup_stamps h.received ?_
    intro m hm hrel
    rw [hentry m hm]
    exact (Bool.and_eq_true_iff.mp hrel).2
  · have hstamp : ((snapshot s).filter (!releases ·)).map (fun m => (st.resend now m).stamp) =
        ((snapshot s).filter (!releases ·)).map fun m => st.sentAt m.packetID := by
      apply List.map_congr_left
      intro m hm
      have hrel : releases m = false := by simpa using (List.mem_filter.mp hm).2
      unfold State.resend
      rw [if_neg (by rw [hrel]; exact Bool.false_ne_true)]
    rw [hstamp]
    refine ResendOrder.nodup_stamps h.sent ?_
    intro m hm _
    rw [hentry m hm]
    rfl

end Order

/-- A CONNECT that resumes a session, in memory or from its record, has the packets of the
session sent again in their order whatever the order of the run through the map, exactly
when at most one delivery waits for its acknowledgement and at most one for its PUBCOMP. -/
theorem resent_in_order_iff (opts : Options) (ls : List Label) (st : State)
    (hrun : exec (step opts) {} ls = some st) (pkt : ConnectPacket) (s : Session)
    (hres : resumed st.client pkt = some s) (now : ℕ) :
    (∀ order st', step opts st (.connect pkt order now) = some st' → InOrder st'.resent) ↔
      ((snapshot s).filter releases).length ≤ 1 ∧
        ((snapshot s).filter (!releases ·)).length ≤ 1 := by
  have h : Inv st := exec_preserves Inv (fun _ _ _ h hs => inv_step h hs) inv_init hrun
  obtain ⟨hreleased, hpending⟩ := h.nodup_stamps hres now
  have hsteps : (∀ order st', step opts st (.connect pkt order now) = some st' →
        InOrder st'.resent) ↔
      ∀ order : List UInt16, order.Perm s.inflight.table.keys →
        InOrder (st.resendSessionInflight s order now) := by
    constructor
    · intro hall order hperm
      have hstep : step opts st (.connect pkt order now) = some
          { st with
            client := connect opts st.client pkt
            resent := st.resendSessionInflight s order now } := by
        simp only [step, hres, if_pos hperm]
      exact hall order _ hstep
    · intro hall order st' hs
      simp only [step, hres, Option.ite_none_right_eq_some] at hs
      obtain ⟨hperm, hst'⟩ := hs
      cases hst'
      exact hall order hperm
  rw [hsteps, ← forall_order_pairwise_iff hreleased, ← forall_order_pairwise_iff hpending]
  constructor
  · intro hall
    constructor
    · intro order hperm
      exact ((inOrder_resend_iff order now).mp (hall order hperm)).1
    · intro order hperm
      exact ((inOrder_resend_iff order now).mp (hall order hperm)).2
  · rintro ⟨hrel, hpend⟩ order hperm
    exact (inOrder_resend_iff order now).mpr ⟨hrel order hperm, hpend order hperm⟩

/-! ## Runs -/

def qos2Message : OutboundMsg := { qos1Message with deliverQoS := 2 }

/-- One delivery waits for its PUBACK and one for its PUBCOMP. -/
def oneOfEach : List Label :=
  [.connect connectC [] 0, .deliver qos1Message false 0, .deliver qos2Message false 0, .pubRec 2]

/-- How many deliveries a resumption finds in either half of their handshake. -/
def halves (st : State) : Option (ℕ × ℕ) :=
  (resumed st.client connectC).map fun s =>
    (((snapshot s).filter releases).length, ((snapshot s).filter (!releases ·)).length)

theorem resent_in_order_iff_oneOfEach :
    ∃ st, exec (step brokerDefaults) {} oneOfEach = some st ∧ halves st = some (1, 1) ∧
      ∀ order st', step brokerDefaults st (.connect connectC order 0) = some st' →
        InOrder st'.resent := by
  refine exec_reaches (by decide +kernel) fun st hst hhalves => ?_
  obtain ⟨s, hs, hlengths⟩ := Option.map_eq_some_iff.mp hhalves
  obtain ⟨hreleased, hpending⟩ := Prod.mk.inj hlengths
  exact (resent_in_order_iff brokerDefaults oneOfEach st hst connectC s hs 0).mpr
    ⟨hreleased.le, hpending.le⟩

/-- Two deliveries are sent, and the connection is taken over. -/
def takenOver : List Label :=
  [.connect connectC [] 0, .deliver qos1Message false 0, .deliver qos1Message false 0,
    .connect connectC [2, 1] 0]

/-- Two deliveries are sent, and the client goes away and comes back. -/
def restored : List Label :=
  [.connect connectC [] 0, .deliver qos1Message false 0, .deliver qos1Message false 0,
    .disconnect 0, .connect connectC [2, 1] 0]

/-- Two deliveries have had their PUBREC when the client goes away and comes back. -/
def restoredReleased : List Label :=
  [.connect connectC [] 0, .deliver qos2Message false 0, .deliver qos2Message false 0,
    .pubRec 1, .pubRec 2, .disconnect 0, .connect connectC [2, 1] 0]

/-- The later PUBLISH is sent again before the earlier one, by a session in memory and by a
restored one, and so is the later PUBREL. -/
theorem resent_out_of_order :
    (∀ ls ∈ [takenOver, restored],
      (exec (step brokerDefaults) {} ls).map (·.resent.map fun r => (r.released, r.stamp)) =
        some [(false, 1), (false, 0)]) ∧
      (exec (step brokerDefaults) {} restoredReleased).map
          (·.resent.map fun r => (r.released, r.stamp)) = some [(true, 3), (true, 2)] := by
  decide +kernel

end SharkMqtt.Broker.ResendOrder
