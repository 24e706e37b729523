import Mathlib.Data.List.Range
import SharkMqtt.Broker.Delivery

/-!
# The outbound window

The number of unacknowledged deliveries is kept twice: as the entries of
`Inflight`, and as the counter `outboundUnacked` the window is checked against.
`WindowExact` says that they agree. Every operation keeps that but one: `Restore`
rebuilds the map and leaves the counter at zero, so a restored session with
deliveries in flight sends beyond its window. Runs that restore no such record
keep the two equal (`windowExact_of_emptyRestores`).

The invariant needs one fact about packet identifiers: with an open window
`NextPacketID` finds one that is not in use, so that a delivery adds an entry and
overwrites none.
-/

namespace SharkMqtt.Broker

open Protocol Lib Function

/-! ## Runs -/

inductive Op where
  | deliver (msg : OutboundMsg) (retainedDelivery : Bool) (now : ℕ)
  | pubAck (id : UInt16) (now : ℕ)
  | pubRec (id : UInt16) (reasonCode : UInt8) (now : ℕ)
  | pubComp (id : UInt16) (now : ℕ)
  | giveUp (id : UInt16)
  | connect (pkt : ConnectPacket)
  | disconnect (now : ℕ)

def Client.onSession (c : Client) (f : Session → Session) : Client :=
  { c with session := c.session.map f }

def Client.step (opts : Options) (c : Client) : Op → Option Client
  | .deliver msg retainedDelivery now =>
    some (c.onSession fun s => (s.doDeliver msg retainedDelivery now).1)
  | .pubAck id now => some (c.onSession (·.handlePubAck now id))
  | .pubRec id reasonCode now => some (c.onSession (·.handlePubRec now id reasonCode))
  | .pubComp id now => some (c.onSession (·.handlePubComp now id))
  | .giveUp id => some (c.onSession fun s => if retransmits s.protocolVer then s.giveUp id else s)
  | .connect pkt => some (connect opts c pkt)
  | .disconnect now => some (disconnect c now)

/-- The counter agrees with the map, and with it the window. -/
def WindowExact (c : Client) : Prop :=
  ∀ s, c.session = some s →
    s.outboundUnacked = s.inflight.size ∧
      (s.canSendOutbound = true ↔ s.inflight.size < s.outboundWindow.toNat)

/-- The condition on a step: no connect restores a record with deliveries in
flight. -/
def EmptyRestore (c : Client) : Op → Prop
  | .connect pkt =>
    pkt.flags.cleanSession = false → c.session = none →
      ∀ data, c.stored = some data → data.inflight.size = 0
  | _ => True

/-! ## A free identifier is found -/

theorem nextSeq_ne_zero (seq : UInt16) : nextSeq seq ≠ 0 := by
  unfold nextSeq
  split_ifs with h
  · decide
  · exact h

theorem toNat_nextSeq (seq : UInt16) : (nextSeq seq).toNat = seq.toNat % 65535 + 1 := by
  have hlt := seq.toNat_lt
  have hsucc : (seq + 1).toNat = (seq.toNat + 1) % 65536 := UInt16.toNat_add seq 1
  unfold nextSeq
  split_ifs with hz
  · rw [hz] at hsucc
    have h0 : (0 : UInt16).toNat = 0 := rfl
    have h1 : (1 : UInt16).toNat = 1 := rfl
    omega
  · have hne : (seq.toNat + 1) % 65536 ≠ 0 := by
      intro h0
      exact hz (UInt16.toNat_inj.mp h0)
    omega

theorem toNat_pos_of_ne_zero {id : UInt16} (h : id ≠ 0) : 0 < id.toNat := by
  rw [Nat.pos_iff_ne_zero]
  intro h0
  exact h (UInt16.toNat_inj.mp h0)

/-- The sequence walks the non-zero identifiers in a circle. -/
theorem toNat_iterate_nextSeq {seq : UInt16} (h : seq ≠ 0) (k : ℕ) :
    (nextSeq^[k] seq).toNat = (seq.toNat - 1 + k) % 65535 + 1 ∧ nextSeq^[k] seq ≠ 0 := by
  have hlt := seq.toNat_lt
  have hpos := toNat_pos_of_ne_zero h
  induction k with
  | zero =>
    refine ⟨?_, h⟩
    simp only [iterate_zero, id_eq]
    omega
  | succ k ih =>
    rw [iterate_succ_apply']
    refine ⟨?_, nextSeq_ne_zero _⟩
    rw [toNat_nextSeq]
    omega

theorem iterate_nextSeq_inj {seq : UInt16} (h : seq ≠ 0) {j k : ℕ} (hj : j < 65535)
    (hk : k < 65535) (heq : nextSeq^[j] seq = nextSeq^[k] seq) : j = k := by
  have hnat := congrArg UInt16.toNat heq
  rw [(toNat_iterate_nextSeq h j).1, (toNat_iterate_nextSeq h k).1] at hnat
  omega

theorem exists_iterate_nextSeq {seq id : UInt16} (h : seq ≠ 0) (hid : id ≠ 0) :
    ∃ k < 65535, nextSeq^[k] seq = id := by
  have hseq := toNat_pos_of_ne_zero h
  have hpos := toNat_pos_of_ne_zero hid
  have hlt := seq.toNat_lt
  have hlt' := id.toNat_lt
  refine ⟨(id.toNat + 65535 - seq.toNat) % 65535, by omega, UInt16.toNat_inj.mp ?_⟩
  rw [(toNat_iterate_nextSeq h _).1]
  omega

theorem scanPacketID_free {inUse : UInt16 → Bool} :
    ∀ (attempts : ℕ) (seq : UInt16), (∃ k < attempts, inUse (nextSeq^[k] seq) = false) →
      inUse (scanPacketID inUse attempts seq).1 = false := by
  intro attempts
  induction attempts with
  | zero => omega
  | succ n ih =>
    rintro seq ⟨k, hk, hfree⟩
    unfold scanPacketID
    split_ifs with huse
    · refine ih (nextSeq seq) ?_
      cases k with
      | zero =>
        rw [iterate_zero, id_eq, huse] at hfree
        cases hfree
      | succ k => exact ⟨k, by omega, hfree⟩
    · simpa using huse

theorem scanPacketID_seq (inUse : UInt16 → Bool) (attempts : ℕ) :
    ∀ seq, (scanPacketID inUse attempts seq).2 ≠ 0 := by
  induction attempts with
  | zero => exact fun seq => nextSeq_ne_zero seq
  | succ n ih =>
    intro seq
    unfold scanPacketID
    split_ifs
    · exact ih _
    · exact nextSeq_ne_zero seq

theorem scanPacketID_ne_zero (inUse : UInt16 → Bool) (attempts : ℕ) :
    ∀ {seq : UInt16}, seq ≠ 0 → (scanPacketID inUse attempts seq).1 ≠ 0 := by
  induction attempts with
  | zero => exact fun h => h
  | succ n ih =>
    intro seq h
    unfold scanPacketID
    split_ifs
    · exact ih (nextSeq_ne_zero seq)
    · exact h

theorem Session.nextPacketID_free {s : Session} (hseq : s.packetIDSeq ≠ 0)
    (hsize : s.inflight.size < 65535) : s.inUse s.nextPacketID.1 = false := by
  refine scanPacketID_free 65535 s.packetIDSeq ?_
  by_contra hall
  push Not at hall
  -- the 65535 identifiers tried are distinct, so there would be as many entries
  have hnd : ((List.range 65535).map fun k => nextSeq^[k] s.packetIDSeq).Nodup := by
    refine List.Nodup.map_on ?_ List.nodup_range
    intro a ha b hb hab
    exact iterate_nextSeq_inj hseq (List.mem_range.mp ha) (List.mem_range.mp hb) hab
  have hle := Keyed.length_le_size (m := s.inflight) hnd (by
    intro id hid
    obtain ⟨k, hk, rfl⟩ := List.mem_map.mp hid
    exact (Bool.not_eq_false _).mp (hall k (List.mem_range.mp hk)))
  rw [List.length_map, List.length_range] at hle
  omega

namespace Session

/-- What `NextPacketID` does for a session: its result is not 0 and is free if any identifier
is, the counter stays off 0, and with nothing in flight the results of 65535 calls are all the
identifiers, each once. -/
structure Allocates (s : Session) : Prop where
  ne_zero : s.nextPacketID.1 ≠ 0
  free : (∃ id ≠ 0, s.inUse id = false) → s.inUse s.nextPacketID.1 = false
  seq : s.nextPacketID.2.packetIDSeq ≠ 0
  cycle : (∀ id, s.inUse id = false) → ∀ id ≠ 0,
    ∃! k, k < 65535 ∧ ((fun s => s.nextPacketID.2)^[k] s).nextPacketID.1 = id

variable {s : Session}

theorem nextPacketID_idle (h : ∀ id, s.inUse id = false) :
    s.nextPacketID.1 = s.packetIDSeq ∧
      s.nextPacketID.2.packetIDSeq = nextSeq s.packetIDSeq := by
  have hscan : scanPacketID s.inUse (65534 + 1) s.packetIDSeq =
      (s.packetIDSeq, nextSeq s.packetIDSeq) := by
    rw [scanPacketID, h]
    rfl
  exact Prod.mk.inj hscan

theorem iterate_nextPacketID (h : ∀ id, s.inUse id = false) (k : ℕ) :
    (∀ id, ((fun s => s.nextPacketID.2)^[k] s).inUse id = false) ∧
      ((fun s => s.nextPacketID.2)^[k] s).packetIDSeq = nextSeq^[k] s.packetIDSeq := by
  induction k with
  | zero => exact ⟨h, rfl⟩
  | succ k ih =>
    rw [iterate_succ_apply', iterate_succ_apply']
    exact ⟨ih.1, (nextPacketID_idle ih.1).2.trans (congrArg nextSeq ih.2)⟩

theorem allocates_of_seq (hseq : s.packetIDSeq ≠ 0) : s.Allocates where
  ne_zero := scanPacketID_ne_zero s.inUse 65535 hseq
  free := by
    rintro ⟨id, hid, hfree⟩
    obtain ⟨k, hk, rfl⟩ := exists_iterate_nextSeq hseq hid
    exact scanPacketID_free 65535 s.packetIDSeq ⟨k, hk, hfree⟩
  seq := scanPacketID_seq s.inUse 65535 s.packetIDSeq
  cycle := by
    intro h id hid
    have hresult : ∀ k, ((fun s => s.nextPacketID.2)^[k] s).nextPacketID.1 =
        nextSeq^[k] s.packetIDSeq := by
      intro k
      obtain ⟨hidle, hk⟩ := iterate_nextPacketID h k
      exact (nextPacketID_idle hidle).1.trans hk
    obtain ⟨k, hk, hkid⟩ := exists_iterate_nextSeq hseq hid
    refine ⟨k, ⟨hk, (hresult k).trans hkid⟩, ?_⟩
    rintro j ⟨hj, hjid⟩
    exact iterate_nextSeq_inj hseq hj hk ((hresult j).symm.trans (hjid.trans hkid.symm))

end Session

/-! ## The counter and the map -/

/-- The counter is the number of entries; the sequence number is never 0. -/
structure Session.Exact (s : Session) : Prop where
  unacked : s.outboundUnacked = s.inflight.size
  seq : s.packetIDSeq ≠ 0

namespace Session

variable {s : Session}

theorem Exact.canSendOutbound_iff (h : s.Exact) :
    s.canSendOutbound = true ↔ s.inflight.size < s.outboundWindow.toNat := by
  rw [canSendOutbound, decide_eq_true_iff, h.unacked]

theorem Exact.buffer (h : s.Exact) (msg : OutboundMsg) : (s.bufferOutbound msg).2.Exact := by
  unfold bufferOutbound
  split_ifs
  · exact h
  · exact ⟨h.unacked, h.seq⟩

/-- Putting a message in flight while the window is open adds one entry. -/
theorem Exact.track (h : s.Exact) (hw : s.canSendOutbound = true) (msg : OutboundMsg)
    (pub : PublishPacket) :
    (s.nextPacketID.2.addInflight (inflightOf msg pub s.nextPacketID.1)).incOutboundUnacked.Exact := by
  have hwindow := s.outboundWindow.toNat_lt
  have hsize : s.inflight.size < 65535 := by
    have hlt := h.canSendOutbound_iff.mp hw
    omega
  have hfree := nextPacketID_free h.seq hsize
  refine ⟨?_, scanPacketID_seq s.inUse 65535 s.packetIDSeq⟩
  have hnew : (s.nextPacketID.2.addInflight
      (inflightOf msg pub s.nextPacketID.1)).inflight.size = s.inflight.size + 1 := by
    refine (Keyed.size_insert s.inflight _).trans (if_neg ?_)
    rw [Bool.not_eq_true]
    exact hfree
  calc s.outboundUnacked + 1 = s.inflight.size + 1 := by rw [h.unacked]
    _ = _ := hnew.symm

theorem Exact.doDeliver (h : s.Exact) (msg : OutboundMsg) (retainedDelivery : Bool) (now : ℕ) :
    (s.doDeliver msg retainedDelivery now).1.Exact := by
  rcases s.doDeliver_cases msg retainedDelivery now with he | ⟨-, he⟩ | ⟨hw, he⟩
  · rw [he]
    exact h
  · rw [he]
    exact h.buffer msg
  · rw [he]
    exact h.track hw msg _

theorem Exact.flush (now : ℕ) : ∀ {s : Session}, s.Exact → (s.flushBufferedOutbound now).1.Exact := by
  intro s h
  fun_induction flushBufferedOutbound now s with
  | case1 s hq => exact h
  | case2 s msg rest hq hw r f ih =>
    have hpop : ({ s with outboundQueue := rest } : Session).Exact := ⟨h.unacked, h.seq⟩
    exact ih (hpop.doDeliver msg false now)
  | case3 s msg rest hq hw => exact h

theorem Exact.settle (h : s.Exact) (id : UInt16) : (s.settle id).Exact := by
  unfold Session.settle removeInflight
  by_cases huse : s.inUse id = true
  · simp only [huse, if_true]
    refine ⟨?_, h.seq⟩
    have herase : (s.inflight.erase id).size = s.inflight.size - 1 :=
      (Keyed.size_erase s.inflight id).trans (if_pos huse)
    calc s.outboundUnacked - 1 = s.inflight.size - 1 := by rw [h.unacked]
      _ = _ := herase.symm
  · simp only [huse, if_false, Bool.false_eq_true]
    exact h

theorem Exact.markInflightPubRel (h : s.Exact) (id : UInt16) : (s.markInflightPubRel id).Exact := by
  obtain ⟨table, heq, hsize, -⟩ := s.markInflightPubRel_eq id
  rw [heq]
  exact ⟨h.unacked.trans hsize.symm, h.seq⟩

theorem Exact.handlePubRec (h : s.Exact) (now : ℕ) (id : UInt16) (reasonCode : UInt8) :
    (s.handlePubRec now id reasonCode).Exact := by
  unfold Session.handlePubRec
  split_ifs
  · exact Exact.flush now (h.settle id)
  · exact h.markInflightPubRel id

end Session

theorem exact_restore {data : SessionData} (h : data.inflight.size = 0) : (restore data).Exact := by
  have hsize : (restore data).inflight.size = data.inflight.size :=
    Keyed.size_map _ _ _ (fun _ => rfl)
  exact ⟨(hsize.trans h).symm, (by decide : (1 : UInt16) ≠ 0)⟩

variable {c : Client}

section

variable (h : ∀ s, c.session = some s → s.Exact)

include h

theorem exact_resumed {pkt : ConnectPacket}
    (hok : EmptyRestore c (.connect pkt)) {s : Session} (hs : resumed c pkt = some s) :
    s.Exact := by
  unfold resumed at hs
  split_ifs at hs with hclean
  cases hsess : c.session with
  | some s' =>
    rw [hsess] at hs
    cases hs
    exact h s hsess
  | none =>
    rw [hsess] at hs
    obtain ⟨data, hdata, rfl⟩ := Option.map_eq_some_iff.mp hs
    exact exact_restore (hok (by simpa using hclean) hsess data hdata)

theorem exact_connect {opts : Options} {pkt : ConnectPacket} (hok : EmptyRestore c (.connect pkt)) :
    ∀ s, (connect opts c pkt).session = some s → s.Exact := by
  rintro s ⟨⟩
  have hbase : ((resumed c pkt).getD { clientID := pkt.clientID }).Exact := by
    cases hs : resumed c pkt with
    | some s => exact exact_resumed h hok hs
    | none => exact ⟨rfl, (by decide : (1 : UInt16) ≠ 0)⟩
  exact ⟨hbase.unacked, hbase.seq⟩

theorem exact_onSession {f : Session → Session} (hf : ∀ s : Session, s.Exact → (f s).Exact) :
    ∀ s, (c.onSession f).session = some s → s.Exact := by
  intro s hs
  obtain ⟨s', hs', rfl⟩ := Option.map_eq_some_iff.mp hs
  exact hf s' (h s' hs')

/-- **Step lemma.** Every operation but the restore of a record with deliveries
in flight keeps the counter exact. -/
theorem exact_step {opts : Options} {c' : Client} {op : Op}
    (hok : EmptyRestore c op) (hs : c.step opts op = some c') :
    ∀ s, c'.session = some s → s.Exact := by
  cases op with
  | deliver msg retainedDelivery now =>
    cases hs
    exact exact_onSession h fun s hs => hs.doDeliver msg retainedDelivery now
  | pubRec id reasonCode now =>
    cases hs
    exact exact_onSession h fun s hs => hs.handlePubRec now id reasonCode
  | pubAck id now | pubComp id now =>
    cases hs
    exact exact_onSession h fun s hs => Session.Exact.flush now (hs.settle id)
  | giveUp id =>
    cases hs
    refine exact_onSession h fun s hs => ?_
    split_ifs
    · exact hs.settle id
    · exact hs
  | connect pkt =>
    cases hs
    exact exact_connect h hok
  | disconnect now =>
    cases hs
    unfold disconnect
    cases hsess : c.session with
    | none => exact h
    | some s => simp

end

/-- **In every run that restores no record with deliveries in flight, the counter
equals the number of entries of `Inflight`, and the window is open exactly while
fewer than its size are unacknowledged**, whatever was in the store at the start. -/
theorem windowExact_of_emptyRestores (opts : Options) (stored : Option SessionData)
    (ops : List Op) (c : Client)
    (hok : Along (Client.step opts) EmptyRestore { stored := stored } ops)
    (hrun : exec (Client.step opts) { stored := stored } ops = some c) : WindowExact c := by
  have hexact : ∀ s, c.session = some s → s.Exact :=
    exec_invariant (fun c : Client => ∀ s, c.session = some s → s.Exact)
      (fun _ _ _ h hok hs => exact_step h hok hs) (by simp) hok hrun
  intro s hs
  exact ⟨(hexact s hs).unacked, (hexact s hs).canSendOutbound_iff⟩

/-- A client that accepts one unacknowledged delivery at a time and keeps its
session. -/
def receiveOne : ConnectPacket where
  fixedHeader := { packetType := .connect }
  protocolName := ascii "MQTT"
  protocolVersion := version50
  flags := {}
  keepAlive := 0
  clientID := ascii "c"
  properties := some { receiveMaximum := some 1 }

/-- One that names no limit. -/
def connectC : ConnectPacket := { receiveOne with properties := none }

def qos1Message : OutboundMsg where
  pkt := { fixedHeader := { packetType := .publish, qos := 1 }, topic := ascii "a" }
  deliverQoS := 1
  subOpts := {}
  subIDs := []
  expiresAt := none

def brokerDefaults : Options where
  maxInflight := 100
  sessionExpiry := 86400

/-- One delivery is in flight when the client disconnects and comes back. -/
def reconnectInFlight : List Op :=
  [.connect receiveOne, .deliver qos1Message false 0, .disconnect 0, .connect receiveOne]

/-- The restored session has its delivery in flight, a counter of zero, and an
open window of size one. -/
theorem restore_forgets_unacknowledged :
    ∃ c s, exec (Client.step brokerDefaults) {} reconnectInFlight = some c ∧
      c.session = some s ∧ s.inflight.size = 1 ∧ s.outboundUnacked = 0 ∧
      s.outboundWindow = 1 ∧ s.canSendOutbound = true ∧ ¬ WindowExact c := by
  have hrun : (exec (Client.step brokerDefaults) {} reconnectInFlight).map (fun c =>
      c.session.map fun s =>
        (s.inflight.size, s.outboundUnacked, s.outboundWindow, s.canSendOutbound)) =
      some (some (1, 0, 1, true)) := by decide +kernel
  obtain ⟨c, hc, hsess⟩ := Option.map_eq_some_iff.mp hrun
  obtain ⟨s, hs, hfields⟩ := Option.map_eq_some_iff.mp hsess
  simp only [Prod.mk.injEq] at hfields
  obtain ⟨hsize, hunacked, hwindow, hcan⟩ := hfields
  refine ⟨c, s, hc, hs, hsize, hunacked, hwindow, hcan, fun h => ?_⟩
  have heq := (h s hs).1
  rw [hsize, hunacked] at heq
  cases heq

/-- The delivery is acknowledged before the client disconnects. -/
def reconnectSettled : List Op :=
  [.connect receiveOne, .deliver qos1Message false 0, .pubAck 1 0, .disconnect 0,
    .connect receiveOne, .deliver qos1Message false 0]

theorem reconnectSettled_emptyRestores :
    Along (Client.step brokerDefaults) EmptyRestore {} reconnectSettled := by
  refine ⟨?_, trivial, trivial, trivial, ?_, trivial, trivial⟩
  · rintro - - data ⟨⟩
  · rintro - - data hdata
    have hsize := congrArg (Option.map fun data : SessionData => data.inflight.size) hdata
    exact Option.some.inj (hsize.symm.trans (by decide +kernel))

theorem settled_restore_keeps_window :
    ∃ c s, exec (Client.step brokerDefaults) {} reconnectSettled = some c ∧
      c.session = some s ∧ s.inflight.size = 1 ∧ WindowExact c := by
  have hrun : (exec (Client.step brokerDefaults) {} reconnectSettled).map (fun c =>
      c.session.map fun s => s.inflight.size) = some (some 1) := by decide +kernel
  obtain ⟨c, hc, hsess⟩ := Option.map_eq_some_iff.mp hrun
  obtain ⟨s, hs, hsize⟩ := Option.map_eq_some_iff.mp hsess
  exact ⟨c, s, hc, hs, hsize,
    windowExact_of_emptyRestores brokerDefaults none _ c reconnectSettled_emptyRestores hc⟩

end SharkMqtt.Broker
