import SharkMqtt.Broker.Deliveries

/-!
# Invariants of single sessions

What every operation on one session keeps holds of every session the broker has,
in memory and in the store. `SessionInvariant` lists the operations; the lemmas
carry such an invariant through the functions of `Outbound`.
-/

namespace SharkMqtt.Broker

open Protocol Lib

/-- `P` on sessions is kept by the deliveries and the acknowledgements of a connection, as
long as the messages delivered meet `M`. -/
structure WhileConnected (M : OutboundMsg → Prop) (P : Session → Prop) : Prop where
  settle : ∀ s id, P s → P (s.settle id)
  mark : ∀ s id, P s → P (s.markInflightPubRel id)
  deliver : ∀ s msg retainedDelivery now, M msg → P s → P (s.doDeliver msg retainedDelivery now).1
  pop : ∀ s msg rest, s.outboundQueue = msg :: rest → P s →
    M msg ∧ P { s with outboundQueue := rest }

/-- `P`, with `Q` on the records, is kept by whatever the broker does to a session. -/
structure SessionInvariant (M : OutboundMsg → Prop) (P : Session → Prop) (Q : SessionData → Prop) :
    Prop extends WhileConnected M P where
  fresh : ∀ c, P { clientID := c }
  negotiate : ∀ s ver expiry window, P s →
    P { s with protocolVer := ver, expiryInterval := expiry, outboundWindow := window }
  restore : ∀ data, Q data → P (restore data)
  save : ∀ s now, P s → Q (s.save now)

theorem SessionInvariant.and {M M' : OutboundMsg → Prop} {P P' : Session → Prop}
    {Q Q' : SessionData → Prop} (h : SessionInvariant M P Q) (h' : SessionInvariant M' P' Q') :
    SessionInvariant (fun msg => M msg ∧ M' msg) (fun s => P s ∧ P' s)
      (fun data => Q data ∧ Q' data) where
  fresh := fun c => ⟨h.fresh c, h'.fresh c⟩
  negotiate := fun s ver expiry window hs =>
    ⟨h.negotiate s ver expiry window hs.1, h'.negotiate s ver expiry window hs.2⟩
  restore := fun data hd => ⟨h.restore data hd.1, h'.restore data hd.2⟩
  save := fun s now hs => ⟨h.save s now hs.1, h'.save s now hs.2⟩
  settle := fun s id hs => ⟨h.settle s id hs.1, h'.settle s id hs.2⟩
  mark := fun s id hs => ⟨h.mark s id hs.1, h'.mark s id hs.2⟩
  deliver := fun s msg retainedDelivery now hmsg hs =>
    ⟨h.deliver s msg retainedDelivery now hmsg.1 hs.1,
      h'.deliver s msg retainedDelivery now hmsg.2 hs.2⟩
  pop := fun s msg rest hq hs => by
    obtain ⟨hm, hp⟩ := h.pop s msg rest hq hs.1
    obtain ⟨hm', hp'⟩ := h'.pop s msg rest hq hs.2
    exact ⟨⟨hm, hm'⟩, hp, hp'⟩

namespace Outbound

def Op.message : Op → Option OutboundMsg
  | .deliver _ msg _ _ => some msg
  | _ => none

/-- The sessions of the clients meet `P`, the records `Q`. -/
structure Holds (b : Outbound) (P : Str → Session → Prop) (Q : SessionData → Prop) : Prop where
  sessions : ∀ c s, b.sessions c = some s → P c s
  stored : ∀ c data, b.stored c = some data → Q data

section

variable {M : OutboundMsg → Prop} {P : Str → Session → Prop} {Q : SessionData → Prop}
  {b : Outbound} {c : Str}

theorem holds_init (maxInflight retryInterval maxRetries : ℕ) :
    (init maxInflight retryInterval maxRetries).broker.Holds P Q where
  sessions := fun c s h => by cases h
  stored := fun c data h => by cases h

variable (h : b.Holds P Q)

include h

theorem Holds.setSession {s : Session} (hs : P c s) : (b.setSession c s).Holds P Q := by
  refine ⟨fun c' s' hs' => ?_, h.stored⟩
  rw [sessions_setSession] at hs'
  split_ifs at hs' with hc
  · cases hs'
    exact hc ▸ hs
  · exact h.sessions c' s' hs'

theorem Holds.onSession {f : Session → Session} (hf : ∀ s, P c s → P c (f s)) :
    (b.onSession c f).Holds P Q := by
  unfold Outbound.onSession
  cases hs : b.sessions c with
  | none => exact h
  | some s => exact h.setSession (hf s (h.sessions c s hs))

theorem Holds.engine (q : QoSEngine) :
    ({ b with engine := q } : Outbound).Holds P Q := ⟨h.sessions, h.stored⟩

theorem Holds.disconnect (hsave : ∀ c s now, P c s → Q (s.save now)) (c : Str)
    (now : ℕ) : (b.disconnect c now).Holds P Q := by
  refine ⟨fun c' s hs => ?_, fun c' data hdata => ?_⟩
  · rw [sessions_disconnect] at hs
    split_ifs at hs with hc
    exact h.sessions c' s hs
  · rcases b.stored_disconnect now hdata with ⟨hold, -⟩ | ⟨s, hs, rfl⟩
    · exact h.stored c' data hold
    · exact hsave c' s now (h.sessions c' s hs)

section

variable (inv : ∀ c, WhileConnected M (P c))

include inv

theorem Holds.deliverOn {s : Session} (hs : P c s)
    {msg : OutboundMsg} (hmsg : M msg) (retainedDelivery : Bool) (now : ℕ) :
    (b.deliverOn c s msg retainedDelivery now).1.Holds P Q := by
  have hset := h.setSession (c := c) ((inv c).deliver s msg retainedDelivery now hmsg hs)
  unfold Outbound.deliverOn
  simp only
  split
  · exact hset
  · exact hset.engine _

theorem Holds.doDeliver {msg : OutboundMsg} (hmsg : M msg) (retainedDelivery : Bool) (now : ℕ) :
    (b.doDeliver c msg retainedDelivery now).1.Holds P Q := by
  unfold Outbound.doDeliver
  cases hs : b.sessions c with
  | none => exact h
  | some s => exact h.deliverOn inv (h.sessions c s hs) hmsg retainedDelivery now

theorem Holds.flushRound (now : ℕ) : (b.flushRound c now).1.Holds P Q := by
  rcases b.flushRound_cases c now with hidle | ⟨s, msg, rest, hs, hq, hround⟩
  · rw [hidle]
    exact h
  · rw [hround]
    obtain ⟨hmsg, hrest⟩ := (inv c).pop s msg rest hq (h.sessions c s hs)
    exact h.deliverOn inv hrest hmsg false now

theorem Holds.giveUps (items : List (Str × UInt16)) : (items.foldl giveUp b).Holds P Q :=
  List.foldlRecOn (motive := (Holds · P Q)) items giveUp h fun _ h item _ =>
    h.onSession fun s hs => (inv _).settle s item.2 hs

/-- The operations of a connection. -/
theorem Holds.run_connected (opts : Options) (op : Op)
    (hmsg : ∀ msg, op.message = some msg → M msg) (hconnect : ∀ pkt now, op ≠ .connect pkt now)
    (hdisconnect : ∀ c now, op ≠ .disconnect c now) : (b.run opts op).1.Holds P Q := by
  have hacts := b.acts_run opts op
  generalize b.run opts op = r at hacts
  cases hacts with
  | idle => exact h
  | @deliver c s msg _ _ hs => exact h.deliverOn inv (h.sessions c s hs) (hmsg msg rfl) _ _
  | @flush c s msg rest now hs hq =>
    obtain ⟨hfirst, hrest⟩ := (inv c).pop s msg rest hq (h.sessions c s hs)
    exact h.deliverOn inv hrest hfirst false now
  | settle c id => exact (h.onSession fun s hs => (inv c).settle s id hs).engine _
  | mark => exact (h.onSession fun s hs => (inv _).mark s _ hs).engine _
  | tick now => exact (h.engine _).giveUps inv _
  | connect pkt now => exact absurd rfl (hconnect pkt now)
  | disconnect c now => exact absurd rfl (hdisconnect c now)

end

end

section

variable {M : OutboundMsg → Prop} {P : Session → Prop} {Q : SessionData → Prop} {b : Outbound}
  (h : b.Holds (fun _ => P) Q) (inv : SessionInvariant M P Q)

include h inv

theorem Holds.resumed {s : Session} {pkt : ConnectPacket}
    (hres : resumed (b.client pkt.clientID) pkt = some s) : P s := by
  obtain ⟨-, hs | ⟨-, data, hdata, rfl⟩⟩ := resumed_eq_some.mp hres
  · exact h.sessions _ s hs
  · exact inv.restore data (h.stored _ data hdata)

theorem Holds.connect (opts : Options) (pkt : ConnectPacket) (now : ℕ) :
    (b.connect opts pkt now).1.Holds (fun _ => P) Q := by
  refine ⟨fun c s hs => ?_, fun c data hdata =>
    h.stored c data (b.stored_connect opts pkt now hdata)⟩
  unfold Outbound.connect at hs
  simp only [Function.update_apply] at hs
  split_ifs at hs with hc
  · cases hs
    refine inv.negotiate _ _ _ _ ?_
    cases hres : Broker.resumed (b.client pkt.clientID) pkt with
    | none => exact inv.fresh _
    | some s => exact h.resumed inv hres
  · exact h.sessions c s hs

theorem Holds.run (opts : Options) (op : Op) (hmsg : ∀ msg, op.message = some msg → M msg) :
    (b.run opts op).1.Holds (fun _ => P) Q := by
  cases op with
  | connect pkt now => exact h.connect inv opts pkt now
  | disconnect c now => exact h.disconnect (fun _ => inv.save) c now
  | _ =>
    apply h.run_connected (fun _ => inv.toWhileConnected) opts _ hmsg
    · rintro _ _ ⟨⟩
    · rintro _ _ ⟨⟩

end

end Outbound

/-! ## Two of them -/

theorem seqInvariant :
    SessionInvariant (fun _ => True) (fun s => s.packetIDSeq ≠ 0) (fun _ => True) where
  fresh := fun c => by
    show (1 : UInt16) ≠ 0
    decide
  negotiate := fun s _ _ _ h => h
  restore := fun data _ => by
    show (1 : UInt16) ≠ 0
    decide
  save := fun _ _ _ => trivial
  settle := fun s id h => by
    unfold Session.settle Session.removeInflight
    split_ifs <;> exact h
  mark := fun s id h => by
    obtain ⟨table, heq, -⟩ := s.markInflightPubRel_eq id
    rw [heq]
    exact h
  deliver := fun s msg retainedDelivery now _ h => by
    cases hsends : s.sends msg now with
    | true =>
      rw [Session.doDeliver_of_sends hsends]
      exact scanPacketID_seq s.inUse 65535 s.packetIDSeq
    | false =>
      rw [(Session.doDeliver_of_not_sends hsends retainedDelivery).2.1]
      exact h
  pop := fun _ _ _ _ h => ⟨trivial, h⟩

theorem pendingInvariant :
    SessionInvariant (fun _ => True)
      (fun s => ∀ id msg, s.inflight.lookup id = some msg → msg.pendingPubRel = true → msg.qos = 2)
      (fun data => ∀ id m, data.inflight.lookup id = some m → m.pendingPubRel = true → m.qos = 2)
    where
  fresh := fun c id msg h => by cases h
  negotiate := fun s _ _ _ h => h
  restore := fun data h id msg hmsg hp => by
    rw [Outbound.lookup_restore] at hmsg
    obtain ⟨m, hm, rfl⟩ := Option.map_eq_some_iff.mp hmsg
    exact h id m hm hp
  save := fun s now h id m hm hp => by
    rw [Outbound.lookup_save] at hm
    obtain ⟨msg, hmsg, rfl⟩ := Option.map_eq_some_iff.mp hm
    exact h id msg hmsg hp
  settle := fun s id h id' msg hmsg => by
    rw [Session.lookup_settle] at hmsg
    split_ifs at hmsg
    exact h id' msg hmsg
  mark := fun s id h id' msg hmsg hp => by
    rw [Session.lookup_markInflightPubRel] at hmsg
    obtain ⟨m, hm, rfl⟩ := Option.map_eq_some_iff.mp hmsg
    split_ifs at hp ⊢ with hsame
    · exact hsame.2
    · exact h id' m hm hp
  deliver := fun s msg retainedDelivery now _ h id' m hm hp => by
    rcases Session.lookup_doDeliver hm with hold | hnew
    · exact h id' m hold hp
    · rw [hnew] at hp
      cases hp
  pop := fun _ _ _ _ h => ⟨trivial, h⟩

namespace Outbound

theorem step_eq_some {opts : Options} {st st' : State} {op : Op} (hs : step opts st op = some st') :
    st' = ⟨(st.broker.run opts op).1, (st.broker.run opts op).2, st.receive op⟩ := by
  unfold step at hs
  split_ifs at hs with henabled
  cases hs
  rfl

/-- **Packet identifiers.** In every session the broker can have, `NextPacketID` returns an
identifier other than 0, a free one if there is one, and with nothing in flight it goes round
all of them. -/
theorem allocates_of_reachable (maxInflight retryInterval maxRetries : ℕ) (opts : Options)
    (ops : List Op) (st : State)
    (hrun : exec (step opts) (init maxInflight retryInterval maxRetries) ops = some st) (c : Str)
    (s : Session) (hs : st.broker.sessions c = some s) : s.Allocates := by
  have hseq := exec_preserves (fun st => st.broker.Holds (fun _ s => s.packetIDSeq ≠ 0) fun _ => True)
    (fun st op st' h hstep => by
      rw [step_eq_some hstep]
      exact h.run seqInvariant opts op fun _ _ => trivial)
    (holds_init maxInflight retryInterval maxRetries) hrun
  exact Session.allocates_of_seq (hseq.sessions c s hs)

/-- A session with a delivery in flight. -/
theorem allocates_of_reachable_delivery :
    ∃ st, exec (step brokerDefaults) (init 2 20 3)
        [.connect receiveOne 0, .deliver (ascii "c") qos1Message false 0] = some st ∧
      (st.broker.sessions (ascii "c")).isSome = true ∧
        ∀ s, st.broker.sessions (ascii "c") = some s → s.Allocates :=
  exec_reaches (by decide +kernel) fun st hst _ =>
    allocates_of_reachable 2 20 3 brokerDefaults _ st hst (ascii "c")

end Outbound

end SharkMqtt.Broker
