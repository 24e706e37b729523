import SharkMqtt.Broker.Connections

/-!
# What lands on a write queue

Two properties of the same machine. `AckFirst`: the first packet placed on the
write queue of a connection is a CONNACK, and no second one follows. `OwnOnly`:
what a read loop sends in response, or closes, is its own connection.

Both rest on the same habit of the code: a target is resolved by ClientID, not
by the connection the work belongs to, and the entry of the map may change
before and after. A router that finds a connection between its registration and
its CONNACK writes ahead of the CONNACK; a registration in that window makes the
displaced handshake send its CONNACK to the newcomer; a superseded read loop
answers the newcomer. Runs in which no lookup falls into such a window keep the
properties (`ackFirst_of_orderly`, `ownOnly_of_unsuperseded`).
-/

namespace SharkMqtt.Broker.Connections

open Protocol Lib Function

/-! ## The CONNACK comes first -/

/-- The first packet placed on a queue is a CONNACK, and it is the only one. -/
def AckFirst (st : State) : Prop :=
  ∀ κ, (∀ item ∈ (st.conns κ).queue.head?, item.kind = .connAck) ∧
    ((st.conns κ).queue.filter (fun item => item.kind = .connAck)).length ≤ 1

/-- The handshake is past the placement of its CONNACK. -/
def Phase.acked : Phase → Bool
  | .reading _ | .responding _ _ _ | .leaving _ | .saving _ | .removing _ | .finished => true
  | .connecting | .looked _ | .created _ | .registered _ | .acking _ _ => false

/-- The entry of `c` in the connection map, if any, has had its CONNACK placed. -/
def EntryAcked (st : State) (c : Str) : Prop :=
  ∀ κ, st.connections c = some κ → (st.phase κ).acked = true

/-- The condition on a step: no registration displaces, and no `writePacket`
finds, a connection whose CONNACK has not been placed yet. -/
def Orderly (st : State) : Label → Prop
  | .register κ => EntryAcked st (st.client κ)
  | .respondLookup κ (.packet _) => EntryAcked st (st.client κ)
  | .routeLookup _ c _ => EntryAcked st c
  | _ => True

/-- A queue that starts with its only CONNACK. -/
def AckHead (q : List Item) : Prop :=
  ∃ item rest, q = item :: rest ∧ item.kind = .connAck ∧ ∀ x ∈ rest, x.kind ≠ .connAck

variable {item : Item} {st st' : State} {κ : ConnID}

theorem AckHead.append {q : List Item} (h : AckHead q) (hk : item.kind ≠ .connAck) :
    AckHead (q ++ [item]) := by
  obtain ⟨first, rest, rfl, hfirst, hrest⟩ := h
  exact ⟨first, rest ++ [item], rfl, hfirst,
    forall_mem_snoc hrest hk⟩

/-- In the window between registration and CONNACK. -/
def Phase.awaiting : Phase → Bool
  | .registered _ | .acking _ _ => true
  | _ => false

structure Ordered (st : State) : Prop where
  fresh : ∀ κ, (st.phase κ).acked = false →
    (st.conns κ).queue = [] ∧ (st.conns κ).stopped = false
  acked : ∀ κ, (st.phase κ).acked = true → AckHead (st.conns κ).queue
  mapped : ∀ κ, (st.phase κ).awaiting = true → st.connections (st.client κ) = some κ
  target : ∀ κ σ t, st.phase κ = .acking σ t → t = some κ
  response : ∀ κ σ t kind, st.phase κ = .responding σ t (.packet kind) →
    kind ≠ .connAck ∧ (st.phase t).acked = true
  writer : ∀ w t kind, st.writers w = some (t, kind) →
    kind ≠ .connAck ∧ (st.phase t).acked = true

theorem ordered_init (clientID : ConnID → Str) (clean : ConnID → Bool) :
    Ordered (init clientID clean) where
  fresh := by simp [init]
  acked := by simp [init, State.phase, Phase.acked]
  mapped := by simp [init, State.phase, Phase.awaiting]
  target := by simp [init, State.phase]
  response := by simp [init, State.phase]
  writer := by simp [init]

section

variable (h : Ordered st)

include h

theorem Ordered.ackFirst : AckFirst st := by
  intro κ
  cases hp : (st.phase κ).acked with
  | false => simp [(h.fresh κ hp).1]
  | true =>
    obtain ⟨item, rest, hq, hk, hrest⟩ := h.acked κ hp
    have hnone : rest.filter (fun x => x.kind = .connAck) = [] := by
      rw [List.filter_eq_nil_iff]
      intro x hx
      simpa using hrest x hx
    rw [hq]
    simp [hk, hnone]

variable {p : Phase} {σ : SessID} {placed : Bool}

/-- One connection enters another phase; the queues of the others stay. -/
theorem Ordered.enter (hphase : ∀ κ', st'.phase κ' = if κ' = κ then p else st.phase κ')
    (hclient : ∀ κ', st'.client κ' = st.client κ') (hwriters : st'.writers = st.writers)
    (hacked : (st.phase κ).acked = true → p.acked = true)
    (hfresh : p.acked = false → (st'.conns κ).queue = [] ∧ (st'.conns κ).stopped = false)
    (hhead : p.acked = true → AckHead (st'.conns κ).queue)
    (hothers : ∀ κ', κ' ≠ κ → (st'.conns κ').queue = (st.conns κ').queue ∧
      ((st.phase κ').acked = false → (st'.conns κ').stopped = (st.conns κ').stopped))
    (hmap : p.awaiting = true → st'.connections (st.client κ) = some κ)
    (hmaps : ∀ κ', κ' ≠ κ → (st.phase κ').awaiting = true →
      st'.connections (st.client κ') = some κ') (htarget : ∀ σ t, p = .acking σ t → t = some κ)
    (hresp : ∀ σ t kind, p = .responding σ t (.packet kind) →
      kind ≠ .connAck ∧ (st.phase t).acked = true) : Ordered st' := by
  have hkeep : ∀ t, (st.phase t).acked = true → (st'.phase t).acked = true := by
    intro t ht
    rw [hphase]
    split_ifs with he
    · exact hacked (he ▸ ht)
    · exact ht
  constructor
  · intro κ' hp
    rw [hphase] at hp
    split_ifs at hp with he
    · exact he ▸ hfresh hp
    · rw [(hothers κ' he).1, (hothers κ' he).2 hp]
      exact h.fresh κ' hp
  · intro κ' hp
    rw [hphase] at hp
    split_ifs at hp with he
    · exact he ▸ hhead hp
    · rw [(hothers κ' he).1]
      exact h.acked κ' hp
  · intro κ' hp
    rw [hclient]
    rw [hphase] at hp
    split_ifs at hp with he
    · exact he ▸ hmap hp
    · exact hmaps κ' he hp
  · intro κ' σ t hp
    rw [hphase] at hp
    split_ifs at hp with he
    · exact he ▸ htarget σ t hp
    · exact h.target κ' σ t hp
  · intro κ' σ t kind hp
    rw [hphase] at hp
    split_ifs at hp
    · exact (hresp σ t kind hp).imp_right (hkeep t)
    · exact (h.response κ' σ t kind hp).imp_right (hkeep t)
  · intro w t kind hw
    rw [hwriters] at hw
    exact (h.writer w t kind hw).imp_right (hkeep t)

theorem Ordered.move (hacked : p.acked = (st.phase κ).acked)
    (hmap : p.awaiting = true → st.connections (st.client κ) = some κ)
    (htarget : ∀ σ t, p = .acking σ t → t = some κ)
    (hresp : ∀ σ t kind, p = .responding σ t (.packet kind) → kind ≠ .connAck ∧ (st.phase t).acked = true) :
    Ordered (st.setPhase κ p) := by
  have hlogs : ∀ κ', ((st.setPhase κ p).conns κ').queue = (st.conns κ').queue ∧
      ((st.setPhase κ p).conns κ').stopped = (st.conns κ').stopped := by
    intro κ'
    obtain ⟨hq, -, -, hs⟩ := st.conns_setPhase_logs κ κ' p
    exact ⟨hq, hs⟩
  refine h.enter (fun κ' => st.phase_setPhase κ κ' p) (fun κ' => st.client_setPhase κ κ' p) rfl
    hacked.trans (fun hp => ?_) (fun hp => ?_) (fun κ' _ => (hlogs κ').imp_right fun hs _ => hs) hmap
    (fun κ' _ => h.mapped κ') htarget hresp
  · rw [(hlogs κ).1, (hlogs κ).2]
    exact h.fresh κ (hacked ▸ hp)
  · rw [(hlogs κ).1]
    exact h.acked κ (hacked ▸ hp)

/-- A change of logs that keeps what is on the queues in order. -/
theorem Ordered.logs (hl : LogsOnly st st')
    (hfresh : ∀ κ, (st.phase κ).acked = false →
      (st'.conns κ).queue = [] ∧ (st'.conns κ).stopped = false)
    (hacked : ∀ κ, (st.phase κ).acked = true → AckHead (st'.conns κ).queue) : Ordered st' := by
  constructor
  all_goals simp only [hl.phase, hl.client, hl.connections, hl.writers]
  exacts [hfresh, hacked, h.mapped, h.target, h.response, h.writer]

theorem Ordered.modify (κ : ConnID) (f : Conn → Conn)
    (hf : ∀ c, (f c).clientID = c.clientID ∧ (f c).phase = c.phase)
    (hq : ∀ c, (f c).queue = c.queue ∧ (f c).stopped = c.stopped) : Ordered (st.modify κ f) := by
  have hlogs : ∀ κ', ((st.modify κ f).conns κ').queue = (st.conns κ').queue ∧
      ((st.modify κ f).conns κ').stopped = (st.conns κ').stopped := by
    intro κ'
    rw [State.conns_modify]
    split_ifs with he
    · rw [he]
      exact hq _
    · exact ⟨rfl, rfl⟩
  refine h.logs (logsOnly_modify st κ f hf) ?_ ?_
  · intro κ' hp
    rw [(hlogs κ').1, (hlogs κ').2]
    exact h.fresh κ' hp
  · intro κ' hp
    rw [(hlogs κ').1]
    exact h.acked κ' hp

theorem Ordered.enqueue (hk : item.kind ≠ .connAck)
    (hp : (st.phase κ).acked = true) : Ordered (st.enqueue κ item) := by
  have hconn : ∀ κ', κ' ≠ κ → (st.enqueue κ item).conns κ' = st.conns κ' := by
    intro κ' hne
    rw [State.enqueue, State.conns_modify, if_neg hne]
  refine h.logs (logsOnly_enqueue st κ item) ?_ ?_
  · intro κ' hp'
    have hne : κ' ≠ κ := by
      rintro rfl
      rw [hp] at hp'
      cases hp'
    rw [hconn κ' hne]
    exact h.fresh κ' hp'
  · intro κ' hp'
    by_cases he : κ' = κ
    · subst he
      rw [State.enqueue, State.conns_modify, if_pos rfl]
      exact (h.acked κ' hp').append hk
    · rw [hconn κ' he]
      exact h.acked κ' hp'

theorem Ordered.setWriter (w : ℕ) {pending : Option (ConnID × PacketType)}
    (hp : ∀ t kind, pending = some (t, kind) → kind ≠ .connAck ∧ (st.phase t).acked = true) :
    Ordered (st.setWriter w pending) := by
  refine { h with writer := fun w' t kind hw => ?_ }
  change update st.writers w pending w' = _ at hw
  by_cases he : w' = w
  · subst he
    rw [update_self] at hw
    exact hp t kind hw
  · rw [update_of_ne he] at hw
    exact h.writer w' t kind hw

/-- The handshake places its own CONNACK and enters its read loop. -/
theorem Ordered.connAck (hp : st.phase κ = .acking σ (some κ)) :
    Ordered ((st.enqueue κ ⟨.connAck, .handshake κ⟩).setPhase κ (.reading σ)) := by
  have hl := logsOnly_enqueue st κ ⟨.connAck, .handshake κ⟩
  refine h.enter (p := .reading σ) (fun κ' => by rw [State.phase_setPhase, hl.phase])
    (fun κ' => by rw [State.client_setPhase, hl.client]) rfl (fun _ => rfl) nofun (fun _ => ?_)
    (fun κ' hne => ?_) nofun (fun κ' _ => h.mapped κ') nofun nofun
  · have hq : (st.conns κ).queue = [] := (h.fresh κ (by rw [hp]; rfl)).1
    rw [(State.conns_setPhase_logs _ _ _ _).1, State.enqueue, State.conns_modify, if_pos rfl]
    exact ⟨⟨.connAck, .handshake κ⟩, [], by simp [hq], rfl, by simp⟩
  · rw [State.setPhase, State.conns_modify, if_neg hne, State.enqueue, State.conns_modify,
      if_neg hne]
    exact ⟨rfl, fun _ => rfl⟩

theorem Ordered.register (hp : st.phase κ = .created σ)
    (hentry : EntryAcked st (st.client κ)) : Ordered (st.register κ σ) := by
  have hfresh := h.fresh κ (by rw [hp]; rfl)
  have hqueue : ∀ κ', ((st.register κ σ).conns κ').queue = (st.conns κ').queue := by
    intro κ'
    refine (State.conns_setPhase_logs _ κ κ' _).1.trans ?_
    cases st.connections (st.client κ) with
    | none => rfl
    | some o =>
      simp only [State.displace]
      rw [State.conns_modify]
      split_ifs with he
      · rw [he]
      · rfl
  have hstopped : ∀ κ', (st.phase κ').acked = false →
      ((st.register κ σ).conns κ').stopped = (st.conns κ').stopped := by
    intro κ' hp'
    refine (State.conns_setPhase_logs _ κ κ' _).2.2.2.trans ?_
    cases hc : st.connections (st.client κ) with
    | none => rfl
    | some o =>
      have hne : κ' ≠ o := by
        rintro rfl
        rw [hentry κ' hc] at hp'
        cases hp'
      simp only [State.displace]
      rw [State.conns_modify, if_neg hne]
  refine h.enter (fun κ' => st.phase_register κ κ' σ) (fun κ' => st.client_register κ κ' σ)
    (logsOnly_displace st _ κ).writers (by rw [hp]; exact id) (fun _ => ?_) nofun
    (fun κ' _ => ⟨hqueue κ', hstopped κ'⟩) (fun _ => update_self _ _ _) (fun κ' _ hp' => ?_) nofun nofun
  · rw [hqueue, hstopped κ (by rw [hp]; rfl)]
    exact hfresh
  · -- another connection in its window holds the entry of its own ClientID
    have hmap := h.mapped κ' hp'
    have hne : st.client κ' ≠ st.client κ := by
      intro hcl
      rw [hcl] at hmap
      have hacked := hentry κ' hmap
      cases hq : st.phase κ' <;> simp_all [Phase.acked, Phase.awaiting]
    exact (update_of_ne hne _ _).trans hmap

theorem Ordered.remove (hp : st.phase κ = .removing σ)
    (hc : st.connections (st.client κ) = some κ) : Ordered (st.remove κ) := by
  refine h.enter (fun κ' => st.phase_remove κ κ') (fun κ' => st.client_remove κ κ') rfl
    (fun _ => rfl) nofun (fun _ => ?_) (fun κ' hne => ?_) nofun (fun κ' hne hp' => ?_) nofun nofun
  · rw [State.conns_remove, if_pos rfl]
    exact h.acked κ (by rw [hp]; rfl)
  · rw [State.conns_remove, if_neg hne]
    exact ⟨rfl, fun _ => rfl⟩
  · have hmap := h.mapped κ' hp'
    have hcl : st.client κ' ≠ st.client κ := by
      intro hcl
      rw [hcl, hc, Option.some.injEq] at hmap
      exact hne hmap.symm
    rw [State.connections_remove, update_of_ne hcl]
    exact hmap

theorem Ordered.act {target : ConnID} {response : Response}
    (ha : act st κ target response placed = some st')
    (hk : ∀ kind, response = .packet kind → kind ≠ .connAck ∧ (st.phase target).acked = true) :
    Ordered st' := by
  unfold Connections.act at ha
  cases response with
  | packet kind =>
    rcases send_cases ha with rfl | ⟨rfl, -⟩
    · exact h.enqueue (hk kind rfl).1 (hk kind rfl).2
    · exact h
  | final =>
    split_ifs at ha
    · cases ha
      exact h.modify target _ (fun _ => ⟨rfl, rfl⟩) (fun _ => ⟨rfl, rfl⟩)
    · cases ha
      exact h
  | close =>
    cases ha
    exact h.modify target _ (fun _ => ⟨rfl, rfl⟩) (fun _ => ⟨rfl, rfl⟩)

theorem Ordered.pass (hacked : p.acked = (st.phase κ).acked)
    (hwait : p.awaiting = false) (hresp : ∀ σ t r, p ≠ .responding σ t r) :
    Ordered (st.setPhase κ p) := by
  refine h.move hacked (fun hp => nomatch hwait.symm.trans hp) ?_ fun σ t kind hp =>
    absurd hp (hresp σ t _)
  rintro σ t rfl
  cases hwait

theorem Ordered.install (c : Str) : Ordered (st.install c) :=
  ⟨h.fresh, h.acked, h.mapped, h.target, h.response, h.writer⟩

/-- **Step lemma.** An orderly step keeps the invariant. -/
theorem Ordered.step {l : Label} (hok : Orderly st l) (hs : step st l = some st') :
    Ordered st' := by
  cases stepped_of_step hs with
  | lookup hp | resume hp | leave hp | identityOwn hp | identityLost hp | save hp | removeLost hp =>
    exact h.pass (by rw [hp]; rfl) rfl (by simp)
  | restore hp | create hp =>
    exact (h.install _).pass (by rw [State.phase_install, hp]; rfl) rfl (by simp)
  | register hp => exact h.register hp hok
  | @connAckLookup κ σ hp =>
    have hmap := h.mapped κ (by rw [hp]; rfl)
    refine h.move (by rw [hp]; rfl) (fun _ => hmap) ?_ (by simp)
    rintro τ t ⟨⟩
    exact hmap
  | connAckLost hp => cases h.target _ _ _ hp
  | @connAckSend κ σ target placed st₁ hp hsend =>
    obtain rfl := Option.some.inj (h.target _ _ _ hp)
    have hrun := (h.fresh target (by rw [hp]; rfl)).2
    rcases send_cases hsend with rfl | ⟨-, hstop⟩
    · exact h.connAck hp
    · rw [hrun] at hstop
      cases hstop
  | respondLost hp hc => exact h
  | respondLookup hp hk hc =>
    refine h.move (by rw [hp]; rfl) (by simp [Phase.awaiting]) (by simp) ?_
    rintro σ t kind ⟨⟩
    exact ⟨fun he => hk (by rw [he]), hok _ hc⟩
  | @respond κ σ target response placed st₁ hp ha =>
    have hk : ∀ kind, response = .packet kind →
        kind ≠ .connAck ∧ (st.phase target).acked = true := by
      rintro kind rfl
      exact h.response κ σ target kind hp
    exact (h.act ha hk).pass (by rw [(logsOnly_act ha).phase, hp]; rfl) rfl (by simp)
  | removeOwn hp hc => exact h.remove hp hc
  | routeLookup hw hk =>
    refine h.setWriter _ ?_
    intro t kind he
    obtain ⟨t', hc, he'⟩ := Option.map_eq_some_iff.mp he
    cases he'
    exact ⟨hk, hok _ hc⟩
  | routePlaced hw =>
    obtain ⟨hk, hacked⟩ := h.writer _ _ _ hw
    exact (h.enqueue hk hacked).setWriter _ (by simp)
  | routeDropped hw => exact h.setWriter _ (by simp)

end

/-- **In every orderly run the first packet on a write queue is a CONNACK and no
second one follows**, for any number of connections, takeovers and publishers. -/
theorem ackFirst_of_orderly (clientID : ConnID → Str) (clean : ConnID → Bool)
    (ls : List Label) (st : State) (hok : Along step Orderly (init clientID clean) ls)
    (hrun : exec step (init clientID clean) ls = some st) : AckFirst st :=
  (exec_invariant Ordered (fun _ _ _ h hok hs => h.step hok hs)
    (ordered_init clientID clean) hok hrun).ackFirst

/-- Two schedules of one client. A publisher that finds connection 0 right after
its registration writes ahead of the CONNACK. -/
def earlyPublish : List Label :=
  [.lookup 0, .createSession 0, .register 0, .routeLookup 0 (ascii "c") .publish,
    .routeSend 0 true, .connAckLookup 0, .connAckSend 0 true]

/-- Connection 1 takes over before connection 0 has sent its CONNACK; both
CONNACKs end up on connection 1. -/
def earlyTakeover : List Label :=
  [.lookup 0, .createSession 0, .register 0, .lookup 1, .createSession 1, .register 1,
    .connAckLookup 0, .connAckSend 0 true, .connAckLookup 1, .connAckSend 1 true]

theorem early_steps_break_connAck_order :
    (∃ st, exec step (init (fun _ => ascii "c") (fun _ => false)) earlyPublish = some st ∧
      (st.conns 0).queue = [⟨.publish, .router⟩, ⟨.connAck, .handshake 0⟩] ∧ ¬ AckFirst st) ∧
    (∃ st, exec step (init (fun _ => ascii "c") (fun _ => false)) earlyTakeover = some st ∧
      (st.conns 1).queue = [⟨.connAck, .handshake 0⟩, ⟨.connAck, .handshake 1⟩] ∧
      ¬ AckFirst st) := by
  constructor
  · refine exec_reaches (by decide +kernel) fun st _ hq h => ?_
    have hhead := (h 0).1 ⟨.publish, .router⟩ (by rw [hq]; rfl)
    cases hhead
  · refine exec_reaches (by decide +kernel) fun st _ hq h => ?_
    have hcount := (h 1).2
    rw [hq] at hcount
    exact absurd hcount (by decide)

/-- A publish and a takeover after the CONNACK. -/
def latePublish : List Label :=
  handshake 0 ++ [.routeLookup 0 (ascii "c") .publish, .routeSend 0 true] ++ handshake 1

theorem latePublish_orderly :
    Along step Orderly (init (fun _ => ascii "c") (fun _ => false)) latePublish := by
  simp only [latePublish, handshake, List.cons_append, List.nil_append]
  simp [Along, step, init, Orderly, EntryAcked, Phase.acked, State.phase, State.client,
    State.setPhase, State.modify, State.install, State.displace, State.register, send,
    State.enqueue, State.setWriter, resumes, update_apply]

theorem late_publish_keeps_connAck_order :
    ∃ st, exec step (init (fun _ => ascii "c") (fun _ => false)) latePublish = some st ∧
      (st.conns 0).queue = [⟨.connAck, .handshake 0⟩, ⟨.publish, .router⟩] ∧ AckFirst st :=
  exec_reaches (by decide +kernel) fun st hst _ =>
    ackFirst_of_orderly _ _ _ st latePublish_orderly hst

/-! ## A read loop answers its own connection -/

/-- Nothing a read loop sends or closes is another connection. -/
def OwnOnly (st : State) : Prop :=
  ∀ κ κ', κ' ≠ κ →
    (∀ item ∈ (st.conns κ').queue, item.origin ≠ .readLoop κ) ∧
      .readLoop κ ∉ (st.conns κ').finals ∧ .readLoop κ ∉ (st.conns κ').closedBy

/-- The condition on a step: a read loop looks its target up only while no newer
connection has taken its ClientID over. -/
def Unsuperseded (st : State) : Label → Prop
  | .respondLookup κ _ => ∀ κ', st.connections (st.client κ) = some κ' → κ' = κ
  | _ => True

structure Owned (st : State) : Prop where
  own : OwnOnly st
  target : ∀ κ σ t r, st.phase κ = .responding σ t r → t = κ

theorem Owned.move (h : Owned st) (ht : ∀ σ t r, p = .responding σ t r → t = κ) :
    Owned (st.setPhase κ p) := by
  constructor
  · intro κ₁ κ₂ hne
    obtain ⟨hq, hf, hc, -⟩ := st.conns_setPhase_logs κ κ₂ p
    rw [hq, hf, hc]
    exact h.own κ₁ κ₂ hne
  · intro κ' σ t r hp
    rw [State.phase_setPhase] at hp
    split_ifs at hp with he
    · rw [he]
      exact ht σ t r hp
    · exact h.target κ' σ t r hp

/-- Every log of `κ` grows, at most, by entries no other read loop made. -/
theorem Owned.modify (h : Owned st) {f : Conn → Conn}
    (hf : ∀ c, (f c).clientID = c.clientID ∧ (f c).phase = c.phase)
    (hq : ∀ item ∈ (f (st.conns κ)).queue,
      item ∈ (st.conns κ).queue ∨ ∀ κ' ≠ κ, item.origin ≠ .readLoop κ')
    (hfin : ∀ o ∈ (f (st.conns κ)).finals, o ∈ (st.conns κ).finals ∨ ∀ κ' ≠ κ, o ≠ .readLoop κ')
    (hcl : ∀ o ∈ (f (st.conns κ)).closedBy,
      o ∈ (st.conns κ).closedBy ∨ ∀ κ' ≠ κ, o ≠ .readLoop κ') : Owned (st.modify κ f) := by
  constructor
  · intro κ₁ κ₂ hne
    rw [State.conns_modify]
    split_ifs with he
    · subst he
      obtain ⟨oq, ofin, ocl⟩ := h.own κ₁ κ₂ hne
      refine ⟨fun item hi => ?_, fun hi => ?_, fun hi => ?_⟩
      · rcases hq item hi with hold | hnew
        · exact oq item hold
        · exact hnew κ₁ hne.symm
      · rcases hfin _ hi with hold | hnew
        · exact ofin hold
        · exact hnew κ₁ hne.symm rfl
      · rcases hcl _ hi with hold | hnew
        · exact ocl hold
        · exact hnew κ₁ hne.symm rfl
    · exact h.own κ₁ κ₂ hne
  · intro κ' σ t r hp
    rw [(logsOnly_modify st κ f hf).phase] at hp
    exact h.target κ' σ t r hp

theorem mem_snoc {α : Type} {P : α → Prop} {l : List α} {a : α} (ha : P a) :
    ∀ x ∈ l ++ [a], x ∈ l ∨ P x :=
  forall_mem_snoc (fun _ hx => Or.inl hx) (Or.inr ha)

theorem Owned.enqueue (h : Owned st) (ho : ∀ κ' ≠ κ, item.origin ≠ .readLoop κ') :
    Owned (st.enqueue κ item) := by
  exact h.modify (fun _ => ⟨rfl, rfl⟩) (mem_snoc ho) (fun o ho => Or.inl ho)
    (fun o ho => Or.inl ho)

theorem Owned.send (h : Owned st) {target : ConnID} (hs : send st target item placed = some st')
    (ho : ∀ κ' ≠ target, item.origin ≠ .readLoop κ') : Owned st' := by
  rcases send_cases hs with rfl | ⟨rfl, -⟩
  · exact h.enqueue ho
  · exact h

theorem not_other_readLoop (κ : ConnID) : ∀ κ' ≠ κ, Origin.readLoop κ ≠ .readLoop κ' := by
  rintro κ' hne ⟨⟩
  exact hne rfl

section

variable (h : Owned st)

include h

theorem Owned.act {response : Response} (ha : act st κ κ response placed = some st') :
    Owned st' := by
  unfold Connections.act at ha
  cases response with
  | packet kind => exact h.send ha (not_other_readLoop κ)
  | final =>
    split_ifs at ha
    · cases ha
      exact h.modify (fun _ => ⟨rfl, rfl⟩) (fun x hx => Or.inl hx)
        (mem_snoc (not_other_readLoop κ)) (fun o ho => Or.inl ho)
    · cases ha
      exact h
  | close =>
    cases ha
    exact h.modify (fun _ => ⟨rfl, rfl⟩) (fun x hx => Or.inl hx) (fun o ho => Or.inl ho)
      (mem_snoc (not_other_readLoop κ))

/-- Closing the displaced connection is the newcomer's doing, not a read loop's. -/
theorem Owned.displace (old : Option ConnID) (κ : ConnID) : Owned (st.displace old κ) := by
  cases old with
  | none => exact h
  | some o =>
    unfold State.displace
    exact h.modify (fun _ => ⟨rfl, rfl⟩) (fun x hx => Or.inl hx) (fun o ho => Or.inl ho)
      (mem_snoc (by simp))

theorem Owned.register (κ : ConnID) (σ : SessID) : Owned (st.register κ σ) := by
  have hm := (h.displace (st.connections (st.client κ)) κ).move (κ := κ)
    (p := .registered σ) (by simp)
  exact ⟨hm.own, hm.target⟩

theorem Owned.remove (κ : ConnID) : Owned (st.remove κ) := by
  constructor
  · intro κ₁ κ₂ hne
    rw [State.conns_remove]
    split_ifs with he
    · subst he
      exact h.own κ₁ κ₂ hne
    · exact h.own κ₁ κ₂ hne
  · intro κ' σ t r hp
    rw [State.phase_remove] at hp
    split_ifs at hp
    exact h.target κ' σ t r hp

theorem Owned.install (c : Str) : Owned (st.install c) := ⟨h.own, h.target⟩

theorem Owned.setWriter (w : ℕ) (pending : Option (ConnID × PacketType)) :
    Owned (st.setWriter w pending) :=
  ⟨h.own, h.target⟩

/-- **Step lemma.** A step whose lookups are not superseded keeps the invariant. -/
theorem Owned.step {l : Label} (hok : Unsuperseded st l)
    (hs : step st l = some st') : Owned st' := by
  cases stepped_of_step hs with
  | restore | create => exact (h.install _).move (by simp)
  | register hp => exact h.register _ _
  | connAckSend hp hsend => exact (h.send hsend (by simp)).move (by simp)
  | respondLost hp hc => exact h
  | respondLookup hp hk hc =>
    refine h.move ?_
    rintro σ t r ⟨⟩
    exact hok _ hc
  | respond hp ha =>
    obtain rfl := h.target _ _ _ _ hp
    exact (h.act ha).move (by simp)
  | removeOwn hp hc => exact h.remove _
  | routeLookup | routeDropped => exact h.setWriter _ _
  | routePlaced hw => exact (h.enqueue (by simp)).setWriter _ _
  -- the other steps only move the connection to a phase that answers nobody
  | _ => exact h.move (by simp)

end

/-- **In every run in which no superseded read loop looks a target up, read loops
write to, and close, their own connections only.** The takeover may still come
between the lookup and the act. -/
theorem ownOnly_of_unsuperseded (clientID : ConnID → Str) (clean : ConnID → Bool)
    (ls : List Label) (st : State) (hok : Along step Unsuperseded (init clientID clean) ls)
    (hrun : exec step (init clientID clean) ls = some st) : OwnOnly st :=
  (exec_invariant Owned (fun _ _ _ h hok hs => h.step hok hs)
    ⟨by simp [OwnOnly, init], by simp [init, State.phase]⟩ hok hrun).own

/-- Connection 0 has decoded a PINGREQ and an invalid packet when connection 1
takes its ClientID over. -/
def lateAnswer : List Label :=
  handshake 0 ++ handshake 1 ++
    [.respondLookup 0 (.packet .pingResp), .respond 0 true,
      .respondLookup 0 .final, .respond 0 true, .respondLookup 0 .close, .respond 0 true]

/-- The superseded read loop writes to the newer connection and closes it. -/
theorem late_answer_hits_newer_connection :
    ∃ st, exec step (init (fun _ => ascii "c") (fun _ => false)) lateAnswer = some st ∧
      st.connections (ascii "c") = some 1 ∧
      (st.conns 1).queue = [⟨.connAck, .handshake 1⟩, ⟨.pingResp, .readLoop 0⟩] ∧
      (st.conns 1).finals = [.readLoop 0] ∧ (st.conns 1).closedBy = [.readLoop 0] ∧
      ¬ OwnOnly st := by
  refine exec_reaches (by decide +kernel) fun st hst _ => ?_
  have hc : (st.conns 1).closedBy = [.readLoop 0] := of_exec hst (by decide +kernel)
  refine ⟨of_exec hst (by decide +kernel), of_exec hst (by decide +kernel), hc, fun h => ?_⟩
  refine (h 0 1 (by decide)).2.2 ?_
  rw [hc]
  exact List.mem_singleton.mpr rfl

/-- The takeover falls between the lookup of an answer and its send. -/
def earlyAnswer : List Label :=
  handshake 0 ++ [.respondLookup 0 (.packet .pingResp)] ++ handshake 1 ++ [.respond 0 true]

theorem earlyAnswer_unsuperseded :
    Along step Unsuperseded (init (fun _ => ascii "c") (fun _ => false)) earlyAnswer := by
  simp only [earlyAnswer, handshake, List.cons_append, List.nil_append]
  simp [Along, step, init, Unsuperseded, act, State.phase, State.client,
    State.setPhase, State.modify, State.install, State.displace, State.register, send,
    State.enqueue, resumes, update_apply]

theorem early_answer_stays_on_own_connection :
    ∃ st, exec step (init (fun _ => ascii "c") (fun _ => false)) earlyAnswer = some st ∧
      (st.conns 0).queue = [⟨.connAck, .handshake 0⟩, ⟨.pingResp, .readLoop 0⟩] ∧
      OwnOnly st :=
  exec_reaches (by decide +kernel) fun st hst _ =>
    ownOnly_of_unsuperseded _ _ _ st earlyAnswer_unsuperseded hst

end SharkMqtt.Broker.Connections
