import SharkMqtt.Broker.Teardown

/-!
# A routed message survives the teardown

The invariant behind `kept_of_safe`: for each place the routed message can be at,
what the goroutines and the stores look like. While the router holds it, nothing
else is claimed. Once it is handed over, it is found where `place` says, and a
message in flight moves with the session into the snapshot and from there into
the store.
-/

namespace SharkMqtt.Broker.Teardown

open Protocol Lib

variable {inp : Input}

/-! ## The invariant -/

/-- The delivery is one of the routed message, with QoS 1 or 2. -/
def Input.Sends (inp : Input) (msg : OutboundMsg) : Prop := msg.pkt = inp.pkt ∧ msg.deliverQoS > 0

/-- A `doDeliver` call at this point still holds its message. -/
def Progress.Carries (inp : Input) : Progress → Prop
  | .track entry => inp.IsCopy entry.topic entry.payload
  | .count => False
  | _ => True

def Router.Holds (inp : Input) : Router → Prop
  | .delivering msg p => inp.Sends msg ∧ p.Carries inp
  | .counting | .returned => False
  | _ => True

def Router.HandedOver : Router → Prop
  | .delivering _ .count | .counting | .returned => True
  | _ => False

def Router.queueing : Router → Bool
  | .offline _ | .limit _ | .storing _ => true
  | _ => false

def Reader.removed : Reader → Bool
  | .persisting | .persistStore _ | .persistCount | .closed => true
  | _ => false

def Reader.recorded : Reader → Bool
  | .removing => true
  | reader => reader.removed

/-- The snapshot holds the message under `id`. -/
def Input.SavedIn (inp : Input) (data : SessionData) (id : UInt16) : Prop :=
  ∃ m, data.inflight.lookup id = some m ∧ inp.IsCopy m.topic m.payload

/-- The message in flight under `id` is in the session, then in the snapshot, then
in the store. -/
def InRecord (inp : Input) (st : State) (id : UInt16) : Prop :=
  match st.reader with
  | .saved data => inp.SavedIn data id
  | .removing | .persisting | .persistStore _ | .persistCount | .closed =>
    ∃ data, st.stored = some data ∧ inp.SavedIn data id
  | _ => ∃ m, st.sess.inflight.lookup id = some m ∧ inp.IsCopy m.topic m.payload

def PlaceOk (inp : Input) (st : State) : Prop :=
  match st.place with
  | .router => st.router.Holds inp
  | .inflight id => st.router.HandedOver ∧ InRecord inp st id
  | .buffered k =>
    st.router.HandedOver ∧ st.reader ≠ .closed ∧
      ∃ msg, st.sess.outboundQueue[k]? = some msg ∧ inp.Sends msg
  | .flushing =>
    st.router.HandedOver ∧
      ∃ msg p, st.reader = .redelivering msg p ∧ inp.Sends msg ∧ p.Carries inp
  | .persisting => st.router.HandedOver ∧ ∃ msg, st.reader = .persistStore msg ∧ inp.Sends msg
  | .offline k => st.router.HandedOver ∧ ∃ m, st.offline[k]? = some m ∧ inp.IsCopy m.topic m.payload
  | .acked => st.router.HandedOver
  | .lost => False

structure Inv (inp : Input) (st : State) : Prop where
  routes : Routes inp st.sess
  removed : st.published = false → st.reader.removed = true
  recorded : st.reader.recorded = true → st.stored.isSome = true
  queueing : st.router.queueing = true → st.reader.removed = true
  place : PlaceOk inp st

theorem State.finished_iff (st : State) :
    st.finished = true ↔ st.router = .returned ∧ st.reader = .closed := by
  unfold State.finished
  split <;> simp_all

variable {st st' : State} {msg : OutboundMsg} {p : Progress} {now : ℕ} {r : Reader} {sess : Session}

/-- At the end the place of the message is one that keeps it. -/
theorem Inv.kept (h : Inv inp st) (hf : st.finished = true) : Kept inp st := by
  obtain ⟨hrouter, hreader⟩ := st.finished_iff.mp hf
  have hp := h.place
  unfold PlaceOk InRecord at hp
  rw [hrouter, hreader] at hp
  unfold Kept
  revert hp
  cases st.place with
  | router => exact False.elim
  | inflight id =>
    rintro ⟨-, data, hdata, m, hm, hcopy⟩
    exact ⟨data, m, hdata, hm, hcopy⟩
  | buffered k =>
    rintro ⟨-, hopen, -⟩
    exact (hopen rfl).elim
  | flushing => rintro ⟨-, msg, p, ⟨⟩, -⟩
  | persisting => rintro ⟨-, msg, ⟨⟩, -⟩
  | offline k => exact And.right
  | acked => exact fun _ => trivial
  | lost => exact id

theorem PlaceOk.of_router (hplace : st.place = .router) (hr : st.router.Holds inp) :
    PlaceOk inp st := by
  unfold PlaceOk
  rw [hplace]
  exact hr

section

variable (h : PlaceOk inp st)

include h

theorem PlaceOk.router_holds (hr : ¬ st.router.HandedOver) :
    st.place = .router ∧ st.router.Holds inp := by
  unfold PlaceOk at h
  revert h
  cases st.place with
  | router => exact fun h => ⟨rfl, h⟩
  | lost => exact False.elim
  | acked => exact fun h => (hr h).elim
  | _ => exact fun h => (hr h.1).elim

theorem PlaceOk.handedOver (hne : st.place ≠ .router) : st.router.HandedOver := by
  by_contra hr
  exact hne (h.router_holds hr).1

theorem PlaceOk.buffered_open {k : ℕ} (hplace : st.place = .buffered k) : st.reader ≠ .closed := by
  unfold PlaceOk at h
  simp only [hplace] at h
  exact h.2.1

theorem PlaceOk.flushing_reader (hplace : st.place = .flushing) :
    st.router.HandedOver ∧
      ∃ msg p, st.reader = .redelivering msg p ∧ inp.Sends msg ∧ p.Carries inp := by
  unfold PlaceOk at h
  simpa only [hplace] using h

theorem PlaceOk.persisting_reader (hplace : st.place = .persisting) :
    st.router.HandedOver ∧ ∃ msg, st.reader = .persistStore msg ∧ inp.Sends msg := by
  unfold PlaceOk at h
  simpa only [hplace] using h

/-- A step that does not move the message: what its place says stays true. -/
theorem PlaceOk.keep (hplace : st'.place = st.place)
    (hhold : st.router.Holds inp → st'.router.Holds inp)
    (hhand : st.router.HandedOver → st'.router.HandedOver)
    (hrecord : ∀ id, st.place = .inflight id → InRecord inp st id → InRecord inp st' id)
    (hqueue : ∀ (k : ℕ) msg, st.place = .buffered k → st.sess.outboundQueue[k]? = some msg →
      st'.sess.outboundQueue[k]? = some msg)
    (hopen : ∀ k, st.place = .buffered k → st'.reader ≠ .closed)
    (hflush : st.place ≠ .flushing ∨ st'.reader = st.reader)
    (hpersist : st.place ≠ .persisting ∨ st'.reader = st.reader)
    (hoffline : ∀ (k : ℕ) m, st.offline[k]? = some m → st'.offline[k]? = some m) :
    PlaceOk inp st' := by
  unfold PlaceOk at h ⊢
  rw [hplace]
  revert h
  cases hp : st.place with
  | router => exact hhold
  | inflight id => exact fun h => ⟨hhand h.1, hrecord id hp h.2⟩
  | buffered k =>
    rintro ⟨hr, -, msg, hmsg, hsend⟩
    exact ⟨hhand hr, hopen k hp, msg, hqueue k msg hp hmsg, hsend⟩
  | flushing =>
    rw [hflush.resolve_left (not_not.mpr hp)]
    exact fun h => ⟨hhand h.1, h.2⟩
  | persisting =>
    rw [hpersist.resolve_left (not_not.mpr hp)]
    exact fun h => ⟨hhand h.1, h.2⟩
  | offline k =>
    rintro ⟨hr, m, hm, hcopy⟩
    exact ⟨hhand hr, m, hoffline k m hm, hcopy⟩
  | acked => exact hhand
  | lost => exact id

variable {q : Reader} (hr : st.reader = q)

include hr

theorem PlaceOk.not_flushing (hq : ∀ msg p, q ≠ .redelivering msg p) : st.place ≠ .flushing := by
  intro hplace
  obtain ⟨-, msg, p, hreader, -⟩ := h.flushing_reader hplace
  exact hq msg p (hr.symm.trans hreader)

theorem PlaceOk.not_persisting (hq : ∀ msg, q ≠ .persistStore msg) : st.place ≠ .persisting := by
  intro hplace
  obtain ⟨-, msg, hreader, -⟩ := h.persisting_reader hplace
  exact hq msg (hr.symm.trans hreader)

/-- The step of the connection's goroutine leaves the message where it is. -/
theorem PlaceOk.reader_move (hplace : st'.place = st.place) (hrouter : st'.router = st.router)
    (hqueue : st'.sess.outboundQueue = st.sess.outboundQueue)
    (hoffline : st'.offline = st.offline) (hopen : st'.reader ≠ .closed)
    (hflush : ∀ msg p, q ≠ .redelivering msg p) (hpersist : ∀ msg, q ≠ .persistStore msg)
    (hrecord : ∀ id, st.place = .inflight id → InRecord inp st id → InRecord inp st' id) :
    PlaceOk inp st' := by
  refine h.keep hplace ?_ ?_ hrecord ?_ (fun _ _ => hopen) (Or.inl (h.not_flushing hr hflush))
    (Or.inl (h.not_persisting hr hpersist)) ?_
  · rw [hrouter]
    exact id
  · rw [hrouter]
    exact id
  · rw [hqueue]
    exact fun _ _ _ hm => hm
  · rw [hoffline]
    exact fun _ _ hm => hm

end

variable {id : UInt16} {q : Reader}

theorem inRecord_beforeSave (hr : st.reader = q) (hq : q.beforeSave = true) :
    InRecord inp st id ↔
      ∃ m, st.sess.inflight.lookup id = some m ∧ inp.IsCopy m.topic m.payload := by
  unfold InRecord
  rw [hr]
  cases q <;> first | rfl | cases hq

/-! ## The router -/

/-- A `doDeliver` step on the routed message: the call keeps it, or it is buffered or in
flight. -/
theorem deliver_ours {held : Place} (hplace : st.place = held) (hsend : inp.Sends msg)
    (hcarry : p.Carries inp)
    (hfound : p = .lookup → st.published = true ∧ expired msg.expiresAt now = false)
    (hroom : p = .buffer → st.sess.outboundQueue.length < maxBufferedOutbound) :
    ((st.deliver held msg now p).place = held ∧
      ∃ p', (deliverStep st.sess st.published msg now p).2 = some p' ∧ p'.Carries inp) ∨
    (p = .buffer ∧ (st.deliver held msg now p).place = .buffered st.sess.outboundQueue.length ∧
      deliverStep st.sess st.published msg now p =
        ({ st.sess with outboundQueue := st.sess.outboundQueue ++ [msg] }, none)) ∨
    ∃ entry, p = .track entry ∧
      (st.deliver held msg now p).place = .inflight entry.packetID := by
  obtain ⟨hpkt, hqos⟩ := hsend
  unfold State.deliver
  simp only [if_pos hplace]
  cases p with
  | lookup =>
    obtain ⟨hpub, hlive⟩ := hfound rfl
    simp [deliverPlace, deliverStep, hpub, hlive, Progress.Carries]
  | window =>
    cases hcan : st.sess.canSendOutbound <;>
      simp [deliverPlace, deliverStep, hqos, hcan, Progress.Carries]
  | buffer => simp [deliverPlace, deliverStep, Session.bufferOutbound, Nat.not_le.mpr (hroom rfl)]
  | number =>
    simp [deliverPlace, deliverStep, Progress.Carries, Session.inflightOf, Input.IsCopy, hpkt]
  | track entry => exact Or.inr (Or.inr ⟨entry, rfl, rfl⟩)
  | count => exact hcarry.elim

theorem Inv.router_deliver (h : Inv inp st) (hr : st.router = .delivering msg p)
    (hok : Safe inp st (.route now)) :
    Inv inp { st.deliver .router msg now p with
      router := (deliverStep st.sess st.published msg now p).2.elim .returned (.delivering msg) } := by
  have hroutes := h.routes.congr (sameRouting_deliverStep st.sess st.published msg now p)
  refine ⟨hroutes, h.removed, h.recorded, ?_, ?_⟩
  · intro hq
    cases hn : (deliverStep st.sess st.published msg now p).2 with
    | none | some =>
      simp only [hn] at hq
      cases hq
  simp only [Safe, hr] at hok
  by_cases hcount : p = .count
  · -- the message is handed over already
    subst hcount
    have hne : st.place ≠ .router := by
      intro hplace
      have hplaceOk := h.place
      unfold PlaceOk at hplaceOk
      simp only [hplace, hr, Router.Holds, Progress.Carries, and_false] at hplaceOk
    refine h.place.keep ?_ ?_ (fun _ => trivial) ?_ (fun _ _ _ hm => hm) ?_ (Or.inr rfl) (Or.inr rfl)
      (fun _ _ hm => hm)
    · simp only [State.deliver, if_neg hne, otherPlace]
    · intro hhold
      simp only [hr, Router.Holds, Progress.Carries, and_false] at hhold
    · intro id _ hrec
      exact hrec
    · intro k hplace
      exact h.place.buffered_open hplace
  · have hnot : ¬ st.router.HandedOver := by
      cases p <;> simp_all [Router.HandedOver]
    obtain ⟨hplace, hhold⟩ := h.place.router_holds hnot
    rw [hr] at hhold
    obtain ⟨hsend, hcarry⟩ := hhold
    have hfound : p = .lookup → st.published = true ∧ expired msg.expiresAt now = false := by
      rintro rfl
      exact hok
    have hroom : p = .buffer → st.sess.outboundQueue.length < maxBufferedOutbound := by
      rintro rfl
      exact hok.1
    obtain ⟨hkept, p', hnext, hcarry'⟩ | ⟨rfl, hbuffered, hnext⟩ | ⟨entry, rfl, hflight⟩ :=
      deliver_ours hplace hsend hcarry hfound hroom
    · refine PlaceOk.of_router hkept ?_
      simp only [hnext]
      exact ⟨hsend, hcarry'⟩
    · unfold PlaceOk
      simp only [hbuffered]
      simp only [State.deliver, hnext]
      exact ⟨trivial, hok.2, msg, by simp, hsend⟩
    · unfold PlaceOk
      simp only [hflight]
      exact ⟨trivial, (inRecord_beforeSave rfl (by exact hok)).mpr
        ⟨entry, (Keyed.lookup_insert _ _ _).trans (if_pos rfl), hcarry⟩⟩

theorem Inv.router_move {q r : Router} (h : Inv inp st) (hr : st.router = q) (hq : ¬ q.HandedOver)
    (hhold : r.Holds inp) (hqueue : r.queueing = true → st.reader.removed = true) :
    Inv inp { st with router := r } :=
  ⟨h.routes, h.removed, h.recorded, hqueue,
    PlaceOk.of_router (h.place.router_holds (hr ▸ hq)).1 hhold⟩

theorem Inv.router_step (h : Inv inp st) (hok : Safe inp st (.route now))
    (hs : routerStep inp st now = some st') : Inv inp st' := by
  unfold routerStep at hs
  revert hs
  cases hr : st.router with
  | start =>
    dsimp only
    split_ifs with hpub
    · rintro ⟨⟩
      exact h.router_move hr id trivial (by simp [Router.queueing])
    · rintro ⟨⟩
      exact h.router_move hr id trivial fun _ => h.removed (by simpa using hpub)
  | found =>
    obtain ⟨msg, hmsg, hqos⟩ := h.routes.routed now
    simp only [hmsg]
    rintro ⟨⟩
    refine h.router_move hr id ?_ (by simp [Router.queueing])
    exact ⟨⟨routedMsg_pkt hmsg, hqos⟩, trivial⟩
  | delivering msg p =>
    rintro ⟨⟩
    exact h.router_deliver hr hok
  | offline expiresAt =>
    have hrem : st.reader.removed = true := h.queueing (by rw [hr]; rfl)
    have hrec : st.reader.recorded = true := by
      unfold Reader.recorded
      cases hrd : st.reader <;> simp_all
    simp only [Safe, hr] at hok
    dsimp only
    split
    next hnone => exact absurd (h.recorded hrec) (by simp [hnone])
    next data hdata =>
      rw [hok data hdata]
      rintro ⟨⟩
      exact h.router_move hr id trivial fun _ => hrem
  | limit expiresAt =>
    simp only [Safe, hr] at hok
    have hrem : st.reader.removed = true := h.queueing (by rw [hr]; rfl)
    have hroom : ¬ (inp.maxOfflineQueue > 0 ∧ st.offlineCount ≥ inp.maxOfflineQueue) := by omega
    simp only [if_neg hroom]
    rintro ⟨⟩
    exact h.router_move hr id trivial fun _ => hrem
  | storing expiresAt =>
    rintro ⟨⟩
    refine ⟨h.routes, h.removed, h.recorded, by simp [Router.queueing], ?_⟩
    exact ⟨trivial, _, List.getElem?_concat_length, rfl, rfl⟩
  | counting =>
    rintro ⟨⟩
    refine ⟨h.routes, h.removed, h.recorded, by simp [Router.queueing], ?_⟩
    refine h.place.keep rfl ?_ (fun _ => trivial) (fun _ _ hrec => hrec) (fun _ _ _ hm => hm) ?_
      (Or.inr rfl) (Or.inr rfl) (fun _ _ hm => hm)
    · rw [hr]
      exact False.elim
    · intro k hplace
      exact h.place.buffered_open hplace
  | returned => rintro ⟨⟩

/-! ## The connection's goroutine -/

theorem inRecord_recorded (hr : st.reader = q) (hq : q.recorded = true) :
    InRecord inp st id ↔ ∃ data, st.stored = some data ∧ inp.SavedIn data id := by
  unfold InRecord
  rw [hr]
  cases q <;> first | rfl | cases hq

theorem not_removed_of_beforeSave (h : r.beforeSave = true) : r.removed = false := by
  cases r <;> first | rfl | cases h

theorem inRecord_reading (hr : st.reader = q) (hq : q.beforeSave = true)
    (hafter : st'.reader.beforeSave = true)
    (hlookup : st'.sess.inflight.lookup id = st.sess.inflight.lookup id)
    (h : InRecord inp st id) : InRecord inp st' id := by
  rw [inRecord_beforeSave hr hq] at h
  rw [inRecord_beforeSave rfl hafter, hlookup]
  exact h

theorem PlaceOk.pop (h : PlaceOk inp st) (hpop : st.sess.popOutbound = some (msg, sess))
    {popped : Place} (hne : st.place ≠ .flushing ∧ st.place ≠ .persisting)
    (hrec : ∀ id, InRecord inp st id →
      InRecord inp { st with sess := sess, place := popPlace popped st.place, reader := r } id)
    (hopen : r ≠ .closed) (hours : st.router.HandedOver → inp.Sends msg →
      PlaceOk inp { st with sess := sess, place := popped, reader := r }) :
    PlaceOk inp { st with sess := sess, place := popPlace popped st.place, reader := r } := by
  obtain ⟨hqueue, -, -⟩ := popOutbound_eq_some hpop
  by_cases hbuf : ∃ k, st.place = .buffered k
  · obtain ⟨k, hp⟩ := hbuf
    unfold PlaceOk at h
    simp only [hp] at h
    obtain ⟨hhand, -, m, hm, hsend⟩ := h
    rw [hqueue] at hm
    cases k with
    | zero =>
      -- the popped message is the routed one
      rw [List.getElem?_cons_zero, Option.some.injEq] at hm
      subst hm
      rw [hp]
      exact hours hhand hsend
    | succ k =>
      rw [hp]
      exact ⟨hhand, hopen, m, hm, hsend⟩
  · have hsame : popPlace popped st.place = st.place := by
      cases hp : st.place with
      | buffered k => exact absurd ⟨k, hp⟩ hbuf
      | _ => rfl
    exact h.keep hsame (fun hh => hh) (fun hh => hh) (fun id _ hr => hrec id hr)
      (fun k _ hp => absurd ⟨k, hp⟩ hbuf) (fun k hp => absurd ⟨k, hp⟩ hbuf) (Or.inl hne.1)
      (Or.inl hne.2) (fun _ _ hm => hm)

variable {s : Session}

theorem deliverStep_outboundQueue {published : Bool} (p : Progress) {k : ℕ} {m : OutboundMsg}
    (h : s.outboundQueue[k]? = some m) :
    (deliverStep s published msg now p).1.outboundQueue[k]? = some m := by
  cases p with
  | lookup | window =>
    unfold deliverStep
    split_ifs <;> exact h
  | buffer =>
    simp only [deliverStep, Session.bufferOutbound]
    split_ifs
    · exact h
    · exact (List.getElem?_append_left (List.getElem?_eq_some_iff.mp h).1).trans h
  | number | track | count => exact h

theorem deliverStep_inflight {published : Bool}
    (h : ∀ entry, p = .track entry → id ≠ entry.packetID) :
    (deliverStep s published msg now p).1.inflight.lookup id = s.inflight.lookup id := by
  cases p with
  | track entry => exact (Keyed.lookup_insert _ _ _).trans (if_neg (h entry rfl))
  | number | count => rfl
  | _ =>
    simp only [deliverStep, Session.bufferOutbound]
    split_ifs <;> rfl

theorem inRecord_persist (hr : st.reader = q) (hq : q.recorded = true)
    (hafter : st'.reader.recorded = true) (hstored : st'.stored = st.stored)
    (h : InRecord inp st id) : InRecord inp st' id := by
  rw [inRecord_recorded hr hq] at h
  rw [inRecord_recorded rfl hafter, hstored]
  exact h

theorem savedIn_save (h : ∃ m, s.inflight.lookup id = some m ∧ inp.IsCopy m.topic m.payload) :
    inp.SavedIn (s.save now) id := by
  obtain ⟨m, hm, hcopy⟩ := h
  refine ⟨m.store, ?_, hcopy⟩
  refine (Keyed.lookup_map s.inflight _ InflightMsg.store (fun _ => rfl) id).trans ?_
  rw [hm]
  rfl

section

variable (h : Inv inp st)

include h

/-- The session part of the invariant across a step before `RemoveSession`. -/
theorem Inv.of_not_removed (hr : st.reader = q) (hq : q.removed = false)
    (hsess : SameRouting st.sess st'.sess) (hpub : st'.published = st.published)
    (hrouter : st'.router = st.router)
    (hrec : st'.reader.recorded = true → st'.stored.isSome = true) (hplace : PlaceOk inp st') :
    Inv inp st' := by
  subst hr
  refine ⟨h.routes.congr hsess, ?_, hrec, ?_, hplace⟩
  · intro hp
    cases hq.symm.trans (h.removed (hpub ▸ hp))
  · intro hqueue
    cases hq.symm.trans (h.queueing (hrouter ▸ hqueue))

theorem Inv.of_beforeSave (hr : st.reader = q) (hq : q.beforeSave = true)
    (hsess : SameRouting st.sess st'.sess) (hpub : st'.published = st.published)
    (hrouter : st'.router = st.router) (hafter : st'.reader.beforeSave = true)
    (hplace : PlaceOk inp st') : Inv inp st' := by
  refine h.of_not_removed hr (not_removed_of_beforeSave hq) hsess hpub hrouter ?_ hplace
  cases hr' : st'.reader <;> simp_all [Reader.recorded, Reader.removed, Reader.beforeSave]

/-- A step of the read loop that changes neither `Inflight` nor the buffer. -/
theorem Inv.reading_move (hr : st.reader = q) (hq : q.beforeSave = true)
    (hsess : SameRouting st.sess sess) (hinflight : sess.inflight = st.sess.inflight)
    (hqueue : sess.outboundQueue = st.sess.outboundQueue) (hafter : r.beforeSave = true)
    (hflush : ∀ msg p, q ≠ .redelivering msg p) :
    Inv inp { st with sess := sess, reader := r } := by
  refine h.of_beforeSave hr hq hsess rfl rfl hafter ?_
  refine h.place.reader_move hr rfl rfl hqueue rfl ?_ hflush ?_ ?_
  · rintro rfl
    cases hafter
  · rintro msg rfl
    cases hq
  · exact fun id _ => inRecord_reading hr hq hafter (by simp only [hinflight])

theorem Inv.ack (hr : st.reader = .reading) (id : UInt16) :
    Inv inp { st with
      sess := (st.sess.removeInflight id).2
      place := if st.place = .inflight id then .acked else st.place
      reader := .settled (st.sess.removeInflight id).1 } := by
  refine h.of_beforeSave hr rfl (sameRouting_removeInflight st.sess id) rfl rfl rfl ?_
  by_cases hp : st.place = .inflight id
  · simp only [hp, if_true]
    exact h.place.handedOver (by simp [hp])
  · refine h.place.reader_move hr (if_neg hp) rfl ?_ rfl (by simp) (by simp) (by simp) ?_
    · unfold Session.removeInflight
      split_ifs <;> rfl
    · intro id' hplace
      have hne : id' ≠ id := by
        rintro rfl
        exact hp hplace
      -- erasing another identifier
      refine inRecord_reading hr rfl rfl ?_
      unfold Session.removeInflight
      split_ifs
      · simp [Keyed.lookup_erase, hne]
      · rfl

theorem Inv.pubRec (hr : st.reader = .reading) (id : UInt16) :
    Inv inp { st with sess := st.sess.markInflightPubRel id } := by
  obtain ⟨table, heq, -, hlookup⟩ := st.sess.markInflightPubRel_eq id
  rw [heq]
  refine h.of_beforeSave hr rfl ⟨rfl, rfl, rfl, rfl⟩ rfl rfl (by rw [hr]; rfl) ?_
  refine h.place.reader_move hr rfl rfl rfl rfl (by simp [hr]) (by simp) (by simp) ?_
  intro id' _ hrec
  rw [inRecord_beforeSave hr rfl] at hrec
  rw [inRecord_beforeSave (by exact hr) rfl]
  obtain ⟨m, hm, hcopy⟩ := hrec
  refine ⟨_, (hlookup id').trans (by rw [hm, Option.map_some]), ?_⟩
  split_ifs <;> exact hcopy

theorem Inv.flush_ours (hr : st.reader = .redelivering msg p)
    (hok : Safe inp st (.reader now)) (hplace : st.place = .flushing) :
    PlaceOk inp { st.deliver .flushing msg now p with
      reader := (deliverStep st.sess st.published msg now p).2.elim .flushing
        (.redelivering msg) } := by
  obtain ⟨hhand, msg', p', hr', hsend, hcarry⟩ := h.place.flushing_reader hplace
  rw [hr] at hr'
  cases hr'
  have hpub : st.published = true := by
    by_contra hne
    have hrem := h.removed (by simpa using hne)
    rw [hr] at hrem
    cases hrem
  simp only [Safe, hr] at hok
  have hfound : p = .lookup → st.published = true ∧ expired msg.expiresAt now = false := by
    rintro rfl
    exact ⟨hpub, hok hplace⟩
  have hroom : p = .buffer → st.sess.outboundQueue.length < maxBufferedOutbound := by
    rintro rfl
    exact hok hplace
  obtain ⟨hkept, p', hnext, hcarry'⟩ | ⟨rfl, hbuffered, hnext⟩ | ⟨entry, rfl, hflight⟩ :=
    deliver_ours hplace hsend hcarry hfound hroom
  · unfold PlaceOk
    simp only [hkept, hnext]
    exact ⟨hhand, msg, p', rfl, hsend, hcarry'⟩
  · unfold PlaceOk
    simp only [hbuffered]
    simp only [State.deliver, hnext]
    exact ⟨hhand, by simp, msg, by simp, hsend⟩
  · unfold PlaceOk
    simp only [hflight]
    exact ⟨hhand, entry, (Keyed.lookup_insert _ _ _).trans (if_pos rfl), hcarry⟩

theorem Inv.flush_other (hr : st.reader = .redelivering msg p)
    (hok : Safe inp st (.reader now)) (hplace : st.place ≠ .flushing)
    (hafter : r.beforeSave = true) :
    PlaceOk inp { st.deliver .flushing msg now p with reader := r } := by
  simp only [Safe, hr] at hok
  have htrack : ∀ entry, p = .track entry → st.place ≠ .inflight entry.packetID := by
    rintro entry rfl
    exact hok
  have hother : otherPlace st.place p = st.place := by
    cases p with
    | track entry => exact if_neg (htrack entry rfl)
    | _ => rfl
  refine h.place.keep ?_ (fun hh => hh) (fun hh => hh) ?_ ?_ ?_ (Or.inl hplace)
    (Or.inl (h.place.not_persisting hr (by simp))) (fun _ _ hm => hm)
  · simp only [State.deliver, if_neg hplace, hother]
  · intro id hid
    refine inRecord_reading hr rfl hafter (deliverStep_inflight ?_)
    rintro entry hp rfl
    exact htrack entry hp hid
  · intro k m _ hm
    exact deliverStep_outboundQueue p hm
  · rintro k - hclosed
    simp only at hclosed
    rw [hclosed] at hafter
    cases hafter

/-- A step of the teardown after `SaveSession` that leaves the store's record. -/
theorem Inv.persist_move (hr : st.reader = q) (hq : q.recorded = true)
    (hsess : SameRouting st.sess st'.sess) (hstored : st'.stored = st.stored)
    (hafter : st'.reader.removed = true) (hplace : PlaceOk inp st') : Inv inp st' := by
  subst hr
  refine ⟨h.routes.congr hsess, fun _ => hafter, ?_, fun _ => hafter, hplace⟩
  intro _
  rw [hstored]
  exact h.recorded hq

theorem Inv.settled_step {removed : Bool} (hr : st.reader = .settled removed)
    (hs : readerStep st now = some st') : Inv inp st' := by
  simp only [readerStep, hr, Option.some.injEq] at hs
  subst hs
  refine h.reading_move hr rfl ?_ ?_ ?_ rfl (by simp)
  · split_ifs
    · exact ⟨rfl, rfl, rfl, rfl⟩
    · exact SameRouting.refl _
  · split_ifs <;> rfl
  · split_ifs <;> rfl

theorem Inv.flushPop_step (hr : st.reader = .flushPop) (hs : readerStep st now = some st') :
    Inv inp st' := by
  simp only [readerStep, hr] at hs
  split at hs
  · cases hs
    exact h.reading_move hr rfl (SameRouting.refl _) rfl rfl rfl (by simp)
  next msg sess hpop =>
    cases hs
    obtain ⟨-, hinflight, hsame⟩ := popOutbound_eq_some hpop
    refine h.of_beforeSave hr rfl hsame rfl rfl rfl (h.place.pop hpop ?_ ?_ (by simp) ?_)
    · exact ⟨h.place.not_flushing hr (by simp), h.place.not_persisting hr (by simp)⟩
    · exact fun id => inRecord_reading hr rfl rfl (by simp only [hinflight])
    · intro hhand hsend
      exact ⟨hhand, msg, .lookup, rfl, hsend, trivial⟩

theorem Inv.redelivering_step (hr : st.reader = .redelivering msg p)
    (hok : Safe inp st (.reader now)) (hs : readerStep st now = some st') : Inv inp st' := by
  simp only [readerStep, hr, Option.some.injEq] at hs
  subst hs
  have hafter : ((deliverStep st.sess st.published msg now p).2.elim Reader.flushing
      (.redelivering msg)).beforeSave = true := by
    cases (deliverStep st.sess st.published msg now p).2 <;> rfl
  refine h.of_beforeSave hr rfl (sameRouting_deliverStep _ _ _ _ _) rfl rfl hafter ?_
  by_cases hplace : st.place = .flushing
  · exact h.flush_ours hr hok hplace
  · exact h.flush_other hr hok hplace hafter

theorem Inv.saving_step (hr : st.reader = .saving) (hs : readerStep st now = some st') :
    Inv inp st' := by
  simp only [readerStep, hr, if_pos h.routes.persistent, Option.some.injEq] at hs
  subst hs
  refine h.of_not_removed hr rfl (SameRouting.refl _) rfl rfl
    (by simp [Reader.recorded, Reader.removed]) ?_
  refine h.place.reader_move hr rfl rfl rfl rfl (by simp) (by simp) (by simp) ?_
  intro id _ hrec
  rw [inRecord_beforeSave hr rfl] at hrec
  exact savedIn_save hrec

theorem Inv.saved_step {data : SessionData} (hr : st.reader = .saved data)
    (hs : readerStep st now = some st') : Inv inp st' := by
  simp only [readerStep, hr, Option.some.injEq] at hs
  subst hs
  refine h.of_not_removed hr rfl (SameRouting.refl _) rfl rfl (fun _ => rfl) ?_
  refine h.place.reader_move hr rfl rfl rfl rfl (by simp) (by simp) (by simp) ?_
  intro id _ hrec
  unfold InRecord at hrec
  rw [hr] at hrec
  exact ⟨data, rfl, hrec⟩

theorem Inv.persisting_step (hr : st.reader = .persisting) (hs : readerStep st now = some st') :
    Inv inp st' := by
  have hflush := h.place.not_flushing hr (by simp)
  have hpersist := h.place.not_persisting hr (by simp)
  simp only [readerStep, hr] at hs
  split at hs
  next hpop =>
    -- the buffer is drained, so the message is not in it
    have hempty := popOutbound_eq_none hpop
    cases hs
    refine h.persist_move hr rfl (SameRouting.refl _) rfl rfl ?_
    refine h.place.keep rfl (fun hh => hh) (fun hh => hh)
      (fun id _ => inRecord_persist hr rfl rfl rfl) (fun _ _ _ hm => hm) ?_ (Or.inl hflush)
      (Or.inl hpersist) (fun _ _ hm => hm)
    intro k hplace
    have hbuf := h.place
    unfold PlaceOk at hbuf
    simp only [hplace, hempty, List.getElem?_nil] at hbuf
    obtain ⟨-, -, msg, hm, -⟩ := hbuf
    cases hm
  next msg sess hpop =>
    cases hs
    obtain ⟨-, -, hsame⟩ := popOutbound_eq_some hpop
    refine h.persist_move hr rfl hsame rfl rfl
      (h.place.pop hpop ⟨hflush, hpersist⟩ ?_ (by simp) ?_)
    · exact fun id => inRecord_persist hr rfl rfl rfl
    · intro hhand hsend
      exact ⟨hhand, msg, rfl, hsend⟩

theorem Inv.persistStore_step (hr : st.reader = .persistStore msg)
    (hs : readerStep st now = some st') : Inv inp st' := by
  simp only [readerStep, hr, Option.some.injEq] at hs
  subst hs
  refine h.persist_move hr rfl (SameRouting.refl _) rfl rfl ?_
  by_cases hplace : st.place = .persisting
  · obtain ⟨hhand, msg', hr', hpkt, -⟩ := h.place.persisting_reader hplace
    cases hr.symm.trans hr'
    simp only [hplace, if_true]
    exact ⟨hhand, _, List.getElem?_concat_length, by rw [hpkt], by rw [hpkt]⟩
  · exact h.place.keep (if_neg hplace) (fun hh => hh) (fun hh => hh)
      (fun id _ => inRecord_persist hr rfl rfl rfl) (fun _ _ _ hm => hm) (by simp)
      (Or.inl (h.place.not_flushing hr (by simp))) (Or.inl hplace)
      (fun _ _ hm => (List.getElem?_append_left (List.getElem?_eq_some_iff.mp hm).1).trans hm)

theorem Inv.reader_step (hok : Safe inp st (.reader now))
    (hs : readerStep st now = some st') : Inv inp st' := by
  cases hr : st.reader with
  | settled removed => exact h.settled_step hr hs
  | flushPop => exact h.flushPop_step hr hs
  | redelivering msg p => exact h.redelivering_step hr hok hs
  | saving => exact h.saving_step hr hs
  | saved data => exact h.saved_step hr hs
  | persisting => exact h.persisting_step hr hs
  | persistStore msg => exact h.persistStore_step hr hs
  | reading | closed => simp [readerStep, hr] at hs
  | flushing | flushWindow =>
    simp only [readerStep, hr, Option.some.injEq] at hs
    subst hs
    refine h.reading_move hr rfl (SameRouting.refl _) rfl rfl ?_ (by simp)
    split_ifs <;> rfl
  | removing | persistCount =>
    simp only [readerStep, hr, if_pos h.routes.persistent, Option.some.injEq] at hs
    subst hs
    refine h.persist_move hr rfl ⟨rfl, rfl, rfl, rfl⟩ rfl rfl ?_
    exact h.place.reader_move hr rfl rfl rfl rfl (by simp) (by simp) (by simp)
      (fun id _ => inRecord_persist hr rfl rfl rfl)

end

/-! ## Whole runs -/

theorem inv_init (h : Routes inp sess) (stored : Option SessionData)
    (offline : List StoredMessage) (offlineCount : ℕ) :
    Inv inp (init sess stored offline offlineCount) :=
  ⟨h, by simp [init], by simp [init, Reader.recorded, Reader.removed],
    by simp [init, Router.queueing], PlaceOk.of_router rfl trivial⟩

theorem Inv.step {l : Label} (h : Inv inp st) (hok : Safe inp st l)
    (hs : step inp st l = some st') : Inv inp st' := by
  cases l with
  | route now => exact h.router_step hok hs
  | ack id =>
    simp only [Teardown.step] at hs
    split at hs
    · cases hs
      exact h.ack ‹_› id
    · cases hs
  | pubRec id =>
    simp only [Teardown.step] at hs
    split at hs
    · cases hs
      exact h.pubRec ‹_› id
    · cases hs
  | reader now => exact h.reader_step hok hs
  | leave =>
    simp only [Teardown.step] at hs
    split at hs
    next hr =>
      cases hs
      exact h.reading_move hr rfl (SameRouting.refl _) rfl rfl rfl (by simp)
    · cases hs

/-- **In every safe run, when the routing and the teardown have both finished, the
message was acknowledged or is in the stored session or in the stored offline
queue**, whatever the session and the stores held before. -/
theorem kept_of_safe (inp : Input) (sess : Session) (hroutes : Routes inp sess)
    (stored : Option SessionData) (offline : List StoredMessage) (offlineCount : ℕ)
    (ls : List Label) (st : State)
    (hok : Along (step inp) (Safe inp) (init sess stored offline offlineCount) ls)
    (hrun : exec (step inp) (init sess stored offline offlineCount) ls = some st)
    (hf : st.finished = true) : Kept inp st :=
  (exec_invariant (Inv inp) (fun _ _ _ h hok hs => h.step hok hs)
    (inv_init hroutes stored offline offlineCount) hok hrun).kept hf

/-! ## The three windows -/

def toC : Input where
  pkt := { fixedHeader := { packetType := .publish, qos := 1 }, topic := ascii "a" }
  source := ascii "p"
  maxOfflineQueue := 0

/-- A subscriber of `a` whose session outlives its connection. -/
def subscriber : Session where
  clientID := ascii "c"
  expiryInterval := 3600
  subscriptions := AList.singleton (ascii "a") 1

/-- The same with its window of one used up. -/
def busySubscriber : Session :=
  { subscriber with
    inflight := Keyed.insert ∅ ⟨7, 1, ascii "a", [], false, none, none, false⟩
    outboundWindow := 1
    outboundUnacked := 1 }

def teardown : List Label := [.leave, .reader 0, .reader 0, .reader 0, .reader 0]

/-- The entry is added after the snapshot of `Save`. -/
def lateEntry : List Label :=
  [.route 0, .route 0, .route 0, .route 0, .route 0] ++ teardown ++ [.route 0, .route 0]

/-- The second lookup comes after the removal. -/
def lateLookup : List Label := [.route 0, .route 0] ++ teardown ++ [.route 0]

/-- The message is buffered after the buffer was drained. -/
def lateBuffer : List Label := [.route 0, .route 0, .route 0, .route 0] ++ teardown ++ [.route 0]

/-- A run at whose end the message is where `Kept` does not find it. -/
theorem loses_of_end {ls : List Label} (place : Place) {n : ℕ}
    (hrun : (exec (step toC) (init sess none [] 0) ls).map (fun st =>
        (st.finished, st.offline.length, st.place, st.stored.map fun data => data.inflight.size)) =
      some (true, 0, place, some n)) (hlost : ∀ st : State, st.place = place →
      st.stored.map (fun data => data.inflight.size) = some n → ¬ Kept toC st) :
    ∃ st, exec (step toC) (init sess none [] 0) ls = some st ∧
      st.finished = true ∧ st.offline.length = 0 ∧
      st.stored.map (fun data => data.inflight.size) = some n ∧ ¬ Kept toC st := by
  obtain ⟨st, hst, hend⟩ := Option.map_eq_some_iff.mp hrun
  simp only [Prod.mk.injEq] at hend
  obtain ⟨hf, hoffline, hplace, hstored⟩ := hend
  exact ⟨st, hst, hf, hoffline, hstored, hlost st hplace hstored⟩

theorem teardown_windows_lose_message :
    (∃ st, exec (step toC) (init subscriber none [] 0) lateEntry = some st ∧
      st.finished = true ∧ st.offline.length = 0 ∧
      st.stored.map (fun data => data.inflight.size) = some 0 ∧ ¬ Kept toC st) ∧
    (∃ st, exec (step toC) (init subscriber none [] 0) lateLookup = some st ∧
      st.finished = true ∧ st.offline.length = 0 ∧
      st.stored.map (fun data => data.inflight.size) = some 0 ∧ ¬ Kept toC st) ∧
    (∃ st, exec (step toC) (init busySubscriber none [] 0) lateBuffer = some st ∧
      st.finished = true ∧ st.offline.length = 0 ∧
      st.stored.map (fun data => data.inflight.size) = some 1 ∧ ¬ Kept toC st) := by
  refine ⟨?_, ?_, ?_⟩
  · apply loses_of_end (.inflight 1) (by decide +kernel)
    intro st hplace hstored hk
    unfold Kept at hk
    simp only [hplace] at hk
    obtain ⟨data, m, hdata, hm, -⟩ := hk
    rw [hdata, Option.map_some, Option.some.injEq] at hstored
    have hpos : 0 < data.inflight.size := Keyed.size_pos_of_lookup (k := 1) (by rw [hm]; rfl)
    omega
  · apply loses_of_end .lost (by decide +kernel)
    intro st hplace _ hk
    unfold Kept at hk
    simp only [hplace] at hk
  · apply loses_of_end (.buffered 0) (by decide +kernel)
    intro st hplace _ hk
    unfold Kept at hk
    simp only [hplace] at hk

def earlyEntry : List Label :=
  [.route 0, .route 0, .route 0, .route 0, .route 0, .route 0, .route 0] ++ teardown

theorem toC_routes : Routes toC subscriber := by
  refine ⟨by decide, fun now => ⟨_, rfl, ?_⟩⟩
  exact Nat.one_pos

theorem earlyEntry_safe : Along (step toC) (Safe toC) (init subscriber none [] 0) earlyEntry := by
  exact ⟨trivial, trivial, ⟨rfl, rfl⟩, trivial, trivial, rfl, trivial, trivial, trivial, trivial,
    trivial, trivial, trivial⟩

theorem early_entry_is_saved :
    ∃ st, exec (step toC) (init subscriber none [] 0) earlyEntry = some st ∧
      st.place = .inflight 1 ∧ Kept toC st :=
  exec_reaches (by decide +kernel) fun st hst _ =>
    kept_of_safe toC subscriber toC_routes none [] 0 _ st earlyEntry_safe hst
      (of_exec hst (by decide +kernel))

end SharkMqtt.Broker.Teardown
