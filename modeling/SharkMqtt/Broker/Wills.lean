import Mathlib.Data.List.Perm.Subperm
import SharkMqtt.Lib.Counted
import SharkMqtt.Lib.Runs
import SharkMqtt.Protocol.Packets

/-!
# Last wills

`broker/will_handler.go`: two maps under one lock, the registered wills and the
cancel functions of those that wait out their delay, and one goroutine for each that
waits. A method is one step, its section under the lock; the call of the publish
callback comes later, outside the lock, and so do the two ends of a waiting goroutine.
`select` may take the timer although the context is cancelled already.

A will is a pointer: `RegisterWill` allocates one, and the goroutine compares pointers
before it publishes. Here a registration has a number, its place in `registered`.

Each registration is claimed at most once, by the step that takes it out of `wills`,
and one that is taken out otherwise is gone for good (`published_at_most_once`).
-/

namespace SharkMqtt.Broker.Wills

open Protocol Lib Function

/-! ## The handler -/

structure WillMessage where
  clientID : Str
  username : Str := []
  topic : Str
  payload : Bytes := []
  qos : UInt8 := 0
  retain : Bool := false
  properties : Option Properties := none
  /-- A `time.Duration`. -/
  delay : ℤ := 0
  conn : Option ℕ := none

/-- The Will Properties that belong on the PUBLISH: all but the Will Delay Interval. -/
def relayableWillProperties (props : Option Properties) : Option Properties :=
  match props with
  | none => none
  | some p =>
    if p.payloadFormat = none ∧ p.messageExpiryInterval = none ∧ p.contentType = [] ∧
        p.responseTopic = [] ∧ p.correlationData = none ∧ p.userProperties = [] then none
    else
      some
        { payloadFormat := p.payloadFormat
          messageExpiryInterval := p.messageExpiryInterval
          contentType := p.contentType
          responseTopic := p.responseTopic
          correlationData := p.correlationData
          userProperties := p.userProperties }

structure Registration where
  id : ℕ
  will : WillMessage

/-- A goroutine in its `select`. -/
structure Timer where
  clientID : Str
  reg : Registration
  /-- The context is cancelled. -/
  cancelled : Bool := false

structure State where
  wills : Str → Option Registration := fun _ => none
  /-- The goroutine whose context the stored function cancels. -/
  cancel : Str → Option ℕ := fun _ => none
  timers : ℕ → Option Timer := fun _ => none
  nextTimer : ℕ := 0
  /-- Taken out of `wills` to be published; `publishWillMessage` is next. -/
  pending : List Registration := []
  /-- Handed to the callback. -/
  published : List Registration := []
  /-- Ghosts: every registration so far, and the numbers of those claimed. -/
  registered : List Registration := []
  claimed : List ℕ := []

namespace State

def stopTimer (st : State) (c : Str) : State :=
  match st.cancel c with
  | none => st
  | some t =>
    { st with
      cancel := update st.cancel c none
      timers := update st.timers t
        ((st.timers t).map fun tm => { tm with cancelled := true }) }

def delete (st : State) (c : Str) : State := { st with wills := update st.wills c none }

/-- The registration is taken out of the map to be published. -/
def claim (st : State) (c : Str) (r : Registration) : State :=
  { st.delete c with pending := st.pending ++ [r], claimed := st.claimed ++ [r.id] }

def arm (st : State) (c : Str) (r : Registration) : State :=
  { st with
    cancel := update st.cancel c (some st.nextTimer)
    timers := update st.timers st.nextTimer (some { clientID := c, reg := r })
    nextTimer := st.nextTimer + 1 }

def registerWill (st : State) (will : WillMessage) : State :=
  let r : Registration := ⟨st.registered.length, will⟩
  let st := st.stopTimer will.clientID
  { st with
    wills := update st.wills will.clientID (some r)
    registered := st.registered ++ [r] }

/-- `conn != nil && will.Conn != nil && will.Conn != conn` -/
def otherOwner (will : WillMessage) (conn : Option ℕ) : Bool :=
  conn.isSome && will.conn.isSome && decide (will.conn ≠ conn)

def triggerWill (st : State) (c : Str) (conn : Option ℕ) : State :=
  match st.wills c with
  | none => st
  | some r =>
    if otherOwner r.will conn then st
    else if (st.cancel c).isSome then st
    else if r.will.delay ≤ 0 then st.claim c r
    else st.arm c r

/-- Only a will that waits is fired. -/
def fireWill (st : State) (c : Str) : State :=
  match st.wills c with
  | none => st
  | some r => if (st.cancel c).isSome then (st.stopTimer c).claim c r else st

def cancelWill (st : State) (c : Str) : State := (st.stopTimer c).delete c

def removeWill (st : State) (c : Str) : State := (st.delete c).stopTimer c

def stop (st : State) : State :=
  { st with
    wills := fun _ => none
    cancel := fun _ => none
    timers := fun t => (st.timers t).map fun tm =>
      if st.cancel tm.clientID = some t then { tm with cancelled := true } else tm }

def leave (st : State) (t : ℕ) : State := { st with timers := update st.timers t none }

/-- The section after `time.After`. -/
def expire (st : State) (t : ℕ) (tm : Timer) : State :=
  match st.wills tm.clientID with
  | none => st.leave t
  | some r =>
    if r.id = tm.reg.id then
      { (st.leave t).claim tm.clientID tm.reg with
        cancel := update st.cancel tm.clientID none }
    else st.leave t

end State

/-- `publishWillMessage`: whether the callback is called. -/
def reachesCallback (callback : Bool) (r : Registration) : Bool := callback && !r.will.topic.isEmpty

/-! ## Steps -/

inductive Label where
  /-- The fields of the `WillMessage` are the arguments of `RegisterWill`. -/
  | registerWill (will : WillMessage)
  | triggerWill (c : Str) (conn : Option ℕ)
  | fireWill (c : Str)
  | cancelWill (c : Str)
  | removeWill (c : Str)
  | stop
  /-- A waiting goroutine is woken by its timer, or by its context. -/
  | expire (t : ℕ)
  | quit (t : ℕ)
  /-- `publishWillMessage` for the i-th of the claimed registrations. -/
  | publish (i : ℕ)

/-- `callback` says whether `SetPublishCallback` was called. -/
def step (callback : Bool) (st : State) : Label → Option State
  | .registerWill will =>
    some (st.registerWill { will with properties := relayableWillProperties will.properties })
  | .triggerWill c conn => some (st.triggerWill c conn)
  | .fireWill c => some (st.fireWill c)
  | .cancelWill c => some (st.cancelWill c)
  | .removeWill c => some (st.removeWill c)
  | .stop => some st.stop
  | .expire t => (st.timers t).map (st.expire t)
  | .quit t =>
    match st.timers t with
    | none => none
    | some tm => if tm.cancelled then some (st.leave t) else none
  | .publish i =>
    match st.pending[i]? with
    | none => none
    | some r =>
      some { st with
        pending := st.pending.eraseIdx i
        published := if reachesCallback callback r then st.published ++ [r] else st.published }

section Goroutines

variable {callback : Bool} {st st' : State}

theorem step_expire_eq_some {t : ℕ} (h : step callback st (.expire t) = some st') :
    ∃ tm, st.timers t = some tm ∧ st' = st.expire t tm := by
  obtain ⟨tm, htm, rfl⟩ := Option.map_eq_some_iff.mp h
  exact ⟨tm, htm, rfl⟩

theorem step_quit_eq_some {t : ℕ} (h : step callback st (.quit t) = some st') :
    ∃ tm, st.timers t = some tm ∧ tm.cancelled = true ∧ st' = st.leave t := by
  simp only [step] at h
  split at h
  · cases h
  next tm htm =>
    split_ifs at h with hcancelled
    cases h
    exact ⟨tm, htm, hcancelled, rfl⟩

theorem step_publish_eq_some {i : ℕ} (h : step callback st (.publish i) = some st') :
    ∃ r, st.pending[i]? = some r ∧
      st' =
        { st with
          pending := st.pending.eraseIdx i
          published :=
            if reachesCallback callback r then st.published ++ [r] else st.published } := by
  simp only [step] at h
  split at h
  · cases h
  next r hr =>
    cases h
    exact ⟨r, hr, rfl⟩

end Goroutines

/-! ## What a step does to the registrations -/

/-- Only the goroutines and the stored functions are touched. -/
@[simp] theorem stopTimer_frame (st : State) (c : Str) :
    (st.stopTimer c).wills = st.wills ∧ (st.stopTimer c).pending = st.pending ∧
      (st.stopTimer c).published = st.published ∧ (st.stopTimer c).registered = st.registered ∧
      (st.stopTimer c).claimed = st.claimed ∧ (st.stopTimer c).nextTimer = st.nextTimer := by
  unfold State.stopTimer
  split <;> exact ⟨rfl, rfl, rfl, rfl, rfl, rfl⟩

@[simp] theorem registered_triggerWill (st : State) (c : Str) (conn : Option ℕ) :
    (st.triggerWill c conn).registered = st.registered := by
  fun_cases State.triggerWill st c conn <;> rfl

@[simp] theorem registered_fireWill (st : State) (c : Str) :
    (st.fireWill c).registered = st.registered := by
  fun_cases State.fireWill st c
  case case2 => simp [State.claim, State.delete]
  all_goals rfl

@[simp] theorem registered_cancelWill (st : State) (c : Str) :
    (st.cancelWill c).registered = st.registered := by
  simp [State.cancelWill, State.delete]

@[simp] theorem registered_removeWill (st : State) (c : Str) :
    (st.removeWill c).registered = st.registered := by
  simp [State.removeWill, State.delete]

/-- The numbers of the registrations on their way to the callback or there. -/
def State.handed (st : State) : List ℕ := (st.pending ++ st.published).map Registration.id

/-- A step registers a will, claims one, or takes some out and no more; what was
claimed stays so, and reaches the callback or does not. -/
inductive Moves (st st' : State) : Prop where
  | registers (r : Registration) (hid : r.id = st.registered.length)
      (hwills : st'.wills = update st.wills r.will.clientID (some r))
      (hregistered : st'.registered = st.registered ++ [r]) (hclaimed : st'.claimed = st.claimed)
      (hhanded : st'.handed = st.handed)
  | claims (c : Str) (r : Registration) (hr : st.wills c = some r)
      (hwills : st'.wills = update st.wills c none)
      (hregistered : st'.registered = st.registered)
      (hclaimed : st'.claimed = st.claimed ++ [r.id])
      (hhanded : st'.handed.Perm (r.id :: st.handed))
  | drops (hwills : ∀ c, st'.wills c = st.wills c ∨ st'.wills c = none)
      (hregistered : st'.registered = st.registered) (hclaimed : st'.claimed = st.claimed)
      (hhanded : st'.handed.Subperm st.handed)

variable {st st' : State} {c : Str} {r : Registration} {callback : Bool} {l : Label} {t : ℕ}

theorem Moves.of_same (hwills : st'.wills = st.wills)
    (hregistered : st'.registered = st.registered) (hclaimed : st'.claimed = st.claimed)
    (hhanded : st'.handed = st.handed) : Moves st st' :=
  .drops (fun c => Or.inl (by rw [hwills])) hregistered hclaimed (by rw [hhanded])

theorem handed_claim (hpending : st'.pending = st.pending ++ [r])
    (hpublished : st'.published = st.published) : st'.handed.Perm (r.id :: st.handed) := by
  unfold State.handed
  rw [hpending, hpublished, List.append_assoc]
  exact List.perm_middle.map Registration.id

/-- Taking a registration out of the map and putting it up for publication. -/
theorem moves_claim {r' : Registration} (hr : st.wills c = some r') (hid : r.id = r'.id)
    (hwills : st'.wills = update st.wills c none)
    (hregistered : st'.registered = st.registered) (hclaimed : st'.claimed = st.claimed ++ [r.id])
    (hpending : st'.pending = st.pending ++ [r]) (hpublished : st'.published = st.published) :
    Moves st st' := by
  refine .claims c r' hr hwills hregistered (by rw [hclaimed, hid]) ?_
  rw [← hid]
  exact handed_claim hpending hpublished

theorem moves_triggerWill (st : State) (c : Str) (conn : Option ℕ) :
    Moves st (st.triggerWill c conn) := by
  fun_cases State.triggerWill st c conn
  case case4 r hr _ _ _ => exact moves_claim hr rfl rfl rfl rfl rfl rfl
  all_goals exact .of_same rfl rfl rfl rfl

theorem moves_fireWill (st : State) (c : Str) : Moves st (st.fireWill c) := by
  fun_cases State.fireWill st c
  case case2 r hr _ => apply moves_claim hr rfl <;> simp [State.claim, State.delete]
  all_goals exact .of_same rfl rfl rfl rfl

theorem moves_delete (hwills : st'.wills = update st.wills c none)
    (hregistered : st'.registered = st.registered) (hclaimed : st'.claimed = st.claimed)
    (hhanded : st'.handed = st.handed) : Moves st st' := by
  refine .drops (fun c' => ?_) hregistered hclaimed (by rw [hhanded])
  rw [hwills]
  rcases eq_or_ne c' c with rfl | hne
  · exact Or.inr (update_self _ _ _)
  · exact Or.inl (update_of_ne hne _ _)

theorem moves_expire (st : State) (t : ℕ) (tm : Timer) : Moves st (st.expire t tm) := by
  fun_cases State.expire st t tm
  case case2 r hr hid _ => exact moves_claim hr hid.symm rfl rfl rfl rfl rfl
  all_goals exact .of_same rfl rfl rfl rfl

theorem handed_publish {i : ℕ} (hr : st.pending[i]? = some r) :
    (st.pending.eraseIdx i ++ (st.published ++ [r])).Perm (st.pending ++ st.published) := by
  obtain ⟨hi, rfl⟩ := List.getElem?_eq_some_iff.mp hr
  calc (st.pending.eraseIdx i ++ (st.published ++ [st.pending[i]])).Perm
        (st.pending[i] :: (st.pending.eraseIdx i ++ st.published)) := by
          rw [← List.append_assoc]
          exact List.perm_append_singleton _ _
    List.Perm _ (st.pending ++ st.published) := (List.getElem_cons_eraseIdx_perm hi).append_right _

theorem moves_publish {i : ℕ} (hr : st.pending[i]? = some r) {published : List Registration}
    (hpub : published = st.published ∨ published = st.published ++ [r]) :
    Moves st { st with pending := st.pending.eraseIdx i, published := published } := by
  refine .drops (fun _ => Or.inl rfl) rfl rfl ?_
  rcases hpub with rfl | rfl
  · exact (((List.eraseIdx_sublist _ _).append_right _).map _).subperm
  · exact ((handed_publish hr).map _).subperm

theorem moves_step (h : step callback st l = some st') : Moves st st' := by
  cases l with
  | registerWill will =>
    cases h
    refine .registers (Registration.mk st.registered.length
      { will with properties := relayableWillProperties will.properties }) rfl ?_ ?_ ?_ ?_
    all_goals simp [State.registerWill, State.handed]
  | triggerWill c conn => exact Option.some.inj h ▸ moves_triggerWill st c conn
  | fireWill c => exact Option.some.inj h ▸ moves_fireWill st c
  | cancelWill c | removeWill c =>
    cases h
    apply moves_delete (c := c) <;>
      simp [State.cancelWill, State.removeWill, State.delete, State.handed]
  | stop =>
    cases h
    exact .drops (fun _ => Or.inr rfl) rfl rfl (List.Subperm.refl _)
  | expire t =>
    obtain ⟨tm, -, rfl⟩ := step_expire_eq_some h
    exact moves_expire st t tm
  | quit t =>
    obtain ⟨tm, -, -, rfl⟩ := step_quit_eq_some h
    exact .of_same rfl rfl rfl rfl
  | publish i =>
    obtain ⟨r, hr, rfl⟩ := step_publish_eq_some h
    exact moves_publish hr (ite_eq_or_eq _ _ _).symm

/-! ## Every registration is claimed once or dropped -/

structure Inv (st : State) : Prop where
  /-- What is in the map is registered under its client and unclaimed. -/
  filed : ∀ c (r : Registration), st.wills c = some r →
    r.will.clientID = c ∧ r ∈ st.registered ∧ r.id ∉ st.claimed
  numbered : ∀ i (r : Registration), st.registered[i]? = some r → r.id = i
  known : ∀ id ∈ st.claimed, id < st.registered.length
  claimedOnce : st.claimed.Nodup
  handed : st.handed.Subperm st.claimed

theorem Inv.id_lt (h : Inv st) (hr : r ∈ st.registered) : r.id < st.registered.length := by
  obtain ⟨i, hi, rfl⟩ := List.getElem_of_mem hr
  rw [h.numbered i _ (List.getElem?_eq_getElem hi)]
  exact hi

theorem Inv.eq_of_id (h : Inv st) {r' : Registration} (hr : r ∈ st.registered)
    (hr' : r' ∈ st.registered) (hid : r.id = r'.id) : r = r' := by
  obtain ⟨i, hi⟩ := List.mem_iff_getElem?.mp hr
  obtain ⟨j, hj⟩ := List.mem_iff_getElem?.mp hr'
  have hij : i = j := by rw [← h.numbered i r hi, ← h.numbered j r' hj, hid]
  subst hij
  exact Option.some.inj (hi.symm.trans hj)

theorem inv_init : Inv {} where
  filed := by rintro c r ⟨⟩
  numbered := by simp
  known := by simp
  claimedOnce := List.nodup_nil
  handed := List.Subperm.refl _

theorem Inv.move (h : Inv st) (hmove : Moves st st') : Inv st' := by
  cases hmove with
  | registers r hid hwills hregistered hclaimed hhanded =>
    have hnew : r.id ∉ st.claimed := fun hmem => Nat.ne_of_lt (h.known r.id hmem) hid
    refine ⟨fun c r' hr' => ?_, fun i r' hr' => ?_, ?_, hclaimed ▸ h.claimedOnce, ?_⟩
    · rw [hwills, update_some_eq_some] at hr'
      rw [hregistered, hclaimed]
      rcases hr' with ⟨rfl, rfl⟩ | ⟨-, hr'⟩
      · exact ⟨rfl, by simp, hnew⟩
      · obtain ⟨hc, hmem, hun⟩ := h.filed c r' hr'
        exact ⟨hc, List.mem_append_left _ hmem, hun⟩
    · rw [hregistered, List.getElem?_append] at hr'
      split_ifs at hr' with hi
      · exact h.numbered i r' hr'
      · obtain ⟨hk, rfl⟩ := List.getElem?_eq_some_iff.mp hr'
        rw [List.length_singleton] at hk
        simp only [List.getElem_singleton, hid]
        omega
    · rw [hclaimed, hregistered, List.length_append]
      exact fun id hmem => Nat.lt_add_right _ (h.known id hmem)
    · rw [hclaimed, hhanded]
      exact h.handed
  | claims c r hr hwills hregistered hclaimed hhanded =>
    obtain ⟨hc, hmem, hun⟩ := h.filed c r hr
    refine ⟨fun c' r' hr' => ?_, hregistered ▸ h.numbered, ?_, ?_, ?_⟩
    · rw [hwills, update_none_eq_some] at hr'
      obtain ⟨hne, hr'⟩ := hr'
      obtain ⟨hc', hmem', hun'⟩ := h.filed c' r' hr'
      refine ⟨hc', hregistered ▸ hmem', ?_⟩
      -- another client's registration has another number
      rw [hclaimed, List.mem_append, List.mem_singleton, not_or]
      refine ⟨hun', fun hid => hne ?_⟩
      rw [← hc', ← hc, h.eq_of_id hmem' hmem hid]
    · rw [hclaimed, hregistered]
      exact forall_mem_snoc h.known (h.id_lt hmem)
    · rw [hclaimed]
      exact List.Nodup.append h.claimedOnce (List.nodup_singleton _) (by simpa using hun)
    · rw [hclaimed]
      refine hhanded.subperm.trans (((List.subperm_cons r.id).mpr h.handed).trans ?_)
      exact (List.perm_append_singleton r.id st.claimed).symm.subperm
  | drops hwills hregistered hclaimed hhanded =>
    refine ⟨fun c r hr => ?_, hregistered ▸ h.numbered, ?_, hclaimed ▸ h.claimedOnce, ?_⟩
    · rw [hregistered, hclaimed]
      rcases hwills c with hsame | hnone
      · exact h.filed c r (hsame ▸ hr)
      · rw [hnone] at hr
        cases hr
    · rw [hregistered, hclaimed]
      exact h.known
    · rw [hclaimed]
      exact hhanded.trans h.handed

theorem Inv.step (h : Inv st) (hstep : step callback st l = some st') :
    Inv st' := h.move (moves_step hstep)

theorem inv_of_run {ls : List Label} (hrun : exec (step callback) {} ls = some st) : Inv st :=
  exec_preserves Inv (fun _ _ _ h hstep => h.step hstep) inv_init hrun

/-- A registration that is neither in the map nor claimed. -/
structure Gone (id : ℕ) (st : State) : Prop where
  known : id < st.registered.length
  absent : ∀ c (r : Registration), st.wills c = some r → r.id ≠ id
  unclaimed : id ∉ st.claimed

theorem Gone.move {id : ℕ} (h : Gone id st) (hmove : Moves st st') : Gone id st' := by
  cases hmove with
  | registers r hid hwills hregistered hclaimed hhanded =>
    refine ⟨?_, fun c r' hr' => ?_, hclaimed ▸ h.unclaimed⟩
    · rw [hregistered, List.length_append]
      exact Nat.lt_add_right _ h.known
    · rw [hwills, update_some_eq_some] at hr'
      rcases hr' with ⟨-, rfl⟩ | ⟨-, hr'⟩
      · rw [hid]
        exact Nat.ne_of_gt h.known
      · exact h.absent c r' hr'
  | claims c r hr hwills hregistered hclaimed hhanded =>
    refine ⟨hregistered ▸ h.known, fun c' r' hr' => ?_, ?_⟩
    · rw [hwills, update_none_eq_some] at hr'
      exact h.absent c' r' hr'.2
    · rw [hclaimed, List.mem_append, List.mem_singleton, not_or]
      exact ⟨h.unclaimed, (h.absent c r hr).symm⟩
  | drops hwills hregistered hclaimed hhanded =>
    refine ⟨hregistered ▸ h.known, fun c r hr => ?_, hclaimed ▸ h.unclaimed⟩
    rcases hwills c with hsame | hnone
    · exact h.absent c r (hsame ▸ hr)
    · rw [hnone] at hr
      cases hr

/-- The steps that take back what is registered for a client. -/
def Withdraws (c : Str) : Label → Prop
  | .registerWill will => will.clientID = c
  | .cancelWill c' | .removeWill c' => c' = c
  | .stop => True
  | _ => False

/-- After such a step nothing more is claimed, and the client has no registration in
the map but a new one. -/
theorem withdraws_spec (hl : Withdraws c l) (hstep : step callback st l = some st') :
    st'.claimed = st.claimed ∧ st.registered ⊆ st'.registered ∧
      ∀ r, st'.wills c = some r → r.id = st.registered.length := by
  cases l with
  | registerWill will =>
    subst hl
    cases hstep
    refine ⟨by simp [State.registerWill], by simp [State.registerWill], fun r hr => ?_⟩
    simp only [State.registerWill, update_self] at hr
    cases hr
    rfl
  | cancelWill c' | removeWill c' =>
    subst hl
    cases hstep
    simp [State.cancelWill, State.removeWill, State.delete]
  | stop =>
    cases hstep
    refine ⟨rfl, List.Subset.refl _, ?_⟩
    rintro r ⟨⟩
  | triggerWill | fireWill | expire | quit | publish => cases hl

theorem gone_of_withdraws (h : Inv st) (hl : Withdraws c l)
    (hstep : step callback st l = some st') (hr : r ∈ st.registered) (hc : r.will.clientID = c)
    (hun : r.id ∉ st.claimed) : Gone r.id st' := by
  have h' := h.step hstep
  obtain ⟨hclaimed, hkept, hnew⟩ := withdraws_spec hl hstep
  refine ⟨h'.id_lt (hkept hr), fun c' r' hr' hid => ?_, hclaimed ▸ hun⟩
  obtain ⟨hc', hmem', -⟩ := h'.filed c' r' hr'
  -- it could only be in the map under its own client, where a newer one is
  have heq : r' = r := h'.eq_of_id hmem' (hkept hr) hid
  subst heq
  have hlast := hnew r' (by rw [← hc, hc']; exact hr')
  exact Nat.ne_of_lt (h.id_lt hr) hlast

/-- **Every registered will is handed to the callback at most once, and never when it
was removed, cancelled, replaced or cleared before it was claimed.** -/
theorem published_at_most_once (callback : Bool) (ls : List Label) (st : State)
    (hrun : exec (step callback) {} ls = some st) :
    (∀ id, (st.published.map Registration.id).count id ≤ 1) ∧
      ∀ before l after st₀, ls = before ++ l :: after → exec (step callback) {} before = some st₀ →
        ∀ c, Withdraws c l → ∀ r ∈ st₀.registered, r.will.clientID = c → r.id ∉ st₀.claimed →
          r.id ∉ st.claimed ∧ r.id ∉ st.published.map Registration.id := by
  have hinv := inv_of_run hrun
  have hsub : (st.published.map Registration.id).Subperm st.claimed := by
    refine List.Subperm.trans ?_ hinv.handed
    exact ((List.sublist_append_right st.pending st.published).map _).subperm
  constructor
  · intro id
    exact le_trans (hsub.count_le id) (List.nodup_iff_count_le_one.mp hinv.claimedOnce id)
  · rintro before l after st₀ rfl hbefore c hl r hr hc hun
    obtain ⟨st₁, hst₁, hrest⟩ := exec_append_eq_some.mp hrun
    cases hbefore.symm.trans hst₁
    obtain ⟨st₂, hstep, hafter⟩ := exec_cons_eq_some.mp hrest
    have hgone : Gone r.id st := exec_preserves (Gone r.id)
      (fun _ _ _ h hstep => h.move (moves_step hstep))
      (gone_of_withdraws (inv_of_run hbefore) hl hstep hr hc hun) hafter
    exact ⟨hgone.unclaimed, fun hmem => hgone.unclaimed (hsub.subset hmem)⟩

/-! ## The goroutines that wait -/

/-- A goroutine waits for a registration of its client; the one whose cancel function
is stored waits for what the map holds, and is not cancelled. -/
structure Waits (st : State) : Prop where
  timers : ∀ t tm, st.timers t = some tm →
    t < st.nextTimer ∧ tm.reg ∈ st.registered ∧ tm.reg.will.clientID = tm.clientID
  armed : ∀ c t, st.cancel c = some t →
    ∃ r, st.wills c = some r ∧ st.timers t = some ⟨c, r, false⟩ ∧ 0 < r.will.delay
  /-- A goroutine that will find its registration in the map is the armed one. -/
  current : ∀ t tm, st.timers t = some tm → ∀ r, st.wills tm.clientID = some r →
    r.id = tm.reg.id → st.cancel tm.clientID = some t

theorem waits_init : Waits {} where
  timers := by rintro t tm ⟨⟩
  armed := by rintro c t ⟨⟩
  current := by rintro t tm ⟨⟩

variable {tm : Timer}

theorem cancel_stopTimer (st : State) (c : Str) :
    (st.stopTimer c).cancel = update st.cancel c none := by
  unfold State.stopTimer
  split
  next h => rw [← h, update_eq_self]
  · rfl

/-- A goroutine is cancelled by `stopTimerLocked`, or left alone. -/
theorem timers_stopTimer (h : (st.stopTimer c).timers t = some tm) :
    ∃ tm', st.timers t = some tm' ∧ tm.reg = tm'.reg ∧ tm.clientID = tm'.clientID := by
  unfold State.stopTimer at h
  split at h
  · exact ⟨tm, h, rfl, rfl⟩
  · simp only [update_apply] at h
    split_ifs at h with ht
    · obtain ⟨tm', htm', rfl⟩ := Option.map_eq_some_iff.mp h
      exact ⟨tm', ht ▸ htm', rfl, rfl⟩
    · exact ⟨tm, h, rfl, rfl⟩

theorem timers_of_leave {t' : ℕ} (h : (st.leave t).timers t' = some tm) :
    st.timers t' = some tm := (update_none_eq_some.mp h).2

theorem removeWill_eq_cancelWill (st : State) (c : Str) : st.removeWill c = st.cancelWill c := by
  unfold State.removeWill State.cancelWill State.stopTimer State.delete
  cases h : st.cancel c <;> simp

section

variable (h : Waits st)

include h

theorem Waits.timers_eq_none (ht : st.nextTimer ≤ t) : st.timers t = none :=
  Option.eq_none_iff_forall_ne_some.mpr fun tm htm => Nat.not_lt.mpr ht (h.timers t tm htm).1

theorem Waits.timers_stopTimer_of_ne {c' : Str} (hc : c' ≠ c)
    (ht : st.cancel c' = some t) : (st.stopTimer c).timers t = st.timers t := by
  unfold State.stopTimer
  split
  · rfl
  next t' ht' =>
    refine update_of_ne (fun heq => hc ?_) _ _
    subst heq
    obtain ⟨r, -, htm, -⟩ := h.armed c' t ht
    obtain ⟨r', -, htm', -⟩ := h.armed c t ht'
    cases htm.symm.trans htm'
    rfl

theorem Waits.stopped (c : Str) (htimers : st'.timers = (st.stopTimer c).timers)
    (hcancel : st'.cancel = (st.stopTimer c).cancel) (hnext : st'.nextTimer = st.nextTimer)
    (hwills : ∀ c', c' ≠ c → st'.wills c' = st.wills c')
    (hnew : ∀ r, st'.wills c = some r → ∀ r' ∈ st.registered, r.id ≠ r'.id)
    (hregistered : st.registered ⊆ st'.registered) : Waits st' := by
  refine ⟨fun t tm htm => ?_, fun c' t ht => ?_, fun t tm htm r hr hid => ?_⟩
  · rw [htimers] at htm
    obtain ⟨tm', htm', hreg, hid⟩ := timers_stopTimer htm
    obtain ⟨hlt, hmem, hc⟩ := h.timers t tm' htm'
    rw [hnext, hreg, hid]
    exact ⟨hlt, hregistered hmem, hc⟩
  · rw [hcancel, cancel_stopTimer, update_none_eq_some] at ht
    obtain ⟨hne, ht⟩ := ht
    rw [hwills c' hne, htimers, h.timers_stopTimer_of_ne hne ht]
    exact h.armed c' t ht
  · rw [htimers] at htm
    obtain ⟨tm', htm', hreg, hc⟩ := timers_stopTimer htm
    rw [hreg] at hid
    rw [hc] at hr ⊢
    rcases eq_or_ne tm'.clientID c with heq | hne
    · exact absurd hid (hnew r (heq ▸ hr) tm'.reg (h.timers t tm' htm').2.1)
    · rw [hwills _ hne] at hr
      rw [hcancel, cancel_stopTimer, update_of_ne hne]
      exact h.current t tm' htm' r hr hid

theorem Waits.arm (hr : st.wills c = some r) (hmem : r ∈ st.registered)
    (hc : r.will.clientID = c) (hunarmed : st.cancel c = none) (hdelay : 0 < r.will.delay) :
    Waits (st.arm c r) := by
  refine ⟨fun t tm htm => ?_, fun c' t ht => ?_, fun t tm htm r' hr' hid => ?_⟩
  · rcases update_some_eq_some.mp htm with ⟨rfl, rfl⟩ | ⟨-, htm⟩
    · exact ⟨Nat.lt_succ_self _, hmem, hc⟩
    · obtain ⟨hlt, hrest⟩ := h.timers t tm htm
      exact ⟨Nat.lt_succ_of_lt hlt, hrest⟩
  · rcases update_some_eq_some.mp ht with ⟨rfl, rfl⟩ | ⟨-, ht⟩
    · exact ⟨r, hr, update_self _ _ _, hdelay⟩
    · obtain ⟨r', hr', htm, hpos⟩ := h.armed c' t ht
      -- the new goroutine is none of those that wait already
      have hold : t ≠ st.nextTimer := Nat.ne_of_lt (h.timers t _ htm).1
      exact ⟨r', hr', (update_of_ne hold _ _).trans htm, hpos⟩
  · rcases update_some_eq_some.mp htm with ⟨rfl, rfl⟩ | ⟨-, htm⟩
    · exact update_self _ _ _
    · have hcancel := h.current t tm htm r' hr' hid
      have hc : tm.clientID ≠ c := by
        rintro heq
        rw [heq, hunarmed] at hcancel
        cases hcancel
      exact (update_of_ne hc _ _).trans hcancel

theorem Waits.leave (ht : ∀ c, st.cancel c ≠ some t) : Waits (st.leave t) := by
  refine ⟨fun t' tm htm => ?_, fun c t' ht' => ?_, fun t' tm htm r hr hid => ?_⟩
  · exact h.timers t' tm (timers_of_leave htm)
  · obtain ⟨r, hr, htm, hpos⟩ := h.armed c t' ht'
    have hne : t' ≠ t := fun heq => ht c (heq ▸ ht')
    exact ⟨r, hr, (update_of_ne hne _ _).trans htm, hpos⟩
  · exact h.current t' tm (timers_of_leave htm) r hr hid

theorem Waits.same (htimers : st'.timers = st.timers)
    (hcancel : st'.cancel = st.cancel) (hnext : st'.nextTimer = st.nextTimer)
    (hwills : ∀ c, (st.cancel c).isSome = true → st'.wills c = st.wills c)
    (hsub : ∀ c r, st'.wills c = some r → st.wills c = some r)
    (hregistered : st'.registered = st.registered) : Waits st' := by
  refine ⟨?_, fun c t ht => ?_, fun t tm htm r hr hid => ?_⟩
  · rw [htimers, hnext, hregistered]
    exact h.timers
  · rw [hcancel] at ht
    rw [hwills c (by rw [ht]; rfl), htimers]
    exact h.armed c t ht
  · rw [htimers] at htm
    rw [hcancel]
    exact h.current t tm htm r (hsub _ r hr) hid

theorem Waits.expire (htm : st.timers t = some tm) : Waits (st.expire t tm) := by
  -- a stored function that cancels `t` belongs to a client whose will is the one waited for
  have hours : ∀ c, st.cancel c = some t → c = tm.clientID ∧ st.wills c = some tm.reg := by
    intro c hc
    obtain ⟨r, hr, htm', -⟩ := h.armed c t hc
    cases htm.symm.trans htm'
    exact ⟨rfl, hr⟩
  fun_cases State.expire st t tm
  case case1 hr =>
    refine h.leave fun c hc => ?_
    obtain ⟨rfl, hreg⟩ := hours c hc
    cases hr.symm.trans hreg
  case case2 r hr hid _ =>
    refine ⟨fun t' tm' htm' => ?_, fun c t' ht' => ?_, fun t' tm' htm' r' hr' hid' => ?_⟩
    · exact h.timers t' tm' (timers_of_leave htm')
    · obtain ⟨hne, ht'⟩ := update_none_eq_some.mp ht'
      obtain ⟨r', hr', htm', hpos⟩ := h.armed c t' ht'
      have ht : t' ≠ t := fun heq => hne (hours c (heq ▸ ht')).1
      exact ⟨r', update_none_eq_some.mpr ⟨hne, hr'⟩, update_none_eq_some.mpr ⟨ht, htm'⟩, hpos⟩
    · obtain ⟨hne, hr'⟩ := update_none_eq_some.mp hr'
      refine update_none_eq_some.mpr ⟨hne, ?_⟩
      exact h.current t' tm' (timers_of_leave htm') r' hr' hid'
  case case3 r hr hid =>
    refine h.leave fun c hc => ?_
    obtain ⟨rfl, hreg⟩ := hours c hc
    cases hr.symm.trans hreg
    exact hid rfl

theorem Waits.triggerWill (hinv : Inv st) (c : Str) (conn : Option ℕ) :
    Waits (st.triggerWill c conn) := by
  fun_cases State.triggerWill st c conn
  case case4 r hr _ harmed hdelay =>
    refine h.same rfl rfl rfl (fun c' hc' => ?_) (fun c' r' hr' => ?_) rfl
    · have hne : c' ≠ c := fun heq => harmed (heq ▸ hc')
      exact update_of_ne hne _ _
    · exact (update_none_eq_some.mp hr').2
  case case5 r hr _ harmed hdelay =>
    obtain ⟨hc, hmem, -⟩ := hinv.filed c r hr
    exact h.arm hr hmem hc (Option.not_isSome_iff_eq_none.mp harmed) (Int.not_le.mp hdelay)
  all_goals exact h

theorem Waits.fireWill (c : Str) : Waits (st.fireWill c) := by
  fun_cases State.fireWill st c
  case case2 r hr _ =>
    refine h.stopped c rfl rfl ?_ (fun c' hc' => ?_) (fun r' hr' => ?_) ?_
    · simp [State.claim, State.delete]
    · simp [State.claim, State.delete, hc']
    · simp [State.claim, State.delete] at hr'
    · simp [State.claim, State.delete]
  all_goals exact h

theorem Waits.cancelWill (c : Str) : Waits (st.cancelWill c) := by
  refine h.stopped c rfl rfl ?_ (fun c' hc' => ?_) (fun r hr => ?_) ?_
  · simp [State.cancelWill, State.delete]
  · simp [State.cancelWill, State.delete, hc']
  · simp [State.cancelWill, State.delete] at hr
  · simp [State.cancelWill, State.delete]

theorem Waits.step (hinv : Inv st) (hstep : step callback st l = some st') : Waits st' := by
  cases l with
  | registerWill will =>
    cases hstep
    refine h.stopped will.clientID rfl rfl ?_ (fun c' hc' => ?_) (fun r hr r' hr' => ?_) ?_
    · simp [State.registerWill]
    · simp [State.registerWill, hc']
    · simp only [State.registerWill, update_self] at hr
      cases hr
      exact Nat.ne_of_gt (hinv.id_lt hr')
    · simp [State.registerWill]
  | triggerWill c conn => exact Option.some.inj hstep ▸ h.triggerWill hinv c conn
  | fireWill c => exact Option.some.inj hstep ▸ h.fireWill c
  | cancelWill c => exact Option.some.inj hstep ▸ h.cancelWill c
  | removeWill c =>
    rw [← Option.some.inj hstep, removeWill_eq_cancelWill]
    exact h.cancelWill c
  | stop =>
    cases hstep
    refine ⟨fun t tm htm => ?_, ?_, ?_⟩
    · obtain ⟨tm', htm', rfl⟩ := Option.map_eq_some_iff.mp htm
      obtain ⟨hlt, hrest⟩ := h.timers t tm' htm'
      split_ifs
      · exact ⟨hlt, hrest⟩
      · exact ⟨hlt, hrest⟩
    · rintro c t ⟨⟩
    · rintro t tm - r ⟨⟩
  | expire t =>
    obtain ⟨tm, htm, rfl⟩ := step_expire_eq_some hstep
    exact h.expire htm
  | quit t =>
    obtain ⟨tm, htm, hcancelled, rfl⟩ := step_quit_eq_some hstep
    apply h.leave
    intro c hc
    obtain ⟨r, -, htm', -⟩ := h.armed c t hc
    cases htm.symm.trans htm'
    cases hcancelled
  | publish i =>
    obtain ⟨r, -, rfl⟩ := step_publish_eq_some hstep
    exact h.same rfl rfl rfl (fun _ _ => rfl) (fun _ _ hr => hr) rfl

end

/-! ## What is claimed reaches the callback -/

/-- With the callback set and no empty topic, a claimed registration is on its way to
the callback or there. -/
structure Unlost (st : State) : Prop where
  topics : ∀ r ∈ st.pending, r.will.topic ≠ []
  claimed : st.claimed ⊆ st.handed

theorem Unlost.same (h : Unlost st) (hpending : st'.pending = st.pending)
    (hpublished : st'.published = st.published) (hclaimed : st'.claimed = st.claimed) :
    Unlost st' where
  topics := by
    rw [hpending]
    exact h.topics
  claimed := by
    rw [hclaimed, State.handed, hpending, hpublished]
    exact h.claimed

theorem Unlost.claim (h : Unlost st) (hr : r.will.topic ≠ [])
    (hpending : st'.pending = st.pending ++ [r]) (hpublished : st'.published = st.published)
    (hclaimed : st'.claimed = st.claimed ++ [r.id]) : Unlost st' where
  topics := by
    rw [hpending]
    exact forall_mem_snoc h.topics hr
  claimed := by
    obtain ⟨hnew, hold⟩ := List.cons_subset.mp (handed_claim hpending hpublished).symm.subset
    rw [hclaimed]
    exact List.append_subset.mpr ⟨List.Subset.trans h.claimed hold, by simpa using hnew⟩

theorem Unlost.publish (h : Unlost st) {i : ℕ} (hr : st.pending[i]? = some r) :
    Unlost { st with
      pending := st.pending.eraseIdx i
      published := if reachesCallback true r then st.published ++ [r] else st.published } where
  topics := fun r' hr' => h.topics r' (List.mem_of_mem_eraseIdx hr')
  claimed := by
    have htopic := h.topics r (List.mem_of_getElem? hr)
    have hreaches : reachesCallback true r = true := by simp [reachesCallback, htopic]
    simp only [hreaches, if_true]
    exact List.Subset.trans h.claimed ((handed_publish hr).map _).symm.subset

theorem Unlost.step (hinv : Inv st) (hwaits : Waits st) (h : Unlost st)
    (htopics : ∀ r ∈ st.registered, r.will.topic ≠ []) (hstep : step true st l = some st') :
    Unlost st' := by
  cases l with
  | registerWill _ | cancelWill _ | removeWill _ =>
    cases hstep
    apply h.same <;> simp [State.registerWill, State.cancelWill, State.removeWill, State.delete]
  | triggerWill c conn =>
    cases hstep
    fun_cases State.triggerWill st c conn
    case case4 r hr _ _ _ => exact h.claim (htopics r (hinv.filed c r hr).2.1) rfl rfl rfl
    all_goals exact h.same rfl rfl rfl
  | fireWill c =>
    cases hstep
    fun_cases State.fireWill st c
    case case2 r hr _ =>
      apply h.claim (htopics r (hinv.filed c r hr).2.1) <;> simp [State.claim, State.delete]
    all_goals exact h
  | stop =>
    cases hstep
    exact h.same rfl rfl rfl
  | expire t =>
    obtain ⟨tm, htm, rfl⟩ := step_expire_eq_some hstep
    fun_cases State.expire st t tm
    case case2 => exact h.claim (htopics tm.reg (hwaits.timers t tm htm).2.1) rfl rfl rfl
    all_goals exact h.same rfl rfl rfl
  | quit t =>
    obtain ⟨tm, -, -, rfl⟩ := step_quit_eq_some hstep
    exact h.same rfl rfl rfl
  | publish i =>
    obtain ⟨r, hr, rfl⟩ := step_publish_eq_some hstep
    exact h.publish hr

/-! ## The handler comes to rest -/

/-- No publication is under way and no goroutine waits. -/
def AtRest (st : State) : Prop := st.pending = [] ∧ ∀ t, st.timers t = none

theorem Waits.atRest (h : Waits st) (hpending : st.pending = []) (hnone : st.nextTimer = 0) :
    AtRest st :=
  ⟨hpending, fun t => h.timers_eq_none (hnone ▸ Nat.zero_le t)⟩

def Label.isOwn : Label → Bool
  | .expire _ | .quit _ | .publish _ => true
  | _ => false

@[simp] theorem timers_expire (st : State) (t : ℕ) (tm : Timer) :
    (st.expire t tm).timers = update st.timers t none := by
  fun_cases State.expire st t tm <;> rfl

/-- The goroutines below a number are woken one after the other. -/
theorem exists_woken (callback : Bool) (st : State) :
    ∀ n, ∃ ls st', (∀ l ∈ ls, Label.isOwn l = true) ∧ exec (step callback) st ls = some st' ∧
      (∀ t < n, st'.timers t = none) ∧ ∀ t, n ≤ t → st'.timers t = st.timers t := by
  intro n
  induction n with
  | zero => exact ⟨[], st, by simp, rfl, by simp, fun _ _ => rfl⟩
  | succ n ih =>
    obtain ⟨ls, st', hown, hrun, hwoken, hrest⟩ := ih
    cases htm : st'.timers n with
    | none =>
      refine ⟨ls, st', hown, hrun, fun t ht => ?_, fun t ht => hrest t (by omega)⟩
      rcases Nat.lt_succ_iff_lt_or_eq.mp ht with hlt | rfl
      · exact hwoken t hlt
      · exact htm
    | some tm =>
      refine ⟨ls ++ [.expire n], st'.expire n tm, ?_, ?_, fun t ht => ?_, fun t ht => ?_⟩
      · exact forall_mem_snoc hown rfl
      · exact exec_append_eq_some.mpr ⟨st', hrun, by simp [exec, step, htm]⟩
      · rw [timers_expire]
        rcases Nat.lt_succ_iff_lt_or_eq.mp ht with hlt | rfl
        · rw [update_of_ne (Nat.ne_of_lt hlt)]
          exact hwoken t hlt
        · exact update_self _ _ _
      · rw [timers_expire, update_of_ne (by omega)]
        exact hrest t (by omega)

/-- The publications under way are done one after the other. -/
theorem exists_published (callback : Bool) :
    ∀ (pending : List Registration) (st : State), st.pending = pending →
      ∃ ls st', (∀ l ∈ ls, Label.isOwn l = true) ∧ exec (step callback) st ls = some st' ∧
        st'.pending = [] ∧ st'.timers = st.timers := by
  intro pending
  induction pending with
  | nil =>
    intro st hst
    exact ⟨[], st, by simp, rfl, hst, rfl⟩
  | cons r rest ih =>
    intro st hst
    obtain ⟨ls, st', hown, hrun, hdone, htimers⟩ := ih
      { st with
        pending := rest
        published := if reachesCallback callback r then st.published ++ [r] else st.published }
      rfl
    refine ⟨.publish 0 :: ls, st', ?_, ?_, hdone, htimers⟩
    · exact List.forall_mem_cons.mpr ⟨rfl, hown⟩
    · exact exec_cons_eq_some.mpr ⟨_, by simp [step, hst], hrun⟩

/-- From every state, by steps of its own. -/
theorem exists_rest (callback : Bool) (h : Waits st) :
    ∃ ls st', (∀ l ∈ ls, Label.isOwn l = true) ∧ exec (step callback) st ls = some st' ∧
      AtRest st' := by
  obtain ⟨ls, st₁, hown, hrun, hwoken, hkept⟩ := exists_woken callback st st.nextTimer
  obtain ⟨ls', st₂, hown', hrun', hdone, htimers⟩ := exists_published callback _ st₁ rfl
  refine ⟨ls ++ ls', st₂, List.forall_mem_append.mpr ⟨hown, hown'⟩,
    exec_append_eq_some.mpr ⟨st₁, hrun, hrun'⟩, hdone, fun t => ?_⟩
  rw [htimers]
  rcases Nat.lt_or_ge t st.nextTimer with ht | ht
  · exact hwoken t ht
  · rw [hkept t ht]
    exact h.timers_eq_none ht

/-! ## A triggered will is published -/

/-- Published, about to be, or waited for by the goroutine that is armed. -/
def Due (c : Str) (r : Registration) (st : State) : Prop :=
  r ∈ st.pending ++ st.published ∨ st.wills c = some r ∧ (st.cancel c).isSome = true

theorem Due.triggerWill {conn : Option ℕ} (hr : st.wills c = some r)
    (hown : State.otherOwner r.will conn = false) : Due c r (st.triggerWill c conn) := by
  unfold State.triggerWill
  simp only [hr, hown, Bool.false_eq_true, if_false]
  split_ifs with harmed
  · exact Or.inr ⟨hr, harmed⟩
  · exact Or.inl (by simp [State.claim])
  · exact Or.inr ⟨hr, by simp [State.arm]⟩

/-- A claim hands its registration on and leaves the others alone. -/
theorem Due.claim {c' : Str} {r' : Registration} (h : Due c r st) (hr' : st.wills c' = some r')
    (hpending : st'.pending = st.pending ++ [r']) (hpublished : st'.published = st.published)
    (hwills : st'.wills = update st.wills c' none)
    (hcancel : ∀ c, c ≠ c' → st'.cancel c = st.cancel c) : Due c r st' := by
  rw [Due, hpending, hpublished, hwills]
  rcases h with hhanded | ⟨hr, harmed⟩
  · exact Or.inl (by simpa [or_left_comm, or_comm] using Or.inl hhanded)
  · by_cases hc : c = c'
    · subst hc
      cases hr.symm.trans hr'
      exact Or.inl (by simp)
    · exact Or.inr ⟨(update_of_ne hc _ _).trans hr, hcancel c hc ▸ harmed⟩

theorem Due.step (hinv : Inv st) (hwaits : Waits st) (htopic : r.will.topic ≠ [])
    (h : Due c r st) (hl : ¬ Withdraws c l) (hstep : step true st l = some st') : Due c r st' := by
  cases l with
  | registerWill _ | cancelWill _ | removeWill _ =>
    cases hstep
    simpa [Due, State.registerWill, State.cancelWill, State.removeWill, State.delete,
      cancel_stopTimer, update_of_ne (Ne.symm hl)] using h
  | stop => exact absurd trivial hl
  | triggerWill c' conn =>
    cases hstep
    fun_cases State.triggerWill st c' conn
    case case4 r' hr' _ _ _ => exact h.claim hr' rfl rfl rfl fun _ _ => rfl
    case case5 r' hr' _ _ _ =>
      refine h.imp_right fun ⟨hr, harmed⟩ => ⟨hr, ?_⟩
      simp only [State.arm, update_apply]
      split_ifs <;> simp [harmed]
    all_goals exact h
  | fireWill c' =>
    cases hstep
    fun_cases State.fireWill st c'
    case case2 r' hr' _ =>
      apply h.claim hr' <;> simp +contextual [State.claim, State.delete, cancel_stopTimer]
    all_goals exact h
  | expire t =>
    obtain ⟨tm, htm, rfl⟩ := step_expire_eq_some hstep
    fun_cases State.expire st t tm
    case case2 r' hr' hid _ =>
      have heq : r' = tm.reg :=
        hinv.eq_of_id (hinv.filed _ _ hr').2.1 (hwaits.timers t tm htm).2.1 hid
      exact h.claim (heq ▸ hr') rfl rfl rfl fun _ hc => update_of_ne hc _ _
    all_goals exact h
  | quit t =>
    obtain ⟨tm, -, -, rfl⟩ := step_quit_eq_some hstep
    exact h
  | publish i =>
    obtain ⟨r', hr', rfl⟩ := step_publish_eq_some hstep
    refine h.imp_left fun hhanded => ?_
    have hmem := (handed_publish hr').mem_iff.mpr hhanded
    by_cases heq : r = r'
    · simp [← heq, reachesCallback, htopic]
    · simp only [List.mem_append, List.mem_singleton, heq, or_false] at hmem ⊢
      refine hmem.imp_right fun hpublished => ?_
      split_ifs <;> simp [hpublished]

theorem Inv.published_of_handed (h : Inv st) (hrest : AtRest st) {id : ℕ} (hid : id ∈ st.handed) :
    (st.published.map Registration.id).count id = 1 := by
  have hhanded : st.handed = st.published.map Registration.id := by
    rw [State.handed, hrest.1, List.nil_append]
  rw [← hhanded]
  apply le_antisymm
  · exact le_trans (h.handed.count_le id) (List.nodup_iff_count_le_one.mp h.claimedOnce id)
  · exact List.count_pos_iff.mpr hid

/-- **A will that its connection triggers is published exactly once**, at once or after its
delay, unless it is taken back: it is when the handler is at rest, and the handler can come to
rest by steps of its own. -/
theorem published_of_triggered {before after : List Label} {st₀ st : State} {c : Str}
    {r : Registration} {conn : Option ℕ} (hbefore : exec (step true) {} before = some st₀)
    (hr : st₀.wills c = some r) (hown : State.otherOwner r.will conn = false)
    (htopic : r.will.topic ≠ []) (hkept : ∀ l ∈ after, ¬ Withdraws c l)
    (hrun : exec (step true) (st₀.triggerWill c conn) after = some st) :
    (AtRest st → (st.published.map Registration.id).count r.id = 1) ∧
    ∃ own st', (∀ l ∈ own, Label.isOwn l = true) ∧ exec (step true) st own = some st' ∧
      AtRest st' := by
  have hstart : exec (step true) {} (before ++ [.triggerWill c conn]) =
      some (st₀.triggerWill c conn) := exec_append_eq_some.mpr ⟨_, hbefore, rfl⟩
  have hwaits₀ : Inv (st₀.triggerWill c conn) ∧ Waits (st₀.triggerWill c conn) :=
    exec_preserves (fun st => Inv st ∧ Waits st)
      (fun _ _ _ h hstep => ⟨h.1.step hstep, h.2.step h.1 hstep⟩) ⟨inv_init, waits_init⟩ hstart
  obtain ⟨⟨hinv, hwaits⟩, hdue⟩ := exec_invariant (fun st => (Inv st ∧ Waits st) ∧ Due c r st)
    (fun _ _ _ h hl hstep => ⟨⟨h.1.1.step hstep, h.1.2.step h.1.1 hstep⟩,
      h.2.step h.1.1 h.1.2 htopic hl hstep⟩)
    ⟨hwaits₀, .triggerWill hr hown⟩ (.of_forall hkept _) hrun
  refine ⟨fun hrest => ?_, exists_rest true hwaits⟩
  rcases hdue with hhanded | ⟨-, harmed⟩
  · exact hinv.published_of_handed hrest (List.mem_map_of_mem hhanded)
  · -- its goroutine would still be there
    obtain ⟨t, ht⟩ := Option.isSome_iff_exists.mp harmed
    obtain ⟨r', -, htimer, -⟩ := hwaits.armed c t ht
    cases (hrest.2 t).symm.trans htimer

/-! ## A will that waits, is replaced and woken too late -/

def willOf (topic : String) (delay : ℤ) (conn : ℕ) : WillMessage where
  clientID := ascii "c"
  topic := ascii topic
  delay := delay
  conn := some conn

/-- The first will waits when the second replaces it; its goroutine still takes the
timer. The second is triggered twice. -/
def replacedWhileWaiting : List Label :=
  [.registerWill (willOf "a" 5 1), .triggerWill (ascii "c") (some 1),
    .registerWill (willOf "b" 0 2), .expire 0, .triggerWill (ascii "c") (some 2),
    .triggerWill (ascii "c") (some 2), .publish 0]

theorem replacedWhileWaiting_published_once :
    ∃ st, exec (step true) {} replacedWhileWaiting = some st ∧
      st.published.map Registration.id = [1] ∧
      ∀ id, (st.published.map Registration.id).count id ≤ 1 :=
  exec_reaches (by decide +kernel) fun st hst _ =>
    (published_at_most_once true replacedWhileWaiting st hst).1

/-- What happens while a delayed will waits, and its publication. -/
def meanwhile : List Label :=
  [.registerWill { willOf "b" 0 2 with clientID := ascii "d" }, .cancelWill (ascii "d"), .expire 0,
    .publish 0]

theorem published_of_triggered_delayed :
    ∃ st₀ r st, exec (step true) {} [.registerWill (willOf "a" 5 1)] = some st₀ ∧
      st₀.wills (ascii "c") = some r ∧
      exec (step true) (st₀.triggerWill (ascii "c") (some 1)) meanwhile = some st ∧
      (st.published.map Registration.id).count r.id = 1 := by
  refine ⟨_, _, _, rfl, rfl, rfl, ?_⟩
  have hkept : ∀ l ∈ meanwhile, ¬ Withdraws (ascii "c") l := by
    have hne : ascii "d" ≠ ascii "c" := by decide
    simp [meanwhile, Withdraws, hne]
  exact (@published_of_triggered [.registerWill (willOf "a" 5 1)] meanwhile _ _ (ascii "c") _
    (some 1) rfl rfl (by decide) (by decide) hkept rfl).1 ⟨rfl, fun t => by cases t <;> rfl⟩

end SharkMqtt.Broker.Wills
