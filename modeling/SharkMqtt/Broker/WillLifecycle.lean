import SharkMqtt.Broker.Delivery
import SharkMqtt.Broker.Wills

/-!
# Wills over the life of their connections

Which will is published is decided by the order of calls on the handler: `CancelWill`
by a handshake that resumes the session, `TriggerWill` for the connection it takes
over, `FireWill` when it starts clean, `RegisterWill` for its own will
(`HandleConnection`), then `TriggerWill` or `RemoveWill` when its read loop ends
(`abnormalDisconnect`, `gracefulDisconnect` in `broker/conn_lifecycle.go`).

The machine runs any number of connections of one ClientID against the handler, one
call at a time, up to the `WillHandler.Stop` at the end of a shutdown. A step that
reads the packet or the error that ends a read loop is apart from the step that acts
on it. `ended` is a ghost: what has settled the fate of a connection's will. It is the
first of the takeover that triggers it and the end of the connection's own read loop.

Two orders lose a will. A resuming handshake cancels before it triggers, so that the
will of a connection it takes over is dropped, delayed or not; and every DISCONNECT
removes the will, whatever its reason, and whichever connection registered it; so does,
by design, a read loop that fails during a shutdown. Runs without these steps publish
every will as they should (`published_once_of_heeded`), and `superseded_spares_will` says
which steps of a connection that is in the map, or was, touch the will of another.
-/

namespace SharkMqtt.Broker.WillLifecycle

open Protocol Lib Wills Function

abbrev ConnID := ℕ

/-! ## The machine -/

/-- What ends a read loop: a failure (a network or decode error, the keep-alive
deadline, a second CONNECT), one after which `abnormalDisconnect` finds the broker shutting
down, a DISCONNECT, or a re-authentication that is refused. -/
inductive Cause where
  | failure
  | shutdown
  | disconnect (reasonCode : UInt8)
  | reauth
deriving DecidableEq

inductive Ending where
  | takenOver
  | readLoop (cause : Cause)
deriving DecidableEq

/-- The one ending after which the will is not published. -/
def Ending.graceful : Ending := .readLoop (.disconnect 0)

/-- The next step of a connection's goroutine. -/
inductive Phase where
  | connecting
  /-- The session is there; `CancelWill` if it is resumed. -/
  | cancelling (isResuming : Bool)
  /-- The lookup of the connection to take over, and `TriggerWill` for it. -/
  | looking
  | triggering (old : Option ConnID)
  /-- The locked section that enters the connection in the map. -/
  | registering
  /-- `FireWill` if it starts clean, `RegisterWill` if it has a will. -/
  | firing
  | willing
  | reading
  /-- The read loop is over; `TriggerWill` or `RemoveWill`. -/
  | ending (cause : Cause)
  | leaving
  | finished
deriving DecidableEq

/-- What stays fixed: the ClientID, the server's maximal delay, the CONNECT packets. -/
structure Input where
  c : Str
  maxWillDelay : ℕ
  pkt : ConnID → ConnectPacket

structure State where
  handler : Wills.State := {}
  /-- The ClientID's entry in `connections`. -/
  connection : Option ConnID := none
  shuttingDown : Bool := false
  phase : ConnID → Phase := fun _ => .connecting
  ended : ConnID → Option Ending := fun _ => none
  /-- Ghost: the registrations a resuming handshake has cancelled. -/
  resumedOver : List ℕ := []

/-- The client's Will Delay Interval, capped by the server's maximum and by the
lifetime of the session. -/
def willDelay (maxWillDelay : ℕ) (pkt : ConnectPacket) (expiryInterval : UInt32) : ℕ :=
  let requested := ((pkt.willProperties.bind (·.willDelayInterval)).elim 0 UInt32.toNat) * second
  let capped := if requested > maxWillDelay then maxWillDelay else requested
  if expiryInterval.toNat * second < capped then expiryInterval.toNat * second else capped

def willOf (inp : Input) (κ : ConnID) (expiryInterval : UInt32) : WillMessage where
  clientID := inp.c
  username := (inp.pkt κ).username
  topic := (inp.pkt κ).willTopic
  payload := (inp.pkt κ).willMessage
  qos := (inp.pkt κ).flags.willQoS
  retain := (inp.pkt κ).flags.willRetain
  properties := (inp.pkt κ).willProperties
  delay := willDelay inp.maxWillDelay (inp.pkt κ) expiryInterval
  conn := some κ

inductive Label where
  /-- A CONNECT is accepted and the session created or resumed. -/
  | connect (κ : ConnID) (isResuming : Bool)
  /-- The next step of the connection's goroutine; the argument is what it finds in
  `sess.ExpiryInterval`. -/
  | proceed (κ : ConnID) (expiryInterval : UInt32)
  /-- The read loop reads what ends it; after a failure it loads `shuttingDown`. -/
  | ends (κ : ConnID) (cause : Cause)
  | beginShutdown
  /-- A waiting goroutine or a publication goes on. -/
  | handler (l : Wills.Label)

def call (inp : Input) (κ : ConnID) (expiryInterval : UInt32) : Phase → Option Wills.Label
  | .cancelling true => some (.cancelWill inp.c)
  | .triggering (some old) => some (.triggerWill inp.c (some old))
  | .firing => if (inp.pkt κ).flags.cleanSession then some (.fireWill inp.c) else none
  | .willing =>
    if (inp.pkt κ).flags.willFlag then some (.registerWill (willOf inp κ expiryInterval)) else none
  | .ending .failure => some (.triggerWill inp.c (some κ))
  | .ending _ => some (.removeWill inp.c)
  | _ => none

def Phase.next (connection : Option ConnID) : Phase → Option Phase
  | .connecting => none
  | .cancelling _ => some .looking
  | .looking => some (.triggering connection)
  | .triggering _ => some .registering
  | .registering => some .firing
  | .firing => some .willing
  | .willing => some .reading
  | .reading => none
  | .ending _ => some .leaving
  | .leaving => some .finished
  | .finished => none

/-- The ClientID's entry in the map after the step. -/
def entry (κ : ConnID) (connection : Option ConnID) : Phase → Option ConnID
  | .registering => some κ
  | .leaving => if connection = some κ then none else connection
  | _ => connection

/-- The first thing that settles the connection's will stays recorded. -/
def State.settle (st : State) (κ : ConnID) (how : Ending) : ConnID → Option Ending :=
  if (st.ended κ).isSome then st.ended else update st.ended κ (some how)

/-- A takeover settles the will of the connection it triggers, if it is there; the end
of a read loop settles that of its own. -/
def State.endedAfter (inp : Input) (st : State) (κ : ConnID) : Phase → ConnID → Option Ending
  | .triggering (some old) =>
    if (st.handler.wills inp.c).any fun r => decide (r.will.conn = some old) then
      st.settle old .takenOver
    else st.ended
  | .ending cause => st.settle κ (.readLoop cause)
  | _ => st.ended

def State.resumedOverAfter (inp : Input) (st : State) : Phase → List ℕ
  | .cancelling true => st.resumedOver ++ ((st.handler.wills inp.c).map Registration.id).toList
  | _ => st.resumedOver

/-- One method of the handler, or none. The callback is set when the broker is made. -/
def callHandler (h : Wills.State) : Option Wills.Label → Option Wills.State
  | none => some h
  | some l => Wills.step true h l

/-- The state after a step of the connection's goroutine, given where that leaves the
goroutine and the handler. -/
def State.advance (inp : Input) (st : State) (κ : ConnID) (phase : Phase)
    (handler : Wills.State) : State where
  shuttingDown := st.shuttingDown
  handler := handler
  connection := entry κ st.connection (st.phase κ)
  phase := update st.phase κ phase
  ended := st.endedAfter inp κ (st.phase κ)
  resumedOver := st.resumedOverAfter inp (st.phase κ)

def step (inp : Input) (st : State) : Label → Option State
  | .connect κ isResuming =>
    -- a will topic with wildcards is refused, and a clean start never resumes
    if st.phase κ = .connecting ∧
        ((inp.pkt κ).flags.willFlag → validatePublishTopic (inp.pkt κ).willTopic = true) ∧
        (isResuming → (inp.pkt κ).flags.cleanSession = false) then
      some { st with phase := update st.phase κ (.cancelling isResuming) }
    else none
  | .proceed κ expiryInterval =>
    match (st.phase κ).next st.connection, callHandler st.handler
        (call inp κ expiryInterval (st.phase κ)) with
    | some phase, some handler => some (st.advance inp κ phase handler)
    | _, _ => none
  | .ends κ cause =>
    if st.phase κ = .reading ∧ (cause = .failure → st.shuttingDown = false) ∧
        (cause = .shutdown → st.shuttingDown = true) then
      some { st with phase := update st.phase κ (.ending cause) }
    else none
  | .beginShutdown => some { st with shuttingDown := true }
  | .handler l =>
    match l with
    | .expire _ | .quit _ | .publish _ =>
      (Wills.step true st.handler l).map fun h => { st with handler := h }
    | _ => none

/-! ## The condition -/

/-- The condition on the next step of a connection: a resuming handshake cancels no
will that is to be published at once; a handshake registers its will over none; a
DISCONNECT is processed only by the connection whose will is registered, with reason
0x00 and before a takeover has triggered it; and while a will is registered no
re-authentication fails, and no read loop during a shutdown. -/
def HeedsAt (inp : Input) (st : State) (κ : ConnID) : Phase → Prop
  | .cancelling true => ∀ r ∈ st.handler.wills inp.c, 0 < r.will.delay
  | .willing => (inp.pkt κ).flags.willFlag = true → (st.handler.wills inp.c).isNone = true
  | .ending (.disconnect reasonCode) =>
    ∀ r ∈ st.handler.wills inp.c,
      r.will.conn = some κ ∧ reasonCode = 0 ∧ (st.handler.cancel inp.c).isNone = true
  | .ending .reauth | .ending .shutdown => (st.handler.wills inp.c).isNone = true
  | _ => True

def Heeds (inp : Input) (st : State) : Label → Prop
  | .proceed κ _ => HeedsAt inp st κ (st.phase κ)
  | _ => True

instance (inp : Input) (st : State) (κ : ConnID) : ∀ p : Phase, Decidable (HeedsAt inp st κ p)
  | .cancelling true | .ending (.disconnect _) =>
    inferInstanceAs (Decidable (∀ r ∈ st.handler.wills inp.c, _))
  | .willing => inferInstanceAs (Decidable (_ → _ = true))
  | .ending .reauth | .ending .shutdown => inferInstanceAs (Decidable (_ = true))
  | .connecting | .cancelling false | .looking | .triggering _ | .registering | .firing
  | .reading | .ending .failure | .leaving | .finished => inferInstanceAs (Decidable True)

instance (inp : Input) (st : State) (l : Label) : Decidable (Heeds inp st l) := by
  cases l <;> dsimp only [Heeds] <;> infer_instance

/-! ## What the handler's methods do to the ClientID's entry -/

section Handler

variable {h : Wills.State} {c : Str} {r : Registration} {conn : Option ConnID}

/-- `TriggerWill` for the owner of a will that does not wait yet. -/
theorem triggerWill_own (hr : h.wills c = some r) (hown : r.will.conn = conn)
    (hunarmed : h.cancel c = none) :
    (h.triggerWill c conn).wills c = some r ∧ ((h.triggerWill c conn).cancel c).isSome = true ∨
      r.id ∈ (h.triggerWill c conn).claimed := by
  have hother : Wills.State.otherOwner r.will conn = false := by simp [Wills.State.otherOwner, hown]
  unfold Wills.State.triggerWill
  rw [hr, hunarmed]
  simp only [hother, Bool.false_eq_true, if_false, Option.isSome_none]
  split_ifs
  · exact Or.inr (by simp [Wills.State.claim])
  · exact Or.inl ⟨hr, by simp [Wills.State.arm]⟩

theorem triggerWill_other {κ κ' : ConnID} (hr : h.wills c = some r)
    (hown : r.will.conn = some κ) (hne : κ' ≠ κ) : h.triggerWill c (some κ') = h := by
  have hother : Wills.State.otherOwner r.will (some κ') = true := by
    simp [Wills.State.otherOwner, hown, Ne.symm hne]
  unfold Wills.State.triggerWill
  rw [hr]
  simp only [hother, if_true]

theorem triggerWill_armed (harmed : (h.cancel c).isSome = true) : h.triggerWill c conn = h := by
  unfold Wills.State.triggerWill
  cases h.wills c with
  | none => rfl
  | some r => simp only [harmed, if_true, ite_self]

theorem fireWill_armed (hr : h.wills c = some r) (harmed : (h.cancel c).isSome = true) :
    r.id ∈ (h.fireWill c).claimed := by
  unfold Wills.State.fireWill
  rw [hr]
  simp only [harmed, if_true]
  simp [Wills.State.claim]

theorem fireWill_unarmed (hunarmed : h.cancel c = none) : h.fireWill c = h := by
  unfold Wills.State.fireWill
  cases h.wills c with
  | none => rfl
  | some r => simp only [hunarmed, Option.isSome_none, Bool.false_eq_true, if_false]

end Handler

/-! ## The fate of a will -/

def Phase.shaking : Phase → Bool
  | .reading | .ending _ | .leaving | .finished => false
  | _ => true

/-- In the read loop, or just out of it. -/
def Phase.atEnd : Phase → Bool
  | .reading | .ending _ => true
  | _ => false

def Phase.over : Phase → Bool
  | .leaving | .finished => true
  | _ => false

/-- Where a registration stands, with what has become of its connection. -/
inductive Fate (inp : Input) (st : State) (r : Registration) (κ : ConnID) : Prop where
  | live (hr : st.handler.wills inp.c = some r) (hunarmed : st.handler.cancel inp.c = none)
      (hphase : (st.phase κ).atEnd = true)
      (hended : st.ended κ = none)
  | waiting (hr : st.handler.wills inp.c = some r)
      (harmed : (st.handler.cancel inp.c).isSome = true) (how : Ending)
      (hended : st.ended κ = some how) (hhow : how ≠ .graceful)
  | claimed (hmem : r.id ∈ st.handler.claimed) (how : Ending) (hended : st.ended κ = some how)
      (hhow : how ≠ .graceful)
  | resumed (hgone : Gone r.id st.handler) (hmem : r.id ∈ st.resumedOver)
      (hdelay : 0 < r.will.delay)
  | withdrawn (hgone : Gone r.id st.handler) (hended : st.ended κ = some .graceful)

structure Inv (inp : Input) (st : State) : Prop where
  handler : Wills.Inv st.handler
  waits : Waits st.handler
  unlost : Unlost st.handler
  owned : ∀ r ∈ st.handler.registered, r.will.clientID = inp.c ∧ r.will.topic ≠ [] ∧
    ∃ κ, r.will.conn = some κ ∧ (st.phase κ).shaking = false
  fresh : ∀ κ, (st.phase κ).shaking = true → st.ended κ = none
  settled : ∀ κ, (st.phase κ).over = true → (st.ended κ).isSome = true
  valid : ∀ κ, st.phase κ ≠ .connecting → (inp.pkt κ).flags.willFlag = true →
    (inp.pkt κ).willTopic ≠ []
  fates : ∀ r ∈ st.handler.registered, ∀ κ, r.will.conn = some κ → Fate inp st r κ

theorem inv_init (inp : Input) : Inv inp {} where
  handler := Wills.inv_init
  waits := waits_init
  unlost := ⟨by simp, List.Subset.refl _⟩
  owned := by simp
  fresh := fun _ _ => rfl
  settled := by rintro κ ⟨⟩
  valid := fun _ hne => absurd rfl hne
  fates := by simp

variable {h' : Wills.State}

section Steps

variable {inp : Input} {st st' : State} {r : Registration} {κ κ' : ConnID} {how : Ending}
  {p phase : Phase}

/-- What is claimed or gone stays so; only a registration in the map needs a look. -/
theorem Fate.keep (h : Fate inp st r κ) (hmove : Moves st.handler st'.handler)
    (hresumed : st.resumedOver ⊆ st'.resumedOver)
    (hended : ∀ how, st.ended κ = some how → st'.ended κ = some how)
    (hmap : st.handler.wills inp.c = some r → Fate inp st' r κ) : Fate inp st' r κ := by
  cases h with
  | live hr | waiting hr => exact hmap hr
  | claimed hmem how he hhow =>
    refine .claimed ?_ how (hended how he) hhow
    cases hmove with
    | registers r' _ _ _ hclaimed => exact hclaimed ▸ hmem
    | claims c' r' _ _ _ hclaimed => exact hclaimed ▸ List.mem_append_left _ hmem
    | drops _ _ hclaimed => exact hclaimed ▸ hmem
  | resumed hgone hmem hdelay => exact .resumed (hgone.move hmove) (hresumed hmem) hdelay
  | withdrawn hgone he => exact .withdrawn (hgone.move hmove) (hended _ he)

theorem settle_mono {how' : Ending} (he : st.ended κ = some how) :
    st.settle κ' how' κ = some how := by
  unfold State.settle
  split_ifs with hsome
  · exact he
  · rcases eq_or_ne κ κ' with rfl | hne
    · rw [he] at hsome
      exact absurd rfl hsome
    · rw [update_of_ne hne]
      exact he

theorem settle_of_ne (hne : κ ≠ κ') : st.settle κ' how κ = st.ended κ := by
  unfold State.settle
  split_ifs
  · rfl
  · exact update_of_ne hne _ _

theorem endedAfter_mono (he : st.ended κ = some how) : st.endedAfter inp κ' p κ = some how := by
  unfold State.endedAfter
  split
  · split_ifs
    · exact settle_mono he
    · exact he
  · exact settle_mono he
  · exact he

theorem subset_resumedOverAfter (inp : Input) (st : State) (p : Phase) :
    st.resumedOver ⊆ st.resumedOverAfter inp p := by
  unfold State.resumedOverAfter
  split
  · exact List.subset_append_left _ _
  · exact List.Subset.refl _

theorem shaking_next {p' : Phase} {connection : Option ConnID} (h : p.next connection = some p')
    (hp : p.shaking = false) : p'.shaking = false := by
  cases p <;> cases h <;> first | rfl | cases hp

variable {expiryInterval : UInt32} {handler : Wills.State}

theorem proceed_cases (h : step inp st (.proceed κ expiryInterval) = some st') :
    ∃ phase handler, (st.phase κ).next st.connection = some phase ∧
      callHandler st.handler (call inp κ expiryInterval (st.phase κ)) = some handler ∧
      st' = st.advance inp κ phase handler := by
  simp only [step] at h
  split at h
  next phase handler hnext hcall =>
    cases h
    exact ⟨phase, handler, hnext, hcall, rfl⟩
  · cases h

theorem registered_call {h : Wills.State}
    (hcall : callHandler h (call inp κ expiryInterval p) = some h') (hr : r ∈ h'.registered) :
    r ∈ h.registered ∨ p = .willing ∧ (inp.pkt κ).flags.willFlag = true ∧
      r.will.clientID = inp.c ∧ r.will.topic = (inp.pkt κ).willTopic ∧ r.will.conn = some κ ∧
      h'.wills inp.c = some r ∧ h'.cancel inp.c = none := by
  revert hcall
  fun_cases call inp κ expiryInterval p <;> rintro ⟨⟩
  case case5 hwill =>
    simp only [Wills.State.registerWill, stopTimer_frame, List.mem_append,
      List.mem_singleton] at hr
    rcases hr with hr | rfl
    · exact Or.inl hr
    · refine Or.inr ⟨rfl, hwill, rfl, rfl, rfl, update_self _ _ _, ?_⟩
      exact (congrFun (cancel_stopTimer h inp.c) inp.c).trans (update_self _ _ _)
  all_goals exact Or.inl (by simpa using hr)

theorem endedAfter_of_over (hover : phase.over = true)
    (hnext : (st.phase κ).next st.connection = some phase)
    (h : (st.phase κ).over = true → (st.ended κ).isSome = true) :
    (st.endedAfter inp κ (st.phase κ) κ).isSome = true := by
  cases hp : st.phase κ with
  | ending cause =>
    simp only [State.endedAfter, State.settle]
    split_ifs with hsome
    · exact hsome
    · rw [update_self]
      rfl
  | leaving => exact h (by rw [hp]; rfl)
  | _ =>
    rw [hp] at hnext
    cases hnext <;> cases hover

section

variable (h : Inv inp st)

include h

theorem Inv.topics : ∀ r ∈ st.handler.registered, r.will.topic ≠ [] :=
  fun r hr => (h.owned r hr).2.1

theorem Inv.called {l : Option Wills.Label} (hcall : callHandler st.handler l = some handler) :
    Wills.Inv handler ∧ Waits handler ∧ Unlost handler ∧ Moves st.handler handler := by
  cases l with
  | none =>
    cases hcall
    exact ⟨h.handler, h.waits, h.unlost, .of_same rfl rfl rfl rfl⟩
  | some l =>
    exact ⟨h.handler.step hcall, h.waits.step h.handler hcall,
      h.unlost.step h.handler h.waits h.topics hcall, moves_step hcall⟩

theorem Inv.endedAfter_of_shaking (hs : (st.phase κ').shaking = true) :
    st.endedAfter inp κ (st.phase κ) κ' = none := by
  have hkept := h.fresh κ' hs
  cases hp : st.phase κ with
  | triggering old =>
    cases old with
    | none => exact hkept
    | some old =>
      simp only [State.endedAfter]
      split_ifs with hany
      · obtain ⟨r, hr, howner⟩ := (Option.any_eq_true _ _).mp hany
        obtain ⟨-, -, κ₀, hκ₀, hnot⟩ := h.owned r (h.handler.filed inp.c r hr).2.1
        cases hκ₀.symm.trans (of_decide_eq_true howner)
        have hne : κ' ≠ old := by
          rintro rfl
          rw [hs] at hnot
          cases hnot
        exact (settle_of_ne hne).trans hkept
      · exact hkept
  | ending cause =>
    have hne : κ' ≠ κ := by
      rintro rfl
      rw [hp] at hs
      cases hs
    exact (settle_of_ne hne).trans hkept
  | _ => exact hkept

section InMap

variable (hr : st.handler.wills inp.c = some r) (hκ : r.will.conn = some κ')

include hr hκ

theorem Inv.inMap :
    st.handler.cancel inp.c = none ∧ st.ended κ' = none ∧ (st.phase κ').atEnd = true ∨
      (st.handler.cancel inp.c).isSome = true ∧
        ∃ how, st.ended κ' = some how ∧ how ≠ .graceful := by
  obtain ⟨-, hmem, hun⟩ := h.handler.filed inp.c r hr
  cases h.fates r hmem κ' hκ with
  | live _ hunarmed hphase hended => exact Or.inl ⟨hunarmed, hended, hphase⟩
  | waiting _ harmed how hended hhow => exact Or.inr ⟨harmed, how, hended, hhow⟩
  | claimed hclaimed => exact absurd hclaimed hun
  | resumed hgone | withdrawn hgone => exact absurd rfl (hgone.absent inp.c r hr)

theorem Inv.carry (hwills : st'.handler.wills inp.c = st.handler.wills inp.c)
    (hcancel : st'.handler.cancel inp.c = st.handler.cancel inp.c)
    (hended : st'.ended κ' = st.ended κ')
    (hphase : (st.phase κ').atEnd = true → (st'.phase κ').atEnd = true) : Fate inp st' r κ' := by
  rcases h.inMap hr hκ with ⟨hunarmed, he, hp⟩ | ⟨harmed, how, he, hhow⟩
  · exact .live (hwills.trans hr) (hcancel.trans hunarmed) (hphase hp) (hended.trans he)
  · exact .waiting (hwills.trans hr) (hcancel ▸ harmed) how (hended.trans he) hhow

theorem Inv.trigger (hhow : how ≠ .graceful)
    (hhandler : st'.handler = st.handler.triggerWill inp.c (some κ'))
    (hended : st'.ended = st.settle κ' how) : Fate inp st' r κ' := by
  rcases h.inMap hr hκ with ⟨hunarmed, he, -⟩ | ⟨harmed, how', he, hhow'⟩
  · have he' : st'.ended κ' = some how := by
      rw [hended, State.settle, he]
      simp
    rcases triggerWill_own hr hκ hunarmed with ⟨hr', harmed'⟩ | hclaimed
    · exact .waiting (hhandler ▸ hr') (hhandler ▸ harmed') how he' hhow
    · exact .claimed (hhandler ▸ hclaimed) how he' hhow
  · have he' : st'.ended κ' = some how' := by
      rw [hended, State.settle, he]
      exact he
    rw [triggerWill_armed harmed] at hhandler
    exact .waiting (hhandler ▸ hr) (hhandler ▸ harmed) how' he' hhow'

theorem Inv.advance_silent {p : Phase} (hphase : st.phase κ = p) (hp : p.atEnd = false)
    (hended : st.endedAfter inp κ p = st.ended) (phase : Phase) :
    Fate inp (st.advance inp κ phase st.handler) r κ' := by
  subst hphase
  refine h.carry hr hκ rfl rfl (congrFun hended κ') fun hend => ?_
  have hne : κ' ≠ κ := by
    rintro rfl
    rw [hp] at hend
    cases hend
  simpa only [State.advance, update_of_ne hne] using hend

/-- The end of a read loop: the will is triggered, or removed as the condition admits. -/
theorem Inv.advance_ending {cause : Cause} (hp : st.phase κ = .ending cause)
    (hok : HeedsAt inp st κ (.ending cause)) (hcall : callHandler st.handler
      (call inp κ expiryInterval (.ending cause)) = some handler) (phase : Phase) :
    Fate inp (st.advance inp κ phase handler) r κ' := by
  cases cause with
  | failure =>
    cases hcall
    rcases eq_or_ne κ' κ with rfl | hne
    · refine h.trigger hr hκ (by decide : Ending.readLoop .failure ≠ .graceful) rfl ?_
      simp [State.advance, hp, State.endedAfter]
    · rw [triggerWill_other hr hκ hne.symm]
      refine h.carry hr hκ rfl rfl ?_ fun hend => ?_
      · simp only [State.advance, hp, State.endedAfter]
        exact settle_of_ne hne
      · simpa only [State.advance, update_of_ne hne] using hend
  | disconnect reasonCode =>
    obtain ⟨hc, hmem, hun⟩ := h.handler.filed inp.c r hr
    obtain ⟨hown, rfl, hunarmed⟩ := hok r hr
    cases hown.symm.trans hκ
    have hstep : Wills.step true st.handler (.removeWill inp.c) = some handler := hcall
    refine .withdrawn (gone_of_withdraws h.handler (by exact rfl) hstep hmem hc hun) ?_
    rcases h.inMap hr hκ with ⟨-, he, -⟩ | ⟨harmed, -⟩
    · simp [State.advance, hp, State.endedAfter, State.settle, he, Ending.graceful]
    · rw [Option.isNone_iff_eq_none.mp hunarmed] at harmed
      cases harmed
  | reauth | shutdown =>
    have hnone : (st.handler.wills inp.c).isNone = true := hok
    rw [hr] at hnone
    cases hnone

theorem Inv.advance_inMap (hok : HeedsAt inp st κ (st.phase κ))
    (hnext : (st.phase κ).next st.connection = some phase) (hcall : callHandler st.handler
      (call inp κ expiryInterval (st.phase κ)) = some handler) :
    Fate inp (st.advance inp κ phase handler) r κ' := by
  obtain ⟨hc, hmem, hun⟩ := h.handler.filed inp.c r hr
  generalize hp : st.phase κ = p at hok hnext hcall
  cases p with
  | connecting | reading | finished => cases hnext
  | looking | registering | leaving =>
    cases hcall
    exact h.advance_silent hr hκ hp rfl rfl phase
  | cancelling isResuming =>
    cases isResuming with
    | false =>
      cases hcall
      exact h.advance_silent hr hκ hp rfl rfl phase
    | true =>
      have hstep : Wills.step true st.handler (.cancelWill inp.c) = some handler := hcall
      refine .resumed (gone_of_withdraws h.handler (by exact rfl) hstep hmem hc hun) ?_ (hok r hr)
      simp [State.advance, hp, State.resumedOverAfter, hr]
  | triggering old =>
    cases old with
    | none =>
      cases hcall
      exact h.advance_silent hr hκ hp rfl rfl phase
    | some old =>
      cases hcall
      rcases eq_or_ne κ' old with rfl | hne
      · refine h.trigger hr hκ (by decide : Ending.takenOver ≠ .graceful) rfl ?_
        simp [State.advance, hp, State.endedAfter, hr, hκ]
      · rw [triggerWill_other hr hκ hne.symm]
        refine h.advance_silent hr hκ hp rfl ?_ phase
        simp [State.endedAfter, hr, hκ, hne]
  | firing =>
    simp only [call] at hcall
    split_ifs at hcall
    · cases hcall
      rcases h.inMap hr hκ with ⟨hunarmed, -, -⟩ | ⟨harmed, how, he, hhow⟩
      · rw [fireWill_unarmed hunarmed]
        exact h.advance_silent hr hκ hp rfl rfl phase
      · exact .claimed (fireWill_armed hr harmed) how (endedAfter_mono he) hhow
    · cases hcall
      exact h.advance_silent hr hκ hp rfl rfl phase
  | willing =>
    simp only [call] at hcall
    split_ifs at hcall with hwill
    · cases hr.symm.trans (Option.isNone_iff_eq_none.mp (hok hwill))
    · cases hcall
      exact h.advance_silent hr hκ hp rfl rfl phase
  | ending cause => exact h.advance_ending hr hκ hp hok hcall phase

end InMap

theorem Inv.proceed (hok : HeedsAt inp st κ (st.phase κ))
    (hstep : step inp st (.proceed κ expiryInterval) = some st') : Inv inp st' := by
  obtain ⟨phase, handler, hnext, hcall, rfl⟩ := proceed_cases hstep
  obtain ⟨hinv, hwaits, hunlost, hmove⟩ := h.called hcall
  -- the phases of the others stay
  have hphase : ∀ {κ'}, κ' ≠ κ → (st.advance inp κ phase handler).phase κ' = st.phase κ' :=
    fun hne => update_of_ne hne _ _
  have hself : (st.advance inp κ phase handler).phase κ = phase := update_self _ _ _
  refine ⟨hinv, hwaits, hunlost, fun r hr => ?_, fun κ' hs => ?_, fun κ' hover => ?_,
    fun κ' hne hflag => ?_, fun r hr κ' hκ' => ?_⟩
  · rcases registered_call hcall hr with hold | ⟨hp, hwill, hc, htopic, hconn, -, -⟩
    · obtain ⟨hc, htopic, κ', hκ', hnot⟩ := h.owned r hold
      refine ⟨hc, htopic, κ', hκ', ?_⟩
      rcases eq_or_ne κ' κ with rfl | hne
      · rw [hself]
        exact shaking_next hnext hnot
      · rw [hphase hne]
        exact hnot
    · refine ⟨hc, ?_, κ, hconn, ?_⟩
      · rw [htopic]
        exact h.valid κ (by rw [hp]; decide) hwill
      · rw [hp] at hnext
        cases hnext
        rw [hself]
        rfl
  · apply h.endedAfter_of_shaking
    rcases eq_or_ne κ' κ with rfl | hne
    · rw [hself] at hs
      by_contra hnot
      rw [shaking_next hnext (Bool.not_eq_true _ ▸ hnot)] at hs
      cases hs
    · rw [hphase hne] at hs
      exact hs
  · rcases eq_or_ne κ' κ with rfl | hne
    · rw [hself] at hover
      exact endedAfter_of_over hover hnext (h.settled κ')
    · rw [hphase hne] at hover
      obtain ⟨how, hhow⟩ := Option.isSome_iff_exists.mp (h.settled κ' hover)
      exact Option.isSome_iff_exists.mpr ⟨how, endedAfter_mono hhow⟩
  · rcases eq_or_ne κ' κ with rfl | hne'
    · refine h.valid κ' ?_ hflag
      intro hp
      rw [hp] at hnext
      cases hnext
    · rw [hphase hne'] at hne
      exact h.valid κ' hne hflag
  · rcases registered_call hcall hr with hold | ⟨hp, -, -, -, hconn, hnew, hunarmed⟩
    · apply (h.fates r hold κ' hκ').keep hmove (subset_resumedOverAfter inp st _)
      · intro how
        exact endedAfter_mono
      · intro hmap
        exact h.advance_inMap hmap hκ' hok hnext hcall
    · -- the will it has just registered
      cases hconn.symm.trans hκ'
      have hfresh : st.endedAfter inp κ (st.phase κ) κ = none := by
        apply h.endedAfter_of_shaking
        rw [hp]
        rfl
      refine .live hnew hunarmed ?_ hfresh
      rw [hp] at hnext
      cases hnext
      rw [hself]
      rfl

theorem Inv.moved (hshaking : phase.shaking = (st.phase κ).shaking)
    (hend : (st.phase κ).atEnd = true → phase.atEnd = true) (hover : phase.over = false)
    (hvalid : (inp.pkt κ).flags.willFlag = true → (inp.pkt κ).willTopic ≠ []) :
    Inv inp { st with phase := update st.phase κ phase } := by
  have hsame : ∀ κ', (update st.phase κ phase κ').shaking = (st.phase κ').shaking := by
    intro κ'
    rcases eq_or_ne κ' κ with rfl | hne
    · rw [update_self]
      exact hshaking
    · rw [update_of_ne hne]
  refine ⟨h.handler, h.waits, h.unlost, fun r hr => ?_, fun κ' hs => ?_, fun κ' ho => ?_,
    fun κ' hne hflag => ?_, fun r hr κ' hκ' => ?_⟩
  · obtain ⟨hc, htopic, κ', hκ', hnot⟩ := h.owned r hr
    exact ⟨hc, htopic, κ', hκ', (hsame κ').trans hnot⟩
  · exact h.fresh κ' ((hsame κ').symm.trans hs)
  · rcases eq_or_ne κ' κ with rfl | hne
    · simp only [update_self, hover, Bool.false_eq_true] at ho
    · simp only [update_of_ne hne] at ho
      exact h.settled κ' ho
  · rcases eq_or_ne κ' κ with rfl | hne'
    · exact hvalid hflag
    · simp only [update_of_ne hne'] at hne
      exact h.valid κ' hne hflag
  · refine (h.fates r hr κ' hκ').keep (.of_same rfl rfl rfl rfl) (List.Subset.refl _)
      (fun _ => id) fun hmap => h.carry hmap hκ' rfl rfl rfl fun hlive => ?_
    rcases eq_or_ne κ' κ with rfl | hne
    · simp only [update_self]
      exact hend hlive
    · simp only [update_of_ne hne]
      exact hlive

theorem Inv.connect {isResuming : Bool}
    (hstep : step inp st (.connect κ isResuming) = some st') : Inv inp st' := by
  simp only [step] at hstep
  split_ifs at hstep with hguard
  obtain ⟨hp, hvalid, -⟩ := hguard
  cases hstep
  apply h.moved (by rw [hp]; rfl) (by rw [hp]; rintro ⟨⟩) rfl
  intro hflag hempty
  have htopic := hvalid hflag
  rw [hempty] at htopic
  cases htopic

theorem Inv.ends {cause : Cause}
    (hstep : step inp st (.ends κ cause) = some st') : Inv inp st' := by
  simp only [step] at hstep
  split_ifs at hstep with hguard
  obtain ⟨hp, -⟩ := hguard
  cases hstep
  apply h.moved (by rw [hp]; rfl) (fun _ => rfl) rfl
  exact h.valid κ (by rw [hp]; decide)

/-- A step of a waiting goroutine or of a publication. -/
theorem Inv.handled {l : Wills.Label} (hcall : Wills.step true st.handler l = some handler)
    (hregistered : handler.registered = st.handler.registered)
    (hmap : ∀ r, st.handler.wills inp.c = some r → ∀ κ, r.will.conn = some κ →
      Fate inp { st with handler := handler } r κ) : Inv inp { st with handler := handler } := by
  obtain ⟨hinv, hwaits, hunlost, hmove⟩ := h.called (l := some l) hcall
  refine ⟨hinv, hwaits, hunlost, ?_, h.fresh, h.settled, h.valid, ?_⟩
  · simp only [hregistered]
    exact h.owned
  · simp only [hregistered]
    intro r hr κ hκ
    exact (h.fates r hr κ hκ).keep hmove (List.Subset.refl _) (fun _ => id)
      fun hr' => hmap r hr' κ hκ

theorem Inv.expire {t : ℕ} {tm : Timer} (htm : st.handler.timers t = some tm) :
    Inv inp { st with handler := st.handler.expire t tm } := by
  have hcall : Wills.step true st.handler (.expire t) = some (st.handler.expire t tm) := by
    simp only [Wills.step, htm, Option.map_some]
  apply h.handled hcall
  · unfold Wills.State.expire
    split
    · rfl
    · split_ifs <;> rfl
  intro r hr κ hκ
  obtain ⟨-, hreg, hclient⟩ := h.waits.timers t tm htm
  have hc : tm.clientID = inp.c := hclient.symm.trans (h.owned tm.reg hreg).1
  simp only [Wills.State.expire, hc, hr]
  split_ifs with hid
  · -- the armed goroutine: its will is claimed
    have harmed := h.waits.current t tm htm r (hc.symm ▸ hr) hid
    rcases h.inMap hr hκ with ⟨hunarmed, -⟩ | ⟨-, how, hended, hhow⟩
    · rw [hc, hunarmed] at harmed
      cases harmed
    · refine .claimed ?_ how hended hhow
      simp [Wills.State.claim, Wills.State.leave, hid]
  · exact h.carry hr hκ rfl rfl rfl id

theorem Inv.step {l : Label} (hok : Heeds inp st l)
    (hstep : step inp st l = some st') : Inv inp st' := by
  cases l with
  | connect κ isResuming => exact h.connect hstep
  | proceed κ expiryInterval => exact h.proceed hok hstep
  | ends κ cause => exact h.ends hstep
  | beginShutdown =>
    cases hstep
    refine { h with fates := fun r hr κ hκ => ?_ }
    refine (h.fates r hr κ hκ).keep (.of_same rfl rfl rfl rfl) (List.Subset.refl _) (fun _ => id) ?_
    exact fun hr' => h.carry hr' hκ rfl rfl rfl id
  | handler l =>
    cases l with
    | expire t =>
      obtain ⟨handler, hcall, rfl⟩ := Option.map_eq_some_iff.mp hstep
      obtain ⟨tm, htm, rfl⟩ := Wills.step_expire_eq_some hcall
      exact h.expire htm
    | quit t =>
      obtain ⟨handler, hcall, rfl⟩ := Option.map_eq_some_iff.mp hstep
      obtain ⟨tm, -, -, rfl⟩ := Wills.step_quit_eq_some hcall
      exact h.handled hcall rfl fun r hr κ hκ => h.carry hr hκ rfl rfl rfl id
    | publish i =>
      obtain ⟨handler, hcall, rfl⟩ := Option.map_eq_some_iff.mp hstep
      obtain ⟨r, -, rfl⟩ := Wills.step_publish_eq_some hcall
      exact h.handled hcall rfl fun r hr κ hκ => h.carry hr hκ rfl rfl rfl id
    | _ => cases hstep

end

end Steps

/-! ## The handler over a run -/

variable {inp : Input} {st : State} {h : Wills.State} {st' : State} {r : Registration}

theorem handler_step {l : Label} (hstep : step inp st l = some st') :
    st'.handler = st.handler ∨ ∃ lw, Wills.step true st.handler lw = some st'.handler := by
  cases l with
  | connect | ends =>
    simp only [step] at hstep
    split_ifs at hstep
    cases hstep
    exact Or.inl rfl
  | beginShutdown =>
    cases hstep
    exact Or.inl rfl
  | proceed κ expiryInterval =>
    obtain ⟨phase, handler, -, hcall, rfl⟩ := proceed_cases hstep
    cases hl : call inp κ expiryInterval (st.phase κ) with
    | none =>
      rw [hl] at hcall
      exact Or.inl (Option.some.inj hcall).symm
    | some lw =>
      rw [hl] at hcall
      exact Or.inr ⟨lw, hcall⟩
  | handler l =>
    cases l with
    | expire t | quit t | publish i =>
      obtain ⟨handler, hcall, rfl⟩ := Option.map_eq_some_iff.mp hstep
      exact Or.inr ⟨_, hcall⟩
    | _ => cases hstep

theorem handler_step_inv {l : Label} (h : Wills.Inv st.handler ∧ Waits st.handler)
    (hstep : step inp st l = some st') : Wills.Inv st'.handler ∧ Waits st'.handler := by
  rcases handler_step hstep with hsame | ⟨lw, hlw⟩
  · rw [hsame]
    exact h
  · exact ⟨h.1.step hlw, h.2.step h.1 hlw⟩

theorem handler_of_run {ls : List Label} (hrun : exec (step inp) {} ls = some st) :
    Wills.Inv st.handler ∧ Waits st.handler :=
  exec_preserves (fun st : State => Wills.Inv st.handler ∧ Waits st.handler)
    (fun _ _ _ h hstep => handler_step_inv h hstep) ⟨Wills.inv_init, waits_init⟩ hrun

/-! ## Every will is published as it should be -/

theorem published_of_claimed (hinv : Wills.Inv h) (hunlost : Unlost h) (hrest : AtRest h) {id : ℕ}
    (hid : id ∈ h.claimed) : (h.published.map Registration.id).count id = 1 :=
  hinv.published_of_handed hrest (hunlost.claimed hid)

theorem unpublished_of_unclaimed (hinv : Wills.Inv h) {id : ℕ} (hid : id ∉ h.claimed) :
    (h.published.map Registration.id).count id = 0 := by
  apply List.count_eq_zero_of_not_mem
  intro hmem
  apply hid
  apply hinv.handed.subset
  rw [Wills.State.handed, List.map_append]
  exact List.mem_append_right _ hmem

theorem exec_handler :
    ∀ {ls : List Wills.Label} {st : State} {h' : Wills.State},
      (∀ l ∈ ls, Label.isOwn l = true) → exec (Wills.step true) st.handler ls = some h' →
        exec (step inp) st (ls.map .handler) = some { st with handler := h' } := by
  intro ls
  induction ls with
  | nil =>
    intro st h' _ hrun
    cases hrun
    rfl
  | cons l ls ih =>
    intro st h' hown hrun
    obtain ⟨h₁, hstep, hrest⟩ := exec_cons_eq_some.mp hrun
    refine exec_cons_eq_some.mpr ⟨{ st with handler := h₁ }, ?_, ih (fun l' hl' =>
      hown l' (List.mem_cons_of_mem _ hl')) hrest⟩
    have hl := hown l List.mem_cons_self
    cases l with
    | expire t | quit t | publish i => simp only [step, hstep, Option.map_some]
    | _ => cases hl

/-- **Where a run heeds the condition, a will is published exactly once if its
connection ends otherwise than with DISCONNECT 0x00, unless it is delayed and a
connection that resumes the session has cancelled it; after DISCONNECT 0x00, and while
nothing has ended the connection, it is not published.** The handler can always come
to rest by steps of its own. -/
theorem published_once_of_heeded (inp : Input) (ls : List Label) (st : State)
    (hheeds : Along (step inp) (Heeds inp) {} ls) (hrun : exec (step inp) {} ls = some st) :
    (∀ κ, (st.phase κ).over = true → (st.ended κ).isSome = true) ∧
    (∃ own : List Wills.Label, ∃ st', exec (step inp) st (own.map .handler) = some st' ∧
      AtRest st'.handler ∧ st'.ended = st.ended) ∧
    ∀ r ∈ st.handler.registered, ∃ κ, r.will.conn = some κ ∧
      (∀ how, st.ended κ = some how → how ≠ .graceful → AtRest st.handler →
        (st.handler.published.map Registration.id).count r.id = 1 ∨
          0 < r.will.delay ∧ r.id ∈ st.resumedOver ∧
            (st.handler.published.map Registration.id).count r.id = 0) ∧
      (st.ended κ = none ∨ st.ended κ = some .graceful →
        (st.handler.published.map Registration.id).count r.id = 0) := by
  have h : Inv inp st := exec_invariant (Inv inp) (fun _ _ _ h => h.step) (inv_init inp) hheeds hrun
  refine ⟨h.settled, ?_, fun r hr => ?_⟩
  · obtain ⟨own, h', hown, hrun', hrest⟩ := exists_rest true h.waits
    exact ⟨own, { st with handler := h' }, exec_handler hown hrun', hrest, rfl⟩
  obtain ⟨-, -, κ, hκ, -⟩ := h.owned r hr
  refine ⟨κ, hκ, fun how hended hhow hrest => ?_, fun hended => ?_⟩
  · cases h.fates r hr κ hκ with
    | live _ _ _ hnone =>
      rw [hended] at hnone
      cases hnone
    | waiting _ harmed =>
      -- its goroutine would still be there
      obtain ⟨t, ht⟩ := Option.isSome_iff_exists.mp harmed
      obtain ⟨r', -, htimer, -⟩ := h.waits.armed inp.c t ht
      rw [hrest.2 t] at htimer
      cases htimer
    | claimed hclaimed => exact Or.inl (published_of_claimed h.handler h.unlost hrest hclaimed)
    | resumed hgone hmem hdelay =>
      exact Or.inr ⟨hdelay, hmem, unpublished_of_unclaimed h.handler hgone.unclaimed⟩
    | withdrawn _ hgraceful =>
      rw [hended] at hgraceful
      exact absurd (Option.some.inj hgraceful) hhow
  · apply unpublished_of_unclaimed h.handler
    intro hclaimed
    cases h.fates r hr κ hκ with
    | live hmap | waiting hmap => exact (h.handler.filed inp.c r hmap).2.2 hclaimed
    | claimed _ how hsome hhow =>
      rcases hended with hnone | hgraceful
      · rw [hsome] at hnone
        cases hnone
      · rw [hsome] at hgraceful
        exact hhow (Option.some.inj hgraceful)
    | resumed hgone | withdrawn hgone => exact hgone.unclaimed hclaimed

/-! ### A takeover, then a DISCONNECT -/

/-- Every CONNECT carries a will without a delay; only the second may resume. -/
def sample : Input where
  c := ascii "c"
  maxWillDelay := 0
  pkt := fun κ =>
    { fixedHeader := { packetType := .connect }, protocolName := ascii "MQTT"
      protocolVersion := 5, keepAlive := 0, clientID := ascii "c", willTopic := ascii "will"
      flags := { cleanSession := κ ≠ 1, willFlag := true } }

def shakes (κ : ConnID) (isResuming : Bool) : List Label :=
  .connect κ isResuming :: List.replicate 6 (.proceed κ 0)

/-- What ended its read loop is acted on, and the teardown. -/
def tearsDown (κ : ConnID) : List Label := [.proceed κ 0, .proceed κ 0]

/-- Connection 2 starts clean and takes over 0, whose socket then fails; it ends with
DISCONNECT 0x00. -/
def takeover : List Label :=
  shakes 0 false ++ shakes 2 false ++ .ends 0 .failure :: tearsDown 0 ++
    .ends 2 (.disconnect 0) :: tearsDown 2 ++ [.handler (.publish 0)]

theorem takeover_published_once :
    ∃ st, exec (step sample) {} takeover = some st ∧
      st.handler.registered.map (fun r => (r.id, r.will.conn)) = [(0, some 0), (1, some 2)] ∧
      st.ended 0 = some .takenOver ∧ st.ended 2 = some .graceful ∧
      st.handler.published.map Registration.id = [0] ∧
      ∀ r ∈ st.handler.registered, ∃ κ, r.will.conn = some κ ∧
        (st.ended κ = none ∨ st.ended κ = some .graceful →
          (st.handler.published.map Registration.id).count r.id = 0) := by
  have hheeds : Along (step sample) (Heeds sample) {} takeover := by decide +kernel
  refine exec_reaches (by decide +kernel) fun st hst _ => ?_
  refine ⟨of_exec hst (by decide +kernel), of_exec hst (by decide +kernel),
    of_exec hst (by decide +kernel), fun r hr => ?_⟩
  obtain ⟨-, -, hwills⟩ := published_once_of_heeded sample takeover st hheeds hst
  obtain ⟨κ, hκ, -, hnot⟩ := hwills r hr
  exact ⟨κ, hκ, hnot⟩

/-! ### A takeover that resumes -/

/-- Connection 1 resumes the session and takes over 0: its `CancelWill` comes before the
`TriggerWill`. -/
def resumingTakeover : List Label :=
  shakes 0 false ++ shakes 1 true ++ .ends 0 .failure :: tearsDown 0

theorem resumingTakeover_loses_will :
    ∃ st r, exec (step sample) {} resumingTakeover = some st ∧ r ∈ st.handler.registered ∧
      r.will.conn = some 0 ∧ r.will.delay = 0 ∧ st.ended 0 = some (.readLoop .failure) ∧
      AtRest st.handler ∧ (st.handler.published.map Registration.id).count r.id = 0 := by
  obtain ⟨st, hst⟩ := Option.isSome_iff_exists.mp
    (by decide +kernel : (exec (step sample) {} resumingTakeover).isSome = true)
  have hmem : (some 0, (0 : ℤ)) ∈ st.handler.registered.map fun r => (r.will.conn, r.will.delay) :=
    of_exec hst (by decide +kernel)
  have htimers : st.handler.nextTimer = 0 := of_exec hst (by decide +kernel)
  have hhanded : st.handler.handed.length = 0 := of_exec hst (by decide +kernel)
  obtain ⟨hpending, hpublished⟩ :=
    List.append_eq_nil_iff.mp (List.map_eq_nil_iff.mp (List.length_eq_zero_iff.mp hhanded))
  obtain ⟨r, hr, hvalues⟩ := List.mem_map.mp hmem
  obtain ⟨hconn, hdelay⟩ := Prod.mk.inj hvalues
  refine ⟨st, r, hst, hr, hconn, hdelay, of_exec hst (by decide +kernel),
    (handler_of_run hst).2.atRest hpending htimers, ?_⟩
  rw [hpublished]
  rfl

/-! ## The steps of a superseded connection -/

/-- The connection a step is taken for. A goroutine of the handler acts for the one
whose will it holds. -/
def actor (st : State) : Label → Option ConnID
  | .connect κ _ | .proceed κ _ | .ends κ _ => some κ
  | .handler (.expire t) | .handler (.quit t) =>
    (st.handler.timers t).bind fun tm => tm.reg.will.conn
  | .handler (.publish i) => (st.handler.pending[i]?).bind fun r => r.will.conn
  | .beginShutdown | .handler _ => none

/-- The connection is in the map, or was: only then can it have been superseded. -/
def Phase.entered : Phase → Bool
  | .firing | .willing | .reading | .ending _ | .leaving | .finished => true
  | _ => false

/-- The step takes a will out of the map: the `RemoveWill` of a DISCONNECT, of a refused
re-authentication or of a failure during a shutdown, the `FireWill` of a clean start that
finds it waiting, or a `RegisterWill`. -/
def RemovesAt (inp : Input) (st : State) (κ : ConnID) : Phase → Prop
  | .firing => (inp.pkt κ).flags.cleanSession = true ∧ (st.handler.cancel inp.c).isSome = true
  | .willing => (inp.pkt κ).flags.willFlag = true
  | .ending .shutdown | .ending (.disconnect _) | .ending .reauth => True
  | _ => False

def Removes (inp : Input) (st : State) : Label → Prop
  | .proceed κ _ => RemovesAt inp st κ (st.phase κ)
  | _ => False

/-- The will stays registered, its goroutine waits on, and it is not published. -/
structure Spared (c : Str) (r : Registration) (h h' : Wills.State) : Prop where
  wills : h'.wills c = some r
  cancel : h'.cancel c = h.cancel c
  timer : ∀ t, h.cancel c = some t → h'.timers t = h.timers t
  unclaimed : r.id ∉ h'.claimed
  unpublished : r.id ∉ h'.handed

theorem spared_of {c : Str} (hinv : Wills.Inv h') (hr : h.wills c = some r)
    (hwills : h'.wills c = h.wills c) (hcancel : h'.cancel c = h.cancel c)
    (htimer : ∀ t, h.cancel c = some t → h'.timers t = h.timers t) : Spared c r h h' := by
  have hr' := hwills.trans hr
  have hun := (hinv.filed c r hr').2.2
  exact ⟨hr', hcancel, htimer, hun, fun hmem => hun (hinv.handed.subset hmem)⟩

theorem spared_of_same {c : Str} (hinv : Wills.Inv h') (hr : h.wills c = some r) (hsame : h' = h) :
    Spared c r h h' := by
  subst hsame
  exact spared_of hinv hr rfl rfl fun _ _ => rfl

section Goroutine

variable {c : Str} {r : Registration} {h : Wills.State} {t : ℕ} {tm : Timer} {κ κ' : ConnID}
  (hwaits : Waits h) (htm : h.timers t = some tm) (hκ : tm.reg.will.conn = some κ)
  (hr : h.wills c = some r) (hκ' : r.will.conn = some κ') (hne : κ' ≠ κ)

include hwaits htm hκ hr hκ' hne

/-- A goroutine that waits for another connection's will finds it no longer in the map
under its own number. -/
theorem expire_spares (hinv : Wills.Inv h) :
    (h.expire t tm).wills c = h.wills c ∧ (h.expire t tm).cancel c = h.cancel c := by
  unfold Wills.State.expire
  split
  · exact ⟨rfl, rfl⟩
  next r₁ hr₁ =>
    split_ifs with hid
    · have hreg := (hwaits.timers t tm htm).2.1
      obtain ⟨-, hmem₁, -⟩ := hinv.filed tm.clientID r₁ hr₁
      have hc : c ≠ tm.clientID := by
        rintro rfl
        cases hr.symm.trans hr₁
        rw [hinv.eq_of_id hmem₁ hreg hid, hκ] at hκ'
        exact hne (Option.some.inj hκ').symm
      exact ⟨update_of_ne hc _ _, update_of_ne hc _ _⟩
    · exact ⟨rfl, rfl⟩

/-- It is not the goroutine that waits for the will in the map. -/
theorem timer_ne {t' : ℕ} (ht' : h.cancel c = some t') : t' ≠ t := by
  rintro rfl
  obtain ⟨r', hr', htimer, -⟩ := hwaits.armed c t' ht'
  cases hr.symm.trans hr'
  cases htm.symm.trans htimer
  exact hne (Option.some.inj (hκ'.symm.trans hκ))

/-- **The steps of a goroutine** that waits for another connection's will. -/
theorem spared_of_goroutine (hinv : Wills.Inv h) (hinv' : Wills.Inv h')
    (hstep : h' = h.expire t tm ∨ h' = h.leave t) : Spared c r h h' := by
  have hother : ∀ t', h.cancel c = some t' →
      update h.timers t none t' = h.timers t' := fun t' ht' =>
    update_of_ne (timer_ne hwaits htm hκ hr hκ' hne ht') _ _
  rcases hstep with rfl | rfl
  · obtain ⟨hwills, hcancel⟩ := expire_spares hwaits htm hκ hr hκ' hne hinv
    apply spared_of hinv' hr hwills hcancel
    rw [timers_expire]
    exact hother
  · exact spared_of hinv' hr rfl rfl hother

end Goroutine

section Proceed

variable {κ κ' : ConnID} {expiryInterval : UInt32} {handler : Wills.State}
  (hr : st.handler.wills inp.c = some r)

include hr

/-- `FireWill` publishes what waits, whoever has registered it. -/
theorem spared_firing_iff (hinv' : Wills.Inv handler)
    (hcall : callHandler st.handler (call inp κ expiryInterval .firing) = some handler) :
    Spared inp.c r st.handler handler ↔
      ¬ ((inp.pkt κ).flags.cleanSession = true ∧ (st.handler.cancel inp.c).isSome = true) := by
  simp only [call] at hcall
  split_ifs at hcall with hclean <;> cases hcall
  · rw [hclean]
    simp only [true_and]
    constructor
    · intro hspared harmed
      exact hspared.unclaimed (fireWill_armed hr harmed)
    · intro hunarmed
      exact spared_of_same hinv' hr (fireWill_unarmed (Option.not_isSome_iff_eq_none.mp hunarmed))
  · exact iff_of_true (spared_of_same hinv' hr rfl) fun h => hclean h.1

variable (hκ' : r.will.conn = some κ') (hne : κ' ≠ κ)

include hκ' hne

/-- `RegisterWill` replaces what is registered. -/
theorem spared_willing_iff (hinv' : Wills.Inv handler)
    (hcall : callHandler st.handler (call inp κ expiryInterval .willing) = some handler) :
    Spared inp.c r st.handler handler ↔ ¬ (inp.pkt κ).flags.willFlag = true := by
  simp only [call] at hcall
  split_ifs at hcall with hwill <;> cases hcall
  · simp only [hwill, not_true_eq_false, iff_false]
    intro hspared
    have hnew := hspared.wills
    simp only [Wills.State.registerWill, willOf, update_self] at hnew
    cases hnew
    exact hne (Option.some.inj hκ').symm
  · exact iff_of_true (spared_of_same hinv' hr rfl) hwill

/-- The end of a read loop removes a will by its ClientID or triggers its own. -/
theorem spared_ending_iff {cause : Cause} (hinv' : Wills.Inv handler)
    (hcall : callHandler st.handler
      (call inp κ expiryInterval (.ending cause)) = some handler) :
    Spared inp.c r st.handler handler ↔ ¬ RemovesAt inp st κ (.ending cause) := by
  have hremoved : ¬ Spared inp.c r st.handler (st.handler.removeWill inp.c) := by
    intro hspared
    have hgone := hspared.wills
    simp [Wills.State.removeWill, Wills.State.delete] at hgone
  cases cause with
  | failure =>
    cases hcall
    exact iff_of_true (spared_of_same hinv' hr (triggerWill_other hr hκ' hne.symm)) id
  | disconnect reasonCode | reauth | shutdown =>
    cases hcall
    exact iff_of_false hremoved (not_not.mpr trivial)

theorem spared_proceed_iff (hinv' : Wills.Inv st'.handler) (hentered : (st.phase κ).entered = true)
    (hstep : step inp st (.proceed κ expiryInterval) = some st') :
    Spared inp.c r st.handler st'.handler ↔ ¬ Removes inp st (.proceed κ expiryInterval) := by
  obtain ⟨phase, handler, hnext, hcall, rfl⟩ := proceed_cases hstep
  show _ ↔ ¬ RemovesAt inp st κ (st.phase κ)
  generalize st.phase κ = p at hentered hnext hcall
  cases p with
  | firing => exact spared_firing_iff hr hinv' hcall
  | willing => exact spared_willing_iff hr hκ' hne hinv' hcall
  | ending cause => exact spared_ending_iff hr hκ' hne hinv' hcall
  | leaving =>
    cases hcall
    exact iff_of_true (spared_of_same hinv' hr rfl) id
  | reading | finished => cases hnext
  | _ => cases hentered

end Proceed

/-- **A step taken for a connection that is in the map, or was, leaves the will of another
alone** (it does not remove, cancel or publish it) **exactly when it is none of the steps that
take a will out of the map.** -/
theorem superseded_spares_will (inp : Input) (ls : List Label) (st st' : State) (l : Label)
    (κ κ' : ConnID) (r : Registration) (hrun : exec (step inp) {} ls = some st)
    (hactor : actor st l = some κ) (hentered : (st.phase κ).entered = true)
    (hr : st.handler.wills inp.c = some r) (hκ' : r.will.conn = some κ') (hne : κ' ≠ κ)
    (hstep : step inp st l = some st') :
    Spared inp.c r st.handler st'.handler ↔ ¬ Removes inp st l := by
  obtain ⟨hinv, hwaits⟩ := handler_of_run hrun
  have hinv' := (handler_step_inv ⟨hinv, hwaits⟩ hstep).1
  cases l with
  | connect κ₀ isResuming =>
    cases hactor
    simp only [step] at hstep
    split_ifs at hstep with hguard
    rw [hguard.1] at hentered
    cases hentered
  | beginShutdown => cases hactor
  | ends κ₀ cause =>
    simp only [step] at hstep
    split_ifs at hstep
    cases hstep
    exact ⟨fun _ => id, fun _ => spared_of_same hinv' hr rfl⟩
  | proceed κ₀ expiryInterval =>
    cases hactor
    exact spared_proceed_iff hr hκ' hne hinv' hentered hstep
  | handler l =>
    refine ⟨fun _ => id, fun _ => ?_⟩
    cases l with
    | expire t =>
      obtain ⟨handler, hcall, rfl⟩ := Option.map_eq_some_iff.mp hstep
      obtain ⟨tm, htm, rfl⟩ := Wills.step_expire_eq_some hcall
      have hκ : tm.reg.will.conn = some κ := by
        simpa only [actor, htm, Option.bind_some] using hactor
      exact spared_of_goroutine hwaits htm hκ hr hκ' hne hinv hinv' (.inl rfl)
    | quit t =>
      obtain ⟨handler, hcall, rfl⟩ := Option.map_eq_some_iff.mp hstep
      obtain ⟨tm, htm, -, rfl⟩ := Wills.step_quit_eq_some hcall
      have hκ : tm.reg.will.conn = some κ := by
        simpa only [actor, htm, Option.bind_some] using hactor
      exact spared_of_goroutine hwaits htm hκ hr hκ' hne hinv hinv' (.inr rfl)
    | publish i =>
      obtain ⟨handler, hcall, rfl⟩ := Option.map_eq_some_iff.mp hstep
      obtain ⟨r', -, rfl⟩ := Wills.step_publish_eq_some hcall
      exact spared_of hinv' hr rfl rfl fun _ _ => rfl
    | _ => cases hstep

/-! ### A read error and a DISCONNECT that were read before the takeover -/

/-- Connection 0 has read what ends it; 2 starts clean, takes over and registers its
will. -/
def readThenSuperseded (cause : Cause) : List Label :=
  shakes 0 false ++ .ends 0 cause :: shakes 2 false

theorem readError_spares_will :
    ∃ st st' r, exec (step sample) {} (readThenSuperseded .failure) = some st ∧
      step sample st (.proceed 0 0) = some st' ∧ r.will.conn = some 2 ∧
      Spared sample.c r st.handler st'.handler := by
  have hfacts : (exec (step sample) {} (readThenSuperseded .failure)).map (fun st =>
      ((st.handler.wills sample.c).map fun r => r.will.conn,
        (step sample st (.proceed 0 0)).isSome)) = some (some (some 2), true) := by decide +kernel
  obtain ⟨st, hst, hvalues⟩ := Option.map_eq_some_iff.mp hfacts
  obtain ⟨hwill, hsome⟩ := Prod.mk.inj hvalues
  have hphase : st.phase 0 = .ending .failure := of_exec hst (by decide +kernel)
  obtain ⟨r, hr, hconn⟩ := Option.map_eq_some_iff.mp hwill
  obtain ⟨st', hst'⟩ := Option.isSome_iff_exists.mp hsome
  refine ⟨st, st', r, hst, hst', hconn, ?_⟩
  refine (superseded_spares_will sample _ st st' (.proceed 0 0) 0 2 r hst rfl ?_ hr hconn
    (by decide) hst').mpr ?_
  · rw [hphase]
    rfl
  · show ¬ RemovesAt sample st 0 (st.phase 0)
    rw [hphase]
    exact id

theorem readDisconnect_removes_will :
    ∃ st st' r, exec (step sample) {} (readThenSuperseded (.disconnect 0)) = some st ∧
      st.connection = some 2 ∧ st.handler.wills sample.c = some r ∧ r.will.conn = some 2 ∧
      step sample st (.proceed 0 0) = some st' ∧ st'.handler.wills sample.c = none := by
  have hfacts : (exec (step sample) {} (readThenSuperseded (.disconnect 0))).map (fun st =>
      (st.connection, (st.handler.wills sample.c).map fun r => r.will.conn,
        (step sample st (.proceed 0 0)).map fun st' => (st'.handler.wills sample.c).isNone)) =
      some (some 2, some (some 2), some true) := by decide +kernel
  obtain ⟨st, hst, hvalues⟩ := Option.map_eq_some_iff.mp hfacts
  simp only [Prod.mk.injEq] at hvalues
  obtain ⟨hconnection, hwill, hafter⟩ := hvalues
  obtain ⟨r, hr, hconn⟩ := Option.map_eq_some_iff.mp hwill
  obtain ⟨st', hst', hnone⟩ := Option.map_eq_some_iff.mp hafter
  exact ⟨st, st', r, hst, hconnection, hr, hconn, hst', Option.isNone_iff_eq_none.mp hnone⟩

end SharkMqtt.Broker.WillLifecycle
