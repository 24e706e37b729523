import Mathlib.Algebra.Ring.Int.Defs
import SharkMqtt.Broker.Teardown
import SharkMqtt.Lib.Locks

/-!
# Retained messages

`handleRetainedMessage` (`broker/pub_sub.go`), `cleanupExpiredRetained` and
`rebuildRetainedExpirations` (`broker/lifecycle.go`): any number of publishers and
sweeps over the retained store, the counter, the recorded deadlines and the 64
stripe locks. One step is one store call, one access of the counter, one section
under `retainedMu`, or taking or giving back a stripe. Store calls succeed.

The counter is behind the store while a publisher or a sweep is between its store
call and its `Add`; `Proc.debt` says by how much, and `Inv` ties all of it
together. When nobody is under way the counter is exact (`retained_consistent`).
-/

namespace SharkMqtt.Broker

open Protocol Lib
open Teardown (messageExpiresAt)

structure RetainedMessage where
  topic : Str
  qos : UInt8
  payload : Bytes
  timestamp : Option ℕ
  properties : MessageProperties
  expiresAt : Option ℕ

namespace Retained

/-- The options read here; a value of 0 is not configured. -/
structure Options where
  maxRetainedTopics : ℕ := 0
  /-- In nanoseconds. -/
  retainedExpiry : ℕ := 0

/-! ## The record and its deadline -/

def retainedRecord (pkt : PublishPacket) (storedAt : ℕ) : RetainedMessage where
  topic := pkt.topic
  qos := pkt.fixedHeader.qos
  payload := pkt.payload
  timestamp := some storedAt
  properties := storeProperties pkt.properties
  expiresAt := messageExpiresAt pkt storedAt

/-- The soonest deadline of a record saved at `storedAt`. -/
def recordedDeadline (opts : Options) (record : RetainedMessage) (storedAt : ℕ) : Option ℕ :=
  if opts.retainedExpiry > 0 then
    let ttl := storedAt + opts.retainedExpiry
    match record.expiresAt with
    | none => some ttl
    | some deadline => if ttl < deadline then some ttl else some deadline
  else record.expiresAt

/-- The deadline of a record found in the store when the broker starts. -/
def rebuiltDeadline (opts : Options) (m : RetainedMessage) (now : ℕ) : Option ℕ :=
  let base := m.timestamp.getD now
  let deadline := if opts.retainedExpiry > 0 then some (base + opts.retainedExpiry) else none
  match m.expiresAt, deadline with
  | none, deadline => deadline
  | some expiresAt, none => some expiresAt
  | some expiresAt, some deadline => if expiresAt < deadline then some expiresAt else some deadline

/-! ## What is shared -/

def retainedStripeCount : UInt32 := 64

/-- FNV-1a over the bytes of the topic. -/
def retainedStripeIndex (topic : Str) : UInt32 :=
  topic.foldl (fun h b => (h ^^^ b.toUInt32) * 16777619) 2166136261 % retainedStripeCount

abbrev Deadlines := AList (fun _ : Str => ℕ)

/-- `retainedStripes` says which call has which stripe. -/
structure Shared where
  store : Keyed RetainedMessage.topic := ∅
  retainedCount : ℤ := 0
  retainedExpirations : Deadlines := ∅
  retainedStripes : UInt32 → Option ℕ := fun _ => none

namespace Shared

def has (sh : Shared) (topic : Str) : Bool := (sh.store.lookup topic).isSome

def lock (sh : Shared) (i : ℕ) (topic : Str) : Option Shared :=
  if sh.retainedStripes (retainedStripeIndex topic) = none then
    some { sh with
      retainedStripes := Function.update sh.retainedStripes (retainedStripeIndex topic) (some i) }
  else none

def unlock (sh : Shared) (topic : Str) : Shared :=
  { sh with
    retainedStripes := Function.update sh.retainedStripes (retainedStripeIndex topic) none }

/-- `if deadline.IsZero() { delete } else { set }` -/
def record (sh : Shared) (topic : Str) : Option ℕ → Shared
  | none => { sh with retainedExpirations := sh.retainedExpirations.erase topic }
  | some deadline => { sh with retainedExpirations := sh.retainedExpirations.insert topic deadline }

def due (sh : Shared) (now : ℕ) : List Str :=
  sh.retainedExpirations.keys.filter fun t => expired (sh.retainedExpirations.lookup t) now

end Shared

/-! ## The two functions, step by step -/

/-- Where a call of `handleRetainedMessage` is. After the write `storedAt` is the time
of the record, `none` for a deletion. -/
inductive HandlerPhase where
  | locking
  | getting
  | checking (existed : Bool)
  | writing (existed : Bool)
  | counting (existed : Bool) (storedAt : Option ℕ)
  | recording (storedAt : Option ℕ)
  | unlocking
  | returned

/-- Where a call of `cleanupExpiredRetained` is; it has returned when no topic is
left. -/
inductive SweepPhase where
  | scanning
  | looping (topics : List Str)
  | reading (topic : Str) (rest : List Str)
  | deleting (topic : Str) (rest : List Str)
  | forgetting (topic : Str) (rest : List Str)
  | unlocking (topic : Str) (rest : List Str) (removed : Bool)
  | counting (rest : List Str)

/-- The count limit: an empty payload and a topic that is there already are not
limited. -/
def limited (opts : Options) (pkt : PublishPacket) (existed : Bool) (count : ℤ) : Bool :=
  decide (pkt.payload ≠ [] ∧ existed = false ∧ opts.maxRetainedTopics > 0 ∧
    count ≥ opts.maxRetainedTopics)

/-- The next step of `handleRetainedMessage`, called as `i`. -/
def handleRetainedMessage (opts : Options) (i : ℕ) (pkt : PublishPacket) (now : ℕ) (sh : Shared) :
    HandlerPhase → Option (Shared × HandlerPhase)
  | .locking => (sh.lock i pkt.topic).map (·, .getting)
  | .getting => some (sh, .checking (sh.has pkt.topic))
  | .checking existed =>
    some (sh, if limited opts pkt existed sh.retainedCount then .unlocking else .writing existed)
  | .writing existed =>
    if pkt.payload = [] then
      some ({ sh with store := sh.store.erase pkt.topic }, .counting existed none)
    else
      some ({ sh with store := sh.store.insert (retainedRecord pkt now) },
        .counting existed (some now))
  | .counting existed storedAt =>
    let delta : ℤ :=
      match existed, storedAt with
      | true, none => -1
      | false, some _ => 1
      | _, _ => 0
    some ({ sh with retainedCount := sh.retainedCount + delta }, .recording storedAt)
  | .recording storedAt =>
    let deadline := storedAt.bind fun t => recordedDeadline opts (retainedRecord pkt t) t
    some (sh.record pkt.topic deadline, .unlocking)
  | .unlocking => some (sh.unlock pkt.topic, .returned)
  | .returned => none

/-- The next step of `cleanupExpiredRetained`, called as `i`, that has read `now`. The
scan ranges over a map: `topics` is the order it takes. -/
def cleanupExpiredRetained (i now : ℕ) (topics : List Str) (sh : Shared) :
    SweepPhase → Option (Shared × SweepPhase)
  | .scanning => if topics.Perm (sh.due now) then some (sh, .looping topics) else none
  | .looping [] => none
  | .looping (topic :: rest) => (sh.lock i topic).map (·, .reading topic rest)
  | .reading topic rest =>
    if expired (sh.retainedExpirations.lookup topic) now then some (sh, .deleting topic rest)
    else some (sh, .unlocking topic rest false)
  | .deleting topic rest => some ({ sh with store := sh.store.erase topic }, .forgetting topic rest)
  | .forgetting topic rest => some (sh.record topic none, .unlocking topic rest true)
  | .unlocking topic rest removed =>
    some (sh.unlock topic, if removed then .counting rest else .looping rest)
  | .counting rest => some ({ sh with retainedCount := sh.retainedCount - 1 }, .looping rest)

/-! ## The machine -/

/-- A call under way; a sweep has read its clock. -/
inductive Proc where
  | handler (pkt : PublishPacket) (phase : HandlerPhase)
  | sweep (now : ℕ) (phase : SweepPhase)

structure State where
  shared : Shared
  procs : List Proc := []

/-- `publish` and `sweep` are calls; `advance` is a step of the call `i`, with the time
it reads and the order of its scan should it need them. -/
inductive Label where
  | publish (pkt : PublishPacket)
  | sweep (now : ℕ)
  | advance (i : ℕ) (now : ℕ := 0) (topics : List Str := [])

def Proc.advance (opts : Options) (i now : ℕ) (topics : List Str) (sh : Shared) :
    Proc → Option (Shared × Proc)
  | .handler pkt phase =>
    (handleRetainedMessage opts i pkt now sh phase).map fun r => (r.1, .handler pkt r.2)
  | .sweep clock phase =>
    (cleanupExpiredRetained i clock topics sh phase).map fun r => (r.1, .sweep clock r.2)

def step (opts : Options) (st : State) : Label → Option State
  | .publish pkt => some { st with procs := st.procs ++ [.handler pkt .locking] }
  | .sweep now => some { st with procs := st.procs ++ [.sweep now .scanning] }
  | .advance i now topics =>
    match st.procs[i]? with
    | none => none
    | some p => (p.advance opts i now topics st.shared).map fun r => ⟨r.1, st.procs.set i r.2⟩

/-! ## Starting on a store -/

def matchRetained (store : Keyed RetainedMessage.topic) (pattern : Str) : List RetainedMessage :=
  (store.table.entries.map Sigma.snd).filter fun m => matchTopic pattern m.topic

def rebuildOne (opts : Options) (now : ℕ) (acc : Deadlines × ℤ) (m : RetainedMessage) :
    Deadlines × ℤ :=
  (match rebuiltDeadline opts m now with
    | none => acc.1
    | some deadline => acc.1.insert m.topic deadline,
   acc.2 + 1)

/-- `rebuildRetainedExpirations`, which runs before anything else does. -/
def start (opts : Options) (store : Keyed RetainedMessage.topic) (now : ℕ) : State :=
  let r := (matchRetained store (ascii "#")).foldl (rebuildOne opts now) (∅, 0)
  { shared := { store := store, retainedExpirations := r.1, retainedCount := r.2 } }

/-! ## What a call holds, knows and owes -/

variable {t : Str}

namespace Shared

/-- What the shared state says about one topic. -/
def view (sh : Shared) (topic : Str) : Bool × Option ℕ :=
  (sh.has topic, sh.retainedExpirations.lookup topic)

/-- By how much the counter exceeds the number of topics. -/
def surplus (sh : Shared) : ℤ := sh.retainedCount - sh.store.size

/-- A topic with a recorded deadline is in the store. -/
def Backed (sh : Shared) (topic : Str) : Prop :=
  (sh.retainedExpirations.lookup topic).isSome = true → sh.has topic = true

variable (sh : Shared)

theorem has_erase (topic t : Str) :
    ({ sh with store := sh.store.erase topic } : Shared).has t =
      if t = topic then false else sh.has t := by
  unfold has
  rw [Keyed.lookup_erase]
  split_ifs <;> rfl

theorem has_insert (m : RetainedMessage) (t : Str) :
    ({ sh with store := sh.store.insert m } : Shared).has t =
      if t = m.topic then true else sh.has t := by
  unfold has
  rw [Keyed.lookup_insert]
  split_ifs <;> rfl

theorem view_erase_of_ne {topic : Str} (hne : t ≠ topic) :
    ({ sh with store := sh.store.erase topic } : Shared).view t = sh.view t := by
  unfold view
  rw [has_erase, if_neg hne]

theorem size_erase (topic : Str) :
    ((sh.store.erase topic).size : ℤ) = sh.store.size - if sh.has topic then 1 else 0 := by
  rw [Keyed.size_erase]
  unfold has
  split_ifs with h
  · have hpos := Keyed.size_pos_of_lookup h
    omega
  · omega

theorem size_insert (m : RetainedMessage) :
    ((sh.store.insert m).size : ℤ) = sh.store.size + if sh.has m.topic then 0 else 1 := by
  rw [Keyed.size_insert]
  unfold has
  split_ifs
  · omega
  · omega

theorem lookup_record (topic t : Str) (deadline : Option ℕ) :
    (sh.record topic deadline).retainedExpirations.lookup t =
      if t = topic then deadline else sh.retainedExpirations.lookup t := by
  cases deadline with
  | none =>
    split_ifs with h
    · rw [h]
      exact AList.lookup_erase _ _
    · exact AList.lookup_erase_ne h
  | some d =>
    split_ifs with h
    · rw [h]
      exact AList.lookup_insert _
    · exact AList.lookup_insert_ne h

theorem has_record (topic t : Str) (deadline : Option ℕ) :
    (sh.record topic deadline).has t = sh.has t := by
  cases deadline <;> rfl

theorem view_record_of_ne {topic : Str} (deadline : Option ℕ) (hne : t ≠ topic) :
    (sh.record topic deadline).view t = sh.view t := by
  unfold view
  rw [has_record, lookup_record, if_neg hne]

theorem surplus_record (topic : Str) (deadline : Option ℕ) :
    (sh.record topic deadline).surplus = sh.surplus := by
  cases deadline <;> rfl

theorem stripes_record (topic : Str) (deadline : Option ℕ) :
    (sh.record topic deadline).retainedStripes = sh.retainedStripes := by
  cases deadline <;> rfl

end Shared

namespace Proc

def holds : Proc → Option Str
  | .handler _ .locking | .handler _ .returned => none
  | .handler pkt _ => some pkt.topic
  | .sweep _ (.reading topic _) | .sweep _ (.deleting topic _) => some topic
  | .sweep _ (.forgetting topic _) | .sweep _ (.unlocking topic _ _) => some topic
  | .sweep _ _ => none

/-- What the call may rely on about the topic it holds: whether it is stored, and its
recorded deadline. Between the store call and the section under `retainedMu` the two
need not agree. -/
def Sees (stored : Bool) (deadline : Option ℕ) : Proc → Prop
  | .handler _ (.checking existed) | .handler _ (.writing existed) =>
    stored = existed ∧ (deadline.isSome = true → stored = true)
  | .handler _ (.counting _ storedAt) | .handler _ (.recording storedAt) => stored = storedAt.isSome
  | .sweep now (.deleting _ _) => stored = true ∧ ∃ d, deadline = some d ∧ d < now
  | .sweep _ (.forgetting _ _) => stored = false
  | _ => deadline.isSome = true → stored = true

def Knows (sh : Shared) (p : Proc) : Prop :=
  ∀ t, p.holds = some t → p.Sees (sh.view t).1 (sh.view t).2

/-- What the call has yet to take off the counter. -/
def debt : Proc → ℤ
  | .handler _ (.counting true none) => 1
  | .handler _ (.counting false (some _)) => -1
  | .sweep _ (.forgetting _ _) | .sweep _ (.unlocking _ _ true) | .sweep _ (.counting _) => 1
  | _ => 0

end Proc

/-- What one step of the call `i` does. -/
structure Advance (i : ℕ) (sh : Shared) (p : Proc) (sh' : Shared) (p' : Proc) : Prop where
  lock : LockStep retainedStripeIndex i sh.retainedStripes p.holds p'.holds sh'.retainedStripes
  frame : ∀ t, p.holds ≠ some t → sh'.view t = sh.view t
  knows : p'.Knows sh'
  balance : sh'.surplus - p'.debt = sh.surplus - p.debt
  backed : ∀ t, p.holds = some t → p'.holds = some t ∨ sh'.Backed t

variable {topics : List Str} {phase phase' : SweepPhase}

namespace Advance

variable {opts : Options} {i : ℕ} {sh sh' : Shared} {p p' : Proc} {t : Str} {now : ℕ}

/-- A step between two points at which the call has the stripe of `t`. -/
theorem of_holding (hp : p.holds = some t) (hp' : p'.holds = some t)
    (hstripes : sh'.retainedStripes = sh.retainedStripes)
    (hframe : ∀ t', t' ≠ t → sh'.view t' = sh.view t')
    (hsees : p'.Sees (sh'.view t).1 (sh'.view t).2)
    (hbalance : sh'.surplus - p'.debt = sh.surplus - p.debt) : Advance i sh p sh' p' where
  lock := by
    rw [hp, hp', hstripes]
    exact .keep _
  frame := by
    intro t' hne
    apply hframe
    intro htt
    exact hne (by rw [hp, htt])
  knows := by
    intro t' ht'
    rw [hp'] at ht'
    cases ht'
    exact hsees
  balance := hbalance
  backed := by
    intro t' ht'
    exact Or.inl (hp'.trans (hp.symm.trans ht'))

theorem of_unlock (hp : p.holds = some t) (hp' : p'.holds = none) (hbacked : sh.Backed t)
    (hdebt : p'.debt = p.debt) : Advance i sh p (sh.unlock t) p' where
  lock := by
    rw [hp, hp']
    exact .release t
  frame := fun _ _ => rfl
  knows := by
    intro t' ht'
    rw [hp'] at ht'
    cases ht'
  balance := by
    rw [hdebt]
    rfl
  backed := by
    intro t' ht'
    rw [hp] at ht'
    cases ht'
    exact Or.inr hbacked

theorem of_idle (hp : p.holds = none) (hp' : p'.holds = none)
    (hview : ∀ t, sh'.view t = sh.view t) (hstripes : sh'.retainedStripes = sh.retainedStripes)
    (hbalance : sh'.surplus - p'.debt = sh.surplus - p.debt) : Advance i sh p sh' p' where
  lock := by
    rw [hp, hp', hstripes]
    exact .keep _
  frame := fun t _ => hview t
  knows := by
    intro t' ht'
    rw [hp'] at ht'
    cases ht'
  balance := hbalance
  backed := by
    intro t' ht'
    rw [hp] at ht'
    cases ht'

variable (hfree : ∀ t, sh.retainedStripes (retainedStripeIndex t) = none → sh.Backed t)

include hfree

theorem of_lock (hlock : sh.lock i t = some sh') (hp : p.holds = none) (hp' : p'.holds = some t)
    (hsees : ∀ stored deadline, p'.Sees stored deadline ↔ (deadline.isSome = true → stored = true))
    (hdebt : p'.debt = p.debt) : Advance i sh p sh' p' := by
  unfold Shared.lock at hlock
  split_ifs at hlock with hnone
  cases hlock
  refine ⟨?_, fun _ _ => rfl, ?_, by rw [hdebt]; rfl, ?_⟩
  · rw [hp, hp']
    exact .acquire t hnone
  · intro t' ht'
    rw [hp'] at ht'
    cases ht'
    exact (hsees _ _).mpr (hfree t hnone)
  · intro t' ht'
    rw [hp] at ht'
    cases ht'

theorem of_handler {pkt : PublishPacket} {phase phase' : HandlerPhase}
    (h : handleRetainedMessage opts i pkt now sh phase = some (sh', phase'))
    (hknows : (Proc.handler pkt phase).Knows sh) :
    Advance i sh (.handler pkt phase) sh' (.handler pkt phase') := by
  cases phase with
  | locking =>
    obtain ⟨sh₁, hlock, heq⟩ := Option.map_eq_some_iff.mp h
    cases heq
    exact of_lock hfree hlock rfl rfl (fun _ _ => Iff.rfl) rfl
  | getting =>
    cases h
    exact of_holding rfl rfl rfl (fun _ _ => rfl) ⟨rfl, hknows _ rfl⟩ rfl
  | checking existed =>
    have hsees := hknows _ rfl
    cases h
    split_ifs
    · exact of_holding rfl rfl rfl (fun _ _ => rfl) hsees.2 rfl
    · exact of_holding rfl rfl rfl (fun _ _ => rfl) hsees rfl
  | writing existed =>
    have hhas : sh.has pkt.topic = existed := (hknows _ rfl).1
    simp only [handleRetainedMessage] at h
    split_ifs at h
    · cases h
      refine of_holding rfl rfl rfl (fun _ => sh.view_erase_of_ne) ?_ ?_
      · show Shared.has _ _ = false
        rw [Shared.has_erase, if_pos rfl]
      · unfold Shared.surplus
        rw [Shared.size_erase, hhas]
        cases existed
        · simp [Proc.debt]
        · simp only [Proc.debt, if_true]
          omega
    · cases h
      refine of_holding rfl rfl rfl ?_ ?_ ?_
      · intro t' hne
        unfold Shared.view
        rw [Shared.has_insert]
        exact congrArg (·, _) (if_neg hne)
      · show Shared.has _ _ = true
        rw [Shared.has_insert]
        exact if_pos rfl
      · have hrecord : sh.has (retainedRecord pkt now).topic = existed := hhas
        unfold Shared.surplus
        rw [Shared.size_insert, hrecord]
        cases existed
        · simp only [Proc.debt, Bool.false_eq_true, if_false]
          omega
        · simp [Proc.debt]
  | counting existed storedAt =>
    cases h
    refine of_holding rfl rfl rfl (fun _ _ => rfl) (hknows _ rfl) ?_
    unfold Shared.surplus
    cases existed <;> cases storedAt <;> simp only [Proc.debt] <;> omega
  | recording storedAt =>
    have hhas : sh.has pkt.topic = storedAt.isSome := hknows _ rfl
    cases h
    refine of_holding rfl rfl (Shared.stripes_record _ _ _) (fun _ => sh.view_record_of_ne _) ?_ ?_
    · -- a deadline is recorded only for what was saved
      unfold Shared.view
      rw [Shared.has_record, Shared.lookup_record, if_pos rfl, hhas]
      cases storedAt with
      | none => exact fun hnone => hnone
      | some t => exact fun _ => rfl
    · rw [Shared.surplus_record]
      rfl
  | unlocking =>
    cases h
    exact of_unlock rfl rfl (hknows _ rfl) rfl
  | returned => cases h

theorem of_sweep (h : cleanupExpiredRetained i now topics sh phase = some (sh', phase'))
    (hknows : (Proc.sweep now phase).Knows sh) :
    Advance i sh (.sweep now phase) sh' (.sweep now phase') := by
  revert h hknows
  fun_cases cleanupExpiredRetained i now topics sh phase <;> intro h hknows <;> try cases h
  · exact of_idle rfl rfl (fun _ => rfl) rfl rfl
  · obtain ⟨sh₁, hlock, heq⟩ := Option.map_eq_some_iff.mp h
    cases heq
    exact of_lock hfree hlock rfl rfl (fun _ _ => Iff.rfl) rfl
  next topic rest hexp =>
    have hbacked : sh.Backed topic := hknows _ rfl
    refine of_holding rfl rfl rfl (fun _ _ => rfl) ?_ rfl
    cases hd : sh.retainedExpirations.lookup topic with
    | none =>
      rw [hd] at hexp
      cases hexp
    | some d =>
      rw [hd] at hexp
      exact ⟨hbacked (by rw [hd]; rfl), d, hd, of_decide_eq_true hexp⟩
  · exact of_holding rfl rfl rfl (fun _ _ => rfl) (hknows _ rfl) rfl
  next topic rest =>
    have hhas : sh.has topic = true := (hknows _ rfl).1
    refine of_holding rfl rfl rfl (fun _ => sh.view_erase_of_ne) ?_ ?_
    · show Shared.has _ _ = false
      rw [Shared.has_erase, if_pos rfl]
    · unfold Shared.surplus
      rw [Shared.size_erase, hhas]
      simp only [Proc.debt, if_true]
      omega
  · refine of_holding rfl rfl (Shared.stripes_record _ _ _) (fun _ => sh.view_record_of_ne _) ?_ rfl
    unfold Shared.view
    rw [Shared.lookup_record, if_pos rfl]
    intro hnone
    cases hnone
  next topic rest removed =>
    have hbacked : sh.Backed topic := hknows _ rfl
    cases removed with
    | false | true => exact of_unlock rfl rfl hbacked rfl
  · refine of_idle rfl rfl (fun _ => rfl) rfl ?_
    simp only [Shared.surplus, Proc.debt]
    omega

theorem of_advance (h : p.advance opts i now topics sh = some (sh', p')) (hknows : p.Knows sh) :
    Advance i sh p sh' p' := by
  cases p with
  | handler pkt phase =>
    obtain ⟨r, hr, heq⟩ := Option.map_eq_some_iff.mp h
    cases heq
    exact of_handler hfree hr hknows
  | sweep clock phase =>
    obtain ⟨r, hr, heq⟩ := Option.map_eq_some_iff.mp h
    cases heq
    exact of_sweep hfree hr hknows

end Advance

/-! ## The invariant of every run -/

structure Inv (st : State) : Prop where
  held : Exclusive retainedStripeIndex Proc.holds st.shared.retainedStripes st.procs
  knows : ∀ (i : ℕ) p, st.procs[i]? = some p → p.Knows st.shared
  counted : st.shared.surplus = (st.procs.map Proc.debt).sum
  recorded : ∀ t, st.shared.Backed t ∨ ∃ (i : ℕ) (p : Proc), st.procs[i]? = some p ∧ p.holds = some t

namespace Inv

variable {opts : Options} {st st' : State} {l : Label}

theorem backed_of_free (h : Inv st)
    (hfree : st.shared.retainedStripes (retainedStripeIndex t) = none) : st.shared.Backed t := by
  rcases h.recorded t with hbacked | ⟨i, p, hi, hp⟩
  · exact hbacked
  · have hheld := h.held i p t hi hp
    rw [hfree] at hheld
    cases hheld

theorem set (h : Inv st) {i : ℕ} {p p' : Proc} {sh' : Shared} (hi : st.procs[i]? = some p)
    (ha : Advance i st.shared p sh' p') : Inv ⟨sh', st.procs.set i p'⟩ where
  held := h.held.set hi ha.lock
  knows := by
    apply h.held.knows_set hi ha.frame ?_ h.knows ha.knows
    intro q hsame hq t ht
    rw [hsame t ht]
    exact hq t ht
  counted := by
    obtain ⟨before, after, hprocs, hset⟩ := exists_split_of_getElem? hi
    have hcounted := h.counted
    have hbalance := ha.balance
    rw [hprocs, sum_map_split] at hcounted
    show sh'.surplus = ((st.procs.set i p').map Proc.debt).sum
    rw [hset, sum_map_split]
    omega
  recorded := by
    intro t
    by_cases hp : p.holds = some t
    · rcases ha.backed t hp with hp' | hbacked
      · have hlt := (List.getElem?_eq_some_iff.mp hi).1
        exact Or.inr ⟨i, p', by rw [List.getElem?_set_self hlt], hp'⟩
      · exact Or.inl hbacked
    · -- a topic the call does not hold is as it was
      have hview := ha.frame t hp
      rcases h.recorded t with hbacked | ⟨j, q, hj, hq⟩
      · refine Or.inl ?_
        show (sh'.view t).2.isSome = true → (sh'.view t).1 = true
        rw [hview]
        exact hbacked
      · refine Or.inr ⟨j, q, ?_, hq⟩
        rw [List.getElem?_set_ne]
        · exact hj
        · rintro rfl
          rw [hi] at hj
          cases hj
          exact hp hq

theorem append (h : Inv st) {p : Proc} (hp : p.holds = none) (hdebt : p.debt = 0) :
    Inv { st with procs := st.procs ++ [p] } where
  held := h.held.append hp
  knows := by
    intro i q hi
    rcases getElem?_concat_eq_some hi with hi | rfl
    · exact h.knows i q hi
    · intro t ht
      rw [hp] at ht
      cases ht
  counted := by
    rw [h.counted, List.map_append, List.sum_append, List.map_singleton, List.sum_singleton, hdebt,
      add_zero]
  recorded := by
    intro t
    rcases h.recorded t with hbacked | ⟨i, q, hi, hq⟩
    · exact Or.inl hbacked
    · refine Or.inr ⟨i, q, ?_, hq⟩
      rw [List.getElem?_append_left (List.getElem?_eq_some_iff.mp hi).1]
      exact hi

theorem step (h : Inv st) (hs : Retained.step opts st l = some st') : Inv st' := by
  cases l with
  | publish | sweep =>
    cases hs
    exact h.append rfl rfl
  | advance i now topics =>
    simp only [Retained.step] at hs
    cases hi : st.procs[i]? with
    | none =>
      rw [hi] at hs
      cases hs
    | some p =>
      rw [hi] at hs
      obtain ⟨r, hr, heq⟩ := Option.map_eq_some_iff.mp hs
      cases heq
      exact h.set hi (Advance.of_advance (fun t => h.backed_of_free) hr (h.knows i p hi))

end Inv

/-! ## The state the broker starts in -/

theorem matchTopic_hash (topic : Str) : matchTopic (ascii "#") topic = true := by
  have hsplit : (ascii "#").splitOn slash = [hashLevel] := by decide +kernel
  unfold matchTopic
  rw [hsplit]
  simp [matchLevels]

theorem matchRetained_hash (store : Keyed RetainedMessage.topic) :
    matchRetained store (ascii "#") = store.table.entries.map Sigma.snd := by
  apply List.filter_eq_self.mpr
  intro m _
  exact matchTopic_hash m.topic

variable (opts : Options) {now : ℕ} {sh sh' : Shared}

theorem rebuild_count (now : ℕ) (msgs : List RetainedMessage) :
    ∀ acc, (msgs.foldl (rebuildOne opts now) acc).2 = acc.2 + msgs.length := by
  induction msgs with
  | nil => intro acc; simp
  | cons m rest ih =>
    intro acc
    rw [List.foldl_cons, ih, List.length_cons]
    show acc.2 + 1 + _ = _
    omega

theorem rebuild_lookup (now : ℕ) (msgs : List RetainedMessage) :
    ∀ acc, ((msgs.foldl (rebuildOne opts now) acc).1.lookup t).isSome = true →
      (acc.1.lookup t).isSome = true ∨ ∃ m ∈ msgs, m.topic = t := by
  induction msgs with
  | nil => exact fun acc h => Or.inl h
  | cons m rest ih =>
    intro acc h
    rcases ih _ h with hacc | ⟨m', hm', ht⟩
    · unfold rebuildOne at hacc
      cases hd : rebuiltDeadline opts m now with
      | none =>
        simp only [hd] at hacc
        exact Or.inl hacc
      | some d =>
        simp only [hd] at hacc
        by_cases ht : t = m.topic
        · exact Or.inr ⟨m, List.mem_cons_self, ht.symm⟩
        · rw [AList.lookup_insert_ne ht] at hacc
          exact Or.inl hacc
    · exact Or.inr ⟨m', List.mem_cons_of_mem m hm', ht⟩

theorem inv_start (store : Keyed RetainedMessage.topic) (now : ℕ) : Inv (start opts store now) where
  held := by
    intro i p t hi
    cases hi
  knows := by
    intro i p hi
    cases hi
  counted := by
    unfold start Shared.surplus
    simp only [List.map_nil, List.sum_nil]
    rw [rebuild_count, matchRetained_hash, List.length_map]
    unfold Keyed.size AList.keys List.keys
    rw [List.length_map]
    omega
  recorded := by
    intro t
    refine Or.inl fun hsome => ?_
    rcases rebuild_lookup opts now _ _ hsome with hempty | ⟨m, hm, ht⟩
    · cases hempty
    · rw [matchRetained_hash, List.mem_map] at hm
      obtain ⟨e, he, rfl⟩ := hm
      have hkey : e.1 = t := (store.key_of_mem_entries he).symm.trans ht
      have hlookup : store.lookup t = some e.2 := by
        rw [← hkey]
        exact AList.mem_lookup_iff.mpr he
      show (store.lookup t).isSome = true
      rw [hlookup]
      rfl

theorem inv_run {opts : Options} {store : Keyed RetainedMessage.topic} {ls : List Label}
    {st : State} (hrun : exec (step opts) (start opts store now) ls = some st) : Inv st :=
  exec_preserves Inv (fun _ _ _ hinv hs => hinv.step hs) (inv_start opts store now) hrun

/-! ## The counter, the deadlines and the sweep -/

def Proc.done : Proc → Bool
  | .handler _ .returned => true
  | .sweep _ (.looping []) => true
  | _ => false

theorem Proc.of_done {p : Proc} (h : p.done = true) : p.debt = 0 ∧ p.holds = none := by
  unfold Proc.done at h
  split at h
  · exact ⟨rfl, rfl⟩
  · exact ⟨rfl, rfl⟩
  · cases h

theorem sum_debt_eq_zero {procs : List Proc} (h : ∀ p ∈ procs, p.done = true) :
    (procs.map Proc.debt).sum = 0 := by
  apply List.sum_eq_zero
  intro d hd
  obtain ⟨p, hp, rfl⟩ := List.mem_map.mp hd
  exact (Proc.of_done (h p hp)).1

variable {i : ℕ}

theorem lock_store (h : sh.lock i t = some sh') : sh'.store = sh.store := by
  unfold Shared.lock at h
  split_ifs at h
  cases h
  rfl

theorem store_sweep (h : cleanupExpiredRetained i now topics sh phase = some (sh', phase')) :
    sh'.store = sh.store ∨
      ∃ topic rest, phase = .deleting topic rest ∧ sh'.store = sh.store.erase topic := by
  revert h
  fun_cases cleanupExpiredRetained i now topics sh phase <;> intro h <;> try cases h
  case case4 =>
    obtain ⟨sh₁, hlock, heq⟩ := Option.map_eq_some_iff.mp h
    cases heq
    exact Or.inl (lock_store hlock)
  case case7 topic rest => exact Or.inr ⟨topic, rest, rfl, rfl⟩
  all_goals exact Or.inl rfl

theorem deleting_of_removed (h : cleanupExpiredRetained i now topics sh phase = some (sh', phase'))
    (hhas : sh.has t = true) (hgone : sh'.has t = false) : ∃ rest, phase = .deleting t rest := by
  unfold Shared.has at hhas hgone
  rcases store_sweep h with hsame | ⟨topic, rest, rfl, herase⟩
  · rw [hsame, hhas] at hgone
    cases hgone
  · rw [herase, Keyed.lookup_erase] at hgone
    split_ifs at hgone with ht
    · exact ⟨rest, by rw [ht]⟩
    · rw [hhas] at hgone
      cases hgone

/-- After a start on any store, whatever the calls and their order: when none is under
way the counter is the number of topics and a topic with a recorded deadline is in the
store, and a sweep takes out only topics whose recorded deadline had passed when it
read the clock. -/
theorem retained_consistent (opts : Options) (store : Keyed RetainedMessage.topic) (started : ℕ)
    (ls : List Label) (st : State)
    (hrun : exec (step opts) (start opts store started) ls = some st) :
    ((∀ p ∈ st.procs, p.done = true) →
      st.shared.retainedCount = st.shared.store.size ∧
        ∀ t, (st.shared.retainedExpirations.lookup t).isSome = true → st.shared.has t = true) ∧
    ∀ i clock phase now topics st', st.procs[i]? = some (.sweep clock phase) →
      step opts st (.advance i now topics) = some st' →
        ∀ t, st.shared.has t = true → st'.shared.has t = false →
          ∃ d, st.shared.retainedExpirations.lookup t = some d ∧ d < clock := by
  have hinv := inv_run hrun
  refine ⟨fun hdone => ⟨?_, fun t => ?_⟩, ?_⟩
  · have hcounted := hinv.counted
    rw [sum_debt_eq_zero hdone] at hcounted
    unfold Shared.surplus at hcounted
    omega
  · rcases hinv.recorded t with hbacked | ⟨i, p, hi, hp⟩
    · exact hbacked
    · rw [(Proc.of_done (hdone p (List.mem_of_getElem? hi))).2] at hp
      cases hp
  · intro i clock phase now topics st' hi hs t hhas hgone
    simp only [step, hi] at hs
    obtain ⟨r, hr, rfl⟩ := Option.map_eq_some_iff.mp hs
    obtain ⟨r', hr', rfl⟩ := Option.map_eq_some_iff.mp hr
    obtain ⟨rest, rfl⟩ := deleting_of_removed hr' hhas hgone
    exact (hinv.knows i _ hi t rfl).2

def retainPacket (topic : Str) (payload : Bytes) : PublishPacket where
  fixedHeader := { packetType := .publish, qos := 1, retain := true }
  topic := topic
  payload := payload

/-- A store with one message, whose deadline is 5. -/
def expiringStore : Keyed RetainedMessage.topic :=
  Keyed.insert ∅ { retainedRecord (retainPacket (ascii "a") [1]) 0 with expiresAt := some 5 }

/-- A sweep at 10 finds topic `a`; topic `b` is published before it gets there. -/
def sweepRun : List Label :=
  [.sweep 10, .advance 0 10 [ascii "a"], .publish (retainPacket (ascii "b") [2]), .advance 1,
    .advance 0, .advance 1, .advance 0, .advance 1, .advance 1 11, .advance 0, .advance 0,
    .advance 1, .advance 0, .advance 1, .advance 0, .advance 1]

theorem retained_consistent_sweepRun :
    ∃ st, exec (step {}) (start {} expiringStore 0) sweepRun = some st ∧
      (∀ p ∈ st.procs, p.done = true) ∧ st.shared.has (ascii "b") = true ∧
      st.shared.retainedCount = st.shared.store.size :=
  exec_reaches (by decide +kernel) fun st hst hall =>
    ⟨of_exec hst (by decide +kernel),
      ((retained_consistent {} expiringStore 0 sweepRun st hst).1 hall).1⟩

end Retained

end SharkMqtt.Broker
