import Mathlib.Algebra.Order.BigOperators.Group.List
import SharkMqtt.Broker.Retained

/-!
# The limit on retained topics

`handleRetainedMessage` compares the counter with `maxRetainedTopics` before it saves a
new topic and adds to the counter after it, all under the stripe of the topic. The limit
is global and a stripe is not: publishers of topics with different stripes can all pass
the check before any of them counts (`racingRun_exceeds_limit`). The limit holds in
the runs in which no new topic is let in while another one that was let in is not
counted yet (`size_le_of_alone`).
-/

namespace SharkMqtt.Broker.Retained

open Protocol Lib

/-- The call has been let in with a new topic and has not counted it yet. -/
def Proc.admitted : Proc → Bool
  | .handler pkt (.writing false) => decide (pkt.payload ≠ [])
  | .handler _ (.counting false (some _)) => true
  | _ => false

/-- The topics the call will still add to the store. -/
def Proc.reserves : Proc → ℕ
  | .handler pkt (.writing false) => if pkt.payload = [] then 0 else 1
  | _ => 0

/-- The next step of the call `i` passes the limit check with a new topic. -/
def State.admits (opts : Options) (st : State) (i : ℕ) : Bool :=
  match st.procs[i]? with
  | some (.handler pkt (.checking false)) =>
    decide (pkt.payload ≠ []) && !limited opts pkt false st.shared.retainedCount
  | _ => false

/-- No new topic is let in while another that was let in is not counted yet. -/
def Alone (opts : Options) (st : State) : Label → Prop
  | .advance i _ _ => st.admits opts i = true → ∀ p ∈ st.procs, p.admitted = false
  | _ => True

instance (opts : Options) (st : State) (l : Label) : Decidable (Alone opts st l) := by
  cases l <;> dsimp only [Alone] <;> infer_instance

theorem Proc.debt_nonneg {p : Proc} (h : p.admitted = false) : 0 ≤ p.debt := by
  unfold Proc.debt
  split
  · decide
  · cases h
  all_goals decide

theorem Proc.reserves_eq_zero {p : Proc} (h : p.admitted = false) : p.reserves = 0 := by
  unfold Proc.reserves
  split
  · rw [if_pos (not_not.mp (of_decide_eq_false h))]
  · rfl

variable {i : ℕ} {sh' : Shared} {opts : Options} {st : State}

theorem size_sweep_le {now : ℕ} {topics : List Str} {sh : Shared} {phase phase' : SweepPhase}
    (h : cleanupExpiredRetained i now topics sh phase = some (sh', phase')) :
    sh'.store.size ≤ sh.store.size := by
  rcases store_sweep h with hsame | ⟨topic, rest, -, herase⟩
  · rw [hsame]
  · rw [herase, Keyed.size_erase]
    split_ifs
    · exact Nat.sub_le _ _
    · exact le_refl _

/-- What a publisher adds to the store it has reserved, and it reserves only where it
passes the check. -/
theorem size_handler_le {now : ℕ} {pkt : PublishPacket} {sh : Shared} {phase phase' : HandlerPhase}
    (h : handleRetainedMessage opts i pkt now sh phase = some (sh', phase'))
    (hknows : (Proc.handler pkt phase).Knows sh) :
    sh'.store.size + (Proc.handler pkt phase').reserves ≤
        sh.store.size + (Proc.handler pkt phase).reserves ∨
      (phase = .checking false ∧ pkt.payload ≠ [] ∧
        limited opts pkt false sh.retainedCount = false ∧ sh' = sh ∧ phase' = .writing false) := by
  revert h hknows
  fun_cases handleRetainedMessage opts i pkt now sh phase <;> intro h hknows <;> try cases h
  · obtain ⟨sh₁, hlock, heq⟩ := Option.map_eq_some_iff.mp h
    cases heq
    rw [lock_store hlock]
    exact Or.inl (le_refl _)
  · exact Or.inl (le_refl _)
  next existed =>
    split_ifs with hlimited
    · exact Or.inl (le_refl _)
    · cases existed with
      | true => exact Or.inl (le_refl _)
      | false =>
        by_cases hempty : pkt.payload = []
        · refine Or.inl ?_
          simp only [Proc.reserves]
          rw [if_pos hempty]
        · exact Or.inr ⟨rfl, hempty, eq_false_of_ne_true hlimited, rfl, rfl⟩
  · rw [Keyed.size_erase]
    simp only [Proc.reserves]
    split_ifs <;> omega
  next existed hempty =>
    have hrecord : sh.has (retainedRecord pkt now).topic = existed := (hknows _ rfl).1
    have hsize := sh.size_insert (retainedRecord pkt now)
    rw [hrecord] at hsize
    cases existed with
    | false =>
      simp only [Proc.reserves, if_neg hempty]
      omega
    | true =>
      simp only [Proc.reserves]
      simp only [if_true] at hsize
      omega
  · exact Or.inl (le_refl _)
  next deadline =>
    clear_value deadline
    cases deadline <;> exact Or.inl (le_refl _)
  · exact Or.inl (le_refl _)

/-- The topics stored and those still to be stored are within the limit. -/
def Within (opts : Options) (st : State) : Prop :=
  st.shared.store.size + (st.procs.map Proc.reserves).sum ≤ opts.maxRetainedTopics

theorem Within.set {p p' : Proc} (h : Within opts st) (hi : st.procs[i]? = some p)
    (hle : sh'.store.size + p'.reserves ≤ st.shared.store.size + p.reserves) :
    Within opts ⟨sh', st.procs.set i p'⟩ := by
  obtain ⟨before, after, hprocs, hset⟩ := exists_split_of_getElem? hi
  unfold Within at h ⊢
  rw [hprocs, sum_map_split] at h
  simp only [hset, sum_map_split]
  omega

/-- Where nobody else has been let in, the counter is no smaller than the number of
topics, so the check leaves room for one more. -/
theorem Within.accept {pkt : PublishPacket} (hinv : Inv st) (hmax : 0 < opts.maxRetainedTopics)
    (hi : st.procs[i]? = some (.handler pkt (.checking false))) (hpayload : pkt.payload ≠ [])
    (hlimited : limited opts pkt false st.shared.retainedCount = false)
    (halone : ∀ p ∈ st.procs, p.admitted = false) :
    Within opts ⟨st.shared, st.procs.set i (.handler pkt (.writing false))⟩ := by
  have hcount : st.shared.retainedCount < opts.maxRetainedTopics := by
    by_contra hge
    have htrue : limited opts pkt false st.shared.retainedCount = true :=
      decide_eq_true ⟨hpayload, rfl, hmax, not_lt.mp hge⟩
    rw [hlimited] at htrue
    cases htrue
  have hdebt : 0 ≤ (st.procs.map Proc.debt).sum := by
    apply List.sum_nonneg
    intro d hd
    obtain ⟨p, hp, rfl⟩ := List.mem_map.mp hd
    exact Proc.debt_nonneg (halone p hp)
  obtain ⟨before, after, hprocs, hset⟩ := exists_split_of_getElem? hi
  have hreserves : ((before ++ after).map Proc.reserves).sum = 0 := by
    apply List.sum_eq_zero
    intro n hn
    obtain ⟨p, hp, rfl⟩ := List.mem_map.mp hn
    apply Proc.reserves_eq_zero
    apply halone
    rw [hprocs]
    exact List.perm_middle.mem_iff.mpr (List.mem_cons_of_mem _ hp)
  have hcounted := hinv.counted
  unfold Within Shared.surplus at *
  simp only [hset, sum_map_split, hreserves, Proc.reserves, if_neg hpayload]
  omega

theorem Within.step {st' : State} {l : Label} (h : Within opts st) (hinv : Inv st)
    (hmax : 0 < opts.maxRetainedTopics) (halone : Alone opts st l)
    (hs : Retained.step opts st l = some st') : Within opts st' := by
  cases l with
  | publish | sweep =>
    cases hs
    simpa [Within, Proc.reserves] using h
  | advance i now topics =>
    simp only [Retained.step] at hs
    split at hs
    · cases hs
    next p hi =>
      obtain ⟨r, hr, rfl⟩ := Option.map_eq_some_iff.mp hs
      cases p with
      | handler pkt phase =>
        obtain ⟨r', hr', rfl⟩ := Option.map_eq_some_iff.mp hr
        rcases size_handler_le hr' (hinv.knows i _ hi) with
          hle | ⟨rfl, hpayload, hlimited, hsh, hphase⟩
        · exact h.set hi hle
        · rw [hsh, hphase]
          apply Within.accept hinv hmax hi hpayload hlimited
          apply halone
          simp [State.admits, hi, hpayload, hlimited]
      | sweep clock phase =>
        obtain ⟨r', hr', rfl⟩ := Option.map_eq_some_iff.mp hr
        exact h.set hi (size_sweep_le hr')

/-- As long as no new topic is let in while another that was let in is not counted yet,
a store that starts within the limit stays within it. -/
theorem size_le_of_alone (opts : Options) (store : Keyed RetainedMessage.topic) (started : ℕ)
    (ls : List Label) (st : State) (hmax : 0 < opts.maxRetainedTopics)
    (hstore : store.size ≤ opts.maxRetainedTopics)
    (halone : Along (step opts) (Alone opts) (start opts store started) ls)
    (hrun : exec (step opts) (start opts store started) ls = some st) :
    st.shared.store.size ≤ opts.maxRetainedTopics := by
  have hboth := exec_invariant (fun st => Inv st ∧ Within opts st)
    (fun st l st' h hok hs => ⟨h.1.step hs, h.2.step h.1 hmax hok hs⟩)
    ⟨inv_start opts store started, hstore⟩ halone hrun
  exact le_trans (Nat.le_add_right _ _) hboth.2

def oneTopic : Options := { maxRetainedTopics := 1 }

/-- The publisher of `b` checks the limit when that of `a` has counted its topic. -/
def orderlyRun : List Label :=
  [.publish (retainPacket (ascii "a") [1]), .publish (retainPacket (ascii "b") [1]), .advance 0,
    .advance 1, .advance 0, .advance 1, .advance 0, .advance 0, .advance 0, .advance 1]

theorem size_le_of_alone_orderlyRun :
    ∃ st, exec (step oneTopic) (start oneTopic ∅ 0) orderlyRun = some st ∧
      st.shared.has (ascii "a") = true ∧ st.shared.store.size ≤ 1 :=
  exec_reaches (by decide +kernel) fun st hst _ =>
    size_le_of_alone oneTopic ∅ 0 orderlyRun st (by decide) (by decide) (by decide +kernel) hst

/-- Two publishers of new topics with different stripes: both check the limit before
either counts its topic. -/
def racingRun : List Label :=
  [.publish (retainPacket (ascii "a") [1]), .publish (retainPacket (ascii "b") [1]), .advance 0,
    .advance 1, .advance 0, .advance 1, .advance 0, .advance 1, .advance 0, .advance 1]

theorem racingRun_exceeds_limit :
    ∃ st, exec (step oneTopic) (start oneTopic ∅ 0) racingRun = some st ∧
      st.shared.store.size = 2 ∧ oneTopic.maxRetainedTopics = 1 :=
  exec_reaches (by decide +kernel) fun _ _ _ => rfl

end SharkMqtt.Broker.Retained
