import SharkMqtt.Broker.Process

/-!
# Filters that are rejected

`handleSubscribe` and `handleUnsubscribe` deal with the filters of a packet one by one and
return at the first that is malformed; what was entered or removed by then stays so.
-/

namespace SharkMqtt.Broker.Process

open Protocol Lib

/-- The filter behind the share name, if there is one; `none` for a malformed filter. -/
def aclFilter (topic : Str) : Option Str :=
  (if isSharedSubscription topic then (parseSharedFilter topic).map Prod.snd
    else some topic).filter validateTopicFilter

/-- The filters of a SUBSCRIBE that end the connection. -/
def Rejected (f : TopicFilter) : Prop :=
  aclFilter f.topic = none ∨ isSharedSubscription f.topic = true ∧ f.noLocal = true

instance (f : TopicFilter) : Decidable (Rejected f) := inferInstanceAs (Decidable (_ ∨ _))

section
variable {allowed : Str → Bool} {c : Str} {f : TopicFilter}

theorem enterFilter_eq_none_iff {tp : Topics} : enterFilter allowed c tp f = none ↔ Rejected f := by
  fun_cases enterFilter allowed c tp f <;> simp_all [Rejected, aclFilter, Option.filter]

theorem enterFilter_eq_refused_iff {tp : Topics} (hf : ¬Rejected f) :
    enterFilter allowed c tp f = some none ↔ ∀ r ∈ aclFilter f.topic, allowed r = false := by
  have hentered : (tp.subscribe f.topic c f.qos.toNat).2 = validateTopicFilter f.topic := by
    simp only [Topics.subscribe, TopicTree.subscribe]
    split <;> simp_all
  revert hf
  fun_cases enterFilter allowed c tp f <;>
    simp_all +zetaDelta [Rejected, aclFilter, Option.filter]

theorem address_of_aclFilter {topic r : Str} (h : aclFilter topic = some r) : Enterable topic := by
  revert h
  unfold aclFilter Enterable address
  split
  · cases parseSharedFilter topic <;> simp [Address.accepted]
  · grind [Option.filter, Address.accepted]

theorem unsubscribeFilter_eq_none_iff {p : Process} {topic : Str} :
    unsubscribeFilter c p topic = none ↔ aclFilter topic = none := by
  fun_cases unsubscribeFilter c p topic <;> simp_all [aclFilter, Option.filter]

theorem forFilters_of_refused {α : Type} {body : Process → α → Option Process} {p : Process}
    {bad : α} (hbad : body p bad = none) (after : List α) {before : List α}
    (hbefore : ∀ f ∈ before, body p f = some p) :
    forFilters body (before ++ bad :: after) p = p := by
  induction before with
  | nil => simp only [List.nil_append, forFilters, hbad]
  | cons f rest ih =>
    rw [List.forall_mem_cons] at hbefore
    simpa only [List.cons_append, forFilters, hbefore.1] using ih hbefore.2

/-- The filters after the one that is entered replace its entry, they do not remove it. -/
theorem exists_entry_of_granted {before : List TopicFilter} (hbefore : ∀ f ∈ before, ¬Rejected f)
    {r : Str} (hf : f ∈ before) (hr : aclFilter f.topic = some r) (hallow : allowed r = true)
    (rest : List TopicFilter) (p : Process) :
    ∃ a, ((forFilters (subscribeFilter allowed c) (before ++ rest) p).topics.entry c a).isSome := by
  induction before generalizing p with
  | nil => cases hf
  | cons g before ih =>
    rw [List.forall_mem_cons] at hbefore
    rw [List.cons_append, forFilters, subscribeFilter]
    cases henter : enterFilter allowed c p.topics g with
    | none => exact absurd (enterFilter_eq_none_iff.mp henter) hbefore.1
    | some entered =>
      cases entered with
      | none =>
        rcases List.mem_cons.mp hf with rfl | hf
        · have := (enterFilter_eq_refused_iff hbefore.1).mp henter r hr
          rw [hallow] at this
          cases this
        · exact ih hbefore.2 hf p
      | some topics =>
        obtain ⟨a, -, -, hentry⟩ := enterFilter_eq_some henter
        refine ⟨a, forFilters_induction (P := fun p => (p.topics.entry c a).isSome)
          (fun p f p' hp hsub => ?_) (before ++ rest) _ ?_⟩
        · rcases subscribeFilter_eq_some hsub with rfl | ⟨a', -, -, -, hentry⟩
          · exact hp
          · rw [hentry]
            split
            · rfl
            · exact hp
        · rw [hentry, if_pos ⟨rfl, rfl⟩]
          rfl

theorem exists_entry_removed {f : Str} (hf : aclFilter f ≠ none) (rest : List Str) :
    ∃ (p : Process) (a : Address), (p.topics.entry c a).isSome ∧
      (p.handleUnsubscribe c (f :: rest)).topics.entry c a = none := by
  obtain ⟨r, hr⟩ := Option.ne_none_iff_exists'.mp hf
  obtain ⟨a, ha, hacc⟩ := address_of_aclFilter hr
  refine ⟨{ topics := (∅ : Topics).restoreFilter c f 0, out := { engine := {} } }, a, ?_, ?_⟩
  · rw [Topics.entry_restoreFilter, if_pos ⟨rfl, ha, hacc⟩]
    rfl
  · generalize ({ topics := (∅ : Topics).restoreFilter c f 0, out := _ } : Process) = p
    rw [handleUnsubscribe, forFilters]
    cases hunsub : unsubscribeFilter c p f with
    | none => exact absurd (unsubscribeFilter_eq_none_iff.mp hunsub) hf
    | some p' =>
      refine forFilters_induction (P := fun p => p.topics.entry c a = none)
        (fun p g p' hp hunsub => ?_) rest p' ?_
      · obtain ⟨a', -, -, hentry⟩ := unsubscribeFilter_eq_some hunsub
        rw [hentry, hp, ite_self]
      · obtain ⟨a', ha', -, hentry⟩ := unsubscribeFilter_eq_some hunsub
        cases ha.symm.trans ha'
        rw [hentry, if_pos ⟨rfl, rfl⟩]

end

/-- **A rejected packet leaves the topics as they were in every case only where nothing ahead
of the filter that is rejected was entered or removed.** -/
theorem rejected_unchanged_iff (opts : BrokerOptions) (allowed : Str → Bool) (c : Str)
    (before after : List TopicFilter) (bad : TopicFilter) (hbefore : ∀ f ∈ before, ¬Rejected f)
    (hbad : Rejected bad)
    (hlimit : opts.maxTopicFiltersPerSub = 0 ∨
      (before ++ bad :: after).length ≤ opts.maxTopicFiltersPerSub)
    (names names' : List Str) (name : Str) (hnames : ∀ f ∈ names, aclFilter f ≠ none)
    (hname : aclFilter name = none) :
    ((∀ p : Process,
        let p' := p.handleSubscribe opts allowed c (before ++ bad :: after)
        p'.topics = p.topics ∧ p'.out.sessions = p.out.sessions) ↔
      ∀ f ∈ before, ∀ r ∈ aclFilter f.topic, allowed r = false) ∧
    ((∀ p : Process,
        let p' := p.handleUnsubscribe c (names ++ name :: names')
        p'.topics = p.topics ∧ p'.out.sessions = p.out.sessions) ↔ names = []) := by
  have hhandle (p : Process) : p.handleSubscribe opts allowed c (before ++ bad :: after) =
      forFilters (subscribeFilter allowed c) (before ++ bad :: after) p :=
    if_neg (by omega)
  simp only [hhandle]
  refine ⟨⟨fun h f hf r hr => ?_, fun h p => ?_⟩, ⟨fun h => ?_, fun h p => ?_⟩⟩
  · by_contra hallow
    obtain ⟨a, ha⟩ := exists_entry_of_granted hbefore hf hr (eq_true_of_ne_false hallow)
      (bad :: after) (c := c) { out := { engine := {} } }
    rw [(h _).1, Topics.entry_empty] at ha
    cases ha
  · rw [forFilters_of_refused]
    · exact ⟨rfl, rfl⟩
    · rw [subscribeFilter, enterFilter_eq_none_iff.mpr hbad]
    · intro f hf
      rw [subscribeFilter, (enterFilter_eq_refused_iff (hbefore f hf)).mpr (h f hf)]
  · match names with
    | [] => rfl
    | f :: names =>
      obtain ⟨p, a, hentered, hgone⟩ :=
        exists_entry_removed (c := c) (List.forall_mem_cons.mp hnames).1 (names ++ name :: names')
      rw [← (h p).1, List.cons_append, hgone] at hentered
      cases hentered
  · subst h
    unfold handleUnsubscribe
    rw [forFilters_of_refused (unsubscribeFilter_eq_none_iff.mpr hname) _ (by simp)]
    exact ⟨rfl, rfl⟩

/-- The client `c` subscribes to `a` and to a malformed filter. -/
def granted : Process :=
  ({ out := { engine := {} } } : Process).handleSubscribe { maxInflight := 0, sessionExpiry := 0 }
    (fun _ => true) (ascii "c")
    [{ topic := ascii "a", qos := 1 }, { topic := ascii "a#", qos := 0 }]

theorem rejected_unchanged_iff_refused :
    (granted.handleSubscribe { maxInflight := 0, sessionExpiry := 0 } (fun _ => false)
        (ascii "c") [⟨ascii "b", 0, false, false, 0, none⟩, ⟨[], 0, false, false, 0, none⟩]).topics =
      granted.topics :=
  ((rejected_unchanged_iff { maxInflight := 0, sessionExpiry := 0 } (fun _ => false) (ascii "c")
    [⟨ascii "b", 0, false, false, 0, none⟩] [] ⟨[], 0, false, false, 0, none⟩ (by decide)
    (by decide) (.inl rfl) [] [] [] (by decide) (by decide)).1.mpr (fun _ _ _ _ => rfl) granted).1

/-- The topic filter `a` stays when `a#` next to it is rejected, and goes when the two are
unsubscribed. -/
theorem rejected_packet_changes_topics :
    Rejected { topic := ascii "a#", qos := 0 } ∧
    granted.topics.entry (ascii "c") (.trie (ascii "a")) = some 1 ∧
    (granted.handleUnsubscribe (ascii "c") [ascii "a", ascii "a#"]).topics.entry (ascii "c")
      (.trie (ascii "a")) = none := by
  decide +kernel

end SharkMqtt.Broker.Process
