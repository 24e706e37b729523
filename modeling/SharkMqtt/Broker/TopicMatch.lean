import Mathlib.Data.List.Induction
import SharkMqtt.Broker.TopicTree

/-!
# What `Match` returns

The abstract model is a finite map: which filters each client holds, and at
which QoS (`held`). The trie refines it (`run_represents`): after any history
of `Subscribe` and `Unsubscribe` calls the entry of a client at the levels of a
filter is the client's holding of that filter, and there are no other entries.

`Match` is then characterised by the paths its walk visits. The walk adds the
subscribers of *every* node it passes, not only of those it ends in, so it
visits a filter that matches the topic or a proper prefix of its levels
(`Represents.match_eq`). What follows for the intended reading of `Match`, each client
once at the maximum QoS of its matching filters, is `match_spec_iff`.
-/

namespace SharkMqtt.Broker

open Protocol Lib

/-! ## Histories and the abstract subscription map -/

inductive TreeOp where
  | subscribe (topic clientID : Str) (qos : ℕ)
  | unsubscribe (topic clientID : Str)

def TopicTree.apply (tt : TopicTree) : TreeOp → TopicTree
  | .subscribe topic clientID qos => (tt.subscribe topic clientID qos).1
  | .unsubscribe topic clientID => tt.unsubscribe topic clientID

def TopicTree.run (h : List TreeOp) : TopicTree := h.foldl TopicTree.apply newTopicTree

/-- Which filters a client holds, and at which QoS. -/
abbrev Holdings := Str → Str → Option ℕ

def Holdings.apply (m : Holdings) : TreeOp → Holdings
  | .subscribe f c q =>
    if validateTopicFilter f then
      fun c' f' => if c' = c ∧ f' = f then some q else m c' f'
    else m
  | .unsubscribe f c => fun c' f' => if c' = c ∧ f' = f then none else m c' f'

/-- The last-write map of a history. -/
def held (h : List TreeOp) : Holdings := h.foldl Holdings.apply (fun _ _ => none)

/-! ## The trie refines the map -/

/-- The trie `n` stores exactly the holdings `m`. -/
structure Represents (n : TopicNode) (m : Holdings) : Prop where
  keyed : n.Keyed
  qosAt_eq : ∀ f c, n.qosAt (splitTopic f) c = m c f
  only : ∀ path c q, n.qosAt path c = some q → ∃ f, path = splitTopic f

theorem represents_empty : Represents newTopicTree.root (fun _ _ => none) where
  keyed := TopicNode.keyed_empty
  qosAt_eq f c := TopicNode.qosAt_empty (splitTopic f) c
  only path c q h := by
    rw [show newTopicTree.root = Trie.empty from rfl, TopicNode.qosAt_empty] at h
    cases h

variable {tt : TopicTree} {m : Holdings} {n : TopicNode}

theorem Represents.subscribe (h : Represents tt.root m) (f c : Str) (q : ℕ) :
    Represents (tt.subscribe f c q).1.root (m.apply (.subscribe f c q)) := by
  unfold TopicTree.subscribe Holdings.apply
  cases hv : validateTopicFilter f with
  | false => simpa [hv] using h
  | true =>
    simp only [Bool.not_true, Bool.false_eq_true, if_false]
    refine ⟨h.keyed.subscribeNode _, ?_, ?_⟩
    · intro f' c'
      rw [qosAt_subscribeNode, h.qosAt_eq, if_pos hv]
      simp only [splitTopic_injective.eq_iff, and_comm]
    · intro path c' q' hget
      rw [qosAt_subscribeNode] at hget
      split_ifs at hget with hp
      · exact ⟨f, hp.1⟩
      · exact h.only path c' q' hget

theorem Represents.unsubscribe (h : Represents tt.root m) (f c : Str) :
    Represents (tt.unsubscribe f c).root (m.apply (.unsubscribe f c)) := by
  refine ⟨h.keyed.unsubscribeNode _, ?_, ?_⟩
  · intro f' c'
    simp only [TopicTree.unsubscribe, Holdings.apply]
    rw [qosAt_unsubscribeNode _ h.keyed, h.qosAt_eq]
    simp only [splitTopic_injective.eq_iff, and_comm]
  · intro path c' q' hget
    simp only [TopicTree.unsubscribe] at hget
    rw [qosAt_unsubscribeNode _ h.keyed] at hget
    split_ifs at hget
    exact h.only path c' q' hget

theorem Represents.apply (h : Represents tt.root m) (op : TreeOp) :
    Represents (tt.apply op).root (m.apply op) := by
  cases op with
  | subscribe f c q => exact h.subscribe f c q
  | unsubscribe f c => exact h.unsubscribe f c

/-- **Refinement.** After any history the trie stores the last-write map. -/
theorem run_represents (h : List TreeOp) : Represents (TopicTree.run h).root (held h) := by
  induction h using List.reverseRecOn with
  | nil => exact represents_empty
  | append_singleton h op ih =>
    unfold TopicTree.run held
    rw [List.foldl_append, List.foldl_append]
    exact ih.apply op

/-! ## Visiting order

A `range` may visit the entries of a map in any order. Two trees with the same
maps have the same nodes, and at each node the same entries up to order. -/

def SameMaps (n n' : TopicNode) : Prop := Trie.SameMaps List.Perm n n'

variable {n' : TopicNode} (subs : List (Σ _ : Str, ℕ)) {f : MatchAcc → MatchAcc}
  {P : (Σ _ : Str, ℕ) → Prop}

theorem SameMaps.refl (n : TopicNode) : SameMaps n n := Trie.SameMaps.refl List.Perm.refl n

theorem Represents.sameMaps (h : Represents n m) (hs : SameMaps n n') : Represents n' m := by
  have hperm : ∀ path, (n.get path).Perm (n'.get path) := Trie.SameMaps.get (.refl _) hs
  have hqos : ∀ path c, n'.qosAt path c = n.qosAt path c := fun path c =>
    (List.perm_dlookup c (h.keyed.subscribers path) (hperm path)).symm
  refine ⟨⟨Trie.SameMaps.wf hs h.keyed.children, fun path => ?_⟩, fun f c => ?_,
    fun path c q hget => ?_⟩
  · exact (List.perm_nodupKeys (hperm path)).mp (h.keyed.subscribers path)
  · rw [hqos, h.qosAt_eq]
  · exact h.only path c q ((hqos path c).symm.trans hget)

/-! ## The accumulators of `Match`

`visited` mirrors the result slice, so one lookup function describes both. -/

structure MatchAcc.Good (acc : MatchAcc) : Prop where
  nodup : (acc.results.map Subscriber.clientID).Nodup
  mem_iff : ∀ c q, ⟨c, q⟩ ∈ acc.results ↔ acc.visited.lookup c = some q

theorem good_empty : (⟨[], ∅⟩ : MatchAcc).Good := ⟨List.nodup_nil, fun c q => by simp⟩

theorem map_clientID_setQoS (c : Str) (q : ℕ) : ∀ l : List Subscriber,
    (setQoS c q l).map Subscriber.clientID = l.map Subscriber.clientID
  | [] => rfl
  | s :: rest => by
    unfold setQoS
    split_ifs with h
    · simp [h]
    · simp [map_clientID_setQoS c q rest]

variable {c : Str} {q : ℕ}

theorem mem_setQoS : ∀ {l : List Subscriber},
    (l.map Subscriber.clientID).Nodup → c ∈ l.map Subscriber.clientID →
      ∀ s, s ∈ setQoS c q l ↔ s = ⟨c, q⟩ ∨ (s ∈ l ∧ s.clientID ≠ c)
  | [], _, h, _ => by simp at h
  | x :: rest, hnd, h, s => by
    rw [List.map_cons, List.nodup_cons] at hnd
    unfold setQoS
    split_ifs with hx
    · subst hx
      have hhead : ¬ (s = x ∧ s.clientID ≠ x.clientID) := fun hs => hs.2 (congrArg _ hs.1)
      have hrest : s ∈ rest ∧ s.clientID ≠ x.clientID ↔ s ∈ rest :=
        and_iff_left_of_imp fun hs he => hnd.1 (he ▸ List.mem_map_of_mem hs)
      rw [List.mem_cons, List.mem_cons, or_and_right, or_iff_right hhead, hrest]
    · have hc : c ∈ rest.map Subscriber.clientID := by
        rw [List.map_cons, List.mem_cons] at h
        exact h.resolve_left (fun e => hx e.symm)
      have hhead : s = x ∧ s.clientID ≠ c ↔ s = x := and_iff_left_of_imp fun hs => hs ▸ hx
      rw [List.mem_cons, mem_setQoS hnd.2 hc, List.mem_cons, or_and_right, hhead, or_left_comm]

theorem lookup_addSubscriber (acc : MatchAcc) (c : Str) (q : ℕ) (c' : Str) :
    (addSubscriber acc c q).visited.lookup c' =
      if c' = c then some (max q ((acc.visited.lookup c).getD 0))
      else acc.visited.lookup c' := by
  unfold addSubscriber
  by_cases hc : c' = c
  · subst hc
    cases ho : acc.visited.lookup c' with
    | none => simp
    | some old =>
      by_cases hq : q > old
      · simp [hq, Nat.max_eq_left (Nat.le_of_lt hq)]
      · simp [hq, ho, Nat.max_eq_right (Nat.le_of_not_lt hq)]
  · cases acc.visited.lookup c with
    | none => simp [hc, AList.lookup_insert_ne hc]
    | some old => by_cases hq : q > old <;> simp [hq, hc, AList.lookup_insert_ne hc]

theorem MatchAcc.Good.add {acc : MatchAcc} (h : acc.Good) (c : Str) (q : ℕ) :
    (addSubscriber acc c q).Good := by
  unfold addSubscriber
  cases ho : acc.visited.lookup c with
  | none =>
    have hnew : c ∉ acc.results.map Subscriber.clientID := by
      rw [List.mem_map]
      rintro ⟨⟨c', q'⟩, hs, rfl⟩
      rw [h.mem_iff] at hs
      exact absurd (hs.symm.trans ho) (by simp)
    refine ⟨?_, fun c' q' => ?_⟩
    · rw [List.map_append, List.nodup_append']
      exact ⟨h.nodup, List.nodup_singleton _, by simpa using hnew⟩
    · simp only [List.mem_append, List.mem_singleton, h.mem_iff]
      by_cases hc : c' = c
      · subst hc
        simp [ho, eq_comm]
      · simp [hc, AList.lookup_insert_ne hc]
  | some old =>
    simp only
    split_ifs with hq
    · have hmem : c ∈ acc.results.map Subscriber.clientID :=
        List.mem_map.mpr ⟨⟨c, old⟩, (h.mem_iff c old).mpr ho, rfl⟩
      refine ⟨?_, fun c' q' => ?_⟩
      · simpa only [map_clientID_setQoS] using h.nodup
      · rw [mem_setQoS h.nodup hmem, h.mem_iff]
        by_cases hc : c' = c
        · subst hc
          simp [eq_comm]
        · simp [hc, AList.lookup_insert_ne hc]
    · exact h

theorem MatchAcc.Good.addAll : ∀ {acc : MatchAcc}, acc.Good →
    (addSubscribers acc subs).Good := by
  induction subs with
  | nil => intro acc h; exact h
  | cons s rest ih => intro acc h; exact ih (h.add s.1 s.2)

theorem isSome_lookup_addSubscribers :
    ∀ (acc : MatchAcc) (c : Str), ((addSubscribers acc subs).visited.lookup c).isSome ↔
      (acc.visited.lookup c).isSome ∨ ∃ x, ⟨c, x⟩ ∈ subs := by
  induction subs with
  | nil => intro acc c; simp [addSubscribers]
  | cons s rest ih =>
    intro acc c
    rw [show addSubscribers acc (s :: rest) =
      addSubscribers (addSubscriber acc s.1 s.2) rest from rfl, ih, lookup_addSubscriber]
    by_cases hc : c = s.1
    · subst hc
      simp only [if_true, Option.isSome_some, true_or, true_iff]
      exact Or.inr ⟨s.2, List.mem_cons_self⟩
    · have hne : ∀ x, (⟨c, x⟩ : Σ _ : Str, ℕ) ≠ s := fun x e => hc (by rw [← e])
      simp [hc, hne]

theorem lookup_addSubscribers :
    ∀ (acc : MatchAcc) (c : Str) (q : ℕ),
      (addSubscribers acc subs).visited.lookup c = some q ↔
        IsGreatest {x | acc.visited.lookup c = some x ∨ ⟨c, x⟩ ∈ subs} q := by
  induction subs with
  | nil =>
    intro acc c q
    simp only [addSubscribers, List.foldl_nil, List.not_mem_nil, or_false]
    constructor
    · intro h
      refine ⟨h, fun x hx => ?_⟩
      rw [Set.mem_ofPred_eq, h, Option.some.injEq] at hx
      exact hx.ge
    · exact fun h => h.1
  | cons s rest ih =>
    intro acc c q
    obtain ⟨c₀, q₀⟩ := s
    rw [show addSubscribers acc (⟨c₀, q₀⟩ :: rest) =
      addSubscribers (addSubscriber acc c₀ q₀) rest from rfl, ih, lookup_addSubscriber]
    by_cases hc : c = c₀
    · subst hc
      simp only [if_true, List.mem_cons, Option.some.injEq, Sigma.mk.injEq, heq_eq_eq, true_and]
      -- the recorded maximum stands for both the old value and the new one
      cases ho : acc.visited.lookup c with
      | none => simp [eq_comm]
      | some old =>
        simp only [Option.getD_some, Option.some.injEq, IsGreatest, mem_upperBounds,
          Set.mem_ofPred_eq, or_imp, forall_and, forall_eq, forall_eq', Nat.max_le]
        constructor
        · rintro ⟨hq, ⟨h₀, hold⟩, hrest⟩
          refine ⟨?_, hold, h₀, hrest⟩
          rcases hq with rfl | hq
          · exact or_assoc.mp (Or.inl (by omega))
          · exact Or.inr (Or.inr hq)
        · rintro ⟨hq, hold, h₀, hrest⟩
          refine ⟨?_, ⟨h₀, hold⟩, hrest⟩
          rcases hq with rfl | rfl | hq
          · exact Or.inl (max_eq_right h₀)
          · exact Or.inl (max_eq_left hold)
          · exact Or.inr hq
    · simp [hc]

theorem addSubscribers_append (acc : MatchAcc) (l l' : List (Σ _ : Str, ℕ)) :
    addSubscribers (addSubscribers acc l) l' = addSubscribers acc (l ++ l') := by
  simp [addSubscribers]

/-! ## The walk

Every walk adds some list of entries to the accumulators; what matters is which
paths of the trie the entries come from. -/

/-- `f` adds exactly the entries satisfying `P`. -/
def Adds (f : MatchAcc → MatchAcc) (P : (Σ _ : Str, ℕ) → Prop) : Prop :=
  ∃ l : List (Σ _ : Str, ℕ), (∀ acc, f acc = addSubscribers acc l) ∧ ∀ s, s ∈ l ↔ P s

theorem adds_subscribers (l : List (Σ _ : Str, ℕ)) :
    Adds (fun acc => addSubscribers acc l) (· ∈ l) :=
  ⟨l, fun _ => rfl, fun _ => Iff.rfl⟩

theorem adds_id : Adds id (fun _ => False) := ⟨[], fun _ => rfl, by simp⟩

theorem Adds.comp {g : MatchAcc → MatchAcc} {Q : (Σ _ : Str, ℕ) → Prop} (hg : Adds g Q)
    (hf : Adds f P) : Adds (g ∘ f) (fun s => P s ∨ Q s) := by
  obtain ⟨l, hl, hP⟩ := hf
  obtain ⟨l', hl', hQ⟩ := hg
  refine ⟨l ++ l', fun acc => ?_, fun s => ?_⟩
  · rw [Function.comp_apply, hl, hl', addSubscribers_append]
  · rw [List.mem_append, hP, hQ]

theorem Adds.congr {Q : (Σ _ : Str, ℕ) → Prop} (h : Adds f P) (hPQ : ∀ s, P s ↔ Q s) :
    Adds f Q := by
  obtain ⟨l, hl, hP⟩ := h
  exact ⟨l, hl, fun s => (hP s).trans (hPQ s)⟩

theorem exists_path {Q : List Str → Prop} : (∃ path, Q path) ↔ Q [] ∨ ∃ p path, Q (p :: path) := by
  constructor
  · rintro ⟨_ | ⟨p, path⟩, h⟩
    · exact Or.inl h
    · exact Or.inr ⟨p, path, h⟩
  · rintro (h | ⟨p, path, h⟩)
    · exact ⟨[], h⟩
    · exact ⟨p :: path, h⟩

mutual

theorem collectAllSubscribers_eq : ∀ (n : TopicNode) (acc : MatchAcc),
    collectAllSubscribers n acc = addSubscribers acc (n.entries.flatMap Prod.snd)
  | .mk ch subs, acc => by
    rw [collectAllSubscribers, collectChildren_eq, addSubscribers_append, Trie.entries,
      List.flatMap_cons]

theorem collectChildren_eq : ∀ (ch : List (Σ _ : Str, TopicNode)) (acc : MatchAcc),
    collectChildren ch acc = addSubscribers acc ((Trie.entriesBelow ch).flatMap Prod.snd)
  | [], acc => rfl
  | ⟨p, child⟩ :: rest, acc => by
    rw [collectChildren, collectChildren_eq rest, collectAllSubscribers_eq child,
      addSubscribers_append, Trie.entriesBelow, List.flatMap_append, List.flatMap_map]

end

theorem adds_collectAllSubscribers (hw : n.WF) :
    Adds (collectAllSubscribers n) (fun s => ∃ path, s ∈ n.get path) := by
  refine ⟨_, collectAllSubscribers_eq n, fun s => ?_⟩
  rw [List.mem_flatMap]
  exact Trie.exists_mem_entries hw (P := fun _ subs => s ∈ subs) fun _ => List.not_mem_nil

/-- Whether the walk adds the subscribers stored at the end of `path`: it takes
every node it passes, and everything under a `#` child. -/
def visits (isSystemTopic : Bool) (wild : Bool) (depth : ℕ) (parts : List Str) :
    List Str → Bool
  | [] => true
  | p :: path =>
    (wild && p == hashLevel) ||
      match parts with
      | [] => false
      | part :: rest =>
        (p == part && visits isSystemTopic
            (wild || (isSystemTopic && depth == 0 && startsWithDollar part))
            (depth + 1) rest path) ||
          (wild && p == plusLevel && visits isSystemTopic true (depth + 1) rest path)

/-- Descending into one child, when it is there. -/
theorem adds_child {p : Str} {f : TopicNode → MatchAcc → MatchAcc} {V : List Str → Prop}
    (h : ∀ child, n.children.dlookup p = some child →
      Adds (f child) (fun s => ∃ path, s ∈ child.get path ∧ V path)) :
    Adds (fun acc => match n.children.dlookup p with
        | some child => f child acc
        | none => acc)
      (fun s => ∃ path, s ∈ n.get (p :: path) ∧ V path) := by
  simp only [Trie.get_cons]
  cases hc : n.children.dlookup p with
  | none =>
    refine adds_id.congr fun s => ⟨False.elim, ?_⟩
    rintro ⟨_, hs, -⟩
    exact List.not_mem_nil hs
  | some child => exact h child hc

theorem adds_hashChild (hw : n.WF) : Adds (fun acc => match n.children.dlookup hashLevel with
        | some child => collectAllSubscribers child acc
        | none => acc)
      (fun s => ∃ path, s ∈ n.get (hashLevel :: path) ∧ True) :=
  adds_child (fun _ hc => (adds_collectAllSubscribers (hw.child hc)).congr (by simp))

theorem adds_ite {b : Bool} (h : Adds f P) :
    Adds (fun acc => if b then f acc else acc) (fun s => b = true ∧ P s) := by
  cases b with
  | false => exact adds_id.congr (by simp)
  | true => exact h.congr (by simp)

theorem adds_matchNodeWithSys (isSys : Bool) (parts : List Str) :
    ∀ {n : TopicNode} (depth : ℕ) (wild : Bool), n.WF →
      Adds (fun acc => matchNodeWithSys n parts depth acc isSys wild)
        (fun s => ∃ path, s ∈ n.get path ∧
          visits isSys wild depth parts path = true) := by
  induction parts with
  | nil =>
    intro n depth wild hw
    have hhash := adds_hashChild hw
    refine ((adds_ite (b := wild) hhash).comp (adds_subscribers n.subscribers)).congr
      (fun s => ?_)
    refine Iff.trans ?_ exists_path.symm
    simp [visits, and_left_comm]
  | cons part rest ih =>
    intro n depth wild hw
    have hhash := adds_hashChild hw
    have hexact := adds_child (n := n) (p := part) (fun child hc => ih (depth + 1)
      (wild || (isSys && depth == 0 && startsWithDollar part)) (hw.child hc))
    have hplus := adds_child (n := n) (p := plusLevel) (fun child hc =>
      ih (depth + 1) true (hw.child hc))
    refine ((adds_ite (b := wild) hplus).comp (hexact.comp
      ((adds_ite (b := wild) hhash).comp (adds_subscribers n.subscribers)))).congr
        (fun s => ?_)
    refine Iff.trans ?_ exists_path.symm
    simp [visits, and_or_left, exists_or, and_assoc, and_left_comm, or_assoc]

/-! ## Which filters the walk visits -/

/-- The topic made of the first `k` levels. -/
def topicPrefix (topic : Str) (k : ℕ) : Str := joinLevels ((splitTopic topic).take k)

theorem topicPrefix_length (t : Str) : topicPrefix t (splitTopic t).length = t := by
  rw [topicPrefix, List.take_length, joinLevels_splitTopic]

theorem splitTopic_topicPrefix (t : Str) {k : ℕ} (hk : 0 < k) :
    splitTopic (topicPrefix t k) = (splitTopic t).take k := by
  refine splitTopic_joinLevels ?_ ?_
  · simp only [ne_eq, List.take_eq_nil_iff, splitTopic_ne_nil, or_false]
    omega
  · exact fun l hl hb => (mem_of_mem_splitTopic (List.mem_of_mem_take hl) hb).2 rfl

/-- With wildcards allowed the walk visits the filters that match some run of
leading levels. -/
theorem visits_wild_iff {isSys : Bool} (ps : List Str) : ∀ (depth : ℕ) (ts : List Str),
    visits isSys true depth ts ps = true ↔
      ∃ k ≤ ts.length, matchLevels ps (ts.take k) = true := by
  induction ps with
  | nil =>
    intro depth ts
    simp only [visits, true_iff]
    exact ⟨0, Nat.zero_le _, by simp [matchLevels]⟩
  | cons p ps ih =>
    intro depth ts
    by_cases hp : p = hashLevel
    · subst hp
      refine iff_of_true ?_ ⟨0, Nat.zero_le _, by simp [matchLevels]⟩
      unfold visits
      simp
    · cases ts with
      | nil => simp [visits, matchLevels, hp]
      | cons t ts =>
        simp only [visits, hp, beq_eq_false_iff_ne.mpr, ne_eq, not_false_eq_true,
          Bool.and_false, Bool.false_or, Bool.true_and, Bool.true_or, Bool.or_eq_true,
          Bool.and_eq_true, beq_iff_eq, ih]
        have hnil : matchLevels (p :: ps) [] = false := by simp [matchLevels, hp]
        rw [← or_and_right]
        refine Iff.trans ?_ Nat.or_exists_add_one
        simp [matchLevels_cons_cons hp, hnil, and_left_comm]

theorem not_wildcard_of_startsWithDollar {l : Str} (h : startsWithDollar l = true) :
    l ≠ hashLevel ∧ l ≠ plusLevel := by
  constructor <;> rintro rfl <;> revert h <;> decide

/-- `Match` visits a filter exactly when it matches the topic or a proper
prefix of its levels, under the `$` rule. -/
theorem visits_iff (f t : Str) :
    visits (startsWithDollar (firstLevel (splitTopic t)))
        (!startsWithDollar (firstLevel (splitTopic t))) 0 (splitTopic t) (splitTopic f) = true ↔
      ∃ k, 0 < k ∧ k ≤ (splitTopic t).length ∧ matchSysProtected f (topicPrefix t k) = true := by
  obtain ⟨t₀, ts, ht⟩ := List.exists_cons_of_ne_nil (splitTopic_ne_nil t)
  obtain ⟨p, ps, hp⟩ := List.exists_cons_of_ne_nil (splitTopic_ne_nil f)
  have hlevels : ∀ k, matchSysProtected f (topicPrefix t (k + 1)) = true ↔
      matchLevels (p :: ps) (t₀ :: ts.take k) = true ∧
        (startsWithDollar t₀ = true → p ≠ hashLevel ∧ p ≠ plusLevel) := by
    intro k
    rw [matchSysProtected_iff, splitTopic_topicPrefix t k.succ_pos, ht, hp]
    rfl
  rw [← Nat.or_exists_add_one]
  simp only [ht, hp, firstLevel_cons, hlevels]
  cases hd : startsWithDollar t₀ with
  | false =>
    rw [Bool.not_false, visits_wild_iff, ← Nat.or_exists_add_one]
    -- only a leading `#` matches no level, and it matches one as well
    by_cases hhash : p = hashLevel
    · simpa [matchLevels, hhash] using ⟨0, ts.length.zero_le⟩
    · simp [matchLevels, hhash]
  | true =>
    simp only [visits, Bool.not_true, Bool.false_and, Bool.false_or, hd, beq_self_eq_true,
      Bool.and_self, Bool.or_false, Bool.and_eq_true, beq_iff_eq, visits_wild_iff]
    have hwild := not_wildcard_of_startsWithDollar hd
    by_cases hhash : p = hashLevel
    · simp [hhash, hwild.1.symm]
    · by_cases hplus : p = plusLevel
      · simp [hplus, hwild.2.symm]
      · simp [matchLevels_cons_cons hhash, hhash, hplus, and_left_comm]

/-! ## The result of `Match` -/

/-- A filter the walk of `Match` on `t` visits. -/
def Visited (f t : Str) : Prop :=
  ∃ k, 0 < k ∧ k ≤ (splitTopic t).length ∧ matchSysProtected f (topicPrefix t k) = true

variable {f : Str}

theorem visited_of_match {t : Str} (h : matchSysProtected f t = true) : Visited f t := by
  refine ⟨(splitTopic t).length, List.length_pos_of_ne_nil (splitTopic_ne_nil t), le_refl _, ?_⟩
  rw [topicPrefix_length]
  exact h

/-- An entry at a visited path is a holding of a visited filter. -/
theorem Represents.visited_iff (h : Represents n m) (t c : Str) (q : ℕ) :
    (∃ path, ⟨c, q⟩ ∈ n.get path ∧
      visits (startsWithDollar (firstLevel (splitTopic t)))
        (!startsWithDollar (firstLevel (splitTopic t))) 0 (splitTopic t) path = true) ↔
      ∃ f, m c f = some q ∧ Visited f t := by
  have hmem : ∀ path, ⟨c, q⟩ ∈ n.get path ↔ n.qosAt path c = some q := fun path =>
    (List.mem_dlookup_iff (h.keyed.subscribers path)).symm
  constructor
  · rintro ⟨path, hs, hv⟩
    rw [hmem] at hs
    obtain ⟨f, rfl⟩ := h.only path c q hs
    exact ⟨f, by rw [← h.qosAt_eq]; exact hs, (visits_iff f t).mp hv⟩
  · rintro ⟨f, hf, hv⟩
    refine ⟨splitTopic f, (hmem _).mpr ?_, (visits_iff f t).mpr hv⟩
    rw [h.qosAt_eq]
    exact hf

/-- What `Match` computes on a tree storing the holdings `m`: each client at
most once, exactly those holding a visited filter, at the largest QoS among
those. -/
theorem Represents.match_eq (h : Represents tt.root m) (t : Str) :
    ((tt.match t).map Subscriber.clientID).Nodup ∧
      (∀ c, c ∈ (tt.match t).map Subscriber.clientID ↔ ∃ f q, m c f = some q ∧ Visited f t) ∧
      ∀ c q, ⟨c, q⟩ ∈ tt.match t ↔ IsGreatest {x | ∃ f, m c f = some x ∧ Visited f t} q := by
  obtain ⟨l, hwalk, hl⟩ := adds_matchNodeWithSys (startsWithDollar (firstLevel (splitTopic t)))
    (splitTopic t) 0 (!startsWithDollar (firstLevel (splitTopic t))) h.keyed.children
  have hmatch : tt.match t = (addSubscribers ⟨[], ∅⟩ l).results := by
    unfold TopicTree.match
    rw [← hwalk]
  have hgood : (addSubscribers ⟨[], ∅⟩ l).Good := good_empty.addAll l
  have hl' : ∀ c q, ⟨c, q⟩ ∈ l ↔ ∃ f, m c f = some q ∧ Visited f t :=
    fun c q => (hl ⟨c, q⟩).trans (h.visited_iff t c q)
  rw [hmatch]
  refine ⟨hgood.nodup, fun c => ?_, fun c q => ?_⟩
  · have hsome := isSome_lookup_addSubscribers l ⟨[], ∅⟩ c
    simp only [AList.lookup_empty, Option.isSome_none, Bool.false_eq_true, false_or, hl'] at hsome
    rw [exists_comm, ← hsome, Option.isSome_iff_exists, List.mem_map]
    simp only [← hgood.mem_iff]
    constructor
    · rintro ⟨⟨c', q⟩, hs, rfl⟩
      exact ⟨q, hs⟩
    · rintro ⟨q, hs⟩
      exact ⟨⟨c, q⟩, hs, rfl⟩
  · rw [hgood.mem_iff, lookup_addSubscribers]
    simp only [AList.lookup_empty, reduceCtorEq, false_or, hl']

/-- The intended reading of `Match`: each client at most once, exactly the
clients holding a filter that matches the topic under the `$` rule, at the
maximum QoS of those filters. -/
structure MatchesSpec (m : Holdings) (t : Str) (res : List Subscriber) : Prop where
  nodup : (res.map Subscriber.clientID).Nodup
  mem_iff : ∀ c, c ∈ res.map Subscriber.clientID ↔
    ∃ f q, m c f = some q ∧ matchSysProtected f t = true
  qos_max : ∀ s ∈ res,
    IsGreatest {q | ∃ f, m s.clientID f = some q ∧ matchSysProtected f t = true} s.qos

/-- A filter that matches a proper prefix of the topic never outranks the
client's filters that match the topic. -/
def PrefixesDominated (m : Holdings) (t : Str) : Prop :=
  ∀ c f q k, m c f = some q → 0 < k → k < (splitTopic t).length →
    matchSysProtected f (topicPrefix t k) = true →
      ∃ g q', m c g = some q' ∧ matchSysProtected g t = true ∧ q ≤ q'

/-- A visited filter matches the topic or is dominated by one that does. -/
theorem PrefixesDominated.le {t : Str} (h : PrefixesDominated m t) (hf : m c f = some q)
    (hv : Visited f t) : ∃ g q', m c g = some q' ∧ matchSysProtected g t = true ∧ q ≤ q' := by
  obtain ⟨k, hpos, hk, hm⟩ := hv
  rcases Nat.lt_or_eq_of_le hk with hlt | rfl
  · exact h c f q k hf hpos hlt hm
  · rw [topicPrefix_length] at hm
    exact ⟨f, q, hf, hm, le_refl q⟩

/-- **`Match` meets its intended reading exactly when no client holds a filter
that matches a proper prefix of the topic and is not dominated by one of its
filters that match the topic.** The walk adds the subscribers of every node it
passes, so `a` is delivered `a/b`. -/
theorem match_spec_iff (h : List TreeOp) (t : Str) (tt : TopicTree)
    (hsame : SameMaps (TopicTree.run h).root tt.root) :
    MatchesSpec (held h) t (tt.match t) ↔ PrefixesDominated (held h) t := by
  obtain ⟨hnodup, hmem, hqos⟩ := ((run_represents h).sameMaps hsame).match_eq t
  constructor
  · intro hspec c f q k hf hpos hk hm
    have hin : c ∈ (tt.match t).map Subscriber.clientID :=
      (hmem c).mpr ⟨f, q, hf, k, hpos, hk.le, hm⟩
    obtain ⟨s, hs, rfl⟩ := List.mem_map.mp hin
    -- the client is returned at a QoS at least that of the filter visited on the way
    have hle : q ≤ s.qos := ((hqos _ _).mp hs).2 ⟨f, hf, k, hpos, hk.le, hm⟩
    obtain ⟨g, hg, hmatch⟩ := (hspec.qos_max s hs).1
    exact ⟨g, s.qos, hg, hmatch, hle⟩
  · intro hdom
    refine ⟨hnodup, fun c => ?_, fun s hs => ?_⟩
    · rw [hmem]
      constructor
      · rintro ⟨f, q, hf, hv⟩
        obtain ⟨g, q', hg, hmatch, -⟩ := hdom.le hf hv
        exact ⟨g, q', hg, hmatch⟩
      · rintro ⟨f, q, hf, hmatch⟩
        exact ⟨f, q, hf, visited_of_match hmatch⟩
    · obtain ⟨⟨f, hf, hv⟩, hmax⟩ := (hqos _ _).mp hs
      have hupper : s.qos ∈ upperBounds
          {q | ∃ f, held h s.clientID f = some q ∧ matchSysProtected f t = true} := by
        rintro q ⟨g, hg, hmatch⟩
        exact hmax ⟨g, hg, visited_of_match hmatch⟩
      obtain ⟨g, q', hg, hmatch, hle⟩ := hdom.le hf hv
      obtain rfl : q' = s.qos := le_antisymm (hupper ⟨g, hg, hmatch⟩) hle
      exact ⟨⟨g, hg, hmatch⟩, hupper⟩

/-- **Only what is held decides.** Two trees in which every client holds the same filters, however
they came to and in whatever order their maps are ranged over, return the same subscribers. -/
theorem match_perm_of_held {h h' : List TreeOp} {tt tt' : TopicTree}
    (hsame : SameMaps (TopicTree.run h).root tt.root)
    (hsame' : SameMaps (TopicTree.run h').root tt'.root) (hheld : held h = held h') (t : Str) :
    (tt.match t).Perm (tt'.match t) := by
  obtain ⟨hnodup, -, hqos⟩ := ((run_represents h).sameMaps hsame).match_eq t
  obtain ⟨hnodup', -, hqos'⟩ := ((run_represents h').sameMaps hsame').match_eq t
  refine (List.perm_ext_iff_of_nodup hnodup.of_map hnodup'.of_map).mpr fun ⟨c, q⟩ => ?_
  rw [hqos, hqos', hheld]

theorem held_singleton (hv : validateTopicFilter f = true) {c' f' : Str} {q' : ℕ} :
    held [.subscribe f c q] c' f' = some q' ↔ c' = c ∧ f' = f ∧ q' = q := by
  simp only [held, List.foldl_cons, List.foldl_nil, Holdings.apply, if_pos hv]
  split_ifs with heq
  · simp [heq.1, heq.2, eq_comm]
  · simp [← and_assoc, heq]

/-- The filter `a/#` matches the prefix `a` of `a/b` and `a/b` itself. -/
theorem match_spec_hash :
    MatchesSpec (held [.subscribe (ascii "a/#") (ascii "c") 1]) (ascii "a/b")
      ((TopicTree.run [.subscribe (ascii "a/#") (ascii "c") 1]).match (ascii "a/b")) := by
  refine (match_spec_iff _ _ _ (SameMaps.refl _)).mpr ?_
  intro c f q k hf _ _ _
  obtain ⟨rfl, rfl, rfl⟩ := (held_singleton (by decide)).mp hf
  exact ⟨ascii "a/#", 1, hf, by decide, le_refl 1⟩

/-- A client subscribed to `a` only is returned for `a/b`, which `a` does not
match. -/
theorem match_returns_parent :
    validatePublishTopic (ascii "a/b") = true ∧
      (TopicTree.run [.subscribe (ascii "a") (ascii "c") 0]).match (ascii "a/b") =
        [⟨ascii "c", 0⟩] ∧
      ¬ MatchesSpec (held [.subscribe (ascii "a") (ascii "c") 0]) (ascii "a/b")
        ((TopicTree.run [.subscribe (ascii "a") (ascii "c") 0]).match (ascii "a/b")) := by
  have hres : (TopicTree.run [.subscribe (ascii "a") (ascii "c") 0]).match (ascii "a/b") =
      [⟨ascii "c", 0⟩] := by decide
  refine ⟨by decide, hres, fun hspec => ?_⟩
  obtain ⟨f, q, hf, hm⟩ := (hspec.mem_iff (ascii "c")).mp (by rw [hres]; decide)
  obtain ⟨-, rfl, -⟩ := (held_singleton (by decide)).mp hf
  exact absurd hm (by decide)

/-- A client that subscribes again. -/
theorem match_perm_of_held_again :
    ((TopicTree.run [.subscribe (ascii "a") (ascii "c") 0,
      .subscribe (ascii "a") (ascii "c") 1]).match (ascii "a")).Perm
      ((TopicTree.run [.subscribe (ascii "a") (ascii "c") 1]).match (ascii "a")) := by
  refine match_perm_of_held (SameMaps.refl _) (SameMaps.refl _) ?_ (ascii "a")
  have hvalid : validateTopicFilter (ascii "a") = true := by decide
  funext c f
  simp only [held, List.foldl_cons, List.foldl_nil, Holdings.apply, hvalid, if_true]
  split_ifs <;> rfl

end SharkMqtt.Broker
