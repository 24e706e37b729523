import SharkMqtt.Broker.SharedSubscriptions
import SharkMqtt.Lib.Counted

/-!
# The whole topic tree

`TopicTree` (`broker/topic_tree.go`) with both of its halves: the trie of ordinary
subscriptions and the maps of the share groups, which have the counter `totalSubs` in
common. What it stands for is one finite map, from a filter and a client, or a group, a
filter and a client, to a QoS (`applied`).

After any history of the four calls the tree has exactly the entries of that map, no node
below the root and no map of a group is empty, and the counter is the number of entries
(`run_inv`). `unsubscribeNode` keeps a node that its caller has not been told to delete,
so the induction carries that such a node is not empty (`Occupied`).
-/

namespace SharkMqtt.Broker.TreeInvariants

open Protocol Lib Function
open SharedSubscriptions (Shared)

/-! ## The tree -/

structure Tree where
  trie : TopicTree := newTopicTree
  shared : Shared := {}

namespace Tree

def subscribe (t : Tree) (topic clientID : Str) (qos : ℕ) : Tree :=
  { t with trie := (t.trie.subscribe topic clientID qos).1 }

def unsubscribe (t : Tree) (topic clientID : Str) : Tree :=
  { t with trie := t.trie.unsubscribe topic clientID }

/-- The maps are those of `Shared.subscribeShared`; a new client is counted. -/
def subscribeShared (t : Tree) (shareName topicFilter clientID : Str) (qos : ℕ) : Tree where
  trie :=
    { t.trie with
      totalSubs :=
        if (t.shared.get shareName topicFilter clientID).isSome then t.trie.totalSubs
        else t.trie.totalSubs + 1 }
  shared := t.shared.subscribeShared shareName topicFilter clientID qos

def unsubscribeShared (t : Tree) (shareName topicFilter clientID : Str) : Tree where
  trie :=
    { t.trie with
      totalSubs :=
        if (t.shared.get shareName topicFilter clientID).isSome then t.trie.totalSubs - 1
        else t.trie.totalSubs }
  shared := t.shared.unsubscribeShared shareName topicFilter clientID

def subscriberCount (t : Tree) : ℤ := t.trie.totalSubs

end Tree

inductive Op where
  | subscribe (topic clientID : Str) (qos : ℕ)
  | unsubscribe (topic clientID : Str)
  | subscribeShared (shareName topicFilter clientID : Str) (qos : ℕ)
  | unsubscribeShared (shareName topicFilter clientID : Str)

def Tree.apply (t : Tree) : Op → Tree
  | .subscribe topic c q => t.subscribe topic c q
  | .unsubscribe topic c => t.unsubscribe topic c
  | .subscribeShared g f c q => t.subscribeShared g f c q
  | .unsubscribeShared g f c => t.unsubscribeShared g f c

def run (ops : List Op) : Tree := ops.foldl Tree.apply {}

inductive Key where
  | plain (filter clientID : Str)
  | shared (shareName filter clientID : Str)
deriving DecidableEq

/-- What a call writes; a filter that is not valid is not entered. -/
def write (m : Key → Option ℕ) : Op → Key → Option ℕ
  | .subscribe f c q => if validateTopicFilter f then update m (.plain f c) (some q) else m
  | .unsubscribe f c => update m (.plain f c) none
  | .subscribeShared g f c q => update m (.shared g f c) (some q)
  | .unsubscribeShared g f c => update m (.shared g f c) none

/-- The last-write map of a history. -/
def applied (ops : List Op) : Key → Option ℕ := ops.foldl write fun _ => none

/-! ## No empty node below the root -/

variable {c : Str} (parts : List Str)

def Occupied (n : TopicNode) : Prop := n.subscribers ≠ [] ∨ n.children ≠ []

/-- Every node that is reached from this one, other than itself, is occupied. -/
def Pruned (n : TopicNode) : Prop := ∀ path m, path ≠ [] → n.nodeAt path = some m → Occupied m

theorem pruned_empty : Pruned Trie.empty := by
  intro path m hpath hm
  cases path with
  | nil => exact absurd rfl hpath
  | cons p ps => cases hm

theorem Pruned.child {n child : TopicNode} {p : Str} (h : Pruned n)
    (hc : n.children.dlookup p = some child) : Occupied child ∧ Pruned child := by
  refine ⟨?_, ?_⟩
  · refine h [p] child (List.cons_ne_nil p []) ?_
    rw [Trie.nodeAt, hc]
    rfl
  · intro path m hpath hm
    refine h (p :: path) m (List.cons_ne_nil p path) ?_
    rw [Trie.nodeAt, hc]
    exact hm

theorem pruned_mk {ch : List (Σ _ : Str, TopicNode)} {subs : List (Σ _ : Str, ℕ)}
    (h : ∀ p child, ch.dlookup p = some child → Occupied child ∧ Pruned child) :
    Pruned (.mk ch subs) := by
  intro path m hpath hm
  cases path with
  | nil => exact absurd rfl hpath
  | cons p ps =>
    obtain ⟨child, hc, hm⟩ := Option.bind_eq_some_iff.mp hm
    cases ps with
    | nil =>
      rw [← Option.some.inj hm]
      exact (h p child hc).1
    | cons p' ps => exact (h p child hc).2 (p' :: ps) m (List.cons_ne_nil p' ps) hm

theorem occupied_of_not_isEmpty {ch : List (Σ _ : Str, TopicNode)} {subs : List (Σ _ : Str, ℕ)}
    (h : (subs.isEmpty && ch.isEmpty) = false) : Occupied (.mk ch subs) := by
  rw [Bool.and_eq_false_iff, List.isEmpty_eq_false_iff, List.isEmpty_eq_false_iff] at h
  exact h

/-- The path to the new entry has no empty node, whatever was there before. -/
theorem pruned_update {q : ℕ} :
    ∀ {n : TopicNode}, Pruned n →
      Occupied (n.update (fun subs => subs.kinsert c q) parts) ∧
        Pruned (n.update (fun subs => subs.kinsert c q) parts) := by
  induction parts with
  | nil =>
    intro n h
    exact ⟨Or.inl (List.cons_ne_nil _ _), pruned_mk fun p child hc => h.child hc⟩
  | cons part rest ih =>
    intro n h
    have hchild : Pruned ((n.children.dlookup part).getD Trie.empty) := by
      cases hc : n.children.dlookup part with
      | none => exact pruned_empty
      | some child => exact (h.child hc).2
    exact ⟨Or.inr (List.cons_ne_nil _ _),
      pruned_mk (forall_dlookup_kinsert (fun _ _ hc => h.child hc) (ih hchild))⟩

/-- A node that the caller keeps was occupied and still is: where a child is missing nothing
has changed, and otherwise the flag says it. -/
theorem pruned_prune {f : List (Σ _ : Str, ℕ) → List (Σ _ : Str, ℕ)} :
    ∀ {n : TopicNode}, n.WF → Pruned n →
      (Occupied n → (n.prune List.isEmpty f parts).2 = false →
        Occupied (n.prune List.isEmpty f parts).1) ∧
      Pruned (n.prune List.isEmpty f parts).1 := by
  induction parts with
  | nil =>
    intro n _ h
    exact ⟨fun _ hkeep => occupied_of_not_isEmpty hkeep, pruned_mk fun p child hc => h.child hc⟩
  | cons part rest ih =>
    intro n hw h
    unfold Trie.prune
    cases hc : n.children.dlookup part with
    | none => exact ⟨fun hocc _ => hocc, h⟩
    | some child =>
      refine ⟨fun _ hkeep => occupied_of_not_isEmpty hkeep, pruned_mk ?_⟩
      obtain ⟨hocc, hbelow⟩ := ih (hw.child hc) (h.child hc).2
      split_ifs with hprune
      · exact forall_dlookup_kerase hw.here fun _ _ hm => h.child hm
      · exact forall_dlookup_kinsert (fun _ _ hm => h.child hm)
          ⟨hocc (h.child hc).1 (Bool.eq_false_iff.mpr hprune), hbelow⟩

/-! ## No empty map in a share group -/

/-- No group is without filters, and no filter of a group without clients. -/
def NoEmptyMaps (sh : Shared) : Prop :=
  ∀ g filters, sh.sharedSubs.lookup g = some filters →
    filters ≠ ∅ ∧ ∀ f clients, filters.lookup f = some clients → clients ≠ ∅

section Entries

variable {V : Type} {m : AList fun _ : Str => V}

theorem insert_ne_empty (m : AList fun _ : Str => V) (k : Str) (v : V) : m.insert k v ≠ ∅ := by
  intro h
  have hlookup := AList.lookup_insert (a := k) (b := v) m
  rw [h] at hlookup
  cases hlookup

theorem ne_empty_of_not_isEmpty (h : ¬ m.entries.isEmpty = true) : m ≠ ∅ := by
  rintro rfl
  exact h rfl

end Entries

theorem NoEmptyMaps.subscribeShared {sh : Shared} (h : NoEmptyMaps sh) (g f c : Str) (q : ℕ) :
    NoEmptyMaps (sh.subscribeShared g f c q) := by
  refine forall_dlookup_kinsert h ⟨insert_ne_empty _ _ _, ?_⟩
  refine forall_dlookup_kinsert ?_ (insert_ne_empty _ _ _)
  intro f' clients hclients
  cases hg : sh.sharedSubs.lookup g with
  | none =>
    rw [hg] at hclients
    cases hclients
  | some filters =>
    rw [hg] at hclients
    exact (h g filters hg).2 f' clients hclients

theorem NoEmptyMaps.unsubscribeShared {sh : Shared} (h : NoEmptyMaps sh) (g f c : Str) :
    NoEmptyMaps (sh.unsubscribeShared g f c) := by
  unfold Shared.unsubscribeShared
  cases hg : sh.sharedSubs.lookup g with
  | none => exact h
  | some filters =>
    simp only
    cases hf : filters.lookup f with
    | none => exact h
    | some clients =>
      simp only
      have hfilters : ∀ f' clients', (if (clients.erase c).entries.isEmpty then filters.erase f
          else filters.insert f (clients.erase c)).lookup f' = some clients' → clients' ≠ ∅ := by
        split_ifs with hempty
        · exact forall_dlookup_kerase filters.nodupKeys (h g filters hg).2
        · exact forall_dlookup_kinsert (h g filters hg).2 (ne_empty_of_not_isEmpty hempty)
      generalize (if (clients.erase c).entries.isEmpty then filters.erase f
        else filters.insert f (clients.erase c)) = filters' at hfilters ⊢
      split_ifs with hempty
      · exact forall_dlookup_kerase sh.sharedSubs.nodupKeys h
      · exact forall_dlookup_kinsert h ⟨ne_empty_of_not_isEmpty hempty, hfilters⟩

/-! ## The invariant over histories -/

/-- The tree holds the entries of `m` and nothing else. -/
structure Inv (t : Tree) (m : Key → Option ℕ) : Prop where
  trie : Represents t.trie.root fun c f => m (.plain f c)
  groups : ∀ g f c, t.shared.get g f c = m (.shared g f c)
  pruned : Pruned t.trie.root
  noEmptyMaps : NoEmptyMaps t.shared
  counts : Counts t.subscriberCount m

theorem inv_empty : Inv {} fun _ => none where
  trie := represents_empty
  groups _ _ _ := rfl
  pruned := pruned_empty
  noEmptyMaps := by rintro g filters ⟨⟩
  counts := counts_none

section Updates

variable (m : Key → Option ℕ) (f c : Str)

/-- What the calls on the trie write is what `Holdings.apply` says of it. -/
theorem plain_update (v : Option ℕ) :
    (fun c' f' => update m (.plain f c) v (.plain f' c')) =
      fun c' f' => if c' = c ∧ f' = f then v else m (.plain f' c') := by
  funext c' f'
  rw [update_apply]
  refine if_congr ?_ rfl rfl
  rw [Key.plain.injEq]
  exact and_comm

theorem shared_update (g : Str) (v : Option ℕ) (g' f' c' : Str) :
    update m (.shared g f c) v (.shared g' f' c') =
      if g' = g ∧ f' = f ∧ c' = c then v else m (.shared g' f' c') := by
  rw [update_apply]
  exact if_congr (by rw [Key.shared.injEq]) rfl rfl

end Updates

namespace Inv

variable {t : Tree} {m : Key → Option ℕ}

theorem subscribe (h : Inv t m) (f c : Str) (q : ℕ) :
    Inv (t.subscribe f c q) (write m (.subscribe f c q)) := by
  have htrie := h.trie.subscribe f c q
  unfold Tree.subscribe
  rw [write]
  cases hv : validateTopicFilter f with
  | false =>
    have hsame : (t.trie.subscribe f c q).1 = t.trie := by
      unfold TopicTree.subscribe
      rw [hv]
      rfl
    rw [hsame]
    exact h
  | true =>
    have htree : (t.trie.subscribe f c q).1 =
        ⟨(subscribeNode t.trie.totalSubs t.trie.root (splitTopic f) c q).2,
          (subscribeNode t.trie.totalSubs t.trie.root (splitTopic f) c q).1⟩ := by
      unfold TopicTree.subscribe
      rw [hv]
      rfl
    rw [if_pos rfl]
    refine ⟨?_, ?_, ?_, h.noEmptyMaps, ?_⟩
    · rw [plain_update]
      simpa only [Holdings.apply, hv, if_true] using htrie
    · intro g' f' c'
      exact h.groups g' f' c'
    · rw [htree]
      rw [subscribeNode_eq]
      exact (pruned_update _ h.pruned).2
    · have hcounts := h.counts.set (.plain f c) q
      rw [← h.trie.qosAt_eq] at hcounts
      rw [htree, subscribeNode_eq]
      exact hcounts

theorem unsubscribe (h : Inv t m) (f c : Str) :
    Inv (t.unsubscribe f c) (write m (.unsubscribe f c)) := by
  refine ⟨?_, ?_, ?_, h.noEmptyMaps, ?_⟩
  · rw [write, plain_update]
    exact h.trie.unsubscribe f c
  · intro g' f' c'
    exact h.groups g' f' c'
  · rw [Tree.unsubscribe, TopicTree.unsubscribe, unsubscribeNode_eq]
    exact (pruned_prune _ h.trie.keyed.children h.pruned).2
  · have hcounts := h.counts.unset (.plain f c)
    rw [← h.trie.qosAt_eq] at hcounts
    rw [Tree.unsubscribe, TopicTree.unsubscribe, unsubscribeNode_eq]
    exact hcounts

theorem subscribeShared (h : Inv t m) (g f c : Str) (q : ℕ) :
    Inv (t.subscribeShared g f c q) (write m (.subscribeShared g f c q)) := by
  refine ⟨?_, ?_, h.pruned, h.noEmptyMaps.subscribeShared g f c q, ?_⟩
  · exact h.trie
  · intro g' f' c'
    rw [write, shared_update, ← h.groups]
    exact SharedSubscriptions.get_subscribeShared t.shared g f c q g' f' c'
  · have hcounts := h.counts.set (.shared g f c) q
    rw [← h.groups] at hcounts
    exact hcounts

theorem unsubscribeShared (h : Inv t m) (g f c : Str) :
    Inv (t.unsubscribeShared g f c) (write m (.unsubscribeShared g f c)) := by
  refine ⟨?_, ?_, h.pruned, h.noEmptyMaps.unsubscribeShared g f c, ?_⟩
  · exact h.trie
  · intro g' f' c'
    rw [write, shared_update, ← h.groups]
    exact SharedSubscriptions.get_unsubscribeShared t.shared g f c g' f' c'
  · have hcounts := h.counts.unset (.shared g f c)
    rw [← h.groups] at hcounts
    exact hcounts

theorem apply (h : Inv t m) (op : Op) : Inv (t.apply op) (write m op) := by
  cases op with
  | subscribe f c q => exact h.subscribe f c q
  | unsubscribe f c => exact h.unsubscribe f c
  | subscribeShared g f c q => exact h.subscribeShared g f c q
  | unsubscribeShared g f c => exact h.unsubscribeShared g f c

end Inv

theorem run_inv (ops : List Op) : Inv (run ops) (applied ops) := by
  induction ops using List.reverseRecOn with
  | nil => exact inv_empty
  | append_singleton ops op ih =>
    unfold run applied
    rw [List.foldl_append, List.foldl_append]
    exact ih.apply op

/-- After any history of the four calls the tree and the groups hold the last-write map and
nothing else, no node below the root and no map of a group is empty, and the counter is the
number of entries of the map. -/
theorem tree_denotes_applied (ops : List Op) :
    Represents (run ops).trie.root (fun c f => applied ops (.plain f c)) ∧
    (∀ g f c, (run ops).shared.get g f c = applied ops (.shared g f c)) ∧
    (∀ path (n : TopicNode), path ≠ [] → (run ops).trie.root.nodeAt path = some n →
      n.subscribers ≠ [] ∨ n.children ≠ []) ∧
    (∀ g filters, (run ops).shared.sharedSubs.lookup g = some filters →
      filters ≠ ∅ ∧ ∀ f clients, filters.lookup f = some clients → clients ≠ ∅) ∧
    (support (applied ops)).Finite ∧
    (run ops).subscriberCount = (support (applied ops)).ncard := by
  have h := run_inv ops
  exact ⟨h.trie, h.groups, h.pruned, h.noEmptyMaps, h.counts.finite, h.counts.total_eq⟩

end SharkMqtt.Broker.TreeInvariants
