import Mathlib.Data.List.Sigma

/-!
# Tries

A node has its children by key and a value, `default` where there is nothing; the map a trie
stands for sends a path to the value at its end (`get`). `update` makes the nodes that are
missing on its path, `prune` says of each node it comes back from whether the caller should
drop it.

The children of a node are the list of the entries of a map, each key once (`WF`), in the
order in which a loop visits them. Tries with the same maps (`SameMaps`) differ in that
order only. `entries` lists the values of all nodes with their paths, and `select` the
optional values at the paths that are asked for.
-/

namespace SharkMqtt.Lib

section Entries

variable {κ β : Type} [DecidableEq κ] {l : List (Σ _ : κ, β)} {k : κ} {v : β}

theorem forall_dlookup_kinsert {P : β → Prop} (h : ∀ k' v', l.dlookup k' = some v' → P v')
    (hv : P v) : ∀ k' v', (l.kinsert k v).dlookup k' = some v' → P v' := by
  intro k' v' hlookup
  rcases eq_or_ne k' k with rfl | hne
  · rw [List.dlookup_kinsert, Option.some.injEq] at hlookup
    exact hlookup ▸ hv
  · rw [List.dlookup_kinsert_ne hne] at hlookup
    exact h k' v' hlookup

theorem forall_dlookup_kerase {P : β → Prop} (hl : l.NodupKeys)
    (h : ∀ k' v', l.dlookup k' = some v' → P v') :
    ∀ k' v', (l.kerase k).dlookup k' = some v' → P v' := by
  intro k' v' hlookup
  rcases eq_or_ne k' k with rfl | hne
  · rw [List.dlookup_kerase _ hl] at hlookup
    cases hlookup
  · rw [List.dlookup_kerase_ne hne] at hlookup
    exact h k' v' hlookup

/-- An entry that is replaced, or dropped. -/
theorem dlookup_replace (hl : l.NodupKeys) (drop : Prop) [Decidable drop] (k k' : κ) (v : β) :
    (if drop then l.kerase k else l.kinsert k v).dlookup k' =
      if k' = k then (if drop then none else some v) else l.dlookup k' := by
  by_cases hk : k' = k
  · subst hk
    rw [if_pos rfl]
    split_ifs
    · exact List.dlookup_kerase _ hl
    · exact List.dlookup_kinsert _
  · rw [if_neg hk]
    split_ifs
    · exact List.dlookup_kerase_ne hk
    · exact List.dlookup_kinsert_ne hk

end Entries

inductive Trie (κ σ : Type) where
  | mk (children : List (Σ _ : κ, Trie κ σ)) (value : σ)

namespace Trie

variable {κ σ V : Type} {ch : List (Σ _ : κ, Trie κ σ)}

def children : Trie κ σ → List (Σ _ : κ, Trie κ σ)
  | mk ch _ => ch

def value : Trie κ σ → σ
  | mk _ v => v

@[simp] theorem children_mk (v : σ) : (mk ch v).children = ch := rfl

section Keys

variable [DecidableEq κ]

def nodeAt : Trie κ σ → List κ → Option (Trie κ σ)
  | t, [] => some t
  | t, k :: ks => (t.children.dlookup k).bind fun child => child.nodeAt ks

variable (path : List κ) {t t' : Trie κ σ}

/-! ## Each key once -/

def WF (t : Trie κ σ) : Prop := ∀ path n, t.nodeAt path = some n → n.children.NodupKeys

theorem WF.here (h : t.WF) : t.children.NodupKeys := h [] t rfl

theorem WF.child {child : Trie κ σ} {k : κ} (h : t.WF) (hc : t.children.dlookup k = some child) :
    child.WF := by
  intro path n hn
  refine h (k :: path) n ?_
  rw [nodeAt, hc]
  exact hn

theorem WF.of_mem {v : σ} (h : (mk ch v).WF) {e : Σ _ : κ, Trie κ σ} (he : e ∈ ch) : e.2.WF :=
  h.child (List.mem_dlookup h.here he)

theorem wf_mk {v : σ} (hch : ch.NodupKeys)
    (h : ∀ k child, ch.dlookup k = some child → child.WF) : (mk ch v).WF := by
  intro path n hn
  cases path with
  | nil =>
    cases hn
    exact hch
  | cons k ks =>
    obtain ⟨child, hc, hn⟩ := Option.bind_eq_some_iff.mp hn
    exact h k child hc ks n hn

theorem WF.kinsert {child : Trie κ σ} (h : t.WF) (k : κ) (hchild : child.WF) (v : σ) :
    (mk (t.children.kinsert k child) v).WF :=
  wf_mk (List.kinsert_nodupKeys _ _ h.here)
    (forall_dlookup_kinsert (fun _ _ hc => h.child hc) hchild)

theorem WF.kerase (h : t.WF) (k : κ) (v : σ) : (mk (t.children.kerase k) v).WF :=
  wf_mk (h.here.kerase k) (forall_dlookup_kerase h.here fun _ _ hc => h.child hc)

/-! ## Visiting order -/

/-- The same maps at one path; `R` says which values are the same. -/
def SameNode (R : σ → σ → Prop) : Option (Trie κ σ) → Option (Trie κ σ) → Prop
  | some n, some n' => R n.value n'.value ∧ n.children.keys.Perm n'.children.keys
  | none, none => True
  | _, _ => False

def SameMaps (R : σ → σ → Prop) (t t' : Trie κ σ) : Prop :=
  ∀ path, SameNode R (t.nodeAt path) (t'.nodeAt path)

variable {R : σ → σ → Prop}

theorem SameMaps.refl (hR : ∀ s, R s s) (t : Trie κ σ) : SameMaps R t t := by
  intro path
  cases t.nodeAt path with
  | none => trivial
  | some n => exact ⟨hR n.value, List.Perm.refl _⟩

theorem SameMaps.wf (h : SameMaps R t t') (hw : t.WF) : t'.WF := by
  intro path n' hn'
  have hp := h path
  rw [hn'] at hp
  cases hn : t.nodeAt path with
  | none => rw [hn] at hp; exact hp.elim
  | some n =>
    rw [hn] at hp
    exact hp.2.nodup (hw path n hn)

/-! ## The map, and what the operations do to it -/

/-- The trie, and whether the caller should drop it. -/
def prune (isEmpty : σ → Bool) (f : σ → σ) (t : Trie κ σ) (path : List κ) : Trie κ σ × Bool :=
  match path with
  | [] => (mk t.children (f t.value), isEmpty (f t.value) && t.children.isEmpty)
  | k :: ks =>
    match t.children.dlookup k with
    | none => (t, false)
    | some child =>
      let r := child.prune isEmpty f ks
      let children := if r.2 then t.children.kerase k else t.children.kinsert k r.1
      (mk children t.value, isEmpty t.value && children.isEmpty)

theorem WF.prune (isEmpty : σ → Bool) (f : σ → σ) :
    ∀ {t : Trie κ σ}, t.WF → (t.prune isEmpty f path).1.WF := by
  induction path with
  | nil =>
    intro t h
    exact wf_mk h.here fun k child hc => h.child hc
  | cons k ks ih =>
    intro t h
    unfold Trie.prune
    cases hc : t.children.dlookup k with
    | none => exact h
    | some child =>
      simp only
      split_ifs
      · exact h.kerase k t.value
      · exact h.kinsert k (ih (h.child hc)) t.value

variable [Inhabited σ]

def empty : Trie κ σ := mk [] default

theorem wf_empty : (empty : Trie κ σ).WF := wf_mk List.nodupKeys_nil (by simp)

def get (t : Trie κ σ) (path : List κ) : σ := (t.nodeAt path).elim default value

@[simp] theorem get_nil (t : Trie κ σ) : t.get [] = t.value := rfl

theorem get_cons (t : Trie κ σ) (k : κ) (ks : List κ) :
    t.get (k :: ks) = (t.children.dlookup k).elim default fun child => child.get ks := by
  unfold get
  rw [nodeAt]
  cases t.children.dlookup k <;> rfl

theorem get_empty : (empty : Trie κ σ).get path = default := by
  cases path with
  | nil => rfl
  | cons k ks => rw [get_cons]; rfl

def update (f : σ → σ) (t : Trie κ σ) (path : List κ) : Trie κ σ :=
  match path with
  | [] => mk t.children (f t.value)
  | k :: ks =>
    let child := (t.children.dlookup k).getD empty
    mk (t.children.kinsert k (child.update f ks)) t.value

variable (f : σ → σ)

theorem WF.update : ∀ {t : Trie κ σ}, t.WF → (t.update f path).WF := by
  induction path with
  | nil =>
    intro t h
    exact wf_mk h.here fun k child hc => h.child hc
  | cons k ks ih =>
    intro t h
    have hchild : ((t.children.dlookup k).getD empty).WF := by
      cases hc : t.children.dlookup k with
      | none => exact wf_empty
      | some child => exact h.child hc
    exact h.kinsert k (ih hchild) t.value

theorem get_update : ∀ (t : Trie κ σ) (path' : List κ),
    (t.update f path).get path' = if path' = path then f (t.get path) else t.get path' := by
  induction path with
  | nil =>
    intro t path'
    cases path' with
    | nil | cons => rfl
  | cons k ks ih =>
    intro t path'
    cases path' with
    | nil => rfl
    | cons k' ks' =>
      rw [get_cons, get_cons]
      unfold Trie.update
      rw [children_mk]
      by_cases hk : k' = k
      · subst hk
        rw [List.dlookup_kinsert, Option.elim_some, ih, get_cons]
        simp only [List.cons.injEq, true_and]
        cases t.children.dlookup k' with
        | none => simp only [Option.getD_none, get_empty]; rfl
        | some child => rfl
      · simp [hk, get_cons]

section Prune

variable {isEmpty : σ → Bool} (hempty : ∀ s, isEmpty s = true → s = default)

include hempty

/-- A trie the caller may drop has no value left. -/
theorem get_of_drop {path : List κ} (h : (t.prune isEmpty f path).2 = true) (path' : List κ) :
    (t.prune isEmpty f path).1.get path' = default := by
  have hnone : ∀ (ch : List (Σ _ : κ, Trie κ σ)) v, (isEmpty v && ch.isEmpty) = true →
      (mk ch v).get path' = default := by
    intro ch v he
    rw [Bool.and_eq_true, List.isEmpty_iff] at he
    rw [he.2, hempty v he.1]
    exact get_empty path'
  cases path with
  | nil => exact hnone _ _ h
  | cons k ks =>
    unfold Trie.prune at h ⊢
    cases hc : t.children.dlookup k with
    | none => simp [hc] at h
    | some child =>
      rw [hc] at h
      exact hnone _ _ h

theorem get_prune (hf : f default = default) : ∀ {t : Trie κ σ}, t.WF → ∀ path',
    (t.prune isEmpty f path).1.get path' =
      if path' = path then f (t.get path) else t.get path' := by
  induction path with
  | nil =>
    intro t _ path'
    cases path' with
    | nil | cons => rfl
  | cons k ks ih =>
    intro t h path'
    unfold Trie.prune
    cases hc : t.children.dlookup k with
    | none =>
      -- the walk stops where the path does
      split_ifs with hpath
      · rw [hpath, get_cons, hc]
        exact hf.symm
      · rfl
    | some child =>
      cases path' with
      | nil => rfl
      | cons k' ks' =>
        rw [get_cons, get_cons]
        simp only [children_mk, dlookup_replace h.here]
        by_cases hk : k' = k
        · subst hk
          have hkept : (if (child.prune isEmpty f ks).2 then none
              else some (child.prune isEmpty f ks).1).elim default (fun n => n.get ks') =
              (child.prune isEmpty f ks).1.get ks' := by
            split_ifs with hdrop
            · exact (get_of_drop f hempty hdrop ks').symm
            · rfl
          rw [if_pos rfl, hkept, ih (h.child hc), get_cons, hc]
          simp
        · simp [hk, get_cons]

end Prune

theorem SameMaps.get (hR : R default default) (h : SameMaps R t t')
    (path : List κ) : R (t.get path) (t'.get path) := by
  unfold Trie.get
  match t.nodeAt path, t'.nodeAt path, h path with
  | none, none, _ => exact hR
  | some n, some n', hp => exact hp.1

end Keys

/-! ## Entries -/

mutual

/-- The values of the nodes with their paths, a node before its children. -/
def entries : Trie κ σ → List (List κ × σ)
  | mk ch v => ([], v) :: entriesBelow ch

def entriesBelow : List (Σ _ : κ, Trie κ σ) → List (List κ × σ)
  | [] => []
  | ⟨k, child⟩ :: rest => (child.entries.map fun e => (k :: e.1, e.2)) ++ entriesBelow rest

end

theorem mem_entriesBelow {path : List κ} {v : σ} :
    (path, v) ∈ entriesBelow ch ↔
      ∃ s ∈ ch, ∃ ks, path = s.1 :: ks ∧ (ks, v) ∈ s.2.entries := by
  induction ch with
  | nil => simp [entriesBelow]
  | cons s ch ih => simp [entriesBelow, ih, eq_comm, and_comm]

/-- The values at the paths that `q` picks. -/
def select (q : List κ → Bool) (t : Trie κ (Option V)) : List V :=
  (t.entries.filter fun e => q e.1).filterMap Prod.snd

theorem select_mk (q : List κ → Bool) (ch : List (Σ _ : κ, Trie κ (Option V))) (v : Option V) :
    (mk ch v).select q =
      (if q [] then v.toList else []) ++ ch.flatMap fun s => s.2.select fun ks => q (s.1 :: ks) := by
  have hbelow : ((entriesBelow ch).filter fun e => q e.1).filterMap Prod.snd =
      ch.flatMap fun s => s.2.select fun ks => q (s.1 :: ks) := by
    induction ch with
    | nil => rfl
    | cons s ch ih =>
      rw [entriesBelow, List.filter_append, List.filterMap_append, ih, List.flatMap_cons,
        List.filter_map, List.filterMap_map]
      rfl
  rw [select, entries, List.filter_cons, ← hbelow]
  by_cases hq : q [] = true
  · cases v <;> simp [hq]
  · simp [hq]

theorem select_false (t : Trie κ (Option V)) : t.select (fun _ => false) = [] := by
  unfold select
  simp

variable [DecidableEq κ]

theorem mem_entries {v : σ} (path : List κ) : ∀ {t : Trie κ σ}, t.WF →
    ((path, v) ∈ t.entries ↔ (t.nodeAt path).map value = some v) := by
  induction path with
  | nil =>
    intro t _
    obtain ⟨ch, v'⟩ := t
    simp [entries, mem_entriesBelow, nodeAt, value, eq_comm]
  | cons k ks ih =>
    intro t h
    obtain ⟨ch, v'⟩ := t
    rw [entries, List.mem_cons, mem_entriesBelow, nodeAt, children_mk]
    simp only [Prod.mk.injEq, reduceCtorEq, false_and, false_or]
    constructor
    · rintro ⟨s, hs, ks', hpath, he⟩
      cases hpath
      rw [show ch.dlookup s.1 = some s.2 from List.mem_dlookup h.here hs]
      exact (ih (h.of_mem hs)).mp he
    · intro hget
      cases hc : ch.dlookup k with
      | none => rw [hc] at hget; cases hget
      | some child =>
        rw [hc] at hget
        exact ⟨⟨k, child⟩, List.of_mem_dlookup hc, ks, rfl, (ih (h.child hc)).mpr hget⟩

/-- What a loop over the entries finds is what the map has, if `default` is nothing. -/
theorem exists_mem_entries [Inhabited σ] {t : Trie κ σ} (h : t.WF) {P : List κ → σ → Prop}
    (hP : ∀ path, ¬ P path default) :
    (∃ e ∈ t.entries, P e.1 e.2) ↔ ∃ path, P path (t.get path) := by
  unfold get
  constructor
  · rintro ⟨⟨path, v⟩, he, hv⟩
    obtain ⟨n, hn, rfl⟩ := Option.map_eq_some_iff.mp ((mem_entries path h).mp he)
    refine ⟨path, ?_⟩
    rw [hn]
    exact hv
  · rintro ⟨path, hv⟩
    cases hn : t.nodeAt path with
    | none => rw [hn] at hv; exact absurd hv (hP path)
    | some n =>
      rw [hn] at hv
      exact ⟨(path, n.value), (mem_entries path h).mpr (by rw [hn]; rfl), hv⟩

mutual

theorem nodup_entries : ∀ {t : Trie κ σ}, t.WF → (t.entries.map Prod.fst).Nodup
  | mk ch v, h => by
    have hroot : ([] : List κ) ∉ (entriesBelow ch).map Prod.fst := by
      intro hmem
      obtain ⟨⟨path, v'⟩, he, hpath⟩ := List.mem_map.mp hmem
      obtain ⟨s, -, ks, hcons, -⟩ := mem_entriesBelow.mp he
      cases hcons.symm.trans hpath
    exact List.nodup_cons.mpr ⟨hroot, nodup_entriesBelow (fun s hs => h.of_mem hs) h.here⟩

theorem nodup_entriesBelow : ∀ {ch : List (Σ _ : κ, Trie κ σ)}, (∀ s ∈ ch, s.2.WF) →
    ch.NodupKeys → ((entriesBelow ch).map Prod.fst).Nodup
  | [], _, _ => List.nodup_nil
  | ⟨k, child⟩ :: rest, h, hkeys => by
    rw [List.nodupKeys_cons] at hkeys
    rw [entriesBelow, List.map_append, List.nodup_append, List.map_map]
    refine ⟨?_, ?_, ?_⟩
    · have hchild := nodup_entries (h ⟨k, child⟩ List.mem_cons_self)
      have hcons := hchild.map (List.cons_injective (a := k))
      rwa [List.map_map] at hcons
    · exact nodup_entriesBelow (fun s hs => h s (List.mem_cons_of_mem _ hs)) hkeys.2
    · intro path hpath path' hpath' heq
      obtain ⟨e, -, rfl⟩ := List.mem_map.mp hpath
      obtain ⟨⟨p, v⟩, he', rfl⟩ := List.mem_map.mp hpath'
      obtain ⟨s, hs, ks, hp, -⟩ := mem_entriesBelow.mp he'
      have hkey : s.1 ∈ rest.keys := List.mem_map_of_mem hs
      rw [← (List.cons.inj (heq.trans hp)).1] at hkey
      exact hkeys.1 hkey

end

variable {v : V} {t : Trie κ (Option V)} (h : t.WF) {q : List κ → Bool}

include h

theorem mem_select : v ∈ t.select q ↔ ∃ path, t.get path = some v ∧ q path = true := by
  rw [← exists_mem_entries h (P := fun path s => s = some v ∧ q path = true) (by simp)]
  simp [select, and_assoc, and_comm]

/-- Where each value says where it is stored, no value is picked twice. -/
theorem nodup_map_select {ι : Type} (place : ι → List κ) {key : V → ι}
    (hkey : ∀ path v, t.get path = some v → path = place (key v)) :
    ((t.select q).map key).Nodup := by
  apply List.Nodup.of_map place
  refine List.Nodup.sublist ?_ (nodup_entries h)
  have hplace : ∀ e ∈ t.entries, ∀ v, e.2 = some v → place (key v) = e.1 := by
    rintro ⟨path, s⟩ he v rfl
    obtain ⟨n, hn, hv⟩ := Option.map_eq_some_iff.mp ((mem_entries path h).mp he)
    refine (hkey path v ?_).symm
    rw [get, hn]
    exact hv
  unfold select
  generalize t.entries = l at hplace
  induction l with
  | nil => exact List.Sublist.refl _
  | cons e l ih =>
    have ih := ih fun e' he' => hplace e' (List.mem_cons_of_mem e he')
    rw [List.filter_cons, List.map_cons]
    split_ifs
    · cases hv : e.2 with
      | none => simpa [hv] using ih.cons e.1
      | some v => simpa [hv, hplace e List.mem_cons_self v hv] using ih
    · exact ih.cons e.1

omit h in
/-- Of the children only the one under `k` contributes. -/
theorem flatMap_key {β : Type} (h : ch.NodupKeys) (k : κ) (g : Trie κ σ → List β) :
    (ch.flatMap fun s => if s.1 = k then g s.2 else []) = (ch.dlookup k).elim [] g := by
  induction ch with
  | nil => rfl
  | cons s ch ih =>
    rw [List.nodupKeys_cons] at h
    rw [List.flatMap_cons, ih h.2]
    by_cases hk : s.1 = k
    · subst hk
      rw [if_pos rfl, List.dlookup_eq_none.mpr h.1, List.dlookup_cons_eq]
      exact List.append_nil _
    · rw [if_neg hk, List.dlookup_cons_ne _ _ (Ne.symm hk)]
      rfl

end Trie

end SharkMqtt.Lib
