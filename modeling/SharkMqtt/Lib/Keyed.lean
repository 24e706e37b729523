import Mathlib.Data.List.AList
import Mathlib.Data.List.Perm.Subperm
import SharkMqtt.Lib.Runs

/-!
# Maps whose values carry their key

A table indexed by an attribute of its own entries. `Keyed key` is a finite map
in which the value found under `k` has key `k`, so an entry stored under a wrong
key cannot be built. Its entries stand in some order, as those of an `AList`.
-/

namespace SharkMqtt.Lib

variable {κ α β : Type*} [DecidableEq κ]

structure Keyed (key : α → κ) where
  table : AList (fun _ : κ => α)
  keyed : ∀ k a, table.lookup k = some a → key a = k

namespace Keyed

variable {key : α → κ}

instance : EmptyCollection (Keyed key) := ⟨⟨∅, by simp⟩⟩

def lookup (m : Keyed key) (k : κ) : Option α := m.table.lookup k

def size (m : Keyed key) : ℕ := m.table.keys.length

def insert (m : Keyed key) (a : α) : Keyed key where
  table := m.table.insert (key a) a
  keyed := by
    intro k b hb
    by_cases hk : k = key a
    · subst hk
      rw [AList.lookup_insert, Option.some.injEq] at hb
      rw [hb]
    · rw [AList.lookup_insert_ne hk] at hb
      exact m.keyed k b hb

def erase (m : Keyed key) (k : κ) : Keyed key where
  table := m.table.erase k
  keyed := by
    intro k' b hb
    by_cases hk : k' = k
    · subst hk
      rw [AList.lookup_erase] at hb
      cases hb
    · rw [AList.lookup_erase_ne hk] at hb
      exact m.keyed k' b hb

def eraseAll (m : Keyed key) (ks : List κ) : Keyed key := ks.foldl erase m

variable (m : Keyed key)

theorem key_of_mem_entries {e : Σ _ : κ, α} (he : e ∈ m.table.entries) : key e.2 = e.1 :=
  m.keyed e.1 e.2 (AList.mem_lookup_iff.mpr he)

/-- The entries of a converted table, each under the key of its new value. -/
def mapEntries (m : Keyed key) (key' : β → κ) (f : α → β) : List (Σ _ : κ, β) :=
  m.table.entries.map fun e => ⟨key' (f e.2), f e.2⟩

theorem mapEntries_eq {key' : β → κ} {f : α → β} (hf : ∀ a, key' (f a) = key a) :
    m.mapEntries key' f = m.table.entries.map (Sigma.map id fun _ => f) := by
  refine List.map_congr_left ?_
  intro e he
  rw [hf, m.key_of_mem_entries he]
  rfl

def map (m : Keyed key) (key' : β → κ) (f : α → β) (hf : ∀ a, key' (f a) = key a) :
    Keyed key' where
  table :=
    { entries := m.mapEntries key' f
      nodupKeys := by
        rw [m.mapEntries_eq hf]
        exact List.NodupKeys.map₂ (fun _ => f) _ m.table.nodupKeys }
  keyed := by
    intro k b hb
    unfold AList.lookup at hb
    simp only [m.mapEntries_eq hf, List.dlookup_map₂] at hb
    obtain ⟨a, ha, rfl⟩ := Option.map_eq_some_iff.mp hb
    rw [hf]
    exact m.keyed k a ha

/-- The entries a partial update keeps, each under its old key. -/
def filterEntries (m : Keyed key) (f : α → Option α) : List (Σ _ : κ, α) :=
  m.table.entries.filterMap fun e => (f e.2).map (Sigma.mk e.1)

theorem mem_filterEntries {m : Keyed key} {f : α → Option α} {k : κ} {b : α} :
    ⟨k, b⟩ ∈ m.filterEntries f ↔ ∃ a, m.lookup k = some a ∧ f a = some b := by
  unfold filterEntries lookup
  rw [List.mem_filterMap]
  constructor
  · rintro ⟨⟨k', a⟩, he, hb⟩
    obtain ⟨b', hb', heq⟩ := Option.map_eq_some_iff.mp hb
    cases heq
    exact ⟨a, AList.mem_lookup_iff.mpr he, hb'⟩
  · rintro ⟨a, ha, hb⟩
    exact ⟨⟨k, a⟩, AList.mem_lookup_iff.mp ha, by rw [hb]; rfl⟩

def filterMap (m : Keyed key) (f : α → Option α) (hf : ∀ a b, f a = some b → key b = key a) :
    Keyed key where
  table :=
    { entries := m.filterEntries f
      nodupKeys := by
        refine List.nodupKeys_iff_pairwise.mpr ?_
        refine List.Pairwise.filterMap _ ?_ (List.nodupKeys_iff_pairwise.mp m.table.nodupKeys)
        intro e e' hne b hb b' hb'
        obtain ⟨a, -, rfl⟩ := Option.map_eq_some_iff.mp hb
        obtain ⟨a', -, rfl⟩ := Option.map_eq_some_iff.mp hb'
        exact hne }
  keyed := by
    intro k b hb
    obtain ⟨a, ha, hfa⟩ := mem_filterEntries.mp (AList.mem_lookup_iff.mp hb)
    rw [hf a b hfa]
    exact m.keyed k a ha

/-! ## Lookups -/

theorem lookup_insert (a : α) (k : κ) :
    (m.insert a).lookup k = if k = key a then some a else m.lookup k := by
  split_ifs with h
  · subst h
    exact AList.lookup_insert _
  · exact AList.lookup_insert_ne h

theorem lookup_erase (k k' : κ) : (m.erase k').lookup k = if k = k' then none else m.lookup k := by
  split_ifs with h
  · subst h
    exact AList.lookup_erase _ _
  · exact AList.lookup_erase_ne h

theorem lookup_eraseAll (ks : List κ) (k : κ) :
    (m.eraseAll ks).lookup k = if k ∈ ks then none else m.lookup k := by
  refine (foldl_writes (lookup · k) ks (fun m k' => m.lookup_erase k k') m).trans ?_
  simp

@[simp] theorem lookup_map (key' : β → κ) (f : α → β) (hf : ∀ a, key' (f a) = key a) (k : κ) :
    (m.map key' f hf).lookup k = (m.lookup k).map f := by
  unfold map lookup AList.lookup
  simp only [m.mapEntries_eq hf, List.dlookup_map₂]

@[simp] theorem lookup_filterMap (f : α → Option α) (hf : ∀ a b, f a = some b → key b = key a)
    (k : κ) : (m.filterMap f hf).lookup k = (m.lookup k).bind f := by
  ext b
  have hmem : (m.filterMap f hf).lookup k = some b ↔ ⟨k, b⟩ ∈ m.filterEntries f :=
    AList.mem_lookup_iff
  rw [hmem, mem_filterEntries, Option.bind_eq_some_iff]

theorem filterMap_lookup_keys :
    m.table.keys.filterMap m.lookup = m.table.entries.map Sigma.snd := by
  unfold AList.keys List.keys
  rw [List.filterMap_map, ← List.filterMap_eq_map]
  apply List.filterMap_congr
  intro e he
  exact AList.mem_lookup_iff.mpr he

/-! ## Sizes -/

@[simp] theorem size_map (key' : β → κ) (f : α → β) (hf : ∀ a, key' (f a) = key a) :
    (m.map key' f hf).size = m.size := by
  unfold map size AList.keys mapEntries List.keys
  simp only [List.length_map]

theorem mem_keys_iff (k : κ) : k ∈ m.table.keys ↔ (m.lookup k).isSome = true :=
  (AList.lookup_isSome.trans AList.mem_keys).symm

theorem size_insert (a : α) :
    (m.insert a).size = if (m.lookup (key a)).isSome then m.size else m.size + 1 := by
  have hkeys : (m.insert a).size = (m.table.keys.erase (key a)).length + 1 := by
    unfold insert size
    rw [AList.keys_insert, List.length_cons]
  rw [hkeys]
  split_ifs with h
  · have hmem := (m.mem_keys_iff (key a)).mpr h
    have hpos := List.length_pos_of_mem hmem
    rw [List.length_erase_of_mem hmem]
    unfold size
    omega
  · have hmem : key a ∉ m.table.keys := fun hk => h ((m.mem_keys_iff (key a)).mp hk)
    rw [List.erase_of_not_mem hmem]
    rfl

theorem size_erase (k : κ) :
    (m.erase k).size = if (m.lookup k).isSome then m.size - 1 else m.size := by
  unfold erase size
  rw [AList.keys_erase]
  split_ifs with h
  · rw [List.length_erase_of_mem ((m.mem_keys_iff k).mpr h)]
  · rw [List.erase_of_not_mem fun hk => h ((m.mem_keys_iff k).mp hk)]

theorem size_mono {m m' : Keyed key}
    (h : ∀ k, (m'.lookup k).isSome = true → (m.lookup k).isSome = true) : m'.size ≤ m.size :=
  (m'.table.keys_nodup.subperm fun k hk =>
    (m.mem_keys_iff k).mpr (h k ((m'.mem_keys_iff k).mp hk))).length_le

theorem size_eq_zero {m : Keyed key} (h : ∀ k, m.lookup k = none) : m.size = 0 := by
  refine List.length_eq_zero_iff.mpr (List.eq_nil_iff_forall_not_mem.mpr fun k hk => ?_)
  rw [mem_keys_iff, h] at hk
  cases hk

theorem size_pos_of_lookup {m : Keyed key} {k : κ} (h : (m.lookup k).isSome = true) : 0 < m.size :=
  List.length_pos_of_mem ((m.mem_keys_iff k).mpr h)

theorem length_le_size {m : Keyed key} {ks : List κ} (hnd : ks.Nodup)
    (h : ∀ k ∈ ks, (m.lookup k).isSome = true) : ks.length ≤ m.size :=
  (hnd.subperm fun k hk => (m.mem_keys_iff k).mpr (h k hk)).length_le

theorem size_le_length {m : Keyed key} {ks : List κ}
    (h : ∀ k, (m.lookup k).isSome = true → k ∈ ks) : m.size ≤ ks.length :=
  (m.table.keys_nodup.subperm fun k hk => h k ((m.mem_keys_iff k).mp hk)).length_le

end Keyed

end SharkMqtt.Lib
