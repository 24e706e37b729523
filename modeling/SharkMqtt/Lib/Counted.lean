import Mathlib.Data.Set.Card

/-!
# Counted maps

A map that is defined at finitely many keys, and a counter that is moved with each entry
that appears or goes. The counter is an integer, as nothing in the rule that moves it
keeps it from passing zero: that the map is the one the counter was moved with does.
-/

namespace SharkMqtt.Lib

variable {K V : Type}

/-- Where the map is defined. -/
def support (m : K → Option V) : Set K := {k | (m k).isSome}

theorem mem_support {m : K → Option V} {k : K} : k ∈ support m ↔ (m k).isSome := Iff.rfl

/-- A counter that follows the number of entries. -/
structure Counts (total : ℤ) (m : K → Option V) : Prop where
  finite : (support m).Finite
  total_eq : total = (support m).ncard

theorem counts_none : Counts 0 (fun _ : K => (none : Option V)) := by
  have hempty : support (fun _ : K => (none : Option V)) = ∅ := by simp [support]
  refine ⟨?_, ?_⟩
  · rw [hempty]
    exact Set.finite_empty
  · rw [hempty, Set.ncard_empty]
    rfl

section Update

variable [DecidableEq K] {m : K → Option V}

theorem update_some_eq_some {k k' : K} {v w : V} :
    Function.update m k (some v) k' = some w ↔ k' = k ∧ v = w ∨ k' ≠ k ∧ m k' = some w := by
  rw [Function.update_apply]
  split_ifs with hk <;> simp [hk]

theorem update_none_eq_some {k k' : K} {w : V} :
    Function.update m k none k' = some w ↔ k' ≠ k ∧ m k' = some w := by
  rw [Function.update_apply]
  split_ifs with hk <;> simp [hk]

theorem support_update_some (m : K → Option V) (k : K) (v : V) :
    support (Function.update m k (some v)) = insert k (support m) := by
  ext k'
  rw [Set.mem_insert_iff, mem_support, mem_support]
  by_cases hk : k' = k
  · simp [hk]
  · simp [hk]

theorem support_update_none (m : K → Option V) (k : K) :
    support (Function.update m k none) = support m \ {k} := by
  ext k'
  rw [Set.mem_sdiff, mem_support, mem_support]
  by_cases hk : k' = k
  · simp [hk]
  · simp [hk]

theorem Counts.set {total : ℤ} (h : Counts total m) (k : K) (v : V) :
    Counts (if (m k).isSome then total else total + 1) (Function.update m k (some v)) := by
  refine ⟨?_, ?_⟩
  · rw [support_update_some]
    exact h.finite.insert k
  · rw [support_update_some]
    split_ifs with hk
    · rw [Set.insert_eq_of_mem (mem_support.mpr hk)]
      exact h.total_eq
    · rw [Set.ncard_insert_of_notMem (mt mem_support.mp hk) h.finite, h.total_eq]
      rfl

theorem Counts.unset {total : ℤ} (h : Counts total m) (k : K) :
    Counts (if (m k).isSome then total - 1 else total) (Function.update m k none) := by
  refine ⟨?_, ?_⟩
  · rw [support_update_none]
    exact h.finite.sdiff
  · rw [support_update_none]
    split_ifs with hk
    · have hcard := Set.ncard_sdiff_singleton_add_one (mem_support.mpr hk) h.finite
      have htotal := h.total_eq
      omega
    · rw [Set.sdiff_singleton_eq_self (mt mem_support.mp hk)]
      exact h.total_eq

end Update

end SharkMqtt.Lib
