import Mathlib.Algebra.BigOperators.Group.List.Basic
import Mathlib.Data.List.Perm.Basic
import Mathlib.Tactic.Abel

/-!
# Lists of processes

A system with any number of processes keeps them in a list; a step of one of them
replaces the entry at its index. Sums and collections over the processes are read
as the contribution of the process that steps beside that of the others, whose
order does not matter.
-/

namespace SharkMqtt.Lib

variable {α β : Type*} {l : List α} {i : ℕ} {a : α}

/-- The processes before and after the one at `i`, and the list after its step. -/
theorem exists_split_of_getElem? (h : l[i]? = some a) :
    ∃ before after, l = before ++ a :: after ∧ ∀ b, l.set i b = before ++ b :: after := by
  obtain ⟨hi, rfl⟩ := List.getElem?_eq_some_iff.mp h
  refine ⟨l.take i, l.drop (i + 1), ?_, fun b => ?_⟩
  · rw [List.getElem_cons_drop, List.take_append_drop]
  · rw [List.set_eq_take_append_cons_drop, if_pos hi]

/-- A process after a step of the one at `i`: that one itself, or another as it was. -/
theorem getElem?_set_eq_some {j : ℕ} {b : α} (h : (l.set i b)[j]? = some a) :
    (j = i ∧ a = b) ∨ (j ≠ i ∧ l[j]? = some a) := by
  rw [List.getElem?_set] at h
  split_ifs at h with hij hlt
  · exact Or.inl ⟨hij.symm, (Option.some.inj h).symm⟩
  · exact Or.inr ⟨fun hji => hij hji.symm, h⟩

theorem getElem?_concat_eq_some {j : ℕ} {b : α} (h : (l ++ [b])[j]? = some a) :
    l[j]? = some a ∨ a = b := by
  rw [List.getElem?_append] at h
  split_ifs at h with hlt
  · exact Or.inl h
  · exact Or.inr (List.mem_singleton.mp (List.mem_of_getElem? h))

theorem sum_map_split {M : Type*} [AddCommMonoid M] (f : α → M) (before after : List α) (a : α) :
    ((before ++ a :: after).map f).sum = f a + ((before ++ after).map f).sum := by
  rw [(List.perm_middle.map f).sum_eq, List.map_cons, List.sum_cons]

theorem sum_map_set {M : Type*} [AddCommGroup M] (f : α → M) (h : l[i]? = some a) (b : α) :
    ((l.set i b).map f).sum = (l.map f).sum + (f b - f a) := by
  obtain ⟨before, after, hl, hset⟩ := exists_split_of_getElem? h
  rw [hset b, hl, sum_map_split, sum_map_split]
  abel

theorem filterMap_split (f : α → Option β) (before after : List α) (a : α) :
    ((before ++ a :: after).filterMap f).Perm ((f a).toList ++ (before ++ after).filterMap f) := by
  have hmiddle : (before ++ a :: after).Perm (a :: (before ++ after)) := List.perm_middle
  have hperm := hmiddle.filterMap f
  cases hf : f a with
  | none => rwa [List.filterMap_cons_none hf] at hperm
  | some b => rwa [List.filterMap_cons_some hf] at hperm

theorem countP_split (p : α → Bool) (before after : List α) (a : α) :
    (before ++ a :: after).countP p = (p a).toNat + (before ++ after).countP p := by
  rw [List.perm_middle.countP_eq, List.countP_cons, Nat.add_comm]
  cases p a <;> rfl

theorem countP_set (p : α → Bool) (h : l[i]? = some a) (b : α) :
    (l.set i b).countP p + (p a).toNat = l.countP p + (p b).toNat := by
  obtain ⟨before, after, hl, hset⟩ := exists_split_of_getElem? h
  rw [hset b, hl, countP_split, countP_split]
  omega

end SharkMqtt.Lib
