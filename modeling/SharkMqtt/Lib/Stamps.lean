import Mathlib.Data.List.Nodup
import Mathlib.Logic.Function.Basic

/-!
# Stamps

A clock that ticks with every event, and a stamp for each key of a table: the time of the
last event that concerned it. Keys in use have distinct stamps, all of the past.

A list and its reverse are both in the order of the stamps only if there is at most one
element in it. And of a list in the order of time, dropping the front is filtering.
-/

namespace SharkMqtt.Lib

variable {κ : Type*}

/-- The keys in `dom` have distinct stamps, all before `clock`. -/
structure Stamped (dom : κ → Prop) (stamp : κ → ℕ) (clock : ℕ) : Prop where
  lt : ∀ k, dom k → stamp k < clock
  inj : ∀ k k', dom k → dom k' → stamp k = stamp k' → k = k'

namespace Stamped

variable {dom dom' : κ → Prop} {stamp : κ → ℕ} {clock clock' : ℕ}

/-- Keys go out of use, and the clock goes on. -/
theorem mono (h : Stamped dom stamp clock) (hdom : ∀ k, dom' k → dom k) (hclock : clock ≤ clock') :
    Stamped dom' stamp clock' where
  lt := by
    intro k hk
    exact Nat.lt_of_lt_of_le (h.lt k (hdom k hk)) hclock
  inj := by
    intro k k' hk hk'
    exact h.inj k k' (hdom k hk) (hdom k' hk')

theorem stamp_now [DecidableEq κ] (h : Stamped dom stamp clock) {k₀ : κ}
    (hdom : ∀ k, dom' k → k = k₀ ∨ dom k) :
    Stamped dom' (Function.update stamp k₀ clock) (clock + 1) := by
  -- the new stamp is the clock, the others are before it
  have hstamp : ∀ k, dom' k →
      (k = k₀ ∧ Function.update stamp k₀ clock k = clock) ∨
        (dom k ∧ Function.update stamp k₀ clock k = stamp k) := by
    intro k hk
    by_cases heq : k = k₀
    · rw [heq]
      exact Or.inl ⟨rfl, Function.update_self ..⟩
    · exact Or.inr ⟨(hdom k hk).resolve_left heq, Function.update_of_ne heq ..⟩
  constructor
  · intro k hk
    rcases hstamp k hk with ⟨-, hnow⟩ | ⟨hold, hsame⟩
    · rw [hnow]
      exact Nat.lt_succ_self _
    · rw [hsame]
      exact Nat.lt_succ_of_lt (h.lt k hold)
  · intro k k' hk hk' heq
    rcases hstamp k hk with ⟨hk₀, hnow⟩ | ⟨hold, hsame⟩
    · rcases hstamp k' hk' with ⟨hk₀', -⟩ | ⟨hold', hsame'⟩
      · rw [hk₀, hk₀']
      · rw [hnow, hsame'] at heq
        exact absurd heq.symm (Nat.ne_of_lt (h.lt k' hold'))
    · rcases hstamp k' hk' with ⟨-, hnow'⟩ | ⟨hold', hsame'⟩
      · rw [hsame, hnow'] at heq
        exact absurd heq (Nat.ne_of_lt (h.lt k hold))
      · rw [hsame, hsame'] at heq
        exact h.inj k k' hold hold' heq

end Stamped

/-- Both ways round in the order of the stamps. -/
theorem length_le_one_of_pairwise_reverse {α : Type*} {stamp : α → ℕ} {l : List α}
    (hnodup : (l.map stamp).Nodup) (hl : l.Pairwise (stamp · ≤ stamp ·))
    (hreverse : l.reverse.Pairwise (stamp · ≤ stamp ·)) : l.length ≤ 1 := by
  rcases l with _ | ⟨a, _ | ⟨b, rest⟩⟩
  · exact Nat.zero_le 1
  · exact Nat.le_refl 1
  · have hle : stamp a ≤ stamp b := List.rel_of_pairwise_cons hl List.mem_cons_self
    have hge : stamp b ≤ stamp a :=
      List.rel_of_pairwise_cons (List.pairwise_reverse.mp hreverse) List.mem_cons_self
    rw [List.map_cons, List.nodup_cons] at hnodup
    rw [Nat.le_antisymm hle hge] at hnodup
    exact absurd List.mem_cons_self hnodup.1

/-! ## Pruning

Times are kept in order, so those that have left a window are at the front. -/

theorem drop_length_takeWhile {α : Type*} (p : α → Bool) (l : List α) :
    l.drop (l.takeWhile p).length = l.dropWhile p := by
  induction l with
  | nil => rfl
  | cons a l ih => cases h : p a <;> simp [h, ih]

theorem dropWhile_eq_filter {p : ℕ → Bool} (hp : ∀ a b, a ≤ b → p b = true → p a = true) :
    ∀ {l : List ℕ}, l.Pairwise (· ≤ ·) → l.dropWhile p = l.filter fun t => !p t := by
  intro l
  induction l with
  | nil => exact fun _ => rfl
  | cons a l ih =>
    intro hl
    obtain ⟨ha, hl⟩ := List.pairwise_cons.mp hl
    cases hpa : p a with
    | true => simp [hpa, ih hl]
    | false =>
      have hrest : ∀ b ∈ l, (!p b) = true := by
        intro b hb
        cases hpb : p b with
        | false => rfl
        | true => exact absurd (hp a b (ha b hb) hpb) (by simp [hpa])
      simp [hpa, List.filter_eq_self.mpr hrest]

end SharkMqtt.Lib
