import Mathlib.Logic.Function.Basic
import SharkMqtt.Lib.Processes

/-!
# Processes that share a table of locks

A key is guarded by the lock `index k`, and several keys may share one. A process
holds at most one key at a time; the table says which process has which lock. A step
changes the shared state at most at the key its process holds, so what a process
knows about its own key survives the steps of all others.
-/

namespace SharkMqtt.Lib

variable {K M P S : Type*}

/-- What a step of process `i` does to its lock: the key held before, the key held
after, the new table. -/
inductive LockStep [DecidableEq M] (index : K → M) (i : ℕ) (locks : M → Option ℕ) :
    Option K → Option K → (M → Option ℕ) → Prop where
  | keep (k : Option K) : LockStep index i locks k k locks
  | acquire (k : K) (hfree : locks (index k) = none) :
      LockStep index i locks none (some k) (Function.update locks (index k) (some i))
  | release (k : K) :
      LockStep index i locks (some k) none (Function.update locks (index k) none)

/-- Every process has the lock of the key it holds. -/
def Exclusive (index : K → M) (holds : P → Option K) (locks : M → Option ℕ)
    (procs : List P) : Prop :=
  ∀ i p k, procs[i]? = some p → holds p = some k → locks (index k) = some i

namespace Exclusive

variable {index : K → M} {holds : P → Option K} {locks locks' : M → Option ℕ}
  {procs : List P} {i j : ℕ} {p p' q : P} {k : K}

section

variable (h : Exclusive index holds locks procs)

include h

/-- A lock has one owner. -/
theorem eq_of_index_eq {k' : K} (hi : procs[i]? = some p)
    (hp : holds p = some k) (hj : procs[j]? = some q) (hq : holds q = some k')
    (hindex : index k' = index k) : j = i := by
  have hpi := h i p k hi hp
  have hqj := h j q k' hj hq
  rw [hindex, hpi] at hqj
  exact (Option.some.inj hqj).symm

theorem set [DecidableEq M] (hi : procs[i]? = some p)
    (hlock : LockStep index i locks (holds p) (holds p') locks') :
    Exclusive index holds locks' (procs.set i p') := by
  intro j q k hj hq
  rcases getElem?_set_eq_some hj with ⟨rfl, rfl⟩ | ⟨hne, hj⟩
  · -- the process that steps
    rw [hq] at hlock
    generalize hb : holds p = before at hlock
    cases hlock with
    | keep => exact h j p k hi hb
    | acquire _ hfree => exact Function.update_self _ _ _
  · -- another process has its lock before the step, and no step takes it away
    have hold := h j q k hj hq
    generalize hb : holds p = before at hlock
    generalize holds p' = after at hlock
    cases hlock with
    | keep => exact hold
    | acquire k' hfree =>
      rw [Function.update_of_ne]
      · exact hold
      · intro hsame
        rw [hsame, hfree] at hold
        cases hold
    | release k' =>
      rw [Function.update_of_ne]
      · exact hold
      · intro hsame
        exact hne (h.eq_of_index_eq hi hb hj hq hsame)

theorem append (hp : holds p = none) : Exclusive index holds locks (procs ++ [p]) := by
  intro j q k hj hq
  rcases getElem?_concat_eq_some hj with hj | rfl
  · exact h j q k hj hq
  · rw [hp] at hq
    cases hq

/-- What the processes know of the keys they hold, after a step that leaves every other
key alone. -/
theorem knows_set {Knows : S → P → Prop} {Same : K → Prop} {s s' : S} (hi : procs[i]? = some p)
    (hframe : ∀ k, holds p ≠ some k → Same k)
    (hlocal : ∀ q, (∀ k, holds q = some k → Same k) → Knows s q → Knows s' q)
    (hknown : ∀ (j : ℕ) q, procs[j]? = some q → Knows s q) (hp' : Knows s' p') :
    ∀ (j : ℕ) q, (procs.set i p')[j]? = some q → Knows s' q := by
  intro j q hj
  rcases getElem?_set_eq_some hj with ⟨-, rfl⟩ | ⟨hne, hj⟩
  · exact hp'
  · apply hlocal q
    · intro k hq
      apply hframe k
      intro hp
      exact hne (h.eq_of_index_eq hi hp hj hq rfl)
    · exact hknown j q hj

end

end Exclusive

end SharkMqtt.Lib
