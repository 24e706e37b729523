import Mathlib.Data.List.Basic

/-!
# Writers that refuse

A writer maps a value to its encoding or refuses it. `Writes w C enc` says what it
does: it accepts exactly the values with `C`, and writes `enc` for them. Writers that
are run one after the other are taken apart by `bind_written` and `bind_refuseIf`, a
condition at a time, and a writer run over a list by `writes_writeAll`.
-/

namespace SharkMqtt.Lib

variable {ε τ α β ι : Type}

theorem bind_eq_ok {x : Except ε α} {f : α → Except ε β} {b : β} :
    (x >>= f) = .ok b ↔ ∃ a, x = .ok a ∧ f a = .ok b := by
  cases x with
  | error e =>
    constructor
    · intro h
      cases h
    · rintro ⟨a, h, -⟩
      cases h
  | ok a =>
    constructor
    · intro h
      exact ⟨a, rfl, h⟩
    · rintro ⟨a', h, hf⟩
      cases h
      exact hf

/-- A writer of which it is known what it accepts and writes. -/
theorem bind_written {x : Except ε α} {f : α → Except ε β} {b : β} {C : Prop} {v : α}
    (h : ∀ a, x = .ok a ↔ C ∧ a = v) : (x >>= f) = .ok b ↔ C ∧ f v = .ok b := by
  rw [bind_eq_ok]
  constructor
  · rintro ⟨a, ha, hf⟩
    obtain ⟨hC, rfl⟩ := (h a).mp ha
    exact ⟨hC, hf⟩
  · rintro ⟨hC, hf⟩
    exact ⟨v, (h v).mpr ⟨hC, rfl⟩, hf⟩

theorem pure_eq_ok {a b : α} : (pure a : Except ε α) = .ok b ↔ b = a := by
  rw [eq_comm]
  exact Except.ok.injEq b a ▸ Iff.rfl

def Writes (w : α → Except ε (List τ)) (C : α → Prop) (enc : α → List τ) : Prop :=
  ∀ a b, w a = .ok b ↔ C a ∧ b = enc a

/-- A check before writing. -/
def refuseIf (c : Prop) [Decidable c] (e : ε) : Except ε Unit := if c then .error e else .ok ()

theorem bind_refuseIf {c : Prop} [Decidable c] {e : ε} {f : Unit → Except ε β} {b : β} :
    (refuseIf c e >>= f) = .ok b ↔ ¬ c ∧ f () = .ok b := by
  refine bind_written (v := ()) fun u => ?_
  unfold refuseIf
  by_cases hc : c
  · simp [hc]
  · simp [hc]

def writeIf (c : Prop) [Decidable c] (w : Except ε (List τ)) : Except ε (List τ) :=
  if c then w else .ok []

def writeAll (w : ι → Except ε (List τ)) : List ι → Except ε (List τ)
  | [] => .ok []
  | i :: l => do
    let b ← w i
    let bs ← writeAll w l
    pure (b ++ bs)

theorem writes_writeAll {w : ι → Except ε (List τ)} {C : ι → Prop} {enc : ι → List τ}
    (h : Writes w C enc) : Writes (writeAll w) (fun l => ∀ i ∈ l, C i) (List.flatMap enc) := by
  intro l
  induction l with
  | nil => simp [writeAll, eq_comm]
  | cons i l ih =>
    intro b
    unfold writeAll
    rw [bind_written (h i), bind_written ih, pure_eq_ok, ← and_assoc, ← List.forall_mem_cons]
    rfl

end SharkMqtt.Lib
