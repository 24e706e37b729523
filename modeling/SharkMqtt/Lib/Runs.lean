import Mathlib.Logic.Function.Basic

/-!
# Runs of labelled machines

A machine is a partial step function: `step s l` is the state after the action
`l`, or `none` when `l` is not enabled in `s`. Interleavings are lists of
labels, so a statement about every schedule is a statement about every list.

A condition on steps (`ok s l`, read in the state *before* the step) restricts
runs to those all of whose steps meet it; `exec_invariant` is the rule that
carries an invariant along such runs.
-/

namespace SharkMqtt.Lib

variable {S L : Type*}

/-- The state after a list of actions; `none` when one of them is not enabled. -/
def exec (step : S → L → Option S) : S → List L → Option S
  | s, [] => some s
  | s, l :: ls =>
    match step s l with
    | none => none
    | some s' => exec step s' ls

/-- Every action of the list meets `ok` in the state in which it is taken. -/
def Along (step : S → L → Option S) (ok : S → L → Prop) : S → List L → Prop
  | _, [] => True
  | s, l :: ls =>
    ok s l ∧
      match step s l with
      | none => True
      | some s' => Along step ok s' ls

/-- A run is checked against a decidable condition by running it. -/
instance Along.decidable {step : S → L → Option S} {ok : S → L → Prop}
    [∀ s l, Decidable (ok s l)] : ∀ (s : S) (ls : List L), Decidable (Along step ok s ls)
  | _, [] => inferInstanceAs (Decidable True)
  | s, l :: ls =>
    have : Decidable (match step s l with
        | none => True
        | some s' => Along step ok s' ls) :=
      match step s l with
      | none => inferInstanceAs (Decidable True)
      | some s' => Along.decidable s' ls
    inferInstanceAs (Decidable (_ ∧ _))

variable {step : S → L → Option S} {s s' : S} {ls : List L} {ok : S → L → Prop} (Inv : S → Prop)

theorem exec_cons_eq_some {l : L} :
    exec step s (l :: ls) = some s' ↔ ∃ s₁, step s l = some s₁ ∧ exec step s₁ ls = some s' := by
  rw [exec]
  cases step s l with
  | none | some => simp

theorem exec_append_eq_some {ls' : List L} :
    ∀ {ls : List L} {s : S}, exec step s (ls ++ ls') = some s' ↔
      ∃ s₁, exec step s ls = some s₁ ∧ exec step s₁ ls' = some s' := by
  intro ls
  induction ls with
  | nil => simp [exec]
  | cons l ls ih =>
    intro s
    rw [List.cons_append]
    simp only [ih, exec_cons_eq_some, ← exists_and_left, ← exists_and_right, and_assoc]
    exact exists_comm

/-- One action, taken again and again, leads from a state to another. -/
def Repeats (step : S → L → Option S) (l : L) (s s' : S) : Prop :=
  ∃ n, exec step s (List.replicate n l) = some s'

theorem Repeats.trans {l : L} {t u : S} (h : Repeats step l s t) (h' : Repeats step l t u) :
    Repeats step l s u := by
  obtain ⟨m, hm⟩ := h
  obtain ⟨n, hn⟩ := h'
  refine ⟨m + n, ?_⟩
  rw [← List.replicate_append_replicate]
  exact exec_append_eq_some.mpr ⟨t, hm, hn⟩

/-- A loop that takes the action once for each element. -/
theorem repeats_foldl {α β : Type*} {l : L} (st : List α → β → S) (f : β → α → β)
    (h : ∀ a as b, step (st (a :: as) b) l = some (st as (f b a))) (as : List α) :
    ∀ b, Repeats step l (st as b) (st [] (as.foldl f b)) := by
  induction as with
  | nil => exact fun b => ⟨0, rfl⟩
  | cons a as ih =>
    intro b
    have hfirst : Repeats step l (st (a :: as) b) (st as (f b a)) :=
      ⟨1, exec_cons_eq_some.mpr ⟨_, h a as b, rfl⟩⟩
    exact hfirst.trans (ih (f b a))

/-- Running the actions shows that they lead to a state with `P`. -/
theorem exec_reaches {P Q : S → Prop} [DecidablePred P]
    (h : ((exec step s ls).any fun s' => decide (P s')) = true)
    (hQ : ∀ s', exec step s ls = some s' → P s' → Q s') :
    ∃ s', exec step s ls = some s' ∧ P s' ∧ Q s' := by
  obtain ⟨s', hs', hP⟩ := (Option.any_eq_true _ _).mp h
  have hP : P s' := of_decide_eq_true hP
  exact ⟨s', hs', hP, hQ s' hs' hP⟩

/-- The state they lead to has what running them shows. -/
@[elab_as_elim] theorem of_exec {P : S → Prop} [DecidablePred P] (hs' : exec step s ls = some s')
    (h : ((exec step s ls).all fun s' => decide (P s')) = true) : P s' := by
  rw [hs'] at h
  exact of_decide_eq_true h

theorem Along.tail {s₁ : S} {l : L} (h : Along step ok s (l :: ls)) (hl : step s l = some s₁) :
    Along step ok s₁ ls := by
  have hrest := h.2
  rwa [hl] at hrest

/-- What holds at the start and survives every admitted step holds in every
state an admitted run reaches. -/
theorem exec_invariant (hstep : ∀ s l s', Inv s → ok s l → step s l = some s' → Inv s') :
    ∀ {ls : List L} {s s' : S}, Inv s → Along step ok s ls → exec step s ls = some s' →
      Inv s' := by
  intro ls
  induction ls with
  | nil =>
    intro s s' hs _ h
    cases h
    exact hs
  | cons l ls ih =>
    intro s s' hs hok h
    obtain ⟨s₁, hl, h⟩ := exec_cons_eq_some.mp h
    exact ih (hstep s l s₁ hs hok.1 hl) (hok.tail hl) h

/-- Where every admitted step can be taken, every admitted run can. -/
theorem exec_progress (hstep : ∀ s l, Inv s → ok s l → ∃ s', step s l = some s' ∧ Inv s') :
    ∀ {ls : List L} {s : S}, Inv s → Along step ok s ls →
      ∃ s', exec step s ls = some s' ∧ Inv s' := by
  intro ls
  induction ls with
  | nil => exact fun hs _ => ⟨_, rfl, hs⟩
  | cons l ls ih =>
    intro s hs hok
    obtain ⟨s₁, hl, hs₁⟩ := hstep s l hs hok.1
    obtain ⟨s', hexec, hs'⟩ := ih hs₁ (hok.tail hl)
    exact ⟨s', exec_cons_eq_some.mpr ⟨s₁, hl, hexec⟩, hs'⟩

/-- A condition on the actions alone is met along the run if it is met by each. -/
theorem Along.of_forall {ok : L → Prop} :
    ∀ {ls : List L}, (∀ l ∈ ls, ok l) → ∀ s, Along step (fun _ => ok) s ls := by
  intro ls
  induction ls with
  | nil => exact fun _ _ => trivial
  | cons l ls ih =>
    intro hok s
    refine ⟨hok l List.mem_cons_self, ?_⟩
    cases step s l with
    | none => trivial
    | some s₁ => exact ih (fun l' hl' => hok l' (List.mem_cons_of_mem l hl')) s₁

/-- What survives every step holds in every state a run reaches. -/
theorem exec_preserves (hstep : ∀ s l s', Inv s → step s l = some s' → Inv s') (hs : Inv s)
    (h : exec step s ls = some s') : Inv s' :=
  exec_invariant Inv (fun s l s' hi _ => hstep s l s' hi) hs
    (Along.of_forall (fun _ _ => trivial) s) h

theorem Along.and {ok' : S → L → Prop} :
    ∀ {ls : List L} {s : S}, Along step ok s ls → Along step ok' s ls →
      Along step (fun s l => ok s l ∧ ok' s l) s ls := by
  intro ls
  induction ls with
  | nil => exact fun _ _ => trivial
  | cons l ls ih =>
    intro s h h'
    unfold Along at h h' ⊢
    refine ⟨⟨h.1, h'.1⟩, ?_⟩
    cases hl : step s l with
    | none => trivial
    | some s₁ =>
      rw [hl] at h h'
      exact ih h.2 h'.2

/-- Under an invariant one condition on the steps gives another. -/
theorem Along.of_invariant {ok' : S → L → Prop}
    (hstep : ∀ s l s', Inv s → ok s l → step s l = some s' → Inv s')
    (himp : ∀ s l, Inv s → ok s l → ok' s l) :
    ∀ {ls : List L} {s : S}, Inv s → Along step ok s ls → Along step ok' s ls := by
  intro ls
  induction ls with
  | nil => exact fun _ _ => trivial
  | cons l ls ih =>
    intro s hs hok
    unfold Along at hok ⊢
    refine ⟨himp s l hs hok.1, ?_⟩
    cases hl : step s l with
    | none => trivial
    | some s₁ =>
      rw [hl] at hok
      exact ih (hstep s l s₁ hs hok.1 hl) hok.2

theorem forall_mem_snoc {α : Type*} {P : α → Prop} {l : List α} {a : α} (hl : ∀ b ∈ l, P b)
    (ha : P a) : ∀ b ∈ l ++ [a], P b :=
  List.forall_mem_append.mpr ⟨hl, List.forall_mem_singleton.mpr ha⟩

/-! ## Loops over a list -/

section Loops

variable {α β γ : Type*} {body : β → α → β} {l : List α} {P : α → Prop} (read : β → γ)

/-- What every round leaves as it is, the loop does. -/
theorem foldl_keeps (h : ∀ b, ∀ a ∈ l, read (body b a) = read b) (b : β) :
    read (l.foldl body b) = read b :=
  List.foldlRecOn (motive := fun b' => read b' = read b) l body rfl fun b' hb a ha =>
    (h b' a ha).trans hb

/-- A loop in which the rounds with `P` all write the same. -/
theorem foldl_writes [DecidablePred P] {v : γ} (l : List α)
    (h : ∀ b a, read (body b a) = if P a then v else read b) (b : β) :
    read (l.foldl body b) = if ∃ a ∈ l, P a then v else read b := by
  induction l generalizing b with
  | nil => simp
  | cons a l ih =>
    rw [List.foldl_cons, ih, h]
    by_cases ha : P a <;> simp [ha]

/-- A loop after which `Q` holds if it held before or a round has made it hold. -/
theorem foldl_iff (Q : β → Prop) (l : List α) (h : ∀ b a, Q (body b a) ↔ Q b ∨ P a) (b : β) :
    Q (l.foldl body b) ↔ Q b ∨ ∃ a ∈ l, P a := by
  induction l generalizing b with
  | nil => simp
  | cons a l ih => simp only [List.foldl_cons, ih, h, List.mem_cons, exists_eq_or_imp, or_assoc]

end Loops

end SharkMqtt.Lib
