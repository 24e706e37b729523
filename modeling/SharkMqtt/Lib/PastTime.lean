import Mathlib.Data.List.Induction

/-!
# Orders of events

A trace is a list, the earliest event first. `Since good bad past` says that a good event
has happened and no bad one after it; `EachAfter allowed trace` that every event was
allowed by the events before it. Both are read off one event at a time, from the end.
-/

namespace SharkMqtt.Lib

variable {α : Type*} {good bad : α → Prop} {allowed : List α → α → Prop}

def Since (good bad : α → Prop) (past : List α) : Prop :=
  ∃ before a after, past = before ++ a :: after ∧ good a ∧ ∀ b ∈ after, ¬ bad b

theorem not_since_nil : ¬ Since good bad [] := by
  rintro ⟨before, a, after, h, -, -⟩
  exact absurd h.symm (by simp)

variable {past : List α}

theorem since_concat {a : α} :
    Since good bad (past ++ [a]) ↔ good a ∨ (Since good bad past ∧ ¬ bad a) := by
  constructor
  · rintro ⟨before, b, after, h, hgood, hbad⟩
    -- the good event is the last one, or the last one is among those after it
    rcases List.eq_nil_or_concat after with rfl | ⟨after, c, rfl⟩
    · obtain ⟨-, hlast⟩ := List.append_inj' h rfl
      cases hlast
      exact Or.inl hgood
    · rw [List.concat_eq_append] at h hbad
      rw [← List.cons_append, ← List.append_assoc] at h
      obtain ⟨rfl, hlast⟩ := List.append_inj' h rfl
      cases hlast
      refine Or.inr ⟨⟨before, b, after, rfl, hgood, ?_⟩, hbad a (by simp)⟩
      intro d hd
      exact hbad d (List.mem_append_left _ hd)
  · rintro (hgood | ⟨⟨before, b, after, rfl, hgood, hbad⟩, ha⟩)
    · exact ⟨past, a, [], rfl, hgood, by simp⟩
    · refine ⟨before, b, after ++ [a], by simp, hgood, ?_⟩
      exact List.forall_mem_append.mpr ⟨hbad, List.forall_mem_singleton.mpr ha⟩

theorem Since.mono {bad' : α → Prop} (h : Since good bad past) (hbad : ∀ a, bad' a → bad a) :
    Since good bad' past := by
  obtain ⟨before, a, after, hpast, hgood, hafter⟩ := h
  refine ⟨before, a, after, hpast, hgood, ?_⟩
  intro b hb hbad'
  exact hafter b hb (hbad b hbad')

/-- Events that are neither good nor bad do not count. -/
theorem since_append {more : List α} (h : ∀ a ∈ more, ¬ good a ∧ ¬ bad a) :
    Since good bad (past ++ more) ↔ Since good bad past := by
  induction more using List.reverseRecOn with
  | nil => rw [List.append_nil]
  | append_singleton more a ih =>
    have ha := h a (by simp)
    rw [← List.append_assoc, since_concat, ih fun b hb => h b (List.mem_append_left _ hb)]
    simp [ha]

instance decidableSince [DecidablePred good] [DecidablePred bad] :
    DecidablePred (Since good bad) := fun past =>
  match past.reverse, past.reverse_reverse with
  | back, h => h ▸ go back
where
  go : ∀ back : List α, Decidable (Since good bad back.reverse)
    | [] => isFalse not_since_nil
    | a :: back =>
      have := go back
      decidable_of_iff (good a ∨ (Since good bad back.reverse ∧ ¬ bad a))
        (by rw [List.reverse_cons, since_concat])

def EachAfter (allowed : List α → α → Prop) (trace : List α) : Prop :=
  ∀ past a rest, trace = past ++ a :: rest → allowed past a

theorem eachAfter_nil : EachAfter allowed [] := by
  intro past a rest h
  exact absurd h.symm (by simp)

theorem eachAfter_concat {trace : List α} {a : α} :
    EachAfter allowed (trace ++ [a]) ↔ EachAfter allowed trace ∧ allowed trace a := by
  constructor
  · intro h
    refine ⟨?_, h trace a [] rfl⟩
    intro past b rest hsplit
    exact h past b (rest ++ [a]) (by rw [hsplit]; simp)
  · rintro ⟨h, ha⟩ past b rest hsplit
    rcases List.eq_nil_or_concat rest with rfl | ⟨rest, c, rfl⟩
    · obtain ⟨rfl, hlast⟩ := List.append_inj' hsplit rfl
      cases hlast
      exact ha
    · rw [List.concat_eq_append, ← List.cons_append, ← List.append_assoc] at hsplit
      obtain ⟨rfl, -⟩ := List.append_inj' hsplit rfl
      exact h past b rest rfl

end SharkMqtt.Lib
