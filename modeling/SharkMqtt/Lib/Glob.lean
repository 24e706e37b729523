import Mathlib.Computability.Language
import Mathlib.Data.List.Infix

/-!
# Glob patterns

A pattern is a list of pieces: any string, any symbol, a class of symbols, one
symbol. It denotes the product of the languages of its pieces (`globLang`), and
`globMatch` decides it (`globMatch_iff`).

How a pattern is written is left to the program that reads it.
-/

namespace SharkMqtt.Lib

open scoped Computability

variable {α : Type*}

inductive Piece (α : Type*) where
  | star
  | any
  /-- A symbol in one of the ranges; with `negated`, in none of them. -/
  | cls (negated : Bool) (ranges : List (α × α))
  | lit (a : α)

section Classes

variable [LE α] [DecidableLE α]

def inClass (negated : Bool) (ranges : List (α × α)) (a : α) : Bool :=
  (ranges.any fun r => decide (r.1 ≤ a ∧ a ≤ r.2)) != negated

def Piece.lang : Piece α → Language α
  | .star => Set.univ
  | .any => {w | ∃ a, w = [a]}
  | .cls negated ranges => {w | ∃ a, inClass negated ranges a = true ∧ w = [a]}
  | .lit a => {[a]}

def globLang (ps : List (Piece α)) : Language α := (ps.map Piece.lang).prod

theorem globLang_nil : globLang ([] : List (Piece α)) = 1 := rfl

/-! ## Membership -/

variable {ps : List (Piece α)} {w : List α}

theorem mem_star_cons : w ∈ globLang (.star :: ps) ↔ ∃ s, s <:+ w ∧ s ∈ globLang ps := by
  constructor
  · rintro ⟨skipped, -, s, hs, rfl⟩
    exact ⟨s, List.suffix_append skipped s, hs⟩
  · rintro ⟨s, ⟨skipped, rfl⟩, hs⟩
    exact ⟨skipped, Set.mem_univ skipped, s, hs, rfl⟩

theorem mem_any_cons : w ∈ globLang (.any :: ps) ↔ ∃ a s, w = a :: s ∧ s ∈ globLang ps := by
  constructor
  · rintro ⟨u, ⟨a, rfl⟩, s, hs, rfl⟩
    exact ⟨a, s, rfl, hs⟩
  · rintro ⟨a, s, rfl, hs⟩
    exact ⟨[a], ⟨a, rfl⟩, s, hs, rfl⟩

theorem mem_cls_cons {negated : Bool} {ranges : List (α × α)} :
    w ∈ globLang (.cls negated ranges :: ps) ↔
      ∃ a s, w = a :: s ∧ inClass negated ranges a = true ∧ s ∈ globLang ps := by
  constructor
  · rintro ⟨u, ⟨a, ha, rfl⟩, s, hs, rfl⟩
    exact ⟨a, s, rfl, ha, hs⟩
  · rintro ⟨a, s, rfl, ha, hs⟩
    exact ⟨[a], ⟨a, ha, rfl⟩, s, hs, rfl⟩

theorem mem_lit_cons {a : α} : w ∈ globLang (.lit a :: ps) ↔ ∃ s, w = a :: s ∧ s ∈ globLang ps := by
  constructor
  · rintro ⟨u, rfl, s, hs, rfl⟩
    exact ⟨s, rfl, hs⟩
  · rintro ⟨s, rfl, hs⟩
    exact ⟨[a], rfl, s, hs, rfl⟩

theorem append_mem_globLang {qs : List (Piece α)} {u v : List α} (hu : u ∈ globLang ps)
    (hv : v ∈ globLang qs) : u ++ v ∈ globLang (ps ++ qs) := by
  rw [globLang, List.map_append, List.prod_append]
  exact Language.append_mem_mul hu hv

/-- A literal beginning is matched by itself. -/
theorem mem_literal_append {qs : List (Piece α)} :
    ∀ {s w : List α}, w ∈ globLang (s.map .lit ++ qs) ↔ ∃ v, w = s ++ v ∧ v ∈ globLang qs := by
  intro s
  induction s with
  | nil => simp
  | cons a s ih =>
    intro w
    rw [List.map_cons, List.cons_append, mem_lit_cons]
    simp only [ih]
    constructor
    · rintro ⟨_, rfl, v, rfl, hv⟩
      exact ⟨v, rfl, hv⟩
    · rintro ⟨v, rfl, hv⟩
      exact ⟨_, rfl, v, rfl, hv⟩

theorem countP_le_count [DecidableEq α] (a : α) :
    ∀ {ps : List (Piece α)} {w : List α}, w ∈ globLang ps →
      ps.countP (fun | .lit b => b = a | _ => false) ≤ w.count a := by
  intro ps
  induction ps with
  | nil => exact fun _ => Nat.zero_le _
  | cons p ps ih =>
    intro w hw
    cases p with
    | star =>
      obtain ⟨s, hsuffix, hs⟩ := mem_star_cons.mp hw
      exact (ih hs).trans (hsuffix.sublist.count_le a)
    | any =>
      obtain ⟨b, s, rfl, hs⟩ := mem_any_cons.mp hw
      exact (ih hs).trans ((List.sublist_cons_self b s).count_le a)
    | cls negated ranges =>
      obtain ⟨b, s, rfl, -, hs⟩ := mem_cls_cons.mp hw
      exact (ih hs).trans ((List.sublist_cons_self b s).count_le a)
    | lit b =>
      obtain ⟨s, rfl, hs⟩ := mem_lit_cons.mp hw
      have hle := ih hs
      by_cases hb : b = a
      · simpa [hb] using hle
      · simpa [hb] using hle

/-! ## The matcher -/

variable [DecidableEq α]

def globMatch : List (Piece α) → List α → Bool
  | [], w => w.isEmpty
  | .star :: ps, w => w.tails.any fun s => globMatch ps s
  | .any :: ps, w =>
    match w with
    | [] => false
    | _ :: s => globMatch ps s
  | .cls negated ranges :: ps, w =>
    match w with
    | [] => false
    | a :: s => inClass negated ranges a && globMatch ps s
  | .lit b :: ps, w =>
    match w with
    | [] => false
    | a :: s => a == b && globMatch ps s

theorem globMatch_iff : ∀ {ps : List (Piece α)} {w : List α},
    globMatch ps w = true ↔ w ∈ globLang ps := by
  intro ps
  induction ps with
  | nil =>
    intro w
    rw [globLang_nil, Language.mem_one, globMatch, List.isEmpty_iff]
  | cons p ps ih =>
    intro w
    cases p with
    | star =>
      rw [mem_star_cons, globMatch, List.any_eq_true]
      simp only [List.mem_tails, ih]
    | any =>
      rw [mem_any_cons]
      cases w with
      | nil => simp [globMatch]
      | cons a s => simp [globMatch, ih]
    | cls negated ranges =>
      rw [mem_cls_cons]
      cases w with
      | nil => simp [globMatch]
      | cons a s => simp [globMatch, ih]
    | lit b =>
      rw [mem_lit_cons]
      cases w with
      | nil => simp [globMatch]
      | cons a s => simp [globMatch, ih]

end Classes

end SharkMqtt.Lib
