import Mathlib.Data.List.Count
import Mathlib.Logic.Relation

/-!
# A two-phase exchange over lossy links

A sender passes messages to a receiver under one identifier, one after the other.
It repeats a message until its receipt is reported, then repeats a release until
the completion is reported. The receiver accepts a message unless it has marked
the identifier, marks it with the first, and clears the mark on a release. Both
links keep their order and may lose all they carry.

The sender may give a message up; after that it does not use the identifier until
the receiver has forgotten it. Then every message whose exchange the sender
completes is accepted exactly once (`Inv.completed`).
-/

namespace SharkMqtt.Lib

/-- What travels to the receiver: a message with its number, or a release. -/
inductive Forward where
  | message (k : ℕ)
  | release

/-- What travels back. -/
inductive Backward where
  | received
  | completed

/-- The state of one identifier. `stage` is the message outstanding at the sender,
if any: whether its receipt is known. Messages are numbered as they are drawn. -/
structure Exchange where
  stage : Option Bool := none
  gen : ℕ := 0
  forward : List Forward := []
  backward : List Backward := []
  marked : Bool := false
  /-- The sender has taken a completion and is about to end the exchange. -/
  ending : Bool := false
  /-- A message was given up under the identifier. -/
  abandoned : Bool := false
  /-- The two sides share a session. -/
  shared : Bool := false
  accepted : List ℕ := []
  completed : List ℕ := []

namespace Exchange

inductive Step : Exchange → Exchange → Prop where
  /-- A new message: nothing of an earlier one is left. -/
  | draw (e : Exchange) (sent : List Forward) (hstage : e.stage = none)
      (habandoned : e.abandoned = false) (hshared : e.shared = true) (hforward : e.forward = [])
      (hbackward : e.backward = []) (hending : e.ending = false)
      (hsent : sent = [] ∨ sent = [.message (e.gen + 1)]) :
      Step e { e with stage := some false, gen := e.gen + 1, forward := sent }
  | repeatMessage (e : Exchange) (hstage : e.stage = some false) :
      Step e { e with forward := e.forward ++ [.message e.gen] }
  | release (e : Exchange) (hstage : e.stage ≠ some false) :
      Step e { e with forward := e.forward ++ [.release] }
  | duplicate (e : Exchange) (k : ℕ) (rest : List Forward) (hforward : e.forward = .message k :: rest)
      (hmarked : e.marked = true) :
      Step e { e with forward := rest, backward := e.backward ++ [.received] }
  | accept (e : Exchange) (k : ℕ) (rest : List Forward) (hforward : e.forward = .message k :: rest)
      (hmarked : e.marked = false) :
      Step e { e with
        forward := rest, backward := e.backward ++ [.received], marked := true
        accepted := e.accepted ++ [k] }
  | clear (e : Exchange) (rest : List Forward) (hforward : e.forward = .release :: rest) :
      Step e { e with forward := rest, backward := e.backward ++ [.completed], marked := false }
  | receipt (e : Exchange) (stage : Option Bool) (rest : List Backward)
      (hbackward : e.backward = .received :: rest)
      (hstage : stage = e.stage ∨ e.stage.isSome = true ∧ stage = some true) :
      Step e { e with backward := rest, stage := stage }
  | completion (e : Exchange) (rest : List Backward) (hbackward : e.backward = .completed :: rest) :
      Step e { e with backward := rest, ending := true }
  | finish (e : Exchange) (b : Bool) (hending : e.ending = true) (hstage : e.stage = some b) :
      Step e { e with stage := none, completed := e.completed ++ [e.gen] }
  /-- What was about to end has ended, or there was nothing to end. -/
  | calm (e : Exchange) : Step e { e with ending := false }
  | giveUp (e : Exchange) (b : Bool) (hstage : e.stage = some b) :
      Step e { e with stage := none, abandoned := true }
  | lose (e : Exchange) : Step e { e with forward := [], backward := [] }
  /-- The sender loses its session. -/
  | forget (e : Exchange) :
      Step e { e with stage := none, shared := false, forward := [], backward := [] }
  /-- The two sides start a session. -/
  | start (e : Exchange) :
      Step e { e with
        stage := none, marked := false, abandoned := false, shared := true, forward := []
        backward := [] }

/-- No message behind a release. -/
def Ordered (l : List Forward) : Prop := l.Pairwise fun a b => a = .release → ∀ k, b ≠ .message k

/-- How the parts of the state fit together, stage by stage. -/
structure Inv (e : Exchange) : Prop where
  messages : ∀ k, .message k ∈ e.forward → k = e.gen ∧ (e.stage = none → e.abandoned = true)
  accepted_le : ∀ k ∈ e.accepted, k ≤ e.gen
  abandoned : e.abandoned = true → e.stage = none
  idle : e.stage = none → e.abandoned = false → e.shared = true → e.marked = false
  /-- The message is sent; it was accepted if and only if the mark stands. -/
  sent : e.stage = some false →
    e.accepted.count e.gen = e.marked.toNat ∧ .release ∉ e.forward ∧
      (.received ∈ e.backward → e.marked = true) ∧ .completed ∉ e.backward ∧ e.ending = false
  /-- Its receipt is known; the mark stands until the first release arrives. -/
  known : e.stage = some true →
    e.accepted.count e.gen = 1 ∧
      (e.marked = true → .completed ∉ e.backward ∧ e.ending = false) ∧
      (e.marked = false → ∀ k, .message k ∉ e.forward) ∧
      Ordered e.forward
  completed : ∀ k ∈ e.completed,
    e.accepted.count k = 1 ∧ k ≤ e.gen ∧ (k = e.gen → e.stage = none ∧ e.abandoned = false)

theorem ordered_of_not_mem {l : List Forward} (h : .release ∉ l) : Ordered l :=
  List.pairwise_of_forall_mem_list fun _ ha _ _ hrel => absurd (hrel ▸ ha) h

theorem Ordered.append_release {l : List Forward} (h : Ordered l) : Ordered (l ++ [.release]) := by
  refine List.pairwise_append.mpr ⟨h, List.pairwise_singleton _ _, fun a _ b hb _ k => ?_⟩
  rw [List.mem_singleton.mp hb]
  exact nofun

theorem inv_init : Inv {} where
  messages := nofun
  accepted_le := nofun
  abandoned := nofun
  idle := fun _ _ _ => rfl
  sent := nofun
  known := nofun
  completed := nofun

variable {e e' : Exchange} {rest : List Forward}

private theorem stage_cases (h : e.stage ≠ some false) : e.stage = none ∨ e.stage = some true := by
  cases hs : e.stage with
  | none => exact Or.inl rfl
  | some b =>
    cases b with
    | false => exact absurd hs h
    | true => exact Or.inr rfl

section

variable (h : e.Inv)

include h

theorem Inv.draw {sent : List Forward} (hstage : e.stage = none)
    (habandoned : e.abandoned = false) (hshared : e.shared = true) (hbackward : e.backward = [])
    (hending : e.ending = false) (hsent : sent = [] ∨ sent = [.message (e.gen + 1)]) :
    Inv { e with stage := some false, gen := e.gen + 1, forward := sent } := by
  have hnew : e.accepted.count (e.gen + 1) = 0 :=
    List.count_eq_zero.mpr fun hmem => Nat.not_succ_le_self e.gen (h.accepted_le _ hmem)
  have hmarked : e.marked = false := h.idle hstage habandoned hshared
  refine
    { messages := fun k hk => ?_
      accepted_le := fun k hk => Nat.le_succ_of_le (h.accepted_le k hk)
      abandoned := fun ha => nomatch habandoned.symm.trans ha
      idle := nofun
      sent := fun _ => ⟨by rw [hnew, hmarked]; rfl, ?_, by simp [hbackward], by simp [hbackward],
        hending⟩
      known := nofun
      completed := fun k hk => ?_ }
  · rcases hsent with rfl | rfl
    · cases hk
    · cases List.mem_singleton.mp hk
      exact ⟨rfl, nofun⟩
  · rcases hsent with rfl | rfl <;> simp
  · obtain ⟨hcount, hle, -⟩ := h.completed k hk
    exact ⟨hcount, Nat.le_succ_of_le hle, fun heq => absurd (heq ▸ hle) (Nat.not_succ_le_self _)⟩

theorem Inv.repeatMessage (hstage : e.stage = some false) :
    Inv { e with forward := e.forward ++ [.message e.gen] } := by
  obtain ⟨hcount, hrel, hrec, hcomp, hending⟩ := h.sent hstage
  refine { h with
    messages := fun k hk => ?_
    sent := fun _ => ⟨hcount, List.not_mem_append hrel (by simp), hrec, hcomp, hending⟩
    known := fun hs => nomatch hstage.symm.trans hs }
  rcases List.mem_append.mp hk with hk | hk
  · exact h.messages k hk
  · cases List.mem_singleton.mp hk
    exact ⟨rfl, fun hs => nomatch hstage.symm.trans hs⟩

theorem Inv.release (hstage : e.stage ≠ some false) :
    Inv { e with forward := e.forward ++ [.release] } := by
  have hmem : ∀ k, .message k ∈ e.forward ++ [Forward.release] → .message k ∈ e.forward := by simp
  refine { h with
    messages := fun k hk => h.messages k (hmem k hk)
    sent := fun hs => absurd hs hstage
    known := fun hs => ?_ }
  obtain ⟨hcount, hmarked, hclear, horder⟩ := h.known hs
  exact ⟨hcount, hmarked, fun hm k hk => hclear hm k (hmem k hk), horder.append_release⟩

/-- Links that lose some of what they carry. -/
theorem Inv.fewer {f : List Forward} {b : List Backward} (hf : f.Sublist e.forward)
    (hb : b ⊆ e.backward) : Inv { e with forward := f, backward := b } := by
  refine { h with
    messages := fun k hk => h.messages k (hf.subset hk)
    sent := fun hs => ?_
    known := fun hs => ?_ }
  · obtain ⟨hcount, hrel, hrec, hcomp, hending⟩ := h.sent hs
    exact ⟨hcount, fun hr => hrel (hf.subset hr), fun hr => hrec (hb hr), fun hc => hcomp (hb hc),
      hending⟩
  · obtain ⟨hcount, hmark, hclear, horder⟩ := h.known hs
    exact ⟨hcount, fun hm => ⟨fun hc => (hmark hm).1 (hb hc), (hmark hm).2⟩,
      fun hm k hk => hclear hm k (hf.subset hk), horder.sublist hf⟩

theorem Inv.report (hmarked : e.marked = true) :
    Inv { e with backward := e.backward ++ [.received] } := by
  refine { h with sent := fun hs => ?_, known := fun hs => ?_ }
  · obtain ⟨hcount, hrel, -, hcomp, hending⟩ := h.sent hs
    exact ⟨hcount, hrel, fun _ => hmarked, List.not_mem_append hcomp (by simp), hending⟩
  · obtain ⟨hcount, hmark, hclear, horder⟩ := h.known hs
    exact ⟨hcount, fun hm => ⟨List.not_mem_append (hmark hm).1 (by simp), (hmark hm).2⟩, hclear,
      horder⟩

theorem Inv.accept {k : ℕ} (hmem : .message k ∈ e.forward) (hmarked : e.marked = false) :
    Inv { e with marked := true, accepted := e.accepted ++ [k] } := by
  obtain ⟨rfl, hnone⟩ := h.messages k hmem
  refine { h with
    accepted_le := List.forall_mem_append.mpr
      ⟨h.accepted_le, List.forall_mem_singleton.mpr (Nat.le_refl _)⟩
    idle := fun hs ha => nomatch ha.symm.trans (hnone hs)
    sent := fun hs => ?_
    known := fun hs => absurd hmem ((h.known hs).2.2.1 hmarked e.gen)
    completed := fun j hj => ?_ }
  · obtain ⟨hcount, hrel, -, hcomp, hending⟩ := h.sent hs
    refine ⟨?_, hrel, fun _ => rfl, hcomp, hending⟩
    rw [hmarked] at hcount
    simp [List.count_append, hcount]
  · obtain ⟨hcount, hle, hlast⟩ := h.completed j hj
    refine ⟨?_, hle, hlast⟩
    have hne : e.gen ≠ j := by
      rintro rfl
      obtain ⟨hs, ha⟩ := hlast rfl
      exact nomatch ha.symm.trans (hnone hs)
    simp [List.count_append, hcount, hne]

theorem Inv.clear (hforward : e.forward = .release :: rest) :
    Inv { e with forward := rest, backward := e.backward ++ [.completed], marked := false } := by
  have hmem : ∀ f, f ∈ rest → f ∈ e.forward := fun f hf => hforward ▸ List.mem_cons_of_mem _ hf
  refine { h with
    messages := fun j hj => h.messages j (hmem _ hj)
    idle := fun _ _ _ => rfl
    sent := fun hs => absurd (hforward ▸ List.mem_cons_self) (h.sent hs).2.1
    known := fun hs => ?_ }
  obtain ⟨hcount, -, -, horder⟩ := h.known hs
  rw [hforward] at horder
  obtain ⟨hbehind, horder⟩ := List.pairwise_cons.mp horder
  exact ⟨hcount, nofun, fun _ k hk => hbehind _ hk rfl k rfl, horder⟩

theorem Inv.receipt (hmem : .received ∈ e.backward) (hsome : e.stage.isSome = true) :
    Inv { e with stage := some true } := by
  have hne : e.stage ≠ none := Option.isSome_iff_ne_none.mp hsome
  refine
    { messages := fun k hk => ⟨(h.messages k hk).1, nofun⟩
      accepted_le := h.accepted_le
      abandoned := fun ha => absurd (h.abandoned ha) hne
      idle := nofun
      sent := nofun
      known := fun _ => ?_
      completed := fun k hk => ?_ }
  · by_cases hfirst : e.stage = some false
    · -- the receipt was reported, so the message was accepted and the mark stands
      obtain ⟨hcount, hrel, hrec, hcomp, hending⟩ := h.sent hfirst
      have hmarked := hrec hmem
      rw [hmarked] at hcount
      exact ⟨hcount, fun _ => ⟨hcomp, hending⟩,
        fun hm => absurd (hmarked.symm.trans hm) (by decide), ordered_of_not_mem hrel⟩
    · exact h.known ((stage_cases hfirst).resolve_left hne)
  · obtain ⟨hcount, hle, hlast⟩ := h.completed k hk
    exact ⟨hcount, hle, fun heq => absurd (hlast heq).1 hne⟩

theorem Inv.completion {rest : List Backward} (hbackward : e.backward = .completed :: rest) :
    Inv { e with backward := rest, ending := true } := by
  have hhead : .completed ∈ e.backward := hbackward ▸ List.mem_cons_self
  refine { h with sent := fun hs => absurd hhead (h.sent hs).2.2.2.1, known := fun hs => ?_ }
  obtain ⟨hcount, hmark, hclear, horder⟩ := h.known hs
  exact ⟨hcount, fun hm => absurd hhead (hmark hm).1, hclear, horder⟩

theorem Inv.finish {b : Bool} (hending : e.ending = true) (hstage : e.stage = some b) :
    Inv { e with stage := none, completed := e.completed ++ [e.gen] } := by
  -- only a release can have brought the completion, so the mark is cleared
  have hknown : e.stage = some true := by
    cases b with
    | false => exact nomatch (h.sent hstage).2.2.2.2.symm.trans hending
    | true => exact hstage
  obtain ⟨hcount, hmark, hclear, -⟩ := h.known hknown
  have hmarked : e.marked = false := by
    rw [← Bool.not_eq_true]
    exact fun hm => nomatch (hmark hm).2.symm.trans hending
  have habandoned : e.abandoned = false := by
    rw [← Bool.not_eq_true]
    exact fun ha => nomatch (h.abandoned ha).symm.trans hknown
  refine
    { messages := fun k hk => absurd hk (hclear hmarked k)
      accepted_le := h.accepted_le
      abandoned := fun _ => rfl
      idle := fun _ _ _ => hmarked
      sent := nofun
      known := nofun
      completed := List.forall_mem_append.mpr
        ⟨fun k hk => ?_, List.forall_mem_singleton.mpr ⟨hcount, Nat.le_refl _, ?_⟩⟩ }
  · obtain ⟨hc, hle, -⟩ := h.completed k hk
    exact ⟨hc, hle, fun _ => ⟨rfl, habandoned⟩⟩
  · exact fun _ => ⟨rfl, habandoned⟩

theorem Inv.calm : Inv { e with ending := false } := by
  refine { h with sent := fun hs => ?_, known := fun hs => ?_ }
  · obtain ⟨hcount, hrel, hrec, hcomp, -⟩ := h.sent hs
    exact ⟨hcount, hrel, hrec, hcomp, rfl⟩
  · obtain ⟨hcount, hmark, hclear, horder⟩ := h.known hs
    exact ⟨hcount, fun hm => ⟨(hmark hm).1, rfl⟩, hclear, horder⟩

theorem Inv.giveUp {b : Bool} (hstage : e.stage = some b) :
    Inv { e with stage := none, abandoned := true } := by
  refine
    { messages := fun k hk => ⟨(h.messages k hk).1, fun _ => rfl⟩
      accepted_le := h.accepted_le
      abandoned := fun _ => rfl
      idle := nofun
      sent := nofun
      known := nofun
      completed := fun k hk => ?_ }
  obtain ⟨hcount, hle, hlast⟩ := h.completed k hk
  exact ⟨hcount, hle, fun heq => nomatch hstage.symm.trans (hlast heq).1⟩

theorem Inv.lose : Inv { e with forward := [], backward := [] } :=
  h.fewer (List.nil_sublist _) (List.nil_subset _)

/-- Without a message outstanding and with empty links. -/
private theorem Inv.emptied {marked abandoned shared : Bool}
    (hidle : abandoned = false → shared = true → marked = false)
    (hkeep : e.abandoned = false → abandoned = false) :
    Inv { e with
      stage := none, marked := marked, abandoned := abandoned, shared := shared, forward := []
      backward := [] } := by
  refine ⟨nofun, h.accepted_le, fun _ => rfl, fun _ => hidle, nofun, nofun, fun k hk => ?_⟩
  obtain ⟨hcount, hle, hlast⟩ := h.completed k hk
  exact ⟨hcount, hle, fun heq => ⟨rfl, hkeep (hlast heq).2⟩⟩

theorem Inv.step (hs : Step e e') : e'.Inv := by
  cases hs with
  | draw sent hstage habandoned hshared _ hbackward hending hsent =>
    exact h.draw hstage habandoned hshared hbackward hending hsent
  | repeatMessage hstage => exact h.repeatMessage hstage
  | release hstage => exact h.release hstage
  | duplicate k rest hforward hmarked =>
    exact (h.report hmarked).fewer (hforward ▸ List.sublist_cons_self _ _) (List.Subset.refl _)
  | accept k rest hforward hmarked =>
    have haccept := h.accept (hforward ▸ List.mem_cons_self) hmarked
    exact (haccept.report rfl).fewer (hforward ▸ List.sublist_cons_self _ _) (List.Subset.refl _)
  | clear rest hforward => exact h.clear hforward
  | receipt stage rest hbackward hstage =>
    have hrest : rest ⊆ e.backward := hbackward ▸ List.subset_cons_self _ _
    rcases hstage with rfl | ⟨hsome, rfl⟩
    · exact h.fewer (List.Sublist.refl _) hrest
    · have hlearn := h.receipt (hbackward ▸ List.mem_cons_self) hsome
      exact hlearn.fewer (List.Sublist.refl _) hrest
  | completion rest hbackward => exact h.completion hbackward
  | finish b hending hstage => exact h.finish hending hstage
  | calm => exact h.calm
  | giveUp b hstage => exact h.giveUp hstage
  | lose => exact h.lose
  | forget => exact h.emptied nofun id
  | start => exact h.emptied (fun _ _ => rfl) fun _ => rfl

end

/-- What the sender may send in its stage it may send any number of times. -/
theorem steps_append (fs : List Forward) : ∀ e : Exchange,
    (∀ f ∈ fs, f = .message e.gen ∧ e.stage = some false ∨ f = .release ∧ e.stage ≠ some false) →
      Relation.ReflTransGen Step e { e with forward := e.forward ++ fs } := by
  induction fs with
  | nil =>
    intro e _
    rw [List.append_nil]
  | cons f rest ih =>
    intro e hfs
    have hfirst : Step e { e with forward := e.forward ++ [f] } := by
      rcases hfs f List.mem_cons_self with ⟨rfl, hstage⟩ | ⟨rfl, hstage⟩
      · exact .repeatMessage e hstage
      · exact .release e hstage
    have hrest := ih { e with forward := e.forward ++ [f] } fun g hg =>
      hfs g (List.mem_cons_of_mem _ hg)
    rw [List.append_assoc] at hrest
    exact Relation.ReflTransGen.head hfirst hrest

/-- An end that is no longer near. -/
theorem steps_ending {ending : Bool} (h : ending = true → e.ending = true) :
    Relation.ReflTransGen Step e { e with ending := ending } := by
  cases ending with
  | false => exact Relation.ReflTransGen.single (.calm e)
  | true =>
    have hsame : { e with ending := true } = e := by rw [← h rfl]
    rw [hsame]

theorem Inv.steps (h : e.Inv) (hs : Relation.ReflTransGen Step e e') : e'.Inv := by
  induction hs with
  | refl => exact h
  | tail _ hstep ih => exact ih.step hstep

end Exchange

end SharkMqtt.Lib
