import SharkMqtt.Lib.Exchange
import SharkMqtt.Lib.Runs

/-!
# A two-phase handoff to a staging receiver

The counterpart of `Exchange` in which the receiver holds a message back. It
stages the message with the first offer, and delivers what is staged with the
first release; a release that finds nothing staged is completed all the same. The
sender offers again until the receipt is reported, releases again until the
completion is, and uses the identifier anew after that, with releases of earlier
messages possibly still on their way. Both links keep their order and may lose
any part of what they carry.

`done k` records the releases of message `k` the receiver has processed: for each,
whether it delivered. The first delivers and no later one does (`Inv.done`).
-/

namespace SharkMqtt.Lib

namespace Handoff

/-- Where the sender is with the identifier, and with which message. -/
inductive Stage where
  | idle
  | offered (n : ℕ)
  | released (n : ℕ)
deriving DecidableEq

/-- What travels to the receiver. Only the first offer of a message is not marked
as repeated. -/
inductive Item where
  | offer (n : ℕ) (again : Bool)
  | release (n : ℕ)

end Handoff

/-- The state of one identifier. -/
@[ext] structure Handoff where
  stage : Handoff.Stage := .idle
  forward : List Handoff.Item := []
  backward : List Backward := []
  staged : Bool := false
  done : ℕ → List Bool := fun _ => []

namespace Handoff

/-- The state after a release of `k`. -/
def completed (h : Handoff) (k : ℕ) (rest : List Item) : Handoff :=
  { h with
    forward := rest, backward := h.backward ++ [.completed], staged := false
    done := Function.update h.done k (h.done k ++ [h.staged]) }

inductive Step : Handoff → Handoff → Prop where
  | draw (h : Handoff) (n : ℕ) (hstage : h.stage = .idle) (hfresh : h.done n = []) :
      Step h { h with stage := .offered n, forward := h.forward ++ [.offer n false] }
  | offerAgain (h : Handoff) (n : ℕ) (hstage : h.stage = .offered n) :
      Step h { h with forward := h.forward ++ [.offer n true] }
  | releaseAgain (h : Handoff) (n : ℕ) (hstage : h.stage = .released n) :
      Step h { h with forward := h.forward ++ [.release n] }
  /-- An offer is reported as received, and staged unless something is. -/
  | accept (h : Handoff) (n : ℕ) (again : Bool) (rest : List Item)
      (hforward : h.forward = .offer n again :: rest) :
      Step h { h with forward := rest, backward := h.backward ++ [.received], staged := true }
  | complete (h : Handoff) (n : ℕ) (rest : List Item) (hforward : h.forward = .release n :: rest) :
      Step h (h.completed n rest)
  | receipt (h : Handoff) (n : ℕ) (rest : List Backward) (hbackward : h.backward = .received :: rest)
      (hstage : h.stage = .offered n ∨ h.stage = .released n) :
      Step h { h with
        stage := .released n, forward := h.forward ++ [.release n], backward := rest }
  | completion (h : Handoff) (n : ℕ) (rest : List Backward)
      (hbackward : h.backward = .completed :: rest) (hstage : h.stage = .released n) :
      Step h { h with stage := .idle, backward := rest }
  | lose (h : Handoff) (forward : List Item) (backward : List Backward)
      (hforward : forward.Sublist h.forward) (hbackward : backward.Sublist h.backward) :
      Step h { h with forward := forward, backward := backward }

/-- The first release delivered, the others did not. -/
def Delivered (h : Handoff) (k : ℕ) : Prop := ∃ j, h.done k = true :: List.replicate j false

/-- A release that has nothing left to deliver. -/
def Old (h : Handoff) (i : Item) : Prop := ∃ k, i = .release k ∧ h.Delivered k

/-- Nothing is outstanding: what is still on its way is left over. -/
structure Idle (h : Handoff) : Prop where
  staged : h.staged = false
  forward : ∀ i ∈ h.forward, h.Old i
  backward : ∀ b ∈ h.backward, b = .completed

/-- Message `n` is offered. Old releases are ahead of its offers, so all of them
are gone once one of its offers has arrived. -/
structure Offered (h : Handoff) (n : ℕ) : Prop where
  fresh : h.done n = []
  forward : ∀ i ∈ h.forward, (∃ again, i = .offer n again) ∨ h.Old i
  order : h.forward.Pairwise fun i j => (∃ again, i = .offer n again) → j = .offer n true
  staged : h.staged = true → ∀ i ∈ h.forward, i = .offer n true
  backward : h.backward.Pairwise fun a b => a = .received → b = .received
  received : .received ∈ h.backward → h.staged = true

/-- The receipt of message `n` is known. It is staged until the first release
arrives; no offer is behind a release. -/
structure Released (h : Handoff) (n : ℕ) : Prop where
  forward : ∀ i ∈ h.forward, i = .offer n true ∨ i = .release n
  order : h.forward.Pairwise fun i j => i = .release n → j = .release n
  backward : h.backward.Pairwise fun a b => a = .completed → b = .completed
  staged : h.staged = true → h.done n = [] ∧ .completed ∉ h.backward
  delivered : h.staged = false → h.Delivered n ∧ .offer n true ∉ h.forward

def InStage (h : Handoff) : Stage → Prop
  | .idle => h.Idle
  | .offered n => h.Offered n
  | .released n => h.Released n

structure Inv (h : Handoff) : Prop where
  done : ∀ k, h.done k = [] ∨ h.Delivered k
  current : h.InStage h.stage

theorem inv_init : Inv {} where
  done := fun _ => Or.inl rfl
  current := { staged := rfl, forward := nofun, backward := nofun }

variable {h h' : Handoff} {n k : ℕ}

theorem Delivered.append (hd : h.Delivered k) :
    ∃ j, h.done k ++ [false] = true :: List.replicate j false := by
  obtain ⟨j, hj⟩ := hd
  refine ⟨j + 1, ?_⟩
  rw [hj, List.cons_append, List.replicate_succ']

theorem pairwise_append_of_mem {α : Type*} {R : α → α → Prop} {l : List α} {a : α}
    (hl : l.Pairwise R) (ha : ∀ b ∈ l, R b a) : (l ++ [a]).Pairwise R := by
  refine List.pairwise_append.mpr ⟨hl, List.pairwise_singleton _ _, fun b hb c hc => ?_⟩
  rw [List.mem_singleton.mp hc]
  exact ha b hb

variable {again : Bool} {rest f : List Item} {b : List Backward}

theorem Old.not_offer {i : Item} (hi : h.Old i) : i ≠ .offer n again := by
  obtain ⟨k, rfl, -⟩ := hi
  exact nofun

/-! ## The sender -/

theorem Idle.draw (hi : h.Idle) (hfresh : h.done n = []) :
    Offered { h with stage := .offered n, forward := h.forward ++ [.offer n false] } n where
  fresh := hfresh
  forward := forall_mem_snoc (fun i hmem => Or.inr (hi.forward i hmem))
    (Or.inl ⟨false, rfl⟩)
  order := by
    refine pairwise_append_of_mem (List.pairwise_of_forall_mem_list ?_) ?_
    · rintro i hmem j - ⟨again, hoffer⟩
      exact absurd hoffer (hi.forward i hmem).not_offer
    · rintro i hmem ⟨again, hoffer⟩
      exact absurd hoffer (hi.forward i hmem).not_offer
  staged := fun hs => absurd (hi.staged.symm.trans hs) Bool.false_ne_true
  backward := by
    refine List.pairwise_of_forall_mem_list fun a ha b _ hrec => ?_
    exact absurd ((hi.backward a ha).symm.trans hrec) nofun
  received := fun hmem => absurd (hi.backward _ hmem) nofun

theorem Offered.offerAgain (ho : h.Offered n) :
    Offered { h with forward := h.forward ++ [.offer n true] } n :=
  { ho with
    forward := forall_mem_snoc ho.forward (Or.inl ⟨true, rfl⟩)
    order := pairwise_append_of_mem ho.order fun _ _ _ => rfl
    staged := fun hs => forall_mem_snoc (ho.staged hs) rfl }

theorem Released.releaseAgain (hr : h.Released n) :
    Released { h with forward := h.forward ++ [.release n] } n :=
  { hr with
    forward := forall_mem_snoc hr.forward (Or.inr rfl)
    order := pairwise_append_of_mem hr.order fun _ _ _ => rfl
    delivered := fun hs => (hr.delivered hs).imp_right fun hnone => by simpa using hnone }

/-- A receipt on its way back means that the message is staged, so only offers of
it can be ahead of the release that answers the receipt. -/
theorem Offered.receipt {rest : List Backward} (ho : h.Offered n)
    (hback : h.backward = .received :: rest) :
    Released { h with
      stage := .released n, forward := h.forward ++ [.release n], backward := rest } n := by
  have hs : h.staged = true := ho.received (hback ▸ List.mem_cons_self)
  have hpair := ho.backward
  rw [hback, List.pairwise_cons] at hpair
  have hrest : ∀ b ∈ rest, b = .received := fun b hb => hpair.1 b hb rfl
  have hoffers := ho.staged hs
  exact
    { forward := forall_mem_snoc (fun i hi => Or.inl (hoffers i hi)) (Or.inr rfl)
      order := pairwise_append_of_mem
        (List.pairwise_of_forall_mem_list fun i hi j _ hrel =>
          absurd ((hoffers i hi).symm.trans hrel) nofun)
        fun _ _ _ => rfl
      backward := List.pairwise_of_forall_mem_list fun a ha b _ hcomp =>
        absurd ((hrest a ha).symm.trans hcomp) nofun
      staged := fun _ => ⟨ho.fresh, fun hmem => absurd (hrest _ hmem) nofun⟩
      delivered := fun hf => absurd (hf.symm.trans hs) Bool.false_ne_true }

theorem Released.completion {rest : List Backward} (hr : h.Released n)
    (hback : h.backward = .completed :: rest) :
    Idle { h with stage := .idle, backward := rest } := by
  have hs : h.staged = false := by
    cases hstaged : h.staged with
    | false => rfl
    | true => exact absurd (hback ▸ List.mem_cons_self) (hr.staged hstaged).2
  obtain ⟨hd, hnone⟩ := hr.delivered hs
  have hpair := hr.backward
  rw [hback, List.pairwise_cons] at hpair
  refine ⟨hs, fun i hi => ?_, fun b hb => hpair.1 b hb rfl⟩
  rcases hr.forward i hi with rfl | rfl
  · exact absurd hi hnone
  · exact ⟨n, rfl, hd⟩

/-! ## The receiver -/

theorem Offered.accept (ho : h.Offered n) (hforward : h.forward = .offer n again :: rest) :
    Offered { h with
      forward := rest, backward := h.backward ++ [.received], staged := true } n := by
  have hpair := List.pairwise_cons.mp (hforward ▸ ho.order)
  have hmem : ∀ i ∈ rest, i ∈ h.forward := fun i hi => hforward ▸ List.mem_cons_of_mem _ hi
  exact
    { fresh := ho.fresh
      forward := fun i hi => ho.forward i (hmem i hi)
      order := hpair.2
      staged := fun _ i hi => hpair.1 i hi ⟨again, rfl⟩
      backward := pairwise_append_of_mem ho.backward fun _ _ _ => rfl
      received := fun _ => rfl }

theorem Released.accept (hr : h.Released n) (hforward : h.forward = .offer n again :: rest) :
    Released { h with
      forward := rest, backward := h.backward ++ [.received], staged := true } n := by
  have hmem : ∀ i ∈ rest, i ∈ h.forward := fun i hi => hforward ▸ List.mem_cons_of_mem _ hi
  have hhead : Item.offer n again ∈ h.forward := hforward ▸ List.mem_cons_self
  have hs : h.staged = true := by
    cases hstaged : h.staged with
    | true => rfl
    | false =>
      rcases hr.forward _ hhead with heq | heq
      · exact absurd (heq ▸ hhead) (hr.delivered hstaged).2
      · cases heq
  obtain ⟨hfresh, hnone⟩ := hr.staged hs
  have hnotComp : ∀ b ∈ h.backward, b ≠ .completed := fun b hb heq => hnone (heq ▸ hb)
  exact
    { forward := fun i hi => hr.forward i (hmem i hi)
      order := (List.pairwise_cons.mp (hforward ▸ hr.order)).2
      backward := pairwise_append_of_mem hr.backward fun b hb heq => absurd heq (hnotComp b hb)
      staged := fun _ => ⟨hfresh, by simpa using hnone⟩
      delivered := nofun }

theorem done_completed_of_ne {j : ℕ} (hne : j ≠ k) : (h.completed k rest).done j = h.done j :=
  Function.update_of_ne hne _ _

theorem done_completed_self : (h.completed k rest).done k = h.done k ++ [h.staged] :=
  Function.update_self _ _ _

theorem Delivered.completed {j : ℕ} (hj : h.Delivered j) (hs : h.staged = false) :
    (h.completed k rest).Delivered j := by
  by_cases hne : j = k
  · subst hne
    obtain ⟨m, hm⟩ := hj.append
    exact ⟨m, by rw [done_completed_self, hs, hm]⟩
  · obtain ⟨m, hm⟩ := hj
    exact ⟨m, by rw [done_completed_of_ne hne, hm]⟩

theorem Old.completed {i : Item} (hi : h.Old i) (hs : h.staged = false) :
    (h.completed k rest).Old i := by
  obtain ⟨j, rfl, hj⟩ := hi
  exact ⟨j, rfl, hj.completed hs⟩

theorem Idle.completed (hi : h.Idle) (hforward : h.forward = .release k :: rest) :
    (h.completed k rest).Idle where
  staged := rfl
  forward := fun i hmem =>
    (hi.forward i (hforward ▸ List.mem_cons_of_mem _ hmem)).completed hi.staged
  backward := forall_mem_snoc hi.backward rfl

/-- A release that arrives while a message is offered is an old one, ahead of the
first offer that arrives. -/
theorem Offered.completed (ho : h.Offered n) (hforward : h.forward = .release k :: rest) :
    (h.completed k rest).Offered n := by
  have hhead : Item.release k ∈ h.forward := hforward ▸ List.mem_cons_self
  have hs : h.staged = false := by
    cases hstaged : h.staged with
    | false => rfl
    | true => cases ho.staged hstaged _ hhead
  have hold : h.Delivered k := by
    rcases ho.forward _ hhead with ⟨again, heq⟩ | ⟨j, heq, hj⟩
    · cases heq
    · cases heq
      exact hj
  have hne : n ≠ k := by
    rintro rfl
    obtain ⟨j, hj⟩ := hold
    rw [ho.fresh] at hj
    cases hj
  have hnone : .received ∉ h.backward := fun hmem =>
    absurd (hs.symm.trans (ho.received hmem)) Bool.false_ne_true
  exact
    { fresh := (done_completed_of_ne hne).trans ho.fresh
      forward := fun i hi => (ho.forward i (hforward ▸ List.mem_cons_of_mem _ hi)).imp_right
        fun hi => hi.completed hs
      order := (List.pairwise_cons.mp (hforward ▸ ho.order)).2
      staged := nofun
      backward := pairwise_append_of_mem ho.backward fun b hb hrec => absurd (hrec ▸ hb) hnone
      received := fun hmem => absurd hmem (by simpa [Handoff.completed] using hnone) }

theorem Released.completed (hr : h.Released n) (hforward : h.forward = .release n :: rest) :
    (h.completed n rest).Released n := by
  have hpair := List.pairwise_cons.mp (hforward ▸ hr.order)
  have hmem : ∀ i ∈ rest, i ∈ h.forward := fun i hi => hforward ▸ List.mem_cons_of_mem _ hi
  have hdelivered : (h.completed n rest).Delivered n := by
    cases hs : h.staged with
    | false => exact (hr.delivered hs).1.completed hs
    | true =>
      refine ⟨0, ?_⟩
      rw [done_completed_self, (hr.staged hs).1, hs]
      rfl
  exact
    { forward := fun i hi => hr.forward i (hmem i hi)
      order := hpair.2
      backward := pairwise_append_of_mem hr.backward fun _ _ _ => rfl
      staged := nofun
      delivered := fun _ => ⟨hdelivered, fun hi => absurd (hpair.1 _ hi rfl) nofun⟩ }

/-! ## The links -/

theorem Idle.lose (hi : h.Idle) (hf : f.Sublist h.forward) (hb : b.Sublist h.backward) :
    Idle { h with forward := f, backward := b } where
  staged := hi.staged
  forward := fun i hmem => hi.forward i (hf.subset hmem)
  backward := fun a hmem => hi.backward a (hb.subset hmem)

theorem Offered.lose (ho : h.Offered n) (hf : f.Sublist h.forward) (hb : b.Sublist h.backward) :
    Offered { h with forward := f, backward := b } n where
  fresh := ho.fresh
  forward := fun i hmem => ho.forward i (hf.subset hmem)
  order := ho.order.sublist hf
  staged := fun hs i hmem => ho.staged hs i (hf.subset hmem)
  backward := ho.backward.sublist hb
  received := fun hmem => ho.received (hb.subset hmem)

theorem Released.lose (hr : h.Released n) (hf : f.Sublist h.forward) (hb : b.Sublist h.backward) :
    Released { h with forward := f, backward := b } n where
  forward := fun i hmem => hr.forward i (hf.subset hmem)
  order := hr.order.sublist hf
  backward := hr.backward.sublist hb
  staged := fun hs => ⟨(hr.staged hs).1, fun hmem => (hr.staged hs).2 (hb.subset hmem)⟩
  delivered := fun hs => ⟨(hr.delivered hs).1, fun hmem => (hr.delivered hs).2 (hf.subset hmem)⟩

theorem InStage.lose {stage : Stage} (hc : h.InStage stage) (hf : f.Sublist h.forward)
    (hb : b.Sublist h.backward) : InStage { h with forward := f, backward := b } stage := by
  cases stage with
  | idle => exact Idle.lose hc hf hb
  | offered n => exact Offered.lose hc hf hb
  | released n => exact Released.lose hc hf hb

theorem Released.receipt {rest : List Backward} (hr : h.Released n)
    (hback : h.backward = .received :: rest) :
    Released { h with
      stage := .released n, forward := h.forward ++ [.release n], backward := rest } n := by
  have hl := (hr.lose (List.Sublist.refl _) (hback ▸ List.sublist_cons_self _ rest)).releaseAgain
  exact ⟨hl.forward, hl.order, hl.backward, hl.staged, hl.delivered⟩

/-! ## One step -/

theorem Inv.of_stage {stage : Stage} (hd : ∀ k, h.done k = [] ∨ h.Delivered k)
    (hs : h.stage = stage) (hc : h.InStage stage) : Inv h :=
  ⟨hd, hs ▸ hc⟩

section

variable (hi : Inv h)

include hi

theorem Inv.idle (hs : h.stage = .idle) : h.Idle := by
  have hc := hi.current
  rwa [hs] at hc

theorem Inv.offered (hs : h.stage = .offered n) : h.Offered n := by
  have hc := hi.current
  rwa [hs] at hc

theorem Inv.released (hs : h.stage = .released n) : h.Released n := by
  have hc := hi.current
  rwa [hs] at hc

theorem Inv.stage_of_offer (hmem : .offer n again ∈ h.forward) :
    h.stage = .offered n ∨ h.stage = .released n := by
  cases hs : h.stage with
  | idle => exact absurd rfl ((hi.idle hs).forward _ hmem).not_offer
  | offered m =>
    rcases (hi.offered hs).forward _ hmem with ⟨again', heq⟩ | hold
    · cases heq
      exact Or.inl rfl
    · exact absurd rfl hold.not_offer
  | released m =>
    rcases (hi.released hs).forward _ hmem with heq | heq
    · cases heq
      exact Or.inr rfl
    · cases heq

theorem Inv.again_of_staged (hmem : .offer n again ∈ h.forward)
    (hs : h.staged = true) : again = true := by
  rcases hi.stage_of_offer hmem with hstage | hstage
  · cases (hi.offered hstage).staged hs _ hmem
    rfl
  · rcases (hi.released hstage).forward _ hmem with heq | heq
    · cases heq
      rfl
    · cases heq

theorem Inv.stage_of_release (hmem : .release n ∈ h.forward) (hs : h.staged = true) :
    h.stage = .released n := by
  cases hstage : h.stage with
  | idle => exact absurd ((hi.idle hstage).staged.symm.trans hs) Bool.false_ne_true
  | offered m => cases (hi.offered hstage).staged hs _ hmem
  | released m =>
    rcases (hi.released hstage).forward _ hmem with heq | heq
    · cases heq
    · cases heq
      rfl

theorem Inv.completed (hforward : h.forward = .release k :: rest) : Inv (h.completed k rest) := by
  have hmem : Item.release k ∈ h.forward := hforward ▸ List.mem_cons_self
  constructor
  · intro j
    by_cases hne : j = k
    · subst hne
      right
      cases hs : h.staged with
      | true => exact ((hi.released (hi.stage_of_release hmem hs)).completed hforward).delivered rfl |>.1
      | false =>
        have hold : h.Delivered j := by
          cases hstage : h.stage with
          | idle =>
            obtain ⟨m, heq, hm⟩ := (hi.idle hstage).forward _ hmem
            cases heq
            exact hm
          | offered m =>
            rcases (hi.offered hstage).forward _ hmem with ⟨again, heq⟩ | ⟨m, heq, hm⟩
            · cases heq
            · cases heq
              exact hm
          | released m =>
            rcases (hi.released hstage).forward _ hmem with heq | heq
            · cases heq
            · cases heq
              exact ((hi.released hstage).delivered hs).1
        exact hold.completed hs
    · unfold Delivered
      rw [done_completed_of_ne hne]
      exact hi.done j
  · show InStage (h.completed k rest) h.stage
    cases hstage : h.stage with
    | idle => exact (hi.idle hstage).completed hforward
    | offered n => exact (hi.offered hstage).completed hforward
    | released n =>
      rcases (hi.released hstage).forward _ hmem with heq | heq
      · cases heq
      · cases heq
        exact (hi.released hstage).completed hforward

theorem Inv.step (hstep : Step h h') : Inv h' := by
  cases hstep with
  | draw n hstage hfresh => exact ⟨hi.done, (hi.idle hstage).draw hfresh⟩
  | offerAgain n hstage => exact .of_stage hi.done hstage (hi.offered hstage).offerAgain
  | releaseAgain n hstage => exact .of_stage hi.done hstage (hi.released hstage).releaseAgain
  | accept n again rest hforward =>
    rcases hi.stage_of_offer (hforward ▸ List.mem_cons_self) with hstage | hstage
    · exact .of_stage hi.done hstage ((hi.offered hstage).accept hforward)
    · exact .of_stage hi.done hstage ((hi.released hstage).accept hforward)
  | complete n rest hforward => exact hi.completed hforward
  | receipt n rest hbackward hstage =>
    rcases hstage with hstage | hstage
    · exact ⟨hi.done, (hi.offered hstage).receipt hbackward⟩
    · exact ⟨hi.done, (hi.released hstage).receipt hbackward⟩
  | completion n rest hbackward hstage => exact ⟨hi.done, (hi.released hstage).completion hbackward⟩
  | lose f b hforward hbackward => exact ⟨hi.done, hi.current.lose hforward hbackward⟩

end

end Handoff

end SharkMqtt.Lib
