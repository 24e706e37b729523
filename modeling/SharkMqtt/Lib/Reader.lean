import Mathlib.Data.List.Basic
import Mathlib.Data.Nat.Init

/-!
# Readers

A reader takes some of the front of its input and returns a value or fails; what
it leaves of the input is known in both cases. Readers form a monad, so decoders
are written in `do` notation and read like the loops they model.

Three predicates carry the results, each with a rule for every way a reader is
built:

* `Parses r bs a`: on any input that starts with `bs`, `r` takes exactly `bs` and
  returns `a`. This is the round-trip direction. `Whole r bs a` is its form for a
  reader that asks how much of its buffer is left.
* `Returns r Q`: whatever `r` returns, and the input it took for it, satisfy `Q`.
  This is the direction from accepted input to well-formed values.
* `Takes n Q r`: `r` takes at most `n` elements, also when it fails; what it returns
  and the number it took satisfy `Q`; and it does not look beyond what it takes.
-/

namespace SharkMqtt.Lib

def Reader (ε τ α : Type) := List τ → Except ε α × List τ

namespace Reader

variable {ε τ α β σ : Type}

protected def pure (a : α) : Reader ε τ α := fun s => (.ok a, s)

protected def bind (r : Reader ε τ α) (f : α → Reader ε τ β) : Reader ε τ β := fun s =>
  match r s with
  | (.ok a, rest) => f a rest
  | (.error e, rest) => (.error e, rest)

instance : Monad (Reader ε τ) where
  pure := Reader.pure
  bind := Reader.bind

def throw (e : ε) : Reader ε τ α := fun s => (.error e, s)

/-- Fail with `e` if `c` holds. -/
def failIf (c : Prop) [Decidable c] (e : ε) : Reader ε τ Unit :=
  if c then throw e else Reader.pure ()

/-- Read something that is there only if `c` holds; it is `d` otherwise. -/
def readIf (c : Prop) [Decidable c] (r : Reader ε τ α) (d : α) : Reader ε τ α :=
  if c then r else Reader.pure d

/-- Fail with the error, if there is one. -/
def failWith : Option ε → Reader ε τ Unit
  | some e => throw e
  | none => Reader.pure ()

def next (eof : ε) : Reader ε τ τ
  | [] => (.error eof, [])
  | x :: s => (.ok x, s)

/-- Take `n` elements, or everything when there are fewer; then fail, with `eof`
when there was nothing at all. -/
def readFull (eof unexpected : ε) (n : ℕ) : Reader ε τ (List τ) := fun s =>
  if n ≤ s.length then (.ok (s.take n), s.drop n)
  else (.error (if s = [] then eof else unexpected), [])

def remaining : Reader ε τ ℕ := fun s => (.ok s.length, s)

def rest : Reader ε τ (List τ) := fun s => (.ok s, [])

def mapError (f : ε → ε) (r : Reader ε τ α) : Reader ε τ α := fun s =>
  match r s with
  | (.ok a, left) => (.ok a, left)
  | (.error e, left) => (.error (f e), left)

/-- Read from a buffer of its own and leave the input alone. -/
def inside (data : List τ) (r : Reader ε τ α) : Reader ε τ α := fun s => ((r data).1, s)

/-- Repeat `body` until the input is used up; `fuel` bounds the rounds. -/
def loop (body : σ → Reader ε τ σ) : ℕ → σ → Reader ε τ σ
  | 0, x => Reader.pure x
  | fuel + 1, x => fun s => if s = [] then (.ok x, []) else (body x).bind (loop body fuel) s

/-- `for r.Len() > 0 { x = body(x) }`; a body that takes something needs no more
rounds than there are elements. -/
def untilEmpty (body : σ → Reader ε τ σ) (x : σ) : Reader ε τ σ := fun s => loop body s.length x s

/-! ## Unfolding -/

theorem bind_apply (r : Reader ε τ α) (f : α → Reader ε τ β) (s : List τ) :
    (r >>= f) s = match r s with
      | (.ok a, rest) => f a rest
      | (.error e, rest) => (.error e, rest) := rfl

variable {r : Reader ε τ α} {f : α → Reader ε τ β} {bs cs : List τ} {a : α} {e eof : ε} {b : β}
  {g : α → β} {c : Prop} {P : α → ℕ → Prop} {n : ℕ} {s data : List τ} {o : Option ε}
  {Q : α → ℕ → Prop}

theorem bind_ok {rest : List τ} (h : r s = (.ok a, rest)) : (r >>= f) s = f a rest := by
  rw [bind_apply, h]

theorem bind_error {rest : List τ} (h : r s = (.error e, rest)) :
    (r >>= f) s = (.error e, rest) := by
  rw [bind_apply, h]

theorem of_bind_ok {rest : List τ} (h : (r >>= f) s = (.ok b, rest)) :
    ∃ a mid, r s = (.ok a, mid) ∧ f a mid = (.ok b, rest) := by
  rw [bind_apply] at h
  rcases hr : r s with ⟨e | a, mid⟩
  · rw [hr] at h
    cases h
  · rw [hr] at h
    exact ⟨a, mid, rfl, h⟩

/-! ## Round trips -/

def Parses (r : Reader ε τ α) (bs : List τ) (a : α) : Prop := ∀ t, r (bs ++ t) = (.ok a, t)

theorem Parses.pure (a : α) : Parses (Pure.pure a : Reader ε τ α) [] a := fun _ => rfl

theorem Parses.bind (hr : Parses r bs a) (hf : Parses (f a) cs b) :
    Parses (r >>= f) (bs ++ cs) b := by
  intro t
  have hfirst : r (bs ++ (cs ++ t)) = (.ok a, cs ++ t) := hr (cs ++ t)
  rw [List.append_assoc, bind_ok hfirst]
  exact hf t

theorem Parses.map (h : Parses r bs a) : Parses (g <$> r) bs (g a) := by
  intro t
  exact bind_ok (h t)

theorem Parses.bind_nil (hr : Parses r [] a) (hf : Parses (f a) cs b) :
    Parses (r >>= f) cs b := hr.bind hf

theorem Parses.bind_last (hr : Parses r bs a) (hf : Parses (f a) [] b) : Parses (r >>= f) bs b := by
  have hall := hr.bind hf
  rwa [List.append_nil] at hall

theorem Parses.bind_pure (hr : Parses r bs a) : Parses (r >>= fun a => Pure.pure (g a)) bs (g a) :=
  hr.bind_last (Parses.pure (g a))

/-- The reader uses up the whole of a buffer. -/
def Whole (r : Reader ε τ α) (bs : List τ) (a : α) : Prop := r bs = (.ok a, [])

theorem Parses.whole (h : Parses r bs a) : Whole r bs a := by
  have ht := h []
  rwa [List.append_nil] at ht

theorem Whole.unique {b : α} (ha : Whole r bs a) (hb : Whole r bs b) : a = b := by
  have hab : (Except.ok a, ([] : List τ)) = (Except.ok b, []) := ha.symm.trans hb
  exact Except.ok.inj (Prod.mk.inj hab).1

theorem Parses.bind_whole (hr : Parses r bs a) (hf : Whole (f a) cs b) :
    Whole (r >>= f) (bs ++ cs) b := by
  have hfirst : r (bs ++ cs) = (.ok a, cs) := hr cs
  unfold Whole
  rw [bind_ok hfirst]
  exact hf

theorem Parses.bind_nil_whole (hr : Parses r [] a) (hf : Whole (f a) cs b) : Whole (r >>= f) cs b :=
  hr.bind_whole hf

theorem Whole.bind (hr : Whole r bs a) (hf : Whole (f a) [] b) : Whole (r >>= f) bs b := by
  unfold Whole
  rw [bind_ok hr]
  exact hf

/-- Asking how much is left, where any longer input gives the same. -/
theorem parses_remaining {f : ℕ → Reader ε τ β} (h : ∀ n, bs.length ≤ n → Parses (f n) bs b) :
    Parses (remaining >>= f) bs b := by
  intro t
  have hle : bs.length ≤ (bs ++ t).length := by simp
  exact h (bs ++ t).length hle t

theorem whole_remaining {f : ℕ → Reader ε τ β} (h : Whole (f bs.length) bs b) :
    Whole (remaining >>= f) bs b := h

theorem whole_rest (bs : List τ) : Whole (rest : Reader ε τ (List τ)) bs bs := rfl

theorem parses_failIf [Decidable c] (h : ¬ c) : Parses (failIf c e : Reader ε τ Unit) [] () := by
  intro t
  unfold failIf
  rw [if_neg h]
  rfl

theorem parses_readIf [Decidable c] {d : α} (hr : c → Parses r bs a) (hd : ¬ c → bs = [] ∧ a = d) :
    Parses (readIf c r d) bs a := by
  unfold readIf
  split
  next hc => exact hr hc
  next hc =>
    obtain ⟨rfl, rfl⟩ := hd hc
    exact Parses.pure a

theorem whole_readIf [Decidable c] {d : α} (hr : c → Whole r bs a) (hd : ¬ c → bs = [] ∧ a = d) :
    Whole (readIf c r d) bs a := by
  unfold readIf
  split
  next hc => exact hr hc
  next hc =>
    obtain ⟨rfl, rfl⟩ := hd hc
    rfl

theorem parses_failWith (h : o = none) : Parses (failWith o : Reader ε τ Unit) [] () := by
  subst h
  exact fun _ => rfl

theorem parses_next (eof : ε) (x : τ) : Parses (next eof) [x] x := fun _ => rfl

theorem parses_readFull (eof unexpected : ε) (bs : List τ) :
    Parses (readFull eof unexpected bs.length) bs bs := by
  intro t
  unfold readFull
  rw [if_pos (by simp), List.take_left, List.drop_left]

theorem Parses.mapError {f : ε → ε} (h : Parses r bs a) : Parses (mapError f r) bs a := by
  intro t
  unfold Reader.mapError
  rw [h t]

theorem parses_inside {rest : List τ} (h : r data = (.ok a, rest)) :
    Parses (inside data r) [] a := by
  intro t
  unfold inside
  rw [h]
  rfl

/-! ## What a reader returns -/

def Returns (r : Reader ε τ α) (Q : α → ℕ → Prop) : Prop :=
  ∀ s a rest, r s = (.ok a, rest) → ∃ used, s = used ++ rest ∧ Q a used.length

theorem Returns.mono (h : Returns r P) (hPQ : ∀ a k, P a k → Q a k) : Returns r Q := by
  intro s a rest hr
  obtain ⟨used, hs, hP⟩ := h s a rest hr
  exact ⟨used, hs, hPQ a used.length hP⟩

theorem Returns.pure (h : Q a 0) : Returns (Pure.pure a : Reader ε τ α) Q := by
  intro s b rest hr
  cases hr
  exact ⟨[], rfl, h⟩

theorem Returns.throw : Returns (throw e : Reader ε τ α) Q := by
  intro s b rest hr
  cases hr

theorem Returns.bind {Q : β → ℕ → Prop} (hr : Returns r P)
    (hf : ∀ a k, P a k → Returns (f a) fun b j => Q b (k + j)) : Returns (r >>= f) Q := by
  intro s b rest h
  obtain ⟨a, mid, ha, hb⟩ := of_bind_ok h
  obtain ⟨used, hs, hP⟩ := hr s a mid ha
  obtain ⟨used', hmid, hQ⟩ := hf a used.length hP mid b rest hb
  refine ⟨used ++ used', ?_, ?_⟩
  · rw [hs, hmid, List.append_assoc]
  · rw [List.length_append]
    exact hQ

theorem returns_failIf [Decidable c] :
    Returns (failIf c e : Reader ε τ Unit) fun _ k => ¬ c ∧ k = 0 := by
  unfold failIf
  split
  · exact Returns.throw
  next hc => exact Returns.pure ⟨hc, rfl⟩

theorem returns_readIf [Decidable c] {d : α} (hr : c → Returns r Q) (hd : ¬ c → Q d 0) :
    Returns (readIf c r d) Q := by
  unfold readIf
  split
  next hc => exact hr hc
  next hc => exact Returns.pure (hd hc)

theorem Returns.mapError {f : ε → ε} (h : Returns r Q) : Returns (mapError f r) Q := by
  intro s a left hr
  unfold Reader.mapError at hr
  split at hr
  next hs =>
    cases hr
    exact h s a left hs
  · cases hr

theorem returns_rest : Returns (rest : Reader ε τ (List τ)) fun a k => k = a.length := by
  intro s a left hr
  cases hr
  exact ⟨s, (List.append_nil s).symm, rfl⟩

theorem returns_inside (h : Returns r Q) :
    Returns (inside data r) fun a k => (∃ j ≤ data.length, Q a j) ∧ k = 0 := by
  intro s a rest hr
  unfold inside at hr
  rcases hd : r data with ⟨res, left⟩
  rw [hd] at hr
  cases hr
  obtain ⟨used, hdata, hQ⟩ := h data a left hd
  refine ⟨[], rfl, ⟨used.length, ?_, hQ⟩, rfl⟩
  rw [hdata, List.length_append]
  exact Nat.le_add_right _ _

theorem returns_remaining : Returns (remaining : Reader ε τ ℕ) fun _ k => k = 0 := by
  intro s a rest hr
  cases hr
  exact ⟨[], rfl, rfl⟩

theorem Returns.map {Q : β → ℕ → Prop} (h : Returns r P) (hg : ∀ a k, P a k → Q (g a) k) :
    Returns (g <$> r) Q :=
  h.bind fun a k hP => Returns.pure (hg a k hP)

/-- The value alone, whatever was taken for it. -/
def Yields (r : Reader ε τ α) (Q : α → Prop) : Prop := ∀ s a left, r s = (.ok a, left) → Q a

theorem Yields.pure {Q : α → Prop} (h : Q a) : Yields (Pure.pure a : Reader ε τ α) Q := by
  intro s b left hr
  cases hr
  exact h

theorem Yields.bind {Q : β → Prop} (h : ∀ a, Yields (f a) Q) : Yields (r >>= f) Q := by
  intro s b left hr
  obtain ⟨a, mid, -, hb⟩ := of_bind_ok hr
  exact h a mid b left hb

/-! ## How much a reader takes -/

structure Takes (n : ℕ) (Q : α → ℕ → Prop) (r : Reader ε τ α) : Prop where
  onOk : ∀ s a rest, r s = (.ok a, rest) →
    ∃ used, s = used ++ rest ∧ used.length ≤ n ∧ Q a used.length ∧ Parses r used a
  onError : ∀ s e rest, r s = (.error e, rest) → ∃ used, s = used ++ rest ∧ used.length ≤ n

theorem Takes.pure (h : Q a 0) : Takes n Q (Pure.pure a : Reader ε τ α) where
  onOk s b rest hr := by
    cases hr
    exact ⟨[], rfl, Nat.zero_le n, h, Parses.pure a⟩
  onError s e rest hr := by cases hr

theorem Takes.throw : Takes n Q (throw e : Reader ε τ α) where
  onOk s b rest hr := by cases hr
  onError s e rest hr := by
    cases hr
    exact ⟨[], rfl, Nat.zero_le n⟩

theorem Takes.bind {Q : β → ℕ → Prop} (hr : Takes n P r)
    (hf : ∀ a k, P a k → k ≤ n → Takes (n - k) (fun b j => Q b (k + j)) (f a)) :
    Takes n Q (r >>= f) where
  onOk s b rest h := by
    obtain ⟨a, mid, ha, hb⟩ := of_bind_ok h
    obtain ⟨used, hs, hle, hP, hparse⟩ := hr.onOk s a mid ha
    obtain ⟨used', hmid, hle', hQ, hparse'⟩ := (hf a used.length hP hle).onOk mid b rest hb
    refine ⟨used ++ used', by rw [hs, hmid, List.append_assoc], ?_, ?_, hparse.bind hparse'⟩
    · rw [List.length_append]
      omega
    · rw [List.length_append]
      exact hQ
  onError s e rest h := by
    rcases ha : r s with ⟨e' | a, mid⟩
    · rw [bind_error ha] at h
      cases h
      exact hr.onError s e rest ha
    · rw [bind_ok ha] at h
      obtain ⟨used, hs, hle, hP, hparse⟩ := hr.onOk s a mid ha
      obtain ⟨used', hmid, hle'⟩ := (hf a used.length hP hle).onError mid e rest h
      refine ⟨used ++ used', by rw [hs, hmid, List.append_assoc], ?_⟩
      rw [List.length_append]
      omega

theorem Takes.returns (h : Takes n Q r) : Returns r Q := by
  intro s a rest hr
  obtain ⟨used, hs, -, hQ, -⟩ := h.onOk s a rest hr
  exact ⟨used, hs, hQ⟩

theorem Takes.mono {m : ℕ} (h : Takes n P r) (hnm : n ≤ m) (hPQ : ∀ a k, P a k → Q a k) :
    Takes m Q r where
  onOk s a rest hr := by
    obtain ⟨used, hs, hle, hP, hparse⟩ := h.onOk s a rest hr
    exact ⟨used, hs, Nat.le_trans hle hnm, hPQ a used.length hP, hparse⟩
  onError s e rest hr := by
    obtain ⟨used, hs, hle⟩ := h.onError s e rest hr
    exact ⟨used, hs, Nat.le_trans hle hnm⟩

theorem Takes.after_failIf [Decidable c] (h : ¬ c → Takes n Q r) :
    Takes n Q (failIf c e >>= fun _ => r) := by
  unfold failIf
  split
  · exact Takes.throw
  next hc => exact h hc

theorem takes_readIf [Decidable c] {d : α} (hr : c → Takes n Q r) (hd : ¬ c → Q d 0) :
    Takes n Q (readIf c r d) := by
  unfold readIf
  split
  next hc => exact hr hc
  next hc => exact Takes.pure (hd hc)

theorem takes_failWith : Takes n (fun _ k => o = none ∧ k = 0) (failWith o : Reader ε τ Unit) := by
  cases o with
  | none => exact Takes.pure ⟨rfl, rfl⟩
  | some e => exact Takes.throw

theorem returns_failWith : Returns (failWith o : Reader ε τ Unit) fun _ k => o = none ∧ k = 0 :=
  (takes_failWith (n := 0)).returns

theorem takes_next (h : 0 < n) : Takes n (fun _ k => k = 1) (next eof : Reader ε τ τ) where
  onOk s a rest hr := by
    cases s with
    | nil => cases hr
    | cons x s =>
      cases hr
      exact ⟨[a], rfl, h, rfl, parses_next eof a⟩
  onError s e rest hr := by
    cases s with
    | nil =>
      cases hr
      exact ⟨[], rfl, Nat.zero_le n⟩
    | cons x s => cases hr

theorem returns_next : Returns (next eof : Reader ε τ τ) fun _ k => k = 1 :=
  (takes_next Nat.one_pos).returns

theorem takes_readFull {unexpected : ε} {m : ℕ} (h : m ≤ n) :
    Takes n (fun a k => a.length = m ∧ k = m) (readFull eof unexpected m : Reader ε τ (List τ)) where
  onOk s a rest hr := by
    unfold readFull at hr
    split at hr
    next hm =>
      have hlen : (s.take m).length = m := List.length_take_of_le hm
      have hparse := parses_readFull eof unexpected (s.take m)
      cases hr
      rw [hlen] at hparse
      exact ⟨s.take m, (List.take_append_drop m s).symm, by omega, ⟨hlen, hlen⟩, hparse⟩
    · cases hr
  onError s e rest hr := by
    unfold readFull at hr
    split at hr
    · cases hr
    · cases hr
      refine ⟨s, (List.append_nil s).symm, ?_⟩
      omega

theorem Takes.map {Q : β → ℕ → Prop} (h : Takes n P r) (hg : ∀ a k, P a k → Q (g a) k) :
    Takes n Q (g <$> r) :=
  h.bind fun a k hP _ => Takes.pure (hg a k hP)

theorem takes_inside {Q : α → Prop} (h : Yields r Q) :
    Takes n (fun a k => Q a ∧ k = 0) (inside data r) where
  onOk s a rest hr := by
    unfold inside at hr
    rcases hd : r data with ⟨res, left⟩
    rw [hd] at hr
    cases hr
    exact ⟨[], rfl, Nat.zero_le n, ⟨h data a left hd, rfl⟩, parses_inside hd⟩
  onError s e rest hr := by
    unfold inside at hr
    rcases hd : r data with ⟨res, left⟩
    rw [hd] at hr
    cases hr
    exact ⟨[], rfl, Nat.zero_le n⟩

/-! ## Loops

A body that takes something in every round makes `untilEmpty` satisfy the equation
of the loop it stands for, and the fuel is out of sight from there on.
-/

section Loops

variable {body : σ → Reader ε τ σ} {x : σ} {s : List τ}

theorem loop_round {fuel : ℕ} (hs : s ≠ []) :
    loop body (fuel + 1) x s = (body x >>= loop body fuel) s := if_neg hs

theorem untilEmpty_stop {rest : List τ} {e : ε} (hs : s ≠ []) (h : body x s = (.error e, rest)) :
    untilEmpty body x s = (.error e, rest) := by
  have hfuel : ∃ fuel, s.length = fuel + 1 := Nat.exists_eq_add_one.mpr (List.length_pos_iff.mpr hs)
  obtain ⟨fuel, hfuel⟩ := hfuel
  unfold untilEmpty
  rw [hfuel, loop_round hs, bind_error h]

variable (hbody : ∀ x, Returns (body x) fun _ k => 0 < k)

include hbody

theorem loop_succ :
    ∀ fuel x s, s.length ≤ fuel → loop body (fuel + 1) x s = loop body fuel x s := by
  intro fuel
  induction fuel with
  | zero =>
    intro x s hs
    have hnil : s = [] := List.eq_nil_of_length_eq_zero (Nat.le_zero.mp hs)
    subst hnil
    rfl
  | succ fuel ih =>
    intro x s hs
    unfold loop
    split
    · rfl
    · rcases hr : body x s with ⟨e | y, rest⟩
      · exact (bind_error hr).trans (bind_error hr).symm
      · obtain ⟨used, hsplit, hpos⟩ := hbody x s y rest hr
        have hlen : s.length = used.length + rest.length := by rw [hsplit, List.length_append]
        have hrest : rest.length ≤ fuel := by omega
        have hnext := ih y rest hrest
        exact (bind_ok hr).trans (hnext.trans (bind_ok hr).symm)

theorem loop_eq_untilEmpty {fuel : ℕ}
    (h : s.length ≤ fuel) : loop body fuel x s = untilEmpty body x s := by
  induction fuel, h using Nat.le_induction with
  | base => rfl
  | succ fuel hle ih => exact (loop_succ hbody fuel x s hle).trans ih

theorem untilEmpty_step {y : σ} {rest : List τ} (hs : s ≠ []) (h : body x s = (.ok y, rest)) :
    untilEmpty body x s = untilEmpty body y rest := by
  obtain ⟨used, hsplit, hpos⟩ := hbody x s y rest h
  have hlen : s.length = used.length + rest.length := by rw [hsplit, List.length_append]
  have hfuel : ∃ fuel, s.length = fuel + 1 := Nat.exists_eq_add_one.mpr (by omega)
  obtain ⟨fuel, hfuel⟩ := hfuel
  unfold untilEmpty
  rw [hfuel]
  rw [loop_round hs, bind_ok h]
  exact loop_eq_untilEmpty hbody (by omega)

/-- **The loop rule**: what one round preserves holds when the loop ends, and it ends
with the input used up. -/
theorem returns_untilEmpty {Inv : σ → ℕ → Prop}
    (hround : ∀ x k, Inv x k → Returns (body x) fun y j => Inv y (k + j)) :
    ∀ s x k y rest, Inv x k → untilEmpty body x s = (.ok y, rest) →
      rest = [] ∧ Inv y (k + s.length) := by
  intro s
  -- on the length of what is left, which every round shortens
  induction hn : s.length using Nat.strong_induction_on generalizing s with
  | _ n ih =>
    intro x k y rest hinv h
    by_cases hs : s = []
    · subst hs hn
      cases h
      exact ⟨rfl, hinv⟩
    · rcases hr : body x s with ⟨e | x', mid⟩
      · rw [untilEmpty_stop hs hr] at h
        cases h
      · rw [untilEmpty_step hbody hs hr] at h
        obtain ⟨used, hsplit, hpos⟩ := hbody x s x' mid hr
        obtain ⟨used', hsplit', hinv'⟩ := hround x k hinv s x' mid hr
        have hlen : s.length = used.length + mid.length := by rw [hsplit, List.length_append]
        have hlen' : s.length = used'.length + mid.length := by rw [hsplit', List.length_append]
        have hmid := ih mid.length (by omega) mid rfl x' (k + used'.length) y rest hinv' h
        refine ⟨hmid.1, ?_⟩
        have hsum : k + used'.length + mid.length = k + n := by omega
        rw [← hsum]
        exact hmid.2

/-- Input made of one chunk per item is read item by item. -/
theorem untilEmpty_chunks {ι : Type} (chunk : ι → List τ) (upd : σ → ι → σ)
    (Inv : σ → List ι → Prop) (hchunk : ∀ i, chunk i ≠ [])
    (hround : ∀ x i l, Inv x (i :: l) → Parses (body x) (chunk i) (upd x i) ∧ Inv (upd x i) l) :
    ∀ l x, Inv x l → Whole (untilEmpty body x) (l.flatMap chunk) (l.foldl upd x) := by
  intro l
  induction l with
  | nil =>
    intro x _
    rfl
  | cons i l ih =>
    intro x hinv
    obtain ⟨hparse, hinv'⟩ := hround x i l hinv
    have hne : chunk i ++ l.flatMap chunk ≠ [] := by simp [hchunk i]
    have hfirst := hparse (l.flatMap chunk)
    unfold Whole
    rw [List.flatMap_cons, untilEmpty_step hbody hne hfirst]
    exact ih (upd x i) hinv'

end Loops

section Collecting

variable {ι : Type} {body : List ι → Reader ε τ (List ι)} {P : ι → Prop} {chunk : ι → List τ}

/-- A loop that collects one item a round. -/
theorem whole_untilEmpty_snoc (hbody : ∀ x, Returns (body x) fun _ k => 0 < k)
    (hchunk : ∀ i, chunk i ≠ []) (hround : ∀ x i, P i → Parses (body x) (chunk i) (x ++ [i]))
    {l : List ι} (hl : ∀ i ∈ l, P i) : Whole (untilEmpty body []) (l.flatMap chunk) l := by
  have hall := untilEmpty_chunks hbody chunk (fun x i => x ++ [i]) (fun _ l => ∀ i ∈ l, P i) hchunk
    (fun x i l h => ⟨hround x i (h i List.mem_cons_self), (List.forall_mem_cons.mp h).2⟩) l [] hl
  rwa [List.foldl_append_eq_append, ← List.flatMap_def, List.flatMap_singleton', List.nil_append]
    at hall

theorem returns_untilEmpty_snoc (hbody : ∀ x, Returns (body x) fun _ k => 0 < k)
    (hround : ∀ x, Returns (body x) fun y k => ∃ i, y = x ++ [i] ∧ P i ∧ k = (chunk i).length) :
    Returns (untilEmpty body []) fun l k => (∀ i ∈ l, P i) ∧ k = (l.flatMap chunk).length := by
  intro s l left h
  have hstep : ∀ x k, ((∀ i ∈ x, P i) ∧ k = (x.flatMap chunk).length) → Returns (body x)
      fun y j => (∀ i ∈ y, P i) ∧ k + j = (y.flatMap chunk).length := by
    rintro x k ⟨hall, hk⟩
    refine (hround x).mono ?_
    rintro _ j ⟨i, rfl, hi, hj⟩
    refine ⟨List.forall_mem_append.mpr ⟨hall, List.forall_mem_singleton.mpr hi⟩, ?_⟩
    · rw [List.flatMap_append, List.length_append, List.flatMap_singleton, hk, hj]
  obtain ⟨rfl, hall, hlen⟩ := returns_untilEmpty hbody hstep s [] 0 l left
    ⟨fun _ hi => absurd hi List.not_mem_nil, rfl⟩ h
  refine ⟨s, (List.append_nil s).symm, hall, ?_⟩
  omega

end Collecting

end Reader

end SharkMqtt.Lib
