import Mathlib.Data.Nat.Log
import Mathlib.Data.List.Induction
import Mathlib.Tactic.Ring
import Mathlib.Algebra.Order.Group.Nat
import SharkMqtt.Lib.Reader

/-!
# Integers as bytes

The two integer encodings of byte-oriented wire formats: fixed-width big-endian,
and the variable-length encoding in base 128 whose bytes carry a continuation bit,
least significant digit first.

The base-128 reader takes a bound on the number of bytes and can be told to refuse
an encoding padded with a zero digit. Writer and reader meet in `parses_readBase128`
within the bound and in `readBase128_tooLong` beyond it.
-/

namespace SharkMqtt.Lib

open Reader

variable {ε : Type}

/-! ## Big-endian -/

/-- The low `n` bytes of `v`, most significant first. -/
def bigEndian : ℕ → ℕ → List UInt8
  | 0, _ => []
  | n + 1, v => bigEndian n (v / 256) ++ [UInt8.ofNat v]

def ofBigEndian (bs : List UInt8) : ℕ := bs.foldl (fun acc b => acc * 256 + b.toNat) 0

@[simp] theorem length_bigEndian (n v : ℕ) : (bigEndian n v).length = n := by
  induction n generalizing v with
  | zero => rfl
  | succ n ih =>
    rw [bigEndian, List.length_append, ih]
    rfl

theorem ofBigEndian_append_singleton (bs : List UInt8) (b : UInt8) :
    ofBigEndian (bs ++ [b]) = ofBigEndian bs * 256 + b.toNat := by
  simp [ofBigEndian]

theorem ofBigEndian_bigEndian (n v : ℕ) : ofBigEndian (bigEndian n v) = v % 256 ^ n := by
  induction n generalizing v with
  | zero => simp [bigEndian, ofBigEndian, Nat.mod_one]
  | succ n ih =>
    have hlow : (UInt8.ofNat v).toNat = v % 256 := UInt8.toNat_ofNat'
    rw [bigEndian, ofBigEndian_append_singleton, ih, hlow, Nat.pow_succ, Nat.mul_comm (256 ^ n),
      Nat.mod_mul]
    ring

theorem ofBigEndian_lt (bs : List UInt8) : ofBigEndian bs < 256 ^ bs.length := by
  induction bs using List.reverseRecOn with
  | nil => simp [ofBigEndian]
  | append_singleton bs b ih =>
    have hb : b.toNat < 256 := UInt8.toNat_lt b
    rw [ofBigEndian_append_singleton, List.length_append, List.length_singleton]
    omega

/-! ## Base 128 -/

/-- `for { b = v % 128; v /= 128; if v > 0 { b |= 0x80 }; … }`; `fuel` bounds the
rounds. -/
def base128Loop : ℕ → ℕ → List UInt8
  | 0, v => [UInt8.ofNat (v % 128)]
  | fuel + 1, v =>
    if v / 128 = 0 then [UInt8.ofNat (v % 128)]
    else UInt8.ofNat (v % 128 + 128) :: base128Loop fuel (v / 128)

def base128 (v : ℕ) : List UInt8 := base128Loop v v

theorem base128Loop_eq (fuel v : ℕ) (h : v ≤ fuel) : base128Loop fuel v = base128 v := by
  unfold base128
  induction fuel using Nat.strong_induction_on generalizing v with
  | _ fuel ih =>
    cases fuel with
    | zero =>
      have hv : v = 0 := Nat.le_zero.mp h
      subst hv
      rfl
    | succ fuel =>
      cases v with
      | zero => rfl
      | succ v =>
        unfold base128Loop
        split
        · rfl
        · have hdiv : (v + 1) / 128 ≤ v := by omega
          have hleft := ih fuel (Nat.lt_succ_self fuel) ((v + 1) / 128) (by omega)
          have hright := ih v (by omega) ((v + 1) / 128) hdiv
          rw [hleft, hright]

/-- **The writer, without fuel.** -/
theorem base128_eq (v : ℕ) :
    base128 v = if v < 128 then [UInt8.ofNat v]
      else UInt8.ofNat (v % 128 + 128) :: base128 (v / 128) := by
  cases v with
  | zero => rfl
  | succ v =>
    have hunfold : base128 (v + 1) = if (v + 1) / 128 = 0 then [UInt8.ofNat ((v + 1) % 128)]
        else UInt8.ofNat ((v + 1) % 128 + 128) :: base128Loop v ((v + 1) / 128) := rfl
    rw [hunfold]
    by_cases hsmall : v + 1 < 128
    · have hdiv : (v + 1) / 128 = 0 := Nat.div_eq_of_lt hsmall
      rw [if_pos hdiv, if_pos hsmall, Nat.mod_eq_of_lt hsmall]
    · have hdiv : (v + 1) / 128 ≠ 0 := by omega
      have hrest := base128Loop_eq v ((v + 1) / 128) (by omega)
      rw [if_neg hdiv, if_neg hsmall, hrest]

theorem base128_of_lt {v : ℕ} (h : v < 128) : base128 v = [UInt8.ofNat v] := by
  rw [base128_eq, if_pos h]

theorem base128_of_ge {v : ℕ} (h : 128 ≤ v) :
    base128 v = UInt8.ofNat (v % 128 + 128) :: base128 (v / 128) := by
  rw [base128_eq, if_neg (by omega)]

theorem length_base128_pos (v : ℕ) : 0 < (base128 v).length := by
  by_cases h : v < 128
  · rw [base128_of_lt h]
    exact Nat.one_pos
  · rw [base128_of_ge (by omega)]
    exact Nat.succ_pos _

theorem length_base128 (v : ℕ) : (base128 v).length = Nat.log 128 v + 1 := by
  induction v using Nat.strong_induction_on with
  | _ v ih =>
    by_cases h : v < 128
    · rw [base128_of_lt h, Nat.log_of_lt h]
      rfl
    · have hge : 128 ≤ v := Nat.not_lt.mp h
      rw [base128_of_ge hge, List.length_cons, ih (v / 128) (by omega),
        Nat.log_of_one_lt_of_le (by omega) hge]

theorem length_base128_le {v : ℕ} : ∀ {k : ℕ}, 0 < k → v < 128 ^ k → (base128 v).length ≤ k := by
  induction v using Nat.strong_induction_on with
  | _ v ih =>
    intro k hk hv
    by_cases h : v < 128
    · rw [base128_of_lt h]
      exact hk
    · obtain ⟨j, rfl⟩ : ∃ j, k = j + 1 := Nat.exists_eq_add_one.mpr hk
      have hj : 0 < j := by
        rcases Nat.eq_zero_or_pos j with rfl | hj
        · omega
        · exact hj
      have hdiv : v / 128 < 128 ^ j := by
        rw [Nat.div_lt_iff_lt_mul (by omega), ← Nat.pow_succ]
        exact hv
      have hrest := ih (v / 128) (by omega) hj hdiv
      rw [base128_of_ge (by omega), List.length_cons]
      omega

/-! ## Reading base 128 -/

/-- Read at most `left` more digits on top of the `i` digits that gave `val`; return
the value and the number of bytes. A `minimal` reader refuses a zero last digit
after others. -/
def readBase128 (eof bad : ε) (minimal : Bool) : (left i val : ℕ) → Reader ε UInt8 (ℕ × ℕ)
  | 0, _, _ => throw bad
  | left + 1, i, val => do
    let b ← next eof
    if 128 ≤ b.toNat then
      readBase128 eof bad minimal left (i + 1) (val + b.toNat % 128 * 128 ^ i)
    else do
      failIf (minimal ∧ 0 < i ∧ b.toNat = 0) bad
      pure (val + b.toNat * 128 ^ i, i + 1)

section Reading

variable {eof bad : ε} {minimal : Bool} {left i val v : ℕ}

theorem readBase128_more {b : UInt8} (h : 128 ≤ b.toNat) (t : List UInt8) :
    readBase128 eof bad minimal (left + 1) i val (b :: t) =
      readBase128 eof bad minimal left (i + 1) (val + b.toNat % 128 * 128 ^ i) t := by
  refine (bind_ok (parses_next eof b t)).trans ?_
  rw [if_pos h]

theorem readBase128_last {b : UInt8} (h : b.toNat < 128) (hb : ¬ (minimal ∧ 0 < i ∧ b.toNat = 0))
    (t : List UInt8) : readBase128 eof bad minimal (left + 1) i val (b :: t) =
      (.ok (val + b.toNat * 128 ^ i, i + 1), t) := by
  refine (bind_ok (parses_next eof b t)).trans ?_
  rw [if_neg (Nat.not_le.mpr h)]
  exact bind_ok (parses_failIf hb t)

theorem toNat_more (v : ℕ) : (UInt8.ofNat (v % 128 + 128)).toNat = v % 128 + 128 := by
  rw [UInt8.toNat_ofNat']
  omega

/-- **Within the bound the reader inverts the writer.** -/
theorem parses_readBase128 (hleft : 0 < left) (hv : v < 128 ^ left) (hpad : 0 < i → v ≠ 0) :
    Parses (readBase128 eof bad minimal left i val) (base128 v)
      (val + v * 128 ^ i, i + (base128 v).length) := by
  -- on the digits still to be read; each round divides the value by 128
  induction left generalizing i val v with
  | zero => exact absurd hleft (Nat.lt_irrefl 0)
  | succ left ih =>
    intro t
    by_cases h : v < 128
    · have hb : (UInt8.ofNat v).toNat = v := by rw [UInt8.toNat_ofNat']; omega
      have hok : ¬ (minimal ∧ 0 < i ∧ (UInt8.ofNat v).toNat = 0) := by
        rw [hb]
        exact fun hc => hpad hc.2.1 hc.2.2
      rw [base128_of_lt h, List.singleton_append, readBase128_last (by rwa [hb]) hok, hb]
      rfl
    · have hpow : 128 ^ (left + 1) = 128 ^ left * 128 := Nat.pow_succ 128 left
      have hdiv : v / 128 < 128 ^ left := by
        rw [Nat.div_lt_iff_lt_mul (by omega), ← hpow]
        exact hv
      have hleft' : 0 < left := by
        by_contra hzero
        have hleft0 : left = 0 := by omega
        rw [hleft0] at hdiv
        omega
      have hrest := @ih (i + 1) (val + (v % 128 + 128) % 128 * 128 ^ i) (v / 128) hleft' hdiv
        (by omega) t
      have hval : val + (v % 128 + 128) % 128 * 128 ^ i + v / 128 * 128 ^ (i + 1)
          = val + v * 128 ^ i := by
        have hmod : (v % 128 + 128) % 128 = v % 128 := by omega
        have hsplit : v % 128 * 128 ^ i + v / 128 * 128 ^ (i + 1)
            = (v % 128 + 128 * (v / 128)) * 128 ^ i := by ring
        rw [hmod, Nat.add_assoc, hsplit, Nat.mod_add_div]
      have hlen : i + 1 + (base128 (v / 128)).length = i + (base128 v).length := by
        rw [base128_of_ge (by omega : 128 ≤ v), List.length_cons]
        omega
      rw [hval, hlen] at hrest
      rw [base128_of_ge (by omega : 128 ≤ v), List.cons_append,
        readBase128_more (by rw [toNat_more]; omega), toNat_more, hrest,
        base128_of_ge (by omega : 128 ≤ v)]

theorem parses_base128 (hleft : 0 < left) (hv : v < 128 ^ left) :
    Parses (readBase128 eof bad minimal left 0 0) (base128 v) (v, (base128 v).length) := by
  have hread : Parses (readBase128 eof bad minimal left 0 0) (base128 v)
      (0 + v * 128 ^ 0, 0 + (base128 v).length) := parses_readBase128 hleft hv (by omega)
  rwa [Nat.zero_add, Nat.zero_add, Nat.pow_zero, Nat.mul_one] at hread

/-- **Beyond the bound it refuses what the writer wrote.** -/
theorem readBase128_tooLong (hv : 128 ^ left ≤ v) (t : List UInt8) :
    ∃ rest, readBase128 eof bad minimal left i val (base128 v ++ t) = (.error bad, rest) := by
  induction left generalizing i val v with
  | zero => exact ⟨_, rfl⟩
  | succ left ih =>
    have hpow : 128 ^ (left + 1) = 128 ^ left * 128 := Nat.pow_succ 128 left
    have hone : 1 ≤ 128 ^ left := Nat.one_le_two_pow.trans (Nat.pow_le_pow_left (by omega) left)
    have hge : 128 ≤ v := by omega
    have hdiv : 128 ^ left ≤ v / 128 := by
      rw [Nat.le_div_iff_mul_le (by omega), ← hpow]
      exact hv
    rw [base128_of_ge hge, List.cons_append, readBase128_more (by rw [toNat_more]; omega)]
    exact ih hdiv

/-- What is read has the bounds of what could be written in as many bytes. -/
theorem takes_readBase128 {n : ℕ} (hn : left ≤ n) (hval : val < 128 ^ i) :
    Takes n (fun a k => a.2 = i + k ∧ 0 < k ∧ k ≤ left ∧ a.1 < 128 ^ (i + k))
      (readBase128 eof bad minimal left i val) := by
  induction left generalizing n i val with
  | zero => exact Takes.throw
  | succ left ih =>
    have hstep : ∀ d, d < 128 → val + d * 128 ^ i < 128 ^ (i + 1) := by
      intro d hd
      have hmul : (d + 1) * 128 ^ i ≤ 128 * 128 ^ i := Nat.mul_le_mul_right _ hd
      have hexp : (d + 1) * 128 ^ i = d * 128 ^ i + 128 ^ i := by ring
      omega
    refine (takes_next (by omega)).bind fun b k hk _ => ?_
    subst hk
    split
    · refine (ih (by omega) (hstep _ (Nat.mod_lt _ (by omega)))).mono (Nat.le_refl _) ?_
      rintro a j ⟨hsize, hpos, hle, hlt⟩
      have hidx : i + (1 + j) = i + 1 + j := by omega
      rw [hidx]
      exact ⟨hsize, by omega, by omega, hlt⟩
    · refine Takes.after_failIf fun _ => Takes.pure ⟨rfl, by omega, by omega, hstep _ (by omega)⟩

end Reading

end SharkMqtt.Lib
