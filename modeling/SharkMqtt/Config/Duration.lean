import Mathlib.Algebra.Group.Nat.Defs
import Mathlib.Algebra.Group.Int.Defs
import Mathlib.Data.List.DropRight
import SharkMqtt.Protocol.Topic

/-!
# Durations in the configuration

`config/duration.go`. A bare number stands for seconds. As a string and as a JSON number it is
multiplied in 64 bits, so one that fits an `int64` while its nanoseconds do not is taken for
another duration without an error (`bare_exact_iff`, `large_number_wraps`). The forms agree.
-/

namespace SharkMqtt.Config

def isSpace (b : UInt8) : Bool := b = 0x20 || b = 0x09 || b = 0x0A || b = 0x0D

def trimSpace (s : Str) : Str := (s.dropWhile isSpace).rdropWhile isSpace

def minus : UInt8 := 0x2D

def plus : UInt8 := 0x2B

def unsigned : Str → Str
  | [] => []
  | b :: rest => if b = minus ∨ b = plus then rest else b :: rest

def isBareNumber (s : Str) : Bool :=
  unsigned s ≠ [] && (unsigned s).all fun b => 0x30 ≤ b && b ≤ 0x39

def number (s : Str) : ℤ :=
  let n : ℕ := (unsigned s).foldl (fun n b => n * 10 + (b.toNat - 0x30)) 0
  if s.head? = some minus then -n else n

abbrev InInt64 (x : ℤ) : Prop := -2 ^ 63 ≤ x ∧ x < 2 ^ 63

/-- `strconv.ParseInt(s, 10, 64)`, which takes what `isBareNumber` describes. -/
def parseInt (s : Str) : Option ℤ :=
  if isBareNumber s ∧ InInt64 (number s) then some (number s) else none

def second : ℤ := 1000000000

def seconds (n : ℤ) : ℤ := (n * second).bmod (2 ^ 64)

inductive DurationError where
  | number (s : Str)
  | duration (s : Str)
  | json
deriving DecidableEq

/-- `std` is `time.ParseDuration`. -/
def parseDuration (std : Str → Option ℤ) (s : Str) : Except DurationError ℤ :=
  let s := trimSpace s
  if s = [] then .ok 0
  else if isBareNumber s then
    match parseInt s with
    | none => .error (.number s)
    | some n => .ok (seconds n)
  else
    match std s with
    | none => .error (.duration s)
    | some d => .ok d

/-- What the JSON decoder finds: a string without its quotes, a number as it is written. -/
inductive JsonValue where
  | null
  | string (s : Str)
  | number (literal : Str)
  | other

def unmarshalJSON (std : Str → Option ℤ) : JsonValue → Except DurationError ℤ
  | .null => .ok 0
  | .string s => parseDuration std s
  | .number literal =>
    match parseInt literal with
    | none => .error .json
    | some n => .ok (seconds n)
  | .other => .error .json

/-- The text is a bare number, and the number is `n`. -/
structure Writes (text : Str) (n : ℤ) : Prop where
  bare : isBareNumber text = true
  value : number text = n

variable {text : Str} {n : ℤ}

theorem Writes.parseInt_eq (h : Writes text n) :
    parseInt text = if InInt64 n then some n else none := by
  unfold parseInt
  simp only [h.bare, h.value, true_and]

theorem seconds_eq_iff : seconds n = n * second ↔ InInt64 (n * second) := by
  unfold seconds
  rw [Int.bmod_def]
  generalize n * second = x
  split_ifs <;> omega

theorem Writes.parseDuration_eq (std : Str → Option ℤ) {s : Str} (h : Writes (trimSpace s) n) :
    parseDuration std s =
      if InInt64 n then .ok (seconds n) else .error (.number (trimSpace s)) := by
  have hne : trimSpace s ≠ [] := by
    intro hnil
    have hbare := h.bare
    rw [hnil] at hbare
    cases hbare
  unfold parseDuration
  simp only [if_neg hne, h.bare, if_true, h.parseInt_eq]
  split_ifs <;> rfl

/-- **A bare number is that many seconds** or an error, exactly if it does not fit an `int64`
or its nanoseconds do. As a string and in JSON it gives the same duration in every case. -/
theorem bare_exact_iff (std : Str → Option ℤ) (n : ℤ) (s literal : Str)
    (hs : Writes (trimSpace s) n) (hliteral : Writes literal n) :
    ((∀ d, parseDuration std s = .ok d → d = n * second) ↔
      (InInt64 n → InInt64 (n * second))) ∧
    unmarshalJSON std (.string s) = parseDuration std s ∧
    ∀ d, unmarshalJSON std (.number literal) = .ok d ↔ parseDuration std s = .ok d := by
  have hnumber : unmarshalJSON std (.number literal) =
      if InInt64 n then .ok (seconds n) else .error .json := by
    show (match parseInt literal with | none => _ | some n => _) = _
    rw [hliteral.parseInt_eq]
    split_ifs <;> rfl
  refine ⟨?_, rfl, fun d => ?_⟩
  · rw [hs.parseDuration_eq std]
    split_ifs with hn
    · rw [← seconds_eq_iff]
      constructor
      · exact fun h _ => h _ rfl
      · rintro h d ⟨⟩
        exact h hn
    · exact ⟨fun _ h => absurd h hn, nofun⟩
  · rw [hs.parseDuration_eq std, hnumber]
    split_ifs
    · rfl
    · exact ⟨nofun, nofun⟩

/-- Half a minute. -/
theorem bare_exact_iff_thirty :
    Writes (trimSpace (ascii " 30")) 30 ∧
      ∀ d, parseDuration (fun _ => none) (ascii " 30") = .ok d → d = 30 * second := by
  have hs : Writes (trimSpace (ascii " 30")) 30 := ⟨by decide, by decide⟩
  refine ⟨hs, (bare_exact_iff (fun _ => none) 30 _ (ascii "30") hs ?_).1.mpr (by decide)⟩
  exact ⟨by decide, by decide⟩

/-- Some 292 years, and a negative duration in each form. -/
theorem large_number_wraps :
    parseDuration (fun _ => none) (ascii "9223372037") = .ok (-9223372036709551616) ∧
      unmarshalJSON (fun _ => none) (.number (ascii "9223372037")) =
        .ok (-9223372036709551616) := by
  decide

end SharkMqtt.Config
