import Mathlib.Data.List.Sigma

/-!
# Topic names and topic filters

`protocol/topic.go` together with the pure string helpers of
`broker/topic_tree.go` (`matchSysProtected`, `IsSharedSubscription`,
`ParseSharedFilter`). A Go `string` is a sequence of bytes, so topics, filters
and client identifiers are byte lists here; every comparison in the source is
a byte comparison.

`SplitTopic` (a hand-written loop) and `strings.Split(_, "/")` (used by
`MatchTopic`) are two functions in the source. They are kept apart and proved
equal (`splitTopic_eq_splitOn`), so the rest of the development works with one
list of levels.
-/

namespace SharkMqtt

/-- A Go `string`. -/
abbrev Str := List UInt8

instance : LawfulBEq Str := inferInstance

/-- An ASCII string literal as its bytes. -/
def ascii (s : String) : Str := s.toList.map (fun c => UInt8.ofNat c.toNat)

namespace Protocol

def slash : UInt8 := 0x2F
def hash : UInt8 := 0x23
def plus : UInt8 := 0x2B
def dollar : UInt8 := 0x24

def hashLevel : Str := [hash]

def plusLevel : Str := [plus]

/-! ## Validation -/

def validatePublishTopic (topic : Str) : Bool :=
  if topic = [] then false
  else topic.all (fun b => !(b == hash || b == plus))

/-- The loop of `ValidateTopicFilter`; `prev` is `filter[i-1]`. -/
def validateTopicFilterFrom (prev : Option UInt8) : Str → Bool
  | [] => true
  | b :: rest =>
    if b = hash then
      if rest ≠ [] then false
      else if prev.any (· != slash) then false
      else validateTopicFilterFrom (some b) rest
    else if b = plus then
      if prev.any (· != slash) then false
      else if rest.head?.any (· != slash) then false
      else validateTopicFilterFrom (some b) rest
    else validateTopicFilterFrom (some b) rest

def validateTopicFilter (filter : Str) : Bool :=
  if filter = [] then false else validateTopicFilterFrom none filter

/-! ## Levels -/

/-- The loop of `SplitTopic`; `cur` is `topic[start:i]`. -/
def splitTopicFrom (cur : Str) : Str → List Str
  | [] => [cur]
  | b :: rest =>
    if b = slash then cur :: splitTopicFrom [] rest
    else splitTopicFrom (cur ++ [b]) rest

def splitTopic (topic : Str) : List Str := splitTopicFrom [] topic

/-- Levels joined back with `/`. -/
def joinLevels (levels : List Str) : Str := [slash].intercalate levels

/-- The loop of `matchLevels`, on the levels that are left. Running out of
pattern accepts exactly when the topic ran out with it. -/
def matchLevels : List Str → List Str → Bool
  | [], ts => ts.isEmpty
  | p :: ps, ts =>
    if p = hashLevel then true
    else match ts with
      | [] => false
      | t :: ts =>
        if p = plusLevel then matchLevels ps ts
        else if p ≠ t then false
        else matchLevels ps ts

theorem matchLevels_cons_cons {p : Str} (h : p ≠ hashLevel) (ps ts : List Str) (t : Str) :
    matchLevels (p :: ps) (t :: ts) = true ↔
      (p = t ∨ p = plusLevel) ∧ matchLevels ps ts = true := by
  rw [matchLevels, if_neg h]
  by_cases hplus : p = plusLevel
  · simp [hplus]
  · simp [hplus]

/-- `MatchTopic`: both strings go through `strings.Split(_, "/")`. -/
def matchTopic (pattern topic : Str) : Bool :=
  matchLevels (pattern.splitOn slash) (topic.splitOn slash)

/-! ## `SplitTopic` is `strings.Split` -/

variable (s : Str)

theorem splitTopicFrom_eq : ∀ cur,
    splitTopicFrom cur s = (s.splitOn slash).modifyHead (cur ++ ·) := by
  induction s with
  | nil => intro cur; simp [splitTopicFrom]
  | cons b rest ih =>
    rw [List.splitOn_cons_eq_if_modifyHead]
    by_cases hb : b = slash
    · obtain ⟨l, ls, hl⟩ := List.exists_cons_of_ne_nil (List.splitOn_ne_nil slash rest)
      simp [splitTopicFrom, hb, ih, hl]
    · obtain ⟨l, ls, hl⟩ := List.exists_cons_of_ne_nil (List.splitOn_ne_nil slash rest)
      simp [splitTopicFrom, hb, ih, hl]

theorem splitTopic_eq_splitOn : splitTopic s = s.splitOn slash := by
  rw [splitTopic, splitTopicFrom_eq]
  obtain ⟨l, ls, hl⟩ := List.exists_cons_of_ne_nil (List.splitOn_ne_nil slash s)
  simp [hl]

theorem joinLevels_splitTopic : joinLevels (splitTopic s) = s := by
  simp [joinLevels, splitTopic_eq_splitOn]

theorem splitTopic_injective : Function.Injective splitTopic := by
  intro s s' h
  rw [← joinLevels_splitTopic s, h, joinLevels_splitTopic]

theorem splitTopic_ne_nil : splitTopic s ≠ [] := by simp [splitTopic_eq_splitOn]

theorem mem_of_mem_splitTopic {s l : Str} {b : UInt8} (hl : l ∈ splitTopic s) (hb : b ∈ l) :
    b ∈ s ∧ b ≠ slash := by
  rw [splitTopic_eq_splitOn] at hl
  induction s generalizing l with
  | nil => simp_all
  | cons a rest ih =>
    rw [List.splitOn_cons_eq_if_modifyHead] at hl
    by_cases ha : a = slash
    · simp only [ha, beq_self_eq_true, if_true, List.mem_cons] at hl
      rcases hl with rfl | hl
      · simp at hb
      · exact ⟨List.mem_cons_of_mem _ (ih hl hb).1, (ih hl hb).2⟩
    · obtain ⟨k, ks, hk⟩ := List.exists_cons_of_ne_nil (List.splitOn_ne_nil slash rest)
      simp only [beq_iff_eq, ha, if_false, hk, List.modifyHead_cons, List.mem_cons] at hl
      rcases hl with rfl | hl
      · rcases List.mem_cons.mp hb with rfl | hb
        · exact ⟨List.mem_cons_self, ha⟩
        · have h := ih (l := k) (by simp [hk]) hb
          exact ⟨List.mem_cons_of_mem _ h.1, h.2⟩
      · have h := ih (l := l) (by simp [hk, hl]) hb
        exact ⟨List.mem_cons_of_mem _ h.1, h.2⟩

theorem splitTopic_joinLevels {ls : List Str} (hls : ls ≠ []) (h : ∀ l ∈ ls, slash ∉ l) :
    splitTopic (joinLevels ls) = ls := by
  rw [splitTopic_eq_splitOn]
  exact List.splitOn_intercalate slash h hls

theorem matchTopic_eq (pattern topic : Str) :
    matchTopic pattern topic = matchLevels (splitTopic pattern) (splitTopic topic) := by
  rw [matchTopic, splitTopic_eq_splitOn, splitTopic_eq_splitOn]

/-! ## What validation establishes about levels -/

/-- Where a level may stand in a filter: `+` anywhere, `#` only last, and any other level only
without a wildcard byte. -/
def WellPlaced (l : Str) (post : List Str) : Prop :=
  l = plusLevel ∨ (plus ∉ l ∧ hash ∉ l) ∨ (l = hashLevel ∧ post = [])

/-- At a separator, and at the end, the byte before does not matter. -/
theorem validateTopicFilterFrom_behind (prev : Option UInt8) {rest : Str}
    (hrest : rest.head?.any (· != slash) = false) :
    validateTopicFilterFrom prev rest = validateTopicFilterFrom (some slash) rest := by
  cases rest with
  | nil => rfl
  | cons b rest =>
    obtain rfl : b = slash := by simpa using hrest
    simp [validateTopicFilterFrom, slash, hash, plus]

/-- Past the first byte of a level no wildcard is accepted before the next `/`. -/
theorem validateTopicFilterFrom_inside {c : UInt8} (hc : c ≠ slash) {l rest : Str}
    (hl : slash ∉ l) (hrest : rest.head?.any (· != slash) = false) :
    validateTopicFilterFrom (some c) (l ++ rest) = true ↔
      (plus ∉ l ∧ hash ∉ l) ∧ validateTopicFilterFrom (some slash) rest = true := by
  induction l generalizing c with
  | nil => simp [validateTopicFilterFrom_behind (some c) hrest]
  | cons b l ih =>
    have hb := ih (List.ne_of_not_mem_cons hl).symm (List.not_mem_of_not_mem_cons hl)
    by_cases hw : b = hash ∨ b = plus
    · rcases hw with rfl | rfl
      · simp [validateTopicFilterFrom, hc]
      · simp [validateTopicFilterFrom, hc, hash, plus]
    · obtain ⟨hhash, hplus⟩ := not_or.mp hw
      rw [List.cons_append, validateTopicFilterFrom, if_neg hhash, if_neg hplus, hb]
      simp [Ne.symm hhash, Ne.symm hplus]

theorem validateTopicFilterFrom_level {prev : Option UInt8}
    (hprev : prev.any (· != slash) = false) {l : Str} (hl : slash ∉ l) (rest : Str)
    (hrest : rest.head?.any (· != slash) = false) :
    validateTopicFilterFrom prev (l ++ rest) = true ↔
      (l = plusLevel ∨ (plus ∉ l ∧ hash ∉ l) ∨ (l = hashLevel ∧ rest = [])) ∧
        validateTopicFilterFrom (some slash) rest = true := by
  cases l with
  | nil => simp [validateTopicFilterFrom_behind prev hrest]
  | cons b l =>
    have hb := validateTopicFilterFrom_inside (List.ne_of_not_mem_cons hl).symm
      (List.not_mem_of_not_mem_cons hl) hrest
    by_cases hhash : b = hash
    · subst hhash
      by_cases hnil : l ++ rest = []
      · obtain ⟨rfl, rfl⟩ := List.append_eq_nil_iff.mp hnil
        simp [validateTopicFilterFrom, hprev, hashLevel]
      · have hnot : ¬(l = [] ∧ rest = []) := by simpa using hnil
        simp [validateTopicFilterFrom, hashLevel, plusLevel, hnot, hash, plus]
    by_cases hplus : b = plus
    · subst hplus
      rw [List.cons_append, validateTopicFilterFrom, if_neg hhash, if_pos rfl, hprev]
      cases l with
      | nil => simp [hrest, validateTopicFilterFrom_behind (some plus) hrest, plusLevel]
      | cons b' l =>
        have hb' : b' ≠ slash := by
          rintro rfl
          simp at hl
        simp [hb', plusLevel, hashLevel]
    · rw [List.cons_append, validateTopicFilterFrom, if_neg hhash, if_neg hplus, hb]
      simp [plusLevel, hashLevel, hhash, hplus, Ne.symm hhash, Ne.symm hplus]

/-- The check of neighbouring bytes is a check of one level after the other. -/
theorem validateTopicFilterFrom_joinLevels {ls : List Str} (h : ∀ l ∈ ls, slash ∉ l) :
    ∀ prev : Option UInt8, prev.any (· != slash) = false →
      (validateTopicFilterFrom prev (joinLevels ls) = true ↔
        ∀ pre l post, ls = pre ++ l :: post → WellPlaced l post) := by
  induction ls with
  | nil => simp [joinLevels, validateTopicFilterFrom]
  | cons m ls ih =>
    intro prev hprev
    have hm := h m List.mem_cons_self
    have hstep : validateTopicFilterFrom prev (joinLevels (m :: ls)) = true ↔
        WellPlaced m ls ∧ validateTopicFilterFrom (some slash) (joinLevels ls) = true := by
      cases ls with
      | nil =>
        have hlevel := validateTopicFilterFrom_level hprev hm [] rfl
        simpa [joinLevels, WellPlaced] using hlevel
      | cons q ls =>
        have hlevel := validateTopicFilterFrom_level hprev hm (slash :: joinLevels (q :: ls)) rfl
        have hskip : validateTopicFilterFrom (some slash) (slash :: joinLevels (q :: ls)) =
            validateTopicFilterFrom (some slash) (joinLevels (q :: ls)) := by
          simp [validateTopicFilterFrom, slash, hash, plus]
        rw [hskip] at hlevel
        simpa [joinLevels, List.intercalate_cons_of_ne_nil, WellPlaced] using hlevel
    rw [hstep, ih (fun l hl => h l (List.mem_cons_of_mem _ hl)) _ rfl]
    constructor
    · rintro ⟨hhead, htail⟩ pre l post heq
      cases pre with
      | nil => cases heq; exact hhead
      | cons p pre => cases heq; exact htail pre l post rfl
    · intro hall
      exact ⟨hall [] m ls rfl, fun pre l post heq => hall (m :: pre) l post (by rw [heq]; rfl)⟩

theorem validateTopicFilter_iff : validateTopicFilter s = true ↔
    s ≠ [] ∧ ∀ pre l post, splitTopic s = pre ++ l :: post → WellPlaced l post := by
  have h := validateTopicFilterFrom_joinLevels
    (fun l hl hb => (mem_of_mem_splitTopic (s := s) hl hb).2 rfl) none rfl
  rw [joinLevels_splitTopic] at h
  rw [← h, validateTopicFilter]
  by_cases hs : s = [] <;> simp [hs]

/-- `SplitTopic` loses nothing, and `ValidateTopicFilter`, which looks at neighbouring bytes,
decides the rule on levels. -/
theorem levels_of_filter :
    joinLevels (splitTopic s) = s ∧
      (validateTopicFilter s = true ↔
        s ≠ [] ∧ ∀ pre l post, splitTopic s = pre ++ l :: post → WellPlaced l post) :=
  ⟨joinLevels_splitTopic s, validateTopicFilter_iff s⟩

theorem validateTopicFilter_hash_last {f : Str} (hv : validateTopicFilter f = true)
    {pre post : List Str} (h : splitTopic f = pre ++ hashLevel :: post) : post = [] := by
  rcases ((validateTopicFilter_iff f).mp hv).2 pre hashLevel post h with h | h | h
  · cases h
  · simp [hashLevel] at h
  · exact h.2

theorem validatePublishTopic_levels {t l : Str} (hv : validatePublishTopic t = true)
    (hl : l ∈ splitTopic t) : l ≠ hashLevel ∧ l ≠ plusLevel := by
  unfold validatePublishTopic at hv
  split_ifs at hv
  have hb : ∀ b ∈ t, b ≠ hash ∧ b ≠ plus := by simpa using hv
  constructor
  · rintro rfl
    exact (hb hash (mem_of_mem_splitTopic hl List.mem_cons_self).1).1 rfl
  · rintro rfl
    exact (hb plus (mem_of_mem_splitTopic hl List.mem_cons_self).1).2 rfl

end Protocol

namespace Broker

open Protocol

/-- `topic[0] == '$'` on a string that may be empty. -/
def startsWithDollar (s : Str) : Bool := s.head? == some dollar

/-- `matchSysProtected`: `MatchTopic` under the rule that a filter whose first
level is a wildcard never matches a `$` topic. -/
def matchSysProtected (pattern topic : Str) : Bool :=
  if startsWithDollar topic then
    let firstLevel := pattern.takeWhile (· != slash)
    if firstLevel = hashLevel ∨ firstLevel = plusLevel then false
    else matchTopic pattern topic
  else matchTopic pattern topic

def sharedSubPrefix : Str := ascii "$share/"

def isSharedSubscription (filter : Str) : Bool :=
  decide (sharedSubPrefix.length < filter.length) &&
    filter.take sharedSubPrefix.length == sharedSubPrefix

/-- `ParseSharedFilter`: the share name and the inner filter. -/
def parseSharedFilter (filter : Str) : Option (Str × Str) :=
  if !isSharedSubscription filter then none
  else
    let rest := filter.drop sharedSubPrefix.length
    let slashIdx := rest.findIdx (· == slash)
    -- `IndexByte` reports a missing slash as -1, `findIdx` as the length
    if slashIdx = rest.length then none
    else if slashIdx = 0 ∨ rest.length ≤ slashIdx + 1 then none
    else some (rest.take slashIdx, rest.drop (slashIdx + 1))

/-! ## `matchSysProtected` on levels -/

/-- The first of a list of levels. -/
def firstLevel : List Str → Str
  | [] => []
  | l :: _ => l

@[simp] theorem firstLevel_cons (l : Str) (ls : List Str) : firstLevel (l :: ls) = l := rfl

theorem takeWhile_slash_eq_head (s : Str) :
    s.takeWhile (· != slash) = firstLevel (splitTopic s) := by
  rw [splitTopic_eq_splitOn]
  induction s with
  | nil => rfl
  | cons b rest ih =>
    rw [List.splitOn_cons_eq_if_modifyHead]
    by_cases hb : b = slash
    · simp [hb]
    · obtain ⟨k, ks, hk⟩ := List.exists_cons_of_ne_nil (List.splitOn_ne_nil slash rest)
      simp [hb, hk, ih]

theorem startsWithDollar_eq_head (s : Str) :
    startsWithDollar s = startsWithDollar (firstLevel (splitTopic s)) := by
  rw [← takeWhile_slash_eq_head]
  cases s with
  | nil => rfl
  | cons b rest =>
    by_cases hb : b = slash
    · simp [startsWithDollar, hb, slash, dollar]
    · simp [startsWithDollar, hb]

theorem matchSysProtected_iff (p t : Str) :
    matchSysProtected p t = true ↔
      matchLevels (splitTopic p) (splitTopic t) = true ∧
        (startsWithDollar (firstLevel (splitTopic t)) = true →
          firstLevel (splitTopic p) ≠ hashLevel ∧ firstLevel (splitTopic p) ≠ plusLevel) := by
  unfold matchSysProtected
  rw [startsWithDollar_eq_head t, takeWhile_slash_eq_head, matchTopic_eq]
  by_cases hd : startsWithDollar (firstLevel (splitTopic t)) = true
  · simp only [hd, if_true, true_implies]
    split_ifs with hw
    · tauto
    · tauto
  · simp [hd]

theorem matchTopic_of_matchSysProtected {f t : Str} (h : matchSysProtected f t = true) :
    matchTopic f t = true := by
  rw [matchTopic_eq]
  exact ((matchSysProtected_iff f t).mp h).1

end Broker
end SharkMqtt
