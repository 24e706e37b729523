import SharkMqtt.Protocol.Topic

/-!
# Access control lists

`aclCovers` (`broker/auth.go`) decides whether an entry of an access control list covers
what a client asks for: the topic of a PUBLISH, or the filter of a SUBSCRIBE. A filter is
covered when the entry matches every topic that the filter does, so that a subscription
never delivers more than its entry allows.
-/

namespace SharkMqtt.Broker

open Protocol

/-- The loop of `aclCovers`, on the levels that are left. -/
def coversLevels : List Str → List Str → Bool
  | [], rp => rp.isEmpty
  | a :: ap, rp =>
    if a = hashLevel then true
    else match rp with
      | [] => false
      | r :: rp =>
        if r = hashLevel then false
        else if r = plusLevel then
          if a ≠ plusLevel then false else coversLevels ap rp
        else if a ≠ plusLevel ∧ a ≠ r then false
        else coversLevels ap rp

def aclCovers (aclPattern requested : Str) : Bool :=
  let ap := splitTopic aclPattern
  let rp := splitTopic requested
  if ap = [] then false
  else if startsWithDollar (firstLevel rp) ∧
      (firstLevel ap = plusLevel ∨ firstLevel ap = hashLevel) then false
  else coversLevels ap rp

variable {p r t : Str}

theorem aclCovers_iff : aclCovers p r = true ↔
    coversLevels (splitTopic p) (splitTopic r) = true ∧
      (startsWithDollar (firstLevel (splitTopic r)) = true →
        firstLevel (splitTopic p) ≠ hashLevel ∧ firstLevel (splitTopic p) ≠ plusLevel) := by
  unfold aclCovers
  simp only [splitTopic_ne_nil, if_false]
  split_ifs with hroot
  · tauto
  · tauto

/-- Inclusion, level by level. -/
theorem matchLevels_of_coversLevels {ap rp ts : List Str} (hc : coversLevels ap rp = true)
    (hm : matchLevels rp ts = true) : matchLevels ap ts = true := by
  induction ap generalizing rp ts with
  | nil =>
    obtain rfl := List.isEmpty_iff.mp hc
    exact hm
  | cons a ap ih =>
    unfold coversLevels at hc
    unfold matchLevels
    by_cases ha : a = hashLevel
    · rw [if_pos ha]
    · rw [if_neg ha] at hc ⊢
      cases rp with
      | nil => cases hc
      | cons l rp =>
        cases ts with
        | nil => simp_all [matchLevels]
        | cons u ts =>
          simp only [matchLevels] at hm hc ⊢
          -- only `+` covers `+`, and a level that is no wildcard is the topic's own
          split_ifs at hc hm with hhash hplus ha' hne <;> grind

/-- A request that is a topic is covered when it is matched. -/
theorem coversLevels_eq_matchLevels {ap ts : List Str}
    (h : ∀ l ∈ ts, l ≠ hashLevel ∧ l ≠ plusLevel) : coversLevels ap ts = matchLevels ap ts := by
  induction ap generalizing ts with
  | nil => rfl
  | cons a ap ih =>
    unfold coversLevels matchLevels
    cases ts with
    | nil => rfl
    | cons u ts =>
      obtain ⟨⟨hhash, hplus⟩, hrest⟩ := List.forall_mem_cons.mp h
      simp only [hhash, hplus, if_false, ih hrest]
      split_ifs <;> tauto

theorem firstLevel_of_matchLevels (hm : matchLevels (splitTopic r) (splitTopic t) = true)
    (hhash : firstLevel (splitTopic r) ≠ hashLevel)
    (hplus : firstLevel (splitTopic r) ≠ plusLevel) :
    firstLevel (splitTopic r) = firstLevel (splitTopic t) := by
  obtain ⟨l, ls, hl⟩ := List.exists_cons_of_ne_nil (splitTopic_ne_nil r)
  obtain ⟨u, us, hu⟩ := List.exists_cons_of_ne_nil (splitTopic_ne_nil t)
  rw [hl, firstLevel_cons] at hhash hplus ⊢
  rw [hu, firstLevel_cons]
  rw [hl, hu, matchLevels_cons_cons hhash] at hm
  exact hm.1.resolve_right hplus

/-- An entry matches whatever a filter it covers does, and covers exactly the topics it
matches. -/
theorem aclCovers_spec (p : Str) :
    (∀ r, aclCovers p r = true →
      ∀ t, matchSysProtected r t = true → matchSysProtected p t = true) ∧
    ∀ t, validatePublishTopic t = true →
      (aclCovers p t = true ↔ matchSysProtected p t = true) := by
  refine ⟨fun r hc t hm => ?_, fun t ht => ?_⟩
  · obtain ⟨hlevels, hroot⟩ := aclCovers_iff.mp hc
    obtain ⟨hmatch, hsys⟩ := (matchSysProtected_iff r t).mp hm
    refine (matchSysProtected_iff p t).mpr
      ⟨matchLevels_of_coversLevels hlevels hmatch, fun hdollar => hroot ?_⟩
    obtain ⟨hhash, hplus⟩ := hsys hdollar
    rw [firstLevel_of_matchLevels hmatch hhash hplus]
    exact hdollar
  · rw [aclCovers_iff, matchSysProtected_iff,
      coversLevels_eq_matchLevels fun l hl => validatePublishTopic_levels ht hl]

theorem aclCovers_spec_sport :
    aclCovers (ascii "sport/#") (ascii "sport/+") = true ∧
      matchSysProtected (ascii "sport/#") (ascii "sport/a") = true ∧
      aclCovers (ascii "sport/#") (ascii "sport") = true := by
  have hspec := aclCovers_spec (ascii "sport/#")
  have hcovers : aclCovers (ascii "sport/#") (ascii "sport/+") = true := by decide
  exact ⟨hcovers, hspec.1 _ hcovers (ascii "sport/a") (by decide),
    (hspec.2 (ascii "sport") (by decide)).mpr (by decide)⟩

example : aclCovers (ascii "a/+") (ascii "a/#") = false := by decide

end SharkMqtt.Broker
