import SharkMqtt.Broker.Retained
import SharkMqtt.Lib.Glob

/-!
# The Redis store of retained messages

`store/redis/retained_store.go`. `MatchRetained` turns the filter into a glob pattern
(`topicPatternToRedis`), has Redis list the keys that match it, and filters what is stored
under them with `MatchTopic`. Nothing is lost that way as long as the key of every topic
that matches the filter matches the pattern.

Both wildcards become `*`, and the `/` before a `#` stays. A `#` matches its parent level
too, but `a/*` does not match `a`: a topic with fewer levels than the filter is not found
(`matchRetained_iff_deep`).

How Redis reads a pattern is `parsePattern`. `SCAN` lists each key that matches, in any
order and perhaps more than once (`Scans`). A record is read back as it was written.
-/

namespace SharkMqtt.Store.RedisRetained

open Protocol Lib
open Broker (RetainedMessage)

/-! ## Patterns of Redis -/

def asterisk : UInt8 := 0x2A
def question : UInt8 := 0x3F
def openBracket : UInt8 := 0x5B
def closeBracket : UInt8 := 0x5D
def backslash : UInt8 := 0x5C
def caret : UInt8 := 0x5E
def dash : UInt8 := 0x2D

mutual

/-- A backslash makes the next byte literal; a last one is literal itself. -/
def parsePattern : Str → List (Piece UInt8)
  | [] => []
  | b :: rest =>
    if b = asterisk then .star :: parsePattern rest
    else if b = question then .any :: parsePattern rest
    else if b = openBracket then
      match rest with
      | [] => [.cls false []]
      | c :: rest' => if c = caret then parseClass true [] rest' else parseClass false [] (c :: rest')
    else if b = backslash then
      match rest with
      | [] => [.lit b]
      | c :: rest' => .lit c :: parsePattern rest'
    else .lit b :: parsePattern rest

/-- The rest of a class; one that is not closed ends with the pattern. -/
def parseClass (negated : Bool) (ranges : List (UInt8 × UInt8)) : Str → List (Piece UInt8)
  | [] => [.cls negated ranges]
  | b :: rest =>
    if b = closeBracket then .cls negated ranges :: parsePattern rest
    else if b = backslash then
      match rest with
      | [] => [.cls negated ((b, b) :: ranges)]
      | c :: rest' => parseClass negated ((c, c) :: ranges) rest'
    else
      match rest with
      | c :: d :: rest' =>
        if c = dash then parseClass negated ((min b d, max b d) :: ranges) rest'
        else parseClass negated ((b, b) :: ranges) (c :: d :: rest')
      | [c] => parseClass negated ((b, b) :: ranges) [c]
      | [] => [.cls negated ((b, b) :: ranges)]

end

/-! ## The store -/

structure RetainedStore where
  keyPrefix : Str
  db : AList fun _ : Str => RetainedMessage

def topicPatternToRedis : Str → Str
  | [] => []
  | b :: rest =>
    if b = hash ∨ b = plus then asterisk :: topicPatternToRedis rest
    else if b = backslash ∨ b = asterisk ∨ b = question ∨ b = openBracket then
      backslash :: b :: topicPatternToRedis rest
    else b :: topicPatternToRedis rest

def newRetainedStore (keyPrefix : Str) : RetainedStore where
  keyPrefix := if keyPrefix = [] then ascii "mqtt:retained:" else keyPrefix
  db := ∅

namespace RetainedStore

def topicKey (st : RetainedStore) (topic : Str) : Str := st.keyPrefix ++ topic

def deleteRetained (st : RetainedStore) (topic : Str) : RetainedStore :=
  { st with db := st.db.erase (st.topicKey topic) }

/-- An empty payload deletes. -/
def saveRetained (st : RetainedStore) (msg : RetainedMessage) (now : ℕ) : RetainedStore :=
  if msg.payload = [] then st.deleteRetained msg.topic
  else
    let retained := { msg with timestamp := some (msg.timestamp.getD now) }
    { st with db := st.db.insert (st.topicKey msg.topic) retained }

def redisPattern (st : RetainedStore) (pattern : Str) : List (Piece UInt8) :=
  parsePattern (st.keyPrefix ++ topicPatternToRedis pattern)

/-- `SCAN` with the pattern, all its batches. -/
def Scans (st : RetainedStore) (pattern : Str) (keys : List Str) : Prop :=
  ∀ key, key ∈ keys ↔ (st.db.lookup key).isSome ∧ globMatch (st.redisPattern pattern) key = true

/-- `MatchRetained` with the keys `SCAN` has listed. -/
def matchRetained (st : RetainedStore) (pattern : Str) (keys : List Str) : List RetainedMessage :=
  (keys.filterMap fun key => st.db.lookup key).filter fun msg => matchTopic pattern msg.topic

end RetainedStore

inductive Op where
  | save (msg : RetainedMessage) (now : ℕ)
  | delete (topic : Str)

def RetainedStore.apply (st : RetainedStore) : Op → RetainedStore
  | .save msg now => st.saveRetained msg now
  | .delete topic => st.deleteRetained topic

def run (keyPrefix : Str) (ops : List Op) : RetainedStore :=
  ops.foldl RetainedStore.apply (newRetainedStore keyPrefix)

/-! ## What the pattern means -/

/-- Free of the bytes Redis does not take for themselves. -/
def GlobFree (s : Str) : Prop :=
  ∀ b ∈ s, b ≠ asterisk ∧ b ≠ question ∧ b ≠ openBracket ∧ b ≠ backslash

instance (s : Str) : Decidable (GlobFree s) := List.decidableBAll _ s

/-- The pieces of a filter: the wildcards match any string, all else itself. -/
def filterPiece (b : UInt8) : Piece UInt8 := if b = hash ∨ b = plus then .star else .lit b

variable (s : Str) {st : RetainedStore} {keyPrefix : Str}

theorem parsePattern_asterisk : parsePattern (asterisk :: s) = .star :: parsePattern s := by
  rw [parsePattern.eq_def]
  exact if_pos rfl

theorem parsePattern_escaped (b : UInt8) (s : Str) :
    parsePattern (backslash :: b :: s) = .lit b :: parsePattern s := by
  rw [parsePattern, if_neg (by decide), if_neg (by decide), if_neg (by decide), if_pos rfl]

theorem parsePattern_plain {b : UInt8}
    (hb : b ≠ asterisk ∧ b ≠ question ∧ b ≠ openBracket ∧ b ≠ backslash) (s : Str) :
    parsePattern (b :: s) = .lit b :: parsePattern s := by
  rw [parsePattern.eq_def]
  simp only [hb.1, hb.2.1, hb.2.2.1, hb.2.2.2, if_false]

theorem parsePattern_topicPatternToRedis (f : Str) :
    parsePattern (topicPatternToRedis f) = f.map filterPiece := by
  induction f with
  | nil => rfl
  | cons b f ih =>
    rw [List.map_cons, ← ih, topicPatternToRedis, filterPiece]
    split_ifs with hwild hmeta
    · rw [parsePattern_asterisk]
    · rw [parsePattern_escaped]
    · rw [parsePattern_plain (by tauto)]

theorem parsePattern_append {p : Str} (hp : GlobFree p) (s : Str) :
    parsePattern (p ++ s) = p.map .lit ++ parsePattern s := by
  induction p with
  | nil => rfl
  | cons b p ih =>
    have hrest : GlobFree p := fun c hc => hp c (List.mem_cons_of_mem b hc)
    rw [List.cons_append, List.map_cons, List.cons_append, ← ih hrest,
      parsePattern_plain (hp b List.mem_cons_self)]

/-- The beginning of a key is matched by the prefix of the pattern. -/
theorem topicKey_mem_iff (hpre : GlobFree st.keyPrefix) (f t : Str) :
    globMatch (st.redisPattern f) (st.topicKey t) = true ↔ t ∈ globLang (f.map filterPiece) := by
  unfold RetainedStore.redisPattern RetainedStore.topicKey
  rw [globMatch_iff, parsePattern_append hpre, parsePattern_topicPatternToRedis, mem_literal_append]
  simp

/-! ## Filters and topics by levels -/

theorem joinLevels_cons_cons (p q : Str) (ps : List Str) :
    joinLevels (p :: q :: ps) = p ++ slash :: joinLevels (q :: ps) := by
  unfold joinLevels
  simp

theorem joinLevels_singleton (p : Str) : joinLevels [p] = p := by simp [joinLevels]

theorem self_mem_filterPieces : s ∈ globLang (s.map filterPiece) := by
  induction s with
  | nil => exact Set.mem_singleton []
  | cons b s ih =>
    rw [List.map_cons]
    unfold filterPiece
    split_ifs
    · exact mem_star_cons.mpr ⟨s, List.suffix_cons b s, ih⟩
    · exact mem_lit_cons.mpr ⟨s, rfl, ih⟩

theorem any_mem_star : s ∈ globLang [Piece.star] :=
  mem_star_cons.mpr ⟨[], List.nil_suffix, Set.mem_singleton []⟩

theorem level_mem {p t : Str} (h : p = t ∨ p = plusLevel) : t ∈ globLang (p.map filterPiece) := by
  rcases h with rfl | rfl
  · exact self_mem_filterPieces p
  · exact any_mem_star t

/-- With `#` in the last place only, a topic that matches level by level matches the
pieces, unless `#` stands for no level at all. -/
theorem mem_of_matchLevels : ∀ {ps ts : List Str}, ps ≠ [] →
    (∀ pre post, ps = pre ++ hashLevel :: post → post = []) →
    matchLevels ps ts = true → ps.length ≤ ts.length →
    joinLevels ts ∈ globLang ((joinLevels ps).map filterPiece)
  | [], _, hne, _, _, _ => absurd rfl hne
  | [p], ts, _, _, hmatch, hlen => by
    by_cases hhash : p = hashLevel
    · subst hhash
      exact any_mem_star (joinLevels ts)
    · cases ts with
      | nil => simp at hlen
      | cons t ts =>
        obtain ⟨hp, hrest⟩ := (matchLevels_cons_cons hhash _ _ _).mp hmatch
        obtain rfl := List.isEmpty_iff.mp hrest
        rw [joinLevels_singleton, joinLevels_singleton]
        exact level_mem hp
  | p :: q :: ps, ts, _, hlast, hmatch, hlen => by
    have hhash : p ≠ hashLevel := by
      rintro rfl
      cases hlast [] (q :: ps) rfl
    cases ts with
    | nil => simp at hlen
    | cons t ts =>
      obtain ⟨hp, hrest⟩ := (matchLevels_cons_cons hhash _ _ _).mp hmatch
      have hmem := mem_of_matchLevels (List.cons_ne_nil q ps)
        (fun pre post h => hlast (p :: pre) post (by rw [h, List.cons_append])) hrest
        (Nat.le_of_succ_le_succ hlen)
      cases ts with
      | nil => simp at hlen
      | cons u us =>
        rw [joinLevels_cons_cons, List.map_append]
        exact append_mem_globLang (level_mem hp) (mem_lit_cons.mpr ⟨_, rfl, hmem⟩)

theorem count_slash_le {f t : Str} (h : t ∈ globLang (f.map filterPiece)) :
    f.count slash ≤ t.count slash := by
  refine le_trans (le_of_eq ?_) (countP_le_count slash h)
  rw [List.countP_map]
  apply List.countP_congr
  intro b _
  by_cases hb : b = slash
  · subst hb
    decide
  · by_cases hwild : b = hash ∨ b = plus
    · simp [filterPiece, hb, hwild]
    · simp [filterPiece, hb, hwild]

theorem length_splitTopic : (splitTopic s).length = s.count slash + 1 := by
  rw [splitTopic_eq_splitOn]
  induction s with
  | nil => rfl
  | cons b s ih =>
    rw [List.splitOn_cons_eq_if_modifyHead]
    by_cases hb : b = slash
    · simp [hb, ih]
    · simp [hb, ih]

theorem matchTopic_mem_iff {f t : Str} (hvalid : validateTopicFilter f = true)
    (hmatch : matchTopic f t = true) :
    t ∈ globLang (f.map filterPiece) ↔ (splitTopic f).length ≤ (splitTopic t).length := by
  constructor
  · intro hmem
    rw [length_splitTopic, length_splitTopic]
    exact Nat.succ_le_succ (count_slash_le hmem)
  · intro hlen
    rw [matchTopic_eq] at hmatch
    have hmem := mem_of_matchLevels (splitTopic_ne_nil f)
      (fun _ _ h => validateTopicFilter_hash_last hvalid h) hmatch hlen
    rwa [joinLevels_splitTopic, joinLevels_splitTopic] at hmem

/-! ## Histories -/

def RetainedStore.Holds (st : RetainedStore) (m : RetainedMessage) : Prop :=
  st.db.lookup (st.topicKey m.topic) = some m

/-- Each record is under the key of its topic. -/
structure Inv (keyPrefix : Str) (st : RetainedStore) : Prop where
  keyPrefix_eq : st.keyPrefix = keyPrefix
  filed : ∀ key m, st.db.lookup key = some m → key = st.topicKey m.topic

theorem inv_new (keyPrefix : Str) :
    Inv (newRetainedStore keyPrefix).keyPrefix (newRetainedStore keyPrefix) where
  keyPrefix_eq := rfl
  filed := by
    intro key m h
    cases h

theorem Inv.delete (h : Inv keyPrefix st) (topic : Str) :
    Inv keyPrefix (st.deleteRetained topic) where
  keyPrefix_eq := h.keyPrefix_eq
  filed := by
    intro key m hm
    unfold RetainedStore.deleteRetained at hm
    by_cases hkey : key = st.topicKey topic
    · rw [hkey, AList.lookup_erase] at hm
      cases hm
    · rw [AList.lookup_erase_ne hkey] at hm
      exact h.filed key m hm

theorem Inv.save (h : Inv keyPrefix st) (msg : RetainedMessage) (now : ℕ) :
    Inv keyPrefix (st.saveRetained msg now) := by
  unfold RetainedStore.saveRetained
  split_ifs
  · exact h.delete msg.topic
  · refine ⟨h.keyPrefix_eq, ?_⟩
    intro key m hm
    by_cases hkey : key = st.topicKey msg.topic
    · rw [hkey, AList.lookup_insert, Option.some.injEq] at hm
      rw [← hm]
      exact hkey
    · rw [AList.lookup_insert_ne hkey] at hm
      exact h.filed key m hm

theorem inv_run (keyPrefix : Str) (ops : List Op) :
    Inv (newRetainedStore keyPrefix).keyPrefix (run keyPrefix ops) := by
  induction ops using List.reverseRecOn with
  | nil => exact inv_new keyPrefix
  | append_singleton ops op ih =>
    unfold run at ih ⊢
    rw [List.foldl_append]
    cases op with
    | save msg now => exact ih.save msg now
    | delete topic => exact ih.delete topic

theorem globFree_newRetainedStore (h : GlobFree keyPrefix) :
    GlobFree (newRetainedStore keyPrefix).keyPrefix := by
  unfold newRetainedStore
  split_ifs
  · decide +kernel
  · exact h

theorem Inv.mem_matchRetained {f : Str} {keys : List Str} {m : RetainedMessage}
    (h : Inv keyPrefix st) :
    m ∈ st.matchRetained f keys ↔
      st.Holds m ∧ st.topicKey m.topic ∈ keys ∧ matchTopic f m.topic = true := by
  unfold RetainedStore.matchRetained
  rw [List.mem_filter, List.mem_filterMap]
  constructor
  · rintro ⟨⟨key, hkey, hm⟩, hmatch⟩
    obtain rfl := h.filed key m hm
    exact ⟨hm, hkey, hmatch⟩
  · rintro ⟨hm, hkey, hmatch⟩
    exact ⟨⟨st.topicKey m.topic, hkey, hm⟩, hmatch⟩

/-- A stored topic that matches a valid filter is found by the pattern exactly when it has
as many levels as the filter, and `MatchRetained` returns what filtering all stored
messages would return exactly when all of them have. -/
theorem matchRetained_iff_deep (keyPrefix : Str) (ops : List Op) (f : Str) (keys : List Str)
    (hpre : GlobFree keyPrefix) (hvalid : validateTopicFilter f = true)
    (hscan : (run keyPrefix ops).Scans f keys) :
    (∀ m, (run keyPrefix ops).Holds m → matchTopic f m.topic = true →
      (globMatch ((run keyPrefix ops).redisPattern f) ((run keyPrefix ops).topicKey m.topic) = true
        ↔ (splitTopic f).length ≤ (splitTopic m.topic).length)) ∧
    ((∀ m, m ∈ (run keyPrefix ops).matchRetained f keys ↔
        (run keyPrefix ops).Holds m ∧ matchTopic f m.topic = true) ↔
      ∀ m, (run keyPrefix ops).Holds m → matchTopic f m.topic = true →
        (splitTopic f).length ≤ (splitTopic m.topic).length) := by
  have hinv := inv_run keyPrefix ops
  have hfree : GlobFree (run keyPrefix ops).keyPrefix := by
    rw [hinv.keyPrefix_eq]
    exact globFree_newRetainedStore hpre
  have hfound : ∀ m : RetainedMessage, matchTopic f m.topic = true →
      (globMatch ((run keyPrefix ops).redisPattern f) ((run keyPrefix ops).topicKey m.topic) = true
        ↔ (splitTopic f).length ≤ (splitTopic m.topic).length) := by
    intro m hmatch
    rw [topicKey_mem_iff hfree]
    exact matchTopic_mem_iff hvalid hmatch
  refine ⟨fun m _ => hfound m, ?_⟩
  constructor
  · intro hall m hm hmatch
    have hkey := (hinv.mem_matchRetained.mp ((hall m).mpr ⟨hm, hmatch⟩)).2.1
    exact (hfound m hmatch).mp ((hscan _).mp hkey).2
  · intro hdeep m
    rw [hinv.mem_matchRetained]
    constructor
    · rintro ⟨hm, -, hmatch⟩
      exact ⟨hm, hmatch⟩
    · rintro ⟨hm, hmatch⟩
      refine ⟨hm, (hscan _).mpr ⟨?_, (hfound m hmatch).mpr (hdeep m hm hmatch)⟩, hmatch⟩
      rw [hm]
      rfl

def retainedOn (topic : Str) : RetainedMessage where
  topic := topic
  qos := 0
  payload := [1]
  timestamp := some 0
  properties := {}
  expiresAt := none

theorem matchRetained_iff_deep_child :
    (run [] [.save (retainedOn (ascii "a/b")) 0]).Scans (ascii "a/#")
        [ascii "mqtt:retained:a/b"] ∧
      ∀ m, m ∈ (run [] [.save (retainedOn (ascii "a/b")) 0]).matchRetained (ascii "a/#")
          [ascii "mqtt:retained:a/b"] ↔
        (run [] [.save (retainedOn (ascii "a/b")) 0]).Holds m ∧
          matchTopic (ascii "a/#") m.topic = true := by
  have hone : ∀ key m, (run [] [.save (retainedOn (ascii "a/b")) 0]).db.lookup key = some m →
      key = ascii "mqtt:retained:a/b" ∧ m = retainedOn (ascii "a/b") := by
    intro key m hm
    have hmem := AList.mem_lookup_iff.mp hm
    obtain ⟨hkey, heq⟩ := Sigma.mk.inj (List.mem_singleton.mp hmem)
    exact ⟨hkey, eq_of_heq heq⟩
  have hscan : (run [] [.save (retainedOn (ascii "a/b")) 0]).Scans (ascii "a/#")
      [ascii "mqtt:retained:a/b"] := by
    intro key
    rw [List.mem_singleton]
    constructor
    · rintro rfl
      decide +kernel
    · rintro ⟨hsome, -⟩
      obtain ⟨m, hm⟩ := Option.isSome_iff_exists.mp hsome
      exact (hone key m hm).1
  refine ⟨hscan, ?_⟩
  refine ((matchRetained_iff_deep [] [.save (retainedOn (ascii "a/b")) 0] (ascii "a/#")
    [ascii "mqtt:retained:a/b"] (by decide +kernel) (by decide +kernel) hscan).2).mpr ?_
  intro m hm _
  rw [(hone _ m hm).2]
  decide

/-- `a` matches `a/#`, and no list of keys that match `a/*` has its key. -/
theorem parent_topic_not_found :
    validateTopicFilter (ascii "a/#") = true ∧ matchTopic (ascii "a/#") (ascii "a") = true ∧
      (run [] [.save (retainedOn (ascii "a")) 0]).Holds (retainedOn (ascii "a")) ∧
      ∀ keys, (run [] [.save (retainedOn (ascii "a")) 0]).Scans (ascii "a/#") keys →
        retainedOn (ascii "a") ∉
          (run [] [.save (retainedOn (ascii "a")) 0]).matchRetained (ascii "a/#") keys := by
  refine ⟨by decide, by decide, rfl, ?_⟩
  intro keys hscan hmem
  have hkey := ((inv_run [] _).mem_matchRetained.mp hmem).2.1
  have hglob := ((hscan _).mp hkey).2
  revert hglob
  decide +kernel

end SharkMqtt.Store.RedisRetained
