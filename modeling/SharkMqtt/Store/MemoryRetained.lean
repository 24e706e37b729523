import SharkMqtt.Broker.Retained

/-!
# The store of retained messages in memory

`retainedStore` (`store/memory/memory.go`): a map of the messages by topic, and beside it
a trie of their levels that `MatchRetained` walks. The walk is a recursion of its own, in
which `#` takes a whole subtree and `+` every child.

After any history the trie has each message under the levels of its topic and nothing
else (`Inv`), and the walk visits the entries whose levels the filter matches in the
sense of `matchLevels` (`match_eq_select`). So `MatchRetained` returns the latest message
of each topic that matches, once (`matchRetained_exact`).
-/

namespace SharkMqtt.Store.MemoryRetained

open Protocol Lib
open Broker (RetainedMessage MessageProperties)

deriving instance DecidableEq for MessageProperties
deriving instance DecidableEq for RetainedMessage

/-! ## The index -/

abbrev RetainedTrie := Trie Str (Option RetainedMessage)

structure Found where
  result : List RetainedMessage := []
  visited : List Str := []

def Found.add (acc : Found) (msg : RetainedMessage) : Found :=
  if msg.topic ∈ acc.visited then acc
  else ⟨acc.result ++ [msg], msg.topic :: acc.visited⟩

mutual

def collectAll : RetainedTrie → Found → Found
  | .mk children msg, acc => collectChildren children (msg.elim acc acc.add)

def collectChildren : List (Σ _ : Str, RetainedTrie) → Found → Found
  | [], acc => acc
  | ⟨_, child⟩ :: rest, acc => collectChildren rest (collectAll child acc)

end

/-- `match`, on the levels that are left. -/
def matchNode (n : RetainedTrie) (parts : List Str) (acc : Found) : Found :=
  match parts with
  | [] => n.value.elim acc acc.add
  | part :: rest =>
    if part = hashLevel then collectAll n acc
    else if part = plusLevel then n.children.foldl (fun acc s => matchNode s.2 rest acc) acc
    else
      match n.children.dlookup part with
      | none => acc
      | some child => matchNode child rest acc

/-! ## The store -/

structure RetainedStore where
  messages : Keyed RetainedMessage.topic
  index : RetainedTrie

def newRetainedStore : RetainedStore := ⟨∅, Trie.empty⟩

def stamped (msg : RetainedMessage) (now : ℕ) : RetainedMessage :=
  { msg with timestamp := some (msg.timestamp.getD now) }

namespace RetainedStore

def deleteRetained (r : RetainedStore) (topic : Str) : RetainedStore where
  messages := r.messages.erase topic
  index := (r.index.prune Option.isNone (fun _ => none) (topic.splitOn slash)).1

/-- An empty payload deletes. -/
def saveRetained (r : RetainedStore) (msg : RetainedMessage) (now : ℕ) : RetainedStore :=
  if msg.payload = [] then r.deleteRetained msg.topic
  else
    { messages := r.messages.insert (stamped msg now)
      index := r.index.update (fun _ => some (stamped msg now)) (msg.topic.splitOn slash) }

def matchRetained (r : RetainedStore) (pattern : Str) : List RetainedMessage :=
  if r.messages.size = 0 then []
  else (matchNode r.index (pattern.splitOn slash) {}).result

end RetainedStore

inductive Op where
  | save (msg : RetainedMessage) (now : ℕ)
  | delete (topic : Str)

def RetainedStore.apply (r : RetainedStore) : Op → RetainedStore
  | .save msg now => r.saveRetained msg now
  | .delete topic => r.deleteRetained topic

def run (ops : List Op) : RetainedStore := ops.foldl RetainedStore.apply newRetainedStore

/-- What a call makes of the message of each topic. -/
def record (m : Str → Option RetainedMessage) : Op → Str → Option RetainedMessage
  | .save msg now => fun topic =>
    if topic = msg.topic then
      if msg.payload = [] then none
      else some (stamped msg now)
    else m topic
  | .delete topic' => fun topic => if topic = topic' then none else m topic

/-- The message saved last for a topic, unless it was deleted since. -/
def latest (ops : List Op) : Str → Option RetainedMessage := ops.foldl record fun _ => none

/-! ## The index has the messages -/

theorem splitOn_injective : Function.Injective fun s : Str => s.splitOn slash := by
  intro s s' h
  apply splitTopic_injective
  rw [splitTopic_eq_splitOn, splitTopic_eq_splitOn]
  exact h

structure Inv (m : Str → Option RetainedMessage) (r : RetainedStore) : Prop where
  wf : r.index.WF
  lookup : ∀ topic, r.messages.lookup topic = m topic
  indexed : ∀ topic, r.index.get (topic.splitOn slash) = m topic
  only : ∀ path msg, r.index.get path = some msg → path = msg.topic.splitOn slash

theorem inv_new : Inv (fun _ => none) newRetainedStore where
  wf := Trie.wf_empty
  lookup := fun _ => rfl
  indexed := fun topic => Trie.get_empty (topic.splitOn slash)
  only := by
    intro path msg h
    rw [show newRetainedStore.index = Trie.empty from rfl, Trie.get_empty] at h
    cases h

variable {m : Str → Option RetainedMessage} {r : RetainedStore}

theorem get_pruned {index : RetainedTrie} (h : index.WF) (path path' : List Str) :
    (index.prune Option.isNone (fun _ => none) path).1.get path' =
      if path' = path then none else index.get path' :=
  Trie.get_prune path _ (fun _ => Option.isNone_iff_eq_none.mp) rfl h path'

theorem Inv.delete (h : Inv m r) (topic : Str) :
    Inv (record m (.delete topic)) (r.deleteRetained topic) where
  wf := h.wf.prune _ _ _
  lookup := by
    intro topic'
    unfold RetainedStore.deleteRetained record
    rw [Keyed.lookup_erase, h.lookup]
  indexed := by
    intro topic'
    unfold RetainedStore.deleteRetained record
    rw [get_pruned h.wf, h.indexed]
    simp only [splitOn_injective.eq_iff]
  only := by
    intro path msg hget
    unfold RetainedStore.deleteRetained at hget
    rw [get_pruned h.wf] at hget
    split_ifs at hget
    exact h.only path msg hget

theorem Inv.save (h : Inv m r) (msg : RetainedMessage) (now : ℕ) :
    Inv (record m (.save msg now)) (r.saveRetained msg now) := by
  unfold RetainedStore.saveRetained
  by_cases hempty : msg.payload = []
  · have hrecord : record m (.save msg now) = record m (.delete msg.topic) := by
      simp only [record, if_pos hempty]
    rw [if_pos hempty, hrecord]
    exact h.delete msg.topic
  · rw [if_neg hempty]
    refine ⟨h.wf.update _ _, ?_, ?_, ?_⟩
    · intro topic
      simp only [record, if_neg hempty]
      rw [Keyed.lookup_insert, h.lookup]
      rfl
    · intro topic
      simp only [record, if_neg hempty]
      rw [Trie.get_update, h.indexed]
      simp only [splitOn_injective.eq_iff]
    · intro path msg' hget
      rw [Trie.get_update] at hget
      split_ifs at hget with hpath
      · obtain rfl := Option.some.inj hget
        exact hpath
      · exact h.only path msg' hget

theorem inv_run (ops : List Op) : Inv (latest ops) (run ops) := by
  induction ops using List.reverseRecOn with
  | nil => exact inv_new
  | append_singleton ops op ih =>
    unfold run latest at ih ⊢
    rw [List.foldl_append, List.foldl_append]
    cases op with
    | save msg now => exact ih.save msg now
    | delete topic => exact ih.delete topic

/-! ## The walk -/

mutual

theorem collectAll_eq : ∀ (n : RetainedTrie) (acc : Found),
    collectAll n acc = (n.select fun _ => true).foldl Found.add acc
  | .mk children msg, acc => by
    rw [collectAll, collectChildren_eq, Trie.select_mk, List.foldl_append]
    cases msg <;> rfl

theorem collectChildren_eq : ∀ (children : List (Σ _ : Str, RetainedTrie)) (acc : Found),
    collectChildren children acc =
      (children.flatMap fun s => s.2.select fun _ => true).foldl Found.add acc
  | [], acc => rfl
  | ⟨_, child⟩ :: rest, acc => by
    rw [collectChildren, collectChildren_eq rest, collectAll_eq child, List.flatMap_cons,
      List.foldl_append]

end

/-- The walk visits the entries the filter matches level by level. -/
theorem match_eq_select (parts : List Str) : ∀ {n : RetainedTrie}, n.WF → ∀ acc : Found,
    matchNode n parts acc = (n.select (matchLevels parts)).foldl Found.add acc := by
  induction parts with
  | nil =>
    intro n _ acc
    obtain ⟨children, msg⟩ := n
    have hbelow : (children.flatMap fun s => s.2.select fun ks => matchLevels [] (s.1 :: ks)) = [] :=
      List.flatMap_eq_nil_iff.mpr fun s _ => s.2.select_false
    rw [Trie.select_mk, hbelow]
    cases msg <;> rfl
  | cons part rest ih =>
    intro n h acc
    obtain ⟨children, msg⟩ := n
    unfold matchNode
    by_cases hhash : part = hashLevel
    · have hall : matchLevels (part :: rest) = fun _ => true := by
        funext ts
        exact if_pos hhash
      rw [if_pos hhash, hall, collectAll_eq]
    · have hroot : matchLevels (part :: rest) [] = false := by
        rw [matchLevels, if_neg hhash]
      rw [if_neg hhash, Trie.select_mk, hroot]
      by_cases hplus : part = plusLevel
      · have hstep : ∀ k ks, matchLevels (part :: rest) (k :: ks) = matchLevels rest ks := by
          intro k ks
          rw [matchLevels, if_neg hhash]
          exact if_pos hplus
        simp only [hstep]
        rw [if_pos hplus, List.foldl_append, List.foldl_flatMap]
        exact List.foldl_ext _ _ _ fun acc s hs => ih (h.of_mem hs) acc
      · have hstep : ∀ s : Σ _ : Str, RetainedTrie,
            (s.2.select fun ks => matchLevels (part :: rest) (s.1 :: ks)) =
              if s.1 = part then s.2.select (matchLevels rest) else [] := by
          intro s
          split_ifs with hs
          · congr 1
            simp [matchLevels, hhash, hplus, hs]
          · rw [← s.2.select_false]
            congr 1
            simp [matchLevels, hhash, hplus, Ne.symm hs]
        simp only [hstep]
        have hkeys : children.NodupKeys := h.here
        rw [if_neg hplus, Trie.flatMap_key hkeys]
        cases hchild : children.dlookup part with
        | none => simp [hchild]
        | some child => simpa [hchild] using ih (h.child hchild) acc

theorem foldl_add : ∀ (msgs : List RetainedMessage) (acc : Found),
    (msgs.map RetainedMessage.topic).Nodup → (∀ m ∈ msgs, m.topic ∉ acc.visited) →
      (msgs.foldl Found.add acc).result = acc.result ++ msgs
  | [], acc, _, _ => (List.append_nil _).symm
  | m :: msgs, acc, hnodup, hnew => by
    rw [List.map_cons, List.nodup_cons] at hnodup
    have hadd : acc.add m = ⟨acc.result ++ [m], m.topic :: acc.visited⟩ :=
      if_neg (hnew m List.mem_cons_self)
    rw [List.foldl_cons, hadd, foldl_add msgs _ hnodup.2]
    · simp
    · intro m' hm'
      rw [List.mem_cons, not_or]
      refine ⟨?_, hnew m' (List.mem_cons_of_mem m hm')⟩
      intro heq
      exact hnodup.1 (heq ▸ List.mem_map_of_mem hm')

/-! ## `MatchRetained` -/

theorem Inv.sameMaps (h : Inv m r) {index : RetainedTrie} (hsame : Trie.SameMaps Eq r.index index) :
    Inv m { r with index := index } where
  wf := hsame.wf h.wf
  lookup := h.lookup
  indexed := fun topic => (hsame.get rfl _).symm.trans (h.indexed topic)
  only := fun path msg hget => h.only path msg ((hsame.get rfl path).trans hget)

theorem Inv.nodup_select (h : Inv m r) (q : List Str → Bool) :
    ((r.index.select q).map RetainedMessage.topic).Nodup :=
  Trie.nodup_map_select h.wf (fun topic => topic.splitOn slash) h.only

theorem Inv.mem_select (h : Inv m r) {q : List Str → Bool} {msg : RetainedMessage} :
    msg ∈ r.index.select q ↔ m msg.topic = some msg ∧ q (msg.topic.splitOn slash) = true := by
  rw [Trie.mem_select h.wf]
  constructor
  · rintro ⟨path, hget, hq⟩
    obtain rfl := h.only path msg hget
    exact ⟨(h.indexed msg.topic).symm.trans hget, hq⟩
  · rintro ⟨hm, hq⟩
    exact ⟨msg.topic.splitOn slash, (h.indexed msg.topic).trans hm, hq⟩

/-- The shortcut for an empty map does not change the result. -/
theorem Inv.matchRetained_eq (h : Inv m r) (f : Str) :
    r.matchRetained f = r.index.select (matchLevels (f.splitOn slash)) := by
  unfold RetainedStore.matchRetained
  split_ifs with hsize
  · symm
    apply List.eq_nil_iff_forall_not_mem.mpr
    intro msg hmsg
    have hstored : r.messages.lookup msg.topic = some msg :=
      (h.lookup msg.topic).trans (h.mem_select.mp hmsg).1
    have hpos : 0 < r.messages.size := Keyed.size_pos_of_lookup (Option.isSome_of_eq_some hstored)
    omega
  · rw [match_eq_select _ h.wf, foldl_add _ _ (h.nodup_select _) fun _ _ => List.not_mem_nil]
    rfl

theorem Inv.count_matchRetained (h : Inv m r) (f : Str) (msg : RetainedMessage) :
    (r.matchRetained f).count msg =
      if m msg.topic = some msg ∧ matchTopic f msg.topic = true then 1 else 0 := by
  rw [h.matchRetained_eq, (List.Nodup.of_map _ (h.nodup_select _)).count]
  exact if_congr h.mem_select rfl rfl

/-- After any history, and whatever the order of the children: `MatchRetained` returns
one copy of the latest message of each stored topic that matches the filter, and nothing
else. -/
theorem matchRetained_exact (ops : List Op) (f : Str) (index : RetainedTrie)
    (hsame : Trie.SameMaps Eq (run ops).index index) (msg : RetainedMessage) :
    ({ run ops with index := index }.matchRetained f).count msg =
      if latest ops msg.topic = some msg ∧ matchTopic f msg.topic = true then 1 else 0 := by
  exact ((inv_run ops).sameMaps hsame).count_matchRetained f msg

def retainedOn (topic : Str) (payload : Bytes) : RetainedMessage where
  topic := topic
  qos := 0
  payload := payload
  timestamp := some 0
  properties := {}
  expiresAt := none

/-- `a` is saved twice and `a/b` once; `b` is deleted again. -/
def someSaved : List Op :=
  [.save (retainedOn (ascii "a") [1]) 0, .save (retainedOn (ascii "b") [1]) 0,
    .save (retainedOn (ascii "a/b") [1]) 0, .save (retainedOn (ascii "a") [2]) 0,
    .delete (ascii "b")]

theorem matchRetained_exact_someSaved :
    ((run someSaved).matchRetained (ascii "a/#")).count (retainedOn (ascii "a") [2]) = 1 ∧
      ((run someSaved).matchRetained (ascii "a/#")).count (retainedOn (ascii "a") [1]) = 0 := by
  have hexact := matchRetained_exact someSaved (ascii "a/#") (run someSaved).index
    (Trie.SameMaps.refl Eq.refl _)
  refine ⟨(hexact _).trans (if_pos ?_), (hexact _).trans (if_neg ?_)⟩
  · decide
  · decide

end SharkMqtt.Store.MemoryRetained
