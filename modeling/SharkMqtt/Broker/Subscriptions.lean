import SharkMqtt.Broker.Delivery
import SharkMqtt.Broker.TopicMatch

/-!
# Where subscriptions are entered

A subscription lives in two places: in the session, under the filter the client
sent, and in `TopicTree`, in the trie or in a share group (`broker/topic_tree.go`).
`SUBSCRIBE`, `UNSUBSCRIBE`, the restore of a stored session, the sweep and the
teardown of a session all go from the first to the second by the same test:
`IsSharedSubscription`, then `ParseSharedFilter`. `address` is that way as a
function, and what each operation does is said of the entry at an address.
-/

namespace SharkMqtt.Broker

open Protocol Lib

/-- The place of a subscription in `TopicTree`. -/
inductive Address where
  | trie (filter : Str)
  | shared (shareName filter : Str)
deriving DecidableEq

def address (topic : Str) : Option Address :=
  if isSharedSubscription topic then (parseSharedFilter topic).map fun r => .shared r.1 r.2
  else some (.trie topic)

/-- `Subscribe` checks its filter, `SubscribeShared` does not. -/
def Address.accepted : Address → Bool
  | .trie filter => validateTopicFilter filter
  | .shared _ _ => true

/-- A filter the topic tree takes: one a SUBSCRIBE lets through. -/
def Enterable (topic : Str) : Prop := ∃ a, address topic = some a ∧ a.accepted = true

variable {topic f : Str} {a : Address}

/-- A shared filter is read off its parts. -/
theorem eq_of_parseSharedFilter {g : Str} (h : parseSharedFilter topic = some (g, f)) :
    topic = sharedSubPrefix ++ (g ++ slash :: f) := by
  unfold parseSharedFilter at h
  split at h
  · cases h
  next hshared =>
    simp only at h
    split_ifs at h with hlen hshort
    obtain ⟨rfl, rfl⟩ := Prod.mk.inj (Option.some.inj h)
    have htake : topic.take sharedSubPrefix.length = sharedSubPrefix := by
      simp only [isSharedSubscription, Bool.not_and, Bool.or_eq_true, Bool.not_eq_true',
        not_or, Bool.not_eq_false, beq_iff_eq] at hshared
      exact hshared.2
    -- the byte at the index found is the slash
    generalize hrest : topic.drop sharedSubPrefix.length = rest at *
    have hlt : rest.findIdx (· == slash) < rest.length := lt_of_le_of_ne List.findIdx_le_length hlen
    have hslash : rest[rest.findIdx (· == slash)] = slash := by
      simpa using List.findIdx_getElem (w := hlt)
    have hcut := List.take_append_drop (rest.findIdx (· == slash)) rest
    rw [List.drop_eq_getElem_cons hlt, hslash] at hcut
    calc topic = topic.take sharedSubPrefix.length ++ topic.drop sharedSubPrefix.length :=
          (List.take_append_drop _ topic).symm
      _ = sharedSubPrefix ++ rest := by rw [htake, hrest]
      _ = _ := by rw [hcut]

theorem address_injective {topic' : Str} (h : address topic = some a) (h' : address topic' = some a) :
    topic = topic' := by
  unfold address at h h'
  split at h <;> split at h'
  · obtain ⟨⟨g, f⟩, hp, rfl⟩ := Option.map_eq_some_iff.mp h
    obtain ⟨⟨g', f'⟩, hp', heq⟩ := Option.map_eq_some_iff.mp h'
    obtain ⟨rfl, rfl⟩ := Address.shared.inj heq
    rw [eq_of_parseSharedFilter hp, eq_of_parseSharedFilter hp']
  · obtain ⟨r, -, rfl⟩ := Option.map_eq_some_iff.mp h
    cases h'
  · obtain ⟨r, -, rfl⟩ := Option.map_eq_some_iff.mp h'
    cases h
  · cases h
    cases h'
    rfl

/-! ## `TopicTree` with its share groups -/

/-- The trie and `sharedSubs`: share name, filter, client. `UnsubscribeShared`
drops the maps it empties, so a missing map and an empty one are the same. -/
structure Topics where
  tree : TopicTree
  sharedSubs : Str → Str → Str → Option ℕ
  represented : ∃ m, Represents tree.root m

namespace Topics

/-- What `NewTopicTree` makes. -/
instance : EmptyCollection Topics where
  emptyCollection :=
    { tree := newTopicTree, sharedSubs := fun _ _ _ => none, represented := ⟨_, represents_empty⟩ }

def subscribe (tp : Topics) (topic clientID : Str) (qos : ℕ) : Topics × Bool :=
  ({ tp with
      tree := (tp.tree.subscribe topic clientID qos).1
      represented := tp.represented.elim fun _ h => ⟨_, h.subscribe topic clientID qos⟩ },
    (tp.tree.subscribe topic clientID qos).2)

def unsubscribe (tp : Topics) (topic clientID : Str) : Topics :=
  { tp with
    tree := tp.tree.unsubscribe topic clientID
    represented := tp.represented.elim fun _ h => ⟨_, h.unsubscribe topic clientID⟩ }

/-- A new entry counts in `totalSubs`. -/
def subscribeShared (tp : Topics) (shareName topicFilter clientID : Str) (qos : ℕ) : Topics :=
  { tp with
    tree :=
      { tp.tree with
        totalSubs :=
          if (tp.sharedSubs shareName topicFilter clientID).isSome then tp.tree.totalSubs
          else tp.tree.totalSubs + 1 }
    sharedSubs := fun g f c =>
      if g = shareName ∧ f = topicFilter ∧ c = clientID then some qos else tp.sharedSubs g f c }

def unsubscribeShared (tp : Topics) (shareName topicFilter clientID : Str) : Topics :=
  { tp with
    tree :=
      { tp.tree with
        totalSubs :=
          if (tp.sharedSubs shareName topicFilter clientID).isSome then tp.tree.totalSubs - 1
          else tp.tree.totalSubs }
    sharedSubs := fun g f c =>
      if g = shareName ∧ f = topicFilter ∧ c = clientID then none else tp.sharedSubs g f c }

def restoreFilter (clientID : Str) (tp : Topics) (topic : Str) (qos : ℕ) : Topics :=
  if isSharedSubscription topic then
    match parseSharedFilter topic with
    | none => tp
    | some (group, filter) => tp.subscribeShared group filter clientID qos
  else (tp.subscribe topic clientID qos).1

/-- One round of `unsubscribeTopics`. -/
def unsubscribeTopic (clientID : Str) (tp : Topics) (topic : Str) : Topics :=
  if isSharedSubscription topic then
    match parseSharedFilter topic with
    | none => tp
    | some (shareName, realFilter) => tp.unsubscribeShared shareName realFilter clientID
  else tp.unsubscribe topic clientID

def unsubscribeTopics (tp : Topics) (clientID : Str) (topics : List Str) : Topics :=
  topics.foldl (unsubscribeTopic clientID) tp

def restoreFilters (tp : Topics) (clientID : Str) (subs : List (Σ _ : Str, ℕ)) : Topics :=
  subs.foldl (fun tp sub => tp.restoreFilter clientID sub.1 sub.2) tp

/-! ## Entries -/

def entry (tp : Topics) (clientID : Str) : Address → Option ℕ
  | .trie filter => tp.tree.root.qosAt (splitTopic filter) clientID
  | .shared shareName filter => tp.sharedSubs shareName filter clientID

@[simp] theorem entry_empty (c : Str) (a : Address) : (∅ : Topics).entry c a = none := by
  cases a with
  | trie f => exact TopicNode.qosAt_empty (splitTopic f) c
  | shared g f => rfl

variable (tp : Topics)

theorem entry_subscribe (f c : Str) (q : ℕ) (c' : Str) (a : Address) :
    (tp.subscribe f c q).1.entry c' a =
      if c' = c ∧ a = .trie f ∧ validateTopicFilter f = true then some q else tp.entry c' a := by
  obtain ⟨m, hm⟩ := tp.represented
  cases a with
  | shared g f' =>
    rw [if_neg (fun h => nomatch h.2.1)]
    rfl
  | trie f' =>
    refine ((hm.subscribe f c q).qosAt_eq f' c').trans ?_
    simp only [Holdings.apply, entry]
    rw [hm.qosAt_eq f' c']
    by_cases hv : validateTopicFilter f = true
    · simp only [hv, if_true, and_true, Address.trie.injEq]
    · simp only [hv, if_false, and_false, Bool.false_eq_true]

theorem entry_unsubscribe (f c c' : Str) (a : Address) :
    (tp.unsubscribe f c).entry c' a =
      if c' = c ∧ a = .trie f then none else tp.entry c' a := by
  obtain ⟨m, hm⟩ := tp.represented
  cases a with
  | shared g f' =>
    rw [if_neg (fun h => nomatch h.2)]
    rfl
  | trie f' =>
    refine ((hm.unsubscribe f c).qosAt_eq f' c').trans ?_
    simp only [Holdings.apply, entry]
    rw [hm.qosAt_eq f' c']
    simp only [Address.trie.injEq]

theorem entry_subscribeShared (g f c : Str) (q : ℕ) (c' : Str) (a : Address) :
    (tp.subscribeShared g f c q).entry c' a =
      if c' = c ∧ a = .shared g f then some q else tp.entry c' a := by
  cases a with
  | trie f' =>
    rw [if_neg (fun h => nomatch h.2)]
    rfl
  | shared g' f' =>
    simp only [entry, subscribeShared, Address.shared.injEq]
    exact if_congr (by tauto) rfl rfl

theorem entry_unsubscribeShared (g f c c' : Str) (a : Address) :
    (tp.unsubscribeShared g f c).entry c' a =
      if c' = c ∧ a = .shared g f then none else tp.entry c' a := by
  cases a with
  | trie f' =>
    rw [if_neg (fun h => nomatch h.2)]
    rfl
  | shared g' f' =>
    simp only [entry, unsubscribeShared, Address.shared.injEq]
    exact if_congr (by tauto) rfl rfl

/-- A filter is entered at its address, if it has one and the filter passes. -/
theorem entry_restoreFilter (c f : Str) (q : ℕ) (c' : Str) (a : Address) :
    (tp.restoreFilter c f q).entry c' a =
      if c' = c ∧ address f = some a ∧ a.accepted = true then some q else tp.entry c' a := by
  unfold address
  fun_cases restoreFilter c tp f q with
  | case1 hs hp => simp [hs, hp]
  | case2 hs g f' hp =>
    simp only [entry_subscribeShared, hs, hp, if_true, Option.map_some, Option.some.injEq]
    refine if_congr (and_congr_right fun _ => ⟨?_, fun h => h.1.symm⟩) rfl rfl
    rintro rfl
    exact ⟨rfl, rfl⟩
  | case3 hs =>
    simp only [entry_subscribe, hs, Bool.false_eq_true, if_false, Option.some.injEq]
    refine if_congr (and_congr_right fun _ => ?_) rfl rfl
    rw [eq_comm]
    refine and_congr_right ?_
    rintro rfl
    rfl

theorem entry_unsubscribeTopic (c f c' : Str) (a : Address) :
    (tp.unsubscribeTopic c f).entry c' a =
      if c' = c ∧ address f = some a then none else tp.entry c' a := by
  unfold address
  fun_cases unsubscribeTopic c tp f with
  | case1 hs hp => simp [hs, hp]
  | case2 hs g f' hp => simp [entry_unsubscribeShared, hs, hp, eq_comm (a := a)]
  | case3 hs => simp [entry_unsubscribe, hs, eq_comm (a := a)]

end Topics

/-! ## Loops over filters -/

def addresses (topics : List Str) : List Address := topics.filterMap address

theorem mem_addresses {topics : List Str} :
    a ∈ addresses topics ↔ ∃ f ∈ topics, address f = some a := List.mem_filterMap

namespace Topics

theorem entry_unsubscribeTopics (c c' : Str) (a : Address) (topics : List Str) (tp : Topics) :
    (tp.unsubscribeTopics c topics).entry c' a =
      if c' = c ∧ a ∈ addresses topics then none else tp.entry c' a := by
  refine (foldl_writes (entry · c' a) topics
    (fun tp f => tp.entry_unsubscribeTopic c f c' a) tp).trans (if_congr ?_ rfl rfl)
  simp only [mem_addresses, and_left_comm, exists_and_left]

theorem entry_unsubscribeTopics_eq_none {tp : Topics} {c : Str} {topics : List Str} {a : Address}
    (h : tp.entry c a = none ∨ a ∈ addresses topics) :
    (tp.unsubscribeTopics c topics).entry c a = none := by
  rw [entry_unsubscribeTopics]
  rcases h with h | h
  · split_ifs
    · rfl
    · exact h
  · exact if_pos ⟨rfl, h⟩

theorem entry_unsubscribeTopics_of_ne {c c' : Str} (h : c' ≠ c) (tp : Topics) (topics : List Str)
    (a : Address) : (tp.unsubscribeTopics c topics).entry c' a = tp.entry c' a :=
  (tp.entry_unsubscribeTopics c c' a topics).trans (if_neg fun hc => h hc.1)

theorem isSome_entry_restoreFilters (c : Str) (a : Address) (subs : List (Σ _ : Str, ℕ))
    (tp : Topics) : ((tp.restoreFilters c subs).entry c a).isSome = true ↔
      (tp.entry c a).isSome = true ∨ a.accepted = true ∧ a ∈ addresses (subs.map Sigma.fst) := by
  refine (foldl_iff (fun tp => (entry tp c a).isSome = true)
    (P := fun sub => a.accepted = true ∧ address sub.1 = some a) subs (fun tp sub => ?_) tp).trans ?_
  · rw [entry_restoreFilter]
    split_ifs with h
    · simp [h]
    · tauto
  · simp [mem_addresses, and_left_comm]

end Topics

/-! ## Matching -/

def Topics.match (tp : Topics) (topic : Str) : List Subscriber := tp.tree.match topic

namespace Topics

theorem nodup_match (tp : Topics) (t : Str) : ((tp.match t).map Subscriber.clientID).Nodup :=
  tp.represented.elim fun _ h => (h.match_eq t).1

theorem mem_match_iff (tp : Topics) (t c : Str) :
    c ∈ (tp.match t).map Subscriber.clientID ↔
      ∃ f, (tp.entry c (.trie f)).isSome = true ∧ Visited f t := by
  obtain ⟨m, hm⟩ := tp.represented
  refine ((hm.match_eq t).2.1 c).trans (exists_congr fun f => ?_)
  have hget : tp.entry c (.trie f) = m c f := hm.qosAt_eq f c
  rw [hget, Option.isSome_iff_exists, ← exists_and_right]

end Topics

/-! ## The filters of a session -/

def Session.addSubscriptionFilter (s : Session) (filter : TopicFilter) : Session :=
  { s with
    subscriptions := s.subscriptions.insert filter.topic filter.qos.toNat
    subOptions := s.subOptions.insert filter.topic
      { qos := filter.qos.toNat
        noLocal := filter.noLocal
        retainAsPublished := filter.retainAsPublished
        retainHandling := filter.retainHandling.toNat
        subscriptionIdentifier := filter.subscriptionIdentifier } }

def Session.removeSubscription (s : Session) (topic : Str) : Session :=
  { s with
    subscriptions := s.subscriptions.erase topic
    subOptions := s.subOptions.erase topic }

def Session.filters (s : Session) : List Str := s.subscriptions.keys

def SessionData.filters (data : SessionData) : List Str := data.subscriptions.map (·.topic)

theorem Session.mem_filters_addSubscriptionFilter {s : Session} {filter : TopicFilter} :
    f ∈ (s.addSubscriptionFilter filter).filters ↔ f = filter.topic ∨ f ∈ s.filters :=
  AList.mem_insert (s := s.subscriptions)

theorem Session.mem_filters_removeSubscription {s : Session} :
    f ∈ (s.removeSubscription topic).filters ↔ f ≠ topic ∧ f ∈ s.filters :=
  AList.mem_erase (s := s.subscriptions)

theorem Session.filters_save (s : Session) (now : ℕ) : (s.save now).filters = s.filters := by
  unfold SessionData.filters Session.save
  rw [List.map_map]
  rfl

theorem mem_filters_restore {data : SessionData} :
    f ∈ (restore data).filters ↔ f ∈ data.filters := by
  refine (foldl_iff (β := AList fun _ : Str => ℕ) (f ∈ ·) (P := fun sub => f = sub.topic)
    data.subscriptions (fun m sub => ?_) ∅).trans ?_
  · rw [AList.mem_insert, or_comm]
  · simp [SessionData.filters, eq_comm]

end SharkMqtt.Broker
