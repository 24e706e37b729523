import Mathlib.Data.List.Sort
import SharkMqtt.Broker.Routing
import SharkMqtt.Broker.Subscriptions

/-!
# One copy for each share group

`matchShared` (`broker/topic_tree.go`) picks one member of each share group in turn:
the clients that hold a matching filter, each with its highest QoS, in the order of their
ClientIDs, the online ones among them, and of these the one after the last one picked.
`routeSharedPublish` then hands the copy of the group to that member, unless the member
is the publisher and `AllowsLocalPublish` says no (`broker/pub_sub.go`).

`AllowsLocalPublish` looks at the ordinary filters of the member, which have nothing to
do with the group; and it is asked after the choice is made, so that nobody else gets the
copy instead. For a group with an online member to choose, one of them gets one copy
exactly when the choice does not fall on a publisher that is suppressed so
(`served_iff`).
-/

namespace SharkMqtt.Broker.SharedSubscriptions

open Protocol Function

/-! ## The groups -/

/-- Client to QoS, filter to clients, share name to filters. -/
abbrev Clients := AList fun _ : Str => ℕ
abbrev Filters := AList fun _ : Str => Clients
abbrev Groups := AList fun _ : Str => Filters

/-- `sharedSubs` and `sharedLast` of a `TopicTree`; no name is the empty one. -/
structure Shared where
  sharedSubs : Groups := ∅
  sharedLast : Str → Str := fun _ => []

def Shared.get (sh : Shared) (shareName filter clientID : Str) : Option ℕ :=
  (sh.sharedSubs.lookup shareName).bind fun filters =>
    (filters.lookup filter).bind fun clients => clients.lookup clientID

def Shared.subscribeShared (sh : Shared) (shareName topicFilter clientID : Str) (qos : ℕ) : Shared :=
  let filters := (sh.sharedSubs.lookup shareName).getD ∅
  let clients := (filters.lookup topicFilter).getD ∅
  { sh with
    sharedSubs := sh.sharedSubs.insert shareName
      (filters.insert topicFilter (clients.insert clientID qos)) }

/-- The maps it empties are dropped, and the last pick of a group with them. -/
def Shared.unsubscribeShared (sh : Shared) (shareName topicFilter clientID : Str) : Shared :=
  match sh.sharedSubs.lookup shareName with
  | none => sh
  | some filters =>
    match filters.lookup topicFilter with
    | none => sh
    | some clients =>
      let clients := clients.erase clientID
      let filters :=
        if clients.entries.isEmpty then filters.erase topicFilter
        else filters.insert topicFilter clients
      if filters.entries.isEmpty then
        { sharedSubs := sh.sharedSubs.erase shareName
          sharedLast := update sh.sharedLast shareName [] }
      else { sh with sharedSubs := sh.sharedSubs.insert shareName filters }

/-- The groups of a `Topics`, with their maps. -/
def Represents (sh : Shared) (tp : Topics) : Prop := ∀ g f c, sh.get g f c = tp.sharedSubs g f c

theorem represents_empty : Represents {} ∅ := fun _ _ _ => rfl

/-- A map in which an entry is replaced, or dropped when nothing is found in it. -/
theorem bind_lookup_replace {V : Type} (m : AList fun _ : Str => V) (k : Str) (v : V)
    (drop : Bool) (access : V → Option ℕ) (hdrop : drop = true → access v = none) (k' : Str) :
    ((if drop then m.erase k else m.insert k v).lookup k').bind access =
      if k' = k then access v else (m.lookup k').bind access := by
  rcases eq_or_ne k' k with rfl | hne
  · cases drop with
    | true => simpa using (hdrop rfl).symm
    | false => simp
  · rw [if_neg hne]
    cases drop with
    | true => simp [AList.lookup_erase_ne hne]
    | false => simp [AList.lookup_insert_ne hne]

theorem bind_lookup_insert {V : Type} (m : AList fun _ : Str => V) (k : Str) (v : V)
    (access : V → Option ℕ) (k' : Str) : ((m.insert k v).lookup k').bind access =
      if k' = k then access v else (m.lookup k').bind access :=
  bind_lookup_replace m k v false access nofun k'

theorem get_subscribeShared (sh : Shared) (g f c : Str) (q : ℕ) (g' f' c' : Str) :
    (sh.subscribeShared g f c q).get g' f' c' =
      if g' = g ∧ f' = f ∧ c' = c then some q else sh.get g' f' c' := by
  simp only [Shared.get, Shared.subscribeShared, bind_lookup_insert]
  rcases eq_or_ne g' g with rfl | hg
  · rcases eq_or_ne f' f with rfl | hf
    · rcases eq_or_ne c' c with rfl | hc
      · simp
      · simp only [if_true, AList.lookup_insert_ne hc, hc, and_false, if_false]
        cases sh.sharedSubs.lookup g' with
        | none => simp
        | some filters =>
          cases hclients : filters.lookup f' with
          | none | some => simp [hclients]
    · cases sh.sharedSubs.lookup g' with
      | none | some => simp [hf]
  · simp [hg]

variable {sh : Shared} {filters : Filters} {topic : Str}

theorem Represents.subscribeShared {tp : Topics} (h : Represents sh tp) (g f c : Str) (q : ℕ) :
    Represents (sh.subscribeShared g f c q) (tp.subscribeShared g f c q) := by
  intro g' f' c'
  rw [get_subscribeShared, h g' f' c']
  rfl

theorem lookup_of_isEmpty {α : Type} {m : AList fun _ : Str => α} (h : m.entries.isEmpty = true)
    (k : Str) : m.lookup k = none := by
  rw [AList.lookup_eq_none]
  intro hmem
  rw [AList.mem_keys, AList.keys, List.isEmpty_iff.mp h] at hmem
  cases hmem

theorem get_unsubscribeShared (sh : Shared) (g f c g' f' c' : Str) :
    (sh.unsubscribeShared g f c).get g' f' c' =
      if g' = g ∧ f' = f ∧ c' = c then none else sh.get g' f' c' := by
  -- where a map is missing the entry is, too
  have hmissing : sh.get g f c = none →
      sh.get g' f' c' = if g' = g ∧ f' = f ∧ c' = c then none else sh.get g' f' c' := by
    intro hnone
    split_ifs with hsame
    · rw [hsame.1, hsame.2.1, hsame.2.2]
      exact hnone
    · rfl
  unfold Shared.unsubscribeShared
  cases hfilters : sh.sharedSubs.lookup g with
  | none => exact hmissing (by simp [Shared.get, hfilters])
  | some filters =>
    cases hclients : filters.lookup f with
    | none => simpa only [hclients] using hmissing (by simp [Shared.get, hfilters, hclients])
    | some clients =>
      simp only [hclients]
      have hinner := bind_lookup_replace filters f (clients.erase c)
        (clients.erase c).entries.isEmpty (fun m => m.lookup c')
        (fun hempty => lookup_of_isEmpty hempty c') f'
      generalize (if (clients.erase c).entries.isEmpty then filters.erase f
        else filters.insert f (clients.erase c)) = filters' at hinner ⊢
      have houter := bind_lookup_replace sh.sharedSubs g filters' filters'.entries.isEmpty
        (fun m => (m.lookup f').bind fun m => m.lookup c')
        (fun hempty => by rw [lookup_of_isEmpty hempty]; rfl) g'
      simp only [Shared.get, apply_ite Shared.sharedSubs]
      rw [houter, hinner]
      rcases eq_or_ne g' g with rfl | hg
      · rcases eq_or_ne f' f with rfl | hf
        · rcases eq_or_ne c' c with rfl | hc
          · simp
          · simp [hc, hfilters, hclients]
        · simp [hf, hfilters]
      · simp [hg]

theorem Represents.unsubscribeShared {tp : Topics} (h : Represents sh tp) (g f c : Str) :
    Represents (sh.unsubscribeShared g f c) (tp.unsubscribeShared g f c) := by
  intro g' f' c'
  rw [get_unsubscribeShared, h g' f' c']
  rfl

/-! ## Picking a member -/

structure Member where
  clientID : Str
  qos : ℕ

/-- The byte order of Go strings. -/
def less : Str → Str → Bool
  | _, [] => false
  | [], _ :: _ => true
  | a :: s, b :: t =>
    if a.toNat < b.toNat then true else if b.toNat < a.toNat then false else less s t

/-- One round of the loop over the clients of a matching filter. `seen` holds the same
QoS as `members`. -/
def addMember (clientID : Str) (qos : ℕ) : List Member → List Member
  | [] => [⟨clientID, qos⟩]
  | m :: members =>
    if m.clientID = clientID then (if qos > m.qos then ⟨clientID, qos⟩ else m) :: members
    else m :: addMember clientID qos members

/-- What the clients hold in the matching filters, as the loops come upon it. -/
def held (filters : Filters) (topic : Str) : List (Σ _ : Str, ℕ) :=
  (filters.entries.filter fun e => matchSysProtected e.1 topic).flatMap fun e => e.2.entries

def collectMembers (filters : Filters) (topic : Str) : List Member :=
  (held filters topic).foldl (fun members e => addMember e.1 e.2 members) []

/-- The members to choose from, in the order of their ClientIDs. -/
def onlineMembers (isOnline : Str → Bool) (filters : Filters) (topic : Str) : List Member :=
  ((collectMembers filters topic).insertionSort fun a b => less b.clientID a.clientID = false).filter
    fun m => isOnline m.clientID

/-- The member after the last one picked, the first one if that has left. The index is
what `sort.Search` finds. -/
def pick (last : Str) (members : List Member) (first : Member) : Str :=
  let i := members.findIdx fun m => !less m.clientID last
  if last ≠ [] ∧ members[i]?.any (fun m => m.clientID = last) then
    members[(i + 1) % members.length]?.elim first.clientID Member.clientID
  else first.clientID

def pickFrom (isOnline : Str → Bool) (topic last : Str) (filters : Filters) : Option Member :=
  match onlineMembers isOnline filters topic with
  | [] => none
  | first :: rest =>
    let sel := pick last (first :: rest) first
    some ⟨sel, ((first :: rest).find? fun m => m.clientID = sel).elim 0 Member.qos⟩

structure SharedSubscriber where
  clientID : Str
  qos : ℕ
  shareName : Str

def matchGroup (topic : Str) (isOnline : Str → Bool) (r : Shared × List SharedSubscriber)
    (group : Σ _ : Str, Filters) : Shared × List SharedSubscriber :=
  match pickFrom isOnline topic (r.1.sharedLast group.1) group.2 with
  | none => r
  | some m =>
    ({ r.1 with sharedLast := update r.1.sharedLast group.1 m.clientID },
      r.2 ++ [⟨m.clientID, m.qos, group.1⟩])

def matchShared (sh : Shared) (topic : Str) (isOnline : Str → Bool) :
    Shared × List SharedSubscriber :=
  sh.sharedSubs.entries.foldl (matchGroup topic isOnline) (sh, [])

/-- `none` when it returns without a delivery. -/
def deliverToSharedClient (sessions : Sessions) (clientID sourceClientID : Str)
    (pkt : PublishPacket) (subQoS : ℕ) : Option Handed :=
  match sessions.lookup clientID with
  | none => none
  | some sess =>
    if sourceClientID ≠ [] ∧ clientID = sourceClientID ∧ !sess.allowsLocalPublish pkt.topic then
      none
    else some (deliverWithQoS sess pkt subQoS { qos := subQoS } [])

/-- Each pick, with what is handed over for it. -/
def routeSharedPublish (sh : Shared) (sessions : Sessions) (sourceClientID : Str)
    (pkt : PublishPacket) : Shared × List (SharedSubscriber × Option Handed) :=
  let r := matchShared sh pkt.topic fun clientID => (sessions.lookup clientID).isSome
  (r.1, r.2.map fun sub =>
    (sub, deliverToSharedClient sessions sub.clientID sourceClientID pkt sub.qos))

/-! ## The members of a group -/

/-- Each client once, with the highest QoS it holds. -/
structure Collected (held : List (Σ _ : Str, ℕ)) (members : List Member) : Prop where
  nodup : (members.map Member.clientID).Nodup
  sound : ∀ m ∈ members, ⟨m.clientID, m.qos⟩ ∈ held ∧ ∀ q, ⟨m.clientID, q⟩ ∈ held → q ≤ m.qos
  complete : ∀ e ∈ held, ∃ m ∈ members, m.clientID = e.1

theorem clientIDs_addMember (c : Str) (q : ℕ) (members : List Member) :
    (addMember c q members).map Member.clientID =
      if c ∈ members.map Member.clientID then members.map Member.clientID
      else members.map Member.clientID ++ [c] := by
  induction members with
  | nil => rfl
  | cons m rest ih =>
    unfold addMember
    by_cases hm : m.clientID = c
    · have hhead : (if q > m.qos then (⟨c, q⟩ : Member) else m).clientID = m.clientID := by
        split_ifs <;> simp [hm]
      rw [if_pos hm, List.map_cons, List.map_cons, hhead, if_pos (by simp [hm])]
    · rw [if_neg hm, List.map_cons, List.map_cons, ih]
      have hmem : c ∈ m.clientID :: rest.map Member.clientID ↔ c ∈ rest.map Member.clientID := by
        rw [List.mem_cons, or_iff_right (Ne.symm hm)]
      simp only [hmem]
      split_ifs <;> rfl

variable {m : Member} {isOnline : Str → Bool}

variable {c : Str} {q : ℕ}

/-- What is in the list after a round: the other members, and this client with the
higher of the two. -/
theorem mem_addMember :
    ∀ {members : List Member}, (members.map Member.clientID).Nodup → m ∈ addMember c q members →
      m ∈ members ∧ (m.clientID = c → q ≤ m.qos) ∨
        m = ⟨c, q⟩ ∧ ∀ m' ∈ members, m'.clientID = c → m'.qos ≤ q := by
  intro members
  induction members with
  | nil =>
    intro _ hm
    exact Or.inr ⟨List.mem_singleton.mp hm, by simp⟩
  | cons m₀ rest ih =>
    intro hnd hm
    obtain ⟨hnot, hrest⟩ := List.nodup_cons.mp hnd
    unfold addMember at hm
    by_cases hm₀ : m₀.clientID = c
    · -- no other member is this client
      have hothers : ∀ m' ∈ rest, m'.clientID ≠ c := by
        rintro m' hm' rfl
        exact hnot (hm₀ ▸ List.mem_map_of_mem hm')
      rw [if_pos hm₀] at hm
      rcases List.mem_cons.mp hm with rfl | hmem
      · split_ifs with hq
        · refine Or.inr ⟨rfl, fun m' hm' hc => ?_⟩
          rcases List.mem_cons.mp hm' with rfl | hmem'
          · exact Nat.le_of_lt hq
          · exact absurd hc (hothers m' hmem')
        · exact Or.inl ⟨List.mem_cons_self, fun _ => Nat.not_lt.mp hq⟩
      · exact Or.inl ⟨List.mem_cons_of_mem _ hmem, fun hc => absurd hc (hothers m hmem)⟩
    · rw [if_neg hm₀] at hm
      rcases List.mem_cons.mp hm with rfl | hmem
      · exact Or.inl ⟨List.mem_cons_self, fun hc => absurd hc hm₀⟩
      · rcases ih hrest hmem with ⟨hold, hle⟩ | ⟨rfl, hle⟩
        · exact Or.inl ⟨List.mem_cons_of_mem _ hold, hle⟩
        · refine Or.inr ⟨rfl, fun m' hm' hc => ?_⟩
          rcases List.mem_cons.mp hm' with rfl | hmem'
          · exact absurd hc hm₀
          · exact hle m' hmem' hc

theorem Collected.add {held : List (Σ _ : Str, ℕ)} {members : List Member}
    (h : Collected held members) (e : Σ _ : Str, ℕ) :
    Collected (held ++ [e]) (addMember e.1 e.2 members) := by
  have hids := clientIDs_addMember e.1 e.2 members
  refine ⟨?_, fun m hm => ?_, fun e' he' => ?_⟩
  · rw [hids]
    split_ifs with hmem
    · exact h.nodup
    · refine List.nodup_append'.mpr ⟨h.nodup, List.nodup_singleton _, ?_⟩
      rw [List.disjoint_singleton]
      exact hmem
  · rcases mem_addMember h.nodup hm with ⟨hold, hle⟩ | ⟨rfl, hle⟩
    · obtain ⟨hheld, hmax⟩ := h.sound m hold
      refine ⟨List.mem_append_left _ hheld, fun q hq => ?_⟩
      rcases List.mem_append.mp hq with hq | hq
      · exact hmax q hq
      · cases List.mem_singleton.mp hq
        exact hle rfl
    · refine ⟨List.mem_append_right _ (List.mem_singleton_self _), fun q hq => ?_⟩
      rcases List.mem_append.mp hq with hq | hq
      · obtain ⟨m', hm', hc⟩ := h.complete _ hq
        have hmax := (h.sound m' hm').2 q (by rw [hc]; exact hq)
        exact le_trans hmax (hle m' hm' hc)
      · have heq := List.mem_singleton.mp hq
        rw [← heq]
  · have hmem : e'.1 ∈ (addMember e.1 e.2 members).map Member.clientID := by
      rw [hids]
      rcases List.mem_append.mp he' with hold | hnew
      · obtain ⟨m, hm, hc⟩ := h.complete e' hold
        have hin : e'.1 ∈ members.map Member.clientID := hc ▸ List.mem_map_of_mem hm
        split_ifs
        · exact hin
        · exact List.mem_append_left _ hin
      · rw [List.mem_singleton.mp hnew]
        split_ifs with hin
        · exact hin
        · exact List.mem_append_right _ (List.mem_singleton_self _)
    exact List.mem_map.mp hmem

theorem collected (filters : Filters) (topic : Str) :
    Collected (held filters topic) (collectMembers filters topic) := by
  unfold collectMembers
  -- from the left to the right, as the loops go
  induction held filters topic using List.reverseRecOn with
  | nil => exact ⟨List.nodup_nil, by simp, by simp⟩
  | append_singleton before e ih =>
    rw [List.foldl_append]
    exact ih.add e

theorem mem_held :
    ⟨c, q⟩ ∈ held filters topic ↔ ∃ f clients, filters.lookup f = some clients ∧
      matchSysProtected f topic = true ∧ clients.lookup c = some q := by
  unfold held
  simp only [List.mem_flatMap, List.mem_filter]
  constructor
  · rintro ⟨⟨f, clients⟩, ⟨hmem, hmatch⟩, hq⟩
    exact ⟨f, clients, AList.mem_lookup_iff.mpr hmem, hmatch, AList.mem_lookup_iff.mpr hq⟩
  · rintro ⟨f, clients, hf, hmatch, hq⟩
    exact ⟨⟨f, clients⟩, ⟨AList.mem_lookup_iff.mp hf, hmatch⟩, AList.mem_lookup_iff.mp hq⟩

theorem mem_onlineMembers :
    m ∈ onlineMembers isOnline filters topic ↔
      m ∈ collectMembers filters topic ∧ isOnline m.clientID = true := by
  unfold onlineMembers
  rw [List.mem_filter, (List.perm_insertionSort _ _).mem_iff]

/-! ## The pick -/

theorem pick_mem (last : Str) {members : List Member} {first : Member} (hfirst : first ∈ members) :
    pick last members first ∈ members.map Member.clientID := by
  unfold pick
  simp only
  split_ifs
  · cases hnext : members[(members.findIdx (fun m => !less m.clientID last) + 1) % members.length]? with
    | none => exact List.mem_map_of_mem hfirst
    | some m => exact List.mem_map_of_mem (List.mem_of_getElem? hnext)
  · exact List.mem_map_of_mem hfirst

theorem pickFrom_mem {last : Str} (h : pickFrom isOnline topic last filters = some m) :
    m ∈ onlineMembers isOnline filters topic := by
  unfold pickFrom at h
  split at h
  · cases h
  next first rest hmembers =>
    rw [hmembers]
    have hfirst : first ∈ first :: rest := List.mem_cons_self
    obtain ⟨m₀, hm₀, hid⟩ := List.mem_map.mp (pick_mem last hfirst)
    -- the search for the QoS finds a member of that name
    obtain ⟨m', hm'⟩ : ∃ m', (first :: rest).find?
        (fun m => m.clientID = pick last (first :: rest) first) = some m' := by
      apply Option.isSome_iff_exists.mp
      rw [List.find?_isSome]
      exact ⟨m₀, hm₀, by simpa using hid⟩
    have hname : m'.clientID = pick last (first :: rest) first := by simpa using List.find?_some hm'
    cases h
    rw [hm', ← hname]
    exact List.mem_of_find?_eq_some hm'

theorem pickFrom_isSome {last : Str} (hm : m ∈ onlineMembers isOnline filters topic) :
    (pickFrom isOnline topic last filters).isSome = true := by
  unfold pickFrom
  split
  next hnone =>
    rw [hnone] at hm
    cases hm
  · rfl

/-- What the loop over the groups returns: the pick of each, after the last one of the
same group. -/
theorem matchShared_foldl (topic : Str) (isOnline : Str → Bool) (last : Str → Str)
    (groups : List (Σ _ : Str, Filters)) :
    ∀ (r : Shared × List SharedSubscriber), groups.NodupKeys →
      (∀ g ∈ groups, r.1.sharedLast g.1 = last g.1) →
      (groups.foldl (matchGroup topic isOnline) r).2 =
        r.2 ++ groups.filterMap fun group =>
          (pickFrom isOnline topic (last group.1) group.2).map fun m =>
            ⟨m.clientID, m.qos, group.1⟩ := by
  induction groups with
  | nil => simp
  | cons group rest ih =>
    intro r hnd hlast
    obtain ⟨hnot, hrest⟩ := List.nodupKeys_cons.mp hnd
    rw [List.foldl_cons, List.filterMap_cons]
    unfold matchGroup
    rw [hlast group List.mem_cons_self]
    cases pickFrom isOnline topic (last group.1) group.2 with
    | none => exact ih r hrest fun g hg => hlast g (List.mem_cons_of_mem _ hg)
    | some m =>
      refine (ih _ hrest fun g hg => ?_).trans ?_
      · have hne : g.1 ≠ group.1 := fun heq => hnot (heq ▸ List.mem_keys_of_mem hg)
        exact (update_of_ne hne _ _).trans (hlast g (List.mem_cons_of_mem _ hg))
      · simp only [Option.map_some, List.append_assoc, List.singleton_append]

theorem matchShared_eq (sh : Shared) (topic : Str) (isOnline : Str → Bool) :
    (matchShared sh topic isOnline).2 = sh.sharedSubs.entries.filterMap fun group =>
      (pickFrom isOnline topic (sh.sharedLast group.1) group.2).map fun m =>
        ⟨m.clientID, m.qos, group.1⟩ :=
  matchShared_foldl topic isOnline sh.sharedLast sh.sharedSubs.entries (sh, [])
    sh.sharedSubs.nodupKeys fun _ _ => rfl

/-! ## What a group gets -/

section Group

variable (sh : Shared) (sessions : Sessions) (source : Str) (pkt : PublishPacket) (g : Str)

/-- What is handed over on the group's account. -/
def copies : List Handed :=
  (routeSharedPublish sh sessions source pkt).2.filterMap fun r =>
    if r.1.shareName = g then r.2 else none

def picked (topic : Str) : Option Member :=
  (sh.sharedSubs.lookup g).bind fun filters =>
    pickFrom (fun c => (sessions.lookup c).isSome) topic (sh.sharedLast g) filters

/-- The highest QoS the client holds in the group for the topic. -/
def IsGroupQoS (c topic : Str) (q : ℕ) : Prop :=
  (∃ f, matchSysProtected f topic = true ∧ sh.get g f c = some q) ∧
    ∀ f q', matchSysProtected f topic = true → sh.get g f c = some q' → q' ≤ q

/-- One online member gets one copy, at the lower of the two QoS. -/
def Served : Prop :=
  ∃ c q d, (sessions.lookup c).isSome = true ∧ IsGroupQoS sh g c pkt.topic q ∧
    copies sh sessions source pkt g = [d] ∧ d.clientID = c ∧ d.pkt = pkt ∧
    d.deliverQoS = min pkt.fixedHeader.qos.toNat q

/-- The pick falls on the publisher, and its ordinary filters that match are all No
Local. -/
def Suppressed : Prop :=
  ∃ m sess, picked sh sessions g pkt.topic = some m ∧
    sessions.lookup m.clientID = some sess ∧ source ≠ [] ∧ m.clientID = source ∧
    sess.allowsLocalPublish pkt.topic = false

end Group

theorem filterMap_key {α β : Type} (k : Str) (φ : α → Option β) (entries : List (Σ _ : Str, α)) :
    entries.NodupKeys → entries.filterMap (fun e => if e.1 = k then φ e.2 else none) =
      ((entries.dlookup k).bind φ).toList := by
  induction entries with
  | nil => simp
  | cons e rest ih =>
    intro hnd
    obtain ⟨k', v⟩ := e
    obtain ⟨hnot, hrest⟩ := List.nodupKeys_cons.mp hnd
    rcases eq_or_ne k' k with rfl | hne
    · -- no other entry has the key
      have hnone : rest.dlookup k' = none := List.dlookup_eq_none.mpr hnot
      rw [List.filterMap_cons, List.dlookup_cons_eq, ih hrest, hnone]
      simp only [if_true, Option.bind_some, Option.bind_none, Option.toList_none]
      cases φ v <;> rfl
    · rw [List.filterMap_cons, List.dlookup_cons_ne _ _ hne.symm, ih hrest]
      simp only [if_neg hne]

/-- What is made of the pick of one group. -/
theorem filterMap_matchShared {β : Type} (isOnline : Str → Bool) (g : Str)
    (φ : SharedSubscriber → Option β) :
    ((matchShared sh topic isOnline).2.filterMap fun s => if s.shareName = g then φ s else none) =
      ((sh.sharedSubs.lookup g).bind fun filters =>
        (pickFrom isOnline topic (sh.sharedLast g) filters).bind fun m =>
          φ ⟨m.clientID, m.qos, g⟩).toList := by
  refine Eq.trans ?_ (filterMap_key g _ sh.sharedSubs.entries sh.sharedSubs.nodupKeys)
  rw [matchShared_eq, List.filterMap_filterMap]
  apply List.filterMap_congr
  intro group _
  rcases eq_or_ne group.1 g with rfl | hne
  · cases pickFrom isOnline topic (sh.sharedLast group.1) group.2 with
    | none | some => simp
  · cases pickFrom isOnline topic (sh.sharedLast group.1) group.2 with
    | none | some => simp [hne]

theorem copies_eq (sh : Shared) (sessions : Sessions) (source : Str) (pkt : PublishPacket)
    (g : Str) : copies sh sessions source pkt g =
      ((picked sh sessions g pkt.topic).bind fun m =>
        deliverToSharedClient sessions m.clientID source pkt m.qos).toList := by
  unfold copies routeSharedPublish picked
  rw [Option.bind_assoc, List.filterMap_map]
  exact filterMap_matchShared _ g fun s =>
    deliverToSharedClient sessions s.clientID source pkt s.qos

variable {g : Str}

theorem get_eq_some {f : Str} (hfilters : sh.sharedSubs.lookup g = some filters) :
    sh.get g f c = some q ↔ ∃ clients, filters.lookup f = some clients ∧
      clients.lookup c = some q := by
  rw [Shared.get, hfilters, Option.bind_some, Option.bind_eq_some_iff]

theorem groupQoS_of_mem (hfilters : sh.sharedSubs.lookup g = some filters)
    (hm : m ∈ onlineMembers isOnline filters topic) :
    isOnline m.clientID = true ∧ IsGroupQoS sh g m.clientID topic m.qos := by
  obtain ⟨hmem, honline⟩ := mem_onlineMembers.mp hm
  obtain ⟨hheld, hmax⟩ := (collected filters topic).sound m hmem
  refine ⟨honline, ?_, fun f q hmatch hq => ?_⟩
  · obtain ⟨f, clients, hf, hmatch, hc⟩ := mem_held.mp hheld
    exact ⟨f, hmatch, (get_eq_some hfilters).mpr ⟨clients, hf, hc⟩⟩
  · obtain ⟨clients, hf, hc⟩ := (get_eq_some hfilters).mp hq
    exact hmax q (mem_held.mpr ⟨f, clients, hf, hmatch, hc⟩)

theorem exists_onlineMember (isOnline : Str → Bool) {f : Str} (honline : isOnline c = true)
    (hmatch : matchSysProtected f topic = true) (hq : sh.get g f c = some q) :
    ∃ filters, sh.sharedSubs.lookup g = some filters ∧
      ∃ m ∈ onlineMembers isOnline filters topic, m.clientID = c := by
  obtain ⟨filters, hfilters, hf⟩ := Option.bind_eq_some_iff.mp hq
  obtain ⟨clients, hclients, hc⟩ := Option.bind_eq_some_iff.mp hf
  obtain ⟨m, hm, hid⟩ := (collected filters topic).complete ⟨c, q⟩
    (mem_held.mpr ⟨f, clients, hclients, hmatch, hc⟩)
  exact ⟨filters, hfilters, m, mem_onlineMembers.mpr ⟨hm, hid ▸ honline⟩, hid⟩

theorem exists_picked {sessions : Sessions}
    (hmember : ∃ c f q, (sessions.lookup c).isSome = true ∧ matchSysProtected f topic = true ∧
      sh.get g f c = some q) :
    ∃ m, picked sh sessions g topic = some m ∧ (sessions.lookup m.clientID).isSome = true ∧
      IsGroupQoS sh g m.clientID topic m.qos := by
  obtain ⟨c, f, q, honline, hmatch, hq⟩ := hmember
  obtain ⟨filters, hfilters, m₀, hm₀, -⟩ :=
    exists_onlineMember (fun c => (sessions.lookup c).isSome) honline hmatch hq
  obtain ⟨m, hm⟩ := Option.isSome_iff_exists.mp (pickFrom_isSome hm₀)
  refine ⟨m, ?_, groupQoS_of_mem hfilters (pickFrom_mem hm)⟩
  rw [picked, hfilters]
  exact hm

/-- **A group with an online member that holds a matching filter is handed exactly one
copy, to one such member and at the lower of the two QoS, unless its pick falls on a
publisher whose ordinary filters suppress it; then it gets none.** -/
theorem served_iff (sh : Shared) (sessions : Sessions) (source : Str) (pkt : PublishPacket)
    (g : Str) (hfiled : ∀ c sess, sessions.lookup c = some sess → sess.clientID = c)
    (hmember : ∃ c f q, (sessions.lookup c).isSome = true ∧
      matchSysProtected f pkt.topic = true ∧ sh.get g f c = some q) :
    (Served sh sessions source pkt g ↔ ¬ Suppressed sh sessions source pkt g) ∧
      (Suppressed sh sessions source pkt g → copies sh sessions source pkt g = []) := by
  obtain ⟨m, hm, honline, hqos⟩ := exists_picked hmember
  obtain ⟨sess, hsess⟩ := Option.isSome_iff_exists.mp honline
  have hcopies : copies sh sessions source pkt g =
      (deliverToSharedClient sessions m.clientID source pkt m.qos).toList := by
    rw [copies_eq, hm, Option.bind_some]
  unfold deliverToSharedClient at hcopies
  simp only [hsess] at hcopies
  by_cases hdrop : source ≠ [] ∧ m.clientID = source ∧ (!sess.allowsLocalPublish pkt.topic) = true
  · -- the copy is dropped
    rw [if_pos hdrop] at hcopies
    have hsuppressed : Suppressed sh sessions source pkt g :=
      ⟨m, sess, hm, hsess, hdrop.1, hdrop.2.1, by simpa using hdrop.2.2⟩
    refine ⟨⟨?_, fun hnot => absurd hsuppressed hnot⟩, fun _ => hcopies⟩
    rintro ⟨c, q, d, -, -, hone, -⟩
    rw [hcopies] at hone
    cases hone
  · rw [if_neg hdrop] at hcopies
    have hnot : ¬ Suppressed sh sessions source pkt g := by
      rintro ⟨m', sess', hm', hsess', hsource, hself, hlocal⟩
      cases hm.symm.trans hm'
      cases hsess.symm.trans hsess'
      exact hdrop ⟨hsource, hself, by simp [hlocal]⟩
    refine ⟨⟨fun _ => hnot, fun _ => ?_⟩, fun h => absurd h hnot⟩
    refine ⟨m.clientID, m.qos, _, honline, hqos, hcopies, hfiled _ _ hsess, rfl, ?_⟩
    simp only [deliverWithQoS]
    split_ifs <;> omega

/-! ### Two members, one of them with an ordinary No Local filter -/

def groupOfTwo : Shared :=
  (({} : Shared).subscribeShared (ascii "g") (ascii "a") (ascii "p") 1).subscribeShared (ascii "g")
    (ascii "a") (ascii "q") 2

/-- `p` has also subscribed to `a`, with No Local. -/
def bothOnline : Sessions :=
  ((∅ : Sessions).insert (ascii "q") { clientID := ascii "q" }).insert (ascii "p")
    (({ clientID := ascii "p" } : Session).addSubscriptionFilter
      ⟨ascii "a", 1, true, false, 0, none⟩)

def publishA : PublishPacket where
  fixedHeader := { packetType := .publish, qos := 1 }
  packetID := 1
  topic := ascii "a"
  payload := ascii "m"

theorem bothOnline_filed : ∀ c sess, bothOnline.lookup c = some sess → sess.clientID = c := by
  have hall : ∀ e ∈ bothOnline.entries, e.2.clientID = e.1 := by decide +kernel
  intro c sess h
  exact hall ⟨c, sess⟩ (AList.mem_lookup_iff.mp h)

/-- A message of a third client reaches the group. -/
theorem other_publisher_served : Served groupOfTwo bothOnline (ascii "x") publishA (ascii "g") := by
  refine (served_iff groupOfTwo bothOnline (ascii "x") publishA (ascii "g") bothOnline_filed
    ⟨ascii "q", ascii "a", 2, by decide +kernel, by decide +kernel, by decide +kernel⟩).1.mpr ?_
  rintro ⟨m, sess, hm, -, -, hself, -⟩
  have hpicked : (picked groupOfTwo bothOnline (ascii "g") publishA.topic).map Member.clientID =
      some (ascii "p") := by decide +kernel
  rw [hm, Option.map_some, hself] at hpicked
  exact absurd hpicked (by decide)

/-- A message of `p` does not, though `q` is online. -/
theorem local_publisher_not_served :
    (bothOnline.lookup (ascii "q")).isSome = true ∧
      groupOfTwo.get (ascii "g") (ascii "a") (ascii "q") = some 2 ∧
      matchSysProtected (ascii "a") publishA.topic = true ∧
      copies groupOfTwo bothOnline (ascii "p") publishA (ascii "g") = [] ∧
      ¬ Served groupOfTwo bothOnline (ascii "p") publishA (ascii "g") := by
  have hnone : copies groupOfTwo bothOnline (ascii "p") publishA (ascii "g") = [] := by
    decide +kernel
  refine ⟨by decide +kernel, by decide +kernel, by decide +kernel, hnone, ?_⟩
  rintro ⟨c, q, d, -, -, hone, -⟩
  cases hone

end SharkMqtt.Broker.SharedSubscriptions
