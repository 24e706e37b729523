import Mathlib.Data.List.Dedup
import Mathlib.Data.List.Sort
import SharkMqtt.Lib.Keyed
import SharkMqtt.Lib.Stamps
import SharkMqtt.Protocol.Topic

/-!
# Connection flapping

`broker/flapping.go`. `Check` counts the connection attempts of an address and of a
ClientID in a sliding window, both under keys of one map. More than `MaxConnects` of them
put both keys into a penalty. The map is bounded: a new key that finds it full evicts the
quarter that was seen least recently.

The four results below say how far this goes. An attempt that trips must find both its
keys tracked still, or the penalty makes an entry without room for stamps; its address is
tracked still when no other key was last seen at the same instant (`bounded_of_spared`).
The stamps are the window as long as none is overwritten (`trips_iff`). A penalty lasts
while its key is not evicted (`penalty_lasts`). And peers do not disturb each other as long
as they have no key in common (`decision_eq_of_apart`).
-/

namespace SharkMqtt.Broker.Flapping

open Lib

/-! ## The detector -/

structure FlappingConfig where
  enabled : Bool
  maxConnects : ℤ
  slidingWindow : ℤ
  penaltyDuration : ℤ
  maxTrackedClients : ℤ

/-- The times of 24 bytes a slice can have in an address space of 48 bits: beyond it
`make([]time.Time, 0, MaxConnects+1)` panics. -/
def maxStamps : ℕ := Nat.pow 2 48 / 24

/-- The configuration a detector works with; `none` is no bound. -/
structure Limits where
  enabled : Bool
  maxConnects : ℕ
  window : ℕ
  penalty : ℕ
  maxTracked : Option ℕ
  fits : maxConnects < maxStamps

def FlappingConfig.applyDefaults (c : FlappingConfig) (h : c.maxConnects < maxStamps) : Limits where
  enabled := c.enabled
  maxConnects := if c.maxConnects < 1 then 1 else c.maxConnects.toNat
  fits := by
    have hpos : 1 < maxStamps := by decide
    split_ifs <;> omega
  window := if c.slidingWindow ≤ 0 then 10000000000 else c.slidingWindow.toNat
  penalty := if c.penaltyDuration ≤ 0 then 60000000000 else c.penaltyDuration.toNat
  maxTracked :=
    if c.maxTrackedClients = 0 then some 10000
    else if c.maxTrackedClients < 0 then none
    else some c.maxTrackedClients.toNat

inductive FlappingDecision where
  | allow
  | rejected
  | exceeded
deriving DecidableEq

/-- `flappingEntry`, with its key. `cap` is the capacity of the slice. -/
structure Entry where
  key : Str
  stamps : List ℕ := []
  cap : ℕ := 0
  head : ℕ := 0
  penalizedUntil : ℕ := 0
  lastSeen : ℕ := 0
  aliases : List Str := []

abbrev Keys := Keyed Entry.key

namespace Entry

def fresh (lim : Limits) (key : Str) : Entry := { key, cap := lim.maxConnects + 1 }

def live (e : Entry) : List ℕ := e.stamps.drop e.head

/-- Stamps that fell out of the window are dropped, and compacted away when they are
half of the slice. -/
def expire (lim : Limits) (e : Entry) (now : ℕ) : Entry :=
  let head := e.head + (e.live.takeWhile fun t => decide (t + lim.window < now)).length
  if 0 < head ∧ head * 2 ≥ e.stamps.length then { e with stamps := e.stamps.drop head, head := 0 }
  else { e with head := head }

/-- The attempt gets its stamp; `none` where the index is out of range. -/
def stamp (e : Entry) (now : ℕ) : Option Entry :=
  if e.stamps.length < e.cap then some { e with stamps := e.stamps ++ [now], lastSeen := now }
  else if e.head < e.stamps.length then
    some { e with stamps := e.stamps.set e.head now, lastSeen := now }
  else none

/-- What `record` does to the entry. -/
def attempt (lim : Limits) (e : Entry) (now : ℕ) : Option Entry := (e.expire lim now).stamp now

def trips (lim : Limits) (e : Entry) : Bool := decide (lim.maxConnects < e.live.length)

def link (e : Entry) (other : Str) : Entry :=
  { e with aliases := if other ∈ e.aliases then e.aliases else e.aliases ++ [other] }

end Entry

/-- `sort.Slice` by age, over the candidates in the order of the map. -/
structure Sorting where
  sort : List (Str × ℕ) → List (Str × ℕ)
  perm : ∀ l, (sort l).Perm l
  sorted : ∀ l, (sort l).Pairwise fun a b => a.2 ≤ b.2

/-- The keys with their ages, and the oldest quarter of them. -/
def candidates (keys : Keys) : List (Str × ℕ) := keys.table.entries.map fun e => (e.1, e.2.lastSeen)

def oldest (order : Sorting) (keys : Keys) : List (Str × ℕ) :=
  (order.sort (candidates keys)).take (max 1 ((candidates keys).length / 4))

def evictOldestLocked (order : Sorting) (keys : Keys) : Keys :=
  keys.eraseAll ((oldest order keys).map Prod.fst)

def roomFor (lim : Limits) (order : Sorting) (keys : Keys) : Keys :=
  if lim.maxTracked.any (· ≤ keys.size) then evictOldestLocked order keys else keys

/-- The entry of a key that is recorded, and the map it goes into. -/
def entryFor (lim : Limits) (order : Sorting) (keys : Keys) (key : Str) : Keys × Entry :=
  match keys.lookup key with
  | some e => (keys, e)
  | none => (roomFor lim order keys, Entry.fresh lim key)

/-- Whether the limit is exceeded; `none` is a panic. -/
def record (lim : Limits) (order : Sorting) (keys : Keys) (key : Str) (now : ℕ) :
    Option (Keys × Bool) :=
  if key = [] then some (keys, false)
  else
    let r := entryFor lim order keys key
    (r.2.attempt lim now).map fun e => (r.1.insert { e with key := key }, e.trips lim)

def penalize (lim : Limits) (keys : Keys) (key : Str) (now : ℕ) : Keys :=
  if key = [] then keys
  else
    let e := (keys.lookup key).getD { key }
    keys.insert
      { e with
        key := key, penalizedUntil := now + lim.penalty, stamps := [], head := 0, lastSeen := now }

def link (keys : Keys) (a b : Str) : Keys :=
  if a = [] ∨ b = [] ∨ a = b then keys
  else
    match keys.lookup a, keys.lookup b with
    | some ea, some eb => (keys.insert (ea.link b)).insert (eb.link a)
    | _, _ => keys

def penalized (keys : Keys) (key : Str) (now : ℕ) : Bool :=
  decide (key ≠ []) && (keys.lookup key).any fun e => decide (now < e.penalizedUntil)

def touch (keys : Keys) (key : Str) (now : ℕ) : Keys :=
  match keys.lookup key with
  | none => keys
  | some e => keys.insert { e with lastSeen := now }

structure Call where
  ip : Str
  clientID : Str
  now : ℕ
deriving DecidableEq

def Call.keys (call : Call) : List Str := [call.ip, call.clientID].filter fun k => decide (k ≠ [])

variable {call : Call}

theorem Call.mem_keys {k : Str} : k ∈ call.keys ↔ (k = call.ip ∨ k = call.clientID) ∧ k ≠ [] := by
  simp [Call.keys]

theorem Call.ip_mem (h : call.ip ≠ []) : call.ip ∈ call.keys := mem_keys.mpr ⟨Or.inl rfl, h⟩

theorem Call.clientID_mem (h : call.clientID ≠ []) : call.clientID ∈ call.keys :=
  mem_keys.mpr ⟨Or.inr rfl, h⟩

def recordBoth (lim : Limits) (order : Sorting) (keys : Keys) (call : Call) : Option (Keys × Bool) :=
  (record lim order keys call.ip call.now).bind fun r =>
    (record lim order r.1 call.clientID call.now).map fun r' =>
      (link r'.1 call.ip call.clientID, r.2 || r'.2)

/-- An attempt that trips penalises both keys. -/
def settle (lim : Limits) (call : Call) (r : Keys × Bool) : Keys × FlappingDecision :=
  if r.2 then (penalize lim (penalize lim r.1 call.ip call.now) call.clientID call.now, .exceeded)
  else (r.1, .allow)

def check (lim : Limits) (order : Sorting) (keys : Keys) (call : Call) :
    Option (Keys × FlappingDecision) :=
  if !lim.enabled then some (keys, .allow)
  else if penalized keys call.ip call.now then some (touch keys call.ip call.now, .rejected)
  else if penalized keys call.clientID call.now then
    some (touch keys call.clientID call.now, .rejected)
  else (recordBoth lim order keys call).map (settle lim call)

def reset (keys : Keys) (key : Str) : Keys :=
  (keys.eraseAll ((keys.lookup key).elim [] Entry.aliases)).erase key

def cleanup (lim : Limits) (keys : Keys) (now : ℕ) : Keys :=
  keys.filterMap
    (fun e =>
      if now < e.penalizedUntil ∨ ∃ t ∈ e.live, ¬ t + lim.window < now then some e else none)
    (by intro a b h; split_ifs at h; cases h; rfl)

inductive Label where
  | check (call : Call) (order : Sorting)
  | reset (key : Str)
  | cleanup (now : ℕ)

def step (lim : Limits) (keys : Keys) : Label → Option Keys
  | .check call order => (check lim order keys call).map Prod.fst
  | .reset key => some (reset keys key)
  | .cleanup now => some (cleanup lim keys now)

variable {lim : Limits} {order : Sorting} {keys keys' : Keys} {key k : Str} {now : ℕ} {e : Entry}
  {r : Keys × FlappingDecision} {times : List ℕ}

theorem penalized_ne_nil (h : penalized keys key now = true) : key ≠ [] := by
  simp only [penalized, Bool.and_eq_true, decide_eq_true_eq] at h
  exact h.1

/-- What `Check` can do: nothing, reject an attempt with a penalised key, or record it. -/
theorem check_cases (h : check lim order keys call = some r) :
    r = (keys, .allow) ∨
    (∃ key ∈ call.keys, penalized keys key call.now = true ∧
      r = (touch keys key call.now, .rejected)) ∨
    (penalized keys call.ip call.now = false ∧ penalized keys call.clientID call.now = false ∧
      ∃ r', recordBoth lim order keys call = some r' ∧ r = settle lim call r') := by
  unfold check at h
  split_ifs at h with hoff hip hid
  · cases h
    exact Or.inl rfl
  · cases h
    exact Or.inr (Or.inl ⟨_, Call.ip_mem (penalized_ne_nil hip), hip, rfl⟩)
  · cases h
    exact Or.inr (Or.inl ⟨_, Call.clientID_mem (penalized_ne_nil hid), hid, rfl⟩)
  · obtain ⟨r', hr', rfl⟩ := Option.map_eq_some_iff.mp h
    exact Or.inr (Or.inr ⟨Bool.eq_false_of_not_eq_true hip, Bool.eq_false_of_not_eq_true hid,
      r', hr', rfl⟩)

/-! ## No panic, and a bounded map -/

theorem head_expire (lim : Limits) (e : Entry) (now : ℕ) :
    (e.expire lim now).head = 0 ∨
      (e.expire lim now).head * 2 < (e.expire lim now).stamps.length := by
  unfold Entry.expire
  simp only
  split_ifs with h
  · exact Or.inl rfl
  · simp only
    omega

@[simp] theorem cap_expire : (e.expire lim now).cap = e.cap := by
  unfold Entry.expire
  simp only
  split_ifs <;> rfl

theorem attempt_of_cap (lim : Limits) (now : ℕ) (h : 0 < e.cap) :
    ∃ e', e.attempt lim now = some e' ∧ e'.cap = e.cap := by
  unfold Entry.attempt Entry.stamp
  have hhead := head_expire lim e now
  split_ifs with hroom hindex
  · exact ⟨_, rfl, cap_expire⟩
  · exact ⟨_, rfl, cap_expire⟩
  · rw [cap_expire] at hroom
    omega

def Drops (keys keys' : Keys) : Prop := ∀ k, keys'.lookup k = keys.lookup k ∨ keys'.lookup k = none

theorem drops_eraseAll (ks : List Str) : Drops keys (keys.eraseAll ks) := by
  intro k
  rw [Keyed.lookup_eraseAll]
  split_ifs
  · exact Or.inr rfl
  · exact Or.inl rfl

theorem drops_reset : Drops keys (reset keys key) := by
  intro k
  rw [reset, Keyed.lookup_erase, Keyed.lookup_eraseAll]
  split_ifs
  · exact Or.inr rfl
  · exact Or.inr rfl
  · exact Or.inl rfl

theorem drops_cleanup : Drops keys (cleanup lim keys now) := by
  intro k
  rw [cleanup, Keyed.lookup_filterMap]
  cases keys.lookup k with
  | none => exact Or.inl rfl
  | some e =>
    simp only [Option.bind_some]
    split_ifs
    · exact Or.inl rfl
    · exact Or.inr rfl

theorem length_candidates : (candidates keys).length = keys.size := by
  simp [candidates, Keyed.size, AList.keys, List.keys]

theorem size_evict (h : 0 < keys.size) : (evictOldestLocked order keys).size < keys.size := by
  have hlen : (candidates keys).length = keys.size := length_candidates
  -- the first candidate goes
  obtain ⟨v, hv⟩ : ∃ v, v ∈ oldest order keys := by
    refine List.exists_mem_of_length_pos ?_
    rw [oldest, List.length_take, (order.perm _).length_eq]
    omega
  obtain ⟨⟨key, e⟩, he, rfl⟩ :=
    List.mem_map.mp ((order.perm _).mem_iff.mp (List.mem_of_mem_take hv))
  have hmem : key ∈ keys.table.keys := List.mem_map.mpr ⟨_, he, rfl⟩
  have hle : (evictOldestLocked order keys).size ≤ (keys.table.keys.erase key).length := by
    refine Keyed.size_le_length fun k hk => ?_
    rw [evictOldestLocked, Keyed.lookup_eraseAll] at hk
    split_ifs at hk with hvictim
    · cases hk
    · refine (keys.table.keys_nodup.mem_erase_iff).mpr ⟨?_, (keys.mem_keys_iff k).mpr hk⟩
      rintro rfl
      exact hvictim (List.mem_map.mpr ⟨_, hv, rfl⟩)
  rw [List.length_erase_of_mem hmem] at hle
  have hsize : keys.table.keys.length = keys.size := rfl
  omega

structure Inv (n : ℕ) (keys : Keys) : Prop where
  size : keys.size ≤ n
  cap : ∀ k e, keys.lookup k = some e → 0 < e.cap

variable {n : ℕ}

theorem inv_empty : Inv n (∅ : Keys) := ⟨Nat.zero_le n, fun _ _ h => by cases h⟩

theorem tracked_insert (h : (keys.lookup k).isSome = true) :
    ((keys.insert e).lookup k).isSome = true := by
  rw [Keyed.lookup_insert]
  split_ifs
  · rfl
  · exact h

theorem tracked_record {r : Keys × Bool} (h : record lim order keys key now = some r)
    (hkey : key ≠ []) : (r.1.lookup key).isSome = true := by
  unfold record at h
  rw [if_neg hkey] at h
  obtain ⟨e, -, rfl⟩ := Option.map_eq_some_iff.mp h
  rw [Keyed.lookup_insert, if_pos rfl]
  rfl

theorem tracked_link (a b : Str) (h : (keys.lookup k).isSome = true) :
    ((link keys a b).lookup k).isSome = true := by
  unfold link
  split_ifs
  · exact h
  · split
    · exact tracked_insert (tracked_insert h)
    · exact h

section

variable (h : Inv n keys)

include h

theorem Inv.drops (hdrops : Drops keys keys') : Inv n keys' where
  size := by
    refine le_trans (Keyed.size_mono fun k hk => ?_) h.size
    rcases hdrops k with heq | hnone
    · rwa [← heq]
    · rw [hnone] at hk
      cases hk
  cap := by
    intro k e he
    rcases hdrops k with heq | hnone
    · exact h.cap k e (heq.symm.trans he)
    · rw [hnone] at he
      cases he

theorem Inv.insert (hsize : (keys.insert e).size ≤ n) (hcap : 0 < e.cap) :
    Inv n (keys.insert e) where
  size := hsize
  cap := by
    intro k e' he
    rw [Keyed.lookup_insert] at he
    split_ifs at he
    · cases he
      exact hcap
    · exact h.cap k e' he

theorem Inv.replace (hkey : e.key = key) (htracked : (keys.lookup key).isSome = true)
    (hcap : 0 < e.cap) : Inv n (keys.insert e) := by
  refine h.insert ?_ hcap
  rw [Keyed.size_insert, hkey, if_pos htracked]
  exact h.size

theorem Inv.link (a b : Str) : Inv n (link keys a b) := by
  unfold Flapping.link
  split_ifs
  · exact h
  · split
    next ea eb ha hb =>
      have ha' : Inv n (keys.insert (ea.link b)) :=
        h.replace (keys.keyed a ea ha) (Option.isSome_of_mem ha) (h.cap a ea ha)
      exact ha'.replace (keys.keyed b eb hb) (tracked_insert (Option.isSome_of_mem hb))
        (h.cap b eb hb)
    · exact h

theorem Inv.penalize (htracked : key ≠ [] → (keys.lookup key).isSome = true) :
    Inv n (penalize lim keys key now) := by
  unfold Flapping.penalize
  split_ifs with hkey
  · exact h
  · obtain ⟨e, he⟩ := Option.isSome_iff_exists.mp (htracked hkey)
    refine h.replace rfl (htracked hkey) ?_
    rw [he]
    exact h.cap key e he

theorem Inv.touch : Inv n (touch keys key now) := by
  unfold Flapping.touch
  split
  · exact h
  next e he =>
    exact h.replace (keys.keyed key e he) (Option.isSome_of_mem he) (h.cap key e he)

section

variable (hn : lim.maxTracked = some n) (hpos : 0 < n)

include hn hpos

theorem Inv.roomFor (order : Sorting) :
    (roomFor lim order keys).size < n ∧ Inv n (roomFor lim order keys) := by
  unfold Flapping.roomFor
  rw [hn]
  simp only [Option.any_some, decide_eq_true_eq]
  split_ifs with hfull
  · exact ⟨lt_of_lt_of_le (size_evict (by omega)) h.size, h.drops (drops_eraseAll _)⟩
  · exact ⟨by omega, h⟩

/-- The entry that is recorded can be stamped, and goes back within the bound. -/
theorem Inv.entryFor (order : Sorting) (key : Str) :
    0 < (entryFor lim order keys key).2.cap ∧ ∀ e : Entry, e.key = key → 0 < e.cap →
      Inv n ((entryFor lim order keys key).1.insert e) := by
  unfold Flapping.entryFor
  cases hlookup : keys.lookup key with
  | some e =>
    exact ⟨h.cap key e hlookup, fun e' he' => h.replace he' (Option.isSome_of_mem hlookup)⟩
  | none =>
    obtain ⟨hroom, hinv⟩ := h.roomFor hn hpos order
    refine ⟨Nat.succ_pos _, fun e he hcap => hinv.insert ?_ hcap⟩
    rw [Keyed.size_insert]
    split_ifs
    · exact le_of_lt hroom
    · exact hroom

theorem Inv.record (order : Sorting) (key : Str) (now : ℕ) :
    ∃ r, record lim order keys key now = some r ∧ Inv n r.1 := by
  unfold Flapping.record
  split_ifs
  · exact ⟨_, rfl, h⟩
  · obtain ⟨hroom, hback⟩ := h.entryFor hn hpos order key
    obtain ⟨e, he, hcap⟩ := attempt_of_cap lim now hroom
    simp only [he, Option.map_some]
    exact ⟨_, rfl, hback { e with key := key } rfl (hcap ▸ hroom)⟩

theorem Inv.recordBoth (order : Sorting) (call : Call) :
    ∃ r, recordBoth lim order keys call = some r ∧ Inv n r.1 ∧
      (call.clientID ≠ [] → (r.1.lookup call.clientID).isSome = true) := by
  obtain ⟨r₁, hr₁, hinv₁⟩ := h.record hn hpos order call.ip call.now
  obtain ⟨r₂, hr₂, hinv₂⟩ := hinv₁.record hn hpos order call.clientID call.now
  unfold Flapping.recordBoth
  simp only [hr₁, hr₂, Option.bind_some, Option.map_some]
  exact ⟨_, rfl, hinv₂.link _ _, fun hne => tracked_link _ _ (tracked_record hr₂ hne)⟩

theorem Inv.answers (order : Sorting) (call : Call) : ∃ r, check lim order keys call = some r := by
  obtain ⟨r, hr, -⟩ := h.recordBoth hn hpos order call
  unfold check
  rw [hr]
  split_ifs <;> exact ⟨_, rfl⟩

theorem Inv.check
    (hip : ∀ r, Flapping.recordBoth lim order keys call = some r → call.ip ≠ [] →
      (r.1.lookup call.ip).isSome = true) :
    ∃ r, check lim order keys call = some r ∧ Inv n r.1 := by
  obtain ⟨r, hr⟩ := h.answers hn hpos order call
  refine ⟨r, hr, ?_⟩
  rcases check_cases hr with rfl | ⟨key, -, -, rfl⟩ | ⟨-, -, r', hr', rfl⟩
  · exact h
  · exact h.touch
  · obtain ⟨r'', hr'', hinv, htracked⟩ := h.recordBoth hn hpos order call
    cases hr''.symm.trans hr'
    unfold settle
    split_ifs
    · refine (hinv.penalize (hip r' hr')).penalize fun hne => ?_
      unfold Flapping.penalize
      split_ifs
      · exact htracked hne
      · exact tracked_insert (htracked hne)
    · exact hinv

end

end

/-! ## The other keys -/

/-- The entry of `k` is left alone, or evicted where the map is bounded. -/
def Left (lim : Limits) (k : Str) (keys keys' : Keys) : Prop :=
  keys'.lookup k = keys.lookup k ∨ lim.maxTracked.isSome = true ∧ keys'.lookup k = none

theorem Left.trans {keys'' : Keys} (h : Left lim k keys keys') (h' : Left lim k keys' keys'') :
    Left lim k keys keys'' := by
  rcases h' with heq | hnone
  · unfold Left
    rw [heq]
    exact h
  · exact Or.inr hnone

theorem Left.insert (h : Left lim k keys keys') (hk : k ≠ e.key) : Left lim k keys (keys'.insert e) :=
  h.trans (Or.inl (by rw [Keyed.lookup_insert, if_neg hk]))

/-- The keys that go when `key` is recorded. -/
def evicted (lim : Limits) (order : Sorting) (keys : Keys) (key : Str) : List Str :=
  if key ≠ [] ∧ keys.lookup key = none ∧ lim.maxTracked.any (· ≤ keys.size) then
    (oldest order keys).map Prod.fst
  else []

theorem lookup_record {r : Keys × Bool} (h : record lim order keys key now = some r)
    (hk : key ≠ [] → k ≠ key) :
    r.1.lookup k = if k ∈ evicted lim order keys key then none else keys.lookup k := by
  unfold Flapping.record at h
  unfold evicted
  split_ifs at h with hkey
  · cases h
    simp [hkey]
  · obtain ⟨e, -, rfl⟩ := Option.map_eq_some_iff.mp h
    rw [Keyed.lookup_insert, if_neg (hk hkey)]
    unfold entryFor roomFor
    cases keys.lookup key with
    | some e => simp
    | none =>
      by_cases hfull : lim.maxTracked.any (· ≤ keys.size) = true
      · simp only [hfull, hkey, if_true, ne_eq, not_false_eq_true, and_self, evictOldestLocked,
          Keyed.lookup_eraseAll]
        split_ifs <;> rfl
      · simp [hfull]

theorem Left.record {r : Keys × Bool} (h : record lim order keys key now = some r)
    (hk : key ≠ [] → k ≠ key) : Left lim k keys r.1 := by
  unfold Left
  rw [lookup_record h hk]
  split_ifs with hgone
  · refine Or.inr ⟨?_, rfl⟩
    unfold evicted at hgone
    split_ifs at hgone with hfull
    · cases hbound : lim.maxTracked with
      | none => simp [hbound] at hfull
      | some n => rfl
    · cases hgone
  · exact Or.inl rfl

theorem Left.link (h : Left lim k keys keys') {a b : Str} (ha : a ≠ [] → k ≠ a)
    (hb : b ≠ [] → k ≠ b) : Left lim k keys (link keys' a b) := by
  unfold Flapping.link
  split_ifs with hempty
  · exact h
  · obtain ⟨hea, heb, -⟩ := not_or.mp hempty |>.imp_right not_or.mp
    split
    next ea eb hla hlb =>
      refine (h.insert ?_).insert ?_
      · exact keys'.keyed a ea hla ▸ ha hea
      · exact keys'.keyed b eb hlb ▸ hb heb
    · exact h

theorem lookup_penalize (hk : key ≠ [] → k ≠ key) :
    (penalize lim keys key now).lookup k = keys.lookup k := by
  unfold penalize
  split_ifs with hkey
  · rfl
  · rw [Keyed.lookup_insert, if_neg (hk hkey)]

theorem Left.touch (hk : k ≠ key) : Left lim k keys (touch keys key now) := by
  unfold Flapping.touch
  split
  · exact Or.inl rfl
  next e he => exact Left.insert (Or.inl rfl) (keys.keyed key e he ▸ hk)

/-- `Check` touches no entry but those of its keys, evictions apart. -/
theorem Left.check (h : check lim order keys call = some r) (hk : k ∉ call.keys) :
    Left lim k keys r.1 := by
  have hip : call.ip ≠ [] → k ≠ call.ip := by
    rintro hne rfl
    exact hk (Call.ip_mem hne)
  have hid : call.clientID ≠ [] → k ≠ call.clientID := by
    rintro hne rfl
    exact hk (Call.clientID_mem hne)
  rcases check_cases h with rfl | ⟨key, hkey, -, rfl⟩ | ⟨-, -, r', hr', rfl⟩
  · exact Or.inl rfl
  · refine Left.touch ?_
    rintro rfl
    exact hk hkey
  · obtain ⟨r₁, hr₁, hr'⟩ := Option.bind_eq_some_iff.mp hr'
    obtain ⟨r₂, hr₂, rfl⟩ := Option.map_eq_some_iff.mp hr'
    have hleft := ((Left.record hr₁ hip).trans (Left.record hr₂ hid)).link hip hid
    unfold settle
    split_ifs
    · exact hleft.trans (Or.inl ((lookup_penalize hid).trans (lookup_penalize hip)))
    · exact hleft

/-! ## Its own key -/

theorem mem_candidates {t : ℕ} :
    (k, t) ∈ candidates keys ↔ (keys.lookup k).map Entry.lastSeen = some t := by
  unfold candidates Keyed.lookup
  rw [List.mem_map, Option.map_eq_some_iff]
  constructor
  · rintro ⟨⟨k', e⟩, he, heq⟩
    cases heq
    exact ⟨e, AList.mem_lookup_iff.mpr he, rfl⟩
  · rintro ⟨e, he, rfl⟩
    exact ⟨⟨k, e⟩, AList.mem_lookup_iff.mp he, rfl⟩

theorem notMem_oldest (hnow : (k, now) ∈ candidates keys)
    (hothers : ∀ c ∈ candidates keys, c.1 = k ∨ c.2 < now) (hsize : 2 ≤ keys.size) :
    k ∉ (oldest order keys).map Prod.fst := by
  intro hmem
  obtain ⟨⟨_, t⟩, hc, rfl⟩ := List.mem_map.mp hmem
  unfold oldest at hc
  have hperm := order.perm (candidates keys)
  have hsorted := order.sorted (candidates keys)
  have hnodup : ((order.sort (candidates keys)).map Prod.fst).Nodup := by
    rw [(hperm.map Prod.fst).nodup_iff, candidates, List.map_map]
    exact keys.table.keys_nodup
  have hlen : (order.sort (candidates keys)).length = keys.size :=
    hperm.length_eq.trans length_candidates
  have hage := (mem_candidates.mp (hperm.mem_iff.mp (List.mem_of_mem_take hc))).symm.trans
    (mem_candidates.mp hnow)
  -- some key stays, and was not seen before those that go
  obtain ⟨d, hd⟩ : ∃ d, d ∈ (order.sort (candidates keys)).drop
      (max 1 ((candidates keys).length / 4)) := by
    refine List.exists_mem_of_length_pos ?_
    rw [List.length_drop, hlen, length_candidates]
    omega
  rw [← List.take_append_drop (max 1 ((candidates keys).length / 4)) (order.sort _)]
    at hsorted hnodup
  have hle := (List.pairwise_append.mp hsorted).2.2 _ hc d hd
  rw [List.map_append] at hnodup
  cases hage
  rcases hothers d (hperm.mem_iff.mp (List.mem_of_mem_drop hd)) with heq | hlt
  · exact List.disjoint_of_nodup_append hnodup (List.mem_map_of_mem hc)
      (heq ▸ List.mem_map_of_mem hd)
  · exact absurd hle (not_le.mpr hlt)

/-- The address of an attempt is not the oldest key when its ClientID needs room: there is room
for both, or no other key was last seen at this instant. -/
def Spared (n : ℕ) (keys : Keys) : Label → Prop
  | .check call _ => call.ip = [] ∨ call.clientID = [] ∨ keys.size + 2 ≤ n ∨
      ∀ c ∈ candidates keys, c.1 = call.ip ∨ c.2 < call.now
  | .reset _ | .cleanup _ => True

instance (n : ℕ) (keys : Keys) (l : Label) : Decidable (Spared n keys l) := by
  cases l <;> dsimp only [Spared] <;> infer_instance

theorem size_record {r : Keys × Bool} (h : record lim order keys key now = some r) :
    r.1.size ≤ keys.size + 1 := by
  have hkeys : ∀ k, (r.1.lookup k).isSome = true → k ∈ key :: keys.table.keys := by
    intro k hk
    by_cases heq : k = key
    · exact heq ▸ List.mem_cons_self
    · rw [lookup_record h fun _ => heq] at hk
      split_ifs at hk
      · cases hk
      · exact List.mem_cons_of_mem _ ((keys.mem_keys_iff k).mpr hk)
  exact Keyed.size_le_length hkeys

theorem mem_candidates_record {r : Keys × Bool} (h : record lim order keys key now = some r)
    (hkey : key ≠ []) : (key, now) ∈ candidates r.1 := by
  unfold record at h
  rw [if_neg hkey] at h
  obtain ⟨e, he, rfl⟩ := Option.map_eq_some_iff.mp h
  rw [mem_candidates, Keyed.lookup_insert, if_pos rfl]
  unfold Entry.attempt Entry.stamp at he
  split_ifs at he <;> cases he <;> rfl

/-- The address is tracked still where the ClientID does not evict it. -/
theorem tracked_both {r : Keys × Bool} (h : recordBoth lim order keys call = some r)
    (hip : call.ip ≠ [])
    (hkept : ∀ r₁, record lim order keys call.ip call.now = some r₁ →
      call.ip ∉ evicted lim order r₁.1 call.clientID) : (r.1.lookup call.ip).isSome = true := by
  obtain ⟨r₁, hr₁, h⟩ := Option.bind_eq_some_iff.mp h
  obtain ⟨r₂, hr₂, rfl⟩ := Option.map_eq_some_iff.mp h
  refine tracked_link _ _ ?_
  by_cases heq : call.ip = call.clientID
  · rw [heq] at hip ⊢
    exact tracked_record hr₂ hip
  · rw [lookup_record hr₂ fun _ => heq, if_neg (hkept r₁ hr₁)]
    exact tracked_record hr₁ hip

theorem tracked_of_spared {r : Keys × Bool} (hn : lim.maxTracked = some n) (htwo : 2 ≤ n)
    (hspared : Spared n keys (.check call order)) (h : recordBoth lim order keys call = some r)
    (hip : call.ip ≠ []) : (r.1.lookup call.ip).isSome = true := by
  refine tracked_both h hip fun r₁ hr₁ => ?_
  unfold evicted
  split_ifs with hfull
  · -- the address was seen at this instant, and the other keys before
    obtain ⟨hid, -, hfull⟩ := hfull
    rw [hn, Option.any_some, decide_eq_true_eq] at hfull
    have hsize := size_record hr₁
    have hothers := hspared.resolve_left hip |>.resolve_left hid |>.resolve_left (by omega)
    refine notMem_oldest (mem_candidates_record hr₁ hip) ?_ (htwo.trans hfull)
    rintro ⟨k, t⟩ hk
    by_cases hkip : k = call.ip
    · exact Or.inl hkip
    · refine hothers (k, t) ?_
      rw [mem_candidates, lookup_record hr₁ fun _ => hkip] at hk
      split_ifs at hk
      · cases hk
      · exact mem_candidates.mpr hk
  · exact List.not_mem_nil

/-- **No call panics and the map stays within the bound**, as long as an attempt finds room for
both its keys, or no other key that was last seen at the same instant. -/
theorem bounded_of_spared (c : FlappingConfig) (hfits : c.maxConnects < maxStamps) (n : ℕ)
    (hn : c.maxTrackedClients = n) (htwo : 2 ≤ n) (ls : List Label)
    (hspared : Along (step (c.applyDefaults hfits)) (Spared n) ∅ ls) :
    ∃ keys, exec (step (c.applyDefaults hfits)) ∅ ls = some keys ∧ keys.size ≤ n := by
  have hbound : (c.applyDefaults hfits).maxTracked = some n := by
    simp only [FlappingConfig.applyDefaults, hn]
    split_ifs
    all_goals first | omega | simp
  have hstep : ∀ (keys : Keys) l, Inv n keys → Spared n keys l →
      ∃ keys', step (c.applyDefaults hfits) keys l = some keys' ∧ Inv n keys' := by
    intro keys l h hl
    cases l with
    | check call order =>
      obtain ⟨r, hr, hinv⟩ := h.check hbound (by omega) fun r hr =>
        tracked_of_spared hbound htwo hl hr
      exact ⟨r.1, by rw [step, hr, Option.map_some], hinv⟩
    | reset key => exact ⟨_, rfl, h.drops drops_reset⟩
    | cleanup now => exact ⟨_, rfl, h.drops drops_cleanup⟩
  obtain ⟨keys, hexec, hinv⟩ := exec_progress _ hstep inv_empty hspared
  exact ⟨keys, hexec, hinv.size⟩

/-- By age, in the order of the map among those of one age. -/
def stable : Sorting where
  sort := List.insertionSort fun a b => a.2 ≤ b.2
  perm := fun l => List.perm_insertionSort _ l
  sorted := fun l =>
    have : Std.Total fun a b : Str × ℕ => a.2 ≤ b.2 := ⟨fun a b => Nat.le_total a.2 b.2⟩
    have : IsTrans (Str × ℕ) fun a b => a.2 ≤ b.2 := ⟨fun _ _ _ => Nat.le_trans⟩
    List.pairwise_insertionSort _ l

def twoClients : FlappingConfig := ⟨true, 1, 10, 100, 2⟩

def twoKeys : Limits := twoClients.applyDefaults (by decide)

def checks (calls : List (String × String × ℕ)) : List Label :=
  calls.map fun c => .check ⟨ascii c.1, ascii c.2.1, c.2.2⟩ stable

/-- `b` is evicted, and `a` trips. -/
theorem bounded_of_spared_evicting :
    ∃ keys, exec (step twoKeys) ∅ (checks [("a", "", 0), ("b", "", 1), ("a", "c", 2)]) = some keys ∧
      keys.size ≤ 2 :=
  bounded_of_spared twoClients (by decide) 2 rfl (by decide) _ (by decide +kernel)

/-- `a` and `b` were seen at the same time when `c` needs room, so that `a` is evicted in
its own attempt. The penalty brings it back as a third entry, without room for stamps. -/
theorem own_key_evicted :
    (exec (step twoKeys) ∅ (checks [("a", "", 0), ("b", "", 1), ("a", "c", 1)])).map
        (fun keys => keys.size) = some 3 ∧
      exec (step twoKeys) ∅ (checks [("a", "", 0), ("b", "", 1), ("a", "c", 1), ("a", "", 200)]) =
        none := by
  decide +kernel

/-! ## The window -/

/-- The slice is not full when the attempt gets its stamp. -/
def hasRoom (lim : Limits) (e : Entry) (now : ℕ) : Bool :=
  decide ((e.expire lim now).stamps.length < e.cap)

/-- The attempts that lie within the window that ends with the last of them. -/
def inWindow (lim : Limits) (times : List ℕ) : List ℕ :=
  times.filter fun t => decide (times.getLastD 0 ≤ t + lim.window)

theorem live_expire :
    (e.expire lim now).live = e.live.dropWhile fun t => decide (t + lim.window < now) := by
  rw [← drop_length_takeWhile]
  unfold Entry.expire Entry.live
  simp only
  split_ifs
  · rw [List.drop_zero, List.drop_drop]
  · rw [List.drop_drop]

theorem attempt_of_room (h : hasRoom lim e now = true) :
    ∃ e', e.attempt lim now = some e' ∧
      e'.live = (e.live.dropWhile fun t => decide (t + lim.window < now)) ++ [now] := by
  unfold hasRoom at h
  refine ⟨_, if_pos (by simpa using h), ?_⟩
  have hle : (e.expire lim now).head ≤ (e.expire lim now).stamps.length := by
    have hhead := head_expire lim e now
    omega
  rw [← live_expire]
  exact List.drop_append_of_le_length hle

theorem inWindow_append (hmono : (times ++ [now]).Pairwise (· ≤ ·)) :
    ((inWindow lim times).dropWhile fun t => decide (t + lim.window < now)) ++ [now] =
      inWindow lim (times ++ [now]) := by
  obtain ⟨htimes, -, hle⟩ := List.pairwise_append.mp hmono
  have hlast : times ≠ [] → times.getLastD 0 ≤ now := by
    intro hne
    rw [List.getLastD_eq_getLast?, List.getLast?_eq_some_getLast hne]
    exact hle _ (List.getLast_mem hne) now List.mem_cons_self
  unfold inWindow
  rw [dropWhile_eq_filter ?_ (htimes.filter _), List.filter_filter, List.getLastD_concat,
    List.filter_append]
  · congr 1
    · refine List.filter_congr fun t ht => ?_
      have hlast := hlast (List.ne_nil_of_mem ht)
      rw [Bool.eq_iff_iff]
      simp only [Bool.and_eq_true, Bool.not_eq_true', decide_eq_false_iff_not, decide_eq_true_eq]
      omega
    · simp
  · intro a b hab hb
    simp only [decide_eq_true_eq] at hb ⊢
    omega

structure Attempt where
  key : Str
  now : ℕ
  order : Sorting

def recordAt (lim : Limits) (keys : Keys) (a : Attempt) : Option Keys :=
  (record lim a.order keys a.key a.now).map Prod.fst

def timesOn (key : Str) (as : List Attempt) : List ℕ :=
  (as.filter fun a => decide (a.key = key)).map Attempt.now

/-- An attempt on the key finds room for its stamp, one on another key does not evict it. -/
def undisturbed (lim : Limits) (key : Str) (keys : Keys) (a : Attempt) : Bool :=
  if a.key = key then hasRoom lim (entryFor lim a.order keys key).2 a.now
  else decide (key ∉ evicted lim a.order keys a.key)

/-- The stamps of the key are the attempts within the window. -/
def Stamped (lim : Limits) (key : Str) (times : List ℕ) (keys : Keys) : Prop :=
  (keys.lookup key).elim [] Entry.live = inWindow lim times

theorem Stamped.record (h : Stamped lim key times keys) (hkey : key ≠ [])
    (hmono : (times ++ [now]).Pairwise (· ≤ ·))
    (hroom : hasRoom lim (entryFor lim order keys key).2 now = true) :
    ∃ r, record lim order keys key now = some r ∧ Stamped lim key (times ++ [now]) r.1 ∧
      (r.2 = true ↔ lim.maxConnects < (inWindow lim (times ++ [now])).length) := by
  obtain ⟨e, he, hlive⟩ := attempt_of_room hroom
  have hentry : (entryFor lim order keys key).2.live = inWindow lim times := by
    rw [← h]
    unfold entryFor
    cases keys.lookup key with
    | some | none => rfl
  rw [hentry, inWindow_append hmono] at hlive
  refine ⟨((entryFor lim order keys key).1.insert { e with key := key }, e.trips lim), ?_, ?_, ?_⟩
  · rw [Flapping.record, if_neg hkey]
    simp only [he, Option.map_some]
  · show (((entryFor lim order keys key).1.insert { e with key := key }).lookup key).elim _ _ = _
    rw [Keyed.lookup_insert, if_pos rfl]
    exact hlive
  · rw [Entry.trips, hlive, decide_eq_true_eq]

theorem Stamped.other {a : Attempt} (h : Stamped lim key times keys) (ha : a.key ≠ key)
    (hstep : recordAt lim keys a = some keys') (hkept : undisturbed lim key keys a = true) :
    Stamped lim key times keys' := by
  unfold undisturbed at hkept
  rw [if_neg ha, decide_eq_true_eq] at hkept
  obtain ⟨r, hr, rfl⟩ := Option.map_eq_some_iff.mp hstep
  unfold Stamped
  rw [lookup_record hr fun _ => Ne.symm ha, if_neg hkept]
  exact h

theorem Stamped.run (hkey : key ≠ []) {as : List Attempt} :
    ∀ {times : List ℕ} {keys : Keys}, Stamped lim key times keys →
      (times ++ timesOn key as).Pairwise (· ≤ ·) →
      Along (recordAt lim) (fun keys a => undisturbed lim key keys a = true) keys as →
      exec (recordAt lim) keys as = some keys' →
      Stamped lim key (times ++ timesOn key as) keys' := by
  induction as with
  | nil =>
    intro times keys h _ _ hexec
    cases hexec
    rwa [timesOn, List.filter_nil, List.map_nil, List.append_nil]
  | cons a as ih =>
    intro times keys h hmono hkept hexec
    obtain ⟨keys₁, h₁, hexec⟩ := exec_cons_eq_some.mp hexec
    have ha := hkept.1
    have hkept := hkept.tail h₁
    by_cases hak : a.key = key
    · have htimes : times ++ timesOn key (a :: as) = (times ++ [a.now]) ++ timesOn key as := by
        simp [timesOn, hak]
      rw [htimes] at hmono ⊢
      rw [undisturbed, if_pos hak] at ha
      obtain ⟨r, hr, hstamped, -⟩ := h.record hkey (List.pairwise_append.mp hmono).1 ha
      rw [recordAt, hak, hr] at h₁
      cases h₁
      exact ih hstamped hmono hkept hexec
    · have htimes : timesOn key (a :: as) = timesOn key as := by simp [timesOn, hak]
      rw [htimes] at hmono ⊢
      exact ih (h.other hak h₁ ha) hmono hkept hexec

/-- Attempts on a key that is not evicted, none of which overwrites a stamp: one of them
trips exactly when more than `MaxConnects` of them, itself included, lie within the window. -/
theorem trips_iff (lim : Limits) (key : Str) (hkey : key ≠ []) (as : List Attempt) (keys : Keys)
    (hexec : exec (recordAt lim) ∅ as = some keys) (order : Sorting) (now : ℕ)
    (hmono : (timesOn key as ++ [now]).Pairwise (· ≤ ·))
    (hkept : Along (recordAt lim) (fun keys a => undisturbed lim key keys a = true) ∅ as)
    (hroom : hasRoom lim (entryFor lim order keys key).2 now = true) :
    ∃ r, record lim order keys key now = some r ∧
      (r.2 = true ↔ lim.maxConnects < (inWindow lim (timesOn key as ++ [now])).length) := by
  have hinit : Stamped lim key [] (∅ : Keys) := rfl
  have hstamped := hinit.run hkey (List.pairwise_append.mp hmono).1 hkept hexec
  obtain ⟨r, hr, -, hiff⟩ := hstamped.record hkey hmono hroom
  exact ⟨r, hr, hiff⟩

def threeConnects : Limits := ⟨true, 3, 20, 100, some 10, by decide⟩

def attempts (as : List (String × ℕ)) : List Attempt := as.map fun a => ⟨ascii a.1, a.2, stable⟩

theorem trips_iff_fourth :
    ((exec (recordAt threeConnects) ∅ (attempts [("a", 0), ("a", 1), ("b", 1), ("a", 2)])).bind
      fun keys => record threeConnects stable keys (ascii "a") 3).map Prod.snd = some true := by
  have hiff := trips_iff threeConnects (ascii "a") (by decide)
    (attempts [("a", 0), ("a", 1), ("b", 1), ("a", 2)]) _ rfl stable 3 (by decide)
    (by decide +kernel) (by decide +kernel)
  obtain ⟨r, hr, hiff⟩ := hiff
  have htrips : r.2 = true := hiff.mpr (by decide)
  exact (congrArg (Option.map Prod.snd) hr).trans (congrArg some htrips)

/-- The last attempt overwrites the second, which still counts. -/
theorem fourth_attempt_allowed :
    ((exec (recordAt threeConnects) ∅ (attempts [("a", 0), ("a", 16), ("a", 18), ("a", 21)])).bind
        fun keys => record threeConnects stable keys (ascii "a") 22).map Prod.snd = some false ∧
      (inWindow threeConnects [0, 16, 18, 21, 22]).length = 4 := by
  decide +kernel

/-! ## The penalty -/

def PenalizedUntil (u : ℕ) (k : Str) (keys : Keys) : Prop :=
  (keys.lookup k).map Entry.penalizedUntil = some u

def Label.before (u : ℕ) : Label → Bool
  | .check call _ => decide (call.now < u)
  | .cleanup now => decide (now < u)
  | .reset _ => false

variable {u : ℕ}

section

variable (h : PenalizedUntil u k keys)

include h

theorem PenalizedUntil.penalized (hk : k ≠ []) (hnow : now < u) : penalized keys k now = true := by
  obtain ⟨e, he, rfl⟩ := Option.map_eq_some_iff.mp h
  simp [Flapping.penalized, hk, he, hnow]

theorem PenalizedUntil.of_left (hleft : Left lim k keys keys')
    (hkept : (keys'.lookup k).isSome = true) : PenalizedUntil u k keys' := by
  rcases hleft with heq | ⟨-, hnone⟩
  · unfold PenalizedUntil
    rw [heq]
    exact h
  · rw [hnone] at hkept
    cases hkept

theorem PenalizedUntil.touch : PenalizedUntil u k (touch keys key now) := by
  unfold Flapping.touch
  split
  · exact h
  next e he =>
    have hkey : e.key = key := keys.keyed key e he
    unfold PenalizedUntil
    rw [Keyed.lookup_insert]
    split_ifs with heq
    · subst hkey heq
      unfold PenalizedUntil at h
      rwa [he] at h
    · exact h

/-- The step lemma: `Check` answers a penalised key at once. -/
theorem PenalizedUntil.check (hk : k ≠ []) (hnow : call.now < u)
    (hr : check lim order keys call = some r) (hkept : (r.1.lookup k).isSome = true) :
    PenalizedUntil u k r.1 := by
  have hpen := h.penalized hk hnow
  rcases check_cases hr with rfl | ⟨key, -, -, rfl⟩ | ⟨hip, hid, -⟩
  · exact h
  · exact h.touch
  · refine h.of_left (Left.check hr fun hmem => ?_) hkept
    rcases (Call.mem_keys.mp hmem).1 with rfl | rfl
    · exact absurd hpen (by simp [hip])
    · exact absurd hpen (by simp [hid])

theorem PenalizedUntil.cleanup (hnow : now < u) : PenalizedUntil u k (cleanup lim keys now) := by
  obtain ⟨e, he, rfl⟩ := Option.map_eq_some_iff.mp h
  unfold PenalizedUntil Flapping.cleanup
  rw [Keyed.lookup_filterMap, he, Option.bind_some, if_pos (Or.inl hnow), Option.map_some]

end

theorem penalizedUntil_penalize (hk : k ≠ []) :
    PenalizedUntil (now + lim.penalty) k (penalize lim keys k now) := by
  unfold penalize PenalizedUntil
  rw [if_neg hk, Keyed.lookup_insert, if_pos rfl]
  rfl

theorem penalizedUntil_of_exceeded (hr : check lim order keys call = some (keys', .exceeded))
    (hk : k ∈ call.keys) : PenalizedUntil (call.now + lim.penalty) k keys' := by
  obtain ⟨hmem, hne⟩ := Call.mem_keys.mp hk
  rcases check_cases hr with h | ⟨key, -, -, h⟩ | ⟨-, -, r, -, h⟩
  · cases h
  · cases h
  · unfold settle at h
    split_ifs at h
    · cases h
      by_cases hid : k = call.clientID
      · exact hid ▸ penalizedUntil_penalize (hid ▸ hne)
      · have hip : k = call.ip := hmem.resolve_right hid
        unfold PenalizedUntil
        rw [lookup_penalize fun _ => hid]
        exact hip ▸ penalizedUntil_penalize (hip ▸ hne)
    · cases h

/-- A key that is not evicted stays penalised until the end that was set at first, and
every `Check` that mentions it before is rejected. -/
theorem penalty_lasts (lim : Limits) (henabled : lim.enabled = true) (order : Sorting)
    (keys keys₁ keys₂ : Keys) (call : Call)
    (htrips : check lim order keys call = some (keys₁, .exceeded)) (k : Str) (hk : k ∈ call.keys)
    (ls : List Label) (hbefore : ∀ l ∈ ls, l.before (call.now + lim.penalty) = true)
    (hkept : Along (step lim) (fun keys _ => (keys.lookup k).isSome = true) keys₁ ls)
    (hexec : exec (step lim) keys₁ ls = some keys₂) (htracked : (keys₂.lookup k).isSome = true) :
    (keys₂.lookup k).map Entry.penalizedUntil = some (call.now + lim.penalty) ∧
      ∀ call' order', k ∈ call'.keys → call'.now < call.now + lim.penalty →
        (check lim order' keys₂ call').map Prod.snd = some .rejected := by
  have hne : k ≠ [] := (Call.mem_keys.mp hk).2
  have hstep : ∀ (keys : Keys) l keys',
      ((keys.lookup k).isSome = true → PenalizedUntil (call.now + lim.penalty) k keys) →
      (keys.lookup k).isSome = true ∧ l.before (call.now + lim.penalty) = true →
      step lim keys l = some keys' →
      (keys'.lookup k).isSome = true → PenalizedUntil (call.now + lim.penalty) k keys' := by
    intro keys l keys' h hl hstep hkept
    obtain ⟨htracked, hbefore⟩ := hl
    have h := h htracked
    cases l with
    | check call' order' =>
      obtain ⟨r, hr, rfl⟩ := Option.map_eq_some_iff.mp hstep
      exact h.check hne (of_decide_eq_true hbefore) hr hkept
    | reset key => cases hbefore
    | cleanup now =>
      cases hstep
      exact h.cleanup (of_decide_eq_true hbefore)
  have hend := exec_invariant _ hstep (fun _ => penalizedUntil_of_exceeded htrips hk)
    (hkept.and (Along.of_forall hbefore keys₁)) hexec htracked
  refine ⟨hend, fun call' order' hk' hnow => ?_⟩
  have hpen := hend.penalized hne hnow
  unfold check
  rw [if_neg (by rw [henabled]; decide)]
  split_ifs with hip hid
  · rfl
  · rfl
  · rcases (Call.mem_keys.mp hk').1 with rfl | rfl
    · exact absurd hpen hip
    · exact absurd hpen hid

def after (lim : Limits) (calls : List (String × String × ℕ)) : Keys :=
  (exec (step lim) ∅ (checks calls)).getD ∅

/-- `a` is penalised until 101. -/
theorem penalty_lasts_seen :
    check twoKeys stable (after twoKeys [("a", "", 0)]) ⟨ascii "a", [], 1⟩ =
        some (after twoKeys [("a", "", 0), ("a", "", 1)], .exceeded) ∧
      (check twoKeys stable (after twoKeys [("a", "", 0), ("a", "", 1), ("b", "", 2), ("a", "", 90)])
        ⟨ascii "a", [], 100⟩).map Prod.snd = some .rejected :=
  ⟨rfl, (penalty_lasts twoKeys rfl stable (after twoKeys [("a", "", 0)])
    (after twoKeys [("a", "", 0), ("a", "", 1)]) _ ⟨ascii "a", [], 1⟩ rfl (ascii "a") (by decide)
    (checks [("b", "", 2), ("a", "", 90)]) (by decide) (by decide +kernel) rfl (by decide +kernel)).2 _ stable
    (by decide) (by decide)⟩

/-- `c` evicts `a`, which is allowed again. -/
theorem penalised_key_evicted :
    (check twoKeys stable (after twoKeys [("a", "", 0)]) ⟨ascii "a", [], 1⟩).map Prod.snd =
        some .exceeded ∧
      (check twoKeys stable (after twoKeys [("a", "", 0), ("a", "", 1), ("b", "", 2), ("c", "", 3)])
        ⟨ascii "a", [], 4⟩).map Prod.snd = some .allow := by
  decide +kernel

/-! ## The other peers -/

def Limits.unbounded (lim : Limits) : Limits := { lim with maxTracked := none }

def Within (D : List Str) (keys : Keys) : Prop := ∀ k, (keys.lookup k).isSome = true → k ∈ D

variable {D K : List Str}

theorem Left.eq (h : Left lim.unbounded k keys keys') : keys'.lookup k = keys.lookup k := by
  rcases h with heq | ⟨hbound, -⟩
  · exact heq
  · cases hbound

theorem entryFor_unbounded :
    entryFor lim.unbounded order keys key =
      (keys, (keys.lookup key).getD (Entry.fresh lim.unbounded key)) := by
  unfold entryFor
  cases keys.lookup key with
  | none | some => rfl

theorem record_snd :
    (record lim order keys key now).map Prod.snd =
      (record lim.unbounded stable keys key now).map Prod.snd := by
  unfold record
  split_ifs
  · rfl
  · unfold entryFor
    cases keys.lookup key with
    | none | some => rfl

namespace Within

variable (h : Within D keys)

include h

theorem of_left (hleft : ∀ k, k ∉ D → Left lim.unbounded k keys keys') : Within D keys' := by
  intro k hk
  by_contra hD
  rw [(hleft k hD).eq] at hk
  exact hD (h k hk)

variable (hn : lim.maxTracked = some n) (hfew : D.length < n)

include hn hfew

/-- While the keys are fewer than the bound, the bound plays no part. -/
theorem record : record lim order keys key now = record lim.unbounded stable keys key now := by
  have hroom : roomFor lim order keys = keys := by
    have hsize : keys.size ≤ D.length := Keyed.size_le_length h
    rw [roomFor, hn, if_neg]
    simp only [Option.any_some, decide_eq_true_eq]
    omega
  unfold Flapping.record entryFor
  rw [hroom]
  rfl

theorem recordBoth (hkeys : call.keys ⊆ D) :
    recordBoth lim order keys call = recordBoth lim.unbounded stable keys call := by
  unfold Flapping.recordBoth
  rw [h.record hn hfew]
  refine Option.bind_congr fun r hr => ?_
  have hr₁ : Within D r.1 := h.of_left fun k hk => Left.record hr fun hne => by
    rintro rfl
    exact hk (hkeys (Call.ip_mem hne))
  rw [hr₁.record hn hfew]

theorem check (hkeys : call.keys ⊆ D) :
    check lim order keys call = check lim.unbounded stable keys call := by
  unfold Flapping.check
  rw [h.recordBoth hn hfew hkeys]
  rfl

theorem decision (order : Sorting) (call : Call) :
    (Flapping.check lim order keys call).map Prod.snd =
      (Flapping.check lim.unbounded stable keys call).map Prod.snd := by
  have hboth : (Flapping.recordBoth lim order keys call).map Prod.snd =
      (Flapping.recordBoth lim.unbounded stable keys call).map Prod.snd := by
    unfold Flapping.recordBoth
    rw [h.record hn hfew]
    cases Flapping.record lim.unbounded stable keys call.ip call.now with
    | none => rfl
    | some r =>
      simp only [Option.bind_some, Option.map_map]
      show Option.map ((r.2 || ·) ∘ Prod.snd) _ = Option.map ((r.2 || ·) ∘ Prod.snd) _
      rw [← Option.map_map, record_snd, Option.map_map]
  have hsettle : ∀ lim' : Limits, Prod.snd ∘ settle lim' call =
      (fun b => if b then FlappingDecision.exceeded else .allow) ∘ Prod.snd := by
    intro lim'
    funext r
    simp only [Function.comp_apply, settle]
    split_ifs <;> rfl
  show Option.map _ (if !lim.enabled then _ else _) = Option.map _ (if !lim.enabled then _ else _)
  split_ifs
  · rfl
  · rfl
  · rfl
  · rw [Option.map_map, Option.map_map, hsettle, hsettle, ← Option.map_map, hboth, Option.map_map]

end Within

def Agree (K : List Str) (keys keys' : Keys) : Prop := ∀ k ∈ K, keys.lookup k = keys'.lookup k

namespace Agree

section

variable (h : Agree K keys keys')

include h

theorem insert (e : Entry) : Agree K (keys.insert e) (keys'.insert e) := by
  intro k hk
  rw [Keyed.lookup_insert, Keyed.lookup_insert, h k hk]

theorem penalized (hkey : key ≠ [] → key ∈ K) :
    penalized keys key now = penalized keys' key now := by
  unfold Flapping.penalized
  by_cases hempty : key = []
  · simp [hempty]
  · rw [h key (hkey hempty)]

theorem touch (hkey : key ∈ K) : Agree K (touch keys key now) (touch keys' key now) := by
  unfold Flapping.touch
  rw [← h key hkey]
  cases keys.lookup key with
  | none => exact h
  | some e => exact h.insert _

theorem link {a b : Str} (ha : a ≠ [] → a ∈ K) (hb : b ≠ [] → b ∈ K) :
    Agree K (link keys a b) (link keys' a b) := by
  unfold Flapping.link
  split_ifs with hempty
  · exact h
  · obtain ⟨hea, heb, -⟩ := not_or.mp hempty |>.imp_right not_or.mp
    rw [← h a (ha hea), ← h b (hb heb)]
    split
    · exact (h.insert _).insert _
    · exact h

theorem penalize (hkey : key ≠ [] → key ∈ K) :
    Agree K (penalize lim keys key now) (penalize lim keys' key now) := by
  unfold Flapping.penalize
  split_ifs with hempty
  · exact h
  · rw [← h key (hkey hempty)]
    exact h.insert _

theorem record {r : Keys × Bool} (hkey : key ≠ [] → key ∈ K)
    (hr : record lim.unbounded order keys key now = some r) :
    ∃ r', record lim.unbounded order keys' key now = some r' ∧ r'.2 = r.2 ∧ Agree K r.1 r'.1 := by
  unfold Flapping.record at hr ⊢
  split_ifs at hr ⊢ with hempty
  · cases hr
    exact ⟨_, rfl, rfl, h⟩
  · rw [entryFor_unbounded] at hr ⊢
    obtain ⟨e, he, rfl⟩ := Option.map_eq_some_iff.mp hr
    rw [h key (hkey hempty)] at he
    simp only [he, Option.map_some]
    exact ⟨_, rfl, rfl, h.insert _⟩

/-- The step lemma of two runs: an attempt on common keys. -/
theorem check {r : Keys × FlappingDecision} (hkeys : call.keys ⊆ K)
    (hr : check lim.unbounded order keys call = some r) :
    ∃ r', check lim.unbounded order keys' call = some r' ∧ r'.2 = r.2 ∧ Agree K r.1 r'.1 := by
  have hip : call.ip ≠ [] → call.ip ∈ K := fun hne => hkeys (Call.ip_mem hne)
  have hid : call.clientID ≠ [] → call.clientID ∈ K := fun hne => hkeys (Call.clientID_mem hne)
  unfold Flapping.check at hr ⊢
  rw [← h.penalized hip, ← h.penalized hid]
  split_ifs at hr ⊢ with hoff hpip hpid
  · cases hr
    exact ⟨_, rfl, rfl, h⟩
  · cases hr
    exact ⟨_, rfl, rfl, h.touch (hip (penalized_ne_nil hpip))⟩
  · cases hr
    exact ⟨_, rfl, rfl, h.touch (hid (penalized_ne_nil hpid))⟩
  · obtain ⟨r₃, hr₃, rfl⟩ := Option.map_eq_some_iff.mp hr
    obtain ⟨r₁, hr₁, hr₃⟩ := Option.bind_eq_some_iff.mp hr₃
    obtain ⟨r₂, hr₂, rfl⟩ := Option.map_eq_some_iff.mp hr₃
    obtain ⟨r₁', hr₁', htrips₁, h₁⟩ := h.record hip hr₁
    obtain ⟨r₂', hr₂', htrips₂, h₂⟩ := h₁.record hid hr₂
    have hlinked := h₂.link hip hid
    simp only [recordBoth, hr₁', hr₂', Option.bind_some, Option.map_some, settle, htrips₁, htrips₂]
    refine ⟨_, rfl, ?_⟩
    split_ifs
    · exact ⟨rfl, (hlinked.penalize hip).penalize hid⟩
    · exact ⟨rfl, hlinked⟩

end

end Agree

def ours (a c : Str) (call : Call) : Bool := decide (call.ip = a) || decide (call.clientID = c)

def ourKeys (a c : Str) (calls : List Call) : List Str :=
  (⟨a, c, 0⟩ :: calls.filter (ours a c)).flatMap Call.keys

/-- The other peers use none of our keys. -/
def apart (a c : Str) (calls : List Call) : Prop :=
  ∀ call ∈ calls, ours a c call = false → ∀ k ∈ call.keys, k ∉ ourKeys a c calls

instance (a c : Str) (calls : List Call) : Decidable (apart a c calls) :=
  inferInstanceAs (Decidable (∀ call ∈ calls, _ → ∀ k ∈ call.keys, _))

def label (x : Call × Sorting) : Label := .check x.1 x.2

def alone (lim : Limits) (keys : Keys) (call : Call) : Option Keys :=
  (check lim.unbounded stable keys call).map Prod.fst

/-- A run leaves our keys as the run of our calls alone does. -/
theorem exec_alone (hn : lim.maxTracked = some n) (hfew : D.length < n) (p : Call → Bool)
    {xs : List (Call × Sorting)} (hD : ∀ x ∈ xs, x.1.keys ⊆ D)
    (hours : ∀ x ∈ xs, p x.1 = true → x.1.keys ⊆ K)
    (hothers : ∀ x ∈ xs, p x.1 = false → ∀ k ∈ x.1.keys, k ∉ K) :
    ∀ keys keys₀ : Keys, Inv n keys → Within D keys → Agree K keys keys₀ →
      ∃ keys' keys₀', exec (step lim) keys (xs.map label) = some keys' ∧
        exec (alone lim) keys₀ ((xs.map Prod.fst).filter p) = some keys₀' ∧
        Inv n keys' ∧ Within D keys' ∧ Agree K keys' keys₀' := by
  induction xs with
  | nil => exact fun keys keys₀ hinv hwithin hagree => ⟨_, _, rfl, rfl, hinv, hwithin, hagree⟩
  | cons x xs ih =>
    intro keys keys₀ hinv hwithin hagree
    have ih := ih (fun y hy => hD y (List.mem_cons_of_mem x hy))
      (fun y hy => hours y (List.mem_cons_of_mem x hy))
      (fun y hy => hothers y (List.mem_cons_of_mem x hy))
    have hkeys := hD x List.mem_cons_self
    obtain ⟨r, hr, hinv⟩ : ∃ r, check lim x.2 keys x.1 = some r ∧ Inv n r.1 :=
      hinv.check hn (by omega) fun r hr hip =>
        tracked_both ((hwithin.recordBoth hn hfew hkeys).symm.trans hr) hip fun _ _ => by
          simp [evicted, Limits.unbounded]
    have hr' := hr
    rw [hwithin.check hn hfew hkeys] at hr'
    have hwithin : Within D r.1 := hwithin.of_left fun k hk => Left.check hr' fun hk' => hk (hkeys hk')
    have hstep : step lim keys (label x) = some r.1 := by rw [label, step, hr, Option.map_some]
    cases hp : p x.1 with
    | true =>
      -- our own call is made in both runs
      obtain ⟨r₀, hr₀, -, hagree⟩ := hagree.check (hours x List.mem_cons_self hp) hr'
      obtain ⟨keys', keys₀', hexec, hexec₀, h⟩ := ih _ _ hinv hwithin hagree
      refine ⟨keys', keys₀', exec_cons_eq_some.mpr ⟨r.1, hstep, hexec⟩, ?_, h⟩
      rw [List.map_cons, List.filter_cons_of_pos hp]
      exact exec_cons_eq_some.mpr ⟨r₀.1, by rw [alone, hr₀, Option.map_some], hexec₀⟩
    | false =>
      have hagree : Agree K r.1 keys₀ := fun k hk =>
        (Left.check hr' fun hk' => hothers x List.mem_cons_self hp k hk' hk).eq.trans (hagree k hk)
      obtain ⟨keys', keys₀', hexec, hexec₀, h⟩ := ih _ _ hinv hwithin hagree
      refine ⟨keys', keys₀', exec_cons_eq_some.mpr ⟨r.1, hstep, hexec⟩, ?_, h⟩
      rw [List.map_cons, List.filter_cons_of_neg (by simp [hp])]
      exact hexec₀

theorem exec_alone_of_apart (hn : lim.maxTracked = some n) {a c : Str} {xs : List (Call × Sorting)}
    (hfew : ((xs.map Prod.fst).flatMap Call.keys).dedup.length < n)
    (hapart : apart a c (xs.map Prod.fst)) :
    ∃ keys keys₀, exec (step lim) ∅ (xs.map label) = some keys ∧
      exec (alone lim) ∅ ((xs.map Prod.fst).filter (ours a c)) = some keys₀ ∧
      Inv n keys ∧ Within ((xs.map Prod.fst).flatMap Call.keys).dedup keys ∧
      Agree (ourKeys a c (xs.map Prod.fst)) keys keys₀ := by
  refine exec_alone hn hfew (ours a c) ?_ ?_ ?_ ∅ ∅ inv_empty
    (fun k hk => by cases hk) fun _ _ => rfl
  · intro x hx k hk
    exact List.mem_dedup.mpr (List.mem_flatMap.mpr ⟨x.1, List.mem_map_of_mem hx, hk⟩)
  · intro x hx hours k hk
    refine List.mem_flatMap.mpr ⟨x.1, List.mem_cons_of_mem _ ?_, hk⟩
    exact List.mem_filter.mpr ⟨List.mem_map_of_mem hx, hours⟩
  · intro x hx hothers
    exact hapart x.1 (List.mem_map_of_mem hx) hothers

/-- Noninterference: two runs with the same attempts from an address or with a ClientID,
while the other peers use none of their keys. -/
theorem decision_eq_of_apart (lim : Limits) (n : ℕ) (hn : lim.maxTracked = some n) (a c : Str)
    (xs ys : List (Call × Sorting))
    (hsame : (xs.map Prod.fst).filter (ours a c) = (ys.map Prod.fst).filter (ours a c))
    (hfew : ((xs.map Prod.fst).flatMap Call.keys).dedup.length < n)
    (hfew' : ((ys.map Prod.fst).flatMap Call.keys).dedup.length < n)
    (hapart : apart a c (xs.map Prod.fst)) (hapart' : apart a c (ys.map Prod.fst))
    (order order' : Sorting) (now : ℕ) :
    ∃ keys keys' d, exec (step lim) ∅ (xs.map label) = some keys ∧
      exec (step lim) ∅ (ys.map label) = some keys' ∧
      (check lim order keys ⟨a, c, now⟩).map Prod.snd = some d ∧
      (check lim order' keys' ⟨a, c, now⟩).map Prod.snd = some d := by
  obtain ⟨keys, keys₀, hexec, hexec₀, hinv, hwithin, hagree⟩ := exec_alone_of_apart hn hfew hapart
  obtain ⟨keys', keys₀', hexec', hexec₀', -, hwithin', hagree'⟩ :=
    exec_alone_of_apart hn hfew' hapart'
  -- both runs agree with the run of our calls alone
  have hkeys : ourKeys a c (ys.map Prod.fst) = ourKeys a c (xs.map Prod.fst) := by
    rw [ourKeys, ourKeys, hsame]
  rw [hsame, hexec₀', Option.some.injEq] at hexec₀
  subst hexec₀
  rw [hkeys] at hagree'
  have hboth : Agree (ourKeys a c (xs.map Prod.fst)) keys keys' := fun k hk =>
    (hagree k hk).trans (hagree' k hk).symm
  obtain ⟨r, hr⟩ := hinv.answers hn (by omega) order ⟨a, c, now⟩
  have hdecision := hwithin.decision hn hfew order ⟨a, c, now⟩
  rw [hr] at hdecision
  obtain ⟨r₁, hr₁, hd₁⟩ := Option.map_eq_some_iff.mp hdecision.symm
  have hsub : (⟨a, c, now⟩ : Call).keys ⊆ ourKeys a c (xs.map Prod.fst) := fun k hk =>
    List.mem_flatMap.mpr ⟨⟨a, c, 0⟩, List.mem_cons_self, hk⟩
  obtain ⟨r₂, hr₂, hd₂, -⟩ := hboth.check hsub hr₁
  refine ⟨keys, keys', r.2, hexec, hexec', by rw [hr, Option.map_some], ?_⟩
  rw [hwithin'.decision hn hfew', hr₂, Option.map_some, hd₂, hd₁]

def calls (cs : List (String × String × ℕ)) : List (Call × Sorting) :=
  cs.map fun c => (⟨ascii c.1, ascii c.2.1, c.2.2⟩, stable)

def oneConnect : Limits := ⟨true, 1, 10, 100, some 10, by decide⟩

theorem decision_eq_of_apart_penalised :
    ∃ keys keys' d,
      exec (step oneConnect) ∅ ((calls [("a", "c", 0), ("a", "c", 1)]).map label) = some keys ∧
      exec (step oneConnect) ∅
        ((calls [("b", "d", 0), ("a", "c", 0), ("b", "d", 0), ("a", "c", 1)]).map label) = some keys' ∧
      (check oneConnect stable keys ⟨ascii "a", ascii "c", 2⟩).map Prod.snd = some d ∧
      (check oneConnect stable keys' ⟨ascii "a", ascii "c", 2⟩).map Prod.snd = some d :=
  decision_eq_of_apart oneConnect 10 rfl (ascii "a") (ascii "c")
    (calls [("a", "c", 0), ("a", "c", 1)])
    (calls [("b", "d", 0), ("a", "c", 0), ("b", "d", 0), ("a", "c", 1)]) (by decide) (by decide)
    (by decide) (by decide) (by decide) stable stable 2

/-- The other peer takes the address as its ClientID. -/
theorem address_as_clientID :
    (check oneConnect stable (after oneConnect []) ⟨ascii "a", ascii "c", 1⟩).map Prod.snd =
        some .allow ∧
      (check oneConnect stable (after oneConnect [("b", "a", 0)])
        ⟨ascii "a", ascii "c", 1⟩).map Prod.snd = some .exceeded := by
  decide +kernel

end SharkMqtt.Broker.Flapping
