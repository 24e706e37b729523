import SharkMqtt.Store.RedisMessages

/-!
# The Badger store of queued messages

`store/badger/message_store.go`. The keys and the calls on one message are as in the Redis store.
`ListMessages` and `ClearMessages` iterate over the keys that begin with the prefix of the client.
The length in front of the ClientID makes this prefix unambiguous, also for a ClientID that looks
like a key (`keys_separate`).
-/

namespace SharkMqtt.Store.BadgerMessages

open RedisMessages

def messageKey (s : MessageStore) (clientID id : Str) : Str := s.messageKey clientID id

def clientPrefix (s : MessageStore) (clientID : Str) : Str :=
  s.keyPrefix ++ itoa clientID.length ++ [colon] ++ clientID ++ [colon]

def saveMessage (s : MessageStore) (clientID : Str) (msg : StoredMessage) : MessageStore :=
  s.saveMessage clientID msg

def getMessage (s : MessageStore) (clientID id : Str) : Option StoredMessage :=
  s.getMessage clientID id

def deleteMessage (s : MessageStore) (clientID id : Str) : MessageStore :=
  s.deleteMessage clientID id

/-- The iterator of `clientID` comes to this key: `Seek`, then `ValidForPrefix`. -/
def visits (s : MessageStore) (clientID key : Str) : Bool :=
  (s.db key).isSome && (clientPrefix s clientID).isPrefixOf key

/-- `ListMessages` with the keys of the database in order. -/
def listMessages (s : MessageStore) (clientID : Str) (keys : List Str) : List StoredMessage :=
  (keys.filter (visits s clientID)).filterMap s.db

/-- `ClearMessages`, which deletes the keys it has collected. -/
def clearMessages (s : MessageStore) (clientID : Str) : MessageStore :=
  { s with db := fun key => if visits s clientID key then none else s.db key }

variable {s : MessageStore} {c d id id' : Str}

/-- What begins with the prefix of a client is the key of one of its messages. -/
theorem clientPrefix_prefix_iff : clientPrefix s c <+: messageKey s d id ↔ c = d := by
  constructor
  · rintro ⟨rest, hrest⟩
    have hkey : s.messageKey c rest = s.messageKey d id := hrest
    exact (messageKey_inj.mp hkey).1
  · rintro rfl
    exact ⟨id, rfl⟩

theorem visits_messageKey_iff :
    visits s c (messageKey s d id) = true ↔ c = d ∧ (getMessage s d id).isSome = true := by
  unfold visits
  rw [Bool.and_eq_true, List.isPrefixOf_iff_prefix, clientPrefix_prefix_iff, and_comm]
  rfl

/-- What is written under the key of one message is read under no other. -/
theorem getMessage_update (v : Option StoredMessage) :
    getMessage { s with db := Function.update s.db (messageKey s c id) v } d id' =
      if d = c ∧ id' = id then v else getMessage s d id' := by
  simp only [← messageKey_inj (s := s)]
  exact Function.update_apply _ _ _ _

/-- **The keys of different clients are apart.** The prefix of a client begins the keys of its own
messages only, no two messages share a key, and so a call on one message leaves all others, and an
iteration lists and clears the messages of its own client and leaves all others. -/
theorem keys_separate (s : MessageStore) :
    (∀ c d id, clientPrefix s c <+: messageKey s d id ↔ c = d) ∧
    (∀ c d id id', messageKey s c id = messageKey s d id' → c = d ∧ id = id') ∧
    (∀ c m d id, getMessage (saveMessage s c m) d id =
      if d = c ∧ id = m.id then some m else getMessage s d id) ∧
    (∀ c id d id', getMessage (deleteMessage s c id) d id' =
      if d = c ∧ id' = id then none else getMessage s d id') ∧
    (∀ c keys m, (∀ key ∈ keys, ∃ d id, key = messageKey s d id) →
      (m ∈ listMessages s c keys ↔
        ∃ id, messageKey s c id ∈ keys ∧ getMessage s c id = some m)) ∧
    ∀ c d id, getMessage (clearMessages s c) d id = if c = d then none else getMessage s d id := by
  refine ⟨fun _ _ _ => clientPrefix_prefix_iff, fun _ _ _ _ => messageKey_inj.mp,
    fun _ m _ _ => getMessage_update (some m), fun _ _ _ _ => getMessage_update none, ?_, ?_⟩
  · intro c keys m hkeys
    simp only [listMessages, List.mem_filterMap, List.mem_filter]
    constructor
    · rintro ⟨key, ⟨hkey, hvisits⟩, hm⟩
      obtain ⟨d, id, rfl⟩ := hkeys key hkey
      obtain ⟨rfl, -⟩ := visits_messageKey_iff.mp hvisits
      exact ⟨id, hkey, hm⟩
    · rintro ⟨id, hkey, hm⟩
      exact ⟨_, ⟨hkey, visits_messageKey_iff.mpr ⟨rfl, by rw [hm]; rfl⟩⟩, hm⟩
  · intro c d id
    show (if visits s c (messageKey s d id) then none else getMessage s d id) = _
    cases hm : getMessage s d id with
    | none => simp
    | some m => simp only [visits_messageKey_iff, hm, Option.isSome_some, and_true]

end SharkMqtt.Store.BadgerMessages
