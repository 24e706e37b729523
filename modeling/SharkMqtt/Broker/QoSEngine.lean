import SharkMqtt.Lib.Keyed
import SharkMqtt.Protocol.Packets

/-!
# The QoS engine

`broker/qos_engine.go`: the table of outbound deliveries the retry loop works on,
by client and packet identifier, beside the session's own `Inflight`. The locked
part of `doRetry` is `collect`; what it sends and reports afterwards is returned,
for the caller to do.

`getInflight` is how the table is read. Every operation has one lemma that says
what it does to it, and later modules use only those.
-/

namespace SharkMqtt.Broker

open Protocol Lib

inductive InflightState where
  | sent
  | acked
deriving DecidableEq

/-- The engine's `InflightMessage`; the store has a type of the same name. -/
structure QoSEngine.InflightMessage where
  packetID : UInt16
  clientID : Str
  state : InflightState := .sent
  sentAt : ℕ
  retries : ℕ := 0
  maxRetries : ℕ
  topic : Str
  payload : Bytes
  qos : ℕ
  retain : Bool
  isOutbound : Bool

/-- A `maxInflight` of 0 is no limit. -/
structure QoSEngine where
  inflight : AList (fun _ : Str => Keyed QoSEngine.InflightMessage.packetID) := ∅
  sessionVersions : AList (fun _ : Str => UInt8) := ∅
  maxInflight : ℕ := 100
  retryInterval : ℕ := 10000000000
  maxRetries : ℕ := 3

namespace QoSEngine

/-! ## Reading the table -/

def getInflight (q : QoSEngine) (clientID : Str) (packetID : UInt16) : Option InflightMessage :=
  (q.inflight.lookup clientID).bind (·.lookup packetID)

def inflightCount (q : QoSEngine) (clientID : Str) : ℕ :=
  (q.inflight.lookup clientID).elim 0 Keyed.size

def setClientVersion (q : QoSEngine) (clientID : Str) (ver : UInt8) : QoSEngine :=
  { q with sessionVersions := q.sessionVersions.insert clientID ver }

/-- A client without a recorded version is retried as 3.1.1 is. -/
def retransmitPermitted (q : QoSEngine) (clientID : Str) : Bool :=
  retransmits ((q.sessionVersions.lookup clientID).getD 0)

/-! ## Tracking -/

def tableOf (q : QoSEngine) (clientID : Str) : Keyed InflightMessage.packetID :=
  (q.inflight.lookup clientID).getD ∅

def hasRoom (q : QoSEngine) (clientID : Str) : Bool :=
  !(q.maxInflight > 0 && (q.tableOf clientID).size ≥ q.maxInflight)

def newEntry (q : QoSEngine) (clientID : Str) (packetID : UInt16) (topic : Str) (payload : Bytes)
    (retain : Bool) (qos : ℕ) (outbound : Bool) (now : ℕ) : InflightMessage where
  packetID := packetID
  clientID := clientID
  sentAt := now
  maxRetries := q.maxRetries
  topic := topic
  payload := payload
  qos := qos
  retain := retain
  isOutbound := outbound

def track (q : QoSEngine) (clientID : Str) (packetID : UInt16) (topic : Str) (payload : Bytes)
    (retain : Bool) (qos : ℕ) (outbound : Bool) (now : ℕ) : Bool × QoSEngine :=
  if q.hasRoom clientID then
    let msg := q.newEntry clientID packetID topic payload retain qos outbound now
    (true, { q with inflight := q.inflight.insert clientID ((q.tableOf clientID).insert msg) })
  else (false, { q with inflight := q.inflight.insert clientID (q.tableOf clientID) })

def trackOutboundQoS1 (q : QoSEngine) (clientID : Str) (packetID : UInt16) (topic : Str)
    (payload : Bytes) (retain : Bool) (now : ℕ) : Bool × QoSEngine :=
  q.track clientID packetID topic payload retain 1 true now

def trackOutboundQoS2 (q : QoSEngine) (clientID : Str) (packetID : UInt16) (topic : Str)
    (payload : Bytes) (retain : Bool) (now : ℕ) : Bool × QoSEngine :=
  q.track clientID packetID topic payload retain 2 true now

/-- Set the state of a tracked delivery; whether there was one. -/
def markAcked (q : QoSEngine) (clientID : Str) (packetID : UInt16) : Bool × QoSEngine :=
  match q.inflight.lookup clientID with
  | none => (false, q)
  | some table =>
    match table.lookup packetID with
    | none => (false, q)
    | some msg =>
      (true, { q with
        inflight := q.inflight.insert clientID (table.insert { msg with state := .acked }) })

/-- A delivery whose PUBREC was received before the session was restored. -/
def trackOutboundQoS2AwaitingPubComp (q : QoSEngine) (clientID : Str) (packetID : UInt16)
    (topic : Str) (payload : Bytes) (retain : Bool) (now : ℕ) : Bool × QoSEngine :=
  let r := q.trackOutboundQoS2 clientID packetID topic payload retain now
  if r.1 then (true, (r.2.markAcked clientID packetID).2) else r

/-! ## Acknowledgements -/

def untrack (q : QoSEngine) (clientID : Str) (packetID : UInt16) : QoSEngine :=
  match q.inflight.lookup clientID with
  | none => q
  | some table => { q with inflight := q.inflight.insert clientID (table.erase packetID) }

def ackQoS1 (q : QoSEngine) (clientID : Str) (packetID : UInt16) : QoSEngine :=
  q.untrack clientID packetID

def ackPubRec (q : QoSEngine) (clientID : Str) (packetID : UInt16) : Bool × QoSEngine :=
  q.markAcked clientID packetID

def releaseInflight (q : QoSEngine) (clientID : Str) (packetID : UInt16) : QoSEngine :=
  q.untrack clientID packetID

def ackPubComp (q : QoSEngine) (clientID : Str) (packetID : UInt16) : QoSEngine :=
  q.untrack clientID packetID

def removeClient (q : QoSEngine) (clientID : Str) : QoSEngine :=
  { q with
    inflight := q.inflight.erase clientID
    sessionVersions := q.sessionVersions.erase clientID }

/-! ## The retry loop -/

/-- What the loop does with an entry it visits. -/
inductive Fate where
  | skip
  | giveUp
  | resend
deriving DecidableEq

def fate (q : QoSEngine) (now : ℕ) (clientID : Str) (msg : InflightMessage) : Fate :=
  if !q.retransmitPermitted clientID then .skip
  else if now < msg.sentAt + q.retryInterval then .skip
  else if msg.retries ≥ msg.maxRetries then .giveUp
  else .resend

/-- The copy the loop sends, and the entry as the next cycle finds it. -/
def retried (now : ℕ) (msg : InflightMessage) : InflightMessage :=
  { msg with retries := msg.retries + 1, sentAt := now }

def visited (q : QoSEngine) (now : ℕ) (clientID : Str) (msg : InflightMessage) :
    Option InflightMessage :=
  match q.fate now clientID msg with
  | .skip => some msg
  | .giveUp => none
  | .resend => some (retried now msg)

theorem packetID_visited (q : QoSEngine) (now : ℕ) (clientID : Str) (msg msg' : InflightMessage)
    (h : q.visited now clientID msg = some msg') : msg'.packetID = msg.packetID := by
  unfold visited at h
  split at h
  · cases h
    rfl
  · cases h
  · cases h
    rfl

def visitTable (q : QoSEngine) (now : ℕ) (clientID : Str)
    (table : Keyed InflightMessage.packetID) : Keyed InflightMessage.packetID :=
  table.filterMap (q.visited now clientID) (q.packetID_visited now clientID)

def fated (q : QoSEngine) (now : ℕ) (fate : Fate) (clientID : Str)
    (table : Keyed InflightMessage.packetID) : List (Str × InflightMessage) :=
  (table.table.entries.filter fun e => q.fate now clientID e.2 = fate).map fun e => (clientID, e.2)

def allFated (q : QoSEngine) (now : ℕ) (fate : Fate) : List (Str × InflightMessage) :=
  q.inflight.entries.flatMap fun e => q.fated now fate e.1 e.2

/-- What the locked part of `doRetry` leaves and collects. -/
structure Collected where
  engine : QoSEngine
  toReport : List (Str × UInt16)
  toRetry : List (Str × InflightMessage)

def collect (q : QoSEngine) (now : ℕ) : Collected where
  engine :=
    { q with
      inflight :=
        { entries := q.inflight.entries.map (Sigma.map id (q.visitTable now))
          nodupKeys := List.NodupKeys.map₂ (q.visitTable now) _ q.inflight.nodupKeys } }
  toReport := (q.allFated now .giveUp).map fun e => (e.1, e.2.packetID)
  toRetry := (q.allFated now .resend).map fun e => (e.1, retried now e.2)

/-! ## What the operations do to the table -/

variable (q : QoSEngine) (c c' : Str) (id id' : UInt16) (topic : Str) {now : ℕ}
  {msg : InflightMessage}

theorem getInflight_insert (table : Keyed InflightMessage.packetID) :
    ({ q with inflight := q.inflight.insert c table } : QoSEngine).getInflight c' id' =
      if c' = c then table.lookup id' else q.getInflight c' id' := by
  unfold getInflight
  split_ifs with h
  · rw [h, AList.lookup_insert]
    rfl
  · rw [AList.lookup_insert_ne h]

theorem getInflight_eq_tableOf : q.getInflight c id = (q.tableOf c).lookup id := by
  unfold getInflight tableOf
  cases q.inflight.lookup c <;> rfl

theorem getInflight_of_inflightCount {q : QoSEngine} {c : Str} (h : q.inflightCount c = 0)
    (id : UInt16) : q.getInflight c id = none := by
  unfold inflightCount at h
  unfold getInflight
  cases htable : q.inflight.lookup c with
  | none => rfl
  | some table =>
    rw [htable] at h
    change table.size = 0 at h
    rw [← Option.not_isSome_iff_eq_none]
    intro hsome
    exact absurd (Keyed.size_pos_of_lookup hsome) (by rw [h]; exact lt_irrefl 0)

@[simp] theorem getInflight_setClientVersion (ver : UInt8) :
    (q.setClientVersion c ver).getInflight c' id' = q.getInflight c' id' := rfl

theorem getInflight_untrack :
    (q.untrack c id).getInflight c' id' =
      if c' = c ∧ id' = id then none else q.getInflight c' id' := by
  unfold untrack
  cases h : q.inflight.lookup c with
  | none =>
    split_ifs with hsame
    · rw [hsame.1, getInflight, h]
      rfl
    · rfl
  | some table =>
    rw [getInflight_insert, Keyed.lookup_erase]
    by_cases hc : c' = c
    · subst hc
      by_cases hid : id' = id
      · simp [hid]
      · simp [hid, getInflight, h]
    · simp [hc]

/-- A full table stays as it is. -/
theorem getInflight_track (payload : Bytes) (retain : Bool) (qos : ℕ) (outbound : Bool) (now : ℕ) :
    (q.track c id topic payload retain qos outbound now).2.getInflight c' id' =
      if (c' = c ∧ id' = id) ∧ q.hasRoom c = true then
        some (q.newEntry c id topic payload retain qos outbound now)
      else q.getInflight c' id' := by
  unfold track
  by_cases hc : c' = c
  · subst hc
    rw [q.getInflight_eq_tableOf]
    by_cases hroom : q.hasRoom c' = true
    · simp [hroom, getInflight_insert, Keyed.lookup_insert, newEntry]
    · simp [hroom, getInflight_insert]
  · by_cases hroom : q.hasRoom c = true <;> simp [hroom, getInflight_insert, hc]

theorem size_tableOf_le {q q' : QoSEngine} {c : Str} (id : UInt16)
    (h : ∀ id', (q'.getInflight c id').isSome = true → id' = id ∨ (q.getInflight c id').isSome = true) :
    (q'.tableOf c).size ≤ (q.tableOf c).size + 1 := by
  have hle : (q'.tableOf c).size ≤ (id :: (q.tableOf c).table.keys).length := by
    refine Keyed.size_le_length fun id' hid' => ?_
    rw [← getInflight_eq_tableOf] at hid'
    rcases h id' hid' with rfl | hold
    · exact List.mem_cons_self
    · rw [getInflight_eq_tableOf] at hold
      exact List.mem_cons_of_mem _ (((q.tableOf c).mem_keys_iff id').mpr hold)
  exact hle

@[simp] theorem maxInflight_track (payload : Bytes) (retain : Bool) (qos : ℕ) (outbound : Bool)
    (now : ℕ) :
    (q.track c id topic payload retain qos outbound now).2.maxInflight = q.maxInflight := by
  unfold track
  split_ifs <;> rfl

@[simp] theorem maxInflight_markAcked : (q.markAcked c id).2.maxInflight = q.maxInflight := by
  unfold markAcked
  split
  · rfl
  · split <;> rfl

theorem markAcked_fst : (q.markAcked c id).1 = (q.getInflight c id).isSome := by
  unfold markAcked getInflight
  cases q.inflight.lookup c with
  | none => rfl
  | some table =>
    simp only [Option.bind_some]
    cases table.lookup id <;> rfl

theorem getInflight_markAcked :
    (q.markAcked c id).2.getInflight c' id' =
      if c' = c ∧ id' = id then (q.getInflight c id).map fun msg => { msg with state := .acked }
      else q.getInflight c' id' := by
  unfold markAcked
  cases h : q.inflight.lookup c with
  | none =>
    split_ifs with hsame
    · rw [hsame.1, getInflight, getInflight, h]
      rfl
    · rfl
  | some table =>
    simp only
    cases hm : table.lookup id with
    | none =>
      split_ifs with hsame
      · rw [hsame.1, hsame.2, getInflight, h, Option.bind_some, hm]
        rfl
      · rfl
    | some msg =>
      have hkey : msg.packetID = id := table.keyed id msg hm
      rw [getInflight_insert, Keyed.lookup_insert]
      by_cases hc : c' = c
      · subst hc
        by_cases hid : id' = id
        · simp [hid, hkey, getInflight, h, hm]
        · simp [hid, hkey, getInflight, h]
      · simp [hc]

theorem getInflight_removeClient :
    (q.removeClient c).getInflight c' id' = if c' = c then none else q.getInflight c' id' := by
  unfold removeClient getInflight
  split_ifs with hc
  · rw [hc, AList.lookup_erase]
    rfl
  · rw [AList.lookup_erase_ne hc]

theorem getInflight_collect (now : ℕ) :
    (q.collect now).engine.getInflight c id = (q.getInflight c id).bind (q.visited now c) := by
  have hlookup : (q.collect now).engine.inflight.lookup c =
      (q.inflight.lookup c).map (q.visitTable now c) := by
    unfold collect AList.lookup
    rw [List.dlookup_map₂]
  unfold getInflight
  rw [hlookup]
  cases q.inflight.lookup c with
  | none => rfl
  | some table => exact Keyed.lookup_filterMap table _ _ id

theorem visited_of_kept (h : q.fate now c msg ≠ .giveUp) :
    ∃ msg', q.visited now c msg = some msg' ∧ msg'.qos = msg.qos ∧ msg'.state = msg.state ∧
      msg'.isOutbound = msg.isOutbound := by
  unfold visited
  cases hfate : q.fate now c msg with
  | skip => exact ⟨msg, rfl, rfl, rfl, rfl⟩
  | giveUp => exact absurd hfate h
  | resend => exact ⟨retried now msg, rfl, rfl, rfl, rfl⟩

theorem mem_allFated {fate : Fate} :
    (c, msg) ∈ q.allFated now fate ↔
      q.getInflight c msg.packetID = some msg ∧ q.fate now c msg = fate := by
  unfold allFated fated getInflight
  simp only [List.mem_flatMap, List.mem_map, List.mem_filter, decide_eq_true_eq, Prod.mk.injEq]
  constructor
  · rintro ⟨⟨c₁, table⟩, htable, ⟨id, msg₁⟩, ⟨hentry, hfate⟩, rfl, rfl⟩
    have hid : msg₁.packetID = id := table.key_of_mem_entries hentry
    rw [AList.mem_lookup_iff.mpr htable, hid]
    exact ⟨AList.mem_lookup_iff.mpr hentry, hfate⟩
  · rintro ⟨hmsg, hfate⟩
    obtain ⟨table, htable, hentry⟩ := Option.bind_eq_some_iff.mp hmsg
    exact ⟨⟨c, table⟩, AList.mem_lookup_iff.mp htable, ⟨msg.packetID, msg⟩,
      ⟨AList.mem_lookup_iff.mp hentry, hfate⟩, rfl, rfl⟩

theorem mem_toReport :
    (c, id) ∈ (q.collect now).toReport ↔
      ∃ msg, q.getInflight c id = some msg ∧ q.fate now c msg = .giveUp := by
  unfold collect
  simp only [List.mem_map, Prod.mk.injEq]
  constructor
  · rintro ⟨⟨c₁, msg⟩, hmem, rfl, rfl⟩
    exact ⟨msg, (q.mem_allFated c₁).mp hmem⟩
  · rintro ⟨msg, hmsg, hfate⟩
    have hid : msg.packetID = id := by
      obtain ⟨table, -, hentry⟩ := Option.bind_eq_some_iff.mp hmsg
      exact table.keyed id msg hentry
    exact ⟨(c, msg), (q.mem_allFated c).mpr ⟨hid ▸ hmsg, hfate⟩, rfl, hid⟩

theorem mem_toRetry :
    (c, msg) ∈ (q.collect now).toRetry ↔
      ∃ msg₀, q.getInflight c msg₀.packetID = some msg₀ ∧ q.fate now c msg₀ = .resend ∧
        msg = retried now msg₀ := by
  unfold collect
  simp only [List.mem_map, Prod.mk.injEq]
  constructor
  · rintro ⟨⟨c₁, msg₀⟩, hmem, rfl, rfl⟩
    obtain ⟨hmsg, hfate⟩ := (q.mem_allFated c₁).mp hmem
    exact ⟨msg₀, hmsg, hfate, rfl⟩
  · rintro ⟨msg₀, hmsg, hfate, rfl⟩
    exact ⟨(c, msg₀), (q.mem_allFated c).mpr ⟨hmsg, hfate⟩, rfl, rfl⟩

end QoSEngine

end SharkMqtt.Broker
