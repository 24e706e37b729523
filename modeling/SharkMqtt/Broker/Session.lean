import Mathlib.Data.List.Induction
import Mathlib.Order.Bounds.Basic
import SharkMqtt.Lib.Keyed
import SharkMqtt.Protocol.Packets

/-!
# Sessions: subscriptions and their matching

`broker/session.go`: the session record, and the two scans over its
subscriptions that delivery consults, `matchSubscriptions` and
`AllowsLocalPublish`.

The session's maps are `AList`s. An `AList` has each key once but its entries
in some order, and a theorem about every session is a theorem about every
visiting order of a `range`. The options of a subscription live in a second map
(`SubOptions`) that need not have the same keys; the scans read it with the
defaults the source uses.
-/

namespace SharkMqtt.Broker

open Protocol Lib

/-! ## The session record -/

structure SubscriptionOptions where
  qos : ℕ := 0
  noLocal : Bool := false
  retainAsPublished : Bool := false
  retainHandling : ℕ := 0
  subscriptionIdentifier : Option UInt32 := none
deriving DecidableEq

/-- `InflightMsg`; a zero deadline is `none`. -/
structure InflightMsg where
  packetID : UInt16
  qos : ℕ
  topic : Str
  payload : Bytes
  retain : Bool
  expiresAt : Option ℕ
  properties : Option Properties
  pendingPubRel : Bool := false
deriving DecidableEq

/-- `outboundMsg`, a delivery buffered while the window is full. -/
structure OutboundMsg where
  pkt : PublishPacket
  deliverQoS : ℕ
  subOpts : SubscriptionOptions
  subIDs : List UInt32
  expiresAt : Option ℕ
deriving DecidableEq

/-- The fields delivery works with. `Inflight` is keyed by the packet id of its
entries: `AddInflight` stores no entry under another id. -/
structure Session where
  clientID : Str
  protocolVer : UInt8 := version311
  expiryInterval : UInt32 := 0
  subscriptions : AList (fun _ : Str => ℕ) := ∅
  subOptions : AList (fun _ : Str => SubscriptionOptions) := ∅
  inflight : Keyed InflightMsg.packetID := ∅
  packetIDSeq : UInt16 := 1
  outboundWindow : UInt16 := 65535
  outboundUnacked : ℕ := 0
  outboundQueue : List OutboundMsg := []

/-! ## `matchSubscriptions` -/

/-- The filter a stored pattern is matched with; a malformed shared filter is
skipped. -/
def realPattern (pattern : Str) : Option Str :=
  if isSharedSubscription pattern then (parseSharedFilter pattern).map Prod.snd
  else some pattern

def moreSpecific (candidate current : Str) : Bool := decide (candidate < current)

/-- The loop variables of `matchSubscriptions`. -/
structure SubMatch where
  matched : Bool := false
  bestQoS : ℕ := 0
  bestOpts : SubscriptionOptions := {}
  bestPattern : Str := []
  identifiers : List UInt32 := []

/-- Whether the loop body gets past its `continue`s and the final test. -/
def subHit (topic : Str) (sysProtect : Bool) (pattern : Str) : Bool :=
  match realPattern pattern with
  | none => false
  | some real =>
    if sysProtect && !matchSysProtected real topic then false
    else matchTopic real topic

def Session.matchStep (s : Session) (topic : Str) (sysProtect : Bool) (m : SubMatch)
    (entry : Σ _ : Str, ℕ) : SubMatch :=
  if subHit topic sysProtect entry.1 then
    let opts := (s.subOptions.lookup entry.1).getD {}
    let best :=
      if !m.matched || decide (entry.2 > m.bestQoS) ||
          (entry.2 == m.bestQoS && moreSpecific entry.1 m.bestPattern) then
        { m with bestQoS := entry.2, bestOpts := opts, bestPattern := entry.1 }
      else m
    { best with
      matched := true
      identifiers := m.identifiers ++ opts.subscriptionIdentifier.toList }
  else m

/-- `slices.Compact`: drop an element equal to its successor. -/
def compact : List UInt32 → List UInt32
  | [] => []
  | [a] => [a]
  | a :: b :: rest => if a = b then compact (b :: rest) else a :: compact (b :: rest)

/-- The four results of `matchSubscriptions`. -/
structure SubMatchResult where
  matched : Bool
  qos : ℕ
  opts : SubscriptionOptions
  subIDs : List UInt32

def Session.matchSubscriptions (s : Session) (topic : Str) (sysProtect : Bool) :
    SubMatchResult :=
  let m := s.subscriptions.entries.foldl (s.matchStep topic sysProtect) {}
  let ids :=
    if 1 < m.identifiers.length then compact (m.identifiers.mergeSort (fun a b => decide (a ≤ b)))
    else m.identifiers
  ⟨m.matched, m.bestQoS, m.bestOpts, ids⟩

def Session.matchesSubscription (s : Session) (topic : Str) : SubMatchResult :=
  s.matchSubscriptions topic false

/-! ## `AllowsLocalPublish` -/

/-- The loop of `AllowsLocalPublish`; `matched` is its local variable. -/
def Session.allowsLocalFrom (s : Session) (topic : Str) (matched : Bool) :
    List (Σ _ : Str, ℕ) → Bool
  | [] => !matched
  | ⟨pattern, _⟩ :: rest =>
    if !matchTopic pattern topic then s.allowsLocalFrom topic matched rest
    else match s.subOptions.lookup pattern with
      | none => true
      | some opts => if !opts.noLocal then true else s.allowsLocalFrom topic true rest

def Session.allowsLocalPublish (s : Session) (topic : Str) : Bool :=
  s.allowsLocalFrom topic false s.subscriptions.entries

/-! ## What the scans compute -/

def Session.Holds (s : Session) (f : Str) (q : ℕ) : Prop := s.subscriptions.lookup f = some q

def Session.noLocal (s : Session) (f : Str) : Bool :=
  (s.subOptions.lookup f).elim false SubscriptionOptions.noLocal

def Session.identifier (s : Session) (f : Str) : Option UInt32 :=
  (s.subOptions.lookup f).bind SubscriptionOptions.subscriptionIdentifier

variable (s : Session)

theorem Session.holds_iff_mem (f : Str) (q : ℕ) : s.Holds f q ↔ ⟨f, q⟩ ∈ s.subscriptions.entries :=
  AList.mem_lookup_iff

theorem Session.identifier_eq_getD (f : Str) :
    ((s.subOptions.lookup f).getD {}).subscriptionIdentifier = s.identifier f := by
  unfold Session.identifier
  cases s.subOptions.lookup f <;> rfl

theorem mem_compact {a : UInt32} : ∀ {l : List UInt32}, a ∈ compact l ↔ a ∈ l
  | [] | [b] => by simp [compact]
  | b :: c :: rest => by
    unfold compact
    split_ifs with h
    · rw [mem_compact, h]
      simp
    · rw [List.mem_cons, mem_compact, List.mem_cons, List.mem_cons, List.mem_cons]

/-- What the loop variables say about the entries seen so far. -/
structure SubMatch.Sound (s : Session) (topic : Str) (sysProtect : Bool)
    (l : List (Σ _ : Str, ℕ)) (m : SubMatch) : Prop where
  matched_iff : m.matched = true ↔ ∃ e ∈ l, subHit topic sysProtect e.1 = true
  best : m.matched = true →
    IsGreatest {q | ∃ e ∈ l, subHit topic sysProtect e.1 = true ∧ e.2 = q} m.bestQoS
  ids_iff : ∀ i, i ∈ m.identifiers ↔
    ∃ e ∈ l, subHit topic sysProtect e.1 = true ∧ s.identifier e.1 = some i

theorem SubMatch.Sound.step {s : Session} {topic : Str} {sysProtect : Bool}
    {l : List (Σ _ : Str, ℕ)} {m : SubMatch} (h : m.Sound s topic sysProtect l) (e : Σ _ : Str, ℕ) :
    (s.matchStep topic sysProtect m e).Sound s topic sysProtect (l ++ [e]) := by
  have hsnoc : ∀ P : (Σ _ : Str, ℕ) → Prop, (∃ e' ∈ l ++ [e], P e') ↔ (∃ e' ∈ l, P e') ∨ P e := by
    intro P
    simp only [List.mem_append, List.mem_singleton, or_and_right, exists_or, exists_eq_left]
  unfold Session.matchStep
  by_cases hit : subHit topic sysProtect e.1 = true
  · rw [if_pos hit]
    refine ⟨?_, fun _ => ?_, fun i => ?_⟩
    · rw [hsnoc]
      exact iff_of_true rfl (Or.inr hit)
    · -- the old best stays unless the new entry beats it or is the first
      simp only [hsnoc, hit, true_and]
      split_ifs with hbeat
      · refine ⟨Or.inr rfl, ?_⟩
        rintro q (⟨e', he', hhit, rfl⟩ | rfl)
        · have hm := h.matched_iff.mpr ⟨e', he', hhit⟩
          have hle := (h.best hm).2 ⟨e', he', hhit, rfl⟩
          simp only [hm, Bool.not_true, Bool.false_or, Bool.or_eq_true, decide_eq_true_eq,
            Bool.and_eq_true, beq_iff_eq] at hbeat
          show e'.2 ≤ e.2
          omega
        · exact le_refl _
      · simp only [Bool.or_eq_true, Bool.not_eq_true', decide_eq_true_eq, not_or] at hbeat
        obtain ⟨hold, hmax⟩ := h.best (eq_true_of_ne_false hbeat.1.1)
        refine ⟨Or.inl hold, ?_⟩
        rintro q (hq | rfl)
        · exact hmax hq
        · exact not_lt.mp hbeat.1.2
    · rw [hsnoc]
      simp only [List.mem_append, Option.mem_toList, s.identifier_eq_getD, h.ids_iff, hit, true_and]
  · -- an entry that does not hit changes neither the variables nor the facts
    rw [if_neg hit]
    refine ⟨?_, fun hm => ?_, fun i => ?_⟩ <;>
      simp only [hsnoc, hit, Bool.false_eq_true, false_and, or_false]
    · exact h.matched_iff
    · exact h.best hm
    · exact h.ids_iff i

theorem SubMatch.Sound.fold (topic : Str) (sysProtect : Bool) (l : List (Σ _ : Str, ℕ)) :
    (l.foldl (s.matchStep topic sysProtect) {}).Sound s topic sysProtect l := by
  induction l using List.reverseRecOn with
  | nil => exact ⟨by simp, by simp, by simp⟩
  | append_singleton l e ih =>
    rw [List.foldl_append]
    exact ih.step e

/-- `matchSubscriptions` reports a match exactly when a filter hits, the largest
QoS of those that do, and the identifiers of all of them. -/
theorem Session.matchSubscriptions_spec (topic : Str) (sysProtect : Bool) :
    ((s.matchSubscriptions topic sysProtect).matched = true ↔
        ∃ f q, s.Holds f q ∧ subHit topic sysProtect f = true) ∧
      ((s.matchSubscriptions topic sysProtect).matched = true →
        IsGreatest {q | ∃ f, s.Holds f q ∧ subHit topic sysProtect f = true}
          (s.matchSubscriptions topic sysProtect).qos) ∧
      ∀ i, i ∈ (s.matchSubscriptions topic sysProtect).subIDs ↔
        ∃ f q, s.Holds f q ∧ subHit topic sysProtect f = true ∧ s.identifier f = some i := by
  have hsound := SubMatch.Sound.fold s topic sysProtect s.subscriptions.entries
  have hmem : ∀ P : Str → ℕ → Prop,
      (∃ e ∈ s.subscriptions.entries, P e.1 e.2) ↔ ∃ f q, s.Holds f q ∧ P f q := by
    intro P
    simp only [Sigma.exists, s.holds_iff_mem]
  unfold Session.matchSubscriptions
  refine ⟨hsound.matched_iff.trans (hmem fun f _ => subHit topic sysProtect f = true),
    fun hm => ?_, fun i => ?_⟩
  · obtain ⟨⟨⟨f, q⟩, he, hhit, rfl : q = _⟩, hmax⟩ := hsound.best hm
    refine ⟨⟨f, (s.holds_iff_mem f _).mpr he, hhit⟩, ?_⟩
    rintro q' ⟨f', hf', hhit'⟩
    exact hmax ⟨⟨f', q'⟩, (s.holds_iff_mem f' q').mp hf', hhit', rfl⟩
  · have hids := (hsound.ids_iff i).trans
      (hmem fun f _ => subHit topic sysProtect f = true ∧ s.identifier f = some i)
    simp only
    split_ifs
    · rw [mem_compact, List.mem_mergeSort]
      exact hids
    · exact hids

theorem Session.allowsLocalFrom_eq_false {s : Session} {topic : Str} :
    ∀ {l : List (Σ _ : Str, ℕ)} {matched : Bool},
      s.allowsLocalFrom topic matched l = false ↔
        (matched = true ∨ ∃ e ∈ l, matchTopic e.1 topic = true) ∧
          ∀ e ∈ l, matchTopic e.1 topic = true → s.noLocal e.1 = true := by
  intro l
  induction l with
  | nil => intro matched; simp [Session.allowsLocalFrom]
  | cons e rest ih =>
    obtain ⟨f, q⟩ := e
    unfold Session.allowsLocalFrom
    by_cases hm : matchTopic f topic = true
    · cases ho : s.subOptions.lookup f with
      | none => simp [hm, Session.noLocal, ho]
      | some opts =>
        cases hn : opts.noLocal with
        | false => simp [hm, hn, Session.noLocal, ho]
        | true => simp [hm, hn, ih, Session.noLocal, ho]
    · simp [hm, ih]

theorem Session.allowsLocalPublish_eq_false (topic : Str) :
    s.allowsLocalPublish topic = false ↔
      (∃ f q, s.Holds f q ∧ matchTopic f topic = true) ∧
        ∀ f q, s.Holds f q → matchTopic f topic = true → s.noLocal f = true := by
  unfold Session.allowsLocalPublish
  rw [Session.allowsLocalFrom_eq_false]
  simp only [Bool.false_eq_true, false_or, s.holds_iff_mem]
  constructor
  · rintro ⟨⟨⟨f, q⟩, he, hm⟩, hall⟩
    exact ⟨⟨f, q, he, hm⟩, fun f q he hm => hall ⟨f, q⟩ he hm⟩
  · rintro ⟨⟨f, q, he, hm⟩, hall⟩
    exact ⟨⟨⟨f, q⟩, he, hm⟩, fun e he hm => hall e.1 e.2 he hm⟩

end SharkMqtt.Broker
