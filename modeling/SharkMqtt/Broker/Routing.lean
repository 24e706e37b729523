import Mathlib.Data.Nat.SuccPred
import Mathlib.Order.SuccPred.Archimedean
import SharkMqtt.Broker.TopicMatch
import SharkMqtt.Broker.Session

/-!
# Routing one publish to the ordinary subscribers

`broker/pub_sub.go`: the loop over `Match` in `handlePublish` (repeated in
`handlePubRel` and `publishWill`), `deliverToClient` and `deliverWithQoS`, up to
the call of `doDeliver`.

Three places decide what a client gets. The tree says *whether* it is asked at
all, `AllowsLocalPublish` whether its own publish is suppressed, and
`matchSubscriptions` the QoS and the Subscription Identifiers, over all of the
session's filters and without the `$` rule. The intended reading, one set of
eligible filters for all three, is `RoutesRight`; `routing_iff` says exactly for
which sessions, topics and publishers the three agree with it (`ScansAgree`).
-/

namespace SharkMqtt.Broker

open Protocol

/-! ## The loop -/

/-- The arguments of one `doDeliver` call. The deadline argument is a function
of the packet alone and is left out. -/
structure Handed where
  clientID : Str
  pkt : PublishPacket
  deliverQoS : ℕ
  subOpts : SubscriptionOptions
  subIDs : List UInt32

/-- How a `deliverToClient` call ends. -/
inductive Outcome where
  | queuedOffline
  | suppressed
  | unmatched
  | handed (d : Handed)

abbrev Sessions := AList (fun _ : Str => Session)

def deliverWithQoS (sess : Session) (pkt : PublishPacket) (subQoS : ℕ)
    (subOpts : SubscriptionOptions) (subIDs : List UInt32) : Handed :=
  let deliverQoS := pkt.fixedHeader.qos.toNat
  let deliverQoS := if subQoS < deliverQoS then subQoS else deliverQoS
  ⟨sess.clientID, pkt, deliverQoS, subOpts, subIDs⟩

def deliverToClient (sessions : Sessions) (clientID sourceClientID : Str) (pkt : PublishPacket) :
    Outcome :=
  match sessions.lookup clientID with
  | none => .queuedOffline
  | some sess =>
    if sourceClientID ≠ [] ∧ clientID = sourceClientID ∧ !sess.allowsLocalPublish pkt.topic then
      .suppressed
    else
      let m := sess.matchesSubscription pkt.topic
      if !m.matched then .unmatched
      else .handed (deliverWithQoS sess pkt m.qos m.opts m.subIDs)

/-- `for _, sub := range b.topics.Match(topic) { b.deliverToClient(...) }`. A
delivery changes no subscription, so the calls do not see each other. -/
def routePublish (tt : TopicTree) (sessions : Sessions) (sourceClientID : Str)
    (pkt : PublishPacket) : List (Str × Outcome) :=
  (tt.match pkt.topic).map fun sub =>
    (sub.clientID, deliverToClient sessions sub.clientID sourceClientID pkt)

def handedTo (c : Str) (outcomes : List (Str × Outcome)) : List Handed :=
  outcomes.filterMap fun o =>
    if o.1 = c then (match o.2 with | .handed d => some d | _ => none) else none

/-! ## The intended reading -/

def IsPublisher (c source : Str) : Prop := source ≠ [] ∧ c = source

/-- A filter that entitles `c` to the message: ordinary, matching under the `$`
rule, and not No Local when `c` is the publisher. -/
def Eligible (s : Session) (c source t f : Str) (q : ℕ) : Prop :=
  s.Holds f q ∧ isSharedSubscription f = false ∧ matchSysProtected f t = true ∧
    ¬ (IsPublisher c source ∧ s.noLocal f = true)

/-- The message is handed over if and only if some filter is eligible, once, at
the minimum of the publish QoS and the largest eligible QoS, with the
identifiers of exactly the eligible filters. -/
structure RoutesRight (s : Session) (c source : Str) (pkt : PublishPacket)
    (handed : List Handed) : Prop where
  some_of_eligible : (∃ f q, Eligible s c source pkt.topic f q) →
    ∃ d m, handed = [d] ∧ IsGreatest {q | ∃ f, Eligible s c source pkt.topic f q} m ∧
      d.deliverQoS = min pkt.fixedHeader.qos.toNat m ∧
      ∀ i, i ∈ d.subIDs ↔
        ∃ f q, Eligible s c source pkt.topic f q ∧ s.identifier f = some i
  none_of_not_eligible : (¬ ∃ f q, Eligible s c source pkt.topic f q) → handed = []

/-! ## When the three scans agree -/

/-- The condition on the session, the publisher and the topic. With an eligible
filter, every filter the session scan picks up besides the eligible ones adds
neither QoS nor an identifier. Without one, the tree does not reach the client,
or the session scan finds nothing, or the publish is suppressed. -/
structure ScansAgree (s : Session) (c source : Str) (pkt : PublishPacket) : Prop where
  extra_harmless : (∃ f q, Eligible s c source pkt.topic f q) →
    ∀ f q, s.Holds f q → subHit pkt.topic false f = true →
      (∃ g q', Eligible s c source pkt.topic g q' ∧ min pkt.fixedHeader.qos.toNat q ≤ q') ∧
      ∀ i, s.identifier f = some i →
        ∃ g q', Eligible s c source pkt.topic g q' ∧ s.identifier g = some i
  nothing_reached : (¬ ∃ f q, Eligible s c source pkt.topic f q) →
    (∀ f q, s.Holds f q → isSharedSubscription f = false → ¬ Visited f pkt.topic) ∨
    (∀ f q, s.Holds f q → subHit pkt.topic false f = false) ∨
    (IsPublisher c source ∧ (∃ f q, s.Holds f q ∧ matchTopic f pkt.topic = true) ∧
      ∀ f q, s.Holds f q → matchTopic f pkt.topic = true → s.noLocal f = true)

/-! ## What the loop hands over -/

variable {f t c source : Str} {s : Session} {q : ℕ} {sessions : Sessions}

theorem Eligible.hit (h : Eligible s c source t f q) : subHit t false f = true := by
  obtain ⟨-, hshared, hm, -⟩ := h
  simp [subHit, realPattern, hshared, matchTopic_of_matchSysProtected hm]

theorem Eligible.visited (h : Eligible s c source t f q) : Visited f t := visited_of_match h.2.2.1

theorem Eligible.not_suppressed (h : Eligible s c source t f q) (hp : IsPublisher c source) :
    s.allowsLocalPublish t = true := by
  obtain ⟨hf, -, hm, hlocal⟩ := h
  by_contra hno
  rw [Bool.not_eq_true, Session.allowsLocalPublish_eq_false] at hno
  exact hlocal ⟨hp, hno.2 f q hf (matchTopic_of_matchSysProtected hm)⟩

/-- The deliveries to a client that appears at most once in the result of
`Match`. -/
theorem handedTo_routePublish (tt : TopicTree) (sessions : Sessions) (c source : Str)
    (pkt : PublishPacket) (hnd : ((tt.match pkt.topic).map Subscriber.clientID).Nodup) :
    handedTo c (routePublish tt sessions source pkt) =
      if c ∈ (tt.match pkt.topic).map Subscriber.clientID then
        match deliverToClient sessions c source pkt with
        | .handed d => [d]
        | _ => []
      else [] := by
  unfold handedTo routePublish
  generalize tt.match pkt.topic = subs at hnd
  induction subs with
  | nil => rfl
  | cons sub rest ih =>
    rw [List.map_cons, List.nodup_cons] at hnd
    rw [List.map_cons, List.map_cons, List.filterMap_cons]
    by_cases hc : sub.clientID = c
    · have hrest : c ∉ rest.map Subscriber.clientID := hc ▸ hnd.1
      have ih := ih hnd.2
      rw [if_neg hrest] at ih
      simp only [hc, if_true, List.mem_cons_self]
      cases deliverToClient sessions c source pkt <;> simp [ih]
    · simp only [hc, if_false, ih hnd.2, List.mem_cons, Ne.symm hc, false_or]

def Session.scanned (s : Session) (pkt : PublishPacket) : Handed :=
  let m := s.matchesSubscription pkt.topic
  deliverWithQoS s pkt m.qos m.opts m.subIDs

theorem deliverToClient_online (hs : sessions.lookup c = some s) (source : Str)
    (pkt : PublishPacket) :
    (deliverToClient sessions c source pkt = .suppressed ∧ IsPublisher c source ∧
        s.allowsLocalPublish pkt.topic = false) ∨
      (deliverToClient sessions c source pkt = .unmatched ∧
        (s.matchesSubscription pkt.topic).matched = false) ∨
      (deliverToClient sessions c source pkt = .handed (s.scanned pkt) ∧
        (s.matchesSubscription pkt.topic).matched = true ∧
        ¬ (IsPublisher c source ∧ s.allowsLocalPublish pkt.topic = false)) := by
  unfold deliverToClient
  rw [hs]
  simp only
  split_ifs with hlocal hmatch
  · exact Or.inl ⟨rfl, ⟨hlocal.1, hlocal.2.1⟩, by simpa using hlocal.2.2⟩
  · exact Or.inr (Or.inl ⟨rfl, by simpa using hmatch⟩)
  · refine Or.inr (Or.inr ⟨rfl, by simpa using hmatch, ?_⟩)
    rintro ⟨hp, hno⟩
    exact hlocal ⟨hp.1, hp.2, by simpa using hno⟩

theorem scanned_qos (s : Session) (pkt : PublishPacket) : (s.scanned pkt).deliverQoS =
    min pkt.fixedHeader.qos.toNat (s.matchesSubscription pkt.topic).qos := by
  unfold Session.scanned deliverWithQoS
  simp only
  split_ifs <;> omega

/-- Capping at the publish QoS hides what lies above it: the two maxima agree
after the cap when each member of the larger set is matched up to the cap. -/
theorem min_eq_of_dominated {A B : ℕ → Prop} {p a b : ℕ} (ha : IsGreatest {q | A q} a)
    (hb : IsGreatest {q | B q} b) (hsub : ∀ q, B q → A q)
    (hdom : ∀ q, A q → ∃ q', B q' ∧ min p q ≤ q') : min p a = min p b := by
  have hba : b ≤ a := ha.2 (hsub b hb.1)
  obtain ⟨q', hq', hle⟩ := hdom a ha.1
  have hq'b : q' ≤ b := hb.2 hq'
  omega

theorem routesRight_of_eligible {pkt : PublishPacket}
    (he : ∃ f q, Eligible s c source pkt.topic f q)
    (hmatched : (s.matchesSubscription pkt.topic).matched = true) :
    RoutesRight s c source pkt [s.scanned pkt] ↔ ScansAgree s c source pkt := by
  obtain ⟨-, hbest, hids⟩ := s.matchSubscriptions_spec pkt.topic false
  have hgreat := hbest hmatched
  constructor
  · intro hr
    obtain ⟨d, m, hd, hm, hqos, hids'⟩ := hr.some_of_eligible he
    obtain rfl := List.singleton_inj.mp hd
    rw [scanned_qos] at hqos
    refine ⟨fun _ f q hf hhit => ⟨?_, ?_⟩, fun hne => absurd he hne⟩
    · obtain ⟨g, hg⟩ := hm.1
      refine ⟨g, m, hg, ?_⟩
      have hle : q ≤ (s.matchesSubscription pkt.topic).qos := hgreat.2 ⟨f, hf, hhit⟩
      omega
    · intro i hi
      exact (hids' i).mp ((hids i).mpr ⟨f, q, hf, hhit, hi⟩)
  · intro ha
    have hall := ha.extra_harmless he
    refine ⟨?_, fun hne => absurd he hne⟩
    rintro ⟨f₀, q₀, he₀⟩
    -- the eligible QoS values are bounded by the scan's maximum, so they have one of their own
    have hbdd : (s.matchesSubscription pkt.topic).qos ∈
        upperBounds {q | ∃ f, Eligible s c source pkt.topic f q} := by
      rintro q ⟨f, hf⟩
      exact hgreat.2 ⟨f, hf.1, hf.hit⟩
    obtain ⟨m, hm⟩ := BddAbove.exists_isGreatest_of_nonempty
      (S := {q | ∃ f, Eligible s c source pkt.topic f q}) ⟨_, hbdd⟩ ⟨q₀, f₀, he₀⟩
    refine ⟨_, m, rfl, hm, ?_, fun i => ?_⟩
    · rw [scanned_qos]
      refine min_eq_of_dominated hgreat hm ?_ ?_
      · rintro q ⟨f, hf⟩
        exact ⟨f, hf.1, hf.hit⟩
      · rintro q ⟨f, hf, hhit⟩
        obtain ⟨g, q', hg, hle⟩ := (hall f q hf hhit).1
        exact ⟨q', ⟨g, hg⟩, hle⟩
    · refine (hids i).trans ?_
      constructor
      · rintro ⟨f, q, hf, hhit, hi⟩
        exact (hall f q hf hhit).2 i hi
      · rintro ⟨f, q, hf, hi⟩
        exact ⟨f, q, hf.1, hf.hit, hi⟩

section Online

variable {tt : TopicTree} {m : Holdings} {pkt : PublishPacket} (hrep : Represents tt.root m)
  (hs : sessions.lookup c = some s)
  (hentries : ∀ f, (m c f).isSome ↔ (∃ q, s.Holds f q) ∧ isSharedSubscription f = false)

include hrep hs hentries

theorem handedTo_eq_nil_iff (he : ¬ ∃ f q, Eligible s c source pkt.topic f q) :
    handedTo c (routePublish tt sessions source pkt) = [] ↔ ScansAgree s c source pkt := by
  have hagree := fun h => (⟨fun h' => absurd h' he, fun _ => h⟩ : ScansAgree s c source pkt)
  obtain ⟨hnd, hmem, -⟩ := hrep.match_eq pkt.topic
  obtain ⟨hmatched, -, -⟩ := s.matchSubscriptions_spec pkt.topic false
  have hreached : c ∈ (tt.match pkt.topic).map Subscriber.clientID ↔
      ∃ f q, s.Holds f q ∧ isSharedSubscription f = false ∧ Visited f pkt.topic := by
    rw [hmem]
    constructor
    · rintro ⟨f, q, hf, hv⟩
      obtain ⟨⟨q', hq'⟩, hsh⟩ := (hentries f).mp (by rw [hf]; rfl)
      exact ⟨f, q', hq', hsh, hv⟩
    · rintro ⟨f, q, hf, hsh, hv⟩
      obtain ⟨q', hq'⟩ := Option.isSome_iff_exists.mp ((hentries f).mpr ⟨⟨q, hf⟩, hsh⟩)
      exact ⟨f, q', hq', hv⟩
  rw [handedTo_routePublish tt sessions c source pkt hnd]
  by_cases hc : c ∈ (tt.match pkt.topic).map Subscriber.clientID
  · obtain ⟨f, q, hf, hsh, hv⟩ := hreached.mp hc
    rw [if_pos hc]
    have hscan : (s.matchesSubscription pkt.topic).matched = false ↔
        ∀ f q, s.Holds f q → subHit pkt.topic false f = false := by
      rw [← Bool.not_eq_true, show (s.matchesSubscription pkt.topic).matched = true ↔ _
        from hmatched]
      push Not
      simp only [Bool.not_eq_true]
    rcases deliverToClient_online hs source pkt with
      ⟨hout, hp, hno⟩ | ⟨hout, hno⟩ | ⟨hout, hyes, hloc⟩
    · rw [hout, Session.allowsLocalPublish_eq_false] at *
      exact iff_of_true rfl (hagree (Or.inr (Or.inr ⟨hp, hno⟩)))
    · rw [hout]
      exact iff_of_true rfl (hagree (Or.inr (Or.inl (hscan.mp hno))))
    · rw [hout]
      refine iff_of_false (by simp) fun ha => ?_
      rcases ha.nothing_reached he with h | h | ⟨hp, h⟩
      · exact h f q hf hsh hv
      · rw [← hscan, hyes] at h
        cases h
      · exact hloc ⟨hp, (Session.allowsLocalPublish_eq_false s pkt.topic).mpr h⟩
  · rw [if_neg hc]
    refine iff_of_true rfl (hagree (Or.inl fun f q hf hsh hv => ?_))
    exact hc (hreached.mpr ⟨f, q, hf, hsh, hv⟩)

theorem handedTo_of_eligible (he : ∃ f q, Eligible s c source pkt.topic f q) :
    (s.matchesSubscription pkt.topic).matched = true ∧
      handedTo c (routePublish tt sessions source pkt) = [s.scanned pkt] := by
  obtain ⟨f, q, hf⟩ := he
  obtain ⟨hnd, hmem, -⟩ := hrep.match_eq pkt.topic
  obtain ⟨hmatched, -, -⟩ := s.matchSubscriptions_spec pkt.topic false
  have hyes : (s.matchesSubscription pkt.topic).matched = true := hmatched.mpr ⟨f, q, hf.1, hf.hit⟩
  obtain ⟨q', hq'⟩ := Option.isSome_iff_exists.mp ((hentries f).mpr ⟨⟨q, hf.1⟩, hf.2.1⟩)
  refine ⟨hyes, ?_⟩
  rw [handedTo_routePublish tt sessions c source pkt hnd,
    if_pos ((hmem c).mpr ⟨f, q', hq', hf.visited⟩)]
  rcases deliverToClient_online hs source pkt with ⟨-, hp, hno⟩ | ⟨-, hno⟩ | ⟨hout, -, -⟩
  · rw [hf.not_suppressed hp] at hno
    cases hno
  · rw [hyes] at hno
    cases hno
  · rw [hout]

end Online

/-- **Routing meets its intended reading exactly when the scans agree.** For
every history of the tree and every visiting order of its maps, every set of
sessions, every online client whose tree entries are its session's ordinary
filters, every publisher and every packet. -/
theorem routing_iff (h : List TreeOp) (tt : TopicTree) (sessions : Sessions) (c source : Str)
    (pkt : PublishPacket) (s : Session) (hsame : SameMaps (TopicTree.run h).root tt.root)
    (hs : sessions.lookup c = some s)
    (hentries : ∀ f, (held h c f).isSome ↔
      (∃ q, s.Holds f q) ∧ isSharedSubscription f = false) :
    RoutesRight s c source pkt (handedTo c (routePublish tt sessions source pkt)) ↔
      ScansAgree s c source pkt := by
  have hrep := (run_represents h).sameMaps hsame
  by_cases he : ∃ f q, Eligible s c source pkt.topic f q
  · obtain ⟨hyes, hhanded⟩ := handedTo_of_eligible hrep hs hentries he
    rw [hhanded]
    exact routesRight_of_eligible he hyes
  · rw [← handedTo_eq_nil_iff hrep hs hentries he]
    exact ⟨fun hr => hr.none_of_not_eligible he, fun hnil => ⟨fun h => absurd h he, fun _ => hnil⟩⟩

def singleSession (c f : Str) (q : ℕ) : Session :=
  { clientID := c, subscriptions := AList.singleton f q,
    subOptions := AList.singleton f { qos := q } }

def publishOf (t : Str) : PublishPacket :=
  { fixedHeader := { packetType := .publish, qos := 1 }, packetID := 1, topic := t }

theorem holds_singleSession {f' : Str} {q' : ℕ} :
    (singleSession c f q).Holds f' q' ↔ f' = f ∧ q' = q := by
  have hentries : (singleSession c f q).subscriptions.entries = [⟨f, q⟩] := rfl
  rw [Session.holds_iff_mem, hentries]
  simp

/-- One client subscribed to `a/#`, another client publishing to `a/b`. -/
theorem routing_single :
    RoutesRight (singleSession (ascii "c") (ascii "a/#") 1) (ascii "c") (ascii "p")
      (publishOf (ascii "a/b")) (handedTo (ascii "c") (routePublish
        (TopicTree.run [.subscribe (ascii "a/#") (ascii "c") 1])
        (AList.singleton (ascii "c") (singleSession (ascii "c") (ascii "a/#") 1))
        (ascii "p") (publishOf (ascii "a/b")))) := by
  refine (routing_iff _ _ _ _ _ _ _ (SameMaps.refl _) rfl ?_).mpr ?_
  · intro f
    have hvalid : validateTopicFilter (ascii "a/#") = true := by decide
    simp only [Option.isSome_iff_exists, held_singleton hvalid, holds_singleSession]
    constructor
    · rintro ⟨q, -, rfl, rfl⟩
      exact ⟨⟨1, rfl, rfl⟩, by decide⟩
    · rintro ⟨⟨q, hf, hq⟩, -⟩
      exact ⟨q, trivial, hf, hq⟩
  · have he : Eligible (singleSession (ascii "c") (ascii "a/#") 1) (ascii "c") (ascii "p")
        (ascii "a/b") (ascii "a/#") 1 :=
      ⟨holds_singleSession.mpr ⟨rfl, rfl⟩, by decide, by decide,
        fun h => absurd h.1.2 (by decide)⟩
    refine ⟨?_, fun hne => absurd ⟨_, _, he⟩ hne⟩
    rintro - f q hf -
    obtain ⟨rfl, rfl⟩ := holds_singleSession.mp hf
    exact ⟨⟨_, _, he, by decide⟩, fun i hi => ⟨_, _, he, hi⟩⟩

/-- The client holds `a` at QoS 0 and `$share/g/a` at QoS 1. -/
def mixedSession : Session :=
  { clientID := ascii "c"
    subscriptions := (AList.singleton (ascii "a") 0).insert (ascii "$share/g/a") 1 }

/-- The QoS 1 publish of `a` reaches the ordinary filter at QoS 1, the QoS of
the shared one. -/
theorem routing_shared_raises_qos :
    (∀ f, (held [.subscribe (ascii "a") (ascii "c") 0] (ascii "c") f).isSome ↔
        (∃ q, mixedSession.Holds f q) ∧ isSharedSubscription f = false) ∧
      ¬ RoutesRight mixedSession (ascii "c") (ascii "p") (publishOf (ascii "a"))
        (handedTo (ascii "c") (routePublish (TopicTree.run [.subscribe (ascii "a") (ascii "c") 0])
          (AList.singleton (ascii "c") mixedSession) (ascii "p") (publishOf (ascii "a")))) := by
  have hholds : ∀ f q, mixedSession.Holds f q ↔
      (f = ascii "$share/g/a" ∧ q = 1) ∨ (f = ascii "a" ∧ q = 0) := by
    intro f q
    rw [Session.holds_iff_mem, show mixedSession.subscriptions.entries =
      [⟨ascii "$share/g/a", 1⟩, ⟨ascii "a", 0⟩] by decide]
    simp
  constructor
  · intro f
    have hvalid : validateTopicFilter (ascii "a") = true := by decide
    simp only [Option.isSome_iff_exists, held_singleton hvalid, hholds]
    constructor
    · rintro ⟨q, -, rfl, rfl⟩
      exact ⟨⟨0, Or.inr ⟨rfl, rfl⟩⟩, by decide⟩
    · rintro ⟨⟨q, ⟨rfl, -⟩ | ⟨hf, hq⟩⟩, hsh⟩
      · exact absurd hsh (by decide)
      · exact ⟨q, trivial, hf, hq⟩
  · intro hr
    have he : Eligible mixedSession (ascii "c") (ascii "p") (ascii "a") (ascii "a") 0 :=
      ⟨(hholds _ _).mpr (Or.inr ⟨rfl, rfl⟩), by decide, by decide,
        fun h => absurd h.1.2 (by decide)⟩
    obtain ⟨d, m, hd, hm, hqos, -⟩ := hr.some_of_eligible ⟨_, _, he⟩
    have hcode : (handedTo (ascii "c") (routePublish
        (TopicTree.run [.subscribe (ascii "a") (ascii "c") 0])
        (AList.singleton (ascii "c") mixedSession) (ascii "p")
        (publishOf (ascii "a")))).map Handed.deliverQoS = [1] := by decide
    rw [hd, List.map_singleton, hqos] at hcode
    -- the only eligible filter is `a`, at QoS 0
    obtain ⟨f, hf, hsh, -⟩ := hm.1
    rcases (hholds f m).mp hf with ⟨rfl, -⟩ | ⟨-, rfl⟩
    · exact absurd hsh (by decide)
    · simp at hcode

end SharkMqtt.Broker
