import SharkMqtt.Broker.MessagePaths
import SharkMqtt.Store.MemoryRetained

/-!
# Retained messages for a new subscription

`deliverRetainedMessages` (`broker/pub_sub.go`) asks the store for the messages that
match the new filter, without the `$` rule, and keeps those that any subscription of the
session matches with it. `replayed_iff` says when these are the messages of the new
filter.

That a delivery is such a replay is an argument of `doDeliver`, not part of the record.
`replay_retain_iff` follows it through the flow-control buffer and the offline queue.
-/

namespace SharkMqtt.Broker.MessagePaths

open Protocol Lib
open Store.MemoryRetained (RetainedTrie latest run)

/-! ## Which messages are replayed -/

/-- `deliverRetainedMessages`, on what `MatchRetained` has returned. -/
def deliverRetainedMessages (b : Outbound) (c : Str) (sess : Session) (now : ℕ)
    (retained : List RetainedMessage) : Outbound × List Written :=
  retained.foldl
    (fun r m =>
      match replayedMsg m sess with
      | none => r
      | some msg =>
        let d := r.1.doDeliver c msg true now
        (d.1, r.2 ++ d.2))
    (b, [])

/-- A subscription of the session matches the message, and `doDeliver` does not refuse it
as expired. -/
def replays (sess : Session) (now : ℕ) (m : RetainedMessage) : Bool :=
  (replayedMsg m sess).isSome && !expired m.expiresAt now

variable {sess : Session} {now : ℕ} {m : RetainedMessage} {msg : OutboundMsg} {st : State}

theorem doDeliver_of_expired {b : Outbound} {c : Str} {retainedDelivery : Bool}
    (h : expired msg.expiresAt now = true) : b.doDeliver c msg retainedDelivery now = (b, []) := by
  unfold Outbound.doDeliver
  cases hs : b.sessions c with
  | none => rfl
  | some s =>
    simp only [Outbound.deliverOn, Session.doDeliver, if_pos h, Outbound.setSession]
    rw [← hs, Function.update_eq_self]

/-- The rounds that hand on a message `replays` are all that happens. -/
theorem deliverRetainedMessages_filter (b : Outbound) (c : Str) (retained : List RetainedMessage) :
    deliverRetainedMessages b c sess now retained =
      deliverRetainedMessages b c sess now (retained.filter (replays sess now)) := by
  unfold deliverRetainedMessages
  generalize (b, ([] : List Written)) = r
  induction retained generalizing r with
  | nil => rfl
  | cons m retained ih =>
    rw [List.foldl_cons, List.filter_cons]
    split_ifs with hm
    · exact ih _
    · rw [← ih]
      cases hmsg : replayedMsg m sess with
      | none => rfl
      | some msg =>
        have hexp : expired msg.expiresAt now = true := by
          rw [(replayedMsg_spec hmsg).2.1]
          simpa [replays, hmsg] using hm
        simp [doDeliver_of_expired hexp]

/-- Every subscription of the session counts. -/
theorem replays_iff :
    replays sess now m = true ↔
      (∃ g q, sess.Holds g q ∧ subHit m.topic true g = true) ∧
        expired m.expiresAt now = false := by
  rw [← (sess.matchSubscriptions_spec m.topic true).1]
  unfold replays replayedMsg
  cases hm : (sess.matchSubscriptions m.topic true).matched <;> simp [hm]

theorem subHit_of_not_shared {f topic : Str} (h : isSharedSubscription f = false) :
    subHit topic true f = matchSysProtected f topic := by
  cases hm : matchSysProtected f topic with
  | false => simp [subHit, realPattern, h, hm]
  | true => simp [subHit, realPattern, h, hm, matchTopic_of_matchSysProtected hm]

theorem count_replayed (ops : List Store.MemoryRetained.Op) {index : RetainedTrie}
    (hsame : Trie.SameMaps Eq (run ops).index index) (f : Str) (m : RetainedMessage) :
    (({ run ops with index := index }.matchRetained f).filter (replays sess now)).count m =
      if replays sess now m = true ∧ latest ops m.topic = some m ∧
        matchTopic f m.topic = true then 1 else 0 := by
  by_cases hm : replays sess now m = true
  · rw [List.count_filter hm,
      ((Store.MemoryRetained.inv_run ops).sameMaps hsame).count_matchRetained]
    simp [hm]
  · rw [List.count_eq_zero.mpr (by simp [hm])]
    simp [hm]

/-- For a session that has been given the filter `f`, and whatever the history and the
order of the store: the replay for `f` is one copy of every stored message that has not
expired and that `f` matches by the `$` rule, and nothing else, exactly when no other
subscription hits a message that `f` matches only without the rule. -/
theorem replayed_iff (ops : List Store.MemoryRetained.Op) (index : RetainedTrie)
    (hsame : Trie.SameMaps Eq (run ops).index index) (sess : Session) (f : Str) (q now : ℕ)
    (hf : sess.Holds f q) (hplain : isSharedSubscription f = false) :
    (∀ m, (({ run ops with index := index }.matchRetained f).filter (replays sess now)).count m =
        if latest ops m.topic = some m ∧ expired m.expiresAt now = false ∧
          matchSysProtected f m.topic = true then 1 else 0) ↔
      ∀ m, latest ops m.topic = some m → expired m.expiresAt now = false →
        matchTopic f m.topic = true → matchSysProtected f m.topic = false →
          ∀ g q', sess.Holds g q' → subHit m.topic true g = false := by
  -- the two conditions can differ only on a message that `f` matches without the rule
  have hself : ∀ m : RetainedMessage, matchSysProtected f m.topic = true →
      expired m.expiresAt now = false → replays sess now m = true := by
    intro m hm hlive
    exact replays_iff.mpr ⟨⟨f, q, hf, (subHit_of_not_shared hplain).trans hm⟩, hlive⟩
  constructor
  · intro hexact m hstored hlive hmatch hnot g q' hg
    have hm := (count_replayed ops hsame f m).symm.trans (hexact m)
    simp only [hstored, hlive, hmatch, hnot, and_true, Bool.false_eq_true, if_false,
      and_false, ite_eq_right_iff, one_ne_zero, imp_false] at hm
    by_contra hhit
    exact hm (replays_iff.mpr ⟨⟨g, q', hg, eq_true_of_ne_false hhit⟩, hlive⟩)
  · intro hno m
    rw [count_replayed ops hsame f m]
    refine if_congr ⟨?_, ?_⟩ rfl rfl
    · rintro ⟨hr, hstored, hmatch⟩
      obtain ⟨⟨g, q', hg, hhit⟩, hlive⟩ := replays_iff.mp hr
      refine ⟨hstored, hlive, eq_true_of_ne_false fun hnot => ?_⟩
      exact absurd (hno m hstored hlive hmatch hnot g q' hg) (by simp [hhit])
    · rintro ⟨hstored, hlive, hm⟩
      exact ⟨hself m hm hlive, hstored, matchTopic_of_matchSysProtected hm⟩

def holding (filters : List Str) : Session where
  clientID := ascii "s"
  subscriptions := filters.foldl (fun subs f => subs.insert f 0) ∅

def savedOn (topic : Str) : List Store.MemoryRetained.Op :=
  [.save (Store.MemoryRetained.retainedOn topic [1]) 0]

theorem replayed_iff_plain :
    (((run (savedOn (ascii "a"))).matchRetained (ascii "a")).filter
      (replays (holding [ascii "a"]) 0)).count
        (Store.MemoryRetained.retainedOn (ascii "a") [1]) = 1 := by
  have hiff := replayed_iff (savedOn (ascii "a")) _ (Trie.SameMaps.refl Eq.refl _) (holding [ascii "a"])
    (ascii "a") 0 0 rfl (by decide)
  refine (hiff.mpr ?_ _).trans (if_pos (by decide))
  intro m _ _ hmatch hnot
  have hplain : matchSysProtected (ascii "a") m.topic = matchTopic (ascii "a") m.topic := by
    unfold matchSysProtected
    split <;> rfl
  rw [hplain, hmatch] at hnot
  cases hnot

/-- `#` does not match `$SYS/x`, but the replay for `#` brings its message to a session that
has subscribed to `$SYS/#` as well. -/
theorem sys_message_replayed :
    (holding [ascii "$SYS/#", ascii "#"]).Holds (ascii "#") 0 ∧
      isSharedSubscription (ascii "#") = false ∧
      matchSysProtected (ascii "#") (ascii "$SYS/x") = false ∧
      (((run (savedOn (ascii "$SYS/x"))).matchRetained (ascii "#")).filter
        (replays (holding [ascii "$SYS/#", ascii "#"]) 0)).count
          (Store.MemoryRetained.retainedOn (ascii "$SYS/x") [1]) = 1 := by
  refine ⟨rfl, by decide, by decide, ?_⟩
  refine (count_replayed (savedOn (ascii "$SYS/x")) (Trie.SameMaps.refl Eq.refl _) (ascii "#") _).trans ?_
  exact if_pos (by decide)

/-! ## RETAIN on the way -/

/-- Unless the message has expired or has to wait, the options it goes out with keep its
RETAIN. -/
def keptBy (sess : Session) (msg : OutboundMsg) (now : ℕ) : Prop :=
  expired msg.expiresAt now = false → (msg.deliverQoS > 0 → sess.canSendOutbound = true) →
    msg.subOpts.retainAsPublished = true

theorem doDeliver_isSome (sess : Session) (msg : OutboundMsg) (retainedDelivery : Bool) (now : ℕ) :
    (sess.doDeliver msg retainedDelivery now).2.isSome = true ↔
      expired msg.expiresAt now = false ∧ (msg.deliverQoS > 0 → sess.canSendOutbound = true) := by
  unfold Session.doDeliver
  split_ifs with hexp hfull hqos
  · simp [hexp]
  · simp only [Bool.and_eq_true, decide_eq_true_eq, Bool.not_eq_true'] at hfull
    simp [hfull.1, hfull.2]
  · simpa [hexp, hqos] using hfull
  · simp [hexp, hqos]

/-- The copy leaves the buffer or the queue with its RETAIN. -/
def Kept (st : State) (l : Label) : Prop :=
  match l.hop, st.copy with
  | .flush sess, .buffered msg => keptBy sess msg l.now
  | .drain seen sess, .queued m => ∀ msg, queuedMsg m seen l.now = some msg → keptBy sess msg l.now
  | _, _ => True

/-- A replay after steps that met `kept`: the records before the first PUBLISH all have
RETAIN, those after it have what the PUBLISH had. -/
def Marks (st : State) (kept : Prop) : Prop :=
  ((∀ s ∈ st.sent, s.pub.fixedHeader.retain = true) ↔ kept) ∧
    match st.copy with
    | .retained _ => kept
    | .buffered msg => msg.pkt.fixedHeader.retain = true ∧ kept
    | .queued m => m.retain = true ∧ kept
    | .inflight _ m => m.retain = true ↔ kept
    | .inflightRecord _ m => m.retain = true ↔ kept
    | .gone => True
    | _ => False

theorem Marks.congr {kept kept' : Prop} (h : Marks st kept) (hiff : kept ↔ kept') :
    Marks st kept' := by
  rwa [← propext hiff]

theorem marks_hand (hretain : msg.pkt.fixedHeader.retain = true)
    (hsent : ∀ s ∈ st.sent, s.pub.fixedHeader.retain = true) (retainedDelivery : Bool) :
    Marks (st.hand sess msg retainedDelivery now)
      ((sess.doDeliver msg retainedDelivery now).2.isSome = true →
        retainedDelivery = true ∨ msg.subOpts.retainAsPublished = true) := by
  obtain ⟨hnone, copy, hcopy, he⟩ | ⟨-, id, copy, hcopy, hsome, he⟩ :=
    st.hand_cases sess msg retainedDelivery now
  · rw [he, hnone]
    have hkept : (none : Option PublishPacket).isSome = true →
        retainedDelivery = true ∨ msg.subOpts.retainAsPublished = true := by simp
    refine ⟨⟨fun _ => hkept, fun _ => hsent⟩, ?_⟩
    rcases hcopy with rfl | rfl
    · exact ⟨hretain, hkept⟩
    · trivial
  · rw [he, hsome]
    have hflag : (sess.outboundPublish msg retainedDelivery now).fixedHeader.retain = true ↔
        retainedDelivery = true ∨ msg.subOpts.retainAsPublished = true := by
      simp [Session.outboundPublish, hretain]
    refine ⟨?_, ?_⟩
    · simp only [List.forall_mem_append, List.forall_mem_singleton, hflag, Option.isSome_some,
        true_imp_iff]
      exact and_iff_right hsent
    · rcases hcopy with rfl | rfl
      · trivial
      · simpa [Session.inflightOf] using hflag

theorem marks_step {kept : Prop} {st' : State} {l : Label} (h : Marks st kept)
    (hstep : step st l = some st') : Marks st' (kept ∧ Kept st l) := by
  obtain ⟨copy, sent⟩ := st
  obtain ⟨hop, now⟩ := l
  obtain ⟨hall, hcopy⟩ := h
  unfold step at hstep
  simp only at hstep
  split at hstep
  case h_6 m =>
    obtain ⟨msg, hmsg, rfl⟩ := Option.map_eq_some_iff.mp hstep
    refine (marks_hand (replayedMsg_spec hmsg).2.2 (hall.mpr hcopy) true).congr ?_
    simp only [true_or, implies_true, true_iff]
    exact ⟨hcopy, trivial⟩
  case h_9 sess msg =>
    cases hstep
    refine (marks_hand hcopy.1 (hall.mpr hcopy.2) false).congr ?_
    simp [Kept, keptBy, doDeliver_isSome, hcopy.2]
  case h_10 msg =>
    cases hstep
    exact ⟨hall.trans (iff_self_and.mpr fun _ => trivial), hcopy.1, hcopy.2, trivial⟩
  case h_12 seen sess m =>
    obtain ⟨msg, hmsg, rfl⟩ := Option.map_eq_some_iff.mp hstep
    have hretain := (queuedMsg_spec hmsg).2.2.trans hcopy.1
    refine (marks_hand hretain (hall.mpr hcopy.2) false).congr ?_
    simp [Kept, keptBy, doDeliver_isSome, hcopy.2, hmsg]
  case h_13 | h_14 =>
    cases hstep
    exact Marks.congr ⟨hall, hcopy⟩ (iff_self_and.mpr fun _ => trivial)
  case h_15 ver m =>
    split_ifs at hstep
    cases hstep
    refine Marks.congr ⟨?_, hcopy⟩ (iff_self_and.mpr fun _ => trivial)
    simp only [List.forall_mem_append, List.forall_mem_singleton, hall, Outbound.buildRetransmitPublish]
    exact and_iff_left_of_imp hcopy.mpr
  case h_16 => cases hstep
  all_goals exact hcopy.elim

/-- A retained message on any way to a subscriber, through any sessions: every PUBLISH
written for it has RETAIN exactly when each time the copy leaves the buffer or the queue
the options it leaves with have Retain As Published. -/
theorem replay_retain_iff (m : RetainedMessage) (ls : List Label) (st : State)
    (h : exec step { copy := .retained m } ls = some st) :
    (∀ s ∈ st.sent, s.pub.fixedHeader.retain = true) ↔
      Along step Kept { copy := .retained m } ls := by
  have hrun : ∀ (ls : List Label) (st₀ : State) (kept : Prop), Marks st₀ kept →
      exec step st₀ ls = some st → Marks st (kept ∧ Along step Kept st₀ ls) := by
    intro ls
    induction ls with
    | nil =>
      intro st₀ kept hmarks hexec
      cases hexec
      exact hmarks.congr (iff_self_and.mpr fun _ => trivial)
    | cons l ls ih =>
      intro st₀ kept hmarks hexec
      obtain ⟨st₁, hstep, hrest⟩ := exec_cons_eq_some.mp hexec
      refine (ih st₁ _ (marks_step hmarks hstep) hrest).congr ?_
      simp only [Along, hstep, and_assoc]
  have hmarks : Marks { copy := .retained m } True := ⟨by simp, trivial⟩
  simpa using (hrun ls _ True hmarks h).1

def windowOfOne (unacked : ℕ) (retainAsPublished : Bool) : Session where
  clientID := ascii "s"
  protocolVer := version50
  subscriptions := AList.insert (ascii "a") 1 ∅
  subOptions := AList.insert (ascii "a") { qos := 1, retainAsPublished := retainAsPublished } ∅
  outboundWindow := 1
  outboundUnacked := unacked

def retainedQoS1 : RetainedMessage :=
  { Store.MemoryRetained.retainedOn (ascii "a") [1] with qos := 1 }

/-- The window is full when the message is replayed and open when it is flushed. -/
def flushedReplay (retainAsPublished : Bool) : List Label :=
  [⟨.replay (windowOfOne 1 retainAsPublished) (windowOfOne 1 retainAsPublished), 0⟩,
    ⟨.flush (windowOfOne 0 retainAsPublished), 0⟩]

theorem replay_retain_iff_flushed :
    ∃ st, exec step { copy := .retained retainedQoS1 } (flushedReplay true) = some st ∧
      st.sent.length = 1 ∧ ∀ s ∈ st.sent, s.pub.fixedHeader.retain = true := by
  refine exec_reaches (by decide +kernel) fun st hst _ => ?_
  refine (replay_retain_iff _ _ st hst).mpr ⟨trivial, ?_⟩
  exact ⟨fun _ _ => rfl, trivial⟩

/-- RETAIN is lost without Retain As Published. -/
theorem buffered_replay_not_retained :
    (exec step { copy := .retained retainedQoS1 } (flushedReplay false)).map
      (fun st => st.sent.map fun s => s.pub.fixedHeader.retain) = some [false] := by
  decide +kernel

end SharkMqtt.Broker.MessagePaths
