import SharkMqtt.Broker.Inbound

/-!
# Topic aliases

The alias block of `handlePublish` comes after the rate limit: a PUBLISH that the limiter
discards leaves the table as it is, whatever it binds. Where no such packet binds an alias,
the table of a connection is the fold of all that its packets bind.
-/

namespace SharkMqtt.Broker.Inbound

open Protocol Lib

/-- The alias a packet binds, and the topic. -/
def binding (pkt : PublishPacket) : Option (UInt16 × Str) :=
  if pkt.topic = [] then none else (pkt.properties.bind (·.topicAlias)).map (·, pkt.topic)

def bindings (ps : List (Policy × PublishPacket)) : List (UInt16 × Str) :=
  ps.filterMap fun x => binding x.2

abbrev Aliases := AList fun _ : UInt16 => Str

def Aliases.bind (table : Aliases) (b : UInt16 × Str) : Aliases := table.insert b.1 b.2

variable {s s' : Inbound} {pkt pkt' : PublishPacket} {policy : Policy}

theorem topicAliases_applyTopicAlias (h : s.applyTopicAlias pkt = .ok (s', pkt')) :
    s'.topicAliases = (binding pkt).toList.foldl Aliases.bind s.topicAliases := by
  revert h
  unfold binding
  fun_cases applyTopicAlias s pkt <;> rintro ⟨⟩
  next hnone => simp [hnone]
  next hempty _ _ => simp [hempty]
  next a ha _ hne hreg =>
    unfold registerTopicAlias at hreg
    split_ifs at hreg
    cases hreg
    simp [hne, ha, Aliases.bind]

theorem topicAliases_handlePublish (hopen : .close ∉ (s.handlePublish policy pkt).2)
    (hfree : policy.allow = false → binding pkt = none) :
    (s.handlePublish policy pkt).1.topicAliases =
      (binding pkt).toList.foldl Aliases.bind s.topicAliases := by
  revert hopen
  fun_cases handlePublish policy s pkt <;> intro hopen
  next hallow =>
    rw [hfree (by simpa using hallow)]
    rfl
  next => exact absurd (List.mem_append_right _ (List.mem_singleton.mpr rfl)) hopen
  next h _ => exact topicAliases_applyTopicAlias h
  next h _ _ => exact topicAliases_applyTopicAlias h
  next h _ _ _ => exact topicAliases_applyTopicAlias h
  next h _ _ _ _ =>
    rw [← topicAliases_applyTopicAlias h]
    unfold handleQoS2 addInboundQoS2
    split_ifs <;> rfl
  next h _ _ _ _ => exact topicAliases_applyTopicAlias h

def publishes (ps : List (Policy × PublishPacket)) : List Label := ps.map fun x => .publish x.1 x.2

theorem connected_of_run {ps : List (Policy × PublishPacket)} {st st' : State}
    (hrun : exec step st (publishes ps) = some st') (hopen : st'.connected = true) :
    st.connected = true := by
  cases ps with
  | nil =>
    cases hrun
    exact hopen
  | cons x ps =>
    obtain ⟨st₁, hstep, -⟩ := exec_cons_eq_some.mp hrun
    simp only [step] at hstep
    split_ifs at hstep with hconn
    exact hconn

theorem topicAliases_of_run {ps : List (Policy × PublishPacket)}
    (hfree : ∀ x ∈ ps, x.1.allow = false → binding x.2 = none) : ∀ {st st' : State},
    exec step st (publishes ps) = some st' → st'.connected = true →
      st'.sess.topicAliases = (bindings ps).foldl Aliases.bind st.sess.topicAliases := by
  induction ps with
  | nil =>
    intro st st' hrun _
    cases hrun
    rfl
  | cons x ps ih =>
    intro st st' hrun hopen
    obtain ⟨hx, hps⟩ := List.forall_mem_cons.mp hfree
    obtain ⟨st₁, hstep, hrun⟩ := exec_cons_eq_some.mp hrun
    have hconn := connected_of_run hrun hopen
    simp only [step] at hstep
    split_ifs at hstep
    cases hstep
    have htable := topicAliases_handlePublish (s := st.sess) (by simpa [handled] using hconn) hx
    rw [ih hps hrun hopen, show bindings (x :: ps) = (binding x.2).toList ++ bindings ps by
      cases h : binding x.2 <;> simp [bindings, h], List.foldl_append, ← htable]
    rfl

/-- The last binding of an alias counts. -/
theorem lookup_foldl_bind (bs : List (UInt16 × Str)) (a : UInt16) :
    (bs.foldl Aliases.bind ∅).lookup a = bs.reverse.lookup a := by
  induction bs using List.reverseRecOn with
  | nil => rfl
  | append_singleton bs b ih =>
    rw [List.foldl_append, List.reverse_append, List.reverse_singleton, List.singleton_append]
    obtain ⟨a', topic⟩ := b
    by_cases h : a = a'
    · subst h
      simp [Aliases.bind]
    · simp [Aliases.bind, AList.lookup_insert_ne h, List.lookup_cons, beq_false_of_ne h, ih]

/-- **The alias table of a connection that is still open is the fold of all that its packets
bind**, unless the rate limiter discarded one that binds an alias; a PUBLISH without a topic
gets the one that was bound last. -/
theorem topicAliases_eq_fold (opts : Options) (connect : ConnectPacket) (s : Inbound)
    (ps : List (Policy × PublishPacket))
    (hfree : ∀ x ∈ ps, x.1.allow = false → binding x.2 = none) (st : State)
    (hrun : exec step { sess := resume opts connect s } (publishes ps) = some st)
    (hopen : st.connected = true) :
    st.sess.topicAliases = (bindings ps).foldl Aliases.bind ∅ ∧
      ∀ pkt a, pkt.topic = [] → pkt.properties.bind (·.topicAlias) = some a → a ≠ 0 →
        st.sess.applyTopicAlias pkt =
          ((bindings ps).reverse.lookup a).elim (.error reasonCodeProtocolError)
            fun topic => .ok (st.sess, { pkt with topic := topic }) := by
  have htable : st.sess.topicAliases = (bindings ps).foldl Aliases.bind ∅ :=
    topicAliases_of_run hfree hrun hopen
  refine ⟨htable, fun pkt a htopic halias hne => ?_⟩
  rw [← lookup_foldl_bind, applyTopicAlias, halias]
  simp only [if_neg hne, htopic, if_true, resolveTopicAlias, htable]
  generalize AList.lookup a _ = topic
  cases topic <;> rfl

/-- A connection of version 5.0, and a PUBLISH on it that binds alias 1. -/
def connected50 : State :=
  { sess := resume ⟨0, 0⟩ ⟨{ packetType := .connect }, ascii "MQTT", version50, {}, 0, ascii "c",
      [], [], [], [], none, none⟩ {} }

def binds (topic : String) : PublishPacket :=
  { fixedHeader := { packetType := .publish }, topic := ascii topic
    properties := some { topicAlias := some 1 } }

theorem topicAliases_eq_fold_rebound :
    ∃ st, exec step connected50 (publishes [({}, binds "a"), ({ canPublish := fun _ _ => false },
      binds "b")]) = some st ∧ st.connected = true ∧
      st.sess.resolveTopicAlias 1 = some (ascii "b") := by
  refine exec_reaches (by decide +kernel) fun st hst hopen => ?_
  rw [resolveTopicAlias, (topicAliases_eq_fold _ _ _ _ (by decide) st hst hopen).1]
  decide +kernel

/-- The limiter discards the second binding; the alias still stands for the first topic. -/
theorem limited_binding_lost :
    (exec step connected50 (publishes [({}, binds "a"), ({ allow := false }, binds "b")])).map
        (fun st => (st.connected, st.sess.resolveTopicAlias 1)) = some (true, some (ascii "a")) ∧
      (bindings [({}, binds "a"), ({ allow := false }, binds "b")]).reverse.lookup 1 =
        some (ascii "b") := by
  decide +kernel

end SharkMqtt.Broker.Inbound
