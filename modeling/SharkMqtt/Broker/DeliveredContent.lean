import SharkMqtt.Broker.MessagePaths

/-!
# What a subscriber gets of a message

Three laws about the PUBLISH a subscriber gets, whichever way the message took: it has
the publisher's properties, it is not sent and does not advertise a lifetime beyond the
publisher's, and it advertises none if the publisher gave none.

Each of them fails on a way that passes through one particular record. A
`StoredMessage`, the form of the offline queue, has no properties
(`relayed_iff_not_stored`). The interval becomes a deadline only when the message is
routed, which for a staged message may be long after it was received, and a saved
staging record has no interval at all (`lifetime_of_prompt`). A message queued without
a deadline takes that of the session (`no_interval_of_untied`).
-/

namespace SharkMqtt.Broker.MessagePaths

open Protocol Lib

/-! ## Properties -/

def Hop.stores : Hop → Bool
  | .enqueue _ | .persist => true
  | _ => false

theorem Content.relay_after (c : Content) (l : Label) :
    (c.after l).relay = if l.hop.stores then {} else c.relay := by
  obtain ⟨hop, now⟩ := l
  cases hop <;> rfl

theorem Content.relay_run (ls : List Label) (c : Content) :
    (c.run ls).relay = if ∃ l ∈ ls, l.hop.stores = true then {} else c.relay :=
  foldl_writes Content.relay ls Content.relay_after c

/-- A PUBLISH sent to an MQTT 5.0 subscriber relays the publisher's properties exactly
when the message was never in the offline queue and was not built for an older version
first, or had none to relay. -/
theorem relayed_iff_not_stored (pkt : PublishPacket) (ls : List Label) (st : State) (s : Sent)
    (hrun : exec step (init pkt) ls = some st) (hs : s ∈ st.sent)
    (hversion : (specFor s.protocolVer).properties = true) :
    relayed s.written = relayed pkt.properties ↔
      (∀ l ∈ ls, l.hop.stores = false) ∧ (specFor s.builtFor).properties = true ∨
        relayed pkt.properties = {} := by
  have hpresents := (sent_presents pkt ls st hrun).2.1 s hs
  rw [Sent.written, if_pos hversion, hpresents.relay, Content.relayFor, Content.relay_run]
  split_ifs with hbuilt hstores
  · have hstored : ¬ ∀ l ∈ ls, l.hop.stores = false := by simpa using hstores
    rw [or_iff_right fun h => hstored h.1, eq_comm]
  · have hnever : ∀ l ∈ ls, l.hop.stores = false := by simpa using hstores
    exact iff_of_true rfl (Or.inl ⟨hnever, hbuilt⟩)
  · rw [or_iff_right fun h => hbuilt h.2, eq_comm]

def publishWith (qos : UInt8) (props : Option Properties) : PublishPacket where
  fixedHeader := { packetType := .publish, qos := qos }
  packetID := 1
  topic := ascii "t"
  payload := [1]
  properties := props

/-- A subscriber of `t` that takes one delivery at a time. -/
def subscriber (unacked : ℕ) : Session where
  clientID := ascii "c"
  protocolVer := version50
  expiryInterval := 100
  subscriptions := AList.insert (ascii "t") 2 ∅
  outboundWindow := 1
  outboundUnacked := unacked

def publisher : Inbound := { protocolVer := version50 }

def typedPublish : PublishPacket :=
  publishWith 1 (some { contentType := ascii "x", userProperties := [⟨ascii "k", ascii "v"⟩] })

/-- The window is full when the message is routed, and open later. -/
def flushedRun : List Label :=
  [⟨.receive {} publisher .route, 0⟩, ⟨.deliver (ascii "p") (subscriber 1) (subscriber 1), 0⟩,
    ⟨.flush (subscriber 0), 1⟩]

theorem sent_singleton (pkt : PublishPacket) (ls : List Label) {α : Type} (f : Sent → α) {a : α}
    (hrun : (exec step (init pkt) ls).map (·.sent.map f) = some [a]) :
    ∃ st s, exec step (init pkt) ls = some st ∧ st.sent = [s] ∧ f s = a := by
  obtain ⟨st, hst, hsent⟩ := Option.map_eq_some_iff.mp hrun
  obtain ⟨s, hs, hfs⟩ := List.map_eq_singleton_iff.mp hsent
  exact ⟨st, s, hst, hs, hfs⟩

theorem relayed_iff_not_stored_flushedRun :
    ∃ st s, exec step (init typedPublish) flushedRun = some st ∧ s ∈ st.sent ∧
      (specFor s.protocolVer).properties = true ∧
      relayed s.written = relayed typedPublish.properties := by
  obtain ⟨st, s, hst, hs, hversions⟩ := sent_singleton typedPublish flushedRun
    (fun s => (s.protocolVer, s.builtFor)) (a := (version50, version50)) (by decide +kernel)
  obtain ⟨hversion, hbuilt⟩ := Prod.mk.inj hversions
  have hmem : s ∈ st.sent := hs ▸ List.mem_singleton_self s
  have hspec : (specFor s.protocolVer).properties = true := by
    rw [hversion]
    decide
  refine ⟨st, s, hst, hmem, hspec, ?_⟩
  refine (relayed_iff_not_stored typedPublish flushedRun st s hst hmem hspec).mpr (Or.inl ?_)
  rw [hbuilt]
  decide

/-- The subscriber is away when the message is routed, with a session that ends after 100
seconds, and is back after 40. -/
def offlineRun : List Label :=
  [⟨.receive {} publisher .route, 0⟩, ⟨.enqueue ((subscriber 0).save 0), 0⟩,
    ⟨.drain (subscriber 0) (subscriber 0), 40 * second⟩]

/-- The subscriber leaves while the message waits for a free slot. -/
def persistedRun : List Label :=
  [⟨.receive {} publisher .route, 0⟩, ⟨.deliver (ascii "p") (subscriber 1) (subscriber 1), 0⟩,
    ⟨.persist, 1⟩, ⟨.drain (subscriber 0) (subscriber 0), 2⟩]

/-- On both ways the subscriber gets a PUBLISH without the properties. -/
theorem stored_message_loses_properties :
    (exec step (init typedPublish) offlineRun).map
        (·.sent.map fun s => (s.protocolVer, relayed s.pub.properties)) = some [(version50, {})] ∧
      (exec step (init typedPublish) persistedRun).map
        (·.sent.map fun s => (s.protocolVer, relayed s.pub.properties)) = some [(version50, {})] ∧
      relayed typedPublish.properties ≠ {} := by
  decide +kernel

/-! ## Lifetimes -/

/-- Rounded up to whole seconds. -/
def seconds (n : ℕ) : ℕ := (n + (second - 1)) / second

theorem remainingExpiry_le (expiresAt now : ℕ) :
    (remainingExpiry expiresAt now).toNat ≤ seconds (expiresAt - now) := by
  unfold remainingExpiry seconds
  split_ifs with hpast hshort
  · exact Nat.zero_le _
  · have hone : 1 * second ≤ expiresAt - now + (second - 1) := by
      omega
    exact (Nat.le_div_iff_mul_le (by decide)).mpr hone
  · refine le_trans (Nat.mod_le _ _) (Nat.div_le_div_right ?_)
    omega

/-- The hop is one in which the interval is read, and it is made at the time `t`; no
staging record is saved. -/
def Label.Prompt (t : ℕ) (l : Label) : Prop :=
  match l.hop with
  | .receive _ _ _ | .retain | .deliver _ _ _ | .deliverShared _ _ _ _ | .enqueue _ => l.now = t
  | .saveInbound => False
  | _ => True

/-- The interval is still the one received, or has become the deadline it should. -/
def Content.Lives (t : ℕ) (e : UInt32) (c : Content) : Prop :=
  (c.interval = some e ∧ c.deadline = none) ∨ c.deadline = some (t + e.toNat * second)

variable {e : UInt32} {c : Content}

variable {t : ℕ}

theorem Content.lives_fix (he : e > 0) (h : c.Lives t e) :
    (c.fix t).deadline = some (t + e.toNat * second) := by
  unfold Content.fix
  rcases h with ⟨hinterval, hnone⟩ | hsome
  · rw [hinterval, hnone, Option.bind_some, if_pos he]
    rfl
  · rw [hsome]
    rfl

theorem Content.lives_after {l : Label} (he : e > 0) (h : c.Lives t e) (hl : l.Prompt t) :
    (c.after l).Lives t e := by
  obtain ⟨hop, now⟩ := l
  cases hop with
  | saveInbound => exact absurd hl not_false
  | retain | deliver | deliverShared =>
    obtain rfl : now = t := hl
    exact Or.inr (Content.lives_fix he h)
  | enqueue data =>
    obtain rfl : now = t := hl
    refine Or.inr ?_
    show ((c.fix now).deadline <|> _) = _
    rw [Content.lives_fix he h]
    rfl
  | _ => exact h

variable {ls : List Label}

theorem Content.lives_run (he : e > 0) (h : c.Lives t e) (hprompt : ∀ l ∈ ls, l.Prompt t) :
    (c.run ls).Lives t e :=
  List.foldlRecOn ls Content.after h fun _ hc l hl => Content.lives_after he hc (hprompt l hl)

/-- Only a PUBLISH that does not arrive expired gets any further. -/
theorem received_or_live {pkt : PublishPacket} {st : State}
    (hrun : exec step (init pkt) ls = some st) :
    st.copy = .received pkt ∨ Inbound.arrivesExpired pkt = false := by
  apply exec_preserves (fun st => st.copy = .received pkt ∨ Inbound.arrivesExpired pkt = false)
    ?_ (Or.inl rfl) hrun
  rintro st l st' (hcopy | hlive) hstep
  · obtain ⟨hop, now⟩ := l
    unfold step at hstep
    rw [hcopy] at hstep
    cases hop with
    | receive policy inb branch =>
      obtain ⟨copy, harrive, -⟩ := Option.map_eq_some_iff.mp hstep
      exact Or.inr (arrive_spec harrive).2
    | _ => cases hstep
  · exact Or.inr hlive

/-- A message whose interval is read when it is received, and that is not saved while it
is staged, is never sent for the first time after its lifetime, and no PUBLISH
advertises more than what is left of it, rounded up to whole seconds. -/
theorem lifetime_of_prompt (pkt : PublishPacket) (e : UInt32) (t : ℕ) (ls : List Label)
    (st : State) (hpkt : interval pkt.properties = some e) (hprompt : ∀ l ∈ ls, l.Prompt t)
    (hrun : exec step (init pkt) ls = some st) :
    ∀ s ∈ st.sent, (s.first = true → s.now ≤ t + e.toNat * second) ∧
      ∀ i, interval s.pub.properties = some i →
        i.toNat ≤ seconds (t + e.toNat * second - s.now) := by
  intro s hs
  obtain ⟨-, hsent, hpending⟩ := sent_presents pkt ls st hrun
  have hpresents := hsent s hs
  have he : e > 0 := by
    rcases received_or_live hrun with hcopy | hlive
    · rw [hpending (by rw [hcopy]; rfl)] at hs
      cases hs
    · unfold Inbound.arrivesExpired at hlive
      have hinterval : pkt.properties.bind (·.messageExpiryInterval) = some e := hpkt
      rw [hinterval] at hlive
      apply UInt32.pos_iff_ne_zero.mpr
      rintro rfl
      cases hlive
  have hdeadline : ((Content.ofPublish pkt).run ls).deadline = some (t + e.toNat * second) := by
    rcases Content.lives_run he (.inl ⟨hpkt, rfl⟩ : (Content.ofPublish pkt).Lives t e) hprompt with
      ⟨hinterval, -⟩ | hdeadline
    · rw [hpresents.fixed] at hinterval
      cases hinterval
    · exact hdeadline
  constructor
  · intro hfirst
    exact hpresents.started hfirst _ hdeadline
  · intro i hi
    obtain ⟨d, hd, rfl⟩ := hpresents.advertised i hi
    rw [hdeadline, Option.some.injEq] at hd
    rw [hd]
    exact remainingExpiry_le d s.now

def shortPublish (qos : UInt8) : PublishPacket :=
  publishWith qos (some { messageExpiryInterval := some 10 })

/-- The message waits four seconds for a free slot. -/
def waitingRun : List Label :=
  [⟨.receive {} publisher .route, 0⟩, ⟨.deliver (ascii "p") (subscriber 1) (subscriber 1), 0⟩,
    ⟨.flush (subscriber 0), 4 * second⟩]

theorem lifetime_of_prompt_waitingRun :
    ∃ st s, exec step (init (shortPublish 1)) waitingRun = some st ∧ st.sent = [s] ∧
      s.now ≤ 10 * second ∧ s.first = true := by
  obtain ⟨st, s, hst, hs, hfirst⟩ :=
    sent_singleton (shortPublish 1) waitingRun Sent.first (a := true) (by decide +kernel)
  have hprompt : ∀ l ∈ waitingRun, l.Prompt 0 := by simp [waitingRun, Label.Prompt]
  have hlifetime := lifetime_of_prompt (shortPublish 1) 10 0 waitingRun st rfl hprompt hst s
    (hs ▸ List.mem_singleton_self s)
  exact ⟨st, s, hst, hs, hlifetime.1 hfirst, hfirst⟩

/-- A QoS 2 message is released 100 seconds after it was received. -/
def stagedRun : List Label :=
  [⟨.receive {} publisher .stage, 0⟩, ⟨.release, 100 * second⟩,
    ⟨.deliver (ascii "p") (subscriber 0) (subscriber 0), 100 * second⟩]

/-- The publisher's session is saved and restored in between. -/
def restoredRun : List Label :=
  [⟨.receive {} publisher .stage, 0⟩, ⟨.saveInbound, 0⟩, ⟨.restoreInbound, 90 * second⟩,
    ⟨.release, 100 * second⟩,
    ⟨.deliver (ascii "p") (subscriber 0) (subscriber 0), 100 * second⟩]

/-- Both deliveries start long after the ten seconds, the first with a new interval of
ten seconds, the second with none. -/
theorem staged_message_outlives_interval :
    (exec step (init (shortPublish 2)) stagedRun).map
        (·.sent.map fun s => (s.now, s.first, interval s.pub.properties)) =
          some [(100 * second, true, some 10)] ∧
      (exec step (init (shortPublish 2)) restoredRun).map
        (·.sent.map fun s => (s.now, s.first, interval s.pub.properties)) =
          some [(100 * second, true, none)] := by
  decide +kernel

/-! ## Messages without a lifetime -/

/-- The hops that give a message the lifetime of a session. -/
def Hop.ties : Hop → Bool
  | .enqueue data => decide (data.expiryInterval > 0) && data.expiryTime.isSome
  | _ => false

theorem Content.endless_after {l : Label} (h : c.interval = none ∧ c.deadline = none)
    (hl : l.hop.ties = false) : (c.after l).interval = none ∧ (c.after l).deadline = none := by
  obtain ⟨hop, now⟩ := l
  have hfix : (c.fix now).deadline = none := by
    unfold Content.fix
    rw [h.1, h.2]
    rfl
  cases hop with
  | enqueue data =>
    refine ⟨rfl, ?_⟩
    show ((c.fix now).deadline <|> _) = _
    rw [hfix]
    simp only [Hop.ties, Bool.and_eq_false_iff, decide_eq_false_iff_not] at hl
    rcases hl with hexpiry | htime
    · rw [if_neg hexpiry]
      rfl
    · rw [Option.isSome_eq_false_iff, Option.isNone_iff_eq_none] at htime
      rw [htime, ite_self]
      rfl
  | retain | deliver | deliverShared => exact ⟨rfl, hfix⟩
  | saveInbound => exact ⟨rfl, h.2⟩
  | _ => exact h

theorem Content.endless_run (h : c.interval = none ∧ c.deadline = none)
    (hties : ∀ l ∈ ls, l.hop.ties = false) :
    (c.run ls).interval = none ∧ (c.run ls).deadline = none :=
  List.foldlRecOn (motive := fun c => c.interval = none ∧ c.deadline = none) ls Content.after h
    fun _ hc l hl => Content.endless_after hc (hties l hl)

/-- A message published without an interval is delivered without one, unless it was
queued offline for a session with an expiry time. -/
theorem no_interval_of_untied (pkt : PublishPacket) (ls : List Label) (st : State)
    (hpkt : interval pkt.properties = none) (hties : ∀ l ∈ ls, l.hop.ties = false)
    (hrun : exec step (init pkt) ls = some st) :
    ∀ s ∈ st.sent, interval s.pub.properties = none := by
  intro s hs
  have hpresents := (sent_presents pkt ls st hrun).2.1 s hs
  have hendless : ((Content.ofPublish pkt).run ls).deadline = none :=
    (Content.endless_run ⟨hpkt, rfl⟩ hties).2
  refine Option.eq_none_iff_forall_ne_some.mpr fun i hi => ?_
  obtain ⟨d, hd, -⟩ := hpresents.advertised i hi
  cases hendless.symm.trans hd

theorem no_interval_of_untied_persistedRun :
    ∃ st s, exec step (init typedPublish) persistedRun = some st ∧ st.sent = [s] ∧
      interval s.pub.properties = none := by
  obtain ⟨st, s, hst, hs, -⟩ :=
    sent_singleton typedPublish persistedRun Sent.first (a := true) (by decide +kernel)
  exact ⟨st, s, hst, hs, no_interval_of_untied typedPublish persistedRun st rfl (by decide) hst s
    (hs ▸ List.mem_singleton_self s)⟩

/-- The message was published without an interval, and is delivered with one. -/
theorem queued_message_gets_interval :
    interval typedPublish.properties = none ∧
      (exec step (init typedPublish) offlineRun).map
        (·.sent.map fun s => (s.protocolVer, interval s.pub.properties)) =
          some [(version50, some 60)] := by
  decide +kernel

end SharkMqtt.Broker.MessagePaths
