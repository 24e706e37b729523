import SharkMqtt.Broker.Restart

/-!
# What a clean start leaves behind

A CONNECT with Clean Start ends the session its ClientID had. `HandleConnection`
releases the filters of two sessions, the one in the manager and the stored one, then
the record and the queued messages. But `CreateSession` has run by then: the session
in the manager is the new one, without filters, and those of the session it replaced
stay in the topic tree unless the record has them too. The QoS engine is told nothing.

`discards_iff` says for which states the clean start leaves nothing.
-/

namespace SharkMqtt.Broker.CleanStart

open Protocol Lib Function

variable {opts : BrokerOptions} {p : Process} {pkt : ConnectPacket} {assigned : Str} {now : ℕ}

/-- Nothing of an earlier session is left for the ClientID. -/
structure NoResidue (p : Process) (c : Str) : Prop where
  entries : ∀ a, p.topics.entry c a = none
  engine : ∀ id, p.out.engine.getInflight c id = none
  stored : p.out.stored c = none
  queue : p.queued c = []

/-- The filters of the record the owner check has read. -/
def recordFilters (p : Process) (pkt : ConnectPacket) : List Str :=
  (p.storedSession pkt).elim [] SessionData.filters

theorem cleanSession_assignClientID :
    (Process.assignClientID pkt assigned).flags.cleanSession = pkt.flags.cleanSession := by
  unfold Process.assignClientID
  split_ifs <;> rfl

theorem deliverQueuedMessages_of_nil {c : Str} (h : p.queued c = []) :
    p.deliverQueuedMessages c now = p := by
  have hqueued : update p.queued c [] = p.queued := by
    rw [← h]
    exact update_eq_self c p.queued
  have hcount : update p.offlineCount c (p.offlineCount c - 0) = p.offlineCount :=
    update_eq_self c p.offlineCount
  unfold Process.deliverQueuedMessages
  rw [h]
  simp only [Process.deliverListed, List.length_nil, Nat.sub_self, hqueued, hcount]

section

variable (hclean : pkt.flags.cleanSession = true)

include hclean

theorem engine_register (id : UInt16) (c : Str) :
    (p.register opts pkt assigned now).out.engine.getInflight c id =
      p.out.engine.getInflight c id := by
  rw [Process.out_register]
  unfold Outbound.connect Outbound.resumedEngine
  simp only [cleanSession_assignClientID, hclean, if_true]
  exact p.out.engine.getInflight_setClientVersion _ c id _

theorem stored_register :
    (p.register opts pkt assigned now).out.stored
      (Process.assignClientID pkt assigned).clientID = none := by
  rw [Process.out_register, Process.stored_connect_self, cleanSession_assignClientID, hclean]
  rfl

theorem queued_register :
    (p.register opts pkt assigned now).queued
      (Process.assignClientID pkt assigned).clientID = [] := by
  rw [Process.register_clean opts p now (cleanSession_assignClientID.trans hclean)]
  exact update_self _ _ _

/-- Only entries at the addresses of the record are released. -/
theorem entry_register (a : Address) :
    (p.register opts pkt assigned now).topics.entry
        (Process.assignClientID pkt assigned).clientID a =
      if a ∈ addresses (recordFilters p pkt) then none
      else p.topics.entry (Process.assignClientID pkt assigned).clientID a := by
  rw [Process.register_clean opts p now (cleanSession_assignClientID.trans hclean),
    Topics.entry_unsubscribeTopics]
  exact if_congr (and_iff_right rfl) rfl rfl

/-- With the queue cleared the rest of the handshake delivers nothing: what holds when
the connection is registered still holds when its read loop begins. -/
theorem connect_eq_register : p.connect opts pkt assigned now = p.register opts pkt assigned now :=
  deliverQueuedMessages_of_nil (queued_register hclean)

end

/-- **A clean start leaves nothing of the previous session exactly when every filter
the ClientID has in the topic tree is one of its record, and the engine tracks no
delivery for it.** -/
theorem discards_iff (opts : BrokerOptions) (p : Process) {pkt : ConnectPacket} (assigned : Str)
    (now : ℕ) (hclean : pkt.flags.cleanSession = true) {c : Str}
    (hc : (Process.assignClientID pkt assigned).clientID = c) :
    NoResidue (p.register opts pkt assigned now) c ↔
      (∀ a, (p.topics.entry c a).isSome = true → a ∈ addresses (recordFilters p pkt)) ∧
        ∀ id, p.out.engine.getInflight c id = none := by
  subst hc
  constructor
  · intro h
    refine ⟨fun a ha => ?_, fun id => (engine_register hclean id _).symm.trans (h.engine id)⟩
    by_contra hmem
    have hnone := h.entries a
    rw [entry_register hclean, if_neg hmem] at hnone
    rw [hnone] at ha
    cases ha
  · rintro ⟨hentries, hengine⟩
    refine ⟨fun a => ?_, fun id => (engine_register hclean id _).trans (hengine id),
      stored_register hclean, queued_register hclean⟩
    rw [entry_register hclean]
    split_ifs with hmem
    · rfl
    · exact Option.not_isSome_iff_eq_none.mp fun ha => hmem (hentries a ha)

/-! ## A session offline and a session online -/

def connectClean : ConnectPacket :=
  { Restart.connectPersistent with flags := { cleanSession := true } }

def message : OutboundMsg := ⟨Restart.publishQoS1, 1, {}, [], none⟩

/-- The record of a session with one filter. -/
def record : SessionData :=
  ({ clientID := ascii "c", expiryInterval := 100,
     subscriptions := (∅ : AList fun _ : Str => ℕ).insert (ascii "a") 1 } : Session).save 0

/-- A client away, with its filter entered and a message queued. -/
def offline : Process where
  topics := (∅ : Topics).restoreFilters (ascii "c") [⟨ascii "a", 1⟩]
  out := { stored := fun c => if c = ascii "c" then some record else none, engine := {} }
  queued := fun _ => [Process.bufferedMessage message]

theorem offline_session_discarded :
    (offline.topics.entry (ascii "c") (.trie (ascii "a"))).isSome = true ∧
      NoResidue (offline.register Restart.options connectClean [] 1) (ascii "c") := by
  refine ⟨by decide +kernel, ?_⟩
  refine (discards_iff Restart.options offline [] 1 rfl rfl).mpr ⟨fun a ha => ?_, fun id => rfl⟩
  rcases (Topics.isSome_entry_restoreFilters (ascii "c") a _ _).mp ha with hempty | ⟨-, hmem⟩
  · rw [Topics.entry_empty] at hempty
    cases hempty
  · exact hmem

/-- A client connects, subscribes and is sent a message it does not acknowledge. -/
def online : List Restart.Label :=
  [.connect Restart.connectPersistent [] 0,
    .subscribe (ascii "c") [⟨ascii "a", 1, false, false, 0, none⟩] fun _ => true,
    .deliver (.deliver (ascii "c") message false 0)]

/-- Its clean start over that connection keeps the filter and the delivery. -/
theorem online_session_remains :
    ∃ st, exec (Restart.step Restart.options) Restart.fresh online = some st ∧
      ((st.process.register Restart.options connectClean [] 1).topics.match (ascii "a")).map
        Subscriber.clientID = [ascii "c"] ∧
      ((st.process.register Restart.options connectClean [] 1).out.engine.getInflight
        (ascii "c") 1).isSome = true ∧
      ¬ NoResidue (st.process.register Restart.options connectClean [] 1) (ascii "c") := by
  refine exec_reaches (by decide +kernel) fun st hst _ => ?_
  have hengine : ((st.process.register Restart.options connectClean [] 1).out.engine.getInflight
      (ascii "c") 1).isSome = true := of_exec hst (by decide +kernel)
  refine ⟨hengine, fun h => ?_⟩
  rw [h.engine 1] at hengine
  cases hengine

end SharkMqtt.Broker.CleanStart
