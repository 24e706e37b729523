import SharkMqtt.Broker.Outbound
import SharkMqtt.Broker.Subscriptions
import SharkMqtt.Broker.Teardown

/-!
# The broker process

What one process of the broker keeps about its clients: the subscriptions in
`TopicTree`, the sessions, the engine, and the counts of queued messages, beside
the two stores that outlive it, the session records and the offline queues. The
functions are those of `broker/conn_lifecycle.go`, `broker/pub_sub.go` and
`broker/lifecycle.go`, one call at a time, as far as they concern these. Store
calls succeed.

What `writePacket` sends is left to `Outbound`. The deliveries of retained messages
after a SUBSCRIBE and those to share groups go to online clients only; they are
`doDeliver` calls like any other.
-/

namespace SharkMqtt.Broker

open Protocol Lib Function
open Teardown (StoredMessage messageExpiresAt sessionExpired routedMsg)

/-- The options read here; a bound of 0 is none. -/
structure BrokerOptions extends Options where
  maxOfflineQueue : ℕ := 0
  maxTopicFiltersPerSub : ℕ := 0

/-- A session store: each record is filed under its own ClientID. -/
structure SessionStore where
  get : Str → Option SessionData
  filed : ∀ c data, get c = some data → data.clientID = c

@[ext]
structure Process where
  topics : Topics := ∅
  out : Outbound
  /-- The offline queues of the message store. -/
  queued : Str → List StoredMessage := fun _ => []
  offlineCount : Str → ℕ := fun _ => 0

namespace Process

/-- A process starts with a new topic tree, no session and no counts; nothing is
read from the stores. -/
def start (engine : QoSEngine) (stored : Str → Option SessionData)
    (queued : Str → List StoredMessage) : Process where
  out := { stored := stored, engine := engine }
  queued := queued

/-- The next process on the same stores, with the same settings. -/
def restart (p : Process) : Process :=
  start { p.out.engine with inflight := ∅, sessionVersions := ∅ } p.out.stored p.queued

/-! ## Offline queues -/

def saveMessage (p : Process) (c : Str) (msg : StoredMessage) : Process :=
  { p with
    queued := update p.queued c (p.queued c ++ [msg])
    offlineCount := update p.offlineCount c (p.offlineCount c + 1) }

def clearMessages (p : Process) (c : Str) : Process :=
  { p with
    queued := update p.queued c []
    offlineCount := update p.offlineCount c 0 }

/-- What is queued for a client with this record; a message without a deadline of
its own lives as long as the session. -/
def offlineMessage (data : SessionData) (pkt : PublishPacket) (expiresAt : Option ℕ) :
    StoredMessage where
  topic := pkt.topic
  qos := pkt.fixedHeader.qos.toNat
  payload := pkt.payload
  retain := pkt.fixedHeader.retain
  expiresAt := expiresAt <|> if data.expiryInterval > 0 then data.expiryTime else none

def queueOfflineMessage (opts : BrokerOptions) (p : Process) (c : Str) (pkt : PublishPacket)
    (expiresAt : Option ℕ) (now : ℕ) : Process :=
  if pkt.fixedHeader.qos = 0 then p
  else
    match p.out.stored c with
    | none => p
    | some data =>
      if sessionExpired data now then p
      else if opts.maxOfflineQueue > 0 ∧ p.offlineCount c ≥ opts.maxOfflineQueue then p
      else p.saveMessage c (offlineMessage data pkt expiresAt)

def queuedPublish (sess : Session) (msg : StoredMessage) (deliverQoS now : ℕ) :
    PublishPacket where
  fixedHeader := { packetType := .publish, qos := deliverQoS.toUInt8, retain := msg.retain }
  topic := msg.topic
  payload := msg.payload
  properties :=
    if (specFor sess.protocolVer).properties then
      msg.expiresAt.map fun t => { messageExpiryInterval := some (remainingExpiry t now) }
    else none

/-- What a round of `deliverQueuedMessages` does with a message. -/
inductive Round where
  | drop
  /-- The window is full. -/
  | keep
  | deliver (msg : OutboundMsg)

def round (sess : Session) (msg : StoredMessage) (now : ℕ) : Round :=
  if expired msg.expiresAt now then .drop
  else
    let m := sess.matchesSubscription msg.topic
    if !m.matched then .drop
    else
      let deliverQoS := if m.qos < msg.qos then m.qos else msg.qos
      if deliverQoS > 0 && !sess.canSendOutbound then .keep
      else .deliver ⟨queuedPublish sess msg deliverQoS now, deliverQoS, m.opts, m.subIDs, msg.expiresAt⟩

/-- The round; `none` keeps the message queued. -/
def deliverQueued (out : Outbound) (c : Str) (sess : Session) (now : ℕ) (msg : StoredMessage) :
    Option Outbound :=
  match round sess msg now with
  | .drop => some out
  | .keep => none
  | .deliver msg => some (out.doDeliver c msg false now).1

/-- The loop of `deliverQueuedMessages` over the listed messages: what is delivered,
and the messages it keeps. The handshake has just put the session in the manager. -/
def deliverListed (c : Str) (now : ℕ) : List StoredMessage → Outbound →
    Outbound × List StoredMessage
  | [], out => (out, [])
  | msg :: rest, out =>
    match (out.sessions c).bind fun sess => deliverQueued out c sess now msg with
    | some out => deliverListed c now rest out
    | none =>
      let r := deliverListed c now rest out
      (r.1, msg :: r.2)

/-- Each message deleted is taken off the count, down to 0. -/
def deliverQueuedMessages (p : Process) (c : Str) (now : ℕ) : Process :=
  let r := deliverListed c now (p.queued c) p.out
  { p with
    out := r.1
    queued := update p.queued c r.2
    offlineCount := update p.offlineCount c
      (p.offlineCount c - ((p.queued c).length - r.2.length)) }

/-! ## Connecting -/

/-- The packet the handshake goes on with: an empty ClientID gets one assigned. -/
def assignClientID (pkt : ConnectPacket) (assigned : Str) : ConnectPacket :=
  if pkt.clientID = [] then { pkt with clientID := assigned } else pkt

/-- The record the owner check has read; it is not read for an empty ClientID. -/
def storedSession (p : Process) (pkt : ConnectPacket) : Option SessionData :=
  if pkt.clientID = [] then none else p.out.stored pkt.clientID

/-- The record `Restore` reads: the client does not start clean, has no session in
the manager and has one in the store. -/
def restoredRecord (p : Process) (pkt : ConnectPacket) : Option SessionData :=
  if pkt.flags.cleanSession || (p.out.sessions pkt.clientID).isSome then none
  else p.out.stored pkt.clientID

def resumeTopics (p : Process) (pkt : ConnectPacket) : Topics :=
  match p.restoredRecord pkt with
  | none => p.topics
  | some data => p.topics.restoreFilters pkt.clientID (restore data).subscriptions.entries

/-- The teardown of a clean start, after `CreateSession`: the session it finds in the
manager is the one just made. `DeleteSession` is in `Outbound.connect`. -/
def discardPrevious (p : Process) (c : Str) (stored : Option SessionData) : Process :=
  -- `unsubscribeSessionTopics`, then the filters of the record
  let topics :=
    match p.out.sessions c with
    | none => p.topics
    | some sess => p.topics.unsubscribeTopics sess.clientID sess.filters
  let topics :=
    match stored with
    | none => topics
    | some data => topics.unsubscribeTopics c data.filters
  { p.clearMessages c with topics := topics }

/-- `HandleConnection` for an accepted CONNECT, up to the registration of the
connection. One it takes over is closed; the goroutine of that one returns from
`disconnect` at the identity check, so nothing of the old session is released there. -/
def register (opts : BrokerOptions) (p : Process) (pkt : ConnectPacket) (assigned : Str)
    (now : ℕ) : Process :=
  let stored := p.storedSession pkt
  let pkt := assignClientID pkt assigned
  let created : Process :=
    { p with
      topics := p.resumeTopics pkt
      out := (p.out.connect opts.toOptions pkt now).1 }
  if pkt.flags.cleanSession then created.discardPrevious pkt.clientID stored else created

/-- The rest of `HandleConnection`, up to the read loop: the queued messages are
delivered. -/
def connect (opts : BrokerOptions) (p : Process) (pkt : ConnectPacket) (assigned : Str)
    (now : ℕ) : Process :=
  (p.register opts pkt assigned now).deliverQueuedMessages (assignClientID pkt assigned).clientID
    now

/-! ## Disconnecting -/

/-- A buffered delivery as `persistBufferedOutbound` stores it. -/
def bufferedMessage (msg : OutboundMsg) : StoredMessage where
  topic := msg.pkt.topic
  qos := msg.deliverQoS
  payload := msg.pkt.payload
  retain := msg.pkt.fixedHeader.retain
  expiresAt := msg.expiresAt

def persistBufferedOutbound (p : Process) (c : Str) (sess : Session) : Process :=
  (sess.outboundQueue.map bufferedMessage).foldl (fun p msg => p.saveMessage c msg) p

/-- `disconnect` by the connection that is registered. A session that lives on keeps
its entries in the topic tree. -/
def disconnect (p : Process) (c : Str) (now : ℕ) : Process :=
  match p.out.sessions c with
  | none => p
  | some sess =>
    let left : Process := { p with out := p.out.disconnect c now }
    -- the negotiated interval decides, not the Clean Start bit
    if sess.expiryInterval > 0 then left.persistBufferedOutbound c sess
    else
      { left.clearMessages c with
        topics := p.topics.unsubscribeTopics sess.clientID sess.filters }

/-! ## Subscribing -/

/-- The loop body of `handleSubscribe` up to the topic tree: `none` closes the
connection, `some none` refuses the filter. `allowed` is the authorizer, asked about
the filter without its share name. -/
def enterFilter (allowed : Str → Bool) (c : Str) (tp : Topics) (topic : TopicFilter) :
    Option (Option Topics) :=
  if isSharedSubscription topic.topic then
    match parseSharedFilter topic.topic with
    | none => none
    | some (shareName, realFilter) =>
      if !validateTopicFilter realFilter then none
      else if topic.noLocal then none
      else if !allowed realFilter then some none
      else some (some (tp.subscribeShared shareName realFilter c topic.qos.toNat))
  else if !validateTopicFilter topic.topic then none
  else if !allowed topic.topic then some none
  else
    let r := tp.subscribe topic.topic c topic.qos.toNat
    if !r.2 then some none else some (some r.1)

def subscribeFilter (allowed : Str → Bool) (c : Str) (p : Process) (topic : TopicFilter) :
    Option Process :=
  match enterFilter allowed c p.topics topic with
  | none => none
  | some none => some p
  | some (some topics) =>
    some { p with topics := topics, out := p.out.onSession c (·.addSubscriptionFilter topic) }

/-- A loop over filters that ends where the connection is closed. -/
def forFilters {α : Type} (body : Process → α → Option Process) : List α → Process → Process
  | [], p => p
  | f :: rest, p =>
    match body p f with
    | none => p
    | some p => forFilters body rest p

def handleSubscribe (opts : BrokerOptions) (allowed : Str → Bool) (p : Process) (c : Str)
    (topics : List TopicFilter) : Process :=
  if opts.maxTopicFiltersPerSub > 0 ∧ topics.length > opts.maxTopicFiltersPerSub then p
  else forFilters (subscribeFilter allowed c) topics p

def unsubscribeFilter (c : Str) (p : Process) (topic : Str) : Option Process :=
  if isSharedSubscription topic then
    match parseSharedFilter topic with
    | none => none
    | some (shareName, realFilter) =>
      if !validateTopicFilter realFilter then none
      else
        some { p with
          topics := p.topics.unsubscribeShared shareName realFilter c
          out := p.out.onSession c (·.removeSubscription topic) }
  else if !validateTopicFilter topic then none
  else
    some { p with
      topics := p.topics.unsubscribe topic c
      out := p.out.onSession c (·.removeSubscription topic) }

def handleUnsubscribe (p : Process) (c : Str) (topics : List Str) : Process :=
  forFilters (unsubscribeFilter c) topics p

/-! ## Routing and the sweep -/

def deliverToClient (opts : BrokerOptions) (p : Process) (c source : Str) (pkt : PublishPacket)
    (now : ℕ) : Process :=
  match p.out.sessions c with
  | none => p.queueOfflineMessage opts c pkt (messageExpiresAt pkt now) now
  | some sess =>
    match routedMsg ⟨pkt, source, opts.maxOfflineQueue⟩ sess now with
    | none => p
    | some msg => { p with out := (p.out.doDeliver sess.clientID msg false now).1 }

/-- `for _, sub := range b.topics.Match(topic) { b.deliverToClient(...) }` -/
def routePublish (opts : BrokerOptions) (p : Process) (source : Str) (pkt : PublishPacket)
    (now : ℕ) : Process :=
  ((p.topics.match pkt.topic).map Subscriber.clientID).foldl
    (fun p c => p.deliverToClient opts c source pkt now) p

/-- One round of `cleanupExpiredSessions`, for a ClientID of the list. -/
def cleanupExpiredSession (p : Process) (c : Str) (now : ℕ) : Process :=
  if (p.out.sessions c).isSome then p
  else
    match p.out.stored c with
    | none => p
    | some data =>
      if sessionExpired data now then
        { p.clearMessages c with
          topics := p.topics.unsubscribeTopics c data.filters
          out := { p.out with stored := update p.out.stored c none } }
      else p

end Process

/-! ## What deliveries leave alone -/

def Session.subscriber (s : Session) : Str × List Str := (s.clientID, s.filters)

/-- The subscriptions with their options. -/
def Session.maps (s : Session) :
    Str × AList (fun _ : Str => ℕ) × AList fun _ : Str => SubscriptionOptions :=
  (s.clientID, s.subscriptions, s.subOptions)

@[simp] theorem Session.maps_settle (s : Session) (id : UInt16) : (s.settle id).maps = s.maps := by
  unfold Session.settle Session.removeInflight
  split_ifs <;> rfl

@[simp] theorem Session.maps_markInflightPubRel (s : Session) (id : UInt16) :
    (s.markInflightPubRel id).maps = s.maps := by
  obtain ⟨table, heq, -⟩ := s.markInflightPubRel_eq id
  rw [heq]
  rfl

@[simp] theorem Session.maps_doDeliver (s : Session) (msg : OutboundMsg)
    (retainedDelivery : Bool) (now : ℕ) : (s.doDeliver msg retainedDelivery now).1.maps = s.maps := by
  rcases s.doDeliver_cases msg retainedDelivery now with he | ⟨-, he⟩ | ⟨-, he⟩
  · rw [he]
  · rw [he]
    unfold Session.bufferOutbound
    split_ifs <;> rfl
  · rw [he]
    rfl

namespace Outbound

/-- The same clients have sessions, with the same subscriptions, and the records are the
same. -/
structure SameSubscribers (b b' : Outbound) : Prop where
  sessions : ∀ c, (b'.sessions c).map Session.maps = (b.sessions c).map Session.maps
  stored : b'.stored = b.stored

variable {b b' b'' : Outbound} {c : Str}

theorem SameSubscribers.refl (b : Outbound) : b.SameSubscribers b := ⟨fun _ => rfl, rfl⟩

theorem SameSubscribers.trans (h : b.SameSubscribers b') (h' : b'.SameSubscribers b'') :
    b.SameSubscribers b'' :=
  ⟨fun c => (h'.sessions c).trans (h.sessions c), h'.stored.trans h.stored⟩

theorem SameSubscribers.engine (h : b.SameSubscribers b') (q : QoSEngine) :
    b.SameSubscribers { b' with engine := q } := ⟨h.sessions, h.stored⟩

theorem sameSubscribers_setSession {s s' : Session} (hs : b.sessions c = some s)
    (h : s'.maps = s.maps) : b.SameSubscribers (b.setSession c s') := by
  refine ⟨fun c' => ?_, rfl⟩
  rw [sessions_setSession]
  split_ifs with hc
  · rw [hc, hs, Option.map_some, Option.map_some, h]
  · rfl

theorem sameSubscribers_onSession (b : Outbound) (c : Str) {f : Session → Session}
    (hf : ∀ s, (f s).maps = s.maps) : b.SameSubscribers (b.onSession c f) := by
  unfold onSession
  cases hs : b.sessions c with
  | none => exact .refl b
  | some s => exact sameSubscribers_setSession hs (hf s)

theorem sameSubscribers_deliverOn {s s' : Session} (hs : b.sessions c = some s)
    (h : s'.maps = s.maps) (msg : OutboundMsg) (retainedDelivery : Bool) (now : ℕ) :
    b.SameSubscribers (b.deliverOn c s' msg retainedDelivery now).1 := by
  have hset := sameSubscribers_setSession hs ((s'.maps_doDeliver msg retainedDelivery now).trans h)
  unfold deliverOn
  simp only
  split
  · exact hset
  · exact hset.engine _

theorem sameSubscribers_doDeliver (b : Outbound) (c : Str) (msg : OutboundMsg)
    (retainedDelivery : Bool) (now : ℕ) :
    b.SameSubscribers (b.doDeliver c msg retainedDelivery now).1 := by
  unfold doDeliver
  cases hs : b.sessions c with
  | none => exact .refl b
  | some s => exact sameSubscribers_deliverOn hs rfl msg retainedDelivery now

theorem sameSubscribers_giveUps (items : List (Str × UInt16))
    (b : Outbound) : b.SameSubscribers (items.foldl giveUp b) :=
  List.foldlRecOn items giveUp (.refl b) fun b' h item _ =>
    h.trans (b'.sameSubscribers_onSession item.1 fun s => s.maps_settle item.2)

/-- An operation on the deliveries of clients that stay as they are. -/
def Op.delivers : Op → Bool
  | .connect _ _ | .disconnect _ _ => false
  | _ => true

theorem sameSubscribers_run (opts : Options) (b : Outbound) {op : Op} (hop : op.delivers = true) :
    b.SameSubscribers (b.run opts op).1 := by
  have hacts := b.acts_run opts op
  generalize b.run opts op = r at hacts
  cases hacts with
  | idle => exact .refl b
  | deliver hs => exact sameSubscribers_deliverOn hs rfl _ _ _
  | flush hs hq => exact sameSubscribers_deliverOn hs (by rfl) _ false _
  | settle c id => exact (b.sameSubscribers_onSession c fun s => s.maps_settle id).engine _
  | mark => exact (b.sameSubscribers_onSession _ fun s => s.maps_markInflightPubRel _).engine _
  | tick now => exact ((SameSubscribers.refl b).engine _).trans (sameSubscribers_giveUps _ _)
  | connect | disconnect => cases hop

end Outbound

/-! ## One client's view -/

/-- What the subscriptions of one client rest on. -/
@[ext]
structure ClientView where
  /-- The session in the manager: its ClientID and its filters. -/
  session : Option (Str × List Str)
  stored : Option SessionData
  entry : Address → Option ℕ

/-- The filters the client has: those of its session, else those of its record. -/
def ClientView.filters (v : ClientView) : List Str :=
  match v.session with
  | some s => s.2
  | none => v.stored.elim [] SessionData.filters

namespace Process

def view (p : Process) (c : Str) : ClientView where
  session := (p.out.sessions c).map Session.subscriber
  stored := p.out.stored c
  entry := p.topics.entry c

variable {p p' : Process} {c c' : Str} (opts : BrokerOptions) (now : ℕ)

theorem view_of_sameSubscribers (h : p.out.SameSubscribers p'.out) (ht : p'.topics = p.topics)
    (c : Str) : p'.view c = p.view c := by
  refine ClientView.ext ?_ (congrFun h.stored c) (by simp only [view, ht])
  have hmaps := congrArg (Option.map fun m => (m.1, m.2.1.keys)) (h.sessions c)
  rwa [Option.map_map, Option.map_map] at hmaps

theorem deliverToClient_frame (p : Process) (c source : Str) (pkt : PublishPacket) (now : ℕ) :
    p.out.SameSubscribers (p.deliverToClient opts c source pkt now).out ∧
      (p.deliverToClient opts c source pkt now).topics = p.topics := by
  unfold deliverToClient
  split
  · fun_cases queueOfflineMessage opts p c pkt (messageExpiresAt pkt now) now
    all_goals exact ⟨.refl _, rfl⟩
  · split
    · exact ⟨.refl _, rfl⟩
    · exact ⟨p.out.sameSubscribers_doDeliver _ _ false now, rfl⟩

theorem view_deliverToClient (p : Process) (c source : Str) (pkt : PublishPacket) (now : ℕ)
    (c' : Str) : (p.deliverToClient opts c source pkt now).view c' = p.view c' :=
  view_of_sameSubscribers (p.deliverToClient_frame opts c source pkt now).1
    (p.deliverToClient_frame opts c source pkt now).2 c'

theorem view_routePublish (p : Process) (source : Str) (pkt : PublishPacket) (now : ℕ) (c' : Str) :
    (p.routePublish opts source pkt now).view c' = p.view c' :=
  foldl_keeps (Process.view · c')
    (fun p c _ => p.view_deliverToClient opts c source pkt now c') p

theorem sameSubscribers_deliverQueued {out out' : Outbound} {sess : Session} {now : ℕ}
    {msg : StoredMessage} (h : deliverQueued out c sess now msg = some out') :
    out.SameSubscribers out' := by
  revert h
  fun_cases deliverQueued out c sess now msg <;> intro h <;> cases h
  · exact .refl out
  · exact out.sameSubscribers_doDeliver c _ false now

theorem sameSubscribers_deliverListed (c : Str) (now : ℕ) (msgs : List StoredMessage) :
    ∀ out : Outbound, out.SameSubscribers (deliverListed c now msgs out).1 := by
  induction msgs with
  | nil => exact .refl
  | cons msg rest ih =>
    intro out
    unfold deliverListed
    split
    next out' h =>
      obtain ⟨sess, -, h⟩ := Option.bind_eq_some_iff.mp h
      exact (sameSubscribers_deliverQueued h).trans (ih out')
    · exact ih out

theorem view_deliverQueuedMessages (p : Process) (c : Str) (now : ℕ) (c' : Str) :
    (p.deliverQueuedMessages c now).view c' = p.view c' := by
  refine view_of_sameSubscribers (p := p) ?_ ?_ c'
  · exact sameSubscribers_deliverListed c now (p.queued c) p.out
  · rfl

@[simp] theorem out_persistBufferedOutbound (p : Process) (c : Str) (sess : Session) :
    (p.persistBufferedOutbound c sess).out = p.out := by
  unfold persistBufferedOutbound
  apply foldl_keeps
  exact fun _ _ _ => rfl

theorem view_persistBufferedOutbound (p : Process) (c : Str) (sess : Session) (c' : Str) :
    (p.persistBufferedOutbound c sess).view c' = p.view c' := by
  unfold persistBufferedOutbound
  induction sess.outboundQueue.map bufferedMessage generalizing p with
  | nil => rfl
  | cons msg rest ih => exact ih (p.saveMessage c msg)

/-! ## What a connect does to the view -/

section Connect

variable (opts : BrokerOptions) (p : Process) {pkt : ConnectPacket} {assigned : Str} (now : ℕ)
  (b : Outbound)

theorem stored_connect_self (opts : Options) (pkt : ConnectPacket) (now : ℕ) :
    (b.connect opts pkt now).1.stored pkt.clientID =
      if pkt.flags.cleanSession then none else b.stored pkt.clientID :=
  update_self _ _ _

@[simp] theorem out_register : (p.register opts pkt assigned now).out =
    (p.out.connect opts.toOptions (assignClientID pkt assigned) now).1 := by
  unfold register
  simp only
  split_ifs <;> rfl

/-- The session a clean start finds is the new one, so only the filters of the record are
released. -/
theorem register_clean (hclean : (assignClientID pkt assigned).flags.cleanSession = true) :
    p.register opts pkt assigned now =
      { p.clearMessages (assignClientID pkt assigned).clientID with
        topics := p.topics.unsubscribeTopics (assignClientID pkt assigned).clientID
          ((p.storedSession pkt).elim [] SessionData.filters)
        out := (p.out.connect opts.toOptions (assignClientID pkt assigned) now).1 } := by
  have hnew : resumed (p.out.client (assignClientID pkt assigned).clientID)
      (assignClientID pkt assigned) = none := if_pos hclean
  unfold register
  rw [if_pos hclean]
  refine Process.ext ?_ rfl rfl rfl
  simp only [discardPrevious, Outbound.connect, Broker.connect, hnew, update_self, resumeTopics,
    restoredRecord, hclean]
  cases p.storedSession pkt <;> rfl

theorem register_resume (hclean : (assignClientID pkt assigned).flags.cleanSession = false) :
    p.register opts pkt assigned now =
      { p with
        topics := p.resumeTopics (assignClientID pkt assigned)
        out := (p.out.connect opts.toOptions (assignClientID pkt assigned) now).1 } := by
  simp only [register, hclean]
  rfl

theorem entry_resumeTopics_of_ne (hc : c' ≠ pkt.clientID) (a : Address) :
    (p.resumeTopics pkt).entry c' a = p.topics.entry c' a := by
  unfold resumeTopics
  split
  · rfl
  · refine foldl_keeps (Topics.entry · c' a) (fun tp sub _ => ?_) p.topics
    exact (tp.entry_restoreFilter _ sub.1 sub.2 c' a).trans (if_neg fun h => hc h.1)

theorem view_connect_of_ne (hc : c' ≠ (assignClientID pkt assigned).clientID) :
    (p.connect opts pkt assigned now).view c' = p.view c' := by
  unfold connect
  rw [view_deliverQueuedMessages]
  refine ClientView.ext ?_ ?_ (funext fun a => ?_)
  · simp only [view, out_register, Outbound.connect, update_of_ne hc]
  · simp only [view, out_register, Outbound.connect, update_of_ne hc]
  · show (p.register opts pkt assigned now).topics.entry c' a = p.topics.entry c' a
    cases hclean : (assignClientID pkt assigned).flags.cleanSession with
    | true =>
      rw [register_clean opts p now hclean]
      exact Topics.entry_unsubscribeTopics_of_ne hc _ _ a
    | false =>
      rw [register_resume opts p now hclean]
      exact entry_resumeTopics_of_ne p hc a

variable {c : Str} (hc : (assignClientID pkt assigned).clientID = c)

include hc

/-- The session has the filters of the one it resumes. -/
theorem view_connect : (p.connect opts pkt assigned now).view c =
    ⟨some ((resumed (p.out.client c) (assignClientID pkt assigned)).elim (c, []) Session.subscriber),
      if (assignClientID pkt assigned).flags.cleanSession then none else p.out.stored c,
      (p.register opts pkt assigned now).topics.entry c⟩ := by
  subst hc
  unfold connect
  rw [view_deliverQueuedMessages]
  refine ClientView.ext ?_ ?_ rfl
  · simp only [view, out_register, Outbound.connect, Broker.connect, update_self, Option.map_some]
    cases resumed (p.out.client _) (assignClientID pkt assigned) <;> rfl
  · simp only [view, out_register]
    exact stored_connect_self p.out opts.toOptions _ now

theorem view_connect_clean (hclean : (assignClientID pkt assigned).flags.cleanSession = true) :
    (p.connect opts pkt assigned now).view c =
      ⟨some (c, []), none,
        (p.topics.unsubscribeTopics c
          ((p.storedSession pkt).elim [] SessionData.filters)).entry c⟩ := by
  rw [view_connect opts p now hc, register_clean opts p now hclean, hc, resumed, hclean]
  rfl

section

variable (hclean : (assignClientID pkt assigned).flags.cleanSession = false)

include hclean

theorem view_connect_of_session {s : Session} (hs : p.out.sessions c = some s) :
    (p.connect opts pkt assigned now).view c =
      ⟨some s.subscriber, p.out.stored c, p.topics.entry c⟩ := by
  rw [view_connect opts p now hc, register_resume opts p now hclean]
  unfold resumeTopics restoredRecord resumed Outbound.client
  rw [hc, hs, hclean]
  rfl

theorem view_connect_of_record {data : SessionData} (hs : p.out.sessions c = none)
    (hdata : p.out.stored c = some data) :
    (p.connect opts pkt assigned now).view c =
      ⟨some (restore data).subscriber, some data,
        (p.topics.restoreFilters c (restore data).subscriptions.entries).entry c⟩ := by
  rw [view_connect opts p now hc, register_resume opts p now hclean]
  unfold resumeTopics restoredRecord resumed Outbound.client
  rw [hc, hs, hclean, hdata]
  rfl

theorem view_connect_of_none (hs : p.out.sessions c = none) (hdata : p.out.stored c = none) :
    (p.connect opts pkt assigned now).view c = ⟨some (c, []), none, p.topics.entry c⟩ := by
  rw [view_connect opts p now hc, register_resume opts p now hclean]
  unfold resumeTopics restoredRecord resumed Outbound.client
  rw [hc, hs, hclean, hdata]
  rfl

end

end Connect

/-! ## What the other functions do to the view -/

theorem view_disconnect_of_ne (hc : c' ≠ c)
    (howned : ∀ s, p.out.sessions c = some s → s.clientID = c) :
    (p.disconnect c now).view c' = p.view c' := by
  unfold disconnect
  cases hs : p.out.sessions c with
  | none => rfl
  | some sess =>
    have hsessions : (p.out.disconnect c now).sessions c' = p.out.sessions c' := update_of_ne hc _ _
    have hstored : (p.out.disconnect c now).stored c' = p.out.stored c' := update_of_ne hc _ _
    simp only
    split_ifs
    · rw [view_persistBufferedOutbound]
      exact ClientView.ext (congrArg (Option.map Session.subscriber) hsessions) hstored rfl
    · refine ClientView.ext (congrArg (Option.map Session.subscriber) hsessions) hstored (funext fun a => ?_)
      rw [howned sess hs]
      exact Topics.entry_unsubscribeTopics_of_ne hc _ _ a

theorem view_disconnect {s : Session} (hs : p.out.sessions c = some s) :
    (p.disconnect c now).view c = ⟨none, some (s.save now), p.topics.entry c⟩ ∨
      ((p.disconnect c now).view c).session = none ∧ ((p.disconnect c now).view c).stored = none
    := by
  have hafter : Broker.disconnect (p.out.client c) now =
      ⟨none, if s.expiryInterval > 0 then some (s.save now) else none⟩ := by
    unfold Broker.disconnect Outbound.client
    rw [hs]
  have hsessions : (p.out.disconnect c now).sessions c = none := by
    unfold Outbound.disconnect
    rw [hafter]
    exact update_self _ _ _
  have hstored : (p.out.disconnect c now).stored c =
      if s.expiryInterval > 0 then some (s.save now) else none := by
    unfold Outbound.disconnect
    rw [hafter]
    exact update_self _ _ _
  unfold disconnect
  rw [hs]
  simp only
  split_ifs at hstored ⊢
  · left
    rw [view_persistBufferedOutbound]
    exact ClientView.ext (congrArg (Option.map Session.subscriber) hsessions) hstored rfl
  · exact Or.inr ⟨congrArg (Option.map Session.subscriber) hsessions, hstored⟩

theorem subscriber_onSession (b : Outbound) (f : Session → Session) :
    ((b.onSession c f).sessions c').map Session.subscriber =
      if c' = c then (b.sessions c).map fun s => (f s).subscriber
      else (b.sessions c').map Session.subscriber := by
  unfold Outbound.onSession
  cases hs : b.sessions c with
  | none =>
    split_ifs with hc
    · rw [hc, hs]
      rfl
    · rfl
  | some s =>
    rw [Outbound.sessions_setSession]
    split_ifs <;> rfl

theorem view_onSession_of_ne {f : Session → Session} (hout : p'.out = p.out.onSession c f)
    (hentry : ∀ a, p'.topics.entry c' a = p.topics.entry c' a) (hc : c' ≠ c) :
    p'.view c' = p.view c' := by
  refine ClientView.ext ?_ ?_ (funext hentry)
  · simp only [view, hout]
    rw [subscriber_onSession, if_neg hc]
  · simp only [view, hout, Outbound.stored_onSession]

theorem enterFilter_eq_some {allowed : Str → Bool} {tp tp' : Topics} {topic : TopicFilter}
    (h : enterFilter allowed c tp topic = some (some tp')) :
    ∃ a, address topic.topic = some a ∧ a.accepted = true ∧
      ∀ c' a', tp'.entry c' a' =
        if c' = c ∧ a' = a then some topic.qos.toNat else tp.entry c' a' := by
  revert h
  unfold address
  fun_cases enterFilter allowed c tp topic <;> rintro ⟨⟩
  next hshared shareName realFilter hparse _ _ _ =>
    rw [if_pos hshared, hparse]
    exact ⟨.shared shareName realFilter, rfl, rfl,
      tp.entry_subscribeShared shareName realFilter c _⟩
  next hplain hvalid _ _ _ =>
    rw [if_neg hplain]
    have hvalid : validateTopicFilter topic.topic = true := by simpa using hvalid
    refine ⟨.trie topic.topic, rfl, hvalid, fun c' a' => ?_⟩
    refine (tp.entry_subscribe topic.topic c _ c' a').trans (if_congr ?_ rfl rfl)
    simp only [hvalid, and_true]

theorem subscribeFilter_eq_some {allowed : Str → Bool} {topic : TopicFilter}
    (h : subscribeFilter allowed c p topic = some p') :
    p' = p ∨
      ∃ a, address topic.topic = some a ∧ a.accepted = true ∧
        p'.out = p.out.onSession c (·.addSubscriptionFilter topic) ∧
        ∀ c' a', p'.topics.entry c' a' =
          if c' = c ∧ a' = a then some topic.qos.toNat else p.topics.entry c' a' := by
  unfold subscribeFilter at h
  split at h
  · cases h
  · cases h
    exact Or.inl rfl
  next topics henter =>
    cases h
    obtain ⟨a, ha, hacc, hentry⟩ := enterFilter_eq_some henter
    exact Or.inr ⟨a, ha, hacc, rfl, hentry⟩

theorem unsubscribeFilter_eq_some {topic : Str} (h : unsubscribeFilter c p topic = some p') :
    ∃ a, address topic = some a ∧ p'.out = p.out.onSession c (·.removeSubscription topic) ∧
      ∀ c' a', p'.topics.entry c' a' =
        if c' = c ∧ a' = a then none else p.topics.entry c' a' := by
  revert h
  unfold address
  fun_cases unsubscribeFilter c p topic <;> rintro ⟨⟩
  next hshared shareName realFilter hparse _ =>
    rw [if_pos hshared, hparse]
    exact ⟨.shared shareName realFilter, rfl, rfl,
      p.topics.entry_unsubscribeShared shareName realFilter c⟩
  next hplain _ =>
    rw [if_neg hplain]
    exact ⟨.trie topic, rfl, rfl, p.topics.entry_unsubscribe topic c⟩

theorem forFilters_induction {α : Type} {body : Process → α → Option Process} {P : Process → Prop}
    (hbody : ∀ p f p', P p → body p f = some p' → P p') (fs : List α) :
    ∀ p, P p → P (forFilters body fs p) := by
  induction fs with
  | nil => exact fun _ hp => hp
  | cons f rest ih =>
    intro p hp
    unfold forFilters
    cases hb : body p f with
    | none => exact hp
    | some p' => exact ih p' (hbody p f p' hp hb)

theorem view_cleanupExpiredSession_of_ne (hc : c' ≠ c) :
    (p.cleanupExpiredSession c now).view c' = p.view c' := by
  fun_cases cleanupExpiredSession p c now with
  | case3 =>
    refine ClientView.ext rfl (update_of_ne hc _ _) (funext fun a => ?_)
    exact Topics.entry_unsubscribeTopics_of_ne hc _ _ a
  | _ => rfl

theorem view_cleanupExpiredSession :
    (p.cleanupExpiredSession c now).view c = p.view c ∨
      ((p.cleanupExpiredSession c now).view c).session = none ∧
        ((p.cleanupExpiredSession c now).view c).stored = none ∧
        ∀ a, p.topics.entry c a = none →
          ((p.cleanupExpiredSession c now).view c).entry a = none := by
  fun_cases cleanupExpiredSession p c now with
  | case3 hoff =>
    refine Or.inr ⟨?_, update_self _ _ _, fun a ha => ?_⟩
    · exact congrArg (Option.map Session.subscriber) (Option.not_isSome_iff_eq_none.mp hoff)
    · exact Topics.entry_unsubscribeTopics_eq_none (Or.inl ha)
  | _ => exact Or.inl rfl

end Process

end SharkMqtt.Broker
