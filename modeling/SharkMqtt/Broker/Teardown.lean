import SharkMqtt.Broker.Delivery
import SharkMqtt.Broker.Routing

/-!
# Routing a message during a teardown

One QoS 1 or 2 message is routed to a client (`deliverToClient`, `doDeliver`,
`queueOfflineMessage`) while the goroutine of the client's connection handles
acknowledgements, ends its read loop and tears the connection down (`disconnect`:
`Save`, the locked removal, `persistBufferedOutbound`). Both are machines over
the shared session and the two stores; one label is one atomic step, and every
interleaving is a list of labels. Store calls succeed.

`place` is a ghost: where the routed message is at the moment. It decides
nothing; it names the entry, among possible copies with the same content, that
stands for this message. When both have finished, the message is `Kept` if it was
acknowledged, or stands in the stored record, or in the stored offline queue.

It is lost in three windows: an entry added after the snapshot of `Save`, a
second session lookup after the removal, a message buffered after the buffer was
drained. Runs whose steps stay out of them, and of the bounds the broker sets on
purpose, keep it (`kept_of_safe`).
-/

namespace SharkMqtt.Broker.Teardown

open Protocol Lib

/-! ## The two goroutines -/

/-- What stays fixed: the message, its publisher, the bound of the offline queue
(0: none). -/
structure Input where
  pkt : PublishPacket
  source : Str
  maxOfflineQueue : ℕ

/-- The next step of a `doDeliver` call. -/
inductive Progress where
  /-- `GetSession` and the expiry check. -/
  | lookup
  /-- `CanSendOutbound` -/
  | window
  /-- `BufferOutbound` -/
  | buffer
  /-- `NextPacketID` -/
  | number
  /-- `AddInflight` -/
  | track (entry : InflightMsg)
  /-- `IncOutboundUnacked`, then `writePacket` -/
  | count

inductive Router where
  /-- `deliverToClient`: the session lookup. -/
  | start
  /-- The session was found; its options are matched next. -/
  | found
  | delivering (msg : OutboundMsg) (next : Progress)
  /-- `queueOfflineMessage`: the lookup of the stored session. -/
  | offline (expiresAt : Option ℕ)
  | limit (expiresAt : Option ℕ)
  /-- `SaveMessage` -/
  | storing (expiresAt : Option ℕ)
  /-- `offlineCount++` -/
  | counting
  | returned

inductive Reader where
  | reading
  /-- An acknowledgement has removed its entry, if there was one. -/
  | settled (removed : Bool)
  /-- `flushBufferedOutbound`: the length, the window, the pop, the delivery. -/
  | flushing
  | flushWindow
  | flushPop
  | redelivering (msg : OutboundMsg) (next : Progress)
  /-- `disconnect`: the snapshot of `Save` is next. -/
  | saving
  | saved (data : SessionData)
  /-- The locked removal is next. -/
  | removing
  /-- `persistBufferedOutbound`: the pop, the store, the count. -/
  | persisting
  | persistStore (msg : OutboundMsg)
  | persistCount
  | closed

inductive Place where
  | router
  /-- The entry of `Inflight` with this identifier. -/
  | inflight (id : UInt16)
  /-- The k-th of the buffered deliveries. -/
  | buffered (k : ℕ)
  /-- Popped by the flush. -/
  | flushing
  /-- Popped by the teardown. -/
  | persisting
  /-- The k-th of the stored offline queue. -/
  | offline (k : ℕ)
  | acked
  | lost
deriving DecidableEq

/-- `StoredMessage`, without its identifier and time stamp. -/
structure StoredMessage where
  topic : Str
  qos : ℕ
  payload : Bytes
  retain : Bool
  expiresAt : Option ℕ

structure State where
  sess : Session
  /-- The session is in the manager. -/
  published : Bool := true
  stored : Option SessionData
  offline : List StoredMessage
  offlineCount : ℕ
  router : Router := .start
  reader : Reader := .reading
  place : Place := .router

/-- The client is connected, its session in memory; the message has just been
matched. The session and the stores hold anything. -/
def init (sess : Session) (stored : Option SessionData) (offline : List StoredMessage)
    (offlineCount : ℕ) : State :=
  { sess := sess, stored := stored, offline := offline, offlineCount := offlineCount }

/-! ## One `doDeliver` step -/

/-- The session after the step, and what comes next; `none` when the call
returns. -/
def deliverStep (sess : Session) (published : Bool) (msg : OutboundMsg) (now : ℕ) :
    Progress → Session × Option Progress
  | .lookup =>
    if !published || expired msg.expiresAt now then (sess, none) else (sess, some .window)
  | .window =>
    if msg.deliverQoS > 0 && !sess.canSendOutbound then (sess, some .buffer)
    else if msg.deliverQoS > 0 then (sess, some .number)
    else (sess, none)
  | .buffer => ((sess.bufferOutbound msg).2, none)
  | .number =>
    let pub := sess.outboundPublish msg false now
    let (id, sess) := sess.nextPacketID
    (sess, some (.track (Session.inflightOf msg pub id)))
  | .track entry => (sess.addInflight entry, some .count)
  | .count => (sess.incOutboundUnacked, none)

/-- Where the routed message is after a `doDeliver` step on it; `held` is where it
is while the call holds it. -/
def deliverPlace (held : Place) (sess : Session) (published : Bool) (msg : OutboundMsg)
    (now : ℕ) : Progress → Place
  | .lookup => if !published || expired msg.expiresAt now then .lost else held
  | .window => if msg.deliverQoS > 0 then held else .lost
  | .buffer => if (sess.bufferOutbound msg).1 then .buffered sess.outboundQueue.length else .lost
  | .number => held
  | .track entry => .inflight entry.packetID
  | .count => held

/-- After a step on another message: an entry stored under the identifier of the
routed one replaces it. -/
def otherPlace (place : Place) : Progress → Place
  | .track entry => if place = .inflight entry.packetID then .lost else place
  | _ => place

/-- After a pop the buffered messages move up. -/
def popPlace (popped : Place) : Place → Place
  | .buffered 0 => popped
  | .buffered (k + 1) => .buffered k
  | place => place

/-- A `doDeliver` step by the goroutine that holds its message at `held`. -/
def State.deliver (st : State) (held : Place) (msg : OutboundMsg) (now : ℕ) (p : Progress) :
    State :=
  { st with
    sess := (deliverStep st.sess st.published msg now p).1
    place :=
      if st.place = held then deliverPlace held st.sess st.published msg now p
      else otherPlace st.place p }

/-! ## Steps -/

def messageExpiresAt (pkt : PublishPacket) (now : ℕ) : Option ℕ :=
  match pkt.properties.bind (·.messageExpiryInterval) with
  | none => none
  | some interval => if interval > 0 then some (now + interval.toNat * second) else none

/-- The message `deliverToClient` hands to `doDeliver`; `none` when it returns. -/
def routedMsg (inp : Input) (sess : Session) (now : ℕ) : Option OutboundMsg :=
  if inp.source ≠ [] ∧ sess.clientID = inp.source ∧ !sess.allowsLocalPublish inp.pkt.topic then none
  else
    let m := sess.matchesSubscription inp.pkt.topic
    if !m.matched then none
    else
      let d := deliverWithQoS sess inp.pkt m.qos m.opts m.subIDs
      some ⟨d.pkt, d.deliverQoS, d.subOpts, d.subIDs, messageExpiresAt inp.pkt now⟩

def sessionExpired (data : SessionData) (now : ℕ) : Bool :=
  decide (data.expiryInterval > 0) && expired data.expiryTime now

def routerStep (inp : Input) (st : State) (now : ℕ) : Option State :=
  match st.router with
  | .start =>
    if st.published then some { st with router := .found }
    else some { st with router := .offline (messageExpiresAt inp.pkt now) }
  | .found =>
    match routedMsg inp st.sess now with
    | none => some { st with router := .returned, place := .lost }
    | some msg => some { st with router := .delivering msg .lookup }
  | .delivering msg p =>
    let next := (deliverStep st.sess st.published msg now p).2
    some { st.deliver .router msg now p with
      router := next.elim .returned (.delivering msg) }
  | .offline expiresAt =>
    match st.stored with
    | none => some { st with router := .returned, place := .lost }
    | some data =>
      if sessionExpired data now then
        some { st with router := .returned, place := .lost }
      else
        -- without a deadline of its own the message lives as long as the session
        let session := if data.expiryInterval > 0 then data.expiryTime else none
        some { st with router := .limit (expiresAt <|> session) }
  | .limit expiresAt =>
    if inp.maxOfflineQueue > 0 ∧ st.offlineCount ≥ inp.maxOfflineQueue then
      some { st with router := .returned, place := .lost }
    else some { st with router := .storing expiresAt }
  | .storing expiresAt =>
    let msg : StoredMessage :=
      ⟨inp.pkt.topic, inp.pkt.fixedHeader.qos.toNat, inp.pkt.payload, inp.pkt.fixedHeader.retain,
        expiresAt⟩
    some { st with
      offline := st.offline ++ [msg], place := .offline st.offline.length, router := .counting }
  | .counting => some { st with offlineCount := st.offlineCount + 1, router := .returned }
  | .returned => none

def readerStep (st : State) (now : ℕ) : Option State :=
  match st.reader with
  | .reading => none
  | .settled removed =>
    some { st with
      sess := if removed then st.sess.decOutboundUnacked else st.sess
      reader := .flushing }
  | .flushing =>
    some { st with reader := if st.sess.outboundQueue = [] then .reading else .flushWindow }
  | .flushWindow =>
    some { st with reader := if st.sess.canSendOutbound then .flushPop else .reading }
  | .flushPop =>
    match st.sess.popOutbound with
    | none => some { st with reader := .reading }
    | some (msg, sess) =>
      some { st with
        sess := sess, place := popPlace .flushing st.place, reader := .redelivering msg .lookup }
  | .redelivering msg p =>
    let next := (deliverStep st.sess st.published msg now p).2
    some { st.deliver .flushing msg now p with
      reader := next.elim .flushing (.redelivering msg) }
  | .saving =>
    if st.sess.expiryInterval > 0 then some { st with reader := .saved (st.sess.save now) }
    else some { st with stored := none, offline := [], offlineCount := 0, reader := .removing }
  | .saved data => some { st with stored := some data, reader := .removing }
  | .removing =>
    some { st with
      sess := st.sess.resetOutboundUnacked
      published := false
      reader := if st.sess.expiryInterval > 0 then .persisting else .closed }
  | .persisting =>
    match st.sess.popOutbound with
    | none => some { st with reader := .closed }
    | some (msg, sess) =>
      some { st with
        sess := sess, place := popPlace .persisting st.place, reader := .persistStore msg }
  | .persistStore msg =>
    let stored : StoredMessage :=
      ⟨msg.pkt.topic, msg.deliverQoS, msg.pkt.payload, msg.pkt.fixedHeader.retain, msg.expiresAt⟩
    some { st with
      offline := st.offline ++ [stored]
      place := if st.place = .persisting then .offline st.offline.length else st.place
      reader := .persistCount }
  | .persistCount => some { st with offlineCount := st.offlineCount + 1, reader := .persisting }
  | .closed => none

inductive Label where
  /-- The next step of the routing goroutine; `now` is what it reads as the time. -/
  | route (now : ℕ)
  /-- The client settles a delivery: PUBACK, PUBCOMP, or a refusing PUBREC. -/
  | ack (id : UInt16)
  /-- A PUBREC that accepts. -/
  | pubRec (id : UInt16)
  /-- The next step of the connection's goroutine. -/
  | reader (now : ℕ)
  /-- The read loop ends. -/
  | leave

def step (inp : Input) (st : State) : Label → Option State
  | .route now => routerStep inp st now
  | .ack id =>
    match st.reader with
    | .reading =>
      let r := st.sess.removeInflight id
      some { st with
        sess := r.2
        place := if st.place = .inflight id then .acked else st.place
        reader := .settled r.1 }
    | _ => none
  | .pubRec id =>
    match st.reader with
    | .reading => some { st with sess := st.sess.markInflightPubRel id }
    | _ => none
  | .reader now => readerStep st now
  | .leave =>
    match st.reader with
    | .reading => some { st with reader := .saving }
    | _ => none

/-! ## What is to be shown -/

def Input.IsCopy (inp : Input) (topic : Str) (payload : Bytes) : Prop :=
  topic = inp.pkt.topic ∧ payload = inp.pkt.payload

def State.finished (st : State) : Bool :=
  match st.router, st.reader with
  | .returned, .closed => true
  | _, _ => false

/-- The message was acknowledged, or stands in the stored record, or in the stored
offline queue. -/
def Kept (inp : Input) (st : State) : Prop :=
  match st.place with
  | .acked => True
  | .inflight id =>
    ∃ data m, st.stored = some data ∧ data.inflight.lookup id = some m ∧
      inp.IsCopy m.topic m.payload
  | .offline k => ∃ m, st.offline[k]? = some m ∧ inp.IsCopy m.topic m.payload
  | _ => False

/-- The message is one for this client: `deliverToClient` hands it on with QoS 1
or 2, and the session outlives the connection. -/
structure Routes (inp : Input) (s : Session) : Prop where
  persistent : s.expiryInterval > 0
  routed : ∀ now, ∃ msg, routedMsg inp s now = some msg ∧ msg.deliverQoS > 0

/-- The snapshot of `Save` is still to come. -/
def Reader.beforeSave : Reader → Bool
  | .reading | .settled _ | .flushing | .flushWindow | .flushPop | .redelivering _ _
  | .saving => true
  | .saved _ | .removing | .persisting | .persistStore _ | .persistCount | .closed => false

/-- The condition on a step. The second lookup finds the session, the buffer is
not drained yet, the entry is added before the snapshot; and none of the bounds
the broker sets is met: message expiry, the buffer's size, the stored session's
lifetime, the offline queue's size. A redelivery overwrites no entry. -/
def Safe (inp : Input) (st : State) : Label → Prop
  | .route now =>
    match st.router with
    | .delivering msg .lookup => st.published = true ∧ expired msg.expiresAt now = false
    | .delivering _ .buffer =>
      st.sess.outboundQueue.length < maxBufferedOutbound ∧ st.reader ≠ .closed
    | .delivering _ (.track _) => st.reader.beforeSave = true
    | .offline _ => ∀ data, st.stored = some data → sessionExpired data now = false
    | .limit _ => inp.maxOfflineQueue = 0 ∨ st.offlineCount < inp.maxOfflineQueue
    | _ => True
  | .reader now =>
    match st.reader with
    | .redelivering msg .lookup => st.place = .flushing → expired msg.expiresAt now = false
    | .redelivering _ .buffer =>
      st.place = .flushing → st.sess.outboundQueue.length < maxBufferedOutbound
    | .redelivering _ (.track entry) => st.place ≠ .inflight entry.packetID
    | _ => True
  | _ => True

/-! ## Routing does not depend on deliveries -/

structure SameRouting (s s' : Session) : Prop where
  clientID : s'.clientID = s.clientID
  expiryInterval : s'.expiryInterval = s.expiryInterval
  subscriptions : s'.subscriptions = s.subscriptions
  subOptions : s'.subOptions = s.subOptions

theorem SameRouting.refl (s : Session) : SameRouting s s := ⟨rfl, rfl, rfl, rfl⟩

variable {s s' : Session}

theorem SameRouting.allowsLocalFrom (h : SameRouting s s') (topic : Str) :
    ∀ entries matched, s'.allowsLocalFrom topic matched entries =
      s.allowsLocalFrom topic matched entries := by
  intro entries
  induction entries with
  | nil => exact fun _ => rfl
  | cons entry rest ih =>
    intro matched
    simp only [Session.allowsLocalFrom, h.subOptions, ih]

theorem SameRouting.matchesSubscription (h : SameRouting s s') (topic : Str) :
    s'.matchesSubscription topic = s.matchesSubscription topic := by
  have hstep : s'.matchStep topic false = s.matchStep topic false := by
    funext m entry
    simp only [Session.matchStep, h.subOptions]
  simp only [Session.matchesSubscription, Session.matchSubscriptions, h.subscriptions, hstep]

theorem SameRouting.routedMsg (h : SameRouting s s') (inp : Input) (now : ℕ) :
    routedMsg inp s' now = routedMsg inp s now := by
  have hlocal : s'.allowsLocalPublish inp.pkt.topic = s.allowsLocalPublish inp.pkt.topic := by
    unfold Session.allowsLocalPublish
    rw [h.subscriptions, h.allowsLocalFrom]
  unfold Teardown.routedMsg deliverWithQoS
  simp only [h.matchesSubscription]
  rw [h.clientID, hlocal]

theorem Routes.congr {inp : Input} (h : Routes inp s) (hs : SameRouting s s') : Routes inp s' := by
  refine ⟨by rw [hs.expiryInterval]; exact h.persistent, fun now => ?_⟩
  rw [hs.routedMsg]
  exact h.routed now

theorem routedMsg_pkt {inp : Input} {now : ℕ} {msg : OutboundMsg}
    (h : routedMsg inp s now = some msg) : msg.pkt = inp.pkt := by
  unfold routedMsg at h
  simp only at h
  split_ifs at h
  cases h
  rfl

theorem sameRouting_bufferOutbound (s : Session) (msg : OutboundMsg) :
    SameRouting s (s.bufferOutbound msg).2 := by
  unfold Session.bufferOutbound
  split_ifs
  · exact SameRouting.refl s
  · exact ⟨rfl, rfl, rfl, rfl⟩

theorem sameRouting_deliverStep (s : Session) (published : Bool) (msg : OutboundMsg) (now : ℕ)
    (p : Progress) : SameRouting s (deliverStep s published msg now p).1 := by
  cases p with
  | lookup | window =>
    unfold deliverStep
    split_ifs <;> exact SameRouting.refl s
  | buffer => exact sameRouting_bufferOutbound s msg
  | number | track | count => exact ⟨rfl, rfl, rfl, rfl⟩

theorem sameRouting_removeInflight (s : Session) (id : UInt16) :
    SameRouting s (s.removeInflight id).2 := by
  unfold Session.removeInflight
  split_ifs
  · exact ⟨rfl, rfl, rfl, rfl⟩
  · exact SameRouting.refl s

theorem popOutbound_eq_some {msg : OutboundMsg} (h : s.popOutbound = some (msg, s')) :
    s.outboundQueue = msg :: s'.outboundQueue ∧ s'.inflight = s.inflight ∧ SameRouting s s' := by
  unfold Session.popOutbound at h
  split at h
  · cases h
  · cases h
    exact ⟨‹_›, rfl, rfl, rfl, rfl, rfl⟩

theorem popOutbound_eq_none (h : s.popOutbound = none) : s.outboundQueue = [] := by
  unfold Session.popOutbound at h
  split at h
  · assumption
  · cases h

end SharkMqtt.Broker.Teardown
