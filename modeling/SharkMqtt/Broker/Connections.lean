import SharkMqtt.Lib.Runs
import SharkMqtt.Protocol.Packets

/-!
# Connections, takeovers and teardowns

`HandleConnection`, `readLoop`, `disconnect` (`broker/conn_lifecycle.go`),
`sendConnAck` (`broker/connack.go`), `writePacket` (`broker/pub_sub.go`),
`Manager.CreateSession` and `Manager.Restore` (`broker/session.go`), as a machine
of any number of connections of any clients.

One label is one atomic step: a section under `b.mu`, one under the manager's
lock, or one channel send. A goroutine that first looks a connection up by
ClientID and then sends to it takes two steps, and between them anything may
happen. What the code leaves to the environment is in the label: whether the
store gave a session back, what the peer sent, whether a send was taken by the
queue or given up.

Sessions are objects: `SessID` names a `*Session`, `nextSess` is the next one to
be allocated. Three logs record what reaches a connection: `queue`, every packet
placed on its write queue, oldest first; `finals`, the synchronous last writes
(`writeFinal`); `closedBy`, the calls of `conn.Close`. Each entry names the
goroutine it was made on behalf of.

Left out are the steps that touch none of this: wills, metrics, plugin hooks,
limits, authentication and the store writes themselves.
-/

namespace SharkMqtt.Broker.Connections

open Protocol Lib Function

/-! ## State -/

abbrev ConnID := ℕ
abbrev SessID := ℕ

/-- On whose behalf something is sent or closed. -/
inductive Origin where
  | handshake (conn : ConnID)
  | readLoop (conn : ConnID)
  | router
deriving DecidableEq

structure Item where
  kind : PacketType
  origin : Origin
deriving DecidableEq

/-- What a read loop does to the connection it finds under its ClientID: answer
with a packet (`writePacket`), send a last DISCONNECT
(`sendDisconnectBeforeClose`), close it (`closeProtocolViolation`). -/
inductive Response where
  | packet (kind : PacketType)
  | final
  | close
deriving DecidableEq

/-- Where the goroutine of a connection stands. -/
inductive Phase where
  /-- CONNECT accepted; the session lookup is next. -/
  | connecting
  /-- `isResuming` is known; `Restore` or `CreateSession` is next. -/
  | looked (isResuming : Bool)
  /-- Holds a session; not in the connection map yet. -/
  | created (sess : SessID)
  /-- In the connection map; `sendConnAck` is next. -/
  | registered (sess : SessID)
  /-- `sendConnAck` has looked its target up. -/
  | acking (sess : SessID) (target : Option ConnID)
  | reading (sess : SessID)
  /-- The read loop has looked up the connection it responds to. -/
  | responding (sess : SessID) (target : ConnID) (response : Response)
  /-- `disconnect` entered; its first identity check is next. -/
  | leaving (sess : SessID)
  /-- Passed the first identity check; `Save` is next. -/
  | saving (sess : SessID)
  /-- The locked removal is next. -/
  | removing (sess : SessID)
  | finished

def Phase.sess : Phase → Option SessID
  | .created σ | .registered σ | .acking σ _ | .reading σ | .responding σ _ _
  | .leaving σ | .saving σ | .removing σ => some σ
  | .connecting | .looked _ | .finished => none

structure Conn where
  clientID : Str
  /-- Clean Session / Clean Start of its CONNECT. -/
  clean : Bool
  phase : Phase := .connecting
  queue : List Item := []
  finals : List Origin := []
  closedBy : List Origin := []
  /-- `stopWrites` is closed. -/
  stopped : Bool := false

structure State where
  connections : Str → Option ConnID
  sessions : Str → Option SessID
  nextSess : SessID
  conns : ConnID → Conn
  /-- `writePacket` calls of other goroutines between lookup and send. -/
  writers : ℕ → Option (ConnID × PacketType)

def init (clientID : ConnID → Str) (clean : ConnID → Bool) : State where
  connections := fun _ => none
  sessions := fun _ => none
  nextSess := 0
  conns := fun κ => { clientID := clientID κ, clean := clean κ }
  writers := fun _ => none

namespace State

def client (st : State) (κ : ConnID) : Str := (st.conns κ).clientID
def phase (st : State) (κ : ConnID) : Phase := (st.conns κ).phase

def modify (st : State) (κ : ConnID) (f : Conn → Conn) : State :=
  { st with conns := update st.conns κ (f (st.conns κ)) }

def setPhase (st : State) (κ : ConnID) (p : Phase) : State :=
  st.modify κ fun c => { c with phase := p }

def install (st : State) (c : Str) : State :=
  { st with
    sessions := update st.sessions c (some st.nextSess)
    nextSess := st.nextSess + 1 }

def enqueue (st : State) (κ : ConnID) (item : Item) : State :=
  st.modify κ fun c => { c with queue := c.queue ++ [item] }

/-- Close the connection a registration displaces and stop its writer. -/
def displace (st : State) (old : Option ConnID) (κ : ConnID) : State :=
  match old with
  | none => st
  | some o =>
    st.modify o fun c => { c with closedBy := c.closedBy ++ [.handshake κ], stopped := true }

def register (st : State) (κ : ConnID) (σ : SessID) : State :=
  { (st.displace (st.connections (st.client κ)) κ).setPhase κ (.registered σ) with
    connections := update st.connections (st.client κ) (some κ) }

/-- The locked section of a teardown whose connection is still in the map. -/
def remove (st : State) (κ : ConnID) : State :=
  { st.modify κ fun c => { c with phase := .finished, stopped := true } with
    connections := update st.connections (st.client κ) none
    sessions := update st.sessions (st.client κ) none }

def setWriter (st : State) (w : ℕ) (pending : Option (ConnID × PacketType)) : State :=
  { st with writers := update st.writers w pending }

end State

/-! ## Steps -/

inductive Label where
  /-- `isResuming := !CleanSession && SessionExists(clientID)` -/
  | lookup (conn : ConnID)
  /-- The store knows the session: `Restore` installs a new object. -/
  | restore (conn : ConnID)
  | createSession (conn : ConnID)
  | register (conn : ConnID)
  /-- `sendConnAck`: the lookup, then the send. -/
  | connAckLookup (conn : ConnID)
  | connAckSend (conn : ConnID) (placed : Bool)
  /-- A read loop response: the lookup, then the act. -/
  | respondLookup (conn : ConnID) (response : Response)
  | respond (conn : ConnID) (placed : Bool)
  /-- The read loop ends and calls `disconnect`. -/
  | leave (conn : ConnID)
  | identityCheck (conn : ConnID)
  | save (conn : ConnID)
  | remove (conn : ConnID)
  /-- `writePacket` by any other goroutine: the lookup, then the send. -/
  | routeLookup (writer : ℕ) (clientID : Str) (kind : PacketType)
  | routeSend (writer : ℕ) (placed : Bool)

/-- A send ends in the queue, or is given up when `stopWrites` is closed. -/
def send (st : State) (target : ConnID) (item : Item) (placed : Bool) : Option State :=
  if placed then some (st.enqueue target item)
  else if (st.conns target).stopped then some st
  else none

def resumes (st : State) (κ : ConnID) (isResuming : Bool) : Option SessID :=
  if !(st.conns κ).clean && isResuming then st.sessions (st.client κ) else none

/-- Carry out what a read loop resolved. `writeFinal` may time out. -/
def act (st : State) (κ target : ConnID) (response : Response) (placed : Bool) : Option State :=
  match response with
  | .packet kind => send st target ⟨kind, .readLoop κ⟩ placed
  | .final =>
    if placed then
      some (st.modify target fun c => { c with finals := c.finals ++ [.readLoop κ] })
    else some st
  | .close => some (st.modify target fun c => { c with closedBy := c.closedBy ++ [.readLoop κ] })

def step (st : State) : Label → Option State
  | .lookup κ =>
    match st.phase κ with
    | .connecting =>
      some (st.setPhase κ
        (.looked (!(st.conns κ).clean && (st.sessions (st.client κ)).isSome)))
    | _ => none
  | .restore κ =>
    match st.phase κ with
    | .looked false =>
      if (st.conns κ).clean then none
      else some ((st.install (st.client κ)).setPhase κ (.looked true))
    | _ => none
  | .createSession κ =>
    match st.phase κ with
    | .looked isResuming =>
      match resumes st κ isResuming with
      | some σ => some (st.setPhase κ (.created σ))
      | none => some ((st.install (st.client κ)).setPhase κ (.created st.nextSess))
    | _ => none
  | .register κ =>
    match st.phase κ with
    | .created σ => some (st.register κ σ)
    | _ => none
  | .connAckLookup κ =>
    match st.phase κ with
    | .registered σ => some (st.setPhase κ (.acking σ (st.connections (st.client κ))))
    | _ => none
  | .connAckSend κ placed =>
    match st.phase κ with
    | .acking σ none => some (st.setPhase κ (.reading σ))
    | .acking σ (some target) =>
      (send st target ⟨.connAck, .handshake κ⟩ placed).map (·.setPhase κ (.reading σ))
    | _ => none
  | .respondLookup κ response =>
    match st.phase κ with
    | .reading σ =>
      -- `sendConnAck` is the only caller that queues a CONNACK
      if response = .packet .connAck then none
      else match st.connections (st.client κ) with
        | none => some st
        | some target => some (st.setPhase κ (.responding σ target response))
    | _ => none
  | .respond κ placed =>
    match st.phase κ with
    | .responding σ target response =>
      (act st κ target response placed).map (·.setPhase κ (.reading σ))
    | _ => none
  | .leave κ =>
    match st.phase κ with
    | .reading σ => some (st.setPhase κ (.leaving σ))
    | _ => none
  | .identityCheck κ =>
    match st.phase κ with
    | .leaving σ =>
      if st.connections (st.client κ) = some κ then some (st.setPhase κ (.saving σ))
      else some (st.setPhase κ .finished)
    | _ => none
  | .save κ =>
    match st.phase κ with
    | .saving σ => some (st.setPhase κ (.removing σ))
    | _ => none
  | .remove κ =>
    match st.phase κ with
    | .removing _ =>
      if st.connections (st.client κ) = some κ then some (st.remove κ)
      else some (st.setPhase κ .finished)
    | _ => none
  | .routeLookup w c kind =>
    match st.writers w with
    | none =>
      if kind = .connAck then none
      else some (st.setWriter w ((st.connections c).map (·, kind)))
    | some _ => none
  | .routeSend w placed =>
    match st.writers w with
    | none => none
    | some (target, kind) =>
      -- a QoS 0 PUBLISH is also given up when the queue is full
      let sent := if placed then some (st.enqueue target ⟨kind, .router⟩)
        else if kind = .publish ∨ (st.conns target).stopped then some st
        else none
      sent.map (·.setWriter w none)

/-- A handshake that meets no other step and needs no store. -/
def handshake (κ : ConnID) : List Label :=
  [.lookup κ, .createSession κ, .register κ, .connAckLookup κ, .connAckSend κ true]

/-! ## What the updates change -/

namespace State

variable (st : State) (κ κ' : ConnID) (p : Phase) (c : Str)

theorem conns_modify (f : Conn → Conn) :
    (st.modify κ f).conns κ' = if κ' = κ then f (st.conns κ) else st.conns κ' := by
  unfold modify
  by_cases h : κ' = κ
  · subst h
    simp
  · simp [h]

@[simp] theorem connections_install : (st.install c).connections = st.connections := rfl

@[simp] theorem phase_install : (st.install c).phase κ = st.phase κ := rfl
@[simp] theorem client_install : (st.install c).client κ = st.client κ := rfl

theorem connections_remove :
    (st.remove κ).connections = update st.connections (st.client κ) none := rfl
theorem phase_setPhase : (st.setPhase κ p).phase κ' = if κ' = κ then p else st.phase κ' := by
  unfold setPhase phase
  rw [conns_modify]
  split_ifs <;> rfl

@[simp] theorem client_setPhase : (st.setPhase κ p).client κ' = st.client κ' := by
  unfold setPhase client
  rw [conns_modify]
  split_ifs with h
  · rw [h]
  · rfl

theorem conns_setPhase_logs :
    ((st.setPhase κ p).conns κ').queue = (st.conns κ').queue ∧
      ((st.setPhase κ p).conns κ').finals = (st.conns κ').finals ∧
      ((st.setPhase κ p).conns κ').closedBy = (st.conns κ').closedBy ∧
      ((st.setPhase κ p).conns κ').stopped = (st.conns κ').stopped := by
  unfold setPhase
  rw [conns_modify]
  split_ifs with h
  · rw [h]
    exact ⟨rfl, rfl, rfl, rfl⟩
  · exact ⟨rfl, rfl, rfl, rfl⟩

end State

/-- `st'` differs from `st` in the logs of its connections only. -/
structure LogsOnly (st st' : State) : Prop where
  connections : st'.connections = st.connections
  sessions : st'.sessions = st.sessions
  writers : st'.writers = st.writers
  client : ∀ κ, st'.client κ = st.client κ
  phase : ∀ κ, st'.phase κ = st.phase κ

theorem LogsOnly.refl (st : State) : LogsOnly st st := ⟨rfl, rfl, rfl, fun _ => rfl, fun _ => rfl⟩

theorem logsOnly_modify (st : State) (κ : ConnID) (f : Conn → Conn)
    (hf : ∀ c, (f c).clientID = c.clientID ∧ (f c).phase = c.phase) :
    LogsOnly st (st.modify κ f) := by
  refine ⟨rfl, rfl, rfl, fun κ' => ?_, fun κ' => ?_⟩
  · unfold State.client
    rw [State.conns_modify]
    split_ifs with h
    · rw [h, (hf _).1]
    · rfl
  · unfold State.phase
    rw [State.conns_modify]
    split_ifs with h
    · rw [h, (hf _).2]
    · rfl

theorem logsOnly_displace (st : State) (old : Option ConnID) (κ : ConnID) :
    LogsOnly st (st.displace old κ) := by
  cases old with
  | none => exact LogsOnly.refl st
  | some o =>
    unfold State.displace
    exact logsOnly_modify st o _ (fun _ => ⟨rfl, rfl⟩)

theorem State.phase_register (st : State) (κ κ' : ConnID) (σ : SessID) :
    (st.register κ σ).phase κ' = if κ' = κ then .registered σ else st.phase κ' := by
  refine (State.phase_setPhase _ κ κ' _).trans ?_
  rw [(logsOnly_displace st (st.connections (st.client κ)) κ).phase]

theorem State.client_register (st : State) (κ κ' : ConnID) (σ : SessID) :
    (st.register κ σ).client κ' = st.client κ' :=
  (State.client_setPhase _ κ κ' _).trans
    ((logsOnly_displace st (st.connections (st.client κ)) κ).client κ')

theorem State.sessions_register (st : State) (κ : ConnID) (σ : SessID) :
    (st.register κ σ).sessions = st.sessions :=
  (logsOnly_displace st (st.connections (st.client κ)) κ).sessions

theorem State.conns_remove (st : State) (κ κ' : ConnID) :
    (st.remove κ).conns κ' =
      if κ' = κ then { st.conns κ with phase := .finished, stopped := true } else st.conns κ' := by
  unfold State.remove
  simp only [State.conns_modify]

theorem State.phase_remove (st : State) (κ κ' : ConnID) :
    (st.remove κ).phase κ' = if κ' = κ then .finished else st.phase κ' := by
  unfold State.phase
  rw [State.conns_remove]
  split_ifs <;> rfl

theorem State.client_remove (st : State) (κ κ' : ConnID) :
    (st.remove κ).client κ' = st.client κ' := by
  unfold State.client
  rw [State.conns_remove]
  split_ifs with he
  · rw [he]
  · rfl

theorem logsOnly_enqueue (st : State) (κ : ConnID) (item : Item) :
    LogsOnly st (st.enqueue κ item) :=
  logsOnly_modify st κ _ (fun _ => ⟨rfl, rfl⟩)

variable {st st' : State} {target : ConnID} {placed : Bool}

theorem send_cases {item : Item} (h : send st target item placed = some st') :
    st' = st.enqueue target item ∨ st' = st ∧ (st.conns target).stopped = true := by
  unfold send at h
  split_ifs at h with hp hs
  · exact Or.inl (Option.some.inj h).symm
  · exact Or.inr ⟨(Option.some.inj h).symm, hs⟩

theorem logsOnly_send {item : Item} (h : send st target item placed = some st') :
    LogsOnly st st' := by
  rcases send_cases h with rfl | ⟨rfl, -⟩
  · exact logsOnly_enqueue st target item
  · exact LogsOnly.refl _

theorem logsOnly_act {κ : ConnID} {response : Response}
    (h : act st κ target response placed = some st') : LogsOnly st st' := by
  unfold act at h
  cases response with
  | packet kind => exact logsOnly_send h
  | final =>
    split_ifs at h
    · cases h
      exact logsOnly_modify st target _ (fun _ => ⟨rfl, rfl⟩)
    · cases h
      exact LogsOnly.refl st
  | close =>
    cases h
    exact logsOnly_modify st target _ (fun _ => ⟨rfl, rfl⟩)

/-! ## One step, case by case

Every invariant below is checked against these cases; none unfolds `step`. -/

inductive Stepped (st : State) : Label → State → Prop
  | lookup {κ} (h : st.phase κ = .connecting) :
      Stepped st (.lookup κ) (st.setPhase κ
        (.looked (!(st.conns κ).clean && (st.sessions (st.client κ)).isSome)))
  | restore {κ} (h : st.phase κ = .looked false) :
      Stepped st (.restore κ) ((st.install (st.client κ)).setPhase κ (.looked true))
  | resume {κ r σ} (h : st.phase κ = .looked r) (hr : resumes st κ r = some σ) :
      Stepped st (.createSession κ) (st.setPhase κ (.created σ))
  | create {κ r} (h : st.phase κ = .looked r) (hr : resumes st κ r = none) :
      Stepped st (.createSession κ)
        ((st.install (st.client κ)).setPhase κ (.created st.nextSess))
  | register {κ σ} (h : st.phase κ = .created σ) :
      Stepped st (.register κ) (st.register κ σ)
  | connAckLookup {κ σ} (h : st.phase κ = .registered σ) :
      Stepped st (.connAckLookup κ) (st.setPhase κ (.acking σ (st.connections (st.client κ))))
  | connAckLost {κ σ placed} (h : st.phase κ = .acking σ none) :
      Stepped st (.connAckSend κ placed) (st.setPhase κ (.reading σ))
  | connAckSend {κ σ target placed st₁} (h : st.phase κ = .acking σ (some target))
      (hs : send st target ⟨.connAck, .handshake κ⟩ placed = some st₁) :
      Stepped st (.connAckSend κ placed) (st₁.setPhase κ (.reading σ))
  | respondLost {κ σ response} (h : st.phase κ = .reading σ)
      (hc : st.connections (st.client κ) = none) : Stepped st (.respondLookup κ response) st
  | respondLookup {κ σ target response} (h : st.phase κ = .reading σ)
      (hk : response ≠ .packet .connAck) (hc : st.connections (st.client κ) = some target) :
      Stepped st (.respondLookup κ response) (st.setPhase κ (.responding σ target response))
  | respond {κ σ target response placed st₁} (h : st.phase κ = .responding σ target response)
      (ha : act st κ target response placed = some st₁) :
      Stepped st (.respond κ placed) (st₁.setPhase κ (.reading σ))
  | leave {κ σ} (h : st.phase κ = .reading σ) :
      Stepped st (.leave κ) (st.setPhase κ (.leaving σ))
  | identityOwn {κ σ} (h : st.phase κ = .leaving σ)
      (hc : st.connections (st.client κ) = some κ) :
      Stepped st (.identityCheck κ) (st.setPhase κ (.saving σ))
  | identityLost {κ σ} (h : st.phase κ = .leaving σ)
      (hc : st.connections (st.client κ) ≠ some κ) :
      Stepped st (.identityCheck κ) (st.setPhase κ .finished)
  | save {κ σ} (h : st.phase κ = .saving σ) :
      Stepped st (.save κ) (st.setPhase κ (.removing σ))
  | removeOwn {κ σ} (h : st.phase κ = .removing σ)
      (hc : st.connections (st.client κ) = some κ) :
      Stepped st (.remove κ) (st.remove κ)
  | removeLost {κ σ} (h : st.phase κ = .removing σ)
      (hc : st.connections (st.client κ) ≠ some κ) :
      Stepped st (.remove κ) (st.setPhase κ .finished)
  | routeLookup {w c kind} (h : st.writers w = none) (hk : kind ≠ .connAck) :
      Stepped st (.routeLookup w c kind)
        (st.setWriter w ((st.connections c).map (·, kind)))
  | routePlaced {w target kind} (h : st.writers w = some (target, kind)) :
      Stepped st (.routeSend w true) ((st.enqueue target ⟨kind, .router⟩).setWriter w none)
  | routeDropped {w target kind} (h : st.writers w = some (target, kind)) :
      Stepped st (.routeSend w false) (st.setWriter w none)

theorem stepped_of_step {l : Label} (h : step st l = some st') : Stepped st l st' := by
  revert h
  fun_cases step st l <;> intro h <;> try cases h
  · exact .lookup ‹_›
  · exact .restore ‹_›
  · exact .resume ‹_› ‹_›
  · exact .create ‹_› ‹_›
  · exact .register ‹_›
  · exact .connAckLookup ‹_›
  · exact .connAckLost ‹_›
  · obtain ⟨st₁, hs, rfl⟩ := Option.map_eq_some_iff.mp h
    exact .connAckSend ‹_› hs
  · exact .respondLost ‹_› ‹_›
  · exact .respondLookup ‹_› ‹_› ‹_›
  · obtain ⟨st₁, ha, rfl⟩ := Option.map_eq_some_iff.mp h
    exact .respond ‹_› ha
  · exact .leave ‹_›
  · exact .identityOwn ‹_› ‹_›
  · exact .identityLost ‹_› ‹_›
  · exact .save ‹_›
  · exact .removeOwn ‹_› ‹_›
  · exact .removeLost ‹_› ‹_›
  · exact .routeLookup ‹_› ‹_›
  next placed target kind hw sent =>
    cases placed with
    | true =>
      cases h
      exact .routePlaced hw
    | false =>
      simp only [sent, Bool.false_eq_true, if_false] at h
      split_ifs at h
      · cases h
        exact .routeDropped hw
      · cases h

/-! ## Who is in the connection map

An entry of the connection map is a connection of that ClientID between its
registration and the end of its teardown. This holds along every run. -/

/-- A phase between registration and the end of the teardown. -/
def Phase.inMap : Phase → Bool
  | .registered _ | .acking _ _ | .reading _ | .responding _ _ _ | .leaving _ | .saving _
  | .removing _ => true
  | .connecting | .looked _ | .created _ | .finished => false

def Owners (st : State) : Prop :=
  ∀ c κ, st.connections c = some κ → st.client κ = c ∧ (st.phase κ).inMap = true

section

variable (h : Owners st)

include h

theorem Owners.logs (hl : LogsOnly st st') : Owners st' := by
  intro c κ hc
  rw [hl.connections] at hc
  rw [hl.client, hl.phase]
  exact h c κ hc

/-- Moving a connection that is in the map to another map phase, or one that is
not to any phase. -/
theorem Owners.move {κ : ConnID} {p : Phase}
    (hmap : st.connections (st.client κ) = some κ → p.inMap = true) : Owners (st.setPhase κ p) := by
  intro c κ' hc
  obtain ⟨hclient, hin⟩ := h c κ' hc
  rw [State.client_setPhase, State.phase_setPhase]
  refine ⟨hclient, ?_⟩
  split_ifs with heq
  · subst heq
    exact hmap (by rw [hclient]; exact hc)
  · exact hin

theorem Owners.not_mapped {κ : ConnID} (hp : (st.phase κ).inMap = false) :
    st.connections (st.client κ) ≠ some κ := by
  intro hc
  rw [(h _ κ hc).2] at hp
  cases hp

/-- What the map holds after `connections[clientID] = cs`. -/
theorem Owners.registered {κ κ' : ConnID} {c : Str}
    (hc : update st.connections (st.client κ) (some κ) c = some κ') :
    (c = st.client κ ∧ κ' = κ) ∨ (c ≠ st.client κ ∧ st.connections c = some κ' ∧ κ' ≠ κ) := by
  by_cases he : c = st.client κ
  · subst he
    rw [update_self, Option.some.injEq] at hc
    exact Or.inl ⟨rfl, hc.symm⟩
  · rw [update_of_ne he] at hc
    refine Or.inr ⟨he, hc, ?_⟩
    rintro rfl
    exact he (h c κ' hc).1.symm

/-- What the map holds after `delete(connections, clientID)`. -/
theorem Owners.removed {κ κ' : ConnID} {c : Str}
    (hc : update st.connections (st.client κ) none c = some κ') :
    c ≠ st.client κ ∧ st.connections c = some κ' ∧ κ' ≠ κ := by
  have hne : c ≠ st.client κ := by
    rintro rfl
    rw [update_self] at hc
    cases hc
  rw [update_of_ne hne] at hc
  refine ⟨hne, hc, ?_⟩
  rintro rfl
  exact hne (h c κ' hc).1.symm

theorem Owners.install (c : Str) : Owners (st.install c) := h

theorem Owners.setWriter (w : ℕ) (pending : Option (ConnID × PacketType)) :
    Owners (st.setWriter w pending) := h

theorem Owners.step {l : Label} (hs : step st l = some st') : Owners st' := by
  cases stepped_of_step hs with
  | lookup hp | resume hp => exact h.move (fun hc => absurd hc (h.not_mapped (by rw [hp]; rfl)))
  | restore hp | create hp =>
    exact (h.install _).move (fun hc => absurd hc (h.not_mapped (by rw [hp]; rfl)))
  | register hp =>
    intro c κ' hc
    rw [State.client_register, State.phase_register]
    rcases h.registered hc with ⟨rfl, rfl⟩ | ⟨-, hc', hne⟩
    · exact ⟨rfl, by simp [Phase.inMap]⟩
    · rw [if_neg hne]
      exact h c κ' hc'
  | connAckLookup | connAckLost | respondLookup | leave | identityOwn | save =>
    exact h.move (fun _ => rfl)
  | connAckSend hp hsend => exact (h.logs (logsOnly_send hsend)).move (fun _ => rfl)
  | respond hp ha => exact (h.logs (logsOnly_act ha)).move (fun _ => rfl)
  | identityLost hp hc | removeLost hp hc => exact h.move (fun hc' => absurd hc' hc)
  | removeOwn hp hc =>
    intro c κ' hc'
    obtain ⟨-, hold, hne⟩ := h.removed hc'
    rw [State.client_remove, State.phase_remove, if_neg hne]
    exact h c κ' hold
  | respondLost | routeLookup | routeDropped => exact h
  | routePlaced hw => exact (h.logs (logsOnly_enqueue st _ _)).setWriter _ _

end

end SharkMqtt.Broker.Connections
