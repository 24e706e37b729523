import SharkMqtt.Broker.ResumedWrites
import SharkMqtt.Lib.PastTime
import SharkMqtt.Protocol.Representable

/-!
# What a connection negotiates

`CreateSession` (`broker/session.go`), the negotiation of `HandleConnection`
(`broker/conn_lifecycle.go`) and the properties of the CONNACK (`broker/connack.go`), for
one ClientID: its session in the manager and its record in the store.

The answers to a CONNECT are fields of the session, and a session in memory is resumed with
what they hold. Three of them are only ever set: the request for response information, the
Server Keep Alive and the assigned ClientID. So they say what has happened since the session
began (`views_of_run`), not what this CONNECT asked for, and the CONNACK tells it
(`same_connAck_iff`). The Server Keep Alive is moreover set for clients whose CONNACK cannot
carry it (`keepAlive_announced_iff`).
-/

namespace SharkMqtt.Broker.Negotiation

open Protocol Lib

/-! ## Sessions and CONNECTs -/

/-- The options that the negotiation and the CONNACK read. -/
structure Options extends Broker.Options where
  keepAlive : UInt16 := 0
  maxPacketSize : UInt32
  /-- There is a retained store. -/
  retainedStore : Bool := true

/-- A session with the fields that a CONNECT negotiates. -/
structure ConnSession extends Session where
  keepAlive : UInt16 := 0
  serverKeepAlive : Option UInt16 := none
  requestResponseInfo : Bool := false
  assignedClientID : Str := []
  receiveMax : UInt16 := 65535
  topicAliasMax : UInt16 := 0
  clientTopicAliasMax : UInt16 := 0

structure Client where
  session : Option ConnSession := none
  stored : Option SessionData := none

/-- `Restore`; the keep-alive of the record is overwritten before it is read. -/
def restored (data : SessionData) : ConnSession := { toSession := restore data }

def newSession (pkt : ConnectPacket) : ConnSession where
  clientID := pkt.clientID
  protocolVer := pkt.protocolVersion
  keepAlive := pkt.keepAlive

def createSession (existing : Option ConnSession) (pkt : ConnectPacket) (isResuming : Bool) :
    ConnSession :=
  match existing with
  | some s =>
    if pkt.flags.cleanSession = false ∧ isResuming = true then
      { s with keepAlive := pkt.keepAlive, protocolVer := pkt.protocolVersion }
    else newSession pkt
  | none => newSession pkt

def Requested (pkt : ConnectPacket) : Prop := pkt.properties.bind (·.requestResponseInfo) = some 1

instance (pkt : ConnectPacket) : Decidable (Requested pkt) :=
  inferInstanceAs (Decidable (pkt.properties.bind (·.requestResponseInfo) = some 1))

def Capped (opts : Options) (pkt : ConnectPacket) : Prop :=
  opts.keepAlive > 0 ∧ opts.keepAlive < pkt.keepAlive

instance (opts : Options) (pkt : ConnectPacket) : Decidable (Capped opts pkt) :=
  inferInstanceAs (Decidable (opts.keepAlive > 0 ∧ opts.keepAlive < pkt.keepAlive))

/-- The assignments of `HandleConnection` to the session it was given. -/
def negotiate (opts : Options) (s : ConnSession) (pkt : ConnectPacket) (assignedClientID : Str) :
    ConnSession :=
  { s with
    requestResponseInfo := if Requested pkt then true else s.requestResponseInfo
    assignedClientID := if assignedClientID ≠ [] then assignedClientID else s.assignedClientID
    expiryInterval := negotiatedExpiry opts.toOptions pkt
    receiveMax := serverReceiveMax opts.toOptions
    outboundWindow := negotiatedWindow opts.toOptions pkt
    topicAliasMax := if (specFor s.protocolVer).topicAlias then 64 else 0
    clientTopicAliasMax := (pkt.properties.bind (·.topicAliasMaximum)).getD s.clientTopicAliasMax
    serverKeepAlive := if Capped opts pkt then some opts.keepAlive else s.serverKeepAlive
    keepAlive := if Capped opts pkt then opts.keepAlive else s.keepAlive }

/-- The CONNECT with the generated ClientID, if it has none. -/
def identified (pkt : ConnectPacket) (generated : Str) : ConnectPacket :=
  if pkt.clientID = [] then { pkt with clientID := generated } else pkt

def managed (c : Client) (pkt : ConnectPacket) : Option ConnSession :=
  match c.session with
  | some s => some s
  | none => if pkt.flags.cleanSession then none else c.stored.map restored

def isResuming (c : Client) (pkt : ConnectPacket) : Bool :=
  !pkt.flags.cleanSession && (managed c pkt).isSome

/-- `HandleConnection`, from the assigned ClientID to the keep-alive: the session. -/
def handleConnection (opts : Options) (c : Client) (pkt : ConnectPacket) (generated : Str) :
    ConnSession :=
  let assignedClientID := if pkt.clientID = [] then generated else []
  let pkt := identified pkt generated
  negotiate opts (createSession (managed c pkt) pkt (isResuming c pkt)) pkt assignedClientID

/-! ## CONNACK and keep-alive -/

def connAckInfo (opts : Options) (s : ConnSession) : ResumedWrites.ConnAckInfo where
  receiveMax := s.receiveMax
  retainAvailable := opts.retainedStore
  maxPacketSize := opts.maxPacketSize
  responseInfo := if s.requestResponseInfo then s.clientID else []
  topicAliasMax := s.topicAliasMax
  serverKeepAlive := s.serverKeepAlive
  assignedClientID := s.assignedClientID

def connAck (opts : Options) (c : Client) (pkt : ConnectPacket) (generated : Str) : Packet :=
  let s := handleConnection opts c pkt generated
  ResumedWrites.connAckPacket s.toSession (connAckInfo opts s) 0 (isResuming c pkt)

/-- The Server Keep Alive that a client of the version, which takes packets of any size, reads
in what it is sent. -/
def serverKeepAliveIn (version : UInt8) (b : Bytes) : Option UInt16 :=
  match ((Codec.newForVersion (maxRemainingLength + 6) version).decode b).1 with
  | .ok (.connAck p) => p.properties.bind (·.serverKeepAlive)
  | _ => none

/-- `setKeepAliveDeadline`: how long the client may be silent, in nanoseconds. -/
def keepAliveTimeout (keepAlive : UInt16) : Option ℕ :=
  if keepAlive = 0 then none else some (keepAlive.toNat * second * 3 / 2)

/-- The silence that is enforced is the one the client sent or the one it was told, and
nothing else was told. -/
def Announced (pkt : ConnectPacket) (s : ConnSession) (told : Option UInt16) : Prop :=
  (keepAliveTimeout s.keepAlive = keepAliveTimeout pkt.keepAlive ∨
    told.map keepAliveTimeout = some (keepAliveTimeout s.keepAlive)) ∧
  ∀ ka ∈ told, keepAliveTimeout ka = keepAliveTimeout s.keepAlive

instance (pkt : ConnectPacket) (s : ConnSession) (told : Option UInt16) :
    Decidable (Announced pkt s told) :=
  inferInstanceAs (Decidable ((_ ∨ _) ∧ ∀ ka ∈ told, _))

/-! ## Runs -/

inductive Event where
  | connect (pkt : ConnectPacket) (generated : Str)
  /-- The traffic of the connection, which leaves what was negotiated alone. -/
  | work (t : Session)
  | disconnect (now : ℕ)

/-- A CONNECT that `ValidateConnect` rejects gets no session. -/
def step (opts : Options) (id : Str) (c : Client) : Event → Option Client
  | .connect pkt generated =>
    if validateConnect pkt = none ∧ (identified pkt generated).clientID = id then
      some
        { session := some (handleConnection opts c pkt generated)
          stored := if pkt.flags.cleanSession then none else c.stored }
    else none
  | .work t =>
    match c.session with
    | some s =>
      if t.clientID = id then some { c with session := some { s with toSession := t } }
      else none
    | none => none
  | .disconnect now =>
    match c.session with
    | some s =>
      some
        { session := none
          stored := if s.expiryInterval > 0 then some (s.save now) else none }
    | none => none

section Identified

variable (pkt : ConnectPacket) (generated : Str)

@[simp] theorem identified_flags : (identified pkt generated).flags = pkt.flags := by
  unfold identified
  split <;> rfl

@[simp] theorem identified_keepAlive : (identified pkt generated).keepAlive = pkt.keepAlive := by
  unfold identified
  split <;> rfl

@[simp] theorem identified_properties : (identified pkt generated).properties = pkt.properties := by
  unfold identified
  split <;> rfl

@[simp] theorem identified_protocolVersion :
    (identified pkt generated).protocolVersion = pkt.protocolVersion := by
  unfold identified
  split <;> rfl

end Identified

/-- The machine of `Delivery`, which does not have the negotiated fields. -/
def Client.base (c : Client) : Broker.Client where
  session := c.session.map ConnSession.toSession
  stored := c.stored

variable {opts : Options} {id : Str} {c : Client} {pkt : ConnectPacket} {c' : Client}
  {generated : Str}

theorem base_connect (h : step opts id c (.connect pkt generated) = some c') :
    c'.base = Broker.connect opts.toOptions c.base (identified pkt generated) := by
  simp only [step] at h
  split at h
  · rw [← Option.some.inj h]
    simp only [Client.base, handleConnection, negotiate, createSession, managed, isResuming,
      Broker.connect, resumed, identified_flags]
    cases pkt.flags.cleanSession <;> cases c.session <;> cases c.stored <;> rfl
  · cases h

theorem base_disconnect {now : ℕ} (h : step opts id c (.disconnect now) = some c') :
    c'.base = Broker.disconnect c.base now := by
  obtain ⟨session, stored⟩ := c
  cases session with
  | none => cases h
  | some s =>
    rw [← Option.some.inj h]
    rfl

/-! ## What sessions remember -/

/-- The fields that are set and not reset. -/
@[ext] structure View where
  requestResponseInfo : Bool := false
  serverKeepAlive : Option UInt16 := none
  assignedClientID : Str := []
deriving DecidableEq

def ConnSession.view (s : ConnSession) : View where
  requestResponseInfo := s.requestResponseInfo
  serverKeepAlive := s.serverKeepAlive
  assignedClientID := s.assignedClientID

def Client.view (c : Client) : View := (c.session.map ConnSession.view).getD {}

def View.after (opts : Options) (v : View) (pkt : ConnectPacket) (generated : Str) : View where
  requestResponseInfo := if Requested pkt then true else v.requestResponseInfo
  serverKeepAlive := if Capped opts pkt then some opts.keepAlive else v.serverKeepAlive
  assignedClientID := if pkt.clientID = [] ∧ generated ≠ [] then generated else v.assignedClientID

theorem view_handleConnection (opts : Options) (c : Client) (pkt : ConnectPacket)
    (generated : Str) :
    (handleConnection opts c pkt generated).view =
      (if pkt.flags.cleanSession then {} else c.view).after opts pkt generated := by
  have hassigned : ∀ old : Str,
      (if (if pkt.clientID = [] then generated else []) ≠ [] then
          (if pkt.clientID = [] then generated else []) else old) =
        if pkt.clientID = [] ∧ generated ≠ [] then generated else old := by
    by_cases hid : pkt.clientID = []
    · simp [hid]
    · simp [hid]
  simp only [handleConnection, negotiate, ConnSession.view, View.after, Requested, Capped,
    identified_keepAlive, identified_properties, hassigned, createSession, managed, isResuming,
    identified_flags, Client.view]
  cases pkt.flags.cleanSession <;> cases c.session <;> cases c.stored <;> rfl

namespace Event

/-- No session in memory outlives the event. -/
def Ends : Event → Prop
  | .connect pkt _ => pkt.flags.cleanSession = true
  | .work _ => False
  | .disconnect _ => True

def Requests : Event → Prop
  | .connect pkt _ => Requested pkt
  | _ => False

def Caps (opts : Options) : Event → Prop
  | .connect pkt _ => Capped opts pkt
  | _ => False

def Assigns : Event → Prop
  | .connect pkt _ => pkt.clientID = []
  | _ => False

instance : DecidablePred Ends := by rintro ⟨⟩ <;> dsimp only [Ends] <;> infer_instance

instance : DecidablePred Requests := by rintro ⟨⟩ <;> dsimp only [Requests] <;> infer_instance

instance (opts : Options) : DecidablePred (Caps opts) := by
  rintro ⟨⟩ <;> dsimp only [Caps] <;> infer_instance

instance : DecidablePred Assigns := by rintro ⟨⟩ <;> dsimp only [Assigns] <;> infer_instance

end Event

open Event

def history (opts : Options) (id : Str) (ls : List Event) : View where
  requestResponseInfo := decide (Since Requests Ends ls)
  serverKeepAlive := if Since (Caps opts) Ends ls then some opts.keepAlive else none
  assignedClientID := if Since Assigns Ends ls then id else []

section History

variable (opts : Options) (id : Str) (ls : List Event)

theorem history_disconnect (now : ℕ) : history opts id (ls ++ [.disconnect now]) = {} := by
  simp [history, since_concat, Requests, Caps, Assigns, Ends]

theorem history_work (t : Session) : history opts id (ls ++ [.work t]) = history opts id ls := by
  simp [history, since_concat, Requests, Caps, Assigns, Ends]

theorem history_connect {pkt : ConnectPacket} {generated : Str}
    (hid : (identified pkt generated).clientID = id) :
    history opts id (ls ++ [.connect pkt generated]) =
      (if pkt.flags.cleanSession then {} else history opts id ls).after opts pkt generated := by
  have hassigned : pkt.clientID = [] → generated = id := by
    intro hnil
    rw [← hid, identified, if_pos hnil]
  ext1
  · by_cases hreq : Requested pkt <;> cases hclean : pkt.flags.cleanSession <;>
      simp [history, View.after, since_concat, Requests, Ends, hreq, hclean]
  · by_cases hcap : Capped opts pkt <;> cases hclean : pkt.flags.cleanSession <;>
      simp [history, View.after, since_concat, Caps, Ends, hcap, hclean]
  · by_cases hnil : pkt.clientID = []
    · obtain rfl := hassigned hnil
      by_cases hgen : generated = [] <;> cases hclean : pkt.flags.cleanSession <;>
        simp [history, View.after, since_concat, Assigns, Ends, hnil, hgen, hclean]
    · cases hclean : pkt.flags.cleanSession <;>
        simp [history, View.after, since_concat, Assigns, Ends, hnil, hclean]

end History

/-- **What a session holds is what has happened since it began.** -/
theorem views_of_run (opts : Options) (id : Str) :
    ∀ {ls : List Event} {c : Client}, exec (step opts id) {} ls = some c →
      c.view = history opts id ls := by
  intro ls
  induction ls using List.reverseRecOn with
  | nil =>
    intro c h
    rw [← Option.some.inj h]
    rfl
  | append_singleton ls e ih =>
    intro c' h
    simp only [exec_append_eq_some, exec_cons_eq_some] at h
    obtain ⟨c, hc, c₁, hstep, hnil⟩ := h
    obtain rfl : c₁ = c' := Option.some.inj hnil
    have hview := ih hc
    revert hstep
    fun_cases step opts id c e <;> rintro ⟨⟩
    next pkt generated hid =>
      rw [history_connect opts id ls hid.2, ← hview]
      exact view_handleConnection opts c pkt generated
    next hs ht =>
      rw [history_work, ← hview, Client.view, Client.view, hs]
      rfl
    next hs =>
      rw [history_disconnect, Client.view]
      rfl

/-! ## What a client reads -/

open ResumedWrites (buildConnAckProperties connAckPacket ConnAckInfo)

theorem connAckProperties_fits (s : Session) (info : ConnAckInfo) :
    (buildConnAckProperties s info).Fits .connAck := by
  refine ⟨?_, Nat.zero_le _, fun _ => Nat.zero_le _⟩
  rintro ⟨id, v⟩ hi
  have hv := Properties.mem_items.mp hi
  cases id with
  | subscriptionIdentifier | correlationData | authData => cases hv
  | _ => trivial

theorem connAckProperties_get_length (s : Session) (info : ConnAckInfo)
    (id : PropID) : ((buildConnAckProperties s info).get id).length ≤ 1 := by
  by_cases hslice : id.isSlice = true
  · cases id with
    | subscriptionIdentifier | userProperty => exact Nat.zero_le 1
    | _ => cases hslice
  · exact Properties.length_get_le_one _ (eq_false_of_ne_true hslice)

theorem connAckProperties_size {s : Session} {info : ConnAckInfo}
    (h : SectionAccepted .connAck (some (buildConnAckProperties s info))) :
    (buildConnAckProperties s info).sectionSize ≤ 2000000 := by
  have hdata : (buildConnAckProperties s info).dataSize ≤ 27 * 1 * (1 + (2 + 65535)) := by
    refine Properties.dataSize_le (connAckProperties_get_length s info) ?_
    intro i hi
    refine valueSize_le ?_ (h _ rfl i hi).writable ((connAckProperties_fits s info).values i hi)
    have hv := Properties.mem_items.mp hi
    obtain ⟨id, v⟩ := i
    rintro hpair
    cases id with
    | userProperty => cases hv
    | _ => cases hpair
  have hlog : Nat.log 128 ((buildConnAckProperties s info).dataSize % 2 ^ 32) < 5 :=
    Nat.log_lt_of_lt_pow' (by decide) ((Nat.mod_lt _ (by decide)).trans (by decide))
  show Nat.log 128 _ + 1 + _ ≤ _
  omega

section Wire

variable {s : Session} {info : ConnAckInfo} {reason : UInt8} {sessionPresent : Bool}

theorem connAckPacket_fits : (connAckPacket s info reason sessionPresent).Fits s.protocolVer := by
  intro p hp
  split at hp
  · cases hp
    exact connAckProperties_fits s info
  · cases hp

theorem connAckPacket_size
    (henc : (connAckPacket s info reason sessionPresent).Encodable s.protocolVer) :
    (connAckPacket s info reason sessionPresent).size s.protocolVer ≤ 2000002 := by
  have hsection : SectionOk s.protocolVer .connAck
      (if (specFor s.protocolVer).properties then some (buildConnAckProperties s info) else none) :=
    henc
  show 1 + (1 + sectionSize s.protocolVer
    (if (specFor s.protocolVer).properties then some (buildConnAckProperties s info) else none)) ≤ _
  unfold SectionOk at hsection
  unfold sectionSize
  split_ifs at hsection ⊢
  · have hsize := connAckProperties_size hsection
    show 1 + (1 + (buildConnAckProperties s info).sectionSize) ≤ _
    omega
  · decide

theorem serverKeepAliveIn_frame {version : UInt8} {p : ConnAckPacket}
    (htype : p.fixedHeader.packetType = .connAck)
    (hflags : validateFixedHeaderFlags p.fixedHeader = none)
    (henc : (Packet.connAck p).Encodable version) (hfits : (Packet.connAck p).Fits version)
    (hsize : (p.layout version).length ≤ 2000002) :
    serverKeepAliveIn version (frame p.fixedHeader (p.layout version)) =
      p.properties.bind Properties.serverKeepAlive := by
  have hremaining : maxRemainingLength = 268435455 := rfl
  have hmax : (p.layout version).length ≤ maxRemainingLength := by omega
  have hlimit : (frame p.fixedHeader (p.layout version)).length ≤
      (Codec.newForVersion (maxRemainingLength + 6) version).maxPacketSize := by
    have hbase := length_base128_le (k := 4) (by decide) (Nat.lt_of_le_of_lt hsize (by decide))
    rw [frame, List.length_append]
    show (base128 (p.layout version).length).length + 1 + _ ≤ maxRemainingLength + 6
    omega
  obtain ⟨q, hq, hcanon, -⟩ := Codec.decode_frame (p := .connAck p)
    (c := Codec.newForVersion (maxRemainingLength + 6) version) htype hflags henc hfits hmax hlimit
  have hdec : ((Codec.newForVersion (maxRemainingLength + 6) version).decode
      (frame p.fixedHeader (p.layout version))).1 = .ok q := by
    have hnil := hq []
    rw [List.append_nil] at hnil
    exact congrArg Prod.fst hnil
  unfold serverKeepAliveIn
  rw [hdec]
  cases q with
  | connAck q =>
    have hprops : canonSection q.properties = canonSection p.properties :=
      congrArg ConnAckPacket.properties (Packet.connAck.inj hcanon)
    have hsame := bind_canonSection (f := Properties.serverKeepAlive) (fun _ => rfl) rfl
    calc q.properties.bind Properties.serverKeepAlive
        = (canonSection q.properties).bind Properties.serverKeepAlive := (hsame _).symm
      _ = p.properties.bind Properties.serverKeepAlive := by rw [hprops, hsame]
  | _ => cases hcanon

/-- What a client is told: the Server Keep Alive of the session, if its version has one. -/
theorem serverKeepAliveIn_encoded {codec : Codec} {b : Bytes}
    (hversion : codec.protocolVersion = s.protocolVer)
    (h : (codec.encode (connAckPacket s info reason sessionPresent)).1 = .ok b) :
    serverKeepAliveIn s.protocolVer b =
      if (specFor s.protocolVer).properties = true then info.serverKeepAlive else none := by
  obtain ⟨hflags, henc, rfl⟩ := Codec.encode_ok h
  have hv : codec.versionFor (connAckPacket s info reason sessionPresent) = s.protocolVer :=
    hversion
  rw [hv] at henc ⊢
  have hsize := connAckPacket_size henc
  rw [← Packet.length_layout] at hsize
  refine (serverKeepAliveIn_frame rfl hflags henc connAckPacket_fits hsize).trans ?_
  split <;> rfl

end Wire

/-! ## The keep-alive that is enforced -/

theorem keepAliveTimeout_inj {a b : UInt16} : keepAliveTimeout a = keepAliveTimeout b ↔ a = b := by
  refine ⟨?_, congrArg keepAliveTimeout⟩
  unfold keepAliveTimeout second
  split_ifs with ha hb hb
  · simp [ha, hb]
  · simp
  · simp
  · rw [Option.some.injEq, ← UInt16.toNat_inj]
    omega

theorem announced_iff {s : ConnSession} {told : Option UInt16} :
    Announced pkt s told ↔
      (s.keepAlive = pkt.keepAlive ∨ told = some s.keepAlive) ∧
        ∀ ka, told = some ka → ka = s.keepAlive := by
  unfold Announced
  cases told with
  | none | some => simp [keepAliveTimeout_inj]

section Session

variable (opts : Options) (c : Client) (pkt : ConnectPacket) (generated : Str)

theorem handleConnection_keepAlive : (handleConnection opts c pkt generated).keepAlive =
    if Capped opts pkt then opts.keepAlive else pkt.keepAlive := by
  simp only [handleConnection, negotiate, Capped, identified_keepAlive, createSession, managed,
    isResuming, identified_flags]
  cases pkt.flags.cleanSession <;> cases c.session <;> cases c.stored <;>
    simp [newSession, restored]

theorem handleConnection_protocolVer :
    (handleConnection opts c pkt generated).protocolVer = pkt.protocolVersion := by
  simp only [handleConnection, negotiate, createSession, managed, isResuming, identified_flags]
  cases pkt.flags.cleanSession <;> cases c.session <;> cases c.stored <;>
    simp [newSession, restored]

end Session

/-- **When the keep-alive that is enforced is the one the client knows of.** A keep-alive that
the server has shortened has to reach the client, in a CONNACK of MQTT 5.0. If this CONNECT was
not shortened, no earlier one of the session may have been, unless to the same value: the
CONNACK would repeat it. The connection goes on only where the CONNACK is written. -/
theorem keepAlive_announced_iff (opts : Options) {id : Str} {ls : List Event} {c : Client}
    (hrun : exec (step opts id) {} ls = some c) {pkt : ConnectPacket} {generated : Str}
    (codec : Codec) (hversion : codec.protocolVersion = pkt.protocolVersion) {b : Bytes}
    (hwritten : (codec.encode (connAck opts c pkt generated)).1 = .ok b) :
    Announced pkt (handleConnection opts c pkt generated)
        (serverKeepAliveIn pkt.protocolVersion b) ↔
      if Capped opts pkt then (specFor pkt.protocolVersion).properties = true
      else
        (specFor pkt.protocolVersion).properties = true → pkt.flags.cleanSession = false →
          Since (Caps opts) Ends ls → pkt.keepAlive = opts.keepAlive := by
  have hska : (handleConnection opts c pkt generated).serverKeepAlive =
      if Capped opts pkt then some opts.keepAlive
      else if pkt.flags.cleanSession = false ∧ Since (Caps opts) Ends ls then some opts.keepAlive
      else none := by
    have hview := congrArg View.serverKeepAlive (view_handleConnection opts c pkt generated)
    rw [views_of_run opts id hrun] at hview
    refine hview.trans ?_
    cases pkt.flags.cleanSession <;> simp [View.after, history]
  have hver := handleConnection_protocolVer opts c pkt generated
  have htold := serverKeepAliveIn_encoded (hversion.trans hver.symm) hwritten
  simp only [hver, connAckInfo, hska] at htold
  rw [announced_iff, htold, handleConnection_keepAlive]
  by_cases hcap : Capped opts pkt
  · -- the client's own value is not enforced, so it must have been told
    have hne : opts.keepAlive ≠ pkt.keepAlive := UInt16.ne_of_lt hcap.2
    cases (specFor pkt.protocolVersion).properties <;> simp [hcap, hne]
  · rw [if_neg hcap, if_neg hcap]
    -- the client's own value is enforced, so it must not have been told another
    cases (specFor pkt.protocolVersion).properties with
    | false => simp [hcap]
    | true =>
      simp only [if_true, if_neg hcap, true_or, true_and, true_imp_iff]
      constructor
      · intro h hclean hsince
        exact (h opts.keepAlive (if_pos ⟨hclean, hsince⟩)).symm
      · intro h ka hka
        split_ifs at hka with hs
        · cases hka
          exact (h hs.1 hs.2).symm

def minuteOptions : Options where
  maxInflight := 100
  sessionExpiry := 3600
  keepAlive := 60
  maxPacketSize := 262144

def connectOf (version : UInt8) (clientID : Str) (keepAlive : UInt16) (props : Properties := {}) :
    ConnectPacket where
  fixedHeader := { packetType := .connect }
  protocolName := protocolNameMQTT
  protocolVersion := version
  flags := {}
  keepAlive := keepAlive
  clientID := clientID
  properties := if version = version50 then some props else none

/-- A client of MQTT 5.0 has connected with a keep-alive of two minutes. -/
def cappedRun : List Event := [.connect (connectOf version50 (ascii "c") 120) []]

/-- The CONNACK that client gets when it comes back: Server Keep Alive 60, at offset 10. -/
def connAckAgain : Bytes :=
  [0x20, 30, 0x01, 0x00, 27, 0x11, 0, 0, 14, 16, 0x13, 0, 60, 0x21, 0, 100, 0x22, 0, 64, 0x25, 1,
    0x27, 0, 4, 0, 0, 0x28, 1, 0x29, 1, 0x2a, 1]

theorem keepAlive_announced_again :
    ∃ c, exec (step minuteOptions (ascii "c")) {} cappedRun = some c ∧
      ((Codec.newForVersion 0 version50).encode
        (connAck minuteOptions c (connectOf version50 (ascii "c") 90) [])).1 = .ok connAckAgain ∧
      Announced (connectOf version50 (ascii "c") 90)
        (handleConnection minuteOptions c (connectOf version50 (ascii "c") 90) [])
        (serverKeepAliveIn version50 connAckAgain) := by
  have hrun : exec (step minuteOptions (ascii "c")) {} cappedRun =
      some ((exec (step minuteOptions (ascii "c")) {} cappedRun).get (by decide +kernel)) :=
    (Option.some_get _).symm
  refine ⟨_, hrun, ?_, (keepAlive_announced_iff minuteOptions hrun
    (.newForVersion 0 version50) rfl ?_).mpr ?_⟩
  all_goals decide +kernel

/-- A minute is enforced on a client of MQTT 3.1.1 that has sent two. One of MQTT 5.0 that comes
back with half a minute is told a minute, because it was before. -/
theorem keepAlive_not_announced :
    ((handleConnection minuteOptions {} (connectOf version311 (ascii "c") 120) []).keepAlive = 60 ∧
      ((Codec.newForVersion 0 version311).encode
        (connAck minuteOptions {} (connectOf version311 (ascii "c") 120) [])).1 =
          .ok [0x20, 0x02, 0x00, 0x00] ∧
      ¬ Announced (connectOf version311 (ascii "c") 120)
        (handleConnection minuteOptions {} (connectOf version311 (ascii "c") 120) [])
        (serverKeepAliveIn version311 [0x20, 0x02, 0x00, 0x00])) ∧
    ∃ c, exec (step minuteOptions (ascii "c")) {} cappedRun = some c ∧
      (handleConnection minuteOptions c (connectOf version50 (ascii "c") 30) []).keepAlive = 30 ∧
      ((Codec.newForVersion 0 version50).encode
        (connAck minuteOptions c (connectOf version50 (ascii "c") 30) [])).1 = .ok connAckAgain ∧
      ¬ Announced (connectOf version50 (ascii "c") 30)
        (handleConnection minuteOptions c (connectOf version50 (ascii "c") 30) [])
        (serverKeepAliveIn version50 connAckAgain) := by
  refine ⟨by decide +kernel, _, (Option.some_get ?_).symm, ?_⟩
  · decide +kernel
  · decide +kernel

/-! ## Two brokers -/

structure Owned (id : Str) (c : Client) : Prop where
  session : ∀ s ∈ c.session, s.clientID = id
  stored : ∀ data ∈ c.stored, data.clientID = id

theorem Owned.handleConnection (h : Owned id c) (opts : Options)
    (hid : (identified pkt generated).clientID = id) :
    (handleConnection opts c pkt generated).clientID = id := by
  obtain ⟨session, stored⟩ := c
  simp only [Negotiation.handleConnection, negotiate, createSession, managed, isResuming,
    identified_flags]
  cases pkt.flags.cleanSession with
  | true => cases session <;> exact hid
  | false =>
    cases session with
    | some s => exact h.session s rfl
    | none =>
      cases stored with
      | some data => exact h.stored data rfl
      | none => exact hid

theorem step_owned {e : Event} (h : Owned id c) (hstep : step opts id c e = some c') :
    Owned id c' := by
  revert hstep
  fun_cases step opts id c e <;> rintro ⟨⟩
  next pkt generated hid =>
    refine ⟨?_, ?_⟩
    · rintro _ ⟨⟩
      exact h.handleConnection opts hid.2
    · intro data hdata
      split at hdata
      · cases hdata
      · exact h.stored data hdata
  next ht =>
    refine ⟨?_, h.stored⟩
    rintro _ ⟨⟩
    exact ht
  next s hs =>
    refine ⟨by rintro _ ⟨⟩, ?_⟩
    intro data hdata
    split at hdata
    · cases hdata
      exact h.session s hs
    · cases hdata

theorem owned_of_run {ls : List Event} (hrun : exec (step opts id) {} ls = some c) : Owned id c :=
  exec_preserves (Owned id) (fun _ _ _ h hstep => step_owned h hstep)
    ⟨by rintro _ ⟨⟩, by rintro _ ⟨⟩⟩ hrun

/-- Between sessions of one CONNECT, three properties make the difference. -/
theorem connAckPacket_eq_iff (opts : Options) (s₁ s₂ : ConnSession) (sessionPresent : Bool)
    (hver : s₁.protocolVer = version50) (hver' : s₂.protocolVer = version50)
    (hexpiry : s₁.expiryInterval = s₂.expiryInterval) (hreceive : s₁.receiveMax = s₂.receiveMax)
    (halias : s₁.topicAliasMax = s₂.topicAliasMax) :
    connAckPacket s₁.toSession (connAckInfo opts s₁) 0 sessionPresent =
        connAckPacket s₂.toSession (connAckInfo opts s₂) 0 sessionPresent ↔
      (connAckInfo opts s₁).responseInfo = (connAckInfo opts s₂).responseInfo ∧
        s₁.serverKeepAlive = s₂.serverKeepAlive ∧ s₁.assignedClientID = s₂.assignedClientID := by
  have hspec : (specFor version50).properties = true := rfl
  simp only [connAckPacket, hver, hver', hspec, if_true, Packet.connAck.injEq,
    ConnAckPacket.mk.injEq, Option.some.injEq, true_and, buildConnAckProperties,
    Properties.mk.injEq, hexpiry, hreceive, halias, connAckInfo, and_true]
  constructor
  · rintro ⟨hassigned, hska, hresponse, -, -, -⟩
    exact ⟨hresponse, hska, hassigned⟩
  · rintro ⟨hresponse, hska, hassigned⟩
    exact ⟨hassigned, hska, hresponse, rfl, rfl, rfl⟩

section Same

variable {opts : Options} {id : Str} {c₁ c₂ : Client} {pkt : ConnectPacket} {g : Str}

theorem handleConnection_topicAliasMax : (handleConnection opts c₁ pkt g).topicAliasMax =
    if (specFor pkt.protocolVersion).topicAlias then 64 else 0 := by
  rw [← handleConnection_protocolVer opts c₁ pkt g]
  rfl

theorem choice_eq_iff {α : Type} {P Q : Prop} [Decidable P] [Decidable Q] {a b : α} (hne : a ≠ b) :
    (if P then a else b) = (if Q then a else b) ↔ (P ↔ Q) := by
  by_cases hP : P <;> by_cases hQ : Q <;> simp [hP, hQ, hne, hne.symm]

theorem settled_eq_iff {α : Type} {P : Prop} [Decidable P] {a x y : α} :
    (if P then a else x) = (if P then a else y) ↔ P ∨ x = y := by
  by_cases h : P <;> simp [h]

theorem connAck_eq_iff (hne : id ≠ []) (hv : pkt.protocolVersion = version50)
    (hid₁ : (handleConnection opts c₁ pkt g).clientID = id)
    (hid₂ : (handleConnection opts c₂ pkt g).clientID = id)
    (hres : isResuming c₁ pkt = isResuming c₂ pkt) :
    connAck opts c₁ pkt g = connAck opts c₂ pkt g ↔
      (handleConnection opts c₁ pkt g).view = (handleConnection opts c₂ pkt g).view := by
  unfold connAck
  rw [hres]
  refine (connAckPacket_eq_iff opts (handleConnection opts c₁ pkt g)
    (handleConnection opts c₂ pkt g) (isResuming c₂ pkt)
    ((handleConnection_protocolVer ..).trans hv) ((handleConnection_protocolVer ..).trans hv)
    rfl rfl (handleConnection_topicAliasMax.trans handleConnection_topicAliasMax.symm)).trans ?_
  -- the ClientID is not empty, so a request shows in the property
  simp only [connAckInfo, hid₁, hid₂, choice_eq_iff hne, ← Bool.eq_iff_iff]
  rw [View.ext_iff]
  rfl

end Same

/-- **When two brokers answer alike.** A CONNECT of MQTT 5.0 that resumes a session in memory
gets the same CONNACK from both exactly when the sessions remember alike what the CONNECT does
not settle itself: whether Response Information was requested since the session began,
whether a keep-alive was shortened, and whether the ClientID was assigned. -/
theorem same_connAck_iff (opts : Options) {id : Str} {ls₁ ls₂ : List Event} {c₁ c₂ : Client}
    (hrun₁ : exec (step opts id) {} ls₁ = some c₁) (hrun₂ : exec (step opts id) {} ls₂ = some c₂)
    (hmem₁ : c₁.session.isSome = true) (hmem₂ : c₂.session.isSome = true) {pkt : ConnectPacket}
    (hid : pkt.clientID = id) (hne : id ≠ []) (hv : pkt.protocolVersion = version50)
    (hclean : pkt.flags.cleanSession = false) (generated : Str) :
    connAck opts c₁ pkt generated = connAck opts c₂ pkt generated ↔
      (Requested pkt ∨ (Since Requests Ends ls₁ ↔ Since Requests Ends ls₂)) ∧
      (Capped opts pkt ∨ (Since (Caps opts) Ends ls₁ ↔ Since (Caps opts) Ends ls₂)) ∧
      (Since Assigns Ends ls₁ ↔ Since Assigns Ends ls₂) := by
  have hident : (identified pkt generated).clientID = id := by
    rw [identified, if_neg (hid ▸ hne)]
    exact hid
  have hres : ∀ c : Client, c.session.isSome = true → isResuming c pkt = true := by
    intro c hc
    obtain ⟨s, hs⟩ := Option.isSome_iff_exists.mp hc
    simp [isResuming, managed, hs, hclean]
  rw [connAck_eq_iff hne hv ((owned_of_run hrun₁).handleConnection opts hident)
    ((owned_of_run hrun₂).handleConnection opts hident)
    ((hres c₁ hmem₁).trans (hres c₂ hmem₂).symm),
    view_handleConnection, view_handleConnection, hclean, views_of_run opts id hrun₁,
    views_of_run opts id hrun₂, View.ext_iff]
  simp only [View.after, history, settled_eq_iff, Bool.false_eq_true, if_false, decide_eq_decide,
    choice_eq_iff hne, choice_eq_iff (Option.some_ne_none opts.keepAlive), hid ▸ hne, false_and]

def shark : Str := ascii "shark-1"

/-- A client that starts clean without a ClientID, with a long keep-alive and a request. -/
def demandingRun : List Event :=
  [.connect { connectOf version50 [] 120 { requestResponseInfo := some 1 } with
    flags := { cleanSession := true } } shark]

def modestRun : List Event := [.connect (connectOf version50 shark 30) []]

theorem same_connAck_rerequested :
    ∃ c₁ c₂, exec (step minuteOptions (ascii "c")) {} cappedRun = some c₁ ∧
      exec (step minuteOptions (ascii "c")) {}
        [.connect (connectOf version50 (ascii "c") 30 { requestResponseInfo := some 1 }) []] =
          some c₂ ∧
      connAck minuteOptions c₁
          (connectOf version50 (ascii "c") 90 { requestResponseInfo := some 1 }) [] =
        connAck minuteOptions c₂
          (connectOf version50 (ascii "c") 90 { requestResponseInfo := some 1 }) [] := by
  refine ⟨_, _, (Option.some_get ?_).symm, (Option.some_get ?_).symm,
    (same_connAck_iff minuteOptions (Option.some_get _).symm (Option.some_get _).symm ?_ ?_ rfl ?_
      rfl rfl []).mpr ?_⟩
  all_goals decide +kernel

/-- A client that asks for nothing is answered as if it had asked again, since it did before. -/
theorem earlier_requests_answered :
    ∃ c₁ c₂, exec (step minuteOptions shark) {} demandingRun = some c₁ ∧
      exec (step minuteOptions shark) {} modestRun = some c₂ ∧
      (handleConnection minuteOptions c₁ (connectOf version50 shark 30) []).view =
        ⟨true, some 60, shark⟩ ∧
      (handleConnection minuteOptions c₂ (connectOf version50 shark 30) []).view =
        ⟨false, none, []⟩ ∧
      connAck minuteOptions c₁ (connectOf version50 shark 30) [] ≠
        connAck minuteOptions c₂ (connectOf version50 shark 30) [] := by
  refine ⟨_, _, (Option.some_get ?_).symm, (Option.some_get ?_).symm, ?_, ?_, ?_⟩
  all_goals decide +kernel

end SharkMqtt.Broker.Negotiation
