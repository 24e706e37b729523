import SharkMqtt.Lib.Runs
import SharkMqtt.Protocol.Codec

/-!
# One connection: its read loop, its producers and its writer

`clientState` (`broker/client_state.go`) with everything that works on it: `writeLoop`
takes packets off the queue `out` and requests off `syncWrites`, in any order; producers
put packets on `out`; `readLoop` (`broker/conn_lifecycle.go`) decodes with the codec the
writer encodes with; and the teardowns, of which several may run at once, hand a last
DISCONNECT over, close the socket and stop the writer.

A label is one atomic step. `syncWrites` is unbuffered, so handing a request over and
writing it is one step of the caller and the writer together. What a handler of the read
loop answers is a `produce` step of its own. Left to the environment, and so in the label:
whether the socket takes a packet, whether a caller gives up waiting, what an enhanced
authenticator says, when the keep-alive deadline passes.

A closed socket takes nothing more, but what the reader has buffered can still be decoded.
-/

namespace SharkMqtt.Broker.WriteLoop

open Protocol Lib

/-! ## Teardowns -/

inductive Action where
  /-- `writeFinal` -/
  | final (pkt : Packet)
  /-- `writeOrEnqueue`, which waits for room -/
  | send (pkt : Packet)
  /-- a send that is given up when the queue is full -/
  | offer (pkt : Packet)
  | close
  | stop
deriving DecidableEq

inductive Teardown where
  /-- another connection registers under the ClientID -/
  | takenOver
  /-- `closeProtocolViolationWithReason` -/
  | violation (reason : UInt8)
  | keepAlive
  /-- `Decode` returned an error -/
  | readError (e : Err)
  /-- `Decode` failed below the protocol: the peer is gone or the socket closed -/
  | readFailed
  | secondConnect
  /-- the client sent DISCONNECT -/
  | disconnected
  /-- re-authentication failed, or AUTH came where there is no enhanced authentication -/
  | badAuth
  /-- the authenticator answered with a code that ends the connection -/
  | reauthRefused (answer : DisconnectPacket)
  /-- `notifyShuttingDown`, the drain, and `Stop` closing what is left -/
  | shutdown
  /-- `DisconnectClient` -/
  | evicted

def disconnectPacket (reason : UInt8) : Packet :=
  .disconnect { fixedHeader := { packetType := .disconnect }, reasonCode := reason }

/-- `decodeErrorReasonCode`; `errors.Is` looks through the wrapping. -/
def decodeErrorReasonCode : Err → Option UInt8
  | .wrap _ e => decodeErrorReasonCode e
  | .propertyRepeated _ => some 0x82
  | .malformedPacket | .unknownProperty _ | .propertyNotValid _ => some 0x81
  | .invalidPacket => some 0x81
  | .packetTooLarge => some 0x95
  | .eof | .unexpectedEOF | .invalidUTF8 | .controlCharacter _ | .stringTooLong _
  | .willMessageTooLong _ | .passwordTooLong _ | .varIntTooLong | .propertiesBeforeV5 _ => none

/-- The last DISCONNECT, where the version has one to send. -/
def farewell (spec : Spec) (reason : UInt8) : List Action :=
  if spec.serverDisconnect then [.final (disconnectPacket reason)] else []

/-- What a teardown does, in its order. The read loop asks the session for its version,
a takeover and the shutdown ask the codec. The `close` after a `stop` is the server's,
once `HandleConnection` has returned. -/
def Teardown.actions (sess codec : Spec) : Teardown → List Action
  | .takenOver => farewell codec 0x8E ++ [.close, .stop]
  | .violation reason => farewell sess reason ++ [.close]
  | .keepAlive => farewell sess 0x8D ++ [.stop, .close]
  | .readError e => (decodeErrorReasonCode e).elim [] (farewell sess) ++ [.stop, .close]
  | .readFailed => [.stop, .close]
  | .secondConnect => farewell sess 0x82 ++ [.stop, .close]
  | .disconnected => [.stop, .close]
  | .badAuth => [.send (disconnectPacket 0x8C), .stop, .close]
  | .reauthRefused answer => [.send (.auth answer), .stop, .close]
  | .shutdown =>
    (if codec.reasonCodes then [.offer (disconnectPacket 0x8B)] else []) ++ [.close, .stop]
  | .evicted => [.close]

/-! ## State -/

/-- One call of `writeOne`: the packet, the codec that encoded it, and whether its bytes
reached the socket. -/
structure Entry where
  pkt : Packet
  codec : Codec
  sent : Bool

structure State where
  codec : Codec
  /-- `sess.ProtocolVer` -/
  protocolVer : UInt8
  /-- What the client sends from here on. -/
  stream : Bytes
  /-- The read loop has not returned. -/
  reading : Bool := true
  /-- `writeQueueSize` -/
  qcap : ℕ
  out : List Packet := []
  /-- What each teardown has still to do; the one with number 0 is the read loop's. -/
  teardowns : ℕ → List Action := fun _ => []
  /-- `stopWrites` is closed. -/
  stopped : Bool := false
  /-- The socket is closed. -/
  closed : Bool := false
  /-- `writeLoop` has not returned. -/
  running : Bool := true
  log : List Entry := []

/-- A connection whose CONNECT was accepted: its session and its codec have the
negotiated version. -/
def start (c : Codec) (qcap : ℕ) (stream : Bytes) : State :=
  { codec := c, protocolVer := c.protocolVersion, stream, qcap }

namespace State

def written (st : State) : List Packet := (st.log.filter Entry.sent).map Entry.pkt

def tearDown (st : State) (i : ℕ) (t : Teardown) : State :=
  { st with
    teardowns := Function.update st.teardowns i
      (t.actions (specFor st.protocolVer) (specFor st.codec.protocolVersion)) }

/-- `out <- pkt`; no producer of the broker makes a CONNECT. -/
def enqueue (st : State) (pkt : Packet) : Option State :=
  if pkt.goType = .connect ∨ st.qcap ≤ st.out.length then none
  else some { st with out := st.out ++ [pkt] }

end State

def tooLarge : Err → Bool
  | .wrap _ e => tooLarge e
  | e => e = .packetTooLarge

inductive Result where
  | sent
  /-- the one failure `classifyWriteError` swallows -/
  | dropped
  | failed
deriving DecidableEq

/-- `writeOne`; `sock` says whether an open socket takes the bytes. -/
def writeOne (st : State) (pkt : Packet) (sock : Bool) : Result :=
  match (st.codec.encode pkt).1 with
  | .error e => if tooLarge e ∧ pkt.goType ≠ .connAck then .dropped else .failed
  | .ok _ => if sock ∧ st.closed = false then .sent else .failed

def State.put (st : State) (pkt : Packet) (sock : Bool) : State :=
  { st with
    codec := (st.codec.encode pkt).2
    log := st.log ++ [{ pkt, codec := st.codec, sent := writeOne st pkt sock = .sent }] }

/-! ## Steps -/

/-- How an action of a teardown goes. -/
inductive Outcome where
  | done
  /-- taken by the writer, refused by the socket -/
  | failed
  /-- not taken by the writer or by the queue; for `stop`, another connection is
  registered by now -/
  | givenUp
deriving DecidableEq

/-- What an enhanced authenticator makes of an AUTH. -/
inductive Reauth where
  /-- there is none, or it fails -/
  | rejects
  /-- Success or Continue Authentication -/
  | goesOn
  | ends (answer : DisconnectPacket)

inductive Label where
  | produce (pkt : Packet)
  | begin (i : ℕ) (t : Teardown)
  | act (i : ℕ) (o : Outcome)
  /-- the writer takes from the queue -/
  | write (sock : Bool)
  /-- the writer sees `stopWrites` -/
  | exit
  /-- one `Decode` comes back -/
  | read (auth : Reauth)
  | expire
  | readFails

def State.act (st : State) : Action → Outcome → Option State
  | .final _, .givenUp => some st
  | .final pkt, o => if st.running then some (st.put pkt (o = .done)) else none
  | .send pkt, .done | .offer pkt, .done => st.enqueue pkt
  | .send _, .givenUp => if st.stopped then some st else none
  | .offer _, .givenUp => if st.qcap ≤ st.out.length then some st else none
  | .close, .done => some { st with closed := true }
  | .stop, .done => some { st with stopped := true }
  | .stop, .givenUp => some st
  | _, _ => none

/-- One packet off the queue. A failure closes the socket and ends the writer. -/
def State.write (st : State) (sock : Bool) : Option State :=
  match st.running, st.out with
  | true, pkt :: rest =>
    if writeOne st pkt sock = .failed then
      some { st.put pkt sock with out := rest, closed := true, stopped := true, running := false }
    else some { st.put pkt sock with out := rest }
  | _, _ => none

/-- How the read loop ends after a packet, if it does. -/
def endsWith (auth : Reauth) : Packet → Option Teardown
  | .connect _ => some .secondConnect
  | .disconnect _ => some .disconnected
  | .auth _ =>
    match auth with
    | .rejects => some .badAuth
    | .goesOn => none
    | .ends answer => some (.reauthRefused answer)
  | _ => none

/-- One turn of the read loop: the codec is the one `Decode` leaves. -/
def State.read (st : State) (auth : Reauth) : State :=
  let st' := { st with codec := (st.codec.decode st.stream).2.1
                       stream := (st.codec.decode st.stream).2.2 }
  match (st.codec.decode st.stream).1 with
  | .error e => { st' with reading := false }.tearDown 0 (.readError e)
  | .ok pkt =>
    match endsWith auth pkt with
    | some t => { st' with reading := false }.tearDown 0 t
    | none => st'

def step (st : State) : Label → Option State
  | .produce pkt => st.enqueue pkt
  | .begin i t => if i ≠ 0 ∧ st.teardowns i = [] then some (st.tearDown i t) else none
  | .act i o =>
    match st.teardowns i with
    | [] => none
    | a :: rest =>
      (st.act a o).map fun st' => { st' with teardowns := Function.update st'.teardowns i rest }
  | .write sock => st.write sock
  | .exit => if st.running ∧ st.stopped then some { st with running := false } else none
  | .read auth => if st.reading then some (st.read auth) else none
  | .expire =>
    if st.reading then some ({ st with reading := false }.tearDown 0 .keepAlive) else none
  | .readFails =>
    if st.reading then some ({ st with reading := false }.tearDown 0 .readFailed) else none

/-! ## What a step does to the queue and to the log -/

/-- What a step hands to the queue or to the writer, or makes the writer take. -/
inductive Effect where
  | nothing
  | place (pkt : Packet)
  | take (sock : Bool)
  | final (pkt : Packet) (sock : Bool)

def effect (st : State) : Label → Effect
  | .produce pkt => .place pkt
  | .act i o =>
    match st.teardowns i, o with
    | .final pkt :: _, .done => .final pkt true
    | .final pkt :: _, .failed => .final pkt false
    | .send pkt :: _, .done | .offer pkt :: _, .done => .place pkt
    | _, _ => .nothing
  | .write sock => .take sock
  | _ => .nothing

def State.entry (st : State) (pkt : Packet) (sock : Bool) : Entry :=
  { pkt, codec := st.codec, sent := writeOne st pkt sock = .sent }

/-- The queue and the log after an effect. -/
def Follows (st st' : State) : Effect → Prop
  | .nothing => st'.out = st.out ∧ st'.log = st.log
  | .place pkt => pkt.goType ≠ .connect ∧ st'.out = st.out ++ [pkt] ∧ st'.log = st.log
  | .take sock => ∃ pkt rest, st.running = true ∧ st.out = pkt :: rest ∧ st'.out = rest ∧
      st'.log = st.log ++ [st.entry pkt sock]
  | .final pkt sock => st.running = true ∧ st'.out = st.out ∧
      st'.log = st.log ++ [st.entry pkt sock]

variable {st st' : State} {pkt : Packet} {sock : Bool} {pkts : List Packet}

theorem enqueue_eq_some (h : st.enqueue pkt = some st') :
    pkt.goType ≠ .connect ∧ st' = { st with out := st.out ++ [pkt] } := by
  unfold State.enqueue at h
  split_ifs at h with hno
  cases h
  exact ⟨fun hc => hno (.inl hc), rfl⟩

/-- A packet is taken off the queue by a running writer; the writer and the socket
survive unless the packet fails. -/
theorem write_eq_some (h : st.write sock = some st') :
    ∃ pkt rest, st.running = true ∧ st.out = pkt :: rest ∧
      (st' = { st.put pkt sock with
          out := rest, closed := true, stopped := true, running := false } ∨
        st' = { st.put pkt sock with out := rest }) := by
  unfold State.write at h
  split at h
  next pkt rest hrun hout =>
    split_ifs at h <;> cases h
    · exact ⟨pkt, rest, hrun, hout, .inl rfl⟩
    · exact ⟨pkt, rest, hrun, hout, .inr rfl⟩
  · cases h

theorem act_cases {a : Action} {o : Outcome} (h : st.act a o = some st') :
    (∃ pkt, a = .final pkt ∧ o ≠ .givenUp ∧ st.running = true ∧ st' = st.put pkt (o = .done)) ∨
      (∃ pkt, (a = .send pkt ∨ a = .offer pkt) ∧ o = .done ∧ st.enqueue pkt = some st') ∨
      (o = .givenUp ∧ st' = st) ∨
      (a = .close ∧ st' = { st with closed := true }) ∨
      (a = .stop ∧ st' = { st with stopped := true }) := by
  revert h
  fun_cases State.act st a o <;> intro h <;> try cases h
  · exact .inr (.inr (.inl ⟨rfl, rfl⟩))
  next pkt hrun ho => exact .inl ⟨pkt, rfl, ho, hrun, rfl⟩
  next pkt => exact .inr (.inl ⟨pkt, .inl rfl, rfl, h⟩)
  next pkt => exact .inr (.inl ⟨pkt, .inr rfl, rfl, h⟩)
  · exact .inr (.inr (.inl ⟨rfl, rfl⟩))
  · exact .inr (.inr (.inl ⟨rfl, rfl⟩))
  · exact .inr (.inr (.inr (.inl ⟨rfl, rfl⟩)))
  · exact .inr (.inr (.inr (.inr ⟨rfl, rfl⟩)))
  · exact .inr (.inr (.inl ⟨rfl, rfl⟩))

theorem read_frame (st : State) (auth : Reauth) :
    (st.read auth).out = st.out ∧ (st.read auth).log = st.log ∧
      (st.read auth).running = st.running ∧ (st.read auth).closed = st.closed := by
  unfold State.read
  split
  · exact ⟨rfl, rfl, rfl, rfl⟩
  · split <;> exact ⟨rfl, rfl, rfl, rfl⟩

def State.Live (st : State) : Prop := st.running = true ∧ st.closed = false

instance (st : State) : Decidable st.Live := inferInstanceAs (Decidable (_ ∧ _))

theorem live_of_sent (hrun : st.running = true) (h : writeOne st pkt sock = .sent) : st.Live := by
  refine ⟨hrun, ?_⟩
  unfold writeOne at h
  split at h
  · split_ifs at h
  · split_ifs at h with hopen
    exact hopen.2

theorem act_follows {i : ℕ} {o : Outcome} {a : Action} {rest : List Action}
    (hi : st.teardowns i = a :: rest) (h : st.act a o = some st') :
    Follows st st' (effect st (.act i o)) ∧ (st'.Live → st.Live) := by
  simp only [effect, hi]
  rcases act_cases h with ⟨pkt, rfl, ho, hrun, rfl⟩ | ⟨pkt, ha, rfl, henq⟩ | ⟨rfl, rfl⟩ |
    ⟨rfl, rfl⟩ | ⟨rfl, rfl⟩
  · cases o with
    | done | failed => exact ⟨⟨hrun, rfl, rfl⟩, id⟩
    | givenUp => exact absurd rfl ho
  · obtain ⟨hnot, rfl⟩ := enqueue_eq_some henq
    rcases ha with rfl | rfl <;> exact ⟨⟨hnot, rfl, rfl⟩, id⟩
  · cases a <;> exact ⟨⟨rfl, rfl⟩, id⟩
  · refine ⟨?_, fun hlive => absurd hlive.2 (by simp)⟩
    cases o <;> exact ⟨rfl, rfl⟩
  · refine ⟨?_, id⟩
    cases o <;> exact ⟨rfl, rfl⟩

/-- **One step**, as the queue and the log see it; nothing brings the writer or the
socket back. -/
theorem step_follows {l : Label} (h : step st l = some st') :
    Follows st st' (effect st l) ∧ (st'.Live → st.Live) := by
  revert h
  fun_cases step st l <;> intro h <;> try cases h
  · obtain ⟨hnot, rfl⟩ := enqueue_eq_some h
    exact ⟨⟨hnot, rfl, rfl⟩, id⟩
  · exact ⟨⟨rfl, rfl⟩, id⟩
  next i o a rest hi =>
    obtain ⟨st₁, hact, rfl⟩ := Option.map_eq_some_iff.mp h
    obtain ⟨hfollows, hlive⟩ := act_follows hi hact
    refine ⟨?_, hlive⟩
    cases heff : effect st (.act i o) <;> rw [heff] at hfollows <;> exact hfollows
  · obtain ⟨pkt, rest, hrun, hout, rfl | rfl⟩ := write_eq_some h
    · exact ⟨⟨pkt, rest, hrun, hout, rfl, rfl⟩, fun hlive => absurd hlive.1 (by simp)⟩
    · exact ⟨⟨pkt, rest, hrun, hout, rfl, rfl⟩, id⟩
  · exact ⟨⟨rfl, rfl⟩, fun hlive => absurd hlive.1 (by simp)⟩
  next auth _ =>
    obtain ⟨hout, hlog, hrun, hclosed⟩ := read_frame st auth
    exact ⟨⟨hout, hlog⟩, fun hlive => ⟨hrun ▸ hlive.1, hclosed ▸ hlive.2⟩⟩
  · exact ⟨⟨rfl, rfl⟩, id⟩
  · exact ⟨⟨rfl, rfl⟩, id⟩

/-! ## The last word -/

/-- Nothing comes after a DISCONNECT. -/
def LastWord (pkts : List Packet) : Prop :=
  ∀ before d after, pkts = before ++ d :: after → d.goType = .disconnect → after = []

theorem lastWord_iff : LastWord pkts ↔ pkts.Pairwise fun p _ => p.goType ≠ .disconnect := by
  constructor
  · intro h
    induction pkts with
    | nil => exact List.Pairwise.nil
    | cons p rest ih =>
      apply List.Pairwise.cons
      · rintro q hq hd
        rw [h [] p rest rfl hd] at hq
        cases hq
      · apply ih
        rintro before d after rfl hd
        exact h (p :: before) d after rfl hd
  · rintro h before d after rfl hd
    have hafter := (List.pairwise_append.mp h).2.1
    apply List.eq_nil_iff_forall_not_mem.mpr
    exact fun q hq => List.rel_of_pairwise_cons hafter hq hd

theorem LastWord.sublist {pkts' : List Packet} (h : LastWord pkts) (hs : pkts'.Sublist pkts) :
    LastWord pkts' := by
  rw [lastWord_iff] at h ⊢
  exact h.sublist hs

theorem lastWord_concat (h : ∀ p ∈ pkts, p.goType ≠ .disconnect) (pkt : Packet) :
    LastWord (pkts ++ [pkt]) := by
  rw [lastWord_iff, List.pairwise_append]
  refine ⟨?_, List.pairwise_singleton _ _, fun p hp _ _ => h p hp⟩
  exact List.pairwise_of_forall_mem_list fun p hp _ _ => h p hp

def State.Told (st : State) : Prop := ∃ p ∈ st.written ++ st.out, p.goType = .disconnect

instance (st : State) : Decidable st.Told := inferInstanceAs (Decidable (∃ p ∈ _, _))

/-- The condition on what is handed over while the writer runs on an open socket: nothing
once a DISCONNECT has been handed over, and a DISCONNECT as a last write only when the
queue is empty. -/
def OrderlyEffect (st : State) : Effect → Prop
  | .place _ => st.Live → ¬ st.Told
  | .final pkt _ => st.Live → ¬ st.Told ∧ (pkt.goType = .disconnect → st.out = [])
  | .nothing | .take _ => True

def Orderly (st : State) (l : Label) : Prop := OrderlyEffect st (effect st l)

instance (st : State) (l : Label) : Decidable (Orderly st l) :=
  match h : effect st l with
  | .nothing => decidable_of_iff True (by simp [Orderly, OrderlyEffect, h])
  | .place _ => decidable_of_iff (st.Live → ¬ st.Told) (by simp [Orderly, OrderlyEffect, h])
  | .take _ => decidable_of_iff True (by simp [Orderly, OrderlyEffect, h])
  | .final pkt _ =>
    decidable_of_iff (st.Live → ¬ st.Told ∧ (pkt.goType = .disconnect → st.out = []))
      (by simp [Orderly, OrderlyEffect, h])

/-- The invariant: what has been written and what is still to be written, in this order. -/
structure Settled (st : State) : Prop where
  past : LastWord st.written
  ahead : st.Live → LastWord (st.written ++ st.out)

theorem written_concat {e : Entry} (h : st'.log = st.log ++ [e]) :
    st'.written = if e.sent then st.written ++ [e.pkt] else st.written := by
  unfold State.written
  rw [h]
  cases he : e.sent with
  | false | true => simp [he]

/-- The writer has encoded a packet. If it was sent, the writer was live. -/
theorem written_entry (hrun : st.running = true) (h : st'.log = st.log ++ [st.entry pkt sock]) :
    (st.Live ∧ st'.written = st.written ++ [pkt]) ∨ st'.written = st.written := by
  rw [written_concat h]
  by_cases hsent : writeOne st pkt sock = .sent
  · exact .inl ⟨live_of_sent hrun hsent, by simp [State.entry, hsent]⟩
  · exact .inr (by simp [State.entry, hsent])

theorem Settled.step {l : Label} (h : Settled st) (hok : Orderly st l)
    (hstep : step st l = some st') : Settled st' := by
  obtain ⟨hfollows, hlive⟩ := step_follows hstep
  unfold Orderly at hok
  cases heff : effect st l with
  | nothing =>
    rw [heff] at hfollows
    obtain ⟨hout, hlog⟩ := hfollows
    have hwritten : st'.written = st.written := by simp [State.written, hlog]
    refine ⟨hwritten ▸ h.past, fun hl => ?_⟩
    rw [hwritten, hout]
    exact h.ahead (hlive hl)
  | place pkt =>
    rw [heff] at hfollows hok
    obtain ⟨-, hout, hlog⟩ := hfollows
    have hwritten : st'.written = st.written := by simp [State.written, hlog]
    refine ⟨hwritten ▸ h.past, fun hl => ?_⟩
    rw [hwritten, hout, ← List.append_assoc]
    exact lastWord_concat (fun p hp hd => hok (hlive hl) ⟨p, hp, hd⟩) pkt
  | take sock =>
    rw [heff] at hfollows
    obtain ⟨pkt, rest, hrun, hq, hout, hlog⟩ := hfollows
    rcases written_entry hrun hlog with ⟨hl, hw⟩ | hw
    · -- sent: what is ahead has moved behind
      have hsame : st'.written ++ st'.out = st.written ++ st.out := by
        rw [hw, hout, hq]
        simp
      have hahead : LastWord (st'.written ++ st'.out) := hsame ▸ h.ahead hl
      exact ⟨hahead.sublist (List.sublist_append_left _ _), fun _ => hahead⟩
    · refine ⟨hw ▸ h.past, fun hl => ?_⟩
      apply (h.ahead (hlive hl)).sublist
      rw [hw, hout, hq]
      exact (List.sublist_cons_self pkt rest).append_left st.written
  | final pkt sock =>
    rw [heff] at hfollows hok
    obtain ⟨hrun, hout, hlog⟩ := hfollows
    rcases written_entry hrun hlog with ⟨hl, hw⟩ | hw
    · obtain ⟨hnot, hempty⟩ := hok hl
      have hahead : LastWord (st'.written ++ st'.out) := by
        rw [hw, hout, List.append_assoc, List.singleton_append]
        rintro before d after hsplit hd
        by_cases hpkt : pkt.goType = .disconnect
        · rw [hempty hpkt] at hsplit
          exact (lastWord_concat (fun p hp hdp => hnot ⟨p, List.mem_append_left _ hp, hdp⟩) pkt)
            before d after hsplit hd
        · -- no DISCONNECT anywhere
          have hmem : d ∈ st.written ++ pkt :: st.out := by
            rw [hsplit]
            simp
          rcases List.mem_append.mp hmem with hin | hin
          · exact absurd ⟨d, List.mem_append_left _ hin, hd⟩ hnot
          · rcases List.mem_cons.mp hin with rfl | hin
            · exact absurd hd hpkt
            · exact absurd ⟨d, List.mem_append_right _ hin, hd⟩ hnot
      exact ⟨hahead.sublist (List.sublist_append_left _ _), fun _ => hahead⟩
    · refine ⟨hw ▸ h.past, fun hl => ?_⟩
      rw [hw, hout]
      exact h.ahead (hlive hl)

/-- **A DISCONNECT is the last packet written**, in every interleaving in which nothing is
handed over behind it and it does not overtake the queue. -/
theorem disconnect_written_last (c : Codec) (qcap : ℕ) (stream : Bytes) {ls : List Label}
    {st : State} (hok : Along step Orderly (start c qcap stream) ls)
    (h : exec step (start c qcap stream) ls = some st) : LastWord st.written := by
  have hstart : Settled (start c qcap stream) := by
    refine ⟨?_, fun _ => ?_⟩ <;> exact lastWord_iff.mpr List.Pairwise.nil
  have hsettled : Settled st :=
    exec_invariant Settled (fun _ _ _ hs hl hstep => hs.step hl hstep) hstart hok h
  exact hsettled.past

/-- A 5.0 connection with room for two packets, whose client sends nothing. -/
def idle : State := start (Codec.newForVersion 0 version50) 2 []

def pingResp : Packet := .pingResp { packetType := .pingResp }

def pubAck : Packet := .pubAck { fixedHeader := { packetType := .pubAck }, packetID := 1 }

/-- A PINGRESP is written; then the keep-alive runs out. -/
def expiredIdle : List Label :=
  [.produce pingResp, .write true, .expire, .act 0 .done, .act 0 .done, .exit, .act 0 .done]

theorem expiredIdle_disconnect_last :
    ∃ st, exec step idle expiredIdle = some st ∧
      st.written = [pingResp, disconnectPacket 0x8D] ∧ LastWord st.written :=
  have horderly : Along step Orderly idle expiredIdle := by decide +kernel
  exec_reaches (by decide +kernel) fun _ hst _ => disconnect_written_last _ _ _ horderly hst

/-- The shutdown queues its notice; during the drain a PUBACK is queued behind it. -/
def drained : List Label :=
  [.begin 1 .shutdown, .act 1 .done, .write true, .produce pubAck, .write true]

/-- A PUBACK waits on the queue when a takeover hands its DISCONNECT over. -/
def overtaken : List Label := [.produce pubAck, .begin 1 .takenOver, .act 1 .done, .write true]

theorem written_after_disconnect :
    (∃ st, exec step idle drained = some st ∧
        st.written = [disconnectPacket 0x8B, pubAck] ∧ ¬ LastWord st.written) ∧
      ∃ st, exec step idle overtaken = some st ∧
        st.written = [disconnectPacket 0x8E, pubAck] ∧ ¬ LastWord st.written := by
  constructor
  · refine exec_reaches (by decide +kernel) fun st _ hvalue hlast => ?_
    exact absurd (hlast [] _ [pubAck] hvalue rfl) (List.cons_ne_nil _ _)
  · refine exec_reaches (by decide +kernel) fun st _ hvalue hlast => ?_
    exact absurd (hlast [] _ [pubAck] hvalue rfl) (List.cons_ne_nil _ _)

end SharkMqtt.Broker.WriteLoop
