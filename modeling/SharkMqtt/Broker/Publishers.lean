import SharkMqtt.Broker.Window
import SharkMqtt.Lib.Processes

/-!
# Publishers racing for the outbound window

Any number of goroutines call `doDeliver` for one session while the goroutine of
its connection handles acknowledgements and flushes the buffer. The calls share
the session only through its own operations, so one label is one of them:
`CanSendOutbound`, `NextPacketID`, `AddInflight`, `IncOutboundUnacked`,
`BufferOutbound`, and then the write itself. Every interleaving is a list of
labels.

`unacked` is a ghost: the identifiers of the QoS 1 and 2 PUBLISH packets written
on the connection and not acknowledged yet.

The window is checked long before the counter moves, so two calls can pass the
check for one free place. Runs in which every call that passes finds room for
itself beside those already admitted stay within the window
(`withinWindow_of_reserved`).
-/

namespace SharkMqtt.Broker.Publishers

open Protocol Lib

/-! ## Calls of `doDeliver` -/

inductive Stage where
  /-- `GetSession` and the expiry check. -/
  | lookup
  /-- `CanSendOutbound` -/
  | window
  /-- `BufferOutbound` -/
  | buffer
  /-- `NextPacketID` -/
  | number
  /-- `AddInflight` -/
  | track (entry : InflightMsg)
  /-- `IncOutboundUnacked` -/
  | count (id : UInt16)
  /-- `writePacket` -/
  | write (id : UInt16)
  | returned

structure Call where
  msg : OutboundMsg
  retainedDelivery : Bool
  stage : Stage

def Call.step (c : Call) (sess : Session) (now : ℕ) : Session × Stage :=
  match c.stage with
  | .lookup => (sess, if expired c.msg.expiresAt now then .returned else .window)
  | .window =>
    if c.msg.deliverQoS > 0 && !sess.canSendOutbound then (sess, .buffer)
    else (sess, if c.msg.deliverQoS > 0 then .number else .returned)
  | .buffer => ((sess.bufferOutbound c.msg).2, .returned)
  | .number =>
    let pub := sess.outboundPublish c.msg c.retainedDelivery now
    let (id, sess) := sess.nextPacketID
    (sess, .track (Session.inflightOf c.msg pub id))
  | .track entry => (sess.addInflight entry, .count entry.packetID)
  | .count id => (sess.incOutboundUnacked, .write id)
  | .write _ => (sess, .returned)
  | .returned => (sess, .returned)

/-! ## The machine -/

inductive Reader where
  | reading
  /-- `RemoveInflight` is done, `DecOutboundUnacked` is next if it found an entry. -/
  | settled (removed : Bool)
  /-- `flushBufferedOutbound`: the length, the window, the pop, the delivery. -/
  | flushing
  | flushWindow
  | flushPop
  /-- It waits for its own call. -/
  | redelivering (i : ℕ)

structure State where
  sess : Session
  calls : List Call := []
  reader : Reader := .reading
  unacked : List UInt16

/-- A connection starts with what it has in flight sent and unacknowledged. -/
def init (s : Session) : State where
  sess := s
  unacked := s.inflight.table.keys

inductive Label where
  /-- A publisher calls `doDeliver`. -/
  | deliver (msg : OutboundMsg) (retainedDelivery : Bool)
  /-- The next step of the i-th call. -/
  | call (i : ℕ) (now : ℕ)
  /-- The client settles a delivery: PUBACK, PUBCOMP, or a refusing PUBREC. -/
  | ack (id : UInt16)
  /-- A PUBREC that accepts. -/
  | pubRec (id : UInt16)
  /-- The next step of the connection's goroutine. -/
  | reader

/-- The identifiers written and unacknowledged after a step of a call. -/
def Stage.written (unacked : List UInt16) : Stage → List UInt16
  | .write id => unacked ++ [id]
  | _ => unacked

def readerStep (st : State) : Option State :=
  match st.reader with
  | .reading => none
  | .settled removed =>
    some { st with
      sess := if removed then st.sess.decOutboundUnacked else st.sess
      reader := .flushing }
  | .flushing =>
    some { st with reader := if st.sess.outboundQueue = [] then .reading else .flushWindow }
  | .flushWindow =>
    some { st with reader := if st.sess.canSendOutbound then .flushPop else .reading }
  | .flushPop =>
    match st.sess.popOutbound with
    | none => some { st with reader := .reading }
    | some (msg, sess) =>
      some { st with
        sess := sess
        calls := st.calls ++ [⟨msg, false, .lookup⟩]
        reader := .redelivering st.calls.length }
  | .redelivering i =>
    match st.calls[i]? with
    | some ⟨_, _, .returned⟩ => some { st with reader := .flushing }
    | _ => none

def step (st : State) : Label → Option State
  | .deliver msg retainedDelivery =>
    some { st with calls := st.calls ++ [⟨msg, retainedDelivery, .lookup⟩] }
  | .call i now =>
    match st.calls[i]? with
    | none => none
    | some c =>
      let r := c.step st.sess now
      some { st with
        sess := r.1
        calls := st.calls.set i { c with stage := r.2 }
        unacked := c.stage.written st.unacked }
  | .ack id =>
    match st.reader with
    | .reading =>
      let r := st.sess.removeInflight id
      some { st with
        sess := r.2, unacked := st.unacked.erase id, reader := .settled r.1 }
    | _ => none
  | .pubRec id =>
    match st.reader with
    | .reading => some { st with sess := st.sess.markInflightPubRel id }
    | _ => none
  | .reader => readerStep st

/-! ## What is to be shown -/

/-- The packets written and unacknowledged fit the window, each under its own
identifier. -/
def WithinWindow (window : UInt16) (st : State) : Prop :=
  st.unacked.length ≤ window.toNat ∧ st.unacked.Nodup

def Stage.admitted : Stage → Bool
  | .number | .track _ | .count _ => true
  | _ => false

def Stage.counted : Stage → Bool
  | .write _ => true
  | _ => false

def Stage.drawn : Stage → Option UInt16
  | .track entry => some entry.packetID
  | .count id => some id
  | .write id => some id
  | _ => none

/-- The identifier a call has in `Inflight` and not on the wire. -/
def Stage.tracked : Stage → Option UInt16
  | .count id => some id
  | .write id => some id
  | _ => none

/-- The condition on a call about to take its next step. It passes the window
check only while the counter and the calls already admitted leave a place; it
draws no identifier another call holds. -/
def Stage.Reserved (st : State) : Stage → Prop
  | .window =>
    st.sess.canSendOutbound = true →
      st.sess.outboundUnacked + st.calls.countP (·.stage.admitted) <
        st.sess.outboundWindow.toNat
  | .number => ∀ c ∈ st.calls, c.stage.drawn ≠ some st.sess.nextPacketID.1
  | _ => True

/-- The condition on a step: that on a call, and that no acknowledgement names a
packet not written yet. -/
def Reserved (st : State) : Label → Prop
  | .call i _ => ∀ c ∈ st.calls[i]?, c.stage.Reserved st
  | .ack id => ∀ c ∈ st.calls, c.stage.tracked ≠ some id
  | _ => True

instance (st : State) (stage : Stage) : Decidable (stage.Reserved st) := by
  cases stage <;> dsimp only [Stage.Reserved] <;> infer_instance

instance (st : State) (l : Label) : Decidable (Reserved st l) := by
  cases l <;> dsimp only [Reserved] <;> infer_instance

/-! ## The books of the connection -/

/-- The acknowledgement that has removed its entry and not been counted yet. -/
def Reader.owed : Reader → ℕ
  | .settled removed => removed.toNat
  | _ => 0

/-- The books of a connection: every identifier drawn is drawn once; `Inflight`
holds what is written and unacknowledged and what is tracked and still to be
written; the counter counts the former and the calls about to write; together
with the calls admitted these fit the window. -/
structure Accounted (window : UInt16) (st : State) : Prop where
  outboundWindow : st.sess.outboundWindow = window
  seq : st.sess.packetIDSeq ≠ 0
  distinct : (st.unacked ++ st.calls.filterMap (·.stage.drawn)).Nodup
  inUse : ∀ id, st.sess.inUse id = true ↔
    id ∈ st.unacked ∨ id ∈ st.calls.filterMap (·.stage.tracked)
  counter : st.sess.outboundUnacked =
    st.unacked.length + st.calls.countP (·.stage.counted) + st.reader.owed
  room : st.unacked.length + st.calls.countP (·.stage.counted) +
    st.calls.countP (·.stage.admitted) ≤ window.toNat

/-- The same books as one call sees them: its own contribution beside what the
other calls have drawn (`D`), tracked (`T`), admitted (`A`) and counted (`C`). -/
structure Books (window : UInt16) (sess : Session) (unacked : List UInt16) (owed : ℕ)
    (D T : List UInt16) (A C : ℕ) (stage : Stage) : Prop where
  outboundWindow : sess.outboundWindow = window
  seq : sess.packetIDSeq ≠ 0
  distinct : (unacked ++ (stage.drawn.toList ++ D)).Nodup
  inUse : ∀ id, sess.inUse id = true ↔ id ∈ unacked ∨ stage.tracked = some id ∨ id ∈ T
  counter : sess.outboundUnacked = unacked.length + (stage.counted.toNat + C) + owed
  room : unacked.length + (stage.counted.toNat + C) + (stage.admitted.toNat + A) ≤ window.toNat

theorem accounted_iff_books {window : UInt16} {st : State} {before after : List Call} {c : Call}
    (hcalls : st.calls = before ++ c :: after) :
    Accounted window st ↔
      Books window st.sess st.unacked st.reader.owed
        ((before ++ after).filterMap (·.stage.drawn)) ((before ++ after).filterMap (·.stage.tracked))
        ((before ++ after).countP (·.stage.admitted)) ((before ++ after).countP (·.stage.counted))
        c.stage := by
  have hdrawn := filterMap_split (fun c : Call => c.stage.drawn) before after c
  have htracked := filterMap_split (fun c : Call => c.stage.tracked) before after c
  have hadmitted := countP_split (fun c : Call => c.stage.admitted) before after c
  have hcounted := countP_split (fun c : Call => c.stage.counted) before after c
  have hmem : ∀ id, id ∈ (before ++ c :: after).filterMap (·.stage.tracked) ↔
      c.stage.tracked = some id ∨ id ∈ (before ++ after).filterMap (·.stage.tracked) := by
    intro id
    rw [htracked.mem_iff, List.mem_append, Option.mem_toList]
  constructor
  · rintro ⟨hw, hs, hd, hu, hc, hr⟩
    rw [hcalls] at hd hc hr
    rw [hcounted] at hc hr
    rw [hadmitted] at hr
    refine ⟨hw, hs, ((hdrawn.append_left _).nodup_iff).mp hd, fun id => ?_, hc, hr⟩
    rw [hu, hcalls, hmem]
  · rintro ⟨hw, hs, hd, hu, hc, hr⟩
    refine ⟨hw, hs, ?_, fun id => ?_, ?_, ?_⟩
    · rw [hcalls]
      exact ((hdrawn.append_left _).nodup_iff).mpr hd
    · rw [hu, hcalls, hmem]
    · rw [hcalls, hcounted]
      exact hc
    · rw [hcalls, hcounted, hadmitted]
      exact hr

/-- The calls track no more identifiers than they have admitted or counted. -/
theorem length_tracked_le (calls : List Call) :
    (calls.filterMap (·.stage.tracked)).length ≤
      calls.countP (·.stage.admitted) + calls.countP (·.stage.counted) := by
  induction calls with
  | nil => exact Nat.zero_le _
  | cons c rest ih =>
    have hlen := (filterMap_split (fun c : Call => c.stage.tracked) [] rest c).length_eq
    have hadmitted := countP_split (fun c : Call => c.stage.admitted) [] rest c
    have hcounted := countP_split (fun c : Call => c.stage.counted) [] rest c
    have hone : c.stage.tracked.toList.length ≤
        c.stage.admitted.toNat + c.stage.counted.toNat := by
      cases c.stage <;> simp [Stage.tracked, Stage.admitted, Stage.counted]
    rw [List.length_append] at hlen
    simp only [List.nil_append] at hlen hadmitted hcounted
    omega


/-! ## What the operations keep -/

section Books

variable {window : UInt16} {sess : Session} {unacked D T : List UInt16} {owed A C : ℕ}

structure SameBooks (s s' : Session) : Prop where
  outboundWindow : s'.outboundWindow = s.outboundWindow
  packetIDSeq : s'.packetIDSeq = s.packetIDSeq
  outboundUnacked : s'.outboundUnacked = s.outboundUnacked
  inUse : ∀ id, s'.inUse id = s.inUse id

theorem sameBooks_bufferOutbound (s : Session) (msg : OutboundMsg) :
    SameBooks s (s.bufferOutbound msg).2 := by
  unfold Session.bufferOutbound
  split_ifs
  · exact ⟨rfl, rfl, rfl, fun _ => rfl⟩
  · exact ⟨rfl, rfl, rfl, fun _ => rfl⟩

theorem sameBooks_popOutbound {s s' : Session} {msg : OutboundMsg}
    (h : s.popOutbound = some (msg, s')) : SameBooks s s' := by
  unfold Session.popOutbound at h
  split at h
  · cases h
  · cases h
    exact ⟨rfl, rfl, rfl, fun _ => rfl⟩

theorem sameBooks_markInflightPubRel (s : Session) (id : UInt16) :
    SameBooks s (s.markInflightPubRel id) := by
  obtain ⟨table, heq, -, hlookup⟩ := s.markInflightPubRel_eq id
  rw [heq]
  refine ⟨rfl, rfl, rfl, fun id' => ?_⟩
  unfold Session.inUse
  rw [hlookup, Option.isSome_map]

theorem Books.congr {sess' : Session} {stage : Stage}
    (h : Books window sess unacked owed D T A C stage) (hs : SameBooks sess sess') :
    Books window sess' unacked owed D T A C stage where
  outboundWindow := hs.outboundWindow.trans h.outboundWindow
  seq := by rw [hs.packetIDSeq]; exact h.seq
  distinct := h.distinct
  inUse := fun id => by rw [hs.inUse, h.inUse]
  counter := hs.outboundUnacked.trans h.counter
  room := h.room

theorem Books.move {stage stage' : Stage} (h : Books window sess unacked owed D T A C stage)
    (hd : stage.drawn = none ∧ stage'.drawn = none) (ht : stage.tracked = none ∧ stage'.tracked = none)
    (ha : stage.admitted = false ∧ stage'.admitted = false)
    (hc : stage.counted = false ∧ stage'.counted = false) :
    Books window sess unacked owed D T A C stage' where
  outboundWindow := h.outboundWindow
  seq := h.seq
  distinct := by have hn := h.distinct; rw [hd.1] at hn; rw [hd.2]; exact hn
  inUse := fun id => by rw [h.inUse, ht.1, ht.2]
  counter := by have hn := h.counter; rw [hc.1] at hn; rw [hc.2]; exact hn
  room := by have hn := h.room; rw [hc.1, ha.1] at hn; rw [hc.2, ha.2]; exact hn

theorem Books.begins (h : Books window sess unacked owed D T A C .window)
    (hroom : sess.outboundUnacked + A < window.toNat) :
    Books window sess unacked owed D T A C .number where
  outboundWindow := h.outboundWindow
  seq := h.seq
  distinct := h.distinct
  inUse := h.inUse
  counter := h.counter
  room := by
    have hcounter := h.counter
    simp only [Stage.counted, Stage.admitted, Bool.toNat_false, Bool.toNat_true] at hcounter ⊢
    omega

theorem Books.free (h : Books window sess unacked owed D T A C .number) (hT : T.length ≤ A + C) :
    sess.inUse sess.nextPacketID.1 = false := by
  refine Session.nextPacketID_free h.seq ?_
  have hsize : sess.inflight.size ≤ (unacked ++ T).length := by
    refine Keyed.size_le_length fun id hid => ?_
    rcases (h.inUse id).mp hid with hin | hstage | hin
    · exact List.mem_append_left _ hin
    · cases hstage
    · exact List.mem_append_right _ hin
  have hroom := h.room
  have hlt := window.toNat_lt
  simp only [Stage.counted, Stage.admitted, Bool.toNat_false, Bool.toNat_true] at hroom
  rw [List.length_append] at hsize
  omega

theorem Books.number (h : Books window sess unacked owed D T A C .number) (hT : T.length ≤ A + C)
    (hnew : sess.nextPacketID.1 ∉ D) {entry : InflightMsg}
    (hentry : entry.packetID = sess.nextPacketID.1) :
    Books window sess.nextPacketID.2 unacked owed D T A C (.track entry) where
  outboundWindow := h.outboundWindow
  seq := scanPacketID_seq sess.inUse 65535 sess.packetIDSeq
  distinct := by
    have hunacked : entry.packetID ∉ unacked := by
      intro hin
      have huse := (h.inUse entry.packetID).mpr (Or.inl hin)
      rw [hentry, h.free hT] at huse
      cases huse
    have hperm : (unacked ++ entry.packetID :: D).Perm (entry.packetID :: (unacked ++ D)) :=
      List.perm_middle
    refine hperm.nodup_iff.mpr ?_
    refine List.nodup_cons.mpr ⟨?_, h.distinct⟩
    rw [List.mem_append]
    rintro (hin | hin)
    · exact hunacked hin
    · exact hnew (hentry ▸ hin)
  inUse := h.inUse
  counter := h.counter
  room := h.room

theorem Books.track {entry : InflightMsg}
    (h : Books window sess unacked owed D T A C (.track entry)) :
    Books window (sess.addInflight entry) unacked owed D T A C (.count entry.packetID) where
  outboundWindow := h.outboundWindow
  seq := h.seq
  distinct := h.distinct
  inUse := fun id => by
    have huse := h.inUse id
    have hlookup := Keyed.lookup_insert sess.inflight entry id
    unfold Session.inUse Session.addInflight
    rw [hlookup]
    split_ifs with hid
    · simp [Stage.tracked, hid]
    · simp only [Stage.tracked, reduceCtorEq, false_or, Option.some.injEq] at huse ⊢
      rw [show (sess.inflight.lookup id).isSome = sess.inUse id from rfl, huse]
      simp [Ne.symm hid]
  counter := h.counter
  room := h.room

theorem Books.count {id : UInt16} (h : Books window sess unacked owed D T A C (.count id)) :
    Books window sess.incOutboundUnacked unacked owed D T A C (.write id) where
  outboundWindow := h.outboundWindow
  seq := h.seq
  distinct := h.distinct
  inUse := h.inUse
  counter := by
    have hcounter := h.counter
    simp only [Session.incOutboundUnacked, Stage.counted, Bool.toNat_false,
      Bool.toNat_true] at hcounter ⊢
    omega
  room := by
    have hroom := h.room
    simp only [Stage.counted, Stage.admitted, Bool.toNat_false, Bool.toNat_true] at hroom ⊢
    omega

theorem Books.write {id : UInt16} (h : Books window sess unacked owed D T A C (.write id)) :
    Books window sess (unacked ++ [id]) owed D T A C .returned where
  outboundWindow := h.outboundWindow
  seq := h.seq
  distinct := by
    have hdistinct := h.distinct
    simp only [Stage.drawn, Option.toList_some, Option.toList_none, List.nil_append,
      List.append_assoc] at hdistinct ⊢
    exact hdistinct
  inUse := fun id' => by
    rw [h.inUse, List.mem_append, List.mem_singleton]
    simp only [Stage.tracked, Option.some.injEq, reduceCtorEq, false_or]
    rw [eq_comm, or_assoc]
  counter := by
    have hcounter := h.counter
    simp only [Stage.counted, Bool.toNat_false, Bool.toNat_true, List.length_append,
      List.length_singleton] at hcounter ⊢
    omega
  room := by
    have hroom := h.room
    simp only [Stage.counted, Stage.admitted, Bool.toNat_false, Bool.toNat_true,
      List.length_append, List.length_singleton] at hroom ⊢
    omega

theorem Books.step {c : Call} (now : ℕ) (h : Books window sess unacked owed D T A C c.stage)
    (hT : T.length ≤ A + C)
    (hwindow : c.stage = .window → sess.canSendOutbound = true →
      sess.outboundUnacked + A < window.toNat)
    (hnumber : c.stage = .number → sess.nextPacketID.1 ∉ D) :
    Books window (c.step sess now).1 (c.stage.written unacked) owed D T A C (c.step sess now).2 := by
  obtain ⟨msg, retainedDelivery, stage⟩ := c
  cases stage with
  | lookup =>
    unfold Call.step
    simp only
    split_ifs
    · exact h.move ⟨rfl, rfl⟩ ⟨rfl, rfl⟩ ⟨rfl, rfl⟩ ⟨rfl, rfl⟩
    · exact h.move ⟨rfl, rfl⟩ ⟨rfl, rfl⟩ ⟨rfl, rfl⟩ ⟨rfl, rfl⟩
  | window =>
    unfold Call.step
    simp only
    split_ifs with hfull hqos
    · exact h.move ⟨rfl, rfl⟩ ⟨rfl, rfl⟩ ⟨rfl, rfl⟩ ⟨rfl, rfl⟩
    · refine h.begins (hwindow rfl ?_)
      simpa [hqos] using hfull
    · exact h.move ⟨rfl, rfl⟩ ⟨rfl, rfl⟩ ⟨rfl, rfl⟩ ⟨rfl, rfl⟩
  | buffer =>
    exact (h.move ⟨rfl, rfl⟩ ⟨rfl, rfl⟩ ⟨rfl, rfl⟩ ⟨rfl, rfl⟩).congr
      (sameBooks_bufferOutbound sess msg)
  | number => exact h.number hT (hnumber rfl) rfl
  | track entry => exact h.track
  | count id => exact h.count
  | write id => exact h.write
  | returned => exact h

end Books

/-! ## Every step keeps them -/

section Steps

variable {window : UInt16} {st : State}

section

variable (h : Accounted window st)

include h

theorem Accounted.call {i now : ℕ} {c : Call}
    (hc : st.calls[i]? = some c) (hok : Reserved st (.call i now)) :
    Accounted window { st with
      sess := (c.step st.sess now).1
      calls := st.calls.set i { c with stage := (c.step st.sess now).2 }
      unacked := c.stage.written st.unacked } := by
  obtain ⟨before, after, hcalls, hset⟩ := exists_split_of_getElem? hc
  have hstep : c.stage.Reserved st := hok c hc
  refine (accounted_iff_books (hset _)).mpr (((accounted_iff_books hcalls).mp h).step now
    (length_tracked_le _) ?_ ?_)
  · intro hstage hopen
    obtain ⟨msg, retainedDelivery, stage⟩ := c
    cases hstage
    have hroom := hstep hopen
    rw [hcalls, h.outboundWindow] at hroom
    simpa [Stage.admitted] using hroom
  · intro hstage hin
    obtain ⟨msg, retainedDelivery, stage⟩ := c
    cases hstage
    obtain ⟨c', hc', hdrawn⟩ := List.mem_filterMap.mp hin
    refine hstep c' ?_ hdrawn
    rw [hcalls]
    rcases List.mem_append.mp hc' with hmem | hmem
    · exact List.mem_append_left _ hmem
    · exact List.mem_append_right _ (List.mem_cons_of_mem _ hmem)

theorem Accounted.spawn {sess : Session} (hs : SameBooks st.sess sess)
    (msg : OutboundMsg) (retainedDelivery : Bool) {reader : Reader}
    (hreader : reader.owed = st.reader.owed) :
    Accounted window { st with
      sess := sess, calls := st.calls ++ [⟨msg, retainedDelivery, .lookup⟩], reader := reader } := by
  have hcalls : st.calls ++ [⟨msg, retainedDelivery, .lookup⟩] =
      st.calls ++ ⟨msg, retainedDelivery, .lookup⟩ :: [] := rfl
  refine (accounted_iff_books hcalls).mpr ?_
  rw [List.append_nil]
  refine Books.congr ?_ hs
  exact ⟨h.outboundWindow, h.seq, h.distinct, fun id => by rw [h.inUse]; simp [Stage.tracked],
    by simpa [Stage.counted, hreader] using h.counter,
    by simpa [Stage.counted, Stage.admitted] using h.room⟩

theorem Accounted.ack {id : UInt16} (hreader : st.reader = .reading) (hok : Reserved st (.ack id)) :
    Accounted window { st with
      sess := (st.sess.removeInflight id).2
      unacked := st.unacked.erase id
      reader := .settled (st.sess.removeInflight id).1 } := by
  have hcounter := h.counter
  have hroom := h.room
  rw [hreader] at hcounter
  have hnodup : st.unacked.Nodup := (List.nodup_append.mp h.distinct).1
  by_cases huse : st.sess.inUse id = true
  · have htracked : id ∉ st.calls.filterMap (·.stage.tracked) := by
      intro hin
      obtain ⟨c, hc, hid⟩ := List.mem_filterMap.mp hin
      exact hok c hc hid
    have hin : id ∈ st.unacked := ((h.inUse id).mp huse).resolve_right htracked
    have hlen := List.length_erase_of_mem hin
    have hpos := List.length_pos_of_mem hin
    simp only [Session.removeInflight, if_pos huse]
    refine ⟨h.outboundWindow, h.seq, h.distinct.sublist ?_, fun id' => ?_, ?_, ?_⟩
    · exact List.Sublist.append_right List.erase_sublist _
    · have hlookup := Keyed.lookup_erase st.sess.inflight id' id
      have huse' := h.inUse id'
      unfold Session.inUse at huse' ⊢
      simp only [hlookup, hnodup.mem_erase_iff]
      split_ifs with heq
      · simp [heq, htracked]
      · rw [huse']
        simp [heq]
    · simp only [Reader.owed, Bool.toNat_true] at hcounter ⊢
      omega
    · simp only
      omega
  · have hout : id ∉ st.unacked := fun hin => huse ((h.inUse id).mpr (Or.inl hin))
    simp only [Session.removeInflight, if_neg huse, List.erase_of_not_mem hout]
    exact ⟨h.outboundWindow, h.seq, h.distinct, h.inUse, hcounter, hroom⟩

theorem Accounted.turn {reader : Reader}
    (hreader : reader.owed = st.reader.owed) : Accounted window { st with reader := reader } :=
  ⟨h.outboundWindow, h.seq, h.distinct, h.inUse, by rw [hreader]; exact h.counter, h.room⟩

theorem Accounted.readerStep {st' : State}
    (hs : readerStep st = some st') : Accounted window st' := by
  revert hs
  fun_cases Publishers.readerStep st <;> rintro ⟨⟩
  next removed hreader =>
    have hcounter := h.counter
    rw [hreader] at hcounter
    cases removed with
    | false => exact { h with counter := hcounter }
    | true =>
      refine { h with counter := ?_ }
      simp only [Reader.owed, Bool.toNat_true, if_true,
        Session.decOutboundUnacked] at hcounter ⊢
      omega
  iterate 2
    next hreader =>
      refine h.turn ?_
      rw [hreader]
      split_ifs <;> rfl
  next hreader _ => exact h.turn (by rw [hreader]; rfl)
  next hreader msg sess hpop =>
    exact h.spawn (sameBooks_popOutbound hpop) msg false (by rw [hreader]; rfl)
  next hreader _ _ _ => exact h.turn (by rw [hreader]; rfl)

/-- **Step lemma.** Every step that meets the condition keeps the books. -/
theorem Accounted.step {l : Label} {st' : State} (hok : Reserved st l)
    (hs : step st l = some st') : Accounted window st' := by
  cases l with
  | deliver msg retainedDelivery =>
    cases hs
    exact h.spawn ⟨rfl, rfl, rfl, fun _ => rfl⟩ msg retainedDelivery rfl
  | call i now =>
    simp only [Publishers.step] at hs
    cases hc : st.calls[i]? with
    | none =>
      rw [hc] at hs
      cases hs
    | some c =>
      rw [hc] at hs
      cases hs
      exact h.call hc hok
  | ack id =>
    simp only [Publishers.step] at hs
    split at hs
    next hreader =>
      cases hs
      exact h.ack hreader hok
    · cases hs
  | pubRec id =>
    simp only [Publishers.step] at hs
    split at hs
    · cases hs
      have hsame := sameBooks_markInflightPubRel st.sess id
      exact ⟨hsame.outboundWindow.trans h.outboundWindow,
        by rw [hsame.packetIDSeq]; exact h.seq, h.distinct,
        fun id' => by rw [hsame.inUse, h.inUse], hsame.outboundUnacked.trans h.counter, h.room⟩
    · cases hs
  | reader => exact h.readerStep hs

end

end Steps

theorem accounted_init {s : Session} (hexact : s.Exact)
    (hfit : s.inflight.size ≤ s.outboundWindow.toNat) : Accounted s.outboundWindow (init s) where
  outboundWindow := rfl
  seq := hexact.seq
  distinct := by
    simp only [init, List.filterMap_nil, List.append_nil]
    exact s.inflight.table.keys_nodup
  inUse := fun id => by
    simp only [init, List.filterMap_nil, List.not_mem_nil, or_false]
    exact (s.inflight.mem_keys_iff id).symm
  counter := hexact.unacked
  room := hfit

/-- **In every run whose window checks find room for the calls already admitted,
whose identifiers are not drawn while another call holds them, and whose
acknowledgements name packets already written, the packets written and
unacknowledged never exceed the window and no two of them share an identifier**,
whatever the number of publishers. -/
theorem withinWindow_of_reserved (s : Session) (hexact : s.Exact)
    (hfit : s.inflight.size ≤ s.outboundWindow.toNat) (ls : List Label) (st : State)
    (hok : Along step Reserved (init s) ls) (hrun : exec step (init s) ls = some st) :
    WithinWindow s.outboundWindow st := by
  have hbooks : Accounted s.outboundWindow st :=
    exec_invariant (Accounted s.outboundWindow) (fun _ _ _ h hok hs => h.step hok hs)
      (accounted_init hexact hfit) hok hrun
  refine ⟨?_, (List.nodup_append.mp hbooks.distinct).1⟩
  have hroom := hbooks.room
  omega

def narrow : Session := { clientID := ascii "c", outboundWindow := 1 }

/-- The steps of the i-th call that find the window open, up to the write. -/
def whole (i : ℕ) : List Label := List.replicate 6 (.call i 0)

/-- Two publishers check the window, both find it open, and both send. -/
def raced : List Label :=
  [.deliver qos1Message false, .deliver qos1Message false, .call 0 0, .call 0 0, .call 1 0,
    .call 1 0, .call 0 0, .call 0 0, .call 0 0, .call 0 0, .call 1 0, .call 1 0, .call 1 0,
    .call 1 0]

/-- Two packets are on the wire, unacknowledged, in a window of one. -/
theorem raced_exceeds_window :
    ∃ st, exec step (init narrow) raced = some st ∧ narrow.outboundWindow = 1 ∧
      st.unacked = [1, 2] ∧ ¬ WithinWindow narrow.outboundWindow st := by
  refine exec_reaches (by decide +kernel) fun st hst _ => ?_
  have hunacked : st.unacked = [1, 2] := of_exec hst (by decide +kernel)
  refine ⟨hunacked, fun h => ?_⟩
  have hlen := h.1
  rw [hunacked] at hlen
  exact absurd hlen (by decide)

/-- The second publisher comes after the first has sent: it buffers, and the
acknowledgement flushes its message. -/
def taken : List Label :=
  .deliver qos1Message false :: whole 0 ++
    [.deliver qos1Message false, .call 1 0, .call 1 0, .call 1 0, .ack 1, .reader, .reader,
      .reader, .reader] ++ whole 2

theorem taken_stays_within_window :
    ∃ st, exec step (init narrow) taken = some st ∧ st.unacked = [2] ∧
      WithinWindow narrow.outboundWindow st :=
  exec_reaches (by decide +kernel) fun st hst _ =>
    withinWindow_of_reserved narrow ⟨rfl, by decide⟩ (Nat.zero_le _) taken st (by decide +kernel) hst

end SharkMqtt.Broker.Publishers
