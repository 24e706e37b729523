import SharkMqtt.Broker.Teardown
import SharkMqtt.Broker.Window

/-!
# The flow-control buffer

`doDeliver` puts a QoS 1 or 2 message into the session's buffer when the outbound window
is full, and `flushBufferedOutbound` takes it out again once the window opens. A message
should then wait only while the window is full, and nothing sent later should get past
it.

The window opens in five ways: PUBACK, PUBCOMP, a refusing PUBREC, the give-up of a
delivery by the retry loop (before MQTT 5.0), a reconnect that resumes the session in memory
with a larger Receive Maximum. Only the first three flush. And the operations are not atomic:
the check of the window and the push are two sections under the lock of the session, and a
flush between them finds nothing.

One step here is one such section, and any number of calls may be under way. Deliveries
are numbered in the order in which they begin; `buffered` are the numbers of what is in
the buffer, `sent` those of what was sent with QoS 1 or 2. `waits_only_while_full` is about
the runs in which the operations follow each other and neither of the two other ways
opens the window while something is buffered.
-/

namespace SharkMqtt.Broker.FlowBuffer

open Protocol Lib
open Teardown (Progress deliverStep)

/-! ## The machine -/

inductive Call where
  /-- `doDeliver`, the delivery numbered `n`. -/
  | delivering (n : ℕ) (msg : OutboundMsg) (next : Progress)
  /-- `doRetry` has given a delivery up, and calls back. -/
  | givingUp (id : UInt16)
  /-- An entry was looked for; an acknowledgement flushes after it has counted, a give-up
  does not. -/
  | settled (removed : Bool) (flushes : Bool)
  /-- `flushBufferedOutbound`: the length, the window, the pop, the delivery. -/
  | flushing
  | flushWindow
  | flushPop
  | redelivering (n : ℕ) (msg : OutboundMsg) (next : Progress)

structure Flow where
  sess : Session
  next : ℕ := 0
  buffered : List ℕ := []
  sent : List ℕ := []

structure State where
  flow : Flow
  calls : List Call := []

inductive Label where
  | deliver (msg : OutboundMsg)
  /-- PUBACK, PUBCOMP or a refusing PUBREC. -/
  | acknowledge (id : UInt16)
  /-- A PUBREC that accepts. -/
  | pubRec (id : UInt16)
  | giveUp (id : UInt16)
  /-- A CONNECT that finds the session in memory. -/
  | resume (pkt : ConnectPacket)
  /-- The next step of the call at `i`; `now` is what it reads as the time. -/
  | advance (i : ℕ) (now : ℕ)

/-- The numbers after a `doDeliver` step on the delivery `n`. -/
def Flow.delivered (f : Flow) (n : ℕ) (msg : OutboundMsg) (now : ℕ) (p : Progress) : Flow :=
  { f with
    sess := (deliverStep f.sess true msg now p).1
    buffered :=
      match p with
      | .buffer => if (f.sess.bufferOutbound msg).1 then f.buffered ++ [n] else f.buffered
      | _ => f.buffered
    sent :=
      match p with
      | .count => f.sent ++ [n]
      | _ => f.sent }

/-- A step of a call, and the call afterwards; `none` when it returns. -/
def Call.advance (f : Flow) (now : ℕ) : Call → Flow × Option Call
  | .delivering n msg p =>
    (f.delivered n msg now p, (deliverStep f.sess true msg now p).2.map (.delivering n msg))
  | .givingUp id =>
    ({ f with sess := (f.sess.removeInflight id).2 },
      some (.settled (f.sess.removeInflight id).1 false))
  | .settled removed flushes =>
    ({ f with sess := if removed then f.sess.decOutboundUnacked else f.sess },
      if flushes then some .flushing else none)
  | .flushing => (f, if f.sess.outboundQueue = [] then none else some .flushWindow)
  | .flushWindow => (f, if f.sess.canSendOutbound then some .flushPop else none)
  | .flushPop =>
    match f.sess.popOutbound, f.buffered with
    | some (msg, sess), n :: rest =>
      ({ f with sess := sess, buffered := rest }, some (.redelivering n msg .lookup))
    | _, _ => (f, none)
  | .redelivering n msg p =>
    (f.delivered n msg now p,
      some (((deliverStep f.sess true msg now p).2.map (.redelivering n msg)).getD .flushing))

/-- The session of a CONNECT that finds it in memory. -/
def resumeSession (opts : Options) (s : Session) (pkt : ConnectPacket) : Session :=
  { s with
    protocolVer := pkt.protocolVersion
    expiryInterval := negotiatedExpiry opts pkt
    outboundWindow := negotiatedWindow opts pkt }

def step (opts : Options) (st : State) : Label → Option State
  | .deliver msg =>
    some
      { flow := { st.flow with next := st.flow.next + 1 }
        calls := st.calls ++ [.delivering st.flow.next msg .lookup] }
  | .acknowledge id =>
    some
      { flow := { st.flow with sess := (st.flow.sess.removeInflight id).2 }
        calls := st.calls ++ [.settled (st.flow.sess.removeInflight id).1 true] }
  | .pubRec id =>
    some { st with flow := { st.flow with sess := st.flow.sess.markInflightPubRel id } }
  | .giveUp id =>
    if retransmits st.flow.sess.protocolVer then
      some { st with calls := st.calls ++ [.givingUp id] }
    else none
  | .resume pkt =>
    if pkt.flags.cleanSession then none
    else some { st with flow := { st.flow with sess := resumeSession opts st.flow.sess pkt } }
  | .advance i now =>
    match st.calls[i]? with
    | none => none
    | some call =>
      let r := call.advance st.flow now
      some
        { flow := r.1
          calls :=
            match r.2 with
            | none => st.calls.eraseIdx i
            | some call => st.calls.set i call }

/-- A session that has just been created or restored has nothing in its buffer. -/
def init (sess : Session) : State := { flow := { sess := { sess with outboundQueue := [] } } }

variable {s : Session}

/-- The resumed session is the one `HandleConnection` goes on with. -/
theorem connect_eq_resumeSession {opts : Options} {c : Client} {pkt : ConnectPacket}
    (hs : c.session = some s) (hresume : pkt.flags.cleanSession = false) :
    (connect opts c pkt).session = some (resumeSession opts s pkt) := by
  unfold connect resumed
  rw [hresume, hs]
  rfl

/-! ## The condition -/

/-- An operation begins when no other is under way, and neither a give-up nor a resumption
opens the window while something is in the buffer. -/
def Orderly (opts : Options) (st : State) : Label → Prop
  | .advance _ _ => True
  | .giveUp id => st.calls = [] ∧ (st.flow.sess.inUse id = true → st.flow.sess.outboundQueue = [])
  | .resume pkt =>
    st.calls = [] ∧ (st.flow.sess.outboundQueue ≠ [] →
      (negotiatedWindow opts pkt).toNat ≤ st.flow.sess.outboundUnacked)
  | .deliver _ | .acknowledge _ | .pubRec _ => st.calls = []

instance (opts : Options) (st : State) (l : Label) : Decidable (Orderly opts st l) := by
  cases l <;> dsimp only [Orderly] <;> infer_instance

/-! ## The invariant -/

/-- Something waits only while the window is full. -/
def Waits (s : Session) : Prop := s.outboundQueue ≠ [] → s.canSendOutbound = false

/-- The deliveries in the order in which they were or will be sent: `popped` has just
been taken from the buffer, `started` is a delivery that has not got there. -/
def Flow.numbers (f : Flow) (popped started : List ℕ) : List ℕ :=
  f.sent ++ popped ++ f.buffered ++ started

structure Ordered (f : Flow) (popped started : List ℕ) : Prop where
  sorted : (f.numbers popped started).Pairwise (· < ·)
  below : ∀ n ∈ f.numbers popped started, n < f.next
  parallel : f.buffered.length = f.sess.outboundQueue.length

variable {started popped : List ℕ}

variable {f : Flow}

theorem Ordered.of_sublist {f' : Flow} {popped' started' : List ℕ} (h : Ordered f popped started)
    (hsub : (f'.numbers popped' started').Sublist (f.numbers popped started))
    (hnext : f'.next = f.next) (hparallel : f'.buffered.length = f'.sess.outboundQueue.length) :
    Ordered f' popped' started' where
  sorted := h.sorted.sublist hsub
  below := by
    intro n hn
    rw [hnext]
    exact h.below n (hsub.subset hn)
  parallel := hparallel

/-- Only the session changes, and not its buffer. -/
theorem Ordered.session {f : Flow} (h : Ordered f popped started) {s : Session}
    (hs : s.outboundQueue = f.sess.outboundQueue) : Ordered { f with sess := s } popped started :=
  ⟨h.sorted, h.below, by rw [h.parallel, ← hs]⟩

theorem Ordered.buffered_eq_nil (h : Ordered f popped started) (hq : f.sess.outboundQueue = []) :
    f.buffered = [] := by
  apply List.eq_nil_of_length_eq_zero
  rw [h.parallel, hq]
  rfl

/-- What is known in the middle of the only call. -/
def Call.Mid (f : Flow) : Call → Prop
  | .delivering n _ .lookup | .delivering n _ .window => Ordered f [] [n] ∧ Waits f.sess
  | .delivering n _ .buffer => Ordered f [] [n] ∧ f.sess.canSendOutbound = false
  | .delivering n _ _ => Ordered f [] [n] ∧ f.sess.outboundQueue = []
  | .givingUp id =>
    (Ordered f [] [] ∧ Waits f.sess) ∧ (f.sess.inUse id = true → f.sess.outboundQueue = [])
  | .settled _ true | .flushing | .flushWindow => Ordered f [] []
  | .settled true false => Ordered f [] [] ∧ f.sess.outboundQueue = []
  | .settled false false => Ordered f [] [] ∧ Waits f.sess
  | .flushPop => Ordered f [] [] ∧ f.sess.canSendOutbound = true
  | .redelivering n _ .lookup | .redelivering n _ .window =>
    Ordered f [n] [] ∧ f.sess.canSendOutbound = true
  | .redelivering _ _ .buffer => False
  | .redelivering n _ _ => Ordered f [n] []

def Rest (f : Flow) : Prop := Ordered f [] [] ∧ Waits f.sess

def Inv (st : State) : Prop :=
  (st.calls = [] ∧ Rest st.flow) ∨ ∃ call, st.calls = [call] ∧ call.Mid st.flow

/-- After a step the call is at its next point, or has returned. -/
def Reaches (r : Flow × Option Call) : Prop :=
  match r.2 with
  | none => Rest r.1
  | some call => call.Mid r.1

section Calls

variable {f : Flow} {now n : ℕ} {msg : OutboundMsg}

/-- The delivery is dropped, or goes out with QoS 0. -/
theorem Ordered.drop {popped started : List ℕ} (h : Ordered f popped started) :
    Ordered f [] [] := by
  apply h.of_sublist _ rfl h.parallel
  unfold Flow.numbers
  simp only [List.append_nil]
  refine List.Sublist.trans ?_ (List.sublist_append_left _ started)
  exact (List.sublist_append_left f.sent popped).append (List.Sublist.refl f.buffered)

theorem delivered_lookup (f : Flow) (n : ℕ) (msg : OutboundMsg) (now : ℕ) :
    f.delivered n msg now .lookup = f := by
  unfold Flow.delivered deliverStep
  simp only
  split_ifs <;> rfl

theorem delivered_window (f : Flow) (n : ℕ) (msg : OutboundMsg) (now : ℕ) :
    f.delivered n msg now .window = f := by
  unfold Flow.delivered deliverStep
  split_ifs <;> rfl

theorem Ordered.buffer (h : Ordered f [] [n]) : Ordered (f.delivered n msg now .buffer) [] [] := by
  unfold Flow.delivered deliverStep Session.bufferOutbound
  simp only
  split_ifs with hfull htrue htrue
  · cases htrue
  · exact h.drop
  · refine h.of_sublist ?_ rfl ?_
    · simp [Flow.numbers]
    · simp [h.parallel]
  · exact absurd rfl htrue

theorem Ordered.send (h : Ordered f [] [n]) (hq : f.sess.outboundQueue = []) :
    Ordered { f with sess := f.sess.incOutboundUnacked, sent := f.sent ++ [n] } [] [] := by
  refine h.of_sublist ?_ rfl h.parallel
  simp [Flow.numbers, h.buffered_eq_nil hq]

theorem waits_of_full (h : s.canSendOutbound = false) : Waits s := fun _ => h

theorem waits_of_empty (h : s.outboundQueue = []) : Waits s := fun hne => absurd h hne

theorem reaches_delivering {p : Progress} (h : (Call.delivering n msg p).Mid f) :
    Reaches ((Call.delivering n msg p).advance f now) := by
  cases p with
  | lookup =>
    simp only [Reaches, Call.advance]
    rw [delivered_lookup]
    cases hnext : (deliverStep f.sess true msg now .lookup).2 with
    | none => exact ⟨h.1.drop, h.2⟩
    | some p =>
      unfold deliverStep at hnext
      simp only at hnext
      split_ifs at hnext
      cases hnext
      exact h
  | window =>
    simp only [Reaches, Call.advance]
    rw [delivered_window]
    cases hnext : (deliverStep f.sess true msg now .window).2 with
    | none => exact ⟨h.1.drop, h.2⟩
    | some p =>
      unfold deliverStep at hnext
      simp only at hnext
      split_ifs at hnext with hfull hqos
      · cases hnext
        simp only [Bool.and_eq_true, Bool.not_eq_true'] at hfull
        exact ⟨h.1, hfull.2⟩
      · -- the window is open, so nothing waits
        cases hnext
        refine ⟨h.1, ?_⟩
        by_contra hne
        exact hfull (by simp [hqos, h.2 hne])
  | buffer =>
    refine ⟨h.1.buffer, ?_⟩
    apply waits_of_full
    have hopen : (f.delivered n msg now .buffer).sess.canSendOutbound =
        f.sess.canSendOutbound := by
      show (f.sess.bufferOutbound msg).2.canSendOutbound = _
      unfold Session.bufferOutbound
      split_ifs <;> rfl
    exact hopen.trans h.2
  | number | track => exact ⟨h.1.session rfl, h.2⟩
  | count => exact ⟨h.1.send h.2, waits_of_empty h.2⟩

theorem reaches_redelivering {p : Progress} (h : (Call.redelivering n msg p).Mid f) :
    Reaches ((Call.redelivering n msg p).advance f now) := by
  cases p with
  | lookup =>
    simp only [Reaches, Call.advance]
    rw [delivered_lookup]
    cases hnext : (deliverStep f.sess true msg now .lookup).2 with
    | none => exact h.1.drop
    | some p =>
      unfold deliverStep at hnext
      simp only at hnext
      split_ifs at hnext
      cases hnext
      exact h
  | window =>
    simp only [Reaches, Call.advance]
    rw [delivered_window]
    cases hnext : (deliverStep f.sess true msg now .window).2 with
    | none => exact h.1.drop
    | some p =>
      unfold deliverStep at hnext
      simp only [h.2, Bool.not_true, Bool.and_false, Bool.false_eq_true, if_false] at hnext
      split_ifs at hnext
      cases hnext
      exact h.1
  | buffer => exact absurd h not_false
  | number | track =>
    have hmid : Ordered f [n] [] := h
    exact hmid.session rfl
  | count =>
    have hmid : Ordered f [n] [] := h
    refine hmid.of_sublist ?_ rfl hmid.parallel
    show (f.sent ++ [n] ++ [] ++ f.buffered ++ []).Sublist _
    simp [Flow.numbers]

theorem reaches_flushPop (h : Call.flushPop.Mid f) : Reaches (Call.flushPop.advance f now) := by
  simp only [Reaches, Call.advance, Session.popOutbound]
  have hparallel := h.1.parallel
  cases hq : f.sess.outboundQueue with
  | nil => exact ⟨h.1, waits_of_empty hq⟩
  | cons msg rest =>
    rw [hq] at hparallel
    cases hb : f.buffered with
    | nil =>
      rw [hb] at hparallel
      cases hparallel
    | cons n later =>
      rw [hb, List.length_cons, List.length_cons, Nat.add_right_cancel_iff] at hparallel
      refine ⟨h.1.of_sublist ?_ rfl hparallel, h.2⟩
      simp [Flow.numbers, hb]

theorem outboundQueue_removeInflight (s : Session) (id : UInt16) :
    (s.removeInflight id).2.outboundQueue = s.outboundQueue := by
  unfold Session.removeInflight
  split_ifs <;> rfl

theorem Rest.giveUp (h : Rest f) {id : UInt16}
    (hempty : f.sess.inUse id = true → f.sess.outboundQueue = []) :
    (Call.settled (f.sess.removeInflight id).1 false).Mid
      { f with sess := (f.sess.removeInflight id).2 } := by
  have hordered := h.1.session (outboundQueue_removeInflight f.sess id)
  by_cases huse : f.sess.inUse id = true
  · have hremoved : (f.sess.removeInflight id).1 = true := by
      unfold Session.removeInflight
      rw [if_pos huse]
    rw [hremoved]
    exact ⟨hordered, (outboundQueue_removeInflight f.sess id).trans (hempty huse)⟩
  · have hsame : f.sess.removeInflight id = (false, f.sess) := by
      unfold Session.removeInflight
      rw [if_neg huse]
    rw [hsame]
    exact ⟨h.1, h.2⟩

/-- **Every step of the only call keeps what is known.** -/
theorem reaches_advance {call : Call} (h : call.Mid f) : Reaches (call.advance f now) := by
  cases call with
  | delivering n msg p => exact reaches_delivering h
  | redelivering n msg p => exact reaches_redelivering h
  | flushPop => exact reaches_flushPop h
  | givingUp id => exact Rest.giveUp h.1 h.2
  | flushing =>
    have hmid : Ordered f [] [] := h
    simp only [Reaches, Call.advance]
    split_ifs with hq
    · exact ⟨hmid, waits_of_empty hq⟩
    · exact hmid
  | flushWindow =>
    have hmid : Ordered f [] [] := h
    simp only [Reaches, Call.advance]
    split_ifs with hopen
    · exact ⟨hmid, hopen⟩
    · exact ⟨hmid, waits_of_full (eq_false_of_ne_true hopen)⟩
  | settled removed flushes =>
    have hqueue : (if removed then f.sess.decOutboundUnacked else f.sess).outboundQueue =
        f.sess.outboundQueue := by
      split_ifs <;> rfl
    cases flushes with
    | true =>
      have hmid : Ordered f [] [] := by cases removed <;> exact h
      exact hmid.session hqueue
    | false =>
      cases removed with
      | true => exact ⟨h.1.session rfl, waits_of_empty h.2⟩
      | false => exact h

end Calls

/-! ## Runs -/

theorem Rest.begin {f : Flow} (h : Rest f) (msg : OutboundMsg) :
    (Call.delivering f.next msg .lookup).Mid { f with next := f.next + 1 } := by
  refine ⟨⟨?_, ?_, h.1.parallel⟩, h.2⟩
  · unfold Flow.numbers
    rw [List.pairwise_append]
    refine ⟨by simpa [Flow.numbers] using h.1.sorted, List.pairwise_singleton _ _, ?_⟩
    intro a ha b hb
    rw [List.mem_singleton.mp hb]
    exact h.1.below a (by simpa [Flow.numbers] using ha)
  · intro m hm
    have hcases : m ∈ f.numbers [] [] ∨ m = f.next := by simpa [Flow.numbers, or_assoc] using hm
    rcases hcases with hold | rfl
    · exact Nat.lt_succ_of_lt (h.1.below m hold)
    · exact Nat.lt_succ_self _

theorem Rest.acknowledge {f : Flow} (h : Rest f) (id : UInt16) :
    (Call.settled (f.sess.removeInflight id).1 true).Mid
      { f with sess := (f.sess.removeInflight id).2 } := by
  have hordered := h.1.session (outboundQueue_removeInflight f.sess id)
  cases (f.sess.removeInflight id).1 <;> exact hordered

theorem Rest.pubRec (h : Rest f) (id : UInt16) :
    Rest { f with sess := f.sess.markInflightPubRel id } := by
  obtain ⟨table, heq, -⟩ := f.sess.markInflightPubRel_eq id
  rw [heq]
  exact ⟨h.1.session rfl, h.2⟩

theorem Rest.resume {f : Flow} (h : Rest f) {opts : Options} {pkt : ConnectPacket}
    (hfull : f.sess.outboundQueue ≠ [] →
      (negotiatedWindow opts pkt).toNat ≤ f.sess.outboundUnacked) :
    Rest { f with sess := resumeSession opts f.sess pkt } := by
  refine ⟨h.1.session rfl, ?_⟩
  intro hne
  exact decide_eq_false (not_lt.mpr (hfull hne))

theorem inv_step {opts : Options} {st st' : State} {l : Label} (h : Inv st)
    (hok : Orderly opts st l) (hs : step opts st l = some st') : Inv st' := by
  -- an operation begins in a state in which no call is under way
  have hrest : st.calls = [] → Rest st.flow := by
    intro hnil
    rcases h with ⟨-, hrest⟩ | ⟨call, hcall, -⟩
    · exact hrest
    · rw [hnil] at hcall
      cases hcall
  cases l with
  | deliver msg =>
    cases hs
    exact Or.inr ⟨_, by rw [show st.calls = [] from hok]; rfl, (hrest hok).begin msg⟩
  | acknowledge id =>
    cases hs
    exact Or.inr ⟨_, by rw [show st.calls = [] from hok]; rfl, (hrest hok).acknowledge id⟩
  | pubRec id =>
    cases hs
    exact Or.inl ⟨hok, (hrest hok).pubRec id⟩
  | giveUp id =>
    simp only [step] at hs
    split_ifs at hs
    cases hs
    exact Or.inr ⟨.givingUp id, by rw [hok.1]; rfl, hrest hok.1, hok.2⟩
  | resume pkt =>
    simp only [step] at hs
    split_ifs at hs
    cases hs
    exact Or.inl ⟨hok.1, (hrest hok.1).resume hok.2⟩
  | advance i now =>
    rcases h with ⟨hnil, -⟩ | ⟨call, hcall, hmid⟩
    · simp only [step, hnil, List.getElem?_nil] at hs
      cases hs
    · cases i with
      | succ i =>
        simp only [step, hcall, List.getElem?_cons_succ, List.getElem?_nil] at hs
        cases hs
      | zero =>
        have hreaches : Reaches (call.advance st.flow now) := reaches_advance hmid
        simp only [step, hcall, List.getElem?_cons_zero] at hs
        unfold Reaches at hreaches
        cases hnext : (call.advance st.flow now).2 with
        | none =>
          simp only [hnext] at hs hreaches
          cases hs
          exact Or.inl ⟨rfl, hreaches⟩
        | some call' =>
          simp only [hnext] at hs hreaches
          cases hs
          exact Or.inr ⟨call', rfl, hreaches⟩

/-- In every orderly run, whenever no operation is under way: something waits in the
buffer only while the window is full; deliveries were sent in the order in which they
began, and all that were sent began before all that wait. -/
theorem waits_only_while_full (opts : Options) (sess : Session) (ls : List Label) (st : State)
    (hok : Along (step opts) (Orderly opts) (init sess) ls)
    (hrun : exec (step opts) (init sess) ls = some st) (hquiet : st.calls = []) :
    (st.flow.sess.outboundQueue ≠ [] → st.flow.sess.canSendOutbound = false) ∧
      (st.flow.sent ++ st.flow.buffered).Pairwise (· < ·) ∧
      st.flow.buffered.length = st.flow.sess.outboundQueue.length := by
  have hinit : Inv (init sess) :=
    Or.inl ⟨rfl, ⟨List.Pairwise.nil, by simp [Flow.numbers, init], rfl⟩, waits_of_empty rfl⟩
  rcases exec_invariant Inv (fun _ _ _ h hok hs => inv_step h hok hs) hinit hok hrun with
    ⟨-, hordered, hwaits⟩ | ⟨call, hcall, -⟩
  · refine ⟨hwaits, ?_, hordered.parallel⟩
    simpa [Flow.numbers] using hordered.sorted
  · rw [hquiet] at hcall
    cases hcall

def oneSlot : Session := { clientID := ascii "c", protocolVer := version50, outboundWindow := 1 }

def deliverIn (steps : ℕ) : List Label := .deliver qos1Message :: List.replicate steps (.advance 0 0)

def acknowledgedRun : List Label :=
  deliverIn 5 ++ deliverIn 3 ++ deliverIn 3 ++ .acknowledge 1 :: List.replicate 11 (.advance 0 0)

theorem waits_only_while_full_acknowledgedRun :
    ∃ st, exec (step brokerDefaults) (init oneSlot) acknowledgedRun = some st ∧
      st.flow.sent = [0, 1] ∧ st.flow.buffered = [2] ∧ st.flow.sess.canSendOutbound = false := by
  refine exec_reaches (by decide +kernel) fun st hst _ => ?_
  have hbuffered : st.flow.buffered = [2] := of_exec hst (by decide +kernel)
  have hwaits := waits_only_while_full brokerDefaults oneSlot acknowledgedRun st
    (by decide +kernel) hst (List.isEmpty_iff.mp (of_exec hst (by decide +kernel)))
  refine ⟨hbuffered, hwaits.1 fun hempty => ?_⟩
  rw [hempty, hbuffered] at hwaits
  cases hwaits.2.2

/-- The retry loop handles its deliveries. -/
def oneSlot311 : Session := { oneSlot with protocolVer := version311 }

def givenUpRun : List Label := deliverIn 5 ++ deliverIn 3 ++ [.giveUp 1, .advance 0 0, .advance 0 0]

def receiveTwo : ConnectPacket :=
  { receiveOne with properties := some { receiveMaximum := some 2 } }

def widenedRun : List Label := deliverIn 5 ++ deliverIn 3 ++ [.resume receiveTwo]

/-- The acknowledgement comes between the check of the window and the push. -/
def overlappedRun : List Label :=
  deliverIn 5 ++ deliverIn 2 ++ [.acknowledge 1, .advance 1 0, .advance 1 0, .advance 0 0]

/-- No call is under way and the window is open, but the second delivery is still in the
buffer; the third is then sent before it. -/
theorem buffered_delivery_stuck :
    (∀ r ∈ [(oneSlot311, givenUpRun), (oneSlot, widenedRun), (oneSlot, overlappedRun)],
      (exec (step brokerDefaults) (init r.1) r.2).map
        (fun st => (st.calls.length, st.flow.buffered, st.flow.sess.canSendOutbound)) =
          some (0, [1], true)) ∧
      (exec (step brokerDefaults) (init oneSlot) (widenedRun ++ deliverIn 5)).map
        (fun st => (st.flow.sent, st.flow.buffered)) = some ([0, 2], [1]) := by
  decide +kernel

/-! ## Sent at most once -/

/-- The delivery that a call has in hand. -/
def Call.held : Call → List ℕ
  | .delivering n _ _ | .redelivering n _ _ => [n]
  | _ => []

/-- How often a delivery is found among what was sent, what waits, and what the calls hold. -/
def Flow.copies (f : Flow) (held : List ℕ) (m : ℕ) : ℕ :=
  f.sent.count m + f.buffered.count m + held.count m

/-- A step copies no delivery, and the numbers follow the buffer. -/
structure Hands (f : Flow) (held : List ℕ) (f' : Flow) (held' : List ℕ) : Prop where
  next : f'.next = f.next
  copies : ∀ m, f'.copies held' m ≤ f.copies held m
  parallel : f.buffered.length = f.sess.outboundQueue.length →
    f'.buffered.length = f'.sess.outboundQueue.length

theorem hands_delivered (f : Flow) (n : ℕ) (msg : OutboundMsg) (now : ℕ) (p : Progress) :
    Hands f [n] (f.delivered n msg now p)
      ((deliverStep f.sess true msg now p).2.elim [] fun _ => [n]) := by
  have hkeep : ∀ next : Option Progress, Hands f [n] f (next.elim [] fun _ => [n]) := fun next =>
    ⟨rfl, fun m => by cases next <;> simp [Flow.copies], id⟩
  cases p with
  | lookup => exact (delivered_lookup f n msg now).symm ▸ hkeep _
  | window => exact (delivered_window f n msg now).symm ▸ hkeep _
  | buffer =>
    by_cases hfull : f.sess.outboundQueue.length ≥ maxBufferedOutbound <;>
      refine ⟨rfl, fun m => ?_, ?_⟩ <;>
      simp [Flow.delivered, deliverStep, Flow.copies, Session.bufferOutbound, hfull, add_assoc]
  | number | track => exact ⟨rfl, fun m => le_rfl, id⟩
  | count =>
    refine ⟨rfl, fun m => ?_, id⟩
    simp [Flow.delivered, deliverStep, Flow.copies, add_right_comm]

theorem hands_advance (f : Flow) (now : ℕ) (call : Call) :
    Hands f call.held (call.advance f now).1 ((call.advance f now).2.elim [] Call.held) := by
  cases call with
  | delivering n msg p | redelivering n msg p =>
    have h := hands_delivered f n msg now p
    simp only [Call.advance]
    cases hnext : (deliverStep f.sess true msg now p).2 <;> rw [hnext] at h <;> exact h
  | givingUp id =>
    exact ⟨rfl, fun m => le_rfl,
      fun hp => hp.trans (congrArg _ (outboundQueue_removeInflight f.sess id).symm)⟩
  | settled removed flushes => cases removed <;> cases flushes <;> exact ⟨rfl, fun m => le_rfl, id⟩
  | flushing | flushWindow =>
    simp only [Call.advance]
    split_ifs <;> exact ⟨rfl, fun m => le_rfl, id⟩
  | flushPop =>
    simp only [Call.advance, Session.popOutbound]
    cases hqueue : f.sess.outboundQueue with
    | nil => exact ⟨rfl, fun m => le_rfl, id⟩
    | cons msg rest =>
      cases hbuffered : f.buffered with
      | nil => exact ⟨rfl, fun m => le_rfl, id⟩
      | cons n numbers =>
        refine ⟨rfl, fun m => ?_, fun h => ?_⟩
        · simp [Flow.copies, Call.held, hbuffered, List.count_cons, add_assoc]
        · simpa [hbuffered, hqueue] using h

/-- Each delivery is in one place at most, and those to come are in none. -/
structure Apart (st : State) : Prop where
  copies : ∀ m, st.flow.copies (st.calls.flatMap Call.held) m ≤ if m < st.flow.next then 1 else 0
  parallel : st.flow.buffered.length = st.flow.sess.outboundQueue.length

theorem Apart.hands {st st' : State} (h : Apart st) (hands : Hands st.flow
    (st.calls.flatMap Call.held) st'.flow (st'.calls.flatMap Call.held)) : Apart st' :=
  ⟨fun m => hands.next ▸ (hands.copies m).trans (h.copies m), hands.parallel h.parallel⟩

theorem Apart.step {opts : Options} {st st' : State} {l : Label} (h : Apart st)
    (hs : step opts st l = some st') : Apart st' := by
  cases l with
  | deliver msg =>
    cases hs
    refine ⟨fun m => ?_, h.parallel⟩
    have hm := h.copies m
    simp only [Flow.copies, List.flatMap_append, List.count_append, List.flatMap_singleton,
      Call.held, List.count_singleton, beq_iff_eq] at hm ⊢
    split_ifs at hm ⊢ <;> omega
  | acknowledge id =>
    cases hs
    refine h.hands ⟨rfl, fun m => ?_, fun hp => ?_⟩
    · simp [Flow.copies, Call.held]
    · exact hp.trans (congrArg _ (outboundQueue_removeInflight st.flow.sess id).symm)
  | giveUp id =>
    simp only [FlowBuffer.step] at hs
    split_ifs at hs
    cases hs
    exact h.hands ⟨rfl, fun m => by simp [Flow.copies, Call.held], fun hp => hp⟩
  | pubRec id =>
    cases hs
    obtain ⟨table, heq, -⟩ := st.flow.sess.markInflightPubRel_eq id
    rw [heq]
    exact h.hands ⟨rfl, fun m => le_rfl, fun hp => hp⟩
  | resume pkt =>
    simp only [FlowBuffer.step] at hs
    split_ifs at hs
    cases hs
    exact h.hands ⟨rfl, fun m => le_rfl, id⟩
  | advance i now =>
    simp only [FlowBuffer.step] at hs
    split at hs
    · cases hs
    next call hcall =>
      cases hs
      obtain ⟨hi, rfl⟩ := List.getElem?_eq_some_iff.mp hcall
      have hands := hands_advance st.flow now st.calls[i]
      refine h.hands ⟨hands.next, fun m => ?_, hands.parallel⟩
      -- the other calls hold what they held
      have hbefore := ((List.getElem_cons_eraseIdx_perm hi).flatMap_right Call.held).count_eq m
      have hle := hands.copies m
      rw [List.flatMap_cons, List.count_append] at hbefore
      cases hnext : (st.calls[i].advance st.flow now).2 with
      | none =>
        simp only [hnext, Flow.copies, Option.elim_none, List.count_nil] at hle ⊢
        omega
      | some call' =>
        have hafter := ((List.set_perm_cons_eraseIdx hi call').flatMap_right Call.held).count_eq m
        rw [List.flatMap_cons, List.count_append] at hafter
        simp only [hnext, Flow.copies, Option.elim_some] at hle ⊢
        omega

/-- **No delivery is sent twice, and none that was sent waits**, however the deliveries,
acknowledgements, give-ups and resumptions of a session interleave; each message in the buffer
belongs to a delivery of its own. -/
theorem sent_at_most_once (opts : Options) (sess : Session) (ls : List Label) (st : State)
    (hrun : exec (step opts) (init sess) ls = some st) :
    (st.flow.sent ++ st.flow.buffered).Nodup ∧
      st.flow.buffered.length = st.flow.sess.outboundQueue.length := by
  have h : Apart st := exec_preserves Apart (fun _ _ _ h hs => h.step hs)
    ⟨by simp [Flow.copies, init], rfl⟩ hrun
  refine ⟨List.nodup_iff_count_le_one.mpr fun m => ?_, h.parallel⟩
  have hm := h.copies m
  rw [List.count_append]
  simp only [Flow.copies] at hm
  split_ifs at hm <;> omega

theorem sent_at_most_once_overlappedRun :
    ∃ st, exec (step brokerDefaults) (init oneSlot) (overlappedRun ++ deliverIn 5) = some st ∧
      st.flow.sent = [0, 2] ∧ (st.flow.sent ++ st.flow.buffered).Nodup :=
  exec_reaches (by decide +kernel) fun st hst _ =>
    (sent_at_most_once brokerDefaults oneSlot (overlappedRun ++ deliverIn 5) st hst).1

end SharkMqtt.Broker.FlowBuffer
