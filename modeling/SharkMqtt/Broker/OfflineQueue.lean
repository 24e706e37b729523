import SharkMqtt.Broker.Process
import SharkMqtt.Lib.Processes

/-!
# The offline queue of a client

What is published for a client while it is away goes to the message store, and so does
what is still in its flow-control buffer when it leaves; `deliverQueuedMessages` takes it
out again when the client comes back. Beside the store the broker keeps `offlineCount`,
and `queueOfflineMessage` compares it with `maxOfflineQueue`.

One step here is one call of a store or one section under `offlineMu`, and any number of
calls may be under way. Nothing but the order of the steps ties the store to the count:
`persistBufferedOutbound` does not look at the limit, two publishers can both find room
for the last message, and a message can be drained before it is counted. With the
operations on the queue one at a time, and room for what a disconnect persists, the count
is the number stored and the bound holds (`counted_and_bounded`).

Messages are numbered as they are published; the numbers are ghosts, and so is `sent`.
The store is the one in memory, whose `ListMessages` ranges over a map: the order of the
list is part of the label.
-/

namespace SharkMqtt.Broker.OfflineQueue

open Protocol Lib
open Teardown (StoredMessage messageExpiresAt sessionExpired routedMsg)
open Process (offlineMessage bufferedMessage)

deriving instance DecidableEq for StoredMessage

/-! ## The machine -/

structure Entry where
  /-- The sequence number in `nextMessageID`. -/
  id : ℕ
  /-- The number of the publication. -/
  number : ℕ
  msg : StoredMessage
deriving DecidableEq

/-- A PUBLISH sent for the first time, and what was queued at that moment. -/
structure Sent where
  number : ℕ
  queued : List ℕ
deriving DecidableEq

structure Ledger where
  queue : List Entry := []
  offlineCount : ℕ := 0
  msgSeq : ℕ := 0

structure Account where
  client : Client := {}
  ledger : Ledger := {}
  published : ℕ := 0
  /-- The session that was taken out of the manager last. -/
  left : Option Session := none
  /-- The numbers of what is in the flow-control buffer. -/
  buffered : List ℕ := []
  sent : List Sent := []

/-- A call under way, by what it does next. -/
inductive Call where
  /-- `SaveMessage` for these: `queueOfflineMessage` past its checks, or
  `persistBufferedOutbound` -/
  | saving (msgs : List (ℕ × StoredMessage))
  /-- the count of the one just saved -/
  | counting (msgs : List (ℕ × StoredMessage))
  /-- `ClearMessages`; on a clean start `deliverQueuedMessages` follows -/
  | clearing (drains : Bool)
  | cleared (drains : Bool)
  /-- `ListMessages` -/
  | listing
  /-- the rounds of `deliverQueuedMessages` for these -/
  | draining (entries : List Entry)
  /-- the count of the one just deleted -/
  | deleted (entries : List Entry)

structure State where
  account : Account := {}
  calls : List Call := []

inductive Label where
  /-- `deliverToClient` for a message that matched -/
  | publish (source : Str) (pkt : PublishPacket) (now : ℕ)
  /-- a round of a flush -/
  | flush (now : ℕ)
  /-- an acknowledgement that ends a delivery, or a give-up -/
  | settle (id : UInt16)
  /-- a PUBREC that accepts -/
  | pubRec (id : UInt16)
  | subscribe (topic : TopicFilter)
  | unsubscribe (topic : Str)
  | connect (pkt : ConnectPacket)
  | disconnect (now : ℕ)
  /-- a round of `cleanupExpiredSessions` -/
  | sweep (now : ℕ)
  /-- the next step of the call at `i`; `order` is what `ListMessages` returns -/
  | advance (i : ℕ) (now : ℕ) (order : List Entry)

namespace Ledger

def save (g : Ledger) (m : ℕ × StoredMessage) : Ledger :=
  { g with queue := g.queue ++ [⟨g.msgSeq, m.1, m.2⟩], msgSeq := g.msgSeq + 1 }

def delete (g : Ledger) (e : Entry) : Ledger := { g with queue := g.queue.filter (·.id ≠ e.id) }

def clear (g : Ledger) : Ledger := { g with queue := [] }

/-- `offlineCount++`, and `adjustOfflineCount`, which goes no lower than 0 -/
def count (g : Ledger) (delta : ℤ) : Ledger :=
  { g with offlineCount := (g.offlineCount + delta).toNat }

def forget (g : Ledger) : Ledger := { g with offlineCount := 0 }

end Ledger

namespace Account

def deliver (a : Account) (sess : Session) (n : ℕ) (msg : OutboundMsg) (now : ℕ) : Account :=
  let r := sess.doDeliver msg false now
  let a := { a with client := { a.client with session := some r.1 } }
  match r.2 with
  | some _ => { a with sent := a.sent ++ [⟨n, a.ledger.queue.map Entry.number⟩] }
  | none =>
    if r.1.outboundQueue.length > sess.outboundQueue.length then
      { a with buffered := a.buffered ++ [n] }
    else a

/-- `doDeliver`, which looks for the session in the manager -/
def hand (a : Account) (n : ℕ) (msg : OutboundMsg) (now : ℕ) : Account :=
  match a.client.session with
  | none => a
  | some sess => a.deliver sess n msg now

def onSession (a : Account) (f : Session → Session) : Account :=
  { a with client := a.client.onSession f }

def onLedger (a : Account) (f : Ledger → Ledger) : Account := { a with ledger := f a.ledger }

end Account

def Call.advance (a : Account) (now : ℕ) (order : List Entry) :
    Call → Option (Account × Option Call)
  | .saving [] => some (a, none)
  | .saving (m :: rest) => some (a.onLedger (·.save m), some (.counting rest))
  | .counting rest => some (a.onLedger (·.count 1), some (.saving rest))
  | .clearing drains => some (a.onLedger (·.clear), some (.cleared drains))
  | .cleared drains => some (a.onLedger (·.forget), if drains then some .listing else none)
  | .listing => if order.Perm a.ledger.queue then some (a, some (.draining order)) else none
  | .draining [] => some (a, none)
  | .draining (e :: rest) =>
    -- the loop has its session, whether or not that is in the manager still
    match a.client.session <|> a.left with
    | none => none
    | some sess =>
      match Process.round sess e.msg now with
      | .drop => some (a.onLedger (·.delete e), some (.deleted rest))
      | .keep => some (a, some (.draining rest))
      | .deliver msg => some ((a.hand e.number msg now).onLedger (·.delete e), some (.deleted rest))
  | .deleted rest => some (a.onLedger (·.count (-1)), some (.draining rest))

/-- `queueOfflineMessage` up to the store: what is to be saved, if anything. -/
def admitted (opts : BrokerOptions) (a : Account) (pkt : PublishPacket) (now : ℕ) :
    Option StoredMessage :=
  if pkt.fixedHeader.qos = 0 then none
  else
    match a.client.stored with
    | none => none
    | some data =>
      if sessionExpired data now then none
      else if opts.maxOfflineQueue > 0 ∧ a.ledger.offlineCount ≥ opts.maxOfflineQueue then none
      else some (offlineMessage data pkt (messageExpiresAt pkt now))

namespace State

def call (st : State) (c : Call) : State := { st with calls := st.calls ++ [c] }

/-- `deliverToClient` for the publication with the next number. -/
def publish (opts : BrokerOptions) (st : State) (source : Str) (pkt : PublishPacket) (now : ℕ) :
    State :=
  let a := { st.account with published := st.account.published + 1 }
  let n := st.account.published
  match a.client.session with
  | none =>
    match admitted opts a pkt now with
    | none => { st with account := a }
    | some msg => State.call { st with account := a } (.saving [(n, msg)])
  | some sess =>
    match routedMsg ⟨pkt, source, opts.maxOfflineQueue⟩ sess now with
    | none => { st with account := a }
    | some msg => { st with account := a.deliver sess n msg now }

/-- `HandleConnection`: a session in memory keeps its buffer, any other one starts with
an empty one. -/
def connect (opts : BrokerOptions) (st : State) (pkt : ConnectPacket) : State :=
  let a := st.account
  let resumes := a.client.session.isSome && !pkt.flags.cleanSession
  State.call
    { st with
      account :=
        { a with
          client := Broker.connect opts.toOptions a.client pkt
          buffered := if resumes then a.buffered else [] } }
    (if pkt.flags.cleanSession then .clearing true else .listing)

def disconnect (st : State) (sess : Session) (now : ℕ) : State :=
  let a := st.account
  State.call
    { st with
      account :=
        { a with client := Broker.disconnect a.client now, left := some sess, buffered := [] } }
    (if sess.expiryInterval > 0 then
      .saving (sess.outboundQueue.mapIdx fun i msg => (a.buffered.getD i 0, bufferedMessage msg))
    else .clearing false)

/-- A session that has expired takes its queue with it. -/
def sweep (st : State) (now : ℕ) : State :=
  match st.account.client.session, st.account.client.stored with
  | none, some data =>
    if sessionExpired data now then
      State.call { st with account := { st.account with client := {} } } (.clearing false)
    else st
  | _, _ => st

end State

def step (opts : BrokerOptions) (st : State) : Label → Option State
  | .publish source pkt now => some (st.publish opts source pkt now)
  | .flush now =>
    match st.account.client.session with
    | none => none
    | some sess =>
      match sess.outboundQueue with
      | [] => none
      | msg :: rest =>
        if sess.canSendOutbound then
          some { st with
            account := { st.account with buffered := st.account.buffered.tail }.deliver
              { sess with outboundQueue := rest } (st.account.buffered.headD 0) msg now }
        else none
  | .settle id => some { st with account := st.account.onSession (·.settle id) }
  | .pubRec id => some { st with account := st.account.onSession (·.markInflightPubRel id) }
  | .subscribe topic =>
    some { st with account := st.account.onSession (·.addSubscriptionFilter topic) }
  | .unsubscribe topic =>
    some { st with account := st.account.onSession (·.removeSubscription topic) }
  | .connect pkt => some (st.connect opts pkt)
  | .disconnect now => st.account.client.session.map fun sess => st.disconnect sess now
  | .sweep now => some (st.sweep now)
  | .advance i now order =>
    match st.calls[i]? with
    | none => none
    | some call =>
      (call.advance st.account now order).map fun r =>
        { account := r.1
          calls :=
            match r.2 with
            | none => st.calls.eraseIdx i
            | some call => st.calls.set i call }

/-! ## The ledger -/

structure Ledger.Unique (g : Ledger) : Prop where
  below : ∀ e ∈ g.queue, e.id < g.msgSeq
  nodup : (g.queue.map Entry.id).Nodup

namespace Ledger

variable {g : Ledger}

theorem Unique.save (h : g.Unique) (m : ℕ × StoredMessage) : (g.save m).Unique where
  below := List.forall_mem_append.mpr ⟨fun e he => Nat.lt_succ_of_lt (h.below e he),
    List.forall_mem_singleton.mpr (Nat.lt_succ_self _)⟩
  nodup := by
    unfold Ledger.save
    rw [List.map_append, List.nodup_append']
    refine ⟨h.nodup, List.nodup_singleton _, ?_⟩
    intro id hid hnew
    obtain ⟨e, he, rfl⟩ := List.mem_map.mp hid
    have heq : e.id = g.msgSeq := List.mem_singleton.mp hnew
    exact Nat.lt_irrefl _ (heq ▸ h.below e he)

theorem Unique.delete (h : g.Unique) (e : Entry) : (g.delete e).Unique where
  below := by
    intro e' he'
    exact h.below e' (List.mem_of_mem_filter he')
  nodup := h.nodup.sublist (List.filter_sublist.map _)

theorem Unique.clear (g : Ledger) : g.clear.Unique where
  below := by
    intro e he
    cases he
  nodup := List.nodup_nil

/-- A message that is still there is taken out, and nothing else. -/
theorem Unique.delete_perm (h : g.Unique) {kept rest : List Entry} {e : Entry}
    (hperm : g.queue.Perm (kept ++ e :: rest)) : (g.delete e).queue.Perm (kept ++ rest) := by
  have hnodup : ((kept ++ e :: rest).map Entry.id).Nodup :=
    (hperm.map Entry.id).nodup_iff.mp h.nodup
  have hmiddle : (e.id :: (kept ++ rest).map Entry.id).Nodup := by
    refine (List.Perm.nodup_iff ?_).mp hnodup
    exact (List.perm_middle.map Entry.id)
  have hothers : ∀ e' ∈ kept ++ rest, e'.id ≠ e.id := by
    intro e' he' heq
    exact (List.nodup_cons.mp hmiddle).1 (heq ▸ List.mem_map_of_mem he')
  have hfilter : (e :: (kept ++ rest)).filter (·.id ≠ e.id) = kept ++ rest := by
    rw [List.filter_cons_of_neg (by simp), List.filter_eq_self]
    intro e' he'
    exact decide_eq_true (hothers e' he')
  have hkept := (hperm.trans List.perm_middle).filter fun e' => decide (e'.id ≠ e.id)
  rw [hfilter] at hkept
  exact hkept

end Ledger

/-! ## One operation at a time -/

/-- The condition on a step. Nothing begins on the queue while a call is under way, and
what a disconnect persists fits. -/
def Orderly (opts : BrokerOptions) (st : State) : Label → Prop
  | .publish .. => st.account.client.session.isNone = true → st.calls = []
  | .connect _ | .sweep _ => st.calls = []
  | .disconnect _ =>
    st.calls = [] ∧ ∀ sess ∈ st.account.client.session, sess.expiryInterval > 0 →
      0 < opts.maxOfflineQueue →
        st.account.ledger.queue.length + sess.outboundQueue.length ≤ opts.maxOfflineQueue
  | _ => True

instance (opts : BrokerOptions) (st : State) (l : Label) : Decidable (Orderly opts st l) := by
  cases l <;> dsimp only [Orderly] <;> infer_instance

def Bounded (opts : BrokerOptions) (n : ℕ) : Prop :=
  0 < opts.maxOfflineQueue → n ≤ opts.maxOfflineQueue

/-- What holds before the next step of a call. -/
def Call.Mid (opts : BrokerOptions) (g : Ledger) : Call → Prop
  | .saving msgs => g.offlineCount = g.queue.length ∧ Bounded opts (g.queue.length + msgs.length)
  | .counting msgs =>
    g.offlineCount + 1 = g.queue.length ∧ Bounded opts (g.queue.length + msgs.length)
  | .clearing _ => True
  | .cleared _ => g.queue = []
  | .listing => g.offlineCount = g.queue.length
  | .draining entries => g.offlineCount = g.queue.length ∧ ∃ kept, g.queue.Perm (kept ++ entries)
  | .deleted entries => g.offlineCount = g.queue.length + 1 ∧ ∃ kept, g.queue.Perm (kept ++ entries)

/-- What holds with this call under way, or none. -/
def Mid (opts : BrokerOptions) (g : Ledger) (next : Option Call) : Prop :=
  g.Unique ∧ Bounded opts g.queue.length ∧
    next.elim (g.offlineCount = g.queue.length) (Call.Mid opts g)

def Inv (opts : BrokerOptions) (st : State) : Prop :=
  ∃ next : Option Call, st.calls = next.toList ∧ Mid opts st.account.ledger next

theorem inv_init (opts : BrokerOptions) : Inv opts {} :=
  ⟨none, rfl, Ledger.Unique.clear {}, fun _ => Nat.zero_le _, rfl⟩

theorem Bounded.mono {opts : BrokerOptions} {m n : ℕ} (h : Bounded opts n) (hle : m ≤ n) :
    Bounded opts m :=
  fun hpos => hle.trans (h hpos)

section Steps

variable {opts : BrokerOptions} {st st' : State} {a : Account}

@[simp] theorem ledger_deliver (sess : Session) (n : ℕ) (msg : OutboundMsg) (now : ℕ) :
    (a.deliver sess n msg now).ledger = a.ledger := by
  unfold Account.deliver
  simp only
  split
  · rfl
  · split_ifs <;> rfl

@[simp] theorem ledger_hand (n : ℕ) (msg : OutboundMsg) (now : ℕ) :
    (a.hand n msg now).ledger = a.ledger := by
  unfold Account.hand
  split
  · rfl
  · exact ledger_deliver ..

/-- A message drained is deleted, and the count is one too high until it is adjusted. -/
theorem Mid.delete {g : Ledger} {e : Entry} {rest : List Entry}
    (h : Mid opts g (some (.draining (e :: rest)))) :
    Mid opts (g.delete e) (some (.deleted rest)) := by
  obtain ⟨hunique, hbound, hcount, kept, hperm⟩ := h
  have hrest := hunique.delete_perm hperm
  have hlength : (g.delete e).queue.length + 1 = g.queue.length := by
    rw [hrest.length_eq, hperm.length_eq, List.length_append, List.length_append, List.length_cons]
    omega
  refine ⟨hunique.delete e, hbound.mono (by omega), ?_, kept, hrest⟩
  exact hcount.trans hlength.symm

theorem Mid.advance {call : Call} (h : Mid opts a.ledger (some call)) {now : ℕ}
    {order : List Entry} {r : Account × Option Call}
    (hs : call.advance a now order = some r) : Mid opts r.1.ledger r.2 := by
  obtain ⟨hunique, hbound, hmid⟩ := h
  cases call with
  | saving msgs =>
    obtain ⟨hcount, hroom⟩ := hmid
    cases msgs with
    | nil =>
      cases hs
      exact ⟨hunique, hbound, hcount⟩
    | cons m rest =>
      cases hs
      have hlength : (a.ledger.save m).queue.length = a.ledger.queue.length + 1 := by
        unfold Ledger.save
        rw [List.length_append, List.length_singleton]
      refine ⟨hunique.save m, hroom.mono ?_, ?_, hroom.mono ?_⟩
      · exact hlength.le.trans (Nat.add_le_add_left (Nat.succ_le_succ (Nat.zero_le _)) _)
      · exact hlength ▸ congrArg (· + 1) hcount
      · simp only [Account.onLedger, hlength, List.length_cons]
        omega
  | counting msgs =>
    obtain ⟨hcount, hroom⟩ := hmid
    cases hs
    refine ⟨⟨hunique.below, hunique.nodup⟩, hbound, ?_, hroom⟩
    simp only [Account.onLedger, Ledger.count]
    omega
  | clearing drains =>
    cases hs
    exact ⟨Ledger.Unique.clear _, fun _ => Nat.zero_le _, rfl⟩
  | cleared drains =>
    have hempty : a.ledger.queue = [] := hmid
    have hcount : a.ledger.forget.offlineCount = a.ledger.forget.queue.length := by
      simp only [Ledger.forget, hempty, List.length_nil]
    cases drains with
    | false | true =>
      cases hs
      exact ⟨⟨hunique.below, hunique.nodup⟩, hbound, hcount⟩
  | listing =>
    have hcount : a.ledger.offlineCount = a.ledger.queue.length := hmid
    simp only [Call.advance, Option.ite_none_right_eq_some, Option.some.injEq] at hs
    obtain ⟨hperm, rfl⟩ := hs
    exact ⟨hunique, hbound, hcount, [], hperm.symm⟩
  | draining entries =>
    cases entries with
    | nil =>
      cases hs
      exact ⟨hunique, hbound, hmid.1⟩
    | cons e rest =>
      have hdelete := Mid.delete ⟨hunique, hbound, hmid⟩
      simp only [Call.advance] at hs
      split at hs
      · cases hs
      · split at hs
        · cases hs
          exact hdelete
        · cases hs
          obtain ⟨hcount, kept, hperm⟩ := hmid
          refine ⟨hunique, hbound, hcount, kept ++ [e], ?_⟩
          rw [List.append_assoc]
          exact hperm
        · cases hs
          simpa only [Account.onLedger, ledger_hand] using hdelete
  | deleted entries =>
    obtain ⟨hcount, hperm⟩ := hmid
    cases hs
    refine ⟨⟨hunique.below, hunique.nodup⟩, hbound, ?_, hperm⟩
    simp only [Account.onLedger, Ledger.count]
    omega

theorem Inv.same (h : Inv opts st) (hledger : st'.account.ledger = st.account.ledger)
    (hcalls : st'.calls = st.calls) : Inv opts st' := by
  obtain ⟨next, hnext, hmid⟩ := h
  exact ⟨next, hcalls.trans hnext, hledger ▸ hmid⟩

theorem Inv.begin (h : Inv opts st) (hquiet : st.calls = [])
    (hledger : st'.account.ledger = st.account.ledger) {call : Call}
    (hcalls : st'.calls = st.calls ++ [call])
    (hmid : st.account.ledger.offlineCount = st.account.ledger.queue.length →
      call.Mid opts st.account.ledger) : Inv opts st' := by
  obtain ⟨next, hnext, hunique, hbound, hrest⟩ := h
  have hnone : next = none := by
    rw [hquiet] at hnext
    cases next with
    | none => rfl
    | some c => cases hnext
  subst hnone
  refine ⟨some call, ?_, ?_⟩
  · rw [hcalls, hquiet]
    rfl
  · rw [hledger]
    exact ⟨hunique, hbound, hmid hrest⟩

theorem admitted_fits {pkt : PublishPacket} {now : ℕ} {msg : StoredMessage}
    (h : admitted opts a pkt now = some msg)
    (hcount : a.ledger.offlineCount = a.ledger.queue.length) :
    Bounded opts (a.ledger.queue.length + 1) := by
  intro hpos
  unfold admitted at h
  rw [Option.ite_none_left_eq_some] at h
  obtain ⟨-, h⟩ := h
  split at h
  · cases h
  · simp only [Option.ite_none_left_eq_some] at h
    obtain ⟨-, hroom, -⟩ := h
    by_contra hfull
    exact hroom ⟨hpos, by omega⟩

theorem inv_step {l : Label} (h : Inv opts st) (hok : Orderly opts st l)
    (hs : step opts st l = some st') : Inv opts st' := by
  revert hs hok
  fun_cases step opts st l <;> intro hok hs <;> try cases hs
  · unfold State.publish
    cases hsess : st.account.client.session with
    | none =>
      simp only [hsess]
      have hquiet : st.calls = [] := hok (by rw [hsess]; rfl)
      split
      · exact h.same rfl rfl
      next msg hmsg =>
        refine h.begin hquiet rfl rfl ?_
        intro hcount
        exact ⟨hcount, admitted_fits hmsg hcount⟩
    | some sess =>
      simp only [hsess]
      split
      · exact h.same rfl rfl
      · exact h.same (ledger_deliver ..) rfl
  · exact h.same (ledger_deliver ..) rfl
  iterate 4 exact h.same rfl rfl
  · refine h.begin hok rfl rfl ?_
    intro hcount
    split_ifs
    · trivial
    · exact hcount
  · obtain ⟨sess, hsess, rfl⟩ := Option.map_eq_some_iff.mp hs
    refine h.begin hok.1 rfl rfl ?_
    intro hcount
    split_ifs with hkept
    · refine ⟨hcount, ?_⟩
      intro hpos
      rw [List.length_mapIdx]
      exact hok.2 sess hsess hkept hpos
    · trivial
  · unfold State.sweep
    split
    · split_ifs
      · exact h.begin hok rfl rfl fun _ => trivial
      · exact h
    · exact h
  next i now order call hcall =>
    obtain ⟨next, hnext, hmid⟩ := h
    obtain ⟨r, hr, rfl⟩ := Option.map_eq_some_iff.mp hs
    -- the call is the only one
    rw [hnext] at hcall
    cases next with
    | none => cases hcall
    | some c =>
      obtain ⟨rfl, rfl⟩ : i = 0 ∧ c = call := by
        cases i with
        | zero => exact ⟨rfl, Option.some.inj hcall⟩
        | succ i => cases hcall
      refine ⟨r.2, ?_, hmid.advance hr⟩
      rw [hnext]
      cases r.2 with
      | none | some => rfl

end Steps

/-- With one operation on the queue at a time, and room for what each disconnect persists,
no more messages are stored than `maxOfflineQueue` allows, and between the operations
`offlineCount` is their number. -/
theorem counted_and_bounded (opts : BrokerOptions) (ls : List Label) (st : State)
    (hok : Along (step opts) (Orderly opts) {} ls) (hrun : exec (step opts) {} ls = some st) :
    (0 < opts.maxOfflineQueue → st.account.ledger.queue.length ≤ opts.maxOfflineQueue) ∧
      (st.calls = [] → st.account.ledger.offlineCount = st.account.ledger.queue.length) := by
  obtain ⟨next, hnext, -, hbound, hmid⟩ : Inv opts st :=
    exec_invariant (Inv opts) (fun _ _ _ h hok hs => inv_step h hok hs) (inv_init opts) hok hrun
  refine ⟨hbound, ?_⟩
  intro hquiet
  rw [hquiet] at hnext
  cases next with
  | none => exact hmid
  | some c => cases hnext

/-! ## Runs -/

def storesOne : BrokerOptions := { brokerDefaults with maxOfflineQueue := 1 }

def filterA : TopicFilter := ⟨ascii "a", 1, false, false, 0, none⟩

def publishA : Label := .publish (ascii "p") qos1Message.pkt 0

def onward : Label := .advance 0 0 []

/-- A client that accepts one unacknowledged delivery connects and subscribes. -/
def arrives : List Label := [.connect receiveOne, onward, onward, .subscribe filterA]

def leaves : List Label := arrives ++ [.disconnect 0, onward]

/-- One message is stored and a second one refused. -/
def orderlyRun : List Label := leaves ++ [publishA, onward, onward, onward, publishA]

theorem counted_and_bounded_orderlyRun :
    ∃ st, exec (step storesOne) {} orderlyRun = some st ∧ st.account.published = 2 ∧
      st.account.ledger.queue.length ≤ 1 ∧
      st.account.ledger.offlineCount = st.account.ledger.queue.length := by
  refine exec_reaches (by decide +kernel) fun st hst _ => ?_
  obtain ⟨hbound, hcount⟩ := counted_and_bounded storesOne orderlyRun st (by decide +kernel) hst
  exact ⟨hbound (by decide), hcount (List.isEmpty_iff.mp (of_exec hst (by decide +kernel)))⟩

/-- Two messages are in the buffer when the client leaves. -/
def bufferedRun : List Label :=
  arrives ++ [publishA, publishA, publishA, .disconnect 0] ++ List.replicate 5 onward

/-- Two publishers find the queue empty. -/
def racingRun : List Label := leaves ++ [publishA, publishA] ++ List.replicate 6 onward

/-- The publication `n` in the store; it lives as long as the session. -/
def storedA (n : ℕ) : Entry where
  id := n
  number := n
  msg :=
    { topic := ascii "a", qos := 1, payload := [], retain := false
      expiresAt := some (86400 * second) }

/-- A message is saved, drained, and then counted. -/
def lateCountRun : List Label :=
  leaves ++ [publishA, onward, .connect receiveOne, .advance 1 0 [storedA 0]] ++
    List.replicate 3 (.advance 1 0 []) ++ [onward, onward]

/-- Beyond the limit by what a disconnect persists and by two publishers at once; and a
count of one message with none stored. -/
theorem queue_exceeds_limit :
    (∀ ls ∈ [bufferedRun, racingRun],
      (exec (step storesOne) {} ls).map (fun st =>
        (st.calls.length, st.account.ledger.queue.length, st.account.ledger.offlineCount)) =
          some (0, 2, 2)) ∧
      (exec (step storesOne) {} lateCountRun).map (fun st =>
        (st.calls.length, st.account.ledger.queue.length, st.account.ledger.offlineCount)) =
          some (0, 0, 1) := by
  decide +kernel

end SharkMqtt.Broker.OfflineQueue
