import SharkMqtt.Broker.OfflineQueue

/-!
# The order of the offline queue

A client that comes back should get what was queued for it in the order of publication,
and nothing published later before that. Three things stand against it. `ListMessages`
of the store in memory ranges over a map. A round of `deliverQueuedMessages` that finds
the window full leaves its message in the queue until the next reconnect, and goes on
with the others. And the session is in the manager while its queue is drained, so that
messages published meanwhile are sent at once.

On the runs without the three, nothing sent is later than a message still queued
(`sent_in_order`).
-/

namespace SharkMqtt.Broker.OfflineQueue

open Protocol Lib
open Teardown (StoredMessage routedMsg)

/-- The condition on a step. Nothing is delivered past a call under way, no connection
begins or ends during one, and a list is in the order of publication and fits the
window. -/
def Calm (st : State) : Label → Prop
  | .publish .. => st.account.client.session.isSome = true → st.calls = []
  | .flush _ | .connect _ | .disconnect _ => st.calls = []
  | .advance i _ order =>
    match st.calls[i]? with
    | some .listing =>
      order.Pairwise (·.number ≤ ·.number) ∧ ∀ sess ∈ st.account.client.session,
        sess.outboundUnacked + order.length ≤ sess.outboundWindow.toNat
    | _ => True
  | _ => True

instance (st : State) : ∀ l : Label, Decidable (Calm st l)
  | .advance .. => by dsimp only [Calm]; split <;> infer_instance
  | .publish .. | .flush _ | .connect _ | .disconnect _ | .settle _ | .pubRec _ | .subscribe _
  | .unsubscribe _ | .sweep _ => by dsimp only [Calm]; infer_instance

/-! ## What a delivery does -/

section Deliver

variable (s : Session) (msg : OutboundMsg) (now : ℕ)

theorem doDeliver_outboundUnacked :
    (s.doDeliver msg false now).1.outboundUnacked ≤ s.outboundUnacked + 1 ∧
      (s.doDeliver msg false now).1.outboundWindow = s.outboundWindow := by
  rcases s.doDeliver_cases msg false now with he | ⟨-, he⟩ | ⟨-, he⟩
  · rw [he]
    exact ⟨Nat.le_succ _, rfl⟩
  · rw [he]
    unfold Session.bufferOutbound
    split_ifs
    · exact ⟨Nat.le_succ _, rfl⟩
    · exact ⟨Nat.le_succ _, rfl⟩
  · rw [he]
    exact ⟨Nat.le_refl _, rfl⟩

/-- It buffers the message, or leaves the buffer alone; what it sends it does not
buffer. -/
theorem doDeliver_buffers :
    (s.doDeliver msg false now).1.outboundQueue = s.outboundQueue ∨
      (s.doDeliver msg false now).2 = none ∧
        (s.doDeliver msg false now).1.outboundQueue.length = s.outboundQueue.length + 1 := by
  unfold Session.doDeliver
  split_ifs
  · exact Or.inl rfl
  · unfold Session.bufferOutbound
    split_ifs
    · exact Or.inl rfl
    · exact Or.inr ⟨rfl, by simp⟩
  · exact Or.inl rfl
  · exact Or.inl rfl

variable {a : Account} (n : ℕ)

theorem session_deliver :
    (a.deliver s n msg now).client.session = some (s.doDeliver msg false now).1 := by
  unfold Account.deliver
  simp only
  split
  · rfl
  · split_ifs <;> rfl

theorem mem_sent_deliver {e : Sent} (h : e ∈ (a.deliver s n msg now).sent) :
    e ∈ a.sent ∨ e = ⟨n, a.ledger.queue.map Entry.number⟩ := by
  unfold Account.deliver at h
  simp only at h
  split at h
  · rcases List.mem_append.mp h with hold | hnew
    · exact Or.inl hold
    · exact Or.inr (List.mem_singleton.mp hnew)
  · split_ifs at h
    · exact Or.inl h
    · exact Or.inl h

theorem buffered_deliver (h : a.buffered.length = s.outboundQueue.length) :
    (a.deliver s n msg now).buffered.length =
      (s.doDeliver msg false now).1.outboundQueue.length := by
  unfold Account.deliver
  simp only
  rcases doDeliver_buffers s msg now with hsame | ⟨hnone, hlength⟩
  · rw [hsame]
    split
    · exact h
    · rw [if_neg (Nat.lt_irrefl _)]
      exact h
  · simp only [hnone, hlength, gt_iff_lt, Nat.lt_succ_self, if_true, List.length_append,
      List.length_singleton, h]

end Deliver

/-! ## The invariant -/

/-- What is known before a step of the handshake or of the drain: the rest of the list is
all that is queued, in order, with room in the window. -/
def Call.Ready (sess : Session) (g : Ledger) : Call → Prop
  | .saving _ | .counting _ => False
  | .clearing drains | .cleared drains => drains = true
  | .listing => True
  | .draining entries | .deleted entries =>
    g.queue.Perm entries ∧ entries.Pairwise (·.number ≤ ·.number) ∧
      sess.outboundUnacked + entries.length ≤ sess.outboundWindow.toNat

/-- What is known while the client is connected. -/
def Ready (sess : Session) (g : Ledger) : List Call → Prop
  | [] => g.queue = []
  | [call] => call.Ready sess g
  | _ :: _ :: _ => False

structure InOrder (st : State) : Prop where
  unique : st.account.ledger.Unique
  parallel : st.account.buffered.length =
    (st.account.client.session.map (·.outboundQueue.length)).getD 0
  sent : ∀ s ∈ st.account.sent, ∀ m ∈ s.queued, s.number ≤ m
  ready : ∀ sess, st.account.client.session = some sess → Ready sess st.account.ledger st.calls

theorem inOrder_init : InOrder {} where
  unique := Ledger.Unique.clear {}
  parallel := rfl
  sent := by
    intro s hs
    cases hs
  ready := by
    intro sess hsess
    cases hsess

section Steps

variable {sess sess' : Session} {g : Ledger} {a : Account} {st : State} {call : Call} {now : ℕ}
  {order : List Entry} {r : Account × Option Call}

/-- Acknowledgements only make room. -/
theorem Ready.mono (hunacked : sess'.outboundUnacked ≤ sess.outboundUnacked)
    (hwindow : sess'.outboundWindow = sess.outboundWindow) {calls : List Call}
    (h : Ready sess g calls) : Ready sess' g calls := by
  have hroom : ∀ n, sess.outboundUnacked + n ≤ sess.outboundWindow.toNat →
      sess'.outboundUnacked + n ≤ sess'.outboundWindow.toNat := by
    rw [hwindow]
    omega
  rcases calls with _ | ⟨c, _ | ⟨c', rest⟩⟩
  · exact h
  · cases c with
    | draining | deleted => exact ⟨h.1, h.2.1, hroom _ h.2.2⟩
    | saving | counting | clearing | cleared | listing => exact h
  · exact h

theorem Ready.eq_singleton {calls : List Call} (h : Ready sess g calls) {i : ℕ}
    (hcall : calls[i]? = some call) : calls = [call] ∧ i = 0 := by
  rcases calls with _ | ⟨c, _ | ⟨c', rest⟩⟩
  · cases hcall
  · cases i with
    | zero => exact ⟨congrArg (fun c => [c]) (Option.some.inj hcall), rfl⟩
    | succ i => cases hcall
  · exact h.elim

theorem round_ne_keep (hopen : sess.canSendOutbound = true) (msg : StoredMessage) (now : ℕ) :
    Process.round sess msg now ≠ .keep := by
  unfold Process.round
  simp only [hopen, Bool.not_true, Bool.and_false, Bool.false_eq_true, if_false]
  split_ifs <;> rintro ⟨⟩

theorem le_of_head {e : Entry} {rest : List Entry} (hperm : g.queue.Perm (e :: rest))
    (hsorted : (e :: rest).Pairwise (·.number ≤ ·.number)) :
    ∀ m ∈ g.queue.map Entry.number, e.number ≤ m := by
  intro m hm
  obtain ⟨e', he', rfl⟩ := List.mem_map.mp hm
  rcases List.mem_cons.mp (hperm.mem_iff.mp he') with rfl | hrest
  · exact Nat.le_refl _
  · exact List.rel_of_pairwise_cons hsorted hrest

theorem Ready.advance (hunique : a.ledger.Unique) (hsess : a.client.session = some sess)
    (h : Ready sess a.ledger [call])
    (hlist : call = .listing → order.Pairwise (·.number ≤ ·.number) ∧
      sess.outboundUnacked + order.length ≤ sess.outboundWindow.toNat)
    (hs : call.advance a now order = some r) :
    r.1.ledger.Unique ∧
      (r.1 = { a with ledger := r.1.ledger } ∧ Ready sess r.1.ledger r.2.toList ∨
        ∃ n msg, (∀ m ∈ a.ledger.queue.map Entry.number, n ≤ m) ∧
          r.1 = { a.deliver sess n msg now with ledger := r.1.ledger } ∧
          Ready (sess.doDeliver msg false now).1 r.1.ledger r.2.toList) := by
  cases call with
  | saving | counting => exact h.elim
  | clearing drains =>
    cases hs
    exact ⟨Ledger.Unique.clear _, Or.inl ⟨rfl, h⟩⟩
  | cleared drains =>
    obtain rfl : drains = true := h
    cases hs
    exact ⟨⟨hunique.below, hunique.nodup⟩, Or.inl ⟨rfl, trivial⟩⟩
  | listing =>
    simp only [Call.advance, Option.ite_none_right_eq_some, Option.some.injEq] at hs
    obtain ⟨hperm, rfl⟩ := hs
    obtain ⟨hsorted, hroom⟩ := hlist rfl
    exact ⟨hunique, Or.inl ⟨rfl, hperm.symm, hsorted, hroom⟩⟩
  | draining entries =>
    obtain ⟨hperm, hsorted, hroom⟩ := h
    cases entries with
    | nil =>
      cases hs
      exact ⟨hunique, Or.inl ⟨rfl, hperm.eq_nil⟩⟩
    | cons e rest =>
      have hrest : (a.ledger.delete e).queue.Perm ([] ++ rest) := hunique.delete_perm hperm
      have htail := (List.pairwise_cons.mp hsorted).2
      rw [List.length_cons] at hroom
      have hopen : sess.canSendOutbound = true := by
        unfold Session.canSendOutbound
        rw [decide_eq_true_iff]
        omega
      simp only [Call.advance, Account.hand, hsess, Option.orElse_eq_orElse, Option.orElse_some] at hs
      split at hs
      · cases hs
        refine ⟨hunique.delete e, Or.inl ⟨rfl, hrest, htail, ?_⟩⟩
        omega
      next hkeep => exact absurd hkeep (round_ne_keep hopen e.msg now)
      next msg hmsg =>
        cases hs
        simp only [Account.onLedger, ledger_deliver]
        refine ⟨hunique.delete e, Or.inr ⟨e.number, msg, le_of_head hperm hsorted, rfl,
          hrest, htail, ?_⟩⟩
        obtain ⟨hunacked, hwindow⟩ := doDeliver_outboundUnacked sess msg now
        rw [hwindow]
        omega
  | deleted entries =>
    cases hs
    exact ⟨⟨hunique.below, hunique.nodup⟩, Or.inl ⟨rfl, h⟩⟩

theorem advance_of_away (hunique : a.ledger.Unique) (haway : a.client.session = none)
    (hs : call.advance a now order = some r) :
    r.1 = { a with ledger := r.1.ledger } ∧ r.1.ledger.Unique := by
  cases call with
  | saving msgs =>
    cases msgs with
    | nil =>
      cases hs
      exact ⟨rfl, hunique⟩
    | cons m rest =>
      cases hs
      exact ⟨rfl, hunique.save m⟩
  | clearing drains =>
    cases hs
    exact ⟨rfl, Ledger.Unique.clear _⟩
  | listing =>
    simp only [Call.advance, Option.ite_none_right_eq_some, Option.some.injEq] at hs
    obtain ⟨-, rfl⟩ := hs
    exact ⟨rfl, hunique⟩
  | draining entries =>
    cases entries with
    | nil =>
      cases hs
      exact ⟨rfl, hunique⟩
    | cons e rest =>
      -- what was to be delivered is deleted
      simp only [Call.advance, Account.hand, haway] at hs
      split at hs
      · cases hs
      · split at hs
        · cases hs
          exact ⟨rfl, hunique.delete e⟩
        · cases hs
          exact ⟨rfl, hunique⟩
        · cases hs
          exact ⟨rfl, hunique.delete e⟩
  | counting | cleared | deleted =>
    cases hs
    exact ⟨rfl, hunique.below, hunique.nodup⟩

theorem InOrder.advance (h : InOrder st) {i : ℕ} (hcall : st.calls[i]? = some call)
    (hok : Calm st (.advance i now order)) (hs : call.advance st.account now order = some r) :
    InOrder
      { account := r.1
        calls :=
          match r.2 with
          | none => st.calls.eraseIdx i
          | some call => st.calls.set i call } := by
  cases hsess : st.account.client.session with
  | none =>
    obtain ⟨hr, hunique⟩ := advance_of_away h.unique hsess hs
    refine ⟨hunique, ?_, ?_, ?_⟩
    · rw [hr]
      exact h.parallel
    · rw [hr]
      exact h.sent
    · intro sess hs'
      rw [hr] at hs'
      rw [hsess] at hs'
      cases hs'
  | some sess =>
    have hready := h.ready sess hsess
    obtain ⟨hcalls, rfl⟩ := hready.eq_singleton hcall
    have hnext : (match r.2 with
        | none => st.calls.eraseIdx 0
        | some call => st.calls.set 0 call) = r.2.toList := by
      rw [hcalls]
      cases r.2 with
      | none | some => rfl
    have hlist : call = .listing → order.Pairwise (·.number ≤ ·.number) ∧
        sess.outboundUnacked + order.length ≤ sess.outboundWindow.toNat := by
      rintro rfl
      simp only [Calm, hcall] at hok
      exact ⟨hok.1, hok.2 sess hsess⟩
    have hparallel : st.account.buffered.length = sess.outboundQueue.length := by
      rw [h.parallel, hsess]
      rfl
    rw [hcalls] at hready
    rw [hnext]
    obtain ⟨hunique, ⟨hr, hnew⟩ | ⟨n, msg, hfirst, hr, hnew⟩⟩ :=
      hready.advance h.unique hsess hlist hs
    · refine ⟨hunique, ?_, ?_, ?_⟩
      · rw [hr]
        exact h.parallel
      · rw [hr]
        exact h.sent
      · intro sess' hs'
        rw [hr] at hs'
        obtain rfl : sess = sess' := Option.some.inj (hsess.symm.trans hs')
        exact hnew
    · have hsession := session_deliver (a := st.account) sess msg now n
      refine ⟨hunique, ?_, ?_, ?_⟩
      · rw [hr]
        simp only [hsession, Option.map_some, Option.getD_some]
        exact buffered_deliver sess msg now n hparallel
      · rw [hr]
        intro e he
        rcases mem_sent_deliver sess msg now n he with hold | rfl
        · exact h.sent e hold
        · exact hfirst
      · intro sess' hs'
        rw [hr] at hs'
        obtain rfl := Option.some.inj (hsession.symm.trans hs')
        exact hnew

theorem inOrder_deliver {n now : ℕ} {msg : OutboundMsg} (hunique : a.ledger.Unique)
    (hparallel : a.buffered.length = sess.outboundQueue.length)
    (hsent : ∀ s ∈ a.sent, ∀ m ∈ s.queued, s.number ≤ m) (hempty : a.ledger.queue = []) :
    InOrder { account := a.deliver sess n msg now } where
  unique := by
    simp only [ledger_deliver]
    exact hunique
  parallel := by
    simp only [session_deliver, Option.map_some, Option.getD_some]
    exact buffered_deliver sess msg now n hparallel
  sent := by
    intro e he
    rcases mem_sent_deliver sess msg now n he with hold | rfl
    · exact hsent e hold
    · rw [hempty]
      intro m hm
      cases hm
  ready := by
    intro sess' _
    exact (congrArg Ledger.queue (ledger_deliver sess n msg now)).trans hempty

theorem InOrder.onSession (h : InOrder st) {f : Session → Session}
    (hf : ∀ s : Session, (f s).outboundQueue = s.outboundQueue ∧
      (f s).outboundUnacked ≤ s.outboundUnacked ∧ (f s).outboundWindow = s.outboundWindow) :
    InOrder { st with account := st.account.onSession f } where
  unique := h.unique
  parallel := by
    have hparallel := h.parallel
    simp only [Account.onSession, Client.onSession, Option.map_map]
    rw [hparallel]
    cases st.account.client.session with
    | none => rfl
    | some s => exact congrArg List.length (hf s).1.symm
  sent := h.sent
  ready := by
    intro sess' hs'
    obtain ⟨s, hs, rfl⟩ := Option.map_eq_some_iff.mp hs'
    exact (h.ready s hs).mono (hf s).2.1 (hf s).2.2

theorem InOrder.empty (h : InOrder st) (hquiet : st.calls = [])
    (hsess : st.account.client.session = some sess) : st.account.ledger.queue = [] := by
  have hready := h.ready sess hsess
  rw [hquiet] at hready
  exact hready

theorem InOrder.buffered (h : InOrder st) (hsess : st.account.client.session = some sess) :
    st.account.buffered.length = sess.outboundQueue.length := by
  rw [h.parallel, hsess]
  rfl

theorem InOrder.publish (h : InOrder st) (opts : BrokerOptions) {source : Str} {pkt : PublishPacket}
    (hok : Calm st (.publish source pkt now)) : InOrder (st.publish opts source pkt now) := by
  unfold State.publish
  cases hsess : st.account.client.session with
  | none =>
    have hready : ∀ sess g calls, st.account.client.session = some sess → Ready sess g calls := by
      intro sess g calls hs
      rw [hsess] at hs
      cases hs
    simp only [hsess]
    split
    · exact ⟨h.unique, h.parallel, h.sent, fun sess => hready sess _ _⟩
    · exact ⟨h.unique, h.parallel, h.sent, fun sess => hready sess _ _⟩
  | some sess =>
    have hquiet : st.calls = [] := hok (by rw [hsess]; rfl)
    simp only [hsess]
    split
    · exact ⟨h.unique, h.parallel, h.sent, h.ready⟩
    · rw [hquiet]
      exact inOrder_deliver h.unique (h.buffered hsess) h.sent (h.empty hquiet hsess)

theorem outboundQueue_connect (opts : Options) (c : Client) (pkt : ConnectPacket) :
    ((connect opts c pkt).session.map (·.outboundQueue.length)).getD 0 =
      if c.session.isSome && !pkt.flags.cleanSession then
        (c.session.map (·.outboundQueue.length)).getD 0
      else 0 := by
  unfold connect resumed
  cases hclean : pkt.flags.cleanSession with
  | true => simp
  | false =>
    cases hsess : c.session with
    | some s => simp
    | none =>
      cases hstored : c.stored with
      | none => simp
      | some data => simp [restore]

theorem InOrder.connect (h : InOrder st) (opts : BrokerOptions) {pkt : ConnectPacket}
    (hquiet : st.calls = []) : InOrder (st.connect opts pkt) where
  unique := h.unique
  parallel := by
    simp only [State.connect, State.call]
    rw [outboundQueue_connect]
    split_ifs
    · exact h.parallel
    · rfl
  sent := h.sent
  ready := by
    intro sess _
    simp only [State.connect, State.call, hquiet, List.nil_append]
    split_ifs
    · exact rfl
    · trivial

theorem InOrder.disconnect (h : InOrder st) (hsess : st.account.client.session = some sess)
    (now : ℕ) : InOrder (st.disconnect sess now) := by
  have hgone : (Broker.disconnect st.account.client now).session = none := by
    unfold Broker.disconnect
    rw [hsess]
  refine ⟨h.unique, ?_, h.sent, ?_⟩
  · simp only [State.disconnect, State.call, hgone]
    rfl
  · intro sess' hs'
    simp only [State.disconnect, State.call, hgone] at hs'
    cases hs'

theorem InOrder.sweep (h : InOrder st) (now : ℕ) : InOrder (st.sweep now) := by
  unfold State.sweep
  split
  next data haway hdata =>
    split_ifs
    · refine ⟨h.unique, ?_, h.sent, ?_⟩
      · have hparallel := h.parallel
        rw [haway] at hparallel
        exact hparallel
      · intro sess' hs'
        cases hs'
    · exact h
  · exact h

theorem settle_slots (s : Session) (id : UInt16) :
    (s.settle id).outboundQueue = s.outboundQueue ∧
      (s.settle id).outboundUnacked ≤ s.outboundUnacked ∧
      (s.settle id).outboundWindow = s.outboundWindow := by
  unfold Session.settle Session.removeInflight
  split_ifs
  · exact ⟨rfl, Nat.sub_le _ _, rfl⟩
  · exact ⟨rfl, Nat.le_refl _, rfl⟩

theorem markInflightPubRel_slots (s : Session) (id : UInt16) :
    (s.markInflightPubRel id).outboundQueue = s.outboundQueue ∧
      (s.markInflightPubRel id).outboundUnacked ≤ s.outboundUnacked ∧
      (s.markInflightPubRel id).outboundWindow = s.outboundWindow := by
  obtain ⟨table, heq, -⟩ := s.markInflightPubRel_eq id
  rw [heq]
  exact ⟨rfl, Nat.le_refl _, rfl⟩

theorem inOrder_step {opts : BrokerOptions} {st' : State} {l : Label} (h : InOrder st)
    (hok : Calm st l) (hs : step opts st l = some st') : InOrder st' := by
  revert hs hok
  fun_cases step opts st l <;> intro hok hs <;> try cases hs
  · exact h.publish opts hok
  next now sess hsess msg rest hqueue hcan =>
    have hquiet : st.calls = [] := hok
    rw [hquiet]
    refine inOrder_deliver h.unique ?_ h.sent (h.empty hquiet hsess)
    have hlength := h.buffered hsess
    rw [hqueue, List.length_cons] at hlength
    simp only [List.length_tail]
    omega
  · exact h.onSession fun s => settle_slots s _
  · exact h.onSession fun s => markInflightPubRel_slots s _
  · exact h.onSession fun s => ⟨rfl, Nat.le_refl _, rfl⟩
  · exact h.onSession fun s => ⟨rfl, Nat.le_refl _, rfl⟩
  · exact h.connect opts hok
  · obtain ⟨sess, hsess, rfl⟩ := Option.map_eq_some_iff.mp hs
    exact h.disconnect hsess _
  · exact h.sweep _
  next hcall =>
    obtain ⟨r, hr, rfl⟩ := Option.map_eq_some_iff.mp hs
    exact h.advance hcall hok hr

end Steps

/-- When the store lists the queue in the order of publication, the window has room for all
of it and nothing else is delivered meanwhile, no message is sent while an earlier one is
still queued. -/
theorem sent_in_order (opts : BrokerOptions) (ls : List Label) (st : State)
    (hok : Along (step opts) Calm {} ls) (hrun : exec (step opts) {} ls = some st) :
    (∀ s ∈ st.account.sent, ∀ m ∈ s.queued, s.number ≤ m) ∧
      st.account.buffered.length =
        (st.account.client.session.map (·.outboundQueue.length)).getD 0 := by
  have h : InOrder st :=
    exec_invariant InOrder (fun _ _ _ h hok hs => inOrder_step h hok hs) inOrder_init hok hrun
  exact ⟨h.sent, h.parallel⟩

/-! ## Runs -/

def storesAll : BrokerOptions := { brokerDefaults with maxOfflineQueue := 0 }

def twoStored : List Label :=
  leaves ++ [publishA, onward, onward, onward, publishA, onward, onward, onward]

def lists (pkt : ConnectPacket) (order : List Entry) : List Label :=
  twoStored ++ [.connect pkt, .advance 0 0 order]

def calmRun : List Label :=
  lists connectC [storedA 0, storedA 1] ++ List.replicate 5 onward ++ [publishA]

theorem sent_in_order_calmRun :
    ∃ st, exec (step storesAll) {} calmRun = some st ∧
      st.account.sent = [⟨0, [0, 1]⟩, ⟨1, [1]⟩, ⟨2, []⟩] ∧
      ∀ s ∈ st.account.sent, ∀ m ∈ s.queued, s.number ≤ m :=
  exec_reaches (by decide +kernel) fun st hst _ =>
    (sent_in_order storesAll calmRun st (by decide +kernel) hst).1

/-- The map is ranged over the other way round. -/
def reversedRun : List Label := lists connectC [storedA 1, storedA 0] ++ List.replicate 5 onward

/-- The window has room for one: the second stays queued, and a third one published after
the acknowledgement of the first is sent. -/
def fullWindowRun : List Label :=
  lists receiveOne [storedA 0, storedA 1] ++ List.replicate 4 onward ++ [.settle 1, publishA]

/-- A third message is published during the drain. -/
def liveRun : List Label := lists connectC [storedA 0, storedA 1] ++ [publishA]

/-- Each time a message is sent while an earlier one is queued. -/
theorem later_message_sent_first :
    (exec (step storesAll) {} reversedRun).map (·.account.sent) =
        some [⟨1, [0, 1]⟩, ⟨0, [0]⟩] ∧
      (exec (step storesAll) {} fullWindowRun).map (·.account.sent) =
        some [⟨0, [0, 1]⟩, ⟨2, [1]⟩] ∧
      (exec (step storesAll) {} liveRun).map (·.account.sent) = some [⟨2, [0, 1]⟩] := by
  decide +kernel

end SharkMqtt.Broker.OfflineQueue
