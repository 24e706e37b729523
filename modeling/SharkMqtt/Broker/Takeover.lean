import SharkMqtt.Broker.Connections

/-!
# A registered connection and its session

The map of connections and the map of sessions are guarded by different locks,
and a handshake takes its session (`CreateSession`, `Restore`) long before it
registers. What ties the two maps together is `SessionsMatch`: a registered
ClientID has its session in the manager, and it is the object the read loop
works with.

It can be lost in two ways. A step may put a *new* session object into the
manager while somebody still works with the old one; and a teardown, whose
identity check only looks at the connection map, may remove the session a
handshake has taken and not yet registered. Runs without such steps
(`Undisturbed`) keep it (`sessionsMatch_of_undisturbed`); the fast reconnect
that breaks it is `fast_reconnect_loses_session`.
-/

namespace SharkMqtt.Broker.Connections

open Protocol Lib Function

/-- Every registered ClientID has its session present, and it is the one the
connection's read loop uses. -/
def SessionsMatch (st : State) : Prop :=
  ∀ c κ, st.connections c = some κ →
    ∃ σ, st.sessions c = some σ ∧ (st.phase κ).sess = some σ

/-- No handshake of `c` holds a session it has not registered yet. -/
def NoneWaiting (st : State) (c : Str) : Prop := ∀ κ σ, st.client κ = c → st.phase κ ≠ .created σ

/-- Nobody works with a session of `c`: no connection is registered and no
handshake holds one. -/
def Unclaimed (st : State) (c : Str) : Prop := st.connections c = none ∧ NoneWaiting st c

/-- The condition on a step. A new session object is installed only for an
unclaimed ClientID, and a registered connection is torn down only while no
handshake of its ClientID holds a session. -/
def Undisturbed (st : State) : Label → Prop
  | .restore κ => Unclaimed st (st.client κ)
  | .createSession κ =>
    (∃ r σ, st.phase κ = .looked r ∧ resumes st κ r = some σ) ∨ Unclaimed st (st.client κ)
  | .remove κ => st.connections (st.client κ) = some κ → NoneWaiting st (st.client κ)
  | _ => True

/-! ## The invariant -/

/-- Registered connections and waiting handshakes work with the session in the
manager. -/
structure Attached (st : State) : Prop where
  inMap : SessionsMatch st
  waiting : ∀ κ σ, st.phase κ = .created σ → st.sessions (st.client κ) = some σ

variable {st : State} {κ : ConnID}

section

variable (h : Attached st)

include h

theorem Attached.logs {st' : State} (hl : LogsOnly st st') : Attached st' := by
  constructor
  · intro c κ hc
    rw [hl.connections] at hc
    rw [hl.sessions, hl.phase]
    exact h.inMap c κ hc
  · intro κ σ hp
    rw [hl.phase] at hp
    rw [hl.sessions, hl.client]
    exact h.waiting κ σ hp

theorem Attached.setWriter (w : ℕ) (pending : Option (ConnID × PacketType)) :
    Attached (st.setWriter w pending) :=
  ⟨h.inMap, h.waiting⟩

/-- A connection moves to another phase; while it is in the map it keeps its
session. -/
theorem Attached.move (ho : Owners st) {p : Phase}
    (hmap : st.connections (st.client κ) = some κ → p.sess = (st.phase κ).sess)
    (hnew : ∀ σ, p = .created σ → st.sessions (st.client κ) = some σ) :
    Attached (st.setPhase κ p) := by
  constructor
  · intro c κ' hc
    obtain ⟨σ, hσ, hs⟩ := h.inMap c κ' hc
    rw [State.phase_setPhase]
    refine ⟨σ, hσ, ?_⟩
    split_ifs with heq
    · subst heq
      obtain rfl := (ho c κ' hc).1
      rw [hmap hc]
      exact hs
    · exact hs
  · intro κ' σ hp
    rw [State.client_setPhase]
    rw [State.phase_setPhase] at hp
    split_ifs at hp with heq
    · subst heq
      exact hnew σ hp
    · exact h.waiting κ' σ hp

theorem Attached.install {c : Str} (hc : Unclaimed st c) : Attached (st.install c) := by
  have hother : ∀ c', c' ≠ c → (st.install c).sessions c' = st.sessions c' := by
    intro c' hne
    simp [State.install, hne]
  constructor
  · intro c' κ' hc'
    have hne : c' ≠ c := by
      rintro rfl
      rw [State.connections_install, hc.1] at hc'
      cases hc'
    rw [hother c' hne]
    exact h.inMap c' κ' hc'
  · intro κ' σ hp
    have hne : st.client κ' ≠ c := fun he => hc.2 κ' σ he hp
    rw [State.client_install, hother _ hne]
    exact h.waiting κ' σ hp

theorem Attached.register (ho : Owners st) {σ : SessID}
    (hp : st.phase κ = .created σ) : Attached (st.register κ σ) := by
  constructor
  · intro c κ' hc
    rw [State.sessions_register, State.phase_register]
    -- the displaced connection is no longer in the map, so only `κ` matters for its ClientID
    rcases ho.registered hc with ⟨rfl, rfl⟩ | ⟨-, hc', hne⟩
    · exact ⟨σ, h.waiting κ' σ hp, by simp [Phase.sess]⟩
    · rw [if_neg hne]
      exact h.inMap c κ' hc'
  · intro κ' τ hp'
    rw [State.phase_register] at hp'
    rw [State.sessions_register, State.client_register]
    split_ifs at hp'
    exact h.waiting κ' τ hp'

theorem Attached.remove (ho : Owners st) (hw : NoneWaiting st (st.client κ)) :
    Attached (st.remove κ) := by
  constructor
  · intro c κ' hc
    obtain ⟨hcne, hold, hne⟩ := ho.removed hc
    obtain ⟨σ, hσ, hs⟩ := h.inMap c κ' hold
    rw [State.phase_remove, if_neg hne]
    exact ⟨σ, (update_of_ne hcne _ _).trans hσ, hs⟩
  · intro κ' σ hp
    rw [State.phase_remove] at hp
    rw [State.client_remove]
    split_ifs at hp
    have hcne : st.client κ' ≠ st.client κ := fun hs => hw κ' σ hs hp
    exact (update_of_ne hcne _ _).trans (h.waiting κ' σ hp)

/-- **Step lemma.** An undisturbed step keeps the invariant. -/
theorem Attached.step {st' : State} {l : Label} (ho : Owners st)
    (hok : Undisturbed st l) (hs : step st l = some st') : Attached st' := by
  cases stepped_of_step hs with
  | lookup hp => exact h.move ho (fun hc => absurd hc (ho.not_mapped (by rw [hp]; rfl))) (by simp)
  | restore hp =>
    exact (h.install hok).move (ho.install _)
      (fun hc => absurd hc (ho.not_mapped (by rw [hp]; rfl))) (by simp)
  | resume hp hr =>
    refine h.move ho (fun hc => absurd hc (ho.not_mapped (by rw [hp]; rfl))) ?_
    rintro σ ⟨⟩
    unfold resumes at hr
    split_ifs at hr
    exact hr
  | @create κ r hp hr =>
    have hun : Unclaimed st (st.client κ) := by
      rcases hok with ⟨r', σ, hp', hr'⟩ | hun
      · rw [hp] at hp'
        cases hp'
        rw [hr] at hr'
        cases hr'
      · exact hun
    refine (h.install hun).move (ho.install _)
      (fun hc => absurd hc (ho.not_mapped (by rw [hp]; rfl))) ?_
    rintro σ ⟨⟩
    exact update_self _ _ _
  | register hp => exact h.register ho hp
  | connAckLookup hp | connAckLost hp | respondLookup hp | leave hp | identityOwn hp | save hp =>
    exact h.move ho (fun _ => by rw [hp]; rfl) (by simp)
  | connAckSend hp hsend =>
    have hl := logsOnly_send hsend
    exact (h.logs hl).move (ho.logs hl) (fun _ => by rw [hl.phase, hp]; rfl) (by simp)
  | respondLost hp hc => exact h
  | respond hp ha =>
    have hl := logsOnly_act ha
    exact (h.logs hl).move (ho.logs hl) (fun _ => by rw [hl.phase, hp]; rfl) (by simp)
  | identityLost hp hc | removeLost hp hc => exact h.move ho (fun hc' => absurd hc' hc) (by simp)
  | removeOwn hp hc => exact h.remove ho (hok hc)
  | routeLookup | routeDropped => exact h.setWriter _ _
  | routePlaced hw => exact (h.logs (logsOnly_enqueue st _ _)).setWriter _ _

end

/-- **In every undisturbed run a registered ClientID has its session present,
and it is the object its read loop uses**, whatever the clients, the number of
connections and the schedule. -/
theorem sessionsMatch_of_undisturbed (clientID : ConnID → Str) (clean : ConnID → Bool)
    (ls : List Label) (st : State) (hok : Along step Undisturbed (init clientID clean) ls)
    (hrun : exec step (init clientID clean) ls = some st) : SessionsMatch st :=
  (exec_invariant (fun st => Attached st ∧ Owners st)
    (fun _ _ _ h hok hs => ⟨h.1.step h.2 hok hs, h.2.step hs⟩)
    ⟨⟨by simp [SessionsMatch, init], by simp [init, State.phase]⟩, by rintro c κ ⟨⟩⟩ hok hrun).1.inMap

/-! ## The fast reconnect -/

/-- Connection 0 connects and starts its teardown; connection 1 of the same
client resumes the session before connection 0 removes it, and registers after. -/
def fastReconnect : List Label :=
  handshake 0 ++ [.leave 0, .identityCheck 0, .save 0] ++
    [.lookup 1, .createSession 1, .remove 0, .register 1]

/-- After the fast reconnect the client is registered without a session. -/
theorem fast_reconnect_loses_session :
    ∃ st, exec step (init (fun _ => ascii "c") (fun _ => false)) fastReconnect = some st ∧
      st.connections (ascii "c") = some 1 ∧ ¬ SessionsMatch st := by
  refine exec_reaches (by decide +kernel) fun st hst hconn hm => ?_
  have hsess : st.sessions (ascii "c") = none := of_exec hst (by decide +kernel)
  obtain ⟨σ, hσ, -⟩ := hm (ascii "c") 1 hconn
  rw [hsess] at hσ
  cases hσ

/-- A reconnect after the teardown has finished. -/
def slowReconnect : List Label :=
  handshake 0 ++ [.leave 0, .identityCheck 0, .save 0, .remove 0] ++ handshake 1

theorem slowReconnect_undisturbed :
    Along step Undisturbed (init (fun _ => ascii "c") (fun _ => false)) slowReconnect := by
  simp only [slowReconnect, handshake, List.cons_append, List.nil_append]
  simp [Along, step, init, Undisturbed, Unclaimed, NoneWaiting, State.phase, State.client,
    State.setPhase, State.modify, State.install, State.displace, State.register, State.remove, send,
    State.enqueue, resumes,
    update_apply]
  refine ⟨?_, ?_, ?_⟩ <;> intro κ σ _ <;> split_ifs <;> simp

theorem slow_reconnect_keeps_session :
    ∃ st, exec step (init (fun _ => ascii "c") (fun _ => false)) slowReconnect = some st ∧
      st.connections (ascii "c") = some 1 ∧ SessionsMatch st :=
  exec_reaches (by decide +kernel) fun _ hst _ =>
    sessionsMatch_of_undisturbed _ _ _ _ slowReconnect_undisturbed hst

end SharkMqtt.Broker.Connections
