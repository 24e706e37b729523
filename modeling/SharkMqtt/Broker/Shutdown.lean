import Mathlib.Algebra.Order.BigOperators.Group.List
import Mathlib.Algebra.Order.Group.Int
import SharkMqtt.Lib.Processes
import SharkMqtt.Lib.Runs

/-!
# Stopping the server while connections arrive

`broker/server.go`: `acceptLoop`, `wsHandler` and the goroutines they start for accepted
connections, interleaved with `Stop`. Every section under a lock, every update of the
counter and every close is one step.

A connection is counted, entered in `conns` and registered in the wait group in three steps,
and `Stop` closes what is in `conns`, forbids registering and waits in three others. One that
is counted when `Stop` passes over `conns` may be entered after that and registered before
registering is forbidden, and is then never closed; or it is refused, and never uncounted.
If no connection is on its way in when `Stop` passes, and none that is on its way out has left
`conns` without being closed (`Quiet`), then both are done for every connection
(`stop_settles`).

The map `conns` is kept as a mark on each connection.
-/

namespace SharkMqtt.Broker.Shutdown

open Lib

/-! ## The goroutines -/

/-- Where a connection came in: the listener of an accept loop, or a WebSocket endpoint. -/
inductive Origin where
  | tcp (ln : ℕ)
  | ws (ep : ℕ)
deriving DecidableEq

structure Conn where
  origin : Origin
  /-- It is in `conns`. -/
  tracked : Bool := false
  closed : Bool := false
deriving DecidableEq

/-- How far a connection is on its way in. A TCP connection is `admitted` by the check of
`MaxConnections`, a WebSocket connection when `Upgrade` returns. -/
inductive Admission where
  | accepted
  /-- `Upgrade` has taken the connection from the HTTP server, which does not know it any
  more: `srv.Close` leaves it open. -/
  | hijacked
  | admitted
  | counted
  | entered
  | refused
  | dropped
deriving DecidableEq

/-- What the goroutine of a connection does when the handler has returned. -/
inductive Exit where
  | uncount
  | remove
  | close
  | done
deriving DecidableEq

/-- The deferred functions, which differ in when they close the connection. -/
def exits : Origin → List Exit
  | .tcp _ => [.uncount, .remove, .close, .done]
  | .ws _ => [.close, .uncount, .remove, .done]

inductive Proc where
  /-- An accept loop, in `Accept`. -/
  | waiting (ln : ℕ)
  /-- An accept loop or a `wsHandler` with a connection that is not registered yet. -/
  | admitting (stage : Admission) (c : Conn)
  | serving (c : Conn)
  | leaving (c : Conn) (todo : List Exit)
  /-- It was refused by `addConnGoroutine` and closed, and its goroutine has returned. -/
  | turnedAway (c : Conn)
  | ended
deriving DecidableEq

/-! ## Stop -/

inductive StopAction where
  | cancel
  | closeListener (ln : ℕ)
  | closeEndpoint (ep : ℕ)
  | closeServer (ep : ℕ)
  /-- Close every connection of `conns` and empty it. -/
  | sweep
  | setClosing
  | wait
  | finish
deriving DecidableEq

/-- The statements of `Stop`, which closes the primary listener twice. -/
def stopProgram (listeners endpoints : List ℕ) : List StopAction :=
  [.cancel] ++ listeners.map .closeListener ++ (listeners.take 1).map .closeListener ++
    endpoints.flatMap (fun ep => [.closeEndpoint ep, .closeServer ep]) ++
    [.sweep, .setClosing, .wait, .finish]

structure State where
  /-- The listeners, WebSocket listeners and HTTP servers that are open. -/
  listeners : List ℕ
  endpoints : List ℕ
  servers : List ℕ
  procs : List Proc
  connCount : ℤ := 0
  wg : ℤ
  closing : Bool := false
  ctxDone : Bool := false
  /-- What a call of `Stop` has still to do. -/
  stop : Option (List StopAction) := none

/-- A server that has started and has no connection. -/
def init (listeners endpoints : List ℕ) : State where
  listeners := listeners
  endpoints := endpoints
  servers := endpoints
  procs := listeners.map .waiting
  wg := listeners.length

/-! ## Steps -/

inductive Label where
  /-- A connection reaches the accept loop at this place of the list. -/
  | accept (i : ℕ)
  /-- A request reaches a WebSocket endpoint. -/
  | request (ep : ℕ)
  /-- The next step of a goroutine. -/
  | act (i : ℕ)
  /-- `Upgrade` fails, before or after it has hijacked the connection. -/
  | upgradeFails (i : ℕ)
  | callStop
  | stopStep
deriving DecidableEq

def Conn.sweep (c : Conn) : Conn :=
  if c.tracked then { c with tracked := false, closed := true } else c

def Proc.sweep : Proc → Proc
  | .admitting stage c => .admitting stage c.sweep
  | .serving c => .serving c.sweep
  | .leaving c todo => .leaving c.sweep todo
  | .turnedAway c => .turnedAway c.sweep
  | p => p

namespace State

def setProc (s : State) (i : ℕ) (p : Proc) : State := { s with procs := s.procs.set i p }

/-- A connection in the hands of its accept loop or `wsHandler`. -/
def admission (max : ℕ) (s : State) (i : ℕ) (c : Conn) : Admission → Option State
  | .accepted =>
    match c.origin with
    | .tcp ln =>
      if max > 0 ∧ s.connCount ≥ max then some (s.setProc i (.waiting ln))
      else some (s.setProc i (.admitting .admitted c))
    | .ws ep =>
      -- `srv.Close` closes what is not hijacked
      if ep ∈ s.servers then some (s.setProc i (.admitting .hijacked c)) else none
  | .hijacked => some (s.setProc i (.admitting .admitted c))
  | .admitted => some { s.setProc i (.admitting .counted c) with connCount := s.connCount + 1 }
  | .counted => some (s.setProc i (.admitting .entered { c with tracked := true }))
  | .entered =>
    -- `addConnGoroutine`
    if s.closing then some (s.setProc i (.admitting .refused c))
    else
      match c.origin with
      | .tcp ln =>
        some { s with procs := s.procs.set i (.waiting ln) ++ [.serving c], wg := s.wg + 1 }
      | .ws _ => some { s.setProc i (.serving c) with wg := s.wg + 1 }
  | .refused => some (s.setProc i (.admitting .dropped { c with closed := true }))
  | .dropped =>
    -- the accept loop returns, too
    match c.origin with
    | .tcp _ => some { s.setProc i (.turnedAway c) with wg := s.wg - 1 }
    | .ws _ => some (s.setProc i (.turnedAway c))

def leave (s : State) (i : ℕ) (c : Conn) (rest : List Exit) : Exit → State
  | .uncount => { s.setProc i (.leaving c rest) with connCount := s.connCount - 1 }
  | .remove => s.setProc i (.leaving { c with tracked := false } rest)
  | .close => s.setProc i (.leaving { c with closed := true } rest)
  | .done => { s.setProc i (.leaving c rest) with wg := s.wg - 1 }

def act (max : ℕ) (s : State) (i : ℕ) : Proc → Option State
  | .waiting ln =>
    if ln ∉ s.listeners ∨ s.ctxDone then some { s.setProc i .ended with wg := s.wg - 1 } else none
  | .admitting stage c => s.admission max i c stage
  | .serving c => some (s.setProc i (.leaving c (exits c.origin)))
  | .leaving c (e :: rest) => some (s.leave i c rest e)
  | _ => none

def stopAct (s : State) : StopAction → Option State
  | .cancel => some { s with ctxDone := true }
  | .closeListener ln => some { s with listeners := s.listeners.filter (· ≠ ln) }
  | .closeEndpoint ep => some { s with endpoints := s.endpoints.filter (· ≠ ep) }
  | .closeServer ep => some { s with servers := s.servers.filter (· ≠ ep) }
  | .sweep => some { s with procs := s.procs.map Proc.sweep }
  | .setClosing => some { s with closing := true }
  | .wait => if s.wg = 0 then some s else none
  | .finish => some s

end State

def step (max : ℕ) (s : State) : Label → Option State
  | .accept i =>
    match s.procs[i]? with
    | some (.waiting ln) =>
      if ln ∈ s.listeners then
        some (s.setProc i (.admitting .accepted { origin := .tcp ln }))
      else none
    | _ => none
  | .request ep =>
    if ep ∈ s.endpoints then
      some { s with procs := s.procs ++ [.admitting .accepted { origin := .ws ep }] }
    else none
  | .act i =>
    match s.procs[i]? with
    | some p => s.act max i p
    | none => none
  | .upgradeFails i =>
    match s.procs[i]? with
    | some (.admitting .accepted { origin := .ws _, .. })
    | some (.admitting .hijacked { origin := .ws _, .. }) => some (s.setProc i .ended)
    | _ => none
  | .callStop =>
    match s.stop with
    | none => some { s with stop := some (stopProgram s.listeners s.endpoints) }
    | some _ => none
  | .stopStep =>
    match s.stop with
    | some (a :: rest) => (s.stopAct a).map fun s => { s with stop := some rest }
    | _ => none

/-! ## What a goroutine can do -/

def Proc.counts : Proc → ℤ
  | .admitting .accepted _ => 0
  | .admitting .hijacked _ => 0
  | .admitting .admitted _ => 0
  | .admitting _ _ => 1
  | .serving _ => 1
  | .leaving _ todo => todo.count .uncount
  | .turnedAway _ => 1
  | _ => 0

/-- An accept loop is in the wait group, a `wsHandler` is not. -/
@[simp] def Origin.holds : Origin → ℤ
  | .tcp _ => 1
  | .ws _ => 0

def Proc.holds : Proc → ℤ
  | .waiting _ => 1
  | .admitting _ c => c.origin.holds
  | .serving _ => 1
  | .leaving _ todo => todo.count .done
  | _ => 0

/-- The steps of one goroutine, with the goroutines that it starts. -/
inductive Move (s : State) : Proc → Proc → List Proc → Prop
  | accept (ln : ℕ) (h : ln ∈ s.listeners) :
      Move s (.waiting ln) (.admitting .accepted { origin := .tcp ln }) []
  | loopEnds (ln : ℕ) : Move s (.waiting ln) .ended []
  | full (ln : ℕ) (c : Conn) (hc : c.origin = .tcp ln) :
      Move s (.admitting .accepted c) (.waiting ln) []
  | below (ln : ℕ) (c : Conn) (hc : c.origin = .tcp ln) :
      Move s (.admitting .accepted c) (.admitting .admitted c) []
  | hijack (ep : ℕ) (c : Conn) (hc : c.origin = .ws ep) (h : ep ∈ s.servers) :
      Move s (.admitting .accepted c) (.admitting .hijacked c) []
  | upgraded (c : Conn) : Move s (.admitting .hijacked c) (.admitting .admitted c) []
  | upgradeFails (ep : ℕ) (c : Conn) (hc : c.origin = .ws ep) (stage : Admission)
      (h : stage = .accepted ∨ stage = .hijacked) : Move s (.admitting stage c) .ended []
  | count (c : Conn) : Move s (.admitting .admitted c) (.admitting .counted c) []
  | enter (c : Conn) :
      Move s (.admitting .counted c) (.admitting .entered { c with tracked := true }) []
  | refuse (c : Conn) (h : s.closing = true) :
      Move s (.admitting .entered c) (.admitting .refused c) []
  | registerTCP (ln : ℕ) (c : Conn) (hc : c.origin = .tcp ln) (h : s.closing = false) :
      Move s (.admitting .entered c) (.waiting ln) [.serving c]
  | registerWS (ep : ℕ) (c : Conn) (hc : c.origin = .ws ep) (h : s.closing = false) :
      Move s (.admitting .entered c) (.serving c) []
  | drop (c : Conn) :
      Move s (.admitting .refused c) (.admitting .dropped { c with closed := true }) []
  | turnAway (c : Conn) : Move s (.admitting .dropped c) (.turnedAway c) []
  | handlerReturns (c : Conn) : Move s (.serving c) (.leaving c (exits c.origin)) []
  | uncount (c : Conn) (rest : List Exit) :
      Move s (.leaving c (.uncount :: rest)) (.leaving c rest) []
  | remove (c : Conn) (rest : List Exit) :
      Move s (.leaving c (.remove :: rest)) (.leaving { c with tracked := false } rest) []
  | close (c : Conn) (rest : List Exit) :
      Move s (.leaving c (.close :: rest)) (.leaving { c with closed := true } rest) []
  | done (c : Conn) (rest : List Exit) :
      Move s (.leaving c (.done :: rest)) (.leaving c rest) []

/-- The state after such a step: both counters follow the goroutines. -/
def State.moved (s : State) (i : ℕ) (p q : Proc) (new : List Proc) : State :=
  { s with
    procs := s.procs.set i q ++ new
    connCount := s.connCount + (q.counts - p.counts + (new.map Proc.counts).sum)
    wg := s.wg + (q.holds - p.holds + (new.map Proc.holds).sum) }

variable {max i : ℕ} {s s' : State} {p q : Proc} {l : Label} {new : List Proc}

theorem State.moved_quiet (s : State) (i : ℕ) (hcounts : q.counts = p.counts)
    (hholds : q.holds = p.holds) : s.setProc i q = s.moved i p q [] := by
  simp [State.moved, State.setProc, hcounts, hholds]

theorem Move.quiet (hmove : Move s p q []) (hcounts : q.counts = p.counts)
    (hholds : q.holds = p.holds) (h : some (s.setProc i q) = some s') :
    ∃ q new, Move s p q new ∧ s' = s.moved i p q new :=
  ⟨q, [], hmove, (Option.some.inj h).symm.trans (s.moved_quiet i hcounts hholds)⟩

theorem State.moved_counted (s : State) (i : ℕ) (n : ℤ) (hcounts : q.counts = p.counts + n)
    (hholds : q.holds = p.holds) :
    { s.setProc i q with connCount := s.connCount + n } = s.moved i p q [] := by
  simp [State.moved, State.setProc, hcounts, hholds]

theorem State.moved_held (s : State) (i : ℕ) (n : ℤ) (hcounts : q.counts = p.counts)
    (hholds : q.holds = p.holds + n) :
    { s.setProc i q with wg := s.wg + n } = s.moved i p q [] := by
  simp [State.moved, State.setProc, hcounts, hholds]

theorem admission_cases {c : Conn} {stage : Admission} (h : s.admission max i c stage = some s') :
    ∃ q new, Move s (.admitting stage c) q new ∧ s' = s.moved i (.admitting stage c) q new := by
  obtain ⟨origin, tracked, closed⟩ := c
  revert h
  fun_cases State.admission max s i ⟨origin, tracked, closed⟩ stage <;> intro h
  next ln ho _ =>
    cases ho
    exact (Move.full ln _ rfl).quiet rfl rfl h
  next ln ho _ =>
    cases ho
    exact (Move.below ln _ rfl).quiet rfl rfl h
  next ep ho hep =>
    cases ho
    exact (Move.hijack ep _ rfl hep).quiet rfl rfl h
  · cases h
  · exact (Move.upgraded _).quiet rfl rfl h
  · cases h
    exact ⟨_, [], .count _, s.moved_counted i 1 rfl rfl⟩
  · exact (Move.enter _).quiet rfl rfl h
  next hclosing => exact (Move.refuse _ hclosing).quiet rfl rfl h
  next hclosing ln ho =>
    cases ho
    refine ⟨_, [_], .registerTCP ln _ rfl (Bool.eq_false_iff.mpr hclosing), ?_⟩
    simpa [State.moved, Proc.counts, Proc.holds] using h.symm
  next hclosing ep ho =>
    cases ho
    cases h
    exact ⟨_, [], .registerWS ep _ rfl (Bool.eq_false_iff.mpr hclosing),
      s.moved_held i 1 rfl rfl⟩
  · exact (Move.drop _).quiet rfl rfl h
  next ho =>
    cases ho
    cases h
    exact ⟨_, [], .turnAway _, s.moved_held i (-1) rfl rfl⟩
  next ho =>
    cases ho
    exact (Move.turnAway _).quiet rfl rfl h

theorem leave_cases (s : State) (i : ℕ) (c : Conn) (e : Exit) (rest : List Exit) :
    ∃ q, Move s (.leaving c (e :: rest)) q [] ∧
      s.leave i c rest e = s.moved i (.leaving c (e :: rest)) q [] := by
  cases e with
  | uncount =>
    refine ⟨_, .uncount c rest, s.moved_counted i (-1) ?_ ?_⟩
    · simp [Proc.counts]
    · simp [Proc.holds]
  | remove =>
    refine ⟨_, .remove c rest, s.moved_quiet i ?_ ?_⟩
    · simp [Proc.counts]
    · simp [Proc.holds]
  | close =>
    refine ⟨_, .close c rest, s.moved_quiet i ?_ ?_⟩
    · simp [Proc.counts]
    · simp [Proc.holds]
  | done =>
    refine ⟨_, .done c rest, s.moved_held i (-1) ?_ ?_⟩
    · simp [Proc.counts]
    · simp [Proc.holds]

theorem act_cases (h : s.act max i p = some s') :
    ∃ q new, Move s p q new ∧ s' = s.moved i p q new := by
  unfold State.act at h
  cases p with
  | waiting ln =>
    simp only at h
    split_ifs at h
    obtain rfl := Option.some.inj h
    exact ⟨_, [], .loopEnds ln, s.moved_held i (-1) rfl rfl⟩
  | admitting stage c => exact admission_cases h
  | serving c =>
    obtain rfl := Option.some.inj h
    refine ⟨_, [], .handlerReturns c, s.moved_quiet i ?_ ?_⟩
    · cases hc : c.origin <;> simp [Proc.counts, exits]
    · cases hc : c.origin <;> simp [Proc.holds, exits]
  | leaving c todo =>
    cases todo with
    | nil => cases h
    | cons e rest =>
      obtain ⟨q, hmove, hleave⟩ := leave_cases s i c e rest
      exact ⟨q, [], hmove, (Option.some.inj h).symm.trans hleave⟩
  | turnedAway | ended => cases h

/-- **Inversion.** A step is one of a goroutine, a request, or one of `Stop`. -/
theorem step_cases (h : step max s l = some s') :
    (∃ i p q new, s.procs[i]? = some p ∧ Move s p q new ∧ s' = s.moved i p q new) ∨
    (∃ ep ∈ s.endpoints,
      s' = { s with procs := s.procs ++ [.admitting .accepted { origin := .ws ep }] }) ∨
    (l = .callStop ∧ s.stop = none ∧
      s' = { s with stop := some (stopProgram s.listeners s.endpoints) }) ∨
    (l = .stopStep ∧ ∃ a rest s₁, s.stop = some (a :: rest) ∧ s.stopAct a = some s₁ ∧
      s' = { s₁ with stop := some rest }) := by
  revert h
  fun_cases step max s l <;> intro h <;> try cases h
  next i ln hp hln =>
    exact Or.inl ⟨i, _, _, [], hp, .accept ln hln, s.moved_quiet i rfl rfl⟩
  next ep hep => exact Or.inr (Or.inl ⟨ep, hep, rfl⟩)
  next i p hp =>
    obtain ⟨q, new, hmove, hs'⟩ := act_cases h
    exact Or.inl ⟨i, p, q, new, hp, hmove, hs'⟩
  next i ep tracked closed hp =>
    exact Or.inl ⟨i, _, _, [], hp, .upgradeFails ep _ rfl _ (.inl rfl), s.moved_quiet i rfl rfl⟩
  next i ep tracked closed hp =>
    exact Or.inl ⟨i, _, _, [], hp, .upgradeFails ep _ rfl _ (.inr rfl), s.moved_quiet i rfl rfl⟩
  next hstop => exact Or.inr (Or.inr (Or.inl ⟨rfl, hstop, rfl⟩))
  next a rest hstop =>
    obtain ⟨s₁, hact, hs'⟩ := Option.map_eq_some_iff.mp h
    exact Or.inr (Or.inr (Or.inr ⟨rfl, a, rest, s₁, hstop, hact, hs'.symm⟩))

/-! ## The counters -/

/-- Both counters are what the goroutines add up to. -/
structure Ledger (s : State) : Prop where
  connCount_eq : s.connCount = (s.procs.map Proc.counts).sum
  wg_eq : s.wg = (s.procs.map Proc.holds).sum

theorem ledger_init (listeners endpoints : List ℕ) : Ledger (init listeners endpoints) := by
  refine ⟨?_, ?_⟩
  · simp [init, Function.comp_def, Proc.counts]
  · simp [init, Function.comp_def, Proc.holds]

theorem Ledger.moved (h : Ledger s) (hp : s.procs[i]? = some p) (q : Proc) (new : List Proc) :
    Ledger (s.moved i p q new) := by
  refine ⟨?_, ?_⟩
  · rw [State.moved, List.map_append, List.sum_append, sum_map_set _ hp, h.connCount_eq, add_assoc]
  · rw [State.moved, List.map_append, List.sum_append, sum_map_set _ hp, h.wg_eq, add_assoc]

theorem Conn.sweep_origin (c : Conn) : c.sweep.origin = c.origin := by
  unfold Conn.sweep
  split_ifs <;> rfl

theorem Proc.counts_sweep (p : Proc) : p.sweep.counts = p.counts := by
  cases p with
  | admitting stage c => cases stage <;> rfl
  | _ => rfl

theorem Proc.holds_sweep (p : Proc) : p.sweep.holds = p.holds := by
  cases p with
  | admitting stage c => exact congrArg Origin.holds c.sweep_origin
  | _ => rfl

/-- What a statement of `Stop` does to the goroutines, the counters and `closing`. -/
theorem stopAct_procs {a : StopAction} (h : s.stopAct a = some s') :
    s'.procs = (if a = .sweep then s.procs.map Proc.sweep else s.procs) ∧
      s'.connCount = s.connCount ∧ s'.wg = s.wg ∧ (s'.closing = true ∨ s'.closing = s.closing) := by
  unfold State.stopAct at h
  cases a with
  | wait =>
    split_ifs at h
    cases h
    exact ⟨rfl, rfl, rfl, Or.inr rfl⟩
  | setClosing =>
    cases h
    exact ⟨rfl, rfl, rfl, Or.inl rfl⟩
  | _ =>
    cases h
    exact ⟨rfl, rfl, rfl, Or.inr rfl⟩

theorem Ledger.step (h : Ledger s) (hstep : step max s l = some s') : Ledger s' := by
  rcases step_cases hstep with ⟨i, p, q, new, hp, -, rfl⟩ | ⟨ep, -, rfl⟩ | ⟨-, -, rfl⟩ |
    ⟨-, a, rest, s₁, -, hact, rfl⟩
  · exact h.moved hp q new
  · refine ⟨?_, ?_⟩
    · simpa [Proc.counts] using h.connCount_eq
    · simpa [Proc.holds] using h.wg_eq
  · exact ⟨h.connCount_eq, h.wg_eq⟩
  · obtain ⟨hprocs, hcount, hwg, -⟩ := stopAct_procs hact
    have hsame : ∀ f : Proc → ℤ, (∀ p, f p.sweep = f p) →
        (s₁.procs.map f).sum = (s.procs.map f).sum := by
      intro f hf
      rw [hprocs]
      split_ifs
      · rw [List.map_map, show f ∘ Proc.sweep = f from funext hf]
      · rfl
    refine ⟨?_, ?_⟩
    · rw [hcount, h.connCount_eq, hsame _ Proc.counts_sweep]
    · rw [hwg, h.wg_eq, hsame _ Proc.holds_sweep]

theorem Proc.holds_nonneg (p : Proc) : 0 ≤ p.holds := by
  cases p with
  | admitting stage c => cases hc : c.origin <;> simp [Proc.holds, hc]
  | _ => simp [Proc.holds]

theorem Ledger.holds_eq_zero (h : Ledger s) (hwg : s.wg = 0) : ∀ p ∈ s.procs, p.holds = 0 := by
  intro p hp
  have hsum : (s.procs.map Proc.holds).sum = 0 := by rw [← h.wg_eq, hwg]
  have hle : p.holds ≤ (s.procs.map Proc.holds).sum := by
    refine List.single_le_sum ?_ _ (List.mem_map_of_mem hp)
    intro x hx
    obtain ⟨q, -, rfl⟩ := List.mem_map.mp hx
    exact q.holds_nonneg
  have hnonneg := p.holds_nonneg
  omega

/-! ## Single goroutines -/

/-- What holds of every goroutine: a connection is refused only while `closing` is set, one
that is in service is in `conns` until `Stop` has closed it, and one that leaves goes through
the rest of its deferred functions. -/
def Proc.Sound (closing : Bool) : Proc → Prop
  | .admitting stage c =>
    (stage = .entered → (c.tracked || c.closed) = true) ∧
      (stage = .refused ∨ stage = .dropped → closing = true)
  | .serving c => (c.tracked || c.closed) = true
  | .leaving c todo => todo <:+ exits c.origin
  | .turnedAway _ => closing = true
  | _ => True

theorem Conn.sweep_kept {c : Conn} (h : (c.tracked || c.closed) = true) : c.sweep.closed = true := by
  unfold Conn.sweep
  cases ht : c.tracked with
  | true => rfl
  | false => simpa [ht] using h

theorem Move.sound (h : Move s p q new) (hp : p.Sound s.closing) :
    ∀ r, r = q ∨ r ∈ new → r.Sound s.closing := by
  have hdrop : ∀ {c : Conn} {e : Exit} {rest : List Exit},
      (e :: rest) <:+ exits c.origin → rest <:+ exits c.origin :=
    fun {c e rest} hsuffix => (List.suffix_cons e rest).trans hsuffix
  rintro r (rfl | hnew)
  · cases h with
    | refuse c hclosing => exact ⟨by simp, fun _ => hclosing⟩
    | registerWS ep c hc hopen => exact hp.1 rfl
    | drop c => exact ⟨by simp, fun _ => hp.2 (Or.inl rfl)⟩
    | turnAway c => exact hp.2 (Or.inr rfl)
    | handlerReturns c => exact List.suffix_refl _
    | uncount c rest => exact hdrop hp
    | remove c | close c => exact hdrop (c := c) hp
    | done c rest => exact hdrop hp
    | _ => simp [Proc.Sound]
  · cases h with
    | registerTCP ln c hc hopen =>
      rw [List.mem_singleton] at hnew
      rw [hnew]
      exact hp.1 rfl
    | _ => cases hnew

variable {closing : Bool}

theorem Proc.Sound.sweep (h : p.Sound closing) : p.sweep.Sound closing := by
  cases p with
  | admitting stage c =>
    refine ⟨fun hstage => ?_, h.2⟩
    rw [Conn.sweep_kept (h.1 hstage), Bool.or_true]
  | serving c =>
    show (c.sweep.tracked || c.sweep.closed) = true
    rw [Conn.sweep_kept h, Bool.or_true]
  | leaving c todo =>
    show todo <:+ exits c.sweep.origin
    rw [c.sweep_origin]
    exact h
  | turnedAway c => exact h
  | waiting ln | ended => trivial

theorem Proc.Sound.mono (h : p.Sound closing) : p.Sound true := by
  cases p with
  | admitting stage c => exact ⟨h.1, fun _ => rfl⟩
  | turnedAway c => rfl
  | serving | leaving => exact h
  | waiting ln | ended => trivial

/-- A goroutine that has left the wait group has nothing left to do. -/
theorem nil_of_count_done {o : Origin} {todo : List Exit} (h : todo <:+ exits o)
    (hdone : todo.count .done = 0) : todo = [] := by
  rcases List.eq_nil_or_concat todo with rfl | ⟨init, e, rfl⟩
  · rfl
  · have hlast : e = .done := by
      have hsuffix : [e] <:+ exits o := by
        refine List.IsSuffix.trans ?_ h
        rw [List.concat_eq_append]
        exact List.suffix_append init [e]
      cases o <;> simpa [exits, List.suffix_cons_iff] using hsuffix
    rw [hlast] at hdone
    simp at hdone

/-! ## How far `Stop` has come -/

def StopAction.Early : StopAction → Prop
  | .cancel => True
  | .closeListener _ => True
  | .closeEndpoint _ => True
  | .closeServer _ => True
  | _ => False

/-- Nothing can come in any more. -/
structure Shut (s : State) : Prop where
  listeners : s.listeners = []
  endpoints : s.endpoints = []
  servers : s.servers = []

inductive StopPhase (s : State) : Prop
  | idle (hstop : s.stop = none) (hopen : s.closing = false)
      (hservers : ∀ ep ∈ s.servers, ep ∈ s.endpoints)
  | shutting (todo : List StopAction)
      (hstop : s.stop = some (todo ++ [.sweep, .setClosing, .wait, .finish]))
      (hopen : s.closing = false) (hearly : ∀ a ∈ todo, a.Early)
      (hlisteners : ∀ ln ∈ s.listeners, .closeListener ln ∈ todo)
      (hendpoints : ∀ ep ∈ s.endpoints, .closeEndpoint ep ∈ todo)
      (hservers : ∀ ep ∈ s.servers, .closeServer ep ∈ todo)
  | swept (hstop : s.stop = some [.setClosing, .wait, .finish]) (hopen : s.closing = false)
      (hshut : Shut s)
  | waiting (hstop : s.stop = some [.wait, .finish]) (hclosing : s.closing = true)
      (hshut : Shut s)
  | finishing (hstop : s.stop = some [.finish]) (hclosing : s.closing = true) (hshut : Shut s)
      (hwg : s.wg = 0)
  | finished (hstop : s.stop = some []) (hclosing : s.closing = true) (hshut : Shut s)
      (hwg : s.wg = 0)

/-- `Stop` has passed over `conns`. -/
def AfterSweep (s : State) : Prop := ∃ todo, s.stop = some todo ∧ .sweep ∉ todo

theorem StopPhase.shut (h : StopPhase s) (hafter : AfterSweep s) : Shut s := by
  obtain ⟨todo, hstop, hsweep⟩ := hafter
  cases h with
  | idle hnone => rw [hnone] at hstop; cases hstop
  | shutting early hearly =>
    rw [hearly, Option.some.injEq] at hstop
    rw [← hstop] at hsweep
    simp at hsweep
  | swept _ _ hshut | waiting _ _ hshut | finishing _ _ hshut | finished _ _ hshut => exact hshut

theorem Move.holds_zero (h : Move s p q new) (hclosing : s.closing = true) (hp : p.holds = 0) :
    q.holds = 0 ∧ new = [] := by
  have hopen : ∀ {P : Prop}, s.closing = false → P := by
    intro P hfalse
    rw [hclosing] at hfalse
    cases hfalse
  cases h with
  | registerTCP _ _ _ hfalse | registerWS _ _ _ hfalse => exact hopen hfalse
  | full ln c hc =>
    rw [Proc.holds, hc] at hp
    cases hp
  | accept | handlerReturns => cases hp
  | done c rest =>
    rw [Proc.holds, List.count_cons_self] at hp
    omega
  | uncount | remove | close => exact ⟨by simpa [Proc.holds] using hp, rfl⟩
  | loopEnds | upgradeFails | turnAway => exact ⟨rfl, rfl⟩
  | _ => exact ⟨hp, rfl⟩

theorem StopPhase.of_procs (h : StopPhase s) (procs : List Proc) (connCount : ℤ) {wg : ℤ}
    (hwg : s.closing = true → s.wg = 0 → wg = 0) :
    StopPhase { s with procs := procs, connCount := connCount, wg := wg } := by
  cases h with
  | idle hstop hopen hservers => exact .idle hstop hopen hservers
  | shutting todo hstop hopen hearly hl he hs => exact .shutting todo hstop hopen hearly hl he hs
  | swept hstop hopen hshut => exact .swept hstop hopen { hshut with }
  | waiting hstop hclosing hshut => exact .waiting hstop hclosing { hshut with }
  | finishing hstop hclosing hshut hzero =>
    exact .finishing hstop hclosing { hshut with } (hwg hclosing hzero)
  | finished hstop hclosing hshut hzero =>
    exact .finished hstop hclosing { hshut with } (hwg hclosing hzero)

theorem StopPhase.moved (h : StopPhase s) (hledger : Ledger s) (hp : s.procs[i]? = some p)
    (hmove : Move s p q new) : StopPhase (s.moved i p q new) := by
  refine h.of_procs _ _ fun hclosing hzero => ?_
  have hp0 := hledger.holds_eq_zero hzero p (List.mem_of_getElem? hp)
  obtain ⟨hq0, hnew⟩ := hmove.holds_zero hclosing hp0
  simp [hzero, hp0, hq0, hnew]

theorem StopPhase.call (h : StopPhase s) (hnone : s.stop = none) :
    StopPhase { s with stop := some (stopProgram s.listeners s.endpoints) } := by
  cases h with
  | idle hstop hopen hservers =>
    refine .shutting ([.cancel] ++ s.listeners.map .closeListener ++
      (s.listeners.take 1).map .closeListener ++
      s.endpoints.flatMap fun ep => [.closeEndpoint ep, .closeServer ep]) rfl hopen ?_ ?_ ?_ ?_
    · intro a ha
      simp only [List.mem_append, List.mem_map, List.mem_flatMap,
        List.mem_cons, List.not_mem_nil, or_false] at ha
      rcases ha with ((rfl | ⟨ln, -, rfl⟩) | ⟨ln, -, rfl⟩) | ⟨ep, -, rfl | rfl⟩ <;> trivial
    · intro ln hln
      simp [hln]
    · intro ep hep
      simp [hep]
    · intro ep hep
      simp [hservers ep hep]
  | shutting _ hstop | swept hstop | waiting hstop | finishing hstop | finished hstop =>
    rw [hstop] at hnone; cases hnone

/-- What a statement before the sweep leaves open, it is not the one to close. -/
theorem stopAct_early {a : StopAction} (h : s.stopAct a = some s') (hearly : a.Early) :
    s'.closing = s.closing ∧
      (∀ ln ∈ s'.listeners, ln ∈ s.listeners ∧ .closeListener ln ≠ a) ∧
      (∀ ep ∈ s'.endpoints, ep ∈ s.endpoints ∧ .closeEndpoint ep ≠ a) ∧
      ∀ ep ∈ s'.servers, ep ∈ s.servers ∧ .closeServer ep ≠ a := by
  cases a with
  | cancel | closeListener | closeEndpoint | closeServer =>
    cases h
    simp
  | sweep | setClosing | wait | finish => exact hearly.elim

theorem StopPhase.stopAct {s₁ : State} {a : StopAction} {rest : List StopAction} (h : StopPhase s)
    (hstop : s.stop = some (a :: rest)) (hact : s.stopAct a = some s₁) :
    StopPhase { s₁ with stop := some rest } := by
  cases h with
  | idle hnone => rw [hnone] at hstop; cases hstop
  | shutting todo htodo hopen hearly hl he hs =>
    rw [htodo, Option.some.injEq] at hstop
    cases todo with
    | nil =>
      cases hstop
      cases hact
      refine .swept rfl hopen ⟨?_, ?_, ?_⟩
      · exact List.eq_nil_iff_forall_not_mem.mpr fun ln hln => List.not_mem_nil (hl ln hln)
      · exact List.eq_nil_iff_forall_not_mem.mpr fun ep hep => List.not_mem_nil (he ep hep)
      · exact List.eq_nil_iff_forall_not_mem.mpr fun ep hep => List.not_mem_nil (hs ep hep)
    | cons b todo =>
      rw [List.cons_append, List.cons.injEq] at hstop
      obtain ⟨rfl, rfl⟩ := hstop
      obtain ⟨hclosing, hl', he', hs'⟩ := stopAct_early hact (hearly b List.mem_cons_self)
      have hother : ∀ {c}, c ∈ b :: todo → c ≠ b → c ∈ todo :=
        fun hmem hne => (List.mem_cons.mp hmem).resolve_left hne
      exact .shutting todo rfl (hclosing.trans hopen)
        (fun c hc => hearly c (List.mem_cons_of_mem b hc))
        (fun ln hln => hother (hl ln (hl' ln hln).1) (hl' ln hln).2)
        (fun ep hep => hother (he ep (he' ep hep).1) (he' ep hep).2)
        (fun ep hep => hother (hs ep (hs' ep hep).1) (hs' ep hep).2)
  | swept htodo hopen hshut =>
    rw [htodo] at hstop
    cases hstop
    cases hact
    exact .waiting rfl rfl { hshut with }
  | waiting htodo hclosing hshut =>
    rw [htodo] at hstop
    cases hstop
    unfold State.stopAct at hact
    split_ifs at hact with hwg
    cases hact
    exact .finishing rfl hclosing { hshut with } hwg
  | finishing htodo hclosing hshut hwg =>
    rw [htodo] at hstop
    cases hstop
    cases hact
    exact .finished rfl hclosing { hshut with } hwg
  | finished htodo => rw [htodo] at hstop; cases hstop

structure Inv (s : State) : Prop where
  ledger : Ledger s
  sound : ∀ p ∈ s.procs, p.Sound s.closing
  phase : StopPhase s

theorem inv_init (listeners endpoints : List ℕ) : Inv (init listeners endpoints) where
  ledger := ledger_init listeners endpoints
  sound := by
    intro p hp
    obtain ⟨ln, -, rfl⟩ := List.mem_map.mp hp
    trivial
  phase := .idle rfl rfl fun _ hep => hep

theorem mem_moved {r : Proc} (h : r ∈ (s.moved i p q new).procs) :
    r ∈ s.procs ∨ r = q ∨ r ∈ new := by
  rcases List.mem_append.mp h with hset | hnew
  · rcases List.mem_or_eq_of_mem_set hset with hold | hq
    · exact Or.inl hold
    · exact Or.inr (Or.inl hq)
  · exact Or.inr (Or.inr hnew)

theorem Inv.step (h : Inv s) (hstep : step max s l = some s') : Inv s' := by
  have hledger := h.ledger.step hstep
  rcases step_cases hstep with ⟨i, p, q, new, hp, hmove, rfl⟩ | ⟨ep, hep, rfl⟩ | ⟨-, hnone, rfl⟩ |
    ⟨-, a, rest, s₁, hstop, hact, rfl⟩
  · refine ⟨hledger, fun r hr => ?_, h.phase.moved h.ledger hp hmove⟩
    rcases mem_moved hr with hold | hnew
    · exact h.sound r hold
    · exact hmove.sound (h.sound p (List.mem_of_getElem? hp)) r hnew
  · refine ⟨hledger, List.forall_mem_append.mpr ⟨h.sound, ?_⟩, h.phase.of_procs _ _ fun _ => id⟩
    simp [Proc.Sound]
  · exact ⟨hledger, h.sound, h.phase.call hnone⟩
  · refine ⟨hledger, fun r hr => ?_, h.phase.stopAct hstop hact⟩
    obtain ⟨hprocs, -, -, hclosing⟩ := stopAct_procs hact
    have hsound : r.Sound s.closing := by
      have hr' : r ∈ s₁.procs := hr
      rw [hprocs] at hr'
      split_ifs at hr'
      · obtain ⟨p, hp, rfl⟩ := List.mem_map.mp hr'
        exact (h.sound p hp).sweep
      · exact h.sound r hr'
    rcases hclosing with hclosing | hclosing
    · rw [hclosing]
      exact hsound.mono
    · rw [hclosing]
      exact hsound

/-! ## A quiet sweep -/

/-- The connection is not on its way in, save for a WebSocket that is not hijacked yet, and
if it is on its way out it is still in `conns` or closed already. -/
def Proc.Quiet : Proc → Prop
  | .admitting stage c => stage = .accepted ∧ c.origin.holds = 0
  | .leaving c _ => (c.tracked || c.closed) = true
  | _ => True

instance (p : Proc) : Decidable p.Quiet := by cases p <;> dsimp only [Proc.Quiet] <;> infer_instance

/-- The condition on a step: `Stop` passes over `conns` only when every connection is quiet. -/
def QuietSweep (s : State) (l : Label) : Prop :=
  l = .stopStep → s.stop = some [.sweep, .setClosing, .wait, .finish] → ∀ p ∈ s.procs, p.Quiet

instance (s : State) (l : Label) : Decidable (QuietSweep s l) :=
  inferInstanceAs (Decidable (_ → _ → _))

/-- What is left after a quiet sweep: nothing that can be counted, and closed connections. -/
def Proc.Settled : Proc → Prop
  | .admitting stage c => stage = .accepted ∧ c.origin.holds = 0
  | .serving c => c.closed = true
  | .leaving c _ => c.closed = true
  | .turnedAway _ => False
  | _ => True

theorem Proc.Quiet.sweep (h : p.Quiet) (hsound : p.Sound false) : p.sweep.Settled := by
  cases p with
  | admitting stage c => exact ⟨h.1, by rw [c.sweep_origin]; exact h.2⟩
  | serving c => exact Conn.sweep_kept hsound
  | leaving c todo => exact Conn.sweep_kept h
  | turnedAway c => cases hsound
  | waiting ln | ended => trivial

theorem Move.settled (h : Move s p q new) (hshut : Shut s) (hp : p.Settled) :
    q.Settled ∧ new = [] := by
  cases h with
  | accept ln hln => rw [hshut.listeners] at hln; cases hln
  | hijack ep c hc hep => rw [hshut.servers] at hep; cases hep
  | below ln c hc =>
    have hzero := hp.2
    rw [hc] at hzero
    cases hzero
  | loopEnds ln | full ln c hc | upgradeFails ep c hc => exact ⟨trivial, rfl⟩
  | upgraded | count | enter | refuse | registerTCP | registerWS | drop | turnAway => cases hp.1
  | handlerReturns | uncount | remove => exact ⟨hp, rfl⟩
  | close c rest => exact ⟨rfl, rfl⟩
  | done c rest => exact ⟨hp, rfl⟩

/-- The sweep comes first of the last four statements. -/
theorem StopPhase.sweep_next (h : StopPhase s) {rest : List StopAction}
    (hstop : s.stop = some (.sweep :: rest)) :
    s.stop = some [.sweep, .setClosing, .wait, .finish] ∧ s.closing = false := by
  cases h with
  | shutting todo htodo hopen hearly =>
    cases todo with
    | nil => exact ⟨htodo, hopen⟩
    | cons b todo =>
      rw [htodo, List.cons_append, Option.some.injEq, List.cons.injEq] at hstop
      have hb := hearly b List.mem_cons_self
      rw [hstop.1] at hb
      exact hb.elim
  | idle hnone => rw [hnone] at hstop; cases hstop
  | swept htodo | waiting htodo | finishing htodo | finished htodo =>
    rw [htodo] at hstop; cases hstop

/-- From the sweep on every connection is settled. -/
def SettledAfter (s : State) : Prop := AfterSweep s → ∀ p ∈ s.procs, p.Settled

theorem SettledAfter.step (h : SettledAfter s) (hinv : Inv s) (hquiet : QuietSweep s l)
    (hstep : step max s l = some s') : SettledAfter s' := by
  rcases step_cases hstep with ⟨i, p, q, new, hp, hmove, rfl⟩ | ⟨ep, hep, rfl⟩ | ⟨-, hnone, rfl⟩ |
    ⟨hl, a, rest, s₁, hstop, hact, rfl⟩
  · intro hafter r hr
    have hafter' : AfterSweep s := hafter
    obtain ⟨hq, hnew⟩ := hmove.settled (hinv.phase.shut hafter')
      (h hafter' p (List.mem_of_getElem? hp))
    rcases mem_moved hr with hold | rfl | hmem
    · exact h hafter' r hold
    · exact hq
    · rw [hnew] at hmem
      cases hmem
  · intro hafter
    have hafter' : AfterSweep s := hafter
    rw [(hinv.phase.shut hafter').endpoints] at hep
    cases hep
  · rintro ⟨todo, htodo, hsweep⟩
    refine absurd ?_ hsweep
    rw [← Option.some.inj htodo]
    simp [stopProgram]
  · rintro ⟨todo, htodo, hsweep⟩
    rw [← Option.some.inj htodo] at hsweep
    obtain ⟨hprocs, -, -, -⟩ := stopAct_procs hact
    intro r hr
    have hr' : r ∈ s₁.procs := hr
    rw [hprocs] at hr'
    by_cases ha : a = .sweep
    · -- this is the sweep
      subst ha
      obtain ⟨hlast, hopen⟩ := hinv.phase.sweep_next hstop
      obtain ⟨p, hp, rfl⟩ := List.mem_map.mp hr'
      have hsound := hinv.sound p hp
      rw [hopen] at hsound
      exact (hquiet hl hlast p hp).sweep hsound
    · rw [if_neg ha] at hr'
      refine h ⟨a :: rest, hstop, ?_⟩ r hr'
      rw [List.mem_cons, not_or]
      exact ⟨fun hsame => ha hsame.symm, hsweep⟩

/-- A goroutine that is settled and out of the wait group is not counted. -/
theorem Proc.Settled.counts_eq_zero (h : p.Settled) (hsound : p.Sound closing)
    (hholds : p.holds = 0) : p.counts = 0 := by
  cases p with
  | admitting stage c =>
    rw [h.1]
    rfl
  | leaving c todo =>
    rw [nil_of_count_done hsound (Int.ofNat_eq_zero.mp hholds)]
    rfl
  | turnedAway c => exact h.elim
  | serving c => cases hholds
  | waiting | ended => rfl

/-- If every connection is quiet when `Stop` passes over `conns`: when it begins to wait, the
connections of all registered goroutines are closed, and when it has finished none is
counted. -/
theorem stop_settles (max : ℕ) (listeners endpoints : List ℕ) {ls : List Label} {s : State}
    (hquiet : Along (step max) QuietSweep (init listeners endpoints) ls)
    (hrun : exec (step max) (init listeners endpoints) ls = some s) :
    (s.stop = some [.wait, .finish] →
      ∀ c, (.serving c ∈ s.procs → c.closed = true) ∧
        ∀ todo, .leaving c todo ∈ s.procs → c.closed = true) ∧
    (s.stop = some [] → s.connCount = 0) := by
  obtain ⟨hinv, hsettled⟩ : Inv s ∧ SettledAfter s := by
    refine exec_invariant (fun s => Inv s ∧ SettledAfter s) ?_
      ⟨inv_init listeners endpoints, ?_⟩ hquiet hrun
    · intro s l s' h hok hstep
      exact ⟨h.1.step hstep, h.2.step h.1 hok hstep⟩
    · rintro ⟨todo, htodo, -⟩
      cases htodo
  refine ⟨fun hwait c => ⟨fun hc => ?_, fun todo hc => ?_⟩, fun hdone => ?_⟩
  · exact hsettled ⟨_, hwait, by simp⟩ _ hc
  · exact hsettled ⟨_, hwait, by simp⟩ _ hc
  · have hwg : s.wg = 0 := by
      cases hinv.phase with
      | finished _ _ _ hwg => exact hwg
      | idle hstop => rw [hdone] at hstop; cases hstop
      | shutting todo hstop => rw [hdone] at hstop; simp at hstop
      | swept hstop | waiting hstop | finishing hstop => rw [hdone] at hstop; cases hstop
    rw [hinv.ledger.connCount_eq]
    refine List.sum_eq_zero fun x hx => ?_
    obtain ⟨p, hp, rfl⟩ := List.mem_map.mp hx
    exact (hsettled ⟨[], hdone, by simp⟩ p hp).counts_eq_zero (hinv.sound p hp)
      (hinv.ledger.holds_eq_zero hwg p hp)

/-- One TCP connection is served when `Stop` is called, and ends. -/
def servedRun : List Label :=
  [.accept 0, .act 0, .act 0, .act 0, .act 0, .callStop] ++ List.replicate 5 .stopStep ++
    List.replicate 5 (.act 1) ++ [.act 0, .stopStep, .stopStep]

theorem stop_settles_served :
    ∃ s, exec (step 0) (init [0] []) servedRun = some s ∧
      Along (step 0) QuietSweep (init [0] []) servedRun ∧ s.stop = some [] ∧ s.connCount = 0 := by
  refine exec_reaches (by decide +kernel) fun s hrun hquiet => ?_
  have hfinished : s.stop = some [] := of_exec hrun (by decide +kernel)
  exact ⟨hfinished, (stop_settles 0 [0] [] hquiet hrun).2 hfinished⟩

/-- A TCP connection is counted when `Stop` passes over `conns`. If it is registered before
`closing` is set, `Stop` begins to wait for a goroutine whose connection is open; if it is not,
it is refused, and still counted when `Stop` has finished. -/
theorem counted_at_sweep :
    (exec (step 0) (init [0] [])
        ([.accept 0, .act 0, .act 0, .callStop] ++ List.replicate 4 .stopStep ++
          [.act 0, .act 0, .stopStep])).map (fun s => (s.stop, s.procs)) =
      some (some [.wait, .finish],
        [.waiting 0, .serving { origin := .tcp 0, tracked := true, closed := false }]) ∧
    (exec (step 0) (init [0] [])
        ([.accept 0, .act 0, .act 0, .callStop] ++ List.replicate 5 .stopStep ++
          [.act 0, .act 0, .act 0, .act 0, .stopStep, .stopStep])).map
        (fun s => (s.stop, s.connCount)) =
      some (some [], 1) := by
  decide +kernel

end SharkMqtt.Broker.Shutdown
