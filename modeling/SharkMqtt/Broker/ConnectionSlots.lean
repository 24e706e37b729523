import SharkMqtt.Broker.Admission
import SharkMqtt.Lib.Keyed
import SharkMqtt.Lib.Processes

/-!
# The limit on connections

`reserveConnectionSlot`, `releaseConnectionSlot`, the registration and the teardown of
`broker/conn_lifecycle.go`, and the end of `Stop`, each under the broker's lock and so one
step. A handshake reserves a slot, goes through the checks of `Admission`, and gives the
slot back when one fails, in a deferred function; when it registers, the slot becomes the
entry in `connections`, which may replace one of the same ClientID.

With a positive limit the entries and the reservations together never exceed it, and
`pendingConns` is the number of handshakes that hold one (`slots_bounded`): the two tests
`pendingConns > 0` never fail.
-/

namespace SharkMqtt.Broker.ConnectionSlots

open Protocol Lib

/-- An entry of `connections`, with the number of its connection. -/
structure ClientState where
  clientID : Str
  conn : ℕ

/-- How far `HandleConnection` is. -/
inductive Phase where
  | arrived
  | refused
  | reserved
  /-- A check has failed; the deferred release is to come. -/
  | failed
  | admitted (clientID : Str)
  | registered (clientID : Str)
  | released
deriving DecidableEq

def Phase.holds : Phase → Bool
  | .reserved => true
  | .failed => true
  | .admitted _ => true
  | _ => false

structure State where
  connections : Keyed ClientState.clientID := ∅
  pendingConns : ℤ := 0
  phases : List Phase := []

inductive Label where
  | arrive
  | reserve (i : ℕ)
  /-- The checks, with what they find; an empty ClientID is replaced by the assigned one. -/
  | check (i : ℕ) (env : Admission.Env) (codec : Codec) (info : Option ConnectPacket)
      (assigned : Str)
  | release (i : ℕ)
  | register (i : ℕ)
  /-- `disconnect`, for the connection that was registered here. -/
  | disconnect (i : ℕ)
  /-- `Stop` removes what is still registered. -/
  | purge

namespace State

def goto (s : State) (i : ℕ) (phase : Phase) : State := { s with phases := s.phases.set i phase }

/-- `if b.pendingConns > 0 { b.pendingConns-- }` -/
def unreserve (s : State) : State :=
  if s.pendingConns > 0 then { s with pendingConns := s.pendingConns - 1 } else s

def reserveConnectionSlot (maxConnections : ℤ) (s : State) (i : ℕ) : State :=
  if maxConnections ≤ 0 then s.goto i .reserved
  else if s.connections.size + s.pendingConns ≥ maxConnections then s.goto i .refused
  else { s.goto i .reserved with pendingConns := s.pendingConns + 1 }

def releaseConnectionSlot (maxConnections : ℤ) (s : State) (i : ℕ) : State :=
  if maxConnections ≤ 0 then s.goto i .released else s.unreserve.goto i .released

def register (s : State) (i : ℕ) (clientID : Str) : State :=
  { s with connections := s.connections.insert ⟨clientID, i⟩ }.unreserve.goto i
    (.registered clientID)

/-- Only the connection that is registered is removed. -/
def disconnect (s : State) (i : ℕ) (clientID : Str) : State :=
  match s.connections.lookup clientID with
  | some cs => if cs.conn = i then { s with connections := s.connections.erase clientID } else s
  | none => s

end State

def checked (opts : Admission.Options) (env : Admission.Env) (codec : Codec)
    (info : Option ConnectPacket) (assigned : Str) : Phase :=
  match (Admission.handshake opts env codec info).1, info with
  | .admitted, some pkt => .admitted (if pkt.clientID = [] then assigned else pkt.clientID)
  | _, _ => .failed

def step (opts : Admission.Options) (maxConnections : ℤ) (s : State) : Label → Option State
  | .arrive => some { s with phases := s.phases ++ [.arrived] }
  | .reserve i =>
    match s.phases[i]? with
    | some .arrived => some (s.reserveConnectionSlot maxConnections i)
    | _ => none
  | .check i env codec info assigned =>
    match s.phases[i]? with
    | some .reserved => some (s.goto i (checked opts env codec info assigned))
    | _ => none
  | .release i =>
    match s.phases[i]? with
    | some .failed => some (s.releaseConnectionSlot maxConnections i)
    | _ => none
  | .register i =>
    match s.phases[i]? with
    | some (.admitted clientID) => some (s.register i clientID)
    | _ => none
  | .disconnect i =>
    match s.phases[i]? with
    | some (.registered clientID) => some (s.disconnect i clientID)
    | _ => none
  | .purge => some { s with connections := ∅ }

/-! ## The limit is kept -/

/-- The reservations are those of the handshakes, and with the entries within the limit. -/
structure Inv (maxConnections : ℤ) (s : State) : Prop where
  pending_eq : s.pendingConns = s.phases.countP Phase.holds
  bound : s.connections.size + s.pendingConns ≤ maxConnections

variable {maxConnections : ℤ}

/-- A handshake that holds a reservation is counted in `pendingConns`. -/
theorem Inv.pending_pos {s : State} (h : Inv maxConnections s) {i : ℕ} {phase : Phase}
    (hi : s.phases[i]? = some phase) (hholds : phase.holds = true) : s.pendingConns > 0 := by
  have hpos : 0 < s.phases.countP Phase.holds :=
    List.countP_pos_iff.mpr ⟨phase, List.mem_of_getElem? hi, hholds⟩
  rw [h.pending_eq]
  exact_mod_cast hpos

theorem size_register_le (m : Keyed ClientState.clientID) (cs : ClientState) :
    (m.insert cs).size ≤ m.size + 1 := by
  rw [Keyed.size_insert]
  split_ifs
  · exact Nat.le_succ _
  · exact Nat.le_refl _

theorem size_erase_le (m : Keyed ClientState.clientID) (c : Str) : (m.erase c).size ≤ m.size := by
  rw [Keyed.size_erase]
  split_ifs
  · exact Nat.sub_le _ _
  · exact Nat.le_refl _

section Steps

variable {maxConnections : ℤ} {s : State} {i : ℕ}

section

variable (h : Inv maxConnections s)

include h

theorem Inv.reserve (hmax : 0 < maxConnections) (hi : s.phases[i]? = some .arrived) :
    Inv maxConnections (s.reserveConnectionSlot maxConnections i) := by
  unfold State.reserveConnectionSlot
  rw [if_neg (not_le.mpr hmax)]
  split_ifs with hfull
  · have hcount := countP_set Phase.holds hi .refused
    refine ⟨?_, h.bound⟩
    simpa [State.goto, h.pending_eq, Phase.holds] using hcount.symm
  · have hcount := countP_set Phase.holds hi .reserved
    simp only [Phase.holds, Bool.toNat_true, Bool.toNat_false] at hcount
    refine ⟨?_, ?_⟩
    · simp only [State.goto, h.pending_eq]
      omega
    · simp only [State.goto]
      omega

theorem Inv.goto_of_holds {old new : Phase}
    (hi : s.phases[i]? = some old) (hold : old.holds = true) (hnew : new.holds = true) :
    Inv maxConnections (s.goto i new) := by
  have hcount := countP_set Phase.holds hi new
  rw [hold, hnew, Nat.add_right_cancel_iff] at hcount
  refine ⟨?_, h.bound⟩
  rw [State.goto, hcount]
  exact h.pending_eq

/-- A reservation is given up: `m` is what the table has become, with at most one more
entry. -/
theorem Inv.spend {old new : Phase} (hi : s.phases[i]? = some old)
    (hold : old.holds = true) (hnew : new.holds = false) {m : Keyed ClientState.clientID}
    (hm : m.size ≤ s.connections.size + 1) :
    Inv maxConnections (State.goto (State.unreserve { s with connections := m }) i new) := by
  have hcount := countP_set Phase.holds hi new
  have hpos := h.pending_pos hi hold
  have heq := h.pending_eq
  have hbound := h.bound
  rw [hold, hnew, Bool.toNat_true, Bool.toNat_false] at hcount
  unfold State.unreserve
  rw [if_pos hpos]
  refine ⟨?_, ?_⟩
  · simp only [State.goto]
    omega
  · simp only [State.goto]
    omega

theorem Inv.shrink {m : Keyed ClientState.clientID}
    (hm : m.size ≤ s.connections.size) : Inv maxConnections { s with connections := m } := by
  have hbound := h.bound
  refine ⟨h.pending_eq, ?_⟩
  show (m.size : ℤ) + s.pendingConns ≤ maxConnections
  omega

theorem Inv.disconnect (c : Str) : Inv maxConnections (s.disconnect i c) := by
  unfold State.disconnect
  split
  · split_ifs
    · exact h.shrink (size_erase_le s.connections c)
    · exact h
  · exact h

end

end Steps

theorem inv_init (hmax : 0 < maxConnections) : Inv maxConnections {} := ⟨rfl, hmax.le⟩

theorem step_inv (opts : Admission.Options) (hmax : 0 < maxConnections) {s s' : State} {l : Label}
    (h : step opts maxConnections s l = some s') (hinv : Inv maxConnections s) :
    Inv maxConnections s' := by
  revert h
  fun_cases step opts maxConnections s l <;> rintro ⟨⟩
  · refine ⟨?_, hinv.bound⟩
    simpa [Phase.holds] using hinv.pending_eq
  next hi => exact hinv.reserve hmax hi
  next hi =>
    refine hinv.goto_of_holds hi rfl ?_
    unfold checked
    split <;> rfl
  next hi =>
    rw [State.releaseConnectionSlot, if_neg (not_le.mpr hmax)]
    exact hinv.spend hi rfl rfl (Nat.le_succ _)
  next i c hi => exact hinv.spend hi rfl rfl (size_register_le s.connections ⟨c, i⟩)
  next c _ => exact hinv.disconnect c
  · exact hinv.shrink (Nat.zero_le _)

/-- Whatever the handshakes, the takeovers and the teardowns, the registered connections
and the reservations stay within the limit, and the reservations are those of the
handshakes that are neither registered nor released. -/
theorem slots_bounded (opts : Admission.Options) {maxConnections : ℤ} (hmax : 0 < maxConnections)
    {ls : List Label} {s : State} (hrun : exec (step opts maxConnections) {} ls = some s) :
    s.connections.size + s.pendingConns ≤ maxConnections ∧
      s.pendingConns = s.phases.countP Phase.holds ∧ 0 ≤ s.pendingConns := by
  have hinv : Inv maxConnections s :=
    exec_preserves (Inv maxConnections) (fun _ _ _ hs h => step_inv opts hmax h hs)
      (inv_init hmax) hrun
  have hnonneg : (0 : ℤ) ≤ s.phases.countP Phase.holds := Int.natCast_nonneg _
  exact ⟨hinv.bound, hinv.pending_eq, hinv.pending_eq ▸ hnonneg⟩

/-- Two connections under one ClientID, of which the second replaces the first, a third that
is flapping, and a fourth in its handshake, with a limit of two. -/
def takeoverRun : List Label :=
  let check (i : ℕ) (env : Admission.Env) : Label :=
    .check i env { maxPacketSize := 1024 } (some (Admission.connect311 [])) []
  [.arrive, .reserve 0, check 0 {}, .arrive, .reserve 1, .register 0, check 1 {}, .register 1,
    .disconnect 0, .arrive, .reserve 2, check 2 { flapping := true }, .release 2,
    .arrive, .reserve 3]

theorem slots_bounded_takeover :
    ∃ s, exec (step {} 2) {} takeoverRun = some s ∧
      s.phases = [.registered (ascii "c"), .registered (ascii "c"), .released, .reserved] ∧
      s.connections.size = 1 ∧ s.connections.size + s.pendingConns ≤ 2 ∧
      s.pendingConns = s.phases.countP Phase.holds ∧ 0 ≤ s.pendingConns := by
  have hrun : exec (step {} 2) {} takeoverRun =
      some ((exec (step {} 2) {} takeoverRun).get (by decide +kernel)) := (Option.some_get _).symm
  exact ⟨_, hrun, by decide +kernel, by decide +kernel, slots_bounded {} (by decide) hrun⟩

end SharkMqtt.Broker.ConnectionSlots
