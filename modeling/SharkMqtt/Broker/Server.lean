import Mathlib.Data.List.Induction
import SharkMqtt.Protocol.Packets

/-!
# Starting and stopping the server

`broker/server.go`: `MQTTServer.Start` binds the configured TCP addresses, then the
WebSocket ones, then those of WebSocket over TLS, and gives up at the first that the system
refuses. `Stop` closes everything and makes the server ready for another `Start`.

The system is a function of the addresses that this server has open and the one it asks for
(`Env`). Which calls a failed `Start` can be followed by, and what it leaves behind, depends
on how far it came: the TCP listeners are entered in `listeners` before the WebSocket
addresses are tried, and rolling back does not take them out, nor close a WebSocket listener
that was opened (`failed_start_iff`).
-/

namespace SharkMqtt.Broker.Server

open Protocol

/-! ## The configuration -/

/-- The fields of `config.Config` that `Start` reads. -/
structure Config where
  listenAddr : Str := []
  listenAddrs : List Str := []
  wsListenAddr : Str := []
  wsListenAddrs : List Str := []
  wssListenAddr : Str := []
  wssListenAddrs : List Str := []
  tlsEnabled : Bool := false

def dedupAddrs (seen : List Str) : List Str → List Str
  | [] => []
  | a :: rest =>
    if a = [] then dedupAddrs seen rest
    else if a ∈ seen then dedupAddrs seen rest
    else a :: dedupAddrs (a :: seen) rest

/-- The list wins over the single address. -/
def effectiveAddrs (addrs : List Str) (addr : Str) : List Str :=
  if addrs.isEmpty then
    if addr = [] then [] else [addr]
  else dedupAddrs [] addrs

def Config.effectiveListenAddrs (c : Config) : List Str := effectiveAddrs c.listenAddrs c.listenAddr

def Config.effectiveWSListenAddrs (c : Config) : List Str :=
  effectiveAddrs c.wsListenAddrs c.wsListenAddr

def Config.effectiveWSSListenAddrs (c : Config) : List Str :=
  effectiveAddrs c.wssListenAddrs c.wssListenAddr

/-! ## The server -/

/-- A socket, by its number, and the address it was asked for. -/
structure Listener where
  id : ℕ
  addr : Str
deriving DecidableEq

structure WsEndpoint where
  ln : Listener
  tls : Bool

/-- The fields of `MQTTServer` that decide what is bound; its context and `closing` are for the
goroutines. `sockets` are the listeners that are open, and `opened` counts those that ever
were. -/
structure MQTTServer where
  cfg : Config
  tlsConfig : Bool := false
  tlsErr : Option Str := none
  listener : Option Listener := none
  listeners : List Listener := []
  wsEndpoints : List WsEndpoint := []
  started : Bool := false
  sockets : List Listener := []
  opened : ℕ := 0

/-- `NewMQTTServer`, with a TLS configuration and a listener from the options, if any. `load`
is the error of `cfg.TLSConfig`. -/
def newMQTTServer (cfg : Config) (tlsOption : Bool) (load : Option Str) (listener : Option Str) :
    MQTTServer where
  cfg := cfg
  tlsConfig := tlsOption || (cfg.tlsEnabled && load.isNone)
  tlsErr :=
    if tlsOption then none
    else if cfg.tlsEnabled then load.map fun err => ascii "TLS config failed: " ++ err
    else none
  listener := listener.map fun addr => ⟨0, addr⟩
  sockets := (listener.map fun addr => (⟨0, addr⟩ : Listener)).toList
  opened := 1

/-- What `net.Listen` answers: an error, or none if the address is bound. -/
abbrev Env := List Str → Str → Option Str

inductive StartError where
  | alreadyStarted
  | tls (err : Str)
  | noListenAddress
  | listen (addr err : Str)
  | ws (addr err : Str)
  | wssNeedsTLS
  | wss (addr err : Str)
deriving DecidableEq

/-- The error comes from the WebSocket part. -/
def StartError.late : StartError → Bool
  | .ws _ _ => true
  | .wssNeedsTLS => true
  | .wss _ _ => true
  | _ => false

def StartError.text : StartError → Str
  | .alreadyStarted => ascii "server already started"
  | .tls err => err
  | .noListenAddress => ascii "server: no listen address configured"
  | .listen addr err => ascii "server: failed to listen on " ++ addr ++ ascii ": " ++ err
  | .ws addr err => ascii "server: failed to listen on ws " ++ addr ++ ascii ": " ++ err
  | .wssNeedsTLS => ascii "server: wss_listen_addr(s) requires TLS to be configured (tls_enabled)"
  | .wss addr err => ascii "server: failed to listen on wss " ++ addr ++ ascii ": " ++ err

namespace MQTTServer

/-- Close these listeners; closing one again does nothing. -/
def close (s : MQTTServer) (lns : List Listener) : MQTTServer :=
  { s with sockets := s.sockets.filter (· ∉ lns) }

def listen (s : MQTTServer) (addr : Str) : MQTTServer :=
  { s with sockets := s.sockets ++ [⟨s.opened, addr⟩], opened := s.opened + 1 }

def openAddrs (s : MQTTServer) : List Str := s.sockets.map Listener.addr

section Start

variable (env : Env)

def bindAll (s : MQTTServer) (bound : List Listener) :
    List Str → Option StartError × List Listener × MQTTServer
  | [] => (none, bound, s)
  | addr :: rest =>
    match env s.openAddrs addr with
    | some err => (some (.listen addr err), bound, s)
    | none => (s.listen addr).bindAll (bound ++ [⟨s.opened, addr⟩]) rest

def startWS (s : MQTTServer) (addr : Str) (useTLS : Bool) : Option Str × MQTTServer :=
  match env s.openAddrs addr with
  | some err => (some err, s)
  | none =>
    let ln : Listener := ⟨s.opened, addr⟩
    let s := s.listen addr
    if useTLS && !s.tlsConfig then
      (some (ascii "server: WSS requires TLS configuration"), s.close [ln])
    else (none, { s with wsEndpoints := s.wsEndpoints ++ [⟨ln, useTLS⟩] })

/-- The loop over the addresses of one kind; those of WSS need a TLS configuration. -/
def startEach (s : MQTTServer) (useTLS : Bool) : List Str → Option StartError × MQTTServer
  | [] => (none, s)
  | addr :: rest =>
    if useTLS && !s.tlsConfig then (some .wssNeedsTLS, s)
    else
      match s.startWS env addr useTLS with
      | (some err, s) => (some (if useTLS then .wss addr err else .ws addr err), s)
      | (none, s) => s.startEach useTLS rest

/-- `Start` from where the TCP listeners are bound; a failure closes them. -/
def startWebSockets (s : MQTTServer) (bound : List Listener) : Option StartError × MQTTServer :=
  match s.startEach env false s.cfg.effectiveWSListenAddrs with
  | (some err, s) => (some err, s.close bound)
  | (none, s) =>
    match s.startEach env true s.cfg.effectiveWSSListenAddrs with
    | (some err, s) => (some err, s.close bound)
    | (none, s) => (none, s)

/-- An injected listener is used alone; otherwise the first one bound is the primary. -/
def serve (s : MQTTServer) (bound : List Listener) : MQTTServer :=
  match s.listener with
  | some ln => { s with listeners := [ln] }
  | none => { s with listener := bound.head?, listeners := bound }

def start (s : MQTTServer) : Option StartError × MQTTServer :=
  if s.started then (some .alreadyStarted, s)
  else
    let s := { s with started := true }
    match s.tlsErr with
    | some err => (some (.tls err), s)
    | none =>
      let addrs := if s.listener.isSome then [] else s.cfg.effectiveListenAddrs
      if s.listener.isNone && addrs.isEmpty then (some .noListenAddress, s)
      else
        match s.bindAll env [] addrs with
        | (some err, bound, s) => (some err, s.close (bound ++ s.listener.toList))
        | (none, bound, s) => (s.serve bound).startWebSockets env bound

end Start

def stop (s : MQTTServer) : MQTTServer :=
  { s.close (s.listeners ++ s.listener.toList ++ s.wsEndpoints.map WsEndpoint.ln) with
    listener := none
    listeners := []
    started := false }

def addrs (s : MQTTServer) : List Str := s.listeners.map Listener.addr

def addr (s : MQTTServer) : Option Str := s.listener.map Listener.addr

end MQTTServer

/-! ## Which address is refused first -/

/-- The first address of the list that cannot be bound, with its error. -/
def refused (env : Env) (bound : List Str) : List Str → Option (Str × Str)
  | [] => none
  | addr :: rest =>
    match env bound addr with
    | some err => some (addr, err)
    | none => refused env (bound ++ [addr]) rest

namespace MQTTServer

def opening (s : MQTTServer) (added : List Listener) : MQTTServer :=
  { s with sockets := s.sockets ++ added, opened := s.opened + added.length }

@[simp] theorem opening_nil (s : MQTTServer) : s.opening [] = s := by simp [opening]

@[simp] theorem openAddrs_opening (s : MQTTServer) (added : List Listener) :
    (s.opening added).openAddrs = s.openAddrs ++ added.map Listener.addr := by
  simp [opening, openAddrs]

theorem listen_eq (s : MQTTServer) (addr : Str) : s.listen addr = s.opening [⟨s.opened, addr⟩] := rfl

theorem opening_opening (s : MQTTServer) (l l' : List Listener) :
    (s.opening l).opening l' = s.opening (l ++ l') := by
  simp [opening, Nat.add_assoc]

section Loops

variable (env : Env)

/-- `bindAll` stops at the first address that is refused. -/
theorem bindAll_spec (addrs : List Str) : ∀ (s : MQTTServer) (bound : List Listener),
    ∃ added, s.bindAll env bound addrs =
        ((refused env s.openAddrs addrs).map fun r => .listen r.1 r.2,
          bound ++ added, s.opening added) ∧
      (refused env s.openAddrs addrs = none → added.map Listener.addr = addrs) := by
  induction addrs with
  | nil =>
    intro s bound
    exact ⟨[], by simp [bindAll, refused], fun _ => rfl⟩
  | cons addr rest ih =>
    intro s bound
    unfold bindAll refused
    cases henv : env s.openAddrs addr with
    | some err => exact ⟨[], by simp, by simp⟩
    | none =>
      obtain ⟨added, heq, hadded⟩ := ih (s.listen addr) (bound ++ [⟨s.opened, addr⟩])
      have hopen : (s.listen addr).openAddrs = s.openAddrs ++ [addr] := by
        rw [listen_eq, openAddrs_opening]
        rfl
      rw [hopen] at heq hadded
      refine ⟨⟨s.opened, addr⟩ :: added, ?_, ?_⟩
      · rw [heq, listen_eq, opening_opening, List.append_assoc]
        rfl
      · intro hnone
        rw [List.map_cons, hadded hnone]

def serving (s : MQTTServer) (eps : List WsEndpoint) : MQTTServer :=
  { s.opening (eps.map WsEndpoint.ln) with wsEndpoints := s.wsEndpoints ++ eps }

@[simp] theorem serving_nil (s : MQTTServer) : s.serving [] = s := by simp [serving]

theorem serving_serving (s : MQTTServer) (l l' : List WsEndpoint) :
    (s.serving l).serving l' = s.serving (l ++ l') := by
  simp [serving, opening, Nat.add_assoc]

theorem openAddrs_serving (s : MQTTServer) (eps : List WsEndpoint) :
    (s.serving eps).openAddrs = s.openAddrs ++ eps.map fun ep => ep.ln.addr := by
  simp [serving, opening, openAddrs]

theorem startWS_eq {s : MQTTServer} {useTLS : Bool} (htls : (useTLS && !s.tlsConfig) = false)
    (addr : Str) : s.startWS env addr useTLS =
      match env s.openAddrs addr with
      | some err => (some err, s)
      | none => (none, s.serving [⟨⟨s.opened, addr⟩, useTLS⟩]) := by
  unfold startWS
  cases env s.openAddrs addr with
  | some err => rfl
  | none =>
    have hlisten : (s.listen addr).tlsConfig = s.tlsConfig := rfl
    simp only [hlisten, htls]
    rfl

/-- So does the loop over WebSocket addresses, unless TLS is missing. -/
theorem startEach_spec (useTLS : Bool) (addrs : List Str) : ∀ s : MQTTServer,
    (useTLS && !s.tlsConfig) = false →
    ∃ eps, s.startEach env useTLS addrs =
        ((refused env s.openAddrs addrs).map fun r => if useTLS then .wss r.1 r.2 else .ws r.1 r.2,
          s.serving eps) ∧
      (refused env s.openAddrs addrs = none → eps.map (fun ep => ep.ln.addr) = addrs) := by
  induction addrs with
  | nil =>
    intro s _
    exact ⟨[], by simp [startEach, refused], fun _ => rfl⟩
  | cons addr rest ih =>
    intro s htls
    unfold startEach refused
    rw [startWS_eq env htls, htls]
    cases henv : env s.openAddrs addr with
    | some err => exact ⟨[], by simp, by simp⟩
    | none =>
      obtain ⟨eps, heq, heps⟩ := ih (s.serving [⟨⟨s.opened, addr⟩, useTLS⟩]) htls
      rw [openAddrs_serving] at heq heps
      refine ⟨⟨⟨s.opened, addr⟩, useTLS⟩ :: eps, ?_, ?_⟩
      · simp only
        rw [heq, serving_serving]
        rfl
      · intro hnone
        rw [List.map_cons, heps hnone]

/-- Why the WebSocket part fails, with these addresses open before it. -/
def wsOutcome (s : MQTTServer) (bound : List Str) : Option StartError :=
  match refused env bound s.cfg.effectiveWSListenAddrs with
  | some r => some (.ws r.1 r.2)
  | none =>
    if s.cfg.effectiveWSSListenAddrs ≠ [] ∧ s.tlsConfig = false then some .wssNeedsTLS
    else
      (refused env (bound ++ s.cfg.effectiveWSListenAddrs) s.cfg.effectiveWSSListenAddrs).map
        fun r => .wss r.1 r.2

/-- What the WebSocket part adds; after a failure the endpoints it had opened stay. -/
theorem startWebSockets_spec (s : MQTTServer) (bound : List Listener) :
    ∃ eps,
      ((s.startWebSockets env bound = (none, s.serving eps) ∧ s.wsOutcome env s.openAddrs = none ∧
        eps.map (fun ep => ep.ln.addr) =
          s.cfg.effectiveWSListenAddrs ++ s.cfg.effectiveWSSListenAddrs) ∨
      ∃ err, s.startWebSockets env bound = (some err, (s.serving eps).close bound) ∧
        s.wsOutcome env s.openAddrs = some err) := by
  obtain ⟨eps, heq, heps⟩ := startEach_spec env false s.cfg.effectiveWSListenAddrs s rfl
  unfold startWebSockets wsOutcome
  rw [heq]
  cases href : refused env s.openAddrs s.cfg.effectiveWSListenAddrs with
  | some r => exact ⟨eps, Or.inr ⟨.ws r.1 r.2, rfl, rfl⟩⟩
  | none =>
    have haddrs := heps href
    have hcfg : (s.serving eps).cfg = s.cfg := rfl
    simp only [Option.map_none, hcfg]
    split_ifs with hneeds
    · -- the first address of the WSS loop finds no TLS configuration
      refine ⟨eps, Or.inr ⟨.wssNeedsTLS, ?_, rfl⟩⟩
      cases hwss : s.cfg.effectiveWSSListenAddrs with
      | nil => exact absurd hwss hneeds.1
      | cons addr rest =>
        have htls : (s.serving eps).tlsConfig = false := hneeds.2
        simp [startEach, htls]
    · by_cases hwss : s.cfg.effectiveWSSListenAddrs = []
      · rw [hwss, List.append_nil]
        exact ⟨eps, Or.inl ⟨by simp [startEach], by simp [refused], haddrs⟩⟩
      · have htls : (true && !(s.serving eps).tlsConfig) = false := by
          rw [Bool.true_and, Bool.not_eq_false']
          exact Bool.of_not_eq_false fun h => hneeds ⟨hwss, h⟩
        obtain ⟨eps', heq', heps'⟩ := startEach_spec env true s.cfg.effectiveWSSListenAddrs _ htls
        rw [openAddrs_serving, haddrs] at heq' heps'
        rw [heq', serving_serving]
        refine ⟨eps ++ eps', ?_⟩
        cases href' : refused env (s.openAddrs ++ s.cfg.effectiveWSListenAddrs)
            s.cfg.effectiveWSSListenAddrs with
        | some r => exact Or.inr ⟨.wss r.1 r.2, rfl, rfl⟩
        | none => exact Or.inl ⟨rfl, rfl, by rw [List.map_append, haddrs, heps' href']⟩

end Loops

/-! ## The whole of `Start` -/

section Start

variable (env : Env)

variable {s : MQTTServer}

theorem late_of_wsOutcome {bound : List Str} {err : StartError}
    (h : s.wsOutcome env bound = some err) : err.late = true := by
  revert h
  fun_cases wsOutcome env s bound
  case case3 =>
    intro h
    obtain ⟨r, -, rfl⟩ := Option.map_eq_some_iff.mp h
    rfl
  all_goals
    rintro ⟨⟩
    rfl

/-- Why a server that has nothing open and was given no listener fails to start. -/
def outcome (s : MQTTServer) : Option StartError :=
  match s.tlsErr with
  | some err => some (.tls err)
  | none =>
    if s.cfg.effectiveListenAddrs = [] then some .noListenAddress
    else
      match refused env [] s.cfg.effectiveListenAddrs with
      | some r => some (.listen r.1 r.2)
      | none => s.wsOutcome env s.cfg.effectiveListenAddrs

def listening (s : MQTTServer) (bound : List Listener) : MQTTServer :=
  { s with
    started := true
    listener := bound.head?
    listeners := bound
    sockets := bound
    opened := s.opened + bound.length }

structure Closed (s : MQTTServer) : Prop where
  started : s.started = false
  listener : s.listener = none
  listeners : s.listeners = []
  sockets : s.sockets = []

/-- `Start` fails before the TCP listeners are there, or has them all. -/
theorem start_cases (h : s.Closed) :
    (∃ err n, err.late = false ∧ s.outcome env = some err ∧
      s.start env = (some err, { s with started := true, opened := n })) ∨
    (∃ bound eps, bound.map Listener.addr = s.cfg.effectiveListenAddrs ∧
      eps.map (fun ep => ep.ln.addr) =
        s.cfg.effectiveWSListenAddrs ++ s.cfg.effectiveWSSListenAddrs ∧
      s.outcome env = none ∧ s.start env = (none, (s.listening bound).serving eps)) ∨
    ∃ bound eps err, bound ≠ [] ∧ err.late = true ∧ s.outcome env = some err ∧
      s.start env = (some err, ((s.listening bound).serving eps).close bound) := by
  obtain ⟨cfg, tlsConfig, tlsErr, listener, listeners, wsEndpoints, started, sockets, opened⟩ := s
  obtain rfl : started = false := h.started
  obtain rfl : listener = none := h.listener
  obtain rfl : listeners = [] := h.listeners
  obtain rfl : sockets = [] := h.sockets
  unfold start outcome
  cases tlsErr with
  | some err => exact Or.inl ⟨.tls err, opened, rfl, rfl, rfl⟩
  | none =>
    simp only [Option.isSome_none, Option.isNone_none, Bool.false_eq_true, if_false,
      Bool.true_and, List.isEmpty_iff]
    split_ifs with hnone
    · exact Or.inl ⟨.noListenAddress, opened, rfl, rfl, rfl⟩
    · obtain ⟨bound, heq, hbound⟩ := bindAll_spec env cfg.effectiveListenAddrs
        ⟨cfg, tlsConfig, none, none, [], wsEndpoints, true, [], opened⟩ []
      have hopen : openAddrs ⟨cfg, tlsConfig, none, none, [], wsEndpoints, true, [], opened⟩ =
        [] := rfl
      rw [hopen] at heq hbound
      rw [heq]
      cases href : refused env [] cfg.effectiveListenAddrs with
      | some r =>
        refine Or.inl ⟨.listen r.1 r.2, opened + bound.length, rfl, rfl, ?_⟩
        simp [opening, close]
      | none =>
        have haddrs := hbound href
        have hne : bound ≠ [] := by
          rintro rfl
          exact hnone haddrs.symm
        obtain ⟨eps, hws⟩ := startWebSockets_spec env
          (listening ⟨cfg, tlsConfig, none, none, [], wsEndpoints, false, [], opened⟩ bound) bound
        have hopened : openAddrs (listening
            ⟨cfg, tlsConfig, none, none, [], wsEndpoints, false, [], opened⟩ bound) =
          cfg.effectiveListenAddrs := haddrs
        rw [hopened] at hws
        rcases hws with ⟨hstart, hout, heps⟩ | ⟨err, hstart, hout⟩
        · exact Or.inr (Or.inl ⟨bound, eps, haddrs, heps, hout, hstart⟩)
        · exact Or.inr (Or.inr ⟨bound, eps, err, hne, late_of_wsOutcome env hout, hout, hstart⟩)

theorem start_fst (h : s.Closed) : (s.start env).1 = s.outcome env := by
  obtain ⟨_, _, -, hout, hstart⟩ | ⟨_, _, -, -, hout, hstart⟩ | ⟨_, _, _, -, -, hout, hstart⟩ :=
    start_cases env h <;> rw [hstart, hout]

/-- With an injected listener no address is bound for TCP, and a failure closes nothing. -/
theorem start_injected {ln : Listener} (hstarted : s.started = false) (hln : s.listener = some ln) :
    ∃ lns eps, (s.start env).2 = { s with started := true, listeners := lns }.serving eps := by
  obtain ⟨cfg, tlsConfig, tlsErr, listener, listeners, wsEndpoints, started, sockets, opened⟩ := s
  obtain rfl : started = false := hstarted
  obtain rfl : listener = some ln := hln
  unfold start
  cases tlsErr with
  | some err => exact ⟨listeners, [], by simp⟩
  | none =>
    obtain ⟨eps, hws⟩ := startWebSockets_spec env
      ⟨cfg, tlsConfig, none, some ln, [ln], wsEndpoints, true, sockets, opened⟩ []
    refine ⟨[ln], eps, ?_⟩
    rcases hws with ⟨hstart, -, -⟩ | ⟨err, hstart, -⟩
    · exact congrArg Prod.snd hstart
    · refine (congrArg Prod.snd hstart).trans ?_
      simp [close]

end Start

/-! ## Histories of starts and stops -/

/-- Every open listener is one that `Stop` closes, and a server that is not started has
no other than the injected one. -/
structure Inv (s : MQTTServer) : Prop where
  covered : ∀ ln ∈ s.sockets,
    ln ∈ s.listeners ++ s.listener.toList ++ s.wsEndpoints.map WsEndpoint.ln
  idle : s.started = false → s.listeners = [] ∧ s.sockets = s.listener.toList

theorem inv_new (cfg : Config) (tlsOption : Bool) (load listener : Option Str) :
    (newMQTTServer cfg tlsOption load listener).Inv where
  covered := by
    intro ln hln
    simpa [newMQTTServer] using hln
  idle _ := ⟨rfl, rfl⟩

variable {s : MQTTServer}

theorem Inv.closed (h : s.Inv) (hidle : s.started = false) (hln : s.listener = none) :
    s.Closed where
  started := hidle
  listener := hln
  listeners := (h.idle hidle).1
  sockets := by rw [(h.idle hidle).2, hln]; rfl

theorem Inv.stop_closed (h : s.Inv) : s.stop.Closed where
  started := rfl
  listener := rfl
  listeners := rfl
  sockets := by
    refine List.filter_eq_nil_iff.mpr fun ln hln => ?_
    rw [decide_eq_true_eq, not_not]
    exact h.covered ln hln

theorem Closed.inv (h : s.Closed) : s.Inv where
  covered := by
    intro ln hln
    rw [h.sockets] at hln
    cases hln
  idle _ := ⟨h.listeners, by rw [h.sockets, h.listener]; rfl⟩

/-- The listeners of new endpoints are covered by them. -/
theorem covered_serving (eps : List WsEndpoint)
    (h : ∀ ln ∈ s.sockets, ln ∈ s.listeners ++ s.listener.toList) :
    ∀ ln ∈ (s.serving eps).sockets, ln ∈ (s.serving eps).listeners ++
      (s.serving eps).listener.toList ++ (s.serving eps).wsEndpoints.map WsEndpoint.ln := by
  intro ln hln
  have hold : ln ∈ s.sockets ∨ ln ∈ eps.map WsEndpoint.ln := List.mem_append.mp hln
  rcases hold with hold | hnew
  · exact List.mem_append_left _ (h ln hold)
  · refine List.mem_append_right _ ?_
    rw [serving, List.map_append]
    exact List.mem_append_right _ hnew

theorem Inv.start (env : Env) (h : s.Inv) : (s.start env).2.Inv := by
  by_cases hidle : s.started = false
  · cases hln : s.listener with
    | some ln =>
      obtain ⟨lns, eps, hstart⟩ := start_injected env hidle hln
      rw [hstart]
      refine ⟨covered_serving eps fun l hl => List.mem_append_right _ ?_, nofun⟩
      rw [← (h.idle hidle).2]
      exact hl
    | none =>
      have hclosed := h.closed hidle hln
      have hcovered (bound) (eps : List WsEndpoint) := covered_serving (s := s.listening bound) eps
        fun l hl => List.mem_append_left _ hl
      obtain ⟨_, _, -, -, hstart⟩ | ⟨bound, eps, -, -, -, hstart⟩ | ⟨bound, eps, _, -, -, -, hstart⟩ :=
        start_cases env hclosed
      · rw [hstart]
        refine ⟨fun l hl => ?_, nofun⟩
        rw [hclosed.sockets] at hl
        cases hl
      · rw [hstart]
        exact ⟨hcovered bound eps, nofun⟩
      · rw [hstart]
        exact ⟨fun l hl => hcovered bound eps l (List.mem_of_mem_filter hl), nofun⟩
  · have hsame : (s.start env).2 = s := by simp [MQTTServer.start, hidle]
    rw [hsame]
    exact h

inductive Op where
  | start (env : Env)
  | stop

def apply (s : MQTTServer) : Op → MQTTServer
  | .start env => (s.start env).2
  | .stop => s.stop

def run (s : MQTTServer) (ops : List Op) : MQTTServer := ops.foldl apply s

theorem Inv.run (h : s.Inv) (ops : List Op) : (s.run ops).Inv := by
  induction ops using List.reverseRecOn with
  | nil => exact h
  | append_singleton ops op ih =>
    unfold MQTTServer.run
    rw [List.foldl_append]
    cases op with
    | start env => exact ih.start env
    | stop => exact ih.stop_closed.inv

def Reachable (s : MQTTServer) : Prop :=
  ∃ cfg tlsOption load listener ops, s = (newMQTTServer cfg tlsOption load listener).run ops

theorem Reachable.inv (h : s.Reachable) : s.Inv := by
  obtain ⟨cfg, tlsOption, load, listener, ops, rfl⟩ := h
  exact (inv_new cfg tlsOption load listener).run ops

/-! ## After a failed start -/

def fresh (s : MQTTServer) : MQTTServer where
  cfg := s.cfg
  tlsConfig := s.tlsConfig
  tlsErr := s.tlsErr

/-- The result of a `Start` that has bound all the configured addresses, and no other. -/
def Serves (cfg : Config) (r : Option StartError × MQTTServer) : Prop :=
  r.1 = none ∧ r.2.addrs = cfg.effectiveListenAddrs ∧
    r.2.openAddrs = cfg.effectiveListenAddrs ++
      (cfg.effectiveWSListenAddrs ++ cfg.effectiveWSSListenAddrs)

theorem serves_of_outcome {env : Env} (h : s.Closed) (hout : s.outcome env = none) :
    Serves s.cfg (s.start env) := by
  obtain ⟨_, _, -, herr, -⟩ | ⟨bound, eps, hbound, heps, -, hstart⟩ | ⟨_, _, _, -, -, herr, -⟩ :=
    start_cases env h
  · cases hout.symm.trans herr
  · rw [hstart]
    refine ⟨rfl, hbound, ?_⟩
    rw [openAddrs_serving, heps, ← hbound]
    rfl
  · cases hout.symm.trans herr

/-- What a failed `Start` should leave: no listener of its own, and no address. -/
def LeavesNothing (s s' : MQTTServer) : Prop :=
  s'.sockets = s.sockets ∧ s'.addr = none ∧ s'.addrs = []

/-- `Start` again, with or without `Stop` before it. -/
def retry (s : MQTTServer) (stopFirst : Bool) (env : Env) : Option StartError × MQTTServer :=
  (if stopFirst then s.stop else s).start env

/-- A failure before the WebSocket part leaves nothing, and the server starts again when it
can, provided that `Stop` is called in between. -/
theorem early_failure {env : Env} (h : s.Closed) {err : StartError} {n : ℕ}
    (hstart : s.start env = (some err, { s with started := true, opened := n })) :
    LeavesNothing s (s.start env).2 ∧
      ∀ stopFirst env', Serves s.cfg ((s.start env).2.retry stopFirst env') ↔
        stopFirst = true ∧ s.outcome env' = none := by
  rw [hstart]
  refine ⟨⟨rfl, by simp [addr, h.listener], by simp [addrs, h.listeners]⟩, ?_⟩
  intro stopFirst env'
  cases stopFirst with
  | false =>
    -- the flag `started` is still set
    simp [retry, Serves, start]
  | true =>
    have hinv : Inv { s with started := true, opened := n } := by
      refine ⟨fun ln hln => ?_, nofun⟩
      rw [h.sockets] at hln
      cases hln
    have hstopped := hinv.stop_closed
    rw [retry, if_pos rfl, and_iff_right rfl]
    constructor
    · intro hserves
      rw [← hserves.1, start_fst env' hstopped]
      rfl
    · intro hout
      exact serves_of_outcome hstopped hout

/-- A failed `Start` of a server that was not running leaves nothing and can be followed by a
`Start` that succeeds as soon as a new server would, exactly if it came no further than the
TCP listeners, none was injected, and `Stop` is called first. -/
theorem failed_start_iff {s : MQTTServer} (hs : s.Reachable) (hidle : s.started = false)
    (env : Env) (err : StartError) (herr : (s.start env).1 = some err) (stopFirst : Bool) :
    (LeavesNothing s (s.start env).2 ∧
      ∀ env', (s.fresh.start env').1 = none →
        Serves s.cfg ((s.start env).2.retry stopFirst env')) ↔
    err.late = false ∧ s.listener = none ∧
      ((∃ env', (s.fresh.start env').1 = none) → stopFirst = true) := by
  have hinv := hs.inv
  cases hln : s.listener with
  | some ln =>
    obtain ⟨lns, eps, hstart⟩ := start_injected env hidle hln
    have haddr : (s.start env).2.addr = some ln.addr := by
      rw [hstart]
      simp [addr, serving, opening, hln]
    refine iff_of_false (fun h => ?_) fun h => nomatch h.2.1
    rw [h.1.2.1] at haddr
    cases haddr
  | none =>
    have hclosed := hinv.closed hidle hln
    have hfresh : ∀ env', (s.fresh.start env').1 = s.outcome env' :=
      fun env' => start_fst env' ⟨rfl, rfl, rfl, rfl⟩
    simp only [hfresh]
    obtain ⟨err', n, hlate, -, hstart⟩ | ⟨_, _, -, -, -, hstart⟩ | ⟨bound, _, err', hne, hlate, -, hstart⟩ :=
      start_cases env hclosed
    · obtain ⟨hnothing, hretry⟩ := early_failure hclosed hstart
      rw [hstart] at herr
      cases herr
      rw [hstart] at hnothing hretry ⊢
      simp only [hnothing, hretry, hlate, true_and]
      constructor
      · rintro h ⟨env', hout⟩
        exact (h env' hout).1
      · intro h env' hout
        exact ⟨h ⟨env', hout⟩, hout⟩
    · rw [hstart] at herr
      cases herr
    · rw [hstart] at herr
      cases herr
      have haddr : (s.start env).2.addr = bound.head?.map Listener.addr := by
        rw [hstart]
        rfl
      refine iff_of_false (fun h => ?_) (fun h => nomatch hlate.symm.trans h.1)
      rw [h.1.2.1] at haddr
      cases bound with
      | nil => exact hne rfl
      | cons ln rest => cases haddr

/-- The second of two TCP addresses is in use, so the first is closed again. -/
theorem failed_start_refused :
    let s := newMQTTServer { listenAddrs := [ascii ":1883", ascii ":1884"] } false none none
    let env : Env := fun _ addr => if addr = ascii ":1884" then some (ascii "in use") else none
    LeavesNothing s (s.start env).2 ∧
      ∀ env', (s.fresh.start env').1 = none → Serves s.cfg ((s.start env).2.retry true env') := by
  intro s env
  exact (failed_start_iff (s := s) ⟨_, _, _, _, [], rfl⟩ rfl env
    (.listen (ascii ":1884") (ascii "in use")) (by decide +kernel) true).mpr ⟨rfl, rfl, fun _ => rfl⟩

/-- The second of two WebSocket addresses is in use. The first stays open and the TCP address
is reported although it is closed, and when all addresses are free `Start` is refused. -/
theorem ws_failure_left_open : let cfg : Config :=
      { listenAddr := ascii ":1883", wsListenAddrs := [ascii ":8083", ascii ":8084"] }
    let env : Env := fun _ addr => if addr = ascii ":8084" then some (ascii "in use") else none
    let s := newMQTTServer cfg false none none
    (s.start env).1 = some (.ws (ascii ":8084") (ascii "in use")) ∧
    (s.start env).2.openAddrs = [ascii ":8083"] ∧
    (s.start env).2.addr = some (ascii ":1883") ∧ (s.start env).2.addrs = [ascii ":1883"] ∧
    (s.start fun _ _ => none).1 = none ∧
    ((s.start env).2.start fun _ _ => none).1 = some .alreadyStarted := by
  decide +kernel

end MQTTServer

end SharkMqtt.Broker.Server
