import Mathlib.Data.List.Sort
import SharkMqtt.Lib.PastTime
import SharkMqtt.Protocol.Packets

/-!
# The lifecycle of plugins

`plugin/lifecycle.go`: `StartPlugins` and `StopPlugins` drive every registered plugin that
is a `Lifecycle` through `Initialize`, `Start`, `Stop` and `Uninstall`, and keep in `stages`
how far each one has come. A stage may return an error, panic or run out of time; the
manager sees the three alike.

The interface promises an order of the calls, in which `Start` follows an `Initialize` that
no `Uninstall` has undone (`Ordered`). `startOne` calls `Initialize` only for a plugin whose
stage is `stageNone`, and `stopOne` leaves a plugin stopped or uninstalled, never back at
`stageNone`. So the order is kept up to the first `StartPlugins` that finds a plugin in one of
those stages, and is broken by it (`ordered_iff_never_restarted`).
-/

namespace SharkMqtt.Plugin

open Protocol Lib Function

inductive Stage where
  | none
  | initialized
  | started
  | stopped
  | uninstalled
deriving DecidableEq

inductive StageFn where
  | init
  | start
  | stop
  | uninstall
deriving DecidableEq

def StageFn.name : StageFn → Str
  | .init => ascii "Initialize"
  | .start => ascii "Start"
  | .stop => ascii "Stop"
  | .uninstall => ascii "Uninstall"

/-- How a call to a plugin ends, as the manager sees it. -/
inductive Outcome where
  | done
  | failed (err : Str)
  | panicked (value : Str)
  /-- `lifecycleTimeout` has passed, or the context of the caller is over. -/
  | timedOut
deriving DecidableEq

structure Call where
  plugin : Str
  fn : StageFn
  outcome : Outcome
deriving DecidableEq

/-- A registered `Plugin`, and whether it is a `Managed` one. -/
structure Registered where
  name : Str
  managed : Bool

/-- The fields of a `Manager` that the lifecycle uses; `calls` is what the plugins have seen. -/
structure Manager where
  all : List Registered
  stages : Str → Stage := fun _ => .none
  calls : List Call := []

namespace Manager

/-- `managedPlugins` before it sorts: the managed plugins by name, each name once. -/
def distinct (seen : List Str) : List Registered → List Str
  | [] => []
  | p :: rest =>
    if !p.managed then distinct seen rest
    else if p.name ∈ seen then distinct seen rest
    else p.name :: distinct (p.name :: seen) rest

def managedPlugins (pm : Manager) : List Str := (distinct [] pm.all).insertionSort (· ≤ ·)

def setStage (pm : Manager) (name : Str) (s : Stage) : Manager :=
  { pm with stages := update pm.stages name s }

end Manager

def joinErrors : List Str → Option Str
  | [] => none
  | errs => some ((errs.intersperse (ascii "\n")).flatten)

section Stages

-- What the plugins do; it may depend on all that has been called before.
variable (react : List Call → Str → StageFn → Outcome)

def Outcome.error (fn : StageFn) : Outcome → Option Str
  | .done => none
  | .failed err => some err
  | .panicked value => some (fn.name ++ ascii " panicked: " ++ value)
  | .timedOut => some (fn.name ++ ascii " timed out after 30s")

namespace Manager

def runStage (pm : Manager) (name : Str) (fn : StageFn) : Option Str × Manager :=
  let outcome := react pm.calls name fn
  (outcome.error fn, { pm with calls := pm.calls ++ [⟨name, fn, outcome⟩] })

/-- The second half of `startOne`. -/
def activate (pm : Manager) (name : Str) : Option Str × Manager :=
  if pm.stages name = .started then (none, pm)
  else
    match pm.runStage react name .start with
    | (some err, pm) => (some err, pm.setStage name .initialized)
    | (none, pm) => (none, pm.setStage name .started)

def startOne (pm : Manager) (name : Str) : Option Str × Manager :=
  if pm.stages name = .none then
    match pm.runStage react name .init with
    | (some err, pm) => (some err, pm.setStage name .none)
    | (none, pm) => (pm.setStage name .initialized).activate react name
  else pm.activate react name

/-- The last part of `stopOne`. -/
def release (pm : Manager) (name : Str) : Option Str × Manager :=
  match pm.runStage react name .uninstall with
  | (some err, pm) => (some err, pm.setStage name .stopped)
  | (none, pm) => (none, pm.setStage name .uninstalled)

def stopOne (pm : Manager) (name : Str) : Option Str × Manager :=
  let st := pm.stages name
  if st = .none ∨ st = .uninstalled then (none, pm)
  else if st = .started then
    match pm.runStage react name .stop with
    | (some err, pm) =>
      match (pm.setStage name .stopped).runStage react name .uninstall with
      | (some uerr, pm) => (joinErrors [err, uerr], pm)
      | (none, pm) => (some err, pm.setStage name .uninstalled)
    | (none, pm) => (pm.setStage name .stopped).release react name
  else pm.release react name

/-- The loop of `StartPlugins` and of `StopPlugins`, with the errors it gathers. -/
def drive (one : Manager → Str → Option Str × Manager) (pm : Manager) (names : List Str) :
    List Str × Manager :=
  names.foldl (fun r name =>
    let res := one r.2 name
    (r.1 ++ (res.1.map fun err => ascii "plugin " ++ name ++ ascii ": " ++ err).toList, res.2))
    ([], pm)

def startPlugins (pm : Manager) : Option Str × Manager :=
  let r := drive (startOne react) pm pm.managedPlugins
  (joinErrors r.1, r.2)

def stopPlugins (pm : Manager) : Option Str × Manager :=
  let r := drive (stopOne react) pm pm.managedPlugins.reverse
  (joinErrors r.1, r.2)

end Manager

inductive Op where
  | startPlugins
  | stopPlugins

def Manager.apply (pm : Manager) : Op → Manager
  | .startPlugins => (pm.startPlugins react).2
  | .stopPlugins => (pm.stopPlugins react).2

def run (all : List Registered) (ops : List Op) : Manager :=
  ops.foldl (Manager.apply react) { all := all }

end Stages

/-! ## The order that the interface promises -/

namespace Call

def Is (fn : StageFn) (name : Str) (c : Call) : Prop := c.fn = fn ∧ c.plugin = name

def Did (fn : StageFn) (name : Str) (c : Call) : Prop := c.Is fn name ∧ c.outcome = .done

instance (fn : StageFn) (name : Str) : DecidablePred (Call.Is fn name) := fun _ =>
  inferInstanceAs (Decidable (_ ∧ _))

instance (fn : StageFn) (name : Str) : DecidablePred (Call.Did fn name) := fun _ =>
  inferInstanceAs (Decidable (_ ∧ _))

/-- `Start` needs an `Initialize` after which `Uninstall` was not called, `Stop` a `Start`
after which `Stop` was not called, and `Uninstall` an `Initialize` that was not undone. -/
def Allowed (past : List Call) (c : Call) : Prop :=
  match c.fn with
  | .init => True
  | .start => Since (Did .init c.plugin) (Is .uninstall c.plugin) past
  | .stop => Since (Did .start c.plugin) (Is .stop c.plugin) past
  | .uninstall => Since (Did .init c.plugin) (Did .uninstall c.plugin) past

end Call

def Ordered (trace : List Call) : Prop := EachAfter Call.Allowed trace

theorem ordered_concat {trace : List Call} {c : Call} :
    Ordered (trace ++ [c]) ↔ Ordered trace ∧ c.Allowed trace := eachAfter_concat

/-! ## What one plugin goes through -/

section OnePlugin

variable (react : List Call → Str → StageFn → Outcome) (pm : Manager) (name : Str)

/-- The stage a call leaves, by how it ended. -/
def Outcome.stage (o : Outcome) (ok failed : Stage) : Stage := if o = .done then ok else failed

/-- A call that is made and recorded in the stage of its plugin. -/
def Manager.after (pm : Manager) (c : Call) (s : Stage) : Manager :=
  { pm with calls := pm.calls ++ [c], stages := update pm.stages c.plugin s }

theorem activate_snd :
    (pm.activate react name).2 =
      if pm.stages name = .started then pm
      else pm.after ⟨name, .start, react pm.calls name .start⟩
        ((react pm.calls name .start).stage .started .initialized) := by
  unfold Manager.activate Manager.runStage
  split_ifs with hst
  · rfl
  · cases react pm.calls name .start <;> rfl

theorem startOne_snd :
    (pm.startOne react name).2 =
      if pm.stages name = .none then
        if react pm.calls name .init = .done then
          ((pm.after ⟨name, .init, .done⟩ .initialized).activate react name).2
        else pm.after ⟨name, .init, react pm.calls name .init⟩ .none
      else (pm.activate react name).2 := by
  unfold Manager.startOne Manager.runStage
  split_ifs with hst hdone
  · rw [hdone]
    rfl
  · cases hout : react pm.calls name .init with
    | done => exact absurd hout hdone
    | failed | panicked | timedOut => rfl
  · rfl

theorem release_snd :
    (pm.release react name).2 =
      pm.after ⟨name, .uninstall, react pm.calls name .uninstall⟩
        ((react pm.calls name .uninstall).stage .uninstalled .stopped) := by
  unfold Manager.release Manager.runStage
  cases react pm.calls name .uninstall <;> rfl

/-- Whether `Stop` fails or not, `Uninstall` comes next and decides the stage. -/
theorem stopOne_snd :
    (pm.stopOne react name).2 =
      if pm.stages name = .none ∨ pm.stages name = .uninstalled then pm
      else if pm.stages name = .started then
        ((pm.after ⟨name, .stop, react pm.calls name .stop⟩ .stopped).release react name).2
      else (pm.release react name).2 := by
  have huninstall : ∀ pm : Manager, pm.stages name = .stopped → ∀ err,
      (match pm.runStage react name .uninstall with
        | (some uerr, pm) => (joinErrors [err, uerr], pm)
        | (none, pm) => (some err, pm.setStage name .uninstalled)).2 =
      (pm.release react name).2 := by
    intro pm hst err
    have hkept : update pm.stages name .stopped = pm.stages := by rw [← hst, update_eq_self]
    unfold Manager.release Manager.runStage Manager.setStage
    cases react pm.calls name .uninstall <;> simp [Outcome.error, hkept]
  unfold Manager.stopOne
  simp only
  split_ifs with hidle hst
  · rfl
  · have hstopped : ∀ pm : Manager, (pm.setStage name .stopped).stages name = .stopped := by
      simp [Manager.setStage]
    unfold Manager.runStage
    cases react pm.calls name .stop with
    | done => rfl
    | failed err => exact huninstall _ (hstopped _) err
    | panicked | timedOut => exact huninstall _ (hstopped _) _
  · rfl

end OnePlugin

/-! ## What the stage of a plugin says of its calls -/

/-- `stopped` is left behind by an `Uninstall` that failed. -/
def Tracks (calls : List Call) (name : Str) : Stage → Prop
  | .none => True
  | .initialized => Since (Call.Did .init name) (Call.Is .uninstall name) calls
  | .started =>
    Since (Call.Did .init name) (Call.Is .uninstall name) calls ∧
      Since (Call.Did .start name) (Call.Is .stop name) calls
  | .stopped =>
    ¬ Since (Call.Did .init name) (Call.Is .uninstall name) calls ∧
      Since (Call.Did .init name) (Call.Did .uninstall name) calls
  | .uninstalled => ¬ Since (Call.Did .init name) (Call.Is .uninstall name) calls

/-- `stopOne` has been through the plugin. -/
def Stage.TornDown (s : Stage) : Prop := s = .stopped ∨ s = .uninstalled

/-- Calls of one plugin, which keep the order if `cond` holds and break it otherwise. -/
structure Step (pm pm' : Manager) (name : Str) (cond : Prop) : Prop where
  all_eq : pm'.all = pm.all
  stages_eq : ∀ n, n ≠ name → pm'.stages n = pm.stages n
  calls_eq : ∃ more, pm'.calls = pm.calls ++ more ∧ ∀ c ∈ more, c.plugin = name
  ordered_iff : Ordered pm'.calls ↔ Ordered pm.calls ∧ cond

namespace Step

variable {pm pm' pm'' : Manager} {name : Str} {cond cond' : Prop}

theorem refl (pm : Manager) (name : Str) : Step pm pm name True where
  all_eq := rfl
  stages_eq _ _ := rfl
  calls_eq := ⟨[], by simp, by simp⟩
  ordered_iff := by rw [and_true]

theorem trans (h : Step pm pm' name cond) (h' : Step pm' pm'' name cond') :
    Step pm pm'' name (cond ∧ cond') where
  all_eq := h'.all_eq.trans h.all_eq
  stages_eq n hn := (h'.stages_eq n hn).trans (h.stages_eq n hn)
  calls_eq := by
    obtain ⟨more, hcalls, hmore⟩ := h.calls_eq
    obtain ⟨more', hcalls', hmore'⟩ := h'.calls_eq
    exact ⟨more ++ more', by rw [hcalls', hcalls, List.append_assoc],
      List.forall_mem_append.mpr ⟨hmore, hmore'⟩⟩
  ordered_iff := by rw [h'.ordered_iff, h.ordered_iff, and_assoc]

theorem congr (h : Step pm pm' name cond) (hcond : Ordered pm.calls → (cond ↔ cond')) :
    Step pm pm' name cond' :=
  { h with ordered_iff := h.ordered_iff.trans (and_congr_right hcond) }

theorem after (pm : Manager) (c : Call) (s : Stage) :
    Step pm (pm.after c s) c.plugin (c.Allowed pm.calls) where
  all_eq := rfl
  stages_eq n hn := by simp [Manager.after, hn]
  calls_eq := ⟨[c], rfl, by simp⟩
  ordered_iff := ordered_concat

/-- The calls of one plugin say nothing of another. -/
theorem tracks_of_ne (h : Step pm pm' name cond) {n : Str} (hn : n ≠ name) (s : Stage) :
    Tracks pm'.calls n s ↔ Tracks pm.calls n s := by
  obtain ⟨more, hcalls, hmore⟩ := h.calls_eq
  have hsince : ∀ {good bad : Call → Prop}, (∀ c, good c → c.plugin = n) →
      (∀ c, bad c → c.plugin = n) → (Since good bad pm'.calls ↔ Since good bad pm.calls) := by
    intro good bad hgood hbad
    rw [hcalls]
    exact since_append fun c hc => ⟨fun h => hn ((hgood c h).symm.trans (hmore c hc)),
      fun h => hn ((hbad c h).symm.trans (hmore c hc))⟩
  have his : ∀ fn c, Call.Is fn n c → c.plugin = n := fun fn c hc => hc.2
  have hdid : ∀ fn c, Call.Did fn n c → c.plugin = n := fun fn c hc => hc.1.2
  cases s with
  | none => rfl
  | initialized => exact hsince (hdid _) (his _)
  | started => exact and_congr (hsince (hdid _) (his _)) (hsince (hdid _) (his _))
  | stopped => exact and_congr (not_congr (hsince (hdid _) (his _))) (hsince (hdid _) (hdid _))
  | uninstalled => exact not_congr (hsince (hdid _) (his _))

end Step

/-- Such calls, after which the stage says what the plugin has been through. -/
def Passes (pm pm' : Manager) (name : Str) (cond : Prop) : Prop :=
  Step pm pm' name cond ∧ (Ordered pm'.calls → Tracks pm'.calls name (pm'.stages name))

section OnePlugin

variable (react : List Call → Str → StageFn → Outcome) {pm : Manager} {name : Str}

@[simp] theorem after_calls (c : Call) (s : Stage) : (pm.after c s).calls = pm.calls ++ [c] := rfl

/-- After a `Start` that was allowed the stage is right. -/
theorem tracks_start {calls : List Call} (o : Outcome)
    (h : Since (Call.Did .init name) (Call.Is .uninstall name) calls) :
    Tracks (calls ++ [⟨name, .start, o⟩]) name (o.stage .started .initialized) := by
  unfold Outcome.stage
  split_ifs with hdone
  · simpa [Tracks, since_concat, Call.Did, Call.Is, hdone] using h
  · simpa [Tracks, since_concat, Call.Did, Call.Is] using h

/-- So it is after an `Uninstall` that was. -/
theorem tracks_uninstall {calls : List Call} (o : Outcome)
    (h : Since (Call.Did .init name) (Call.Did .uninstall name) calls) :
    Tracks (calls ++ [⟨name, .uninstall, o⟩]) name (o.stage .uninstalled .stopped) := by
  unfold Outcome.stage
  split_ifs with hdone
  · simp [Tracks, since_concat, Call.Did, Call.Is]
  · simpa [Tracks, since_concat, Call.Did, Call.Is, hdone] using h

/-- `activate`, which calls `Start` whatever the stage is, unless the plugin is started. -/
theorem activate_step (hst : pm.stages name ≠ .started) :
    Passes pm (pm.activate react name).2 name
      (Since (Call.Did .init name) (Call.Is .uninstall name) pm.calls) := by
  rw [activate_snd, if_neg hst]
  refine ⟨Step.after pm _ _, fun hord => ?_⟩
  have hinit := (ordered_concat.mp hord).2
  simpa [Manager.after] using tracks_start (react _ name .start) hinit

/-- **`startOne`.** A plugin that was torn down is started without `Initialize`; otherwise
the calls are in order. -/
theorem startOne_step (h : Ordered pm.calls → Tracks pm.calls name (pm.stages name)) :
    Passes pm (pm.startOne react name).2 name (¬ (pm.stages name).TornDown) := by
  rw [startOne_snd]
  by_cases hnone : pm.stages name = .none
  · rw [if_pos hnone, hnone]
    split_ifs with hdone
    · have hstage : (pm.after ⟨name, .init, .done⟩ .initialized).stages name ≠ .started := by
        simp [Manager.after]
      obtain ⟨hstart, htracks⟩ := activate_step react hstage
      have hinit := Step.after pm ⟨name, .init, .done⟩ .initialized
      refine ⟨(hinit.trans hstart).congr fun _ => ?_, htracks⟩
      simp [since_concat, Call.Did, Call.Is, Call.Allowed, Stage.TornDown]
    · refine ⟨(Step.after pm _ _).congr fun _ => ?_, fun _ => ?_⟩
      · simp [Call.Allowed, Stage.TornDown]
      · simp [Manager.after, Tracks]
  rw [if_neg hnone]
  by_cases hstarted : pm.stages name = .started
  · rw [activate_snd, if_pos hstarted]
    refine ⟨(Step.refl pm name).congr fun _ => ?_, h⟩
    simp [Stage.TornDown, hstarted]
  · obtain ⟨hstart, htracks⟩ := activate_step react hstarted
    refine ⟨hstart.congr fun hord => ?_, htracks⟩
    have htrack := h hord
    generalize pm.stages name = stage at hnone hstarted htrack ⊢
    cases stage with
    | none => exact absurd rfl hnone
    | started => exact absurd rfl hstarted
    | initialized => exact iff_of_true htrack (by simp [Stage.TornDown])
    | stopped => exact iff_of_false htrack.1 (by simp [Stage.TornDown])
    | uninstalled => exact iff_of_false htrack (by simp [Stage.TornDown])

/-- `release`, for a plugin whose `Initialize` has not been undone. -/
theorem release_step (h : Ordered pm.calls →
      Since (Call.Did .init name) (Call.Did .uninstall name) pm.calls) :
    Passes pm (pm.release react name).2 name True := by
  rw [release_snd]
  refine ⟨(Step.after pm _ _).congr fun hord => ?_, fun hord => ?_⟩
  · simpa [Call.Allowed] using h hord
  · have hinit := h (ordered_concat.mp hord).1
    simpa [Manager.after] using tracks_uninstall (react _ name .uninstall) hinit

/-- **`stopOne`.** The calls are in order whatever the stage. -/
theorem stopOne_step (h : Ordered pm.calls → Tracks pm.calls name (pm.stages name)) :
    Passes pm (pm.stopOne react name).2 name True := by
  have hweaken : ∀ calls, Since (Call.Did .init name) (Call.Is .uninstall name) calls →
      Since (Call.Did .init name) (Call.Did .uninstall name) calls :=
    fun calls hs => hs.mono fun c hc => hc.1
  rw [stopOne_snd]
  split_ifs with hidle hst
  · exact ⟨Step.refl pm name, h⟩
  · rw [hst] at h
    have hstop := Step.after pm ⟨name, .stop, react pm.calls name .stop⟩ .stopped
    have hheld : Ordered (pm.after ⟨name, .stop, react pm.calls name .stop⟩ .stopped).calls →
        Since (Call.Did .init name) (Call.Did .uninstall name)
          (pm.after ⟨name, .stop, react pm.calls name .stop⟩ .stopped).calls := by
      intro hord
      have hpast := (ordered_concat.mp hord).1
      simpa [since_concat, Call.Did, Call.Is] using hweaken _ (h hpast).1
    obtain ⟨hrelease, htracks⟩ := release_step react hheld
    refine ⟨(hstop.trans hrelease).congr fun hord => ?_, htracks⟩
    simpa [Call.Allowed] using (h hord).2
  · refine release_step react fun hord => ?_
    have htrack := h hord
    generalize pm.stages name = stage at hidle hst htrack
    cases stage with
    | none => exact absurd (Or.inl rfl) hidle
    | initialized => exact hweaken _ htrack
    | started => exact absurd rfl hst
    | stopped => exact htrack.2
    | uninstalled => exact absurd (Or.inr rfl) hidle

end OnePlugin

/-! ## Whole histories -/

/-- While the order is kept, every stage says what its plugin has been through. -/
def Coherent (pm : Manager) : Prop := Ordered pm.calls → ∀ n, Tracks pm.calls n (pm.stages n)

variable {pm : Manager}

theorem Passes.coherent {pm' : Manager} {name : Str} {cond : Prop} (h : Passes pm pm' name cond)
    (hpm : Coherent pm) : Step pm pm' name cond ∧ Coherent pm' := by
  refine ⟨h.1, fun hord n => ?_⟩
  rcases eq_or_ne n name with rfl | hn
  · exact h.2 hord
  · rw [h.1.stages_eq n hn, h.1.tracks_of_ne hn]
    exact hpm (h.1.ordered_iff.mp hord).1 n

/-- What a round of calls through different plugins leaves. -/
structure Round (pm pm' : Manager) (names : List Str) (cond : Stage → Prop) : Prop where
  coherent : Coherent pm'
  all_eq : pm'.all = pm.all
  stages_eq : ∀ n, n ∉ names → pm'.stages n = pm.stages n
  ordered_iff : Ordered pm'.calls ↔ Ordered pm.calls ∧ ∀ n ∈ names, cond (pm.stages n)

/-- Each plugin of the round is found in the stage that it had when the round began. -/
theorem drive_round {one : Manager → Str → Option Str × Manager} {cond : Stage → Prop}
    (hone : ∀ pm name, Coherent pm →
      Step pm (one pm name).2 name (cond (pm.stages name)) ∧ Coherent (one pm name).2)
    (hpm : Coherent pm) (names : List Str) (hnodup : names.Nodup) :
    Round pm (Manager.drive one pm names).2 names cond := by
  induction names using List.reverseRecOn with
  | nil => exact ⟨hpm, rfl, fun _ _ => rfl, by simp [Manager.drive]⟩
  | append_singleton names name ih =>
    obtain ⟨hnames, -, hne⟩ := List.nodup_append.mp hnodup
    have hnew : name ∉ names := fun hmem => hne name hmem name (by simp) rfl
    have hround := ih hnames
    have hlast : (Manager.drive one pm (names ++ [name])).2 =
        (one (Manager.drive one pm names).2 name).2 := by
      unfold Manager.drive
      rw [List.foldl_append]
      rfl
    obtain ⟨hstep, hcoherent⟩ := hone (Manager.drive one pm names).2 name hround.coherent
    rw [hlast]
    refine ⟨hcoherent, hstep.all_eq.trans hround.all_eq, ?_, ?_⟩
    · intro n hn
      rw [List.mem_append, List.mem_singleton, not_or] at hn
      rw [hstep.stages_eq n hn.2, hround.stages_eq n hn.1]
    · rw [hstep.ordered_iff, hround.ordered_iff, hround.stages_eq name hnew]
      simp [or_imp, forall_and, and_assoc]

namespace Manager

theorem mem_distinct {seen : List Str} {all : List Registered} {n : Str} :
    n ∈ distinct seen all → n ∉ seen := by
  fun_induction distinct seen all with
  | case1 seen => simp
  | case2 _ _ _ _ ih | case3 _ _ _ _ _ ih => exact ih
  | case4 seen p rest hmanaged hseen ih =>
    intro hn
    rcases List.mem_cons.mp hn with rfl | hn
    · exact hseen
    · exact fun hmem => ih hn (List.mem_cons_of_mem _ hmem)

theorem nodup_distinct (seen : List Str) (all : List Registered) : (distinct seen all).Nodup := by
  fun_induction distinct seen all with
  | case1 seen => exact List.nodup_nil
  | case2 _ _ _ _ ih | case3 _ _ _ _ _ ih => exact ih
  | case4 seen p rest hmanaged hseen ih =>
    exact List.nodup_cons.mpr ⟨fun hmem => mem_distinct hmem List.mem_cons_self, ih⟩

theorem nodup_managedPlugins (pm : Manager) : pm.managedPlugins.Nodup :=
  (List.perm_insertionSort _ _).nodup_iff.mpr (nodup_distinct [] pm.all)

end Manager

section Histories

variable (react : List Call → Str → StageFn → Outcome)

theorem startPlugins_round (h : Coherent pm) :
    Round pm (pm.startPlugins react).2 pm.managedPlugins fun s => ¬ s.TornDown := by
  refine drive_round (fun pm name hpm => ?_) h _ pm.nodup_managedPlugins
  exact (startOne_step react fun hord => hpm hord name).coherent hpm

theorem stopPlugins_round (h : Coherent pm) :
    Round pm (pm.stopPlugins react).2 pm.managedPlugins.reverse fun _ => True := by
  refine drive_round (fun pm name hpm => ?_) h _ (List.nodup_reverse.mpr pm.nodup_managedPlugins)
  exact (stopOne_step react fun hord => hpm hord name).coherent hpm

/-- No `StartPlugins` of the history finds a plugin that was torn down before. -/
def NeverRestarted (all : List Registered) (ops : List Op) : Prop :=
  EachAfter (fun before op => op = .startPlugins →
    ∀ n ∈ (run react all before).managedPlugins, ¬ ((run react all before).stages n).TornDown) ops

theorem run_concat (all : List Registered) (ops : List Op) (op : Op) :
    run react all (ops ++ [op]) = (run react all ops).apply react op := by
  unfold run
  rw [List.foldl_append]
  rfl

theorem coherent_run (all : List Registered) (ops : List Op) : Coherent (run react all ops) := by
  induction ops using List.reverseRecOn with
  | nil =>
    intro _ n
    trivial
  | append_singleton ops op ih =>
    rw [run_concat]
    cases op with
    | startPlugins => exact (startPlugins_round react ih).coherent
    | stopPlugins => exact (stopPlugins_round react ih).coherent

/-- The calls that the plugins see are in the promised order exactly if no `StartPlugins`
finds a plugin that an earlier `StopPlugins` has been through. -/
theorem ordered_iff_never_restarted (all : List Registered) (ops : List Op) :
    Ordered (run react all ops).calls ↔ NeverRestarted react all ops := by
  induction ops using List.reverseRecOn with
  | nil => exact iff_of_true eachAfter_nil eachAfter_nil
  | append_singleton ops op ih =>
    have hrun := coherent_run react all ops
    rw [NeverRestarted, eachAfter_concat, ← NeverRestarted, ← ih, run_concat]
    cases op with
    | startPlugins =>
      rw [Manager.apply, (startPlugins_round react hrun).ordered_iff]
      simp
    | stopPlugins =>
      rw [Manager.apply, (stopPlugins_round react hrun).ordered_iff]
      simp

end Histories

/-- Two cycles of start and stop of one plugin, none of whose stages fails: the second `Start`
comes after `Uninstall`, with no `Initialize` in between. -/
theorem restart_skips_initialize :
    (run (fun _ _ _ => .done) [⟨ascii "r", true⟩]
        [.startPlugins, .stopPlugins, .startPlugins, .stopPlugins]).calls.map Call.fn =
      [.init, .start, .stop, .uninstall, .start, .stop, .uninstall] ∧
    ¬ Ordered (run (fun _ _ _ => .done) [⟨ascii "r", true⟩]
        [.startPlugins, .stopPlugins, .startPlugins, .stopPlugins]).calls := by
  refine ⟨by decide +kernel, ?_⟩
  intro h
  have hstart : Since (Call.Did .init (ascii "r")) (Call.Is .uninstall (ascii "r"))
      (run (fun _ _ _ => .done) [⟨ascii "r", true⟩] [.startPlugins, .stopPlugins]).calls :=
    h _ ⟨ascii "r", .start, .done⟩
      [⟨ascii "r", .stop, .done⟩, ⟨ascii "r", .uninstall, .done⟩] (by decide +kernel)
  revert hstart
  decide +kernel

end SharkMqtt.Plugin
