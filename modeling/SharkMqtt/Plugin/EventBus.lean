import SharkMqtt.Lib.Runs
import SharkMqtt.Plugin.Lifecycle

/-!
# The event bus

`plugin/eventbus.go` and the calls that `broker/lifecycle.go` and `setStage` make of it. The bus
belongs to the plugin manager, which stops it after the plugins. Nothing starts it again, so a
broker that has been stopped once delivers no event in its later cycles, those of the plugins
included, and reports none of them as lost (`delivers_iff_never_stopped`).
-/

namespace SharkMqtt.Plugin

open Lib Function

inductive Event where
  | brokerStarted | brokerStopped
  | clientConnected | clientDisconnected
  | messagePublished | messageDelivered
  | subscribed | unsubscribed
  | retainedChanged
  | pluginInitialized | pluginStarted | pluginStopped | pluginUninstalled
deriving DecidableEq

/-- The event with which `setStage` reports a stage. -/
def Stage.event : Stage → Option Event
  | .none => .none
  | .initialized => some .pluginInitialized
  | .started => some .pluginStarted
  | .stopped => some .pluginStopped
  | .uninstalled => some .pluginUninstalled

/-- Subscribers are compared by identity. -/
structure Bus (S : Type) where
  subs : Event → List S := fun _ => []
  stopped : Bool := false

variable {S : Type}

namespace Bus

variable [DecidableEq S] (b : Bus S)

def subscribe (ev : Event) (s : S) : Bus S := { b with subs := update b.subs ev (b.subs ev ++ [s]) }

def unsubscribe (ev : Event) (s : S) : Bus S :=
  { b with subs := update b.subs ev ((b.subs ev).filter (· ≠ s)) }

omit [DecidableEq S] in
/-- The subscribers `Publish` calls, in order. -/
def publish (kind : Event) : List S := if b.stopped then [] else b.subs kind

def stop : Bus S := { b with stopped := true }

end Bus

/-- A broker, as far as its bus goes; `delivered` is what the subscribers have seen. -/
structure BusBroker (S : Type) where
  started : Bool := false
  bus : Bus S := {}
  delivered : List (Event × S) := []

/-- `stages` are those that `setStage` records meanwhile, whatever the plugins do. -/
inductive BrokerOp (S : Type) where
  | start (stages : List Stage)
  | stop (stages : List Stage)
  | subscribe (ev : Event) (s : S)
  | unsubscribe (ev : Event) (s : S)
  | publish (kind : Event)

def BusBroker.publishEvent (b : BusBroker S) (kind : Event) : BusBroker S :=
  { b with delivered := b.delivered ++ (b.bus.publish kind).map (kind, ·) }

/-- The calls of `setStage` while the plugins are started or stopped. -/
def BusBroker.setStages (b : BusBroker S) (stages : List Stage) : BusBroker S :=
  (stages.filterMap Stage.event).foldl BusBroker.publishEvent b

def BusBroker.apply [DecidableEq S] (b : BusBroker S) : BrokerOp S → BusBroker S
  | .start stages =>
    if b.started then b
    else ({ b with started := true }.setStages stages).publishEvent .brokerStarted
  | .stop stages =>
    let b := (b.publishEvent .brokerStopped).setStages stages
    { b with bus := b.bus.stop, started := false }
  | .subscribe ev s => { b with bus := b.bus.subscribe ev s }
  | .unsubscribe ev s => { b with bus := b.bus.unsubscribe ev s }
  | .publish kind => b.publishEvent kind

def cycles [DecidableEq S] (ops : List (BrokerOp S)) : BusBroker S := ops.foldl BusBroker.apply {}

@[simp] theorem bus_setStages (b : BusBroker S) (stages : List Stage) :
    (b.setStages stages).bus = b.bus := by
  unfold BusBroker.setStages
  apply foldl_keeps
  exact fun _ _ _ => rfl

theorem stopped_iff [DecidableEq S] (ops : List (BrokerOp S)) :
    (cycles ops).bus.stopped = true ↔ ∃ stages, .stop stages ∈ ops := by
  induction ops using List.reverseRecOn with
  | nil => simp [cycles]
  | append_singleton ops op ih =>
    have hstep : cycles (ops ++ [op]) = (cycles ops).apply op := by
      unfold cycles
      rw [List.foldl_append]
      rfl
    simp only [hstep, List.mem_append, exists_or, ← ih]
    cases op with
    | start stages =>
      unfold BusBroker.apply
      split_ifs <;> simp [BusBroker.publishEvent]
    | stop stages => simp [BusBroker.apply, Bus.stop]
    | _ => simp [BusBroker.apply, Bus.subscribe, Bus.unsubscribe, BusBroker.publishEvent]

/-- **Events reach their subscribers in the first cycle only.** A broker delivers every event
to all that are registered for it exactly if it was never stopped, or nothing is registered. -/
theorem delivers_iff_never_stopped [DecidableEq S] (ops : List (BrokerOp S)) :
    (∀ kind, ((cycles ops).apply (.publish kind)).delivered =
      (cycles ops).delivered ++ ((cycles ops).bus.subs kind).map (kind, ·)) ↔
      (∀ stages, .stop stages ∉ ops) ∨ ∀ kind, (cycles ops).bus.subs kind = [] := by
  simp only [BusBroker.apply, BusBroker.publishEvent, Bus.publish, List.append_cancel_left_eq]
  rw [← not_exists, ← stopped_iff]
  cases (cycles ops).bus.stopped with
  | false | true => simp

/-- Subscribers for accepted connections and for started plugins: in the second cycle, whose
plugins are started once more, they are told nothing; the one delivery is of the first. -/
theorem second_cycle_is_silent :
    let b := cycles [.subscribe .clientConnected "s", .subscribe .pluginStarted "p",
      .start [.initialized, .started], .stop [.stopped, .uninstalled], .start [.started]]
    b.started = true ∧ b.bus.subs .clientConnected = ["s"] ∧ b.bus.subs .pluginStarted = ["p"] ∧
      (b.apply (.publish .clientConnected)).delivered = [(.pluginStarted, "p")] :=
  ⟨rfl, rfl, rfl, rfl⟩

end SharkMqtt.Plugin
