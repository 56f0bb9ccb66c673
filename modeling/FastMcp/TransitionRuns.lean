import Mathlib.Data.List.Nodup
import Mathlib.Logic.Relation

/-! # Runs of a transition relation

A run is a finite chain of steps. Everything that is proved of whole runs goes
through the one rule below: a property of the initial state that every step
keeps is a property of every state a run reaches.
-/

namespace FastMcp.TransitionRuns

variable {State : Type*}

/-- The states that finitely many steps reach from an initial state. -/
def Reachable (step : State → State → Prop) (initial : State) : State → Prop :=
  Relation.ReflTransGen step initial

namespace Reachable

variable {step : State → State → Prop} {initial state next : State}

theorem start : Reachable step initial initial :=
  Relation.ReflTransGen.refl

theorem extend (reached : Reachable step initial state) (stepped : step state next) :
    Reachable step initial next :=
  Relation.ReflTransGen.tail reached stepped

/-- A property that holds initially and is kept by every step holds in every
reachable state. -/
theorem invariant {holds : State → Prop} (reached : Reachable step initial state)
    (initially : holds initial)
    (kept : ∀ current next, holds current → step current next → holds next) :
    holds state := by
  induction reached with
  | refl => exact initially
  | tail _ stepped ih => exact kept _ _ ih stepped

end Reachable

/-! ## Histories

A run may remember its events in a list. -/

variable {Event Key : Type*} {key : Event → Option Key}

/-- Where every key is carried by one event at most, a key determines its event. -/
theorem event_of_key {events : List Event} (once : (events.filterMap key).Nodup)
    {first second : Event} {value : Key} (firstListed : first ∈ events)
    (secondListed : second ∈ events) (firstCarries : key first = some value)
    (secondCarries : key second = some value) : first = second := by
  induction events with
  | nil => contradiction
  | cons event events ih =>
    have later : ∀ other ∈ events, key other = some value → key event ≠ some value := by
      intro other listed carries same
      rw [List.filterMap_cons_some same, List.nodup_cons] at once
      exact once.1 (List.mem_filterMap.mpr ⟨other, listed, carries⟩)
    have rest : (events.filterMap key).Nodup :=
      once.sublist ((List.sublist_cons_self event events).filterMap _)
    rcases List.mem_cons.mp firstListed with rfl | firstLater
    · rcases List.mem_cons.mp secondListed with rfl | secondLater
      · rfl
      · exact absurd firstCarries (later second secondLater secondCarries)
    · rcases List.mem_cons.mp secondListed with rfl | secondLater
      · exact absurd secondCarries (later first firstLater firstCarries)
      · exact ih rest firstLater secondLater

/-- A new event keeps the keys distinct if its own key is new. -/
theorem nodup_keys_cons {events : List Event} (once : (events.filterMap key).Nodup) {event : Event}
    (fresh : ∀ value, key event = some value → value ∉ events.filterMap key) :
    ((event :: events).filterMap key).Nodup := by
  cases carries : key event with
  | none => rwa [List.filterMap_cons_none carries]
  | some value =>
    rw [List.filterMap_cons_some carries]
    exact List.nodup_cons.mpr ⟨fresh value carries, once⟩

end FastMcp.TransitionRuns
