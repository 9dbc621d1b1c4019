import MessageCenter.Lib.Machine

/-!
# Histories and simulations

What is seen of a machine from outside: a label says what one step shows, and the history of a
run is what its steps have shown, in order.  A machine refines another one if it has no other
histories.  In a simulation the other machine answers each step with a step that shows the same,
or stays where it is if the step shows nothing; so a simulation gives a refinement.
-/

namespace Concurrency

universe u v w x y

/-- A machine with what its steps show. -/
structure Observed (State : Type u) (Action : Type v) (Obs : Type w) where
  machine : Machine State Action
  label : State → Action → Option Obs

namespace Observed

variable {State : Type u} {Action : Type v} {Obs : Type w} (sys : Observed State Action Obs)

/-- A run that shows this history leads to this state. -/
inductive Reaches : List Obs → State → Prop
  | init : Reaches [] sys.machine.init
  | step {history : List Obs} {state next : State} {action : Action} :
      Reaches history state → sys.machine.step state action = some next →
        Reaches (history ++ (sys.label state action).toList) next

variable {sys}

theorem Reaches.reachable {history : List Obs} {state : State}
    (hreaches : sys.Reaches history state) : sys.machine.Reachable state := by
  induction hreaches with
  | init => exact Machine.ReachableUnder.init
  | step _ hstep ih => exact ih.next hstep

theorem Reaches.of_step {history shown : List Obs} {state next : State} {action : Action}
    (hreaches : sys.Reaches history state) (hstep : sys.machine.step state action = some next)
    (hlabel : (sys.label state action).toList = shown) : sys.Reaches (history ++ shown) next :=
  hlabel ▸ hreaches.step hstep

/-- What a run from `state` shows. -/
def shown (sys : Observed State Action Obs) (state : State) :
    List Action → Option (List Obs × State)
  | [] => some ([], state)
  | action :: rest =>
      (sys.machine.step state action).bind fun next =>
        (shown sys next rest).map fun (history, last) =>
          ((sys.label state action).toList ++ history, last)

theorem Reaches.of_shown {history later : List Obs} {state last : State} {actions : List Action}
    (hreaches : sys.Reaches history state) (hshown : sys.shown state actions = some (later, last)) :
    sys.Reaches (history ++ later) last := by
  induction actions generalizing history later state with
  | nil =>
      obtain ⟨rfl, rfl⟩ := Prod.mk.inj (Option.some.inj hshown)
      rw [List.append_nil]
      exact hreaches
  | cons action rest ih =>
      obtain ⟨next, hstep, hrest⟩ := Option.bind_eq_some_iff.mp hshown
      obtain ⟨⟨more, state'⟩, hmore, heq⟩ := Option.map_eq_some_iff.mp hrest
      obtain ⟨rfl, rfl⟩ := Prod.mk.inj heq
      rw [← List.append_assoc]
      exact ih (hreaches.step hstep) hmore

variable {State' : Type x} {Action' : Type y} {abstract : Observed State' Action' Obs}

/-- Every history is one of the other machine. -/
def Refines (sys : Observed State Action Obs) (abstract : Observed State' Action' Obs) : Prop :=
  ∀ history state, sys.Reaches history state → ∃ state', abstract.Reaches history state'

/-- The other machine keeps up with every step. -/
structure Simulation (sys : Observed State Action Obs) (abstract : Observed State' Action' Obs)
    (rel : State → State' → Prop) : Prop where
  init : rel sys.machine.init abstract.machine.init
  step : ∀ {state next : State} {state' : State'} {action : Action}, rel state state' →
    sys.machine.step state action = some next →
      (sys.label state action = none ∧ rel next state') ∨
        ∃ action' next', abstract.machine.step state' action' = some next' ∧
          abstract.label state' action' = sys.label state action ∧ rel next next'

/-- **The simulation rule.** -/
theorem Simulation.reaches {rel : State → State' → Prop} (hsim : Simulation sys abstract rel)
    {history : List Obs} {state : State} (hreaches : sys.Reaches history state) :
    ∃ state', abstract.Reaches history state' ∧ rel state state' := by
  induction hreaches with
  | init => exact ⟨abstract.machine.init, Reaches.init, hsim.init⟩
  | step _ hstep ih =>
      obtain ⟨state', hreached, hrel⟩ := ih
      rcases hsim.step hrel hstep with ⟨hlabel, hnext⟩ | ⟨action', next', hstep', hlabel, hnext⟩
      · rw [hlabel, Option.toList_none, List.append_nil]
        exact ⟨state', hreached, hnext⟩
      · exact ⟨next', hlabel ▸ hreached.step hstep', hnext⟩

theorem Simulation.refines {rel : State → State' → Prop} (hsim : Simulation sys abstract rel) :
    sys.Refines abstract := fun _ _ hreaches =>
  let ⟨state', hreached, _⟩ := hsim.reaches hreaches
  ⟨state', hreached⟩

end Observed

end Concurrency
