import MessageCenter.Lib.Simulation

/-!
# A program and the object that it uses

A program and an object run side by side and meet at what they show: the program shows the calls
that it makes and the results that it gets, the object the calls that it takes and the results
that it gives, and the two take such a step together.  A simulation of the object is one of the
pair, so what holds of the program over the simpler object holds over the other one.
-/

namespace Concurrency

universe u v w x y z a

namespace Observed

/-- Who takes the next step. -/
inductive Joint (Action : Type u) (Action' : Type v) where
  | program (action : Action)
  | object (action : Action')
  | both (action : Action) (action' : Action')
deriving DecidableEq, Repr

variable {Program : Type u} {ProgramAction : Type v} {State : Type w} {Action : Type x}
  {Obs : Type y} [DecidableEq Obs]

/-- A step of one of the two shows nothing, and what both show is the same. -/
def jointStep (program : Observed Program ProgramAction Obs) (object : Observed State Action Obs)
    (state : Program × State) : Joint ProgramAction Action → Option (Program × State)
  | .program action =>
      if program.label state.1 action = none then
        (program.machine.step state.1 action).map fun next => (next, state.2)
      else none
  | .object action =>
      if object.label state.2 action = none then
        (object.machine.step state.2 action).map fun next => (state.1, next)
      else none
  | .both action action' =>
      if (program.label state.1 action).isSome ∧
          program.label state.1 action = object.label state.2 action' then
        (program.machine.step state.1 action).bind fun next =>
          (object.machine.step state.2 action').map fun next' => (next, next')
      else none

/-- The program with its object. -/
def runOver (program : Observed Program ProgramAction Obs) (object : Observed State Action Obs) :
    Machine (Program × State) (Joint ProgramAction Action) :=
  ⟨(program.machine.init, object.machine.init), jointStep program object⟩

/-! ### What a step of the pair is -/

variable {program : Observed Program ProgramAction Obs} {object : Observed State Action Obs}
  {state next : Program × State}

theorem jointStep_program {action : ProgramAction}
    (hstep : jointStep program object state (.program action) = some next) :
    program.label state.1 action = none ∧ program.machine.step state.1 action = some next.1 ∧
      next.2 = state.2 := by
  rw [jointStep] at hstep
  split at hstep
  · next hlabel =>
    obtain ⟨after, hafter, rfl⟩ := Option.map_eq_some_iff.mp hstep
    exact ⟨hlabel, hafter, rfl⟩
  · cases hstep

theorem jointStep_object {action : Action}
    (hstep : jointStep program object state (.object action) = some next) :
    object.label state.2 action = none ∧ object.machine.step state.2 action = some next.2 ∧
      next.1 = state.1 := by
  rw [jointStep] at hstep
  split at hstep
  · next hlabel =>
    obtain ⟨after, hafter, rfl⟩ := Option.map_eq_some_iff.mp hstep
    exact ⟨hlabel, hafter, rfl⟩
  · cases hstep

theorem jointStep_both {action : ProgramAction} {action' : Action}
    (hstep : jointStep program object state (.both action action') = some next) :
    ∃ event, program.label state.1 action = some event ∧ object.label state.2 action' = some event ∧
      program.machine.step state.1 action = some next.1 ∧
      object.machine.step state.2 action' = some next.2 := by
  rw [jointStep] at hstep
  split at hstep
  · next hlabel =>
    obtain ⟨event, hevent⟩ := Option.isSome_iff_exists.mp hlabel.1
    obtain ⟨after, hafter, hrest⟩ := Option.bind_eq_some_iff.mp hstep
    obtain ⟨after', hafter', rfl⟩ := Option.map_eq_some_iff.mp hrest
    exact ⟨event, hevent, hlabel.2.symm.trans hevent, hafter, hafter'⟩
  · cases hstep

/-! ### Replacing the object -/

variable {State' : Type z} {Action' : Type a} {abstract : Observed State' Action' Obs}
  {rel : State → State' → Prop}

/-- The pair with the simpler object keeps up. -/
theorem Simulation.jointStep (hsim : Simulation object abstract rel) {state' : State'}
    {action : Joint ProgramAction Action} (hrel : rel state.2 state')
    (hstep : Observed.jointStep program object state action = some next) :
    (next.1 = state.1 ∧ rel next.2 state') ∨
      ∃ action' next', Observed.jointStep program abstract (state.1, state') action' =
        some (next.1, next') ∧ rel next.2 next' := by
  cases action with
  | program action =>
      obtain ⟨hlabel, hprogram, hsame⟩ := jointStep_program hstep
      refine Or.inr ⟨.program action, state', ?_, hsame ▸ hrel⟩
      rw [Observed.jointStep, if_pos hlabel, hprogram, Option.map_some]
  | object action =>
      obtain ⟨hlabel, hobject, hsame⟩ := jointStep_object hstep
      rcases hsim.step hrel hobject with ⟨-, hnext⟩ | ⟨action', next', hstep', hlabel', hnext⟩
      · exact Or.inl ⟨hsame, hnext⟩
      · refine Or.inr ⟨.object action', next', ?_, hnext⟩
        rw [Observed.jointStep, if_pos (hlabel'.trans hlabel), hstep', Option.map_some, hsame]
  | both action action' =>
      obtain ⟨event, hprogram, hobject, hstep₁, hstep₂⟩ := jointStep_both hstep
      rcases hsim.step hrel hstep₂ with ⟨hnone, -⟩ | ⟨action'', next', hstep', hlabel', hnext⟩
      · rw [hobject] at hnone
        cases hnone
      · refine Or.inr ⟨.both action action'', next', ?_, hnext⟩
        have hshown : (program.label state.1 action).isSome ∧
            program.label state.1 action = abstract.label state' action'' := by
          rw [hlabel', hobject, hprogram]
          exact ⟨rfl, rfl⟩
        rw [Observed.jointStep, if_pos hshown, hstep₁, Option.bind_some, hstep', Option.map_some]

/-- **The substitution rule.**  What the program can come to over an object, it can come to over
any object that simulates it. -/
theorem Simulation.reachable_runOver (hsim : Simulation object abstract rel)
    (hreach : (program.runOver object).Reachable state) :
    ∃ state', (program.runOver abstract).Reachable (state.1, state') ∧ rel state.2 state' := by
  refine Machine.Reachable.invariant
    (fun state => ∃ state', (program.runOver abstract).Reachable (state.1, state') ∧
      rel state.2 state') ?_ ?_ hreach
  · exact ⟨abstract.machine.init, Machine.ReachableUnder.init, hsim.init⟩
  · rintro state next action ⟨state', hreached, hrel⟩ hstep
    rcases hsim.jointStep hrel hstep with ⟨hsame, hnext⟩ | ⟨action', next', hstep', hnext⟩
    · exact ⟨state', hsame ▸ hreached, hnext⟩
    · exact ⟨next', hreached.next hstep', hnext⟩

end Observed

end Concurrency
