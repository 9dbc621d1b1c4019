import Mathlib.Data.List.Basic
import Mathlib.Data.List.GetD
import Mathlib.Logic.Function.Basic

/-!
# Machines with explicit scheduling

A concurrent component is a state, an initial value and a partial step
function.  The action names who moves and resolves every choice that the
program leaves open, so `step` itself is deterministic and computable: a
concrete schedule can be replayed by evaluation, and an arbitrary interleaving
is an arbitrary list of actions.

`ReachableUnder allowed` restricts a run to steps that satisfy a condition on
the state before the step and the action; `Reachable` is the unrestricted
case.  `Execution` keeps the whole sequence of states, for statements about
two instants of one run.
-/

namespace Concurrency

universe u v

/-- An initial state and a partial step function; `none` means that the action
is not enabled. -/
structure Machine (State : Type u) (Action : Type v) where
  init : State
  step : State → Action → Option State

namespace Machine

variable {State : Type u} {Action : Type v} (machine : Machine State Action)

/-- Perform a list of actions in order. -/
def run (state : State) : List Action → Option State
  | [] => some state
  | action :: rest => (machine.step state action).bind fun next => run next rest

@[simp] theorem run_nil (state : State) : machine.run state [] = some state := rfl

@[simp] theorem run_cons (state : State) (action : Action) (rest : List Action) :
    machine.run state (action :: rest) =
      (machine.step state action).bind fun next => machine.run next rest := rfl

theorem run_append (state : State) (first second : List Action) :
    machine.run state (first ++ second) =
      (machine.run state first).bind fun middle => machine.run middle second := by
  induction first generalizing state with
  | nil => rfl
  | cons action rest ih =>
      rw [List.cons_append, run_cons, run_cons]
      cases machine.step state action with
      | none => rfl
      | some next => exact ih next

/-- A predicate that every step keeps is kept by a run. -/
theorem run_keeps {machine : Machine State Action} {P : State → Prop}
    (hstep : ∀ state next action, P state → machine.step state action = some next → P next)
    {start state : State} {actions : List Action} (hstart : P start)
    (hrun : machine.run start actions = some state) : P state := by
  induction actions generalizing start with
  | nil =>
      obtain rfl := Option.some.inj hrun
      exact hstart
  | cons action rest ih =>
      obtain ⟨next, hnext, hrest⟩ := Option.bind_eq_some_iff.mp hrun
      exact ih (hstep start next action hstart hnext) hrest

/-! ### Reachability -/

/-- States reached from the initial one by steps that all satisfy `allowed`. -/
inductive ReachableUnder (allowed : State → Action → Prop) : State → Prop
  | init : ReachableUnder allowed machine.init
  | step {state next : State} {action : Action} :
      ReachableUnder allowed state → allowed state action →
      machine.step state action = some next → ReachableUnder allowed next

/-- States reached by any steps at all. -/
def Reachable (state : State) : Prop := machine.ReachableUnder (fun _ _ => True) state

variable {machine} {allowed : State → Action → Prop}

theorem Reachable.next {state next : State} {action : Action}
    (hreach : machine.Reachable state) (hstep : machine.step state action = some next) :
    machine.Reachable next :=
  ReachableUnder.step hreach trivial hstep

theorem ReachableUnder.next {state next : State} (hreach : machine.ReachableUnder allowed state)
    (action : Action) (hallowed : allowed state action)
    (hstep : machine.step state action = some next) : machine.ReachableUnder allowed next :=
  ReachableUnder.step hreach hallowed hstep

theorem ReachableUnder.reachable {state : State}
    (hreach : machine.ReachableUnder allowed state) : machine.Reachable state := by
  induction hreach with
  | init => exact ReachableUnder.init
  | step _ _ hstep ih => exact ih.next hstep

/-- **The invariant rule.**  A predicate that holds initially and is kept by
every allowed step holds in every state reached by allowed steps. -/
theorem ReachableUnder.invariant (Inv : State → Prop) (hinit : Inv machine.init)
    (hstep : ∀ state next action, Inv state → allowed state action →
      machine.step state action = some next → Inv next)
    {state : State} (hreach : machine.ReachableUnder allowed state) : Inv state := by
  induction hreach with
  | init => exact hinit
  | step _ hallowed hnext ih => exact hstep _ _ _ ih hallowed hnext

theorem Reachable.invariant (Inv : State → Prop) (hinit : Inv machine.init)
    (hstep : ∀ state next action, Inv state →
      machine.step state action = some next → Inv next)
    {state : State} (hreach : machine.Reachable state) : Inv state :=
  ReachableUnder.invariant Inv hinit (fun s n a hs _ hn => hstep s n a hs hn) hreach

theorem Reachable.of_run {start state : State} {actions : List Action}
    (hstart : machine.Reachable start) (hrun : machine.run start actions = some state) :
    machine.Reachable state :=
  run_keeps (fun _ _ _ hreach hnext => hreach.next hnext) hstart hrun

/-- A schedule that runs to the end reaches a state in which any test that
evaluates to true there holds. -/
theorem exists_reachable_of_run (machine : Machine State Action) (actions : List Action)
    (test : State → Bool)
    (hrun : (machine.run machine.init actions).map test = some true) :
    ∃ state, machine.Reachable state ∧ test state = true := by
  rw [Option.map_eq_some_iff] at hrun
  obtain ⟨state, hstate, htest⟩ := hrun
  exact ⟨state, Reachable.of_run ReachableUnder.init hstate, htest⟩

/-- **The termination rule.**  If every state that is not done has a step that lowers
the rank, then a run ends. -/
theorem exists_run_of_rank (machine : Machine State Action) (P : Nat → State → Prop)
    (done : State → Prop)
    (hstep : ∀ rank state, P rank state → ¬ done state → ∃ action next rank',
      machine.step state action = some next ∧ rank' < rank ∧ P rank' next)
    {rank : Nat} {start : State} (hstart : P rank start) :
    ∃ actions last rank', machine.run start actions = some last ∧ done last ∧ P rank' last := by
  induction rank using Nat.strongRecOn generalizing start with
  | ind rank ih =>
      by_cases hdone : done start
      · exact ⟨[], start, rank, rfl, hdone, hstart⟩
      · obtain ⟨action, next, lower, hnext, hlt, hkept⟩ := hstep rank start hstart hdone
        obtain ⟨actions, last, rank', hrun, hlast, hfinal⟩ := ih lower hlt hkept
        refine ⟨action :: actions, last, rank', ?_, hlast, hfinal⟩
        rw [run_cons, hnext]
        exact hrun

/-- Perform a list of actions as long as a test admits them. -/
def runUnder (check : State → Action → Bool) (state : State) : List Action → Option State
  | [] => some state
  | action :: rest =>
      if check state action then
        (machine.step state action).bind fun next => runUnder check next rest
      else none

theorem ReachableUnder.of_run {check : State → Action → Bool}
    (hcheck : ∀ state action, check state action = true → allowed state action)
    {start state : State} {actions : List Action} (hstart : machine.ReachableUnder allowed start)
    (hrun : machine.runUnder check start actions = some state) :
    machine.ReachableUnder allowed state := by
  induction actions generalizing start with
  | nil =>
      obtain rfl := Option.some.inj hrun
      exact hstart
  | cons action rest ih =>
      simp only [runUnder, Option.ite_none_right_eq_some] at hrun
      obtain ⟨hadmitted, hrest⟩ := hrun
      obtain ⟨next, hnext, hrest⟩ := Option.bind_eq_some_iff.mp hrest
      exact ih (hstart.next action (hcheck start action hadmitted) hnext) hrest

/-- The same for schedules whose steps are all admitted by a test. -/
theorem exists_reachableUnder_of_run (machine : Machine State Action)
    (check : State → Action → Bool)
    (hcheck : ∀ state action, check state action = true → allowed state action)
    (actions : List Action) (test : State → Bool)
    (hrun : (machine.runUnder check machine.init actions).map test = some true) :
    ∃ state, machine.ReachableUnder allowed state ∧ test state = true := by
  obtain ⟨state, hstate, htest⟩ := Option.map_eq_some_iff.mp hrun
  exact ⟨state, ReachableUnder.of_run hcheck ReachableUnder.init hstate, htest⟩

end Machine

/-! ### Executions -/

/-- A finite run with all its states: `action k` leads from `state k` to
`state (k + 1)` for every `k` below `length`.  Values past the end carry no
meaning. -/
structure Execution {State : Type u} {Action : Type v} (machine : Machine State Action) where
  length : Nat
  state : Nat → State
  action : Nat → Action
  starts : state 0 = machine.init
  steps : ∀ k, k < length → machine.step (state k) (action k) = some (state (k + 1))

namespace Execution

variable {State : Type u} {Action : Type v} {machine : Machine State Action}

/-- Every step of the execution satisfies `allowed`. -/
def Allowed (allowed : State → Action → Prop) (exec : Execution machine) : Prop :=
  ∀ k, k < exec.length → allowed (exec.state k) (exec.action k)

theorem reachableUnder {allowed : State → Action → Prop} (exec : Execution machine)
    (hallowed : exec.Allowed allowed) {k : Nat} (hk : k ≤ exec.length) :
    machine.ReachableUnder allowed (exec.state k) := by
  induction k with
  | zero => rw [exec.starts]; exact Machine.ReachableUnder.init
  | succ k ih =>
      have hlt : k < exec.length := hk
      exact Machine.ReachableUnder.step (ih (Nat.le_of_lt hlt)) (hallowed k hlt)
        (exec.steps k hlt)

theorem reachable (exec : Execution machine) {k : Nat} (hk : k ≤ exec.length) :
    machine.Reachable (exec.state k) :=
  exec.reachableUnder (fun _ _ => trivial) hk

/-- A property kept by every step between two instants of an execution is
carried from the first to the second. -/
theorem carry (exec : Execution machine) {P : State → Prop} {i j : Nat}
    (hij : i ≤ j) (hj : j ≤ exec.length) (hi : P (exec.state i))
    (hstep : ∀ k, i ≤ k → k < j → P (exec.state k) → P (exec.state (k + 1))) :
    P (exec.state j) := by
  induction hij with
  | refl => exact hi
  | @step k hik ih =>
      have hk : k < exec.length := hj
      exact hstep k hik (Nat.lt_succ_self k)
        (ih (Nat.le_of_lt hk) (fun m him hmk => hstep m him (Nat.lt_succ_of_lt hmk)))

/-- The execution of a list of actions that are all enabled. -/
def ofActions [Inhabited Action] (machine : Machine State Action) (actions : List Action)
    (henabled : (machine.run machine.init actions).isSome = true) : Execution machine where
  length := actions.length
  state k := (machine.run machine.init (actions.take k)).getD machine.init
  action k := actions.getD k default
  starts := by simp
  steps := by
    intro k hk
    have hdone : ∀ n, (machine.run machine.init (actions.take n)).isSome = true := by
      intro n
      have hsplit := machine.run_append machine.init (actions.take n) (actions.drop n)
      rw [List.take_append_drop] at hsplit
      rw [hsplit] at henabled
      cases hrun : machine.run machine.init (actions.take n) with
      | none => simp [hrun] at henabled
      | some state => rfl
    obtain ⟨before, hbefore⟩ := Option.isSome_iff_exists.mp (hdone k)
    obtain ⟨after, hafter⟩ := Option.isSome_iff_exists.mp (hdone (k + 1))
    have hsnoc : actions.take (k + 1) = actions.take k ++ [actions[k]] := by
      rw [List.take_append_getElem]
    have hnext := hafter
    rw [hsnoc, Machine.run_append, hbefore] at hnext
    have hnext : machine.step before actions[k] = some after := by
      simpa [Option.bind_eq_some_iff] using hnext
    rw [hbefore, hafter, List.getD_eq_getElem actions default hk]
    exact hnext

end Execution

end Concurrency
