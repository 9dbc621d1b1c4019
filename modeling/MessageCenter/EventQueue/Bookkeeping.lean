import Mathlib.Data.List.Basic
import Mathlib.Logic.Function.Basic
import MessageCenter.Lib.Machine

/-!
# The bookkeeping of `EventQueue::Dispatch`

Any number of threads use any number of `EventQueue` objects.  A handler may do what the code
outside may do: call `Dispatch` of any queue, add and remove observers; and it may return, or let
an exception out, which leaves its `Dispatch` too and goes on in the code that called it.  An
exception that is caught inside the handler does not matter here.

`Dispatch` calls `MarkDispatchActive` before its loop and `MarkDispatchComplete` after it, with
nothing that would restore the count on the way of an exception; and `tl_inDispatch` is one
boolean, which the inner of two nested calls clears for the outer one.

Each of the two is one step, with the critical section beside it: the flag is read by its own
thread only.
-/

namespace MessageCenter.EventQueue.Bookkeeping

open Concurrency

universe u v

abbrev Handler := Nat

/-- Where a call is. -/
inductive CallPc where
  /-- in the loop of `Dispatch`, with the handlers of the snapshot that are still to come -/
  | next (remaining : List Handler)
  /-- in the loop of `Dispatch`, inside a handler -/
  | handler (remaining : List Handler)
  /-- in `RemoveObserver`, at the test of `tl_inDispatch` in `WaitForDispatchesToComplete` -/
  | waitCheck
  /-- in `RemoveObserver`, at `m_cvDispatches.wait` -/
  | waiting
deriving DecidableEq, Repr

structure Call (Tid : Type u) (Q : Type v) where
  thread : Tid
  queue : Q
  pc : CallPc
deriving DecidableEq, Repr

variable {Tid : Type u} {Q : Type v}

/-- A call of `Dispatch` in its invocation loop. -/
def Call.isDispatch (call : Call Tid Q) : Bool :=
  match call.pc with
  | .next _ | .handler _ => true
  | .waitCheck | .waiting => false

def Call.inHandler (call : Call Tid Q) : Bool :=
  match call.pc with
  | .handler _ => true
  | .next _ | .waitCheck | .waiting => false

/-- `calls` are the calls in progress, those of one thread from the innermost to the outermost;
`observers` are the handlers of each topic of a queue. -/
structure State (Tid : Type u) (Q : Type v) where
  observers : Q → Int → List Handler
  m_activeDispatches : Q → Int
  tl_inDispatch : Tid → Bool
  calls : List (Call Tid Q)

inductive Action (Tid : Type u) (Q : Type v) where
  | addObserver (t : Tid) (queue : Q) (topicId : Int) (handler : Handler)
  | removeObserver (t : Tid) (queue : Q) (topicId : Int) (handler : Handler)
  /-- with a message that is not null -/
  | dispatch (t : Tid) (queue : Q) (topicId : Int)
  /-- the next step of the innermost call -/
  | run (t : Tid)
  | handlerReturn (t : Tid)
  /-- the handler is left by an exception, and so is its `Dispatch` -/
  | handlerThrow (t : Tid)
deriving DecidableEq, Repr

def init : State Tid Q where
  observers := fun _ _ => []
  m_activeDispatches := fun _ => 0
  tl_inDispatch := fun _ => false
  calls := []

section Steps

variable [DecidableEq Tid]

/-- The calls of a thread. -/
def State.stack (s : State Tid Q) (t : Tid) : List (Call Tid Q) :=
  s.calls.filter fun call => call.thread = t

/-- The thread runs code of the user: outside all calls, or inside a handler. -/
def State.inUserCode (s : State Tid Q) (t : Tid) : Bool :=
  (s.stack t).head?.all Call.inHandler

def State.push (s : State Tid Q) (call : Call Tid Q) : State Tid Q :=
  { s with calls := call :: s.calls }

/-- End the innermost call of the thread. -/
def State.pop (s : State Tid Q) (t : Tid) : State Tid Q :=
  { s with calls := s.calls.eraseP fun call => call.thread = t }

variable [DecidableEq Q]

def State.markDispatchActive (s : State Tid Q) (t : Tid) (queue : Q) : State Tid Q :=
  { s with
    m_activeDispatches :=
      Function.update s.m_activeDispatches queue (s.m_activeDispatches queue + 1)
    tl_inDispatch := Function.update s.tl_inDispatch t true }

def State.markDispatchComplete (s : State Tid Q) (t : Tid) (queue : Q) : State Tid Q :=
  { s with
    tl_inDispatch := Function.update s.tl_inDispatch t false
    m_activeDispatches :=
      Function.update s.m_activeDispatches queue (s.m_activeDispatches queue - 1) }

/-- The next step of the call `call`, the innermost of its thread. -/
def State.run (s : State Tid Q) (call : Call Tid Q) : Option (State Tid Q) :=
  match call.pc with
  | .next (_ :: remaining) =>
      some ((s.pop call.thread).push { call with pc := .handler remaining })
  | .next [] => some ((s.markDispatchComplete call.thread call.queue).pop call.thread)
  | .handler _ => none
  | .waitCheck =>
      if s.tl_inDispatch call.thread then some (s.pop call.thread)
      else some ((s.pop call.thread).push { call with pc := .waiting })
  | .waiting => if s.m_activeDispatches call.queue = 0 then some (s.pop call.thread) else none

def step (s : State Tid Q) : Action Tid Q → Option (State Tid Q)
  | .addObserver t queue topicId handler =>
      if s.inUserCode t then
        some { s with
          observers := Function.update s.observers queue
            (Function.update (s.observers queue) topicId
              (s.observers queue topicId ++ [handler])) }
      else none
  | .removeObserver t queue topicId handler =>
      if s.inUserCode t then
        some ({ s with
          observers := Function.update s.observers queue
            (Function.update (s.observers queue) topicId
              ((s.observers queue topicId).filter (· ≠ handler))) }.push
                ⟨t, queue, .waitCheck⟩)
      else none
  | .dispatch t queue topicId =>
      if s.inUserCode t then
        some ((s.markDispatchActive t queue).push ⟨t, queue, .next (s.observers queue topicId)⟩)
      else none
  | .run t => (s.stack t).head?.bind s.run
  | .handlerReturn t =>
      match (s.stack t).head? with
      | some ⟨_, queue, .handler remaining⟩ =>
          some ((s.pop t).push ⟨t, queue, .next remaining⟩)
      | _ => none
  | .handlerThrow t =>
      match (s.stack t).head? with
      | some ⟨_, _, .handler _⟩ => some (s.pop t)
      | _ => none

def machine (Tid : Type u) (Q : Type v) [DecidableEq Tid] [DecidableEq Q] :
    Machine (State Tid Q) (Action Tid Q) := ⟨init, step⟩

end Steps

/-! ### The calls of a thread -/

section Stacks

variable {α : Type u} {p q : α → Bool} {a : α} {l rest : List α}

theorem filter_eraseP_self (p : α → Bool) (l : List α) :
    (l.eraseP p).filter p = (l.filter p).tail := by
  induction l with
  | nil => rfl
  | cons a l ih =>
      cases hp : p a with
      | true => rw [List.eraseP_cons_of_pos hp, List.filter_cons_of_pos hp, List.tail_cons]
      | false =>
          rw [List.eraseP_cons_of_neg (by simp [hp]), List.filter_cons_of_neg (by simp [hp]),
            List.filter_cons_of_neg (by simp [hp]), ih]

theorem filter_eraseP_other (hapart : ∀ a, p a = true → q a = false) (l : List α) :
    (l.eraseP p).filter q = l.filter q := by
  induction l with
  | nil => rfl
  | cons a l ih =>
      cases hp : p a with
      | true =>
          rw [List.eraseP_cons_of_pos hp, List.filter_cons_of_neg (by simp [hapart a hp])]
      | false => rw [List.eraseP_cons_of_neg (by simp [hp]), List.filter_cons, List.filter_cons, ih]

theorem perm_cons_eraseP (hfilter : l.filter p = a :: rest) : l.Perm (a :: l.eraseP p) := by
  induction l with
  | nil => cases hfilter
  | cons b l ih =>
      cases hp : p b with
      | true =>
          rw [List.filter_cons_of_pos hp] at hfilter
          obtain rfl := (List.cons.inj hfilter).1
          rw [List.eraseP_cons_of_pos hp]
      | false =>
          rw [List.filter_cons_of_neg (by simp [hp])] at hfilter
          rw [List.eraseP_cons_of_neg (by simp [hp])]
          exact ((ih hfilter).cons b).trans (List.Perm.swap ..)

end Stacks

variable [DecidableEq Tid] {s next : State Tid Q} {t u : Tid} {call top : Call Tid Q}
  {rest : List (Call Tid Q)} {queue : Q}

/-- The thread is inside some call of `Dispatch`. -/
def State.InDispatch (s : State Tid Q) (t : Tid) : Prop :=
  ∃ call, call ∈ s.stack t ∧ call.isDispatch = true

/-- The thread waits in a removal on the queue. -/
def State.WaitsOn (s : State Tid Q) (t : Tid) (queue : Q) : Prop :=
  ⟨t, queue, .waiting⟩ ∈ s.stack t

/-- Only the innermost call of a thread can be outside a handler. -/
def Placed (s : State Tid Q) : Prop :=
  ∀ t, ∀ call ∈ (s.stack t).tail, call.inHandler = true

theorem thread_of_mem_stack (hmem : call ∈ s.stack t) : call.thread = t := by
  simpa using List.of_mem_filter hmem

omit [DecidableEq Tid] in
@[simp] theorem push_m_activeDispatches (s : State Tid Q) (call : Call Tid Q) :
    (s.push call).m_activeDispatches = s.m_activeDispatches := rfl

omit [DecidableEq Tid] in
@[simp] theorem push_tl_inDispatch (s : State Tid Q) (call : Call Tid Q) :
    (s.push call).tl_inDispatch = s.tl_inDispatch := rfl

@[simp] theorem pop_tl_inDispatch (s : State Tid Q) (t : Tid) :
    (s.pop t).tl_inDispatch = s.tl_inDispatch := rfl

@[simp] theorem pop_m_activeDispatches (s : State Tid Q) (t : Tid) :
    (s.pop t).m_activeDispatches = s.m_activeDispatches := rfl

theorem stack_push_self (hthread : call.thread = t) :
    (s.push call).stack t = call :: s.stack t := by
  simp [State.stack, State.push, hthread]

theorem stack_push_other (hne : call.thread ≠ t) : (s.push call).stack t = s.stack t := by
  simp [State.stack, State.push, hne]

theorem stack_pop_self (s : State Tid Q) (t : Tid) : (s.pop t).stack t = (s.stack t).tail :=
  filter_eraseP_self _ _

theorem stack_pop_other (hne : u ≠ t) : (s.pop t).stack u = s.stack u := by
  refine filter_eraseP_other (fun call hcall => ?_) _
  rw [decide_eq_true_iff] at hcall
  rw [decide_eq_false_iff_not, hcall]
  exact Ne.symm hne

theorem inDispatch_push_self (hthread : call.thread = t) :
    (s.push call).InDispatch t ↔ call.isDispatch = true ∨ s.InDispatch t := by
  simp [State.InDispatch, stack_push_self hthread]

theorem inDispatch_of_stack (hstack : s.stack t = top :: rest) :
    s.InDispatch t ↔ top.isDispatch = true ∨ (s.pop t).InDispatch t := by
  simp [State.InDispatch, stack_pop_self, hstack]

theorem Placed.of_inUserCode (hplaced : Placed s) (huser : s.inUserCode t = true) :
    ∀ call ∈ s.stack t, call.inHandler = true := by
  intro call hmem
  have htail := hplaced t
  rw [State.inUserCode] at huser
  cases hstack : s.stack t with
  | nil =>
      rw [hstack] at hmem
      cases hmem
  | cons top rest =>
      rw [hstack] at huser htail hmem
      rcases List.mem_cons.mp hmem with rfl | hmem
      · exact huser
      · exact htail call hmem

theorem Placed.push (hplaced : Placed s) (hthread : call.thread = t)
    (hbelow : ∀ call ∈ s.stack t, call.inHandler = true) : Placed (s.push call) := by
  intro u other hmem
  by_cases hu : u = t
  · subst hu
    rw [stack_push_self hthread] at hmem
    exact hbelow other hmem
  · rw [stack_push_other (by rw [hthread]; exact Ne.symm hu)] at hmem
    exact hplaced u other hmem

theorem Placed.pop (hplaced : Placed s) (t : Tid) : Placed (s.pop t) := by
  intro u other hmem
  by_cases hu : u = t
  · subst hu
    rw [stack_pop_self] at hmem
    exact hplaced u other (List.mem_of_mem_tail hmem)
  · rw [stack_pop_other hu] at hmem
    exact hplaced u other hmem

/-- Below the innermost call all are in handlers. -/
theorem Placed.inHandler_pop (hplaced : Placed s) (t : Tid) :
    ∀ call ∈ (s.pop t).stack t, call.inHandler = true := by
  rw [stack_pop_self]
  exact hplaced t

theorem not_waitsOn_of_inHandler (hbelow : ∀ call ∈ s.stack t, call.inHandler = true) :
    ¬ s.WaitsOn t queue := by
  intro hwaits
  cases hbelow _ hwaits

/-! ### What the bookkeeping is for -/

variable [DecidableEq Q]

/-- The number of the calls of `Dispatch` of a queue that are in their loop. -/
def State.dispatching (s : State Tid Q) (queue : Q) : Nat :=
  s.calls.countP fun call => call.isDispatch ∧ call.queue = queue

/-- **The bookkeeping** is exact. -/
structure Exact (s : State Tid Q) : Prop where
  active : ∀ queue, s.m_activeDispatches queue = s.dispatching queue
  marked : ∀ t, s.tl_inDispatch t = true ↔ s.InDispatch t
  /-- a removal made by a handler does not wait -/
  inHandler : ∀ t queue, s.WaitsOn t queue → ¬ s.InDispatch t
  /-- a removal made outside waits for dispatches that go on -/
  outside : ∀ t queue, s.WaitsOn t queue → s.m_activeDispatches queue ≠ 0 →
    ∃ call ∈ s.calls, call.isDispatch = true ∧ call.queue = queue

/-- The steps that undo what `MarkDispatchActive` did: no exception leaves a call of `Dispatch`,
and none returns inside another one of its thread. -/
def Restores (s : State Tid Q) : Action Tid Q → Prop
  | .run t => ∀ queue, (s.stack t).head? = some ⟨t, queue, .next []⟩ → ¬ (s.pop t).InDispatch t
  | .handlerThrow _ => False
  | _ => True

omit [DecidableEq Tid] in
theorem dispatching_push (queue : Q) :
    (s.push call).dispatching queue =
      s.dispatching queue + if call.isDispatch ∧ call.queue = queue then 1 else 0 := by
  rw [State.dispatching, State.push, List.countP_cons]
  simp [State.dispatching]

theorem dispatching_of_stack (hstack : s.stack t = top :: rest) (queue : Q) :
    s.dispatching queue =
      (s.pop t).dispatching queue + if top.isDispatch ∧ top.queue = queue then 1 else 0 := by
  rw [State.dispatching, (perm_cons_eraseP hstack).countP_eq, List.countP_cons]
  simp [State.dispatching, State.pop]

/-! ### One step -/

/-- The count and the marks are what matters. -/
theorem exact_of_marked (hactive : ∀ queue, s.m_activeDispatches queue = s.dispatching queue)
    (hmarked : ∀ t, s.tl_inDispatch t = true ↔ s.InDispatch t)
    (hwaits : ∀ t queue, s.WaitsOn t queue → ¬ s.InDispatch t) : Exact s where
  active := hactive
  marked := hmarked
  inHandler := hwaits
  outside t queue _ hblocked := by
    rw [hactive, State.dispatching] at hblocked
    have hpos : 0 < s.calls.countP fun call => call.isDispatch ∧ call.queue = queue := by omega
    obtain ⟨call, hmem, hcall⟩ := List.countP_pos_iff.mp hpos
    exact ⟨call, hmem, by simpa using hcall⟩

/-- A step of `t` leaves the other threads alone. -/
theorem Exact.of_thread (hexact : Exact s) (t : Tid)
    (hstacks : ∀ u, u ≠ t → next.stack u = s.stack u)
    (hflags : ∀ u, u ≠ t → next.tl_inDispatch u = s.tl_inDispatch u)
    (hactive : ∀ queue, next.m_activeDispatches queue = next.dispatching queue)
    (hmarked : next.tl_inDispatch t = true ↔ next.InDispatch t)
    (hwaits : ∀ queue, next.WaitsOn t queue → ¬ next.InDispatch t) : Exact next := by
  refine exact_of_marked hactive (fun u => ?_) (fun u queue => ?_)
  · by_cases hu : u = t
    · subst hu
      exact hmarked
    · rw [State.InDispatch, hstacks u hu, hflags u hu]
      exact hexact.marked u
  · by_cases hu : u = t
    · subst hu
      exact hwaits queue
    · rw [State.WaitsOn, State.InDispatch, hstacks u hu]
      exact hexact.inHandler u queue

theorem m_activeDispatches_markDispatchActive (other : Q) :
    (s.markDispatchActive t queue).m_activeDispatches other =
      s.m_activeDispatches other + (if queue = other then 1 else 0 : Nat) := by
  by_cases hother : other = queue
  · simp [State.markDispatchActive, hother]
  · simp [State.markDispatchActive, hother, Ne.symm hother]

theorem m_activeDispatches_markDispatchComplete (other : Q) :
    (s.markDispatchComplete t queue).m_activeDispatches other =
      s.m_activeDispatches other - (if queue = other then 1 else 0 : Nat) := by
  by_cases hother : other = queue
  · simp [State.markDispatchComplete, hother]
  · simp [State.markDispatchComplete, hother, Ne.symm hother]

/-- `Dispatch` begins. -/
theorem Exact.dispatch (hexact : Exact s) (remaining : List Handler)
    (hbelow : ∀ call ∈ s.stack t, call.inHandler = true) :
    Exact ((s.markDispatchActive t queue).push ⟨t, queue, .next remaining⟩) := by
  have hstack : ((s.markDispatchActive t queue).push ⟨t, queue, .next remaining⟩).stack t =
      ⟨t, queue, .next remaining⟩ :: s.stack t := stack_push_self rfl
  refine hexact.of_thread t (fun u hu => stack_push_other (Ne.symm hu))
    (fun u hu => Function.update_of_ne hu ..) (fun other => ?_) ?_ (fun other hwaits => ?_)
  · have hcount : (s.markDispatchActive t queue).dispatching other = s.dispatching other := rfl
    rw [push_m_activeDispatches, m_activeDispatches_markDispatchActive, hexact.active,
      dispatching_push, hcount]
    simp [Call.isDispatch]
  · rw [State.InDispatch, hstack]
    simp [State.push, State.markDispatchActive, Call.isDispatch]
  · rw [State.WaitsOn, hstack] at hwaits
    rcases List.mem_cons.mp hwaits with heq | hmem
    · cases heq
    · exact absurd hmem (not_waitsOn_of_inHandler hbelow)

/-- A removal begins. -/
theorem Exact.remove (hexact : Exact s) (hbelow : ∀ call ∈ s.stack t, call.inHandler = true) :
    Exact (s.push ⟨t, queue, .waitCheck⟩) := by
  have hstack : (s.push ⟨t, queue, .waitCheck⟩).stack t =
      ⟨t, queue, .waitCheck⟩ :: s.stack t := stack_push_self rfl
  refine hexact.of_thread t (fun u hu => stack_push_other (Ne.symm hu)) (fun _ _ => rfl)
    (fun other => ?_) ?_ (fun other hwaits => ?_)
  · rw [push_m_activeDispatches, hexact.active, dispatching_push]
    simp [Call.isDispatch]
  · rw [inDispatch_push_self rfl]
    simpa [Call.isDispatch] using hexact.marked t
  · rw [State.WaitsOn, hstack] at hwaits
    rcases List.mem_cons.mp hwaits with heq | hmem
    · cases heq
    · exact absurd hmem (not_waitsOn_of_inHandler hbelow)

/-- The innermost call of a thread goes on. -/
theorem Exact.replace (hexact : Exact s) (hplaced : Placed s) (hstack : s.stack t = top :: rest)
    (hthread : call.thread = t) (hqueue : call.queue = top.queue)
    (hkind : call.isDispatch = top.isDispatch)
    (hwaits : call.pc = .waiting → s.tl_inDispatch t = false) :
    Exact ((s.pop t).push call) := by
  have hinside : ((s.pop t).push call).InDispatch t ↔ s.InDispatch t := by
    rw [inDispatch_push_self hthread, hkind, inDispatch_of_stack hstack]
  refine hexact.of_thread t (fun u hu => ?_) (fun _ _ => rfl) (fun other => ?_) ?_
    (fun other hwaiting => ?_)
  · rw [stack_push_other (by rw [hthread]; exact Ne.symm hu), stack_pop_other hu]
  · rw [push_m_activeDispatches, pop_m_activeDispatches, hexact.active, dispatching_push,
      dispatching_of_stack hstack, hkind, hqueue]
  · rw [hinside]
    exact hexact.marked t
  · rw [State.WaitsOn, stack_push_self hthread] at hwaiting
    rw [hinside, ← hexact.marked]
    rcases List.mem_cons.mp hwaiting with heq | hmem
    · rw [hwaits (by rw [← heq])]
      exact Bool.false_ne_true
    · exact absurd hmem (not_waitsOn_of_inHandler (hplaced.inHandler_pop t))

/-- A removal returns. -/
theorem Exact.removed (hexact : Exact s) (hplaced : Placed s) (hstack : s.stack t = top :: rest)
    (hkind : top.isDispatch = false) : Exact (s.pop t) := by
  refine hexact.of_thread t (fun u hu => stack_pop_other hu) (fun _ _ => rfl) (fun other => ?_) ?_
    (fun other hwaits => ?_)
  · rw [pop_m_activeDispatches, hexact.active, dispatching_of_stack hstack]
    simp [hkind]
  · have hmarked := hexact.marked t
    rw [inDispatch_of_stack hstack, hkind] at hmarked
    simpa using hmarked
  · exact absurd hwaits (not_waitsOn_of_inHandler (hplaced.inHandler_pop t))

/-- `Dispatch` returns: the mark is right if the thread is in no other. -/
theorem Exact.complete_iff (hexact : Exact s) (hstack : s.stack t = top :: rest)
    (hkind : top.isDispatch = true) (hqueue : top.queue = queue) :
    Exact ((s.markDispatchComplete t queue).pop t) ↔ ¬ (s.pop t).InDispatch t := by
  have hinside : ((s.markDispatchComplete t queue).pop t).InDispatch t ↔
      (s.pop t).InDispatch t := Iff.rfl
  have hflag : ((s.markDispatchComplete t queue).pop t).tl_inDispatch t = false :=
    Function.update_self ..
  constructor
  · intro hnext
    rw [← hinside, ← hnext.marked, hflag]
    exact Bool.false_ne_true
  · intro houtside
    refine hexact.of_thread t (fun u hu => stack_pop_other hu)
      (fun u hu => Function.update_of_ne hu ..) (fun other => ?_) ?_ (fun other hwaits => ?_)
    · have hcount : ((s.markDispatchComplete t queue).pop t).dispatching other =
          (s.pop t).dispatching other := rfl
      rw [pop_m_activeDispatches, m_activeDispatches_markDispatchComplete, hexact.active,
        dispatching_of_stack hstack, hcount]
      simp [hkind, hqueue]
    · rw [hflag]
      exact iff_of_false Bool.false_ne_true houtside
    · exact houtside

/-- A call of `Dispatch` that an exception leaves is still counted. -/
theorem Exact.not_thrown (hexact : Exact s) (hstack : s.stack t = top :: rest)
    (hkind : top.isDispatch = true) : ¬ Exact (s.pop t) := by
  intro hnext
  have hbefore := hexact.active top.queue
  have hafter := hnext.active top.queue
  rw [dispatching_of_stack hstack, if_pos ⟨hkind, rfl⟩] at hbefore
  rw [pop_m_activeDispatches] at hafter
  omega

/-- The topics of the queues do not matter. -/
theorem Exact.withObservers (hexact : Exact s) (observers : Q → Int → List Handler) :
    Exact { s with observers := observers } :=
  ⟨hexact.active, hexact.marked, hexact.inHandler, hexact.outside⟩

/-- What the next step of the innermost call `top` can do. -/
inductive Ran (s : State Tid Q) (top : Call Tid Q) : State Tid Q → Prop
  | handler {remaining : List Handler} {handler : Handler}
      (hpc : top.pc = .next (handler :: remaining)) :
      Ran s top ((s.pop top.thread).push { top with pc := .handler remaining })
  | complete (hpc : top.pc = .next []) :
      Ran s top ((s.markDispatchComplete top.thread top.queue).pop top.thread)
  | wait (hpc : top.pc = .waitCheck) (hflag : s.tl_inDispatch top.thread = false) :
      Ran s top ((s.pop top.thread).push { top with pc := .waiting })
  | removed (hpc : top.pc = .waitCheck ∨ top.pc = .waiting) : Ran s top (s.pop top.thread)

theorem ran_of_run (hrun : s.run top = some next) : Ran s top next := by
  unfold State.run at hrun
  split at hrun
  case h_1 hpc =>
    obtain rfl := Option.some.inj hrun
    exact .handler hpc
  case h_2 hpc =>
    obtain rfl := Option.some.inj hrun
    exact .complete hpc
  case h_3 => cases hrun
  case h_4 hpc =>
    split at hrun
    case isTrue =>
      obtain rfl := Option.some.inj hrun
      exact .removed (Or.inl hpc)
    case isFalse hflag =>
      obtain rfl := Option.some.inj hrun
      exact .wait hpc (Bool.not_eq_true _ ▸ hflag)
  case h_5 hpc =>
    obtain ⟨-, hrun⟩ := Option.ite_none_right_eq_some.mp hrun
    obtain rfl := Option.some.inj hrun
    exact .removed (Or.inr hpc)

theorem exact_run_iff (hexact : Exact s) (hplaced : Placed s)
    (hhead : (s.stack t).head? = some top) (hrun : Ran s top next) :
    Exact next ↔ Restores s (.run t) := by
  obtain ⟨rest, hstack⟩ := List.head?_eq_some_iff.mp hhead
  obtain rfl : top.thread = t :=
    thread_of_mem_stack (by rw [hstack]; exact List.mem_cons_self ..)
  have hrestores : top.pc ≠ .next [] → Restores s (.run top.thread) := by
    intro hpc queue hcomplete
    have htop := Option.some.inj (hhead.symm.trans hcomplete)
    exact absurd (congrArg Call.pc htop) hpc
  cases hrun with
  | handler hpc =>
      refine iff_of_true (hexact.replace hplaced hstack rfl rfl ?_ (fun hpc => by cases hpc))
        (hrestores (by simp [hpc]))
      simp [Call.isDispatch, hpc]
  | complete hpc =>
      rw [hexact.complete_iff hstack (by simp [Call.isDispatch, hpc]) rfl]
      constructor
      · intro houtside _ _
        exact houtside
      · intro hrestores
        exact hrestores top.queue (by rw [hhead, ← hpc])
  | wait hpc hflag =>
      refine iff_of_true (hexact.replace hplaced hstack rfl rfl ?_ (fun _ => hflag))
        (hrestores (by simp [hpc]))
      simp [Call.isDispatch, hpc]
  | removed hpc =>
      refine iff_of_true (hexact.removed hplaced hstack ?_) (hrestores ?_)
      · rcases hpc with hpc | hpc <;> simp [Call.isDispatch, hpc]
      · rcases hpc with hpc | hpc <;> simp [hpc]

omit [DecidableEq Q] in
theorem Placed.replace (hplaced : Placed s) (t : Tid) (hthread : call.thread = t) :
    Placed ((s.pop t).push call) :=
  (hplaced.pop t).push hthread (hplaced.inHandler_pop t)

theorem Placed.run (hplaced : Placed s) (hrun : Ran s top next) : Placed next := by
  cases hrun with
  | handler | wait => exact hplaced.replace _ rfl
  | complete =>
      have hsame : Placed (s.markDispatchComplete top.thread top.queue) := hplaced
      exact hsame.pop _
  | removed => exact hplaced.pop _

/-- The step lemma. -/
theorem Exact.step_iff {action : Action Tid Q} (hexact : Exact s) (hplaced : Placed s)
    (hstep : step s action = some next) : (Exact next ↔ Restores s action) ∧ Placed next := by
  cases action with
  | addObserver t queue topicId handler =>
      obtain ⟨-, hnext⟩ := Option.ite_none_right_eq_some.mp hstep
      obtain rfl := Option.some.inj hnext
      exact ⟨iff_of_true (hexact.withObservers _) trivial, hplaced⟩
  | removeObserver t queue topicId handler =>
      obtain ⟨huser, hnext⟩ := Option.ite_none_right_eq_some.mp hstep
      obtain rfl := Option.some.inj hnext
      have hbelow := hplaced.of_inUserCode huser
      exact ⟨iff_of_true ((hexact.withObservers _).remove hbelow) trivial,
        hplaced.push rfl hbelow⟩
  | dispatch t queue topicId =>
      obtain ⟨huser, hnext⟩ := Option.ite_none_right_eq_some.mp hstep
      obtain rfl := Option.some.inj hnext
      have hbelow := hplaced.of_inUserCode huser
      exact ⟨iff_of_true (hexact.dispatch _ hbelow) trivial, hplaced.push rfl hbelow⟩
  | run t =>
      obtain ⟨top, hhead, hrun⟩ := Option.bind_eq_some_iff.mp hstep
      have hran := ran_of_run hrun
      exact ⟨exact_run_iff hexact hplaced hhead hran, hplaced.run hran⟩
  | handlerReturn t =>
      simp only [step] at hstep
      split at hstep
      case h_1 thread queue remaining hhead =>
        obtain rfl := Option.some.inj hstep
        obtain ⟨rest, hstack⟩ := List.head?_eq_some_iff.mp hhead
        exact ⟨iff_of_true
          (hexact.replace hplaced hstack rfl rfl rfl (fun hpc => by cases hpc)) trivial,
          hplaced.replace t rfl⟩
      case h_2 => cases hstep
  | handlerThrow t =>
      simp only [step] at hstep
      split at hstep
      case h_1 thread queue remaining hhead =>
        obtain rfl := Option.some.inj hstep
        obtain ⟨rest, hstack⟩ := List.head?_eq_some_iff.mp hhead
        exact ⟨iff_of_false (hexact.not_thrown hstack rfl) id, hplaced.pop t⟩
      case h_2 => cases hstep

/-! ### Every run -/

omit [DecidableEq Q] in
theorem placed_init : Placed (init : State Tid Q) := by
  intro t call hmem
  cases hmem

theorem exact_init : Exact (init : State Tid Q) := by
  refine exact_of_marked (fun _ => rfl) (fun t => ?_) (fun t queue hwaits => ?_)
  · refine iff_of_false Bool.false_ne_true ?_
    rintro ⟨call, hmem, -⟩
    cases hmem
  · cases hwaits

/-- **Every exit of `Dispatch`.**  The bookkeeping is exact throughout a run if and only if no
exception leaves a call of `Dispatch` in it and none returns inside another one of its thread. -/
theorem exact_iff_restores (exec : Execution (machine Tid Q)) :
    (∀ k, k ≤ exec.length → Exact (exec.state k)) ↔ exec.Allowed Restores := by
  constructor
  · intro hexact
    have hplaced : ∀ k, k ≤ exec.length → Placed (exec.state k) := by
      intro k hk
      induction k with
      | zero =>
          rw [exec.starts]
          exact placed_init
      | succ k ih =>
          have hlt : k < exec.length := hk
          have hbefore := ih (Nat.le_of_lt hlt)
          exact ((hexact k (Nat.le_of_lt hlt)).step_iff hbefore (exec.steps k hlt)).2
    intro k hk
    have hbefore := hexact k (Nat.le_of_lt hk)
    exact (hbefore.step_iff (hplaced k (Nat.le_of_lt hk)) (exec.steps k hk)).1.mp
      (hexact (k + 1) hk)
  · intro hallowed
    have hinv : ∀ k, k ≤ exec.length → Exact (exec.state k) ∧ Placed (exec.state k) := by
      intro k hk
      induction k with
      | zero =>
          rw [exec.starts]
          exact ⟨exact_init, placed_init⟩
      | succ k ih =>
          have hlt : k < exec.length := hk
          obtain ⟨hexact, hplaced⟩ := ih (Nat.le_of_lt hlt)
          obtain ⟨hiff, hnext⟩ := hexact.step_iff hplaced (exec.steps k hlt)
          exact ⟨hiff.mpr (hallowed k hlt), hnext⟩
    intro k hk
    exact (hinv k hk).1

instance [Inhabited Tid] : Inhabited (Action Tid Q) := ⟨.run default⟩

/-- The first thread dispatches, its handler throws, and the second thread removes the observer. -/
def throws : Execution (machine Bool Unit) :=
  Execution.ofActions _ [.addObserver false () 0 1, .dispatch false () 0, .run false,
    .handlerThrow false, .removeObserver true () 0 1, .run true] (by decide)

/-- A handler of one queue calls `Dispatch` of another and then removes itself. -/
def nests : Execution (machine Unit Bool) :=
  Execution.ofActions _ [.addObserver () false 0 1, .addObserver () true 0 2,
    .dispatch () false 0, .run (), .dispatch () true 0, .run (), .handlerReturn (), .run (),
    .removeObserver () false 0 1, .run ()] (by decide)

/-- The second thread waits for a dispatch that has ended, and the handler for its own. -/
theorem not_exact_throws_nests : ¬ Exact (throws.state 6) ∧ ¬ Exact (nests.state 10) := by
  constructor
  · intro hexact
    have hwaits : (⟨true, (), .waiting⟩ : Call Bool Unit) ∈ (throws.state 6).stack true := by
      decide
    obtain ⟨call, hmem, hdispatch, -⟩ := hexact.outside true () hwaits (by decide)
    have hnone : ∀ call ∈ (throws.state 6).calls, call.isDispatch = false := by decide
    exact absurd (hdispatch.symm.trans (hnone call hmem)) (by decide)
  · intro hexact
    have hwaits : (⟨(), false, .waiting⟩ : Call Unit Bool) ∈ (nests.state 10).stack () := by
      decide
    have hinside : (⟨(), false, .handler []⟩ : Call Unit Bool) ∈ (nests.state 10).stack () := by
      decide
    exact hexact.inHandler () false hwaits ⟨_, hinside, rfl⟩

end MessageCenter.EventQueue.Bookkeeping
