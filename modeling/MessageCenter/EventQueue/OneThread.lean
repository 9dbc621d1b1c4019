import MessageCenter.EventQueue.Removal

/-!
# `EventQueue` in one thread

Whole calls of one thread, made outside `Dispatch` or by the handler that
`Dispatch` runs.  The state is the one of the concurrent model, and a call is the
run of its steps there (`Call.exists_run`): in one thread a removal never has to
wait.  `RegisterTopic` and `ClearTopics` change the registry only.
-/

namespace MessageCenter.EventQueue.OneThread

open Concurrency

/-! ### Calls -/

/-- The overloads of `AddObserver`; `none` is a null pointer or an empty function. -/
inductive Overload where
  | callback (function : Option Nat)
  | method (observerInstance function : Option Nat)
  | func (function : Option Nat)
deriving DecidableEq, Repr

/-- `new ObserverDescriptor()` and the fields that the overload sets -/
def Overload.descriptor (handle : Nat) : Overload → ObserverDescriptor
  | .callback function => ⟨handle, 0, function, none, none, none⟩
  | .method observerInstance function => ⟨handle, 0, none, function, none, observerInstance⟩
  | .func function => ⟨handle, 0, none, none, function, none⟩

@[simp] theorem Overload.descriptor_handle (overload : Overload) (handle : Nat) :
    (overload.descriptor handle).handle = handle := by
  cases overload <;> rfl

/-- What the client of an `EventQueue` calls. -/
inductive Call where
  | registerTopic (topic : String)
  | clearTopics
  | addObserver (topic : String) (overload : Overload)
  | removeObserver (topic : String) (removal : Removal)
  | post (id : Int) (obj : Option Nat) (autoCleanupPayload : Bool)
  | postTopic (topic : String) (obj : Option Nat) (autoCleanupPayload : Bool)
deriving DecidableEq, Repr

def registerTopic (s : State Unit) (topic : String) : State Unit :=
  { s with registry := (s.registry.registerTopic topic).1 }

def clearTopics (s : State Unit) : State Unit :=
  { s with registry := s.registry.clearTopics }

def addObserver (s : State Unit) (topic : String) (overload : Overload) : State Unit :=
  let observer := overload.descriptor s.nextHandle
  let (registry, topicId) := s.registry.registerTopic topic
  let s := { s with registry := registry, nextHandle := s.nextHandle + 1 }
  if topicId < 0 then { s with addReturns := s.addReturns ++ [((), 0)] }
  else
    let observerId := s.m_nextObserverId
    let observer := { observer with observerId := observerId }
    { s.setObservers topicId (s.getObservers topicId ++ [observer]) with
      m_nextObserverId := fetchAddId observerId
      addReturns := s.addReturns ++ [((), observerId)] }

/-- `RemoveObserver`, `RemoveObserverById` -/
def removeObserver (s : State Unit) (topic : String) (removal : Removal) : State Unit :=
  if removal = .byId 0 then s.removeReturn () []
  else
    let topicId := s.registry.resolveTopic topic
    match s.m_topicObservers topicId with
    | none => s.removeReturn () []
    | some observers =>
        let (kept, erased) := removal.sweep observers
        (s.setObservers topicId kept).removeReturn () erased

def post (s : State Unit) (id : Int) (obj : Option Nat) (autoCleanupPayload : Bool) :
    State Unit :=
  if 0 ≤ id then
    { s with m_messageQueue := s.m_messageQueue ++ [⟨id.toNat, obj, autoCleanupPayload⟩] }
  else s

def postTopic (s : State Unit) (topic : String) (obj : Option Nat) (autoCleanupPayload : Bool) :
    State Unit :=
  post s (s.registry.resolveTopic topic) obj autoCleanupPayload

def Call.perform (s : State Unit) : Call → State Unit
  | .registerTopic topic => OneThread.registerTopic s topic
  | .clearTopics => OneThread.clearTopics s
  | .addObserver topic overload => OneThread.addObserver s topic overload
  | .removeObserver topic removal => OneThread.removeObserver s topic removal
  | .post id obj autoCleanupPayload => OneThread.post s id obj autoCleanupPayload
  | .postTopic topic obj autoCleanupPayload => OneThread.postTopic s topic obj autoCleanupPayload

theorem addObserver_failed {s : State Unit} {topic : String}
    (hfailed : (s.registry.registerTopic topic).2 < 0) (overload : Overload) :
    addObserver s topic overload =
      { s with
        registry := (s.registry.registerTopic topic).1
        nextHandle := s.nextHandle + 1
        addReturns := s.addReturns ++ [((), 0)] } := by
  simp [addObserver, hfailed]

theorem addObserver_stored {s : State Unit} {topic : String} {topicId : Int}
    (htopicId : (s.registry.registerTopic topic).2 = topicId) (hnonneg : 0 ≤ topicId)
    (overload : Overload) :
    addObserver s topic overload =
      { s with
        registry := (s.registry.registerTopic topic).1
        nextHandle := s.nextHandle + 1
        m_nextObserverId := fetchAddId s.m_nextObserverId
        m_topicObservers := Function.update s.m_topicObservers topicId (some (s.getObservers topicId ++
          [{ overload.descriptor s.nextHandle with observerId := s.m_nextObserverId }]))
        addReturns := s.addReturns ++ [((), s.m_nextObserverId)] } := by
  subst htopicId
  simp [addObserver, Int.not_lt.mpr hnonneg, State.setObservers, State.getObservers]

/-- The descriptors that a removal deletes. -/
def erased (s : State Unit) (topic : String) (removal : Removal) : List ObserverDescriptor :=
  if removal = .byId 0 then []
  else (removal.sweep (s.getObservers (s.registry.resolveTopic topic))).2

/-- A removal finds nothing to do or sweeps the list of its topic. -/
theorem removeObserver_cases (s : State Unit) (topic : String) (removal : Removal) :
    (removal = .byId 0 ∨ s.getObservers (s.registry.resolveTopic topic) = []) ∧
        removeObserver s topic removal = s.removeReturn () [] ∨
      removal ≠ .byId 0 ∧ removeObserver s topic removal =
        (s.setObservers (s.registry.resolveTopic topic)
          (removal.sweep (s.getObservers (s.registry.resolveTopic topic))).1).removeReturn ()
          (removal.sweep (s.getObservers (s.registry.resolveTopic topic))).2 := by
  unfold removeObserver
  by_cases hzero : removal = .byId 0
  · simp [hzero]
  · cases hlist : s.m_topicObservers (s.registry.resolveTopic topic) <;>
      simp [hzero, hlist, State.getObservers]

/-- A removal only takes observers out of the lists. -/
theorem removeObserver_sublist (s : State Unit) (topic : String) (removal : Removal) (id : Int) :
    ((removeObserver s topic removal).getObservers id).Sublist (s.getObservers id) := by
  rcases removeObserver_cases s topic removal with ⟨_, heq⟩ | ⟨_, heq⟩ <;> rw [heq]
  · exact List.Sublist.refl _
  · by_cases hid : id = s.registry.resolveTopic topic
    · subst hid
      simpa [State.removeReturn, State.goto, State.setObservers, State.getObservers] using
        removal.sweep_sublist (s.getObservers (s.registry.resolveTopic topic))
    · simp [State.removeReturn, State.goto, State.setObservers, State.getObservers, hid]

/-! ### Sessions -/

/-- The call of a handler, with its arguments. -/
structure Invocation where
  handler : Handler
  id : Int
  message : Message
deriving DecidableEq, Repr

/-- A queue with the message whose `Dispatch` is in progress and the handlers called
so far. -/
structure Session where
  queue : State Unit
  current : Option Message
  trace : List Invocation

inductive Action where
  | call (call : Call)
  /-- `GetQueueMessage`, and for a message `Dispatch` up to its loop -/
  | dispatchNext
  /-- the next step of the loop of `Dispatch` -/
  | advance
  | handlerReturn
deriving DecidableEq, Repr

def Session.init : Session := ⟨EventQueue.init, none, []⟩

/-- The handler that the loop of `Dispatch` calls next. -/
def Session.invocation? (s : Session) : Option Invocation :=
  match s.queue.dispatch (), s.current with
  | some (.next (observer :: _)), some message =>
      observer.handler?.map fun handler => ⟨handler, message.tid, message⟩
  | _, _ => none

def Session.step (s : Session) : Action → Option Session
  | .call call =>
      if s.queue.canCall () then some { s with queue := call.perform s.queue } else none
  | .dispatchNext =>
      match s.queue.dispatch (), s.queue.m_messageQueue with
      | none, [] => some s
      | none, message :: rest =>
          let queue := { s.queue with m_messageQueue := rest }
          some { s with queue := queue.markDispatchActive () message.tid, current := some message }
      | some _, _ => none
  | .advance =>
      (runDispatch s.queue ()).map fun queue =>
        { queue := queue
          current := if (queue.dispatch ()).isSome then s.current else none
          trace := s.trace ++ s.invocation?.toList }
  | .handlerReturn =>
      (EventQueue.step s.queue (.handlerReturn ())).map fun queue => { s with queue := queue }

def machine : Machine Session Action := ⟨Session.init, Session.step⟩

/-! ### Calls are runs of the concurrent model -/

variable {s : State Unit} {session next : Session}

/-- The actions of the one thread in a call, for the calls that the concurrent model
has. -/
def Call.actions (s : State Unit) : Call → Option (List (EventQueue.Action Unit))
  | .registerTopic _ => none
  | .clearTopics => none
  | .addObserver topic overload =>
      let observer := overload.descriptor 0
      some (.callAdd () topic observer.callback observer.callbackMethod observer.callbackFunc
          observer.observerInstance ::
        List.replicate (if (s.registry.registerTopic topic).2 < 0 then 1 else 3) (.run ()))
  | .removeObserver topic removal =>
      some (.callRemove () topic removal ::
        List.replicate
          (if removal = .byId 0 then 0 else if s.tl_inDispatch () then 3 else 4) (.run ()))
  | .post id obj autoCleanupPayload => some [.callPost () id obj autoCleanupPayload, .run ()]
  | .postTopic topic obj autoCleanupPayload =>
      some [.callPostTopic () topic obj autoCleanupPayload, .run (), .run ()]

theorem pc_of_canCall (hcan : s.canCall () = true) : s.pc () = .idle := by
  unfold State.canCall at hcan
  split at hcan
  · assumption
  · assumption
  · cases hcan

/-- Outside `Dispatch` nothing is in progress. -/
theorem activeDispatches_eq_zero (hcounted : Counted s) (hnone : s.dispatch () = none) :
    s.m_activeDispatches = 0 := by
  obtain ⟨threads, _, hmem, hlength⟩ := hcounted.active
  cases threads with
  | nil => exact hlength
  | cons t rest =>
      have hsome := (hmem ()).mp (List.mem_cons_self ..)
      rw [hnone] at hsome
      cases hsome

theorem addObserver_run (hcan : s.canCall () = true) (topic : String) (overload : Overload) :
    ∃ actions, (Call.addObserver topic overload).actions s = some actions ∧
      (EventQueue.machine Unit).run s actions = some (addObserver s topic overload) := by
  refine ⟨_, rfl, ?_⟩
  have hpc : Function.update s.pc () PC.idle = s.pc := by
    rw [← pc_of_canCall hcan, Function.update_eq_self]
  have hdescriptor : (⟨s.nextHandle, 0, (overload.descriptor 0).callback,
      (overload.descriptor 0).callbackMethod, (overload.descriptor 0).callbackFunc,
      (overload.descriptor 0).observerInstance⟩ : ObserverDescriptor) =
      overload.descriptor s.nextHandle := by cases overload <;> rfl
  by_cases hfailed : (s.registry.registerTopic topic).2 < 0
  · simp [hfailed, EventQueue.machine, EventQueue.step, hcan, runThread, hdescriptor, State.goto,
      addObserver, hpc]
  · simp [hfailed, List.replicate, EventQueue.machine, EventQueue.step, hcan, runThread,
      hdescriptor, State.goto, addObserver, hpc, State.setObservers, State.getObservers]

theorem removeObserver_run (hcan : s.canCall () = true) (hcounted : Counted s) (topic : String)
    (removal : Removal) :
    ∃ actions, (Call.removeObserver topic removal).actions s = some actions ∧
      (EventQueue.machine Unit).run s actions = some (removeObserver s topic removal) := by
  refine ⟨_, rfl, ?_⟩
  have hpc : Function.update s.pc () PC.idle = s.pc := by
    rw [← pc_of_canCall hcan, Function.update_eq_self]
  by_cases hzero : removal = .byId 0
  · simp [hzero, EventQueue.machine, EventQueue.step, hcan, removeObserver]
  · by_cases htl : s.tl_inDispatch () = true
    · cases hlist : s.m_topicObservers (s.registry.resolveTopic topic) <;>
        simp [hzero, htl, hlist, List.replicate, EventQueue.machine, EventQueue.step, hcan,
          runThread, removeObserver, State.goto, State.removeReturn, hpc, State.setObservers]
    · have hactive : s.m_activeDispatches = 0 := by
        refine activeDispatches_eq_zero hcounted ?_
        rcases State.calling_of_canCall hcan with hnone | ⟨observer, remaining, hinvoking⟩
        · exact hnone
        · exact absurd ((hcounted.marked ()).mpr ⟨_, hinvoking, trivial⟩) htl
      cases hlist : s.m_topicObservers (s.registry.resolveTopic topic) <;>
        simp [hzero, htl, hlist, List.replicate, EventQueue.machine, EventQueue.step, hcan,
          runThread, removeObserver, State.goto, State.removeReturn, hpc, hactive,
          State.setObservers]

theorem post_run (hcan : s.canCall () = true) (id : Int) (obj : Option Nat)
    (autoCleanupPayload : Bool) :
    (EventQueue.machine Unit).run s [.callPost () id obj autoCleanupPayload, .run ()] =
      some (post s id obj autoCleanupPayload) := by
  have hpc : Function.update s.pc () PC.idle = s.pc := by
    rw [← pc_of_canCall hcan, Function.update_eq_self]
  by_cases hid : 0 ≤ id <;>
    simp [EventQueue.machine, EventQueue.step, hcan, runThread, State.goto, post, hid, hpc]

theorem postTopic_run (hcan : s.canCall () = true) (topic : String) (obj : Option Nat)
    (autoCleanupPayload : Bool) :
    (EventQueue.machine Unit).run s
        [.callPostTopic () topic obj autoCleanupPayload, .run (), .run ()] =
      some (postTopic s topic obj autoCleanupPayload) := by
  have hpc : Function.update s.pc () PC.idle = s.pc := by
    rw [← pc_of_canCall hcan, Function.update_eq_self]
  by_cases hid : 0 ≤ s.registry.resolveTopic topic <;>
    simp [EventQueue.machine, EventQueue.step, hcan, runThread, State.goto, postTopic, post, hid,
      hpc]

/-- **A call is the run of its steps** in the concurrent model. -/
theorem Call.exists_run (hcan : s.canCall () = true) (hcounted : Counted s) {call : Call}
    {actions : List (EventQueue.Action Unit)} (hactions : call.actions s = some actions) :
    (EventQueue.machine Unit).run s actions = some (call.perform s) := by
  cases call with
  | registerTopic topic => cases hactions
  | clearTopics => cases hactions
  | addObserver topic overload =>
      obtain ⟨_, hsame, hrun⟩ := addObserver_run hcan topic overload
      rw [hactions] at hsame
      exact Option.some.inj hsame ▸ hrun
  | removeObserver topic removal =>
      obtain ⟨_, hsame, hrun⟩ := removeObserver_run hcan hcounted topic removal
      rw [hactions] at hsame
      exact Option.some.inj hsame ▸ hrun
  | post id obj autoCleanupPayload =>
      obtain rfl := Option.some.inj hactions
      exact post_run hcan id obj autoCleanupPayload
  | postTopic topic obj autoCleanupPayload =>
      obtain rfl := Option.some.inj hactions
      exact postTopic_run hcan topic obj autoCleanupPayload

/-! ### What every session keeps -/

/-- The registry and the message queue play no part in the invariant of the
concurrent model. -/
theorem inv_congr {after : State Unit} (hinv : Inv s)
    (hlists : after.m_topicObservers = s.m_topicObservers)
    (hhandle : after.nextHandle = s.nextHandle) (hpc : after.pc = s.pc)
    (hdispatch : after.dispatch = s.dispatch)
    (hactive : after.m_activeDispatches = s.m_activeDispatches)
    (htl : after.tl_inDispatch = s.tl_inDispatch)
    (hreturns : after.removeReturns = s.removeReturns) : Inv after := by
  have heffect : ListEffect s after := .same hlists hhandle hpc
  have hcontrol : ControlEffect s after := .none hdispatch hactive htl hpc hreturns
  exact ⟨hinv.placed.step heffect, hinv.erasedGone.step hinv.placed heffect,
    hinv.counted.step hcontrol, hinv.settled.step hinv.counted hinv.erasedGone heffect hcontrol⟩

/-- A predicate that the steps of the concurrent model and changes of the registry
keep is kept by every call. -/
theorem perform_keeps {P : State Unit → Prop}
    (hstep : ∀ state next action, P state → EventQueue.step state action = some next → P next)
    (hregistry : ∀ state registry, P state → P { state with registry := registry })
    (hcounted : Counted s) (hcan : s.canCall () = true) (call : Call) (hstart : P s) :
    P (call.perform s) := by
  cases hactions : call.actions s with
  | some actions =>
      have hrun := call.exists_run hcan hcounted hactions
      refine Machine.run_keeps ?_ hstart hrun
      exact hstep
  | none =>
      cases call with
      | registerTopic _ | clearTopics => exact hregistry s _ hstart
      | _ => cases hactions

theorem perform_inv (hinv : Inv s) (hcan : s.canCall () = true) (call : Call) :
    Inv (call.perform s) :=
  perform_keeps (fun _ _ _ hbefore hstep => hbefore.step hstep)
    (fun _ _ hbefore => inv_congr hbefore rfl rfl rfl rfl rfl rfl rfl) hinv.counted hcan call hinv

theorem perform_gone {handle : Nat} (hgone : s.Gone handle) (hcounted : Counted s)
    (hcan : s.canCall () = true) (call : Call) : (call.perform s).Gone handle :=
  perform_keeps (P := fun state => state.Gone handle)
    (fun _ _ _ hbefore hstep => hbefore.step (step_listEffect hstep))
    (fun _ _ hbefore => ⟨hbefore.allocated, hbefore.unlisted, hbefore.notAdding⟩) hcounted hcan call
    hgone

theorem removeReturn_idle (s : State Unit) (erased : List ObserverDescriptor) :
    (s.removeReturn () erased).pc () = .idle := by
  simp [State.removeReturn, State.goto]

/-- What a removal erases is gone. -/
theorem removeObserver_gone (hplaced : Placed s) {topic : String} {removal : Removal}
    {observer : ObserverDescriptor} (hmem : observer ∈ erased s topic removal) :
    (removeObserver s topic removal).Gone observer.handle := by
  unfold erased at hmem
  split at hmem
  · cases hmem
  · rename_i hzero
    rcases removeObserver_cases s topic removal with ⟨hnothing, _⟩ | ⟨_, heq⟩
    · rcases hnothing with hbyId | hnil
      · exact absurd hbyId hzero
      · rw [hnil] at hmem
        cases hmem
    · -- the erase loop, and then the return
      have hgone : ((s.setObservers (s.registry.resolveTopic topic)
          (removal.sweep (s.getObservers (s.registry.resolveTopic topic))).1).goto ()
          (.waitCheck (removal.sweep (s.getObservers (s.registry.resolveTopic topic))).2)).Gone
          observer.handle := by
        apply hplaced.gone_of_erase (t := ())
        · rfl
        · rfl
        · rfl
        · exact hmem
      rw [heq]
      refine ⟨hgone.allocated, hgone.unlisted, fun _ hadding => ?_⟩
      rw [removeReturn_idle] at hadding
      cases hadding

/-- A call leaves the dispatch in progress alone. -/
theorem perform_dispatch (s : State Unit) (call : Call) :
    (call.perform s).dispatch = s.dispatch := by
  cases call with
  | registerTopic _ | clearTopics => rfl
  | addObserver topic overload =>
      simp only [Call.perform, addObserver]
      split <;> rfl
  | removeObserver topic removal =>
      simp only [Call.perform, removeObserver]
      split
      · rfl
      · split <;> rfl
  | post id obj autoCleanupPayload | postTopic topic obj autoCleanupPayload =>
      simp only [Call.perform, postTopic, post]
      split <;> rfl

theorem perform_idle (hidle : s.pc () = .idle) (call : Call) : (call.perform s).pc () = .idle := by
  cases call with
  | registerTopic _ | clearTopics => exact hidle
  | addObserver topic overload =>
      simp only [Call.perform, addObserver]
      split <;> exact hidle
  | removeObserver topic removal =>
      simp only [Call.perform, removeObserver]
      split
      · exact removeReturn_idle s []
      · split <;> exact removeReturn_idle _ _
  | post id obj autoCleanupPayload | postTopic topic obj autoCleanupPayload =>
      simp only [Call.perform, postTopic, post]
      split <;> exact hidle

structure Session.Inv (session : Session) : Prop where
  queue : EventQueue.Inv session.queue
  idle : session.queue.pc () = .idle
  current : session.current.isSome = (session.queue.dispatch ()).isSome

/-- What a step of a session can do. -/
inductive Session.Effect (session : Session) : Action → Session → Prop
  | call (call : Call) (hcan : session.queue.canCall () = true) :
      Effect session (.call call) { session with queue := call.perform session.queue }
  /-- `GetQueueMessage` has returned null -/
  | nothing (hnone : session.queue.dispatch () = none)
      (hempty : session.queue.m_messageQueue = []) : Effect session .dispatchNext session
  | start (message : Message) (rest : List Message) (hnone : session.queue.dispatch () = none)
      (hqueue : session.queue.m_messageQueue = message :: rest) :
      Effect session .dispatchNext
        { session with
          queue := { session.queue with m_messageQueue := rest }.markDispatchActive () message.tid
          current := some message }
  | invoke (observer : ObserverDescriptor) (remaining : List ObserverDescriptor)
      (handler : Handler) (message : Message)
      (hdispatch : session.queue.dispatch () = some (.next (observer :: remaining)))
      (hhandler : observer.handler? = some handler) (hcurrent : session.current = some message) :
      Effect session .advance
        { session with
          queue := session.queue.setDispatch () (some (.invoking observer remaining))
          trace := session.trace ++ [⟨handler, message.tid, message⟩] }
  /-- a descriptor without a handler is passed over -/
  | skip (observer : ObserverDescriptor) (remaining : List ObserverDescriptor)
      (hdispatch : session.queue.dispatch () = some (.next (observer :: remaining)))
      (hhandler : observer.handler? = none) :
      Effect session .advance
        { session with queue := session.queue.setDispatch () (some (.next remaining)) }
  | leave (hdispatch : session.queue.dispatch () = some (.next [])) :
      Effect session .advance
        { session with
          queue := { session.queue.setDispatch () (some .completing) with
            tl_inDispatch := Function.update session.queue.tl_inDispatch () false } }
  | complete (hdispatch : session.queue.dispatch () = some .completing) :
      Effect session .advance
        { session with queue := session.queue.markDispatchComplete (), current := none }
  | handlerReturn (observer : ObserverDescriptor) (remaining : List ObserverDescriptor)
      (hdispatch : session.queue.dispatch () = some (.invoking observer remaining)) :
      Effect session .handlerReturn
        { session with queue := session.queue.setDispatch () (some (.next remaining)) }

theorem markDispatchComplete_dispatch (s : State Unit) :
    (s.markDispatchComplete ()).dispatch () = none := by
  unfold State.markDispatchComplete
  simp only [State.setDispatch]
  split <;> simp

/-- The end of `Dispatch` touches the threads only. -/
theorem markDispatchComplete_frame (s : State Unit) :
    (s.markDispatchComplete ()).registry = s.registry ∧
      (s.markDispatchComplete ()).m_topicObservers = s.m_topicObservers ∧
      (s.markDispatchComplete ()).m_messageQueue = s.m_messageQueue ∧
      (s.markDispatchComplete ()).m_nextObserverId = s.m_nextObserverId ∧
      (s.markDispatchComplete ()).nextHandle = s.nextHandle ∧
      (s.markDispatchComplete ()).addReturns = s.addReturns := by
  unfold State.markDispatchComplete
  simp only [State.setDispatch]
  split <;> exact ⟨rfl, rfl, rfl, rfl, rfl, rfl⟩

theorem Session.Inv.effect {action : Action} (hinv : session.Inv)
    (hstep : session.step action = some next) : session.Effect action next := by
  cases action with
  | call call =>
      simp only [Session.step] at hstep
      split at hstep
      · rename_i hcan
        exact Option.some.inj hstep ▸ .call call hcan
      · cases hstep
  | dispatchNext =>
      simp only [Session.step] at hstep
      split at hstep
      · rename_i hnone hempty
        exact Option.some.inj hstep ▸ .nothing hnone hempty
      · rename_i message rest hnone hqueue
        exact Option.some.inj hstep ▸ .start message rest hnone hqueue
      · cases hstep
  | handlerReturn =>
      simp only [Session.step, EventQueue.step, hinv.idle] at hstep
      split at hstep
      · rename_i observer remaining _ hdispatch
        exact Option.some.inj hstep ▸ .handlerReturn observer remaining hdispatch
      · cases hstep
  | advance =>
      simp only [Session.step, runDispatch] at hstep
      cases hdispatch : session.queue.dispatch () with
      | none => simp [hdispatch] at hstep
      | some dispatching =>
          have hsome : session.current.isSome = true := by rw [hinv.current, hdispatch]; rfl
          obtain ⟨message, hcurrent⟩ := Option.isSome_iff_exists.mp hsome
          cases dispatching with
          | invoking observer remaining => simp [hdispatch] at hstep
          | completing =>
              simp [hdispatch, markDispatchComplete_dispatch, Session.invocation?] at hstep
              exact hstep ▸ .complete hdispatch
          | next remaining =>
              cases remaining with
              | nil =>
                  simp [hdispatch, State.setDispatch, Session.invocation?] at hstep
                  exact hstep ▸ .leave hdispatch
              | cons observer remaining =>
                  cases hhandler : observer.handler? with
                  | none =>
                      simp [hdispatch, State.setDispatch, Session.invocation?, hhandler,
                        hcurrent] at hstep
                      rw [← hcurrent] at hstep
                      exact hstep ▸ .skip observer remaining hdispatch hhandler
                  | some handler =>
                      simp [hdispatch, State.setDispatch, Session.invocation?, hhandler,
                        hcurrent] at hstep
                      rw [← hcurrent] at hstep
                      exact hstep ▸ .invoke observer remaining handler message hdispatch hhandler hcurrent

theorem Session.inv_init : Session.init.Inv := ⟨EventQueue.inv_init, rfl, rfl⟩

theorem Session.Inv.start (hinv : session.Inv) (message : Message) (rest : List Message)
    (hnone : session.queue.dispatch () = none) :
    EventQueue.Inv
      ({ session.queue with m_messageQueue := rest }.markDispatchActive () message.tid) := by
  have hpopped : EventQueue.Inv { session.queue with m_messageQueue := rest } :=
    inv_congr hinv.queue rfl rfl rfl rfl rfl rfl rfl
  have hstep : EventQueue.step { session.queue with m_messageQueue := rest }
      (.callDispatch () message.tid (some message)) =
      some ({ session.queue with m_messageQueue := rest }.markDispatchActive () message.tid) := by
    simp [EventQueue.step, hinv.idle, hnone]
  exact hpopped.step hstep

theorem Session.Inv.step {action : Action} (hinv : session.Inv)
    (hstep : session.step action = some next) : next.Inv := by
  have heffect := hinv.effect hstep
  have hqueue : EventQueue.Inv next.queue := by
    cases action with
    | call call =>
        cases heffect with
        | call _ hcan => exact perform_inv hinv.queue hcan call
    | dispatchNext =>
        cases heffect with
        | nothing => exact hinv.queue
        | start message rest hnone _ => exact hinv.start message rest hnone
    | advance =>
        obtain ⟨queue, hqueue, rfl⟩ := Option.map_eq_some_iff.mp hstep
        have hrun : EventQueue.step session.queue (.run ()) = some queue := by
          simpa [EventQueue.step, runThread, hinv.idle] using hqueue
        exact hinv.queue.step hrun
    | handlerReturn =>
        obtain ⟨queue, hqueue, rfl⟩ := Option.map_eq_some_iff.mp hstep
        exact hinv.queue.step hqueue
  obtain ⟨_, hidle, hcurrent⟩ := hinv
  cases heffect with
  | call call hcan =>
      exact ⟨hqueue, perform_idle hidle call, by rw [perform_dispatch]; exact hcurrent⟩
  | nothing hnone hempty => exact ⟨hqueue, hidle, hcurrent⟩
  | start message rest hnone hmessages =>
      exact ⟨hqueue, hidle, by simp [State.markDispatchActive, State.setDispatch]⟩
  | invoke _ _ _ _ hdispatch | skip _ _ hdispatch | leave hdispatch
  | handlerReturn _ _ hdispatch =>
      exact ⟨hqueue, hidle, by simpa [State.setDispatch, hdispatch] using hcurrent⟩
  | complete hdispatch =>
      refine ⟨hqueue, ?_, by rw [markDispatchComplete_dispatch]; rfl⟩
      unfold State.markDispatchComplete
      simp only [State.setDispatch]
      split <;> simp [hidle, PC.notified]

end MessageCenter.EventQueue.OneThread
