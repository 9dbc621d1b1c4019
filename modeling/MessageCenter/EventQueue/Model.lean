import MessageCenter.Lib.Machine
import MessageCenter.EventQueue.Registry
import Mathlib.Algebra.Group.Nat.Defs
import Mathlib.Data.List.Nodup

/-!
# Dispatch and removal in `eventqueue.cpp`

Any number of threads call `AddObserver`, the three forms of removal, `Post` and
`Dispatch` on one `EventQueue`.  A step is one critical section, one handler
invocation or return, or one access to an atomic or thread-local variable; a
handler is whatever its thread does between the two steps that enter and leave
it.  Handlers return; what an exception leaves behind is in `Bookkeeping` and
`Lifecycle`.

`handle` stands for the allocation of a descriptor: the snapshots of `Dispatch`
copy descriptors by value, and the handle says which descriptor a copy stems
from.  `addReturns` and `removeReturns` are history.
-/

namespace MessageCenter.EventQueue

open Concurrency

universe u

/-! ### Observer descriptors -/

/-- `ObserverDescriptor`; `none` is the null pointer or the empty function. -/
structure ObserverDescriptor where
  handle : Nat
  observerId : Nat
  callback : Option Nat
  callbackMethod : Option Nat
  callbackFunc : Option Nat
  observerInstance : Option Nat
deriving DecidableEq, Repr

/-- What `Dispatch` calls for a descriptor. -/
inductive Handler where
  | callback (function : Nat)
  | method (observerInstance method : Nat)
  | func (function : Nat)
deriving DecidableEq, Repr

/-- The chain of tests in the loop of `Dispatch`; a descriptor without a handler
is passed over. -/
def ObserverDescriptor.handler? (observer : ObserverDescriptor) : Option Handler :=
  match observer.callback, observer.callbackMethod, observer.observerInstance,
    observer.callbackFunc with
  | some function, _, _, _ => some (.callback function)
  | none, some method, some observerInstance, _ => some (.method observerInstance method)
  | none, _, _, some function => some (.func function)
  | none, _, _, none => none

/-- The three forms of removal. -/
inductive Removal where
  | callback (function : Option Nat)
  | method (observerInstance function : Option Nat)
  | byId (observerId : Nat)
deriving DecidableEq, Repr

def Removal.selects : Removal → ObserverDescriptor → Bool
  | .callback function, observer => observer.callback == function
  | .method target function, observer =>
      observer.observerInstance == target && observer.callbackMethod == function
  | .byId id, observer => observer.observerId == id

/-- `break` after the first match, in `RemoveObserverById` only -/
def Removal.stops : Removal → Bool
  | .byId _ => true
  | _ => false

/-- The erase loop: the descriptors that stay and those that are deleted. -/
def Removal.sweep (removal : Removal) :
    List ObserverDescriptor → List ObserverDescriptor × List ObserverDescriptor
  | [] => ([], [])
  | observer :: rest =>
      if removal.selects observer then
        if removal.stops then (rest, [observer])
        else ((removal.sweep rest).1, observer :: (removal.sweep rest).2)
      else (observer :: (removal.sweep rest).1, (removal.sweep rest).2)

/-- The loop moves descriptors from one list to the other and loses none. -/
theorem Removal.sweep_perm (removal : Removal) (observers : List ObserverDescriptor) :
    ((removal.sweep observers).1 ++ (removal.sweep observers).2).Perm observers := by
  induction observers with
  | nil => exact List.Perm.nil
  | cons observer rest ih =>
      simp only [Removal.sweep]
      split
      · split
        · exact List.perm_append_comm
        · exact List.perm_middle.trans (ih.cons observer)
      · exact ih.cons observer

/-- What stays keeps its order. -/
theorem Removal.sweep_sublist (removal : Removal) (observers : List ObserverDescriptor) :
    (removal.sweep observers).1.Sublist observers := by
  induction observers with
  | nil => exact List.Sublist.refl _
  | cons observer rest ih =>
      simp only [Removal.sweep]
      split
      · split
        · exact List.sublist_cons_self ..
        · exact ih.cons _
      · exact ih.cons_cons _

/-- Nothing that the loop looks for stays, if no id is shared. -/
theorem Removal.not_selects_of_kept (removal : Removal) {observers : List ObserverDescriptor}
    (hids : (observers.map ObserverDescriptor.observerId).Nodup) :
    ∀ observer ∈ (removal.sweep observers).1, removal.selects observer = false := by
  induction observers with
  | nil => exact fun _ hmem => absurd hmem List.not_mem_nil
  | cons first rest ih =>
      obtain ⟨hfresh, hrest⟩ := List.nodup_cons.mp hids
      intro observer hmem
      cases hselects : removal.selects first with
      | false =>
          simp only [Removal.sweep, hselects] at hmem
          rcases List.mem_cons.mp hmem with rfl | hmem
          · exact hselects
          · exact ih hrest observer hmem
      | true =>
          cases removal with
          | byId id =>
              simp only [Removal.sweep, hselects, Removal.stops, if_true] at hmem
              have hid : first.observerId = id := by simpa [Removal.selects] using hselects
              have hne : observer.observerId ≠ id := fun heq =>
                hfresh (List.mem_map.mpr ⟨observer, hmem, heq.trans hid.symm⟩)
              simpa [Removal.selects] using hne
          | callback function | method target function =>
              simp only [Removal.sweep, hselects, Removal.stops, if_true] at hmem
              exact ih hrest observer hmem

/-! ### Threads -/

/-- A `Dispatch` call in progress. -/
inductive Dispatching where
  /-- at the head of the loop -/
  | next (remaining : List ObserverDescriptor)
  /-- inside the handler of `observer` -/
  | invoking (observer : ObserverDescriptor) (remaining : List ObserverDescriptor)
  /-- in `MarkDispatchComplete`, before its critical section -/
  | completing
deriving DecidableEq, Repr

structure Message where
  tid : Nat
  obj : Option Nat
  cleanupPayload : Bool
deriving DecidableEq, Repr

/-- Where a thread stands inside a call other than `Dispatch`; each constructor
names the step that comes next. -/
inductive PC where
  | idle
  /-- `RegisterTopic(topic)` -/
  | addRegister (topic : String) (observer : ObserverDescriptor)
  /-- `m_nextObserverId.fetch_add(1)` -/
  | addFetchId (topicId : Int) (observer : ObserverDescriptor)
  /-- `observers->push_back(observer)` under `m_mutexObservers` -/
  | addPush (topicId : Int) (observer : ObserverDescriptor)
  /-- `ResolveTopic(topic)` -/
  | removeResolve (topic : String) (removal : Removal)
  /-- the erase loop under `m_mutexObservers` -/
  | removeErase (topicId : Int) (removal : Removal)
  /-- `if (tl_inDispatch)` -/
  | waitCheck (erased : List ObserverDescriptor)
  /-- the predicate of `m_cvDispatches.wait`, under `m_mutexDispatches` -/
  | waitLock (erased : List ObserverDescriptor)
  /-- blocked in `m_cvDispatches.wait` -/
  | waitBlocked (erased : List ObserverDescriptor)
  /-- `ResolveTopic(topic)` in `Post` -/
  | postResolve (topic : String) (obj : Option Nat) (autoCleanupPayload : Bool)
  /-- `m_messageQueue.push_back(message)` under `m_mutexMessages` -/
  | postPush (id : Int) (obj : Option Nat) (autoCleanupPayload : Bool)
deriving DecidableEq, Repr

/-- A removal that has returned; `inDispatch` says whether its thread was inside
`Dispatch`. -/
structure RemoveReturn (Tid : Type u) where
  thread : Tid
  inDispatch : Bool
  erased : List ObserverDescriptor

structure State (Tid : Type u) where
  registry : Registry
  m_nextObserverId : Nat
  m_topicObservers : Int → Option (List ObserverDescriptor)
  m_messageQueue : List Message
  m_activeDispatches : Int
  tl_inDispatch : Tid → Bool
  dispatch : Tid → Option Dispatching
  pc : Tid → PC
  nextHandle : Nat
  addReturns : List (Tid × Nat)
  removeReturns : List (RemoveReturn Tid)

inductive Action (Tid : Type u) where
  /-- the overloads of `AddObserver` differ in the fields that they set -/
  | callAdd (thread : Tid) (topic : String)
      (callback callbackMethod callbackFunc observerInstance : Option Nat)
  | callRemove (thread : Tid) (topic : String) (removal : Removal)
  | callPost (thread : Tid) (id : Int) (obj : Option Nat) (autoCleanupPayload : Bool)
  | callPostTopic (thread : Tid) (topic : String) (obj : Option Nat) (autoCleanupPayload : Bool)
  | callDispatch (thread : Tid) (id : Int) (message : Option Message)
  /-- the next step of the call that `thread` is running -/
  | run (thread : Tid)
  | handlerReturn (thread : Tid)
  /-- `m_cvDispatches.wait` may return from the block without a notification -/
  | wakeSpuriously (thread : Tid)

/-- `uint64_t` increment of `m_nextObserverId`. -/
def fetchAddId (id : Nat) : Nat := (id + 1) % 2 ^ 64

variable {Tid : Type u}

def init : State Tid where
  registry := Registry.empty
  m_nextObserverId := 1
  m_topicObservers := fun _ => none
  m_messageQueue := []
  m_activeDispatches := 0
  tl_inDispatch := fun _ => false
  dispatch := fun _ => none
  pc := fun _ => .idle
  nextHandle := 0
  addReturns := []
  removeReturns := []

/-- `GetObservers`, with the empty list for a topic without a vector. -/
def State.getObservers (s : State Tid) (id : Int) : List ObserverDescriptor :=
  (s.m_topicObservers id).getD []

section Steps

variable [DecidableEq Tid]

def State.goto (s : State Tid) (t : Tid) (pc : PC) : State Tid :=
  { s with pc := Function.update s.pc t pc }

def State.setDispatch (s : State Tid) (t : Tid) (dispatching : Option Dispatching) : State Tid :=
  { s with dispatch := Function.update s.dispatch t dispatching }

def State.setObservers (s : State Tid) (id : Int) (observers : List ObserverDescriptor) :
    State Tid :=
  { s with m_topicObservers := Function.update s.m_topicObservers id (some observers) }

/-- A thread may call into the queue outside `Dispatch` and inside a handler. -/
def State.canCall (s : State Tid) (t : Tid) : Bool :=
  match s.pc t, s.dispatch t with
  | .idle, none => true
  | .idle, some (.invoking _ _) => true
  | _, _ => false

/-- A removal returns to its caller. -/
def State.removeReturn (s : State Tid) (t : Tid) (erased : List ObserverDescriptor) : State Tid :=
  { s.goto t .idle with
    removeReturns := s.removeReturns ++ [⟨t, (s.dispatch t).isSome, erased⟩] }

/-- `notify_all`: every blocked thread goes back to the predicate. -/
def PC.notified : PC → PC
  | .waitBlocked erased => .waitLock erased
  | pc => pc

/-- The critical section of `MarkDispatchComplete`. -/
def State.markDispatchComplete (s : State Tid) (t : Tid) : State Tid :=
  let s := { s.setDispatch t none with m_activeDispatches := s.m_activeDispatches - 1 }
  if s.m_activeDispatches = 0 then { s with pc := fun other => (s.pc other).notified } else s

/-- The critical section of `Dispatch`: the snapshot and `MarkDispatchActive`. -/
def State.markDispatchActive (s : State Tid) (t : Tid) (id : Int) : State Tid :=
  { s.setDispatch t (some (.next (s.getObservers id))) with
    m_activeDispatches := s.m_activeDispatches + 1
    tl_inDispatch := Function.update s.tl_inDispatch t true }

/-- The next step of the loop of `Dispatch`. -/
def runDispatch (s : State Tid) (t : Tid) : Option (State Tid) :=
  match s.dispatch t with
  | none => none
  | some (.next []) =>
      some { s.setDispatch t (some .completing) with
        tl_inDispatch := Function.update s.tl_inDispatch t false }
  | some (.next (observer :: remaining)) =>
      match observer.handler? with
      | some _ => some (s.setDispatch t (some (.invoking observer remaining)))
      | none => some (s.setDispatch t (some (.next remaining)))
  | some (.invoking _ _) => none
  | some .completing => some (s.markDispatchComplete t)

/-- The next step of `t`: of the call that it runs, or else of its `Dispatch`. -/
def runThread (s : State Tid) (t : Tid) : Option (State Tid) :=
  match s.pc t with
  | .idle => runDispatch s t
  | .addRegister topic observer =>
      let (registry, topicId) := s.registry.registerTopic topic
      let s := { s with registry := registry }
      if topicId < 0 then some { s.goto t .idle with addReturns := s.addReturns ++ [(t, 0)] }
      else some (s.goto t (.addFetchId topicId observer))
  | .addFetchId topicId observer =>
      some { s.goto t (.addPush topicId { observer with observerId := s.m_nextObserverId }) with
        m_nextObserverId := fetchAddId s.m_nextObserverId }
  | .addPush topicId observer =>
      some { (s.setObservers topicId (s.getObservers topicId ++ [observer])).goto t .idle with
        addReturns := s.addReturns ++ [(t, observer.observerId)] }
  | .removeResolve topic removal =>
      some (s.goto t (.removeErase (s.registry.resolveTopic topic) removal))
  | .removeErase topicId removal =>
      match s.m_topicObservers topicId with
      | none => some (s.goto t (.waitCheck []))
      | some observers =>
          let (kept, erased) := removal.sweep observers
          some ((s.setObservers topicId kept).goto t (.waitCheck erased))
  | .waitCheck erased =>
      if s.tl_inDispatch t then some (s.removeReturn t erased)
      else some (s.goto t (.waitLock erased))
  | .waitLock erased =>
      if s.m_activeDispatches = 0 then some (s.removeReturn t erased)
      else some (s.goto t (.waitBlocked erased))
  | .waitBlocked _ => none
  | .postResolve topic obj autoCleanupPayload =>
      some (s.goto t (.postPush (s.registry.resolveTopic topic) obj autoCleanupPayload))
  | .postPush id obj autoCleanupPayload =>
      if 0 ≤ id then
        some { s.goto t .idle with
          m_messageQueue := s.m_messageQueue ++ [⟨id.toNat, obj, autoCleanupPayload⟩] }
      else some (s.goto t .idle)

def step (s : State Tid) : Action Tid → Option (State Tid)
  | .callAdd t topic callback callbackMethod callbackFunc observerInstance =>
      if s.canCall t then
        some { s.goto t (.addRegister topic
            ⟨s.nextHandle, 0, callback, callbackMethod, callbackFunc, observerInstance⟩) with
          nextHandle := s.nextHandle + 1 }
      else none
  | .callRemove t topic removal =>
      if s.canCall t then
        -- only `RemoveObserverById` returns at once, for the id that is never given
        if removal = .byId 0 then some (s.removeReturn t [])
        else some (s.goto t (.removeResolve topic removal))
      else none
  | .callPost t id obj autoCleanupPayload =>
      if s.canCall t then some (s.goto t (.postPush id obj autoCleanupPayload)) else none
  | .callPostTopic t topic obj autoCleanupPayload =>
      if s.canCall t then some (s.goto t (.postResolve topic obj autoCleanupPayload)) else none
  | .callDispatch t id message =>
      match s.pc t, s.dispatch t, message with
      | .idle, none, none => some s
      | .idle, none, some _ => some (s.markDispatchActive t id)
      | _, _, _ => none
  | .run t => runThread s t
  | .handlerReturn t =>
      match s.pc t, s.dispatch t with
      | .idle, some (.invoking _ remaining) => some (s.setDispatch t (some (.next remaining)))
      | _, _ => none
  | .wakeSpuriously t =>
      match s.pc t with
      | .waitBlocked erased => some (s.goto t (.waitLock erased))
      | _ => none

/-- One `EventQueue` used by the threads `Tid`. -/
def machine (Tid : Type u) [DecidableEq Tid] : Machine (State Tid) (Action Tid) where
  init := init
  step := step

end Steps

end MessageCenter.EventQueue
