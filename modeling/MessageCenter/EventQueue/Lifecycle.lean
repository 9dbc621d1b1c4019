import MessageCenter.EventQueue.OneThread

/-!
# From `Start` to `dispose`

One `EventQueue`, or one `MessageCenter` with its worker thread, over its whole life:
registrations, posts, dispatches, `Start`, `Stop`, `dispose` and the destructor.  Any
number of threads call `GetQueueMessage` and `Dispatch` themselves; the worker is one
more of them, named `none`.  A step is one critical section, one test of a flag or one
handler invocation, return or exception.  An exception leaves `Dispatch` before the
cleanup, and the message stays with the caller; on the worker it ends the process.
`Start` and `Stop` are called by one thread at a time.

A payload object is named by the post that hands it over.  `entrusted`, `leaked` and
`log` are history: the payloads posted with `autoCleanupPayload`, those that were let go
of without being destroyed, and what happened to the others.
-/

namespace MessageCenter.EventQueue

/-- The payload that `Dispatch` destroys with the message. -/
def Message.owned (message : Message) : Option Nat :=
  if message.cleanupPayload then message.obj else none

namespace Lifecycle

open Concurrency
open OneThread (Overload)

/-- Where a thread is between `GetQueueMessage` and the end of `Dispatch`. -/
inductive DispatchPc where
  | idle
  /-- before the snapshot -/
  | taken (message : Message)
  /-- the loop, with the descriptors still to come -/
  | next (message : Message) (remaining : List ObserverDescriptor)
  | invoking (message : Message) (remaining : List ObserverDescriptor)
  | cleanup (message : Message)
deriving DecidableEq, Repr

def DispatchPc.message? : DispatchPc → Option Message
  | .idle => none
  | .taken message | .next message _ | .invoking message _ | .cleanup message => some message

/-- Where `ThreadWorker` is. -/
inductive WorkerPc where
  /-- there is no thread -/
  | off
  /-- `if (m_requestStop.load())` -/
  | testStop
  | getMessage
  | dispatching
  /-- `m_stopped = true` -/
  | exiting
  /-- the thread has ended and was not joined -/
  | finished
deriving DecidableEq, Repr

inductive Event where
  | called (message : Message) (handler : Handler)
  | destroyed (payload : Nat)
deriving DecidableEq, Repr

structure State (Tid : Type) where
  registry : Registry
  m_nextObserverId : Nat
  nextHandle : Nat
  m_topicObservers : Int → List ObserverDescriptor
  m_messageQueue : List Message
  dispatch : Option Tid → DispatchPc
  m_started : Bool
  m_requestStop : Bool
  m_stopped : Bool
  worker : WorkerPc
  alive : Bool
  nextPayload : Nat
  entrusted : List Nat
  leaked : List Nat
  log : List Event

inductive Action (Tid : Type) where
  | registerTopic (topic : String)
  | addObserver (topic : String) (overload : Overload)
  /-- `obj` is null or a new object -/
  | post (id : Int) (obj : Bool) (autoCleanupPayload : Bool)
  | postTopic (topic : String) (obj : Bool) (autoCleanupPayload : Bool)
  /-- `GetQueueMessage` -/
  | getQueueMessage (t : Tid)
  /-- the next step of `Dispatch` -/
  | dispatch (t : Tid)
  /-- the handler throws, and `Dispatch` is left -/
  | handlerThrow (t : Tid)
  /-- the message from `GetQueueMessage` is forgotten outside `Dispatch` -/
  | abandon (t : Tid)
  /-- the next step of `ThreadWorker` -/
  | worker
  | start
  | stop
  /-- `Stop` from `join` on -/
  | join
  | dispose
  /-- `~MessageCenter` and `~EventQueue` -/
  | destruct

instance {Tid : Type} : Inhabited (Action Tid) := ⟨.worker⟩

variable {Tid : Type}

def init : State Tid where
  registry := Registry.empty
  m_nextObserverId := 1
  nextHandle := 0
  m_topicObservers := fun _ => []
  m_messageQueue := []
  dispatch := fun _ => .idle
  m_started := false
  m_requestStop := false
  m_stopped := true
  worker := .off
  alive := true
  nextPayload := 0
  entrusted := []
  leaked := []
  log := []

def State.record (s : State Tid) (events : List Event) : State Tid :=
  { s with log := s.log ++ events }

def addObserver (s : State Tid) (topic : String) (overload : Overload) : State Tid :=
  let observer := overload.descriptor s.nextHandle
  let (registry, topicId) := s.registry.registerTopic topic
  let s := { s with registry := registry, nextHandle := s.nextHandle + 1 }
  if topicId < 0 then s
  else
    let observer := { observer with observerId := s.m_nextObserverId }
    { s with
      m_nextObserverId := fetchAddId s.m_nextObserverId
      m_topicObservers :=
        Function.update s.m_topicObservers topicId (s.m_topicObservers topicId ++ [observer]) }

/-- `new Message(id, obj, autoCleanupPayload)` -/
def newMessage (s : State Tid) (id : Int) (obj : Bool) (autoCleanupPayload : Bool) : Message :=
  ⟨id.toNat, if obj then some s.nextPayload else none, autoCleanupPayload⟩

/-- `Post`; without a queued message nothing refers to the payload any more. -/
def post (s : State Tid) (id : Int) (obj : Bool) (autoCleanupPayload : Bool) : State Tid :=
  let message := newMessage s id obj autoCleanupPayload
  let s := { s with
    nextPayload := s.nextPayload + 1
    entrusted := message.owned.toList ++ s.entrusted }
  if 0 ≤ id then { s with m_messageQueue := s.m_messageQueue ++ [message] }
  else { s with leaked := message.owned.toList ++ s.leaked }

/-- `dispose` deletes the messages and the descriptors. -/
def dispose (s : State Tid) : State Tid :=
  { s with
    m_messageQueue := []
    m_topicObservers := fun _ => []
    leaked := s.m_messageQueue.filterMap Message.owned ++ s.leaked }

/-- `Start` -/
def start (s : State Tid) : State Tid :=
  if s.m_started then s
  else { s with m_requestStop := false, m_stopped := false, worker := .testStop, m_started := true }

/-- `Stop` up to `join` -/
def stop (s : State Tid) : State Tid :=
  if s.m_stopped then s else { s with m_requestStop := true }

section
variable [DecidableEq Tid]

def State.goto (s : State Tid) (actor : Option Tid) (pc : DispatchPc) : State Tid :=
  { s with dispatch := Function.update s.dispatch actor pc }

/-- `GetQueueMessage` -/
def getQueueMessage (s : State Tid) (actor : Option Tid) : State Tid :=
  match s.m_messageQueue with
  | [] => s
  | message :: rest => { s with m_messageQueue := rest }.goto actor (.taken message)

/-- The next step of `Dispatch`. -/
def runDispatch (s : State Tid) (actor : Option Tid) : Option (State Tid) :=
  match s.dispatch actor with
  | .idle => none
  | .taken message => some (s.goto actor (.next message (s.m_topicObservers message.tid)))
  | .next message [] => some (s.goto actor (.cleanup message))
  | .next message (observer :: remaining) =>
      match observer.handler? with
      | some handler =>
          some ((s.goto actor (.invoking message remaining)).record [.called message handler])
      | none => some (s.goto actor (.next message remaining))
  | .invoking message remaining => some (s.goto actor (.next message remaining))
  | .cleanup message =>
      some ((s.goto actor .idle).record (message.owned.toList.map .destroyed))

/-- An exception of a handler; the caller still has the message. -/
def handlerThrow (s : State Tid) (actor : Option Tid) : Option (State Tid) :=
  match s.dispatch actor with
  | .invoking message _ => some (s.goto actor (.taken message))
  | _ => none

/-- The caller goes on without the message, to which nothing refers any more. -/
def abandon (s : State Tid) (actor : Option Tid) : Option (State Tid) :=
  match s.dispatch actor with
  | .taken message =>
      some { s.goto actor .idle with leaked := message.owned.toList ++ s.leaked }
  | _ => none

/-- The next step of `ThreadWorker`. -/
def runWorker (s : State Tid) : Option (State Tid) :=
  match s.worker with
  | .off | .finished => none
  | .testStop => some { s with worker := if s.m_requestStop then .exiting else .getMessage }
  | .getMessage => some { getQueueMessage s none with worker := .dispatching }
  | .dispatching =>
      if s.dispatch none = .idle then some { s with worker := .testStop } else runDispatch s none
  | .exiting => some { s with m_stopped := true, worker := .finished }

def step (s : State Tid) (action : Action Tid) : Option (State Tid) :=
  if s.alive then
    match action with
    | .registerTopic topic => some { s with registry := (s.registry.registerTopic topic).1 }
    | .addObserver topic overload => some (addObserver s topic overload)
    | .post id obj autoCleanupPayload => some (post s id obj autoCleanupPayload)
    | .postTopic topic obj autoCleanupPayload =>
        some (post s (s.registry.resolveTopic topic) obj autoCleanupPayload)
    | .getQueueMessage t =>
        if s.dispatch (some t) = .idle then some (getQueueMessage s (some t)) else none
    | .dispatch t => runDispatch s (some t)
    | .handlerThrow t => handlerThrow s (some t)
    | .abandon t => abandon s (some t)
    | .worker => runWorker s
    | .start => some (start s)
    | .stop => some (stop s)
    | .join =>
        if s.m_started ∧ s.worker = .finished then
          some { s with worker := .off, m_started := false }
        else none
    | .dispose => some (dispose s)
    | .destruct =>
        if s.worker = .off ∨ s.worker = .finished then
          some { dispose s with alive := false, worker := .off }
        else none
  else none

def machine (Tid : Type) [DecidableEq Tid] : Machine (State Tid) (Action Tid) := ⟨init, step⟩

end

end Lifecycle

end MessageCenter.EventQueue
