import MessageCenter.Lib.Machine
import MessageCenter.SnapshotQueue.Model

/-!
# The snapshot queues with many threads

`post` and the dispatches of `EventQueueBroadcastFast`,
`EventQueueBroadcastFastBatch` and the bulk lane of `EventQueueEmulator`, one step
for each access to a payload, to the ring or to a callback.  The ring is an atomic
queue.  A message object belongs to the ring, to a batch buffer or to one call, so
messages travel as values; `acquire` hands out an object with any old contents.

A callback may itself make calls, so each thread has a stack of them.  `freed`
is history: the releases that freed a payload.
-/

namespace MessageCenter.SnapshotQueue.Concurrent

open Concurrency

inductive QueueClass where
  | eventQueueBroadcastFast
  | eventQueueBroadcastFastBatch
  | eventQueueEmulator
deriving DecidableEq, Repr

namespace QueueClass

/-- `FAST_MAX_TOPICS`, `BATCH_MAX_TOPICS`, `EMU_MAX_TOPICS` -/
def maxTopics : QueueClass → Nat
  | eventQueueBroadcastFast => 4096
  | eventQueueBroadcastFastBatch => 4096
  | eventQueueEmulator => 256

/-- `FAST_MAX_OBSERVERS`, `BATCH_MAX_OBSERVERS`, `EMU_MAX_OBSERVERS` -/
def maxObservers : QueueClass → Nat
  | eventQueueBroadcastFast => 16
  | eventQueueBroadcastFastBatch => 16
  | eventQueueEmulator => 8

/-- `FAST_INLINE_MAX`, `BATCH_INLINE_MAX`, `EMU_INLINE_MAX` -/
def inlineMax : QueueClass → Nat
  | eventQueueBroadcastFast => 48
  | eventQueueBroadcastFastBatch => 48
  | eventQueueEmulator => 48

/-- Whether the class has `postBatched`, `flushBatch` and its own `dispatchBatch`. -/
def hasBatch : QueueClass → Bool
  | eventQueueBroadcastFast => false
  | eventQueueBroadcastFastBatch => true
  | eventQueueEmulator => false

end QueueClass

/-- `BATCH_SIZE` -/
def BATCH_SIZE : Nat := 32

/-- `msg->isInline ? nothing : msg->managed` -/
def managedOf (msg : SnapshotMessage) : Option PayloadId :=
  if msg.isInline then none else msg.payload.managed

inductive Phase where
  | call
  | callback
  | release
deriving DecidableEq, Repr

/-- A call in progress, by what it does next. -/
inductive Frame where
  /-- `RefCountedPayload::create` -/
  | create (msg : SnapshotMessage) (data : Option (List UInt8)) (batched : Bool)
  | addRefs (msg : SnapshotMessage) (batched : Bool)
  /-- `try_push`, or the store to `t_batch.msgs` -/
  | send (msg : SnapshotMessage) (batched : Bool)
  /-- the loop of `flushBatch` -/
  | flush
  /-- the first loop of `dispatchBatch` -/
  | collect (limit : Nat) (batch : List SnapshotMessage)
  /-- the loop over the observers of `msg`; `rest` are the messages after it -/
  | dispatch (phase : Phase) (msg : SnapshotMessage) (i : Nat) (rest : List SnapshotMessage)

/-- `t_batch`; `i` is the loop variable of `flushBatch`, 0 outside of it. -/
structure BatchBuffer where
  msgs : List SnapshotMessage
  i : Nat

structure ThreadState where
  stack : List Frame
  t_batch : BatchBuffer

/-- `release()` found the last reference after the callback `observer` of
`observerCount`. -/
structure Free where
  payload : PayloadId
  observer : Nat
  observerCount : Nat
deriving DecidableEq, Repr

structure State (Thread : Type) where
  ring : List SnapshotMessage
  m_topics : Nat → TopicObservers
  payloads : PayloadHeap
  threads : Thread → ThreadState
  freed : List Free

inductive Action (Thread : Type) where
  | addObserver (topicId : Nat) (observer : Observer)
  /-- `post`, `postBulk` and `postBatched`, up to the payload; the pool hands out an
  object that holds `old` -/
  | post (t : Thread) (old : SnapshotMessage) (topicId : Nat) (data : Option (List UInt8))
      (size : Nat) (batched : Bool)
  | flushBatch (t : Thread)
  /-- `dispatchOne`, `dispatchBulk` -/
  | dispatchOne (t : Thread)
  | dispatchBatch (t : Thread) (maxCount : Nat)
  /-- the next step of the call that the thread is in -/
  | proceed (t : Thread)

variable {Thread : Type}

def init : State Thread where
  ring := []
  m_topics := fun _ => ⟨0, fun _ => ⟨0, 0⟩⟩
  payloads := PayloadHeap.empty
  threads := fun _ => ⟨[], [], 0⟩
  freed := []

/-- The thread is in no call or in a callback. -/
def ThreadState.canCall (thread : ThreadState) : Bool :=
  match thread.stack with
  | [] => true
  | .dispatch .callback _ _ _ :: _ => true
  | _ => false

def ThreadState.enter (thread : ThreadState) (frame : Frame) : ThreadState :=
  { thread with stack := frame :: thread.stack }

/-- The calls for the messages `rest` of a dispatch, which returns after the last. -/
def dispatchRest (below : List Frame) : List SnapshotMessage → List Frame
  | [] => below
  | msg :: rest => .dispatch .call msg 0 rest :: below

section
variable [DecidableEq Thread]

def State.setThread (s : State Thread) (t : Thread) (thread : ThreadState) : State Thread :=
  { s with threads := Function.update s.threads t thread }

@[simp] theorem State.setThread_ring (s : State Thread) (t : Thread) (thread : ThreadState) :
    (s.setThread t thread).ring = s.ring := rfl

@[simp] theorem State.setThread_payloads (s : State Thread) (t : Thread) (thread : ThreadState) :
    (s.setThread t thread).payloads = s.payloads := rfl

@[simp] theorem State.setThread_freed (s : State Thread) (t : Thread) (thread : ThreadState) :
    (s.setThread t thread).freed = s.freed := rfl

@[simp] theorem State.setThread_self (s : State Thread) (t : Thread) (thread : ThreadState) :
    (s.setThread t thread).threads t = thread := by
  simp [State.setThread]

def addObserver (cls : QueueClass) (s : State Thread) (topicId : Nat) (observer : Observer) :
    State Thread :=
  if topicId ≥ cls.maxTopics then s
  else
    let topic := s.m_topics topicId
    let idx := topic.count
    if idx ≥ cls.maxObservers then s
    else
      let observers := Function.update topic.observers idx observer
      { s with m_topics := Function.update s.m_topics topicId ⟨idx + 1, observers⟩ }

/-- `post` up to the payload. -/
def post (cls : QueueClass) (s : State Thread) (t : Thread) (old : SnapshotMessage)
    (topicId : Nat) (data : Option (List UInt8)) (size : Nat) (batched : Bool) : State Thread :=
  if topicId ≥ cls.maxTopics then s
  else
    let topic := s.m_topics topicId
    let count := topic.count
    if count = 0 then s
    else
      let observers := copyObservers old.observers topic.observers count
      let frame :=
        if size ≤ cls.inlineMax then
          Frame.send ⟨topicId, count, true, size, observers, old.payload.copyInline data size⟩
            batched
        else Frame.create ⟨topicId, count, false, size, observers, old.payload⟩ data batched
      s.setThread t ((s.threads t).enter frame)

/-- One round of the loop of `dispatchBatch` that collects messages. -/
def collect (s : State Thread) (t : Thread) (below : List Frame) (limit : Nat)
    (batch : List SnapshotMessage) : State Thread :=
  let thread := s.threads t
  match if batch.length < limit then s.ring else [] with
  | msg :: ring =>
      { s.setThread t { thread with stack := .collect limit (batch ++ [msg]) :: below } with
        ring := ring }
  | [] => s.setThread t { thread with stack := dispatchRest below batch }

/-- One round of the loop of `flushBatch`; with a full ring it tries again. -/
def flush (Capacity : Nat) (s : State Thread) (t : Thread) (below : List Frame) : State Thread :=
  let thread := s.threads t
  let batch := thread.t_batch
  match batch.msgs[batch.i]? with
  | some msg =>
      if s.ring.length < Capacity then
        { s.setThread t { thread with t_batch := { batch with i := batch.i + 1 } } with
          ring := s.ring ++ [msg] }
      else s
  | none => s.setThread t ⟨below, [], 0⟩

/-- `managed->release()` after the callback `i`. -/
def release (s : State Thread) (t : Thread) (below : List Frame) (msg : SnapshotMessage) (i : Nat)
    (rest : List SnapshotMessage) : State Thread :=
  let s := s.setThread t { s.threads t with stack := .dispatch .call msg (i + 1) rest :: below }
  match managedOf msg with
  | some managed =>
      let (payloads, last) := s.payloads.release managed
      { s with
        payloads := payloads
        freed := if last then s.freed ++ [⟨managed, i, msg.observerCount⟩] else s.freed }
  | none => s

/-- The next step of a thread. -/
def proceed (Capacity : Nat) (s : State Thread) (t : Thread) : Option (State Thread) :=
  let thread := s.threads t
  match thread.stack with
  | [] => none
  | .create msg data batched :: below =>
      let (managed, payloads) := s.payloads.create (data.getD []) msg.payloadSize
      let msg := { msg with payload := msg.payload.setManaged managed }
      let frame := if msg.observerCount > 1 then .addRefs msg batched else .send msg batched
      some { s.setThread t { thread with stack := frame :: below } with payloads := payloads }
  | .addRefs msg batched :: below =>
      let s := s.setThread t { thread with stack := .send msg batched :: below }
      match managedOf msg with
      | some managed =>
          let payloads := s.payloads.addRefs managed (msg.observerCount - 1 : Int)
          some { s with payloads := payloads }
      | none => some s
  | .send msg false :: below =>
      if s.ring.length < Capacity then
        some { s.setThread t { thread with stack := below } with ring := s.ring ++ [msg] }
      else some s
  | .send msg true :: below =>
      let batch := { thread.t_batch with msgs := thread.t_batch.msgs ++ [msg] }
      let stack := if batch.msgs.length ≥ BATCH_SIZE then .flush :: below else below
      some (s.setThread t ⟨stack, batch⟩)
  | .flush :: below => some (flush Capacity s t below)
  | .collect limit batch :: below => some (collect s t below limit batch)
  | .dispatch .call msg i rest :: below =>
      if i < msg.observerCount then
        some (s.setThread t { thread with stack := .dispatch .callback msg i rest :: below })
      else some (s.setThread t { thread with stack := dispatchRest below rest })
  | .dispatch .callback msg i rest :: below =>
      some (s.setThread t { thread with stack := .dispatch .release msg i rest :: below })
  | .dispatch .release msg i rest :: below => some (release s t below msg i rest)

def step (cls : QueueClass) (Capacity : Nat) (s : State Thread) :
    Action Thread → Option (State Thread)
  | .addObserver topicId observer => some (addObserver cls s topicId observer)
  | .post t old topicId data size batched =>
      if (s.threads t).canCall ∧ (batched → cls.hasBatch) then
        some (post cls s t old topicId data size batched)
      else none
  | .flushBatch t =>
      if (s.threads t).canCall ∧ cls.hasBatch then
        some (s.setThread t ((s.threads t).enter .flush))
      else none
  | .dispatchOne t =>
      if (s.threads t).canCall then
        match s.ring with
        | [] => some s
        | msg :: ring =>
            let thread := (s.threads t).enter (.dispatch .call msg 0 [])
            some { s.setThread t thread with ring := ring }
      else none
  | .dispatchBatch t maxCount =>
      if (s.threads t).canCall ∧ cls.hasBatch then
        some (s.setThread t ((s.threads t).enter (.collect (min maxCount BATCH_SIZE) [])))
      else none
  | .proceed t => proceed Capacity s t

def machine (Thread : Type) [DecidableEq Thread] (cls : QueueClass) (Capacity : Nat) :
    Machine (State Thread) (Action Thread) :=
  ⟨init, step cls Capacity⟩

end

end MessageCenter.SnapshotQueue.Concurrent
