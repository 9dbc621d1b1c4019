import MessageCenter.SnapshotQueue.Concurrent

/-!
# `EventQueueBroadcastFastBatch` objects in one thread

Any number of queue objects of one instance of the class template.  Each has its
ring, pool and topics; message objects and payloads are on the common heap, and
`t_batch` is static, so the thread has one for all the queues.

A dispatch goes step by step, and between the steps of its callbacks other calls
may come, on any queue.  `origin` and `trace` are history: through which queue
an object was posted, and what became of it.
-/

namespace MessageCenter.SnapshotQueue.SharedBatch

open Concurrency ObjectPoolLockFree
open Concurrent (managedOf BATCH_SIZE)

def BATCH_MAX_TOPICS : Nat := 4096

def BATCH_MAX_OBSERVERS : Nat := 16

/-- `BATCH_INLINE_MAX` -/
abbrev format : Format SnapshotMessage := snapshotFormat 48

/-- The number of the queue, in order of construction. -/
abbrev QueueId := Nat

/-- What happens to a message object that was posted through `origin`. -/
inductive Event where
  | pushed (queue : QueueId) (origin : Option QueueId)
  | dispatched (queue : QueueId) (origin : Option QueueId)
  | released (queue : QueueId) (origin : Option QueueId)
deriving DecidableEq, Repr

def Event.queue : Event → QueueId
  | pushed queue _ => queue
  | dispatched queue _ => queue
  | released queue _ => queue

def Event.origin : Event → Option QueueId
  | pushed _ origin => origin
  | dispatched _ origin => origin
  | released _ origin => origin

/-- A dispatch in progress: the messages that it took from the ring, the message
and the observer that it is at. -/
structure Frame where
  queue : QueueId
  batch : List Addr
  next : Nat
  i : Nat
  inCallback : Bool
deriving Repr

structure State where
  memory : Memory SnapshotMessage
  live : QueueId
  queue : QueueId → PooledQueue
  m_topics : QueueId → Nat → TopicObservers
  /-- `t_batch.msgs[0 .. t_batch.count)` -/
  t_batch : List Addr
  payloads : PayloadHeap
  stack : List Frame
  origin : Addr → Option QueueId
  trace : List Event

inductive Action where
  | construct
  | addObserver (q : QueueId) (topicId : Nat) (observer : Observer)
  | post (q : QueueId) (topicId : Nat) (data : Option (List UInt8)) (size : Nat)
  | postBatched (q : QueueId) (topicId : Nat) (data : Option (List UInt8)) (size : Nat)
  | flushBatch (q : QueueId)
  | dispatchOne (q : QueueId)
  | dispatchBatch (q : QueueId) (maxCount : Nat)
  /-- the next step of the innermost dispatch -/
  | proceed
deriving Repr

def init : State where
  memory := ⟨fun _ => format.zero, 0⟩
  live := 0
  queue := fun _ =>
    { m_queue := MPMCQueue.WordRing.init, m_freeList := [], m_allocated := 0, deleted := [] }
  m_topics := fun _ _ => ⟨0, fun _ => ⟨0, 0⟩⟩
  t_batch := []
  payloads := PayloadHeap.empty
  stack := []
  origin := fun _ => none
  trace := []

def State.setQueue (s : State) (q : QueueId) (queue : PooledQueue) : State :=
  { s with queue := Function.update s.queue q queue }

def State.log (s : State) (event : Event) : State := { s with trace := s.trace ++ [event] }

/-- A new queue with a pool that has just been constructed. -/
def constructWith (s : State) (pool : Memory SnapshotMessage × PooledQueue) : State :=
  { s.setQueue s.live pool.2 with memory := pool.1, live := s.live + 1 }

/-- `m_messagePool(512, 16384)` -/
def construct (s : State) : State :=
  constructWith s (PooledQueue.construct format.zero s.memory 512)

def addObserver (s : State) (q : QueueId) (topicId : Nat) (observer : Observer) : State :=
  if topicId ≥ BATCH_MAX_TOPICS then s
  else
    let topic := s.m_topics q topicId
    let idx := topic.count
    if idx ≥ BATCH_MAX_OBSERVERS then s
    else
      let topic := ⟨idx + 1, Function.update topic.observers idx observer⟩
      let topics := Function.update (s.m_topics q) topicId topic
      { s with m_topics := Function.update s.m_topics q topics }

/-- `post` and `postBatched` up to the filled message. -/
def prepare (s : State) (q : QueueId) (topicId : Nat) (topic : TopicObservers)
    (data : Option (List UInt8)) (size : Nat) : State × Addr :=
  let (msg, memory, queue) := (s.queue q).acquire format.zero s.memory
  let (payloads, message) :=
    format.fill s.payloads (memory.objects msg) topicId topic.count topic.observers data size
  ({ s.setQueue q queue with
      memory := memory.write msg message
      payloads := payloads
      origin := Function.update s.origin msg (some q) }, msg)

/-- `while (!m_queue.try_push(msg)) yield()` -/
def push (k : Nat) (s : State) (q : QueueId) (msg : Addr) : Option State :=
  ((s.queue q).push (2 ^ k) msg).map fun queue =>
    (s.setQueue q queue).log (.pushed q (s.origin msg))

def post (k : Nat) (s : State) (q : QueueId) (topicId : Nat) (data : Option (List UInt8))
    (size : Nat) : Option State :=
  if topicId ≥ BATCH_MAX_TOPICS then some s
  else
    let topic := s.m_topics q topicId
    if topic.count = 0 then some s
    else
      let (s, msg) := prepare s q topicId topic data size
      push k s q msg

/-- The loop of `flushBatch` over the messages that are left. -/
def flushMsgs (k : Nat) (q : QueueId) : List Addr → State → Option State
  | [], s => some s
  | msg :: rest, s => (push k s q msg).bind fun s => flushMsgs k q rest s

def flushBatch (k : Nat) (s : State) (q : QueueId) : Option State :=
  (flushMsgs k q s.t_batch s).map fun s => { s with t_batch := [] }

def postBatched (k : Nat) (s : State) (q : QueueId) (topicId : Nat) (data : Option (List UInt8))
    (size : Nat) : Option State :=
  if topicId ≥ BATCH_MAX_TOPICS then some s
  else
    let topic := s.m_topics q topicId
    if topic.count = 0 then some s
    else
      let (s, msg) := prepare s q topicId topic data size
      let s := { s with t_batch := s.t_batch ++ [msg] }
      if s.t_batch.length ≥ BATCH_SIZE then flushBatch k s q else some s

/-- A dispatch takes up to `n` messages. -/
def takeMsgs (k : Nat) (q : QueueId) : Nat → State → Option (State × List Addr)
  | 0, s => some (s, [])
  | n + 1, s =>
      match (s.queue q).pop (2 ^ k) with
      | none => none
      | some (queue, none) => some (s.setQueue q queue, [])
      | some (queue, some msg) =>
          (takeMsgs k q n ((s.setQueue q queue).log (.dispatched q (s.origin msg)))).map
            fun (s, rest) => (s, msg :: rest)

/-- `dispatchOne` takes one message, `dispatchBatch` up to `BATCH_SIZE`; with
nothing in the ring they return at once. -/
def dispatch (k : Nat) (s : State) (q : QueueId) (maxCount : Nat) : Option State :=
  (takeMsgs k q maxCount s).map fun (s, batch) =>
    if batch = [] then s else { s with stack := ⟨q, batch, 0, 0, false⟩ :: s.stack }

/-- `m_messagePool.release(batch[i])` for all messages of a dispatch. -/
def releaseMsgs (q : QueueId) : List Addr → State → State
  | [], s => s
  | msg :: rest, s =>
      let queue := (s.queue q).release 16384 msg
      releaseMsgs q rest ((s.setQueue q queue).log (.released q (s.origin msg)))

/-- The next step of the dispatch `frame`: the next callback, its return, or the
return of the dispatch. -/
def proceed (s : State) (frame : Frame) (below : List Frame) : State :=
  match frame.batch[frame.next]? with
  | some msg =>
      let message := s.memory.objects msg
      if frame.inCallback then
        let s := { s with stack := { frame with i := frame.i + 1, inCallback := false } :: below }
        match managedOf message with
        | some managed => { s with payloads := (s.payloads.release managed).1 }
        | none => s
      else if frame.i < message.observerCount then
        { s with stack := { frame with inCallback := true } :: below }
      else { s with stack := { frame with next := frame.next + 1, i := 0 } :: below }
  | none => { releaseMsgs frame.queue frame.batch s with stack := below }

/-- The thread is in no dispatch or in a callback. -/
def State.canCall (s : State) : Bool :=
  match s.stack with
  | [] => true
  | frame :: _ => frame.inCallback

/-- A call on a queue that exists. -/
def State.accepts (s : State) (q : QueueId) : Bool := s.canCall && decide (q < s.live)

def step (k : Nat) (s : State) : Action → Option State
  | .construct => if s.canCall then some (construct s) else none
  | .addObserver q topicId observer =>
      if s.accepts q then some (addObserver s q topicId observer) else none
  | .post q topicId data size => if s.accepts q then post k s q topicId data size else none
  | .postBatched q topicId data size =>
      if s.accepts q then postBatched k s q topicId data size else none
  | .flushBatch q => if s.accepts q then flushBatch k s q else none
  | .dispatchOne q => if s.accepts q then dispatch k s q 1 else none
  | .dispatchBatch q maxCount =>
      if s.accepts q then dispatch k s q (min maxCount BATCH_SIZE) else none
  | .proceed =>
      match s.stack with
      | [] => none
      | frame :: below => some (proceed s frame below)

def machine (k : Nat) : Machine State Action := ⟨init, step k⟩

end MessageCenter.SnapshotQueue.SharedBatch
