import MessageCenter.SnapshotQueue.SharedBatch

/-!
# One `EventQueueBroadcastFastBatch` in one thread

The calls of a thread that uses a single object of the class, so `t_batch` holds messages of
this object only.  What a callback does is given by `behaviour`: it may call `post` and
`postBatched`.  A message is the number of the accepted call that made it; `accepted`,
`carried`, `dispatched` and `overfull` are history.
-/

namespace MessageCenter.SnapshotQueue.Batch

open ObjectPoolLockFree
open SharedBatch (BATCH_MAX_TOPICS BATCH_MAX_OBSERVERS format)
open Concurrent (BATCH_SIZE)

/-- A call of `postBatched`, or else of `post`. -/
structure PostCall where
  batched : Bool
  topicId : Nat
  data : Option (List UInt8)
  size : Nat
deriving DecidableEq, Repr

structure State where
  memory : Memory SnapshotMessage
  queue : PooledQueue
  m_topics : Nat → TopicObservers
  /-- `t_batch.msgs[0 .. t_batch.count)` -/
  t_batch : List Addr
  payloads : PayloadHeap
  trace : List CallEvent
  /-- the calls that took a message object -/
  accepted : List PostCall
  /-- the call that an object was last taken for -/
  carried : Addr → Nat
  /-- the messages whose observers have been called -/
  dispatched : List Nat
  /-- a push has found the ring full -/
  overfull : Bool

/-- Why a call does not return. -/
inductive Stop where
  /-- the ring operation spins -/
  | blocked
  /-- a write behind the end of `t_batch.msgs` -/
  | outOfBounds
  /-- `dispatchAll` would go on -/
  | unfinished
deriving DecidableEq, Repr

/-- What callbacks call, given the callbacks made so far. -/
abbrev Behaviour := List CallEvent → List PostCall

/-- A queue with a new pool. -/
def initWith (pool : Memory SnapshotMessage × PooledQueue) : State where
  memory := pool.1
  queue := pool.2
  m_topics := fun _ => ⟨0, fun _ => ⟨0, 0⟩⟩
  t_batch := []
  payloads := PayloadHeap.empty
  trace := []
  accepted := []
  carried := fun _ => 0
  dispatched := []
  overfull := false

/-- `m_messagePool(512, 16384)` -/
def init : State :=
  initWith (PooledQueue.construct format.zero ⟨fun _ => format.zero, 0⟩ 512)

/-! ### Posting -/

def addObserver (s : State) (topicId : Nat) (observer : Observer) : State :=
  if topicId ≥ BATCH_MAX_TOPICS then s
  else
    let topic := s.m_topics topicId
    let idx := topic.count
    if idx ≥ BATCH_MAX_OBSERVERS then s
    else
      let topic := ⟨idx + 1, Function.update topic.observers idx observer⟩
      { s with m_topics := Function.update s.m_topics topicId topic }

/-- `post` and `postBatched` up to the filled message. -/
def prepare (s : State) (call : PostCall) : State × Addr :=
  let topic := s.m_topics call.topicId
  let (msg, memory, queue) := s.queue.acquire format.zero s.memory
  let (payloads, message) := format.fill s.payloads (memory.objects msg) call.topicId topic.count
    topic.observers call.data call.size
  ({ s with
      memory := memory.write msg message
      queue := queue
      payloads := payloads
      accepted := s.accepted ++ [call]
      carried := Function.update s.carried msg s.accepted.length }, msg)

/-- The messages in the ring. -/
def State.queued (k : Nat) (s : State) : List Addr := s.queue.m_queue.contents (2 ^ k)

/-- `while (!m_queue.try_push(msg)) yield()` -/
def push (k : Nat) (s : State) (msg : Addr) : Except Stop State :=
  match s.queue.push (2 ^ k) msg with
  | some queue =>
      .ok { s with queue := queue, overfull := s.overfull || decide (2 ^ k ≤ (s.queued k).length) }
  | none => .error .blocked

/-- The loop of `flushBatch` over the messages that are left. -/
def flushMsgs (k : Nat) : List Addr → State → Except Stop State
  | [], s => .ok s
  | msg :: rest, s => (push k s msg).bind fun s => flushMsgs k rest s

def flushBatch (k : Nat) (s : State) : Except Stop State :=
  (flushMsgs k s.t_batch s).map fun s => { s with t_batch := [] }

/-- `t_batch.msgs[t_batch.count++] = msg` -/
def accumulate (s : State) (msg : Addr) : Except Stop State :=
  if s.t_batch.length < BATCH_SIZE then .ok { s with t_batch := s.t_batch ++ [msg] }
  else .error .outOfBounds

/-- `post` and `postBatched`, which differ in what they do with the message. -/
def PostCall.run (k : Nat) (s : State) (call : PostCall) : Except Stop (State × Bool) :=
  if call.topicId ≥ BATCH_MAX_TOPICS then .ok (s, false)
  else if (s.m_topics call.topicId).count = 0 then .ok (s, true)
  else
    let (s, msg) := prepare s call
    let sent :=
      if call.batched then
        (accumulate s msg).bind fun s =>
          if s.t_batch.length ≥ BATCH_SIZE then flushBatch k s else .ok s
      else push k s msg
    sent.map fun s => (s, true)

def post (k : Nat) (s : State) (topicId : Nat) (data : Option (List UInt8)) (size : Nat) :
    Except Stop (State × Bool) :=
  PostCall.run k s ⟨false, topicId, data, size⟩

def postBatched (k : Nat) (s : State) (topicId : Nat) (data : Option (List UInt8)) (size : Nat) :
    Except Stop (State × Bool) :=
  PostCall.run k s ⟨true, topicId, data, size⟩

def posts (k : Nat) : State → List PostCall → Except Stop State
  | s, [] => .ok s
  | s, call :: rest => (call.run k s).bind fun result => posts k result.1 rest

/-! ### Dispatching -/

/-- The arguments of the callback `i` of a message. -/
def State.event (s : State) (msg : Addr) (i : Nat) : CallEvent :=
  let message := s.memory.objects msg
  ⟨format.observer message i, format.topicId message, format.data s.payloads message,
    format.payloadSize message⟩

/-- `msg->managed->release()` after a callback -/
def releasePayload (s : State) (msg : Addr) : State :=
  match format.managed (s.memory.objects msg) with
  | some managed => { s with payloads := (s.payloads.release managed).1 }
  | none => s

/-- The callback with index `i` and what follows it. -/
def callObserver (k : Nat) (behaviour : Behaviour) (msg : Addr) (i : Nat) (s : State) :
    Except Stop State :=
  let s := { s with trace := s.trace ++ [s.event msg i] }
  (posts k s (behaviour s.trace)).map fun s => releasePayload s msg

/-- The loop over the observers from index `i` on, with `remaining` observers. -/
def callObservers (k : Nat) (behaviour : Behaviour) (msg : Addr) :
    (remaining i : Nat) → State → Except Stop State
  | 0, _, s => .ok s
  | remaining + 1, i, s =>
      (callObserver k behaviour msg i s).bind fun s =>
        callObservers k behaviour msg remaining (i + 1) s

/-- What a dispatch does with a message that it has taken from the ring. -/
def dispatchMsg (k : Nat) (behaviour : Behaviour) (msg : Addr) (s : State) : Except Stop State :=
  let count := format.observerCount (s.memory.objects msg)
  let s := { s with dispatched := s.dispatched ++ [s.carried msg] }
  callObservers k behaviour msg count 0 s

/-- `m_queue.try_pop(msg)` -/
def pop (k : Nat) (s : State) : Except Stop (State × Option Addr) :=
  match s.queue.pop (2 ^ k) with
  | some (queue, msg) => .ok ({ s with queue := queue }, msg)
  | none => .error .blocked

/-- `m_messagePool.release(msg)` -/
def release (msg : Addr) (s : State) : State := { s with queue := s.queue.release 16384 msg }

def dispatchOne (k : Nat) (behaviour : Behaviour) (s : State) : Except Stop (State × Bool) :=
  (pop k s).bind fun
    | (s, none) => .ok (s, false)
    | (s, some msg) => (dispatchMsg k behaviour msg s).map fun s => (release msg s, true)

/-- The first loop of `dispatchBatch`. -/
def takeMsgs (k : Nat) : Nat → State → Except Stop (State × List Addr)
  | 0, s => .ok (s, [])
  | n + 1, s =>
      (pop k s).bind fun
        | (s, none) => .ok (s, [])
        | (s, some msg) => (takeMsgs k n s).map fun (s, rest) => (s, msg :: rest)

/-- The second loop of `dispatchBatch`. -/
def dispatchMsgs (k : Nat) (behaviour : Behaviour) : List Addr → State → Except Stop State
  | [], s => .ok s
  | msg :: rest, s =>
      (dispatchMsg k behaviour msg s).bind fun s => dispatchMsgs k behaviour rest s

/-- The third loop of `dispatchBatch`. -/
def releaseMsgs : List Addr → State → State
  | [], s => s
  | msg :: rest, s => releaseMsgs rest (release msg s)

def dispatchBatch (k : Nat) (behaviour : Behaviour) (maxCount : Nat) (s : State) :
    Except Stop (State × Nat) :=
  (takeMsgs k (min maxCount BATCH_SIZE) s).bind fun (s, batch) =>
    (dispatchMsgs k behaviour batch s).map fun s => (releaseMsgs batch s, batch.length)

/-- `dispatchAll`, for a caller that waits `rounds` rounds of the loop. -/
def dispatchAll (k : Nat) (behaviour : Behaviour) : (rounds : Nat) → State →
    Except Stop (State × Nat)
  | 0, _ => .error .unfinished
  | rounds + 1, s =>
      (dispatchOne k behaviour s).bind fun
        | (s, false) => .ok (s, 0)
        | (s, true) => (dispatchAll k behaviour rounds s).map fun (s, count) => (s, count + 1)

/-! ### Runs -/

inductive Call where
  | addObserver (topicId : Nat) (observer : Observer)
  | post (topicId : Nat) (data : Option (List UInt8)) (size : Nat)
  | postBatched (topicId : Nat) (data : Option (List UInt8)) (size : Nat)
  | flushBatch
  | dispatchOne
  | dispatchBatch (maxCount : Nat)
  | dispatchAll (rounds : Nat)
deriving Repr

def step (k : Nat) (behaviour : Behaviour) (s : State) : Call → Except Stop State
  | .addObserver topicId observer => .ok (addObserver s topicId observer)
  | .post topicId data size => (post k s topicId data size).map Prod.fst
  | .postBatched topicId data size => (postBatched k s topicId data size).map Prod.fst
  | .flushBatch => flushBatch k s
  | .dispatchOne => (dispatchOne k behaviour s).map Prod.fst
  | .dispatchBatch maxCount => (dispatchBatch k behaviour maxCount s).map Prod.fst
  | .dispatchAll rounds => (dispatchAll k behaviour rounds s).map Prod.fst

/-- A sequence of calls, up to one that does not return. -/
def run (k : Nat) (behaviour : Behaviour) : State → List Call → Except Stop State
  | s, [] => .ok s
  | s, call :: rest => (step k behaviour s call).bind fun s => run k behaviour s rest

end MessageCenter.SnapshotQueue.Batch
