import MessageCenter.PooledQueue.Model
import MessageCenter.Payload.RefCounted

/-!
# `EventQueueBroadcast` of `eventqueue_broadcast.h`

`addObserver`, `post` and `dispatchOne` in one thread.  What a callback does is
given by `behaviour`, which may depend on everything that happened before: it
may add observers and post.  The trace records what happens to payloads and
callbacks, in order.

Each observer list is a value: `addObserver` replaces the shared list of its
topic, and a dispatch keeps the one that it has loaded.
-/

namespace MessageCenter.EventQueueBroadcast

open ObjectPoolLockFree

def BROADCAST_MAX_TOPICS : Nat := 4096

def INLINE_PAYLOAD_MAX : Nat := 48

structure BroadcastMessage where
  topicId : Nat
  observerCount : Nat
  isInline : Bool
  payloadSize : Nat
  payload : PayloadUnion

def BroadcastMessage.zero : BroadcastMessage := ⟨0, 0, false, 0, PayloadUnion.zero⟩

/-- The `data` argument of a callback. -/
inductive DataRef where
  | null
  | inlineData (bytes : List Cell)
  | managed (payload : PayloadId)
deriving DecidableEq, Repr

inductive Event where
  | created (payload : PayloadId)
  | called (callback topicId : Nat) (data : DataRef) (size : Nat)
  | returned (callback : Nat) (data : DataRef)
  /-- `release()` was called; `freed` follows if it was the last reference -/
  | released (payload : PayloadId)
  | freed (payload : PayloadId)
  /-- `dispatchOne` returns after a message with this data -/
  | dispatched (data : DataRef)
deriving DecidableEq, Repr

structure State where
  memory : Memory BroadcastMessage
  queue : PooledQueue
  m_observers : Nat → Option (List Nat)
  payloads : PayloadHeap
  trace : List Event

/-- A call that callbacks may make too. -/
inductive Request where
  | addObserver (topicId callback : Nat)
  | post (topicId : Nat) (data : Option (List UInt8)) (size : Nat)
deriving DecidableEq, Repr

inductive Call where
  | request (request : Request)
  | dispatchOne
deriving DecidableEq, Repr

/-- A queue whose ring and pool have just been constructed. -/
def initWith (pool : Memory BroadcastMessage × PooledQueue) : State where
  memory := pool.1
  queue := pool.2
  m_observers := fun _ => none
  payloads := PayloadHeap.empty
  trace := []

/-- `m_messagePool(256, 8192)` -/
def init : State :=
  initWith (PooledQueue.construct BroadcastMessage.zero ⟨fun _ => BroadcastMessage.zero, 0⟩ 256)

def State.emit (s : State) (events : List Event) : State :=
  { s with trace := s.trace ++ events }

def addObserver (s : State) (topicId callback : Nat) : State :=
  if topicId ≥ BROADCAST_MAX_TOPICS then s
  else
    let next := (s.m_observers topicId).getD [] ++ [callback]
    { s with m_observers := Function.update s.m_observers topicId (some next) }

/-- `post`; with a full ring it does not return. -/
def post (Capacity : Nat) (s : State) (topicId : Nat) (data : Option (List UInt8)) (size : Nat) :
    Option (State × Bool) :=
  if topicId ≥ BROADCAST_MAX_TOPICS then some (s, false)
  else
    let observers := s.m_observers topicId
    let count := min (observers.getD []).length 255
    if count = 0 then some (s, true)
    else
      let (msg, memory, queue) := s.queue.acquire BroadcastMessage.zero s.memory
      let s := { s with memory := memory, queue := queue }
      let before := (s.memory.objects msg).payload
      let s :=
        if size ≤ INLINE_PAYLOAD_MAX then
          let message := ⟨topicId, count, true, size, before.copyInline data size⟩
          { s with memory := s.memory.write msg message }
        else
          let (managed, payloads) := s.payloads.createFor (data.getD []) size count
          let message := ⟨topicId, count, false, size, before.setManaged managed⟩
          { s with
            memory := s.memory.write msg message
            payloads := payloads
            trace := s.trace ++ [.created managed] }
      (s.queue.push Capacity msg).map fun queue => ({ s with queue := queue }, true)

def request (Capacity : Nat) (s : State) : Request → Option State
  | .addObserver topicId callback => some (addObserver s topicId callback)
  | .post topicId data size => (post Capacity s topicId data size).map Prod.fst

def requests (Capacity : Nat) : State → List Request → Option State
  | s, [] => some s
  | s, r :: rest => (request Capacity s r).bind fun s => requests Capacity s rest

def release (s : State) (managed : PayloadId) : State :=
  let (payloads, freed) := s.payloads.release managed
  { s with
    payloads := payloads
    trace := s.trace ++ [.released managed] ++ if freed then [.freed managed] else [] }

/-- `!msg->isInline && msg->managed` -/
def BroadcastMessage.managedPayload (message : BroadcastMessage) : Option PayloadId :=
  if message.isInline then none else message.payload.managed

/-- `data` in `dispatchOne` -/
def BroadcastMessage.data (message : BroadcastMessage) : DataRef :=
  if message.isInline then .inlineData (message.payload.inlineData message.payloadSize)
  else
    match message.payload.managed with
    | some managed => .managed managed
    | none => .null

/-- The loop over the observers in `dispatchOne`. -/
def callObservers (behaviour : List Event → List Request) (Capacity : Nat) (msg : Addr)
    (data : DataRef) : List Nat → State → Option State
  | [], s => some s
  | cb :: rest, s =>
      let message := s.memory.objects msg
      let s := s.emit [.called cb message.topicId data message.payloadSize]
      (requests Capacity s (behaviour s.trace)).bind fun s =>
        let s := s.emit [.returned cb data]
        let s :=
          match (s.memory.objects msg).managedPayload with
          | some managed => release s managed
          | none => s
        callObservers behaviour Capacity msg data rest s

/-- `for (i = 0; i < observerCount; ++i) managed->release()` -/
def releaseAll (managed : PayloadId) : Nat → State → State
  | 0, s => s
  | count + 1, s => releaseAll managed count (release s managed)

/-- What `dispatchOne` does with the message that it has popped. -/
def deliver (behaviour : List Event → List Request) (Capacity : Nat) (s : State) (msg : Addr) :
    Option State :=
  let message := s.memory.objects msg
  match s.m_observers message.topicId with
  | some observers => callObservers behaviour Capacity msg message.data observers s
  | none =>
      match message.managedPayload with
      | some managed => some (releaseAll managed message.observerCount s)
      | none => some s

def dispatchOne (behaviour : List Event → List Request) (Capacity : Nat) (s : State) :
    Option (State × Bool) :=
  match s.queue.pop Capacity with
  | none => none
  | some (queue, none) => some ({ s with queue := queue }, false)
  | some (queue, some msg) =>
      let s := { s with queue := queue }
      let data := (s.memory.objects msg).data
      (deliver behaviour Capacity s msg).map fun s =>
        ({ s with
            queue := s.queue.release 8192 msg
            trace := s.trace ++ [.dispatched data] }, true)

def step (behaviour : List Event → List Request) (Capacity : Nat) (s : State) :
    Call → Option State
  | .request r => request Capacity s r
  | .dispatchOne => (dispatchOne behaviour Capacity s).map Prod.fst

/-- A sequence of calls; `none` if one of them does not return. -/
def run (behaviour : List Event → List Request) (Capacity : Nat) :
    State → List Call → Option State
  | s, [] => some s
  | s, call :: rest => (step behaviour Capacity s call).bind fun s =>
      run behaviour Capacity s rest

end MessageCenter.EventQueueBroadcast
