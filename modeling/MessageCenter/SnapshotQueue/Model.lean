import MessageCenter.PooledQueue.Model
import MessageCenter.Payload.RefCounted

/-!
# The snapshot queues

`EventQueueBroadcastFast`, `EventQueueBroadcastFastBatch` and the two lanes of
`EventQueueEmulator` share their shape: `post` copies the observers of the topic
into a pooled message, stores the payload in it and pushes it; a dispatch pops a
message, calls the observers that it holds and releases one reference after each
call.  The shape is written once, over a `Format` that says how a message type is
filled and read, and a `System` that lists the lanes and their sizes; the classes
are the instances at the end.

All calls run in one thread.  What a callback does is given by `behaviour`, which
may depend on all the callbacks before it: it may post, to any lane.
-/

namespace MessageCenter.SnapshotQueue

open ObjectPoolLockFree

/-- `FastObserver`, `BatchObserver`, `EmuObserver` -/
structure Observer where
  callback : Nat
  userData : Nat
deriving DecidableEq, Repr

/-- An entry of `m_topics`. -/
structure TopicObservers where
  count : Nat
  observers : Nat → Observer

/-- `memcpy(msg->observers, topic.observers, count * sizeof(Observer))` -/
def copyObservers (old new : Nat → Observer) (count : Nat) : Nat → Observer :=
  fun i => if i < count then new i else old i

/-! ### Message formats -/

/-- How `post` fills a message type and a dispatch reads it. -/
structure Format (M : Type) where
  /-- `new Node()` -/
  zero : M
  /-- the sizes that `post` lets pass -/
  accepts : Nat → Bool
  /-- `post` between `acquire` and the push -/
  fill : PayloadHeap → M → (topicId count : Nat) → (Nat → Observer) → Option (List UInt8) →
    (size : Nat) → PayloadHeap × M
  topicId : M → Nat
  observerCount : M → Nat
  payloadSize : M → Nat
  observer : M → Nat → Observer
  /-- the managed payload, of which each callback releases a reference -/
  managed : M → Option PayloadId
  /-- what a callback finds behind its `data` argument; nothing behind a null or
  dangling pointer -/
  data : PayloadHeap → M → Option (List Cell)

/-- `FastMessage`, `BatchMessage`, `EmuBulkMessage` -/
structure SnapshotMessage where
  topicId : Nat
  observerCount : Nat
  isInline : Bool
  payloadSize : Nat
  observers : Nat → Observer
  payload : PayloadUnion

/-- Payloads of up to `inlineMax` bytes are stored in the message, others in a
`RefCountedPayload`. -/
def snapshotFormat (inlineMax : Nat) : Format SnapshotMessage where
  zero := ⟨0, 0, false, 0, fun _ => ⟨0, 0⟩, PayloadUnion.zero⟩
  accepts := fun _ => true
  fill := fun heap msg topicId count observers data size =>
    let observers := copyObservers msg.observers observers count
    if size ≤ inlineMax then
      (heap, ⟨topicId, count, true, size, observers, msg.payload.copyInline data size⟩)
    else
      let (managed, heap) := heap.createFor (data.getD []) size count
      (heap, ⟨topicId, count, false, size, observers, msg.payload.setManaged managed⟩)
  topicId := SnapshotMessage.topicId
  observerCount := SnapshotMessage.observerCount
  payloadSize := SnapshotMessage.payloadSize
  observer := SnapshotMessage.observers
  managed := fun msg => if msg.isInline then none else msg.payload.managed
  data := fun heap msg =>
    if msg.isInline then some (msg.payload.inlineData msg.payloadSize)
    else msg.payload.managed.bind fun managed => (heap.data managed).map (List.map Cell.byte)

structure EmuFastMessage where
  topicId : Nat
  observerCount : Nat
  payloadSize : Nat
  observers : Nat → Observer
  data : PayloadUnion

/-- `postFast` and `dispatchFast`: inline payloads only, with their size in a
`uint8_t`. -/
def emuFastFormat (inlineMax : Nat) : Format EmuFastMessage where
  zero := ⟨0, 0, 0, fun _ => ⟨0, 0⟩, PayloadUnion.zero⟩
  accepts := fun size => size ≤ inlineMax
  fill := fun heap msg topicId count observers data size =>
    (heap, ⟨topicId, count, size % 2 ^ 8, copyObservers msg.observers observers count,
      msg.data.copyInline data size⟩)
  topicId := EmuFastMessage.topicId
  observerCount := EmuFastMessage.observerCount
  payloadSize := EmuFastMessage.payloadSize
  observer := EmuFastMessage.observers
  managed := fun _ => none
  data := fun _ msg => some (msg.data.inlineData msg.payloadSize)

/-! ### Systems -/

/-- A queue class: its lanes with their message types, ring capacities
`2 ^ exponent` and pools, and the sizes of `m_topics`. -/
structure System where
  Lane : Type
  [laneEq : DecidableEq Lane]
  Msg : Lane → Type
  format : (lane : Lane) → Format (Msg lane)
  exponent : Lane → Nat
  initialSize : Lane → Nat
  maxSize : Lane → Nat
  maxTopics : Nat
  maxObservers : Nat

attribute [instance] System.laneEq

/-- A callback invocation: who is called, with which arguments. -/
structure CallEvent where
  observer : Observer
  topicId : Nat
  data : Option (List Cell)
  size : Nat
deriving DecidableEq, Repr

/-- The arguments of `post`; `data` is null or a buffer. -/
structure PostArgs (Lane : Type) where
  lane : Lane
  topicId : Nat
  data : Option (List UInt8)
  size : Nat

inductive Call (Lane : Type) where
  | addObserver (topicId : Nat) (observer : Observer)
  | post (args : PostArgs Lane)
  | dispatchOne (lane : Lane)

structure State (sys : System) where
  memory : (lane : sys.Lane) → Memory (sys.Msg lane)
  queue : sys.Lane → PooledQueue
  m_topics : Nat → TopicObservers
  payloads : PayloadHeap
  trace : List CallEvent

/-- What callbacks post, given the callbacks made so far. -/
abbrev Behaviour (sys : System) := List CallEvent → List (PostArgs sys.Lane)

variable {sys : System}

/-- The pool of a lane, with the objects that it has allocated. -/
def System.pool (sys : System) (lane : sys.Lane) : Memory (sys.Msg lane) × PooledQueue :=
  PooledQueue.construct (sys.format lane).zero ⟨fun _ => (sys.format lane).zero, 0⟩
    (sys.initialSize lane)

def init (sys : System) : State sys where
  memory := fun lane => (sys.pool lane).1
  queue := fun lane => (sys.pool lane).2
  m_topics := fun _ => ⟨0, fun _ => ⟨0, 0⟩⟩
  payloads := PayloadHeap.empty
  trace := []

/-- The message object at `addr`. -/
def State.object (s : State sys) (lane : sys.Lane) (addr : Addr) : sys.Msg lane :=
  (s.memory lane).objects addr

def State.setLane (s : State sys) (lane : sys.Lane) (memory : Memory (sys.Msg lane))
    (queue : PooledQueue) : State sys :=
  { s with
    memory := Function.update s.memory lane memory
    queue := Function.update s.queue lane queue }

def State.setQueue (s : State sys) (lane : sys.Lane) (queue : PooledQueue) : State sys :=
  { s with queue := Function.update s.queue lane queue }

def addObserver (s : State sys) (topicId : Nat) (observer : Observer) : State sys × Bool :=
  if topicId ≥ sys.maxTopics then (s, false)
  else
    let topic := s.m_topics topicId
    let idx := topic.count
    if idx ≥ sys.maxObservers then (s, false)
    else
      let observers := Function.update topic.observers idx observer
      ({ s with m_topics := Function.update s.m_topics topicId ⟨idx + 1, observers⟩ }, true)

/-- `post` up to the push: a message object taken from the pool and filled. -/
def prepare (s : State sys) (lane : sys.Lane) (topicId count : Nat)
    (observers : Nat → Observer) (data : Option (List UInt8)) (size : Nat) : State sys × Addr :=
  let (msg, memory, queue) := (s.queue lane).acquire (sys.format lane).zero (s.memory lane)
  let (payloads, message) :=
    (sys.format lane).fill s.payloads (memory.objects msg) topicId count observers data size
  ({ s.setLane lane (memory.write msg message) queue with payloads := payloads }, msg)

/-- `post`, `postBulk`, `postFast`; with a full ring the call does not return. -/
def post (s : State sys) (args : PostArgs sys.Lane) : Option (State sys × Bool) :=
  if args.topicId ≥ sys.maxTopics ∨ (sys.format args.lane).accepts args.size = false then
    some (s, false)
  else
    let topic := s.m_topics args.topicId
    let count := topic.count
    if count = 0 then some (s, true)
    else
      let (s, msg) := prepare s args.lane args.topicId count topic.observers args.data args.size
      ((s.queue args.lane).push (2 ^ sys.exponent args.lane) msg).map fun queue =>
        (s.setQueue args.lane queue, true)

def posts : State sys → List (PostArgs sys.Lane) → Option (State sys)
  | s, [] => some s
  | s, args :: rest => (post s args).bind fun result => posts result.1 rest

/-- The callback with index `i` and what follows it.  The pointer `data` is taken
once before the loop in the source; the message that it is taken from is out of the
ring and the pool until the loop ends. -/
def callObserver (behaviour : Behaviour sys) (lane : sys.Lane) (msg : Addr) (i : Nat)
    (s : State sys) : Option (State sys) :=
  let message := s.object lane msg
  let format := sys.format lane
  let event : CallEvent :=
    ⟨format.observer message i, format.topicId message, format.data s.payloads message,
      format.payloadSize message⟩
  let s := { s with trace := s.trace ++ [event] }
  (posts s (behaviour s.trace)).map fun s =>
    match format.managed (s.object lane msg) with
    | some managed => { s with payloads := (s.payloads.release managed).1 }
    | none => s

/-- The loop of a dispatch from index `i` on, with `remaining` observers. -/
def callObservers (behaviour : Behaviour sys) (lane : sys.Lane) (msg : Addr) :
    (remaining i : Nat) → State sys → Option (State sys)
  | 0, _, s => some s
  | remaining + 1, i, s =>
      (callObserver behaviour lane msg i s).bind fun s =>
        callObservers behaviour lane msg remaining (i + 1) s

/-- `dispatchOne`, `dispatchBulk`, `dispatchFast` -/
def dispatchOne (behaviour : Behaviour sys) (lane : sys.Lane) (s : State sys) :
    Option (State sys × Bool) :=
  match (s.queue lane).pop (2 ^ sys.exponent lane) with
  | none => none
  | some (queue, none) => some (s.setQueue lane queue, false)
  | some (queue, some msg) =>
      let s := s.setQueue lane queue
      let count := (sys.format lane).observerCount (s.object lane msg)
      (callObservers behaviour lane msg count 0 s).map fun s =>
        (s.setQueue lane ((s.queue lane).release (sys.maxSize lane) msg), true)

def step (behaviour : Behaviour sys) (s : State sys) : Call sys.Lane → Option (State sys)
  | .addObserver topicId observer => some (addObserver s topicId observer).1
  | .post args => (post s args).map Prod.fst
  | .dispatchOne lane => (dispatchOne behaviour lane s).map Prod.fst

/-- A sequence of calls; `none` if one of them does not return. -/
def run (behaviour : Behaviour sys) : State sys → List (Call sys.Lane) → Option (State sys)
  | s, [] => some s
  | s, call :: rest => (step behaviour s call).bind fun s => run behaviour s rest

/-! ### The classes -/

/-- `EventQueueBroadcastFast<2 ^ k>` -/
def eventQueueBroadcastFast (k : Nat) : System where
  Lane := Unit
  Msg := fun _ => SnapshotMessage
  format := fun _ => snapshotFormat 48
  exponent := fun _ => k
  initialSize := fun _ => 512
  maxSize := fun _ => 16384
  maxTopics := 4096
  maxObservers := 16

/-- `EventQueueBroadcastFastBatch<2 ^ k>` -/
def eventQueueBroadcastFastBatch (k : Nat) : System where
  Lane := Unit
  Msg := fun _ => SnapshotMessage
  format := fun _ => snapshotFormat 48
  exponent := fun _ => k
  initialSize := fun _ => 512
  maxSize := fun _ => 16384
  maxTopics := 4096
  maxObservers := 16

/-- `m_fastQueue` and `m_bulkQueue` -/
inductive EmuLane where
  | fast
  | bulk
deriving DecidableEq, Repr

def EmuLane.Msg : EmuLane → Type
  | .fast => EmuFastMessage
  | .bulk => SnapshotMessage

/-- `EventQueueEmulator<2 ^ fast, 2 ^ bulk>` -/
def eventQueueEmulator (fast bulk : Nat) : System where
  Lane := EmuLane
  Msg := EmuLane.Msg
  format
    | .fast => emuFastFormat 48
    | .bulk => snapshotFormat 48
  exponent
    | .fast => fast
    | .bulk => bulk
  initialSize
    | .fast => 256
    | .bulk => 128
  maxSize
    | .fast => 2048
    | .bulk => 4096
  maxTopics := 256
  maxObservers := 8

end MessageCenter.SnapshotQueue
