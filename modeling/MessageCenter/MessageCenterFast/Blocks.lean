import MessageCenter.MessageCenterFast.Topics
import Mathlib.Algebra.Group.Nat.Defs

/-!
# Large payloads in `MessageCenterFast`

A payload of more than `MC_FAST_INLINE_SIZE` bytes is copied into a block that `post`
allocates with `malloc`.  `reset` frees it: when the ring is full, in the loop of
`dispatchLoop` and in its final drain.

Any number of threads call `post` and `addObserver`, and a dispatch thread runs
`dispatchLoop`; `start` and `stop` turn it on and tell it to finish.  A push, a pop, an
acquisition from the pool and a release are one step each, `malloc` succeeds, and a
message belongs to the thread that has it.  A callback that posts is one of the posting
threads here.  What the dispatch thread does between two attempts to pop (yield, wait)
touches none of this.

The calls of `post` are numbered.  `deleted`, `freed`, `refused` and `log` are history.
-/

namespace MessageCenter.MessageCenterFast.Blocks

open Concurrency
open Topics (MC_FAST_QUEUE_SIZE)

def MC_FAST_INLINE_SIZE : Nat := 64

/-- `m_pool(256, MC_FAST_QUEUE_SIZE * 2)` -/
def initialSize : Nat := 256

def m_maxSize : Nat := MC_FAST_QUEUE_SIZE * 2

abbrev Addr := Nat

abbrev BlockId := Nat

/-- Bytes in memory; those that nobody has written are `none`. -/
abbrev Bytes := Nat → Option UInt8

/-- `memcpy` of the first `n` bytes -/
def memcpy (dst : Bytes) (src : Nat → UInt8) (n : Nat) : Bytes :=
  fun i => if i < n then some (src i) else dst i

structure MessageFast where
  topicId : Nat
  flags : Nat
  size : Nat
  inlineData : Bytes
  managedData : Option BlockId
  refCount : Nat

/-- `MessageFast()` -/
def MessageFast.construct : MessageFast := ⟨0, 0, 0, fun _ => some 0, none, 0⟩

def MessageFast.hasBlock (msg : MessageFast) : Bool := msg.flags &&& 1 ≠ 0

inductive DataPointer where
  | inlineData (msg : Addr)
  | managedData (block : Option BlockId)
deriving DecidableEq, Repr

def MessageFast.data (msg : MessageFast) (address : Addr) : DataPointer :=
  if msg.hasBlock then .managedData msg.managedData else .inlineData address

structure Block where
  size : Nat
  bytes : Bytes

/-- The arguments of `post`; `data` may be null. -/
structure PostArgs where
  topicId : Nat
  data : Option (Nat → UInt8)
  size : Nat

/-- Where a thread is in `post`. -/
inductive Pc where
  | idle
  | acquire (call : Nat) (args : PostArgs)
  /-- the fields of the message and the inline data -/
  | build (call : Nat) (args : PostArgs) (msg : Addr)
  /-- `msg->managedData = malloc(size)` -/
  | allocate (call : Nat) (args : PostArgs) (msg : Addr)
  | tryPush (call : Nat) (msg : Addr)
  | countPosted (call : Nat)
  | reset (call : Nat) (msg : Addr)
  | release (call : Nat) (msg : Addr)

/-- The arguments of the callbacks in `dispatch`. -/
structure CallArgs where
  topicId : Nat
  data : DataPointer
  size : Nat
deriving DecidableEq, Repr

/-- Where the dispatch thread is; `draining` is the final loop. -/
inductive DispatchPc where
  | off
  | testStopping
  | tryPop (draining : Bool)
  | dispatch (draining : Bool) (msg : Addr)
  /-- the loop over the observers, with those still to come -/
  | observers (draining : Bool) (msg : Addr) (args : CallArgs) (rest : List (Option Nat))
  | callback (draining : Bool) (msg : Addr) (args : CallArgs) (rest : List (Option Nat))
  | reset (draining : Bool) (msg : Addr)
  | release (draining : Bool) (msg : Addr)
  | countDispatched (draining : Bool)
deriving DecidableEq, Repr

/-- `dispatch` holds `m_observerMutex`. -/
def DispatchPc.locked : DispatchPc → Bool
  | .observers .. | .callback .. => true
  | _ => false

/-- The changes of what all threads share. -/
inductive Effect where
  | push (msg : Addr)
  | pop
  | countPosted
  | countDispatched
  | malloc (block : BlockId)
  | free (block : BlockId)
deriving DecidableEq, Repr

structure State (Tid : Type) where
  objects : Addr → MessageFast
  m_freeList : List Addr
  m_allocated : Nat
  nextAddr : Nat
  deleted : List Addr
  m_queue : List Addr
  /-- the callbacks, which may be empty -/
  m_observers : Nat → List (Option Nat)
  blocks : BlockId → Option Block
  nextBlock : Nat
  freed : List BlockId
  m_posted : Nat
  m_dispatched : Nat
  m_stopping : Bool
  pc : Tid → Pc
  dispatcher : DispatchPc
  nextCall : Nat
  /-- the posts that returned false -/
  refused : List Nat
  /-- each change with the post that made it, or none for the dispatch thread -/
  log : List (Option Nat × Effect)

inductive Action (Tid : Type) where
  | post (t : Tid) (args : PostArgs)
  | addObserver (topicId : Nat) (callback : Option Nat)
  | start
  | stop
  /-- the next step of a post -/
  | run (t : Tid)
  /-- the next step of the dispatch thread -/
  | dispatcher

variable {Tid : Type}

def init : State Tid where
  objects := fun _ => .construct
  m_freeList := (List.range initialSize).reverse
  m_allocated := initialSize
  nextAddr := initialSize
  deleted := []
  m_queue := []
  m_observers := fun _ => []
  blocks := fun _ => none
  nextBlock := 0
  freed := []
  m_posted := 0
  m_dispatched := 0
  m_stopping := false
  pc := fun _ => .idle
  dispatcher := .off
  nextCall := 0
  refused := []
  log := []

/-! ### The operations -/

def State.record (s : State Tid) (caller : Option Nat) (effect : Effect) : State Tid :=
  { s with log := s.log ++ [(caller, effect)] }

def State.setObject (s : State Tid) (msg : Addr) (object : MessageFast) : State Tid :=
  { s with objects := Function.update s.objects msg object }

/-- `acquire` of the pool -/
def acquire (s : State Tid) : State Tid × Addr :=
  match s.m_freeList with
  | msg :: rest => ({ s with m_freeList := rest }, msg)
  | [] =>
      ({ s.setObject s.nextAddr .construct with
        m_allocated := s.m_allocated + 1
        nextAddr := s.nextAddr + 1 }, s.nextAddr)

/-- `release` of the pool -/
def release (s : State Tid) (msg : Addr) : State Tid :=
  if s.m_allocated > m_maxSize then
    { s with deleted := msg :: s.deleted, m_allocated := s.m_allocated - 1 }
  else { s with m_freeList := msg :: s.m_freeList }

/-- The fields that `post` writes before it allocates. -/
def build (s : State Tid) (args : PostArgs) (msg : Addr) : State Tid :=
  let object := { s.objects msg with topicId := args.topicId, size := args.size % 2 ^ 32 }
  if args.size ≤ MC_FAST_INLINE_SIZE then
    let inlineData :=
      match args.data with
      | some data => memcpy object.inlineData data args.size
      | none => object.inlineData
    s.setObject msg { object with flags := 0, inlineData := inlineData }
  else s.setObject msg { object with flags := 1 }

/-- `malloc`, and `memcpy` if there is data -/
def allocate (s : State Tid) (call : Nat) (args : PostArgs) (msg : Addr) : State Tid :=
  let block := s.nextBlock
  let bytes : Bytes :=
    match args.data with
    | some data => memcpy (fun _ => none) data args.size
    | none => fun _ => none
  { s.setObject msg { s.objects msg with managedData := some block } with
    blocks := Function.update s.blocks block (some ⟨args.size, bytes⟩)
    nextBlock := block + 1 }.record (some call) (.malloc block)

def free (s : State Tid) (caller : Option Nat) (block : BlockId) : State Tid :=
  { s with
    blocks := Function.update s.blocks block none
    freed := block :: s.freed }.record caller (.free block)

def reset (s : State Tid) (caller : Option Nat) (msg : Addr) : State Tid :=
  let object := s.objects msg
  let s :=
    match object.managedData with
    | some block => free s caller block
    | none => s
  s.setObject msg
    { object with managedData := none, topicId := 0, flags := 0, size := 0, refCount := 0 }

/-- `fetch_add(1)` on a `uint64_t` -/
def fetchAdd (count : Nat) : Nat := (count + 1) % 2 ^ 64

def push (s : State Tid) (call : Nat) (msg : Addr) : State Tid :=
  { s with m_queue := s.m_queue ++ [msg] }.record (some call) (.push msg)

def pop (s : State Tid) (rest : List Addr) : State Tid :=
  { s with m_queue := rest }.record none .pop

def countPosted (s : State Tid) (call : Nat) : State Tid :=
  { s with m_posted := fetchAdd s.m_posted }.record (some call) .countPosted

def countDispatched (s : State Tid) : State Tid :=
  { s with m_dispatched := fetchAdd s.m_dispatched }.record none .countDispatched

/-! ### The dispatch thread -/

def State.dispatchAt (s : State Tid) (pc : DispatchPc) : State Tid := { s with dispatcher := pc }

/-- `dispatch`, up to its loop -/
def dispatch (s : State Tid) (draining : Bool) (msg : Addr) : State Tid :=
  let object := s.objects msg
  if object.topicId ≥ MC_FAST_MAX_TOPICS then s.dispatchAt (.reset draining msg)
  else
    s.dispatchAt (.observers draining msg ⟨object.topicId, object.data msg, object.size⟩
      (s.m_observers object.topicId))

/-- A step of `dispatchLoop`. -/
def dispatchLoop (s : State Tid) : Option (State Tid) :=
  match s.dispatcher with
  | .off => none
  | .testStopping => some (s.dispatchAt (.tryPop s.m_stopping))
  | .tryPop draining =>
      match s.m_queue with
      | msg :: rest => some ((pop s rest).dispatchAt (.dispatch draining msg))
      | [] => some (s.dispatchAt (if draining then .off else .testStopping))
  | .dispatch draining msg => some (dispatch s draining msg)
  | .observers draining msg _ [] => some (s.dispatchAt (.reset draining msg))
  | .observers draining msg args (none :: rest) =>
      some (s.dispatchAt (.observers draining msg args rest))
  | .observers draining msg args (some _ :: rest) =>
      some (s.dispatchAt (.callback draining msg args rest))
  | .callback draining msg args rest => some (s.dispatchAt (.observers draining msg args rest))
  | .reset draining msg => some ((reset s none msg).dispatchAt (.release draining msg))
  | .release draining msg => some ((release s msg).dispatchAt (.countDispatched draining))
  | .countDispatched draining =>
      some ((countDispatched s).dispatchAt (if draining then .tryPop true else .testStopping))

/-! ### `post` -/

section
variable [DecidableEq Tid]

def State.goto (s : State Tid) (t : Tid) (pc : Pc) : State Tid :=
  { s with pc := Function.update s.pc t pc }

/-- `return false` -/
def refuse (s : State Tid) (call : Nat) : State Tid := { s with refused := call :: s.refused }

/-- A step of `post`. -/
def run (s : State Tid) (t : Tid) : Option (State Tid) :=
  match s.pc t with
  | .idle => none
  | .acquire call args =>
      let (s, msg) := acquire s
      some (s.goto t (.build call args msg))
  | .build call args msg =>
      some ((build s args msg).goto t
        (if args.size ≤ MC_FAST_INLINE_SIZE then .tryPush call msg else .allocate call args msg))
  | .allocate call args msg => some ((allocate s call args msg).goto t (.tryPush call msg))
  | .tryPush call msg =>
      if s.m_queue.length < MC_FAST_QUEUE_SIZE then
        some ((push s call msg).goto t (.countPosted call))
      else some (s.goto t (.reset call msg))
  | .countPosted call => some ((countPosted s call).goto t .idle)
  | .reset call msg => some ((reset s (some call) msg).goto t (.release call msg))
  | .release call msg => some (refuse ((release s msg).goto t .idle) call)

/-- The call of `post`: the test of the topic id. -/
def post (s : State Tid) (t : Tid) (args : PostArgs) : State Tid :=
  let call := s.nextCall
  let s := { s with nextCall := call + 1 }
  if args.topicId ≥ MC_FAST_MAX_TOPICS then refuse s call
  else s.goto t (.acquire call args)

def addObserver (s : State Tid) (topicId : Nat) (callback : Option Nat) : State Tid :=
  if topicId ≥ MC_FAST_MAX_TOPICS then s
  else
    { s with
      m_observers := Function.update s.m_observers topicId (s.m_observers topicId ++ [callback]) }

/-- `start` and `stop` do nothing when the dispatch thread is on or off already. -/
def step (s : State Tid) : Action Tid → Option (State Tid)
  | .post t args =>
      match s.pc t with
      | .idle => some (post s t args)
      | _ => none
  | .addObserver topicId callback =>
      if s.dispatcher.locked then none else some (addObserver s topicId callback)
  | .start =>
      if s.dispatcher = .off then some { s with m_stopping := false, dispatcher := .testStopping }
      else some s
  | .stop => if s.dispatcher = .off then some s else some { s with m_stopping := true }
  | .run t => run s t
  | .dispatcher => dispatchLoop s

def machine (Tid : Type) [DecidableEq Tid] : Machine (State Tid) (Action Tid) := ⟨init, step⟩

end

end MessageCenter.MessageCenterFast.Blocks
