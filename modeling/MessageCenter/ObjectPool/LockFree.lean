import Mathlib.Algebra.Group.Nat.Defs
import MessageCenter.Lib.Machine
import MessageCenter.Lib.LinkedChain

/-!
# The lock-free object pool of `objectpool_lockfree.h`

`acquire` and `release` as one machine over any set of threads.  Every load,
store and compare-exchange of `m_freeList` and `m_allocated`, every access to
`node->next`, every allocation and every deletion is one step.  Nodes are
addresses; the allocator may hand out any address that is not in use, so the
address of a deleted node can come back.

`held` and `births` are history: who owns which object, and how often an address
has been allocated.  No step of the code reads them; `release` is only called by
an owner, and ownership may be handed to another thread (the queues acquire in
`post` and release in `dispatchOne`).
-/

namespace MessageCenter.ObjectPoolLockFree

open Concurrency Concurrency.LinkedChain

universe u

abbrev Addr := Nat

/-- Where a thread stands inside `acquire` or `release`; each constructor names
the step that comes next and holds the locals that are live there. -/
inductive PC where
  | idle
  /-- `oldHead = m_freeList.load()` in `popFree` -/
  | popLoad
  /-- `newHead = oldHead->next`; `birth` is the allocation the pointer stems from -/
  | popReadNext (oldHead : Addr) (birth : Nat)
  /-- `m_freeList.compare_exchange_weak(oldHead, newHead)` -/
  | popCas (oldHead : Addr) (newHead : Option Addr)
  /-- `node = new Node()` -/
  | acquireNew
  /-- `m_allocated.fetch_add(1)` -/
  | acquireCount (node : Addr)
  /-- `allocated = m_allocated.load()` and the test against `m_maxSize` -/
  | releaseLoad (node : Addr)
  /-- `delete node` -/
  | releaseDelete (node : Addr)
  /-- `m_allocated.fetch_sub(1)` -/
  | releaseCount
  /-- `oldHead = m_freeList.load()` in `pushFree` -/
  | pushLoad (node : Addr)
  /-- `node->next = oldHead` -/
  | pushWriteNext (node : Addr) (oldHead : Option Addr)
  /-- `m_freeList.compare_exchange_weak(oldHead, node)` -/
  | pushCas (node : Addr) (oldHead : Option Addr)
deriving DecidableEq, Repr

structure State (Tid : Type u) where
  m_freeList : Option Addr
  m_allocated : Nat
  next : Addr → Option Addr
  live : Addr → Bool
  births : Addr → Nat
  pc : Tid → PC
  held : List (Tid × Addr)

inductive Action (Tid : Type u) where
  | callAcquire (thread : Tid)
  | callRelease (thread : Tid) (obj : Option Addr)
  /-- the next step of the running call; `spurious` fails a compare-exchange -/
  | run (thread : Tid) (spurious : Bool)
  /-- `new Node()` with the address that the allocator chose -/
  | alloc (thread : Tid) (node : Addr)
  /-- the owner of an object passes it to another thread -/
  | handOver (owner receiver : Tid) (obj : Addr)
deriving DecidableEq, Repr

/-- `size_t` arithmetic of `m_allocated`. -/
def fetchAdd (n : Nat) : Nat := (n + 1) % 2 ^ 64

def fetchSub (n : Nat) : Nat := (n + (2 ^ 64 - 1)) % 2 ^ 64

variable {Tid : Type u}

/-- The constructor: the loop of `initialSize` rounds of `new Node()`, `pushFree`
and `m_allocated.fetch_add(1)`. -/
def construct : Nat → State Tid
  | 0 =>
      { m_freeList := none
        m_allocated := 0
        next := fun _ => none
        live := fun _ => false
        births := fun _ => 0
        pc := fun _ => .idle
        held := [] }
  | size + 1 =>
      let s : State Tid := construct size
      { s with
        m_freeList := some size
        m_allocated := fetchAdd s.m_allocated
        next := Function.update s.next size s.m_freeList
        live := Function.update s.live size true
        births := Function.update s.births size 1 }

section Steps

variable [DecidableEq Tid]

def State.goto (s : State Tid) (t : Tid) (pc : PC) : State Tid :=
  { s with pc := Function.update s.pc t pc }

/-- What `popFree` does with the head it has loaded: enter the loop, or leave it
at null and allocate. -/
def State.popLoop (s : State Tid) (t : Tid) : Option Addr → State Tid
  | some oldHead => s.goto t (.popReadNext oldHead (s.births oldHead))
  | none => s.goto t .acquireNew

/-- The next step of the call that `t` is running. -/
def runThread (m_maxSize : Nat) (s : State Tid) (t : Tid) (spurious : Bool) :
    Option (State Tid) :=
  match s.pc t with
  | .idle => none
  | .popLoad => some (s.popLoop t s.m_freeList)
  | .popReadNext oldHead _ => some (s.goto t (.popCas oldHead (s.next oldHead)))
  | .popCas oldHead newHead =>
      if s.m_freeList = some oldHead ∧ spurious = false then
        some { s.goto t .idle with m_freeList := newHead, held := (t, oldHead) :: s.held }
      else some (s.popLoop t s.m_freeList)
  | .acquireNew => none
  | .acquireCount node =>
      some { s.goto t .idle with
        m_allocated := fetchAdd s.m_allocated
        held := (t, node) :: s.held }
  | .releaseLoad node =>
      if m_maxSize > 0 ∧ s.m_allocated > m_maxSize then some (s.goto t (.releaseDelete node))
      else some (s.goto t (.pushLoad node))
  | .releaseDelete node =>
      some { s.goto t .releaseCount with live := Function.update s.live node false }
  | .releaseCount => some { s.goto t .idle with m_allocated := fetchSub s.m_allocated }
  | .pushLoad node => some (s.goto t (.pushWriteNext node s.m_freeList))
  | .pushWriteNext node oldHead =>
      some { s.goto t (.pushCas node oldHead) with next := Function.update s.next node oldHead }
  | .pushCas node oldHead =>
      if s.m_freeList = oldHead ∧ spurious = false then
        some { s.goto t .idle with m_freeList := some node }
      else some (s.goto t (.pushWriteNext node s.m_freeList))

def step (m_maxSize : Nat) (s : State Tid) : Action Tid → Option (State Tid)
  | .callAcquire t =>
      match s.pc t with
      | .idle => some (s.goto t .popLoad)
      | _ => none
  | .callRelease t obj =>
      match s.pc t, obj with
      | .idle, none => some s
      | .idle, some node =>
          if (t, node) ∈ s.held then
            some { s.goto t (.releaseLoad node) with held := s.held.erase (t, node) }
          else none
      | _, _ => none
  | .run t spurious => runThread m_maxSize s t spurious
  | .alloc t node =>
      match s.pc t with
      | .acquireNew =>
          if s.live node = false then
            some { s.goto t (.acquireCount node) with
              next := Function.update s.next node none
              live := Function.update s.live node true
              births := Function.update s.births node (s.births node + 1) }
          else none
      | _ => none
  | .handOver owner receiver obj =>
      if (owner, obj) ∈ s.held then
        some { s with held := (receiver, obj) :: s.held.erase (owner, obj) }
      else none

/-- `ObjectPoolLockFree<T>(initialSize, maxSize)` used by the threads `Tid`. -/
def machine (Tid : Type u) [DecidableEq Tid] (initialSize maxSize : Nat) :
    Machine (State Tid) (Action Tid) where
  init := construct initialSize
  step := step maxSize

end Steps

end MessageCenter.ObjectPoolLockFree
