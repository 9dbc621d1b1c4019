import MessageCenter.Lib.Machine
import Mathlib.Data.Nat.Bitwise
import Mathlib.Data.Nat.ModEq

/-!
# The bounded MPMC ring of `mpmc_queue.h`

`try_push` and `try_pop` as one machine over any set of threads.  Every atomic
load, compare-exchange, read or write of `slot.data` and store of `slot.seq` is
one step; the comparison of `seq` with the local position is local and belongs
to the load before it.  Positions are unbounded numbers here; the word-sized
counters are the subject of `MpmcQueue.Sequential` and `MpmcQueue.WordSize`.

The lists `pushClaims`, `popClaims`, `pushReturns` and `popReturns` are history:
no step reads them.
-/

namespace MessageCenter.MPMCQueue

open Concurrency

universe u v

/-- One ring slot.  `data` is `none` until the first write. -/
structure Slot (T : Type v) where
  seq : Nat
  data : Option T
deriving DecidableEq, Repr

/-- `MASK = Capacity - 1` applied to a position. -/
def slotIndex (Capacity pos : Nat) : Nat := pos &&& (Capacity - 1)

/-- Where a thread stands inside `try_push` or `try_pop`; each constructor names
the step that comes next and holds the locals that are live there. -/
inductive PC (T : Type v) where
  | idle
  /-- `tail = m_tail.load()` -/
  | pushLoadTail (item : T)
  /-- `seq = slot.seq.load()` and the test of `diff` -/
  | pushLoadSeq (item : T) (tail : Nat)
  /-- `m_tail.compare_exchange_weak(tail, tail + 1)` -/
  | pushCas (item : T) (tail : Nat)
  /-- `slot.data = item` -/
  | pushWrite (item : T) (tail : Nat)
  /-- `slot.seq.store(tail + 1)` -/
  | pushStore (item : T) (tail : Nat)
  | pushReturned (result : Bool)
  /-- `head = m_head.load()` -/
  | popLoadHead
  /-- `seq = slot.seq.load()` and the test of `diff` -/
  | popLoadSeq (head : Nat)
  /-- `m_head.compare_exchange_weak(head, head + 1)` -/
  | popCas (head : Nat)
  /-- `item = slot.data` -/
  | popRead (head : Nat)
  /-- `slot.seq.store(head + Capacity)` -/
  | popStore (head : Nat) (item : Option T)
  /-- `none` is the result `false`; otherwise what was copied to `item` -/
  | popReturned (result : Option (Option T))
deriving DecidableEq, Repr

/-- A successful compare-exchange in `try_push`. -/
structure PushClaim (Tid : Type u) (T : Type v) where
  thread : Tid
  pos : Nat
  item : T
deriving DecidableEq, Repr

/-- A successful compare-exchange in `try_pop`. -/
structure PopClaim (Tid : Type u) where
  thread : Tid
  pos : Nat
deriving DecidableEq, Repr

/-- A `try_pop` that returned `true`: the position it claimed and what it
handed to its caller. -/
structure PopReturn (Tid : Type u) (T : Type v) where
  thread : Tid
  pos : Nat
  item : Option T
deriving DecidableEq, Repr

structure State (Tid : Type u) (T : Type v) where
  m_slots : Nat → Slot T
  m_head : Nat
  m_tail : Nat
  pc : Tid → PC T
  pushClaims : List (PushClaim Tid T)
  popClaims : List (PopClaim Tid)
  pushReturns : List (PushClaim Tid T)
  popReturns : List (PopReturn Tid T)

/-- The actions of one thread: call an operation, perform the next step of the
running one (`spurious` makes a compare-exchange fail for no reason), or go
back to the caller. -/
inductive Action (Tid : Type u) (T : Type v) where
  | callPush (thread : Tid) (item : T)
  | callPop (thread : Tid)
  | run (thread : Tid) (spurious : Bool)
  | ret (thread : Tid)
deriving DecidableEq, Repr

variable {Tid : Type u} {T : Type v}

/-- The constructor: slot `i` starts with `seq = i`. -/
def init : State Tid T where
  m_slots i := ⟨i, none⟩
  m_head := 0
  m_tail := 0
  pc _ := .idle
  pushClaims := []
  popClaims := []
  pushReturns := []
  popReturns := []

section Steps

variable [DecidableEq Tid]

def State.goto (s : State Tid T) (t : Tid) (pc : PC T) : State Tid T :=
  { s with pc := Function.update s.pc t pc }

def State.setSlot (s : State Tid T) (index : Nat) (slot : Slot T) : State Tid T :=
  { s with m_slots := Function.update s.m_slots index slot }

/-- The slot that serves a position. -/
def State.slot (s : State Tid T) (Capacity pos : Nat) : Slot T :=
  s.m_slots (slotIndex Capacity pos)

/-- `m_tail.compare_exchange_weak(tail, tail + 1)` won by `t`. -/
def State.claimPush (s : State Tid T) (t : Tid) (item : T) (tail : Nat) : State Tid T :=
  { s.goto t (.pushWrite item tail) with
    m_tail := tail + 1
    pushClaims := s.pushClaims ++ [⟨t, tail, item⟩] }

/-- `slot.data = item` -/
def State.writeData (Capacity : Nat) (s : State Tid T) (t : Tid) (item : T) (tail : Nat) :
    State Tid T :=
  (s.setSlot (slotIndex Capacity tail) { s.slot Capacity tail with data := some item }).goto t
    (.pushStore item tail)

/-- `slot.seq.store(tail + 1)`, the last step of a successful `try_push`. -/
def State.publish (Capacity : Nat) (s : State Tid T) (t : Tid) (item : T) (tail : Nat) :
    State Tid T :=
  { (s.setSlot (slotIndex Capacity tail) { s.slot Capacity tail with seq := tail + 1 }).goto t
      (.pushReturned true) with
    pushReturns := s.pushReturns ++ [⟨t, tail, item⟩] }

/-- `m_head.compare_exchange_weak(head, head + 1)` won by `t`. -/
def State.claimPop (s : State Tid T) (t : Tid) (head : Nat) : State Tid T :=
  { s.goto t (.popRead head) with
    m_head := head + 1
    popClaims := s.popClaims ++ [⟨t, head⟩] }

/-- `slot.seq.store(head + Capacity)`, the last step of a successful `try_pop`. -/
def State.free (Capacity : Nat) (s : State Tid T) (t : Tid) (head : Nat) (item : Option T) :
    State Tid T :=
  { (s.setSlot (slotIndex Capacity head)
      { s.slot Capacity head with seq := head + Capacity }).goto t
      (.popReturned (some item)) with
    popReturns := s.popReturns ++ [⟨t, head, item⟩] }

/-- The next step of the operation that `t` is running. -/
def runThread (Capacity : Nat) (s : State Tid T) (t : Tid) (spurious : Bool) :
    Option (State Tid T) :=
  match s.pc t with
  | .idle => none
  | .pushLoadTail item => some (s.goto t (.pushLoadSeq item s.m_tail))
  | .pushLoadSeq item tail =>
      let diff : Int := ((s.slot Capacity tail).seq : Int) - (tail : Int)
      if diff = 0 then some (s.goto t (.pushCas item tail))
      else if diff < 0 then some (s.goto t (.pushReturned false))
      else some (s.goto t (.pushLoadTail item))
  | .pushCas item tail =>
      if s.m_tail = tail ∧ spurious = false then some (s.claimPush t item tail)
      else some (s.goto t (.pushLoadSeq item s.m_tail))
  | .pushWrite item tail => some (s.writeData Capacity t item tail)
  | .pushStore item tail => some (s.publish Capacity t item tail)
  | .pushReturned _ => none
  | .popLoadHead => some (s.goto t (.popLoadSeq s.m_head))
  | .popLoadSeq head =>
      let diff : Int := ((s.slot Capacity head).seq : Int) - ((head + 1 : Nat) : Int)
      if diff = 0 then some (s.goto t (.popCas head))
      else if diff < 0 then some (s.goto t (.popReturned none))
      else some (s.goto t .popLoadHead)
  | .popCas head =>
      if s.m_head = head ∧ spurious = false then some (s.claimPop t head)
      else some (s.goto t (.popLoadSeq s.m_head))
  | .popRead head => some (s.goto t (.popStore head (s.slot Capacity head).data))
  | .popStore head item => some (s.free Capacity t head item)
  | .popReturned _ => none

def step (Capacity : Nat) (s : State Tid T) : Action Tid T → Option (State Tid T)
  | .callPush t item =>
      match s.pc t with
      | .idle => some (s.goto t (.pushLoadTail item))
      | _ => none
  | .callPop t =>
      match s.pc t with
      | .idle => some (s.goto t .popLoadHead)
      | _ => none
  | .run t spurious => runThread Capacity s t spurious
  | .ret t =>
      match s.pc t with
      | .pushReturned _ | .popReturned _ => some (s.goto t .idle)
      | _ => none

/-- `MPMCQueue<T, Capacity>` used by the threads `Tid`. -/
def machine (Tid : Type u) (T : Type v) [DecidableEq Tid] (Capacity : Nat) :
    Machine (State Tid T) (Action Tid T) where
  init := init
  step := step Capacity

end Steps

/-! ### Slots and windows of positions -/

theorem slotIndex_two_pow (k pos : Nat) : slotIndex (2 ^ k) pos = pos % 2 ^ k :=
  Nat.and_two_pow_sub_one_eq_mod pos k

/-- Two positions of one window of `Capacity` consecutive positions that share a
slot are equal. -/
theorem eq_of_slotIndex_eq {k : Nat} (start : Nat) {p q : Nat}
    (hpStart : start ≤ p) (hpEnd : p < start + 2 ^ k)
    (hqStart : start ≤ q) (hqEnd : q < start + 2 ^ k)
    (hslot : slotIndex (2 ^ k) p = slotIndex (2 ^ k) q) : p = q := by
  rw [slotIndex_two_pow, slotIndex_two_pow] at hslot
  obtain ⟨a, rfl⟩ := Nat.exists_eq_add_of_le hpStart
  obtain ⟨b, rfl⟩ := Nat.exists_eq_add_of_le hqStart
  have ha : a < 2 ^ k := by omega
  have hb : b < 2 ^ k := by omega
  have hmod : a ≡ b [MOD 2 ^ k] := Nat.ModEq.add_left_cancel' start hslot
  rw [Nat.ModEq, Nat.mod_eq_of_lt ha, Nat.mod_eq_of_lt hb] at hmod
  rw [hmod]

theorem slotIndex_add_capacity (k pos : Nat) :
    slotIndex (2 ^ k) (pos + 2 ^ k) = slotIndex (2 ^ k) pos := by
  rw [slotIndex_two_pow, slotIndex_two_pow, Nat.add_mod_right]

theorem slotIndex_add_laps (k laps pos : Nat) :
    slotIndex (2 ^ k) (pos + 2 ^ k * laps) = slotIndex (2 ^ k) pos := by
  rw [slotIndex_two_pow, slotIndex_two_pow, Nat.add_mul_mod_self_left]

/-- A position before a window reaches it after a whole number of laps. -/
theorem exists_lap {k start pos : Nat} (hlt : pos < start) :
    ∃ laps, 1 ≤ laps ∧ start ≤ pos + 2 ^ k * laps ∧ pos + 2 ^ k * laps < start + 2 ^ k := by
  have hcap : 0 < 2 ^ k := Nat.two_pow_pos k
  obtain ⟨distance, hdistance⟩ := Nat.exists_eq_add_of_lt hlt
  refine ⟨distance / 2 ^ k + 1, Nat.le_add_left 1 _, ?_, ?_⟩
  · have hbound := Nat.lt_mul_div_succ distance hcap
    omega
  · have hbound := Nat.mul_div_le distance (2 ^ k)
    rw [Nat.mul_add, Nat.mul_one]
    omega

/-! ### Reading back the updates -/

section Updates

variable [DecidableEq Tid] (s : State Tid T) (t : Tid)

@[simp] theorem State.goto_pc_self (pc : PC T) : (s.goto t pc).pc t = pc := by
  simp [State.goto]

@[simp] theorem State.goto_pc_other {other : Tid} (pc : PC T) (hne : other ≠ t) :
    (s.goto t pc).pc other = s.pc other := by
  simp [State.goto, hne]

@[simp] theorem State.goto_slots (pc : PC T) : (s.goto t pc).m_slots = s.m_slots := rfl
@[simp] theorem State.goto_head (pc : PC T) : (s.goto t pc).m_head = s.m_head := rfl
@[simp] theorem State.goto_tail (pc : PC T) : (s.goto t pc).m_tail = s.m_tail := rfl
@[simp] theorem State.goto_pushClaims (pc : PC T) :
    (s.goto t pc).pushClaims = s.pushClaims := rfl
@[simp] theorem State.goto_popClaims (pc : PC T) : (s.goto t pc).popClaims = s.popClaims := rfl
@[simp] theorem State.goto_pushReturns (pc : PC T) :
    (s.goto t pc).pushReturns = s.pushReturns := rfl
@[simp] theorem State.goto_popReturns (pc : PC T) :
    (s.goto t pc).popReturns = s.popReturns := rfl
@[simp] theorem State.goto_slot (pc : PC T) (Capacity pos : Nat) :
    (s.goto t pc).slot Capacity pos = s.slot Capacity pos := rfl

end Updates

end MessageCenter.MPMCQueue
