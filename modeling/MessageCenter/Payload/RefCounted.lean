import Mathlib.Logic.Function.Basic
import Mathlib.Data.List.GetD

/-!
# Payloads: `RefCountedPayload` and the inline/managed union

A payload is named by the allocation that made it.  The heap maps the live ones
to their contents, so a payload that has been freed cannot be read any more.  The
union of a message is a row of cells: the bytes of an inline payload and the
pointer to a managed one overlay each other.
-/

namespace MessageCenter

abbrev PayloadId := Nat

structure RefCountedPayload where
  m_refCount : Int
  m_size : Nat
  m_data : List UInt8
deriving DecidableEq, Repr

/-- The live payloads; `nextPayload` is the first id that was never given. -/
structure PayloadHeap where
  live : PayloadId → Option RefCountedPayload
  nextPayload : PayloadId

namespace PayloadHeap

def empty : PayloadHeap := ⟨fun _ => none, 0⟩

def set (heap : PayloadHeap) (id : PayloadId) (payload : Option RefCountedPayload) : PayloadHeap :=
  { heap with live := Function.update heap.live id payload }

/-- `create(data, size)`: a copy of the first `size` bytes with one reference. -/
def create (heap : PayloadHeap) (data : List UInt8) (size : Nat) : PayloadId × PayloadHeap :=
  (heap.nextPayload,
    { heap.set heap.nextPayload (some ⟨1, size, data.take size⟩) with
      nextPayload := heap.nextPayload + 1 })

/-- `addRefs(count)` -/
def addRefs (heap : PayloadHeap) (id : PayloadId) (count : Int) : PayloadHeap :=
  match heap.live id with
  | some payload => heap.set id (some { payload with m_refCount := payload.m_refCount + count })
  | none => heap

/-- `release()`: whether this call freed the payload.  On a payload that is
already freed nothing is left to count down. -/
def release (heap : PayloadHeap) (id : PayloadId) : PayloadHeap × Bool :=
  match heap.live id with
  | some payload =>
      if payload.m_refCount = 1 then (heap.set id none, true)
      else (heap.set id (some { payload with m_refCount := payload.m_refCount - 1 }), false)
  | none => (heap, false)

/-- What a reader finds behind `data()`; nothing once the payload is freed. -/
def data (heap : PayloadHeap) (id : PayloadId) : Option (List UInt8) :=
  (heap.live id).map RefCountedPayload.m_data

variable {heap : PayloadHeap} {id other : PayloadId} {payload : RefCountedPayload}

@[simp] theorem set_live_self (value : Option RefCountedPayload) :
    (heap.set id value).live id = value := by
  simp [set]

theorem set_live_ne (value : Option RefCountedPayload) (hne : other ≠ id) :
    (heap.set id value).live other = heap.live other := by
  simp [set, hne]

@[simp] theorem set_nextPayload (value : Option RefCountedPayload) :
    (heap.set id value).nextPayload = heap.nextPayload := rfl

theorem create_live_other (data : List UInt8) (size : Nat) (hne : other ≠ heap.nextPayload) :
    (heap.create data size).2.live other = heap.live other :=
  set_live_ne _ hne

theorem addRefs_live_other (count : Int) (hne : other ≠ id) :
    (heap.addRefs id count).live other = heap.live other := by
  rw [addRefs]
  split
  · exact set_live_ne _ hne
  · rfl

@[simp] theorem addRefs_nextPayload (count : Int) :
    (heap.addRefs id count).nextPayload = heap.nextPayload := by
  rw [addRefs]
  split <;> rfl

theorem release_live_other (hne : other ≠ id) :
    (heap.release id).1.live other = heap.live other := by
  rw [release]
  split
  · split <;> exact set_live_ne _ hne
  · rfl

@[simp] theorem release_nextPayload : (heap.release id).1.nextPayload = heap.nextPayload := by
  rw [release]
  split
  · split <;> rfl
  · rfl

/-- The release of the last reference frees the payload. -/
theorem release_last (hlive : heap.live id = some payload) (hlast : payload.m_refCount = 1) :
    heap.release id = (heap.set id none, true) := by
  simp [release, hlive, hlast]

theorem release_more (hlive : heap.live id = some payload) (hmore : payload.m_refCount ≠ 1) :
    heap.release id =
      (heap.set id (some { payload with m_refCount := payload.m_refCount - 1 }), false) := by
  simp [release, hlive, hmore]

theorem release_freed (hfreed : heap.live id = none) : heap.release id = (heap, false) := by
  simp [release, hfreed]

/-- The payload of a message to `count` observers: created with one reference,
and `addRefs(count - 1)` when there are more. -/
def createFor (heap : PayloadHeap) (data : List UInt8) (size count : Nat) :
    PayloadId × PayloadHeap :=
  let (id, heap) := heap.create data size
  (id, if count > 1 then heap.addRefs id (count - 1 : Int) else heap)

theorem createFor_id (data : List UInt8) (size count : Nat) :
    (heap.createFor data size count).1 = heap.nextPayload := rfl

theorem createFor_live (data : List UInt8) (size : Nat) {count : Nat} (hcount : 1 ≤ count) :
    (heap.createFor data size count).2.live heap.nextPayload =
      some ⟨count, size, data.take size⟩ := by
  simp only [createFor, create, addRefs]
  by_cases hmore : count > 1
  · have hsum : (1 : Int) + (count - 1) = count := by omega
    simp [hmore, set, hsum]
  · have hone : count = 1 := by omega
    simp [hone, set]

theorem createFor_live_other (data : List UInt8) (size count : Nat)
    (hne : other ≠ heap.nextPayload) :
    (heap.createFor data size count).2.live other = heap.live other := by
  simp only [createFor]
  split
  · exact (addRefs_live_other _ hne).trans (create_live_other data size hne)
  · exact create_live_other data size hne

@[simp] theorem createFor_nextPayload (data : List UInt8) (size count : Nat) :
    (heap.createFor data size count).2.nextPayload = heap.nextPayload + 1 := by
  simp only [createFor]
  split
  · rw [addRefs_nextPayload]
    rfl
  · rfl

end PayloadHeap

/-! ### The union of a message -/

/-- One byte of the union: a payload byte, or a byte of a pointer. -/
inductive Cell where
  | byte (value : UInt8)
  | pointer (payload : PayloadId) (index : Nat)
deriving DecidableEq, Repr

/-- `union { RefCountedPayload *managed; char inlineData[...]; }` -/
abbrev PayloadUnion := Nat → Cell

namespace PayloadUnion

def zero : PayloadUnion := fun _ => .byte 0

/-- `memcpy(inlineData, data, size)` -/
def copyBytes (cells : PayloadUnion) (data : List UInt8) (size : Nat) : PayloadUnion :=
  fun i => if i < size then .byte (data.getD i 0) else cells i

/-- `if (data && size > 0) memcpy(inlineData, data, size)` -/
def copyInline (cells : PayloadUnion) (data : Option (List UInt8)) (size : Nat) : PayloadUnion :=
  match data with
  | some bytes => if size > 0 then copyBytes cells bytes size else cells
  | none => cells

/-- The assignment of `managed`. -/
def setManaged (cells : PayloadUnion) (id : PayloadId) : PayloadUnion :=
  fun i => if i < 8 then .pointer id i else cells i

/-- The value of `managed`, if the cells hold a pointer. -/
def managed (cells : PayloadUnion) : Option PayloadId :=
  match cells 0 with
  | .pointer id _ => if (List.range 8).all (fun i => cells i == .pointer id i) then some id else none
  | .byte _ => none

/-- The first `size` cells, as a reader of `inlineData` sees them. -/
def inlineData (cells : PayloadUnion) (size : Nat) : List Cell := (List.range size).map cells

@[simp] theorem managed_setManaged (cells : PayloadUnion) (id : PayloadId) :
    (cells.setManaged id).managed = some id := by
  have hall : (List.range 8).all (fun i => cells.setManaged id i == .pointer id i) = true := by
    rw [List.all_eq_true]
    intro i hi
    simp [setManaged, List.mem_range.mp hi]
  have hfirst : cells.setManaged id 0 = .pointer id 0 := rfl
  simp only [managed, hfirst, hall, if_true]

theorem inlineData_copyInline (cells : PayloadUnion) {data : Option (List UInt8)} {size : Nat}
    (hdata : size = 0 ∨ ∃ bytes, data = some bytes ∧ size ≤ bytes.length) :
    (cells.copyInline data size).inlineData size = ((data.getD []).take size).map Cell.byte := by
  rcases hdata with rfl | ⟨bytes, rfl, hlen⟩
  · simp [inlineData]
  · rcases Nat.eq_zero_or_pos size with rfl | hpos
    · simp [inlineData]
    · apply List.ext_getElem
      · simp [inlineData, hlen]
      · intro i hi _
        have hlt : i < size := by simpa [inlineData] using hi
        have hget : bytes.getD i 0 = bytes[i] := List.getD_eq_getElem bytes 0 (by omega)
        simp only [inlineData, copyInline, hpos, if_true, List.getElem_map, List.getElem_range,
          copyBytes, hlt, Option.getD_some, List.getElem_take, hget]

end PayloadUnion

end MessageCenter
