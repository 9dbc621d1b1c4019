import Mathlib.Data.List.Perm.Subperm
import MessageCenter.PooledQueue.Model

/-!
# The end of a pooled queue

The destructor of a queue class runs those of its members.  `~ObjectPoolLockFree` deletes the
nodes on the free list; the ring has no destructor of its own, so the objects that its slots
point to are left where they are.  When all allocated objects are accounted for, the pool has
deleted each of them once exactly if none was on its way.
-/

namespace MessageCenter.PooledQueue

open ObjectPoolLockFree

universe u

variable {M : Type u} {k : Nat} {mem : Memory M} {queue : PooledQueue} {queued held : List Addr}
  {addr : Addr} {moving : Nat}

/-- The loop of `~ObjectPoolLockFree`. -/
def deleteNodes : List Addr → List Addr → List Addr
  | [], deleted => deleted
  | node :: next, deleted => deleteNodes next (node :: deleted)

/-- The destructors of `m_messagePool` and `m_queue`. -/
def destroy (queue : PooledQueue) : PooledQueue :=
  { queue with m_freeList := [], deleted := deleteNodes queue.m_freeList queue.deleted }

theorem count_deleteNodes (nodes deleted : List Addr) (addr : Addr) :
    (deleteNodes nodes deleted).count addr = nodes.count addr + deleted.count addr := by
  induction nodes generalizing deleted with
  | nil => simp [deleteNodes]
  | cons node next ih =>
      rw [deleteNodes, ih, List.count_cons, List.count_cons]
      omega

/-- Every object that the pool has allocated has been deleted, once. -/
def DeletedOnce (mem : Memory M) (queue : PooledQueue) : Prop :=
  ∀ addr, addr < mem.nextAddr → queue.deleted.count addr = 1

/-! ### The balance -/

/-- The allocated objects are free, deleted or among the `moving` on their way. -/
def Balanced (mem : Memory M) (queue : PooledQueue) (moving : Nat) : Prop :=
  moving + queue.m_freeList.length + queue.deleted.length = mem.nextAddr

theorem construct_balanced (zero object : M) (initialSize : Nat) :
    Balanced (construct zero ⟨fun _ => object, 0⟩ initialSize).1
      (construct zero ⟨fun _ => object, 0⟩ initialSize).2 0 := by
  induction initialSize with
  | zero => rfl
  | succ size ih =>
      simp only [Balanced, construct, Memory.new, Memory.write, List.length_cons] at ih ⊢
      omega

theorem Balanced.write (h : Balanced mem queue moving) (addr : Addr) (message : M) :
    Balanced (mem.write addr message) queue moving := h

theorem Balanced.acquire (h : Balanced mem queue moving) (zero : M) :
    Balanced (queue.acquire zero mem).2.1 (queue.acquire zero mem).2.2 (moving + 1) := by
  rw [PooledQueue.acquire]
  cases hfree : queue.m_freeList with
  | cons first rest =>
      rw [Balanced, hfree, List.length_cons] at h
      simp only [Balanced]
      omega
  | nil =>
      rw [Balanced, hfree, List.length_nil] at h
      simp only [Balanced, Memory.new, Memory.write, List.length_nil]
      omega

theorem Balanced.release (h : Balanced mem queue (moving + 1)) (maxSize : Nat) (addr : Addr) :
    Balanced mem (queue.release maxSize addr) moving := by
  rw [Balanced] at h ⊢
  rw [PooledQueue.release]
  split <;> simp only [List.length_cons] <;> omega

/-- The ring operations neither allocate nor free. -/
theorem Balanced.push {Capacity : Nat} {after : PooledQueue} (h : Balanced mem queue moving)
    (hpush : queue.push Capacity addr = some after) : Balanced mem after moving := by
  obtain ⟨hfree, hdeleted⟩ := push_pool hpush
  rw [Balanced, hfree, hdeleted]
  exact h

theorem Balanced.pop {Capacity : Nat} {after : PooledQueue} {item : Option Addr}
    (h : Balanced mem queue moving) (hpop : queue.pop Capacity = some (after, item)) :
    Balanced mem after moving := by
  obtain ⟨hfree, hdeleted⟩ := pop_pool hpop
  rw [Balanced, hfree, hdeleted]
  exact h

/-! ### Destruction -/

/-- In a balanced account every allocated object is in one of the places. -/
theorem Carries.mem_places (hcarries : Carries k mem queue queued held)
    (h : Balanced mem queue (queued.length + held.length)) (hlt : addr < mem.nextAddr) :
    addr ∈ queued ++ held ++ queue.m_freeList ++ queue.deleted := by
  have hsubset : queued ++ held ++ queue.m_freeList ++ queue.deleted ⊆
      List.range mem.nextAddr := by
    intro other hmem
    exact List.mem_range.mpr (hcarries.allocated other hmem)
  have hlength : (List.range mem.nextAddr).length ≤
      (queued ++ held ++ queue.m_freeList ++ queue.deleted).length := by
    simp only [List.length_range, List.length_append]
    exact Nat.le_of_eq h.symm
  have hperm := (hcarries.once.subperm hsubset).perm_of_length_le hlength
  exact hperm.symm.subset (List.mem_range.mpr hlt)

/-- The destructors delete every object once, but not those that are queued or held. -/
theorem Carries.count_destroy (hcarries : Carries k mem queue queued held)
    (h : Balanced mem queue (queued.length + held.length)) (hlt : addr < mem.nextAddr) :
    queue.destroy.deleted.count addr = if addr ∈ queued ++ held then 0 else 1 := by
  have honce := hcarries.once
  rw [List.append_assoc, List.nodup_append] at honce
  obtain ⟨-, hpool, hapart⟩ := honce
  rw [destroy, count_deleteNodes, ← List.count_append]
  split
  · next hmem => exact List.count_eq_zero.mpr fun hin => hapart addr hmem addr hin rfl
  · next hmem =>
    have hplaces := hcarries.mem_places h hlt
    rw [List.append_assoc] at hplaces
    exact List.count_eq_one_of_mem hpool ((List.mem_append.mp hplaces).resolve_left hmem)

/-- **Destruction.**  The pool has deleted every object once exactly if none is queued or
held. -/
theorem Carries.deletedOnce_iff (hcarries : Carries k mem queue queued held)
    (h : Balanced mem queue (queued.length + held.length)) :
    DeletedOnce mem queue.destroy ↔ queued = [] ∧ held = [] := by
  rw [← List.append_eq_nil_iff, List.eq_nil_iff_forall_not_mem]
  constructor
  · intro hdeleted addr hmem
    have hlt : addr < mem.nextAddr :=
      (List.mem_append.mp hmem).elim hcarries.queued_lt hcarries.held_lt
    have hone := hdeleted addr hlt
    rw [hcarries.count_destroy h hlt, if_pos hmem] at hone
    cases hone
  · intro hnone addr hlt
    rw [hcarries.count_destroy h hlt, if_neg (hnone addr)]

end MessageCenter.PooledQueue
