import MessageCenter.MpmcQueue.Sequential
import MessageCenter.ObjectPool.LockFree
import Mathlib.Data.List.Nodup

/-!
# A ring of pooled message objects

What the queues of this repository share: message objects are taken from an
`ObjectPoolLockFree`, filled, and sent by address through an `MPMCQueue`.  Here
both run in one thread, so the free list is a stack and the ring is the
sequential one.  The memory of the objects is kept apart: an object that comes
back from the pool still holds what its last user wrote.
-/

namespace MessageCenter

open MPMCQueue ObjectPoolLockFree

universe u

/-- The message objects by address; `nextAddr` is the first that was never
allocated. -/
structure Memory (M : Type u) where
  objects : Addr → M
  nextAddr : Addr

/-- `m_queue` and `m_messagePool` of one queue object; `deleted` is history. -/
structure PooledQueue where
  m_queue : WordRing Addr 64
  m_freeList : List Addr
  m_allocated : Nat
  deleted : List Addr

variable {M : Type u}

namespace Memory

def write (mem : Memory M) (addr : Addr) (message : M) : Memory M :=
  { mem with objects := Function.update mem.objects addr message }

/-- `new Node()`: a zeroed object at a new address. -/
def new (mem : Memory M) (zero : M) : Addr × Memory M :=
  (mem.nextAddr, { mem.write mem.nextAddr zero with nextAddr := mem.nextAddr + 1 })

end Memory

namespace PooledQueue

/-- The constructors of the ring and of a pool of `initialSize` objects. -/
def construct (zero : M) (mem : Memory M) : Nat → Memory M × PooledQueue
  | 0 =>
      (mem, { m_queue := WordRing.init, m_freeList := [], m_allocated := 0, deleted := [] })
  | size + 1 =>
      let (mem, queue) := construct zero mem size
      let (addr, mem) := mem.new zero
      (mem, { queue with
        m_freeList := addr :: queue.m_freeList
        m_allocated := fetchAdd queue.m_allocated })

/-- `m_messagePool.acquire()` -/
def acquire (zero : M) (mem : Memory M) (queue : PooledQueue) : Addr × Memory M × PooledQueue :=
  match queue.m_freeList with
  | addr :: rest => (addr, mem, { queue with m_freeList := rest })
  | [] =>
      let (addr, mem) := mem.new zero
      (addr, mem, { queue with m_allocated := fetchAdd queue.m_allocated })

/-- `m_messagePool.release(msg)` -/
def release (maxSize : Nat) (queue : PooledQueue) (addr : Addr) : PooledQueue :=
  if maxSize > 0 ∧ queue.m_allocated > maxSize then
    { queue with
      m_allocated := fetchSub queue.m_allocated
      deleted := addr :: queue.deleted }
  else { queue with m_freeList := addr :: queue.m_freeList }

/-- `while (!m_queue.try_push(msg)) yield()`: with nobody else to make room, a
push to a full ring never returns. -/
def push (Capacity : Nat) (queue : PooledQueue) (addr : Addr) : Option PooledQueue :=
  match queue.m_queue.tryPush Capacity addr with
  | some (ring, true) => some { queue with m_queue := ring }
  | _ => none

/-- `m_queue.try_pop(msg)`; a null pointer counts as nothing. -/
def pop (Capacity : Nat) (queue : PooledQueue) : Option (PooledQueue × Option Addr) :=
  match queue.m_queue.tryPop Capacity with
  | some (ring, item) => some ({ queue with m_queue := ring }, item.join)
  | none => none

/-! ### Every object is in one place -/

/-- `queued` are the objects in the ring, oldest first, and `held` those that a
call works on; all others are free or deleted. -/
structure Carries (k : Nat) (mem : Memory M) (queue : PooledQueue) (queued held : List Addr) :
    Prop where
  ring : ∃ start, queue.m_queue.Represents k start queued
  once : (queued ++ held ++ queue.m_freeList ++ queue.deleted).Nodup
  allocated : ∀ addr ∈ queued ++ held ++ queue.m_freeList ++ queue.deleted, addr < mem.nextAddr

variable {k : Nat} {mem : Memory M} {queue : PooledQueue} {queued held : List Addr} {addr : Addr}

/-- Moving objects between the places keeps the account. -/
theorem Carries.of_perm {after : PooledQueue} {queued' held' : List Addr}
    (hcarries : Carries k mem queue queued held)
    (hring : ∃ start, after.m_queue.Represents k start queued')
    (hperm : (queued' ++ held' ++ after.m_freeList ++ after.deleted).Perm
      (queued ++ held ++ queue.m_freeList ++ queue.deleted)) :
    Carries k mem after queued' held' where
  ring := hring
  once := hperm.nodup_iff.mpr hcarries.once
  allocated := fun addr hmem => hcarries.allocated addr (hperm.subset hmem)

/-- The order of what a call holds does not matter. -/
theorem Carries.of_held_perm {held' : List Addr} (hcarries : Carries k mem queue queued held)
    (hperm : held'.Perm held) : Carries k mem queue queued held' :=
  hcarries.of_perm hcarries.ring
    (((hperm.append_left queued).append_right queue.m_freeList).append_right queue.deleted)

theorem Carries.held_lt (hcarries : Carries k mem queue queued held) (hmem : addr ∈ held) :
    addr < mem.nextAddr :=
  hcarries.allocated addr (by simp [hmem])

theorem Carries.queued_lt (hcarries : Carries k mem queue queued held) (hmem : addr ∈ queued) :
    addr < mem.nextAddr :=
  hcarries.allocated addr (by simp [hmem])

theorem Carries.not_queued (hcarries : Carries k mem queue queued held) (hheld : addr ∈ held) :
    addr ∉ queued := by
  intro hqueued
  have honce := hcarries.once
  simp only [List.append_assoc, List.nodup_append] at honce
  exact honce.2.2 addr hqueued addr (by simp [hheld]) rfl

theorem Carries.held_nodup (hcarries : Carries k mem queue queued held) : held.Nodup := by
  have honce := hcarries.once
  simp only [List.append_assoc, List.nodup_append] at honce
  exact honce.2.1.1

theorem Carries.queued_nodup (hcarries : Carries k mem queue queued held) : queued.Nodup := by
  have honce := hcarries.once
  simp only [List.append_assoc, List.nodup_append] at honce
  exact honce.1

theorem Carries.contents_eq (hcarries : Carries k mem queue queued held) (hk : k < 64) :
    queue.m_queue.contents (2 ^ k) = queued := by
  obtain ⟨start, hrep⟩ := hcarries.ring
  exact hrep.contents_eq hk

/-- Objects that others allocate are in no place of this queue. -/
theorem Carries.mono {mem' : Memory M} (hcarries : Carries k mem queue queued held)
    (hle : mem.nextAddr ≤ mem'.nextAddr) : Carries k mem' queue queued held :=
  ⟨hcarries.ring, hcarries.once,
    fun addr hmem => Nat.lt_of_lt_of_le (hcarries.allocated addr hmem) hle⟩

/-- Writing to an object does not move any. -/
theorem Carries.write (hcarries : Carries k mem queue queued held) (message : M) :
    Carries k (mem.write addr message) queue queued held :=
  ⟨hcarries.ring, hcarries.once, hcarries.allocated⟩

/-- A new object is in no place yet. -/
theorem Carries.new (hcarries : Carries k mem queue queued held) (zero : M) :
    Carries k (mem.new zero).2 queue queued (mem.nextAddr :: held) := by
  have hperm : (queued ++ (mem.nextAddr :: held) ++ queue.m_freeList ++ queue.deleted).Perm
      (mem.nextAddr :: (queued ++ held ++ queue.m_freeList ++ queue.deleted)) := by
    simp only [List.append_assoc, List.cons_append]
    exact List.perm_middle
  refine ⟨hcarries.ring, hperm.nodup_iff.mpr (List.nodup_cons.mpr ⟨?_, hcarries.once⟩), ?_⟩
  · intro hmem
    exact Nat.lt_irrefl _ (hcarries.allocated _ hmem)
  · intro addr hmem
    rcases List.mem_cons.mp (hperm.subset hmem) with rfl | hmem
    · exact Nat.lt_succ_self _
    · exact Nat.lt_succ_of_lt (hcarries.allocated addr hmem)

theorem construct_carries (zero : M) (mem : Memory M) (initialSize : Nat) :
    Carries k (construct zero mem initialSize).1 (construct zero mem initialSize).2 [] [] ∧
      mem.nextAddr ≤ (construct zero mem initialSize).1.nextAddr := by
  induction initialSize with
  | zero => exact ⟨⟨⟨0, WordRing.represents_init⟩, by simp [construct], by simp [construct]⟩,
      Nat.le_refl _⟩
  | succ size ih =>
      obtain ⟨hcarries, hle⟩ := ih
      refine ⟨(hcarries.new zero).of_perm hcarries.ring ?_, Nat.le_succ_of_le hle⟩
      simp [construct, Memory.new]

/-- The objects of a new pool are new, and the others are as before. -/
theorem construct_fresh (zero : M) (mem : Memory M) (initialSize : Nat) :
    (∀ addr ∈ (construct zero mem initialSize).2.m_freeList, mem.nextAddr ≤ addr) ∧
      (construct zero mem initialSize).2.deleted = [] ∧
      ∀ addr, addr < mem.nextAddr →
        (construct zero mem initialSize).1.objects addr = mem.objects addr := by
  induction initialSize with
  | zero => exact ⟨fun _ hmem => absurd hmem List.not_mem_nil, rfl, fun _ _ => rfl⟩
  | succ size ih =>
      obtain ⟨hfresh, hdeleted, hobjects⟩ := ih
      have hle := (construct_carries (k := 0) zero mem size).2
      refine ⟨fun addr hmem => ?_, hdeleted, fun addr hlt => ?_⟩
      · rcases List.mem_cons.mp hmem with rfl | hmem
        · exact hle
        · exact hfresh addr hmem
      · have hne : addr ≠ (construct zero mem size).1.nextAddr :=
          Nat.ne_of_lt (Nat.lt_of_lt_of_le hlt hle)
        simp only [construct, Memory.new, Memory.write, Function.update_of_ne hne]
        exact hobjects addr hlt

/-- What `acquire` changes: the object that it hands out, which was free or is new,
and nothing else. -/
theorem acquire_frame (zero : M) (mem : Memory M) (queue : PooledQueue) :
    ((queue.acquire zero mem).1 ∈ queue.m_freeList ∨
        (queue.acquire zero mem).1 = mem.nextAddr) ∧
      (∀ addr ∈ (queue.acquire zero mem).2.2.m_freeList, addr ∈ queue.m_freeList) ∧
      (queue.acquire zero mem).2.2.deleted = queue.deleted ∧
      ∀ addr, addr ≠ (queue.acquire zero mem).1 →
        (queue.acquire zero mem).2.1.objects addr = mem.objects addr := by
  rw [acquire]
  cases hfree : queue.m_freeList with
  | cons first rest =>
      exact ⟨Or.inl (List.mem_cons_self ..), fun _ hmem => List.mem_cons_of_mem _ hmem, rfl,
        fun _ _ => rfl⟩
  | nil =>
      refine ⟨Or.inr rfl, fun addr hmem => hmem, rfl, fun addr hne => ?_⟩
      exact Function.update_of_ne hne _ _

/-- `acquire` hands out an object that was free or is new, and changes no object
in another place. -/
theorem Carries.acquire (hcarries : Carries k mem queue queued held) (zero : M) :
    ∃ addr mem' queue', queue.acquire zero mem = (addr, mem', queue') ∧
      Carries k mem' queue' queued (addr :: held) ∧ mem.nextAddr ≤ mem'.nextAddr ∧
      ∀ other ∈ queued ++ held, mem'.objects other = mem.objects other := by
  cases hfree : queue.m_freeList with
  | cons addr rest =>
      refine ⟨addr, mem, { queue with m_freeList := rest }, by simp [PooledQueue.acquire, hfree],
        hcarries.of_perm hcarries.ring ?_, Nat.le_refl _, fun _ _ => rfl⟩
      simp only [hfree, List.append_assoc, List.cons_append]
      exact List.Perm.append_left queued List.perm_middle.symm
  | nil =>
      refine ⟨mem.nextAddr, (mem.new zero).2,
        { queue with m_allocated := fetchAdd queue.m_allocated },
        by simp [PooledQueue.acquire, hfree, Memory.new],
        (hcarries.new zero).of_perm hcarries.ring (List.Perm.refl _), Nat.le_succ _, ?_⟩
      intro other hmem
      have hlt := hcarries.allocated other
        (List.mem_append_left _ (List.mem_append_left _ hmem))
      have hne : other ≠ mem.nextAddr := Nat.ne_of_lt hlt
      simp [Memory.new, Memory.write, hne]

theorem Carries.release (hcarries : Carries k mem queue queued (addr :: held)) (maxSize : Nat) :
    Carries k mem (queue.release maxSize addr) queued held := by
  rw [PooledQueue.release]
  split
  · refine hcarries.of_perm hcarries.ring ?_
    simp only [List.append_assoc, List.cons_append]
    exact List.Perm.append_left queued
      ((List.Perm.append_left held List.perm_middle).trans List.perm_middle)
  · refine hcarries.of_perm hcarries.ring ?_
    simp only [List.append_assoc, List.cons_append]
    exact List.Perm.append_left queued List.perm_middle

/-- The ring operations leave the pool alone. -/
theorem push_pool {Capacity : Nat} {after : PooledQueue}
    (hpush : queue.push Capacity addr = some after) :
    after.m_freeList = queue.m_freeList ∧ after.deleted = queue.deleted := by
  rw [PooledQueue.push] at hpush
  split at hpush
  · obtain rfl := Option.some.inj hpush
    exact ⟨rfl, rfl⟩
  · cases hpush

theorem pop_pool {Capacity : Nat} {after : PooledQueue} {item : Option Addr}
    (hpop : queue.pop Capacity = some (after, item)) :
    after.m_freeList = queue.m_freeList ∧ after.deleted = queue.deleted := by
  rw [PooledQueue.pop] at hpop
  split at hpop
  · simp only [Option.some.injEq, Prod.mk.injEq] at hpop
    obtain ⟨rfl, _⟩ := hpop
    exact ⟨rfl, rfl⟩
  · cases hpop

/-- A released object is free or deleted. -/
theorem release_pool (maxSize : Nat) (queue : PooledQueue) (addr : Addr) :
    ∀ other ∈ (queue.release maxSize addr).m_freeList ++ (queue.release maxSize addr).deleted,
      other = addr ∨ other ∈ queue.m_freeList ++ queue.deleted := by
  intro other hmem
  rw [PooledQueue.release] at hmem
  split at hmem
  · rcases List.mem_append.mp hmem with hmem | hmem
    · exact Or.inr (List.mem_append_left _ hmem)
    · exact (List.mem_cons.mp hmem).imp_right (List.mem_append_right _)
  · rcases List.mem_append.mp hmem with hmem | hmem
    · exact (List.mem_cons.mp hmem).imp_right (List.mem_append_left _)
    · exact Or.inr (List.mem_append_right _ hmem)

theorem mem_release_pool (maxSize : Nat) {other : Addr}
    (hmem : other = addr ∨ other ∈ queue.m_freeList ++ queue.deleted) :
    other ∈ (queue.release maxSize addr).m_freeList ++ (queue.release maxSize addr).deleted := by
  rw [PooledQueue.release]
  split <;> simp only [List.mem_append, List.mem_cons] at hmem ⊢ <;> tauto

/-- A push into a ring with room sends the object last. -/
theorem Carries.push (hcarries : Carries k mem queue queued (addr :: held)) (hk : k < 64)
    (hroom : queued.length < 2 ^ k) :
    ∃ after, queue.push (2 ^ k) addr = some after ∧
      Carries k mem after (queued ++ [addr]) held := by
  obtain ⟨start, hrep⟩ := hcarries.ring
  obtain ⟨ring, hpush, hafter⟩ := hrep.tryPush_room hk hroom addr
  refine ⟨{ queue with m_queue := ring }, by simp [PooledQueue.push, hpush],
    hcarries.of_perm ⟨start, hafter⟩ ?_⟩
  simp

/-- A push that returns found room, if the ring has at least two slots. -/
theorem Carries.room_of_push {after : PooledQueue}
    (hcarries : Carries k mem queue queued held) (hone : 1 ≤ k) (hk : k < 64)
    (hpush : queue.push (2 ^ k) addr = some after) : queued.length < 2 ^ k := by
  obtain ⟨start, hrep⟩ := hcarries.ring
  by_contra hfull
  have hlen : queued.length = 2 ^ k := by
    have hbound := hrep.bound
    omega
  simp [PooledQueue.push, hrep.tryPush_full hone hk hlen] at hpush

theorem Carries.pop_nil (hcarries : Carries k mem queue [] held) (hk : k < 64) :
    queue.pop (2 ^ k) = some (queue, none) := by
  obtain ⟨start, hrep⟩ := hcarries.ring
  simp [PooledQueue.pop, hrep.tryPop_nil hk]

theorem Carries.pop_cons (hcarries : Carries k mem queue (addr :: queued) held) (hk : k < 64) :
    ∃ after, queue.pop (2 ^ k) = some (after, some addr) ∧
      Carries k mem after queued (addr :: held) := by
  obtain ⟨start, hrep⟩ := hcarries.ring
  obtain ⟨ring, hpop, hafter⟩ := hrep.tryPop_cons hk
  refine ⟨{ queue with m_queue := ring }, by simp [PooledQueue.pop, hpop],
    hcarries.of_perm ⟨start + 1, hafter⟩ ?_⟩
  simp only [List.append_assoc, List.cons_append]
  exact List.perm_middle

end PooledQueue

end MessageCenter
