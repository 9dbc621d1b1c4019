import Mathlib.Algebra.Group.Nat.Defs
import Mathlib.Data.BitVec
import Mathlib.Data.Fintype.Card
import Mathlib.Data.List.Basic
import MessageCenter.Lib.Machine

/-!
# The mutex-based object pool of `objectpool.h`

Every public call of `ObjectPool` is one critical section of `m_mutex`, so a run is a sequence of
calls.  Objects are addresses; the allocator may hand out any address that is not in use, and
`new T()` may throw.

`m_allocated` is meant to count the objects in the pool and in use.  `clear` sets it to zero
whether or not objects are in use, and `acquire` counts an object before it has been allocated.
-/

namespace MessageCenter.ObjectPool

open Concurrency

/-- `T *` -/
abbrev Ptr := BitVec 64

abbrev nullptr : Ptr := 0#64

/-- `size_t` arithmetic of `m_allocated`. -/
def increment (n : Nat) : Nat := (n + 1) % 2 ^ 64

def decrement (n : Nat) : Nat := if n = 0 then 2 ^ 64 - 1 else n - 1

/-- The fields of `ObjectPool`; the back of `m_pool` is its last element. -/
structure Pool where
  m_pool : List Ptr
  m_maxSize : Nat
  m_allocated : Nat
deriving DecidableEq, Repr

namespace Pool

/-- The loop of the constructor; `objects` are what its rounds of `new T()` yield. -/
def preallocate : Pool → List Ptr → Pool
  | pool, [] => pool
  | pool, obj :: objects =>
      preallocate { pool with
        m_pool := pool.m_pool ++ [obj]
        m_allocated := increment pool.m_allocated } objects

/-- `ObjectPool(initialSize, maxSize)`, with `initialSize` the number of the objects. -/
def construct (objects : List Ptr) (maxSize : Nat) : Pool :=
  preallocate { m_pool := [], m_maxSize := maxSize, m_allocated := 0 } objects

/-- `acquire`.  Where the pool is empty, `fresh` is what `new T()` yields, with `none` for an
exception; `m_allocated` has been incremented by then. -/
def acquire (pool : Pool) (fresh : Option Ptr) : Pool × Option Ptr :=
  match pool.m_pool.getLast? with
  | some obj => ({ pool with m_pool := pool.m_pool.dropLast }, some obj)
  | none => ({ pool with m_allocated := increment pool.m_allocated }, fresh)

def release (pool : Pool) (obj : Ptr) : Pool :=
  if obj = nullptr then pool
  else if pool.m_maxSize = 0 ∨ pool.m_pool.length < pool.m_maxSize then
    { pool with m_pool := pool.m_pool ++ [obj] }
  else { pool with m_allocated := decrement pool.m_allocated }

def size (pool : Pool) : Nat := pool.m_pool.length

def allocated (pool : Pool) : Nat := pool.m_allocated

def clear (pool : Pool) : Pool := { pool with m_pool := [], m_allocated := 0 }

end Pool

/-! ### Runs -/

/-- A pool and the objects that have been acquired and not yet released. -/
structure State where
  pool : Pool
  held : List Ptr
deriving DecidableEq, Repr

inductive Call where
  | acquire (fresh : Option Ptr)
  | release (obj : Ptr)
  | clear
deriving DecidableEq, Repr

/-- What `new T()` may yield. -/
def State.Allocates (s : State) (fresh : Option Ptr) : Prop :=
  ∀ obj ∈ fresh, obj ≠ nullptr ∧ obj ∉ s.pool.m_pool ∧ obj ∉ s.held

instance (s : State) : (fresh : Option Ptr) → Decidable (s.Allocates fresh)
  | none => isTrue fun _ hobj => absurd hobj (Option.not_mem_none _)
  | some obj =>
      decidable_of_iff (obj ≠ nullptr ∧ obj ∉ s.pool.m_pool ∧ obj ∉ s.held) (by
        simp [State.Allocates])

/-- One call; only the null pointer and held objects are released. -/
def step (s : State) : Call → Option State
  | .acquire fresh =>
      if s.Allocates fresh then
        some { pool := (s.pool.acquire fresh).1
               held := (s.pool.acquire fresh).2.toList ++ s.held }
      else none
  | .release obj =>
      if obj = nullptr ∨ obj ∈ s.held then
        some { pool := s.pool.release obj, held := s.held.erase obj }
      else none
  | .clear => some { s with pool := s.pool.clear }

def machine (objects : List Ptr) (maxSize : Nat) : Machine State Call where
  init := { pool := .construct objects maxSize, held := [] }
  step := step

/-- **The accounting** of a pool constructed with `initialSize` objects. -/
structure Accounted (initialSize : Nat) (s : State) : Prop where
  allocated : s.pool.allocated = s.pool.size + s.held.length
  /-- `acquire` does not return an object that is held -/
  acquired : ∀ fresh obj, s.Allocates fresh → (s.pool.acquire fresh).2 = some obj → obj ∉ s.held
  bound : 0 < s.pool.m_maxSize → s.pool.size ≤ max initialSize s.pool.m_maxSize

/-- The calls that leave the counter right: `clear` while no object is held, and `acquire` unless
`new T()` is called and throws. -/
def CountsExactly (s : State) : Call → Prop
  | .acquire fresh => s.pool.m_pool = [] → fresh ≠ none
  | .release _ => True
  | .clear => s.held = []

instance (s : State) : (call : Call) → Decidable (CountsExactly s call)
  | .acquire fresh => inferInstanceAs (Decidable (s.pool.m_pool = [] → fresh ≠ none))
  | .release _ => isTrue trivial
  | .clear => inferInstanceAs (Decidable (s.held = []))

variable {s next : State} {pool : Pool} {objects : List Ptr} {maxSize bound : Nat}

/-! ### The pool -/

theorem Pool.preallocate_m_pool : (pool.preallocate objects).m_pool = pool.m_pool ++ objects := by
  induction objects generalizing pool with
  | nil => rw [Pool.preallocate, List.append_nil]
  | cons obj objects ih =>
      rw [Pool.preallocate, ih]
      exact List.append_assoc _ _ _

theorem Pool.preallocate_m_maxSize : (pool.preallocate objects).m_maxSize = pool.m_maxSize := by
  induction objects generalizing pool with
  | nil => rfl
  | cons obj objects ih => rw [Pool.preallocate, ih]

theorem Pool.preallocate_m_allocated (hlt : pool.m_allocated + objects.length < 2 ^ 64) :
    (pool.preallocate objects).m_allocated = pool.m_allocated + objects.length := by
  induction objects generalizing pool with
  | nil => rfl
  | cons obj objects ih =>
      rw [List.length_cons] at hlt
      have hone : increment pool.m_allocated = pool.m_allocated + 1 :=
        Nat.mod_eq_of_lt (by omega)
      rw [Pool.preallocate, ih (show increment pool.m_allocated + objects.length < 2 ^ 64 by omega),
        List.length_cons]
      dsimp only
      omega

/-- What a call can do. -/
inductive Outcome : State → Call → State → Prop
  | reused {pool : Pool} {held rest : List Ptr} {fresh : Option Ptr} {obj : Ptr} :
      pool.m_pool = rest ++ [obj] →
      Outcome ⟨pool, held⟩ (.acquire fresh) ⟨{ pool with m_pool := rest }, obj :: held⟩
  | allocated {pool : Pool} {held : List Ptr} {obj : Ptr} :
      pool.m_pool = [] → obj ≠ nullptr → obj ∉ held →
      Outcome ⟨pool, held⟩ (.acquire (some obj))
        ⟨{ pool with m_allocated := increment pool.m_allocated }, obj :: held⟩
  | failed {pool : Pool} {held : List Ptr} : pool.m_pool = [] →
      Outcome ⟨pool, held⟩ (.acquire none)
        ⟨{ pool with m_allocated := increment pool.m_allocated }, held⟩
  | ignored {pool : Pool} {held : List Ptr} :
      Outcome ⟨pool, held⟩ (.release nullptr) ⟨pool, held.erase nullptr⟩
  | pooled {pool : Pool} {held : List Ptr} {obj : Ptr} : obj ∈ held →
      pool.m_maxSize = 0 ∨ pool.m_pool.length < pool.m_maxSize →
      Outcome ⟨pool, held⟩ (.release obj)
        ⟨{ pool with m_pool := pool.m_pool ++ [obj] }, held.erase obj⟩
  | deleted {pool : Pool} {held : List Ptr} {obj : Ptr} : obj ∈ held →
      Outcome ⟨pool, held⟩ (.release obj)
        ⟨{ pool with m_allocated := decrement pool.m_allocated }, held.erase obj⟩
  | cleared {pool : Pool} {held : List Ptr} :
      Outcome ⟨pool, held⟩ .clear ⟨{ pool with m_pool := [], m_allocated := 0 }, held⟩

theorem acquire_outcome {fresh : Option Ptr} (hfresh : s.Allocates fresh) :
    Outcome s (.acquire fresh)
      { pool := (s.pool.acquire fresh).1, held := (s.pool.acquire fresh).2.toList ++ s.held } := by
  rcases List.eq_nil_or_concat s.pool.m_pool with hnil | ⟨rest, obj, hback⟩
  · have hnone : s.pool.m_pool.getLast? = none := by rw [hnil, List.getLast?_nil]
    rw [Pool.acquire, hnone]
    cases fresh with
    | none => exact .failed hnil
    | some obj => exact .allocated hnil (hfresh obj rfl).1 (hfresh obj rfl).2.2
  · rw [List.concat_eq_append] at hback
    have hlast : s.pool.m_pool.getLast? = some obj := by rw [hback, List.getLast?_concat]
    rw [Pool.acquire, hlast, hback, List.dropLast_concat]
    exact .reused hback

theorem release_outcome {obj : Ptr} (hobj : obj = nullptr ∨ obj ∈ s.held) :
    Outcome s (.release obj) { pool := s.pool.release obj, held := s.held.erase obj } := by
  unfold Pool.release
  split
  case isTrue hnull =>
    subst hnull
    exact .ignored
  case isFalse hnull =>
    have hmem := hobj.resolve_left hnull
    split
    case isTrue hroom => exact .pooled hmem hroom
    case isFalse => exact .deleted hmem

theorem outcome_of_step {call : Call} (hstep : step s call = some next) :
    Outcome s call next := by
  cases call with
  | acquire fresh =>
      simp only [step, Option.ite_none_right_eq_some, Option.some.injEq] at hstep
      obtain ⟨hfresh, rfl⟩ := hstep
      exact acquire_outcome hfresh
  | release obj =>
      simp only [step, Option.ite_none_right_eq_some, Option.some.injEq] at hstep
      obtain ⟨hobj, rfl⟩ := hstep
      exact release_outcome hobj
  | clear =>
      obtain rfl := Option.some.inj hstep
      exact .cleared

/-! ### Addresses -/

/-- All objects have addresses of their own. -/
def State.Distinct (s : State) : Prop := (nullptr :: (s.pool.m_pool ++ s.held)).Nodup

theorem length_lt_of_nodup {addresses : List Ptr} (hnodup : (nullptr :: addresses).Nodup) :
    addresses.length < 2 ^ 64 := by
  have hcard := (hnodup.map BitVec.toFin_injective).length_le_card
  rw [List.length_map, List.length_cons, Fintype.card_fin] at hcard
  exact hcard

theorem State.Distinct.length_lt (hdistinct : s.Distinct) :
    s.pool.m_pool.length + s.held.length < 2 ^ 64 := by
  rw [← List.length_append]
  exact length_lt_of_nodup hdistinct

theorem State.Distinct.nullptr_not_held (hdistinct : s.Distinct) : nullptr ∉ s.held := by
  intro hmem
  exact (List.nodup_cons.mp hdistinct).1 (List.mem_append_right _ hmem)

theorem State.Distinct.erase_held (hdistinct : s.Distinct) (pool : Pool) (obj : Ptr)
    (hpool : pool.m_pool = s.pool.m_pool) :
    ({ pool := pool, held := s.held.erase obj } : State).Distinct := by
  have hsub : (s.held.erase obj).Sublist s.held := List.erase_sublist
  rw [State.Distinct, hpool]
  exact hdistinct.sublist ((List.Sublist.append_left hsub _).cons_cons _)

theorem Outcome.distinct {call : Call} (houtcome : Outcome s call next)
    (hdistinct : s.Distinct) : next.Distinct := by
  cases houtcome with
  | reused hback =>
      rw [State.Distinct, hback, List.append_assoc] at hdistinct
      exact hdistinct
  | allocated hnil hnonnull hfresh =>
      rw [State.Distinct, hnil, List.nil_append] at hdistinct
      rw [State.Distinct, hnil, List.nil_append, (List.Perm.swap ..).nodup_iff, List.nodup_cons]
      exact ⟨by simp [hnonnull, hfresh], hdistinct⟩
  | failed => exact hdistinct
  | ignored => exact hdistinct.erase_held _ _ rfl
  | @pooled pool held obj hmem =>
      have hperm : (pool.m_pool ++ [obj] ++ held.erase obj).Perm (pool.m_pool ++ held) := by
        rw [List.append_assoc]
        exact List.Perm.append_left _ (List.perm_cons_erase hmem).symm
      exact (hperm.cons _).nodup_iff.mpr hdistinct
  | deleted => exact hdistinct.erase_held _ _ rfl
  | cleared => exact hdistinct.sublist ((List.sublist_append_right _ _).cons_cons _)

/-- `acquire` does not return an object that is held. -/
theorem State.Distinct.acquire_not_held (hdistinct : s.Distinct) {fresh : Option Ptr} {obj : Ptr}
    (hfresh : s.Allocates fresh) (hobj : (s.pool.acquire fresh).2 = some obj) : obj ∉ s.held := by
  have hkept := (acquire_outcome hfresh).distinct hdistinct
  rw [State.Distinct, hobj] at hkept
  have hheld := ((List.nodup_cons.mp hkept).2.sublist (List.sublist_append_right _ _))
  exact (List.nodup_cons.mp hheld).1

/-! ### The bound and the counter -/

/-- The pool has not outgrown its bound. -/
def State.Bounded (initialSize maxSize : Nat) (s : State) : Prop :=
  s.pool.m_maxSize = maxSize ∧ (0 < maxSize → s.pool.m_pool.length ≤ max initialSize maxSize)

theorem Outcome.bounded {call : Call} (houtcome : Outcome s call next) {initialSize : Nat}
    (hbounded : s.Bounded initialSize maxSize) : next.Bounded initialSize maxSize := by
  obtain ⟨hmax, hbound⟩ := hbounded
  refine ⟨by cases houtcome <;> exact hmax, fun hpos => ?_⟩
  have hle := hbound hpos
  cases houtcome with
  | reused hback =>
      rw [hback, List.length_append] at hle
      exact Nat.le_of_add_right_le hle
  | pooled hmem hroom =>
      dsimp only at hmax hle ⊢
      rw [List.length_append, List.length_singleton]
      omega
  | cleared => exact Nat.zero_le _
  | allocated | failed | ignored | deleted => exact hle

/-- `m_allocated` counts the objects in the pool and in use. -/
def State.Counted (s : State) : Prop :=
  s.pool.m_allocated = s.pool.m_pool.length + s.held.length

theorem increment_of_lt {n : Nat} (hlt : n + 1 < 2 ^ 64) : increment n = n + 1 :=
  Nat.mod_eq_of_lt hlt

theorem increment_ne (n : Nat) : increment n ≠ n := by
  unfold increment
  omega

theorem decrement_succ (n : Nat) : decrement (n + 1) = n := by
  rw [decrement, if_neg (Nat.succ_ne_zero n), Nat.add_sub_cancel]

theorem erase_length {obj : Ptr} {held : List Ptr} (hmem : obj ∈ held) :
    held.length = (held.erase obj).length + 1 := by
  have hpos := List.length_pos_of_mem hmem
  rw [List.length_erase_of_mem hmem]
  omega

/-- The step lemma: exactly these calls keep the counter. -/
theorem Outcome.counted_iff {call : Call} (houtcome : Outcome s call next)
    (hdistinct : s.Distinct) (hcounted : s.Counted) :
    next.Counted ↔ CountsExactly s call := by
  have hkept := (houtcome.distinct hdistinct).length_lt
  cases houtcome with
  | reused hback =>
      refine iff_of_true ?_ (fun hnil => absurd (hback.symm.trans hnil) (List.concat_ne_nil _ _))
      rw [State.Counted, hback, List.length_append, List.length_singleton] at hcounted
      rw [State.Counted, List.length_cons, hcounted, Nat.add_assoc, Nat.add_comm 1]
  | allocated hnil =>
      refine iff_of_true ?_ (fun _ => Option.some_ne_none _)
      rw [List.length_cons, ← Nat.add_assoc] at hkept
      rw [State.Counted] at hcounted ⊢
      rw [hcounted, increment_of_lt hkept, List.length_cons, Nat.add_assoc]
  | failed hnil =>
      refine iff_of_false ?_ (fun hcounts => hcounts hnil rfl)
      rw [State.Counted] at hcounted ⊢
      rw [← hcounted]
      exact increment_ne _
  | ignored =>
      refine iff_of_true ?_ trivial
      rw [State.Counted, List.erase_of_not_mem hdistinct.nullptr_not_held]
      exact hcounted
  | pooled hmem =>
      refine iff_of_true ?_ trivial
      rw [State.Counted, erase_length hmem] at hcounted
      rw [State.Counted, hcounted, List.length_append, List.length_singleton, Nat.add_assoc,
        Nat.add_comm 1]
  | deleted hmem =>
      -- an object is held, so the counter is not zero
      refine iff_of_true ?_ trivial
      rw [State.Counted, erase_length hmem, ← Nat.add_assoc] at hcounted
      rw [State.Counted, hcounted, decrement_succ]
  | cleared =>
      rw [CountsExactly, State.Counted, List.length_nil, Nat.zero_add, eq_comm,
        List.length_eq_zero_iff]

/-! ### Every run -/

/-- What every call keeps, whatever happens to the counter. -/
structure Inv (initialSize maxSize : Nat) (s : State) : Prop where
  distinct : s.Distinct
  bounded : s.Bounded initialSize maxSize

theorem Inv.step {initialSize : Nat} {call : Call} (hinv : Inv initialSize maxSize s)
    (hstep : step s call = some next) : Inv initialSize maxSize next where
  distinct := (outcome_of_step hstep).distinct hinv.distinct
  bounded := (outcome_of_step hstep).bounded hinv.bounded

theorem Inv.accounted_iff {initialSize : Nat} (hinv : Inv initialSize maxSize s) :
    Accounted initialSize s ↔ s.Counted := by
  constructor
  · intro haccounted
    exact haccounted.allocated
  · intro hcounted
    refine ⟨hcounted, fun fresh obj => hinv.distinct.acquire_not_held, fun hpos => ?_⟩
    rw [hinv.bounded.1] at hpos ⊢
    exact hinv.bounded.2 hpos

theorem init_inv (hobjects : (nullptr :: objects).Nodup) :
    Inv objects.length maxSize (machine objects maxSize).init := by
  have hpool : (Pool.construct objects maxSize).m_pool = objects := Pool.preallocate_m_pool
  constructor
  · change (nullptr :: ((Pool.construct objects maxSize).m_pool ++ [])).Nodup
    rw [hpool, List.append_nil]
    exact hobjects
  · refine ⟨Pool.preallocate_m_maxSize, fun _ => ?_⟩
    change (Pool.construct objects maxSize).m_pool.length ≤ _
    rw [hpool]
    exact Nat.le_max_left _ _

theorem init_counted (hobjects : (nullptr :: objects).Nodup) :
    (machine objects maxSize).init.Counted := by
  have hlt := length_lt_of_nodup hobjects
  change (Pool.construct objects maxSize).m_allocated =
    (Pool.construct objects maxSize).m_pool.length + 0
  rw [Pool.construct, Pool.preallocate_m_pool, Pool.preallocate_m_allocated (by simpa using hlt)]
  simp

variable {exec : Execution (machine objects maxSize)}

theorem Execution.inv (hobjects : (nullptr :: objects).Nodup) {k : Nat} (hk : k ≤ exec.length) :
    Inv objects.length maxSize (exec.state k) :=
  (exec.reachable hk).invariant _ (init_inv hobjects) fun _ _ _ hinv hstep => hinv.step hstep

/-- **Accounting.**  In every run, the accounting holds after every call if and only if `clear`
is only called while no object is held and no allocation throws. -/
theorem accounted_iff_countsExactly (exec : Execution (machine objects maxSize))
    (hobjects : (nullptr :: objects).Nodup) :
    (∀ k, k ≤ exec.length → Accounted objects.length (exec.state k)) ↔
      exec.Allowed CountsExactly := by
  have hinv : ∀ k, k ≤ exec.length → Inv objects.length maxSize (exec.state k) :=
    fun k hk => Execution.inv hobjects hk
  constructor
  · intro haccounted k hk
    have hbefore := haccounted k (Nat.le_of_lt hk)
    have hafter := haccounted (k + 1) hk
    have houtcome := outcome_of_step (exec.steps k hk)
    exact (houtcome.counted_iff (hinv k (Nat.le_of_lt hk)).distinct hbefore.allocated).mp
      hafter.allocated
  · intro hallowed k hk
    refine (hinv k hk).accounted_iff.mpr ?_
    induction k with
    | zero =>
        rw [exec.starts]
        exact init_counted hobjects
    | succ k ih =>
        have hlt : k < exec.length := hk
        have hcounted := ih (Nat.le_of_lt hlt)
        have houtcome := outcome_of_step (exec.steps k hlt)
        exact (houtcome.counted_iff (hinv k (Nat.le_of_lt hlt)).distinct hcounted).mpr
          (hallowed k hlt)

instance : Inhabited Call := ⟨.clear⟩

/-- Two objects at first and a pool of one: an object is acquired, released into the full pool,
and the pool cleared. -/
def clearsWhenIdle : Execution (machine [1, 2] 1) :=
  Execution.ofActions _ [.acquire none, .release 2, .clear] (by decide +kernel)

theorem accounted_clearsWhenIdle :
    Accounted 2 (clearsWhenIdle.state 2) ∧ Accounted 2 (clearsWhenIdle.state 3) := by
  have hallowed : ∀ k, k < 3 →
      CountsExactly (clearsWhenIdle.state k) (clearsWhenIdle.action k) := by
    decide +kernel
  have haccounted := (accounted_iff_countsExactly clearsWhenIdle (by decide)).mpr hallowed
  exact ⟨haccounted 2 (by decide), haccounted 3 (by decide)⟩

/-- Two objects are in use when the pool is cleared; the second comes back to a full pool. -/
def clearsWhileHeld : Execution (machine [] 1) :=
  Execution.ofActions _ [.acquire (some 1), .acquire (some 2), .clear, .release 1, .release 2]
    (by decide +kernel)

/-- The counter wraps below zero. -/
theorem not_accounted_clearsWhileHeld :
    ¬ ∀ (exec : Execution (machine [] 1)) (k : Nat), k ≤ exec.length →
      Accounted 0 (exec.state k) := by
  intro haccounted
  have hallocated := (haccounted clearsWhileHeld 5 (Nat.le_refl 5)).allocated
  have hvalue : clearsWhileHeld.state 5 =
      { pool := { m_pool := [1], m_maxSize := 1, m_allocated := 2 ^ 64 - 1 }, held := [] } := by
    decide +kernel
  rw [hvalue] at hallocated
  exact absurd hallocated (by decide)

end MessageCenter.ObjectPool
