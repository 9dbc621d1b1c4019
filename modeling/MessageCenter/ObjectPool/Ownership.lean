import MessageCenter.ObjectPool.LockFree

/-!
# Exclusive ownership of pooled objects

The free list is a chain of live nodes without repetition, and the nodes on it,
the objects held by owners and the nodes that a call works on are pairwise
different.  The compare-exchange of `popFree` keeps this only if the `next`
pointer that it read is still the current one: nothing in the pool tells a head
that stayed from a head that was popped, reused and pushed back.
-/

namespace MessageCenter.ObjectPoolLockFree

open Concurrency Concurrency.LinkedChain

universe u

variable {Tid : Type u} {s : State Tid} {t : Tid} {free : List Addr}

/-- The node that a call works on: allocated but not yet handed to the caller,
or given back but not yet on the free list. -/
def PC.node : PC → Option Addr
  | .acquireCount node | .releaseLoad node | .releaseDelete node | .pushLoad node
  | .pushWriteNext node _ | .pushCas node _ => some node
  | _ => none

/-- The objects that have an owner. -/
def State.heldObjects (s : State Tid) : List Addr := s.held.map Prod.snd

/-- **Exclusive ownership** in one state. -/
structure Exclusive (s : State Tid) : Prop where
  /-- no object is held by two owners, or twice by one -/
  heldOnce : s.heldObjects.Nodup
  /-- no object that is held is reachable from `m_freeList` -/
  heldOff : ∀ obj ∈ s.heldObjects, ¬ Reaches s.next s.m_freeList obj
  /-- the free list ends, and no node occurs twice on it -/
  acyclic : ∃ nodes, ChainFrom s.next s.m_freeList nodes ∧ nodes.Nodup
  /-- a node whose `next` is about to be read by `popFree` has not been deleted
  since the pointer to it was loaded -/
  readLive : ∀ t node birth, s.pc t = .popReadNext node birth →
    s.live node = true ∧ s.births node = birth

/-- The ownership invariant; `free` is the free list. -/
structure Inv (s : State Tid) (free : List Addr) : Prop where
  chain : ChainFrom s.next s.m_freeList free
  freeOnce : free.Nodup
  freeLive : ∀ node ∈ free, s.live node = true
  heldOnce : s.heldObjects.Nodup
  heldLive : ∀ node ∈ s.heldObjects, s.live node = true ∧ node ∉ free
  workLive : ∀ t node, (s.pc t).node = some node →
    s.live node = true ∧ node ∉ free ∧ node ∉ s.heldObjects
  workOnce : ∀ first second node, (s.pc first).node = some node →
    (s.pc second).node = some node → first = second
  readLive : ∀ t node birth, s.pc t = .popReadNext node birth →
    s.live node = true ∧ s.births node = birth
  linked : ∀ t node oldHead, s.pc t = .pushCas node oldHead → s.next node = oldHead

theorem Inv.exclusive (hinv : Inv s free) : Exclusive s where
  heldOnce := hinv.heldOnce
  heldOff := by
    intro obj hmem hreach
    exact (hinv.heldLive obj hmem).2 (hinv.chain.reaches_iff.mp hreach)
  acyclic := ⟨free, hinv.chain, hinv.freeOnce⟩
  readLive := hinv.readLive

/-! ### The constructor -/

theorem construct_inv (size : Nat) :
    ∃ free, Inv (construct size : State Tid) free ∧ (∀ node ∈ free, node < size) ∧
      (construct size : State Tid).held = [] ∧ (construct size : State Tid).pc = fun _ => .idle := by
  induction size with
  | zero =>
      refine ⟨[], ?_, by simp, rfl, rfl⟩
      constructor <;> simp [construct, ChainFrom, State.heldObjects, PC.node]
  | succ size ih =>
      obtain ⟨free, hinv, hlt, hheld, hpc⟩ := ih
      have hfresh : size ∉ free := fun hmem => Nat.lt_irrefl _ (hlt size hmem)
      have hbound : ∀ node ∈ size :: free, node < size + 1 := by
        intro node hmem
        rcases List.mem_cons.mp hmem with rfl | hmem
        · exact Nat.lt_succ_self _
        · exact Nat.lt_succ_of_lt (hlt node hmem)
      refine ⟨size :: free, ⟨?_, List.nodup_cons.mpr ⟨hfresh, hinv.freeOnce⟩, ?_, ?_, ?_, ?_, ?_,
        ?_, ?_⟩, hbound, hheld, hpc⟩
      · exact (hinv.chain.update hfresh _).push (by simp)
      · intro node hmem
        rcases List.mem_cons.mp hmem with rfl | hmem
        · simp [construct]
        · have hne : node ≠ size := fun heq => hfresh (heq ▸ hmem)
          simpa [construct, hne] using hinv.freeLive node hmem
      all_goals simp [construct, State.heldObjects, hheld, hpc, PC.node]

/-! ### Steps that only move a program counter -/

variable [DecidableEq Tid]

@[simp] theorem State.goto_pc_self (pc : PC) : (s.goto t pc).pc t = pc := by
  simp [State.goto]

theorem State.goto_pc_other {other : Tid} (pc : PC) (hne : other ≠ t) :
    (s.goto t pc).pc other = s.pc other := by
  simp [State.goto, hne]

/-- After a step of `t`, a call at work is one that was at work before, or `t`. -/
theorem State.goto_pc_node {pc : PC} {other : Tid} {node : Addr}
    (hnode : ((s.goto t pc).pc other).node = some node) :
    (other = t ∧ pc.node = some node) ∨ (other ≠ t ∧ (s.pc other).node = some node) := by
  by_cases heq : other = t
  · subst heq
    rw [State.goto_pc_self] at hnode
    exact Or.inl ⟨rfl, hnode⟩
  · rw [State.goto_pc_other pc heq] at hnode
    exact Or.inr ⟨heq, hnode⟩

theorem Inv.goto (hinv : Inv s free) {pc : PC}
    (hnode : ∀ node, pc.node = some node → (s.pc t).node = some node)
    (hread : ∀ node birth, pc = .popReadNext node birth →
      s.live node = true ∧ s.births node = birth)
    (hlink : ∀ node oldHead, pc = .pushCas node oldHead → s.next node = oldHead) :
    Inv (s.goto t pc) free where
  chain := hinv.chain
  freeOnce := hinv.freeOnce
  freeLive := hinv.freeLive
  heldOnce := hinv.heldOnce
  heldLive := hinv.heldLive
  workLive := by
    intro other node hwork
    rcases State.goto_pc_node hwork with ⟨rfl, hpc⟩ | ⟨_, hpc⟩
    · exact hinv.workLive other node (hnode node hpc)
    · exact hinv.workLive other node hpc
  workOnce := by
    intro first second node hfirst hsecond
    rcases State.goto_pc_node hfirst with ⟨rfl, hpc⟩ | ⟨hne, hpc⟩ <;>
      rcases State.goto_pc_node hsecond with ⟨rfl, hpc'⟩ | ⟨hne', hpc'⟩
    · rfl
    · exact absurd (hinv.workOnce _ _ node (hnode node hpc) hpc').symm hne'
    · exact absurd (hinv.workOnce _ _ node hpc (hnode node hpc')) hne
    · exact hinv.workOnce first second node hpc hpc'
  readLive := by
    intro other node birth hpc
    by_cases heq : other = t
    · subst heq
      rw [State.goto_pc_self] at hpc
      exact hread node birth hpc
    · rw [State.goto_pc_other pc heq] at hpc
      exact hinv.readLive other node birth hpc
  linked := by
    intro other node oldHead hpc
    by_cases heq : other = t
    · subst heq
      rw [State.goto_pc_self] at hpc
      exact hlink node oldHead hpc
    · rw [State.goto_pc_other pc heq] at hpc
      exact hinv.linked other node oldHead hpc

/-- A call that ends, or that takes up no node and reads no pointer. -/
theorem Inv.goto_plain (hinv : Inv s free) {pc : PC} (hnode : pc.node = none)
    (hread : ∀ node birth, pc ≠ .popReadNext node birth) : Inv (s.goto t pc) free := by
  refine hinv.goto ?_ (fun node birth heq => absurd heq (hread node birth)) ?_
  · intro node hsome
    rw [hnode] at hsome
    cases hsome
  · rintro node oldHead rfl
    cases hnode

/-- The head that `popFree` has just loaded is live. -/
theorem Inv.popLoop (hinv : Inv s free) : Inv (s.popLoop t s.m_freeList) free := by
  cases hhead : s.m_freeList with
  | none => exact hinv.goto_plain rfl (by simp)
  | some oldHead =>
      refine hinv.goto (by simp [PC.node]) ?_ (by simp)
      intro node birth heq
      obtain ⟨rfl, rfl⟩ := (PC.popReadNext.injEq ..).mp heq
      have hchain := hinv.chain
      rw [hhead, chainFrom_some] at hchain
      obtain ⟨rest, rfl, _⟩ := hchain
      exact ⟨hinv.freeLive _ (List.mem_cons_self ..), rfl⟩

/-! ### Steps that move one node -/

/-- **One node changes its place.**  A step of `t` that touches the role of
`node` only, and leaves every other node where it was, keeps the invariant if
`node` has at most one role afterwards. -/
theorem Inv.moveNode (hinv : Inv s free) {next : State Tid} (node : Addr) {pc : PC}
    {free' : List Addr} (hpc : next.pc = Function.update s.pc t pc)
    (hchain : ChainFrom next.next next.m_freeList free') (hfreeOnce : free'.Nodup)
    (hheldOnce : next.heldObjects.Nodup)
    (hfree : ∀ other ∈ free', other ≠ node → other ∈ free)
    (hheld : ∀ other ∈ next.heldObjects, other ≠ node → other ∈ s.heldObjects)
    (hsame : ∀ other, other ≠ node → next.live other = s.live other ∧
      next.births other = s.births other ∧ next.next other = s.next other)
    (hthreads : ∀ other, other ≠ t → (s.pc other).node ≠ some node)
    (hnew : pc.node = none ∨ pc.node = some node)
    (hread : ∀ other birth, s.pc other = .popReadNext node birth →
      next.live node = true ∧ next.births node = birth)
    (hplain : ∀ other birth, pc ≠ .popReadNext other birth)
    (hlink : ∀ oldHead, pc = .pushCas node oldHead → next.next node = oldHead)
    (hlive : node ∈ free' ∨ node ∈ next.heldObjects ∨ pc.node = some node →
      next.live node = true)
    (honeFree : node ∈ free' → node ∉ next.heldObjects ∧ pc.node ≠ some node)
    (honeHeld : node ∈ next.heldObjects → pc.node ≠ some node) : Inv next free' := by
  have hself : next.pc t = pc := by simp [hpc]
  have hother : ∀ other, other ≠ t → next.pc other = s.pc other := by
    intro other hne
    simp [hpc, hne]
  -- a node at work afterwards is `node` in the hands of `t`, or as before
  have hwork : ∀ other work, (next.pc other).node = some work →
      (other = t ∧ work = node ∧ pc.node = some node) ∨
        (other ≠ t ∧ work ≠ node ∧ (s.pc other).node = some work) := by
    intro other work hnode
    by_cases heq : other = t
    · subst heq
      rw [hself] at hnode
      rcases hnew with hnone | hsome
      · rw [hnone] at hnode
        cases hnode
      · rw [hsome] at hnode
        exact Or.inl ⟨rfl, (Option.some.inj hnode).symm, hsome⟩
    · rw [hother other heq] at hnode
      refine Or.inr ⟨heq, ?_, hnode⟩
      rintro rfl
      exact hthreads other heq hnode
  refine ⟨hchain, hfreeOnce, ?_, hheldOnce, ?_, ?_, ?_, ?_, ?_⟩
  · intro other hmem
    by_cases heq : other = node
    · exact heq ▸ hlive (Or.inl (heq ▸ hmem))
    · rw [(hsame other heq).1]
      exact hinv.freeLive other (hfree other hmem heq)
  · intro other hmem
    by_cases heq : other = node
    · subst heq
      exact ⟨hlive (Or.inr (Or.inl hmem)), fun hfreeMem => (honeFree hfreeMem).1 hmem⟩
    · obtain ⟨hliveOther, hoff⟩ := hinv.heldLive other (hheld other hmem heq)
      rw [(hsame other heq).1]
      exact ⟨hliveOther, fun hfreeMem => hoff (hfree other hfreeMem heq)⟩
  · intro other work hnode
    rcases hwork other work hnode with ⟨_, rfl, hsome⟩ | ⟨_, hne, hold⟩
    · exact ⟨hlive (Or.inr (Or.inr hsome)), fun hmem => (honeFree hmem).2 hsome,
        fun hmem => honeHeld hmem hsome⟩
    · obtain ⟨hliveWork, hoff, hnotHeld⟩ := hinv.workLive other work hold
      rw [(hsame work hne).1]
      exact ⟨hliveWork, fun hmem => hoff (hfree work hmem hne),
        fun hmem => hnotHeld (hheld work hmem hne)⟩
  · intro first second work hfirst hsecond
    rcases hwork first work hfirst with ⟨rfl, rfl, _⟩ | ⟨_, hne, hold⟩ <;>
      rcases hwork second _ hsecond with ⟨rfl, hwork', _⟩ | ⟨_, hne', hold'⟩
    · rfl
    · exact absurd rfl hne'
    · exact absurd hwork' hne
    · exact hinv.workOnce first second work hold hold'
  · intro other read birth hreads
    have hne : other ≠ t := by
      rintro rfl
      exact hplain read birth (hself.symm.trans hreads)
    rw [hother other hne] at hreads
    by_cases heq : read = node
    · subst heq
      exact hread other birth hreads
    · rw [(hsame read heq).1, (hsame read heq).2.1]
      exact hinv.readLive other read birth hreads
  · intro other work oldHead hcas
    have hnode : (next.pc other).node = some work := by rw [hcas]; rfl
    rcases hwork other work hnode with ⟨rfl, rfl, _⟩ | ⟨hne, hneWork, _⟩
    · exact hlink oldHead (hself.symm.trans hcas)
    · rw [hother other hne] at hcas
      rw [(hsame work hneWork).2.2]
      exact hinv.linked other work oldHead hcas

omit [DecidableEq Tid] in
/-- The node that `t` works on is not worked on by another thread. -/
theorem Inv.work_unique (hinv : Inv s free) {node : Addr} (hnode : (s.pc t).node = some node) :
    ∀ other, other ≠ t → (s.pc other).node ≠ some node :=
  fun other hne hother => hne (hinv.workOnce other t node hother hnode)

omit [DecidableEq Tid] in
/-- `m_allocated` decides only whether a released node is kept. -/
theorem Inv.setAllocated (hinv : Inv s free) (count : Nat) :
    Inv { s with m_allocated := count } free :=
  ⟨hinv.chain, hinv.freeOnce, hinv.freeLive, hinv.heldOnce, hinv.heldLive, hinv.workLive,
    hinv.workOnce, hinv.readLive, hinv.linked⟩

omit [DecidableEq Tid] in
theorem State.heldObjects_cons {next : State Tid} {obj : Addr}
    (hheld : next.held = (t, obj) :: s.held) : next.heldObjects = obj :: s.heldObjects := by
  simp [State.heldObjects, hheld]

/-- The objects left when `obj` is taken from its owner are the others. -/
theorem Inv.mem_erase_held (hinv : Inv s free) {obj other : Addr} (hmem : (t, obj) ∈ s.held) :
    other ∈ (s.held.erase (t, obj)).map Prod.snd ↔ other ≠ obj ∧ other ∈ s.heldObjects := by
  have hperm : s.heldObjects.Perm (obj :: (s.held.erase (t, obj)).map Prod.snd) :=
    (List.perm_cons_erase hmem).map Prod.snd
  have hnodup := hperm.nodup_iff.mp hinv.heldOnce
  rw [hperm.mem_iff, List.mem_cons]
  constructor
  · intro hother
    refine ⟨?_, Or.inr hother⟩
    rintro rfl
    exact (List.nodup_cons.mp hnodup).1 hother
  · rintro ⟨hne, heq | hother⟩
    · exact absurd heq hne
    · exact hother

/-- `release` takes the object from its owner. -/
theorem Inv.giveBack (hinv : Inv s free) {node : Addr} (hmem : (t, node) ∈ s.held) :
    Inv { s.goto t (.releaseLoad node) with held := s.held.erase (t, node) } free := by
  have hobj : node ∈ s.heldObjects := List.mem_map.mpr ⟨(t, node), hmem, rfl⟩
  obtain ⟨hlive, hoff⟩ := hinv.heldLive node hobj
  refine hinv.moveNode node rfl hinv.chain hinv.freeOnce ?_ (fun _ hfree _ => hfree) ?_
    (fun _ _ => ⟨rfl, rfl, rfl⟩) ?_ (Or.inr rfl) ?_ (by simp) (by simp) (fun _ => hlive) ?_ ?_
  · exact hinv.heldOnce.sublist (List.erase_sublist.map _)
  · intro other hother _
    exact ((hinv.mem_erase_held hmem).mp hother).2
  · intro other _ hnode
    exact (hinv.workLive other node hnode).2.2 hobj
  · exact fun other birth => hinv.readLive other node birth
  · exact fun hfree => absurd hfree hoff
  · exact fun hheld => absurd rfl ((hinv.mem_erase_held hmem).mp hheld).1

/-- The compare-exchange of `popFree`, when `newHead` is still what follows the head. -/
theorem Inv.popHead (hinv : Inv s free) {oldHead : Addr} {newHead : Option Addr}
    (hhead : s.m_freeList = some oldHead) (hnext : s.next oldHead = newHead) :
    ∃ rest, Inv { s.goto t .idle with m_freeList := newHead, held := (t, oldHead) :: s.held }
      rest := by
  have hchain := hinv.chain
  rw [hhead, chainFrom_some, hnext] at hchain
  obtain ⟨rest, rfl, hrest⟩ := hchain
  have honce := List.nodup_cons.mp hinv.freeOnce
  have hmem : oldHead ∈ oldHead :: rest := List.mem_cons_self ..
  have hlive := hinv.freeLive oldHead hmem
  have hnotHeld : oldHead ∉ s.heldObjects := fun hheld => (hinv.heldLive oldHead hheld).2 hmem
  refine ⟨rest, hinv.moveNode oldHead rfl hrest honce.2 ?_
    (fun _ hfree _ => List.mem_cons_of_mem _ hfree) ?_ (fun _ _ => ⟨rfl, rfl, rfl⟩) ?_
    (Or.inl rfl) ?_ (by simp) (by simp) (fun _ => hlive) ?_ (by simp [PC.node])⟩
  · rw [State.heldObjects_cons rfl]
    exact List.nodup_cons.mpr ⟨hnotHeld, hinv.heldOnce⟩
  · intro other hother hne
    rw [State.heldObjects_cons rfl] at hother
    exact (List.mem_cons.mp hother).resolve_left hne
  · intro other _ hnode
    exact (hinv.workLive other oldHead hnode).2.1 hmem
  · exact fun other birth => hinv.readLive other oldHead birth
  · exact fun hfree => absurd hfree honce.1

omit [DecidableEq Tid] in
/-- A node in no role: not on the free list, not held, not at work. -/
theorem Inv.fresh_of_dead (hinv : Inv s free) {node : Addr} (hdead : s.live node = false) :
    node ∉ free ∧ node ∉ s.heldObjects ∧ ∀ t, (s.pc t).node ≠ some node := by
  refine ⟨fun hmem => ?_, fun hmem => ?_, fun t hnode => ?_⟩
  · simp [hinv.freeLive node hmem] at hdead
  · simp [(hinv.heldLive node hmem).1] at hdead
  · simp [(hinv.workLive t node hnode).1] at hdead

/-- `new Node()` returns an address that is in no role. -/
theorem Inv.alloc (hinv : Inv s free) {node : Addr} (hdead : s.live node = false) :
    Inv { s.goto t (.acquireCount node) with
      next := Function.update s.next node none
      live := Function.update s.live node true
      births := Function.update s.births node (s.births node + 1) } free := by
  obtain ⟨hoff, hnotHeld, hnotWork⟩ := hinv.fresh_of_dead hdead
  refine hinv.moveNode node rfl (hinv.chain.update hoff none) hinv.freeOnce hinv.heldOnce
    (fun _ hfree _ => hfree) (fun _ hheld _ => hheld) ?_ (fun other _ => hnotWork other)
    (Or.inr rfl) ?_ (by simp) (by simp) (by simp) (fun hfree => absurd hfree hoff)
    (fun hheld => absurd hheld hnotHeld)
  · intro other hne
    simp [hne]
  · intro other birth hread
    have hlive := (hinv.readLive other node birth hread).1
    rw [hdead] at hlive
    cases hlive

/-- `acquire` hands the new node to its caller. -/
theorem Inv.acquireNew (hinv : Inv s free) {node : Addr} (hpc : s.pc t = .acquireCount node)
    (count : Nat) :
    Inv { s.goto t .idle with m_allocated := count, held := (t, node) :: s.held } free := by
  have hnode : (s.pc t).node = some node := by rw [hpc]; rfl
  obtain ⟨hlive, hoff, hnotHeld⟩ := hinv.workLive t node hnode
  refine hinv.moveNode node rfl hinv.chain hinv.freeOnce ?_ (fun _ hfree _ => hfree) ?_
    (fun _ _ => ⟨rfl, rfl, rfl⟩) (hinv.work_unique hnode) (Or.inl rfl) ?_ (by simp) (by simp)
    (fun _ => hlive) (fun hfree => absurd hfree hoff) (by simp [PC.node])
  · rw [State.heldObjects_cons rfl]
    exact List.nodup_cons.mpr ⟨hnotHeld, hinv.heldOnce⟩
  · intro other hother hne
    rw [State.heldObjects_cons rfl] at hother
    exact (List.mem_cons.mp hother).resolve_left hne
  · exact fun other birth => hinv.readLive other node birth

/-- `delete node`, when no other thread is about to read its `next`. -/
theorem Inv.delete (hinv : Inv s free) {node : Addr} (hpc : s.pc t = .releaseDelete node)
    (hread : ∀ other birth, s.pc other ≠ .popReadNext node birth) :
    Inv { s.goto t .releaseCount with live := Function.update s.live node false } free := by
  have hnode : (s.pc t).node = some node := by rw [hpc]; rfl
  obtain ⟨_, hoff, hnotHeld⟩ := hinv.workLive t node hnode
  refine hinv.moveNode node rfl hinv.chain hinv.freeOnce hinv.heldOnce
    (fun _ hfree _ => hfree) (fun _ hheld _ => hheld) ?_ (hinv.work_unique hnode) (Or.inl rfl)
    (fun other birth hpc => absurd hpc (hread other birth)) (by simp) (by simp) ?_
    (fun hfree => absurd hfree hoff) (by simp [PC.node])
  · intro other hne
    simp [State.goto, hne]
  · rintro (hfree | hheld | hwork)
    · exact absurd hfree hoff
    · exact absurd hheld hnotHeld
    · cases hwork

/-- `node->next = oldHead` writes to a node that is not on the free list. -/
theorem Inv.writeNext (hinv : Inv s free) {node : Addr} {oldHead : Option Addr}
    (hpc : s.pc t = .pushWriteNext node oldHead) :
    Inv { s.goto t (.pushCas node oldHead) with next := Function.update s.next node oldHead }
      free := by
  have hnode : (s.pc t).node = some node := by rw [hpc]; rfl
  obtain ⟨hlive, hoff, hnotHeld⟩ := hinv.workLive t node hnode
  refine hinv.moveNode node rfl (hinv.chain.update hoff oldHead) hinv.freeOnce
    hinv.heldOnce (fun _ hfree _ => hfree) (fun _ hheld _ => hheld) ?_ (hinv.work_unique hnode)
    (Or.inr rfl) (fun other birth => hinv.readLive other node birth) (by simp) ?_
    (fun _ => hlive) (fun hfree => absurd hfree hoff) (fun hheld => absurd hheld hnotHeld)
  · intro other hne
    simp [State.goto, hne]
  · intro head heq
    simpa using heq

/-- The compare-exchange of `pushFree`. -/
theorem Inv.pushHead (hinv : Inv s free) {node : Addr} {oldHead : Option Addr}
    (hpc : s.pc t = .pushCas node oldHead) (hhead : s.m_freeList = oldHead) :
    Inv { s.goto t .idle with m_freeList := some node } (node :: free) := by
  have hnode : (s.pc t).node = some node := by rw [hpc]; rfl
  obtain ⟨hlive, hoff, hnotHeld⟩ := hinv.workLive t node hnode
  have hlink := hinv.linked t node oldHead hpc
  refine hinv.moveNode node rfl (hinv.chain.push (hlink.trans hhead.symm))
    (List.nodup_cons.mpr ⟨hoff, hinv.freeOnce⟩) hinv.heldOnce ?_ (fun _ hheld _ => hheld)
    (fun _ _ => ⟨rfl, rfl, rfl⟩) (hinv.work_unique hnode) (Or.inl rfl)
    (fun other birth => hinv.readLive other node birth) (by simp) (by simp) (fun _ => hlive)
    (fun _ => ⟨hnotHeld, by simp [PC.node]⟩) (by simp [PC.node])
  intro other hother hne
  exact (List.mem_cons.mp hother).resolve_left hne

/-- An owner passes an object on. -/
theorem Inv.handOver (hinv : Inv s free) {receiver : Tid} {obj : Addr}
    (hmem : (t, obj) ∈ s.held) :
    Inv { s with held := (receiver, obj) :: s.held.erase (t, obj) } free := by
  have hperm : s.heldObjects.Perm (obj :: (s.held.erase (t, obj)).map Prod.snd) :=
    (List.perm_cons_erase hmem).map Prod.snd
  refine ⟨hinv.chain, hinv.freeOnce, hinv.freeLive, hperm.nodup_iff.mp hinv.heldOnce, ?_, ?_,
    hinv.workOnce, hinv.readLive, hinv.linked⟩
  · exact fun other hother => hinv.heldLive other (hperm.mem_iff.mpr hother)
  · intro other node hnode
    obtain ⟨hlive, hoff, hnotHeld⟩ := hinv.workLive other node hnode
    exact ⟨hlive, hoff, fun hheld => hnotHeld (hperm.mem_iff.mpr hheld)⟩

/-! ### Every step that is not stale keeps the invariant -/

/-- The compare-exchange of `popFree` does not succeed on a head whose `next`
changed since it was read, and `release` does not delete a node whose `next`
another `popFree` is about to read. -/
def NoStalePop (s : State Tid) : Action Tid → Prop
  | .run t spurious =>
      match s.pc t with
      | .popCas oldHead newHead =>
          s.m_freeList = some oldHead → spurious = false → s.next oldHead = newHead
      | .releaseDelete node => ∀ other birth, s.pc other ≠ .popReadNext node birth
      | _ => True
  | _ => True

theorem Inv.runThread {maxSize : Nat} {next : State Tid} {spurious : Bool} (hinv : Inv s free)
    (hallowed : NoStalePop s (.run t spurious))
    (hstep : runThread maxSize s t spurious = some next) : ∃ free', Inv next free' := by
  unfold ObjectPoolLockFree.runThread at hstep
  unfold NoStalePop at hallowed
  cases hpc : s.pc t with
  | idle | acquireNew => simp [hpc] at hstep
  | popLoad =>
      simp only [hpc, Option.some.injEq] at hstep
      exact ⟨free, hstep ▸ hinv.popLoop⟩
  | popReadNext oldHead birth =>
      simp only [hpc, Option.some.injEq] at hstep
      exact ⟨free, hstep ▸ hinv.goto_plain rfl (by simp)⟩
  | popCas oldHead newHead =>
      simp only [hpc] at hstep hallowed
      split at hstep <;> rw [Option.some.injEq] at hstep <;> subst hstep
      · rename_i hcas
        exact hinv.popHead hcas.1 (hallowed hcas.1 hcas.2)
      · exact ⟨free, hinv.popLoop⟩
  | acquireCount node =>
      simp only [hpc, Option.some.injEq] at hstep
      exact ⟨free, hstep ▸ hinv.acquireNew hpc _⟩
  | releaseLoad node =>
      have hkeep : ∀ pc : PC, pc.node = some node → (∀ other birth, pc ≠ .popReadNext other birth) →
          (∀ other oldHead, pc ≠ .pushCas other oldHead) → Inv (s.goto t pc) free := by
        intro pc hnode hread hcas
        refine hinv.goto ?_ (fun other birth heq => absurd heq (hread other birth))
          (fun other oldHead heq => absurd heq (hcas other oldHead))
        intro other hother
        rw [← hother, hnode, hpc]
        rfl
      simp only [hpc] at hstep
      split at hstep <;> rw [Option.some.injEq] at hstep <;> subst hstep
      · exact ⟨free, hkeep _ rfl (by simp) (by simp)⟩
      · exact ⟨free, hkeep _ rfl (by simp) (by simp)⟩
  | releaseDelete node =>
      simp only [hpc, Option.some.injEq] at hstep hallowed
      exact ⟨free, hstep ▸ hinv.delete hpc hallowed⟩
  | releaseCount =>
      simp only [hpc, Option.some.injEq] at hstep
      exact ⟨free, hstep ▸ (hinv.goto_plain rfl (by simp)).setAllocated _⟩
  | pushLoad node =>
      simp only [hpc, Option.some.injEq] at hstep
      exact ⟨free, hstep ▸ hinv.goto (by simp [hpc, PC.node]) (by simp) (by simp)⟩
  | pushWriteNext node oldHead =>
      simp only [hpc, Option.some.injEq] at hstep
      exact ⟨free, hstep ▸ hinv.writeNext hpc⟩
  | pushCas node oldHead =>
      simp only [hpc] at hstep
      split at hstep <;> rw [Option.some.injEq] at hstep <;> subst hstep
      · rename_i hcas
        exact ⟨node :: free, hinv.pushHead hpc hcas.1⟩
      · exact ⟨free, hinv.goto (by simp [hpc, PC.node]) (by simp) (by simp)⟩

theorem Inv.step {maxSize : Nat} {next : State Tid} {action : Action Tid} (hinv : Inv s free)
    (hallowed : NoStalePop s action) (hstep : step maxSize s action = some next) :
    ∃ free', Inv next free' := by
  cases action with
  | run t spurious => exact hinv.runThread hallowed hstep
  | callAcquire t =>
      simp only [ObjectPoolLockFree.step] at hstep
      split at hstep
      · exact ⟨free, Option.some.inj hstep ▸ hinv.goto_plain rfl (by simp)⟩
      · cases hstep
  | callRelease t obj =>
      simp only [ObjectPoolLockFree.step] at hstep
      split at hstep
      · exact ⟨free, Option.some.inj hstep ▸ hinv⟩
      · split at hstep
        · rename_i hmem
          exact ⟨free, Option.some.inj hstep ▸ hinv.giveBack hmem⟩
        · cases hstep
      · cases hstep
  | alloc t node =>
      simp only [ObjectPoolLockFree.step] at hstep
      split at hstep
      · split at hstep
        · rename_i hdead
          exact ⟨free, Option.some.inj hstep ▸ hinv.alloc hdead⟩
        · cases hstep
      · cases hstep
  | handOver owner receiver obj =>
      simp only [ObjectPoolLockFree.step] at hstep
      split at hstep
      · rename_i hmem
        exact ⟨free, Option.some.inj hstep ▸ hinv.handOver hmem⟩
      · cases hstep

/-! ### The contract of the pool -/

/-- **Exclusive ownership.**  In a run of any threads in which no stale pop
happens, every state reached has exclusive ownership. -/
theorem reachable_exclusive {initialSize maxSize : Nat}
    (hreach : (machine Tid initialSize maxSize).ReachableUnder NoStalePop s) : Exclusive s := by
  have hall : ∃ free, Inv s free := by
    refine hreach.invariant (fun s => ∃ free, Inv s free) ?_ ?_
    · obtain ⟨free, hinv, _⟩ := construct_inv initialSize
      exact ⟨free, hinv⟩
    · rintro state next action ⟨free, hinv⟩ hallowed hstep
      exact hinv.step hallowed hstep
  obtain ⟨free, hinv⟩ := hall
  exact hinv.exclusive

/-- Both threads take an object, give it back and take the one of the other; in either
race `false` loses a compare-exchange. -/
def exchanged : List (Action Bool) :=
  [.callAcquire true, .callAcquire false, .run true false, .run false false, .run true false,
    .run false false, .run true false, .run false false, .run false false, .run false false,
    .callRelease true (some 1), .callRelease false (some 0), .run true false, .run false false,
    .run true false, .run false false, .run true false, .run false false, .run true false,
    .run false false, .run false false, .run false false,
    .callAcquire true, .run true false, .run true false, .run true false,
    .callAcquire false, .run false false, .run false false, .run false false]

/-- A compare-exchange that succeeds meets the `next` that was read, and nothing is deleted. -/
def popsCurrent (s : State Bool) : Action Bool → Bool
  | .run t spurious =>
      match s.pc t with
      | .popCas oldHead newHead =>
          decide (s.m_freeList = some oldHead → spurious = false → s.next oldHead = newHead)
      | .releaseDelete _ => false
      | _ => true
  | _ => true

theorem noStalePop_of_popsCurrent {s : State Bool} {action : Action Bool}
    (hcheck : popsCurrent s action = true) : NoStalePop s action := by
  unfold NoStalePop
  split
  · next t spurious =>
    split
    · next oldHead newHead hpc =>
      simp only [popsCurrent, hpc] at hcheck
      exact of_decide_eq_true hcheck
    · next node hpc => simp [popsCurrent, hpc] at hcheck
    · trivial
  · trivial

theorem reachable_exclusive_exchanged :
    ∃ s : State Bool, Exclusive s ∧ s.held = [(false, 1), (true, 0)] := by
  obtain ⟨s, hreach, hheld⟩ := Machine.exists_reachableUnder_of_run (machine Bool 2 16384)
    popsCurrent (fun _ _ => noStalePop_of_popsCurrent) exchanged
    (fun s => decide (s.held = [(false, 1), (true, 0)])) (by decide)
  exact ⟨s, reachable_exclusive hreach, of_decide_eq_true hheld⟩

/-- Thread `false` reads the head 1 and its `next` 0; thread `true` takes both
objects and gives 1 back; the compare-exchange of `false` then puts 0 on the free
list, and `false` takes it a second time. -/
def headComesBack : List (Action Bool) :=
  [.callAcquire false, .run false false, .run false false,
   .callAcquire true, .run true false, .run true false, .run true false,
   .callAcquire true, .run true false, .run true false, .run true false,
   .callRelease true (some 1), .run true false, .run true false, .run true false,
   .run true false,
   .run false false,
   .callAcquire false, .run false false, .run false false, .run false false]

/-- A pool of two objects used by two threads gives one object to both. -/
theorem headComesBack_not_exclusive :
    ¬ ∀ s, (machine Bool 2 16384).Reachable s → Exclusive s := by
  intro hall
  obtain ⟨s, hreach, hheld⟩ := Machine.exists_reachable_of_run
    (machine Bool 2 16384) headComesBack
    (fun s => s.held == [(false, 0), (false, 1), (true, 0)]) (by decide)
  have hheld : s.held = [(false, 0), (false, 1), (true, 0)] := by simpa using hheld
  have honce := (hall s hreach).heldOnce
  rw [State.heldObjects, hheld] at honce
  revert honce
  decide

end MessageCenter.ObjectPoolLockFree
