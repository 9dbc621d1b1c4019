import MessageCenter.MpmcQueue.Preservation

/-!
# How often the loops of the ring go round

`try_push` and `try_pop` have the same loop on opposite sides of the ring: `m_tail` and
the claims of pushes, `m_head` and the claims of pops.  A watch beside each call keeps its
local position, the retries made so far, and how many claims there were at the call; a
compare-exchange that fails although the counter is at the local position is spurious and
not counted.  No step reads the watches.

A retry finds the counter ahead of the local position, so each one is paid for by a claim
of another thread.
-/

namespace MessageCenter.MPMCQueue

open Concurrency Concurrency.PositionLog

universe u v

variable {Tid : Type u} {T : Type v} {k : Nat}

/-! ### A slot ahead of the local position -/

variable {s : State Tid T}

/-- The slot of `m_tail` is not ahead of it. -/
theorem Inv.seq_le_tail (hinv : Inv (2 ^ k) s) : (s.slot (2 ^ k) s.m_tail).seq ≤ s.m_tail := by
  have hcap : 0 < 2 ^ k := Nat.two_pow_pos k
  have htailLe := hinv.tail_le
  have hheadLe := hinv.head_le_tail
  by_cases hfull : s.m_tail = s.m_head + 2 ^ k
  · have hslot : s.slot (2 ^ k) s.m_tail = s.slot (2 ^ k) s.m_head := by
      rw [State.slot, hfull, slotIndex_add_capacity]
      rfl
    rw [hslot]
    rcases hinv.occupied s.m_head (Nat.le_refl _) (by omega) with ⟨hseq, -⟩ | ⟨hseq, -⟩ <;> omega
  · rcases hinv.vacant s.m_tail (Nat.le_refl _) (by omega) with hseq | ⟨before, other, heq, hpop⟩
    · exact Nat.le_of_eq hseq
    · have hbefore := (hinv.popping_spec hpop).2.2.1
      rw [← heq, State.slot, slotIndex_add_capacity, ← State.slot]
      omega

/-- The slot of `m_head` is not ahead of a published one. -/
theorem Inv.seq_le_head (hinv : Inv (2 ^ k) s) :
    (s.slot (2 ^ k) s.m_head).seq ≤ s.m_head + 1 := by
  have hcap : 0 < 2 ^ k := Nat.two_pow_pos k
  have hheadLe := hinv.head_le_tail
  by_cases hempty : s.m_head < s.m_tail
  · rcases hinv.occupied s.m_head (Nat.le_refl _) hempty with ⟨hseq, -⟩ | ⟨hseq, -⟩ <;> omega
  · rcases hinv.vacant s.m_head (by omega) (by omega) with hseq | ⟨before, other, heq, hpop⟩
    · omega
    · have hbefore := (hinv.popping_spec hpop).2.2.1
      rw [← heq, State.slot, slotIndex_add_capacity, ← State.slot]
      omega

/-- `diff > 0` in `try_push` -/
theorem Inv.lt_tail_of_ahead (hinv : Inv (2 ^ k) s) {tail : Nat} (hle : tail ≤ s.m_tail)
    (hahead : tail < (s.slot (2 ^ k) tail).seq) : tail < s.m_tail := by
  refine Nat.lt_of_le_of_ne hle ?_
  rintro rfl
  exact Nat.not_lt.mpr hinv.seq_le_tail hahead

/-- `diff > 0` in `try_pop` -/
theorem Inv.lt_head_of_ahead (hinv : Inv (2 ^ k) s) {head : Nat} (hle : head ≤ s.m_head)
    (hahead : head + 1 < (s.slot (2 ^ k) head).seq) : head < s.m_head := by
  refine Nat.lt_of_le_of_ne hle ?_
  rintro rfl
  exact Nat.not_lt.mpr hinv.seq_le_head hahead

/-! ### The two sides -/

inductive Side where
  | push
  | pop
deriving DecidableEq, Repr

/-- The side of the call that a thread is in. -/
def PC.side : PC T → Option Side
  | .idle => none
  | .pushLoadTail _ | .pushLoadSeq _ _ | .pushCas _ _ | .pushWrite _ _ | .pushStore _ _
  | .pushReturned _ => some .push
  | .popLoadHead | .popLoadSeq _ | .popCas _ | .popRead _ | .popStore _ _
  | .popReturned _ => some .pop

/-- The side of a call that is in its loop, with the local position unless it is about
to be loaded. -/
def PC.loop? : PC T → Option (Side × Option Nat)
  | .pushLoadTail _ => some (.push, none)
  | .pushLoadSeq _ tail | .pushCas _ tail => some (.push, some tail)
  | .popLoadHead => some (.pop, none)
  | .popLoadSeq head | .popCas head => some (.pop, some head)
  | .idle | .pushWrite _ _ | .pushStore _ _ | .pushReturned _ | .popRead _ | .popStore _ _
  | .popReturned _ => none

theorem PC.side_of_loop {pc : PC T} {side : Side} {local? : Option Nat}
    (hloop : pc.loop? = some (side, local?)) : pc.side = some side := by
  cases pc <;> simp_all [PC.loop?, PC.side]

/-- `m_tail`, `m_head` -/
def State.counter (s : State Tid T) : Side → Nat
  | .push => s.m_tail
  | .pop => s.m_head

/-- The threads of the successful claims, in order. -/
def State.claimants (s : State Tid T) : Side → List Tid
  | .push => s.pushClaims.map PushClaim.thread
  | .pop => s.popClaims.map PopClaim.thread

/-! ### Watches -/

/-- `position` is the local `tail` or `head` of the call, once loaded. -/
structure Watch where
  position : Option Nat
  retries : Nat
  since : Nat
deriving DecidableEq, Repr

/-- The local position is loaded, after the first time for another turn. -/
def Watch.load (w : Watch) (position : Nat) : Watch :=
  { w with
    position := some position
    retries := if w.position = none then w.retries else w.retries + 1 }

structure Watched (Tid : Type u) (T : Type v) where
  ring : State Tid T
  watch : Tid → Watch

/-- What the next step of `t` does to its watch; a compare-exchange that finds the
counter at the local position succeeds or fails for no reason. -/
def observe (s : State Tid T) (t : Tid) (w : Watch) : Watch :=
  match s.pc t with
  | .pushLoadTail _ => w.load s.m_tail
  | .pushCas _ tail => if s.m_tail = tail then w else w.load s.m_tail
  | .popLoadHead => w.load s.m_head
  | .popCas head => if s.m_head = head then w else w.load s.m_head
  | _ => w

section
variable [DecidableEq Tid]

def observeAction (s : Watched Tid T) : Action Tid T → Tid → Watch
  | .callPush t _ => Function.update s.watch t ⟨none, 0, (s.ring.claimants .push).length⟩
  | .callPop t => Function.update s.watch t ⟨none, 0, (s.ring.claimants .pop).length⟩
  | .run t _ => Function.update s.watch t (observe s.ring t (s.watch t))
  | .ret _ => s.watch

/-- `MPMCQueue<T, Capacity>` with a watch for every thread. -/
def watched (Tid : Type u) (T : Type v) [DecidableEq Tid] (Capacity : Nat) :
    Machine (Watched Tid T) (Action Tid T) where
  init := ⟨init, fun _ => ⟨none, 0, 0⟩⟩
  step s action :=
    (step Capacity s.ring action).map fun next => ⟨next, observeAction s action⟩

/-- The successful claims by other threads since `t` called. -/
def Watched.claimsByOthers (s : Watched Tid T) (side : Side) (t : Tid) : Nat :=
  ((s.ring.claimants side).drop (s.watch t).since).countP (· ≠ t)

/-- The watches show the local positions; a retry takes a call to a larger one, up to the
counter; there are no more retries than claims by others; and a call that is left alone
returns without a retry. -/
structure LockFree (Capacity : Nat) (s : Watched Tid T) : Prop where
  shown : ∀ t side position, (s.ring.pc t).loop? = some (side, some position) →
    (s.watch t).position = some position
  advances : ∀ t side spurious next, (s.ring.pc t).side = some side →
    (watched Tid T Capacity).step s (.run t spurious) = some next →
    (next.watch t).retries ≠ (s.watch t).retries → ∃ old new,
      (s.watch t).position = some old ∧ (next.watch t).position = some new ∧ old < new ∧
        new ≤ next.ring.counter side
  bounded : ∀ t side, (s.ring.pc t).side = some side →
    (s.watch t).retries ≤ s.claimsByOthers side t
  alonePush : ∀ t item, s.ring.pc t = .idle → ∃ steps next result,
    (watched Tid T Capacity).run s
      (.callPush t item :: List.replicate steps (.run t false)) = some next ∧
      next.ring.pc t = .pushReturned result ∧ (next.watch t).retries = 0
  alonePop : ∀ t, s.ring.pc t = .idle → ∃ steps next result,
    (watched Tid T Capacity).run s
      (.callPop t :: List.replicate steps (.run t false)) = some next ∧
      next.ring.pc t = .popReturned result ∧ (next.watch t).retries = 0

end

/-! ### What a step does to the claims -/

variable {s next : State Tid T} {t : Tid} {w : Watch} {side : Side}

theorem Inv.claimants_length {C : Nat} (hinv : Inv C s) (side : Side) :
    (s.claimants side).length = s.counter side := by
  cases side with
  | push => simpa [State.claimants, State.counter] using hinv.pushNumbered.length
  | pop => simpa [State.claimants, State.counter] using hinv.popNumbered.length

def Action.thread : Action Tid T → Tid
  | .callPush t _ | .callPop t | .run t _ | .ret t => t

section
variable [DecidableEq Tid]

/-- The thread of a step claims a position, or no position is claimed. -/
theorem step_claimants {C : Nat} {action : Action Tid T} (hstep : step C s action = some next)
    (side : Side) : ∃ claimed, next.claimants side = s.claimants side ++ claimed ∧
      ∀ u ∈ claimed, u = action.thread := by
  have hsame (hnext : next.claimants side = s.claimants side) : ∃ claimed,
      next.claimants side = s.claimants side ++ claimed ∧ ∀ u ∈ claimed, u = action.thread :=
    ⟨[], by simpa using hnext, by simp⟩
  cases action with
  | callPush t item =>
      simp only [step] at hstep
      split at hstep <;> simp only [Option.some.injEq, reduceCtorEq] at hstep
      exact hsame (hstep ▸ by cases side <;> rfl)
  | callPop t =>
      simp only [step] at hstep
      split at hstep <;> simp only [Option.some.injEq, reduceCtorEq] at hstep
      exact hsame (hstep ▸ by cases side <;> rfl)
  | ret t =>
      simp only [step] at hstep
      split at hstep <;> simp only [Option.some.injEq, reduceCtorEq] at hstep
      all_goals exact hsame (hstep ▸ by cases side <;> rfl)
  | run t spurious =>
      simp only [step, runThread] at hstep
      cases hpc : s.pc t <;> simp only [hpc, reduceCtorEq] at hstep
      case pushCas item tail =>
        split at hstep <;> rw [Option.some.injEq] at hstep <;> subst hstep
        · cases side with
          | push => exact ⟨[t], by simp [State.claimants, State.claimPush], by simp [Action.thread]⟩
          | pop => exact hsame rfl
        · exact hsame (by cases side <;> rfl)
      case popCas head =>
        split at hstep <;> rw [Option.some.injEq] at hstep <;> subst hstep
        · cases side with
          | push => exact hsame rfl
          | pop => exact ⟨[t], by simp [State.claimants, State.claimPop], by simp [Action.thread]⟩
        · exact hsame (by cases side <;> rfl)
      all_goals try split at hstep
      all_goals try split at hstep
      all_goals rw [Option.some.injEq] at hstep
      all_goals subst hstep
      all_goals exact hsame (by cases side <;> rfl)

/-- The other threads stay where they are. -/
theorem step_other {C : Nat} {action : Action Tid T} (hstep : step C s action = some next)
    {u : Tid} (hu : u ≠ action.thread) : next.pc u = s.pc u := by
  cases action with
  | callPush t item =>
      simp only [step] at hstep
      split at hstep <;> simp only [Option.some.injEq, reduceCtorEq] at hstep
      exact hstep ▸ s.goto_pc_other t _ hu
  | callPop t =>
      simp only [step] at hstep
      split at hstep <;> simp only [Option.some.injEq, reduceCtorEq] at hstep
      exact hstep ▸ s.goto_pc_other t _ hu
  | ret t =>
      simp only [step] at hstep
      split at hstep <;> simp only [Option.some.injEq, reduceCtorEq] at hstep
      all_goals exact hstep ▸ s.goto_pc_other t _ hu
  | run t spurious =>
      simp only [step, runThread] at hstep
      simp only [Action.thread] at hu
      cases hpc : s.pc t <;> simp only [hpc, reduceCtorEq] at hstep
      all_goals try split at hstep
      all_goals try split at hstep
      all_goals rw [Option.some.injEq] at hstep
      all_goals subst hstep
      all_goals simp [State.claimPush, State.claimPop, State.writeData, State.publish, State.free,
        State.setSlot, State.goto, hu]

end

/-! ### The invariant of the watches -/

/-- A call in its loop: it has claimed nothing, and each retry was paid for by a claim
below its local position; before it is loaded again the counter has passed it. -/
structure LoopInv (s : State Tid T) (w : Watch) (t : Tid) (side : Side) (local? : Option Nat) :
    Prop where
  unclaimed : t ∉ (s.claimants side).drop w.since
  since_le : w.since ≤ s.counter side
  first : w.position = none → w.retries = 0
  paid : ∀ position, w.position = some position →
    w.since + w.retries ≤ position ∧ position ≤ s.counter side
  shown : ∀ position, local? = some position → w.position = some position
  passed : local? = none → ∀ position, w.position = some position → position < s.counter side

theorem LoopInv.load {local? : Option Nat} (h : LoopInv s w t side local?)
    (hpassed : ∀ position, w.position = some position → position < s.counter side) :
    LoopInv s (w.load (s.counter side)) t side (some (s.counter side)) where
  unclaimed := h.unclaimed
  since_le := h.since_le
  first hnone := by simp [Watch.load] at hnone
  paid position hposition := by
    obtain rfl := Option.some.inj hposition
    refine ⟨?_, Nat.le_refl _⟩
    simp only [Watch.load]
    cases hbefore : w.position with
    | none =>
        have hzero := h.first hbefore
        have hsince := h.since_le
        simp only [if_true]
        omega
    | some old =>
        obtain ⟨hpaid, -⟩ := h.paid old hbefore
        have hlt := hpassed old hbefore
        simp only [reduceCtorEq, if_false]
        omega
  shown position hposition := hposition
  passed hnone := by contradiction

/-- The local position goes on to another test without a load. -/
theorem LoopInv.keep {position : Nat} (h : LoopInv s w t side (some position)) :
    w.position = some position ∧ position ≤ s.counter side :=
  ⟨h.shown position rfl, (h.paid position (h.shown position rfl)).2⟩

theorem LoopInv.again {position : Nat} (h : LoopInv s w t side (some position))
    (hlt : position < s.counter side) : LoopInv s w t side none where
  unclaimed := h.unclaimed
  since_le := h.since_le
  first := h.first
  paid := h.paid
  shown := nofun
  passed _ other hother := by
    obtain rfl := Option.some.inj ((h.shown position rfl).symm.trans hother)
    exact hlt

/-- A fresh watch at the beginning of a call. -/
theorem LoopInv.fresh {C : Nat} (hinv : Inv C s) (t : Tid) (side : Side) :
    LoopInv s ⟨none, 0, (s.claimants side).length⟩ t side none where
  unclaimed := by simp
  since_le := Nat.le_of_eq (hinv.claimants_length side)
  first _ := rfl
  paid := nofun
  shown := nofun
  passed _ := nofun

section
variable [DecidableEq Tid]

/-- The claims by others in the ring `s` since a watch was set. -/
def claimsSince (s : State Tid T) (w : Watch) (side : Side) (t : Tid) : Nat :=
  ((s.claimants side).drop w.since).countP (· ≠ t)

theorem LoopInv.bounded {C : Nat} {local? : Option Nat} (h : LoopInv s w t side local?)
    (hinv : Inv C s) : w.retries ≤ claimsSince s w side t := by
  have hall : claimsSince s w side t = s.counter side - w.since := by
    rw [claimsSince, List.countP_eq_length.mpr, List.length_drop, hinv.claimants_length]
    intro u hu
    exact decide_eq_true fun heq => h.unclaimed (heq ▸ hu)
  rw [hall]
  cases hposition : w.position with
  | none => rw [h.first hposition]; exact Nat.zero_le _
  | some position =>
      obtain ⟨hpaid, hle⟩ := h.paid position hposition
      omega

/-- Claims are never taken back. -/
theorem claimsSince_mono {C : Nat} {action : Action Tid T} (hstep : step C s action = some next) :
    claimsSince s w side t ≤ claimsSince next w side t := by
  obtain ⟨claimed, hclaimants, -⟩ := step_claimants hstep side
  rw [claimsSince, claimsSince, hclaimants, List.drop_append, List.countP_append]
  exact Nat.le_add_right _ _

/-- A step of another thread leaves a call in its loop as it is. -/
theorem LoopInv.of_step {C : Nat} {local? : Option Nat} (h : LoopInv s w t side local?)
    (hinv : Inv C s) (hnext : Inv C next) {action : Action Tid T}
    (hstep : step C s action = some next) (hother : t ≠ action.thread) :
    LoopInv next w t side local? := by
  obtain ⟨claimed, hclaimants, hclaimed⟩ := step_claimants hstep side
  have hle : s.counter side ≤ next.counter side := by
    rw [← hinv.claimants_length, ← hnext.claimants_length, hclaimants, List.length_append]
    exact Nat.le_add_right _ _
  refine ⟨?_, Nat.le_trans h.since_le hle, h.first, fun position hposition => ?_, h.shown,
    fun hnone position hposition => Nat.lt_of_lt_of_le (h.passed hnone position hposition) hle⟩
  · rw [hclaimants, List.drop_append]
    intro hmem
    rcases List.mem_append.mp hmem with hmem | hmem
    · exact h.unclaimed hmem
    · exact hother (hclaimed t (List.mem_of_mem_drop hmem))
  · obtain ⟨hpaid, hposition⟩ := h.paid position hposition
    exact ⟨hpaid, Nat.le_trans hposition hle⟩

/-- A step to another place changes neither claims nor counters. -/
theorem LoopInv.goto {local? : Option Nat} {pc : PC T} (h : LoopInv s w t side local?) :
    LoopInv (s.goto t pc) w t side local? := by
  cases side <;> exact ⟨h.unclaimed, h.since_le, h.first, h.paid, h.shown, h.passed⟩

structure WatchInv (Capacity : Nat) (s : Watched Tid T) : Prop where
  ring : Inv Capacity s.ring
  loop : ∀ t side local?, (s.ring.pc t).loop? = some (side, local?) →
    LoopInv s.ring (s.watch t) t side local?
  bounded : ∀ t side, (s.ring.pc t).side = some side →
    (s.watch t).retries ≤ s.claimsByOthers side t

variable {x y : Watched Tid T}

/-- A turn of the loop of `try_push`. -/
theorem WatchInv.turnPush (h : WatchInv (2 ^ k) x) {spurious : Bool}
    (hstep : runThread (2 ^ k) x.ring t spurious = some next)
    (hside : (x.ring.pc t).side = some .push) {local? : Option Nat}
    (hloop : (next.pc t).loop? = some (side, local?)) :
    LoopInv next (observe x.ring t (x.watch t)) t side local? := by
  unfold runThread at hstep
  cases hpc : x.ring.pc t <;> simp only [hpc, PC.side, Option.some.injEq, reduceCtorEq] at hside
  all_goals simp only [hpc, reduceCtorEq, observe] at hstep ⊢
  case pushLoadTail item =>
    have hbefore := h.loop t .push none (by rw [hpc]; rfl)
    rw [Option.some.injEq] at hstep
    subst hstep
    rw [State.goto_pc_self] at hloop
    obtain ⟨rfl, rfl⟩ := Prod.mk.inj (Option.some.inj hloop)
    exact (hbefore.load (hbefore.passed rfl)).goto
  case pushLoadSeq item tail =>
    have hbefore := h.loop t .push (some tail) (by rw [hpc]; rfl)
    split at hstep
    · rw [Option.some.injEq] at hstep
      subst hstep
      rw [State.goto_pc_self] at hloop
      obtain ⟨rfl, rfl⟩ := Prod.mk.inj (Option.some.inj hloop)
      exact hbefore.goto
    · split at hstep <;> rw [Option.some.injEq] at hstep <;> subst hstep <;>
        rw [State.goto_pc_self] at hloop
      · cases hloop
      · -- the slot belongs to a later position
        obtain ⟨rfl, rfl⟩ := Prod.mk.inj (Option.some.inj hloop)
        exact (hbefore.again (h.ring.lt_tail_of_ahead hbefore.keep.2 (by omega))).goto
  case pushCas item tail =>
    have hbefore := h.loop t .push (some tail) (by rw [hpc]; rfl)
    split at hstep <;> rw [Option.some.injEq] at hstep <;> subst hstep
    · simp [State.claimPush, PC.loop?] at hloop
    · rw [State.goto_pc_self] at hloop
      obtain ⟨rfl, rfl⟩ := Prod.mk.inj (Option.some.inj hloop)
      split
      case isTrue heq =>
        rw [heq]
        exact hbefore.goto
      case isFalse hne =>
        refine (hbefore.load fun position hposition => ?_).goto
        obtain rfl := Option.some.inj (hbefore.keep.1.symm.trans hposition)
        exact Nat.lt_of_le_of_ne hbefore.keep.2 (Ne.symm hne)
  all_goals rw [Option.some.injEq] at hstep
  all_goals subst hstep
  all_goals simp [State.writeData, State.publish, PC.loop?] at hloop

/-- A turn of the loop of `try_pop`. -/
theorem WatchInv.turnPop (h : WatchInv (2 ^ k) x) {spurious : Bool}
    (hstep : runThread (2 ^ k) x.ring t spurious = some next)
    (hside : (x.ring.pc t).side = some .pop) {local? : Option Nat}
    (hloop : (next.pc t).loop? = some (side, local?)) :
    LoopInv next (observe x.ring t (x.watch t)) t side local? := by
  unfold runThread at hstep
  cases hpc : x.ring.pc t <;> simp only [hpc, PC.side, Option.some.injEq, reduceCtorEq] at hside
  all_goals simp only [hpc, reduceCtorEq, observe] at hstep ⊢
  case popLoadHead =>
    have hbefore := h.loop t .pop none (by rw [hpc]; rfl)
    rw [Option.some.injEq] at hstep
    subst hstep
    rw [State.goto_pc_self] at hloop
    obtain ⟨rfl, rfl⟩ := Prod.mk.inj (Option.some.inj hloop)
    exact (hbefore.load (hbefore.passed rfl)).goto
  case popLoadSeq head =>
    have hbefore := h.loop t .pop (some head) (by rw [hpc]; rfl)
    split at hstep
    · rw [Option.some.injEq] at hstep
      subst hstep
      rw [State.goto_pc_self] at hloop
      obtain ⟨rfl, rfl⟩ := Prod.mk.inj (Option.some.inj hloop)
      exact hbefore.goto
    · split at hstep <;> rw [Option.some.injEq] at hstep <;> subst hstep <;>
        rw [State.goto_pc_self] at hloop
      · cases hloop
      · obtain ⟨rfl, rfl⟩ := Prod.mk.inj (Option.some.inj hloop)
        exact (hbefore.again (h.ring.lt_head_of_ahead hbefore.keep.2 (by omega))).goto
  case popCas head =>
    have hbefore := h.loop t .pop (some head) (by rw [hpc]; rfl)
    split at hstep <;> rw [Option.some.injEq] at hstep <;> subst hstep
    · simp [State.claimPop, PC.loop?] at hloop
    · rw [State.goto_pc_self] at hloop
      obtain ⟨rfl, rfl⟩ := Prod.mk.inj (Option.some.inj hloop)
      split
      case isTrue heq =>
        rw [heq]
        exact hbefore.goto
      case isFalse hne =>
        refine (hbefore.load fun position hposition => ?_).goto
        obtain rfl := Option.some.inj (hbefore.keep.1.symm.trans hposition)
        exact Nat.lt_of_le_of_ne hbefore.keep.2 (Ne.symm hne)
  all_goals rw [Option.some.injEq] at hstep
  all_goals subst hstep
  all_goals simp [State.free, PC.loop?] at hloop

theorem WatchInv.turn (h : WatchInv (2 ^ k) x) {spurious : Bool}
    (hstep : runThread (2 ^ k) x.ring t spurious = some next) {local? : Option Nat}
    (hloop : (next.pc t).loop? = some (side, local?)) :
    LoopInv next (observe x.ring t (x.watch t)) t side local? := by
  cases hside : (x.ring.pc t).side with
  | none =>
      cases hpc : x.ring.pc t <;> simp [hpc, PC.side] at hside
      simp [runThread, hpc] at hstep
  | some which =>
      cases which with
      | push => exact h.turnPush hstep hside hloop
      | pop => exact h.turnPop hstep hside hloop

/-- A call stays on its side, and its watch changes only if it stays in its loop. -/
theorem run_side {C : Nat} {spurious : Bool} (hstep : runThread C s t spurious = some next) :
    (next.pc t).side = (s.pc t).side ∧
      ((next.pc t).loop? = none → observe s t w = w) := by
  unfold runThread at hstep
  cases hpc : s.pc t <;> simp only [hpc, reduceCtorEq] at hstep
  case pushCas item tail =>
    split at hstep <;> rw [Option.some.injEq] at hstep <;> subst hstep
    case isTrue hwon => exact ⟨by simp [State.claimPush, PC.side], fun _ => by simp [observe, hpc, hwon]⟩
    case isFalse => exact ⟨by simp [PC.side], fun hnone => by simp [PC.loop?] at hnone⟩
  case popCas head =>
    split at hstep <;> rw [Option.some.injEq] at hstep <;> subst hstep
    case isTrue hwon => exact ⟨by simp [State.claimPop, PC.side], fun _ => by simp [observe, hpc, hwon]⟩
    case isFalse => exact ⟨by simp [PC.side], fun hnone => by simp [PC.loop?] at hnone⟩
  case pushLoadTail item =>
    rw [Option.some.injEq] at hstep
    subst hstep
    exact ⟨by simp [PC.side], fun hnone => by simp [PC.loop?] at hnone⟩
  case popLoadHead =>
    rw [Option.some.injEq] at hstep
    subst hstep
    exact ⟨by simp [PC.side], fun hnone => by simp [PC.loop?] at hnone⟩
  all_goals try split at hstep
  all_goals try split at hstep
  all_goals rw [Option.some.injEq] at hstep
  all_goals subst hstep
  all_goals exact ⟨by simp [State.writeData, State.publish, State.free, PC.side],
    fun _ => by simp [observe, hpc]⟩

theorem WatchInv.step (hk : 1 ≤ k) (h : WatchInv (2 ^ k) x) {action : Action Tid T}
    (hstep : (watched Tid T (2 ^ k)).step x action = some y) : WatchInv (2 ^ k) y := by
  obtain ⟨next, hnext, rfl⟩ := Option.map_eq_some_iff.mp hstep
  have hring := h.ring.step hk hnext
  have hothers : ∀ u, u ≠ action.thread → observeAction x action u = x.watch u := by
    intro u hu
    cases action <;> simp only [Action.thread] at hu <;> simp [observeAction, hu]
  refine ⟨hring, fun u side local? hloop => ?_, fun u side hside => ?_⟩
  · by_cases hu : u = action.thread
    · subst hu
      cases action with
      | callPush t item =>
          simp only [MPMCQueue.step] at hnext
          split at hnext <;> simp only [Option.some.injEq, reduceCtorEq] at hnext
          subst hnext
          simp only [Action.thread, State.goto_pc_self] at hloop
          obtain ⟨rfl, rfl⟩ := Prod.mk.inj (Option.some.inj hloop)
          simpa [observeAction, Action.thread] using (LoopInv.fresh h.ring t .push).goto
      | callPop t =>
          simp only [MPMCQueue.step] at hnext
          split at hnext <;> simp only [Option.some.injEq, reduceCtorEq] at hnext
          subst hnext
          simp only [Action.thread, State.goto_pc_self] at hloop
          obtain ⟨rfl, rfl⟩ := Prod.mk.inj (Option.some.inj hloop)
          simpa [observeAction, Action.thread] using (LoopInv.fresh h.ring t .pop).goto
      | ret t =>
          simp only [MPMCQueue.step] at hnext
          split at hnext <;> simp only [Option.some.injEq, reduceCtorEq] at hnext
          all_goals subst hnext
          all_goals simp [Action.thread, PC.loop?] at hloop
      | run t spurious =>
          simp only [observeAction, Action.thread, Function.update_self] at hloop ⊢
          exact h.turn hnext hloop
    · change LoopInv next (observeAction x action u) u side local?
      rw [hothers u hu]
      rw [step_other hnext hu] at hloop
      exact (h.loop u side local? hloop).of_step h.ring hring hnext hu
  · change (observeAction x action u).retries ≤ claimsSince next (observeAction x action u) side u
    by_cases hu : u = action.thread
    · subst hu
      cases action with
      | callPush t item => simp [observeAction, Action.thread]
      | callPop t => simp [observeAction, Action.thread]
      | ret t =>
          simp only [MPMCQueue.step] at hnext
          split at hnext <;> simp only [Option.some.injEq, reduceCtorEq] at hnext
          all_goals subst hnext
          all_goals simp [Action.thread, PC.side] at hside
      | run t spurious =>
          simp only [observeAction, Action.thread, Function.update_self] at hside ⊢
          obtain ⟨hsame, hkept⟩ := run_side (w := x.watch t) hnext
          cases hloop : (next.pc t).loop? with
          | some at? =>
              obtain ⟨which, local?⟩ := at?
              obtain rfl := (PC.side_of_loop hloop).symm.trans hside |> Option.some.inj
              exact (h.turn hnext hloop).bounded hring
          | none =>
              rw [hkept hloop]
              exact Nat.le_trans (h.bounded t side (hsame ▸ hside)) (claimsSince_mono hnext)
    · rw [hothers u hu]
      rw [step_other hnext hu] at hside
      exact Nat.le_trans (h.bounded u side hside) (claimsSince_mono hnext)

theorem watchInv_of_reachable (hk : 1 ≤ k) (hreach : (watched Tid T (2 ^ k)).Reachable x) :
    WatchInv (2 ^ k) x := by
  refine hreach.invariant (WatchInv (2 ^ k)) ⟨inv_init k, nofun, nofun⟩ ?_
  exact fun x y action h hstep => h.step hk hstep

end

/-! ### Retries -/

/-- A retry loads the counter over a local position that is not it. -/
theorem observe_retry (hretry : (observe s t w).retries ≠ w.retries) :
    ∃ side local?, (s.pc t).loop? = some (side, local?) ∧
      observe s t w = w.load (s.counter side) ∧
      ∀ position, local? = some position → position ≠ s.counter side := by
  unfold observe at hretry ⊢
  cases hpc : s.pc t <;> simp only [hpc, ne_eq, not_true_eq_false] at hretry
  case pushLoadTail item => exact ⟨.push, none, rfl, rfl, nofun⟩
  case popLoadHead => exact ⟨.pop, none, rfl, rfl, nofun⟩
  case pushCas item tail =>
    split at hretry
    case isTrue => contradiction
    case isFalse hne =>
      refine ⟨.push, some tail, rfl, if_neg hne, fun position hposition => ?_⟩
      obtain rfl := Option.some.inj hposition
      exact Ne.symm hne
  case popCas head =>
    split at hretry
    case isTrue => contradiction
    case isFalse hne =>
      refine ⟨.pop, some head, rfl, if_neg hne, fun position hposition => ?_⟩
      obtain rfl := Option.some.inj hposition
      exact Ne.symm hne

section
variable [DecidableEq Tid] {x y : Watched Tid T}

theorem WatchInv.advances (hk : 1 ≤ k) (h : WatchInv (2 ^ k) x) {spurious : Bool}
    (hside : (x.ring.pc t).side = some side)
    (hstep : (watched Tid T (2 ^ k)).step x (.run t spurious) = some y)
    (hretry : (y.watch t).retries ≠ (x.watch t).retries) : ∃ old new,
      (x.watch t).position = some old ∧ (y.watch t).position = some new ∧ old < new ∧
        new ≤ y.ring.counter side := by
  obtain ⟨next, hnext, rfl⟩ := Option.map_eq_some_iff.mp hstep
  have hwatch : observeAction x (.run t spurious) t = observe x.ring t (x.watch t) := by
    simp [observeAction]
  simp only [hwatch] at hretry ⊢
  obtain ⟨which, local?, hloop, hload, hne⟩ := observe_retry hretry
  obtain rfl := Option.some.inj ((PC.side_of_loop hloop).symm.trans hside)
  have hinv := h.loop t which local? hloop
  have hmono : x.ring.counter which ≤ next.counter which := by
    obtain ⟨claimed, hclaimants, -⟩ := step_claimants hnext which
    rw [← h.ring.claimants_length, ← (h.ring.step hk hnext).claimants_length, hclaimants,
      List.length_append]
    exact Nat.le_add_right _ _
  rw [hload] at hretry ⊢
  cases hposition : (x.watch t).position with
  | none => simp [Watch.load, hposition] at hretry
  | some old =>
      refine ⟨old, x.ring.counter which, rfl, rfl, ?_, hmono⟩
      cases local? with
      | none => exact hinv.passed rfl old hposition
      | some position =>
          obtain rfl := Option.some.inj (hposition.symm.trans (hinv.shown position rfl))
          exact Nat.lt_of_le_of_ne (hinv.paid old hposition).2 (hne old rfl)

/-! ### A call that is left alone -/

/-- Steps of `t` alone, without spurious failures, take it to its return with the retries
that it has. -/
def Alone (Capacity : Nat) (t : Tid) (done : PC T → Prop) (x : Watched Tid T) : Prop :=
  ∃ steps next, (watched Tid T Capacity).run x (List.replicate steps (.run t false)) = some next ∧
    done (next.ring.pc t) ∧ (next.watch t).retries = (x.watch t).retries

variable {C : Nat} {returned : PC T → Prop}

theorem Alone.here (hreturned : returned (x.ring.pc t)) : Alone C t returned x :=
  ⟨0, x, rfl, hreturned, rfl⟩

theorem Alone.step (next : State Tid T)
    (hstep : runThread C x.ring t false = some next)
    (hwatch : (observe x.ring t (x.watch t)).retries = (x.watch t).retries)
    (hrest : Alone C t returned ⟨next, observeAction x (.run t false)⟩) :
    Alone C t returned x := by
  obtain ⟨steps, last, hrun, hreturned, hretries⟩ := hrest
  refine ⟨steps + 1, last, ?_, hreturned, ?_⟩
  · rw [List.replicate_succ, Machine.run_cons]
    have hfirst : (watched Tid T C).step x (.run t false) =
        some ⟨next, observeAction x (.run t false)⟩ := by
      simp [watched, MPMCQueue.step, hstep]
    rw [hfirst]
    exact hrun
  · rw [hretries]
    simpa [observeAction] using hwatch

/-- `try_push` is at its return. -/
def PC.PushReturns (pc : PC T) : Prop := ∃ result, pc = .pushReturned result

/-- `try_pop` is at its return. -/
def PC.PopReturns (pc : PC T) : Prop := ∃ result, pc = .popReturned result

/-- From its claim on `try_push` does not look at the ring any more. -/
theorem alone_of_pushWrite {item : T} {tail : Nat} (hpc : x.ring.pc t = .pushWrite item tail) :
    Alone C t PC.PushReturns x := by
  apply Alone.step _ (by rw [runThread, hpc]) (by rw [observe, hpc])
  apply Alone.step ((x.ring.writeData C t item tail).publish C t item tail)
  · simp [runThread, State.writeData]
  · simp [observe, State.writeData]
  · exact .here ⟨true, by simp [State.publish]⟩

/-- The compare-exchange at the counter succeeds. -/
theorem alone_of_pushCas {item : T} {tail : Nat} (hpc : x.ring.pc t = .pushCas item tail)
    (hat : x.ring.m_tail = tail) : Alone C t PC.PushReturns x := by
  apply Alone.step (x.ring.claimPush t item tail)
  · simp [runThread, hpc, hat]
  · simp [observe, hpc, hat]
  · exact alone_of_pushWrite (State.goto_pc_self _ _ _)

/-- At the counter the slot is not ahead: the position is claimed, or the ring is full. -/
theorem alone_of_pushLoadSeq (hslot : (x.ring.slot C x.ring.m_tail).seq ≤ x.ring.m_tail)
    {item : T} (hpc : x.ring.pc t = .pushLoadSeq item x.ring.m_tail) :
    Alone C t PC.PushReturns x := by
  by_cases hseq : (x.ring.slot C x.ring.m_tail).seq = x.ring.m_tail
  · apply Alone.step (x.ring.goto t (.pushCas item x.ring.m_tail))
    · simp [runThread, hpc, hseq]
    · simp [observe, hpc]
    · exact alone_of_pushCas (State.goto_pc_self _ _ _) rfl
  · apply Alone.step (x.ring.goto t (.pushReturned false))
    · have hdiff : ((x.ring.slot C x.ring.m_tail).seq : Int) - (x.ring.m_tail : Int) < 0 := by
        omega
      simp only [runThread, hpc, hdiff, if_neg (Int.ne_of_lt hdiff), if_true]
    · simp [observe, hpc]
    · exact .here ⟨false, State.goto_pc_self _ _ _⟩

theorem alone_of_pushLoadTail (hslot : (x.ring.slot C x.ring.m_tail).seq ≤ x.ring.m_tail)
    {item : T} (hpc : x.ring.pc t = .pushLoadTail item) (hfirst : (x.watch t).position = none) :
    Alone C t PC.PushReturns x := by
  apply Alone.step (x.ring.goto t (.pushLoadSeq item x.ring.m_tail))
  · simp [runThread, hpc]
  · simp [observe, hpc, Watch.load, hfirst]
  · exact alone_of_pushLoadSeq hslot (State.goto_pc_self _ _ _)

/-- From its claim on `try_pop` does not look at the positions any more. -/
theorem alone_of_popRead {head : Nat} (hpc : x.ring.pc t = .popRead head) :
    Alone C t PC.PopReturns x := by
  apply Alone.step _ (by rw [runThread, hpc]) (by rw [observe, hpc])
  apply Alone.step _
  · rw [runThread, State.goto_pc_self]
  · simp [observe]
  · exact .here ⟨_, State.goto_pc_self _ _ _⟩

theorem alone_of_popCas {head : Nat} (hpc : x.ring.pc t = .popCas head)
    (hat : x.ring.m_head = head) : Alone C t PC.PopReturns x := by
  apply Alone.step (x.ring.claimPop t head)
  · simp [runThread, hpc, hat]
  · simp [observe, hpc, hat]
  · exact alone_of_popRead (State.goto_pc_self _ _ _)

theorem alone_of_popLoadSeq (hslot : (x.ring.slot C x.ring.m_head).seq ≤ x.ring.m_head + 1)
    (hpc : x.ring.pc t = .popLoadSeq x.ring.m_head) : Alone C t PC.PopReturns x := by
  by_cases hseq : (x.ring.slot C x.ring.m_head).seq = x.ring.m_head + 1
  · apply Alone.step (x.ring.goto t (.popCas x.ring.m_head))
    · simp [runThread, hpc, hseq]
    · simp [observe, hpc]
    · exact alone_of_popCas (State.goto_pc_self _ _ _) rfl
  · apply Alone.step (x.ring.goto t (.popReturned none))
    · have hdiff : ((x.ring.slot C x.ring.m_head).seq : Int) -
          ((x.ring.m_head + 1 : Nat) : Int) < 0 := by omega
      simp only [runThread, hpc, hdiff, if_neg (Int.ne_of_lt hdiff), if_true]
    · simp [observe, hpc]
    · exact .here ⟨none, State.goto_pc_self _ _ _⟩

theorem alone_of_popLoadHead (hslot : (x.ring.slot C x.ring.m_head).seq ≤ x.ring.m_head + 1)
    (hpc : x.ring.pc t = .popLoadHead) (hfirst : (x.watch t).position = none) :
    Alone C t PC.PopReturns x := by
  apply Alone.step (x.ring.goto t (.popLoadSeq x.ring.m_head))
  · simp [runThread, hpc]
  · simp [observe, hpc, Watch.load, hfirst]
  · exact alone_of_popLoadSeq hslot (State.goto_pc_self _ _ _)

/-- A call that goes on alone after its first step returns without a retry. -/
theorem Alone.of_call {action : Action Tid T} {y : Watched Tid T}
    (hcall : (watched Tid T C).step x action = some y) (hfresh : (y.watch t).retries = 0)
    (halone : Alone C t returned y) : ∃ steps next,
      (watched Tid T C).run x (action :: List.replicate steps (.run t false)) = some next ∧
        returned (next.ring.pc t) ∧ (next.watch t).retries = 0 := by
  obtain ⟨steps, last, hrun, hreturned, hretries⟩ := halone
  refine ⟨steps, last, ?_, hreturned, hretries.trans hfresh⟩
  rw [Machine.run_cons, hcall]
  exact hrun

/-! ### All calls -/

theorem WatchInv.lockFree (hk : 1 ≤ k) (h : WatchInv (2 ^ k) x) : LockFree (2 ^ k) x where
  shown t side position hloop := (h.loop t side (some position) hloop).keep.1
  advances t side spurious y hside hstep hretry := h.advances hk hside hstep hretry
  bounded := h.bounded
  alonePush t item hidle := by
    have hcall : (watched Tid T (2 ^ k)).step x (.callPush t item) =
        some ⟨x.ring.goto t (.pushLoadTail item), observeAction x (.callPush t item)⟩ := by
      simp [watched, MPMCQueue.step, hidle]
    have halone : Alone (2 ^ k) t PC.PushReturns
        ⟨x.ring.goto t (.pushLoadTail item), observeAction x (.callPush t item)⟩ :=
      alone_of_pushLoadTail h.ring.seq_le_tail (x.ring.goto_pc_self t _)
        (by simp [observeAction])
    obtain ⟨steps, next, hrun, ⟨result, hreturned⟩, hretries⟩ :=
      halone.of_call hcall (by simp [observeAction])
    exact ⟨steps, next, result, hrun, hreturned, hretries⟩
  alonePop t hidle := by
    have hcall : (watched Tid T (2 ^ k)).step x (.callPop t) =
        some ⟨x.ring.goto t .popLoadHead, observeAction x (.callPop t)⟩ := by
      simp [watched, MPMCQueue.step, hidle]
    have halone : Alone (2 ^ k) t PC.PopReturns
        ⟨x.ring.goto t .popLoadHead, observeAction x (.callPop t)⟩ :=
      alone_of_popLoadHead h.ring.seq_le_head (x.ring.goto_pc_self t _)
        (by simp [observeAction])
    obtain ⟨steps, next, hrun, ⟨result, hreturned⟩, hretries⟩ :=
      halone.of_call hcall (by simp [observeAction])
    exact ⟨steps, next, result, hrun, hreturned, hretries⟩

/-- In every reachable state the retries of the calls that are running are paid for by the
claims of other threads, and a call that no other thread disturbs makes none. -/
theorem lock_free (hk : 1 ≤ k) (hreach : (watched Tid T (2 ^ k)).Reachable x) :
    LockFree (2 ^ k) x :=
  (watchInv_of_reachable hk hreach).lockFree hk

end

/-- Thread 0 looks at position 0 and stops; thread 1 claims it; thread 0 goes round once. -/
def overtaken : List (Action Nat Nat) :=
  [.callPush 0 10, .run 0 false, .run 0 false, .callPush 1 11, .run 1 false, .run 1 false,
   .run 1 false, .run 0 false]

theorem lock_free_overtaken : ∃ x : Watched Nat Nat,
    ((x.watch 0).retries = 1 ∧ x.claimsByOthers .push 0 = 1) ∧ LockFree (2 ^ 1) x := by
  obtain ⟨x, hreach, htest⟩ := Machine.exists_reachable_of_run (watched Nat Nat (2 ^ 1)) overtaken
    (fun x => (x.watch 0).retries = 1 ∧ x.claimsByOthers .push 0 = 1) (by decide +kernel)
  exact ⟨x, by simpa using htest, lock_free (by decide) hreach⟩

end MessageCenter.MPMCQueue
