import MessageCenter.MpmcQueue.Progress

/-!
# `size_approx` while the ring is in use

The ring with any threads that push and pop, and any callers of `size_approx`, whose two loads
come between the steps of the others.  The tail that a caller has loaded may be behind `m_tail`
when it loads `m_head`, and behind `m_head` itself.

What an `Answer` holds besides the result is history, and so is what a caller remembers besides
the tail.
-/

namespace MessageCenter.MPMCQueue

open Concurrency

universe u v

variable {Tid : Type u} {T : Type v} {Caller : Type} {k : Nat}

/-- The positions that are claimed and not popped. -/
def State.occupancy (s : State Tid T) : Nat := s.m_tail - s.m_head

/-- `tail >= head ? tail - head : 0` -/
def sizeApprox (tail head : Nat) : Nat := if tail ≥ head then tail - head else 0

/-- Where a call of `size_approx` stands. -/
inductive SizePc where
  | idle
  /-- `tail = m_tail.load()` -/
  | loadTail
  /-- `head = m_head.load()`; `occupancy` and `pushed` are those of the first load -/
  | loadHead (tail occupancy pushed : Nat)
deriving DecidableEq, Repr

/-- A call that has returned: the occupancy at its two loads and the pushes in between. -/
structure Answer where
  result : Nat
  atTail : Nat
  atHead : Nat
  pushed : Nat
deriving DecidableEq, Repr

/-- `empty()` -/
def Answer.empty (answer : Answer) : Bool := answer.result == 0

structure Measured (Tid : Type u) (T : Type v) (Caller : Type) where
  ring : State Tid T
  pc : Caller → SizePc
  answers : List Answer

inductive SizeAction (Tid : Type u) (T : Type v) (Caller : Type) where
  | ring (action : Action Tid T)
  | call (caller : Caller)
  /-- the next load of the call -/
  | load (caller : Caller)
deriving DecidableEq, Repr

section
variable [DecidableEq Tid] [DecidableEq Caller]

def Measured.load (x : Measured Tid T Caller) (caller : Caller) : Option (Measured Tid T Caller) :=
  match x.pc caller with
  | .idle => none
  | .loadTail =>
      let pc := .loadHead x.ring.m_tail x.ring.occupancy x.ring.pushClaims.length
      some { x with pc := Function.update x.pc caller pc }
  | .loadHead tail occupancy pushed =>
      let answer := ⟨sizeApprox tail x.ring.m_head, occupancy, x.ring.occupancy,
        x.ring.pushClaims.length - pushed⟩
      some { x with
        pc := Function.update x.pc caller .idle
        answers := x.answers ++ [answer] }

/-- The ring of `Capacity` slots and the callers of `size_approx`. -/
def measured (Tid : Type u) (T : Type v) (Caller : Type) [DecidableEq Tid] [DecidableEq Caller]
    (Capacity : Nat) : Machine (Measured Tid T Caller) (SizeAction Tid T Caller) where
  init := ⟨init, fun _ => .idle, []⟩
  step x
    | .ring action => (step Capacity x.ring action).map fun ring => { x with ring := ring }
    | .call caller =>
        match x.pc caller with
        | .idle => some { x with pc := Function.update x.pc caller .loadTail }
        | _ => none
    | .load caller => x.load caller

/-! ### The invariant -/

/-- The counters have moved on since the first load. -/
def SizePc.Fits (Capacity : Nat) (s : State Tid T) : SizePc → Prop
  | .idle | .loadTail => True
  | .loadHead tail occupancy pushed =>
      tail ≤ s.m_tail ∧ pushed = tail ∧ tail - s.m_head ≤ occupancy ∧ occupancy ≤ Capacity

/-- What a call of `size_approx` promises. -/
structure Answer.Sound (Capacity : Nat) (answer : Answer) : Prop where
  atTail : answer.result ≤ answer.atTail
  atHead : answer.result ≤ answer.atHead
  tailBound : answer.atTail ≤ Capacity
  headBound : answer.atHead ≤ Capacity
  exact : answer.pushed = 0 → answer.result = answer.atHead
  /-- a ring that holds something is not reported empty unless a push ran during the call -/
  empty : answer.empty = true → 0 < answer.atHead → 0 < answer.pushed

structure MeasuredInv (Capacity : Nat) (x : Measured Tid T Caller) : Prop where
  ring : Inv Capacity x.ring
  callers : ∀ caller, (x.pc caller).Fits Capacity x.ring
  answers : ∀ answer ∈ x.answers, answer.Sound Capacity

variable {x next : Measured Tid T Caller} {s s' : State Tid T}

omit [DecidableEq Caller] in
/-- The counters only grow. -/
theorem counter_mono {action : Action Tid T} (hinv : Inv (2 ^ k) s) (hnext : Inv (2 ^ k) s')
    (hstep : step (2 ^ k) s action = some s') (side : Side) : s.counter side ≤ s'.counter side := by
  obtain ⟨claimed, hclaimants, -⟩ := step_claimants hstep side
  rw [← hinv.claimants_length, ← hnext.claimants_length, hclaimants, List.length_append]
  exact Nat.le_add_right _ _

omit [DecidableEq Tid] [DecidableEq Caller] in
theorem SizePc.Fits.mono {Capacity : Nat} {pc : SizePc} (hfits : pc.Fits Capacity s)
    (htail : s.m_tail ≤ s'.m_tail) (hhead : s.m_head ≤ s'.m_head) : pc.Fits Capacity s' := by
  cases pc with
  | idle => trivial
  | loadTail => trivial
  | loadHead tail occupancy pushed =>
      obtain ⟨hle, hpushed, hoccupancy, hbound⟩ := hfits
      exact ⟨Nat.le_trans hle htail, hpushed,
        Nat.le_trans (Nat.sub_le_sub_left hhead tail) hoccupancy, hbound⟩

omit [DecidableEq Tid] [DecidableEq Caller] in
theorem Inv.occupancy_le {Capacity : Nat} (hinv : Inv Capacity s) : s.occupancy ≤ Capacity := by
  have hbound := hinv.tail_le
  rw [State.occupancy]
  omega

omit [DecidableEq Tid] [DecidableEq Caller] in
/-- The answer of the second load. -/
theorem SizePc.Fits.sound {Capacity tail occupancy pushed : Nat} (hinv : Inv Capacity s)
    (hfits : (SizePc.loadHead tail occupancy pushed).Fits Capacity s) :
    Answer.Sound Capacity ⟨sizeApprox tail s.m_head, occupancy, s.occupancy,
      s.pushClaims.length - pushed⟩ := by
  obtain ⟨hle, rfl, hoccupancy, hbound⟩ := hfits
  have hclaims := hinv.pushNumbered.length
  have horder := hinv.head_le_tail
  have hresult : sizeApprox pushed s.m_head = pushed - s.m_head := by
    rw [sizeApprox]
    split <;> omega
  rw [hresult, hclaims]
  refine ⟨hoccupancy, Nat.sub_le_sub_right hle _, hbound, hinv.occupancy_le, fun hnone => ?_, ?_⟩
  · have hsame : pushed = s.m_tail := Nat.le_antisymm hle (Nat.sub_eq_zero_iff_le.mp hnone)
    rw [State.occupancy, ← hsame]
  · intro hempty hsome
    have hzero : pushed - s.m_head = 0 := by simpa [Answer.empty] using hempty
    simp only [State.occupancy] at hsome
    change 0 < s.m_tail - pushed
    omega

omit [DecidableEq Tid] in
/-- A caller moves on. -/
theorem MeasuredInv.goto {Capacity : Nat} (hinv : MeasuredInv Capacity x) {pc : SizePc}
    (hpc : pc.Fits Capacity x.ring) (caller other : Caller) :
    (Function.update x.pc caller pc other).Fits Capacity x.ring := by
  by_cases heq : other = caller
  · rw [heq, Function.update_self]
    exact hpc
  · rw [Function.update_of_ne heq]
    exact hinv.callers other

omit [DecidableEq Tid] in
theorem MeasuredInv.load (hinv : MeasuredInv (2 ^ k) x) {caller : Caller}
    (hload : x.load caller = some next) : MeasuredInv (2 ^ k) next := by
  have hcaller := hinv.callers caller
  rw [Measured.load] at hload
  cases hpc : x.pc caller with
  | idle =>
      rw [hpc] at hload
      cases hload
  | loadTail =>
      rw [hpc, Option.some.injEq] at hload
      subst hload
      have hfits : (SizePc.loadHead x.ring.m_tail x.ring.occupancy x.ring.pushClaims.length).Fits
          (2 ^ k) x.ring :=
        ⟨Nat.le_refl _, hinv.ring.pushNumbered.length, Nat.le_refl _, hinv.ring.occupancy_le⟩
      exact ⟨hinv.ring, hinv.goto hfits caller, hinv.answers⟩
  | loadHead tail occupancy pushed =>
      rw [hpc, Option.some.injEq] at hload
      rw [hpc] at hcaller
      subst hload
      have hfits : SizePc.idle.Fits (2 ^ k) x.ring := trivial
      refine ⟨hinv.ring, hinv.goto hfits caller, fun answer hmem => ?_⟩
      rcases List.mem_append.mp hmem with hold | hnew
      · exact hinv.answers answer hold
      · rw [List.mem_singleton.mp hnew]
        exact hcaller.sound hinv.ring

theorem MeasuredInv.step (hk : 1 ≤ k) (hinv : MeasuredInv (2 ^ k) x)
    {action : SizeAction Tid T Caller}
    (hstep : (measured Tid T Caller (2 ^ k)).step x action = some next) :
    MeasuredInv (2 ^ k) next := by
  cases action with
  | ring action =>
      obtain ⟨ring, hring, rfl⟩ := Option.map_eq_some_iff.mp hstep
      have hnext := hinv.ring.step hk hring
      have hmono := counter_mono hinv.ring hnext hring
      exact ⟨hnext, fun caller => (hinv.callers caller).mono (hmono .push) (hmono .pop),
        hinv.answers⟩
  | call caller =>
      simp only [measured] at hstep
      split at hstep
      · obtain rfl := Option.some.inj hstep
        have hfits : SizePc.loadTail.Fits (2 ^ k) x.ring := trivial
        exact ⟨hinv.ring, hinv.goto hfits caller, hinv.answers⟩
      · cases hstep
  | load caller => exact hinv.load hstep

/-- **`size_approx` never over-reports.**  In every interleaving each answer is at most the
occupancy of the ring at either load, and exact at the second if no push claimed a position in
between. -/
theorem size_approx_sound (hk : 1 ≤ k)
    (hreach : (measured Tid T Caller (2 ^ k)).Reachable x) :
    ∀ answer ∈ x.answers, answer.Sound (2 ^ k) := by
  have hinit : MeasuredInv (2 ^ k) (measured Tid T Caller (2 ^ k)).init :=
    ⟨inv_init k, fun _ => trivial, fun _ hmem => absurd hmem List.not_mem_nil⟩
  exact (hreach.invariant (MeasuredInv (2 ^ k)) hinit
    (fun _ _ _ hinv hstep => hinv.step hk hstep)).answers

/-- One item is in the ring when the caller loads `m_tail`; before it loads `m_head` a thread
pushes another and pops one. -/
theorem size_approx_sound_overtaken : ∃ x : Measured Bool Nat Unit,
    x.answers = [⟨0, 1, 1, 1⟩] ∧ ∀ answer ∈ x.answers, answer.Sound 2 := by
  obtain ⟨x, hreach, hanswers⟩ := Machine.exists_reachable_of_run (measured Bool Nat Unit (2 ^ 1))
    ([.ring (.callPush false 7)] ++ List.replicate 5 (.ring (.run false false)) ++
      [.call (), .load (), .ring (.ret false), .ring (.callPush false 8)] ++
      List.replicate 5 (.ring (.run false false)) ++ [.ring (.callPop true)] ++
      List.replicate 5 (.ring (.run true false)) ++ [.load ()])
    (fun x => x.answers == [⟨0, 1, 1, 1⟩]) (by decide)
  exact ⟨x, by simpa using hanswers, size_approx_sound (k := 1) (by decide) hreach⟩

end

end MessageCenter.MPMCQueue
