import MessageCenter.MpmcQueue.Preservation

/-!
# What a failed operation says about the ring

`try_pop` answers "empty" and `try_push` answers "full" from the `seq` of one
slot.  That slot lags while its owner stands between the compare-exchange and
the `seq` store, so the answers are those of a bounded FIFO only in runs that
never look at such a slot.
-/

namespace MessageCenter.MPMCQueue

open Concurrency Concurrency.PositionLog

universe u v

variable {Tid : Type u} {T : Type v} {k : Nat} {s : State Tid T} {t : Tid}

/-! ### The `seq` of a position that has been claimed -/

/-- On the window `seq` is less than one lap behind the position. -/
theorem Inv.seq_ge_of_window (hinv : Inv (2 ^ k) s) {pos : Nat} (hstart : s.m_head ≤ pos)
    (hend : pos < s.m_head + 2 ^ k) : pos + 1 ≤ (s.slot (2 ^ k) pos).seq + 2 ^ k := by
  have hcap : 0 < 2 ^ k := Nat.two_pow_pos k
  by_cases htail : pos < s.m_tail
  · rcases hinv.occupied pos hstart htail with ⟨hseq, _⟩ | ⟨hseq, _⟩ <;> omega
  · rcases hinv.vacant pos (by omega) hend with hseq | ⟨before, other, heq, hpop⟩
    · omega
    · have hbefore := (hinv.popping_spec hpop).2.2.1
      rw [← heq, State.slot, slotIndex_add_capacity, ← State.slot]
      omega

theorem Inv.seq_ge_of_lt_head (hinv : Inv (2 ^ k) s) {pos : Nat} (hlt : pos < s.m_head) :
    pos + 1 ≤ (s.slot (2 ^ k) pos).seq := by
  obtain ⟨laps, hlaps, hstart, hend⟩ := exists_lap (k := k) hlt
  have hwindow := hinv.seq_ge_of_window hstart hend
  rw [State.slot, slotIndex_add_laps, ← State.slot] at hwindow
  have hone : 2 ^ k ≤ 2 ^ k * laps := Nat.le_mul_of_pos_right _ hlaps
  omega

theorem Inv.seq_ge_of_lt_tail (hinv : Inv (2 ^ k) s) {pos : Nat} (hlt : pos < s.m_tail) :
    pos ≤ (s.slot (2 ^ k) pos).seq := by
  by_cases hhead : pos < s.m_head
  · exact Nat.le_of_succ_le (hinv.seq_ge_of_lt_head hhead)
  · rcases hinv.occupied pos (by omega) hlt with ⟨hseq, _⟩ | ⟨hseq, _⟩ <;> omega

/-- A `seq` that makes `try_pop` answer "empty" was read at `m_head`: nothing is
claimed there, or the producer that claimed it has not stored `seq` yet. -/
theorem Inv.unpublished_of_pop_fails (hinv : Inv (2 ^ k) s) {head : Nat} (hle : head ≤ s.m_head)
    (hseq : (s.slot (2 ^ k) head).seq < head + 1) :
    head = s.m_head ∧ (s.m_head = s.m_tail ∨ ∃ producer, s.Pushing producer head) := by
  have hheadTail := hinv.head_le_tail
  have hhead : head = s.m_head := by
    by_contra hne
    have hge := hinv.seq_ge_of_lt_head (show head < s.m_head by omega)
    omega
  refine ⟨hhead, ?_⟩
  by_cases hempty : s.m_head = s.m_tail
  · exact Or.inl hempty
  · rcases hinv.occupied head (by omega) (by omega) with ⟨hpub, _⟩ | ⟨_, hpush⟩
    · omega
    · exact Or.inr hpush

/-- A `seq` that makes `try_push` answer "full" was read at `m_tail`: a whole lap
is claimed and not popped, or the consumer of the previous lap has not stored
`seq` yet. -/
theorem Inv.unfreed_of_push_fails (hinv : Inv (2 ^ k) s) {tail : Nat} (hle : tail ≤ s.m_tail)
    (hseq : (s.slot (2 ^ k) tail).seq < tail) :
    tail = s.m_tail ∧ (s.m_tail = s.m_head + 2 ^ k ∨
      ∃ before consumer, before + 2 ^ k = tail ∧ s.Popping consumer before) := by
  have htailLe := hinv.tail_le
  have htail : tail = s.m_tail := by
    by_contra hne
    have hge := hinv.seq_ge_of_lt_tail (show tail < s.m_tail by omega)
    omega
  refine ⟨htail, ?_⟩
  by_cases hfull : s.m_tail = s.m_head + 2 ^ k
  · exact Or.inl hfull
  · rcases hinv.vacant tail (by omega) (by omega) with hready | hpop
    · omega
    · exact Or.inr hpop

/-! ### Failed calls in an execution -/

/-- Every item whose `try_push` has returned `true` is claimed by some `try_pop`. -/
def State.CompletedClaimed (s : State Tid T) : Prop :=
  ∀ claim ∈ s.pushReturns, claim.pos ∈ s.popClaims.map PopClaim.pos

/-- The positions claimed by pushes and not yet by pops. -/
def State.unpopped (s : State Tid T) : List (PushClaim Tid T) :=
  s.pushClaims.filter fun claim => claim.pos ∉ s.popClaims.map PopClaim.pos

theorem Inv.unpopped_length {C : Nat} (hinv : Inv C s) :
    s.unpopped.length = s.m_tail - s.m_head := by
  have hcount : s.unpopped.length =
      ((List.range s.m_tail).filter fun pos => pos ∉ List.range s.m_head).length := by
    rw [← hinv.pushNumbered, ← hinv.popNumbered, List.filter_map, List.length_map]
    rfl
  obtain ⟨rest, hrest⟩ := Nat.exists_eq_add_of_le hinv.head_le_tail
  have hpopped : (List.range s.m_head).filter (fun pos => pos ∉ List.range s.m_head) = [] :=
    List.filter_eq_nil_iff.mpr (fun pos hpos => by simpa using List.mem_range.mp hpos)
  have hkept : ((List.range rest).map (s.m_head + ·)).filter
      (fun pos => pos ∉ List.range s.m_head) = (List.range rest).map (s.m_head + ·) := by
    refine List.filter_eq_self.mpr (fun pos hpos => ?_)
    obtain ⟨offset, _, rfl⟩ := List.mem_map.mp hpos
    simp
  rw [hcount, hrest, List.range_add, List.filter_append, hpopped, hkept]
  simp

/-- The load that makes `try_pop` fail sees every returned push claimed. -/
theorem Inv.completedClaimed_of_pop_fails (hinv : Inv (2 ^ k) s) {head : Nat}
    (hle : head ≤ s.m_head) (hseq : (s.slot (2 ^ k) head).seq < head + 1)
    (hpeer : (∃ producer, s.Pushing producer head) → ∀ claim ∈ s.pushReturns, claim.pos ≤ head) :
    s.CompletedClaimed := by
  obtain ⟨hhead, hcase⟩ := hinv.unpublished_of_pop_fails hle hseq
  intro claim hmem
  obtain ⟨hclaim, hpub⟩ := hinv.pushReturned claim hmem
  have htail := hinv.pushNumbered.pos_lt hclaim
  have hlt : claim.pos < s.m_head := by
    rcases hcase with hempty | hpush
    · omega
    · have hclaimLe := hpeer hpush claim hmem
      rcases hpub with hlt | hpub
      · exact hlt
      · by_contra hge
        have heq : claim.pos = head := by omega
        rw [heq] at hpub
        omega
  rw [hinv.popNumbered]
  exact List.mem_range.mpr hlt

/-- The load that makes `try_push` fail sees a whole lap claimed and not popped. -/
theorem Inv.unpopped_of_push_fails (hinv : Inv (2 ^ k) s) {tail : Nat} (hle : tail ≤ s.m_tail)
    (hseq : (s.slot (2 ^ k) tail).seq < tail)
    (hpeer : ∀ before, before + 2 ^ k = tail → ∀ consumer, ¬ s.Popping consumer before) :
    s.unpopped.length = 2 ^ k := by
  obtain ⟨_, hfull | ⟨before, consumer, hlap, hpop⟩⟩ := hinv.unfreed_of_push_fails hle hseq
  · rw [hinv.unpopped_length, hfull, Nat.add_sub_cancel_left]
  · exact absurd hpop (hpeer before hlap consumer)

variable [DecidableEq Tid]

/-- `t` called `try_pop` at `call` and that call returned `false` in step `fail`. -/
structure PopFails {Capacity : Nat} (exec : Execution (machine Tid T Capacity)) (t : Tid)
    (call fail : Nat) : Prop where
  called : exec.action call = .callPop t
  before : call < fail
  within : fail < exec.length
  failed : ∃ spurious, exec.action fail = .run t spurious
  returned : (exec.state (fail + 1)).pc t = .popReturned none
  sameCall : ∀ k, call < k → k < fail → exec.action k ≠ .callPop t

/-- `t` called `try_push` at `call` and that call returned `false` in step `fail`. -/
structure PushFails {Capacity : Nat} (exec : Execution (machine Tid T Capacity)) (t : Tid)
    (call fail : Nat) : Prop where
  called : ∃ item, exec.action call = .callPush t item
  before : call < fail
  within : fail < exec.length
  failed : ∃ spurious, exec.action fail = .run t spurious
  returned : (exec.state (fail + 1)).pc t = .pushReturned false
  sameCall : ∀ k, call < k → k < fail → ∀ item, exec.action k ≠ .callPush t item

/-- The failures of an execution are those of a bounded FIFO: each failed call
has an instant, from its invocation to its return, at which the ring was empty
(for `try_pop`) or full (for `try_push`). -/
structure FailuresTruthful {Capacity : Nat} (exec : Execution (machine Tid T Capacity)) :
    Prop where
  pops : ∀ t call fail, PopFails exec t call fail →
    ∃ instant, call ≤ instant ∧ instant ≤ fail + 1 ∧ (exec.state instant).CompletedClaimed
  pushes : ∀ t call fail, PushFails exec t call fail →
    ∃ instant, call ≤ instant ∧ instant ≤ fail + 1 ∧
      (exec.state instant).unpopped.length = Capacity

/-- The step looks at no slot whose owner is stalled.  A `try_pop` loads the
`seq` of a position while its producer stands before the `seq` store only if no
push of a later position has returned; a `try_push` never loads the `seq` of a
slot whose consumer stands before the `seq` store. -/
def NoStalledPeer (Capacity : Nat) (s : State Tid T) : Action Tid T → Prop
  | .run t _ =>
      match s.pc t with
      | .popLoadSeq head => (∃ producer, s.Pushing producer head) →
          ∀ claim ∈ s.pushReturns, claim.pos ≤ head
      | .pushLoadSeq _ tail => ∀ before, before + Capacity = tail →
          ∀ consumer, ¬ s.Popping consumer before
      | _ => True
  | _ => True

/-! ### The step in which a call fails -/

theorem runThread_pop_fails {C : Nat} {spurious : Bool} {next : State Tid T}
    (hstep : runThread C s t spurious = some next) (hpc : next.pc t = .popReturned none) :
    ∃ head, s.pc t = .popLoadSeq head ∧ (s.slot C head).seq < head + 1 := by
  unfold runThread at hstep
  cases hpc' : s.pc t <;> simp only [hpc', reduceCtorEq] at hstep
  case popLoadSeq head =>
    refine ⟨head, rfl, ?_⟩
    split at hstep
    · rw [Option.some.injEq] at hstep
      subst hstep
      simp at hpc
    · split at hstep
      · omega
      · rw [Option.some.injEq] at hstep
        subst hstep
        simp at hpc
  all_goals try split at hstep
  all_goals try split at hstep
  all_goals rw [Option.some.injEq] at hstep
  all_goals subst hstep
  all_goals simp [State.claimPush, State.claimPop, State.writeData, State.publish, State.free,
    State.goto] at hpc

theorem runThread_push_fails {C : Nat} {spurious : Bool} {next : State Tid T}
    (hstep : runThread C s t spurious = some next) (hpc : next.pc t = .pushReturned false) :
    ∃ item tail, s.pc t = .pushLoadSeq item tail ∧ (s.slot C tail).seq < tail := by
  unfold runThread at hstep
  cases hpc' : s.pc t <;> simp only [hpc', reduceCtorEq] at hstep
  case pushLoadSeq item tail =>
    refine ⟨item, tail, rfl, ?_⟩
    split at hstep
    · rw [Option.some.injEq] at hstep
      subst hstep
      simp at hpc
    · split at hstep
      · omega
      · rw [Option.some.injEq] at hstep
        subst hstep
        simp at hpc
  all_goals try split at hstep
  all_goals try split at hstep
  all_goals rw [Option.some.injEq] at hstep
  all_goals subst hstep
  all_goals simp [State.claimPush, State.claimPop, State.writeData, State.publish, State.free,
    State.goto] at hpc

/-! ### Truthful failures -/

/-- **Truthful failures.**  In every execution whose steps look at no slot of a
stalled owner, each failed `try_pop` and `try_push` has an instant inside the
call at which the ring was empty or full. -/
theorem failures_truthful (hk : 1 ≤ k) (exec : Execution (machine Tid T (2 ^ k)))
    (hallowed : exec.Allowed (NoStalledPeer (2 ^ k))) : FailuresTruthful exec := by
  refine ⟨fun t call fail hfails => ?_, fun t call fail hfails => ?_⟩
  · have hinv := reachable_inv hk (exec.reachable (Nat.le_of_lt hfails.within))
    obtain ⟨spurious, haction⟩ := hfails.failed
    have hstep := exec.steps fail hfails.within
    have hpeer := hallowed fail hfails.within
    rw [haction] at hstep hpeer
    obtain ⟨head, hpc, hseq⟩ := runThread_pop_fails hstep hfails.returned
    simp only [NoStalledPeer, hpc] at hpeer
    have hthread := hinv.threads t
    rw [hpc] at hthread
    exact ⟨fail, Nat.le_of_lt hfails.before, Nat.le_succ fail,
      hinv.completedClaimed_of_pop_fails hthread hseq hpeer⟩
  · have hinv := reachable_inv hk (exec.reachable (Nat.le_of_lt hfails.within))
    obtain ⟨spurious, haction⟩ := hfails.failed
    have hstep := exec.steps fail hfails.within
    have hpeer := hallowed fail hfails.within
    rw [haction] at hstep hpeer
    obtain ⟨item, tail, hpc, hseq⟩ := runThread_push_fails hstep hfails.returned
    simp only [NoStalledPeer, hpc] at hpeer
    have hthread := hinv.threads t
    rw [hpc] at hthread
    exact ⟨fail, Nat.le_of_lt hfails.before, Nat.le_succ fail,
      hinv.unpopped_of_push_fails hthread hseq hpeer⟩

/-- Two threads that push, and one that only pops. -/
inductive Peer where
  | first
  | second
  | reader
deriving DecidableEq, Repr

instance : Inhabited (Action Peer Nat) := ⟨.ret .first⟩

/-- Both producers go for position 0; a third push finds the ring full.  After two pops a third
one finds it empty. -/
def fillAndDrain : List (Action Peer Nat) :=
  [.callPush .first 10, .run .first false, .callPush .second 11, .run .second false,
    .run .first false, .run .second false, .run .first false, .run .first false,
    .run .first false, .ret .first] ++ List.replicate 5 (.run .second false) ++
  [.ret .second, .callPush .first 12, .run .first false, .run .first false, .ret .first,
    .callPop .reader] ++ List.replicate 5 (.run .reader false) ++
  [.ret .reader, .callPop .second] ++ List.replicate 5 (.run .second false) ++
  [.ret .second, .callPop .reader, .run .reader false, .run .reader false]

instance (pc : PC T) : Decidable pc.Critical :=
  match pc with
  | .pushWrite _ _ | .pushStore _ _ | .popRead _ | .popStore _ _ => isTrue trivial
  | .idle | .pushLoadTail _ | .pushLoadSeq _ _ | .pushCas _ _ | .pushReturned _
  | .popLoadHead | .popLoadSeq _ | .popCas _ | .popReturned _ => isFalse id

/-- Nobody stands before a `seq` store when a `seq` is loaded. -/
def loadsBetween (s : State Peer Nat) : Action Peer Nat → Bool
  | .run t _ =>
      match s.pc t with
      | .popLoadSeq _ | .pushLoadSeq _ _ =>
          [Peer.first, .second, .reader].all fun other => decide ¬(s.pc other).Critical
      | _ => true
  | _ => true

theorem noStalledPeer_of_loadsBetween {C : Nat} {s : State Peer Nat} {action : Action Peer Nat}
    (hcheck : loadsBetween s action = true) : NoStalledPeer C s action := by
  have hall : ∀ other : Peer, other ∈ [Peer.first, .second, .reader] := by
    intro other
    cases other <;> decide
  unfold NoStalledPeer
  split
  · next t spurious =>
    split
    · next head hpc =>
      simp only [loadsBetween, hpc, List.all_eq_true, decide_eq_true_eq] at hcheck
      rintro ⟨producer, item, hpush | hpush⟩ <;>
        exact absurd (by simp [hpush, PC.Critical]) (hcheck producer (hall producer))
    · next item tail hpc =>
      simp only [loadsBetween, hpc, List.all_eq_true, decide_eq_true_eq] at hcheck
      rintro before - consumer (hpop | ⟨_, hpop⟩) <;>
        exact hcheck consumer (hall consumer) (by simp [hpop, PC.Critical])
    · trivial
  · trivial

theorem failures_truthful_fillAndDrain :
    let exec := Execution.ofActions (machine Peer Nat (2 ^ 1)) fillAndDrain (by decide)
    PushFails exec .first 16 18 ∧ PopFails exec .reader 34 36 ∧ FailuresTruthful exec := by
  intro exec
  have hallowed : ∀ step < 37, loadsBetween (exec.state step) (exec.action step) = true := by
    decide +kernel
  refine ⟨⟨⟨12, rfl⟩, by decide, by decide, ⟨false, rfl⟩, rfl, fun step hlow hhigh item => ?_⟩,
    ⟨rfl, by decide, by decide, ⟨false, rfl⟩, rfl, fun step hlow hhigh => ?_⟩, ?_⟩
  · obtain rfl : step = 17 := by omega
    exact fun heq => by cases heq
  · obtain rfl : step = 35 := by omega
    exact fun heq => by cases heq
  · exact failures_truthful (by decide) exec fun step hstep =>
      noStalledPeer_of_loadsBetween (hallowed step hstep)

instance : Inhabited (Action Nat Nat) := ⟨.ret 0⟩

/-- Producer 0 claims position 0 and stalls, producer 1 pushes at position 1 and
returns `true`; then consumer 2 is told that the ring is empty. -/
def stalledProducer : List (Action Nat Nat) :=
  [.callPush 0 10, .run 0 false, .run 0 false, .run 0 false,
   .callPush 1 11, .run 1 false, .run 1 false, .run 1 false, .run 1 false, .run 1 false, .ret 1,
   .callPop 2, .run 2 false, .run 2 false]

/-- The ring of two slots fails a pop although a returned push is unclaimed from
the call to the return. -/
theorem stalledProducer_not_truthful :
    ¬ FailuresTruthful
      (Execution.ofActions (machine Nat Nat (2 ^ 1)) stalledProducer (by decide)) := by
  intro htruthful
  obtain ⟨instant, hfrom, hto, hclaimed⟩ := htruthful.pops 2 11 13
    ⟨rfl, by decide, by decide, ⟨false, rfl⟩, by decide, by
      intro k hlow hhigh
      have heq : k = 12 := by omega
      subst heq
      decide⟩
  have hcases : instant = 11 ∨ instant = 12 ∨ instant = 13 ∨ instant = 14 := by omega
  rcases hcases with rfl | rfl | rfl | rfl
  all_goals
    have hmem := hclaimed ⟨1, 1, 11⟩ (by decide)
    revert hmem
    decide

end MessageCenter.MPMCQueue
