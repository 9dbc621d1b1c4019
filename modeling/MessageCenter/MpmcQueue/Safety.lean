import MessageCenter.MpmcQueue.Preservation

/-!
# Safety of the ring under every interleaving

The invariant read from outside: what callers of `try_push` and `try_pop` may
rely on in every reachable state.  One more fact about runs is needed, that a
position claimed by a consumer stays with it until `try_pop` returns.
-/

namespace MessageCenter.MPMCQueue

open Concurrency Concurrency.PositionLog

universe u v

variable {Tid : Type u} {T : Type v} {k : Nat} {s next : State Tid T} {t : Tid}

/-! ### A claimed position is at work or has been returned -/

/-- The claim of `thread` on `pos` was closed by a return. -/
def State.Returned (s : State Tid T) (thread : Tid) (pos : Nat) : Prop :=
  ∃ result ∈ s.popReturns, result.thread = thread ∧ result.pos = pos

/-- Every claim of a consumer is at work or was closed by a return. -/
def Accounted (s : State Tid T) : Prop :=
  ∀ claim ∈ s.popClaims, s.Popping claim.thread claim.pos ∨ s.Returned claim.thread claim.pos

theorem State.Returned.mono {thread : Tid} {pos : Nat} (hret : s.Returned thread pos)
    (hsub : s.popReturns ⊆ next.popReturns) : next.Returned thread pos := by
  obtain ⟨result, hmem, heq⟩ := hret
  exact ⟨result, hsub hmem, heq⟩

theorem accounted_init : Accounted (init : State Tid T) := by
  intro claim hmem
  cases hmem

/-- A step of `t` that claims nothing keeps the account if it keeps or closes
the claim that `t` holds. -/
theorem Accounted.of_step (hacc : Accounted s) (hclaims : next.popClaims = s.popClaims)
    (hreturns : s.popReturns ⊆ next.popReturns)
    (hsame : ∀ other, other ≠ t → next.pc other = s.pc other)
    (hself : ∀ pos, s.Popping t pos → next.Popping t pos ∨ next.Returned t pos) :
    Accounted next := by
  intro claim hmem
  rw [hclaims] at hmem
  rcases hacc claim hmem with hwork | hdone
  · by_cases heq : claim.thread = t
    · rw [heq] at hwork ⊢
      exact hself claim.pos hwork
    · exact Or.inl (hwork.congr (hsame _ heq))
  · exact Or.inr (hdone.mono hreturns)

variable [DecidableEq Tid]

theorem Accounted.goto (hacc : Accounted s) {pc : PC T} (hold : ¬ (s.pc t).Critical) :
    Accounted (s.goto t pc) :=
  hacc.of_step rfl (List.Subset.refl _) (fun _ => s.goto_pc_other t pc)
    (fun _ hpop => absurd hpop.critical hold)

theorem Accounted.runThread {C : Nat} (hacc : Accounted s) {spurious : Bool}
    (hstep : runThread C s t spurious = some next) : Accounted next := by
  unfold MPMCQueue.runThread at hstep
  cases hpc : s.pc t with
  | idle | pushReturned _ | popReturned _ => simp [hpc] at hstep
  | pushLoadTail item | popLoadHead =>
      simp only [hpc, Option.some.injEq] at hstep
      exact hstep ▸ hacc.goto (by simp [hpc, PC.Critical])
  | pushLoadSeq item tail | popLoadSeq head =>
      have hold : ¬ (s.pc t).Critical := by simp [hpc, PC.Critical]
      simp only [hpc] at hstep
      split at hstep
      · rw [Option.some.injEq] at hstep
        exact hstep ▸ hacc.goto hold
      · split at hstep <;> rw [Option.some.injEq] at hstep <;> exact hstep ▸ hacc.goto hold
  | pushCas item tail =>
      have hold : ¬ (s.pc t).Critical := by simp [hpc, PC.Critical]
      simp only [hpc] at hstep
      split at hstep <;> rw [Option.some.injEq] at hstep <;> subst hstep
      · exact hacc.of_step rfl (List.Subset.refl _) (fun other => s.goto_pc_other t _)
          (fun _ hpop => absurd hpop.critical hold)
      · exact hacc.goto hold
  | pushWrite item tail | pushStore item tail =>
      simp only [hpc, Option.some.injEq] at hstep
      subst hstep
      exact hacc.of_step rfl (List.Subset.refl _) (fun other => State.goto_pc_other _ t _)
        (fun _ hpop => by simp [State.Popping, hpc] at hpop)
  | popCas head =>
      have hold : ¬ (s.pc t).Critical := by simp [hpc, PC.Critical]
      simp only [hpc] at hstep
      split at hstep <;> rw [Option.some.injEq] at hstep <;> subst hstep
      · intro claim hmem
        have hself : (s.claimPop t head).pc t = .popRead head := State.goto_pc_self _ _ _
        rcases List.mem_append.mp hmem with hmem | hmem
        · rcases hacc claim hmem with hwork | hdone
          · have hne : claim.thread ≠ t := fun heq => hold (heq ▸ hwork.critical)
            exact Or.inl (hwork.congr (s.goto_pc_other t _ hne))
          · exact Or.inr hdone
        · rw [List.mem_singleton] at hmem
          subst hmem
          exact Or.inl (Or.inl hself)
      · exact hacc.goto hold
  | popRead head =>
      simp only [hpc, Option.some.injEq] at hstep
      subst hstep
      refine hacc.of_step rfl (List.Subset.refl _) (fun other => s.goto_pc_other t _) ?_
      intro pos hpop
      left
      simpa [State.Popping, hpc] using hpop
  | popStore head item =>
      simp only [hpc, Option.some.injEq] at hstep
      subst hstep
      refine hacc.of_step rfl (List.subset_append_left _ _)
        (fun other => State.goto_pc_other _ t _) ?_
      intro pos hpop
      have hpos : head = pos := by simpa [State.Popping, hpc] using hpop
      exact Or.inr ⟨⟨t, head, item⟩, List.mem_append_right _ (List.mem_singleton.mpr rfl), rfl, hpos⟩

theorem reachable_accounted {C : Nat} (hreach : (machine Tid T C).Reachable s) : Accounted s := by
  refine hreach.invariant Accounted accounted_init ?_
  intro state after action hacc hstep
  cases action with
  | run t spurious => exact hacc.runThread hstep
  | callPush t item | callPop t | ret t =>
      simp only [machine, step] at hstep
      cases hpc : state.pc t <;> simp only [hpc, Option.some.injEq, reduceCtorEq] at hstep
      all_goals exact hstep ▸ hacc.goto (by simp [hpc, PC.Critical])

/-! ### The contract of the ring -/

/-- `t` is between its compare-exchange and its `seq` store on slot `index`. -/
def State.AtSlot (Capacity : Nat) (s : State Tid T) (t : Tid) (index : Nat) : Prop :=
  ∃ pos, slotIndex Capacity pos = index ∧ (s.Pushing t pos ∨ s.Popping t pos)

/-- What the ring guarantees in one state. -/
structure Safe (Capacity : Nat) (s : State Tid T) : Prop where
  head_le_tail : s.m_head ≤ s.m_tail
  tail_le : s.m_tail ≤ s.m_head + Capacity
  /-- each position is claimed by at most one successful push … -/
  pushedOnce : (s.pushClaims.map PushClaim.pos).Nodup
  /-- … and at most one successful pop -/
  poppedOnce : (s.popClaims.map PopClaim.pos).Nodup
  /-- a pop that claimed a position returns the item of the push that claimed it -/
  delivered : ∀ result ∈ s.popReturns, ⟨result.thread, result.pos⟩ ∈ s.popClaims ∧
    ∃ claim ∈ s.pushClaims, claim.pos = result.pos ∧ result.item = some claim.item
  /-- and no position is returned twice -/
  deliveredOnce : (s.popReturns.map PopReturn.pos).Nodup
  /-- one thread at a time works on a slot -/
  exclusive : ∀ first second index, s.AtSlot Capacity first index →
    s.AtSlot Capacity second index → first = second
  /-- an item that no pop has claimed is in its slot, or its producer is at work -/
  kept : ∀ claim ∈ s.pushClaims, s.m_head ≤ claim.pos →
    s.slot Capacity claim.pos = ⟨claim.pos + 1, some claim.item⟩ ∨
      s.Pushing claim.thread claim.pos
  /-- an item that a pop has claimed is returned by it, or the consumer is at work -/
  taken : ∀ claim ∈ s.popClaims,
    s.Popping claim.thread claim.pos ∨ s.Returned claim.thread claim.pos
  /-- pops claim the positions in the order in which pushes claimed them -/
  ordered : s.popClaims.map PopClaim.pos <+: s.pushClaims.map PushClaim.pos

omit [DecidableEq Tid] in
/-- Producers and consumers at work on one slot are one thread. -/
theorem Inv.atSlot_unique (hinv : Inv (2 ^ k) s) {first second : Tid} {index : Nat}
    (hfirst : s.AtSlot (2 ^ k) first index) (hsecond : s.AtSlot (2 ^ k) second index) :
    first = second := by
  obtain ⟨p, hp, hfirst⟩ := hfirst
  obtain ⟨q, hq, hsecond⟩ := hsecond
  have heq : slotIndex (2 ^ k) p = slotIndex (2 ^ k) q := hp.trans hq.symm
  have hheadTail := hinv.head_le_tail
  have htailLe := hinv.tail_le
  rcases hfirst with hfirst | hfirst <;> rcases hsecond with hsecond | hsecond
  · obtain ⟨hpHead, hpTail, _⟩ := hinv.pushing_spec hfirst
    obtain ⟨hqHead, hqTail, _⟩ := hinv.pushing_spec hsecond
    have hpq := eq_of_slotIndex_eq s.m_head hpHead (by omega) hqHead (by omega) heq
    exact hinv.pushing_unique hfirst (hpq ▸ hsecond)
  · obtain ⟨hpHead, hpTail, _⟩ := hinv.pushing_spec hfirst
    obtain ⟨hqHead, hqTail, _⟩ := hinv.popping_spec hsecond
    rw [← slotIndex_add_capacity k q] at heq
    have hpq := eq_of_slotIndex_eq s.m_head hpHead (by omega) (by omega) (by omega) heq
    omega
  · obtain ⟨hpHead, hpTail, _⟩ := hinv.popping_spec hfirst
    obtain ⟨hqHead, hqTail, _⟩ := hinv.pushing_spec hsecond
    rw [← slotIndex_add_capacity k p] at heq
    have hpq := eq_of_slotIndex_eq s.m_head (by omega) (by omega) hqHead (by omega) heq
    omega
  · obtain ⟨hpHead, hpTail, _⟩ := hinv.popping_spec hfirst
    obtain ⟨hqHead, hqTail, _⟩ := hinv.popping_spec hsecond
    rw [← slotIndex_add_capacity k p, ← slotIndex_add_capacity k q] at heq
    have hpq := eq_of_slotIndex_eq s.m_head (by omega) (by omega) (by omega)
      (by omega) heq
    have hpq : p = q := by omega
    exact hinv.popping_unique hfirst (hpq ▸ hsecond)

omit [DecidableEq Tid] in
/-- The occupied part of the window keeps every unclaimed item. -/
theorem Inv.kept (hinv : Inv (2 ^ k) s) {claim : PushClaim Tid T} (hmem : claim ∈ s.pushClaims)
    (hhead : s.m_head ≤ claim.pos) :
    s.slot (2 ^ k) claim.pos = ⟨claim.pos + 1, some claim.item⟩ ∨
      s.Pushing claim.thread claim.pos := by
  have htail := hinv.pushNumbered.pos_lt hmem
  rcases hinv.occupied claim.pos hhead htail with ⟨hseq, hdata⟩ | ⟨_, other, hpush⟩
  · left
    rw [hinv.itemAt_of_mem hmem] at hdata
    cases hslot : s.slot (2 ^ k) claim.pos
    rw [hslot] at hseq hdata
    rw [← hseq, ← hdata]
  · right
    obtain ⟨_, _, _, item, hother⟩ := hinv.pushing_spec hpush
    have heq := hinv.pushNumbered.eq_of_pos_eq hother hmem rfl
    rw [← heq]
    exact hpush

/-- **Safety of `MPMCQueue`.**  For every capacity `2 ^ k` with `k ≥ 1`, any
threads and any interleaving of their steps, every reachable state is safe. -/
theorem reachable_safe (hk : 1 ≤ k) (hreach : (machine Tid T (2 ^ k)).Reachable s) :
    Safe (2 ^ k) s := by
  have hinv := reachable_inv hk hreach
  refine ⟨hinv.head_le_tail, hinv.tail_le, hinv.pushNumbered.nodup, hinv.popNumbered.nodup,
    ?_, hinv.popReturnedOnce, fun _ _ _ => hinv.atSlot_unique, fun _ => hinv.kept,
    reachable_accounted hreach, ?_⟩
  · intro result hmem
    obtain ⟨hclaim, hitem, _⟩ := hinv.popReturned result hmem
    have hlt : result.pos < s.m_tail :=
      Nat.lt_of_lt_of_le (hinv.popNumbered.pos_lt hclaim) hinv.head_le_tail
    obtain ⟨claim, hpush, hpos⟩ := hinv.pushNumbered.exists_of_lt hlt
    refine ⟨hclaim, claim, hpush, hpos, ?_⟩
    rw [hitem, ← hpos]
    exact hinv.itemAt_of_mem hpush
  · rw [hinv.pushNumbered, hinv.popNumbered]
    have htake : List.range s.m_head = (List.range s.m_tail).take s.m_head := by
      rw [List.take_range, Nat.min_eq_left hinv.head_le_tail]
    exact htake ▸ List.take_prefix _ _

/-- The guarantee at work: two threads on a ring of two slots, one item pushed
and popped. -/
theorem reachable_safe_two_threads :
    ∃ s : State Bool Nat, Safe 2 s ∧ s.popReturns = [⟨true, 0, some 7⟩] := by
  obtain ⟨s, hreach, hdone⟩ := Machine.exists_reachable_of_run
    (machine Bool Nat (2 ^ 1))
    ([.callPush false 7, .callPop true] ++
      List.replicate 5 (.run false false) ++ List.replicate 5 (.run true false))
    (fun s => s.popReturns == [⟨true, 0, some 7⟩]) (by decide)
  exact ⟨s, reachable_safe (k := 1) (by decide) hreach, by simpa using hdone⟩

end MessageCenter.MPMCQueue
