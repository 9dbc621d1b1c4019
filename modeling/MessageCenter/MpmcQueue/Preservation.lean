import MessageCenter.MpmcQueue.Invariant

/-!
# Every step keeps the invariant

The two compare-exchanges move a counter, the write fills a slot and the two
`seq` stores hand a slot over.  Each of these five effects is one lemma; all
other steps only move the program counter of the acting thread.  The positions
in use lie in one window of `Capacity`, so a slot that changes belongs to one
position only.
-/

namespace MessageCenter.MPMCQueue

open Concurrency Concurrency.PositionLog

universe u v

variable {Tid : Type u} {T : Type v} {k : Nat} {s : State Tid T} {t : Tid}

/-! ### The slot that a step changes -/

theorem two_le_capacity (hk : 1 ≤ k) : 2 ≤ 2 ^ k := by
  simpa using Nat.pow_le_pow_right (show 0 < 2 by decide) hk

theorem slot_ne_of_window (start : Nat) {p q : Nat} (hp : start ≤ p ∧ p < start + 2 ^ k)
    (hq : start ≤ q ∧ q < start + 2 ^ k) (hne : p ≠ q) :
    slotIndex (2 ^ k) p ≠ slotIndex (2 ^ k) q :=
  fun heq => hne (eq_of_slotIndex_eq start hp.1 hp.2 hq.1 hq.2 heq)

/-- The slot of a position that is being freed is the slot one lap ahead. -/
theorem slot_ne_of_lap (start : Nat) {p q : Nat} (hp : start ≤ p + 2 ^ k ∧ p + 2 ^ k < start + 2 ^ k)
    (hq : start ≤ q ∧ q < start + 2 ^ k) (hne : p + 2 ^ k ≠ q) :
    slotIndex (2 ^ k) p ≠ slotIndex (2 ^ k) q := by
  rw [← slotIndex_add_capacity k p]
  exact slot_ne_of_window start hp hq hne

theorem State.setSlot_slot_same {C pos : Nat} (slot : Slot T) :
    (s.setSlot (slotIndex C pos) slot).slot C pos = slot := by
  simp [State.setSlot, State.slot]

theorem State.setSlot_slot_ne {C pos other : Nat} (slot : Slot T)
    (hne : slotIndex C other ≠ slotIndex C pos) :
    (s.setSlot (slotIndex C pos) slot).slot C other = s.slot C other := by
  simp [State.setSlot, State.slot, hne]

theorem Inv.itemAt_append {C : Nat} (hinv : Inv C s) {claim : PushClaim Tid T} {pos : Nat}
    (hpos : pos < s.m_tail) :
    ((s.pushClaims ++ [claim])[pos]?).map PushClaim.item = s.itemAt pos := by
  rw [List.getElem?_append_left (by rw [hinv.pushNumbered.length]; exact hpos)]
  rfl

/-- A ready slot at `m_tail` means that the ring has room. -/
theorem Inv.room_of_ready (hk : 1 ≤ k) (hinv : Inv (2 ^ k) s)
    (hseq : (s.slot (2 ^ k) s.m_tail).seq = s.m_tail) : s.m_tail < s.m_head + 2 ^ k := by
  have hcap := two_le_capacity hk
  have htailLe := hinv.tail_le
  by_contra hfull
  have htail : s.m_tail = s.m_head + 2 ^ k := by omega
  rw [htail, State.slot, slotIndex_add_capacity, ← State.slot] at hseq
  rcases hinv.occupied s.m_head (Nat.le_refl _) (by omega) with ⟨hpub, _⟩ | ⟨hpub, _⟩ <;> omega

/-- A published slot at `m_head` means that a push has claimed it. -/
theorem Inv.claimed_of_published (hinv : Inv (2 ^ k) s)
    (hseq : (s.slot (2 ^ k) s.m_head).seq = s.m_head + 1) : s.m_head < s.m_tail := by
  have hpos : 0 < 2 ^ k := Nat.two_pow_pos k
  have hheadTail := hinv.head_le_tail
  by_contra hempty
  have htail : s.m_head = s.m_tail := by omega
  rcases hinv.vacant s.m_head (by omega) (by omega) with hready | ⟨before, other, heq, hpop⟩
  · omega
  · have hbefore := (hinv.popping_spec hpop).2.2.1
    rw [← heq, State.slot, slotIndex_add_capacity, ← State.slot] at hseq
    omega

variable [DecidableEq Tid]

theorem writeData_slot_ne {C pos other : Nat} {item : T}
    (hne : slotIndex C other ≠ slotIndex C pos) :
    (s.writeData C t item pos).slot C other = s.slot C other :=
  State.setSlot_slot_ne _ hne

theorem writeData_seq {C pos other : Nat} {item : T} :
    ((s.writeData C t item pos).slot C other).seq = (s.slot C other).seq := by
  by_cases heq : slotIndex C other = slotIndex C pos
  · simp [State.writeData, State.slot, State.setSlot, State.goto, heq]
  · rw [writeData_slot_ne heq]

theorem publish_slot_ne {C pos other : Nat} {item : T}
    (hne : slotIndex C other ≠ slotIndex C pos) :
    (s.publish C t item pos).slot C other = s.slot C other :=
  State.setSlot_slot_ne _ hne

theorem publish_slot_same {C pos : Nat} {item : T} :
    (s.publish C t item pos).slot C pos = { s.slot C pos with seq := pos + 1 } :=
  State.setSlot_slot_same _

theorem free_slot_ne {C pos other : Nat} {item : Option T}
    (hne : slotIndex C other ≠ slotIndex C pos) :
    (s.free C t pos item).slot C other = s.slot C other :=
  State.setSlot_slot_ne _ hne

theorem free_slot_same {C pos : Nat} {item : Option T} :
    (s.free C t pos item).slot C pos = { s.slot C pos with seq := pos + C } :=
  State.setSlot_slot_same _

/-! ### A producer wins `m_tail` -/

theorem Inv.claimPush (hk : 1 ≤ k) (hinv : Inv (2 ^ k) s) {item : T} {tail : Nat}
    (hpc : s.pc t = .pushCas item tail) (htail : s.m_tail = tail) :
    Inv (2 ^ k) (s.claimPush t item tail) := by
  subst htail
  have hcap := two_le_capacity hk
  have hthread := hinv.threads t
  rw [hpc] at hthread
  obtain ⟨hroom, hready⟩ := hthread.2 rfl
  have hnot : ¬ (s.pc t).Critical := by simp [hpc, PC.Critical]
  have hheadTail := hinv.head_le_tail
  -- no consumer of the previous lap is left on the claimed slot
  have hnoPop : ∀ other before, s.Popping other before → before + 2 ^ k ≠ s.m_tail := by
    intro other before hpop heq
    have hseq := (hinv.popping_spec hpop).2.2.1
    have hslot : s.slot (2 ^ k) before = s.slot (2 ^ k) s.m_tail := by
      rw [← heq, State.slot, State.slot, slotIndex_add_capacity]
    rw [hslot, hready] at hseq
    omega
  have hitem : ∀ pos, pos < s.m_tail →
      (s.claimPush t item s.m_tail).itemAt pos = s.itemAt pos :=
    fun pos hpos => hinv.itemAt_append hpos
  refine ⟨Nat.le_succ_of_le hheadTail, hroom, hinv.pushNumbered.append rfl,
    hinv.popNumbered, ?_, ?_, ?_, ?_, ?_, hinv.popReturnedOnce⟩
  · intro pos hhead hpos
    by_cases heq : pos = s.m_tail
    · subst heq
      exact Or.inr ⟨hready, t, item, Or.inl (State.goto_pc_self _ _ _)⟩
    · have hlt : pos < s.m_tail := by simp only [State.claimPush] at hpos; omega
      rcases hinv.occupied pos hhead hlt with ⟨hseq, hdata⟩ | ⟨hseq, other, hpush⟩
      · exact Or.inl ⟨hseq, hdata.trans (hitem pos hlt).symm⟩
      · have hne : other ≠ t := fun h => hnot (h ▸ hpush.critical)
        exact Or.inr ⟨hseq, other, hpush.congr (s.goto_pc_other t _ hne)⟩
  · intro pos hpos hend
    have hle : s.m_tail ≤ pos := by simp only [State.claimPush] at hpos; omega
    rcases hinv.vacant pos hle hend with hseq | ⟨before, other, heq, hpop⟩
    · exact Or.inl hseq
    · have hne : other ≠ t := fun h => hnot (h ▸ hpop.critical)
      exact Or.inr ⟨before, other, heq, hpop.congr (s.goto_pc_other t _ hne)⟩
  · intro other
    by_cases heq : other = t
    · subst heq
      have hself : (s.claimPush other item s.m_tail).pc other = .pushWrite item s.m_tail :=
        State.goto_pc_self _ _ _
      rw [hself]
      exact ⟨hheadTail, Nat.lt_succ_self _, hready, by simp [State.claimPush]⟩
    · have hother := hinv.threads other
      have hsame : (s.claimPush t item s.m_tail).pc other = s.pc other :=
        State.goto_pc_other _ _ _ heq
      rw [hsame]
      cases hpc' : s.pc other with
      | pushLoadSeq item' tail' =>
          rw [hpc'] at hother
          exact Nat.le_succ_of_le hother
      | pushCas item' tail' =>
          rw [hpc'] at hother
          refine ⟨Nat.le_succ_of_le hother.1, fun habs => ?_⟩
          have hle := hother.1
          simp only [State.claimPush] at habs
          omega
      | pushWrite item' tail' =>
          rw [hpc'] at hother
          exact ⟨hother.1, Nat.lt_succ_of_lt hother.2.1, hother.2.2.1,
            List.mem_append_left _ hother.2.2.2⟩
      | pushStore item' tail' =>
          rw [hpc'] at hother
          exact ⟨hother.1, Nat.lt_succ_of_lt hother.2.1, hother.2.2.1,
            List.mem_append_left _ hother.2.2.2.1, hother.2.2.2.2⟩
      | popCas head =>
          rw [hpc'] at hother
          exact ⟨hother.1, fun h => ⟨Nat.lt_succ_of_lt (hother.2 h).1, (hother.2 h).2⟩⟩
      | popRead head =>
          rw [hpc'] at hother
          have hne := hnoPop other head (Or.inl hpc')
          obtain ⟨hlt, hle, hseq, hmem, hdata⟩ := hother
          refine ⟨hlt, by simp only [State.claimPush]; omega, hseq, hmem, ?_⟩
          exact hdata.trans (hitem head (by omega)).symm
      | popStore head item' =>
          rw [hpc'] at hother
          have hne := hnoPop other head (Or.inr ⟨item', hpc'⟩)
          obtain ⟨hlt, hle, hseq, hmem, hdata⟩ := hother
          refine ⟨hlt, by simp only [State.claimPush]; omega, hseq, hmem, ?_⟩
          exact hdata.trans (hitem head (by omega)).symm
      | popLoadSeq head => rw [hpc'] at hother; exact hother
      | idle | pushLoadTail _ | pushReturned _ | popLoadHead | popReturned _ => trivial
  · intro claim hmem
    obtain ⟨hclaim, hpos⟩ := hinv.pushReturned claim hmem
    exact ⟨List.mem_append_left _ hclaim, hpos⟩
  · intro result hmem
    obtain ⟨hclaim, hitem', hnone⟩ := hinv.popReturned result hmem
    have hlt := hinv.popNumbered.pos_lt hclaim
    refine ⟨hclaim, hitem'.trans (hitem _ (Nat.lt_of_lt_of_le hlt hheadTail)).symm, ?_⟩
    exact not_popping_of_step hnone (fun other => s.goto_pc_other t _)
      (by simp [State.Popping, State.claimPush])

/-! ### A producer writes the item -/

theorem Inv.writeData (hinv : Inv (2 ^ k) s) {item : T} {tail : Nat}
    (hpc : s.pc t = .pushWrite item tail) : Inv (2 ^ k) (s.writeData (2 ^ k) t item tail) := by
  have hpush : s.Pushing t tail := ⟨item, Or.inl hpc⟩
  have hthread := hinv.threads t
  rw [hpc] at hthread
  obtain ⟨hheadLe, htailLt, hready, hclaim⟩ := hthread
  have hheadTail := hinv.head_le_tail
  have htailLe := hinv.tail_le
  have hself : (s.writeData (2 ^ k) t item tail).pc t = .pushStore item tail :=
    State.goto_pc_self _ _ _
  have hsame : ∀ other, other ≠ t → (s.writeData (2 ^ k) t item tail).pc other = s.pc other :=
    fun other hne => State.goto_pc_other _ _ _ hne
  refine ⟨hheadTail, htailLe, hinv.pushNumbered, hinv.popNumbered, ?_, ?_, ?_, ?_, ?_,
    hinv.popReturnedOnce⟩
  · intro pos hhead hpos
    by_cases heq : pos = tail
    · subst heq
      exact Or.inr ⟨by rw [writeData_seq]; exact hready, t, item, Or.inr hself⟩
    · have hne := slot_ne_of_window (k := k) s.m_head ⟨hhead, by
        have : pos < s.m_tail := hpos
        omega⟩ ⟨hheadLe, by omega⟩ heq
      rw [writeData_slot_ne hne]
      rcases hinv.occupied pos hhead hpos with hpub | ⟨hseq, other, hother⟩
      · exact Or.inl hpub
      · have hneT : other ≠ t := by
          rintro rfl
          obtain ⟨item', hpc' | hpc'⟩ := hother <;> rw [hpc] at hpc' <;> cases hpc'
          exact heq rfl
        exact Or.inr ⟨hseq, other, hother.congr (hsame other hneT)⟩
  · intro pos hle hend
    rcases hinv.vacant pos hle hend with hseq | ⟨before, other, hpos, hpop⟩
    · exact Or.inl (by rw [writeData_seq]; exact hseq)
    · have hneT : other ≠ t := by
        rintro rfl
        rcases hpop with hpc' | ⟨item', hpc'⟩ <;> rw [hpc] at hpc' <;> cases hpc'
      exact Or.inr ⟨before, other, hpos, hpop.congr (hsame other hneT)⟩
  · intro other
    by_cases heq : other = t
    · subst heq
      rw [hself]
      refine ⟨hheadLe, htailLt, by rw [writeData_seq]; exact hready, hclaim, ?_⟩
      simp [State.writeData, State.slot, State.setSlot, State.goto]
    · have hother := hinv.threads other
      rw [hsame other heq]
      cases hpc' : s.pc other with
      | pushCas item' tail' =>
          rw [hpc'] at hother
          exact ⟨hother.1, fun h => ⟨(hother.2 h).1, by rw [writeData_seq]; exact (hother.2 h).2⟩⟩
      | pushWrite item' tail' =>
          rw [hpc'] at hother
          exact ⟨hother.1, hother.2.1, by rw [writeData_seq]; exact hother.2.2.1, hother.2.2.2⟩
      | pushStore item' tail' =>
          rw [hpc'] at hother
          have hneTail : tail' ≠ tail := by
            rintro rfl
            exact heq (hinv.pushing_unique ⟨item', Or.inr hpc'⟩ hpush)
          have hne := slot_ne_of_window (k := k) s.m_head
            ⟨hother.1, by have := hother.2.1; omega⟩ ⟨hheadLe, by omega⟩ hneTail
          rw [ThreadInv, writeData_slot_ne hne]
          exact hother
      | popCas head =>
          rw [hpc'] at hother
          exact ⟨hother.1, fun h => ⟨(hother.2 h).1, by rw [writeData_seq]; exact (hother.2 h).2⟩⟩
      | popRead head =>
          rw [hpc'] at hother
          have hne := slot_ne_of_lap (k := k) s.m_head (p := head) (q := tail)
            ⟨by have := hother.2.1; omega, by have := hother.1; omega⟩ ⟨hheadLe, by omega⟩
            (by have := hother.2.1; omega)
          rw [ThreadInv, writeData_slot_ne hne]
          exact hother
      | popStore head item' =>
          rw [hpc'] at hother
          rw [ThreadInv, writeData_seq]
          exact hother
      | pushLoadSeq item' tail' => rw [hpc'] at hother; exact hother
      | popLoadSeq head => rw [hpc'] at hother; exact hother
      | idle | pushLoadTail _ | pushReturned _ | popLoadHead | popReturned _ => trivial
  · intro claim hmem
    rw [writeData_seq]
    exact hinv.pushReturned claim hmem
  · intro result hmem
    obtain ⟨hclaim', hitem, hnone⟩ := hinv.popReturned result hmem
    exact ⟨hclaim', hitem, not_popping_of_step hnone hsame (by simp [State.Popping, hself])⟩

/-! ### A producer publishes its slot -/

theorem Inv.publish (hinv : Inv (2 ^ k) s) {item : T} {tail : Nat}
    (hpc : s.pc t = .pushStore item tail) : Inv (2 ^ k) (s.publish (2 ^ k) t item tail) := by
  have hpush : s.Pushing t tail := ⟨item, Or.inr hpc⟩
  have hthread := hinv.threads t
  rw [hpc] at hthread
  obtain ⟨hheadLe, htailLt, hready, hclaim, hdata⟩ := hthread
  have hheadTail := hinv.head_le_tail
  have htailLe := hinv.tail_le
  have hself : (s.publish (2 ^ k) t item tail).pc t = .pushReturned true :=
    State.goto_pc_self _ _ _
  have hsame : ∀ other, other ≠ t → (s.publish (2 ^ k) t item tail).pc other = s.pc other :=
    fun other hne => State.goto_pc_other _ _ _ hne
  -- every other position of the window keeps its slot
  have hkeep : ∀ pos, s.m_head ≤ pos → pos < s.m_head + 2 ^ k → pos ≠ tail →
      (s.publish (2 ^ k) t item tail).slot (2 ^ k) pos = s.slot (2 ^ k) pos :=
    fun pos hge hlt hne => publish_slot_ne
      (slot_ne_of_window s.m_head ⟨hge, hlt⟩ ⟨hheadLe, by omega⟩ hne)
  have hkeepLap : ∀ pos, s.m_tail ≤ pos + 2 ^ k → pos < s.m_head →
      (s.publish (2 ^ k) t item tail).slot (2 ^ k) pos = s.slot (2 ^ k) pos :=
    fun pos hge hlt => publish_slot_ne
      (slot_ne_of_lap s.m_head ⟨by omega, by omega⟩ ⟨hheadLe, by omega⟩ (by omega))
  refine ⟨hheadTail, htailLe, hinv.pushNumbered, hinv.popNumbered, ?_, ?_, ?_, ?_, ?_,
    hinv.popReturnedOnce⟩
  · intro pos hhead hpos
    have hlt : pos < s.m_tail := hpos
    by_cases heq : pos = tail
    · subst heq
      rw [publish_slot_same]
      exact Or.inl ⟨rfl, hdata.trans (hinv.itemAt_of_mem hclaim).symm⟩
    · rw [hkeep pos hhead (by omega) heq]
      rcases hinv.occupied pos hhead hlt with hpub | ⟨hseq, other, hother⟩
      · exact Or.inl hpub
      · have hneT : other ≠ t := by
          rintro rfl
          obtain ⟨item', hpc' | hpc'⟩ := hother <;> rw [hpc] at hpc' <;> cases hpc'
          exact heq rfl
        exact Or.inr ⟨hseq, other, hother.congr (hsame other hneT)⟩
  · intro pos hle hend
    have hge : s.m_tail ≤ pos := hle
    rw [hkeep pos (by omega) hend (by omega)]
    rcases hinv.vacant pos hle hend with hseq | ⟨before, other, hpos, hpop⟩
    · exact Or.inl hseq
    · have hneT : other ≠ t := by
        rintro rfl
        rcases hpop with hpc' | ⟨item', hpc'⟩ <;> rw [hpc] at hpc' <;> cases hpc'
      exact Or.inr ⟨before, other, hpos, hpop.congr (hsame other hneT)⟩
  · intro other
    by_cases heq : other = t
    · subst heq
      rw [hself]
      trivial
    · have hother := hinv.threads other
      rw [hsame other heq]
      cases hpc' : s.pc other with
      | pushCas item' tail' =>
          rw [hpc'] at hother
          refine ⟨hother.1, fun h => ⟨(hother.2 h).1, ?_⟩⟩
          have h : tail' = s.m_tail := h
          have hroom := (hother.2 h).1
          rw [hkeep tail' (by omega) hroom (by omega)]
          exact (hother.2 h).2
      | pushWrite item' tail' =>
          rw [hpc'] at hother
          have hneTail : tail' ≠ tail := by
            rintro rfl
            exact heq (hinv.pushing_unique ⟨item', Or.inl hpc'⟩ hpush)
          have hlt := hother.2.1
          rw [ThreadInv, hkeep tail' hother.1 (by omega) hneTail]
          exact hother
      | pushStore item' tail' =>
          rw [hpc'] at hother
          have hneTail : tail' ≠ tail := by
            rintro rfl
            exact heq (hinv.pushing_unique ⟨item', Or.inr hpc'⟩ hpush)
          have hlt := hother.2.1
          rw [ThreadInv, hkeep tail' hother.1 (by omega) hneTail]
          exact hother
      | popCas head =>
          rw [hpc'] at hother
          refine ⟨hother.1, fun h => ⟨(hother.2 h).1, ?_⟩⟩
          have h : head = s.m_head := h
          obtain ⟨hlt, hseq⟩ := hother.2 h
          have hneTail : head ≠ tail := by
            rintro rfl
            omega
          rw [hkeep head (by omega) (by omega) hneTail]
          exact hseq
      | popRead head =>
          rw [hpc'] at hother
          rw [ThreadInv, hkeepLap head hother.2.1 hother.1]
          exact hother
      | popStore head item' =>
          rw [hpc'] at hother
          rw [ThreadInv, hkeepLap head hother.2.1 hother.1]
          exact hother
      | pushLoadSeq item' tail' => rw [hpc'] at hother; exact hother
      | popLoadSeq head => rw [hpc'] at hother; exact hother
      | idle | pushLoadTail _ | pushReturned _ | popLoadHead | popReturned _ => trivial
  · intro claim hmem
    rcases List.mem_append.mp hmem with hold | hnew
    · obtain ⟨hclaim', hpos⟩ := hinv.pushReturned claim hold
      refine ⟨hclaim', ?_⟩
      have hlt := hinv.pushNumbered.pos_lt hclaim'
      by_cases hhead : claim.pos < s.m_head
      · exact Or.inl hhead
      · by_cases heq : claim.pos = tail
        · rw [heq, publish_slot_same]
          exact Or.inr rfl
        · rw [hkeep claim.pos (by omega) (by omega) heq]
          exact hpos
    · rw [List.mem_singleton] at hnew
      subst hnew
      rw [publish_slot_same]
      exact ⟨hclaim, Or.inr rfl⟩
  · intro result hmem
    obtain ⟨hclaim', hitem, hnone⟩ := hinv.popReturned result hmem
    exact ⟨hclaim', hitem, not_popping_of_step hnone hsame (by simp [State.Popping, hself])⟩

/-! ### A consumer wins `m_head` -/

theorem Inv.claimPop (hinv : Inv (2 ^ k) s) {head : Nat}
    (hpc : s.pc t = .popCas head) (hhead : s.m_head = head) :
    Inv (2 ^ k) (s.claimPop t head) := by
  subst hhead
  have hthread := hinv.threads t
  rw [hpc] at hthread
  obtain ⟨hlt, hseq⟩ := hthread.2 rfl
  have hnot : ¬ (s.pc t).Critical := by simp [hpc, PC.Critical]
  have htailLe := hinv.tail_le
  have hself : (s.claimPop t s.m_head).pc t = .popRead s.m_head := State.goto_pc_self _ _ _
  have hsame : ∀ other, other ≠ t → (s.claimPop t s.m_head).pc other = s.pc other :=
    fun other hne => State.goto_pc_other _ _ _ hne
  refine ⟨hlt, by show s.m_tail ≤ s.m_head + 1 + 2 ^ k; omega, hinv.pushNumbered,
    hinv.popNumbered.append rfl, ?_, ?_, ?_, ?_, ?_, hinv.popReturnedOnce⟩
  · intro pos hge hpos
    rcases hinv.occupied pos (Nat.le_of_succ_le hge) hpos with hpub | ⟨hready, other, hpush⟩
    · exact Or.inl hpub
    · have hne : other ≠ t := fun h => hnot (h ▸ hpush.critical)
      exact Or.inr ⟨hready, other, hpush.congr (hsame other hne)⟩
  · intro pos hge hend
    have hend : pos < s.m_head + 1 + 2 ^ k := hend
    by_cases heq : pos = s.m_head + 2 ^ k
    · exact Or.inr ⟨s.m_head, t, heq.symm, Or.inl hself⟩
    · rcases hinv.vacant pos hge (by omega) with hready | ⟨before, other, hpos, hpop⟩
      · exact Or.inl hready
      · have hne : other ≠ t := fun h => hnot (h ▸ hpop.critical)
        exact Or.inr ⟨before, other, hpos, hpop.congr (hsame other hne)⟩
  · intro other
    by_cases heq : other = t
    · subst heq
      rw [hself]
      exact ⟨Nat.lt_succ_self _, htailLe, hseq, by simp [State.claimPop],
        hinv.published_of_seq (Nat.le_refl _) hlt hseq⟩
    · have hother := hinv.threads other
      rw [hsame other heq]
      -- the claimed slot is published, so no producer is at work on it
      have hnoPush : ∀ tail, (s.slot (2 ^ k) tail).seq = tail → tail ≠ s.m_head := by
        rintro tail htail rfl
        omega
      cases hpc' : s.pc other with
      | pushCas item' tail' =>
          rw [hpc'] at hother
          refine ⟨hother.1, fun h => ⟨?_, (hother.2 h).2⟩⟩
          have hroom := (hother.2 h).1
          show tail' < s.m_head + 1 + 2 ^ k
          omega
      | pushWrite item' tail' =>
          rw [hpc'] at hother
          have hne := hnoPush tail' hother.2.2.1
          exact ⟨Nat.lt_of_le_of_ne hother.1 (Ne.symm hne), hother.2⟩
      | pushStore item' tail' =>
          rw [hpc'] at hother
          have hne := hnoPush tail' hother.2.2.1
          exact ⟨Nat.lt_of_le_of_ne hother.1 (Ne.symm hne), hother.2⟩
      | popLoadSeq head =>
          rw [hpc'] at hother
          exact Nat.le_succ_of_le hother
      | popCas head =>
          rw [hpc'] at hother
          refine ⟨Nat.le_succ_of_le hother.1, fun habs => ?_⟩
          have habs : head = s.m_head + 1 := habs
          have hle := hother.1
          omega
      | popRead head =>
          rw [hpc'] at hother
          exact ⟨Nat.lt_succ_of_lt hother.1, hother.2.1, hother.2.2.1,
            List.mem_append_left _ hother.2.2.2.1, hother.2.2.2.2⟩
      | popStore head item' =>
          rw [hpc'] at hother
          exact ⟨Nat.lt_succ_of_lt hother.1, hother.2.1, hother.2.2.1,
            List.mem_append_left _ hother.2.2.2.1, hother.2.2.2.2⟩
      | pushLoadSeq item' tail' => rw [hpc'] at hother; exact hother
      | idle | pushLoadTail _ | pushReturned _ | popLoadHead | popReturned _ => trivial
  · intro claim hmem
    obtain ⟨hclaim, hpos⟩ := hinv.pushReturned claim hmem
    exact ⟨hclaim, hpos.imp Nat.lt_succ_of_lt id⟩
  · intro result hmem
    obtain ⟨hclaim, hitem, hnone⟩ := hinv.popReturned result hmem
    have hold := hinv.popNumbered.pos_lt hclaim
    refine ⟨List.mem_append_left _ hclaim, hitem, not_popping_of_step hnone hsame ?_⟩
    have hold : result.pos < s.m_head := hold
    simp only [State.Popping, hself, PC.popRead.injEq, reduceCtorEq, exists_false, or_false]
    omega

/-! ### A consumer frees its slot -/

theorem Inv.free (hk : 1 ≤ k) (hinv : Inv (2 ^ k) s) {item : Option T} {head : Nat}
    (hpc : s.pc t = .popStore head item) : Inv (2 ^ k) (s.free (2 ^ k) t head item) := by
  have hcap := two_le_capacity hk
  have hpop : s.Popping t head := Or.inr ⟨item, hpc⟩
  have hthread := hinv.threads t
  rw [hpc] at hthread
  obtain ⟨hlt, hge, hseq, hclaim, hitem⟩ := hthread
  have hheadTail := hinv.head_le_tail
  have htailLe := hinv.tail_le
  have hsame : ∀ other, other ≠ t → (s.free (2 ^ k) t head item).pc other = s.pc other :=
    fun other hne => State.goto_pc_other _ _ _ hne
  have hkeep : ∀ pos, s.m_head ≤ pos → pos < s.m_head + 2 ^ k → pos ≠ head + 2 ^ k →
      (s.free (2 ^ k) t head item).slot (2 ^ k) pos = s.slot (2 ^ k) pos :=
    fun pos hge' hlt' hne => free_slot_ne
      (Ne.symm (slot_ne_of_lap s.m_head ⟨by omega, by omega⟩ ⟨hge', hlt'⟩ (Ne.symm hne)))
  have hkeepLap : ∀ pos, s.m_tail ≤ pos + 2 ^ k → pos < s.m_head → pos ≠ head →
      (s.free (2 ^ k) t head item).slot (2 ^ k) pos = s.slot (2 ^ k) pos := by
    intro pos hge' hlt' hne
    have hlap := hkeep (pos + 2 ^ k) (by omega) (by omega) (by omega)
    rwa [State.slot, State.slot, slotIndex_add_capacity] at hlap
  have hself : (s.free (2 ^ k) t head item).pc t = .popReturned (some item) :=
    State.goto_pc_self _ _ _
  refine ⟨hheadTail, htailLe, hinv.pushNumbered, hinv.popNumbered, ?_, ?_, ?_, ?_, ?_, ?_⟩
  · intro pos hhead hpos
    have hpos : pos < s.m_tail := hpos
    rw [hkeep pos hhead (by omega) (by omega)]
    rcases hinv.occupied pos hhead hpos with hpub | ⟨hready, other, hother⟩
    · exact Or.inl hpub
    · have hneT : other ≠ t := by
        rintro rfl
        obtain ⟨item', hpc' | hpc'⟩ := hother <;> rw [hpc] at hpc' <;> cases hpc'
      exact Or.inr ⟨hready, other, hother.congr (hsame other hneT)⟩
  · intro pos hle hend
    have hle : s.m_tail ≤ pos := hle
    by_cases heq : pos = head + 2 ^ k
    · left
      subst heq
      have hslot : (s.free (2 ^ k) t head item).slot (2 ^ k) (head + 2 ^ k) =
          (s.free (2 ^ k) t head item).slot (2 ^ k) head := by
        rw [State.slot, State.slot, slotIndex_add_capacity]
      rw [hslot, free_slot_same]
    · rw [hkeep pos (by omega) hend heq]
      rcases hinv.vacant pos hle hend with hready | ⟨before, other, hpos, hother⟩
      · exact Or.inl hready
      · have hneT : other ≠ t := by
          rintro rfl
          rcases hother with hpc' | ⟨item', hpc'⟩ <;> rw [hpc] at hpc' <;> cases hpc'
          exact heq hpos.symm
        exact Or.inr ⟨before, other, hpos, hother.congr (hsame other hneT)⟩
  · intro other
    by_cases heq : other = t
    · subst heq
      rw [hself]
      trivial
    · have hother := hinv.threads other
      rw [hsame other heq]
      cases hpc' : s.pc other with
      | pushCas item' tail' =>
          rw [hpc'] at hother
          refine ⟨hother.1, fun h => ⟨(hother.2 h).1, ?_⟩⟩
          have h : tail' = s.m_tail := h
          obtain ⟨hroom, hready⟩ := hother.2 h
          -- a slot that is ready cannot be the one still being freed
          have hne : tail' ≠ head + 2 ^ k := by
            rintro rfl
            rw [State.slot, slotIndex_add_capacity, ← State.slot] at hready
            omega
          rw [hkeep tail' (by omega) hroom hne]
          exact hready
      | pushWrite item' tail' =>
          rw [hpc'] at hother
          have hlt' := hother.2.1
          rw [ThreadInv, hkeep tail' hother.1 (by omega) (by omega)]
          exact hother
      | pushStore item' tail' =>
          rw [hpc'] at hother
          have hlt' := hother.2.1
          rw [ThreadInv, hkeep tail' hother.1 (by omega) (by omega)]
          exact hother
      | popCas head' =>
          rw [hpc'] at hother
          refine ⟨hother.1, fun h => ⟨(hother.2 h).1, ?_⟩⟩
          have h : head' = s.m_head := h
          obtain ⟨hlt', hpub⟩ := hother.2 h
          rw [hkeep head' (by omega) (by omega) (by omega)]
          exact hpub
      | popRead head' =>
          rw [hpc'] at hother
          have hne : head' ≠ head := by
            rintro rfl
            exact heq (hinv.popping_unique (Or.inl hpc') hpop)
          rw [ThreadInv, hkeepLap head' hother.2.1 hother.1 hne]
          exact hother
      | popStore head' item' =>
          rw [hpc'] at hother
          have hne : head' ≠ head := by
            rintro rfl
            exact heq (hinv.popping_unique (Or.inr ⟨item', hpc'⟩) hpop)
          rw [ThreadInv, hkeepLap head' hother.2.1 hother.1 hne]
          exact hother
      | pushLoadSeq item' tail' => rw [hpc'] at hother; exact hother
      | popLoadSeq head' => rw [hpc'] at hother; exact hother
      | idle | pushLoadTail _ | pushReturned _ | popLoadHead | popReturned _ => trivial
  · intro claim hmem
    obtain ⟨hclaim', hpos⟩ := hinv.pushReturned claim hmem
    refine ⟨hclaim', ?_⟩
    have hlt' := hinv.pushNumbered.pos_lt hclaim'
    by_cases hhead : claim.pos < s.m_head
    · exact Or.inl hhead
    · rw [hkeep claim.pos (by omega) (by omega) (by omega)]
      exact hpos
  · intro result hmem
    rcases List.mem_append.mp hmem with hold | hnew
    · obtain ⟨hclaim', hitem', hnone⟩ := hinv.popReturned result hold
      exact ⟨hclaim', hitem', not_popping_of_step hnone hsame (by simp [State.Popping, hself])⟩
    · rw [List.mem_singleton] at hnew
      subst hnew
      refine ⟨hclaim, hitem, fun other hother => ?_⟩
      by_cases heq : other = t
      · subst heq
        simp [State.Popping, hself] at hother
      · exact heq (hinv.popping_unique (hother.congr (hsame other heq).symm) hpop)
  · have hfresh : head ∉ s.popReturns.map PopReturn.pos := by
      intro hmem
      obtain ⟨result, hresult, rfl⟩ := List.mem_map.mp hmem
      exact (hinv.popReturned result hresult).2.2 t hpop
    show ((s.popReturns ++ [_]).map PopReturn.pos).Nodup
    rw [List.map_append, List.map_singleton]
    exact List.nodup_append.mpr ⟨hinv.popReturnedOnce, List.nodup_singleton _, by
      intro pos hpos last hlast heq
      rw [List.mem_singleton] at hlast
      rw [heq, hlast] at hpos
      exact hfresh hpos⟩

/-! ### All steps -/

theorem Inv.runThread (hk : 1 ≤ k) (hinv : Inv (2 ^ k) s) {next : State Tid T} {spurious : Bool}
    (hstep : runThread (2 ^ k) s t spurious = some next) : Inv (2 ^ k) next := by
  have hthread := hinv.threads t
  unfold MPMCQueue.runThread at hstep
  cases hpc : s.pc t with
  | idle | pushReturned _ | popReturned _ => simp [hpc] at hstep
  | pushLoadTail item =>
      simp only [hpc, Option.some.injEq] at hstep
      subst hstep
      exact hinv.goto (by simp [hpc, PC.Critical]) (by simp [PC.Critical]) (Nat.le_refl _)
  | pushLoadSeq item tail =>
      rw [hpc] at hthread
      have hold : ¬ (s.pc t).Critical := by simp [hpc, PC.Critical]
      simp only [hpc] at hstep
      split at hstep
      · rename_i hdiff
        rw [Option.some.injEq] at hstep
        subst hstep
        have hseq : (s.slot (2 ^ k) tail).seq = tail := by omega
        refine hinv.goto hold (by simp [PC.Critical]) ⟨hthread, ?_⟩
        rintro rfl
        exact ⟨hinv.room_of_ready hk hseq, hseq⟩
      · split at hstep <;> rw [Option.some.injEq] at hstep <;> subst hstep <;>
          exact hinv.goto hold (by simp [PC.Critical]) trivial
  | pushCas item tail =>
      simp only [hpc] at hstep
      split at hstep
      · rename_i hwin
        rw [Option.some.injEq] at hstep
        subst hstep
        exact hinv.claimPush hk hpc hwin.1
      · rw [Option.some.injEq] at hstep
        subst hstep
        exact hinv.goto (by simp [hpc, PC.Critical]) (by simp [PC.Critical]) (Nat.le_refl _)
  | pushWrite item tail =>
      simp only [hpc, Option.some.injEq] at hstep
      subst hstep
      exact hinv.writeData hpc
  | pushStore item tail =>
      simp only [hpc, Option.some.injEq] at hstep
      subst hstep
      exact hinv.publish hpc
  | popLoadHead =>
      simp only [hpc, Option.some.injEq] at hstep
      subst hstep
      exact hinv.goto (by simp [hpc, PC.Critical]) (by simp [PC.Critical]) (Nat.le_refl _)
  | popLoadSeq head =>
      rw [hpc] at hthread
      have hold : ¬ (s.pc t).Critical := by simp [hpc, PC.Critical]
      simp only [hpc] at hstep
      split at hstep
      · rename_i hdiff
        rw [Option.some.injEq] at hstep
        subst hstep
        have hseq : (s.slot (2 ^ k) head).seq = head + 1 := by omega
        refine hinv.goto hold (by simp [PC.Critical]) ⟨hthread, ?_⟩
        rintro rfl
        exact ⟨hinv.claimed_of_published hseq, hseq⟩
      · split at hstep <;> rw [Option.some.injEq] at hstep <;> subst hstep <;>
          exact hinv.goto hold (by simp [PC.Critical]) trivial
  | popCas head =>
      simp only [hpc] at hstep
      split at hstep
      · rename_i hwin
        rw [Option.some.injEq] at hstep
        subst hstep
        exact hinv.claimPop hpc hwin.1
      · rw [Option.some.injEq] at hstep
        subst hstep
        exact hinv.goto (by simp [hpc, PC.Critical]) (by simp [PC.Critical]) (Nat.le_refl _)
  | popRead head =>
      simp only [hpc, Option.some.injEq] at hstep
      subst hstep
      exact hinv.readData hpc
  | popStore head item =>
      simp only [hpc, Option.some.injEq] at hstep
      subst hstep
      exact hinv.free hk hpc

theorem Inv.step (hk : 1 ≤ k) (hinv : Inv (2 ^ k) s) {next : State Tid T} {action : Action Tid T}
    (hstep : step (2 ^ k) s action = some next) : Inv (2 ^ k) next := by
  cases action with
  | run t spurious => exact hinv.runThread hk hstep
  | callPush t item | callPop t | ret t =>
      unfold MPMCQueue.step at hstep
      cases hpc : s.pc t <;> simp only [hpc, Option.some.injEq, reduceCtorEq] at hstep
      all_goals subst hstep
      all_goals exact hinv.goto (by simp [hpc, PC.Critical]) (by simp [PC.Critical]) trivial

theorem reachable_inv (hk : 1 ≤ k) (hreach : (machine Tid T (2 ^ k)).Reachable s) :
    Inv (2 ^ k) s :=
  hreach.invariant (Inv (2 ^ k)) (inv_init k) (fun _ _ _ hinv hstep => hinv.step hk hstep)

end MessageCenter.MPMCQueue
