import MessageCenter.Lib.PositionLog
import MessageCenter.MpmcQueue.Model

/-!
# The global invariant of the ring

The window `[m_head, m_head + Capacity)` meets every slot once.  Its part below
`m_tail` is occupied: the slot is published (`seq = pos + 1`) or its producer
still has to store `seq`.  Its part from `m_tail` on is vacant: the slot is ready
(`seq = pos`) or the consumer of the previous lap still has to store `seq`.
`ThreadInv` adds what each program counter knows; a local position may be stale,
and then it is only known to be behind the counter.
-/

namespace MessageCenter.MPMCQueue

open Concurrency Concurrency.PositionLog

universe u v

variable {Tid : Type u} {T : Type v} {k : Nat} {s : State Tid T} {t : Tid}

/-- The item of the push that claimed a position. -/
def State.itemAt (s : State Tid T) (pos : Nat) : Option T :=
  (s.pushClaims[pos]?).map PushClaim.item

/-- `t` is in `try_push` between its compare-exchange on `pos` and its `seq` store. -/
def State.Pushing (s : State Tid T) (t : Tid) (pos : Nat) : Prop :=
  ∃ item, s.pc t = .pushWrite item pos ∨ s.pc t = .pushStore item pos

/-- `t` is in `try_pop` between its compare-exchange on `pos` and its `seq` store. -/
def State.Popping (s : State Tid T) (t : Tid) (pos : Nat) : Prop :=
  s.pc t = .popRead pos ∨ ∃ item, s.pc t = .popStore pos item

/-- Between the compare-exchange and the `seq` store of an operation. -/
def PC.Critical : PC T → Prop
  | .pushWrite _ _ | .pushStore _ _ | .popRead _ | .popStore _ _ => True
  | _ => False

/-- What a thread's program counter knows about the shared state. -/
def ThreadInv (Capacity : Nat) (s : State Tid T) (t : Tid) : PC T → Prop
  | .pushLoadSeq _ tail => tail ≤ s.m_tail
  | .pushCas _ tail => tail ≤ s.m_tail ∧
      (tail = s.m_tail → tail < s.m_head + Capacity ∧ (s.slot Capacity tail).seq = tail)
  | .pushWrite item tail => s.m_head ≤ tail ∧ tail < s.m_tail ∧
      (s.slot Capacity tail).seq = tail ∧ ⟨t, tail, item⟩ ∈ s.pushClaims
  | .pushStore item tail => s.m_head ≤ tail ∧ tail < s.m_tail ∧
      (s.slot Capacity tail).seq = tail ∧ ⟨t, tail, item⟩ ∈ s.pushClaims ∧
      (s.slot Capacity tail).data = some item
  | .popLoadSeq head => head ≤ s.m_head
  | .popCas head => head ≤ s.m_head ∧
      (head = s.m_head → head < s.m_tail ∧ (s.slot Capacity head).seq = head + 1)
  | .popRead head => head < s.m_head ∧ s.m_tail ≤ head + Capacity ∧
      (s.slot Capacity head).seq = head + 1 ∧ ⟨t, head⟩ ∈ s.popClaims ∧
      (s.slot Capacity head).data = s.itemAt head
  | .popStore head item => head < s.m_head ∧ s.m_tail ≤ head + Capacity ∧
      (s.slot Capacity head).seq = head + 1 ∧ ⟨t, head⟩ ∈ s.popClaims ∧
      item = s.itemAt head
  | _ => True

/-- The global invariant; see the head of the file. -/
structure Inv (Capacity : Nat) (s : State Tid T) : Prop where
  head_le_tail : s.m_head ≤ s.m_tail
  tail_le : s.m_tail ≤ s.m_head + Capacity
  pushNumbered : Numbered PushClaim.pos s.pushClaims s.m_tail
  popNumbered : Numbered PopClaim.pos s.popClaims s.m_head
  occupied : ∀ pos, s.m_head ≤ pos → pos < s.m_tail →
    ((s.slot Capacity pos).seq = pos + 1 ∧ (s.slot Capacity pos).data = s.itemAt pos) ∨
    ((s.slot Capacity pos).seq = pos ∧ ∃ t, s.Pushing t pos)
  vacant : ∀ pos, s.m_tail ≤ pos → pos < s.m_head + Capacity →
    (s.slot Capacity pos).seq = pos ∨ ∃ before t, before + Capacity = pos ∧ s.Popping t before
  threads : ∀ t, ThreadInv Capacity s t (s.pc t)
  pushReturned : ∀ claim ∈ s.pushReturns, claim ∈ s.pushClaims ∧
    (claim.pos < s.m_head ∨ (s.slot Capacity claim.pos).seq = claim.pos + 1)
  popReturned : ∀ result ∈ s.popReturns,
    ⟨result.thread, result.pos⟩ ∈ s.popClaims ∧ result.item = s.itemAt result.pos ∧
    ∀ t, ¬ s.Popping t result.pos
  popReturnedOnce : (s.popReturns.map PopReturn.pos).Nodup

theorem inv_init (k : Nat) : Inv (2 ^ k) (init : State Tid T) where
  head_le_tail := Nat.le_refl 0
  tail_le := Nat.zero_le _
  pushNumbered := numbered_nil
  popNumbered := numbered_nil
  occupied := fun pos _ hpos => absurd hpos (Nat.not_lt_zero pos)
  vacant := by
    intro pos _ hpos
    left
    have hlt : pos < 2 ^ k := by simpa [init] using hpos
    show slotIndex (2 ^ k) pos = pos
    rw [slotIndex_two_pow, Nat.mod_eq_of_lt hlt]
  threads := fun _ => trivial
  pushReturned := fun _ hmem => by cases hmem
  popReturned := fun _ hmem => by cases hmem
  popReturnedOnce := List.nodup_nil

/-! ### Consequences used by every step -/

theorem State.Pushing.critical {pos : Nat} (hpush : s.Pushing t pos) : (s.pc t).Critical := by
  obtain ⟨item, hpc | hpc⟩ := hpush <;> simp [hpc, PC.Critical]

theorem State.Popping.critical {pos : Nat} (hpop : s.Popping t pos) : (s.pc t).Critical := by
  rcases hpop with hpc | ⟨item, hpc⟩ <;> simp [hpc, PC.Critical]

theorem State.Pushing.congr {s' : State Tid T} {pos : Nat} (hpush : s.Pushing t pos)
    (hpc : s'.pc t = s.pc t) : s'.Pushing t pos := by
  unfold State.Pushing
  rw [hpc]
  exact hpush

theorem State.Popping.congr {s' : State Tid T} {pos : Nat} (hpop : s.Popping t pos)
    (hpc : s'.pc t = s.pc t) : s'.Popping t pos := by
  unfold State.Popping
  rw [hpc]
  exact hpop

/-- A step of `t` brings no consumer to `pos` unless it brings `t` there. -/
theorem not_popping_of_step {s' : State Tid T} {pos : Nat} (hnone : ∀ other, ¬ s.Popping other pos)
    (hsame : ∀ other, other ≠ t → s'.pc other = s.pc other) (hself : ¬ s'.Popping t pos) :
    ∀ other, ¬ s'.Popping other pos := by
  intro other hpop
  by_cases heq : other = t
  · exact hself (heq ▸ hpop)
  · exact hnone other (hpop.congr (hsame other heq).symm)

theorem Inv.pushing_spec {C : Nat} (hinv : Inv C s) {pos : Nat} (hpush : s.Pushing t pos) :
    s.m_head ≤ pos ∧ pos < s.m_tail ∧ (s.slot C pos).seq = pos ∧
      ∃ item, ⟨t, pos, item⟩ ∈ s.pushClaims := by
  have hthread := hinv.threads t
  obtain ⟨item, hpc | hpc⟩ := hpush
  · rw [hpc] at hthread
    exact ⟨hthread.1, hthread.2.1, hthread.2.2.1, item, hthread.2.2.2⟩
  · rw [hpc] at hthread
    exact ⟨hthread.1, hthread.2.1, hthread.2.2.1, item, hthread.2.2.2.1⟩

theorem Inv.popping_spec {C : Nat} (hinv : Inv C s) {pos : Nat} (hpop : s.Popping t pos) :
    pos < s.m_head ∧ s.m_tail ≤ pos + C ∧ (s.slot C pos).seq = pos + 1 ∧
      ⟨t, pos⟩ ∈ s.popClaims := by
  have hthread := hinv.threads t
  rcases hpop with hpc | ⟨item, hpc⟩
  · rw [hpc] at hthread
    exact ⟨hthread.1, hthread.2.1, hthread.2.2.1, hthread.2.2.2.1⟩
  · rw [hpc] at hthread
    exact ⟨hthread.1, hthread.2.1, hthread.2.2.1, hthread.2.2.2.1⟩

/-- A position has at most one producer at work on it. -/
theorem Inv.pushing_unique {C : Nat} (hinv : Inv C s) {other : Tid} {pos : Nat}
    (hpush : s.Pushing t pos) (hother : s.Pushing other pos) : t = other := by
  obtain ⟨_, _, _, item, hmem⟩ := hinv.pushing_spec hpush
  obtain ⟨_, _, _, item', hmem'⟩ := hinv.pushing_spec hother
  exact congrArg PushClaim.thread (hinv.pushNumbered.eq_of_pos_eq hmem hmem' rfl)

/-- A position has at most one consumer at work on it. -/
theorem Inv.popping_unique {C : Nat} (hinv : Inv C s) {other : Tid} {pos : Nat}
    (hpop : s.Popping t pos) (hother : s.Popping other pos) : t = other := by
  have hmem := (hinv.popping_spec hpop).2.2.2
  have hmem' := (hinv.popping_spec hother).2.2.2
  exact congrArg PopClaim.thread (hinv.popNumbered.eq_of_pos_eq hmem hmem' rfl)

theorem Inv.itemAt_of_mem {C : Nat} (hinv : Inv C s) {pos : Nat} {item : T}
    (hmem : ⟨t, pos, item⟩ ∈ s.pushClaims) : s.itemAt pos = some item := by
  have hget := hinv.pushNumbered.getElem?_pos hmem
  simp only at hget
  rw [State.itemAt, hget, Option.map_some]

/-- The slot of the next position to pop, once claimed, is published or its
producer is still at work. -/
theorem Inv.published_of_seq {C : Nat} (hinv : Inv C s) {pos : Nat} (hhead : s.m_head ≤ pos)
    (htail : pos < s.m_tail) (hseq : (s.slot C pos).seq = pos + 1) :
    (s.slot C pos).data = s.itemAt pos := by
  rcases hinv.occupied pos hhead htail with ⟨_, hdata⟩ | ⟨hpos, _⟩
  · exact hdata
  · omega

/-! ### Steps that touch no shared field -/

variable [DecidableEq Tid]

theorem Inv.goto {C : Nat} (hinv : Inv C s) {pc : PC T} (hold : ¬ (s.pc t).Critical)
    (hnew : ¬ pc.Critical) (hthread : ThreadInv C s t pc) : Inv C (s.goto t pc) where
  head_le_tail := hinv.head_le_tail
  tail_le := hinv.tail_le
  pushNumbered := hinv.pushNumbered
  popNumbered := hinv.popNumbered
  occupied := by
    intro pos hhead htail
    rcases hinv.occupied pos hhead htail with hpub | ⟨hseq, other, hpush⟩
    · exact Or.inl hpub
    · have hne : other ≠ t := fun heq => hold (heq ▸ hpush.critical)
      exact Or.inr ⟨hseq, other, hpush.congr (s.goto_pc_other t pc hne)⟩
  vacant := by
    intro pos htail hend
    rcases hinv.vacant pos htail hend with hseq | ⟨before, other, hpos, hpop⟩
    · exact Or.inl hseq
    · have hne : other ≠ t := fun heq => hold (heq ▸ hpop.critical)
      exact Or.inr ⟨before, other, hpos, hpop.congr (s.goto_pc_other t pc hne)⟩
  threads := by
    intro other
    by_cases heq : other = t
    · subst heq
      rw [State.goto_pc_self]
      cases pc <;> exact hthread
    · rw [State.goto_pc_other _ _ _ heq]
      have hother := hinv.threads other
      cases hpc : s.pc other <;> rw [hpc] at hother <;> exact hother
  pushReturned := hinv.pushReturned
  popReturned := by
    intro result hmem
    obtain ⟨hclaim, hitem, hnone⟩ := hinv.popReturned result hmem
    refine ⟨hclaim, hitem, not_popping_of_step hnone (fun other => s.goto_pc_other t pc) ?_⟩
    intro hpop
    have hcritical := hpop.critical
    rw [State.goto_pc_self] at hcritical
    exact hnew hcritical
  popReturnedOnce := hinv.popReturnedOnce

/-- `item = slot.data`: the consumer copies the item and stays on its slot. -/
theorem Inv.readData {C : Nat} (hinv : Inv C s) {head : Nat} (hpc : s.pc t = .popRead head) :
    Inv C (s.goto t (.popStore head (s.slot C head).data)) := by
  have hself : (s.goto t (.popStore head (s.slot C head).data)).pc t =
      .popStore head (s.slot C head).data := State.goto_pc_self _ _ _
  have hsame : ∀ other, other ≠ t →
      (s.goto t (.popStore head (s.slot C head).data)).pc other = s.pc other :=
    fun other hne => s.goto_pc_other t _ hne
  have hpush : ∀ other pos, s.Pushing other pos → other ≠ t := by
    rintro other pos ⟨item, hother | hother⟩ rfl <;> rw [hpc] at hother <;> cases hother
  have hpop : ∀ other pos, s.Popping other pos ↔
      (s.goto t (.popStore head (s.slot C head).data)).Popping other pos := by
    intro other pos
    by_cases heq : other = t
    · subst heq
      unfold State.Popping
      rw [hself, hpc]
      simp
    · exact ⟨fun h => h.congr (hsame other heq), fun h => h.congr (hsame other heq).symm⟩
  refine ⟨hinv.head_le_tail, hinv.tail_le, hinv.pushNumbered, hinv.popNumbered, ?_, ?_, ?_,
    hinv.pushReturned, ?_, hinv.popReturnedOnce⟩
  · intro pos hhead htail
    rcases hinv.occupied pos hhead htail with hpub | ⟨hseq, other, hother⟩
    · exact Or.inl hpub
    · exact Or.inr ⟨hseq, other, hother.congr (hsame other (hpush other pos hother))⟩
  · intro pos htail hend
    rcases hinv.vacant pos htail hend with hseq | ⟨before, other, hpos, hother⟩
    · exact Or.inl hseq
    · exact Or.inr ⟨before, other, hpos, (hpop other before).mp hother⟩
  · intro other
    have hother := hinv.threads other
    by_cases heq : other = t
    · subst heq
      rw [hpc] at hother
      rw [hself]
      exact hother
    · rw [hsame other heq]
      cases hpc' : s.pc other <;> rw [hpc'] at hother <;> exact hother
  · intro result hmem
    obtain ⟨hclaim, hitem, hnone⟩ := hinv.popReturned result hmem
    exact ⟨hclaim, hitem, fun other h => hnone other ((hpop other result.pos).mpr h)⟩

end MessageCenter.MPMCQueue
