import MessageCenter.MpmcQueue.Capacity

/-!
# The size of a quiet ring

`size_approx` compares the counters as unsigned numbers, where `try_push` and `try_pop` take
their difference modulo `2 ^ w`.  The two agree as long as no multiple of `2 ^ w` lies between
`m_head` and `m_tail`: a tail that has wrapped is less than a head that has not, and the guard
against a stale tail then reports an empty ring.
-/

namespace MessageCenter.MPMCQueue

universe u

variable {T : Type u} {w : Nat}

/-- How many of the calls stored an item. -/
def pushes (results : List (Result T)) : Nat :=
  results.countP fun
    | .pushed ok => ok
    | .popped _ => false

/-- How many of the calls took an item. -/
def pops (results : List (Result T)) : Nat :=
  results.countP fun
    | .pushed _ => false
    | .popped item => item.isSome

namespace WordRing

/-- `size_approx` -/
def sizeApprox (ring : WordRing T w) : BitVec w :=
  let tail := ring.m_tail
  let head := ring.m_head
  if head ≤ tail then tail - head else 0

def empty (ring : WordRing T w) : Bool := ring.sizeApprox == 0

/-- `size_approx` is the number of the items stored, and `empty` says whether there are none. -/
structure SizeExact (ring : WordRing T w) (stored : Nat) : Prop where
  size : ring.sizeApprox.toNat = stored
  empty : ring.empty = true ↔ stored = 0

/-! ### Positions and words -/

/-- Two positions less than a round apart keep their order as words if they are in the same
round. -/
theorem mod_le_mod_iff {start n round : Nat} (hlt : n < round) :
    start % round ≤ (start + n) % round ↔ (start + n) / round = start / round := by
  have hpos : 0 < round := Nat.lt_of_le_of_lt (Nat.zero_le n) hlt
  have hstart := Nat.div_add_mod start round
  have hend := Nat.div_add_mod (start + n) round
  have hmod := Nat.mod_lt start hpos
  have hmod' := Nat.mod_lt (start + n) hpos
  constructor
  · intro hle
    by_contra hne
    have hmono : start / round ≤ (start + n) / round := Nat.div_le_div_right (Nat.le_add_right ..)
    -- the next round begins between the two positions
    obtain ⟨more, hmore⟩ := Nat.exists_eq_add_of_lt (Nat.lt_of_le_of_ne hmono (Ne.symm hne))
    rw [hmore, Nat.mul_add, Nat.mul_add, Nat.mul_one] at hend
    omega
  · intro heq
    rw [heq] at hend
    omega

variable {k start : Nat} {ring : WordRing T w} {items : List T}

theorem Represents.length_lt (hrep : Represents k ring start items) (hk : k < w) :
    items.length < 2 ^ w :=
  Nat.lt_of_le_of_lt hrep.bound (Nat.pow_lt_pow_right (by decide) hk)

theorem Represents.head_le_tail_iff (hrep : Represents k ring start items) (hk : k < w) :
    ring.m_head ≤ ring.m_tail ↔ (start + items.length) / 2 ^ w = start / 2 ^ w := by
  rw [hrep.head, hrep.tail, BitVec.le_def, BitVec.toNat_ofNat, BitVec.toNat_ofNat,
    mod_le_mod_iff (hrep.length_lt hk)]

theorem Represents.sub_eq (hrep : Represents k ring start items) :
    ring.m_tail - ring.m_head = BitVec.ofNat w items.length := by
  rw [hrep.tail, hrep.head, BitVec.ofNat_add]
  grind

/-- The size is exact if head and tail are in one round of the counters. -/
theorem Represents.sizeExact_iff (hrep : Represents k ring start items) (hk : k < w) :
    ring.SizeExact items.length ↔ (start + items.length) / 2 ^ w = start / 2 ^ w := by
  have hlength : (BitVec.ofNat w items.length).toNat = items.length := by
    rw [BitVec.toNat_ofNat, Nat.mod_eq_of_lt (hrep.length_lt hk)]
  rw [← hrep.head_le_tail_iff hk]
  constructor
  · intro hexact
    by_contra hwrapped
    have hsize : 0 = items.length := by simpa [sizeApprox, hwrapped] using hexact.size
    -- nothing is stored, so the two counters are the same
    have hsame : ring.m_tail = ring.m_head := by rw [hrep.tail, hrep.head, ← hsize, Nat.add_zero]
    exact hwrapped (hsame ▸ BitVec.le_refl _)
  · intro hle
    have hsize : ring.sizeApprox.toNat = items.length := by
      rw [sizeApprox, if_pos hle, hrep.sub_eq, hlength]
    refine ⟨hsize, ?_⟩
    rw [WordRing.empty, beq_iff_eq, ← hsize, BitVec.toNat_eq]
    rfl

/-! ### Runs -/

/-- A call moves the first position when it takes an item. -/
theorem Represents.step_counts (hrep : Represents k ring start items) (hone : 1 ≤ k) (hk : k < w)
    (op : Op T) : ∃ after result items',
      WordRing.step (2 ^ k) ring op = some (after, result) ∧
        Represents k after (start + pops [result]) items' ∧
        pops [result] + items'.length = pushes [result] + items.length := by
  cases op with
  | tryPush item =>
      by_cases hroom : items.length < 2 ^ k
      · obtain ⟨after, hpush, hafter⟩ := hrep.tryPush_room hk hroom item
        refine ⟨after, .pushed true, items ++ [item], ?_, hafter, ?_⟩
        · simp [WordRing.step, hpush]
        · simp [pops, pushes, Nat.add_comm]
      · have hfull : items.length = 2 ^ k := Nat.le_antisymm hrep.bound (Nat.le_of_not_lt hroom)
        refine ⟨ring, .pushed false, items, ?_, hrep, rfl⟩
        simp [WordRing.step, hrep.tryPush_full hone hk hfull]
  | tryPop =>
      cases items with
      | nil =>
          refine ⟨ring, .popped none, [], ?_, hrep, rfl⟩
          simp [WordRing.step, hrep.tryPop_nil hk]
      | cons item rest =>
          obtain ⟨after, hpop, hafter⟩ := hrep.tryPop_cons hk
          refine ⟨after, .popped (some (some item)), rest, ?_, hafter, ?_⟩
          · simp [WordRing.step, hpop]
          · simp [pops, pushes, Nat.add_comm]

theorem pops_cons (result : Result T) (results : List (Result T)) :
    pops (result :: results) = pops [result] + pops results := by
  rw [← List.singleton_append, pops, List.countP_append, ← pops, ← pops]

theorem pushes_cons (result : Result T) (results : List (Result T)) :
    pushes (result :: results) = pushes [result] + pushes results := by
  rw [← List.singleton_append, pushes, List.countP_append, ← pushes, ← pushes]

theorem Represents.run_counts (hrep : Represents k ring start items) (hone : 1 ≤ k) (hk : k < w)
    (ops : List (Op T)) : ∃ after results items',
      WordRing.run (2 ^ k) ring ops = some (after, results) ∧
        Represents k after (start + pops results) items' ∧
        pops results + items'.length = pushes results + items.length := by
  induction ops generalizing ring start items with
  | nil => exact ⟨ring, [], items, rfl, hrep, rfl⟩
  | cons op ops ih =>
      obtain ⟨middle, result, items₁, hstep, hmiddle, hcount⟩ := hrep.step_counts hone hk op
      obtain ⟨after, results, items₂, hrun, hafter, hcounts⟩ := ih hmiddle
      refine ⟨after, result :: results, items₂, ?_, ?_, ?_⟩
      · simp [WordRing.run, hstep, hrun]
      · rw [pops_cons, ← Nat.add_assoc]
        exact hafter
      · rw [pops_cons, pushes_cons]
        omega

/-- **`size_approx` of a quiet ring.**  After every sequence of calls the size is exact as long
as the last push and the last pop have left the counters in the same round. -/
theorem sizeExact_iff_same_round (T : Type u) (w k : Nat) (hone : 1 ≤ k) (hk : k ≤ w - 2)
    (ops : List (Op T)) : ∃ (ring : WordRing T w) (results : List (Result T)),
      run (2 ^ k) init ops = some (ring, results) ∧
        (ring.SizeExact (pushes results - pops results) ↔
          pushes results / 2 ^ w = pops results / 2 ^ w) := by
  have hlt : k < w := by omega
  obtain ⟨ring, results, items, hrun, hrep, hcount⟩ :=
    (represents_init : Represents k (init : WordRing T w) 0 []).run_counts hone hlt ops
  rw [List.length_nil, Nat.add_zero] at hcount
  rw [Nat.zero_add] at hrep
  refine ⟨ring, results, hrun, ?_⟩
  rw [← hcount, Nat.add_sub_cancel_left]
  exact hrep.sizeExact_iff hlt

/-- Words of three bits: seven items have gone through, and one is stored. -/
theorem sizeExact_iff_same_round_seven : ∃ (ring : WordRing Nat 3) (results : List (Result Nat)),
    run 2 init ((List.range 7).flatMap (fun n => [.tryPush n, .tryPop]) ++ [.tryPush 7]) =
        some (ring, results) ∧
      (ring.SizeExact (pushes results - pops results) ↔
        pushes results / 2 ^ 3 = pops results / 2 ^ 3) :=
  sizeExact_iff_same_round Nat 3 1 (by decide) (by decide) _

/-- The eighth push wraps `m_tail` to 0 while `m_head` is 7: the ring holds an item, and
`size_approx` says 0. -/
theorem wrapped_tail_reports_empty :
    ¬ ∀ (w k : Nat), 1 ≤ k → k ≤ w - 2 → ∀ (ops : List (Op Nat)) (ring : WordRing Nat w)
      (results : List (Result Nat)), run (2 ^ k) init ops = some (ring, results) →
        ring.SizeExact (pushes results - pops results) := by
  intro hall
  have htest : ((run (2 ^ 1) (init : WordRing Nat 3)
      ((List.range 7).flatMap (fun n => [.tryPush n, .tryPop]) ++ [.tryPush 7])).map
        fun (ring, results) => (ring.sizeApprox.toNat, pushes results - pops results)) =
      some (0, 1) := by decide +kernel
  rw [Option.map_eq_some_iff] at htest
  obtain ⟨⟨ring, results⟩, hrun, heq⟩ := htest
  have hsize := (hall 3 1 (by decide) (by decide) _ ring results hrun).size
  obtain ⟨hzero, hstored⟩ := Prod.mk.inj heq
  rw [hzero, hstored] at hsize
  cases hsize

end WordRing

end MessageCenter.MPMCQueue
