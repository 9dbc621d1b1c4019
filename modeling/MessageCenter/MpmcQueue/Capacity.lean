import MessageCenter.MpmcQueue.Sequential

/-!
# Which capacities work

A fresh ring in one thread, and any sequence of `try_push` and `try_pop`.  What the
ring is for is a bounded FIFO, written here as a list with a limit; a capacity works if
every sequence of calls gets the results of that FIFO, and the ring holds its items
after each.

With two slots or more the three states of a slot are different words, also when the
counters wrap.  With one slot `pos + 1` and `pos + Capacity` are the same word: a slot
that holds an item looks ready for the next one.
-/

namespace MessageCenter.MPMCQueue

universe u

inductive Op (T : Type u) where
  | tryPush (item : T)
  | tryPop
deriving DecidableEq, Repr

inductive Result (T : Type u) where
  | pushed (ok : Bool)
  /-- `none` is the result `false` -/
  | popped (item : Option (Option T))
deriving DecidableEq, Repr

variable {T : Type u} {w : Nat}

/-! ### The bounded FIFO -/

/-- A list that takes items up to a limit at its end and gives them at its front. -/
def fifoStep (limit : Nat) (items : List T) : Op T → List T × Result T
  | .tryPush item =>
      if items.length < limit then (items ++ [item], .pushed true) else (items, .pushed false)
  | .tryPop =>
      match items with
      | [] => ([], .popped none)
      | item :: rest => (rest, .popped (some (some item)))

def fifo (limit : Nat) (items : List T) : List (Op T) → List T × List (Result T)
  | [] => (items, [])
  | op :: ops =>
      let (items, result) := fifoStep limit items op
      let (items, results) := fifo limit items ops
      (items, result :: results)

/-! ### The ring -/

namespace WordRing

def step (Capacity : Nat) (ring : WordRing T w) : Op T → Option (WordRing T w × Result T)
  | .tryPush item => (ring.tryPush Capacity item).map fun (ring, ok) => (ring, .pushed ok)
  | .tryPop => (ring.tryPop Capacity).map fun (ring, item) => (ring, .popped item)

/-- A sequence of calls with their results; `none` if one of them does not return. -/
def run (Capacity : Nat) (ring : WordRing T w) :
    List (Op T) → Option (WordRing T w × List (Result T))
  | [] => some (ring, [])
  | op :: ops =>
      (ring.step Capacity op).bind fun (ring, result) =>
        (run Capacity ring ops).map fun (ring, results) => (ring, result :: results)

/-- After every sequence of calls on a fresh ring: they have all returned, with the
results of a FIFO that is limited to `Capacity` items, and the ring holds its items. -/
def Works (T : Type u) (w Capacity : Nat) : Prop :=
  ∀ ops : List (Op T), ∃ ring : WordRing T w,
    run Capacity init ops = some (ring, (fifo Capacity [] ops).2) ∧
      ring.contents Capacity = (fifo Capacity [] ops).1

variable {k start : Nat} {ring : WordRing T w} {items : List T}

theorem Represents.step (hrep : Represents k ring start items) (hone : 1 ≤ k) (hk : k < w)
    (op : Op T) : ∃ after start',
      WordRing.step (2 ^ k) ring op = some (after, (fifoStep (2 ^ k) items op).2) ∧
        Represents k after start' (fifoStep (2 ^ k) items op).1 := by
  cases op with
  | tryPush item =>
      by_cases hroom : items.length < 2 ^ k
      · obtain ⟨after, hpush, hafter⟩ := hrep.tryPush_room hk hroom item
        refine ⟨after, start, ?_, ?_⟩
        · simp [WordRing.step, fifoStep, hpush, hroom]
        · simpa [fifoStep, hroom] using hafter
      · have hfull : items.length = 2 ^ k := Nat.le_antisymm hrep.bound (Nat.le_of_not_lt hroom)
        refine ⟨ring, start, ?_, ?_⟩
        · simp [WordRing.step, fifoStep, hrep.tryPush_full hone hk hfull, hroom]
        · simpa [fifoStep, hroom] using hrep
  | tryPop =>
      cases items with
      | nil => exact ⟨ring, start, by simp [WordRing.step, fifoStep, hrep.tryPop_nil hk], hrep⟩
      | cons item rest =>
          obtain ⟨after, hpop, hafter⟩ := hrep.tryPop_cons hk
          exact ⟨after, start + 1, by simp [WordRing.step, fifoStep, hpop], hafter⟩

theorem Represents.run (hrep : Represents k ring start items) (hone : 1 ≤ k) (hk : k < w)
    (ops : List (Op T)) : ∃ after,
      WordRing.run (2 ^ k) ring ops = some (after, (fifo (2 ^ k) items ops).2) ∧
        after.contents (2 ^ k) = (fifo (2 ^ k) items ops).1 := by
  induction ops generalizing ring start items with
  | nil => exact ⟨ring, rfl, hrep.contents_eq hk⟩
  | cons op ops ih =>
      obtain ⟨middle, start', hstep, hmiddle⟩ := hrep.step hone hk op
      obtain ⟨after, hrun, hcontents⟩ := ih hmiddle
      exact ⟨after, by simp [WordRing.run, fifo, hstep, hrun], hcontents⟩

theorem works_of_two_slots (hone : 1 ≤ k) (hk : k < w) : Works T w (2 ^ k) :=
  fun ops => represents_init.run hone hk ops

/-- The second of two pushes into one slot finds the slot ready. -/
theorem run_one_slot (item : T) :
    (run 1 (init : WordRing T 64) [.tryPush item, .tryPush item]).map Prod.snd =
      some [.pushed true, .pushed true] := by
  simp [run, step, tryPush, init, index, diff]

theorem not_works_one [Inhabited T] : ¬ Works T 64 1 := by
  intro hworks
  obtain ⟨ring, hrun, -⟩ := hworks [.tryPush default, .tryPush default]
  have hresults := run_one_slot (default : T)
  rw [hrun] at hresults
  simp [fifo, fifoStep] at hresults

/-- **Every admitted capacity but 1 works.**  `Capacity` is a `size_t` that passes the
`static_assert`. -/
theorem works_iff_two_slots [Inhabited T] (Capacity : Nat) (hpos : 1 ≤ Capacity)
    (hsize : Capacity < 2 ^ 64) (hassert : Capacity &&& (Capacity - 1) = 0) :
    Works T 64 Capacity ↔ 2 ≤ Capacity := by
  obtain ⟨k, rfl⟩ := (Nat.and_sub_one_eq_zero_iff_isPowerOfTwo (by omega)).mp hassert
  constructor
  · intro hworks
    by_contra hsmall
    have hone : 2 ^ k = 1 := by omega
    rw [hone] at hworks
    exact not_works_one hworks
  · intro htwo
    have hk : k < 64 := (Nat.pow_lt_pow_iff_right (by decide)).mp hsize
    have hk1 : 1 ≤ k := by
      cases k with
      | zero => simp at htwo
      | succ k => omega
    exact works_of_two_slots hk1 hk

theorem works_iff_two_slots_64 : Works Nat 64 64 ↔ 2 ≤ 64 :=
  works_iff_two_slots 64 (by decide) (by decide) (by decide)

/-- A ring of one slot takes a second item over the first. -/
theorem one_slot_overwrites :
    ¬ ∀ Capacity, 1 ≤ Capacity → Capacity < 2 ^ 64 → Capacity &&& (Capacity - 1) = 0 →
      Works Nat 64 Capacity :=
  fun hclaim => not_works_one (hclaim 1 (by decide) (by decide) (by decide))

/-- **The ring is a bounded FIFO across the wrap of its counters**, whatever their
width. -/
theorem works_across_wrap (w k : Nat) (hone : 1 ≤ k) (hk : k ≤ w - 2) : Works T w (2 ^ k) :=
  works_of_two_slots hone (by omega)

/-- Counters of three bits, a ring of two slots. -/
theorem works_across_wrap_three : Works Nat 3 2 := works_across_wrap 3 1 (by decide) (by decide)

/-- Ten items go through a ring whose counters wrap at 8. -/
example : ((run 2 (init : WordRing Nat 3)
    ((List.range 10).flatMap fun n => [.tryPush n, .tryPop])).map Prod.snd).map List.getLast? =
      some (some (.popped (some (some 9)))) := by decide +kernel

end WordRing

end MessageCenter.MPMCQueue
