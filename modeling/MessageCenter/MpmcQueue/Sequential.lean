import Mathlib.Algebra.Group.Nat.Defs
import Mathlib.Data.List.Basic
import Mathlib.Data.Nat.Bitwise
import Mathlib.Data.Nat.ModEq
import Mathlib.Logic.Function.Basic

/-!
# The ring of `mpmc_queue.h` in one thread

`try_push` and `try_pop` run without interference, with `w`-bit counters that
wrap.  Without interference a call goes round its loop once: a reload of
`m_tail` or `m_head` finds the value that is already there, so a call whose
first test asks for a reload never returns, and is `none` here.

`Represents` says which items a ring holds; its lemmas are all that the queues
built on the ring use.
-/

namespace MessageCenter.MPMCQueue

universe u

structure WordSlot (T : Type u) (w : Nat) where
  seq : BitVec w
  data : Option T

/-- `MPMCQueue<T, Capacity>` with counters of `w` bits. -/
structure WordRing (T : Type u) (w : Nat) where
  m_slots : Nat → WordSlot T w
  m_head : BitVec w
  m_tail : BitVec w

variable {T : Type u} {w : Nat}

namespace WordRing

/-- The constructor. -/
def init : WordRing T w where
  m_slots := fun i => ⟨BitVec.ofNat w i, none⟩
  m_head := 0
  m_tail := 0

/-- `pos & MASK` -/
def index (Capacity : Nat) (pos : BitVec w) : Nat :=
  (pos &&& (BitVec.ofNat w Capacity - 1)).toNat

/-- `static_cast<intptr_t>(a) - static_cast<intptr_t>(b)` -/
def diff (a b : BitVec w) : Int := (a - b).toInt

/-- `try_push` -/
def tryPush (Capacity : Nat) (ring : WordRing T w) (item : T) : Option (WordRing T w × Bool) :=
  let tail := ring.m_tail
  let slot := ring.m_slots (index Capacity tail)
  if diff slot.seq tail = 0 then
    some ({ ring with
      m_slots := Function.update ring.m_slots (index Capacity tail) ⟨tail + 1, some item⟩
      m_tail := tail + 1 }, true)
  else if diff slot.seq tail < 0 then some (ring, false)
  else none

/-- `try_pop`; the result is the item read from `slot.data`, if there is one. -/
def tryPop (Capacity : Nat) (ring : WordRing T w) :
    Option (WordRing T w × Option (Option T)) :=
  let head := ring.m_head
  let slot := ring.m_slots (index Capacity head)
  if diff slot.seq (head + 1) = 0 then
    some ({ ring with
      m_slots := Function.update ring.m_slots (index Capacity head)
        ⟨head + BitVec.ofNat w Capacity, slot.data⟩
      m_head := head + 1 }, some slot.data)
  else if diff slot.seq (head + 1) < 0 then some (ring, none)
  else none

/-- The items from `m_head` up to `m_tail`. -/
def contents (Capacity : Nat) (ring : WordRing T w) : List T :=
  (List.range (ring.m_tail - ring.m_head).toNat).filterMap fun i =>
    (ring.m_slots (index Capacity (ring.m_head + BitVec.ofNat w i))).data

/-! ### Words that stand for positions -/

theorem index_ofNat {k : Nat} (hk : k < w) (pos : Nat) :
    index (2 ^ k) (BitVec.ofNat w pos) = pos % 2 ^ k := by
  have hcap : 2 ^ k < 2 ^ w := Nat.pow_lt_pow_right (by decide) hk
  have hpos : 0 < 2 ^ k := Nat.two_pow_pos k
  have hone : 1 < 2 ^ w := Nat.one_lt_two_pow (by omega)
  have hcapNat : (BitVec.ofNat w (2 ^ k)).toNat = 2 ^ k := by
    rw [BitVec.toNat_ofNat, Nat.mod_eq_of_lt hcap]
  have honeNat : (1 : BitVec w).toNat = 1 := by
    change (BitVec.ofNat w 1).toNat = 1
    rw [BitVec.toNat_ofNat, Nat.mod_eq_of_lt hone]
  have hmask : (BitVec.ofNat w (2 ^ k) - 1).toNat = 2 ^ k - 1 := by
    have hle : (1 : BitVec w) ≤ BitVec.ofNat w (2 ^ k) := by
      rw [BitVec.le_def, hcapNat, honeNat]
      omega
    rw [BitVec.toNat_sub_of_le hle, hcapNat, honeNat]
  rw [index, BitVec.toNat_and, hmask, Nat.and_two_pow_sub_one_eq_mod, BitVec.toNat_ofNat,
    Nat.mod_mod_of_dvd _ (Nat.pow_dvd_pow 2 (Nat.le_of_lt hk))]

@[simp] theorem diff_self (a : BitVec w) : diff a a = 0 := by
  simp [diff]

/-- A word that lags by less than half the range has a negative difference. -/
theorem diff_neg (hw : 0 < w) (lag pos : Nat) (hlag : 0 < lag) (hhalf : lag ≤ 2 ^ (w - 1)) :
    diff (BitVec.ofNat w pos) (BitVec.ofNat w (pos + lag)) < 0 := by
  have hsplit : 2 ^ w = 2 * 2 ^ (w - 1) := by
    rw [← Nat.pow_succ']
    congr 1
    omega
  have hneg : BitVec.ofNat w pos - BitVec.ofNat w (pos + lag) = - BitVec.ofNat w lag := by
    rw [BitVec.ofNat_add]
    grind
  rw [diff, hneg, BitVec.toInt_eq_toNat_cond, BitVec.toNat_neg, BitVec.toNat_ofNat]
  have hlt : lag < 2 ^ w := by omega
  rw [Nat.mod_eq_of_lt hlt, Nat.mod_eq_of_lt (by omega)]
  split <;> omega

/-! ### The items of a ring -/

/-- The ring of `2 ^ k` slots holds `items`, the first of them at position
`start`; positions are unbounded, their words wrap. -/
structure Represents (k : Nat) (ring : WordRing T w) (start : Nat) (items : List T) : Prop where
  head : ring.m_head = BitVec.ofNat w start
  tail : ring.m_tail = BitVec.ofNat w (start + items.length)
  bound : items.length ≤ 2 ^ k
  filled : ∀ i item, items[i]? = some item →
    ring.m_slots ((start + i) % 2 ^ k) = ⟨BitVec.ofNat w (start + i + 1), some item⟩
  vacant : ∀ i, items.length ≤ i → i < 2 ^ k →
    (ring.m_slots ((start + i) % 2 ^ k)).seq = BitVec.ofNat w (start + i)

variable {k : Nat} {ring : WordRing T w} {start : Nat} {items : List T}

theorem represents_init : Represents k (init : WordRing T w) 0 [] where
  head := rfl
  tail := rfl
  bound := Nat.zero_le _
  filled := by simp
  vacant := by
    intro i _ hi
    simp [init, Nat.mod_eq_of_lt hi]

/-- Two offsets of one window share no slot. -/
theorem offset_eq_of_mod_eq {i j : Nat} (hi : i < 2 ^ k) (hj : j < 2 ^ k)
    (heq : (start + i) % 2 ^ k = (start + j) % 2 ^ k) : i = j := by
  have hmod : i % 2 ^ k = j % 2 ^ k := Nat.ModEq.add_left_cancel' start heq
  rwa [Nat.mod_eq_of_lt hi, Nat.mod_eq_of_lt hj] at hmod

theorem filterMap_range_getElem? (items : List T) :
    (List.range items.length).filterMap (fun i => items[i]?) = items := by
  induction items with
  | nil => rfl
  | cons item items ih =>
      rw [List.length_cons, List.range_succ_eq_map, List.filterMap_cons, List.filterMap_map]
      simpa [Function.comp_def] using ih

theorem Represents.contents_eq (hrep : Represents k ring start items) (hk : k < w) :
    ring.contents (2 ^ k) = items := by
  have hlength : (ring.m_tail - ring.m_head).toNat = items.length := by
    have hlt : items.length < 2 ^ w :=
      Nat.lt_of_le_of_lt hrep.bound (Nat.pow_lt_pow_right (by decide) hk)
    have hdiff : ring.m_tail - ring.m_head = BitVec.ofNat w items.length := by
      rw [hrep.tail, hrep.head, BitVec.ofNat_add]
      grind
    rw [hdiff, BitVec.toNat_ofNat, Nat.mod_eq_of_lt hlt]
  rw [contents, hlength]
  refine Eq.trans ?_ (filterMap_range_getElem? items)
  apply List.filterMap_congr
  intro i hi
  have hlt : i < items.length := List.mem_range.mp hi
  have hget : items[i]? = some items[i] := List.getElem?_eq_getElem hlt
  rw [hrep.head, ← BitVec.ofNat_add, index_ofNat hk, hrep.filled i items[i] hget, hget]

theorem Represents.tryPush_room (hrep : Represents k ring start items) (hk : k < w)
    (hroom : items.length < 2 ^ k) (item : T) :
    ∃ after, tryPush (2 ^ k) ring item = some (after, true) ∧
      Represents k after start (items ++ [item]) := by
  have hindex : index (2 ^ k) ring.m_tail = (start + items.length) % 2 ^ k := by
    rw [hrep.tail, index_ofNat hk]
  have hseq := hrep.vacant items.length (Nat.le_refl _) hroom
  refine ⟨{ ring with
    m_slots := Function.update ring.m_slots ((start + items.length) % 2 ^ k)
      ⟨BitVec.ofNat w (start + items.length + 1), some item⟩
    m_tail := BitVec.ofNat w (start + items.length + 1) }, ?_, hrep.head, ?_, ?_, ?_, ?_⟩
  · rw [BitVec.ofNat_add]
    simp [tryPush, hindex, hseq, ← hrep.tail]
  · simp [Nat.add_assoc]
  · rw [List.length_append, List.length_singleton]
    exact hroom
  · intro i other hget
    rcases Nat.lt_or_ge i items.length with hlt | hge
    · rw [List.getElem?_append_left hlt] at hget
      have hne : (start + i) % 2 ^ k ≠ (start + items.length) % 2 ^ k := fun heq => by
        have hsame := offset_eq_of_mod_eq (by omega) hroom heq
        omega
      simpa [hne] using hrep.filled i other hget
    · obtain ⟨hlt, _⟩ := List.getElem?_eq_some_iff.mp hget
      have heq : i = items.length := by
        rw [List.length_append, List.length_singleton] at hlt
        omega
      subst heq
      obtain rfl : item = other := by simpa using hget
      simp
  · intro i hlen hlt
    rw [List.length_append, List.length_singleton] at hlen
    have hne : (start + i) % 2 ^ k ≠ (start + items.length) % 2 ^ k := fun heq => by
      have hsame := offset_eq_of_mod_eq hlt hroom heq
      omega
    simpa [hne] using hrep.vacant i (by omega) hlt

/-- A ring of at least two slots that is full refuses the item. -/
theorem Represents.tryPush_full (hrep : Represents k ring start items) (hone : 1 ≤ k) (hk : k < w)
    (hfull : items.length = 2 ^ k) (item : T) : tryPush (2 ^ k) ring item = some (ring, false) := by
  have hindex : index (2 ^ k) ring.m_tail = (start + 0) % 2 ^ k := by
    rw [hrep.tail, index_ofNat hk, hfull, Nat.add_mod_right, Nat.add_zero]
  have hpos : 0 < 2 ^ k := Nat.two_pow_pos k
  obtain ⟨first, hfirst⟩ : ∃ first, items[0]? = some first :=
    ⟨items[0], List.getElem?_eq_getElem (by omega)⟩
  have hslot := hrep.filled 0 first hfirst
  have htwo : 2 ^ 1 ≤ 2 ^ k := Nat.pow_le_pow_right (by decide) hone
  have hhalf : 2 ^ k ≤ 2 ^ (w - 1) := Nat.pow_le_pow_right (by decide) (by omega)
  have hneg : diff (BitVec.ofNat w (start + 1)) ring.m_tail < 0 := by
    have hlag := diff_neg (show 0 < w by omega) (2 ^ k - 1) (start + 1) (by omega) (by omega)
    rwa [show start + 1 + (2 ^ k - 1) = start + items.length by omega, ← hrep.tail] at hlag
  rw [tryPush]
  simp only [hindex, hslot]
  rw [if_neg (by rw [Nat.add_zero]; omega), if_pos hneg]

theorem Represents.tryPop_nil (hrep : Represents k ring start []) (hk : k < w) :
    tryPop (2 ^ k) ring = some (ring, none) := by
  have hindex : index (2 ^ k) ring.m_head = (start + 0) % 2 ^ k := by
    rw [hrep.head, index_ofNat hk, Nat.add_zero]
  have hseq := hrep.vacant 0 (Nat.le_refl _) (Nat.two_pow_pos k)
  have hneg : diff (BitVec.ofNat w start) (ring.m_head + 1) < 0 := by
    have hlag := diff_neg (show 0 < w by omega) 1 start (by omega) (Nat.one_le_two_pow)
    rw [hrep.head]
    rwa [BitVec.ofNat_add] at hlag
  rw [tryPop]
  simp only [hindex, hseq]
  rw [Nat.add_zero, if_neg (by omega), if_pos hneg]

theorem Represents.tryPop_cons {item : T} (hrep : Represents k ring start (item :: items))
    (hk : k < w) :
    ∃ after, tryPop (2 ^ k) ring = some (after, some (some item)) ∧
      Represents k after (start + 1) items := by
  have hpos : 0 < 2 ^ k := Nat.two_pow_pos k
  have hindex : index (2 ^ k) ring.m_head = (start + 0) % 2 ^ k := by
    rw [hrep.head, index_ofNat hk, Nat.add_zero]
  have hslot := hrep.filled 0 item rfl
  have hlen : items.length < 2 ^ k := hrep.bound
  refine ⟨{ ring with
    m_slots := Function.update ring.m_slots ((start + 0) % 2 ^ k)
      ⟨BitVec.ofNat w (start + 2 ^ k), some item⟩
    m_head := BitVec.ofNat w (start + 1) }, ?_, rfl, ?_, ?_, ?_, ?_⟩
  · have hword : ring.m_head + 1 = BitVec.ofNat w (start + 0 + 1) := by
      rw [hrep.head]
      exact (BitVec.ofNat_add ..).symm
    rw [tryPop]
    simp only [hindex, hslot, hword]
    rw [if_pos (diff_self _), hrep.head, ← BitVec.ofNat_add]
  · rw [hrep.tail, List.length_cons, show start + (items.length + 1) = start + 1 + items.length by
      omega]
  · omega
  · intro i other hget
    obtain ⟨hlt, _⟩ := List.getElem?_eq_some_iff.mp hget
    have hne : (start + (i + 1)) % 2 ^ k ≠ (start + 0) % 2 ^ k := fun heq => by
      have hsame := offset_eq_of_mod_eq (by omega) hpos heq
      omega
    have hold := hrep.filled (i + 1) other (by simpa using hget)
    rw [show start + 1 + i = start + (i + 1) by omega]
    simpa only [Function.update_of_ne hne] using hold
  · intro i hge hlt
    rcases Nat.lt_or_ge (i + 1) (2 ^ k) with hin | hout
    · have hne : (start + (i + 1)) % 2 ^ k ≠ (start + 0) % 2 ^ k := fun heq => by
        have hsame := offset_eq_of_mod_eq hin hpos heq
        omega
      have hold := hrep.vacant (i + 1) (by simpa using hge) hin
      rw [show start + 1 + i = start + (i + 1) by omega]
      simpa only [Function.update_of_ne hne] using hold
    · -- the slot just read is the last of the next window
      rw [show start + 1 + i = start + 2 ^ k by omega, Nat.add_mod_right]
      simp

end WordRing

end MessageCenter.MPMCQueue
