import Mathlib.Data.List.Basic
import Mathlib.Logic.Function.Basic

/-!
# Dispatch threads and the calls that start and stop them

`MessageCenterFast` and `MessageCenter` keep their dispatch thread in the same way: a
raw pointer to a `std::thread` that `start` sets, and that `stop` joins, deletes and
clears.  This module is what the two have in common: the thread objects with what was
done to each, and the calls in progress.

`joins`, `deletes` and `overwritten` are history, and so is the whole of `Calls`.
`Status` says how far the one thread object in use has come; `Fits` ties it to the
objects, and each operation takes one status to the next.
-/

namespace MessageCenter.Dispatcher

/-! ### The thread objects -/

/-- How far a dispatch thread is. -/
inductive Stage where
  | loop
  /-- after the loop -/
  | rest
  /-- nothing is left to do -/
  | leaving
  | ended
deriving DecidableEq, Repr

/-- A thread object is named by the number of those created before it. -/
structure Threads where
  /-- `m_dispatchThread`, `m_thread` -/
  pointer : Option Nat
  created : Nat
  stage : Nat → Option Stage
  joins : List Nat
  deletes : List Nat
  overwritten : List Nat

namespace Threads

def init : Threads := ⟨none, 0, fun _ => none, [], [], []⟩

/-- `new std::thread(…)`, whose result is not stored yet. -/
def create (s : Threads) : Threads :=
  { s with
    created := s.created + 1
    stage := Function.update s.stage s.created (some .loop) }

/-- Assign to the pointer. -/
def setPointer (s : Threads) (pointer : Option Nat) : Threads :=
  { s with
    pointer := pointer
    overwritten := s.pointer.toList.filter (· ∉ s.joins) ++ s.overwritten }

/-- The thread `th` comes to the stage `stage`. -/
def advance (s : Threads) (th : Nat) (stage : Stage) : Threads :=
  { s with stage := Function.update s.stage th (some stage) }

/-- A call of `join` on `th` returns. -/
def join (s : Threads) (th : Nat) : Threads := { s with joins := th :: s.joins }

/-- `delete` the object that the pointer is for, if any. -/
def delete (s : Threads) : Threads := { s with deletes := s.pointer.toList ++ s.deletes }

/-- `joinable()` -/
def joinable (s : Threads) (th : Nat) : Bool := th ∉ s.joins

end Threads

/-! ### The calls in progress -/

/-- `starts` counts the calls of `start`; `since t` is that count at the beginning of
`t`'s last call of `stop` if no `start` was in progress then, and `settled` the count
that was still the same when such a call returned. -/
structure Calls (Tid : Type) where
  starts : Nat
  inStart : List Tid
  since : Tid → Option Nat
  settled : Option Nat

namespace Calls

variable {Tid : Type}

def init : Calls Tid := ⟨0, [], fun _ => none, none⟩

def beginStart (s : Calls Tid) (t : Tid) : Calls Tid :=
  { s with starts := s.starts + 1, inStart := t :: s.inStart }

def endStart [DecidableEq Tid] (s : Calls Tid) (t : Tid) : Calls Tid :=
  { s with inStart := s.inStart.filter (· ≠ t) }

def beginStop [DecidableEq Tid] (s : Calls Tid) (t : Tid) : Calls Tid :=
  { s with since := Function.update s.since t (if s.inStart = [] then some s.starts else none) }

def endStop (s : Calls Tid) (t : Tid) : Calls Tid :=
  { s with settled := if s.since t = some s.starts then some s.starts else s.settled }

/-- A `stop` has returned that no `start` overlapped, and no `start` has followed. -/
def Settled (s : Calls Tid) : Prop := s.settled = some s.starts

instance (s : Calls Tid) : Decidable s.Settled := inferInstanceAs (Decidable (_ = _))

/-- Only a `start` that begins can unsettle, and while nothing does none is in progress. -/
structure Inv (s : Calls Tid) : Prop where
  since_le : ∀ t n, s.since t = some n → n ≤ s.starts
  since_quiet : ∀ t, s.since t = some s.starts → s.inStart = []
  settled_le : ∀ n, s.settled = some n → n ≤ s.starts
  settled_quiet : s.Settled → s.inStart = []

variable {s : Calls Tid}

theorem Inv.init : (init : Calls Tid).Inv := by
  constructor <;> simp [Calls.init, Settled]

theorem Inv.beginStart (h : s.Inv) (t : Tid) : (s.beginStart t).Inv where
  since_le u n hn := Nat.le_succ_of_le (h.since_le u n hn)
  since_quiet u hu := absurd (h.since_le u _ hu) (Nat.not_succ_le_self _)
  settled_le n hn := Nat.le_succ_of_le (h.settled_le n hn)
  settled_quiet hsettled := absurd (h.settled_le _ hsettled) (Nat.not_succ_le_self _)

theorem Inv.not_settled_beginStart (h : s.Inv) (t : Tid) : ¬ (s.beginStart t).Settled :=
  fun hsettled => Nat.not_succ_le_self _ (h.settled_le _ hsettled)

theorem Inv.endStart [DecidableEq Tid] (h : s.Inv) (t : Tid) : (s.endStart t).Inv where
  since_le := h.since_le
  since_quiet u hu := by simp [Calls.endStart, h.since_quiet u hu]
  settled_le := h.settled_le
  settled_quiet hsettled := by simp [Calls.endStart, h.settled_quiet hsettled]

theorem Inv.beginStop [DecidableEq Tid] (h : s.Inv) (t : Tid) : (s.beginStop t).Inv where
  since_le u n hn := by
    by_cases heq : u = t
    · simp only [Calls.beginStop, heq, Function.update_self] at hn
      split at hn
      · exact Nat.le_of_eq (Option.some.inj hn).symm
      · contradiction
    · simp only [Calls.beginStop, Function.update_of_ne heq] at hn
      exact h.since_le u n hn
  since_quiet u hu := by
    by_cases heq : u = t
    · simp only [Calls.beginStop, heq, Function.update_self] at hu
      split at hu
      · assumption
      · contradiction
    · simp only [Calls.beginStop, Function.update_of_ne heq] at hu
      exact h.since_quiet u hu
  settled_le := h.settled_le
  settled_quiet := h.settled_quiet

/-- A `stop` that settles matters has had no `start` in progress all along. -/
theorem Inv.quiet_of_settled_endStop (h : s.Inv) (t : Tid) (hsettled : (s.endStop t).Settled) :
    s.inStart = [] := by
  simp only [Calls.endStop, Settled] at hsettled
  split at hsettled
  · exact h.since_quiet t ‹_›
  · exact h.settled_quiet hsettled

theorem Inv.endStop (h : s.Inv) (t : Tid) : (s.endStop t).Inv where
  since_le := h.since_le
  since_quiet := h.since_quiet
  settled_le n hn := by
    simp only [Calls.endStop] at hn ⊢
    split at hn
    · exact Nat.le_of_eq (Option.some.inj hn).symm
    · exact h.settled_le n hn
  settled_quiet hsettled := h.quiet_of_settled_endStop t hsettled

end Calls

/-! ### At most one dispatcher -/

/-- The law for a component whose dispatch threads execute while `executing`. -/
structure AtMostOne {Tid : Type} (threads : Threads) (executing : Nat → Prop)
    (calls : Calls Tid) : Prop where
  single : ∀ th₁ th₂, executing th₁ → executing th₂ → th₁ = th₂
  joinedOnce : threads.joins.Nodup
  deletedOnce : threads.deletes.Nodup
  keptUntilJoined : threads.overwritten = []
  settled : calls.Settled → ∀ th, ¬ executing th

/-! ### The status of the thread object in use -/

/-- `reserved` is a vacancy that a `start` has claimed. -/
inductive Status where
  | vacant
  | reserved
  | created (th : Nat)
  | stored (th : Nat)
  | joined (th : Nat)
  | deleted (th : Nat)
deriving DecidableEq

namespace Status

@[simp] def object : Status → Option Nat
  | .vacant | .reserved => none
  | .created th | .stored th | .joined th | .deleted th => some th

@[simp] def pointer : Status → Option Nat
  | .vacant | .reserved | .created _ => none
  | .stored th | .joined th | .deleted th => some th

@[simp] def unjoined : Status → Option Nat
  | .created th | .stored th => some th
  | .vacant | .reserved | .joined _ | .deleted _ => none

@[simp] def undeleted : Status → Option Nat
  | .created th | .stored th | .joined th => some th
  | .vacant | .reserved | .deleted _ => none

end Status

namespace Threads

/-- All thread objects but the one that `status` is about have been joined and deleted. -/
structure Fits (s : Threads) (status : Status) : Prop where
  pointer : s.pointer = status.pointer
  born : ∀ th, s.stage th = none ↔ s.created ≤ th
  joined : ∀ th, th ∈ s.joins ↔ th < s.created ∧ status.unjoined ≠ some th
  deleted : ∀ th, th ∈ s.deletes ↔ th < s.created ∧ status.undeleted ≠ some th
  ended : ∀ th ∈ s.joins, s.stage th = some .ended
  known : ∀ th, status.object = some th → th < s.created
  joinedOnce : s.joins.Nodup
  deletedOnce : s.deletes.Nodup
  keptUntilJoined : s.overwritten = []

variable {s : Threads} {status : Status} {th : Nat}

theorem Fits.init : init.Fits .vacant := by
  constructor <;> simp [Threads.init]

theorem Fits.lt_created (h : s.Fits status) {stage : Stage} (hstage : s.stage th = some stage) :
    th < s.created := by
  by_contra hge
  rw [(h.born th).mpr (Nat.le_of_not_lt hge)] at hstage
  contradiction

/-- A thread that has not ended is the one that `status` is about. -/
theorem Fits.unjoined_of_stage (h : s.Fits status) {stage : Stage}
    (hstage : s.stage th = some stage) (hlive : stage ≠ .ended) : status.unjoined = some th := by
  by_contra hne
  have hended := h.ended th ((h.joined th).mpr ⟨h.lt_created hstage, hne⟩)
  rw [hstage] at hended
  exact hlive (Option.some.inj hended)

theorem Fits.reserve (h : s.Fits .vacant) : s.Fits .reserved := by
  cases h
  constructor <;> assumption

theorem Fits.vacate (h : s.Fits .reserved) : s.Fits .vacant := by
  cases h
  constructor <;> assumption

theorem Fits.create (h : s.Fits .vacant) : s.create.Fits (.created s.created) where
  pointer := h.pointer
  born th := by
    by_cases heq : th = s.created
    · subst heq
      simp [Threads.create]
    · simp only [Threads.create, Function.update_of_ne heq, h.born th]
      omega
  joined th := by
    have := h.joined th
    simp only [Status.unjoined, ne_eq, reduceCtorEq, not_false_eq_true, and_true] at this
    simp only [Threads.create, Status.unjoined, ne_eq, Option.some.injEq, this]
    omega
  deleted th := by
    have := h.deleted th
    simp only [Status.undeleted, ne_eq, reduceCtorEq, not_false_eq_true, and_true] at this
    simp only [Threads.create, Status.undeleted, ne_eq, Option.some.injEq, this]
    omega
  ended th hth := by
    have hlt := ((h.joined th).mp hth).1
    simp only [Threads.create, Function.update_of_ne (Nat.ne_of_lt hlt)]
    exact h.ended th hth
  known th hth := by
    simp only [Status.object, Option.some.injEq] at hth
    simp [Threads.create, hth]
  joinedOnce := h.joinedOnce
  deletedOnce := h.deletedOnce
  keptUntilJoined := h.keptUntilJoined

theorem Fits.store (h : s.Fits (.created th)) : (s.setPointer (some th)).Fits (.stored th) where
  pointer := rfl
  born := h.born
  joined := h.joined
  deleted := h.deleted
  ended := h.ended
  known := h.known
  joinedOnce := h.joinedOnce
  deletedOnce := h.deletedOnce
  keptUntilJoined := by
    have hnone : s.pointer = none := h.pointer
    simp [Threads.setPointer, hnone, h.keptUntilJoined]

/-- The pointer to an object that is not joined is the only way to it. -/
theorem Fits.joinable_stored (h : s.Fits (.stored th)) : s.joinable th = true := by
  have := h.joined th
  simp only [Status.unjoined, ne_eq, not_true_eq_false, and_false, iff_false] at this
  simpa [Threads.joinable] using this

theorem Fits.join (h : s.Fits (.stored th)) (hended : s.stage th = some .ended) :
    (s.join th).Fits (.joined th) where
  pointer := h.pointer
  born := h.born
  joined other := by
    have hjoined := h.joined other
    have hlt := h.known th rfl
    simp only [Status.unjoined, ne_eq, Option.some.injEq] at hjoined
    simp only [Threads.join, List.mem_cons, hjoined, Status.unjoined, ne_eq, reduceCtorEq,
      not_false_eq_true, and_true]
    omega
  deleted := h.deleted
  ended other hother := by
    rcases List.mem_cons.mp hother with heq | hmem
    · rw [heq]
      exact hended
    · exact h.ended other hmem
  known := h.known
  joinedOnce := by
    refine List.nodup_cons.mpr ⟨fun hmem => ?_, h.joinedOnce⟩
    exact ((h.joined th).mp hmem).2 rfl
  deletedOnce := h.deletedOnce
  keptUntilJoined := h.keptUntilJoined

theorem Fits.delete (h : s.Fits (.joined th)) : s.delete.Fits (.deleted th) where
  pointer := h.pointer
  born := h.born
  joined := h.joined
  deleted other := by
    have hdeleted := h.deleted other
    have hlt := h.known th rfl
    have hpointer : s.pointer = some th := h.pointer
    simp only [Status.undeleted, ne_eq, Option.some.injEq] at hdeleted
    simp only [Threads.delete, hpointer, Option.toList_some, List.singleton_append,
      List.mem_cons, hdeleted, Status.undeleted, ne_eq, reduceCtorEq, not_false_eq_true, and_true]
    omega
  ended := h.ended
  known := h.known
  joinedOnce := h.joinedOnce
  deletedOnce := by
    have hpointer : s.pointer = some th := h.pointer
    have hmem : th ∉ s.deletes := fun hmem => ((h.deleted th).mp hmem).2 rfl
    simp [Threads.delete, hpointer, hmem, h.deletedOnce]
  keptUntilJoined := h.keptUntilJoined

theorem Fits.clear (h : s.Fits (.deleted th)) : (s.setPointer none).Fits .vacant where
  pointer := rfl
  born := h.born
  joined := h.joined
  deleted := h.deleted
  ended := h.ended
  known := by simp
  joinedOnce := h.joinedOnce
  deletedOnce := h.deletedOnce
  keptUntilJoined := by
    have hsome : s.pointer = some th := h.pointer
    have hmem : th ∈ s.joins := (h.joined th).mpr ⟨h.known th rfl, by simp⟩
    simp [Threads.setPointer, hsome, hmem, h.keptUntilJoined]

/-- What a dispatch thread does itself never changes the status. -/
theorem Fits.advance (h : s.Fits status) {before after : Stage}
    (hstage : s.stage th = some before) (hlive : before ≠ .ended) :
    (s.advance th after).Fits status where
  pointer := h.pointer
  born other := by
    by_cases heq : other = th
    · have := h.lt_created hstage
      subst heq
      simp only [Threads.advance, Function.update_self, reduceCtorEq, false_iff]
      omega
    · simp only [Threads.advance, Function.update_of_ne heq]
      exact h.born other
  joined := h.joined
  deleted := h.deleted
  ended other hother := by
    have hne : other ≠ th := by
      rintro rfl
      exact ((h.joined other).mp hother).2 (h.unjoined_of_stage hstage hlive)
    simp only [Threads.advance, Function.update_of_ne hne]
    exact h.ended other hother
  known := h.known
  joinedOnce := h.joinedOnce
  deletedOnce := h.deletedOnce
  keptUntilJoined := h.keptUntilJoined

end Threads

end MessageCenter.Dispatcher
