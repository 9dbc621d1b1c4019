import Mathlib.Logic.Function.Basic
import Mathlib.Logic.Relation
import Mathlib.Order.Basic

/-!
# Mutexes and their order

A snapshot of a set of mutexes: who owns each of them and which one each thread waits for.  A
deadlock is a thread that waits for itself through any number of owners; a thread that waits for
a mutex of its own is the shortest case.  If every thread waits only for mutexes above the ones
that it owns, there is none.
-/

namespace Concurrency

universe u v w

structure Locks (Thread : Type u) (Mutex : Type v) where
  owner : Mutex → Option Thread
  wanted : Thread → Option Mutex

namespace Locks

variable {Thread : Type u} {Mutex : Type v} {locks : Locks Thread Mutex}

/-- `t` waits for a mutex that `u` owns. -/
def Waits (locks : Locks Thread Mutex) (t u : Thread) : Prop :=
  ∃ mutex, locks.wanted t = some mutex ∧ locks.owner mutex = some u

def Deadlocked (locks : Locks Thread Mutex) : Prop :=
  ∃ t, Relation.TransGen locks.Waits t t

theorem deadlocked_of_self {t : Thread} {mutex : Mutex} (hwanted : locks.wanted t = some mutex)
    (howner : locks.owner mutex = some t) : locks.Deadlocked :=
  ⟨t, .single ⟨mutex, hwanted, howner⟩⟩

/-- Every thread waits for a mutex above all that it owns. -/
def Ordered {α : Type w} [Preorder α] (rank : Mutex → α) (locks : Locks Thread Mutex) : Prop :=
  ∀ t owned wanted, locks.owner owned = some t → locks.wanted t = some wanted →
    rank owned < rank wanted

variable {α : Type w} [Preorder α] {rank : Mutex → α}

theorem Ordered.lt_of_transGen (hordered : locks.Ordered rank) {t u : Thread}
    (hwaits : Relation.TransGen locks.Waits t u) {first last : Mutex}
    (hfirst : locks.wanted t = some first) (hlast : locks.wanted u = some last) :
    rank first < rank last := by
  induction hwaits generalizing last with
  | single hwait =>
      obtain ⟨mutex, hwanted, howner⟩ := hwait
      obtain rfl : first = mutex := Option.some.inj (hfirst.symm.trans hwanted)
      exact hordered _ _ _ howner hlast
  | tail _ hwait ih =>
      obtain ⟨mutex, hwanted, howner⟩ := hwait
      exact (ih hwanted).trans (hordered _ _ _ howner hlast)

/-- **The lock order rule.** -/
theorem Ordered.not_deadlocked (hordered : locks.Ordered rank) : ¬ locks.Deadlocked := by
  rintro ⟨t, hcycle⟩
  obtain ⟨u, hwait, -⟩ := Relation.TransGen.head'_iff.mp hcycle
  obtain ⟨mutex, hwanted, -⟩ := hwait
  exact lt_irrefl _ (hordered.lt_of_transGen hcycle hwanted hwanted)

/-! ### Owners and critical sections -/

/-- Each mutex is owned by the thread that is in one of its critical sections. -/
def Agree (owner : Mutex → Option Thread) (holds : Thread → Mutex → Prop) : Prop :=
  ∀ mutex t, owner mutex = some t ↔ holds t mutex

variable {owner : Mutex → Option Thread} {holds after : Thread → Mutex → Prop}

theorem Agree.congr (hagree : Agree owner holds)
    (hafter : ∀ t mutex, after t mutex ↔ holds t mutex) : Agree owner after :=
  fun mutex t => (hagree mutex t).trans (hafter t mutex).symm

variable [DecidableEq Mutex]

theorem Agree.acquire (hagree : Agree owner holds) {t : Thread} {mutex : Mutex}
    (hfree : owner mutex = none)
    (hafter : ∀ u other, after u other ↔ holds u other ∨ (u = t ∧ other = mutex)) :
    Agree (Function.update owner mutex (some t)) after := by
  intro other u
  rw [hafter, ← hagree other u]
  by_cases heq : other = mutex
  · subst heq
    rw [Function.update_self, hfree]
    simp [eq_comm]
  · rw [Function.update_of_ne heq]
    simp [heq]

theorem Agree.release (hagree : Agree owner holds) {t : Thread} {mutex : Mutex}
    (hholds : holds t mutex)
    (hafter : ∀ u other, after u other ↔ holds u other ∧ ¬ (u = t ∧ other = mutex)) :
    Agree (Function.update owner mutex none) after := by
  intro other u
  rw [hafter, ← hagree other u]
  by_cases heq : other = mutex
  · subst heq
    rw [Function.update_self, (hagree other t).mpr hholds]
    simp [eq_comm]
  · rw [Function.update_of_ne heq]
    simp [heq]

end Locks

end Concurrency
