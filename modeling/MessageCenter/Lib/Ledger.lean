import Mathlib.Data.List.Nodup
import Mathlib.Logic.Function.Basic

/-!
# Ledgers of counted resources

Resources with a count each, and holders with tokens.  A token names a resource
and the count that its holder answers for.  In a ledger every resource that has
a count has exactly one token, which says that count, so the holders together
know all the counts.  A step of a system that creates, counts or frees a resource
is an `exchange` of tokens of one holder, and a step that passes something on is
a `transfer` between two.
-/

namespace Accounting

universe u v w

variable {Holder : Type u} {Id : Type v} {Count : Type w}

structure Ledger (holdings : Holder → List (Id × Count)) (counts : Id → Option Count) : Prop where
  correct : ∀ holder id count, (id, count) ∈ holdings holder → counts id = some count
  once : ∀ holder, ((holdings holder).map Prod.fst).Nodup
  apart : ∀ holder other id, id ∈ (holdings holder).map Prod.fst →
    id ∈ (holdings other).map Prod.fst → holder = other
  owned : ∀ id count, counts id = some count → ∃ holder, (id, count) ∈ holdings holder

namespace Ledger

variable {holdings holdings' : Holder → List (Id × Count)} {counts counts' : Id → Option Count}
  {holder : Holder}

theorem empty : Ledger (fun _ : Holder => ([] : List (Id × Count))) fun _ => none where
  correct _ _ _ hmem := absurd hmem List.not_mem_nil
  once _ := List.nodup_nil
  apart _ _ _ hmem := absurd hmem List.not_mem_nil
  owned _ _ hcount := by cases hcount

/-- A holder with a token for each resource. -/
theorem of_holder (hothers : ∀ other, other ≠ holder → holdings other = [])
    (htokens : ∀ id count, (id, count) ∈ holdings holder ↔ counts id = some count)
    (honce : ((holdings holder).map Prod.fst).Nodup) : Ledger holdings counts where
  correct other id count hmem := by
    by_cases heq : other = holder
    · exact (htokens id count).mp (heq ▸ hmem)
    · simp [hothers other heq] at hmem
  once other := by
    by_cases heq : other = holder
    · exact heq ▸ honce
    · simp [hothers other heq]
  apart first second id hfirst hsecond := by
    have hholder : ∀ other, id ∈ (holdings other).map Prod.fst → other = holder := by
      intro other hmem
      by_contra hne
      simp [hothers other hne] at hmem
    exact (hholder first hfirst).trans (hholder second hsecond).symm
  owned id count hcount := ⟨holder, (htokens id count).mpr hcount⟩

/-- The order of the tokens of a holder does not matter. -/
theorem perm (hledger : Ledger holdings counts)
    (hperm : ∀ holder, (holdings' holder).Perm (holdings holder)) : Ledger holdings' counts where
  correct holder id count hmem := hledger.correct holder id count ((hperm holder).subset hmem)
  once holder := ((hperm holder).map Prod.fst).nodup_iff.mpr (hledger.once holder)
  apart holder other id hmem hmem' := hledger.apart holder other id
    (((hperm holder).map Prod.fst).subset hmem) (((hperm other).map Prod.fst).subset hmem')
  owned id count hcount := by
    obtain ⟨holder, hmem⟩ := hledger.owned id count hcount
    exact ⟨holder, (hperm holder).symm.subset hmem⟩

theorem counted (hledger : Ledger holdings counts) {id : Id}
    (hmem : id ∈ (holdings holder).map Prod.fst) : counts id ≠ none := by
  obtain ⟨⟨_, count⟩, htoken, rfl⟩ := List.mem_map.mp hmem
  rw [hledger.correct holder _ count htoken]
  exact Option.some_ne_none count

variable [DecidableEq Holder] {old new rest : List (Id × Count)}

/-- A holder exchanges the tokens `old` for `new`: the new ones are for resources
of the old ones or for resources without a count, and say what the counts are
from now on. -/
theorem exchange (hledger : Ledger holdings counts) (hperm : (holdings holder).Perm (old ++ rest))
    (hcorrect : ∀ id count, (id, count) ∈ new → counts' id = some count)
    (hnodup : (new.map Prod.fst).Nodup)
    (hfresh : ∀ id ∈ new.map Prod.fst, id ∈ old.map Prod.fst ∨ counts id = none)
    (hsame : ∀ id, id ∉ old.map Prod.fst → id ∉ new.map Prod.fst → counts' id = counts id)
    (hgone : ∀ id ∈ old.map Prod.fst, id ∉ new.map Prod.fst → counts' id = none) :
    Ledger (Function.update holdings holder (new ++ rest)) counts' := by
  have honce : (old.map Prod.fst ++ rest.map Prod.fst).Nodup := by
    rw [← List.map_append]
    exact (hperm.map Prod.fst).nodup_iff.mp (hledger.once holder)
  obtain ⟨_, hrestNodup, hdisjoint⟩ := List.nodup_append.mp honce
  have hmine : ∀ id, id ∈ old.map Prod.fst ∨ id ∈ rest.map Prod.fst →
      id ∈ (holdings holder).map Prod.fst := by
    intro id hmem
    refine (hperm.map Prod.fst).symm.subset ?_
    rw [List.map_append]
    exact List.mem_append.mpr hmem
  -- a token that stays is for another resource than the exchanged ones
  have hkept : ∀ id, id ∈ rest.map Prod.fst → id ∉ old.map Prod.fst ∧ id ∉ new.map Prod.fst := by
    intro id hmem
    have hold : id ∉ old.map Prod.fst := fun hmem' => hdisjoint id hmem' id hmem rfl
    refine ⟨hold, fun hnew => ?_⟩
    rcases hfresh id hnew with hmem' | hnone
    · exact hold hmem'
    · exact hledger.counted (hmine id (Or.inr hmem)) hnone
  have hothers : ∀ other, other ≠ holder → ∀ id ∈ (holdings other).map Prod.fst,
      id ∉ old.map Prod.fst ∧ id ∉ new.map Prod.fst := by
    intro other hne id hmem
    have hold : id ∉ old.map Prod.fst :=
      fun hmem' => hne (hledger.apart other holder id hmem (hmine id (Or.inl hmem')))
    refine ⟨hold, fun hnew => ?_⟩
    rcases hfresh id hnew with hmem' | hnone
    · exact hold hmem'
    · exact hledger.counted hmem hnone
  refine ⟨?_, ?_, ?_, ?_⟩
  · intro other id count hmem
    by_cases heq : other = holder
    · subst heq
      rw [Function.update_self] at hmem
      rcases List.mem_append.mp hmem with hmem | hmem
      · exact hcorrect id count hmem
      · obtain ⟨hold, hnew⟩ := hkept id (List.mem_map_of_mem hmem)
        rw [hsame id hold hnew]
        exact hledger.correct other id count (hperm.symm.subset (List.mem_append_right _ hmem))
    · rw [Function.update_of_ne heq] at hmem
      obtain ⟨hold, hnew⟩ := hothers other heq id (List.mem_map_of_mem hmem)
      rw [hsame id hold hnew]
      exact hledger.correct other id count hmem
  · intro other
    by_cases heq : other = holder
    · subst heq
      rw [Function.update_self, List.map_append]
      exact List.nodup_append.mpr ⟨hnodup, hrestNodup,
        fun id hnew other hrest hsame => (hkept other hrest).2 (hsame ▸ hnew)⟩
    · rw [Function.update_of_ne heq]
      exact hledger.once other
  · have hnow : ∀ id, id ∈ (new ++ rest).map Prod.fst → ∀ other, other ≠ holder →
        id ∉ (holdings other).map Prod.fst := by
      intro id hmem other hne hother
      rw [List.map_append] at hmem
      rcases List.mem_append.mp hmem with hmem | hmem
      · exact (hothers other hne id hother).2 hmem
      · exact hne (hledger.apart other holder id hother (hmine id (Or.inr hmem)))
    intro first second id hfirst hsecond
    by_cases hf : first = holder <;> by_cases hs : second = holder
    · exact hf.trans hs.symm
    · rw [hf, Function.update_self] at hfirst
      rw [Function.update_of_ne hs] at hsecond
      exact absurd hsecond (hnow id hfirst second hs)
    · rw [hs, Function.update_self] at hsecond
      rw [Function.update_of_ne hf] at hfirst
      exact absurd hfirst (hnow id hsecond first hf)
    · rw [Function.update_of_ne hf] at hfirst
      rw [Function.update_of_ne hs] at hsecond
      exact hledger.apart first second id hfirst hsecond
  · intro id count hcount
    by_cases hnew : id ∈ new.map Prod.fst
    · obtain ⟨⟨_, count'⟩, htoken, rfl⟩ := List.mem_map.mp hnew
      obtain rfl : count' = count :=
        Option.some.inj ((hcorrect _ _ htoken).symm.trans hcount)
      exact ⟨holder, by rw [Function.update_self]; exact List.mem_append_left _ htoken⟩
    · by_cases hold : id ∈ old.map Prod.fst
      · rw [hgone id hold hnew] at hcount
        cases hcount
      · rw [hsame id hold hnew] at hcount
        obtain ⟨other, hmem⟩ := hledger.owned id count hcount
        refine ⟨other, ?_⟩
        by_cases heq : other = holder
        · subst heq
          rw [Function.update_self]
          rcases List.mem_append.mp (hperm.subset hmem) with hmem | hmem
          · exact absurd (List.mem_map_of_mem hmem) hold
          · exact List.mem_append_right _ hmem
        · rw [Function.update_of_ne heq]
          exact hmem

variable {id : Id} {count count' : Count}

/-- A new resource. -/
theorem create (hledger : Ledger holdings counts) (hperm : (holdings holder).Perm rest)
    (hnone : counts id = none) (hself : counts' id = some count)
    (hothers : ∀ other, other ≠ id → counts' other = counts other) :
    Ledger (Function.update holdings holder ([(id, count)] ++ rest)) counts' := by
  have hbefore : (holdings holder).Perm ([] ++ rest) := hperm
  apply hledger.exchange hbefore
  · simpa using hself
  · simp
  · simp [hnone]
  · exact fun other _ hne => hothers other (by simpa using hne)
  · simp

/-- A resource gets another count. -/
theorem recount (hledger : Ledger holdings counts)
    (hperm : (holdings holder).Perm ([(id, count)] ++ rest)) (hself : counts' id = some count')
    (hothers : ∀ other, other ≠ id → counts' other = counts other) :
    Ledger (Function.update holdings holder ([(id, count')] ++ rest)) counts' := by
  apply hledger.exchange hperm
  · simpa using hself
  · simp
  · simp
  · exact fun other _ hne => hothers other (by simpa using hne)
  · simp

/-- A resource ceases to exist. -/
theorem close (hledger : Ledger holdings counts)
    (hperm : (holdings holder).Perm ([(id, count)] ++ rest)) (hself : counts' id = none)
    (hothers : ∀ other, other ≠ id → counts' other = counts other) :
    Ledger (Function.update holdings holder ([] ++ rest)) counts' := by
  apply hledger.exchange hperm
  · simp
  · simp
  · simp
  · exact fun other hne _ => hothers other (by simpa using hne)
  · simpa using hself

open Classical in
/-- Tokens move from one holder to another: the first gives up the resources, and
the second takes them with the same counts. -/
theorem transfer {giver taker : Holder} (hledger : Ledger holdings counts) (hne : giver ≠ taker)
    (hperm : (holdings giver).Perm (new ++ rest)) :
    Ledger (Function.update (Function.update holdings giver rest) taker
      (new ++ holdings taker)) counts := by
  have honce : (new.map Prod.fst ++ rest.map Prod.fst).Nodup := by
    rw [← List.map_append]
    exact (hperm.map Prod.fst).nodup_iff.mp (hledger.once giver)
  have hgiven : Ledger (Function.update holdings giver ([] ++ rest))
      (fun id => if id ∈ new.map Prod.fst then none else counts id) := by
    apply hledger.exchange hperm
    · exact fun _ _ hmem => absurd hmem List.not_mem_nil
    · exact List.nodup_nil
    · exact fun _ hmem => absurd hmem List.not_mem_nil
    · exact fun id hmem _ => if_neg hmem
    · exact fun id hmem _ => if_pos hmem
  have htaker : (Function.update holdings giver ([] ++ rest) taker).Perm
      ([] ++ holdings taker) := by
    rw [Function.update_of_ne (Ne.symm hne), List.nil_append]
  apply hgiven.exchange htaker
  · exact fun id count hmem =>
      hledger.correct giver id count (hperm.symm.subset (List.mem_append_left _ hmem))
  · exact (List.nodup_append.mp honce).1
  · exact fun id hmem => Or.inr (if_pos hmem)
  · exact fun id _ hmem => (if_neg hmem).symm
  · exact fun _ hmem => absurd hmem List.not_mem_nil

end Ledger

end Accounting
