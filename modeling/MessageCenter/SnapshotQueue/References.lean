import MessageCenter.SnapshotQueue.PayloadLedger

/-!
# The references that messages hold

A message that is on its way holds one reference of its payload for each observer whose release
is still to come.  The messages in the places of a queue hold them together, so a payload is
alive exactly as long as one of these messages refers to it.
-/

namespace MessageCenter.SnapshotQueue

open Accounting
open Concurrent (refCounts refCounts_of_live live_of_refCounts refCounts_set_ne)

variable {M Holder : Type} {format : Format M} {message : M} {i : Nat}

/-- The references of a message whose releases have run before observer `i`. -/
def Format.owed (format : Format M) (message : M) (i : Nat) : List (PayloadId × Int) :=
  if i < format.observerCount message then
    (format.managed message).toList.map fun managed =>
      (managed, (format.observerCount message - i : Int))
  else []

theorem Format.owed_done (hdone : format.observerCount message ≤ i) : format.owed message i = [] :=
  if_neg (Nat.not_lt.mpr hdone)

theorem Format.owed_inline (hnone : format.managed message = none) : format.owed message i = [] := by
  simp [Format.owed, hnone]

theorem Format.owed_managed {id : PayloadId} (hlt : i < format.observerCount message)
    (hsome : format.managed message = some id) :
    format.owed message i = [(id, (format.observerCount message - i : Int))] := by
  simp [Format.owed, hlt, hsome]

/-! ### Formats -/

/-- The data pointer of the message is null only if its payload has been freed. -/
def Format.Reads (format : Format M) (message : M) : Prop :=
  ∀ heap, (∀ id, format.managed message = some id → (heap.live id).isSome) →
    (format.data heap message).isSome

/-- `post` stores the number of observers in the message, and gives a managed payload of its
own as many references. -/
def Format.Counts (format : Format M) : Prop :=
  ∀ heap old topicId count observers data size,
    let filled := format.fill heap old topicId count observers data size
    format.observerCount filled.2 = count ∧ format.Reads filled.2 ∧
      (format.managed filled.2 = none ∧ filled.1 = heap ∨
        format.managed filled.2 = some heap.nextPayload ∧
          filled.1 = (heap.createFor (data.getD []) size count).2)

theorem snapshotFormat_counts (inlineMax : Nat) : (snapshotFormat inlineMax).Counts := by
  intro heap old topicId count observers data size
  simp only [snapshotFormat]
  split
  · exact ⟨rfl, fun _ _ => rfl, Or.inl ⟨rfl, rfl⟩⟩
  · have hmanaged := PayloadUnion.managed_setManaged old.payload heap.nextPayload
    refine ⟨rfl, fun later hlive => ?_, Or.inr ⟨hmanaged, rfl⟩⟩
    have hsome := hlive heap.nextPayload hmanaged
    simp only [PayloadHeap.createFor_id, hmanaged]
    simpa [PayloadHeap.data] using hsome

theorem emuFastFormat_counts (inlineMax : Nat) : (emuFastFormat inlineMax).Counts :=
  fun _ _ _ _ _ _ _ => ⟨rfl, fun _ _ => rfl, Or.inl ⟨rfl, rfl⟩⟩

/-! ### The heap and the holders of references -/

/-- The references that the holders have are those of the live payloads. -/
structure References (holdings : Holder → List (PayloadId × Int)) (heap : PayloadHeap) : Prop where
  ledger : Ledger holdings (refCounts heap)
  young : ∀ id, heap.nextPayload ≤ id → heap.live id = none

variable {holdings holdings' : Holder → List (PayloadId × Int)} {heap : PayloadHeap}
  {holder : Holder} {rest : List (PayloadId × Int)} {id : PayloadId}

theorem References.empty : References (fun _ : Holder => []) PayloadHeap.empty :=
  ⟨Ledger.empty, fun _ _ => rfl⟩

theorem References.perm (h : References holdings heap)
    (hperm : ∀ holder, (holdings' holder).Perm (holdings holder)) : References holdings' heap :=
  ⟨h.ledger.perm hperm, h.young⟩

theorem References.live (h : References holdings heap) {refs : Int}
    (hmem : (id, refs) ∈ holdings holder) :
    ∃ payload, heap.live id = some payload ∧ payload.m_refCount = refs :=
  live_of_refCounts (h.ledger.correct holder id refs hmem)

/-- Without references nothing is alive. -/
theorem References.none_live (h : References holdings heap) (hnone : ∀ holder, holdings holder = [])
    (id : PayloadId) : heap.live id = none := by
  cases hlive : heap.live id with
  | none => rfl
  | some payload =>
      obtain ⟨holder, hmem⟩ := h.ledger.owned id payload.m_refCount (refCounts_of_live hlive)
      rw [hnone holder] at hmem
      cases hmem

variable [DecidableEq Holder]

theorem References.transfer {giver taker : Holder} {new : List (PayloadId × Int)}
    (h : References holdings heap) (hne : giver ≠ taker)
    (hperm : (holdings giver).Perm (new ++ rest)) :
    References (Function.update (Function.update holdings giver rest) taker
      (new ++ holdings taker)) heap :=
  ⟨h.ledger.transfer hne hperm, h.young⟩

/-- A message that `post` has filled holds the references of its payload. -/
theorem References.fill (h : References holdings heap) (hformat : format.Counts) (old : M)
    (topicId : Nat) {count : Nat} (hcount : 1 ≤ count) (observers : Nat → Observer)
    (data : Option (List UInt8)) (size : Nat) (holder : Holder) :
    let filled := format.fill heap old topicId count observers data size
    References (Function.update holdings holder (format.owed filled.2 0 ++ holdings holder))
      filled.1 := by
  intro filled
  obtain ⟨hobservers, -, ⟨hnone, hheap⟩ | ⟨hsome, hheap⟩⟩ :=
    hformat heap old topicId count observers data size
  · rw [Format.owed_inline hnone, List.nil_append, Function.update_eq_self]
    exact hheap.symm ▸ h
  · have hlt : 0 < format.observerCount filled.2 := hobservers.symm ▸ hcount
    rw [Format.owed_managed hlt hsome, hobservers, Int.ofNat_zero, Int.sub_zero]
    have hfresh : refCounts heap heap.nextPayload = none := by
      rw [refCounts, h.young _ (Nat.le_refl _), Option.map_none]
    have hother : ∀ other, other ≠ heap.nextPayload → refCounts filled.1 other =
        refCounts heap other := by
      intro other hne
      rw [refCounts, hheap, PayloadHeap.createFor_live_other _ _ _ hne, refCounts]
    refine ⟨h.ledger.create (List.Perm.refl _) hfresh ?_ hother, fun other hle => ?_⟩
    · rw [refCounts, hheap, PayloadHeap.createFor_live _ _ hcount, Option.map_some]
    · rw [hheap, PayloadHeap.createFor_nextPayload] at hle
      rw [hheap, PayloadHeap.createFor_live_other _ _ _ (Nat.ne_of_gt hle)]
      exact h.young other (Nat.le_of_succ_le hle)

/-- What the heap is after the release that follows a callback. -/
def Format.releaseIn (format : Format M) (heap : PayloadHeap) (message : M) : PayloadHeap :=
  match format.managed message with
  | some managed => (heap.release managed).1
  | none => heap

/-- The release after the callback `i` of a message takes one of its references. -/
theorem References.release (h : References holdings heap)
    (hperm : (holdings holder).Perm (format.owed message i ++ rest))
    (hlt : i < format.observerCount message) :
    References (Function.update holdings holder (format.owed message (i + 1) ++ rest))
      (format.releaseIn heap message) := by
  rw [Format.releaseIn]
  cases hmanaged : format.managed message with
  | none =>
      rw [Format.owed_inline hmanaged, List.nil_append] at hperm ⊢
      refine h.perm fun other => ?_
      by_cases heq : other = holder
      · rw [heq, Function.update_self]
        exact hperm.symm
      · rw [Function.update_of_ne heq]
  | some id =>
      rw [Format.owed_managed hlt hmanaged] at hperm
      obtain ⟨payload, hlive, hrefs⟩ := h.live (hperm.symm.subset (List.mem_append_left _
        (List.mem_singleton_self _)))
      have hyoung : ∀ other, heap.nextPayload ≤ other → other ≠ id := by
        rintro other hle rfl
        rw [h.young other hle] at hlive
        cases hlive
      by_cases hlast : i + 1 = format.observerCount message
      · have hone : payload.m_refCount = 1 := by omega
        simp only [PayloadHeap.release_last hlive hone]
        rw [Format.owed_done (Nat.le_of_eq hlast.symm)]
        refine ⟨h.ledger.close hperm ?_ fun other hne => refCounts_set_ne _ hne, fun other hle => ?_⟩
        · rw [refCounts, PayloadHeap.set_live_self, Option.map_none]
        · rw [PayloadHeap.set_live_ne _ (hyoung other hle)]
          exact h.young other hle
      · have hmore : payload.m_refCount ≠ 1 := by omega
        have hnext : i + 1 < format.observerCount message := by omega
        simp only [PayloadHeap.release_more hlive hmore]
        rw [Format.owed_managed hnext hmanaged]
        refine ⟨h.ledger.recount hperm ?_ fun other hne => refCounts_set_ne _ hne,
          fun other hle => ?_⟩
        · rw [refCounts_of_live (PayloadHeap.set_live_self _)]
          simp only [hrefs]
          congr 1
          omega
        · rw [PayloadHeap.set_live_ne _ (hyoung other hle)]
          exact h.young other hle

end MessageCenter.SnapshotQueue
