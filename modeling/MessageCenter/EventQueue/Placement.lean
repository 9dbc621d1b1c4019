import MessageCenter.EventQueue.Effects

/-!
# Descriptors have one place

A descriptor is in one topic's list, or in the hands of the `AddObserver` call
that allocated it, or gone.  What an erase loop takes out of a list is gone, and
a descriptor that is gone stays so: no later snapshot can hold it.
-/

namespace MessageCenter.EventQueue

open Concurrency

universe u

variable {Tid : Type u} {s next : State Tid}

/-- The descriptors listed under a topic, by handle. -/
def State.handles (s : State Tid) (id : Int) : List Nat :=
  (s.getObservers id).map ObserverDescriptor.handle

/-- In no list, and not about to be stored in one. -/
structure State.Gone (s : State Tid) (handle : Nat) : Prop where
  allocated : handle < s.nextHandle
  unlisted : ∀ id, handle ∉ s.handles id
  notAdding : ∀ t, (s.pc t).adding ≠ some handle

/-- A descriptor is listed once, under one topic, or is being added by one call. -/
structure Placed (s : State Tid) : Prop where
  listedOnce : ∀ id, (s.handles id).Nodup
  listedApart : ∀ id other handle, handle ∈ s.handles id → handle ∈ s.handles other → id = other
  listedOld : ∀ id, ∀ handle ∈ s.handles id, handle < s.nextHandle
  addingUnlisted : ∀ t handle, (s.pc t).adding = some handle →
    handle < s.nextHandle ∧ ∀ id, handle ∉ s.handles id
  addingOnce : ∀ t other handle, (s.pc t).adding = some handle →
    (s.pc other).adding = some handle → t = other

theorem placed_init : Placed (init : State Tid) := by
  constructor <;> simp [init, State.handles, State.getObservers, PC.adding]

theorem State.handles_congr (hlists : next.m_topicObservers = s.m_topicObservers) (id : Int) :
    next.handles id = s.handles id := by
  simp [State.handles, State.getObservers, hlists]

theorem State.handles_update {id other : Int} {observers : List ObserverDescriptor}
    (hlists : next.m_topicObservers = Function.update s.m_topicObservers id (some observers)) :
    next.handles other =
      if other = id then observers.map ObserverDescriptor.handle else s.handles other := by
  by_cases heq : other = id
  · subst heq
    simp [State.handles, State.getObservers, hlists]
  · simp [State.handles, State.getObservers, hlists, heq]

/-- The handles of a swept list are those that stay and those that are erased. -/
theorem State.sweep_handles (s : State Tid) (removal : Removal) (id : Int) :
    ((removal.sweep (s.getObservers id)).1.map ObserverDescriptor.handle ++
      (removal.sweep (s.getObservers id)).2.map ObserverDescriptor.handle).Perm
      (s.handles id) := by
  rw [← List.map_append]
  exact (removal.sweep_perm _).map _

variable [DecidableEq Tid]

theorem Placed.step (hplaced : Placed s) (heffect : ListEffect s next) : Placed next := by
  obtain ⟨honce, hapart, hold, hunlisted, haddOnce⟩ := hplaced
  cases heffect with
  | none hlists hhandle hadding _ =>
      have hsame := State.handles_congr hlists
      refine ⟨?_, ?_, ?_, ?_, ?_⟩
      · simpa only [hsame] using honce
      · simpa only [hsame] using hapart
      · simpa only [hsame, hhandle] using hold
      · intro t handle hadd
        simpa only [hsame, hhandle] using hunlisted t handle (hadding t handle hadd)
      · intro t other handle hadd hother
        exact haddOnce t other handle (hadding t handle hadd) (hadding other handle hother)
  | allocate t pc hadding _ hpc hlists hhandle =>
      have hsame := State.handles_congr hlists
      have hfresh : ∀ id, s.nextHandle ∉ s.handles id :=
        fun id hmem => Nat.lt_irrefl _ (hold id _ hmem)
      have hcases : ∀ other handle, (next.pc other).adding = some handle →
          other = t ∧ handle = s.nextHandle ∨ other ≠ t ∧ (s.pc other).adding = some handle := by
        intro other handle hadd
        by_cases heq : other = t
        · subst heq
          rw [hpc, Function.update_self, hadding] at hadd
          exact Or.inl ⟨rfl, (Option.some.inj hadd).symm⟩
        · rw [hpc, Function.update_of_ne heq] at hadd
          exact Or.inr ⟨heq, hadd⟩
      refine ⟨?_, ?_, ?_, ?_, ?_⟩
      · simpa only [hsame] using honce
      · simpa only [hsame] using hapart
      · intro id handle hmem
        rw [hsame] at hmem
        rw [hhandle]
        exact Nat.lt_succ_of_lt (hold id handle hmem)
      · intro other handle hadd
        simp only [hsame, hhandle]
        rcases hcases other handle hadd with ⟨_, rfl⟩ | ⟨_, hbefore⟩
        · exact ⟨Nat.lt_succ_self _, hfresh⟩
        · obtain ⟨hlt, hnot⟩ := hunlisted other handle hbefore
          exact ⟨Nat.lt_succ_of_lt hlt, hnot⟩
      · intro first second handle hfirst hsecond
        have hless : ∀ other, (s.pc other).adding ≠ some s.nextHandle :=
          fun other hadd => Nat.lt_irrefl _ (hunlisted other _ hadd).1
        rcases hcases first handle hfirst with ⟨rfl, rfl⟩ | ⟨_, hbefore⟩ <;>
          rcases hcases second _ hsecond with ⟨rfl, heq⟩ | ⟨_, hbefore'⟩
        · rfl
        · exact absurd hbefore' (hless second)
        · exact absurd (heq ▸ hbefore) (hless first)
        · exact haddOnce first second handle hbefore hbefore'
  | store t id observer hadding hpc hlists hhandle =>
      have hupdate : ∀ other, next.handles other =
          if other = id then s.handles id ++ [observer.handle] else s.handles other := by
        intro other
        rw [State.handles_update hlists]
        simp [State.handles]
      obtain ⟨hlt, hnot⟩ := hunlisted t observer.handle hadding
      have hmem : ∀ other handle, handle ∈ next.handles other →
          handle ∈ s.handles other ∨ other = id ∧ handle = observer.handle := by
        intro other handle hmem
        rw [hupdate] at hmem
        split at hmem
        · rename_i heq
          rcases List.mem_append.mp hmem with hmem | hmem
          · exact Or.inl (heq ▸ hmem)
          · exact Or.inr ⟨heq, List.mem_singleton.mp hmem⟩
        · exact Or.inl hmem
      have hcases : ∀ other handle, (next.pc other).adding = some handle →
          other ≠ t ∧ (s.pc other).adding = some handle := by
        intro other handle hadd
        by_cases heq : other = t
        · subst heq
          simp [hpc, PC.adding] at hadd
        · rw [hpc, Function.update_of_ne heq] at hadd
          exact ⟨heq, hadd⟩
      refine ⟨?_, ?_, ?_, ?_, ?_⟩
      · intro other
        rw [hupdate]
        split
        · exact List.nodup_append.mpr ⟨honce id, List.nodup_singleton _, by
            intro first hfirst second hsecond heq
            rw [List.mem_singleton] at hsecond
            exact hnot id (hsecond ▸ heq ▸ hfirst)⟩
        · exact honce other
      · intro first second handle hfirst hsecond
        rcases hmem first handle hfirst with hfirst | ⟨rfl, rfl⟩ <;>
          rcases hmem second _ hsecond with hsecond | ⟨rfl, heq⟩
        · exact hapart first second handle hfirst hsecond
        · exact absurd (heq ▸ hfirst) (hnot first)
        · exact absurd hsecond (hnot second)
        · rfl
      · intro other handle hlisted
        rw [hhandle]
        rcases hmem other handle hlisted with hlisted | ⟨_, rfl⟩
        · exact hold other handle hlisted
        · exact hlt
      · intro other handle hadd
        obtain ⟨hne, hbefore⟩ := hcases other handle hadd
        obtain ⟨hltOther, hnotOther⟩ := hunlisted other handle hbefore
        rw [hhandle]
        refine ⟨hltOther, fun id' hlisted => ?_⟩
        rcases hmem id' handle hlisted with hlisted | ⟨_, rfl⟩
        · exact hnotOther id' hlisted
        · exact hne (haddOnce other t _ hbefore hadding)
      · intro first second handle hfirst hsecond
        exact haddOnce first second handle (hcases first handle hfirst).2
          (hcases second handle hsecond).2
  | erase t id removal hbefore hpc hlists hhandle =>
      have hperm := s.sweep_handles removal id
      have hsub : ∀ other, (next.handles other) ⊆ s.handles other := by
        intro other handle hmem
        rw [State.handles_update hlists] at hmem
        split at hmem
        · rename_i heq
          exact heq ▸ hperm.subset (List.mem_append_left _ hmem)
        · exact hmem
      have hcases : ∀ other handle, (next.pc other).adding = some handle →
          (s.pc other).adding = some handle := by
        intro other handle hadd
        by_cases heq : other = t
        · subst heq
          simp [hpc, PC.adding] at hadd
        · rwa [hpc, Function.update_of_ne heq] at hadd
      refine ⟨?_, ?_, ?_, ?_, ?_⟩
      · intro other
        rw [State.handles_update hlists]
        split
        · exact (List.nodup_append.mp (hperm.nodup_iff.mpr (honce id))).1
        · exact honce other
      · exact fun first second handle hfirst hsecond =>
          hapart first second handle (hsub first hfirst) (hsub second hsecond)
      · exact fun other handle hmem => hhandle ▸ hold other handle (hsub other hmem)
      · intro other handle hadd
        obtain ⟨hlt, hnot⟩ := hunlisted other handle (hcases other handle hadd)
        exact ⟨hhandle ▸ hlt, fun id' hmem => hnot id' (hsub id' hmem)⟩
      · exact fun first second handle hfirst hsecond =>
          haddOnce first second handle (hcases first handle hfirst) (hcases second handle hsecond)

/-! ### Erased descriptors are gone for good -/

theorem State.Gone.step {handle : Nat} (hgone : s.Gone handle) (heffect : ListEffect s next) :
    next.Gone handle := by
  obtain ⟨hlt, hunlisted, hnotAdding⟩ := hgone
  cases heffect with
  | none hlists hhandle hadding _ =>
      refine ⟨hhandle ▸ hlt, fun id => ?_, fun t hadd => hnotAdding t (hadding t handle hadd)⟩
      rw [State.handles_congr hlists]
      exact hunlisted id
  | allocate t pc hadding _ hpc hlists hhandle =>
      refine ⟨hhandle ▸ Nat.lt_succ_of_lt hlt, fun id => ?_, fun other hadd => ?_⟩
      · rw [State.handles_congr hlists]
        exact hunlisted id
      · by_cases heq : other = t
        · subst heq
          rw [hpc, Function.update_self, hadding] at hadd
          exact Nat.lt_irrefl _ (Option.some.inj hadd ▸ hlt)
        · rw [hpc, Function.update_of_ne heq] at hadd
          exact hnotAdding other hadd
  | store t id observer hadding hpc hlists hhandle =>
      refine ⟨hhandle ▸ hlt, fun other hmem => ?_, fun other hadd => ?_⟩
      · rw [State.handles_update hlists] at hmem
        split at hmem
        · rw [List.map_append, List.map_singleton, List.mem_append, List.mem_singleton] at hmem
          rcases hmem with hmem | rfl
          · exact hunlisted id hmem
          · exact hnotAdding t hadding
        · exact hunlisted other hmem
      · by_cases heq : other = t
        · subst heq
          simp [hpc, PC.adding] at hadd
        · rw [hpc, Function.update_of_ne heq] at hadd
          exact hnotAdding other hadd
  | erase t id removal hbefore hpc hlists hhandle =>
      refine ⟨hhandle ▸ hlt, fun other hmem => ?_, fun other hadd => ?_⟩
      · rw [State.handles_update hlists] at hmem
        split at hmem
        · exact hunlisted id ((s.sweep_handles removal id).subset (List.mem_append_left _ hmem))
        · exact hunlisted other hmem
      · by_cases heq : other = t
        · subst heq
          simp [hpc, PC.adding] at hadd
        · rw [hpc, Function.update_of_ne heq] at hadd
          exact hnotAdding other hadd

/-- What the erase loop takes out of a list is gone. -/
theorem Placed.gone_of_erase (hplaced : Placed s) {t : Tid} {id : Int} {removal : Removal}
    (hpc : next.pc = Function.update s.pc t (.waitCheck (removal.sweep (s.getObservers id)).2))
    (hlists : next.m_topicObservers =
      Function.update s.m_topicObservers id (some (removal.sweep (s.getObservers id)).1))
    (hhandle : next.nextHandle = s.nextHandle) {observer : ObserverDescriptor}
    (hmem : observer ∈ (removal.sweep (s.getObservers id)).2) : next.Gone observer.handle := by
  have hperm := s.sweep_handles removal id
  have hsplit := List.nodup_append.mp (hperm.nodup_iff.mpr (hplaced.listedOnce id))
  have herased := List.mem_map_of_mem (f := ObserverDescriptor.handle) hmem
  have hlisted : observer.handle ∈ s.handles id :=
    hperm.subset (List.mem_append_right _ herased)
  refine ⟨hhandle ▸ hplaced.listedOld id _ hlisted, fun other hother => ?_, fun other hadd => ?_⟩
  · rw [State.handles_update hlists] at hother
    split at hother
    · exact hsplit.2.2 _ hother _ herased rfl
    · rename_i hne
      exact hne (hplaced.listedApart other id _ hother hlisted)
  · by_cases heq : other = t
    · subst heq
      simp [hpc, PC.adding] at hadd
    · rw [hpc, Function.update_of_ne heq] at hadd
      exact (hplaced.addingUnlisted other _ hadd).2 id hlisted

/-- The descriptors that a removal carries while it waits are gone. -/
def ErasedGone (s : State Tid) : Prop :=
  ∀ t, ∀ observer ∈ (s.pc t).erased, s.Gone observer.handle

theorem ErasedGone.step (herased : ErasedGone s) (hplaced : Placed s)
    (heffect : ListEffect s next) : ErasedGone next := by
  intro other observer hmem
  cases heffect with
  | none hlists hhandle hadding hsub =>
      exact (herased other observer (hsub other hmem)).step (.none hlists hhandle hadding hsub)
  | allocate t pc hadding hempty hpc hlists hhandle =>
      by_cases heq : other = t
      · subst heq
        simp [hpc, hempty] at hmem
      · rw [hpc, Function.update_of_ne heq] at hmem
        exact (herased other observer hmem).step (.allocate t pc hadding hempty hpc hlists hhandle)
  | store t id added hadding hpc hlists hhandle =>
      by_cases heq : other = t
      · subst heq
        simp [hpc, PC.erased] at hmem
      · rw [hpc, Function.update_of_ne heq] at hmem
        exact (herased other observer hmem).step (.store t id added hadding hpc hlists hhandle)
  | erase t id removal hbefore hpc hlists hhandle =>
      by_cases heq : other = t
      · subst heq
        rw [hpc, Function.update_self] at hmem
        exact hplaced.gone_of_erase hpc hlists hhandle hmem
      · rw [hpc, Function.update_of_ne heq] at hmem
        exact (herased other observer hmem).step (.erase t id removal hbefore hpc hlists hhandle)

end MessageCenter.EventQueue
