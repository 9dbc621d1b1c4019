import MessageCenter.EventQueue.Model

/-!
# What one step can do

Two views of a step, each proved once over all actions.  `ListEffect` says what
happens to the descriptors: allocated, stored in a topic's list, erased from it,
or nothing.  `ControlEffect` says what happens to the threads: who enters, moves
on in or leaves `Dispatch`, who waits, and what a removal returns.  The
invariants of the other modules are derived from these.
-/

namespace MessageCenter.EventQueue

open Concurrency

universe u

variable {Tid : Type u} {s next : State Tid}

/-! ### Parts of a thread's state -/

/-- The descriptor that `AddObserver` has allocated and not stored yet. -/
def PC.adding : PC → Option Nat
  | .addRegister _ observer | .addFetchId _ observer | .addPush _ observer => some observer.handle
  | _ => none

/-- The descriptors that a removal has erased before it waits. -/
def PC.erased : PC → List ObserverDescriptor
  | .waitCheck erased | .waitLock erased | .waitBlocked erased => erased
  | _ => []

/-- In `m_cvDispatches.wait`. -/
def PC.Waiting : PC → Prop
  | .waitLock _ | .waitBlocked _ => True
  | _ => False

def PC.Blocked : PC → Prop
  | .waitBlocked _ => True
  | _ => False

theorem PC.Blocked.waiting {pc : PC} (hblocked : pc.Blocked) : pc.Waiting := by
  cases pc <;> first | exact hblocked | trivial

@[simp] theorem PC.adding_notified (pc : PC) : pc.notified.adding = pc.adding := by
  cases pc <;> rfl

@[simp] theorem PC.erased_notified (pc : PC) : pc.notified.erased = pc.erased := by
  cases pc <;> rfl

theorem PC.not_blocked_notified (pc : PC) : ¬ pc.notified.Blocked := by
  cases pc <;> exact id

theorem PC.waiting_notified {pc : PC} : pc.notified.Waiting ↔ pc.Waiting := by
  cases pc <;> exact Iff.rfl

theorem PC.notified_idle {pc : PC} : pc.notified = .idle ↔ pc = .idle := by
  cases pc <;> simp [PC.notified]

/-- The descriptors that a `Dispatch` call runs now or may still run. -/
def Dispatching.pending : Dispatching → List ObserverDescriptor
  | .next remaining => remaining
  | .invoking observer remaining => observer :: remaining
  | .completing => []

/-- The descriptors that a `Dispatch` call has not come to yet. -/
def Dispatching.remaining : Dispatching → List ObserverDescriptor
  | .next remaining | .invoking _ remaining => remaining
  | .completing => []

/-- Between `MarkDispatchActive` and `MarkDispatchComplete`. -/
def Dispatching.InLoop : Dispatching → Prop
  | .completing => False
  | _ => True

variable [DecidableEq Tid]

/-! ### Effect on the descriptors -/

inductive ListEffect (s next : State Tid) : Prop
  | none (hlists : next.m_topicObservers = s.m_topicObservers)
      (hhandle : next.nextHandle = s.nextHandle)
      (hadding : ∀ t handle, (next.pc t).adding = some handle → (s.pc t).adding = some handle)
      (herased : ∀ t, (next.pc t).erased ⊆ (s.pc t).erased)
  | allocate (t : Tid) (pc : PC) (hadding : pc.adding = some s.nextHandle)
      (herased : pc.erased = []) (hpc : next.pc = Function.update s.pc t pc)
      (hlists : next.m_topicObservers = s.m_topicObservers)
      (hhandle : next.nextHandle = s.nextHandle + 1)
  | store (t : Tid) (id : Int) (observer : ObserverDescriptor)
      (hadding : (s.pc t).adding = some observer.handle)
      (hpc : next.pc = Function.update s.pc t .idle)
      (hlists : next.m_topicObservers =
        Function.update s.m_topicObservers id (some (s.getObservers id ++ [observer])))
      (hhandle : next.nextHandle = s.nextHandle)
  | erase (t : Tid) (id : Int) (removal : Removal) (hbefore : s.pc t = .removeErase id removal)
      (hpc : next.pc =
        Function.update s.pc t (.waitCheck (removal.sweep (s.getObservers id)).2))
      (hlists : next.m_topicObservers =
        Function.update s.m_topicObservers id (some (removal.sweep (s.getObservers id)).1))
      (hhandle : next.nextHandle = s.nextHandle)

/-- A step that moves the program counter of `t` only. -/
theorem ListEffect.goto {t : Tid} {pc : PC} (hlists : next.m_topicObservers = s.m_topicObservers)
    (hhandle : next.nextHandle = s.nextHandle) (hpc : next.pc = Function.update s.pc t pc)
    (hadding : ∀ handle, pc.adding = some handle → (s.pc t).adding = some handle)
    (herased : pc.erased ⊆ (s.pc t).erased) : ListEffect s next := by
  refine .none hlists hhandle ?_ ?_ <;> intro other
  · intro handle hother
    by_cases heq : other = t
    · subst heq
      exact hadding handle (by simpa [hpc] using hother)
    · simpa [hpc, heq] using hother
  · by_cases heq : other = t
    · subst heq
      simpa [hpc] using herased
    · simp [hpc, heq]

/-- A step that leaves the program counters alone. -/
theorem ListEffect.same (hlists : next.m_topicObservers = s.m_topicObservers)
    (hhandle : next.nextHandle = s.nextHandle) (hpc : next.pc = s.pc) : ListEffect s next :=
  .none hlists hhandle (fun t handle => by rw [hpc]; exact id)
    (fun t => by rw [hpc]; exact List.Subset.refl _)

theorem runDispatch_listEffect {t : Tid} (hstep : runDispatch s t = some next) :
    ListEffect s next := by
  unfold runDispatch at hstep
  split at hstep
  · cases hstep
  · exact Option.some.inj hstep ▸ .same rfl rfl rfl
  · split at hstep <;> exact Option.some.inj hstep ▸ .same rfl rfl rfl
  · cases hstep
  · rw [Option.some.injEq, State.markDispatchComplete] at hstep
    subst hstep
    split
    · exact .none rfl rfl (fun other handle => by simp [State.setDispatch])
        (fun other => by simp [State.setDispatch])
    · exact .same rfl rfl rfl

theorem runThread_listEffect {t : Tid} (hstep : runThread s t = some next) :
    ListEffect s next := by
  unfold runThread at hstep
  cases hpc : s.pc t with
  | idle =>
      simp only [hpc] at hstep
      exact runDispatch_listEffect hstep
  | addRegister topic observer =>
      simp only [hpc] at hstep
      split at hstep <;> rw [Option.some.injEq] at hstep <;> subst hstep
      · exact .goto rfl rfl rfl (by simp [PC.adding]) (by simp [PC.erased])
      · exact .goto rfl rfl rfl (by simp [hpc, PC.adding]) (by simp [PC.erased])
  | addFetchId topicId observer =>
      simp only [hpc, Option.some.injEq] at hstep
      exact hstep ▸ .goto rfl rfl rfl (by simp [hpc, PC.adding]) (by simp [PC.erased])
  | addPush topicId observer =>
      simp only [hpc, Option.some.injEq] at hstep
      exact hstep ▸ .store t topicId observer (by simp [hpc, PC.adding]) rfl rfl rfl
  | removeErase topicId removal =>
      simp only [hpc] at hstep
      cases hlist : s.m_topicObservers topicId with
      | none =>
          simp only [hlist, Option.some.injEq] at hstep
          exact hstep ▸ .goto rfl rfl rfl (by simp [PC.adding]) (by simp [PC.erased])
      | some observers =>
          simp only [hlist, Option.some.injEq] at hstep
          have hget : s.getObservers topicId = observers := by simp [State.getObservers, hlist]
          rw [← hget] at hstep
          exact hstep ▸ .erase t topicId removal hpc rfl rfl rfl
  | removeResolve _ _ | postResolve _ _ _ =>
      simp only [hpc, Option.some.injEq] at hstep
      exact hstep ▸ .goto rfl rfl rfl (by simp [PC.adding]) (by simp [PC.erased])
  | waitCheck erased | waitLock erased =>
      simp only [hpc] at hstep
      split at hstep <;> rw [Option.some.injEq] at hstep <;> subst hstep
      · exact .goto rfl rfl rfl (by simp [PC.adding]) (by simp [PC.erased])
      · exact .goto rfl rfl rfl (by simp [PC.adding]) (by simp [hpc, PC.erased])
  | waitBlocked erased => simp [hpc] at hstep
  | postPush id obj autoCleanupPayload =>
      simp only [hpc] at hstep
      split at hstep <;> exact Option.some.inj hstep ▸
        .goto rfl rfl rfl (by simp [PC.adding]) (by simp [PC.erased])

theorem step_listEffect {action : Action Tid} (hstep : step s action = some next) :
    ListEffect s next := by
  cases action with
  | run t => exact runThread_listEffect hstep
  | callAdd t topic callback callbackMethod callbackFunc observerInstance =>
      simp only [step] at hstep
      split at hstep
      · exact Option.some.inj hstep ▸ .allocate t _ rfl rfl rfl rfl rfl
      · cases hstep
  | callRemove t topic removal =>
      simp only [step] at hstep
      split at hstep
      · split at hstep <;> exact Option.some.inj hstep ▸
          .goto rfl rfl rfl (by simp [PC.adding]) (by simp [PC.erased])
      · cases hstep
  | callPost t _ obj autoCleanupPayload | callPostTopic t _ obj autoCleanupPayload =>
      simp only [step] at hstep
      split at hstep
      · exact Option.some.inj hstep ▸
          .goto rfl rfl rfl (by simp [PC.adding]) (by simp [PC.erased])
      · cases hstep
  | callDispatch t id message =>
      simp only [step] at hstep
      split at hstep
      · exact Option.some.inj hstep ▸ .same rfl rfl rfl
      · exact Option.some.inj hstep ▸ .same rfl rfl rfl
      · cases hstep
  | handlerReturn t =>
      simp only [step] at hstep
      split at hstep
      · exact Option.some.inj hstep ▸ .same rfl rfl rfl
      · cases hstep
  | wakeSpuriously t =>
      simp only [step] at hstep
      split at hstep
      · rename_i erased hpc
        exact Option.some.inj hstep ▸
          .goto rfl rfl rfl (by simp [PC.adding]) (by simp [hpc, PC.erased])
      · cases hstep

/-! ### Effect on the threads -/

/-- What a call returns: nothing yet, or the descriptors that it erased. -/
inductive ReturnEffect (s next : State Tid) (t : Tid) : Prop
  | none (hreturns : next.removeReturns = s.removeReturns)
  | remove (erased : List ObserverDescriptor)
      (hreturns : next.removeReturns = s.removeReturns ++ [⟨t, (s.dispatch t).isSome, erased⟩])
      (herased : erased = [] ∨
        erased = (s.pc t).erased ∧ (s.tl_inDispatch t = true ∨ s.m_activeDispatches = 0))

inductive ControlEffect (s next : State Tid) : Prop
  | none (hdispatch : next.dispatch = s.dispatch)
      (hactive : next.m_activeDispatches = s.m_activeDispatches)
      (htl : next.tl_inDispatch = s.tl_inDispatch) (hpc : next.pc = s.pc)
      (hreturns : next.removeReturns = s.removeReturns)
  /-- a step of a call made outside `Dispatch` or by a handler -/
  | call (t : Tid) (pc : PC) (hdispatch : next.dispatch = s.dispatch)
      (hactive : next.m_activeDispatches = s.m_activeDispatches)
      (htl : next.tl_inDispatch = s.tl_inDispatch) (hpc : next.pc = Function.update s.pc t pc)
      (hcan : s.pc t ≠ .idle ∨ s.canCall t = true)
      (hwait : pc.Waiting → (s.pc t).Waiting ∨ s.pc t ≠ .idle ∧ s.tl_inDispatch t = false)
      (hblock : pc.Blocked → s.m_activeDispatches ≠ 0) (hreturn : ReturnEffect s next t)
  | start (t : Tid) (id : Int) (hidle : s.pc t = .idle) (hnone : s.dispatch t = Option.none)
      (hdispatch : next.dispatch =
        Function.update s.dispatch t (some (.next (s.getObservers id))))
      (hactive : next.m_activeDispatches = s.m_activeDispatches + 1)
      (htl : next.tl_inDispatch = Function.update s.tl_inDispatch t true) (hpc : next.pc = s.pc)
      (hreturns : next.removeReturns = s.removeReturns)
  | advance (t : Tid) (before after : Dispatching) (hidle : s.pc t = .idle)
      (hbefore : s.dispatch t = some before) (hloop : before.InLoop)
      (hpending : after.pending ⊆ before.pending)
      (hremaining : after.remaining ⊆ before.remaining)
      (hdispatch : next.dispatch = Function.update s.dispatch t (some after))
      (hactive : next.m_activeDispatches = s.m_activeDispatches)
      (htl : after.InLoop ∧ next.tl_inDispatch = s.tl_inDispatch ∨
        after = .completing ∧ next.tl_inDispatch = Function.update s.tl_inDispatch t false)
      (hpc : next.pc = s.pc) (hreturns : next.removeReturns = s.removeReturns)
  | complete (t : Tid) (hidle : s.pc t = .idle) (hbefore : s.dispatch t = some .completing)
      (hdispatch : next.dispatch = Function.update s.dispatch t Option.none)
      (hactive : next.m_activeDispatches = s.m_activeDispatches - 1)
      (htl : next.tl_inDispatch = s.tl_inDispatch)
      (hpc : next.m_activeDispatches ≠ 0 ∧ next.pc = s.pc ∨
        next.m_activeDispatches = 0 ∧ next.pc = fun other => (s.pc other).notified)
      (hreturns : next.removeReturns = s.removeReturns)

theorem runDispatch_controlEffect {t : Tid} (hidle : s.pc t = .idle)
    (hstep : runDispatch s t = some next) : ControlEffect s next := by
  unfold runDispatch at hstep
  split at hstep
  · cases hstep
  · rename_i hbefore
    exact Option.some.inj hstep ▸ .advance t _ .completing hidle hbefore trivial
      (List.Subset.refl _) (List.Subset.refl _) rfl rfl (.inr ⟨rfl, rfl⟩) rfl rfl
  · rename_i observer remaining hbefore
    split at hstep
    · exact Option.some.inj hstep ▸ .advance t _ (.invoking observer remaining) hidle hbefore
        trivial (List.Subset.refl _) (List.subset_cons_self ..) rfl rfl (.inl ⟨trivial, rfl⟩) rfl rfl
    · exact Option.some.inj hstep ▸ .advance t _ (.next remaining) hidle hbefore trivial
        (List.subset_cons_self ..) (List.subset_cons_self ..) rfl rfl (.inl ⟨trivial, rfl⟩) rfl rfl
  · cases hstep
  · rename_i hbefore
    rw [Option.some.injEq, State.markDispatchComplete] at hstep
    subst hstep
    split
    · rename_i hzero
      exact .complete t hidle hbefore rfl rfl rfl (.inr ⟨hzero, rfl⟩) rfl
    · rename_i hactive
      exact .complete t hidle hbefore rfl rfl rfl (.inl ⟨hactive, rfl⟩) rfl

theorem runThread_controlEffect {t : Tid} (hstep : runThread s t = some next) :
    ControlEffect s next := by
  unfold runThread at hstep
  cases hpc : s.pc t with
  | idle =>
      simp only [hpc] at hstep
      exact runDispatch_controlEffect hpc hstep
  | addRegister topic observer =>
      simp only [hpc] at hstep
      split at hstep <;> exact Option.some.inj hstep ▸
        .call t _ rfl rfl rfl rfl (.inl (by simp [hpc])) False.elim False.elim (.none rfl)
  | addFetchId _ _ | addPush _ _ | removeResolve _ _ | postResolve _ _ _ =>
      simp only [hpc, Option.some.injEq] at hstep
      exact hstep ▸
        .call t _ rfl rfl rfl rfl (.inl (by simp [hpc])) False.elim False.elim (.none rfl)
  | removeErase topicId removal =>
      simp only [hpc] at hstep
      split at hstep <;> exact Option.some.inj hstep ▸
        .call t _ rfl rfl rfl rfl (.inl (by simp [hpc])) False.elim False.elim (.none rfl)
  | postPush id obj autoCleanupPayload =>
      simp only [hpc] at hstep
      split at hstep <;> exact Option.some.inj hstep ▸
        .call t _ rfl rfl rfl rfl (.inl (by simp [hpc])) False.elim False.elim (.none rfl)
  | waitCheck erased =>
      simp only [hpc] at hstep
      split at hstep <;> rename_i htl
      · exact Option.some.inj hstep ▸
          .call t .idle rfl rfl rfl rfl (.inl (by simp [hpc])) False.elim False.elim
            (.remove erased rfl (.inr ⟨by simp [hpc, PC.erased], .inl htl⟩))
      · exact Option.some.inj hstep ▸
          .call t (.waitLock erased) rfl rfl rfl rfl (.inl (by simp [hpc]))
            (fun _ => .inr ⟨by simp [hpc], by simpa using htl⟩) False.elim (.none rfl)
  | waitLock erased =>
      have hwait : (s.pc t).Waiting := by simp [hpc, PC.Waiting]
      simp only [hpc] at hstep
      split at hstep <;> rename_i hactive
      · exact Option.some.inj hstep ▸
          .call t .idle rfl rfl rfl rfl (.inl (by simp [hpc])) False.elim False.elim
            (.remove erased rfl (.inr ⟨by simp [hpc, PC.erased], .inr hactive⟩))
      · exact Option.some.inj hstep ▸
          .call t (.waitBlocked erased) rfl rfl rfl rfl (.inl (by simp [hpc]))
            (fun _ => .inl hwait) (fun _ => hactive) (.none rfl)
  | waitBlocked erased => simp [hpc] at hstep

theorem step_controlEffect {action : Action Tid} (hstep : step s action = some next) :
    ControlEffect s next := by
  cases action with
  | run t => exact runThread_controlEffect hstep
  | callAdd t topic callback callbackMethod callbackFunc observerInstance =>
      simp only [step] at hstep
      split at hstep <;> rename_i hcan
      · exact Option.some.inj hstep ▸
          .call t _ rfl rfl rfl rfl (.inr hcan) False.elim False.elim (.none rfl)
      · cases hstep
  | callRemove t topic removal =>
      simp only [step] at hstep
      split at hstep <;> rename_i hcan
      · split at hstep
        · exact Option.some.inj hstep ▸
            .call t .idle rfl rfl rfl rfl (.inr hcan) False.elim False.elim
              (.remove [] rfl (.inl rfl))
        · exact Option.some.inj hstep ▸
            .call t _ rfl rfl rfl rfl (.inr hcan) False.elim False.elim (.none rfl)
      · cases hstep
  | callPost t _ obj autoCleanupPayload | callPostTopic t _ obj autoCleanupPayload =>
      simp only [step] at hstep
      split at hstep <;> rename_i hcan
      · exact Option.some.inj hstep ▸
          .call t _ rfl rfl rfl rfl (.inr hcan) False.elim False.elim (.none rfl)
      · cases hstep
  | callDispatch t id message =>
      simp only [step] at hstep
      split at hstep
      · exact Option.some.inj hstep ▸ .none rfl rfl rfl rfl rfl
      · rename_i message hidle hnone
        exact Option.some.inj hstep ▸ .start t id hidle hnone rfl rfl rfl rfl rfl
      · cases hstep
  | handlerReturn t =>
      simp only [step] at hstep
      split at hstep
      · rename_i observer remaining hidle hbefore
        exact Option.some.inj hstep ▸ .advance t _ (.next remaining) hidle hbefore trivial
          (List.subset_cons_self ..) (List.Subset.refl _) rfl rfl (.inl ⟨trivial, rfl⟩) rfl rfl
      · cases hstep
  | wakeSpuriously t =>
      simp only [step] at hstep
      split at hstep
      · rename_i erased hpc
        exact Option.some.inj hstep ▸
          .call t (.waitLock erased) rfl rfl rfl rfl (.inl (by simp [hpc]))
            (fun _ => .inl (by simp [hpc, PC.Waiting])) False.elim (.none rfl)
      · cases hstep

end MessageCenter.EventQueue
