import MessageCenter.EventQueue.Placement

/-!
# The contract of `RemoveObserver`

Snapshots taken before a removal are counted by `m_activeDispatches`, and a
removal from outside `Dispatch` returns only when that count is zero; snapshots
taken after it do not hold the descriptors that it erased.
-/

namespace MessageCenter.EventQueue

open Concurrency

universe u

variable {Tid : Type u} {s next : State Tid}

/-! ### Counting the dispatches -/

/-- `m_activeDispatches` counts the threads inside `Dispatch`; `tl_inDispatch`
marks those in the loop; only threads outside `Dispatch` wait, and only while the
count is not zero are they blocked. -/
structure Counted (s : State Tid) : Prop where
  active : ∃ threads : List Tid, threads.Nodup ∧
    (∀ t, t ∈ threads ↔ (s.dispatch t).isSome) ∧ s.m_activeDispatches = threads.length
  marked : ∀ t, s.tl_inDispatch t = true ↔ ∃ d, s.dispatch t = some d ∧ d.InLoop
  calling : ∀ t, s.pc t ≠ .idle → s.dispatch t = none ∨
    ∃ observer remaining, s.dispatch t = some (.invoking observer remaining)
  waiting : ∀ t, (s.pc t).Waiting → s.dispatch t = none
  blocked : ∀ t, (s.pc t).Blocked → s.m_activeDispatches ≠ 0

theorem counted_init : Counted (init : State Tid) := by
  refine ⟨⟨[], List.nodup_nil, by simp [init], rfl⟩, ?_, ?_, ?_, ?_⟩ <;>
    simp [init, PC.Waiting, PC.Blocked]

/-- A thread outside `Dispatch` is not marked. -/
theorem Counted.dispatch_eq_none (hcounted : Counted s) {t : Tid} (hcall : s.pc t ≠ .idle)
    (htl : s.tl_inDispatch t = false) : s.dispatch t = none := by
  rcases hcounted.calling t hcall with hnone | ⟨observer, remaining, hinvoking⟩
  · exact hnone
  · have hmarked := (hcounted.marked t).mpr ⟨_, hinvoking, trivial⟩
    rw [htl] at hmarked
    cases hmarked

/-- `m_activeDispatches` counts the threads inside `Dispatch`. -/
def CountsActive (s : State Tid) : Prop :=
  ∃ threads : List Tid, threads.Nodup ∧
    (∀ t, t ∈ threads ↔ (s.dispatch t).isSome) ∧ s.m_activeDispatches = threads.length

/-- A count of zero means that nobody is inside `Dispatch`. -/
theorem CountsActive.dispatch_eq_none (hcount : CountsActive s)
    (hzero : s.m_activeDispatches = 0) (t : Tid) : s.dispatch t = none := by
  obtain ⟨threads, _, hmem, hlength⟩ := hcount
  have hnil : threads = [] := List.length_eq_zero_iff.mp (by omega)
  have hnot : ¬ (s.dispatch t).isSome := fun hsome => by
    have hin := (hmem t).mpr hsome
    rw [hnil] at hin
    cases hin
  simpa using hnot

theorem Counted.exists_dispatching (hcounted : Counted s) (hactive : s.m_activeDispatches ≠ 0) :
    ∃ t, (s.dispatch t).isSome := by
  obtain ⟨threads, _, hmem, hlength⟩ := hcounted.active
  cases threads with
  | nil => exact absurd hlength hactive
  | cons t rest => exact ⟨t, (hmem t).mp (List.mem_cons_self ..)⟩

theorem State.calling_of_canCall {t : Tid} (hcan : s.canCall t = true) :
    s.dispatch t = none ∨
      ∃ observer remaining, s.dispatch t = some (.invoking observer remaining) := by
  unfold State.canCall at hcan
  split at hcan
  · rename_i hnone
    exact Or.inl hnone
  · rename_i hinvoking
    exact Or.inr ⟨_, _, hinvoking⟩
  · cases hcan

variable [DecidableEq Tid]

theorem CountsActive.step (hcount : CountsActive s) (heffect : ControlEffect s next) :
    CountsActive next := by
  obtain ⟨threads, hnodup, hmem, hlength⟩ := hcount
  cases heffect with
  | none hdispatch hactive _ _ _ | call _ _ hdispatch hactive =>
      exact ⟨threads, hnodup, by simpa only [hdispatch] using hmem, hactive ▸ hlength⟩
  | start t id hidle hnone hdispatch hactive =>
      have hfresh : t ∉ threads := fun hin => by
        have hsome := (hmem t).mp hin
        rw [hnone] at hsome
        cases hsome
      refine ⟨t :: threads, List.nodup_cons.mpr ⟨hfresh, hnodup⟩, fun other => ?_, ?_⟩
      · by_cases heq : other = t
        · simp [heq, hdispatch]
        · simp [heq, hdispatch, hmem]
      · rw [hactive, hlength, List.length_cons]
        rfl
  | advance t before after hidle hbefore hloop _ _ hdispatch hactive =>
      refine ⟨threads, hnodup, fun other => ?_, hactive ▸ hlength⟩
      by_cases heq : other = t
      · simp [heq, hdispatch, hmem, hbefore]
      · simp [heq, hdispatch, hmem]
  | complete t hidle hbefore hdispatch hactive =>
      have hin : t ∈ threads := (hmem t).mpr (by simp [hbefore])
      refine ⟨threads.erase t, hnodup.erase t, fun other => ?_, ?_⟩
      · rw [hnodup.mem_erase_iff, hmem]
        by_cases heq : other = t <;> simp [heq, hdispatch]
      · have hpos := List.length_pos_of_mem hin
        rw [hactive, hlength, List.length_erase_of_mem hin]
        omega

theorem Counted.step (hcounted : Counted s) (heffect : ControlEffect s next) :
    Counted next := by
  have hcount : CountsActive next := CountsActive.step hcounted.active heffect
  cases heffect with
  | none hdispatch hactive htl hpc _ =>
      obtain ⟨_, hmarked, hcalling, hwaiting, hblocked⟩ := hcounted
      refine ⟨hcount, ?_, ?_, ?_, ?_⟩
      · simpa only [hdispatch, htl] using hmarked
      · simpa only [hdispatch, hpc] using hcalling
      · simpa only [hdispatch, hpc] using hwaiting
      · simpa only [hactive, hpc] using hblocked
  | call t pc hdispatch hactive htl hpc hcan hwait hblock _ =>
      have hself : s.dispatch t = none ∨
          ∃ observer remaining, s.dispatch t = some (.invoking observer remaining) := by
        rcases hcan with hcall | hcan
        · exact hcounted.calling t hcall
        · exact State.calling_of_canCall hcan
      refine ⟨hcount, ?_, ?_, ?_, ?_⟩
      · simpa only [hdispatch, htl] using hcounted.marked
      · intro other hother
        rw [hdispatch]
        by_cases heq : other = t
        · exact heq ▸ hself
        · rw [hpc, Function.update_of_ne heq] at hother
          exact hcounted.calling other hother
      · intro other hother
        rw [hdispatch]
        by_cases heq : other = t
        · subst heq
          rw [hpc, Function.update_self] at hother
          rcases hwait hother with hbefore | ⟨hcall, hunmarked⟩
          · exact hcounted.waiting other hbefore
          · exact hcounted.dispatch_eq_none hcall hunmarked
        · rw [hpc, Function.update_of_ne heq] at hother
          exact hcounted.waiting other hother
      · intro other hother
        rw [hactive]
        by_cases heq : other = t
        · subst heq
          rw [hpc, Function.update_self] at hother
          exact hblock hother
        · rw [hpc, Function.update_of_ne heq] at hother
          exact hcounted.blocked other hother
  | start t id hidle hnone hdispatch hactive htl hpc _ =>
      refine ⟨hcount, ?_, ?_, ?_, ?_⟩
      · intro other
        by_cases heq : other = t
        · simp [heq, htl, hdispatch, Dispatching.InLoop]
        · simpa [heq, htl, hdispatch] using hcounted.marked other
      · intro other hother
        rw [hpc] at hother
        have heq : other ≠ t := fun heq => hother (heq ▸ hidle)
        simpa [heq, hdispatch] using hcounted.calling other hother
      · intro other hother
        rw [hpc] at hother
        have heq : other ≠ t := fun heq => by simp [heq, hidle, PC.Waiting] at hother
        simpa [heq, hdispatch] using hcounted.waiting other hother
      · intro other _
        obtain ⟨threads, _, _, hlength⟩ := hcounted.active
        rw [hactive, hlength]
        omega
  | advance t before after hidle hbefore hloop _ _ hdispatch hactive htl hpc _ =>
      have hmarked := (hcounted.marked t).mpr ⟨before, hbefore, hloop⟩
      refine ⟨hcount, ?_, ?_, ?_, ?_⟩
      · intro other
        by_cases heq : other = t
        · subst heq
          rcases htl with ⟨hafter, htl⟩ | ⟨rfl, htl⟩
          · simp [htl, hmarked, hdispatch, hafter]
          · simp [htl, hdispatch, Dispatching.InLoop]
        · have hother : next.tl_inDispatch other = s.tl_inDispatch other := by
            rcases htl with ⟨_, htl⟩ | ⟨_, htl⟩ <;> simp [htl, heq]
          simpa [hother, heq, hdispatch] using hcounted.marked other
      · intro other hother
        rw [hpc] at hother
        have heq : other ≠ t := fun heq => hother (heq ▸ hidle)
        simpa [heq, hdispatch] using hcounted.calling other hother
      · intro other hother
        rw [hpc] at hother
        have heq : other ≠ t := fun heq => by simp [heq, hidle, PC.Waiting] at hother
        simpa [heq, hdispatch] using hcounted.waiting other hother
      · simpa only [hpc, hactive] using hcounted.blocked
  | complete t hidle hbefore hdispatch hactive htl hpc _ =>
      -- `notify_all` changes only who is blocked
      have hidleIff : ∀ other, next.pc other = .idle ↔ s.pc other = .idle := by
        rcases hpc with ⟨_, hpc⟩ | ⟨_, hpc⟩ <;> simp [hpc, PC.notified_idle]
      have hwaitIff : ∀ other, (next.pc other).Waiting ↔ (s.pc other).Waiting := by
        rcases hpc with ⟨_, hpc⟩ | ⟨_, hpc⟩ <;> simp [hpc, PC.waiting_notified]
      refine ⟨hcount, ?_, ?_, ?_, ?_⟩
      · intro other
        rw [htl]
        by_cases heq : other = t
        · subst heq
          have hunmarked : ¬ s.tl_inDispatch other = true := fun hmarked => by
            obtain ⟨d, hd, hloop⟩ := (hcounted.marked other).mp hmarked
            rw [hbefore, Option.some.injEq] at hd
            subst hd
            exact hloop
          simp [hunmarked, hdispatch]
        · simpa [heq, hdispatch] using hcounted.marked other
      · intro other hother
        rw [Ne, hidleIff] at hother
        have heq : other ≠ t := fun heq => hother (heq ▸ hidle)
        simpa [heq, hdispatch] using hcounted.calling other hother
      · intro other hother
        rw [hwaitIff] at hother
        have heq : other ≠ t := fun heq => by simp [heq, hidle, PC.Waiting] at hother
        simpa [heq, hdispatch] using hcounted.waiting other hother
      · intro other hother
        rcases hpc with ⟨hne, _⟩ | ⟨_, hpc⟩
        · exact hne
        · rw [hpc] at hother
          exact absurd hother (s.pc other).not_blocked_notified

/-! ### Returned removals are settled -/

/-- Some `Dispatch` call runs `handle` now or holds it in its snapshot. -/
def State.Pending (s : State Tid) (t : Tid) (handle : Nat) : Prop :=
  ∃ d, s.dispatch t = some d ∧ ∃ observer ∈ d.pending, observer.handle = handle

/-- What a removal from outside `Dispatch` has erased, when it has returned, is
gone and in no snapshot. -/
def Settled (s : State Tid) : Prop :=
  ∀ ret ∈ s.removeReturns, ret.inDispatch = false → ∀ observer ∈ ret.erased,
    s.Gone observer.handle ∧ ∀ t, ¬ s.Pending t observer.handle

omit [DecidableEq Tid] in
/-- Nobody is inside `Dispatch` when a removal from outside passes the wait. -/
theorem Counted.nobody_of_return (hcounted : Counted s) {t : Tid}
    (houtside : (s.dispatch t).isSome = false)
    (hreturned : s.tl_inDispatch t = true ∨ s.m_activeDispatches = 0) (other : Tid) :
    s.dispatch other = none := by
  rcases hreturned with hmarked | hzero
  · obtain ⟨d, hd, _⟩ := (hcounted.marked t).mp hmarked
    rw [hd] at houtside
    cases houtside
  · exact CountsActive.dispatch_eq_none hcounted.active hzero other

omit [DecidableEq Tid] in
theorem State.Pending.congr {t : Tid} {handle : Nat} (hpending : next.Pending t handle)
    (hdispatch : next.dispatch t = s.dispatch t) : s.Pending t handle := by
  rwa [State.Pending, ← hdispatch]

/-- A descriptor that is gone enters no snapshot. -/
theorem State.Gone.pending_of_step {t : Tid} {handle : Nat} (hgone : s.Gone handle)
    (heffect : ControlEffect s next) (hpending : next.Pending t handle) : s.Pending t handle := by
  cases heffect with
  | none hdispatch | call _ _ hdispatch => exact hpending.congr (by rw [hdispatch])
  | start starter id hidle hnone hdispatch hactive htl hpc hreturns =>
      by_cases heq : t = starter
      · subst heq
        obtain ⟨d, hd, observer, hmem, rfl⟩ := hpending
        rw [hdispatch, Function.update_self, Option.some.injEq] at hd
        subst hd
        exact absurd (List.mem_map_of_mem hmem) (hgone.unlisted id)
      · exact hpending.congr (by rw [hdispatch, Function.update_of_ne heq])
  | advance mover before after hidle hbefore hloop hsub _ hdispatch hactive htl hpc hreturns =>
      by_cases heq : t = mover
      · subst heq
        obtain ⟨d, hd, observer, hmem, hhandle⟩ := hpending
        rw [hdispatch, Function.update_self, Option.some.injEq] at hd
        subst hd
        exact ⟨before, hbefore, observer, hsub hmem, hhandle⟩
      · exact hpending.congr (by rw [hdispatch, Function.update_of_ne heq])
  | complete leaver hidle hbefore hdispatch hactive htl hpc hreturns =>
      by_cases heq : t = leaver
      · subst heq
        obtain ⟨d, hd, _⟩ := hpending
        rw [hdispatch, Function.update_self] at hd
        cases hd
      · exact hpending.congr (by rw [hdispatch, Function.update_of_ne heq])

/-- If nobody holds what a removal from outside returns with, what returned
removals have erased stays settled. -/
theorem Settled.step_of (hsettled : Settled s) (herased : ErasedGone s)
    (hlists : ListEffect s next) (hcontrol : ControlEffect s next)
    (hnobody : ∀ t, next.removeReturns =
        s.removeReturns ++ [⟨t, (s.dispatch t).isSome, (s.pc t).erased⟩] →
      (s.dispatch t).isSome = false → s.tl_inDispatch t = true ∨ s.m_activeDispatches = 0 →
        ∀ observer ∈ (s.pc t).erased, ∀ other, ¬ s.Pending other observer.handle) :
    Settled next := by
  have hold : ∀ ret ∈ s.removeReturns, ret.inDispatch = false → ∀ observer ∈ ret.erased,
      next.Gone observer.handle ∧ ∀ t, ¬ next.Pending t observer.handle := by
    intro ret hmem houtside observer hobserver
    obtain ⟨hgone, hnone⟩ := hsettled ret hmem houtside observer hobserver
    exact ⟨hgone.step hlists, fun t hpending => hnone t (hgone.pending_of_step hcontrol hpending)⟩
  intro ret hmem houtside observer hobserver
  cases hcontrol with
  | none _ _ _ _ hreturns | start _ _ _ _ _ _ _ _ hreturns
  | advance _ _ _ _ _ _ _ _ _ _ _ _ hreturns | complete _ _ _ _ _ _ _ hreturns =>
      exact hold ret (hreturns ▸ hmem) houtside observer hobserver
  | call t pc hdispatch _ _ _ _ _ _ hreturn =>
      cases hreturn with
      | none hreturns => exact hold ret (hreturns ▸ hmem) houtside observer hobserver
      | remove erased hreturns hcase =>
          rw [hreturns, List.mem_append, List.mem_singleton] at hmem
          rcases hmem with hmem | rfl
          · exact hold ret hmem houtside observer hobserver
          · rcases hcase with rfl | ⟨rfl, hreturned⟩
            · cases hobserver
            · refine ⟨(herased t observer hobserver).step hlists, fun other hpending => ?_⟩
              exact hnobody t hreturns houtside hreturned observer hobserver other
                (hpending.congr (by rw [hdispatch]))

theorem Settled.step (hsettled : Settled s) (hcounted : Counted s) (herased : ErasedGone s)
    (hlists : ListEffect s next) (hcontrol : ControlEffect s next) : Settled next := by
  refine hsettled.step_of herased hlists hcontrol ?_
  intro t _ houtside hreturned observer _ other hpending
  obtain ⟨d, hd, _⟩ := hpending
  rw [hcounted.nobody_of_return houtside hreturned other] at hd
  cases hd

/-! ### The invariant of a run -/

structure Inv (s : State Tid) : Prop where
  placed : Placed s
  erasedGone : ErasedGone s
  counted : Counted s
  settled : Settled s

theorem Inv.step {action : Action Tid} (hinv : Inv s)
    (hstep : EventQueue.step s action = some next) : Inv next := by
  have hlists := step_listEffect hstep
  have hcontrol := step_controlEffect hstep
  exact ⟨hinv.placed.step hlists, hinv.erasedGone.step hinv.placed hlists,
    hinv.counted.step hcontrol,
    hinv.settled.step hinv.counted hinv.erasedGone hlists hcontrol⟩

omit [DecidableEq Tid] in
theorem inv_init : Inv (init : State Tid) := by
  refine ⟨placed_init, ?_, counted_init, ?_⟩
  · intro t observer hmem
    cases hmem
  · intro ret hmem
    cases hmem

theorem reachable_inv (hreach : (machine Tid).Reachable s) : Inv s :=
  hreach.invariant Inv inv_init fun _ _ _ hinv hstep => hinv.step hstep

/-! ### The contract -/

/-- `t` is inside the handler of the descriptor `handle`. -/
def State.Invoking (s : State Tid) (t : Tid) (handle : Nat) : Prop :=
  ∃ observer remaining, s.dispatch t = some (.invoking observer remaining) ∧
    observer.handle = handle

/-- The thread can take the next step of what it runs. -/
def State.CanAdvance (s : State Tid) (t : Tid) : Prop :=
  (step s (.run t)).isSome ∨ (step s (.handlerReturn t)).isSome

omit [DecidableEq Tid] in
theorem State.Invoking.pending {t : Tid} {handle : Nat} (hinvoking : s.Invoking t handle) :
    s.Pending t handle := by
  obtain ⟨observer, remaining, hd, hhandle⟩ := hinvoking
  exact ⟨_, hd, observer, List.mem_cons_self .., hhandle⟩

/-- A thread inside `Dispatch` is never stuck. -/
theorem Counted.canAdvance (hcounted : Counted s) {t : Tid} (hsome : (s.dispatch t).isSome) :
    s.CanAdvance t := by
  have hnotWaiting : ¬ (s.pc t).Waiting := fun hwait => by
    rw [hcounted.waiting t hwait] at hsome
    cases hsome
  obtain ⟨d, hd⟩ := Option.isSome_iff_exists.mp hsome
  cases hpc : s.pc t with
  | idle =>
      cases d with
      | next remaining =>
          left
          cases remaining with
          | nil => simp [EventQueue.step, runThread, runDispatch, hpc, hd]
          | cons observer rest =>
              cases hhandler : observer.handler? <;>
                simp [EventQueue.step, runThread, runDispatch, hpc, hd, hhandler]
      | invoking observer remaining =>
          right
          simp [EventQueue.step, hpc, hd]
      | completing =>
          left
          simp [EventQueue.step, runThread, runDispatch, hpc, hd]
  | waitLock erased | waitBlocked erased => exact absurd (by simp [hpc, PC.Waiting]) hnotWaiting
  | addRegister topic observer =>
      left
      simp only [EventQueue.step, runThread, hpc]
      split <;> rfl
  | removeErase topicId removal =>
      left
      simp only [EventQueue.step, runThread, hpc]
      split <;> rfl
  | waitCheck erased | postPush id obj autoCleanupPayload =>
      left
      simp only [EventQueue.step, runThread, hpc]
      split <;> rfl
  | addFetchId _ _ | addPush _ _ | removeResolve _ _ | postResolve _ _ _ =>
      left
      simp [EventQueue.step, runThread, hpc]

/-- A waiting removal that finds the count at zero returns. -/
theorem Counted.run_of_zero (hcounted : Counted s) {t : Tid} (hwait : (s.pc t).Waiting)
    (hzero : s.m_activeDispatches = 0) :
    ∃ next, EventQueue.step s (.run t) = some next ∧ next.pc t = .idle := by
  cases hpc : s.pc t with
  | waitLock erased =>
      refine ⟨s.removeReturn t erased, by simp [EventQueue.step, runThread, hpc, hzero], ?_⟩
      simp [State.removeReturn, State.goto]
  | waitBlocked erased => exact absurd hzero (hcounted.blocked t (by simp [hpc, PC.Blocked]))
  | _ => simp [hpc, PC.Waiting] at hwait

/-- **The contract of a removal**, along one execution. -/
structure RemovalContract (exec : Execution (machine Tid)) : Prop where
  /-- once a removal made outside `Dispatch` has returned, no thread is or will be
  inside a handler that it erased -/
  removed : ∀ i j, i ≤ j → j ≤ exec.length → ∀ ret ∈ (exec.state i).removeReturns,
    ret.inDispatch = false → ∀ observer ∈ ret.erased, ∀ t,
      ¬ (exec.state j).Invoking t observer.handle
  /-- the removal of a handler never waits -/
  handlerNeverWaits : ∀ i, i ≤ exec.length → ∀ t, ((exec.state i).dispatch t).isSome →
    ¬ ((exec.state i).pc t).Waiting
  /-- no wake-up is missed: nobody is blocked while the count is zero … -/
  wokenUp : ∀ i, i ≤ exec.length → ∀ t, ((exec.state i).pc t).Blocked →
    (exec.state i).m_activeDispatches ≠ 0
  /-- … and a waiting removal that runs then returns -/
  released : ∀ i, i ≤ exec.length → ∀ t, ((exec.state i).pc t).Waiting →
    (exec.state i).m_activeDispatches = 0 →
      ∃ next, step (exec.state i) (.run t) = some next ∧ next.pc t = .idle
  /-- as long as it has to wait, a dispatching thread has an enabled step -/
  progress : ∀ i, i ≤ exec.length → ∀ t, ((exec.state i).pc t).Waiting →
    (exec.state i).m_activeDispatches ≠ 0 →
      ∃ dispatcher, ((exec.state i).dispatch dispatcher).isSome ∧
        (exec.state i).CanAdvance dispatcher

/-- A removal that has returned stays in the history. -/
theorem removeReturns_mono (heffect : ControlEffect s next) :
    s.removeReturns ⊆ next.removeReturns := by
  cases heffect with
  | none _ _ _ _ hreturns | start _ _ _ _ _ _ _ _ hreturns
  | advance _ _ _ _ _ _ _ _ _ _ _ _ hreturns | complete _ _ _ _ _ _ _ hreturns =>
      rw [hreturns]
      exact List.Subset.refl _
  | call _ _ _ _ _ _ _ _ _ hreturn =>
      cases hreturn with
      | none hreturns =>
          rw [hreturns]
          exact List.Subset.refl _
      | remove _ hreturns _ =>
          rw [hreturns]
          exact List.subset_append_left _ _

/-- **`RemoveObserver` keeps its contract** in every execution of any threads. -/
theorem removal_contract (exec : Execution (machine Tid)) : RemovalContract exec where
  removed := by
    intro i j hij hj ret hmem houtside observer hobserver t hinvoking
    have hkept : ret ∈ (exec.state j).removeReturns := by
      refine exec.carry (P := fun s => ret ∈ s.removeReturns) hij hj hmem ?_
      intro k _ hk hbefore
      have hlt : k < exec.length := Nat.lt_of_lt_of_le hk hj
      exact removeReturns_mono (step_controlEffect (exec.steps k hlt)) hbefore
    have hinv := reachable_inv (exec.reachable hj)
    exact (hinv.settled ret hkept houtside observer hobserver).2 t hinvoking.pending
  handlerNeverWaits := by
    intro i hi t hsome hwait
    have hinv := reachable_inv (exec.reachable hi)
    rw [hinv.counted.waiting t hwait] at hsome
    cases hsome
  wokenUp := fun i hi => (reachable_inv (exec.reachable hi)).counted.blocked
  released := fun i hi t hwait hzero =>
    (reachable_inv (exec.reachable hi)).counted.run_of_zero hwait hzero
  progress := by
    intro i hi t _ hactive
    have hinv := reachable_inv (exec.reachable hi)
    obtain ⟨dispatcher, hsome⟩ := hinv.counted.exists_dispatching hactive
    exact ⟨dispatcher, hsome, hinv.counted.canAdvance hsome⟩

/-- A removal blocks behind a dispatch that runs the erased handler, and returns
after it. -/
example :
    ((machine Bool).run init
      ([.callAdd false "news" (some 5) none none none, .run false, .run false, .run false,
        .callDispatch false 0 (some ⟨0, none, false⟩), .run false,
        .callRemove true "news" (.byId 1), .run true, .run true, .run true, .run true] ++
       [.handlerReturn false, .run false, .run false, .run true])).map
      (fun s => s.removeReturns.map fun ret => ret.erased.map ObserverDescriptor.handle) =
    some [[0]] := by decide

end MessageCenter.EventQueue
