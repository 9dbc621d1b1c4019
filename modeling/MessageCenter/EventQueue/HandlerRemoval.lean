import MessageCenter.EventQueue.Removal
import Mathlib.Tactic.IntervalCases

/-!
# Removals made by a handler

A removal that is called inside `Dispatch` returns without waiting, and the loop
goes on over a snapshot that was taken before it.  An erased descriptor that the
loop, or that of another thread, has not come to yet is then called after the
removal has returned.  Where no loop has one of the erased descriptors before it,
the contract of `WaitForDispatchesToComplete` holds for these removals too.
-/

namespace MessageCenter.EventQueue.HandlerRemoval

open Concurrency

universe u

variable {Tid : Type u} {s next : State Tid}

/-! ### Snapshots that are still ahead -/

/-- The loop of `t` has still to come to a descriptor of this handle. -/
def Ahead (s : State Tid) (t : Tid) (handle : Nat) : Prop :=
  ∃ d, s.dispatch t = some d ∧ ∃ observer ∈ d.remaining, observer.handle = handle

/-- A handler erases no descriptor that a loop has still to come to. -/
def ErasesNoneAhead (s : State Tid) : Action Tid → Prop
  | .run t =>
      ∀ topicId removal, s.pc t = .removeErase topicId removal → (s.dispatch t).isSome →
        ∀ observer ∈ (removal.sweep (s.getObservers topicId)).2, ∀ other,
          ¬ Ahead s other observer.handle
  | _ => True

theorem Ahead.congr {t : Tid} {handle : Nat} (hahead : Ahead next t handle)
    (hdispatch : next.dispatch t = s.dispatch t) : Ahead s t handle := by
  rwa [Ahead, ← hdispatch]

variable [DecidableEq Tid]

/-- A descriptor that is gone comes ahead of no loop. -/
theorem ahead_of_step {t : Tid} {handle : Nat} (hgone : s.Gone handle)
    (heffect : ControlEffect s next) (hahead : Ahead next t handle) : Ahead s t handle := by
  cases heffect with
  | none hdispatch | call _ _ hdispatch => exact hahead.congr (by rw [hdispatch])
  | start starter id _ _ hdispatch =>
      by_cases heq : t = starter
      · subst heq
        obtain ⟨d, hd, observer, hmem, rfl⟩ := hahead
        rw [hdispatch, Function.update_self, Option.some.injEq] at hd
        subst hd
        exact absurd (List.mem_map_of_mem hmem) (hgone.unlisted id)
      · exact hahead.congr (by rw [hdispatch, Function.update_of_ne heq])
  | advance mover before after _ hbefore _ _ hsub hdispatch =>
      by_cases heq : t = mover
      · subst heq
        obtain ⟨d, hd, observer, hmem, hhandle⟩ := hahead
        rw [hdispatch, Function.update_self, Option.some.injEq] at hd
        subst hd
        exact ⟨before, hbefore, observer, hsub hmem, hhandle⟩
      · exact hahead.congr (by rw [hdispatch, Function.update_of_ne heq])
  | complete leaver _ _ hdispatch =>
      by_cases heq : t = leaver
      · subst heq
        obtain ⟨d, hd, _⟩ := hahead
        rw [hdispatch, Function.update_self] at hd
        cases hd
      · exact hahead.congr (by rw [hdispatch, Function.update_of_ne heq])

/-- A loop enters the handlers of the descriptors ahead of it only. -/
theorem ahead_of_invoking {t : Tid} {handle : Nat} (heffect : ControlEffect s next)
    (hinvoking : next.Invoking t handle) : s.Invoking t handle ∨ Ahead s t handle := by
  have hsame : next.dispatch t = s.dispatch t → s.Invoking t handle :=
    fun hdispatch => by rwa [State.Invoking, ← hdispatch]
  cases heffect with
  | none hdispatch | call _ _ hdispatch => exact .inl (hsame (by rw [hdispatch]))
  | start starter id _ _ hdispatch =>
      by_cases heq : t = starter
      · subst heq
        obtain ⟨observer, rest, hd, _⟩ := hinvoking
        simp [hdispatch] at hd
      · exact .inl (hsame (by rw [hdispatch, Function.update_of_ne heq]))
  | advance mover before after _ hbefore _ hsub _ hdispatch =>
      by_cases heq : t = mover
      · subst heq
        obtain ⟨observer, rest, hd, hhandle⟩ := hinvoking
        rw [hdispatch, Function.update_self, Option.some.injEq] at hd
        subst hd
        have hpending : observer ∈ before.pending := hsub (List.mem_cons_self ..)
        cases before with
        | next remaining => exact .inr ⟨_, hbefore, observer, hpending, hhandle⟩
        | invoking current remaining =>
            rcases List.mem_cons.mp hpending with rfl | hmem
            · exact .inl ⟨observer, remaining, hbefore, hhandle⟩
            · exact .inr ⟨_, hbefore, observer, hmem, hhandle⟩
        | completing => cases hpending
      · exact .inl (hsame (by rw [hdispatch, Function.update_of_ne heq]))
  | complete leaver _ _ hdispatch =>
      by_cases heq : t = leaver
      · subst heq
        obtain ⟨observer, rest, hd, _⟩ := hinvoking
        simp [hdispatch] at hd
      · exact .inl (hsame (by rw [hdispatch, Function.update_of_ne heq]))

/-! ### Where a removal gets its descriptors -/

/-- The steps of the other threads leave a call alone, up to `notify_all`. -/
theorem runThread_pc_of_ne {t other : Tid} (hne : other ≠ t)
    (hstep : runThread s t = some next) :
    next.pc other = s.pc other ∨ next.pc other = (s.pc other).notified := by
  unfold runThread at hstep
  cases hpc : s.pc t with
  | idle =>
      simp only [hpc, runDispatch] at hstep
      split at hstep
      · cases hstep
      · exact Option.some.inj hstep ▸ .inl rfl
      · split at hstep <;> exact Option.some.inj hstep ▸ .inl rfl
      · cases hstep
      · rw [Option.some.injEq, State.markDispatchComplete] at hstep
        subst hstep
        split
        · exact .inr rfl
        · exact .inl rfl
  | addFetchId _ _ | addPush _ _ | removeResolve _ _ | postResolve _ _ _ =>
      simp only [hpc, Option.some.injEq] at hstep
      exact .inl (by simp [← hstep, State.goto, State.setObservers, hne])
  | addRegister topic observer =>
      simp only [hpc] at hstep
      split at hstep <;> rw [Option.some.injEq] at hstep <;>
        exact .inl (by simp [← hstep, State.goto, hne])
  | removeErase topicId removal =>
      simp only [hpc] at hstep
      split at hstep <;> rw [Option.some.injEq] at hstep <;>
        exact .inl (by simp [← hstep, State.goto, State.setObservers, hne])
  | waitCheck erased | waitLock erased =>
      simp only [hpc] at hstep
      split at hstep <;> rw [Option.some.injEq] at hstep <;>
        exact .inl (by simp [← hstep, State.goto, State.removeReturn, hne])
  | waitBlocked erased => simp [hpc] at hstep
  | postPush id obj autoCleanupPayload =>
      simp only [hpc] at hstep
      split at hstep <;> rw [Option.some.injEq] at hstep <;>
        exact .inl (by simp [← hstep, State.goto, hne])

omit [DecidableEq Tid] in
theorem pc_of_canCall {t : Tid} (hcan : s.canCall t = true) : s.pc t = .idle := by
  unfold State.canCall at hcan
  split at hcan
  · assumption
  · assumption
  · cases hcan

/-- Nobody else takes a thread past its erase loop. -/
theorem run_of_erase {action : Action Tid} {t : Tid} {topicId : Int} {removal : Removal}
    {erased : List ObserverDescriptor} (hbefore : s.pc t = .removeErase topicId removal)
    (hafter : next.pc t = .waitCheck erased) (hstep : step s action = some next) :
    action = .run t := by
  have hmoved : next.pc t ≠ s.pc t := by simp [hbefore, hafter]
  have hcall : ∀ mover, s.pc mover = .idle → t ≠ mover := by
    rintro mover hidle rfl
    simp [hbefore] at hidle
  cases action with
  | run mover =>
      by_cases heq : t = mover
      · rw [heq]
      · rcases runThread_pc_of_ne heq hstep with hsame | hnotified
        · exact absurd hsame hmoved
        · simp [hbefore, PC.notified, hafter] at hnotified
  | callAdd mover topic callback callbackMethod callbackFunc observerInstance =>
      simp only [step] at hstep
      split at hstep
      · rename_i hcan
        have hne := hcall mover (pc_of_canCall hcan)
        exact absurd (by simp [← Option.some.inj hstep, State.goto, hne]) hmoved
      · cases hstep
  | callRemove mover topic removal' =>
      simp only [step] at hstep
      split at hstep
      · rename_i hcan
        have hne := hcall mover (pc_of_canCall hcan)
        split at hstep <;>
          exact absurd (by simp [← Option.some.inj hstep, State.goto, State.removeReturn, hne])
            hmoved
      · cases hstep
  | callPost mover _ obj autoCleanupPayload | callPostTopic mover _ obj autoCleanupPayload =>
      simp only [step] at hstep
      split at hstep
      · rename_i hcan
        have hne := hcall mover (pc_of_canCall hcan)
        exact absurd (by simp [← Option.some.inj hstep, State.goto, hne]) hmoved
      · cases hstep
  | callDispatch mover id message =>
      simp only [step] at hstep
      split at hstep
      · exact absurd (by rw [← Option.some.inj hstep]) hmoved
      · exact absurd (by rw [← Option.some.inj hstep]; rfl) hmoved
      · cases hstep
  | handlerReturn mover =>
      simp only [step] at hstep
      split at hstep
      · exact absurd (by rw [← Option.some.inj hstep]; rfl) hmoved
      · cases hstep
  | wakeSpuriously mover =>
      simp only [step] at hstep
      split at hstep
      · rename_i hblocked
        have hne : t ≠ mover := by
          rintro rfl
          simp [hbefore] at hblocked
        exact absurd (by simp [← Option.some.inj hstep, State.goto, hne]) hmoved
      · cases hstep

/-- A removal has its descriptors from before the step or from its own erase loop. -/
theorem erased_of_step {action : Action Tid} (hstep : step s action = some next) {t : Tid}
    {observer : ObserverDescriptor} (hmem : observer ∈ (next.pc t).erased) :
    observer ∈ (s.pc t).erased ∨ ∃ topicId removal, action = .run t ∧
      s.pc t = .removeErase topicId removal ∧
        observer ∈ (removal.sweep (s.getObservers topicId)).2 := by
  have hother : ∀ mover pc, next.pc = Function.update s.pc mover pc → pc.erased = [] →
      observer ∈ (s.pc t).erased := by
    intro mover pc hpc hnone
    by_cases heq : t = mover
    · simp [heq, hpc, hnone] at hmem
    · rwa [hpc, Function.update_of_ne heq] at hmem
  cases step_listEffect hstep with
  | none _ _ _ herased => exact .inl (herased t hmem)
  | allocate mover pc _ herased hpc => exact .inl (hother mover pc hpc herased)
  | store mover _ _ _ hpc => exact .inl (hother mover _ hpc rfl)
  | erase mover id removal hbefore hpc =>
      by_cases heq : t = mover
      · subst heq
        have hafter := congrFun hpc t
        rw [Function.update_self] at hafter
        rw [hafter] at hmem
        exact .inr ⟨id, removal, run_of_erase hbefore hafter hstep, hbefore, hmem⟩
      · rw [hpc, Function.update_of_ne heq] at hmem
        exact .inl hmem

/-- A removal that a handler has called is past its erase loop, or has returned:
what it erased is ahead of no loop. -/
structure Passed (s : State Tid) : Prop where
  erased : ∀ t, (s.dispatch t).isSome → ∀ observer ∈ (s.pc t).erased, ∀ other,
    ¬ Ahead s other observer.handle
  returned : ∀ ret ∈ s.removeReturns, ret.inDispatch = true → ∀ observer ∈ ret.erased,
    s.Gone observer.handle ∧ ∀ other, ¬ Ahead s other observer.handle

omit [DecidableEq Tid] in
theorem passed_init : Passed (init : State Tid) := by
  constructor
  · intro t _ observer hmem
    cases hmem
  · intro ret hmem
    cases hmem

/-- A thread inside a call neither enters nor leaves `Dispatch`. -/
theorem dispatch_of_calling (heffect : ControlEffect s next) {t : Tid} (hcall : s.pc t ≠ .idle) :
    next.dispatch t = s.dispatch t := by
  have hne : ∀ mover, s.pc mover = .idle → t ≠ mover :=
    fun mover hidle heq => hcall (heq ▸ hidle)
  cases heffect with
  | none hdispatch | call _ _ hdispatch => rw [hdispatch]
  | start mover _ hidle _ hdispatch | advance mover _ _ hidle _ _ _ _ hdispatch
  | complete mover hidle _ hdispatch => rw [hdispatch, Function.update_of_ne (hne mover hidle)]

/-- An erase loop leaves the dispatches alone. -/
theorem dispatch_of_erase {t : Tid} {topicId : Int} {removal : Removal}
    (hbefore : s.pc t = .removeErase topicId removal) (hstep : step s (.run t) = some next) :
    next.dispatch = s.dispatch := by
  simp only [step, runThread, hbefore] at hstep
  split at hstep <;> exact Option.some.inj hstep ▸ rfl

theorem Passed.step {action : Action Tid} (hpassed : Passed s) (hinv : Inv s)
    (hallowed : ErasesNoneAhead s action) (hstep : EventQueue.step s action = some next) :
    Passed next := by
  have hlists := step_listEffect hstep
  have hcontrol := step_controlEffect hstep
  constructor
  · intro t hinside observer hmem other hahead
    rcases erased_of_step hstep hmem with hbefore | ⟨topicId, removal, rfl, hpc, hswept⟩
    · have hcall : s.pc t ≠ .idle := fun hidle => by simp [hidle, PC.erased] at hbefore
      rw [dispatch_of_calling hcontrol hcall] at hinside
      have hgone := hinv.erasedGone t observer hbefore
      exact hpassed.erased t hinside observer hbefore other (ahead_of_step hgone hcontrol hahead)
    · have hsame := dispatch_of_erase hpc hstep
      rw [hsame] at hinside
      exact hallowed topicId removal hpc hinside observer hswept other
        (hahead.congr (by rw [hsame]))
  · have hold : ∀ ret ∈ s.removeReturns, ret.inDispatch = true → ∀ observer ∈ ret.erased,
        next.Gone observer.handle ∧ ∀ other, ¬ Ahead next other observer.handle := by
      intro ret hmem hinside observer hobserver
      obtain ⟨hgone, hnone⟩ := hpassed.returned ret hmem hinside observer hobserver
      exact ⟨hgone.step hlists,
        fun other hahead => hnone other (ahead_of_step hgone hcontrol hahead)⟩
    intro ret hmem hinside observer hobserver
    cases hcontrol with
    | none _ _ _ _ hreturns | start _ _ _ _ _ _ _ _ hreturns
    | advance _ _ _ _ _ _ _ _ _ _ _ _ hreturns | complete _ _ _ _ _ _ _ hreturns =>
        exact hold ret (hreturns ▸ hmem) hinside observer hobserver
    | call t pc hdispatch _ _ _ _ _ _ hreturn =>
        cases hreturn with
        | none hreturns => exact hold ret (hreturns ▸ hmem) hinside observer hobserver
        | remove erased hreturns hcase =>
            rw [hreturns, List.mem_append, List.mem_singleton] at hmem
            rcases hmem with hmem | rfl
            · exact hold ret hmem hinside observer hobserver
            · rcases hcase with rfl | ⟨rfl, _⟩
              · cases hobserver
              · refine ⟨(hinv.erasedGone t observer hobserver).step hlists, fun other hahead => ?_⟩
                exact hpassed.erased t hinside observer hobserver other
                  (hahead.congr (by rw [hdispatch]))

/-! ### The contract inside handlers -/

/-- What a handler has erased, when its removal has returned, is not called any
more: no later step enters the handler of such a descriptor. -/
def Contract (exec : Execution (machine Tid)) : Prop :=
  ∀ i k, i ≤ k → k < exec.length → ∀ ret ∈ (exec.state i).removeReturns, ret.inDispatch = true →
    ∀ observer ∈ ret.erased, ∀ t, (exec.state (k + 1)).Invoking t observer.handle →
      (exec.state k).Invoking t observer.handle

/-- **A removal made by a handler keeps the contract** where it erases nothing that
a loop has still to come to. -/
theorem contract_of_erasesNoneAhead (exec : Execution (machine Tid))
    (hallowed : exec.Allowed ErasesNoneAhead) : Contract exec := by
  intro i k hik hk ret hmem hinside observer hobserver t hinvoking
  have hkept : ret ∈ (exec.state k).removeReturns := by
    refine exec.carry (P := fun s => ret ∈ s.removeReturns) hik (Nat.le_of_lt hk) hmem ?_
    intro m _ hm hbefore
    exact removeReturns_mono (step_controlEffect (exec.steps m (Nat.lt_trans hm hk))) hbefore
  have hpassed : Passed (exec.state k) := by
    have hreach := exec.reachableUnder hallowed (Nat.le_of_lt hk)
    refine (hreach.invariant (fun s => Inv s ∧ Passed s) ⟨inv_init, passed_init⟩ ?_).2
    rintro s next action ⟨hinv, hpassed⟩ hallowed hstep
    exact ⟨hinv.step hstep, hpassed.step hinv hallowed hstep⟩
  obtain ⟨_, hnone⟩ := hpassed.returned ret hkept hinside observer hobserver
  rcases ahead_of_invoking (step_controlEffect (exec.steps k hk)) hinvoking with hbefore | hahead
  · exact hbefore
  · exact absurd hahead (hnone t)

instance : Inhabited (Action Unit) := ⟨.run ()⟩

/-- Two observers of one topic; the loop passes the first and enters the second,
which removes the first. -/
def removesFirst : List (Action Unit) :=
  [.callAdd () "news" (some 5) none none none, .run (), .run (), .run (),
    .callAdd () "news" (some 6) none none none, .run (), .run (), .run (),
    .callDispatch () 0 (some ⟨0, none, false⟩), .run (), .handlerReturn (), .run (),
    .callRemove () "news" (.byId 1), .run (), .run (), .run (), .handlerReturn ()]

/-- The loop enters the first, which removes the second. -/
def removesSecond : List (Action Unit) :=
  [.callAdd () "news" (some 5) none none none, .run (), .run (), .run (),
    .callAdd () "news" (some 6) none none none, .run (), .run (), .run (),
    .callDispatch () 0 (some ⟨0, none, false⟩), .run (),
    .callRemove () "news" (.byId 2), .run (), .run (), .run (), .handlerReturn (), .run ()]

theorem contract_removesFirst :
    Contract (Execution.ofActions (machine Unit) removesFirst (by decide)) := by
  refine contract_of_erasesNoneAhead _ fun k hk => ?_
  have hk : k < 17 := hk
  by_cases herase : k = 14
  · subst herase
    intro topicId removal hpc _ observer _ other hahead
    obtain ⟨d, hd, observer, hmem, _⟩ := hahead
    cases hd
    cases hmem
  · interval_cases k <;> first
      | trivial
      | exact absurd rfl herase
      | exact fun _ _ hpc => nomatch hpc

/-- **The second observer is called after its removal has returned.** -/
theorem not_contract_removesSecond :
    ¬ ∀ exec : Execution (machine Unit), Contract exec := by
  intro hcontract
  have hinvoked := hcontract (Execution.ofActions (machine Unit) removesSecond (by decide)) 14 15
    (by decide) (by decide) ⟨(), true, [⟨1, 2, some 6, none, none, none⟩]⟩ (.head _) rfl
    ⟨1, 2, some 6, none, none, none⟩ (.head _) () ⟨_, _, rfl, rfl⟩
  obtain ⟨observer, rest, hdispatch, _⟩ := hinvoked
  cases hdispatch

end MessageCenter.EventQueue.HandlerRemoval
