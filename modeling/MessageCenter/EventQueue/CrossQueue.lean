import MessageCenter.EventQueue.Removal
import Mathlib.Tactic.IntervalCases

/-!
# Several queues and one `tl_inDispatch`

Any number of `EventQueue` objects are used by the same threads.  Each object
has its own lists and its own count of dispatches, but `tl_inDispatch` is one
variable of the thread: a removal that is called inside a handler of one queue
skips the wait on every other queue too, while dispatches of that other queue go
on.  The contract of `RemoveObserver` holds where every wait that is skipped so
would have returned at once.
-/

namespace MessageCenter.EventQueue.CrossQueue

open Concurrency

universe u v

/-! ### The queues of a process -/

/-- `queue q` is the state of one object, whose own `tl_inDispatch` is not read;
`calling` and `inside` say in which queue a thread runs a call, and in whose
`Dispatch` it is, innermost first. -/
structure System (Q : Type v) (Tid : Type u) where
  queue : Q → State Tid
  tl_inDispatch : Tid → Bool
  calling : Tid → Option Q
  inside : Tid → List Q

/-- A step of a thread on one queue. -/
structure Action (Q : Type v) (Tid : Type u) where
  on : Q
  act : EventQueue.Action Tid

def Action.thread {Q : Type v} {Tid : Type u} (action : Action Q Tid) : Tid :=
  match action.act with
  | .callAdd t .. | .callRemove t .. | .callPost t .. | .callPostTopic t .. | .callDispatch t ..
  | .run t | .handlerReturn t | .wakeSpuriously t => t

variable {Q : Type v} {Tid : Type u}

def System.init : System Q Tid :=
  ⟨fun _ => EventQueue.init, fun _ => false, fun _ => none, fun _ => []⟩

/-- What a step on `q` sees. -/
def System.load (σ : System Q Tid) (q : Q) : State Tid :=
  { σ.queue q with tl_inDispatch := σ.tl_inDispatch }

/-- The innermost `Dispatch` of `t`, if any, is inside a handler. -/
def System.mayCall (σ : System Q Tid) (t : Tid) : Bool :=
  match σ.inside t with
  | [] => true
  | q :: _ =>
      match (σ.queue q).dispatch t with
      | some (.invoking _ _) => true
      | _ => false

variable [DecidableEq Q] [DecidableEq Tid]

/-- A thread goes on with the call that it runs, or else with its innermost
`Dispatch`; a handler may call into any queue. -/
def System.admits (σ : System Q Tid) (action : Action Q Tid) : Bool :=
  match σ.calling action.thread with
  | some busy => busy = action.on
  | none =>
      match action.act with
      | .run t | .handlerReturn t => (σ.inside t).head? = some action.on
      | _ => σ.mayCall action.thread

def System.store (σ : System Q Tid) (action : Action Q Tid) (s : State Tid) : System Q Tid where
  queue := Function.update σ.queue action.on s
  tl_inDispatch := s.tl_inDispatch
  calling := Function.update σ.calling action.thread
    (if s.pc action.thread = .idle then none else some action.on)
  inside := Function.update σ.inside action.thread
    (match (σ.queue action.on).dispatch action.thread, s.dispatch action.thread with
    | none, some _ => action.on :: σ.inside action.thread
    | some _, none => (σ.inside action.thread).tail
    | _, _ => σ.inside action.thread)

def System.step (σ : System Q Tid) (action : Action Q Tid) : Option (System Q Tid) :=
  if σ.admits action then (EventQueue.step (σ.load action.on) action.act).map (σ.store action)
  else none

def machine (Q : Type v) (Tid : Type u) [DecidableEq Q] [DecidableEq Tid] :
    Machine (System Q Tid) (Action Q Tid) where
  init := System.init
  step := System.step

/-! ### When the wait is skipped -/

/-- A removal that finds `tl_inDispatch` set, outside every dispatch of its own
queue, skips a wait for `m_activeDispatches == 0` that holds already. -/
def SkipsNoDispatch (σ : System Q Tid) (action : Action Q Tid) : Prop :=
  match action.act with
  | .run t =>
      ∀ erased, (σ.queue action.on).pc t = .waitCheck erased →
        (σ.queue action.on).dispatch t = none → σ.tl_inDispatch t = true →
          (σ.queue action.on).m_activeDispatches = 0
  | _ => True

/-- Once a removal made outside the dispatches of its queue has returned, no thread
is or will be inside a handler that it erased. -/
def Contract (exec : Execution (machine Q Tid)) : Prop :=
  ∀ i j, i ≤ j → j ≤ exec.length → ∀ q, ∀ ret ∈ ((exec.state i).queue q).removeReturns,
    ret.inDispatch = false → ∀ observer ∈ ret.erased, ∀ t,
      ¬ ((exec.state j).queue q).Invoking t observer.handle

/-! ### One queue among several -/

/-- What holds of a queue whatever the threads do on the others. -/
structure QueueInv (s : State Tid) : Prop where
  placed : Placed s
  erasedGone : ErasedGone s
  counts : CountsActive s
  settled : Settled s

variable {s next : State Tid}

omit [DecidableEq Q] [DecidableEq Tid] in
theorem queueInv_init : QueueInv (EventQueue.init : State Tid) :=
  ⟨inv_init.placed, inv_init.erasedGone, counted_init.active, inv_init.settled⟩

omit [DecidableEq Tid] in
/-- The flag of the threads is no part of it. -/
theorem QueueInv.withFlag (hinv : QueueInv s) (flag : Tid → Bool) :
    QueueInv { s with tl_inDispatch := flag } where
  placed := ⟨hinv.placed.1, hinv.placed.2, hinv.placed.3, hinv.placed.4, hinv.placed.5⟩
  erasedGone t observer hmem :=
    have hgone := hinv.erasedGone t observer hmem
    ⟨hgone.1, hgone.2, hgone.3⟩
  counts := hinv.counts
  settled ret hmem houtside observer hobserver :=
    have hsettled := hinv.settled ret hmem houtside observer hobserver
    ⟨⟨hsettled.1.1, hsettled.1.2, hsettled.1.3⟩, hsettled.2⟩

omit [DecidableEq Q] [DecidableEq Tid] in
theorem last_return {returns : List (RemoveReturn Tid)} {ret other : RemoveReturn Tid}
    (hreturn : returns ++ [ret] = returns ++ [other]) : ret = other := by
  simpa using hreturn

theorem runThread_return {mover t : Tid} {inside : Bool} {erased : List ObserverDescriptor}
    (hreturn : next.removeReturns = s.removeReturns ++ [⟨t, inside, erased⟩])
    (hstep : runThread s mover = some next) :
    mover = t ∧ s.pc t = .waitCheck erased ∧ s.tl_inDispatch t = true ∨
      s.m_activeDispatches = 0 := by
  have hgrows : next.removeReturns ≠ s.removeReturns := fun hsame => by
    simp [hsame] at hreturn
  unfold runThread at hstep
  cases hpc : s.pc mover with
  | idle =>
      simp only [hpc, runDispatch] at hstep
      split at hstep
      · cases hstep
      · exact absurd (Option.some.inj hstep ▸ rfl) hgrows
      · split at hstep <;> exact absurd (Option.some.inj hstep ▸ rfl) hgrows
      · cases hstep
      · rw [Option.some.injEq, State.markDispatchComplete] at hstep
        split at hstep <;> exact absurd (hstep ▸ rfl) hgrows
  | waitCheck waiting =>
      simp only [hpc] at hstep
      split at hstep <;> rw [Option.some.injEq] at hstep <;> subst hstep
      · rename_i htl
        obtain ⟨rfl, -, rfl⟩ := RemoveReturn.mk.inj (last_return hreturn)
        exact .inl ⟨rfl, hpc, htl⟩
      · exact absurd rfl hgrows
  | waitLock waiting =>
      simp only [hpc] at hstep
      split at hstep <;> rw [Option.some.injEq] at hstep <;> subst hstep
      · rename_i hzero
        exact .inr hzero
      · exact absurd rfl hgrows
  | waitBlocked waiting => simp [hpc] at hstep
  | addFetchId _ _ | addPush _ _ | removeResolve _ _ | postResolve _ _ _ =>
      simp only [hpc, Option.some.injEq] at hstep
      exact absurd (hstep ▸ rfl) hgrows
  | addRegister topic observer =>
      simp only [hpc] at hstep
      split at hstep <;> exact absurd (Option.some.inj hstep ▸ rfl) hgrows
  | removeErase topicId removal =>
      simp only [hpc] at hstep
      split at hstep <;> exact absurd (Option.some.inj hstep ▸ rfl) hgrows
  | postPush id obj autoCleanupPayload =>
      simp only [hpc] at hstep
      split at hstep <;> exact absurd (Option.some.inj hstep ▸ rfl) hgrows

/-- A removal returns with descriptors where it skips the wait or need not wait. -/
theorem run_of_return {action : EventQueue.Action Tid} {t : Tid} {inside : Bool}
    {observer : ObserverDescriptor} {erased : List ObserverDescriptor}
    (hreturn : next.removeReturns = s.removeReturns ++ [⟨t, inside, erased⟩])
    (hmem : observer ∈ erased) (hstep : EventQueue.step s action = some next) :
    action = .run t ∧ s.pc t = .waitCheck erased ∧ s.tl_inDispatch t = true ∨
      s.m_activeDispatches = 0 := by
  have hgrows : next.removeReturns ≠ s.removeReturns := fun hsame => by
    simp [hsame] at hreturn
  cases action with
  | run mover =>
      rcases runThread_return hreturn hstep with ⟨rfl, hpc, htl⟩ | hzero
      · exact .inl ⟨rfl, hpc, htl⟩
      · exact .inr hzero
  | callRemove mover topic removal =>
      simp only [EventQueue.step] at hstep
      split at hstep
      · split at hstep <;> rw [Option.some.injEq] at hstep <;> subst hstep
        · obtain ⟨-, -, rfl⟩ := RemoveReturn.mk.inj (last_return hreturn)
          cases hmem
        · exact absurd rfl hgrows
      · cases hstep
  | callAdd _ _ _ _ _ _ | callPost _ _ _ _ | callPostTopic _ _ _ _ =>
      simp only [EventQueue.step] at hstep
      split at hstep
      · exact absurd (Option.some.inj hstep ▸ rfl) hgrows
      · cases hstep
  | callDispatch mover id message =>
      simp only [EventQueue.step] at hstep
      split at hstep
      · exact absurd (Option.some.inj hstep ▸ rfl) hgrows
      · exact absurd (Option.some.inj hstep ▸ rfl) hgrows
      · cases hstep
  | handlerReturn mover | wakeSpuriously mover =>
      simp only [EventQueue.step] at hstep
      split at hstep
      · exact absurd (Option.some.inj hstep ▸ rfl) hgrows
      · cases hstep

/-- A step on a queue that skips no dispatch keeps what holds of it. -/
theorem QueueInv.step {action : EventQueue.Action Tid} (hinv : QueueInv s)
    (hskips : ∀ t erased, action = .run t → s.pc t = .waitCheck erased → s.dispatch t = none →
      s.tl_inDispatch t = true → s.m_activeDispatches = 0)
    (hstep : EventQueue.step s action = some next) : QueueInv next := by
  have hlists := step_listEffect hstep
  have hcontrol := step_controlEffect hstep
  refine ⟨hinv.placed.step hlists, hinv.erasedGone.step hinv.placed hlists,
    hinv.counts.step hcontrol, ?_⟩
  refine hinv.settled.step_of hinv.erasedGone hlists hcontrol ?_
  intro t hreturn houtside _ observer hmem other
  -- Whether the wait is skipped or over, no dispatch of this queue is going on.
  have hzero : s.m_activeDispatches = 0 := by
    rcases run_of_return hreturn hmem hstep with ⟨hrun, hpc, htl⟩ | hzero
    · exact hskips t _ hrun hpc (by simpa using houtside) htl
    · exact hzero
  rintro ⟨d, hd, _⟩
  rw [hinv.counts.dispatch_eq_none hzero other] at hd
  cases hd

/-! ### All queues together -/

variable {σ τ : System Q Tid}

/-- A step on one queue leaves the others alone, up to the flag. -/
theorem queueInv_of_step {action : Action Q Tid} (hinv : ∀ q, QueueInv (σ.load q))
    (hskips : SkipsNoDispatch σ action) (hstep : σ.step action = some τ) (q : Q) :
    QueueInv (τ.load q) := by
  unfold System.step at hstep
  split at hstep
  · obtain ⟨next, hnext, rfl⟩ := Option.map_eq_some_iff.mp hstep
    by_cases heq : q = action.on
    · subst heq
      have hloaded : (σ.store action next).load action.on = next := by
        simp [System.store, System.load]
      rw [hloaded]
      refine (hinv action.on).step ?_ hnext
      intro t erased hrun
      simp only [SkipsNoDispatch, hrun] at hskips
      exact hskips erased
    · have hloaded : (σ.store action next).load q =
          { σ.load q with tl_inDispatch := next.tl_inDispatch } := by
        simp [System.store, System.load, heq]
      rw [hloaded]
      exact (hinv q).withFlag _
  · cases hstep

theorem removeReturns_of_step {action : Action Q Tid} (hstep : σ.step action = some τ) (q : Q) :
    (σ.queue q).removeReturns ⊆ (τ.queue q).removeReturns := by
  unfold System.step at hstep
  split at hstep
  · obtain ⟨next, hnext, rfl⟩ := Option.map_eq_some_iff.mp hstep
    by_cases heq : q = action.on
    · subst heq
      have hmono := removeReturns_mono (step_controlEffect hnext)
      simpa [System.store, System.load] using hmono
    · simp [System.store, heq]
  · cases hstep

/-- **A removal on one queue, called by a handler of another, keeps the contract**
where no dispatch of its own queue is going on. -/
theorem contract_of_skipsNoDispatch (exec : Execution (machine Q Tid))
    (hallowed : exec.Allowed SkipsNoDispatch) : Contract exec := by
  intro i j hij hj q ret hmem houtside observer hobserver t hinvoking
  have hkept : ret ∈ ((exec.state j).queue q).removeReturns := by
    refine exec.carry (P := fun σ => ret ∈ (σ.queue q).removeReturns) hij hj hmem ?_
    intro k _ hk hbefore
    exact removeReturns_of_step (exec.steps k (Nat.lt_of_lt_of_le hk hj)) q hbefore
  have hinv : QueueInv ((exec.state j).load q) := by
    have hreach := exec.reachableUnder hallowed hj
    refine hreach.invariant (fun σ => ∀ q, QueueInv (σ.load q)) ?_ ?_ q
    · exact fun _ => queueInv_init
    · intro σ τ action hinv hskips hstep
      exact queueInv_of_step hinv hskips hstep
  exact (hinv.settled ret hkept houtside observer hobserver).2 t hinvoking.pending

instance : Inhabited (Action Bool Bool) := ⟨⟨false, .run false⟩⟩

/-- Thread `false` is inside a handler of queue `false`, thread `true` inside one of
queue `true`. -/
def bothInside : List (Action Bool Bool) :=
  [⟨false, .callAdd false "a" (some 5) none none none⟩, ⟨false, .run false⟩, ⟨false, .run false⟩,
    ⟨false, .run false⟩, ⟨true, .callAdd true "b" (some 6) none none none⟩, ⟨true, .run true⟩,
    ⟨true, .run true⟩, ⟨true, .run true⟩,
    ⟨false, .callDispatch false 0 (some ⟨0, none, false⟩)⟩, ⟨false, .run false⟩,
    ⟨true, .callDispatch true 0 (some ⟨0, none, false⟩)⟩, ⟨true, .run true⟩]

/-- Thread `false` removes the handler of queue `true`. -/
def removes : List (Action Bool Bool) :=
  [⟨true, .callRemove false "b" (.byId 1)⟩, ⟨true, .run false⟩, ⟨true, .run false⟩,
    ⟨true, .run false⟩]

/-- The removal comes after the dispatch of the other thread has returned. -/
theorem contract_dispatchReturned :
    Contract (Execution.ofActions (machine Bool Bool)
      (bothInside ++ [⟨true, .handlerReturn true⟩, ⟨true, .run true⟩, ⟨true, .run true⟩] ++ removes)
      (by decide)) := by
  refine contract_of_skipsNoDispatch _ fun k hk => ?_
  have hk : k < 19 := hk
  by_cases hcheck : k = 18
  · subst hcheck
    intro erased _ _ _
    rfl
  · interval_cases k <;> first
      | trivial
      | exact absurd rfl hcheck
      | exact fun _ hpc => nomatch hpc

/-- **The removal returns while the other thread is inside the handler.** -/
theorem not_contract_handlerRunning :
    ¬ ∀ exec : Execution (machine Bool Bool), Contract exec := by
  intro hcontract
  exact hcontract (Execution.ofActions (machine Bool Bool) (bothInside ++ removes) (by decide))
    16 16 (by decide) (by decide) true
    ⟨false, false, [⟨0, 1, some 6, none, none, none⟩]⟩ (.head _) rfl
    ⟨0, 1, some 6, none, none, none⟩ (.head _) true ⟨_, _, rfl, rfl⟩

end MessageCenter.EventQueue.CrossQueue
