import MessageCenter.MessageCenterFast.Drain
import MessageCenter.MpmcQueue.Progress

/-!
# When `stop` drains everything

A post that returned true before `stop` was called is lost in one case only: the last `try_pop` of
the second loop finds a position whose producer has not stored `seq` yet, and the message of that
post lies behind it.  As long as no such position is looked at, what `stop` leaves behind was not
posted before.
-/

namespace MessageCenter.MessageCenterFast.Shutdown

open Concurrency MPMCQueue PositionLog

variable {Tid : Type} {c next : State Tid} {s s' : MPMCQueue.State (Thread Tid) Nat}

/-- The second loop looks at no position whose producer is stalled before its `seq` store while the
message of a post that had returned before `stop` is at a later one. -/
def NoStalledPost (state : State Tid × MPMCQueue.State (Thread Tid) Nat) :
    Observed.Joint (Action Tid) (MPMCQueue.Action (Thread Tid) Nat) → Prop
  | .object (.run .dispatcher _) => ∀ before head, state.1.control = .stopJoin before →
      state.1.m_dispatchThread = some (.popping true) →
      state.2.pc .dispatcher = .popLoadSeq head → (∃ producer, state.2.Pushing producer head) →
      ∀ claim ∈ state.2.pushClaims, claim.item ∈ before → claim.pos ≤ head
  | _ => True

/-! ### The end of the second loop -/

/-- The last `try_pop` of the second loop has answered "empty". -/
def LastPopFailed (c : State Tid) (s : MPMCQueue.State (Thread Tid) Nat) : Prop :=
  c.m_dispatchThread = some .finished ∨
    c.m_dispatchThread = some (.popping true) ∧ s.pc .dispatcher = .popReturned none

/-- What `stop` was to drain is dispatched as soon as the second loop has ended. -/
structure AllDispatched (c : State Tid) (s : MPMCQueue.State (Thread Tid) Nat) : Prop where
  joining : ∀ before, c.control = .stopJoin before → LastPopFailed c s →
    ∀ msg ∈ before, msg ∈ c.dispatched
  joined : ∀ before, c.control = .stopRunning before → ∀ msg ∈ before, msg ∈ c.dispatched
  stopped : ∀ before, c.stopped = some before → ∀ msg ∈ before, msg ∈ c.dispatched

theorem allDispatched_init : AllDispatched (init : State Tid) MPMCQueue.init where
  joining _ hcontrol := by cases hcontrol
  joined _ hcontrol := by cases hcontrol
  stopped _ hstopped := by cases hstopped

/-- The thread that calls `stop` has not moved. -/
theorem AllDispatched.same (h : AllDispatched c s) (hcontrol : next.control = c.control)
    (hstopped : next.stopped = c.stopped) (hdispatched : c.dispatched ⊆ next.dispatched)
    (hended : LastPopFailed next s' → LastPopFailed c s) : AllDispatched next s' where
  joining before hjoin hfailed msg hmem :=
    hdispatched (h.joining before (hcontrol ▸ hjoin) (hended hfailed) msg hmem)
  joined before hjoined msg hmem := hdispatched (h.joined before (hcontrol ▸ hjoined) msg hmem)
  stopped before hbefore msg hmem := hdispatched (h.stopped before (hstopped ▸ hbefore) msg hmem)

/-- No `stop` is on its way past the join. -/
theorem AllDispatched.elsewhere (h : AllDispatched c s)
    (hjoin : ∀ before, next.control ≠ .stopJoin before)
    (hrunning : ∀ before, next.control ≠ .stopRunning before)
    (hstopped : ∀ before, next.stopped = some before → c.stopped = some before)
    (hdispatched : next.dispatched = c.dispatched) : AllDispatched next s' where
  joining before hcontrol := absurd hcontrol (hjoin before)
  joined before hcontrol := absurd hcontrol (hrunning before)
  stopped before hbefore := hdispatched ▸ h.stopped before (hstopped before hbefore)

theorem LastPopFailed.draining (h : LastPopFailed c s) :
    ∃ pc, c.m_dispatchThread = some pc ∧ pc.draining = true := by
  rcases h with hthread | ⟨hthread, -⟩
  · exact ⟨_, hthread, rfl⟩
  · exact ⟨_, hthread, rfl⟩

/-- The dispatch thread is elsewhere. -/
theorem not_lastPopFailed {pc : LoopPc} (hthread : c.m_dispatchThread = some pc)
    (hfinished : pc ≠ .finished) (hpopping : pc ≠ .popping true) : ¬LastPopFailed c s := by
  rintro (h | ⟨h, -⟩)
  · exact hfinished (Option.some.inj (hthread.symm.trans h))
  · exact hpopping (Option.some.inj (hthread.symm.trans h))

section Steps

variable [DecidableEq Tid]

/-! ### Steps of the program -/

omit [DecidableEq Tid] in
/-- A step of `start` or `stop`. -/
theorem AllDispatched.control (h : AllDispatched c s) {a : Queue Tid} (hinv : Inv c a)
    (hcontrol : Shutdown.control c = some next) : AllDispatched next s := by
  unfold Shutdown.control at hcontrol
  cases hpc : c.control with
  | idle => simp [hpc] at hcontrol
  | startTest | stopTest _ =>
      simp only [hpc, Option.some.injEq] at hcontrol
      subst hcontrol
      refine h.elsewhere (fun before => ?_) (fun before => ?_) (fun _ => id) rfl <;>
        dsimp only <;> split <;> simp
  | startStopping | startRunning =>
      simp only [hpc, Option.some.injEq] at hcontrol
      subst hcontrol
      exact h.elsewhere (by simp) (by simp) (fun _ => id) rfl
  | startThread =>
      simp only [hpc, Option.some.injEq] at hcontrol
      subst hcontrol
      exact h.elsewhere (by simp) (by simp) (by simp) rfl
  | stopStopping waiting =>
      simp only [hpc, Option.some.injEq] at hcontrol
      subst hcontrol
      refine ⟨fun before _ hfailed => ?_, fun _ hjoined => (by cases hjoined), h.stopped⟩
      -- the second loop begins only when `m_stopping` is set
      obtain ⟨pc, hthread, hdraining⟩ := hfailed.draining
      obtain ⟨other, hjoin⟩ := hinv.control.draining pc hthread hdraining
      rw [hpc] at hjoin
      cases hjoin
  | stopJoin waiting =>
      have hat := hinv.control.control
      rw [hpc] at hat
      simp only [hpc] at hcontrol
      split at hcontrol
      · next hnone => exact absurd hnone hat.1
      · next hfinished =>
        obtain rfl := Option.some.inj hcontrol
        refine ⟨fun _ hjoin => (by cases hjoin), fun before hjoined => ?_, h.stopped⟩
        obtain rfl := ControlPc.stopRunning.inj hjoined
        exact h.joining waiting hpc (Or.inl hfinished)
      · cases hcontrol
  | stopRunning waiting =>
      simp only [hpc, Option.some.injEq] at hcontrol
      subst hcontrol
      refine ⟨fun _ hjoin => (by cases hjoin), fun _ hjoined => (by cases hjoined),
        fun before hstopped => ?_⟩
      obtain rfl := Option.some.inj hstopped
      exact h.joined waiting hpc

omit [DecidableEq Tid] in
theorem AllDispatched.dispatchLoop (h : AllDispatched c s)
    (hloop : Shutdown.dispatchLoop c = some next) : AllDispatched next s := by
  unfold Shutdown.dispatchLoop at hloop
  split at hloop
  · obtain rfl := Option.some.inj hloop
    exact h.same rfl rfl (List.Subset.refl _) fun hfailed =>
      absurd hfailed (not_lastPopFailed rfl (by simp) (by simp))
  · split at hloop
    · obtain rfl := Option.some.inj hloop
      exact h.same rfl rfl (List.subset_append_left ..) fun hfailed =>
        absurd hfailed (not_lastPopFailed rfl (by simp) (by simp))
    · cases hloop
  · next drain hthread =>
    obtain rfl := Option.some.inj hloop
    refine h.same rfl rfl (List.Subset.refl _) fun hfailed =>
      absurd hfailed (not_lastPopFailed rfl ?_ ?_) <;> cases drain <;> simp
  · cases hloop

theorem AllDispatched.program_step (h : AllDispatched c s) {a : Queue Tid} (hinv : Inv c a)
    {action : Action Tid} (hlabel : label c action = none) (hstep : step c action = some next) :
    AllDispatched next s := by
  cases action with
  | post t topicId acquired =>
      simp only [step] at hstep
      split at hstep
      · split at hstep <;> obtain rfl := Option.some.inj hstep <;>
          exact h.same rfl rfl (List.Subset.refl _) id
      · cases hstep
  | push t =>
      simp only [step] at hstep
      split at hstep
      · next msg hpc => simp [label, hpc] at hlabel
      · cases hstep
  | pushed t ok => cases hlabel
  | run t =>
      simp only [step, runPost] at hstep
      split at hstep
      · obtain rfl := Option.some.inj hstep
        exact h.same rfl rfl (List.Subset.refl _) id
      · obtain rfl := Option.some.inj hstep
        exact h.same rfl rfl (List.Subset.refl _) id
      · cases hstep
  | loop => exact h.dispatchLoop hstep
  | pop => cases hlabel
  | popped item => cases hlabel
  | start | stop =>
      simp only [step] at hstep
      split at hstep
      · obtain rfl := Option.some.inj hstep
        exact h.elsewhere (by simp) (by simp) (fun _ => id) rfl
      · cases hstep
  | control => exact h.control hinv hstep

/-! ### Steps of the ring -/

/-- A thread that calls the ring is in no other call. -/
theorem idle_of_call {C : Nat} {action : MPMCQueue.Action (Thread Tid) Nat} {t : Thread Tid}
    {op : Op Nat} (hlabel : MPMCQueue.label s action = some (.call t op))
    (hstep : MPMCQueue.step C s action = some s') : s.pc t = .idle := by
  cases action with
  | callPush u item | callPop u =>
      cases hlabel
      simp only [MPMCQueue.step] at hstep
      split at hstep
      · assumption
      · cases hstep
  | run u spurious => cases hlabel
  | ret u =>
      simp only [MPMCQueue.label] at hlabel
      split at hlabel <;> cases hlabel

omit [DecidableEq Tid] in
/-- The result that a caller gets is that of its pop. -/
theorem popReturned_of_ret {action : MPMCQueue.Action (Thread Tid) Nat} {t : Thread Tid}
    {item : Option (Option Nat)}
    (hlabel : MPMCQueue.label s action = some (.ret t (.popped item))) :
    s.pc t = .popReturned item := by
  cases action with
  | callPush u item | callPop u | run u spurious => cases hlabel
  | ret u =>
      simp only [MPMCQueue.label] at hlabel
      split at hlabel
      · cases hlabel
      · cases hlabel
        assumption
      · cases hlabel

/-- A call or a return leaves no pop behind that has answered "empty". -/
theorem popReturned_of_shown {C : Nat} {event : CallEvent (Thread Tid) Nat}
    {action : MPMCQueue.Action (Thread Tid) Nat} {t : Thread Tid}
    (hlabel : MPMCQueue.label s action = some event)
    (hstep : MPMCQueue.step C s action = some s') (hpc : s'.pc t = .popReturned none) :
    s.pc t = .popReturned none := by
  have hgoto : ∀ (u : Thread Tid) (pc : PC Nat), pc ≠ .popReturned none → s' = s.goto u pc →
      s.pc t = .popReturned none := by
    rintro u pc hne rfl
    by_cases heq : t = u
    · rw [heq, State.goto_pc_self] at hpc
      exact absurd hpc hne
    · rwa [State.goto_pc_other _ _ _ heq] at hpc
  cases action with
  | run u spurious => cases hlabel
  | callPush u item =>
      simp only [MPMCQueue.step] at hstep
      split at hstep
      · exact hgoto u _ (by simp) (Option.some.inj hstep).symm
      · cases hstep
  | callPop u =>
      simp only [MPMCQueue.step] at hstep
      split at hstep
      · exact hgoto u _ (by simp) (Option.some.inj hstep).symm
      · cases hstep
  | ret u =>
      simp only [MPMCQueue.step] at hstep
      split at hstep
      · exact hgoto u _ (by simp) (Option.some.inj hstep).symm
      · exact hgoto u _ (by simp) (Option.some.inj hstep).symm
      · cases hstep

omit [DecidableEq Tid] in
/-- A load of the second loop that finds nothing: what `stop` was to drain is dispatched. -/
theorem Inv.dispatched_of_pop_fails {k : Nat} (h : Inv c s.atomic)
    (hring : MPMCQueue.Inv (2 ^ k) s) {before : List Nat} {head : Nat}
    (hcontrol : c.control = .stopJoin before)
    (hthread : c.m_dispatchThread = some (.popping true))
    (hpc : s.pc .dispatcher = .popLoadSeq head) (hseq : (s.slot (2 ^ k) head).seq < head + 1)
    (hpeer : (∃ producer, s.Pushing producer head) →
      ∀ claim ∈ s.pushClaims, claim.item ∈ before → claim.pos ≤ head) :
    ∀ msg ∈ before, msg ∈ c.dispatched := by
  have hhead := hring.threads .dispatcher
  rw [hpc] at hhead
  obtain ⟨rfl, hcase⟩ := hring.unpublished_of_pop_fails hhead hseq
  have hat := h.control.control
  rw [hcontrol] at hat
  intro msg hmem
  have hreturned := hat.2.1 msg hmem
  have hline := h.posts.returned msg hreturned
  have hphase : s.atomic.phase .dispatcher = .called .tryPop := by
    simp only [State.atomic, hpc, phase]
  have hleft : s.atomic.items.map Prod.snd = s.queued := s.entries_snd
  simp only [State.line, State.inHand, hthread, hphase, got, hleft, List.append_nil] at hline
  refine (List.mem_append.mp hline).resolve_right fun hqueued => ?_
  obtain ⟨claim, hclaim, rfl⟩ := List.mem_map.mp hqueued
  have hclaimed := List.mem_of_mem_drop hclaim
  have hge := hring.pushNumbered.le_of_mem_drop hclaim
  have hlt := hring.pushNumbered.pos_lt hclaimed
  rcases hcase with hempty | ⟨producer, hpushing⟩
  · omega
  · -- the claim is that of the stalled producer, whose post has not returned
    have hpos : claim.pos = s.m_head :=
      Nat.le_antisymm (hpeer ⟨producer, hpushing⟩ claim hclaimed hmem) hge
    obtain ⟨-, -, -, item, hown⟩ := hring.pushing_spec hpushing
    obtain rfl := hring.pushNumbered.eq_of_pos_eq hclaimed hown hpos
    have hmark : (s.entry ⟨producer, s.m_head, item⟩).1 = some producer := if_pos hpushing.pushing
    have hpost := (h.marked _ (List.mem_map_of_mem hclaim) producer hmark).1
    exact h.posts.not_returned producer item (by rw [hpost]; rfl) hreturned

/-- A step inside the ring. -/
theorem AllDispatched.object_step {k : Nat} (h : AllDispatched c s) (hinv : Inv c s.atomic)
    (hring : MPMCQueue.Inv (2 ^ k) s) {action : MPMCQueue.Action (Thread Tid) Nat}
    (hallowed : NoStalledPost (c, s) (.object action))
    (hlabel : MPMCQueue.label s action = none)
    (hstep : MPMCQueue.step (2 ^ k) s action = some s') : AllDispatched c s' := by
  refine ⟨fun before hcontrol hfailed => ?_, h.joined, h.stopped⟩
  rcases hfailed with hfinished | ⟨hthread, hpc⟩
  · exact h.joining before hcontrol (Or.inl hfinished)
  · cases action with
    | callPush t item | callPop t => cases hlabel
    | ret t =>
        simp only [MPMCQueue.step] at hstep
        simp only [MPMCQueue.label] at hlabel
        split at hstep <;> simp_all
    | run t spurious =>
        by_cases heq : t = .dispatcher
        · subst heq
          obtain ⟨head, hload, hseq⟩ := runThread_pop_fails hstep hpc
          exact hinv.dispatched_of_pop_fails hring hcontrol hthread hload hseq
            (hallowed before head hcontrol hthread hload)
        · rw [step_other hstep (Ne.symm heq)] at hpc
          exact h.joining before hcontrol (Or.inr ⟨hthread, hpc⟩)

/-- A call of the ring, or its return. -/
theorem AllDispatched.joint_step {C : Nat} (h : AllDispatched c s) {action : Action Tid}
    {action' : MPMCQueue.Action (Thread Tid) Nat} {event : CallEvent (Thread Tid) Nat}
    (hlabel : label c action = some event) (hlabel' : MPMCQueue.label s action' = some event)
    (hstep : step c action = some next) (hstep' : MPMCQueue.step C s action' = some s') :
    AllDispatched next s' := by
  -- while the thread stays where it is, its pop has failed before
  have hthere : next.m_dispatchThread = c.m_dispatchThread → LastPopFailed next s' →
      LastPopFailed c s := by
    rintro hsame (hfinished | ⟨hthread, hpc⟩)
    · exact Or.inl (hsame ▸ hfinished)
    · exact Or.inr ⟨hsame ▸ hthread, popReturned_of_shown hlabel' hstep' hpc⟩
  cases action with
  | post _ _ _ | run _ | loop | start | stop | control => cases hlabel
  | push t =>
      simp only [step] at hstep
      split at hstep
      · obtain rfl := Option.some.inj hstep
        exact h.same rfl rfl (List.Subset.refl _) (hthere rfl)
      · cases hstep
  | pushed t ok =>
      simp only [step] at hstep
      split at hstep
      · obtain rfl := Option.some.inj hstep
        exact h.same rfl rfl (List.Subset.refl _) (hthere rfl)
      · cases hstep
  | pop =>
      obtain rfl := Option.some.inj hlabel
      have hidle : s.pc .dispatcher = .idle := idle_of_call hlabel' hstep'
      simp only [step] at hstep
      split at hstep
      · next drain hthread =>
        obtain rfl := Option.some.inj hstep
        refine h.same rfl rfl (List.Subset.refl _) fun hfailed => ?_
        rcases hfailed with hfinished | ⟨-, hpc⟩
        · cases hfinished
        · rw [popReturned_of_shown hlabel' hstep' hpc] at hidle
          cases hidle
      · cases hstep
  | popped item =>
      obtain rfl := Option.some.inj hlabel
      have hpc : s.pc .dispatcher = .popReturned item := popReturned_of_ret hlabel'
      simp only [step, Shutdown.popped] at hstep
      split at hstep
      · obtain rfl := Option.some.inj hstep
        exact h.same rfl rfl (List.Subset.refl _) fun hfailed =>
          absurd hfailed (not_lastPopFailed rfl (by simp) (by simp))
      · next drain hthread =>
        obtain rfl := Option.some.inj hstep
        refine h.same rfl rfl (List.Subset.refl _) fun hfailed => ?_
        cases drain with
        | true => exact Or.inr ⟨hthread, hpc⟩
        | false => exact absurd hfailed (not_lastPopFailed rfl (by simp) (by simp))
      · cases hstep

/-! ### Runs -/

theorem reachable_allDispatched {k : Nat} (hk : 1 ≤ k)
    (hreach : ((program Tid).runOver
      (observedRing (Thread Tid) Nat (2 ^ k))).ReachableUnder NoStalledPost (c, s)) :
    AllDispatched c s := by
  let machine := (program Tid).runOver (observedRing (Thread Tid) Nat (2 ^ k))
  refine (hreach.invariant
    (fun state => machine.Reachable state ∧ AllDispatched state.1 state.2)
    ⟨Machine.ReachableUnder.init, allDispatched_init⟩ ?_).2
  rintro ⟨c, s⟩ ⟨next, s'⟩ action ⟨hreach, h⟩ hallowed hstep
  refine ⟨hreach.next hstep, ?_⟩
  obtain ⟨a, hatomic, hring, rfl⟩ := (simulation hk).reachable_runOver hreach
  have hinv := reachable_inv hatomic
  change Observed.jointStep (program Tid) (observedRing (Thread Tid) Nat (2 ^ k)) (c, s) action =
    some (next, s') at hstep
  cases action with
  | program action =>
      obtain ⟨hlabel, hprogram, rfl⟩ := Observed.jointStep_program hstep
      exact h.program_step hinv hlabel hprogram
  | object action =>
      obtain ⟨hlabel, hobject, rfl⟩ := Observed.jointStep_object hstep
      exact h.object_step hinv hring hallowed hlabel hobject
  | both action action' =>
      obtain ⟨event, hlabel, hlabel', hprogram, hobject⟩ := Observed.jointStep_both hstep
      exact h.joint_step hlabel hlabel' hprogram hobject

omit [DecidableEq Tid] in
/-- By the time that `stop` has returned, each message whose post had returned true before it was
called has been dispatched exactly once. -/
def State.StopDrains (c : State Tid) : Prop :=
  ∀ before, c.stopped = some before → ∀ msg ∈ before, c.dispatched.count msg = 1

/-- **`stop` drains.**  Over the ring itself and in any interleaving whose second loop looks at no
stalled post in front of what it has to drain. -/
theorem stopDrains_of_noStalledPost {k : Nat} (hk : 1 ≤ k)
    (hreach : ((program Tid).runOver
      (observedRing (Thread Tid) Nat (2 ^ k))).ReachableUnder NoStalledPost (c, s)) :
    c.StopDrains := by
  intro before hstopped msg hmem
  obtain ⟨a, hatomic, -, rfl⟩ := (simulation hk).reachable_runOver hreach.reachable
  have hline := (reachable_inv hatomic).posts.nodup
  rw [State.line, List.append_assoc] at hline
  exact List.count_eq_one_of_mem hline.of_append_left
    ((reachable_allDispatched hk hreach).stopped before hstopped msg hmem)

end Steps

/-- What is to be drained is claimed at no position behind the one that the second loop loads. -/
def loadsLast (state : State Bool × MPMCQueue.State (Thread Bool) Nat) :
    Observed.Joint (Action Bool) (MPMCQueue.Action (Thread Bool) Nat) → Bool
  | .object (.run .dispatcher _) =>
      match state.1.control, state.2.pc .dispatcher with
      | .stopJoin before, .popLoadSeq head =>
          state.2.pushClaims.all fun claim => claim.item ∉ before || claim.pos ≤ head
      | _, _ => true
  | _ => true

theorem noStalledPost_of_loadsLast
    {state : State Bool × MPMCQueue.State (Thread Bool) Nat}
    {action : Observed.Joint (Action Bool) (MPMCQueue.Action (Thread Bool) Nat)}
    (hcheck : loadsLast state action = true) : NoStalledPost state action := by
  unfold NoStalledPost
  split
  · next spurious =>
    intro before head hcontrol _ hpc _ claim hclaim hmem
    simp only [loadsLast, hcontrol, hpc, List.all_eq_true] at hcheck
    simpa [hmem] using hcheck claim hclaim
  · trivial

/-- Post 0 is dispatched by the first loop and post 1 by the second, which ends at the position of
post 2: that stands between its compare-exchange and its `seq` store when `stop` is called. -/
def stoppedBeforePost : List (Observed.Joint (Action Bool) (MPMCQueue.Action (Thread Bool) Nat)) :=
  let Steps := List (Observed.Joint (Action Bool) (MPMCQueue.Action (Thread Bool) Nat))
  let post (t : Bool) (msg steps : Nat) : Steps :=
    [.program (.post (.poster t) 5 true), .both (.push (.poster t)) (.callPush (.poster t) msg)] ++
      List.replicate steps (.object (.run (.poster t) false))
  let returned (t : Bool) : Steps :=
    [.both (.pushed (.poster t) true) (.ret (.poster t)), .program (.run (.poster t)),
      .program (.run (.poster t))]
  let pop (msg : Nat) : Steps :=
    [.both .pop (.callPop .dispatcher)] ++ List.replicate 5 (.object (.run .dispatcher false)) ++
      [.both (.popped (some (some msg))) (.ret .dispatcher), .program .loop, .program .loop]
  [.program .start] ++ List.replicate 4 (.program .control) ++ post true 0 5 ++ returned true ++
    [.program .loop] ++ pop 0 ++ post true 1 5 ++ returned true ++ post false 2 3 ++
    [.program .stop, .program .control, .program .control, .program .loop] ++ pop 1 ++
    [.both .pop (.callPop .dispatcher), .object (.run .dispatcher false),
      .object (.run .dispatcher false), .both (.popped none) (.ret .dispatcher),
      .program .control, .program .control]

theorem stopDrains_stoppedBeforePost :
    ∃ state, ((program Bool).runOver (observedRing (Thread Bool) Nat (2 ^ 1))).ReachableUnder
      NoStalledPost state ∧ state.1.stopped = some [0, 1] ∧ state.2.queued = [2] ∧
      state.1.StopDrains := by
  obtain ⟨state, hreach, htest⟩ := Machine.exists_reachableUnder_of_run
    ((program Bool).runOver (observedRing (Thread Bool) Nat (2 ^ 1))) loadsLast
    (fun _ _ => noStalledPost_of_loadsLast) stoppedBeforePost
    (fun state => state.1.stopped = some [0, 1] ∧ state.2.queued = [2]) (by decide +kernel)
  obtain ⟨hstopped, hqueued⟩ := of_decide_eq_true htest
  exact ⟨state, hreach, hstopped, hqueued, stopDrains_of_noStalledPost (by decide) hreach⟩

/-- Post 1 had returned true, and `stop` leaves its message behind that of post 0, which stands
between its compare-exchange and its `seq` store. -/
theorem stoppedBehindPost_not_drained :
    ¬ ∀ state, ((program Bool).runOver (observedRing (Thread Bool) Nat (2 ^ 1))).Reachable state →
      state.1.StopDrains := by
  intro hdrains
  obtain ⟨state, hreach, htest⟩ := Machine.exists_reachable_of_run
    ((program Bool).runOver (observedRing (Thread Bool) Nat (2 ^ 1))) stoppedBehindPost
    (fun state => state.1.stopped = some [1] ∧ state.1.dispatched = []) (by decide +kernel)
  obtain ⟨hstopped, hdispatched⟩ := of_decide_eq_true htest
  have hcount := hdrains state hreach [1] hstopped 1 (List.mem_singleton_self 1)
  rw [hdispatched] at hcount
  cases hcount

end MessageCenter.MessageCenterFast.Shutdown
