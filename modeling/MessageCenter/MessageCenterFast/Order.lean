import MessageCenter.MessageCenterFast.Drain
import Mathlib.Data.List.Infix

/-!
# The order of the dispatches

The line of the messages only grows at its end: what has been dispatched, is being dispatched or is
queued keeps its order.  A post that has returned true is in the line, and a later one gets in
behind it.  So the observers see the posts in the order in which they were made, whatever the
threads and across all starts and stops.
-/

namespace MessageCenter.MessageCenterFast.Shutdown

open Concurrency MPMCQueue

variable {Tid : Type} {c next : State Tid} {a a' : Queue Tid} {t : Thread Tid}

/-! ### Steps of the program -/

theorem line_congr (hdispatched : next.dispatched = c.dispatched)
    (hthread : next.m_dispatchThread = c.m_dispatchThread) : next.line a = c.line a := by
  rw [State.line, State.inHand, hdispatched, hthread, State.line, State.inHand]

theorem dispatchLoop_line (hstep : dispatchLoop c = some next) : next.line a = c.line a := by
  unfold dispatchLoop at hstep
  split at hstep
  · next hthread =>
    obtain rfl := Option.some.inj hstep
    simp only [State.line, State.inHand, hthread]
  · next drain msg hthread =>
    split at hstep
    · obtain rfl := Option.some.inj hstep
      simp only [State.line, State.inHand, hthread, List.append_nil]
    · cases hstep
  · next drain hthread =>
    obtain rfl := Option.some.inj hstep
    cases drain <;> simp [State.line, State.inHand, hthread]
  · cases hstep

/-- `start` and `stop` create and join a dispatch thread that has no message. -/
theorem Inv.control_line (h : Inv c a) (hstep : Shutdown.control c = some next) :
    next.line a = c.line a := by
  have hat := h.control.control
  unfold Shutdown.control at hstep
  cases hpc : c.control with
  | idle => simp [hpc] at hstep
  | startTest | startStopping | startRunning | stopTest before | stopStopping before
  | stopRunning before =>
      simp only [hpc, Option.some.injEq] at hstep
      exact hstep ▸ line_congr rfl rfl
  | startThread =>
      simp only [hpc, Option.some.injEq] at hstep
      rw [hpc] at hat
      subst hstep
      simp only [State.line, State.inHand, hat.2.2]
  | stopJoin before =>
      simp only [hpc] at hstep
      split at hstep
      · next hthread =>
        obtain rfl := Option.some.inj hstep
        simp only [State.line, State.inHand, hthread]
      · next hthread =>
        obtain rfl := Option.some.inj hstep
        simp only [State.line, State.inHand, hthread]
      · cases hstep

variable [DecidableEq Tid] {limit : Nat}

theorem runPost_line (hstep : runPost c t = some next) : next.line a = c.line a := by
  unfold runPost at hstep
  split at hstep
  · exact (Option.some.inj hstep) ▸ line_congr rfl rfl
  · exact (Option.some.inj hstep) ▸ line_congr rfl rfl
  · cases hstep

theorem Inv.program_line (h : Inv c a) {action : Action Tid} (hlabel : label c action = none)
    (hstep : step c action = some next) : next.line a = c.line a := by
  cases action with
  | post t topicId acquired =>
      simp only [step] at hstep
      split at hstep
      · split at hstep
        · exact (Option.some.inj hstep) ▸ rfl
        · exact (Option.some.inj hstep) ▸ line_congr rfl rfl
      · cases hstep
  | push t =>
      simp only [step] at hstep
      split at hstep
      · next msg hpc => simp [label, hpc] at hlabel
      · cases hstep
  | pushed _ _ | pop | popped _ => cases hlabel
  | run t => exact runPost_line hstep
  | loop => exact dispatchLoop_line hstep
  | start | stop =>
      simp only [step] at hstep
      split at hstep
      · exact (Option.some.inj hstep) ▸ line_congr rfl rfl
      · cases hstep
  | control => exact h.control_line hstep

/-! ### Steps of the queue -/

omit [DecidableEq Tid] in
theorem line_same (hgot : got (a'.phase .dispatcher) = got (a.phase .dispatcher))
    (hitems : a'.items.map Prod.snd = a.items.map Prod.snd) : c.line a' = c.line a := by
  simp only [State.line, State.inHand, hgot, hitems]

/-- A phase of a call that has the same message in hand. -/
theorem got_goto {phase : AtomicQueue.Phase Nat} (hgot : got phase = got (a.phase t)) :
    got ((a.goto t phase).phase .dispatcher) = got (a.phase .dispatcher) := by
  by_cases heq : t = .dispatcher
  · subst heq
    rw [a.goto_phase_self, hgot]
  · rw [a.goto_phase_other _ (Ne.symm heq)]

theorem Inv.effect_line (h : Inv c a) (hstep : AtomicQueue.step limit a (.effect t) = some a') :
    c.line a <+: c.line a' := by
  simp only [AtomicQueue.step] at hstep
  split at hstep
  · next op hphase =>
    obtain rfl := Option.some.inj hstep
    have hcall := fits_called (hphase ▸ h.calls t)
    cases op with
    | tryPush msg =>
        have hmay := h.mayPost (t := t) (by simp [pushing_of_call hcall])
        have hinHand : ∀ phase, c.inHand ((a.goto t phase).phase .dispatcher) =
            c.inHand (a.phase .dispatcher) := fun phase =>
          (inHand_of_mayPost hmay fun other hne => a.goto_phase_other _ hne).1
        simp only [AtomicQueue.mark, Op.map, fifoStep]
        split
        · simp only [Result.map, AtomicQueue.afterEffect, State.line, hinHand, List.map_append,
            ← List.append_assoc]
          exact List.prefix_append _ _
        · simp only [Result.map, AtomicQueue.afterEffect, State.line, hinHand]
          exact List.prefix_refl _
    | tryPop =>
        obtain ⟨rfl, drain, hthread⟩ := popping_of_call hcall
        cases hitems : a.items with
        | nil =>
            simp only [AtomicQueue.mark, Op.map, fifoStep, Result.map, Option.map_none,
              AtomicQueue.afterEffect, State.line, State.inHand, hthread, hphase, hitems,
              a.goto_phase_self]
            exact List.prefix_refl _
        | cons entry rest =>
            simp only [AtomicQueue.mark, Op.map, fifoStep, Result.map, Option.map_some,
              AtomicQueue.afterEffect, State.line, State.inHand, hthread, hphase, hitems,
              a.goto_phase_self, got, List.map_cons, List.append_nil, List.append_assoc,
              List.singleton_append]
            exact List.prefix_refl _
  · cases hstep

theorem Inv.queue_line (h : Inv c a) {action : AtomicQueue.Action (Thread Tid) Nat}
    (hlabel : AtomicQueue.label a action = none)
    (hstep : AtomicQueue.step limit a action = some a') : c.line a <+: c.line a' := by
  cases action with
  | call t op => cases hlabel
  | effect t => exact h.effect_line hstep
  | settle t =>
      simp only [AtomicQueue.step] at hstep
      split at hstep
      · next result hphase =>
        obtain rfl := Option.some.inj hstep
        have hgot : got (.returning result) = got (a.phase t) := by
          rw [hphase]
          rcases result with ok | ⟨_ | _ | msg⟩ <;> rfl
        have hsame : c.line { a.goto t (.returning result) with
            items := a.items.map (AtomicQueue.unmark t) } = c.line a :=
          line_same (got_goto hgot) (AtomicQueue.map_unmark_snd t a.items)
        rw [hsame]
      · cases hstep
  | miss t peer =>
      simp only [AtomicQueue.step] at hstep
      split at hstep
      · next op hphase =>
        split at hstep
        · obtain rfl := Option.some.inj hstep
          have hgot : got (.returning (AtomicQueue.missed op)) = got (a.phase t) := by
            rw [hphase]
            cases op <;> rfl
          rw [line_same (got_goto hgot) rfl]
        · cases hstep
      · cases hstep
  | ret t => exact absurd hlabel (AtomicQueue.label_ret_ne_none hstep)

theorem joint_line {action : Action Tid} {action' : AtomicQueue.Action (Thread Tid) Nat}
    {event : CallEvent (Thread Tid) Nat} (hlabel : label c action = some event)
    (hlabel' : AtomicQueue.label a action' = some event) (hstep : step c action = some next)
    (hstep' : AtomicQueue.step limit a action' = some a') : next.line a' = c.line a := by
  cases action with
  | post _ _ _ | run _ | loop | start | stop | control => cases hlabel
  | push t =>
      simp only [step, label] at hstep hlabel
      split at hstep
      · next msg hpc =>
        simp only [hpc, Option.some.injEq] at hlabel
        obtain rfl := hlabel
        obtain rfl := Option.some.inj hstep
        obtain ⟨hidle, rfl⟩ := AtomicQueue.step_call hlabel' hstep'
        refine (line_congr rfl rfl).trans (line_same (got_goto ?_) rfl)
        rw [hidle]
        rfl
      · cases hstep
  | pushed t ok =>
      obtain rfl := Option.some.inj hlabel
      obtain ⟨hphase, rfl⟩ := AtomicQueue.step_ret hlabel' hstep'
      simp only [step] at hstep
      split at hstep
      · obtain rfl := Option.some.inj hstep
        refine (line_congr rfl rfl).trans (line_same (got_goto ?_) rfl)
        rw [hphase]
        rfl
      · cases hstep
  | pop =>
      obtain rfl := Option.some.inj hlabel
      obtain ⟨-, rfl⟩ := AtomicQueue.step_call hlabel' hstep'
      simp only [step] at hstep
      split at hstep
      · next drain hthread =>
        obtain rfl := Option.some.inj hstep
        simp only [State.line, State.inHand, hthread, a.goto_phase_self, a.goto_items]
        rfl
      · cases hstep
  | popped item =>
      obtain rfl := Option.some.inj hlabel
      obtain ⟨hphase, rfl⟩ := AtomicQueue.step_ret hlabel' hstep'
      simp only [step, popped] at hstep
      split at hstep
      · next drain msg hthread =>
        obtain rfl := Option.some.inj hstep
        simp only [State.line, State.inHand, hthread, hphase, got, a.goto_items]
      · next drain hthread =>
        obtain rfl := Option.some.inj hstep
        cases drain <;> simp [State.line, State.inHand, hthread, hphase, got]
      · cases hstep

/-! ### Runs -/

theorem Inv.line_step (h : Inv c a)
    {action : Observed.Joint (Action Tid) (AtomicQueue.Action (Thread Tid) Nat)}
    (hstep : Observed.jointStep (program Tid) (atomicQueue (Thread Tid) Nat limit) (c, a) action =
      some (next, a')) : c.line a <+: next.line a' := by
  cases action with
  | program action =>
      obtain ⟨hlabel, hprogram, hsame⟩ := Observed.jointStep_program hstep
      obtain rfl : a' = a := hsame
      rw [h.program_line hlabel hprogram]
  | object action =>
      obtain ⟨hlabel, hqueue, hsame⟩ := Observed.jointStep_object hstep
      obtain rfl : next = c := hsame
      exact h.queue_line hlabel hqueue
  | both action action' =>
      obtain ⟨event, hlabel, hlabel', hprogram, hqueue⟩ := Observed.jointStep_both hstep
      rw [joint_line hlabel hlabel' hprogram hqueue]

/-- `MessageCenterFast` with its ring. -/
abbrev overRing (Tid : Type) [DecidableEq Tid] (k : Nat) :=
  (program Tid).runOver (observedRing (Thread Tid) Nat (2 ^ k))

variable {k : Nat} {s s' : MPMCQueue.State (Thread Tid) Nat}

theorem inv_overRing (hk : 1 ≤ k) (hreach : (overRing Tid k).Reachable (c, s)) :
    Inv c s.atomic := by
  obtain ⟨a, hatomic, -, rfl⟩ := (simulation hk).reachable_runOver hreach
  exact reachable_inv hatomic

/-- The line only grows, and at its end. -/
theorem line_of_run (hk : 1 ≤ k)
    {actions : List (Observed.Joint (Action Tid) (MPMCQueue.Action (Thread Tid) Nat))}
    (hreach : (overRing Tid k).Reachable (c, s))
    (hrun : (overRing Tid k).run (c, s) actions = some (next, s')) :
    c.line s.atomic <+: next.line s'.atomic := by
  refine (Machine.run_keeps (P := fun state => (overRing Tid k).Reachable state ∧
    c.line s.atomic <+: state.1.line state.2.atomic) ?_ ⟨hreach, List.prefix_refl _⟩ hrun).2
  rintro ⟨c₁, s₁⟩ ⟨c₂, s₂⟩ action ⟨hreached, hprefix⟩ hstep
  refine ⟨hreached.next hstep, hprefix.trans ?_⟩
  obtain ⟨a, hatomic, hrel⟩ := (simulation hk).reachable_runOver hreached
  have hinv := reachable_inv hatomic
  rcases (simulation hk).jointStep hrel hstep with ⟨hsame, -, ha⟩ | ⟨action', a', hstep', -, ha⟩
  · obtain rfl : c₂ = c₁ := hsame
    rw [← ha, hrel.2]
  · rw [← hrel.2]
    exact ha ▸ hinv.line_step hstep'

/-- **Posts are dispatched in their order.**  Over the ring itself, whatever the threads do and
across all starts and stops: when a post has returned true before another one is called, the second
is not dispatched before the first. -/
theorem dispatch_order (hk : 1 ≤ k)
    {actions : List (Observed.Joint (Action Tid) (MPMCQueue.Action (Thread Tid) Nat))}
    (hreach : (overRing Tid k).Reachable (c, s))
    (hrun : (overRing Tid k).run (c, s) actions = some (next, s')) {first second : Nat}
    (hreturned : first ∈ c.returned) (hlater : c.nextMsg ≤ second)
    (hdispatched : second ∈ next.dispatched) :
    ∃ before after, next.dispatched = before ++ second :: after ∧ first ∈ before := by
  have hposts := (inv_overRing hk hreach).posts
  have hnew : second ∉ c.line s.atomic := fun hmem =>
    absurd (hposts.lt second hmem) (Nat.not_lt_of_le hlater)
  have hline : next.dispatched <+: next.line s'.atomic := by
    rw [State.line, List.append_assoc]
    exact List.prefix_append _ _
  rcases List.prefix_or_prefix_of_prefix (line_of_run hk hreach hrun) hline with hold | hshort
  · obtain ⟨rest, heq⟩ := hold
    rw [← heq, List.mem_append] at hdispatched
    obtain ⟨between, after, rfl⟩ := List.append_of_mem (hdispatched.resolve_left hnew)
    refine ⟨c.line s.atomic ++ between, after, ?_, ?_⟩
    · rw [← heq, List.append_assoc]
    · exact List.mem_append_left _ (hposts.returned first hreturned)
  · exact absurd (hshort.subset hdispatched) hnew

/-- The post 0 has returned true, and the dispatch thread waits. -/
def firstReturned : List (Observed.Joint (Action Bool) (MPMCQueue.Action (Thread Bool) Nat)) :=
  [.program .start] ++ List.replicate 4 (.program .control) ++
    [.program (.post (.poster false) 5 true),
      .both (.push (.poster false)) (.callPush (.poster false) 0)] ++
    List.replicate 5 (.object (.run (.poster false) false)) ++
    [.both (.pushed (.poster false) true) (.ret (.poster false)), .program (.run (.poster false)),
      .program (.run (.poster false))]

/-- One round of the loop of the dispatch thread. -/
def oneRound (msg : Nat) : List (Observed.Joint (Action Bool) (MPMCQueue.Action (Thread Bool) Nat)) :=
  [.program .loop, .both .pop (.callPop .dispatcher)] ++
    List.replicate 5 (.object (.run .dispatcher false)) ++
    [.both (.popped (some (some msg))) (.ret .dispatcher), .program .loop, .program .loop]

/-- The post 1 is made by another thread, and both are dispatched. -/
def secondDispatched : List (Observed.Joint (Action Bool) (MPMCQueue.Action (Thread Bool) Nat)) :=
  [.program (.post (.poster true) 5 true),
    .both (.push (.poster true)) (.callPush (.poster true) 1)] ++
    List.replicate 5 (.object (.run (.poster true) false)) ++ oneRound 0 ++ oneRound 1

theorem dispatch_order_two :
    ∃ before after, [0, 1] = before ++ 1 :: after ∧ 0 ∈ before := by
  have hfirst : (((overRing Bool 1).run (overRing Bool 1).init firstReturned).bind fun state =>
      ((overRing Bool 1).run state secondDispatched).map fun later =>
        (state.1.returned, state.1.nextMsg, later.1.dispatched)) = some ([0], 1, [0, 1]) := by
    decide +kernel
  obtain ⟨⟨c, s⟩, hstart, hrest⟩ := Option.bind_eq_some_iff.mp hfirst
  obtain ⟨⟨next, s'⟩, hrun, heq⟩ := Option.map_eq_some_iff.mp hrest
  simp only [Prod.mk.injEq] at heq
  obtain ⟨hreturned, hnextMsg, hdispatched⟩ := heq
  have hreach := Machine.Reachable.of_run Machine.ReachableUnder.init hstart
  have hmem : 0 ∈ c.returned := hreturned ▸ List.mem_singleton_self 0
  have hlater : c.nextMsg ≤ 1 := Nat.le_of_eq hnextMsg
  have hsecond : 1 ∈ next.dispatched := hdispatched ▸ by decide
  have horder := dispatch_order (by decide) hreach hrun hmem hlater hsecond
  rw [hdispatched] at horder
  exact horder

end MessageCenter.MessageCenterFast.Shutdown
