import MessageCenter.MessageCenterFast.ShutdownInvariant
import MessageCenter.MpmcQueue.Linearization

/-!
# What `stop` has drained

The second loop of `dispatchLoop` ends at the first `try_pop` that answers "empty".  Over the atomic
queue such an answer means that the queue is empty, or that its oldest item is marked: the thread
that pushed it is inside `try_push` still, so its post has not returned.  Everything that is left
lies behind that item.
-/

namespace MessageCenter.MessageCenterFast.Shutdown

open Concurrency MPMCQueue

variable {Tid : Type} {c next : State Tid} {a a' : Queue Tid} {t : Thread Tid}

/-! ### Steps of the queue -/

/-- The line is what has been dispatched while a pop has got nothing and nothing is queued. -/
theorem Inv.drained_of_empty (h : Inv c a) {drain : Bool} (hitems : a.items = [])
    (hthread : c.m_dispatchThread = some (.popping drain)) (hgot : got (a.phase .dispatcher) = [])
    {before : List Nat} (hbefore : ∀ msg ∈ before, msg ∈ c.returned) :
    Drained before c.dispatched [] := by
  refine Or.inl fun msg hmem => ?_
  have hline := h.posts.returned msg (hbefore msg hmem)
  simpa only [State.line, State.inHand, hthread, hgot, hitems, List.map_nil, List.append_nil]
    using hline

section Queue

variable [DecidableEq Tid]

/-- A step of the pop that the dispatch thread is in. -/
theorem Inv.popMoved (h : Inv c a) {drain : Bool} {phase : AtomicQueue.Phase Nat}
    (hthread : c.m_dispatchThread = some (.popping drain))
    (hphase : a'.phase = Function.update a.phase .dispatcher phase)
    (hmarks : ∀ entry ∈ a'.items, ∀ other, entry.1 = some other →
      other ≠ .dispatcher ∧ entry ∈ a.items)
    (hfits : Fits (some .tryPop) phase)
    (hline : got phase ++ a'.items.map Prod.snd =
      got (a.phase .dispatcher) ++ a.items.map Prod.snd)
    (hended : phase = .returning (.popped none) → ∀ before,
      (∀ msg ∈ before, msg ∈ c.returned) → Drained before c.dispatched (a'.items.map Prod.snd)) :
    Inv c a' := by
  have hidle := h.dispatcher_idle (by rw [State.mayPost, hthread])
  have hself : a'.phase .dispatcher = phase := by
    rw [hphase, Function.update_self]
  have hother : ∀ other, other ≠ .dispatcher → a'.phase other = a.phase other := by
    intro other hne
    rw [hphase, Function.update_of_ne hne]
  refine ⟨fun t => ?_, h.callbacks, fun entry hmem t hmark => ?_, ?_, ?_⟩
  · by_cases heq : t = .dispatcher
    · rw [heq, hself]
      simp only [State.call, hidle, PostPc.call, State.popCall, hthread, Option.none_or]
      exact hfits
    · rw [hother t heq]
      exact h.calls t
  · obtain ⟨hne, hold⟩ := hmarks entry hmem t hmark
    rw [hother t hne]
    exact h.marked entry hold t hmark
  · refine h.posts.same (fun _ => rfl) (fun t => ?_) rfl rfl ?_
    · by_cases heq : t = .dispatcher
      · simp only [heq, hidle, PostPc.entered]
      · rw [hother t heq]
    · simp only [State.line, State.inHand, hthread, hself, List.append_assoc, hline]
  · have hsame : ({ c with
        m_dispatchThread := some (.popping drain)
        dispatched := c.dispatched
        m_dispatched := c.m_dispatched } : State Tid) = c := by
      rw [← hthread]
    rw [hself, ← hsame]
    refine h.control.goOn hthread Or.inl ?_
    rintro (hend | ⟨-, hend⟩) before hbefore -
    · cases hend
    · exact hended hend before hbefore

/-- What is not dispatched when a pop misses lies behind the item of a post in progress. -/
theorem Inv.drained_of_miss (h : Inv c a) {drain : Bool} {peer : Thread Tid}
    (hmiss : AtomicQueue.mayMiss a peer .tryPop = true)
    (hthread : c.m_dispatchThread = some (.popping drain)) (hgot : got (a.phase .dispatcher) = [])
    {before : List Nat} (hbefore : ∀ msg ∈ before, msg ∈ c.returned) :
    Drained before c.dispatched (a.items.map Prod.snd) := by
  rw [AtomicQueue.mayMiss] at hmiss
  split at hmiss
  · next entry rest hitems =>
    have hmem : entry ∈ a.items := by
      rw [hitems]
      exact List.mem_cons_self ..
    have hpushing := (h.marked entry hmem peer (of_decide_eq_true hmiss)).1
    have hblocker : entry.2 ∉ c.returned :=
      h.posts.not_returned peer entry.2 (by rw [hpushing]; rfl)
    refine Or.inr ⟨entry.2, rest.map Prod.snd, by rw [hitems, List.map_cons],
      fun hmem => hblocker (hbefore _ hmem), fun msg hmem => ?_⟩
    have hreturned := hbefore msg hmem
    have hline := h.posts.returned msg hreturned
    simp only [State.line, State.inHand, hthread, hgot, hitems, List.append_nil, List.map_cons,
      List.mem_append, List.mem_cons] at hline
    rcases hline with hdone | rfl | hrest
    · exact Or.inl hdone
    · exact absurd hreturned hblocker
    · exact Or.inr hrest
  · cases hmiss

theorem Inv.effect (h : Inv c a) {limit : Nat}
    (hstep : AtomicQueue.step limit a (.effect t) = some a') : Inv c a' := by
  simp only [AtomicQueue.step] at hstep
  split at hstep
  · next op hphase =>
    obtain rfl := Option.some.inj hstep
    have hcall := fits_called (hphase ▸ h.calls t)
    have hunmarked := h.unmarked (t := t) (by simp [hphase])
    cases op with
    | tryPush msg =>
        have hpc := pushing_of_call hcall
        have hmay := h.mayPost (t := t) (by simp [hpc])
        by_cases hroom : a.items.length < limit
        · simp only [AtomicQueue.mark, Op.map, fifoStep, hroom, if_true, Result.map,
            AtomicQueue.afterEffect]
          have hother : ∀ other, other ≠ t →
              (a.goto t (.settling (.pushed true))).phase other = a.phase other :=
            fun other hne => a.goto_phase_other _ hne
          obtain ⟨hinHand, hended⟩ := inHand_of_mayPost hmay hother
          refine ⟨fun other => ?_, h.callbacks, fun entry hmem other hmark => ?_, ?_, ?_⟩
          · by_cases heq : other = t
            · rw [heq, hcall]
              exact (a.goto_phase_self t _) ▸ Fits.pushSettling msg
            · exact (hother other heq) ▸ h.calls other
          · rcases List.mem_append.mp hmem with hmem | hmem
            · obtain ⟨hne, hold⟩ := hunmarked entry hmem other hmark
              exact (hother other hne) ▸ h.marked entry hold other hmark
            · rw [List.mem_singleton.mp hmem] at hmark ⊢
              obtain rfl := Option.some.inj hmark
              exact ⟨hpc, a.goto_phase_self t _⟩
          · have henter : Posts c (a.goto t (.settling (.pushed true))).phase (c.line a ++ [msg]) :=
              h.posts.enter hpc (by rw [hphase]; rfl) (by rw [a.goto_phase_self]; rfl) hother
            have hline : c.line ⟨a.items ++ [(some t, msg)],
                (a.goto t (.settling (.pushed true))).phase⟩ = c.line a ++ [msg] := by
              simp only [State.line, hinHand, List.map_append, List.map_singleton,
                List.append_assoc]
            exact hline ▸ henter
          · rw [List.map_append, List.map_singleton]
            exact h.control.same rfl (fun _ hmem => hmem) hended [msg]
        · simp only [AtomicQueue.mark, Op.map, fifoStep, hroom, if_false, Result.map,
            AtomicQueue.afterEffect]
          refine h.moved hmay (Function.update_eq_self t c.posts).symm rfl (fun _ hmem => hmem) rfl
            rfl hunmarked ?_ (h.posts.move (Function.update_eq_self t c.posts).symm rfl ?_
              (fun other hne => a.goto_phase_other _ hne) rfl rfl)
          · rw [hpc]
            exact Fits.pushReturning msg false
          · rw [hpc, hphase, a.goto_phase_self]
            rfl
    | tryPop =>
        obtain ⟨rfl, drain, hthread⟩ := popping_of_call hcall
        have hgot : got (a.phase .dispatcher) = [] := by
          rw [hphase]
          rfl
        cases hitems : a.items with
        | nil =>
            simp only [AtomicQueue.mark, Op.map, fifoStep, Result.map, Option.map_none,
              AtomicQueue.afterEffect]
            refine h.popMoved hthread rfl (by simp) (Fits.popReturning none) ?_ fun _ before hbefore =>
              h.drained_of_empty hitems hthread hgot hbefore
            rw [hgot, hitems]
            rfl
        | cons entry rest =>
            simp only [AtomicQueue.mark, Op.map, fifoStep, Result.map, Option.map_some,
              AtomicQueue.afterEffect]
            refine h.popMoved hthread rfl (fun other hmem => ?_) (Fits.popSettling entry.2) ?_
              (by simp)
            · exact hunmarked other (hitems ▸ List.mem_cons_of_mem entry hmem)
            · rw [hgot, hitems]
              rfl
  · cases hstep

theorem Inv.settle (h : Inv c a) {limit : Nat}
    (hstep : AtomicQueue.step limit a (.settle t) = some a') : Inv c a' := by
  simp only [AtomicQueue.step] at hstep
  split at hstep
  · next result hphase =>
    obtain rfl := Option.some.inj hstep
    have hfits := h.calls t
    rw [hphase] at hfits
    have hleft := AtomicQueue.map_unmark_snd t a.items
    have hmarks : ∀ entry ∈ a.items.map (AtomicQueue.unmark t), ∀ other, entry.1 = some other →
        other ≠ t ∧ entry ∈ a.items := fun _ hmem _ => AtomicQueue.mem_map_unmark hmem
    generalize hcall : c.call t = call at hfits
    cases hfits with
    | pushSettling msg =>
        have hpc := pushing_of_call hcall
        have hmay := h.mayPost (t := t) (by simp [hpc])
        refine h.moved hmay (Function.update_eq_self t c.posts).symm rfl (fun _ hmem => hmem) rfl
          hleft hmarks ?_ (h.posts.move (Function.update_eq_self t c.posts).symm rfl ?_
            (fun other hne => a.goto_phase_other _ hne) rfl rfl)
        · rw [hpc]
          exact Fits.pushReturning msg true
        · rw [hpc, hphase]
          change (PostPc.pushing msg).entered ((a.goto t _).phase t) = true
          rw [a.goto_phase_self]
          rfl
    | popSettling msg =>
        obtain ⟨rfl, drain, hthread⟩ := popping_of_call hcall
        refine h.popMoved hthread rfl hmarks (Fits.popReturning (some msg)) ?_ (by simp)
        rw [hphase, hleft]
        rfl
  · cases hstep

theorem Inv.miss (h : Inv c a) {limit : Nat} {peer : Thread Tid}
    (hstep : AtomicQueue.step limit a (.miss t peer) = some a') : Inv c a' := by
  simp only [AtomicQueue.step] at hstep
  split at hstep
  · next op hphase =>
    split at hstep
    · next hmiss =>
      obtain rfl := Option.some.inj hstep
      have hcall := fits_called (hphase ▸ h.calls t)
      have hunmarked := h.unmarked (t := t) (by simp [hphase])
      cases op with
      | tryPush msg =>
          have hpc := pushing_of_call hcall
          have hmay := h.mayPost (t := t) (by simp [hpc])
          refine h.moved hmay (Function.update_eq_self t c.posts).symm rfl (fun _ hmem => hmem) rfl
            rfl hunmarked ?_ (h.posts.move (Function.update_eq_self t c.posts).symm rfl ?_
              (fun other hne => a.goto_phase_other _ hne) rfl rfl)
          · rw [hpc]
            exact Fits.pushReturning msg false
          · rw [hpc, hphase, a.goto_phase_self]
            rfl
      | tryPop =>
          obtain ⟨rfl, drain, hthread⟩ := popping_of_call hcall
          have hgot : got (a.phase .dispatcher) = [] := by
            rw [hphase]
            rfl
          refine h.popMoved hthread rfl hunmarked (Fits.popReturning none) ?_
            fun _ before hbefore => h.drained_of_miss hmiss hthread hgot hbefore
          rw [hphase]
          rfl
    · cases hstep
  · cases hstep

end Queue

/-! ### All steps -/

section Steps

variable [DecidableEq Tid] {limit : Nat}

theorem Inv.program_step (h : Inv c a) {action : Action Tid} (hlabel : label c action = none)
    (hstep : step c action = some next) : Inv next a := by
  cases action with
  | post t topicId acquired =>
      simp only [step] at hstep
      split at hstep
      · next hcond =>
        split at hstep
        · obtain rfl := Option.some.inj hstep
          exact h
        · obtain rfl := Option.some.inj hstep
          exact h.post hcond.1 hcond.2
      · cases hstep
  | push t =>
      simp only [step] at hstep
      split at hstep
      · next msg hpc => simp [label, hpc] at hlabel
      · cases hstep
  | pushed t ok => cases hlabel
  | run t => exact h.runPost hstep
  | loop => exact h.dispatchLoop hstep
  | pop => cases hlabel
  | popped item => cases hlabel
  | start =>
      simp only [step] at hstep
      split at hstep
      · next hidle =>
        obtain rfl := Option.some.inj hstep
        exact h.called hidle (Or.inl rfl)
      · cases hstep
  | stop =>
      simp only [step] at hstep
      split at hstep
      · next hidle =>
        obtain rfl := Option.some.inj hstep
        exact h.called hidle (Or.inr rfl)
      · cases hstep
  | control => exact h.control_step hstep

theorem Inv.queue_step (h : Inv c a) {action : AtomicQueue.Action (Thread Tid) Nat}
    (hlabel : AtomicQueue.label a action = none)
    (hstep : AtomicQueue.step limit a action = some a') : Inv c a' := by
  cases action with
  | call t op => cases hlabel
  | effect t => exact h.effect hstep
  | settle t => exact h.settle hstep
  | miss t peer => exact h.miss hstep
  | ret t => exact absurd hlabel (AtomicQueue.label_ret_ne_none hstep)

theorem Inv.joint_step (h : Inv c a) {action : Action Tid}
    {action' : AtomicQueue.Action (Thread Tid) Nat} {event : CallEvent (Thread Tid) Nat}
    (hlabel : label c action = some event) (hlabel' : AtomicQueue.label a action' = some event)
    (hstep : step c action = some next) (hstep' : AtomicQueue.step limit a action' = some a') :
    Inv next a' := by
  cases action with
  | post _ _ _ | run _ | loop | start | stop | control => cases hlabel
  | push t =>
      simp only [step, label] at hstep hlabel
      split at hstep
      · next msg hpc =>
        simp only [hpc, Option.some.injEq] at hlabel
        obtain rfl := hlabel
        obtain rfl := Option.some.inj hstep
        obtain ⟨-, rfl⟩ := AtomicQueue.step_call hlabel' hstep'
        exact h.push hpc
      · cases hstep
  | pushed t ok =>
      obtain rfl := Option.some.inj hlabel
      obtain ⟨hphase, rfl⟩ := AtomicQueue.step_ret hlabel' hstep'
      simp only [step] at hstep
      split at hstep
      · next msg hpc =>
        obtain rfl := Option.some.inj hstep
        exact h.pushed hpc hphase
      · cases hstep
  | pop =>
      obtain rfl := Option.some.inj hlabel
      obtain ⟨-, rfl⟩ := AtomicQueue.step_call hlabel' hstep'
      simp only [step] at hstep
      split at hstep
      · next drain hthread =>
        obtain rfl := Option.some.inj hstep
        exact h.pop hthread
      · cases hstep
  | popped item =>
      obtain rfl := Option.some.inj hlabel
      obtain ⟨hphase, rfl⟩ := AtomicQueue.step_ret hlabel' hstep'
      exact h.popped hphase hstep

theorem reachable_inv
    (hreach : ((program Tid).runOver (atomicQueue (Thread Tid) Nat limit)).Reachable (c, a)) :
    Inv c a := by
  refine Machine.Reachable.invariant (fun state : State Tid × Queue Tid => Inv state.1 state.2)
    inv_init ?_ hreach
  intro state next action h hstep
  change Observed.jointStep (program Tid) (atomicQueue (Thread Tid) Nat limit) state action =
    some next at hstep
  cases action with
  | program action =>
      obtain ⟨hlabel, hprogram, hsame⟩ := Observed.jointStep_program hstep
      rw [hsame]
      exact h.program_step hlabel hprogram
  | object action =>
      obtain ⟨hlabel, hqueue, hsame⟩ := Observed.jointStep_object hstep
      rw [hsame]
      exact h.queue_step hlabel hqueue
  | both action action' =>
      obtain ⟨event, hlabel, hlabel', hprogram, hqueue⟩ := Observed.jointStep_both hstep
      exact h.joint_step hlabel hlabel' hprogram hqueue

/-- **What `stop` has drained.**  Over the ring itself, any number of threads posting, callbacks
that post, and any interleaving: no message is dispatched twice, and when a `stop` has joined the
dispatch thread, every post that had returned true before is dispatched unless its message is left
in the ring; if one is, the oldest item of the ring is that of a post that had not returned, and the
others lie behind it. -/
theorem stop_drains {k : Nat} (hk : 1 ≤ k) {s : MPMCQueue.State (Thread Tid) Nat}
    (hreach : ((program Tid).runOver (observedRing (Thread Tid) Nat (2 ^ k))).Reachable (c, s)) :
    c.dispatched.Nodup ∧ ∀ before, c.stopped = some before →
      Drained before c.dispatched s.queued ∧
        ((∀ msg ∈ before, msg ∈ c.dispatched) ↔ ∀ msg ∈ before, msg ∉ s.queued) := by
  obtain ⟨a, hatomic, -, rfl⟩ := (simulation hk).reachable_runOver hreach
  have h := reachable_inv hatomic
  have hleft : s.atomic.items.map Prod.snd = s.queued := s.entries_snd
  have hline := h.posts.nodup
  rw [State.line, hleft, List.append_assoc] at hline
  obtain ⟨hdispatched, -, hdisjoint⟩ := List.nodup_append.mp hline
  refine ⟨hdispatched, fun before hstopped => ?_⟩
  have hdrained := (h.control.stopped before hstopped).2
  rw [hleft] at hdrained
  refine ⟨hdrained, fun hall msg hmem hqueued => ?_, fun hnone msg hmem => ?_⟩
  · exact hdisjoint msg (hall msg hmem) msg (List.mem_append_right _ hqueued) rfl
  · rcases hdrained with hall | ⟨blocker, rest, heq, -, hrest⟩
    · exact hall msg hmem
    · exact (hrest msg hmem).resolve_right fun hmem' =>
        hnone msg hmem (heq ▸ List.mem_cons_of_mem blocker hmem')

end Steps

/-- Post 0 stands between its compare-exchange and its `seq` store when `stop` is called; post 1 has
returned true. -/
def stoppedBehindPost : List (Observed.Joint (Action Bool) (MPMCQueue.Action (Thread Bool) Nat)) :=
  [.program .start] ++ List.replicate 4 (.program .control) ++
    [.program (.post (.poster false) 5 true),
      .both (.push (.poster false)) (.callPush (.poster false) 0)] ++
    List.replicate 3 (.object (.run (.poster false) false)) ++
    [.program (.post (.poster true) 5 true),
      .both (.push (.poster true)) (.callPush (.poster true) 1)] ++
    List.replicate 5 (.object (.run (.poster true) false)) ++
    [.both (.pushed (.poster true) true) (.ret (.poster true)), .program (.run (.poster true)),
      .program (.run (.poster true)), .program .stop, .program .control, .program .control,
      .program .loop, .both .pop (.callPop .dispatcher), .object (.run .dispatcher false),
      .object (.run .dispatcher false), .both (.popped none) (.ret .dispatcher),
      .program .control, .program .control]

/-- `stop` leaves the message of post 1 behind that of post 0. -/
theorem stop_drains_behindPost :
    Drained [1] [] [0, 1] ∧ ((∀ msg ∈ [1], msg ∈ ([] : List Nat)) ↔ ∀ msg ∈ [1], msg ∉ [0, 1]) := by
  have hrun : ((((program Bool).runOver (observedRing (Thread Bool) Nat (2 ^ 1))).run
      (init, MPMCQueue.init) stoppedBehindPost).map
        fun state => (state.1.stopped, state.1.dispatched, state.2.queued)) =
      some (some [1], [], [0, 1]) := by
    decide +kernel
  obtain ⟨⟨c, s⟩, hrun, heq⟩ := Option.map_eq_some_iff.mp hrun
  simp only [Prod.mk.injEq] at heq
  have hreach := Machine.Reachable.of_run Machine.ReachableUnder.init hrun
  have hdrains := (stop_drains (by decide) hreach).2 [1] heq.1
  rw [heq.2.1, heq.2.2] at hdrains
  exact hdrains

end MessageCenter.MessageCenterFast.Shutdown
