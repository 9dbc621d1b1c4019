import MessageCenter.MessageCenterFast.BlockOwnership
import Mathlib.Data.List.Induction

/-!
# Posts that return false

The log has every change of the ring, of the two counters and of the set of live blocks,
and replaying it gives the state.  A post that returned false has no entry, or two: the
block it allocated and the same block freed.  So replaying the log without its entries
gives the same state.
-/

namespace MessageCenter.MessageCenterFast.Blocks

open Concurrency Circulation

/-! ### Replaying a log -/

/-- What the threads share. -/
@[ext]
structure View where
  m_queue : List Addr
  m_posted : Nat
  m_dispatched : Nat
  live : BlockId → Bool

def View.apply (v : View) : Effect → View
  | .push msg => { v with m_queue := v.m_queue ++ [msg] }
  | .pop => { v with m_queue := v.m_queue.tail }
  | .countPosted => { v with m_posted := fetchAdd v.m_posted }
  | .countDispatched => { v with m_dispatched := fetchAdd v.m_dispatched }
  | .malloc block => { v with live := Function.update v.live block true }
  | .free block => { v with live := Function.update v.live block false }

abbrev Log := List (Option Nat × Effect)

def replay (log : Log) : View :=
  log.foldl (fun v entry => v.apply entry.2) ⟨[], 0, 0, fun _ => false⟩

theorem replay_snoc (log : Log) (entry : Option Nat × Effect) :
    replay (log ++ [entry]) = (replay log).apply entry.2 := by
  simp [replay]

/-- The log as if the call had not been made. -/
def without (log : Log) (call : Nat) : Log := log.filter fun entry => entry.1 ≠ some call

theorem without_snoc (log : Log) (entry : Option Nat × Effect) (call : Nat) :
    without (log ++ [entry]) call =
      without log call ++ if entry.1 = some call then [] else [entry] := by
  by_cases hcall : entry.1 = some call <;> simp [without, hcall]

/-- The changes that a call has made. -/
def changes (log : Log) (call : Nat) : List Effect :=
  (log.filter fun entry => entry.1 = some call).map Prod.snd

theorem changes_snoc (log : Log) (entry : Option Nat × Effect) (call : Nat) :
    changes (log ++ [entry]) call =
      changes log call ++ if entry.1 = some call then [entry.2] else [] := by
  by_cases hcall : entry.1 = some call <;> simp [changes, hcall]

theorem mem_changes {log : Log} {call : Nat} {effect : Effect} :
    effect ∈ changes log call ↔ (some call, effect) ∈ log := by
  simp [changes]

/-- A call that has undone what it did. -/
def Undone (log : Log) (call : Nat) : Prop :=
  changes log call = [] ∨ ∃ block, changes log call = [.malloc block, .free block]

/-- The same, but perhaps for one block. -/
structure View.Agree (block : BlockId) (v w : View) : Prop where
  m_queue : v.m_queue = w.m_queue
  m_posted : v.m_posted = w.m_posted
  m_dispatched : v.m_dispatched = w.m_dispatched
  live : ∀ other, other ≠ block → v.live other = w.live other

theorem View.Agree.apply {block : BlockId} {v w : View} (hagree : View.Agree block v w)
    (effect : Effect) : View.Agree block (v.apply effect) (w.apply effect) := by
  cases effect with
  | push msg => exact { hagree with m_queue := congrArg (· ++ [msg]) hagree.m_queue }
  | pop => exact { hagree with m_queue := congrArg List.tail hagree.m_queue }
  | countPosted => exact { hagree with m_posted := congrArg fetchAdd hagree.m_posted }
  | countDispatched => exact { hagree with m_dispatched := congrArg fetchAdd hagree.m_dispatched }
  | malloc made | free made =>
      refine { hagree with live := fun other hne => ?_ }
      by_cases heq : other = made
      · simp [View.apply, heq]
      · simpa [View.apply, heq] using hagree.live other hne

theorem View.Agree.skip {block : BlockId} {v w : View} (hagree : View.Agree block v w)
    {effect : Effect} (heffect : effect = .malloc block ∨ effect = .free block) :
    View.Agree block v (w.apply effect) := by
  rcases heffect with rfl | rfl
  · refine { hagree with live := fun other hne => ?_ }
    simpa [View.apply, hne] using hagree.live other hne
  · refine { hagree with live := fun other hne => ?_ }
    simpa [View.apply, hne] using hagree.live other hne

/-- Leaving out the entries of a call that are about one block matters for that block only. -/
theorem agree_without {log : Log} {call : Nat} {block : BlockId}
    (hcall : ∀ effect, (some call, effect) ∈ log → effect = .malloc block ∨ effect = .free block) :
    View.Agree block (replay (without log call)) (replay log) := by
  induction log using List.reverseRecOn with
  | nil => exact ⟨rfl, rfl, rfl, fun _ _ => rfl⟩
  | append_singleton log entry ih =>
      have hagree := ih fun effect hmem => hcall effect (List.mem_append_left _ hmem)
      rw [without_snoc, replay_snoc]
      split
      · next hmine =>
        rw [List.append_nil]
        apply hagree.skip
        exact hcall entry.2 (by simp [← hmine])
      · rw [replay_snoc]
        exact hagree.apply entry.2

/-- A block that nobody allocates is not live. -/
theorem live_replay {log : Log} {block : BlockId}
    (hnever : ∀ caller, (caller, Effect.malloc block) ∉ log) : (replay log).live block = false := by
  induction log using List.reverseRecOn with
  | nil => rfl
  | append_singleton log entry ih =>
      have hbefore := ih fun caller hmem => hnever caller (List.mem_append_left _ hmem)
      rw [replay_snoc]
      obtain ⟨caller, effect⟩ := entry
      cases effect with
      | malloc made =>
          have hne : block ≠ made := by
            rintro rfl
            exact hnever caller (by simp)
          simpa [View.apply, hne] using hbefore
      | free made =>
          by_cases heq : block = made
          · simp [View.apply, heq]
          · simpa [View.apply, heq] using hbefore
      | _ => exact hbefore

/-- **Undone calls do not matter.** -/
theorem replay_without {log : Log} {call : Nat} (hundone : Undone log call)
    (hsole : ∀ caller block, (some call, .malloc block) ∈ log → (caller, .malloc block) ∈ log →
      caller = some call)
    (hdead : ∀ block, (some call, .free block) ∈ log → (replay log).live block = false) :
    replay (without log call) = replay log := by
  rcases hundone with hnone | ⟨block, hboth⟩
  · have hsame : without log call = log := by
      refine List.filter_eq_self.mpr fun entry hmem => ?_
      have hnot : entry.1 ≠ some call := by
        intro hmine
        have hchange : entry.2 ∈ changes log call := mem_changes.mpr (hmine ▸ hmem)
        simp [hnone] at hchange
      simpa using hnot
    rw [hsame]
  · have hmalloc : (some call, Effect.malloc block) ∈ log := mem_changes.mp (by simp [hboth])
    have hfree : (some call, Effect.free block) ∈ log := mem_changes.mp (by simp [hboth])
    have hagree : View.Agree block (replay (without log call)) (replay log) := by
      refine agree_without fun effect hmem => ?_
      simpa [hboth] using mem_changes.mpr hmem
    have hnever : (replay (without log call)).live block = false := by
      refine live_replay fun caller hmem => ?_
      obtain ⟨hlog, hother⟩ := List.mem_filter.mp hmem
      exact absurd (hsole caller block hmalloc hlog) (by simpa using hother)
    have hlive : (replay (without log call)).live = (replay log).live := by
      funext other
      by_cases heq : other = block
      · rw [heq, hnever, hdead block hfree]
      · exact hagree.live other heq
    exact View.ext hagree.m_queue hagree.m_posted hagree.m_dispatched hlive

/-! ### The log of a run -/

variable {Tid : Type} {s next : State Tid} {msg : Addr}

def State.view (s : State Tid) : View :=
  ⟨s.m_queue, s.m_posted, s.m_dispatched, fun block => (s.blocks block).isSome⟩

/-- The log is complete, and tells the blocks apart. -/
structure Logged (s : State Tid) : Prop where
  replayed : s.view = replay s.log
  old : ∀ caller block, (caller, .malloc block) ∈ s.log → block < s.nextBlock
  sole : ∀ caller other block, (caller, .malloc block) ∈ s.log → (other, .malloc block) ∈ s.log →
    caller = other
  freed : ∀ caller block, (caller, .free block) ∈ s.log → block ∈ s.freed

/-- All that the log is about. -/
def State.shared (s : State Tid) : Log × View × Nat × List BlockId :=
  (s.log, s.view, s.nextBlock, s.freed)

theorem Logged.congr (hlogged : Logged s) (hshared : next.shared = s.shared) : Logged next := by
  obtain ⟨hlog, hrest⟩ := Prod.mk.inj hshared
  obtain ⟨hview, hrest⟩ := Prod.mk.inj hrest
  obtain ⟨hblock, hfreed⟩ := Prod.mk.inj hrest
  constructor
  · rw [hview, hlog]
    exact hlogged.replayed
  · rw [hlog, hblock]
    exact hlogged.old
  · rw [hlog]
    exact hlogged.sole
  · rw [hlog, hfreed]
    exact hlogged.freed

/-- A change that is neither an allocation nor a deallocation. -/
theorem Logged.change {caller : Option Nat} {effect : Effect} (hlogged : Logged s)
    (hlog : next.log = s.log ++ [(caller, effect)]) (hview : next.view = s.view.apply effect)
    (hblock : next.nextBlock = s.nextBlock) (hfreed : next.freed = s.freed)
    (hmalloc : ∀ block, effect ≠ .malloc block) (hfree : ∀ block, effect ≠ .free block) :
    Logged next := by
  have hold : ∀ {other block}, (other, Effect.malloc block) ∈ next.log →
      (other, Effect.malloc block) ∈ s.log := by
    intro other block hmem
    simpa [hlog, (hmalloc block).symm] using hmem
  constructor
  · rw [hview, hlog, replay_snoc, hlogged.replayed]
  · intro other block hmem
    exact hblock ▸ hlogged.old other block (hold hmem)
  · intro first second block hfirst hsecond
    exact hlogged.sole first second block (hold hfirst) (hold hsecond)
  · intro other block hmem
    rw [hfreed]
    exact hlogged.freed other block (by simpa [hlog, (hfree block).symm] using hmem)

theorem Logged.push {call : Nat} (hlogged : Logged s) : Logged (push s call msg) :=
  hlogged.change rfl rfl rfl rfl nofun nofun

theorem Logged.pop {rest : List Addr} (hlogged : Logged s) (hqueue : s.m_queue = msg :: rest) :
    Logged (pop s rest) := by
  have hview : (Blocks.pop s rest).view = s.view.apply .pop := by
    simp [State.view, View.apply, Blocks.pop, State.record, hqueue]
  exact hlogged.change rfl hview rfl rfl nofun nofun

theorem Logged.countPosted {call : Nat} (hlogged : Logged s) : Logged (countPosted s call) :=
  hlogged.change rfl rfl rfl rfl nofun nofun

theorem Logged.countDispatched (hlogged : Logged s) : Logged (countDispatched s) :=
  hlogged.change rfl rfl rfl rfl nofun nofun

theorem Logged.allocate {call : Nat} {args : PostArgs} (hlogged : Logged s) :
    Logged (allocate s call args msg) := by
  have hlog : (Blocks.allocate s call args msg).log =
      s.log ++ [(some call, .malloc s.nextBlock)] := rfl
  have hmem : ∀ {other block}, (other, Effect.malloc block) ∈
      (Blocks.allocate s call args msg).log → (other, Effect.malloc block) ∈ s.log ∨
        (other = some call ∧ block = s.nextBlock) := by
    intro other block hmem
    simpa [hlog] using hmem
  constructor
  · rw [hlog, replay_snoc, ← hlogged.replayed]
    have hlive := Function.comp_update Option.isSome s.blocks s.nextBlock
    exact View.ext rfl rfl rfl (hlive _)
  · intro other block hnew
    rcases hmem hnew with hbefore | ⟨_, rfl⟩
    · exact Nat.lt_succ_of_lt (hlogged.old other block hbefore)
    · exact Nat.lt_succ_self _
  · intro first second block hfirst hsecond
    rcases hmem hfirst with hbefore | ⟨hcaller, rfl⟩
    · rcases hmem hsecond with hbefore' | ⟨_, rfl⟩
      · exact hlogged.sole first second block hbefore hbefore'
      · exact absurd (hlogged.old _ _ hbefore) (Nat.lt_irrefl _)
    · rcases hmem hsecond with hbefore' | ⟨hcaller', _⟩
      · exact absurd (hlogged.old _ _ hbefore') (Nat.lt_irrefl _)
      · exact hcaller.trans hcaller'.symm
  · intro other block hfreed
    exact hlogged.freed other block (by simpa [hlog] using hfreed)

theorem Logged.free {caller : Option Nat} {block : BlockId} (hlogged : Logged s) :
    Logged (free s caller block) := by
  have hlog : (Blocks.free s caller block).log = s.log ++ [(caller, .free block)] := rfl
  constructor
  · rw [hlog, replay_snoc, ← hlogged.replayed]
    have hlive := Function.comp_update Option.isSome s.blocks block
    exact View.ext rfl rfl rfl (hlive _)
  · intro other made hmem
    exact hlogged.old other made (by simpa [hlog] using hmem)
  · intro first second made hfirst hsecond
    exact hlogged.sole first second made (by simpa [hlog] using hfirst)
      (by simpa [hlog] using hsecond)
  · intro other gone hmem
    have hgone : (other, Effect.free gone) ∈ s.log ∨ other = caller ∧ gone = block := by
      simpa [hlog] using hmem
    rcases hgone with hbefore | ⟨_, rfl⟩
    · exact List.mem_cons_of_mem _ (hlogged.freed other gone hbefore)
    · exact List.mem_cons_self

theorem Logged.reset {caller : Option Nat} (hlogged : Logged s) : Logged (reset s caller msg) := by
  rw [Blocks.reset]
  split
  · exact (hlogged.free).congr rfl
  · exact hlogged.congr rfl

theorem acquire_shared : (acquire s).1.shared = s.shared := by
  rw [acquire]
  split <;> rfl

theorem release_shared : (release s msg).shared = s.shared := by
  rw [release]
  split <;> rfl

theorem build_shared {args : PostArgs} : (build s args msg).shared = s.shared := by
  rw [build]
  split <;> rfl

/-! ### What a call has done so far -/

def Pc.call : Pc → Option Nat
  | .idle => none
  | .acquire call _ | .build call _ _ | .allocate call _ _ | .tryPush call _ | .countPosted call
  | .reset call _ | .release call _ => some call

/-- The changes of a call up to here, as long as it may still return false. -/
def Tracked (s : State Tid) : Pc → Prop
  | .idle | .countPosted _ => True
  | .acquire call _ | .build call _ _ | .allocate call _ _ => changes s.log call = []
  | .tryPush call msg | .reset call msg =>
      changes s.log call = (s.objects msg).managedData.toList.map .malloc
  | .release call _ => Undone s.log call

/-- Every call belongs to one thread, or has returned. -/
structure Calls (s : State Tid) : Prop where
  apart : ∀ t u call, (s.pc t).call = some call → (s.pc u).call = some call → t = u
  current : ∀ t call, (s.pc t).call = some call → call < s.nextCall ∧ call ∉ s.refused
  fresh : ∀ call, s.nextCall ≤ call → changes s.log call = []
  refused : ∀ call ∈ s.refused, call < s.nextCall ∧ Undone s.log call
  tracked : ∀ t, Tracked s (s.pc t)

/-- A step of a post: it logs changes of its own call only. -/
structure Stepped (s next : State Tid) (call : Nat) (pc : Pc) : Prop where
  logged : Logged next
  others : ∀ other, other ≠ call → changes next.log other = changes s.log other
  nextCall : next.nextCall = s.nextCall
  stays : pc.call = some call ∨ pc = .idle
  tracked : Tracked next pc
  refused : next.refused = s.refused ∨
    next.refused = call :: s.refused ∧ pc = .idle ∧ Undone next.log call

/-- An operation that logs at most one change of the call. -/
structure Changed (s after : State Tid) (call : Nat) : Prop where
  logged : Logged after
  log : after.log = s.log ∨ ∃ effect, after.log = s.log ++ [(some call, effect)]
  control : after.control = s.control

theorem Changed.quiet {after : State Tid} {call : Nat} (hlogged : Logged s)
    (hshared : after.shared = s.shared) (hcontrol : after.control = s.control) :
    Changed s after call :=
  ⟨hlogged.congr hshared, Or.inl (congrArg Prod.fst hshared), hcontrol⟩

theorem Changed.others {after : State Tid} {call other : Nat} (hchanged : Changed s after call)
    (hne : other ≠ call) : changes after.log other = changes s.log other := by
  rcases hchanged.log with hsame | ⟨effect, hlog⟩
  · rw [hsame]
  · simp [hlog, changes_snoc, Ne.symm hne]

variable [DecidableEq Tid] {t : Tid}

theorem Changed.stepped {after : State Tid} {call : Nat} {pc : Pc}
    (hchanged : Changed s after call) (hcall : pc.call = some call ∨ pc = .idle)
    (htracked : Tracked after pc) :
    Stepped s (after.goto t pc) call ((after.goto t pc).pc t) := by
  have hpc : (after.goto t pc).pc t = pc := Function.update_self ..
  obtain ⟨hnext, hrefused⟩ := calls_of_control hchanged.control
  rw [hpc]
  refine ⟨hchanged.logged.congr rfl, fun other hne => hchanged.others hne, hnext, hcall, ?_,
    Or.inl hrefused⟩
  cases pc <;> exact htracked

theorem run_stepped (hlogged : Logged s) (hinv : Inv s) (htracked : Tracked s (s.pc t))
    (hrun : run s t = some next) :
    ∃ call, (s.pc t).call = some call ∧ Stepped s next call (next.pc t) := by
  have hhand : ∀ {pc}, s.pc t = pc → s.depot.hand (some t) = pc.hand := by
    rintro pc rfl
    rfl
  rw [run] at hrun
  cases hpc : s.pc t with
  | idle => simp [hpc] at hrun
  | acquire call args =>
      simp only [hpc, Option.some.injEq] at hrun htracked
      refine ⟨call, rfl, hrun ▸ ?_⟩
      have hchanged : Changed s (acquire s).1 call := .quiet hlogged acquire_shared acquire_control
      refine hchanged.stepped (Or.inl rfl) ?_
      have hlog : (acquire s).1.log = s.log := congrArg Prod.fst (acquire_shared (s := s))
      simpa only [Tracked, hlog] using htracked
  | build call args msg =>
      simp only [hpc, Option.some.injEq] at hrun htracked
      refine ⟨call, rfl, hrun ▸ ?_⟩
      have hchanged : Changed s (build s args msg) call :=
        .quiet hlogged build_shared build_control
      have hlog : (build s args msg).log = s.log := congrArg Prod.fst (build_shared (s := s))
      have hnone : (s.objects msg).managedData = none := hinv.depot.cargo_of_blank (hhand hpc)
      have hsame : ((build s args msg).objects msg).managedData = none := by
        rw [build]
        split <;> simpa [State.setObject] using hnone
      refine hchanged.stepped ?_ ?_
      · left
        split <;> rfl
      · split
        · simpa [Tracked, hlog, hsame] using htracked
        · simpa only [Tracked, hlog] using htracked
  | allocate call args msg =>
      simp only [hpc, Option.some.injEq] at hrun htracked
      refine ⟨call, rfl, hrun ▸ ?_⟩
      have hlog : (allocate s call args msg).log =
          s.log ++ [(some call, .malloc s.nextBlock)] := rfl
      have hchanged : Changed s (allocate s call args msg) call :=
        ⟨hlogged.allocate, Or.inr ⟨_, hlog⟩, rfl⟩
      refine hchanged.stepped (Or.inl rfl) ?_
      have hbefore : changes s.log call = [] := htracked
      simp [Tracked, changes_snoc, hbefore, allocate, State.record, State.setObject]
  | tryPush call msg =>
      simp only [hpc] at hrun htracked
      refine ⟨call, rfl, ?_⟩
      split at hrun
      · have hchanged : Changed s (push s call msg) call :=
          ⟨hlogged.push, Or.inr ⟨_, rfl⟩, rfl⟩
        exact Option.some.inj hrun ▸ hchanged.stepped (Or.inl rfl) trivial
      · have hchanged : Changed s s call := .quiet hlogged rfl rfl
        exact Option.some.inj hrun ▸ hchanged.stepped (Or.inl rfl) htracked
  | countPosted call =>
      simp only [hpc, Option.some.injEq] at hrun
      refine ⟨call, rfl, hrun ▸ ?_⟩
      have hchanged : Changed s (countPosted s call) call :=
        ⟨hlogged.countPosted, Or.inr ⟨_, rfl⟩, rfl⟩
      exact hchanged.stepped (Or.inr rfl) trivial
  | reset call msg =>
      simp only [hpc, Option.some.injEq] at hrun htracked
      refine ⟨call, rfl, hrun ▸ ?_⟩
      have hbefore : changes s.log call = (s.objects msg).managedData.toList.map .malloc := htracked
      rcases hmanaged : (s.objects msg).managedData with _ | block
      · have hlog : (reset s (some call) msg).log = s.log := by
          simp only [reset, hmanaged]
          rfl
        have hchanged : Changed s (reset s (some call) msg) call :=
          ⟨hlogged.reset, Or.inl hlog, reset_control⟩
        refine hchanged.stepped (Or.inl rfl) (Or.inl ?_)
        rw [hlog, hbefore, hmanaged]
        rfl
      · have hlog : (reset s (some call) msg).log = s.log ++ [(some call, .free block)] := by
          simp only [reset, hmanaged]
          rfl
        have hchanged : Changed s (reset s (some call) msg) call :=
          ⟨hlogged.reset, Or.inr ⟨_, hlog⟩, reset_control⟩
        refine hchanged.stepped (Or.inl rfl) (Or.inr ⟨block, ?_⟩)
        simp [hlog, changes_snoc, hbefore, hmanaged]
  | release call msg =>
      simp only [hpc, Option.some.injEq] at hrun htracked
      refine ⟨call, rfl, hrun ▸ ?_⟩
      have hchanged : Changed s (release s msg) call :=
        .quiet hlogged release_shared release_control
      have hlog : (release s msg).log = s.log := congrArg Prod.fst (release_shared (s := s))
      have hundone : Undone (release s msg).log call := hlog ▸ htracked
      have hidle : (refuse ((release s msg).goto t .idle) call).pc t = .idle :=
        Function.update_self ..
      obtain ⟨hnext, hrefused⟩ := calls_of_control hchanged.control
      rw [hidle]
      refine ⟨hchanged.logged.congr rfl, fun other hne => hchanged.others hne, hnext, Or.inr rfl,
        trivial, Or.inr ⟨?_, rfl, hundone⟩⟩
      exact congrArg (call :: ·) hrefused

omit [DecidableEq Tid] in
theorem Tracked.congr {pc : Pc} (htracked : Tracked s pc)
    (hchanges : ∀ call, pc.call = some call → changes next.log call = changes s.log call)
    (hmanaged : ∀ msg ∈ pc.hand.carriers,
      (next.objects msg).managedData = (s.objects msg).managedData) : Tracked next pc := by
  cases pc with
  | idle => trivial
  | countPosted call => trivial
  | acquire call args => exact (hchanges call rfl).trans htracked
  | build call args msg => exact (hchanges call rfl).trans htracked
  | allocate call args msg => exact (hchanges call rfl).trans htracked
  | tryPush call msg =>
      rw [Tracked, hchanges call rfl, hmanaged msg (by simp [Pc.hand, Hand.carriers])]
      exact htracked
  | reset call msg =>
      rw [Tracked, hchanges call rfl, hmanaged msg (by simp [Pc.hand, Hand.carriers])]
      exact htracked
  | release call msg =>
      rw [Tracked, Undone, hchanges call rfl]
      exact htracked

theorem Calls.run (hcalls : Calls s) (hlogged : Logged s) (hinv : Inv s)
    (hrun : run s t = some next) : Calls next := by
  obtain ⟨call, hcall, hstepped⟩ := run_stepped hlogged hinv (hcalls.tracked t) hrun
  obtain ⟨_, hothers⟩ := run_frame hrun
  have hmoves := run_moves hinv hrun
  obtain ⟨hlt, hnot⟩ := hcalls.current t call hcall
  -- the calls of the threads are those of before
  have hbefore : ∀ u other, (next.pc u).call = some other → (s.pc u).call = some other := by
    intro u other hnow
    by_cases heq : u = t
    · subst heq
      rcases hstepped.stays with hstays | hidle
      · rw [hcall, ← hnow, hstays]
      · simp [hidle, Pc.call] at hnow
    · rw [← hothers u heq]
      exact hnow
  have hkeep : ∀ u, u ≠ t → ∀ other, (s.pc u).call = some other → other ≠ call := by
    rintro u hne other hother rfl
    exact hne (hcalls.apart u t other hother hcall)
  refine ⟨?_, ?_, ?_, ?_, ?_⟩
  · intro u v other hu hv
    exact hcalls.apart u v other (hbefore u other hu) (hbefore v other hv)
  · intro u other hnow
    obtain ⟨hold, hopen⟩ := hcalls.current u other (hbefore u other hnow)
    refine ⟨hstepped.nextCall ▸ hold, fun hmem => ?_⟩
    rcases hstepped.refused with hsame | ⟨hmore, hidle, _⟩
    · exact hopen (hsame ▸ hmem)
    · rw [hmore] at hmem
      rcases List.mem_cons.mp hmem with rfl | hmem
      · have hu : u = t := hcalls.apart u t other (hbefore u other hnow) hcall
        simp [hu, hidle, Pc.call] at hnow
      · exact hopen hmem
  · intro other hge
    rw [hstepped.nextCall] at hge
    have hne : other ≠ call := by
      rintro rfl
      exact Nat.lt_irrefl _ (Nat.lt_of_lt_of_le hlt hge)
    rw [hstepped.others other hne]
    exact hcalls.fresh other hge
  · intro other hmem
    rw [hstepped.nextCall]
    have hundone : ∀ old ∈ s.refused, old < s.nextCall ∧ Undone next.log old := by
      intro old hold
      have hne : old ≠ call := by
        rintro rfl
        exact hnot hold
      rw [Undone, hstepped.others old hne]
      exact hcalls.refused old hold
    rcases hstepped.refused with hsame | ⟨hmore, _, hnew⟩
    · exact hundone other (hsame ▸ hmem)
    · rw [hmore] at hmem
      rcases List.mem_cons.mp hmem with rfl | hmem
      · exact ⟨hlt, hnew⟩
      · exact hundone other hmem
  · intro u
    by_cases heq : u = t
    · exact heq ▸ hstepped.tracked
    · rw [hothers u heq]
      refine (hcalls.tracked u).congr (fun other hother => ?_) fun msg hmem => ?_
      · exact hstepped.others other (hkeep u heq other hother)
      · have hne : some u ≠ some t := fun hsome => heq (Option.some.inj hsome)
        exact (hmoves.keeps hinv.depot hne hmem).1

omit [DecidableEq Tid] in
/-- The dispatch thread logs nothing under the name of a call. -/
theorem dispatchLoop_logged (hlogged : Logged s) (hdispatch : dispatchLoop s = some next) :
    Logged next ∧ (∀ call, changes next.log call = changes s.log call) ∧
      next.nextCall = s.nextCall ∧ next.refused = s.refused := by
  have hnone : ∀ {after : State Tid} {effect : Effect} (call : Nat),
      after.log = s.log ++ [(none, effect)] → changes after.log call = changes s.log call := by
    intro after effect call hlog
    simp [hlog, changes_snoc]
  rw [dispatchLoop] at hdispatch
  cases hpc : s.dispatcher with
  | off => simp [hpc] at hdispatch
  | tryPop draining =>
      simp only [hpc] at hdispatch
      split at hdispatch
      · next msg rest hqueue =>
        rw [← Option.some.inj hdispatch]
        exact ⟨(hlogged.pop hqueue).congr rfl, fun call => hnone call rfl, rfl, rfl⟩
      · rw [← Option.some.inj hdispatch]
        exact ⟨hlogged.congr rfl, fun _ => rfl, rfl, rfl⟩
  | dispatch draining msg =>
      simp only [hpc, Option.some.injEq] at hdispatch
      rw [← hdispatch, dispatch]
      split <;> exact ⟨hlogged.congr rfl, fun _ => rfl, rfl, rfl⟩
  | observers draining msg args rest =>
      rcases rest with _ | ⟨_ | callback, rest⟩ <;>
        simp only [hpc, Option.some.injEq] at hdispatch <;>
        exact hdispatch ▸ ⟨hlogged.congr rfl, fun _ => rfl, rfl, rfl⟩
  | reset draining msg =>
      simp only [hpc, Option.some.injEq] at hdispatch
      rw [← hdispatch]
      have hcontrol : (reset s none msg).control = s.control := reset_control
      have hsame := calls_of_control hcontrol
      refine ⟨hlogged.reset.congr rfl, fun call => ?_, hsame⟩
      rcases hmanaged : (s.objects msg).managedData with _ | block
      · have hlog : (reset s none msg).log = s.log := by
          simp only [reset, hmanaged]
          rfl
        exact congrArg (changes · call) hlog
      · have hlog : (reset s none msg).log = s.log ++ [(none, .free block)] := by
          simp only [reset, hmanaged]
          rfl
        exact hnone call hlog
  | release draining msg =>
      simp only [hpc, Option.some.injEq] at hdispatch
      rw [← hdispatch]
      have hlogged' : Logged (release s msg) := hlogged.congr release_shared
      have hlog : (release s msg).log = s.log := congrArg Prod.fst (release_shared (s := s))
      have hcontrol : (release s msg).control = s.control := release_control
      have hsame := calls_of_control hcontrol
      exact ⟨hlogged'.congr rfl, fun call => congrArg (changes · call) hlog, hsame⟩
  | countDispatched draining =>
      simp only [hpc, Option.some.injEq] at hdispatch
      rw [← hdispatch]
      exact ⟨hlogged.countDispatched.congr rfl, fun call => hnone call rfl, rfl, rfl⟩
  | _ =>
      simp only [hpc, Option.some.injEq] at hdispatch
      exact hdispatch ▸ ⟨hlogged.congr rfl, fun _ => rfl, rfl, rfl⟩

theorem Calls.dispatchLoop (hcalls : Calls s) (hlogged : Logged s) (hinv : Inv s)
    (hdispatch : dispatchLoop s = some next) : Calls next := by
  obtain ⟨_, hchanges, hnext, hrefused⟩ := dispatchLoop_logged hlogged hdispatch
  have hmoves := dispatchLoop_moves hdispatch
  have hpc := dispatchLoop_pc hdispatch
  refine ⟨?_, ?_, ?_, ?_, ?_⟩
  · rw [hpc]
    exact hcalls.apart
  · rw [hpc, hnext, hrefused]
    exact hcalls.current
  · intro call hge
    rw [hchanges]
    exact hcalls.fresh call (hnext ▸ hge)
  · intro call hmem
    rw [hnext, Undone, hchanges]
    exact hcalls.refused call (hrefused ▸ hmem)
  · intro t
    rw [hpc]
    refine (hcalls.tracked t).congr (fun call _ => hchanges call) fun msg hmem => ?_
    exact (hmoves.keeps hinv.depot (Option.some_ne_none t) hmem).1

omit [DecidableEq Tid] in
/-- A step that moves no call and logs nothing. -/
theorem Calls.congr (hcalls : Calls s) (hlog : next.log = s.log) (hpc : next.pc = s.pc)
    (hnext : next.nextCall = s.nextCall) (hrefused : next.refused = s.refused)
    (hobjects : next.objects = s.objects) : Calls next := by
  refine ⟨?_, ?_, ?_, ?_, ?_⟩
  · rw [hpc]
    exact hcalls.apart
  · rw [hpc, hnext, hrefused]
    exact hcalls.current
  · rw [hnext, hlog]
    exact hcalls.fresh
  · rw [hrefused, hnext, hlog]
    exact hcalls.refused
  · intro t
    rw [hpc]
    refine (hcalls.tracked t).congr (fun call _ => ?_) fun msg _ => ?_
    · rw [hlog]
    · rw [hobjects]

theorem Calls.post {args : PostArgs} (hcalls : Calls s) : Calls (post s t args) := by
  have hnew : changes s.log s.nextCall = [] := hcalls.fresh _ (Nat.le_refl _)
  have hold : ∀ {u call}, (s.pc u).call = some call → call ≠ s.nextCall :=
    fun hcall => Nat.ne_of_lt (hcalls.current _ _ hcall).1
  have hyoung : s.nextCall ∉ s.refused :=
    fun hmem => Nat.lt_irrefl _ (hcalls.refused _ hmem).1
  have hfresh : ∀ call, s.nextCall + 1 ≤ call → changes s.log call = [] :=
    fun call hge => hcalls.fresh call (Nat.le_of_succ_le hge)
  have hrefused : ∀ call ∈ s.refused, call < s.nextCall + 1 ∧ Undone s.log call := fun call hmem =>
    ⟨Nat.lt_succ_of_lt (hcalls.refused call hmem).1, (hcalls.refused call hmem).2⟩
  rw [Blocks.post]
  split
  · refine ⟨hcalls.apart, fun u call hcall => ?_, hfresh, fun call hmem => ?_, fun u => ?_⟩
    · obtain ⟨hlt, hnot⟩ := hcalls.current u call hcall
      refine ⟨Nat.lt_succ_of_lt hlt, fun hmem => ?_⟩
      rcases List.mem_cons.mp hmem with rfl | hmem
      · exact hold hcall rfl
      · exact hnot hmem
    · rcases List.mem_cons.mp hmem with rfl | hmem
      · exact ⟨Nat.lt_succ_self _, Or.inl hnew⟩
      · exact hrefused call hmem
    · exact (hcalls.tracked u).congr (fun _ _ => rfl) fun _ _ => rfl
  · have hself : Function.update s.pc t (.acquire s.nextCall args) t = .acquire s.nextCall args :=
      Function.update_self ..
    have hother : ∀ u, u ≠ t →
        Function.update s.pc t (.acquire s.nextCall args) u = s.pc u :=
      fun u hne => Function.update_of_ne hne _ _
    have hcases : ∀ u call, (Function.update s.pc t (.acquire s.nextCall args) u).call = some call →
        (u = t ∧ call = s.nextCall) ∨ (u ≠ t ∧ (s.pc u).call = some call) := by
      intro u call hcall
      by_cases heq : u = t
      · rw [heq, hself] at hcall
        exact Or.inl ⟨heq, (Option.some.inj hcall).symm⟩
      · rw [hother u heq] at hcall
        exact Or.inr ⟨heq, hcall⟩
    refine ⟨fun u v call hu hv => ?_, fun u call hcall => ?_, hfresh, hrefused, fun u => ?_⟩
    · rcases hcases u call hu with ⟨hu, hmine⟩ | ⟨_, hbefore⟩
      · rcases hcases v call hv with ⟨hv, _⟩ | ⟨_, hbefore'⟩
        · exact hu.trans hv.symm
        · exact absurd hmine (hold hbefore')
      · rcases hcases v call hv with ⟨_, hmine⟩ | ⟨_, hbefore'⟩
        · exact absurd hmine (hold hbefore)
        · exact hcalls.apart u v call hbefore hbefore'
    · rcases hcases u call hcall with ⟨_, rfl⟩ | ⟨_, hcall⟩
      · exact ⟨Nat.lt_succ_self _, hyoung⟩
      · exact ⟨Nat.lt_succ_of_lt (hcalls.current u call hcall).1, (hcalls.current u call hcall).2⟩
    · by_cases heq : u = t
      · have hpc : ({ s with nextCall := s.nextCall + 1 }.goto t (.acquire s.nextCall args)).pc u =
            .acquire s.nextCall args := heq ▸ hself
        rw [hpc]
        exact hnew
      · have hpc : ({ s with nextCall := s.nextCall + 1 }.goto t (.acquire s.nextCall args)).pc u =
            s.pc u := hother u heq
        rw [hpc]
        exact (hcalls.tracked u).congr (fun _ _ => rfl) fun _ _ => rfl

/-! ### All runs -/

theorem Logged.step {action : Action Tid} (hlogged : Logged s) (hcalls : Calls s) (hinv : Inv s)
    (hstep : Blocks.step s action = some next) : Logged next ∧ Calls next := by
  cases action with
  | run t =>
      obtain ⟨_, _, hstepped⟩ := run_stepped hlogged hinv (hcalls.tracked t) hstep
      exact ⟨hstepped.logged, hcalls.run hlogged hinv hstep⟩
  | dispatcher =>
      exact ⟨(dispatchLoop_logged hlogged hstep).1, hcalls.dispatchLoop hlogged hinv hstep⟩
  | post t args =>
      simp only [Blocks.step] at hstep
      split at hstep
      · have hshared : (post s t args).shared = s.shared := by
          rw [post]
          split <;> rfl
        exact Option.some.inj hstep ▸ ⟨hlogged.congr hshared, hcalls.post⟩
      · cases hstep
  | addObserver topicId callback =>
      simp only [Blocks.step, Option.ite_none_left_eq_some] at hstep
      rw [← Option.some.inj hstep.2, addObserver]
      split
      · exact ⟨hlogged, hcalls⟩
      · exact ⟨hlogged.congr rfl, hcalls.congr rfl rfl rfl rfl rfl⟩
  | start =>
      simp only [Blocks.step] at hstep
      split at hstep
      · exact Option.some.inj hstep ▸ ⟨hlogged.congr rfl, hcalls.congr rfl rfl rfl rfl rfl⟩
      · exact Option.some.inj hstep ▸ ⟨hlogged, hcalls⟩
  | stop =>
      simp only [Blocks.step] at hstep
      split at hstep
      · exact Option.some.inj hstep ▸ ⟨hlogged, hcalls⟩
      · exact Option.some.inj hstep ▸ ⟨hlogged.congr rfl, hcalls.congr rfl rfl rfl rfl rfl⟩

omit [DecidableEq Tid] in
theorem logged_init : Logged (init : State Tid) :=
  ⟨rfl, fun _ _ hmem => absurd hmem List.not_mem_nil, fun _ _ _ hmem => absurd hmem List.not_mem_nil,
    fun _ _ hmem => absurd hmem List.not_mem_nil⟩

omit [DecidableEq Tid] in
theorem calls_init : Calls (init : State Tid) :=
  ⟨fun _ _ _ hcall => (nomatch hcall), fun _ _ hcall => (nomatch hcall), fun _ _ => rfl,
    fun _ hmem => absurd hmem List.not_mem_nil, fun _ => trivial⟩

theorem reachable_logged (hreach : (machine Tid).Reachable s) : Logged s ∧ Calls s := by
  have hall : Inv s ∧ Logged s ∧ Calls s := by
    refine hreach.invariant (fun s => Inv s ∧ Logged s ∧ Calls s)
      ⟨inv_init, logged_init, calls_init⟩ fun s next action hinv hstep => ?_
    obtain ⟨hinv, hlogged, hcalls⟩ := hinv
    exact ⟨hinv.step hstep, hlogged.step hcalls hinv hstep⟩
  exact hall.2

/-! ### The law -/

omit [DecidableEq Tid] in
/-- The message is being built, queued or being dispatched. -/
def State.InUse (s : State Tid) (msg : Addr) : Prop :=
  (∃ t, msg ∈ (s.pc t).hand.carriers) ∨ msg ∈ s.m_queue ∨ msg ∈ s.dispatcher.hand.carriers

omit [DecidableEq Tid] in
/-- The callbacks of the message that is dispatched get the block. -/
def State.Visible (s : State Tid) (block : BlockId) : Prop :=
  ∃ msg args, s.dispatcher.seen = some (msg, args) ∧ args.data = .managedData (some block)

omit [DecidableEq Tid] in
structure BlockOwnership (s : State Tid) : Prop where
  live : ∀ block, (s.blocks block).isSome = true ↔ ∃ msg, s.InUse msg ∧
    (s.objects msg).flags &&& 1 ≠ 0 ∧ (s.objects msg).managedData = some block
  /-- queued, or in `dispatch` and not reset yet -/
  owned : ∀ msg, msg ∈ s.m_queue ∨ s.dispatcher.hand = .ready msg →
    ((s.objects msg).flags &&& 1 ≠ 0 ↔ ∃ block, (s.objects msg).managedData = some block)
  unshared : ∀ msg other block, (s.objects msg).managedData = some block →
    (s.objects other).managedData = some block → msg = other
  pooled : ∀ msg ∈ s.m_freeList, (s.objects msg).managedData = none
  freedOnce : s.freed.Nodup
  freed : ∀ block, block ∈ s.freed ↔ block < s.nextBlock ∧ s.blocks block = none
  visible : ∀ block, s.Visible block → (s.blocks block).isSome = true ∧ block ∉ s.freed
  replayed : s.view = replay s.log
  refused : ∀ call ∈ s.refused, replay (without s.log call) = replay s.log

omit [DecidableEq Tid] in
theorem Inv.inUse_of_ready (hready : s.depot.Ready msg) : s.InUse msg := by
  rcases hready with hqueue | ⟨actor, hhand⟩
  · exact Or.inr (Or.inl hqueue)
  · have hmem : msg ∈ (s.depot.hand actor).carriers := by simp [hhand, Hand.carriers]
    cases actor with
    | none => exact Or.inr (Or.inr hmem)
    | some t => exact Or.inl ⟨t, hmem⟩

/-- **Large payloads are freed exactly once.** -/
theorem block_ownership (hreach : (machine Tid).Reachable s) : BlockOwnership s := by
  have hinv := reachable_inv hreach
  obtain ⟨hlogged, hcalls⟩ := reachable_logged hreach
  have hmark : ∀ msg, (s.objects msg).hasBlock = true ↔ (s.objects msg).flags &&& 1 ≠ 0 := by
    intro msg
    simp [MessageFast.hasBlock]
  have hgone : ∀ block, block ∈ s.freed ↔ block < s.nextBlock ∧ s.blocks block = none := by
    intro block
    have hiff := hinv.depot.gone block
    simpa [State.depot] using hiff
  refine ⟨fun block => ?_, fun msg hmsg => ?_, fun msg other block hmsg hother => ?_,
    fun msg hmem => hinv.depot.cargo_of_pool hmem, hinv.depot.once, hgone, fun block hvisible => ?_,
    hlogged.replayed, fun call hmem => ?_⟩
  · constructor
    · intro hlive
      obtain ⟨msg, hcargo⟩ := hinv.depot.live_iff.mp hlive
      have hsome : s.depot.cargo msg ≠ none := by simp [hcargo]
      have hready := hinv.depot.filled msg hsome
      exact ⟨msg, Inv.inUse_of_ready hready,
        (hmark msg).mp ((hinv.depot.marks msg hready).mpr hsome), hcargo⟩
    · rintro ⟨msg, _, _, hcargo⟩
      exact hinv.depot.live_iff.mpr ⟨msg, hcargo⟩
  · have hready : s.depot.Ready msg := by
      rcases hmsg with hqueue | hhand
      · exact Or.inl hqueue
      · exact Or.inr ⟨none, hhand⟩
    rw [← hmark, ← Option.ne_none_iff_exists']
    exact hinv.depot.marks msg hready
  · exact hinv.depot.carrier_unique hmsg hother
  · obtain ⟨msg, args, hseen, hdata⟩ := hvisible
    have hpointer := hinv.seen msg args hseen
    have hcargo : (s.objects msg).managedData = some block := by
      rw [hdata, MessageFast.data] at hpointer
      split at hpointer
      · exact (DataPointer.managedData.inj hpointer).symm
      · cases hpointer
    have hlive : (s.blocks block).isSome = true := hinv.depot.live_iff.mpr ⟨msg, hcargo⟩
    refine ⟨hlive, fun hfreed => ?_⟩
    simp [((hgone block).mp hfreed).2] at hlive
  · apply replay_without (hcalls.refused call hmem).2
    · exact fun caller block hmine hother => (hlogged.sole _ _ _ hmine hother).symm
    · intro block hfree
      have hnone := ((hgone block).mp (hlogged.freed _ _ hfree)).2
      rw [← hlogged.replayed]
      simp [State.view, hnone]

/-- Where the run below stops: an observer has the block of a message that is dispatched. -/
def inCallback (s : State Unit) : Bool :=
  s.dispatcher.seen.isSome && (s.blocks 0).isSome && s.refused = [0]

/-- A post to an invalid topic, and one that is dispatched. -/
theorem block_ownership_callback :
    ∃ s, (machine Unit).Reachable s ∧ inCallback s = true ∧ BlockOwnership s := by
  obtain ⟨s, hreach, htest⟩ := Machine.exists_reachable_of_run (machine Unit)
    [.addObserver 3 (some 7), .start, .post () ⟨1024, none, 100⟩, .post () ⟨3, none, 100⟩,
      .run (), .run (), .run (), .run (), .run (), .dispatcher, .dispatcher, .dispatcher,
      .dispatcher] inCallback (by decide +kernel)
  exact ⟨s, hreach, htest, block_ownership hreach⟩

end MessageCenter.MessageCenterFast.Blocks
