import MessageCenter.Lib.Composition
import MessageCenter.MpmcQueue.Linearization

/-!
# Programs over the ring

A program whose threads share some state and use one queue of `T *`.  The ring holds the pointers;
what they point to stays as it is from the push to the pop, so a pointer is taken to be a new one
for every push.

Over the ring a call takes many steps and overlaps with those of other threads.  As a thread does
nothing else while it is in a call, the call might as well happen at once: whatever such a program
comes to over the ring, it comes to with calls that are one step each and a queue of `T`, if a call
may also miss.  So what is proved of a program with an atomic queue holds of it over the ring, once
it is known to bear misses.
-/

namespace MessageCenter.MPMCQueue

open Concurrency

universe u v w

/-! ### What a call has to do with -/

section Items

variable {T : Type v} {U : Type w}

def Op.items : Op T → List T
  | .tryPush item => [item]
  | .tryPop => []

def Result.items : Result T → List T
  | .popped (some (some item)) => [item]
  | _ => []

def AtomicQueue.Phase.items : AtomicQueue.Phase T → List T
  | .idle => []
  | .called op => op.items
  | .settling result | .returning result => result.items

theorem Op.map_congr {f g : T → U} {op : Op T} (h : ∀ item ∈ op.items, f item = g item) :
    op.map f = op.map g := by
  cases op with
  | tryPush item => rw [Op.map, Op.map, h item List.mem_cons_self]
  | tryPop => rfl

theorem Result.map_congr {f g : T → U} {result : Result T}
    (h : ∀ item ∈ result.items, f item = g item) : result.map f = result.map g := by
  rcases result with ok | ⟨_ | _ | item⟩
  · rfl
  · rfl
  · rfl
  · simp only [Result.map, Option.map_some, h item List.mem_cons_self]

theorem Result.map_map {V : Type u} (f : T → U) (g : U → V) (result : Result T) :
    (result.map f).map g = result.map fun item => g (f item) := by
  rcases result with ok | ⟨_ | _ | item⟩ <;> rfl

theorem Result.mem_items_map {f : T → U} {result : Result T} {item : U}
    (hmem : item ∈ (result.map f).items) : ∃ old ∈ result.items, f old = item := by
  rcases result with ok | ⟨_ | _ | old⟩
  · cases hmem
  · cases hmem
  · cases hmem
  · exact ⟨old, List.mem_cons_self, (List.mem_singleton.mp hmem).symm⟩

/-- A queue gives nothing that it has not been given. -/
theorem mem_fifoStep {limit : Nat} {items : List T} {op : Op T} {item : T} :
    (item ∈ (fifoStep limit items op).1 → item ∈ items ∨ item ∈ op.items) ∧
      (item ∈ (fifoStep limit items op).2.items → item ∈ items) := by
  cases op with
  | tryPush new =>
      simp only [fifoStep]
      split
      · exact ⟨fun hmem => List.mem_append.mp hmem, fun hmem => absurd hmem List.not_mem_nil⟩
      · exact ⟨Or.inl, fun hmem => absurd hmem List.not_mem_nil⟩
  | tryPop =>
      cases items with
      | nil => exact ⟨Or.inl, fun hmem => absurd hmem List.not_mem_nil⟩
      | cons first rest =>
          refine ⟨fun hmem => Or.inl (List.mem_cons_of_mem first hmem), fun hmem => ?_⟩
          rw [List.mem_singleton.mp hmem]
          exact List.mem_cons_self

end Items

/-- A program whose threads use a queue of `T *`. -/
structure Caller (Shared Thread Act T : Type) where
  shared : Shared
  start : Thread
  /-- what a pointer to nothing shows -/
  blank : T
  /-- the call that the thread makes next -/
  wants : Thread → Option (Op T)
  /-- the thread after that call -/
  resume : Thread → Result T → Thread
  /-- a step that makes no call -/
  inner : Shared → Thread → Act → Option (Shared × Thread)

namespace Caller

variable {Tid Shared Thread Act T : Type}

structure State (Tid Shared Thread T : Type) where
  shared : Shared
  threads : Tid → Thread
  inCall : Tid → Bool
  /-- what the pointers point to -/
  memory : Nat → T
  nextPointer : Nat

inductive Action (Tid Act : Type) where
  | inner (t : Tid) (act : Act)
  | call (t : Tid)
  | ret (t : Tid) (result : Result Nat)
deriving DecidableEq, Repr

def label (program : Caller Shared Thread Act T) (p : State Tid Shared Thread T) :
    Action Tid Act → Option (CallEvent Tid Nat)
  | .inner _ _ => none
  | .call t => (program.wants (p.threads t)).map fun op => .call t (op.map fun _ => p.nextPointer)
  | .ret t result => some (.ret t result)

variable [DecidableEq Tid]

/-- The call begins; a push needs a pointer. -/
def State.enter (p : State Tid Shared Thread T) (t : Tid) : Op T → State Tid Shared Thread T
  | .tryPush item =>
      { p with
        inCall := Function.update p.inCall t true
        memory := Function.update p.memory p.nextPointer item
        nextPointer := p.nextPointer + 1 }
  | .tryPop => { p with inCall := Function.update p.inCall t true }

def step (program : Caller Shared Thread Act T) (p : State Tid Shared Thread T) :
    Action Tid Act → Option (State Tid Shared Thread T)
  | .inner t act =>
      if p.inCall t then none
      else (program.inner p.shared (p.threads t) act).map fun (shared, thread) =>
        { p with shared := shared, threads := Function.update p.threads t thread }
  | .call t =>
      if p.inCall t then none
      else (program.wants (p.threads t)).map (p.enter t)
  | .ret t result =>
      if p.inCall t then
        let thread := program.resume (p.threads t) (result.map p.memory)
        some { p with
          threads := Function.update p.threads t thread
          inCall := Function.update p.inCall t false }
      else none

/-- The program with the calls that it shows. -/
def system (Tid : Type) [DecidableEq Tid] (program : Caller Shared Thread Act T) :
    Observed (State Tid Shared Thread T) (Action Tid Act) (CallEvent Tid Nat) where
  machine :=
    ⟨⟨program.shared, fun _ => program.start, fun _ => false, fun _ => program.blank, 0⟩,
      program.step⟩
  label := program.label

/-! ### Calls in one step -/

structure AtomicState (Tid Shared Thread T : Type) where
  shared : Shared
  threads : Tid → Thread
  items : List T

inductive AtomicAction (Tid Act : Type) where
  | inner (t : Tid) (act : Act)
  | call (t : Tid)
  | miss (t : Tid)
deriving DecidableEq, Repr

def atomicStep (program : Caller Shared Thread Act T) (limit : Nat)
    (p : AtomicState Tid Shared Thread T) :
    AtomicAction Tid Act → Option (AtomicState Tid Shared Thread T)
  | .inner t act =>
      (program.inner p.shared (p.threads t) act).map fun (shared, thread) =>
        { p with shared := shared, threads := Function.update p.threads t thread }
  | .call t =>
      (program.wants (p.threads t)).map fun op =>
        let (items, result) := fifoStep limit p.items op
        { p with
          threads := Function.update p.threads t (program.resume (p.threads t) result)
          items := items }
  | .miss t =>
      (program.wants (p.threads t)).map fun op =>
        { p with
          threads := Function.update p.threads t
            (program.resume (p.threads t) (AtomicQueue.missed op)) }

def atomicMachine (Tid : Type) [DecidableEq Tid] (program : Caller Shared Thread Act T)
    (limit : Nat) : Machine (AtomicState Tid Shared Thread T) (AtomicAction Tid Act) :=
  ⟨⟨program.shared, fun _ => program.start, []⟩, program.atomicStep limit⟩

/-! ### The reduction -/

variable {program : Caller Shared Thread Act T} {limit : Nat}

/-- A thread whose call has taken effect counts as being after it. -/
def after (program : Caller Shared Thread Act T) (memory : Nat → T) (thread : Thread) :
    AtomicQueue.Phase Nat → Thread
  | .settling result | .returning result => program.resume thread (result.map memory)
  | .idle | .called _ => thread

def view (program : Caller Shared Thread Act T) (p : State Tid Shared Thread T)
    (a : AtomicQueue.State Tid Nat) : AtomicState Tid Shared Thread T :=
  ⟨p.shared, fun t => program.after p.memory (p.threads t) (a.phase t),
    a.items.map fun entry => p.memory entry.2⟩

/-- What the queue knows of the call of a thread, the program knows too. -/
def Agrees (program : Caller Shared Thread Act T) (memory : Nat → T) (thread : Thread)
    (inCall : Bool) : AtomicQueue.Phase Nat → Prop
  | .idle => inCall = false
  | .called op => inCall = true ∧ program.wants thread = some (op.map memory)
  | .settling _ | .returning _ => inCall = true

/-- The program and the queue; all pointers have been given out. -/
structure Synced (program : Caller Shared Thread Act T) (p : State Tid Shared Thread T)
    (a : AtomicQueue.State Tid Nat) : Prop where
  agrees : ∀ t, program.Agrees p.memory (p.threads t) (p.inCall t) (a.phase t)
  queued : ∀ entry ∈ a.items, entry.2 < p.nextPointer
  held : ∀ t, ∀ pointer ∈ (a.phase t).items, pointer < p.nextPointer

variable {p next : State Tid Shared Thread T} {a a' : AtomicQueue.State Tid Nat} {t : Tid}

omit [DecidableEq Tid] in
theorem Synced.phase_idle (h : program.Synced p a) (hout : p.inCall t = false) :
    a.phase t = .idle := by
  have hagrees := h.agrees t
  cases hphase : a.phase t with
  | idle => rfl
  | called op =>
      rw [hphase, Agrees, hout] at hagrees
      cases hagrees.1
  | settling result | returning result =>
      rw [hphase, Agrees, hout] at hagrees
      cases hagrees

/-- A step of `t` that gives out no pointer. -/
theorem Synced.update {thread : Thread} {inCall : Bool} {phase : AtomicQueue.Phase Nat}
    (h : program.Synced p a) (hthreads : next.threads = Function.update p.threads t thread)
    (hinCall : next.inCall = Function.update p.inCall t inCall)
    (hmemory : next.memory = p.memory) (hpointer : next.nextPointer = p.nextPointer)
    (hphase : a'.phase = Function.update a.phase t phase)
    (hself : program.Agrees p.memory thread inCall phase)
    (hqueued : ∀ entry ∈ a'.items, entry.2 < p.nextPointer)
    (hheld : ∀ pointer ∈ phase.items, pointer < p.nextPointer) : program.Synced next a' := by
  refine ⟨fun other => ?_, hpointer ▸ hqueued, fun other => ?_⟩
  · rw [hthreads, hinCall, hphase, hmemory]
    by_cases heq : other = t
    · rw [heq, Function.update_self, Function.update_self, Function.update_self]
      exact hself
    · rw [Function.update_of_ne heq, Function.update_of_ne heq, Function.update_of_ne heq]
      exact h.agrees other
  · rw [hphase, hpointer]
    by_cases heq : other = t
    · rw [heq, Function.update_self]
      exact hheld
    · rw [Function.update_of_ne heq]
      exact h.held other

theorem view_update (program : Caller Shared Thread Act T) (next : State Tid Shared Thread T)
    {thread : Thread} {phase : AtomicQueue.Phase Nat}
    (hthreads : next.threads = Function.update p.threads t thread)
    (hmemory : next.memory = p.memory) (hphase : a'.phase = Function.update a.phase t phase) :
    program.view next a' = ⟨next.shared,
      Function.update (program.view p a).threads t (program.after p.memory thread phase),
      a'.items.map fun entry => p.memory entry.2⟩ := by
  have hview : ∀ other, program.after next.memory (next.threads other) (a'.phase other) =
      Function.update (program.view p a).threads t (program.after p.memory thread phase) other := by
    intro other
    rw [hthreads, hphase, hmemory]
    by_cases heq : other = t
    · rw [heq, Function.update_self, Function.update_self, Function.update_self]
    · rw [Function.update_of_ne heq, Function.update_of_ne heq, Function.update_of_ne heq]
      rfl
  rw [view, funext hview, hmemory]

/-- A step inside a call that does not make it take effect. -/
theorem view_same {phase : AtomicQueue.Phase Nat}
    (hphase : a'.phase = Function.update a.phase t phase)
    (hitems : (a'.items.map fun entry => p.memory entry.2) =
      a.items.map fun entry => p.memory entry.2)
    (hafter : program.after p.memory (p.threads t) phase =
      program.after p.memory (p.threads t) (a.phase t)) :
    program.view p a' = program.view p a := by
  rw [view_update program p (Function.update_eq_self t p.threads).symm rfl hphase, hafter, hitems]
  exact congrArg (AtomicState.mk p.shared · _)
    (Function.update_eq_self t (program.view p a).threads)

/-- The program with calls in one step makes a step, or none. -/
def Answers (program : Caller Shared Thread Act T) (limit : Nat)
    (before after : AtomicState Tid Shared Thread T) : Prop :=
  after = before ∨ ∃ action, program.atomicStep limit before action = some after

theorem Synced.program_step (h : program.Synced p a) {action : Action Tid Act}
    (hlabel : program.label p action = none) (hstep : program.step p action = some next) :
    program.Synced next a ∧ program.Answers limit (program.view p a) (program.view next a) := by
  cases action with
  | inner t act =>
      simp only [step] at hstep
      split at hstep
      · cases hstep
      · next hout =>
        obtain ⟨⟨shared, thread⟩, hinner, rfl⟩ := Option.map_eq_some_iff.mp hstep
        have hfalse : p.inCall t = false := Bool.eq_false_iff.mpr hout
        have hidle := h.phase_idle hfalse
        have hphase : a.phase = Function.update a.phase t .idle := by
          rw [← hidle, Function.update_eq_self]
        have hinCall : p.inCall = Function.update p.inCall t false := by
          rw [← hfalse, Function.update_eq_self]
        refine ⟨h.update rfl hinCall rfl rfl hphase rfl h.queued nofun, Or.inr ⟨.inner t act, ?_⟩⟩
        have hthread : (program.view p a).threads t = p.threads t := by
          simp only [view, hidle, after]
        have hshared : (program.view p a).shared = p.shared := rfl
        have hview : program.view
            { p with shared := shared, threads := Function.update p.threads t thread } a =
            ⟨shared, Function.update (program.view p a).threads t thread,
              (program.view p a).items⟩ := view_update program (p := p) _ (by rfl) (by rfl) hphase
        rw [atomicStep, hthread, hshared, hinner, Option.map_some, hview]
  | call t =>
      simp only [step] at hstep
      split at hstep
      · cases hstep
      · obtain ⟨op, hwants, -⟩ := Option.map_eq_some_iff.mp hstep
        simp [label, hwants] at hlabel
  | ret t result => cases hlabel

/-- A call takes effect, or misses. -/
theorem Synced.answered (h : program.Synced p a) {op : Op Nat} {result : Result Nat}
    {phase : AtomicQueue.Phase Nat} (hcalled : a.phase t = .called op)
    (hphase : a'.phase = Function.update a.phase t phase)
    (hresult : phase = .settling result ∨ phase = .returning result)
    (hqueued : ∀ entry ∈ a'.items, entry.2 < p.nextPointer)
    (hheld : ∀ pointer ∈ result.items, pointer < p.nextPointer) :
    program.Synced p a' ∧
      program.wants ((program.view p a).threads t) = some (op.map p.memory) ∧
      program.view p a' = ⟨(program.view p a).shared,
        Function.update (program.view p a).threads t
          (program.resume ((program.view p a).threads t) (result.map p.memory)),
        a'.items.map fun entry => p.memory entry.2⟩ := by
  have hagrees := h.agrees t
  rw [hcalled] at hagrees
  have hthread : (program.view p a).threads t = p.threads t := by
    simp only [view, hcalled, after]
  have hself : program.Agrees p.memory (p.threads t) (p.inCall t) phase ∧
      program.after p.memory (p.threads t) phase =
        program.resume (p.threads t) (result.map p.memory) ∧
      phase.items = result.items := by
    rcases hresult with rfl | rfl
    · exact ⟨hagrees.1, rfl, rfl⟩
    · exact ⟨hagrees.1, rfl, rfl⟩
  refine ⟨h.update (Function.update_eq_self t p.threads).symm
    (Function.update_eq_self t p.inCall).symm rfl rfl hphase hself.1 hqueued
    (hself.2.2 ▸ hheld), hthread ▸ hagrees.2, ?_⟩
  rw [view_update program p (Function.update_eq_self t p.threads).symm rfl hphase, hthread, hself.2.1]
  rfl

theorem Synced.queue_step (h : program.Synced p a) {action : AtomicQueue.Action Tid Nat}
    (hlabel : AtomicQueue.label a action = none)
    (hstep : AtomicQueue.step limit a action = some a') :
    program.Synced p a' ∧ program.Answers limit (program.view p a) (program.view p a') := by
  cases action with
  | call t op => cases hlabel
  | effect t =>
      simp only [AtomicQueue.step] at hstep
      split at hstep
      · next op hcalled =>
        have heq := Option.some.inj hstep
        have hitemsEq : a'.items = (fifoStep limit a.items (AtomicQueue.mark t op)).1 := heq ▸ rfl
        have hown := h.held t
        rw [hcalled] at hown
        have hitems : ∀ entry ∈ a'.items, entry.2 < p.nextPointer := by
          intro entry hmem
          rw [hitemsEq] at hmem
          rcases mem_fifoStep.1 hmem with hold | hnew
          · exact h.queued entry hold
          · cases op with
            | tryPush pointer =>
                rw [List.mem_singleton.mp hnew]
                exact hown pointer List.mem_cons_self
            | tryPop => cases hnew
        have hresult : ∀ pointer ∈ ((fifoStep limit a.items (AtomicQueue.mark t op)).2.map
            Prod.snd).items, pointer < p.nextPointer := by
          intro pointer hmem
          obtain ⟨entry, hentry, rfl⟩ := Result.mem_items_map hmem
          exact h.queued entry (mem_fifoStep.2 hentry)
        obtain ⟨hsynced, hwants, hview⟩ :=
          h.answered hcalled (heq ▸ rfl) (AtomicQueue.afterEffect_cases _) hitems hresult
        refine ⟨hsynced, Or.inr ⟨.call t, ?_⟩⟩
        have hmark : (AtomicQueue.mark t op).map (fun entry => p.memory entry.2) =
            op.map p.memory := by cases op <;> rfl
        have hfifo := fifoStep_map (fun entry : Option Tid × Nat => p.memory entry.2) limit a.items
          (AtomicQueue.mark t op)
        rw [hmark] at hfifo
        have hqueue : (program.view p a).items = a.items.map fun entry => p.memory entry.2 := rfl
        rw [atomicStep, hwants, Option.map_some, hview, hitemsEq, Result.map_map, hqueue, hfifo]
      · cases hstep
  | settle t =>
      simp only [AtomicQueue.step] at hstep
      split at hstep
      · next result hphase =>
        obtain rfl := Option.some.inj hstep
        have hagrees := h.agrees t
        have hheld := h.held t
        rw [hphase] at hagrees hheld
        refine ⟨h.update (Function.update_eq_self t p.threads).symm
          (Function.update_eq_self t p.inCall).symm rfl rfl rfl hagrees (fun entry hmem => ?_) hheld,
          Or.inl (view_same rfl ?_ ?_)⟩
        · obtain ⟨old, hold, rfl⟩ := List.mem_map.mp hmem
          rw [AtomicQueue.unmark_snd]
          exact h.queued old hold
        · rw [List.map_map]
          exact List.map_congr_left fun entry _ =>
            congrArg p.memory (AtomicQueue.unmark_snd t entry)
        · rw [hphase]
          rfl
      · cases hstep
  | miss t peer =>
      simp only [AtomicQueue.step] at hstep
      split at hstep
      · next op hcalled =>
        split at hstep
        · have heq := Option.some.inj hstep
          have hitemsEq : a'.items = a.items := heq ▸ rfl
          have hphase : a'.phase =
              Function.update a.phase t (.returning (AtomicQueue.missed op)) := heq ▸ rfl
          have hmissed : (AtomicQueue.missed op).items = [] ∧
              (AtomicQueue.missed op).map p.memory = AtomicQueue.missed (op.map p.memory) := by
            cases op <;> exact ⟨rfl, rfl⟩
          obtain ⟨hsynced, hwants, hview⟩ := h.answered hcalled hphase (Or.inr rfl)
            (hitemsEq ▸ h.queued) (by simp [hmissed.1])
          refine ⟨hsynced, Or.inr ⟨.miss t, ?_⟩⟩
          rw [atomicStep, hwants, Option.map_some, hview, hmissed.2, hitemsEq]
          rfl
        · cases hstep
      · cases hstep
  | ret t => exact absurd hlabel (AtomicQueue.label_ret_ne_none hstep)

/-- The call begins. -/
theorem Synced.enter (h : program.Synced p a) {op : Op T}
    (hwants : program.wants (p.threads t) = some op) (hidle : a.phase t = .idle) :
    program.Synced (p.enter t op) (a.goto t (.called (op.map fun _ => p.nextPointer))) ∧
      program.view (p.enter t op) (a.goto t (.called (op.map fun _ => p.nextPointer))) =
        program.view p a := by
  cases op with
  | tryPop =>
      refine ⟨h.update (Function.update_eq_self t p.threads).symm rfl rfl rfl rfl ⟨rfl, hwants⟩
        h.queued nofun, ?_⟩
      refine view_same (t := t) rfl rfl ?_
      rw [hidle]
      rfl
  | tryPush item =>
      have hold : ∀ pointer, pointer < p.nextPointer →
          (p.enter t (.tryPush item)).memory pointer = p.memory pointer :=
        fun pointer hlt => Function.update_of_ne (Nat.ne_of_lt hlt) ..
      have hnew : (p.enter t (.tryPush item)).memory p.nextPointer = item :=
        Function.update_self ..
      have hphase : ∀ other, other ≠ t →
          (a.goto t (.called (.tryPush p.nextPointer))).phase other = a.phase other :=
        fun other hne => a.goto_phase_other _ hne
      have hself : (a.goto t (.called (.tryPush p.nextPointer))).phase t =
          .called (.tryPush p.nextPointer) := a.goto_phase_self t _
      refine ⟨⟨fun other => ?_, fun entry hmem => ?_, fun other pointer hmem => ?_⟩, ?_⟩
      · by_cases heq : other = t
        · rw [heq, Op.map, hself]
          refine ⟨Function.update_self .., ?_⟩
          rw [Op.map, hnew]
          exact hwants
        · rw [Op.map, hphase other heq]
          have hinCall : (p.enter t (.tryPush item)).inCall other = p.inCall other :=
            Function.update_of_ne heq ..
          have hthreads : (p.enter t (.tryPush item)).threads = p.threads := rfl
          rw [hinCall, hthreads]
          have hagrees := h.agrees other
          have hheld := h.held other
          cases hother : a.phase other with
          | idle | settling result | returning result =>
              rw [hother] at hagrees
              exact hagrees
          | called op =>
              rw [hother] at hagrees hheld
              refine ⟨hagrees.1, hagrees.2.trans (congrArg some (Op.map_congr fun pointer hmem => ?_))⟩
              exact (hold pointer (hheld pointer hmem)).symm
      · exact Nat.lt_succ_of_lt (h.queued entry hmem)
      · by_cases heq : other = t
        · rw [heq, Op.map, hself] at hmem
          rw [List.mem_singleton.mp hmem]
          exact Nat.lt_succ_self _
        · rw [Op.map, hphase other heq] at hmem
          exact Nat.lt_succ_of_lt (h.held other pointer hmem)
      · have hthreads : ∀ other, program.after (p.enter t (.tryPush item)).memory (p.threads other)
            ((a.goto t (.called (.tryPush p.nextPointer))).phase other) =
            program.after p.memory (p.threads other) (a.phase other) := by
          intro other
          by_cases heq : other = t
          · rw [heq, hself, hidle]
            rfl
          · rw [hphase other heq]
            have hheld := h.held other
            cases hother : a.phase other with
            | idle | called op => rfl
            | settling result | returning result =>
                rw [hother] at hheld
                exact congrArg (program.resume (p.threads other))
                  (Result.map_congr fun pointer hmem => hold pointer (hheld pointer hmem))
        have hitems : (a.items.map fun entry => (p.enter t (.tryPush item)).memory entry.2) =
            a.items.map fun entry => p.memory entry.2 :=
          List.map_congr_left fun entry hmem => hold entry.2 (h.queued entry hmem)
        exact congrArg₂ (AtomicState.mk p.shared) (funext hthreads) hitems

theorem Synced.joint_step (h : program.Synced p a) {action : Action Tid Act}
    {action' : AtomicQueue.Action Tid Nat} {event : CallEvent Tid Nat}
    (hlabel : program.label p action = some event)
    (hlabel' : AtomicQueue.label a action' = some event)
    (hstep : program.step p action = some next)
    (hstep' : AtomicQueue.step limit a action' = some a') :
    program.Synced next a' ∧ program.view next a' = program.view p a := by
  cases action with
  | inner t act => cases hlabel
  | call t =>
      obtain ⟨op, hwants, rfl⟩ := Option.map_eq_some_iff.mp hlabel
      obtain ⟨hidle, rfl⟩ := AtomicQueue.step_call hlabel' hstep'
      simp only [step, hwants] at hstep
      split at hstep
      · cases hstep
      · obtain rfl := Option.some.inj hstep
        exact h.enter hwants hidle
  | ret t result =>
      obtain rfl := Option.some.inj hlabel
      obtain ⟨hreturning, rfl⟩ := AtomicQueue.step_ret hlabel' hstep'
      simp only [step] at hstep
      split at hstep
      · obtain rfl := Option.some.inj hstep
        refine ⟨h.update rfl rfl rfl rfl rfl rfl h.queued nofun, ?_⟩
        have hthread : (program.view p a).threads t =
            program.resume (p.threads t) (result.map p.memory) := by
          simp only [view, hreturning, after]
        have hphase : (a.goto t .idle).phase = Function.update a.phase t .idle := rfl
        have hview := view_update program (p := p) (t := t)
          { p with
            threads := Function.update p.threads t
              (program.resume (p.threads t) (result.map p.memory))
            inCall := Function.update p.inCall t false } rfl rfl hphase
        rw [hview, after, ← hthread, Function.update_eq_self]
        rfl
      · cases hstep

/-- **The reduction.**  Whatever a program comes to over the atomic queue, it comes to with calls
in one step. -/
theorem atomic_reachable
    (hreach : ((system Tid program).runOver (atomicQueue Tid Nat limit)).Reachable (p, a)) :
    program.Synced p a ∧ (atomicMachine Tid program limit).Reachable (program.view p a) := by
  refine Machine.Reachable.invariant
    (fun state : State Tid Shared Thread T × AtomicQueue.State Tid Nat =>
      program.Synced state.1 state.2 ∧
        (atomicMachine Tid program limit).Reachable (program.view state.1 state.2)) ?_ ?_ hreach
  · exact ⟨⟨fun _ => rfl, fun _ hmem => absurd hmem List.not_mem_nil, fun _ => nofun⟩,
      Machine.ReachableUnder.init⟩
  · rintro state next action ⟨hsynced, hreached⟩ hstep
    change Observed.jointStep (system Tid program) (atomicQueue Tid Nat limit) state action =
      some next at hstep
    have hanswered : program.Synced next.1 next.2 ∧ program.Answers limit
        (program.view state.1 state.2) (program.view next.1 next.2) := by
      cases action with
      | program action =>
          obtain ⟨hlabel, hprogram, hsame⟩ := Observed.jointStep_program hstep
          rw [hsame]
          exact hsynced.program_step hlabel hprogram
      | object action =>
          obtain ⟨hlabel, hqueue, hsame⟩ := Observed.jointStep_object hstep
          rw [hsame]
          exact hsynced.queue_step hlabel hqueue
      | both action action' =>
          obtain ⟨event, hlabel, hlabel', hprogram, hqueue⟩ := Observed.jointStep_both hstep
          obtain ⟨hnext, hview⟩ := hsynced.joint_step hlabel hlabel' hprogram hqueue
          exact ⟨hnext, Or.inl hview⟩
    obtain ⟨hnext, hsame | ⟨action', hatomic⟩⟩ := hanswered
    · exact ⟨hnext, hsame ▸ hreached⟩
    · exact ⟨hnext, hreached.next hatomic⟩

/-- The same over the ring. -/
theorem atomic_reachable_ring {k : Nat} (hk : 1 ≤ k) {s : MPMCQueue.State Tid Nat}
    (hreach : ((system Tid program).runOver (observedRing Tid Nat (2 ^ k))).Reachable (p, s)) :
    program.Synced p s.atomic ∧
      (atomicMachine Tid program (2 ^ k)).Reachable (program.view p s.atomic) := by
  obtain ⟨a, hatomic, -, rfl⟩ := (simulation hk).reachable_runOver hreach
  exact atomic_reachable hatomic

end Caller

end MessageCenter.MPMCQueue
