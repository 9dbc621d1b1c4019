import MessageCenter.MpmcQueue.Callers
import MessageCenter.SnapshotQueue.PayloadLifetime

/-!
# The snapshot queues over the ring

The threads of `SnapshotQueue.Concurrent`, with their `try_push` and `try_pop` made on the ring
itself.  `post` and `flushBatch` call `try_push` again until it succeeds.  A `dispatchOne` returns
false when its `try_pop` misses, and a `dispatchBatch` goes on with what it has collected; so a
queue bears that the ring may answer "empty" too early, and what is known of its payloads with an
atomic queue holds over the ring.
-/

namespace MessageCenter.SnapshotQueue.OverRing

open Concurrency Concurrent
open MPMCQueue (Op Result Caller observedRing)

/-- What the threads share apart from the ring. -/
structure Shared where
  m_topics : Nat → TopicObservers
  payloads : PayloadHeap
  freed : List Free

/-- A thread; `popping` says that it is in a `dispatchOne` whose `try_pop` has not returned. -/
structure Local where
  thread : ThreadState
  popping : Bool

inductive Act where
  | dispatchOne
  /-- another call, or a step that makes no call of the ring -/
  | step (action : Concurrent.Action Unit)

def wants (l : Local) : Option (Op SnapshotMessage) :=
  if l.popping then some .tryPop
  else
    match l.thread.stack with
    | .send msg false :: _ => some (.tryPush msg)
    | .flush :: _ => l.thread.t_batch.msgs[l.thread.t_batch.i]?.map .tryPush
    | .collect limit batch :: _ => if batch.length < limit then some .tryPop else none
    | _ => none

/-- A call of the ring that a frame of the stack has made returns. -/
def resumeFrame (thread : ThreadState) : List Frame → Result SnapshotMessage → ThreadState
  | .send _ false :: below, .pushed true => { thread with stack := below }
  | .flush :: _, .pushed true =>
      { thread with t_batch := { thread.t_batch with i := thread.t_batch.i + 1 } }
  | .collect limit batch :: below, .popped (some (some msg)) =>
      { thread with stack := .collect limit (batch ++ [msg]) :: below }
  | .collect _ batch :: below, .popped none => { thread with stack := dispatchRest below batch }
  | _, _ => thread

def resume (l : Local) (result : Result SnapshotMessage) : Local :=
  if l.popping then
    match result with
    | .popped (some (some msg)) => ⟨l.thread.enter (.dispatch .call msg 0 []), false⟩
    | _ => ⟨l.thread, false⟩
  else ⟨resumeFrame l.thread l.thread.stack result, false⟩

/-- The queue as one thread sees it that makes no call of the ring. -/
def alone (shared : Shared) (thread : ThreadState) : Concurrent.State Unit :=
  ⟨[], shared.m_topics, shared.payloads, fun _ => thread, shared.freed⟩

def inner (cls : QueueClass) (shared : Shared) (l : Local) : Act → Option (Shared × Local)
  | .dispatchOne =>
      if l.popping = false ∧ l.thread.canCall then some (shared, ⟨l.thread, true⟩) else none
  | .step (.dispatchOne _) => none
  | .step action =>
      if (wants l).isSome then none
      else (Concurrent.step cls 0 (alone shared l.thread) action).map fun s =>
        (⟨s.m_topics, s.payloads, s.freed⟩, ⟨s.threads (), false⟩)

def program (cls : QueueClass) : Caller Shared Local Act SnapshotMessage where
  shared := ⟨fun _ => ⟨0, fun _ => ⟨0, 0⟩⟩, PayloadHeap.empty, []⟩
  start := ⟨⟨[], [], 0⟩, false⟩
  blank := (snapshotFormat cls.inlineMax).zero
  wants := wants
  resume := resume
  inner := inner cls

/-! ### Steps that make no call of the ring -/

variable {Thread : Type} {cls : QueueClass} {Capacity : Nat}

/-- The action of the thread `t`. -/
def actionOf (t : Thread) : Concurrent.Action Unit → Concurrent.Action Thread
  | .addObserver topicId observer => .addObserver topicId observer
  | .post _ old topicId data size batched => .post t old topicId data size batched
  | .flushBatch _ => .flushBatch t
  | .dispatchOne _ => .dispatchOne t
  | .dispatchBatch _ maxCount => .dispatchBatch t maxCount
  | .proceed _ => .proceed t

variable [DecidableEq Thread]

/-- What the thread `t` has done on its own. -/
def merge (s : Concurrent.State Thread) (t : Thread) (s' : Concurrent.State Unit) :
    Concurrent.State Thread :=
  ⟨s.ring, s'.m_topics, s'.payloads, Function.update s.threads t (s'.threads ()), s'.freed⟩

def aloneIn (s : Concurrent.State Thread) (t : Thread) : Concurrent.State Unit :=
  alone ⟨s.m_topics, s.payloads, s.freed⟩ (s.threads t)

variable {s : Concurrent.State Thread} {t : Thread}

theorem merge_aloneIn : merge s t (aloneIn s t) = s := by
  simp [merge, aloneIn, alone]

theorem merge_setThread (s' : Concurrent.State Unit) (thread : ThreadState) :
    merge s t (s'.setThread () thread) =
      ({ s with m_topics := s'.m_topics, payloads := s'.payloads, freed := s'.freed } :
        Concurrent.State Thread).setThread t thread := by
  simp [merge, Concurrent.State.setThread]

theorem addObserver_aloneIn (topicId : Nat) (observer : Observer) :
    Concurrent.addObserver cls s topicId observer =
      merge s t (Concurrent.addObserver cls (aloneIn s t) topicId observer) := by
  simp only [Concurrent.addObserver]
  split
  · exact merge_aloneIn.symm
  · have htopics : (aloneIn s t).m_topics = s.m_topics := rfl
    rw [htopics]
    split
    · exact merge_aloneIn.symm
    · simp [merge, aloneIn, alone]

theorem post_aloneIn (old : SnapshotMessage) (topicId : Nat) (data : Option (List UInt8))
    (size : Nat) (batched : Bool) :
    Concurrent.post cls s t old topicId data size batched =
      merge s t (Concurrent.post cls (aloneIn s t) () old topicId data size batched) := by
  simp only [Concurrent.post]
  split
  · exact merge_aloneIn.symm
  · have htopics : (aloneIn s t).m_topics = s.m_topics := rfl
    rw [htopics]
    split
    · exact merge_aloneIn.symm
    · rw [merge_setThread]
      rfl

theorem proceed_aloneIn (hwants : wants ⟨s.threads t, false⟩ = none) :
    Concurrent.proceed Capacity s t = (Concurrent.proceed 0 (aloneIn s t) ()).map (merge s t) := by
  have hthread : (aloneIn s t).threads () = s.threads t := rfl
  have hset : ∀ thread, merge s t ((aloneIn s t).setThread () thread) = s.setThread t thread :=
    fun thread => merge_setThread (aloneIn s t) thread
  have hpayloads : ∀ thread payloads freed,
      merge s t { (aloneIn s t).setThread () thread with payloads := payloads, freed := freed } =
        { s.setThread t thread with payloads := payloads, freed := freed } := by
    intro thread payloads freed
    simp [merge, aloneIn, alone, Concurrent.State.setThread]
  cases hstack : (s.threads t).stack with
  | nil => simp only [Concurrent.proceed, hthread, hstack, Option.map_none]
  | cons frame below =>
      simp only [wants, hstack, Bool.false_eq_true, if_false] at hwants
      cases frame with
      | create msg data batched =>
          simp only [Concurrent.proceed, hthread, hstack, Option.map_some]
          exact congrArg some (hpayloads _ _ _).symm
      | addRefs msg batched =>
          simp only [Concurrent.proceed, hthread, hstack]
          cases hmanaged : managedOf msg with
          | none => exact congrArg some (hset _).symm
          | some managed => exact congrArg some (hpayloads _ _ _).symm
      | send msg batched =>
          cases batched with
          | false => cases hwants
          | true =>
              simp only [Concurrent.proceed, hthread, hstack]
              exact congrArg some (hset _).symm
      | flush =>
          have hnone : (s.threads t).t_batch.msgs[(s.threads t).t_batch.i]? = none := by
            cases hget : (s.threads t).t_batch.msgs[(s.threads t).t_batch.i]? with
            | none => rfl
            | some msg => simp [hget] at hwants
          simp only [Concurrent.proceed, hthread, hstack, Concurrent.flush, hnone]
          exact congrArg some (hset _).symm
      | collect limit batch =>
          have hdone : ¬ batch.length < limit := by
            intro hlt
            simp [hlt] at hwants
          simp only [Concurrent.proceed, hthread, hstack, Concurrent.collect, hdone, if_false]
          exact congrArg some (hset _).symm
      | dispatch phase msg i rest =>
          cases phase with
          | call =>
              simp only [Concurrent.proceed, hthread, hstack]
              split
              · exact congrArg some (hset _).symm
              · exact congrArg some (hset _).symm
          | callback =>
              simp only [Concurrent.proceed, hthread, hstack]
              exact congrArg some (hset _).symm
          | release =>
              simp only [Concurrent.proceed, hthread, hstack, Concurrent.release]
              cases hmanaged : managedOf msg with
              | none => exact congrArg some (hset _).symm
              | some managed => exact congrArg some (hpayloads _ _ _).symm

/-- A step that makes no call of the ring is one of the queue with an atomic ring. -/
theorem step_aloneIn {action : Concurrent.Action Unit} {s' : Concurrent.State Unit}
    (hwants : wants ⟨s.threads t, false⟩ = none) (hother : action ≠ .dispatchOne ())
    (hstep : Concurrent.step cls 0 (aloneIn s t) action = some s') :
    Concurrent.step cls Capacity s (actionOf t action) = some (merge s t s') := by
  have hthread : (aloneIn s t).threads () = s.threads t := rfl
  cases action with
  | addObserver topicId observer =>
      obtain rfl := Option.some.inj hstep
      exact congrArg some (addObserver_aloneIn topicId observer)
  | post u old topicId data size batched =>
      simp only [Concurrent.step, hthread, Option.ite_none_right_eq_some] at hstep
      obtain ⟨hcall, hstep⟩ := hstep
      obtain rfl := Option.some.inj hstep
      simp only [actionOf, Concurrent.step]
      rw [if_pos hcall]
      exact congrArg some (post_aloneIn old topicId data size batched)
  | flushBatch u =>
      simp only [Concurrent.step, hthread, Option.ite_none_right_eq_some] at hstep
      obtain ⟨hcall, hstep⟩ := hstep
      obtain rfl := Option.some.inj hstep
      simp only [actionOf, Concurrent.step, hcall]
      exact congrArg some (merge_setThread (aloneIn s t) _).symm
  | dispatchOne u => exact absurd rfl hother
  | dispatchBatch u maxCount =>
      simp only [Concurrent.step, hthread, Option.ite_none_right_eq_some] at hstep
      obtain ⟨hcall, hstep⟩ := hstep
      obtain rfl := Option.some.inj hstep
      simp only [actionOf, Concurrent.step, hcall]
      exact congrArg some (merge_setThread (aloneIn s t) _).symm
  | proceed u =>
      change Concurrent.proceed Capacity s t = _
      rw [proceed_aloneIn hwants]
      have hproceed : Concurrent.proceed 0 (aloneIn s t) () = some s' := hstep
      rw [hproceed, Option.map_some]

/-! ### Calls of the ring in one step -/

/-- The queue with an atomic ring that the threads and the items stand for. -/
def queueOf (v : Caller.AtomicState Thread Shared Local SnapshotMessage) :
    Concurrent.State Thread :=
  ⟨v.items, v.shared.m_topics, v.shared.payloads, fun t => (v.threads t).thread, v.shared.freed⟩

variable {v next : Caller.AtomicState Thread Shared Local SnapshotMessage}

theorem queueOf_update (v : Caller.AtomicState Thread Shared Local SnapshotMessage) (t : Thread)
    (l : Local) (shared : Shared) (items : List SnapshotMessage) :
    queueOf ⟨shared, Function.update v.threads t l, items⟩ =
      ⟨items, shared.m_topics, shared.payloads,
        Function.update (queueOf v).threads t l.thread, shared.freed⟩ := by
  have hthreads : (fun other => (Function.update v.threads t l other).thread) =
      Function.update (queueOf v).threads t l.thread := by
    funext other
    by_cases heq : other = t
    · rw [heq, Function.update_self, Function.update_self]
    · rw [Function.update_of_ne heq, Function.update_of_ne heq]
      rfl
  rw [queueOf, hthreads]

/-- Only the flag of a thread changes. -/
theorem queueOf_popping (v : Caller.AtomicState Thread Shared Local SnapshotMessage) (t : Thread)
    (popping : Bool) :
    queueOf { v with threads := Function.update v.threads t ⟨(v.threads t).thread, popping⟩ } =
      queueOf v := by
  have hsame : Function.update (queueOf v).threads t (v.threads t).thread = (queueOf v).threads :=
    Function.update_eq_self t (queueOf v).threads
  rw [queueOf_update, hsame]
  rfl

structure Kept (cls : QueueClass) (v : Caller.AtomicState Thread Shared Local SnapshotMessage) :
    Prop where
  inv : Concurrent.Inv (queueOf v)
  unbatched : cls.hasBatch = false → ∀ t, ((queueOf v).threads t).Unbatched
  /-- a `dispatchOne` waits for the ring where a call may begin -/
  popping : ∀ t, (v.threads t).popping = true → (v.threads t).thread.canCall = true

/-- A class without `postBatched` makes no such call. -/
theorem batched_eq_false {action : Concurrent.Action Thread}
    {after : Concurrent.State Thread} (hclass : cls.hasBatch = false)
    (hstep : Concurrent.step cls Capacity s action = some after) : action.batched = false := by
  cases action with
  | post t old topicId data size batched =>
      cases batched with
      | false => rfl
      | true => simp [Concurrent.step, hclass] at hstep
  | _ => rfl

/-- The queue with an atomic ring makes the same step. -/
theorem Kept.of_step (h : Kept cls v) {action : Concurrent.Action Thread}
    (hstep : Concurrent.step cls Capacity (queueOf v) action = some (queueOf next))
    (hpopping : ∀ t, (next.threads t).popping = true → (next.threads t).thread.canCall = true) :
    Kept cls next := by
  refine ⟨h.inv.step hstep, fun hclass t => ?_, hpopping⟩
  exact step_unbatched (h.unbatched hclass) (batched_eq_false hclass hstep) hstep t

theorem Kept.popping_update (h : Kept cls v) {l : Local} (hl : l.popping = false) (other : Thread)
    (hpopping : (Function.update v.threads t l other).popping = true) :
    (Function.update v.threads t l other).thread.canCall = true := by
  by_cases heq : other = t
  · rw [heq, Function.update_self, hl] at hpopping
    cases hpopping
  · rw [Function.update_of_ne heq] at hpopping ⊢
    exact h.popping other hpopping

omit [DecidableEq Thread] in
/-- Only the flag of a thread changes. -/
theorem Kept.same (h : Kept cls v) (hsame : queueOf next = queueOf v)
    (hpopping : ∀ t, (next.threads t).popping = true → (next.threads t).thread.canCall = true) :
    Kept cls next :=
  ⟨hsame ▸ h.inv, hsame ▸ h.unbatched, hpopping⟩

theorem Kept.inner_step (h : Kept cls v) {act : Act} {shared : Shared} {l : Local}
    (hinner : inner cls v.shared (v.threads t) act = some (shared, l)) :
    Kept cls { v with shared := shared, threads := Function.update v.threads t l } := by
  cases act with
  | dispatchOne =>
      simp only [inner] at hinner
      split at hinner
      · next hcond =>
        obtain ⟨rfl, rfl⟩ := Prod.mk.inj (Option.some.inj hinner)
        refine h.same (queueOf_popping v t true) fun other hpopping => ?_
        by_cases heq : other = t
        · rw [heq]
          simp only [Function.update_self]
          exact hcond.2
        · simp only [Function.update_of_ne heq] at hpopping ⊢
          exact h.popping other hpopping
      · cases hinner
  | step action =>
      have hother : action ≠ .dispatchOne () := by
        rintro rfl
        cases hinner
      have hstep : (wants (v.threads t)).isSome = false ∧ ∃ s',
          Concurrent.step cls 0 (alone v.shared (v.threads t).thread) action = some s' ∧
            (⟨s'.m_topics, s'.payloads, s'.freed⟩, ⟨s'.threads (), false⟩) = (shared, l) := by
        cases action with
        | dispatchOne u => exact absurd rfl hother
        | addObserver _ _ | post _ _ _ _ _ _ | flushBatch _ | dispatchBatch _ _ | proceed _ =>
            simp only [inner] at hinner
            split at hinner
            · cases hinner
            · next hnone =>
              exact ⟨Bool.eq_false_iff.mpr hnone, Option.map_eq_some_iff.mp hinner⟩
      obtain ⟨hnone, s', hstep, heq⟩ := hstep
      obtain ⟨rfl, rfl⟩ := Prod.mk.inj heq
      have hwants : wants ⟨(queueOf v).threads t, false⟩ = none := by
        rw [Option.isSome_eq_false_iff, Option.isNone_iff_eq_none] at hnone
        cases hpopping : (v.threads t).popping with
        | true => simp [wants, hpopping] at hnone
        | false =>
            rw [← hnone]
            exact congrArg (fun popping => wants ⟨(v.threads t).thread, popping⟩) hpopping.symm
      have hqueue : Concurrent.step cls 0 (queueOf v) (actionOf t action) =
          some (merge (queueOf v) t s') := step_aloneIn hwants hother hstep
      have hmerge : merge (queueOf v) t s' = queueOf
          { v with
            shared := ⟨s'.m_topics, s'.payloads, s'.freed⟩
            threads := Function.update v.threads t ⟨s'.threads (), false⟩ } := by
        rw [queueOf_update]
        rfl
      rw [hmerge] at hqueue
      exact h.of_step hqueue fun other hpopping => h.popping_update rfl other hpopping

/-- Outside of a `dispatchOne` a call of the ring is the next step of the thread. -/
theorem proceed_call {limit : Nat} {op : Op SnapshotMessage} (hout : (v.threads t).popping = false)
    (hwants : wants (v.threads t) = some op) :
    Concurrent.proceed limit (queueOf v) t = some (queueOf ⟨v.shared,
      Function.update v.threads t (resume (v.threads t) (MPMCQueue.fifoStep limit v.items op).2),
      (MPMCQueue.fifoStep limit v.items op).1⟩) := by
  have hthread : (queueOf v).threads t = (v.threads t).thread := rfl
  have hring : (queueOf v).ring = v.items := rfl
  have hsame : Function.update (queueOf v).threads t (v.threads t).thread = (queueOf v).threads :=
    Function.update_eq_self t (queueOf v).threads
  rw [queueOf_update]
  simp only [wants, hout, Bool.false_eq_true, if_false] at hwants
  simp only [resume, hout, Bool.false_eq_true, if_false]
  split at hwants
  · next msg below hstack =>
    obtain rfl := Option.some.inj hwants
    simp only [Concurrent.proceed, hthread, hstack, MPMCQueue.fifoStep, hring]
    split
    · rfl
    · simp only [resumeFrame, hsame]
      rfl
  · next below hstack =>
    obtain ⟨msg, hget, rfl⟩ := Option.map_eq_some_iff.mp hwants
    simp only [Concurrent.proceed, hthread, hstack, Concurrent.flush, hget, MPMCQueue.fifoStep, hring]
    split
    · simp only [resumeFrame, hstack]
      rfl
    · simp only [resumeFrame, hsame]
      rfl
  · next limit' batch below hstack =>
    split at hwants
    · next hlt =>
      obtain rfl := Option.some.inj hwants
      simp only [Concurrent.proceed, hthread, hstack, Concurrent.collect, hlt, if_true, hring]
      cases hitems : v.items with
      | nil =>
          simp only [Concurrent.State.setThread, hring, hitems]
          rfl
      | cons msg rest => rfl
    · cases hwants
  · cases hwants

theorem resume_popping (l : Local) (result : Result SnapshotMessage) :
    (resume l result).popping = false := by
  unfold resume
  split
  · split <;> rfl
  · rfl

theorem Kept.call_step (h : Kept cls v) {limit : Nat} {op : Op SnapshotMessage}
    (hwants : wants (v.threads t) = some op) :
    Kept cls ⟨v.shared,
      Function.update v.threads t (resume (v.threads t) (MPMCQueue.fifoStep limit v.items op).2),
      (MPMCQueue.fifoStep limit v.items op).1⟩ := by
  have hpopping := fun other => h.popping_update (t := t) (resume_popping (v.threads t)
    (MPMCQueue.fifoStep limit v.items op).2) other
  cases hflag : (v.threads t).popping with
  | false =>
      refine h.of_step (?_ : Concurrent.step cls limit (queueOf v) (.proceed t) = _) hpopping
      exact proceed_call hflag hwants
  | true =>
      simp only [wants, hflag, if_true, Option.some.injEq] at hwants
      subst hwants
      cases hitems : v.items with
      | nil =>
          rw [hitems] at hpopping
          refine h.same ?_ hpopping
          simp only [resume, hflag, if_true, MPMCQueue.fifoStep, ← hitems]
          exact queueOf_popping v t false
      | cons msg rest =>
          rw [hitems] at hpopping
          refine h.of_step (?_ : Concurrent.step cls limit (queueOf v) (.dispatchOne t) = _) hpopping
          have hcall : ((queueOf v).threads t).canCall = true := h.popping t hflag
          have hring : (queueOf v).ring = msg :: rest := hitems
          rw [queueOf_update]
          simp only [Concurrent.step, hcall, if_true, hring, resume, hflag, MPMCQueue.fifoStep]
          rfl

/-- A miss of the ring is one more round, or the end of the messages. -/
theorem Kept.miss_step (h : Kept cls v) {op : Op SnapshotMessage}
    (hwants : wants (v.threads t) = some op) :
    Kept cls { v with
      threads := Function.update v.threads t
        (resume (v.threads t) (MPMCQueue.AtomicQueue.missed op)) } := by
  have hpopping := fun other => h.popping_update (t := t) (resume_popping (v.threads t)
    (MPMCQueue.AtomicQueue.missed op)) other
  have hflagOnly : resume (v.threads t) (MPMCQueue.AtomicQueue.missed op) =
      ⟨(v.threads t).thread, false⟩ → Kept cls { v with
        threads := Function.update v.threads t
          (resume (v.threads t) (MPMCQueue.AtomicQueue.missed op)) } := by
    intro hresume
    refine h.same ?_ hpopping
    rw [hresume]
    exact queueOf_popping v t false
  cases hflag : (v.threads t).popping with
  | true =>
      simp only [wants, hflag, if_true, Option.some.injEq] at hwants
      subst hwants
      refine hflagOnly ?_
      simp only [resume, hflag, if_true, MPMCQueue.AtomicQueue.missed]
  | false =>
      simp only [wants, hflag, Bool.false_eq_true, if_false] at hwants
      split at hwants
      · next msg below hstack =>
        obtain rfl := Option.some.inj hwants
        refine hflagOnly ?_
        simp only [resume, hflag, Bool.false_eq_true, if_false, hstack, resumeFrame,
          MPMCQueue.AtomicQueue.missed]
      · next below hstack =>
        obtain ⟨msg, -, rfl⟩ := Option.map_eq_some_iff.mp hwants
        refine hflagOnly ?_
        simp only [resume, hflag, Bool.false_eq_true, if_false, hstack, resumeFrame,
          MPMCQueue.AtomicQueue.missed]
      · next limit batch below hstack =>
        split at hwants
        · obtain rfl := Option.some.inj hwants
          have hresume : resume (v.threads t) (MPMCQueue.AtomicQueue.missed .tryPop) =
              ⟨{ (v.threads t).thread with stack := dispatchRest below batch }, false⟩ := by
            simp only [resume, hflag, Bool.false_eq_true, if_false, hstack, resumeFrame,
              MPMCQueue.AtomicQueue.missed]
          have hqueue : queueOf { v with
              threads := Function.update v.threads t
                (resume (v.threads t) (MPMCQueue.AtomicQueue.missed .tryPop)) } =
              (queueOf v).setThread t
                { (v.threads t).thread with stack := dispatchRest below batch } := by
            rw [queueOf_update, hresume]
            rfl
          have hframes : ((queueOf v).threads t).stack = .collect limit batch :: below := hstack
          refine ⟨?_, fun hclass other => ?_, hpopping⟩
          · rw [hqueue]
            refine h.inv.keep (List.Perm.of_eq ?_) ((h.inv.threads t).dispatchRest hframes batch)
            rw [ThreadState.tokens_dispatchRest, ThreadState.tokens_of_stack hframes]
            rfl
          · rw [hqueue]
            by_cases heq : other = t
            · rw [heq, Concurrent.State.setThread_self]
              exact (h.unbatched hclass t).dispatchRest hframes batch
            · simp only [Concurrent.State.setThread, Function.update_of_ne heq]
              exact h.unbatched hclass other
        · cases hwants
      · cases hwants

theorem kept_of_reachable {limit : Nat}
    (hreach : (Caller.atomicMachine Thread (program cls) limit).Reachable v) : Kept cls v := by
  refine Machine.Reachable.invariant (Kept cls) ?_ ?_ hreach
  · exact ⟨inv_init, fun _ _ => ⟨fun _ hmem => absurd hmem List.not_mem_nil, rfl⟩,
      fun _ hpopping => absurd hpopping Bool.false_ne_true⟩
  · intro v next action h hstep
    cases action with
    | inner t act =>
        obtain ⟨⟨shared, l⟩, hinner, rfl⟩ := Option.map_eq_some_iff.mp hstep
        exact h.inner_step hinner
    | call t =>
        obtain ⟨op, hwants, rfl⟩ := Option.map_eq_some_iff.mp hstep
        exact h.call_step hwants
    | miss t =>
        obtain ⟨op, hwants, rfl⟩ := Option.map_eq_some_iff.mp hstep
        exact h.miss_step hwants

/-! ### The theorem -/

/-- A thread stays in its callbacks while a call of the ring returns. -/
theorem mem_resume {msg : SnapshotMessage} {i : Nat} {rest : List SnapshotMessage} {l : Local}
    (result : Result SnapshotMessage)
    (hframe : Frame.dispatch .callback msg i rest ∈ l.thread.stack) :
    Frame.dispatch .callback msg i rest ∈ (resume l result).thread.stack := by
  have hbelow : ∀ {frame below}, l.thread.stack = frame :: below →
      Frame.dispatch .callback msg i rest ≠ frame →
      Frame.dispatch .callback msg i rest ∈ below := by
    intro frame below hstack hne
    rw [hstack] at hframe
    exact List.mem_of_ne_of_mem hne hframe
  unfold resume
  split
  · split
    · exact List.mem_cons_of_mem _ hframe
    · exact hframe
  · simp only
    unfold resumeFrame
    split
    · next hstack => exact hbelow hstack fun heq => by cases heq
    · exact hframe
    · next hstack => exact List.mem_cons_of_mem _ (hbelow hstack fun heq => by cases heq)
    · next limit batch below hstack =>
      have hmem := hbelow hstack fun heq => by cases heq
      cases batch with
      | nil => exact hmem
      | cons first others => exact List.mem_cons_of_mem _ hmem
    · exact hframe

/-- Managed payloads over the ring, whatever the threads do: what `payloads_managed` says of an
atomic queue, a queued message has all its references, a callback can read its payload, and none
is left when the ring is empty and no call is in progress. -/
theorem payloads_managed_overRing (cls : QueueClass) {k : Nat} (hk : 1 ≤ k)
    {p : Caller.State Thread Shared Local SnapshotMessage} {s : MPMCQueue.State Thread Nat}
    (hreach : (((program cls).system Thread).runOver
      (observedRing Thread Nat (2 ^ k))).Reachable (p, s)) :
    PayloadsManaged cls (queueOf ((program cls).view p s.atomic)) ∧
      (∀ pointer ∈ s.queued, ∀ id, managedOf (p.memory pointer) = some id →
        0 < (p.memory pointer).observerCount → ∃ payload,
          p.shared.payloads.live id = some payload ∧
            payload.m_refCount = (p.memory pointer).observerCount) ∧
      (∀ t msg i rest id, Frame.dispatch .callback msg i rest ∈ (p.threads t).thread.stack →
        managedOf msg = some id → (p.shared.payloads.data id).isSome) ∧
      (s.queued = [] → (∀ t, p.inCall t = false) → (∀ t, (p.threads t).thread.stack = []) →
        (∀ t, (p.threads t).thread.t_batch.msgs = []) → ∀ id, p.shared.payloads.live id = none) := by
  obtain ⟨hsynced, hatomic⟩ := Caller.atomic_reachable_ring hk hreach
  have hkept := kept_of_reachable hatomic
  have hinv := hkept.inv
  have hring : (queueOf ((program cls).view p s.atomic)).ring = s.queued.map p.memory := by
    rw [← s.entries_snd, List.map_map]
    rfl
  refine ⟨?_, fun pointer hmem id hmanaged hpos => ?_, fun t msg i rest id hframe hmanaged => ?_,
    fun hempty hout hstack hbatch id => ?_⟩
  · exact
      { refCount := fun msg n id => hinv.refCount_eq
        callback := fun t msg i rest id => hinv.callback_live
        belongs := fun id payload => hinv.belongs
        freedOnce := hinv.log.once
        freed_iff := hinv.log.iff
        freedByLast := hinv.log.last
        drained := hinv.drained
        unbatched := fun hclass t => (hkept.unbatched hclass t).batch }
  · have hqueued : p.memory pointer ∈ (queueOf ((program cls).view p s.atomic)).ring := by
      rw [hring]
      exact List.mem_map_of_mem hmem
    exact hinv.refCount_eq (.queued hqueued) hpos hmanaged
  · have hview : Frame.dispatch .callback msg i rest ∈
        ((queueOf ((program cls).view p s.atomic)).threads t).stack := by
      change _ ∈ ((program cls).after p.memory (p.threads t) (s.atomic.phase t)).thread.stack
      cases s.atomic.phase t with
      | idle | called op => exact hframe
      | settling result | returning result => exact mem_resume _ hframe
    exact hinv.callback_live hview hmanaged
  · have hthreads : ∀ t, ((program cls).view p s.atomic).threads t = p.threads t := by
      intro t
      simp only [Caller.view, hsynced.phase_idle (hout t), Caller.after]
    refine hinv.drained ?_ (fun t => ?_) (fun t => ?_) id
    · rw [hring, hempty, List.map_nil]
    · exact (congrArg (fun l => l.thread.stack) (hthreads t)).trans (hstack t)
    · exact (congrArg (fun l => l.thread.t_batch.msgs) (hthreads t)).trans (hbatch t)

/-- A post of 50 bytes whose `try_push` overlaps with two `dispatchOne`, of which the first misses
and the second gets to the first of two callbacks. -/
def overlappingPost : List (Observed.Joint (Caller.Action Bool Act) (MPMCQueue.Action Bool Nat)) :=
  let producer (action : Concurrent.Action Unit) := .program (.inner false (.step action))
  [producer (.addObserver 3 ⟨1, 0⟩), producer (.addObserver 3 ⟨2, 0⟩),
    producer (.post () (snapshotFormat 48).zero 3 (some (List.replicate 50 7)) 50 false),
    producer (.proceed ()), producer (.proceed ()), .both (.call false) (.callPush false 0)] ++
  List.replicate 3 (.object (.run false false)) ++
  [.program (.inner true .dispatchOne), .both (.call true) (.callPop true)] ++
  List.replicate 2 (.object (.run true false)) ++ [.both (.ret true (.popped none)) (.ret true)] ++
  List.replicate 2 (.object (.run false false)) ++
  [.both (.ret false (.pushed true)) (.ret false), .program (.inner true .dispatchOne),
    .both (.call true) (.callPop true)] ++
  List.replicate 5 (.object (.run true false)) ++
  [.both (.ret true (.popped (some (some 0)))) (.ret true),
    .program (.inner true (.step (.proceed ())))]

def Local.inFirstCallback (l : Local) : Bool :=
  match l.thread.stack with
  | [.dispatch .callback msg 0 []] => managedOf msg == some 0 && msg.observerCount == 2
  | _ => false

theorem payloads_managed_overRing_overlap :
    ∃ (p : Caller.State Bool Shared Local SnapshotMessage) (s : MPMCQueue.State Bool Nat),
      (((program .eventQueueBroadcastFast).system Bool).runOver
        (observedRing Bool Nat (2 ^ 2))).Reachable (p, s) ∧
      (p.threads true).inFirstCallback = true ∧ (p.shared.payloads.data 0).isSome := by
  obtain ⟨⟨p, s⟩, hreach, htest⟩ := Machine.exists_reachable_of_run
    (((program .eventQueueBroadcastFast).system Bool).runOver (observedRing Bool Nat (2 ^ 2)))
    overlappingPost (fun state => (state.1.threads true).inFirstCallback) (by decide +kernel)
  refine ⟨p, s, hreach, htest, ?_⟩
  have hmanaged := (payloads_managed_overRing .eventQueueBroadcastFast (by decide) hreach).2.2.1
  simp only [Local.inFirstCallback] at htest
  split at htest
  · rename_i msg hstack
    have hpayload : managedOf msg = some 0 ∧ msg.observerCount = 2 := by simpa using htest
    refine hmanaged true msg 0 [] 0 ?_ hpayload.1
    rw [hstack]
    exact List.mem_singleton_self _
  · cases htest

end MessageCenter.SnapshotQueue.OverRing
