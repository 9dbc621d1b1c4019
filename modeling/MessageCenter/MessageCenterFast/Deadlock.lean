import Mathlib.Data.Nat.Basic
import MessageCenter.Lib.LockOrder
import MessageCenter.MessageCenterFast.Topics

/-!
# The mutexes of `MessageCenterFast`

Any number of threads make the public calls, and so do the observers' callbacks, which the
dispatch thread runs while it holds `m_observerMutex`.  Every acquisition of a mutex is a step,
and so is every critical section with the release at its end.  What a callback does is left to
the run: it makes any calls, one after the other, and returns.

The calls take `m_topicMutex` and `m_observerMutex` one at a time, so only a callback has a mutex
already.  It may come to `m_topicMutex`, whose owner never waits; if it comes to `m_observerMutex`,
the dispatch thread waits for itself.
-/

namespace MessageCenter.MessageCenterFast.Deadlock

open Concurrency Topics

inductive Mutex where
  | m_topicMutex
  | m_observerMutex
  | m_cvMutex
deriving DecidableEq, Repr

/-- The dispatch thread, and all others. -/
inductive Thread (Tid : Type) where
  | dispatcher
  | other (t : Tid)
deriving DecidableEq, Repr

/-- The public calls. -/
inductive Op where
  | post (topicId : Nat)
  | postByName (topic : String)
  | registerTopic (name : String)
  | resolveTopic (name : String)
  | addObserver (topicId : Nat) (callback : Option Nat)
  | addObserverByName (topic : String) (callback : Option Nat)
deriving DecidableEq, Repr

/-- What `m_topicMutex` is taken for. -/
inductive TopicUse where
  | registerTopic (name : String)
  | resolveTopic (name : String)
  /-- the `registerTopic` in `addObserver` by name -/
  | addObserver (topic : String) (callback : Option Nat)
  /-- the `resolveTopic` in `post` by name -/
  | postResolve (topic : String)
  /-- the `registerTopic` in `post` by name -/
  | postRegister (topic : String)
deriving DecidableEq, Repr

/-- Where a thread is in a public call. -/
inductive CallPc where
  | idle
  | lockTopic (use : TopicUse)
  | inTopic (use : TopicUse)
  | lockObserver (topicId : Nat) (callback : Option Nat)
  | inObserver (topicId : Nat) (callback : Option Nat)
deriving DecidableEq, Repr

/-- Where the dispatch thread is in `dispatchLoop`; `rest` are the entries of the loop in
`dispatch` that are still to come. -/
inductive LoopPc where
  | tryPop
  | lockObserver (topicId : Nat)
  | next (topicId : Nat) (rest : List (Option Nat))
  | callback (topicId : Nat) (rest : List (Option Nat))
  | lockCv
  /-- the test of the predicate in `wait_for` -/
  | inCv
  /-- in `wait_for`, without the mutex -/
  | asleep
deriving DecidableEq, Repr

/-- `m_queue` holds the topic ids of the messages. -/
structure State (Tid : Type) where
  registry : Registry
  m_observers : Nat → List (Option Nat)
  m_queue : List Nat
  owner : Mutex → Option (Thread Tid)
  call : Thread Tid → CallPc
  loop : LoopPc
  emptyCount : Nat

inductive Action (Tid : Type) where
  | call (t : Thread Tid) (op : Op)
  /-- the next step of the thread's public call -/
  | run (t : Thread Tid)
  /-- the next step of `dispatchLoop`; in a callback, its return -/
  | loop (timedOut : Bool)
deriving DecidableEq, Repr

variable {Tid : Type}

def init : State Tid where
  registry := ⟨fun _ => "", fun _ => none, 0⟩
  m_observers := fun _ => []
  m_queue := []
  owner := fun _ => none
  call := fun _ => .idle
  loop := .tryPop
  emptyCount := 0

/-- `post` by id takes no mutex. -/
def State.post (s : State Tid) (topicId : Nat) : State Tid :=
  if topicId ≥ MC_FAST_MAX_TOPICS then s
  else if s.m_queue.length < MC_FAST_QUEUE_SIZE then { s with m_queue := s.m_queue ++ [topicId] }
  else s

/-- The user code of a thread is outside the public calls. -/
def State.InUserCode (s : State Tid) : Thread Tid → Prop
  | .dispatcher => s.call .dispatcher = .idle ∧ ∃ topicId rest, s.loop = .callback topicId rest
  | .other t => s.call (.other t) = .idle

section Steps

variable [DecidableEq Tid]

def State.goto (s : State Tid) (t : Thread Tid) (pc : CallPc) : State Tid :=
  { s with call := Function.update s.call t pc }

def State.lock (s : State Tid) (t : Thread Tid) (mutex : Mutex) : State Tid :=
  { s with owner := Function.update s.owner mutex (some t) }

def State.unlock (s : State Tid) (mutex : Mutex) : State Tid :=
  { s with owner := Function.update s.owner mutex none }

/-- `addObserver` by id, up to its lock -/
def State.addObserver (s : State Tid) (t : Thread Tid) (topicId : Nat) (callback : Option Nat) :
    State Tid :=
  if topicId ≥ MC_FAST_MAX_TOPICS then s.goto t .idle
  else s.goto t (.lockObserver topicId callback)

/-- The beginning of a public call. -/
def State.begin (s : State Tid) (t : Thread Tid) : Op → State Tid
  | .post topicId => s.post topicId
  | .postByName topic => s.goto t (.lockTopic (.postResolve topic))
  | .registerTopic name => s.goto t (.lockTopic (.registerTopic name))
  | .resolveTopic name => s.goto t (.lockTopic (.resolveTopic name))
  | .addObserver topicId callback => s.addObserver t topicId callback
  | .addObserverByName topic callback => s.goto t (.lockTopic (.addObserver topic callback))

/-- A critical section of `m_topicMutex`, and the call up to its next lock. -/
def State.topicSection (s : State Tid) (t : Thread Tid) : TopicUse → State Tid
  | .registerTopic name =>
      { s with registry := (s.registry.registerTopic name).1 }.goto t .idle
  | .resolveTopic _ => s.goto t .idle
  | .addObserver topic callback =>
      let (registry, id) := s.registry.registerTopic topic
      if id ≠ UINT16_MAX then { s with registry := registry }.addObserver t id callback
      else { s with registry := registry }.goto t .idle
  | .postResolve topic =>
      let id := s.registry.resolveTopic topic
      if id = UINT16_MAX then s.goto t (.lockTopic (.postRegister topic))
      else (s.post id).goto t .idle
  | .postRegister topic =>
      let (registry, id) := s.registry.registerTopic topic
      ({ s with registry := registry }.post id).goto t .idle

/-- The next step of a public call. -/
def State.run (s : State Tid) (t : Thread Tid) : Option (State Tid) :=
  match s.call t with
  | .idle => none
  | .lockTopic use =>
      if s.owner .m_topicMutex = none then some ((s.lock t .m_topicMutex).goto t (.inTopic use))
      else none
  | .inTopic use => some ((s.unlock .m_topicMutex).topicSection t use)
  | .lockObserver topicId callback =>
      if s.owner .m_observerMutex = none then
        some ((s.lock t .m_observerMutex).goto t (.inObserver topicId callback))
      else none
  | .inObserver topicId callback =>
      some ({ s.unlock .m_observerMutex with
        m_observers :=
          Function.update s.m_observers topicId (s.m_observers topicId ++ [callback]) }.goto t
            .idle)

/-- The next step of `dispatchLoop`. -/
def State.dispatchLoop (s : State Tid) (timedOut : Bool) : Option (State Tid) :=
  match s.loop with
  | .tryPop =>
      match s.m_queue with
      | topicId :: queue =>
          some (if topicId ≥ MC_FAST_MAX_TOPICS then { s with m_queue := queue, emptyCount := 0 }
            else { s with m_queue := queue, loop := .lockObserver topicId })
      | [] =>
          some { s with
            emptyCount := s.emptyCount + 1
            loop := if s.emptyCount + 1 < 100 then .tryPop else .lockCv }
  | .lockObserver topicId =>
      if s.owner .m_observerMutex = none then
        some { s.lock .dispatcher .m_observerMutex with
          loop := .next topicId (s.m_observers topicId) }
      else none
  | .next topicId (some _ :: rest) => some { s with loop := .callback topicId rest }
  | .next topicId (none :: rest) => some { s with loop := .next topicId rest }
  | .next _ [] => some { s.unlock .m_observerMutex with loop := .tryPop, emptyCount := 0 }
  | .callback topicId rest =>
      if s.call .dispatcher = .idle then some { s with loop := .next topicId rest } else none
  | .lockCv =>
      if s.owner .m_cvMutex = none then
        some { s.lock .dispatcher .m_cvMutex with loop := .inCv }
      else none
  | .inCv =>
      some { s.unlock .m_cvMutex with
        loop := if s.m_queue ≠ [] ∨ timedOut then .tryPop else .asleep }
  | .asleep => some { s with loop := .lockCv }

instance (s : State Tid) : (t : Thread Tid) → Decidable (s.InUserCode t)
  | .other t => inferInstanceAs (Decidable (s.call (.other t) = .idle))
  | .dispatcher =>
      decidable_of_iff (s.call .dispatcher = .idle ∧
          (match s.loop with | .callback _ _ => true | _ => false) = true) (by
        unfold State.InUserCode
        cases s.loop <;> simp)

def step (s : State Tid) : Action Tid → Option (State Tid)
  | .call t op => if s.InUserCode t then some (s.begin t op) else none
  | .run t => s.run t
  | .loop timedOut => s.dispatchLoop timedOut

def machine (Tid : Type) [DecidableEq Tid] : Machine (State Tid) (Action Tid) := ⟨init, step⟩

end Steps

/-! ### Who holds and who waits -/

def CallPc.holds : CallPc → Option Mutex
  | .inTopic _ => some .m_topicMutex
  | .inObserver _ _ => some .m_observerMutex
  | .idle | .lockTopic _ | .lockObserver _ _ => none

def CallPc.wants : CallPc → Option Mutex
  | .lockTopic _ => some .m_topicMutex
  | .lockObserver _ _ => some .m_observerMutex
  | .idle | .inTopic _ | .inObserver _ _ => none

def LoopPc.holds : LoopPc → Option Mutex
  | .next _ _ | .callback _ _ => some .m_observerMutex
  | .inCv => some .m_cvMutex
  | .tryPop | .lockObserver _ | .lockCv | .asleep => none

def LoopPc.wants : LoopPc → Option Mutex
  | .lockObserver _ => some .m_observerMutex
  | .lockCv => some .m_cvMutex
  | .tryPop | .next _ _ | .callback _ _ | .inCv | .asleep => none

/-- The thread is in a critical section of the mutex. -/
def State.Holds (s : State Tid) (t : Thread Tid) (mutex : Mutex) : Prop :=
  (s.call t).holds = some mutex ∨ t = .dispatcher ∧ s.loop.holds = some mutex

def State.wanted (s : State Tid) : Thread Tid → Option Mutex
  | .dispatcher => (s.call .dispatcher).wants.or s.loop.wants
  | .other t => (s.call (.other t)).wants

def State.locks (s : State Tid) : Locks (Thread Tid) Mutex := ⟨s.owner, s.wanted⟩

/-- The callback of the observer that is running has come to the lock in `addObserver`. -/
def State.CallbackAdds (s : State Tid) : Prop :=
  (s.call .dispatcher).wants = some .m_observerMutex

/-- What holds in every run. -/
structure Inv (s : State Tid) : Prop where
  agree : Locks.Agree s.owner s.Holds
  /-- the dispatch thread makes public calls from callbacks -/
  inCallback : s.call .dispatcher ≠ .idle → ∃ topicId rest, s.loop = .callback topicId rest
  /-- and none of them has taken `m_observerMutex` -/
  apart : (s.call .dispatcher).holds ≠ some .m_observerMutex

variable {s next : State Tid}

theorem CallPc.wants_of_holds {pc : CallPc} {mutex : Mutex} (hholds : pc.holds = some mutex) :
    pc ≠ .idle ∧ pc.wants = none := by
  cases pc <;> simp_all [CallPc.holds, CallPc.wants]

theorem CallPc.ne_idle_of_wants {pc : CallPc} {mutex : Mutex} (hwants : pc.wants = some mutex) :
    pc ≠ .idle := by
  rintro rfl
  cases hwants

theorem CallPc.wants_cases {pc : CallPc} {mutex : Mutex} (hwants : pc.wants = some mutex) :
    mutex = .m_topicMutex ∨ mutex = .m_observerMutex := by
  cases pc <;> simp_all [CallPc.wants]

theorem LoopPc.wants_of_holds {pc : LoopPc} {mutex : Mutex} (hholds : pc.holds = some mutex) :
    pc.wants = none := by
  cases pc <;> simp_all [LoopPc.holds, LoopPc.wants]

/-- A callback runs under `m_observerMutex`, so a call made in it may go on to `m_topicMutex`. -/
def Mutex.rank : Mutex → Nat
  | .m_observerMutex => 0
  | .m_topicMutex => 1
  | .m_cvMutex => 2

theorem Inv.wanted_of_call (hinv : Inv s) {t : Thread Tid} (hcall : s.call t ≠ .idle) :
    s.wanted t = (s.call t).wants := by
  cases t with
  | other t => rfl
  | dispatcher =>
      obtain ⟨topicId, rest, hloop⟩ := hinv.inCallback hcall
      rw [State.wanted, hloop, LoopPc.wants, Option.or_none]

theorem Inv.ordered (hinv : Inv s) (hadds : ¬ s.CallbackAdds) :
    s.locks.Ordered Mutex.rank := by
  intro t owned wanted howner hwanted
  rcases (hinv.agree owned t).mp howner with hheld | ⟨rfl, hheld⟩
  · -- in a critical section of a call nobody waits
    obtain ⟨hbusy, hnone⟩ := CallPc.wants_of_holds hheld
    have hsame := hinv.wanted_of_call hbusy
    rw [hnone] at hsame
    exact absurd (hsame.symm.trans hwanted) (Option.some_ne_none _).symm
  · have hcall : (s.call .dispatcher).wants = some wanted := by
      have hwanted : (s.call .dispatcher).wants.or s.loop.wants = some wanted := hwanted
      rwa [LoopPc.wants_of_holds hheld, Option.or_none] at hwanted
    obtain ⟨topicId, rest, hloop⟩ := hinv.inCallback (CallPc.ne_idle_of_wants hcall)
    rw [hloop] at hheld
    obtain rfl : Mutex.m_observerMutex = owned := Option.some.inj hheld
    rcases CallPc.wants_cases hcall with rfl | rfl
    · exact Nat.zero_lt_one
    · exact absurd hcall hadds

/-- The only deadlock is that of the dispatch thread with itself. -/
theorem Inv.deadlocked_iff (hinv : Inv s) : s.locks.Deadlocked ↔ s.CallbackAdds := by
  constructor
  · intro hdeadlocked
    by_contra hadds
    exact (hinv.ordered hadds).not_deadlocked hdeadlocked
  · intro hadds
    have hcall := CallPc.ne_idle_of_wants hadds
    obtain ⟨topicId, rest, hloop⟩ := hinv.inCallback hcall
    have howner : s.owner .m_observerMutex = some .dispatcher :=
      (hinv.agree _ _).mpr (Or.inr ⟨rfl, by rw [hloop, LoopPc.holds]⟩)
    have hwanted : s.locks.wanted .dispatcher = some .m_observerMutex :=
      (hinv.wanted_of_call hcall).trans hadds
    exact Locks.deadlocked_of_self hwanted howner

/-! ### Steps of the dispatch thread -/

variable {mutex : Mutex}

theorem loop_holds_iff {u : Thread Tid} {other : Mutex} (hcall : next.call = s.call) :
    next.Holds u other ↔
      (s.call u).holds = some other ∨ u = .dispatcher ∧ next.loop.holds = some other := by
  rw [State.Holds, hcall]

/-- A step between the calls, of callbacks too. -/
theorem Inv.loop (hinv : Inv s) (hcall : next.call = s.call)
    (hidle : s.call .dispatcher = .idle) (hagree : Locks.Agree next.owner next.Holds) :
    Inv next where
  agree := hagree
  inCallback hbusy := absurd (by rw [hcall]; exact hidle) hbusy
  apart := by
    rw [hcall]
    exact hinv.apart

theorem Inv.loop_keep (hinv : Inv s) (hcall : next.call = s.call)
    (hidle : s.call .dispatcher = .idle) (howner : next.owner = s.owner)
    (hholds : next.loop.holds = s.loop.holds) : Inv next := by
  refine hinv.loop hcall hidle ?_
  rw [howner]
  refine hinv.agree.congr fun u other => ?_
  rw [loop_holds_iff hcall, hholds, State.Holds]

theorem Inv.loop_acquire (hinv : Inv s) (hcall : next.call = s.call)
    (hidle : s.call .dispatcher = .idle)
    (howner : next.owner = Function.update s.owner mutex (some .dispatcher))
    (hfree : s.owner mutex = none) (hbefore : s.loop.holds = none)
    (hafter : next.loop.holds = some mutex) : Inv next := by
  refine hinv.loop hcall hidle ?_
  rw [howner]
  refine hinv.agree.acquire hfree fun u other => ?_
  rw [loop_holds_iff hcall, hafter, State.Holds, hbefore]
  grind

theorem Inv.loop_release (hinv : Inv s) (hcall : next.call = s.call)
    (hidle : s.call .dispatcher = .idle)
    (howner : next.owner = Function.update s.owner mutex none)
    (hbefore : s.loop.holds = some mutex) (hafter : next.loop.holds = none) : Inv next := by
  refine hinv.loop hcall hidle ?_
  rw [howner]
  refine hinv.agree.release (Or.inr ⟨rfl, hbefore⟩) fun u other => ?_
  rw [loop_holds_iff hcall, hafter, State.Holds, hbefore]
  have hnone : (s.call .dispatcher).holds = none := by rw [hidle, CallPc.holds]
  grind

theorem Inv.idle_of_loop (hinv : Inv s) (hloop : ∀ topicId rest, s.loop ≠ .callback topicId rest) :
    s.call .dispatcher = .idle := by
  by_contra hbusy
  obtain ⟨topicId, rest, hcallback⟩ := hinv.inCallback hbusy
  exact hloop topicId rest hcallback

theorem State.dispatchLoop_call {timedOut : Bool} (hstep : s.dispatchLoop timedOut = some next) :
    next.call = s.call := by
  rw [State.dispatchLoop] at hstep
  split at hstep <;> grind [State.lock, State.unlock]

theorem Inv.dispatchLoop {timedOut : Bool} (hinv : Inv s)
    (hstep : s.dispatchLoop timedOut = some next) : Inv next := by
  rw [State.dispatchLoop] at hstep
  cases hpc : s.loop with
  | tryPop =>
      have hidle := hinv.idle_of_loop (by simp [hpc])
      cases hqueue : s.m_queue with
      | nil =>
          simp only [hpc, hqueue, Option.some.injEq] at hstep
          subst hstep
          refine hinv.loop_keep rfl hidle rfl ?_
          rw [hpc]
          dsimp only
          split_ifs <;> rfl
      | cons topicId queue =>
          simp only [hpc, hqueue, Option.some.injEq] at hstep
          subst hstep
          split_ifs
          · exact hinv.loop_keep rfl hidle rfl (by rw [hpc])
          · exact hinv.loop_keep rfl hidle rfl (by rw [hpc, LoopPc.holds, LoopPc.holds])
  | lockObserver topicId =>
      simp only [hpc, Option.ite_none_right_eq_some, Option.some.injEq] at hstep
      obtain ⟨hfree, rfl⟩ := hstep
      exact hinv.loop_acquire rfl (hinv.idle_of_loop (by simp [hpc])) rfl hfree
        (by rw [hpc, LoopPc.holds]) (by rw [LoopPc.holds])
  | next topicId rest =>
      have hidle := hinv.idle_of_loop (by simp [hpc])
      rcases rest with _ | ⟨_ | callback, rest⟩
      · simp only [hpc, Option.some.injEq] at hstep
        subst hstep
        exact hinv.loop_release rfl hidle rfl (by rw [hpc, LoopPc.holds]) (by rw [LoopPc.holds])
      · simp only [hpc, Option.some.injEq] at hstep
        subst hstep
        exact hinv.loop_keep rfl hidle rfl (by rw [hpc, LoopPc.holds, LoopPc.holds])
      · simp only [hpc, Option.some.injEq] at hstep
        subst hstep
        exact hinv.loop_keep rfl hidle rfl (by rw [hpc, LoopPc.holds, LoopPc.holds])
  | callback topicId rest =>
      simp only [hpc, Option.ite_none_right_eq_some, Option.some.injEq] at hstep
      obtain ⟨hidle, rfl⟩ := hstep
      exact hinv.loop_keep rfl hidle rfl (by rw [hpc, LoopPc.holds, LoopPc.holds])
  | lockCv =>
      simp only [hpc, Option.ite_none_right_eq_some, Option.some.injEq] at hstep
      obtain ⟨hfree, rfl⟩ := hstep
      exact hinv.loop_acquire rfl (hinv.idle_of_loop (by simp [hpc])) rfl hfree
        (by rw [hpc, LoopPc.holds]) (by rw [LoopPc.holds])
  | inCv =>
      simp only [hpc, Option.some.injEq] at hstep
      subst hstep
      refine hinv.loop_release rfl (hinv.idle_of_loop (by simp [hpc])) rfl
        (by rw [hpc, LoopPc.holds]) ?_
      dsimp only
      split_ifs <;> rfl
  | asleep =>
      simp only [hpc, Option.some.injEq] at hstep
      subst hstep
      exact hinv.loop_keep rfl (hinv.idle_of_loop (by simp [hpc])) rfl
        (by rw [hpc, LoopPc.holds, LoopPc.holds])

theorem inv_init : Inv (init : State Tid) where
  agree mutex t := by
    rw [State.Holds]
    simp [init, CallPc.holds, LoopPc.holds]
  inCallback hbusy := absurd rfl hbusy
  apart := by simp [init, CallPc.holds]

/-! ### Steps of the public calls -/

theorem State.post_call (s : State Tid) (topicId : Nat) : (s.post topicId).call = s.call := by
  unfold State.post
  split_ifs <;> rfl

theorem State.post_owner (s : State Tid) (topicId : Nat) : (s.post topicId).owner = s.owner := by
  unfold State.post
  split_ifs <;> rfl

theorem State.post_loop (s : State Tid) (topicId : Nat) : (s.post topicId).loop = s.loop := by
  unfold State.post
  split_ifs <;> rfl

section Invariant

variable [DecidableEq Tid] {t : Thread Tid} {pc : CallPc}

/-- A step that takes the thread to `pc`, outside the mutexes and `dispatchLoop`. -/
structure Goes (s next : State Tid) (t : Thread Tid) (pc : CallPc) : Prop where
  call : next.call = Function.update s.call t pc
  owner : next.owner = s.owner
  loop : next.loop = s.loop

theorem goes_goto (s : State Tid) (t : Thread Tid) (pc : CallPc) : Goes s (s.goto t pc) t pc :=
  ⟨rfl, rfl, rfl⟩

theorem goes_post (s : State Tid) (t : Thread Tid) (topicId : Nat) :
    Goes s ((s.post topicId).goto t .idle) t .idle where
  call := by rw [State.goto, State.post_call]
  owner := s.post_owner topicId
  loop := s.post_loop topicId

/-- `addObserver` by id locks for ids in the range. -/
theorem goes_addObserver (s : State Tid) (t : Thread Tid) (topicId : Nat)
    (callback : Option Nat) :
    ∃ pc, Goes s (s.addObserver t topicId callback) t pc ∧ pc.holds = none ∧
      (pc.wants = some .m_observerMutex ↔ topicId < MC_FAST_MAX_TOPICS) := by
  unfold State.addObserver
  split
  case isTrue hrange =>
    exact ⟨.idle, goes_goto s t _, rfl,
      iff_of_false (fun hwants => by cases hwants) (Nat.not_lt.mpr hrange)⟩
  case isFalse hrange =>
    exact ⟨.lockObserver topicId callback, goes_goto s t _, rfl,
      iff_of_true rfl (Nat.lt_of_not_le hrange)⟩

theorem goes_begin (s : State Tid) (t : Thread Tid) (op : Op) (hidle : s.call t = .idle) :
    ∃ pc, Goes s (s.begin t op) t pc ∧ pc.holds = none ∧
      (pc.wants = some .m_observerMutex ↔
        ∃ topicId callback, op = .addObserver topicId callback ∧
          topicId < MC_FAST_MAX_TOPICS) := by
  cases op with
  | post topicId =>
      refine ⟨.idle, ⟨?_, s.post_owner topicId, s.post_loop topicId⟩, rfl, by simp [CallPc.wants]⟩
      rw [State.begin, State.post_call, ← hidle, Function.update_eq_self]
  | addObserver topicId callback =>
      obtain ⟨pc, hgoes, hholds, hwants⟩ := goes_addObserver s t topicId callback
      exact ⟨pc, hgoes, hholds, by simpa using hwants⟩
  | postByName | registerTopic | resolveTopic | addObserverByName =>
      exact ⟨_, goes_goto s t _, rfl, by simp [CallPc.wants]⟩

theorem goes_topicSection (s : State Tid) (t : Thread Tid) (use : TopicUse) :
    ∃ pc, Goes s (s.topicSection t use) t pc ∧ pc.holds = none ∧
      (pc.wants = some .m_observerMutex ↔
        ∃ topic callback, use = .addObserver topic callback ∧
          (s.registry.registerTopic topic).2 < MC_FAST_MAX_TOPICS) := by
  cases use with
  | registerTopic name => exact ⟨.idle, ⟨rfl, rfl, rfl⟩, rfl, by simp [CallPc.wants]⟩
  | resolveTopic name => exact ⟨.idle, goes_goto s t _, rfl, by simp [CallPc.wants]⟩
  | addObserver topic callback =>
      simp only [State.topicSection]
      split
      case isTrue hid =>
        obtain ⟨pc, hgoes, hholds, hwants⟩ := goes_addObserver
          { s with registry := (s.registry.registerTopic topic).1 } t
          (s.registry.registerTopic topic).2 callback
        exact ⟨pc, ⟨hgoes.call, hgoes.owner, hgoes.loop⟩, hholds, by simpa using hwants⟩
      case isFalse hid =>
        have hid := not_not.mp hid
        refine ⟨.idle, ⟨rfl, rfl, rfl⟩, rfl,
          iff_of_false (fun hwants => by cases hwants) ?_⟩
        rintro ⟨topic', callback', huse, hlt⟩
        obtain ⟨rfl, rfl⟩ := TopicUse.addObserver.inj huse
        rw [hid] at hlt
        exact absurd hlt (by decide)
  | postResolve topic =>
      simp only [State.topicSection]
      split
      · exact ⟨_, goes_goto s t _, rfl, by simp [CallPc.wants]⟩
      · exact ⟨_, goes_post s t _, rfl, by simp [CallPc.wants]⟩
  | postRegister topic =>
      have hgoes := goes_post { s with registry := (s.registry.registerTopic topic).1 } t
        (s.registry.registerTopic topic).2
      exact ⟨.idle, ⟨hgoes.call, hgoes.owner, hgoes.loop⟩, rfl, by simp [CallPc.wants]⟩

/-- The critical section of `registerTopic` in `addObserver` is about to yield an id in range. -/
def State.Adds (s : State Tid) (t : Thread Tid) : Prop :=
  ∃ topic callback, s.call t = .inTopic (.addObserver topic callback) ∧
    (s.registry.registerTopic topic).2 < MC_FAST_MAX_TOPICS

/-- What a step of a public call can do. -/
inductive Ran (s : State Tid) (t : Thread Tid) : State Tid → Prop
  | locked {mutex : Mutex} {pc : CallPc} (hwants : (s.call t).wants = some mutex)
      (hfree : s.owner mutex = none) (hafter : pc.holds = some mutex) :
      Ran s t ((s.lock t mutex).goto t pc)
  | released {next : State Tid} {mutex : Mutex} {pc : CallPc}
      (hbefore : (s.call t).holds = some mutex) (hgoes : Goes (s.unlock mutex) next t pc)
      (hafter : pc.holds = none) (hwants : pc.wants = some .m_observerMutex ↔ s.Adds t) :
      Ran s t next

theorem ran_of_run (hrun : s.run t = some next) : Ran s t next := by
  rw [State.run] at hrun
  cases hpc : s.call t with
  | idle =>
      rw [hpc] at hrun
      cases hrun
  | lockTopic use =>
      simp only [hpc, Option.ite_none_right_eq_some, Option.some.injEq] at hrun
      obtain ⟨hfree, rfl⟩ := hrun
      exact .locked (by rw [hpc, CallPc.wants]) hfree (by rw [CallPc.holds])
  | inTopic use =>
      simp only [hpc, Option.some.injEq] at hrun
      subst hrun
      obtain ⟨pc, hgoes, hafter, hwants⟩ := goes_topicSection (s.unlock .m_topicMutex) t use
      refine .released (by rw [hpc, CallPc.holds]) hgoes hafter (hwants.trans ?_)
      simp only [State.Adds, hpc, CallPc.inTopic.injEq]
      rfl
  | lockObserver topicId callback =>
      simp only [hpc, Option.ite_none_right_eq_some, Option.some.injEq] at hrun
      obtain ⟨hfree, rfl⟩ := hrun
      exact .locked (by rw [hpc, CallPc.wants]) hfree (by rw [CallPc.holds])
  | inObserver topicId callback =>
      simp only [hpc, Option.some.injEq] at hrun
      subst hrun
      refine .released (by rw [hpc, CallPc.holds]) ⟨rfl, rfl, rfl⟩
        (show CallPc.idle.holds = none from rfl) ?_
      simp [State.Adds, hpc, CallPc.wants]

/-- A thread outside the critical sections before and after. -/
theorem holds_keep (hcall : next.call = Function.update s.call t pc) (hloop : next.loop = s.loop)
    (hbefore : (s.call t).holds = none) (hafter : pc.holds = none) (u : Thread Tid)
    (other : Mutex) : next.Holds u other ↔ s.Holds u other := by
  rw [State.Holds, State.Holds, hcall, hloop]
  by_cases hu : u = t
  · subst hu
    rw [Function.update_self, hbefore, hafter]
  · rw [Function.update_of_ne hu]

theorem holds_acquire (hcall : next.call = Function.update s.call t pc)
    (hloop : next.loop = s.loop) (hbefore : (s.call t).holds = none)
    (hafter : pc.holds = some mutex) (u : Thread Tid) (other : Mutex) :
    next.Holds u other ↔ s.Holds u other ∨ (u = t ∧ other = mutex) := by
  rw [State.Holds, State.Holds, hcall, hloop]
  by_cases hu : u = t
  · subst hu
    rw [Function.update_self, hbefore, hafter]
    grind
  · rw [Function.update_of_ne hu]
    simp [hu]

theorem holds_release (hcall : next.call = Function.update s.call t pc)
    (hloop : next.loop = s.loop) (hbefore : (s.call t).holds = some mutex)
    (hafter : pc.holds = none) (houtside : t = .dispatcher → s.loop.holds ≠ some mutex)
    (u : Thread Tid) (other : Mutex) :
    next.Holds u other ↔ s.Holds u other ∧ ¬ (u = t ∧ other = mutex) := by
  rw [State.Holds, State.Holds, hcall, hloop]
  by_cases hu : u = t
  · subst hu
    rw [Function.update_self, hbefore, hafter]
    grind
  · rw [Function.update_of_ne hu]
    simp [hu]

/-- A step of a public call keeps the invariant if it keeps the owners right. -/
theorem Inv.goes (hinv : Inv s) (hcall : next.call = Function.update s.call t pc)
    (hloop : next.loop = s.loop) (hagree : Locks.Agree next.owner next.Holds)
    (hcallback : t = .dispatcher → ∃ topicId rest, s.loop = .callback topicId rest)
    (hapart : t = .dispatcher → pc.holds ≠ some .m_observerMutex) : Inv next where
  agree := hagree
  inCallback hbusy := by
    rw [hloop]
    by_cases ht : t = .dispatcher
    · exact hcallback ht
    · rw [hcall, Function.update_of_ne (Ne.symm ht)] at hbusy
      exact hinv.inCallback hbusy
  apart := by
    rw [hcall]
    by_cases ht : t = .dispatcher
    · subst ht
      rw [Function.update_self]
      exact hapart rfl
    · rw [Function.update_of_ne (Ne.symm ht)]
      exact hinv.apart

theorem Inv.begin (hinv : Inv s) (op : Op) (huser : s.InUserCode t) : Inv (s.begin t op) := by
  have hidle : s.call t = .idle := by
    cases t with
    | dispatcher => exact huser.1
    | other t => exact huser
  obtain ⟨pc, hgoes, hholds, -⟩ := goes_begin s t op hidle
  have hkeep := holds_keep hgoes.call hgoes.loop (by rw [hidle, CallPc.holds]) hholds
  refine hinv.goes hgoes.call hgoes.loop ?_ ?_ ?_
  · rw [hgoes.owner]
    exact hinv.agree.congr hkeep
  · rintro rfl
    exact huser.2
  · intro _ hobserver
    exact absurd (hholds.symm.trans hobserver) (Option.some_ne_none _).symm

/-- The lock of a public call. -/
theorem Inv.acquire (hinv : Inv s) (hwants : (s.call t).wants = some mutex)
    (hfree : s.owner mutex = none) (hafter : pc.holds = some mutex) :
    Inv ((s.lock t mutex).goto t pc) := by
  have hbusy := CallPc.ne_idle_of_wants hwants
  have hbefore : (s.call t).holds = none := by
    cases hholds : (s.call t).holds with
    | none => rfl
    | some other =>
        have hnone := (CallPc.wants_of_holds hholds).2
        exact absurd (hwants.symm.trans hnone) (Option.some_ne_none _)
  have hcallback : t = .dispatcher → ∃ topicId rest, s.loop = .callback topicId rest := by
    rintro rfl
    exact hinv.inCallback hbusy
  refine hinv.goes rfl rfl (hinv.agree.acquire hfree (holds_acquire rfl rfl hbefore hafter))
    hcallback ?_
  rintro rfl hobserver
  -- the dispatch thread owns `m_observerMutex` while a callback runs
  obtain rfl : mutex = .m_observerMutex := Option.some.inj (hafter.symm.trans hobserver)
  obtain ⟨topicId, rest, hloop⟩ := hcallback rfl
  have howner := (hinv.agree .m_observerMutex .dispatcher).mpr
    (Or.inr ⟨rfl, by rw [hloop, LoopPc.holds]⟩)
  exact absurd (hfree.symm.trans howner) (Option.some_ne_none _).symm

/-- The end of a critical section of a public call. -/
theorem Inv.release (hinv : Inv s) (hgoes : Goes (s.unlock mutex) next t pc)
    (hbefore : (s.call t).holds = some mutex) (hafter : pc.holds = none) : Inv next := by
  have hbusy := (CallPc.wants_of_holds hbefore).1
  have hcallback : t = .dispatcher → ∃ topicId rest, s.loop = .callback topicId rest := by
    rintro rfl
    exact hinv.inCallback hbusy
  have houtside : t = .dispatcher → s.loop.holds ≠ some mutex := by
    rintro rfl hholds
    obtain ⟨topicId, rest, hcallback⟩ := hcallback rfl
    rw [hcallback] at hholds
    obtain rfl := Option.some.inj hholds
    exact hinv.apart hbefore
  refine hinv.goes hgoes.call hgoes.loop ?_ hcallback ?_
  · rw [hgoes.owner]
    exact hinv.agree.release (Or.inl hbefore)
      (holds_release hgoes.call hgoes.loop hbefore hafter houtside)
  · intro _ hobserver
    exact absurd (hafter.symm.trans hobserver) (Option.some_ne_none _).symm

theorem Inv.run (hinv : Inv s) (hrun : s.run t = some next) : Inv next := by
  cases ran_of_run hrun with
  | locked hwants hfree hafter => exact hinv.acquire hwants hfree hafter
  | released hbefore hgoes hafter => exact hinv.release hgoes hbefore hafter

theorem Inv.step {action : Action Tid} (hinv : Inv s) (hstep : step s action = some next) :
    Inv next := by
  cases action with
  | call t op =>
      obtain ⟨huser, hbegin⟩ := Option.ite_none_right_eq_some.mp hstep
      obtain rfl := Option.some.inj hbegin
      exact hinv.begin op huser
  | run t => exact hinv.run hstep
  | loop timedOut => exact hinv.dispatchLoop hstep

/-! ### Every run -/

/-- The steps that do not take a callback to the lock of `m_observerMutex`: `addObserver` by id
is called with an id out of range, and in `addObserver` by name `registerTopic` yields none in
range. -/
def KeepsOrder (s : State Tid) : Action Tid → Prop
  | .call .dispatcher (.addObserver topicId _) => topicId ≥ MC_FAST_MAX_TOPICS
  | .run .dispatcher => ¬ s.Adds .dispatcher
  | _ => True

theorem callbackAdds_call {op : Op} (hstep : step s (.call t op) = some next)
    (hadds : ¬ s.CallbackAdds) : next.CallbackAdds ↔ ¬ KeepsOrder s (.call t op) := by
  obtain ⟨huser, hbegin⟩ := Option.ite_none_right_eq_some.mp hstep
  obtain rfl := Option.some.inj hbegin
  cases t with
  | other u =>
      obtain ⟨pc, hgoes, -⟩ := goes_begin s (.other u) op huser
      rw [State.CallbackAdds, hgoes.call, Function.update_of_ne (by simp)]
      exact iff_of_false hadds (not_not_intro trivial)
  | dispatcher =>
      obtain ⟨pc, hgoes, -, hwants⟩ := goes_begin s .dispatcher op huser.1
      rw [State.CallbackAdds, hgoes.call, Function.update_self, hwants]
      cases op <;> simp [KeepsOrder]

theorem callbackAdds_run (hrun : s.run t = some next) (hadds : ¬ s.CallbackAdds) :
    next.CallbackAdds ↔ ¬ KeepsOrder s (.run t) := by
  have hcall : ∃ pc, next.call = Function.update s.call t pc ∧
      (pc.wants = some .m_observerMutex ↔ s.Adds t) := by
    cases ran_of_run hrun with
    | @locked mutex pc hwants hfree hafter =>
        refine ⟨pc, rfl, iff_of_false ?_ ?_⟩
        · rw [(CallPc.wants_of_holds hafter).2]
          exact (Option.some_ne_none _).symm
        · rintro ⟨topic, callback, hpc, -⟩
          rw [hpc] at hwants
          cases hwants
    | released hbefore hgoes hafter hwants => exact ⟨_, hgoes.call, hwants⟩
  obtain ⟨pc, hcall, hwants⟩ := hcall
  cases t with
  | other u =>
      rw [State.CallbackAdds, hcall, Function.update_of_ne (by simp)]
      exact iff_of_false hadds (not_not_intro trivial)
  | dispatcher =>
      rw [State.CallbackAdds, hcall, Function.update_self, hwants, KeepsOrder, not_not]

/-- The step lemma: exactly the other steps take a callback to the lock. -/
theorem callbackAdds_step {action : Action Tid} (hstep : step s action = some next)
    (hadds : ¬ s.CallbackAdds) : next.CallbackAdds ↔ ¬ KeepsOrder s action := by
  cases action with
  | call t op => exact callbackAdds_call hstep hadds
  | run t => exact callbackAdds_run hstep hadds
  | loop timedOut =>
      rw [State.CallbackAdds, State.dispatchLoop_call hstep]
      exact iff_of_false hadds (not_not_intro trivial)

theorem inv_state (exec : Execution (machine Tid)) {k : Nat} (hk : k ≤ exec.length) :
    Inv (exec.state k) :=
  (exec.reachable hk).invariant _ inv_init fun _ _ _ hinv hstep => hinv.step hstep

/-- **Deadlocks.**  A run meets no deadlock if and only if none of its steps takes a callback to
the lock of `m_observerMutex`. -/
theorem deadlock_free_iff_keepsOrder (exec : Execution (machine Tid)) :
    (∀ k, k ≤ exec.length → ¬ (exec.state k).locks.Deadlocked) ↔ exec.Allowed KeepsOrder := by
  constructor
  · intro hfree k hk
    have hbefore := mt (inv_state exec (Nat.le_of_lt hk)).deadlocked_iff.mpr
      (hfree k (Nat.le_of_lt hk))
    have hafter := mt (inv_state exec hk).deadlocked_iff.mpr (hfree (k + 1) hk)
    by_contra hkeeps
    exact hafter ((callbackAdds_step (exec.steps k hk) hbefore).mpr hkeeps)
  · intro hallowed k hk hdeadlocked
    have hadds : ∀ k, k ≤ exec.length → ¬ (exec.state k).CallbackAdds := by
      intro k hk
      induction k with
      | zero =>
          rw [exec.starts, State.CallbackAdds]
          exact (Option.some_ne_none _).symm
      | succ k ih =>
          intro hadds
          have hlt : k < exec.length := hk
          exact (callbackAdds_step (exec.steps k hlt) (ih (Nat.le_of_lt hlt))).mp hadds
            (hallowed k hlt)
    exact hadds k hk ((inv_state exec hk).deadlocked_iff.mp hdeadlocked)

end Invariant

instance : Inhabited (Action Tid) := ⟨.loop false⟩

/-- An observer is added and a message posted for it; its callback adds another observer. -/
def callbackAddsObserver : Execution (machine Unit) :=
  Execution.ofActions _ [.call (.other ()) (.addObserver 0 (some 1)), .run (.other ()),
    .run (.other ()), .call (.other ()) (.post 0), .loop false, .loop false, .loop false,
    .call .dispatcher (.addObserver 0 (some 2))] (by decide)

/-- The dispatch thread waits for the mutex that it owns. -/
theorem deadlocked_callbackAddsObserver :
    ¬ ∀ (exec : Execution (machine Unit)) (k : Nat), k ≤ exec.length →
      ¬ (exec.state k).locks.Deadlocked := by
  intro hfree
  refine hfree callbackAddsObserver 8 (Nat.le_refl 8) ?_
  have hwanted : (callbackAddsObserver.state 8).locks.wanted .dispatcher =
      some .m_observerMutex := by
    decide
  have howner : (callbackAddsObserver.state 8).locks.owner .m_observerMutex =
      some .dispatcher := by
    decide
  exact Locks.deadlocked_of_self hwanted howner

/-- A callback that posts and registers by name takes `m_topicMutex` and goes on. -/
example : ((machine Unit).run init [.call (.other ()) (.addObserver 0 (some 1)),
    .run (.other ()), .run (.other ()), .call (.other ()) (.post 0), .loop false, .loop false,
    .loop false, .call .dispatcher (.postByName "news"), .run .dispatcher, .run .dispatcher,
    .run .dispatcher, .run .dispatcher, .loop false, .loop false]).map
      (fun s => (s.m_queue, s.loop)) = some ([0], .tryPop) := by
  decide

end MessageCenter.MessageCenterFast.Deadlock
