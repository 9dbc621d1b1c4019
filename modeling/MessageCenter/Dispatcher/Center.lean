import MessageCenter.Dispatcher.Threads
import MessageCenter.Lib.Machine

/-!
# `MessageCenter::Start`, `MessageCenter::Stop` and `ThreadWorker`

Any number of threads call `Start` and `Stop`.  A step is one load or store of
`m_started`, `m_requestStop`, `m_stopped` or `m_thread`, the taking or releasing of
`m_mutexThreads`, the creation of the thread, the return of `join`, the deletion, or a
turn of a worker.  What a worker does with a message touches none of these.

Both calls make their first test before they take the lock.  For `Stop` that does no
harm: it tests the pointer again under the lock.  `Start` does not test again, and
`Apart` asks that a `Start` which finds `m_started` false does not do so while another
one is between this test and its own `m_started = true`.
-/

namespace MessageCenter.Dispatcher.Center

open Concurrency

/-- What a caller does next. -/
inductive CallPc where
  | idle
  /-- `if (m_started.load())` -/
  | startTest
  | startLock
  /-- `m_requestStop = false` -/
  | startRequest
  /-- `m_stopped = false` -/
  | startStopped
  /-- `new std::thread(…)` -/
  | startCreate
  /-- `m_thread = …` -/
  | startStore (th : Nat)
  /-- `m_started = true` -/
  | startStarted
  | startUnlock
  /-- `if (m_stopped.load())` -/
  | stopTest
  | stopLock
  /-- `m_requestStop = true` -/
  | stopRequest
  /-- `if (m_thread != nullptr)` -/
  | stopTestPointer
  /-- `if (m_thread->joinable())` -/
  | stopJoinable
  /-- `m_thread->join()` -/
  | stopJoin
  /-- in `join` -/
  | stopJoining (th : Nat)
  /-- `delete m_thread` -/
  | stopDelete
  /-- `m_thread = nullptr` -/
  | stopClear
  /-- `m_started = false` -/
  | stopStarted
  | stopUnlock
deriving DecidableEq, Repr

structure State (Tid : Type) where
  m_started : Bool
  m_requestStop : Bool
  m_stopped : Bool
  m_mutexThreads : Option Tid
  threads : Threads
  pc : Tid → CallPc
  calls : Calls Tid

inductive Action (Tid : Type) where
  /-- `t` calls `Start` -/
  | start (t : Tid)
  /-- `t` calls `Stop` -/
  | stop (t : Tid)
  /-- the next step of `t`'s call -/
  | call (t : Tid)
  /-- a turn of a worker -/
  | thread (th : Nat)

variable {Tid : Type}

def init : State Tid where
  m_started := false
  m_requestStop := false
  m_stopped := true
  m_mutexThreads := none
  threads := Threads.init
  pc := fun _ => .idle
  calls := Calls.init

/-- A worker is in the loop of `ThreadWorker`. -/
def State.Executing (s : State Tid) (th : Nat) : Prop := s.threads.stage th = some .loop

/-- `ThreadWorker`: the test of `m_requestStop` with a turn of the loop, or
`m_stopped = true`. -/
def runThread (s : State Tid) (th : Nat) : Option (State Tid) :=
  match s.threads.stage th with
  | some .loop =>
      some (if s.m_requestStop then { s with threads := s.threads.advance th .rest } else s)
  | some .rest => some { s with m_stopped := true, threads := s.threads.advance th .leaving }
  | some .leaving => some { s with threads := s.threads.advance th .ended }
  | some .ended | none => none

section
variable [DecidableEq Tid]

def State.goto (s : State Tid) (t : Tid) (pc : CallPc) : State Tid :=
  { s with pc := Function.update s.pc t pc }

def State.returnStart (s : State Tid) (t : Tid) : State Tid :=
  { s with calls := s.calls.endStart t }.goto t .idle

def State.returnStop (s : State Tid) (t : Tid) : State Tid :=
  { s with calls := s.calls.endStop t }.goto t .idle

/-- Take the lock. -/
def State.acquire (s : State Tid) (t : Tid) (pc : CallPc) : Option (State Tid) :=
  if s.m_mutexThreads = none then some ({ s with m_mutexThreads := some t }.goto t pc) else none

/-- The next step of `Start` or `Stop`; a null pointer that is followed ends the run. -/
def runCall (s : State Tid) (t : Tid) : Option (State Tid) :=
  match s.pc t with
  | .idle => none
  | .startTest => some (if s.m_started then s.returnStart t else s.goto t .startLock)
  | .startLock => s.acquire t .startRequest
  | .startRequest => some ({ s with m_requestStop := false }.goto t .startStopped)
  | .startStopped => some ({ s with m_stopped := false }.goto t .startCreate)
  | .startCreate =>
      some ({ s with threads := s.threads.create }.goto t (.startStore s.threads.created))
  | .startStore th =>
      some ({ s with threads := s.threads.setPointer (some th) }.goto t .startStarted)
  | .startStarted => some ({ s with m_started := true }.goto t .startUnlock)
  | .startUnlock => some ({ s with m_mutexThreads := none }.returnStart t)
  | .stopTest => some (if s.m_stopped then s.returnStop t else s.goto t .stopLock)
  | .stopLock => s.acquire t .stopRequest
  | .stopRequest => some ({ s with m_requestStop := true }.goto t .stopTestPointer)
  | .stopTestPointer =>
      some (s.goto t (if s.threads.pointer = none then .stopStarted else .stopJoinable))
  | .stopJoinable =>
      s.threads.pointer.map fun th =>
        s.goto t (if s.threads.joinable th then .stopJoin else .stopDelete)
  | .stopJoin => s.threads.pointer.map fun th => s.goto t (.stopJoining th)
  | .stopJoining th =>
      if s.threads.stage th = some .ended then
        some ({ s with threads := s.threads.join th }.goto t .stopDelete)
      else none
  | .stopDelete => some ({ s with threads := s.threads.delete }.goto t .stopClear)
  | .stopClear => some ({ s with threads := s.threads.setPointer none }.goto t .stopStarted)
  | .stopStarted => some ({ s with m_started := false }.goto t .stopUnlock)
  | .stopUnlock => some ({ s with m_mutexThreads := none }.returnStop t)

def step (s : State Tid) : Action Tid → Option (State Tid)
  | .start t =>
      if s.pc t = .idle then some ({ s with calls := s.calls.beginStart t }.goto t .startTest)
      else none
  | .stop t =>
      if s.pc t = .idle then some ({ s with calls := s.calls.beginStop t }.goto t .stopTest)
      else none
  | .call t => runCall s t
  | .thread th => runThread s th

def machine (Tid : Type) [DecidableEq Tid] : Machine (State Tid) (Action Tid) := ⟨init, step⟩

end

/-! ### Which calls may overlap -/

/-- The `Start` is between its test and `m_started = true`. -/
def CallPc.Claiming : CallPc → Prop
  | .startLock | .startRequest | .startStopped | .startCreate | .startStore _
  | .startStarted => True
  | .idle | .startTest | .startUnlock | .stopTest | .stopLock | .stopRequest | .stopTestPointer
  | .stopJoinable | .stopJoin | .stopJoining _ | .stopDelete | .stopClear | .stopStarted
  | .stopUnlock => False

instance (pc : CallPc) : Decidable pc.Claiming := by
  cases pc <;> first | exact isTrue trivial | exact isFalse id

/-- When a `Start` finds `m_started` false no other one is past that test and short of
`m_started = true`. -/
def Apart (s : State Tid) : Action Tid → Prop
  | .call t =>
      s.pc t = .startTest → s.m_started = false → ∀ u, u ≠ t → ¬ (s.pc u).Claiming
  | .start _ | .stop _ | .thread _ => True

/-! ### The invariant -/

/-- Where a caller can be while the thread object has a status and a call may hold the
lock. -/
def CallPc.Fits (status : Status) (mutex : Option Tid) (t : Tid) : CallPc → Prop
  | .idle | .startTest | .stopTest | .stopLock => mutex ≠ some t
  | .startLock => mutex ≠ some t ∧ status = .vacant
  | .startRequest | .startStopped | .startCreate => mutex = some t ∧ status = .vacant
  | .startStore th => mutex = some t ∧ status = .created th
  | .startStarted | .startUnlock => mutex = some t ∧ ∃ th, status = .stored th
  | .stopRequest | .stopTestPointer =>
      mutex = some t ∧ (status = .vacant ∨ ∃ th, status = .stored th)
  | .stopJoinable | .stopJoin => mutex = some t ∧ ∃ th, status = .stored th
  | .stopJoining th => mutex = some t ∧ status = .stored th
  | .stopDelete => mutex = some t ∧ ∃ th, status = .joined th
  | .stopClear => mutex = some t ∧ ∃ th, status = .deleted th
  | .stopStarted | .stopUnlock => mutex = some t ∧ status = .vacant

/-- The call of `Start` has not returned. -/
def CallPc.Starting : CallPc → Prop
  | .startTest | .startLock | .startRequest | .startStopped | .startCreate | .startStore _
  | .startStarted | .startUnlock => True
  | .idle | .stopTest | .stopLock | .stopRequest | .stopTestPointer | .stopJoinable | .stopJoin
  | .stopJoining _ | .stopDelete | .stopClear | .stopStarted | .stopUnlock => False

/-- The holder of the lock owns the thread object, and every call is where the status of
the object lets it be. -/
structure Inv (s : State Tid) (status : Status) : Prop where
  threads : s.threads.Fits status
  callers : ∀ t, (s.pc t).Fits status s.m_mutexThreads t
  unlocked : s.m_mutexThreads = none → status = .vacant ∨ ∃ th, status = .stored th
  one : ∀ t u, (s.pc t).Claiming → (s.pc u).Claiming → t = u
  notStarted : s.m_started = false →
    status = .vacant ∨ ∃ t, s.m_mutexThreads = some t ∧ (s.pc t).Claiming
  stopped : s.m_stopped = true → ∀ th, ¬ s.Executing th
  creating : ∀ t, s.pc t = .startCreate → s.m_stopped = false
  calls : s.calls.Inv
  starting : ∀ t, (s.pc t).Starting → t ∈ s.calls.inStart
  settled : s.calls.Settled → ∀ th, ¬ s.Executing th

theorem Inv.init : Inv (init : State Tid) .vacant where
  threads := Threads.Fits.init
  callers t := by simp [Center.init, CallPc.Fits]
  unlocked _ := .inl rfl
  one t u h := by simp [Center.init, CallPc.Claiming] at h
  notStarted _ := .inl rfl
  stopped _ th h := by simp [State.Executing, Center.init, Threads.init] at h
  creating t h := by simp [Center.init] at h
  calls := Calls.Inv.init
  starting t h := by simp [Center.init, CallPc.Starting] at h
  settled _ th h := by simp [State.Executing, Center.init, Threads.init] at h

variable {s next : State Tid} {status newStatus : Status} {t : Tid}

/-- A worker in the loop is the one in use. -/
theorem unjoined_of_executing (h : s.threads.Fits status) {th : Nat} (hexec : s.Executing th) :
    status.unjoined = some th :=
  h.unjoined_of_stage hexec (by decide)

theorem Inv.not_settled_of_starting (h : Inv s status) (ht : (s.pc t).Starting) :
    ¬ s.calls.Settled := by
  intro hsettled
  have hmem := h.starting t ht
  rw [h.calls.settled_quiet hsettled] at hmem
  contradiction

/-- Short of `m_started = true` and beyond the vacancy there is a `Start` with the lock. -/
theorem Inv.started (h : Inv s status) (hown : s.m_mutexThreads = some t)
    (hstatus : status ≠ .vacant) (hpc : ¬ (s.pc t).Claiming) : s.m_started = true := by
  by_contra hstarted
  rw [Bool.not_eq_true] at hstarted
  rcases h.notStarted hstarted with hvacant | ⟨u, hu, hclaiming⟩
  · exact hstatus hvacant
  · obtain rfl := Option.some.inj (hown.symm.trans hu)
    exact hpc hclaiming

/-- What a step of the holder leaves of a caller that waits for the lock. -/
theorem CallPc.Fits.of_other {pc : CallPc} {mutex newMutex : Option Tid} {u : Tid}
    (h : pc.Fits status mutex u) (hu : mutex ≠ some u) (hu' : newMutex ≠ some u)
    (hvacant : pc.Claiming → status = .vacant → newStatus = .vacant) :
    pc.Fits newStatus newMutex u := by
  cases pc <;> simp_all [CallPc.Fits, CallPc.Claiming]

section
variable [DecidableEq Tid]

/-- A step of `t`'s call, told by what it does to everything but the callers. -/
theorem Inv.turn (h : Inv s status) (pc : CallPc)
    (hpc : next.pc = Function.update s.pc t pc) (hthreads : next.threads.Fits newStatus)
    (hown : pc.Fits newStatus next.m_mutexThreads t)
    (hothers : ∀ u, u ≠ t → (s.pc u).Fits newStatus next.m_mutexThreads u)
    (hunlocked : next.m_mutexThreads = none → newStatus = .vacant ∨ ∃ th, newStatus = .stored th)
    (hclaim : pc.Claiming → (s.pc t).Claiming ∨ ∀ u, u ≠ t → ¬ (s.pc u).Claiming)
    (hnotStarted : next.m_started = false →
      newStatus = .vacant ∨ ∃ u, next.m_mutexThreads = some u ∧ (next.pc u).Claiming)
    (hstopped : next.m_stopped = true → ∀ th, ¬ next.Executing th)
    (hcreating : ∀ u, next.pc u = .startCreate → next.m_stopped = false)
    (hcalls : next.calls.Inv)
    (hstarting : ∀ u, u ≠ t → u ∈ s.calls.inStart → u ∈ next.calls.inStart)
    (hstart : pc.Starting → t ∈ next.calls.inStart)
    (hsettled : next.calls.Settled → ∀ th, ¬ next.Executing th) : Inv next newStatus where
  threads := hthreads
  callers u := by
    rw [hpc]
    by_cases hu : u = t
    · subst hu
      simpa using hown
    · simpa [hu] using hothers u hu
  unlocked := hunlocked
  one u v := by
    rw [hpc]
    by_cases hu : u = t <;> by_cases hv : v = t
    · exact fun _ _ => hu.trans hv.symm
    · subst hu
      simp only [Function.update_self, Function.update_of_ne hv]
      intro hown hother
      exact (hclaim hown).elim (fun hbefore => h.one u v hbefore hother)
        fun hnone => absurd hother (hnone v hv)
    · subst hv
      simp only [Function.update_self, Function.update_of_ne hu]
      intro hother hown
      exact (hclaim hown).elim (fun hbefore => h.one u v hother hbefore)
        fun hnone => absurd hother (hnone u hu)
    · simpa [hu, hv] using h.one u v
  notStarted := hnotStarted
  stopped := hstopped
  creating := hcreating
  calls := hcalls
  starting u := by
    rw [hpc]
    by_cases hu : u = t
    · subst hu
      simpa using hstart
    · simpa [hu] using fun hpc => hstarting u hu (h.starting u hpc)
  settled := hsettled

/-! ### Steps without the lock -/

/-- A step of a call that does not hold the lock and changes no shared variable. -/
theorem Inv.bystand (h : Inv s status) (hown : s.m_mutexThreads ≠ some t) {pc : CallPc}
    {calls : Calls Tid} (hnext : pc.Fits status s.m_mutexThreads t)
    (hclaim : pc.Claiming → ∀ u, u ≠ t → ¬ (s.pc u).Claiming) (hcalls : calls.Inv)
    (hstarting : ∀ u, u ≠ t → u ∈ s.calls.inStart → u ∈ calls.inStart)
    (hstart : pc.Starting → t ∈ calls.inStart)
    (hsettled : calls.Settled → ∀ th, ¬ s.Executing th) :
    Inv ({ s with calls := calls }.goto t pc) status := by
  refine h.turn _ rfl h.threads hnext (fun u _ => h.callers u) h.unlocked
    (fun hpc => .inr (hclaim hpc)) ?_ h.stopped ?_ hcalls hstarting hstart hsettled
  · intro hstarted
    rcases h.notStarted hstarted with hvacant | ⟨u, hu, hclaiming⟩
    · exact .inl hvacant
    · have hne : u ≠ t := fun heq => hown (heq ▸ hu)
      exact .inr ⟨u, hu, by simpa [State.goto, hne] using hclaiming⟩
  · intro u hcreate
    by_cases hu : u = t
    · subst hu
      simp only [State.goto, Function.update_self] at hcreate
      rw [hcreate] at hnext
      exact absurd hnext.1 hown
    · exact h.creating u (by simpa [State.goto, hu] using hcreate)

theorem Inv.start (h : Inv s status) (hidle : s.pc t = .idle) :
    Inv ({ s with calls := s.calls.beginStart t }.goto t .startTest) status := by
  have hown := h.callers t
  rw [hidle] at hown
  refine h.bystand hown hown nofun (h.calls.beginStart t) ?_ (fun _ => List.mem_cons_self) ?_
  · exact fun u _ hu => List.mem_cons_of_mem t hu
  · exact fun hsettled => absurd hsettled (h.calls.not_settled_beginStart t)

theorem Inv.stop (h : Inv s status) (hidle : s.pc t = .idle) :
    Inv ({ s with calls := s.calls.beginStop t }.goto t .stopTest) status := by
  have hown := h.callers t
  rw [hidle] at hown
  exact h.bystand hown hown nofun (h.calls.beginStop t) (fun _ _ => id) nofun h.settled

theorem Inv.startTest (h : Inv s status) (hpc : s.pc t = .startTest)
    (hapart : s.m_started = false → ∀ u, u ≠ t → ¬ (s.pc u).Claiming) :
    Inv (if s.m_started then s.returnStart t else s.goto t .startLock) status := by
  have hown : s.m_mutexThreads ≠ some t := by simpa [hpc, CallPc.Fits] using h.callers t
  cases hstarted : s.m_started with
  | true =>
      refine h.bystand hown hown nofun (h.calls.endStart t) ?_ nofun h.settled
      intro u hu hmem
      simpa [Calls.endStart, hu] using hmem
  | false =>
      have hvacant : status = .vacant := by
        rcases h.notStarted hstarted with hvacant | ⟨u, hu, hclaiming⟩
        · exact hvacant
        · exact absurd hclaiming (hapart hstarted u fun heq => hown (heq ▸ hu))
      exact h.bystand hown ⟨hown, hvacant⟩ (fun _ => hapart hstarted) h.calls (fun _ _ => id)
        (fun _ => h.starting t (hpc ▸ trivial)) h.settled

theorem Inv.stopTest (h : Inv s status) (hpc : s.pc t = .stopTest) :
    Inv (if s.m_stopped then s.returnStop t else s.goto t .stopLock) status := by
  have hown : s.m_mutexThreads ≠ some t := by simpa [hpc, CallPc.Fits] using h.callers t
  cases hstopped : s.m_stopped with
  | true =>
      exact h.bystand hown hown nofun (h.calls.endStop t) (fun _ _ => id) nofun
        fun _ => h.stopped hstopped
  | false => exact h.bystand hown hown nofun h.calls (fun _ _ => id) nofun h.settled

/-! ### Steps under the lock -/

/-- Taking the lock. -/
theorem Inv.acquire (h : Inv s status) (hfree : s.m_mutexThreads = none) {pc : CallPc}
    (hnext : pc.Fits status (some t) t) (hcreate : pc ≠ .startCreate)
    (hclaim : pc.Claiming → (s.pc t).Claiming) (hstart : pc.Starting → (s.pc t).Starting) :
    Inv ({ s with m_mutexThreads := some t }.goto t pc) status := by
  refine h.turn _ rfl h.threads hnext ?_ nofun (fun hpc => .inl (hclaim hpc)) ?_ h.stopped ?_ h.calls
    (fun _ _ => id) (fun hpc => h.starting t (hstart hpc)) h.settled
  · intro u hu
    refine (h.callers u).of_other ?_ (by simpa [State.goto] using hu.symm) fun _ => id
    simp [hfree]
  · intro hstarted
    rcases h.notStarted hstarted with hvacant | ⟨u, hu, -⟩
    · exact .inl hvacant
    · simp [hfree] at hu
  · intro u hu
    by_cases heq : u = t
    · subst heq
      simp only [State.goto, Function.update_self] at hu
      exact absurd hu hcreate
    · exact h.creating u (by simpa [State.goto, heq] using hu)

/-- A step of the holder of the lock. -/
theorem Inv.hold (h : Inv s status) (hown : s.m_mutexThreads = some t) {pc : CallPc}
    (hpc : next.pc = Function.update s.pc t pc) (hmutex : next.m_mutexThreads = some t)
    (hcalls : next.calls = s.calls) (hthreads : next.threads.Fits newStatus)
    (hnext : pc.Fits newStatus (some t) t)
    (hvacant : status = .vacant → newStatus = .vacant ∨ (s.pc t).Claiming)
    (hclaim : pc.Claiming → (s.pc t).Claiming) (hstart : pc.Starting → (s.pc t).Starting)
    (hnotStarted : next.m_started = false → newStatus = .vacant ∨ pc.Claiming)
    (hstopped : next.m_stopped = true → s.m_stopped = true)
    (hexec : ∀ th, next.Executing th → s.Executing th ∨ s.pc t = .startCreate)
    (hcreating : pc = .startCreate → next.m_stopped = false) : Inv next newStatus := by
  -- a thread that was not there before is one that the holder creates
  have hquiet (hbefore : ∀ th, ¬ s.Executing th) (hcreate : s.pc t ≠ .startCreate) (th : Nat) :
      ¬ next.Executing th := fun hth => (hexec th hth).elim (hbefore th) hcreate
  refine h.turn _ hpc hthreads (hmutex ▸ hnext) ?_ ?_ (fun hpc => .inl (hclaim hpc)) ?_ ?_ ?_
    (hcalls ▸ h.calls) ?_ ?_ ?_
  · intro u hu
    rw [hmutex]
    refine (h.callers u).of_other ?_ (by simpa using hu.symm) fun hclaiming heq => ?_
    · simpa [hown] using hu.symm
    · refine (hvacant heq).resolve_right fun hbefore => hu (h.one u t hclaiming hbefore)
  · simp [hmutex]
  · refine fun hstarted => (hnotStarted hstarted).imp_right fun hclaiming => ⟨t, hmutex, ?_⟩
    simpa [hpc] using hclaiming
  · intro hnext
    refine hquiet (h.stopped (hstopped hnext)) fun hcreate => ?_
    simpa [hstopped hnext] using h.creating t hcreate
  · intro u hu
    rw [hpc] at hu
    by_cases heq : u = t
    · subst heq
      exact hcreating (by simpa using hu)
    · have hother := h.callers u
      rw [Function.update_of_ne heq] at hu
      rw [hu, hown] at hother
      exact absurd (Option.some.inj hother.1).symm heq
  · exact fun u _ hu => hcalls ▸ hu
  · exact fun hpc => hcalls ▸ h.starting t (hstart hpc)
  · intro hsettled
    rw [hcalls] at hsettled
    refine hquiet (h.settled hsettled) fun hcreate => ?_
    exact h.not_settled_of_starting (t := t) (hcreate ▸ trivial) hsettled

/-- Releasing the lock and returning. -/
theorem Inv.release (h : Inv s status) (hown : s.m_mutexThreads = some t) {calls : Calls Tid}
    (hstatus : status = .vacant ∨ s.m_started = true ∧ ∃ th, status = .stored th)
    (hcalls : calls.Inv) (hstarting : ∀ u, u ≠ t → u ∈ s.calls.inStart → u ∈ calls.inStart)
    (hsettled : calls.Settled → ∀ th, ¬ s.Executing th) :
    Inv ({ s with m_mutexThreads := none, calls := calls }.goto t .idle) status := by
  refine h.turn .idle rfl h.threads nofun ?_ ?_ nofun ?_ h.stopped ?_ hcalls hstarting
    nofun hsettled
  · intro u hu
    refine (h.callers u).of_other ?_ nofun fun _ => id
    simpa [hown] using hu.symm
  · exact fun _ => hstatus.imp_right And.right
  · intro hstarted
    rcases hstatus with hvacant | ⟨htrue, -⟩
    · exact .inl hvacant
    · exact absurd (hstarted.symm.trans htrue) (by decide)
  · intro u hu
    by_cases heq : u = t
    · subst heq
      simp [State.goto] at hu
    · exact h.creating u (by simpa [State.goto, heq] using hu)

/-! ### `Start` -/

theorem Inv.startLock (h : Inv s status) (hpc : s.pc t = .startLock)
    (hfree : s.m_mutexThreads = none) :
    Inv ({ s with m_mutexThreads := some t }.goto t .startRequest) status := by
  have hown := h.callers t
  rw [hpc] at hown
  exact h.acquire hfree ⟨rfl, hown.2⟩ nofun (fun _ => hpc ▸ trivial) fun _ => hpc ▸ trivial

theorem Inv.startRequest (h : Inv s status) (hpc : s.pc t = .startRequest) :
    Inv ({ s with m_requestStop := false }.goto t .startStopped) status := by
  have hown := h.callers t
  rw [hpc] at hown
  obtain ⟨hmutex, rfl⟩ := hown
  exact h.hold hmutex rfl hmutex rfl h.threads ⟨rfl, rfl⟩ .inl (fun _ => hpc ▸ trivial)
    (fun _ => hpc ▸ trivial) (fun _ => .inl rfl) id (fun _ => .inl) nofun

theorem Inv.startStopped (h : Inv s status) (hpc : s.pc t = .startStopped) :
    Inv ({ s with m_stopped := false }.goto t .startCreate) status := by
  have hown := h.callers t
  rw [hpc] at hown
  obtain ⟨hmutex, rfl⟩ := hown
  exact h.hold hmutex rfl hmutex rfl h.threads ⟨rfl, rfl⟩ .inl (fun _ => hpc ▸ trivial)
    (fun _ => hpc ▸ trivial) (fun _ => .inl rfl) nofun (fun _ => .inl) fun _ => rfl

theorem Inv.startCreate (h : Inv s status) (hpc : s.pc t = .startCreate) :
    Inv ({ s with threads := s.threads.create }.goto t (.startStore s.threads.created))
      (.created s.threads.created) := by
  have hown := h.callers t
  rw [hpc] at hown
  obtain ⟨hmutex, rfl⟩ := hown
  exact h.hold hmutex rfl hmutex rfl h.threads.create ⟨rfl, rfl⟩ (fun _ => .inr (hpc ▸ trivial))
    (fun _ => hpc ▸ trivial) (fun _ => hpc ▸ trivial) (fun _ => .inr trivial) id
    (fun _ _ => .inr hpc) nofun

theorem Inv.startStore (h : Inv s status) {th : Nat} (hpc : s.pc t = .startStore th) :
    Inv ({ s with threads := s.threads.setPointer (some th) }.goto t .startStarted)
      (.stored th) := by
  have hown := h.callers t
  rw [hpc] at hown
  obtain ⟨hmutex, rfl⟩ := hown
  exact h.hold hmutex rfl hmutex rfl h.threads.store ⟨rfl, th, rfl⟩ nofun
    (fun _ => hpc ▸ trivial) (fun _ => hpc ▸ trivial) (fun _ => .inr trivial) id
    (fun _ => .inl) nofun

theorem Inv.startStarted (h : Inv s status) (hpc : s.pc t = .startStarted) :
    Inv ({ s with m_started := true }.goto t .startUnlock) status := by
  have hown := h.callers t
  rw [hpc] at hown
  obtain ⟨hmutex, th, rfl⟩ := hown
  exact h.hold hmutex rfl hmutex rfl h.threads ⟨rfl, th, rfl⟩ nofun nofun
    (fun _ => hpc ▸ trivial) nofun id (fun _ => .inl) nofun

theorem Inv.startUnlock (h : Inv s status) (hpc : s.pc t = .startUnlock) :
    Inv ({ s with m_mutexThreads := none }.returnStart t) status := by
  have hown := h.callers t
  rw [hpc] at hown
  obtain ⟨hmutex, th, rfl⟩ := hown
  have hstarted := h.started hmutex nofun (hpc ▸ id)
  refine h.release hmutex (.inr ⟨hstarted, th, rfl⟩) (h.calls.endStart t) ?_ h.settled
  intro u hu hmem
  simpa [Calls.endStart, hu] using hmem

/-! ### `Stop` -/

theorem Inv.stopLock (h : Inv s status) (hfree : s.m_mutexThreads = none) :
    Inv ({ s with m_mutexThreads := some t }.goto t .stopRequest) status :=
  h.acquire hfree ⟨rfl, h.unlocked hfree⟩ nofun nofun nofun

/-- A step of a `Stop` that holds the lock. -/
theorem Inv.holdStop (h : Inv s status) (hown : s.m_mutexThreads = some t) {pc : CallPc}
    (hpc : next.pc = Function.update s.pc t pc) (hmutex : next.m_mutexThreads = some t)
    (hcalls : next.calls = s.calls) (hstarted : next.m_started = s.m_started)
    (hstopped : next.m_stopped = s.m_stopped) (hthreads : next.threads.Fits newStatus)
    (hexec : ∀ th, next.Executing th → s.Executing th) (hnext : pc.Fits newStatus (some t) t)
    (hstop : ¬ pc.Starting) (hbefore : ¬ (s.pc t).Claiming)
    (hvacant : status = .vacant → newStatus = .vacant) : Inv next newStatus := by
  have hclaim : ¬ pc.Claiming := by
    cases pc <;> first | exact id | exact fun _ => hstop trivial
  refine h.hold hown hpc hmutex hcalls hthreads hnext (fun heq => .inl (hvacant heq))
    (fun hpc => absurd hpc hclaim) (fun hpc => absurd hpc hstop) ?_ (hstopped ▸ id)
    (fun th hth => .inl (hexec th hth)) ?_
  · intro hfalse
    refine .inl (hvacant ?_)
    by_contra hne
    have := h.started hown hne hbefore
    simp [hstarted, this] at hfalse
  · rintro rfl
    exact absurd trivial hclaim

theorem Inv.stopRequest (h : Inv s status) (hpc : s.pc t = .stopRequest) :
    Inv ({ s with m_requestStop := true }.goto t .stopTestPointer) status := by
  have hown := h.callers t
  rw [hpc] at hown
  obtain ⟨hmutex, hstatus⟩ := hown
  exact h.holdStop hmutex rfl hmutex rfl rfl rfl h.threads (fun _ => id) ⟨rfl, hstatus⟩ id
    (hpc ▸ id) id

theorem Inv.stopTestPointer (h : Inv s status) (hpc : s.pc t = .stopTestPointer) :
    Inv (s.goto t (if s.threads.pointer = none then .stopStarted else .stopJoinable)) status := by
  have hown := h.callers t
  rw [hpc] at hown
  obtain ⟨hmutex, rfl | ⟨th, rfl⟩⟩ := hown
  · have hpointer : s.threads.pointer = none := h.threads.pointer
    rw [if_pos hpointer]
    exact h.holdStop hmutex rfl hmutex rfl rfl rfl h.threads (fun _ => id) ⟨rfl, rfl⟩ id
      (hpc ▸ id) id
  · have hpointer : s.threads.pointer = some th := h.threads.pointer
    rw [if_neg (by simp [hpointer])]
    exact h.holdStop hmutex rfl hmutex rfl rfl rfl h.threads (fun _ => id) ⟨rfl, th, rfl⟩ id
      (hpc ▸ id) id

theorem Inv.stopJoinable (h : Inv s status) (hpc : s.pc t = .stopJoinable)
    (hstep : runCall s t = some next) : Inv next status := by
  have hown := h.callers t
  rw [hpc] at hown
  obtain ⟨hmutex, th, rfl⟩ := hown
  have hpointer : s.threads.pointer = some th := h.threads.pointer
  simp only [runCall, hpc, hpointer, Option.map_some, h.threads.joinable_stored, if_true,
    Option.some.injEq] at hstep
  subst hstep
  exact h.holdStop hmutex rfl hmutex rfl rfl rfl h.threads (fun _ => id) ⟨rfl, th, rfl⟩ id
    (hpc ▸ id) id

theorem Inv.stopJoin (h : Inv s status) (hpc : s.pc t = .stopJoin)
    (hstep : runCall s t = some next) : Inv next status := by
  have hown := h.callers t
  rw [hpc] at hown
  obtain ⟨hmutex, th, rfl⟩ := hown
  have hpointer : s.threads.pointer = some th := h.threads.pointer
  simp only [runCall, hpc, hpointer, Option.map_some, Option.some.injEq] at hstep
  subst hstep
  exact h.holdStop hmutex rfl hmutex rfl rfl rfl h.threads (fun _ => id) ⟨rfl, rfl⟩ id
    (hpc ▸ id) id

theorem Inv.stopJoining (h : Inv s status) {th : Nat} (hpc : s.pc t = .stopJoining th)
    (hended : s.threads.stage th = some .ended) :
    Inv ({ s with threads := s.threads.join th }.goto t .stopDelete) (.joined th) := by
  have hown := h.callers t
  rw [hpc] at hown
  obtain ⟨hmutex, rfl⟩ := hown
  exact h.holdStop hmutex rfl hmutex rfl rfl rfl (h.threads.join hended) (fun _ => id)
    ⟨rfl, th, rfl⟩ id (hpc ▸ id) nofun

theorem Inv.stopDelete (h : Inv s status) (hpc : s.pc t = .stopDelete) :
    ∃ status, Inv ({ s with threads := s.threads.delete }.goto t .stopClear) status := by
  have hown := h.callers t
  rw [hpc] at hown
  obtain ⟨hmutex, th, rfl⟩ := hown
  exact ⟨.deleted th, h.holdStop hmutex rfl hmutex rfl rfl rfl h.threads.delete (fun _ => id)
    ⟨rfl, th, rfl⟩ id (hpc ▸ id) nofun⟩

theorem Inv.stopClear (h : Inv s status) (hpc : s.pc t = .stopClear) :
    Inv ({ s with threads := s.threads.setPointer none }.goto t .stopStarted) .vacant := by
  have hown := h.callers t
  rw [hpc] at hown
  obtain ⟨hmutex, th, rfl⟩ := hown
  exact h.holdStop hmutex rfl hmutex rfl rfl rfl h.threads.clear (fun _ => id) ⟨rfl, rfl⟩ id
    (hpc ▸ id) nofun

theorem Inv.stopStarted (h : Inv s status) (hpc : s.pc t = .stopStarted) :
    Inv ({ s with m_started := false }.goto t .stopUnlock) status := by
  have hown := h.callers t
  rw [hpc] at hown
  obtain ⟨hmutex, rfl⟩ := hown
  exact h.hold hmutex rfl hmutex rfl h.threads ⟨rfl, rfl⟩ .inl nofun nofun (fun _ => .inl rfl) id
    (fun _ => .inl) nofun

theorem Inv.stopUnlock (h : Inv s status) (hpc : s.pc t = .stopUnlock) :
    Inv ({ s with m_mutexThreads := none }.returnStop t) status := by
  have hown := h.callers t
  rw [hpc] at hown
  obtain ⟨hmutex, rfl⟩ := hown
  refine h.release hmutex (.inl rfl) (h.calls.endStop t) (fun _ _ => id) fun _ th hexec => ?_
  simpa using unjoined_of_executing h.threads hexec

theorem Inv.call (h : Inv s status) (hapart : Apart s (.call t))
    (hstep : runCall s t = some next) : ∃ status, Inv next status := by
  cases hpc : s.pc t with
  | stopJoinable => exact ⟨status, h.stopJoinable hpc hstep⟩
  | stopJoin => exact ⟨status, h.stopJoin hpc hstep⟩
  | stopJoining th =>
      simp only [runCall, hpc, Option.ite_none_right_eq_some, Option.some.injEq] at hstep
      obtain ⟨hended, rfl⟩ := hstep
      exact ⟨.joined th, h.stopJoining hpc hended⟩
  | startLock =>
      simp only [runCall, hpc, State.acquire, Option.ite_none_right_eq_some,
        Option.some.injEq] at hstep
      obtain ⟨hfree, rfl⟩ := hstep
      exact ⟨status, h.startLock hpc hfree⟩
  | stopLock =>
      simp only [runCall, hpc, State.acquire, Option.ite_none_right_eq_some,
        Option.some.injEq] at hstep
      obtain ⟨hfree, rfl⟩ := hstep
      exact ⟨status, h.stopLock hfree⟩
  | idle => simp [runCall, hpc] at hstep
  | startTest =>
      simp only [runCall, hpc, Option.some.injEq] at hstep
      exact ⟨status, hstep ▸ h.startTest hpc (hapart hpc)⟩
  | startRequest =>
      simp only [runCall, hpc, Option.some.injEq] at hstep
      exact ⟨status, hstep ▸ h.startRequest hpc⟩
  | startStopped =>
      simp only [runCall, hpc, Option.some.injEq] at hstep
      exact ⟨status, hstep ▸ h.startStopped hpc⟩
  | startCreate =>
      simp only [runCall, hpc, Option.some.injEq] at hstep
      exact ⟨_, hstep ▸ h.startCreate hpc⟩
  | startStore th =>
      simp only [runCall, hpc, Option.some.injEq] at hstep
      exact ⟨.stored th, hstep ▸ h.startStore hpc⟩
  | startStarted =>
      simp only [runCall, hpc, Option.some.injEq] at hstep
      exact ⟨status, hstep ▸ h.startStarted hpc⟩
  | startUnlock =>
      simp only [runCall, hpc, Option.some.injEq] at hstep
      exact ⟨status, hstep ▸ h.startUnlock hpc⟩
  | stopTest =>
      simp only [runCall, hpc, Option.some.injEq] at hstep
      exact ⟨status, hstep ▸ h.stopTest hpc⟩
  | stopRequest =>
      simp only [runCall, hpc, Option.some.injEq] at hstep
      exact ⟨status, hstep ▸ h.stopRequest hpc⟩
  | stopTestPointer =>
      simp only [runCall, hpc, Option.some.injEq] at hstep
      exact ⟨status, hstep ▸ h.stopTestPointer hpc⟩
  | stopDelete =>
      simp only [runCall, hpc, Option.some.injEq] at hstep
      exact hstep ▸ h.stopDelete hpc
  | stopClear =>
      simp only [runCall, hpc, Option.some.injEq] at hstep
      exact ⟨.vacant, hstep ▸ h.stopClear hpc⟩
  | stopStarted =>
      simp only [runCall, hpc, Option.some.injEq] at hstep
      exact ⟨status, hstep ▸ h.stopStarted hpc⟩
  | stopUnlock =>
      simp only [runCall, hpc, Option.some.injEq] at hstep
      exact ⟨status, hstep ▸ h.stopUnlock hpc⟩

end

/-! ### The workers -/

theorem not_executing_advance {th : Nat} {stage : Stage} (hstage : stage ≠ .loop)
    (hquiet : ∀ other, other ≠ th → s.threads.stage other ≠ some .loop) (other : Nat) :
    (s.threads.advance th stage).stage other ≠ some .loop := by
  by_cases heq : other = th
  · subst heq
    simpa [Threads.advance] using hstage
  · simpa [Threads.advance, heq] using hquiet other heq

/-- A worker that leaves the loop, or goes on after it. -/
theorem Inv.advance (h : Inv s status) {th : Nat} {before after : Stage}
    (hstage : s.threads.stage th = some before) (hlive : before ≠ .ended) (hafter : after ≠ .loop) :
    Inv { s with threads := s.threads.advance th after } status where
  threads := h.threads.advance hstage hlive
  callers := h.callers
  unlocked := h.unlocked
  one := h.one
  notStarted := h.notStarted
  stopped hstopped := not_executing_advance hafter fun other _ => h.stopped hstopped other
  creating := h.creating
  calls := h.calls
  starting := h.starting
  settled hsettled := not_executing_advance hafter fun other _ => h.settled hsettled other

/-- `m_stopped = true` comes from the worker in use, so that no other one is in its loop. -/
theorem Inv.rest (h : Inv s status) {th : Nat} (hstage : s.threads.stage th = some .rest) :
    Inv { s with m_stopped := true, threads := s.threads.advance th .leaving } status := by
  have hunjoined := h.threads.unjoined_of_stage hstage (by decide)
  refine { h.advance hstage (by decide) (by decide) with stopped := ?_, creating := ?_ }
  · refine fun _ => not_executing_advance (by decide) fun other hother hloop => hother ?_
    exact Option.some.inj ((unjoined_of_executing h.threads hloop).symm.trans hunjoined)
  · intro t ht
    have hown := h.callers t
    have hcreate : s.pc t = .startCreate := ht
    rw [hcreate] at hown
    rw [hown.2] at hunjoined
    contradiction

theorem Inv.thread (h : Inv s status) {th : Nat} (hstep : runThread s th = some next) :
    Inv next status := by
  unfold runThread at hstep
  split at hstep
  case h_1 hloop =>
    obtain rfl := Option.some.inj hstep
    split
    · exact h.advance hloop (by decide) (by decide)
    · exact h
  case h_2 hrest =>
    obtain rfl := Option.some.inj hstep
    exact h.rest hrest
  case h_3 hleaving =>
    obtain rfl := Option.some.inj hstep
    exact h.advance hleaving (by decide) (by decide)
  case h_4 => contradiction
  case h_5 => contradiction

/-! ### Every run -/

theorem Inv.atMostOne (h : Inv s status) : AtMostOne s.threads s.Executing s.calls where
  single _ _ h₁ h₂ := Option.some.inj
    ((unjoined_of_executing h.threads h₁).symm.trans (unjoined_of_executing h.threads h₂))
  joinedOnce := h.threads.joinedOnce
  deletedOnce := h.threads.deletedOnce
  keptUntilJoined := h.threads.keptUntilJoined
  settled := h.settled

section
variable [DecidableEq Tid]

theorem inv_of_apart (hreach : (machine Tid).ReachableUnder Apart s) :
    ∃ status, Inv s status := by
  refine hreach.invariant (fun s => ∃ status, Inv s status) ⟨.vacant, Inv.init⟩ ?_
  rintro s next action ⟨status, h⟩ hapart hstep
  cases action with
  | start t =>
      obtain ⟨hidle, hnext⟩ := Option.ite_none_right_eq_some.mp hstep
      obtain rfl := Option.some.inj hnext
      exact ⟨status, h.start hidle⟩
  | stop t =>
      obtain ⟨hidle, hnext⟩ := Option.ite_none_right_eq_some.mp hstep
      obtain rfl := Option.some.inj hnext
      exact ⟨status, h.stop hidle⟩
  | call t => exact h.call hapart hstep
  | thread th => exact ⟨status, h.thread hstep⟩

/-- While the `Start` calls keep apart there is at most one dispatcher. -/
theorem atMostOne_of_apart (hreach : (machine Tid).ReachableUnder Apart s) :
    AtMostOne s.threads s.Executing s.calls := by
  obtain ⟨status, h⟩ := inv_of_apart hreach
  exact h.atMostOne

end

end MessageCenter.Dispatcher.Center
