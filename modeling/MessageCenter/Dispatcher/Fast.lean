import MessageCenter.Dispatcher.Threads
import MessageCenter.Lib.Machine

/-!
# `MessageCenterFast::start` and `MessageCenterFast::stop`

Any number of threads call `start` and `stop`.  A step is one load or store of
`m_running`, `m_stopping` or `m_dispatchThread`, the creation of the thread, the return
of `join`, the deletion, or a turn of a dispatch thread.  `dispatchLoop` has two loops:
the one that `m_stopping` ends, and the one that pops what is left.

Neither call takes a lock.  `Apart` says which overlaps do no harm: a `start` that finds
the center stopped has it to itself, and a `stop` that reads the pointer does not meet a
`start` that is creating the thread or another `stop` that is disposing of it.
-/

namespace MessageCenter.Dispatcher.Fast

open Concurrency

/-- What a caller does next. -/
inductive CallPc where
  | idle
  /-- `if (m_running.load(…)) return;` -/
  | startTest
  /-- `m_stopping.store(false, …)` -/
  | startStopping
  /-- `m_running.store(true, …)` -/
  | startRunning
  /-- `new std::thread(…)` -/
  | startCreate
  /-- `m_dispatchThread = …` -/
  | startStore (th : Nat)
  /-- `if (!m_running.load(…)) return;` -/
  | stopTest
  /-- `m_stopping.store(true, …)` -/
  | stopStopping
  /-- `if (m_dispatchThread != nullptr)` -/
  | stopTestPointer
  /-- `if (m_dispatchThread->joinable())` -/
  | stopJoinable
  /-- `m_dispatchThread->join()` -/
  | stopJoin
  /-- in `join` -/
  | stopJoining (th : Nat)
  /-- `delete m_dispatchThread` -/
  | stopDelete
  /-- `m_dispatchThread = nullptr` -/
  | stopClear
  /-- `m_running.store(false, …)` -/
  | stopRunning
deriving DecidableEq, Repr

structure State (Tid : Type) where
  m_running : Bool
  m_stopping : Bool
  threads : Threads
  pc : Tid → CallPc
  calls : Calls Tid

inductive Action (Tid : Type) where
  /-- `t` calls `start` -/
  | start (t : Tid)
  /-- `t` calls `stop` -/
  | stop (t : Tid)
  /-- the next step of `t`'s call -/
  | call (t : Tid)
  /-- a turn of a dispatch thread -/
  | thread (th : Nat)

variable {Tid : Type}

def init : State Tid where
  m_running := false
  m_stopping := false
  threads := Threads.init
  pc := fun _ => .idle
  calls := Calls.init

/-- A dispatch thread is in one of the two loops of `dispatchLoop`. -/
def State.Executing (s : State Tid) (th : Nat) : Prop :=
  s.threads.stage th = some .loop ∨ s.threads.stage th = some .rest

/-- `dispatchLoop`: the test of `m_stopping` with a turn of the first loop, or the end of
the second. -/
def runThread (s : State Tid) (th : Nat) : Option (State Tid) :=
  match s.threads.stage th with
  | some .loop =>
      some (if s.m_stopping then { s with threads := s.threads.advance th .rest } else s)
  | some .rest => some { s with threads := s.threads.advance th .leaving }
  | some .leaving => some { s with threads := s.threads.advance th .ended }
  | some .ended | none => none

section
variable [DecidableEq Tid]

def State.goto (s : State Tid) (t : Tid) (pc : CallPc) : State Tid :=
  { s with pc := Function.update s.pc t pc }

def State.returnStart (s : State Tid) (t : Tid) : State Tid :=
  { s with calls := s.calls.endStart t }.goto t .idle

def State.returnStop (s : State Tid) (t : Tid) : State Tid :=
  { s with calls := s.calls.endStop t }.goto t .idle

/-- The next step of `start` or `stop`; a null pointer that is followed ends the run. -/
def runCall (s : State Tid) (t : Tid) : Option (State Tid) :=
  match s.pc t with
  | .idle => none
  | .startTest => some (if s.m_running then s.returnStart t else s.goto t .startStopping)
  | .startStopping => some ({ s with m_stopping := false }.goto t .startRunning)
  | .startRunning => some ({ s with m_running := true }.goto t .startCreate)
  | .startCreate =>
      some ({ s with threads := s.threads.create }.goto t (.startStore s.threads.created))
  | .startStore th => some ({ s with threads := s.threads.setPointer (some th) }.returnStart t)
  | .stopTest => some (if s.m_running then s.goto t .stopStopping else s.returnStop t)
  | .stopStopping => some ({ s with m_stopping := true }.goto t .stopTestPointer)
  | .stopTestPointer =>
      some (s.goto t (if s.threads.pointer = none then .stopRunning else .stopJoinable))
  | .stopJoinable =>
      s.threads.pointer.map fun th =>
        s.goto t (if s.threads.joinable th then .stopJoin else .stopDelete)
  | .stopJoin => s.threads.pointer.map fun th => s.goto t (.stopJoining th)
  | .stopJoining th =>
      if s.threads.stage th = some .ended then
        some ({ s with threads := s.threads.join th }.goto t .stopDelete)
      else none
  | .stopDelete => some ({ s with threads := s.threads.delete }.goto t .stopClear)
  | .stopClear => some ({ s with threads := s.threads.setPointer none }.goto t .stopRunning)
  | .stopRunning => some ({ s with m_running := false }.returnStop t)

def step (s : State Tid) : Action Tid → Option (State Tid)
  | .start t =>
      if s.pc t = .idle then some ({ s with calls := s.calls.beginStart t }.goto t .startTest)
      else none
  | .stop t =>
      if s.pc t = .idle then some ({ s with calls := s.calls.beginStop t }.goto t .stopTest)
      else none
  | .call t => runCall s t
  | .thread th => runThread s th

def machine (Tid : Type) [DecidableEq Tid] : Machine (State Tid) (Action Tid) := ⟨init, step⟩

end

/-! ### Which calls may overlap -/

/-- The call has tested `m_running` and goes on. -/
def CallPc.Engaged : CallPc → Prop
  | .idle | .startTest | .stopTest => False
  | .startStopping | .startRunning | .startCreate | .startStore _ | .stopStopping
  | .stopTestPointer | .stopJoinable | .stopJoin | .stopJoining _ | .stopDelete | .stopClear
  | .stopRunning => True

/-- The call is making the thread object, or disposing of it. -/
def CallPc.Handling : CallPc → Prop
  | .startCreate | .startStore _ | .stopJoinable | .stopJoin | .stopJoining _ | .stopDelete
  | .stopClear => True
  | .idle | .startTest | .startStopping | .startRunning | .stopTest | .stopStopping
  | .stopTestPointer | .stopRunning => False

instance (pc : CallPc) : Decidable pc.Engaged := by
  cases pc <;> first | exact isTrue trivial | exact isFalse id

instance (pc : CallPc) : Decidable pc.Handling := by
  cases pc <;> first | exact isTrue trivial | exact isFalse id

/-- When a `start` finds `m_running` false no other call is past that test, and when a
`stop` tests the pointer no other call is handling the thread object. -/
def Apart (s : State Tid) : Action Tid → Prop
  | .call t =>
      (s.pc t = .startTest → s.m_running = false → ∀ u, u ≠ t → ¬ (s.pc u).Engaged) ∧
      (s.pc t = .stopTestPointer → ∀ u, u ≠ t → ¬ (s.pc u).Handling)
  | .start _ | .stop _ | .thread _ => True

/-! ### The invariant -/

/-- Where a caller can be while the thread object has a status and a call may own it. -/
def CallPc.Fits (status : Status) (owner : Option Tid) (t : Tid) : CallPc → Prop
  | .idle | .startTest | .stopTest => owner ≠ some t
  | .startStopping | .startRunning => owner = some t ∧ status = .reserved
  | .startCreate => owner = some t ∧ status = .vacant
  | .startStore th => owner = some t ∧ status = .created th
  | .stopStopping | .stopTestPointer => owner ≠ some t ∧ status ≠ .reserved
  | .stopJoinable | .stopJoin => owner = some t ∧ ∃ th, status = .stored th
  | .stopJoining th => owner = some t ∧ status = .stored th
  | .stopDelete => owner = some t ∧ ∃ th, status = .joined th
  | .stopClear => owner = some t ∧ ∃ th, status = .deleted th
  | .stopRunning => owner = none ∧ status = .vacant

/-- The call of `start` has passed the test and not returned. -/
def CallPc.Starting : CallPc → Prop
  | .startTest | .startStopping | .startRunning | .startCreate | .startStore _ => True
  | .idle | .stopTest | .stopStopping | .stopTestPointer | .stopJoinable | .stopJoin
  | .stopJoining _ | .stopDelete | .stopClear | .stopRunning => False

/-- What `m_running` says about the status. -/
structure Flag (status : Status) (owner : Option Tid) (m_running : Bool) : Prop where
  unowned : owner = none → status = .vacant ∨ ∃ th, status = .stored th
  reserved : status = .reserved → m_running = false
  notRunning : m_running = false → status = .reserved ∨ owner = none ∧ status = .vacant

/-- The thread object has at most one owner, and every call is where the status of the
object lets it be. -/
structure Inv (s : State Tid) (status : Status) (owner : Option Tid) : Prop where
  threads : s.threads.Fits status
  callers : ∀ t, (s.pc t).Fits status owner t
  flag : Flag status owner s.m_running
  calls : s.calls.Inv
  starting : ∀ t, (s.pc t).Starting → t ∈ s.calls.inStart
  settled : s.calls.Settled → ∀ th, ¬ s.Executing th

/-- What a change of hands leaves of the callers it is not about. -/
theorem CallPc.Fits.of_other {pc : CallPc} {status next : Status} {owner newOwner : Option Tid}
    {u : Tid} (h : pc.Fits status owner u) (hu : owner ≠ some u) (hu' : newOwner ≠ some u)
    (hreserved : next = .reserved → status = .reserved)
    (hvacant : owner = none → status = .vacant → newOwner = none ∧ next = .vacant) :
    pc.Fits next newOwner u := by
  cases pc <;> simp_all [CallPc.Fits]

/-- A caller that is not engaged is indifferent to the status. -/
theorem CallPc.Fits.of_not_engaged {pc : CallPc} {status : Status} {owner : Option Tid} {u : Tid}
    (hpc : ¬ pc.Engaged) (hu : owner ≠ some u) : pc.Fits status owner u := by
  cases pc <;> simp_all [CallPc.Fits, CallPc.Engaged]

theorem Inv.init : Inv (init : State Tid) .vacant none where
  threads := Threads.Fits.init
  callers t := by simp [Fast.init, CallPc.Fits]
  flag := ⟨fun _ => .inl rfl, nofun, fun _ => .inr ⟨rfl, rfl⟩⟩
  calls := Calls.Inv.init
  starting t h := by simp [Fast.init, CallPc.Starting] at h
  settled _ th h := by simp [State.Executing, Fast.init, Threads.init] at h

variable {s next : State Tid} {status newStatus : Status} {owner newOwner : Option Tid} {t : Tid}

/-- A thread that executes is the one in use. -/
theorem unjoined_of_executing (h : s.threads.Fits status) {th : Nat} (hexec : s.Executing th) :
    status.unjoined = some th := by
  rcases hexec with hloop | hrest
  · exact h.unjoined_of_stage hloop (by decide)
  · exact h.unjoined_of_stage hrest (by decide)

theorem Inv.not_settled_of_starting (h : Inv s status owner) (ht : (s.pc t).Starting) :
    ¬ s.calls.Settled := by
  intro hsettled
  have hmem := h.starting t ht
  rw [h.calls.settled_quiet hsettled] at hmem
  contradiction

/-- An owner is engaged. -/
theorem Inv.engaged_of_owner (h : Inv s status (some t)) : (s.pc t).Engaged := by
  have hown := h.callers t
  cases hpc : s.pc t <;> simp_all [CallPc.Fits, CallPc.Engaged]

/-- A stopped center whose other callers are not engaged has a vacancy. -/
theorem Inv.vacant_of_apart (h : Inv s status owner) (hrunning : s.m_running = false)
    (hown : owner ≠ some t) (hapart : ∀ u, u ≠ t → ¬ (s.pc u).Engaged) :
    owner = none ∧ status = .vacant := by
  rcases h.flag.notRunning hrunning with hreserved | hvacant
  · cases owner with
    | none => simpa [hreserved] using h.flag.unowned rfl
    | some u => exact absurd h.engaged_of_owner (hapart u fun heq => hown (heq ▸ rfl))
  · exact hvacant

/-- The other callers when `t` passes the object on, or gives it up. -/
theorem Inv.others_of_owned (h : Inv s status (some t))
    (hnext : newStatus ≠ .reserved ∨ status = .reserved)
    (hnew : newOwner = some t ∨ newOwner = none) (u : Tid) (hu : u ≠ t) :
    (s.pc u).Fits newStatus newOwner u := by
  refine (h.callers u).of_other (by simpa using hu.symm) ?_ ?_ ?_
  · rcases hnew with hnew | hnew <;> simp [hnew, hu.symm]
  · exact fun heq => hnext.resolve_left (not_not_intro heq)
  · exact fun hnone => by contradiction

section
variable [DecidableEq Tid]

/-- A step of `t`'s call, told by what it does to the calls in progress. -/
theorem Inv.turn (h : Inv s status owner) (pc : CallPc)
    (hpc : next.pc = Function.update s.pc t pc) (hthreads : next.threads.Fits newStatus)
    (hown : pc.Fits newStatus newOwner t)
    (hothers : ∀ u, u ≠ t → (s.pc u).Fits newStatus newOwner u)
    (hflag : Flag newStatus newOwner next.m_running) (hcalls : next.calls.Inv)
    (hstarting : ∀ u, u ≠ t → u ∈ s.calls.inStart → u ∈ next.calls.inStart)
    (hstart : pc.Starting → t ∈ next.calls.inStart)
    (hsettled : next.calls.Settled → ∀ th, ¬ next.Executing th) : Inv next newStatus newOwner where
  threads := hthreads
  callers u := by
    rw [hpc]
    by_cases hu : u = t
    · subst hu
      simpa using hown
    · simpa [hu] using hothers u hu
  flag := hflag
  calls := hcalls
  starting u := by
    rw [hpc]
    by_cases hu : u = t
    · subst hu
      simpa using hstart
    · simpa [hu] using fun hpc => hstarting u hu (h.starting u hpc)
  settled := hsettled

/-- A step inside `t`'s call. -/
theorem Inv.move (h : Inv s status owner) {pc : CallPc}
    (hpc : next.pc = Function.update s.pc t pc) (hcalls : next.calls = s.calls)
    (hthreads : next.threads.Fits newStatus) (hown : pc.Fits newStatus newOwner t)
    (hothers : ∀ u, u ≠ t → (s.pc u).Fits newStatus newOwner u)
    (hflag : Flag newStatus newOwner next.m_running)
    (hstart : pc.Starting → (s.pc t).Starting)
    (hexec : ∀ th, next.Executing th → s.Executing th ∨ (s.pc t).Starting) :
    Inv next newStatus newOwner := by
  refine h.turn _ hpc hthreads hown hothers hflag (hcalls ▸ h.calls) ?_ ?_ ?_
  · exact fun u _ hu => hcalls ▸ hu
  · exact fun hpc => hcalls ▸ h.starting t (hstart hpc)
  · intro hsettled th hth
    rw [hcalls] at hsettled
    rcases hexec th hth with hbefore | hstarting
    · exact h.settled hsettled th hbefore
    · exact h.not_settled_of_starting hstarting hsettled

/-! ### `start` -/

theorem Inv.start (h : Inv s status owner) (hidle : s.pc t = .idle) :
    Inv ({ s with calls := s.calls.beginStart t }.goto t .startTest) status owner := by
  have hown := h.callers t
  rw [hidle] at hown
  refine h.turn _ rfl h.threads hown (fun u _ => h.callers u) h.flag (h.calls.beginStart t) ?_ ?_ ?_
  · exact fun u _ hu => List.mem_cons_of_mem t hu
  · exact fun _ => List.mem_cons_self
  · exact fun hsettled => absurd hsettled (h.calls.not_settled_beginStart t)

/-- Returning from `start`, at once or with the pointer stored. -/
theorem Inv.returnStart (h : Inv s status owner) (hthreads : next.threads.Fits newStatus)
    (hpc : next.pc = s.pc) (hcalls : next.calls = s.calls)
    (hown : newOwner ≠ some t) (hothers : ∀ u, u ≠ t → (s.pc u).Fits newStatus newOwner u)
    (hflag : Flag newStatus newOwner next.m_running)
    (hexec : ∀ th, next.Executing th → s.Executing th) :
    Inv (next.returnStart t) newStatus newOwner := by
  refine h.turn .idle (by rw [← hpc]; rfl) hthreads hown hothers hflag ?_ ?_ nofun ?_
  · have := h.calls.endStart t
    rwa [← hcalls] at this
  · intro u hu hmem
    simpa [State.returnStart, State.goto, Calls.endStart, hcalls, hu] using hmem
  · intro hsettled th hth
    exact h.settled (hcalls ▸ hsettled) th (hexec th hth)

theorem Inv.startTest (h : Inv s status owner) (hpc : s.pc t = .startTest)
    (hapart : s.m_running = false → ∀ u, u ≠ t → ¬ (s.pc u).Engaged) :
    ∃ status owner, Inv (if s.m_running then s.returnStart t else s.goto t .startStopping)
      status owner := by
  have hown : owner ≠ some t := by simpa [hpc, CallPc.Fits] using h.callers t
  cases hrunning : s.m_running with
  | true =>
      exact ⟨status, owner, h.returnStart h.threads rfl rfl hown (fun u _ => h.callers u) h.flag
        fun _ => id⟩
  | false =>
      obtain ⟨hnone, hvacant⟩ := h.vacant_of_apart hrunning hown (hapart hrunning)
      subst hnone hvacant
      refine ⟨.reserved, some t, h.move rfl rfl h.threads.reserve ⟨rfl, rfl⟩ ?_ ?_ ?_ fun _ => .inl⟩
      · exact fun u hu => .of_not_engaged (hapart hrunning u hu) (by simpa using hu.symm)
      · exact ⟨nofun, fun _ => hrunning, fun _ => .inl rfl⟩
      · exact fun _ => hpc ▸ trivial

theorem Inv.startStopping (h : Inv s status owner) (hpc : s.pc t = .startStopping) :
    Inv ({ s with m_stopping := false }.goto t .startRunning) status owner := by
  have hown := h.callers t
  rw [hpc] at hown
  obtain ⟨rfl, rfl⟩ := hown
  refine h.move rfl rfl h.threads ⟨rfl, rfl⟩ ?_ h.flag ?_ fun _ => .inl
  · exact h.others_of_owned (.inr rfl) (.inl rfl)
  · exact fun _ => hpc ▸ trivial

theorem Inv.startRunning (h : Inv s status owner) (hpc : s.pc t = .startRunning) :
    Inv ({ s with m_running := true }.goto t .startCreate) .vacant owner := by
  have hown := h.callers t
  rw [hpc] at hown
  obtain ⟨rfl, rfl⟩ := hown
  refine h.move rfl rfl h.threads.vacate ⟨rfl, rfl⟩ ?_ ?_ ?_ fun _ => .inl
  · exact h.others_of_owned (.inl nofun) (.inl rfl)
  · exact ⟨nofun, nofun, nofun⟩
  · exact fun _ => hpc ▸ trivial

theorem Inv.startCreate (h : Inv s status owner) (hpc : s.pc t = .startCreate) :
    Inv ({ s with threads := s.threads.create }.goto t (.startStore s.threads.created))
      (.created s.threads.created) owner := by
  have hown := h.callers t
  rw [hpc] at hown
  obtain ⟨rfl, rfl⟩ := hown
  refine h.move rfl rfl h.threads.create ⟨rfl, rfl⟩ ?_ ?_ ?_ ?_
  · exact h.others_of_owned (.inl nofun) (.inl rfl)
  · refine ⟨nofun, nofun, fun hrunning => ?_⟩
    simpa using h.flag.notRunning hrunning
  · exact fun _ => hpc ▸ trivial
  · exact fun _ _ => .inr (hpc ▸ trivial)

theorem Inv.startStore (h : Inv s status owner) {th : Nat} (hpc : s.pc t = .startStore th) :
    Inv ({ s with threads := s.threads.setPointer (some th) }.returnStart t) (.stored th) none := by
  have hown := h.callers t
  rw [hpc] at hown
  obtain ⟨rfl, rfl⟩ := hown
  refine h.returnStart h.threads.store rfl rfl nofun ?_ ?_ fun _ => id
  · exact h.others_of_owned (.inl nofun) (.inr rfl)
  · refine ⟨fun _ => .inr ⟨th, rfl⟩, nofun, fun hrunning => ?_⟩
    simpa using h.flag.notRunning hrunning

/-! ### `stop` -/

theorem Inv.stop (h : Inv s status owner) (hidle : s.pc t = .idle) :
    Inv ({ s with calls := s.calls.beginStop t }.goto t .stopTest) status owner := by
  have hown := h.callers t
  rw [hidle] at hown
  exact h.turn _ rfl h.threads hown (fun u _ => h.callers u) h.flag (h.calls.beginStop t)
    (fun _ _ => id) nofun h.settled

/-- Returning from `stop` once no thread executes unless a `start` is in progress. -/
theorem Inv.returnStop (h : Inv s status owner) (running : Bool)
    (hown : owner ≠ some t) (hflag : Flag status owner running)
    (hquiet : s.calls.inStart = [] → ∀ th, ¬ s.Executing th) :
    Inv ({ s with m_running := running }.returnStop t) status owner := by
  refine h.turn .idle rfl h.threads hown (fun u _ => h.callers u) hflag
    (h.calls.endStop t) (fun _ _ => id) nofun ?_
  exact fun hsettled => hquiet (h.calls.quiet_of_settled_endStop t hsettled)

theorem Inv.stopTest (h : Inv s status owner) (hpc : s.pc t = .stopTest) :
    Inv (if s.m_running then s.goto t .stopStopping else s.returnStop t) status owner := by
  have hown : owner ≠ some t := by simpa [hpc, CallPc.Fits] using h.callers t
  cases hrunning : s.m_running with
  | true =>
      refine h.move rfl rfl h.threads ⟨hown, fun hreserved => ?_⟩ (fun u _ => h.callers u) h.flag
        nofun fun _ => .inl
      simpa [hrunning] using h.flag.reserved hreserved
  | false =>
      have hback : s = { s with m_running := false } := by rw [← hrunning]
      rw [if_neg (by decide), hback]
      refine h.returnStop false hown (hrunning ▸ h.flag) fun hquiet th hexec => ?_
      have hunjoined := unjoined_of_executing h.threads hexec
      rcases h.flag.notRunning hrunning with hreserved | ⟨-, hvacant⟩
      · simp [hreserved] at hunjoined
      · simp [hvacant] at hunjoined

theorem Inv.stopStopping (h : Inv s status owner) (hpc : s.pc t = .stopStopping) :
    Inv ({ s with m_stopping := true }.goto t .stopTestPointer) status owner := by
  have hown := h.callers t
  rw [hpc] at hown
  exact h.move rfl rfl h.threads hown (fun u _ => h.callers u) h.flag nofun fun _ => .inl

theorem Inv.stopTestPointer (h : Inv s status owner) (hpc : s.pc t = .stopTestPointer)
    (hapart : ∀ u, u ≠ t → ¬ (s.pc u).Handling) :
    ∃ status owner, Inv (s.goto t (if s.threads.pointer = none then .stopRunning else .stopJoinable))
      status owner := by
  have hown := h.callers t
  rw [hpc] at hown
  obtain ⟨hown, hnotReserved⟩ := hown
  have hnone : owner = none := by
    cases owner with
    | none => rfl
    | some u =>
        have hother := h.callers u
        have hunhandled := hapart u fun heq => hown (heq ▸ rfl)
        cases hu : s.pc u <;> simp_all [CallPc.Fits, CallPc.Handling]
  subst hnone
  rcases h.flag.unowned rfl with rfl | ⟨th, rfl⟩
  · have hpointer : s.threads.pointer = none := h.threads.pointer
    rw [if_pos hpointer]
    exact ⟨.vacant, none, h.move rfl rfl h.threads ⟨rfl, rfl⟩ (fun u _ => h.callers u) h.flag nofun
      fun _ => .inl⟩
  · have hpointer : s.threads.pointer = some th := h.threads.pointer
    rw [if_neg (by simp [hpointer])]
    refine ⟨.stored th, some t, h.move rfl rfl h.threads ⟨rfl, th, rfl⟩ ?_ ?_ nofun fun _ => .inl⟩
    · exact fun u hu => (h.callers u).of_other nofun (by simpa using hu.symm) id nofun
    · exact ⟨nofun, nofun, fun hrunning => by simpa using h.flag.notRunning hrunning⟩

/-- A step of the owner that disposes of the object. -/
theorem Inv.dispose (h : Inv s status (some t)) {pc : CallPc}
    (hpc : next.pc = Function.update s.pc t pc) (hcalls : next.calls = s.calls)
    (hrunning : next.m_running = s.m_running) (hthreads : next.threads.Fits newStatus)
    (hexec : ∀ th, next.Executing th → s.Executing th) (hown : pc.Fits newStatus newOwner t)
    (hstart : ¬ pc.Starting) (hnext : newStatus ≠ .reserved) (hstatus : status ≠ .reserved)
    (hnew : newOwner = some t ∨ newOwner = none ∧ newStatus = .vacant) :
    Inv next newStatus newOwner := by
  refine h.move hpc hcalls hthreads hown ?_ ?_ (fun hpc => absurd hpc hstart)
    fun th hth => .inl (hexec th hth)
  · exact h.others_of_owned (.inl hnext) (hnew.imp_right And.left)
  · refine ⟨fun hnone => ?_, fun heq => absurd heq hnext, fun hfalse => ?_⟩
    · exact .inl (hnew.resolve_left (by simp [hnone])).2
    · rcases h.flag.notRunning (hrunning ▸ hfalse) with heq | ⟨heq, -⟩
      · contradiction
      · contradiction

theorem Inv.stopJoinable (h : Inv s status owner) (hpc : s.pc t = .stopJoinable)
    (hstep : runCall s t = some next) : Inv next status owner := by
  have hown := h.callers t
  rw [hpc] at hown
  obtain ⟨rfl, th, rfl⟩ := hown
  have hpointer : s.threads.pointer = some th := h.threads.pointer
  simp only [runCall, hpc, hpointer, Option.map_some, h.threads.joinable_stored, if_true,
    Option.some.injEq] at hstep
  subst hstep
  exact h.dispose rfl rfl rfl h.threads (fun _ => id) ⟨rfl, th, rfl⟩ id nofun nofun (.inl rfl)

theorem Inv.stopJoin (h : Inv s status owner) (hpc : s.pc t = .stopJoin)
    (hstep : runCall s t = some next) : Inv next status owner := by
  have hown := h.callers t
  rw [hpc] at hown
  obtain ⟨rfl, th, rfl⟩ := hown
  have hpointer : s.threads.pointer = some th := h.threads.pointer
  simp only [runCall, hpc, hpointer, Option.map_some, Option.some.injEq] at hstep
  subst hstep
  exact h.dispose rfl rfl rfl h.threads (fun _ => id) ⟨rfl, rfl⟩ id nofun nofun (.inl rfl)

theorem Inv.stopJoining (h : Inv s status owner) {th : Nat} (hpc : s.pc t = .stopJoining th)
    (hended : s.threads.stage th = some .ended) :
    Inv ({ s with threads := s.threads.join th }.goto t .stopDelete) (.joined th) owner := by
  have hown := h.callers t
  rw [hpc] at hown
  obtain ⟨rfl, rfl⟩ := hown
  exact h.dispose rfl rfl rfl (h.threads.join hended) (fun _ => id) ⟨rfl, th, rfl⟩ id nofun nofun
    (.inl rfl)

theorem Inv.stopDelete (h : Inv s status owner) (hpc : s.pc t = .stopDelete) :
    ∃ status, Inv ({ s with threads := s.threads.delete }.goto t .stopClear) status owner := by
  have hown := h.callers t
  rw [hpc] at hown
  obtain ⟨rfl, th, rfl⟩ := hown
  exact ⟨.deleted th, h.dispose rfl rfl rfl h.threads.delete (fun _ => id) ⟨rfl, th, rfl⟩ id nofun
    nofun (.inl rfl)⟩

theorem Inv.stopClear (h : Inv s status owner) (hpc : s.pc t = .stopClear) :
    Inv ({ s with threads := s.threads.setPointer none }.goto t .stopRunning) .vacant none := by
  have hown := h.callers t
  rw [hpc] at hown
  obtain ⟨rfl, th, rfl⟩ := hown
  exact h.dispose rfl rfl rfl h.threads.clear (fun _ => id) ⟨rfl, rfl⟩ id nofun nofun
    (.inr ⟨rfl, rfl⟩)

theorem Inv.stopRunning (h : Inv s status owner) (hpc : s.pc t = .stopRunning) :
    Inv ({ s with m_running := false }.returnStop t) status owner := by
  have hown := h.callers t
  rw [hpc] at hown
  obtain ⟨rfl, rfl⟩ := hown
  refine h.returnStop false nofun ⟨fun _ => .inl rfl, nofun, fun _ => .inr ⟨rfl, rfl⟩⟩ ?_
  intro _ th hexec
  simpa using unjoined_of_executing h.threads hexec

theorem Inv.call (h : Inv s status owner) (hapart : Apart s (.call t))
    (hstep : runCall s t = some next) : ∃ status owner, Inv next status owner := by
  obtain ⟨hstart, hstop⟩ := hapart
  cases hpc : s.pc t with
  | stopJoinable => exact ⟨status, owner, h.stopJoinable hpc hstep⟩
  | stopJoin => exact ⟨status, owner, h.stopJoin hpc hstep⟩
  | stopJoining th =>
      simp only [runCall, hpc, Option.ite_none_right_eq_some, Option.some.injEq] at hstep
      obtain ⟨hended, rfl⟩ := hstep
      exact ⟨.joined th, owner, h.stopJoining hpc hended⟩
  | idle => simp [runCall, hpc] at hstep
  | startTest =>
      simp only [runCall, hpc, Option.some.injEq] at hstep
      exact hstep ▸ h.startTest hpc (hstart hpc)
  | startStopping =>
      simp only [runCall, hpc, Option.some.injEq] at hstep
      exact ⟨status, owner, hstep ▸ h.startStopping hpc⟩
  | startRunning =>
      simp only [runCall, hpc, Option.some.injEq] at hstep
      exact ⟨.vacant, owner, hstep ▸ h.startRunning hpc⟩
  | startCreate =>
      simp only [runCall, hpc, Option.some.injEq] at hstep
      exact ⟨_, owner, hstep ▸ h.startCreate hpc⟩
  | startStore th =>
      simp only [runCall, hpc, Option.some.injEq] at hstep
      exact ⟨.stored th, none, hstep ▸ h.startStore hpc⟩
  | stopTest =>
      simp only [runCall, hpc, Option.some.injEq] at hstep
      exact ⟨status, owner, hstep ▸ h.stopTest hpc⟩
  | stopStopping =>
      simp only [runCall, hpc, Option.some.injEq] at hstep
      exact ⟨status, owner, hstep ▸ h.stopStopping hpc⟩
  | stopTestPointer =>
      simp only [runCall, hpc, Option.some.injEq] at hstep
      exact hstep ▸ h.stopTestPointer hpc (hstop hpc)
  | stopDelete =>
      simp only [runCall, hpc, Option.some.injEq] at hstep
      obtain ⟨status, hnext⟩ := h.stopDelete hpc
      exact ⟨status, owner, hstep ▸ hnext⟩
  | stopClear =>
      simp only [runCall, hpc, Option.some.injEq] at hstep
      exact ⟨.vacant, none, hstep ▸ h.stopClear hpc⟩
  | stopRunning =>
      simp only [runCall, hpc, Option.some.injEq] at hstep
      exact ⟨status, owner, hstep ▸ h.stopRunning hpc⟩

end

/-! ### The dispatch threads -/

/-- A thread that goes on to another stage does not take up executing. -/
theorem Inv.advance (h : Inv s status owner) {th : Nat} {before after : Stage}
    (hstage : s.threads.stage th = some before) (hlive : before ≠ .ended)
    (hexec : after = .loop ∨ after = .rest → s.Executing th) :
    Inv { s with threads := s.threads.advance th after } status owner where
  threads := h.threads.advance hstage hlive
  callers := h.callers
  flag := h.flag
  calls := h.calls
  starting := h.starting
  settled hsettled other hother := by
    by_cases heq : other = th
    · subst heq
      simp only [State.Executing, Threads.advance, Function.update_self, Option.some.injEq] at hother
      exact h.settled hsettled other (hexec hother)
    · simp only [State.Executing, Threads.advance, Function.update_of_ne heq] at hother
      exact h.settled hsettled other hother

theorem Inv.thread (h : Inv s status owner) {th : Nat} (hstep : runThread s th = some next) :
    Inv next status owner := by
  unfold runThread at hstep
  split at hstep
  case h_1 hloop =>
    obtain rfl := Option.some.inj hstep
    split
    · exact h.advance hloop (by decide) fun _ => .inl hloop
    · exact h
  case h_2 hrest =>
    obtain rfl := Option.some.inj hstep
    exact h.advance hrest (by decide) (by simp)
  case h_3 hleaving =>
    obtain rfl := Option.some.inj hstep
    exact h.advance hleaving (by decide) (by simp)
  case h_4 => contradiction
  case h_5 => contradiction

/-! ### Every run -/

theorem Inv.atMostOne (h : Inv s status owner) : AtMostOne s.threads s.Executing s.calls where
  single _ _ h₁ h₂ := Option.some.inj
    ((unjoined_of_executing h.threads h₁).symm.trans (unjoined_of_executing h.threads h₂))
  joinedOnce := h.threads.joinedOnce
  deletedOnce := h.threads.deletedOnce
  keptUntilJoined := h.threads.keptUntilJoined
  settled := h.settled

section
variable [DecidableEq Tid]

theorem inv_of_apart (hreach : (machine Tid).ReachableUnder Apart s) :
    ∃ status owner, Inv s status owner := by
  refine hreach.invariant (fun s => ∃ status owner, Inv s status owner)
    ⟨.vacant, none, Inv.init⟩ ?_
  rintro s next action ⟨status, owner, h⟩ hapart hstep
  cases action with
  | start t =>
      obtain ⟨hidle, hnext⟩ := Option.ite_none_right_eq_some.mp hstep
      obtain rfl := Option.some.inj hnext
      exact ⟨status, owner, h.start hidle⟩
  | stop t =>
      obtain ⟨hidle, hnext⟩ := Option.ite_none_right_eq_some.mp hstep
      obtain rfl := Option.some.inj hnext
      exact ⟨status, owner, h.stop hidle⟩
  | call t => exact h.call hapart hstep
  | thread th => exact ⟨status, owner, h.thread hstep⟩

/-- While the calls keep apart there is at most one dispatcher. -/
theorem atMostOne_of_apart (hreach : (machine Tid).ReachableUnder Apart s) :
    AtMostOne s.threads s.Executing s.calls := by
  obtain ⟨status, owner, h⟩ := inv_of_apart hreach
  exact h.atMostOne

end

end MessageCenter.Dispatcher.Fast
