import MessageCenter.Lib.Composition
import MessageCenter.MessageCenterFast.Pending
import MessageCenter.MpmcQueue.AtomicQueue

/-!
# `start`, `stop` and the two loops of `dispatchLoop`

The program around the ring: any number of threads call `post`, one thread runs `dispatchLoop` and
one calls `start` and `stop`, again and again.  The ring is not part of it; the program calls
`try_push` and `try_pop` and goes on with what they return, so it runs over the atomic queue as well
as over the ring itself.  A callback may call `post` too, on the dispatch thread.

Messages are named by the posts that made them.  The topic table, the observers and the message pool
are not here: a post is refused if its `topicId` is too large or if `acquire` gave it no message.
The yields and the timed waits of the first loop only delay it.

`dispatched`, `returned` and `stopped` are history, and so is what `stop` remembers of them.
-/

namespace MessageCenter.MessageCenterFast.Shutdown

open Concurrency MPMCQueue

inductive Thread (Tid : Type) where
  | dispatcher
  | poster (t : Tid)
deriving DecidableEq, Repr

/-- Where a thread is in `post`. -/
inductive PostPc where
  | idle
  | tryPush (msg : Nat)
  /-- inside `try_push` -/
  | pushing (msg : Nat)
  /-- `m_posted.fetch_add(1)` -/
  | countPosted (msg : Nat)
  | returnTrue (msg : Nat)
deriving DecidableEq, Repr

/-- Where the dispatch thread is; `drain` says that it is in the second loop. -/
inductive LoopPc where
  /-- `m_stopping.load()` -/
  | test
  | tryPop (drain : Bool)
  /-- inside `try_pop` -/
  | popping (drain : Bool)
  | dispatch (drain : Bool) (msg : Nat)
  /-- `m_dispatched.fetch_add(1)` -/
  | countDispatched (drain : Bool)
  | finished
deriving DecidableEq, Repr

/-- Where the thread is that calls `start` and `stop`; `before` are the posts that had returned true
when it called `stop`. -/
inductive ControlPc where
  | idle
  | startTest
  | startStopping
  | startRunning
  | startThread
  | stopTest (before : List Nat)
  | stopStopping (before : List Nat)
  /-- `m_dispatchThread->join()` -/
  | stopJoin (before : List Nat)
  | stopRunning (before : List Nat)
deriving DecidableEq, Repr

structure State (Tid : Type) where
  m_running : Bool
  m_stopping : Bool
  /-- `none` is the null pointer -/
  m_dispatchThread : Option LoopPc
  m_posted : Nat
  m_dispatched : Nat
  posts : Thread Tid → PostPc
  control : ControlPc
  nextMsg : Nat
  /-- `dispatch` has returned -/
  dispatched : List Nat
  /-- `post` has returned true -/
  returned : List Nat
  /-- the dispatch thread has been joined by a `stop`, and not been started again -/
  stopped : Option (List Nat)

inductive Action (Tid : Type) where
  | post (t : Thread Tid) (topicId : Nat) (acquired : Bool)
  /-- call `try_push` -/
  | push (t : Thread Tid)
  | pushed (t : Thread Tid) (ok : Bool)
  /-- the next step of `post` -/
  | run (t : Thread Tid)
  /-- the next step of `dispatchLoop` -/
  | loop
  /-- call `try_pop` -/
  | pop
  /-- `none` is the result `false` -/
  | popped (item : Option (Option Nat))
  | start
  | stop
  /-- the next step of `start` or `stop` -/
  | control
deriving DecidableEq, Repr

variable {Tid : Type}

def init : State Tid where
  m_running := false
  m_stopping := false
  m_dispatchThread := none
  m_posted := 0
  m_dispatched := 0
  posts := fun _ => .idle
  control := .idle
  nextMsg := 0
  dispatched := []
  returned := []
  stopped := none

/-- The dispatch thread posts from a callback only. -/
def State.mayPost (s : State Tid) : Thread Tid → Bool
  | .poster _ => true
  | .dispatcher =>
      match s.m_dispatchThread with
      | some (.dispatch _ _) => true
      | _ => false

/-- A step of `dispatchLoop` that does not call the ring. -/
def dispatchLoop (s : State Tid) : Option (State Tid) :=
  match s.m_dispatchThread with
  | some .test => some { s with m_dispatchThread := some (.tryPop s.m_stopping) }
  | some (.dispatch drain msg) =>
      -- the callbacks have returned
      if s.posts .dispatcher = .idle then
        some { s with
          m_dispatchThread := some (.countDispatched drain)
          dispatched := s.dispatched ++ [msg] }
      else none
  | some (.countDispatched drain) =>
      some { s with
        m_dispatchThread := some (if drain then .tryPop true else .test)
        m_dispatched := s.m_dispatched + 1 }
  | _ => none

/-- `try_pop` has returned. -/
def popped (s : State Tid) (item : Option (Option Nat)) : Option (State Tid) :=
  match s.m_dispatchThread, item with
  | some (.popping drain), some (some msg) =>
      some { s with m_dispatchThread := some (.dispatch drain msg) }
  | some (.popping drain), none =>
      some { s with m_dispatchThread := some (if drain then .finished else .test) }
  | _, _ => none

/-- A step of `start` or `stop`. -/
def control (s : State Tid) : Option (State Tid) :=
  match s.control with
  | .idle => none
  | .startTest => some { s with control := if s.m_running then .idle else .startStopping }
  | .startStopping => some { s with m_stopping := false, control := .startRunning }
  | .startRunning => some { s with m_running := true, control := .startThread }
  | .startThread =>
      some { s with m_dispatchThread := some .test, control := .idle, stopped := none }
  | .stopTest before =>
      some { s with control := if s.m_running then .stopStopping before else .idle }
  | .stopStopping before => some { s with m_stopping := true, control := .stopJoin before }
  | .stopJoin before =>
      match s.m_dispatchThread with
      | none | some .finished =>
          some { s with m_dispatchThread := none, control := .stopRunning before }
      | _ => none
  | .stopRunning before =>
      some { s with m_running := false, control := .idle, stopped := some before }

variable [DecidableEq Tid]

def State.goto (s : State Tid) (t : Thread Tid) (pc : PostPc) : State Tid :=
  { s with posts := Function.update s.posts t pc }

/-- A step of `post` that does not call the ring. -/
def runPost (s : State Tid) (t : Thread Tid) : Option (State Tid) :=
  match s.posts t with
  | .countPosted msg => some { s.goto t (.returnTrue msg) with m_posted := s.m_posted + 1 }
  | .returnTrue msg => some { s.goto t .idle with returned := s.returned ++ [msg] }
  | _ => none

def step (s : State Tid) : Action Tid → Option (State Tid)
  | .post t topicId acquired =>
      if s.posts t = .idle ∧ s.mayPost t then
        if topicId ≥ MC_FAST_MAX_TOPICS ∨ acquired = false then some s
        else some { s.goto t (.tryPush s.nextMsg) with nextMsg := s.nextMsg + 1 }
      else none
  | .push t =>
      match s.posts t with
      | .tryPush msg => some (s.goto t (.pushing msg))
      | _ => none
  | .pushed t ok =>
      match s.posts t with
      | .pushing msg => some (s.goto t (if ok then .countPosted msg else .idle))
      | _ => none
  | .run t => runPost s t
  | .loop => dispatchLoop s
  | .pop =>
      match s.m_dispatchThread with
      | some (.tryPop drain) => some { s with m_dispatchThread := some (.popping drain) }
      | _ => none
  | .popped item => popped s item
  | .start => if s.control = .idle then some { s with control := .startTest } else none
  | .stop => if s.control = .idle then some { s with control := .stopTest s.returned } else none
  | .control => Shutdown.control s

/-- The calls of the ring and their results. -/
def label (s : State Tid) : Action Tid → Option (CallEvent (Thread Tid) Nat)
  | .push t =>
      match s.posts t with
      | .tryPush msg => some (.call t (.tryPush msg))
      | _ => none
  | .pushed t ok => some (.ret t (.pushed ok))
  | .pop => some (.call .dispatcher .tryPop)
  | .popped item => some (.ret .dispatcher (.popped item))
  | _ => none

/-- `MessageCenterFast` without its ring. -/
def program (Tid : Type) [DecidableEq Tid] :
    Observed (State Tid) (Action Tid) (CallEvent (Thread Tid) Nat) where
  machine := ⟨init, step⟩
  label := label

end MessageCenter.MessageCenterFast.Shutdown
