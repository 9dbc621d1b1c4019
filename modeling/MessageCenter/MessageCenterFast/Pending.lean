import MessageCenter.Lib.Machine

/-!
# The counters of `MessageCenterFast`

Any number of threads call `post`, `pending` and `flush`, and one thread runs
`dispatchLoop`.  Each access to the ring, to `m_posted` or to `m_dispatched` is a
step; the ring is an atomic queue.  Messages are named by the posts that made
them.

The counters are unbounded here, and `pending()` is an integer: a value below zero
stands for the wrap of the `uint64_t` difference.  C++ leaves open which of the two
counters `pending()` loads first, so each call chooses.

`counted`, `finished`, `dispatched`, `returned`, `reports` and `flushed` are
history, and so is what a call remembers of them.
-/

namespace MessageCenter.MessageCenterFast

open Concurrency

def MC_FAST_MAX_TOPICS : Nat := 1024

/-- A call of `pending()`, with the posts that had returned true when it began;
`flush` are those of the call of `flush()` that it belongs to, if there is one. -/
structure Ask where
  before : List Nat
  flush : Option (List Nat)
deriving DecidableEq, Repr

/-- Where a thread is. -/
inductive Pc where
  | idle
  | tryPush (msg : Nat)
  /-- `m_posted.fetch_add(1)` -/
  | countPosted (msg : Nat)
  | returnTrue (msg : Nat)
  | firstLoad (postedFirst : Bool) (ask : Ask)
  /-- one counter is loaded; `seen` are the messages that it had counted -/
  | secondLoad (postedFirst : Bool) (ask : Ask) (loaded : Nat) (seen : List Nat)
  | returnPending (ask : Ask) (value : Int)
  /-- `flush` after a `pending()` that was not 0 -/
  | flushWait (before : List Nat)
deriving DecidableEq, Repr

/-- Where the dispatch thread is. -/
inductive DispatchPc where
  | tryPop
  | dispatch (msg : Nat)
  /-- `m_dispatched.fetch_add(1)` -/
  | countDispatched (msg : Nat)
deriving DecidableEq, Repr

/-- What `pending()` returned, and how many of the posts that had returned true
before it were not dispatched then. -/
structure Report where
  value : Int
  undispatched : Nat
deriving DecidableEq, Repr

structure State (Tid : Type) where
  ring : List Nat
  m_posted : Nat
  m_dispatched : Nat
  pc : Tid → Pc
  dispatcher : DispatchPc
  nextMsg : Nat
  /-- counted by `m_posted` -/
  counted : List Nat
  /-- counted by `m_dispatched` -/
  finished : List Nat
  /-- `dispatch` has returned -/
  dispatched : List Nat
  /-- `post` has returned true -/
  returned : List Nat
  reports : List Report
  /-- for each `flush()` that returned because `pending()` was 0, how many posts that
  had returned true before it were not dispatched then -/
  flushed : List Nat

inductive Action (Tid : Type) where
  | post (t : Tid) (topicId : Nat)
  | pending (t : Tid) (postedFirst : Bool)
  | flush (t : Tid) (postedFirst : Bool)
  /-- the loop of `flush` calls `pending()` again -/
  | retry (t : Tid) (postedFirst : Bool)
  /-- the deadline of `flush` has passed -/
  | timeout (t : Tid)
  /-- the next step of a thread -/
  | run (t : Tid)
  /-- the next step of the dispatch thread -/
  | dispatcher

variable {Tid : Type}

def init : State Tid where
  ring := []
  m_posted := 0
  m_dispatched := 0
  pc := fun _ => .idle
  dispatcher := .tryPop
  nextMsg := 0
  counted := []
  finished := []
  dispatched := []
  returned := []
  reports := []
  flushed := []

/-- How many of the posts `before` are not dispatched yet. -/
def State.undispatched (s : State Tid) (before : List Nat) : Nat :=
  before.countP fun msg => msg ∉ s.dispatched

/-- A step of `dispatchLoop`. -/
def dispatchLoop (s : State Tid) : State Tid :=
  match s.dispatcher with
  | .tryPop =>
      match s.ring with
      | [] => s
      | msg :: ring => { s with ring := ring, dispatcher := .dispatch msg }
  | .dispatch msg =>
      { s with dispatched := msg :: s.dispatched, dispatcher := .countDispatched msg }
  | .countDispatched msg =>
      { s with
        m_dispatched := s.m_dispatched + 1
        finished := msg :: s.finished
        dispatcher := .tryPop }

section
variable [DecidableEq Tid]

def State.goto (s : State Tid) (t : Tid) (pc : Pc) : State Tid :=
  { s with pc := Function.update s.pc t pc }

/-- `pending()` returns `value`. -/
def returnPending (s : State Tid) (t : Tid) (ask : Ask) (value : Int) : State Tid :=
  let report : Report := ⟨value, s.undispatched ask.before⟩
  let s := { s with reports := s.reports ++ [report] }
  match ask.flush with
  | none => s.goto t .idle
  | some before =>
      if value = 0 then
        { s.goto t .idle with flushed := s.flushed ++ [s.undispatched before] }
      else s.goto t (.flushWait before)

/-- A step of `post` or `pending`. -/
def run (Capacity : Nat) (s : State Tid) (t : Tid) : Option (State Tid) :=
  match s.pc t with
  | .idle => none
  | .tryPush msg =>
      if s.ring.length < Capacity then
        some { s.goto t (.countPosted msg) with ring := s.ring ++ [msg] }
      else some (s.goto t .idle)
  | .countPosted msg =>
      some { s.goto t (.returnTrue msg) with
        m_posted := s.m_posted + 1
        counted := msg :: s.counted }
  | .returnTrue msg => some { s.goto t .idle with returned := msg :: s.returned }
  | .firstLoad true ask => some (s.goto t (.secondLoad true ask s.m_posted s.counted))
  | .firstLoad false ask => some (s.goto t (.secondLoad false ask s.m_dispatched s.finished))
  | .secondLoad true ask loaded _ =>
      some (s.goto t (.returnPending ask (loaded - s.m_dispatched : Int)))
  | .secondLoad false ask loaded _ =>
      some (s.goto t (.returnPending ask (s.m_posted - loaded : Int)))
  | .returnPending ask value => some (returnPending s t ask value)
  | .flushWait _ => none

def step (Capacity : Nat) (s : State Tid) : Action Tid → Option (State Tid)
  | .post t topicId =>
      if s.pc t = .idle then
        if topicId ≥ MC_FAST_MAX_TOPICS then some s
        else some { s.goto t (.tryPush s.nextMsg) with nextMsg := s.nextMsg + 1 }
      else none
  | .pending t postedFirst =>
      if s.pc t = .idle then some (s.goto t (.firstLoad postedFirst ⟨s.returned, none⟩)) else none
  | .flush t postedFirst =>
      if s.pc t = .idle then
        some (s.goto t (.firstLoad postedFirst ⟨s.returned, some s.returned⟩))
      else none
  | .retry t postedFirst =>
      match s.pc t with
      | .flushWait before =>
          some (s.goto t (.firstLoad postedFirst ⟨s.returned, some before⟩))
      | _ => none
  | .timeout t =>
      match s.pc t with
      | .flushWait _ => some (s.goto t .idle)
      | _ => none
  | .run t => run Capacity s t
  | .dispatcher => some (dispatchLoop s)

def machine (Tid : Type) [DecidableEq Tid] (Capacity : Nat) : Machine (State Tid) (Action Tid) :=
  ⟨init, step Capacity⟩

end

end MessageCenter.MessageCenterFast
