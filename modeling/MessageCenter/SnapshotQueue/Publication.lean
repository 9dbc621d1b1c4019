import MessageCenter.SnapshotQueue.Concurrent
import Mathlib.Data.List.Infix

/-!
# How the snapshot queues publish observers

`addObserver` of the snapshot queues, and what a `post` does with the observers of its topic, one
step for each access to `count` or to a member of an observer.  The stores come before that to
`count`, and a `memcpy` may read its observers in any order.

The accesses to `observers` are plain ones.  They do not race, and every post copies the observers
that were registered when it loaded `count`, as long as no two calls of `addObserver` for one topic
overlap; posts may overlap with them.

`addCalls`, `addReturns` and `posted` are history.
-/

namespace MessageCenter.SnapshotQueue.Publication

open Concurrency Concurrent

/-- The members of `FastObserver`. -/
inductive Member where
  | callback
  | userData
deriving DecidableEq, Repr

def Member.value (observer : Observer) : Member → Nat
  | .callback => observer.callback
  | .userData => observer.userData

/-- One member of `observer` is set to that of `source`. -/
def Member.copy (source observer : Observer) : Member → Observer
  | .callback => { observer with callback := source.callback }
  | .userData => { observer with userData := source.userData }

/-- A member of an entry of `observers`. -/
abbrev Cell := Nat × Member

/-- Where a thread stands; each constructor names the access that comes next. -/
inductive Pc where
  | idle
  /-- `topic.count.load` in `addObserver` -/
  | addLoad (topicId : Nat) (observer : Observer)
  /-- the store to a member of `topic.observers[idx]` -/
  | addWrite (topicId : Nat) (observer : Observer) (idx : Nat) (member : Member)
  /-- `topic.count.store` -/
  | addStore (topicId : Nat) (observer : Observer) (idx : Nat)
  /-- `topic.count.load` in `post`, for a message object that holds `old` -/
  | postLoad (topicId : Nat) (old : Nat → Observer) (before : List Observer)
  /-- the `memcpy`; `rest` has not been read -/
  | postCopy (topicId count : Nat) (observers : Nat → Observer) (rest : List Cell)
      (before : List Observer)

structure AddReturn where
  topicId : Nat
  observer : Observer
  result : Bool
deriving DecidableEq, Repr

/-- A post and the observers that it has copied; `before` are those whose registration had returned
when it was called. -/
structure Posted where
  topicId : Nat
  observers : List Observer
  before : List Observer
deriving DecidableEq, Repr

structure State (Tid : Type) where
  m_topics : Nat → TopicObservers
  pc : Tid → Pc
  addCalls : List (Nat × Observer)
  addReturns : List AddReturn
  posted : List Posted

inductive Action (Tid : Type) where
  | addObserver (t : Tid) (topicId : Nat) (observer : Observer)
  | post (t : Tid) (old : Nat → Observer) (topicId : Nat)
  | run (t : Tid)
  /-- the `memcpy` of `t` reads `cell` -/
  | copy (t : Tid) (cell : Cell)

variable {Tid : Type}

def init : State Tid where
  m_topics := fun _ => ⟨0, fun _ => ⟨0, 0⟩⟩
  pc := fun _ => .idle
  addCalls := []
  addReturns := []
  posted := []

/-- The observers of a topic whose registration has returned true, in that order. -/
def registered (returns : List AddReturn) (topicId : Nat) : List Observer :=
  (returns.filter fun ret => ret.result ∧ ret.topicId = topicId).map AddReturn.observer

/-- What a `memcpy` of `count` observers reads. -/
def cells (count : Nat) : List Cell :=
  (List.range count).flatMap fun i => [(i, .callback), (i, .userData)]

variable [DecidableEq Tid]

def State.goto (s : State Tid) (t : Tid) (pc : Pc) : State Tid :=
  { s with pc := Function.update s.pc t pc }

def State.setTopic (s : State Tid) (topicId : Nat) (topic : TopicObservers) : State Tid :=
  { s with m_topics := Function.update s.m_topics topicId topic }

/-- `addObserver` returns. -/
def State.addReturn (s : State Tid) (t : Tid) (topicId : Nat) (observer : Observer)
    (result : Bool) : State Tid :=
  { s.goto t .idle with addReturns := s.addReturns ++ [⟨topicId, observer, result⟩] }

/-- The observers of a post are complete. -/
def State.postReturn (s : State Tid) (t : Tid) (topicId : Nat) (observers before : List Observer) :
    State Tid :=
  { s.goto t .idle with posted := s.posted ++ [⟨topicId, observers, before⟩] }

/-- The store to `topic.observers[idx]`. -/
def State.write (s : State Tid) (topicId idx : Nat) (observer : Observer) (member : Member) :
    State Tid :=
  let topic := s.m_topics topicId
  let entry := member.copy observer (topic.observers idx)
  s.setTopic topicId { topic with observers := Function.update topic.observers idx entry }

/-- `topic.count.store(idx + 1)`, after which `addObserver` returns true. -/
def State.publish (s : State Tid) (t : Tid) (topicId : Nat) (observer : Observer) (idx : Nat) :
    State Tid :=
  (s.setTopic topicId { s.m_topics topicId with count := idx + 1 }).addReturn t topicId observer true

def run (cls : QueueClass) (s : State Tid) (t : Tid) : Option (State Tid) :=
  match s.pc t with
  | .idle => none
  | .addLoad topicId observer =>
      let idx := (s.m_topics topicId).count
      if idx ≥ cls.maxObservers then some (s.addReturn t topicId observer false)
      else some (s.goto t (.addWrite topicId observer idx .callback))
  | .addWrite topicId observer idx .callback =>
      some ((s.write topicId idx observer .callback).goto t
        (.addWrite topicId observer idx .userData))
  | .addWrite topicId observer idx .userData =>
      some ((s.write topicId idx observer .userData).goto t (.addStore topicId observer idx))
  | .addStore topicId observer idx =>
      some (s.publish t topicId observer idx)
  | .postLoad topicId old before =>
      let count := (s.m_topics topicId).count
      if count = 0 then some (s.postReturn t topicId [] before)
      else some (s.goto t (.postCopy topicId count old (cells count) before))
  | .postCopy topicId count observers rest before =>
      if rest = [] then some (s.postReturn t topicId ((List.range count).map observers) before)
      else none

def step (cls : QueueClass) (s : State Tid) : Action Tid → Option (State Tid)
  | .addObserver t topicId observer =>
      match s.pc t with
      | .idle =>
          let s := { s with addCalls := s.addCalls ++ [(topicId, observer)] }
          if topicId ≥ cls.maxTopics then some (s.addReturn t topicId observer false)
          else some (s.goto t (.addLoad topicId observer))
      | _ => none
  | .post t old topicId =>
      match s.pc t with
      | .idle =>
          if topicId ≥ cls.maxTopics then some s
          else some (s.goto t (.postLoad topicId old (registered s.addReturns topicId)))
      | _ => none
  | .run t => run cls s t
  | .copy t (i, member) =>
      match s.pc t with
      | .postCopy topicId count observers rest before =>
          if (i, member) ∈ rest then
            let entry := member.copy ((s.m_topics topicId).observers i) (observers i)
            some (s.goto t (.postCopy topicId count (Function.update observers i entry)
              (rest.erase (i, member)) before))
          else none
      | _ => none

def machine (Tid : Type) [DecidableEq Tid] (cls : QueueClass) :
    Machine (State Tid) (Action Tid) :=
  ⟨init, step cls⟩

/-! ### What is promised -/

/-- The topic of a call of `addObserver`. -/
def Pc.adding : Pc → Option Nat
  | .addLoad topicId _ | .addWrite topicId _ _ _ | .addStore topicId _ _ => some topicId
  | _ => none

/-- The plain store that a thread makes next. -/
def Pc.Writes (topicId : Nat) (cell : Cell) : Pc → Prop
  | .addWrite topic _ idx member => topic = topicId ∧ (idx, member) = cell
  | _ => False

/-- A plain load that a thread may make next. -/
def Pc.Reads (topicId : Nat) (cell : Cell) : Pc → Prop
  | .postCopy topic _ _ rest _ => topic = topicId ∧ cell ∈ rest
  | _ => False

/-- No two calls of `addObserver` for one topic overlap. -/
def Apart (s : State Tid) : Action Tid → Prop
  | .addObserver _ topicId _ => ∀ t, (s.pc t).adding ≠ some topicId
  | _ => True

/-- Whatever overlaps: the accesses stay inside the arrays, and every member of an observer that a
post copies was given to `addObserver` for its topic. -/
structure Initialised (cls : QueueClass) (s : State Tid) : Prop where
  inBounds : ∀ t topicId cell, (s.pc t).Writes topicId cell ∨ (s.pc t).Reads topicId cell →
    topicId < cls.maxTopics ∧ cell.1 < cls.maxObservers
  given : ∀ post ∈ s.posted, ∀ observer ∈ post.observers, ∀ member : Member,
    ∃ source, (post.topicId, source) ∈ s.addCalls ∧ member.value observer = member.value source

/-- Two threads access one cell, and one of them writes it. -/
def State.Race (s : State Tid) : Prop :=
  ∃ t u topicId cell, t ≠ u ∧ (s.pc t).Writes topicId cell ∧
    ((s.pc u).Writes topicId cell ∨ (s.pc u).Reads topicId cell)

/-- `addObserver` fails only for want of room. -/
def Answered (cls : QueueClass) (returns : List AddReturn) : Prop :=
  ∀ before ret after, returns = before ++ ret :: after →
    (ret.result = true ↔ ret.topicId < cls.maxTopics ∧
      (registered before ret.topicId).length < cls.maxObservers)

structure Published (cls : QueueClass) (s : State Tid) : Prop where
  raceFree : ¬ s.Race
  /-- a post gets the first of the registered observers, at least those of before the call -/
  snapshot : ∀ post ∈ s.posted, post.before <+: post.observers ∧
    post.observers <+: registered s.addReturns post.topicId
  answered : Answered cls s.addReturns

end MessageCenter.SnapshotQueue.Publication
