import MessageCenter.EventQueue.OneThread

/-!
# The reference publisher

What an `EventQueue` is for, without descriptors, maps of vectors and a registry:
named topics, for each topic the observers in the order of their registration, and
one queue of messages.  A message is given, one after the other, to the observers
that its topic has when its delivery starts.
-/

namespace MessageCenter.EventQueue.Reference

open Concurrency OneThread

structure Observer where
  observerId : Nat
  handler : Handler
deriving DecidableEq, Repr

/-- The delivery of a message to the observers that have not been called yet. -/
structure Delivery where
  message : Message
  waiting : List Observer
  inHandler : Bool

/-- `topics` are the names; a topic goes by its index.  `ids` is the number of ids
given so far, and `returned` what the calls of `AddObserver` returned. -/
structure State where
  topics : List String
  observers : Int → List Observer
  messages : List Message
  ids : Nat
  returned : List Nat
  delivery : Option Delivery
  trace : List Invocation

def init : State where
  topics := []
  observers := fun _ => []
  messages := []
  ids := 0
  returned := []
  delivery := none
  trace := []

/-! ### Topics and observers -/

/-- A name is new if it is not empty and not registered; there is room for
`MAX_TOPICS` names. -/
def register (topics : List String) (topic : String) : List String :=
  if topic = "" ∨ topic ∈ topics ∨ MAX_TOPICS ≤ topics.length then topics else topics ++ [topic]

/-- The overloads for a handler that is not null. -/
def handler? : Overload → Option Handler
  | .callback (some function) => some (.callback function)
  | .method (some observerInstance) (some function) => some (.method observerInstance function)
  | .func (some function) => some (.func function)
  | _ => none

/-- The observers that a removal is about.  A null argument of `RemoveObserver`
means the observers of the other kinds. -/
def matchesRemoval : Removal → Observer → Bool
  | .callback function, observer =>
      match observer.handler with
      | .callback own => function == some own
      | _ => function == none
  | .method target function, observer =>
      match observer.handler with
      | .method ownInstance own => target == some ownInstance && function == some own
      | _ => target == none && function == none
  | .byId id, observer => observer.observerId == id

def addObserver (r : State) (topic : String) (handler : Handler) : State :=
  let topics := register r.topics topic
  match topics.idxOf? topic with
  | none => { r with topics := topics, returned := r.returned ++ [0] }
  | some id =>
      { r with
        topics := topics
        observers := Function.update r.observers id (r.observers id ++ [⟨r.ids + 1, handler⟩])
        ids := r.ids + 1
        returned := r.returned ++ [r.ids + 1] }

/-- The other observers of the topic stay, in their order. -/
def removeFrom (r : State) (id : Int) (removal : Removal) : State :=
  let kept := (r.observers id).filter fun observer => !matchesRemoval removal observer
  { r with observers := Function.update r.observers id kept }

def removeObserver (r : State) (topic : String) (removal : Removal) : State :=
  match r.topics.idxOf? topic with
  | none => r
  | some id => removeFrom r id removal

def post (r : State) (id : Int) (obj : Option Nat) (autoCleanupPayload : Bool) : State :=
  if 0 ≤ id then { r with messages := r.messages ++ [⟨id.toNat, obj, autoCleanupPayload⟩] } else r

def postTopic (r : State) (topic : String) (obj : Option Nat) (autoCleanupPayload : Bool) : State :=
  match r.topics.idxOf? topic with
  | none => r
  | some id => { r with messages := r.messages ++ [⟨id, obj, autoCleanupPayload⟩] }

/-! ### Behaviour -/

/-- A call; the reference has no `ClearTopics` and no null handlers. -/
def call (r : State) : Call → Option State
  | .registerTopic topic => some { r with topics := register r.topics topic }
  | .clearTopics => none
  | .addObserver topic overload => (handler? overload).map fun handler => addObserver r topic handler
  | .removeObserver topic removal => some (removeObserver r topic removal)
  | .post id obj autoCleanupPayload => some (post r id obj autoCleanupPayload)
  | .postTopic topic obj autoCleanupPayload => some (postTopic r topic obj autoCleanupPayload)

def step (r : State) : OneThread.Action → Option State
  | .call c =>
      match r.delivery with
      | some ⟨_, _, false⟩ => none
      | _ => call r c
  | .dispatchNext =>
      match r.delivery, r.messages with
      | none, [] => some r
      | none, message :: rest =>
          some { r with
            messages := rest
            delivery := some ⟨message, r.observers message.tid, false⟩ }
      | some _, _ => none
  | .advance =>
      match r.delivery with
      | some ⟨message, observer :: rest, false⟩ =>
          some { r with
            delivery := some ⟨message, rest, true⟩
            trace := r.trace ++ [⟨observer.handler, message.tid, message⟩] }
      | some ⟨_, [], false⟩ => some { r with delivery := none }
      | some ⟨_, _, true⟩ => none
      | none => some r
  | .handlerReturn =>
      match r.delivery with
      | some ⟨message, rest, true⟩ => some { r with delivery := some ⟨message, rest, false⟩ }
      | _ => none

def machine : Machine State OneThread.Action := ⟨init, step⟩

end MessageCenter.EventQueue.Reference
