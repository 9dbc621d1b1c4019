import MessageCenter.SnapshotQueue.Model

/-!
# The reference queue

What the snapshot queues are for: an accepted post to a topic with observers
appends an entry with its own copy of the bytes and of the observer list, and a
dispatch takes the oldest entry and calls its observers in order.
-/

namespace MessageCenter.SnapshotQueue.Reference

structure Entry where
  topicId : Nat
  bytes : List UInt8
  size : Nat
  observers : List Observer

structure State (sys : System) where
  topics : Nat → List Observer
  entries : sys.Lane → List Entry
  trace : List CallEvent

variable {sys : System}

def init (sys : System) : State sys := ⟨fun _ => [], fun _ => [], []⟩

def addObserver (r : State sys) (topicId : Nat) (observer : Observer) : State sys :=
  if topicId < sys.maxTopics ∧ (r.topics topicId).length < sys.maxObservers then
    { r with topics := Function.update r.topics topicId (r.topics topicId ++ [observer]) }
  else r

/-- The buffer has the posted size, or the size is zero. -/
def ValidData (data : Option (List UInt8)) (size : Nat) : Prop :=
  size = 0 ∨ ∃ bytes, data = some bytes ∧ size ≤ bytes.length

instance (data : Option (List UInt8)) (size : Nat) : Decidable (ValidData data size) :=
  match data with
  | none => decidable_of_iff (size = 0) (by simp [ValidData])
  | some bytes => decidable_of_iff (size = 0 ∨ size ≤ bytes.length) (by simp [ValidData])

/-- A post; `none` for a post outside the contract, with an invalid buffer or to a
full ring. -/
def post (r : State sys) (args : PostArgs sys.Lane) : Option (State sys) :=
  if args.topicId ≥ sys.maxTopics ∨ (sys.format args.lane).accepts args.size = false then some r
  else if r.topics args.topicId = [] then some r
  else if ValidData args.data args.size ∧
      (r.entries args.lane).length < 2 ^ sys.exponent args.lane then
    let entry : Entry := ⟨args.topicId, (args.data.getD []).take args.size, args.size,
      r.topics args.topicId⟩
    let entries := r.entries args.lane ++ [entry]
    some { r with entries := Function.update r.entries args.lane entries }
  else none

def posts : State sys → List (PostArgs sys.Lane) → Option (State sys)
  | r, [] => some r
  | r, args :: rest => (post r args).bind fun r => posts r rest

def callObservers (behaviour : Behaviour sys) (entry : Entry) :
    List Observer → State sys → Option (State sys)
  | [], r => some r
  | observer :: rest, r =>
      let event : CallEvent :=
        ⟨observer, entry.topicId, some (entry.bytes.map Cell.byte), entry.size⟩
      let r := { r with trace := r.trace ++ [event] }
      (posts r (behaviour r.trace)).bind fun r => callObservers behaviour entry rest r

def dispatchOne (behaviour : Behaviour sys) (lane : sys.Lane) (r : State sys) :
    Option (State sys) :=
  match r.entries lane with
  | [] => some r
  | entry :: rest =>
      callObservers behaviour entry entry.observers
        { r with entries := Function.update r.entries lane rest }

def step (behaviour : Behaviour sys) (r : State sys) : Call sys.Lane → Option (State sys)
  | .addObserver topicId observer => some (addObserver r topicId observer)
  | .post args => post r args
  | .dispatchOne lane => dispatchOne behaviour lane r

def run (behaviour : Behaviour sys) : State sys → List (Call sys.Lane) → Option (State sys)
  | r, [] => some r
  | r, call :: rest => (step behaviour r call).bind fun r => run behaviour r rest

end MessageCenter.SnapshotQueue.Reference
