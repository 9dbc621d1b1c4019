import MessageCenter.SnapshotQueue.Model
import MessageCenter.Lib.Machine

/-!
# The drain loops of `EventQueueEmulator`

`dispatchPriority` and `dispatchAll` are loops of calls of `dispatchFast` and
`dispatchBulk`, whose callbacks may post to both rings.  A call is a machine that
makes one of these calls in each step, so that a call that never returns has
steps too.  A ring is described by the objects in it; what a callback posts is
counted from the tests that `postFast` and `postBulk` make.
-/

namespace MessageCenter.SnapshotQueue.Priority

open Concurrency MPMCQueue ObjectPoolLockFree PooledQueue

variable {sys : System}

/-! ### The rings -/

/-- The rings hold the objects `queued`, oldest first. -/
def Holds (s : State sys) (queued : sys.Lane → List Addr) : Prop :=
  ∀ lane, ∃ start, (s.queue lane).m_queue.Represents (sys.exponent lane) start (queued lane)

/-- Every ring has at least two slots, and a 64-bit counter can address them. -/
def RingsFit (sys : System) : Prop := ∀ lane, 1 ≤ sys.exponent lane ∧ sys.exponent lane < 64

/-- `m_fastQueue.empty()`, `m_bulkQueue.empty()` -/
def RingEmpty (s : State sys) (lane : sys.Lane) : Prop :=
  (s.queue lane).m_queue.contents (2 ^ sys.exponent lane) = []

/-- The next `try_pop` takes a message. -/
def Takes (s : State sys) (lane : sys.Lane) : Prop :=
  ∃ queue msg, (s.queue lane).pop (2 ^ sys.exponent lane) = some (queue, some msg)

variable {s next : State sys} {queued : sys.Lane → List Addr} {lane : sys.Lane}

theorem Holds.ringEmpty_iff (hholds : Holds s queued) (hlane : sys.exponent lane < 64) :
    RingEmpty s lane ↔ queued lane = [] := by
  obtain ⟨start, hrep⟩ := hholds lane
  rw [RingEmpty, hrep.contents_eq hlane]

/-- `try_pop` takes the oldest object, or nothing from an empty ring. -/
theorem Holds.pop (hholds : Holds s queued) (hlane : sys.exponent lane < 64) :
    (queued lane = [] ∧ (s.queue lane).pop (2 ^ sys.exponent lane) = some (s.queue lane, none)) ∨
    ∃ msg rest queue, queued lane = msg :: rest ∧
      (s.queue lane).pop (2 ^ sys.exponent lane) = some (queue, some msg) ∧
      Holds (s.setQueue lane queue) (Function.update queued lane rest) := by
  obtain ⟨start, hrep⟩ := hholds lane
  cases hqueued : queued lane with
  | nil =>
      rw [hqueued] at hrep
      exact .inl ⟨rfl, by simp [PooledQueue.pop, hrep.tryPop_nil hlane]⟩
  | cons msg rest =>
      rw [hqueued] at hrep
      obtain ⟨ring, hpop, hafter⟩ := hrep.tryPop_cons hlane
      refine .inr ⟨msg, rest, { s.queue lane with m_queue := ring }, rfl,
        by simp [PooledQueue.pop, hpop], fun other => ?_⟩
      by_cases heq : other = lane
      · subst heq
        exact ⟨start + 1, by simpa [State.setQueue] using hafter⟩
      · simpa [State.setQueue, heq] using hholds other

theorem Holds.takes_iff (hholds : Holds s queued) (hfit : RingsFit sys) (lane : sys.Lane) :
    Takes s lane ↔ queued lane ≠ [] := by
  rcases hholds.pop (hfit lane).2 with ⟨hnil, hpop⟩ | ⟨msg, rest, queue, hcons, hpop, _⟩
  · simp [Takes, hnil, hpop]
  · simp [Takes, hcons, hpop]

/-! ### Posts -/

/-- The tests of `postFast` and `postBulk` for a message that is queued on `lane`. -/
def Queues (topics : Nat → TopicObservers) (lane : sys.Lane) (args : PostArgs sys.Lane) : Bool :=
  decide (args.lane = lane) && decide (args.topicId < sys.maxTopics) &&
    (sys.format args.lane).accepts args.size && decide ((topics args.topicId).count ≠ 0)

/-- The messages that the callbacks `events` queue on `lane`, when `trace` was
called before. -/
def posted (behaviour : Behaviour sys) (topics : Nat → TopicObservers) (lane : sys.Lane) :
    List CallEvent → List CallEvent → Nat
  | _, [] => 0
  | trace, event :: events =>
      (behaviour (trace ++ [event])).countP (Queues topics lane) +
        posted behaviour topics lane (trace ++ [event]) events

/-- A push that returns found room. -/
theorem Holds.push {msg : Addr} {queue : PooledQueue} (hholds : Holds s queued)
    (hfit : RingsFit sys) (hpush : (s.queue lane).push (2 ^ sys.exponent lane) msg = some queue) :
    Holds (s.setQueue lane queue) (Function.update queued lane (queued lane ++ [msg])) := by
  obtain ⟨start, hrep⟩ := hholds lane
  have hroom : (queued lane).length < 2 ^ sys.exponent lane := by
    by_contra hfull
    have hbound := hrep.bound
    simp [PooledQueue.push, hrep.tryPush_full (hfit lane).1 (hfit lane).2
      (Nat.le_antisymm hbound (Nat.le_of_not_lt hfull))] at hpush
  obtain ⟨ring, htry, hafter⟩ := hrep.tryPush_room (hfit lane).2 hroom msg
  obtain rfl : { s.queue lane with m_queue := ring } = queue := by
    simpa [PooledQueue.push, htry] using hpush
  intro other
  by_cases heq : other = lane
  · subst heq
    exact ⟨start, by simpa [State.setQueue] using hafter⟩
  · simpa [State.setQueue, heq] using hholds other

/-- `acquire` and `fill` leave the rings alone. -/
theorem prepare_frame (s : State sys) (lane : sys.Lane) (topicId count : Nat)
    (observers : Nat → Observer) (data : Option (List UInt8)) (size : Nat) :
    (∀ other, ((prepare s lane topicId count observers data size).1.queue other).m_queue =
      (s.queue other).m_queue) ∧
    (prepare s lane topicId count observers data size).1.m_topics = s.m_topics ∧
    (prepare s lane topicId count observers data size).1.trace = s.trace := by
  refine ⟨fun other => ?_, rfl, rfl⟩
  by_cases heq : other = lane
  · subst heq
    simp only [prepare, State.setLane, Function.update_self, PooledQueue.acquire]
    split <;> rfl
  · simp [prepare, State.setLane, heq]

/-- What a post does to the rings. -/
theorem Holds.post {args : PostArgs sys.Lane} {result : Bool} (hholds : Holds s queued)
    (hfit : RingsFit sys) (hpost : post s args = some (next, result)) :
    ∃ queued', Holds next queued' ∧ next.m_topics = s.m_topics ∧ next.trace = s.trace ∧
      ∀ lane, (queued' lane).length =
        (queued lane).length + [args].countP (Queues s.m_topics lane) := by
  rw [SnapshotQueue.post] at hpost
  by_cases hrefused : args.topicId ≥ sys.maxTopics ∨ (sys.format args.lane).accepts args.size = false
  · rw [if_pos hrefused] at hpost
    cases hpost
    refine ⟨queued, hholds, rfl, rfl, fun lane => ?_⟩
    rcases hrefused with htopic | haccepts
    · simp [Queues, Nat.not_lt.mpr htopic]
    · simp [Queues, haccepts]
  · rw [if_neg hrefused] at hpost
    push Not at hrefused
    obtain ⟨htopic, haccepts⟩ := hrefused
    by_cases hcount : (s.m_topics args.topicId).count = 0
    · simp only [hcount, if_true] at hpost
      cases hpost
      exact ⟨queued, hholds, rfl, rfl, fun lane => by simp [Queues, hcount]⟩
    · simp only [hcount, if_false] at hpost
      obtain ⟨queue, hpush, hnext⟩ := Option.map_eq_some_iff.mp hpost
      obtain ⟨hrings, htopics, htrace⟩ := prepare_frame s args.lane args.topicId
        (s.m_topics args.topicId).count (s.m_topics args.topicId).observers args.data args.size
      cases hnext
      have hprepared : Holds (prepare s args.lane args.topicId (s.m_topics args.topicId).count
          (s.m_topics args.topicId).observers args.data args.size).1 queued := by
        intro other
        rw [hrings]
        exact hholds other
      refine ⟨_, hprepared.push hfit hpush, htopics, htrace, fun lane => ?_⟩
      by_cases heq : lane = args.lane
      · subst heq
        simp [Queues, htopic, haccepts, hcount]
      · simp [Queues, heq, Ne.symm heq]

theorem Holds.posts {args : List (PostArgs sys.Lane)} (hholds : Holds s queued)
    (hfit : RingsFit sys) (hposts : posts s args = some next) :
    ∃ queued', Holds next queued' ∧ next.m_topics = s.m_topics ∧ next.trace = s.trace ∧
      ∀ lane, (queued' lane).length =
        (queued lane).length + args.countP (Queues s.m_topics lane) := by
  induction args generalizing s queued with
  | nil =>
      obtain rfl := Option.some.inj hposts
      exact ⟨queued, hholds, rfl, rfl, fun lane => rfl⟩
  | cons first rest ih =>
      obtain ⟨⟨middle, result⟩, hfirst, hrest⟩ := Option.bind_eq_some_iff.mp hposts
      obtain ⟨queuedMiddle, hmiddle, htopics, htrace, hlength⟩ := hholds.post hfit hfirst
      obtain ⟨queued', hnext, htopics', htrace', hlength'⟩ := ih hmiddle hrest
      refine ⟨queued', hnext, htopics'.trans htopics, htrace'.trans htrace, fun lane => ?_⟩
      have hcons : (first :: rest).countP (Queues s.m_topics lane) =
          [first].countP (Queues s.m_topics lane) + rest.countP (Queues s.m_topics lane) := by
        rw [← List.countP_append, List.singleton_append]
      rw [hlength', hlength, htopics, hcons, Nat.add_assoc]

/-! ### Callbacks -/

theorem Holds.emit (hholds : Holds s queued) (trace : List CallEvent) :
    Holds { s with trace := trace } queued := hholds

theorem Holds.callObserver {behaviour : Behaviour sys} {msg : Addr} {i : Nat}
    (hholds : Holds s queued) (hfit : RingsFit sys)
    (hcall : callObserver behaviour lane msg i s = some next) :
    ∃ queued' event, Holds next queued' ∧ next.m_topics = s.m_topics ∧
      next.trace = s.trace ++ [event] ∧
      ∀ other, (queued' other).length =
        (queued other).length + posted behaviour s.m_topics other s.trace [event] := by
  obtain ⟨called, hposts, rfl⟩ := Option.map_eq_some_iff.mp hcall
  obtain ⟨queued', hcalled, htopics, htrace, hlength⟩ := (hholds.emit _).posts hfit hposts
  refine ⟨queued', _, ?_, ?_, ?_, hlength⟩
  · split <;> exact hcalled
  · split <;> exact htopics
  · split <;> exact htrace

theorem posted_append (behaviour : Behaviour sys) (topics : Nat → TopicObservers)
    (lane : sys.Lane) (trace first rest : List CallEvent) :
    posted behaviour topics lane trace (first ++ rest) =
      posted behaviour topics lane trace first +
        posted behaviour topics lane (trace ++ first) rest := by
  induction first generalizing trace with
  | nil => simp [posted]
  | cons event events ih => simp [posted, ih, Nat.add_assoc]

theorem Holds.callObservers {behaviour : Behaviour sys} {msg : Addr} {remaining i : Nat}
    (hholds : Holds s queued) (hfit : RingsFit sys)
    (hcalls : callObservers behaviour lane msg remaining i s = some next) :
    ∃ queued' events, Holds next queued' ∧ next.m_topics = s.m_topics ∧
      next.trace = s.trace ++ events ∧
      ∀ other, (queued' other).length =
        (queued other).length + posted behaviour s.m_topics other s.trace events := by
  induction remaining generalizing s queued i with
  | zero =>
      obtain rfl := Option.some.inj hcalls
      exact ⟨queued, [], hholds, rfl, by simp, fun other => rfl⟩
  | succ remaining ih =>
      obtain ⟨middle, hfirst, hrest⟩ := Option.bind_eq_some_iff.mp hcalls
      obtain ⟨queuedMiddle, event, hmiddle, htopics, htrace, hlength⟩ :=
        hholds.callObserver hfit hfirst
      obtain ⟨queued', events, hnext, htopics', htrace', hlength'⟩ := ih hmiddle hrest
      refine ⟨queued', event :: events, hnext, htopics'.trans htopics, ?_, fun other => ?_⟩
      · rw [htrace', htrace, List.append_assoc, List.singleton_append]
      · have hsplit := posted_append behaviour s.m_topics other s.trace [event] events
        rw [List.singleton_append] at hsplit
        rw [hlength', hlength, htopics, htrace, hsplit, Nat.add_assoc]

/-- The pool is apart from the ring. -/
theorem Holds.release (hholds : Holds s queued) (lane : sys.Lane) (msg : Addr) :
    Holds (s.setQueue lane ((s.queue lane).release (sys.maxSize lane) msg)) queued := by
  intro other
  by_cases heq : other = lane
  · subst heq
    have hring := hholds other
    simp only [State.setQueue, Function.update_self, PooledQueue.release]
    split <;> exact hring
  · simpa [State.setQueue, heq] using hholds other

/-- `dispatchFast`, `dispatchBulk`: nothing was there, or a message was taken and
its callbacks have queued others. -/
theorem Holds.dispatchOne {behaviour : Behaviour sys} {found : Bool} (hholds : Holds s queued)
    (hfit : RingsFit sys) (hdispatch : dispatchOne behaviour lane s = some (next, found)) :
    (found = false ∧ next = s ∧ queued lane = []) ∨
    ∃ rest msg queued' events, found = true ∧ queued lane = msg :: rest ∧ Holds next queued' ∧
      next.m_topics = s.m_topics ∧ next.trace = s.trace ++ events ∧
      ∀ other, (queued' other).length = (Function.update queued lane rest other).length +
        posted behaviour s.m_topics other s.trace events := by
  rw [SnapshotQueue.dispatchOne] at hdispatch
  rcases hholds.pop (hfit lane).2 with ⟨hnil, hpop⟩ | ⟨msg, rest, queue, hcons, hpop, htaken⟩
  · rw [hpop] at hdispatch
    simp only [State.setQueue, Function.update_eq_self, Option.some.injEq, Prod.mk.injEq] at hdispatch
    exact .inl ⟨hdispatch.2.symm, hdispatch.1.symm, hnil⟩
  · simp only [hpop] at hdispatch
    obtain ⟨called, hcalls, hnext⟩ := Option.map_eq_some_iff.mp hdispatch
    obtain ⟨queued', events, hcalled, htopics, htrace, hlength⟩ :=
      htaken.callObservers hfit hcalls
    cases hnext
    exact .inr ⟨rest, msg, queued', events, rfl, hcons, hcalled.release lane msg, htopics, htrace,
      hlength⟩

theorem Holds.dispatchOne_nil {behaviour : Behaviour sys} (hholds : Holds s queued)
    (hfit : RingsFit sys) (hnil : queued lane = []) :
    SnapshotQueue.dispatchOne behaviour lane s = some (s, false) := by
  rcases hholds.pop (hfit lane).2 with ⟨_, hpop⟩ | ⟨msg, rest, _, hcons, _⟩
  · simp [SnapshotQueue.dispatchOne, hpop, State.setQueue]
  · rw [hnil] at hcons
    cases hcons

theorem holds_init (sys : System) : Holds (init sys) fun _ => [] := fun _ =>
  (construct_carries _ _ _).1.ring

/-- The calls of a queue keep its rings in order. -/
theorem Holds.run {behaviour : Behaviour sys} {calls : List (Call sys.Lane)}
    (hholds : Holds s queued) (hfit : RingsFit sys)
    (hrun : SnapshotQueue.run behaviour s calls = some next) :
    ∃ queued', Holds next queued' := by
  induction calls generalizing s queued with
  | nil =>
      obtain rfl := Option.some.inj hrun
      exact ⟨queued, hholds⟩
  | cons call rest ih =>
      obtain ⟨middle, hfirst, hrest⟩ := Option.bind_eq_some_iff.mp hrun
      cases call with
      | addObserver topicId observer =>
          obtain rfl := Option.some.inj hfirst
          have hadded : Holds (SnapshotQueue.addObserver s topicId observer).1 queued := by
            intro lane
            simp only [SnapshotQueue.addObserver]
            split
            · exact hholds lane
            · split <;> exact hholds lane
          exact ih hadded hrest
      | post args =>
          obtain ⟨⟨after, result⟩, hpost, rfl⟩ := Option.map_eq_some_iff.mp hfirst
          obtain ⟨queued', hafter, _⟩ := hholds.post hfit hpost
          exact ih hafter hrest
      | dispatchOne lane =>
          obtain ⟨⟨after, found⟩, hdispatch, rfl⟩ := Option.map_eq_some_iff.mp hfirst
          rcases hholds.dispatchOne hfit hdispatch with
            ⟨_, rfl, _⟩ | ⟨_, _, queued', _, _, _, hafter, _⟩
          · exact ih hholds hrest
          · exact ih hafter hrest

/-- The rings of a state that calls lead to. -/
theorem exists_holds_run (hfit : RingsFit sys) (behaviour : Behaviour sys)
    (calls : List (Call sys.Lane)) :
    ∃ queued, Holds ((run behaviour (init sys) calls).getD (init sys)) queued := by
  cases hrun : SnapshotQueue.run behaviour (init sys) calls with
  | none => exact ⟨_, holds_init sys⟩
  | some s => exact (holds_init sys).run hfit hrun

/-! ### The two loops -/

/-- Where a call stands: at the test of the first loop, before `dispatchBulk`, or
back at its caller. -/
inductive Loop where
  | drainFast
  | bulk
  | returned
deriving DecidableEq, Repr

variable {f b : Nat}

/-- A call in progress; `count` is the local variable. -/
structure Draining (f b : Nat) where
  loop : Loop
  count : Nat
  state : State (eventQueueEmulator f b)

/-- `++count` if a message was dispatched; a `size_t` -/
def countUp (count : Nat) (found : Bool) : Nat := if found then (count + 1) % 2 ^ 64 else count

/-- `while (dispatchFast()) ++count;` -/
def drainFast (behaviour : Behaviour (eventQueueEmulator f b)) (c : Draining f b) :
    Option (Draining f b) :=
  (dispatchOne behaviour EmuLane.fast c.state).map fun (next, found) =>
    ⟨if found then .drainFast else .bulk, countUp c.count found, next⟩

/-- `dispatchPriority`, called in the state `s` -/
def dispatchPriority (behaviour : Behaviour (eventQueueEmulator f b))
    (s : State (eventQueueEmulator f b)) : Machine (Draining f b) Unit where
  init := ⟨.drainFast, 0, s⟩
  step c _ :=
    match c.loop with
    | .drainFast => drainFast behaviour c
    | .bulk =>
        (dispatchOne behaviour EmuLane.bulk c.state).map fun (next, found) =>
          ⟨.returned, countUp c.count found, next⟩
    | .returned => none

/-- `dispatchAll`, called in the state `s` -/
def dispatchAll (behaviour : Behaviour (eventQueueEmulator f b))
    (s : State (eventQueueEmulator f b)) : Machine (Draining f b) Unit where
  init := ⟨.drainFast, 0, s⟩
  step c _ :=
    match c.loop with
    | .drainFast => drainFast behaviour c
    | .bulk =>
        (dispatchOne behaviour EmuLane.bulk c.state).map fun (next, found) =>
          ⟨if found then .bulk else .returned, countUp c.count found, next⟩
    | .returned => none

/-! ### The guarantee -/

/-- The call is about to take a message from the bulk ring. -/
def Draining.TakesBulk (c : Draining f b) : Prop := c.loop = .bulk ∧ Takes c.state EmuLane.bulk

/-- When a bulk message is taken, the fast ring is empty. -/
def FastFirst (call : Machine (Draining f b) Unit) : Prop :=
  ∀ c, call.Reachable c → c.TakesBulk → RingEmpty c.state EmuLane.fast

/-- The call returns only when both rings are empty. -/
def DrainsBoth (call : Machine (Draining f b) Unit) : Prop :=
  ∀ c, call.Reachable c → c.loop = .returned → ∀ lane : EmuLane, RingEmpty c.state lane

/-- The callbacks of the messages that the second loop dispatches queue nothing on
the fast ring. -/
def BulkQueuesNoFast (behaviour : Behaviour (eventQueueEmulator f b))
    (call : Machine (Draining f b) Unit) : Prop :=
  ∀ c next, call.Reachable c → c.loop = .bulk → call.step c () = some next →
    posted behaviour c.state.m_topics EmuLane.fast c.state.trace
      (next.state.trace.drop c.state.trace.length) = 0

variable {behaviour : Behaviour (eventQueueEmulator f b)} {start : State (eventQueueEmulator f b)}
  {c after : Draining f b} {ringed : EmuLane → List Addr}

theorem ringsFit_eventQueueEmulator (hf : 1 ≤ f ∧ f < 64) (hb : 1 ≤ b ∧ b < 64) :
    RingsFit (eventQueueEmulator f b) := by
  intro lane
  cases lane with
  | fast => exact hf
  | bulk => exact hb

/-- The first loop goes on to the second when it has found the fast ring empty. -/
theorem drainFast_holds (hfit : RingsFit (eventQueueEmulator f b)) (hholds : Holds c.state ringed)
    (hstep : drainFast behaviour c = some after) :
    after.loop ≠ .returned ∧ ∃ ringed', Holds after.state ringed' ∧
      (after.loop = .bulk → ringed' EmuLane.fast = []) := by
  obtain ⟨⟨next, found⟩, hdispatch, rfl⟩ := Option.map_eq_some_iff.mp hstep
  rcases hholds.dispatchOne hfit hdispatch with
    ⟨rfl, rfl, hnil⟩ | ⟨_, _, ringed', _, rfl, _, hnext, _, _, _⟩
  · exact ⟨nofun, ringed, hholds, fun _ => hnil⟩
  · exact ⟨nofun, ringed', hnext, nofun⟩

/-- `dispatchPriority` takes its bulk message when the first loop has ended. -/
theorem dispatchPriority_fastFirst (hfit : RingsFit (eventQueueEmulator f b))
    (hstart : ∃ ringed, Holds start ringed) : FastFirst (dispatchPriority behaviour start) := by
  intro c hreach htakes
  have hinv : ∃ ringed, Holds c.state ringed ∧ (c.loop = .bulk → ringed EmuLane.fast = []) := by
    refine hreach.invariant (fun c => ∃ ringed, Holds c.state ringed ∧
      (c.loop = .bulk → ringed EmuLane.fast = [])) ?_ ?_
    · obtain ⟨ringed, hholds⟩ := hstart
      exact ⟨ringed, hholds, nofun⟩
    · rintro c next _ ⟨ringed, hholds, _⟩ hstep
      simp only [dispatchPriority] at hstep
      split at hstep
      · exact (drainFast_holds hfit hholds hstep).2
      · obtain ⟨⟨after, found⟩, hdispatch, rfl⟩ := Option.map_eq_some_iff.mp hstep
        rcases hholds.dispatchOne hfit hdispatch with
          ⟨rfl, rfl, _⟩ | ⟨_, _, ringed', _, rfl, _, hnext, _, _, _⟩
        · exact ⟨ringed, hholds, nofun⟩
        · exact ⟨ringed', hnext, nofun⟩
      · cases hstep
  obtain ⟨ringed, hholds, hfast⟩ := hinv
  exact (hholds.ringEmpty_iff (hfit EmuLane.fast).2).mpr (hfast htakes.1)

/-- A turn of the second loop of `dispatchAll`. -/
theorem drainBulk_holds (hfit : RingsFit (eventQueueEmulator f b)) (hholds : Holds c.state ringed)
    (hloop : c.loop = .bulk) (hstep : (dispatchAll behaviour start).step c () = some after) :
    (after.loop = .returned ∧ after.state = c.state ∧ ringed EmuLane.bulk = []) ∨
    (after.loop = .bulk ∧ ∃ ringed', Holds after.state ringed' ∧
      (ringed' EmuLane.fast).length = (ringed EmuLane.fast).length +
        posted behaviour c.state.m_topics EmuLane.fast c.state.trace
          (after.state.trace.drop c.state.trace.length)) := by
  simp only [dispatchAll, hloop] at hstep
  obtain ⟨⟨next, found⟩, hdispatch, rfl⟩ := Option.map_eq_some_iff.mp hstep
  rcases hholds.dispatchOne hfit hdispatch with
    ⟨rfl, rfl, hnil⟩ | ⟨rest, _, ringed', events, rfl, _, hnext, _, htrace, hlength⟩
  · exact .inl ⟨rfl, rfl, hnil⟩
  · refine .inr ⟨rfl, ringed', hnext, ?_⟩
    have hfast := hlength EmuLane.fast
    have hevents : next.trace.drop c.state.trace.length = events := by
      rw [htrace, List.drop_left]
    rw [hevents, hfast]
    rfl

theorem dispatchAll_holds (hfit : RingsFit (eventQueueEmulator f b))
    (hstart : ∃ ringed, Holds start ringed) (hreach : (dispatchAll behaviour start).Reachable c) :
    ∃ ringed, Holds c.state ringed := by
  refine hreach.invariant (fun c => ∃ ringed, Holds c.state ringed) hstart ?_
  rintro c next _ ⟨ringed, hholds⟩ hstep
  cases hloop : c.loop with
  | drainFast =>
      simp only [dispatchAll, hloop] at hstep
      obtain ⟨_, ringed', hnext, _⟩ := drainFast_holds hfit hholds hstep
      exact ⟨ringed', hnext⟩
  | bulk =>
      rcases drainBulk_holds hfit hholds hloop hstep with ⟨_, hsame, _⟩ | ⟨_, ringed', hnext, _⟩
      · exact ⟨ringed, hsame ▸ hholds⟩
      · exact ⟨ringed', hnext⟩
  | returned => simp [dispatchAll, hloop] at hstep

/-- If the bulk callbacks queue nothing on the fast ring, it stays empty in the
second loop. -/
theorem dispatchAll_keepsFast (hfit : RingsFit (eventQueueEmulator f b))
    (hstart : ∃ ringed, Holds start ringed)
    (hnone : BulkQueuesNoFast behaviour (dispatchAll behaviour start))
    (hreach : (dispatchAll behaviour start).Reachable c) :
    ∃ ringed, Holds c.state ringed ∧ (c.loop ≠ .drainFast → ringed EmuLane.fast = []) ∧
      (c.loop = .returned → ringed EmuLane.bulk = []) := by
  induction hreach with
  | init =>
      obtain ⟨ringed, hholds⟩ := hstart
      exact ⟨ringed, hholds, fun hloop => absurd rfl hloop, nofun⟩
  | @step c next _ hreach _ hstep ih =>
      obtain ⟨ringed, hholds, hfast, _⟩ := ih
      cases hloop : c.loop with
      | drainFast =>
          simp only [dispatchAll, hloop] at hstep
          obtain ⟨hnotReturned, ringed', hnext, hempty⟩ := drainFast_holds hfit hholds hstep
          refine ⟨ringed', hnext, fun hdone => hempty ?_, fun hreturned =>
            absurd hreturned hnotReturned⟩
          cases hafter : next.loop with
          | drainFast => exact absurd hafter hdone
          | bulk => rfl
          | returned => exact absurd hafter hnotReturned
      | bulk =>
          have hempty : ringed EmuLane.fast = [] := hfast (by simp [hloop])
          rcases drainBulk_holds hfit hholds hloop hstep with
            ⟨_, hsame, hbulk⟩ | ⟨hagain, ringed', hnext, hlength⟩
          · exact ⟨ringed, hsame ▸ hholds, fun _ => hempty, fun _ => hbulk⟩
          · refine ⟨ringed', hnext, fun _ => ?_, fun hreturned => by simp [hagain] at hreturned⟩
            rw [hempty, hnone c next hreach hloop hstep] at hlength
            exact List.length_eq_zero_iff.mp hlength
      | returned => simp [dispatchAll, hloop] at hstep

/-- A bulk callback that has queued a message on the fast ring is followed by a
bulk message that is taken before it, or by the return. -/
theorem dispatchAll_breaks (hfit : RingsFit (eventQueueEmulator f b))
    (hstart : ∃ ringed, Holds start ringed)
    (hfirst : FastFirst (dispatchAll behaviour start))
    (hboth : DrainsBoth (dispatchAll behaviour start)) :
    BulkQueuesNoFast behaviour (dispatchAll behaviour start) := by
  intro c next hreach hloop hstep
  obtain ⟨ringed, hholds⟩ := dispatchAll_holds hfit hstart hreach
  rcases drainBulk_holds hfit hholds hloop hstep with
    ⟨_, hsame, _⟩ | ⟨hagain, ringed', hnext, hlength⟩
  · rw [hsame, List.drop_length]
    rfl
  · have hreachNext := hreach.next hstep
    have hfast : ringed' EmuLane.fast = [] := by
      by_cases hbulk : ringed' EmuLane.bulk = []
      · -- the next test ends the loop
        have hlast : (dispatchAll behaviour start).step next () =
            some ⟨.returned, countUp next.count false, next.state⟩ := by
          simp [dispatchAll, hagain, hnext.dispatchOne_nil hfit hbulk]
        have hempty := hboth _ (hreachNext.next hlast) rfl EmuLane.fast
        exact (hnext.ringEmpty_iff (hfit EmuLane.fast).2).mp hempty
      · have htakes : next.TakesBulk := ⟨hagain, (hnext.takes_iff hfit EmuLane.bulk).mpr hbulk⟩
        exact (hnext.ringEmpty_iff (hfit EmuLane.fast).2).mp (hfirst next hreachNext htakes)
    rw [hfast, List.length_nil] at hlength
    omega

/-- **Critical messages first.**  `dispatchPriority` keeps the guarantee whatever
the callbacks post; `dispatchAll` does exactly if its bulk callbacks queue nothing
on the fast ring. -/
theorem priority_guarantee (hf : 1 ≤ f ∧ f < 64) (hb : 1 ≤ b ∧ b < 64)
    (behaviour : Behaviour (eventQueueEmulator f b)) (s : State (eventQueueEmulator f b))
    (hrings : ∃ queued, Holds s queued) :
    FastFirst (dispatchPriority behaviour s) ∧
      ((FastFirst (dispatchAll behaviour s) ∧ DrainsBoth (dispatchAll behaviour s)) ↔
        BulkQueuesNoFast behaviour (dispatchAll behaviour s)) := by
  have hfit := ringsFit_eventQueueEmulator hf hb
  refine ⟨dispatchPriority_fastFirst hfit hrings, ?_, ?_⟩
  · rintro ⟨hfirst, hboth⟩
    exact dispatchAll_breaks hfit hrings hfirst hboth
  · intro hnone
    constructor
    · intro c hreach htakes
      obtain ⟨ringed, hholds, hfast, _⟩ := dispatchAll_keepsFast hfit hrings hnone hreach
      exact (hholds.ringEmpty_iff (hfit EmuLane.fast).2).mpr (hfast (by simp [htakes.1]))
    · intro c hreach hreturned lane
      obtain ⟨ringed, hholds, hfast, hbulk⟩ := dispatchAll_keepsFast hfit hrings hnone hreach
      apply (hholds.ringEmpty_iff (hfit lane).2).mpr
      cases lane with
      | fast => exact hfast (by simp [hreturned])
      | bulk => exact hbulk hreturned

/-- The first callback posts a byte to topic 1 by `postFast`. -/
def postsFastOnce : Behaviour (eventQueueEmulator 1 1)
  | [_] => [⟨EmuLane.fast, 1, some [3], 1⟩]
  | _ => []

/-- Observers of the topics 0 and 1, and two bulk messages for topic 0. -/
def twoBulk : State (eventQueueEmulator 1 1) :=
  (run postsFastOnce (init (eventQueueEmulator 1 1))
    [.addObserver 0 ⟨1, 7⟩, .addObserver 1 ⟨2, 8⟩, .post ⟨EmuLane.bulk, 0, some [4], 1⟩,
      .post ⟨EmuLane.bulk, 0, some [5], 1⟩]).getD (init _)

theorem holds_twoBulk : ∃ queued, Holds twoBulk queued :=
  exists_holds_run (ringsFit_eventQueueEmulator (by decide) (by decide)) postsFastOnce _

theorem priority_guarantee_twoBulk :
    FastFirst (dispatchPriority postsFastOnce twoBulk) ∧
      ((FastFirst (dispatchAll postsFastOnce twoBulk) ∧
          DrainsBoth (dispatchAll postsFastOnce twoBulk)) ↔
        BulkQueuesNoFast postsFastOnce (dispatchAll postsFastOnce twoBulk)) :=
  priority_guarantee (by decide) (by decide) postsFastOnce twoBulk holds_twoBulk

/-- A bulk message is next while the fast ring has one. -/
def bulkOvertakes (c : Draining 1 1) : Bool :=
  decide (c.loop = .bulk) &&
    (((c.state.queue EmuLane.bulk).pop (2 ^ 1)).bind Prod.snd).isSome &&
    !((c.state.queue EmuLane.fast).m_queue.contents (2 ^ 1)).isEmpty

/-- **The second bulk message is taken before the critical one** that the callback
of the first has posted. -/
theorem dispatchAll_not_fastFirst :
    ¬ ∀ (behaviour : Behaviour (eventQueueEmulator 1 1)) (s : State (eventQueueEmulator 1 1)),
      (∃ queued, Holds s queued) → FastFirst (dispatchPriority behaviour s) ∧
        FastFirst (dispatchAll behaviour s) ∧ DrainsBoth (dispatchAll behaviour s) := by
  intro hclaim
  obtain ⟨c, hreach, htest⟩ := (dispatchAll postsFastOnce twoBulk).exists_reachable_of_run
    [(), ()] bulkOvertakes (by decide +kernel)
  simp only [bulkOvertakes, Bool.and_eq_true, decide_eq_true_eq] at htest
  obtain ⟨⟨hloop, hpop⟩, hfast⟩ := htest
  obtain ⟨msg, hmsg⟩ := Option.isSome_iff_exists.mp hpop
  obtain ⟨⟨queue, item⟩, hpop, rfl⟩ := Option.bind_eq_some_iff.mp hmsg
  have hempty : (c.state.queue EmuLane.fast).m_queue.contents (2 ^ 1) = [] :=
    (hclaim postsFastOnce twoBulk holds_twoBulk).2.1 c hreach ⟨hloop, queue, msg, hpop⟩
  rw [hempty] at hfast
  cases hfast

end MessageCenter.SnapshotQueue.Priority
