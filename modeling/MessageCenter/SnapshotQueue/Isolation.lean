import MessageCenter.SnapshotQueue.SharedBatch

/-!
# Isolation of the batch queues

Calls on one queue leave what the others hold alone, and what a queue pushes,
dispatches and returns to its pool was posted through it, as long as each flush
of the common `t_batch` finds messages of its own queue only.  The proof follows
the message objects: each is in the ring, in the pool, in the batch buffer or in
the hands of a call on the queue through which it was posted.
-/

namespace MessageCenter.SnapshotQueue.SharedBatch

open Concurrency ObjectPoolLockFree PooledQueue
open Concurrent (managedOf BATCH_SIZE)

/-! ### What a queue will dispatch -/

/-- The messages in `t_batch` that were posted through `q`. -/
def State.batchOf (s : State) (q : QueueId) : List Addr :=
  s.t_batch.filter fun msg => s.origin msg = some q

/-- The dispatches in progress on `q`. -/
def State.framesOf (s : State) (q : QueueId) : List Frame :=
  s.stack.filter fun frame => frame.queue = q

/-- A message object with its managed payload. -/
def State.content (s : State) (msg : Addr) : SnapshotMessage × Option RefCountedPayload :=
  (s.memory.objects msg, (managedOf (s.memory.objects msg)).bind s.payloads.live)

/-- The messages that `q` is dispatching or has still to dispatch. -/
def Waiting (k : Nat) (s : State) (q : QueueId) (msg : Addr) : Prop :=
  msg ∈ (s.queue q).m_queue.contents (2 ^ k) ∨ msg ∈ s.batchOf q ∨
    ∃ frame ∈ s.framesOf q, msg ∈ frame.batch

/-- What `q` will dispatch is the same: the ring and the pool, the messages in
`t_batch`, the dispatches in progress, and the contents of all these messages. -/
structure Untouched (k : Nat) (s next : State) (q : QueueId) : Prop where
  queue : next.queue q = s.queue q
  topics : next.m_topics q = s.m_topics q
  batch : next.batchOf q = s.batchOf q
  frames : next.framesOf q = s.framesOf q
  content : ∀ msg, Waiting k s q msg → next.content msg = s.content msg

/-- The queue that an action works on. -/
def Action.queue (s : State) : Action → Option QueueId
  | .construct => some s.live
  | .addObserver q _ _ => some q
  | .post q _ _ _ => some q
  | .postBatched q _ _ _ => some q
  | .flushBatch q => some q
  | .dispatchOne q => some q
  | .dispatchBatch q _ => some q
  | .proceed => s.stack.head?.map Frame.queue

/-- The queue into whose ring an action flushes `t_batch`: that of `flushBatch`, and
that of a `postBatched` that fills the buffer. -/
def Action.flushes (s : State) : Action → Option QueueId
  | .flushBatch q => some q
  | .postBatched q topicId _ _ =>
      if topicId < BATCH_MAX_TOPICS ∧ (s.m_topics q topicId).count ≠ 0 ∧
          s.t_batch.length + 1 ≥ BATCH_SIZE then some q
      else none
  | _ => none

/-- A flush finds only messages in `t_batch` that were posted through its queue. -/
def FlushesOwn (s : State) (action : Action) : Prop :=
  ∀ q, action.flushes s = some q → ∀ msg ∈ s.t_batch, s.origin msg = some q

theorem Untouched.refl (k : Nat) (s : State) (q : QueueId) : Untouched k s s q :=
  ⟨rfl, rfl, rfl, rfl, fun _ _ => rfl⟩

theorem Untouched.waiting {k : Nat} {s next : State} {q : QueueId} {msg : Addr}
    (huntouched : Untouched k s next q) (hwaiting : Waiting k s q msg) : Waiting k next q msg := by
  rw [Waiting, huntouched.queue, huntouched.batch, huntouched.frames]
  exact hwaiting

theorem Untouched.trans {k : Nat} {s middle next : State} {q : QueueId}
    (hfirst : Untouched k s middle q) (hsecond : Untouched k middle next q) :
    Untouched k s next q where
  queue := hsecond.queue.trans hfirst.queue
  topics := hsecond.topics.trans hfirst.topics
  batch := hsecond.batch.trans hfirst.batch
  frames := hsecond.frames.trans hfirst.frames
  content msg hwaiting :=
    (hsecond.content msg (hfirst.waiting hwaiting)).trans (hfirst.content msg hwaiting)

/-! ### The invariant -/

/-- The message objects outside of ring and pool: `hands` are those of the call that
is being made. -/
def State.holds (s : State) (hands : QueueId → List Addr) (q : QueueId) : List Addr :=
  hands q ++ (s.batchOf q ++ (s.framesOf q).flatMap Frame.batch)

/-- All objects of `q`. -/
def State.account (s : State) (queued hands : QueueId → List Addr) (q : QueueId) : List Addr :=
  queued q ++ s.holds hands q ++ (s.queue q).m_freeList ++ (s.queue q).deleted

/-- The objects of `q` that are messages on their way. -/
def State.flight (s : State) (queued hands : QueueId → List Addr) (q : QueueId) : List Addr :=
  queued q ++ s.holds hands q

structure Inv (k : Nat) (s : State) (queued hands : QueueId → List Addr) : Prop where
  carries : ∀ q, Carries k s.memory (s.queue q) (queued q) (s.holds hands q)
  apart : ∀ q q' msg, msg ∈ s.account queued hands q → msg ∈ s.account queued hands q' → q = q'
  origins : ∀ q, ∀ msg ∈ s.flight queued hands q, s.origin msg = some q
  batch : ∀ msg ∈ s.t_batch, ∃ q, s.origin msg = some q
  payloads : ∀ q, ∀ msg ∈ s.flight queued hands q, ∀ q', ∀ msg' ∈ s.flight queued hands q', ∀ id,
    managedOf (s.memory.objects msg) = some id → managedOf (s.memory.objects msg') = some id →
    msg = msg'
  old : ∀ q, ∀ msg ∈ s.flight queued hands q, ∀ id,
    managedOf (s.memory.objects msg) = some id → id < s.payloads.nextPayload
  unborn : ∀ q, s.live ≤ q → s.flight queued hands q = []

variable {k : Nat} {s middle next : State}
  {queued hands queued' hands' queuedNext handsNext : QueueId → List Addr} {q : QueueId} {msg : Addr}

theorem mem_account_of_mem_flight (hmem : msg ∈ s.flight queued hands q) :
    msg ∈ s.account queued hands q :=
  List.mem_append_left _ (List.mem_append_left _ hmem)

theorem Inv.mem_flight_of_waiting (hinv : Inv k s queued hands) (hk : k < 64)
    (hwaiting : Waiting k s q msg) : msg ∈ s.flight queued hands q := by
  rcases hwaiting with hmem | hmem | ⟨frame, hframe, hmem⟩
  · rw [(hinv.carries q).contents_eq hk] at hmem
    exact List.mem_append_left _ hmem
  · exact List.mem_append_right _ (List.mem_append_right _ (List.mem_append_left _ hmem))
  · exact List.mem_append_right _ (List.mem_append_right _ (List.mem_append_right _
      (List.mem_flatMap.mpr ⟨frame, hframe, hmem⟩)))

/-- A part of a call on `q`: the invariant is kept, the other queues are left alone,
and what becomes of a message happens at its own queue. -/
structure Works (k : Nat) (q : QueueId) (s next : State)
    (queued' hands' : QueueId → List Addr) : Prop where
  inv : Inv k next queued' hands'
  untouched : ∀ q', q' ≠ q → Untouched k s next q'
  trace : ∀ event ∈ next.trace, event ∈ s.trace ∨ event.origin = some event.queue

theorem Works.refl (q : QueueId) (hinv : Inv k s queued hands) : Works k q s s queued hands :=
  ⟨hinv, fun _ _ => Untouched.refl k s _, fun _ hmem => Or.inl hmem⟩

theorem Works.trans (hfirst : Works k q s middle queued' hands')
    (hsecond : Works k q middle next queuedNext handsNext) :
    Works k q s next queuedNext handsNext where
  inv := hsecond.inv
  untouched q' hne := (hfirst.untouched q' hne).trans (hsecond.untouched q' hne)
  trace event hmem := by
    rcases hsecond.trace event hmem with hold | hown
    · exact hfirst.trace event hold
    · exact Or.inr hown

/-- The step changes no message and nothing that belongs to other queues. -/
structure Moves (q : QueueId) (s next : State) : Prop where
  memory : next.memory = s.memory
  origin : next.origin = s.origin
  payloads : next.payloads = s.payloads
  live : next.live = s.live
  topics : next.m_topics = s.m_topics
  queue : ∀ q', q' ≠ q → next.queue q' = s.queue q'
  batch : ∀ q', q' ≠ q → next.batchOf q' = s.batchOf q'
  frames : ∀ q', q' ≠ q → next.framesOf q' = s.framesOf q'

theorem Moves.untouched (hmoves : Moves q s next) {q' : QueueId} (hne : q' ≠ q) :
    Untouched k s next q' := by
  refine ⟨hmoves.queue q' hne, by rw [hmoves.topics], hmoves.batch q' hne, hmoves.frames q' hne,
    fun msg _ => ?_⟩
  rw [State.content, hmoves.memory, hmoves.payloads, State.content]

/-- Objects of `q` that move from place to place keep the invariant. -/
theorem Inv.works (hinv : Inv k s queued hands) (hmoves : Moves q s next)
    (hqueued : ∀ q', q' ≠ q → queued' q' = queued q')
    (hhands : ∀ q', q' ≠ q → hands' q' = hands q')
    (hcarries : Carries k s.memory (next.queue q) (queued' q) (next.holds hands' q))
    (haccount : ∀ msg ∈ next.account queued' hands' q, msg ∈ s.account queued hands q)
    (hflight : ∀ msg ∈ next.flight queued' hands' q, msg ∈ s.flight queued hands q)
    (hbatch : ∀ msg ∈ next.t_batch, ∃ q, s.origin msg = some q)
    (htrace : ∀ event ∈ next.trace, event ∈ s.trace ∨ event.origin = some event.queue) :
    Works k q s next queued' hands' := by
  have hholds : ∀ q', q' ≠ q → next.holds hands' q' = s.holds hands q' := by
    intro q' hne
    rw [State.holds, hmoves.batch q' hne, hmoves.frames q' hne, hhands q' hne, State.holds]
  have hflightEq : ∀ q', q' ≠ q → next.flight queued' hands' q' = s.flight queued hands q' := by
    intro q' hne
    rw [State.flight, hholds q' hne, hqueued q' hne, State.flight]
  have hflights : ∀ q', ∀ msg ∈ next.flight queued' hands' q', msg ∈ s.flight queued hands q' := by
    intro q' msg hmem
    by_cases heq : q' = q
    · exact heq ▸ hflight msg (heq ▸ hmem)
    · exact hflightEq q' heq ▸ hmem
  have haccounts : ∀ q', ∀ msg ∈ next.account queued' hands' q',
      msg ∈ s.account queued hands q' := by
    intro q' msg hmem
    by_cases heq : q' = q
    · exact heq ▸ haccount msg (heq ▸ hmem)
    · rw [State.account, hholds q' heq, hqueued q' heq, hmoves.queue q' heq] at hmem
      exact hmem
  refine ⟨⟨fun q' => ?_, fun q' q'' msg hmem hmem' => ?_, fun q' msg hmem => ?_, fun msg hmem => ?_,
    fun q' msg hmem q'' msg' hmem' id => ?_, fun q' msg hmem id => ?_, fun q' hle => ?_⟩,
    fun q' hne => hmoves.untouched hne, htrace⟩
  · by_cases heq : q' = q
    · subst heq
      rw [hmoves.memory]
      exact hcarries
    · rw [hmoves.memory, hmoves.queue q' heq, hqueued q' heq, hholds q' heq]
      exact hinv.carries q'
  · exact hinv.apart q' q'' msg (haccounts q' msg hmem) (haccounts q'' msg hmem')
  · rw [hmoves.origin]
    exact hinv.origins q' msg (hflights q' msg hmem)
  · rw [hmoves.origin]
    exact hbatch msg hmem
  · rw [hmoves.memory]
    exact hinv.payloads q' msg (hflights q' msg hmem) q'' msg' (hflights q'' msg' hmem') id
  · rw [hmoves.memory, hmoves.payloads]
    exact hinv.old q' msg (hflights q' msg hmem) id
  · rw [hmoves.live] at hle
    refine List.eq_nil_iff_forall_not_mem.mpr fun msg hmem => ?_
    have hold := hflights q' msg hmem
    rw [hinv.unborn q' hle] at hold
    cases hold

/-! ### Ring and pool -/

theorem State.setQueue_other {queue : PooledQueue} {q' : QueueId} (hne : q' ≠ q) :
    (s.setQueue q queue).queue q' = s.queue q' :=
  Function.update_of_ne hne _ _

theorem State.setQueue_self {queue : PooledQueue} : (s.setQueue q queue).queue q = queue :=
  Function.update_self _ _ _

theorem State.mem_log {event other : Event} (hmem : other ∈ (s.log event).trace)
    (hown : event.origin = some event.queue) :
    other ∈ s.trace ∨ other.origin = some other.queue := by
  rcases List.mem_append.mp hmem with hmem | hmem
  · exact Or.inl hmem
  · rw [List.mem_singleton.mp hmem]
    exact Or.inr hown

theorem Inv.origin_of_hands (hinv : Inv k s queued hands) (hmem : msg ∈ hands q) :
    s.origin msg = some q :=
  hinv.origins q msg (List.mem_append_right _ (List.mem_append_left _ hmem))

variable {rest : List Addr}

/-- A step that changes the queue object `q` and the trace only: `items` are in the
ring afterwards and `hand` in the hands of the call. -/
theorem Inv.works_queue (hinv : Inv k s queued hands) (queue : PooledQueue)
    (trace : List Event) (items hand : List Addr)
    (hcarries : Carries k s.memory queue items
      (hand ++ (s.batchOf q ++ (s.framesOf q).flatMap Frame.batch)))
    (hflight : ∀ msg, msg ∈ items ∨ msg ∈ hand → msg ∈ queued q ∨ msg ∈ hands q)
    (hpool : ∀ msg ∈ queue.m_freeList ++ queue.deleted,
      msg ∈ hands q ∨ msg ∈ (s.queue q).m_freeList ++ (s.queue q).deleted)
    (htrace : ∀ event ∈ trace, event ∈ s.trace ∨ event.origin = some event.queue) :
    Works k q s { s.setQueue q queue with trace := trace } (Function.update queued q items)
      (Function.update hands q hand) := by
  have hmoves : Moves q s { s.setQueue q queue with trace := trace } :=
    ⟨rfl, rfl, rfl, rfl, rfl, fun _ hne => State.setQueue_other hne, fun _ _ => rfl,
      fun _ _ => rfl⟩
  have hmem : ∀ msg, msg ∈ items ++ (hand ++ (s.batchOf q ++
      (s.framesOf q).flatMap Frame.batch)) → msg ∈ s.flight queued hands q := by
    intro msg hmem
    have hsplit := hflight msg
    simp only [State.flight, State.holds, List.mem_append] at hmem ⊢
    tauto
  refine hinv.works hmoves (fun q' hne => Function.update_of_ne hne _ _)
    (fun q' hne => Function.update_of_ne hne _ _) ?_ ?_ ?_ hinv.batch htrace
  · rw [State.holds, Function.update_self, Function.update_self]
    simp only [State.setQueue_self]
    exact hcarries
  · intro msg haccount
    rw [State.account, State.holds, Function.update_self, Function.update_self] at haccount
    simp only [State.setQueue_self] at haccount
    rw [List.append_assoc, List.mem_append] at haccount
    rcases haccount with hin | hin
    · exact mem_account_of_mem_flight (hmem msg hin)
    · rcases hpool msg hin with hhand | hold
      · exact mem_account_of_mem_flight (List.mem_append_right _ (List.mem_append_left _ hhand))
      · rw [State.account, List.append_assoc]
        exact List.mem_append_right _ hold
  · intro msg hin
    rw [State.flight, State.holds, Function.update_self, Function.update_self] at hin
    exact hmem msg hin

/-- A push takes a message out of the hands of a call. -/
theorem Inv.push (hinv : Inv k s queued hands) (hone : 1 ≤ k) (hk : k < 64)
    (hhands : hands q = msg :: rest) (hpush : push k s q msg = some next) :
    Works k q s next (Function.update queued q (queued q ++ [msg]))
      (Function.update hands q rest) := by
  obtain ⟨queue, hqueue, rfl⟩ := Option.map_eq_some_iff.mp hpush
  have hcarries := hinv.carries q
  rw [State.holds, hhands, List.cons_append] at hcarries
  obtain ⟨after, hafter, hsent⟩ := hcarries.push hk (hcarries.room_of_push hone hk hqueue)
  obtain rfl : queue = after := Option.some.inj (hqueue.symm.trans hafter)
  obtain ⟨hfree, hdeleted⟩ := push_pool hqueue
  have hown : s.origin msg = some q :=
    hinv.origin_of_hands (hhands ▸ List.mem_cons_self ..)
  refine hinv.works_queue queue _ _ _ hsent ?_ ?_ ?_
  · intro other hmem
    rw [hhands, List.mem_append, List.mem_singleton] at *
    rw [List.mem_cons]
    tauto
  · intro other hmem
    rw [hfree, hdeleted] at hmem
    exact Or.inr hmem
  · intro event hmem
    exact State.mem_log hmem hown

/-- A pop puts the oldest message into the hands of a call. -/
theorem Inv.take {queue : PooledQueue} (hinv : Inv k s queued hands) (hk : k < 64)
    (hpop : (s.queue q).pop (2 ^ k) = some (queue, some msg)) :
    ∃ items, queued q = msg :: items ∧
      Works k q s ((s.setQueue q queue).log (.dispatched q (s.origin msg)))
        (Function.update queued q items) (Function.update hands q (msg :: hands q)) := by
  have hcarries := hinv.carries q
  cases hqueued : queued q with
  | nil =>
      rw [hqueued] at hcarries
      rw [hcarries.pop_nil hk] at hpop
      cases hpop
  | cons first items =>
      rw [hqueued] at hcarries
      obtain ⟨after, hafter, htaken⟩ := hcarries.pop_cons hk
      obtain ⟨hfree, hdeleted⟩ := pop_pool hpop
      simp only [hpop, Option.some.injEq, Prod.mk.injEq] at hafter
      obtain ⟨rfl, rfl⟩ := hafter
      refine ⟨items, rfl, hinv.works_queue queue _ _ _ htaken ?_ ?_ ?_⟩
      · intro other hmem
        rw [List.mem_cons] at *
        rw [hqueued, List.mem_cons]
        tauto
      · intro other hmem
        rw [hfree, hdeleted] at hmem
        exact Or.inr hmem
      · intro event hmem
        refine State.mem_log hmem (hinv.origins q msg (List.mem_append_left _ ?_))
        rw [hqueued]
        exact List.mem_cons_self ..

/-- The ring was empty. -/
theorem Inv.take_none {queue : PooledQueue} (hinv : Inv k s queued hands) (hk : k < 64)
    (hpop : (s.queue q).pop (2 ^ k) = some (queue, none)) : s.setQueue q queue = s := by
  have hcarries := hinv.carries q
  cases hqueued : queued q with
  | nil =>
      rw [hqueued] at hcarries
      rw [hcarries.pop_nil hk] at hpop
      simp only [Option.some.injEq, Prod.mk.injEq, and_true] at hpop
      rw [← hpop, State.setQueue, Function.update_eq_self]
  | cons first items =>
      rw [hqueued] at hcarries
      obtain ⟨after, hafter, _⟩ := hcarries.pop_cons hk
      simp [hpop] at hafter

/-- A message in the hands of a call goes back to the pool. -/
theorem Inv.release (hinv : Inv k s queued hands)
    (hhands : hands q = msg :: rest) :
    Works k q s ((s.setQueue q ((s.queue q).release 16384 msg)).log (.released q (s.origin msg)))
      queued (Function.update hands q rest) := by
  have hcarries := hinv.carries q
  rw [State.holds, hhands, List.cons_append] at hcarries
  have hown : s.origin msg = some q :=
    hinv.origin_of_hands (hhands ▸ List.mem_cons_self ..)
  rw [← Function.update_eq_self q queued]
  refine hinv.works_queue _ _ _ _ (hcarries.release 16384) ?_ ?_ ?_
  · intro other hmem
    rw [hhands, List.mem_cons]
    tauto
  · intro other hmem
    rw [hhands, List.mem_cons]
    have hpool := release_pool 16384 (s.queue q) msg other hmem
    tauto
  · intro event hmem
    exact State.mem_log hmem hown

/-! ### Hands, batch buffer and dispatches -/

/-- A step that changes `t_batch` and the stack only: the objects that `q` holds
outside of ring and pool stay the same. -/
theorem Inv.works_hands (hinv : Inv k s queued hands) (t_batch : List Addr)
    (stack : List Frame) (hand : List Addr)
    (hbatchOf : ∀ q', q' ≠ q → ({ s with t_batch := t_batch, stack := stack } : State).batchOf q' =
      s.batchOf q')
    (hframesOf : ∀ q', q' ≠ q →
      ({ s with t_batch := t_batch, stack := stack } : State).framesOf q' = s.framesOf q')
    (hperm : (({ s with t_batch := t_batch, stack := stack } : State).holds
      (Function.update hands q hand) q).Perm (s.holds hands q))
    (hbatch : ∀ msg ∈ t_batch, ∃ q, s.origin msg = some q) :
    Works k q s { s with t_batch := t_batch, stack := stack } queued
      (Function.update hands q hand) := by
  refine hinv.works ⟨rfl, rfl, rfl, rfl, rfl, fun _ _ => rfl, hbatchOf, hframesOf⟩
    (fun _ _ => rfl) (fun q' hne => Function.update_of_ne hne _ _) ?_ ?_ ?_ hbatch
    (fun event hmem => Or.inl hmem)
  · refine (hinv.carries q).of_perm (hinv.carries q).ring ?_
    exact ((hperm.append_left _).append_right _).append_right _
  · intro msg hmem
    exact (((hperm.append_left _).append_right _).append_right _).subset hmem
  · intro msg hmem
    exact (hperm.append_left _).subset hmem

theorem State.framesOf_cons (frame : Frame) (below : List Frame) :
    ({ s with stack := frame :: below } : State).framesOf frame.queue =
      frame :: ({ s with stack := below } : State).framesOf frame.queue := by
  simp [State.framesOf]

theorem State.framesOf_cons_other {frame : Frame} {below : List Frame} (hne : q ≠ frame.queue) :
    ({ s with stack := frame :: below } : State).framesOf q =
      ({ s with stack := below } : State).framesOf q := by
  simp [State.framesOf, Ne.symm hne]

/-- `t_batch.msgs[t_batch.count++] = msg` -/
theorem Inv.accumulate (hinv : Inv k s queued hands)
    (hhands : hands q = msg :: rest) :
    Works k q s { s with t_batch := s.t_batch ++ [msg] } queued (Function.update hands q rest) := by
  have hown : s.origin msg = some q :=
    hinv.origin_of_hands (hhands ▸ List.mem_cons_self ..)
  refine hinv.works_hands (s.t_batch ++ [msg]) s.stack rest ?_ (fun _ _ => rfl) ?_ ?_
  · intro q' hne
    simp [State.batchOf, hown, Ne.symm hne]
  · rw [State.holds, State.holds, Function.update_self, hhands]
    have hbatch : ({ s with t_batch := s.t_batch ++ [msg] } : State).batchOf q =
        s.batchOf q ++ [msg] := by
      simp [State.batchOf, hown]
    have hframes : ({ s with t_batch := s.t_batch ++ [msg] } : State).framesOf q =
        s.framesOf q := rfl
    rw [hbatch, hframes, List.append_assoc, List.singleton_append]
    exact (List.Perm.append_left rest List.perm_middle).trans List.perm_middle
  · intro other hmem
    rcases List.mem_append.mp hmem with hmem | hmem
    · exact hinv.batch other hmem
    · exact ⟨q, (List.mem_singleton.mp hmem) ▸ hown⟩

/-- A flush takes the messages out of the buffer; they are all of its queue. -/
theorem Inv.unload (hinv : Inv k s queued hands) (hhands : hands q = [])
    (hown : ∀ msg ∈ s.t_batch, s.origin msg = some q) :
    Works k q s { s with t_batch := [] } queued (Function.update hands q s.t_batch) := by
  have hall : s.batchOf q = s.t_batch :=
    List.filter_eq_self.mpr fun msg hmem => by simp [hown msg hmem]
  refine hinv.works_hands [] s.stack s.t_batch ?_ (fun _ _ => rfl) ?_ ?_
  · intro q' hne
    have hnone : s.batchOf q' = [] :=
      List.filter_eq_nil_iff.mpr fun msg hmem => by simp [hown msg hmem, Ne.symm hne]
    rw [hnone]
    rfl
  · rw [State.holds, State.holds, Function.update_self, hhands, hall]
    exact List.Perm.refl _
  · exact fun _ hmem => absurd hmem List.not_mem_nil

/-- The messages that a dispatch has taken are its batch. -/
theorem Inv.enter (hinv : Inv k s queued hands) (frame : Frame)
    (hhands : (hands frame.queue).Perm frame.batch) :
    Works k frame.queue s { s with stack := frame :: s.stack } queued
      (Function.update hands frame.queue []) := by
  refine hinv.works_hands s.t_batch (frame :: s.stack) [] (fun _ _ => rfl) ?_ ?_ hinv.batch
  · exact fun q' hne => State.framesOf_cons_other hne
  · rw [State.holds, State.holds, Function.update_self, List.nil_append]
    simp only [State.framesOf_cons, List.flatMap_cons]
    refine List.perm_append_comm_assoc _ _ _ |>.trans ?_
    exact List.Perm.append_right _ hhands.symm

/-- The end of a dispatch. -/
theorem Inv.leave {frame : Frame} {below : List Frame} (hinv : Inv k s queued hands)
    (hstack : s.stack = frame :: below)
    (hhands : hands frame.queue = []) :
    Works k frame.queue s { s with stack := below } queued
      (Function.update hands frame.queue frame.batch) := by
  have hsame : ({ s with stack := frame :: below } : State) = s := by rw [← hstack]
  refine hinv.works_hands s.t_batch below frame.batch (fun _ _ => rfl) ?_ ?_ hinv.batch
  · intro q' hne
    rw [← hsame, State.framesOf_cons_other hne]
  · have hframes : s.framesOf frame.queue =
        frame :: ({ s with stack := below } : State).framesOf frame.queue := by
      rw [← State.framesOf_cons, hsame]
    rw [State.holds, State.holds, Function.update_self, hhands, List.nil_append, hframes,
      List.flatMap_cons]
    exact List.perm_append_comm_assoc _ _ _

/-- A dispatch goes on with its messages. -/
theorem Inv.advance {frame : Frame} {below : List Frame} (hinv : Inv k s queued hands)
    (after : Frame) (hstack : s.stack = frame :: below)
    (hqueue : after.queue = frame.queue) (hbatch : after.batch = frame.batch) :
    Works k frame.queue s { s with stack := after :: below } queued hands := by
  have hsame : ({ s with stack := frame :: below } : State) = s := by rw [← hstack]
  rw [← Function.update_eq_self frame.queue hands]
  refine hinv.works_hands s.t_batch (after :: below) _ (fun _ _ => rfl) ?_ ?_ hinv.batch
  · intro q' hne
    rw [← hsame, State.framesOf_cons_other hne, ← hqueue] at *
    exact State.framesOf_cons_other hne
  · have hbefore : s.framesOf frame.queue =
        frame :: ({ s with stack := below } : State).framesOf frame.queue := by
      rw [← State.framesOf_cons, hsame]
    have hafter : ({ s with stack := after :: below } : State).framesOf frame.queue =
        after :: ({ s with stack := below } : State).framesOf frame.queue := by
      rw [← hqueue, State.framesOf_cons]
    rw [State.holds, State.holds, Function.update_eq_self, hbefore, hafter, List.flatMap_cons,
      List.flatMap_cons, hbatch]
    exact List.Perm.refl _

/-! ### Loops -/

theorem update_hands {hand : List Addr} (hhands : hands q = hand) :
    Function.update hands q hand = hands := by
  rw [← hhands, Function.update_eq_self]

theorem Inv.flushMsgs {msgs : List Addr} (hinv : Inv k s queued hands) (hone : 1 ≤ k) (hk : k < 64)
    (hhands : hands q = msgs) (hflush : flushMsgs k q msgs s = some next) :
    ∃ queued', Works k q s next queued' (Function.update hands q []) := by
  induction msgs generalizing s queued hands with
  | nil =>
      obtain rfl := Option.some.inj hflush
      refine ⟨queued, ?_⟩
      rw [update_hands hhands]
      exact Works.refl q hinv
  | cons msg rest ih =>
      obtain ⟨middle, hpush, hrest⟩ := Option.bind_eq_some_iff.mp hflush
      have hfirst := hinv.push hone hk hhands hpush
      obtain ⟨queued', hsecond⟩ := ih hfirst.inv
        (Function.update_self q rest hands) hrest
      rw [Function.update_idem] at hsecond
      exact ⟨queued', hfirst.trans hsecond⟩

/-- The loop does not look at the counter of the buffer. -/
theorem flushMsgs_t_batch (t_batch msgs : List Addr) (s : State) :
    flushMsgs k q msgs { s with t_batch := t_batch } =
      (flushMsgs k q msgs s).map fun s => { s with t_batch := t_batch } := by
  induction msgs generalizing s with
  | nil => rfl
  | cons msg rest ih =>
      simp only [SharedBatch.flushMsgs, SharedBatch.push, State.setQueue, State.log]
      cases (s.queue q).push (2 ^ k) msg with
      | none => rfl
      | some queue => exact ih { s with
          queue := Function.update s.queue q queue
          trace := s.trace ++ [.pushed q (s.origin msg)] }

theorem Inv.flushBatch (hinv : Inv k s queued hands) (hone : 1 ≤ k) (hk : k < 64)
    (hhands : hands q = [])
    (hown : ∀ msg ∈ s.t_batch, s.origin msg = some q) (hflush : flushBatch k s q = some next) :
    ∃ queued', Works k q s next queued' hands := by
  rw [SharedBatch.flushBatch, ← flushMsgs_t_batch] at hflush
  have hfirst := hinv.unload hhands hown
  obtain ⟨queued', hsecond⟩ := hfirst.inv.flushMsgs hone hk
    (Function.update_self q s.t_batch hands) hflush
  rw [Function.update_idem, update_hands hhands] at hsecond
  exact ⟨queued', hfirst.trans hsecond⟩

theorem Inv.takeMsgs {n : Nat} {batch : List Addr} (hinv : Inv k s queued hands) (hk : k < 64)
    (htake : takeMsgs k q n s = some (next, batch)) :
    ∃ queued', Works k q s next queued' (Function.update hands q (batch.reverse ++ hands q)) := by
  induction n generalizing s queued hands next batch with
  | zero =>
      simp only [SharedBatch.takeMsgs, Option.some.injEq, Prod.mk.injEq] at htake
      obtain ⟨rfl, rfl⟩ := htake
      refine ⟨queued, ?_⟩
      rw [List.reverse_nil, List.nil_append, Function.update_eq_self]
      exact Works.refl q hinv
  | succ n ih =>
      rw [SharedBatch.takeMsgs] at htake
      split at htake
      · cases htake
      · rename_i queue hpop
        simp only [hinv.take_none hk hpop, Option.some.injEq, Prod.mk.injEq] at htake
        obtain ⟨rfl, rfl⟩ := htake
        refine ⟨queued, ?_⟩
        rw [List.reverse_nil, List.nil_append, Function.update_eq_self]
        exact Works.refl q hinv
      · rename_i queue msg hpop
        obtain ⟨⟨after, rest⟩, hrest, heq⟩ := Option.map_eq_some_iff.mp htake
        simp only [Prod.mk.injEq] at heq
        obtain ⟨rfl, rfl⟩ := heq
        obtain ⟨items, _, hfirst⟩ := hinv.take hk hpop
        obtain ⟨queued', hsecond⟩ := ih hfirst.inv hrest
        rw [Function.update_self, Function.update_idem] at hsecond
        refine ⟨queued', hfirst.trans ?_⟩
        simpa using hsecond

theorem Inv.dispatch {n : Nat} (hinv : Inv k s queued hands) (hk : k < 64)
    (hhands : hands q = []) (hdispatch : dispatch k s q n = some next) :
    ∃ queued', Works k q s next queued' hands := by
  obtain ⟨⟨after, batch⟩, htake, hnext⟩ := Option.map_eq_some_iff.mp hdispatch
  obtain ⟨queued', hfirst⟩ := hinv.takeMsgs hk htake
  rw [hhands, List.append_nil] at hfirst
  refine ⟨queued', ?_⟩
  simp only at hnext
  split at hnext
  · rename_i hempty
    subst hempty
    rw [List.reverse_nil, update_hands hhands] at hfirst
    exact hnext ▸ hfirst
  · have hbatch : (Function.update hands q batch.reverse q).Perm batch := by
      rw [Function.update_self]
      exact List.reverse_perm batch
    have hsecond := hfirst.inv.enter ⟨q, batch, 0, 0, false⟩ hbatch
    rw [Function.update_idem, update_hands hhands] at hsecond
    exact hnext ▸ hfirst.trans hsecond

theorem Inv.releaseMsgs {msgs : List Addr} (hinv : Inv k s queued hands)
    (hhands : hands q = msgs) :
    Works k q s (releaseMsgs q msgs s) queued (Function.update hands q []) := by
  induction msgs generalizing s hands with
  | nil =>
      rw [update_hands hhands]
      exact Works.refl q hinv
  | cons msg rest ih =>
      have hfirst := hinv.release hhands
      have hsecond := ih hfirst.inv (Function.update_self q rest hands)
      rw [Function.update_idem] at hsecond
      exact hfirst.trans hsecond

theorem releaseMsgs_stack (stack : List Frame) (msgs : List Addr) (s : State) :
    releaseMsgs q msgs { s with stack := stack } =
      { releaseMsgs q msgs s with stack := stack } := by
  induction msgs generalizing s with
  | nil => rfl
  | cons msg rest ih =>
      exact ih { s with
        queue := Function.update s.queue q ((s.queue q).release 16384 msg)
        trace := s.trace ++ [.released q (s.origin msg)] }

/-! ### `prepare` -/

/-- The payload of a filled message is inline, or the one just created. -/
theorem fill_managed (heap : PayloadHeap) (old : SnapshotMessage) (topicId count : Nat)
    (observers : Nat → Observer) (data : Option (List UInt8)) (size : Nat) :
    let filled := format.fill heap old topicId count observers data size
    heap.nextPayload ≤ filled.1.nextPayload ∧
      (∀ id, id < heap.nextPayload → filled.1.live id = heap.live id) ∧
      ∀ id, managedOf filled.2 = some id → id = heap.nextPayload ∧ id < filled.1.nextPayload := by
  simp only [format, snapshotFormat]
  split
  · refine ⟨Nat.le_refl _, fun _ _ => rfl, fun id hid => ?_⟩
    cases hid
  · refine ⟨by simp, fun id hlt => PayloadHeap.createFor_live_other _ _ _ (Nat.ne_of_lt hlt),
      fun id hid => ?_⟩
    simp only [managedOf, Bool.false_eq_true, if_false, PayloadUnion.managed_setManaged,
      PayloadHeap.createFor_id, Option.some.injEq] at hid
    subst hid
    exact ⟨rfl, by simp⟩

/-- A free or new object is with no other queue and not on its way. -/
theorem Inv.fresh (hinv : Inv k s queued hands)
    (hsource : msg ∈ (s.queue q).m_freeList ∨ msg = s.memory.nextAddr) :
    (∀ q', q' ≠ q → msg ∉ s.account queued hands q') ∧
      ∀ q', ∀ other ∈ s.flight queued hands q', other ≠ msg := by
  have hallocated : ∀ q', msg ∈ s.account queued hands q' → msg ≠ s.memory.nextAddr :=
    fun q' hmem => Nat.ne_of_lt ((hinv.carries q').allocated msg hmem)
  have haccount : ∀ q', q' ≠ q → msg ∉ s.account queued hands q' := by
    intro q' hne hmem
    rcases hsource with hfree | hnew
    · refine hne (hinv.apart q' q msg hmem ?_)
      exact List.mem_append_left _ (List.mem_append_right _ hfree)
    · exact hallocated q' hmem hnew
  refine ⟨haccount, ?_⟩
  rintro q' other hmem rfl
  by_cases heq : q' = q
  · subst heq
    rcases hsource with hfree | hnew
    · have honce := (hinv.carries q').once
      rw [List.append_assoc] at honce
      exact (List.nodup_append.mp honce).2.2 other hmem other
        (List.mem_append_left _ hfree) rfl
    · exact hallocated q' (mem_account_of_mem_flight hmem) hnew
  · exact haccount q' heq (mem_account_of_mem_flight hmem)

/-- What `prepare` changes for the object `msg` of `q`. -/
structure Fills (q : QueueId) (msg : Addr) (s next : State) : Prop where
  source : msg ∈ (s.queue q).m_freeList ∨ msg = s.memory.nextAddr
  grows : s.memory.nextAddr ≤ next.memory.nextAddr
  object : ∀ other, other ≠ msg → next.memory.objects other = s.memory.objects other
  origin : next.origin = Function.update s.origin msg (some q)
  queue : ∀ q', q' ≠ q → next.queue q' = s.queue q'
  pool : ∀ other ∈ (next.queue q).m_freeList ++ (next.queue q).deleted,
    other ∈ (s.queue q).m_freeList ++ (s.queue q).deleted
  rest : next.m_topics = s.m_topics ∧ next.t_batch = s.t_batch ∧ next.stack = s.stack ∧
    next.live = s.live ∧ next.trace = s.trace
  payloads : s.payloads.nextPayload ≤ next.payloads.nextPayload
  live : ∀ id, id < s.payloads.nextPayload → next.payloads.live id = s.payloads.live id
  created : ∀ id, managedOf (next.memory.objects msg) = some id →
    id = s.payloads.nextPayload ∧ id < next.payloads.nextPayload

theorem Inv.prepare_fills (hinv : Inv k s queued hands) (q : QueueId) (topicId : Nat)
    (topic : TopicObservers) (data : Option (List UInt8)) (size : Nat) :
    ∃ next msg, prepare s q topicId topic data size = (next, msg) ∧ Fills q msg s next ∧
      Carries k next.memory (next.queue q) (queued q) (msg :: s.holds hands q) := by
  obtain ⟨msg, memory, queue, hacquire, hcarries, hgrows, _⟩ :=
    (hinv.carries q).acquire format.zero
  obtain ⟨hsource, hfree, hdeleted, hobjects⟩ :=
    acquire_frame format.zero s.memory (s.queue q)
  simp only [hacquire] at hsource hfree hdeleted hobjects
  have hfilled := fill_managed s.payloads (memory.objects msg) topicId topic.count topic.observers
    data size
  rcases hfill : format.fill s.payloads (memory.objects msg) topicId topic.count topic.observers
    data size with ⟨payloads, message⟩
  rw [hfill] at hfilled
  obtain ⟨hpayloads, hlive, hcreated⟩ := hfilled
  refine ⟨{ s.setQueue q queue with
      memory := memory.write msg message
      payloads := payloads
      origin := Function.update s.origin msg (some q) }, msg, ?_, ?_, ?_⟩
  · simp only [SharedBatch.prepare, hacquire, hfill]
  · refine ⟨hsource, hgrows, fun other hne => ?_, rfl, fun q' hne => State.setQueue_other hne, ?_,
      ⟨rfl, rfl, rfl, rfl, rfl⟩, hpayloads, hlive, ?_⟩
    · exact (Function.update_of_ne hne _ _).trans (hobjects other hne)
    · simp only [State.setQueue_self, hdeleted]
      intro other hmem
      rw [List.mem_append] at *
      exact hmem.imp_left (hfree other)
    · simp only [Memory.write, Function.update_self]
      exact hcreated
  · simp only [State.setQueue_self]
    exact hcarries.write message

/-- A filled object is in the hands of the call. -/
theorem Fills.works (hfills : Fills q msg s next) (hinv : Inv k s queued hands) (hk : k < 64)
    (hlive : q < s.live)
    (hcarries : Carries k next.memory (next.queue q) (queued q) (msg :: s.holds hands q)) :
    Works k q s next queued (Function.update hands q (msg :: hands q)) := by
  obtain ⟨haccount, hfresh⟩ := hinv.fresh hfills.source
  obtain ⟨htopics, ht_batch, hstack, hsameLive, htrace⟩ := hfills.rest
  have hbatchFresh : ∀ other ∈ s.t_batch, other ≠ msg := by
    intro other hmem
    obtain ⟨q', horigin⟩ := hinv.batch other hmem
    exact hfresh q' other (List.mem_append_right _ (List.mem_append_right _
      (List.mem_append_left _ (List.mem_filter.mpr ⟨hmem, by simp [horigin]⟩))))
  have horigin : ∀ other, other ≠ msg → next.origin other = s.origin other := fun other hne => by
    rw [hfills.origin, Function.update_of_ne hne]
  have hbatchOf : ∀ q', next.batchOf q' = s.batchOf q' := by
    intro q'
    rw [State.batchOf, ht_batch, State.batchOf]
    exact List.filter_congr fun other hmem => by rw [horigin other (hbatchFresh other hmem)]
  have hframesOf : ∀ q', next.framesOf q' = s.framesOf q' := fun q' => by
    rw [State.framesOf, hstack, State.framesOf]
  have hself : next.holds (Function.update hands q (msg :: hands q)) q =
      msg :: s.holds hands q := by
    rw [State.holds, hbatchOf, hframesOf, Function.update_self, List.cons_append, State.holds]
  have hother : ∀ q', q' ≠ q →
      next.holds (Function.update hands q (msg :: hands q)) q' = s.holds hands q' := by
    intro q' hne
    rw [State.holds, hbatchOf, hframesOf, Function.update_of_ne hne, State.holds]
  have hflight : ∀ q', ∀ other,
      other ∈ next.flight queued (Function.update hands q (msg :: hands q)) q' →
      other ∈ s.flight queued hands q' ∨ q' = q ∧ other = msg := by
    intro q' other hmem
    by_cases heq : q' = q
    · subst heq
      rw [State.flight, hself, List.mem_append, List.mem_cons] at hmem
      rw [State.flight, List.mem_append]
      tauto
    · rw [State.flight, hother q' heq] at hmem
      exact Or.inl hmem
  have hobjects : ∀ q', ∀ other,
      other ∈ next.account queued (Function.update hands q (msg :: hands q)) q' →
      other ∈ s.account queued hands q' ∨ q' = q ∧ other = msg := by
    intro q' other hmem
    rw [State.account, List.append_assoc, List.mem_append] at hmem
    rcases hmem with hmem | hmem
    · exact (hflight q' other hmem).imp_left mem_account_of_mem_flight
    · refine Or.inl ?_
      rw [State.account, List.append_assoc]
      refine List.mem_append_right _ ?_
      by_cases heq : q' = q
      · subst heq
        exact hfills.pool other hmem
      · rwa [hfills.queue q' heq] at hmem
  have hmanaged : ∀ q', ∀ other ∈ s.flight queued hands q',
      managedOf (next.memory.objects other) = managedOf (s.memory.objects other) :=
    fun q' other hmem => by rw [hfills.object other (hfresh q' other hmem)]
  refine ⟨⟨fun q' => ?_, ?_, fun q' other hmem => ?_, fun other hmem => ?_, ?_, ?_,
    fun q' hle => ?_⟩, fun q' hne => ?_, fun event hmem => Or.inl (htrace ▸ hmem)⟩
  · by_cases heq : q' = q
    · subst heq
      rw [hself]
      exact hcarries
    · rw [hother q' heq, hfills.queue q' heq]
      exact (hinv.carries q').mono hfills.grows
  · intro q' q'' other hmem hmem'
    have howner : ∀ q', msg ∈ s.account queued hands q' → q' = q := fun q' hold =>
      Classical.byContradiction fun hne => haccount q' hne hold
    rcases hobjects q' other hmem with hold | ⟨hq, hmsg⟩ <;>
      rcases hobjects q'' other hmem' with hold' | ⟨hq', hmsg'⟩
    · exact hinv.apart q' q'' other hold hold'
    · exact (howner q' (hmsg' ▸ hold)).trans hq'.symm
    · exact hq.trans (howner q'' (hmsg ▸ hold')).symm
    · exact hq.trans hq'.symm
  · rcases hflight q' other hmem with hold | ⟨rfl, rfl⟩
    · rw [horigin other (hfresh q' other hold)]
      exact hinv.origins q' other hold
    · rw [hfills.origin, Function.update_self]
  · rw [ht_batch] at hmem
    rw [horigin other (hbatchFresh other hmem)]
    exact hinv.batch other hmem
  · -- the new payload is younger than all the others
    intro q' first hfirst q'' second hsecond id hid hid'
    rcases hflight q' first hfirst with hold | ⟨_, hmsg⟩ <;>
      rcases hflight q'' second hsecond with hold' | ⟨_, hmsg'⟩
    · rw [hmanaged q' first hold] at hid
      rw [hmanaged q'' second hold'] at hid'
      exact hinv.payloads q' first hold q'' second hold' id hid hid'
    · rw [hmanaged q' first hold] at hid
      rw [hmsg'] at hid'
      exact absurd (hfills.created id hid').1 (Nat.ne_of_lt (hinv.old q' first hold id hid))
    · rw [hmanaged q'' second hold'] at hid'
      rw [hmsg] at hid
      exact absurd (hfills.created id hid).1 (Nat.ne_of_lt (hinv.old q'' second hold' id hid'))
    · exact hmsg.trans hmsg'.symm
  · intro q' other hmem id hid
    rcases hflight q' other hmem with hold | ⟨_, hmsg⟩
    · rw [hmanaged q' other hold] at hid
      exact Nat.lt_of_lt_of_le (hinv.old q' other hold id hid) hfills.payloads
    · rw [hmsg] at hid
      exact (hfills.created id hid).2
  · have hne : q' ≠ q := Nat.ne_of_gt (Nat.lt_of_lt_of_le (hsameLive ▸ hlive) hle)
    rw [State.flight, hother q' hne]
    exact hinv.unborn q' (hsameLive ▸ hle)
  · refine ⟨hfills.queue q' hne, by rw [htopics], hbatchOf q', hframesOf q', fun other hwaiting => ?_⟩
    have hmem := hinv.mem_flight_of_waiting hk hwaiting
    rw [State.content, State.content, hfills.object other (hfresh q' other hmem)]
    cases hid : managedOf (s.memory.objects other) with
    | none => rfl
    | some id =>
        simp only [Option.bind_some]
        rw [hfills.live id (hinv.old q' other hmem id hid)]

/-! ### Calls -/

theorem Inv.post {topicId size : Nat} {data : Option (List UInt8)} (hinv : Inv k s queued hands)
    (hone : 1 ≤ k) (hk : k < 64) (hlive : q < s.live)
    (hpost : post k s q topicId data size = some next) :
    ∃ queued', Works k q s next queued' hands := by
  have hnothing : ∃ queued', Works k q s s queued' hands := ⟨queued, Works.refl q hinv⟩
  rw [SharedBatch.post] at hpost
  split at hpost
  · exact Option.some.inj hpost ▸ hnothing
  simp only at hpost
  split at hpost
  · exact Option.some.inj hpost ▸ hnothing
  obtain ⟨middle, msg, hprepare, hfills, hcarries⟩ :=
    hinv.prepare_fills q topicId (s.m_topics q topicId) data size
  have hfirst := hfills.works hinv hk hlive hcarries
  rw [hprepare] at hpost
  have hsecond := hfirst.inv.push hone hk (Function.update_self _ _ _) hpost
  rw [Function.update_idem, Function.update_eq_self] at hsecond
  exact ⟨_, hfirst.trans hsecond⟩

theorem Inv.postBatched {topicId size : Nat} {data : Option (List UInt8)}
    (hinv : Inv k s queued hands) (hone : 1 ≤ k) (hk : k < 64) (hlive : q < s.live)
    (hhands : hands q = [])
    (hown : FlushesOwn s (.postBatched q topicId data size))
    (hpost : postBatched k s q topicId data size = some next) :
    ∃ queued', Works k q s next queued' hands := by
  have hnothing : ∃ queued', Works k q s s queued' hands := ⟨queued, Works.refl q hinv⟩
  rw [SharedBatch.postBatched] at hpost
  split at hpost
  · exact Option.some.inj hpost ▸ hnothing
  rename_i htopic
  simp only at hpost
  split at hpost
  · exact Option.some.inj hpost ▸ hnothing
  rename_i hcount
  obtain ⟨middle, msg, hprepare, hfills, hcarries⟩ :=
    hinv.prepare_fills q topicId (s.m_topics q topicId) data size
  have hfirst := hfills.works hinv hk hlive hcarries
  have hsecond := hfirst.inv.accumulate (Function.update_self _ _ _)
  rw [Function.update_idem, Function.update_eq_self] at hsecond
  have hboth := hfirst.trans hsecond
  rw [hprepare] at hpost
  simp only at hpost
  split at hpost
  · rename_i hfull
    rw [hfills.rest.2.1, List.length_append, List.length_singleton] at hfull
    have hmine : ∀ other ∈ s.t_batch, s.origin other = some q := by
      refine hown q ?_
      rw [Action.flushes, if_pos ⟨Nat.lt_of_not_le htopic, hcount, hfull⟩]
    have hall : ∀ other ∈ middle.t_batch ++ [msg], middle.origin other = some q := by
      intro other hmem
      rw [hfills.origin]
      by_cases heq : other = msg
      · rw [heq, Function.update_self]
      · rw [Function.update_of_ne heq]
        rw [hfills.rest.2.1, List.mem_append, List.mem_singleton] at hmem
        exact hmine other (hmem.resolve_right heq)
    obtain ⟨queued', hthird⟩ :=
      hsecond.inv.flushBatch hone hk hhands hall hpost
    exact ⟨queued', hboth.trans hthird⟩
  · exact ⟨queued, Option.some.inj hpost ▸ hboth⟩

/-- The release of a payload touches no message of another queue. -/
theorem Inv.releasePayload {id : PayloadId} (hinv : Inv k s queued hands) (hk : k < 64)
    (hmem : msg ∈ s.flight queued hands q)
    (hmanaged : managedOf (s.memory.objects msg) = some id) :
    Works k q s { s with payloads := (s.payloads.release id).1 } queued hands := by
  refine ⟨⟨hinv.carries, hinv.apart, hinv.origins, hinv.batch, hinv.payloads,
    fun q' other hother id' hid' => ?_, hinv.unborn⟩, fun q' hne => ?_, fun _ hmem => Or.inl hmem⟩
  · rw [PayloadHeap.release_nextPayload]
    exact hinv.old q' other hother id' hid'
  · refine ⟨rfl, rfl, rfl, rfl, fun other hwaiting => ?_⟩
    have hother := hinv.mem_flight_of_waiting hk hwaiting
    rw [State.content, State.content]
    cases hid : managedOf (s.memory.objects other) with
    | none => rfl
    | some id' =>
        have hdiffer : id' ≠ id := by
          rintro rfl
          obtain rfl := hinv.payloads q' other hother q msg hmem id' hid hmanaged
          exact hne (hinv.apart q' q other (mem_account_of_mem_flight hother)
            (mem_account_of_mem_flight hmem))
        simp only [Option.bind_some]
        rw [PayloadHeap.release_live_other hdiffer]

theorem Inv.proceed {frame : Frame} {below : List Frame} (hinv : Inv k s queued hands)
    (hk : k < 64) (hhands : hands frame.queue = []) (hstack : s.stack = frame :: below) :
    Works k frame.queue s (proceed s frame below) queued hands := by
  rw [SharedBatch.proceed]
  cases hget : frame.batch[frame.next]? with
  | none =>
      simp only
      rw [← releaseMsgs_stack]
      have hfirst := hinv.leave hstack hhands
      have hsecond := hfirst.inv.releaseMsgs (Function.update_self _ _ _)
      rw [Function.update_idem, update_hands hhands] at hsecond
      exact hfirst.trans hsecond
  | some msg =>
      simp only
      split
      · -- the callback returns
        have hfirst := hinv.advance { frame with i := frame.i + 1, inCallback := false }
          hstack rfl rfl
        have hmem : msg ∈ ({ s with stack := { frame with i := frame.i + 1, inCallback := false } ::
            below } : State).flight queued hands frame.queue := by
          refine List.mem_append_right _ (List.mem_append_right _ (List.mem_append_right _ ?_))
          refine List.mem_flatMap.mpr ⟨{ frame with i := frame.i + 1, inCallback := false }, ?_,
            List.mem_of_getElem? hget⟩
          exact List.mem_filter.mpr ⟨List.mem_cons_self .., by simp⟩
        cases hmanaged : managedOf (s.memory.objects msg) with
        | none => exact hfirst
        | some id => exact hfirst.trans (hfirst.inv.releasePayload hk hmem hmanaged)
      · split
        · exact hinv.advance { frame with inCallback := true } hstack rfl rfl
        · exact hinv.advance { frame with next := frame.next + 1, i := 0 } hstack rfl rfl

/-- A new queue has objects of its own. -/
theorem Inv.constructWith {pool : Memory SnapshotMessage × PooledQueue}
    (hinv : Inv k s queued hands) (hk : k < 64) (hcarries : Carries k pool.1 pool.2 [] [])
    (hgrows : s.memory.nextAddr ≤ pool.1.nextAddr)
    (hfresh : ∀ addr ∈ pool.2.m_freeList ++ pool.2.deleted, s.memory.nextAddr ≤ addr)
    (hobjects : ∀ addr, addr < s.memory.nextAddr →
      pool.1.objects addr = s.memory.objects addr) :
    Works k s.live s (constructWith s pool) queued hands := by
  have hempty := hinv.unborn s.live (Nat.le_refl _)
  obtain ⟨hqueued, hholds⟩ := List.append_eq_nil_iff.mp hempty
  have hother : ∀ q', q' ≠ s.live → (SharedBatch.constructWith s pool).queue q' = s.queue q' :=
    fun q' hne => State.setQueue_other hne
  have hself : (SharedBatch.constructWith s pool).queue s.live = pool.2 := State.setQueue_self
  have hold : ∀ q', ∀ other ∈ s.flight queued hands q',
      pool.1.objects other = s.memory.objects other := fun q' other hmem =>
    hobjects other ((hinv.carries q').allocated other (mem_account_of_mem_flight hmem))
  -- the new queue has new objects only
  have hsplit : ∀ q', ∀ other ∈ (SharedBatch.constructWith s pool).account queued hands q',
      q' ≠ s.live ∧ other ∈ s.account queued hands q' ∨
        q' = s.live ∧ s.memory.nextAddr ≤ other := by
    intro q' other hmem
    by_cases heq : q' = s.live
    · subst heq
      refine Or.inr ⟨rfl, hfresh other ?_⟩
      have haccount : (SharedBatch.constructWith s pool).account queued hands s.live =
          s.flight queued hands s.live ++ pool.2.m_freeList ++ pool.2.deleted := by
        rw [State.account, hself]
        rfl
      rwa [haccount, hempty, List.nil_append] at hmem
    · rw [State.account, hother q' heq] at hmem
      exact Or.inl ⟨heq, hmem⟩
  refine ⟨⟨fun q' => ?_, fun q' q'' other hmem hmem' => ?_, hinv.origins, hinv.batch,
    fun q' first hfirst q'' second hsecond id hid hid' => ?_, fun q' other hmem id hid => ?_,
    fun q' hle => hinv.unborn q' (Nat.le_of_succ_le hle)⟩, fun q' hne => ?_,
    fun _ hmem => Or.inl hmem⟩
  · by_cases heq : q' = s.live
    · subst heq
      rw [hself, hqueued]
      exact hholds.symm ▸ hcarries
    · rw [hother q' heq]
      exact (hinv.carries q').mono hgrows
  · have hlt : ∀ q', other ∈ s.account queued hands q' → other < s.memory.nextAddr :=
      fun q' hin => (hinv.carries q').allocated other hin
    rcases hsplit q' other hmem with ⟨_, hin⟩ | ⟨hq, hge⟩ <;>
      rcases hsplit q'' other hmem' with ⟨_, hin'⟩ | ⟨hq', hge'⟩
    · exact hinv.apart q' q'' other hin hin'
    · exact absurd (hlt q' hin) (Nat.not_lt_of_le hge')
    · exact absurd (hlt q'' hin') (Nat.not_lt_of_le hge)
    · exact hq.trans hq'.symm
  · have hfirstOld := hold q' first hfirst
    have hsecondOld := hold q'' second hsecond
    rw [show (SharedBatch.constructWith s pool).memory = pool.1 from rfl] at hid hid'
    rw [hfirstOld] at hid
    rw [hsecondOld] at hid'
    exact hinv.payloads q' first hfirst q'' second hsecond id hid hid'
  · rw [show (SharedBatch.constructWith s pool).memory = pool.1 from rfl,
      hold q' other hmem] at hid
    exact hinv.old q' other hmem id hid
  · refine ⟨hother q' hne, rfl, rfl, rfl, fun other hwaiting => ?_⟩
    have hmem := hinv.mem_flight_of_waiting hk hwaiting
    rw [State.content, State.content,
      show (SharedBatch.constructWith s pool).memory = pool.1 from rfl, hold q' other hmem]
    rfl

theorem Inv.construct (hinv : Inv k s queued hands) (hk : k < 64) :
    Works k s.live s (construct s) queued hands := by
  obtain ⟨hcarries, hgrows⟩ := construct_carries (k := k) format.zero s.memory 512
  obtain ⟨hfresh, hdeleted, hobjects⟩ := construct_fresh format.zero s.memory 512
  refine hinv.constructWith hk hcarries hgrows (fun addr hmem => ?_) hobjects
  rw [hdeleted, List.append_nil] at hmem
  exact hfresh addr hmem

theorem Inv.addObserver (hinv : Inv k s queued hands) (q : QueueId) (topicId : Nat)
    (observer : Observer) : Works k q s (addObserver s q topicId observer) queued hands := by
  rw [SharedBatch.addObserver]
  split
  · exact Works.refl q hinv
  · simp only
    split
    · exact Works.refl q hinv
    · refine ⟨⟨hinv.carries, hinv.apart, hinv.origins, hinv.batch, hinv.payloads, hinv.old,
        hinv.unborn⟩, fun q' hne => ?_, fun _ hmem => Or.inl hmem⟩
      exact ⟨rfl, Function.update_of_ne hne _ _, rfl, rfl, fun _ _ => rfl⟩

/-! ### Runs -/

theorem Inv.step {action : Action} (hinv : Inv k s queued fun _ => []) (hone : 1 ≤ k) (hk : k < 64)
    (hown : FlushesOwn s action) (hstep : step k s action = some next) :
    ∃ q queued', action.queue s = some q ∧ Works k q s next queued' fun _ => [] := by
  have hlive : ∀ q, s.accepts q = true → q < s.live := by
    intro q haccepts
    simp only [State.accepts, Bool.and_eq_true, decide_eq_true_eq] at haccepts
    exact haccepts.2
  cases action with
  | construct =>
      simp only [SharedBatch.step, Option.ite_none_right_eq_some, Option.some.injEq] at hstep
      exact ⟨s.live, queued, rfl, hstep.2 ▸ hinv.construct hk⟩
  | addObserver q topicId observer =>
      simp only [SharedBatch.step, Option.ite_none_right_eq_some, Option.some.injEq] at hstep
      exact ⟨q, queued, rfl, hstep.2 ▸ hinv.addObserver q topicId observer⟩
  | post q topicId data size =>
      simp only [SharedBatch.step, Option.ite_none_right_eq_some] at hstep
      obtain ⟨queued', hworks⟩ := hinv.post hone hk (hlive q hstep.1) hstep.2
      exact ⟨q, queued', rfl, hworks⟩
  | postBatched q topicId data size =>
      simp only [SharedBatch.step, Option.ite_none_right_eq_some] at hstep
      obtain ⟨queued', hworks⟩ := hinv.postBatched hone hk (hlive q hstep.1) rfl hown hstep.2
      exact ⟨q, queued', rfl, hworks⟩
  | flushBatch q =>
      simp only [SharedBatch.step, Option.ite_none_right_eq_some] at hstep
      obtain ⟨queued', hworks⟩ := hinv.flushBatch hone hk rfl (hown q rfl) hstep.2
      exact ⟨q, queued', rfl, hworks⟩
  | dispatchOne q =>
      simp only [SharedBatch.step, Option.ite_none_right_eq_some] at hstep
      obtain ⟨queued', hworks⟩ := hinv.dispatch hk rfl hstep.2
      exact ⟨q, queued', rfl, hworks⟩
  | dispatchBatch q maxCount =>
      simp only [SharedBatch.step, Option.ite_none_right_eq_some] at hstep
      obtain ⟨queued', hworks⟩ := hinv.dispatch hk rfl hstep.2
      exact ⟨q, queued', rfl, hworks⟩
  | proceed =>
      simp only [SharedBatch.step] at hstep
      split at hstep
      · cases hstep
      · rename_i frame below hstack
        refine ⟨frame.queue, queued, by simp [Action.queue, hstack], ?_⟩
        exact Option.some.inj hstep ▸ hinv.proceed hk rfl hstack

theorem inv_init (k : Nat) : Inv k init (fun _ => []) fun _ => [] where
  carries _ := (construct_carries format.zero ⟨fun _ => format.zero, 0⟩ 0).1
  apart _ _ _ hmem := absurd hmem List.not_mem_nil
  origins _ _ hmem := absurd hmem List.not_mem_nil
  batch _ hmem := absurd hmem List.not_mem_nil
  payloads _ _ hmem := absurd hmem List.not_mem_nil
  old _ _ hmem := absurd hmem List.not_mem_nil
  unborn _ _ := rfl

theorem inv_of_reachable (hone : 1 ≤ k) (hk : k < 64)
    (hreach : (machine k).ReachableUnder FlushesOwn s) :
    (∃ queued, Inv k s queued fun _ => []) ∧
      ∀ event ∈ s.trace, event.origin = some event.queue := by
  induction hreach with
  | init => exact ⟨⟨_, inv_init k⟩, fun _ hmem => absurd hmem List.not_mem_nil⟩
  | step _ hown hstep ih =>
      obtain ⟨⟨queued, hinv⟩, htrace⟩ := ih
      obtain ⟨q, queued', _, hworks⟩ := hinv.step hone hk hown hstep
      exact ⟨⟨queued', hworks.inv⟩,
        fun event hmem => (hworks.trace event hmem).elim (htrace event) id⟩

/-! ### The theorem -/

/-- What is pushed into the ring of a queue, dispatched by it or returned to its
pool was posted through it, and calls on one queue leave alone what another will
dispatch. -/
structure Isolated (k : Nat) (allowed : State → Action → Prop) (s : State) : Prop where
  own : ∀ event ∈ s.trace, event.origin = some event.queue
  frame : ∀ action next, allowed s action → step k s action = some next →
    ∀ q, action.queue s ≠ some q → Untouched k s next q

/-- As long as every flush finds messages of its own queue only, the queues are
isolated. -/
theorem isolated_of_flushesOwn (hone : 1 ≤ k) (hk : k < 64)
    (hreach : (machine k).ReachableUnder FlushesOwn s) : Isolated k FlushesOwn s := by
  obtain ⟨⟨queued, hinv⟩, htrace⟩ := inv_of_reachable hone hk hreach
  refine ⟨htrace, fun action next hown hstep q' hne => ?_⟩
  obtain ⟨q, queued', hqueue, hworks⟩ := hinv.step hone hk hown hstep
  exact hworks.untouched q' fun heq => hne (heq ▸ hqueue)

/-- The test of `FlushesOwn`. -/
def flushesOwn (s : State) (action : Action) : Bool :=
  match action.flushes s with
  | none => true
  | some q => s.t_batch.all fun msg => s.origin msg == some q

theorem flushesOwn_sound (s : State) (action : Action) (hcheck : flushesOwn s action = true) :
    FlushesOwn s action := by
  intro q hflushes msg hmem
  rw [flushesOwn, hflushes] at hcheck
  simpa using List.all_eq_true.mp hcheck msg hmem

/-- Two queues that accumulate and flush one after the other. -/
def inTurns : List Action :=
  [.construct, .construct, .addObserver 0 5 ⟨1, 0⟩, .addObserver 1 5 ⟨2, 0⟩,
    .postBatched 0 5 (some [7]) 1, .flushBatch 0, .postBatched 1 5 (some [8]) 1, .flushBatch 1,
    .dispatchOne 0]

theorem isolated_of_flushesOwn_inTurns :
    ∃ s, Isolated 1 FlushesOwn s ∧
      s.trace = [.pushed 0 (some 0), .pushed 1 (some 1), .dispatched 0 (some 0)] := by
  obtain ⟨s, hreach, htrace⟩ := Machine.exists_reachableUnder_of_run (machine 1) flushesOwn
    flushesOwn_sound inTurns
    (fun s => s.trace == [.pushed 0 (some 0), .pushed 1 (some 1), .dispatched 0 (some 0)])
    (by decide +kernel)
  exact ⟨s, isolated_of_flushesOwn (by decide) (by decide) hreach, by simpa using htrace⟩

/-- The queue 1 flushes what the queue 0 has accumulated, and dispatches it. -/
def flushedByOther : List Action :=
  [.construct, .construct, .addObserver 0 5 ⟨1, 0⟩, .postBatched 0 5 (some [7]) 1, .flushBatch 1,
    .dispatchOne 1, .proceed, .proceed, .proceed, .proceed]

/-- Without the condition the queues are not isolated: the message goes through the
ring of the other queue, to its dispatch and into its pool. -/
theorem flushedByOther_not_isolated :
    ¬ ∀ s, (machine 1).Reachable s → Isolated 1 (fun _ _ => True) s := by
  intro hall
  obtain ⟨s, hreach, htrace⟩ := Machine.exists_reachable_of_run (machine 1) flushedByOther
    (fun s => s.trace == [.pushed 1 (some 0), .dispatched 1 (some 0), .released 1 (some 0)])
    (by decide +kernel)
  have hown := (hall s hreach).own (.pushed 1 (some 0)) (by simp_all)
  simp [Event.origin, Event.queue] at hown

end MessageCenter.SnapshotQueue.SharedBatch
