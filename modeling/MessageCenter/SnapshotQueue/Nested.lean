import MessageCenter.SnapshotQueue.Model
import MessageCenter.Lib.Machine

/-!
# `EventQueueBroadcastFast` call by call

The calls of one thread, with callbacks that make any calls themselves: they post, add
observers and dispatch.  A session keeps the callbacks that have not returned yet on a stack;
`dispatchOne` runs up to its first callback, and the return of a callback goes on with the
next one or with the release of the message.

The session also notes the arguments of each post, the post that a message object was last
taken from the pool for, and the callbacks with the post that they are for.
-/

namespace MessageCenter.SnapshotQueue.Nested

open Concurrency ObjectPoolLockFree PooledQueue

variable {k : Nat}

/-- `FAST_INLINE_MAX` -/
def FAST_INLINE_MAX : Nat := 48

/-- The callback `i` of the message at `msg`. -/
structure Frame where
  msg : Addr
  i : Nat
deriving DecidableEq, Repr

structure Session (k : Nat) where
  queue : State (eventQueueBroadcastFast k)
  stack : List Frame
  posted : List (PostArgs Unit)
  carried : Addr → Nat
  calls : List (Nat × CallEvent)

inductive Action where
  | addObserver (topicId : Nat) (observer : Observer)
  | post (args : PostArgs Unit)
  | dispatchOne
  /-- the innermost callback returns -/
  | ret

/-- The message object that the pool hands out next. -/
def nextMessage (s : State (eventQueueBroadcastFast k)) : Addr :=
  ((s.queue ()).acquire ((eventQueueBroadcastFast k).format ()).zero (s.memory ())).1

/-- The arguments of the callback `i`. -/
def eventAt (s : State (eventQueueBroadcastFast k)) (msg : Addr) (i : Nat) : CallEvent :=
  let message := s.object () msg
  let format := (eventQueueBroadcastFast k).format ()
  ⟨format.observer message i, format.topicId message, format.data s.payloads message,
    format.payloadSize message⟩

/-- The loop of `dispatchOne` at index `i`: the callback, or the end of the loop. -/
def Session.loop (x : Session k) (msg : Addr) (i : Nat) : Session k :=
  if i < ((eventQueueBroadcastFast k).format ()).observerCount (x.queue.object () msg) then
    { x with
      stack := ⟨msg, i⟩ :: x.stack
      calls := x.calls ++ [(x.carried msg, eventAt x.queue msg i)] }
  else
    let queue := (x.queue.queue ()).release ((eventQueueBroadcastFast k).maxSize ()) msg
    { x with queue := x.queue.setQueue () queue }

/-- `managed->release()` after a callback -/
def releasePayload (s : State (eventQueueBroadcastFast k)) (msg : Addr) :
    State (eventQueueBroadcastFast k) :=
  match ((eventQueueBroadcastFast k).format ()).managed (s.object () msg) with
  | some managed => { s with payloads := (s.payloads.release managed).1 }
  | none => s

/-- The post is call number `x.posted.length`. -/
def Session.post (x : Session k) (args : PostArgs Unit) : Option (Session k) :=
  (SnapshotQueue.post x.queue args).map fun result =>
    { x with
      queue := result.1
      posted := x.posted ++ [args]
      carried := Function.update x.carried (nextMessage x.queue) x.posted.length }

def Session.dispatchOne (x : Session k) : Option (Session k) :=
  match (x.queue.queue ()).pop (2 ^ k) with
  | none => none
  | some (queue, none) => some { x with queue := x.queue.setQueue () queue }
  | some (queue, some msg) =>
      some (Session.loop { x with queue := x.queue.setQueue () queue } msg 0)

def Session.ret (x : Session k) : Option (Session k) :=
  match x.stack with
  | [] => none
  | ⟨msg, i⟩ :: below =>
      some (Session.loop { x with queue := releasePayload x.queue msg, stack := below } msg (i + 1))

def step (x : Session k) : Action → Option (Session k)
  | .addObserver topicId observer =>
      some { x with queue := (SnapshotQueue.addObserver x.queue topicId observer).1 }
  | .post args => x.post args
  | .dispatchOne => x.dispatchOne
  | .ret => x.ret

def machine (k : Nat) : Machine (Session k) Action where
  init := ⟨init (eventQueueBroadcastFast k), [], [], fun _ => 0, []⟩
  step := step

/-! ### What the messages hold -/

variable {x next : Session k} {msg : Addr}

/-- The bytes `0 ..< size` of a buffer, as a callback reads them. -/
def row (bytes : List UInt8) (size : Nat) : List Cell :=
  (List.range size).map fun i => .byte (bytes.getD i 0)

/-- The message carries the post `args`. -/
structure Filled (args : PostArgs Unit) (message : SnapshotMessage) : Prop where
  topicId : message.topicId = args.topicId
  size : message.payloadSize = args.size
  isInline : message.isInline = decide (args.size ≤ FAST_INLINE_MAX)
  bytes : args.size ≤ FAST_INLINE_MAX → ∀ bytes, args.data = some bytes →
    ∀ i < args.size, message.payload i = .byte (bytes.getD i 0)

/-- The callback was made with what the post `args` passed. -/
structure Passed (args : PostArgs Unit) (event : CallEvent) : Prop where
  topicId : event.topicId = args.topicId
  size : event.size = args.size
  inlined : args.size ≤ FAST_INLINE_MAX → ∃ cells, event.data = some cells ∧
    cells.length = args.size ∧ ∀ bytes, args.data = some bytes → cells = row bytes args.size

theorem Filled.passed {s : State (eventQueueBroadcastFast k)} {args : PostArgs Unit}
    (h : Filled args (s.object () msg)) (i : Nat) : Passed args (eventAt s msg i) where
  topicId := h.topicId
  size := h.size
  inlined hsmall := by
    have hinline : (s.object () msg).isInline = true := h.isInline.trans (decide_eq_true hsmall)
    refine ⟨(s.object () msg).payload.inlineData args.size, ?_, ?_, fun bytes hbytes => ?_⟩
    · change (if (s.object () msg).isInline then _ else _) = _
      rw [if_pos hinline, h.size]
    · rw [PayloadUnion.inlineData, List.length_map, List.length_range]
    · apply List.map_congr_left
      intro j hj
      exact h.bytes hsmall bytes hbytes j (List.mem_range.mp hj)

structure SessionInv (x : Session k) : Prop where
  carries : ∃ queued, Carries k (x.queue.memory ()) (x.queue.queue ()) queued
      (x.stack.map Frame.msg) ∧
    ∀ msg ∈ queued ++ x.stack.map Frame.msg, ∃ args,
      x.posted[x.carried msg]? = some args ∧ Filled args (x.queue.object () msg)
  passed : ∀ call event, (call, event) ∈ x.calls →
    ∃ args, x.posted[call]? = some args ∧ Passed args event

/-- No arguments of posts are lost. -/
theorem exists_posted_append {posted : List (PostArgs Unit)} (args : PostArgs Unit) {call : Nat}
    {P : PostArgs Unit → Prop} (h : ∃ args, posted[call]? = some args ∧ P args) :
    ∃ args', (posted ++ [args])[call]? = some args' ∧ P args' := by
  obtain ⟨args', hargs, hP⟩ := h
  obtain ⟨hlt, -⟩ := List.getElem?_eq_some_iff.mp hargs
  exact ⟨args', (List.getElem?_append_left hlt).trans hargs, hP⟩

theorem setQueue_queue (s : State (eventQueueBroadcastFast k)) (queue : PooledQueue) :
    (s.setQueue () queue).queue () = queue := by
  unfold State.setQueue
  exact Function.update_self (α := (eventQueueBroadcastFast k).Lane) () queue s.queue

/-- The loop goes on with a message that the call has in hand. -/
theorem loop_inv (x : Session k) (queued : List Addr)
    (hcarries : Carries k (x.queue.memory ()) (x.queue.queue ()) queued
      (msg :: x.stack.map Frame.msg))
    (hfilled : ∀ other ∈ queued ++ msg :: x.stack.map Frame.msg, ∃ args,
      x.posted[x.carried other]? = some args ∧ Filled args (x.queue.object () other))
    (hpassed : ∀ call event, (call, event) ∈ x.calls →
      ∃ args, x.posted[call]? = some args ∧ Passed args event) (i : Nat) :
    SessionInv (x.loop msg i) := by
  rw [Session.loop]
  split
  · refine ⟨⟨queued, hcarries, hfilled⟩, fun call event hmem => ?_⟩
    rcases List.mem_append.mp hmem with hold | hnew
    · exact hpassed call event hold
    · obtain ⟨rfl, rfl⟩ := Prod.mk.inj (List.mem_singleton.mp hnew)
      obtain ⟨args, hargs, hmsg⟩ := hfilled msg (by simp)
      exact ⟨args, hargs, hmsg.passed i⟩
  · refine ⟨⟨queued, ?_, fun other hmem => ?_⟩, hpassed⟩
    · rw [setQueue_queue]
      exact hcarries.release ((eventQueueBroadcastFast k).maxSize ())
    · obtain ⟨args, hargs, hother⟩ := hfilled other (by
        rcases List.mem_append.mp hmem with hqueued | hheld
        · exact List.mem_append_left _ hqueued
        · exact List.mem_append_right _ (List.mem_cons_of_mem msg hheld))
      exact ⟨args, hargs, hother⟩

theorem SessionInv.dispatchOne (h : SessionInv x) (hk : k < 64) (hstep : x.dispatchOne = some next) :
    SessionInv next := by
  obtain ⟨queued, hcarries, hfilled⟩ := h.carries
  rw [Session.dispatchOne] at hstep
  cases queued with
  | nil =>
      rw [hcarries.pop_nil hk] at hstep
      obtain rfl := Option.some.inj hstep
      refine ⟨⟨[], ?_, fun other hmem => ?_⟩, h.passed⟩
      · rw [setQueue_queue]
        exact hcarries
      · obtain ⟨args, hargs, hother⟩ := hfilled other hmem
        exact ⟨args, hargs, hother⟩
  | cons first rest =>
      obtain ⟨after, hpop, hafter⟩ := hcarries.pop_cons hk
      rw [hpop] at hstep
      obtain rfl := Option.some.inj hstep
      refine loop_inv { x with queue := x.queue.setQueue () after } rest ?_ (fun other hmem => ?_)
        h.passed 0
      · rw [setQueue_queue]
        exact hafter
      obtain ⟨args, hargs, hother⟩ := hfilled other (by
        rcases List.mem_append.mp hmem with hrest | hheld
        · simp [hrest]
        · rcases List.mem_cons.mp hheld with rfl | hheld
          · simp
          · exact List.mem_append_right _ hheld)
      exact ⟨args, hargs, hother⟩

theorem releasePayload_frame (s : State (eventQueueBroadcastFast k)) (msg : Addr) :
    (releasePayload s msg).memory = s.memory ∧ (releasePayload s msg).queue = s.queue := by
  rw [releasePayload]
  split <;> exact ⟨rfl, rfl⟩

theorem SessionInv.ret (h : SessionInv x) (hstep : x.ret = some next) : SessionInv next := by
  obtain ⟨queued, hcarries, hfilled⟩ := h.carries
  rw [Session.ret] at hstep
  cases hstack : x.stack with
  | nil => simp [hstack] at hstep
  | cons frame below =>
      obtain ⟨msg, i⟩ := frame
      simp only [hstack, Option.some.injEq] at hstep
      rw [hstack] at hcarries hfilled
      obtain ⟨hmemory, hqueue⟩ := releasePayload_frame x.queue msg
      subst hstep
      refine loop_inv { x with queue := releasePayload x.queue msg, stack := below } queued ?_
        (fun other hmem => ?_) h.passed (i + 1)
      · rw [hmemory, hqueue]
        exact hcarries
      · obtain ⟨args, hargs, hother⟩ := hfilled other hmem
        have hobject := congrArg (fun memory => (memory ()).objects other) hmemory
        exact ⟨args, hargs, Eq.mpr (congrArg (Filled args) hobject) hother⟩

/-! ### Posts -/

section
variable {sys : System} {s s' : State sys} {args : PostArgs sys.Lane}

/-- The topic is out of range or has no observers, or the payload is too large. -/
def Skipped (s : State sys) (args : PostArgs sys.Lane) : Prop :=
  (args.topicId ≥ sys.maxTopics ∨ (sys.format args.lane).accepts args.size = false) ∨
    (s.m_topics args.topicId).count = 0

/-- `post` up to the push, for the arguments of a call. -/
def prepared (s : State sys) (args : PostArgs sys.Lane) : State sys × Addr :=
  let topic := s.m_topics args.topicId
  prepare s args.lane args.topicId topic.count topic.observers args.data args.size

/-- The message of a call has been filled and pushed. -/
def Pushed (s : State sys) (args : PostArgs sys.Lane) (s' : State sys) : Prop :=
  ∃ queue, ((prepared s args).1.queue args.lane).push (2 ^ sys.exponent args.lane)
    (prepared s args).2 = some queue ∧ s' = (prepared s args).1.setQueue args.lane queue

/-- What a post that returns has done. -/
theorem post_cases {result : Bool} (hpost : SnapshotQueue.post s args = some (s', result)) :
    Skipped s args ∧ s' = s ∨ ¬Skipped s args ∧ Pushed s args s' := by
  rw [SnapshotQueue.post] at hpost
  split at hpost
  · next hrefused => exact .inl ⟨.inl hrefused, (congrArg Prod.fst (Option.some.inj hpost)).symm⟩
  · next haccepted =>
    dsimp only at hpost
    split at hpost
    · next hcount => exact .inl ⟨.inr hcount, (congrArg Prod.fst (Option.some.inj hpost)).symm⟩
    · next hcount =>
      obtain ⟨queue, hpush, heq⟩ := Option.map_eq_some_iff.mp hpost
      exact .inr ⟨fun hskipped => hskipped.elim haccepted hcount, queue, hpush,
        (congrArg Prod.fst heq).symm⟩

end

/-- The pool after it has handed out `nextMessage`. -/
def acquired (s : State (eventQueueBroadcastFast k)) : Memory SnapshotMessage × PooledQueue :=
  ((s.queue ()).acquire ((eventQueueBroadcastFast k).format ()).zero (s.memory ())).2

/-- The heap and the message that a post leaves behind. -/
def filled (s : State (eventQueueBroadcastFast k)) (args : PostArgs Unit) :
    PayloadHeap × SnapshotMessage :=
  let topic := s.m_topics args.topicId
  ((eventQueueBroadcastFast k).format ()).fill s.payloads ((acquired s).1.objects (nextMessage s))
    args.topicId topic.count topic.observers args.data args.size

theorem prepared_memory (s : State (eventQueueBroadcastFast k)) (args : PostArgs Unit) :
    (prepared s args).1.memory () = (acquired s).1.write (nextMessage s) (filled s args).2 := by
  exact Function.update_self (α := (eventQueueBroadcastFast k).Lane) () _ s.memory

theorem prepared_queue (s : State (eventQueueBroadcastFast k)) (args : PostArgs Unit) :
    (prepared s args).1.queue () = (acquired s).2 := by
  exact Function.update_self (α := (eventQueueBroadcastFast k).Lane) () _ s.queue

/-- A message is filled with the arguments of the call. -/
theorem fill_filled (heap : PayloadHeap) (old : SnapshotMessage) (args : PostArgs Unit)
    (count : Nat) (observers : Nat → Observer) :
    Filled args ((snapshotFormat FAST_INLINE_MAX).fill heap old args.topicId count observers
      args.data args.size).2 := by
  simp only [snapshotFormat]
  split
  · next hsmall =>
    refine ⟨rfl, rfl, (decide_eq_true hsmall).symm, fun _ bytes hbytes i hi => ?_⟩
    simp [PayloadUnion.copyInline, PayloadUnion.copyBytes, hbytes, hi, Nat.zero_lt_of_lt hi]
  · next hlarge =>
    exact ⟨rfl, rfl, (decide_eq_false hlarge).symm, fun hsmall => absurd hsmall hlarge⟩

theorem SessionInv.post (h : SessionInv x) (hone : 1 ≤ k) (hk : k < 64) {args : PostArgs Unit}
    (hstep : x.post args = some next) : SessionInv next := by
  obtain ⟨queued, hcarries, hfilled⟩ := h.carries
  obtain ⟨⟨after, result⟩, hpost, rfl⟩ := Option.map_eq_some_iff.mp hstep
  obtain ⟨msg, memory, queue, hacquire, hacquired, -, hobjects⟩ :=
    hcarries.acquire ((eventQueueBroadcastFast k).format ()).zero
  have hnext : nextMessage x.queue = msg := congrArg Prod.fst hacquire
  have hmemory : (acquired x.queue).1 = memory := congrArg (·.2.1) hacquire
  have hqueue : (acquired x.queue).2 = queue := congrArg (·.2.2) hacquire
  -- the object that the pool hands out is neither queued nor in a callback
  have hfresh : ∀ other ∈ queued ++ x.stack.map Frame.msg, other ≠ msg := by
    rintro other hmem rfl
    rcases List.mem_append.mp hmem with hqueued | hheld
    · exact hacquired.not_queued (List.mem_cons_self ..) hqueued
    · exact (List.nodup_cons.mp hacquired.held_nodup).1 hheld
  have hkept : ∀ other ∈ queued ++ x.stack.map Frame.msg, ∃ args',
      (x.posted ++ [args])[Function.update x.carried msg x.posted.length other]? = some args' ∧
        Filled args' (x.queue.object () other) := by
    intro other hmem
    rw [Function.update_of_ne (hfresh other hmem)]
    exact exists_posted_append args (hfilled other hmem)
  refine ⟨?_, fun call event hmem => exists_posted_append args (h.passed call event hmem)⟩
  rw [hnext]
  rcases post_cases hpost with ⟨-, rfl⟩ | ⟨-, pushed, hpush, rfl⟩
  · exact ⟨queued, hcarries, hkept⟩
  · have hobject : ∀ other, (prepared x.queue args).1.object () other =
        Function.update memory.objects msg (filled x.queue args).2 other := by
      intro other
      have hupdate := congrArg (fun mem => mem.objects other) (prepared_memory x.queue args)
      rwa [hmemory, hnext] at hupdate
    have haddr : (prepared x.queue args).2 = msg := hnext
    rw [prepared_queue, hqueue, haddr] at hpush
    have hwritten : Carries k ((prepared x.queue args).1.memory ()) queue queued
        (msg :: x.stack.map Frame.msg) := by
      rw [prepared_memory, hmemory]
      exact hacquired.write _
    obtain ⟨pushed', hpush', hsent⟩ := hwritten.push hk (hwritten.room_of_push hone hk hpush)
    obtain rfl := Option.some.inj (hpush'.symm.trans hpush)
    refine ⟨queued ++ [msg], ?_, fun other hmem => ?_⟩
    · rw [setQueue_queue]
      exact hsent
    by_cases heq : other = msg
    · subst heq
      refine ⟨args, ?_, ?_⟩
      · simp only [Function.update_self]
        exact List.getElem?_concat_length ..
      · have hself := (hobject other).trans (Function.update_self ..)
        exact Eq.mpr (congrArg (Filled args) hself) (fill_filled ..)
    · have hold : other ∈ queued ++ x.stack.map Frame.msg := by
        simpa [heq] using hmem
      obtain ⟨args', hargs', hother⟩ := hkept other hold
      have hsame := (hobject other).trans
        ((Function.update_of_ne heq ..).trans (hobjects other hold))
      exact ⟨args', hargs', Eq.mpr (congrArg (Filled args') hsame) hother⟩

theorem addObserver_frame {sys : System} (s : State sys) (topicId : Nat) (observer : Observer) :
    (SnapshotQueue.addObserver s topicId observer).1.memory = s.memory ∧
      (SnapshotQueue.addObserver s topicId observer).1.queue = s.queue := by
  rw [SnapshotQueue.addObserver]
  split
  · exact ⟨rfl, rfl⟩
  · dsimp only
    split <;> exact ⟨rfl, rfl⟩

theorem SessionInv.addObserver (h : SessionInv x) (topicId : Nat) (observer : Observer) :
    SessionInv { x with queue := (SnapshotQueue.addObserver x.queue topicId observer).1 } := by
  obtain ⟨hmemory, hqueue⟩ := addObserver_frame x.queue topicId observer
  obtain ⟨queued, hcarries, hfilled⟩ := h.carries
  refine ⟨⟨queued, ?_, fun other hmem => ?_⟩, h.passed⟩
  · rw [hmemory, hqueue]
    exact hcarries
  · obtain ⟨args, hargs, hother⟩ := hfilled other hmem
    have hobject := congrArg (fun memory => (memory ()).objects other) hmemory
    exact ⟨args, hargs, Eq.mpr (congrArg (Filled args) hobject) hother⟩

theorem SessionInv.step (h : SessionInv x) (hone : 1 ≤ k) (hk : k < 64) {action : Action}
    (hstep : Nested.step x action = some next) : SessionInv next := by
  cases action with
  | addObserver topicId observer =>
      obtain rfl := Option.some.inj hstep
      exact h.addObserver topicId observer
  | post args => exact h.post hone hk hstep
  | dispatchOne => exact h.dispatchOne hk hstep
  | ret => exact h.ret hstep

theorem init_carries (sys : System) (lane : sys.Lane) :
    Carries (sys.exponent lane) ((SnapshotQueue.init sys).memory lane)
      ((SnapshotQueue.init sys).queue lane) [] [] :=
  (construct_carries ..).1

theorem sessionInv_init : SessionInv (machine k).init where
  carries := ⟨[], init_carries (eventQueueBroadcastFast k) (), fun _ hmem =>
    absurd hmem List.not_mem_nil⟩
  passed _ _ hmem := absurd hmem List.not_mem_nil

theorem reachable_sessionInv (hone : 1 ≤ k) (hk : k < 64) (hreach : (machine k).Reachable x) :
    SessionInv x :=
  hreach.invariant SessionInv sessionInv_init fun _ _ _ h hstep => h.step hone hk hstep

end MessageCenter.SnapshotQueue.Nested
