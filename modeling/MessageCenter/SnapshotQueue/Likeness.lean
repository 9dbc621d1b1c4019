import MessageCenter.SnapshotQueue.Nested

/-!
# `EventQueueBroadcastFast` apart from the payload bytes

Two sessions are alike if they differ only in the bytes of payloads.  A message object that
comes back from the pool still holds the bytes of an earlier post, but no call decides
anything by them, so alike calls lead from alike sessions to alike sessions.
-/

namespace MessageCenter.SnapshotQueue.Nested

open Concurrency ObjectPoolLockFree PooledQueue

variable {k : Nat}

/-! ### Heaps -/

structure HeapAlike (heap heap' : PayloadHeap) : Prop where
  nextPayload : heap.nextPayload = heap'.nextPayload
  refCount : ∀ id, (heap.live id).map RefCountedPayload.m_refCount =
    (heap'.live id).map RefCountedPayload.m_refCount

variable {heap heap' : PayloadHeap}

theorem HeapAlike.set (h : HeapAlike heap heap') (id : PayloadId)
    (payload payload' : Option RefCountedPayload)
    (hcount : payload.map RefCountedPayload.m_refCount =
      payload'.map RefCountedPayload.m_refCount) :
    HeapAlike (heap.set id payload) (heap'.set id payload') where
  nextPayload := h.nextPayload
  refCount other := by
    by_cases heq : other = id
    · subst heq
      rw [PayloadHeap.set_live_self, PayloadHeap.set_live_self, hcount]
    · rw [PayloadHeap.set_live_ne _ heq, PayloadHeap.set_live_ne _ heq, h.refCount]

theorem HeapAlike.addRefs (h : HeapAlike heap heap') (id : PayloadId) (count : Int) :
    HeapAlike (heap.addRefs id count) (heap'.addRefs id count) := by
  have hcount := h.refCount id
  rw [PayloadHeap.addRefs, PayloadHeap.addRefs]
  cases hlive : heap.live id <;> cases hlive' : heap'.live id <;>
    simp only [hlive, hlive', Option.map_none, Option.map_some, reduceCtorEq,
      Option.some.injEq] at hcount
  · exact h
  · exact h.set id _ _ (by simp only [Option.map_some, hcount])

theorem HeapAlike.createFor (h : HeapAlike heap heap') (data data' : List UInt8)
    (size count : Nat) :
    HeapAlike (heap.createFor data size count).2 (heap'.createFor data' size count).2 := by
  have hcreate : HeapAlike (heap.create data size).2 (heap'.create data' size).2 := by
    have hset := h.set heap'.nextPayload (some ⟨1, size, data.take size⟩)
      (some ⟨1, size, data'.take size⟩) rfl
    rw [PayloadHeap.create, PayloadHeap.create, h.nextPayload]
    exact ⟨rfl, hset.refCount⟩
  simp only [PayloadHeap.createFor]
  split
  · have hid : (heap.create data size).1 = (heap'.create data' size).1 := h.nextPayload
    rw [hid]
    exact hcreate.addRefs _ _
  · exact hcreate

theorem HeapAlike.release (h : HeapAlike heap heap') (id : PayloadId) :
    HeapAlike (heap.release id).1 (heap'.release id).1 := by
  have hcount := h.refCount id
  rw [PayloadHeap.release, PayloadHeap.release]
  cases hlive : heap.live id <;> cases hlive' : heap'.live id <;>
    simp only [hlive, hlive', Option.map_none, Option.map_some, reduceCtorEq,
      Option.some.injEq] at hcount
  · exact h
  · simp only [hcount]
    split
    · exact h.set id none none rfl
    · exact h.set id _ _ (by simp only [Option.map_some])

/-! ### Messages -/

/-- The arguments differ in bytes alone. -/
structure ArgsAlike (args args' : PostArgs Unit) : Prop where
  topicId : args.topicId = args'.topicId
  buffer : args.data.isSome = args'.data.isSome
  size : args.size = args'.size

structure MessageAlike (message message' : SnapshotMessage) : Prop where
  topicId : message.topicId = message'.topicId
  observerCount : message.observerCount = message'.observerCount
  isInline : message.isInline = message'.isInline
  payloadSize : message.payloadSize = message'.payloadSize
  observers : message.observers = message'.observers
  managed : (snapshotFormat FAST_INLINE_MAX).managed message =
    (snapshotFormat FAST_INLINE_MAX).managed message'

theorem MessageAlike.refl (message : SnapshotMessage) : MessageAlike message message :=
  ⟨rfl, rfl, rfl, rfl, rfl, rfl⟩

theorem objects_write {objects objects' : Addr → SnapshotMessage}
    (h : ∀ msg, MessageAlike (objects msg) (objects' msg)) (addr : Addr)
    {message message' : SnapshotMessage} (hmessage : MessageAlike message message') (msg : Addr) :
    MessageAlike (Function.update objects addr message msg)
      (Function.update objects' addr message' msg) := by
  by_cases heq : msg = addr
  · subst heq
    rw [Function.update_self, Function.update_self]
    exact hmessage
  · rw [Function.update_of_ne heq, Function.update_of_ne heq]
    exact h msg

/-- A post fills alike objects alike. -/
theorem MessageAlike.fill {old old' : SnapshotMessage} (hold : MessageAlike old old')
    (hheap : HeapAlike heap heap') (topicId count : Nat) (observers : Nat → Observer)
    (data data' : Option (List UInt8)) (size : Nat) :
    HeapAlike
        ((snapshotFormat FAST_INLINE_MAX).fill heap old topicId count observers data size).1
        ((snapshotFormat FAST_INLINE_MAX).fill heap' old' topicId count observers data' size).1 ∧
      MessageAlike
        ((snapshotFormat FAST_INLINE_MAX).fill heap old topicId count observers data size).2
        ((snapshotFormat FAST_INLINE_MAX).fill heap' old' topicId count observers data' size).2 := by
  have hcopy := congrArg (fun kept => copyObservers kept observers count) hold.observers
  simp only [snapshotFormat]
  split
  · exact ⟨hheap, rfl, rfl, rfl, rfl, hcopy, rfl⟩
  · refine ⟨hheap.createFor _ _ size count, rfl, rfl, rfl, rfl, hcopy, ?_⟩
    simp only [snapshotFormat, PayloadUnion.managed_setManaged, PayloadHeap.createFor_id,
      hheap.nextPayload]

/-! ### Queues -/

structure StateAlike (s s' : State (eventQueueBroadcastFast k)) : Prop where
  queue : s.queue () = s'.queue ()
  nextAddr : (s.memory ()).nextAddr = (s'.memory ()).nextAddr
  objects : ∀ msg, MessageAlike (s.object () msg) (s'.object () msg)
  topics : s.m_topics = s'.m_topics
  payloads : HeapAlike s.payloads s'.payloads

variable {s s' : State (eventQueueBroadcastFast k)}

theorem StateAlike.setQueue (h : StateAlike s s') (queue : PooledQueue) :
    StateAlike (s.setQueue () queue) (s'.setQueue () queue) :=
  ⟨(setQueue_queue s queue).trans (setQueue_queue s' queue).symm, h.nextAddr, h.objects, h.topics,
    h.payloads⟩

theorem StateAlike.addObserver (h : StateAlike s s') (topicId : Nat) (observer : Observer) :
    StateAlike (SnapshotQueue.addObserver s topicId observer).1
      (SnapshotQueue.addObserver s' topicId observer).1 := by
  rw [SnapshotQueue.addObserver, SnapshotQueue.addObserver, h.topics]
  split
  · exact h
  · dsimp only
    split
    · exact h
    · exact ⟨h.queue, h.nextAddr, h.objects, rfl, h.payloads⟩

theorem StateAlike.releasePayload (h : StateAlike s s') (msg : Addr) :
    StateAlike (releasePayload s msg) (releasePayload s' msg) := by
  have hmanaged : ((eventQueueBroadcastFast k).format ()).managed (s.object () msg) =
      ((eventQueueBroadcastFast k).format ()).managed (s'.object () msg) := (h.objects msg).managed
  rw [Nested.releasePayload, Nested.releasePayload, hmanaged]
  split
  · next id _ => exact ⟨h.queue, h.nextAddr, h.objects, h.topics, h.payloads.release id⟩
  · exact h

/-- The pools hand out the same object, and new objects are the same. -/
theorem StateAlike.acquired (h : StateAlike s s') :
    nextMessage s = nextMessage s' ∧ (acquired s).2 = (acquired s').2 ∧
      (acquired s).1.nextAddr = (acquired s').1.nextAddr ∧
      ∀ msg, MessageAlike ((acquired s).1.objects msg) ((acquired s').1.objects msg) := by
  have hnext := h.nextAddr
  simp only [nextMessage, Nested.acquired, PooledQueue.acquire, h.queue]
  split
  · exact ⟨rfl, rfl, hnext, h.objects⟩
  · refine ⟨hnext, rfl, congrArg (· + 1) hnext, fun msg => ?_⟩
    simp only [Memory.new, hnext]
    exact objects_write h.objects _ (.refl _) msg

theorem StateAlike.filled (h : StateAlike s s') {args args' : PostArgs Unit}
    (hargs : ArgsAlike args args') :
    HeapAlike (filled s args).1 (filled s' args').1 ∧
      MessageAlike (filled s args).2 (filled s' args').2 := by
  obtain ⟨hmsg, -, -, hobjects⟩ := h.acquired
  have hold := hobjects (nextMessage s')
  simp only [Nested.filled, hmsg, h.topics, hargs.topicId, hargs.size]
  exact hold.fill h.payloads ..

theorem StateAlike.prepared (h : StateAlike s s') {args args' : PostArgs Unit}
    (hargs : ArgsAlike args args') :
    StateAlike (prepared s args).1 (prepared s' args').1 ∧
      (prepared s args).2 = (prepared s' args').2 := by
  obtain ⟨hmsg, hqueue, hnext, hobjects⟩ := h.acquired
  obtain ⟨hheap, hmessage⟩ := h.filled hargs
  refine ⟨⟨?_, ?_, fun msg => ?_, h.topics, hheap⟩, hmsg⟩
  · rw [prepared_queue, prepared_queue, hqueue]
  · rw [prepared_memory, prepared_memory]
    exact hnext
  · have hwrite := objects_write hobjects (nextMessage s') hmessage msg
    have hobject : ∀ s : State (eventQueueBroadcastFast k), ∀ args,
        (Nested.prepared s args).1.object () msg = Function.update (Nested.acquired s).1.objects
          (nextMessage s) (Nested.filled s args).2 msg :=
      fun s args => congrArg (fun memory => memory.objects msg) (prepared_memory s args)
    have hleft := hobject s args
    rw [hmsg] at hleft
    exact Eq.mpr (congrArg₂ MessageAlike hleft (hobject s' args')) hwrite

theorem StateAlike.skipped_iff (h : StateAlike s s') {args args' : PostArgs Unit}
    (hargs : ArgsAlike args args') : Skipped s args ↔ Skipped s' args' := by
  simp only [Skipped, h.topics, hargs.topicId, hargs.size]

theorem StateAlike.post (h : StateAlike s s') {args args' : PostArgs Unit}
    (hargs : ArgsAlike args args') {next next' : State (eventQueueBroadcastFast k)}
    {result result' : Bool} (hpost : SnapshotQueue.post s args = some (next, result))
    (hpost' : SnapshotQueue.post s' args' = some (next', result')) : StateAlike next next' := by
  rcases post_cases hpost with ⟨hskipped, rfl⟩ | ⟨hsent, queue, hpush, rfl⟩ <;>
    rcases post_cases hpost' with ⟨hskipped', rfl⟩ | ⟨hsent', queue', hpush', rfl⟩
  · exact h
  · exact absurd ((h.skipped_iff hargs).mp hskipped) hsent'
  · exact absurd ((h.skipped_iff hargs).mpr hskipped') hsent
  · obtain ⟨hstate, hmsg⟩ := h.prepared hargs
    have hpushed : some queue = some queue' := by
      rw [← hpush, ← hpush', hmsg]
      exact congrArg (fun queue => PooledQueue.push (2 ^ k) queue (Nested.prepared s' args').2)
        hstate.queue
    rw [Option.some.inj hpushed]
    exact hstate.setQueue queue'

/-! ### Sessions -/

structure Session.Alike (x y : Session k) : Prop where
  queue : StateAlike x.queue y.queue
  stack : x.stack = y.stack
  posts : x.posted.length = y.posted.length
  carried : x.carried = y.carried
  calls : x.calls.map (fun call => (call.1, { call.2 with data := none })) =
    y.calls.map (fun call => (call.1, { call.2 with data := none }))

/-- The calls differ in bytes alone. -/
inductive Action.Alike : Action → Action → Prop
  | same (action : Action) : Alike action action
  | post {args args' : PostArgs Unit} (h : ArgsAlike args args') :
      Alike (.post args) (.post args')

variable {x y next next' : Session k}

theorem Session.Alike.loop (h : x.Alike y) (msg : Addr) (i : Nat) :
    (x.loop msg i).Alike (y.loop msg i) := by
  have hcount : ((eventQueueBroadcastFast k).format ()).observerCount (x.queue.object () msg) =
      ((eventQueueBroadcastFast k).format ()).observerCount (y.queue.object () msg) :=
    (h.queue.objects msg).observerCount
  rw [Session.loop, Session.loop, hcount]
  split
  · refine { h with stack := by rw [h.stack], calls := ?_ }
    have hmessage := h.queue.objects msg
    have hevent : ({ eventAt x.queue msg i with data := none } : CallEvent) =
        { eventAt y.queue msg i with data := none } := by
      simp only [CallEvent.mk.injEq]
      exact ⟨congrFun hmessage.observers i, hmessage.topicId, trivial, hmessage.payloadSize⟩
    simp only [List.map_append, h.calls, List.map_cons, List.map_nil, h.carried, hevent]
  · refine { h with queue := ?_ }
    rw [h.queue.queue]
    exact h.queue.setQueue _

theorem Session.Alike.dispatchOne (h : x.Alike y) (hstep : x.dispatchOne = some next)
    (hstep' : y.dispatchOne = some next') : next.Alike next' := by
  rw [Session.dispatchOne] at hstep hstep'
  rw [h.queue.queue] at hstep
  split at hstep
  · cases hstep
  · next queue hpop =>
    simp only [hpop, Option.some.injEq] at hstep hstep'
    subst hstep hstep'
    exact { h with queue := h.queue.setQueue queue }
  · next queue msg hpop =>
    simp only [hpop, Option.some.injEq] at hstep hstep'
    subst hstep hstep'
    have htaken : Session.Alike { x with queue := x.queue.setQueue () queue }
        { y with queue := y.queue.setQueue () queue } :=
      { h with queue := h.queue.setQueue queue }
    exact htaken.loop msg 0

theorem Session.Alike.ret (h : x.Alike y) (hstep : x.ret = some next)
    (hstep' : y.ret = some next') : next.Alike next' := by
  rw [Session.ret] at hstep hstep'
  rw [h.stack] at hstep
  split at hstep
  · cases hstep
  · next msg i below hstack =>
    simp only [hstack, Option.some.injEq] at hstep hstep'
    subst hstep hstep'
    have hreleased : Session.Alike { x with queue := releasePayload x.queue msg, stack := below }
        { y with queue := releasePayload y.queue msg, stack := below } :=
      { h with queue := h.queue.releasePayload msg, stack := rfl }
    exact hreleased.loop msg (i + 1)

theorem Session.Alike.post (h : x.Alike y) {args args' : PostArgs Unit}
    (hargs : ArgsAlike args args') (hstep : x.post args = some next)
    (hstep' : y.post args' = some next') : next.Alike next' := by
  obtain ⟨⟨queue, result⟩, hpost, rfl⟩ := Option.map_eq_some_iff.mp hstep
  obtain ⟨⟨queue', result'⟩, hpost', rfl⟩ := Option.map_eq_some_iff.mp hstep'
  refine { h with queue := h.queue.post hargs hpost hpost', posts := ?_, carried := ?_ }
  · simp only [List.length_append, h.posts, List.length_singleton]
  · simp only [h.queue.acquired.1, h.carried, h.posts]

theorem Session.Alike.step (h : x.Alike y) {action action' : Action} (haction : action.Alike action')
    (hstep : Nested.step x action = some next) (hstep' : Nested.step y action' = some next') :
    next.Alike next' := by
  cases haction with
  | post hargs => exact h.post hargs hstep hstep'
  | same =>
      cases action with
      | addObserver topicId observer =>
          obtain rfl := Option.some.inj hstep
          obtain rfl := Option.some.inj hstep'
          exact { h with queue := h.queue.addObserver topicId observer }
      | post args => exact h.post ⟨rfl, rfl, rfl⟩ hstep hstep'
      | dispatchOne => exact h.dispatchOne hstep hstep'
      | ret => exact h.ret hstep hstep'

/-- Runs whose calls differ in bytes alone. -/
theorem Session.Alike.run (h : x.Alike y) {actions actions' : List Action}
    (hactions : List.Forall₂ Action.Alike actions actions')
    (hrun : (machine k).run x actions = some next)
    (hrun' : (machine k).run y actions' = some next') : next.Alike next' := by
  induction hactions generalizing x y with
  | nil =>
      obtain rfl := Option.some.inj hrun
      obtain rfl := Option.some.inj hrun'
      exact h
  | cons haction _ ih =>
      obtain ⟨middle, hmiddle, hrest⟩ := Option.bind_eq_some_iff.mp hrun
      obtain ⟨middle', hmiddle', hrest'⟩ := Option.bind_eq_some_iff.mp hrun'
      exact ih (h.step haction hmiddle hmiddle') hrest hrest'

theorem session_alike {actions actions' : List Action}
    (hactions : List.Forall₂ Action.Alike actions actions')
    (hrun : (machine k).run (machine k).init actions = some x)
    (hrun' : (machine k).run (machine k).init actions' = some y) : x.Alike y := by
  refine Session.Alike.run ⟨⟨rfl, rfl, fun _ => .refl _, rfl, rfl, fun _ => rfl⟩, rfl, rfl, rfl, rfl⟩
    hactions hrun hrun'

/-! ### What the callbacks of one post receive -/

/-- The callbacks of a post so far. -/
def Session.received (x : Session k) (call : Nat) : List CallEvent :=
  (x.calls.filter (·.1 = call)).map Prod.snd

/-- The callbacks of an inline post with a buffer have read the buffer. -/
theorem SessionInv.received (h : SessionInv x) {call : Nat} {args : PostArgs Unit}
    (hargs : x.posted[call]? = some args) (hsmall : args.size ≤ FAST_INLINE_MAX)
    (hbuffer : args.data.isSome ∨ args.size = 0) :
    x.received call = ((x.calls.map fun call => (call.1, { call.2 with data := none })).filter
      (·.1 = call)).map fun call =>
        { call.2 with data := some (row (args.data.getD []) args.size) } := by
  rw [Session.received, List.filter_map, List.map_map]
  apply List.map_congr_left
  rintro ⟨call', event⟩ hmem
  obtain ⟨hcall, heq⟩ := List.mem_filter.mp hmem
  obtain rfl : call' = call := of_decide_eq_true heq
  obtain ⟨args', hargs', hpassed⟩ := h.passed call' event hcall
  obtain rfl := Option.some.inj (hargs.symm.trans hargs')
  obtain ⟨cells, hdata, hlength, hcells⟩ := hpassed.inlined hsmall
  have hrow : cells = row (args.data.getD []) args.size := by
    rcases hbuffer with hsome | hzero
    · obtain ⟨bytes, hbytes⟩ := Option.isSome_iff_exists.mp hsome
      rw [hbytes]
      exact hcells bytes hbytes
    · rw [hzero] at hlength ⊢
      exact List.length_eq_zero_iff.mp hlength
  simp only [Function.comp_apply, ← hrow, ← hdata]

theorem received_same (h : x.Alike y) (hx : SessionInv x) (hy : SessionInv y) {call : Nat}
    {args : PostArgs Unit} (hargs : x.posted[call]? = some args)
    (hargs' : y.posted[call]? = some args) (hsmall : args.size ≤ FAST_INLINE_MAX)
    (hbuffer : args.data.isSome ∨ args.size = 0) : x.received call = y.received call := by
  rw [hx.received hargs hsmall hbuffer, hy.received hargs' hsmall hbuffer, h.calls]

end MessageCenter.SnapshotQueue.Nested
