import MessageCenter.PooledQueue.Destruction
import MessageCenter.SnapshotQueue.BatchOrder
import MessageCenter.SnapshotQueue.References

/-!
# The end of an `EventQueueBroadcastFastBatch`

A message that was posted and not dispatched is in the ring, in `t_batch` or among those that
`dispatchBatch` has taken, and holds the references of its payload there.  The destructor
deletes what is in the pool, and `t_batch` is a variable of the thread: so everything is freed
exactly if neither the ring nor `t_batch` has a message left.
-/

namespace MessageCenter.SnapshotQueue.Batch

open ObjectPoolLockFree PooledQueue
open SharedBatch (BATCH_MAX_TOPICS BATCH_MAX_OBSERVERS format)
open Concurrent (BATCH_SIZE)

variable {k : Nat} {s next : State} {queued waiting taken done : List Addr} {msg : Addr} {i : Nat}
  {busy : List (PayloadId × Int)} {behaviour : Behaviour}

/-- The destructors of the members; `t_batch` is not one of them. -/
def State.destroy (s : State) : State := { s with queue := s.queue.destroy }

/-- Every message object that the pool has allocated and every payload has been freed, once. -/
structure FreedOnce (s : State) : Prop where
  objects : DeletedOnce s.memory s.queue
  payloads : ∀ id, id < s.payloads.nextPayload → s.payloads.live id = none
  /-- no callback has been handed a payload that was freed already -/
  once : ∀ event ∈ s.trace, event.data.isSome

theorem format_counts : format.Counts := snapshotFormat_counts _

/-! ### The invariant -/

/-- The references that messages hold before their dispatch. -/
def owedBy (memory : Memory SnapshotMessage) (msgs : List Addr) : List (PayloadId × Int) :=
  msgs.flatMap fun msg => format.owed (memory.objects msg) 0

/-- All references are those of messages before their dispatch, and those in `busy`. -/
def holdings (memory : Memory SnapshotMessage) (msgs : List Addr) (busy : List (PayloadId × Int)) :
    Unit → List (PayloadId × Int) :=
  fun _ => busy ++ owedBy memory msgs

/-- The ring holds `queued`; `waiting` have been taken from the pool or from the ring, and `done`
have been dispatched, but are not back in the pool.  `busy` are the references that the dispatch
in progress has still to release. -/
structure Settled (k : Nat) (s : State) (queued waiting done : List Addr)
    (busy : List (PayloadId × Int)) : Prop where
  carries : Carries k s.memory s.queue queued (waiting ++ done)
  balanced : Balanced s.memory s.queue (queued.length + (waiting ++ done).length)
  references : References (holdings s.memory (queued ++ waiting) busy) s.payloads
  reads : ∀ other ∈ queued ++ waiting, format.Reads (s.memory.objects other)
  once : ∀ event ∈ s.trace, event.data.isSome

theorem owedBy_perm {memory : Memory SnapshotMessage} {msgs msgs' : List Addr}
    (hperm : msgs'.Perm msgs) : (owedBy memory msgs').Perm (owedBy memory msgs) :=
  hperm.flatMap_right _

theorem owedBy_congr {memory memory' : Memory SnapshotMessage} {msgs : List Addr}
    (hobjects : ∀ msg ∈ msgs, memory'.objects msg = memory.objects msg) :
    owedBy memory' msgs = owedBy memory msgs :=
  List.flatMap_congr fun msg hmem => by rw [hobjects msg hmem]

/-- The order of the messages that are on their way does not matter. -/
theorem Settled.of_perm {waiting' done' : List Addr} (h : Settled k s queued waiting done busy)
    (hwaiting : waiting'.Perm waiting) (hdone : done'.Perm done) :
    Settled k s queued waiting' done' busy := by
  have hheld := hwaiting.append hdone
  refine ⟨h.carries.of_held_perm hheld, ?_, ?_, fun other hmem => ?_, h.once⟩
  · rw [hheld.length_eq]
    exact h.balanced
  · exact h.references.perm fun _ => (owedBy_perm (hwaiting.append_left queued)).append_left busy
  · exact h.reads other ((hwaiting.append_left queued).subset hmem)

theorem settled_initWith (initialSize : Nat) :
    Settled k (initWith (construct format.zero ⟨fun _ => format.zero, 0⟩ initialSize)) [] [] []
      [] where
  carries := (construct_carries ..).1
  balanced := construct_balanced ..
  references := References.empty
  reads _ hmem := absurd hmem List.not_mem_nil
  once _ hmem := absurd hmem List.not_mem_nil

theorem settled_init : Settled k init [] [] [] [] := settled_initWith 512

theorem t_batch_addObserver (s : State) (topicId : Nat) (observer : Observer) :
    (addObserver s topicId observer).t_batch = s.t_batch := by
  rw [addObserver]
  split
  · rfl
  dsimp only
  split <;> rfl

theorem Settled.addObserver (h : Settled k s queued waiting done busy) (topicId : Nat)
    (observer : Observer) : Settled k (addObserver s topicId observer) queued waiting done busy := by
  rw [Batch.addObserver]
  split
  · exact h
  dsimp only
  split
  · exact h
  · exact ⟨h.carries, h.balanced, h.references, h.reads, h.once⟩

/-! ### Posting -/

/-- The new message has been filled, and holds the references of its payload. -/
theorem Settled.prepared (h : Settled k s queued waiting done busy) (call : PostCall)
    (hcount : 1 ≤ (s.m_topics call.topicId).count) :
    Settled k (prepare s call).1 queued ((prepare s call).2 :: waiting) done busy ∧
      ∀ other ∈ done, (prepare s call).1.memory.objects other = s.memory.objects other := by
  obtain ⟨hcarries, hobjects⟩ := prepare_carries h.carries call
  have hwritten : (prepare s call).1.memory.objects (prepare s call).2 = (s.filled call).2 :=
    Function.update_self ..
  have hkept : ∀ other ∈ queued ++ waiting,
      (prepare s call).1.memory.objects other = s.memory.objects other := fun other hmem =>
    (hobjects other (by simp only [List.mem_append] at hmem ⊢; tauto)).2
  have hdone : ∀ other ∈ done,
      (prepare s call).1.memory.objects other = s.memory.objects other := fun other hmem =>
    (hobjects other (by simp only [List.mem_append]; tauto)).2
  refine ⟨⟨hcarries, ?_, ?_, fun other hmem => ?_, h.once⟩, hdone⟩
  · have hacquired := (h.balanced.acquire format.zero).write s.acquired.1 (s.filled call).2
    exact hacquired
  · have hfill := h.references.fill format_counts
      (s.acquired.2.1.objects s.acquired.1) call.topicId hcount
      (s.m_topics call.topicId).observers call.data call.size ()
    refine hfill.perm fun _ => ?_
    rw [Function.update_self]
    have hmoved : (owedBy (prepare s call).1.memory (queued ++ (prepare s call).2 :: waiting)).Perm
        (format.owed (s.filled call).2 0 ++ owedBy s.memory (queued ++ waiting)) := by
      refine (owedBy_perm List.perm_middle).trans ?_
      rw [owedBy, List.flatMap_cons, hwritten]
      exact List.Perm.of_eq (congrArg _ (owedBy_congr hkept))
    refine (hmoved.append_left busy).trans ?_
    rw [← List.append_assoc, holdings, ← List.append_assoc]
    exact List.perm_append_comm.append_right _
  · have hcases : other = (prepare s call).2 ∨ other ∈ queued ++ waiting := by
      simp only [List.mem_append, List.mem_cons] at hmem ⊢
      tauto
    rcases hcases with rfl | hold
    · rw [hwritten]
      exact (format_counts s.payloads (s.acquired.2.1.objects s.acquired.1) call.topicId
        (s.m_topics call.topicId).count (s.m_topics call.topicId).observers call.data
        call.size).2.1
    · rw [hkept other hold]
      exact h.reads other hold

/-- A message goes from the hands of the thread into the ring. -/
theorem Settled.pushed (h : Settled k s queued (msg :: waiting) done busy) (hone : 1 ≤ k)
    (hk : k < 64) (hpush : push k s msg = .ok next) :
    Settled k next (queued ++ [msg]) waiting done busy ∧ next.t_batch = s.t_batch ∧
      next.memory = s.memory := by
  rw [Batch.push] at hpush
  split at hpush
  · next queue hsent =>
    obtain rfl := Except.ok.inj hpush
    have hroom := h.carries.room_of_push hone hk hsent
    obtain ⟨after, hafter, hcarries⟩ := h.carries.push hk hroom
    obtain rfl : after = queue := Option.some.inj (hafter.symm.trans hsent)
    have hmoved : (queued ++ [msg] ++ waiting).Perm (queued ++ msg :: waiting) := by
      rw [List.append_assoc, List.singleton_append]
    refine ⟨⟨hcarries, ?_, ?_, fun other hmem => h.reads other (hmoved.subset hmem), h.once⟩,
      rfl, rfl⟩
    · have hbalanced := h.balanced.push hsent
      rw [List.cons_append, List.length_cons, ← Nat.add_assoc, Nat.add_right_comm] at hbalanced
      rw [List.length_append, List.length_singleton]
      exact hbalanced
    · exact h.references.perm fun _ => (owedBy_perm hmoved).append_left busy
  · cases hpush

theorem Settled.flushMsgs {msgs : List Addr} (h : Settled k s queued (msgs ++ waiting) done busy)
    (hone : 1 ≤ k) (hk : k < 64) (hflush : flushMsgs k msgs s = .ok next) :
    Settled k next (queued ++ msgs) waiting done busy ∧ next.memory = s.memory := by
  induction msgs generalizing s queued with
  | nil =>
      obtain rfl := Except.ok.inj hflush
      rw [List.append_nil]
      exact ⟨h, rfl⟩
  | cons msg rest ih =>
      obtain ⟨middle, hpush, hrest⟩ := ok_of_bind hflush
      obtain ⟨hpushed, -, hmemory⟩ := h.pushed hone hk hpush
      obtain ⟨hdone, hmemory'⟩ := ih hpushed hrest
      rw [List.append_assoc, List.singleton_append] at hdone
      exact ⟨hdone, hmemory'.trans hmemory⟩

theorem Settled.flushBatch (h : Settled k s queued (s.t_batch ++ taken) done busy) (hone : 1 ≤ k)
    (hk : k < 64) (hflush : flushBatch k s = .ok next) :
    ∃ queued', Settled k next queued' (next.t_batch ++ taken) done busy ∧
      next.memory = s.memory := by
  obtain ⟨flushed, hmsgs, rfl⟩ := ok_of_map hflush
  obtain ⟨hdone, hmemory⟩ := h.flushMsgs hone hk hmsgs
  exact ⟨_, ⟨hdone.carries, hdone.balanced, hdone.references, hdone.reads, hdone.once⟩, hmemory⟩

theorem Settled.accumulated (h : Settled k s queued (msg :: (s.t_batch ++ taken)) done busy)
    (haccumulate : accumulate s msg = .ok next) :
    Settled k next queued (next.t_batch ++ taken) done busy ∧ next.memory = s.memory := by
  rw [accumulate] at haccumulate
  split at haccumulate
  · obtain rfl := Except.ok.inj haccumulate
    have hperm : (s.t_batch ++ [msg] ++ taken).Perm (msg :: (s.t_batch ++ taken)) :=
      (List.perm_append_singleton msg s.t_batch).append_right taken
    have hmoved := h.of_perm hperm (List.Perm.refl done)
    exact ⟨⟨hmoved.carries, hmoved.balanced, hmoved.references, hmoved.reads, hmoved.once⟩, rfl⟩
  · cases haccumulate

/-- `post` and `postBatched`; the messages of a dispatch are left alone. -/
theorem Settled.postCall {call : PostCall} {result : Bool}
    (h : Settled k s queued (s.t_batch ++ taken) done busy) (hone : 1 ≤ k) (hk : k < 64)
    (hrun : call.run k s = .ok (next, result)) :
    ∃ queued', Settled k next queued' (next.t_batch ++ taken) done busy ∧
      ∀ other ∈ done, next.memory.objects other = s.memory.objects other := by
  rw [PostCall.run] at hrun
  split at hrun
  · obtain ⟨rfl, -⟩ := Prod.mk.inj (Except.ok.inj hrun)
    exact ⟨queued, h, fun _ _ => rfl⟩
  split at hrun
  · obtain ⟨rfl, -⟩ := Prod.mk.inj (Except.ok.inj hrun)
    exact ⟨queued, h, fun _ _ => rfl⟩
  next hcount =>
  obtain ⟨hprepared, hkept⟩ := h.prepared call (Nat.pos_of_ne_zero hcount)
  obtain ⟨sent, hsent, hnext⟩ := ok_of_map hrun
  obtain ⟨rfl, -⟩ := Prod.mk.inj hnext
  split at hsent
  · obtain ⟨filled, haccumulate, hfull⟩ := ok_of_bind hsent
    obtain ⟨hfilled, hmemory⟩ := hprepared.accumulated haccumulate
    split at hfull
    · obtain ⟨queued', hflushed, hmemory'⟩ := hfilled.flushBatch hone hk hfull
      exact ⟨queued', hflushed, fun other hmem => by rw [hmemory', hmemory, hkept other hmem]⟩
    · obtain rfl := Except.ok.inj hfull
      exact ⟨queued, hfilled, fun other hmem => by rw [hmemory, hkept other hmem]⟩
  · obtain ⟨hpushed, hbatch, hmemory⟩ := hprepared.pushed hone hk hsent
    have hsame : sent.t_batch = s.t_batch := hbatch
    exact ⟨_, hsame.symm ▸ hpushed, fun other hmem => by rw [hmemory, hkept other hmem]⟩

theorem Settled.posts {calls : List PostCall}
    (h : Settled k s queued (s.t_batch ++ taken) done busy) (hone : 1 ≤ k) (hk : k < 64)
    (hposts : posts k s calls = .ok next) :
    ∃ queued', Settled k next queued' (next.t_batch ++ taken) done busy ∧
      ∀ other ∈ done, next.memory.objects other = s.memory.objects other := by
  induction calls generalizing s queued with
  | nil =>
      obtain rfl := Except.ok.inj hposts
      exact ⟨queued, h, fun _ _ => rfl⟩
  | cons call rest ih =>
      obtain ⟨⟨middle, result⟩, hrun, hrest⟩ := ok_of_bind hposts
      obtain ⟨queued', hmiddle, hsame⟩ := h.postCall hone hk hrun
      obtain ⟨queued'', hlast, hsame'⟩ := ih hmiddle hrest
      exact ⟨queued'', hlast, fun other hmem => (hsame' other hmem).trans (hsame other hmem)⟩

/-! ### Dispatches -/

theorem releasePayload_eq (s : State) (msg : Addr) :
    releasePayload s msg =
      { s with payloads := format.releaseIn s.payloads (s.memory.objects msg) } := by
  rw [releasePayload, Format.releaseIn]
  cases format.managed (s.memory.objects msg) <;> rfl

/-- A callback is handed a payload that is alive, and the release after it takes one of the
references of its message. -/
theorem Settled.callObserver
    (h : Settled k s queued (s.t_batch ++ taken) done (format.owed (s.memory.objects msg) i))
    (hone : 1 ≤ k) (hk : k < 64) (hmsg : msg ∈ done)
    (hreads : format.Reads (s.memory.objects msg))
    (hlt : i < format.observerCount (s.memory.objects msg))
    (hcall : callObserver k behaviour msg i s = .ok next) :
    ∃ queued', Settled k next queued' (next.t_batch ++ taken) done
        (format.owed (next.memory.objects msg) (i + 1)) ∧
      next.memory.objects msg = s.memory.objects msg := by
  obtain ⟨asked, hposts, rfl⟩ := ok_of_map hcall
  have hdata : (format.data s.payloads (s.memory.objects msg)).isSome := by
    refine hreads s.payloads fun id hmanaged => ?_
    have htoken : (id, (format.observerCount (s.memory.objects msg) - i : Int)) ∈
        holdings s.memory (queued ++ (s.t_batch ++ taken))
          (format.owed (s.memory.objects msg) i) () := by
      rw [holdings, Format.owed_managed hlt hmanaged]
      exact List.mem_cons_self ..
    obtain ⟨payload, hlive, -⟩ := h.references.live htoken
    rw [hlive, Option.isSome_some]
  have hcalled : Settled k { s with trace := s.trace ++ [s.event msg i] } queued
      (s.t_batch ++ taken) done (format.owed (s.memory.objects msg) i) := by
    refine ⟨h.carries, h.balanced, h.references, h.reads, fun event hmem => ?_⟩
    rcases List.mem_append.mp hmem with hmem | hmem
    · exact h.once event hmem
    · exact List.mem_singleton.mp hmem ▸ hdata
  obtain ⟨queued', hasked, hsame⟩ := hcalled.posts hone hk hposts
  have hobject : asked.memory.objects msg = s.memory.objects msg := hsame msg hmsg
  rw [← hobject] at hasked hlt
  have hreleased := hasked.references.release
    (List.Perm.refl (holdings asked.memory _ (format.owed (asked.memory.objects msg) i) ())) hlt
  rw [releasePayload_eq]
  refine ⟨queued', ⟨hasked.carries, hasked.balanced, ?_, hasked.reads, hasked.once⟩, hobject⟩
  refine hreleased.perm fun _ => ?_
  rw [Function.update_self]
  exact List.Perm.refl _

theorem Settled.callObservers {remaining : Nat}
    (h : Settled k s queued (s.t_batch ++ taken) done (format.owed (s.memory.objects msg) i))
    (hone : 1 ≤ k) (hk : k < 64) (hmsg : msg ∈ done)
    (hreads : format.Reads (s.memory.objects msg))
    (hcount : i + remaining = format.observerCount (s.memory.objects msg))
    (hcalls : callObservers k behaviour msg remaining i s = .ok next) :
    ∃ queued', Settled k next queued' (next.t_batch ++ taken) done [] := by
  induction remaining generalizing s queued i with
  | zero =>
      obtain rfl := Except.ok.inj hcalls
      have hdone : format.owed (s.memory.objects msg) i = [] :=
        Format.owed_done (Nat.le_of_eq hcount.symm)
      exact ⟨queued, hdone ▸ h⟩
  | succ remaining ih =>
      obtain ⟨middle, hfirst, hrest⟩ := ok_of_bind hcalls
      obtain ⟨queued', hmiddle, hobject⟩ := h.callObserver hone hk hmsg hreads (by omega) hfirst
      rw [← hobject] at hreads hcount
      exact ih hmiddle hreads (by omega) hrest

/-- A message that a dispatch has taken goes through the hands of its observers. -/
theorem Settled.dispatchMsg (h : Settled k s queued (s.t_batch ++ msg :: taken) done [])
    (hone : 1 ≤ k) (hk : k < 64) (hdispatch : dispatchMsg k behaviour msg s = .ok next) :
    ∃ queued', Settled k next queued' (next.t_batch ++ taken) (msg :: done) [] := by
  have hmem : msg ∈ queued ++ (s.t_batch ++ msg :: taken) := by
    simp only [List.mem_append, List.mem_cons, true_or, or_true]
  have hmoved : (s.t_batch ++ msg :: taken ++ done).Perm (s.t_batch ++ taken ++ msg :: done) := by
    rw [List.append_assoc, List.append_assoc]
    exact List.perm_middle.symm.append_left s.t_batch
  have hreads := h.reads msg hmem
  have hstart : Settled k { s with dispatched := s.dispatched ++ [s.carried msg] } queued
      (s.t_batch ++ taken) (msg :: done) (format.owed (s.memory.objects msg) 0) := by
    refine ⟨?_, ?_, ?_, fun other hother => ?_, h.once⟩
    · exact h.carries.of_held_perm hmoved.symm
    · rw [← hmoved.length_eq]
      exact h.balanced
    · refine h.references.perm fun _ => ?_
      have hwaiting : (queued ++ (s.t_batch ++ msg :: taken)).Perm
          (msg :: (queued ++ (s.t_batch ++ taken))) :=
        (List.perm_middle.append_left queued).trans List.perm_middle
      exact (owedBy_perm hwaiting).symm
    · refine h.reads other ?_
      simp only [List.mem_append, List.mem_cons] at hother ⊢
      tauto
  exact hstart.callObservers hone hk (List.mem_cons_self ..) hreads (Nat.zero_add _) hdispatch

theorem Settled.dispatchMsgs {batch : List Addr} (h : Settled k s queued (s.t_batch ++ batch) done [])
    (hone : 1 ≤ k) (hk : k < 64) (hdispatch : dispatchMsgs k behaviour batch s = .ok next) :
    ∃ queued', Settled k next queued' next.t_batch (batch ++ done) [] := by
  induction batch generalizing s queued done with
  | nil =>
      obtain rfl := Except.ok.inj hdispatch
      rw [List.append_nil] at h
      exact ⟨queued, h⟩
  | cons msg rest ih =>
      obtain ⟨middle, hfirst, hrest⟩ := ok_of_bind hdispatch
      obtain ⟨queued', hmiddle⟩ := h.dispatchMsg hone hk hfirst
      obtain ⟨queued'', hlast⟩ := ih hmiddle hrest
      exact ⟨queued'', hlast.of_perm (List.Perm.refl _) List.perm_middle.symm⟩

/-- A dispatch takes the oldest message, if there is one. -/
theorem Settled.popped {item : Option Addr} (h : Settled k s queued (s.t_batch ++ taken) done [])
    (hk : k < 64) (hpop : pop k s = .ok (next, item)) :
    ∃ queued', Settled k next queued' (next.t_batch ++ (taken ++ item.toList)) done [] := by
  cases queued with
  | nil =>
      rw [pop, h.carries.pop_nil hk] at hpop
      obtain ⟨rfl, rfl⟩ := Prod.mk.inj (Except.ok.inj hpop)
      rw [Option.toList_none, List.append_nil]
      exact ⟨[], ⟨h.carries, h.balanced, h.references, h.reads, h.once⟩⟩
  | cons msg rest =>
      obtain ⟨queue, htaken, hcarries⟩ := h.carries.pop_cons hk
      rw [pop, htaken] at hpop
      obtain ⟨rfl, rfl⟩ := Prod.mk.inj (Except.ok.inj hpop)
      have hmoved : (s.t_batch ++ (taken ++ [msg])).Perm (msg :: (s.t_batch ++ taken)) := by
        rw [← List.append_assoc]
        exact List.perm_append_singleton ..
      have hheld : Settled k { s with queue := queue } rest (msg :: (s.t_batch ++ taken)) done [] := by
        refine ⟨hcarries, ?_, ?_, ?_, h.once⟩
        · have hbalanced := h.balanced.pop htaken
          rw [List.length_cons, Nat.add_right_comm, Nat.add_assoc] at hbalanced
          exact hbalanced
        · exact h.references.perm fun _ => owedBy_perm List.perm_middle
        · exact fun other hmem => h.reads other (List.perm_middle.subset hmem)
      exact ⟨rest, hheld.of_perm hmoved (List.Perm.refl _)⟩

theorem Settled.takeMsgs {n : Nat} {batch : List Addr}
    (h : Settled k s queued (s.t_batch ++ taken) done []) (hk : k < 64)
    (htake : takeMsgs k n s = .ok (next, batch)) :
    ∃ queued', Settled k next queued' (next.t_batch ++ (taken ++ batch)) done [] := by
  induction n generalizing s queued taken batch with
  | zero =>
      obtain ⟨rfl, rfl⟩ := Prod.mk.inj (Except.ok.inj htake)
      rw [List.append_nil]
      exact ⟨queued, h⟩
  | succ n ih =>
      obtain ⟨⟨middle, item⟩, hpop, hrest⟩ := ok_of_bind htake
      obtain ⟨queued', hmiddle⟩ := h.popped hk hpop
      cases item with
      | none =>
          obtain ⟨rfl, rfl⟩ := Prod.mk.inj (Except.ok.inj hrest)
          exact ⟨queued', hmiddle⟩
      | some msg =>
          obtain ⟨⟨last, rest⟩, hmore, heq⟩ := ok_of_map hrest
          obtain ⟨rfl, rfl⟩ := Prod.mk.inj heq
          obtain ⟨queued'', hlast⟩ := ih hmiddle hmore
          rw [List.append_assoc] at hlast
          exact ⟨queued'', hlast⟩

/-- A message whose observers have been called goes back to the pool. -/
theorem Settled.released (h : Settled k s queued waiting (msg :: done) []) :
    Settled k (release msg s) queued waiting done [] := by
  have hmoved : (msg :: (waiting ++ done)).Perm (waiting ++ msg :: done) := List.perm_middle.symm
  have hcarries := h.carries.of_held_perm hmoved
  have hbalanced := h.balanced
  rw [← hmoved.length_eq, List.length_cons, ← Nat.add_assoc] at hbalanced
  exact ⟨hcarries.release 16384, hbalanced.release 16384 msg, h.references, h.reads, h.once⟩

theorem t_batch_releaseMsgs (batch : List Addr) (s : State) :
    (releaseMsgs batch s).t_batch = s.t_batch := by
  induction batch generalizing s with
  | nil => rfl
  | cons msg rest ih => exact ih (release msg s)

theorem Settled.releaseMsgs {batch : List Addr} (h : Settled k s queued waiting (batch ++ done) []) :
    Settled k (releaseMsgs batch s) queued waiting done [] := by
  induction batch generalizing s with
  | nil => exact h
  | cons msg rest ih => exact ih h.released

/-! ### Runs -/

theorem Settled.dispatchOne {result : Bool} (h : Settled k s queued s.t_batch [] []) (hone : 1 ≤ k)
    (hk : k < 64) (hdispatch : dispatchOne k behaviour s = .ok (next, result)) :
    ∃ queued', Settled k next queued' next.t_batch [] [] := by
  rw [← List.append_nil s.t_batch] at h
  obtain ⟨⟨popped, item⟩, hpop, hrest⟩ := ok_of_bind hdispatch
  obtain ⟨queued', hpopped⟩ := h.popped hk hpop
  cases item with
  | none =>
      obtain ⟨rfl, -⟩ := Prod.mk.inj (Except.ok.inj hrest)
      exact ⟨queued', by simpa using hpopped⟩
  | some msg =>
      obtain ⟨called, hcalled, heq⟩ := ok_of_map hrest
      obtain ⟨rfl, -⟩ := Prod.mk.inj heq
      obtain ⟨queued'', hdone⟩ := hpopped.dispatchMsg hone hk hcalled
      rw [List.append_nil] at hdone
      exact ⟨queued'', hdone.released⟩

theorem Settled.dispatchBatch {maxCount count : Nat} (h : Settled k s queued s.t_batch [] [])
    (hone : 1 ≤ k) (hk : k < 64)
    (hdispatch : dispatchBatch k behaviour maxCount s = .ok (next, count)) :
    ∃ queued', Settled k next queued' next.t_batch [] [] := by
  rw [← List.append_nil s.t_batch] at h
  obtain ⟨⟨fetched, batch⟩, htake, hrest⟩ := ok_of_bind hdispatch
  obtain ⟨called, hcalled, heq⟩ := ok_of_map hrest
  obtain ⟨rfl, -⟩ := Prod.mk.inj heq
  obtain ⟨queued', hfetched⟩ := h.takeMsgs hk htake
  obtain ⟨queued'', hdone⟩ := hfetched.dispatchMsgs hone hk hcalled
  rw [t_batch_releaseMsgs]
  exact ⟨queued'', hdone.releaseMsgs⟩

theorem Settled.dispatchAll {rounds count : Nat} (h : Settled k s queued s.t_batch [] [])
    (hone : 1 ≤ k) (hk : k < 64)
    (hdispatch : dispatchAll k behaviour rounds s = .ok (next, count)) :
    ∃ queued', Settled k next queued' next.t_batch [] [] := by
  induction rounds generalizing s queued count with
  | zero => cases hdispatch
  | succ rounds ih =>
      obtain ⟨⟨middle, found⟩, hfirst, hrest⟩ := ok_of_bind hdispatch
      obtain ⟨queued', hmiddle⟩ := h.dispatchOne hone hk hfirst
      cases found with
      | false =>
          obtain ⟨rfl, -⟩ := Prod.mk.inj (Except.ok.inj hrest)
          exact ⟨queued', hmiddle⟩
      | true =>
          obtain ⟨⟨last, more⟩, hmore, heq⟩ := ok_of_map hrest
          obtain ⟨rfl, -⟩ := Prod.mk.inj heq
          exact ih hmiddle hmore

theorem Settled.step {call : Call} (h : Settled k s queued s.t_batch [] []) (hone : 1 ≤ k)
    (hk : k < 64) (hstep : step k behaviour s call = .ok next) :
    ∃ queued', Settled k next queued' next.t_batch [] [] := by
  have hpost : ∀ (call : PostCall) (result : Bool), call.run k s = .ok (next, result) →
      ∃ queued', Settled k next queued' next.t_batch [] [] := by
    intro call result hrun
    rw [← List.append_nil s.t_batch] at h
    obtain ⟨queued', hposted, -⟩ := h.postCall hone hk hrun
    rw [List.append_nil] at hposted
    exact ⟨queued', hposted⟩
  cases call with
  | addObserver topicId observer =>
      obtain rfl := Except.ok.inj hstep
      rw [t_batch_addObserver]
      exact ⟨queued, h.addObserver topicId observer⟩
  | post topicId data size =>
      obtain ⟨⟨posted, result⟩, hrun, rfl⟩ := ok_of_map hstep
      exact hpost _ result hrun
  | postBatched topicId data size =>
      obtain ⟨⟨posted, result⟩, hrun, rfl⟩ := ok_of_map hstep
      exact hpost _ result hrun
  | flushBatch =>
      rw [← List.append_nil s.t_batch] at h
      obtain ⟨queued', hflushed, -⟩ := h.flushBatch hone hk hstep
      rw [List.append_nil] at hflushed
      exact ⟨queued', hflushed⟩
  | dispatchOne =>
      obtain ⟨⟨dispatched, result⟩, hrun, rfl⟩ := ok_of_map hstep
      exact h.dispatchOne hone hk hrun
  | dispatchBatch maxCount =>
      obtain ⟨⟨dispatched, count⟩, hrun, rfl⟩ := ok_of_map hstep
      exact h.dispatchBatch hone hk hrun
  | dispatchAll rounds =>
      obtain ⟨⟨dispatched, count⟩, hrun, rfl⟩ := ok_of_map hstep
      exact h.dispatchAll hone hk hrun

theorem Settled.run {calls : List Call} (h : Settled k s queued s.t_batch [] []) (hone : 1 ≤ k)
    (hk : k < 64) (hrun : run k behaviour s calls = .ok next) :
    ∃ queued', Settled k next queued' next.t_batch [] [] := by
  induction calls generalizing s queued with
  | nil =>
      obtain rfl := Except.ok.inj hrun
      exact ⟨queued, h⟩
  | cons call rest ih =>
      obtain ⟨middle, hstep, hrest⟩ := ok_of_bind hrun
      obtain ⟨queued', hmiddle⟩ := h.step hone hk hstep
      exact ih hmiddle hrest

/-! ### Destruction -/

theorem Settled.freedOnce_iff (h : Settled k s queued s.t_batch [] []) (hk : k < 64) :
    FreedOnce s.destroy ↔ s.queued k = [] ∧ s.t_batch = [] := by
  have hobjects := h.carries.deletedOnce_iff h.balanced
  have hqueued : s.queued k = queued := h.carries.contents_eq hk
  rw [List.append_nil] at hobjects
  rw [hqueued, ← hobjects]
  refine ⟨fun hfreed => hfreed.objects, fun hdeleted => ⟨hdeleted, fun id _ => ?_, h.once⟩⟩
  obtain ⟨rfl, hbatch⟩ := hobjects.mp hdeleted
  refine h.references.none_live (fun _ => ?_) id
  rw [holdings, hbatch]
  rfl

/-- **Destruction of an `EventQueueBroadcastFastBatch`.**  A run and then the destructor free
everything exactly if the run has left no message in the ring and none in `t_batch`. -/
theorem freedOnce_iff_flushed (hone : 1 ≤ k) (hk : k < 64) {calls : List Call}
    (hrun : run k behaviour init calls = .ok s) :
    FreedOnce s.destroy ↔ s.queued k = [] ∧ s.t_batch = [] := by
  obtain ⟨queued, hsettled⟩ := Settled.run settled_init hone hk hrun
  exact hsettled.freedOnce_iff hk

/-- A message that waits in `t_batch` is left behind, also when the ring is empty. -/
theorem freedOnce_iff_flushed_waiting :
    ∃ s, run 1 (fun _ => []) init [.addObserver 5 ⟨1, 7⟩,
        .postBatched 5 (some (List.replicate 50 9)) 50, .dispatchAll 1] = .ok s ∧
      s.queued 1 = [] ∧ ¬ FreedOnce s.destroy := by
  have hwaits : (run 1 (fun _ => []) init [.addObserver 5 ⟨1, 7⟩,
      .postBatched 5 (some (List.replicate 50 9)) 50, .dispatchAll 1]).map
        (fun s => (s.queued 1, s.t_batch.length)) = .ok ([], 1) := by
    decide +kernel
  obtain ⟨s, hrun, heq⟩ := ok_of_map hwaits
  obtain ⟨hqueued, hlength⟩ := Prod.mk.inj heq
  refine ⟨s, hrun, hqueued, fun hfreed => ?_⟩
  obtain ⟨-, hbatch⟩ := (freedOnce_iff_flushed (by decide) (by decide) hrun).mp hfreed
  rw [hbatch] at hlength
  cases hlength

end MessageCenter.SnapshotQueue.Batch
