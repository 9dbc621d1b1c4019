import MessageCenter.EventQueueBroadcast.Destruction
import MessageCenter.SnapshotQueue.BatchDestruction
import MessageCenter.SnapshotQueue.Destruction

/-!
# Destruction of the pooled queues

The four classes share their pool and their ring, and with them what the destructors forget:
`~ObjectPoolLockFree` walks the free list, and `MPMCQueue` has no destructor.  A message that is
still queued is left where it is, with its payload.  (`~MessageCenterFast` calls `stop` before, and
that dispatches what is queued.)
-/

namespace MessageCenter

open ObjectPoolLockFree PooledQueue
open SnapshotQueue (eventQueueBroadcastFast eventQueueEmulator)

/-- The youngest object of a pool is left behind. -/
theorem PooledQueue.not_deletedOnce {M : Type} {mem : Memory M} {queue : PooledQueue} {addr : Addr}
    (hleft : (mem.nextAddr, queue.deleted.count addr) = (addr + 1, 0)) :
    ¬ DeletedOnce mem queue := by
  obtain ⟨hnext, hcount⟩ := Prod.mk.inj hleft
  intro hdeleted
  have hone := hdeleted addr (hnext ▸ Nat.lt_succ_self addr)
  rw [hcount] at hone
  cases hone

/-- Whatever has been called, the destructor deletes every message object once but those in the
rings, and it frees everything exactly if there are none. -/
def SnapshotQueue.LosesQueued (sys : System) : Prop :=
  ∀ (behaviour : Behaviour sys) (calls : List (Call sys.Lane)) (s : State sys),
    run behaviour (init sys) calls = some s →
      (∀ lane addr, addr < (s.memory lane).nextAddr →
        (s.destroy.queue lane).deleted.count addr =
          if addr ∈ (s.queue lane).m_queue.contents (2 ^ sys.exponent lane) then 0 else 1) ∧
      (FreedOnce s.destroy ↔ s.IsEmpty)

/-- In an `EventQueueBroadcastFastBatch` messages wait in `t_batch` too. -/
def SnapshotQueue.Batch.LosesWaiting (k : Nat) : Prop :=
  ∀ (behaviour : Behaviour) (calls : List Call) (s : State),
    run k behaviour init calls = .ok s →
      (∀ addr, addr < s.memory.nextAddr →
        s.destroy.queue.deleted.count addr = if addr ∈ s.queued k ++ s.t_batch then 0 else 1) ∧
      (FreedOnce s.destroy ↔ s.queued k = [] ∧ s.t_batch = [])

/-- The payloads of an `EventQueueBroadcast` are freed too early if the dispatch of a managed
message meets more observers than `post` has counted. -/
def EventQueueBroadcast.LosesQueued (k : Nat) : Prop :=
  ∀ (behaviour : List Event → List Request) (calls : List Call) (s : State),
    run behaviour (2 ^ k) init calls = some s →
      (∀ addr, addr < s.memory.nextAddr →
        s.destroy.queue.deleted.count addr =
          if addr ∈ s.queue.m_queue.contents (2 ^ k) then 0 else 1) ∧
      (FreedOnce s.destroy ↔
        s.queue.m_queue.contents (2 ^ k) = [] ∧ SameObservers behaviour (2 ^ k) init calls)

/-! ### The classes -/

theorem SnapshotQueue.losesQueued {sys : System} (hsys : sys.Counts) : LosesQueued sys := by
  intro behaviour calls s hrun
  obtain ⟨queued, hsettled⟩ := (settled_init sys).run hsys hrun
  refine ⟨fun lane addr hlt => ?_, hsettled.freedOnce_iff hsys⟩
  have hcount := (hsettled.carries lane).count_destroy (hsettled.balanced lane) hlt
  rw [(hsettled.carries lane).contents_eq (hsys.exponent lane)]
  rwa [List.append_nil] at hcount

theorem SnapshotQueue.Batch.losesWaiting {k : Nat} (hone : 1 ≤ k) (hk : k < 64) :
    LosesWaiting k := by
  intro behaviour calls s hrun
  obtain ⟨queued, hsettled⟩ := Settled.run settled_init hone hk hrun
  refine ⟨fun addr hlt => ?_, hsettled.freedOnce_iff hk⟩
  have hcount := hsettled.carries.count_destroy hsettled.balanced hlt
  have hqueued : s.queued k = queued := hsettled.carries.contents_eq hk
  rw [hqueued]
  rwa [List.append_nil] at hcount

theorem EventQueueBroadcast.losesQueued {k : Nat} (hone : 1 ≤ k) (hk : k < 64) :
    LosesQueued k := by
  intro behaviour calls s hrun
  have hinv : Inv k init [] [] [] := inv_initWith (construct_carries ..).1
  have hnone : ∀ id, Lifetime (history init.trace id) := fun _ => lifetime_nil
  obtain ⟨queued, howned⟩ := Owned.run (owned_initWith 256) hone hk hrun
  refine ⟨fun addr hlt => ?_, ?_⟩
  · have hcount := howned.carries.count_destroy howned.balanced hlt
    rw [howned.carries.contents_eq hk]
    rwa [List.append_nil] at hcount
  · rw [howned.freedOnce_iff hk, hinv.run hone hk hrun, and_iff_right hnone]

/-- **Leaks at destruction.**  In each class what waits for a dispatch is left behind, and nothing
else is. -/
theorem pooledQueues_losesWaiting {k fast bulk : Nat} (hk : 1 ≤ k ∧ k < 64)
    (hfast : 1 ≤ fast ∧ fast < 64) (hbulk : 1 ≤ bulk ∧ bulk < 64) :
    SnapshotQueue.LosesQueued (eventQueueBroadcastFast k) ∧
      SnapshotQueue.Batch.LosesWaiting k ∧
      EventQueueBroadcast.LosesQueued k ∧
      SnapshotQueue.LosesQueued (eventQueueEmulator fast bulk) :=
  ⟨SnapshotQueue.losesQueued (SnapshotQueue.eventQueueBroadcastFast_counts hk.1 hk.2),
    SnapshotQueue.Batch.losesWaiting hk.1 hk.2, EventQueueBroadcast.losesQueued hk.1 hk.2,
    SnapshotQueue.losesQueued (SnapshotQueue.eventQueueEmulator_counts hfast hbulk)⟩

/-- The only dispatch meets the one observer that the post has counted. -/
theorem EventQueueBroadcast.sameObservers_postThenDispatch :
    SameObservers (fun _ => []) (2 ^ 1) init (postThenDispatch []) := by
  intro before after state heq hrun queue msg hpop hmanaged
  have hcounted : (run (fun _ => []) (2 ^ 1) init
      [.request (.addObserver 0 1), .request (.post 0 (some (List.replicate 49 1)) 49)]).map
        (fun s => (s.queue.pop (2 ^ 1)).bind fun popped => popped.2.map fun msg =>
          (((s.m_observers (s.memory.objects msg).topicId).getD []).length,
            (s.memory.objects msg).observerCount)) = some (some (1, 1)) := by
    decide +kernel
  have hbefore : before =
      [.request (.addObserver 0 1), .request (.post 0 (some (List.replicate 49 1)) 49)] := by
    rcases before with _ | ⟨first, _ | ⟨second, _ | ⟨third, rest⟩⟩⟩
    · simp [postThenDispatch] at heq
    · simp [postThenDispatch] at heq
    · obtain ⟨rfl, rfl, -⟩ : _ ∧ _ ∧ _ := by simpa [postThenDispatch] using heq
      rfl
    · simp [postThenDispatch] at heq
  rw [hbefore] at hrun
  rw [hrun, Option.map_some, hpop, Option.some.injEq] at hcounted
  obtain ⟨hobservers, hcount⟩ := Prod.mk.inj (Option.some.inj hcounted)
  rw [hobservers, hcount]

/-- In each class a post and its dispatch leave nothing behind. -/
theorem pooledQueues_losesWaiting_dispatched :
    (∃ s, SnapshotQueue.run (fun _ => []) (SnapshotQueue.init (eventQueueBroadcastFast 1))
        [.addObserver 5 ⟨1, 7⟩, .post ⟨(), 5, some (List.replicate 50 9), 50⟩, .dispatchOne ()] =
          some s ∧ SnapshotQueue.FreedOnce s.destroy) ∧
    (∃ s, SnapshotQueue.Batch.run 1 (fun _ => []) SnapshotQueue.Batch.init
        [.addObserver 5 ⟨1, 7⟩, .postBatched 5 (some (List.replicate 50 9)) 50, .flushBatch,
          .dispatchAll 2] = .ok s ∧ SnapshotQueue.Batch.FreedOnce s.destroy) ∧
    (∃ s, EventQueueBroadcast.run (fun _ => []) (2 ^ 1) EventQueueBroadcast.init
        (EventQueueBroadcast.postThenDispatch []) = some s ∧
      EventQueueBroadcast.FreedOnce s.destroy) ∧
    (∃ s, SnapshotQueue.run (fun _ => []) (SnapshotQueue.init (eventQueueEmulator 1 1))
        [.addObserver 5 ⟨1, 7⟩, .post ⟨.bulk, 5, some (List.replicate 50 9), 50⟩,
          .post ⟨.fast, 5, some [9], 1⟩, .dispatchOne .fast, .dispatchOne .bulk] = some s ∧
      SnapshotQueue.FreedOnce s.destroy) := by
  obtain ⟨hfast, hbatch, hbroadcast, hemulator⟩ := pooledQueues_losesWaiting
    (by decide : 1 ≤ 1 ∧ 1 < 64) (by decide : 1 ≤ 1 ∧ 1 < 64) (by decide : 1 ≤ 1 ∧ 1 < 64)
  refine ⟨?_, ?_, ?_, ?_⟩
  · have hdrained : (SnapshotQueue.run (fun _ => [])
        (SnapshotQueue.init (eventQueueBroadcastFast 1))
        [.addObserver 5 ⟨1, 7⟩, .post ⟨(), 5, some (List.replicate 50 9), 50⟩,
          .dispatchOne ()]).map (fun s => (s.queue ()).m_queue.contents (2 ^ 1)) = some [] := by
      decide +kernel
    obtain ⟨s, hrun, hempty⟩ := Option.map_eq_some_iff.mp hdrained
    exact ⟨s, hrun, (hfast _ _ s hrun).2.mpr fun _ => hempty⟩
  · have hdrained : (SnapshotQueue.Batch.run 1 (fun _ => []) SnapshotQueue.Batch.init
        [.addObserver 5 ⟨1, 7⟩, .postBatched 5 (some (List.replicate 50 9)) 50, .flushBatch,
          .dispatchAll 2]).map (fun s => (s.queued 1, s.t_batch)) = .ok ([], []) := by
      decide +kernel
    obtain ⟨s, hrun, heq⟩ := SnapshotQueue.Batch.ok_of_map hdrained
    exact ⟨s, hrun, (hbatch _ _ s hrun).2.mpr (Prod.mk.inj heq)⟩
  · have hdrained : (EventQueueBroadcast.run (fun _ => []) (2 ^ 1) EventQueueBroadcast.init
        (EventQueueBroadcast.postThenDispatch [])).map
          (fun s => s.queue.m_queue.contents (2 ^ 1)) = some [] := by
      decide +kernel
    obtain ⟨s, hrun, hempty⟩ := Option.map_eq_some_iff.mp hdrained
    exact ⟨s, hrun, (hbroadcast _ _ s hrun).2.mpr
      ⟨hempty, EventQueueBroadcast.sameObservers_postThenDispatch⟩⟩
  · have hdrained : (SnapshotQueue.run (fun _ => [])
        (SnapshotQueue.init (eventQueueEmulator 1 1))
        [.addObserver 5 ⟨1, 7⟩, .post ⟨.bulk, 5, some (List.replicate 50 9), 50⟩,
          .post ⟨.fast, 5, some [9], 1⟩, .dispatchOne .fast, .dispatchOne .bulk]).map
          (fun s => ((s.queue .fast).m_queue.contents (2 ^ 1),
            (s.queue .bulk).m_queue.contents (2 ^ 1))) = some ([], []) := by
      decide +kernel
    obtain ⟨s, hrun, heq⟩ := Option.map_eq_some_iff.mp hdrained
    obtain ⟨hfastEmpty, hbulkEmpty⟩ := Prod.mk.inj heq
    refine ⟨s, hrun, (hemulator _ _ s hrun).2.mpr fun lane => ?_⟩
    cases lane with
    | fast => exact hfastEmpty
    | bulk => exact hbulkEmpty

/-- A managed payload is posted to a topic with one observer and not dispatched: in each class the
message object that the post took from the pool is left behind. -/
theorem pooledQueues_leak :
    (∃ s, SnapshotQueue.run (fun _ => []) (SnapshotQueue.init (eventQueueBroadcastFast 1))
        [.addObserver 5 ⟨1, 7⟩, .post ⟨(), 5, some (List.replicate 50 9), 50⟩] = some s ∧
      ¬ SnapshotQueue.FreedOnce s.destroy) ∧
    (∃ s, SnapshotQueue.Batch.run 1 (fun _ => []) SnapshotQueue.Batch.init
        [.addObserver 5 ⟨1, 7⟩, .post 5 (some (List.replicate 50 9)) 50] = .ok s ∧
      ¬ SnapshotQueue.Batch.FreedOnce s.destroy) ∧
    (∃ s, EventQueueBroadcast.run (fun _ => []) (2 ^ 1) EventQueueBroadcast.init
        [.request (.addObserver 5 1), .request (.post 5 (some (List.replicate 50 9)) 50)] = some s ∧
      ¬ EventQueueBroadcast.FreedOnce s.destroy) ∧
    (∃ s, SnapshotQueue.run (fun _ => []) (SnapshotQueue.init (eventQueueEmulator 1 1))
        [.addObserver 5 ⟨1, 7⟩, .post ⟨.bulk, 5, some (List.replicate 50 9), 50⟩] = some s ∧
      ¬ SnapshotQueue.FreedOnce s.destroy) := by
  refine ⟨?_, ?_, ?_, ?_⟩
  · have hleft : (SnapshotQueue.run (fun _ => [])
        (SnapshotQueue.init (eventQueueBroadcastFast 1))
        [.addObserver 5 ⟨1, 7⟩, .post ⟨(), 5, some (List.replicate 50 9), 50⟩]).map
          (fun s => ((s.destroy.memory ()).nextAddr, (s.destroy.queue ()).deleted.count 511)) =
        some (512, 0) := by
      decide +kernel
    obtain ⟨s, hrun, heq⟩ := Option.map_eq_some_iff.mp hleft
    exact ⟨s, hrun, fun hfreed => not_deletedOnce heq (hfreed.objects ())⟩
  · have hleft : (SnapshotQueue.Batch.run 1 (fun _ => []) SnapshotQueue.Batch.init
        [.addObserver 5 ⟨1, 7⟩, .post 5 (some (List.replicate 50 9)) 50]).map
          (fun s => (s.destroy.memory.nextAddr, s.destroy.queue.deleted.count 511)) =
        .ok (512, 0) := by
      decide +kernel
    obtain ⟨s, hrun, heq⟩ := SnapshotQueue.Batch.ok_of_map hleft
    exact ⟨s, hrun, fun hfreed => not_deletedOnce heq hfreed.objects⟩
  · have hleft : (EventQueueBroadcast.run (fun _ => []) (2 ^ 1) EventQueueBroadcast.init
        [.request (.addObserver 5 1), .request (.post 5 (some (List.replicate 50 9)) 50)]).map
          (fun s => (s.destroy.memory.nextAddr, s.destroy.queue.deleted.count 255)) =
        some (256, 0) := by
      decide +kernel
    obtain ⟨s, hrun, heq⟩ := Option.map_eq_some_iff.mp hleft
    exact ⟨s, hrun, fun hfreed => not_deletedOnce heq hfreed.objects⟩
  · have hleft : (SnapshotQueue.run (fun _ => []) (SnapshotQueue.init (eventQueueEmulator 1 1))
        [.addObserver 5 ⟨1, 7⟩, .post ⟨.bulk, 5, some (List.replicate 50 9), 50⟩]).map
          (fun s => ((s.destroy.memory .bulk).nextAddr,
            (s.destroy.queue .bulk).deleted.count 127)) = some (128, 0) := by
      decide +kernel
    obtain ⟨s, hrun, heq⟩ := Option.map_eq_some_iff.mp hleft
    exact ⟨s, hrun, fun hfreed => not_deletedOnce heq (hfreed.objects .bulk)⟩

end MessageCenter
