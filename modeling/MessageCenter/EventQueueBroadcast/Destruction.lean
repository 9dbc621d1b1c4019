import MessageCenter.EventQueueBroadcast.Lifetime
import MessageCenter.PooledQueue.Destruction

/-!
# The end of an `EventQueueBroadcast`

Every payload that was created belongs to a queued message, or to the message in the hands of a
dispatch, or the dispatch of its message is over.  When the destructor comes, the payloads of the
first kind are left alone, and the last have been freed if their dispatches met the observers
that `post` had counted.
-/

namespace MessageCenter.EventQueueBroadcast

open ObjectPoolLockFree PooledQueue

variable {k : Nat} {s next : State} {queued held : List Addr} {busy : List PayloadId}
  {id : PayloadId} {msg : Addr} {behaviour : List Event → List Request}

/-- The destructors of `m_messagePool` and `m_queue`; the other members own nothing of the heap
that is modelled here. -/
def State.destroy (s : State) : State := { s with queue := s.queue.destroy }

/-- Every message object that the pool has allocated and every payload has been freed, once, and
the payloads not too early. -/
structure FreedOnce (s : State) : Prop where
  objects : DeletedOnce s.memory s.queue
  payloads : ∀ id, id < s.payloads.nextPayload → (history s.trace id).count .freed = 1
  lifetime : ∀ id, Lifetime (history s.trace id)

/-- A payload is freed at most once. -/
theorem Lifetime.count_freed {uses : List Use} (hlife : Lifetime uses) (hmem : .freed ∈ uses) :
    uses.count .freed = 1 := by
  obtain ⟨before, after, rfl, hnot⟩ := List.eq_append_cons_of_mem hmem
  have hlater := (List.pairwise_cons.mp (List.pairwise_append.mp hlife.freedLast).2.1).1
  have hafter : .freed ∉ after := fun hin => absurd (hlater .freed hin rfl) (by decide)
  rw [List.count_append, List.count_cons_self, List.count_eq_zero.mpr hnot,
    List.count_eq_zero.mpr hafter]

/-! ### The invariant -/

/-- `busy` is the payload of the message in the hands of a dispatch. -/
structure Owned (k : Nat) (s : State) (queued held : List Addr) (busy : List PayloadId) :
    Prop where
  carries : Carries k s.memory s.queue queued held
  balanced : Balanced s.memory s.queue (queued.length + held.length)
  owned : ∀ id, id < s.payloads.nextPayload → id ∈ busy ∨
    (∃ msg ∈ queued, (s.memory.objects msg).managedPayload = some id) ∨
      .dispatched ∈ history s.trace id

theorem owned_initWith (initialSize : Nat) :
    Owned k (initWith (construct BroadcastMessage.zero ⟨fun _ => BroadcastMessage.zero, 0⟩
      initialSize)) [] [] [] where
  carries := (construct_carries ..).1
  balanced := construct_balanced ..
  owned _ hlt := absurd hlt (Nat.not_lt_zero _)

/-- More has happened, but to no message. -/
theorem Owned.of_trace (h : Owned k s queued held busy) (hmemory : next.memory = s.memory)
    (hqueue : next.queue = s.queue) (hnext : next.payloads.nextPayload = s.payloads.nextPayload)
    (htrace : s.trace <+: next.trace) : Owned k next queued held busy := by
  refine ⟨?_, ?_, fun id hlt => ?_⟩
  · rw [hmemory, hqueue]
    exact h.carries
  · rw [hmemory, hqueue]
    exact h.balanced
  · rw [hnext] at hlt
    rw [hmemory]
    refine (h.owned id hlt).imp_right (Or.imp_right fun hmem => ?_)
    obtain ⟨events, heq⟩ := htrace
    rw [← heq, history_append]
    exact List.mem_append_left _ hmem

theorem Owned.addObserver (h : Owned k s queued held busy) (topicId callback : Nat) :
    Owned k (addObserver s topicId callback) queued held busy := by
  rw [EventQueueBroadcast.addObserver]
  split
  · exact h
  · exact h.of_trace rfl rfl rfl (List.prefix_refl _)

theorem Owned.emit (h : Owned k s queued held busy) (events : List Event) :
    Owned k (s.emit events) queued held busy :=
  h.of_trace rfl rfl rfl (List.prefix_append ..)

theorem Owned.release (h : Owned k s queued held busy) (managed : PayloadId) :
    Owned k (release s managed) queued held busy := by
  refine h.of_trace rfl rfl PayloadHeap.release_nextPayload ?_
  simp only [EventQueueBroadcast.release, List.append_assoc]
  exact List.prefix_append ..

/-! ### Posting -/

/-- The message that `post` has filled is pushed; its payload is the one that is new, if any. -/
theorem Owned.send (h : Owned k s queued held busy) (hone : 1 ≤ k) (hk : k < 64)
    {memory : Memory BroadcastMessage} {queue after : PooledQueue}
    (hacquire : s.queue.acquire BroadcastMessage.zero s.memory = (msg, memory, queue))
    (message : BroadcastMessage) {payloads : PayloadHeap} (events : List Event)
    (hnew : ∀ id, id < payloads.nextPayload → id < s.payloads.nextPayload ∨
      message.managedPayload = some id)
    (hpush : queue.push (2 ^ k) msg = some after) :
    Owned k { s with
      memory := memory.write msg message
      queue := after
      payloads := payloads
      trace := s.trace ++ events } (queued ++ [msg]) held busy := by
  obtain ⟨addr, memory', queue', heq, hcarries, -, hobjects⟩ :=
    h.carries.acquire BroadcastMessage.zero
  have hbalanced := h.balanced.acquire BroadcastMessage.zero
  rw [hacquire] at heq hbalanced
  obtain ⟨rfl, rfl, rfl⟩ : msg = addr ∧ memory = memory' ∧ queue = queue' := by
    simpa using heq
  have hroom := hcarries.room_of_push hone hk hpush
  obtain ⟨sent, hsent, hpushed⟩ := hcarries.push hk hroom
  obtain rfl : sent = after := Option.some.inj (hsent.symm.trans hpush)
  refine ⟨hpushed.write message, ?_, fun id hlt => ?_⟩
  · have hmoved := (hbalanced.push hpush).write msg message
    rw [Nat.add_right_comm] at hmoved
    rw [List.length_append, List.length_singleton]
    exact hmoved
  · rcases hnew id hlt with hold | hmanaged
    · refine (h.owned id hold).imp_right (Or.imp ?_ fun hmem => ?_)
      · rintro ⟨other, hmem, hmanaged⟩
        have hne : other ≠ msg := by
          rintro rfl
          exact hcarries.not_queued (List.mem_cons_self ..) hmem
        refine ⟨other, List.mem_append_left _ hmem, ?_⟩
        rw [← hmanaged, ← hobjects other (List.mem_append_left _ hmem)]
        simp [Memory.write, hne]
      · rw [history_append]
        exact List.mem_append_left _ hmem
    · refine Or.inr (Or.inl ⟨msg, List.mem_append_right _ (List.mem_singleton_self _), ?_⟩)
      simpa [Memory.write] using hmanaged

theorem Owned.post (h : Owned k s queued held busy) (hone : 1 ≤ k) (hk : k < 64)
    {topicId size : Nat} {data : Option (List UInt8)} {result : Bool}
    (hpost : post (2 ^ k) s topicId data size = some (next, result)) :
    ∃ queued', Owned k next queued' held busy := by
  rw [EventQueueBroadcast.post] at hpost
  split at hpost
  · obtain ⟨rfl, -⟩ := Prod.mk.inj (Option.some.inj hpost)
    exact ⟨queued, h⟩
  dsimp only at hpost
  split at hpost
  · obtain ⟨rfl, -⟩ := Prod.mk.inj (Option.some.inj hpost)
    exact ⟨queued, h⟩
  rcases hacquire : s.queue.acquire BroadcastMessage.zero s.memory with ⟨msg, memory, queue⟩
  simp only [hacquire] at hpost
  split at hpost
  · obtain ⟨after, hpush, heq⟩ := Option.map_eq_some_iff.mp hpost
    obtain ⟨rfl, -⟩ := Prod.mk.inj heq
    have hsent := h.send hone hk hacquire ⟨topicId, min ((s.m_observers topicId).getD []).length 255,
      true, size, (memory.objects msg).payload.copyInline data size⟩ [] (fun _ => Or.inl) hpush
    exact ⟨queued ++ [msg], hsent.of_trace rfl rfl rfl (by simp)⟩
  · obtain ⟨after, hpush, heq⟩ := Option.map_eq_some_iff.mp hpost
    obtain ⟨rfl, -⟩ := Prod.mk.inj heq
    refine ⟨queued ++ [msg], h.send hone hk hacquire _ _ (fun id hlt => ?_) hpush⟩
    rw [PayloadHeap.createFor_nextPayload] at hlt
    rcases Nat.lt_succ_iff_lt_or_eq.mp hlt with hold | rfl
    · exact Or.inl hold
    · exact Or.inr (by simp [BroadcastMessage.managedPayload, PayloadHeap.createFor_id])

theorem Owned.request (h : Owned k s queued held busy) (hone : 1 ≤ k) (hk : k < 64) {r : Request}
    (hstep : request (2 ^ k) s r = some next) : ∃ queued', Owned k next queued' held busy := by
  cases r with
  | addObserver topicId callback =>
      obtain rfl := Option.some.inj hstep
      exact ⟨queued, h.addObserver topicId callback⟩
  | post topicId data size =>
      obtain ⟨⟨state, result⟩, hpost, rfl⟩ := Option.map_eq_some_iff.mp hstep
      exact h.post hone hk hpost

theorem Owned.requests (h : Owned k s queued held busy) (hone : 1 ≤ k) (hk : k < 64)
    {rs : List Request} (hrun : requests (2 ^ k) s rs = some next) :
    ∃ queued', Owned k next queued' held busy := by
  induction rs generalizing s queued with
  | nil =>
      obtain rfl := Option.some.inj hrun
      exact ⟨queued, h⟩
  | cons r rest ih =>
      obtain ⟨middle, hstep, hrest⟩ := Option.bind_eq_some_iff.mp hrun
      obtain ⟨queued', hmiddle⟩ := h.request hone hk hstep
      exact ih hmiddle hrest

/-! ### Dispatches -/

theorem Owned.callObservers (h : Owned k s queued held busy) (hone : 1 ≤ k) (hk : k < 64)
    {data : DataRef} {observers : List Nat}
    (hrun : callObservers behaviour (2 ^ k) msg data observers s = some next) :
    ∃ queued', Owned k next queued' held busy := by
  induction observers generalizing s queued with
  | nil =>
      obtain rfl := Option.some.inj hrun
      exact ⟨queued, h⟩
  | cons cb rest ih =>
      obtain ⟨asked, hasked, hrest⟩ := Option.bind_eq_some_iff.mp hrun
      obtain ⟨queued', hanswered⟩ := (h.emit _).requests hone hk hasked
      have hreturned := hanswered.emit [.returned cb data]
      dsimp only at hrest
      split at hrest
      · next managed _ => exact ih (hreturned.release managed) hrest
      · exact ih hreturned hrest

theorem Owned.releaseAll (h : Owned k s queued held busy) (managed : PayloadId) (count : Nat) :
    Owned k (releaseAll managed count s) queued held busy := by
  induction count generalizing s with
  | zero => exact h
  | succ count ih => exact ih (h.release managed)

theorem Owned.deliver (h : Owned k s queued held busy) (hone : 1 ≤ k) (hk : k < 64)
    (hrun : deliver behaviour (2 ^ k) s msg = some next) :
    ∃ queued', Owned k next queued' held busy := by
  rw [EventQueueBroadcast.deliver] at hrun
  split at hrun
  · exact h.callObservers hone hk hrun
  split at hrun
  · obtain rfl := Option.some.inj hrun
    exact ⟨queued, h.releaseAll _ _⟩
  · obtain rfl := Option.some.inj hrun
    exact ⟨queued, h⟩

theorem data_of_managedPayload {message : BroadcastMessage}
    (hmanaged : message.managedPayload = some id) : message.data = .managed id := by
  rw [BroadcastMessage.managedPayload] at hmanaged
  split at hmanaged
  · cases hmanaged
  · next hinline => simp [BroadcastMessage.data, hinline, hmanaged]

/-- The message goes back to the pool, and the dispatch of its payload is over. -/
theorem Owned.finish (h : Owned k s queued (msg :: held) busy) {data : DataRef}
    (hdata : ∀ id ∈ busy, data = .managed id) :
    Owned k { s with
      queue := s.queue.release 8192 msg
      trace := s.trace ++ [.dispatched data] } queued held [] := by
  have hbalanced := h.balanced
  rw [List.length_cons, ← Nat.add_assoc] at hbalanced
  refine ⟨h.carries.release 8192, hbalanced.release 8192 msg, fun id hlt => Or.inr ?_⟩
  rw [history_append]
  rcases h.owned id hlt with hbusy | hqueued | hdispatched
  · refine Or.inr (List.mem_append_right _ ?_)
    simp [history, Event.use, hdata id hbusy, DataRef.payload]
  · exact Or.inl hqueued
  · exact Or.inr (List.mem_append_left _ hdispatched)

theorem Owned.dispatchOne (h : Owned k s queued [] []) (hone : 1 ≤ k) (hk : k < 64) {result : Bool}
    (hrun : dispatchOne behaviour (2 ^ k) s = some (next, result)) :
    ∃ queued', Owned k next queued' [] [] := by
  cases queued with
  | nil =>
      simp only [EventQueueBroadcast.dispatchOne, h.carries.pop_nil hk, Option.some.injEq,
        Prod.mk.injEq] at hrun
      exact ⟨[], hrun.1 ▸ h⟩
  | cons msg rest =>
      obtain ⟨queue, hpop, hcarries⟩ := h.carries.pop_cons hk
      simp only [EventQueueBroadcast.dispatchOne, hpop, Option.map_eq_some_iff, Prod.mk.injEq]
        at hrun
      obtain ⟨delivered, hdeliver, rfl, -⟩ := hrun
      have hpopped : Owned k { s with queue := queue } rest [msg]
          (s.memory.objects msg).managedPayload.toList := by
        refine ⟨hcarries, ?_, fun id hlt => ?_⟩
        · have hbalanced := h.balanced.pop hpop
          rw [List.length_cons, List.length_nil] at hbalanced
          exact hbalanced
        · rcases h.owned id hlt with hbusy | ⟨other, hmem, hmanaged⟩ | hdispatched
          · cases hbusy
          · rcases List.mem_cons.mp hmem with rfl | hrest
            · exact Or.inl (Option.mem_toList.mpr hmanaged)
            · exact Or.inr (Or.inl ⟨other, hrest, hmanaged⟩)
          · exact Or.inr (Or.inr hdispatched)
      obtain ⟨queued', hdelivered⟩ := hpopped.deliver hone hk hdeliver
      exact ⟨queued', hdelivered.finish fun id hmem =>
        data_of_managedPayload (Option.mem_toList.mp hmem)⟩

/-! ### Runs -/

theorem Owned.run (h : Owned k s queued [] []) (hone : 1 ≤ k) (hk : k < 64) {calls : List Call}
    (hrun : run behaviour (2 ^ k) s calls = some next) :
    ∃ queued', Owned k next queued' [] [] := by
  induction calls generalizing s queued with
  | nil =>
      obtain rfl := Option.some.inj hrun
      exact ⟨queued, h⟩
  | cons call rest ih =>
      obtain ⟨middle, hstep, hrest⟩ := Option.bind_eq_some_iff.mp hrun
      cases call with
      | request r =>
          obtain ⟨queued', hmiddle⟩ := h.request hone hk hstep
          exact ih hmiddle hrest
      | dispatchOne =>
          obtain ⟨⟨state, result⟩, hdispatch, rfl⟩ := Option.map_eq_some_iff.mp hstep
          obtain ⟨queued', hmiddle⟩ := h.dispatchOne hone hk hdispatch
          exact ih hmiddle hrest

/-- With an empty ring every payload has been dispatched, and so freed if it had a lawful life. -/
theorem Owned.freedOnce_iff (h : Owned k s queued [] []) (hk : k < 64) :
    FreedOnce s.destroy ↔
      s.queue.m_queue.contents (2 ^ k) = [] ∧ ∀ id, Lifetime (history s.trace id) := by
  have hobjects := h.carries.deletedOnce_iff h.balanced
  rw [h.carries.contents_eq hk]
  constructor
  · exact fun hfreed => ⟨(hobjects.mp hfreed.objects).1, hfreed.lifetime⟩
  · rintro ⟨rfl, hlife⟩
    refine ⟨hobjects.mpr ⟨rfl, rfl⟩, fun id hlt => ?_, hlife⟩
    rcases h.owned id hlt with hbusy | ⟨msg, hmem, -⟩ | hdispatched
    · cases hbusy
    · cases hmem
    · exact (hlife id).count_freed ((hlife id).freedByDispatch hdispatched)

/-- **Destruction of an `EventQueueBroadcast`.**  A run and then the destructor free every message
object and every payload once, and no payload too early, exactly if the run has left the ring
empty and each dispatch of a managed message met as many observers as `post` had counted. -/
theorem freedOnce_iff_drained (hone : 1 ≤ k) (hk : k < 64) (calls : List Call)
    (hrun : run behaviour (2 ^ k) init calls = some s) :
    FreedOnce s.destroy ↔
      s.queue.m_queue.contents (2 ^ k) = [] ∧ SameObservers behaviour (2 ^ k) init calls := by
  have hinv : Inv k init [] [] [] := inv_initWith (construct_carries ..).1
  have hempty : ∀ id, Lifetime (history init.trace id) := fun _ => lifetime_nil
  obtain ⟨queued, howned⟩ := Owned.run (owned_initWith 256) hone hk hrun
  rw [howned.freedOnce_iff hk, hinv.run hone hk hrun, and_iff_right hempty]

/-- The destructor frees what a post and its dispatch have used. -/
theorem freedOnce_iff_drained_postThenDispatch :
    ∃ s, run (fun _ => []) (2 ^ 1) init (postThenDispatch []) = some s ∧
      (FreedOnce s.destroy ↔ s.queue.m_queue.contents (2 ^ 1) = [] ∧
        SameObservers (fun _ => []) (2 ^ 1) init (postThenDispatch [])) := by
  obtain ⟨s, hs⟩ := Option.isSome_iff_exists.mp
    (show (run (fun _ => []) (2 ^ 1) init (postThenDispatch [])).isSome = true by decide +kernel)
  exact ⟨s, hs, freedOnce_iff_drained (k := 1) (by decide) (by decide) _ hs⟩

end MessageCenter.EventQueueBroadcast
