import MessageCenter.SnapshotQueue.PayloadLedger

/-!
# The lifetime of managed payloads

What the ledger says about the messages: the reference count of a payload is the
number of observers whose release is still to come, a callback gets a payload that
has not been freed, the release after the last observer frees it, once, and
nothing stays behind when the queue is drained.
-/

namespace MessageCenter.SnapshotQueue.Concurrent

open Concurrency Accounting

variable {Thread : Type}

/-- The message is queued or being dispatched, and the releases of `n` of its
observers have not run. -/
inductive Outstanding (s : State Thread) (msg : SnapshotMessage) : Nat → Prop where
  | queued : msg ∈ s.ring → Outstanding s msg msg.observerCount
  | collected (t : Thread) (limit : Nat) (batch : List SnapshotMessage) :
      Frame.collect limit batch ∈ (s.threads t).stack → msg ∈ batch →
      Outstanding s msg msg.observerCount
  | waiting (t : Thread) (phase : Phase) (current : SnapshotMessage) (i : Nat)
      (rest : List SnapshotMessage) :
      Frame.dispatch phase current i rest ∈ (s.threads t).stack → msg ∈ rest →
      Outstanding s msg msg.observerCount
  | current (t : Thread) (phase : Phase) (i : Nat) (rest : List SnapshotMessage) :
      Frame.dispatch phase msg i rest ∈ (s.threads t).stack →
      Outstanding s msg (msg.observerCount - i)

/-- The message is on its way to the ring. -/
inductive Posting (s : State Thread) (msg : SnapshotMessage) : Prop where
  | addRefs (t : Thread) (batched : Bool) : Frame.addRefs msg batched ∈ (s.threads t).stack →
      Posting s msg
  | send (t : Thread) (batched : Bool) : Frame.send msg batched ∈ (s.threads t).stack →
      Posting s msg
  | batched (t : Thread) :
      msg ∈ (s.threads t).t_batch.msgs.drop (s.threads t).t_batch.i → Posting s msg

structure PayloadsManaged (cls : QueueClass) (s : State Thread) : Prop where
  /-- the count is the number of releases to come -/
  refCount : ∀ msg n id, Outstanding s msg n → 0 < n → managedOf msg = some id →
    ∃ payload, s.payloads.live id = some payload ∧ payload.m_refCount = n
  /-- a callback can read its payload -/
  callback : ∀ t msg i rest id, Frame.dispatch .callback msg i rest ∈ (s.threads t).stack →
    managedOf msg = some id → (s.payloads.data id).isSome
  /-- every live payload is on its way to an observer -/
  belongs : ∀ id payload, s.payloads.live id = some payload → ∃ msg, managedOf msg = some id ∧
    (Posting s msg ∨ ∃ n, 0 < n ∧ Outstanding s msg n)
  freedOnce : (s.freed.map Free.payload).Nodup
  freed_iff : ∀ id, id ∈ s.freed.map Free.payload ↔
    id < s.payloads.nextPayload ∧ s.payloads.live id = none
  freedByLast : ∀ free ∈ s.freed, free.observer + 1 = free.observerCount
  drained : s.ring = [] → (∀ t, (s.threads t).stack = []) →
    (∀ t, (s.threads t).t_batch.msgs = []) → ∀ id, s.payloads.live id = none
  /-- only `postBatched` leaves messages in a batch buffer -/
  unbatched : cls.hasBatch = false → ∀ t, (s.threads t).t_batch.msgs = []

/-! ### Tokens of messages -/

variable {s : State Thread} {t : Thread} {msg : SnapshotMessage} {id : PayloadId} {refs : Int}
  {frame : Frame} {msgs : List SnapshotMessage} {i : Nat}

theorem mem_owed (hlt : i < msg.observerCount) (hmanaged : managedOf msg = some id) :
    (id, (msg.observerCount - i : Int)) ∈ owed msg i := by
  rw [owed_more hlt, token_of_some _ hmanaged]
  exact List.mem_singleton_self _

theorem mem_owedAll (hmem : msg ∈ msgs) (hpos : 0 < msg.observerCount)
    (hmanaged : managedOf msg = some id) : (id, (msg.observerCount : Int)) ∈ owedAll msgs := by
  refine List.mem_flatMap.mpr ⟨msg, hmem, ?_⟩
  simpa using mem_owed hpos hmanaged

theorem mem_holdings (hframe : frame ∈ (s.threads t).stack) (hmem : (id, refs) ∈ frame.tokens) :
    (id, refs) ∈ s.holdings (some t) :=
  List.mem_append_left _ (List.mem_flatMap.mpr ⟨frame, hframe, hmem⟩)

/-- The token of a message with releases to come. -/
theorem Outstanding.mem_holdings {n : Nat} (hout : Outstanding s msg n) (hpos : 0 < n)
    (hmanaged : managedOf msg = some id) : ∃ holder, (id, (n : Int)) ∈ s.holdings holder := by
  cases hout with
  | queued hmem => exact ⟨none, mem_owedAll hmem hpos hmanaged⟩
  | collected t limit batch hframe hmem =>
      exact ⟨some t, Concurrent.mem_holdings hframe (mem_owedAll hmem hpos hmanaged)⟩
  | waiting t phase current i rest hframe hmem =>
      refine ⟨some t, Concurrent.mem_holdings hframe (List.mem_append_right _ ?_)⟩
      exact mem_owedAll hmem hpos hmanaged
  | current t phase i rest hframe =>
      have hlt : i < msg.observerCount := Nat.lt_of_sub_pos hpos
      refine ⟨some t, Concurrent.mem_holdings hframe (List.mem_append_left _ ?_)⟩
      rw [Int.ofNat_sub (Nat.le_of_lt hlt)]
      exact mem_owed hlt hmanaged

theorem of_mem_owed (hmem : (id, refs) ∈ owed msg i) :
    managedOf msg = some id ∧ i < msg.observerCount := by
  rw [owed] at hmem
  split at hmem
  · rename_i hlt
    simp only [token, List.mem_map, Option.mem_toList, Prod.mk.injEq] at hmem
    obtain ⟨_, hmanaged, rfl, _⟩ := hmem
    exact ⟨hmanaged, hlt⟩
  · cases hmem

theorem of_mem_owedAll (hmem : (id, refs) ∈ owedAll msgs) :
    ∃ msg ∈ msgs, managedOf msg = some id ∧ 0 < msg.observerCount := by
  obtain ⟨msg, hmsg, howed⟩ := List.mem_flatMap.mp hmem
  exact ⟨msg, hmsg, of_mem_owed howed⟩

/-- Every token is for the payload of a message in one of the places. -/
theorem exists_of_mem_holdings {holder : Option Thread} (hmem : (id, refs) ∈ s.holdings holder) :
    ∃ msg, managedOf msg = some id ∧ (Posting s msg ∨ ∃ n, 0 < n ∧ Outstanding s msg n) := by
  cases holder with
  | none =>
      obtain ⟨msg, hring, hmanaged, hpos⟩ := of_mem_owedAll hmem
      exact ⟨msg, hmanaged, Or.inr ⟨_, hpos, Outstanding.queued hring⟩⟩
  | some t =>
      rcases List.mem_append.mp hmem with hmem | hmem
      · obtain ⟨frame, hframe, htoken⟩ := List.mem_flatMap.mp hmem
        cases frame with
        | create msg data batched => cases htoken
        | addRefs msg batched =>
            simp only [Frame.tokens, token, List.mem_map, Option.mem_toList,
              Prod.mk.injEq] at htoken
            obtain ⟨_, hmanaged, rfl, _⟩ := htoken
            exact ⟨msg, hmanaged, Or.inl (Posting.addRefs t batched hframe)⟩
        | send msg batched =>
            exact ⟨msg, (of_mem_owed htoken).1, Or.inl (Posting.send t batched hframe)⟩
        | flush => cases htoken
        | collect limit batch =>
            obtain ⟨msg, hmsg, hmanaged, hpos⟩ := of_mem_owedAll htoken
            exact ⟨msg, hmanaged,
              Or.inr ⟨_, hpos, Outstanding.collected t limit batch hframe hmsg⟩⟩
        | dispatch phase msg i rest =>
            rcases List.mem_append.mp htoken with htoken | htoken
            · obtain ⟨hmanaged, hlt⟩ := of_mem_owed htoken
              exact ⟨msg, hmanaged, Or.inr ⟨_, Nat.sub_pos_of_lt hlt,
                Outstanding.current t phase i rest hframe⟩⟩
            · obtain ⟨other, hother, hmanaged, hpos⟩ := of_mem_owedAll htoken
              exact ⟨other, hmanaged,
                Or.inr ⟨_, hpos, Outstanding.waiting t phase msg i rest hframe hother⟩⟩
      · obtain ⟨msg, hmsg, hmanaged, _⟩ := of_mem_owedAll hmem
        exact ⟨msg, hmanaged, Or.inl (Posting.batched t hmsg)⟩

theorem Inv.refCount_eq {n : Nat} (hinv : Inv s) (hout : Outstanding s msg n) (hpos : 0 < n)
    (hmanaged : managedOf msg = some id) :
    ∃ payload, s.payloads.live id = some payload ∧ payload.m_refCount = n := by
  obtain ⟨holder, hmem⟩ := hout.mem_holdings hpos hmanaged
  exact live_of_refCounts (hinv.ledger.correct holder id n hmem)

theorem Inv.callback_live {rest : List SnapshotMessage} (hinv : Inv s)
    (hframe : Frame.dispatch .callback msg i rest ∈ (s.threads t).stack)
    (hmanaged : managedOf msg = some id) : (s.payloads.data id).isSome := by
  have hlt : i < msg.observerCount := (hinv.threads t).frames _ hframe
  have hout : Outstanding s msg (msg.observerCount - i) :=
    Outstanding.current t .callback i rest hframe
  obtain ⟨payload, hlive, _⟩ := hinv.refCount_eq hout (Nat.sub_pos_of_lt hlt) hmanaged
  simp [PayloadHeap.data, hlive]

theorem Inv.belongs {payload : RefCountedPayload} (hinv : Inv s)
    (hlive : s.payloads.live id = some payload) :
    ∃ msg, managedOf msg = some id ∧ (Posting s msg ∨ ∃ n, 0 < n ∧ Outstanding s msg n) := by
  obtain ⟨holder, hmem⟩ := hinv.ledger.owned id payload.m_refCount (refCounts_of_live hlive)
  exact exists_of_mem_holdings hmem

/-- With nothing on its way no payload is live. -/
theorem Inv.drained (hinv : Inv s) (hring : s.ring = []) (hidle : ∀ t, (s.threads t).stack = [])
    (hbatch : ∀ t, (s.threads t).t_batch.msgs = []) (id : PayloadId) :
    s.payloads.live id = none := by
  cases hlive : s.payloads.live id with
  | none => rfl
  | some payload =>
      obtain ⟨holder, hmem⟩ := hinv.ledger.owned id payload.m_refCount (refCounts_of_live hlive)
      cases holder with
      | none => simp [State.holdings, hring] at hmem
      | some t => simp [State.holdings, ThreadState.tokens, hidle t, hbatch t] at hmem

/-! ### Without `postBatched` -/

def Frame.batched : Frame → Bool
  | .create _ _ batched => batched
  | .addRefs _ batched => batched
  | .send _ batched => batched
  | _ => false

/-- A call of `postBatched`. -/
def Action.batched : Action Thread → Bool
  | .post _ _ _ _ _ batched => batched
  | _ => false

structure ThreadState.Unbatched (thread : ThreadState) : Prop where
  frames : ∀ frame ∈ thread.stack, frame.batched = false
  batch : thread.t_batch.msgs = []

namespace ThreadState.Unbatched

variable {thread : ThreadState} {frame' : Frame} {below : List Frame}

theorem top (hthread : thread.Unbatched) (hstack : thread.stack = frame :: below) :
    frame.batched = false :=
  hthread.frames frame (hstack ▸ List.mem_cons_self ..)

theorem pop (hthread : thread.Unbatched) (hstack : thread.stack = frame :: below) :
    ({ thread with stack := below } : ThreadState).Unbatched where
  frames other hmem := hthread.frames other (hstack ▸ List.mem_cons_of_mem _ hmem)
  batch := hthread.batch

theorem enter (hthread : thread.Unbatched) (hframe : frame.batched = false) :
    (thread.enter frame).Unbatched where
  frames other hmem := by
    rcases List.mem_cons.mp hmem with rfl | hmem
    · exact hframe
    · exact hthread.frames other hmem
  batch := hthread.batch

theorem replace (hthread : thread.Unbatched) (hstack : thread.stack = frame :: below)
    (hframe : frame'.batched = false) :
    ({ thread with stack := frame' :: below } : ThreadState).Unbatched :=
  (hthread.pop hstack).enter hframe

theorem dispatchRest (hthread : thread.Unbatched) (hstack : thread.stack = frame :: below)
    (rest : List SnapshotMessage) :
    ({ thread with stack := dispatchRest below rest } : ThreadState).Unbatched := by
  cases rest with
  | nil => exact hthread.pop hstack
  | cons msg rest => exact hthread.replace hstack rfl

end ThreadState.Unbatched

section
variable [DecidableEq Thread] {next : State Thread} {cls : QueueClass} {Capacity : Nat}

/-- A step of a thread that has nothing in its batch buffer puts nothing there. -/
theorem proceed_unbatched (hthread : (s.threads t).Unbatched)
    (hnext : proceed Capacity s t = some next) :
    ∃ thread : ThreadState, thread.Unbatched ∧
      next.threads = Function.update s.threads t thread := by
  have hkeep : s.threads = Function.update s.threads t (s.threads t) :=
    (Function.update_eq_self t s.threads).symm
  cases hstack : (s.threads t).stack with
  | nil =>
      simp only [proceed, hstack] at hnext
      cases hnext
  | cons frame below =>
      have htop := hthread.top hstack
      cases frame with
      | create msg data batched =>
          simp only [proceed, hstack, Option.some.injEq] at hnext
          subst hnext
          refine ⟨_, hthread.replace hstack ?_, rfl⟩
          split <;> exact htop
      | addRefs msg batched =>
          have hsend : (Frame.send msg batched).batched = false := htop
          simp only [proceed, hstack] at hnext
          refine ⟨_, hthread.replace hstack hsend, ?_⟩
          cases hmanaged : managedOf msg <;> rw [hmanaged] at hnext <;>
            exact (Option.some.inj hnext) ▸ rfl
      | send msg batched =>
          obtain rfl : batched = false := htop
          simp only [proceed, hstack] at hnext
          split at hnext
          · exact ⟨_, hthread.pop hstack, (Option.some.inj hnext) ▸ rfl⟩
          · exact ⟨_, hthread, (Option.some.inj hnext) ▸ hkeep⟩
      | flush =>
          have hnone : (s.threads t).t_batch.msgs[(s.threads t).t_batch.i]? = none := by
            rw [hthread.batch]
            rfl
          simp only [proceed, hstack, flush, hnone, Option.some.injEq] at hnext
          exact ⟨⟨below, [], 0⟩, ⟨(hthread.pop hstack).frames, rfl⟩, hnext ▸ rfl⟩
      | collect limit batch =>
          simp only [proceed, hstack, collect, Option.some.injEq] at hnext
          subst hnext
          split
          · exact ⟨_, hthread.replace hstack rfl, rfl⟩
          · exact ⟨_, hthread.dispatchRest hstack batch, rfl⟩
      | dispatch phase msg i rest =>
          cases phase with
          | call =>
              simp only [proceed, hstack] at hnext
              have hcallback : (Frame.dispatch .callback msg i rest).batched = false := rfl
              split at hnext
              · exact ⟨_, hthread.replace hstack hcallback, (Option.some.inj hnext) ▸ rfl⟩
              · exact ⟨_, hthread.dispatchRest hstack rest, (Option.some.inj hnext) ▸ rfl⟩
          | callback =>
              have hrelease : (Frame.dispatch .release msg i rest).batched = false := rfl
              simp only [proceed, hstack, Option.some.injEq] at hnext
              exact ⟨_, hthread.replace hstack hrelease, hnext ▸ rfl⟩
          | release =>
              have hcall : (Frame.dispatch .call msg (i + 1) rest).batched = false := rfl
              simp only [proceed, hstack, release, Option.some.injEq] at hnext
              subst hnext
              refine ⟨_, hthread.replace hstack hcall, ?_⟩
              split <;> rfl

theorem step_unbatched {action : Action Thread} (hthreads : ∀ t, (s.threads t).Unbatched)
    (hbatched : action.batched = false) (hnext : step cls Capacity s action = some next) (t : Thread) :
    (next.threads t).Unbatched := by
  have hupdate : ∀ (mover : Thread) (thread : ThreadState), thread.Unbatched →
      (Function.update s.threads mover thread t).Unbatched := by
    intro mover thread hthread
    by_cases heq : t = mover
    · subst heq
      rw [Function.update_self]
      exact hthread
    · rw [Function.update_of_ne heq]
      exact hthreads t
  cases action with
  | addObserver topicId observer =>
      obtain rfl := Option.some.inj hnext
      simp only [addObserver]
      split
      · exact hthreads t
      · split <;> exact hthreads t
  | post mover old topicId data size batched =>
      obtain rfl : batched = false := hbatched
      simp only [step, Option.ite_none_right_eq_some, Option.some.injEq] at hnext
      rw [← hnext.2, post]
      split
      · exact hthreads t
      · simp only
        split
        · exact hthreads t
        · split <;> exact hupdate mover _ ((hthreads mover).enter rfl)
  | flushBatch mover =>
      simp only [step, Option.ite_none_right_eq_some, Option.some.injEq] at hnext
      rw [← hnext.2]
      exact hupdate mover _ ((hthreads mover).enter rfl)
  | dispatchOne mover =>
      simp only [step, Option.ite_none_right_eq_some] at hnext
      obtain ⟨_, hnext⟩ := hnext
      split at hnext
      · exact (Option.some.inj hnext) ▸ hthreads t
      · rw [← Option.some.inj hnext]
        exact hupdate mover _ ((hthreads mover).enter rfl)
  | dispatchBatch mover maxCount =>
      simp only [step, Option.ite_none_right_eq_some, Option.some.injEq] at hnext
      rw [← hnext.2]
      exact hupdate mover _ ((hthreads mover).enter rfl)
  | proceed mover =>
      obtain ⟨thread, hthread, hthreadsNext⟩ := proceed_unbatched (hthreads mover) hnext
      rw [hthreadsNext]
      exact hupdate mover thread hthread

/-- In a run without `postBatched` the batch buffers stay empty. -/
theorem unbatched_of_reachable
    (hreach : (machine Thread cls Capacity).ReachableUnder
      (fun _ action => action.batched = false) s) (t : Thread) : (s.threads t).Unbatched := by
  have hall := hreach.invariant (fun s => ∀ t, (s.threads t).Unbatched)
    (fun t => ⟨fun _ hmem => absurd hmem List.not_mem_nil, rfl⟩)
    (fun _ _ _ hthreads hbatched hnext => step_unbatched hthreads hbatched hnext)
  exact hall t

/-- A class without `postBatched` has such runs only. -/
theorem reachable_unbatched (hclass : cls.hasBatch = false)
    (hreach : (machine Thread cls Capacity).Reachable s) :
    (machine Thread cls Capacity).ReachableUnder (fun _ action => action.batched = false) s := by
  induction hreach with
  | init => exact Machine.ReachableUnder.init
  | @step state next action _ _ hstep ih =>
      refine Machine.ReachableUnder.step ih ?_ hstep
      cases action with
      | post t old topicId data size batched =>
          cases batched with
          | false => rfl
          | true => simp [machine, step, hclass] at hstep
      | _ => rfl

/-! ### The theorem -/

/-- Managed payloads in every interleaving: counted exactly, alive in every
callback, freed once, by the last release, and none left in a drained queue. -/
theorem payloads_managed (cls : QueueClass) (Capacity : Nat) :
    (∀ s, (machine Thread cls Capacity).Reachable s → PayloadsManaged cls s) ∧
      ∀ s, (machine Thread cls Capacity).ReachableUnder (fun _ action => action.batched = false) s →
        s.ring = [] → (∀ t, (s.threads t).stack = []) → ∀ id, s.payloads.live id = none := by
  refine ⟨fun s hreach => ?_, fun s hreach hring hidle => ?_⟩
  · have hinv := inv_of_reachable hreach
    exact
      { refCount := fun msg n id => hinv.refCount_eq
        callback := fun t msg i rest id => hinv.callback_live
        belongs := fun id payload => hinv.belongs
        freedOnce := hinv.log.once
        freed_iff := hinv.log.iff
        freedByLast := hinv.log.last
        drained := hinv.drained
        unbatched := fun hclass t =>
          (unbatched_of_reachable (reachable_unbatched hclass hreach) t).batch }
  · have hinv := inv_of_reachable hreach.reachable
    exact hinv.drained hring hidle fun t => (unbatched_of_reachable hreach t).batch

/-- The thread `true` is in the first callback for the payload 0 and two observers. -/
def inFirstCallback (s : State Bool) : Bool :=
  match (s.threads true).stack with
  | [.dispatch .callback msg 0 []] => managedOf msg == some 0 && msg.observerCount == 2
  | _ => false

/-- The thread `false` posts 50 bytes, and the thread `true` dispatches them. -/
def firstCallback : List (Action Bool) :=
  [.addObserver 3 ⟨1, 0⟩, .addObserver 3 ⟨2, 0⟩,
    .post false (snapshotFormat 48).zero 3 (some (List.replicate 50 7)) 50 false,
    .proceed false, .proceed false, .proceed false, .dispatchOne true, .proceed true]

theorem payloads_managed_firstCallback :
    ∃ s, (machine Bool .eventQueueBroadcastFast 4).Reachable s ∧ inFirstCallback s = true ∧
      ∃ payload, s.payloads.live 0 = some payload ∧ payload.m_refCount = 2 := by
  obtain ⟨s, hreach, htest⟩ := Machine.exists_reachable_of_run
    (machine Bool .eventQueueBroadcastFast 4) firstCallback inFirstCallback (by decide +kernel)
  refine ⟨s, hreach, htest, ?_⟩
  have hmanaged := (payloads_managed .eventQueueBroadcastFast 4).1 s hreach
  rw [inFirstCallback] at htest
  split at htest
  · rename_i msg hstack
    obtain ⟨hpayload, hcount⟩ : managedOf msg = some 0 ∧ msg.observerCount = 2 := by
      simpa using htest
    have hframe : Frame.dispatch .callback msg 0 [] ∈ (s.threads true).stack := by
      rw [hstack]
      exact List.mem_singleton_self _
    have hout : Outstanding s msg 2 := hcount ▸ Outstanding.current true .callback 0 [] hframe
    exact hmanaged.refCount msg 2 0 hout (Nat.succ_pos 1) hpayload
  · cases htest

/-! ### A post on its own -/

/-- With no step of another thread in between, a post fills its message and the
payload heap as the sequential `post` does. -/
theorem post_fills {cls : QueueClass} {Capacity : Nat} {topicId size : Nat}
    {data : Option (List UInt8)} {batched : Bool} (old : SnapshotMessage)
    (htopic : topicId < cls.maxTopics) (hcount : 0 < (s.m_topics topicId).count) :
    let filled := (snapshotFormat cls.inlineMax).fill s.payloads old topicId
      (s.m_topics topicId).count (s.m_topics topicId).observers data size
    ∃ n, (machine Thread cls Capacity).run (post cls s t old topicId data size batched)
        (List.replicate n (.proceed t)) =
      some { s.setThread t ((s.threads t).enter (.send filled.2 batched)) with
        payloads := filled.1 } := by
  have hpost : ¬topicId ≥ cls.maxTopics := Nat.not_le_of_lt htopic
  have hsome : (s.m_topics topicId).count ≠ 0 := Nat.ne_of_gt hcount
  simp only [post, hpost, hsome, if_false, snapshotFormat]
  by_cases hinline : size ≤ cls.inlineMax
  · exact ⟨0, by simp [hinline, State.setThread]⟩
  · by_cases hmore : (s.m_topics topicId).count > 1
    · refine ⟨2, ?_⟩
      simp [hinline, hmore, machine, step, proceed, State.setThread, ThreadState.enter, managedOf,
        PayloadHeap.createFor, PayloadHeap.create, List.replicate]
    · refine ⟨1, ?_⟩
      simp [hinline, hmore, machine, step, proceed, State.setThread, ThreadState.enter,
        PayloadHeap.createFor, PayloadHeap.create, List.replicate]

end

end MessageCenter.SnapshotQueue.Concurrent
