import MessageCenter.PooledQueue.Destruction
import MessageCenter.SnapshotQueue.References

/-!
# The end of a snapshot queue

At every point of a run the account of a lane balances: each object that its pool has allocated
is free, deleted, in the ring or in the hands of a dispatch, and the references of the live
payloads are those of the messages in the rings.  So the destructor frees everything exactly if
the rings are empty.
-/

namespace MessageCenter.SnapshotQueue

open ObjectPoolLockFree PooledQueue Accounting

variable {sys : System}

/-- The destructors of the members; `m_topics` owns nothing. -/
def State.destroy (s : State sys) : State sys :=
  { s with queue := fun lane => (s.queue lane).destroy }

/-- Every message object that a pool has allocated and every payload has been freed, once. -/
structure FreedOnce (s : State sys) : Prop where
  objects : ∀ lane, DeletedOnce (s.memory lane) (s.queue lane)
  /-- no payload is alive -/
  payloads : ∀ id, id < s.payloads.nextPayload → s.payloads.live id = none
  /-- no callback has been handed a payload that was freed already, so neither has the release
  that follows it -/
  once : ∀ event ∈ s.trace, event.data.isSome

/-! ### The invariant -/

/-- The references of the messages in the rings; `busy` are those of the dispatch in progress. -/
def State.holdings (s : State sys) (queued : sys.Lane → List Addr)
    (busy : List (PayloadId × Int)) : Option sys.Lane → List (PayloadId × Int)
  | some lane => (queued lane).flatMap fun addr => (sys.format lane).owed (s.object lane addr) 0
  | none => busy

/-- `queued` are the objects in the rings and `held` those in the hands of a dispatch. -/
structure Settled (s : State sys) (queued held : sys.Lane → List Addr)
    (busy : List (PayloadId × Int)) : Prop where
  carries : ∀ lane, Carries (sys.exponent lane) (s.memory lane) (s.queue lane) (queued lane)
    (held lane)
  balanced : ∀ lane, Balanced (s.memory lane) (s.queue lane)
    ((queued lane).length + (held lane).length)
  references : References (s.holdings queued busy) s.payloads
  reads : ∀ lane, ∀ addr ∈ queued lane, (sys.format lane).Reads (s.object lane addr)
  once : ∀ event ∈ s.trace, event.data.isSome

/-- What a class has to meet: lawful formats, and rings of two slots or more. -/
structure System.Counts (sys : System) : Prop where
  format : ∀ lane, (sys.format lane).Counts
  two : ∀ lane, 1 ≤ sys.exponent lane
  exponent : ∀ lane, sys.exponent lane < 64

/-- The objects of a dispatch are left alone. -/
def Same (s next : State sys) (held : sys.Lane → List Addr) : Prop :=
  ∀ lane, ∀ addr ∈ held lane, next.object lane addr = s.object lane addr

variable {s next : State sys} {queued held : sys.Lane → List Addr}
  {busy : List (PayloadId × Int)} {lane : sys.Lane} {msg : Addr} {i : Nat}

theorem settled_init (sys : System) : Settled (init sys) (fun _ => []) (fun _ => []) [] where
  carries lane := (construct_carries ..).1
  balanced lane := construct_balanced ..
  references := References.empty.perm fun holder => by
    cases holder <;> exact List.Perm.refl _
  reads _ _ hmem := absurd hmem List.not_mem_nil
  once _ hmem := absurd hmem List.not_mem_nil

theorem Settled.addObserver (h : Settled s queued held busy) (topicId : Nat)
    (observer : Observer) : Settled (addObserver s topicId observer).1 queued held busy := by
  rw [SnapshotQueue.addObserver]
  split
  · exact h
  · dsimp only
    split
    · exact h
    · exact ⟨h.carries, h.balanced, h.references, h.reads, h.once⟩

/-! ### Moving a message -/

/-- The references of all messages when one of the queues has changed. -/
theorem holdings_update_queue (s : State sys) (queued : sys.Lane → List Addr)
    (busy : List (PayloadId × Int)) (lane : sys.Lane) (list : List Addr) :
    s.holdings (Function.update queued lane list) busy =
      Function.update (s.holdings queued busy) (some lane)
        (list.flatMap fun addr => (sys.format lane).owed (s.object lane addr) 0) := by
  funext holder
  cases holder with
  | none => rw [Function.update_of_ne (Option.some_ne_none lane).symm, State.holdings, State.holdings]
  | some other =>
      by_cases heq : other = lane
      · subst heq
        rw [Function.update_self, State.holdings, Function.update_self]
      · have hne : some other ≠ some lane := fun hsome => heq (Option.some.inj hsome)
        rw [Function.update_of_ne hne, State.holdings, Function.update_of_ne heq, State.holdings]

theorem holdings_update_busy (s : State sys) (queued : sys.Lane → List Addr)
    (busy busy' : List (PayloadId × Int)) :
    s.holdings queued busy' = Function.update (s.holdings queued busy) none busy' := by
  funext holder
  cases holder with
  | none => rw [Function.update_self, State.holdings]
  | some other =>
      rw [Function.update_of_ne (Option.some_ne_none other), State.holdings, State.holdings]

/-- The message in hand is pushed, and the ring holds its references. -/
theorem Settled.push
    (h : Settled s queued (Function.update held lane (msg :: held lane))
      ((sys.format lane).owed (s.object lane msg) 0 ++ busy))
    (hsys : sys.Counts) (hreads : (sys.format lane).Reads (s.object lane msg))
    {queue : PooledQueue}
    (hpush : (s.queue lane).push (2 ^ sys.exponent lane) msg = some queue) :
    Settled (s.setQueue lane queue) (Function.update queued lane (queued lane ++ [msg])) held
      busy := by
  have hcarries := h.carries lane
  have hbalanced := h.balanced lane
  rw [Function.update_self] at hcarries hbalanced
  have hroom := hcarries.room_of_push (hsys.two lane) (hsys.exponent lane) hpush
  obtain ⟨after, hafter, hsent⟩ := hcarries.push (hsys.exponent lane) hroom
  obtain rfl : after = queue := Option.some.inj (hafter.symm.trans hpush)
  refine ⟨fun other => ?_, fun other => ?_, ?_, fun other old hmem => ?_, h.once⟩
  · by_cases heq : other = lane
    · subst heq
      simpa [State.setQueue] using hsent
    · simpa [State.setQueue, heq] using h.carries other
  · by_cases heq : other = lane
    · subst heq
      have hpushed := hbalanced.push hpush
      rw [List.length_cons, ← Nat.add_assoc, Nat.add_right_comm] at hpushed
      simpa [State.setQueue] using hpushed
    · simpa [State.setQueue, heq] using h.balanced other
  · have hmoved := h.references.transfer (Option.some_ne_none lane).symm
      (List.Perm.refl (s.holdings queued _ none))
    rw [← holdings_update_busy] at hmoved
    refine hmoved.perm fun holder => ?_
    change (s.holdings _ busy holder).Perm _
    rw [holdings_update_queue]
    by_cases heq : holder = some lane
    · subst heq
      rw [Function.update_self, Function.update_self, List.flatMap_append, List.flatMap_singleton]
      exact List.perm_append_comm
    · rw [Function.update_of_ne heq, Function.update_of_ne heq]
  · by_cases heq : other = lane
    · subst heq
      rw [Function.update_self] at hmem
      rcases List.mem_append.mp hmem with hmem | hmem
      · exact h.reads other old hmem
      · exact List.mem_singleton.mp hmem ▸ hreads
    · rw [Function.update_of_ne heq] at hmem
      exact h.reads other old hmem

/-- A dispatch takes the oldest message, and holds its references. -/
theorem Settled.pop (h : Settled s queued held busy) (hsys : sys.Counts) {rest : List Addr}
    (hqueued : queued lane = msg :: rest) :
    ∃ queue, (s.queue lane).pop (2 ^ sys.exponent lane) = some (queue, some msg) ∧
      Settled (s.setQueue lane queue) (Function.update queued lane rest)
        (Function.update held lane (msg :: held lane))
        ((sys.format lane).owed (s.object lane msg) 0 ++ busy) := by
  have hcarries := h.carries lane
  have hbalanced := h.balanced lane
  rw [hqueued] at hcarries hbalanced
  obtain ⟨queue, hpop, htaken⟩ := hcarries.pop_cons (hsys.exponent lane)
  refine ⟨queue, hpop, fun other => ?_, fun other => ?_, ?_, fun other old hmem => ?_, h.once⟩
  · by_cases heq : other = lane
    · subst heq
      simpa [State.setQueue] using htaken
    · simpa [State.setQueue, heq] using h.carries other
  · by_cases heq : other = lane
    · subst heq
      have hpopped := hbalanced.pop hpop
      rw [List.length_cons, Nat.add_right_comm, Nat.add_assoc] at hpopped
      simpa [State.setQueue] using hpopped
    · simpa [State.setQueue, heq] using h.balanced other
  · have hgiver : (s.holdings queued busy (some lane)).Perm
        ((sys.format lane).owed (s.object lane msg) 0 ++
          rest.flatMap fun addr => (sys.format lane).owed (s.object lane addr) 0) := by
      rw [State.holdings, hqueued, List.flatMap_cons]
    have hmoved := h.references.transfer (Option.some_ne_none lane) hgiver
    rw [← holdings_update_queue] at hmoved
    refine hmoved.perm fun holder => ?_
    change (s.holdings _ _ holder).Perm _
    rw [holdings_update_busy s _ busy]
    rfl
  · by_cases heq : other = lane
    · subst heq
      rw [Function.update_self] at hmem
      exact h.reads other old (hqueued ▸ List.mem_cons_of_mem msg hmem)
    · rw [Function.update_of_ne heq] at hmem
      exact h.reads other old hmem

/-! ### `post` -/

/-- `post` up to the push: the new message is in hand, with its references. -/
theorem Settled.prepare (h : Settled s queued held busy) (hsys : sys.Counts) (lane : sys.Lane)
    (topicId : Nat) {count : Nat} (hcount : 1 ≤ count) (observers : Nat → Observer)
    (data : Option (List UInt8)) (size : Nat) :
    ∃ next msg, prepare s lane topicId count observers data size = (next, msg) ∧
      Settled next queued (Function.update held lane (msg :: held lane))
        ((sys.format lane).owed (next.object lane msg) 0 ++ busy) ∧
      (sys.format lane).Reads (next.object lane msg) ∧ Same s next held := by
  obtain ⟨msg, memory, queue, hacquire, hcarries, -, hobjects⟩ :=
    (h.carries lane).acquire (sys.format lane).zero
  have hbalanced := (h.balanced lane).acquire (sys.format lane).zero
  rw [hacquire] at hbalanced
  have hfill := h.references.fill (hsys.format lane) (memory.objects msg) topicId hcount observers
    data size none
  have hreads := (hsys.format lane s.payloads (memory.objects msg) topicId count observers data
    size).2.1
  simp only at hfill hreads
  generalize hfilled : (sys.format lane).fill s.payloads (memory.objects msg) topicId count
    observers data size = filled at hfill hreads
  refine ⟨{ s.setLane lane (memory.write msg filled.2) queue with payloads := filled.1 }, msg, ?_, ?_⟩
  · simp only [SnapshotQueue.prepare, hacquire, hfilled]
  generalize hnext : ({ s.setLane lane (memory.write msg filled.2) queue with
    payloads := filled.1 } : State sys) = next
  have hself : next.object lane msg = filled.2 := by
    simp [← hnext, State.object, State.setLane, Memory.write]
  have hother : ∀ other, ∀ old ∈ queued other ++ held other,
      next.object other old = s.object other old := by
    intro other old hmem
    by_cases heq : other = lane
    · subst heq
      have hne : old ≠ msg := by
        rintro rfl
        rcases List.mem_append.mp hmem with hmem | hmem
        · exact hcarries.not_queued (List.mem_cons_self ..) hmem
        · exact (List.nodup_cons.mp hcarries.held_nodup).1 hmem
      have hkept := hobjects old hmem
      simp [← hnext, State.object, State.setLane, Memory.write, hne, hkept]
    · simp [← hnext, State.object, State.setLane, heq]
  rw [hself]
  refine ⟨⟨fun other => ?_, fun other => ?_, ?_, fun other old hmem => ?_, ?_⟩, hreads,
    fun other old hmem => hother other old (List.mem_append_right _ hmem)⟩
  · by_cases heq : other = lane
    · subst heq
      simpa [← hnext, State.setLane] using hcarries.write filled.2
    · simpa [← hnext, State.setLane, heq] using h.carries other
  · by_cases heq : other = lane
    · subst heq
      simpa [← hnext, State.setLane, Nat.add_assoc] using hbalanced.write msg filled.2
    · simpa [← hnext, State.setLane, heq] using h.balanced other
  · have hpayloads : next.payloads = filled.1 := by rw [← hnext]
    rw [hpayloads]
    refine hfill.perm fun holder => ?_
    cases holder with
    | none => rw [Function.update_self, State.holdings, State.holdings]
    | some other =>
        rw [Function.update_of_ne (Option.some_ne_none other), State.holdings, State.holdings]
        refine List.Perm.of_eq (List.flatMap_congr fun old hmem => ?_)
        rw [hother other old (List.mem_append_left _ hmem)]
  · rw [hother other old (List.mem_append_left _ hmem)]
    exact h.reads other old hmem
  · have htrace : next.trace = s.trace := by rw [← hnext, State.setLane]
    rw [htrace]
    exact h.once

theorem Settled.post (h : Settled s queued held busy) (hsys : sys.Counts)
    {args : PostArgs sys.Lane} {result : Bool} (hpost : post s args = some (next, result)) :
    ∃ queued', Settled next queued' held busy ∧ Same s next held := by
  rw [SnapshotQueue.post] at hpost
  split at hpost
  · obtain ⟨rfl, -⟩ := Prod.mk.inj (Option.some.inj hpost)
    exact ⟨queued, h, fun _ _ _ => rfl⟩
  dsimp only at hpost
  split at hpost
  · obtain ⟨rfl, -⟩ := Prod.mk.inj (Option.some.inj hpost)
    exact ⟨queued, h, fun _ _ _ => rfl⟩
  · next hcount =>
    obtain ⟨prepared, msg, hprepare, hprepared, hreads, hsame⟩ := h.prepare hsys args.lane
      args.topicId (Nat.pos_of_ne_zero hcount) (s.m_topics args.topicId).observers args.data args.size
    rw [hprepare] at hpost
    obtain ⟨queue, hpush, heq⟩ := Option.map_eq_some_iff.mp hpost
    obtain ⟨rfl, -⟩ := Prod.mk.inj heq
    exact ⟨_, hprepared.push hsys hreads hpush, hsame⟩

theorem Settled.posts (h : Settled s queued held busy) (hsys : sys.Counts)
    {calls : List (PostArgs sys.Lane)} (hposts : posts s calls = some next) :
    ∃ queued', Settled next queued' held busy ∧ Same s next held := by
  induction calls generalizing s queued with
  | nil =>
      obtain rfl := Option.some.inj hposts
      exact ⟨queued, h, fun _ _ _ => rfl⟩
  | cons args rest ih =>
      obtain ⟨⟨middle, result⟩, hfirst, hrest⟩ := Option.bind_eq_some_iff.mp hposts
      obtain ⟨queued', hmiddle, hsame⟩ := h.post hsys hfirst
      obtain ⟨queued'', hlast, hsame'⟩ := ih hmiddle hrest
      exact ⟨queued'', hlast, fun other addr hmem =>
        (hsame' other addr hmem).trans (hsame other addr hmem)⟩

/-! ### Dispatches -/

/-- The arguments of the callback `i` of a message. -/
def State.event (s : State sys) (lane : sys.Lane) (msg : Addr) (i : Nat) : CallEvent :=
  let message := s.object lane msg
  let format := sys.format lane
  ⟨format.observer message i, format.topicId message, format.data s.payloads message,
    format.payloadSize message⟩

theorem callObserver_eq (behaviour : Behaviour sys) (lane : sys.Lane) (msg : Addr) (i : Nat)
    (s : State sys) :
    callObserver behaviour lane msg i s =
      (posts { s with trace := s.trace ++ [s.event lane msg i] }
        (behaviour (s.trace ++ [s.event lane msg i]))).map fun s =>
          { s with payloads := (sys.format lane).releaseIn s.payloads (s.object lane msg) } := by
  refine congrArg (Option.map · _) (funext fun s => ?_)
  rw [Format.releaseIn]
  cases (sys.format lane).managed (s.object lane msg) <;> rfl

/-- A callback is handed a payload that is alive, and the release after it takes one of the
references of its message. -/
theorem Settled.callObserver {behaviour : Behaviour sys}
    (h : Settled s queued held ((sys.format lane).owed (s.object lane msg) i)) (hsys : sys.Counts)
    (hmsg : msg ∈ held lane) (hreads : (sys.format lane).Reads (s.object lane msg))
    (hlt : i < (sys.format lane).observerCount (s.object lane msg))
    (hcall : callObserver behaviour lane msg i s = some next) :
    ∃ queued', Settled next queued' held ((sys.format lane).owed (s.object lane msg) (i + 1)) ∧
      Same s next held := by
  rw [callObserver_eq] at hcall
  obtain ⟨asked, hposts, rfl⟩ := Option.map_eq_some_iff.mp hcall
  have hdata : ((sys.format lane).data s.payloads (s.object lane msg)).isSome := by
    refine hreads s.payloads fun id hmanaged => ?_
    have htoken : (id, ((sys.format lane).observerCount (s.object lane msg) - i : Int)) ∈
        s.holdings queued ((sys.format lane).owed (s.object lane msg) i) none := by
      rw [State.holdings, Format.owed_managed hlt hmanaged]
      exact List.mem_singleton_self _
    obtain ⟨payload, hlive, -⟩ := h.references.live htoken
    rw [hlive, Option.isSome_some]
  have hcalled : Settled { s with trace := s.trace ++ [s.event lane msg i] } queued held
      ((sys.format lane).owed (s.object lane msg) i) := by
    refine ⟨h.carries, h.balanced, h.references, h.reads, fun event hmem => ?_⟩
    rcases List.mem_append.mp hmem with hmem | hmem
    · exact h.once event hmem
    · exact List.mem_singleton.mp hmem ▸ hdata
  obtain ⟨queued', hasked, hsame⟩ := hcalled.posts hsys hposts
  have hobject : asked.object lane msg = s.object lane msg := hsame lane msg hmsg
  have hbusy : (asked.holdings queued' ((sys.format lane).owed (s.object lane msg) i) none).Perm
      ((sys.format lane).owed (s.object lane msg) i ++ []) := by
    rw [State.holdings, List.append_nil]
  have hreleased := hasked.references.release hbusy hlt
  rw [← holdings_update_busy, List.append_nil] at hreleased
  refine ⟨queued', ?_, hsame⟩
  rw [hobject]
  exact ⟨hasked.carries, hasked.balanced, hreleased, hasked.reads, hasked.once⟩

theorem Settled.callObservers {behaviour : Behaviour sys} {remaining : Nat}
    (h : Settled s queued held ((sys.format lane).owed (s.object lane msg) i)) (hsys : sys.Counts)
    (hmsg : msg ∈ held lane) (hreads : (sys.format lane).Reads (s.object lane msg))
    (hcount : i + remaining = (sys.format lane).observerCount (s.object lane msg))
    (hcalls : callObservers behaviour lane msg remaining i s = some next) :
    ∃ queued', Settled next queued' held [] := by
  induction remaining generalizing s queued i with
  | zero =>
      obtain rfl := Option.some.inj hcalls
      have hdone : (sys.format lane).owed (s.object lane msg) i = [] :=
        Format.owed_done (Nat.le_of_eq hcount.symm)
      exact ⟨queued, hdone ▸ h⟩
  | succ remaining ih =>
      obtain ⟨middle, hfirst, hrest⟩ := Option.bind_eq_some_iff.mp hcalls
      obtain ⟨queued', hmiddle, hsame⟩ := h.callObserver hsys hmsg hreads (by omega) hfirst
      have hobject : middle.object lane msg = s.object lane msg := hsame lane msg hmsg
      rw [← hobject] at hmiddle hreads hcount
      exact ih hmiddle hreads (by omega) hrest

/-- A message whose observers have been called goes back to the pool. -/
theorem Settled.release
    (h : Settled s queued (Function.update held lane (msg :: held lane)) busy) (maxSize : Nat) :
    Settled (s.setQueue lane ((s.queue lane).release maxSize msg)) queued held busy := by
  have hcarries := h.carries lane
  have hbalanced := h.balanced lane
  rw [Function.update_self] at hcarries hbalanced
  refine ⟨fun other => ?_, fun other => ?_, h.references, h.reads, h.once⟩
  · by_cases heq : other = lane
    · subst heq
      simpa [State.setQueue] using hcarries.release maxSize
    · simpa [State.setQueue, heq] using h.carries other
  · by_cases heq : other = lane
    · subst heq
      rw [List.length_cons, ← Nat.add_assoc] at hbalanced
      simpa [State.setQueue] using hbalanced.release maxSize msg
    · simpa [State.setQueue, heq] using h.balanced other

theorem Settled.dispatchOne {behaviour : Behaviour sys} {result : Bool}
    (h : Settled s queued (fun _ => []) []) (hsys : sys.Counts)
    (hrun : dispatchOne behaviour lane s = some (next, result)) :
    ∃ queued', Settled next queued' (fun _ => []) [] := by
  cases hqueued : queued lane with
  | nil =>
      have hcarries := h.carries lane
      rw [hqueued] at hcarries
      simp only [SnapshotQueue.dispatchOne, hcarries.pop_nil (hsys.exponent lane), State.setQueue,
        Function.update_eq_self, Option.some.injEq, Prod.mk.injEq] at hrun
      exact ⟨queued, hrun.1 ▸ h⟩
  | cons msg rest =>
      obtain ⟨queue, hpop, htaken⟩ := h.pop hsys hqueued
      simp only [SnapshotQueue.dispatchOne, hpop, Option.map_eq_some_iff, Prod.mk.injEq] at hrun
      obtain ⟨called, hcalls, rfl, -⟩ := hrun
      rw [List.append_nil] at htaken
      have hmem : msg ∈ Function.update (fun _ => []) lane [msg] lane := by
        rw [Function.update_self]
        exact List.mem_singleton_self msg
      have hreads := h.reads lane msg (hqueued ▸ List.mem_cons_self ..)
      obtain ⟨queued', hcalled⟩ := htaken.callObservers hsys hmem hreads (Nat.zero_add _) hcalls
      exact ⟨queued', hcalled.release _⟩

/-! ### Runs -/

theorem Settled.step {behaviour : Behaviour sys} (h : Settled s queued (fun _ => []) [])
    (hsys : sys.Counts) {call : Call sys.Lane} (hstep : step behaviour s call = some next) :
    ∃ queued', Settled next queued' (fun _ => []) [] := by
  cases call with
  | addObserver topicId observer =>
      obtain rfl := Option.some.inj hstep
      exact ⟨queued, h.addObserver topicId observer⟩
  | post args =>
      obtain ⟨⟨state, result⟩, hpost, rfl⟩ := Option.map_eq_some_iff.mp hstep
      obtain ⟨queued', hposted, -⟩ := h.post hsys hpost
      exact ⟨queued', hposted⟩
  | dispatchOne lane =>
      obtain ⟨⟨state, result⟩, hdispatch, rfl⟩ := Option.map_eq_some_iff.mp hstep
      exact h.dispatchOne hsys hdispatch

theorem Settled.run {behaviour : Behaviour sys} (h : Settled s queued (fun _ => []) [])
    (hsys : sys.Counts) {calls : List (Call sys.Lane)} (hrun : run behaviour s calls = some next) :
    ∃ queued', Settled next queued' (fun _ => []) [] := by
  induction calls generalizing s queued with
  | nil =>
      obtain rfl := Option.some.inj hrun
      exact ⟨queued, h⟩
  | cons call rest ih =>
      obtain ⟨middle, hstep, hrest⟩ := Option.bind_eq_some_iff.mp hrun
      obtain ⟨queued', hmiddle⟩ := h.step hsys hstep
      exact ih hmiddle hrest

/-! ### Destruction -/

/-- No message is queued. -/
def State.IsEmpty (s : State sys) : Prop :=
  ∀ lane, (s.queue lane).m_queue.contents (2 ^ sys.exponent lane) = []

theorem Settled.freedOnce_iff (h : Settled s queued (fun _ => []) []) (hsys : sys.Counts) :
    FreedOnce s.destroy ↔ s.IsEmpty := by
  have hobjects : ∀ lane, DeletedOnce (s.destroy.memory lane) (s.destroy.queue lane) ↔
      (s.queue lane).m_queue.contents (2 ^ sys.exponent lane) = [] := by
    intro lane
    rw [(h.carries lane).contents_eq (hsys.exponent lane)]
    exact ((h.carries lane).deletedOnce_iff (h.balanced lane)).trans (and_iff_left rfl)
  constructor
  · exact fun hfreed lane => (hobjects lane).mp (hfreed.objects lane)
  · intro hempty
    refine ⟨fun lane => (hobjects lane).mpr (hempty lane), fun id _ => ?_, h.once⟩
    refine h.references.none_live (fun holder => ?_) id
    cases holder with
    | none => rfl
    | some lane =>
        have hnone := hempty lane
        rw [(h.carries lane).contents_eq (hsys.exponent lane)] at hnone
        rw [State.holdings, hnone, List.flatMap_nil]

/-- A run and then the destructor free everything exactly if the run has left no message in a
ring. -/
theorem freedOnce_iff_isEmpty (hsys : sys.Counts) {behaviour : Behaviour sys}
    {calls : List (Call sys.Lane)} (hrun : run behaviour (init sys) calls = some s) :
    FreedOnce s.destroy ↔ s.IsEmpty := by
  obtain ⟨queued, hsettled⟩ := (settled_init sys).run hsys hrun
  exact hsettled.freedOnce_iff hsys

theorem eventQueueBroadcastFast_counts {k : Nat} (hone : 1 ≤ k) (hk : k < 64) :
    (eventQueueBroadcastFast k).Counts :=
  ⟨fun _ => snapshotFormat_counts 48, fun _ => hone, fun _ => hk⟩

theorem eventQueueEmulator_counts {fast bulk : Nat} (hfast : 1 ≤ fast ∧ fast < 64)
    (hbulk : 1 ≤ bulk ∧ bulk < 64) : (eventQueueEmulator fast bulk).Counts where
  format
    | .fast => emuFastFormat_counts 48
    | .bulk => snapshotFormat_counts 48
  two
    | .fast => hfast.1
    | .bulk => hbulk.1
  exponent
    | .fast => hfast.2
    | .bulk => hbulk.2

/-- Whatever has been called, the destructor frees everything exactly if no message is queued. -/
def FreesUnlessQueued (sys : System) : Prop :=
  ∀ (behaviour : Behaviour sys) (calls : List (Call sys.Lane)) (s : State sys),
    run behaviour (init sys) calls = some s → (FreedOnce s.destroy ↔ s.IsEmpty)

/-- **Destruction** of an `EventQueueBroadcastFast` and of an `EventQueueEmulator`. -/
theorem snapshotQueues_freeUnlessQueued {k fast bulk : Nat} (hk : 1 ≤ k ∧ k < 64)
    (hfast : 1 ≤ fast ∧ fast < 64) (hbulk : 1 ≤ bulk ∧ bulk < 64) :
    FreesUnlessQueued (eventQueueBroadcastFast k) ∧
      FreesUnlessQueued (eventQueueEmulator fast bulk) :=
  ⟨fun _ _ _ hrun => freedOnce_iff_isEmpty (eventQueueBroadcastFast_counts hk.1 hk.2) hrun,
    fun _ _ _ hrun => freedOnce_iff_isEmpty (eventQueueEmulator_counts hfast hbulk) hrun⟩

/-- A managed payload that is posted and not dispatched is left behind, with its message. -/
theorem snapshotQueues_freeUnlessQueued_undispatched :
    ∃ s, run (fun _ => []) (init (eventQueueBroadcastFast 1))
        [.addObserver 5 ⟨1, 7⟩, .post ⟨(), 5, some (List.replicate 50 9), 50⟩] = some s ∧
      ¬ FreedOnce s.destroy := by
  obtain ⟨hfrees, -⟩ := snapshotQueues_freeUnlessQueued (by decide : 1 ≤ 1 ∧ 1 < 64)
    (by decide : 1 ≤ 1 ∧ 1 < 64) (by decide : 1 ≤ 1 ∧ 1 < 64)
  have hqueued : (run (fun _ => []) (init (eventQueueBroadcastFast 1))
      [.addObserver 5 ⟨1, 7⟩, .post ⟨(), 5, some (List.replicate 50 9), 50⟩]).map
        (fun s => ((s.queue ()).m_queue.contents (2 ^ 1)).length) = some 1 := by
    decide +kernel
  obtain ⟨s, hrun, hlength⟩ := Option.map_eq_some_iff.mp hqueued
  refine ⟨s, hrun, fun hfreed => ?_⟩
  have hempty := (hfrees _ _ s hrun).mp hfreed ()
  rw [show (eventQueueBroadcastFast 1).exponent () = 1 from rfl] at hempty
  rw [hempty] at hlength
  cases hlength

end MessageCenter.SnapshotQueue
