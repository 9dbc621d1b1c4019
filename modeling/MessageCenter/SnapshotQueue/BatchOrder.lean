import MessageCenter.SnapshotQueue.Batch

/-!
# Batched posting loses nothing

Every message of an `EventQueueBroadcastFastBatch` is in one place: its observers have been
called, a dispatch has taken it, or it waits in the ring or in `t_batch`.  Read in this order,
the messages of `post` are in the order of their calls, and so are those of `postBatched`,
which wait in `t_batch` behind all others.
-/

namespace MessageCenter.SnapshotQueue.Batch

open ObjectPoolLockFree PooledQueue
open SharedBatch (BATCH_MAX_TOPICS BATCH_MAX_OBSERVERS format)
open Concurrent (BATCH_SIZE)

variable {k : Nat} {s s' : State} {msg : Addr} {call : PostCall}

/-! ### Calls that return -/

/-- The call returns with `P`, or does not return, but not by a write out of bounds. -/
def Returns {α : Type} (P : α → Prop) : Except Stop α → Prop
  | .ok result => P result
  | .error stop => stop ≠ .outOfBounds

theorem Returns.bind {α β : Type} {P : α → Prop} {Q : β → Prop} {x : Except Stop α}
    {f : α → Except Stop β} (hx : Returns P x) (hf : ∀ a, P a → Returns Q (f a)) :
    Returns Q (x.bind f) := by
  cases x with
  | ok a => exact hf a hx
  | error stop => exact hx

theorem Returns.map {α β : Type} {P : α → Prop} {Q : β → Prop} {x : Except Stop α} {f : α → β}
    (hx : Returns P x) (hf : ∀ a, P a → Q (f a)) : Returns Q (x.map f) := by
  cases x with
  | ok a => exact hf a hx
  | error stop => exact hx

theorem Returns.imp {α : Type} {P Q : α → Prop} {x : Except Stop α} (hx : Returns P x)
    (hPQ : ∀ a, P a → Q a) : Returns Q x := by
  cases x with
  | ok a => exact hPQ a hx
  | error stop => exact hx

theorem Returns.of_ok {α : Type} {P : α → Prop} {x : Except Stop α} {a : α} (h : Returns P x)
    (hx : x = .ok a) : P a := by
  rw [hx] at h
  exact h

theorem ok_of_bind {α β : Type} {x : Except Stop α} {f : α → Except Stop β} {b : β}
    (h : x.bind f = .ok b) : ∃ a, x = .ok a ∧ f a = .ok b := by
  cases x with
  | ok a => exact ⟨a, rfl, h⟩
  | error stop => cases h

theorem ok_of_map {α β : Type} {x : Except Stop α} {f : α → β} {b : β} (h : x.map f = .ok b) :
    ∃ a, x = .ok a ∧ f a = b := by
  cases x with
  | ok a => exact ⟨a, rfl, Except.ok.inj h⟩
  | error stop => cases h

/-! ### Numbers in order -/

/-- A new number goes anywhere. -/
theorem perm_range_insert {before after : List Nat} {n : Nat}
    (h : (before ++ after).Perm (List.range n)) :
    (before ++ n :: after).Perm (List.range (n + 1)) := by
  rw [List.range_succ]
  exact List.perm_middle.trans ((h.cons n).trans (List.perm_append_singleton n _).symm)

/-- A new number that passes the test comes behind all others that do. -/
theorem pairwise_filter_insert {before after : List Nat} {n : Nat} (p q : Nat → Bool)
    (hlt : ∀ m ∈ before ++ after, m < n) (hold : ∀ m, m < n → q m = p m)
    (h : ((before ++ after).filter p).Pairwise (· < ·))
    (hlast : q n = true → ∀ m ∈ after, p m = false) :
    ((before ++ n :: after).filter q).Pairwise (· < ·) := by
  have hsame : ∀ list : List Nat, (∀ m ∈ list, m < n) → list.filter q = list.filter p :=
    fun list hlist => List.filter_congr fun m hm => hold m (hlist m hm)
  have hbefore := hsame before fun m hm => hlt m (List.mem_append_left _ hm)
  have hafter := hsame after fun m hm => hlt m (List.mem_append_right _ hm)
  rw [List.filter_append] at h
  rw [List.filter_append, List.filter_cons, hbefore, hafter]
  split
  · next hn =>
    have hnone : after.filter p = [] := by
      rw [List.filter_eq_nil_iff]
      intro m hm
      simp [hlast hn m hm]
    rw [hnone, List.append_nil] at h
    rw [hnone, List.pairwise_append]
    refine ⟨h, List.pairwise_singleton _ n, fun m hm other hother => ?_⟩
    rw [List.mem_singleton.mp hother]
    exact hlt m (List.mem_append_left _ (List.mem_filter.mp hm).1)
  · exact h

/-! ### Every message is in one place -/

/-- The messages: dispatched, taken by a dispatch, in the ring, in the buffer. -/
def State.places (k : Nat) (s : State) (taken buffer : List Addr) : List Nat :=
  s.dispatched ++ (taken ++ s.queued k ++ buffer).map s.carried

/-- The message comes from `postBatched`, or else from `post`. -/
def State.isBatched (s : State) (batched : Bool) (message : Nat) : Bool :=
  decide ((s.accepted[message]?).map PostCall.batched = some batched)

/-- A dispatch in progress has called the observers of `done` and has `taken` still to come;
`buffer` are the messages in `t_batch` that have not been pushed. -/
structure Inv (k : Nat) (s : State) (done taken buffer : List Addr) : Prop where
  carries : Carries k s.memory s.queue (s.queued k) (done ++ taken ++ buffer)
  placed : (s.places k taken buffer).Perm (List.range s.accepted.length)
  order : ∀ batched, ((s.places k taken buffer).filter (s.isBatched batched)).Pairwise (· < ·)
  buffered : ∀ msg ∈ buffer, s.isBatched true (s.carried msg) = true

variable {done taken buffer buffer' : List Addr}

theorem Inv.lt (h : Inv k s done taken buffer) :
    ∀ message ∈ s.places k taken buffer, message < s.accepted.length :=
  fun _ hmem => List.mem_range.mp (h.placed.subset hmem)

theorem isBatched_append (haccepted : s'.accepted = s.accepted ++ [call]) (batched : Bool)
    {message : Nat} (hlt : message < s.accepted.length) :
    s'.isBatched batched message = s.isBatched batched message := by
  rw [State.isBatched, State.isBatched, haccepted, List.getElem?_append_left hlt]

theorem isBatched_new (haccepted : s'.accepted = s.accepted ++ [call]) (batched : Bool) :
    s'.isBatched batched s.accepted.length = decide (call.batched = batched) := by
  simp [State.isBatched, haccepted]

/-- A new message has been put in its place. -/
theorem Inv.insert (h : Inv k s done taken buffer) (before after : List Nat)
    (hcarries : Carries k s'.memory s'.queue (s'.queued k) (done ++ taken ++ buffer'))
    (haccepted : s'.accepted = s.accepted ++ [call])
    (hplaces : s.places k taken buffer = before ++ after)
    (hplaces' : s'.places k taken buffer' = before ++ s.accepted.length :: after)
    (hlast : ∀ message ∈ after, s.isBatched call.batched message = false)
    (hbuffered : ∀ msg ∈ buffer', s'.isBatched true (s'.carried msg) = true) :
    Inv k s' done taken buffer' := by
  have hlt := h.lt
  rw [hplaces] at hlt
  refine ⟨hcarries, ?_, fun batched => ?_, hbuffered⟩
  · rw [hplaces', haccepted, List.length_append]
    exact perm_range_insert (hplaces ▸ h.placed)
  · rw [hplaces']
    refine pairwise_filter_insert (s.isBatched batched) _ hlt
      (fun message hm => isBatched_append haccepted batched hm) (hplaces ▸ h.order batched) ?_
    intro hnew message hmem
    rw [isBatched_new haccepted, decide_eq_true_eq] at hnew
    exact hnew ▸ hlast message hmem

/-- The pool hands out an object. -/
def State.acquired (s : State) : Addr × Memory SnapshotMessage × PooledQueue :=
  s.queue.acquire format.zero s.memory

/-- The heap and the message that a call leaves behind. -/
def State.filled (s : State) (call : PostCall) : PayloadHeap × SnapshotMessage :=
  let topic := s.m_topics call.topicId
  format.fill s.payloads (s.acquired.2.1.objects s.acquired.1) call.topicId topic.count
    topic.observers call.data call.size

theorem prepare_memory (s : State) (call : PostCall) : (prepare s call).1.memory =
    s.acquired.2.1.write s.acquired.1 (s.filled call).2 := rfl

/-- A pool object is taken for the message, and no other message is touched. -/
theorem prepare_carries {queued held : List Addr} (h : Carries k s.memory s.queue queued held)
    (call : PostCall) :
    Carries k (prepare s call).1.memory (prepare s call).1.queue queued
        ((prepare s call).2 :: held) ∧
      ∀ other ∈ queued ++ held, other ≠ (prepare s call).2 ∧
        (prepare s call).1.memory.objects other = s.memory.objects other := by
  obtain ⟨addr, memory, queue, hacquire, hacquired, -, hobjects⟩ := h.acquire format.zero
  have hmsg : (prepare s call).2 = addr := congrArg Prod.fst hacquire
  have hqueue : (prepare s call).1.queue = queue := congrArg (·.2.2) hacquire
  have hwritten : (prepare s call).1.memory = memory.write addr (s.filled call).2 := by
    rw [prepare_memory, State.acquired, hacquire]
  rw [hmsg, hqueue, hwritten]
  refine ⟨hacquired.write _, fun other hmem => ?_⟩
  have hne : other ≠ addr := by
    rintro rfl
    rcases List.mem_append.mp hmem with hqueued | hheld
    · exact hacquired.not_queued (List.mem_cons_self ..) hqueued
    · exact (List.nodup_cons.mp hacquired.held_nodup).1 hheld
  exact ⟨hne, (Function.update_of_ne hne ..).trans (hobjects other hmem)⟩

/-- The other messages are still those of their calls. -/
theorem prepare_carried {list : List Addr} (call : PostCall)
    (hne : ∀ other ∈ list, other ≠ (prepare s call).2) :
    list.map (prepare s call).1.carried = list.map s.carried :=
  List.map_congr_left fun other hmem => Function.update_of_ne (hne other hmem) ..

theorem prepare_carried_self (s : State) (call : PostCall) :
    (prepare s call).1.carried (prepare s call).2 = s.accepted.length :=
  Function.update_self ..

/-- The messages on their way are still those of their calls. -/
theorem Inv.prepare_kept (h : Inv k s done taken buffer) (call : PostCall) :
    ∀ other ∈ taken ++ s.queued k ++ buffer, other ≠ (prepare s call).2 := by
  intro other hmem
  refine ((prepare_carries h.carries call).2 other ?_).1
  simp only [List.mem_append] at hmem ⊢
  tauto

theorem Inv.prepare_buffered (h : Inv k s done taken buffer) (call : PostCall) :
    ∀ msg ∈ buffer, (prepare s call).1.isBatched true ((prepare s call).1.carried msg) = true := by
  intro msg hmem
  have hne := h.prepare_kept call msg (List.mem_append_right _ hmem)
  have hcarried : (prepare s call).1.carried msg = s.carried msg := Function.update_of_ne hne ..
  have hlt : s.carried msg < s.accepted.length := by
    refine h.lt _ (List.mem_append_right _ (List.mem_map_of_mem ?_))
    exact List.mem_append_right _ hmem
  rw [hcarried, isBatched_append rfl true hlt]
  exact h.buffered msg hmem

/-- The message of `postBatched` is put into the buffer. -/
theorem Inv.accumulate (h : Inv k s done taken s.t_batch) (hk : k < 64)
    (hbatched : call.batched = true)
    (haccumulate : Batch.accumulate (prepare s call).1 (prepare s call).2 = .ok s') :
    Inv k s' done taken s'.t_batch := by
  have hcarries := (prepare_carries h.carries call).1
  have hkept := prepare_carried call (h.prepare_kept call)
  rw [Batch.accumulate] at haccumulate
  split at haccumulate
  · obtain rfl := Except.ok.inj haccumulate
    have hqueued : ({ (prepare s call).1 with
        t_batch := (prepare s call).1.t_batch ++ [(prepare s call).2] } : State).queued k =
        s.queued k := hcarries.contents_eq hk
    refine h.insert _ [] ?_ rfl (List.append_nil _).symm ?_
      (fun _ hmem => absurd hmem List.not_mem_nil) (fun other hmem => ?_)
    · rw [hqueued]
      refine hcarries.of_held_perm ?_
      change (done ++ taken ++ (s.t_batch ++ [(prepare s call).2])).Perm _
      rw [← List.append_assoc]
      exact List.perm_append_singleton ..
    · rw [State.places, hqueued]
      change s.dispatched ++ (taken ++ s.queued k ++ (s.t_batch ++ [(prepare s call).2])).map
        (prepare s call).1.carried = _
      rw [← List.append_assoc, List.map_append, hkept, State.places, ← List.append_assoc]
      simp only [List.map_cons, List.map_nil, prepare_carried_self]
    · rcases List.mem_append.mp hmem with hold | hnew
      · exact h.prepare_buffered call other hold
      · obtain rfl := List.mem_singleton.mp hnew
        change (prepare s call).1.isBatched true ((prepare s call).1.carried _) = true
        rw [prepare_carried_self, isBatched_new rfl, hbatched]
        rfl
  · cases haccumulate

/-- The push has found room, as all pushes before. -/
theorem push_room (hpush : push k s msg = .ok s') (hroom : s'.overfull = false) :
    s.overfull = false ∧ (s.queued k).length < 2 ^ k := by
  rw [push] at hpush
  split at hpush
  · obtain rfl := Except.ok.inj hpush
    simpa using hroom
  · cases hpush

/-- A push that finds room sends the message and does nothing else. -/
theorem push_of_room {queued held : List Addr}
    (h : Carries k s.memory s.queue queued (msg :: held)) (hk : k < 64)
    (hlt : queued.length < 2 ^ k) :
    ∃ queue, push k s msg = .ok { s with queue := queue } ∧
      Carries k s.memory queue (queued ++ [msg]) held := by
  obtain ⟨queue, hpush, hcarries⟩ := h.push hk hlt
  have hqueued : s.queued k = queued := h.contents_eq hk
  have hfits : decide (2 ^ k ≤ (s.queued k).length) = false := by
    rw [hqueued]
    simpa using hlt
  refine ⟨queue, ?_, hcarries⟩
  rw [push, hpush]
  simp only [hfits, Bool.or_false]

theorem push_carries {held : List Addr} (h : Carries k s.memory s.queue (s.queued k) (msg :: held))
    (hk : k < 64) (hpush : push k s msg = .ok s') (hroom : s'.overfull = false) :
    (∃ queue, s' = { s with queue := queue }) ∧ s'.queued k = s.queued k ++ [msg] ∧
      Carries k s'.memory s'.queue (s'.queued k) held := by
  obtain ⟨queue, hsent, hcarries⟩ := push_of_room h hk (push_room hpush hroom).2
  obtain rfl := Except.ok.inj (hsent.symm.trans hpush)
  have hqueued : State.queued k { s with queue := queue } = s.queued k ++ [msg] :=
    hcarries.contents_eq hk
  exact ⟨⟨queue, rfl⟩, hqueued, hqueued.symm ▸ hcarries⟩

/-- The message of `post` is pushed. -/
theorem Inv.push (h : Inv k s done taken s.t_batch) (hk : k < 64) (hbatched : call.batched = false)
    (hpush : Batch.push k (prepare s call).1 (prepare s call).2 = .ok s')
    (hroom : s'.overfull = false) : Inv k s' done taken s'.t_batch := by
  have hcarries := (prepare_carries h.carries call).1
  have hfirst := prepare_carried call fun other hmem =>
    h.prepare_kept call other (List.mem_append_left s.t_batch hmem)
  have hbuffer := prepare_carried call fun other hmem =>
    h.prepare_kept call other (List.mem_append_right (taken ++ s.queued k) hmem)
  have hqueued : (prepare s call).1.queued k = s.queued k := hcarries.contents_eq hk
  rw [← hqueued] at hcarries
  obtain ⟨⟨queue, rfl⟩, hpushed, hsent⟩ := push_carries hcarries hk hpush hroom
  rw [hqueued] at hpushed
  refine h.insert (s.dispatched ++ (taken ++ s.queued k).map s.carried)
    (s.t_batch.map s.carried) hsent rfl ?_ ?_ ?_ (h.prepare_buffered call)
  · rw [State.places, List.map_append, ← List.append_assoc]
  · rw [State.places, hpushed]
    change s.dispatched ++ (taken ++ (s.queued k ++ [(prepare s call).2]) ++ s.t_batch).map
      (prepare s call).1.carried = _
    rw [← List.append_assoc, List.map_append, List.map_append, hfirst, hbuffer]
    simp only [List.map_cons, List.map_nil, prepare_carried_self, List.append_assoc,
      List.singleton_append]
  · intro message hmem
    obtain ⟨msg, hmsg, rfl⟩ := List.mem_map.mp hmem
    have hkind := h.buffered msg hmsg
    rw [State.isBatched, decide_eq_true_eq] at hkind
    simp [State.isBatched, hkind, hbatched]

/-- A message of the buffer is pushed. -/
theorem Inv.flush {rest : List Addr} (h : Inv k s done taken (msg :: rest)) (hk : k < 64)
    (hpush : Batch.push k s msg = .ok s') (hroom : s'.overfull = false) :
    Inv k s' done taken rest := by
  have hcarries : Carries k s.memory s.queue (s.queued k) (msg :: (done ++ taken ++ rest)) :=
    h.carries.of_held_perm List.perm_middle.symm
  obtain ⟨⟨queue, rfl⟩, hpushed, hsent⟩ := push_carries hcarries hk hpush hroom
  have hplaces : State.places k { s with queue := queue } taken rest =
      s.places k taken (msg :: rest) := by
    rw [State.places, State.places, hpushed]
    simp
  refine ⟨hsent, ?_, ?_, fun other hmem => h.buffered other (List.mem_cons_of_mem msg hmem)⟩
  · rw [hplaces]
    exact h.placed
  · rw [hplaces]
    exact h.order

/-- What a call does on its way: `t_batch` stays in its bounds, and if no push has found the
ring full, none had before and every message keeps its place. -/
structure After (k : Nat) (done taken done' taken' : List Addr) (s s' : State) : Prop where
  bounded : s'.t_batch.length < BATCH_SIZE
  room : s'.overfull = false → s.overfull = false
  inv : s'.overfull = false → Inv k s done taken s.t_batch → Inv k s' done' taken' s'.t_batch

variable {done' taken' done'' taken'' : List Addr} {s'' : State}

theorem After.trans (hfirst : After k done taken done' taken' s s')
    (hsecond : After k done' taken' done'' taken'' s' s'') :
    After k done taken done'' taken'' s s'' where
  bounded := hsecond.bounded
  room hroom := hfirst.room (hsecond.room hroom)
  inv hroom h := hsecond.inv hroom (hfirst.inv (hsecond.room hroom) h)

theorem After.refl (hbounded : s.t_batch.length < BATCH_SIZE) (done taken : List Addr) :
    After k done taken done taken s s :=
  ⟨hbounded, id, fun _ h => h⟩

theorem push_returns (k : Nat) (s : State) (msg : Addr) :
    Returns (fun s' => push k s msg = .ok s') (push k s msg) := by
  rw [push]
  split
  · rfl
  · exact Stop.noConfusion

/-- The loop of `flushBatch`. -/
theorem flushMsgs_returns (hk : k < 64) (msgs : List Addr) (s : State) :
    Returns (fun s' => s'.overfull = false → s.overfull = false ∧ ∀ done taken,
      Inv k s done taken msgs → Inv k s' done taken []) (flushMsgs k msgs s) := by
  induction msgs generalizing s with
  | nil => exact fun hroom => ⟨hroom, fun _ _ h => h⟩
  | cons msg rest ih =>
      refine (push_returns k s msg).bind fun middle hpush => ?_
      refine (ih middle).imp fun last hrest hroom => ?_
      obtain ⟨hmiddle, hinv⟩ := hrest hroom
      exact ⟨(push_room hpush hmiddle).1, fun done taken h =>
        hinv done taken (h.flush hk hpush hmiddle)⟩

theorem flushBatch_returns (hk : k < 64) (s : State) (done taken : List Addr) :
    Returns (After k done taken done taken s) (flushBatch k s) := by
  refine (flushMsgs_returns hk s.t_batch s).map fun s' hflush => ?_
  refine ⟨Nat.zero_lt_succ 31, fun hroom => (hflush hroom).1, fun hroom h => ?_⟩
  have hflushed := (hflush hroom).2 done taken h
  exact ⟨hflushed.carries, hflushed.placed, hflushed.order, hflushed.buffered⟩

/-- With room in the buffer the write is in bounds. -/
theorem accumulate_returns (hk : k < 64) (hbatched : call.batched = true)
    (hbounded : s.t_batch.length < BATCH_SIZE) (done taken : List Addr) :
    Returns (fun s' => s'.t_batch.length ≤ BATCH_SIZE ∧
      (s'.overfull = false → s.overfull = false) ∧
      (Inv k s done taken s.t_batch → Inv k s' done taken s'.t_batch))
      (accumulate (prepare s call).1 (prepare s call).2) := by
  cases haccumulate : accumulate (prepare s call).1 (prepare s call).2 with
  | error stop => simp [accumulate, prepare, hbounded] at haccumulate
  | ok next =>
      refine ⟨?_, ?_, fun h => h.accumulate hk hbatched haccumulate⟩
      all_goals
        have hfits : (prepare s call).1.t_batch.length < BATCH_SIZE := hbounded
        rw [accumulate, if_pos hfits] at haccumulate
        obtain rfl := Except.ok.inj haccumulate
      · change (s.t_batch ++ [(prepare s call).2]).length ≤ BATCH_SIZE
        rw [List.length_append]
        exact hbounded
      · exact id

theorem push_t_batch (hpush : push k s msg = .ok s') : s'.t_batch = s.t_batch := by
  rw [push] at hpush
  split at hpush
  · exact (congrArg State.t_batch (Except.ok.inj hpush)).symm
  · cases hpush

theorem flushBatch_t_batch (hflush : flushBatch k s = .ok s') : s'.t_batch = [] := by
  obtain ⟨last, -, rfl⟩ := ok_of_map hflush
  rfl

theorem run_returns (hk : k < 64) (call : PostCall) (hbounded : s.t_batch.length < BATCH_SIZE)
    (done taken : List Addr) :
    Returns (fun result => After k done taken done taken s result.1) (call.run k s) := by
  rw [PostCall.run]
  split
  · exact .refl hbounded done taken
  · split
    · exact .refl hbounded done taken
    · refine Returns.map (P := After k done taken done taken s) ?_ fun _ h => h
      split
      · next hbatched =>
        refine (accumulate_returns hk hbatched hbounded done taken).bind fun middle hmiddle => ?_
        split
        · refine (flushBatch_returns hk middle done taken).imp fun last hlast => ?_
          exact ⟨hlast.bounded, fun hroom => hmiddle.2.1 (hlast.room hroom),
            fun hroom h => hlast.inv hroom (hmiddle.2.2 h)⟩
        · next hroom => exact ⟨Nat.lt_of_not_le hroom, hmiddle.2.1, fun _ => hmiddle.2.2⟩
      · next hpost =>
        refine (push_returns k (prepare s call).1 (prepare s call).2).imp fun last hpush => ?_
        refine ⟨?_, fun hroom => (push_room hpush hroom).1, fun hroom h =>
          h.push hk (Bool.eq_false_of_not_eq_true hpost) hpush hroom⟩
        rw [push_t_batch hpush]
        exact hbounded

theorem posts_returns (hk : k < 64) (calls : List PostCall)
    (hbounded : s.t_batch.length < BATCH_SIZE) (done taken : List Addr) :
    Returns (After k done taken done taken s) (posts k s calls) := by
  induction calls generalizing s with
  | nil => exact .refl hbounded done taken
  | cons call rest ih =>
      refine (run_returns hk call hbounded done taken).bind fun result hfirst => ?_
      exact (ih hfirst.bounded).imp fun last hrest => hfirst.trans hrest

/-! ### Dispatches -/

theorem after_releasePayload (hbounded : s.t_batch.length < BATCH_SIZE) (msg : Addr)
    (done taken : List Addr) : After k done taken done taken s (releasePayload s msg) := by
  rw [releasePayload]
  split
  · exact ⟨hbounded, id, fun _ h => ⟨h.carries, h.placed, h.order, h.buffered⟩⟩
  · exact .refl hbounded done taken

theorem callObserver_returns (hk : k < 64) (behaviour : Behaviour) (msg : Addr) (i : Nat)
    (hbounded : s.t_batch.length < BATCH_SIZE) (done taken : List Addr) :
    Returns (After k done taken done taken s) (callObserver k behaviour msg i s) := by
  have hcalled : After k done taken done taken s { s with trace := s.trace ++ [s.event msg i] } :=
    ⟨hbounded, id, fun _ h => ⟨h.carries, h.placed, h.order, h.buffered⟩⟩
  refine (posts_returns hk _ hcalled.bounded done taken).map fun last hposts => ?_
  exact (hcalled.trans hposts).trans (after_releasePayload hposts.bounded msg done taken)

theorem callObservers_returns (hk : k < 64) (behaviour : Behaviour) (msg : Addr)
    (remaining i : Nat) (hbounded : s.t_batch.length < BATCH_SIZE) (done taken : List Addr) :
    Returns (After k done taken done taken s) (callObservers k behaviour msg remaining i s) := by
  induction remaining generalizing s i with
  | zero => exact .refl hbounded done taken
  | succ remaining ih =>
      refine (callObserver_returns hk behaviour msg i hbounded done taken).bind fun next hfirst => ?_
      exact (ih (i + 1) hfirst.bounded).imp fun last hrest => hfirst.trans hrest

/-- The observers of a message that has been taken are called. -/
theorem dispatchMsg_returns (hk : k < 64) (behaviour : Behaviour) (msg : Addr)
    (hbounded : s.t_batch.length < BATCH_SIZE) (done taken : List Addr) :
    Returns (After k done (msg :: taken) (done ++ [msg]) taken s) (dispatchMsg k behaviour msg s) := by
  have hdispatched : After k done (msg :: taken) (done ++ [msg]) taken s
      { s with dispatched := s.dispatched ++ [s.carried msg] } := by
    refine ⟨hbounded, id, fun _ h => ?_⟩
    have hplaces : State.places k { s with dispatched := s.dispatched ++ [s.carried msg] } taken
        s.t_batch = s.places k (msg :: taken) s.t_batch := by
      simp [State.places, State.queued]
    refine ⟨?_, ?_, ?_, h.buffered⟩
    · rw [List.append_assoc done]
      exact h.carries
    · rw [hplaces]
      exact h.placed
    · rw [hplaces]
      exact h.order
  refine (callObservers_returns hk behaviour msg _ 0 hdispatched.bounded (done ++ [msg]) taken).imp ?_
  exact fun last hcalled => hdispatched.trans hcalled

/-- A dispatch takes the first message of the ring, if there is one. -/
theorem Inv.pop (h : Inv k s done taken buffer) (hk : k < 64) {queue : PooledQueue}
    {item : Option Addr} (hpop : s.queue.pop (2 ^ k) = some (queue, item)) :
    Inv k { s with queue := queue } done (taken ++ item.toList) buffer ∧
      s.queued k = item.toList ++ State.queued k { s with queue := queue } := by
  have hcarries := h.carries
  cases hqueued : s.queued k with
  | nil =>
      rw [hqueued] at hcarries
      obtain ⟨rfl, rfl⟩ := Prod.mk.inj (Option.some.inj ((hcarries.pop_nil hk).symm.trans hpop))
      rw [Option.toList_none, List.append_nil]
      exact ⟨⟨h.carries, h.placed, h.order, h.buffered⟩, hqueued.symm⟩
  | cons first rest =>
      rw [hqueued] at hcarries
      obtain ⟨after, hfirst, hafter⟩ := hcarries.pop_cons hk
      obtain ⟨rfl, rfl⟩ := Prod.mk.inj (Option.some.inj (hfirst.symm.trans hpop))
      have hrest : State.queued k { s with queue := after } = rest := hafter.contents_eq hk
      have hplaces : State.places k { s with queue := after } (taken ++ [first]) buffer =
          s.places k taken buffer := by
        rw [State.places, State.places, hrest, hqueued]
        simp
      rw [Option.toList_some, hrest]
      refine ⟨⟨?_, ?_, ?_, h.buffered⟩, rfl⟩
      · rw [hrest]
        refine hafter.of_held_perm ?_
        rw [← List.append_assoc, List.append_assoc (done ++ taken)]
        exact List.perm_middle
      · rw [hplaces]
        exact h.placed
      · rw [hplaces]
        exact h.order

theorem pop_returns (hk : k < 64) (hbounded : s.t_batch.length < BATCH_SIZE)
    (done taken : List Addr) :
    Returns (fun result => After k done taken done (taken ++ result.2.toList) s result.1)
      (pop k s) := by
  rw [Batch.pop]
  split
  · next queue item hpop => exact ⟨hbounded, id, fun _ h => (h.pop hk hpop).1⟩
  · exact Stop.noConfusion

/-- A message whose observers have been called goes back to the pool. -/
theorem after_release (hk : k < 64) (hbounded : s.t_batch.length < BATCH_SIZE) (msg : Addr)
    (done taken : List Addr) : After k (msg :: done) taken done taken s (release msg s) := by
  refine ⟨hbounded, id, fun _ h => ?_⟩
  have hcarries := h.carries.release 16384
  have hqueued : (release msg s).queued k = s.queued k := hcarries.contents_eq hk
  refine ⟨?_, ?_, ?_, h.buffered⟩
  · rw [hqueued]
    exact hcarries
  · rw [State.places, hqueued]
    exact h.placed
  · rw [State.places, hqueued]
    exact h.order

theorem dispatchOne_returns (hk : k < 64) (behaviour : Behaviour)
    (hbounded : s.t_batch.length < BATCH_SIZE) :
    Returns (fun result => After k [] [] [] [] s result.1) (dispatchOne k behaviour s) := by
  refine (pop_returns hk hbounded [] []).bind fun result htaken => ?_
  obtain ⟨next, item⟩ := result
  cases item with
  | none => exact htaken
  | some msg =>
      refine (dispatchMsg_returns hk behaviour msg htaken.bounded [] []).map fun last hdispatched => ?_
      exact (htaken.trans hdispatched).trans (after_release hk hdispatched.bounded msg [] [])

theorem takeMsgs_returns (hk : k < 64) (n : Nat) (hbounded : s.t_batch.length < BATCH_SIZE)
    (taken : List Addr) :
    Returns (fun result => After k [] taken [] (taken ++ result.2) s result.1) (takeMsgs k n s) := by
  induction n generalizing s taken with
  | zero =>
      rw [takeMsgs, Returns, List.append_nil]
      exact .refl hbounded [] taken
  | succ n ih =>
      refine (pop_returns hk hbounded [] taken).bind fun result htaken => ?_
      obtain ⟨next, item⟩ := result
      cases item with
      | none => exact htaken
      | some msg =>
          refine (ih htaken.bounded (taken ++ [msg])).map fun last hrest => ?_
          rw [List.append_assoc] at hrest
          exact htaken.trans hrest

theorem dispatchMsgs_returns (hk : k < 64) (behaviour : Behaviour) (msgs : List Addr)
    (hbounded : s.t_batch.length < BATCH_SIZE) (done : List Addr) :
    Returns (After k done msgs (done ++ msgs) [] s) (dispatchMsgs k behaviour msgs s) := by
  induction msgs generalizing s done with
  | nil => exact (List.append_nil done).symm ▸ After.refl hbounded done []
  | cons msg rest ih =>
      refine (dispatchMsg_returns hk behaviour msg hbounded done rest).bind fun next hfirst => ?_
      refine (ih hfirst.bounded (done ++ [msg])).imp fun last hrest => ?_
      rw [List.append_assoc] at hrest
      exact hfirst.trans hrest

theorem after_releaseMsgs (hk : k < 64) (msgs : List Addr)
    (hbounded : s.t_batch.length < BATCH_SIZE) :
    After k msgs [] [] [] s (releaseMsgs msgs s) := by
  induction msgs generalizing s with
  | nil => exact .refl hbounded [] []
  | cons msg rest ih =>
      have hfirst := after_release hk hbounded msg rest []
      exact hfirst.trans (ih hfirst.bounded)

theorem dispatchBatch_returns (hk : k < 64) (behaviour : Behaviour) (maxCount : Nat)
    (hbounded : s.t_batch.length < BATCH_SIZE) :
    Returns (fun result => After k [] [] [] [] s result.1) (dispatchBatch k behaviour maxCount s) := by
  refine (takeMsgs_returns hk _ hbounded []).bind fun result htaken => ?_
  obtain ⟨next, batch⟩ := result
  refine (dispatchMsgs_returns hk behaviour batch htaken.bounded []).map fun last hcalled => ?_
  exact (htaken.trans hcalled).trans (after_releaseMsgs hk batch hcalled.bounded)

theorem dispatchAll_returns (hk : k < 64) (behaviour : Behaviour) (rounds : Nat)
    (hbounded : s.t_batch.length < BATCH_SIZE) :
    Returns (fun result => After k [] [] [] [] s result.1) (dispatchAll k behaviour rounds s) := by
  induction rounds generalizing s with
  | zero => exact Stop.noConfusion
  | succ rounds ih =>
      refine (dispatchOne_returns hk behaviour hbounded).bind fun result hfirst => ?_
      obtain ⟨next, found⟩ := result
      cases found with
      | false => exact hfirst
      | true => exact (ih hfirst.bounded).map fun last hrest => hfirst.trans hrest

/-! ### Runs -/

theorem after_addObserver (hbounded : s.t_batch.length < BATCH_SIZE) (topicId : Nat)
    (observer : Observer) : After k [] [] [] [] s (addObserver s topicId observer) := by
  rw [addObserver]
  split
  · exact .refl hbounded [] []
  · dsimp only
    split
    · exact .refl hbounded [] []
    · exact ⟨hbounded, id, fun _ h => ⟨h.carries, h.placed, h.order, h.buffered⟩⟩

theorem step_returns (hk : k < 64) (behaviour : Behaviour) (call : Call)
    (hbounded : s.t_batch.length < BATCH_SIZE) :
    Returns (After k [] [] [] [] s) (step k behaviour s call) := by
  cases call with
  | addObserver topicId observer => exact after_addObserver hbounded topicId observer
  | post topicId data size => exact (run_returns hk _ hbounded [] []).map fun _ h => h
  | postBatched topicId data size => exact (run_returns hk _ hbounded [] []).map fun _ h => h
  | flushBatch => exact flushBatch_returns hk s [] []
  | dispatchOne => exact (dispatchOne_returns hk behaviour hbounded).map fun _ h => h
  | dispatchBatch maxCount =>
      exact (dispatchBatch_returns hk behaviour maxCount hbounded).map fun _ h => h
  | dispatchAll rounds =>
      exact (dispatchAll_returns hk behaviour rounds hbounded).map fun _ h => h

theorem calls_return (hk : k < 64) (behaviour : Behaviour) (calls : List Call)
    (hbounded : s.t_batch.length < BATCH_SIZE) :
    Returns (After k [] [] [] [] s) (run k behaviour s calls) := by
  induction calls generalizing s with
  | nil => exact .refl hbounded [] []
  | cons call rest ih =>
      refine (step_returns hk behaviour call hbounded).bind fun next hfirst => ?_
      exact (ih hfirst.bounded).imp fun last hrest => hfirst.trans hrest

theorem inv_initWith (hk : k < 64) {pool : Memory SnapshotMessage × PooledQueue}
    (hcarries : Carries k pool.1 pool.2 [] []) : Inv k (initWith pool) [] [] [] := by
  have hqueued : (initWith pool).queued k = [] := hcarries.contents_eq hk
  refine ⟨?_, ?_, fun batched => ?_, fun _ hmem => absurd hmem List.not_mem_nil⟩
  · rw [hqueued]
    exact hcarries
  · rw [State.places, hqueued]
    exact .refl _
  · rw [State.places, hqueued]
    exact .nil

theorem inv_init (hk : k < 64) : Inv k init [] [] [] := inv_initWith hk (construct_carries ..).1

/-! ### Callbacks that do not post -/

/-- From here on callbacks post nothing. -/
def Quiet (behaviour : Behaviour) (s : State) : Prop :=
  ∀ events, s.trace.length < events.length → behaviour events = []

/-- Callbacks have been made that did not post. -/
structure Called (s s' : State) : Prop where
  memory : s'.memory = s.memory
  queue : s'.queue = s.queue
  t_batch : s'.t_batch = s.t_batch
  accepted : s'.accepted = s.accepted
  overfull : s'.overfull = s.overfull
  trace : s.trace.length ≤ s'.trace.length

theorem Called.trans (hfirst : Called s s') (hsecond : Called s' s'') : Called s s'' where
  memory := hsecond.memory.trans hfirst.memory
  queue := hsecond.queue.trans hfirst.queue
  t_batch := hsecond.t_batch.trans hfirst.t_batch
  accepted := hsecond.accepted.trans hfirst.accepted
  overfull := hsecond.overfull.trans hfirst.overfull
  trace := hfirst.trace.trans hsecond.trace

theorem Quiet.later {behaviour : Behaviour} (h : Quiet behaviour s)
    (htrace : s.trace.length ≤ s'.trace.length) : Quiet behaviour s' :=
  fun events hlt => h events (Nat.lt_of_le_of_lt htrace hlt)

theorem releasePayload_called (s : State) (msg : Addr) : Called s (releasePayload s msg) := by
  rw [releasePayload]
  split <;> exact ⟨rfl, rfl, rfl, rfl, rfl, Nat.le_refl _⟩

theorem callObserver_quiet {behaviour : Behaviour} (h : Quiet behaviour s) (msg : Addr) (i : Nat) :
    ∃ s', callObserver k behaviour msg i s = .ok s' ∧ Called s s' := by
  have hnone : behaviour (s.trace ++ [s.event msg i]) = [] := h _ (by simp)
  have hcalled : Called s { s with trace := s.trace ++ [s.event msg i] } :=
    ⟨rfl, rfl, rfl, rfl, rfl, by simp⟩
  refine ⟨releasePayload { s with trace := s.trace ++ [s.event msg i] } msg, ?_,
    hcalled.trans (releasePayload_called _ msg)⟩
  rw [callObserver, hnone]
  rfl

theorem callObservers_quiet {behaviour : Behaviour} (h : Quiet behaviour s) (msg : Addr)
    (remaining i : Nat) :
    ∃ s', callObservers k behaviour msg remaining i s = .ok s' ∧ Called s s' := by
  induction remaining generalizing s i with
  | zero => exact ⟨s, rfl, rfl, rfl, rfl, rfl, rfl, Nat.le_refl _⟩
  | succ remaining ih =>
      obtain ⟨middle, hfirst, hcalled⟩ := callObserver_quiet (k := k) h msg i
      obtain ⟨last, hrest, hlast⟩ := ih (h.later hcalled.trace) (i + 1)
      refine ⟨last, ?_, hcalled.trans hlast⟩
      rw [callObservers, hfirst]
      exact hrest

/-- A dispatch without posts takes the first message off the ring. -/
theorem dispatchOne_quiet {behaviour : Behaviour} (h : Quiet behaviour s) (hk : k < 64)
    (hinv : Inv k s [] [] s.t_batch) : ∃ s',
      dispatchOne k behaviour s = .ok (s', !(s.queued k).isEmpty) ∧
        s'.queued k = (s.queued k).tail ∧ s'.t_batch = s.t_batch ∧ s'.accepted = s.accepted ∧
        s'.overfull = s.overfull ∧ Quiet behaviour s' := by
  have hcarries := hinv.carries
  cases hqueued : s.queued k with
  | nil =>
      rw [hqueued] at hcarries
      refine ⟨s, ?_, hqueued, rfl, rfl, rfl, h⟩
      rw [dispatchOne, Batch.pop, hcarries.pop_nil hk]
      rfl
  | cons first rest =>
      rw [hqueued] at hcarries
      obtain ⟨after, hpop, hafter⟩ := hcarries.pop_cons hk
      obtain ⟨last, hcall, hcalled⟩ := callObservers_quiet (k := k)
        (s := { s with queue := after, dispatched := s.dispatched ++ [s.carried first] }) h first
        (format.observerCount (s.memory.objects first)) 0
      refine ⟨release first last, ?_, ?_, hcalled.t_batch, hcalled.accepted, hcalled.overfull,
        h.later hcalled.trace⟩
      · rw [dispatchOne, Batch.pop, hpop]
        simp only [Except.bind, dispatchMsg, hcall, Except.map]
        rfl
      · have hreleased := (hafter.release 16384).contents_eq hk
        rw [State.queued, release, hcalled.queue]
        exact hreleased

/-- `dispatchAll` empties the ring and returns. -/
theorem dispatchAll_quiet {behaviour : Behaviour} (h : Quiet behaviour s) (hk : k < 64)
    (hbounded : s.t_batch.length < BATCH_SIZE) (hroom : s.overfull = false)
    (hinv : Inv k s [] [] s.t_batch) {rounds : Nat} (hrounds : (s.queued k).length < rounds) :
    ∃ last count, dispatchAll k behaviour rounds s = .ok (last, count) ∧ last.queued k = [] ∧
      last.t_batch = s.t_batch ∧ last.accepted = s.accepted ∧ Inv k last [] [] last.t_batch := by
  induction rounds generalizing s with
  | zero => exact absurd hrounds (Nat.not_lt_zero _)
  | succ rounds ih =>
      obtain ⟨next, hone, hqueued, ht_batch, haccepted, hoverfull, hquiet⟩ :=
        dispatchOne_quiet h hk hinv
      have hafter := dispatchOne_returns hk behaviour hbounded
      rw [hone] at hafter
      have hnextRoom : next.overfull = false := hoverfull.trans hroom
      have hnext := hafter.inv hnextRoom hinv
      cases hlist : s.queued k with
      | nil =>
          rw [hlist] at hone hqueued
          refine ⟨next, 0, ?_, hqueued, ht_batch, haccepted, hnext⟩
          rw [dispatchAll, hone]
          rfl
      | cons first rest =>
          rw [hlist] at hone hqueued hrounds
          have hfewer : (next.queued k).length < rounds := by
            rw [hqueued]
            exact Nat.lt_of_succ_lt_succ hrounds
          obtain ⟨last, count, hall, hempty, hbuffer, hcalls, hlast⟩ :=
            ih hquiet hafter.bounded hnextRoom hnext hfewer
          refine ⟨last, count + 1, ?_, hempty, hbuffer.trans ht_batch, hcalls.trans haccepted, hlast⟩
          rw [dispatchAll, hone]
          simp only [Except.bind, List.isEmpty_cons, Bool.not_false, hall, Except.map]

/-! ### The theorem -/

/-- Between calls: every accepted message is in one place, and those of each kind have been
dispatched and wait in the order of their calls. -/
structure Accounted (k : Nat) (s : State) : Prop where
  /-- dispatched, in the ring or in the buffer, each exactly once -/
  once : (s.dispatched ++ (s.queued k ++ s.t_batch).map s.carried).Perm
    (List.range s.accepted.length)
  order : ∀ batched,
    ((s.dispatched ++ (s.queued k ++ s.t_batch).map s.carried).filter
      (s.isBatched batched)).Pairwise (· < ·)

theorem Inv.accounted (h : Inv k s [] [] s.t_batch) : Accounted k s := ⟨h.placed, h.order⟩

/-- `flushBatch` and a long enough `dispatchAll` leave nothing undone. -/
def Drains (k : Nat) (behaviour : Behaviour) (s : State) : Prop :=
  ∀ flushed, flushBatch k s = .ok flushed → flushed.overfull = false → Quiet behaviour flushed →
    ∀ rounds, (flushed.queued k).length < rounds → ∃ last count,
      dispatchAll k behaviour rounds flushed = .ok (last, count) ∧ last.queued k = [] ∧
        last.t_batch = [] ∧ last.dispatched.Perm (List.range last.accepted.length)

/-- **Batched posting loses nothing.**  Whatever the calls and the callbacks do, no write is
out of the bounds of `t_batch`; and as long as no push finds the ring full, every accepted
message is in one place and is dispatched in its turn. -/
theorem batched_posting_keeps (hk : k < 64) (behaviour : Behaviour) (calls : List Call) :
    run k behaviour init calls ≠ .error .outOfBounds ∧
      ∀ s, run k behaviour init calls = .ok s → s.t_batch.length < BATCH_SIZE ∧
        (s.overfull = false → Accounted k s ∧ Drains k behaviour s) := by
  have hreturns := calls_return hk behaviour calls (s := init) (Nat.zero_lt_succ 31)
  constructor
  · intro hstop
    rw [hstop] at hreturns
    exact hreturns rfl
  · intro s hrun
    rw [hrun] at hreturns
    refine ⟨hreturns.bounded, fun hroom => ?_⟩
    have hinv := hreturns.inv hroom (inv_init hk)
    refine ⟨hinv.accounted, fun flushed hflush hfits hquiet rounds hrounds => ?_⟩
    have hflushed := flushBatch_returns hk s [] []
    rw [hflush] at hflushed
    have hempty := flushBatch_t_batch hflush
    obtain ⟨last, count, hall, hring, hbuffer, -, hlast⟩ :=
      dispatchAll_quiet hquiet hk hflushed.bounded hfits (hflushed.inv hfits hinv) hrounds
    refine ⟨last, count, hall, hring, hbuffer.trans hempty, ?_⟩
    have hplaced := hlast.accounted.once
    rw [hring, hbuffer, hempty] at hplaced
    simpa using hplaced

/-- A run that returns and passes a test. -/
theorem exists_run_of_test (behaviour : Behaviour) (calls : List Call) (test : State → Bool)
    (h : (run k behaviour init calls).toOption.any test = true) :
    ∃ s, run k behaviour init calls = .ok s ∧ test s = true := by
  cases hrun : run k behaviour init calls with
  | error stop => simp [hrun, Except.toOption] at h
  | ok s => exact ⟨s, rfl, by simpa [hrun, Except.toOption] using h⟩

/-- The first callbacks post to topic 1, by turns in a batch and directly. -/
def repliesTwice : Behaviour := fun events =>
  if events.length ≤ 2 then [⟨events.length % 2 = 0, 1, some [9], 1⟩] else []

/-- Three posts, two of them dispatched; what the callbacks posted waits in the ring and in
the buffer. -/
def mixedCalls : List Call :=
  [.addObserver 0 ⟨7, 0⟩, .addObserver 1 ⟨8, 0⟩, .postBatched 0 (some [1]) 1, .post 0 (some [2]) 1,
    .flushBatch, .postBatched 0 none 0, .dispatchBatch 2]

theorem batched_posting_keeps_mixed : ∃ s, run 4 repliesTwice init mixedCalls = .ok s ∧
    s.dispatched = [1, 0] ∧ (s.queued 4).map s.carried = [3] ∧ s.t_batch.map s.carried = [2, 4] ∧
    Accounted 4 s := by
  obtain ⟨s, hrun, htest⟩ := exists_run_of_test (k := 4) repliesTwice mixedCalls
    (fun s => decide (s.dispatched = [1, 0] ∧ (s.queued 4).map s.carried = [3] ∧
      s.t_batch.map s.carried = [2, 4] ∧ s.overfull = false)) (by decide +kernel)
  obtain ⟨hdispatched, hring, hbuffer, hroom⟩ := of_decide_eq_true htest
  have hkept := (batched_posting_keeps (k := 4) (by decide) repliesTwice mixedCalls).2 s hrun
  exact ⟨s, hrun, hdispatched, hring, hbuffer, (hkept.2 hroom).1⟩

end MessageCenter.SnapshotQueue.Batch
