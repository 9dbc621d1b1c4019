import MessageCenter.SnapshotQueue.BatchOrder
import MessageCenter.SnapshotQueue.Refinement

/-!
# `dispatchBatch` against `dispatchOne`

`dispatchBatch` takes up to 32 messages from the ring, calls all their observers and gives the
objects back at the end, where successive calls of `dispatchOne` do this for one message after
the other.  From the second message on, callbacks that post get other message objects on the two
ways, so the states are compared message by message: what was posted, and in which order, is
the same.
-/

namespace MessageCenter.SnapshotQueue.Batch

open ObjectPoolLockFree PooledQueue
open SharedBatch (BATCH_MAX_TOPICS BATCH_MAX_OBSERVERS format)
open Concurrent (BATCH_SIZE)

/-- Up to `n` calls of `dispatchOne`, and how many of them found a message. -/
def dispatchTimes (k : Nat) (behaviour : Behaviour) : Nat → State → Except Stop (State × Nat)
  | 0, s => .ok (s, 0)
  | n + 1, s =>
      (dispatchOne k behaviour s).bind fun (s, found) =>
        (dispatchTimes k behaviour n s).map fun (s, count) => (s, found.toNat + count)

/-- There are bytes behind the pointer, or none are copied into the message. -/
def PostCall.PassesBytes (call : PostCall) : Prop :=
  call.size ≤ 48 → call.data.isSome ∨ call.size = 0

/-! ### The same message in two objects -/

/-- The calls that have taken a message object since `s` pass their bytes. -/
def State.PassBytesUntil (s s' : State) : Prop :=
  ∀ call ∈ s'.accepted.drop s.accepted.length, call.PassesBytes

/-- The objects hold the same message; its inline bytes are the same if `exact`. -/
structure SameMessage (exact : Prop) (message message' : SnapshotMessage) : Prop where
  topicId : message.topicId = message'.topicId
  observerCount : message.observerCount = message'.observerCount
  isInline : message.isInline = message'.isInline
  payloadSize : message.payloadSize = message'.payloadSize
  observers : ∀ i < message.observerCount, message.observers i = message'.observers i
  managed : format.managed message = format.managed message'
  bytes : exact → message.isInline = true →
    ∀ i < message.payloadSize, message.payload i = message'.payload i

variable {exact : Prop}

theorem SameMessage.refl (message : SnapshotMessage) : SameMessage exact message message :=
  ⟨rfl, rfl, rfl, rfl, fun _ _ => rfl, rfl, fun _ _ _ _ => rfl⟩

/-- Whatever the objects held before, a call makes the same message of them. -/
theorem fill_same (heap : PayloadHeap) (old old' : SnapshotMessage) (call : PostCall)
    (topic : TopicObservers) (hexact : exact → old = old' ∨ call.PassesBytes) :
    (format.fill heap old call.topicId topic.count topic.observers call.data call.size).1 =
        (format.fill heap old' call.topicId topic.count topic.observers call.data call.size).1 ∧
      SameMessage exact
        (format.fill heap old call.topicId topic.count topic.observers call.data call.size).2
        (format.fill heap old' call.topicId topic.count topic.observers call.data call.size).2 := by
  have hobservers : ∀ i < topic.count, copyObservers old.observers topic.observers topic.count i =
      copyObservers old'.observers topic.observers topic.count i := by
    intro i hi
    rw [copyObservers, copyObservers, if_pos hi, if_pos hi]
  simp only [format, snapshotFormat]
  split
  · next hsmall =>
    refine ⟨rfl, rfl, rfl, rfl, rfl, hobservers, rfl, fun h _ i hi => ?_⟩
    rcases hexact h with rfl | hpasses
    · rfl
    rcases hpasses hsmall with hsome | hzero
    · obtain ⟨bytes, hbytes⟩ := Option.isSome_iff_exists.mp hsome
      have hlt : i < call.size := hi
      simp [PayloadUnion.copyInline, PayloadUnion.copyBytes, hbytes, hlt, Nat.zero_lt_of_lt hlt]
    · exact absurd (hzero ▸ hi) (Nat.not_lt_zero i)
  · refine ⟨rfl, rfl, rfl, rfl, rfl, hobservers, ?_, fun _ hinline => absurd hinline (by simp)⟩
    simp only [format, snapshotFormat, PayloadUnion.managed_setManaged]

/-! ### Two states with the same messages -/

variable {k : Nat} {s s' t t' : State} {call : PostCall}

/-- The objects at `a` and `b` hold the message of one call. -/
def SameAt (exact : Prop) (s t : State) (a b : Addr) : Prop :=
  SameMessage exact (s.memory.objects a) (t.memory.objects b) ∧ s.carried a = t.carried b

/-- The step leaves the object alone. -/
def Untouched (s s' : State) (msg : Addr) : Prop :=
  s'.memory.objects msg = s.memory.objects msg ∧ s'.carried msg = s.carried msg

theorem SameAt.untouched {a b : Addr} (h : SameAt exact s t a b) (hs : Untouched s s' a)
    (ht : Untouched t t' b) : SameAt exact s' t' a b := by
  refine ⟨?_, ?_⟩
  · rw [hs.1, ht.1]
    exact h.1
  · rw [hs.2, ht.2, h.2]

/-- The pools hand out the same objects. -/
structure SamePool (s t : State) : Prop where
  memory : t.memory = s.memory
  freeList : t.queue.m_freeList = s.queue.m_freeList

theorem SamePool.acquired (h : SamePool s t) : t.acquired.1 = s.acquired.1 ∧
    t.acquired.2.1 = s.acquired.2.1 ∧ t.acquired.2.2.m_freeList = s.acquired.2.2.m_freeList := by
  rw [State.acquired, State.acquired, PooledQueue.acquire, PooledQueue.acquire, h.memory, h.freeList]
  cases s.queue.m_freeList with
  | nil => exact ⟨rfl, rfl, rfl⟩
  | cons addr rest => exact ⟨rfl, rfl, rfl⟩

/-- A push leaves the pool alone. -/
theorem push_samePool {msg : Addr} (hpush : Batch.push k s msg = .ok s') : SamePool s s' := by
  rw [Batch.push] at hpush
  split at hpush
  · next queue hqueue =>
    obtain rfl := Except.ok.inj hpush
    exact ⟨rfl, (PooledQueue.push_pool hqueue).1⟩
  · cases hpush

theorem SamePool.twin (h : SamePool s t) (hs : SamePool s s') (ht : SamePool t t') :
    SamePool s' t' :=
  ⟨ht.memory.trans (h.memory.trans hs.memory.symm),
    ht.freeList.trans (h.freeList.trans hs.freeList.symm)⟩

/-- Where the messages of a state are: in the ring, held by calls, in the batch buffer. -/
structure Places where
  ring : List Addr
  held : List Addr
  buffer : List Addr

/-- `s` is on the way with single dispatches and `t` on the way with one dispatch of many:
the messages `ahead` are still in the ring of `s`, and `shared` are objects that both use.
With `alike` no object has gone back to the pool on one way only. -/
structure Twin (k : Nat) (exact alike : Prop) (ahead shared : List Addr) (p q : Places)
    (s t : State) : Prop where
  left : Carries k s.memory s.queue (ahead ++ p.ring) (p.held ++ p.buffer)
  right : Carries k t.memory t.queue q.ring (q.held ++ q.buffer)
  sharedLeft : shared ⊆ ahead ++ p.held
  sharedRight : shared ⊆ q.held
  shared : ∀ msg ∈ shared, Untouched s t msg
  ring : List.Forall₂ (SameAt exact s t) p.ring q.ring
  buffer : List.Forall₂ (SameAt exact s t) p.buffer q.buffer
  topics : t.m_topics = s.m_topics
  payloads : t.payloads = s.payloads
  trace : t.trace = s.trace
  accepted : t.accepted = s.accepted
  dispatched : t.dispatched = s.dispatched
  room : s.overfull = false ∧ t.overfull = false
  pool : alike → SamePool s t

variable {alike : Prop} {ahead shared : List Addr} {p q : Places}

theorem prepare_untouched {queued held : List Addr} (h : Carries k s.memory s.queue queued held)
    (call : PostCall) : ∀ msg ∈ queued ++ held, Untouched s (prepare s call).1 msg := by
  intro msg hmem
  obtain ⟨hne, hobject⟩ := (prepare_carries h call).2 msg hmem
  exact ⟨hobject, Function.update_of_ne hne ..⟩

theorem Untouched.twin {msg : Addr} (h : Untouched s t msg) (hs : Untouched s s' msg)
    (ht : Untouched t t' msg) : Untouched s' t' msg :=
  ⟨ht.1.trans (h.1.trans hs.1.symm), ht.2.trans (h.2.trans hs.2.symm)⟩

/-- Both states take an object for the call and fill it. -/
theorem Twin.prepare (h : Twin k exact alike ahead shared p q s t)
    (hexact : exact → alike ∨ call.PassesBytes) :
    Twin k exact alike ahead shared { p with held := (prepare s call).2 :: p.held }
        { q with held := (prepare t call).2 :: q.held } (prepare s call).1 (prepare t call).1 ∧
      SameAt exact (prepare s call).1 (prepare t call).1 (prepare s call).2 (prepare t call).2 ∧
      (prepare s call).2 ∉ shared ∧ (prepare t call).2 ∉ shared := by
  have hs := prepare_untouched h.left call
  have ht := prepare_untouched h.right call
  have hfill := fill_same s.payloads (s.acquired.2.1.objects s.acquired.1)
    (t.acquired.2.1.objects t.acquired.1) call (s.m_topics call.topicId) fun he =>
      (hexact he).imp_left fun hsame => by
        obtain ⟨haddr, hmemory, -⟩ := (h.pool hsame).acquired
        rw [haddr, hmemory]
  have hfilled : t.filled call = format.fill s.payloads (t.acquired.2.1.objects t.acquired.1)
      call.topicId (s.m_topics call.topicId).count (s.m_topics call.topicId).observers call.data
      call.size := by
    rw [State.filled, h.payloads, h.topics]
  refine ⟨⟨(prepare_carries h.left call).1, (prepare_carries h.right call).1, ?_, ?_, ?_, ?_, ?_,
    h.topics, ?_, h.trace, ?_, h.dispatched, h.room, fun hsame => ?_⟩, ⟨?_, ?_⟩, fun hmem => ?_,
    fun hmem => ?_⟩
  · intro msg hmem
    have hold := h.sharedLeft hmem
    simp only [List.mem_append, List.mem_cons] at hold ⊢
    tauto
  · exact fun msg hmem => List.mem_cons_of_mem _ (h.sharedRight hmem)
  · intro msg hmem
    have hleft := h.sharedLeft hmem
    have hright := h.sharedRight hmem
    refine (h.shared msg hmem).twin (hs msg ?_) (ht msg ?_) <;>
      simp only [List.mem_append] at hleft ⊢ <;> tauto
  · refine forall₂_imp_mem h.ring fun a ha b hb hsame => ?_
    exact hsame.untouched (hs a (by simp [ha])) (ht b (by simp [hb]))
  · refine forall₂_imp_mem h.buffer fun a ha b hb hsame => ?_
    exact hsame.untouched (hs a (by simp [ha])) (ht b (by simp [hb]))
  · change (t.filled call).1 = (s.filled call).1
    rw [hfilled]
    exact hfill.1.symm
  · change t.accepted ++ [call] = s.accepted ++ [call]
    rw [h.accepted]
  · obtain ⟨haddr, hmemory, hfree⟩ := (h.pool hsame).acquired
    refine ⟨?_, hfree⟩
    rw [prepare_memory, prepare_memory, hfilled, haddr, hmemory, State.filled]
  · have hobject : ∀ s : State, (Batch.prepare s call).1.memory.objects (Batch.prepare s call).2 =
        (s.filled call).2 := fun s => Function.update_self ..
    rw [hobject s, hobject t, hfilled]
    exact hfill.2
  · rw [prepare_carried_self, prepare_carried_self, h.accepted]
  · refine ((prepare_carries h.left call).2 _ ?_).1 rfl
    have hold := h.sharedLeft hmem
    simp only [List.mem_append] at hold ⊢
    tauto
  · refine ((prepare_carries h.right call).2 _ ?_).1 rfl
    exact List.mem_append_right _ (List.mem_append_left _ (h.sharedRight hmem))

/-- Both states push the message that they hold. -/
theorem Twin.push (p q : Places) {a b : Addr} {heldS heldT : List Addr}
    (h : Twin k exact alike ahead shared { p with held := a :: heldS }
      { q with held := b :: heldT } s t)
    (hk : k < 64) (hsame : SameAt exact s t a b) (ha : a ∉ shared) (hb : b ∉ shared)
    (hpush : Batch.push k s a = .ok s') (hroom : s'.overfull = false) :
    ∃ t', Batch.push k t b = .ok t' ∧
      Twin k exact alike ahead shared { p with ring := p.ring ++ [a], held := heldS }
        { q with ring := q.ring ++ [b], held := heldT } s' t' := by
  have hqueued : s.queued k = ahead ++ p.ring := h.left.contents_eq hk
  have hlt := (push_room hpush hroom).2
  rw [hqueued] at hlt
  have hltT : q.ring.length < 2 ^ k := by
    have hlength : p.ring.length = q.ring.length := h.ring.length_eq
    rw [List.length_append] at hlt
    omega
  obtain ⟨queue, hs, hcarries⟩ := push_of_room h.left hk hlt
  obtain ⟨queueT, ht, hcarriesT⟩ := push_of_room h.right hk hltT
  obtain rfl := Except.ok.inj (hs.symm.trans hpush)
  refine ⟨_, ht, ?_, hcarriesT, ?_, ?_, ?_, ?_, ?_, h.topics, h.payloads, h.trace, h.accepted,
    h.dispatched, h.room, fun hsame => (h.pool hsame).twin (push_samePool hs) (push_samePool ht)⟩
  · rw [← List.append_assoc]
    exact hcarries
  · intro msg hmem
    have hold := h.sharedLeft hmem
    have hne : msg ≠ a := fun heq => ha (heq ▸ hmem)
    simpa [hne] using hold
  · intro msg hmem
    have hold := h.sharedRight hmem
    have hne : msg ≠ b := fun heq => hb (heq ▸ hmem)
    simpa [hne] using hold
  · exact h.shared
  · exact forall₂_snoc h.ring hsame
  · exact h.buffer

/-- The next messages of the buffers are in hand. -/
theorem Twin.unload {a b : Addr} {restS restT : List Addr}
    (h : Twin k exact alike ahead shared { p with buffer := a :: restS }
      { q with buffer := b :: restT } s t) :
    Twin k exact alike ahead shared { p with held := a :: p.held, buffer := restS }
        { q with held := b :: q.held, buffer := restT } s t ∧
      SameAt exact s t a b ∧ a ∉ shared ∧ b ∉ shared := by
  obtain ⟨hsame, hrest⟩ := List.forall₂_cons.mp h.buffer
  refine ⟨⟨h.left.of_held_perm List.perm_middle.symm, h.right.of_held_perm List.perm_middle.symm,
    ?_, ?_, h.shared, h.ring, hrest, h.topics, h.payloads, h.trace, h.accepted, h.dispatched,
    h.room, h.pool⟩, hsame, fun hmem => ?_, fun hmem => ?_⟩
  · intro msg hmem
    have hold := h.sharedLeft hmem
    simp only [List.mem_append, List.mem_cons] at hold ⊢
    tauto
  · exact fun msg hmem => List.mem_cons_of_mem _ (h.sharedRight hmem)
  · rcases List.mem_append.mp (h.sharedLeft hmem) with hahead | hheld
    · exact h.left.not_queued (by simp) (List.mem_append_left _ hahead)
    · exact (List.nodup_append.mp h.left.held_nodup).2.2 a hheld a (List.mem_cons_self ..) rfl
  · exact (List.nodup_append.mp h.right.held_nodup).2.2 b (h.sharedRight hmem) b
      (List.mem_cons_self ..) rfl

/-- The loops of `flushBatch`. -/
theorem Twin.flushMsgs (p q : Places) (msgsS msgsT : List Addr)
    (h : Twin k exact alike ahead shared { p with buffer := msgsS } { q with buffer := msgsT } s t)
    (hk : k < 64) (hflush : Batch.flushMsgs k msgsS s = .ok s') (hroom : s'.overfull = false) :
    ∃ t', Batch.flushMsgs k msgsT t = .ok t' ∧
      Twin k exact alike ahead shared { p with ring := p.ring ++ msgsS, buffer := [] }
        { q with ring := q.ring ++ msgsT, buffer := [] } s' t' := by
  have hbuffer := h.buffer
  induction msgsS generalizing msgsT p q s t with
  | nil =>
      obtain rfl := Except.ok.inj hflush
      obtain rfl : msgsT = [] := by cases hbuffer; rfl
      refine ⟨t, rfl, ?_⟩
      rw [List.append_nil, List.append_nil]
      exact h
  | cons a restS ih =>
      obtain ⟨b, restT, hsame, -, rfl⟩ := List.forall₂_cons_left_iff.mp hbuffer
      obtain ⟨middle, hpush, hrest⟩ := ok_of_bind hflush
      obtain ⟨hunloaded, hsame, ha, hb⟩ := h.unload
      obtain ⟨middleT, hpushT, hmiddle⟩ :=
        Twin.push ⟨p.ring, p.held, restS⟩ ⟨q.ring, q.held, restT⟩ hunloaded hk hsame ha hb hpush
          ((flushMsgs_returns hk restS middle).of_ok hrest hroom).1
      obtain ⟨last, hlast, htwin⟩ := ih ⟨p.ring ++ [a], p.held, []⟩ ⟨q.ring ++ [b], q.held, []⟩
        restT hmiddle hrest hmiddle.buffer
      refine ⟨last, ?_, ?_⟩
      · rw [Batch.flushMsgs, hpushT]
        exact hlast
      · simpa only [List.append_assoc, List.singleton_append] using htwin

/-! ### Accepted calls -/

theorem push_accepted {msg : Addr} (hpush : Batch.push k s msg = .ok s') :
    s'.accepted = s.accepted := by
  rw [Batch.push] at hpush
  split at hpush
  · exact (congrArg State.accepted (Except.ok.inj hpush)).symm
  · cases hpush

theorem flushMsgs_accepted {msgs : List Addr} (hflush : Batch.flushMsgs k msgs s = .ok s') :
    s'.accepted = s.accepted := by
  induction msgs generalizing s with
  | nil => exact (congrArg State.accepted (Except.ok.inj hflush)).symm
  | cons msg rest ih =>
      obtain ⟨middle, hpush, hrest⟩ := ok_of_bind hflush
      exact (ih hrest).trans (push_accepted hpush)

theorem flushBatch_accepted (hflush : Batch.flushBatch k s = .ok s') :
    s'.accepted = s.accepted := by
  obtain ⟨last, hmsgs, rfl⟩ := ok_of_map hflush
  have hlast : last.accepted = s.accepted := flushMsgs_accepted hmsgs
  exact hlast

theorem accumulate_accepted {msg : Addr} (haccumulate : Batch.accumulate s msg = .ok s') :
    s'.accepted = s.accepted := by
  rw [Batch.accumulate] at haccumulate
  split at haccumulate
  · exact (congrArg State.accepted (Except.ok.inj haccumulate)).symm
  · cases haccumulate

/-- A call for a topic with observers is accepted. -/
theorem run_accepts {result : Bool} (htopic : ¬call.topicId ≥ BATCH_MAX_TOPICS)
    (hcount : ¬(s.m_topics call.topicId).count = 0) (hrun : call.run k s = .ok (s', result)) :
    s'.accepted = s.accepted ++ [call] := by
  rw [PostCall.run, if_neg htopic, if_neg hcount] at hrun
  obtain ⟨last, hsent, hlast⟩ := ok_of_map hrun
  obtain ⟨rfl, -⟩ := Prod.mk.inj hlast
  have hprepared : (Batch.prepare s call).1.accepted = s.accepted ++ [call] := rfl
  split at hsent
  · obtain ⟨middle, haccumulate, hrest⟩ := ok_of_bind hsent
    have hmiddle := (accumulate_accepted haccumulate).trans hprepared
    split at hrest
    · exact (flushBatch_accepted hrest).trans hmiddle
    · exact Except.ok.inj hrest ▸ hmiddle
  · exact (push_accepted hsent).trans hprepared

theorem run_grows {result : Bool} (hrun : call.run k s = .ok (s', result)) :
    s.accepted <+: s'.accepted := by
  by_cases htopic : call.topicId ≥ BATCH_MAX_TOPICS
  · rw [PostCall.run, if_pos htopic] at hrun
    obtain ⟨rfl, -⟩ := Prod.mk.inj (Except.ok.inj hrun)
    exact List.prefix_refl _
  · by_cases hcount : (s.m_topics call.topicId).count = 0
    · rw [PostCall.run, if_neg htopic, if_pos hcount] at hrun
      obtain ⟨rfl, -⟩ := Prod.mk.inj (Except.ok.inj hrun)
      exact List.prefix_refl _
    · exact ⟨[call], (run_accepts htopic hcount hrun).symm⟩

theorem posts_grows {calls : List PostCall} (hposts : Batch.posts k s calls = .ok s') :
    s.accepted <+: s'.accepted := by
  induction calls generalizing s with
  | nil =>
      obtain rfl := Except.ok.inj hposts
      exact List.prefix_refl _
  | cons call rest ih =>
      obtain ⟨⟨middle, result⟩, hrun, hrest⟩ := ok_of_bind hposts
      exact (run_grows hrun).trans (ih hrest)

theorem callObserver_grows {behaviour : Behaviour} {msg : Addr} {i : Nat}
    (hcall : Batch.callObserver k behaviour msg i s = .ok s') : s.accepted <+: s'.accepted := by
  obtain ⟨middle, hposts, rfl⟩ := ok_of_map hcall
  have hgrows := posts_grows hposts
  rw [(releasePayload_called middle msg).accepted]
  exact hgrows

theorem callObservers_grows {behaviour : Behaviour} {msg : Addr} {remaining i : Nat}
    (hcall : Batch.callObservers k behaviour msg remaining i s = .ok s') :
    s.accepted <+: s'.accepted := by
  induction remaining generalizing s i with
  | zero =>
      obtain rfl := Except.ok.inj hcall
      exact List.prefix_refl _
  | succ remaining ih =>
      obtain ⟨middle, hfirst, hrest⟩ := ok_of_bind hcall
      exact (callObserver_grows hfirst).trans (ih hrest)

theorem dispatchMsg_grows {behaviour : Behaviour} {msg : Addr}
    (hdispatch : Batch.dispatchMsg k behaviour msg s = .ok s') : s.accepted <+: s'.accepted := by
  have hgrows := callObservers_grows hdispatch
  exact hgrows

theorem dispatchOne_grows {behaviour : Behaviour} {found : Bool}
    (hone : Batch.dispatchOne k behaviour s = .ok (s', found)) : s.accepted <+: s'.accepted := by
  rw [Batch.dispatchOne, Batch.pop] at hone
  split at hone
  · next queue item hpop =>
    cases item with
    | none =>
        obtain ⟨rfl, -⟩ := Prod.mk.inj (Except.ok.inj hone)
        exact List.prefix_refl _
    | some msg =>
        obtain ⟨last, hdispatch, hlast⟩ := ok_of_map hone
        obtain ⟨rfl, -⟩ := Prod.mk.inj hlast
        have hgrows := dispatchMsg_grows hdispatch
        exact hgrows
  · cases hone

theorem dispatchTimes_grows {behaviour : Behaviour} {n count : Nat}
    (htimes : dispatchTimes k behaviour n s = .ok (s', count)) : s.accepted <+: s'.accepted := by
  induction n generalizing s count with
  | zero =>
      obtain ⟨rfl, -⟩ := Prod.mk.inj (Except.ok.inj htimes)
      exact List.prefix_refl _
  | succ n ih =>
      obtain ⟨⟨middle, found⟩, hone, hrest⟩ := ok_of_bind htimes
      obtain ⟨⟨last, count'⟩, htimes', hlast⟩ := ok_of_map hrest
      obtain ⟨rfl, -⟩ := Prod.mk.inj hlast
      exact (dispatchOne_grows hone).trans (ih htimes')

theorem State.PassBytesUntil.split {middle : State} (h : s.PassBytesUntil s')
    (hfirst : s.accepted <+: middle.accepted) (hsecond : middle.accepted <+: s'.accepted) :
    s.PassBytesUntil middle ∧ middle.PassBytesUntil s' := by
  obtain ⟨before, hbefore⟩ := hfirst
  obtain ⟨after, hafter⟩ := hsecond
  have hall : s'.accepted.drop s.accepted.length = before ++ after := by
    rw [← hafter, ← hbefore, List.append_assoc, List.drop_left]
  constructor
  · intro call hmem
    rw [← hbefore, List.drop_left] at hmem
    exact h call (hall ▸ List.mem_append_left _ hmem)
  · intro call hmem
    rw [← hafter, List.drop_left] at hmem
    exact h call (hall ▸ List.mem_append_right _ hmem)

/-! ### Calls on the way -/

/-- The buffers are the ones of the states. -/
def Between (k : Nat) (exact alike : Prop) (ahead shared heldS heldT : List Addr)
    (s t : State) : Prop :=
  ∃ ringS ringT, Twin k exact alike ahead shared ⟨ringS, heldS, s.t_batch⟩
    ⟨ringT, heldT, t.t_batch⟩ s t

variable {heldS heldT : List Addr}

theorem Between.t_batch_length (h : Between k exact alike ahead shared heldS heldT s t) :
    t.t_batch.length = s.t_batch.length := by
  obtain ⟨ringS, ringT, htwin⟩ := h
  exact htwin.buffer.length_eq.symm

theorem Between.flushBatch (h : Between k exact alike ahead shared heldS heldT s t) (hk : k < 64)
    (hflush : Batch.flushBatch k s = .ok s') (hroom : s'.overfull = false) :
    ∃ t', Batch.flushBatch k t = .ok t' ∧ Between k exact alike ahead shared heldS heldT s' t' := by
  obtain ⟨ringS, ringT, htwin⟩ := h
  obtain ⟨middle, hmsgs, rfl⟩ := ok_of_map hflush
  obtain ⟨middleT, hmsgsT, hmiddle⟩ := Twin.flushMsgs ⟨ringS, heldS, []⟩ ⟨ringT, heldT, []⟩
    s.t_batch t.t_batch htwin hk hmsgs hroom
  refine ⟨{ middleT with t_batch := [] }, ?_, ringS ++ s.t_batch, ringT ++ t.t_batch, ?_⟩
  · rw [Batch.flushBatch, hmsgsT]
    rfl
  · exact ⟨hmiddle.left, hmiddle.right, hmiddle.sharedLeft, hmiddle.sharedRight, hmiddle.shared,
      hmiddle.ring, hmiddle.buffer, hmiddle.topics, hmiddle.payloads, hmiddle.trace,
      hmiddle.accepted, hmiddle.dispatched, hmiddle.room, fun hsame =>
        ⟨(hmiddle.pool hsame).memory, (hmiddle.pool hsame).freeList⟩⟩

/-- Both states write the message that they hold into the buffer. -/
theorem Twin.accumulate {a b : Addr} {ringS ringT : List Addr}
    (h : Twin k exact alike ahead shared ⟨ringS, a :: heldS, s.t_batch⟩
      ⟨ringT, b :: heldT, t.t_batch⟩ s t)
    (hsame : SameAt exact s t a b) (ha : a ∉ shared) (hb : b ∉ shared)
    (haccumulate : Batch.accumulate s a = .ok s') :
    ∃ t', Batch.accumulate t b = .ok t' ∧ Between k exact alike ahead shared heldS heldT s' t' := by
  have hlength : s.t_batch.length = t.t_batch.length := h.buffer.length_eq
  rw [Batch.accumulate] at haccumulate ⊢
  rw [← hlength]
  split at haccumulate
  · next hfits =>
    obtain rfl := Except.ok.inj haccumulate
    rw [if_pos hfits]
    refine ⟨_, rfl, ringS, ringT, ?_⟩
    have hperm : ∀ msg : Addr, ∀ held buffer : List Addr,
        (held ++ (buffer ++ [msg])).Perm (msg :: held ++ buffer) := by
      intro msg held buffer
      rw [← List.append_assoc]
      exact List.perm_append_singleton ..
    refine ⟨h.left.of_held_perm (hperm ..), h.right.of_held_perm (hperm ..), fun msg hmem => ?_,
      fun msg hmem => ?_, h.shared, h.ring, forall₂_snoc h.buffer hsame, h.topics, h.payloads,
      h.trace, h.accepted, h.dispatched, h.room,
      fun hsame => ⟨(h.pool hsame).memory, (h.pool hsame).freeList⟩⟩
    · have hold := h.sharedLeft hmem
      have hne : msg ≠ a := fun heq => ha (heq ▸ hmem)
      simpa [hne] using hold
    · have hold := h.sharedRight hmem
      have hne : msg ≠ b := fun heq => hb (heq ▸ hmem)
      simpa [hne] using hold
  · cases haccumulate

theorem push_between {a b : Addr} {ringS ringT : List Addr}
    (h : Twin k exact alike ahead shared ⟨ringS, a :: heldS, s.t_batch⟩
      ⟨ringT, b :: heldT, t.t_batch⟩ s t)
    (hk : k < 64) (hsame : SameAt exact s t a b) (ha : a ∉ shared) (hb : b ∉ shared)
    (hpush : push k s a = .ok s') (hroom : s'.overfull = false) :
    ∃ t', push k t b = .ok t' ∧ Between k exact alike ahead shared heldS heldT s' t' := by
  obtain ⟨t', hpushT, htwin⟩ := Twin.push ⟨ringS, heldS, s.t_batch⟩ ⟨ringT, heldT, t.t_batch⟩ h hk
    hsame ha hb hpush hroom
  refine ⟨t', hpushT, ringS ++ [a], ringT ++ [b], ?_⟩
  rw [push_t_batch hpush, push_t_batch hpushT]
  exact htwin

theorem Between.run (h : Between k exact alike ahead shared heldS heldT s t) (hk : k < 64)
    {result : Bool} (hrun : call.run k s = .ok (s', result))
    (hexact : exact → alike ∨ s.PassBytesUntil s') (hroom : s'.overfull = false) :
    ∃ t', call.run k t = .ok (t', result) ∧ Between k exact alike ahead shared heldS heldT s' t' := by
  obtain ⟨ringS, ringT, htwin⟩ := h
  have haccepts := fun htopic hcount => run_accepts htopic hcount hrun
  rw [PostCall.run] at hrun ⊢
  rw [htwin.topics]
  split at hrun
  · next htopic =>
    obtain ⟨rfl, rfl⟩ := Prod.mk.inj (Except.ok.inj hrun)
    rw [if_pos htopic]
    exact ⟨t, rfl, ringS, ringT, htwin⟩
  · next htopic =>
    rw [if_neg htopic]
    split at hrun
    · next hcount =>
      obtain ⟨rfl, rfl⟩ := Prod.mk.inj (Except.ok.inj hrun)
      rw [if_pos hcount]
      exact ⟨t, rfl, ringS, ringT, htwin⟩
    · next hcount =>
      rw [if_neg hcount]
      have hnew : call ∈ s'.accepted.drop s.accepted.length := by
        rw [haccepts htopic hcount, List.drop_left]
        exact List.mem_singleton_self call
      obtain ⟨hprepared, hsame, ha, hb⟩ :=
        htwin.prepare fun he => (hexact he).imp_right fun hpass => hpass call hnew
      obtain ⟨last, hsent, hlast⟩ := ok_of_map hrun
      obtain ⟨rfl, rfl⟩ := Prod.mk.inj hlast
      split at hsent
      · next hbatched =>
        obtain ⟨middle, haccumulate, hrest⟩ := ok_of_bind hsent
        obtain ⟨middleT, haccumulateT, hmiddle⟩ := hprepared.accumulate hsame ha hb haccumulate
        have hlength := hmiddle.t_batch_length
        split at hrest
        · next hfull =>
          obtain ⟨t', hflush, hbetween⟩ := hmiddle.flushBatch hk hrest hroom
          refine ⟨t', ?_, hbetween⟩
          simp only [hbatched, if_true, haccumulateT, Except.bind, hlength, if_pos hfull, hflush,
            Except.map]
        · next hfits =>
          obtain rfl := Except.ok.inj hrest
          refine ⟨middleT, ?_, hmiddle⟩
          simp only [hbatched, if_true, haccumulateT, Except.bind, hlength, if_neg hfits, Except.map]
      · next hpost =>
        obtain ⟨t', hpush, hbetween⟩ := push_between hprepared hk hsame ha hb hsent hroom
        refine ⟨t', ?_, hbetween⟩
        simp only [if_neg hpost, hpush, Except.map]

theorem Between.posts (h : Between k exact alike ahead shared heldS heldT s t) (hk : k < 64)
    (hbounded : s.t_batch.length < BATCH_SIZE) {calls : List PostCall}
    (hposts : Batch.posts k s calls = .ok s') (hexact : exact → alike ∨ s.PassBytesUntil s')
    (hroom : s'.overfull = false) :
    ∃ t', Batch.posts k t calls = .ok t' ∧ Between k exact alike ahead shared heldS heldT s' t' := by
  induction calls generalizing s t with
  | nil =>
      obtain rfl := Except.ok.inj hposts
      exact ⟨t, rfl, h⟩
  | cons call rest ih =>
      obtain ⟨⟨middle, result⟩, hrun, hrest⟩ := ok_of_bind hposts
      have hmiddle := ((run_returns hk call hbounded [] []).of_ok hrun).bounded
      have hmiddleRoom := ((posts_returns hk rest hmiddle [] []).of_ok hrest).room hroom
      have hsplit := fun he => (hexact he).imp_right fun hpass =>
        hpass.split (run_grows hrun) (posts_grows hrest)
      obtain ⟨middleT, hrunT, hbetween⟩ :=
        h.run hk hrun (fun he => (hsplit he).imp_right And.left) hmiddleRoom
      obtain ⟨t', hrestT, hlast⟩ :=
        ih hbetween hmiddle hrest fun he => (hsplit he).imp_right And.right
      refine ⟨t', ?_, hlast⟩
      rw [Batch.posts, hrunT]
      exact hrestT

theorem Between.releasePayload {msg : Addr} (h : Between k exact alike ahead shared heldS heldT s t)
    (hmsg : msg ∈ shared) :
    Between k exact alike ahead shared heldS heldT (releasePayload s msg) (releasePayload t msg) := by
  obtain ⟨ringS, ringT, htwin⟩ := h
  rw [Batch.releasePayload, Batch.releasePayload, (htwin.shared msg hmsg).1]
  split
  · exact ⟨ringS, ringT, htwin.left, htwin.right, htwin.sharedLeft, htwin.sharedRight, htwin.shared,
      htwin.ring, htwin.buffer, htwin.topics, by rw [htwin.payloads], htwin.trace, htwin.accepted,
      htwin.dispatched, htwin.room, fun hsame =>
        ⟨(htwin.pool hsame).memory, (htwin.pool hsame).freeList⟩⟩
  · exact ⟨ringS, ringT, htwin⟩

variable {behaviour : Behaviour} {msg : Addr}

theorem Between.callObserver (h : Between k exact alike ahead shared heldS heldT s t) (hk : k < 64)
    (hbounded : s.t_batch.length < BATCH_SIZE) (hmsg : msg ∈ shared) {i : Nat}
    (hcall : Batch.callObserver k behaviour msg i s = .ok s')
    (hexact : exact → alike ∨ s.PassBytesUntil s') (hroom : s'.overfull = false) :
    ∃ t', Batch.callObserver k behaviour msg i t = .ok t' ∧
      Between k exact alike ahead shared heldS heldT s' t' := by
  obtain ⟨ringS, ringT, htwin⟩ := h
  have hevent : t.event msg i = s.event msg i := by
    rw [State.event, State.event, (htwin.shared msg hmsg).1, htwin.payloads]
  have htrace : t.trace ++ [t.event msg i] = s.trace ++ [s.event msg i] := by
    rw [htwin.trace, hevent]
  have hcalled : Between k exact alike ahead shared heldS heldT
      { s with trace := s.trace ++ [s.event msg i] }
      { t with trace := t.trace ++ [t.event msg i] } :=
    ⟨ringS, ringT, htwin.left, htwin.right, htwin.sharedLeft, htwin.sharedRight, htwin.shared,
      htwin.ring, htwin.buffer, htwin.topics, htwin.payloads, htrace, htwin.accepted,
      htwin.dispatched, htwin.room, fun hsame =>
        ⟨(htwin.pool hsame).memory, (htwin.pool hsame).freeList⟩⟩
  obtain ⟨middle, hposts, rfl⟩ := ok_of_map hcall
  have hmiddleRoom : middle.overfull = false := by
    rw [← (releasePayload_called middle msg).overfull]
    exact hroom
  have hexact' : exact → alike ∨ s.PassBytesUntil middle := by
    rw [State.PassBytesUntil, (releasePayload_called middle msg).accepted] at hexact
    exact hexact
  obtain ⟨middleT, hpostsT, hmiddle⟩ := hcalled.posts hk hbounded hposts hexact' hmiddleRoom
  refine ⟨Batch.releasePayload middleT msg, ?_, hmiddle.releasePayload hmsg⟩
  rw [Batch.callObserver]
  simp only [htrace] at hpostsT ⊢
  rw [hpostsT]
  rfl

theorem Between.callObservers (h : Between k exact alike ahead shared heldS heldT s t) (hk : k < 64)
    (hbounded : s.t_batch.length < BATCH_SIZE) (hmsg : msg ∈ shared) {remaining i : Nat}
    (hcall : Batch.callObservers k behaviour msg remaining i s = .ok s')
    (hexact : exact → alike ∨ s.PassBytesUntil s') (hroom : s'.overfull = false) :
    ∃ t', Batch.callObservers k behaviour msg remaining i t = .ok t' ∧
      Between k exact alike ahead shared heldS heldT s' t' := by
  induction remaining generalizing s t i with
  | zero =>
      obtain rfl := Except.ok.inj hcall
      exact ⟨t, rfl, h⟩
  | succ remaining ih =>
      obtain ⟨middle, hfirst, hrest⟩ := ok_of_bind hcall
      have hmiddle := ((callObserver_returns hk behaviour msg i hbounded [] []).of_ok hfirst).bounded
      have hmiddleRoom :=
        ((callObservers_returns hk behaviour msg remaining (i + 1) hmiddle [] []).of_ok
          hrest).room hroom
      have hsplit := fun he => (hexact he).imp_right fun hpass =>
        hpass.split (callObserver_grows hfirst) (callObservers_grows hrest)
      obtain ⟨middleT, hfirstT, hbetween⟩ := h.callObserver hk hbounded hmsg hfirst
        (fun he => (hsplit he).imp_right And.left) hmiddleRoom
      obtain ⟨t', hrestT, hlast⟩ :=
        ih hbetween hmiddle hrest fun he => (hsplit he).imp_right And.right
      refine ⟨t', ?_, hlast⟩
      rw [Batch.callObservers, hfirstT]
      exact hrestT

theorem Between.dispatchMsg (h : Between k exact alike ahead shared heldS heldT s t) (hk : k < 64)
    (hbounded : s.t_batch.length < BATCH_SIZE) (hmsg : msg ∈ shared)
    (hcall : Batch.dispatchMsg k behaviour msg s = .ok s')
    (hexact : exact → alike ∨ s.PassBytesUntil s') (hroom : s'.overfull = false) :
    ∃ t', Batch.dispatchMsg k behaviour msg t = .ok t' ∧
      Between k exact alike ahead shared heldS heldT s' t' := by
  obtain ⟨ringS, ringT, htwin⟩ := h
  obtain ⟨hobject, hcarried⟩ := htwin.shared msg hmsg
  have hdispatched : Between k exact alike ahead shared heldS heldT
      { s with dispatched := s.dispatched ++ [s.carried msg] }
      { t with dispatched := t.dispatched ++ [t.carried msg] } :=
    ⟨ringS, ringT, htwin.left, htwin.right, htwin.sharedLeft, htwin.sharedRight, htwin.shared,
      htwin.ring, htwin.buffer, htwin.topics, htwin.payloads, htwin.trace, htwin.accepted,
      by rw [htwin.dispatched, hcarried], htwin.room, fun hsame =>
        ⟨(htwin.pool hsame).memory, (htwin.pool hsame).freeList⟩⟩
  rw [Batch.dispatchMsg, hobject]
  exact hdispatched.callObservers hk hbounded hmsg hcall hexact hroom

/-! ### The loops -/

/-- The first loop of `dispatchBatch` takes the first messages of the ring. -/
theorem takeMsgs_of_carries {queued held : List Addr} (h : Carries k s.memory s.queue queued held)
    (hk : k < 64) (n : Nat) :
    ∃ queue, takeMsgs k n s = .ok ({ s with queue := queue }, queued.take n) ∧
      Carries k s.memory queue (queued.drop n) (queued.take n ++ held) ∧
      queue.m_freeList = s.queue.m_freeList := by
  induction n generalizing s queued held with
  | zero => exact ⟨s.queue, rfl, h, rfl⟩
  | succ n ih =>
      cases queued with
      | nil =>
          refine ⟨s.queue, ?_, h, rfl⟩
          rw [takeMsgs, pop, h.pop_nil hk]
          rfl
      | cons first rest =>
          obtain ⟨after, hpop, hafter⟩ := h.pop_cons hk
          obtain ⟨queue, htake, hcarries, hfree⟩ := ih (s := { s with queue := after }) hafter
          refine ⟨queue, ?_, ?_, hfree.trans (PooledQueue.pop_pool hpop).1⟩
          · rw [takeMsgs, pop, hpop]
            simp only [Except.bind, htake, Except.map, List.take_succ_cons]
          · rw [List.drop_succ_cons, List.take_succ_cons]
            exact hcarries.of_held_perm List.perm_middle.symm

/-- The third loop of `dispatchBatch` gives all objects back. -/
theorem releaseMsgs_of_carries {queued held msgs : List Addr}
    (h : Carries k s.memory s.queue queued (msgs ++ held)) :
    ∃ queue, releaseMsgs msgs s = { s with queue := queue } ∧
      Carries k s.memory queue queued held ∧
      ∀ msg, msg ∈ msgs ∨ msg ∈ s.queue.m_freeList ++ s.queue.deleted →
        msg ∈ queue.m_freeList ++ queue.deleted := by
  induction msgs generalizing s with
  | nil => exact ⟨s.queue, rfl, h, fun msg hmem => hmem.resolve_left List.not_mem_nil⟩
  | cons first rest ih =>
      obtain ⟨queue, hrelease, hcarries, hreleased⟩ :=
        ih (s := release first s) (h.release 16384)
      refine ⟨queue, hrelease, hcarries, fun msg hmem => hreleased msg ?_⟩
      rcases hmem with hmem | hold
      · rcases List.mem_cons.mp hmem with rfl | hrest
        · exact .inr (mem_release_pool 16384 (.inl rfl))
        · exact .inl hrest
      · exact .inr (mem_release_pool 16384 (.inr hold))

/-- A message is dispatched on both ways; the single dispatch gives its object back. -/
theorem Between.dispatchOne {rest : List Addr}
    (h : Between k exact alike (msg :: rest) (msg :: rest) [] heldT s t) (hk : k < 64)
    (hbounded : s.t_batch.length < BATCH_SIZE) {found : Bool}
    (hone : Batch.dispatchOne k behaviour s = .ok (s', found))
    (hexact : exact → alike ∨ s.PassBytesUntil s') (hroom : s'.overfull = false) :
    found = true ∧ ∃ t', Batch.dispatchMsg k behaviour msg t = .ok t' ∧
      Between k exact False rest rest [] heldT s' t' := by
  obtain ⟨ringS, ringT, htwin⟩ := h
  obtain ⟨after, hpop, hafter⟩ := htwin.left.pop_cons hk
  have htaken : Between k exact alike rest (msg :: rest) [msg] heldT { s with queue := after } t := by
    refine ⟨ringS, ringT, hafter, htwin.right, ?_, htwin.sharedRight, htwin.shared, htwin.ring,
      htwin.buffer, htwin.topics, htwin.payloads, htwin.trace, htwin.accepted, htwin.dispatched,
      htwin.room, fun hsame => ⟨(htwin.pool hsame).memory,
        (htwin.pool hsame).freeList.trans (PooledQueue.pop_pool hpop).1.symm⟩⟩
    intro other hmem
    simp only [List.mem_cons, List.mem_append, List.not_mem_nil, or_false] at hmem ⊢
    exact hmem.symm
  rw [Batch.dispatchOne, pop, hpop] at hone
  obtain ⟨last, hdispatch, hlast⟩ := ok_of_map hone
  obtain ⟨rfl, rfl⟩ := Prod.mk.inj hlast
  obtain ⟨t', hdispatchT, ringS', ringT', htwin'⟩ :=
    htaken.dispatchMsg hk hbounded (List.mem_cons_self ..) hdispatch hexact hroom
  refine ⟨rfl, t', hdispatchT, ringS', ringT', ?_⟩
  refine ⟨htwin'.left.release 16384, htwin'.right, List.subset_append_left .., ?_, ?_, htwin'.ring,
    htwin'.buffer, htwin'.topics, htwin'.payloads, htwin'.trace, htwin'.accepted,
    htwin'.dispatched, htwin'.room, False.elim⟩
  · exact fun other hmem => htwin'.sharedRight (List.mem_cons_of_mem _ hmem)
  · exact fun other hmem => htwin'.shared other (List.mem_cons_of_mem _ hmem)

theorem dispatchTimes_returns (hk : k < 64) (behaviour : Behaviour) (n : Nat)
    (hbounded : s.t_batch.length < BATCH_SIZE) :
    Returns (fun result => After k [] [] [] [] s result.1) (dispatchTimes k behaviour n s) := by
  induction n generalizing s with
  | zero => exact .refl hbounded [] []
  | succ n ih =>
      refine (dispatchOne_returns hk behaviour hbounded).bind fun result hfirst => ?_
      exact (ih hfirst.bounded).map fun last hrest => hfirst.trans hrest

/-- From the second message on, the calls that take a message object pass their bytes.  The
first message is dispatched before any object goes back to the pool. -/
def LaterPostsPassBytes (k : Nat) (behaviour : Behaviour) (s s' : State) : Prop :=
  ∀ first found, Batch.dispatchOne k behaviour s = .ok (first, found) → first.PassBytesUntil s'

theorem Between.forget (h : Between k exact alike ahead shared heldS heldT s t) :
    Between k exact False ahead shared heldS heldT s t := by
  obtain ⟨ringS, ringT, htwin⟩ := h
  exact ⟨ringS, ringT, { htwin with pool := False.elim }⟩

/-- The messages are dispatched one by one, or all of them before the objects go back. -/
theorem Between.dispatchMsgs (h : Between k exact alike ahead ahead [] heldT s t) (hk : k < 64)
    (hbounded : s.t_batch.length < BATCH_SIZE) {count : Nat}
    (htimes : dispatchTimes k behaviour ahead.length s = .ok (s', count))
    (hexact : exact → s.PassBytesUntil s' ∨ alike ∧ LaterPostsPassBytes k behaviour s s')
    (hroom : s'.overfull = false) :
    count = ahead.length ∧ ∃ t', Batch.dispatchMsgs k behaviour ahead t = .ok t' ∧
      Between k exact False [] [] [] heldT s' t' := by
  induction ahead generalizing s t count alike with
  | nil =>
      obtain ⟨rfl, rfl⟩ := Prod.mk.inj (Except.ok.inj htimes)
      exact ⟨rfl, t, rfl, h.forget⟩
  | cons msg rest ih =>
      obtain ⟨⟨middle, found⟩, hone, hrest⟩ := ok_of_bind htimes
      obtain ⟨⟨last, count'⟩, htimes', hlast⟩ := ok_of_map hrest
      obtain ⟨rfl, rfl⟩ := Prod.mk.inj hlast
      have hmiddle := ((dispatchOne_returns hk behaviour hbounded).of_ok hone).bounded
      have hmiddleRoom :=
        ((dispatchTimes_returns hk behaviour rest.length hmiddle).of_ok htimes').room hroom
      have hsplit : exact → (alike ∨ s.PassBytesUntil middle) ∧ middle.PassBytesUntil last := by
        intro he
        rcases hexact he with hpass | ⟨hsame, hlater⟩
        · have hsplit := hpass.split (dispatchOne_grows hone) (dispatchTimes_grows htimes')
          exact ⟨.inr hsplit.1, hsplit.2⟩
        · exact ⟨.inl hsame, hlater middle found hone⟩
      obtain ⟨rfl, middleT, hdispatch, hbetween⟩ :=
        h.dispatchOne hk hbounded hone (fun he => (hsplit he).1) hmiddleRoom
      obtain ⟨rfl, t', hdispatches, hlast⟩ :=
        ih hbetween hmiddle htimes' fun he => .inl (hsplit he).2
      refine ⟨Nat.add_comm .., t', ?_, hlast⟩
      rw [Batch.dispatchMsgs, hdispatch]
      exact hdispatches

/-! ### The theorem -/

/-- The callbacks that a dispatch of the message makes. -/
def State.callbacks (s : State) (msg : Addr) : List CallEvent :=
  (List.range (format.observerCount (s.memory.objects msg))).map (s.event msg)

/-- With the same bytes the same callbacks are made. -/
theorem SameAt.callbacks {a b : Addr} (h : SameAt exact s t a b) (hexact : exact)
    (hpayloads : t.payloads = s.payloads) : t.callbacks b = s.callbacks a := by
  obtain ⟨hmessage, -⟩ := h
  have hcount : format.observerCount (t.memory.objects b) =
      format.observerCount (s.memory.objects a) := hmessage.observerCount.symm
  rw [State.callbacks, State.callbacks, hcount]
  apply List.map_congr_left
  intro i hi
  have hobserver := hmessage.observers i (List.mem_range.mp hi)
  have hdata : format.data t.payloads (t.memory.objects b) =
      format.data s.payloads (s.memory.objects a) := by
    have hmanaged := hmessage.managed
    have hinline := hmessage.isInline
    simp only [format, snapshotFormat, hpayloads, ← hinline] at hmanaged ⊢
    split
    · next hisInline =>
      rw [← hmessage.payloadSize]
      congr 1
      apply List.map_congr_left
      intro i hi
      exact (hmessage.bytes hexact hisInline i (List.mem_range.mp hi)).symm
    · next hisManaged =>
      rw [if_neg hisManaged, if_neg hisManaged] at hmanaged
      rw [hmanaged]
  rw [State.event, State.event, hdata]
  simp only [format, snapshotFormat, CallEvent.mk.injEq]
  exact ⟨hobserver.symm, hmessage.topicId.symm, trivial, hmessage.payloadSize.symm⟩

/-- `t` is `s` but for the objects that its messages are in. -/
structure Agrees (k : Nat) (s t : State) : Prop where
  trace : t.trace = s.trace
  payloads : t.payloads = s.payloads
  accepted : t.accepted = s.accepted
  dispatched : t.dispatched = s.dispatched
  /-- the messages in the ring are those of the same calls, in the same order -/
  queued : (t.queued k).map t.carried = (s.queued k).map s.carried
  buffered : t.t_batch.map t.carried = s.t_batch.map s.carried

/-- The messages in the ring and in the buffer also have the same contents. -/
structure SameContents (k : Nat) (s t : State) : Prop where
  queued : (t.queued k).map t.callbacks = (s.queued k).map s.callbacks
  buffered : t.t_batch.map t.callbacks = s.t_batch.map s.callbacks

theorem map_eq_of_forall₂ {α : Type} {f g : Addr → α} {as bs : List Addr}
    (h : List.Forall₂ (SameAt exact s t) as bs) (hfg : ∀ a b, SameAt exact s t a b → g b = f a) :
    bs.map g = as.map f := by
  induction h with
  | nil => rfl
  | cons hhead _ ih => rw [List.map_cons, List.map_cons, hfg _ _ hhead, ih]

theorem Twin.agrees (h : Twin k exact alike [] [] p q s t) (hk : k < 64) (hp : p.buffer = s.t_batch)
    (hq : q.buffer = t.t_batch) : Agrees k s t ∧ (exact → SameContents k s t) := by
  have hs : s.queued k = p.ring := h.left.contents_eq hk
  have ht : t.queued k = q.ring := h.right.contents_eq hk
  refine ⟨⟨h.trace, h.payloads, h.accepted, h.dispatched, ?_, ?_⟩, fun hexact => ⟨?_, ?_⟩⟩
  · rw [hs, ht]
    exact map_eq_of_forall₂ h.ring fun a b hsame => hsame.2.symm
  · rw [← hp, ← hq]
    exact map_eq_of_forall₂ h.buffer fun a b hsame => hsame.2.symm
  · rw [hs, ht]
    exact map_eq_of_forall₂ h.ring fun a b hsame => hsame.callbacks hexact h.payloads
  · rw [← hp, ← hq]
    exact map_eq_of_forall₂ h.buffer fun a b hsame => hsame.callbacks hexact h.payloads

/-- An object is free or deleted, once. -/
def BackInPool (s : State) (msg : Addr) : Prop :=
  (s.queue.m_freeList ++ s.queue.deleted).count msg = 1

theorem dispatchBatch_of_times (hk : k < 64) (hinv : Inv k s [] [] s.t_batch)
    (hbounded : s.t_batch.length < BATCH_SIZE) (n : Nat) {count : Nat}
    (htimes : dispatchTimes k behaviour (min (min n BATCH_SIZE) (s.queued k).length) s =
      .ok (s', count)) (hroom : s'.overfull = false) :
    ∃ t, dispatchBatch k behaviour n s = .ok (t, count) ∧ Agrees k s' t ∧
      (LaterPostsPassBytes k behaviour s s' → SameContents k s' t) ∧
      ∀ msg ∈ (s.queued k).take (min n BATCH_SIZE), BackInPool t msg := by
  have hcarries : Carries k s.memory s.queue (s.queued k) s.t_batch := hinv.carries
  obtain ⟨queue, htake, htaken, hfree⟩ := takeMsgs_of_carries hcarries hk (min n BATCH_SIZE)
  have hlength : ((s.queued k).take (min n BATCH_SIZE)).length =
      min (min n BATCH_SIZE) (s.queued k).length := List.length_take
  rw [← hlength] at htimes
  have hsplit := List.take_append_drop (min n BATCH_SIZE) (s.queued k)
  have hroomStart := ((dispatchTimes_returns hk behaviour _ hbounded).of_ok htimes).room hroom
  have hstart : Between k (LaterPostsPassBytes k behaviour s s') True
      ((s.queued k).take (min n BATCH_SIZE)) ((s.queued k).take (min n BATCH_SIZE)) []
      ((s.queued k).take (min n BATCH_SIZE)) s { s with queue := queue } := by
    refine ⟨(s.queued k).drop (min n BATCH_SIZE), (s.queued k).drop (min n BATCH_SIZE), ?_, htaken,
      List.subset_append_left .., List.Subset.refl _, fun _ _ => ⟨rfl, rfl⟩, ?_, ?_, rfl, rfl, rfl,
      rfl, rfl, ⟨hroomStart, hroomStart⟩, fun _ => ⟨rfl, hfree⟩⟩
    · rw [hsplit]
      exact hcarries
    · exact List.forall₂_same.mpr fun _ _ => ⟨.refl _, rfl⟩
    · exact List.forall₂_same.mpr fun _ _ => ⟨.refl _, rfl⟩
  obtain ⟨rfl, t, hdispatch, ringS, ringT, htwin⟩ := hstart.dispatchMsgs hk hbounded htimes
    (fun hlater => .inr ⟨trivial, hlater⟩) hroom
  obtain ⟨queueT, hrelease, hreleased, hback⟩ := releaseMsgs_of_carries htwin.right
  refine ⟨releaseMsgs ((s.queued k).take (min n BATCH_SIZE)) t, ?_, ?_⟩
  · rw [dispatchBatch, htake]
    simp only [Except.bind, hdispatch, Except.map]
  · rw [hrelease]
    have hagrees := Twin.agrees (p := ⟨ringS, [], s'.t_batch⟩) (q := ⟨ringT, [], t.t_batch⟩)
      (t := { t with queue := queueT }) ⟨htwin.left, hreleased, htwin.sharedLeft,
        List.nil_subset _, htwin.shared, htwin.ring, htwin.buffer, htwin.topics, htwin.payloads,
        htwin.trace, htwin.accepted, htwin.dispatched, htwin.room, False.elim⟩ hk rfl rfl
    refine ⟨hagrees.1, hagrees.2, fun msg hmem => ?_⟩
    have honce := hreleased.once
    rw [List.append_assoc, List.append_assoc] at honce
    have hpool := (List.nodup_append.mp (List.nodup_append.mp honce).2.1).2.1
    exact List.count_eq_one_of_mem hpool (hback msg (.inl hmem))

/-- **Batch dispatch agrees with single dispatch.**  In every state that calls lead to, one
`dispatchBatch` makes the callbacks of successive `dispatchOne`s, as long as these find room for
what the callbacks post, and leaves the same messages; their contents are the same if, from
the second message on, all posts that are accepted pass the bytes that they announce. -/
theorem dispatchBatch_agrees (hk : k < 64) (earlier : Behaviour) (calls : List Call)
    (hrun : run k earlier init calls = .ok s) (behaviour : Behaviour) (n : Nat) {count : Nat}
    (htimes : dispatchTimes k behaviour (min (min n BATCH_SIZE) (s.queued k).length) s =
      .ok (s', count)) (hroom : s'.overfull = false) :
    ∃ t, dispatchBatch k behaviour n s = .ok (t, count) ∧ Agrees k s' t ∧
      (LaterPostsPassBytes k behaviour s s' → SameContents k s' t) ∧
      ∀ msg ∈ (s.queued k).take (min n BATCH_SIZE), BackInPool t msg := by
  have hreturns := (calls_return hk earlier calls (s := init) (Nat.zero_lt_succ 31)).of_ok hrun
  have hstart := ((dispatchTimes_returns hk behaviour _ hreturns.bounded).of_ok htimes).room hroom
  exact dispatchBatch_of_times hk (hreturns.inv hstart (inv_init hk)) hreturns.bounded n htimes hroom

/-- Two messages for topic 0; topic 1 has an observer, too. -/
def twoPosts : List Call :=
  [.addObserver 0 ⟨7, 0⟩, .addObserver 1 ⟨8, 0⟩, .post 0 (some [5]) 1, .post 0 (some [6]) 1]

/-- The first callback announces a byte for topic 1 and passes null; the second posts
`second`. -/
def replies (second : List PostCall) : Behaviour := fun events =>
  match events.length with
  | 1 => [⟨false, 1, none, 1⟩]
  | 2 => second
  | _ => []

/-- The states before the dispatches, after one message, and after both on either way. -/
structure BothWays where
  start : State
  first : State
  single : State
  batch : State

/-- Both messages are dispatched, one by one and at once. -/
def bothWays (second : List PostCall) : Except Stop (BothWays × Nat × Nat) :=
  (run 4 (replies second) init twoPosts).bind fun s =>
    (dispatchOne 4 (replies second) s).bind fun first =>
      (dispatchTimes 4 (replies second) 2 s).bind fun single =>
        (dispatchBatch 4 (replies second) 2 s).map fun batch =>
          (⟨s, first.1, single.1, batch.1⟩, single.2, batch.2)

/-- The calls return, and the states pass a test. -/
theorem exists_bothWays (second : List PostCall) (test : BothWays → Bool)
    (h : (bothWays second).toOption.any (fun (ways, single, batch) =>
      decide ((ways.start.queued 4).length = 2 ∧ ways.single.overfull = false ∧
        batch = single) && test ways) = true) :
    ∃ (ways : BothWays) (count : Nat) (found : Bool),
      run 4 (replies second) init twoPosts = .ok ways.start ∧
      dispatchOne 4 (replies second) ways.start = .ok (ways.first, found) ∧
      dispatchTimes 4 (replies second) (min (min 2 BATCH_SIZE) (ways.start.queued 4).length)
        ways.start = .ok (ways.single, count) ∧ ways.single.overfull = false ∧
      dispatchBatch 4 (replies second) 2 ways.start = .ok (ways.batch, count) ∧
      test ways = true := by
  cases hways : bothWays second with
  | error stop => simp [hways, Except.toOption] at h
  | ok result =>
      obtain ⟨s, hrun, hrest⟩ := ok_of_bind hways
      obtain ⟨⟨first, found⟩, hone, hrest⟩ := ok_of_bind hrest
      obtain ⟨⟨single, count⟩, htimes, hrest⟩ := ok_of_bind hrest
      obtain ⟨⟨batch, count'⟩, hbatch, rfl⟩ := ok_of_map hrest
      simp only [hways, Except.toOption, Option.any_some, Bool.and_eq_true,
        decide_eq_true_eq] at h
      obtain ⟨⟨hlength, hroom, rfl⟩, htest⟩ := h
      refine ⟨⟨s, first, single, batch⟩, count', found, hrun, hone, ?_, hroom, hbatch, htest⟩
      rw [hlength]
      exact htimes

/-- The second reply reads the byte of the first message on one way and zero on the other. -/
theorem null_replies_differ :
    ¬ ∀ (earlier : Behaviour) (calls : List Call) (behaviour : Behaviour) (n count : Nat)
      (s s' t : State), run 4 earlier init calls = .ok s →
      dispatchTimes 4 behaviour (min (min n BATCH_SIZE) (s.queued 4).length) s = .ok (s', count) →
      s'.overfull = false → dispatchBatch 4 behaviour n s = .ok (t, count) →
      SameContents 4 s' t := by
  intro hclaim
  obtain ⟨ways, count, found, hrun, -, htimes, hroom, hbatch, htest⟩ :=
    exists_bothWays [⟨false, 1, none, 1⟩] (fun ways => decide
      ((ways.batch.queued 4).map ways.batch.callbacks ≠
        (ways.single.queued 4).map ways.single.callbacks)) (by decide +kernel)
  exact of_decide_eq_true htest (hclaim _ _ _ 2 _ _ _ _ hrun htimes hroom hbatch).queued

instance (call : PostCall) : Decidable call.PassesBytes :=
  inferInstanceAs (Decidable (call.size ≤ 48 → call.data.isSome ∨ call.size = 0))

instance (s s' : State) : Decidable (s.PassBytesUntil s') :=
  inferInstanceAs (Decidable (∀ call ∈ s'.accepted.drop s.accepted.length, call.PassesBytes))

/-- The second callback passes null for a topic without observers, and a byte for topic 1. -/
theorem dispatchBatch_agrees_replies : ∃ s' t : State, (t.queued 4).length = 2 ∧ Agrees 4 s' t ∧
    SameContents 4 s' t := by
  obtain ⟨ways, count, found, hrun, hone, htimes, hroom, hbatch, htest⟩ :=
    exists_bothWays [⟨false, 2, none, 1⟩, ⟨false, 1, some [9], 1⟩] (fun ways => decide
      ((ways.batch.queued 4).length = 2 ∧ ways.first.PassBytesUntil ways.single))
      (by decide +kernel)
  obtain ⟨hlength, hpass⟩ := of_decide_eq_true htest
  obtain ⟨t, hsame, hagrees, hcontents, -⟩ :=
    dispatchBatch_agrees (by decide) _ _ hrun _ 2 htimes hroom
  obtain ⟨rfl, -⟩ := Prod.mk.inj (Except.ok.inj (hbatch.symm.trans hsame))
  refine ⟨ways.single, ways.batch, hlength, hagrees, hcontents fun first found' hfirst => ?_⟩
  obtain ⟨rfl, -⟩ := Prod.mk.inj (Except.ok.inj (hone.symm.trans hfirst))
  exact hpass

end MessageCenter.SnapshotQueue.Batch
