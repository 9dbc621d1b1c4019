import MessageCenter.EventQueueBroadcast.History

/-!
# The lifetime of managed payloads

A queued message holds one reference for each observer that `post` counted.  The
loop of `dispatchOne` releases one for each observer of the list that it loads
itself, so the lifetime law holds in a run exactly when at each dispatch of a
managed message the two numbers are the same.
-/

namespace MessageCenter.EventQueueBroadcast

open ObjectPoolLockFree PooledQueue

variable {k : Nat} {s next : State} {queued held : List Addr} {busy : List PayloadId}
  {id : PayloadId} {msg : Addr}

/-! ### The invariant -/

/-- A message that can be dispatched: inline, or with one reference for each
observer that `post` has counted. -/
def Ready (s : State) (busy : List PayloadId) (msg : Addr) : Prop :=
  (s.memory.objects msg).isInline = true ∨ ∃ id payload,
    (s.memory.objects msg).managedPayload = some id ∧ s.payloads.live id = some payload ∧
    payload.m_refCount = (s.memory.objects msg).observerCount ∧
    1 ≤ (s.memory.objects msg).observerCount ∧
    (s.m_observers (s.memory.objects msg).topicId).isSome ∧
    history s.trace id = [.created] ∧ id < s.payloads.nextPayload ∧ id ∉ busy

/-- Between two steps of a call: `held` are the messages that the call works on
and `busy` the payload that it dispatches. -/
structure Inv (k : Nat) (s : State) (queued held : List Addr) (busy : List PayloadId) :
    Prop where
  carries : Carries k s.memory s.queue queued held
  ready : ∀ msg ∈ queued, Ready s busy msg
  apart : ∀ first ∈ queued, ∀ second ∈ queued, ∀ id,
    (s.memory.objects first).managedPayload = some id →
    (s.memory.objects second).managedPayload = some id → first = second
  busyOld : ∀ id ∈ busy, id < s.payloads.nextPayload
  fresh : ∀ id, s.payloads.nextPayload ≤ id → history s.trace id = []

/-- What a step leaves alone: the payloads that existed before, except `touched`,
and the objects in `held`. -/
structure Quiet (s next : State) (held : List Addr) (touched : List PayloadId) : Prop where
  grows : s.payloads.nextPayload ≤ next.payloads.nextPayload
  live : ∀ id, id < s.payloads.nextPayload → id ∉ touched →
    next.payloads.live id = s.payloads.live id
  kept : ∀ id, id < s.payloads.nextPayload → id ∉ touched →
    history next.trace id = history s.trace id
  young : ∀ id, s.payloads.nextPayload ≤ id →
    history next.trace id = [] ∨ history next.trace id = [.created]
  objects : ∀ msg ∈ held, next.memory.objects msg = s.memory.objects msg

/-- A step that touches neither payloads nor trace. -/
theorem Quiet.same (hinv : Inv k s queued held busy) (hpayloads : next.payloads = s.payloads)
    (htrace : next.trace = s.trace)
    (hobjects : ∀ msg ∈ held, next.memory.objects msg = s.memory.objects msg) :
    Quiet s next held [] := by
  refine ⟨?_, ?_, ?_, ?_, hobjects⟩
  · rw [hpayloads]
  · intro id _ _
    rw [hpayloads]
  · intro id _ _
    rw [htrace]
  · intro id hid
    rw [htrace]
    exact Or.inl (hinv.fresh id hid)

theorem Quiet.trans {last : State} {touched : List PayloadId}
    (hfirst : Quiet s next held touched) (hsecond : Quiet next last held touched)
    (hold : ∀ id ∈ touched, id < s.payloads.nextPayload) : Quiet s last held touched where
  grows := Nat.le_trans hfirst.grows hsecond.grows
  live := by
    intro id hid hnot
    rw [hsecond.live id (Nat.lt_of_lt_of_le hid hfirst.grows) hnot, hfirst.live id hid hnot]
  kept := by
    intro id hid hnot
    rw [hsecond.kept id (Nat.lt_of_lt_of_le hid hfirst.grows) hnot, hfirst.kept id hid hnot]
  young := by
    intro id hid
    rcases Nat.lt_or_ge id next.payloads.nextPayload with hlt | hge
    · have hnot : id ∉ touched := fun hmem => Nat.lt_irrefl _ (Nat.lt_of_lt_of_le (hold id hmem) hid)
      rw [hsecond.kept id hlt hnot]
      exact hfirst.young id hid
    · exact hsecond.young id hge
  objects := by
    intro msg hmem
    rw [hsecond.objects msg hmem, hfirst.objects msg hmem]

theorem Quiet.weaken (hquiet : Quiet s next held []) (touched : List PayloadId) :
    Quiet s next held touched :=
  ⟨hquiet.grows, fun id hid _ => hquiet.live id hid (by simp),
    fun id hid _ => hquiet.kept id hid (by simp), hquiet.young, hquiet.objects⟩

/-- A message stays ready as long as its object, its payload and the history of
the payload stay. -/
theorem Ready.congr (hready : Ready s busy msg)
    (hobject : next.memory.objects msg = s.memory.objects msg)
    (hobservers : ∀ topicId, (s.m_observers topicId).isSome → (next.m_observers topicId).isSome)
    (hgrows : s.payloads.nextPayload ≤ next.payloads.nextPayload)
    (hpayload : ∀ id, id < s.payloads.nextPayload → id ∉ busy →
      next.payloads.live id = s.payloads.live id ∧ history next.trace id = history s.trace id) :
    Ready next busy msg := by
  rw [Ready, hobject]
  rcases hready with hinline | ⟨id, payload, hmanaged, hlive, hcount, hpos, hobs, hhist, hold, hnot⟩
  · exact Or.inl hinline
  · obtain ⟨hlive', hhist'⟩ := hpayload id hold hnot
    exact Or.inr ⟨id, payload, hmanaged, hlive'.trans hlive, hcount, hpos, hobservers _ hobs,
      hhist'.trans hhist, Nat.lt_of_lt_of_le hold hgrows, hnot⟩

/-! ### Requests: `addObserver` and `post` -/

theorem Inv.addObserver (hinv : Inv k s queued held busy) (topicId callback : Nat) :
    Inv k (addObserver s topicId callback) queued held busy ∧
      Quiet s (addObserver s topicId callback) held [] := by
  rw [EventQueueBroadcast.addObserver]
  split
  · exact ⟨hinv, Quiet.same hinv rfl rfl (fun _ _ => rfl)⟩
  · refine ⟨⟨hinv.carries, fun msg hmem => (hinv.ready msg hmem).congr rfl ?_ (Nat.le_refl _)
      (fun _ _ _ => ⟨rfl, rfl⟩), hinv.apart, hinv.busyOld, hinv.fresh⟩,
      Quiet.same hinv rfl rfl (fun _ _ => rfl)⟩
    intro other hsome
    by_cases heq : other = topicId
    · simp [heq]
    · simpa [heq] using hsome

/-- A filled message is sent. -/
theorem Inv.send (hinv : Inv k s queued (msg :: held) busy) (hone : 1 ≤ k) (hk : k < 64)
    (hready : Ready s busy msg)
    (hapart : ∀ other ∈ queued, ∀ id, (s.memory.objects other).managedPayload = some id →
      (s.memory.objects msg).managedPayload ≠ some id)
    {queue : PooledQueue} (hpush : s.queue.push (2 ^ k) msg = some queue) :
    Inv k { s with queue := queue } (queued ++ [msg]) held busy := by
  have hroom := hinv.carries.room_of_push hone hk hpush
  obtain ⟨after, hafter, hcarries⟩ := hinv.carries.push hk hroom
  obtain rfl : after = queue := Option.some.inj (hafter.symm.trans hpush)
  refine ⟨hcarries, ?_, ?_, hinv.busyOld, hinv.fresh⟩
  · intro other hmem
    rcases List.mem_append.mp hmem with hmem | hmem
    · exact hinv.ready other hmem
    · exact List.mem_singleton.mp hmem ▸ hready
  · intro first hfirst second hsecond id hid hid'
    rcases List.mem_append.mp hfirst with hfirst | hfirst <;>
      rcases List.mem_append.mp hsecond with hsecond | hsecond
    · exact hinv.apart first hfirst second hsecond id hid hid'
    · rw [List.mem_singleton.mp hsecond] at hid'
      exact absurd hid' (hapart first hfirst id hid)
    · rw [List.mem_singleton.mp hfirst] at hid
      exact absurd hid (hapart second hsecond id hid')
    · rw [List.mem_singleton.mp hfirst, List.mem_singleton.mp hsecond]

/-- `acquire` and the writes to the acquired object touch no other message. -/
theorem Inv.acquire (hinv : Inv k s queued held busy) {memory : Memory BroadcastMessage}
    {queue : PooledQueue}
    (hacquire : s.queue.acquire BroadcastMessage.zero s.memory = (msg, memory, queue))
    (message : BroadcastMessage) :
    Inv k { s with memory := memory.write msg message, queue := queue } queued (msg :: held) busy ∧
      ∀ other ∈ queued ++ held,
        (memory.write msg message).objects other = s.memory.objects other := by
  obtain ⟨addr, mem', queue', heq, hcarries, _, hobjects⟩ :=
    hinv.carries.acquire BroadcastMessage.zero
  rw [hacquire] at heq
  obtain ⟨rfl, rfl, rfl⟩ : msg = addr ∧ memory = mem' ∧ queue = queue' := by
    simpa using heq
  have hsame : ∀ other ∈ queued ++ held,
      (memory.write msg message).objects other = s.memory.objects other := by
    intro other hmem
    have hne : other ≠ msg := by
      rintro rfl
      rcases List.mem_append.mp hmem with hmem | hmem
      · exact hcarries.not_queued (List.mem_cons_self ..) hmem
      · exact (List.nodup_cons.mp hcarries.held_nodup).1 hmem
    rw [← hobjects other hmem]
    simp [Memory.write, hne]
  refine ⟨⟨hcarries.write message, ?_, ?_, hinv.busyOld, hinv.fresh⟩, hsame⟩
  · intro other hmem
    exact (hinv.ready other hmem).congr (hsame other (List.mem_append_left _ hmem))
      (fun _ => id) (Nat.le_refl _) (fun _ _ _ => ⟨rfl, rfl⟩)
  · intro first hfirst second hsecond id hid hid'
    rw [hsame first (List.mem_append_left _ hfirst)] at hid
    rw [hsame second (List.mem_append_left _ hsecond)] at hid'
    exact hinv.apart first hfirst second hsecond id hid hid'

/-- The payload of a message is created with its references. -/
theorem Inv.createFor (hinv : Inv k s queued held busy) (data : List UInt8) (size count : Nat) :
    Inv k { s with
      payloads := (s.payloads.createFor data size count).2
      trace := s.trace ++ [.created s.payloads.nextPayload] } queued held busy ∧
    Quiet s { s with
      payloads := (s.payloads.createFor data size count).2
      trace := s.trace ++ [.created s.payloads.nextPayload] } held [] := by
  have hlive : ∀ id, id < s.payloads.nextPayload →
      (s.payloads.createFor data size count).2.live id = s.payloads.live id :=
    fun id hid => PayloadHeap.createFor_live_other data size count (Nat.ne_of_lt hid)
  have hhistory : ∀ id, id ≠ s.payloads.nextPayload →
      history (s.trace ++ [.created s.payloads.nextPayload]) id = history s.trace id := by
    intro id hne
    simp [history, Event.use, Ne.symm hne]
  refine ⟨⟨hinv.carries, ?_, hinv.apart, ?_, ?_⟩, ?_, fun id hid _ => hlive id hid,
    fun id hid _ => hhistory id (Nat.ne_of_lt hid), ?_, fun _ _ => rfl⟩
  · intro msg hmem
    refine (hinv.ready msg hmem).congr rfl (fun _ => id) (by simp) ?_
    exact fun id hid _ => ⟨hlive id hid, hhistory id (Nat.ne_of_lt hid)⟩
  · intro id hmem
    simpa using Nat.lt_succ_of_lt (hinv.busyOld id hmem)
  · intro id hid
    have hlt : s.payloads.nextPayload < id := by
      rw [PayloadHeap.createFor_nextPayload] at hid
      exact hid
    rw [hhistory id (Nat.ne_of_gt hlt)]
    exact hinv.fresh id (Nat.le_of_lt hlt)
  · simp
  · intro id hid
    by_cases heq : id = s.payloads.nextPayload
    · right
      subst heq
      have hnone := hinv.fresh _ hid
      simp only [history] at hnone ⊢
      simp [hnone, Event.use]
    · left
      rw [hhistory id heq]
      exact hinv.fresh id hid

theorem Inv.post (hinv : Inv k s queued held busy) (hone : 1 ≤ k) (hk : k < 64) {topicId size : Nat}
    {data : Option (List UInt8)} {result : Bool}
    (hpost : post (2 ^ k) s topicId data size = some (next, result)) :
    ∃ queued', Inv k next queued' held busy ∧ Quiet s next held [] := by
  rw [EventQueueBroadcast.post] at hpost
  split at hpost
  · obtain ⟨rfl, _⟩ : s = next ∧ false = result := by simpa using hpost
    exact ⟨queued, hinv, Quiet.same hinv rfl rfl (fun _ _ => rfl)⟩
  dsimp only at hpost
  split at hpost
  · obtain ⟨rfl, _⟩ : s = next ∧ true = result := by simpa using hpost
    exact ⟨queued, hinv, Quiet.same hinv rfl rfl (fun _ _ => rfl)⟩
  rename_i hcount
  rcases hacquire : s.queue.acquire BroadcastMessage.zero s.memory with ⟨msg, memory, queue⟩
  simp only [hacquire] at hpost
  split at hpost
  · rw [Option.map_eq_some_iff] at hpost
    obtain ⟨after, hpush, heq⟩ := hpost
    obtain ⟨rfl, _⟩ := (Prod.mk.injEq ..).mp heq
    obtain ⟨hacquired, hobjects⟩ := hinv.acquire hacquire
      ⟨topicId, min ((s.m_observers topicId).getD []).length 255, true, size,
        (memory.objects msg).payload.copyInline data size⟩
    refine ⟨queued ++ [msg], hacquired.send hone hk (Or.inl (by simp [Memory.write])) ?_ hpush,
      Quiet.same hinv rfl rfl fun other hmem => hobjects other (List.mem_append_right _ hmem)⟩
    intro other _ id _
    simp [BroadcastMessage.managedPayload, Memory.write]
  · rw [Option.map_eq_some_iff] at hpost
    obtain ⟨after, hpush, heq⟩ := hpost
    obtain ⟨rfl, _⟩ := (Prod.mk.injEq ..).mp heq
    have hpos : 1 ≤ min ((s.m_observers topicId).getD []).length 255 := by omega
    obtain ⟨hcreated, hquiet⟩ := hinv.createFor (data.getD []) size
      (min ((s.m_observers topicId).getD []).length 255)
    obtain ⟨hacquired, hobjects⟩ := hcreated.acquire hacquire
      ⟨topicId, min ((s.m_observers topicId).getD []).length 255, false, size,
        (memory.objects msg).payload.setManaged s.payloads.nextPayload⟩
    refine ⟨queued ++ [msg], hacquired.send hone hk (Or.inr ⟨s.payloads.nextPayload, _, ?_,
      PayloadHeap.createFor_live _ _ hpos, ?_, ?_, ?_, ?_, ?_, ?_⟩) ?_ hpush, ?_⟩
    · simp [BroadcastMessage.managedPayload, Memory.write]
    · simp [Memory.write]
    · simpa [Memory.write] using hpos
    · have hsome : (s.m_observers topicId).isSome := by
        by_contra hnone
        rw [Option.not_isSome_iff_eq_none] at hnone
        simp [hnone] at hpos
      simpa [Memory.write] using hsome
    · have hnone := hinv.fresh _ (Nat.le_refl _)
      simp only [history] at hnone ⊢
      simp [hnone, Event.use]
    · rw [PayloadHeap.createFor_nextPayload]
      exact Nat.lt_succ_self _
    · exact fun hmem => Nat.lt_irrefl _ (hinv.busyOld _ hmem)
    · intro other hmem id hid hnew
      -- the payloads of the queued messages are older than the new one
      have hold : id < s.payloads.nextPayload := by
        rw [hobjects other (List.mem_append_left _ hmem)] at hid
        rcases hinv.ready other hmem with hinline | ⟨id', _, hid', _, _, _, _, _, hlt, _⟩
        · simp [BroadcastMessage.managedPayload, hinline] at hid
        · rw [hid', Option.some.injEq] at hid
          exact hid ▸ hlt
      have heq : s.payloads.nextPayload = id := by
        simpa [BroadcastMessage.managedPayload, Memory.write] using hnew
      exact Nat.ne_of_gt hold heq
    · exact ⟨hquiet.grows, hquiet.live, hquiet.kept, hquiet.young,
        fun other hmem => hobjects other (List.mem_append_right _ hmem)⟩

/-- What callbacks ask of the queue leaves the dispatch that they run in alone. -/
theorem Inv.requests (hinv : Inv k s queued held busy) (hone : 1 ≤ k) (hk : k < 64)
    {rs : List Request} (hrun : requests (2 ^ k) s rs = some next) :
    ∃ queued', Inv k next queued' held busy ∧ Quiet s next held [] := by
  induction rs generalizing s queued with
  | nil =>
      obtain rfl := Option.some.inj hrun
      exact ⟨queued, hinv, Quiet.same hinv rfl rfl (fun _ _ => rfl)⟩
  | cons r rest ih =>
      rw [EventQueueBroadcast.requests, Option.bind_eq_some_iff] at hrun
      obtain ⟨middle, hstep, hrest⟩ := hrun
      have hfirst : ∃ queued', Inv k middle queued' held busy ∧ Quiet s middle held [] := by
        cases r with
        | addObserver topicId callback =>
            obtain rfl := Option.some.inj hstep
            exact ⟨queued, hinv.addObserver topicId callback⟩
        | post topicId data size =>
            rw [request, Option.map_eq_some_iff] at hstep
            obtain ⟨⟨state, result⟩, hpost, rfl⟩ := hstep
            exact hinv.post hone hk hpost
      obtain ⟨queued', hmiddle, hquiet⟩ := hfirst
      obtain ⟨queued'', hlast, hquiet'⟩ := ih hmiddle hrest
      exact ⟨queued'', hlast, hquiet.trans hquiet' (by simp)⟩

/-! ### The loop of `dispatchOne` -/

/-- References of a payload that are left; none when it has been freed. -/
def RefsLeft (s : State) (id : PayloadId) : Nat → Prop
  | 0 => s.payloads.live id = none
  | refs + 1 => ∃ payload, s.payloads.live id = some payload ∧ payload.m_refCount = refs + 1

/-- Events about the dispatched payload only. -/
theorem Inv.emit (hinv : Inv k s queued held busy) (events : List Event)
    (hevents : ∀ id, id ∉ busy → history events id = []) :
    Inv k (s.emit events) queued held busy ∧ Quiet s (s.emit events) held busy := by
  have hkept : ∀ id, id ∉ busy → history (s.emit events).trace id = history s.trace id := by
    intro id hid
    rw [State.emit, history_append, hevents id hid, List.append_nil]
  refine ⟨⟨hinv.carries, ?_, hinv.apart, hinv.busyOld, ?_⟩, Nat.le_refl _, fun _ _ _ => rfl,
    fun id _ => hkept id, ?_, fun _ _ => rfl⟩
  · exact fun msg hmem => (hinv.ready msg hmem).congr rfl (fun _ hsome => hsome) (Nat.le_refl _)
      (fun id _ hnot => ⟨rfl, hkept id hnot⟩)
  · intro id hid
    have hnot : id ∉ busy := fun hmem => Nat.lt_irrefl _ (Nat.lt_of_lt_of_le (hinv.busyOld id hmem) hid)
    rw [hkept id hnot]
    exact hinv.fresh id hid
  · intro id hid
    have hnot : id ∉ busy := fun hmem => Nat.lt_irrefl _ (Nat.lt_of_lt_of_le (hinv.busyOld id hmem) hid)
    rw [hkept id hnot]
    exact Or.inl (hinv.fresh id hid)

/-- A release of the dispatched payload counts it down by one. -/
theorem Inv.release (hinv : Inv k s queued held [id]) {refs : Nat} (hrefs : RefsLeft s id refs) :
    Inv k (release s id) queued held [id] ∧ Quiet s (release s id) held [id] ∧
      RefsLeft (release s id) id (refs - 1) ∧
      history (release s id).trace id =
        history s.trace id ++ .released :: if refs = 1 then [.freed] else [] := by
  have hbusy : id < s.payloads.nextPayload := hinv.busyOld id (by simp)
  have hlive : ∀ other, other ∉ [id] →
      (EventQueueBroadcast.release s id).payloads.live other = s.payloads.live other :=
    fun other hnot => PayloadHeap.release_live_other (by simpa using hnot)
  have hkept : ∀ other, other ∉ [id] →
      history (EventQueueBroadcast.release s id).trace other = history s.trace other := by
    intro other hnot
    have hne : ¬ id = other := fun heq => hnot (by simp [heq])
    simp only [EventQueueBroadcast.release, history_append]
    split <;> simp [history, Event.use, hne]
  have hnext : (EventQueueBroadcast.release s id).payloads.nextPayload = s.payloads.nextPayload :=
    PayloadHeap.release_nextPayload
  refine ⟨⟨hinv.carries, ?_, hinv.apart, ?_, ?_⟩, ⟨Nat.le_of_eq hnext.symm,
    fun other _ => hlive other, fun other _ => hkept other, ?_, fun _ _ => rfl⟩, ?_, ?_⟩
  · exact fun msg hmem => (hinv.ready msg hmem).congr rfl (fun _ hsome => hsome)
      (Nat.le_of_eq hnext.symm) (fun other _ hnot => ⟨hlive other hnot, hkept other hnot⟩)
  · intro other hmem
    rw [hnext]
    exact hinv.busyOld other hmem
  · intro other hge
    rw [hnext] at hge
    rw [hkept other (by simpa using Nat.ne_of_gt (Nat.lt_of_lt_of_le hbusy hge))]
    exact hinv.fresh other hge
  · intro other hge
    rw [hkept other (by simpa using Nat.ne_of_gt (Nat.lt_of_lt_of_le hbusy hge))]
    exact Or.inl (hinv.fresh other hge)
  · match refs, hrefs with
    | 0, hfreed =>
        simp only [EventQueueBroadcast.release, PayloadHeap.release_freed hfreed]
        exact hfreed
    | 1, ⟨payload, hpayload, hcount⟩ =>
        simp [RefsLeft, EventQueueBroadcast.release, PayloadHeap.release_last hpayload hcount]
    | refs + 2, ⟨payload, hpayload, hcount⟩ =>
        have hmore : payload.m_refCount ≠ 1 := by omega
        refine ⟨{ payload with m_refCount := payload.m_refCount - 1 }, ?_, ?_⟩
        · simp [EventQueueBroadcast.release, PayloadHeap.release_more hpayload hmore]
        · simp only [hcount]
          omega
  · match refs, hrefs with
    | 0, hfreed =>
        simp [EventQueueBroadcast.release, PayloadHeap.release_freed hfreed, history, Event.use]
    | 1, ⟨payload, hpayload, hcount⟩ =>
        simp [EventQueueBroadcast.release, PayloadHeap.release_last hpayload hcount, history,
          Event.use]
    | refs + 2, ⟨payload, hpayload, hcount⟩ =>
        have hmore : payload.m_refCount ≠ 1 := by omega
        simp [EventQueueBroadcast.release, PayloadHeap.release_more hpayload hmore, history,
          Event.use]

theorem RefsLeft.congr {refs : Nat} (hrefs : RefsLeft s id refs)
    (hlive : next.payloads.live id = s.payloads.live id) : RefsLeft next id refs := by
  cases refs with
  | zero => exact hlive.trans hrefs
  | succ refs =>
      obtain ⟨payload, hpayload, hcount⟩ := hrefs
      exact ⟨payload, hlive.trans hpayload, hcount⟩

/-- The first release of a loop and the rest of it. -/
theorem loopUses_succ (observers refs : Nat) :
    loopUses (observers + 1) refs = .called :: .returned ::
      (.released :: if refs = 1 then [.freed] else []) ++ loopUses observers (refs - 1) := by
  match refs with
  | 0 => rfl
  | 1 => rfl
  | refs + 2 => simp [loopUses]

/-- **The loop over a managed message**: one release after each callback. -/
theorem Inv.callObservers (hinv : Inv k s queued held [id]) (hone : 1 ≤ k) (hk : k < 64)
    {behaviour : List Event → List Request} {observers : List Nat} (hmsg : msg ∈ held)
    (hmanaged : (s.memory.objects msg).managedPayload = some id) {refs : Nat}
    (hrefs : RefsLeft s id refs)
    (hrun : EventQueueBroadcast.callObservers behaviour (2 ^ k) msg (.managed id) observers s =
      some next) :
    ∃ queued', Inv k next queued' held [id] ∧ Quiet s next held [id] ∧
      history next.trace id = history s.trace id ++ loopUses observers.length refs := by
  have hbusy : id < s.payloads.nextPayload := hinv.busyOld id (by simp)
  induction observers generalizing s queued refs with
  | nil =>
      obtain rfl := Option.some.inj hrun
      exact ⟨queued, hinv, (Quiet.same hinv rfl rfl (fun _ _ => rfl)).weaken [id], by
        simp [loopUses]⟩
  | cons cb rest ih =>
      simp only [EventQueueBroadcast.callObservers, Option.bind_eq_some_iff] at hrun
      obtain ⟨asked, hasked, hrest⟩ := hrun
      have honly : ∀ other, other ∉ [id] →
          history [.called cb (s.memory.objects msg).topicId (.managed id)
            (s.memory.objects msg).payloadSize] other = [] ∧
          history [.returned cb (.managed id)] other = [] := by
        intro other hnot
        have hne : ¬ id = other := fun heq => hnot (by simp [heq])
        simp [history, Event.use, DataRef.payload, hne]
      -- the call, what the callback asks for, its return, the release
      obtain ⟨hcalled, hquietCalled⟩ := hinv.emit _ (fun other hnot => (honly other hnot).1)
      obtain ⟨queued₁, hinvAsked, hquietAsked⟩ := hcalled.requests hone hk hasked
      obtain ⟨hreturned, hquietReturned⟩ := hinvAsked.emit _ (fun other hnot => (honly other hnot).2)
      have hmanagedAsked : (asked.memory.objects msg).managedPayload = some id := by
        rw [hquietAsked.objects msg hmsg]
        exact hmanaged
      have hmatch : ((asked.emit [.returned cb (.managed id)]).memory.objects msg).managedPayload =
          some id := hmanagedAsked
      simp only [hmatch] at hrest
      have hrefsReturned : RefsLeft (asked.emit [.returned cb (.managed id)]) id refs :=
        hrefs.congr (hquietAsked.live id hbusy (by simp))
      obtain ⟨hreleased, hquietReleased, hrefsReleased, hhistory⟩ :=
        hreturned.release hrefsReturned
      have hgrows : id < (EventQueueBroadcast.release
          (asked.emit [.returned cb (.managed id)]) id).payloads.nextPayload :=
        hreleased.busyOld id (by simp)
      obtain ⟨queued₂, hlast, hquietLast, hhistoryLast⟩ :=
        ih hreleased hmanagedAsked hrefsReleased hrest hgrows
      have hquiet : Quiet s next held [id] := by
        have hold : ∀ other ∈ [id], other < s.payloads.nextPayload := hinv.busyOld
        exact (((hquietCalled.trans (hquietAsked.weaken [id]) hold).trans hquietReturned hold).trans
          hquietReleased hold).trans hquietLast hold
      refine ⟨queued₂, hlast, hquiet, ?_⟩
      have hhistoryAsked := hquietAsked.kept id hbusy (by simp)
      rw [hhistoryLast, hhistory, State.emit, history_append, hhistoryAsked, State.emit,
        history_append, List.length_cons, loopUses_succ]
      simp [history, Event.use, DataRef.payload]

/-- The loop over an inline message is about no payload. -/
theorem Inv.callObservers_inline (hinv : Inv k s queued held []) (hone : 1 ≤ k) (hk : k < 64)
    {behaviour : List Event → List Request} {observers : List Nat} {data : DataRef}
    (hdata : data.payload = none) (hmsg : msg ∈ held)
    (hinline : (s.memory.objects msg).managedPayload = none)
    (hrun : EventQueueBroadcast.callObservers behaviour (2 ^ k) msg data observers s = some next) :
    ∃ queued', Inv k next queued' held [] ∧ Quiet s next held [] := by
  induction observers generalizing s queued with
  | nil =>
      obtain rfl := Option.some.inj hrun
      exact ⟨queued, hinv, Quiet.same hinv rfl rfl (fun _ _ => rfl)⟩
  | cons cb rest ih =>
      simp only [EventQueueBroadcast.callObservers, Option.bind_eq_some_iff] at hrun
      obtain ⟨asked, hasked, hrest⟩ := hrun
      obtain ⟨hcalled, hquietCalled⟩ := hinv.emit [.called cb
        (s.memory.objects msg).topicId data (s.memory.objects msg).payloadSize]
        (fun other _ => by simp [history, Event.use, hdata])
      obtain ⟨queued₁, hinvAsked, hquietAsked⟩ := hcalled.requests hone hk hasked
      obtain ⟨hreturned, hquietReturned⟩ := hinvAsked.emit [.returned cb data]
        (fun other _ => by simp [history, Event.use, hdata])
      have hmatch : ((asked.emit [.returned cb data]).memory.objects msg).managedPayload = none := by
        rw [State.emit, hquietAsked.objects msg hmsg]
        exact hinline
      simp only [hmatch] at hrest
      obtain ⟨queued₂, hlast, hquietLast⟩ := ih hreturned hmatch hrest
      exact ⟨queued₂, hlast, ((hquietCalled.trans hquietAsked (by simp)).trans hquietReturned
        (by simp)).trans hquietLast (by simp)⟩

/-! ### `dispatchOne` -/

/-- The topic of the message that a dispatch pops has as many observers as `post`
has counted for that message, if it is managed. -/
def ObserversUnchanged (Capacity : Nat) (s : State) : Prop :=
  ∀ queue msg, s.queue.pop Capacity = some (queue, some msg) →
    (s.memory.objects msg).isInline = false →
    ((s.m_observers (s.memory.objects msg).topicId).getD []).length =
      (s.memory.objects msg).observerCount

/-- The payloads of one step and of the state before obey the law alike, except
those that the step touches. -/
theorem Quiet.lifetime_iff {holding : List Addr} {working : List PayloadId}
    (hquiet : Quiet s next held busy) (hinv : Inv k s queued holding working)
    {id : PayloadId} (hnot : id ∉ busy) :
    Lifetime (history next.trace id) ↔ Lifetime (history s.trace id) := by
  rcases Nat.lt_or_ge id s.payloads.nextPayload with hlt | hge
  · rw [hquiet.kept id hlt hnot]
  · rw [hinv.fresh id hge]
    rcases hquiet.young id hge with hnil | hcreated
    · rw [hnil]
    · rw [hcreated]
      exact ⟨fun _ => lifetime_nil, fun _ => lifetime_created⟩

/-- The end of `dispatchOne`: the message goes back to the pool. -/
theorem Inv.finish (hinv : Inv k s queued (msg :: held) busy) (data : DataRef)
    (hdata : ∀ id, data.payload = some id → id ∈ busy) :
    Inv k { s with
      queue := s.queue.release 8192 msg
      trace := s.trace ++ [.dispatched data] } queued held [] ∧
    Quiet s { s with
      queue := s.queue.release 8192 msg
      trace := s.trace ++ [.dispatched data] } held busy := by
  obtain ⟨hemitted, hquiet⟩ := hinv.emit [.dispatched data] (fun id hnot => by
    have hne : ¬ data.payload = some id := fun heq => hnot (hdata id heq)
    simp [history, Event.use, hne])
  refine ⟨⟨hinv.carries.release 8192, ?_, hinv.apart, by simp, hemitted.fresh⟩, hquiet.grows,
    hquiet.live, hquiet.kept, hquiet.young, fun _ _ => rfl⟩
  intro other hmem
  rcases hemitted.ready other hmem with
    hinline | ⟨id, payload, hmanaged, hlive, hcount, hpos, hobs, hhist, hold, _⟩
  · exact Or.inl hinline
  · exact Or.inr ⟨id, payload, hmanaged, hlive, hcount, hpos, hobs, hhist, hold, by simp⟩

/-- The message that a dispatch has popped is held; its payload is not that of a
queued message. -/
theorem Inv.popped (hinv : Inv k s (msg :: queued) [] []) {queue : PooledQueue}
    (hcarries : Carries k s.memory queue queued [msg])
    (hbusy : ∀ id ∈ busy, (s.memory.objects msg).managedPayload = some id ∧
      id < s.payloads.nextPayload) : Inv k { s with queue := queue } queued [msg] busy := by
  refine ⟨hcarries, ?_, ?_, fun id hmem => (hbusy id hmem).2, hinv.fresh⟩
  · intro other hmem
    rcases hinv.ready other (List.mem_cons_of_mem _ hmem) with
      hinline | ⟨id, payload, hmanaged, hlive, hcount, hpos, hobs, hhist, hold, _⟩
    · exact Or.inl hinline
    · refine Or.inr ⟨id, payload, hmanaged, hlive, hcount, hpos, hobs, hhist, hold, fun hin => ?_⟩
      have heq := hinv.apart other (List.mem_cons_of_mem _ hmem) msg (List.mem_cons_self ..) id
        hmanaged (hbusy id hin).1
      exact (List.nodup_cons.mp hinv.carries.queued_nodup).1 (heq ▸ hmem)
  · exact fun first hfirst second hsecond => hinv.apart first (List.mem_cons_of_mem _ hfirst)
      second (List.mem_cons_of_mem _ hsecond)

/-- The history of a payload after the dispatch of its message. -/
theorem Inv.dispatch_managed (hinv : Inv k s (msg :: queued) [] []) (hone : 1 ≤ k) (hk : k < 64)
    {behaviour : List Event → List Request} {queue : PooledQueue} {result : State}
    (hcarries : Carries k s.memory queue queued [msg])
    (hmanaged : (s.memory.objects msg).isInline = false)
    (hdeliver : deliver behaviour (2 ^ k) { s with queue := queue } msg = some result) :
    ∃ id queued', (s.memory.objects msg).data = .managed id ∧ history s.trace id = [.created] ∧
      1 ≤ (s.memory.objects msg).observerCount ∧ Inv k result queued' [msg] [id] ∧
      Quiet s result [msg] [id] ∧
      history result.trace id = .created :: loopUses
        ((s.m_observers (s.memory.objects msg).topicId).getD []).length
        (s.memory.objects msg).observerCount := by
  rcases hinv.ready msg (List.mem_cons_self ..) with
    hinline | ⟨id, payload, hid, hlive, hcount, hpos, hobs, hhist, hold, _⟩
  · rw [hmanaged] at hinline
    cases hinline
  obtain ⟨observers, hobservers⟩ := Option.isSome_iff_exists.mp hobs
  have hpopped : Inv k { s with queue := queue } queued [msg] [id] :=
    hinv.popped hcarries (fun other hmem => by
      rw [List.mem_singleton.mp hmem]
      exact ⟨hid, hold⟩)
  have hdata : (s.memory.objects msg).data = .managed id := by
    have hraw : (s.memory.objects msg).payload.managed = some id := by
      simpa [BroadcastMessage.managedPayload, hmanaged] using hid
    simp [BroadcastMessage.data, hmanaged, hraw]
  have hrefs : RefsLeft { s with queue := queue } id (s.memory.objects msg).observerCount := by
    obtain ⟨count, heq⟩ := Nat.exists_eq_add_of_le' hpos
    rw [heq]
    exact ⟨payload, hlive, by rw [hcount, heq]; rfl⟩
  simp only [deliver, hobservers, hdata] at hdeliver
  obtain ⟨queued', hlast, hquiet, hhistory⟩ :=
    hpopped.callObservers hone hk (List.mem_singleton.mpr rfl) hid hrefs hdeliver
  refine ⟨id, queued', hdata, hhist, hpos, hlast,
    ⟨hquiet.grows, hquiet.live, hquiet.kept, hquiet.young, hquiet.objects⟩, ?_⟩
  rw [hhistory, hobservers, hhist]
  rfl

theorem Inv.dispatchOne (hinv : Inv k s queued [] []) (hone : 1 ≤ k) (hk : k < 64)
    {behaviour : List Event → List Request} {result : Bool}
    (hrun : dispatchOne behaviour (2 ^ k) s = some (next, result)) :
    ∃ queued', Inv k next queued' [] [] ∧
      ((∀ id, Lifetime (history next.trace id)) ↔
        (∀ id, Lifetime (history s.trace id)) ∧ ObserversUnchanged (2 ^ k) s) := by
  cases queued with
  | nil =>
      have hpop := hinv.carries.pop_nil hk
      simp only [EventQueueBroadcast.dispatchOne, hpop, Option.some.injEq, Prod.mk.injEq] at hrun
      obtain ⟨rfl, _⟩ := hrun
      refine ⟨[], hinv, ⟨fun hlife => ⟨hlife, ?_⟩, fun hboth => hboth.1⟩⟩
      intro queue msg hsome
      rw [hpop] at hsome
      cases hsome
  | cons msg rest =>
      obtain ⟨queue, hpop, hcarries⟩ := hinv.carries.pop_cons hk
      simp only [EventQueueBroadcast.dispatchOne, hpop, Option.map_eq_some_iff, Prod.mk.injEq]
        at hrun
      obtain ⟨delivered, hdeliver, rfl, _⟩ := hrun
      have hunchanged : ObserversUnchanged (2 ^ k) s ↔
          ((s.memory.objects msg).isInline = false →
            ((s.m_observers (s.memory.objects msg).topicId).getD []).length =
              (s.memory.objects msg).observerCount) := by
        constructor
        · exact fun hall => hall queue msg hpop
        · intro hthis queue' msg' hpop'
          rw [hpop, Option.some.injEq, Prod.mk.injEq, Option.some.injEq] at hpop'
          exact hpop'.2 ▸ hthis
      cases hinline : (s.memory.objects msg).isInline with
      | true =>
          have hnone : (s.memory.objects msg).managedPayload = none := by
            simp [BroadcastMessage.managedPayload, hinline]
          have hdata : (s.memory.objects msg).data.payload = none := by
            simp [BroadcastMessage.data, hinline, DataRef.payload]
          have hpopped : Inv k { s with queue := queue } rest [msg] [] :=
            hinv.popped hcarries (by simp)
          have hloop : ∃ queued', Inv k delivered queued' [msg] [] ∧
              Quiet { s with queue := queue } delivered [msg] [] := by
            rw [deliver] at hdeliver
            split at hdeliver
            · exact hpopped.callObservers_inline hone hk hdata (List.mem_singleton.mpr rfl) hnone
                hdeliver
            · simp only [hnone, Option.some.injEq] at hdeliver
              exact ⟨rest, hdeliver ▸ hpopped, hdeliver ▸
                Quiet.same hpopped rfl rfl (fun _ _ => rfl)⟩
          obtain ⟨queued', hlast, hquiet⟩ := hloop
          obtain ⟨hfinished, hquietFinish⟩ := hlast.finish (s.memory.objects msg).data
            (fun id heq => by rw [hdata] at heq; cases heq)
          refine ⟨queued', hfinished, ?_⟩
          have hboth : ∀ id, Lifetime (history (delivered.trace ++
              [.dispatched (s.memory.objects msg).data]) id) ↔ Lifetime (history s.trace id) :=
            fun id => (hquietFinish.lifetime_iff hlast (by simp)).trans
              (hquiet.lifetime_iff hpopped (by simp))
          simp only [hboth, hunchanged, hinline]
          simp
      | false =>
          obtain ⟨id, queued', hdata, hhist, hpos, hlast, hquiet, hhistory⟩ :=
            hinv.dispatch_managed hone hk hcarries hinline hdeliver
          obtain ⟨hfinished, hquietFinish⟩ := hlast.finish (s.memory.objects msg).data
            (fun other heq => by
              rw [hdata] at heq
              simpa [DataRef.payload] using heq.symm)
          refine ⟨queued', hfinished, ?_⟩
          have hothers : ∀ other, other ≠ id → (Lifetime (history (delivered.trace ++
              [.dispatched (s.memory.objects msg).data]) other) ↔
                Lifetime (history s.trace other)) :=
            fun other hne => (hquietFinish.lifetime_iff hlast (by simpa using hne)).trans
              (hquiet.lifetime_iff hinv (by simpa using hne))
          have hthis : Lifetime (history (delivered.trace ++
              [.dispatched (s.memory.objects msg).data]) id) ↔
                ((s.m_observers (s.memory.objects msg).topicId).getD []).length =
                  (s.memory.objects msg).observerCount := by
            rw [history_append, hhistory, hdata]
            simpa [history, Event.use, DataRef.payload] using lifetime_dispatch_iff hpos
          rw [hunchanged]
          constructor
          · intro hall
            refine ⟨fun other => ?_, fun _ => hthis.mp (hall id)⟩
            by_cases heq : other = id
            · rw [heq, hhist]
              exact lifetime_created
            · exact (hothers other heq).mp (hall other)
          · rintro ⟨hall, hsame⟩ other
            by_cases heq : other = id
            · rw [heq]
              exact hthis.mpr (hsame hinline)
            · exact (hothers other heq).mpr (hall other)

/-! ### Whole runs -/

/-- At every dispatch of the run the popped message meets its condition. -/
def SameObservers (behaviour : List Event → List Request) (Capacity : Nat) (s : State)
    (calls : List Call) : Prop :=
  ∀ before after state, calls = before ++ .dispatchOne :: after →
    run behaviour Capacity s before = some state → ObserversUnchanged Capacity state

theorem sameObservers_cons {behaviour : List Event → List Request} {Capacity : Nat} {call : Call}
    {rest : List Call} (hstep : step behaviour Capacity s call = some next) :
    SameObservers behaviour Capacity s (call :: rest) ↔
      (call = .dispatchOne → ObserversUnchanged Capacity s) ∧
        SameObservers behaviour Capacity next rest := by
  constructor
  · refine fun hall => ⟨?_, fun before after state heq hrun => ?_⟩
    · rintro rfl
      exact hall [] rest s rfl rfl
    · refine hall (call :: before) after state (by rw [heq]; rfl) ?_
      simp [run, hstep, hrun]
  · rintro ⟨hfirst, hrest⟩ before after state heq hrun
    cases before with
    | nil =>
        obtain ⟨rfl, _⟩ := (List.cons.injEq ..).mp heq
        obtain rfl := Option.some.inj hrun
        exact hfirst rfl
    | cons first before =>
        obtain ⟨rfl, htail⟩ := (List.cons.injEq ..).mp heq
        simp only [run, hstep, Option.bind_some] at hrun
        exact hrest before after state htail hrun

theorem inv_initWith {pool : Memory BroadcastMessage × PooledQueue}
    (hcarries : Carries k pool.1 pool.2 [] []) : Inv k (initWith pool) [] [] [] :=
  ⟨hcarries, by simp, by simp, by simp, fun id _ => history_nil id⟩

theorem Inv.run (hinv : Inv k s queued [] []) (hone : 1 ≤ k) (hk : k < 64)
    {behaviour : List Event → List Request} {calls : List Call}
    (hrun : run behaviour (2 ^ k) s calls = some next) :
    (∀ id, Lifetime (history next.trace id)) ↔
      (∀ id, Lifetime (history s.trace id)) ∧ SameObservers behaviour (2 ^ k) s calls := by
  induction calls generalizing s queued with
  | nil =>
      obtain rfl := Option.some.inj hrun
      refine ⟨fun hall => ⟨hall, fun before after state heq => ?_⟩, fun hboth => hboth.1⟩
      simp at heq
  | cons call rest ih =>
      rw [EventQueueBroadcast.run, Option.bind_eq_some_iff] at hrun
      obtain ⟨middle, hstep, hrest⟩ := hrun
      rw [sameObservers_cons hstep]
      cases call with
      | request r =>
          have hrequests : EventQueueBroadcast.requests (2 ^ k) s [r] = some middle := by
            rw [step] at hstep
            simp [EventQueueBroadcast.requests, hstep]
          obtain ⟨queued', hmiddle, hquiet⟩ := hinv.requests hone hk hrequests
          have hsame : ∀ id, Lifetime (history middle.trace id) ↔ Lifetime (history s.trace id) :=
            fun id => hquiet.lifetime_iff hinv (by simp)
          rw [ih hmiddle hrest]
          simp [hsame]
      | dispatchOne =>
          rw [step, Option.map_eq_some_iff] at hstep
          obtain ⟨⟨state, result⟩, hdispatch, rfl⟩ := hstep
          obtain ⟨queued', hmiddle, hiff⟩ := hinv.dispatchOne hone hk hdispatch
          rw [ih hmiddle hrest, hiff, and_assoc]
          simp

/-- **Managed payloads of `EventQueueBroadcast`.**  After a run of calls every
payload has obeyed the lifetime law exactly if at each dispatch of a managed
message its topic had the number of observers that `post` had counted. -/
theorem payload_lifetime_iff (hone : 1 ≤ k) (hk : k < 64)
    (behaviour : List Event → List Request) (calls : List Call)
    (hrun : run behaviour (2 ^ k) init calls = some s) :
    (∀ id, Lifetime (history s.trace id)) ↔ SameObservers behaviour (2 ^ k) init calls := by
  have hinv : Inv k init [] [] [] := inv_initWith (construct_carries ..).1
  rw [hinv.run hone hk hrun]
  have hempty : ∀ id, Lifetime (history init.trace id) := fun _ => lifetime_nil
  simp [hempty]

/-- A managed post to a topic with one observer, then its dispatch; `late`
observers are added in between. -/
def postThenDispatch (late : List Call) : List Call :=
  [.request (.addObserver 0 1), .request (.post 0 (some (List.replicate 49 1)) 49)] ++ late ++
    [.dispatchOne]

theorem payload_lifetime_iff_postThenDispatch :
    ∃ s, run (fun _ => []) 2 init (postThenDispatch []) = some s ∧
      ((∀ id, Lifetime (history s.trace id)) ↔
        SameObservers (fun _ => []) 2 init (postThenDispatch [])) := by
  obtain ⟨s, hs⟩ := Option.isSome_iff_exists.mp
    (show (run (fun _ => []) 2 init (postThenDispatch [])).isSome = true by decide +kernel)
  exact ⟨s, hs, payload_lifetime_iff (k := 1) (by decide) (by decide) _ _ hs⟩

/-- An observer added between the post and its dispatch gets the data of a
payload that is already freed. -/
theorem lateObserver_breaks_lifetime :
    ¬ ∀ (k : Nat) (behaviour : List Event → List Request) (calls : List Call) (s : State),
      1 ≤ k → k < 64 → run behaviour (2 ^ k) init calls = some s →
        ∀ id, Lifetime (history s.trace id) := by
  intro hall
  have htrace : (run (fun _ => []) (2 ^ 1) init
      (postThenDispatch [.request (.addObserver 0 2)])).map (fun s => history s.trace 0) =
      some [.created, .called, .returned, .released, .freed, .called, .returned, .released,
        .dispatched] := by decide +kernel
  rw [Option.map_eq_some_iff] at htrace
  obtain ⟨s, hs, hhistory⟩ := htrace
  have hlast := (hall 1 _ _ s (by decide) (by decide) hs 0).freedLast
  rw [hhistory] at hlast
  revert hlast
  decide

end MessageCenter.EventQueueBroadcast
