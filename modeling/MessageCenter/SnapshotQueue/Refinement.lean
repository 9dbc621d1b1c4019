import MessageCenter.SnapshotQueue.Reference

/-!
# The snapshot queues refine the reference queue

The simulation relates every queued message object to an entry of the reference:
the object holds the arguments and observers of the entry, and its payload, if it
is managed, the bytes and one reference for each observer.  No two queued
messages share an object or a payload, so neither recycling an object nor
releasing a payload changes another message.
-/

namespace MessageCenter.SnapshotQueue

open ObjectPoolLockFree PooledQueue
open Reference (Entry ValidData)

variable {M : Type} {sys : System}

/-! ### Messages and entries -/

/-- The part of a message that stays until it goes back to the pool. -/
structure Describes (format : Format M) (message : M) (entry : Entry) : Prop where
  topicId : format.topicId message = entry.topicId
  payloadSize : format.payloadSize message = entry.size
  observerCount : format.observerCount message = entry.observers.length
  observer : ∀ i observer, entry.observers[i]? = some observer →
    format.observer message i = observer
  data : (format.managed message = none ∧
      ∀ heap, format.data heap message = some (entry.bytes.map Cell.byte)) ∨
    ∃ id, format.managed message = some id ∧
      ∀ heap, format.data heap message = (heap.data id).map (List.map Cell.byte)

/-- The managed payload, if there is one, has the bytes and `refs` references. -/
def HasRefs (format : Format M) (heap : PayloadHeap) (message : M) (entry : Entry) (refs : Nat) :
    Prop :=
  ∀ id, format.managed message = some id → ∃ payload, heap.live id = some payload ∧
    payload.m_refCount = refs ∧ payload.m_data = entry.bytes ∧ id < heap.nextPayload

/-- What `post` relies on: a filled message describes the post, and its payload is
inline or the one just created for it. -/
def Lawful (format : Format M) : Prop :=
  ∀ heap old topicId count observers data size, format.accepts size = true →
    ValidData data size →
    Describes format (format.fill heap old topicId count observers data size).2
      ⟨topicId, (data.getD []).take size, size, (List.range count).map observers⟩ ∧
    ((format.managed (format.fill heap old topicId count observers data size).2 = none ∧
        (format.fill heap old topicId count observers data size).1 = heap) ∨
      (format.managed (format.fill heap old topicId count observers data size).2 =
          some heap.nextPayload ∧
        (format.fill heap old topicId count observers data size).1 =
          (heap.createFor (data.getD []) size count).2))

theorem copyObservers_getElem? (old observers : Nat → Observer) {count i : Nat}
    {observer : Observer} (hget : ((List.range count).map observers)[i]? = some observer) :
    copyObservers old observers count i = observer := by
  obtain ⟨hlt, heq⟩ := List.getElem?_eq_some_iff.mp hget
  have hi : i < count := by simpa using hlt
  simpa [copyObservers, hi] using heq

theorem snapshotFormat_lawful (inlineMax : Nat) : Lawful (snapshotFormat inlineMax) := by
  intro heap old topicId count observers data size _ hdata
  simp only [snapshotFormat]
  split
  · refine ⟨⟨rfl, rfl, by simp, fun i observer => copyObservers_getElem? _ _, Or.inl ⟨rfl, ?_⟩⟩,
      Or.inl ⟨rfl, rfl⟩⟩
    intro heap
    simp [PayloadUnion.inlineData_copyInline _ hdata]
  · refine ⟨⟨rfl, rfl, by simp, fun i observer => copyObservers_getElem? _ _,
      Or.inr ⟨heap.nextPayload, ?_, ?_⟩⟩, Or.inr ⟨?_, rfl⟩⟩
    · simp [PayloadHeap.createFor_id]
    · intro heap'
      simp [PayloadHeap.createFor_id]
    · simp [PayloadHeap.createFor_id]

theorem emuFastFormat_lawful {inlineMax : Nat} (hmax : inlineMax < 2 ^ 8) :
    Lawful (emuFastFormat inlineMax) := by
  intro heap old topicId count observers data size haccepts hdata
  have hsize : size % 2 ^ 8 = size := by
    have hle : size ≤ inlineMax := by simpa [emuFastFormat] using haccepts
    exact Nat.mod_eq_of_lt (Nat.lt_of_le_of_lt hle hmax)
  refine ⟨⟨rfl, hsize, by simp [emuFastFormat], fun i observer => copyObservers_getElem? _ _,
    Or.inl ⟨rfl, ?_⟩⟩, Or.inl ⟨rfl, rfl⟩⟩
  intro heap
  simp only [emuFastFormat, hsize]
  rw [PayloadUnion.inlineData_copyInline _ hdata]

/-! ### The simulation -/

/-- The managed payload of the object at `addr`. -/
def State.managedAt (s : State sys) (lane : sys.Lane) (addr : Addr) : Option PayloadId :=
  (sys.format lane).managed (s.object lane addr)

/-- A queued object is the message of an entry that nobody has been called for. -/
def Carried (s : State sys) (lane : sys.Lane) (addr : Addr) (entry : Entry) : Prop :=
  Describes (sys.format lane) (s.object lane addr) entry ∧
    HasRefs (sys.format lane) s.payloads (s.object lane addr) entry entry.observers.length

/-- The simulation.  `queued` are the objects in the rings and `held` those that
calls work on; `busy` is the payload of a dispatch in progress. -/
structure Simulates (s : State sys) (r : Reference.State sys) (queued held : sys.Lane → List Addr)
    (busy : List PayloadId) : Prop where
  topics : ∀ topicId, r.topics topicId =
    (List.range (s.m_topics topicId).count).map (s.m_topics topicId).observers
  carries : ∀ lane, Carries (sys.exponent lane) (s.memory lane) (s.queue lane) (queued lane)
    (held lane)
  entries : ∀ lane, List.Forall₂ (Carried s lane) (queued lane) (r.entries lane)
  apart : ∀ lane, ∀ addr ∈ queued lane, ∀ other, ∀ addr' ∈ queued other, ∀ id,
    s.managedAt lane addr = some id → s.managedAt other addr' = some id →
    lane = other ∧ addr = addr'
  notBusy : ∀ lane, ∀ addr ∈ queued lane, ∀ id, s.managedAt lane addr = some id → id ∉ busy
  busyOld : ∀ id ∈ busy, id < s.payloads.nextPayload
  trace : s.trace = r.trace

/-- What a post leaves alone: payloads that exist and objects that are held. -/
structure Quiet (s next : State sys) (held : sys.Lane → List Addr) : Prop where
  grows : s.payloads.nextPayload ≤ next.payloads.nextPayload
  live : ∀ id, id < s.payloads.nextPayload → next.payloads.live id = s.payloads.live id
  objects : ∀ lane, ∀ addr ∈ held lane, next.object lane addr = s.object lane addr

theorem Quiet.refl (s : State sys) (held : sys.Lane → List Addr) : Quiet s s held :=
  ⟨Nat.le_refl _, fun _ _ => rfl, fun _ _ _ => rfl⟩

theorem Quiet.trans {s middle next : State sys} {held : sys.Lane → List Addr}
    (hfirst : Quiet s middle held) (hsecond : Quiet middle next held) : Quiet s next held := by
  refine ⟨Nat.le_trans hfirst.grows hsecond.grows, fun id hid => ?_, fun lane addr hmem => ?_⟩
  · rw [hsecond.live id (Nat.lt_of_lt_of_le hid hfirst.grows), hfirst.live id hid]
  · rw [hsecond.objects lane addr hmem, hfirst.objects lane addr hmem]

variable {s next : State sys} {r : Reference.State sys} {queued held : sys.Lane → List Addr}
  {busy : List PayloadId} {lane : sys.Lane} {addr : Addr} {entry : Entry} {id : PayloadId}

/-- The payload of a queued message exists. -/
theorem Carried.managed_lt (hcarried : Carried s lane addr entry)
    (hmanaged : s.managedAt lane addr = some id) : id < s.payloads.nextPayload := by
  obtain ⟨payload, _, _, _, hlt⟩ := hcarried.2 id hmanaged
  exact hlt

theorem Simulates.exists_carried (hsim : Simulates s r queued held busy)
    (hmem : addr ∈ queued lane) : ∃ entry, Carried s lane addr entry := by
  obtain ⟨i, hi, rfl⟩ := List.mem_iff_getElem.mp hmem
  have hentries := List.forall₂_iff_get.mp (hsim.entries lane)
  exact ⟨_, hentries.2 i hi (hentries.1 ▸ hi)⟩

theorem Carried.congr (hcarried : Carried s lane addr entry)
    (hobject : next.object lane addr = s.object lane addr)
    (hgrows : s.payloads.nextPayload ≤ next.payloads.nextPayload)
    (hlive : ∀ id, s.managedAt lane addr = some id →
      next.payloads.live id = s.payloads.live id) : Carried next lane addr entry := by
  rw [Carried, hobject]
  refine ⟨hcarried.1, fun id hmanaged => ?_⟩
  obtain ⟨payload, hpayload, hrefs, hdata, hlt⟩ := hcarried.2 id hmanaged
  exact ⟨payload, (hlive id hmanaged).trans hpayload, hrefs, hdata, Nat.lt_of_lt_of_le hlt hgrows⟩

/-- The queue of a lane is as long as its entries. -/
theorem Simulates.length_eq (hsim : Simulates s r queued held busy) (lane : sys.Lane) :
    (queued lane).length = (r.entries lane).length :=
  (hsim.entries lane).length_eq

theorem forall₂_imp_mem {α β : Type} {R S : α → β → Prop} {xs : List α} {ys : List β}
    (hall : List.Forall₂ R xs ys) (himp : ∀ x ∈ xs, ∀ y ∈ ys, R x y → S x y) :
    List.Forall₂ S xs ys := by
  induction hall with
  | nil => exact List.Forall₂.nil
  | cons hhead _ ih =>
      constructor
      · exact himp _ (List.mem_cons_self ..) _ (List.mem_cons_self ..) hhead
      · exact ih fun x hx y hy =>
          himp x (List.mem_cons_of_mem _ hx) y (List.mem_cons_of_mem _ hy)

theorem forall₂_snoc {α β : Type} {R : α → β → Prop} {xs : List α} {ys : List β} {x : α} {y : β}
    (hall : List.Forall₂ R xs ys) (hlast : R x y) : List.Forall₂ R (xs ++ [x]) (ys ++ [y]) :=
  List.rel_append hall (List.Forall₂.cons hlast List.Forall₂.nil)

/-! ### `addObserver` -/

theorem Simulates.addObserver (hsim : Simulates s r queued held busy) (topicId : Nat)
    (observer : Observer) :
    Simulates (addObserver s topicId observer).1 (Reference.addObserver r topicId observer)
      queued held busy := by
  have hlength : (r.topics topicId).length = (s.m_topics topicId).count := by
    simp [hsim.topics]
  simp only [SnapshotQueue.addObserver, Reference.addObserver, hlength]
  by_cases htopic : topicId < sys.maxTopics
  · by_cases hroom : (s.m_topics topicId).count < sys.maxObservers
    · rw [if_neg (by omega), if_neg (by omega), if_pos ⟨htopic, hroom⟩]
      refine ⟨fun other => ?_, hsim.carries, hsim.entries, hsim.apart, hsim.notBusy,
        hsim.busyOld, hsim.trace⟩
      by_cases heq : other = topicId
      · subst heq
        simp only [Function.update_self, List.range_succ, List.map_append, List.map_singleton,
          hsim.topics]
        congr 1
        apply List.map_congr_left
        intro i hi
        have hne : i ≠ (s.m_topics other).count := Nat.ne_of_lt (List.mem_range.mp hi)
        rw [Function.update_of_ne hne]
      · simp [heq, hsim.topics]
    · rw [if_neg (by omega), if_pos (by omega), if_neg (by omega)]
      exact hsim
  · rw [if_pos (by omega), if_neg (by omega)]
    exact hsim

/-! ### `post` -/

/-- Lawful message formats and rings that a 64-bit counter can address. -/
structure System.IsLawful (sys : System) : Prop where
  format : ∀ lane, Lawful (sys.format lane)
  exponent : ∀ lane, sys.exponent lane < 64

/-- A step that keeps the queued objects and their payloads keeps the simulation. -/
theorem Simulates.congr {held' : sys.Lane → List Addr} (hsim : Simulates s r queued held busy)
    (htopics : next.m_topics = s.m_topics) (htrace : next.trace = s.trace)
    (hcarries : ∀ lane, Carries (sys.exponent lane) (next.memory lane) (next.queue lane)
      (queued lane) (held' lane))
    (hobjects : ∀ lane, ∀ addr ∈ queued lane, next.object lane addr = s.object lane addr)
    (hgrows : s.payloads.nextPayload ≤ next.payloads.nextPayload)
    (hlive : ∀ id, id < s.payloads.nextPayload → id ∉ busy →
      next.payloads.live id = s.payloads.live id) :
    Simulates next r queued held' busy := by
  have hmanaged : ∀ lane, ∀ addr ∈ queued lane, next.managedAt lane addr = s.managedAt lane addr :=
    fun lane addr hmem => by rw [State.managedAt, hobjects lane addr hmem, State.managedAt]
  refine ⟨?_, hcarries, ?_, ?_, ?_, ?_, ?_⟩
  · intro topicId
    rw [htopics]
    exact hsim.topics topicId
  · intro lane
    refine forall₂_imp_mem (hsim.entries lane) fun addr hmem entry _ hcarried => ?_
    refine hcarried.congr (hobjects lane addr hmem) hgrows fun id hid => ?_
    exact hlive id (hcarried.managed_lt hid) (hsim.notBusy lane addr hmem id hid)
  · intro lane addr hmem other addr' hmem' id hid hid'
    rw [hmanaged lane addr hmem] at hid
    rw [hmanaged other addr' hmem'] at hid'
    exact hsim.apart lane addr hmem other addr' hmem' id hid hid'
  · intro lane addr hmem id hid
    rw [hmanaged lane addr hmem] at hid
    exact hsim.notBusy lane addr hmem id hid
  · exact fun id hmem => Nat.lt_of_lt_of_le (hsim.busyOld id hmem) hgrows
  · rw [htrace]
    exact hsim.trace

/-- `post` up to the push: the new object carries the entry, with a payload of its
own, and nothing else changes. -/
theorem Simulates.prepare (hsim : Simulates s r queued held busy) (hlawful : sys.IsLawful)
    (lane : sys.Lane) (topicId : Nat) {count size : Nat} (observers : Nat → Observer)
    {data : Option (List UInt8)} (haccepts : (sys.format lane).accepts size = true)
    (hdata : ValidData data size) (hcount : 1 ≤ count) :
    ∃ next msg, prepare s lane topicId count observers data size = (next, msg) ∧
      Simulates next r queued (Function.update held lane (msg :: held lane)) busy ∧
      Carried next lane msg ⟨topicId, (data.getD []).take size, size,
        (List.range count).map observers⟩ ∧
      (∀ id, next.managedAt lane msg = some id → id ∉ busy ∧
        ∀ other, ∀ addr ∈ queued other, next.managedAt other addr ≠ some id) ∧
      Quiet s next held := by
  obtain ⟨msg, memory, queue, hacquire, hcarries, _, hobjects⟩ :=
    (hsim.carries lane).acquire (sys.format lane).zero
  obtain ⟨hdescribes, hpayload⟩ := hlawful.format lane s.payloads (memory.objects msg) topicId count
    observers data size haccepts hdata
  rcases hfill : (sys.format lane).fill s.payloads (memory.objects msg) topicId count observers data
    size with ⟨heap, message⟩
  rw [hfill] at hdescribes hpayload
  -- the heap is the old one, or has one more payload
  have hheap : s.payloads.nextPayload ≤ heap.nextPayload ∧
      (∀ id, id < s.payloads.nextPayload → heap.live id = s.payloads.live id) ∧
      ∀ id, (sys.format lane).managed message = some id → id = s.payloads.nextPayload ∧
        heap.live id = some ⟨count, size, (data.getD []).take size⟩ ∧ id < heap.nextPayload := by
    rcases hpayload with ⟨hnone, rfl⟩ | ⟨hsome, rfl⟩
    · refine ⟨Nat.le_refl _, fun _ _ => rfl, fun id hid => ?_⟩
      rw [hnone] at hid
      cases hid
    · refine ⟨by simp, fun id hid => PayloadHeap.createFor_live_other _ _ _ (Nat.ne_of_lt hid),
        fun id hid => ?_⟩
      obtain rfl : s.payloads.nextPayload = id := Option.some.inj (hsome.symm.trans hid)
      exact ⟨rfl, PayloadHeap.createFor_live _ _ hcount, by simp⟩
  obtain ⟨hgrows, hlive, hnew⟩ := hheap
  have hprepare : SnapshotQueue.prepare s lane topicId count observers data size =
      ({ s.setLane lane (memory.write msg message) queue with payloads := heap }, msg) := by
    simp only [SnapshotQueue.prepare, hacquire, hfill]
  have hself : ({ s.setLane lane (memory.write msg message) queue with payloads := heap } :
      State sys).object lane msg = message := by
    simp [State.object, State.setLane, Memory.write]
  have hother : ∀ other, ∀ addr ∈ queued other ++ held other,
      ({ s.setLane lane (memory.write msg message) queue with payloads := heap } :
        State sys).object other addr = s.object other addr := by
    intro other addr hmem
    by_cases heq : other = lane
    · subst heq
      have hne : addr ≠ msg := by
        rintro rfl
        rcases List.mem_append.mp hmem with hmem | hmem
        · exact hcarries.not_queued (List.mem_cons_self ..) hmem
        · exact (List.nodup_cons.mp hcarries.held_nodup).1 hmem
      have hkept := hobjects addr hmem
      simp [State.object, State.setLane, Memory.write, hne, hkept]
    · simp [State.object, State.setLane, heq]
  refine ⟨_, msg, hprepare, ?_, ⟨by rw [hself]; exact hdescribes, ?_⟩, ?_, hgrows, hlive,
    fun other addr hmem => hother other addr (List.mem_append_right _ hmem)⟩
  · refine hsim.congr rfl rfl ?_ (fun other addr hmem => hother other addr
      (List.mem_append_left _ hmem)) hgrows (fun id hid _ => hlive id hid)
    intro other
    by_cases heq : other = lane
    · subst heq
      simpa [State.setLane] using hcarries.write message
    · simpa [State.setLane, heq] using hsim.carries other
  · rw [hself]
    intro id hid
    obtain ⟨_, hlive', hlt⟩ := hnew id hid
    exact ⟨_, hlive', by simp, rfl, hlt⟩
  · -- the payload is younger than all the others
    intro id hid
    rw [State.managedAt, hself] at hid
    obtain ⟨rfl, -, -⟩ := hnew id hid
    refine ⟨fun hmem => Nat.lt_irrefl _ (hsim.busyOld _ hmem), fun other addr hmem heq => ?_⟩
    rw [State.managedAt, hother other addr (List.mem_append_left _ hmem)] at heq
    obtain ⟨entry, hcarried⟩ := hsim.exists_carried hmem
    exact Nat.lt_irrefl _ (hcarried.managed_lt heq)

/-- The push: a held message becomes the last entry of its lane. -/
theorem Simulates.send {msg : Addr}
    (hsim : Simulates s r queued (Function.update held lane (msg :: held lane)) busy)
    (hlawful : sys.IsLawful) (hcarried : Carried s lane msg entry)
    (hown : ∀ id, s.managedAt lane msg = some id → id ∉ busy ∧
      ∀ other, ∀ addr ∈ queued other, s.managedAt other addr ≠ some id)
    (hroom : (queued lane).length < 2 ^ sys.exponent lane) :
    ∃ queue, (s.queue lane).push (2 ^ sys.exponent lane) msg = some queue ∧
      Simulates (s.setQueue lane queue)
        { r with entries := Function.update r.entries lane (r.entries lane ++ [entry]) }
        (Function.update queued lane (queued lane ++ [msg])) held busy := by
  have hlane := hsim.carries lane
  rw [Function.update_self] at hlane
  obtain ⟨queue, hpush, hcarries⟩ := hlane.push (hlawful.exponent lane) hroom
  refine ⟨queue, hpush, hsim.topics, ?_, ?_, ?_, ?_, hsim.busyOld, hsim.trace⟩
  · intro other
    by_cases heq : other = lane
    · subst heq
      simpa [State.setQueue] using hcarries
    · simpa [State.setQueue, heq] using hsim.carries other
  · intro other
    by_cases heq : other = lane
    · subst heq
      simp only [Function.update_self]
      exact forall₂_snoc (hsim.entries other) hcarried
    · simp only [Function.update_of_ne heq]
      exact hsim.entries other
  · -- a queued object is an old one or the pushed one
    have hcases : ∀ other, ∀ addr ∈ Function.update queued lane (queued lane ++ [msg]) other,
        addr ∈ queued other ∨ other = lane ∧ addr = msg := by
      intro other addr hmem
      by_cases heq : other = lane
      · subst heq
        rw [Function.update_self, List.mem_append, List.mem_singleton] at hmem
        exact hmem.imp_right fun hmsg => ⟨rfl, hmsg⟩
      · rw [Function.update_of_ne heq] at hmem
        exact Or.inl hmem
    intro first addr hmem second addr' hmem' id hid hid'
    rcases hcases first addr hmem with hmem | ⟨hfirst, haddr⟩ <;>
      rcases hcases second addr' hmem' with hmem' | ⟨hsecond, haddr'⟩
    · exact hsim.apart first addr hmem second addr' hmem' id hid hid'
    · rw [hsecond, haddr'] at hid'
      exact absurd hid ((hown id hid').2 first addr hmem)
    · rw [hfirst, haddr] at hid
      exact absurd hid' ((hown id hid).2 second addr' hmem')
    · exact ⟨hfirst.trans hsecond.symm, haddr.trans haddr'.symm⟩
  · intro other addr hmem id hid
    by_cases heq : other = lane
    · subst heq
      rw [Function.update_self, List.mem_append, List.mem_singleton] at hmem
      rcases hmem with hmem | rfl
      · exact hsim.notBusy other addr hmem id hid
      · exact (hown id hid).1
    · rw [Function.update_of_ne heq] at hmem
      exact hsim.notBusy other addr hmem id hid

theorem Simulates.post {r' : Reference.State sys} (hsim : Simulates s r queued held busy)
    (hlawful : sys.IsLawful) {args : PostArgs sys.Lane} (hpost : Reference.post r args = some r') :
    ∃ next result queued', post s args = some (next, result) ∧
      Simulates next r' queued' held busy ∧ Quiet s next held := by
  have htopics := hsim.topics args.topicId
  rw [Reference.post] at hpost
  rw [SnapshotQueue.post]
  split at hpost
  · rename_i hrejected
    obtain rfl := Option.some.inj hpost
    exact ⟨s, false, queued, by rw [if_pos hrejected], hsim, Quiet.refl s held⟩
  rename_i haccepted
  rw [if_neg haccepted]
  split at hpost
  · rename_i hempty
    obtain rfl := Option.some.inj hpost
    have hcount : (s.m_topics args.topicId).count = 0 := by
      simpa [htopics] using hempty
    exact ⟨s, true, queued, by simp [hcount], hsim, Quiet.refl s held⟩
  rename_i hobservers
  have hcount : (s.m_topics args.topicId).count ≠ 0 := by
    intro hzero
    exact hobservers (by simp [htopics, hzero])
  split at hpost
  · rename_i hvalid
    obtain rfl := Option.some.inj hpost
    obtain ⟨hdata, hroom⟩ := hvalid
    have haccepts : (sys.format args.lane).accepts args.size = true := by
      by_contra hreject
      exact haccepted (Or.inr (by simpa using hreject))
    obtain ⟨next, msg, hprepare, hprepared, hcarried, hown, hquiet⟩ :=
      hsim.prepare hlawful args.lane args.topicId (s.m_topics args.topicId).observers haccepts hdata
        (Nat.one_le_iff_ne_zero.mpr hcount)
    rw [← hsim.length_eq] at hroom
    obtain ⟨queue, hpush, hsent⟩ := hprepared.send hlawful hcarried hown hroom
    refine ⟨next.setQueue args.lane queue, true,
      Function.update queued args.lane (queued args.lane ++ [msg]), ?_, ?_, ?_⟩
    · simp [hcount, hprepare, hpush]
    · rw [htopics]
      exact hsent
    · exact ⟨hquiet.grows, hquiet.live, hquiet.objects⟩
  · cases hpost

theorem Simulates.posts {args : List (PostArgs sys.Lane)} {r' : Reference.State sys}
    (hsim : Simulates s r queued held busy) (hlawful : sys.IsLawful)
    (hposts : Reference.posts r args = some r') :
    ∃ next queued', posts s args = some next ∧ Simulates next r' queued' held busy ∧
      Quiet s next held := by
  induction args generalizing s r queued with
  | nil =>
      obtain rfl := Option.some.inj hposts
      exact ⟨s, queued, rfl, hsim, Quiet.refl s held⟩
  | cons first rest ih =>
      rw [Reference.posts] at hposts
      obtain ⟨middle, hfirst, hrest⟩ := Option.bind_eq_some_iff.mp hposts
      obtain ⟨after, result, queuedAfter, hpost, hafter, hquiet⟩ := hsim.post hlawful hfirst
      obtain ⟨next, queued', hnext, hsimNext, hquietRest⟩ := ih hafter hrest
      exact ⟨next, queued', by simp [SnapshotQueue.posts, hpost, hnext], hsimNext,
        hquiet.trans hquietRest⟩

/-! ### Callbacks -/

/-- The message of a dispatch with `remaining` callbacks to come. -/
structure Dispatching (s : State sys) (held : sys.Lane → List Addr) (busy : List PayloadId)
    (lane : sys.Lane) (msg : Addr) (entry : Entry) (remaining : Nat) : Prop where
  held : msg ∈ held lane
  describes : Describes (sys.format lane) (s.object lane msg) entry
  hasRefs : 0 < remaining →
    HasRefs (sys.format lane) s.payloads (s.object lane msg) entry remaining
  busy : ∀ id, s.managedAt lane msg = some id → id ∈ busy

variable {msg : Addr} {remaining : Nat}

theorem Dispatching.quiet (hdispatching : Dispatching s held busy lane msg entry remaining)
    (hquiet : Quiet s next held) : Dispatching next held busy lane msg entry remaining := by
  have hobject := hquiet.objects lane msg hdispatching.held
  refine ⟨hdispatching.held, hobject ▸ hdispatching.describes, fun hpos id hid => ?_,
    fun id hid => ?_⟩
  · rw [hobject] at hid
    obtain ⟨payload, hlive, hrefs, hdata, hlt⟩ := hdispatching.hasRefs hpos id hid
    exact ⟨payload, (hquiet.live id hlt).trans hlive, hrefs, hdata,
      Nat.lt_of_lt_of_le hlt hquiet.grows⟩
  · rw [State.managedAt, hobject] at hid
    exact hdispatching.busy id hid

/-- The callback gets the bytes of the entry. -/
theorem Dispatching.data (hdispatching : Dispatching s held busy lane msg entry (remaining + 1)) :
    (sys.format lane).data s.payloads (s.object lane msg) =
      some (entry.bytes.map Cell.byte) := by
  rcases hdispatching.describes.data with ⟨_, hdata⟩ | ⟨id, hmanaged, hdata⟩
  · exact hdata s.payloads
  · obtain ⟨payload, hlive, _, hbytes, _⟩ :=
      hdispatching.hasRefs (Nat.succ_pos _) id hmanaged
    simp [hdata, PayloadHeap.data, hlive, hbytes]

/-- A release takes one reference of the dispatched message. -/
theorem Dispatching.release (hdispatching : Dispatching s held busy lane msg entry (remaining + 1))
    (hmanaged : s.managedAt lane msg = some id) :
    Dispatching { s with payloads := (s.payloads.release id).1 } held busy lane msg entry
      remaining := by
  refine ⟨hdispatching.held, hdispatching.describes, fun hpos other hother => ?_,
    hdispatching.busy⟩
  obtain rfl : id = other := Option.some.inj (hmanaged.symm.trans hother)
  obtain ⟨payload, hlive, hrefs, hdata, hlt⟩ := hdispatching.hasRefs (Nat.succ_pos _) id hmanaged
  have hmore : payload.m_refCount ≠ 1 := by omega
  refine ⟨{ payload with m_refCount := payload.m_refCount - 1 }, ?_, ?_, hdata, ?_⟩
  · simp [PayloadHeap.release_more hlive hmore]
  · have hcount : payload.m_refCount - 1 = remaining := by omega
    simpa using hcount
  · simpa using hlt

theorem Simulates.release (hsim : Simulates s r queued held busy) (hbusy : id ∈ busy) :
    Simulates { s with payloads := (s.payloads.release id).1 } r queued held busy := by
  apply hsim.congr
  · rfl
  · rfl
  · exact hsim.carries
  · exact fun _ _ _ => rfl
  · exact Nat.le_of_eq PayloadHeap.release_nextPayload.symm
  · intro other _ hother
    exact PayloadHeap.release_live_other fun heq => hother (heq ▸ hbusy)

theorem Simulates.emit (hsim : Simulates s r queued held busy) (event : CallEvent) :
    Simulates { s with trace := s.trace ++ [event] } { r with trace := r.trace ++ [event] }
      queued held busy := by
  refine ⟨hsim.topics, hsim.carries, hsim.entries, hsim.apart, hsim.notBusy, hsim.busyOld, ?_⟩
  simp [hsim.trace]

theorem Simulates.callObserver {behaviour : Behaviour sys} {observer : Observer} {i : Nat}
    {r' : Reference.State sys} (hsim : Simulates s r queued held busy) (hlawful : sys.IsLawful)
    (hdispatching : Dispatching s held busy lane msg entry (remaining + 1))
    (hobserver : entry.observers[i]? = some observer)
    (hposts : Reference.posts
      { r with trace := r.trace ++
        [⟨observer, entry.topicId, some (entry.bytes.map Cell.byte), entry.size⟩] }
      (behaviour (r.trace ++
        [⟨observer, entry.topicId, some (entry.bytes.map Cell.byte), entry.size⟩])) = some r') :
    ∃ next queued', callObserver behaviour lane msg i s = some next ∧
      Simulates next r' queued' held busy ∧
      Dispatching next held busy lane msg entry remaining := by
  have hevent : (⟨(sys.format lane).observer (s.object lane msg) i,
      (sys.format lane).topicId (s.object lane msg),
      (sys.format lane).data s.payloads (s.object lane msg),
      (sys.format lane).payloadSize (s.object lane msg)⟩ : CallEvent) =
      ⟨observer, entry.topicId, some (entry.bytes.map Cell.byte), entry.size⟩ := by
    rw [hdispatching.describes.observer i observer hobserver, hdispatching.describes.topicId,
      hdispatching.describes.payloadSize, hdispatching.data]
  obtain ⟨middle, queued', hmiddle, hsimMiddle, hquiet⟩ :=
    (hsim.emit ⟨observer, entry.topicId, some (entry.bytes.map Cell.byte), entry.size⟩).posts
      hlawful hposts
  have hcalled : Dispatching middle held busy lane msg entry (remaining + 1) :=
    hdispatching.quiet ⟨hquiet.grows, hquiet.live, hquiet.objects⟩
  rw [← hsim.trace] at hmiddle
  simp only [SnapshotQueue.callObserver, hevent, hmiddle, Option.map_some]
  cases hmanaged : middle.managedAt lane msg with
  | none =>
      rw [State.managedAt] at hmanaged
      refine ⟨middle, queued', by rw [hmanaged], hsimMiddle, hcalled.held, hcalled.describes,
        fun _ id hid => ?_, hcalled.busy⟩
      rw [hmanaged] at hid
      cases hid
  | some id =>
      have hbusy := hcalled.busy id hmanaged
      refine ⟨{ middle with payloads := (middle.payloads.release id).1 }, queued', ?_,
        hsimMiddle.release hbusy, hcalled.release hmanaged⟩
      rw [State.managedAt] at hmanaged
      rw [hmanaged]

/-- The loop over the observers that are left. -/
theorem Simulates.callObservers {behaviour : Behaviour sys} {rest : List Observer} {i : Nat}
    {r' : Reference.State sys} (hsim : Simulates s r queued held busy) (hlawful : sys.IsLawful)
    (hdispatching : Dispatching s held busy lane msg entry rest.length)
    (hrest : entry.observers.drop i = rest)
    (hcalls : Reference.callObservers behaviour entry rest r = some r') :
    ∃ next queued', callObservers behaviour lane msg rest.length i s = some next ∧
      Simulates next r' queued' held busy ∧ Dispatching next held busy lane msg entry 0 := by
  induction rest generalizing s r queued i with
  | nil =>
      obtain rfl := Option.some.inj hcalls
      exact ⟨s, queued, rfl, hsim, hdispatching⟩
  | cons observer rest ih =>
      have hobserver : entry.observers[i]? = some observer := by
        have hzero : (entry.observers.drop i)[0]? = some observer := by rw [hrest]; rfl
        simpa using hzero
      have hdrop : entry.observers.drop (i + 1) = rest := by
        rw [← List.tail_drop, hrest]
        rfl
      simp only [Reference.callObservers] at hcalls
      obtain ⟨middle, hposts, hcallsRest⟩ := Option.bind_eq_some_iff.mp hcalls
      obtain ⟨after, queuedAfter, hafter, hsimAfter, hcalled⟩ :=
        hsim.callObserver hlawful hdispatching hobserver hposts
      obtain ⟨next, queued', hnext, hsimNext, hdone⟩ := ih hsimAfter hcalled hdrop hcallsRest
      exact ⟨next, queued', by simp [SnapshotQueue.callObservers, hafter, hnext], hsimNext, hdone⟩

/-! ### `dispatchOne` -/

/-- The pop hands the oldest message, with its payload, to the dispatch. -/
theorem Simulates.take {rest : List Addr} {entries : List Entry}
    (hsim : Simulates s r queued held []) (hlawful : sys.IsLawful)
    (hqueued : queued lane = msg :: rest) (hentries : r.entries lane = entry :: entries) :
    ∃ queue, (s.queue lane).pop (2 ^ sys.exponent lane) = some (queue, some msg) ∧
      Simulates (s.setQueue lane queue)
        { r with entries := Function.update r.entries lane entries }
        (Function.update queued lane rest) (Function.update held lane (msg :: held lane))
        (s.managedAt lane msg).toList ∧
      Dispatching (s.setQueue lane queue) (Function.update held lane (msg :: held lane))
        (s.managedAt lane msg).toList lane msg entry entry.observers.length := by
  have hlane := hsim.carries lane
  rw [hqueued] at hlane
  obtain ⟨queue, hpop, hcarries⟩ := hlane.pop_cons (hlawful.exponent lane)
  have hpaired := hsim.entries lane
  rw [hqueued, hentries] at hpaired
  obtain ⟨hcarried, hothers⟩ := List.forall₂_cons.mp hpaired
  have hfirst : msg ∈ queued lane := by
    rw [hqueued]
    exact List.mem_cons_self ..
  have hfresh : msg ∉ rest := (List.nodup_cons.mp hlane.queued_nodup).1
  -- what is still queued was queued before, and is another object
  have hold : ∀ other, ∀ addr ∈ Function.update queued lane rest other,
      addr ∈ queued other ∧ ¬(other = lane ∧ addr = msg) := by
    intro other addr hmem
    by_cases heq : other = lane
    · subst heq
      rw [Function.update_self] at hmem
      refine ⟨hqueued ▸ List.mem_cons_of_mem _ hmem, ?_⟩
      rintro ⟨_, rfl⟩
      exact hfresh hmem
    · rw [Function.update_of_ne heq] at hmem
      exact ⟨hmem, fun hsame => heq hsame.1⟩
  refine ⟨queue, hpop, ⟨hsim.topics, ?_, ?_, ?_, ?_, ?_, hsim.trace⟩, ?_, hcarried.1,
    fun _ => hcarried.2, fun id hid => ?_⟩
  · intro other
    by_cases heq : other = lane
    · subst heq
      simpa [State.setQueue] using hcarries
    · simpa [State.setQueue, heq] using hsim.carries other
  · intro other
    by_cases heq : other = lane
    · subst heq
      simp only [Function.update_self]
      exact hothers
    · simp only [Function.update_of_ne heq]
      exact hsim.entries other
  · intro first addr hmem second addr' hmem'
    exact hsim.apart first addr (hold first addr hmem).1 second addr' (hold second addr' hmem').1
  · intro other addr hmem id hid hbusy
    obtain ⟨hmemOld, hne⟩ := hold other addr hmem
    exact hne (hsim.apart other addr hmemOld lane msg hfirst id hid (Option.mem_toList.mp hbusy))
  · intro id hid
    exact hcarried.managed_lt (Option.mem_toList.mp hid)
  · simp
  · exact Option.mem_toList.mpr hid

/-- The message goes back to the pool when its callbacks have been made. -/
theorem Simulates.recycle (hsim : Simulates s r queued (Function.update held lane (msg :: held lane))
    busy) :
    Simulates (s.setQueue lane ((s.queue lane).release (sys.maxSize lane) msg)) r queued held
      [] := by
  refine ⟨hsim.topics, fun other => ?_, hsim.entries, hsim.apart, ?_, ?_, hsim.trace⟩
  · by_cases heq : other = lane
    · subst heq
      have hlane := hsim.carries other
      rw [Function.update_self] at hlane
      simpa [State.setQueue] using hlane.release (sys.maxSize other)
    · simpa [State.setQueue, heq] using hsim.carries other
  · exact fun _ _ _ _ _ => List.not_mem_nil
  · exact fun id hid => absurd hid List.not_mem_nil

theorem Simulates.dispatchOne {behaviour : Behaviour sys} {r' : Reference.State sys}
    (hsim : Simulates s r queued held []) (hlawful : sys.IsLawful)
    (hdispatch : Reference.dispatchOne behaviour lane r = some r') :
    ∃ next result queued', dispatchOne behaviour lane s = some (next, result) ∧
      Simulates next r' queued' held [] := by
  have hpaired := hsim.entries lane
  rw [Reference.dispatchOne] at hdispatch
  cases hentries : r.entries lane with
  | nil =>
      rw [hentries] at hdispatch hpaired
      obtain rfl := Option.some.inj hdispatch
      have hlane := hsim.carries lane
      rw [List.forall₂_nil_right_iff.mp hpaired] at hlane
      have hpop := hlane.pop_nil (hlawful.exponent lane)
      have hsame : s.setQueue lane (s.queue lane) = s := by
        simp [State.setQueue]
      exact ⟨s, false, queued, by simp [SnapshotQueue.dispatchOne, hpop, hsame], hsim⟩
  | cons entry entries =>
      rw [hentries] at hdispatch hpaired
      obtain ⟨msg, rest, _, _, hqueued⟩ := List.forall₂_cons_right_iff.mp hpaired
      obtain ⟨queue, hpop, htaken, hdispatching⟩ := hsim.take hlawful hqueued hentries
      have hcount : (sys.format lane).observerCount ((s.setQueue lane queue).object lane msg) =
          entry.observers.length := hdispatching.describes.observerCount
      obtain ⟨called, queued', hcalls, hsimCalled, _⟩ :=
        htaken.callObservers hlawful hdispatching List.drop_zero hdispatch
      exact ⟨_, true, queued', by simp [SnapshotQueue.dispatchOne, hpop, hcount, hcalls],
        hsimCalled.recycle⟩

/-! ### Runs -/

theorem Simulates.step {behaviour : Behaviour sys} {call : Call sys.Lane}
    {r' : Reference.State sys} (hsim : Simulates s r queued held []) (hlawful : sys.IsLawful)
    (hstep : Reference.step behaviour r call = some r') :
    ∃ next queued', SnapshotQueue.step behaviour s call = some next ∧
      Simulates next r' queued' held [] := by
  cases call with
  | addObserver topicId observer =>
      obtain rfl := Option.some.inj hstep
      exact ⟨_, queued, rfl, hsim.addObserver topicId observer⟩
  | post args =>
      obtain ⟨next, result, queued', hpost, hsimNext, _⟩ := hsim.post hlawful hstep
      exact ⟨next, queued', by simp [SnapshotQueue.step, hpost], hsimNext⟩
  | dispatchOne lane =>
      obtain ⟨next, result, queued', hdispatch, hsimNext⟩ := hsim.dispatchOne hlawful hstep
      exact ⟨next, queued', by simp [SnapshotQueue.step, hdispatch], hsimNext⟩

theorem Simulates.run {behaviour : Behaviour sys} {calls : List (Call sys.Lane)}
    {r' : Reference.State sys} (hsim : Simulates s r queued held []) (hlawful : sys.IsLawful)
    (hrun : Reference.run behaviour r calls = some r') :
    ∃ next queued', SnapshotQueue.run behaviour s calls = some next ∧
      Simulates next r' queued' held [] := by
  induction calls generalizing s r queued with
  | nil =>
      obtain rfl := Option.some.inj hrun
      exact ⟨s, queued, rfl, hsim⟩
  | cons call rest ih =>
      rw [Reference.run] at hrun
      obtain ⟨middle, hfirst, hrest⟩ := Option.bind_eq_some_iff.mp hrun
      obtain ⟨after, queuedAfter, hafter, hsimAfter⟩ := hsim.step hlawful hfirst
      obtain ⟨next, queued', hnext, hsimNext⟩ := ih hsimAfter hrest
      exact ⟨next, queued', by simp [SnapshotQueue.run, hafter, hnext], hsimNext⟩

theorem simulates_init (sys : System) :
    Simulates (init sys) (Reference.init sys) (fun _ => []) (fun _ => []) [] := by
  refine ⟨fun _ => rfl, fun lane => ?_, fun lane => List.Forall₂.nil, ?_, ?_, ?_, rfl⟩
  · exact (construct_carries _ _ _).1
  · exact fun _ _ hmem => absurd hmem List.not_mem_nil
  · exact fun _ _ hmem => absurd hmem List.not_mem_nil
  · exact fun _ hmem => absurd hmem List.not_mem_nil

/-- A sequence of calls that keeps to the contract returns, and has made the
callbacks of the reference queue. -/
def Delivers (sys : System) : Prop :=
  ∀ (behaviour : Behaviour sys) (calls : List (Call sys.Lane)) (r : Reference.State sys),
    Reference.run behaviour (Reference.init sys) calls = some r →
    ∃ s, run behaviour (init sys) calls = some s ∧ s.trace = r.trace

theorem System.IsLawful.delivers (hlawful : sys.IsLawful) : Delivers sys := by
  intro behaviour calls r hrun
  obtain ⟨s, queued, hnext, hsim⟩ := (simulates_init sys).run hlawful hrun
  exact ⟨s, hnext, hsim.trace⟩

theorem eventQueueBroadcastFast_isLawful {k : Nat} (hk : k < 64) :
    (eventQueueBroadcastFast k).IsLawful :=
  ⟨fun _ => snapshotFormat_lawful 48, fun _ => hk⟩

theorem eventQueueBroadcastFastBatch_isLawful {k : Nat} (hk : k < 64) :
    (eventQueueBroadcastFastBatch k).IsLawful :=
  ⟨fun _ => snapshotFormat_lawful 48, fun _ => hk⟩

theorem eventQueueEmulator_isLawful {fast bulk : Nat} (hfast : fast < 64) (hbulk : bulk < 64) :
    (eventQueueEmulator fast bulk).IsLawful := by
  refine ⟨fun lane => ?_, fun lane => ?_⟩
  · cases lane with
    | fast => exact emuFastFormat_lawful (by decide)
    | bulk => exact snapshotFormat_lawful 48
  · cases lane with
    | fast => exact hfast
    | bulk => exact hbulk

/-- End-to-end delivery: the four pairs of post and dispatch make the callbacks
of the reference queue, for rings of every capacity that a `size_t` can hold. -/
theorem snapshotQueues_deliver {k fast bulk : Nat} (hk : k < 64) (hfast : fast < 64)
    (hbulk : bulk < 64) :
    Delivers (eventQueueBroadcastFast k) ∧ Delivers (eventQueueBroadcastFastBatch k) ∧
      Delivers (eventQueueEmulator fast bulk) := by
  refine ⟨?_, ?_, ?_⟩
  · exact (eventQueueBroadcastFast_isLawful hk).delivers
  · exact (eventQueueBroadcastFastBatch_isLawful hk).delivers
  · exact (eventQueueEmulator_isLawful hfast hbulk).delivers

/-- A callback that posts one byte to its own topic, the first time it is called. -/
def echoOnce (k : Nat) : Behaviour (eventQueueBroadcastFast k)
  | [_] => [⟨(), 5, some [3], 1⟩]
  | _ => []

/-- A managed payload, then a post from its callback to one more observer. -/
def echoCalls (k : Nat) : List (Call (eventQueueBroadcastFast k).Lane) :=
  [.addObserver 5 ⟨1, 7⟩, .post ⟨(), 5, some (List.replicate 50 9), 50⟩, .addObserver 5 ⟨2, 8⟩,
    .dispatchOne (), .dispatchOne ()]

theorem snapshotQueues_deliver_echo :
    ∃ s, run (echoOnce 2) (init (eventQueueBroadcastFast 2)) (echoCalls 2) = some s ∧
      s.trace = [⟨⟨1, 7⟩, 5, some ((List.replicate 50 9).map Cell.byte), 50⟩,
        ⟨⟨1, 7⟩, 5, some [Cell.byte 3], 1⟩, ⟨⟨2, 8⟩, 5, some [Cell.byte 3], 1⟩] := by
  obtain ⟨hdelivers, _, _⟩ := snapshotQueues_deliver (by decide : 2 < 64) (by decide : 2 < 64)
    (by decide : 2 < 64)
  have htrace : (Reference.run (echoOnce 2) (Reference.init _) (echoCalls 2)).map
      Reference.State.trace =
      some [⟨⟨1, 7⟩, 5, some ((List.replicate 50 9).map Cell.byte), 50⟩,
        ⟨⟨1, 7⟩, 5, some [Cell.byte 3], 1⟩, ⟨⟨2, 8⟩, 5, some [Cell.byte 3], 1⟩] := by
    decide +kernel
  obtain ⟨r, hrun, hr⟩ := Option.map_eq_some_iff.mp htrace
  obtain ⟨s, hnext, hs⟩ := hdelivers _ _ r hrun
  exact ⟨s, hnext, hs.trans hr⟩

end MessageCenter.SnapshotQueue
