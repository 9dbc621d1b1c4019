import MessageCenter.MessageCenterFast.RefusedPosts

/-!
# What the observers of `MessageCenterFast` get

An audit beside the machine of posts and blocks.  It notes the arguments of each post, the
post that each message object was last taken from the pool for, the posts in the order of
their pushes, and what each dispatch gives to the callbacks: the arguments of the call and
the memory behind its data pointer at that time.  No step reads the audit.

The invariant follows a message from `build` to `reset`: nobody else writes to its object or
frees its block, so the callbacks find what `post` stored.
-/

namespace MessageCenter.MessageCenterFast.Blocks

open Concurrency Circulation
open Topics (MC_FAST_QUEUE_SIZE)

variable {Tid : Type}

/-! ### The audit -/

/-- A callback with its arguments; `bytes` is the memory at `data`. -/
structure Seen where
  callback : Nat
  topicId : Nat
  size : Nat
  bytes : Bytes

/-- The dispatch of a message: its post, the observers registered for the topic of the post
at that time, and the callbacks so far. -/
structure Delivery where
  call : Nat
  registered : List (Option Nat)
  seen : List Seen

/-- The callbacks that are not empty. -/
def callbacks (observers : List (Option Nat)) : List Nat := observers.filterMap id

/-- `posted` has the arguments of all posts, `pushed` the posts whose message was queued,
`current` the dispatch in progress. -/
structure Audited (Tid : Type) where
  center : State Tid
  posted : List PostArgs
  carried : Addr → Nat
  pushed : List Nat
  current : Option Delivery
  deliveries : List Delivery

/-- The memory at a data pointer. -/
def State.bytes (s : State Tid) : DataPointer → Bytes
  | .inlineData msg => (s.objects msg).inlineData
  | .managedData none => fun _ => none
  | .managedData (some block) =>
      match s.blocks block with
      | some stored => stored.bytes
      | none => fun _ => none

/-- The observers of the topic of a post. -/
def Audited.observers (x : Audited Tid) (call : Nat) : List (Option Nat) :=
  match x.posted[call]? with
  | some args => x.center.m_observers args.topicId
  | none => []

def Delivery.addSeen (d : Delivery) (s : State Tid) (callback : Nat) (args : CallArgs) : Delivery :=
  { d with seen := d.seen ++ [⟨callback, args.topicId, args.size, s.bytes args.data⟩] }

/-- What the audit notes at a step of a post. -/
def Audited.noteRun (x : Audited Tid) (pc : Pc) : Audited Tid :=
  match pc with
  | .acquire call _ => { x with carried := Function.update x.carried (acquire x.center).2 call }
  | .tryPush call _ =>
      if x.center.m_queue.length < MC_FAST_QUEUE_SIZE then { x with pushed := x.pushed ++ [call] }
      else x
  | _ => x

/-- What the audit notes at a step of the dispatch thread. -/
def Audited.noteDispatch (x : Audited Tid) : Audited Tid :=
  match x.center.dispatcher with
  | .dispatch _ msg =>
      { x with current := some ⟨x.carried msg, x.observers (x.carried msg), []⟩ }
  | .observers _ _ args (some callback :: _) =>
      { x with current := x.current.map fun d => d.addSeen x.center callback args }
  | .reset _ _ =>
      { x with current := none, deliveries := x.deliveries ++ x.current.toList }
  | _ => x

def Audited.note (x : Audited Tid) : Action Tid → Audited Tid
  | .post _ args => { x with posted := x.posted ++ [args] }
  | .run t => x.noteRun (x.center.pc t)
  | .dispatcher => x.noteDispatch
  | _ => x

def Audited.withCenter (x : Audited Tid) (center : State Tid) : Audited Tid :=
  { x with center := center }

section
variable [DecidableEq Tid]

def audited (Tid : Type) [DecidableEq Tid] : Machine (Audited Tid) (Action Tid) where
  init := ⟨init, [], fun _ => 0, [], none, []⟩
  step x action := (step x.center action).map (x.note action).withCenter

end

/-! ### The law -/

/-- The callback gets the posted topic, size and bytes. -/
structure Seen.Faithful (seen : Seen) (args : PostArgs) : Prop where
  topicId : seen.topicId = args.topicId
  size : seen.size = args.size
  bytes : ∀ data, args.data = some data → ∀ i < args.size, seen.bytes i = some (data i)

/-- Each observer that was registered is called once, with what was posted. -/
structure Delivery.Faithful (d : Delivery) (args : PostArgs) : Prop where
  once : d.seen.map Seen.callback = callbacks d.registered
  faithful : ∀ seen ∈ d.seen, seen.Faithful args

/-- The posts whose message has left the ring, in order. -/
def Audited.dispatched (x : Audited Tid) : List Nat :=
  x.deliveries.map Delivery.call ++
    match x.center.dispatcher with
    | .dispatch _ msg => [x.carried msg]
    | _ => x.current.toList.map Delivery.call

/-! ### What a message holds -/

variable {s next : State Tid} {args : PostArgs} {msg : Addr}

/-- The message as `build` leaves it. -/
structure Filled (s : State Tid) (args : PostArgs) (msg : Addr) : Prop where
  topicId : (s.objects msg).topicId = args.topicId
  size : (s.objects msg).size = args.size % 2 ^ 32
  mark : (s.objects msg).hasBlock = true ↔ MC_FAST_INLINE_SIZE < args.size
  inlined : args.size ≤ MC_FAST_INLINE_SIZE → ∀ data, args.data = some data →
    ∀ i < args.size, (s.objects msg).inlineData i = some (data i)

/-- The message as it is pushed: a large payload is in a block. -/
structure Loaded (s : State Tid) (args : PostArgs) (msg : Addr) : Prop extends
    Filled s args msg where
  stored : MC_FAST_INLINE_SIZE < args.size → ∃ block stored,
    (s.objects msg).managedData = some block ∧ s.blocks block = some stored ∧
      ∀ data, args.data = some data → ∀ i < args.size, stored.bytes i = some (data i)

/-- The data pointer of a message leads to the posted bytes. -/
theorem Loaded.bytes (h : Loaded s args msg) (data : Nat → UInt8) (hdata : args.data = some data)
    (i : Nat) (hi : i < args.size) :
    s.bytes ((s.objects msg).data msg) i = some (data i) := by
  rw [MessageFast.data]
  by_cases hlarge : MC_FAST_INLINE_SIZE < args.size
  · obtain ⟨block, stored, hmanaged, hblock, hbytes⟩ := h.stored hlarge
    rw [if_pos (h.mark.mpr hlarge), hmanaged]
    simpa only [State.bytes, hblock] using hbytes data hdata i hi
  · have hmark : ¬(s.objects msg).hasBlock = true := fun hmark => hlarge (h.mark.mp hmark)
    rw [if_neg hmark]
    exact h.inlined (Nat.le_of_not_lt hlarge) data hdata i hi

/-- The object of a message and its block are those of before. -/
structure Kept (s next : State Tid) (msg : Addr) : Prop where
  object : next.objects msg = s.objects msg
  block : ∀ block, (s.objects msg).managedData = some block → next.blocks block = s.blocks block

theorem Filled.kept (h : Filled s args msg) (hkept : Kept s next msg) : Filled next args msg where
  topicId := hkept.object ▸ h.topicId
  size := hkept.object ▸ h.size
  mark := hkept.object ▸ h.mark
  inlined := hkept.object ▸ h.inlined

theorem Loaded.kept (h : Loaded s args msg) (hkept : Kept s next msg) : Loaded next args msg where
  toFilled := h.toFilled.kept hkept
  stored hlarge := by
    obtain ⟨block, stored, hmanaged, hblock, hbytes⟩ := h.stored hlarge
    exact ⟨block, stored, hkept.object ▸ hmanaged, (hkept.block block hmanaged).trans hblock, hbytes⟩

theorem filled_build (s : State Tid) (args : PostArgs) (msg : Addr) :
    Filled (build s args msg) args msg := by
  by_cases hsmall : args.size ≤ MC_FAST_INLINE_SIZE
  · rw [build, if_pos hsmall]
    refine ⟨?_, ?_, ?_, fun _ data hdata i hi => ?_⟩
    · simp [State.setObject]
    · simp [State.setObject]
    · simp [State.setObject, hasBlock_of_zero, hsmall]
    · simp [State.setObject, hdata, memcpy, hi]
  · rw [build, if_neg hsmall]
    refine ⟨?_, ?_, ?_, fun hle => absurd hle hsmall⟩
    · simp [State.setObject]
    · simp [State.setObject]
    · simp [State.setObject, hasBlock_of_one, Nat.lt_of_not_le hsmall]

theorem Filled.loaded (h : Filled s args msg) (hsmall : args.size ≤ MC_FAST_INLINE_SIZE) :
    Loaded s args msg :=
  ⟨h, fun hlarge => absurd hsmall (Nat.not_le.mpr hlarge)⟩

theorem Filled.allocate (h : Filled s args msg) (call : Nat) :
    Loaded (allocate s call args msg) args msg where
  topicId := by simpa [Blocks.allocate, State.record, State.setObject] using h.topicId
  size := by simpa [Blocks.allocate, State.record, State.setObject] using h.size
  mark := by
    simpa [Blocks.allocate, State.record, State.setObject, MessageFast.hasBlock] using h.mark
  inlined := by simpa [Blocks.allocate, State.record, State.setObject] using h.inlined
  stored _ := by
    refine ⟨s.nextBlock, _, ?_, Function.update_self .., fun data hdata i hi => ?_⟩
    · simp [Blocks.allocate, State.record, State.setObject]
    · simp [hdata, memcpy, hi]

/-! ### Messages that nobody touches -/

theorem Kept.trans {last : State Tid} (hfirst : Kept s next msg) (hsecond : Kept next last msg) :
    Kept s last msg where
  object := hsecond.object.trans hfirst.object
  block block hmanaged :=
    (hsecond.block block (hfirst.object ▸ hmanaged)).trans (hfirst.block block hmanaged)

theorem setObject_kept {other : Addr} (hne : msg ≠ other) (object : MessageFast) :
    Kept s (s.setObject other object) msg :=
  ⟨Function.update_of_ne hne _ _, fun _ _ => rfl⟩

theorem acquire_kept (hmade : msg < s.nextAddr) : Kept s (acquire s).1 msg := by
  rw [acquire]
  split
  · exact ⟨rfl, fun _ _ => rfl⟩
  · exact ⟨Function.update_of_ne (Nat.ne_of_lt hmade) _ _, fun _ _ => rfl⟩

theorem release_kept (other : Addr) : Kept s (release s other) msg := by
  rw [release]
  split <;> exact ⟨rfl, fun _ _ => rfl⟩

theorem build_kept {other : Addr} (hne : msg ≠ other) : Kept s (build s args other) msg := by
  rw [build]
  split <;> exact setObject_kept hne _

theorem Inv.live_of_managed (hinv : Inv s) {block : BlockId}
    (hmanaged : (s.objects msg).managedData = some block) : (s.blocks block).isSome = true :=
  hinv.depot.live_iff.mpr ⟨msg, hmanaged⟩

theorem allocate_kept (hinv : Inv s) {call : Nat} {other : Addr} (hne : msg ≠ other) :
    Kept s (allocate s call args other) msg where
  object := Function.update_of_ne hne _ _
  block block hmanaged := by
    have hlt : block < s.nextBlock := hinv.depot.old block (hinv.live_of_managed hmanaged)
    exact Function.update_of_ne (Nat.ne_of_lt hlt) _ _

/-- `reset` frees the block of its own message. -/
theorem reset_kept (hinv : Inv s) {caller : Option Nat} {other : Addr} (hne : msg ≠ other) :
    Kept s (reset s caller other) msg := by
  rw [reset]
  split
  · next freed hfreed =>
    refine ⟨Function.update_of_ne hne _ _, fun block hmanaged => ?_⟩
    have hblock : block ≠ freed := by
      rintro rfl
      exact hne (hinv.depot.carrier_unique hmanaged hfreed)
    exact Function.update_of_ne hblock _ _
  · exact setObject_kept hne _

section
variable [DecidableEq Tid] {t : Tid}

theorem goto_kept (pc : Pc) : Kept s (s.goto t pc) msg := ⟨rfl, fun _ _ => rfl⟩

/-- A step of a post keeps the messages that its thread has not in hand. -/
theorem run_kept (hinv : Inv s) (hrun : run s t = some next) (hmade : msg < s.nextAddr)
    (hnot : msg ∉ (s.pc t).hand.carriers) : Kept s next msg := by
  rw [run] at hrun
  cases hpc : s.pc t with
  | idle => simp [hpc] at hrun
  | acquire call args =>
      simp only [hpc, Option.some.injEq] at hrun
      exact hrun ▸ (acquire_kept hmade).trans (goto_kept _)
  | build call args other =>
      simp only [hpc, Option.some.injEq] at hrun
      rw [hpc] at hnot
      exact hrun ▸ (build_kept (List.ne_of_not_mem_cons hnot)).trans (goto_kept _)
  | allocate call args other =>
      simp only [hpc, Option.some.injEq] at hrun
      rw [hpc] at hnot
      exact hrun ▸ (allocate_kept hinv (List.ne_of_not_mem_cons hnot)).trans (goto_kept _)
  | tryPush call other =>
      simp only [hpc] at hrun
      split at hrun <;> exact Option.some.inj hrun ▸ ⟨rfl, fun _ _ => rfl⟩
  | countPosted call =>
      simp only [hpc, Option.some.injEq] at hrun
      exact hrun ▸ ⟨rfl, fun _ _ => rfl⟩
  | reset call other =>
      simp only [hpc, Option.some.injEq] at hrun
      rw [hpc] at hnot
      exact hrun ▸ (reset_kept hinv (List.ne_of_not_mem_cons hnot)).trans (goto_kept _)
  | release call other =>
      simp only [hpc, Option.some.injEq] at hrun
      exact hrun ▸ (release_kept other).trans (⟨rfl, fun _ _ => rfl⟩)

end

theorem dispatchAt_kept (pc : DispatchPc) : Kept s (s.dispatchAt pc) msg := ⟨rfl, fun _ _ => rfl⟩

/-- The same for the dispatch thread, which writes only at `reset`. -/
theorem dispatchLoop_kept (hinv : Inv s) (hdispatch : dispatchLoop s = some next)
    (hnot : ∀ draining, s.dispatcher ≠ .reset draining msg) : Kept s next msg := by
  rw [dispatchLoop] at hdispatch
  cases hpc : s.dispatcher with
  | off => simp [hpc] at hdispatch
  | tryPop draining =>
      simp only [hpc] at hdispatch
      split at hdispatch <;> exact Option.some.inj hdispatch ▸ ⟨rfl, fun _ _ => rfl⟩
  | dispatch draining other =>
      simp only [hpc, Option.some.injEq] at hdispatch
      rw [← hdispatch, dispatch]
      split <;> exact dispatchAt_kept _
  | observers draining other args rest =>
      rcases rest with _ | ⟨_ | callback, rest⟩ <;>
        simp only [hpc, Option.some.injEq] at hdispatch <;> exact hdispatch ▸ dispatchAt_kept _
  | reset draining other =>
      simp only [hpc, Option.some.injEq] at hdispatch
      have hne : msg ≠ other := by
        rintro rfl
        exact hnot draining hpc
      exact hdispatch ▸ (reset_kept hinv hne).trans (dispatchAt_kept _)
  | release draining other =>
      simp only [hpc, Option.some.injEq] at hdispatch
      exact hdispatch ▸ (release_kept other).trans (dispatchAt_kept _)
  | _ =>
      simp only [hpc, Option.some.injEq] at hdispatch
      exact hdispatch ▸ ⟨rfl, fun _ _ => rfl⟩

end MessageCenter.MessageCenterFast.Blocks
