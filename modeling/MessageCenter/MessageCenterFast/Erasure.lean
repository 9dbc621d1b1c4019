import MessageCenter.MessageCenterFast.Fidelity

/-!
# `MessageCenterFast` without the payload bytes

Erasure forgets the bytes: of the arguments of `post`, of the inline data, of the blocks and
of what the audit has seen.  A step of the erased machine does what the step does, so the
bytes decide nothing but bytes, and two runs whose calls differ in bytes alone stay the same
after erasure.
-/

namespace MessageCenter.MessageCenterFast.Blocks

open Concurrency
open Topics (MC_FAST_QUEUE_SIZE)

variable {Tid : Type}

/-! ### Erasure -/

def PostArgs.erase (args : PostArgs) : PostArgs := { args with data := args.data.map fun _ _ => 0 }

def Pc.erase : Pc → Pc
  | .acquire call args => .acquire call args.erase
  | .build call args msg => .build call args.erase msg
  | .allocate call args msg => .allocate call args.erase msg
  | .idle => .idle
  | .tryPush call msg => .tryPush call msg
  | .countPosted call => .countPosted call
  | .reset call msg => .reset call msg
  | .release call msg => .release call msg

def noBytes : Bytes := fun _ => none

def MessageFast.erase (msg : MessageFast) : MessageFast := { msg with inlineData := noBytes }

def Block.erase (block : Block) : Block := { block with bytes := noBytes }

def State.erase (s : State Tid) : State Tid :=
  { s with
    objects := fun msg => (s.objects msg).erase
    blocks := fun block => (s.blocks block).map Block.erase
    pc := fun t => (s.pc t).erase }

def Action.erase : Action Tid → Action Tid
  | .post t args => .post t args.erase
  | action => action

def Seen.erase (seen : Seen) : Seen := { seen with bytes := noBytes }

def Delivery.erase (d : Delivery) : Delivery := { d with seen := d.seen.map Seen.erase }

/-! ### The operations -/

/-- The states differ in bytes alone. -/
def Alike (s s' : State Tid) : Prop := s.erase = s'.erase

variable {s s' : State Tid} {args args' : PostArgs} {msg : Addr}

/-- An operation that does not touch what erasure forgets. -/
theorem Alike.map (h : Alike s s') (f : State Tid → State Tid)
    (hf : ∀ s, (f s).erase = f s.erase) : Alike (f s) (f s') := by
  rw [Alike, hf, hf, h]

/-- A field that erasure keeps. -/
theorem Alike.field {α : Type} (h : Alike s s') (f : State Tid → α) : f s.erase = f s'.erase :=
  congrArg f h

theorem Alike.object (h : Alike s s') (msg : Addr) :
    (s.objects msg).erase = (s'.objects msg).erase :=
  h.field fun s => s.objects msg

theorem Alike.managedData (h : Alike s s') (msg : Addr) :
    (s.objects msg).managedData = (s'.objects msg).managedData :=
  h.field fun s => (s.objects msg).managedData

theorem Alike.pc (h : Alike s s') (t : Tid) : (s.pc t).erase = (s'.pc t).erase :=
  h.field fun s => s.pc t

theorem Alike.dispatcher (h : Alike s s') : s.dispatcher = s'.dispatcher :=
  h.field State.dispatcher

theorem Alike.m_queue (h : Alike s s') : s.m_queue = s'.m_queue := h.field State.m_queue

theorem Alike.nextCall (h : Alike s s') : s.nextCall = s'.nextCall := h.field State.nextCall

theorem erase_setObject (s : State Tid) (msg : Addr) (object : MessageFast) :
    (s.setObject msg object).erase = s.erase.setObject msg object.erase := by
  have hobjects := Function.comp_update MessageFast.erase s.objects msg object
  simp only [State.erase, State.setObject] at hobjects ⊢
  congr 1

theorem Alike.setObject (h : Alike s s') (msg : Addr) {object object' : MessageFast}
    (hobject : object.erase = object'.erase) :
    Alike (s.setObject msg object) (s'.setObject msg object') := by
  rw [Alike, erase_setObject, erase_setObject, h, hobject]

/-- A block is stored at the same place. -/
theorem Alike.setBlock (h : Alike s s') (block : BlockId) (stored stored' : Option Block)
    (hstored : stored.map Block.erase = stored'.map Block.erase) :
    Alike { s with blocks := Function.update s.blocks block stored }
      { s' with blocks := Function.update s'.blocks block stored' } := by
  have hblocks : ∀ s : State Tid, ∀ stored : Option Block,
      ({ s with blocks := Function.update s.blocks block stored } : State Tid).erase =
        { s.erase with blocks := Function.update s.erase.blocks block (stored.map Block.erase) } := by
    intro s stored
    have hupdate := Function.comp_update (Option.map Block.erase) s.blocks block stored
    simp only [State.erase]
    congr 1
  rw [Alike, hblocks, hblocks, h, hstored]

theorem Alike.acquire (h : Alike s s') :
    Alike (acquire s).1 (acquire s').1 ∧ (acquire s).2 = (acquire s').2 := by
  have hfree : s.m_freeList = s'.m_freeList := h.field State.m_freeList
  have hnext : s.nextAddr = s'.nextAddr := h.field State.nextAddr
  cases hlist : s'.m_freeList with
  | nil =>
      have hmake : ∀ s : State Tid, s.m_freeList = [] → Blocks.acquire s =
          ({ s.setObject s.nextAddr .construct with
            m_allocated := s.m_allocated + 1
            nextAddr := s.nextAddr + 1 }, s.nextAddr) := by
        intro s hnil
        simp only [Blocks.acquire, hnil]
      rw [hmake s (hfree.trans hlist), hmake s' hlist]
      have hset : Alike (s.setObject s.nextAddr .construct) (s'.setObject s'.nextAddr .construct) := by
        rw [hnext]
        exact h.setObject _ rfl
      exact ⟨hset.map (fun s => { s with
        m_allocated := s.m_allocated + 1
        nextAddr := s.nextAddr + 1 }) fun _ => rfl, hnext⟩
  | cons first rest =>
      have htake : ∀ s : State Tid, s.m_freeList = first :: rest →
          Blocks.acquire s = ({ s with m_freeList := rest }, first) := by
        intro s hcons
        simp only [Blocks.acquire, hcons]
      rw [htake s (hfree.trans hlist), htake s' hlist]
      exact ⟨h.map (fun s => { s with m_freeList := rest }) fun _ => rfl, rfl⟩

theorem Alike.release (h : Alike s s') (msg : Addr) : Alike (release s msg) (release s' msg) := by
  refine h.map (fun s => Blocks.release s msg) fun s => ?_
  by_cases hfull : s.m_allocated > m_maxSize
  · have hfull' : s.erase.m_allocated > m_maxSize := hfull
    simp only [Blocks.release, if_pos hfull, if_pos hfull']
    rfl
  · have hfull' : ¬s.erase.m_allocated > m_maxSize := hfull
    simp only [Blocks.release, if_neg hfull, if_neg hfull']
    rfl

/-- The arguments differ in bytes alone. -/
def PostArgs.Alike (args args' : PostArgs) : Prop := args.erase = args'.erase

theorem PostArgs.Alike.field {α : Type} (hargs : args.Alike args') (f : PostArgs → α) :
    f args.erase = f args'.erase :=
  congrArg f hargs

theorem PostArgs.Alike.topicId (hargs : args.Alike args') : args.topicId = args'.topicId :=
  hargs.field PostArgs.topicId

theorem PostArgs.Alike.size (hargs : args.Alike args') : args.size = args'.size :=
  hargs.field PostArgs.size

theorem Alike.build (h : Alike s s') (hargs : args.Alike args') (msg : Addr) :
    Alike (build s args msg) (build s' args' msg) := by
  have hobject := h.object msg
  simp only [MessageFast.erase, MessageFast.mk.injEq] at hobject
  obtain ⟨-, -, -, -, hmanaged, hcount⟩ := hobject
  simp only [Blocks.build, hargs.size, hargs.topicId]
  split <;> exact h.setObject msg (by simp only [MessageFast.erase, hmanaged, hcount])

theorem Alike.record (h : Alike s s') (caller : Option Nat) (effect : Effect) :
    Alike (s.record caller effect) (s'.record caller effect) :=
  h.map (fun s => s.record caller effect) fun _ => rfl

theorem Alike.allocate (h : Alike s s') (hargs : args.Alike args') (call : Nat) (msg : Addr) :
    Alike (allocate s call args msg) (allocate s' call args' msg) := by
  have hblock : s.nextBlock = s'.nextBlock := h.field State.nextBlock
  have hobject : ({ s.objects msg with managedData := some s'.nextBlock } : MessageFast).erase =
      ({ s'.objects msg with managedData := some s'.nextBlock } : MessageFast).erase :=
    h.field fun s => { s.objects msg with managedData := some s'.nextBlock }
  have hset := h.setObject msg hobject
  have hstored : ∀ bytes bytes' : Bytes,
      (some (Block.mk args.size bytes)).map Block.erase =
        (some (Block.mk args'.size bytes')).map Block.erase := by
    intro bytes bytes'
    rw [hargs.size]
    rfl
  simp only [Blocks.allocate, hblock]
  refine Alike.record ?_ (some call) (.malloc s'.nextBlock)
  exact (hset.setBlock s'.nextBlock _ _ (hstored _ _)).map
    (fun s => { s with nextBlock := s'.nextBlock + 1 }) fun _ => rfl

theorem Alike.free (h : Alike s s') (caller : Option Nat) (block : BlockId) :
    Alike (free s caller block) (free s' caller block) :=
  ((h.setBlock block none none rfl).map
    (fun s => { s with freed := block :: s.freed }) fun _ => rfl).record caller (.free block)

theorem Alike.reset (h : Alike s s') (caller : Option Nat) (msg : Addr) :
    Alike (reset s caller msg) (reset s' caller msg) := by
  have hmanaged := h.managedData msg
  have hclear : ({ s.objects msg with
        managedData := none, topicId := 0, flags := 0, size := 0, refCount := 0 } :
      MessageFast).erase = ({ s'.objects msg with
        managedData := none, topicId := 0, flags := 0, size := 0, refCount := 0 } :
      MessageFast).erase := rfl
  cases hblock : (s'.objects msg).managedData with
  | none =>
      rw [hblock] at hmanaged
      simp only [Blocks.reset, hmanaged, hblock]
      exact h.setObject msg hclear
  | some block =>
      rw [hblock] at hmanaged
      simp only [Blocks.reset, hmanaged, hblock]
      exact (h.free caller block).setObject msg hclear

/-! ### The steps -/

theorem Alike.dispatchAt (h : Alike s s') (pc : DispatchPc) :
    Alike (s.dispatchAt pc) (s'.dispatchAt pc) :=
  h.map (fun s => s.dispatchAt pc) fun _ => rfl

theorem Alike.push (h : Alike s s') (call : Nat) (msg : Addr) :
    Alike (push s call msg) (push s' call msg) :=
  h.map (fun s => Blocks.push s call msg) fun _ => rfl

theorem Alike.dispatch (h : Alike s s') (draining : Bool) (msg : Addr) :
    Alike (dispatch s draining msg) (dispatch s' draining msg) := by
  have htopic : (s.objects msg).topicId = (s'.objects msg).topicId :=
    h.field fun s => (s.objects msg).topicId
  have hsize : (s.objects msg).size = (s'.objects msg).size :=
    h.field fun s => (s.objects msg).size
  have hdata : (s.objects msg).data msg = (s'.objects msg).data msg :=
    h.field fun s => (s.objects msg).data msg
  have hobservers : s.m_observers = s'.m_observers := h.field State.m_observers
  simp only [Blocks.dispatch, htopic, hsize, hdata, hobservers]
  split <;> exact h.dispatchAt _

/-- The dispatch threads do the same. -/
theorem Alike.dispatchLoop (h : Alike s s') :
    Option.Rel Alike (dispatchLoop s) (dispatchLoop s') := by
  have hpc := h.dispatcher
  rw [Blocks.dispatchLoop, Blocks.dispatchLoop]
  cases hat : s'.dispatcher with
  | off => simp only [hpc, hat]; exact .none
  | testStopping =>
      have hstopping : s.m_stopping = s'.m_stopping := h.field State.m_stopping
      simp only [hpc, hat, hstopping]
      exact .some (h.dispatchAt _)
  | tryPop draining =>
      simp only [hpc, hat, h.m_queue]
      split
      · exact .some ((h.map (fun s => pop s _) fun _ => rfl).dispatchAt _)
      · exact .some (h.dispatchAt _)
  | dispatch draining msg =>
      simp only [hpc, hat]
      exact .some (h.dispatch draining msg)
  | observers draining msg args rest =>
      rcases rest with _ | ⟨_ | callback, rest⟩ <;> simp only [hpc, hat] <;>
        exact .some (h.dispatchAt _)
  | callback draining msg args rest =>
      simp only [hpc, hat]
      exact .some (h.dispatchAt _)
  | reset draining msg =>
      simp only [hpc, hat]
      exact .some ((h.reset none msg).dispatchAt _)
  | release draining msg =>
      simp only [hpc, hat]
      exact .some ((h.release msg).dispatchAt _)
  | countDispatched draining =>
      simp only [hpc, hat]
      exact .some ((h.map countDispatched fun _ => rfl).dispatchAt _)

/-- A thread that is in no post in one state is in none in the other. -/
theorem Alike.idle_iff (h : Alike s s') (t : Tid) : s.pc t = .idle ↔ s'.pc t = .idle := by
  have herase : ∀ pc : Pc, pc = .idle ↔ pc.erase = .idle := by
    intro pc
    cases pc <;> simp [Pc.erase]
  rw [herase (s.pc t), herase (s'.pc t), h.pc]

/-- The calls differ in bytes alone. -/
def Action.Alike (action action' : Action Tid) : Prop := action.erase = action'.erase

/-- The rest of the actions are the same. -/
theorem Action.Alike.cases {action action' : Action Tid} (h : action.Alike action') :
    action' = action ∨ ∃ t args args', action = .post t args ∧ action' = .post t args' ∧
      args.Alike args' := by
  unfold Action.Alike at h
  cases action <;> cases action' <;> simp only [Action.erase, reduceCtorEq] at h
  case post.post t args t' args' =>
    obtain ⟨rfl, hargs⟩ := Action.post.inj h
    exact .inr ⟨t, args, args', rfl, rfl, hargs⟩
  all_goals first | exact .inl rfl | exact .inl h.symm

section
variable [DecidableEq Tid]

theorem Alike.goto (h : Alike s s') (t : Tid) {pc pc' : Pc} (hpc : pc.erase = pc'.erase) :
    Alike (s.goto t pc) (s'.goto t pc') := by
  have hgoto : ∀ s : State Tid, ∀ pc : Pc, (s.goto t pc).erase = s.erase.goto t pc.erase := by
    intro s pc
    have hupdate := Function.comp_update Pc.erase s.pc t pc
    simp only [State.erase, State.goto]
    congr 1
  rw [Alike, hgoto, hgoto, h, hpc]

/-- A thread does the same, with its own bytes. -/
theorem Alike.run (h : Alike s s') (t : Tid) : Option.Rel Alike (run s t) (run s' t) := by
  have hpc := h.pc t
  rw [Blocks.run, Blocks.run]
  cases hat : s.pc t with
  | idle =>
      rw [hat] at hpc
      cases hat' : s'.pc t <;> simp only [hat', Pc.erase, reduceCtorEq] at hpc
      exact .none
  | acquire call args =>
      rw [hat] at hpc
      cases hat' : s'.pc t <;> simp only [hat', Pc.erase, reduceCtorEq, Pc.acquire.injEq] at hpc
      next call' args' =>
      obtain ⟨rfl, hargs⟩ := hpc
      obtain ⟨hstate, hmsg⟩ := h.acquire
      simp only [hmsg]
      exact .some (hstate.goto t (by simp only [Pc.erase, hargs]))
  | build call args msg =>
      rw [hat] at hpc
      cases hat' : s'.pc t <;> simp only [hat', Pc.erase, reduceCtorEq, Pc.build.injEq] at hpc
      next call' args' msg' =>
      obtain ⟨rfl, hargs, rfl⟩ := hpc
      have hargs : args.Alike args' := hargs
      simp only [hargs.size]
      refine .some ((h.build hargs msg).goto t ?_)
      split
      · rfl
      · exact congrArg (fun args => Pc.allocate call args msg) hargs
  | allocate call args msg =>
      rw [hat] at hpc
      cases hat' : s'.pc t <;> simp only [hat', Pc.erase, reduceCtorEq, Pc.allocate.injEq] at hpc
      next call' args' msg' =>
      obtain ⟨rfl, hargs, rfl⟩ := hpc
      exact .some ((h.allocate hargs call msg).goto t rfl)
  | tryPush call msg =>
      rw [hat] at hpc
      cases hat' : s'.pc t <;> simp only [hat', Pc.erase, reduceCtorEq, Pc.tryPush.injEq] at hpc
      obtain ⟨rfl, rfl⟩ := hpc
      simp only [h.m_queue]
      split
      · exact .some ((h.push call msg).goto t rfl)
      · exact .some (h.goto t rfl)
  | countPosted call =>
      rw [hat] at hpc
      cases hat' : s'.pc t <;> simp only [hat', Pc.erase, reduceCtorEq, Pc.countPosted.injEq] at hpc
      obtain rfl := hpc
      exact .some ((h.map (fun s => countPosted s call) fun _ => rfl).goto t rfl)
  | reset call msg =>
      rw [hat] at hpc
      cases hat' : s'.pc t <;> simp only [hat', Pc.erase, reduceCtorEq, Pc.reset.injEq] at hpc
      obtain ⟨rfl, rfl⟩ := hpc
      exact .some ((h.reset (some call) msg).goto t rfl)
  | release call msg =>
      rw [hat] at hpc
      cases hat' : s'.pc t <;> simp only [hat', Pc.erase, reduceCtorEq, Pc.release.injEq] at hpc
      obtain ⟨rfl, rfl⟩ := hpc
      exact .some (((h.release msg).goto t rfl).map (fun s => refuse s call) fun _ => rfl)

theorem Alike.post (h : Alike s s') (t : Tid) (hargs : args.Alike args') :
    Alike (post s t args) (post s' t args') := by
  have hcount := h.map (fun s => { s with nextCall := s'.nextCall + 1 }) fun _ => rfl
  simp only [Blocks.post, h.nextCall, hargs.topicId]
  split
  · exact hcount.map (fun s => refuse s s'.nextCall) fun _ => rfl
  · exact hcount.goto t (congrArg (fun args => Pc.acquire s'.nextCall args) hargs)

/-- Steps of alike calls lead from alike states to alike states. -/
theorem Alike.step (h : Alike s s') {action action' : Action Tid} (haction : action.Alike action') :
    Option.Rel Alike (step s action) (step s' action') := by
  have hpost : ∀ t args args', args.Alike args' →
      Option.Rel Alike (Blocks.step s (.post t args)) (Blocks.step s' (.post t args')) := by
    intro t args args' hargs
    by_cases hidle : s.pc t = .idle
    · simp only [Blocks.step, hidle, (h.idle_iff t).mp hidle]
      exact .some (h.post t hargs)
    · have hnone : ∀ s : State Tid, ∀ args, s.pc t ≠ .idle →
          Blocks.step s (.post t args) = none := by
        intro s args hne
        simp only [Blocks.step]
      rw [hnone s args hidle, hnone s' args' fun heq => hidle ((h.idle_iff t).mpr heq)]
      exact .none
  rcases haction.cases with rfl | ⟨t, args, args', rfl, rfl, hargs⟩
  · cases action' with
    | run t => exact h.run t
    | dispatcher => exact h.dispatchLoop
    | post t args => exact hpost t args args rfl
    | addObserver topicId callback =>
        simp only [Blocks.step, h.dispatcher]
        split
        · exact .none
        · refine .some (h.map (fun s => Blocks.addObserver s topicId callback) fun s => ?_)
          simp only [Blocks.addObserver]
          split <;> rfl
    | start =>
        simp only [Blocks.step, h.dispatcher]
        split
        · exact .some (h.map (fun s => { s with
            m_stopping := false
            dispatcher := .testStopping }) fun _ => rfl)
        · exact .some h
    | stop =>
        simp only [Blocks.step]
        by_cases hoff : s'.dispatcher = .off
        · rw [if_pos hoff, if_pos (h.dispatcher.trans hoff)]
          exact .some h
        · rw [if_neg hoff, if_neg fun heq => hoff (h.dispatcher.symm.trans heq)]
          exact .some (h.map (fun s => { s with m_stopping := true }) fun _ => rfl)
  · exact hpost t args args' hargs

end

/-! ### The audit -/

/-- The audits have seen the same, apart from bytes. -/
structure Audited.Alike (x y : Audited Tid) : Prop where
  center : Blocks.Alike x.center y.center
  posted : x.posted.map PostArgs.erase = y.posted.map PostArgs.erase
  carried : x.carried = y.carried
  pushed : x.pushed = y.pushed
  current : x.current.map Delivery.erase = y.current.map Delivery.erase
  deliveries : x.deliveries.map Delivery.erase = y.deliveries.map Delivery.erase

variable {x y : Audited Tid}

theorem Audited.Alike.observers (h : x.Alike y) (call : Nat) :
    x.observers call = y.observers call := by
  have hposted : (x.posted[call]?).map PostArgs.erase = (y.posted[call]?).map PostArgs.erase := by
    rw [← List.getElem?_map, ← List.getElem?_map, h.posted]
  have hobservers : x.center.m_observers = y.center.m_observers := h.center.field State.m_observers
  rw [Audited.observers, Audited.observers, hobservers]
  cases hx : x.posted[call]? with
  | none =>
      rw [hx] at hposted
      rw [Option.map_eq_none_iff.mp hposted.symm]
  | some args =>
      rw [hx] at hposted
      obtain ⟨args', hy, herase⟩ := Option.map_eq_some_iff.mp hposted.symm
      have hargs : args'.Alike args := herase
      simp only [hy, hargs.topicId]

theorem erase_addSeen (d : Delivery) (s : State Tid) (callback : Nat) (args : CallArgs) :
    (d.addSeen s callback args).erase =
      { d.erase with seen := d.erase.seen ++ [⟨callback, args.topicId, args.size, noBytes⟩] } := by
  simp [Delivery.addSeen, Delivery.erase, Seen.erase]

theorem Audited.Alike.noteDispatch (h : x.Alike y) : x.noteDispatch.Alike y.noteDispatch := by
  have hpc := h.center.dispatcher
  rw [Audited.noteDispatch, Audited.noteDispatch, hpc]
  split
  · next draining msg _ =>
    refine { h with current := ?_ }
    rw [h.carried, h.observers]
  · next draining msg args callback rest _ =>
    refine { h with current := ?_ }
    have hcurrent := h.current
    cases hx : x.current <;> cases hy : y.current <;> rw [hx, hy] at hcurrent
    · rfl
    · cases hcurrent
    · cases hcurrent
    · have hd := Option.some.inj hcurrent
      simp only [Option.map_some, Option.some.injEq] at hd ⊢
      rw [erase_addSeen, erase_addSeen, hd]
  · refine { h with current := rfl, deliveries := ?_ }
    have hcurrent : x.current.toList.map Delivery.erase = y.current.toList.map Delivery.erase := by
      rw [← Option.toList_map, ← Option.toList_map, h.current]
    simp only [List.map_append, h.deliveries, hcurrent]
  · exact h

theorem noteRun_erase (pc : Pc) : x.noteRun pc = x.noteRun pc.erase := by
  cases pc <;> rfl

theorem Audited.Alike.noteRun (h : x.Alike y) (t : Tid) :
    (x.noteRun (x.center.pc t)).Alike (y.noteRun (y.center.pc t)) := by
  rw [noteRun_erase, noteRun_erase (x := y), h.center.pc]
  cases (y.center.pc t).erase with
  | acquire call args =>
      refine { h with carried := ?_ }
      simp only [Audited.noteRun, h.carried, h.center.acquire.2]
  | tryPush call msg =>
      simp only [Audited.noteRun, h.center.m_queue]
      split
      · exact { h with pushed := by rw [h.pushed] }
      · exact h
  | _ => exact h

theorem Audited.Alike.note (h : x.Alike y) {action action' : Action Tid}
    (haction : action.Alike action') : (x.note action).Alike (y.note action') := by
  rcases haction.cases with rfl | ⟨t, args, args', rfl, rfl, hargs⟩
  · cases action' with
    | run t => exact h.noteRun t
    | dispatcher => exact h.noteDispatch
    | post t args => exact { h with posted := by simp only [Audited.note, List.map_append, h.posted] }
    | addObserver topicId callback => exact h
    | start => exact h
    | stop => exact h
  · have herase : args.erase = args'.erase := hargs
    exact { h with posted := by simp [Audited.note, h.posted, herase] }

section
variable [DecidableEq Tid]

theorem Audited.Alike.step (h : x.Alike y) {action action' : Action Tid}
    (haction : action.Alike action') :
    Option.Rel Audited.Alike ((audited Tid).step x action) ((audited Tid).step y action') := by
  have hnote := h.note haction
  have hrel := h.center.step haction
  simp only [audited]
  cases hx : Blocks.step x.center action <;> cases hy : Blocks.step y.center action' <;>
    rw [hx, hy] at hrel <;> cases hrel
  · exact .none
  · next hnext => exact .some { hnote with center := hnext }

/-- Runs whose calls differ in bytes alone. -/
theorem Audited.Alike.run (h : x.Alike y) {actions actions' : List (Action Tid)}
    (hactions : List.Forall₂ Action.Alike actions actions') {last last' : Audited Tid}
    (hrun : (audited Tid).run x actions = some last)
    (hrun' : (audited Tid).run y actions' = some last') : last.Alike last' := by
  induction hactions generalizing x y with
  | nil =>
      obtain rfl := Option.some.inj hrun
      obtain rfl := Option.some.inj hrun'
      exact h
  | cons haction _ ih =>
      obtain ⟨next, hnext, hrest⟩ := Option.bind_eq_some_iff.mp hrun
      obtain ⟨next', hnext', hrest'⟩ := Option.bind_eq_some_iff.mp hrun'
      have hrel := h.step haction
      rw [hnext, hnext'] at hrel
      cases hrel with
      | some halike => exact ih halike hrest hrest'

theorem audited_alike {actions actions' : List (Action Tid)}
    (hactions : List.Forall₂ Action.Alike actions actions')
    (hrun : (audited Tid).run (audited Tid).init actions = some x)
    (hrun' : (audited Tid).run (audited Tid).init actions' = some y) : x.Alike y :=
  Audited.Alike.run ⟨rfl, rfl, rfl, rfl, rfl, rfl⟩ hactions hrun hrun'

end

/-! ### What the observers of one post receive -/

/-- The arguments of a callback, and the bytes that it can read. -/
def Seen.report (seen : Seen) : Nat × Nat × Nat × List (Option UInt8) :=
  (seen.callback, seen.topicId, seen.size, (List.range seen.size).map seen.bytes)

/-- The callbacks of a post so far. -/
def Audited.received (x : Audited Tid) (call : Nat) :
    List (Nat × Nat × Nat × List (Option UInt8)) :=
  ((x.deliveries ++ x.current.toList).filter (·.call = call)).flatMap fun d => d.seen.map Seen.report

/-- The byte `i` of the buffer. -/
def PostArgs.byte (args : PostArgs) (i : Nat) : Option UInt8 := args.data.map (· i)

theorem AuditInv.delivers (h : AuditInv x) {d : Delivery}
    (hmem : d ∈ x.deliveries ++ x.current.toList) : ∃ rest, x.Delivers d rest := by
  rcases List.mem_append.mp hmem with hfinished | hcurrent
  · exact ⟨[], h.finished d hfinished⟩
  · have hin := h.dispatcher
    have hd : x.current = some d := by simpa using hcurrent
    cases hpc : x.center.dispatcher <;> rw [hpc] at hin
    case observers draining msg args rest =>
      obtain ⟨-, -, d', hd', -, hdelivers⟩ := hin
      exact ⟨rest, Option.some.inj (hd.symm.trans hd') ▸ hdelivers⟩
    case callback draining msg args rest =>
      obtain ⟨-, -, d', hd', -, hdelivers⟩ := hin
      exact ⟨rest, Option.some.inj (hd.symm.trans hd') ▸ hdelivers⟩
    case reset draining msg =>
      obtain ⟨d', hd', hdelivers⟩ := hin
      exact ⟨[], Option.some.inj (hd.symm.trans hd') ▸ hdelivers⟩
    case dispatch draining msg => cases hd.symm.trans hin.2
    all_goals cases hd.symm.trans hin

/-- A callback of an inline post with a buffer reads the buffer. -/
theorem AuditInv.report (h : AuditInv x) {call : Nat} {args : PostArgs}
    (hargs : x.posted[call]? = some args) (hsmall : args.size ≤ MC_FAST_INLINE_SIZE)
    (hbuffer : args.data.isSome ∨ args.size = 0) {d : Delivery}
    (hmem : d ∈ x.deliveries ++ x.current.toList) (hcall : d.call = call) {seen : Seen}
    (hseen : seen ∈ d.seen) :
    seen.report =
      (seen.callback, seen.topicId, seen.size, (List.range args.size).map args.byte) := by
  obtain ⟨rest, args', hargs', -, hdelivers⟩ := h.delivers hmem
  obtain rfl : args' = args := by
    rw [hcall, hargs] at hargs'
    exact (Option.some.inj hargs').symm
  have hd := hdelivers seen hseen
  have hsize : seen.size = args'.size :=
    hd.size.trans (Nat.mod_eq_of_lt (Nat.lt_of_le_of_lt hsmall (by decide)))
  rw [Seen.report, hsize]
  congr 3
  apply List.map_congr_left
  intro i hi
  have hlt : i < args'.size := List.mem_range.mp hi
  rcases hbuffer with hsome | hzero
  · obtain ⟨data, hdata⟩ := Option.isSome_iff_exists.mp hsome
    rw [hd.bytes data hdata i hlt, PostArgs.byte, hdata]
    rfl
  · omega

/-- The callbacks of such a post are those of the erased audit, with the buffer. -/
theorem AuditInv.received (h : AuditInv x) {call : Nat} {args : PostArgs}
    (hargs : x.posted[call]? = some args) (hsmall : args.size ≤ MC_FAST_INLINE_SIZE)
    (hbuffer : args.data.isSome ∨ args.size = 0) :
    x.received call = (((x.deliveries ++ x.current.toList).map Delivery.erase).filter
      (·.call = call)).flatMap fun d => d.seen.map fun seen =>
        (seen.callback, seen.topicId, seen.size, (List.range args.size).map args.byte) := by
  rw [Audited.received, List.filter_map, List.flatMap_map]
  apply List.flatMap_congr
  intro d hd
  obtain ⟨hmem, hcall⟩ := List.mem_filter.mp hd
  rw [Delivery.erase, List.map_map]
  apply List.map_congr_left
  intro seen hseen
  exact h.report hargs hsmall hbuffer hmem (of_decide_eq_true hcall) hseen

/-- The posts pass the same, up to the end of the buffer. -/
structure PostArgs.Same (args args' : PostArgs) : Prop where
  alike : args.Alike args'
  bytes : ∀ i < args.size, args.byte i = args'.byte i

theorem received_same (h : x.Alike y) (hx : AuditInv x) (hy : AuditInv y) {call : Nat}
    {args args' : PostArgs} (hargs : x.posted[call]? = some args)
    (hargs' : y.posted[call]? = some args') (hsame : args.Same args')
    (hsmall : args.size ≤ MC_FAST_INLINE_SIZE) (hbuffer : args.data.isSome ∨ args.size = 0) :
    x.received call = y.received call := by
  have hsize := hsame.alike.size
  have hsome : args.data.isSome = args'.data.isSome := by
    have hdata := hsame.alike.field PostArgs.data
    simpa [PostArgs.erase] using congrArg Option.isSome hdata
  have hrow : (List.range args.size).map args.byte = (List.range args'.size).map args'.byte := by
    rw [← hsize]
    exact List.map_congr_left fun i hi => hsame.bytes i (List.mem_range.mp hi)
  have herase : (x.deliveries ++ x.current.toList).map Delivery.erase =
      (y.deliveries ++ y.current.toList).map Delivery.erase := by
    rw [List.map_append, List.map_append, h.deliveries, ← Option.toList_map, ← Option.toList_map,
      h.current]
  rw [hx.received hargs hsmall hbuffer, hy.received hargs' (hsize ▸ hsmall) (hsome ▸ hsize ▸ hbuffer),
    herase, hrow]

end MessageCenter.MessageCenterFast.Blocks
