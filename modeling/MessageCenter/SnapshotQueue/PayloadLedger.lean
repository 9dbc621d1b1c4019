import MessageCenter.Lib.Ledger
import MessageCenter.SnapshotQueue.Concurrent

/-!
# Who answers for a managed payload

Every live payload belongs to one message, and the place where that message is
answers for its references: one for each observer whose release has not run, or
the single one from `create` while `addRefs` is still to come.  The places are
the ring and the threads, and their tokens form a ledger of the reference counts
through every interleaving.
-/

namespace MessageCenter.SnapshotQueue.Concurrent

open Concurrency Accounting

variable {Thread : Type}

/-! ### Tokens -/

/-- The payload of a message with `refs` references. -/
def token (msg : SnapshotMessage) (refs : Int) : List (PayloadId × Int) :=
  (managedOf msg).toList.map fun managed => (managed, refs)

/-- The references of a message whose releases have run before observer `i`. -/
def owed (msg : SnapshotMessage) (i : Nat) : List (PayloadId × Int) :=
  if i < msg.observerCount then token msg (msg.observerCount - i : Int) else []

/-- The references of messages that no observer has been called for. -/
def owedAll (msgs : List SnapshotMessage) : List (PayloadId × Int) :=
  msgs.flatMap fun msg => owed msg 0

def Frame.tokens : Frame → List (PayloadId × Int)
  | .create _ _ _ => []
  | .addRefs msg _ => token msg 1
  | .send msg _ => owed msg 0
  | .flush => []
  | .collect _ batch => owedAll batch
  | .dispatch _ msg i rest => owed msg i ++ owedAll rest

def ThreadState.tokens (thread : ThreadState) : List (PayloadId × Int) :=
  thread.stack.flatMap Frame.tokens ++ owedAll (thread.t_batch.msgs.drop thread.t_batch.i)

/-- The tokens of the ring and of the threads. -/
def State.holdings (s : State Thread) : Option Thread → List (PayloadId × Int)
  | none => owedAll s.ring
  | some t => (s.threads t).tokens

def refCounts (heap : PayloadHeap) (id : PayloadId) : Option Int :=
  (heap.live id).map RefCountedPayload.m_refCount

@[simp] theorem owedAll_nil : owedAll [] = [] := rfl

@[simp] theorem owedAll_cons (msg : SnapshotMessage) (msgs : List SnapshotMessage) :
    owedAll (msg :: msgs) = owed msg 0 ++ owedAll msgs := rfl

@[simp] theorem owedAll_append (first second : List SnapshotMessage) :
    owedAll (first ++ second) = owedAll first ++ owedAll second :=
  List.flatMap_append

theorem owed_done {msg : SnapshotMessage} {i : Nat} (hdone : ¬i < msg.observerCount) :
    owed msg i = [] :=
  if_neg hdone

theorem owed_more {msg : SnapshotMessage} {i : Nat} (hmore : i < msg.observerCount) :
    owed msg i = token msg (msg.observerCount - i : Int) :=
  if_pos hmore

theorem token_of_some {msg : SnapshotMessage} {id : PayloadId} (refs : Int)
    (hmanaged : managedOf msg = some id) : token msg refs = [(id, refs)] := by
  simp [token, hmanaged]

theorem token_of_none {msg : SnapshotMessage} (refs : Int) (hmanaged : managedOf msg = none) :
    token msg refs = [] := by
  simp [token, hmanaged]

theorem dispatchRest_tokens (below : List Frame) (rest : List SnapshotMessage) :
    (dispatchRest below rest).flatMap Frame.tokens =
      owedAll rest ++ below.flatMap Frame.tokens := by
  cases rest with
  | nil => rfl
  | cons msg rest => rfl

/-! ### The invariant -/

/-- What the calls in progress know about their message. -/
def Frame.Ok : Frame → Prop
  | .create msg _ _ => 0 < msg.observerCount ∧ msg.isInline = false
  | .addRefs msg _ => 0 < msg.observerCount
  | .dispatch .callback msg i _ => i < msg.observerCount
  | .dispatch .release msg i _ => i < msg.observerCount
  | _ => True

structure ThreadState.Ok (thread : ThreadState) : Prop where
  frames : ∀ frame ∈ thread.stack, frame.Ok
  batch : thread.t_batch.i ≤ thread.t_batch.msgs.length

/-- The payloads that were freed are those that were created and are not live, and
each was freed once. -/
structure FreedLog (heap : PayloadHeap) (freed : List Free) : Prop where
  old : ∀ id, heap.nextPayload ≤ id → heap.live id = none
  once : (freed.map Free.payload).Nodup
  iff : ∀ id, id ∈ freed.map Free.payload ↔ id < heap.nextPayload ∧ heap.live id = none
  last : ∀ free ∈ freed, free.observer + 1 = free.observerCount

structure Inv (s : State Thread) : Prop where
  ledger : Ledger s.holdings (refCounts s.payloads)
  threads : ∀ t, (s.threads t).Ok
  log : FreedLog s.payloads s.freed

theorem inv_init : Inv (init : State Thread) where
  ledger := Ledger.empty.perm fun holder => by
    cases holder with
    | none => exact List.Perm.refl _
    | some t => exact List.Perm.refl _
  threads t := ⟨fun _ hmem => absurd hmem List.not_mem_nil, Nat.le_refl _⟩
  log :=
    { old := fun _ _ => rfl
      once := List.nodup_nil
      iff := fun id => by simp [init, PayloadHeap.empty]
      last := fun _ hmem => absurd hmem List.not_mem_nil }

variable [DecidableEq Thread] {s : State Thread} {t : Thread}

theorem Inv.threads_update {thread : ThreadState} (hinv : Inv s) (hok : thread.Ok) (other : Thread) :
    (Function.update s.threads t thread other).Ok := by
  by_cases heq : other = t
  · subst heq
    rw [Function.update_self]
    exact hok
  · rw [Function.update_of_ne heq]
    exact hinv.threads other

/-- A step in which only the state of `t` and the payloads change. -/
theorem Inv.exchange {thread : ThreadState} {heap : PayloadHeap}
    {old rest : List (PayloadId × Int)} (hinv : Inv s) (new : List (PayloadId × Int))
    (freed : List Free)
    (hbefore : (s.threads t).tokens.Perm (old ++ rest)) (hafter : thread.tokens.Perm (new ++ rest))
    (hledger : Ledger s.holdings (refCounts s.payloads) → (s.holdings (some t)).Perm (old ++ rest) →
      Ledger (Function.update s.holdings (some t) (new ++ rest)) (refCounts heap))
    (hok : thread.Ok) (hlog : FreedLog heap freed) :
    Inv { s.setThread t thread with payloads := heap, freed := freed } where
  ledger := (hledger hinv.ledger hbefore).perm fun holder => by
    cases holder with
    | none => exact List.Perm.refl _
    | some other =>
        by_cases heq : other = t
        · subst heq
          simpa [State.holdings, State.setThread] using hafter
        · have hne : some other ≠ some t := fun hsome => heq (Option.some.inj hsome)
          rw [Function.update_of_ne hne]
          simp [State.holdings, State.setThread, heq]
  threads := hinv.threads_update hok
  log := hlog

/-- A step in which `t` keeps its tokens. -/
theorem Inv.keep {thread : ThreadState} (hinv : Inv s)
    (htokens : thread.tokens.Perm (s.threads t).tokens) (hok : thread.Ok) :
    Inv (s.setThread t thread) := by
  have hbefore : (s.threads t).tokens.Perm ([] ++ (s.threads t).tokens) := List.Perm.refl _
  have hafter : thread.tokens.Perm ([] ++ (s.threads t).tokens) := htokens
  refine hinv.exchange [] s.freed hbefore hafter ?_ hok hinv.log
  intro hledger _
  refine hledger.perm fun holder => ?_
  rw [List.nil_append]
  by_cases heq : holder = some t
  · subst heq
    rw [Function.update_self]
    exact List.Perm.refl _
  · rw [Function.update_of_ne heq]

/-- A step in which `t` passes a message to the ring. -/
theorem Inv.give {thread : ThreadState} {msg : SnapshotMessage} (hinv : Inv s)
    (htokens : (s.threads t).tokens.Perm (owed msg 0 ++ thread.tokens)) (hok : thread.Ok) :
    Inv { s.setThread t thread with ring := s.ring ++ [msg] } where
  ledger := by
    have hne : some t ≠ none := Option.some_ne_none t
    refine (hinv.ledger.transfer hne htokens).perm fun holder => ?_
    cases holder with
    | none =>
        rw [Function.update_self]
        simp only [State.holdings, owedAll_append, owedAll_cons, owedAll_nil, List.append_nil]
        exact List.perm_append_comm
    | some other =>
        rw [Function.update_of_ne (Option.some_ne_none other)]
        by_cases heq : other = t
        · subst heq
          simp [State.holdings, State.setThread]
        · have hne : some other ≠ some t := fun hsome => heq (Option.some.inj hsome)
          rw [Function.update_of_ne hne]
          simp [State.holdings, State.setThread, heq]
  threads := hinv.threads_update hok
  log := hinv.log

/-- A step in which `t` takes the oldest message of the ring. -/
theorem Inv.take {thread : ThreadState} {msg : SnapshotMessage} {ring : List SnapshotMessage}
    (hinv : Inv s) (hring : s.ring = msg :: ring)
    (htokens : thread.tokens.Perm (owed msg 0 ++ (s.threads t).tokens)) (hok : thread.Ok) :
    Inv { s.setThread t thread with ring := ring } where
  ledger := by
    have hne : none ≠ some t := (Option.some_ne_none t).symm
    have hgiver : (s.holdings none).Perm (owed msg 0 ++ owedAll ring) := by
      simp [State.holdings, hring]
    refine (hinv.ledger.transfer hne hgiver).perm fun holder => ?_
    cases holder with
    | none =>
        rw [Function.update_of_ne hne, Function.update_self]
        exact List.Perm.refl _
    | some other =>
        by_cases heq : other = t
        · subst heq
          rw [Function.update_self]
          simpa [State.holdings, State.setThread] using htokens
        · have hne : some other ≠ some t := fun hsome => heq (Option.some.inj hsome)
          rw [Function.update_of_ne hne, Function.update_of_ne (Option.some_ne_none other)]
          simp [State.holdings, State.setThread, heq]
  threads := hinv.threads_update hok
  log := hinv.log

/-! ### Payload operations -/

omit [DecidableEq Thread] in
theorem FreedLog.create {heap : PayloadHeap} {freed : List Free} (hlog : FreedLog heap freed)
    (data : List UInt8) (size : Nat) : FreedLog (heap.create data size).2 freed where
  old id hid := by
    have hne : id ≠ heap.nextPayload := Nat.ne_of_gt hid
    rw [PayloadHeap.create_live_other data size hne]
    exact hlog.old id (Nat.le_of_succ_le hid)
  once := hlog.once
  iff id := by
    rw [hlog.iff]
    have hnext : (heap.create data size).2.nextPayload = heap.nextPayload + 1 := rfl
    by_cases heq : id = heap.nextPayload
    · subst heq
      simp [PayloadHeap.create, PayloadHeap.set]
    · rw [PayloadHeap.create_live_other data size heq, hnext]
      have hiff : id < heap.nextPayload ↔ id < heap.nextPayload + 1 :=
        ⟨Nat.lt_succ_of_lt, fun hlt => Nat.lt_of_le_of_ne (Nat.le_of_lt_succ hlt) heq⟩
      rw [hiff]
  last := hlog.last

omit [DecidableEq Thread] in
/-- Changing the count of a live payload frees nothing. -/
theorem FreedLog.recount {heap : PayloadHeap} {freed : List Free} (hlog : FreedLog heap freed)
    {id : PayloadId} {payload payload' : RefCountedPayload} (hlive : heap.live id = some payload) :
    FreedLog (heap.set id (some payload')) freed where
  old other hother := by
    have hne : other ≠ id := by
      rintro rfl
      rw [hlog.old other hother] at hlive
      cases hlive
    rw [PayloadHeap.set_live_ne _ hne]
    exact hlog.old other hother
  once := hlog.once
  iff other := by
    rw [hlog.iff, PayloadHeap.set_nextPayload]
    by_cases heq : other = id
    · subst heq
      simp [hlive]
    · rw [PayloadHeap.set_live_ne _ heq]
  last := hlog.last

omit [DecidableEq Thread] in
theorem FreedLog.free {heap : PayloadHeap} {freed : List Free} (hlog : FreedLog heap freed)
    {id : PayloadId} {payload : RefCountedPayload} {observer observerCount : Nat}
    (hlive : heap.live id = some payload) (hlast : observer + 1 = observerCount) :
    FreedLog (heap.set id none) (freed ++ [⟨id, observer, observerCount⟩]) where
  old other hother := by
    by_cases heq : other = id
    · subst heq
      simp
    · rw [PayloadHeap.set_live_ne _ heq]
      exact hlog.old other hother
  once := by
    have hnew : id ∉ freed.map Free.payload := by
      intro hmem
      rw [((hlog.iff id).mp hmem).2] at hlive
      cases hlive
    rw [List.map_append]
    refine List.nodup_append.mpr ⟨hlog.once, List.nodup_singleton id, ?_⟩
    intro other hmem other' hmem' heq
    rw [heq, List.mem_singleton.mp hmem'] at hmem
    exact hnew hmem
  iff other := by
    rw [List.map_append, List.mem_append, hlog.iff, PayloadHeap.set_nextPayload]
    by_cases heq : other = id
    · subst heq
      have hlt : other < heap.nextPayload := by
        by_contra hge
        rw [hlog.old other (Nat.le_of_not_lt hge)] at hlive
        cases hlive
      simp [hlt]
    · simp [PayloadHeap.set_live_ne _ heq, heq]
  last := by
    intro free hmem
    rcases List.mem_append.mp hmem with hmem | hmem
    · exact hlog.last free hmem
    · rw [List.mem_singleton.mp hmem]
      exact hlast

theorem refCounts_of_live {heap : PayloadHeap} {id : PayloadId} {payload : RefCountedPayload}
    (hlive : heap.live id = some payload) : refCounts heap id = some payload.m_refCount := by
  simp [refCounts, hlive]

theorem live_of_refCounts {heap : PayloadHeap} {id : PayloadId} {refs : Int}
    (hrefs : refCounts heap id = some refs) :
    ∃ payload, heap.live id = some payload ∧ payload.m_refCount = refs :=
  Option.map_eq_some_iff.mp hrefs

theorem refCounts_set_ne {heap : PayloadHeap} {id other : PayloadId}
    (value : Option RefCountedPayload) (hne : other ≠ id) :
    refCounts (heap.set id value) other = refCounts heap other := by
  rw [refCounts, PayloadHeap.set_live_ne value hne, refCounts]

/-! ### Stacks -/

theorem ThreadState.tokens_cons (thread : ThreadState) (frame : Frame) (below : List Frame) :
    ({ thread with stack := frame :: below } : ThreadState).tokens =
      frame.tokens ++ ({ thread with stack := below } : ThreadState).tokens := by
  simp [ThreadState.tokens]

theorem ThreadState.tokens_of_stack {thread : ThreadState} {frame : Frame} {below : List Frame}
    (hstack : thread.stack = frame :: below) :
    thread.tokens = frame.tokens ++ ({ thread with stack := below } : ThreadState).tokens := by
  rw [← ThreadState.tokens_cons, ← hstack]

theorem ThreadState.tokens_dispatchRest (thread : ThreadState) (below : List Frame)
    (rest : List SnapshotMessage) :
    ({ thread with stack := dispatchRest below rest } : ThreadState).tokens =
      owedAll rest ++ ({ thread with stack := below } : ThreadState).tokens := by
  simp [ThreadState.tokens, dispatchRest_tokens]

namespace ThreadState.Ok

variable {thread : ThreadState} {frame frame' : Frame} {below : List Frame}

theorem top (hok : thread.Ok) (hstack : thread.stack = frame :: below) : frame.Ok :=
  hok.frames frame (hstack ▸ List.mem_cons_self ..)

theorem pop (hok : thread.Ok) (hstack : thread.stack = frame :: below) :
    ({ thread with stack := below } : ThreadState).Ok where
  frames other hmem := hok.frames other (hstack ▸ List.mem_cons_of_mem _ hmem)
  batch := hok.batch

theorem enter (hok : thread.Ok) (hframe : frame.Ok) : (thread.enter frame).Ok where
  frames other hmem := by
    rcases List.mem_cons.mp hmem with rfl | hmem
    · exact hframe
    · exact hok.frames other hmem
  batch := hok.batch

/-- The top frame makes a step. -/
theorem replace (hok : thread.Ok) (hstack : thread.stack = frame :: below) (hframe : frame'.Ok) :
    ({ thread with stack := frame' :: below } : ThreadState).Ok :=
  (hok.pop hstack).enter hframe

theorem dispatchRest (hok : thread.Ok) (hstack : thread.stack = frame :: below)
    (rest : List SnapshotMessage) :
    ({ thread with stack := dispatchRest below rest } : ThreadState).Ok := by
  cases rest with
  | nil => exact hok.pop hstack
  | cons msg rest => exact hok.replace hstack trivial

end ThreadState.Ok

/-! ### Steps -/

section Steps

variable {next : State Thread} {Capacity : Nat} {msg : SnapshotMessage} {below : List Frame}
  {rest : List SnapshotMessage} {i : Nat} {batched : Bool}

theorem Inv.create {data : Option (List UInt8)} (hinv : Inv s)
    (hstack : (s.threads t).stack = .create msg data batched :: below)
    (hnext : proceed Capacity s t = some next) : Inv next := by
  obtain ⟨hcount, hmanaged⟩ := (hinv.threads t).top hstack
  simp only [proceed, hstack, Option.some.injEq] at hnext
  subst hnext
  have hid : managedOf { msg with payload := msg.payload.setManaged s.payloads.nextPayload } =
      some s.payloads.nextPayload := by
    simp [managedOf, hmanaged]
  have hbefore := ThreadState.tokens_of_stack hstack
  refine hinv.exchange [(s.payloads.nextPayload, 1)] s.freed (List.Perm.of_eq hbefore)
    (List.Perm.of_eq ?_) ?_ ?_ (hinv.log.create _ _)
  · rw [ThreadState.tokens_cons]
    congr 1
    by_cases hmore : msg.observerCount > 1
    · simp only [PayloadHeap.create, hmore, if_true]
      exact token_of_some 1 hid
    · have hone : msg.observerCount = 1 := by omega
      rw [if_neg hmore]
      simp only [PayloadHeap.create, Frame.tokens, owed]
      rw [if_pos hcount, token_of_some _ hid]
      simp [hone]
  · intro hledger hperm
    refine hledger.create hperm ?_ ?_ ?_
    · simp [refCounts, hinv.log.old s.payloads.nextPayload (Nat.le_refl _)]
    · simp [refCounts, PayloadHeap.create, PayloadHeap.set]
    · intro other hne
      rw [refCounts, PayloadHeap.create_live_other _ _ hne, refCounts]
  · apply (hinv.threads t).replace hstack
    split
    · exact hcount
    · trivial

theorem Inv.addRefs (hinv : Inv s)
    (hstack : (s.threads t).stack = .addRefs msg batched :: below)
    (hnext : proceed Capacity s t = some next) : Inv next := by
  have hcount : 0 < msg.observerCount := (hinv.threads t).top hstack
  have hbefore := ThreadState.tokens_of_stack hstack
  have hsend : (Frame.send msg batched).Ok := trivial
  have hok := (hinv.threads t).replace hstack hsend
  have howed : owed msg 0 = token msg msg.observerCount := by
    rw [owed_more hcount]
    simp
  simp only [proceed, hstack] at hnext
  cases hmanaged : managedOf msg with
  | none =>
      rw [hmanaged] at hnext
      obtain rfl := Option.some.inj hnext
      refine hinv.keep (List.Perm.of_eq ?_) hok
      rw [ThreadState.tokens_cons, hbefore]
      simp [Frame.tokens, howed, token_of_none _ hmanaged]
  | some id =>
      rw [hmanaged] at hnext
      obtain rfl := Option.some.inj hnext
      rw [Frame.tokens, token_of_some 1 hmanaged] at hbefore
      have hheld : (id, 1) ∈ s.holdings (some t) := by
        rw [State.holdings, hbefore]
        exact List.mem_cons_self ..
      obtain ⟨payload, hlive, hrefs⟩ :=
        live_of_refCounts (hinv.ledger.correct _ _ _ hheld)
      have hadd : s.payloads.addRefs id (msg.observerCount - 1 : Int) =
          s.payloads.set id (some { payload with m_refCount := msg.observerCount }) := by
        have hsum : payload.m_refCount + (msg.observerCount - 1 : Int) = msg.observerCount := by
          omega
        simp [PayloadHeap.addRefs, hlive, hsum]
      rw [State.setThread_payloads, hadd]
      refine hinv.exchange [(id, (msg.observerCount : Int))] s.freed (List.Perm.of_eq hbefore)
        (List.Perm.of_eq ?_) ?_ hok (hinv.log.recount hlive)
      · rw [ThreadState.tokens_cons, Frame.tokens, howed, token_of_some _ hmanaged]
      · intro hledger hperm
        refine hledger.recount hperm ?_ fun other hne => refCounts_set_ne _ hne
        exact refCounts_of_live (PayloadHeap.set_live_self _)

/-- The release of the callback `i` takes one reference, and frees the payload
after the last observer. -/
theorem Inv.release (hinv : Inv s)
    (hstack : (s.threads t).stack = .dispatch .release msg i rest :: below) :
    Inv (release s t below msg i rest) := by
  have hlt : i < msg.observerCount := (hinv.threads t).top hstack
  have hbefore := ThreadState.tokens_of_stack hstack
  have hcall : (Frame.dispatch .call msg (i + 1) rest).Ok := trivial
  have hok := (hinv.threads t).replace hstack hcall
  rw [Frame.tokens, owed_more hlt, List.append_assoc] at hbefore
  cases hmanaged : managedOf msg with
  | none =>
      simp only [Concurrent.release, hmanaged]
      refine hinv.keep (List.Perm.of_eq ?_) hok
      have hnone : owed msg (i + 1) = [] := by
        rw [owed, token_of_none _ hmanaged, ite_self]
      rw [ThreadState.tokens_cons, hbefore, Frame.tokens, hnone, token_of_none _ hmanaged,
        List.nil_append, List.nil_append]
  | some id =>
      rw [token_of_some _ hmanaged] at hbefore
      have hheld : (id, (msg.observerCount - i : Int)) ∈ s.holdings (some t) := by
        rw [State.holdings, hbefore]
        exact List.mem_cons_self ..
      obtain ⟨payload, hlive, hrefs⟩ := live_of_refCounts (hinv.ledger.correct _ _ _ hheld)
      simp only [Concurrent.release, hmanaged, State.setThread_payloads, State.setThread_freed]
      by_cases hlast : i + 1 = msg.observerCount
      · have hone : payload.m_refCount = 1 := by omega
        simp only [PayloadHeap.release_last hlive hone, if_true]
        refine hinv.exchange [] (s.freed ++ [⟨id, i, msg.observerCount⟩]) (List.Perm.of_eq hbefore)
          (List.Perm.of_eq ?_) ?_ hok (hinv.log.free hlive hlast)
        · have hdone : ¬i + 1 < msg.observerCount := by omega
          rw [ThreadState.tokens_cons, Frame.tokens, owed_done hdone, List.nil_append,
            List.nil_append]
        · intro hledger hperm
          refine hledger.close hperm ?_ fun other hne => refCounts_set_ne _ hne
          simp [refCounts]
      · have hmore : payload.m_refCount ≠ 1 := by omega
        simp only [PayloadHeap.release_more hlive hmore, Bool.false_eq_true, if_false]
        refine hinv.exchange [(id, (msg.observerCount - i : Int) - 1)] s.freed
          (List.Perm.of_eq hbefore) (List.Perm.of_eq ?_) ?_ hok (hinv.log.recount hlive)
        · have hleft : i + 1 < msg.observerCount := by omega
          have hsame : (msg.observerCount - (i + 1 : Nat) : Int) = msg.observerCount - i - 1 := by
            omega
          rw [ThreadState.tokens_cons, Frame.tokens, owed_more hleft, token_of_some _ hmanaged,
            hsame, List.append_assoc]
        · intro hledger hperm
          refine hledger.recount hperm ?_ fun other hne => refCounts_set_ne _ hne
          rw [← hrefs]
          exact refCounts_of_live (PayloadHeap.set_live_self _)

/-- The push of a message to the ring. -/
theorem Inv.push (hinv : Inv s) (hstack : (s.threads t).stack = .send msg false :: below) :
    Inv { s.setThread t { s.threads t with stack := below } with ring := s.ring ++ [msg] } := by
  apply hinv.give
  · exact List.Perm.of_eq (ThreadState.tokens_of_stack hstack)
  · exact (hinv.threads t).pop hstack

/-- A message joins the batch buffer, behind those that a flush has not sent. -/
theorem Inv.accumulate (hinv : Inv s) (hstack : (s.threads t).stack = .send msg true :: below) :
    Inv (s.setThread t ⟨below, (s.threads t).t_batch.msgs ++ [msg], (s.threads t).t_batch.i⟩) := by
  have hok := hinv.threads t
  apply hinv.keep
  · rw [ThreadState.tokens_of_stack hstack]
    simp only [ThreadState.tokens, Frame.tokens, List.drop_append_of_le_length hok.batch,
      owedAll_append, owedAll_cons, owedAll_nil, List.append_nil]
    rw [← List.append_assoc]
    exact List.perm_append_comm
  · refine ⟨(hok.pop hstack).frames, ?_⟩
    rw [List.length_append]
    exact Nat.le_add_right_of_le hok.batch

theorem Inv.flush (hinv : Inv s) (hstack : (s.threads t).stack = .flush :: below) :
    Inv (flush Capacity s t below) := by
  have hok := hinv.threads t
  have htokens := ThreadState.tokens_of_stack hstack
  rw [Frame.tokens, List.nil_append] at htokens
  rw [Concurrent.flush]
  cases hget : (s.threads t).t_batch.msgs[(s.threads t).t_batch.i]? with
  | some msg =>
      obtain ⟨hlt, hmsg⟩ := List.getElem?_eq_some_iff.mp hget
      simp only
      split
      · apply hinv.give
        · simp only [ThreadState.tokens, List.drop_eq_getElem_cons hlt, hmsg, owedAll_cons]
          rw [← List.append_assoc, ← List.append_assoc]
          exact List.perm_append_comm.append_right _
        · exact ⟨hok.frames, hlt⟩
      · exact hinv
  | none =>
      have hdrop : (s.threads t).t_batch.msgs.drop (s.threads t).t_batch.i = [] :=
        List.drop_eq_nil_of_le (List.getElem?_eq_none_iff.mp hget)
      apply hinv.keep
      · rw [htokens]
        simp [ThreadState.tokens, hdrop]
      · exact ⟨(hok.pop hstack).frames, Nat.le_refl _⟩

theorem Inv.collect {limit : Nat} (hinv : Inv s)
    (hstack : (s.threads t).stack = .collect limit rest :: below) :
    Inv (collect s t below limit rest) := by
  have hok := hinv.threads t
  have htokens := ThreadState.tokens_of_stack hstack
  rw [Concurrent.collect]
  cases hring : (if rest.length < limit then s.ring else []) with
  | cons msg ring =>
      have hsome : s.ring = msg :: ring := by
        split at hring
        · exact hring
        · cases hring
      have hcollect : (Frame.collect limit (rest ++ [msg])).Ok := trivial
      refine hinv.take hsome ?_ (hok.replace hstack hcollect)
      rw [ThreadState.tokens_cons, htokens]
      simp only [Frame.tokens, owedAll_append, owedAll_cons, owedAll_nil, List.append_nil]
      rw [← List.append_assoc]
      exact List.perm_append_comm.append_right _
  | nil =>
      refine hinv.keep (List.Perm.of_eq ?_) (hok.dispatchRest hstack rest)
      rw [ThreadState.tokens_dispatchRest, htokens]
      rfl

theorem Inv.proceed (hinv : Inv s) (hnext : proceed Capacity s t = some next) : Inv next := by
  have hok := hinv.threads t
  cases hstack : (s.threads t).stack with
  | nil =>
      simp only [Concurrent.proceed, hstack] at hnext
      cases hnext
  | cons frame below =>
      have htokens := ThreadState.tokens_of_stack hstack
      cases frame with
      | create msg data batched => exact hinv.create hstack hnext
      | addRefs msg batched => exact hinv.addRefs hstack hnext
      | send msg batched =>
          cases batched with
          | false =>
              simp only [Concurrent.proceed, hstack] at hnext
              split at hnext
              · obtain rfl := Option.some.inj hnext
                exact hinv.push hstack
              · obtain rfl := Option.some.inj hnext
                exact hinv
          | true =>
              have hjoined := hinv.accumulate hstack
              simp only [Concurrent.proceed, hstack, Option.some.injEq] at hnext
              subst hnext
              split
              · have hflush : Frame.flush.Ok := trivial
                have hokAfter := (hjoined.threads t).enter hflush
                rw [State.setThread_self] at hokAfter
                have hsame := hjoined.keep (t := t) (List.Perm.of_eq ?_) hokAfter
                · simpa [State.setThread, ThreadState.enter] using hsame
                · rw [State.setThread_self]
                  exact ThreadState.tokens_cons _ _ _
              · exact hjoined
      | flush =>
          simp only [Concurrent.proceed, hstack, Option.some.injEq] at hnext
          exact hnext ▸ hinv.flush hstack
      | collect limit batch =>
          simp only [Concurrent.proceed, hstack, Option.some.injEq] at hnext
          exact hnext ▸ hinv.collect hstack
      | dispatch phase msg i rest =>
          cases phase with
          | call =>
              simp only [Concurrent.proceed, hstack] at hnext
              split at hnext
              · rename_i hlt
                obtain rfl := Option.some.inj hnext
                have hframe : (Frame.dispatch .callback msg i rest).Ok := hlt
                refine hinv.keep (List.Perm.of_eq ?_) (hok.replace hstack hframe)
                rw [ThreadState.tokens_cons, htokens]
                rfl
              · rename_i hdone
                obtain rfl := Option.some.inj hnext
                refine hinv.keep (List.Perm.of_eq ?_) (hok.dispatchRest hstack rest)
                rw [ThreadState.tokens_dispatchRest, htokens, Frame.tokens, owed_done hdone,
                  List.nil_append]
          | callback =>
              simp only [Concurrent.proceed, hstack, Option.some.injEq] at hnext
              subst hnext
              have hlt : i < msg.observerCount := hok.top hstack
              have hframe : (Frame.dispatch .release msg i rest).Ok := hlt
              refine hinv.keep (List.Perm.of_eq ?_) (hok.replace hstack hframe)
              rw [ThreadState.tokens_cons, htokens]
              rfl
          | release =>
              simp only [Concurrent.proceed, hstack, Option.some.injEq] at hnext
              exact hnext ▸ hinv.release hstack

/-- A call that starts without taking or giving anything. -/
theorem Inv.enter {frame : Frame} (hinv : Inv s) (hframe : frame.Ok) (hnone : frame.tokens = []) :
    Inv (s.setThread t ((s.threads t).enter frame)) := by
  refine hinv.keep (List.Perm.of_eq ?_) ((hinv.threads t).enter hframe)
  rw [ThreadState.enter, ThreadState.tokens_cons, hnone, List.nil_append]

theorem Inv.post {cls : QueueClass} {old : SnapshotMessage} {topicId size : Nat}
    {data : Option (List UInt8)} (hinv : Inv s) :
    Inv (post cls s t old topicId data size batched) := by
  rw [Concurrent.post]
  split
  · exact hinv
  · simp only
    split
    · exact hinv
    · rename_i hcount
      split
      · exact hinv.enter trivial (by simp [Frame.tokens, owed, token, managedOf])
      · exact hinv.enter ⟨Nat.pos_of_ne_zero hcount, rfl⟩ rfl

omit [DecidableEq Thread] in
theorem Inv.addObserver {cls : QueueClass} {topicId : Nat} {observer : Observer} (hinv : Inv s) :
    Inv (addObserver cls s topicId observer) := by
  rw [Concurrent.addObserver]
  split
  · exact hinv
  · simp only
    split
    · exact hinv
    · exact ⟨hinv.ledger.perm fun holder => by cases holder <;> exact List.Perm.refl _,
        hinv.threads, hinv.log⟩

theorem Inv.step {cls : QueueClass} {action : Action Thread} (hinv : Inv s)
    (hnext : step cls Capacity s action = some next) : Inv next := by
  cases action with
  | addObserver topicId observer =>
      obtain rfl := Option.some.inj hnext
      exact hinv.addObserver
  | post t old topicId data size batched =>
      simp only [Concurrent.step, Option.ite_none_right_eq_some, Option.some.injEq] at hnext
      exact hnext.2 ▸ hinv.post
  | flushBatch t =>
      simp only [Concurrent.step, Option.ite_none_right_eq_some, Option.some.injEq] at hnext
      exact hnext.2 ▸ hinv.enter trivial rfl
  | dispatchOne t =>
      simp only [Concurrent.step, Option.ite_none_right_eq_some] at hnext
      obtain ⟨_, hnext⟩ := hnext
      cases hring : s.ring with
      | nil =>
          rw [hring] at hnext
          obtain rfl := Option.some.inj hnext
          exact hinv
      | cons msg ring =>
          rw [hring] at hnext
          obtain rfl := Option.some.inj hnext
          have hframe : (Frame.dispatch .call msg 0 []).Ok := trivial
          refine hinv.take hring (List.Perm.of_eq ?_) ((hinv.threads t).enter hframe)
          rw [ThreadState.enter, ThreadState.tokens_cons, Frame.tokens, owedAll_nil,
            List.append_nil]
  | dispatchBatch t maxCount =>
      simp only [Concurrent.step, Option.ite_none_right_eq_some, Option.some.injEq] at hnext
      exact hnext.2 ▸ hinv.enter trivial rfl
  | proceed t => exact hinv.proceed hnext

theorem inv_of_reachable {cls : QueueClass} (hreach : (machine Thread cls Capacity).Reachable s) :
    Inv s := by
  refine Machine.Reachable.invariant Inv inv_init (fun _ _ _ hinv hstep => ?_) hreach
  exact hinv.step hstep

end Steps

end MessageCenter.SnapshotQueue.Concurrent
