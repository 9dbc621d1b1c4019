import MessageCenter.MpmcQueue.AtomicQueue
import MessageCenter.MpmcQueue.Failure

/-!
# The ring refines the atomic queue

A successful operation takes effect at its compare-exchange and settles when it stores `seq`, a
failed one takes effect at the load of `seq` that makes it fail.  The items of the atomic queue are
those of the positions that are claimed by pushes and not by pops, so an operation may take effect
before its item is in the slot; the invariant of the ring says that a pop does not come so early
that it could see this.
-/

namespace MessageCenter.MPMCQueue

open Concurrency Concurrency.PositionLog

universe u v

variable {Tid : Type u} {T : Type v} {k : Nat} {s next : State Tid T} {t : Tid}

/-- What a step of the ring shows. -/
def label (s : State Tid T) : Action Tid T → Option (CallEvent Tid T)
  | .callPush t item => some (.call t (.tryPush item))
  | .callPop t => some (.call t .tryPop)
  | .run _ _ => none
  | .ret t =>
      match s.pc t with
      | .pushReturned ok => some (.ret t (.pushed ok))
      | .popReturned result => some (.ret t (.popped result))
      | _ => none

/-- The ring, seen by its callers. -/
def observedRing (Tid : Type u) (T : Type v) [DecidableEq Tid] (Capacity : Nat) :
    Observed (State Tid T) (Action Tid T) (CallEvent Tid T) where
  machine := machine Tid T Capacity
  label := label

/-! ### The simulation -/

/-- The position of a push between its compare-exchange and its `seq` store. -/
def PC.pushing : PC T → Option Nat
  | .pushWrite _ pos | .pushStore _ pos => some pos
  | _ => none

/-- How far the operation of a thread has come. -/
def phase (s : State Tid T) : PC T → AtomicQueue.Phase T
  | .idle => .idle
  | .pushLoadTail item | .pushLoadSeq item _ | .pushCas item _ => .called (.tryPush item)
  | .pushWrite _ _ | .pushStore _ _ => .settling (.pushed true)
  | .pushReturned ok => .returning (.pushed ok)
  | .popLoadHead | .popLoadSeq _ | .popCas _ => .called .tryPop
  | .popRead head => .settling (.popped (some (s.itemAt head)))
  | .popStore _ item => .settling (.popped (some item))
  | .popReturned result => .returning (.popped result)

/-- The item of a claim, marked with its thread until that has stored `seq`. -/
def State.entry (s : State Tid T) (claim : PushClaim Tid T) : Option Tid × T :=
  (if (s.pc claim.thread).pushing = some claim.pos then some claim.thread else none, claim.item)

/-- The items that are claimed by pushes and not by pops. -/
def State.entries (s : State Tid T) : List (Option Tid × T) :=
  (s.pushClaims.drop s.m_head).map s.entry

/-- The items of the ring, the oldest first. -/
def State.queued (s : State Tid T) : List T := (s.pushClaims.drop s.m_head).map PushClaim.item

theorem State.entries_snd (s : State Tid T) : s.entries.map Prod.snd = s.queued :=
  List.map_map

/-- The atomic queue that a state of the ring stands for. -/
def State.atomic (s : State Tid T) : AtomicQueue.State Tid T :=
  ⟨s.entries, fun t => phase s (s.pc t)⟩

/-! ### Items -/

theorem State.Pushing.pushing {pos : Nat} (hpush : s.Pushing t pos) :
    (s.pc t).pushing = some pos := by
  obtain ⟨item, hpc | hpc⟩ := hpush <;> rw [hpc] <;> rfl

theorem Inv.entries_length {C : Nat} (hinv : Inv C s) : s.entries.length = s.m_tail - s.m_head := by
  rw [State.entries, List.length_map, List.length_drop, hinv.pushNumbered.length]

/-- The oldest item is that of the position `m_head`. -/
theorem Inv.entries_eq {C : Nat} (hinv : Inv C s) (hlt : s.m_head < s.m_tail) :
    ∃ claim ∈ s.pushClaims, claim.pos = s.m_head ∧ s.itemAt s.m_head = some claim.item ∧
      s.entries = s.entry claim :: (s.pushClaims.drop (s.m_head + 1)).map s.entry := by
  obtain ⟨claim, hmem, hpos⟩ := hinv.pushNumbered.exists_of_lt hlt
  have hget := hinv.pushNumbered.getElem?_pos hmem
  rw [hpos] at hget
  obtain ⟨hbound, heq⟩ := List.getElem?_eq_some_iff.mp hget
  refine ⟨claim, hmem, hpos, ?_, ?_⟩
  · rw [State.itemAt, hget, Option.map_some]
  · rw [State.entries, List.drop_eq_getElem_cons hbound, heq, List.map_cons]

variable [DecidableEq Tid]

theorem entry_of_pushing_eq {pc : PC T} (hpc : next.pc = Function.update s.pc t pc)
    (hpushing : pc.pushing = (s.pc t).pushing) (claim : PushClaim Tid T) :
    next.entry claim = s.entry claim := by
  have hsame : (next.pc claim.thread).pushing = (s.pc claim.thread).pushing := by
    rw [hpc]
    by_cases heq : claim.thread = t
    · rw [heq, Function.update_self, hpushing]
    · rw [Function.update_of_ne heq]
  rw [State.entry, hsame, State.entry]

/-- A thread that is in no push marks nothing. -/
theorem entry_of_settled {pc : PC T} (hpc : next.pc = Function.update s.pc t pc)
    (hpushing : pc.pushing = none) (claim : PushClaim Tid T) :
    next.entry claim = AtomicQueue.unmark t (s.entry claim) := by
  rw [State.entry, hpc, State.entry, AtomicQueue.unmark]
  by_cases hmark : (s.pc claim.thread).pushing = some claim.pos
  · by_cases heq : claim.thread = t
    · simp [heq, hpushing]
    · simp [hmark, heq]
  · by_cases heq : claim.thread = t
    · simp [heq, hpushing]
    · simp [hmark, heq]

/-- A step of `t` changes the phase of `t` only. -/
theorem Inv.atomic_of_step {C : Nat} (hinv : Inv C s) {pc : PC T}
    (hpc : next.pc = Function.update s.pc t pc)
    (hitems : ∀ pos, pos < s.m_tail → next.itemAt pos = s.itemAt pos) :
    next.atomic = ⟨next.entries, Function.update s.atomic.phase t (phase next pc)⟩ := by
  have hphase : ∀ other, phase next (next.pc other) =
      Function.update s.atomic.phase t (phase next pc) other := by
    intro other
    rw [hpc]
    by_cases heq : other = t
    · rw [heq, Function.update_self, Function.update_self]
    · rw [Function.update_of_ne heq, Function.update_of_ne heq]
      have hother := hinv.threads other
      cases hpc' : s.pc other with
      | popRead head =>
          rw [hpc'] at hother
          have hitem := hitems head (Nat.lt_of_lt_of_le hother.1 hinv.head_le_tail)
          simp only [State.atomic, hpc', phase, hitem]
      | _ => simp only [State.atomic, hpc', phase]
  rw [State.atomic, funext hphase]

theorem State.goto_pc (s : State Tid T) (t : Tid) (pc : PC T) :
    (s.goto t pc).pc = Function.update s.pc t pc := rfl

theorem Inv.atomic_goto {C : Nat} (hinv : Inv C s) {old : PC T} (hold : s.pc t = old) (pc : PC T)
    (hpushing : pc.pushing = old.pushing) :
    (s.goto t pc).atomic = s.atomic.goto t (phase s pc) := by
  subst hold
  have hentries : (s.goto t pc).entries = s.entries :=
    List.map_congr_left fun claim _ => entry_of_pushing_eq (s.goto_pc t pc) hpushing claim
  rw [hinv.atomic_of_step (s.goto_pc t pc) fun _ _ => rfl, hentries]
  rfl

/-! ### Answers -/

/-- The atomic queue makes a step that shows nothing, or none. -/
def Answers (C : Nat) (s next : State Tid T) : Prop :=
  next.atomic = s.atomic ∨ ∃ action, AtomicQueue.step C s.atomic action = some next.atomic ∧
    AtomicQueue.label s.atomic action = none

/-- A step inside an operation that leaves the phase and the items alone. -/
theorem Inv.answers_same {C : Nat} (hinv : Inv C s) {old pc : PC T} (hold : s.pc t = old)
    (hpc : next.pc = Function.update s.pc t pc) (hclaims : next.pushClaims = s.pushClaims)
    (hhead : next.m_head = s.m_head) (hphase : phase s pc = phase s old)
    (hpushing : pc.pushing = old.pushing) : Answers C s next := by
  subst hold
  have hitem : ∀ pos, next.itemAt pos = s.itemAt pos := by
    intro pos
    rw [State.itemAt, hclaims, State.itemAt]
  have hsame : phase next pc = phase s pc := by
    cases pc <;> simp only [phase, hitem]
  have hentries : next.entries = s.atomic.items := by
    rw [State.entries, hclaims, hhead]
    exact List.map_congr_left fun claim _ => entry_of_pushing_eq hpc hpushing claim
  left
  rw [hinv.atomic_of_step hpc fun pos _ => hitem pos, hsame, hphase, hentries]
  exact congrArg (AtomicQueue.State.mk _) (Function.update_eq_self t s.atomic.phase)

/-- The operation has stored `seq`. -/
theorem Inv.answers_settle {C : Nat} (hinv : Inv C s) {old pc : PC T} {result : Result T}
    (hold : s.pc t = old) (hpc : next.pc = Function.update s.pc t pc)
    (hclaims : next.pushClaims = s.pushClaims) (hhead : next.m_head = s.m_head)
    (hsettling : phase s old = .settling result) (hreturning : phase next pc = .returning result)
    (hpushing : pc.pushing = none) : Answers C s next := by
  subst hold
  have hentries : next.entries = s.entries.map (AtomicQueue.unmark t) := by
    rw [State.entries, hclaims, hhead, State.entries, List.map_map]
    exact List.map_congr_left fun claim _ => entry_of_settled hpc hpushing claim
  have hitem : ∀ pos, pos < s.m_tail → next.itemAt pos = s.itemAt pos := by
    intro pos _
    rw [State.itemAt, hclaims, State.itemAt]
  refine Or.inr ⟨.settle t, ?_, rfl⟩
  have hphase : s.atomic.phase t = .settling result := hsettling
  rw [hinv.atomic_of_step hpc hitem, hreturning, hentries]
  simp only [AtomicQueue.step, hphase]
  rfl

/-- The push takes effect: there is room, and its item is the youngest. -/
theorem Inv.answers_claimPush (hinv : Inv (2 ^ k) s) {item : T} {tail : Nat}
    (hpc : s.pc t = .pushCas item tail) (htail : s.m_tail = tail) :
    Answers (2 ^ k) s (s.claimPush t item tail) := by
  have hthread := hinv.threads t
  rw [hpc] at hthread
  have hroom : tail < s.m_head + 2 ^ k := (hthread.2 htail.symm).1
  have hheadTail := hinv.head_le_tail
  have hlength : s.entries.length < 2 ^ k := by
    rw [hinv.entries_length]
    omega
  have hmoved : (s.claimPush t item tail).pc = Function.update s.pc t (.pushWrite item tail) := rfl
  have hclaims : (s.claimPush t item tail).pushClaims = s.pushClaims ++ [⟨t, tail, item⟩] := rfl
  have hold : ∀ claim ∈ s.pushClaims, (s.claimPush t item tail).entry claim = s.entry claim := by
    intro claim hmem
    have hlt := hinv.pushNumbered.pos_lt hmem
    rw [State.entry, hmoved, State.entry]
    by_cases heq : claim.thread = t
    · have hne : some tail ≠ some claim.pos := by
        rw [Ne, Option.some.injEq]
        omega
      simp only [heq, Function.update_self, hpc, PC.pushing, if_neg hne, reduceCtorEq, if_false]
    · rw [Function.update_of_ne heq]
  have hown : (s.claimPush t item tail).entry ⟨t, tail, item⟩ = (some t, item) := by
    simp only [State.entry, hmoved, Function.update_self, PC.pushing, if_true]
  have hentries : (s.claimPush t item tail).entries = s.entries ++ [(some t, item)] := by
    have hle : s.m_head ≤ s.pushClaims.length := by
      rw [hinv.pushNumbered.length]
      exact hheadTail
    have hhead : (s.claimPush t item tail).m_head = s.m_head := rfl
    rw [State.entries, hclaims, hhead, List.drop_append_of_le_length hle, List.map_append,
      List.map_singleton, hown]
    exact congrArg (· ++ _)
      (List.map_congr_left fun claim hmem => hold claim (List.mem_of_mem_drop hmem))
  have hnext : (s.claimPush t item tail).atomic = ⟨s.entries ++ [(some t, item)],
      Function.update s.atomic.phase t (.settling (.pushed true))⟩ := by
    rw [← hentries]
    exact hinv.atomic_of_step hmoved fun _ hlt => hinv.itemAt_append hlt
  refine Or.inr ⟨.effect t, ?_, rfl⟩
  have hcalled : s.atomic.phase t = .called (.tryPush item) := by
    simp only [State.atomic, hpc, phase]
  have hfifo : fifoStep (2 ^ k) s.atomic.items (.tryPush (some t, item)) =
      (s.entries ++ [(some t, item)], .pushed true) := if_pos hlength
  simp only [AtomicQueue.step, hcalled, AtomicQueue.mark, Op.map, hfifo, Result.map,
    AtomicQueue.afterEffect, AtomicQueue.State.goto, hnext]

/-- The pop takes effect: it gets the oldest item. -/
theorem Inv.answers_claimPop (hinv : Inv (2 ^ k) s) {head : Nat} (hpc : s.pc t = .popCas head)
    (hhead : s.m_head = head) : Answers (2 ^ k) s (s.claimPop t head) := by
  have hthread := hinv.threads t
  rw [hpc] at hthread
  subst hhead
  obtain ⟨claim, -, -, hitem, hentries⟩ := hinv.entries_eq (hthread.2 rfl).1
  have hmoved : (s.claimPop t s.m_head).pc = Function.update s.pc t (.popRead s.m_head) := rfl
  have hrest : (s.claimPop t s.m_head).entries =
      (s.pushClaims.drop (s.m_head + 1)).map s.entry := by
    have hpushing : (PC.popRead s.m_head : PC T).pushing = (s.pc t).pushing := by
      rw [hpc]
      rfl
    exact List.map_congr_left fun claim _ => entry_of_pushing_eq hmoved hpushing claim
  have hnext : (s.claimPop t s.m_head).atomic = ⟨(s.pushClaims.drop (s.m_head + 1)).map s.entry,
        Function.update s.atomic.phase t (.settling (.popped (some (some claim.item))))⟩ := by
    rw [← hitem, ← hrest]
    exact hinv.atomic_of_step hmoved fun _ _ => rfl
  refine Or.inr ⟨.effect t, ?_, rfl⟩
  have hcalled : s.atomic.phase t = .called .tryPop := by simp only [State.atomic, hpc, phase]
  have hitems : s.atomic.items = s.entries := rfl
  simp only [AtomicQueue.step, hcalled, AtomicQueue.mark, Op.map, hitems, hentries, fifoStep,
    Result.map, Option.map_some, State.entry, AtomicQueue.afterEffect,
    AtomicQueue.State.goto, hnext]

/-- A push that fails finds the queue full, or misses. -/
theorem Inv.answers_pushFails (hinv : Inv (2 ^ k) s) {item : T} {tail : Nat}
    (hpc : s.pc t = .pushLoadSeq item tail) (hseq : (s.slot (2 ^ k) tail).seq < tail) :
    Answers (2 ^ k) s (s.goto t (.pushReturned false)) := by
  have hthread := hinv.threads t
  rw [hpc] at hthread
  have hcalled : s.atomic.phase t = .called (.tryPush item) := by
    simp only [State.atomic, hpc, phase]
  have hnext := hinv.atomic_goto hpc (.pushReturned false) rfl
  right
  obtain ⟨-, hfull | ⟨before, peer, -, hpeer⟩⟩ := hinv.unfreed_of_push_fails hthread hseq
  · have hlength : ¬ s.atomic.items.length < 2 ^ k := by
      change ¬ s.entries.length < 2 ^ k
      rw [hinv.entries_length]
      omega
    have hfifo : fifoStep (2 ^ k) s.atomic.items (.tryPush (some t, item)) =
        (s.atomic.items, .pushed false) := if_neg hlength
    refine ⟨.effect t, ?_, rfl⟩
    simp only [AtomicQueue.step, hcalled, AtomicQueue.mark, Op.map, hfifo, Result.map,
      AtomicQueue.afterEffect, AtomicQueue.State.goto, hnext, phase]
  · have hsettling : ∃ copied, s.atomic.phase peer = .settling (.popped (some copied)) := by
      rcases hpeer with hread | ⟨copied, hstore⟩
      · exact ⟨s.itemAt before, by simp only [State.atomic, hread, phase]⟩
      · exact ⟨copied, by simp only [State.atomic, hstore, phase]⟩
    obtain ⟨copied, hsettling⟩ := hsettling
    refine ⟨.miss t peer, ?_, rfl⟩
    simp only [AtomicQueue.step, hcalled, AtomicQueue.mayMiss, hsettling, AtomicQueue.missed, hnext,
      phase, if_true]

/-- A pop that fails finds the queue empty, or misses the item of a push that has not stored its
`seq` yet. -/
theorem Inv.answers_popFails (hinv : Inv (2 ^ k) s) {head : Nat}
    (hpc : s.pc t = .popLoadSeq head) (hseq : (s.slot (2 ^ k) head).seq < head + 1) :
    Answers (2 ^ k) s (s.goto t (.popReturned none)) := by
  have hthread := hinv.threads t
  rw [hpc] at hthread
  have hcalled : s.atomic.phase t = .called .tryPop := by simp only [State.atomic, hpc, phase]
  have hnext := hinv.atomic_goto hpc (.popReturned none) rfl
  right
  obtain ⟨rfl, hempty | ⟨peer, hpeer⟩⟩ := hinv.unpublished_of_pop_fails hthread hseq
  · have hitems : s.atomic.items = [] := by
      apply List.eq_nil_of_length_eq_zero
      change s.entries.length = 0
      rw [hinv.entries_length]
      omega
    refine ⟨.effect t, ?_, rfl⟩
    simp only [AtomicQueue.step, hcalled, AtomicQueue.mark, Op.map, hitems, fifoStep, Result.map,
      Option.map_none, AtomicQueue.afterEffect, AtomicQueue.State.goto, hnext, phase]
  · obtain ⟨-, hlt, -, item, hclaimed⟩ := hinv.pushing_spec hpeer
    obtain ⟨claim, hmem, hpos, -, hentries⟩ := hinv.entries_eq hlt
    obtain rfl : claim = ⟨peer, s.m_head, item⟩ :=
      hinv.pushNumbered.eq_of_pos_eq hmem hclaimed hpos
    have hmark : (s.entry ⟨peer, s.m_head, item⟩).1 = some peer := if_pos hpeer.pushing
    have hitems : s.atomic.items = s.entries := rfl
    refine ⟨.miss t peer, ?_, rfl⟩
    simp only [AtomicQueue.step, hcalled, AtomicQueue.mayMiss, hitems, hentries, hmark,
      AtomicQueue.missed, hnext, phase, decide_true, if_true]

/-! ### All steps -/

theorem Inv.answers_runThread (hinv : Inv (2 ^ k) s) {spurious : Bool}
    (hstep : MPMCQueue.runThread (2 ^ k) s t spurious = some next) : Answers (2 ^ k) s next := by
  have hthread := hinv.threads t
  unfold MPMCQueue.runThread at hstep
  cases hpc : s.pc t with
  | idle | pushReturned _ | popReturned _ => simp [hpc] at hstep
  | pushLoadTail item | popLoadHead | pushWrite item tail =>
      simp only [hpc, Option.some.injEq] at hstep
      subst hstep
      exact hinv.answers_same hpc rfl rfl rfl rfl rfl
  | pushLoadSeq item tail =>
      simp only [hpc] at hstep
      split at hstep
      · obtain rfl := Option.some.inj hstep
        exact hinv.answers_same hpc rfl rfl rfl rfl rfl
      · split at hstep
        · obtain rfl := Option.some.inj hstep
          exact hinv.answers_pushFails hpc (by omega)
        · obtain rfl := Option.some.inj hstep
          exact hinv.answers_same hpc rfl rfl rfl rfl rfl
  | pushCas item tail =>
      simp only [hpc] at hstep
      split at hstep
      · next hwin =>
        obtain rfl := Option.some.inj hstep
        exact hinv.answers_claimPush hpc hwin.1
      · obtain rfl := Option.some.inj hstep
        exact hinv.answers_same hpc rfl rfl rfl rfl rfl
  | pushStore item tail =>
      simp only [hpc, Option.some.injEq] at hstep
      subst hstep
      exact hinv.answers_settle hpc rfl rfl rfl rfl rfl rfl
  | popLoadSeq head =>
      simp only [hpc] at hstep
      split at hstep
      · obtain rfl := Option.some.inj hstep
        exact hinv.answers_same hpc rfl rfl rfl rfl rfl
      · split at hstep
        · obtain rfl := Option.some.inj hstep
          exact hinv.answers_popFails hpc (by omega)
        · obtain rfl := Option.some.inj hstep
          exact hinv.answers_same hpc rfl rfl rfl rfl rfl
  | popCas head =>
      simp only [hpc] at hstep
      split at hstep
      · next hwin =>
        obtain rfl := Option.some.inj hstep
        exact hinv.answers_claimPop hpc hwin.1
      · obtain rfl := Option.some.inj hstep
        exact hinv.answers_same hpc rfl rfl rfl rfl rfl
  | popRead head =>
      simp only [hpc, Option.some.injEq] at hstep
      rw [hpc] at hthread
      subst hstep
      refine hinv.answers_same hpc rfl rfl rfl ?_ rfl
      simp only [phase, hthread.2.2.2.2]
  | popStore head item =>
      simp only [hpc, Option.some.injEq] at hstep
      subst hstep
      exact hinv.answers_settle hpc rfl rfl rfl rfl rfl rfl

/-- Each step of the ring is a step of the atomic queue that shows the same, or is not seen. -/
theorem simulation (hk : 1 ≤ k) :
    Observed.Simulation (observedRing Tid T (2 ^ k)) (atomicQueue Tid T (2 ^ k))
      (fun s a => Inv (2 ^ k) s ∧ a = s.atomic) where
  init := ⟨inv_init k, rfl⟩
  step := by
    rintro s next _ action ⟨hinv, rfl⟩ hstep
    have hnext : Inv (2 ^ k) next := hinv.step hk hstep
    cases action with
    | run t spurious =>
        rcases hinv.answers_runThread hstep with hsame | ⟨action, hanswer, hlabel⟩
        · exact Or.inl ⟨rfl, hnext, hsame.symm⟩
        · exact Or.inr ⟨action, next.atomic, hanswer, hlabel, hnext, rfl⟩
    | callPush t item =>
        right
        simp only [observedRing, machine, step] at hstep
        split at hstep
        · next hpc =>
          obtain rfl := Option.some.inj hstep
          have hidle : s.atomic.phase t = .idle := by simp only [State.atomic, hpc, phase]
          refine ⟨.call t (.tryPush item), _, ?_, rfl, hnext, rfl⟩
          simp only [atomicQueue, AtomicQueue.step, hidle]
          exact congrArg some (hinv.atomic_goto hpc (.pushLoadTail item) rfl).symm
        · cases hstep
    | callPop t =>
        right
        simp only [observedRing, machine, step] at hstep
        split at hstep
        · next hpc =>
          obtain rfl := Option.some.inj hstep
          have hidle : s.atomic.phase t = .idle := by simp only [State.atomic, hpc, phase]
          refine ⟨.call t .tryPop, _, ?_, rfl, hnext, rfl⟩
          simp only [atomicQueue, AtomicQueue.step, hidle]
          exact congrArg some (hinv.atomic_goto hpc .popLoadHead rfl).symm
        · cases hstep
    | ret t =>
        right
        simp only [observedRing, machine, step] at hstep
        split at hstep
        · next ok hpc =>
          obtain rfl := Option.some.inj hstep
          have hreturning : s.atomic.phase t = .returning (.pushed ok) := by
            simp only [State.atomic, hpc, phase]
          refine ⟨.ret t, _, ?_, ?_, hnext, rfl⟩
          · simp only [atomicQueue, AtomicQueue.step, hreturning]
            exact congrArg some (hinv.atomic_goto hpc .idle rfl).symm
          · simp only [atomicQueue, AtomicQueue.label, hreturning, observedRing, label, hpc]
        · next result hpc =>
          obtain rfl := Option.some.inj hstep
          have hreturning : s.atomic.phase t = .returning (.popped result) := by
            simp only [State.atomic, hpc, phase]
          refine ⟨.ret t, _, ?_, ?_, hnext, rfl⟩
          · simp only [atomicQueue, AtomicQueue.step, hreturning]
            exact congrArg some (hinv.atomic_goto hpc .idle rfl).symm
          · simp only [atomicQueue, AtomicQueue.label, hreturning, observedRing, label, hpc]
        · cases hstep

/-- **The ring is an atomic bounded queue**, up to calls that miss: for every capacity `2 ^ k` with
`k ≥ 1`, any threads and any interleaving, what the callers see is what the atomic queue of this
size can show. -/
theorem ring_refines_atomicQueue (hk : 1 ≤ k) :
    (observedRing Tid T (2 ^ k)).Refines (atomicQueue Tid T (2 ^ k)) :=
  (simulation hk).refines

/-- The pop that a stalled producer makes fail: the atomic queue has this history too. -/
theorem ring_refines_atomicQueue_stalled :
    ∃ s, (atomicQueue Nat Nat (2 ^ 1)).Reaches
      [.call 0 (.tryPush 10), .call 1 (.tryPush 11), .ret 1 (.pushed true), .call 2 .tryPop,
        .ret 2 (.popped none)] s := by
  have hshown : ((observedRing Nat Nat (2 ^ 1)).shown init (stalledProducer ++ [.ret 2])).map
      Prod.fst = some [.call 0 (.tryPush 10), .call 1 (.tryPush 11), .ret 1 (.pushed true),
        .call 2 .tryPop, .ret 2 (.popped none)] := by
    decide +kernel
  obtain ⟨⟨history, s⟩, hrun, rfl⟩ := Option.map_eq_some_iff.mp hshown
  exact ring_refines_atomicQueue (by decide) _ s
    (Observed.Reaches.of_shown Observed.Reaches.init hrun)

/-- **Calls that do not overlap.**  As long as every call of the ring returns before the next one
begins, whatever threads make the calls, their results are those of a FIFO that is limited to
`2 ^ k` items. -/
theorem ring_oneByOne (hk : 1 ≤ k) {calls : List (AtomicQueue.Completed Tid T)}
    (hreaches : (observedRing Tid T (2 ^ k)).Reaches (AtomicQueue.oneByOne calls) s) :
    calls.map AtomicQueue.Completed.result =
      (fifo (2 ^ k) [] (calls.map AtomicQueue.Completed.op)).2 := by
  obtain ⟨a, hatomic, -⟩ := (simulation hk).reaches hreaches
  exact (AtomicQueue.legal_of_oneByOne hatomic).results

/-- Two threads take turns. -/
theorem ring_oneByOne_turns :
    [AtomicQueue.Completed.mk false (.tryPush 7) (.pushed true),
      AtomicQueue.Completed.mk true .tryPop (.popped (some (some 7)))].map
        AtomicQueue.Completed.result =
      (fifo (2 ^ 1) [] [.tryPush 7, .tryPop]).2 := by
  have hshown : ((observedRing Bool Nat (2 ^ 1)).shown init
      ([.callPush false 7] ++ List.replicate 5 (.run false false) ++ [.ret false, .callPop true] ++
        List.replicate 5 (.run true false) ++ [.ret true])).map Prod.fst =
      some (AtomicQueue.oneByOne [⟨false, .tryPush 7, .pushed true⟩,
        ⟨true, .tryPop, .popped (some (some 7))⟩]) := by
    decide +kernel
  obtain ⟨⟨history, s⟩, hrun, rfl⟩ := Option.map_eq_some_iff.mp hshown
  have hreaches := Observed.Reaches.of_shown Observed.Reaches.init hrun
  rw [List.nil_append] at hreaches
  exact ring_oneByOne (by decide) hreaches

end MessageCenter.MPMCQueue
