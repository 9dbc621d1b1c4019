import MessageCenter.Lib.Ledger
import MessageCenter.TopicIds.Snapshot

/-!
# Topic ids of `EventQueueEmulator`

`registerTopic` called by any number of threads.  A call that finds the counter at the
limit takes its increment back, in a later step; until then others see a count that is
too large.  As long as fewer than 65280 calls are in progress the 16-bit counter does
not wrap, and what is too much in it is the increments still to be taken back.

An id is handed out by the `fetch_add` that finds it.  `handedOut` counts these, `active`
lists the calls in progress, `writes` the topics whose priority was written, `results`
what calls have returned; all four are history.
-/

namespace MessageCenter.TopicIds.Emulator

open Concurrency Accounting

def EMU_MAX_TOPICS : Nat := 256

/-- `m_topicCount.fetch_sub(1, …)` on a `uint16_t` -/
def fetchSub (count : Nat) : Nat := (count + (2 ^ 16 - 1)) % 2 ^ 16

inductive TopicPriority where
  | Critical
  | Normal
deriving DecidableEq, Repr

inductive Pc where
  | idle
  | fetching (priority : TopicPriority)
  /-- `if (id >= EMU_MAX_TOPICS)` -/
  | testing (priority : TopicPriority) (id : Nat)
  /-- before the `fetch_sub` -/
  | undoing
  /-- `m_topics[id].priority = priority` -/
  | writing (priority : TopicPriority) (id : Nat)
  | returning (result : Nat)
deriving DecidableEq, Repr

/-- `priority` is none for a topic whose priority was never written. -/
structure State (Tid : Type) where
  m_topicCount : Nat
  priority : Nat → Option TopicPriority
  pc : Tid → Pc
  handedOut : Nat
  active : List Tid
  writes : List Nat
  results : List Nat

inductive Action (Tid : Type) where
  | call (t : Tid) (priority : TopicPriority)
  /-- the next step of `t`'s call -/
  | run (t : Tid)

variable {Tid : Type}

def init : State Tid where
  m_topicCount := 0
  priority := fun _ => none
  pc := fun _ => .idle
  handedOut := 0
  active := []
  writes := []
  results := []

section
variable [DecidableEq Tid]

def State.goto (s : State Tid) (t : Tid) (pc : Pc) : State Tid :=
  { s with pc := Function.update s.pc t pc }

/-- `id = m_topicCount.fetch_add(1)` -/
def fetch (s : State Tid) (t : Tid) (priority : TopicPriority) : State Tid :=
  { s with
    m_topicCount := fetchAdd s.m_topicCount
    handedOut :=
      if s.m_topicCount < EMU_MAX_TOPICS then s.handedOut + 1 else s.handedOut }.goto t
    (.testing priority s.m_topicCount)

def undo (s : State Tid) (t : Tid) : State Tid :=
  { s with m_topicCount := fetchSub s.m_topicCount }.goto t (.returning UINT16_MAX)

def write (s : State Tid) (t : Tid) (priority : TopicPriority) (id : Nat) : State Tid :=
  { s with
    priority := Function.update s.priority id (some priority)
    writes := id :: s.writes }.goto t (.returning id)

def ret (s : State Tid) (t : Tid) (result : Nat) : State Tid :=
  { s with results := result :: s.results, active := s.active.erase t }.goto t .idle

def runCall (s : State Tid) (t : Tid) : Option (State Tid) :=
  match s.pc t with
  | .idle => none
  | .fetching priority => some (fetch s t priority)
  | .testing priority id =>
      some (s.goto t (if id ≥ EMU_MAX_TOPICS then .undoing else .writing priority id))
  | .undoing => some (undo s t)
  | .writing priority id => some (write s t priority id)
  | .returning result => some (ret s t result)

def step (s : State Tid) : Action Tid → Option (State Tid)
  | .call t priority =>
      if s.pc t = .idle then
        some ({ s with active := t :: s.active }.goto t (.fetching priority))
      else none
  | .run t => runCall s t

/-- `EventQueueEmulator::registerTopic` -/
def machine (Tid : Type) [DecidableEq Tid] : Machine (State Tid) (Action Tid) := ⟨init, step⟩

end

/-- Fewer than 65280 calls are in progress, the one that begins included. -/
def Few (s : State Tid) : Action Tid → Prop
  | .call _ _ => s.active.length + 1 < 65280
  | .run _ => True

/-- The call has raised the counter and is going to fail, and has not lowered it yet. -/
def Pc.Overshot : Pc → Bool
  | .testing _ id => decide (id ≥ EMU_MAX_TOPICS)
  | .undoing => true
  | .idle | .fetching _ | .writing _ _ | .returning _ => false

/-- The id that a call in progress is going to return. -/
def Pc.id? : Pc → Option Nat
  | .testing _ id => if id ≥ EMU_MAX_TOPICS then none else some id
  | .writing _ id => some id
  | .returning result => if result = UINT16_MAX then none else some result
  | .idle | .fetching _ | .undoing => none

/-- The successful results are distinct ids, a call fails only when all ids are handed
out, every id handed out is returned or about to be, no two calls write one priority, and
without a call in progress the counter says how many ids were returned. -/
structure Safe (s : State Tid) : Prop where
  distinct : (s.results.filter (· ≠ UINT16_MAX)).Nodup
  bounded : ∀ id ∈ s.results, id ≠ UINT16_MAX → id < EMU_MAX_TOPICS
  failing : ∀ t, (s.pc t).Overshot → s.handedOut = EMU_MAX_TOPICS
  failed : UINT16_MAX ∈ s.results → s.handedOut = EMU_MAX_TOPICS
  given : ∀ id < s.handedOut, id ∈ s.results ∨ ∃ t, (s.pc t).id? = some id
  written : s.writes.Nodup
  quiet : (∀ t, s.pc t = .idle) → s.m_topicCount = (s.results.filter (· ≠ UINT16_MAX)).length

/-! ### Increments to be taken back -/

/-- The number of calls whose increment is still to be taken back. -/
def State.overshoot (s : State Tid) : Nat := s.active.countP fun t => (s.pc t).Overshot

variable {s next : State Tid} {t : Tid}

theorem overshoot_le (s : State Tid) : s.overshoot ≤ s.active.length := List.countP_le_length

theorem exists_of_overshoot_pos (hpos : 0 < s.overshoot) : ∃ t, (s.pc t).Overshot := by
  obtain ⟨t, -, ht⟩ := List.countP_pos_iff.mp hpos
  exact ⟨t, ht⟩

section
variable [DecidableEq Tid]

theorem overshoot_goto (hnodup : s.active.Nodup) (hmem : t ∈ s.active) (pc : Pc) :
    (s.goto t pc).overshoot + (if (s.pc t).Overshot then 1 else 0) =
      s.overshoot + (if pc.Overshot then 1 else 0) := by
  have hothers : (s.active.erase t).countP (fun u => ((s.goto t pc).pc u).Overshot) =
      (s.active.erase t).countP fun u => (s.pc u).Overshot := by
    refine List.countP_congr fun u hu => ?_
    have hne : u ≠ t := fun heq => hnodup.not_mem_erase (heq ▸ hu)
    simp [State.goto, hne]
  have hbefore := (List.perm_cons_erase hmem).countP_eq fun u => (s.pc u).Overshot
  have hafter := (List.perm_cons_erase hmem).countP_eq fun u => ((s.goto t pc).pc u).Overshot
  rw [List.countP_cons] at hbefore hafter
  have hself : (s.goto t pc).pc t = pc := by simp [State.goto]
  rw [hothers, hself] at hafter
  rw [State.overshoot, State.overshoot, hbefore]
  change s.active.countP _ + _ = _
  rw [hafter]
  omega

end

/-! ### The invariant -/

/-- The ids that a call is going to return, and those that were returned. -/
def State.holdings (s : State Tid) : Option Tid → List (Nat × Unit)
  | none => (s.results.filter (· ≠ UINT16_MAX)).map (·, ())
  | some t => (s.pc t).id?.toList.map (·, ())

def State.ids (s : State Tid) (id : Nat) : Option Unit := if id < s.handedOut then some () else none

structure Inv (s : State Tid) : Prop where
  activeOnce : s.active.Nodup
  active : ∀ t, t ∈ s.active ↔ s.pc t ≠ .idle
  few : s.active.length < 65280
  counter : s.m_topicCount = s.handedOut + s.overshoot
  limit : s.handedOut ≤ EMU_MAX_TOPICS
  failing : ∀ t, (s.pc t).Overshot → s.handedOut = EMU_MAX_TOPICS
  failed : UINT16_MAX ∈ s.results ∨ (∃ t, s.pc t = .returning UINT16_MAX) →
    s.handedOut = EMU_MAX_TOPICS
  ledger : Ledger s.holdings s.ids
  written : ∀ id ∈ s.writes, id < s.handedOut
  unwritten : ∀ t priority id, s.pc t = .testing priority id ∨ s.pc t = .writing priority id →
    id ∉ s.writes
  writtenOnce : s.writes.Nodup

theorem Inv.init : Inv (init : State Tid) where
  activeOnce := List.nodup_nil
  active t := by simp [Emulator.init]
  few := by simp [Emulator.init]
  counter := rfl
  limit := Nat.zero_le _
  failing t h := by simp [Emulator.init, Pc.Overshot] at h
  failed h := by simp [Emulator.init] at h
  ledger := by
    have hnone : (Emulator.init : State Tid).holdings = fun _ => [] := by
      funext holder
      cases holder <;> rfl
    rw [hnone]
    exact Ledger.empty
  written id h := by simp [Emulator.init] at h
  unwritten t priority id h := by simp [Emulator.init] at h
  writtenOnce := List.nodup_nil

/-- A call that holds an id has it from the counter, and nobody else has it. -/
theorem Inv.lt_of_id (h : Inv s) {id : Nat} (hid : (s.pc t).id? = some id) : id < s.handedOut := by
  have hcorrect := h.ledger.correct (some t) id () (by simp [State.holdings, hid])
  rw [State.ids] at hcorrect
  by_contra hge
  rw [if_neg hge] at hcorrect
  contradiction

theorem Inv.eq_of_id (h : Inv s) {id : Nat} {u : Tid} (ht : (s.pc t).id? = some id)
    (hu : (s.pc u).id? = some id) : t = u :=
  Option.some.inj (h.ledger.apart (some t) (some u) id (by simp [State.holdings, ht])
    (by simp [State.holdings, hu]))

/-- The counter is within the word, and above the ids only when all are handed out. -/
theorem Inv.counter_cases (h : Inv s) (hmem : t ∈ s.active) (hpc : ¬ (s.pc t).Overshot) :
    s.m_topicCount + 1 < 2 ^ 16 ∧
      (s.m_topicCount = s.handedOut ∧ s.handedOut < EMU_MAX_TOPICS ∧ s.overshoot = 0 ∨
        s.handedOut = EMU_MAX_TOPICS ∧ EMU_MAX_TOPICS ≤ s.m_topicCount) := by
  have hcounter := h.counter
  have hlimit := h.limit
  have hfew := h.few
  have hle := overshoot_le s
  have hmax : EMU_MAX_TOPICS = 256 := rfl
  refine ⟨?_, ?_⟩
  · have hlt : s.overshoot < s.active.length := by
      refine Nat.lt_of_le_of_ne hle fun heq => hpc ?_
      exact List.countP_eq_length.mp heq t hmem
    omega
  · rcases Nat.eq_zero_or_pos s.overshoot with hzero | hpos
    · omega
    · obtain ⟨u, hu⟩ := exists_of_overshoot_pos hpos
      have hfull := h.failing u hu
      omega

section
variable [DecidableEq Tid]

theorem holdings_update (s next : State Tid) (t : Tid) (pc : Pc)
    (hpc : next.pc = Function.update s.pc t pc) (hresults : next.results = s.results) :
    next.holdings = Function.update s.holdings (some t) (pc.id?.toList.map (·, ())) := by
  funext holder
  cases holder with
  | none => simp [State.holdings, hresults]
  | some u =>
      by_cases heq : u = t
      · simp [State.holdings, hpc, heq]
      · simp [State.holdings, hpc, heq]

/-- A step that leaves the call its id. -/
theorem Inv.move (h : Inv s) (pc : Pc) (hmem : t ∈ s.active)
    (hpc : next.pc = Function.update s.pc t pc) (hactive : next.active = s.active)
    (hhanded : next.handedOut = s.handedOut) (hresults : next.results = s.results)
    (hidle : pc ≠ .idle) (hid : pc.id? = (s.pc t).id?)
    (hcounter : next.m_topicCount = s.handedOut + (s.goto t pc).overshoot)
    (hfailing : pc.Overshot → s.handedOut = EMU_MAX_TOPICS)
    (hfailed : pc = .returning UINT16_MAX → s.handedOut = EMU_MAX_TOPICS)
    (hwritten : ∀ id ∈ next.writes, id < s.handedOut)
    (hunwritten : ∀ u priority id, next.pc u = .testing priority id ∨ next.pc u = .writing priority id →
      id ∉ next.writes)
    (honce : next.writes.Nodup) : Inv next where
  activeOnce := hactive ▸ h.activeOnce
  active u := by
    rw [hactive, hpc]
    by_cases heq : u = t
    · subst heq
      simpa [hidle] using hmem
    · simpa [heq] using h.active u
  few := hactive ▸ h.few
  counter := by
    rw [hcounter, hhanded]
    simp only [State.overshoot, hactive, hpc]
    rfl
  limit := hhanded ▸ h.limit
  failing u := by
    rw [hhanded, hpc]
    by_cases heq : u = t
    · subst heq
      simpa using hfailing
    · simpa [heq] using h.failing u
  failed := by
    rw [hhanded, hresults, hpc]
    rintro (hmax | ⟨u, hu⟩)
    · exact h.failed (.inl hmax)
    · by_cases heq : u = t
      · subst heq
        exact hfailed (by simpa using hu)
      · exact h.failed (.inr ⟨u, by simpa [heq] using hu⟩)
  ledger := by
    have hholdings : next.holdings = s.holdings := by
      rw [holdings_update s next t pc hpc hresults, hid]
      exact Function.update_eq_self (some t) s.holdings
    have hids : next.ids = s.ids := by
      funext id
      rw [State.ids, State.ids, hhanded]
    rw [hholdings, hids]
    exact h.ledger
  written := hhanded ▸ hwritten
  unwritten := hunwritten
  writtenOnce := honce

theorem Inv.call (h : Inv s) (hpc : s.pc t = .idle) (priority : TopicPriority)
    (hfew : s.active.length + 1 < 65280) :
    Inv ({ s with active := t :: s.active }.goto t (.fetching priority)) := by
  have hnot : t ∉ s.active := fun hmem => (h.active t).mp hmem hpc
  refine ⟨List.nodup_cons.mpr ⟨hnot, h.activeOnce⟩, fun u => ?_, hfew, ?_, h.limit, fun u hu => ?_,
    fun hfailed => ?_, ?_, h.written, fun u priority' id hu => ?_, h.writtenOnce⟩
  · by_cases heq : u = t
    · simp [State.goto, heq]
    · simpa [State.goto, heq] using h.active u
  · have hothers : s.active.countP (fun u =>
        (Function.update s.pc t (.fetching priority) u).Overshot) = s.overshoot := by
      refine List.countP_congr fun u hu => ?_
      have hne : u ≠ t := fun heq => hnot (heq ▸ hu)
      simp [hne]
    rw [State.overshoot, State.goto, List.countP_cons, hothers]
    simpa [Pc.Overshot] using h.counter
  · have hne : u ≠ t := by
      rintro rfl
      simp [State.goto, Pc.Overshot] at hu
    exact h.failing u (by simpa [State.goto, hne] using hu)
  · refine h.failed (hfailed.imp_right ?_)
    rintro ⟨u, hu⟩
    have hne : u ≠ t := by
      rintro rfl
      simp [State.goto] at hu
    exact ⟨u, by simpa [State.goto, hne] using hu⟩
  · have hholdings : ({ s with active := t :: s.active }.goto t (.fetching priority)).holdings =
        s.holdings := by
      refine (holdings_update s ({ s with active := t :: s.active }.goto t (.fetching priority)) t
        (.fetching priority) rfl rfl).trans ?_
      refine Function.update_eq_iff.mpr ⟨?_, fun _ _ => rfl⟩
      simp [State.holdings, hpc, Pc.id?]
    rw [hholdings]
    exact h.ledger
  · have hne : u ≠ t := by
      rintro rfl
      simp [State.goto] at hu
    exact h.unwritten u priority' id (by simpa [State.goto, hne] using hu)

/-- The `fetch_add` that hands out the next id. -/
theorem Inv.fetchNew (h : Inv s) {priority : TopicPriority} (hpc : s.pc t = .fetching priority)
    (hcount : s.m_topicCount = s.handedOut) (hroom : s.handedOut < EMU_MAX_TOPICS)
    (hnone : s.overshoot = 0) (hword : s.m_topicCount + 1 < 2 ^ 16) :
    Inv (fetch s t priority) := by
  have hmem : t ∈ s.active := (h.active t).mpr (by simp [hpc])
  have hhanded : (fetch s t priority).handedOut = s.handedOut + 1 := by
    simp [fetch, State.goto, hcount, hroom]
  have hpcs : (fetch s t priority).pc = Function.update s.pc t (.testing priority s.handedOut) := by
    simp [fetch, State.goto, hcount]
  have hnot : ∀ u, ¬ (s.pc u).Overshot := fun u hu => by
    have hfull := h.failing u hu
    omega
  have hself : ¬ (Pc.testing priority s.handedOut).Overshot := by
    simpa [Pc.Overshot] using hroom
  refine ⟨h.activeOnce, fun u => ?_, h.few, ?_, by rw [hhanded]; exact hroom, fun u hu => ?_,
    fun hfailed => ?_, ?_, fun id hid => ?_, fun u priority' id hu => ?_, h.writtenOnce⟩
  · change u ∈ s.active ↔ _
    rw [hpcs]
    by_cases heq : u = t
    · subst heq
      simpa using hmem
    · simpa [heq] using h.active u
  · have hgoto := overshoot_goto h.activeOnce hmem (.testing priority s.handedOut)
    rw [if_neg (hnot t), if_neg hself, hnone] at hgoto
    have hover : (fetch s t priority).overshoot = 0 := by
      rw [State.overshoot, hpcs]
      exact hgoto
    rw [hover, hhanded, ← hcount]
    exact Nat.mod_eq_of_lt hword
  · rw [hpcs] at hu
    by_cases heq : u = t
    · subst heq
      exact absurd (by simpa using hu) hself
    · exact absurd (by simpa [heq] using hu) (hnot u)
  · have hfull : s.handedOut = EMU_MAX_TOPICS := by
      refine h.failed (hfailed.imp_right ?_)
      rintro ⟨u, hu⟩
      rw [hpcs] at hu
      have hne : u ≠ t := by
        rintro rfl
        simp at hu
      exact ⟨u, by simpa [hne] using hu⟩
    omega
  · have hholdings := holdings_update s (fetch s t priority) t _ hpcs rfl
    have hid : (Pc.testing priority s.handedOut).id? = some s.handedOut := by
      simp [Pc.id?, Nat.not_le.mpr hroom]
    rw [hholdings, hid]
    have hbefore : (s.holdings (some t)).Perm [] := by simp [State.holdings, hpc, Pc.id?]
    apply h.ledger.create hbefore
    · simp [State.ids]
    · simp [State.ids, hhanded]
    · intro other hne
      simp only [State.ids, hhanded]
      split <;> split <;> first | rfl | omega
  · rw [hhanded]
    exact Nat.lt_succ_of_lt (h.written id hid)
  · rw [hpcs] at hu
    by_cases heq : u = t
    · subst heq
      intro hwritten
      obtain ⟨-, rfl⟩ : priority = priority' ∧ s.handedOut = id := by simpa using hu
      exact Nat.lt_irrefl _ (h.written _ hwritten)
    · exact h.unwritten u priority' id (by simpa [heq] using hu)

/-- The `fetch_add` that finds no id left. -/
theorem Inv.fetchFull (h : Inv s) {priority : TopicPriority} (hpc : s.pc t = .fetching priority)
    (hfull : s.handedOut = EMU_MAX_TOPICS) (hcount : EMU_MAX_TOPICS ≤ s.m_topicCount)
    (hword : s.m_topicCount + 1 < 2 ^ 16) : Inv (fetch s t priority) := by
  have hmem : t ∈ s.active := (h.active t).mpr (by simp [hpc])
  have hhanded : (fetch s t priority).handedOut = s.handedOut := by
    simp [fetch, State.goto, Nat.not_lt.mpr hcount]
  refine h.move (.testing priority s.m_topicCount) hmem rfl rfl hhanded rfl nofun ?_ ?_ (fun _ => hfull) nofun h.written ?_
    h.writtenOnce
  · simp [Pc.id?, hpc, hcount]
  · have hgoto := overshoot_goto h.activeOnce hmem (.testing priority s.m_topicCount)
    rw [if_neg (by simp [hpc, Pc.Overshot]), if_pos (by simpa [Pc.Overshot] using hcount)] at hgoto
    have hcounter := h.counter
    have hadd : (fetch s t priority).m_topicCount = s.m_topicCount + 1 := Nat.mod_eq_of_lt hword
    omega
  · intro u priority' id hu
    by_cases heq : u = t
    · subst heq
      intro hwritten
      obtain ⟨-, hid⟩ : priority = priority' ∧ s.m_topicCount = id := by
        simpa [fetch, State.goto] using hu
      have hlt := h.written id hwritten
      omega
    · exact h.unwritten u priority' id (by simpa [fetch, State.goto, heq] using hu)

theorem Inv.fetch (h : Inv s) {priority : TopicPriority} (hpc : s.pc t = .fetching priority) :
    Inv (fetch s t priority) := by
  have hmem : t ∈ s.active := (h.active t).mpr (by simp [hpc])
  obtain ⟨hword, ⟨hcount, hroom, hnone⟩ | ⟨hfull, hcount⟩⟩ :=
    h.counter_cases hmem (by simp [hpc, Pc.Overshot])
  · exact h.fetchNew hpc hcount hroom hnone hword
  · exact h.fetchFull hpc hfull hcount hword

/-- The calls that have not written yet, after a step of `t` to `pc`. -/
theorem Inv.unwritten_goto (h : Inv s) {pc : Pc}
    (hself : ∀ priority id, pc = .testing priority id ∨ pc = .writing priority id → id ∉ s.writes)
    (u : Tid) (priority : TopicPriority) (id : Nat)
    (hu : (s.goto t pc).pc u = .testing priority id ∨ (s.goto t pc).pc u = .writing priority id) :
    id ∉ s.writes := by
  by_cases heq : u = t
  · subst heq
    exact hself priority id (by simpa [State.goto] using hu)
  · exact h.unwritten u priority id (by simpa [State.goto, heq] using hu)

theorem Inv.test (h : Inv s) {priority : TopicPriority} {id : Nat}
    (hpc : s.pc t = .testing priority id) :
    Inv (s.goto t (if id ≥ EMU_MAX_TOPICS then .undoing else .writing priority id)) := by
  have hmem : t ∈ s.active := (h.active t).mpr (by simp [hpc])
  by_cases hover : id ≥ EMU_MAX_TOPICS
  · rw [if_pos hover]
    have hfull := h.failing t (by simpa [hpc, Pc.Overshot] using hover)
    refine h.move .undoing hmem rfl rfl rfl rfl nofun ?_ ?_ (fun _ => hfull) nofun h.written
      (h.unwritten_goto (by simp)) h.writtenOnce
    · simp [hpc, Pc.id?, hover]
    · have hgoto := overshoot_goto h.activeOnce hmem .undoing
      simp only [hpc, Pc.Overshot, hover, decide_true, if_true] at hgoto
      have hcounter := h.counter
      change s.m_topicCount = _
      omega
  · rw [if_neg hover]
    refine h.move (.writing priority id) hmem rfl rfl rfl rfl nofun ?_ ?_ nofun nofun h.written
      (h.unwritten_goto ?_) h.writtenOnce
    · simp [hpc, Pc.id?, hover]
    · have hgoto := overshoot_goto h.activeOnce hmem (.writing priority id)
      simp only [hpc, Pc.Overshot, hover, decide_false, Bool.false_eq_true, if_false] at hgoto
      have hcounter := h.counter
      change s.m_topicCount = _
      omega
    · intro priority' id' heq
      obtain ⟨rfl, rfl⟩ : priority = priority' ∧ id = id' := by simpa using heq
      exact h.unwritten t priority id (.inl hpc)

theorem Inv.undo (h : Inv s) (hpc : s.pc t = .undoing) : Inv (undo s t) := by
  have hmem : t ∈ s.active := (h.active t).mpr (by simp [hpc])
  have hfull := h.failing t (by simp [hpc, Pc.Overshot])
  have hgoto := overshoot_goto h.activeOnce hmem (.returning UINT16_MAX)
  simp only [hpc, Pc.Overshot, if_true, Bool.false_eq_true, if_false] at hgoto
  have hcounter := h.counter
  have hsub : fetchSub s.m_topicCount = s.m_topicCount - 1 := by
    have hlimit := h.limit
    have hfew := h.few
    have hle := overshoot_le s
    have hmax : EMU_MAX_TOPICS = 256 := rfl
    unfold fetchSub
    omega
  rw [Emulator.undo, hsub]
  refine h.move (.returning UINT16_MAX) hmem rfl rfl rfl rfl nofun ?_ ?_ nofun (fun _ => hfull)
    h.written (h.unwritten_goto (by simp)) h.writtenOnce
  · simp [hpc, Pc.id?]
  · change s.m_topicCount - 1 = _
    omega

theorem Inv.write (h : Inv s) {priority : TopicPriority} {id : Nat}
    (hpc : s.pc t = .writing priority id) : Inv (write s t priority id) := by
  have hmem : t ∈ s.active := (h.active t).mpr (by simp [hpc])
  have hid : (s.pc t).id? = some id := by simp [hpc, Pc.id?]
  have hlt := h.lt_of_id hid
  have hne : id ≠ UINT16_MAX := by
    have hlimit := h.limit
    have hmax : EMU_MAX_TOPICS = 256 := rfl
    have huint : UINT16_MAX = 65535 := rfl
    omega
  refine h.move (.returning id) hmem rfl rfl rfl rfl nofun ?_ ?_ nofun ?_ ?_ ?_ ?_
  · rw [hid, Pc.id?, if_neg hne]
  · have hgoto := overshoot_goto h.activeOnce hmem (.returning id)
    simp only [hpc, Pc.Overshot, Bool.false_eq_true, if_false] at hgoto
    have hcounter := h.counter
    change s.m_topicCount = _
    omega
  · intro heq
    exact absurd (Pc.returning.inj heq) hne
  · intro id' hid'
    rcases List.mem_cons.mp hid' with rfl | hid'
    · exact hlt
    · exact h.written id' hid'
  · intro u priority' id' hu
    have hnt : u ≠ t := by
      rintro rfl
      simp [Emulator.write, State.goto] at hu
    have hu' : s.pc u = .testing priority' id' ∨ s.pc u = .writing priority' id' := by
      simpa [Emulator.write, State.goto, hnt] using hu
    intro hwritten
    rcases List.mem_cons.mp hwritten with rfl | hwritten
    · -- two calls would hold the id
      refine hnt (h.eq_of_id ?_ hid)
      have hroom := Nat.lt_of_lt_of_le hlt h.limit
      rcases hu' with hu' | hu' <;> simp [hu', Pc.id?, Nat.not_le.mpr hroom]
    · exact h.unwritten u priority' id' hu' hwritten
  · exact List.nodup_cons.mpr ⟨h.unwritten t priority id (.inr hpc), h.writtenOnce⟩

/-- The id goes from the call to the results. -/
theorem Inv.ledger_ret (h : Inv s) {result : Nat} (hpc : s.pc t = .returning result) :
    Ledger (ret s t result).holdings (ret s t result).ids := by
  by_cases hmax : result = UINT16_MAX
  · have hholdings : (ret s t result).holdings = s.holdings := by
      funext holder
      cases holder with
      | none => simp [State.holdings, ret, State.goto, hmax]
      | some u =>
          by_cases heq : u = t
          · subst heq
            simp [State.holdings, ret, State.goto, hpc, Pc.id?, hmax]
          · simp [State.holdings, ret, State.goto, heq]
    rw [hholdings]
    exact h.ledger
  · have hmine : (s.holdings (some t)).Perm ([(result, ())] ++ []) := by
      simp [State.holdings, hpc, Pc.id?, hmax]
    have htransfer := h.ledger.transfer (Option.some_ne_none t) hmine
    have hholdings : (ret s t result).holdings = Function.update
        (Function.update s.holdings (some t) []) none ([(result, ())] ++ s.holdings none) := by
      funext holder
      cases holder with
      | none => simp [State.holdings, ret, State.goto, hmax]
      | some u =>
          by_cases heq : u = t
          · simp [State.holdings, ret, State.goto, heq, Pc.id?]
          · simp [State.holdings, ret, State.goto, heq]
    rw [hholdings]
    exact htransfer

theorem Inv.ret (h : Inv s) {result : Nat} (hpc : s.pc t = .returning result) :
    Inv (Emulator.ret s t result) := by
  have hmem : t ∈ s.active := (h.active t).mpr (by simp [hpc])
  have hother : ∀ u, (Emulator.ret s t result).pc u ≠ .idle → u ≠ t ∧ (Emulator.ret s t result).pc u = s.pc u := by
    intro u hu
    have hne : u ≠ t := by
      rintro rfl
      simp [Emulator.ret, State.goto] at hu
    exact ⟨hne, by simp [Emulator.ret, State.goto, hne]⟩
  refine ⟨h.activeOnce.erase t, fun u => ?_, ?_, ?_, h.limit, fun u hu => ?_, fun hfailed => ?_,
    h.ledger_ret hpc, h.written, fun u priority id hu => ?_, h.writtenOnce⟩
  · by_cases heq : u = t
    · subst heq
      simpa [Emulator.ret, State.goto] using h.activeOnce.not_mem_erase
    · simpa [Emulator.ret, State.goto, heq, List.mem_erase_of_ne heq] using h.active u
  · have hlength := List.length_erase_of_mem hmem
    have hfew := h.few
    change (s.active.erase t).length < 65280
    omega
  · have hgoto := overshoot_goto h.activeOnce hmem .idle
    simp only [hpc, Pc.Overshot, Bool.false_eq_true, if_false] at hgoto
    have hperm := (List.perm_cons_erase hmem).countP_eq fun u => ((s.goto t .idle).pc u).Overshot
    have hself : ((s.goto t .idle).pc t).Overshot = false := by simp [State.goto, Pc.Overshot]
    rw [List.countP_cons, hself] at hperm
    have hcounter := h.counter
    change s.m_topicCount = s.handedOut + (s.active.erase t).countP fun u =>
      ((s.goto t .idle).pc u).Overshot
    change (s.goto t .idle).overshoot = _ at hperm
    simp only [Bool.false_eq_true, if_false] at hperm
    omega
  · obtain ⟨-, heq⟩ := hother u (by
      intro hidle
      simp [hidle, Pc.Overshot] at hu)
    exact h.failing u (heq ▸ hu)
  · refine h.failed ?_
    rcases hfailed with hmem | ⟨u, hu⟩
    · rcases List.mem_cons.mp hmem with heq | hmem
      · exact .inr ⟨t, heq ▸ hpc⟩
      · exact .inl hmem
    · obtain ⟨-, heq⟩ := hother u (by simp [hu])
      exact .inr ⟨u, heq ▸ hu⟩
  · obtain ⟨-, heq⟩ := hother u (by rcases hu with hu | hu <;> simp [hu])
    exact h.unwritten u priority id (heq ▸ hu)

theorem inv_of_few (hreach : (machine Tid).ReachableUnder Few s) : Inv s := by
  refine hreach.invariant Inv Inv.init ?_
  intro s next action h hfew hstep
  cases action with
  | call t priority =>
      obtain ⟨hpc, hnext⟩ := Option.ite_none_right_eq_some.mp hstep
      obtain rfl := Option.some.inj hnext
      exact h.call hpc priority hfew
  | run t =>
      cases hpc : s.pc t <;>
        simp only [machine, step, runCall, hpc, Option.some.injEq, reduceCtorEq] at hstep
      case fetching => exact hstep ▸ h.fetch hpc
      case testing => exact hstep ▸ h.test hpc
      case undoing => exact hstep ▸ h.undo hpc
      case writing => exact hstep ▸ h.write hpc
      case returning => exact hstep ▸ h.ret hpc

end

/-! ### What callers can rely on -/

theorem Inv.distinct (h : Inv s) : (s.results.filter (· ≠ UINT16_MAX)).Nodup := by
  have honce := h.ledger.once none
  simpa [State.holdings, Function.comp_def] using honce

theorem Inv.returned_iff (h : Inv s) (hquiet : ∀ t, s.pc t = .idle) (id : Nat) :
    id ∈ s.results.filter (· ≠ UINT16_MAX) ↔ id < s.handedOut := by
  constructor
  · intro hmem
    have hcorrect := h.ledger.correct none id () (List.mem_map.mpr ⟨id, hmem, rfl⟩)
    by_contra hge
    rw [State.ids, if_neg hge] at hcorrect
    contradiction
  · intro hlt
    obtain ⟨holder, hmem⟩ := h.ledger.owned id () (if_pos hlt)
    cases holder with
    | none =>
        simpa [State.holdings] using hmem
    | some t => simp [State.holdings, hquiet t, Pc.id?] at hmem

theorem Inv.safe (h : Inv s) : Safe s where
  distinct := h.distinct
  bounded id hmem hne := by
    have hmem : id ∈ s.results.filter (· ≠ UINT16_MAX) :=
      List.mem_filter.mpr ⟨hmem, decide_eq_true hne⟩
    have hcorrect := h.ledger.correct none id () (List.mem_map.mpr ⟨id, hmem, rfl⟩)
    have hlimit := h.limit
    by_contra hge
    rw [State.ids, if_neg (by omega)] at hcorrect
    contradiction
  failing := h.failing
  failed hmem := h.failed (.inl hmem)
  given id hlt := by
    obtain ⟨holder, hmem⟩ := h.ledger.owned id () (if_pos hlt)
    cases holder with
    | none =>
        have hreturned : id ∈ s.results ∧ id ≠ UINT16_MAX := by simpa [State.holdings] using hmem
        exact .inl hreturned.1
    | some t =>
        refine .inr ⟨t, ?_⟩
        simpa [State.holdings] using hmem
  written := h.writtenOnce
  quiet hquiet := by
    have hover : s.overshoot = 0 := by
      rw [State.overshoot, List.countP_eq_zero]
      intro t _
      simp [hquiet t, Pc.Overshot]
    have hperm : (s.results.filter (· ≠ UINT16_MAX)).Perm (List.range s.handedOut) := by
      rw [List.perm_ext_iff_of_nodup h.distinct List.nodup_range]
      intro id
      rw [h.returned_iff hquiet, List.mem_range]
    rw [h.counter, hover, hperm.length_eq, List.length_range, Nat.add_zero]

/-- **`registerTopic` is safe** as long as fewer than 65280 calls are in progress. -/
theorem registerTopic_safe [DecidableEq Tid] (hreach : (machine Tid).ReachableUnder Few s) :
    Safe s :=
  (inv_of_few hreach).safe

instance (s : State Tid) : (action : Action Tid) → Decidable (Few s action)
  | .call _ _ => inferInstanceAs (Decidable (s.active.length + 1 < 65280))
  | .run _ => isTrue trivial

/-- One thread takes all the ids, another one is refused. -/
def fillUp : List (Action Bool) :=
  (List.replicate 256 [.call true .Normal, .run true, .run true, .run true, .run true]).flatten ++
    [.call false .Critical, .run false, .run false, .run false, .run false]

theorem registerTopic_safe_full : ∃ s : State Bool,
    (s.results.head? = some UINT16_MAX ∧ s.handedOut = 256) ∧ Safe s := by
  obtain ⟨s, hreach, htest⟩ := (machine Bool).exists_reachableUnder_of_run
    (fun s action => decide (Few s action)) (fun _ _ => of_decide_eq_true) fillUp
    (fun s => decide (s.results.head? = some UINT16_MAX ∧ s.handedOut = 256)) (by decide +kernel)
  exact ⟨s, of_decide_eq_true htest, registerTopic_safe hreach⟩

end MessageCenter.TopicIds.Emulator
