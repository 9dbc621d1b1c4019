import MessageCenter.Lib.Machine
import Mathlib.Algebra.Group.Nat.Defs
import Mathlib.Data.List.Nodup

/-!
# Topic ids of the snapshot queues

`registerTopic` of `EventQueueBroadcastFast` and of `EventQueueBroadcastFastBatch`,
called by any number of threads.  The id is what `fetch_add` finds in a 16-bit counter;
the test against the number of topics comes after it, so that calls which fail advance
the counter too and it wraps after `2 ^ 16` calls.

The number of a call is that of the calls which have done their `fetch_add` before it.
Numbers, the flag `late` of a call that began after a failed one, and the list of answers
are history.
-/

namespace MessageCenter.TopicIds

open Concurrency

def UINT16_MAX : Nat := 65535

/-- `m_topicCount.fetch_add(1, …)` on a `uint16_t` -/
def fetchAdd (count : Nat) : Nat := (count + 1) % 2 ^ 16

namespace Snapshot

def FAST_MAX_TOPICS : Nat := 4096

def BATCH_MAX_TOPICS : Nat := 4096

/-- `return (id < MAX_TOPICS) ? id : UINT16_MAX;` -/
def topicId (maxTopics id : Nat) : Nat := if id < maxTopics then id else UINT16_MAX

inductive Pc where
  | idle
  /-- before the `fetch_add` -/
  | fetching (late : Bool)
  /-- before the test and the return -/
  | testing (late : Bool) (number id : Nat)
deriving DecidableEq, Repr

/-- A call that has returned. -/
structure Answer where
  number : Nat
  late : Bool
  result : Nat
deriving DecidableEq, Repr

structure State (Tid : Type) where
  m_topicCount : Nat
  pc : Tid → Pc
  calls : Nat
  answers : List Answer

inductive Action (Tid : Type) where
  | call (t : Tid)
  | fetch (t : Tid)
  | ret (t : Tid)

variable {Tid : Type}

def init : State Tid where
  m_topicCount := 0
  pc := fun _ => .idle
  calls := 0
  answers := []

/-- A call has failed. -/
def State.Failed (s : State Tid) : Prop := ∃ a ∈ s.answers, a.result = UINT16_MAX

instance (s : State Tid) : Decidable s.Failed :=
  inferInstanceAs (Decidable (∃ a ∈ s.answers, a.result = UINT16_MAX))

section
variable [DecidableEq Tid]

def State.goto (s : State Tid) (t : Tid) (pc : Pc) : State Tid :=
  { s with pc := Function.update s.pc t pc }

/-- `id = m_topicCount.fetch_add(1)` -/
def fetch (s : State Tid) (t : Tid) (late : Bool) : State Tid :=
  { s with m_topicCount := fetchAdd s.m_topicCount, calls := s.calls + 1 }.goto t
    (.testing late s.calls s.m_topicCount)

def answer (maxTopics : Nat) (s : State Tid) (t : Tid) (late : Bool) (number id : Nat) :
    State Tid :=
  { s with answers := ⟨number, late, topicId maxTopics id⟩ :: s.answers }.goto t .idle

def step (maxTopics : Nat) (s : State Tid) : Action Tid → Option (State Tid)
  | .call t =>
      match s.pc t with
      | .idle => some (s.goto t (.fetching (decide s.Failed)))
      | _ => none
  | .fetch t =>
      match s.pc t with
      | .fetching late => some (fetch s t late)
      | _ => none
  | .ret t =>
      match s.pc t with
      | .testing late number id => some (answer maxTopics s t late number id)
      | _ => none

/-- `registerTopic` of a class with `maxTopics` topics. -/
def machine (Tid : Type) [DecidableEq Tid] (maxTopics : Nat) : Machine (State Tid) (Action Tid) :=
  ⟨init, step maxTopics⟩

/-- `EventQueueBroadcastFast::registerTopic` -/
def eventQueueBroadcastFast (Tid : Type) [DecidableEq Tid] : Machine (State Tid) (Action Tid) :=
  machine Tid FAST_MAX_TOPICS

/-- `EventQueueBroadcastFastBatch::registerTopic` -/
def eventQueueBroadcastFastBatch (Tid : Type) [DecidableEq Tid] :
    Machine (State Tid) (Action Tid) :=
  machine Tid BATCH_MAX_TOPICS

end

/-- The ids given so far are distinct and below the limit, and no call that began after a
failed one has succeeded. -/
structure NeverReused (maxTopics : Nat) (s : State Tid) : Prop where
  distinct : ((s.answers.map Answer.result).filter (· ≠ UINT16_MAX)).Nodup
  bounded : ∀ a ∈ s.answers, a.result ≠ UINT16_MAX → a.result < maxTopics
  final : ∀ a ∈ s.answers, a.late = true → a.result = UINT16_MAX

/-! ### The numbers of the calls -/

/-- A call with a number fails after a call with a smaller number has. -/
def AfterFailure (s : State Tid) (late : Bool) (number : Nat) : Prop :=
  late = true → ∃ a ∈ s.answers, a.result = UINT16_MAX ∧ a.number < number

/-- Every call has a number of its own, and the id is that number in sixteen bits. -/
structure Inv (maxTopics : Nat) (s : State Tid) : Prop where
  counter : s.m_topicCount = s.calls % 2 ^ 16
  fetching : ∀ t, s.pc t = .fetching true → s.Failed
  testing : ∀ t late number id, s.pc t = .testing late number id →
    number < s.calls ∧ id = number % 2 ^ 16 ∧ AfterFailure s late number
  answered : ∀ a ∈ s.answers,
    a.number < s.calls ∧ a.result = topicId maxTopics (a.number % 2 ^ 16) ∧
      AfterFailure s a.late a.number
  once : (s.answers.map Answer.number).Nodup
  pending : ∀ t late number id, s.pc t = .testing late number id →
    number ∉ s.answers.map Answer.number
  apart : ∀ t late number id, s.pc t = .testing late number id →
    ∀ u late' id', s.pc u = .testing late' number id' → t = u
  all : ∀ number < s.calls, number ∈ s.answers.map Answer.number ∨
    ∃ t late id, s.pc t = .testing late number id

theorem Inv.init (maxTopics : Nat) : Inv maxTopics (init : State Tid) := by
  constructor <;> simp [Snapshot.init]

variable {maxTopics : Nat} {s next : State Tid} {t : Tid}

theorem AfterFailure.mono {late : Bool} {number : Nat} (h : AfterFailure s late number)
    (hanswers : ∀ a ∈ s.answers, a ∈ next.answers) : AfterFailure next late number := by
  intro hlate
  obtain ⟨a, hmem, hfailed, hlt⟩ := h hlate
  exact ⟨a, hanswers a hmem, hfailed, hlt⟩

section
variable [DecidableEq Tid]

/-- Where another thread is does not change. -/
theorem goto_other {pc pc' : Pc} {u : Tid} (hne : u ≠ t) (hu : (s.goto t pc).pc u = pc') :
    s.pc u = pc' := by
  simp only [State.goto, Function.update_of_ne hne] at hu
  exact hu

theorem goto_self {pc pc' : Pc} (hu : (s.goto t pc).pc t = pc') : pc = pc' := by
  simp only [State.goto, Function.update_self] at hu
  exact hu

/-- A call that is being tested is another thread's if `t` does not come to a test. -/
theorem testing_other {pc : Pc} {u : Tid} {late : Bool} {number id : Nat}
    (hpc : ∀ late number id, pc ≠ .testing late number id)
    (hu : (s.goto t pc).pc u = .testing late number id) :
    u ≠ t ∧ s.pc u = .testing late number id := by
  have hne : u ≠ t := by
    rintro rfl
    exact hpc late number id (goto_self hu)
  exact ⟨hne, goto_other hne hu⟩

theorem Inv.call (h : Inv maxTopics s) (hpc : s.pc t = .idle) :
    Inv maxTopics (s.goto t (.fetching (decide s.Failed))) where
  counter := h.counter
  fetching u hu := by
    by_cases heq : u = t
    · subst heq
      have hfailed := goto_self hu
      rw [Pc.fetching.injEq, decide_eq_true_eq] at hfailed
      exact hfailed
    · exact h.fetching u (goto_other heq hu)
  testing u late number id hu := h.testing u late number id (testing_other (by simp) hu).2
  answered := h.answered
  once := h.once
  pending u late number id hu := h.pending u late number id (testing_other (by simp) hu).2
  apart u late number id hu v late' id' hv :=
    h.apart u late number id (testing_other (by simp) hu).2 v late' id' (testing_other (by simp) hv).2
  all number hlt := by
    refine (h.all number hlt).imp_right ?_
    rintro ⟨u, late, id, hu⟩
    have hne : u ≠ t := by
      rintro rfl
      simp [hpc] at hu
    exact ⟨u, late, id, by simpa [State.goto, hne] using hu⟩

theorem Inv.fetch {late : Bool} (h : Inv maxTopics s) (hpc : s.pc t = .fetching late) :
    Inv maxTopics (fetch s t late) where
  counter := by
    simp only [Snapshot.fetch, State.goto, fetchAdd, h.counter]
    omega
  fetching u hu := by
    by_cases heq : u = t
    · subst heq
      cases goto_self hu
    · exact h.fetching u (goto_other heq hu)
  testing u late' number id hu := by
    by_cases heq : u = t
    · subst heq
      obtain ⟨rfl, rfl, rfl⟩ := Pc.testing.inj (goto_self hu)
      refine ⟨Nat.lt_succ_self _, h.counter, fun hlate => ?_⟩
      obtain ⟨a, hmem, hfailed⟩ := h.fetching u (hlate ▸ hpc)
      exact ⟨a, hmem, hfailed, (h.answered a hmem).1⟩
    · obtain ⟨hlt, hid, hafter⟩ := h.testing u late' number id (goto_other heq hu)
      exact ⟨Nat.lt_succ_of_lt hlt, hid, hafter⟩
  answered a hmem := by
    obtain ⟨hlt, hresult, hafter⟩ := h.answered a hmem
    exact ⟨Nat.lt_succ_of_lt hlt, hresult, hafter⟩
  once := h.once
  pending u late' number id hu := by
    by_cases heq : u = t
    · subst heq
      obtain ⟨-, rfl, -⟩ := Pc.testing.inj (goto_self hu)
      intro hmem
      obtain ⟨a, hmem, hnumber⟩ := List.mem_map.mp hmem
      exact Nat.lt_irrefl _ (hnumber ▸ (h.answered a hmem).1)
    · exact h.pending u late' number id (goto_other heq hu)
  apart u late' number id hu v late'' id' hv := by
    -- the new number is larger than all that are being tested
    by_cases hut : u = t <;> by_cases hvt : v = t
    · exact hut.trans hvt.symm
    · subst hut
      obtain ⟨-, rfl, -⟩ := Pc.testing.inj (goto_self hu)
      exact absurd (h.testing v _ _ _ (goto_other hvt hv)).1 (Nat.lt_irrefl _)
    · subst hvt
      obtain ⟨-, rfl, -⟩ := Pc.testing.inj (goto_self hv)
      exact absurd (h.testing u _ _ _ (goto_other hut hu)).1 (Nat.lt_irrefl _)
    · exact h.apart u late' number id (goto_other hut hu) v late'' id' (goto_other hvt hv)
  all number hlt := by
    by_cases hnew : number = s.calls
    · exact .inr ⟨t, late, s.m_topicCount, by simp [Snapshot.fetch, State.goto, hnew]⟩
    · have hold : number < s.calls := by
        have hsucc : number < s.calls + 1 := hlt
        omega
      refine (h.all number hold).imp_right ?_
      rintro ⟨u, late', id, hu⟩
      have hne : u ≠ t := by
        rintro rfl
        simp [hpc] at hu
      exact ⟨u, late', id, by simpa [Snapshot.fetch, State.goto, hne] using hu⟩

theorem Inv.answer {late : Bool} {number id : Nat} (h : Inv maxTopics s)
    (hpc : s.pc t = .testing late number id) :
    Inv maxTopics (answer maxTopics s t late number id) := by
  have hmono : ∀ a ∈ s.answers, a ∈ (Snapshot.answer maxTopics s t late number id).answers :=
    fun a hmem => List.mem_cons_of_mem _ hmem
  obtain ⟨hlt, hid, hafter⟩ := h.testing t late number id hpc
  refine ⟨h.counter, fun u hu => ?_, fun u late' number' id' hu => ?_, fun a hmem => ?_, ?_,
    fun u late' number' id' hu => ?_, fun u late' number' id' hu v late'' id'' hv => ?_,
    fun number' hlt' => ?_⟩
  · have hne : u ≠ t := by
      rintro rfl
      cases goto_self hu
    obtain ⟨a, hmem, hfailed⟩ := h.fetching u (goto_other hne hu)
    exact ⟨a, hmono a hmem, hfailed⟩
  · obtain ⟨hlt', hid', hafter'⟩ := h.testing u late' number' id' (testing_other (by simp) hu).2
    exact ⟨hlt', hid', hafter'.mono hmono⟩
  · rcases List.mem_cons.mp hmem with rfl | hmem
    · exact ⟨hlt, hid ▸ rfl, hafter.mono hmono⟩
    · obtain ⟨hlt', hresult, hafter'⟩ := h.answered a hmem
      exact ⟨hlt', hresult, hafter'.mono hmono⟩
  · exact List.nodup_cons.mpr ⟨h.pending t late number id hpc, h.once⟩
  · obtain ⟨hne, hold⟩ := testing_other (by simp) hu
    intro hmem
    rcases List.mem_cons.mp hmem with rfl | hmem
    · exact hne (h.apart u late' number' id' hold t late id hpc)
    · exact h.pending u late' number' id' hold hmem
  · exact h.apart u late' number' id' (testing_other (by simp) hu).2 v late'' id'' (testing_other (by simp) hv).2
  · rcases h.all number' hlt' with hmem | ⟨u, late', id', hu⟩
    · exact .inl (List.mem_cons_of_mem _ hmem)
    · by_cases heq : u = t
      · subst heq
        obtain ⟨-, rfl, -⟩ := Pc.testing.inj (hpc.symm.trans hu)
        exact .inl List.mem_cons_self
      · exact .inr ⟨u, late', id', by simpa [Snapshot.answer, State.goto, heq] using hu⟩

theorem inv_of_reachable (hreach : (machine Tid maxTopics).Reachable s) : Inv maxTopics s := by
  refine hreach.invariant (Inv maxTopics) (Inv.init maxTopics) ?_
  intro s next action h hstep
  cases action with
  | call t =>
      cases hpc : s.pc t <;> simp only [machine, step, hpc, Option.some.injEq, reduceCtorEq] at hstep
      exact hstep ▸ h.call hpc
  | fetch t =>
      cases hpc : s.pc t <;> simp only [machine, step, hpc, Option.some.injEq, reduceCtorEq] at hstep
      exact hstep ▸ h.fetch hpc
  | ret t =>
      cases hpc : s.pc t <;> simp only [machine, step, hpc, Option.some.injEq, reduceCtorEq] at hstep
      exact hstep ▸ h.answer hpc

end

/-! ### Up to the wrap, and beyond it -/

theorem topicId_eq_max_iff (hmax : maxTopics ≤ UINT16_MAX) (id : Nat) :
    topicId maxTopics id = UINT16_MAX ↔ maxTopics ≤ id := by
  rw [topicId]
  split <;> omega

/-- Before the wrap the id is the number. -/
theorem Inv.result_eq (h : Inv maxTopics s) (hcalls : s.calls ≤ 2 ^ 16) {a : Answer}
    (hmem : a ∈ s.answers) : a.result = topicId maxTopics a.number := by
  obtain ⟨hlt, hresult, -⟩ := h.answered a hmem
  rw [hresult, Nat.mod_eq_of_lt (Nat.lt_of_lt_of_le hlt hcalls)]

theorem Inv.neverReused (h : Inv maxTopics s) (hmax : maxTopics ≤ UINT16_MAX)
    (hcalls : s.calls ≤ 2 ^ 16) : NeverReused maxTopics s where
  distinct := by
    have hgiven : ∀ a ∈ s.answers.filter (fun a => a.result ≠ UINT16_MAX),
        a ∈ s.answers ∧ a.result = a.number := by
      intro a hmem
      obtain ⟨hmem, hne⟩ := List.mem_filter.mp hmem
      rw [decide_eq_true_eq, h.result_eq hcalls hmem] at hne
      have hlt := Nat.lt_of_not_le (mt (topicId_eq_max_iff hmax a.number).mpr hne)
      exact ⟨hmem, by rw [h.result_eq hcalls hmem, topicId, if_pos hlt]⟩
    rw [List.filter_map]
    refine (h.once.of_map.filter _).map_on fun a ha b hb heq => ?_
    obtain ⟨hamem, haResult⟩ := hgiven a ha
    obtain ⟨hbmem, hbResult⟩ := hgiven b hb
    rw [haResult, hbResult] at heq
    exact List.inj_on_of_nodup_map h.once hamem hbmem heq
  bounded a hmem hne := by
    rw [h.result_eq hcalls hmem] at hne ⊢
    have hlt := Nat.lt_of_not_le (mt (topicId_eq_max_iff hmax a.number).mpr hne)
    rwa [topicId, if_pos hlt]
  final a hmem hlate := by
    obtain ⟨b, hb, hfailed, hlt⟩ := (h.answered a hmem).2.2 hlate
    rw [h.result_eq hcalls hb, topicId_eq_max_iff hmax] at hfailed
    rw [h.result_eq hcalls hmem, topicId_eq_max_iff hmax]
    omega

/-- After the wrap the id 0 has been given twice. -/
theorem Inv.reused (h : Inv maxTopics s) (hpos : 0 < maxTopics)
    (hidle : ∀ t, s.pc t = .idle) (hcalls : 2 ^ 16 < s.calls) : ¬ NeverReused maxTopics s := by
  have hanswered : ∀ number < s.calls, ∃ a ∈ s.answers, a.number = number := by
    intro number hlt
    rcases h.all number hlt with hmem | ⟨t, late, id, hpc⟩
    · exact List.mem_map.mp hmem
    · rw [hidle t] at hpc
      contradiction
  obtain ⟨a, ha, hfirst⟩ := hanswered 0 (by omega)
  obtain ⟨b, hb, hsecond⟩ := hanswered (2 ^ 16) hcalls
  have hzero : topicId maxTopics 0 = 0 := if_pos hpos
  have haResult : a.result = 0 := by
    rw [(h.answered a ha).2.1, hfirst]
    exact hzero
  have hbResult : b.result = 0 := by
    rw [(h.answered b hb).2.1, hsecond]
    exact hzero
  intro hnever
  have hdistinct := hnever.distinct
  rw [List.filter_map] at hdistinct
  have heq : a = b := by
    apply List.inj_on_of_nodup_map hdistinct
    · exact List.mem_filter.mpr ⟨ha, by simp [haResult, UINT16_MAX]⟩
    · exact List.mem_filter.mpr ⟨hb, by simp [hbResult, UINT16_MAX]⟩
    · exact haResult.trans hbResult.symm
  rw [heq, hsecond] at hfirst
  contradiction

section
variable [DecidableEq Tid]

theorem neverReused_iff (hpos : 0 < maxTopics) (hmax : maxTopics ≤ UINT16_MAX)
    (hreach : (machine Tid maxTopics).Reachable s) :
    (s.calls ≤ 2 ^ 16 → NeverReused maxTopics s) ∧
      ((∀ t, s.pc t = .idle) → (NeverReused maxTopics s ↔ s.calls ≤ 2 ^ 16)) := by
  have h := inv_of_reachable hreach
  refine ⟨h.neverReused hmax, fun hidle => ⟨fun hnever => ?_, h.neverReused hmax⟩⟩
  by_contra hcalls
  exact h.reused hpos hidle (Nat.lt_of_not_le hcalls) hnever

/-- **Ids are never reused up to the wrap of the counter.**  After up to `2 ^ 16` calls of
`registerTopic`, in any interleaving, and whenever no call is in progress after those
numbers of calls only. -/
theorem topicIds_neverReused_iff {fast batch : State Tid}
    (hfast : (eventQueueBroadcastFast Tid).Reachable fast)
    (hbatch : (eventQueueBroadcastFastBatch Tid).Reachable batch) :
    ((fast.calls ≤ 2 ^ 16 → NeverReused FAST_MAX_TOPICS fast) ∧
      ((∀ t, fast.pc t = .idle) → (NeverReused FAST_MAX_TOPICS fast ↔ fast.calls ≤ 2 ^ 16))) ∧
    ((batch.calls ≤ 2 ^ 16 → NeverReused BATCH_MAX_TOPICS batch) ∧
      ((∀ t, batch.pc t = .idle) → (NeverReused BATCH_MAX_TOPICS batch ↔ batch.calls ≤ 2 ^ 16))) :=
  ⟨neverReused_iff (by decide) (by decide) hfast, neverReused_iff (by decide) (by decide) hbatch⟩

/-- One thread calls again and again. -/
theorem exists_calls (maxTopics : Nat) (t : Tid) (n : Nat) :
    ∃ s, (machine Tid maxTopics).Reachable s ∧ s.calls = n ∧ ∀ u, s.pc u = .idle := by
  induction n with
  | zero => exact ⟨init, Machine.ReachableUnder.init, rfl, fun _ => rfl⟩
  | succ n ih =>
      obtain ⟨s, hreach, hcalls, hidle⟩ := ih
      have hcall := hreach.next (show (machine Tid maxTopics).step s (.call t) =
        some (s.goto t (.fetching (decide s.Failed))) by simp [machine, step, hidle t])
      have hfetch := hcall.next (show (machine Tid maxTopics).step _ (.fetch t) = some _ by
        simp only [machine, step, State.goto, Function.update_self]; rfl)
      have hret := hfetch.next (show (machine Tid maxTopics).step _ (.ret t) = some _ by
        simp only [machine, step, fetch, State.goto, Function.update_self]; rfl)
      refine ⟨_, hret, congrArg Nat.succ hcalls, fun u => ?_⟩
      by_cases heq : u = t
      · simp [answer, State.goto, heq]
      · simp [answer, State.goto, heq, hidle u]

end

/-- Two threads overlap, on a fresh queue of each class. -/
def twoCalls : List (Action Bool) :=
  [.call true, .call false, .fetch false, .fetch true, .ret true, .ret false]

theorem topicIds_neverReused_two : ∃ fast batch : State Bool,
    fast.answers.map Answer.result = [0, 1] ∧ batch.answers.map Answer.result = [0, 1] ∧
      ((fast.calls ≤ 2 ^ 16 → NeverReused FAST_MAX_TOPICS fast) ∧
        ((∀ t, fast.pc t = .idle) →
          (NeverReused FAST_MAX_TOPICS fast ↔ fast.calls ≤ 2 ^ 16))) ∧
      ((batch.calls ≤ 2 ^ 16 → NeverReused BATCH_MAX_TOPICS batch) ∧
        ((∀ t, batch.pc t = .idle) →
          (NeverReused BATCH_MAX_TOPICS batch ↔ batch.calls ≤ 2 ^ 16))) := by
  obtain ⟨fast, hfast, htest⟩ := (eventQueueBroadcastFast Bool).exists_reachable_of_run twoCalls
    (fun s => decide (s.answers.map Answer.result = [0, 1])) (by decide +kernel)
  obtain ⟨batch, hbatch, btest⟩ :=
    (eventQueueBroadcastFastBatch Bool).exists_reachable_of_run twoCalls
      (fun s => decide (s.answers.map Answer.result = [0, 1])) (by decide +kernel)
  exact ⟨fast, batch, of_decide_eq_true htest, of_decide_eq_true btest,
    topicIds_neverReused_iff hfast hbatch⟩

/-- After 65537 calls the id 0 has been given twice, by either class. -/
theorem topicIds_reused :
    (∃ s, (eventQueueBroadcastFast Unit).Reachable s ∧ s.calls = 65537 ∧
      ¬ NeverReused FAST_MAX_TOPICS s) ∧
    ∃ s, (eventQueueBroadcastFastBatch Unit).Reachable s ∧ s.calls = 65537 ∧
      ¬ NeverReused BATCH_MAX_TOPICS s := by
  obtain ⟨s, hs, hcalls, hidle⟩ := exists_calls FAST_MAX_TOPICS () 65537
  have hreused : ¬ NeverReused FAST_MAX_TOPICS s :=
    (inv_of_reachable hs).reused (by decide) hidle (by omega)
  exact ⟨⟨s, hs, hcalls, hreused⟩, s, hs, hcalls, hreused⟩

end Snapshot

end MessageCenter.TopicIds
