import MessageCenter.Lib.Simulation
import MessageCenter.MpmcQueue.Capacity

/-!
# The atomic queue

What the ring is for when many threads call it: a bounded FIFO on which each call takes effect
at one instant between its invocation and its return.  The ring keeps less than that, and this
queue says how much less.  A call that has succeeded has still to settle before it returns.  Until
then another call may miss: a pop misses the item of a push that has not settled, and a push
misses the room that a pop makes before it has settled.
-/

namespace MessageCenter.MPMCQueue

open Concurrency

universe u v w

/-- What a thread shows: its calls and their results. -/
inductive CallEvent (Tid : Type u) (T : Type v) where
  | call (thread : Tid) (op : Op T)
  | ret (thread : Tid) (result : Result T)
deriving DecidableEq, Repr

def Op.map {T : Type v} {U : Type w} (f : T → U) : Op T → Op U
  | .tryPush item => .tryPush (f item)
  | .tryPop => .tryPop

def Result.map {T : Type v} {U : Type w} (f : T → U) : Result T → Result U
  | .pushed ok => .pushed ok
  | .popped item => .popped (item.map fun entry => entry.map f)

/-- What a queue does does not depend on what its items are. -/
theorem fifoStep_map {T : Type v} {U : Type w} (f : T → U) (limit : Nat) (items : List T) (op : Op T) :
    fifoStep limit (items.map f) (op.map f) =
      ((fifoStep limit items op).1.map f, (fifoStep limit items op).2.map f) := by
  cases op with
  | tryPush item =>
      simp only [Op.map, fifoStep, List.length_map]
      split <;> simp [Result.map]
  | tryPop =>
      cases items with
      | nil => rfl
      | cons entry rest => rfl

namespace AtomicQueue

variable {Tid : Type u} {T : Type v}

inductive Phase (T : Type v) where
  | idle
  | called (op : Op T)
  /-- the call has succeeded and not settled -/
  | settling (result : Result T)
  | returning (result : Result T)
deriving DecidableEq, Repr

/-- An item is marked with the thread that pushed it until that push has settled. -/
structure State (Tid : Type u) (T : Type v) where
  items : List (Option Tid × T)
  phase : Tid → Phase T

inductive Action (Tid : Type u) (T : Type v) where
  | call (thread : Tid) (op : Op T)
  /-- the call takes effect -/
  | effect (thread : Tid)
  | settle (thread : Tid)
  /-- the call misses because of `peer` -/
  | miss (thread peer : Tid)
  | ret (thread : Tid)
deriving DecidableEq, Repr

def init : State Tid T := ⟨[], fun _ => .idle⟩

def mark (t : Tid) (op : Op T) : Op (Option Tid × T) := op.map fun item => (some t, item)

/-- Only a call that has succeeded has to settle. -/
def afterEffect : Result T → Phase T
  | .pushed true => .settling (.pushed true)
  | .popped (some item) => .settling (.popped (some item))
  | result => .returning result

/-- The answer of a call that misses. -/
def missed : Op T → Result T
  | .tryPush _ => .pushed false
  | .tryPop => .popped none

variable [DecidableEq Tid]

/-- The push of `t` has settled. -/
def unmark (t : Tid) (entry : Option Tid × T) : Option Tid × T :=
  if entry.1 = some t then (none, entry.2) else entry

/-- Because of this thread a call may miss. -/
def mayMiss (s : State Tid T) (peer : Tid) : Op T → Bool
  | .tryPush _ =>
      match s.phase peer with
      | .settling (.popped _) => true
      | _ => false
  | .tryPop =>
      match s.items with
      | entry :: _ => entry.1 = some peer
      | [] => false

def State.goto (s : State Tid T) (t : Tid) (phase : Phase T) : State Tid T :=
  { s with phase := Function.update s.phase t phase }

def step (limit : Nat) (s : State Tid T) : Action Tid T → Option (State Tid T)
  | .call t op =>
      match s.phase t with
      | .idle => some (s.goto t (.called op))
      | _ => none
  | .effect t =>
      match s.phase t with
      | .called op =>
          let (items, result) := fifoStep limit s.items (mark t op)
          some { s.goto t (afterEffect (result.map Prod.snd)) with items := items }
      | _ => none
  | .settle t =>
      match s.phase t with
      | .settling result =>
          some { s.goto t (.returning result) with items := s.items.map (unmark t) }
      | _ => none
  | .miss t peer =>
      match s.phase t with
      | .called op => if mayMiss s peer op then some (s.goto t (.returning (missed op))) else none
      | _ => none
  | .ret t =>
      match s.phase t with
      | .returning _ => some (s.goto t .idle)
      | _ => none

def label (s : State Tid T) : Action Tid T → Option (CallEvent Tid T)
  | .call t op => some (.call t op)
  | .effect _ | .settle _ | .miss _ _ => none
  | .ret t =>
      match s.phase t with
      | .returning result => some (.ret t result)
      | _ => none

@[simp] theorem State.goto_phase_self (s : State Tid T) (t : Tid) (phase : Phase T) :
    (s.goto t phase).phase t = phase :=
  Function.update_self ..

@[simp] theorem State.goto_phase_other (s : State Tid T) {t other : Tid} (phase : Phase T)
    (hne : other ≠ t) : (s.goto t phase).phase other = s.phase other :=
  Function.update_of_ne hne ..

@[simp] theorem State.goto_items (s : State Tid T) (t : Tid) (phase : Phase T) :
    (s.goto t phase).items = s.items := rfl

@[simp] theorem unmark_snd (t : Tid) (entry : Option Tid × T) : (unmark t entry).2 = entry.2 := by
  rw [unmark]
  split <;> rfl

theorem map_unmark_snd (t : Tid) (items : List (Option Tid × T)) :
    (items.map (unmark t)).map Prod.snd = items.map Prod.snd := by
  rw [List.map_map]
  exact List.map_congr_left fun entry _ => unmark_snd t entry

/-- What is marked after a push has settled was marked before, by another thread. -/
theorem mem_map_unmark {t other : Tid} {items : List (Option Tid × T)} {entry : Option Tid × T}
    (hmem : entry ∈ items.map (unmark t)) (hmark : entry.1 = some other) :
    other ≠ t ∧ entry ∈ items := by
  obtain ⟨old, hold, rfl⟩ := List.mem_map.mp hmem
  rw [unmark] at hmark ⊢
  split at hmark
  · cases hmark
  · next hnot =>
    rw [if_neg hnot]
    refine ⟨?_, hold⟩
    rintro rfl
    exact hnot hmark

section Shown

variable {limit : Nat} {s next : State Tid T} {action : Action Tid T} {t : Tid}

/-- The step that shows a call. -/
theorem step_call {op : Op T} (hlabel : label s action = some (.call t op))
    (hstep : step limit s action = some next) :
    s.phase t = .idle ∧ next = s.goto t (.called op) := by
  cases action with
  | call t' op' =>
      obtain ⟨rfl, rfl⟩ := CallEvent.call.inj (Option.some.inj hlabel)
      simp only [step] at hstep
      split at hstep
      · next hphase => exact ⟨hphase, (Option.some.inj hstep).symm⟩
      · cases hstep
  | effect _ | settle _ | miss _ _ => cases hlabel
  | ret t' =>
      simp only [label] at hlabel
      split at hlabel <;> cases hlabel

/-- The step that shows a return. -/
theorem step_ret {result : Result T} (hlabel : label s action = some (.ret t result))
    (hstep : step limit s action = some next) :
    s.phase t = .returning result ∧ next = s.goto t .idle := by
  cases action with
  | call t' op' => cases hlabel
  | effect _ | settle _ | miss _ _ => cases hlabel
  | ret t' =>
      simp only [label] at hlabel
      split at hlabel
      · next result' hphase =>
        obtain ⟨rfl, rfl⟩ := CallEvent.ret.inj (Option.some.inj hlabel)
        simp only [step, hphase, Option.some.injEq] at hstep
        exact ⟨hphase, hstep.symm⟩
      · cases hlabel

/-- A return is not hidden. -/
theorem label_ret_ne_none (hstep : step limit s (.ret t) = some next) : label s (.ret t) ≠ none := by
  simp only [step] at hstep
  split at hstep
  · next result hphase => simp [label, hphase]
  · cases hstep

end Shown

end AtomicQueue

/-- The queue that the threads `Tid` share, with room for `limit` items. -/
def atomicQueue (Tid : Type u) (T : Type v) [DecidableEq Tid] (limit : Nat) :
    Observed (AtomicQueue.State Tid T) (AtomicQueue.Action Tid T) (CallEvent Tid T) where
  machine := ⟨AtomicQueue.init, AtomicQueue.step limit⟩
  label := AtomicQueue.label

/-! ### Calls that do not overlap -/

namespace AtomicQueue

variable {Tid : Type u} {T : Type v}

/-- A call of a thread with its result. -/
structure Completed (Tid : Type u) (T : Type v) where
  thread : Tid
  op : Op T
  result : Result T

/-- The history of calls that are made one after the other. -/
def oneByOne (calls : List (Completed Tid T)) : List (CallEvent Tid T) :=
  calls.flatMap fun c => [.call c.thread c.op, .ret c.thread c.result]

theorem oneByOne_append (calls : List (Completed Tid T)) (c : Completed Tid T) :
    oneByOne (calls ++ [c]) =
      oneByOne calls ++ [.call c.thread c.op] ++ [.ret c.thread c.result] := by
  rw [oneByOne, List.flatMap_append, List.flatMap_singleton, List.append_assoc]
  rfl

/-- The last call of a history that ends with a return. -/
theorem eq_of_oneByOne_ret {calls : List (Completed Tid T)} {history : List (CallEvent Tid T)}
    {t : Tid} {result : Result T} (h : history ++ [.ret t result] = oneByOne calls) :
    ∃ before op, calls = before ++ [⟨t, op, result⟩] ∧
      history = oneByOne before ++ [.call t op] := by
  rcases List.eq_nil_or_concat calls with rfl | ⟨before, c, rfl⟩
  · simp [oneByOne] at h
  · rw [List.concat_eq_append] at h ⊢
    rw [oneByOne_append] at h
    obtain ⟨hhistory, hlast⟩ := List.append_inj' h rfl
    obtain ⟨rfl, rfl⟩ := CallEvent.ret.inj (List.singleton_inj.mp hlast)
    exact ⟨before, c.op, rfl, hhistory⟩

/-- No such history ends with a call. -/
theorem ne_of_oneByOne_call {calls : List (Completed Tid T)} {history : List (CallEvent Tid T)}
    {t : Tid} {op : Op T} (h : history ++ [.call t op] = oneByOne calls) : False := by
  rcases List.eq_nil_or_concat calls with rfl | ⟨before, c, rfl⟩
  · simp [oneByOne] at h
  · rw [List.concat_eq_append, oneByOne_append] at h
    obtain ⟨-, hlast⟩ := List.append_inj' h rfl
    cases List.singleton_inj.mp hlast

/-- The queue has what a bounded FIFO has after these calls, and they got its results. -/
structure Legal (limit : Nat) (items : List (Option Tid × T)) (calls : List (Completed Tid T)) :
    Prop where
  items : items.map Prod.snd = (fifo limit [] (calls.map Completed.op)).1
  results : calls.map Completed.result = (fifo limit [] (calls.map Completed.op)).2

/-- A thread that waits for no other one in its call. -/
inductive Within (limit : Nat) (s : State Tid T) (calls : List (Completed Tid T)) (t : Tid)
    (op : Op T) : Prop
  | called : s.phase t = .called op → Legal limit s.items calls → Within limit s calls t op
  | done (result : Result T) :
      s.phase t = .settling result ∨ s.phase t = .returning result →
        Legal limit s.items (calls ++ [⟨t, op, result⟩]) → Within limit s calls t op

/-- The queue as long as calls have not overlapped: between two calls, or in a call. -/
structure Alone (limit : Nat) (history : List (CallEvent Tid T)) (s : State Tid T) : Prop where
  marked : ∀ entry ∈ s.items, ∀ t, entry.1 = some t → ∃ result, s.phase t = .settling result
  between : ∀ calls, history = oneByOne calls →
    Legal limit s.items calls ∧ ∀ t, s.phase t = .idle
  within : ∀ calls t op, history = oneByOne calls ++ [.call t op] →
    (∀ other, other ≠ t → s.phase other = .idle) ∧ Within limit s calls t op

theorem fifo_append (limit : Nat) (items : List T) (ops : List (Op T)) (op : Op T) :
    fifo limit items (ops ++ [op]) =
      ((fifoStep limit (fifo limit items ops).1 op).1,
        (fifo limit items ops).2 ++ [(fifoStep limit (fifo limit items ops).1 op).2]) := by
  induction ops generalizing items with
  | nil => rfl
  | cons first rest ih => simp only [List.cons_append, fifo, ih]

/-- Marking the items does not change what a queue does. -/
theorem fifoStep_mark (limit : Nat) (items : List (Option Tid × T)) (t : Tid) (op : Op T) :
    fifoStep limit (items.map Prod.snd) op =
      ((fifoStep limit items (mark t op)).1.map Prod.snd,
        (fifoStep limit items (mark t op)).2.map Prod.snd) := by
  have hmark : (mark t op).map Prod.snd = op := by cases op <;> rfl
  rw [← fifoStep_map, hmark]

theorem Legal.append {limit : Nat} {items : List (Option Tid × T)} {calls : List (Completed Tid T)}
    (h : Legal limit items calls) (t : Tid) (op : Op T) :
    Legal limit (fifoStep limit items (mark t op)).1
      (calls ++ [⟨t, op, (fifoStep limit items (mark t op)).2.map Prod.snd⟩]) := by
  have hstep := fifoStep_mark limit items t op
  rw [h.items] at hstep
  constructor
  · rw [List.map_append, List.map_singleton, fifo_append, hstep]
  · rw [List.map_append, List.map_append, List.map_singleton, List.map_singleton, fifo_append,
      hstep, h.results]

/-- A marked item has been there before, or is that of the call. -/
theorem mem_fifoStep_mark {limit : Nat} {items : List (Option Tid × T)} {t : Tid} {op : Op T}
    {entry : Option Tid × T} (hmem : entry ∈ (fifoStep limit items (mark t op)).1) :
    entry ∈ items ∨
      entry.1 = some t ∧ (fifoStep limit items (mark t op)).2 = .pushed true := by
  cases op with
  | tryPush item =>
      simp only [mark, Op.map, fifoStep] at hmem ⊢
      split at hmem
      · next hroom =>
        rw [if_pos hroom]
        rcases List.mem_append.mp hmem with hold | hnew
        · exact Or.inl hold
        · rw [List.mem_singleton.mp hnew]
          exact Or.inr ⟨rfl, rfl⟩
      · exact Or.inl hmem
  | tryPop =>
      cases items with
      | nil => cases hmem
      | cons first rest => exact Or.inl (List.mem_cons_of_mem first hmem)

theorem afterEffect_cases (result : Result T) :
    afterEffect result = .settling result ∨ afterEffect result = .returning result := by
  rcases result with ⟨_ | _⟩ | ⟨_ | _⟩
  · exact Or.inr rfl
  · exact Or.inl rfl
  · exact Or.inr rfl
  · exact Or.inl rfl

variable [DecidableEq Tid]

/-- What makes a call miss is in a call itself. -/
theorem Alone.peer {limit : Nat} {history : List (CallEvent Tid T)} {s : State Tid T} {peer : Tid}
    {op : Op T} (h : Alone limit history s) (hmiss : mayMiss s peer op = true) :
    ∃ result, s.phase peer = .settling result := by
  cases op with
  | tryPush item =>
      rw [mayMiss] at hmiss
      split at hmiss
      · next hpeer => exact ⟨_, hpeer⟩
      · cases hmiss
  | tryPop =>
      rw [mayMiss] at hmiss
      split at hmiss
      · next entry rest hitems =>
        refine h.marked entry ?_ peer (of_decide_eq_true hmiss)
        rw [hitems]
        exact List.mem_cons_self ..
      · cases hmiss

theorem Alone.step {limit : Nat} {history : List (CallEvent Tid T)} {s next : State Tid T}
    {action : Action Tid T} (h : Alone limit history s) (hstep : step limit s action = some next) :
    Alone limit (history ++ (label s action).toList) next := by
  have hmarked : ∀ t phase, (∀ result, s.phase t ≠ .settling result) →
      ∀ entry ∈ (s.goto t phase).items, ∀ other, entry.1 = some other →
        ∃ result, (s.goto t phase).phase other = .settling result := by
    intro t phase hnot entry hmem other hmark
    obtain ⟨result, hother⟩ := h.marked entry hmem other hmark
    have hne : other ≠ t := by
      rintro rfl
      exact hnot result hother
    exact ⟨result, (s.goto_phase_other phase hne).trans hother⟩
  cases action with
  | call t op =>
      simp only [AtomicQueue.step] at hstep
      split at hstep
      · next hphase =>
        obtain rfl := Option.some.inj hstep
        refine ⟨hmarked t _ (by simp [hphase]), fun calls heq => (ne_of_oneByOne_call heq).elim,
          fun calls t' op' heq => ?_⟩
        obtain ⟨hhistory, hlast⟩ := List.append_inj' heq rfl
        obtain ⟨rfl, rfl⟩ := CallEvent.call.inj (List.singleton_inj.mp hlast)
        obtain ⟨hlegal, hidle⟩ := h.between calls hhistory
        exact ⟨fun other hne => (s.goto_phase_other _ hne).trans (hidle other),
          .called (s.goto_phase_self t _) hlegal⟩
      · cases hstep
  | effect t =>
      rw [label, Option.toList_none, List.append_nil]
      simp only [AtomicQueue.step] at hstep
      split at hstep
      · next op hphase =>
        obtain rfl := Option.some.inj hstep
        refine ⟨fun entry hmem other hmark => ?_, fun calls heq => ?_, fun calls t' op' heq => ?_⟩
        · rcases mem_fifoStep_mark hmem with hold | ⟨hown, hpushed⟩
          · exact hmarked t _ (by simp [hphase]) entry hold other hmark
          · obtain rfl : t = other := Option.some.inj (hown.symm.trans hmark)
            refine ⟨.pushed true, ?_⟩
            rw [hpushed]
            exact s.goto_phase_self t _
        · rw [(h.between calls heq).2 t] at hphase
          cases hphase
        · obtain ⟨hothers, hwithin⟩ := h.within calls t' op' heq
          obtain rfl : t = t' := by
            by_contra hne
            rw [hothers t hne] at hphase
            cases hphase
          refine ⟨fun other hne => (s.goto_phase_other _ hne).trans (hothers other hne), ?_⟩
          cases hwithin with
          | called hcalled hlegal =>
              obtain rfl := Phase.called.inj (hphase.symm.trans hcalled)
              refine .done _ ?_ (hlegal.append t op)
              exact (afterEffect_cases _).imp (s.goto_phase_self t _).trans
                (s.goto_phase_self t _).trans
          | done result hdone _ => rcases hdone with hdone | hdone <;> simp [hphase] at hdone
      · cases hstep
  | settle t =>
      rw [label, Option.toList_none, List.append_nil]
      simp only [AtomicQueue.step] at hstep
      split at hstep
      · next result hphase =>
        obtain rfl := Option.some.inj hstep
        refine ⟨fun entry hmem other hmark => ?_, fun calls heq => ?_, fun calls t' op' heq => ?_⟩
        · obtain ⟨hne, hold⟩ := mem_map_unmark hmem hmark
          obtain ⟨result', hother⟩ := h.marked entry hold other hmark
          exact ⟨result', (s.goto_phase_other _ hne).trans hother⟩
        · rw [(h.between calls heq).2 t] at hphase
          cases hphase
        · obtain ⟨hothers, hwithin⟩ := h.within calls t' op' heq
          obtain rfl : t = t' := by
            by_contra hne
            rw [hothers t hne] at hphase
            cases hphase
          refine ⟨fun other hne => (s.goto_phase_other _ hne).trans (hothers other hne), ?_⟩
          cases hwithin with
          | called hcalled _ =>
              rw [hcalled] at hphase
              cases hphase
          | done result' hdone hlegal =>
              obtain rfl : result = result' := by
                rcases hdone with hdone | hdone
                · exact Phase.settling.inj (hphase.symm.trans hdone)
                · rw [hdone] at hphase
                  cases hphase
              refine .done result (Or.inr (s.goto_phase_self t _)) ⟨?_, hlegal.results⟩
              exact (map_unmark_snd t s.items).trans hlegal.items
      · cases hstep
  | miss t peer =>
      rw [label, Option.toList_none, List.append_nil]
      simp only [AtomicQueue.step] at hstep
      split at hstep
      · next op hphase =>
        split at hstep
        · next hmiss =>
          obtain rfl := Option.some.inj hstep
          obtain ⟨result, hpeer⟩ := h.peer hmiss
          have hne : peer ≠ t := by
            rintro rfl
            rw [hphase] at hpeer
            cases hpeer
          refine ⟨hmarked t _ (by simp [hphase]), fun calls heq => ?_, fun calls t' op' heq => ?_⟩
          · rw [(h.between calls heq).2 t] at hphase
            cases hphase
          · -- two threads are in a call
            have hothers := (h.within calls t' op' heq).1
            by_cases htid : t = t'
            · rw [hothers peer (htid ▸ hne)] at hpeer
              cases hpeer
            · rw [hothers t htid] at hphase
              cases hphase
        · cases hstep
      · cases hstep
  | ret t =>
      simp only [AtomicQueue.step] at hstep
      split at hstep
      · next result hphase =>
        obtain rfl := Option.some.inj hstep
        simp only [label, hphase, Option.toList_some]
        refine ⟨hmarked t _ (by simp [hphase]), fun calls heq => ?_, fun calls t' op' heq => ?_⟩
        · obtain ⟨before, op, rfl, hhistory⟩ := eq_of_oneByOne_ret heq
          obtain ⟨hothers, hwithin⟩ := h.within before t op hhistory
          cases hwithin with
          | called hcalled _ =>
              rw [hcalled] at hphase
              cases hphase
          | done result' hdone hlegal =>
              obtain rfl : result = result' := by
                rcases hdone with hdone | hdone
                · rw [hdone] at hphase
                  cases hphase
                · exact Phase.returning.inj (hphase.symm.trans hdone)
              refine ⟨hlegal, fun other => ?_⟩
              by_cases htid : other = t
              · rw [htid]
                exact s.goto_phase_self t _
              · exact (s.goto_phase_other _ htid).trans (hothers other htid)
        · obtain ⟨-, hlast⟩ := List.append_inj' heq rfl
          cases List.singleton_inj.mp hlast
      · cases hstep

theorem Alone.of_reaches {limit : Nat} {history : List (CallEvent Tid T)} {s : State Tid T}
    (hreaches : (atomicQueue Tid T limit).Reaches history s) : Alone limit history s := by
  induction hreaches with
  | init =>
      refine ⟨fun _ hmem => absurd hmem List.not_mem_nil, fun calls heq => ?_,
        fun calls t op heq => by simp at heq⟩
      obtain rfl : calls = [] := by
        cases calls with
        | nil => rfl
        | cons c rest => simp [oneByOne] at heq
      exact ⟨⟨rfl, rfl⟩, fun _ => rfl⟩
  | step _ hstep ih => exact ih.step hstep

/-- Calls that do not overlap never miss. -/
theorem legal_of_oneByOne {limit : Nat} {calls : List (Completed Tid T)} {s : State Tid T}
    (hreaches : (atomicQueue Tid T limit).Reaches (oneByOne calls) s) : Legal limit s.items calls :=
  ((Alone.of_reaches hreaches).between calls rfl).1

end AtomicQueue

end MessageCenter.MPMCQueue
