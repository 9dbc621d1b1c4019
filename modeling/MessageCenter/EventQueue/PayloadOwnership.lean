import MessageCenter.EventQueue.Lifecycle
import MessageCenter.Lib.Ledger

/-!
# Who destroys a payload

A payload that was posted with `autoCleanupPayload` is queued, in the hands of a
thread, destroyed or leaked, and only one of these.  It leaks when `Post` gets a
negative id, when `dispose` deletes its message, and when a thread that took the message
does not bring its `Dispatch` to an end.  So in a run that ends with `dispose` or the
destructor every payload is accounted for exactly when none of this has happened.
-/

namespace MessageCenter.EventQueue.Lifecycle

open Concurrency Accounting

variable {Tid : Type} {s next : State Tid} {p : Nat}

/-! ### The log -/

def Event.destroyed? : Event → Option Nat
  | .called _ _ => none
  | .destroyed payload => some payload

/-- The payload was destroyed once, and no observer got its message later. -/
def DestroyedOnce (log : List Event) (p : Nat) : Prop :=
  ∃ before after, log = before ++ .destroyed p :: after ∧ .destroyed p ∉ before ∧
    .destroyed p ∉ after ∧
    ∀ message handler, message.owned = some p → .called message handler ∉ after

def graves (log : List Event) : List Nat := log.filterMap Event.destroyed?

theorem mem_graves {log : List Event} : p ∈ graves log ↔ .destroyed p ∈ log := by
  constructor
  · intro hmem
    obtain ⟨event, hevent, hdestroyed⟩ := List.mem_filterMap.mp hmem
    cases event with
    | called message handler => cases hdestroyed
    | destroyed payload =>
        obtain rfl := Option.some.inj hdestroyed
        exact hevent
  · exact fun hmem => List.mem_filterMap.mpr ⟨_, hmem, rfl⟩

def Orderly (log : List Event) : Prop := ∀ p, .destroyed p ∈ log → DestroyedOnce log p

theorem DestroyedOnce.snoc {log : List Event} {event : Event} (honce : DestroyedOnce log p)
    (hother : event ≠ .destroyed p)
    (hcall : ∀ message handler, event = .called message handler → message.owned ≠ some p) :
    DestroyedOnce (log ++ [event]) p := by
  obtain ⟨before, after, rfl, hbefore, hafter, hcalls⟩ := honce
  refine ⟨before, after ++ [event], by simp, hbefore, ?_, ?_⟩
  · simpa [hother.symm] using hafter
  · intro message handler howned hmem
    rcases List.mem_append.mp hmem with hmem | hmem
    · exact hcalls message handler howned hmem
    · exact hcall message handler (List.mem_singleton.mp hmem).symm howned

theorem Orderly.call {log : List Event} {message : Message} {handler : Handler}
    (horderly : Orderly log) (hlive : ∀ p, message.owned = some p → .destroyed p ∉ log) :
    Orderly (log ++ [.called message handler]) := by
  intro p hmem
  have hlog : Event.destroyed p ∈ log := by simpa using hmem
  refine (horderly p hlog).snoc nofun fun other _ heq howned => ?_
  obtain ⟨rfl, _⟩ := Event.called.inj heq
  exact hlive p howned hlog

theorem Orderly.destroy {log : List Event} (horderly : Orderly log) (hlive : .destroyed p ∉ log) :
    Orderly (log ++ [.destroyed p]) := by
  intro other hmem
  by_cases heq : other = p
  · subst heq
    exact ⟨log, [], rfl, hlive, List.not_mem_nil, fun _ _ _ => List.not_mem_nil⟩
  · have hlog : Event.destroyed other ∈ log := by simpa [heq] using hmem
    exact (horderly other hlog).snoc (fun hsame => heq (Event.destroyed.inj hsame).symm) nofun

/-! ### Where the payloads are -/

inductive Holder (Tid : Type) where
  | queue
  | actor (actor : Option Tid)
  | grave
  | lost
deriving DecidableEq

def tokens (payloads : List Nat) : List (Nat × Unit) := payloads.map fun p => (p, ())

theorem mem_tokens {payloads : List Nat} : p ∈ (tokens payloads).map Prod.fst ↔ p ∈ payloads := by
  simp [tokens]

/-- The payload of the message that is taken or dispatched. -/
def DispatchPc.owned (pc : DispatchPc) : Option Nat := pc.message?.bind Message.owned

def State.holdings (s : State Tid) : Holder Tid → List (Nat × Unit)
  | .queue => tokens (s.m_messageQueue.filterMap Message.owned)
  | .actor actor => tokens (s.dispatch actor).owned.toList
  | .grave => tokens (graves s.log)
  | .lost => tokens s.leaked

def State.counts (s : State Tid) (p : Nat) : Option Unit :=
  if p ∈ s.entrusted then some () else none

structure Inv (s : State Tid) : Prop where
  ledger : Ledger s.holdings s.counts
  old : ∀ p ∈ s.entrusted, p < s.nextPayload
  orderly : Orderly s.log

/-- A step that moves no payload. -/
theorem Inv.congr (hinv : Inv s)
    (hqueue : next.m_messageQueue.filterMap Message.owned =
      s.m_messageQueue.filterMap Message.owned)
    (hdispatch : ∀ actor, (next.dispatch actor).owned = (s.dispatch actor).owned)
    (hlog : next.log = s.log) (hleaked : next.leaked = s.leaked)
    (hentrusted : next.entrusted = s.entrusted) (hpayload : s.nextPayload ≤ next.nextPayload) :
    Inv next where
  ledger := by
    have hholdings : next.holdings = s.holdings := by
      funext holder
      cases holder with
      | queue => simp only [State.holdings, hqueue]
      | actor actor => simp only [State.holdings, hdispatch]
      | grave => simp only [State.holdings, hlog]
      | lost => simp only [State.holdings, hleaked]
    have hcounts : next.counts = s.counts := by
      funext p
      simp only [State.counts, hentrusted]
    rw [hholdings, hcounts]
    exact hinv.ledger
  old p hmem := Nat.lt_of_lt_of_le (hinv.old p (hentrusted ▸ hmem)) hpayload
  orderly := hlog ▸ hinv.orderly

theorem inv_init : Inv (init : State Tid) where
  ledger := by
    have hholdings : (init : State Tid).holdings = fun _ => [] := by
      funext holder
      cases holder <;> rfl
    have hcounts : (init : State Tid).counts = fun _ => none := by
      funext p
      simp [State.counts, init]
    rw [hholdings, hcounts]
    exact Ledger.empty
  old _ hmem := absurd hmem List.not_mem_nil
  orderly _ hmem := absurd hmem List.not_mem_nil

/-- A dispatching thread has a payload that is alive. -/
theorem Inv.alive_of_dispatch (hinv : Inv s) {actor : Option Tid}
    (howned : (s.dispatch actor).owned = some p) : .destroyed p ∉ s.log := by
  intro hlog
  have hhere : p ∈ (s.holdings (.actor actor)).map Prod.fst :=
    mem_tokens.mpr (by simp [howned])
  cases hinv.ledger.apart _ .grave p hhere (mem_tokens.mpr (mem_graves.mpr hlog))

/-! ### The operations -/

/-- Holdings after a change, holder by holder. -/
theorem perm_of_holders {holdings holdings' : Holder Tid → List (Nat × Unit)}
    (hqueue : (holdings .queue).Perm (holdings' .queue))
    (hactor : ∀ actor, (holdings (.actor actor)).Perm (holdings' (.actor actor)))
    (hgrave : (holdings .grave).Perm (holdings' .grave))
    (hlost : (holdings .lost).Perm (holdings' .lost)) :
    ∀ holder, (holdings holder).Perm (holdings' holder)
  | .queue => hqueue
  | .actor actor => hactor actor
  | .grave => hgrave
  | .lost => hlost

variable [DecidableEq Tid]

/-- A new payload is queued with its message, or leaks. -/
theorem Inv.create (hinv : Inv s) {h : Holder Tid}
    (hentrusted : next.entrusted = s.nextPayload :: s.entrusted)
    (hpayload : next.nextPayload = s.nextPayload + 1) (hlog : next.log = s.log)
    (hholdings : ∀ other, (next.holdings other).Perm (Function.update s.holdings h
      ([(s.nextPayload, ())] ++ s.holdings h) other)) : Inv next where
  ledger := by
    have hnew : s.counts s.nextPayload = none :=
      if_neg fun hmem => Nat.lt_irrefl _ (hinv.old _ hmem)
    have hself : next.counts s.nextPayload = some () :=
      if_pos (hentrusted ▸ List.mem_cons_self)
    have hothers : ∀ other, other ≠ s.nextPayload → next.counts other = s.counts other := by
      intro other hne
      simp [State.counts, hentrusted, hne]
    exact (hinv.ledger.create (List.Perm.refl _) hnew hself hothers).perm hholdings
  old p hmem := by
    rw [hpayload]
    rcases List.mem_cons.mp (hentrusted ▸ hmem) with rfl | hmem
    · exact Nat.lt_succ_self _
    · exact Nat.lt_succ_of_lt (hinv.old p hmem)
  orderly := hlog ▸ hinv.orderly

omit [DecidableEq Tid] in
theorem owned_newMessage (s : State Tid) (id : Int) (obj autoCleanupPayload : Bool) :
    (newMessage s id obj autoCleanupPayload).owned = none ∨
      (newMessage s id obj autoCleanupPayload).owned = some s.nextPayload := by
  cases obj <;> cases autoCleanupPayload <;> simp [newMessage, Message.owned]

theorem Inv.post (hinv : Inv s) (id : Int) (obj autoCleanupPayload : Bool) :
    Inv (post s id obj autoCleanupPayload) := by
  rw [Lifecycle.post]
  rcases owned_newMessage s id obj autoCleanupPayload with hnone | hsome
  · split
    · refine hinv.congr ?_ (fun _ => rfl) rfl rfl ?_ (Nat.le_succ _)
      · simp [hnone]
      · simp [hnone]
    · refine hinv.congr rfl (fun _ => rfl) rfl ?_ ?_ (Nat.le_succ _)
      · simp [hnone]
      · simp [hnone]
  · split
    · apply hinv.create (h := .queue)
      · simp [hsome]
      · rfl
      · rfl
      · apply perm_of_holders
        · simp [State.holdings, tokens, hsome]
        · intro actor
          simp [State.holdings]
        · simp [State.holdings]
        · simp [State.holdings]
    · apply hinv.create (h := .lost)
      · simp [hsome]
      · rfl
      · rfl
      · apply perm_of_holders
        · simp [State.holdings]
        · intro actor
          simp [State.holdings]
        · simp [State.holdings]
        · simp [State.holdings, tokens, hsome]

theorem Inv.dispose (hinv : Inv s) : Inv (dispose s) := by
  have hqueueLost : (Holder.queue : Holder Tid) ≠ .lost := nofun
  have hall : (s.holdings .queue).Perm
      (tokens (s.m_messageQueue.filterMap Message.owned) ++ []) := by simp [State.holdings]
  refine ⟨(hinv.ledger.transfer hqueueLost hall).perm (perm_of_holders ?_ ?_ ?_ ?_), hinv.old,
    hinv.orderly⟩
  · simp [State.holdings, Lifecycle.dispose, tokens]
  · intro actor
    simp [State.holdings, Lifecycle.dispose]
  · simp [State.holdings, Lifecycle.dispose]
  · simp [State.holdings, Lifecycle.dispose, tokens]

theorem Inv.getQueueMessage (hinv : Inv s) {actor : Option Tid}
    (hidle : s.dispatch actor = .idle) : Inv (getQueueMessage s actor) := by
  rcases hqueue : s.m_messageQueue with _ | ⟨message, rest⟩
  · rw [Lifecycle.getQueueMessage, hqueue]
    exact hinv
  · have hnext : Lifecycle.getQueueMessage s actor =
        { s with m_messageQueue := rest }.goto actor (.taken message) := by
      rw [Lifecycle.getQueueMessage, hqueue]
    have hne : (Holder.queue : Holder Tid) ≠ .actor actor := nofun
    have htaken : (s.holdings .queue).Perm
        (tokens message.owned.toList ++ tokens (rest.filterMap Message.owned)) := by
      cases howned : message.owned <;> simp [State.holdings, hqueue, howned, tokens]
    rw [hnext]
    refine ⟨(hinv.ledger.transfer hne htaken).perm (perm_of_holders ?_ ?_ ?_ ?_), hinv.old,
      hinv.orderly⟩
    · simp [State.holdings, State.goto]
    · intro other
      by_cases heq : other = actor
      · simp [State.holdings, State.goto, heq, hidle, DispatchPc.owned, DispatchPc.message?, tokens]
      · simp [State.holdings, State.goto, heq]
    · simp [State.holdings, State.goto]
    · simp [State.holdings, State.goto]

/-- A thread that goes on with the same message. -/
theorem Inv.goto (hinv : Inv s) {actor : Option Tid} {pc : DispatchPc}
    (hsame : pc.message? = (s.dispatch actor).message?) : Inv (s.goto actor pc) := by
  refine hinv.congr rfl (fun other => ?_) rfl rfl rfl (Nat.le_refl _)
  by_cases heq : other = actor
  · simp [State.goto, heq, DispatchPc.owned, hsame]
  · simp [State.goto, heq]

theorem Inv.runDispatch (hinv : Inv s) {actor : Option Tid}
    (hrun : runDispatch s actor = some next) : Inv next := by
  have hlive : ∀ p message, (s.dispatch actor).message? = some message →
      message.owned = some p → .destroyed p ∉ s.log := by
    intro p message hmessage howned
    have hhas : (s.dispatch actor).owned = some p := by
      simpa [DispatchPc.owned, hmessage] using howned
    exact hinv.alive_of_dispatch hhas
  rw [Lifecycle.runDispatch] at hrun
  cases hpc : s.dispatch actor with
  | idle => simp [hpc] at hrun
  | taken message =>
      simp only [hpc, Option.some.injEq] at hrun
      exact hrun ▸ hinv.goto (by rw [hpc]; rfl)
  | next message remaining =>
      rcases remaining with _ | ⟨observer, remaining⟩
      · simp only [hpc, Option.some.injEq] at hrun
        exact hrun ▸ hinv.goto (by rw [hpc]; rfl)
      · simp only [hpc] at hrun
        have hgoto : ∀ pc : DispatchPc, pc.message? = some message → Inv (s.goto actor pc) :=
          fun pc hmessage => hinv.goto (by rw [hpc]; exact hmessage)
        split at hrun
        · next handler _ =>
          rw [← Option.some.inj hrun]
          have hmoved := hgoto (.invoking message remaining) rfl
          refine ⟨?_, hmoved.old, ?_⟩
          · have hsame : graves (s.log ++ [.called message handler]) = graves s.log := by
              simp [graves, Event.destroyed?]
            exact hmoved.ledger.perm
              (perm_of_holders .rfl (fun _ => .rfl) (.of_eq (congrArg tokens hsame)) .rfl)
          · refine hinv.orderly.call fun p howned => ?_
            exact hlive p message (by rw [hpc]; rfl) howned
        · exact Option.some.inj hrun ▸ hgoto (.next message remaining) rfl
  | invoking message remaining =>
      simp only [hpc, Option.some.injEq] at hrun
      exact hrun ▸ hinv.goto (by rw [hpc]; rfl)
  | cleanup message =>
      simp only [hpc, Option.some.injEq] at hrun
      rw [← hrun]
      cases howned : message.owned with
      | none =>
          refine hinv.congr rfl (fun other => ?_) (by simp [State.record, State.goto]) rfl rfl
            (Nat.le_refl _)
          by_cases heq : other = actor
          · simp [State.record, State.goto, heq, hpc, DispatchPc.owned, DispatchPc.message?, howned]
          · simp [State.record, State.goto, heq]
      | some p =>
          have hne : (Holder.actor actor : Holder Tid) ≠ .grave := nofun
          have hgiven : (s.holdings (.actor actor)).Perm (tokens [p] ++ []) := by
            simp [State.holdings, hpc, DispatchPc.owned, DispatchPc.message?, howned]
          refine ⟨(hinv.ledger.transfer hne hgiven).perm (perm_of_holders ?_ ?_ ?_ ?_), hinv.old, ?_⟩
          · simp [State.holdings, State.record, State.goto]
          · intro other
            by_cases heq : other = actor
            · simp [State.holdings, State.record, State.goto, heq, DispatchPc.owned,
                DispatchPc.message?, tokens]
            · simp [State.holdings, State.record, State.goto, heq]
          · simp [State.holdings, State.record, State.goto, graves, Event.destroyed?, tokens]
          · simp [State.holdings, State.record, State.goto]
          · exact hinv.orderly.destroy (hlive p message (by rw [hpc]; rfl) howned)

/-- After an exception the thread has the same message. -/
theorem Inv.handlerThrow (hinv : Inv s) {actor : Option Tid}
    (hthrow : handlerThrow s actor = some next) : Inv next := by
  unfold Lifecycle.handlerThrow at hthrow
  cases hpc : s.dispatch actor with
  | invoking message remaining =>
      simp only [hpc, Option.some.injEq] at hthrow
      exact hthrow ▸ hinv.goto (by rw [hpc]; rfl)
  | _ => simp [hpc] at hthrow

theorem Inv.abandon (hinv : Inv s) {actor : Option Tid} (habandon : abandon s actor = some next) :
    Inv next := by
  unfold Lifecycle.abandon at habandon
  cases hpc : s.dispatch actor with
  | taken message =>
      simp only [hpc, Option.some.injEq] at habandon
      subst habandon
      have hne : (Holder.actor actor : Holder Tid) ≠ .lost := nofun
      have hgiven : (s.holdings (.actor actor)).Perm (tokens message.owned.toList ++ []) := by
        simp [State.holdings, hpc, DispatchPc.owned, DispatchPc.message?]
      refine ⟨(hinv.ledger.transfer hne hgiven).perm (perm_of_holders ?_ ?_ ?_ ?_), hinv.old,
        hinv.orderly⟩
      · simp [State.holdings, State.goto]
      · intro other
        by_cases heq : other = actor
        · simp [State.holdings, State.goto, heq, DispatchPc.owned, DispatchPc.message?, tokens]
        · simp [State.holdings, State.goto, heq]
      · simp [State.holdings, State.goto]
      · simp [State.holdings, tokens]
  | _ => simp [hpc] at habandon

/-! ### Every step -/

omit [DecidableEq Tid] in
/-- The worker has a message only while it dispatches, and runs only after `Start`. -/
structure WorkerInv (s : State Tid) : Prop where
  idle : s.worker ≠ .dispatching → s.dispatch none = .idle
  off : s.m_started = false → s.worker = .off

omit [DecidableEq Tid] in
/-- A step of another thread leaves the worker alone. -/
theorem WorkerInv.client {t : Tid} (hworker : WorkerInv s) (hpc : next.worker = s.worker)
    (hstarted : next.m_started = s.m_started)
    (hothers : ∀ other, other ≠ some t → next.dispatch other = s.dispatch other) :
    WorkerInv next where
  idle hnot := by
    rw [hothers none (Option.some_ne_none t).symm]
    exact hworker.idle (hpc ▸ hnot)
  off hno := by
    rw [hpc]
    exact hworker.off (hstarted ▸ hno)

theorem runDispatch_frame {actor : Option Tid} (hrun : runDispatch s actor = some next) :
    next.worker = s.worker ∧ next.m_started = s.m_started ∧ next.leaked = s.leaked ∧
      ∀ other, other ≠ actor → next.dispatch other = s.dispatch other := by
  have hgoto : ∀ (pc : DispatchPc) other, other ≠ actor →
      (s.goto actor pc).dispatch other = s.dispatch other :=
    fun pc other hne => Function.update_of_ne hne _ _
  rw [Lifecycle.runDispatch] at hrun
  cases hpc : s.dispatch actor with
  | idle => simp [hpc] at hrun
  | next message remaining =>
      rcases remaining with _ | ⟨observer, remaining⟩
      · simp only [hpc, Option.some.injEq] at hrun
        exact hrun ▸ ⟨rfl, rfl, rfl, hgoto _⟩
      · simp only [hpc] at hrun
        split at hrun <;> exact Option.some.inj hrun ▸ ⟨rfl, rfl, rfl, hgoto _⟩
  | _ =>
      simp only [hpc, Option.some.injEq] at hrun
      exact hrun ▸ ⟨rfl, rfl, rfl, hgoto _⟩

theorem handlerThrow_frame {actor : Option Tid} (hthrow : handlerThrow s actor = some next) :
    next.worker = s.worker ∧ next.m_started = s.m_started ∧ next.leaked = s.leaked ∧
      ∀ other, other ≠ actor → next.dispatch other = s.dispatch other := by
  unfold Lifecycle.handlerThrow at hthrow
  split at hthrow
  · rw [← Option.some.inj hthrow]
    exact ⟨rfl, rfl, rfl, fun other hne => Function.update_of_ne hne _ _⟩
  · cases hthrow

/-- Nothing leaks when the message that is forgotten owns no payload. -/
theorem abandon_frame {actor : Option Tid} (habandon : abandon s actor = some next) :
    next.worker = s.worker ∧ next.m_started = s.m_started ∧
      (next.leaked = [] ↔ s.leaked = [] ∧
        ∀ message, s.dispatch actor = .taken message → message.owned = none) ∧
      ∀ other, other ≠ actor → next.dispatch other = s.dispatch other := by
  unfold Lifecycle.abandon at habandon
  cases hpc : s.dispatch actor with
  | taken message =>
      simp only [hpc, Option.some.injEq] at habandon
      subst habandon
      refine ⟨rfl, rfl, ?_, fun other hne => Function.update_of_ne hne _ _⟩
      simp [Option.toList_eq_nil_iff, and_comm]
  | _ => simp [hpc] at habandon

theorem getQueueMessage_frame (actor : Option Tid) :
    (getQueueMessage s actor).worker = s.worker ∧
      (getQueueMessage s actor).m_started = s.m_started ∧
      (getQueueMessage s actor).leaked = s.leaked ∧
      ∀ other, other ≠ actor → (getQueueMessage s actor).dispatch other = s.dispatch other := by
  rw [Lifecycle.getQueueMessage]
  split
  · exact ⟨rfl, rfl, rfl, fun _ _ => rfl⟩
  · exact ⟨rfl, rfl, rfl, fun other hne => Function.update_of_ne hne _ _⟩

theorem runWorker_inv (hinv : Inv s) (hworker : WorkerInv s) (hrun : runWorker s = some next) :
    Inv next ∧ WorkerInv next ∧ next.leaked = s.leaked := by
  have hstarted : s.worker ≠ .off → s.m_started = true := by
    intro hnot
    by_contra hno
    exact hnot (hworker.off (by simpa using hno))
  rw [runWorker] at hrun
  cases hpc : s.worker with
  | off | finished => simp [hpc] at hrun
  | testStop =>
      simp only [hpc, Option.some.injEq] at hrun
      have hidle := hworker.idle (by simp [hpc])
      have hrunning := hstarted (by simp [hpc])
      subst hrun
      exact ⟨hinv.congr rfl (fun _ => rfl) rfl rfl rfl (Nat.le_refl _),
        ⟨fun _ => hidle, fun hno => by simp [hrunning] at hno⟩, rfl⟩
  | getMessage =>
      simp only [hpc, Option.some.injEq] at hrun
      have hidle := hworker.idle (by simp [hpc])
      have hrunning := hstarted (by simp [hpc])
      obtain ⟨_, hsame, hleaked, _⟩ := getQueueMessage_frame (s := s) none
      subst hrun
      exact ⟨(hinv.getQueueMessage hidle).congr rfl (fun _ => rfl) rfl rfl rfl (Nat.le_refl _),
        ⟨fun hnot => absurd rfl hnot, fun hno => by simp [hsame, hrunning] at hno⟩, hleaked⟩
  | dispatching =>
      simp only [hpc] at hrun
      have hrunning := hstarted (by simp [hpc])
      split at hrun
      · next hidle =>
        obtain rfl := Option.some.inj hrun
        exact ⟨hinv.congr rfl (fun _ => rfl) rfl rfl rfl (Nat.le_refl _),
          ⟨fun _ => hidle, fun hno => by simp [hrunning] at hno⟩, rfl⟩
      · obtain ⟨hsame, hstart, hleaked, _⟩ := runDispatch_frame hrun
        exact ⟨hinv.runDispatch hrun, ⟨fun hnot => absurd (hsame.trans hpc) hnot,
          fun hno => by simp [hstart, hrunning] at hno⟩, hleaked⟩
  | exiting =>
      simp only [hpc, Option.some.injEq] at hrun
      have hidle := hworker.idle (by simp [hpc])
      have hrunning := hstarted (by simp [hpc])
      subst hrun
      exact ⟨hinv.congr rfl (fun _ => rfl) rfl rfl rfl (Nat.le_refl _),
        ⟨fun _ => hidle, fun hno => by simp [hrunning] at hno⟩, rfl⟩

omit [DecidableEq Tid] in
/-- No payload is let go of: a post that hands one over has a topic, no thread forgets
a message with one, and none is queued when the queue is disposed of. -/
def Keeps (s : State Tid) : Action Tid → Prop
  | .post id obj autoCleanupPayload => (obj && autoCleanupPayload) = true → 0 ≤ id
  | .postTopic topic obj autoCleanupPayload =>
      (obj && autoCleanupPayload) = true → 0 ≤ s.registry.resolveTopic topic
  | .abandon t => ∀ message, s.dispatch (some t) = .taken message → message.owned = none
  | .dispose | .destruct => ∀ message ∈ s.m_messageQueue, message.owned = none
  | _ => True

omit [DecidableEq Tid] in
theorem post_leaked (s : State Tid) (id : Int) (obj autoCleanupPayload : Bool) :
    (post s id obj autoCleanupPayload).leaked = [] ↔
      s.leaked = [] ∧ ((obj && autoCleanupPayload) = true → 0 ≤ id) := by
  rw [post]
  split
  · next hid => simp [hid]
  · next hid => cases obj <;> cases autoCleanupPayload <;> simp [newMessage, Message.owned, hid]

omit [DecidableEq Tid] in
theorem dispose_leaked (s : State Tid) :
    (dispose s).leaked = [] ↔
      s.leaked = [] ∧ ∀ message ∈ s.m_messageQueue, message.owned = none := by
  simp [dispose, List.filterMap_eq_nil_iff, and_comm]

omit [DecidableEq Tid] in
theorem addObserver_inv (hinv : Inv s) (hworker : WorkerInv s) (topic : String)
    (overload : OneThread.Overload) :
    Inv (addObserver s topic overload) ∧ WorkerInv (addObserver s topic overload) ∧
      (addObserver s topic overload).leaked = s.leaked := by
  unfold addObserver
  dsimp only
  split
  · exact ⟨hinv.congr rfl (fun _ => rfl) rfl rfl rfl (Nat.le_refl _),
      ⟨hworker.idle, hworker.off⟩, rfl⟩
  · exact ⟨hinv.congr rfl (fun _ => rfl) rfl rfl rfl (Nat.le_refl _),
      ⟨hworker.idle, hworker.off⟩, rfl⟩

omit [DecidableEq Tid] in
theorem start_inv (hinv : Inv s) (hworker : WorkerInv s) :
    Inv (start s) ∧ WorkerInv (start s) ∧ (start s).leaked = s.leaked := by
  rw [start]
  split
  · exact ⟨hinv, hworker, rfl⟩
  · next hnot =>
    have hoff : s.worker = .off := hworker.off (by simpa using hnot)
    have hidle := hworker.idle (by simp [hoff])
    exact ⟨hinv.congr rfl (fun _ => rfl) rfl rfl rfl (Nat.le_refl _),
      ⟨fun _ => hidle, nofun⟩, rfl⟩

omit [DecidableEq Tid] in
theorem stop_inv (hinv : Inv s) (hworker : WorkerInv s) :
    Inv (stop s) ∧ WorkerInv (stop s) ∧ (stop s).leaked = s.leaked := by
  rw [stop]
  split
  · exact ⟨hinv, hworker, rfl⟩
  · exact ⟨hinv.congr rfl (fun _ => rfl) rfl rfl rfl (Nat.le_refl _),
      ⟨hworker.idle, hworker.off⟩, rfl⟩

theorem step_spec {action : Action Tid} (hinv : Inv s) (hworker : WorkerInv s)
    (hstep : step s action = some next) :
    Inv next ∧ WorkerInv next ∧ (next.leaked = [] ↔ s.leaked = [] ∧ Keeps s action) := by
  have hsame : next.leaked = s.leaked → Keeps s action →
      (next.leaked = [] ↔ s.leaked = [] ∧ Keeps s action) := by
    intro hleaked hkeeps
    rw [hleaked]
    exact ⟨fun hnil => ⟨hnil, hkeeps⟩, And.left⟩
  obtain ⟨_, hstep⟩ := Option.ite_none_right_eq_some.mp hstep
  cases action with
  | registerTopic topic =>
      obtain rfl := Option.some.inj hstep
      exact ⟨hinv.congr rfl (fun _ => rfl) rfl rfl rfl (Nat.le_refl _),
        ⟨hworker.idle, hworker.off⟩, hsame rfl trivial⟩
  | addObserver topic overload =>
      obtain rfl := Option.some.inj hstep
      obtain ⟨hnext, hnextWorker, hleaked⟩ := addObserver_inv hinv hworker topic overload
      exact ⟨hnext, hnextWorker, hsame hleaked trivial⟩
  | post id obj autoCleanupPayload =>
      obtain rfl := Option.some.inj hstep
      refine ⟨hinv.post id obj autoCleanupPayload, ?_, post_leaked s id obj autoCleanupPayload⟩
      rw [post]
      split <;> exact ⟨hworker.idle, hworker.off⟩
  | postTopic topic obj autoCleanupPayload =>
      obtain rfl := Option.some.inj hstep
      refine ⟨hinv.post _ obj autoCleanupPayload, ?_, post_leaked s _ obj autoCleanupPayload⟩
      rw [post]
      split <;> exact ⟨hworker.idle, hworker.off⟩
  | getQueueMessage t =>
      obtain ⟨hidle, hnext⟩ := Option.ite_none_right_eq_some.mp hstep
      obtain rfl := Option.some.inj hnext
      obtain ⟨hpc, hstart, hleaked, hothers⟩ := getQueueMessage_frame (s := s) (some t)
      exact ⟨hinv.getQueueMessage hidle, hworker.client hpc hstart hothers, hsame hleaked trivial⟩
  | dispatch t =>
      obtain ⟨hpc, hstart, hleaked, hothers⟩ := runDispatch_frame hstep
      exact ⟨hinv.runDispatch hstep, hworker.client hpc hstart hothers, hsame hleaked trivial⟩
  | handlerThrow t =>
      obtain ⟨hpc, hstart, hleaked, hothers⟩ := handlerThrow_frame hstep
      exact ⟨hinv.handlerThrow hstep, hworker.client hpc hstart hothers, hsame hleaked trivial⟩
  | abandon t =>
      obtain ⟨hpc, hstart, hleaked, hothers⟩ := abandon_frame hstep
      exact ⟨hinv.abandon hstep, hworker.client hpc hstart hothers, hleaked⟩
  | worker =>
      obtain ⟨hnext, hnextWorker, hleaked⟩ := runWorker_inv hinv hworker hstep
      exact ⟨hnext, hnextWorker, hsame hleaked trivial⟩
  | start =>
      obtain rfl := Option.some.inj hstep
      obtain ⟨hnext, hnextWorker, hleaked⟩ := start_inv hinv hworker
      exact ⟨hnext, hnextWorker, hsame hleaked trivial⟩
  | stop =>
      obtain rfl := Option.some.inj hstep
      obtain ⟨hnext, hnextWorker, hleaked⟩ := stop_inv hinv hworker
      exact ⟨hnext, hnextWorker, hsame hleaked trivial⟩
  | join =>
      obtain ⟨⟨_, hfinished⟩, hnext⟩ := Option.ite_none_right_eq_some.mp hstep
      obtain rfl := Option.some.inj hnext
      have hidle := hworker.idle (by simp [hfinished])
      exact ⟨hinv.congr rfl (fun _ => rfl) rfl rfl rfl (Nat.le_refl _),
        ⟨fun _ => hidle, fun _ => rfl⟩, hsame rfl trivial⟩
  | dispose =>
      obtain rfl := Option.some.inj hstep
      exact ⟨hinv.dispose, ⟨hworker.idle, hworker.off⟩, dispose_leaked s⟩
  | destruct =>
      obtain ⟨hended, hnext⟩ := Option.ite_none_right_eq_some.mp hstep
      obtain rfl := Option.some.inj hnext
      have hidle := hworker.idle (by rcases hended with hpc | hpc <;> simp [hpc])
      exact ⟨hinv.dispose.congr rfl (fun _ => rfl) rfl rfl rfl (Nat.le_refl _),
        ⟨fun _ => hidle, fun _ => rfl⟩, dispose_leaked s⟩

/-! ### Whole runs -/

/-- The thread is inside `Dispatch` of an object that still exists; the worker does
nothing else with a message. -/
def State.DispatchGoesOn (s : State Tid) (actor : Option Tid) : Prop :=
  s.alive = true ∧ ∀ t message, actor = some t → s.dispatch actor ≠ .taken message

/-- The payload was destroyed once, after its last observer, or is alive in a
`Dispatch` that destroys it after the loop. -/
def Accounted (s : State Tid) (p : Nat) : Prop :=
  DestroyedOnce s.log p ∨ .destroyed p ∉ s.log ∧ ∃ actor message,
    (s.dispatch actor).message? = some message ∧ message.owned = some p ∧ s.DispatchGoesOn actor

omit [DecidableEq Tid] in
/-- With nothing queued, all payloads are accounted for that did not leak, if the
threads that have one are going to destroy it. -/
theorem accounted_iff_leaked (hinv : Inv s) (hqueue : s.m_messageQueue = []) :
    (∀ p ∈ s.entrusted, Accounted s p) ↔ s.leaked = [] ∧
      ∀ actor p, (s.dispatch actor).owned = some p → s.DispatchGoesOn actor := by
  have hentrusted : ∀ holder p, p ∈ (s.holdings holder).map Prod.fst → p ∈ s.entrusted := by
    intro holder p hmem
    by_contra hnot
    exact hinv.ledger.counted hmem (if_neg hnot)
  have hhand : ∀ {actor p}, (s.dispatch actor).owned = some p →
      p ∈ (s.holdings (.actor actor)).map Prod.fst :=
    fun howned => mem_tokens.mpr (by simp [howned])
  -- An accounted payload is in the grave or in a hand, and nowhere else.
  have hplace : ∀ {holder p}, p ∈ (s.holdings holder).map Prod.fst → Accounted s p →
      holder = .grave ∨ ∃ actor, holder = .actor actor ∧ s.DispatchGoesOn actor := by
    intro holder p hmem haccounted
    rcases haccounted with ⟨before, after, hlog, _⟩ | ⟨_, actor, message, hmessage, howned, hgoes⟩
    · exact .inl (hinv.ledger.apart _ _ p hmem (mem_tokens.mpr (mem_graves.mpr (by simp [hlog]))))
    · refine .inr ⟨actor, hinv.ledger.apart _ _ p hmem (hhand ?_), hgoes⟩
      simp [DispatchPc.owned, hmessage, howned]
  constructor
  · intro haccounted
    constructor
    · rcases hleaked : s.leaked with _ | ⟨p, rest⟩
      · rfl
      · have hlost : p ∈ (s.holdings .lost).map Prod.fst := mem_tokens.mpr (by simp [hleaked])
        rcases hplace hlost (haccounted p (hentrusted _ p hlost)) with hgrave | ⟨_, hactor, _⟩
        · cases hgrave
        · cases hactor
    · intro actor p howned
      have hmem := hhand howned
      rcases hplace hmem (haccounted p (hentrusted _ p hmem)) with hgrave | ⟨other, hactor, hgoes⟩
      · cases hgrave
      · exact Holder.actor.inj hactor ▸ hgoes
  · rintro ⟨hleaked, hgoes⟩ p hmem
    obtain ⟨holder, hmem⟩ := hinv.ledger.owned p () (if_pos hmem)
    have hhere : p ∈ (s.holdings holder).map Prod.fst := List.mem_map_of_mem hmem
    cases holder with
    | queue => simp [State.holdings, hqueue, tokens] at hhere
    | lost => simp [State.holdings, hleaked, tokens] at hhere
    | grave => exact Or.inl (hinv.orderly p (mem_graves.mp (mem_tokens.mp hhere)))
    | actor actor =>
        have howned : (s.dispatch actor).owned = some p := by
          simpa using mem_tokens.mp hhere
        obtain ⟨message, hmessage, hpayload⟩ := Option.bind_eq_some_iff.mp howned
        exact Or.inr ⟨hinv.alive_of_dispatch howned, actor, message, hmessage, hpayload,
          hgoes actor p howned⟩

variable (exec : Execution (machine Tid))

theorem exec_inv {k : Nat} (hk : k ≤ exec.length) : Inv (exec.state k) ∧ WorkerInv (exec.state k) := by
  refine (exec.reachable hk).invariant (fun s => Inv s ∧ WorkerInv s)
    ⟨inv_init, fun _ => rfl, fun _ => rfl⟩ fun s next action hinv hstep => ?_
  obtain ⟨hnext, hworker, _⟩ := step_spec hinv.1 hinv.2 hstep
  exact ⟨hnext, hworker⟩

/-- Nothing has leaked when every step has kept what it had. -/
theorem leaked_iff {n : Nat} (hn : n ≤ exec.length) :
    (exec.state n).leaked = [] ↔ ∀ k, k < n → Keeps (exec.state k) (exec.action k) := by
  induction n with
  | zero =>
      rw [exec.starts]
      exact ⟨fun _ k hk => absurd hk (Nat.not_lt_zero k), fun _ => rfl⟩
  | succ n ih =>
      obtain ⟨hinv, hworker⟩ := exec_inv exec (Nat.le_of_succ_le hn)
      obtain ⟨_, _, hleaked⟩ := step_spec hinv hworker (exec.steps n hn)
      rw [hleaked, ih (Nat.le_of_succ_le hn)]
      constructor
      · rintro ⟨hbefore, hlast⟩ k hk
        rcases Nat.lt_succ_iff_lt_or_eq.mp hk with hlt | rfl
        · exact hbefore k hlt
        · exact hlast
      · exact fun hall => ⟨fun k hk => hall k (Nat.lt_succ_of_lt hk), hall n (Nat.lt_succ_self n)⟩

/-- The run ends with `dispose` or the destructor. -/
def EndsDisposed : Prop :=
  ∃ k, exec.length = k + 1 ∧ (exec.action k = .dispose ∨ exec.action k = .destruct)

omit [DecidableEq Tid] in
/-- No thread keeps a payload past the last step: with `dispose` one that has to call
`Dispatch` first, with the destructor any. -/
def NoneInHand (s : State Tid) : Action Tid → Prop
  | .dispose => ∀ t message, s.dispatch (some t) = .taken message → message.owned = none
  | .destruct => ∀ actor, (s.dispatch actor).owned = none
  | _ => True

/-- What the last step leaves: no message, and the dispatches that go on. -/
theorem disposed {action : Action Tid} (hlast : action = .dispose ∨ action = .destruct)
    (hstep : step s action = some next) :
    next.m_messageQueue = [] ∧
      ((∀ actor p, (next.dispatch actor).owned = some p → next.DispatchGoesOn actor) ↔
        NoneInHand s action) := by
  obtain ⟨halive, hstep⟩ := Option.ite_none_right_eq_some.mp hstep
  rcases hlast with rfl | rfl
  · obtain rfl := Option.some.inj hstep
    refine ⟨rfl, ?_, ?_⟩
    · intro hgoes t message htaken
      cases howned : message.owned with
      | none => rfl
      | some p =>
          have hhas : (s.dispatch (some t)).owned = some p := by
            simp [htaken, DispatchPc.owned, DispatchPc.message?, howned]
          exact absurd htaken ((hgoes (some t) p hhas).2 t message rfl)
    · rintro hnone actor p howned
      refine ⟨halive, ?_⟩
      rintro t message rfl htaken
      have htaken : s.dispatch (some t) = .taken message := htaken
      have hhas : (s.dispatch (some t)).owned = some p := howned
      simp [htaken, DispatchPc.owned, DispatchPc.message?, hnone t message htaken] at hhas
  · obtain ⟨_, hnext⟩ := Option.ite_none_right_eq_some.mp hstep
    obtain rfl := Option.some.inj hnext
    refine ⟨rfl, ?_, ?_⟩
    · intro hgoes actor
      cases howned : (s.dispatch actor).owned with
      | none => rfl
      | some p => exact absurd (hgoes actor p howned).1 Bool.false_ne_true
    · intro hnone actor p howned
      have howned : (s.dispatch actor).owned = some p := howned
      rw [hnone actor] at howned
      cases howned

/-- **Every payload is accounted for exactly when none was let go of.** -/
theorem accounted_iff_keeps (hend : EndsDisposed exec) :
    (∀ p ∈ (exec.state exec.length).entrusted, Accounted (exec.state exec.length) p) ↔
      exec.Allowed Keeps ∧
        NoneInHand (exec.state (exec.length - 1)) (exec.action (exec.length - 1)) := by
  obtain ⟨hinv, _⟩ := exec_inv exec (Nat.le_refl _)
  obtain ⟨k, hlength, hlast⟩ := hend
  have hstep := exec.steps k (by omega)
  rw [← hlength] at hstep
  obtain ⟨hqueue, hinHand⟩ := disposed hlast hstep
  rw [accounted_iff_leaked hinv hqueue, leaked_iff exec (Nat.le_refl _), hinHand, hlength,
    Nat.add_sub_cancel, ← hlength]
  rfl

/-- The worker delivers one payload before `Stop`, and another thread one whose handler
throws at the first attempt. -/
def delivered : List (Action Unit) :=
  [.addObserver "a" (.callback (some 5)), .post 0 true true, .start] ++
    List.replicate 8 .worker ++
    [.stop, .worker, .worker, .join, .post 0 true true, .getQueueMessage (), .dispatch (),
      .dispatch (), .handlerThrow (), .dispatch (), .dispatch (), .dispatch (), .dispatch (),
      .dispatch (), .destruct]

theorem accounted_delivered :
    let exec := Execution.ofActions (machine Unit) delivered (by decide)
    ∀ p < 2, Accounted (exec.state exec.length) p := by
  intro exec p hp
  have hend : EndsDisposed exec := ⟨25, rfl, Or.inr rfl⟩
  have hkeeps : exec.Allowed Keeps := (leaked_iff exec (Nat.le_refl _)).mp (by decide)
  have hinHand : NoneInHand (exec.state 25) (exec.action 25) := by
    intro actor
    rcases actor with _ | _ <;> rfl
  have hentrusted : (exec.state exec.length).entrusted = [1, 0] := by decide
  have hposted : p = 1 ∨ p = 0 := by omega
  refine (accounted_iff_keeps exec hend).mpr ⟨hkeeps, hinHand⟩ p ?_
  rw [hentrusted]
  simpa using hposted

/-- The worker finds the request to stop before it looks into the queue. -/
def leftBehind : List (Action Unit) :=
  [.addObserver "a" (.callback (some 5)), .post 0 true true, .start, .stop, .worker, .worker, .join,
    .destruct]

/-- **A payload that is queued when the worker stops is never destroyed.** -/
theorem not_accounted_leftBehind :
    ¬∀ exec : Execution (machine Unit), EndsDisposed exec →
      ∀ p ∈ (exec.state exec.length).entrusted, Accounted (exec.state exec.length) p := by
  intro hall
  let exec := Execution.ofActions (machine Unit) leftBehind (by decide)
  have hend : EndsDisposed exec := ⟨7, rfl, Or.inr rfl⟩
  obtain ⟨hinv, _⟩ := exec_inv exec (Nat.le_refl _)
  obtain ⟨hleaked, _⟩ := (accounted_iff_leaked hinv rfl).mp (hall exec hend)
  exact absurd hleaked (by decide)

end MessageCenter.EventQueue.Lifecycle
