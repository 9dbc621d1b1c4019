import MessageCenter.MessageCenterFast.Shutdown
import Mathlib.Data.List.Nodup

/-!
# The invariant of `start`, `stop` and `dispatchLoop`

The messages form one line: those that have been dispatched, the one that the dispatch thread has
got, and those in the queue.  A push that takes effect adds to its end, and no other step changes
it.  A post that is in progress owns its message, which is in the line if the push has taken effect,
and a marked item of the queue is that of a post in progress.

This module has the steps of the program over the atomic queue; those of the queue itself follow in
`Drain`.
-/

namespace MessageCenter.MessageCenterFast.Shutdown

open Concurrency MPMCQueue

variable {Tid : Type}

/-- The atomic queue of the threads of the program. -/
abbrev Queue (Tid : Type) := AtomicQueue.State (Thread Tid) Nat

variable {c next : State Tid} {a a' : Queue Tid} {t : Thread Tid}

/-! ### The program and the phases of its calls -/

def PostPc.msg : PostPc → Option Nat
  | .idle => none
  | .tryPush msg | .pushing msg | .countPosted msg | .returnTrue msg => some msg

def PostPc.call : PostPc → Option (Op Nat)
  | .pushing msg => some (.tryPush msg)
  | _ => none

/-- The dispatch thread is inside `try_pop`. -/
def State.popCall (c : State Tid) : Thread Tid → Option (Op Nat)
  | .poster _ => none
  | .dispatcher =>
      match c.m_dispatchThread with
      | some (.popping _) => some .tryPop
      | _ => none

/-- The call of the ring that a thread is in. -/
def State.call (c : State Tid) (t : Thread Tid) : Option (Op Nat) :=
  (c.posts t).call.or (c.popCall t)

/-- The phases that a call can be in. -/
inductive Fits : Option (Op Nat) → AtomicQueue.Phase Nat → Prop
  | idle : Fits none .idle
  | called (op : Op Nat) : Fits (some op) (.called op)
  | pushSettling (msg : Nat) : Fits (some (.tryPush msg)) (.settling (.pushed true))
  | pushReturning (msg : Nat) (ok : Bool) : Fits (some (.tryPush msg)) (.returning (.pushed ok))
  | popSettling (msg : Nat) : Fits (some .tryPop) (.settling (.popped (some (some msg))))
  | popReturning (item : Option Nat) : Fits (some .tryPop) (.returning (.popped (item.map some)))

/-- The message of a post is in the line. -/
def PostPc.entered : PostPc → AtomicQueue.Phase Nat → Bool
  | .pushing _, .settling _ => true
  | .pushing _, .returning (.pushed ok) => ok
  | .countPosted _, _ | .returnTrue _, _ => true
  | _, _ => false

/-- The message that a pop has got. -/
def got : AtomicQueue.Phase Nat → List Nat
  | .settling (.popped (some (some msg))) | .returning (.popped (some (some msg))) => [msg]
  | _ => []

/-- The message that the dispatch thread has got and not dispatched. -/
def State.inHand (c : State Tid) (phase : AtomicQueue.Phase Nat) : List Nat :=
  match c.m_dispatchThread with
  | some (.dispatch _ msg) => [msg]
  | some (.popping _) => got phase
  | _ => []

def State.line (c : State Tid) (a : Queue Tid) : List Nat :=
  c.dispatched ++ c.inHand (a.phase .dispatcher) ++ a.items.map Prod.snd

theorem fits_called {call : Option (Op Nat)} {op : Op Nat} (h : Fits call (.called op)) :
    call = some op := by
  cases h
  rfl

theorem popping_of_popCall {op : Op Nat} (h : c.popCall t = some op) :
    op = .tryPop ∧ t = .dispatcher ∧ ∃ drain, c.m_dispatchThread = some (.popping drain) := by
  cases t with
  | poster t => cases h
  | dispatcher =>
      simp only [State.popCall] at h
      split at h
      · next drain hthread => exact ⟨(Option.some.inj h).symm, rfl, drain, hthread⟩
      · cases h

theorem pushing_of_postCall {pc : PostPc} {op : Op Nat} (h : pc.call = some op) :
    ∃ msg, op = .tryPush msg ∧ pc = .pushing msg := by
  cases pc with
  | pushing msg => exact ⟨msg, (Option.some.inj h).symm, rfl⟩
  | idle | tryPush _ | countPosted _ | returnTrue _ => cases h

theorem pushing_of_call {msg : Nat} (h : c.call t = some (.tryPush msg)) :
    c.posts t = .pushing msg := by
  rcases Option.or_eq_some_iff.mp h with hpost | ⟨-, hpop⟩
  · obtain ⟨msg', heq, hpushing⟩ := pushing_of_postCall hpost
    rw [hpushing, Op.tryPush.inj heq]
  · cases (popping_of_popCall hpop).1

theorem popping_of_call (h : c.call t = some .tryPop) :
    t = .dispatcher ∧ ∃ drain, c.m_dispatchThread = some (.popping drain) := by
  rcases Option.or_eq_some_iff.mp h with hpost | ⟨-, hpop⟩
  · obtain ⟨msg, heq, -⟩ := pushing_of_postCall hpost
    cases heq
  · exact (popping_of_popCall hpop).2

/-! ### The invariant -/

/-- The posts that are in progress, and the line. -/
structure Posts (c : State Tid) (phase : Thread Tid → AtomicQueue.Phase Nat) (line : List Nat) :
    Prop where
  nodup : line.Nodup
  lt : ∀ msg ∈ line, msg < c.nextMsg
  posting_lt : ∀ t msg, (c.posts t).msg = some msg → msg < c.nextMsg
  posting_unique : ∀ t t' msg, (c.posts t).msg = some msg → (c.posts t').msg = some msg → t = t'
  not_returned : ∀ t msg, (c.posts t).msg = some msg → msg ∉ c.returned
  entered : ∀ t msg, (c.posts t).msg = some msg →
    (msg ∈ line ↔ (c.posts t).entered (phase t) = true)
  returned : ∀ msg ∈ c.returned, msg ∈ line

/-- The posts `before` have been dispatched, or what is left of them lies behind another one. -/
def Drained (before dispatched left : List Nat) : Prop :=
  (∀ msg ∈ before, msg ∈ dispatched) ∨
    ∃ blocker rest, left = blocker :: rest ∧ blocker ∉ before ∧
      ∀ msg ∈ before, msg ∈ dispatched ∨ msg ∈ rest

def LoopPc.draining : LoopPc → Bool
  | .test => false
  | .tryPop drain | .popping drain | .dispatch drain _ | .countDispatched drain => drain
  | .finished => true

/-- The last `try_pop` of the second loop has answered "empty". -/
def Ended (thread : Option LoopPc) (phase : AtomicQueue.Phase Nat) : Prop :=
  thread = some .finished ∨
    thread = some (.popping true) ∧ phase = .returning (.popped none)

/-- What the thread knows that calls `start` and `stop`. -/
def ControlAt (c : State Tid) (phase : AtomicQueue.Phase Nat) (left : List Nat) : ControlPc → Prop
  | .idle | .startTest => c.m_running = c.m_dispatchThread.isSome
  | .startStopping => c.m_running = false ∧ c.m_dispatchThread = none
  | .startRunning => c.m_stopping = false ∧ c.m_dispatchThread = none
  | .startThread => c.m_running = true ∧ c.m_stopping = false ∧ c.m_dispatchThread = none
  | .stopTest before =>
      c.m_running = c.m_dispatchThread.isSome ∧ ∀ msg ∈ before, msg ∈ c.returned
  | .stopStopping before => c.m_dispatchThread ≠ none ∧ ∀ msg ∈ before, msg ∈ c.returned
  | .stopJoin before => c.m_dispatchThread ≠ none ∧ (∀ msg ∈ before, msg ∈ c.returned) ∧
      (Ended c.m_dispatchThread phase → Drained before c.dispatched left)
  | .stopRunning before => c.m_dispatchThread = none ∧ Drained before c.dispatched left

structure Control (c : State Tid) (phase : AtomicQueue.Phase Nat) (left : List Nat) : Prop where
  stopping : c.m_stopping = true → c.m_dispatchThread ≠ none →
    ∃ before, c.control = .stopJoin before
  draining : ∀ pc, c.m_dispatchThread = some pc → pc.draining = true →
    ∃ before, c.control = .stopJoin before
  control : ControlAt c phase left c.control
  stopped : ∀ before, c.stopped = some before →
    c.m_dispatchThread = none ∧ Drained before c.dispatched left

structure Inv (c : State Tid) (a : Queue Tid) : Prop where
  calls : ∀ t, Fits (c.call t) (a.phase t)
  callbacks : c.posts .dispatcher ≠ .idle → c.mayPost .dispatcher = true
  /-- a marked item is that of a post in progress -/
  marked : ∀ entry ∈ a.items, ∀ t, entry.1 = some t →
    c.posts t = .pushing entry.2 ∧ a.phase t = .settling (.pushed true)
  posts : Posts c a.phase (c.line a)
  control : Control c (a.phase .dispatcher) (a.items.map Prod.snd)

theorem inv_init : Inv (init : State Tid) AtomicQueue.init where
  calls := fun t => by cases t <;> exact Fits.idle
  callbacks := fun h => absurd rfl h
  marked := fun _ hmem => absurd hmem List.not_mem_nil
  posts := {
    nodup := List.nodup_nil
    lt := fun _ hmem => absurd hmem List.not_mem_nil
    posting_lt := fun _ _ h => nomatch h
    posting_unique := fun _ _ _ h => nomatch h
    not_returned := fun _ _ h => nomatch h
    entered := fun _ _ h => nomatch h
    returned := fun _ hmem => absurd hmem List.not_mem_nil }
  control := ⟨nofun, nofun, rfl, nofun⟩

/-! ### Posts -/

section Posts

variable {phase phase' : Thread Tid → AtomicQueue.Phase Nat} {line line' : List Nat}

/-- Nothing is posted and nothing enters the line. -/
theorem Posts.same (h : Posts c phase line) (hmsg : ∀ t, (next.posts t).msg = (c.posts t).msg)
    (hentered : ∀ t, (next.posts t).entered (phase' t) = (c.posts t).entered (phase t))
    (hnextMsg : next.nextMsg = c.nextMsg) (hreturned : next.returned = c.returned)
    (hline : line' = line) : Posts next phase' line' := by
  subst hline
  refine ⟨h.nodup, ?_, ?_, ?_, ?_, ?_, ?_⟩
  · rw [hnextMsg]
    exact h.lt
  · intro t msg hmsg'
    rw [hnextMsg]
    exact h.posting_lt t msg ((hmsg t).symm.trans hmsg')
  · intro t t' msg hmsg₁ hmsg₂
    exact h.posting_unique t t' msg ((hmsg t).symm.trans hmsg₁) ((hmsg t').symm.trans hmsg₂)
  · intro t msg hmsg'
    rw [hreturned]
    exact h.not_returned t msg ((hmsg t).symm.trans hmsg')
  · intro t msg hmsg'
    rw [hentered]
    exact h.entered t msg ((hmsg t).symm.trans hmsg')
  · rw [hreturned]
    exact h.returned

variable [DecidableEq Tid]

/-- A step of one post. -/
theorem Posts.move (h : Posts c phase line) {pc : PostPc}
    (hposts : next.posts = Function.update c.posts t pc) (hmsg : pc.msg = (c.posts t).msg)
    (hentered : pc.entered (phase' t) = (c.posts t).entered (phase t))
    (hphase : ∀ other, other ≠ t → phase' other = phase other)
    (hnextMsg : next.nextMsg = c.nextMsg) (hreturned : next.returned = c.returned) :
    Posts next phase' line := by
  refine h.same (fun other => ?_) (fun other => ?_) hnextMsg hreturned rfl
  · rw [hposts]
    by_cases heq : other = t
    · rw [heq, Function.update_self, hmsg]
    · rw [Function.update_of_ne heq]
  · rw [hposts]
    by_cases heq : other = t
    · rw [heq, Function.update_self, hentered]
    · rw [Function.update_of_ne heq, hphase other heq]

/-- `post` has got a message. -/
theorem Posts.begin (h : Posts c phase line)
    (hposts : next.posts = Function.update c.posts t (.tryPush c.nextMsg))
    (hnextMsg : next.nextMsg = c.nextMsg + 1) (hreturned : next.returned = c.returned) :
    Posts next phase line := by
  have hself : next.posts t = .tryPush c.nextMsg := by
    rw [hposts]
    exact Function.update_self ..
  have hother : ∀ other, other ≠ t → next.posts other = c.posts other := by
    intro other hne
    rw [hposts]
    exact Function.update_of_ne hne ..
  have hfresh : c.nextMsg ∉ line := fun hmem => Nat.lt_irrefl _ (h.lt _ hmem)
  refine ⟨h.nodup, ?_, ?_, ?_, ?_, ?_, ?_⟩
  · intro msg hmem
    rw [hnextMsg]
    exact Nat.lt_succ_of_lt (h.lt msg hmem)
  · intro other msg hmsg
    rw [hnextMsg]
    by_cases heq : other = t
    · rw [heq, hself] at hmsg
      exact Nat.lt_succ_of_le (Nat.le_of_eq (Option.some.inj hmsg).symm)
    · rw [hother other heq] at hmsg
      exact Nat.lt_succ_of_lt (h.posting_lt other msg hmsg)
  · intro first second msg hfirst hsecond
    by_cases heq₁ : first = t
    · by_cases heq₂ : second = t
      · rw [heq₁, heq₂]
      · rw [heq₁, hself] at hfirst
        rw [hother second heq₂] at hsecond
        obtain rfl := Option.some.inj hfirst
        exact absurd (h.posting_lt second _ hsecond) (Nat.lt_irrefl _)
    · rw [hother first heq₁] at hfirst
      by_cases heq₂ : second = t
      · rw [heq₂, hself] at hsecond
        obtain rfl := Option.some.inj hsecond
        exact absurd (h.posting_lt first _ hfirst) (Nat.lt_irrefl _)
      · rw [hother second heq₂] at hsecond
        exact h.posting_unique first second msg hfirst hsecond
  · intro other msg hmsg
    rw [hreturned]
    by_cases heq : other = t
    · rw [heq, hself] at hmsg
      obtain rfl := Option.some.inj hmsg
      exact fun hmem => hfresh (h.returned _ hmem)
    · rw [hother other heq] at hmsg
      exact h.not_returned other msg hmsg
  · intro other msg hmsg
    by_cases heq : other = t
    · rw [heq, hself] at hmsg ⊢
      obtain rfl := Option.some.inj hmsg
      exact iff_of_false hfresh Bool.false_ne_true
    · rw [hother other heq] at hmsg ⊢
      exact h.entered other msg hmsg
  · rw [hreturned]
    exact h.returned

/-- `post` returns. -/
theorem Posts.leave (h : Posts c phase line)
    (hposts : next.posts = Function.update c.posts t .idle) (hnextMsg : next.nextMsg = c.nextMsg)
    (hreturned : ∀ msg ∈ next.returned, msg ∈ c.returned ∨ (c.posts t).msg = some msg ∧ msg ∈ line)
    (hphase : ∀ other, other ≠ t → phase' other = phase other) : Posts next phase' line := by
  have hold : ∀ other msg, (next.posts other).msg = some msg →
      other ≠ t ∧ next.posts other = c.posts other := by
    intro other msg hmsg
    rw [hposts] at hmsg ⊢
    by_cases heq : other = t
    · rw [heq, Function.update_self] at hmsg
      cases hmsg
    · exact ⟨heq, Function.update_of_ne heq ..⟩
  refine ⟨h.nodup, ?_, ?_, ?_, ?_, ?_, ?_⟩
  · rw [hnextMsg]
    exact h.lt
  · intro other msg hmsg
    rw [(hold other msg hmsg).2] at hmsg
    rw [hnextMsg]
    exact h.posting_lt other msg hmsg
  · intro first second msg hfirst hsecond
    rw [(hold first msg hfirst).2] at hfirst
    rw [(hold second msg hsecond).2] at hsecond
    exact h.posting_unique first second msg hfirst hsecond
  · intro other msg hmsg hmem
    obtain ⟨hne, heq⟩ := hold other msg hmsg
    rw [heq] at hmsg
    rcases hreturned msg hmem with hmem | ⟨hown, -⟩
    · exact h.not_returned other msg hmsg hmem
    · exact hne (h.posting_unique other t msg hmsg hown)
  · intro other msg hmsg
    obtain ⟨hne, heq⟩ := hold other msg hmsg
    rw [heq] at hmsg ⊢
    rw [hphase other hne]
    exact h.entered other msg hmsg
  · intro msg hmem
    exact (hreturned msg hmem).elim (h.returned msg) And.right

omit [DecidableEq Tid] in
/-- The push takes effect. -/
theorem Posts.enter (h : Posts c phase line) {msg : Nat} (hpushing : c.posts t = .pushing msg)
    (hbefore : (PostPc.pushing msg).entered (phase t) = false)
    (hafter : (PostPc.pushing msg).entered (phase' t) = true)
    (hphase : ∀ other, other ≠ t → phase' other = phase other) :
    Posts c phase' (line ++ [msg]) := by
  have hmsg : (c.posts t).msg = some msg := by
    rw [hpushing]
    rfl
  have hfresh : msg ∉ line := by
    intro hmem
    have hentered := (h.entered t msg hmsg).mp hmem
    rw [hpushing, hbefore] at hentered
    cases hentered
  refine ⟨?_, ?_, h.posting_lt, h.posting_unique, h.not_returned, ?_, ?_⟩
  · refine List.nodup_append.mpr ⟨h.nodup, List.nodup_singleton msg, ?_⟩
    rintro first hfirst second hsecond rfl
    exact hfresh (List.mem_singleton.mp hsecond ▸ hfirst)
  · intro other hmem
    rcases List.mem_append.mp hmem with hmem | hmem
    · exact h.lt other hmem
    · rw [List.mem_singleton.mp hmem]
      exact h.posting_lt t msg hmsg
  · intro other msg' hother
    by_cases heq : other = t
    · rw [heq, hmsg] at hother
      obtain rfl := Option.some.inj hother
      rw [heq, hpushing]
      exact iff_of_true (List.mem_append_right _ List.mem_cons_self) hafter
    · have hne : msg' ≠ msg := by
        rintro rfl
        exact heq (h.posting_unique other t msg' hother hmsg)
      rw [List.mem_append, List.mem_singleton, or_iff_left hne, hphase other heq]
      exact h.entered other msg' hother
  · exact fun msg' hmem => List.mem_append_left _ (h.returned msg' hmem)

end Posts

/-! ### The drain -/

theorem Drained.append {before dispatched left : List Nat} (h : Drained before dispatched left)
    (more : List Nat) : Drained before dispatched (left ++ more) := by
  rcases h with hall | ⟨blocker, rest, rfl, hblocker, hrest⟩
  · exact Or.inl hall
  · refine Or.inr ⟨blocker, rest ++ more, rfl, hblocker, fun msg hmem => ?_⟩
    exact (hrest msg hmem).imp_right (List.mem_append_left more)

/-- What `start` and `stop` read and write. -/
def State.lifecycle (c : State Tid) :
    Bool × Bool × Option LoopPc × ControlPc × Option (List Nat) × List Nat :=
  (c.m_running, c.m_stopping, c.m_dispatchThread, c.control, c.stopped, c.dispatched)

/-- A step of the posts or of the queue. -/
theorem Control.same {phase phase' : AtomicQueue.Phase Nat} {left : List Nat}
    (h : Control c phase left) (hsame : next.lifecycle = c.lifecycle)
    (hreturned : ∀ msg ∈ c.returned, msg ∈ next.returned)
    (hended : Ended c.m_dispatchThread phase' → Ended c.m_dispatchThread phase) (more : List Nat) :
    Control next phase' (left ++ more) := by
  simp only [State.lifecycle, Prod.mk.injEq] at hsame
  obtain ⟨hrunning, hstopping, hthread, hcontrol, hstopped, hdispatched⟩ := hsame
  refine ⟨?_, ?_, ?_, ?_⟩
  · rw [hstopping, hthread, hcontrol]
    exact h.stopping
  · rw [hthread, hcontrol]
    exact h.draining
  · have hat := h.control
    rw [hcontrol]
    cases hpc : c.control with
    | idle | startTest | startStopping | startRunning | startThread =>
        rw [hpc] at hat
        simp only [ControlAt, hrunning, hstopping, hthread] at hat ⊢
        exact hat
    | stopTest before | stopStopping before =>
        rw [hpc] at hat
        simp only [ControlAt, hrunning, hthread] at hat ⊢
        exact ⟨hat.1, fun msg hmem => hreturned msg (hat.2 msg hmem)⟩
    | stopJoin before =>
        rw [hpc] at hat
        simp only [ControlAt, hthread, hdispatched] at hat ⊢
        exact ⟨hat.1, fun msg hmem => hreturned msg (hat.2.1 msg hmem),
          fun hend => (hat.2.2 (hended hend)).append more⟩
    | stopRunning before =>
        rw [hpc] at hat
        simp only [ControlAt, hthread, hdispatched] at hat ⊢
        exact ⟨hat.1, hat.2.append more⟩
  · rw [hstopped, hthread, hdispatched]
    exact fun before heq => ⟨(h.stopped before heq).1, (h.stopped before heq).2.append more⟩

/-! ### Steps of the posts -/

theorem dispatching_of_mayPost (h : c.mayPost .dispatcher = true) :
    ∃ drain msg, c.m_dispatchThread = some (.dispatch drain msg) := by
  rw [State.mayPost] at h
  split at h
  · next drain msg hthread => exact ⟨drain, msg, hthread⟩
  · cases h

theorem popCall_of_mayPost (h : c.mayPost t = true) : c.popCall t = none := by
  cases t with
  | poster t => rfl
  | dispatcher =>
      obtain ⟨drain, msg, hthread⟩ := dispatching_of_mayPost h
      rw [State.popCall, hthread]

theorem Inv.mayPost (h : Inv c a) (hposting : c.posts t ≠ .idle) : c.mayPost t = true := by
  cases t with
  | poster t => rfl
  | dispatcher => exact h.callbacks hposting

/-- A thread that is in no call of the ring. -/
theorem Inv.phase_idle (h : Inv c a) (hmay : c.mayPost t = true)
    (hcall : (c.posts t).call = none) : a.phase t = .idle := by
  have hfits := h.calls t
  rw [State.call, hcall, popCall_of_mayPost hmay] at hfits
  generalize a.phase t = phase at hfits
  cases hfits
  rfl

theorem Inv.unmarked (h : Inv c a) (hphase : a.phase t ≠ .settling (.pushed true)) :
    ∀ entry ∈ a.items, ∀ other, entry.1 = some other → other ≠ t ∧ entry ∈ a.items := by
  intro entry hmem other hmark
  refine ⟨?_, hmem⟩
  rintro rfl
  exact hphase (h.marked entry hmem other hmark).2

/-- The dispatch thread posts in a callback only, and then it is in no pop. -/
theorem inHand_of_mayPost {phase phase' : Thread Tid → AtomicQueue.Phase Nat}
    (hmay : c.mayPost t = true) (hphase : ∀ other, other ≠ t → phase' other = phase other) :
    c.inHand (phase' .dispatcher) = c.inHand (phase .dispatcher) ∧
      (Ended c.m_dispatchThread (phase' .dispatcher) →
        Ended c.m_dispatchThread (phase .dispatcher)) := by
  cases t with
  | poster t =>
      rw [hphase .dispatcher nofun]
      exact ⟨rfl, id⟩
  | dispatcher =>
      obtain ⟨drain, msg, hdispatch⟩ := dispatching_of_mayPost hmay
      simp [State.inHand, Ended, hdispatch]

section Moved

variable [DecidableEq Tid]

/-- A step of `post` with what it does to the phase of its thread. -/
theorem Inv.moved (h : Inv c a) {pc : PostPc} {phase : AtomicQueue.Phase Nat}
    (hmay : c.mayPost t = true) (hposts : next.posts = Function.update c.posts t pc)
    (hlifecycle : next.lifecycle = c.lifecycle)
    (hreturned : ∀ msg ∈ c.returned, msg ∈ next.returned)
    (hphase : a'.phase = Function.update a.phase t phase)
    (hleft : a'.items.map Prod.snd = a.items.map Prod.snd)
    (hmarks : ∀ entry ∈ a'.items, ∀ other, entry.1 = some other → other ≠ t ∧ entry ∈ a.items)
    (hfits : Fits pc.call phase) (hline : Posts next a'.phase (c.line a)) : Inv next a' := by
  have hsame := hlifecycle
  simp only [State.lifecycle, Prod.mk.injEq] at hsame
  obtain ⟨-, -, hthread, -, -, hdispatched⟩ := hsame
  have hmay' : ∀ other, next.mayPost other = c.mayPost other := by
    intro other
    cases other with
    | poster t => rfl
    | dispatcher => rw [State.mayPost, hthread, State.mayPost]
  have hphases : ∀ other, other ≠ t → a'.phase other = a.phase other := by
    intro other hne
    rw [hphase, Function.update_of_ne hne]
  have hposts' : ∀ other, other ≠ t → next.posts other = c.posts other := by
    intro other hne
    rw [hposts, Function.update_of_ne hne]
  have hcallback := inHand_of_mayPost hmay hphases
  have hinHand : next.inHand (a'.phase .dispatcher) = c.inHand (a.phase .dispatcher) := by
    rw [← hcallback.1, State.inHand, hthread, State.inHand]
  have hpop : ∀ other, next.popCall other = c.popCall other := by
    intro other
    cases other with
    | poster t => rfl
    | dispatcher => rw [State.popCall, hthread, State.popCall]
  refine ⟨fun other => ?_, fun hposting => ?_, fun entry hmem other hmark => ?_, ?_, ?_⟩
  · by_cases heq : other = t
    · rw [heq, State.call, hpop, popCall_of_mayPost hmay, hposts, Function.update_self, hphase,
        Function.update_self, Option.or_none]
      exact hfits
    · rw [State.call, hposts' other heq, hpop, hphases other heq]
      exact h.calls other
  · rw [hmay']
    by_cases heq : .dispatcher = t
    · rw [heq]
      exact hmay
    · rw [hposts' .dispatcher heq] at hposting
      exact h.callbacks hposting
  · obtain ⟨hne, hold⟩ := hmarks entry hmem other hmark
    rw [hposts' other hne, hphases other hne]
    exact h.marked entry hold other hmark
  · rw [State.line, hdispatched, hinHand, hleft]
    exact hline
  · rw [hleft, ← List.append_nil (a.items.map Prod.snd)]
    exact h.control.same hlifecycle hreturned hcallback.2 []

theorem Inv.post (h : Inv c a) (hidle : c.posts t = .idle) (hmay : c.mayPost t = true) :
    Inv { c.goto t (.tryPush c.nextMsg) with nextMsg := c.nextMsg + 1 } a := by
  have hphase : a.phase t = .idle := h.phase_idle hmay (by rw [hidle]; rfl)
  refine h.moved hmay rfl rfl (fun _ hmem => hmem) (Function.update_eq_self t a.phase).symm rfl
    (h.unmarked (by simp [hphase])) (hphase ▸ Fits.idle) (h.posts.begin rfl rfl rfl)

theorem Inv.runPost (h : Inv c a) (hstep : Shutdown.runPost c t = some next) : Inv next a := by
  unfold Shutdown.runPost at hstep
  split at hstep
  · next msg hpc =>
    obtain rfl := Option.some.inj hstep
    have hmay := h.mayPost (t := t) (by simp [hpc])
    have hphase : a.phase t = .idle := h.phase_idle hmay (by rw [hpc]; rfl)
    refine h.moved hmay rfl rfl (fun _ hmem => hmem) (Function.update_eq_self t a.phase).symm rfl
      (h.unmarked (by simp [hphase])) (hphase ▸ Fits.idle)
      (h.posts.move rfl ?_ ?_ (fun _ _ => rfl) rfl rfl)
    · rw [hpc]
      rfl
    · rw [hpc]
      rfl
  · next msg hpc =>
    obtain rfl := Option.some.inj hstep
    have hmay := h.mayPost (t := t) (by simp [hpc])
    have hphase : a.phase t = .idle := h.phase_idle hmay (by rw [hpc]; rfl)
    have hmsg : (c.posts t).msg = some msg := by
      rw [hpc]
      rfl
    have hline : msg ∈ c.line a := (h.posts.entered t msg hmsg).mpr (by rw [hpc]; rfl)
    refine h.moved hmay rfl rfl (fun _ hmem => List.mem_append_left _ hmem)
      (Function.update_eq_self t a.phase).symm rfl (h.unmarked (by simp [hphase]))
      (hphase ▸ Fits.idle)
      (h.posts.leave rfl rfl (fun msg' hmem => ?_) (fun _ _ => rfl))
    rcases List.mem_append.mp hmem with hmem | hmem
    · exact Or.inl hmem
    · rw [List.mem_singleton.mp hmem]
      exact Or.inr ⟨hmsg, hline⟩
  · cases hstep

/-- `try_push` is called. -/
theorem Inv.push (h : Inv c a) {msg : Nat} (hpc : c.posts t = .tryPush msg) :
    Inv (c.goto t (.pushing msg)) (a.goto t (.called (.tryPush msg))) := by
  have hmay := h.mayPost (t := t) (by simp [hpc])
  have hphase : a.phase t = .idle := h.phase_idle hmay (by rw [hpc]; rfl)
  refine h.moved hmay rfl rfl (fun _ hmem => hmem) rfl rfl (h.unmarked (by simp [hphase]))
    (Fits.called _)
    (h.posts.move rfl ?_ ?_ (fun _ hne => a.goto_phase_other _ hne) rfl rfl)
  · rw [hpc]
    rfl
  · rw [hpc, a.goto_phase_self]
    rfl

/-- `try_push` has returned. -/
theorem Inv.pushed (h : Inv c a) {msg : Nat} {ok : Bool} (hpc : c.posts t = .pushing msg)
    (hphase : a.phase t = .returning (.pushed ok)) :
    Inv (c.goto t (if ok then .countPosted msg else .idle)) (a.goto t .idle) := by
  have hmay := h.mayPost (t := t) (by simp [hpc])
  cases ok with
  | true =>
      refine h.moved hmay rfl rfl (fun _ hmem => hmem) rfl rfl (h.unmarked (by simp [hphase]))
        Fits.idle
        (h.posts.move rfl ?_ ?_ (fun _ hne => a.goto_phase_other _ hne) rfl rfl)
      · rw [hpc]
        rfl
      · rw [hpc, hphase]
        rfl
  | false =>
      exact h.moved hmay rfl rfl (fun _ hmem => hmem) rfl rfl (h.unmarked (by simp [hphase]))
        Fits.idle
        (h.posts.leave rfl rfl (fun _ hmem => Or.inl hmem) fun _ hne => a.goto_phase_other _ hne)

end Moved

/-! ### Steps of the dispatch thread and of `start` and `stop` -/

/-- A step that leaves the posts and the queue alone. -/
theorem Inv.same_posts (h : Inv c a) (hposts : next.posts = c.posts)
    (hnextMsg : next.nextMsg = c.nextMsg) (hreturned : next.returned = c.returned)
    (hpop : next.popCall .dispatcher = c.popCall .dispatcher)
    (hmay : c.posts .dispatcher ≠ .idle → next.mayPost .dispatcher = true)
    (hline : next.line a = c.line a)
    (hcontrol : Control next (a.phase .dispatcher) (a.items.map Prod.snd)) : Inv next a := by
  refine ⟨fun t => ?_, hposts ▸ hmay, fun entry hmem t hmark => ?_, ?_, hcontrol⟩
  · have hsame : next.popCall t = c.popCall t := by
      cases t with
      | poster t => rfl
      | dispatcher => exact hpop
    rw [State.call, hposts, hsame]
    exact h.calls t
  · rw [hposts]
    exact h.marked entry hmem t hmark
  · exact h.posts.same (fun t => by rw [hposts]) (fun t => by rw [hposts]) hnextMsg hreturned hline

/-- Outside the callbacks the dispatch thread is in no post. -/
theorem Inv.dispatcher_idle (h : Inv c a) (hmay : c.mayPost .dispatcher = false) :
    c.posts .dispatcher = .idle := by
  by_contra hne
  rw [h.callbacks hne] at hmay
  cases hmay

theorem Drained.mono {before dispatched dispatched' left : List Nat}
    (h : Drained before dispatched left) (hsubset : ∀ msg ∈ dispatched, msg ∈ dispatched') :
    Drained before dispatched' left := by
  rcases h with hall | ⟨blocker, rest, rfl, hblocker, hrest⟩
  · exact Or.inl fun msg hmem => hsubset msg (hall msg hmem)
  · exact Or.inr ⟨blocker, rest, rfl, hblocker, fun msg hmem =>
      (hrest msg hmem).imp_left (hsubset msg)⟩

/-- The dispatch thread goes on. -/
theorem Control.goOn {phase phase' : AtomicQueue.Phase Nat} {left left' dispatched : List Nat}
    {pc pc' : LoopPc} {m_dispatched : Nat} (h : Control c phase left)
    (hthread : c.m_dispatchThread = some pc)
    (hdraining : pc'.draining = true → pc.draining = true ∨ c.m_stopping = true)
    (hended : Ended (some pc') phase' → ∀ before, (∀ msg ∈ before, msg ∈ c.returned) →
      (Ended (some pc) phase → Drained before c.dispatched left) →
      Drained before dispatched left') :
    Control { c with
      m_dispatchThread := some pc'
      dispatched := dispatched
      m_dispatched := m_dispatched } phase' left' := by
  refine ⟨fun hstopping _ => ?_, fun other heq hdrain => ?_, ?_, fun before hstopped => ?_⟩
  · exact h.stopping hstopping (by simp [hthread])
  · obtain rfl := Option.some.inj heq
    rcases hdraining hdrain with hold | hstopping
    · exact h.draining pc hthread hold
    · exact h.stopping hstopping (by simp [hthread])
  · have hat := h.control
    cases hpc : c.control with
    | idle | startTest | stopTest before =>
        rw [hpc] at hat
        simp only [ControlAt, hthread] at hat ⊢
        exact hat
    | stopStopping before =>
        rw [hpc] at hat
        exact ⟨Option.some_ne_none _, hat.2⟩
    | stopJoin before =>
        rw [hpc] at hat
        simp only [ControlAt, hthread] at hat ⊢
        exact ⟨Option.some_ne_none _, hat.2.1, fun hend => hended hend before hat.2.1 hat.2.2⟩
    | startStopping | startRunning | startThread | stopRunning before =>
        rw [hpc] at hat
        simp [ControlAt, hthread] at hat
  · have hnone := (h.stopped before hstopped).1
    rw [hthread] at hnone
    cases hnone

theorem Inv.dispatchLoop (h : Inv c a) (hstep : Shutdown.dispatchLoop c = some next) :
    Inv next a := by
  unfold Shutdown.dispatchLoop at hstep
  split at hstep
  · next hthread =>
    obtain rfl := Option.some.inj hstep
    have hidle := h.dispatcher_idle (by rw [State.mayPost, hthread])
    refine h.same_posts rfl rfl rfl ?_ (fun hne => absurd hidle hne) ?_
      (h.control.goOn hthread Or.inr ?_)
    · simp only [State.popCall, hthread]
    · simp only [State.line, State.inHand, hthread]
    · simp [Ended]
  · next drain msg hthread =>
    split at hstep
    · next hidle =>
      obtain rfl := Option.some.inj hstep
      refine h.same_posts rfl rfl rfl ?_ (fun hne => absurd hidle hne) ?_
        (h.control.goOn hthread Or.inl ?_)
      · simp only [State.popCall, hthread]
      · simp only [State.line, State.inHand, hthread, List.append_nil]
      · simp [Ended]
    · cases hstep
  · next drain hthread =>
    obtain rfl := Option.some.inj hstep
    have hidle := h.dispatcher_idle (by rw [State.mayPost, hthread])
    cases drain with
    | true =>
        refine h.same_posts rfl rfl rfl ?_ (fun hne => absurd hidle hne) ?_
          (h.control.goOn hthread Or.inl ?_)
        · simp only [State.popCall, hthread, if_true]
        · simp only [State.line, State.inHand, hthread, if_true]
        · simp [Ended]
    | false =>
        refine h.same_posts rfl rfl rfl ?_ (fun hne => absurd hidle hne) ?_
          (h.control.goOn hthread Or.inl ?_)
        · simp only [State.popCall, hthread, Bool.false_eq_true, if_false]
        · simp only [State.line, State.inHand, hthread, Bool.false_eq_true, if_false]
        · simp [Ended]
  · cases hstep

/-- A step of `start` or `stop` that leaves the dispatch thread alone. -/
theorem Inv.same_thread (h : Inv c a) (hposts : next.posts = c.posts)
    (hnextMsg : next.nextMsg = c.nextMsg) (hreturned : next.returned = c.returned)
    (hdispatched : next.dispatched = c.dispatched)
    (hthread : next.m_dispatchThread = c.m_dispatchThread)
    (hcontrol : Control next (a.phase .dispatcher) (a.items.map Prod.snd)) : Inv next a := by
  refine h.same_posts hposts hnextMsg hreturned ?_ (fun hne => ?_) ?_ hcontrol
  · rw [State.popCall, hthread, State.popCall]
  · have hmay := h.callbacks hne
    rw [State.mayPost] at hmay ⊢
    rw [hthread]
    exact hmay
  · rw [State.line, hdispatched, State.inHand, hthread, State.line, State.inHand]

/-- `start` or `stop` is called. -/
theorem Inv.called (h : Inv c a) {pc : ControlPc} (hidle : c.control = .idle)
    (hpc : pc = .startTest ∨ pc = .stopTest c.returned) : Inv { c with control := pc } a := by
  have hat := h.control.control
  rw [hidle] at hat
  refine h.same_thread rfl rfl rfl rfl rfl ⟨fun hstopping hthread => ?_,
    fun loop hthread hdrain => ?_, ?_, h.control.stopped⟩
  · simpa [hidle] using h.control.stopping hstopping hthread
  · simpa [hidle] using h.control.draining loop hthread hdrain
  · rcases hpc with rfl | rfl
    · exact hat
    · exact ⟨hat, fun _ hmem => hmem⟩

theorem Inv.control_step (h : Inv c a) (hstep : Shutdown.control c = some next) : Inv next a := by
  have hcontrol := h.control
  have hat := hcontrol.control
  unfold Shutdown.control at hstep
  cases hpc : c.control with
  | idle => simp [hpc] at hstep
  | startTest =>
      simp only [hpc, Option.some.injEq] at hstep
      rw [hpc] at hat
      subst hstep
      refine h.same_thread rfl rfl rfl rfl rfl ⟨fun hstopping hthread => ?_,
        fun pc hthread hdrain => ?_, ?_, hcontrol.stopped⟩
      · simpa [hpc] using hcontrol.stopping hstopping hthread
      · simpa [hpc] using hcontrol.draining pc hthread hdrain
      · cases hrunning : c.m_running with
        | true => simpa [ControlAt, hrunning] using hat
        | false => simpa [ControlAt, hrunning] using hat
  | startStopping =>
      simp only [hpc, Option.some.injEq] at hstep
      rw [hpc] at hat
      subst hstep
      exact h.same_thread rfl rfl rfl rfl rfl
        ⟨by simp, by simp [hat.2], ⟨rfl, hat.2⟩, hcontrol.stopped⟩
  | startRunning =>
      simp only [hpc, Option.some.injEq] at hstep
      rw [hpc] at hat
      subst hstep
      exact h.same_thread rfl rfl rfl rfl rfl
        ⟨by simp [hat.1], by simp [hat.2], ⟨rfl, hat⟩, hcontrol.stopped⟩
  | startThread =>
      simp only [hpc, Option.some.injEq] at hstep
      rw [hpc] at hat
      subst hstep
      have hidle := h.dispatcher_idle (by rw [State.mayPost, hat.2.2])
      refine h.same_posts rfl rfl rfl ?_ (fun hne => absurd hidle hne) ?_
        ⟨by simp [hat.2.1], ?_, hat.1, by simp⟩
      · simp only [State.popCall, hat.2.2]
      · simp only [State.line, State.inHand, hat.2.2]
      · rintro pc hthread hdrain
        obtain rfl := Option.some.inj hthread
        cases hdrain
  | stopTest before =>
      simp only [hpc, Option.some.injEq] at hstep
      rw [hpc] at hat
      subst hstep
      refine h.same_thread rfl rfl rfl rfl rfl ⟨fun hstopping hthread => ?_,
        fun pc hthread hdrain => ?_, ?_, hcontrol.stopped⟩
      · simpa [hpc] using hcontrol.stopping hstopping hthread
      · simpa [hpc] using hcontrol.draining pc hthread hdrain
      · obtain ⟨hisSome, hbefore⟩ := hat
        cases hrunning : c.m_running with
        | true =>
            rw [hrunning] at hisSome
            exact ⟨Option.isSome_iff_ne_none.mp hisSome.symm, hbefore⟩
        | false => simpa [ControlAt, hrunning] using hisSome
  | stopStopping before =>
      simp only [hpc, Option.some.injEq] at hstep
      rw [hpc] at hat
      subst hstep
      refine h.same_thread rfl rfl rfl rfl rfl ⟨fun _ _ => ⟨before, rfl⟩,
        fun _ _ _ => ⟨before, rfl⟩, ⟨hat.1, hat.2, fun hended => ?_⟩, hcontrol.stopped⟩
      -- the second loop begins after `m_stopping` is stored
      have hdraining : ∃ pc, c.m_dispatchThread = some pc ∧ pc.draining = true := by
        rcases hended with hfinished | ⟨hpopping, -⟩
        · exact ⟨_, hfinished, rfl⟩
        · exact ⟨_, hpopping, rfl⟩
      obtain ⟨pc, hthread, hdrain⟩ := hdraining
      simpa [hpc] using hcontrol.draining pc hthread hdrain
  | stopJoin before =>
      simp only [hpc] at hstep
      rw [hpc] at hat
      split at hstep
      · next hnone => exact absurd hnone hat.1
      · next hfinished =>
        obtain rfl := Option.some.inj hstep
        have hidle := h.dispatcher_idle (by rw [State.mayPost, hfinished])
        have hdrained := hat.2.2 (Or.inl hfinished)
        refine h.same_posts rfl rfl rfl ?_ (fun hne => absurd hidle hne) ?_
          ⟨fun _ hne => absurd rfl hne, by simp, ⟨rfl, hdrained⟩, fun other hstopped => ?_⟩
        · simp only [State.popCall, hfinished]
        · simp only [State.line, State.inHand, hfinished]
        · have hnone := (hcontrol.stopped other hstopped).1
          rw [hfinished] at hnone
          cases hnone
      · cases hstep
  | stopRunning before =>
      simp only [hpc, Option.some.injEq] at hstep
      rw [hpc] at hat
      subst hstep
      refine h.same_thread rfl rfl rfl rfl rfl
        ⟨fun _ hne => absurd hat.1 hne, by simp [hat.1], ?_, ?_⟩
      · simp [ControlAt, hat.1]
      · intro other hstopped
        obtain rfl := Option.some.inj hstopped
        exact hat

/-! ### Pops -/

section Pops

variable [DecidableEq Tid]

theorem goto_phase_poster (a : Queue Tid) (phase : AtomicQueue.Phase Nat) (t : Tid) :
    (a.goto .dispatcher phase).phase (.poster t) = a.phase (.poster t) := by
  rw [a.goto_phase_other phase (by simp)]

/-- The dispatch thread calls `try_pop`. -/
theorem Inv.pop (h : Inv c a) {drain : Bool} (hthread : c.m_dispatchThread = some (.tryPop drain)) :
    Inv { c with m_dispatchThread := some (.popping drain) }
      (a.goto .dispatcher (.called .tryPop)) := by
  have hidle := h.dispatcher_idle (by rw [State.mayPost, hthread])
  have hphase : a.phase .dispatcher = .idle := by
    have hfits := h.calls .dispatcher
    simp only [State.call, hidle, PostPc.call, State.popCall, hthread, Option.or_none] at hfits
    generalize a.phase .dispatcher = phase at hfits
    cases hfits
    rfl
  refine ⟨fun t => ?_, fun hne => absurd hidle hne, fun entry hmem t hmark => ?_, ?_, ?_⟩
  · cases t with
    | poster t =>
        rw [goto_phase_poster]
        exact h.calls (.poster t)
    | dispatcher =>
        rw [a.goto_phase_self]
        simp only [State.call, hidle, PostPc.call, State.popCall, Option.none_or]
        exact Fits.called _
  · have hmarked := h.marked entry hmem t hmark
    have hne : t ≠ .dispatcher := by
      rintro rfl
      rw [hphase] at hmarked
      cases hmarked.2
    rw [a.goto_phase_other _ hne]
    exact hmarked
  · refine h.posts.same (fun _ => rfl) (fun t => ?_) rfl rfl ?_
    · cases t with
      | poster t => rw [goto_phase_poster]
      | dispatcher => simp only [hidle, PostPc.entered]
    · rw [State.line, State.line, State.inHand, State.inHand, hthread, a.goto_phase_self]
      rfl
  · rw [a.goto_phase_self]
    exact h.control.goOn hthread Or.inl (by simp [Ended])

/-- `try_pop` has returned. -/
theorem Inv.popped (h : Inv c a) {item : Option (Option Nat)}
    (hphase : a.phase .dispatcher = .returning (.popped item))
    (hstep : Shutdown.popped c item = some next) : Inv next (a.goto .dispatcher .idle) := by
  have hunmarked := h.unmarked (t := .dispatcher) (by simp [hphase])
  have hgo : ∀ {drain : Bool} {pc : LoopPc}, c.m_dispatchThread = some (.popping drain) →
      (∀ drain, pc ≠ .popping drain) → (pc.draining = true → drain = true) →
      State.inHand { c with m_dispatchThread := some pc } .idle = got (a.phase .dispatcher) →
      (pc = .finished → drain = true ∧ a.phase .dispatcher = .returning (.popped none)) →
      Inv { c with m_dispatchThread := some pc } (a.goto .dispatcher .idle) := by
    intro drain pc hthread hpc hdraining hinHand hfinished
    have hidle := h.dispatcher_idle (by rw [State.mayPost, hthread])
    refine ⟨fun t => ?_, fun hne => absurd hidle hne, fun entry hmem t hmark => ?_, ?_, ?_⟩
    · cases t with
      | poster t =>
          rw [goto_phase_poster]
          exact h.calls (.poster t)
      | dispatcher =>
          have hnone : ({ c with m_dispatchThread := some pc } : State Tid).call .dispatcher =
              none := by
            simp only [State.call, hidle, PostPc.call, State.popCall, Option.none_or]
            split
            · next drain' heq => exact absurd (Option.some.inj heq) (hpc drain')
            · rfl
          rw [a.goto_phase_self, hnone]
          exact Fits.idle
    · obtain ⟨hne, hold⟩ := hunmarked entry hmem t hmark
      rw [a.goto_phase_other _ hne]
      exact h.marked entry hold t hmark
    · refine h.posts.same (fun _ => rfl) (fun t => ?_) rfl rfl ?_
      · cases t with
        | poster t => rw [goto_phase_poster]
        | dispatcher => simp only [hidle, PostPc.entered]
      · have hold : c.inHand (a.phase .dispatcher) = got (a.phase .dispatcher) := by
          rw [State.inHand, hthread]
        rw [State.line, State.line, a.goto_phase_self, hinHand, hold]
        rfl
    · rw [a.goto_phase_self]
      refine h.control.goOn hthread (fun hdrain => Or.inl (hdraining hdrain)) ?_
      rintro (hend | ⟨hend, -⟩) before - hdrained
      · obtain ⟨rfl, hnone⟩ := hfinished (Option.some.inj hend)
        exact hdrained (Or.inr ⟨rfl, hnone⟩)
      · exact absurd (Option.some.inj hend) (hpc true)
  unfold Shutdown.popped at hstep
  split at hstep
  · next drain msg hthread =>
    obtain rfl := Option.some.inj hstep
    exact hgo hthread (by simp) id (by rw [hphase]; rfl) (by simp)
  · next drain hthread =>
    obtain rfl := Option.some.inj hstep
    cases drain with
    | true =>
        exact hgo hthread (by simp) (fun _ => rfl) (by rw [hphase]; rfl) fun _ => ⟨rfl, hphase⟩
    | false =>
        exact hgo hthread (by simp) (by simp [LoopPc.draining]) (by rw [hphase]; rfl) (by simp)
  · cases hstep

end Pops

end MessageCenter.MessageCenterFast.Shutdown
