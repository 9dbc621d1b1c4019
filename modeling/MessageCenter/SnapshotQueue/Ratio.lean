import MessageCenter.SnapshotQueue.Priority

/-!
# `dispatchRatio`

The loop tries the fast ring while `fastCount` is below the ratio, then the bulk ring, then
the fast ring again; only a bulk message resets `fastCount`.  A call is a machine as in the
module on the drain loops, with a record of the messages that it has dispatched.

Without posts, `fastCount` is the number of messages since the last bulk one as long as both
rings have messages.  With posts, what is left of the ratio bounds the fast messages that
come before the next bulk one.
-/

namespace MessageCenter.SnapshotQueue.Ratio

open Concurrency MPMCQueue ObjectPoolLockFree PooledQueue Priority

variable {f b : Nat}

/-! ### The loop -/

/-- At the head of the loop, before `dispatchBulk`, before the second `dispatchFast`, or back
at the caller. -/
inductive Loop where
  | head
  | bulk
  | fastAgain
  | returned
deriving DecidableEq, Repr

/-- A call in progress; `fastCount` and `count` are its local variables, `dispatched` lists
the messages that it has taken. -/
structure Serving (f b : Nat) where
  loop : Loop
  fastCount : Nat
  count : Nat
  state : State (eventQueueEmulator f b)
  dispatched : List (EmuLane × Addr)

/-- The message that the next `try_pop` takes. -/
def oldest {sys : System} (s : State sys) (lane : sys.Lane) : Option Addr :=
  ((s.queue lane).pop (2 ^ sys.exponent lane)).bind Prod.snd

/-- `fastCount` after a message: `++fastCount` or `fastCount = 0` -/
def countFast (fastCount : Nat) : EmuLane → Nat
  | .fast => (fastCount + 1) % 2 ^ 64
  | .bulk => 0

/-- `if (dispatchFast()) { ...; continue; }`, and the same with `dispatchBulk` -/
def attempt (behaviour : Behaviour (eventQueueEmulator f b)) (lane : EmuLane) (otherwise : Loop)
    (c : Serving f b) : Option (Serving f b) :=
  (dispatchOne behaviour lane c.state).map fun (next, found) =>
    if found then
      ⟨.head, countFast c.fastCount lane, countUp c.count true, next,
        c.dispatched ++ (oldest c.state lane).toList.map (lane, ·)⟩
    else { c with loop := otherwise, state := next }

/-- `dispatchRatio(fastPerBulk)`, called in the state `s` -/
def dispatchRatio (fastPerBulk : UInt64) (behaviour : Behaviour (eventQueueEmulator f b))
    (s : State (eventQueueEmulator f b)) : Machine (Serving f b) Unit where
  init := ⟨.head, 0, 0, s, []⟩
  step c _ :=
    match c.loop with
    | .head =>
        if c.fastCount < fastPerBulk.toNat then attempt behaviour .fast .bulk c
        else some { c with loop := .bulk }
    | .bulk => attempt behaviour .bulk .fastAgain c
    | .fastAgain => attempt behaviour .fast .returned c
    | .returned => none

/-! ### The guarantee -/

/-- The messages of one ring among those that were dispatched. -/
def taken (lane : EmuLane) (dispatched : List (EmuLane × Addr)) : List Addr :=
  (dispatched.filter (·.1 = lane)).map Prod.snd

/-- As long as no ring has run out, there is a bulk message after every `ratio` fast ones. -/
def Alternates (ratio : Nat) (ringed : EmuLane → List Addr)
    (dispatched : List (EmuLane × Addr)) : Prop :=
  ∀ i entry, dispatched[i]? = some entry →
    (∀ lane, (taken lane (dispatched.take i)).length < (ringed lane).length) →
    (entry.1 = .bulk ↔ i % (ratio + 1) = ratio)

/-- Who is called for a message, with which topic and size. -/
def deliveries {sys : System} (s : State sys) (lane : sys.Lane) (msg : Addr) :
    List (Observer × Nat × Nat) :=
  (List.range ((sys.format lane).observerCount (s.object lane msg))).map fun i =>
    ((sys.format lane).observer (s.object lane msg) i, (sys.format lane).topicId (s.object lane msg),
      (sys.format lane).payloadSize (s.object lane msg))

def delivery (event : CallEvent) : Observer × Nat × Nat :=
  (event.observer, event.topicId, event.size)

/-- A call that found `ringed` in the rings of `s` has dispatched each message once, in the
order of its ring and alternating between the rings, and has counted them. -/
structure Drained (ratio : Nat) (s : State (eventQueueEmulator f b))
    (ringed : EmuLane → List Addr) (last : Serving f b) : Prop where
  empty : ∀ lane : EmuLane, RingEmpty last.state lane
  count : last.count = (ringed .fast).length + (ringed .bulk).length
  once : ∀ lane, taken lane last.dispatched = ringed lane
  alternates : Alternates ratio ringed last.dispatched
  called : last.state.trace.map delivery = s.trace.map delivery ++
    last.dispatched.flatMap fun entry => deliveries s entry.1 entry.2

/-- From a moment at which the bulk ring has a message on, at most `ratio` fast messages
come before the next bulk one, which is taken within `ratio + 2` turns. -/
def ServesBulk (ratio : Nat) (call : Machine (Serving f b) Unit) : Prop :=
  ∀ c later turns, call.Reachable c → ¬ RingEmpty c.state EmuLane.bulk →
    call.run c turns = some later →
    (∀ entry ∈ later.dispatched.drop c.dispatched.length, entry.1 = EmuLane.fast) →
    (later.dispatched.drop c.dispatched.length).length ≤ ratio ∧ turns.length ≤ ratio + 1

def ReturnsEmpty (call : Machine (Serving f b) Unit) : Prop :=
  ∀ c, call.Reachable c → c.loop = .returned → ∀ lane : EmuLane, RingEmpty c.state lane

/-! ### Callbacks that do not post -/

section Silent

variable {sys : System} {behaviour : Behaviour sys}

theorem callObserver_silent (hsilent : ∀ trace, behaviour trace = []) (s : State sys)
    (lane : sys.Lane) (msg : Addr) (i : Nat) :
    ∃ next, callObserver behaviour lane msg i s = some next ∧ next.queue = s.queue ∧
      next.memory = s.memory ∧ next.trace.map delivery = s.trace.map delivery ++
        [((sys.format lane).observer (s.object lane msg) i,
          (sys.format lane).topicId (s.object lane msg),
          (sys.format lane).payloadSize (s.object lane msg))] := by
  simp only [callObserver, hsilent, posts, Option.map_some, Option.some.injEq, exists_eq_left']
  split
  · exact ⟨rfl, rfl, by simp [delivery]⟩
  · exact ⟨rfl, rfl, by simp [delivery]⟩

theorem callObservers_silent (hsilent : ∀ trace, behaviour trace = []) (s : State sys)
    (lane : sys.Lane) (msg : Addr) (remaining i : Nat) :
    ∃ next, callObservers behaviour lane msg remaining i s = some next ∧
      next.queue = s.queue ∧ next.memory = s.memory ∧
      next.trace.map delivery = s.trace.map delivery ++ (List.range' i remaining).map fun j =>
        ((sys.format lane).observer (s.object lane msg) j,
          (sys.format lane).topicId (s.object lane msg),
          (sys.format lane).payloadSize (s.object lane msg)) := by
  induction remaining generalizing s i with
  | zero => exact ⟨s, rfl, rfl, rfl, by simp⟩
  | succ remaining ih =>
      obtain ⟨middle, hfirst, hqueue, hmemory, htrace⟩ :=
        callObserver_silent hsilent s lane msg i
      obtain ⟨next, hrest, hqueue', hmemory', htrace'⟩ := ih middle (i + 1)
      refine ⟨next, ?_, hqueue'.trans hqueue, hmemory'.trans hmemory, ?_⟩
      · rw [callObservers, hfirst]
        exact hrest
      · have hobject : middle.object lane msg = s.object lane msg := by
          rw [State.object, hmemory, State.object]
        rw [htrace', htrace, hobject, List.range'_succ, List.map_cons, List.append_assoc,
          List.singleton_append]

/-- A dispatch takes the oldest message, calls its observers and changes no message. -/
theorem dispatchOne_silent (hsilent : ∀ trace, behaviour trace = []) {s : State sys}
    {lane : sys.Lane} {queued : sys.Lane → List Addr} (hholds : Holds s queued)
    (hlane : sys.exponent lane < 64) :
    (queued lane = [] ∧ oldest s lane = none ∧ dispatchOne behaviour lane s = some (s, false)) ∨
    ∃ msg rest next, queued lane = msg :: rest ∧ oldest s lane = some msg ∧
      dispatchOne behaviour lane s = some (next, true) ∧
      Holds next (Function.update queued lane rest) ∧ next.memory = s.memory ∧
      next.trace.map delivery = s.trace.map delivery ++ deliveries s lane msg := by
  rcases hholds.pop hlane with ⟨hnil, hpop⟩ | ⟨msg, rest, queue, hcons, hpop, htaken⟩
  · exact .inl ⟨hnil, by simp [oldest, hpop], by simp [dispatchOne, hpop, State.setQueue]⟩
  · obtain ⟨called, hcalls, hqueue, hmemory, htrace⟩ := callObservers_silent hsilent
      (s.setQueue lane queue) lane msg ((sys.format lane).observerCount (s.object lane msg)) 0
    refine .inr ⟨msg, rest,
      called.setQueue lane ((called.queue lane).release (sys.maxSize lane) msg), hcons,
      by simp [oldest, hpop], ?_, ?_, hmemory, ?_⟩
    · rw [dispatchOne, hpop]
      exact congrArg (Option.map fun s : State sys =>
        (s.setQueue lane ((s.queue lane).release (sys.maxSize lane) msg), true)) hcalls
    · have hcalled : Holds called (Function.update queued lane rest) := by
        intro other
        rw [hqueue]
        exact htaken other
      exact hcalled.release lane msg
    · rw [deliveries, List.range_eq_range']
      exact htrace

end Silent

/-! ### Without posts -/

theorem taken_append (lane : EmuLane) (dispatched more : List (EmuLane × Addr)) :
    taken lane (dispatched ++ more) = taken lane dispatched ++ taken lane more := by
  simp [taken]

theorem length_eq_taken (dispatched : List (EmuLane × Addr)) :
    dispatched.length = (taken .fast dispatched).length + (taken .bulk dispatched).length := by
  induction dispatched with
  | nil => rfl
  | cons entry rest ih =>
      obtain ⟨lane, msg⟩ := entry
      cases lane <;> simp [taken] at ih ⊢ <;> omega

/-- Two consecutive lengths in a round of `ratio + 1`. -/
theorem next_in_round {ratio n : Nat} (hlt : n % (ratio + 1) < ratio) :
    (n + 1) % (ratio + 1) = n % (ratio + 1) + 1 := by
  rw [← Nat.mod_add_mod, Nat.mod_eq_of_lt (by omega)]

theorem round_ends {ratio n : Nat} (hlast : n % (ratio + 1) = ratio) :
    (n + 1) % (ratio + 1) = 0 := by
  rw [← Nat.mod_add_mod, hlast, Nat.mod_self]

variable {ringed rest : EmuLane → List Addr} {s : State (eventQueueEmulator f b)}
  {c next later : Serving f b} {behaviour : Behaviour (eventQueueEmulator f b)} {ratio : Nat}

/-- A call without posts, with `rest` still in the rings. -/
structure Progress (ratio : Nat) (s : State (eventQueueEmulator f b))
    (ringed rest : EmuLane → List Addr) (c : Serving f b) : Prop where
  holds : Holds c.state rest
  split : ∀ lane, ringed lane = taken lane c.dispatched ++ rest lane
  count : c.count = c.dispatched.length
  alternates : Alternates ratio ringed c.dispatched
  since : (∀ lane, rest lane ≠ []) → c.fastCount ≤ ratio ∧
    c.dispatched.length % (ratio + 1) = c.fastCount ∧ (c.loop = .bulk → c.fastCount = ratio)
  noBulk : c.loop = .fastAgain ∨ c.loop = .returned → rest .bulk = []
  noFast : c.loop = .returned → rest .fast = []
  memory : c.state.memory = s.memory
  called : c.state.trace.map delivery = s.trace.map delivery ++
    c.dispatched.flatMap fun entry => deliveries s entry.1 entry.2

theorem Progress.start (hholds : Holds s ringed) (ratio : Nat) :
    Progress ratio s ringed ringed ⟨.head, 0, 0, s, []⟩ where
  holds := hholds
  split _ := rfl
  count := rfl
  alternates := nofun
  since _ := ⟨Nat.zero_le _, Nat.zero_mod _, nofun⟩
  noBulk := by simp
  noFast := nofun
  memory := rfl
  called := by simp

/-- The loop goes on to `loop` without a message. -/
theorem Progress.goto (h : Progress ratio s ringed rest c) {loop : Loop}
    (hsince : loop = .bulk → (∀ lane, rest lane ≠ []) → c.fastCount = ratio)
    (hbulk : loop = .fastAgain ∨ loop = .returned → rest .bulk = [])
    (hfast : loop = .returned → rest .fast = []) :
    Progress ratio s ringed rest { c with loop := loop } where
  holds := h.holds
  split := h.split
  count := h.count
  alternates := h.alternates
  since hrest := ⟨(h.since hrest).1, (h.since hrest).2.1, fun hloop => hsince hloop hrest⟩
  noBulk := hbulk
  noFast := hfast
  memory := h.memory
  called := h.called

/-- As long as a ring has messages, not all of it is taken. -/
theorem Progress.taken_lt_iff (h : Progress ratio s ringed rest c) (lane : EmuLane) :
    (taken lane c.dispatched).length < (ringed lane).length ↔ rest lane ≠ [] := by
  rw [h.split lane, List.length_append, ← List.length_pos_iff]
  omega

theorem Progress.length_le (h : Progress ratio s ringed rest c) :
    c.dispatched.length + ((rest .fast).length + (rest .bulk).length) =
      (ringed .fast).length + (ringed .bulk).length := by
  rw [length_eq_taken, h.split .fast, h.split .bulk, List.length_append, List.length_append]
  omega

theorem Alternates.snoc {dispatched : List (EmuLane × Addr)} {entry : EmuLane × Addr}
    (halternates : Alternates ratio ringed dispatched)
    (hentry : (∀ lane, (taken lane dispatched).length < (ringed lane).length) →
      (entry.1 = .bulk ↔ dispatched.length % (ratio + 1) = ratio)) :
    Alternates ratio ringed (dispatched ++ [entry]) := by
  intro i other hother hleft
  rcases Nat.lt_or_ge i dispatched.length with hlt | hge
  · rw [List.getElem?_append_left hlt] at hother
    rw [List.take_append_of_le_length (Nat.le_of_lt hlt)] at hleft
    exact halternates i other hother hleft
  · have hi : i = dispatched.length := by
      obtain ⟨hbound, -⟩ := List.getElem?_eq_some_iff.mp hother
      simp only [List.length_append, List.length_singleton] at hbound
      omega
    subst hi
    rw [List.getElem?_concat_length, Option.some.injEq] at hother
    subst hother
    rw [List.take_left] at hleft
    exact hentry hleft

/-- A message is taken in its turn. -/
theorem Progress.take (h : Progress ratio s ringed rest c) (hratio : ratio < 2 ^ 64)
    (hfew : (ringed .fast).length + (ringed .bulk).length < 2 ^ 64)
    {lane : EmuLane} {msg : Addr} {tail : List Addr} (hcons : rest lane = msg :: tail)
    (hturn : (∀ lane, rest lane ≠ []) → (lane = .bulk ↔ c.fastCount = ratio))
    {after : State (eventQueueEmulator f b)} (hholds : Holds after (Function.update rest lane tail))
    (hmemory : after.memory = c.state.memory)
    (htrace : after.trace.map delivery =
      c.state.trace.map delivery ++ deliveries c.state lane msg) :
    Progress ratio s ringed (Function.update rest lane tail)
      ⟨.head, countFast c.fastCount lane, countUp c.count true, after,
        c.dispatched ++ [(lane, msg)]⟩ where
  holds := hholds
  split other := by
    rw [taken_append, h.split other]
    by_cases heq : other = lane
    · subst heq
      simp [taken, hcons]
    · simp [taken, heq, Ne.symm heq]
  count := by
    have hlength := h.length_le
    have hpos : 0 < (rest .fast).length + (rest .bulk).length := by
      cases lane <;> rw [hcons, List.length_cons] <;> omega
    rw [countUp, if_pos rfl, h.count, List.length_append, List.length_singleton,
      Nat.mod_eq_of_lt (by omega)]
  alternates := by
    apply h.alternates.snoc
    intro hleft
    have hboth : ∀ lane, rest lane ≠ [] := fun lane => (h.taken_lt_iff lane).mp (hleft lane)
    rw [(h.since hboth).2.1]
    exact hturn hboth
  since hafter := by
    have hboth : ∀ lane, rest lane ≠ [] := by
      intro other
      by_cases heq : other = lane
      · rw [heq, hcons]
        exact List.cons_ne_nil _ _
      · simpa [heq] using hafter other
    obtain ⟨hle, hround, -⟩ := h.since hboth
    rw [List.length_append, List.length_singleton]
    cases lane with
    | fast =>
        have hne : c.fastCount ≠ ratio := fun heq => nomatch (hturn hboth).mpr heq
        have hcount : countFast c.fastCount .fast = c.fastCount + 1 :=
          Nat.mod_eq_of_lt (by omega)
        have hnext : c.fastCount + 1 ≤ ratio := by omega
        refine ⟨hcount.trans_le hnext, ?_, nofun⟩
        rw [next_in_round (by omega), hround]
        exact hcount.symm
    | bulk =>
        refine ⟨Nat.zero_le _, round_ends ?_, nofun⟩
        rw [hround]
        exact (hturn hboth).mp rfl
  noBulk := by simp
  noFast := nofun
  memory := hmemory.trans h.memory
  called := by
    have hsame : deliveries c.state lane msg = deliveries s lane msg := by
      simp only [deliveries, State.object, h.memory]
    rw [htrace, h.called, hsame, List.flatMap_append, List.flatMap_singleton, List.append_assoc]

/-- What is left of the call: the messages, and the tests until the next one. -/
def Loop.rank : Loop → Nat
  | .head => 3
  | .bulk => 2
  | .fastAgain => 1
  | .returned => 0

def remaining (rest : EmuLane → List Addr) (loop : Loop) : Nat :=
  4 * ((rest .fast).length + (rest .bulk).length) + loop.rank

theorem remaining_take {lane : EmuLane} {msg : Addr} {tail : List Addr}
    (hcons : rest lane = msg :: tail) (loop : Loop) :
    remaining (Function.update rest lane tail) .head < remaining rest loop := by
  cases lane <;> simp [remaining, hcons, Loop.rank] <;> omega

/-- `dispatchFast()` or `dispatchBulk()` in its turn. -/
theorem Progress.tried (h : Progress ratio s ringed rest c) (hratio : ratio < 2 ^ 64)
    (hfew : (ringed .fast).length + (ringed .bulk).length < 2 ^ 64)
    (hsizes : ∀ lane, (eventQueueEmulator f b).exponent lane < 64)
    (hsilent : ∀ trace, behaviour trace = []) (lane : EmuLane) {otherwise : Loop}
    (hlower : otherwise.rank < c.loop.rank)
    (hturn : (∀ lane, rest lane ≠ []) → (lane = .bulk ↔ c.fastCount = ratio))
    (hotherwise : rest lane = [] →
      Progress ratio s ringed rest { c with loop := otherwise }) :
    ∃ next rest', attempt behaviour lane otherwise c = some next ∧
      remaining rest' next.loop < remaining rest c.loop ∧ Progress ratio s ringed rest' next := by
  rcases dispatchOne_silent hsilent h.holds (hsizes lane) with
    ⟨hnil, -, hdispatch⟩ | ⟨msg, tail, after, hcons, holdest, hdispatch, hholds, hmemory, htrace⟩
  · refine ⟨{ c with loop := otherwise }, rest, ?_, ?_, hotherwise hnil⟩
    · rw [Ratio.attempt, hdispatch]
      rfl
    · exact Nat.add_lt_add_left hlower _
  · refine ⟨_, Function.update rest lane tail, ?_, ?_,
      h.take hratio hfew hcons hturn hholds hmemory htrace⟩
    · rw [Ratio.attempt, hdispatch, holdest]
      rfl
    · exact remaining_take hcons _

/-- A turn of the loop. -/
theorem Progress.turn (h : Progress ratio s ringed rest c) {fastPerBulk : UInt64}
    (hratio : fastPerBulk.toNat = ratio)
    (hfew : (ringed .fast).length + (ringed .bulk).length < 2 ^ 64)
    (hsizes : ∀ lane, (eventQueueEmulator f b).exponent lane < 64)
    (hsilent : ∀ trace, behaviour trace = []) (hloop : c.loop ≠ .returned) :
    ∃ next rest', (dispatchRatio fastPerBulk behaviour s).step c () = some next ∧
      remaining rest' next.loop < remaining rest c.loop ∧ Progress ratio s ringed rest' next := by
  have hbound : ratio < 2 ^ 64 := hratio ▸ fastPerBulk.toNat_lt
  cases hc : c.loop with
  | head =>
      by_cases hlt : c.fastCount < ratio
      · have hstep : (dispatchRatio fastPerBulk behaviour s).step c () =
            attempt behaviour .fast .bulk c := by
          simp only [dispatchRatio, hc, hratio, hlt, if_true]
        rw [hstep, ← hc]
        refine h.tried hbound hfew hsizes hsilent .fast (by rw [hc]; decide) ?_ fun hnil => ?_
        · exact fun _ => ⟨nofun, fun heq => absurd heq (Nat.ne_of_lt hlt)⟩
        · exact h.goto (fun _ hboth => absurd hnil (hboth .fast)) (by simp) nofun
      · refine ⟨{ c with loop := .bulk }, rest, ?_, ?_, ?_⟩
        · simp only [dispatchRatio, hc, hratio, hlt, if_false]
        · exact Nat.add_lt_add_left (Nat.lt_succ_self 2) _
        · refine h.goto (fun _ hboth => ?_) (by simp) nofun
          exact Nat.le_antisymm (h.since hboth).1 (Nat.le_of_not_lt hlt)
  | bulk =>
      have hstep : (dispatchRatio fastPerBulk behaviour s).step c () =
          attempt behaviour .bulk .fastAgain c := by
        simp only [dispatchRatio, hc]
      rw [hstep, ← hc]
      refine h.tried hbound hfew hsizes hsilent .bulk (by rw [hc]; decide) ?_ fun hnil => ?_
      · exact fun hboth => ⟨fun _ => (h.since hboth).2.2 hc, fun _ => rfl⟩
      · exact h.goto nofun (fun _ => hnil) nofun
  | fastAgain =>
      have hbulk : rest .bulk = [] := h.noBulk (.inl hc)
      have hstep : (dispatchRatio fastPerBulk behaviour s).step c () =
          attempt behaviour .fast .returned c := by
        simp only [dispatchRatio, hc]
      rw [hstep, ← hc]
      refine h.tried hbound hfew hsizes hsilent .fast (by rw [hc]; decide) ?_ fun hnil => ?_
      · exact fun hboth => absurd hbulk (hboth .bulk)
      · exact h.goto nofun (fun _ => hbulk) (fun _ => hnil)
  | returned => exact absurd hc hloop

/-- A call without posts returns with both rings drained. -/
theorem dispatchRatio_drains (hsizes : ∀ lane, (eventQueueEmulator f b).exponent lane < 64)
    (fastPerBulk : UInt64) (hsilent : ∀ trace, behaviour trace = []) (hholds : Holds s ringed)
    (hfew : (ringed .fast).length + (ringed .bulk).length < 2 ^ 64) :
    ∃ turns last, (dispatchRatio fastPerBulk behaviour s).run
        (dispatchRatio fastPerBulk behaviour s).init turns = some last ∧
      last.loop = .returned ∧ Drained fastPerBulk.toNat s ringed last := by
  have hturns := Machine.exists_run_of_rank (dispatchRatio fastPerBulk behaviour s)
    (fun rank c => ∃ rest, rank = remaining rest c.loop ∧
      Progress fastPerBulk.toNat s ringed rest c) (fun c => c.loop = .returned) ?_
    ⟨ringed, rfl, Progress.start hholds fastPerBulk.toNat⟩
  · obtain ⟨turns, last, rank, hrun, hreturned, rest, -, h⟩ := hturns
    have hnone : ∀ lane, rest lane = [] := by
      intro lane
      cases lane with
      | fast => exact h.noFast hreturned
      | bulk => exact h.noBulk (.inr hreturned)
    refine ⟨turns, last, hrun, hreturned, ?_, ?_, ?_, h.alternates, h.called⟩
    · exact fun lane => (h.holds.ringEmpty_iff (hsizes lane)).mpr (hnone lane)
    · have hlength := h.length_le
      rw [hnone, hnone, List.length_nil] at hlength
      rw [h.count]
      omega
    · intro lane
      rw [h.split lane, hnone, List.append_nil]
  · rintro rank c ⟨rest, rfl, h⟩ hloop
    obtain ⟨next, rest', hstep, hlower, hnext⟩ := h.turn rfl hfew hsizes hsilent hloop
    exact ⟨(), next, _, hstep, hlower, rest', rfl, hnext⟩

/-! ### With posts -/

/-- The rings of a call whose callbacks post. -/
structure Emptied (rest : EmuLane → List Addr) (c : Serving f b) : Prop where
  holds : Holds c.state rest
  noBulk : c.loop = .fastAgain ∨ c.loop = .returned → rest .bulk = []
  noFast : c.loop = .returned → rest .fast = []

/-- `dispatchFast()` or `dispatchBulk()` with callbacks that post: the ring was empty, or a
message is taken and the other ring only grows. -/
theorem attempt_posting (hfit : RingsFit (eventQueueEmulator f b)) (hholds : Holds c.state rest)
    {lane : EmuLane} {otherwise : Loop} (hattempt : attempt behaviour lane otherwise c = some next) :
    (next = { c with loop := otherwise } ∧ rest lane = []) ∨
    ∃ msg rest', next.loop = .head ∧ next.fastCount = countFast c.fastCount lane ∧
      next.dispatched = c.dispatched ++ [(lane, msg)] ∧ Holds next.state rest' ∧
      ∀ other, other ≠ lane → rest other ≠ [] → rest' other ≠ [] := by
  obtain ⟨⟨after, found⟩, hdispatch, rfl⟩ := Option.map_eq_some_iff.mp hattempt
  rcases hholds.dispatchOne hfit hdispatch with
    ⟨rfl, rfl, hnil⟩ | ⟨tail, msg, rest', events, rfl, hcons, hafter, -, -, hlength⟩
  · exact .inl ⟨rfl, hnil⟩
  · have holdest : oldest c.state lane = some msg := by
      rcases hholds.pop (hfit lane).2 with ⟨hnil, -⟩ | ⟨first, _, _, hfirst, hpop, -⟩
      · rw [hnil] at hcons
        cases hcons
      · obtain ⟨rfl, -⟩ := List.cons.inj (hfirst.symm.trans hcons)
        simp [oldest, hpop]
    refine .inr ⟨msg, rest', rfl, rfl, by simp [holdest], hafter, fun other hne hother => ?_⟩
    have hsame : Function.update rest lane tail other = rest other :=
      Function.update_of_ne hne tail rest
    rw [← List.length_pos_iff] at hother ⊢
    rw [← hsame] at hother
    exact (hlength other).ge.trans_lt' (Nat.lt_add_right _ hother)

theorem Emptied.step (hfit : RingsFit (eventQueueEmulator f b)) (h : Emptied rest c)
    {fastPerBulk : UInt64} (hstep : (dispatchRatio fastPerBulk behaviour s).step c () = some next) :
    ∃ rest', Emptied rest' next := by
  -- a message takes the call back to the head of the loop
  have htried : ∀ lane otherwise, attempt behaviour lane otherwise c = some next →
      (rest lane = [] → Emptied rest { c with loop := otherwise }) →
      ∃ rest', Emptied rest' next := by
    intro lane otherwise hattempt hotherwise
    rcases attempt_posting hfit h.holds hattempt with
      ⟨rfl, hnil⟩ | ⟨msg, rest', hloop, -, -, hholds, -⟩
    · exact ⟨rest, hotherwise hnil⟩
    · exact ⟨rest', hholds, by simp [hloop], by simp [hloop]⟩
  simp only [dispatchRatio] at hstep
  split at hstep
  case h_1 hloop =>
    split at hstep
    · exact htried .fast .bulk hstep fun _ => ⟨h.holds, by simp, nofun⟩
    · obtain rfl := Option.some.inj hstep
      exact ⟨rest, h.holds, by simp, nofun⟩
  case h_2 hloop => exact htried .bulk .fastAgain hstep fun hnil => ⟨h.holds, fun _ => hnil, nofun⟩
  case h_3 hloop =>
    exact htried .fast .returned hstep fun hnil =>
      ⟨h.holds, fun _ => h.noBulk (.inl hloop), fun _ => hnil⟩
  case h_4 => cases hstep

theorem emptied_of_reachable (hfit : RingsFit (eventQueueEmulator f b)) {fastPerBulk : UInt64}
    (hholds : Holds s ringed) (hreach : (dispatchRatio fastPerBulk behaviour s).Reachable c) :
    ∃ rest, Emptied rest c := by
  refine hreach.invariant (fun c => ∃ rest, Emptied rest c) ⟨ringed, hholds, ?_, ?_⟩ ?_
  · simp [dispatchRatio]
  · simp [dispatchRatio]
  · rintro c next ⟨⟩ ⟨rest, h⟩ hstep
    exact h.step hfit hstep

/-- What the ratio leaves for the fast ring before it is the turn of the bulk ring. -/
def quota (ratio : Nat) (c : Serving f b) : Nat :=
  if c.loop = .head then ratio - c.fastCount else 0

/-- With a bulk message queued a turn dispatches it, or uses up some of the quota, or goes on
to `dispatchBulk()`. -/
theorem turn_with_bulk (hfit : RingsFit (eventQueueEmulator f b)) {fastPerBulk : UInt64}
    (hratio : fastPerBulk.toNat = ratio) (h : Emptied rest c) (hbulk : rest .bulk ≠ [])
    (hstep : (dispatchRatio fastPerBulk behaviour s).step c () = some next) :
    (∃ msg, next.dispatched = c.dispatched ++ [(.bulk, msg)]) ∨
    (∃ msg rest', next.dispatched = c.dispatched ++ [(.fast, msg)] ∧ Emptied rest' next ∧
      rest' .bulk ≠ [] ∧ next.loop = .head ∧ c.loop = .head ∧ quota ratio next + 1 = quota ratio c) ∨
    (next = { c with loop := .bulk } ∧ c.loop = .head) := by
  have hbound : ratio < 2 ^ 64 := hratio ▸ fastPerBulk.toNat_lt
  simp only [dispatchRatio, hratio] at hstep
  split at hstep
  case h_1 hloop =>
    split at hstep
    case isTrue hlt =>
      rcases attempt_posting hfit h.holds hstep with
        ⟨rfl, hnil⟩ | ⟨msg, rest', hhead, hcount, hlog, hholds, hkept⟩
      · exact .inr (.inr ⟨rfl, hloop⟩)
      · refine .inr (.inl ⟨msg, rest', hlog, ⟨hholds, by simp [hhead], by simp [hhead]⟩,
          hkept .bulk nofun hbulk, hhead, hloop, ?_⟩)
        have hnext : countFast c.fastCount .fast = c.fastCount + 1 := Nat.mod_eq_of_lt (by omega)
        rw [quota, quota, if_pos hhead, if_pos hloop, hcount, hnext]
        omega
    case isFalse =>
      obtain rfl := Option.some.inj hstep
      exact .inr (.inr ⟨rfl, hloop⟩)
  case h_2 hloop =>
    rcases attempt_posting hfit h.holds hstep with ⟨-, hnil⟩ | ⟨msg, rest', -, -, hlog, -, -⟩
    · exact absurd hnil hbulk
    · exact .inl ⟨msg, hlog⟩
  case h_3 hloop => exact absurd (h.noBulk (.inl hloop)) hbulk
  case h_4 => cases hstep

theorem dispatched_grows {fastPerBulk : UInt64} {turns : List Unit}
    (hrun : (dispatchRatio fastPerBulk behaviour s).run c turns = some later) :
    ∃ more, later.dispatched = c.dispatched ++ more := by
  refine Machine.run_keeps (P := fun later => ∃ more, later.dispatched = c.dispatched ++ more)
    ?_ ⟨[], (List.append_nil _).symm⟩ hrun
  rintro c' next ⟨⟩ ⟨more, hmore⟩ hstep
  have htried : ∀ lane otherwise, attempt behaviour lane otherwise c' = some next →
      ∃ more, next.dispatched = c.dispatched ++ more := by
    intro lane otherwise hattempt
    obtain ⟨⟨after, found⟩, -, rfl⟩ := Option.map_eq_some_iff.mp hattempt
    cases found with
    | false => exact ⟨more, hmore⟩
    | true => exact ⟨more ++ _, by simp only [if_true, hmore, List.append_assoc]; rfl⟩
  simp only [dispatchRatio] at hstep
  split at hstep
  · split at hstep
    · exact htried _ _ hstep
    · obtain rfl := Option.some.inj hstep
      exact ⟨more, hmore⟩
  · exact htried _ _ hstep
  · exact htried _ _ hstep
  · cases hstep

/-- The bound from any state of the call. -/
theorem Emptied.servesBulk (hfit : RingsFit (eventQueueEmulator f b)) {fastPerBulk : UInt64}
    (hratio : fastPerBulk.toNat = ratio) {turns : List Unit} (h : Emptied rest c)
    (hbulk : rest .bulk ≠ []) (hrun : (dispatchRatio fastPerBulk behaviour s).run c turns = some later)
    (hfast : ∀ entry ∈ later.dispatched.drop c.dispatched.length, entry.1 = EmuLane.fast) :
    (later.dispatched.drop c.dispatched.length).length ≤ quota ratio c ∧
      turns.length ≤ quota ratio c + if c.loop = .head then 1 else 0 := by
  induction turns generalizing c rest with
  | nil =>
      obtain rfl := Option.some.inj hrun
      simp
  | cons turn turns ih =>
      obtain ⟨next, hstep, hrest⟩ := Option.bind_eq_some_iff.mp hrun
      obtain ⟨more, hmore⟩ := dispatched_grows hrest
      rcases turn_with_bulk hfit hratio h hbulk hstep with
        ⟨msg, hlog⟩ | ⟨msg, rest', hlog, hnext, hkept, hhead, hbefore, hquota⟩ | ⟨rfl, hbefore⟩
      · -- a bulk message was dispatched
        rw [hlog, List.append_assoc] at hmore
        rw [hmore, List.drop_left] at hfast
        cases hfast _ (List.mem_cons_self ..)
      · rw [hlog, List.append_assoc] at hmore
        have hlater : later.dispatched.drop next.dispatched.length = more := by
          rw [hmore, hlog, ← List.append_assoc, List.drop_left]
        rw [hmore, List.drop_left] at hfast
        have hih := ih hnext hkept hrest
          (hlater ▸ fun entry hmem => hfast entry (List.mem_append_right _ hmem))
        rw [hlater, if_pos hhead] at hih
        rw [hmore, List.drop_left, if_pos hbefore, List.length_append, List.length_singleton,
          List.length_cons]
        omega
      · have hih := ih (c := { c with loop := .bulk }) ⟨h.holds, by simp, nofun⟩ hbulk hrest hfast
        have hzero : quota ratio { c with loop := Loop.bulk } = 0 := rfl
        rw [hzero] at hih
        simp only [if_pos hbefore, List.length_cons]
        simp only [reduceCtorEq, if_false] at hih
        omega

theorem servesBulk (hfit : RingsFit (eventQueueEmulator f b)) (fastPerBulk : UInt64)
    (hholds : Holds s ringed) :
    ServesBulk fastPerBulk.toNat (dispatchRatio fastPerBulk behaviour s) := by
  intro c later turns hreach hbulk hrun hfast
  obtain ⟨rest, h⟩ := emptied_of_reachable hfit hholds hreach
  have hqueued : rest .bulk ≠ [] := fun hnil =>
    hbulk ((h.holds.ringEmpty_iff (hfit EmuLane.bulk).2).mpr hnil)
  obtain ⟨hfew, hsoon⟩ := h.servesBulk hfit rfl hqueued hrun hfast
  have hquota : quota fastPerBulk.toNat c ≤ fastPerBulk.toNat := by
    unfold quota
    split <;> omega
  refine ⟨hfew.trans hquota, ?_⟩
  split at hsoon <;> omega

theorem returnsEmpty (hfit : RingsFit (eventQueueEmulator f b)) (fastPerBulk : UInt64)
    (hholds : Holds s ringed) : ReturnsEmpty (dispatchRatio fastPerBulk behaviour s) := by
  intro c hreach hreturned lane
  obtain ⟨rest, h⟩ := emptied_of_reachable hfit hholds hreach
  apply (h.holds.ringEmpty_iff (hfit lane).2).mpr
  cases lane with
  | fast => exact h.noFast hreturned
  | bulk => exact h.noBulk (.inr hreturned)

/-- **`dispatchRatio` is fair.**  Whatever the rings hold, a call without posts drains them in
the pattern of the ratio; whatever the callbacks post, the fast ring cannot keep a bulk
message waiting for more than `fastPerBulk` others.  A ring of a single slot overwrites its
message when something is posted to it, so with posts the rings have two slots or more. -/
theorem dispatchRatio_fair (hf : f < 63) (hb : b < 63) (fastPerBulk : UInt64)
    (behaviour : Behaviour (eventQueueEmulator f b)) (s : State (eventQueueEmulator f b))
    (ringed : EmuLane → List Addr) (hrings : Holds s ringed) :
    ((∀ trace, behaviour trace = []) →
      ∃ turns last, (dispatchRatio fastPerBulk behaviour s).run
          (dispatchRatio fastPerBulk behaviour s).init turns = some last ∧
        last.loop = .returned ∧ Drained fastPerBulk.toNat s ringed last) ∧
    (1 ≤ f → 1 ≤ b → ServesBulk fastPerBulk.toNat (dispatchRatio fastPerBulk behaviour s) ∧
      ReturnsEmpty (dispatchRatio fastPerBulk behaviour s)) := by
  have hf64 : f < 64 := hf.trans (by decide)
  have hb64 : b < 64 := hb.trans (by decide)
  constructor
  · intro hsilent
    have hsizes : ∀ lane, (eventQueueEmulator f b).exponent lane < 64 := by
      intro lane
      cases lane with
      | fast => exact hf64
      | bulk => exact hb64
    apply dispatchRatio_drains hsizes fastPerBulk hsilent hrings
    -- each ring has at most 2 ^ 62 slots
    obtain ⟨_, hfast⟩ := hrings .fast
    obtain ⟨_, hbulk⟩ := hrings .bulk
    have hfastLe : (ringed .fast).length ≤ 2 ^ 62 :=
      hfast.bound.trans (Nat.pow_le_pow_right (by decide) (Nat.le_of_lt_succ hf))
    have hbulkLe : (ringed .bulk).length ≤ 2 ^ 62 :=
      hbulk.bound.trans (Nat.pow_le_pow_right (by decide) (Nat.le_of_lt_succ hb))
    calc (ringed .fast).length + (ringed .bulk).length ≤ 2 ^ 62 + 2 ^ 62 :=
          Nat.add_le_add hfastLe hbulkLe
      _ < 2 ^ 64 := by decide
  · intro hf1 hb1
    have hfit := ringsFit_eventQueueEmulator ⟨hf1, hf64⟩ ⟨hb1, hb64⟩
    exact ⟨servesBulk hfit fastPerBulk hrings, returnsEmpty hfit fastPerBulk hrings⟩

/-- Two messages in each ring. -/
def twoEach : State (eventQueueEmulator 1 1) :=
  (run (fun _ => []) (init (eventQueueEmulator 1 1))
    [.addObserver 0 ⟨1, 7⟩, .post ⟨EmuLane.fast, 0, some [3], 1⟩,
      .post ⟨EmuLane.fast, 0, some [4], 1⟩, .post ⟨EmuLane.bulk, 0, some [5], 1⟩,
      .post ⟨EmuLane.bulk, 0, some [6], 1⟩]).getD (init _)

/-- One fast message for each bulk one. -/
example : (((dispatchRatio 1 (fun _ => []) twoEach).run (dispatchRatio 1 (fun _ => []) twoEach).init
    (List.replicate 9 ())).map fun last => (last.loop, last.count, last.dispatched.map Prod.fst)) =
      some (.returned, 4, [.fast, .bulk, .fast, .bulk]) := by
  decide +kernel

theorem holds_twoEach : ∃ ringed, Holds twoEach ringed :=
  exists_holds_run (ringsFit_eventQueueEmulator (by decide) (by decide)) (fun _ => []) _

theorem dispatchRatio_fair_twoEach : ∃ ringed, Holds twoEach ringed ∧
    (∃ turns last, (dispatchRatio 1 (fun _ => []) twoEach).run
        (dispatchRatio 1 (fun _ => []) twoEach).init turns = some last ∧
      last.loop = .returned ∧ Drained 1 twoEach ringed last) ∧
    ServesBulk 1 (dispatchRatio 1 postsFastOnce twoEach) ∧
    ReturnsEmpty (dispatchRatio 1 postsFastOnce twoEach) := by
  obtain ⟨ringed, hrings⟩ := holds_twoEach
  exact ⟨ringed, hrings,
    (dispatchRatio_fair (by decide) (by decide) 1 (fun _ => []) twoEach ringed hrings).1
      fun _ => rfl,
    (dispatchRatio_fair (by decide) (by decide) 1 postsFastOnce twoEach ringed hrings).2
      (by decide) (by decide)⟩

end MessageCenter.SnapshotQueue.Ratio
