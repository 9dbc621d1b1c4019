import MessageCenter.MessageCenterFast.Pending
import Mathlib.Algebra.Group.Nat.Defs

/-!
# Names and ids in `MessageCenterFast`

A sequence of calls that register and resolve topics, add observers and post, with
the dispatch thread taking messages and calling observers in between.  The ids come
from a 16-bit counter that is advanced before the table is found full, so after
`2 ^ 16` registrations of new names, failed ones included, the ids start over and
are given to other names.

`addedUnder`, `postedUnder` and `attempts` are history.  What is in a message is
left to the module on payload blocks.
-/

namespace MessageCenter.MessageCenterFast.Topics

open Concurrency

def MC_FAST_QUEUE_SIZE : Nat := 65536

def UINT16_MAX : Nat := 65535

/-! ### The registry -/

structure Registry where
  m_topicNames : Nat → String
  m_topicMap : String → Option Nat
  m_nextTopicId : Nat

/-- `m_nextTopicId.fetch_add(1)` on a `uint16_t` -/
def fetchAdd (id : Nat) : Nat := (id + 1) % 2 ^ 16

def Registry.registerTopic (r : Registry) (name : String) : Registry × Nat :=
  match r.m_topicMap name with
  | some id => (r, id)
  | none =>
      let id := r.m_nextTopicId
      let r := { r with m_nextTopicId := fetchAdd id }
      if id ≥ MC_FAST_MAX_TOPICS then (r, UINT16_MAX)
      else
        ({ r with
          m_topicNames := Function.update r.m_topicNames id name
          m_topicMap := Function.update r.m_topicMap name (some id) }, id)

def Registry.resolveTopic (r : Registry) (name : String) : Nat :=
  (r.m_topicMap name).getD UINT16_MAX

/-! ### The calls -/

/-- `ObserverEntryFast`; a `std::function` may be empty. -/
structure ObserverEntry where
  callback : Option Nat
  userData : Option Nat
  addedUnder : Option String
deriving DecidableEq, Repr

structure Message where
  topicId : Nat
  postedUnder : Option String
deriving DecidableEq, Repr

/-- `dispatching` is the message of a `dispatch` in progress, with the entries of
its loop that are still to come. -/
structure State where
  registry : Registry
  m_observers : Nat → List ObserverEntry
  m_queue : List Message
  dispatching : Option (Message × List ObserverEntry)
  attempts : Nat

def init : State where
  registry := ⟨fun _ => "", fun _ => none, 0⟩
  m_observers := fun _ => []
  m_queue := []
  dispatching := none
  attempts := 0

/-- `registerTopic`; `attempts` counts the names that were not known. -/
def registerTopic (s : State) (name : String) : State × Nat :=
  let (registry, id) := s.registry.registerTopic name
  let attempts := if s.registry.m_topicMap name = none then s.attempts + 1 else s.attempts
  ({ s with registry := registry, attempts := attempts }, id)

def addEntry (s : State) (topicId : Nat) (entry : ObserverEntry) : State :=
  if topicId ≥ MC_FAST_MAX_TOPICS then s
  else
    { s with
      m_observers := Function.update s.m_observers topicId (s.m_observers topicId ++ [entry]) }

/-- `addObserver` by name -/
def addObserver (s : State) (topic : String) (callback userData : Option Nat) : State :=
  let (s, id) := registerTopic s topic
  if id ≠ UINT16_MAX then addEntry s id ⟨callback, userData, some topic⟩ else s

/-- `post` by id: whether the message was queued -/
def postId (s : State) (topicId : Nat) (postedUnder : Option String) : State × Bool :=
  if topicId ≥ MC_FAST_MAX_TOPICS then (s, false)
  else if s.m_queue.length < MC_FAST_QUEUE_SIZE then
    ({ s with m_queue := s.m_queue ++ [⟨topicId, postedUnder⟩] }, true)
  else (s, false)

/-- `post` by name -/
def post (s : State) (topic : String) : State × Bool :=
  let id := s.registry.resolveTopic topic
  let (s, id) := if id = UINT16_MAX then registerTopic s topic else (s, id)
  postId s id (some topic)

inductive Action where
  | registerTopic (name : String)
  | resolveTopic (name : String)
  | addObserver (topic : String) (callback userData : Option Nat)
  | addObserverId (topicId : Nat) (callback userData : Option Nat)
  | post (topic : String)
  | postId (topicId : Nat)
  /-- the dispatch thread takes a message and enters `dispatch` -/
  | take
  /-- the next turn of the loop of `dispatch` -/
  | callNext
deriving DecidableEq, Repr

/-- `dispatch` holds `m_observerMutex`, so nobody adds an observer before it returns. -/
def step (s : State) : Action → Option State
  | .registerTopic name => some (registerTopic s name).1
  | .resolveTopic _ => some s
  | .addObserver topic callback userData =>
      if s.dispatching = none then some (addObserver s topic callback userData) else none
  | .addObserverId topicId callback userData =>
      if s.dispatching = none then some (addEntry s topicId ⟨callback, userData, none⟩) else none
  | .post topic => some (post s topic).1
  | .postId topicId => some (postId s topicId none).1
  | .take =>
      match s.dispatching, s.m_queue with
      | none, message :: rest =>
          let entries :=
            if message.topicId ≥ MC_FAST_MAX_TOPICS then [] else s.m_observers message.topicId
          some { s with m_queue := rest, dispatching := some (message, entries) }
      | _, _ => none
  | .callNext =>
      match s.dispatching with
      | some (message, _ :: rest) => some { s with dispatching := some (message, rest) }
      | some (_, []) => some { s with dispatching := none }
      | none => none

def machine : Machine State Action := ⟨init, step⟩

/-! ### What a registration does -/

/-- The three outcomes of `registerTopic`. -/
inductive Registration (r : Registry) (name : String) : Registry → Nat → Prop
  | known (id : Nat) (hknown : r.m_topicMap name = some id) : Registration r name r id
  | failed (hnew : r.m_topicMap name = none) (hfull : r.m_nextTopicId ≥ MC_FAST_MAX_TOPICS) :
      Registration r name { r with m_nextTopicId := fetchAdd r.m_nextTopicId } UINT16_MAX
  | new (hnew : r.m_topicMap name = none) (hroom : r.m_nextTopicId < MC_FAST_MAX_TOPICS) :
      Registration r name
        ⟨Function.update r.m_topicNames r.m_nextTopicId name,
          Function.update r.m_topicMap name (some r.m_nextTopicId), fetchAdd r.m_nextTopicId⟩
        r.m_nextTopicId

theorem Registry.registration (r : Registry) (name : String) :
    Registration r name (r.registerTopic name).1 (r.registerTopic name).2 := by
  rw [Registry.registerTopic]
  cases hmap : r.m_topicMap name with
  | some id => exact .known id hmap
  | none =>
      by_cases hfull : r.m_nextTopicId ≥ MC_FAST_MAX_TOPICS
      · simpa only [hfull, if_true] using .failed hmap hfull
      · simpa only [hfull, if_false] using .new hmap (Nat.lt_of_not_le hfull)

/-- A name keeps its id. -/
theorem Registry.resolve_registerTopic {r : Registry} {name other : String} {id : Nat}
    (hmap : r.m_topicMap other = some id) :
    (r.registerTopic name).1.m_topicMap other = some id := by
  have houtcome := r.registration name
  generalize (r.registerTopic name).1 = after, (r.registerTopic name).2 = given at houtcome ⊢
  cases houtcome with
  | known _ _ => exact hmap
  | failed _ _ => exact hmap
  | new hnew _ =>
      have hne : other ≠ name := by
        rintro rfl
        rw [hnew] at hmap
        cases hmap
      simpa [hne] using hmap

/-- What a registration returns is the id of the name, or `UINT16_MAX`. -/
theorem Registry.registerTopic_resolves (r : Registry) (name : String) :
    (r.registerTopic name).2 = UINT16_MAX ∨
      (r.registerTopic name).1.m_topicMap name = some (r.registerTopic name).2 := by
  have houtcome := r.registration name
  generalize (r.registerTopic name).1 = after, (r.registerTopic name).2 = given at houtcome ⊢
  cases houtcome with
  | known _ hknown => exact .inr hknown
  | failed _ _ => exact .inl rfl
  | new _ _ => exact .inr (by simp)

/-! ### What holds in every run -/

/-- Observers and messages are under the ids of their names. -/
structure Labels (s : State) : Prop where
  observers : ∀ id, ∀ entry ∈ s.m_observers id, ∀ name, entry.addedUnder = some name →
    s.registry.m_topicMap name = some id
  queued : ∀ message ∈ s.m_queue, ∀ name, message.postedUnder = some name →
    s.registry.m_topicMap name = some message.topicId
  current : ∀ message entries, s.dispatching = some (message, entries) →
    (∀ name, message.postedUnder = some name →
      s.registry.m_topicMap name = some message.topicId) ∧
    ∀ entry ∈ entries, ∀ name, entry.addedUnder = some name →
      s.registry.m_topicMap name = some message.topicId

/-- Where the counter stands, and what the ids are before and after it wraps. -/
structure Counting (r : Registry) (attempts : Nat) : Prop where
  counter : r.m_nextTopicId = attempts % 2 ^ 16
  below : ∀ name id, r.m_topicMap name = some id → id < MC_FAST_MAX_TOPICS
  first : 1 ≤ attempts → ∃ name, r.m_topicMap name = some 0
  unwrapped : attempts ≤ 2 ^ 16 → ∀ name id, r.m_topicMap name = some id →
    id < attempts ∧ r.m_topicNames id = name
  wrapped : 2 ^ 16 < attempts → ∃ name other, name ≠ other ∧
    r.m_topicMap name = some 0 ∧ r.m_topicMap other = some 0

variable {s next : State} {r : Registry} {attempts : Nat}

theorem Labels.registerTopic (hlabels : Labels s) (name : String) :
    Labels (registerTopic s name).1 where
  observers id entry hmem other hunder :=
    Registry.resolve_registerTopic (hlabels.observers id entry hmem other hunder)
  queued message hmem other hunder :=
    Registry.resolve_registerTopic (hlabels.queued message hmem other hunder)
  current message entries hdispatching :=
    ⟨fun other hunder =>
      Registry.resolve_registerTopic ((hlabels.current message entries hdispatching).1 other hunder),
    fun entry hmem other hunder => Registry.resolve_registerTopic
      ((hlabels.current message entries hdispatching).2 entry hmem other hunder)⟩

theorem counting_init : Counting init.registry 0 where
  counter := rfl
  below _ _ hmap := by cases hmap
  first hpos := absurd hpos (by decide)
  unwrapped _ _ _ hmap := by cases hmap
  wrapped hlt := absurd hlt (by decide)

/-- One more registration of a new name. -/
theorem Counting.attempt (hcounting : Counting r attempts) {name : String}
    (hnew : r.m_topicMap name = none) : Counting (r.registerTopic name).1 (attempts + 1) := by
  have houtcome := r.registration name
  generalize (r.registerTopic name).1 = after, (r.registerTopic name).2 = given at houtcome ⊢
  have hcounter : fetchAdd r.m_nextTopicId = (attempts + 1) % 2 ^ 16 := by
    rw [fetchAdd, hcounting.counter]
    omega
  cases houtcome with
  | known id hknown =>
      rw [hnew] at hknown
      cases hknown
  | failed _ hfull =>
      -- a full table means that the counter has been at 0
      have hpos : 1 ≤ attempts := by
        rw [hcounting.counter, MC_FAST_MAX_TOPICS] at hfull
        omega
      refine ⟨hcounter, hcounting.below, fun _ => hcounting.first hpos, ?_, ?_⟩
      · intro hle other id hmap
        obtain ⟨hlt, hname⟩ := hcounting.unwrapped (by omega) other id hmap
        exact ⟨by omega, hname⟩
      · intro hlt
        rcases Nat.lt_or_ge (2 ^ 16) attempts with hwrapped | hge
        · exact hcounting.wrapped hwrapped
        · have heq : attempts = 2 ^ 16 := by omega
          rw [hcounting.counter, heq, MC_FAST_MAX_TOPICS] at hfull
          omega
  | new _ hroom =>
      have hself : Function.update r.m_topicMap name (some r.m_nextTopicId) name =
          some r.m_nextTopicId := Function.update_self ..
      have hother : ∀ other id, other ≠ name → (r.m_topicMap other = some id ↔
          Function.update r.m_topicMap name (some r.m_nextTopicId) other = some id) :=
        fun other id hne => by rw [Function.update_of_ne hne]
      have hne : ∀ other id, r.m_topicMap other = some id → other ≠ name := by
        rintro other id hmap rfl
        rw [hnew] at hmap
        cases hmap
      refine ⟨hcounter, ?_, ?_, ?_, ?_⟩
      · intro other id hmap
        by_cases heq : other = name
        · subst heq
          exact Option.some.inj (hself.symm.trans hmap) ▸ hroom
        · exact hcounting.below other id ((hother other id heq).mpr hmap)
      · intro _
        rcases Nat.eq_zero_or_pos attempts with hzero | hpos
        · have hid : r.m_nextTopicId = 0 := by
            rw [hcounting.counter]
            omega
          exact ⟨name, hid ▸ hself⟩
        · obtain ⟨other, hmap⟩ := hcounting.first hpos
          exact ⟨other, (hother other 0 (hne other 0 hmap)).mp hmap⟩
      · intro hle other id hmap
        have hsmall : r.m_nextTopicId = attempts := by
          rw [hcounting.counter]
          omega
        by_cases heq : other = name
        · subst heq
          obtain rfl := Option.some.inj (hself.symm.trans hmap)
          exact ⟨by omega, Function.update_self ..⟩
        · have hold := (hother other id heq).mpr hmap
          obtain ⟨hlt, hname⟩ := hcounting.unwrapped (by omega) other id hold
          have hid : id ≠ r.m_nextTopicId := by omega
          exact ⟨by omega, (Function.update_of_ne hid ..).trans hname⟩
      · intro hlt
        rcases Nat.lt_or_ge (2 ^ 16) attempts with hwrapped | hge
        · obtain ⟨first, second, hdiff, hfirst, hsecond⟩ := hcounting.wrapped hwrapped
          exact ⟨first, second, hdiff, (hother first 0 (hne first 0 hfirst)).mp hfirst,
            (hother second 0 (hne second 0 hsecond)).mp hsecond⟩
        · -- the counter has just come back to 0
          have heq : attempts = 2 ^ 16 := by omega
          have hzero : r.m_nextTopicId = 0 := by
            rw [hcounting.counter]
            omega
          obtain ⟨other, hmap⟩ := hcounting.first (by omega)
          exact ⟨other, name, hne other 0 hmap,
            (hother other 0 (hne other 0 hmap)).mp hmap, hzero ▸ hself⟩

structure Inv (s : State) : Prop where
  labels : Labels s
  counting : Counting s.registry s.attempts

theorem inv_init : Inv init where
  labels :=
    { observers := fun _ _ hmem => absurd hmem List.not_mem_nil
      queued := fun _ hmem => absurd hmem List.not_mem_nil
      current := fun _ _ hdispatching => by cases hdispatching }
  counting := counting_init

theorem Inv.registerTopic (hinv : Inv s) (name : String) : Inv (registerTopic s name).1 := by
  refine ⟨hinv.labels.registerTopic name, ?_⟩
  simp only [Topics.registerTopic]
  split
  · rename_i hnew
    exact hinv.counting.attempt hnew
  · rename_i hknown
    have hsame : (s.registry.registerTopic name).1 = s.registry := by
      obtain ⟨id, hid⟩ := Option.ne_none_iff_exists'.mp hknown
      simp [Registry.registerTopic, hid]
    rw [hsame]
    exact hinv.counting

theorem Inv.addEntry (hinv : Inv s) {topicId : Nat} {entry : ObserverEntry}
    (hentry : ∀ name, entry.addedUnder = some name →
      s.registry.m_topicMap name = some topicId) : Inv (addEntry s topicId entry) := by
  rw [Topics.addEntry]
  split
  · exact hinv
  · refine ⟨⟨?_, hinv.labels.queued, hinv.labels.current⟩, hinv.counting⟩
    intro id added hmem name hunder
    by_cases heq : id = topicId
    · subst heq
      simp only [Function.update_self] at hmem
      rcases List.mem_append.mp hmem with hmem | hmem
      · exact hinv.labels.observers id added hmem name hunder
      · obtain rfl := List.mem_singleton.mp hmem
        exact hentry name hunder
    · simp only [Function.update_of_ne heq] at hmem
      exact hinv.labels.observers id added hmem name hunder

theorem Inv.postId (hinv : Inv s) {topicId : Nat} {postedUnder : Option String}
    (hlabel : topicId < MC_FAST_MAX_TOPICS → ∀ name, postedUnder = some name →
      s.registry.m_topicMap name = some topicId) : Inv (postId s topicId postedUnder).1 := by
  rw [Topics.postId]
  split
  · exact hinv
  · rename_i hvalid
    split
    · refine ⟨⟨hinv.labels.observers, ?_, hinv.labels.current⟩, hinv.counting⟩
      intro message hmem name hunder
      rcases List.mem_append.mp hmem with hmem | hmem
      · exact hinv.labels.queued message hmem name hunder
      · obtain rfl := List.mem_singleton.mp hmem
        exact hlabel (Nat.lt_of_not_le hvalid) name hunder
    · exact hinv

/-- The id that `post` and `addObserver` go on with is that of the name. -/
theorem registerTopic_resolves (s : State) (name : String)
    (hid : (registerTopic s name).2 ≠ UINT16_MAX) :
    (registerTopic s name).1.registry.m_topicMap name = some (registerTopic s name).2 :=
  (s.registry.registerTopic_resolves name).resolve_left hid

theorem addObserver_eq (s : State) (topic : String) (callback userData : Option Nat) :
    addObserver s topic callback userData =
      if (registerTopic s topic).2 ≠ UINT16_MAX then
        addEntry (registerTopic s topic).1 (registerTopic s topic).2
          ⟨callback, userData, some topic⟩
      else (registerTopic s topic).1 := rfl

theorem post_of_unknown {topic : String} (hid : s.registry.resolveTopic topic = UINT16_MAX) :
    post s topic = postId (registerTopic s topic).1 (registerTopic s topic).2 (some topic) := by
  simp [post, hid]

theorem post_of_known {topic : String} (hid : s.registry.resolveTopic topic ≠ UINT16_MAX) :
    post s topic = postId s (s.registry.resolveTopic topic) (some topic) := by
  simp [post, hid]

theorem Inv.step {action : Action} (hinv : Inv s) (hstep : step s action = some next) :
    Inv next := by
  cases action with
  | registerTopic name =>
      obtain rfl := Option.some.inj hstep
      exact hinv.registerTopic name
  | resolveTopic name =>
      obtain rfl := Option.some.inj hstep
      exact hinv
  | addObserver topic callback userData =>
      obtain ⟨_, heq⟩ := Option.ite_none_right_eq_some.mp hstep
      obtain rfl := Option.some.inj heq
      rw [addObserver_eq]
      split
      · rename_i hid
        refine (hinv.registerTopic topic).addEntry fun name hunder => ?_
        obtain rfl := Option.some.inj hunder
        exact registerTopic_resolves s topic hid
      · exact hinv.registerTopic topic
  | addObserverId topicId callback userData =>
      obtain ⟨_, heq⟩ := Option.ite_none_right_eq_some.mp hstep
      obtain rfl := Option.some.inj heq
      exact hinv.addEntry fun _ hunder => by cases hunder
  | post topic =>
      obtain rfl := Option.some.inj hstep
      by_cases hid : s.registry.resolveTopic topic = UINT16_MAX
      · rw [post_of_unknown hid]
        refine (hinv.registerTopic topic).postId fun hvalid name hunder => ?_
        obtain rfl := Option.some.inj hunder
        apply registerTopic_resolves
        intro hmax
        rw [hmax] at hvalid
        exact absurd hvalid (by decide)
      · rw [post_of_known hid]
        refine hinv.postId fun _ name hunder => ?_
        obtain rfl := Option.some.inj hunder
        cases hmap : s.registry.m_topicMap topic with
        | none => exact absurd (by rw [Registry.resolveTopic, hmap]; rfl) hid
        | some id => rw [Registry.resolveTopic, hmap, Option.getD_some]
  | postId topicId =>
      obtain rfl := Option.some.inj hstep
      exact hinv.postId fun _ _ hunder => by cases hunder
  | take =>
      simp only [Topics.step] at hstep
      split at hstep
      · rename_i message rest _ hqueue
        obtain rfl := Option.some.inj hstep
        refine ⟨⟨hinv.labels.observers, ?_, ?_⟩, hinv.counting⟩
        · exact fun other hmem =>
            hinv.labels.queued other (hqueue ▸ List.mem_cons_of_mem _ hmem)
        · intro taken entries hdispatching
          simp only [Option.some.injEq, Prod.mk.injEq] at hdispatching
          obtain ⟨rfl, rfl⟩ := hdispatching
          refine ⟨hinv.labels.queued message (hqueue ▸ List.mem_cons_self ..), ?_⟩
          intro entry hmem
          split at hmem
          · cases hmem
          · exact hinv.labels.observers message.topicId entry hmem
      · cases hstep
  | callNext =>
      simp only [Topics.step] at hstep
      split at hstep
      · rename_i message entry rest hbefore
        obtain rfl := Option.some.inj hstep
        refine ⟨⟨hinv.labels.observers, hinv.labels.queued, ?_⟩, hinv.counting⟩
        intro taken entries hdispatching
        simp only [Option.some.injEq, Prod.mk.injEq] at hdispatching
        obtain ⟨rfl, rfl⟩ := hdispatching
        obtain ⟨hmessage, hentries⟩ := hinv.labels.current message _ hbefore
        exact ⟨hmessage, fun other hmem => hentries other (List.mem_cons_of_mem _ hmem)⟩
      · obtain rfl := Option.some.inj hstep
        exact ⟨⟨hinv.labels.observers, hinv.labels.queued, nofun⟩, hinv.counting⟩
      · cases hstep

theorem reachable_inv (hreach : machine.Reachable s) : Inv s :=
  hreach.invariant Inv inv_init fun _ _ _ hinv hstep => hinv.step hstep

/-- A step registers one name, or leaves the registry alone. -/
theorem registry_of_step {action : Action} (hstep : step s action = some next) :
    (next.registry = s.registry ∧ next.attempts = s.attempts) ∨
    ∃ name, next.registry = (registerTopic s name).1.registry ∧
      next.attempts = (registerTopic s name).1.attempts := by
  have hentry : ∀ (s : State) topicId entry, (addEntry s topicId entry).registry = s.registry ∧
      (addEntry s topicId entry).attempts = s.attempts := by
    intro s topicId entry
    rw [addEntry]
    split <;> exact ⟨rfl, rfl⟩
  have hposted : ∀ (s : State) topicId label, (postId s topicId label).1.registry = s.registry ∧
      (postId s topicId label).1.attempts = s.attempts := by
    intro s topicId label
    rw [postId]
    split
    · exact ⟨rfl, rfl⟩
    · split <;> exact ⟨rfl, rfl⟩
  cases action with
  | registerTopic name =>
      obtain rfl := Option.some.inj hstep
      exact .inr ⟨name, rfl, rfl⟩
  | resolveTopic name =>
      obtain rfl := Option.some.inj hstep
      exact .inl ⟨rfl, rfl⟩
  | addObserver topic callback userData =>
      obtain ⟨_, heq⟩ := Option.ite_none_right_eq_some.mp hstep
      obtain rfl := Option.some.inj heq
      rw [addObserver_eq]
      split
      · exact .inr ⟨topic, hentry ..⟩
      · exact .inr ⟨topic, rfl, rfl⟩
  | addObserverId topicId callback userData =>
      obtain ⟨_, heq⟩ := Option.ite_none_right_eq_some.mp hstep
      obtain rfl := Option.some.inj heq
      exact .inl (hentry ..)
  | post topic =>
      obtain rfl := Option.some.inj hstep
      by_cases hid : s.registry.resolveTopic topic = UINT16_MAX
      · rw [post_of_unknown hid]
        exact .inr ⟨topic, hposted ..⟩
      · rw [post_of_known hid]
        exact .inl (hposted ..)
  | postId topicId =>
      obtain rfl := Option.some.inj hstep
      exact .inl (hposted ..)
  | take =>
      simp only [step] at hstep
      split at hstep
      · obtain rfl := Option.some.inj hstep
        exact .inl ⟨rfl, rfl⟩
      · cases hstep
  | callNext =>
      simp only [step] at hstep
      split at hstep
      · obtain rfl := Option.some.inj hstep
        exact .inl ⟨rfl, rfl⟩
      · obtain rfl := Option.some.inj hstep
        exact .inl ⟨rfl, rfl⟩
      · cases hstep

theorem resolve_of_step {action : Action} {name : String} {id : Nat}
    (hstep : step s action = some next) (hmap : s.registry.m_topicMap name = some id) :
    next.registry.m_topicMap name = some id := by
  rcases registry_of_step hstep with ⟨hsame, _⟩ | ⟨other, hregistered, _⟩
  · rw [hsame]
    exact hmap
  · rw [hregistered]
    exact Registry.resolve_registerTopic hmap

theorem attempts_of_step {action : Action} (hstep : step s action = some next) :
    s.attempts ≤ next.attempts := by
  rcases registry_of_step hstep with ⟨_, hsame⟩ | ⟨name, _, hcounted⟩
  · exact Nat.le_of_eq hsame.symm
  · rw [hcounted]
    simp only [registerTopic]
    split <;> omega

/-! ### The registry stays injective -/

/-- What is promised of the names and ids along one execution. -/
structure Contract (exec : Execution machine) : Prop where
  injective : ∀ k, k ≤ exec.length → ∀ name other id,
    (exec.state k).registry.m_topicMap name = some id →
    (exec.state k).registry.m_topicMap other = some id → name = other
  named : ∀ k, k ≤ exec.length → ∀ name id,
    (exec.state k).registry.m_topicMap name = some id →
    id < MC_FAST_MAX_TOPICS ∧ (exec.state k).registry.m_topicNames id = name
  permanent : ∀ i j, i ≤ j → j ≤ exec.length → ∀ name id,
    (exec.state i).registry.m_topicMap name = some id →
    (exec.state j).registry.m_topicMap name = some id
  failedKept : ∀ k, k ≤ exec.length → ∀ name,
    ((exec.state k).registry.registerTopic name).2 = UINT16_MAX →
    ((exec.state k).registry.registerTopic name).1.m_topicMap = (exec.state k).registry.m_topicMap ∧
    ((exec.state k).registry.registerTopic name).1.m_topicNames =
      (exec.state k).registry.m_topicNames
  /-- the loop of `dispatch` comes to an observer of another name -/
  delivered : ∀ k, k ≤ exec.length → ∀ message entry rest posted added,
    (exec.state k).dispatching = some (message, entry :: rest) →
    message.postedUnder = some posted → entry.addedUnder = some added → posted = added

/-- A failed registration moves nothing but the counter. -/
theorem Registry.failed_keeps {name : String} (hfailed : (r.registerTopic name).2 = UINT16_MAX) :
    (r.registerTopic name).1.m_topicMap = r.m_topicMap ∧
      (r.registerTopic name).1.m_topicNames = r.m_topicNames := by
  have houtcome := r.registration name
  generalize (r.registerTopic name).1 = after, (r.registerTopic name).2 = given at *
  cases houtcome with
  | known _ _ => exact ⟨rfl, rfl⟩
  | failed _ _ => exact ⟨rfl, rfl⟩
  | new _ hroom =>
      rw [hfailed] at hroom
      exact absurd hroom (by decide)

theorem attempts_mono (exec : Execution machine) {k : Nat} (hk : k ≤ exec.length) :
    (exec.state k).attempts ≤ (exec.state exec.length).attempts := by
  refine exec.carry (P := fun s => (exec.state k).attempts ≤ s.attempts) hk (Nat.le_refl _)
    (Nat.le_refl _) ?_
  intro m _ hm hbefore
  exact Nat.le_trans hbefore (attempts_of_step (exec.steps m hm))

/-- After the wrap two names share the id 0. -/
theorem not_contract_of_wrapped {exec : Execution machine}
    (hwrapped : 2 ^ 16 < (exec.state exec.length).attempts) : ¬ Contract exec := by
  intro hcontract
  have hinv := reachable_inv (exec.reachable (Nat.le_refl _))
  obtain ⟨name, other, hne, hname, hother⟩ := hinv.counting.wrapped hwrapped
  exact hne (hcontract.injective _ (Nat.le_refl _) name other 0 hname hother)

/-- **The registry stays injective** exactly in the runs that register at most
`2 ^ 16` new names, failed registrations included. -/
theorem contract_iff_unwrapped (exec : Execution machine) :
    Contract exec ↔ (exec.state exec.length).attempts ≤ 2 ^ 16 := by
  constructor
  · intro hcontract
    by_contra hwrapped
    exact not_contract_of_wrapped (Nat.lt_of_not_le hwrapped) hcontract
  · intro hle
    have hnames : ∀ k, k ≤ exec.length → ∀ name id,
        (exec.state k).registry.m_topicMap name = some id →
        (exec.state k).registry.m_topicNames id = name := by
      intro k hk name id hmap
      have hinv := reachable_inv (exec.reachable hk)
      have hunwrapped := Nat.le_trans (attempts_mono exec hk) hle
      exact (hinv.counting.unwrapped hunwrapped name id hmap).2
    have hinjective : ∀ k, k ≤ exec.length → ∀ name other id,
        (exec.state k).registry.m_topicMap name = some id →
        (exec.state k).registry.m_topicMap other = some id → name = other := by
      intro k hk name other id hname hother
      rw [← hnames k hk name id hname, ← hnames k hk other id hother]
    refine ⟨hinjective, ?_, ?_, ?_, ?_⟩
    · intro k hk name id hmap
      have hinv := reachable_inv (exec.reachable hk)
      exact ⟨hinv.counting.below name id hmap, hnames k hk name id hmap⟩
    · intro i j hij hj name id hmap
      refine exec.carry (P := fun s => s.registry.m_topicMap name = some id) hij hj hmap ?_
      intro m _ hm hbefore
      exact resolve_of_step (exec.steps m (Nat.lt_of_lt_of_le hm hj)) hbefore
    · exact fun k hk name hfailed => Registry.failed_keeps hfailed
    · intro k hk message entry rest posted added hdispatching hposted hadded
      have hinv := reachable_inv (exec.reachable hk)
      obtain ⟨hmessage, hentries⟩ := hinv.labels.current message _ hdispatching
      exact hinjective k hk posted added message.topicId (hmessage posted hposted)
        (hentries entry (List.mem_cons_self ..) added hadded)

/-! ### A run that wraps -/

/-- The names "", "a", "aa" and so on. -/
def nameOf (n : Nat) : String := String.ofList (List.replicate n 'a')

theorem nameOf_injective {m n : Nat} (heq : nameOf m = nameOf n) : m = n := by
  have hlists : List.replicate m 'a' = List.replicate n 'a' := by
    simpa only [nameOf, String.toList_ofList] using congrArg String.toList heq
  simpa using congrArg List.length hlists

/-- After registering the first `n` names. -/
def registered : Nat → State
  | 0 => init
  | n + 1 => (registerTopic (registered n) (nameOf n)).1

theorem registered_unknown {n k : Nat} (hnk : n ≤ k) :
    (registered n).registry.m_topicMap (nameOf k) = none := by
  induction n with
  | zero => rfl
  | succ n ih =>
      have hunknown := ih (by omega)
      have hne : nameOf k ≠ nameOf n := fun heq => by
        have hsame := nameOf_injective heq
        omega
      simp only [registered, registerTopic]
      have houtcome := (registered n).registry.registration (nameOf n)
      generalize ((registered n).registry.registerTopic (nameOf n)).1 = after,
        ((registered n).registry.registerTopic (nameOf n)).2 = given at *
      cases houtcome with
      | known _ _ => exact hunknown
      | failed _ _ => exact hunknown
      | new _ _ => simpa [hne] using hunknown

theorem registered_attempts (n : Nat) : (registered n).attempts = n := by
  induction n with
  | zero => rfl
  | succ n ih =>
      simp only [registered, registerTopic]
      rw [if_pos (registered_unknown (Nat.le_refl n)), ih]

/-- `2 ^ 16 + 1` registrations -/
def wrapping : Execution machine where
  length := 65537
  state := registered
  action n := .registerTopic (nameOf n)
  starts := rfl
  steps _ _ := rfl

/-- **The last of `2 ^ 16 + 1` names gets the id of the first.** -/
theorem not_contract_wrapping : ¬ ∀ exec : Execution machine, Contract exec := by
  intro hcontract
  have hcount : (wrapping.state wrapping.length).attempts = 65537 := registered_attempts 65537
  exact not_contract_of_wrapped (by rw [hcount]; decide) (hcontract wrapping)

end MessageCenter.MessageCenterFast.Topics
