import Mathlib.Algebra.Group.Int.Defs
import MessageCenter.EventQueue.Registry

/-!
# Runs of the topic registry

Any sequence of `RegisterTopic`, `ResolveTopic` and `ClearTopics` on the registry of an
`EventQueue`, and `GetTopicByID`, which reads the array that the other calls only write.
-/

namespace MessageCenter.EventQueue

namespace Registry

/-- `GetTopicByID`; `static_cast<unsigned>(id)` is the residue modulo `2 ^ 32`. -/
def getTopicByID (registry : Registry) (id : Int) : String :=
  if 0 < id ∧ id % 2 ^ 32 < MAX_TOPICS then registry.m_topics id.toNat else ""

/-- A critical section of `m_mutexTopics`. -/
inductive Call where
  | registerTopic (topic : String)
  | resolveTopic (topic : String)
  | clearTopics
deriving DecidableEq, Repr

def step (registry : Registry) : Call → Registry
  | .registerTopic topic => (registry.registerTopic topic).1
  | .resolveTopic _ => registry
  | .clearTopics => registry.clearTopics

def run : Registry → List Call → Registry
  | registry, [] => registry
  | registry, call :: rest => run (registry.step call) rest

/-- What the first `RegisterTopic` of the name that succeeds returns. -/
def firstId (topic : String) : Registry → List Call → Option Int
  | _, [] => none
  | registry, call :: rest =>
      if call = .registerTopic topic ∧ 0 ≤ (registry.registerTopic topic).2 then
        some (registry.registerTopic topic).2
      else firstId topic (registry.step call) rest

variable {registry : Registry} {topic other : String}

/-! ### Every run is consistent -/

theorem Consistent.step (hconsistent : registry.Consistent) (call : Call) :
    (registry.step call).Consistent := by
  cases call with
  | registerTopic topic => exact hconsistent.registration (registry.registration topic)
  | resolveTopic topic => exact hconsistent
  | clearTopics => exact consistent_empty

theorem Consistent.run (hconsistent : registry.Consistent) (calls : List Call) :
    (registry.run calls).Consistent := by
  induction calls generalizing registry with
  | nil => exact hconsistent
  | cons call rest ih => exact ih (hconsistent.step call)

theorem consistent_run (calls : List Call) : (empty.run calls).Consistent :=
  consistent_empty.run calls

theorem run_append (registry : Registry) (before after : List Call) :
    registry.run (before ++ after) = (registry.run before).run after := by
  induction before generalizing registry with
  | nil => rfl
  | cons call rest ih => exact ih (registry.step call)

/-! ### Names and ids -/

theorem Consistent.name_ne_empty (hconsistent : registry.Consistent) {id : Int}
    (hresolve : registry.m_topicsResolveMap topic = some id) : topic ≠ "" := by
  rintro rfl
  obtain ⟨hname, hlt, -⟩ := hconsistent.name_of_resolve hresolve
  have hpos := hconsistent.nonempty _ hlt
  rw [hname] at hpos
  exact absurd hpos (by decide)

/-- `ResolveTopic` reads the map. -/
theorem Consistent.resolveTopic_eq (hconsistent : registry.Consistent) (topic : String) :
    registry.resolveTopic topic = (registry.m_topicsResolveMap topic).getD (-1) := by
  cases hresolve : registry.m_topicsResolveMap topic with
  | some id => exact hconsistent.resolveTopic_of_resolve hresolve
  | none => simp [resolveTopic, hresolve]

theorem Consistent.resolveTopic_eq_iff (hconsistent : registry.Consistent) {id : Int}
    (hnonneg : 0 ≤ id) :
    registry.resolveTopic topic = id ↔ registry.m_topicsResolveMap topic = some id := by
  rw [hconsistent.resolveTopic_eq]
  cases registry.m_topicsResolveMap topic with
  | some known => simp
  | none =>
      rw [Option.getD_none]
      constructor
      · rintro rfl
        exact absurd hnonneg (by decide)
      · intro hnone
        cases hnone

/-- The array entry of an id is its name, and that of an unused id is empty. -/
theorem Consistent.getTopicByID_eq (hconsistent : registry.Consistent) {id : Int} (hne : id ≠ 0) :
    (∀ topic, registry.m_topicsResolveMap topic = some id →
      registry.getTopicByID id = topic) ∧
    ((∀ topic, registry.m_topicsResolveMap topic ≠ some id) → registry.getTopicByID id = "") := by
  constructor
  · intro topic hresolve
    obtain ⟨hname, hlt, hnonneg⟩ := hconsistent.name_of_resolve hresolve
    have hfits := hconsistent.fits
    have hbound : 0 < id ∧ id % 2 ^ 32 < MAX_TOPICS := by
      rw [MAX_TOPICS] at hfits ⊢
      omega
    rw [getTopicByID, if_pos hbound]
    exact hname
  · intro hunused
    rw [getTopicByID]
    split
    · next hbound =>
      refine hconsistent.unused _ ?_
      by_contra hlt
      refine hunused (registry.m_topics id.toNat) ((hconsistent.resolves _ id).mpr ?_)
      exact ⟨id.toNat, Nat.lt_of_not_le hlt, (Int.toNat_of_nonneg (Int.le_of_lt hbound.1)).symm, rfl⟩
    · rfl

/-- `GetTopicByID` does not look into slot 0. -/
@[simp] theorem getTopicByID_zero (registry : Registry) : registry.getTopicByID 0 = "" := rfl

/-! ### The inverse of `ResolveTopic` -/

/-- `GetTopicByID(id)` is the name that resolves to `id`, or empty when no registered name
does. -/
structure InvertsAt (registry : Registry) (id : Int) : Prop where
  name : ∀ topic, 0 ≤ registry.resolveTopic topic → registry.resolveTopic topic = id →
    registry.getTopicByID id = topic
  unused : (∀ topic, registry.m_topicsResolveMap topic ≠ some id) → registry.getTopicByID id = ""

/-- **`GetTopicByID` inverts the registry** at every id but that of the first name. -/
theorem invertsAt_iff (calls : List Call) (id : Int) :
    (empty.run calls).InvertsAt id ↔ (id = 0 → (empty.run calls).m_topicMax = 0) := by
  have hconsistent := consistent_run calls
  generalize empty.run calls = registry at hconsistent ⊢
  constructor
  · rintro hinverts rfl
    by_contra hsome
    have hpos : 0 < registry.m_topicMax := Nat.pos_of_ne_zero hsome
    have hresolve : registry.m_topicsResolveMap (registry.m_topics 0) = some 0 :=
      (hconsistent.resolves _ 0).mpr ⟨0, hpos, rfl, rfl⟩
    have hzero := hconsistent.resolveTopic_of_resolve hresolve
    have hname := hinverts.name _ (Int.le_of_eq hzero.symm) hzero
    rw [getTopicByID_zero] at hname
    exact hconsistent.name_ne_empty hresolve hname.symm
  · intro hfirst
    by_cases hid : id = 0
    · subst hid
      refine ⟨fun topic hnonneg hresolve => ?_, fun _ => rfl⟩
      rw [hconsistent.resolveTopic_eq_iff (Int.le_refl 0)] at hresolve
      have hlt := (hconsistent.name_of_resolve hresolve).2.1
      rw [hfirst rfl] at hlt
      exact absurd hlt (Nat.not_lt_zero _)
    · obtain ⟨hname, hunused⟩ := hconsistent.getTopicByID_eq hid
      refine ⟨fun topic hnonneg hresolve => hname topic ?_, hunused⟩
      rw [hresolve] at hnonneg
      exact (hconsistent.resolveTopic_eq_iff hnonneg).mp hresolve

/-- The first registered name resolves to 0, and `GetTopicByID(0)` is empty. -/
theorem firstName_not_inverted :
    ¬ ∀ (calls : List Call) (id : Int), (empty.run calls).InvertsAt id := by
  intro hall
  have hname := (hall [.registerTopic "a"] 0).name "a" (by decide) (by decide)
  exact absurd hname (by decide)

/-! ### `RegisterTopic` -/

/-- What a call of `RegisterTopic` finds: a known name, the empty name, a full table or room. -/
structure Registers (registry : Registry) (topic : String) : Prop where
  known : ∀ id, registry.m_topicsResolveMap topic = some id →
    registry.registerTopic topic = (registry, id) ∧ 0 ≤ id
  unnamed : topic = "" → registry.registerTopic topic = (registry, -1)
  full : topic ≠ "" → registry.m_topicsResolveMap topic = none →
    registry.m_topicMax = MAX_TOPICS → registry.registerTopic topic = (registry, -2)
  new : topic ≠ "" → registry.m_topicsResolveMap topic = none →
    registry.m_topicMax < MAX_TOPICS →
      registry.registerTopic topic = (registry.extend topic, (registry.m_topicMax : Int))

theorem length_pos_iff : topic.length > 0 ↔ topic ≠ "" := by
  rw [gt_iff_lt, Nat.pos_iff_ne_zero, ne_eq, String.length_eq_zero_iff]

theorem Consistent.registers (hconsistent : registry.Consistent) (topic : String) :
    registry.Registers topic where
  known id hresolve := by
    have hname := length_pos_iff.mpr (hconsistent.name_ne_empty hresolve)
    refine ⟨?_, (hconsistent.name_of_resolve hresolve).2.2⟩
    simp [registerTopic, hname, hresolve]
  unnamed hempty := by
    have hname : ¬topic.length > 0 := fun hpos => length_pos_iff.mp hpos hempty
    simp [registerTopic, hname]
  full hne hunknown hfull := by
    have hname := length_pos_iff.mpr hne
    simp [registerTopic, hname, hunknown, hfull]
  new hne hunknown hroom := by
    have hname := length_pos_iff.mpr hne
    simp [registerTopic, hname, hunknown, hroom, Registry.extend]

/-- The result is negative in the two cases of failure only. -/
theorem Consistent.registerTopic_failed (hconsistent : registry.Consistent)
    (hfailed : (registry.registerTopic topic).2 < 0) :
    (registry.registerTopic topic).1 = registry ∧
      (topic = "" ∧ (registry.registerTopic topic).2 = -1 ∨
        topic ≠ "" ∧ registry.m_topicsResolveMap topic = none ∧
          registry.m_topicMax = MAX_TOPICS ∧ (registry.registerTopic topic).2 = -2) := by
  have hcases := hconsistent.registers topic
  by_cases hempty : topic = ""
  · rw [hcases.unnamed hempty]
    exact ⟨rfl, Or.inl ⟨hempty, rfl⟩⟩
  cases hresolve : registry.m_topicsResolveMap topic with
  | some id =>
      obtain ⟨hregister, hnonneg⟩ := hcases.known id hresolve
      rw [hregister] at hfailed
      exact absurd hnonneg (Int.not_le.mpr hfailed)
  | none =>
      rcases Nat.lt_or_eq_of_le hconsistent.fits with hroom | hfull
      · rw [hcases.new hempty hresolve hroom] at hfailed
        exact absurd (Int.natCast_nonneg _) (Int.not_le.mpr hfailed)
      · rw [hcases.full hempty hresolve hfull]
        exact ⟨rfl, Or.inr ⟨hempty, rfl, hfull, rfl⟩⟩

/-! ### Ids stay -/

/-- A name that is not registered is registered by the first call that succeeds, and keeps its
id until the next `ClearTopics`. -/
theorem Consistent.resolve_run (hconsistent : registry.Consistent) {calls : List Call}
    (hkept : .clearTopics ∉ calls) (topic : String) :
    (registry.run calls).m_topicsResolveMap topic =
      (registry.m_topicsResolveMap topic).or (registry.firstId topic calls) := by
  induction calls generalizing registry with
  | nil => rw [Registry.run, firstId, Option.or_none]
  | cons call rest ih =>
      obtain ⟨hcall, hrest⟩ := not_or.mp (List.mem_cons.not.mp hkept)
      rw [Registry.run, ih (hconsistent.step call) hrest, firstId]
      cases call with
      | clearTopics => exact absurd rfl hcall
      | resolveTopic name => rw [if_neg fun heq => Call.noConfusion heq.1, Registry.step]
      | registerTopic name =>
          by_cases hname : name = topic
          · subst hname
            by_cases hnonneg : 0 ≤ (registry.registerTopic name).2
            · -- this call returns the id that the name has from now on
              have hresolve := resolve_of_registerTopic hnonneg
              rw [if_pos ⟨rfl, hnonneg⟩, Registry.step, hresolve, Option.some_or]
              cases hknown : registry.m_topicsResolveMap name with
              | none => rfl
              | some id =>
                  rw [((hconsistent.registers name).known id hknown).1]
                  rfl
            · rw [if_neg fun hboth => hnonneg hboth.2, Registry.step,
                (hconsistent.registerTopic_failed (Int.not_le.mp hnonneg)).1]
          · rw [if_neg fun hboth => hname (Call.registerTopic.inj hboth.1)]
            have hframe : (registry.step (.registerTopic name)).m_topicsResolveMap topic =
                registry.m_topicsResolveMap topic := by
              have hregistration := registry.registration name
              rw [Registry.step]
              generalize registry.registerTopic name = result at hregistration
              cases hregistration with
              | known id _ _ => rfl
              | new _ _ _ => exact Function.update_of_ne (Ne.symm hname) ..
              | failed id _ _ => rfl
            rw [hframe]

/-! ### The invariant of the registry -/

/-- The three parts of the registry agree. -/
structure Agrees (registry : Registry) : Prop where
  /-- the ids in the map are `0 .. m_topicMax - 1` -/
  ids : ∀ id, (∃ topic, registry.m_topicsResolveMap topic = some id) ↔
    0 ≤ id ∧ id < registry.m_topicMax
  /-- each is used by one name -/
  once : ∀ topic other id, registry.m_topicsResolveMap topic = some id →
    registry.m_topicsResolveMap other = some id → topic = other
  names : ∀ i : Nat, i < registry.m_topicMax →
    registry.m_topicsResolveMap (registry.m_topics i) = some (i : Int)
  unused : ∀ i, registry.m_topicMax ≤ i → registry.m_topics i = ""
  fits : registry.m_topicMax ≤ MAX_TOPICS

theorem Consistent.agrees (hconsistent : registry.Consistent) : registry.Agrees where
  ids id := by
    constructor
    · rintro ⟨topic, hresolve⟩
      obtain ⟨i, hi, rfl, -⟩ := (hconsistent.resolves topic id).mp hresolve
      exact ⟨Int.natCast_nonneg i, Int.ofNat_lt.mpr hi⟩
    · rintro ⟨hnonneg, hlt⟩
      obtain ⟨i, rfl⟩ := Int.eq_ofNat_of_zero_le hnonneg
      exact ⟨registry.m_topics i,
        (hconsistent.resolves _ _).mpr ⟨i, Int.ofNat_lt.mp hlt, rfl, rfl⟩⟩
  once _ _ _ := hconsistent.injective
  names i hi := (hconsistent.resolves _ _).mpr ⟨i, hi, rfl, rfl⟩
  unused := hconsistent.unused
  fits := hconsistent.fits

/-- What a sequence of calls since the last `ClearTopics`, or the construction, leaves behind. -/
structure Sound (calls : List Call) : Prop where
  agrees : (empty.run calls).Agrees
  registers : ∀ topic, (empty.run calls).Registers topic
  /-- `RegisterTopic` fails for no other reason -/
  failed : ∀ topic, ((empty.run calls).registerTopic topic).2 < 0 →
    ((empty.run calls).registerTopic topic).1 = empty.run calls ∧
      (topic = "" ∧ ((empty.run calls).registerTopic topic).2 = -1 ∨
        topic ≠ "" ∧ (empty.run calls).m_topicsResolveMap topic = none ∧
          (empty.run calls).m_topicMax = MAX_TOPICS ∧
          ((empty.run calls).registerTopic topic).2 = -2)
  /-- after the calls `before`, which end with a `ClearTopics` or are none -/
  stable : ∀ before after, calls = before ++ after →
    (before = [] ∨ ∃ earlier, before = earlier ++ [.clearTopics]) → .clearTopics ∉ after →
      ∀ topic, (empty.run calls).resolveTopic topic =
        ((empty.run before).firstId topic after).getD (-1)

theorem run_before {before : List Call}
    (hbefore : before = [] ∨ ∃ earlier, before = earlier ++ [.clearTopics]) :
    empty.run before = empty := by
  rcases hbefore with rfl | ⟨earlier, rfl⟩
  · rfl
  · rw [run_append]
    rfl

/-- **The registry.**  After every sequence of calls the map, the array and the next id agree,
`RegisterTopic` does what it should, and every name has the id that it got first. -/
theorem registry_sound (calls : List Call) : Sound calls := by
  have hconsistent := consistent_run calls
  refine ⟨hconsistent.agrees, hconsistent.registers,
    fun topic => hconsistent.registerTopic_failed, ?_⟩
  rintro before after rfl hbefore hkept topic
  rw [hconsistent.resolveTopic_eq, run_append, run_before hbefore,
    consistent_empty.resolve_run hkept]
  rfl

/-- Two names, one of them twice, a clear, and one name again. -/
example : (empty.run [.registerTopic "a", .registerTopic "b", .registerTopic "a"]).names =
    ["a", "b"] ∧
    (empty.run [.registerTopic "a", .registerTopic "b", .clearTopics,
      .registerTopic "b"]).resolveTopic "b" = 0 := by decide

end Registry

end MessageCenter.EventQueue
