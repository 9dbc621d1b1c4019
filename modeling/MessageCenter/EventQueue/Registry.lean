import Mathlib.Logic.Function.Basic

/-!
# The topic registry of `eventqueue.h`

`m_topics`, `m_topicsResolveMap` and `m_topicMax`, with the calls that read,
extend and clear them.  Each call is one critical section of `m_mutexTopics`.
-/

namespace MessageCenter.EventQueue

/-- `MAX_TOPICS` -/
def MAX_TOPICS : Nat := 1024

structure Registry where
  m_topics : Nat → String
  m_topicsResolveMap : String → Option Int
  m_topicMax : Nat

def Registry.empty : Registry where
  m_topics := fun _ => ""
  m_topicsResolveMap := fun _ => none
  m_topicMax := 0

/-- `ResolveTopic`: the id of a registered name, or -1. -/
def Registry.resolveTopic (registry : Registry) (topic : String) : Int :=
  if topic.length > 0 then (registry.m_topicsResolveMap topic).getD (-1) else -1

/-- `RegisterTopic`: the id of the name, new or known; -1 for the empty name and
-2 when the table is full. -/
def Registry.registerTopic (registry : Registry) (topic : String) : Registry × Int :=
  if topic.length > 0 then
    match registry.m_topicsResolveMap topic with
    | some id => (registry, id)
    | none =>
        if registry.m_topicMax < MAX_TOPICS then
          ({ m_topics := Function.update registry.m_topics registry.m_topicMax topic
             m_topicsResolveMap :=
               Function.update registry.m_topicsResolveMap topic (some registry.m_topicMax)
             m_topicMax := registry.m_topicMax + 1 }, registry.m_topicMax)
        else (registry, -2)
  else (registry, -1)

/-- `ClearTopics` -/
def Registry.clearTopics (_ : Registry) : Registry := Registry.empty

/-! ### Consistency -/

/-- The ids in use are those below `m_topicMax`, one for each registered name. -/
structure Registry.Consistent (registry : Registry) : Prop where
  resolves : ∀ topic id, registry.m_topicsResolveMap topic = some id ↔
    ∃ i : Nat, i < registry.m_topicMax ∧ id = i ∧ registry.m_topics i = topic
  nonempty : ∀ i, i < registry.m_topicMax → (registry.m_topics i).length > 0
  unused : ∀ i, registry.m_topicMax ≤ i → registry.m_topics i = ""
  fits : registry.m_topicMax ≤ MAX_TOPICS

theorem Registry.consistent_empty : Registry.empty.Consistent where
  resolves topic id := by simp [Registry.empty]
  nonempty i hi := absurd hi (Nat.not_lt_zero i)
  unused i _ := rfl
  fits := Nat.zero_le _

/-- The registry with `topic` under the next id. -/
def Registry.extend (registry : Registry) (topic : String) : Registry where
  m_topics := Function.update registry.m_topics registry.m_topicMax topic
  m_topicsResolveMap :=
    Function.update registry.m_topicsResolveMap topic (some registry.m_topicMax)
  m_topicMax := registry.m_topicMax + 1

/-- The registered names in the order of their ids. -/
def Registry.names (registry : Registry) : List String :=
  (List.range registry.m_topicMax).map registry.m_topics

@[simp] theorem Registry.length_names (registry : Registry) :
    registry.names.length = registry.m_topicMax := by
  simp [names]

/-- What `RegisterTopic` can do: find the name, give it the next id, or fail. -/
inductive Registry.Registration (registry : Registry) (topic : String) :
    Registry × Int → Prop
  | known (id : Int) (hname : topic.length > 0)
      (hresolve : registry.m_topicsResolveMap topic = some id) :
      Registration registry topic (registry, id)
  | new (hname : topic.length > 0) (hunknown : registry.m_topicsResolveMap topic = none)
      (hroom : registry.m_topicMax < MAX_TOPICS) :
      Registration registry topic (registry.extend topic, registry.m_topicMax)
  | failed (id : Int) (hnegative : id < 0)
      (hwhy : topic.length = 0 ∨
        registry.m_topicsResolveMap topic = none ∧ MAX_TOPICS ≤ registry.m_topicMax) :
      Registration registry topic (registry, id)

theorem Registry.registration (registry : Registry) (topic : String) :
    registry.Registration topic (registry.registerTopic topic) := by
  unfold Registry.registerTopic
  split
  · rename_i hname
    split
    · rename_i id hresolve
      exact .known id hname hresolve
    · rename_i hunknown
      split
      · rename_i hroom
        exact .new hname hunknown hroom
      · rename_i hfull
        exact .failed (-2) (by decide) (.inr ⟨hunknown, Nat.not_lt.mp hfull⟩)
  · rename_i hname
    exact .failed (-1) (by decide) (.inl (Nat.eq_zero_of_not_pos hname))

/-- Registering a name twice is registering it once. -/
theorem Registry.registerTopic_again {registry : Registry} {topic : String}
    (hregistered : 0 ≤ (registry.registerTopic topic).2) :
    (registry.registerTopic topic).1.registerTopic topic = registry.registerTopic topic := by
  have hregistration := registry.registration topic
  generalize registry.registerTopic topic = result at hregistration hregistered ⊢
  cases hregistration with
  | known id hname hresolve => simp [Registry.registerTopic, hname, hresolve]
  | new hname hunknown hroom => simp [Registry.registerTopic, Registry.extend, hname]
  | failed id hnegative hwhy => exact absurd hregistered (Int.not_le.mpr hnegative)

theorem Registry.resolve_of_registerTopic {registry : Registry} {topic : String}
    (hregistered : 0 ≤ (registry.registerTopic topic).2) :
    (registry.registerTopic topic).1.m_topicsResolveMap topic =
      some (registry.registerTopic topic).2 := by
  have hregistration := registry.registration topic
  generalize registry.registerTopic topic = result at hregistration hregistered ⊢
  cases hregistration with
  | known id hname hresolve => exact hresolve
  | new hname hunknown hroom => simp [Registry.extend]
  | failed id hnegative hwhy => exact absurd hregistered (Int.not_le.mpr hnegative)

namespace Registry.Consistent

variable {registry : Registry} {topic other : String}

theorem name_of_resolve (hconsistent : registry.Consistent) {id : Int}
    (hresolve : registry.m_topicsResolveMap topic = some id) :
    registry.m_topics id.toNat = topic ∧ id.toNat < registry.m_topicMax ∧ 0 ≤ id := by
  obtain ⟨i, hi, rfl, hname⟩ := (hconsistent.resolves topic id).mp hresolve
  exact ⟨hname, hi, Int.natCast_nonneg i⟩

theorem resolveTopic_of_resolve (hconsistent : registry.Consistent) {id : Int}
    (hresolve : registry.m_topicsResolveMap topic = some id) : registry.resolveTopic topic = id := by
  obtain ⟨hname, hlt, _⟩ := hconsistent.name_of_resolve hresolve
  have hpos := hconsistent.nonempty _ hlt
  rw [hname] at hpos
  simp [Registry.resolveTopic, hpos, hresolve]

/-- Two names never share an id. -/
theorem injective (hconsistent : registry.Consistent) {id : Int}
    (htopic : registry.m_topicsResolveMap topic = some id)
    (hother : registry.m_topicsResolveMap other = some id) : topic = other :=
  (hconsistent.name_of_resolve htopic).1.symm.trans (hconsistent.name_of_resolve hother).1

theorem extend (hconsistent : registry.Consistent) (hname : topic.length > 0)
    (hunknown : registry.m_topicsResolveMap topic = none)
    (hroom : registry.m_topicMax < MAX_TOPICS) : (registry.extend topic).Consistent where
  resolves name id := by
    simp only [Registry.extend]
    by_cases heq : name = topic
    · subst heq
      rw [Function.update_self, Option.some.injEq]
      constructor
      · rintro rfl
        exact ⟨registry.m_topicMax, Nat.lt_succ_self _, rfl, Function.update_self ..⟩
      · rintro ⟨i, hi, rfl, hupdate⟩
        by_cases hlast : i = registry.m_topicMax
        · rw [hlast]
        · rw [Function.update_of_ne hlast] at hupdate
          have hlt : i < registry.m_topicMax :=
            Nat.lt_of_le_of_ne (Nat.lt_succ_iff.mp hi) hlast
          have hsome := (hconsistent.resolves name i).mpr ⟨i, hlt, rfl, hupdate⟩
          rw [hunknown] at hsome
          cases hsome
    · rw [Function.update_of_ne heq, hconsistent.resolves]
      constructor
      · rintro ⟨i, hi, rfl, hold⟩
        exact ⟨i, Nat.lt_succ_of_lt hi, rfl, (Function.update_of_ne (Nat.ne_of_lt hi) ..).trans hold⟩
      · rintro ⟨i, hi, rfl, hupdate⟩
        by_cases hlast : i = registry.m_topicMax
        · rw [hlast, Function.update_self] at hupdate
          exact absurd hupdate.symm heq
        · rw [Function.update_of_ne hlast] at hupdate
          exact ⟨i, Nat.lt_of_le_of_ne (Nat.lt_succ_iff.mp hi) hlast, rfl, hupdate⟩
  nonempty i hi := by
    simp only [Registry.extend]
    by_cases hlast : i = registry.m_topicMax
    · rw [hlast, Function.update_self]
      exact hname
    · rw [Function.update_of_ne hlast]
      exact hconsistent.nonempty i (Nat.lt_of_le_of_ne (Nat.lt_succ_iff.mp hi) hlast)
  unused i hi := by
    have hlt : registry.m_topicMax < i := hi
    simp only [Registry.extend]
    rw [Function.update_of_ne (Nat.ne_of_gt hlt)]
    exact hconsistent.unused i (Nat.le_of_lt hlt)
  fits := hroom

theorem registration (hconsistent : registry.Consistent) {result : Registry × Int}
    (hregistration : registry.Registration topic result) : result.1.Consistent := by
  cases hregistration with
  | known id _ _ => exact hconsistent
  | new hname hunknown hroom => exact hconsistent.extend hname hunknown hroom
  | failed id _ _ => exact hconsistent

theorem idxOf?_names (hconsistent : registry.Consistent) {i : Nat} :
    registry.names.idxOf? topic = some i ↔ registry.m_topicsResolveMap topic = some (i : Int) := by
  rw [List.idxOf?_eq_some_iff]
  constructor
  · rintro ⟨hi, hname, _⟩
    exact (hconsistent.resolves topic i).mpr ⟨i, by simpa using hi, rfl, by simpa [names] using hname⟩
  · intro hresolve
    obtain ⟨i', hi, heq, hname⟩ := (hconsistent.resolves topic i).mp hresolve
    obtain rfl : i = i' := Int.ofNat_inj.mp heq
    refine ⟨by simpa using hi, by simpa [names] using hname, fun j hj hsame => ?_⟩
    have hother := (hconsistent.resolves topic j).mpr
      ⟨j, Nat.lt_trans hj hi, rfl, by simpa [names] using hsame⟩
    rw [hresolve, Option.some.injEq, Int.ofNat_inj] at hother
    exact Nat.ne_of_gt hj hother

theorem resolveTopic_names (hconsistent : registry.Consistent) (topic : String) :
    (∃ i, registry.names.idxOf? topic = some i ∧ registry.resolveTopic topic = i) ∨
      registry.names.idxOf? topic = none ∧ registry.resolveTopic topic = -1 := by
  cases hresolve : registry.m_topicsResolveMap topic with
  | some id =>
      obtain ⟨i, _, rfl, _⟩ := (hconsistent.resolves topic id).mp hresolve
      exact Or.inl ⟨i, hconsistent.idxOf?_names.mpr hresolve,
        hconsistent.resolveTopic_of_resolve hresolve⟩
  | none =>
      refine Or.inr ⟨?_, by simp [Registry.resolveTopic, hresolve]⟩
      cases hidx : registry.names.idxOf? topic with
      | none => rfl
      | some i =>
          have hsome := hconsistent.idxOf?_names.mp hidx
          rw [hresolve] at hsome
          cases hsome

end Registry.Consistent

end MessageCenter.EventQueue
