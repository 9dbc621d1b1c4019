import MessageCenter.SnapshotQueue.Publication

/-!
# What a post copies, whatever overlaps

An entry is written before `count` gets past it, and `count` never gets past the end of the array.
So even when registrations overlap, a post stays inside the arrays and copies nothing that was not
given to `addObserver` for its topic; it may copy the callback of one observer with the user data
of another.
-/

namespace MessageCenter.SnapshotQueue.Publication

open Concurrency Concurrent

/-! ### Members -/

theorem Member.value_copy (member : Member) (source observer : Observer) :
    member.value (member.copy source observer) = member.value source := by
  cases member <;> rfl

theorem Member.value_copy_ne {member other : Member} (hne : other ≠ member)
    (source observer : Observer) :
    other.value (member.copy source observer) = other.value observer := by
  cases member <;> cases other <;> first | rfl | exact absurd rfl hne

theorem Member.ext_value {observer other : Observer}
    (hvalue : ∀ member : Member, member.value observer = member.value other) : observer = other :=
  congr (congrArg Observer.mk (hvalue .callback)) (hvalue .userData)

/-- A `memcpy` that reads one cell leaves the others as they are. -/
theorem copied_of_ne {observers : Nat → Observer} {i j : Nat} {member other : Member}
    {source : Observer} (hne : (j, other) ≠ (i, member)) :
    other.value (Function.update observers i (member.copy source (observers i)) j) =
      other.value (observers j) := by
  by_cases hindex : j = i
  · subst hindex
    rw [Function.update_self]
    exact Member.value_copy_ne (fun heq => hne (congrArg (Prod.mk j) heq)) ..
  · rw [Function.update_of_ne hindex]

theorem mem_cells {count : Nat} {cell : Cell} : cell ∈ cells count ↔ cell.1 < count := by
  obtain ⟨i, member⟩ := cell
  simp only [cells, List.mem_flatMap, List.mem_range]
  constructor
  · rintro ⟨j, hlt, hmem⟩
    have heq : i = j := by
      rcases List.mem_cons.mp hmem with heq | hmem
      · exact congrArg Prod.fst heq
      · exact congrArg Prod.fst (List.mem_singleton.mp hmem)
    exact heq ▸ hlt
  · intro hlt
    refine ⟨i, hlt, ?_⟩
    cases member with
    | callback => exact List.mem_cons_self
    | userData => exact List.mem_cons_of_mem _ List.mem_cons_self

/-! ### Stores -/

variable {Tid : Type} [DecidableEq Tid] {cls : QueueClass} {s next : State Tid} {t : Tid}

omit [DecidableEq Tid] in
theorem State.write_self {topicId idx : Nat} {observer : Observer} {member : Member} :
    ((s.write topicId idx observer member).m_topics topicId).observers =
      Function.update (s.m_topics topicId).observers idx
        (member.copy observer ((s.m_topics topicId).observers idx)) := by
  simp only [State.write, State.setTopic, Function.update_self]

omit [DecidableEq Tid] in
theorem State.write_entry {topicId idx : Nat} {observer : Observer} {member : Member} :
    ((s.write topicId idx observer member).m_topics topicId).observers idx =
      member.copy observer ((s.m_topics topicId).observers idx) := by
  rw [State.write_self, Function.update_self]

omit [DecidableEq Tid] in
theorem State.write_other {topicId topic idx : Nat} {observer : Observer} {member : Member}
    (hne : topic ≠ topicId) :
    (s.write topicId idx observer member).m_topics topic = s.m_topics topic := by
  simp only [State.write, State.setTopic, Function.update_of_ne hne]

omit [DecidableEq Tid] in
theorem State.write_count {topicId idx : Nat} {observer : Observer} {member : Member}
    (topic : Nat) : ((s.write topicId idx observer member).m_topics topic).count =
      (s.m_topics topic).count := by
  by_cases heq : topic = topicId
  · subst heq
    simp only [State.write, State.setTopic, Function.update_self]
  · rw [State.write_other heq]

theorem State.publish_count {topicId idx : Nat} {observer : Observer} :
    ((s.publish t topicId observer idx).m_topics topicId).count = idx + 1 := by
  simp only [State.publish, State.addReturn, State.goto, State.setTopic, Function.update_self]

theorem State.publish_other {topicId topic idx : Nat} {observer : Observer}
    (hne : topic ≠ topicId) :
    (s.publish t topicId observer idx).m_topics topic = s.m_topics topic := by
  simp only [State.publish, State.addReturn, State.goto, State.setTopic, Function.update_of_ne hne]

theorem State.publish_observers {topicId idx : Nat} {observer : Observer} (topic : Nat) :
    ((s.publish t topicId observer idx).m_topics topic).observers =
      (s.m_topics topic).observers := by
  by_cases heq : topic = topicId
  · subst heq
    simp only [State.publish, State.addReturn, State.goto, State.setTopic, Function.update_self]
  · rw [State.publish_other heq]

/-! ### Whatever overlaps -/

/-- The member comes from a call of `addObserver` for the topic. -/
def State.Given (s : State Tid) (topicId : Nat) (member : Member) (observer : Observer) : Prop :=
  ∃ source, (topicId, source) ∈ s.addCalls ∧ member.value observer = member.value source

def State.Stored (s : State Tid) (topicId i : Nat) (member : Member) : Prop :=
  s.Given topicId member ((s.m_topics topicId).observers i)

/-- The entries that a thread goes by have been written. -/
def Pc.Filled (cls : QueueClass) (s : State Tid) : Pc → Prop
  | .idle => True
  | .addLoad topicId observer => topicId < cls.maxTopics ∧ (topicId, observer) ∈ s.addCalls
  | .addWrite topicId observer idx member =>
      (topicId < cls.maxTopics ∧ (topicId, observer) ∈ s.addCalls ∧ idx < cls.maxObservers) ∧
        (∀ i < idx, ∀ member, s.Stored topicId i member) ∧
        (member = .userData → s.Stored topicId idx .callback)
  | .addStore topicId observer idx =>
      (topicId < cls.maxTopics ∧ (topicId, observer) ∈ s.addCalls ∧ idx < cls.maxObservers) ∧
        ∀ i < idx + 1, ∀ member, s.Stored topicId i member
  | .postLoad topicId _ _ => topicId < cls.maxTopics
  | .postCopy topicId count observers rest _ =>
      (topicId < cls.maxTopics ∧ count ≤ cls.maxObservers) ∧
        (∀ cell ∈ rest, cell.1 < count) ∧ (∀ i < count, ∀ member, s.Stored topicId i member) ∧
        ∀ i < count, ∀ member, (i, member) ∈ rest ∨ s.Given topicId member (observers i)

structure Filled (cls : QueueClass) (s : State Tid) : Prop where
  limit : ∀ topicId, (s.m_topics topicId).count ≤ cls.maxObservers
  entries : ∀ topicId, ∀ i < (s.m_topics topicId).count, ∀ member, s.Stored topicId i member
  threads : ∀ t, (s.pc t).Filled cls s
  posted : ∀ post ∈ s.posted, ∀ observer ∈ post.observers, ∀ member,
    s.Given post.topicId member observer

/-- What has been written stays so. -/
structure Keeps (s next : State Tid) : Prop where
  calls : s.addCalls ⊆ next.addCalls
  stored : ∀ topicId i member, s.Stored topicId i member → next.Stored topicId i member

omit [DecidableEq Tid] in
theorem State.Given.mono {topicId : Nat} {member : Member} {observer : Observer}
    (h : s.Given topicId member observer) (hcalls : s.addCalls ⊆ next.addCalls) :
    next.Given topicId member observer := by
  obtain ⟨source, hmem, hvalue⟩ := h
  exact ⟨source, hcalls hmem, hvalue⟩

omit [DecidableEq Tid] in
theorem Keeps.of_topics (hcalls : s.addCalls ⊆ next.addCalls)
    (htopics : ∀ topicId, (next.m_topics topicId).observers = (s.m_topics topicId).observers) :
    Keeps s next where
  calls := hcalls
  stored topicId i member h := by
    rw [State.Stored, htopics]
    exact h.mono hcalls

omit [DecidableEq Tid] in
theorem Pc.Filled.mono {pc : Pc} (h : pc.Filled cls s) (hkeeps : Keeps s next) :
    pc.Filled cls next := by
  cases pc with
  | idle => trivial
  | addLoad topicId observer => exact ⟨h.1, hkeeps.calls h.2⟩
  | addWrite topicId observer idx member =>
      exact ⟨⟨h.1.1, hkeeps.calls h.1.2.1, h.1.2.2⟩,
        fun i hlt member => hkeeps.stored _ _ _ (h.2.1 i hlt member),
        fun heq => hkeeps.stored _ _ _ (h.2.2 heq)⟩
  | addStore topicId observer idx =>
      exact ⟨⟨h.1.1, hkeeps.calls h.1.2.1, h.1.2.2⟩,
        fun i hlt member => hkeeps.stored _ _ _ (h.2 i hlt member)⟩
  | postLoad topicId old before => exact h
  | postCopy topicId count observers rest before =>
      obtain ⟨hbounds, hrest, hstored, hcopied⟩ := h
      exact ⟨hbounds, hrest, fun i hlt member => hkeeps.stored _ _ _ (hstored i hlt member),
        fun i hlt member => (hcopied i hlt member).imp_right fun h => h.mono hkeeps.calls⟩

/-- A step of `t`. -/
theorem Filled.update {pc : Pc} (h : Filled cls s) (hkeeps : Keeps s next)
    (hpc : next.pc = Function.update s.pc t pc) (hself : pc.Filled cls next)
    (hlimit : ∀ topicId, (next.m_topics topicId).count ≤ cls.maxObservers)
    (hentries : ∀ topicId, ∀ i < (next.m_topics topicId).count,
      i < (s.m_topics topicId).count ∨ ∀ member, next.Stored topicId i member)
    (hposted : ∀ post ∈ next.posted, post ∈ s.posted ∨
      ∀ observer ∈ post.observers, ∀ member, next.Given post.topicId member observer) :
    Filled cls next where
  limit := hlimit
  entries topicId i hlt member := by
    rcases hentries topicId i hlt with hold | hnew
    · exact hkeeps.stored _ _ _ (h.entries topicId i hold member)
    · exact hnew member
  threads other := by
    rw [hpc]
    by_cases heq : other = t
    · rw [heq, Function.update_self]
      exact hself
    · rw [Function.update_of_ne heq]
      exact (h.threads other).mono hkeeps
  posted post hmem := by
    rcases hposted post hmem with hold | hnew
    · exact fun observer hobserver member =>
        (h.posted post hold observer hobserver member).mono hkeeps.calls
    · exact hnew

/-- A step of `t` that changes no entry. -/
theorem Filled.goto {pc : Pc} (h : Filled cls s) (htopics : next.m_topics = s.m_topics)
    (hcalls : s.addCalls ⊆ next.addCalls) (hpc : next.pc = Function.update s.pc t pc)
    (hself : pc.Filled cls next)
    (hposted : ∀ post ∈ next.posted, post ∈ s.posted ∨
      ∀ observer ∈ post.observers, ∀ member, next.Given post.topicId member observer) :
    Filled cls next :=
  h.update (Keeps.of_topics hcalls fun topicId => by rw [htopics]) hpc hself
    (fun topicId => htopics ▸ h.limit topicId) (fun topicId i hlt => Or.inl (htopics ▸ hlt)) hposted

/-- The entry of `t` is written, member by member. -/
theorem write_keeps {topicId : Nat} {observer : Observer} (idx : Nat) (member : Member) (t : Tid)
    (pc : Pc) (hmem : (topicId, observer) ∈ s.addCalls) :
    Keeps s ((s.write topicId idx observer member).goto t pc) ∧
      ((s.write topicId idx observer member).goto t pc).Stored topicId idx member := by
  have hentry : (((s.write topicId idx observer member).goto t pc).m_topics topicId).observers =
      Function.update (s.m_topics topicId).observers idx
        (member.copy observer ((s.m_topics topicId).observers idx)) := State.write_self
  have hself : ((s.write topicId idx observer member).goto t pc).Stored topicId idx member := by
    refine ⟨observer, hmem, ?_⟩
    rw [hentry, Function.update_self]
    exact member.value_copy _ _
  refine ⟨⟨List.Subset.refl _, fun topic i other h => ?_⟩, hself⟩
  obtain ⟨source, hsource, hvalue⟩ := h
  by_cases htopic : topic = topicId
  · subst htopic
    by_cases hindex : i = idx
    · subst hindex
      by_cases hother : other = member
      · rw [hother]
        exact hself
      · refine ⟨source, hsource, ?_⟩
        rw [hentry, Function.update_self, Member.value_copy_ne hother]
        exact hvalue
    · refine ⟨source, hsource, ?_⟩
      rw [hentry, Function.update_of_ne hindex]
      exact hvalue
  · refine ⟨source, hsource, ?_⟩
    have hsame : ((s.write topicId idx observer member).goto t pc).m_topics topic =
        s.m_topics topic := State.write_other htopic
    rw [hsame]
    exact hvalue

theorem Filled.write {topicId idx : Nat} {observer : Observer} {member : Member} {pc : Pc}
    (h : Filled cls s) (hmem : (topicId, observer) ∈ s.addCalls)
    (hself : pc.Filled cls ((s.write topicId idx observer member).goto t pc)) :
    Filled cls ((s.write topicId idx observer member).goto t pc) := by
  have hcount : ∀ topic, (((s.write topicId idx observer member).goto t pc).m_topics topic).count =
      (s.m_topics topic).count := State.write_count
  exact h.update (write_keeps idx member t pc hmem).1 rfl hself
    (fun topic => (hcount topic).symm ▸ h.limit topic)
    (fun topic i hlt => Or.inl ((hcount topic) ▸ hlt)) fun post hpost => Or.inl hpost

theorem Filled.run (h : Filled cls s) (hstep : run cls s t = some next) : Filled cls next := by
  have hthread := h.threads t
  simp only [Publication.run] at hstep
  split at hstep
  · cases hstep
  · next topicId observer hpc =>
    rw [hpc] at hthread
    split at hstep
    · obtain rfl := Option.some.inj hstep
      exact h.goto rfl (List.Subset.refl _) rfl trivial fun post hmem => Or.inl hmem
    · next hroom =>
      obtain rfl := Option.some.inj hstep
      refine h.goto rfl (List.Subset.refl _) rfl ?_ fun post hmem => Or.inl hmem
      exact ⟨⟨hthread.1, hthread.2, Nat.lt_of_not_le hroom⟩,
        fun i hlt member => h.entries topicId i hlt member, fun heq => by cases heq⟩
  · next topicId observer idx hpc =>
    rw [hpc] at hthread
    obtain ⟨hcall, hbelow, -⟩ := hthread
    obtain rfl := Option.some.inj hstep
    obtain ⟨hkeeps, hself⟩ := write_keeps idx .callback t (.addWrite topicId observer idx .userData)
      hcall.2.1
    exact h.write hcall.2.1
      ⟨hcall, fun i hlt member => hkeeps.stored _ _ _ (hbelow i hlt member), fun _ => hself⟩
  · next topicId observer idx hpc =>
    rw [hpc] at hthread
    obtain ⟨hcall, hbelow, hcallback⟩ := hthread
    obtain rfl := Option.some.inj hstep
    obtain ⟨hkeeps, hself⟩ := write_keeps idx .userData t (.addStore topicId observer idx) hcall.2.1
    refine h.write hcall.2.1 ⟨hcall, fun i hlt member => ?_⟩
    rcases Nat.lt_succ_iff_lt_or_eq.mp hlt with hlt | rfl
    · exact hkeeps.stored _ _ _ (hbelow i hlt member)
    · cases member with
      | callback => exact hkeeps.stored _ _ _ (hcallback rfl)
      | userData => exact hself
  · next topicId observer idx hpc =>
    rw [hpc] at hthread
    obtain ⟨hcall, hstored⟩ := hthread
    obtain rfl := Option.some.inj hstep
    have hkeeps : Keeps s (s.publish t topicId observer idx) :=
      Keeps.of_topics (List.Subset.refl _) State.publish_observers
    refine h.update hkeeps rfl trivial (fun topic => ?_) (fun topic i hlt => ?_)
      fun post hmem => Or.inl hmem
    · by_cases heq : topic = topicId
      · rw [heq, State.publish_count]
        exact hcall.2.2
      · rw [State.publish_other heq]
        exact h.limit topic
    · by_cases heq : topic = topicId
      · rw [heq, State.publish_count] at hlt
        exact Or.inr fun member => heq ▸ hkeeps.stored _ _ _ (hstored i hlt member)
      · rw [State.publish_other heq] at hlt
        exact Or.inl hlt
  · next topicId old before hpc =>
    rw [hpc] at hthread
    split at hstep
    · obtain rfl := Option.some.inj hstep
      refine h.goto rfl (List.Subset.refl _) rfl trivial fun post hmem => ?_
      rcases List.mem_append.mp hmem with hold | hnew
      · exact Or.inl hold
      · rw [List.mem_singleton.mp hnew]
        exact Or.inr fun observer hobserver => absurd hobserver List.not_mem_nil
    · obtain rfl := Option.some.inj hstep
      refine h.goto rfl (List.Subset.refl _) rfl ?_ fun post hmem => Or.inl hmem
      exact ⟨⟨hthread, h.limit topicId⟩, fun cell hmem => mem_cells.mp hmem,
        fun i hlt member => h.entries topicId i hlt member,
        fun i hlt member => Or.inl (mem_cells.mpr hlt)⟩
  · next topicId count observers rest before hpc =>
    rw [hpc] at hthread
    obtain ⟨-, -, -, hcopied⟩ := hthread
    split at hstep
    · next hdone =>
      obtain rfl := Option.some.inj hstep
      refine h.goto rfl (List.Subset.refl _) rfl trivial fun post hmem => ?_
      rcases List.mem_append.mp hmem with hold | hnew
      · exact Or.inl hold
      · rw [List.mem_singleton.mp hnew]
        refine Or.inr fun observer hobserver member => ?_
        obtain ⟨i, hrange, rfl⟩ := List.mem_map.mp hobserver
        rcases hcopied i (List.mem_range.mp hrange) member with hrest | hgiven
        · rw [hdone] at hrest
          cases hrest
        · exact hgiven
    · cases hstep

theorem Filled.step {action : Action Tid} (h : Filled cls s)
    (hstep : step cls s action = some next) : Filled cls next := by
  cases action with
  | addObserver t topicId observer =>
      simp only [Publication.step] at hstep
      split at hstep
      · have hcalls : s.addCalls ⊆ s.addCalls ++ [(topicId, observer)] :=
          List.subset_append_left _ _
        split at hstep
        · obtain rfl := Option.some.inj hstep
          exact h.goto rfl hcalls rfl trivial fun post hmem => Or.inl hmem
        · next hroom =>
          obtain rfl := Option.some.inj hstep
          refine h.goto rfl hcalls rfl ?_ fun post hmem => Or.inl hmem
          exact ⟨Nat.lt_of_not_le hroom, List.mem_append_right _ (List.mem_singleton_self _)⟩
      · cases hstep
  | post t old topicId =>
      simp only [Publication.step] at hstep
      split at hstep
      · split at hstep
        · exact (Option.some.inj hstep) ▸ h
        · next hroom =>
          obtain rfl := Option.some.inj hstep
          exact h.goto rfl (List.Subset.refl _) rfl (Nat.lt_of_not_le hroom)
            fun post hmem => Or.inl hmem
      · cases hstep
  | run t => exact h.run hstep
  | copy t cell =>
      obtain ⟨i, member⟩ := cell
      simp only [Publication.step] at hstep
      split at hstep
      · next topicId count observers rest before hpc =>
        have hthread := h.threads t
        rw [hpc] at hthread
        obtain ⟨hbounds, hrest, hstored, hcopied⟩ := hthread
        split at hstep
        · next hmem =>
          obtain rfl := Option.some.inj hstep
          refine h.goto rfl (List.Subset.refl _) rfl
            ⟨hbounds, fun cell hcell => hrest cell (List.mem_of_mem_erase hcell), hstored, ?_⟩
            fun post hpost => Or.inl hpost
          intro j hlt other
          by_cases heq : (j, other) = (i, member)
          · obtain ⟨rfl, rfl⟩ := Prod.mk.inj heq
            refine Or.inr ?_
            obtain ⟨source, hsource, hvalue⟩ := hstored j (hrest _ hmem) other
            refine ⟨source, hsource, ?_⟩
            rw [Function.update_self, Member.value_copy]
            exact hvalue
          · rcases hcopied j hlt other with hleft | ⟨source, hsource, hvalue⟩
            · exact Or.inl ((List.mem_erase_of_ne heq).mpr hleft)
            · refine Or.inr ⟨source, hsource, ?_⟩
              rw [copied_of_ne heq]
              exact hvalue
        · cases hstep
      · cases hstep

omit [DecidableEq Tid] in
theorem filled_init : Filled cls (init : State Tid) where
  limit _ := Nat.zero_le _
  entries _ i hlt := absurd hlt (Nat.not_lt_zero i)
  threads _ := trivial
  posted _ hmem := absurd hmem List.not_mem_nil

omit [DecidableEq Tid] in
theorem Filled.initialised (h : Filled cls s) : Initialised cls s where
  inBounds t topicId cell haccess := by
    have hthread := h.threads t
    cases hpc : s.pc t with
    | addWrite topic observer idx member =>
        rw [hpc] at hthread haccess
        rcases haccess with ⟨rfl, rfl⟩ | hreads
        · exact ⟨hthread.1.1, hthread.1.2.2⟩
        · cases hreads
    | postCopy topic count observers rest before =>
        rw [hpc] at hthread haccess
        rcases haccess with hwrites | ⟨rfl, hmem⟩
        · cases hwrites
        · exact ⟨hthread.1.1, Nat.lt_of_lt_of_le (hthread.2.1 cell hmem) hthread.1.2⟩
    | idle | addLoad _ _ | addStore _ _ _ | postLoad _ _ _ =>
        rw [hpc] at haccess
        rcases haccess with hnone | hnone <;> cases hnone
  given := h.posted

/-- Two registrations that overlap: a post copies the callback of one with the user data
of the other. -/
def overlappingAdds : List (Action Bool) :=
  [.addObserver false 3 ⟨1, 10⟩, .run false, .addObserver true 3 ⟨2, 20⟩, .run true, .run false,
    .run true, .run true, .run false, .run true, .run false,
    .post true (fun _ => ⟨0, 0⟩) 3, .run true, .copy true (0, .callback), .copy true (0, .userData),
    .run true]

theorem torn_observer : ∃ s, (machine Bool .eventQueueBroadcastFast).Reachable s ∧
    s.posted.map Posted.observers = [[⟨2, 10⟩]] := by
  obtain ⟨s, hreach, htest⟩ := Machine.exists_reachable_of_run
    (machine Bool .eventQueueBroadcastFast) overlappingAdds
    (fun s => s.posted.map Posted.observers = [[⟨2, 10⟩]]) (by decide +kernel)
  exact ⟨s, hreach, of_decide_eq_true htest⟩

end MessageCenter.SnapshotQueue.Publication
