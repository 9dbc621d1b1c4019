import MessageCenter.SnapshotQueue.PublishedEntries

/-!
# Registrations that do not overlap

With one call of `addObserver` for a topic at a time, the entries below `count` are the registered
observers and are not written again.  A thread writes the entry behind them, and a post reads only
those that it has counted, so no two accesses race.
-/

namespace MessageCenter.SnapshotQueue.Publication

open Concurrency Concurrent

variable {Tid : Type} [DecidableEq Tid] {cls : QueueClass} {s next : State Tid} {t : Tid}

/-! ### Answers -/

omit [DecidableEq Tid] in
theorem registered_append (returns : List AddReturn) (ret : AddReturn) (topicId : Nat) :
    registered (returns ++ [ret]) topicId = registered returns topicId ++
      if ret.result = true ∧ ret.topicId = topicId then [ret.observer] else [] := by
  rw [registered, List.filter_append, List.map_append]
  by_cases hret : ret.result = true ∧ ret.topicId = topicId
  · simp [registered, hret]
  · simp [registered, hret]

theorem Answered.append {returns : List AddReturn} {ret : AddReturn} (h : Answered cls returns)
    (hret : ret.result = true ↔ ret.topicId < cls.maxTopics ∧
      (registered returns ret.topicId).length < cls.maxObservers) :
    Answered cls (returns ++ [ret]) := by
  intro before other after heq
  rcases List.eq_nil_or_concat after with rfl | ⟨rest, last, rfl⟩
  · obtain ⟨rfl, hlast⟩ := List.append_inj' heq rfl
    obtain rfl := (List.cons.inj hlast).1
    exact hret
  · rw [List.concat_eq_append, ← List.cons_append, ← List.append_assoc] at heq
    obtain ⟨hinit, -⟩ := List.append_inj' heq rfl
    exact h before other rest hinit

/-! ### The invariant -/

/-- A thread goes by the observers that are registered. -/
def Pc.Fits (s : State Tid) : Pc → Prop
  | .idle | .addLoad _ _ => True
  | .addWrite topicId observer idx member =>
      idx = (registered s.addReturns topicId).length ∧
        (member = .userData → ((s.m_topics topicId).observers idx).callback = observer.callback)
  | .addStore topicId observer idx =>
      idx = (registered s.addReturns topicId).length ∧
        (s.m_topics topicId).observers idx = observer
  | .postLoad topicId _ before => before <+: registered s.addReturns topicId
  | .postCopy topicId count observers rest before =>
      (before <+: registered s.addReturns topicId ∧ before.length ≤ count ∧
        count ≤ (registered s.addReturns topicId).length) ∧
        ∀ i < count, ∀ member : Member, (i, member) ∈ rest ∨
          member.value (observers i) = member.value ((s.m_topics topicId).observers i)

structure Inv (cls : QueueClass) (s : State Tid) : Prop where
  filled : Filled cls s
  count : ∀ topicId, (s.m_topics topicId).count = (registered s.addReturns topicId).length
  entries : ∀ topicId, (List.range (s.m_topics topicId).count).map (s.m_topics topicId).observers =
    registered s.addReturns topicId
  apart : ∀ t u topicId, (s.pc t).adding = some topicId → (s.pc u).adding = some topicId → t = u
  threads : ∀ t, (s.pc t).Fits s
  posted : ∀ post ∈ s.posted, post.before <+: post.observers ∧
    post.observers <+: registered s.addReturns post.topicId
  answered : Answered cls s.addReturns

/-- What a step of `t` does to the observers that are registered. -/
structure Grows (s next : State Tid) (t : Tid) : Prop where
  registered : ∀ topicId,
    registered s.addReturns topicId <+: registered next.addReturns topicId
  entries : ∀ topicId, ∀ i < (Publication.registered s.addReturns topicId).length,
    (next.m_topics topicId).observers i = (s.m_topics topicId).observers i
  others : ∀ topicId, (s.pc t).adding ≠ some topicId →
    next.m_topics topicId = s.m_topics topicId ∧
      Publication.registered next.addReturns topicId = Publication.registered s.addReturns topicId

omit [DecidableEq Tid] in
theorem Pc.Fits.mono {pc : Pc} (h : pc.Fits s) (hgrows : Grows s next t)
    (hother : ∀ topicId, pc.adding = some topicId → (s.pc t).adding ≠ some topicId) :
    pc.Fits next := by
  cases pc with
  | idle | addLoad topicId observer => trivial
  | addWrite topicId observer idx member =>
      obtain ⟨htopics, hregistered⟩ := hgrows.others topicId (hother topicId rfl)
      rw [Pc.Fits, htopics, hregistered]
      exact h
  | addStore topicId observer idx =>
      obtain ⟨htopics, hregistered⟩ := hgrows.others topicId (hother topicId rfl)
      rw [Pc.Fits, htopics, hregistered]
      exact h
  | postLoad topicId old before => exact h.trans (hgrows.registered topicId)
  | postCopy topicId count observers rest before =>
      obtain ⟨⟨hbefore, hlength, hcount⟩, hcopied⟩ := h
      refine ⟨⟨hbefore.trans (hgrows.registered topicId), hlength,
        Nat.le_trans hcount (hgrows.registered topicId).length_le⟩, fun i hlt member => ?_⟩
      rw [hgrows.entries topicId i (Nat.lt_of_lt_of_le hlt hcount)]
      exact hcopied i hlt member

/-- A step of `t`. -/
theorem Inv.update {pc : Pc} (h : Inv cls s) (hfilled : Filled cls next)
    (hgrows : Grows s next t) (hpc : next.pc = Function.update s.pc t pc)
    (hadding : ∀ topicId, pc.adding = some topicId →
      (s.pc t).adding = some topicId ∨ ∀ u, (s.pc u).adding ≠ some topicId)
    (hself : pc.Fits next)
    (hentries : ∀ topicId, (s.pc t).adding = some topicId →
      (next.m_topics topicId).count = (registered next.addReturns topicId).length ∧
        (List.range (next.m_topics topicId).count).map (next.m_topics topicId).observers =
          registered next.addReturns topicId)
    (hposted : ∀ post ∈ next.posted, post ∈ s.posted ∨ (post.before <+: post.observers ∧
      post.observers <+: registered next.addReturns post.topicId))
    (hanswered : Answered cls next.addReturns) : Inv cls next where
  filled := hfilled
  count topicId := by
    by_cases htopic : (s.pc t).adding = some topicId
    · exact (hentries topicId htopic).1
    · obtain ⟨htopics, hregistered⟩ := hgrows.others topicId htopic
      rw [htopics, hregistered]
      exact h.count topicId
  entries topicId := by
    by_cases htopic : (s.pc t).adding = some topicId
    · exact (hentries topicId htopic).2
    · obtain ⟨htopics, hregistered⟩ := hgrows.others topicId htopic
      rw [htopics, hregistered]
      exact h.entries topicId
  apart a b topicId ha hb := by
    rw [hpc] at ha hb
    by_cases hat : a = t <;> by_cases hbt : b = t
    · rw [hat, hbt]
    · rw [hat, Function.update_self] at ha
      rw [Function.update_of_ne hbt] at hb
      rcases hadding topicId ha with hmine | hnone
      · exact hat.trans (h.apart t b topicId hmine hb)
      · exact absurd hb (hnone b)
    · rw [hbt, Function.update_self] at hb
      rw [Function.update_of_ne hat] at ha
      rcases hadding topicId hb with hmine | hnone
      · exact (h.apart a t topicId ha hmine).trans hbt.symm
      · exact absurd ha (hnone a)
    · rw [Function.update_of_ne hat] at ha
      rw [Function.update_of_ne hbt] at hb
      exact h.apart a b topicId ha hb
  threads other := by
    rw [hpc]
    by_cases heq : other = t
    · rw [heq, Function.update_self]
      exact hself
    · rw [Function.update_of_ne heq]
      exact (h.threads other).mono hgrows fun topicId hmine hyours =>
        heq (h.apart other t topicId hmine hyours)
  posted post hmem := by
    rcases hposted post hmem with hold | hnew
    · obtain ⟨hbefore, hregistered⟩ := h.posted post hold
      exact ⟨hbefore, hregistered.trans (hgrows.registered post.topicId)⟩
    · exact hnew
  answered := hanswered

/-- A step of `t` that leaves the observers as they are. -/
theorem Inv.goto {pc : Pc} (h : Inv cls s) (hfilled : Filled cls next)
    (htopics : next.m_topics = s.m_topics)
    (hregistered : ∀ topicId, registered next.addReturns topicId = registered s.addReturns topicId)
    (hpc : next.pc = Function.update s.pc t pc)
    (hadding : ∀ topicId, pc.adding = some topicId →
      (s.pc t).adding = some topicId ∨ ∀ u, (s.pc u).adding ≠ some topicId)
    (hself : pc.Fits next)
    (hposted : ∀ post ∈ next.posted, post ∈ s.posted ∨ (post.before <+: post.observers ∧
      post.observers <+: registered next.addReturns post.topicId))
    (hanswered : Answered cls next.addReturns) : Inv cls next := by
  have hgrows : Grows s next t :=
    { registered := fun topicId => hregistered topicId ▸ List.prefix_refl _
      entries := fun topicId i _ => by rw [htopics]
      others := fun topicId _ => ⟨by rw [htopics], hregistered topicId⟩ }
  refine h.update hfilled hgrows hpc hadding hself (fun topicId _ => ?_) hposted hanswered
  rw [htopics, hregistered]
  exact ⟨h.count topicId, h.entries topicId⟩

/-- The entry of `t` is behind those that are registered. -/
theorem Inv.write {topicId idx : Nat} {observer : Observer} {member : Member} {pc : Pc}
    (h : Inv cls s) (hadds : (s.pc t).adding = some topicId)
    (hidx : idx = (registered s.addReturns topicId).length)
    (hfilled : Filled cls ((s.write topicId idx observer member).goto t pc))
    (hadding : pc.adding = some topicId)
    (hself : pc.Fits ((s.write topicId idx observer member).goto t pc)) :
    Inv cls ((s.write topicId idx observer member).goto t pc) := by
  have hbelow : ∀ i < idx,
      (((s.write topicId idx observer member).goto t pc).m_topics topicId).observers i =
        (s.m_topics topicId).observers i := by
    intro i hlt
    exact (congrFun State.write_self i).trans (Function.update_of_ne (Nat.ne_of_lt hlt) ..)
  have hcount : ∀ topic, (((s.write topicId idx observer member).goto t pc).m_topics topic).count =
      (s.m_topics topic).count := State.write_count
  have hgrows : Grows s ((s.write topicId idx observer member).goto t pc) t :=
    { registered := fun topic => List.prefix_refl _
      entries := by
        intro topic i hlt
        by_cases heq : topic = topicId
        · subst heq
          exact hbelow i (hidx ▸ hlt)
        · exact congrArg (fun topic : TopicObservers => topic.observers i) (State.write_other heq)
      others := by
        intro topic hne
        have heq : topic ≠ topicId := fun heq => hne (heq ▸ hadds)
        exact ⟨State.write_other heq, rfl⟩ }
  refine h.update hfilled hgrows rfl (fun topic hpc => Or.inl ?_) hself (fun topic hmine => ?_)
    (fun post hmem => Or.inl hmem) h.answered
  · rw [hadds, ← hadding, hpc]
  · obtain rfl : topicId = topic := Option.some.inj (hadds.symm.trans hmine)
    refine ⟨(hcount topicId).trans (h.count topicId), ?_⟩
    rw [hcount]
    refine Eq.trans (List.map_congr_left fun i hi => ?_) (h.entries topicId)
    exact hbelow i (hidx ▸ h.count topicId ▸ List.mem_range.mp hi)

/-- The observer of `t` is registered. -/
theorem Inv.publish {topicId idx : Nat} {observer : Observer} (h : Inv cls s)
    (hpc : s.pc t = .addStore topicId observer idx)
    (hfilled : Filled cls (s.publish t topicId observer idx)) :
    Inv cls (s.publish t topicId observer idx) := by
  have hfits := h.threads t
  have hbound := h.filled.threads t
  rw [hpc] at hfits hbound
  obtain ⟨hidx, hentry⟩ := hfits
  obtain ⟨⟨htopic, -, hroom⟩, -⟩ := hbound
  have hadds : (s.pc t).adding = some topicId := by rw [hpc]; rfl
  have hregistered : ∀ topic, registered (s.publish t topicId observer idx).addReturns topic =
      registered s.addReturns topic ++ if topicId = topic then [observer] else [] := by
    intro topic
    rw [State.publish, State.addReturn, registered_append]
    simp [State.setTopic]
  have hgrows : Grows s (s.publish t topicId observer idx) t :=
    { registered := fun topic => hregistered topic ▸ List.prefix_append _ _
      entries := fun topic i _ => congrFun (State.publish_observers topic) i
      others := by
        intro topic hne
        have heq : topic ≠ topicId := fun heq => hne (heq ▸ hadds)
        refine ⟨State.publish_other heq, ?_⟩
        rw [hregistered, if_neg (Ne.symm heq), List.append_nil] }
  refine h.update hfilled hgrows rfl (fun topic hnone => by cases hnone) trivial
    (fun topic hmine => ?_) (fun post hmem => Or.inl hmem) (h.answered.append ?_)
  · obtain rfl : topicId = topic := Option.some.inj (hadds.symm.trans hmine)
    rw [hregistered, if_pos rfl, State.publish_count, State.publish_observers]
    refine ⟨by rw [List.length_append, ← hidx]; rfl, ?_⟩
    rw [List.range_succ, List.map_append, List.map_singleton, hentry, ← h.entries topicId,
      h.count topicId, hidx]
  · exact iff_of_true rfl ⟨htopic, hidx ▸ hroom⟩

theorem Inv.run (h : Inv cls s) (hstep : run cls s t = some next) : Inv cls next := by
  have hfilled := h.filled.run hstep
  have hthread := h.threads t
  simp only [Publication.run] at hstep
  split at hstep
  · cases hstep
  · next topicId observer hpc =>
    split at hstep
    · next hfull =>
      obtain rfl := Option.some.inj hstep
      have hregistered : ∀ topic, registered (s.addReturn t topicId observer false).addReturns topic =
          registered s.addReturns topic := by
        intro topic
        rw [State.addReturn, registered_append]
        simp
      refine h.goto hfilled rfl hregistered rfl (fun topic hnone => by cases hnone) trivial
        (fun post hmem => Or.inl hmem) (h.answered.append (iff_of_false Bool.false_ne_true ?_))
      rintro ⟨-, hroom⟩
      exact absurd (h.count topicId ▸ hfull) (Nat.not_le_of_lt hroom)
    · obtain rfl := Option.some.inj hstep
      refine h.goto hfilled rfl (fun _ => rfl) rfl (fun topic hadding => Or.inl ?_)
        ⟨h.count topicId, fun heq => by cases heq⟩ (fun post hmem => Or.inl hmem) h.answered
      rw [hpc]
      exact hadding
  · next topicId observer idx hpc =>
    rw [hpc] at hthread
    obtain rfl := Option.some.inj hstep
    refine h.write (by rw [hpc]; rfl) hthread.1 hfilled rfl ⟨hthread.1, fun _ => ?_⟩
    have hself : ((s.write topicId idx observer .callback).m_topics topicId).observers idx =
        Member.copy observer ((s.m_topics topicId).observers idx) .callback := State.write_entry
    have hcallback := congrArg Observer.callback hself
    exact hcallback
  · next topicId observer idx hpc =>
    rw [hpc] at hthread
    obtain ⟨hidx, hcallback⟩ := hthread
    obtain rfl := Option.some.inj hstep
    refine h.write (by rw [hpc]; rfl) hidx hfilled rfl ⟨hidx, ?_⟩
    have hself : ((s.write topicId idx observer .userData).m_topics topicId).observers idx =
        Member.copy observer ((s.m_topics topicId).observers idx) .userData := State.write_entry
    refine hself.trans (Member.ext_value fun member => ?_)
    cases member with
    | callback => exact hcallback rfl
    | userData => rfl
  · next topicId observer idx hpc =>
    obtain rfl := Option.some.inj hstep
    exact h.publish hpc hfilled
  · next topicId old before hpc =>
    rw [hpc] at hthread
    split at hstep
    · next hnone =>
      obtain rfl := Option.some.inj hstep
      refine h.goto hfilled rfl (fun _ => rfl) rfl (fun topic hadding => by cases hadding) trivial
        (fun post hmem => ?_) h.answered
      rcases List.mem_append.mp hmem with hold | hnew
      · exact Or.inl hold
      · rw [List.mem_singleton.mp hnew]
        have hempty : registered s.addReturns topicId = [] :=
          List.length_eq_zero_iff.mp ((h.count topicId).symm.trans hnone)
        exact Or.inr ⟨hempty ▸ hthread, List.nil_prefix⟩
    · obtain rfl := Option.some.inj hstep
      refine h.goto hfilled rfl (fun _ => rfl) rfl (fun topic hadding => by cases hadding)
        ⟨⟨hthread, ?_, ?_⟩, fun i hlt member => Or.inl (mem_cells.mpr hlt)⟩
        (fun post hmem => Or.inl hmem) h.answered
      · exact h.count topicId ▸ hthread.length_le
      · exact Nat.le_of_eq (h.count topicId)
  · next topicId count observers rest before hpc =>
    rw [hpc] at hthread
    obtain ⟨⟨hbefore, hlength, hcount⟩, hcopied⟩ := hthread
    split at hstep
    · next hdone =>
      obtain rfl := Option.some.inj hstep
      refine h.goto hfilled rfl (fun _ => rfl) rfl (fun topic hadding => by cases hadding) trivial
        (fun post hmem => ?_) h.answered
      rcases List.mem_append.mp hmem with hold | hnew
      · exact Or.inl hold
      · rw [List.mem_singleton.mp hnew]
        have hsnapshot : (List.range count).map observers =
            (registered s.addReturns topicId).take count := by
          rw [← h.entries topicId, ← List.map_take, List.take_range, h.count topicId,
            Nat.min_eq_left hcount]
          refine List.map_congr_left fun i hi => Member.ext_value fun member => ?_
          rcases hcopied i (List.mem_range.mp hi) member with hrest | hvalue
          · rw [hdone] at hrest
            cases hrest
          · exact hvalue
        refine Or.inr ⟨?_, ?_⟩
        · exact hsnapshot ▸ List.prefix_take_iff.mpr ⟨hbefore, hlength⟩
        · exact hsnapshot ▸ List.take_prefix count _
    · cases hstep

theorem Inv.step {action : Action Tid} (h : Inv cls s) (hallowed : Apart s action)
    (hstep : step cls s action = some next) : Inv cls next := by
  have hfilled := h.filled.step hstep
  cases action with
  | addObserver t topicId observer =>
      simp only [Publication.step] at hstep
      split at hstep
      · split at hstep
        · next hlarge =>
          obtain rfl := Option.some.inj hstep
          have hregistered : ∀ topic,
              registered (s.addReturns ++ [⟨topicId, observer, false⟩]) topic =
                registered s.addReturns topic := by
            intro topic
            rw [registered_append]
            simp
          refine h.goto hfilled rfl hregistered rfl (fun topic hnone => by cases hnone) trivial
            (fun post hmem => Or.inl hmem) (h.answered.append (iff_of_false Bool.false_ne_true ?_))
          rintro ⟨hsmall, -⟩
          exact absurd hlarge (Nat.not_le_of_lt hsmall)
        · obtain rfl := Option.some.inj hstep
          refine h.goto hfilled rfl (fun _ => rfl) rfl (fun topic hadding => Or.inr ?_) trivial
            (fun post hmem => Or.inl hmem) h.answered
          exact Option.some.inj hadding ▸ hallowed
      · cases hstep
  | post t old topicId =>
      simp only [Publication.step] at hstep
      split at hstep
      · split at hstep
        · exact (Option.some.inj hstep) ▸ h
        · obtain rfl := Option.some.inj hstep
          exact h.goto hfilled rfl (fun _ => rfl) rfl (fun topic hnone => by cases hnone)
            (List.prefix_refl _) (fun post hmem => Or.inl hmem) h.answered
      · cases hstep
  | run t => exact h.run hstep
  | copy t cell =>
      obtain ⟨i, member⟩ := cell
      simp only [Publication.step] at hstep
      split at hstep
      · next topicId count observers rest before hpc =>
        have hthread := h.threads t
        rw [hpc] at hthread
        obtain ⟨hbounds, hcopied⟩ := hthread
        split at hstep
        · obtain rfl := Option.some.inj hstep
          refine h.goto hfilled rfl (fun _ => rfl) rfl (fun topic hnone => by cases hnone)
            ⟨hbounds, fun j hlt other => ?_⟩ (fun post hpost => Or.inl hpost) h.answered
          by_cases heq : (j, other) = (i, member)
          · obtain ⟨rfl, rfl⟩ := Prod.mk.inj heq
            rw [Function.update_self]
            exact Or.inr (other.value_copy _ _)
          · rw [copied_of_ne heq]
            exact (hcopied j hlt other).imp_left fun hleft => (List.mem_erase_of_ne heq).mpr hleft
        · cases hstep
      · cases hstep

/-! ### The theorem -/

omit [DecidableEq Tid] in
theorem inv_init : Inv cls (init : State Tid) where
  filled := filled_init
  count _ := rfl
  entries _ := rfl
  apart _ _ _ hadding := by cases hadding
  threads _ := trivial
  posted _ hmem := absurd hmem List.not_mem_nil
  answered before ret after heq := by simp [init] at heq

omit [DecidableEq Tid] in
theorem Inv.raceFree (h : Inv cls s) : ¬ s.Race := by
  rintro ⟨t, u, topicId, cell, hne, hwrites, haccess⟩
  have hwriter := h.threads t
  cases hpc : s.pc t with
  | addWrite topic observer idx member =>
      rw [hpc] at hwrites hwriter
      obtain ⟨rfl, rfl⟩ := hwrites
      have hmine : (s.pc t).adding = some topic := by rw [hpc]; rfl
      rcases haccess with hother | hreads
      · refine hne (h.apart t u topic hmine ?_)
        cases hpcOther : s.pc u with
        | addWrite other _ _ _ =>
            rw [hpcOther] at hother
            exact congrArg some hother.1
        | idle | addLoad _ _ | addStore _ _ _ | postLoad _ _ _ | postCopy _ _ _ _ _ =>
            rw [hpcOther] at hother
            cases hother
      · have hreader := h.threads u
        have hrest := h.filled.threads u
        cases hpcOther : s.pc u with
        | postCopy other count observers rest before =>
            rw [hpcOther] at hreads hreader hrest
            obtain ⟨rfl, hmem⟩ := hreads
            have hlt : idx < count := hrest.2.1 _ hmem
            have hle : count ≤ (registered s.addReturns other).length := hreader.1.2.2
            exact absurd (hwriter.1 ▸ hlt) (Nat.not_lt_of_le hle)
        | idle | addLoad _ _ | addWrite _ _ _ _ | addStore _ _ _ | postLoad _ _ _ =>
            rw [hpcOther] at hreads
            cases hreads
  | idle | addLoad _ _ | addStore _ _ _ | postLoad _ _ _ | postCopy _ _ _ _ _ =>
      rw [hpc] at hwrites
      cases hwrites

/-- The observers of a topic in every interleaving: whatever overlaps, the threads stay inside the
arrays and no post copies a member that was not given to `addObserver`; if the registrations of
each topic do not overlap, nothing races and every post gets the observers in their order, whole
and without gap. -/
theorem observers_published (Tid : Type) [DecidableEq Tid] (cls : QueueClass) :
    (∀ s, (machine Tid cls).Reachable s → Initialised cls s) ∧
      ∀ s, (machine Tid cls).ReachableUnder Apart s → Published cls s := by
  refine ⟨fun s hreach => ?_, fun s hreach => ?_⟩
  · exact (hreach.invariant (Filled cls) filled_init fun _ _ _ h hstep => h.step hstep).initialised
  · have h : Inv cls s :=
      hreach.invariant (Inv cls) inv_init fun _ _ _ h hallowed hstep => h.step hallowed hstep
    exact ⟨h.raceFree, h.posted, h.answered⟩

/-- A post gets the observers of its topic while the thread `false` registers the second one. -/
def postDuringAdd : List (Action Bool) :=
  [.addObserver false 3 ⟨1, 10⟩, .run false, .run false, .run false, .run false,
    .addObserver false 3 ⟨2, 20⟩, .run false, .run false,
    .post true (fun _ => ⟨0, 0⟩) 3, .run true, .copy true (0, .userData), .run false,
    .copy true (0, .callback), .run false, .run true]

def apartCheck (s : State Bool) : Action Bool → Bool
  | .addObserver _ topicId _ =>
      (s.pc false).adding ≠ some topicId ∧ (s.pc true).adding ≠ some topicId
  | _ => true

theorem apart_of_apartCheck {s : State Bool} {action : Action Bool}
    (hcheck : apartCheck s action = true) : Apart s action := by
  cases action with
  | addObserver t topicId observer =>
      obtain ⟨hfalse, htrue⟩ := of_decide_eq_true hcheck
      intro u
      cases u with
      | false => exact hfalse
      | true => exact htrue
  | post _ _ _ | run _ | copy _ _ => trivial

theorem observers_published_during_add :
    ∃ s : State Bool, s.posted = [⟨3, [⟨1, 10⟩], [⟨1, 10⟩]⟩] ∧
      registered s.addReturns 3 = [⟨1, 10⟩, ⟨2, 20⟩] ∧ ¬ s.Race ∧
      Initialised .eventQueueBroadcastFast s := by
  obtain ⟨s, hreach, htest⟩ := Machine.exists_reachableUnder_of_run
    (machine Bool .eventQueueBroadcastFast) apartCheck (fun _ _ => apart_of_apartCheck)
    postDuringAdd
    (fun s => s.posted = [⟨3, [⟨1, 10⟩], [⟨1, 10⟩]⟩] ∧
      registered s.addReturns 3 = [⟨1, 10⟩, ⟨2, 20⟩]) (by decide +kernel)
  obtain ⟨hposted, hregistered⟩ := of_decide_eq_true htest
  obtain ⟨hany, hapart⟩ := observers_published Bool .eventQueueBroadcastFast
  exact ⟨s, hposted, hregistered, (hapart s hreach).raceFree, hany s hreach.reachable⟩

end MessageCenter.SnapshotQueue.Publication
