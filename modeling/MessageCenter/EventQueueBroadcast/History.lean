import MessageCenter.EventQueueBroadcast.Model

/-!
# The history of one payload

Of a trace only the events that concern one payload matter for its lifetime.
`Lifetime` is the law that such a history has to obey; the history of one
dispatch obeys it exactly when there are as many observers as references.
-/

namespace MessageCenter.EventQueueBroadcast

/-- What happens to a payload. -/
inductive Use where
  | created
  | called
  | returned
  | released
  | freed
  | dispatched
deriving DecidableEq, Repr

def DataRef.payload : DataRef → Option PayloadId
  | .managed payload => some payload
  | _ => none

def Event.use (payload : PayloadId) : Event → Option Use
  | .created other => if other = payload then some .created else none
  | .called _ _ data _ => if data.payload = some payload then some .called else none
  | .returned _ data => if data.payload = some payload then some .returned else none
  | .released other => if other = payload then some .released else none
  | .freed other => if other = payload then some .freed else none
  | .dispatched data => if data.payload = some payload then some .dispatched else none

def history (trace : List Event) (payload : PayloadId) : List Use :=
  trace.filterMap (Event.use payload)

@[simp] theorem history_append (first second : List Event) (payload : PayloadId) :
    history (first ++ second) payload = history first payload ++ history second payload :=
  List.filterMap_append

@[simp] theorem history_nil (payload : PayloadId) : history [] payload = [] := rfl

/-- The law of a payload's lifetime. -/
structure Lifetime (uses : List Use) : Prop where
  /-- after it is freed nothing happens to the payload: it is not freed again, no
  callback gets or still has its data, and nobody releases it -/
  freedLast : uses.Pairwise fun earlier later => earlier = .freed → later = .dispatched
  /-- when `dispatchOne` returns it has been freed … -/
  freedByDispatch : .dispatched ∈ uses → .freed ∈ uses
  /-- … before that return -/
  freedBefore : uses.Pairwise fun earlier later => later = .freed → earlier ≠ .dispatched

theorem lifetime_nil : Lifetime [] := ⟨List.Pairwise.nil, by simp, List.Pairwise.nil⟩

theorem lifetime_created : Lifetime [.created] :=
  ⟨List.pairwise_singleton .., by simp, List.pairwise_singleton ..⟩

/-- The uses of a payload in a loop over `observers` callbacks when `references`
are left. -/
def loopUses : Nat → Nat → List Use
  | 0, _ => []
  | observers + 1, 0 => .called :: .returned :: .released :: loopUses observers 0
  | observers + 1, 1 => .called :: .returned :: .released :: .freed :: loopUses observers 0
  | observers + 1, references + 2 =>
      .called :: .returned :: .released :: loopUses observers (references + 1)

/-- With fewer callbacks than references the payload is not freed. -/
theorem freed_not_mem_loopUses {observers references : Nat} (hless : observers < references) :
    .freed ∉ loopUses observers references := by
  fun_induction loopUses observers references with
  | case1 => simp
  | case2 observers ih => omega
  | case3 observers ih => omega
  | case4 observers references ih => simpa using ih (by omega)

/-- With as many callbacks as references the last release frees the payload. -/
theorem loopUses_exact (references : Nat) :
    ∃ uses, loopUses (references + 1) (references + 1) = uses ++ [.freed] ∧
      .freed ∉ uses ∧ .dispatched ∉ uses := by
  induction references with
  | zero => exact ⟨[.called, .returned, .released], rfl, by simp, by simp⟩
  | succ references ih =>
      obtain ⟨uses, heq, hfreed, hdispatched⟩ := ih
      refine ⟨.called :: .returned :: .released :: uses, ?_, by simpa using hfreed,
        by simpa using hdispatched⟩
      rw [loopUses, heq]
      rfl

/-- With more callbacks than references one of them gets the data after the last
reference has been released. -/
theorem loopUses_excess {observers references : Nat} (hpos : 1 ≤ references)
    (hmore : references < observers) :
    ∃ before after, loopUses observers references = before ++ .freed :: .called :: after := by
  fun_induction loopUses observers references with
  | case1 => omega
  | case2 observers ih => omega
  | case3 observers ih =>
      obtain ⟨rest, rfl⟩ : ∃ rest, observers = rest + 1 := ⟨observers - 1, by omega⟩
      exact ⟨[.called, .returned, .released], .returned :: .released :: loopUses rest 0, rfl⟩
  | case4 observers references ih =>
      obtain ⟨before, after, heq⟩ := ih (by omega) (by omega)
      refine ⟨.called :: .returned :: .released :: before, after, ?_⟩
      rw [heq]
      rfl

/-- **One dispatch.**  The lifetime law holds for a payload that is dispatched to
`observers` callbacks with `references` references exactly when the two numbers
agree. -/
theorem lifetime_dispatch_iff {observers references : Nat} (hpos : 1 ≤ references) :
    Lifetime (.created :: loopUses observers references ++ [.dispatched]) ↔
      observers = references := by
  constructor
  · intro hlife
    rcases Nat.lt_trichotomy observers references with hless | heq | hmore
    · have hmem := hlife.freedByDispatch (by simp)
      have hnot := freed_not_mem_loopUses hless
      simp [hnot] at hmem
    · exact heq
    · obtain ⟨before, after, heq⟩ := loopUses_excess hpos hmore
      have hsplit : .created :: loopUses observers references ++ [.dispatched] =
          (.created :: before) ++ .freed :: .called :: (after ++ [.dispatched]) := by
        simp [heq]
      have hlast := hlife.freedLast
      rw [hsplit, List.pairwise_append] at hlast
      have hcalled := (List.pairwise_cons.mp hlast.2.1).1 .called (List.mem_cons_self ..) rfl
      cases hcalled
  · rintro rfl
    obtain ⟨count, rfl⟩ : ∃ count, observers = count + 1 := ⟨observers - 1, by omega⟩
    obtain ⟨uses, heq, hfreed, hdispatched⟩ := loopUses_exact count
    rw [heq]
    refine ⟨?_, by simp, ?_⟩
    · have hearly : uses.Pairwise fun earlier later => earlier = Use.freed → later = .dispatched :=
        List.Pairwise.imp_of_mem (fun hearlier _ _ heq => absurd (heq ▸ hearlier) hfreed)
          (List.pairwise_of_forall (R := fun _ _ => True) (fun _ _ => trivial))
      simp only [List.cons_append, List.append_assoc, List.pairwise_cons, List.pairwise_append]
      refine ⟨by simp, hearly, by simp, ?_⟩
      rintro first hfirst second _ rfl
      exact absurd hfirst hfreed
    · have hearly : uses.Pairwise fun earlier later => later = Use.freed → earlier ≠ .dispatched :=
        List.Pairwise.imp_of_mem (fun _ hlater _ heq => absurd (heq ▸ hlater) hfreed)
          (List.pairwise_of_forall (R := fun _ _ => True) (fun _ _ => trivial))
      simp only [List.cons_append, List.append_assoc, List.pairwise_cons, List.pairwise_append]
      refine ⟨by simp, hearly, by simp, ?_⟩
      rintro first hfirst second _ _ rfl
      exact hdispatched hfirst

end MessageCenter.EventQueueBroadcast
