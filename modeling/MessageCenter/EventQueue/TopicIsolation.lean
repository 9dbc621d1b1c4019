import MessageCenter.EventQueue.OneThread

/-!
# Topics do not mix

Names are resolved in the registry, while observers and queued messages are kept
under ids.  A session is labelled with the names that observers were added under
and messages were posted under, and the labels are compared with what `Dispatch`
and the removals do.  `ClearTopics` makes the ids start over and leaves lists and
messages where they are, so the labels agree only as long as a name that gets an
id finds nothing of another name there.
-/

namespace MessageCenter.EventQueue.TopicIsolation

open Concurrency OneThread

/-! ### Labels -/

/-- `addedUnder` goes by the handles of descriptors, `postedUnder` goes along with
`m_messageQueue` (`none` for a post by id), and `current` is the label of the message
being dispatched.  `removed` are the handles that were erased. -/
structure Labelled where
  session : Session
  addedUnder : Nat → String
  postedUnder : List (Option String)
  current : Option String
  removed : List Nat

def Labelled.queue (l : Labelled) : State Unit := l.session.queue

def Labelled.init : Labelled := ⟨Session.init, fun _ => "", [], none, []⟩

/-- The labels after an action. -/
def Labelled.relabel (l : Labelled) : OneThread.Action → Labelled
  | .call (.addObserver topic _) =>
      { l with addedUnder := Function.update l.addedUnder l.queue.nextHandle topic }
  | .call (.removeObserver topic removal) =>
      { l with removed :=
          l.removed ++ (erased l.queue topic removal).map ObserverDescriptor.handle }
  | .call (.post id _ _) =>
      { l with postedUnder := l.postedUnder ++ if 0 ≤ id then [none] else [] }
  | .call (.postTopic topic _ _) =>
      { l with postedUnder :=
          l.postedUnder ++ if 0 ≤ l.queue.registry.resolveTopic topic then [some topic] else [] }
  | .dispatchNext =>
      match l.postedUnder with
      | label :: rest => { l with postedUnder := rest, current := label }
      | [] => l
  | _ => l

def Labelled.step (l : Labelled) (action : OneThread.Action) : Option Labelled :=
  (l.session.step action).map fun session => { l.relabel action with session := session }

def machine : Machine Labelled OneThread.Action := ⟨Labelled.init, Labelled.step⟩

/-! ### Isolation -/

/-- The observers that the loop of `Dispatch` has not called yet. -/
def remaining : Option Dispatching → List ObserverDescriptor
  | some (.next remaining) | some (.invoking _ remaining) => remaining
  | _ => []

/-- If `topic` gets a new id, then the observers and messages under that id are of
the same name, and the observers of that name are under that id. -/
def NewNameFits (l : Labelled) (topic : String) : Prop :=
  topic.length > 0 → l.queue.registry.m_topicsResolveMap topic = none →
    l.queue.registry.m_topicMax < MAX_TOPICS →
    (∀ observer ∈ l.queue.getObservers l.queue.registry.m_topicMax,
      l.addedUnder observer.handle = topic) ∧
    (∀ message name, (message, some name) ∈ l.queue.m_messageQueue.zip l.postedUnder →
      message.tid = l.queue.registry.m_topicMax → name = topic) ∧
    ∀ id, ∀ observer ∈ l.queue.getObservers id, l.addedUnder observer.handle = topic →
      id = l.queue.registry.m_topicMax

/-- Names that get ids fit; `AddObserver` finds a counter that has not wrapped; a
removal is made under a registered name, or under one that no observer was added
under; and a handler removes no observer that the running `Dispatch` has still to
call. -/
def KeepsNames (l : Labelled) : OneThread.Action → Prop
  | .call (.registerTopic topic) => NewNameFits l topic
  | .call (.addObserver topic _) => NewNameFits l topic ∧ l.queue.m_nextObserverId ≠ 0
  | .call (.removeObserver topic removal) =>
      (l.queue.registry.m_topicsResolveMap topic = none →
        ∀ id, ∀ observer ∈ l.queue.getObservers id, l.addedUnder observer.handle ≠ topic) ∧
      ∀ observer ∈ erased l.queue topic removal,
        observer.handle ∉ (remaining (l.queue.dispatch ())).map ObserverDescriptor.handle
  | _ => True

structure Isolated (l : Labelled) : Prop where
  /-- the observer that the loop calls next was added under the name that the message
  was posted under, and has not been removed -/
  invoked : ∀ observer rest topic, l.queue.dispatch () = some (.next (observer :: rest)) →
    l.current = some topic → l.addedUnder observer.handle = topic ∧ observer.handle ∉ l.removed
  /-- a removal under a name leaves no observer that it selects among those added
  under that name -/
  removes : ∀ topic removal next, KeepsNames l (.call (.removeObserver topic removal)) →
    l.step (.call (.removeObserver topic removal)) = some next →
    ∀ id, ∀ observer ∈ next.queue.getObservers id, next.addedUnder observer.handle = topic →
      removal.selects observer = false

/-! ### Ids have owners -/

variable {q : State Unit} {addedUnder : Nat → String} {postedUnder : List (Option String)}
  {owner : Int → String}

/-- `owner` is the one name for everything that is kept under an id. -/
structure Named (q : State Unit) (addedUnder : Nat → String) (postedUnder : List (Option String))
    (owner : Int → String) : Prop where
  registry : q.registry.Consistent
  resolves : ∀ topic id, q.registry.m_topicsResolveMap topic = some id → owner id = topic
  observers : ∀ id, ∀ observer ∈ q.getObservers id, addedUnder observer.handle = owner id
  under : ∀ topic id, q.registry.m_topicsResolveMap topic = some id →
    ∀ other, ∀ observer ∈ q.getObservers other, addedUnder observer.handle = topic → other = id
  messages : ∀ message name, (message, some name) ∈ q.m_messageQueue.zip postedUnder →
    owner message.tid = name
  labelled : postedUnder.length = q.m_messageQueue.length
  idsOnce : ∀ id, ((q.getObservers id).map ObserverDescriptor.observerId).Nodup
  idsNonzero : ∀ id, ∀ observer ∈ q.getObservers id, observer.observerId ≠ 0
  idsBelow : q.m_nextObserverId ≠ 0 → ∀ id, ∀ observer ∈ q.getObservers id,
    observer.observerId < q.m_nextObserverId
  counter : q.m_nextObserverId < 2 ^ 64

theorem named_init : Named EventQueue.init (fun _ => "") [] (fun _ => "") where
  registry := Registry.consistent_empty
  resolves _ _ hresolve := by cases hresolve
  observers _ _ hmem := absurd hmem List.not_mem_nil
  under _ _ hresolve := by cases hresolve
  messages _ _ hmem := absurd hmem List.not_mem_nil
  labelled := rfl
  idsOnce _ := List.nodup_nil
  idsNonzero _ _ hmem := absurd hmem List.not_mem_nil
  idsBelow _ _ _ hmem := absurd hmem List.not_mem_nil
  counter := by decide

theorem Named.clearTopics (hnamed : Named q addedUnder postedUnder owner) :
    Named (clearTopics q) addedUnder postedUnder owner :=
  { hnamed with
    registry := Registry.consistent_empty
    resolves := fun _ _ hresolve => by cases hresolve
    under := fun _ _ hresolve => by cases hresolve }

/-- A new name becomes the owner of its id. -/
theorem Named.registerTopic {l : Labelled} (hnamed : Named l.queue l.addedUnder l.postedUnder owner)
    {topic : String} (hfits : NewNameFits l topic) :
    ∃ owner', Named (registerTopic l.queue topic) l.addedUnder l.postedUnder owner' := by
  have hregistration := l.queue.registry.registration topic
  have hconsistent := hnamed.registry.registration hregistration
  unfold OneThread.registerTopic
  generalize l.queue.registry.registerTopic topic = result at hregistration hconsistent ⊢
  cases hregistration with
  | known id _ _ => exact ⟨owner, hnamed⟩
  | failed id _ _ => exact ⟨owner, hnamed⟩
  | new hname hunknown hroom =>
      obtain ⟨hobservers, hmessages, hunder⟩ := hfits hname hunknown hroom
      have hold : ∀ other id, other ≠ topic →
          (l.queue.registry.extend topic).m_topicsResolveMap other = some id →
          l.queue.registry.m_topicsResolveMap other = some id := by
        intro other id hne hresolve
        simpa [Registry.extend, hne] using hresolve
      have hself : ∀ id, (l.queue.registry.extend topic).m_topicsResolveMap topic = some id →
          id = l.queue.registry.m_topicMax := by
        intro id hresolve
        simpa [Registry.extend, eq_comm] using hresolve
      refine ⟨Function.update owner l.queue.registry.m_topicMax topic,
        { hnamed with
          registry := hconsistent
          resolves := fun other id hresolve => ?_
          observers := fun id observer hmem => ?_
          under := fun other id hresolve id' observer hmem hlabel => ?_
          messages := fun message name hmem => ?_ }⟩
      · by_cases heq : other = topic
        · subst heq
          rw [hself id hresolve, Function.update_self]
        · have hbefore := hold other id heq hresolve
          obtain ⟨_, hlt, hnonneg⟩ := hnamed.registry.name_of_resolve hbefore
          have hne : id ≠ l.queue.registry.m_topicMax := by omega
          rw [Function.update_of_ne hne]
          exact hnamed.resolves other id hbefore
      · by_cases heq : id = l.queue.registry.m_topicMax
        · subst heq
          rw [Function.update_self]
          exact hobservers observer hmem
        · rw [Function.update_of_ne heq]
          exact hnamed.observers id observer hmem
      · by_cases heq : other = topic
        · subst heq
          exact (hunder id' observer hmem hlabel).trans (hself id hresolve).symm
        · exact hnamed.under other id (hold other id heq hresolve) id' observer hmem hlabel
      · by_cases heq : (message.tid : Int) = l.queue.registry.m_topicMax
        · rw [heq, Function.update_self]
          exact (hmessages message name hmem (Int.ofNat_inj.mp heq)).symm
        · rw [Function.update_of_ne heq]
          exact hnamed.messages message name hmem

/-- A new descriptor under the id of its name. -/
theorem Named.store (hnamed : Named q addedUnder postedUnder owner) {next : State Unit}
    {topic : String} {id : Int} {observer : ObserverDescriptor}
    (hresolve : q.registry.m_topicsResolveMap topic = some id)
    (hold : ∀ id, ∀ observer ∈ q.getObservers id, observer.handle < q.nextHandle)
    (hcounter : q.m_nextObserverId ≠ 0) (hhandle : observer.handle = q.nextHandle)
    (hid : observer.observerId = q.m_nextObserverId) (hregistry : next.registry = q.registry)
    (hlists : next.m_topicObservers =
      Function.update q.m_topicObservers id (some (q.getObservers id ++ [observer])))
    (hmessages : next.m_messageQueue = q.m_messageQueue)
    (hnext : next.m_nextObserverId = fetchAddId q.m_nextObserverId) :
    Named next (Function.update addedUnder q.nextHandle topic) postedUnder owner := by
  have hget : ∀ other, next.getObservers other =
      if other = id then q.getObservers id ++ [observer] else q.getObservers other := by
    intro other
    by_cases heq : other = id <;> simp [State.getObservers, hlists, heq]
  have hmem : ∀ other, ∀ stored ∈ next.getObservers other,
      stored ∈ q.getObservers other ∨ other = id ∧ stored = observer := by
    intro other stored hmem
    rw [hget] at hmem
    split at hmem
    · rename_i heq
      rcases List.mem_append.mp hmem with hmem | hmem
      · exact Or.inl (heq ▸ hmem)
      · exact Or.inr ⟨heq, List.mem_singleton.mp hmem⟩
    · exact Or.inl hmem
  have hlabel : ∀ other, ∀ stored ∈ q.getObservers other,
      Function.update addedUnder q.nextHandle topic stored.handle = addedUnder stored.handle :=
    fun other stored hstored => Function.update_of_ne (Nat.ne_of_lt (hold other stored hstored)) ..
  have hnew : Function.update addedUnder q.nextHandle topic observer.handle = topic := by
    rw [hhandle, Function.update_self]
  refine ⟨hregistry ▸ hnamed.registry, hregistry ▸ hnamed.resolves, ?_, ?_,
    hmessages ▸ hnamed.messages, hmessages ▸ hnamed.labelled, ?_, ?_, ?_, ?_⟩
  · intro other stored hstored
    rcases hmem other stored hstored with hstored | ⟨rfl, rfl⟩
    · rw [hlabel other stored hstored]
      exact hnamed.observers other stored hstored
    · rw [hnew, hnamed.resolves topic other hresolve]
  · intro name id' hname other stored hstored hlabelled
    rw [hregistry] at hname
    rcases hmem other stored hstored with hstored | ⟨rfl, rfl⟩
    · rw [hlabel other stored hstored] at hlabelled
      exact hnamed.under name id' hname other stored hstored hlabelled
    · obtain rfl : topic = name := hnew.symm.trans hlabelled
      exact Option.some.inj (hresolve.symm.trans hname)
  · intro other
    rw [hget]
    split
    · rw [List.map_append, List.map_singleton]
      refine List.nodup_append.mpr ⟨hnamed.idsOnce id, List.nodup_singleton _, ?_⟩
      intro observerId hbefore given hgiven
      obtain ⟨stored, hstored, rfl⟩ := List.mem_map.mp hbefore
      rw [List.mem_singleton, hid] at hgiven
      rw [hgiven]
      exact Nat.ne_of_lt (hnamed.idsBelow hcounter id stored hstored)
    · exact hnamed.idsOnce other
  · intro other stored hstored
    rcases hmem other stored hstored with hstored | ⟨_, rfl⟩
    · exact hnamed.idsNonzero other stored hstored
    · rw [hid]
      exact hcounter
  · intro hunwrapped other stored hstored
    have hcount := hnamed.counter
    have hsucc : next.m_nextObserverId = q.m_nextObserverId + 1 := by
      rw [hnext, fetchAddId] at hunwrapped ⊢
      omega
    rw [hsucc]
    rcases hmem other stored hstored with hstored | ⟨_, rfl⟩
    · exact Nat.lt_succ_of_lt (hnamed.idsBelow hcounter other stored hstored)
    · rw [hid]
      exact Nat.lt_succ_self _
  · rw [hnext]
    exact Nat.mod_lt _ (by decide)

/-- A list that a removal has swept. -/
theorem Named.sweep (hnamed : Named q addedUnder postedUnder owner) {next : State Unit}
    (hregistry : next.registry = q.registry)
    (hsub : ∀ other, (next.getObservers other).Sublist (q.getObservers other))
    (hmessages : next.m_messageQueue = q.m_messageQueue)
    (hnext : next.m_nextObserverId = q.m_nextObserverId) :
    Named next addedUnder postedUnder owner where
  registry := hregistry ▸ hnamed.registry
  resolves := hregistry ▸ hnamed.resolves
  observers id observer hmem := hnamed.observers id observer ((hsub id).subset hmem)
  under topic id hresolve other observer hmem :=
    hnamed.under topic id (hregistry ▸ hresolve) other observer ((hsub other).subset hmem)
  messages := hmessages ▸ hnamed.messages
  labelled := hmessages ▸ hnamed.labelled
  idsOnce id := (hnamed.idsOnce id).sublist ((hsub id).map _)
  idsNonzero id observer hmem := hnamed.idsNonzero id observer ((hsub id).subset hmem)
  idsBelow hcounter id observer hmem := by
    rw [hnext] at hcounter ⊢
    exact hnamed.idsBelow hcounter id observer ((hsub id).subset hmem)
  counter := hnext ▸ hnamed.counter

/-- A message under an id, labelled with the owner of the id or with nothing. -/
theorem Named.post (hnamed : Named q addedUnder postedUnder owner) (message : Message)
    (label : Option String) (hlabel : ∀ name, label = some name → owner message.tid = name) :
    Named { q with m_messageQueue := q.m_messageQueue ++ [message] } addedUnder
      (postedUnder ++ [label]) owner :=
  { hnamed with
    messages := by
      intro posted name hmem
      rw [List.zip_append hnamed.labelled.symm, List.mem_append] at hmem
      rcases hmem with hmem | hmem
      · exact hnamed.messages posted name hmem
      · simp only [List.zip_cons_cons, List.zip_nil_right, List.mem_singleton, Prod.mk.injEq] at hmem
        obtain ⟨rfl, hname⟩ := hmem
        exact hlabel name hname.symm
    labelled := by simp [hnamed.labelled] }

/-! ### The invariant -/

structure Inv (l : Labelled) : Prop where
  session : l.session.Inv
  named : ∃ owner, Named l.queue l.addedUnder l.postedUnder owner
  gone : ∀ handle ∈ l.removed, l.queue.Gone handle
  /-- the snapshot of the dispatch in progress -/
  snapshot : ∀ dispatching, l.queue.dispatch () = some dispatching →
    ∀ observer ∈ dispatching.pending, observer.handle < l.queue.nextHandle ∧
      ∀ topic, l.current = some topic → l.addedUnder observer.handle = topic
  kept : ∀ observer ∈ remaining (l.queue.dispatch ()), observer.handle ∉ l.removed

theorem inv_init : Inv Labelled.init where
  session := Session.inv_init
  named := ⟨_, named_init⟩
  gone _ hmem := absurd hmem List.not_mem_nil
  snapshot _ hdispatch := by cases hdispatch
  kept _ hmem := absurd hmem List.not_mem_nil

theorem isolated_of_inv {l : Labelled} (hinv : Inv l) : Isolated l where
  invoked observer rest topic hdispatch hcurrent := by
    have hmem : observer ∈ remaining (l.queue.dispatch ()) := by
      rw [hdispatch]
      exact List.mem_cons_self ..
    exact ⟨(hinv.snapshot _ hdispatch observer (List.mem_cons_self ..)).2 topic hcurrent,
      hinv.kept observer hmem⟩
  removes topic removal next hkeeps hstep id observer hmem hlabel := by
    obtain ⟨owner, hnamed⟩ := hinv.named
    obtain ⟨session, hsession, rfl⟩ := Option.map_eq_some_iff.mp hstep
    have hqueue : session.queue = removeObserver l.queue topic removal := by
      cases hinv.session.effect hsession with
      | call _ _ => rfl
    have hmem : observer ∈ (removeObserver l.queue topic removal).getObservers id := hqueue ▸ hmem
    have hbefore : observer ∈ l.queue.getObservers id :=
      (removeObserver_sublist l.queue topic removal id).subset hmem
    cases hresolve : l.queue.registry.m_topicsResolveMap topic with
    | none => exact absurd hlabel (hkeeps.1 hresolve id observer hbefore)
    | some topicId =>
        obtain rfl := hnamed.under topic topicId hresolve id observer hbefore hlabel
        have hid := hnamed.registry.resolveTopic_of_resolve hresolve
        rcases removeObserver_cases l.queue topic removal with ⟨hnothing, heq⟩ | ⟨_, heq⟩
        · rcases hnothing with rfl | hnil
          · simpa [Removal.selects] using hnamed.idsNonzero id observer hbefore
          · rw [hid] at hnil
            rw [hnil] at hbefore
            cases hbefore
        · rw [heq, hid] at hmem
          refine removal.not_selects_of_kept (hnamed.idsOnce id) observer ?_
          simpa [State.removeReturn, State.goto, State.setObservers, State.getObservers] using hmem

/-! ### Steps -/

variable {l next : Labelled}

theorem Named.relabel (hnamed : Named q addedUnder postedUnder owner)
    (hold : ∀ id, ∀ observer ∈ q.getObservers id, observer.handle < q.nextHandle) (topic : String) :
    Named q (Function.update addedUnder q.nextHandle topic) postedUnder owner := by
  have hlabel : ∀ id, ∀ observer ∈ q.getObservers id,
      Function.update addedUnder q.nextHandle topic observer.handle = addedUnder observer.handle :=
    fun id observer hmem => Function.update_of_ne (Nat.ne_of_lt (hold id observer hmem)) ..
  exact { hnamed with
    observers := fun id observer hmem =>
      (hlabel id observer hmem).trans (hnamed.observers id observer hmem)
    under := fun name id hresolve other observer hmem hsame =>
      hnamed.under name id hresolve other observer hmem
        ((hlabel other observer hmem).symm.trans hsame) }

theorem Inv.listedOld (hinv : Inv l) (id : Int) (observer : ObserverDescriptor)
    (hmem : observer ∈ l.queue.getObservers id) : observer.handle < l.queue.nextHandle :=
  hinv.session.queue.placed.listedOld id _ (List.mem_map_of_mem hmem)

theorem Inv.addObserver (hinv : Inv l) {topic : String} (overload : Overload)
    (hkeeps : KeepsNames l (.call (.addObserver topic overload))) :
    ∃ owner, Named (addObserver l.queue topic overload)
      (Function.update l.addedUnder l.queue.nextHandle topic) l.postedUnder owner := by
  obtain ⟨hfits, hcounter⟩ := hkeeps
  obtain ⟨owner, hnamed⟩ := hinv.named
  obtain ⟨owner', hnamed'⟩ := hnamed.registerTopic hfits
  refine ⟨owner', ?_⟩
  by_cases hfailed : (l.queue.registry.registerTopic topic).2 < 0
  · rw [addObserver_failed hfailed]
    exact { hnamed'.relabel hinv.listedOld topic with }
  · have hregistered := Int.not_lt.mp hfailed
    rw [addObserver_stored rfl hregistered]
    refine hnamed'.store (Registry.resolve_of_registerTopic hregistered) hinv.listedOld hcounter
      ?_ ?_ rfl rfl rfl rfl
    · exact overload.descriptor_handle _
    · rfl

theorem Inv.removeObserver (hinv : Inv l) (topic : String) (removal : Removal) :
    ∃ owner, Named (removeObserver l.queue topic removal) l.addedUnder l.postedUnder owner := by
  obtain ⟨owner, hnamed⟩ := hinv.named
  have hsub := removeObserver_sublist l.queue topic removal
  refine ⟨owner, ?_⟩
  rcases removeObserver_cases l.queue topic removal with ⟨_, heq⟩ | ⟨_, heq⟩ <;> rw [heq] at hsub ⊢ <;>
    exact hnamed.sweep rfl hsub rfl rfl

theorem Inv.post (hinv : Inv l) (id : Int) (obj : Option Nat) (autoCleanupPayload : Bool)
    (label : Option String)
    (hlabel : ∀ name, label = some name → l.queue.registry.m_topicsResolveMap name = some id) :
    ∃ owner, Named (post l.queue id obj autoCleanupPayload) l.addedUnder
      (l.postedUnder ++ if 0 ≤ id then [label] else []) owner := by
  obtain ⟨owner, hnamed⟩ := hinv.named
  refine ⟨owner, ?_⟩
  unfold OneThread.post
  by_cases hid : 0 ≤ id
  · simp only [hid, if_true]
    refine hnamed.post _ label fun name hname => ?_
    have hcast : ((id.toNat : Nat) : Int) = id := Int.toNat_of_nonneg hid
    simp only [hcast]
    exact hnamed.resolves name id (hlabel name hname)
  · simpa only [hid, if_false, List.append_nil] using hnamed

theorem Inv.named_call (hinv : Inv l) (call : Call) (hkeeps : KeepsNames l (.call call)) :
    ∃ owner, Named (call.perform l.queue) (l.relabel (.call call)).addedUnder
      (l.relabel (.call call)).postedUnder owner := by
  cases call with
  | registerTopic topic =>
      obtain ⟨owner, hnamed⟩ := hinv.named
      exact hnamed.registerTopic hkeeps
  | clearTopics =>
      obtain ⟨owner, hnamed⟩ := hinv.named
      exact ⟨owner, hnamed.clearTopics⟩
  | addObserver topic overload => exact hinv.addObserver overload hkeeps
  | removeObserver topic removal => exact hinv.removeObserver topic removal
  | post id obj autoCleanupPayload =>
      exact hinv.post id obj autoCleanupPayload none fun _ hname => by cases hname
  | postTopic topic obj autoCleanupPayload =>
      simp only [Call.perform, postTopic, Labelled.relabel]
      cases hresolve : l.queue.registry.m_topicsResolveMap topic with
      | none =>
          obtain ⟨owner, hnamed⟩ := hinv.named
          have hunknown : l.queue.registry.resolveTopic topic = -1 := by
            simp [Registry.resolveTopic, hresolve]
          exact ⟨owner, by simpa [hunknown, OneThread.post] using hnamed⟩
      | some id =>
          obtain ⟨_, hnamed⟩ := hinv.named
          rw [hnamed.registry.resolveTopic_of_resolve hresolve]
          refine hinv.post id obj autoCleanupPayload (some topic) fun name hname => ?_
          exact Option.some.inj hname ▸ hresolve

theorem Inv.gone_call (hinv : Inv l) (call : Call) (hcan : l.queue.canCall () = true) :
    ∀ handle ∈ (l.relabel (.call call)).removed, (call.perform l.queue).Gone handle := by
  have hold : ∀ handle ∈ l.removed, (call.perform l.queue).Gone handle := fun handle hmem =>
    perform_gone (hinv.gone handle hmem) hinv.session.queue.counted hcan call
  cases call with
  | removeObserver topic removal =>
      intro handle hmem
      rcases List.mem_append.mp hmem with hmem | hmem
      · exact hold handle hmem
      · obtain ⟨observer, hobserver, rfl⟩ := List.mem_map.mp hmem
        exact removeObserver_gone hinv.session.queue.placed hobserver
  | _ => exact hold

theorem nextHandle_perform (s : State Unit) (call : Call) :
    s.nextHandle ≤ (call.perform s).nextHandle := by
  cases call with
  | addObserver topic overload =>
      simp only [Call.perform, OneThread.addObserver]
      split <;> exact Nat.le_succ _
  | removeObserver topic removal =>
      simp only [Call.perform]
      rcases removeObserver_cases s topic removal with ⟨_, heq⟩ | ⟨_, heq⟩ <;> rw [heq] <;>
        exact Nat.le_refl _
  | post id obj autoCleanupPayload | postTopic topic obj autoCleanupPayload =>
      simp only [Call.perform, postTopic, OneThread.post]
      split <;> exact Nat.le_refl _
  | registerTopic _ | clearTopics => exact Nat.le_refl _

/-- Labels of observers that are already there do not change. -/
theorem relabel_old (l : Labelled) (call : Call) {handle : Nat} (hold : handle < l.queue.nextHandle) :
    (l.relabel (.call call)).addedUnder handle = l.addedUnder handle := by
  cases call with
  | addObserver topic overload => exact Function.update_of_ne (Nat.ne_of_lt hold) ..
  | _ => rfl

theorem Inv.kept_call (hinv : Inv l) {call : Call} (hkeeps : KeepsNames l (.call call)) :
    ∀ observer ∈ remaining (l.queue.dispatch ()),
      observer.handle ∉ (l.relabel (.call call)).removed := by
  cases call with
  | removeObserver topic removal =>
      intro observer hmem hremoved
      rcases List.mem_append.mp hremoved with hremoved | hremoved
      · exact hinv.kept observer hmem hremoved
      · obtain ⟨erased, herased, hsame⟩ := List.mem_map.mp hremoved
        exact hkeeps.2 erased herased (hsame ▸ List.mem_map_of_mem hmem)
  | _ => exact hinv.kept

theorem current_call (l : Labelled) (call : Call) :
    (l.relabel (.call call)).current = l.current := by
  cases call <;> rfl

theorem Inv.call (hinv : Inv l) {call : Call} (hkeeps : KeepsNames l (.call call))
    (hcan : l.queue.canCall () = true)
    (hsession : ({ l.session with queue := call.perform l.queue } : Session).Inv) :
    Inv { l.relabel (.call call) with
      session := { l.session with queue := call.perform l.queue } } where
  session := hsession
  named := hinv.named_call call hkeeps
  gone := hinv.gone_call call hcan
  snapshot := by
    intro dispatching hdispatch observer hmem
    simp only [Labelled.queue, perform_dispatch] at hdispatch
    obtain ⟨hold, hlabel⟩ := hinv.snapshot dispatching hdispatch observer hmem
    refine ⟨Nat.lt_of_lt_of_le hold (nextHandle_perform l.queue call), fun topic hcurrent => ?_⟩
    rw [relabel_old l call hold]
    exact hlabel topic (current_call l call ▸ hcurrent)
  kept := by
    simp only [Labelled.queue, perform_dispatch]
    exact hinv.kept_call hkeeps

/-- A step of the loop of `Dispatch` that leaves lists, messages and labels alone. -/
theorem Inv.moved {session : Session} (hinv : Inv l) (hsession : session.Inv)
    (hregistry : session.queue.registry = l.queue.registry)
    (hlists : session.queue.m_topicObservers = l.queue.m_topicObservers)
    (hmessages : session.queue.m_messageQueue = l.queue.m_messageQueue)
    (hcounter : session.queue.m_nextObserverId = l.queue.m_nextObserverId)
    (hhandle : session.queue.nextHandle = l.queue.nextHandle)
    (hpending : ∀ dispatching, session.queue.dispatch () = some dispatching →
      ∃ before, l.queue.dispatch () = some before ∧ dispatching.pending ⊆ before.pending)
    (hremaining : remaining (session.queue.dispatch ()) ⊆ remaining (l.queue.dispatch ())) :
    Inv { l with session := session } where
  session := hsession
  named := by
    obtain ⟨owner, hnamed⟩ := hinv.named
    have hget : ∀ id, session.queue.getObservers id = l.queue.getObservers id := fun id => by
      simp [State.getObservers, hlists]
    exact ⟨owner, hnamed.sweep hregistry (fun id => by
      simp only [Labelled.queue, hget]; exact List.Sublist.refl _) hmessages hcounter⟩
  gone handle hmem := by
    obtain ⟨hallocated, hunlisted, _⟩ := hinv.gone handle hmem
    refine ⟨hhandle ▸ hallocated, fun id => ?_, fun t hadding => ?_⟩
    · change handle ∉ session.queue.handles id
      rw [State.handles_congr hlists]
      exact hunlisted id
    · simp only [Labelled.queue, hsession.idle] at hadding
      cases hadding
  snapshot dispatching hdispatch observer hmem := by
    obtain ⟨before, hbefore, hsub⟩ := hpending dispatching hdispatch
    obtain ⟨hold, hlabel⟩ := hinv.snapshot before hbefore observer (hsub hmem)
    exact ⟨hhandle ▸ hold, hlabel⟩
  kept observer hmem := hinv.kept observer (hremaining hmem)

theorem Inv.movedTo {session : Session} (hinv : Inv l) (hsession : session.Inv)
    {before after : Dispatching} (hbefore : l.queue.dispatch () = some before)
    (hqueue : session.queue = { l.queue with
      dispatch := Function.update l.queue.dispatch () (some after)
      tl_inDispatch := session.queue.tl_inDispatch })
    (hpending : after.pending ⊆ before.pending)
    (hremaining : remaining (some after) ⊆ remaining (some before)) :
    Inv { l with session := session } := by
  have hafter : session.queue.dispatch () = some after := by rw [hqueue]; simp
  refine hinv.moved hsession ?_ ?_ ?_ ?_ ?_ ?_ ?_
  · rw [hqueue]
  · rw [hqueue]
  · rw [hqueue]
  · rw [hqueue]
  · rw [hqueue]
  · intro dispatching hdispatching
    obtain rfl := Option.some.inj (hafter.symm.trans hdispatching)
    exact ⟨before, hbefore, hpending⟩
  · rw [hafter, hbefore]
    exact hremaining

/-- `GetQueueMessage` and the snapshot of `Dispatch`. -/
theorem Inv.start (hinv : Inv l) {message : Message} {rest : List Message} {label : Option String}
    {labels : List (Option String)} (hqueue : l.queue.m_messageQueue = message :: rest)
    (hlabels : l.postedUnder = label :: labels)
    (hsession : ({ l.session with
      queue := { l.queue with m_messageQueue := rest }.markDispatchActive () message.tid
      current := some message } : Session).Inv) :
    Inv { l with
      session := { l.session with
        queue := { l.queue with m_messageQueue := rest }.markDispatchActive () message.tid
        current := some message }
      postedUnder := labels
      current := label } := by
  obtain ⟨owner, hnamed⟩ := hinv.named
  have hzip : l.queue.m_messageQueue.zip l.postedUnder = (message, label) :: rest.zip labels := by
    rw [hqueue, hlabels]
    rfl
  have hlength : labels.length = rest.length := by
    have hlabelled := hnamed.labelled
    rw [hqueue, hlabels] at hlabelled
    simpa using hlabelled
  refine ⟨hsession, ⟨owner, { hnamed with messages := ?_, labelled := hlength }⟩, ?_, ?_, ?_⟩
  · intro posted name hmem
    exact hnamed.messages posted name (hzip ▸ List.mem_cons_of_mem _ hmem)
  · intro handle hmem
    have hgone := hinv.gone handle hmem
    exact ⟨hgone.allocated, hgone.unlisted, hgone.notAdding⟩
  · intro dispatching hdispatch observer hmem
    simp only [Labelled.queue, State.markDispatchActive, State.setDispatch, Function.update_self,
      Option.some.injEq] at hdispatch
    subst hdispatch
    have hlisted : observer ∈ l.queue.getObservers message.tid := hmem
    refine ⟨hinv.listedOld message.tid observer hlisted, fun topic hcurrent => ?_⟩
    have hcurrent : label = some topic := hcurrent
    rw [hnamed.observers message.tid observer hlisted]
    exact hnamed.messages message topic (hzip ▸ hcurrent ▸ List.mem_cons_self ..)
  · intro observer hmem hremoved
    simp only [Labelled.queue, State.markDispatchActive, State.setDispatch, Function.update_self,
      remaining] at hmem
    exact (hinv.gone observer.handle hremoved).unlisted message.tid (List.mem_map_of_mem hmem)

theorem Inv.step {action : OneThread.Action} (hinv : Inv l) (hkeeps : KeepsNames l action)
    (hstep : l.step action = some next) : Inv next := by
  obtain ⟨session, hsession, rfl⟩ := Option.map_eq_some_iff.mp hstep
  have heffect := hinv.session.effect hsession
  have hafter := hinv.session.step hsession
  cases heffect with
  | call call hcan => exact hinv.call hkeeps hcan hafter
  | nothing hnone hempty =>
      obtain ⟨owner, hnamed⟩ := hinv.named
      have hlabels : l.postedUnder = [] := by
        have hlabelled := hnamed.labelled
        rw [Labelled.queue, hempty] at hlabelled
        exact List.length_eq_zero_iff.mp hlabelled
      have hsame : l.relabel .dispatchNext = l := by simp only [Labelled.relabel, hlabels]
      rw [hsame]
      exact hinv
  | start message rest hnone hqueue =>
      obtain ⟨owner, hnamed⟩ := hinv.named
      cases hlabels : l.postedUnder with
      | nil =>
          have hlabelled := hnamed.labelled
          rw [Labelled.queue, hqueue, hlabels] at hlabelled
          cases hlabelled
      | cons label labels =>
          simp only [Labelled.relabel, hlabels]
          exact hinv.start hqueue hlabels hafter
  | invoke observer rest handler message hdispatch hhandler hmessage =>
      exact hinv.movedTo hafter hdispatch rfl (List.Subset.refl _) (List.subset_cons_self ..)
  | skip observer rest hdispatch hhandler =>
      exact hinv.movedTo hafter hdispatch rfl (List.subset_cons_self ..) (List.subset_cons_self ..)
  | leave hdispatch =>
      exact hinv.movedTo hafter hdispatch rfl (List.Subset.refl _) (List.Subset.refl _)
  | complete hdispatch =>
      have hnone := markDispatchComplete_dispatch l.queue
      obtain ⟨hregistry, hlists, hmessages, hcounter, hhandle, _⟩ :=
        markDispatchComplete_frame l.queue
      refine hinv.moved hafter hregistry hlists hmessages hcounter hhandle
        (fun dispatching hdispatching => ?_) ?_
      · rw [Labelled.queue] at hnone
        rw [hnone] at hdispatching
        cases hdispatching
      · rw [Labelled.queue] at hnone
        rw [hnone]
        exact List.nil_subset _
  | handlerReturn observer rest hdispatch =>
      exact hinv.movedTo hafter hdispatch rfl (List.subset_cons_self ..) (List.Subset.refl _)

/-! ### Runs -/

/-- **Topics do not mix** in any run that keeps the names: a handler is called for the
messages of its topic only, and a removal under the name of an observer removes it. -/
theorem isolated_of_keepsNames (hreach : machine.ReachableUnder KeepsNames l) : Isolated l :=
  isolated_of_inv (hreach.invariant Inv inv_init fun _ _ _ hinv hkeeps hstep =>
    hinv.step hkeeps hstep)

theorem newNameFits_of_empty (hlists : ∀ id, l.queue.getObservers id = [])
    (hmessages : l.queue.m_messageQueue = []) (topic : String) : NewNameFits l topic := by
  intro _ _ _
  simp [hlists, hmessages]

/-- An id is used again after its observer was removed and `ClearTopics` was called. -/
theorem isolated_of_keepsNames_reusedId :
    ∃ l, machine.ReachableUnder KeepsNames l ∧ l.current = some "weather" ∧
      (∃ observer, l.queue.dispatch () = some (.next [observer]) ∧
        observer.callback = some 6) ∧ Isolated l := by
  have hstart : machine.ReachableUnder KeepsNames Labelled.init := .init
  have hadded := hstart.next (.call (.addObserver "news" (.callback (some 5))))
    ⟨newNameFits_of_empty (fun _ => rfl) rfl _, by decide⟩ rfl
  have hremoved := hadded.next (.call (.removeObserver "news" (.byId 1)))
    ⟨fun hresolve => absurd hresolve (by decide), fun _ _ => List.not_mem_nil⟩ rfl
  have hcleared := hremoved.next (.call .clearTopics) trivial rfl
  have hagain := hcleared.next (.call (.addObserver "weather" (.callback (some 6))))
    ⟨newNameFits_of_empty (fun id => by
      change (Function.update (Function.update (fun _ => none) (0 : Int) _) (0 : Int) (some []) id).getD
        [] = []
      by_cases heq : id = 0
      · rw [heq, Function.update_self]
        rfl
      · rw [Function.update_of_ne heq, Function.update_of_ne heq]
        rfl) rfl _, by decide⟩ rfl
  have hposted := hagain.next (.call (.postTopic "weather" none false)) trivial rfl
  have hdispatched := hposted.next .dispatchNext trivial rfl
  exact ⟨_, hdispatched, rfl, ⟨_, rfl, rfl⟩, isolated_of_keepsNames hdispatched⟩

/-- `ClearTopics` and a new name for the old id: the observer of the old name gets the
message. -/
theorem clearedTopics_not_isolated :
    ∃ l, machine.Reachable l ∧ ∃ observer rest topic,
      l.queue.dispatch () = some (.next (observer :: rest)) ∧ l.current = some topic ∧
      l.addedUnder observer.handle ≠ topic := by
  have hrun : machine.run Labelled.init
      [.call (.addObserver "news" (.callback (some 5))), .call .clearTopics,
        .call (.registerTopic "weather"), .call (.postTopic "weather" none false), .dispatchNext] =
      some _ := rfl
  exact ⟨_, Machine.Reachable.of_run .init hrun, _, _, _, rfl, rfl, by decide⟩

end MessageCenter.EventQueue.TopicIsolation
