import MessageCenter.EventQueue.Reference

/-!
# Delivery refines the reference

The simulation keeps the registered names, the observers of each topic as images
of the stored descriptors, the queued messages and the delivery in progress.
Observer ids agree as long as `m_nextObserverId` has not wrapped.
-/

namespace MessageCenter.EventQueue

open Concurrency OneThread

variable {observers : List ObserverDescriptor} {refs : List Reference.Observer}

/-! ### Stored observers -/

/-- The descriptor that holds a handler. -/
def Handler.descriptor (handle observerId : Nat) : Handler → ObserverDescriptor
  | .callback function => ⟨handle, observerId, some function, none, none, none⟩
  | .method observerInstance function =>
      ⟨handle, observerId, none, some function, none, some observerInstance⟩
  | .func function => ⟨handle, observerId, none, none, some function, none⟩

def Stores (observer : ObserverDescriptor) (ref : Reference.Observer) : Prop :=
  observer = ref.handler.descriptor observer.handle ref.observerId

theorem Stores.handler? {observer : ObserverDescriptor} {ref : Reference.Observer}
    (hstores : Stores observer ref) : observer.handler? = some ref.handler := by
  rw [hstores]
  cases ref.handler <;> rfl

theorem Stores.observerId {observer : ObserverDescriptor} {ref : Reference.Observer}
    (hstores : Stores observer ref) : observer.observerId = ref.observerId := by
  rw [hstores]
  cases ref.handler <;> rfl

theorem Stores.selects {observer : ObserverDescriptor} {ref : Reference.Observer}
    (hstores : Stores observer ref) (removal : Removal) :
    removal.selects observer = Reference.matchesRemoval removal ref := by
  rw [hstores]
  cases removal with
  | byId id =>
      cases hhandler : ref.handler <;>
        simp [Handler.descriptor, Removal.selects, Reference.matchesRemoval]
  | callback function =>
      cases hhandler : ref.handler <;>
        simp [Handler.descriptor, Removal.selects, Reference.matchesRemoval, hhandler,
          BEq.comm (b := function)]
  | method target function =>
      cases hhandler : ref.handler <;>
        simp [Handler.descriptor, Removal.selects, Reference.matchesRemoval, hhandler,
          BEq.comm (b := target), BEq.comm (b := function)]

theorem exists_stored (hstores : List.Forall₂ Stores observers refs)
    {observer : ObserverDescriptor} (hmem : observer ∈ observers) :
    ∃ ref ∈ refs, Stores observer ref := by
  induction hstores with
  | nil => cases hmem
  | cons hhead _ ih =>
      rcases List.mem_cons.mp hmem with rfl | hmem
      · exact ⟨_, List.mem_cons_self .., hhead⟩
      · obtain ⟨ref, href, hstored⟩ := ih hmem
        exact ⟨ref, List.mem_cons_of_mem _ href, hstored⟩

/-- The erase loop deletes exactly the matching observers, if ids are not shared. -/
theorem sweep_stores (hstores : List.Forall₂ Stores observers refs) (removal : Removal)
    (hids : (refs.map Reference.Observer.observerId).Nodup) :
    List.Forall₂ Stores (removal.sweep observers).1
      (refs.filter fun ref => !Reference.matchesRemoval removal ref) := by
  induction hstores with
  | nil => exact .nil
  | @cons observer ref observers refs hhead htail ih =>
      have hselects := hhead.selects removal
      obtain ⟨hfresh, hrest⟩ := List.nodup_cons.mp hids
      by_cases hmatch : Reference.matchesRemoval removal ref = true
      · cases hstops : removal.stops with
        | false => simpa [Removal.sweep, hselects, hmatch, hstops] using ih hrest
        | true =>
            -- the loop breaks off; no observer after this one has the id
            have hkeep : (refs.filter fun ref => !Reference.matchesRemoval removal ref) = refs := by
              rw [List.filter_eq_self]
              intro other hother
              cases removal with
              | byId id =>
                  have hid : ref.observerId = id := by
                    simpa [Reference.matchesRemoval] using hmatch
                  have hne : other.observerId ≠ id := fun heq =>
                    hfresh (List.mem_map.mpr ⟨other, hother, heq.trans hid.symm⟩)
                  simp [Reference.matchesRemoval, hne]
              | callback function => cases hstops
              | method target function => cases hstops
            simpa [Removal.sweep, hselects, hmatch, hstops, hkeep] using htail
      · simpa [Removal.sweep, hselects, hmatch] using List.Forall₂.cons hhead (ih hrest)

/-! ### Names -/

theorem length_pos_iff_ne_empty (topic : String) : topic.length > 0 ↔ topic ≠ "" := by
  rw [gt_iff_lt, Nat.pos_iff_ne_zero, Ne, String.length_eq_zero_iff]

theorem Registry.Consistent.not_mem_names {registry : Registry} (hconsistent : registry.Consistent) :
    "" ∉ registry.names := by
  intro hmem
  obtain ⟨i, hi, hname⟩ := List.mem_map.mp hmem
  have hpos := hconsistent.nonempty i (List.mem_range.mp hi)
  rw [hname] at hpos
  exact absurd hpos (by decide)

/-- `RegisterTopic` registers the names of the reference, and returns the index of
the name there or an error. -/
theorem Registry.Consistent.names_registerTopic {registry : Registry}
    (hconsistent : registry.Consistent) (topic : String) :
    (registry.registerTopic topic).1.names = Reference.register registry.names topic ∧
      ((∃ i, (registry.registerTopic topic).1.names.idxOf? topic = some i ∧
          (registry.registerTopic topic).2 = i) ∨
        (registry.registerTopic topic).1.names.idxOf? topic = none ∧
          (registry.registerTopic topic).2 < 0) := by
  have hregistration := registry.registration topic
  have hafter := hconsistent.registration hregistration
  generalize registry.registerTopic topic = result at hregistration hafter ⊢
  cases hregistration with
  | known id hname hresolve =>
      obtain ⟨i, hi, rfl, _⟩ := (hconsistent.resolves topic id).mp hresolve
      have hidx := hconsistent.idxOf?_names.mpr hresolve
      refine ⟨?_, Or.inl ⟨i, hidx, rfl⟩⟩
      have hmem : topic ∈ registry.names := by
        rw [← List.isSome_idxOf?, hidx]
        rfl
      simp [Reference.register, hmem]
  | new hname hunknown hroom =>
      have hidx : (registry.extend topic).names.idxOf? topic = some registry.m_topicMax := by
        refine hafter.idxOf?_names.mpr ?_
        simp [Registry.extend]
      have hmem : topic ∉ registry.names := by
        rw [← List.idxOf?_eq_none_iff]
        cases hidx : registry.names.idxOf? topic with
        | none => rfl
        | some i =>
            have hsome := hconsistent.idxOf?_names.mp hidx
            rw [hunknown] at hsome
            cases hsome
      refine ⟨?_, Or.inl ⟨_, hidx, rfl⟩⟩
      have hkept : ¬(topic = "" ∨ topic ∈ registry.names ∨ MAX_TOPICS ≤ registry.names.length) := by
        rw [Registry.length_names]
        exact not_or.mpr ⟨(length_pos_iff_ne_empty topic).mp hname,
          not_or.mpr ⟨hmem, Nat.not_le.mpr hroom⟩⟩
      rw [Reference.register, if_neg hkept]
      simp only [Registry.names, Registry.extend, List.range_succ, List.map_append, List.map_cons,
        List.map_nil, Function.update_self]
      congr 1
      apply List.map_congr_left
      intro i hi
      exact Function.update_of_ne (Nat.ne_of_lt (List.mem_range.mp hi)) ..
  | failed id hnegative hwhy =>
      have hidx : registry.names.idxOf? topic = none := by
        rw [List.idxOf?_eq_none_iff]
        rcases hwhy with hempty | ⟨hunknown, _⟩
        · rw [String.length_eq_zero_iff] at hempty
          exact hempty ▸ hconsistent.not_mem_names
        · intro hmem
          obtain ⟨i, hidx⟩ := Option.isSome_iff_exists.mp (List.isSome_idxOf?.mpr hmem)
          have hsome := hconsistent.idxOf?_names.mp hidx
          rw [hunknown] at hsome
          cases hsome
      refine ⟨?_, Or.inr ⟨hidx, hnegative⟩⟩
      rcases hwhy with hempty | ⟨_, hfull⟩
      · simp [Reference.register, String.length_eq_zero_iff.mp hempty]
      · simp [Reference.register, hfull]

/-! ### The simulation -/

/-- The delivery in progress on both sides; leaving `Dispatch` is one step more than
ending a delivery. -/
inductive Delivering : Option Message → Option Dispatching → Option Reference.Delivery → Prop
  | idle : Delivering none none none
  | next (message : Message) {remaining : List ObserverDescriptor}
      {waiting : List Reference.Observer} (hstores : List.Forall₂ Stores remaining waiting) :
      Delivering (some message) (some (.next remaining)) (some ⟨message, waiting, false⟩)
  | invoking (message : Message) (observer : ObserverDescriptor)
      {remaining : List ObserverDescriptor} {waiting : List Reference.Observer}
      (hstores : List.Forall₂ Stores remaining waiting) :
      Delivering (some message) (some (.invoking observer remaining)) (some ⟨message, waiting, true⟩)
  | completing (message : Message) : Delivering (some message) (some .completing) none

structure Simulates (s : Session) (r : Reference.State) : Prop where
  registry : s.queue.registry.Consistent
  topics : r.topics = s.queue.registry.names
  observers : ∀ id, List.Forall₂ Stores (s.queue.getObservers id) (r.observers id)
  messages : s.queue.m_messageQueue = r.messages
  counter : s.queue.m_nextObserverId = (r.ids + 1) % 2 ^ 64
  unwrapped : r.ids < 2 ^ 64
  nonnegative : ∀ id, id < 0 → r.observers id = []
  idsOnce : ∀ id, ((r.observers id).map Reference.Observer.observerId).Nodup
  idsGiven : ∀ id, ∀ observer ∈ r.observers id, 1 ≤ observer.observerId ∧ observer.observerId ≤ r.ids
  returned : s.queue.addReturns.map Prod.snd = r.returned
  given : (r.returned.filter fun id => id != 0) = (List.range r.ids).map Nat.succ
  delivery : Delivering s.current (s.queue.dispatch ()) r.delivery
  trace : s.trace = r.trace

theorem simulates_init : Simulates Session.init Reference.init where
  registry := Registry.consistent_empty
  topics := rfl
  observers _ := .nil
  messages := rfl
  counter := by decide
  unwrapped := by decide
  nonnegative _ _ := rfl
  idsOnce _ := List.nodup_nil
  idsGiven _ _ hmem := absurd hmem List.not_mem_nil
  returned := rfl
  given := rfl
  delivery := .idle
  trace := rfl

variable {s next : Session} {r : Reference.State}

/-! ### Calls -/

/-- The counter gives the id that the reference gives, unless it has wrapped to 0. -/
theorem Simulates.observerId (hsim : Simulates s r) (hfresh : s.queue.m_nextObserverId ≠ 0) :
    s.queue.m_nextObserverId = r.ids + 1 ∧ r.ids + 1 < 2 ^ 64 := by
  have hcounter := hsim.counter
  have hbound := hsim.unwrapped
  omega

theorem stores_of_handler {overload : Overload} {handler : Handler}
    (hhandler : Reference.handler? overload = some handler) (handle observerId : Nat) :
    Stores { overload.descriptor handle with observerId := observerId } ⟨observerId, handler⟩ := by
  unfold Reference.handler? at hhandler
  split at hhandler
  · exact Option.some.inj hhandler ▸ rfl
  · exact Option.some.inj hhandler ▸ rfl
  · exact Option.some.inj hhandler ▸ rfl
  · cases hhandler

theorem forall₂_update {lists : Int → Option (List ObserverDescriptor)}
    {refLists : Int → List Reference.Observer}
    (hstores : ∀ id, List.Forall₂ Stores ((lists id).getD []) (refLists id)) (id : Int)
    (hnew : List.Forall₂ Stores observers refs) (other : Int) :
    List.Forall₂ Stores ((Function.update lists id (some observers) other).getD [])
      (Function.update refLists id refs other) := by
  by_cases heq : other = id
  · subst heq
    simpa using hnew
  · simpa [heq] using hstores other

theorem simulates_addObserver (hsim : Simulates s r) (hfresh : s.queue.m_nextObserverId ≠ 0)
    (topic : String) {overload : Overload} {handler : Handler}
    (hhandler : Reference.handler? overload = some handler) :
    Simulates { s with queue := addObserver s.queue topic overload }
      (Reference.addObserver r topic handler) := by
  obtain ⟨hid, hlt⟩ := hsim.observerId hfresh
  obtain ⟨hnames, hresult⟩ := hsim.registry.names_registerTopic topic
  have hregistry := hsim.registry.registration (s.queue.registry.registration topic)
  rw [← hsim.topics] at hnames
  rcases hresult with ⟨i, hidx, htopicId⟩ | ⟨hidx, hnegative⟩
  · rw [hnames] at hidx
    have hstored : List.Forall₂ Stores
        (s.queue.getObservers i ++
          [{ overload.descriptor s.queue.nextHandle with observerId := r.ids + 1 }])
        (r.observers i ++ [⟨r.ids + 1, handler⟩]) :=
      List.rel_append (hsim.observers i) (.cons (stores_of_handler hhandler _ _) .nil)
    have hold : ∀ id, ∀ observer ∈ r.observers id, observer.observerId ≠ r.ids + 1 := by
      intro id observer hmem
      exact Nat.ne_of_lt (Nat.lt_succ_of_le (hsim.idsGiven id observer hmem).2)
    rw [addObserver_stored htopicId (Int.natCast_nonneg i), hid]
    simp only [Reference.addObserver, hidx]
    refine ⟨hregistry, hnames.symm, ?_, hsim.messages, ?_, hlt, ?_, ?_, ?_, ?_, ?_, hsim.delivery,
      hsim.trace⟩
    · exact forall₂_update hsim.observers i hstored
    · simp [fetchAddId]
    · intro other hother
      have hne : other ≠ i := Int.ne_of_lt (Int.lt_of_lt_of_le hother (Int.natCast_nonneg i))
      simpa [hne] using hsim.nonnegative other hother
    · intro other
      by_cases heq : other = i
      · subst heq
        simp only [Function.update_self, List.map_append, List.map_cons, List.map_nil]
        refine List.nodup_append.mpr ⟨hsim.idsOnce i, List.nodup_singleton _, ?_⟩
        intro observerId hmem given hgiven
        obtain ⟨observer, hobserver, rfl⟩ := List.mem_map.mp hmem
        rw [List.mem_singleton] at hgiven
        exact hgiven ▸ hold i observer hobserver
      · simpa [heq] using hsim.idsOnce other
    · intro other observer hmem
      have hcases : observer ∈ r.observers other ∨ observer.observerId = r.ids + 1 := by
        by_cases heq : other = i
        · subst heq
          simp only [Function.update_self, List.mem_append, List.mem_singleton] at hmem
          exact hmem.imp_right fun hnew => by rw [hnew]
        · exact Or.inl (by simpa [heq] using hmem)
      rcases hcases with hbefore | hnew
      · obtain ⟨hpos, hle⟩ := hsim.idsGiven other observer hbefore
        exact ⟨hpos, Nat.le_succ_of_le hle⟩
      · rw [hnew]
        exact ⟨Nat.le_add_left .., Nat.le_refl _⟩
    · simp [hsim.returned]
    · simp [hsim.given, List.range_succ]
  · rw [hnames] at hidx
    rw [addObserver_failed hnegative]
    simp only [Reference.addObserver, hidx]
    refine ⟨hregistry, hnames.symm, hsim.observers, hsim.messages, hsim.counter, hsim.unwrapped,
      hsim.nonnegative, hsim.idsOnce, hsim.idsGiven, ?_, ?_, hsim.delivery, hsim.trace⟩
    · simp [hsim.returned]
    · simp [hsim.given]

/-- The observers of a removal's topic on both sides. -/
theorem Simulates.removal (hsim : Simulates s r) (removal : Removal) (id : Int) :
    List.Forall₂ Stores (removal.sweep (s.queue.getObservers id)).1
      ((r.observers id).filter fun observer => !Reference.matchesRemoval removal observer) :=
  sweep_stores (hsim.observers id) removal (hsim.idsOnce id)

/-- A step that replaces the observers of a topic by some of them. -/
theorem Simulates.setObservers {queue : State Unit} (hsim : Simulates s r) (id : Int)
    (hregistry : queue.registry = s.queue.registry)
    (hlists : ∀ other, queue.getObservers other =
      if other = id then observers else s.queue.getObservers other)
    (hmessages : queue.m_messageQueue = s.queue.m_messageQueue)
    (hcounter : queue.m_nextObserverId = s.queue.m_nextObserverId)
    (hreturned : queue.addReturns = s.queue.addReturns)
    (hdispatch : queue.dispatch = s.queue.dispatch) (hstores : List.Forall₂ Stores observers refs)
    (hsub : refs.Sublist (r.observers id)) :
    Simulates { s with queue := queue }
      { r with observers := Function.update r.observers id refs } := by
  have hmem : ∀ other, (Function.update r.observers id refs other).Sublist (r.observers other) := by
    intro other
    by_cases heq : other = id
    · subst heq
      simpa using hsub
    · simp [heq]
  refine ⟨hregistry ▸ hsim.registry, hregistry ▸ hsim.topics, fun other => ?_,
    hmessages.trans hsim.messages, hcounter.trans hsim.counter, hsim.unwrapped, ?_, ?_, ?_,
    hreturned ▸ hsim.returned, hsim.given, by rw [hdispatch]; exact hsim.delivery, hsim.trace⟩
  · simp only [hlists]
    by_cases heq : other = id
    · subst heq
      simpa using hstores
    · simpa [heq] using hsim.observers other
  · intro other hother
    have hnil := hmem other
    rw [hsim.nonnegative other hother] at hnil
    exact List.sublist_nil.mp hnil
  · exact fun other => (hsim.idsOnce other).sublist ((hmem other).map _)
  · exact fun other observer hobserver => hsim.idsGiven other observer ((hmem other).subset hobserver)

theorem removeFrom_nothing {id : Int} {removal : Removal}
    (hnothing : ∀ observer ∈ r.observers id, Reference.matchesRemoval removal observer = false) :
    Reference.removeFrom r id removal = r := by
  have hkept : ((r.observers id).filter fun observer => !Reference.matchesRemoval removal observer) =
      r.observers id := by
    rw [List.filter_eq_self]
    intro observer hmem
    simp [hnothing observer hmem]
  simp [Reference.removeFrom, hkept]

theorem simulates_removeObserver (hsim : Simulates s r) (topic : String) (removal : Removal) :
    Simulates { s with queue := removeObserver s.queue topic removal }
      (Reference.removeObserver r topic removal) := by
  have hrest : Reference.removeObserver r topic removal =
      Reference.removeFrom r (s.queue.registry.resolveTopic topic) removal := by
    rcases hsim.registry.resolveTopic_names topic with ⟨i, hidx, hresolve⟩ | ⟨hidx, hresolve⟩
    · simp only [Reference.removeObserver, hsim.topics, hidx, hresolve]
    · have hnil := hsim.nonnegative (-1) (by decide)
      rw [hresolve, removeFrom_nothing (by simp [hnil])]
      simp only [Reference.removeObserver, hsim.topics, hidx]
  rw [hrest]
  rcases removeObserver_cases s.queue topic removal with ⟨hnothing, heq⟩ | ⟨_, heq⟩ <;> rw [heq]
  · have hkept : ∀ observer ∈ r.observers (s.queue.registry.resolveTopic topic),
        Reference.matchesRemoval removal observer = false := by
      intro observer hmem
      rcases hnothing with rfl | hnil
      · have hpos := (hsim.idsGiven _ observer hmem).1
        simpa [Reference.matchesRemoval] using Nat.ne_of_gt hpos
      · have hstores := hsim.observers (s.queue.registry.resolveTopic topic)
        rw [hnil, List.forall₂_nil_left_iff] at hstores
        rw [hstores] at hmem
        cases hmem
    rw [removeFrom_nothing hkept]
    exact { hsim with }
  · refine hsim.setObservers _ rfl (fun other => ?_) rfl rfl rfl rfl
      (hsim.removal removal _) List.filter_sublist
    by_cases hother : other = s.queue.registry.resolveTopic topic <;>
      simp [hother, State.removeReturn, State.goto, State.setObservers, State.getObservers]

theorem simulates_post (hsim : Simulates s r) (id : Int) (obj : Option Nat)
    (autoCleanupPayload : Bool) :
    Simulates { s with queue := post s.queue id obj autoCleanupPayload }
      (Reference.post r id obj autoCleanupPayload) := by
  simp only [post, Reference.post]
  split
  · exact { hsim with messages := by simp [hsim.messages] }
  · exact hsim

theorem simulates_postTopic (hsim : Simulates s r) (topic : String) (obj : Option Nat)
    (autoCleanupPayload : Bool) :
    Simulates { s with queue := postTopic s.queue topic obj autoCleanupPayload }
      (Reference.postTopic r topic obj autoCleanupPayload) := by
  simp only [postTopic, Reference.postTopic]
  rcases hsim.registry.resolveTopic_names topic with ⟨i, hidx, hresolve⟩ | ⟨hidx, hresolve⟩ <;>
    rw [← hsim.topics] at hidx
  · have hposted := simulates_post hsim i obj autoCleanupPayload
    simpa [hidx, hresolve, Reference.post] using hposted
  · simpa [hidx, hresolve, post] using hsim

/-! ### Steps and runs -/

/-- What the reference is about: no `ClearTopics`, and no null handlers. -/
def inScope : OneThread.Action → Bool
  | .call .clearTopics => false
  | .call (.addObserver _ overload) => (Reference.handler? overload).isSome
  | _ => true

/-- `AddObserver` finds a counter that has not wrapped to 0. -/
def freshId (s : Session) : OneThread.Action → Bool
  | .call (.addObserver _ _) => s.queue.m_nextObserverId != 0
  | _ => true

theorem simulates_call (hsim : Simulates s r) {call : Call} (hscope : inScope (.call call) = true)
    (hfresh : freshId s (.call call) = true) :
    ∃ after, Reference.call r call = some after ∧
      Simulates { s with queue := call.perform s.queue } after := by
  cases call with
  | clearTopics => cases hscope
  | registerTopic topic =>
      obtain ⟨hnames, _⟩ := hsim.registry.names_registerTopic topic
      refine ⟨_, rfl, { hsim with registry := ?_, topics := ?_ }⟩
      · exact hsim.registry.registration (s.queue.registry.registration topic)
      · exact hsim.topics ▸ hnames.symm
  | addObserver topic overload =>
      obtain ⟨handler, hhandler⟩ := Option.isSome_iff_exists.mp hscope
      have hfresh : s.queue.m_nextObserverId ≠ 0 := by simpa [freshId] using hfresh
      exact ⟨_, by simp only [Reference.call, hhandler, Option.map_some],
        simulates_addObserver hsim hfresh topic hhandler⟩
  | removeObserver topic removal => exact ⟨_, rfl, simulates_removeObserver hsim topic removal⟩
  | post id obj autoCleanupPayload => exact ⟨_, rfl, simulates_post hsim id obj autoCleanupPayload⟩
  | postTopic topic obj autoCleanupPayload =>
      exact ⟨_, rfl, simulates_postTopic hsim topic obj autoCleanupPayload⟩

/-! The delivery of the reference, by where `Dispatch` stands. -/

theorem Simulates.delivery_none (hsim : Simulates s r) (hdispatch : s.queue.dispatch () = none) :
    r.delivery = none := by
  have hdelivery := hsim.delivery
  rw [hdispatch] at hdelivery
  generalize s.current = current at hdelivery
  generalize r.delivery = delivery at hdelivery ⊢
  cases hdelivery with
  | idle => rfl

theorem Simulates.delivery_completing (hsim : Simulates s r)
    (hdispatch : s.queue.dispatch () = some .completing) : r.delivery = none := by
  have hdelivery := hsim.delivery
  rw [hdispatch] at hdelivery
  generalize s.current = current at hdelivery
  generalize r.delivery = delivery at hdelivery ⊢
  cases hdelivery with
  | completing message => rfl

theorem Simulates.delivery_next (hsim : Simulates s r) {remaining : List ObserverDescriptor}
    (hdispatch : s.queue.dispatch () = some (.next remaining)) :
    ∃ message waiting, s.current = some message ∧ r.delivery = some ⟨message, waiting, false⟩ ∧
      List.Forall₂ Stores remaining waiting := by
  have hdelivery := hsim.delivery
  rw [hdispatch] at hdelivery
  generalize s.current = current at hdelivery ⊢
  generalize r.delivery = delivery at hdelivery ⊢
  cases hdelivery with
  | @next message _ waiting hstores => exact ⟨message, waiting, rfl, rfl, hstores⟩

theorem Simulates.delivery_invoking (hsim : Simulates s r) {observer : ObserverDescriptor}
    {remaining : List ObserverDescriptor}
    (hdispatch : s.queue.dispatch () = some (.invoking observer remaining)) :
    ∃ message waiting, s.current = some message ∧ r.delivery = some ⟨message, waiting, true⟩ ∧
      List.Forall₂ Stores remaining waiting := by
  have hdelivery := hsim.delivery
  rw [hdispatch] at hdelivery
  generalize s.current = current at hdelivery ⊢
  generalize r.delivery = delivery at hdelivery ⊢
  cases hdelivery with
  | @invoking message _ _ waiting hstores => exact ⟨message, waiting, rfl, rfl, hstores⟩

/-- A call is made when the reference accepts calls. -/
theorem Simulates.accepts (hsim : Simulates s r) (hcan : s.queue.canCall () = true)
    (message : Message) (waiting : List Reference.Observer) :
    r.delivery ≠ some ⟨message, waiting, false⟩ := by
  rcases State.calling_of_canCall hcan with hnone | ⟨observer, remaining, hinvoking⟩
  · rw [hsim.delivery_none hnone]
    simp
  · obtain ⟨message, waiting, _, hdelivery, _⟩ := hsim.delivery_invoking hinvoking
    rw [hdelivery]
    simp

/-- A step of the loop of `Dispatch` that calls nobody. -/
theorem Simulates.moved {queue : State Unit} (hsim : Simulates s r) {current : Option Message}
    {delivery : Option Reference.Delivery} (hregistry : queue.registry = s.queue.registry)
    (hlists : queue.m_topicObservers = s.queue.m_topicObservers)
    (hmessages : queue.m_messageQueue = s.queue.m_messageQueue)
    (hcounter : queue.m_nextObserverId = s.queue.m_nextObserverId)
    (hreturned : queue.addReturns = s.queue.addReturns)
    (hdelivery : Delivering current (queue.dispatch ()) delivery) :
    Simulates { s with queue := queue, current := current } { r with delivery := delivery } where
  registry := hregistry ▸ hsim.registry
  topics := hregistry ▸ hsim.topics
  observers id := by
    have hsame : queue.getObservers id = s.queue.getObservers id := by
      simp [State.getObservers, hlists]
    rw [hsame]
    exact hsim.observers id
  messages := hmessages.trans hsim.messages
  counter := hcounter.trans hsim.counter
  unwrapped := hsim.unwrapped
  nonnegative := hsim.nonnegative
  idsOnce := hsim.idsOnce
  idsGiven := hsim.idsGiven
  returned := hreturned ▸ hsim.returned
  given := hsim.given
  delivery := hdelivery
  trace := hsim.trace

theorem simulates_step (hinv : s.Inv) (hsim : Simulates s r) {action : OneThread.Action}
    (hscope : inScope action = true) (hfresh : freshId s action = true)
    (hstep : s.step action = some next) :
    ∃ after, Reference.step r action = some after ∧ Simulates next after := by
  have heffect := hinv.effect hstep
  cases heffect with
  | call call hcan =>
      obtain ⟨after, hcall, hafter⟩ := simulates_call hsim hscope hfresh
      have haccepts := hsim.accepts hcan
      exact ⟨after, by simpa only [Reference.step] using hcall, hafter⟩
  | nothing hnone hempty =>
      refine ⟨r, ?_, hsim⟩
      simp only [Reference.step, hsim.delivery_none hnone, ← hsim.messages, hempty]
  | start message rest hnone hmessages =>
      refine ⟨{ r with messages := rest, delivery := some ⟨message, r.observers message.tid, false⟩ },
        ?_, { hsim with messages := rfl, delivery := ?_ }⟩
      · simp only [Reference.step, hsim.delivery_none hnone, ← hsim.messages, hmessages]
      · simp only [State.markDispatchActive, State.setDispatch, Function.update_self]
        exact .next message (hsim.observers message.tid)
  | invoke observer remaining handler message hdispatch hhandler hmessage =>
      obtain ⟨message', waiting, hcurrent, hdelivery, hstores⟩ := hsim.delivery_next hdispatch
      obtain rfl : message' = message := Option.some.inj (hcurrent.symm.trans hmessage)
      cases hstores with
      | @cons _ ref _ waiting hhead htail =>
          obtain rfl : ref.handler = handler := Option.some.inj (hhead.handler?.symm.trans hhandler)
          refine ⟨{ r with
              delivery := some ⟨message', waiting, true⟩
              trace := r.trace ++ [⟨ref.handler, message'.tid, message'⟩] },
            by simp only [Reference.step, hdelivery],
            { hsim with delivery := ?_, trace := by simp [hsim.trace] }⟩
          simp only [State.setDispatch, Function.update_self, hmessage]
          exact .invoking message' observer htail
  | skip observer remaining hdispatch hhandler =>
      -- a stored observer has a handler
      obtain ⟨message, waiting, _, _, hstores⟩ := hsim.delivery_next hdispatch
      cases hstores with
      | cons hhead _ =>
          rw [hhead.handler?] at hhandler
          cases hhandler
  | leave hdispatch =>
      obtain ⟨message, waiting, hcurrent, hdelivery, hstores⟩ := hsim.delivery_next hdispatch
      cases hstores with
      | nil =>
          refine ⟨{ r with delivery := none }, by simp only [Reference.step, hdelivery],
            hsim.moved rfl rfl rfl rfl rfl ?_⟩
          simp only [State.setDispatch, Function.update_self, hcurrent]
          exact .completing message
  | complete hdispatch =>
      have hdelivery := hsim.delivery_completing hdispatch
      have hsame : { r with delivery := none } = r := by rw [← hdelivery]
      obtain ⟨hregistry, hlists, hmessages, hcounter, _, hreturned⟩ :=
        markDispatchComplete_frame s.queue
      exact ⟨r, by simp only [Reference.step, hdelivery],
        hsame ▸ hsim.moved hregistry hlists hmessages hcounter hreturned
          (by rw [markDispatchComplete_dispatch]; exact .idle)⟩
  | handlerReturn observer remaining hdispatch =>
      obtain ⟨message, waiting, hcurrent, hdelivery, hstores⟩ := hsim.delivery_invoking hdispatch
      refine ⟨{ r with delivery := some ⟨message, waiting, false⟩ },
        by simp only [Reference.step, hdelivery], hsim.moved rfl rfl rfl rfl rfl ?_⟩
      simp only [State.setDispatch, Function.update_self, hcurrent]
      exact .next message hstores

theorem simulates_run {actions : List OneThread.Action} (hinv : s.Inv) (hsim : Simulates s r)
    (hscope : ∀ action ∈ actions, inScope action = true)
    (hrun : OneThread.machine.runUnder freshId s actions = some next) :
    ∃ after, Reference.machine.run r actions = some after ∧ Simulates next after := by
  induction actions generalizing s r with
  | nil =>
      obtain rfl := Option.some.inj hrun
      exact ⟨r, rfl, hsim⟩
  | cons action rest ih =>
      simp only [Machine.runUnder, Option.ite_none_right_eq_some] at hrun
      obtain ⟨hfresh, hrun⟩ := hrun
      obtain ⟨middle, hstep, hrest⟩ := Option.bind_eq_some_iff.mp hrun
      obtain ⟨hhead, htail⟩ := List.forall_mem_cons.mp hscope
      obtain ⟨after, hafter, hsimAfter⟩ := simulates_step hinv hsim hhead hfresh hstep
      obtain ⟨last, hlast, hsimLast⟩ := ih (hinv.step hstep) hsimAfter htail hrest
      exact ⟨last, by rw [Machine.run_cons]; exact Option.bind_eq_some_iff.mpr ⟨after, hafter, hlast⟩,
        hsimLast⟩

/-! ### Delivery -/

/-- What a session shares with the reference. -/
structure Delivers (s : Session) (r : Reference.State) : Prop where
  trace : s.trace = r.trace
  observers : ∀ id, List.Forall₂ Stores (s.queue.getObservers id) (r.observers id)
  messages : s.queue.m_messageQueue = r.messages
  returned : s.queue.addReturns.map Prod.snd = r.returned
  /-- no id is given twice, and none is 0, which `AddObserver` returns when it fails -/
  idsOnce : ((s.queue.addReturns.map Prod.snd).filter fun id => id != 0).Nodup
  idsNonzero : ∀ id, ∀ observer ∈ s.queue.getObservers id, observer.observerId ≠ 0

theorem Simulates.delivers (hsim : Simulates s r) : Delivers s r where
  trace := hsim.trace
  observers := hsim.observers
  messages := hsim.messages
  returned := hsim.returned
  idsOnce := by
    rw [hsim.returned, hsim.given]
    exact List.nodup_range.map (fun _ _ => Nat.succ.inj)
  idsNonzero id observer hmem := by
    obtain ⟨ref, href, hstores⟩ := exists_stored (hsim.observers id) hmem
    rw [hstores.observerId]
    exact Nat.ne_of_gt (hsim.idsGiven id ref href).1

/-- **Delivery refines the reference**, in every session in which no id is given out
after the counter has wrapped. -/
theorem delivery_refines {actions : List OneThread.Action} {s : Session}
    (hscope : ∀ action ∈ actions, inScope action = true)
    (hrun : OneThread.machine.runUnder freshId Session.init actions = some s) :
    ∃ r, Reference.machine.run Reference.init actions = some r ∧ Delivers s r := by
  obtain ⟨r, href, hsim⟩ := simulates_run Session.inv_init simulates_init hscope hrun
  exact ⟨r, href, hsim.delivers⟩

/-- Observers of all three kinds; the first handler adds one more and posts, and the
second observer is then removed. -/
def reentrantSession : List OneThread.Action :=
  [.call (.addObserver "news" (.callback (some 1))),
    .call (.addObserver "news" (.method (some 7) (some 2))),
    .call (.postTopic "news" none false), .call (.postTopic "weather" none false),
    .dispatchNext, .advance, .call (.addObserver "news" (.func (some 3))), .call (.post 0 none true),
    .handlerReturn, .advance, .handlerReturn, .advance, .advance,
    .call (.removeObserver "news" (.byId 2)), .dispatchNext, .advance, .handlerReturn, .advance,
    .handlerReturn, .advance, .advance]

theorem delivery_refines_reentrant :
    ∃ s r, s.trace.map Invocation.handler =
        [.callback 1, .method 7 2, .callback 1, .func 3] ∧
      Reference.machine.run Reference.init reentrantSession = some r ∧ Delivers s r := by
  have htrace : (OneThread.machine.runUnder freshId Session.init reentrantSession).map
      (fun s => s.trace.map Invocation.handler) =
      some [.callback 1, .method 7 2, .callback 1, .func 3] := by decide +kernel
  obtain ⟨s, hrun, htrace⟩ := Option.map_eq_some_iff.mp htrace
  obtain ⟨r, href, hdelivers⟩ := delivery_refines (by decide) hrun
  exact ⟨s, r, htrace, href, hdelivers⟩

/-! ### The counter after 2^64 ids -/

/-- The registration of one more observer for `topic`. -/
def addAnother (topic : String) : OneThread.Action :=
  .call (.addObserver topic (.callback (some 0)))

/-- The observer is removed again by the id that it was given. -/
def addAndRemove (topic : String) (observerId : Nat) : List OneThread.Action :=
  [addAnother topic, .call (.removeObserver topic (.byId observerId))]

/-- The first `n` ids are given out, to one observer after the other. -/
def giveIds (topic : String) (n : Nat) : List OneThread.Action :=
  (List.range n).flatMap fun i => addAndRemove topic (i + 1)

/-- `topic` can be registered and has no observers, and `observerId` is the next id. -/
structure NoneLeft (s : State Unit) (topic : String) (observerId : Nat) : Prop where
  canCall : s.canCall () = true
  registers : 0 ≤ (s.registry.registerTopic topic).2
  observers : s.getObservers (s.registry.registerTopic topic).2 = []
  nextId : s.m_nextObserverId = observerId

theorem noneLeft_init {topic : String} (hname : topic.length > 0) :
    NoneLeft EventQueue.init topic 1 := by
  constructor <;>
    simp [EventQueue.init, State.canCall, State.getObservers, Registry.empty,
      Registry.registerTopic, hname, MAX_TOPICS]

theorem Registry.resolveTopic_registered {registry : Registry} {topic : String}
    (hname : topic.length > 0) (hregistered : 0 ≤ (registry.registerTopic topic).2) :
    (registry.registerTopic topic).1.resolveTopic topic = (registry.registerTopic topic).2 := by
  unfold Registry.resolveTopic
  rw [if_pos hname, Registry.resolve_of_registerTopic hregistered]
  rfl

/-- The observer added last is the only one, and has the next id. -/
theorem NoneLeft.getObservers_addObserver {s : State Unit} {topic : String} {observerId : Nat}
    (hnone : NoneLeft s topic observerId) (overload : Overload) :
    (OneThread.addObserver s topic overload).getObservers (s.registry.registerTopic topic).2 =
      [{ overload.descriptor s.nextHandle with observerId := observerId }] := by
  rw [addObserver_stored rfl hnone.registers]
  simpa [State.getObservers, hnone.nextId] using hnone.observers

/-- One round leaves no observer, and one id less. -/
theorem NoneLeft.round {s : State Unit} {topic : String} {observerId : Nat}
    (hnone : NoneLeft s topic observerId) (hname : topic.length > 0) (hid : observerId ≠ 0)
    (overload : Overload) :
    NoneLeft (OneThread.removeObserver (OneThread.addObserver s topic overload) topic
      (.byId observerId)) topic (fetchAddId observerId) := by
  have honly := hnone.getObservers_addObserver overload
  have hadded := addObserver_stored rfl hnone.registers overload
  have hresolve : (OneThread.addObserver s topic overload).registry.resolveTopic topic =
      (s.registry.registerTopic topic).2 := by
    rw [hadded]
    exact Registry.resolveTopic_registered hname hnone.registers
  rcases removeObserver_cases (OneThread.addObserver s topic overload) topic (.byId observerId) with
    ⟨hnothing, _⟩ | ⟨_, hremoved⟩
  · rcases hnothing with hzero | hempty
    · exact absurd (Removal.byId.inj hzero) hid
    · rw [hresolve, honly] at hempty
      cases hempty
  · rw [hremoved, hresolve, honly]
    have hagain := Registry.registerTopic_again hnone.registers
    have hpc := pc_of_canCall hnone.canCall
    constructor
    · have hcan := hnone.canCall
      simp only [State.canCall, hpc] at hcan
      simpa [hadded, State.removeReturn, State.goto, State.setObservers, State.canCall] using hcan
    · simpa [hadded, State.removeReturn, State.goto, State.setObservers, hagain] using
        hnone.registers
    · simp [hadded, State.removeReturn, State.goto, State.setObservers, State.getObservers, hagain,
        Removal.sweep, Removal.selects, Removal.stops]
    · simp [hadded, State.removeReturn, State.goto, State.setObservers, hnone.nextId]

/-- Ids are given out until `n` are gone, and no observer is left. -/
theorem run_giveIds (topic : String) (hname : topic.length > 0) (n : Nat) (hn : n < 2 ^ 64) :
    ∃ s, OneThread.machine.run Session.init (giveIds topic n) = some s ∧
      NoneLeft s.queue topic ((n + 1) % 2 ^ 64) := by
  induction n with
  | zero => exact ⟨Session.init, rfl, noneLeft_init hname⟩
  | succ n ih =>
      obtain ⟨s, hrun, hnone⟩ := ih (Nat.lt_of_succ_lt hn)
      have hsmall : (n + 1) % 2 ^ 64 = n + 1 := Nat.mod_eq_of_lt hn
      rw [hsmall] at hnone
      have hcanAdded : (addObserver s.queue topic (.callback (some 0))).canCall () = true := by
        rw [addObserver_stored rfl hnone.registers]
        exact hnone.canCall
      let after := addObserver s.queue topic (.callback (some 0))
      refine ⟨{ s with queue := OneThread.removeObserver after topic (.byId (n + 1)) }, ?_,
        hnone.round hname (Nat.succ_ne_zero n) _⟩
      rw [giveIds, List.range_succ, List.flatMap_append, Machine.run_append, ← giveIds, hrun]
      simp [OneThread.machine, Session.step, addAndRemove, addAnother, hnone.canCall, hcanAdded,
        Call.perform, after]

theorem inScope_giveIds {topic : String} {n : Nat} {action : OneThread.Action}
    (hmem : action ∈ giveIds topic n ++ [addAnother topic]) : inScope action = true := by
  rcases List.mem_append.mp hmem with hmem | hmem
  · obtain ⟨i, _, hround⟩ := List.mem_flatMap.mp hmem
    rcases List.mem_cons.mp hround with rfl | hround
    · rfl
    · rw [List.mem_singleton.mp hround]
      rfl
  · rw [List.mem_singleton.mp hmem]
    rfl

/-- After 2^64 - 1 ids the counter is 0, and the next observer gets the id 0. -/
theorem wrapped_not_delivered :
    ¬ ∀ actions s, (∀ action ∈ actions, inScope action = true) →
      OneThread.machine.run Session.init actions = some s →
      ∃ r, Reference.machine.run Reference.init actions = some r ∧ Delivers s r := by
  intro hall
  obtain ⟨s, hrun, hnone⟩ := run_giveIds "news" (by decide) (2 ^ 64 - 1) (by decide)
  let last : Session :=
    { s with queue := addObserver s.queue "news" (.callback (some 0)) }
  have hlast : OneThread.machine.run Session.init
      (giveIds "news" (2 ^ 64 - 1) ++ [addAnother "news"]) = some last := by
    rw [Machine.run_append, hrun]
    simp [OneThread.machine, Session.step, addAnother, hnone.canCall, Call.perform, last]
  obtain ⟨r, _, hdelivers⟩ := hall _ last (fun action => inScope_giveIds) hlast
  refine hdelivers.idsNonzero (s.queue.registry.registerTopic "news").2
    { Overload.descriptor s.queue.nextHandle (.callback (some 0)) with
      observerId := (2 ^ 64 - 1 + 1) % 2 ^ 64 } ?_ ?_
  · rw [hnone.getObservers_addObserver]
    exact List.mem_singleton_self _
  · rfl

end MessageCenter.EventQueue
