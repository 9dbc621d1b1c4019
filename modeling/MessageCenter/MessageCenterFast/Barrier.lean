import MessageCenter.MessageCenterFast.Pending
import Mathlib.Data.List.Perm.Subperm

/-!
# `pending()` as a barrier

`pending()` subtracts how many messages `m_dispatched` counts from how many
`m_posted` counts.  When it makes its second load, the messages that the first
number counts are among those that the second counts, or the difference means
nothing: this is the condition under which the difference bounds what is still to
be dispatched, and `flush()` returns with everything done.
-/

namespace MessageCenter.MessageCenterFast

open Concurrency

variable {Tid : Type}

/-! ### Messages in one place -/

/-- The post that a thread is in. -/
def Pc.msg : Pc → Option Nat
  | .tryPush msg => some msg
  | .countPosted msg => some msg
  | .returnTrue msg => some msg
  | _ => none

def DispatchPc.msgs : DispatchPc → List Nat
  | .tryPop => []
  | .dispatch msg => [msg]
  | .countDispatched msg => [msg]

/-- The messages that have been pushed. -/
def State.pushed (s : State Tid) : List Nat := s.ring ++ s.dispatcher.msgs ++ s.finished

structure Posts (s : State Tid) : Prop where
  once : s.pushed.Nodup
  pushed_lt : ∀ msg ∈ s.pushed, msg < s.nextMsg
  counted_lt : ∀ msg ∈ s.counted, msg < s.nextMsg
  own_lt : ∀ t msg, (s.pc t).msg = some msg → msg < s.nextMsg
  apart : ∀ t t' msg, (s.pc t).msg = some msg → (s.pc t').msg = some msg → t = t'
  unpushed : ∀ t msg, s.pc t = .tryPush msg → msg ∉ s.pushed
  unreturned : ∀ t msg, (s.pc t).msg = some msg → msg ∉ s.returned
  counted : ∀ t msg, s.pc t = .returnTrue msg → msg ∈ s.counted
  returned_once : s.returned.Nodup
  returned_counted : ∀ msg ∈ s.returned, msg ∈ s.counted
  dispatching : ∀ msg, s.dispatcher = .countDispatched msg → msg ∈ s.dispatched
  finished_dispatched : ∀ msg ∈ s.finished, msg ∈ s.dispatched
  m_posted : s.m_posted = s.counted.length
  m_dispatched : s.m_dispatched = s.finished.length

theorem posts_init : Posts (init : State Tid) where
  once := List.nodup_nil
  pushed_lt _ hmem := absurd hmem List.not_mem_nil
  counted_lt _ hmem := absurd hmem List.not_mem_nil
  own_lt _ _ hmsg := by cases hmsg
  apart _ _ _ hmsg := by cases hmsg
  unpushed _ _ hpc := by cases hpc
  unreturned _ _ _ := List.not_mem_nil
  counted _ _ hpc := by cases hpc
  returned_once := List.nodup_nil
  returned_counted _ hmem := absurd hmem List.not_mem_nil
  dispatching _ hpc := by cases hpc
  finished_dispatched _ hmem := absurd hmem List.not_mem_nil
  m_posted := rfl
  m_dispatched := rfl

variable {s next : State Tid}

theorem Posts.finished_once (hposts : Posts s) : s.finished.Nodup :=
  (List.nodup_append.mp hposts.once).2.1

theorem Posts.dispatchLoop (hposts : Posts s) : Posts (dispatchLoop s) := by
  rw [MessageCenterFast.dispatchLoop]
  cases hpc : s.dispatcher with
  | tryPop =>
      cases hring : s.ring with
      | nil => exact hposts
      | cons msg ring =>
          have hsame : ({ s with ring := ring, dispatcher := .dispatch msg } : State Tid).pushed.Perm
              s.pushed := by
            simp only [State.pushed, hpc, hring, DispatchPc.msgs, List.append_nil,
              List.append_assoc, List.cons_append, List.nil_append]
            exact List.perm_middle
          exact { hposts with
            once := hsame.nodup_iff.mpr hposts.once
            pushed_lt := fun msg hmem => hposts.pushed_lt msg (hsame.subset hmem)
            unpushed := fun t msg hpc hmem => hposts.unpushed t msg hpc (hsame.subset hmem)
            dispatching := fun _ hpc => by cases hpc }
  | dispatch msg =>
      have hsame : ({ s with
          dispatched := msg :: s.dispatched
          dispatcher := .countDispatched msg } : State Tid).pushed = s.pushed := by
        simp only [State.pushed, hpc, DispatchPc.msgs]
      exact { hposts with
        once := hsame ▸ hposts.once
        pushed_lt := hsame ▸ hposts.pushed_lt
        unpushed := hsame ▸ hposts.unpushed
        dispatching := fun other hother => by
          obtain rfl : msg = other := by simpa using hother
          exact List.mem_cons_self ..
        finished_dispatched := fun other hmem =>
          List.mem_cons_of_mem _ (hposts.finished_dispatched other hmem) }
  | countDispatched msg =>
      have hsame : ({ s with
          m_dispatched := s.m_dispatched + 1
          finished := msg :: s.finished
          dispatcher := .tryPop } : State Tid).pushed = s.pushed := by
        simp only [State.pushed, hpc, DispatchPc.msgs, List.append_nil, List.append_assoc,
          List.cons_append, List.nil_append]
      exact { hposts with
        once := hsame ▸ hposts.once
        pushed_lt := hsame ▸ hposts.pushed_lt
        unpushed := hsame ▸ hposts.unpushed
        dispatching := fun _ hpc => by cases hpc
        finished_dispatched := fun other hmem => by
          rcases List.mem_cons.mp hmem with rfl | hmem
          · exact hposts.dispatching other hpc
          · exact hposts.finished_dispatched other hmem
        m_dispatched := congrArg (· + 1) hposts.m_dispatched }

theorem Posts.push {msg : Nat} (hposts : Posts s) (hnew : msg ∉ s.pushed) (hlt : msg < s.nextMsg)
    (hleft : ∀ t, s.pc t ≠ .tryPush msg) : Posts { s with ring := s.ring ++ [msg] } := by
  have hperm : ({ s with ring := s.ring ++ [msg] } : State Tid).pushed.Perm (msg :: s.pushed) := by
    simp only [State.pushed, List.append_assoc, List.singleton_append]
    exact List.perm_middle
  exact { hposts with
    once := hperm.nodup_iff.mpr (List.nodup_cons.mpr ⟨hnew, hposts.once⟩)
    pushed_lt := fun other hmem => by
      rcases List.mem_cons.mp (hperm.subset hmem) with rfl | hmem
      · exact hlt
      · exact hposts.pushed_lt other hmem
    unpushed := fun t other hpc hmem => by
      rcases List.mem_cons.mp (hperm.subset hmem) with rfl | hmem
      · exact hleft t hpc
      · exact hposts.unpushed t other hpc hmem }

theorem Posts.count {msg : Nat} (hposts : Posts s) (hlt : msg < s.nextMsg) :
    Posts { s with m_posted := s.m_posted + 1, counted := msg :: s.counted } :=
  { hposts with
    counted_lt := fun other hmem => by
      rcases List.mem_cons.mp hmem with rfl | hmem
      · exact hlt
      · exact hposts.counted_lt other hmem
    counted := fun t other hpc => List.mem_cons_of_mem _ (hposts.counted t other hpc)
    returned_counted := fun other hmem =>
      List.mem_cons_of_mem _ (hposts.returned_counted other hmem)
    m_posted := congrArg (· + 1) hposts.m_posted }

theorem Posts.returns {msg : Nat} (hposts : Posts s) (hcounted : msg ∈ s.counted)
    (hnew : msg ∉ s.returned) (hleft : ∀ t, (s.pc t).msg ≠ some msg) :
    Posts { s with returned := msg :: s.returned } :=
  { hposts with
    unreturned := fun t other hown hmem => by
      rcases List.mem_cons.mp hmem with rfl | hmem
      · exact hleft t hown
      · exact hposts.unreturned t other hown hmem
    returned_once := List.nodup_cons.mpr ⟨hnew, hposts.returned_once⟩
    returned_counted := fun other hmem => by
      rcases List.mem_cons.mp hmem with rfl | hmem
      · exact hcounted
      · exact hposts.returned_counted other hmem }

section
variable [DecidableEq Tid] {t : Tid}

theorem State.goto_self (s : State Tid) (t : Tid) (pc : Pc) : (s.goto t pc).pc t = pc :=
  Function.update_self _ _ _

theorem State.goto_other (s : State Tid) (pc : Pc) {other : Tid} (hne : other ≠ t) :
    (s.goto t pc).pc other = s.pc other :=
  Function.update_of_ne hne _ _

/-- A thread goes on with the same post, or with none. -/
theorem Posts.goto {pc : Pc} (hposts : Posts s)
    (hown : ∀ msg, pc.msg = some msg → (s.pc t).msg = some msg)
    (htry : ∀ msg, pc ≠ .tryPush msg) (hret : ∀ msg, pc = .returnTrue msg → msg ∈ s.counted) :
    Posts (s.goto t pc) := by
  have hmsg : ∀ other msg, ((s.goto t pc).pc other).msg = some msg →
      (s.pc other).msg = some msg := by
    intro other msg hother
    by_cases heq : other = t
    · subst heq
      rw [State.goto_self] at hother
      exact hown msg hother
    · rwa [State.goto_other s pc heq] at hother
  exact { hposts with
    own_lt := fun other msg hother => hposts.own_lt other msg (hmsg other msg hother)
    apart := fun other other' msg hother hother' =>
      hposts.apart other other' msg (hmsg other msg hother) (hmsg other' msg hother')
    unpushed := fun other msg hother => by
      by_cases heq : other = t
      · subst heq
        rw [State.goto_self] at hother
        exact absurd hother (htry msg)
      · rw [State.goto_other s pc heq] at hother
        exact hposts.unpushed other msg hother
    unreturned := fun other msg hother => hposts.unreturned other msg (hmsg other msg hother)
    counted := fun other msg hother => by
      by_cases heq : other = t
      · subst heq
        rw [State.goto_self] at hother
        exact hret msg hother
      · rw [State.goto_other s pc heq] at hother
        exact hposts.counted other msg hother }

/-- A thread goes where it has no message. -/
theorem Posts.goto_none {pc : Pc} (hposts : Posts s) (hnone : pc.msg = none) :
    Posts (s.goto t pc) := by
  apply hposts.goto
  · intro msg hmsg
    rw [hnone] at hmsg
    cases hmsg
  · rintro msg rfl
    cases hnone
  · rintro msg rfl
    cases hnone

/-- A post begins, with a message of its own. -/
theorem Posts.post (hposts : Posts s) :
    Posts { s.goto t (.tryPush s.nextMsg) with nextMsg := s.nextMsg + 1 } := by
  have hmsg : ∀ other msg, ((s.goto t (.tryPush s.nextMsg)).pc other).msg = some msg →
      other = t ∧ msg = s.nextMsg ∨ other ≠ t ∧ (s.pc other).msg = some msg := by
    intro other msg hother
    by_cases heq : other = t
    · subst heq
      rw [State.goto_self] at hother
      exact Or.inl ⟨rfl, (Option.some.inj hother).symm⟩
    · rw [State.goto_other s _ heq] at hother
      exact Or.inr ⟨heq, hother⟩
  have hold : ∀ other msg, (s.pc other).msg = some msg → msg ≠ s.nextMsg :=
    fun other msg hother => Nat.ne_of_lt (hposts.own_lt other msg hother)
  exact { hposts with
    pushed_lt := fun msg hmem => Nat.lt_succ_of_lt (hposts.pushed_lt msg hmem)
    counted_lt := fun msg hmem => Nat.lt_succ_of_lt (hposts.counted_lt msg hmem)
    own_lt := fun other msg hother => by
      rcases hmsg other msg hother with ⟨_, rfl⟩ | ⟨_, hother⟩
      · exact Nat.lt_succ_self _
      · exact Nat.lt_succ_of_lt (hposts.own_lt other msg hother)
    apart := fun other other' msg hother hother' => by
      rcases hmsg other msg hother with ⟨ht, hnew⟩ | ⟨_, hother⟩ <;>
        rcases hmsg other' msg hother' with ⟨ht', hnew'⟩ | ⟨_, hother'⟩
      · exact ht.trans ht'.symm
      · exact absurd hnew (hold other' msg hother')
      · exact absurd hnew' (hold other msg hother)
      · exact hposts.apart other other' msg hother hother'
    unpushed := fun other msg hother hmem => by
      by_cases heq : other = t
      · subst heq
        rw [show ({ s.goto other (.tryPush s.nextMsg) with nextMsg := s.nextMsg + 1 } :
          State Tid).pc other = .tryPush s.nextMsg from State.goto_self s other _] at hother
        obtain rfl : s.nextMsg = msg := by simpa using hother
        exact Nat.lt_irrefl _ (hposts.pushed_lt _ hmem)
      · exact hposts.unpushed other msg ((State.goto_other s _ heq).symm.trans hother) hmem
    unreturned := fun other msg hother hmem => by
      rcases hmsg other msg hother with ⟨_, rfl⟩ | ⟨_, hother⟩
      · exact Nat.lt_irrefl _ (hposts.counted_lt _ (hposts.returned_counted _ hmem))
      · exact hposts.unreturned other msg hother hmem
    counted := fun other msg hother => by
      by_cases heq : other = t
      · subst heq
        have hpc : (s.goto other (.tryPush s.nextMsg)).pc other = .returnTrue msg := hother
        rw [State.goto_self] at hpc
        cases hpc
      · exact hposts.counted other msg ((State.goto_other s _ heq).symm.trans hother) }

end

/-! ### Calls of `pending()` -/

/-- The condition: at the second load of `pending()` every message that the value
of `m_dispatched` counts is counted in the value of `m_posted`. -/
def CountsPosted (s : State Tid) : Action Tid → Prop
  | .run t =>
      match s.pc t with
      | .secondLoad true _ _ seen => ∀ msg ∈ s.finished, msg ∈ seen
      | .secondLoad false _ _ seen => ∀ msg ∈ seen, msg ∈ s.counted
      | _ => True
  | _ => True

structure Ask.Ok (s : State Tid) (ask : Ask) : Prop where
  once : ask.before.Nodup
  returned : ∀ msg ∈ ask.before, msg ∈ s.returned
  flush : ∀ before, ask.flush = some before → ∀ msg ∈ before, msg ∈ ask.before

/-- What a thread in `pending()` or `flush()` knows. -/
def Pc.Honest (s : State Tid) : Pc → Prop
  | .firstLoad _ ask => ask.Ok s
  | .secondLoad true ask loaded seen =>
      ask.Ok s ∧ loaded = seen.length ∧ ∀ msg ∈ ask.before, msg ∈ seen
  | .secondLoad false ask loaded seen =>
      ask.Ok s ∧ loaded = seen.length ∧ seen.Nodup ∧ ∀ msg ∈ seen, msg ∈ s.dispatched
  | .returnPending ask value => ask.Ok s ∧ (s.undispatched ask.before : Int) ≤ value
  | .flushWait before => ∀ msg ∈ before, msg ∈ s.returned
  | _ => True

structure Inv (s : State Tid) : Prop where
  posts : Posts s
  honest : ∀ t, (s.pc t).Honest s
  reports : ∀ report ∈ s.reports, (report.undispatched : Int) ≤ report.value
  flushed : ∀ undispatched ∈ s.flushed, undispatched = 0

/-- Returned and dispatched messages stay so. -/
structure Grows (s next : State Tid) : Prop where
  returned : ∀ msg ∈ s.returned, msg ∈ next.returned
  dispatched : ∀ msg ∈ s.dispatched, msg ∈ next.dispatched

theorem Grows.of_eq (hreturned : next.returned = s.returned)
    (hdispatched : next.dispatched = s.dispatched) : Grows s next :=
  ⟨fun _ hmem => hreturned ▸ hmem, fun _ hmem => hdispatched ▸ hmem⟩

theorem Grows.undispatched_le (hgrows : Grows s next) (before : List Nat) :
    next.undispatched before ≤ s.undispatched before := by
  apply List.countP_mono_left
  intro msg _ hmissing
  simp only [decide_eq_true_eq] at hmissing ⊢
  exact fun hmem => hmissing (hgrows.dispatched msg hmem)

theorem Ask.Ok.mono {ask : Ask} (hask : ask.Ok s) (hgrows : Grows s next) : ask.Ok next :=
  { hask with returned := fun msg hmem => hgrows.returned msg (hask.returned msg hmem) }

theorem Pc.Honest.mono {pc : Pc} (hhonest : pc.Honest s) (hgrows : Grows s next) :
    pc.Honest next := by
  cases pc with
  | firstLoad postedFirst ask => exact Ask.Ok.mono hhonest hgrows
  | secondLoad postedFirst ask loaded seen =>
      cases postedFirst with
      | true => exact ⟨hhonest.1.mono hgrows, hhonest.2⟩
      | false =>
          obtain ⟨hask, hloaded, honce, hseen⟩ := hhonest
          exact ⟨hask.mono hgrows, hloaded, honce,
            fun msg hmem => hgrows.dispatched msg (hseen msg hmem)⟩
  | returnPending ask value =>
      have hle := hgrows.undispatched_le ask.before
      have hbound := hhonest.2
      exact ⟨hhonest.1.mono hgrows, by omega⟩
  | flushWait before => exact fun msg hmem => hgrows.returned msg (hhonest msg hmem)
  | _ => trivial

/-- Dispatched messages `done` and undispatched ones among `before` are different, so
together they are no more than a list that has them all. -/
theorem undispatched_add_le {before done all : List Nat} (hbefore : before.Nodup)
    (hdone : done.Nodup) (hdispatched : ∀ msg ∈ done, msg ∈ s.dispatched)
    (hall : ∀ msg ∈ done, msg ∈ all) (hbeforeAll : ∀ msg ∈ before, msg ∈ all) :
    s.undispatched before + done.length ≤ all.length := by
  have honce : (done ++ before.filter fun msg => msg ∉ s.dispatched).Nodup := by
    refine List.nodup_append.mpr ⟨hdone, hbefore.filter _, ?_⟩
    rintro msg hmem other hother rfl
    have hmissing := (List.mem_filter.mp hother).2
    simp only [decide_eq_true_eq] at hmissing
    exact hmissing (hdispatched msg hmem)
  have hsub : (done ++ before.filter fun msg => msg ∉ s.dispatched) ⊆ all := by
    intro msg hmem
    rcases List.mem_append.mp hmem with hmem | hmem
    · exact hall msg hmem
    · exact hbeforeAll msg (List.mem_filter.mp hmem).1
  have hlength := (honce.subperm hsub).length_le
  rw [List.length_append, ← List.countP_eq_length_filter] at hlength
  rw [State.undispatched]
  omega

theorem undispatched_eq_zero {before : List Nat} (hzero : s.undispatched before = 0) {msg : Nat}
    (hmem : msg ∈ before) : msg ∈ s.dispatched := by
  have hnone := List.countP_eq_zero.mp hzero msg hmem
  simpa using hnone

theorem undispatched_of_subset {before all : List Nat} (hzero : s.undispatched all = 0)
    (hsub : ∀ msg ∈ before, msg ∈ all) : s.undispatched before = 0 := by
  apply List.countP_eq_zero.mpr
  intro msg hmem
  simpa using undispatched_eq_zero hzero (hsub msg hmem)

theorem inv_init : Inv (init : State Tid) where
  posts := posts_init
  honest _ := trivial
  reports _ hmem := absurd hmem List.not_mem_nil
  flushed _ hmem := absurd hmem List.not_mem_nil

section
variable [DecidableEq Tid] {t : Tid}

/-- A step of one thread that adds no report. -/
theorem Inv.of_pc {pc : Pc} (hinv : Inv s) (hposts : Posts next)
    (hpc : next.pc = (s.goto t pc).pc) (hhonest : pc.Honest next) (hgrows : Grows s next)
    (hreports : next.reports = s.reports) (hflushed : next.flushed = s.flushed) : Inv next where
  posts := hposts
  honest other := by
    rw [hpc]
    by_cases heq : other = t
    · subst heq
      rw [State.goto_self]
      exact hhonest
    · rw [State.goto_other s pc heq]
      exact (hinv.honest other).mono hgrows
  reports := hreports ▸ hinv.reports
  flushed := hflushed ▸ hinv.flushed

/-- A thread goes where it has no message. -/
theorem Inv.goto {pc : Pc} (hinv : Inv s) (hnone : pc.msg = none) (hhonest : pc.Honest s) :
    Inv (s.goto t pc) := by
  have hgrows : Grows s (s.goto t pc) := Grows.of_eq rfl rfl
  exact hinv.of_pc (hinv.posts.goto_none hnone) rfl (hhonest.mono hgrows) hgrows rfl rfl

omit [DecidableEq Tid] in
theorem Inv.dispatchLoop (hinv : Inv s) : Inv (dispatchLoop s) := by
  have hgrows : Grows s (MessageCenterFast.dispatchLoop s) := by
    rw [MessageCenterFast.dispatchLoop]
    split
    · split <;> exact Grows.of_eq rfl rfl
    · exact ⟨fun _ hmem => hmem, fun _ hmem => List.mem_cons_of_mem _ hmem⟩
    · exact Grows.of_eq rfl rfl
  have hsame : (MessageCenterFast.dispatchLoop s).pc = s.pc ∧
      (MessageCenterFast.dispatchLoop s).reports = s.reports ∧
      (MessageCenterFast.dispatchLoop s).flushed = s.flushed := by
    rw [MessageCenterFast.dispatchLoop]
    split
    · split <;> exact ⟨rfl, rfl, rfl⟩
    · exact ⟨rfl, rfl, rfl⟩
    · exact ⟨rfl, rfl, rfl⟩
  obtain ⟨hpc, hreports, hflushed⟩ := hsame
  refine ⟨hinv.posts.dispatchLoop, fun t => ?_, hreports ▸ hinv.reports, hflushed ▸ hinv.flushed⟩
  rw [hpc]
  exact (hinv.honest t).mono hgrows

/-- The value that `pending()` reports is at least what is undispatched when it
returns; if a `flush()` returns on it, nothing is. -/
theorem Inv.returnPending {ask : Ask} {value : Int} (hinv : Inv s)
    (hpc : s.pc t = .returnPending ask value) : Inv (returnPending s t ask value) := by
  obtain ⟨hask, hbound⟩ : ask.Ok s ∧ (s.undispatched ask.before : Int) ≤ value := by
    have hhonest := hinv.honest t
    rwa [hpc] at hhonest
  have hreported : Inv { s with reports := s.reports ++ [⟨value, s.undispatched ask.before⟩] } := by
    refine ⟨{ hinv.posts with }, fun other => ?_, fun report hmem => ?_, hinv.flushed⟩
    · exact (hinv.honest other).mono (Grows.of_eq rfl rfl)
    · rcases List.mem_append.mp hmem with hmem | hmem
      · exact hinv.reports report hmem
      · rw [List.mem_singleton.mp hmem]
        exact hbound
  simp only [MessageCenterFast.returnPending]
  cases hflush : ask.flush with
  | none => exact hreported.goto rfl trivial
  | some before =>
      simp only
      split
      · rename_i hzero
        have hall : s.undispatched ask.before = 0 := by omega
        have hquiet : Pc.idle.Honest { s with
            reports := s.reports ++ [⟨value, s.undispatched ask.before⟩] } := trivial
        have hidle := hreported.goto (t := t) rfl hquiet
        refine ⟨{ hidle.posts with }, fun other => ?_, hidle.reports, fun undispatched hmem => ?_⟩
        · exact (hidle.honest other).mono (Grows.of_eq rfl rfl)
        · rcases List.mem_append.mp hmem with hmem | hmem
          · exact hinv.flushed undispatched hmem
          · rw [List.mem_singleton.mp hmem]
            exact undispatched_of_subset hall (hask.flush before hflush)
      · exact hreported.goto rfl fun msg hmem => hask.returned msg (hask.flush before hflush msg hmem)

theorem Inv.run {Capacity : Nat} (hinv : Inv s) (hcounts : CountsPosted s (.run t))
    (hnext : run Capacity s t = some next) : Inv next := by
  have hposts := hinv.posts
  have hhonest := hinv.honest t
  rw [CountsPosted] at hcounts
  rw [MessageCenterFast.run] at hnext
  cases hpc : s.pc t with
  | idle =>
      rw [hpc] at hnext
      cases hnext
  | flushWait before =>
      rw [hpc] at hnext
      cases hnext
  | tryPush msg =>
      have hown : (s.pc t).msg = some msg := by rw [hpc]; rfl
      simp only [hpc] at hnext
      split at hnext
      · obtain rfl := Option.some.inj hnext
        have hmoved : Posts (s.goto t (.countPosted msg)) := by
          refine hposts.goto (fun other hother => ?_) (fun _ hother => by cases hother)
            (fun _ hother => by cases hother)
          rw [hown]
          exact hother
        refine hinv.of_pc (hmoved.push (hposts.unpushed t msg hpc) (hposts.own_lt t msg hown)
          fun other hother => ?_) rfl trivial (Grows.of_eq rfl rfl) rfl rfl
        -- no other thread is about to push the same message
        by_cases heq : other = t
        · rw [heq, State.goto_self] at hother
          cases hother
        · rw [State.goto_other s _ heq] at hother
          exact heq (hposts.apart other t msg (by rw [hother]; rfl) hown)
      · obtain rfl := Option.some.inj hnext
        exact hinv.goto rfl trivial
  | countPosted msg =>
      have hown : (s.pc t).msg = some msg := by rw [hpc]; rfl
      simp only [hpc, Option.some.injEq] at hnext
      subst hnext
      have hcounted := hposts.count (hposts.own_lt t msg hown)
      have hmoved : Posts (({ s with
          m_posted := s.m_posted + 1
          counted := msg :: s.counted } : State Tid).goto t (.returnTrue msg)) := by
        refine hcounted.goto (fun other hother => ?_) (fun _ hother => by cases hother)
          (fun other hother => ?_)
        · exact hown.trans hother
        · obtain rfl : msg = other := by simpa using hother
          exact List.mem_cons_self ..
      exact hinv.of_pc hmoved rfl trivial (Grows.of_eq rfl rfl) rfl rfl
  | returnTrue msg =>
      have hown : (s.pc t).msg = some msg := by rw [hpc]; rfl
      simp only [hpc, Option.some.injEq] at hnext
      subst hnext
      have hidle : Posts (s.goto t .idle) := hposts.goto_none rfl
      have hreturned := hidle.returns (hposts.counted t msg hpc) (hposts.unreturned t msg hown)
        fun other hother => by
          by_cases heq : other = t
          · rw [heq, State.goto_self] at hother
            cases hother
          · rw [State.goto_other s _ heq] at hother
            exact heq (hposts.apart other t msg hother hown)
      exact hinv.of_pc hreturned rfl trivial
        ⟨fun _ hmem => List.mem_cons_of_mem _ hmem, fun _ hmem => hmem⟩ rfl rfl
  | firstLoad postedFirst ask =>
      rw [hpc] at hhonest
      have hask : ask.Ok s := hhonest
      cases postedFirst with
      | true =>
          simp only [hpc, Option.some.injEq] at hnext
          subst hnext
          exact hinv.goto rfl ⟨hask, hposts.m_posted, fun msg hmem =>
            hposts.returned_counted msg (hask.returned msg hmem)⟩
      | false =>
          simp only [hpc, Option.some.injEq] at hnext
          subst hnext
          exact hinv.goto rfl ⟨hask, hposts.m_dispatched, hposts.finished_once,
            hposts.finished_dispatched⟩
  | secondLoad postedFirst ask loaded seen =>
      rw [hpc] at hhonest hcounts
      cases postedFirst with
      | true =>
          obtain ⟨hask, hloaded, hbefore⟩ := hhonest
          simp only [hpc, Option.some.injEq] at hnext
          subst hnext
          have hle := undispatched_add_le hask.once hposts.finished_once
            hposts.finished_dispatched hcounts hbefore
          rw [← hloaded, ← hposts.m_dispatched] at hle
          exact hinv.goto rfl ⟨hask, by omega⟩
      | false =>
          obtain ⟨hask, hloaded, honce, hseen⟩ := hhonest
          simp only [hpc, Option.some.injEq] at hnext
          subst hnext
          have hle := undispatched_add_le hask.once honce hseen hcounts fun msg hmem =>
            hposts.returned_counted msg (hask.returned msg hmem)
          rw [← hloaded, ← hposts.m_posted] at hle
          exact hinv.goto rfl ⟨hask, by omega⟩
  | returnPending ask value =>
      simp only [hpc, Option.some.injEq] at hnext
      exact hnext ▸ hinv.returnPending hpc

theorem Inv.step {Capacity : Nat} {action : Action Tid} (hinv : Inv s)
    (hcounts : CountsPosted s action) (hnext : step Capacity s action = some next) :
    Inv next := by
  cases action with
  | post t topicId =>
      simp only [MessageCenterFast.step, Option.ite_none_right_eq_some] at hnext
      obtain ⟨_, hnext⟩ := hnext
      split at hnext
      · exact Option.some.inj hnext ▸ hinv
      · obtain rfl := Option.some.inj hnext
        exact hinv.of_pc hinv.posts.post rfl trivial (Grows.of_eq rfl rfl) rfl rfl
  | pending t postedFirst =>
      simp only [MessageCenterFast.step, Option.ite_none_right_eq_some, Option.some.injEq] at hnext
      obtain ⟨_, rfl⟩ := hnext
      have hask : Ask.Ok s ⟨s.returned, none⟩ :=
        ⟨hinv.posts.returned_once, fun _ hmem => hmem, fun _ hflush => by cases hflush⟩
      exact hinv.goto rfl hask
  | flush t postedFirst =>
      simp only [MessageCenterFast.step, Option.ite_none_right_eq_some, Option.some.injEq] at hnext
      obtain ⟨_, rfl⟩ := hnext
      have hask : Ask.Ok s ⟨s.returned, some s.returned⟩ := by
        refine ⟨hinv.posts.returned_once, fun _ hmem => hmem, fun before hflush msg hmem => ?_⟩
        exact Option.some.inj hflush ▸ hmem
      exact hinv.goto rfl hask
  | retry t postedFirst =>
      simp only [MessageCenterFast.step] at hnext
      split at hnext
      · rename_i before hpc
        obtain rfl := Option.some.inj hnext
        have hbefore := hinv.honest t
        rw [hpc] at hbefore
        have hask : Ask.Ok s ⟨s.returned, some before⟩ := by
          refine ⟨hinv.posts.returned_once, fun _ hmem => hmem, fun other hflush msg hmem => ?_⟩
          exact hbefore msg (Option.some.inj hflush ▸ hmem)
        exact hinv.goto rfl hask
      · cases hnext
  | timeout t =>
      simp only [MessageCenterFast.step] at hnext
      split at hnext
      · obtain rfl := Option.some.inj hnext
        exact hinv.goto rfl trivial
      · cases hnext
  | run t => exact hinv.run hcounts hnext
  | dispatcher => exact Option.some.inj hnext ▸ hinv.dispatchLoop

/-! ### The theorem -/

/-- `pending()` never reports fewer messages than posts that had returned true
before and are not dispatched, so it never falls below zero, and a `flush()` that
finds 0 leaves none of them behind. -/
structure Barrier (s : State Tid) : Prop where
  pending : ∀ report ∈ s.reports, 0 ≤ report.value ∧ (report.undispatched : Int) ≤ report.value
  flush : ∀ undispatched ∈ s.flushed, undispatched = 0

theorem barrier_of_countsPosted {Capacity : Nat}
    (hreach : (machine Tid Capacity).ReachableUnder CountsPosted s) : Barrier s := by
  have hinv : Inv s := hreach.invariant Inv inv_init fun _ _ _ hinv hcounts hstep =>
    hinv.step hcounts hstep
  refine ⟨fun report hmem => ?_, hinv.flushed⟩
  have hbound := hinv.reports report hmem
  exact ⟨by omega, hbound⟩

/-- The test of `CountsPosted`. -/
def countsPosted (s : State Tid) : Action Tid → Bool
  | .run t =>
      match s.pc t with
      | .secondLoad true _ _ seen => s.finished.all fun msg => msg ∈ seen
      | .secondLoad false _ _ seen => seen.all fun msg => msg ∈ s.counted
      | _ => true
  | _ => true

omit [DecidableEq Tid] in
theorem countsPosted_sound (s : State Tid) (action : Action Tid)
    (hcheck : countsPosted s action = true) : CountsPosted s action := by
  cases action with
  | run t =>
      simp only [countsPosted] at hcheck
      simp only [CountsPosted]
      split <;> simp_all
  | _ => trivial

end

/-- A flush that waits for the dispatch of a message. -/
def flushWaits : List (Action Bool) :=
  [.post false 0, .run false, .run false, .run false, .flush true true, .run true, .run true,
    .run true, .dispatcher, .dispatcher, .dispatcher, .retry true false, .run true, .run true,
    .run true]

theorem barrier_of_countsPosted_flushWaits :
    ∃ s : State Bool, Barrier s ∧ s.reports = [⟨1, 1⟩, ⟨0, 0⟩] ∧ s.flushed = [0] := by
  obtain ⟨s, hreach, htest⟩ := Machine.exists_reachableUnder_of_run (machine Bool 4) countsPosted
    countsPosted_sound flushWaits (fun s => s.reports == [⟨1, 1⟩, ⟨0, 0⟩] && s.flushed == [0])
    (by decide)
  exact ⟨s, barrier_of_countsPosted hreach, by simpa using htest⟩

/-- A message is dispatched and counted before its post counts it.  The next post
makes up for the difference, and `flush()` returns with the message of that post
still in the ring. -/
def countedTooEarly : List (Action (Fin 3)) :=
  [.post 0 0, .run 0, .dispatcher, .dispatcher, .dispatcher, .post 1 0, .run 1, .run 1, .run 1,
    .flush 2 true, .run 2, .run 2, .run 2]

theorem countedTooEarly_no_barrier :
    ¬ ∀ s, (machine (Fin 3) 65536).Reachable s → Barrier s := by
  intro hall
  obtain ⟨s, hreach, hflushed⟩ := Machine.exists_reachable_of_run (machine (Fin 3) 65536)
    countedTooEarly (fun s => s.flushed == [1]) (by decide)
  have hzero := (hall s hreach).flush 1 (by simp_all)
  cases hzero

end MessageCenter.MessageCenterFast
