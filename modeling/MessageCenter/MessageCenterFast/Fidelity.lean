import MessageCenter.MessageCenterFast.Deliveries

/-!
# Payload fidelity of `MessageCenterFast`

The callbacks get the posted topic and the posted bytes, and the posted size modulo `2 ^ 32`:
the `size` of a message is a `uint32_t`.  So a dispatch is faithful exactly if the size fits
or there is nobody to call.
-/

namespace MessageCenter.MessageCenterFast.Blocks

open Concurrency Circulation
open Topics (MC_FAST_QUEUE_SIZE)

variable {Tid : Type} {x y : Audited Tid} {msg : Addr} {args : PostArgs}

/-! ### The invariant -/

/-- The message carries the post that its object was acquired for. -/
def Audited.Carries (x : Audited Tid) (msg : Addr) : Prop :=
  ∃ args, x.posted[x.carried msg]? = some args ∧ args.topicId < MC_FAST_MAX_TOPICS ∧
    Loaded x.center args msg

/-- The arguments of a thread in `post`, and its message so far. -/
def Audited.InPost (x : Audited Tid) : Pc → Prop
  | .acquire call args => x.posted[call]? = some args ∧ args.topicId < MC_FAST_MAX_TOPICS
  | .build call args msg =>
      x.posted[call]? = some args ∧ args.topicId < MC_FAST_MAX_TOPICS ∧ x.carried msg = call
  | .allocate call args msg =>
      (x.posted[call]? = some args ∧ args.topicId < MC_FAST_MAX_TOPICS ∧ x.carried msg = call) ∧
        Filled x.center args msg
  | .tryPush call msg => x.carried msg = call ∧ x.Carries msg
  | .idle | .countPosted _ | .reset .. | .release .. => True

/-- A callback gets the posted topic and bytes, and the size as far as it fits. -/
structure Seen.Delivers (seen : Seen) (args : PostArgs) : Prop where
  topicId : seen.topicId = args.topicId
  size : seen.size = args.size % 2 ^ 32
  bytes : ∀ data, args.data = some data → ∀ i < args.size, seen.bytes i = some (data i)

/-- The callbacks up to here, with `rest` still to come. -/
def Audited.Delivers (x : Audited Tid) (d : Delivery) (rest : List (Option Nat)) : Prop :=
  ∃ args, x.posted[d.call]? = some args ∧
    callbacks d.registered = d.seen.map Seen.callback ++ callbacks rest ∧
    ∀ seen ∈ d.seen, seen.Delivers args

/-- The dispatch thread in the loop over the observers. -/
def Audited.InLoop (x : Audited Tid) (msg : Addr) (args : CallArgs) (rest : List (Option Nat)) :
    Prop :=
  x.Carries msg ∧
    (args.topicId = (x.center.objects msg).topicId ∧ args.size = (x.center.objects msg).size) ∧
    ∃ d, x.current = some d ∧ d.call = x.carried msg ∧ x.Delivers d rest

def Audited.InDispatch (x : Audited Tid) : DispatchPc → Prop
  | .dispatch _ msg => x.Carries msg ∧ x.current = none
  | .observers _ msg args rest | .callback _ msg args rest => x.InLoop msg args rest
  | .reset _ _ => ∃ d, x.current = some d ∧ x.Delivers d []
  | .off | .testStopping | .tryPop _ | .release .. | .countDispatched _ => x.current = none

/-- The post of a thread whose message is not in the ring yet. -/
def Pc.pending : Pc → Option Nat
  | .acquire call _ | .build call _ _ | .allocate call _ _ | .tryPush call _ | .reset call _
  | .release call _ => some call
  | .idle | .countPosted _ => none

structure AuditInv (x : Audited Tid) : Prop where
  posted : x.posted.length = x.center.nextCall
  threads : ∀ t, x.InPost (x.center.pc t)
  queued : ∀ msg ∈ x.center.m_queue, x.Carries msg
  dispatcher : x.InDispatch x.center.dispatcher
  finished : ∀ d ∈ x.deliveries, x.Delivers d []
  order : x.pushed = x.dispatched ++ x.center.m_queue.map x.carried
  once : x.pushed.Nodup
  pushed : ∀ call ∈ x.pushed, call < x.center.nextCall
  pending : ∀ t call, (x.center.pc t).pending = some call → call ∉ x.pushed

theorem Pc.call_of_pending {pc : Pc} {call : Nat} (hpending : pc.pending = some call) :
    pc.call = some call := by
  cases pc <;> simp_all [Pc.pending, Pc.call]

/-! ### What a step leaves alone -/

/-- A step from `x` to `y` keeps the arguments of the posts, and the message `msg`. -/
def Frame (x y : Audited Tid) (msg : Addr) : Prop :=
  y.carried msg = x.carried msg ∧ Kept x.center y.center msg

/-- No arguments of posts are lost. -/
def KeepsPosts (x y : Audited Tid) : Prop :=
  ∀ (call : Nat) (args : PostArgs), x.posted[call]? = some args → y.posted[call]? = some args

theorem Audited.Carries.frame (h : x.Carries msg) (hposts : KeepsPosts x y)
    (hframe : Frame x y msg) : y.Carries msg := by
  obtain ⟨args, hargs, htopic, hloaded⟩ := h
  exact ⟨args, hframe.1 ▸ hposts _ _ hargs, htopic, hloaded.kept hframe.2⟩

theorem Audited.InPost.frame {pc : Pc} (h : x.InPost pc) (hposts : KeepsPosts x y)
    (hframe : ∀ msg ∈ pc.hand.carriers, Frame x y msg) : y.InPost pc := by
  cases pc with
  | acquire call args => exact ⟨hposts _ _ h.1, h.2⟩
  | build call args msg =>
      have hmsg := hframe msg (List.mem_singleton_self msg)
      exact ⟨hposts _ _ h.1, h.2.1, hmsg.1.trans h.2.2⟩
  | allocate call args msg =>
      have hmsg := hframe msg (List.mem_singleton_self msg)
      obtain ⟨⟨hargs, htopic, hcarried⟩, hfilled⟩ := h
      exact ⟨⟨hposts _ _ hargs, htopic, hmsg.1.trans hcarried⟩, hfilled.kept hmsg.2⟩
  | tryPush call msg =>
      have hmsg := hframe msg (List.mem_singleton_self msg)
      exact ⟨hmsg.1.trans h.1, h.2.frame hposts hmsg⟩
  | idle => trivial
  | countPosted call => trivial
  | reset call msg => trivial
  | release call msg => trivial

theorem Audited.Delivers.frame {d : Delivery} {rest : List (Option Nat)} (h : x.Delivers d rest)
    (hposts : KeepsPosts x y) : y.Delivers d rest := by
  obtain ⟨args, hargs, hrest⟩ := h
  exact ⟨args, hposts _ _ hargs, hrest⟩

theorem Audited.InDispatch.frame {pc : DispatchPc} (h : x.InDispatch pc) (hposts : KeepsPosts x y)
    (hcurrent : y.current = x.current) (hframe : ∀ msg ∈ pc.hand.carriers, Frame x y msg) :
    y.InDispatch pc := by
  have hloop : ∀ msg args rest, Frame x y msg → x.InLoop msg args rest → y.InLoop msg args rest := by
    rintro msg args rest hmsg ⟨hcarries, hargs, d, hd, hcall, hdelivers⟩
    refine ⟨hcarries.frame hposts hmsg, ?_, d, hcurrent.trans hd, ?_, hdelivers.frame hposts⟩
    · rw [hmsg.2.object]
      exact hargs
    · exact hcall.trans hmsg.1.symm
  cases pc with
  | dispatch draining msg =>
      exact ⟨h.1.frame hposts (hframe msg (List.mem_singleton_self msg)), hcurrent.trans h.2⟩
  | observers draining msg args rest =>
      exact hloop msg args rest (hframe msg (List.mem_singleton_self msg)) h
  | callback draining msg args rest =>
      exact hloop msg args rest (hframe msg (List.mem_singleton_self msg)) h
  | reset draining msg =>
      obtain ⟨d, hd, hdelivers⟩ := h
      exact ⟨d, hcurrent.trans hd, hdelivers.frame hposts⟩
  | off => exact hcurrent.trans h
  | testStopping => exact hcurrent.trans h
  | tryPop draining => exact hcurrent.trans h
  | release draining msg => exact hcurrent.trans h
  | countDispatched draining => exact hcurrent.trans h

theorem Audited.dispatched_congr (hdispatcher : y.center.dispatcher = x.center.dispatcher)
    (hcurrent : y.current = x.current) (hdeliveries : y.deliveries = x.deliveries)
    (hcarried : ∀ msg ∈ x.center.dispatcher.hand.carriers, y.carried msg = x.carried msg) :
    y.dispatched = x.dispatched := by
  rw [Audited.dispatched, Audited.dispatched, hdispatcher, hcurrent, hdeliveries]
  cases hpc : x.center.dispatcher with
  | dispatch draining msg =>
      simp only [hcarried msg (by simp [hpc, DispatchPc.hand, Hand.carriers])]
  | _ => rfl

theorem queueCalls_congr {queue : List Addr}
    (hcarried : ∀ msg ∈ queue, y.carried msg = x.carried msg) :
    queue.map y.carried = queue.map x.carried :=
  List.map_congr_left hcarried

/-- A step that leaves the ring alone. -/
theorem AuditInv.quiet (h : AuditInv x) (hposts : KeepsPosts x y)
    (hlength : y.posted.length = y.center.nextCall)
    (hnextCall : x.center.nextCall ≤ y.center.nextCall)
    (hqueue : y.center.m_queue = x.center.m_queue) (hpushed : y.pushed = x.pushed)
    (hfinished : ∀ d ∈ y.deliveries, y.Delivers d [])
    (hdispatch : y.InDispatch y.center.dispatcher)
    (hdispatched : y.dispatched = x.dispatched) (hthreads : ∀ t, y.InPost (y.center.pc t))
    (hqueued : ∀ msg ∈ x.center.m_queue, Frame x y msg)
    (hpending : ∀ t call, (y.center.pc t).pending = some call → call ∉ x.pushed) : AuditInv y where
  posted := hlength
  threads := hthreads
  queued msg hmem := by
    rw [hqueue] at hmem
    exact (h.queued msg hmem).frame hposts (hqueued msg hmem)
  dispatcher := hdispatch
  finished := hfinished
  order := by
    rw [hpushed, hdispatched, hqueue, queueCalls_congr fun msg hmem => (hqueued msg hmem).1, h.order]
  once := hpushed ▸ h.once
  pushed call hmem := Nat.lt_of_lt_of_le (h.pushed call (hpushed ▸ hmem)) hnextCall
  pending t call hnow := hpushed ▸ hpending t call hnow

/-- A step that pushes the message of a post. -/
theorem AuditInv.push (h : AuditInv x) {call : Nat} (hposts : KeepsPosts x y)
    (hlength : y.posted.length = y.center.nextCall)
    (hnextCall : y.center.nextCall = x.center.nextCall)
    (hqueue : y.center.m_queue = x.center.m_queue ++ [msg]) (hpushed : y.pushed = x.pushed ++ [call])
    (hdeliveries : y.deliveries = x.deliveries) (hdispatch : y.InDispatch y.center.dispatcher)
    (hdispatched : y.dispatched = x.dispatched) (hthreads : ∀ t, y.InPost (y.center.pc t))
    (hqueued : ∀ msg ∈ x.center.m_queue, Frame x y msg) (hcarries : y.Carries msg)
    (hcarried : y.carried msg = call) (hfresh : call ∉ x.pushed)
    (hcall : call < x.center.nextCall)
    (hpending : ∀ t other, (y.center.pc t).pending = some other →
      other ∉ x.pushed ∧ other ≠ call) : AuditInv y where
  posted := hlength
  threads := hthreads
  queued other hmem := by
    rw [hqueue] at hmem
    rcases List.mem_append.mp hmem with hold | hnew
    · exact (h.queued other hold).frame hposts (hqueued other hold)
    · exact List.mem_singleton.mp hnew ▸ hcarries
  dispatcher := hdispatch
  finished d hmem := (h.finished d (hdeliveries ▸ hmem)).frame hposts
  order := by
    rw [hpushed, hdispatched, hqueue, List.map_append,
      queueCalls_congr fun msg hmem => (hqueued msg hmem).1, h.order, List.append_assoc,
      List.map_singleton, hcarried]
  once := by
    rw [hpushed]
    exact List.nodup_append.mpr ⟨h.once, List.nodup_singleton call, fun a ha b hb =>
      fun heq => hfresh (List.mem_singleton.mp hb ▸ heq ▸ ha)⟩
  pushed other hmem := by
    rw [hnextCall]
    rw [hpushed] at hmem
    rcases List.mem_append.mp hmem with hold | hnew
    · exact h.pushed other hold
    · exact List.mem_singleton.mp hnew ▸ hcall
  pending t other hnow := by
    obtain ⟨hold, hne⟩ := hpending t other hnow
    rw [hpushed, List.mem_append, List.mem_singleton]
    exact fun hor => hor.elim hold hne

/-! ### A step of a post -/

variable {next : State Tid}

theorem Inv.made_of_hand {s : State Tid} (hinv : Inv s) {actor : Option Tid}
    (hmem : msg ∈ (s.depot.hand actor).carriers) : msg < s.nextAddr :=
  (hinv.depot.exists_of_place (p := .hand actor) (mem_tokens.mpr hmem)).1

theorem Inv.made_of_queue {s : State Tid} (hinv : Inv s) (hmem : msg ∈ s.m_queue) :
    msg < s.nextAddr ∧ msg ∉ s.m_freeList ∧ ∀ actor, msg ∉ (s.depot.hand actor).carriers := by
  have hhere : msg ∈ (s.depot.places .queue).map Prod.fst := mem_tokens.mpr hmem
  refine ⟨(hinv.depot.exists_of_place hhere).1, fun hpool => ?_, fun actor hhand => ?_⟩
  · cases hinv.depot.carriers.apart _ .pool msg hhere (mem_tokens.mpr hpool)
  · exact (hinv.depot.alone hhand).2.1 hmem

/-- The note of an acquisition concerns a message that was in the pool or did not exist. -/
theorem noteRun_carried (hmade : msg < x.center.nextAddr) (hpool : msg ∉ x.center.m_freeList)
    (pc : Pc) : (x.noteRun pc).carried msg = x.carried msg := by
  cases pc with
  | acquire call args =>
      apply Function.update_of_ne
      rw [acquire]
      split
      · next first rest hfree =>
        rintro rfl
        exact hpool (hfree ▸ List.mem_cons_self)
      · exact Nat.ne_of_lt hmade
  | tryPush call other =>
      rw [Audited.noteRun]
      split <;> rfl
  | _ => rfl

theorem noteRun_rest (pc : Pc) : (x.noteRun pc).posted = x.posted ∧
    (x.noteRun pc).current = x.current ∧ (x.noteRun pc).deliveries = x.deliveries := by
  cases pc with
  | tryPush call other =>
      simp only [Audited.noteRun]
      split <;> exact ⟨rfl, rfl, rfl⟩
  | _ => exact ⟨rfl, rfl, rfl⟩

section
variable [DecidableEq Tid] {t : Tid}

theorem goto_pc (s : State Tid) (t : Tid) (pc : Pc) : (s.goto t pc).pc t = pc :=
  Function.update_self ..

/-- A step of a post keeps the messages of the others. -/
theorem run_frame_msg (hinv : Inv x.center) (hrun : run x.center t = some next)
    (hmade : msg < x.center.nextAddr) (hpool : msg ∉ x.center.m_freeList)
    (hnot : msg ∉ (x.center.pc t).hand.carriers) :
    Frame x ((x.noteRun (x.center.pc t)).withCenter next) msg :=
  ⟨noteRun_carried hmade hpool _, run_kept hinv hrun hmade hnot⟩

theorem run_frame_other (hinv : Inv x.center) (hrun : run x.center t = some next)
    {actor : Option Tid} (hne : actor ≠ some t)
    (hmem : msg ∈ (x.center.depot.hand actor).carriers) :
    Frame x ((x.noteRun (x.center.pc t)).withCenter next) msg := by
  obtain ⟨hpool, -, hothers⟩ := hinv.depot.alone hmem
  exact run_frame_msg hinv hrun (hinv.made_of_hand hmem) hpool (hothers (some t) (Ne.symm hne))

theorem run_frame_queue (hinv : Inv x.center) (hrun : run x.center t = some next)
    (hmem : msg ∈ x.center.m_queue) :
    Frame x ((x.noteRun (x.center.pc t)).withCenter next) msg := by
  obtain ⟨hmade, hpool, hhands⟩ := hinv.made_of_queue hmem
  exact run_frame_msg hinv hrun hmade hpool (hhands (some t))

/-- The thread that steps has the arguments and the message of its post. -/
theorem run_inPost (h : x.InPost (x.center.pc t))
    (hrun : run x.center t = some next) :
    ((x.noteRun (x.center.pc t)).withCenter next).InPost (next.pc t) := by
  rw [run] at hrun
  cases hpc : x.center.pc t with
  | idle => simp [hpc] at hrun
  | acquire call args =>
      rw [hpc] at h
      simp only [hpc, Option.some.injEq] at hrun
      subst hrun
      rw [goto_pc]
      exact ⟨h.1, h.2, Function.update_self ..⟩
  | build call args msg =>
      rw [hpc] at h
      simp only [hpc, Option.some.injEq] at hrun
      subst hrun
      rw [goto_pc]
      have hfilled : Filled ((build x.center args msg).goto t
          (if args.size ≤ MC_FAST_INLINE_SIZE then .tryPush call msg else .allocate call args msg))
          args msg :=
        (filled_build x.center args msg).kept (goto_kept _)
      by_cases hsmall : args.size ≤ MC_FAST_INLINE_SIZE
      · rw [if_pos hsmall] at hfilled ⊢
        exact ⟨h.2.2, args, h.2.2.symm ▸ h.1, h.2.1, hfilled.loaded hsmall⟩
      · rw [if_neg hsmall] at hfilled ⊢
        exact ⟨h, hfilled⟩
  | allocate call args msg =>
      rw [hpc] at h
      simp only [hpc, Option.some.injEq] at hrun
      subst hrun
      rw [goto_pc]
      obtain ⟨⟨hargs, htopic, hcarried⟩, hfilled⟩ := h
      exact ⟨hcarried, args, hcarried.symm ▸ hargs, htopic,
        (hfilled.allocate call).kept (goto_kept _)⟩
  | tryPush call msg =>
      simp only [hpc] at hrun
      split at hrun <;> rw [← Option.some.inj hrun, goto_pc] <;> trivial
  | countPosted call =>
      simp only [hpc, Option.some.injEq] at hrun
      rw [← hrun, goto_pc]
      trivial
  | reset call msg =>
      simp only [hpc, Option.some.injEq] at hrun
      rw [← hrun, goto_pc]
      trivial
  | release call msg =>
      simp only [hpc, Option.some.injEq] at hrun
      rw [← hrun]
      have hidle : (refuse ((release x.center msg).goto t .idle) call).pc t = .idle :=
        goto_pc (release x.center msg) t .idle
      rw [hidle]
      trivial

/-- The ring and the pushed posts after a step of a post. -/
theorem run_ring (hrun : run x.center t = some next) :
    (next.m_queue = x.center.m_queue ∧ (x.noteRun (x.center.pc t)).pushed = x.pushed) ∨
    ∃ call msg, x.center.pc t = .tryPush call msg ∧ next.m_queue = x.center.m_queue ++ [msg] ∧
      (x.noteRun (x.center.pc t)).pushed = x.pushed ++ [call] ∧ (next.pc t).pending = none := by
  rw [run] at hrun
  cases hpc : x.center.pc t with
  | idle => simp [hpc] at hrun
  | acquire call args =>
      simp only [hpc, Option.some.injEq] at hrun
      have hqueue : (acquire x.center).1.m_queue = x.center.m_queue := by
        rw [acquire]
        split <;> rfl
      exact .inl ⟨hrun ▸ hqueue, rfl⟩
  | build call args msg =>
      simp only [hpc, Option.some.injEq] at hrun
      have hqueue : (build x.center args msg).m_queue = x.center.m_queue := by
        rw [build]
        split <;> rfl
      exact .inl ⟨hrun ▸ hqueue, rfl⟩
  | tryPush call msg =>
      simp only [hpc] at hrun
      split at hrun
      · next hroom =>
        refine .inr ⟨call, msg, rfl, ?_, by simp only [Audited.noteRun, if_pos hroom], ?_⟩
        · exact Option.some.inj hrun ▸ rfl
        · rw [← Option.some.inj hrun, goto_pc]
          rfl
      · next hfull =>
        refine .inl ⟨?_, by simp only [Audited.noteRun, if_neg hfull]⟩
        exact Option.some.inj hrun ▸ rfl
  | reset call msg =>
      simp only [hpc, Option.some.injEq] at hrun
      have hqueue : (reset x.center (some call) msg).m_queue = x.center.m_queue := by
        rw [reset]
        split <;> rfl
      exact .inl ⟨hrun ▸ hqueue, rfl⟩
  | release call msg =>
      simp only [hpc, Option.some.injEq] at hrun
      have hqueue : (release x.center msg).m_queue = x.center.m_queue := by
        rw [release]
        split <;> rfl
      exact .inl ⟨hrun ▸ hqueue, rfl⟩
  | _ =>
      simp only [hpc, Option.some.injEq] at hrun
      exact .inl ⟨hrun ▸ rfl, rfl⟩

theorem tryPush_kept {s : State Tid} {call : Nat} {other : Addr}
    (hpc : s.pc t = .tryPush call other) (hrun : run s t = some next) : Kept s next msg := by
  simp only [run, hpc] at hrun
  split at hrun <;> exact Option.some.inj hrun ▸ ⟨rfl, fun _ _ => rfl⟩

/-- A thread that has not pushed its message stays with its post. -/
theorem run_pending {s : State Tid} (hrun : run s t = some next) {call : Nat}
    (hpending : (next.pc t).pending = some call) : (s.pc t).pending = some call := by
  rw [run] at hrun
  cases hpc : s.pc t with
  | idle => simp [hpc] at hrun
  | build call' args msg =>
      simp only [hpc, Option.some.injEq] at hrun
      rw [← hrun, goto_pc] at hpending
      split at hpending <;> exact hpending
  | tryPush call' msg =>
      simp only [hpc] at hrun
      split at hrun <;> rw [← Option.some.inj hrun, goto_pc] at hpending
      · cases hpending
      · exact hpending
  | release call' msg =>
      simp only [hpc, Option.some.injEq] at hrun
      have hidle : (refuse ((release s msg).goto t .idle) call').pc t = .idle :=
        goto_pc (release s msg) t .idle
      rw [← hrun, hidle] at hpending
      cases hpending
  | countPosted call' =>
      simp only [hpc, Option.some.injEq] at hrun
      rw [← hrun, goto_pc] at hpending
      cases hpending
  | _ =>
      simp only [hpc, Option.some.injEq] at hrun
      rw [← hrun, goto_pc] at hpending
      exact hpending

/-- A step of a post, up to the push. -/
theorem AuditInv.run (h : AuditInv x) (hinv : Inv x.center) (hlogged : Logged x.center)
    (hcalls : Calls x.center) (hrun : run x.center t = some next) :
    AuditInv ((x.noteRun (x.center.pc t)).withCenter next) := by
  obtain ⟨stepping, -, hstepped⟩ := run_stepped hlogged hinv (hcalls.tracked t) hrun
  have hnextCall : next.nextCall = x.center.nextCall := hstepped.nextCall
  obtain ⟨hdispatcher, hothers⟩ := run_frame hrun
  obtain ⟨hposted, hcurrent, hdeliveries⟩ := noteRun_rest (x := x) (x.center.pc t)
  have hposts : KeepsPosts x ((x.noteRun (x.center.pc t)).withCenter next) :=
    fun call args hargs => hposted ▸ hargs
  have hlength : (x.noteRun (x.center.pc t)).posted.length = next.nextCall := by
    rw [hposted, h.posted, hnextCall]
  have hhand : ∀ msg ∈ x.center.dispatcher.hand.carriers,
      Frame x ((x.noteRun (x.center.pc t)).withCenter next) msg :=
    fun msg hmem => run_frame_other hinv hrun (Option.some_ne_none t).symm hmem
  have hdispatch : ((x.noteRun (x.center.pc t)).withCenter next).InDispatch next.dispatcher := by
    rw [hdispatcher]
    exact h.dispatcher.frame hposts hcurrent hhand
  have hdispatched : ((x.noteRun (x.center.pc t)).withCenter next).dispatched = x.dispatched :=
    Audited.dispatched_congr hdispatcher hcurrent hdeliveries fun msg hmem => (hhand msg hmem).1
  have hthreads : ∀ u, ((x.noteRun (x.center.pc t)).withCenter next).InPost (next.pc u) := by
    intro u
    by_cases heq : u = t
    · subst heq
      exact run_inPost (h.threads u) hrun
    · rw [hothers u heq]
      exact (h.threads u).frame hposts fun msg hmem =>
        run_frame_other hinv hrun (fun hsome => heq (Option.some.inj hsome)) hmem
  have hpending : ∀ u call, (next.pc u).pending = some call →
      (x.center.pc u).pending = some call := by
    intro u call hnow
    by_cases heq : u = t
    · subst heq
      exact run_pending hrun hnow
    · exact hothers u heq ▸ hnow
  have hqueued : ∀ msg ∈ x.center.m_queue,
      Frame x ((x.noteRun (x.center.pc t)).withCenter next) msg :=
    fun msg hmem => run_frame_queue hinv hrun hmem
  rcases run_ring hrun with ⟨hqueue, hpushed⟩ | ⟨call, msg, hpc, hqueue, hpushed, hdone⟩
  · refine h.quiet hposts hlength (Nat.le_of_eq hnextCall.symm) hqueue hpushed
      (fun d hmem => (h.finished d (hdeliveries ▸ hmem)).frame hposts) hdispatch hdispatched
      hthreads hqueued fun u call hnow => ?_
    exact h.pending u call (hpending u call hnow)
  · have hin := h.threads t
    rw [hpc] at hin
    obtain ⟨hcarried, hcarries⟩ := hin
    have hmem : msg ∈ (x.center.depot.hand (some t)).carriers := by
      have hhand : x.center.depot.hand (some t) = (x.center.pc t).hand := rfl
      simp [hhand, hpc, Pc.hand, Hand.carriers]
    have hframe : Frame x ((x.noteRun (x.center.pc t)).withCenter next) msg :=
      ⟨noteRun_carried (hinv.made_of_hand hmem) (hinv.depot.alone hmem).1 _, tryPush_kept hpc hrun⟩
    have hown : (x.center.pc t).pending = some call := by rw [hpc]; rfl
    obtain ⟨hcall, -⟩ := hcalls.current t call (Pc.call_of_pending hown)
    refine h.push hposts hlength hnextCall hqueue hpushed hdeliveries hdispatch hdispatched
      hthreads hqueued (hcarries.frame hposts hframe) (hframe.1.trans hcarried)
      (h.pending t call hown) hcall fun u other hnow => ?_
    have hother := hpending u other hnow
    refine ⟨h.pending u other hother, ?_⟩
    rintro rfl
    have hu : u = t :=
      hcalls.apart u t other (Pc.call_of_pending hother) (Pc.call_of_pending hown)
    rw [hu] at hnow
    cases hdone.symm.trans hnow

end

/-! ### A step of the dispatch thread -/

theorem noteDispatch_rest : x.noteDispatch.posted = x.posted ∧ x.noteDispatch.carried = x.carried ∧
    x.noteDispatch.pushed = x.pushed := by
  rw [Audited.noteDispatch]
  split <;> exact ⟨rfl, rfl, rfl⟩

theorem noteDispatch_posts : KeepsPosts x (x.noteDispatch.withCenter next) := by
  intro call args hargs
  exact (congrArg (·[call]?) noteDispatch_rest.1).trans hargs

theorem dispatch_frame (hinv : Inv x.center) (hdispatch : dispatchLoop x.center = some next)
    (hnot : ∀ draining, x.center.dispatcher ≠ .reset draining msg) :
    Frame x (x.noteDispatch.withCenter next) msg :=
  ⟨congrFun noteDispatch_rest.2.1 msg, dispatchLoop_kept hinv hdispatch hnot⟩

theorem not_reset_of_hand (hinv : Inv x.center) {t : Tid}
    (hmem : msg ∈ (x.center.pc t).hand.carriers) (draining : Bool) :
    x.center.dispatcher ≠ .reset draining msg := by
  intro hpc
  have hthread : msg ∈ (x.center.depot.hand (some t)).carriers := hmem
  refine (hinv.depot.alone hthread).2.2 none (Option.some_ne_none t).symm ?_
  have hhand : x.center.depot.hand none = x.center.dispatcher.hand := rfl
  simp [hhand, hpc, DispatchPc.hand, Hand.carriers]

theorem not_reset_of_queue (hinv : Inv x.center) (hmem : msg ∈ x.center.m_queue)
    (draining : Bool) : x.center.dispatcher ≠ .reset draining msg := by
  intro hpc
  refine (hinv.made_of_queue hmem).2.2 none ?_
  have hhand : x.center.depot.hand none = x.center.dispatcher.hand := rfl
  simp [hhand, hpc, DispatchPc.hand, Hand.carriers]

/-- What the threads and the ring have stays with them. -/
theorem dispatch_others (h : AuditInv x) (hinv : Inv x.center)
    (hdispatch : dispatchLoop x.center = some next) :
    (∀ t, (x.noteDispatch.withCenter next).InPost (next.pc t)) ∧
      ∀ msg ∈ x.center.m_queue, Frame x (x.noteDispatch.withCenter next) msg := by
  refine ⟨fun t => ?_, fun msg hmem => dispatch_frame hinv hdispatch (not_reset_of_queue hinv hmem)⟩
  rw [dispatchLoop_pc hdispatch]
  exact (h.threads t).frame noteDispatch_posts fun msg hmem =>
    dispatch_frame hinv hdispatch (not_reset_of_hand hinv hmem)

/-- The dispatch thread takes a message from the ring. -/
theorem AuditInv.take (h : AuditInv x) (hinv : Inv x.center) {draining : Bool} {rest : List Addr}
    (hpc : x.center.dispatcher = .tryPop draining) (hqueue : x.center.m_queue = msg :: rest) :
    AuditInv (x.withCenter ((pop x.center rest).dispatchAt (.dispatch draining msg))) := by
  have hdispatch : dispatchLoop x.center =
      some ((pop x.center rest).dispatchAt (.dispatch draining msg)) := by
    simp only [dispatchLoop, hpc, hqueue]
  have hnote : x.noteDispatch = x := by simp only [Audited.noteDispatch, hpc]
  obtain ⟨hthreads, hqueued⟩ := dispatch_others h hinv hdispatch
  rw [hnote] at hthreads hqueued
  have hposts : KeepsPosts x
      (x.withCenter ((pop x.center rest).dispatchAt (.dispatch draining msg))) :=
    fun _ _ hargs => hargs
  have hnone : x.current = none := by
    have hbefore := h.dispatcher
    rw [hpc] at hbefore
    exact hbefore
  have hcarries : ∀ other ∈ x.center.m_queue, (x.withCenter
      ((pop x.center rest).dispatchAt (.dispatch draining msg))).Carries other :=
    fun other hmem => (h.queued other hmem).frame hposts (hqueued other hmem)
  have hfirst : msg ∈ x.center.m_queue := by simp [hqueue]
  refine ⟨h.posted, hthreads, fun other hmem => hcarries other ?_, ⟨hcarries msg hfirst, hnone⟩,
    h.finished, ?_, h.once, h.pushed, h.pending⟩
  · rw [hqueue]
    exact List.mem_cons_of_mem msg hmem
  · have hbefore := h.order
    simp only [Audited.dispatched, hpc, hnone, hqueue, Option.toList_none, List.map_nil,
      List.append_nil, List.map_cons] at hbefore
    simp only [Audited.dispatched, Audited.withCenter, State.dispatchAt, pop, State.record]
    rw [hbefore, List.append_assoc, List.singleton_append]

/-- A step of the dispatch thread that leaves the ring alone. -/
theorem AuditInv.dispatchStep (h : AuditInv x) (hinv : Inv x.center)
    (hdispatch : dispatchLoop x.center = some next) (hqueue : next.m_queue = x.center.m_queue)
    (hnextCall : next.nextCall = x.center.nextCall)
    (hfinished : ∀ d ∈ x.noteDispatch.deliveries, x.Delivers d [])
    (hin : (x.noteDispatch.withCenter next).InDispatch next.dispatcher)
    (hdispatched : (x.noteDispatch.withCenter next).dispatched = x.dispatched) :
    AuditInv (x.noteDispatch.withCenter next) := by
  obtain ⟨hthreads, hqueued⟩ := dispatch_others h hinv hdispatch
  refine h.quiet noteDispatch_posts ?_ (Nat.le_of_eq hnextCall.symm) hqueue noteDispatch_rest.2.2
    (fun d hmem => (hfinished d hmem).frame noteDispatch_posts) hin hdispatched hthreads hqueued
    fun t call hnow => ?_
  · exact (congrArg List.length noteDispatch_rest.1).trans (h.posted.trans hnextCall.symm)
  · change (next.pc t).pending = some call at hnow
    rw [dispatchLoop_pc hdispatch] at hnow
    exact h.pending t call hnow

/-- The dispatch of a message begins. -/
theorem AuditInv.begin (h : AuditInv x) (hinv : Inv x.center) {draining : Bool}
    (hpc : x.center.dispatcher = .dispatch draining msg) :
    AuditInv (x.noteDispatch.withCenter (dispatch x.center draining msg)) := by
  have hbefore := h.dispatcher
  rw [hpc] at hbefore
  obtain ⟨⟨args, hargs, htopic, hloaded⟩, hnone⟩ := hbefore
  have hloop : dispatchLoop x.center = some (dispatch x.center draining msg) := by
    simp only [dispatchLoop, hpc]
  have hvalid : ¬(x.center.objects msg).topicId ≥ MC_FAST_MAX_TOPICS := by
    rw [hloaded.topicId]
    exact Nat.not_le.mpr htopic
  have hobservers : x.observers (x.carried msg) = x.center.m_observers args.topicId := by
    simp only [Audited.observers, hargs]
  have hnote : x.noteDispatch = { x with
      current := some ⟨x.carried msg, x.center.m_observers args.topicId, []⟩ } := by
    simp only [Audited.noteDispatch, hpc, hobservers]
  rw [dispatch, if_neg hvalid] at hloop ⊢
  refine h.dispatchStep hinv hloop rfl rfl ?_ ?_ ?_
  · rw [hnote]
    exact h.finished
  · rw [hnote]
    refine ⟨⟨args, hargs, htopic, hloaded.kept (dispatchAt_kept _)⟩, ⟨rfl, rfl⟩, _, rfl, rfl, args,
      hargs, ?_, fun _ hmem => absurd hmem List.not_mem_nil⟩
    rw [hloaded.topicId]
    rfl
  · rw [hnote]
    simp [Audited.dispatched, Audited.withCenter, State.dispatchAt, hpc]

/-- A callback gets what the message holds. -/
theorem Audited.InLoop.call {callback : Nat} {callArgs : CallArgs} {rest : List (Option Nat)}
    (h : x.InLoop msg callArgs (some callback :: rest))
    (hdata : callArgs.data = (x.center.objects msg).data msg) :
    ∃ d, x.current = some d ∧ d.call = x.carried msg ∧
      x.Delivers (d.addSeen x.center callback callArgs) rest := by
  obtain ⟨⟨args, hargs, -, hloaded⟩, ⟨htopic, hsize⟩, d, hd, hcall, args', hargs', hcalled, hseen⟩ := h
  obtain rfl : args' = args := by
    rw [hcall, hargs] at hargs'
    exact (Option.some.inj hargs').symm
  refine ⟨d, hd, hcall, args', hargs', ?_, fun seen hmem => ?_⟩
  · rw [Delivery.addSeen, List.map_append, List.append_assoc]
    exact hcalled
  · rcases List.mem_append.mp hmem with hold | hnew
    · exact hseen seen hold
    · obtain rfl := List.mem_singleton.mp hnew
      refine ⟨htopic.trans hloaded.topicId, hsize.trans hloaded.size, fun data hsome i hi => ?_⟩
      rw [hdata]
      exact hloaded.bytes data hsome i hi

/-- A step of the loop over the observers. -/
theorem AuditInv.loop (h : AuditInv x) (hinv : Inv x.center) {draining : Bool}
    {callArgs : CallArgs} {rest : List (Option Nat)}
    (hpc : x.center.dispatcher = .observers draining msg callArgs rest)
    (hdispatch : dispatchLoop x.center = some next) :
    AuditInv (x.noteDispatch.withCenter next) := by
  have hin : x.InLoop msg callArgs rest := by
    have hbefore := h.dispatcher
    rw [hpc] at hbefore
    exact hbefore
  have hcarries : ∀ y : Audited Tid, y.posted = x.posted → y.carried = x.carried →
      (∃ pc, y.center = x.center.dispatchAt pc) → y.Carries msg := by
    rintro y hposted hcarried ⟨pc, hcenter⟩
    refine hin.1.frame (fun call args hargs => hposted ▸ hargs) ⟨congrFun hcarried msg, ?_⟩
    rw [hcenter]
    exact dispatchAt_kept pc
  rcases rest with _ | ⟨_ | callback, rest⟩
  · have hnote : x.noteDispatch = x := by simp only [Audited.noteDispatch, hpc]
    obtain rfl : x.center.dispatchAt (.reset draining msg) = next := by
      simpa only [dispatchLoop, hpc, Option.some.injEq] using hdispatch
    refine h.dispatchStep hinv hdispatch rfl rfl (by rw [hnote]; exact h.finished) ?_ ?_
    · rw [hnote]
      obtain ⟨-, -, d, hd, -, hdelivers⟩ := hin
      exact ⟨d, hd, hdelivers⟩
    · rw [hnote]
      simp only [Audited.dispatched, Audited.withCenter, State.dispatchAt, hpc]
  · have hnote : x.noteDispatch = x := by simp only [Audited.noteDispatch, hpc]
    obtain rfl : x.center.dispatchAt (.observers draining msg callArgs rest) = next := by
      simpa only [dispatchLoop, hpc, Option.some.injEq] using hdispatch
    refine h.dispatchStep hinv hdispatch rfl rfl (by rw [hnote]; exact h.finished) ?_ ?_
    · rw [hnote]
      obtain ⟨-, hargs, d, hd, hcall, hdelivers⟩ := hin
      exact ⟨hcarries _ rfl rfl ⟨_, rfl⟩, hargs, d, hd, hcall, hdelivers⟩
    · rw [hnote]
      simp only [Audited.dispatched, Audited.withCenter, State.dispatchAt, hpc]
  · obtain rfl : x.center.dispatchAt (.callback draining msg callArgs rest) = next := by
      simpa only [dispatchLoop, hpc, Option.some.injEq] using hdispatch
    have hdata : callArgs.data = (x.center.objects msg).data msg :=
      hinv.seen msg callArgs (by rw [hpc]; rfl)
    obtain ⟨d, hd, hcall, hdelivers⟩ := hin.call hdata
    have hnote : x.noteDispatch = { x with
        current := some (d.addSeen x.center callback callArgs) } := by
      simp only [Audited.noteDispatch, hpc, hd, Option.map_some]
    refine h.dispatchStep hinv hdispatch rfl rfl (hnote ▸ h.finished) ?_ ?_
    · rw [hnote]
      exact ⟨hcarries _ rfl rfl ⟨_, rfl⟩, hin.2.1, _, rfl, hcall, hdelivers⟩
    · rw [hnote]
      simp only [Audited.dispatched, Audited.withCenter, State.dispatchAt, hpc, hd,
        Option.toList_some, List.map_singleton, Delivery.addSeen]

theorem AuditInv.dispatchLoop (h : AuditInv x) (hinv : Inv x.center)
    (hdispatch : dispatchLoop x.center = some next) :
    AuditInv (x.noteDispatch.withCenter next) := by
  have hin := h.dispatcher
  -- the steps that note nothing and find nothing to dispatch
  have hstay : ∀ {pc}, x.noteDispatch = x → next.m_queue = x.center.m_queue →
      next.nextCall = x.center.nextCall → next.dispatcher = pc →
      (x.withCenter next).InDispatch pc → (x.withCenter next).dispatched = x.dispatched →
      AuditInv (x.noteDispatch.withCenter next) := by
    intro pc hnote hqueue hnextCall hnow hpc hdispatched
    refine h.dispatchStep hinv hdispatch hqueue hnextCall (by rw [hnote]; exact h.finished) ?_ ?_
    · rw [hnote, hnow]
      exact hpc
    · rw [hnote]
      exact hdispatched
  have hloop := hdispatch
  rw [Blocks.dispatchLoop] at hloop
  cases hpc : x.center.dispatcher with
  | off => simp [hpc] at hloop
  | testStopping =>
      rw [hpc] at hin
      simp only [hpc, Option.some.injEq] at hloop
      subst hloop
      refine hstay (by simp only [Audited.noteDispatch, hpc]) rfl rfl rfl hin ?_
      simp only [Audited.dispatched, Audited.withCenter, State.dispatchAt, hpc]
  | tryPop draining =>
      rw [hpc] at hin
      have hnote : x.noteDispatch = x := by simp only [Audited.noteDispatch, hpc]
      simp only [hpc] at hloop
      split at hloop
      · next msg rest hqueue =>
        rw [hnote, ← Option.some.inj hloop]
        exact h.take hinv hpc hqueue
      · rw [Option.some.injEq] at hloop
        subst hloop
        cases draining with
        | true =>
            refine hstay hnote rfl rfl rfl hin ?_
            simp only [Audited.dispatched, Audited.withCenter, State.dispatchAt, hpc, if_true]
        | false =>
            refine hstay hnote rfl rfl rfl hin ?_
            simp [Audited.dispatched, Audited.withCenter, State.dispatchAt, hpc]
  | dispatch draining msg =>
      simp only [hpc, Option.some.injEq] at hloop
      exact hloop ▸ h.begin hinv hpc
  | observers draining msg args rest => exact h.loop hinv hpc hdispatch
  | callback draining msg args rest =>
      rw [hpc] at hin
      simp only [hpc, Option.some.injEq] at hloop
      subst hloop
      refine hstay (by simp only [Audited.noteDispatch, hpc]) rfl rfl rfl ?_ ?_
      · obtain ⟨hcarries, hargs, hrest⟩ := hin
        exact ⟨hcarries.frame (fun _ _ hargs => hargs) ⟨rfl, dispatchAt_kept _⟩, hargs, hrest⟩
      · simp only [Audited.dispatched, Audited.withCenter, State.dispatchAt, hpc]
  | reset draining msg =>
      rw [hpc] at hin
      obtain ⟨d, hd, hdelivers⟩ := hin
      simp only [hpc, Option.some.injEq] at hloop
      have hnote : x.noteDispatch = { x with current := none, deliveries := x.deliveries ++ [d] } := by
        simp only [Audited.noteDispatch, hpc, hd, Option.toList_some]
      have hrest : (reset x.center none msg).m_queue = x.center.m_queue ∧
          (reset x.center none msg).nextCall = x.center.nextCall := by
        rw [reset]
        split <;> exact ⟨rfl, rfl⟩
      subst hloop
      refine h.dispatchStep hinv hdispatch hrest.1 hrest.2 ?_ ?_ ?_
      · rw [hnote]
        intro d' hmem
        rcases List.mem_append.mp hmem with hold | hnew
        · exact h.finished d' hold
        · exact List.mem_singleton.mp hnew ▸ hdelivers
      · rw [hnote]
        rfl
      · rw [hnote]
        simp only [Audited.dispatched, Audited.withCenter, State.dispatchAt, hpc, hd,
          List.map_append, List.map_singleton, Option.toList_some, Option.toList_none,
          List.map_nil, List.append_nil]
  | release draining msg =>
      rw [hpc] at hin
      simp only [hpc, Option.some.injEq] at hloop
      have hrest : (release x.center msg).m_queue = x.center.m_queue ∧
          (release x.center msg).nextCall = x.center.nextCall := by
        rw [release]
        split <;> exact ⟨rfl, rfl⟩
      subst hloop
      refine hstay (by simp only [Audited.noteDispatch, hpc]) hrest.1 hrest.2 rfl hin ?_
      simp only [Audited.dispatched, Audited.withCenter, State.dispatchAt, hpc]
  | countDispatched draining =>
      rw [hpc] at hin
      simp only [hpc, Option.some.injEq] at hloop
      subst hloop
      cases draining with
      | true =>
          refine hstay (by simp only [Audited.noteDispatch, hpc]) rfl rfl rfl hin ?_
          simp [Audited.dispatched, Audited.withCenter, State.dispatchAt, hpc]
      | false =>
          refine hstay (by simp only [Audited.noteDispatch, hpc]) rfl rfl rfl hin ?_
          simp [Audited.dispatched, Audited.withCenter, State.dispatchAt, hpc]

/-! ### All runs -/

/-- A step that changes neither messages nor posts. -/
theorem AuditInv.idle (h : AuditInv x) {center : State Tid}
    (hobjects : center.objects = x.center.objects) (hblocks : center.blocks = x.center.blocks)
    (hqueue : center.m_queue = x.center.m_queue) (hpc : center.pc = x.center.pc)
    (hnextCall : center.nextCall = x.center.nextCall)
    (hin : ∀ y : Audited Tid, y.InDispatch x.center.dispatcher → y.InDispatch center.dispatcher)
    (hdispatched : (x.withCenter center).dispatched = x.dispatched) :
    AuditInv (x.withCenter center) := by
  have hkept : ∀ msg, Frame x (x.withCenter center) msg := fun msg =>
    ⟨rfl, congrFun hobjects msg, fun block _ => congrFun hblocks block⟩
  have hposts : KeepsPosts x (x.withCenter center) := fun _ _ hargs => hargs
  refine h.quiet hposts (h.posted.trans hnextCall.symm) (Nat.le_of_eq hnextCall.symm) hqueue rfl
    (fun d hmem => (h.finished d hmem).frame hposts)
    (hin _ (h.dispatcher.frame hposts rfl fun msg _ => hkept msg)) hdispatched (fun u => ?_)
    (fun msg _ => hkept msg) fun u call hnow => ?_
  · change (x.withCenter center).InPost (center.pc u)
    rw [hpc]
    exact (h.threads u).frame hposts fun msg _ => hkept msg
  · change (center.pc u).pending = some call at hnow
    rw [hpc] at hnow
    exact h.pending u call hnow

section
variable [DecidableEq Tid] {t : Tid}

theorem AuditInv.post (h : AuditInv x) (t : Tid) (args : PostArgs) :
    AuditInv ((x.note (.post t args)).withCenter (post x.center t args)) := by
  have hposts : ∀ center, KeepsPosts x ((x.note (.post t args)).withCenter center) := by
    intro center call args' hargs
    obtain ⟨hlt, -⟩ := List.getElem?_eq_some_iff.mp hargs
    exact (List.getElem?_append_left hlt).trans hargs
  have hlength : (x.posted ++ [args]).length = x.center.nextCall + 1 := by
    rw [List.length_append, h.posted, List.length_singleton]
  have hnew : (x.posted ++ [args])[x.center.nextCall]? = some args := by
    rw [← h.posted, List.getElem?_concat_length]
  have hframe : ∀ (center : State Tid) (msg : Addr), Kept x.center center msg →
      Frame x ((x.note (.post t args)).withCenter center) msg := fun _ _ hkept => ⟨rfl, hkept⟩
  rw [Blocks.post]
  split
  · refine h.quiet (hposts _) hlength (Nat.le_succ _) rfl rfl
      (fun d hmem => (h.finished d hmem).frame (hposts _))
      (h.dispatcher.frame (hposts _) rfl fun msg _ => hframe _ msg ⟨rfl, fun _ _ => rfl⟩) rfl
      (fun u => (h.threads u).frame (hposts _) fun msg _ => hframe _ msg ⟨rfl, fun _ _ => rfl⟩)
      (fun msg _ => hframe _ msg ⟨rfl, fun _ _ => rfl⟩) h.pending
  · next hvalid =>
    have hkept : ∀ msg, Kept x.center (({ x.center with
        nextCall := x.center.nextCall + 1 } : State Tid).goto t
          (.acquire x.center.nextCall args)) msg := fun _ => ⟨rfl, fun _ _ => rfl⟩
    have hothers : ∀ u, u ≠ t → (Function.update x.center.pc t
        (.acquire x.center.nextCall args)) u = x.center.pc u :=
      fun u hne => Function.update_of_ne hne _ _
    refine h.quiet (hposts _) hlength (Nat.le_succ _) rfl rfl
      (fun d hmem => (h.finished d hmem).frame (hposts _))
      (h.dispatcher.frame (hposts _) rfl fun msg _ => hframe _ msg (hkept msg)) rfl
      (fun u => ?_) (fun msg _ => hframe _ msg (hkept msg)) fun u call hnow => ?_
    · change ((x.note (.post t args)).withCenter _).InPost
        (Function.update x.center.pc t (.acquire x.center.nextCall args) u)
      by_cases heq : u = t
      · rw [heq, Function.update_self]
        exact ⟨hnew, Nat.lt_of_not_le hvalid⟩
      · rw [hothers u heq]
        exact (h.threads u).frame (hposts _) fun msg _ => hframe _ msg (hkept msg)
    · change (Function.update x.center.pc t (.acquire x.center.nextCall args) u).pending =
        some call at hnow
      by_cases heq : u = t
      · rw [heq, Function.update_self] at hnow
        obtain rfl := Option.some.inj hnow
        exact fun hmem => Nat.lt_irrefl _ (h.pushed _ hmem)
      · rw [hothers u heq] at hnow
        exact h.pending u call hnow

theorem AuditInv.step {action : Action Tid} (h : AuditInv x) (hinv : Inv x.center)
    (hlogged : Logged x.center) (hcalls : Calls x.center)
    (hstep : (audited Tid).step x action = some y) : AuditInv y := by
  obtain ⟨next, hnext, rfl⟩ := Option.map_eq_some_iff.mp hstep
  cases action with
  | run t => exact h.run hinv hlogged hcalls hnext
  | dispatcher => exact h.dispatchLoop hinv hnext
  | post t args =>
      simp only [Blocks.step] at hnext
      split at hnext
      · exact Option.some.inj hnext ▸ h.post t args
      · cases hnext
  | addObserver topicId callback =>
      simp only [Blocks.step, Option.ite_none_left_eq_some] at hnext
      obtain rfl := Option.some.inj hnext.2
      rw [addObserver]
      split
      · exact h
      · exact h.idle rfl rfl rfl rfl rfl (fun _ hin => hin) rfl
  | start =>
      simp only [Blocks.step] at hnext
      split at hnext
      · next hoff =>
        obtain rfl := Option.some.inj hnext
        refine h.idle rfl rfl rfl rfl rfl (fun y hin => ?_) ?_
        · rw [hoff] at hin
          exact hin
        · simp only [Audited.dispatched, Audited.withCenter, hoff]
      · exact Option.some.inj hnext ▸ h
  | stop =>
      simp only [Blocks.step] at hnext
      split at hnext
      · exact Option.some.inj hnext ▸ h
      · exact Option.some.inj hnext ▸ h.idle rfl rfl rfl rfl rfl (fun _ hin => hin) rfl

theorem reachable_center (hreach : (audited Tid).Reachable x) :
    (machine Tid).Reachable x.center := by
  induction hreach with
  | init => exact Machine.ReachableUnder.init
  | step _ _ hstep ih =>
      obtain ⟨next, hnext, rfl⟩ := Option.map_eq_some_iff.mp hstep
      exact ih.next hnext

theorem reachable_auditInv (hreach : (audited Tid).Reachable x) : AuditInv x := by
  induction hreach with
  | init => exact ⟨rfl, fun _ => trivial, nofun, rfl, nofun, rfl, List.nodup_nil, nofun, nofun⟩
  | step hreach _ hstep ih =>
      have hcenter := reachable_center hreach
      obtain ⟨hlogged, hcalls⟩ := reachable_logged hcenter
      exact ih.step (reachable_inv hcenter) hlogged hcalls hstep

end

/-! ### The law -/

/-- What a callback gets is what was posted, exactly if the size fits. -/
theorem Seen.Delivers.faithful_iff {seen : Seen} (h : seen.Delivers args) :
    seen.Faithful args ↔ args.size < 2 ^ 32 := by
  constructor
  · intro hfaithful
    rw [← hfaithful.size, h.size]
    exact Nat.mod_lt _ (by decide)
  · intro hfits
    exact ⟨h.topicId, h.size.trans (Nat.mod_eq_of_lt hfits), h.bytes⟩

theorem Audited.Delivers.faithful_iff {d : Delivery} (h : x.Delivers d []) :
    ∃ args, x.posted[d.call]? = some args ∧
      (d.Faithful args ↔ args.size < 2 ^ 32 ∨ callbacks d.registered = []) := by
  obtain ⟨args, hargs, hcalled, hseen⟩ := h
  have honce : callbacks d.registered = d.seen.map Seen.callback := by
    rw [hcalled]
    exact List.append_nil _
  refine ⟨args, hargs, fun hfaithful => ?_, fun hor => ⟨honce.symm, fun seen hmem => ?_⟩⟩
  · cases hd : d.seen with
    | nil => exact .inr (by rw [honce, hd]; rfl)
    | cons seen rest =>
        have hmem : seen ∈ d.seen := by simp [hd]
        exact .inl ((hseen seen hmem).faithful_iff.mp (hfaithful.faithful seen hmem))
  · refine (hseen seen hmem).faithful_iff.mpr (hor.resolve_right fun hnone => ?_)
    rw [honce, List.map_eq_nil_iff] at hnone
    rw [hnone] at hmem
    cases hmem

/-- What the audit of a run has found. -/
structure PayloadFidelity (x : Audited Tid) : Prop where
  /-- The messages leave the ring once each, in the order of the pushes. -/
  once : x.pushed.Nodup ∧ x.pushed = x.dispatched ++ x.center.m_queue.map x.carried
  /-- While an observer runs, the memory at its data pointer holds the posted bytes. -/
  bytes : ∀ draining msg callArgs rest, x.center.dispatcher = .callback draining msg callArgs rest →
    ∃ args, x.posted[x.carried msg]? = some args ∧ ∀ data, args.data = some data →
      ∀ i < args.size, x.center.bytes callArgs.data i = some (data i)
  faithful : ∀ d ∈ x.deliveries, ∃ args, x.posted[d.call]? = some args ∧
    (d.Faithful args ↔ args.size < 2 ^ 32 ∨ callbacks d.registered = [])

/-- **Payload fidelity.**  The dispatch of a message is faithful to its post exactly if the
size fits into 32 bits or no observer is there to notice. -/
theorem payload_fidelity [DecidableEq Tid] (hreach : (audited Tid).Reachable x) :
    PayloadFidelity x where
  once := ⟨(reachable_auditInv hreach).once, (reachable_auditInv hreach).order⟩
  bytes draining msg callArgs rest hpc := by
    have hin := (reachable_auditInv hreach).dispatcher
    rw [hpc] at hin
    obtain ⟨⟨args, hargs, -, hloaded⟩, -⟩ := hin
    have hdata : callArgs.data = (x.center.objects msg).data msg :=
      (reachable_inv (reachable_center hreach)).seen msg callArgs (by rw [hpc]; rfl)
    refine ⟨args, hargs, fun data hsome i hi => ?_⟩
    rw [hdata]
    exact hloaded.bytes data hsome i hi
  faithful d hmem := ((reachable_auditInv hreach).finished d hmem).faithful_iff

/-- One observer, and a post of `size` zero bytes that is dispatched. -/
def postSize (size : Nat) : List (Action Unit) :=
  [.addObserver 0 (some 7), .start, .post () ⟨0, some fun _ => 0, size⟩, .run (), .run (), .run (),
    .run ()] ++ List.replicate 9 .dispatcher

/-- Four gigabytes are announced to the observer as none. -/
theorem not_faithful_of_oversized : ¬ ∀ x : Audited Unit, (audited Unit).Reachable x →
    ∀ d ∈ x.deliveries, ∀ args, x.posted[d.call]? = some args →
      (0 < args.size → args.data.isSome) → d.Faithful args := by
  intro hclaim
  obtain ⟨x, hreach, htest⟩ := (audited Unit).exists_reachable_of_run (postSize (2 ^ 32))
    (fun x => x.deliveries.any fun d => decide (d.seen.map Seen.size = [0]) &&
      decide ((x.posted[d.call]?).map (fun args => (args.size, args.data.isSome)) =
        some (2 ^ 32, true))) (by decide +kernel)
  obtain ⟨d, hmem, htest⟩ := List.any_eq_true.mp htest
  simp only [Bool.and_eq_true, decide_eq_true_eq, Option.map_eq_some_iff] at htest
  obtain ⟨hsizes, args, hargs, hpost⟩ := htest
  obtain ⟨hsize, hdata⟩ := Prod.mk.inj hpost
  have hfaithful := hclaim x hreach d hmem args hargs fun _ => hdata
  cases hseen : d.seen with
  | nil => simp [hseen] at hsizes
  | cons seen rest =>
      have hzero : seen.size = 0 := by simp_all
      have hsame := (hfaithful.faithful seen (by simp [hseen])).size
      rw [hzero, hsize] at hsame
      cases hsame

/-- A payload of 100 bytes goes through a block. -/
theorem payload_fidelity_block : ∃ x : Audited Unit,
    x.deliveries.map (fun d => d.seen.map Seen.size) = [[100]] ∧ PayloadFidelity x := by
  obtain ⟨x, hreach, htest⟩ := (audited Unit).exists_reachable_of_run (postSize 100)
    (fun x => decide (x.deliveries.map (fun d => d.seen.map Seen.size) = [[100]]))
    (by decide +kernel)
  exact ⟨x, of_decide_eq_true htest, payload_fidelity hreach⟩

end MessageCenter.MessageCenterFast.Blocks
