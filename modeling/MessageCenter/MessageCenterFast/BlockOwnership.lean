import MessageCenter.MessageCenterFast.Blocks
import MessageCenter.Lib.Circulation
import Mathlib.Tactic.Convert

/-!
# Who owns the blocks of `MessageCenterFast`

Messages are carriers and blocks are cargo: every step of `post` and of `dispatchLoop`
is a move of a depot, or changes nothing there.  So the blocks that exist are on the
messages in use, one on each that is marked, and are freed once.
-/

namespace MessageCenter.MessageCenterFast.Blocks

open Concurrency Circulation

variable {Tid : Type} {s next : State Tid}

/-! ### The depot -/

def Pc.hand : Pc → Hand
  | .idle | .acquire .. | .countPosted _ => .empty
  | .build _ _ msg | .allocate _ _ msg | .release _ msg => .blank msg
  | .tryPush _ msg | .reset _ msg => .ready msg

def DispatchPc.hand : DispatchPc → Hand
  | .off | .testStopping | .tryPop _ | .countDispatched _ => .empty
  | .dispatch _ msg | .observers _ msg _ _ | .callback _ msg _ _ | .reset _ msg => .ready msg
  | .release _ msg => .blank msg

/-- The message in `dispatch`, and what its observers get. -/
def DispatchPc.seen : DispatchPc → Option (Addr × CallArgs)
  | .observers _ msg args _ | .callback _ msg args _ => some (msg, args)
  | _ => none

/-- The actors are the threads, and `none` is the dispatch thread. -/
def State.depot (s : State Tid) : Depot (Option Tid) where
  hand
    | some t => (s.pc t).hand
    | none => s.dispatcher.hand
  pool := s.m_freeList
  queue := s.m_queue
  made := s.nextAddr
  scrapped := s.deleted
  marked msg := (s.objects msg).hasBlock
  cargo msg := (s.objects msg).managedData
  live block := (s.blocks block).isSome
  loaded := s.nextBlock
  destroyed := s.freed

theorem hasBlock_of_zero {object : MessageFast} (hflags : object.flags = 0) :
    object.hasBlock = false := by
  rw [MessageFast.hasBlock, hflags]
  decide

theorem hasBlock_of_one {object : MessageFast} (hflags : object.flags = 1) :
    object.hasBlock = true := by
  rw [MessageFast.hasBlock, hflags]
  decide

theorem marked_setObject (msg : Addr) {object : MessageFast} {mark : Bool}
    (hmark : object.hasBlock = mark) :
    (s.setObject msg object).depot.marked = Function.update s.depot.marked msg mark :=
  hmark ▸ Function.comp_update MessageFast.hasBlock s.objects msg object

theorem cargo_setObject (msg : Addr) (object : MessageFast) :
    (s.setObject msg object).depot.cargo =
      Function.update s.depot.cargo msg object.managedData :=
  Function.comp_update MessageFast.managedData s.objects msg object

variable [DecidableEq Tid] {t : Tid} {msg : Addr}

theorem depot_dispatchAt (pc : DispatchPc) :
    (s.dispatchAt pc).depot = s.depot.give none pc.hand := by
  simp only [State.depot, State.dispatchAt, Depot.give]
  congr 1
  funext actor
  cases actor with
  | none => rfl
  | some t => rfl

theorem depot_goto (pc : Pc) : (s.goto t pc).depot = s.depot.give (some t) pc.hand := by
  simp only [State.depot, State.goto, Depot.give]
  congr 1
  funext actor
  cases actor with
  | none => rfl
  | some u =>
      by_cases heq : u = t
      · simp [heq]
      · simp [heq]

variable {actor : Option Tid}

/-- An actor that has the same in hand as before. -/
theorem give_same {hand : Hand} (hhand : s.depot.hand actor = hand) :
    s.depot.give actor hand = s.depot := by
  rw [← hhand, Depot.give, Function.update_eq_self]

/-- A step of an actor is a move, or changes nothing in the depot. -/
def Moves (actor : Option Tid) (s next : State Tid) : Prop :=
  next.depot = s.depot ∨ Move actor s.depot next.depot

/-! ### The operations are moves -/

theorem acquire_move (hempty : s.depot.hand actor = .empty) :
    Move actor s.depot ((acquire s).1.depot.give actor (.blank (acquire s).2)) := by
  rcases hfree : s.m_freeList with _ | ⟨msg, rest⟩
  · have hacquire : acquire s = ({ s.setObject s.nextAddr .construct with
        m_allocated := s.m_allocated + 1
        nextAddr := s.nextAddr + 1 }, s.nextAddr) := by
      simp only [acquire, hfree]
    rw [hacquire]
    convert Move.make hempty using 1
    exact Depot.ext rfl rfl rfl rfl rfl (marked_setObject _ rfl) (cargo_setObject _ _) rfl rfl rfl
  · have hacquire : acquire s = ({ s with m_freeList := rest }, msg) := by
      simp only [acquire, hfree]
    rw [hacquire]
    exact Move.take hempty hfree

theorem release_move (hblank : s.depot.hand actor = .blank msg) :
    Move actor s.depot ((release s msg).depot.give actor .empty) := by
  rw [release]
  split
  · exact Move.scrap hblank
  · exact Move.store hblank

theorem build_move (args : PostArgs) (hblank : s.depot.hand actor = .blank msg) :
    Move actor s.depot ((build s args msg).depot.give actor
      (if args.size ≤ MC_FAST_INLINE_SIZE then .ready msg else .blank msg)) := by
  have hsame : Function.update s.depot.cargo msg (s.objects msg).managedData = s.depot.cargo :=
    Function.update_eq_self msg s.depot.cargo
  rw [build]
  split
  · convert Move.getReady hblank using 1
    exact Depot.ext rfl rfl rfl rfl rfl (marked_setObject _ (hasBlock_of_zero rfl))
      ((cargo_setObject _ _).trans hsame) rfl rfl rfl
  · convert Move.mark hblank using 1
    refine Depot.ext ?_ rfl rfl rfl rfl (marked_setObject _ (hasBlock_of_one rfl))
      ((cargo_setObject _ _).trans hsame) rfl rfl rfl
    have hhand : (s.depot.give actor (.blank msg)).hand = s.depot.hand := by rw [give_same hblank]
    exact hhand

theorem allocate_move {call : Nat} {args : PostArgs} (hblank : s.depot.hand actor = .blank msg)
    (hmark : s.depot.marked msg = true) :
    Move actor s.depot ((allocate s call args msg).depot.give actor (.ready msg)) := by
  have hlive := Function.comp_update Option.isSome s.blocks s.nextBlock
  convert Move.load hblank hmark using 1
  refine Depot.ext rfl rfl rfl rfl rfl ?_ (cargo_setObject _ _) ?_ rfl rfl
  · refine (marked_setObject _ rfl).trans ?_
    exact Function.update_eq_self msg s.depot.marked
  · exact hlive _

theorem reset_move {caller : Option Nat} (hready : s.depot.hand actor = .ready msg) :
    Move actor s.depot ((reset s caller msg).depot.give actor (.blank msg)) := by
  let object : MessageFast := { s.objects msg with
    managedData := none, topicId := 0, flags := 0, size := 0, refCount := 0 }
  rcases hcargo : (s.objects msg).managedData with _ | block
  · have hreset : reset s caller msg = s.setObject msg object := by
      simp only [reset, hcargo, object]
    rw [hreset]
    convert Move.unloadNothing hready hcargo using 1
    exact Depot.ext rfl rfl rfl rfl rfl (marked_setObject _ (hasBlock_of_zero rfl)) (cargo_setObject _ _) rfl rfl rfl
  · have hreset : reset s caller msg = (free s caller block).setObject msg object := by
      simp only [reset, hcargo, object]
    rw [hreset]
    convert Move.unload hready hcargo using 1
    refine Depot.ext rfl rfl rfl rfl rfl (marked_setObject _ (hasBlock_of_zero rfl)) (cargo_setObject _ _) ?_ rfl rfl
    exact Function.comp_update Option.isSome s.blocks block none

/-! ### Every step is a move -/

/-- The depot is in order, a thread that is about to allocate has marked its message,
and the observers get the data of the message that is dispatched. -/
structure Inv (s : State Tid) : Prop where
  depot : s.depot.Inv
  marked : ∀ t call args msg, s.pc t = .allocate call args msg → (s.objects msg).hasBlock = true
  seen : ∀ msg args, s.dispatcher.seen = some (msg, args) → args.data = (s.objects msg).data msg

theorem run_moves (hinv : Inv s) (hrun : run s t = some next) : Moves (some t) s next := by
  have hhand : ∀ {pc}, s.pc t = pc → s.depot.hand (some t) = pc.hand := by
    rintro pc rfl
    rfl
  rw [run] at hrun
  cases hpc : s.pc t with
  | idle => simp [hpc] at hrun
  | acquire call args =>
      simp only [hpc, Option.some.injEq] at hrun
      subst hrun
      right
      rw [depot_goto]
      exact acquire_move (hhand hpc)
  | build call args msg =>
      simp only [hpc, Option.some.injEq] at hrun
      subst hrun
      right
      rw [depot_goto]
      convert build_move args (hhand hpc) using 2
      split <;> rfl
  | allocate call args msg =>
      simp only [hpc, Option.some.injEq] at hrun
      subst hrun
      right
      rw [depot_goto]
      exact allocate_move (hhand hpc) (hinv.marked t call args msg hpc)
  | tryPush call msg =>
      simp only [hpc] at hrun
      split at hrun
      · simp only [Option.some.injEq] at hrun
        subst hrun
        right
        rw [depot_goto]
        exact Move.enqueue (hhand hpc)
      · simp only [Option.some.injEq] at hrun
        subst hrun
        left
        rw [depot_goto]
        exact give_same ((hhand hpc).trans rfl)
  | countPosted call =>
      simp only [hpc, Option.some.injEq] at hrun
      subst hrun
      left
      rw [depot_goto]
      exact give_same ((hhand hpc).trans rfl)
  | reset call msg =>
      simp only [hpc, Option.some.injEq] at hrun
      subst hrun
      right
      rw [depot_goto]
      exact reset_move (hhand hpc)
  | release call msg =>
      simp only [hpc, Option.some.injEq] at hrun
      subst hrun
      right
      have hdepot : (refuse ((release s msg).goto t .idle) call).depot =
          (release s msg).depot.give (some t) .empty := depot_goto .idle
      rw [hdepot]
      exact release_move (hhand hpc)

theorem dispatch_moves {draining : Bool} (hpc : s.dispatcher = .dispatch draining msg) :
    (dispatch s draining msg).depot = s.depot := by
  have hhand : s.depot.hand none = .ready msg := congrArg DispatchPc.hand hpc
  rw [dispatch]
  split
  · rw [depot_dispatchAt]
    exact give_same hhand
  · rw [depot_dispatchAt]
    exact give_same hhand

theorem dispatchLoop_moves (hdispatch : dispatchLoop s = some next) : Moves none s next := by
  have hhand : ∀ {pc}, s.dispatcher = pc → s.depot.hand none = pc.hand := by
    rintro pc rfl
    rfl
  have hstay : ∀ {pc pc'}, s.dispatcher = pc → pc'.hand = pc.hand →
      Moves none s (s.dispatchAt pc') := by
    intro pc pc' hpc hsame
    left
    rw [depot_dispatchAt, hsame]
    exact give_same (hhand hpc)
  rw [dispatchLoop] at hdispatch
  cases hpc : s.dispatcher with
  | off => simp [hpc] at hdispatch
  | testStopping =>
      simp only [hpc, Option.some.injEq] at hdispatch
      exact hdispatch ▸ hstay hpc rfl
  | tryPop draining =>
      simp only [hpc] at hdispatch
      split at hdispatch
      · next msg rest hqueue =>
        simp only [Option.some.injEq] at hdispatch
        subst hdispatch
        right
        rw [depot_dispatchAt]
        exact Move.dequeue (hhand hpc) hqueue
      · simp only [Option.some.injEq] at hdispatch
        refine hdispatch ▸ hstay hpc ?_
        cases draining <;> rfl
  | dispatch draining msg =>
      simp only [hpc, Option.some.injEq] at hdispatch
      exact hdispatch ▸ Or.inl (dispatch_moves hpc)
  | observers draining msg args rest =>
      rcases rest with _ | ⟨_ | callback, rest⟩ <;>
        simp only [hpc, Option.some.injEq] at hdispatch <;> exact hdispatch ▸ hstay hpc rfl
  | callback draining msg args rest =>
      simp only [hpc, Option.some.injEq] at hdispatch
      exact hdispatch ▸ hstay hpc rfl
  | reset draining msg =>
      simp only [hpc, Option.some.injEq] at hdispatch
      subst hdispatch
      right
      rw [depot_dispatchAt]
      exact reset_move (hhand hpc)
  | release draining msg =>
      simp only [hpc, Option.some.injEq] at hdispatch
      subst hdispatch
      right
      rw [depot_dispatchAt]
      exact release_move (hhand hpc)
  | countDispatched draining =>
      simp only [hpc, Option.some.injEq] at hdispatch
      subst hdispatch
      left
      have hsame : (if draining then DispatchPc.tryPop true else .testStopping).hand = .empty := by
        cases draining <;> rfl
      rw [depot_dispatchAt, hsame]
      exact give_same (hhand hpc)

/-! ### What the operations leave alone -/

omit [DecidableEq Tid] in
/-- Where everybody is, and the calls. -/
def State.control (s : State Tid) : (Tid → Pc) × DispatchPc × Nat × List Nat :=
  (s.pc, s.dispatcher, s.nextCall, s.refused)

omit [DecidableEq Tid] in
theorem calls_of_control {after : State Tid} (hcontrol : after.control = s.control) :
    after.nextCall = s.nextCall ∧ after.refused = s.refused := by
  obtain ⟨_, hrest⟩ := Prod.mk.inj hcontrol
  exact Prod.mk.inj (Prod.mk.inj hrest).2

omit [DecidableEq Tid] in
theorem acquire_control : (acquire s).1.control = s.control := by
  rw [acquire]
  split <;> rfl

omit [DecidableEq Tid] in
theorem release_control : (release s msg).control = s.control := by
  rw [release]
  split <;> rfl

omit [DecidableEq Tid] in
theorem build_control {args : PostArgs} : (build s args msg).control = s.control := by
  rw [build]
  split <;> rfl

omit [DecidableEq Tid] in
theorem reset_control {caller : Option Nat} : (reset s caller msg).control = s.control := by
  rw [reset]
  split <;> rfl

theorem goto_frame {after : State Tid} (pc : Pc) (hcontrol : after.control = s.control) :
    (after.goto t pc).dispatcher = s.dispatcher ∧
      ∀ other, other ≠ t → (after.goto t pc).pc other = s.pc other := by
  obtain ⟨hpc, hrest⟩ := Prod.mk.inj hcontrol
  refine ⟨(Prod.mk.inj hrest).1, fun other hne => ?_⟩
  exact (Function.update_of_ne hne _ _).trans (congrFun hpc other)

/-- A step of a thread leaves the others where they are. -/
theorem run_frame (hrun : run s t = some next) :
    next.dispatcher = s.dispatcher ∧ ∀ other, other ≠ t → next.pc other = s.pc other := by
  rw [run] at hrun
  cases hpc : s.pc t with
  | idle => simp [hpc] at hrun
  | acquire call args =>
      simp only [hpc, Option.some.injEq] at hrun
      exact hrun ▸ goto_frame _ acquire_control
  | build call args msg =>
      simp only [hpc, Option.some.injEq] at hrun
      exact hrun ▸ goto_frame _ build_control
  | allocate call args msg =>
      simp only [hpc, Option.some.injEq] at hrun
      have hcontrol : (allocate s call args msg).control = s.control := rfl
      exact hrun ▸ goto_frame _ hcontrol
  | tryPush call msg =>
      simp only [hpc] at hrun
      split at hrun
      · have hcontrol : (push s call msg).control = s.control := rfl
        exact Option.some.inj hrun ▸ goto_frame _ hcontrol
      · exact Option.some.inj hrun ▸ goto_frame _ rfl
  | countPosted call =>
      simp only [hpc, Option.some.injEq] at hrun
      have hcontrol : (countPosted s call).control = s.control := rfl
      exact hrun ▸ goto_frame _ hcontrol
  | reset call msg =>
      simp only [hpc, Option.some.injEq] at hrun
      exact hrun ▸ goto_frame _ reset_control
  | release call msg =>
      simp only [hpc, Option.some.injEq] at hrun
      exact hrun ▸ goto_frame .idle release_control

/-! ### The invariant -/

/-- What an actor has in hand keeps its block while others move. -/
theorem Moves.keeps {other : Option Tid} (hmoves : Moves actor s next) (hinv : s.depot.Inv)
    (hne : other ≠ actor) (hmem : msg ∈ (s.depot.hand other).carriers) :
    (next.objects msg).managedData = (s.objects msg).managedData ∧
      (next.objects msg).hasBlock = (s.objects msg).hasBlock := by
  rcases hmoves with hsame | hmove
  · exact ⟨congrArg (Depot.cargo · msg) hsame, congrArg (Depot.marked · msg) hsame⟩
  · exact (hmove.others hinv hne).2 msg hmem

theorem Moves.depot (hmoves : Moves actor s next) (hinv : s.depot.Inv) : next.depot.Inv := by
  rcases hmoves with hsame | hmove
  · exact hsame ▸ hinv
  · exact hmove.inv hinv

theorem Moves.data {other : Option Tid} (hmoves : Moves actor s next) (hinv : s.depot.Inv)
    (hne : other ≠ actor) (hmem : msg ∈ (s.depot.hand other).carriers) :
    (next.objects msg).data msg = (s.objects msg).data msg := by
  obtain ⟨hmanaged, hmark⟩ := hmoves.keeps hinv hne hmem
  rw [MessageFast.data, MessageFast.data, hmanaged, hmark]

omit [DecidableEq Tid] in
theorem seen_mem {args : CallArgs} (hseen : s.dispatcher.seen = some (msg, args)) :
    msg ∈ (s.depot.hand none).carriers := by
  have hhand : s.depot.hand none = s.dispatcher.hand := rfl
  rw [hhand]
  cases hpc : s.dispatcher <;> simp [hpc, DispatchPc.seen] at hseen <;>
    simp [DispatchPc.hand, Hand.carriers, hseen.1]

/-- A thread goes on to allocate after it has marked its message. -/
theorem run_marked {call : Nat} {args : PostArgs} (hrun : run s t = some next)
    (hnow : next.pc t = .allocate call args msg) : (next.objects msg).hasBlock = true := by
  have hgoto : ∀ (after : State Tid) (pc : Pc), after.goto t pc = next → pc = next.pc t := by
    rintro after pc rfl
    exact (Function.update_self t pc after.pc).symm
  rw [run] at hrun
  cases hpc : s.pc t with
  | idle => simp [hpc] at hrun
  | build call' args' msg' =>
      simp only [hpc, Option.some.injEq] at hrun
      have hsame := hgoto _ _ hrun
      rw [hnow] at hsame
      split at hsame
      · cases hsame
      · next hlarge =>
        obtain ⟨rfl, rfl, rfl⟩ := Pc.allocate.inj hsame
        rw [← hrun]
        apply hasBlock_of_one
        simp [State.goto, build, hlarge, State.setObject]
  | tryPush call' msg' =>
      simp only [hpc] at hrun
      split at hrun
      · have hsame := hgoto _ _ (Option.some.inj hrun)
        rw [hnow] at hsame
        cases hsame
      · have hsame := hgoto _ _ (Option.some.inj hrun)
        rw [hnow] at hsame
        cases hsame
  | release call' msg' =>
      simp only [hpc, Option.some.injEq] at hrun
      have hidle : next.pc t = .idle := hrun ▸ Function.update_self ..
      rw [hnow] at hidle
      cases hidle
  | _ =>
      simp only [hpc, Option.some.injEq] at hrun
      have hsame := hgoto _ _ hrun
      rw [hnow] at hsame
      cases hsame

theorem Inv.run (hinv : Inv s) (hrun : run s t = some next) : Inv next := by
  have hmoves := run_moves hinv hrun
  obtain ⟨hdispatcher, hothers⟩ := run_frame hrun
  refine ⟨hmoves.depot hinv.depot, fun u call args msg hpc => ?_, fun msg args hseen => ?_⟩
  · by_cases heq : u = t
    · subst heq
      exact run_marked hrun hpc
    · rw [hothers u heq] at hpc
      have hmem : msg ∈ (s.depot.hand (some u)).carriers := by
        have hhand : s.depot.hand (some u) = (s.pc u).hand := rfl
        simp [hhand, hpc, Pc.hand, Hand.carriers]
      rw [(hmoves.keeps hinv.depot (by simpa using heq) hmem).2]
      exact hinv.marked u call args msg hpc
  · rw [hdispatcher] at hseen
    rw [hmoves.data hinv.depot (Option.some_ne_none t).symm (seen_mem hseen)]
    exact hinv.seen msg args hseen

omit [DecidableEq Tid] in
theorem dispatchLoop_pc (hdispatch : dispatchLoop s = some next) : next.pc = s.pc := by
  rw [dispatchLoop] at hdispatch
  cases hpc : s.dispatcher with
  | off => simp [hpc] at hdispatch
  | tryPop draining =>
      simp only [hpc] at hdispatch
      split at hdispatch <;> exact Option.some.inj hdispatch ▸ rfl
  | dispatch draining msg =>
      simp only [hpc, Option.some.injEq] at hdispatch
      rw [← hdispatch, dispatch]
      split <;> rfl
  | observers draining msg args rest =>
      rcases rest with _ | ⟨_ | callback, rest⟩ <;>
        simp only [hpc, Option.some.injEq] at hdispatch <;> exact hdispatch ▸ rfl
  | reset draining msg =>
      simp only [hpc, Option.some.injEq] at hdispatch
      exact hdispatch ▸ congrArg Prod.fst (reset_control (s := s))
  | release draining msg =>
      simp only [hpc, Option.some.injEq] at hdispatch
      exact hdispatch ▸ congrArg Prod.fst (release_control (s := s))
  | _ =>
      simp only [hpc, Option.some.injEq] at hdispatch
      exact hdispatch ▸ rfl

omit [DecidableEq Tid] in
/-- The observers get the data of the message. -/
theorem dispatchLoop_seen (hinv : Inv s) (hdispatch : dispatchLoop s = some next)
    {args : CallArgs} (hseen : next.dispatcher.seen = some (msg, args)) :
    args.data = (next.objects msg).data msg := by
  rw [dispatchLoop] at hdispatch
  cases hpc : s.dispatcher with
  | off => simp [hpc] at hdispatch
  | tryPop draining =>
      simp only [hpc] at hdispatch
      split at hdispatch
      · rw [← Option.some.inj hdispatch] at hseen
        simp [State.dispatchAt, DispatchPc.seen] at hseen
      · rw [← Option.some.inj hdispatch] at hseen
        cases draining <;> simp [State.dispatchAt, DispatchPc.seen] at hseen
  | dispatch draining msg' =>
      simp only [hpc, Option.some.injEq] at hdispatch
      subst hdispatch
      rw [dispatch] at hseen ⊢
      split at hseen
      · simp [State.dispatchAt, DispatchPc.seen] at hseen
      · next hvalid =>
        simp only [State.dispatchAt, DispatchPc.seen, Option.some.injEq, Prod.mk.injEq] at hseen
        obtain ⟨rfl, rfl⟩ := hseen
        rw [if_neg hvalid]
        rfl
  | observers draining msg' args' rest =>
      have hbefore := hinv.seen msg' args' (by rw [hpc]; rfl)
      rcases rest with _ | ⟨_ | callback, rest⟩ <;>
        simp only [hpc, Option.some.injEq] at hdispatch <;> subst hdispatch <;>
        simp [State.dispatchAt, DispatchPc.seen] at hseen
      · obtain ⟨rfl, rfl⟩ := hseen
        exact hbefore
      · obtain ⟨rfl, rfl⟩ := hseen
        exact hbefore
  | callback draining msg' args' rest =>
      have hbefore := hinv.seen msg' args' (by rw [hpc]; rfl)
      simp only [hpc, Option.some.injEq] at hdispatch
      subst hdispatch
      simp only [State.dispatchAt, DispatchPc.seen, Option.some.injEq, Prod.mk.injEq] at hseen
      obtain ⟨rfl, rfl⟩ := hseen
      exact hbefore
  | countDispatched draining =>
      simp only [hpc, Option.some.injEq] at hdispatch
      subst hdispatch
      cases draining <;> simp [State.dispatchAt, DispatchPc.seen] at hseen
  | _ =>
      simp only [hpc, Option.some.injEq] at hdispatch
      subst hdispatch
      simp [State.dispatchAt, DispatchPc.seen] at hseen

theorem Inv.dispatchLoop (hinv : Inv s) (hdispatch : dispatchLoop s = some next) : Inv next := by
  have hmoves := dispatchLoop_moves hdispatch
  refine ⟨hmoves.depot hinv.depot, fun u call args msg hpc => ?_,
    fun msg args => dispatchLoop_seen hinv hdispatch⟩
  rw [dispatchLoop_pc hdispatch] at hpc
  have hmem : msg ∈ (s.depot.hand (some u)).carriers := by
    have hhand : s.depot.hand (some u) = (s.pc u).hand := rfl
    simp [hhand, hpc, Pc.hand, Hand.carriers]
  rw [(hmoves.keeps hinv.depot (Option.some_ne_none u) hmem).2]
  exact hinv.marked u call args msg hpc

omit [DecidableEq Tid] in
theorem inv_init : Inv (init : State Tid) where
  depot := by
    apply Depot.inv_stocked
    · simp only [State.depot, init]
      exact List.reverse_perm _
    · rfl
    · intro actor
      cases actor <;> rfl
    · rfl
    · exact fun _ => rfl
    · exact fun _ => rfl
    · rfl
    · rfl
  marked _ _ _ _ hpc := nomatch hpc
  seen _ _ hseen := nomatch hseen

omit [DecidableEq Tid] in
theorem Inv.congr (hinv : Inv s) (hdepot : next.depot = s.depot)
    (hobjects : next.objects = s.objects)
    (hpc : ∀ t call args msg, next.pc t = .allocate call args msg →
      s.pc t = .allocate call args msg)
    (hseen : ∀ seen, next.dispatcher.seen = some seen → s.dispatcher.seen = some seen) :
    Inv next where
  depot := hdepot ▸ hinv.depot
  marked t call args msg hnow := hobjects ▸ hinv.marked t call args msg (hpc t call args msg hnow)
  seen msg args hnow := hobjects ▸ hinv.seen msg args (hseen _ hnow)

theorem Inv.post {args : PostArgs} (hinv : Inv s) (hidle : s.pc t = .idle) :
    Inv (post s t args) := by
  have hempty : s.depot.hand (some t) = .empty := congrArg Pc.hand hidle
  rw [Blocks.post]
  split
  · exact hinv.congr rfl rfl (fun _ _ _ _ hpc => hpc) fun _ hseen => hseen
  · apply hinv.congr
    · rw [depot_goto]
      exact give_same hempty
    · rfl
    · intro u call args' msg hpc
      by_cases heq : u = t
      · simp [State.goto, heq] at hpc
      · simpa [State.goto, heq] using hpc
    · exact fun _ hseen => hseen

theorem Inv.step {action : Action Tid} (hinv : Inv s)
    (hstep : Blocks.step s action = some next) : Inv next := by
  cases action with
  | run t => exact hinv.run hstep
  | dispatcher => exact hinv.dispatchLoop hstep
  | post t args =>
      simp only [Blocks.step] at hstep
      split at hstep
      · next hidle => exact Option.some.inj hstep ▸ hinv.post hidle
      · cases hstep
  | addObserver topicId callback =>
      simp only [Blocks.step, Option.ite_none_left_eq_some] at hstep
      rw [← Option.some.inj hstep.2, addObserver]
      split
      · exact hinv
      · exact hinv.congr rfl rfl (fun _ _ _ _ hpc => hpc) fun _ hseen => hseen
  | start =>
      simp only [Blocks.step] at hstep
      split at hstep
      · next hoff =>
        have hempty : s.depot.hand none = .empty := congrArg DispatchPc.hand hoff
        rw [← Option.some.inj hstep]
        apply hinv.congr
        · have hdepot := depot_dispatchAt (s := { s with m_stopping := false }) .testStopping
          exact hdepot.trans (give_same hempty)
        · rfl
        · exact fun _ _ _ _ hpc => hpc
        · exact fun _ hseen => nomatch hseen
      · exact Option.some.inj hstep ▸ hinv
  | stop =>
      simp only [Blocks.step] at hstep
      split at hstep
      · exact Option.some.inj hstep ▸ hinv
      · rw [← Option.some.inj hstep]
        exact hinv.congr rfl rfl (fun _ _ _ _ hpc => hpc) fun _ hseen => hseen

theorem reachable_inv (hreach : (machine Tid).Reachable s) : Inv s :=
  hreach.invariant Inv inv_init fun _ _ _ hinv hstep => hinv.step hstep

end MessageCenter.MessageCenterFast.Blocks
