import MessageCenter.SnapshotQueue.Likeness
import MessageCenter.MessageCenterFast.Erasure

/-!
# Recycled message objects

`EventQueueBroadcastFast` and `MessageCenterFast` take message objects from a pool that does
not clear them, and copy the payload only if there is a buffer.  A post that passes a buffer,
or no bytes at all, hides what the object held before; a null pointer with a size does not.
-/

namespace MessageCenter

open Concurrency

/-! ### `EventQueueBroadcastFast` -/

namespace SnapshotQueue.Nested

/-- Two runs that make the same calls, apart from the bytes passed to `post`. -/
def TwoRuns {k : Nat} (x y : Session k) : Prop :=
  ∃ actions actions', List.Forall₂ Action.Alike actions actions' ∧
    (machine k).run (machine k).init actions = some x ∧
    (machine k).run (machine k).init actions' = some y

/-- The posts that `covers` names receive the same in two runs, whatever the others pass. -/
def ToldNothing (k : Nat) (covers : PostArgs Unit → Prop) : Prop :=
  ∀ x y : Session k, TwoRuns x y → ∀ call args, x.posted[call]? = some args →
    y.posted[call]? = some args → covers args → x.received call = y.received call

/-- The inline branch of `post`. -/
def PassedInline (args : PostArgs Unit) : Prop := args.size ≤ FAST_INLINE_MAX

/-- There are bytes behind the pointer, or none are asked for. -/
def PassedBytes (args : PostArgs Unit) : Prop := args.data.isSome ∨ args.size = 0

theorem toldNothing {k : Nat} (hone : 1 ≤ k) (hk : k < 64) :
    ToldNothing k fun args => PassedInline args ∧ PassedBytes args := by
  rintro x y ⟨actions, actions', hactions, hrun, hrun'⟩ call args hargs hargs' ⟨hsmall, hbuffer⟩
  have hx := reachable_sessionInv hone hk (.of_run .init hrun)
  have hy := reachable_sessionInv hone hk (.of_run .init hrun')
  exact received_same (session_alike hactions hrun hrun') hx hy hargs hargs' hsmall hbuffer

/-- The byte `value` is posted and dispatched, and then `data` with size 1. -/
def afterByte (value : UInt8) (data : Option (List UInt8)) : List Action :=
  [.addObserver 0 ⟨7, 0⟩, .post ⟨(), 0, some [value], 1⟩, .dispatchOne, .ret,
    .post ⟨(), 0, data, 1⟩, .dispatchOne]

theorem afterByte_alike (value value' : UInt8) (data : Option (List UInt8)) :
    List.Forall₂ Action.Alike (afterByte value data) (afterByte value' data) :=
  .cons (.same _) (.cons (.post ⟨rfl, rfl, rfl⟩) (List.forall₂_same.mpr fun action _ => .same action))

/-- The second post has passed `data`, and its callback has read the byte `byte`. -/
def reads (data : Option (List UInt8)) (byte : UInt8) (x : Session 4) : Bool :=
  decide ((x.posted[1]?).map (fun args => (args.topicId, args.data, args.size)) =
      some (0, data, 1)) &&
    decide ((x.received 1).map CallEvent.data = [some [.byte byte]])

theorem exists_run_of_reads (value : UInt8) (data : Option (List UInt8)) (byte : UInt8)
    (h : ((machine 4).run (machine 4).init (afterByte value data)).any (reads data byte) = true) :
    ∃ x : Session 4, (machine 4).run (machine 4).init (afterByte value data) = some x ∧
      x.posted[1]? = some ⟨(), 0, data, 1⟩ ∧
      (x.received 1).map CallEvent.data = [some [.byte byte]] := by
  obtain ⟨x, hrun, hx⟩ := (Option.any_eq_true _ _).mp h
  simp only [reads, Bool.and_eq_true, decide_eq_true_eq, Option.map_eq_some_iff] at hx
  obtain ⟨⟨⟨lane, topicId, data', size⟩, hargs, hfields⟩, hreceived⟩ := hx
  obtain ⟨rfl, rfl, rfl⟩ : topicId = 0 ∧ data' = data ∧ size = 1 := by simpa using hfields
  exact ⟨x, hrun, hargs, hreceived⟩

/-- The null post reads the byte of the post before. -/
theorem null_told : ¬ToldNothing 4 PassedInline := by
  intro htold
  obtain ⟨x, hrun, hargs, hreceived⟩ := exists_run_of_reads 1 none 1 (by decide +kernel)
  obtain ⟨y, hrun', hargs', hreceived'⟩ := exists_run_of_reads 2 none 2 (by decide +kernel)
  have hsmall : PassedInline ⟨(), 0, none, 1⟩ := by simp [PassedInline, FAST_INLINE_MAX]
  have hsame := htold x y ⟨_, _, afterByte_alike 1 2 none, hrun, hrun'⟩ 1 _ hargs hargs' hsmall
  rw [hsame, hreceived'] at hreceived
  exact absurd hreceived (by decide)

end SnapshotQueue.Nested

/-! ### `MessageCenterFast` -/

namespace MessageCenterFast.Blocks

/-- Two runs that take the same steps, apart from the bytes passed to `post`. -/
def TwoRuns {Tid : Type} [DecidableEq Tid] (x y : Audited Tid) : Prop :=
  ∃ actions actions', List.Forall₂ Action.Alike actions actions' ∧
    (audited Tid).run (audited Tid).init actions = some x ∧
    (audited Tid).run (audited Tid).init actions' = some y

/-- The posts that `covers` names receive the same in two runs, whatever the others pass. -/
def ToldNothing (Tid : Type) [DecidableEq Tid] (covers : PostArgs → Prop) : Prop :=
  ∀ x y : Audited Tid, TwoRuns x y → ∀ call args args', x.posted[call]? = some args →
    y.posted[call]? = some args' → args.Same args' → covers args →
    x.received call = y.received call

/-- The inline branch of `post`. -/
def PassedInline (args : PostArgs) : Prop := args.size ≤ MC_FAST_INLINE_SIZE

/-- There are bytes behind the pointer, or none are asked for. -/
def PassedBytes (args : PostArgs) : Prop := args.data.isSome ∨ args.size = 0

theorem toldNothing (Tid : Type) [DecidableEq Tid] :
    ToldNothing Tid fun args => PassedInline args ∧ PassedBytes args := by
  rintro x y ⟨actions, actions', hactions, hrun, hrun'⟩ call args args' hargs hargs' hsame
    ⟨hsmall, hbuffer⟩
  have hx : AuditInv x := reachable_auditInv (.of_run .init hrun)
  have hy : AuditInv y := reachable_auditInv (.of_run .init hrun')
  exact received_same (audited_alike hactions hrun hrun') hx hy hargs hargs' hsame hsmall hbuffer

/-- A post that is dispatched. -/
def postDispatched (args : PostArgs) : List (Action Unit) :=
  [.post () args, .run (), .run (), .run (), .run ()] ++ List.replicate 9 .dispatcher

/-- The byte `value` is posted and dispatched, and then `data` with size 1. -/
def afterByte (value : UInt8) (data : Option (Nat → UInt8)) : List (Action Unit) :=
  [.addObserver 0 (some 7), .start] ++ postDispatched ⟨0, some fun _ => value, 1⟩ ++
    postDispatched ⟨0, data, 1⟩

theorem afterByte_alike (value value' : UInt8) (data : Option (Nat → UInt8)) :
    List.Forall₂ Action.Alike (afterByte value data) (afterByte value' data) :=
  .cons rfl (.cons rfl (.cons rfl (List.forall₂_same.mpr fun _ _ => rfl)))

/-- The post has passed one byte or a null pointer. -/
def PostArgs.OneByte (args : PostArgs) (passed : Option UInt8) : Prop :=
  args.topicId = 0 ∧ args.byte 0 = passed ∧ args.size = 1

theorem PostArgs.OneByte.same {args args' : PostArgs} {passed : Option UInt8}
    (h : args.OneByte passed) (h' : args'.OneByte passed) : args.Same args' := by
  obtain ⟨topicId, data, size⟩ := args
  obtain ⟨topicId', data', size'⟩ := args'
  obtain ⟨rfl, hbyte, rfl⟩ := h
  obtain ⟨rfl, hbyte', rfl⟩ := h'
  have hpassed := hbyte.trans hbyte'.symm
  refine ⟨?_, fun i hi => ?_⟩
  · cases data <;> cases data' <;> first | rfl | cases hpassed
  · obtain rfl : i = 0 := Nat.lt_one_iff.mp hi
    exact hpassed

/-- The second post has passed `passed`, and its callback has read the byte `byte`. -/
def reads (passed : Option UInt8) (byte : UInt8) (x : Audited Unit) : Bool :=
  decide ((x.posted[1]?).map (fun args => (args.topicId, args.byte 0, args.size)) =
      some (0, passed, 1)) &&
    decide (x.received 1 = [(7, 0, 1, [some byte])])

theorem exists_run_of_reads (value : UInt8) (data : Option (Nat → UInt8)) (passed : Option UInt8)
    (byte : UInt8)
    (h : ((audited Unit).run (audited Unit).init (afterByte value data)).any (reads passed byte) =
      true) :
    ∃ x : Audited Unit, ∃ args,
      (audited Unit).run (audited Unit).init (afterByte value data) = some x ∧
        x.posted[1]? = some args ∧ args.OneByte passed ∧
        x.received 1 = [(7, 0, 1, [some byte])] := by
  obtain ⟨x, hrun, hx⟩ := (Option.any_eq_true _ _).mp h
  simp only [reads, Bool.and_eq_true, decide_eq_true_eq, Option.map_eq_some_iff] at hx
  obtain ⟨⟨args, hargs, hfields⟩, hreceived⟩ := hx
  exact ⟨x, args, hrun, hargs, by simpa [PostArgs.OneByte] using hfields, hreceived⟩

/-- The null post reads the byte of the post before. -/
theorem null_told : ¬ToldNothing Unit PassedInline := by
  intro htold
  obtain ⟨x, args, hrun, hargs, hpassed, hreceived⟩ :=
    exists_run_of_reads 1 none none 1 (by decide +kernel)
  obtain ⟨y, args', hrun', hargs', hpassed', hreceived'⟩ :=
    exists_run_of_reads 2 none none 2 (by decide +kernel)
  have hsmall : PassedInline args := by simp [PassedInline, hpassed.2.2, MC_FAST_INLINE_SIZE]
  have hsame := htold x y ⟨_, _, afterByte_alike 1 2 none, hrun, hrun'⟩ 1 args args' hargs hargs'
    (hpassed.same hpassed') hsmall
  rw [hsame, hreceived'] at hreceived
  exact absurd hreceived (by decide)

end MessageCenterFast.Blocks

/-! ### Both classes -/

/-- **Recycled objects tell nothing.**  What the callbacks of an inline post receive does not
depend on the bytes of other posts, if it passes bytes itself or asks for none. -/
theorem recycled_tell_nothing {k : Nat} (hone : 1 ≤ k) (hk : k < 64) (Tid : Type)
    [DecidableEq Tid] :
    SnapshotQueue.Nested.ToldNothing k (fun args =>
        SnapshotQueue.Nested.PassedInline args ∧ SnapshotQueue.Nested.PassedBytes args) ∧
      MessageCenterFast.Blocks.ToldNothing Tid fun args =>
        MessageCenterFast.Blocks.PassedInline args ∧ MessageCenterFast.Blocks.PassedBytes args :=
  ⟨SnapshotQueue.Nested.toldNothing hone hk, MessageCenterFast.Blocks.toldNothing Tid⟩

/-- Both classes tell a null post the byte of the post before. -/
theorem null_posts_told : ¬SnapshotQueue.Nested.ToldNothing 4 SnapshotQueue.Nested.PassedInline ∧
    ¬MessageCenterFast.Blocks.ToldNothing Unit MessageCenterFast.Blocks.PassedInline :=
  ⟨SnapshotQueue.Nested.null_told, MessageCenterFast.Blocks.null_told⟩

open SnapshotQueue.Nested in
/-- A post that passes the byte 9 after a secret one. -/
theorem recycled_tell_nothing_nine :
    (∃ x y : Session 4, TwoRuns x y ∧
      (x.received 1).map SnapshotQueue.CallEvent.data = [some [.byte 9]] ∧
      x.received 1 = y.received 1) ∧
    ∃ x y : MessageCenterFast.Blocks.Audited Unit, x.received 1 = [(7, 0, 1, [some 9])] ∧
      x.received 1 = y.received 1 := by
  have htold := recycled_tell_nothing (k := 4) (by decide) (by decide) Unit
  constructor
  · obtain ⟨x, hrun, hargs, hreceived⟩ := exists_run_of_reads 1 (some [9]) 9 (by decide +kernel)
    obtain ⟨y, hrun', hargs', -⟩ := exists_run_of_reads 2 (some [9]) 9 (by decide +kernel)
    have hruns : TwoRuns x y := ⟨_, _, afterByte_alike 1 2 (some [9]), hrun, hrun'⟩
    have hcovers : PassedInline ⟨(), 0, some [9], 1⟩ := by simp [PassedInline, FAST_INLINE_MAX]
    exact ⟨x, y, hruns, hreceived, htold.1 x y hruns 1 _ hargs hargs' ⟨hcovers, .inl rfl⟩⟩
  · obtain ⟨x, args, hrun, hargs, hpassed, hreceived⟩ :=
      MessageCenterFast.Blocks.exists_run_of_reads 1 (some fun _ => 9) (some 9) 9
        (by decide +kernel)
    obtain ⟨y, args', hrun', hargs', hpassed', -⟩ :=
      MessageCenterFast.Blocks.exists_run_of_reads 2 (some fun _ => 9) (some 9) 9
        (by decide +kernel)
    refine ⟨x, y, hreceived, htold.2 x y ⟨_, _, MessageCenterFast.Blocks.afterByte_alike ..,
      hrun, hrun'⟩ 1 args args' hargs hargs' (hpassed.same hpassed') ⟨?_, .inl ?_⟩⟩
    · simp [MessageCenterFast.Blocks.PassedInline, hpassed.2.2,
        MessageCenterFast.Blocks.MC_FAST_INLINE_SIZE]
    · cases hdata : args.data with
      | none => simp [MessageCenterFast.Blocks.PostArgs.OneByte,
          MessageCenterFast.Blocks.PostArgs.byte, hdata] at hpassed
      | some bytes => rfl

end MessageCenter
