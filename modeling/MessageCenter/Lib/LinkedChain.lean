import Mathlib.Data.List.Nodup
import Mathlib.Logic.Function.Basic

/-!
# Singly linked chains

A chain is a list of nodes threaded through a `next` function from a head
pointer to the null pointer.  The lemmas say what one pointer write does to it:
pushing a node in front, dropping the first node, and writing a node that is not
on the chain.
-/

namespace Concurrency.LinkedChain

universe u

variable {Node : Type u}

/-- `nodes` are met in this order from `head` through `next`, and then null. -/
def ChainFrom (next : Node → Option Node) : Option Node → List Node → Prop
  | head, [] => head = none
  | head, node :: rest => head = some node ∧ ChainFrom next (next node) rest

/-- `target` is met on the way from `head` through `next`. -/
inductive Reaches (next : Node → Option Node) : Option Node → Node → Prop
  | here (node : Node) : Reaches next (some node) node
  | there {node target : Node} :
      Reaches next (next node) target → Reaches next (some node) target

variable {next : Node → Option Node} {head : Option Node} {nodes : List Node}

theorem chainFrom_some {node : Node} :
    ChainFrom next (some node) nodes ↔ ∃ rest, nodes = node :: rest ∧ ChainFrom next (next node) rest := by
  cases nodes with
  | nil => simp [ChainFrom]
  | cons first rest =>
      simp only [ChainFrom, Option.some.injEq, List.cons.injEq]
      constructor
      · rintro ⟨rfl, hrest⟩
        exact ⟨rest, ⟨rfl, rfl⟩, hrest⟩
      · rintro ⟨_, ⟨rfl, rfl⟩, hrest⟩
        exact ⟨rfl, hrest⟩

/-- The nodes met from the head of a chain are the nodes of the chain. -/
theorem ChainFrom.reaches_iff (hchain : ChainFrom next head nodes) {target : Node} :
    Reaches next head target ↔ target ∈ nodes := by
  induction nodes generalizing head with
  | nil =>
      have hhead : head = none := hchain
      subst hhead
      constructor
      · intro hreach
        cases hreach
      · intro hmem
        cases hmem
  | cons node rest ih =>
      obtain ⟨rfl, hrest⟩ := hchain
      rw [List.mem_cons]
      constructor
      · intro hreach
        cases hreach with
        | here => exact Or.inl rfl
        | there htail => exact Or.inr ((ih hrest).mp htail)
      · rintro (rfl | hmem)
        · exact Reaches.here _
        · exact Reaches.there ((ih hrest).mpr hmem)

/-- A chain depends on the pointers of its own nodes only. -/
theorem ChainFrom.congr {next' : Node → Option Node} (hchain : ChainFrom next head nodes)
    (hsame : ∀ node ∈ nodes, next' node = next node) : ChainFrom next' head nodes := by
  induction nodes generalizing head with
  | nil => exact hchain
  | cons node rest ih =>
      obtain ⟨hhead, hrest⟩ := hchain
      refine ⟨hhead, ?_⟩
      rw [hsame node (List.mem_cons_self ..)]
      exact ih hrest (fun other hmem => hsame other (List.mem_cons_of_mem _ hmem))

theorem ChainFrom.update [DecidableEq Node] (hchain : ChainFrom next head nodes) {node : Node}
    (hnode : node ∉ nodes) (target : Option Node) :
    ChainFrom (Function.update next node target) head nodes :=
  hchain.congr fun other hmem => by
    have hne : other ≠ node := fun heq => hnode (heq ▸ hmem)
    simp [hne]

/-- A node whose pointer is the head becomes the new first node. -/
theorem ChainFrom.push (hchain : ChainFrom next head nodes) {node : Node}
    (hnext : next node = head) : ChainFrom next (some node) (node :: nodes) :=
  ⟨rfl, hnext ▸ hchain⟩

end Concurrency.LinkedChain
