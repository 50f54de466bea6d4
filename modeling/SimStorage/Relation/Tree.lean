import Mathlib.Data.List.Nodup
import SimStorage.Relation.Steps

namespace SimStorage.Relation

/-!
# The relation is a tree

Ids grow, every node but the root hangs below a directory with a smaller id,
and siblings have different names.  A directory is the first of the siblings
that its text may stand for, so that paths lead to it.
-/

open Codec Table Interaction

variable {Value Expr Head σ α : Type}

namespace State

/-- Nodes with growing ids, each but the root below a directory. -/
structure IsTree (state : State Value) : Prop where
  ordered : state.nodes.Pairwise fun first second => first.id < second.id
  bounded : ∀ node ∈ state.nodes, node.id < state.nextId
  root : ∃ node ∈ state.nodes, node.id = 0 ∧ node.parent = 0 ∧
    node.name = .new "" ∧ node.kind = .dir
  parent : ∀ node ∈ state.nodes, node.id ≠ 0 → node.parent < node.id ∧
    ∃ holder ∈ state.nodes, holder.id = node.parent ∧ holder.kind = .dir
  siblings : ∀ first ∈ state.nodes, ∀ second ∈ state.nodes,
    first.parent = second.parent → first.name = second.name → first = second

/-- Directories come before the siblings that are written like them. -/
def DirsFirst (state : State Value) : Prop :=
  ∀ dir ∈ state.nodes, dir.kind = .dir → ∀ node ∈ state.nodes,
    node.parent = dir.parent → node.name.name = dir.name.name →
      dir.id ≤ node.id

/-- A node that is reached from the root through parents. -/
inductive Reachable (state : State Value) : Nat → Prop where
  | root : Reachable state 0
  | child {node : Node Value} :
      node ∈ state.nodes → Reachable state node.parent →
        Reachable state node.id

end State

variable {state after : State Value} {node other : Node Value}
variable {codec : RelationValueCodec Value} {isLegal : String → Bool}
variable {plan : Plan Value} {parent id : Nat} {path : List String}
variable {part : String} {name : Symbol}

section Lookups

theorem State.IsTree.eq_of_id
    (tree : state.IsTree)
    (first : node ∈ state.nodes)
    (second : other ∈ state.nodes)
    (same : node.id = other.id) :
    node = other := by
  have distinct : (state.nodes.map Node.id).Nodup :=
    List.pairwise_map.mpr (tree.ordered.imp fun less => Nat.ne_of_lt less)
  exact List.inj_on_of_nodup_map distinct first second same

/-- What is found has the smallest id. -/
theorem le_of_find
    {nodes : List (Node Value)} {test : Node Value → Bool}
    (ordered : nodes.Pairwise fun first second => first.id < second.id)
    (found : nodes.find? test = some node)
    (member : other ∈ nodes)
    (passes : test other = true) :
    node.id ≤ other.id := by
  obtain ⟨_, before, later, rfl, fails⟩ :=
    List.find?_eq_some_iff_append.mp found
  rcases List.mem_append.mp member with early | rest
  · have failed := fails other early
    simp [passes] at failed
  · rcases List.mem_cons.mp rest with rfl | late
    · exact Nat.le_refl _
    · have tail := (List.pairwise_append.mp ordered).2.1
      exact Nat.le_of_lt ((List.pairwise_cons.mp tail).1 other late)

theorem State.next_none_iff :
    state.next id part = none ↔
      ∀ node ∈ state.nodes, node.parent = id → node.name.name ≠ part := by
  simp [State.next]

/-- A name leads to the first sibling that is written so. -/
theorem State.IsTree.next_some
    (tree : state.IsTree)
    {found : Nat}
    (leads : state.next id part = some found) :
    ∃ node ∈ state.nodes, node.id = found ∧ node.parent = id ∧
      node.name.name = part ∧ ∀ other ∈ state.nodes, other.parent = id →
        other.name.name = part → node.id ≤ other.id := by
  obtain ⟨node, first, rfl⟩ := Option.map_eq_some_iff.mp leads
  have holds := List.find?_some first
  simp only [decide_eq_true_eq] at holds
  exact ⟨node, List.mem_of_find?_eq_some first, rfl, holds.1, holds.2,
    fun other member sibling written =>
      le_of_find tree.ordered first member (by simp [sibling, written])⟩

/-- A name leads to a node that comes first. -/
theorem State.IsTree.next_of_first
    (tree : state.IsTree)
    (member : node ∈ state.nodes)
    (first : ∀ other ∈ state.nodes, other.parent = node.parent →
      other.name.name = node.name.name → node.id ≤ other.id) :
    state.next node.parent node.name.name = some node.id := by
  cases leads : state.next node.parent node.name.name with
  | none => exact absurd rfl (State.next_none_iff.mp leads node member rfl)
  | some found =>
      obtain ⟨other, inNodes, rfl, sibling, written, least⟩ :=
        tree.next_some leads
      have same : other.id = node.id :=
        Nat.le_antisymm (least node member rfl rfl)
          (first other inNodes sibling written)
      rw [same]

/-- A node that is not the root and has no children. -/
def State.Leaf (state : State Value) (node : Node Value) : Prop :=
  node.id ≠ 0 ∧ ∀ other ∈ state.nodes, other.parent ≠ node.id

theorem State.Leaf.next
    (leaf : state.Leaf node)
    (part : String) :
    state.next node.id part = none :=
  State.next_none_iff.mpr fun other member isChild =>
    absurd isChild (leaf.2 other member)

/-- Values have no children. -/
theorem State.IsTree.value_leaf
    (tree : state.IsTree)
    (member : node ∈ state.nodes)
    (isValue : node.kind = .value) :
    state.Leaf node := by
  have notRoot : node.id ≠ 0 := by
    intro isRoot
    obtain ⟨root, inNodes, rootId, _, _, isDir⟩ := tree.root
    rw [tree.eq_of_id member inNodes (isRoot.trans rootId.symm), isDir]
      at isValue
    cases isValue
  refine ⟨notRoot, fun other inNodes isChild => ?_⟩
  by_cases isRoot : other.id = 0
  · obtain ⟨root, rootIn, rootId, rootParent, _⟩ := tree.root
    have same := tree.eq_of_id inNodes rootIn (isRoot.trans rootId.symm)
    exact notRoot (isChild.symm.trans (same ▸ rootParent))
  · obtain ⟨_, holder, holderIn, holds, isDir⟩ :=
      tree.parent other inNodes isRoot
    rw [tree.eq_of_id holderIn member (holds.trans isChild), isValue] at isDir
    cases isDir

/-- An empty directory has no children. -/
theorem State.IsTree.empty_leaf
    (tree : state.IsTree)
    (member : node ∈ state.nodes)
    (notRoot : node.id ≠ 0)
    (empty : ∀ other ∈ state.nodes, other.parent = node.id →
      other.id = node.id) :
    state.Leaf node := by
  refine ⟨notRoot, fun other inNodes isChild => ?_⟩
  have same := tree.eq_of_id inNodes member (empty other inNodes isChild)
  have less := (tree.parent node member notRoot).1
  rw [same] at isChild
  exact Nat.ne_of_lt less isChild

/-- Every node is reached from the root. -/
theorem State.IsTree.reachable
    (tree : state.IsTree)
    (member : node ∈ state.nodes) :
    state.Reachable node.id := by
  induction small : node.id using Nat.strong_induction_on generalizing node with
  | _ id inductionHypothesis =>
      subst small
      by_cases isRoot : node.id = 0
      · rw [isRoot]
        exact .root
      · obtain ⟨less, holder, inNodes, holds, _⟩ :=
          tree.parent node member isRoot
        have above := inductionHypothesis holder.id (holds ▸ less) inNodes rfl
        exact .child member (holds ▸ above)

end Lookups

section Changes

/-- The changes that keep what a node is and where. -/
def Outlines (change : Node Value → Node Value) : Prop :=
  ∀ node, (change node).id = node.id ∧ (change node).parent = node.parent ∧
    (change node).name = node.name ∧ (change node).kind = node.kind

variable {change : Node Value → Node Value}
variable {keep : Node Value → Bool}

/-- The relation with its nodes changed. -/
abbrev State.mapNodes (state : State Value)
    (change : Node Value → Node Value) : State Value :=
  { state with nodes := state.nodes.map change }

/-- The relation with some of its nodes. -/
abbrev State.filterNodes (state : State Value)
    (keep : Node Value → Bool) : State Value :=
  { state with nodes := state.nodes.filter keep }

/-- The relation with a node more. -/
abbrev State.appendNode (state : State Value) (node : Node Value) :
    State Value where
  nodes := state.nodes ++ [node]
  nextId := state.nextId + 1
  generation := state.generation

theorem State.IsTree.mapNodes
    (tree : state.IsTree)
    (outlines : Outlines change) :
    (state.mapNodes change).IsTree where
  ordered := List.pairwise_map.mpr (tree.ordered.imp fun less => by
    rwa [(outlines _).1, (outlines _).1])
  bounded node member := by
    obtain ⟨old, inNodes, rfl⟩ := List.mem_map.mp member
    rw [(outlines old).1]
    exact tree.bounded old inNodes
  root := by
    obtain ⟨root, inNodes, isRoot⟩ := tree.root
    obtain ⟨same, sibling, named, kind⟩ := outlines root
    refine ⟨change root, List.mem_map_of_mem inNodes, ?_⟩
    rwa [same, sibling, named, kind]
  parent node member notRoot := by
    obtain ⟨old, inNodes, rfl⟩ := List.mem_map.mp member
    obtain ⟨same, sibling, _⟩ := outlines old
    rw [same] at notRoot
    obtain ⟨less, holder, holderIn, holds, isDir⟩ :=
      tree.parent old inNodes notRoot
    refine ⟨by rwa [same, sibling], change holder,
      List.mem_map_of_mem holderIn, ?_, ?_⟩
    · rw [(outlines holder).1, sibling, holds]
    · rw [(outlines holder).2.2.2, isDir]
  siblings first firstIn second secondIn := by
    obtain ⟨old, inNodes, rfl⟩ := List.mem_map.mp firstIn
    obtain ⟨other, otherIn, rfl⟩ := List.mem_map.mp secondIn
    rw [(outlines old).2.1, (outlines other).2.1, (outlines old).2.2.1,
      (outlines other).2.2.1]
    intro sameParent sameName
    rw [tree.siblings old inNodes other otherIn sameParent sameName]

theorem State.next_mapNodes
    (outlines : Outlines change) :
    (state.mapNodes change).next = state.next := by
  funext id part
  have tests : (fun node : Node Value =>
      decide (node.parent = id ∧ node.name.name = part)) ∘ change =
      fun node => decide (node.parent = id ∧ node.name.name = part) := by
    funext node
    simp [(outlines node).2.1, (outlines node).2.2.1]
  simp only [State.next, List.find?_map, Option.map_map, tests]
  congr 1
  funext node
  exact (outlines node).1

theorem State.IsTree.appendNode
    (tree : state.IsTree)
    (fresh : node.id = state.nextId)
    (holder : ∃ holder ∈ state.nodes, holder.id = node.parent ∧
      holder.kind = .dir)
    (named : ∀ other ∈ state.nodes, other.parent = node.parent →
      other.name ≠ node.name) :
    (state.appendNode node).IsTree where
  ordered := by
    refine List.pairwise_append.mpr ⟨tree.ordered, List.pairwise_singleton _ _,
      fun old member added isNew => ?_⟩
    rw [List.mem_singleton.mp isNew, fresh]
    exact tree.bounded old member
  bounded found member := by
    rcases List.mem_append.mp member with old | isNew
    · exact Nat.lt_succ_of_lt (tree.bounded found old)
    · rw [List.mem_singleton.mp isNew, fresh]
      exact Nat.lt_succ_self _
  root := by
    obtain ⟨root, inNodes, isRoot⟩ := tree.root
    exact ⟨root, List.mem_append_left _ inNodes, isRoot⟩
  parent found member notRoot := by
    rcases List.mem_append.mp member with old | isNew
    · obtain ⟨less, above, inNodes, rest⟩ := tree.parent found old notRoot
      exact ⟨less, above, List.mem_append_left _ inNodes, rest⟩
    · rw [List.mem_singleton.mp isNew]
      obtain ⟨above, inNodes, holds, isDir⟩ := holder
      refine ⟨?_, above, List.mem_append_left _ inNodes, holds, isDir⟩
      rw [fresh, ← holds]
      exact tree.bounded above inNodes
  siblings first firstIn second secondIn sameParent sameName := by
    rcases List.mem_append.mp firstIn with firstOld | firstNew <;>
      rcases List.mem_append.mp secondIn with secondOld | secondNew
    · exact tree.siblings first firstOld second secondOld sameParent sameName
    · rw [List.mem_singleton.mp secondNew] at sameParent sameName
      exact absurd sameName (named first firstOld sameParent)
    · rw [List.mem_singleton.mp firstNew] at sameParent sameName
      exact absurd sameName.symm (named second secondOld sameParent.symm)
    · rw [List.mem_singleton.mp firstNew, List.mem_singleton.mp secondNew]

theorem State.IsTree.filterNodes
    (tree : state.IsTree)
    (leaves : ∀ node ∈ state.nodes, keep node = false → state.Leaf node) :
    (state.filterNodes keep).IsTree where
  ordered := tree.ordered.filter _
  bounded node member := tree.bounded node (List.mem_filter.mp member).1
  root := by
    obtain ⟨root, inNodes, isRoot⟩ := tree.root
    refine ⟨root, List.mem_filter.mpr ⟨inNodes, ?_⟩, isRoot⟩
    by_contra dropped
    exact (leaves root inNodes (by simpa using dropped)).1 isRoot.1
  parent node member notRoot := by
    have inNodes := (List.mem_filter.mp member).1
    obtain ⟨less, holder, holderIn, holds, isDir⟩ :=
      tree.parent node inNodes notRoot
    refine ⟨less, holder, List.mem_filter.mpr ⟨holderIn, ?_⟩, holds, isDir⟩
    by_contra dropped
    exact (leaves holder holderIn (by simpa using dropped)).2 node inNodes
      holds.symm
  siblings first firstIn second secondIn :=
    tree.siblings first (List.mem_filter.mp firstIn).1 second
      (List.mem_filter.mp secondIn).1

end Changes

end SimStorage.Relation
