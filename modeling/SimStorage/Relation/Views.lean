import SimStorage.Relation.Tree

namespace SimStorage.Relation

/-!
# Views of the relation

A view holds a path and the directory that it was made for is known by its id.
As long as no node is put where a removed directory's view leads, and names
written alike do not meet a directory, every view leads to its own directory or
nowhere.
-/

open Codec Table Interaction

variable {Value Expr Head σ α : Type}

section Following

/-- The path leads to the directory with the id, or nowhere when it is gone. -/
inductive State.Follows (state : State Value) (path : List String)
    (id : Nat) : Prop where
  | live {node : Node Value} :
      node ∈ state.nodes → node.id = id → node.kind = .dir →
        Walk.walk state.next 0 path = some id → Follows state path id
  | gone :
      (∀ node ∈ state.nodes, node.id ≠ id) → id < state.nextId →
        Walk.walk state.next 0 path = none → Follows state path id

/-- The path leads to a place under the node with the text. -/
def State.LeadsTo (state : State Value) (path : List String) (parent : Nat)
    (part : String) : Prop :=
  ∃ front, path = front ++ [part] ∧
    Walk.walk state.next 0 front = some parent

variable {state after : State Value} {node other : Node Value}
variable {path : List String} {parent id : Nat} {part : String}
variable {change : Node Value → Node Value} {keep : Node Value → Bool}

theorem State.Follows.mapNodes
    (follows : state.Follows path id)
    (outlines : Outlines change) :
    (state.mapNodes change).Follows path id := by
  have walks : (state.mapNodes change).next = state.next :=
    State.next_mapNodes outlines
  cases follows with
  | @live node member same isDir leads =>
      obtain ⟨sameId, _, _, kind⟩ := outlines node
      exact .live (List.mem_map_of_mem member) (sameId.trans same)
        (kind.trans isDir) (by rw [walks]; exact leads)
  | gone missing bounded leads =>
      refine .gone (fun found member => ?_) bounded (by rw [walks]; exact leads)
      obtain ⟨old, inNodes, rfl⟩ := List.mem_map.mp member
      rw [(outlines old).1]
      exact missing old inNodes

theorem State.next_appendNode
    (place : Nat) (part : String) :
    (state.appendNode node).next place part =
      (state.next place part).or
        (if node.parent = place ∧ node.name.name = part then
          some node.id
        else
          none) := by
  simp only [State.next, List.find?_append]
  cases state.nodes.find? fun node =>
    node.parent = place ∧ node.name.name = part with
  | some found => rfl
  | none =>
      by_cases matched : node.parent = place ∧ node.name.name = part <;>
        simp [matched]

/-- The ids of a tree's nodes and of their parents are below the next id. -/
theorem State.IsTree.parent_lt
    (tree : state.IsTree)
    (member : node ∈ state.nodes) :
    node.parent < state.nextId := by
  by_cases isRoot : node.id = 0
  · obtain ⟨root, inNodes, rootId, rootParent, _⟩ := tree.root
    rw [tree.eq_of_id member inNodes (isRoot.trans rootId.symm), rootParent,
      ← rootId]
    exact tree.bounded root inNodes
  · exact Nat.lt_trans (tree.parent node member isRoot).1
      (tree.bounded node member)

/-- A new node is only reached by the paths that lead to its place. -/
theorem State.IsTree.walk_appendNode
    (tree : state.IsTree)
    (fresh : node.id = state.nextId)
    (below : node.parent < state.nextId)
    (path : List String) :
    Walk.walk (state.appendNode node).next 0 path =
        Walk.walk state.next 0 path ∨
      state.LeadsTo path node.parent node.name.name ∧
        state.next node.parent node.name.name = none := by
  have split := @Walk.walk_eq_or_departs Nat String state.next
    (state.appendNode node).next 0
    (fun place part => node.parent = place ∧ node.name.name = part ∧
      state.next place part = none)
    (fun place part stays => by
      rw [State.next_appendNode]
      cases leads : state.next place part with
      | some found => rfl
      | none =>
          rw [if_neg fun both => stays ⟨both.1, both.2, leads⟩]
          rfl)
    (fun place part departs last leads => by
      rw [departs.2.2] at leads
      cases leads)
    (fun place part departs last leads part => by
      rw [State.next_appendNode, departs.2.2, departs.1, departs.2.1] at leads
      simp only [Option.none_or, and_self, if_true] at leads
      cases leads
      refine State.next_none_iff.mpr fun found member isChild => ?_
      rcases List.mem_append.mp member with old | isNew
      · exact absurd (isChild.trans fresh)
          (Nat.ne_of_lt (tree.parent_lt old))
      · rw [List.mem_singleton.mp isNew] at isChild
        exact absurd (isChild.trans fresh) (Nat.ne_of_lt below))
    path
  rcases split with agree | ⟨front, part, place, shape, reached, _, departs⟩
  · exact .inl agree
  · obtain ⟨rfl, rfl, missing⟩ := departs
    exact .inr ⟨⟨front, shape, reached⟩, missing⟩

theorem State.Follows.appendNode
    (tree : state.IsTree)
    (fresh : node.id = state.nextId)
    (below : node.parent < state.nextId)
    (follows : state.Follows path id)
    (apart : state.next node.parent node.name.name = none →
      ¬ state.LeadsTo path node.parent node.name.name) :
    (state.appendNode node).Follows path id := by
  have walks : Walk.walk (state.appendNode node).next 0 path =
      Walk.walk state.next 0 path := by
    rcases tree.walk_appendNode fresh below path with agree | ⟨leads, missing⟩
    · exact agree
    · exact absurd leads (apart missing)
  cases follows with
  | live member same isDir leads =>
      exact .live (List.mem_append_left _ member) same isDir (walks.trans leads)
  | gone missing bounded leads =>
      refine .gone (fun found member => ?_) (Nat.lt_succ_of_lt bounded)
        (walks.trans leads)
      rcases List.mem_append.mp member with old | isNew
      · exact missing found old
      · rw [List.mem_singleton.mp isNew, fresh]
        exact Nat.ne_of_gt bounded

/-- A new directory is reached through its parent's path. -/
theorem State.Follows.appended
    (tree : state.IsTree)
    (fresh : node.id = state.nextId)
    (below : node.parent < state.nextId)
    (isDir : node.kind = .dir)
    (missing : state.next node.parent node.name.name = none)
    (leads : Walk.walk state.next 0 path = some node.parent) :
    (state.appendNode node).Follows (path ++ [node.name.name]) node.id := by
  have reached : Walk.walk (state.appendNode node).next 0 path =
      some node.parent := by
    rcases tree.walk_appendNode fresh below path with agree | ⟨departs, _⟩
    · exact agree.trans leads
    · obtain ⟨front, rfl, above⟩ := departs
      rw [Walk.walk_concat, above, Option.bind_some, missing] at leads
      cases leads
  refine .live (List.mem_append_right _ (List.mem_singleton.mpr rfl)) rfl isDir
    ?_
  rw [Walk.walk_concat, reached, Option.bind_some, State.next_appendNode,
    missing]
  simp

/-- A path leads to nodes only. -/
theorem State.IsTree.walk_some
    (tree : state.IsTree)
    (leads : Walk.walk state.next 0 path = some id) :
    ∃ node ∈ state.nodes, node.id = id := by
  induction path using List.reverseRecOn with
  | nil =>
      cases leads
      obtain ⟨root, member, isRoot, _⟩ := tree.root
      exact ⟨root, member, isRoot⟩
  | append_singleton front part _ =>
      rw [Walk.walk_concat] at leads
      obtain ⟨place, _, led⟩ := Option.bind_eq_some_iff.mp leads
      obtain ⟨node, member, same, _⟩ := tree.next_some led
      exact ⟨node, member, same⟩

/-- Where a name led before, it still leads, unless that node is dropped. -/
theorem State.IsTree.next_filterNodes
    (tree : state.IsTree)
    (leaves : ∀ node ∈ state.nodes, keep node = false → state.Leaf node)
    {place : Nat}
    (kept : ∀ node ∈ state.nodes, keep node = false →
      state.next place part ≠ some node.id) :
    (state.filterNodes keep).next place part = state.next place part := by
  have pruned := tree.filterNodes leaves
  cases leads : state.next place part with
  | none =>
      exact State.next_none_iff.mpr fun node member =>
        State.next_none_iff.mp leads node (List.mem_filter.mp member).1
  | some found =>
      obtain ⟨node, member, rfl, rfl, rfl, least⟩ := tree.next_some leads
      have stays : keep node = true := by
        by_contra dropped
        exact kept node member (by simpa using dropped) leads
      exact pruned.next_of_first (List.mem_filter.mpr ⟨member, stays⟩)
        fun other inNodes => least other (List.mem_filter.mp inNodes).1

/-- Behind a dropped node, only values are left. -/
theorem State.IsTree.next_behind
    (tree : state.IsTree)
    (first : state.DirsFirst)
    (leaves : ∀ node ∈ state.nodes, keep node = false → state.Leaf node)
    {place : Nat}
    (member : node ∈ state.nodes)
    (dropped : keep node = false)
    (led : state.next place part = some node.id)
    {last : Nat}
    (leads : (state.filterNodes keep).next place part = some last) :
    ∃ other ∈ state.nodes, other.id = last ∧ other ≠ node ∧
      other.parent = node.parent ∧ other.name.name = node.name.name ∧
      other.kind = .value := by
  obtain ⟨other, inFilter, rfl, sibling, written, _⟩ :=
    (tree.filterNodes leaves).next_some leads
  obtain ⟨inNodes, stays⟩ := List.mem_filter.mp inFilter
  obtain ⟨found, foundIn, same, foundSibling, foundWritten, least⟩ :=
    tree.next_some led
  have isNode := tree.eq_of_id foundIn member same
  subst isNode
  have differs : other ≠ found := by
    rintro rfl
    rw [stays] at dropped
    cases dropped
  refine ⟨other, inNodes, rfl, differs, sibling.trans foundSibling.symm,
    written.trans foundWritten.symm, not_dir_iff.mp fun isDir => differs ?_⟩
  have before := first other inNodes isDir found foundIn
    (foundSibling.trans sibling.symm) (foundWritten.trans written.symm)
  exact tree.eq_of_id inNodes foundIn
    (Nat.le_antisymm before (least other inNodes sibling written))

/-- Paths lead where they led, unless to a dropped node. -/
theorem State.IsTree.walk_filterNodes
    (tree : state.IsTree)
    (first : state.DirsFirst)
    (leaves : ∀ node ∈ state.nodes, keep node = false → state.Leaf node)
    (path : List String) :
    Walk.walk (state.filterNodes keep).next 0 path =
        Walk.walk state.next 0 path ∨
      ∃ node ∈ state.nodes, keep node = false ∧
        Walk.walk state.next 0 path = some node.id ∧
        ∀ last, Walk.walk (state.filterNodes keep).next 0 path = some last →
          ∃ other ∈ state.nodes, other ≠ node ∧ other.parent = node.parent ∧
            other.name.name = node.name.name := by
  have pruned := tree.filterNodes leaves
  have split := @Walk.walk_eq_or_departs Nat String state.next
    (state.filterNodes keep).next 0
    (fun place part => ∃ node ∈ state.nodes, keep node = false ∧
      state.next place part = some node.id)
    (fun place part stays => tree.next_filterNodes leaves
      fun node member dropped led => stays ⟨node, member, dropped, led⟩)
    (fun place part departs last leads => by
      obtain ⟨node, member, dropped, led⟩ := departs
      rw [led] at leads
      cases leads
      exact (leaves node member dropped).next)
    (fun place part departs last leads => by
      obtain ⟨node, member, dropped, led⟩ := departs
      obtain ⟨other, inNodes, rfl, _, _, _, isValue⟩ :=
        tree.next_behind first leaves member dropped led leads
      intro name
      exact State.next_none_iff.mpr fun child isChild below =>
        absurd below ((tree.value_leaf inNodes isValue).2 child
          (List.mem_filter.mp isChild).1))
    path
  rcases split with agree | ⟨front, part, place, rfl, reached, also, departs⟩
  · exact .inl agree
  · obtain ⟨node, member, dropped, led⟩ := departs
    refine .inr ⟨node, member, dropped, ?_, fun last leads => ?_⟩
    · rw [Walk.walk_concat, reached, Option.bind_some, led]
    · rw [Walk.walk_concat, also, Option.bind_some] at leads
      obtain ⟨other, inNodes, _, differs, sibling, written, _⟩ :=
        tree.next_behind first leaves member dropped led leads
      exact ⟨other, inNodes, differs, sibling, written⟩

theorem State.Follows.filterNodes
    (tree : state.IsTree)
    (first : state.DirsFirst)
    (leaves : ∀ node ∈ state.nodes, keep node = false → state.Leaf node)
    (alone : ∀ node ∈ state.nodes, keep node = false → node.kind = .dir →
      ∀ other ∈ state.nodes, other.parent = node.parent →
        other.name.name = node.name.name → other = node)
    (follows : state.Follows path id) :
    (state.filterNodes keep).Follows path id := by
  have pruned := tree.filterNodes leaves
  have split := tree.walk_filterNodes first leaves path
  cases follows with
  | @live node member same isDir leads =>
      cases stays : keep node with
      | true =>
          refine .live (List.mem_filter.mpr ⟨member, stays⟩) same isDir ?_
          rcases split with agree | ⟨lost, inNodes, dropped, led, _⟩
          · exact agree.trans leads
          · have isLost : lost = node := tree.eq_of_id inNodes member
              (Option.some.inj (led.symm.trans leads) |>.trans same.symm)
            rw [isLost, stays] at dropped
            cases dropped
      | false =>
          have missing : ∀ other ∈ (state.filterNodes keep).nodes,
              other.id ≠ id := by
            intro other inFilter isNode
            obtain ⟨inNodes, kept⟩ := List.mem_filter.mp inFilter
            rw [tree.eq_of_id inNodes member (isNode.trans same.symm), stays]
              at kept
            cases kept
          refine .gone missing (same ▸ tree.bounded node member) ?_
          · rcases split with agree | ⟨lost, inNodes, dropped, led, behind⟩
            · obtain ⟨other, inFilter, isNode⟩ :=
                pruned.walk_some (agree.trans leads)
              exact absurd isNode (missing other inFilter)
            · have isLost : lost = node := tree.eq_of_id inNodes member
                (Option.some.inj (led.symm.trans leads) |>.trans same.symm)
              subst isLost
              cases now : Walk.walk (state.filterNodes keep).next 0 path with
              | none => rfl
              | some last =>
                  obtain ⟨other, otherIn, differs, sibling, written⟩ :=
                    behind last now
                  exact absurd (alone lost inNodes dropped isDir other otherIn
                    sibling written) differs
  | gone missing bounded leads =>
      refine .gone (fun node member => missing node (List.mem_filter.mp member).1)
        bounded ?_
      rcases split with agree | ⟨lost, _, _, led, _⟩
      · exact agree.trans leads
      · rw [led] at leads
        cases leads

end Following

end SimStorage.Relation
