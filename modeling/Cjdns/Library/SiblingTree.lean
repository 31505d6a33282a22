import Mathlib.Tactic

/-!
# Trees of first children and next siblings

A forest as it is linked in memory: every node points to its first child and to its next sibling,
and back to its last sibling or, if it is a first child, to its parent. A node inside the forest
is reached by a path, which is the forest with a hole; what is known of the forest is what is
known of the path and of what is in the hole.
-/

inductive SiblingTree (Node : Type) where
  | nil
  | node (top : Node) (children siblings : SiblingTree Node)

namespace SiblingTree

variable {Node Key : Type} (key : Node → Key)

/-- The nodes, every one before its children and these before its siblings -/
def nodes : SiblingTree Node → List Node
  | nil => []
  | node top children siblings => top :: (children.nodes ++ siblings.nodes)

/-- What a pointer to the tree is -/
def head : SiblingTree Node → Option Key
  | nil => none
  | node top _ _ => some (key top)

/-- Change the tree at a node. -/
def update [DecidableEq Key] (target : Key)
    (change : Node → SiblingTree Node → SiblingTree Node → SiblingTree Node) :
    SiblingTree Node → SiblingTree Node
  | nil => nil
  | node top children siblings =>
      if key top = target then change top children siblings
      else node top (children.update target change) (siblings.update target change)

/-- A node with all of its descendants -/
def family [DecidableEq Key] (target : Key) : SiblingTree Node → List Node
  | nil => []
  | node top children siblings =>
      if key top = target then top :: children.nodes
      else children.family target ++ siblings.family target

/-- All nodes hold what they are to hold: the pointers to their last sibling (or parent), their
first child and their next sibling. -/
def Linked (holds : Option Key → Option Key → Option Key → Node → Prop) :
    Option Key → SiblingTree Node → Prop
  | _, nil => True
  | last, node top children siblings =>
      holds last (children.head key) (siblings.head key) top ∧
        children.Linked holds (some (key top)) ∧ siblings.Linked holds (some (key top))

variable {key} {holds after : Option Key → Option Key → Option Key → Node → Prop}
  {last : Option Key} {tree : SiblingTree Node}

theorem Linked.congr (linked : tree.Linked key holds last)
    (keeps : ∀ top ∈ tree.nodes, ∀ last first next, holds last first next top →
      after last first next top) : tree.Linked key after last := by
  induction tree generalizing last with
  | nil => trivial
  | node top children siblings ihChildren ihSiblings =>
      rcases linked with ⟨here, below, beside⟩
      refine ⟨keeps top List.mem_cons_self _ _ _ here, ihChildren below ?_, ihSiblings beside ?_⟩
      · intro inner inside
        exact keeps inner (List.mem_cons_of_mem _ (List.mem_append_left _ inside))
      · intro inner inside
        exact keeps inner (List.mem_cons_of_mem _ (List.mem_append_right _ inside))

theorem Linked.mem (linked : tree.Linked key holds last) {top : Node}
    (inside : top ∈ tree.nodes) : ∃ last first next, holds last first next top := by
  induction tree generalizing last with
  | nil => cases inside
  | node other children siblings ihChildren ihSiblings =>
      rcases linked with ⟨here, below, beside⟩
      rcases List.mem_cons.mp inside with rfl | inside
      · exact ⟨_, _, _, here⟩
      rcases List.mem_append.mp inside with inChildren | inSiblings
      · exact ihChildren below inChildren
      · exact ihSiblings beside inSiblings

theorem head_mem {first : Key} (same : tree.head key = some first) :
    first ∈ tree.nodes.map key := by
  rcases tree with _ | ⟨top, children, siblings⟩
  · cases same
  · cases same
    exact List.mem_cons_self

/-- Only the node that is first points back out of the tree. -/
theorem Linked.congr_last {other : Option Key} (linked : tree.Linked key holds last)
    (distinct : (tree.nodes.map key).Nodup)
    (keeps : ∀ top ∈ tree.nodes, some (key top) ≠ tree.head key → ∀ last first next,
      holds last first next top → after last first next top)
    (first : ∀ top ∈ tree.nodes, some (key top) = tree.head key → ∀ first next,
      holds last first next top → after other first next top) :
    tree.Linked key after other := by
  rcases tree with _ | ⟨top, children, siblings⟩
  · trivial
  rcases linked with ⟨here, below, beside⟩
  have apart : ∀ inner ∈ children.nodes ++ siblings.nodes, some (key inner) ≠ some (key top) := by
    intro inner inside same
    refine (List.nodup_cons.mp distinct).1 ?_
    rw [← Option.some.inj same]
    exact List.mem_map_of_mem inside
  refine ⟨first top List.mem_cons_self rfl _ _ here, below.congr ?_, beside.congr ?_⟩
  · intro inner inside
    exact keeps inner (List.mem_cons_of_mem _ (List.mem_append_left _ inside))
      (apart inner (List.mem_append_left _ inside))
  · intro inner inside
    exact keeps inner (List.mem_cons_of_mem _ (List.mem_append_right _ inside))
      (apart inner (List.mem_append_right _ inside))

/-! ## Trees with a hole -/

/-- A tree with a hole -/
inductive Path (Node : Type) where
  | hole
  | child (top : Node) (below : Path Node) (siblings : SiblingTree Node)
  | sibling (top : Node) (children : SiblingTree Node) (beside : Path Node)

namespace Path

def plug : Path Node → SiblingTree Node → SiblingTree Node
  | hole, tree => tree
  | child top below siblings, tree => node top (below.plug tree) siblings
  | sibling top children beside, tree => node top children (beside.plug tree)

def nodes : Path Node → List Node
  | hole => []
  | child top below siblings => top :: (below.nodes ++ siblings.nodes)
  | sibling top children beside => top :: (children.nodes ++ beside.nodes)

variable (key) in
/-- What a pointer to the tree is, for a pointer to what is in the hole -/
def head : Path Node → Option Key → Option Key
  | hole, link => link
  | child top _ _, _ => some (key top)
  | sibling top _ _, _ => some (key top)

variable (key) in
/-- What the node in the hole points back to -/
def back : Path Node → Option Key → Option Key
  | hole, last => last
  | child top below _, _ => below.back (some (key top))
  | sibling top _ beside, _ => beside.back (some (key top))

variable (key) in
/-- All nodes on the path and beside it hold what they are to hold. -/
def Linked (holds : Option Key → Option Key → Option Key → Node → Prop) :
    Option Key → Path Node → Option Key → Prop
  | _, hole, _ => True
  | last, child top below siblings, link =>
      holds last (below.head key link) (siblings.head key) top ∧
        Linked holds (some (key top)) below link ∧ siblings.Linked key holds (some (key top))
  | last, sibling top children beside, link =>
      holds last (children.head key) (beside.head key link) top ∧
        children.Linked key holds (some (key top)) ∧ Linked holds (some (key top)) beside link

variable {path : Path Node} {link : Option Key}

theorem nodes_plug (path : Path Node) (tree : SiblingTree Node) :
    (path.plug tree).nodes.Perm (path.nodes ++ tree.nodes) := by
  induction path with
  | hole => exact List.Perm.refl _
  | child top below siblings ih =>
      refine List.Perm.cons top ((ih.append_right siblings.nodes).trans ?_)
      change List.Perm _ ((below.nodes ++ siblings.nodes) ++ tree.nodes)
      rw [List.append_assoc, List.append_assoc]
      exact List.perm_append_comm.append_left _
  | sibling top children beside ih =>
      refine List.Perm.cons top ((ih.append_left children.nodes).trans ?_)
      rw [← List.append_assoc]
      exact List.Perm.refl _

theorem head_plug (path : Path Node) (tree : SiblingTree Node) :
    (path.plug tree).head key = path.head key (tree.head key) := by
  cases path <;> rfl

theorem head_mem {first : Key} (same : path.head key link = some first) :
    link = some first ∨ first ∈ path.nodes.map key := by
  rcases path with _ | ⟨top, below, siblings⟩ | ⟨top, children, beside⟩
  · exact .inl same
  · cases same
    exact .inr List.mem_cons_self
  · cases same
    exact .inr List.mem_cons_self

/-- A tree is linked if the path and what is in the hole are. -/
theorem linked_plug : (path.plug tree).Linked key holds last ↔
    Path.Linked key holds last path (tree.head key) ∧
      tree.Linked key holds (path.back key last) := by
  induction path generalizing last with
  | hole => exact ⟨fun linked => ⟨trivial, linked⟩, And.right⟩
  | child top below siblings ih =>
      rw [plug, SiblingTree.Linked, head_plug, ih, Linked, back]
      tauto
  | sibling top children beside ih =>
      rw [plug, SiblingTree.Linked, head_plug, ih, Linked, back]
      tauto

theorem Linked.congr (linked : Path.Linked key holds last path link)
    (keeps : ∀ top ∈ path.nodes, ∀ last first next, holds last first next top →
      after last first next top) : Path.Linked key after last path link := by
  induction path generalizing last with
  | hole => trivial
  | child top below siblings ih =>
      rcases linked with ⟨here, inner, beside⟩
      refine ⟨keeps top List.mem_cons_self _ _ _ here, ih inner ?_, beside.congr ?_⟩
      · intro other inside
        exact keeps other (List.mem_cons_of_mem _ (List.mem_append_left _ inside))
      · intro other inside
        exact keeps other (List.mem_cons_of_mem _ (List.mem_append_right _ inside))
  | sibling top children beside ih =>
      rcases linked with ⟨here, below, inner⟩
      refine ⟨keeps top List.mem_cons_self _ _ _ here, below.congr ?_, ih inner ?_⟩
      · intro other inside
        exact keeps other (List.mem_cons_of_mem _ (List.mem_append_left _ inside))
      · intro other inside
        exact keeps other (List.mem_cons_of_mem _ (List.mem_append_right _ inside))

/-- The hole is the whole tree, or a node points to it, as its first child or its next sibling. -/
theorem cases_end (path : Path Node) :
    path = hole ∨
      (∃ (outer : Path Node) (top : Node) (siblings : SiblingTree Node),
        ∀ tree, path.plug tree = outer.plug (node top tree siblings)) ∨
      ∃ (outer : Path Node) (top : Node) (children : SiblingTree Node),
        ∀ tree, path.plug tree = outer.plug (node top children tree) := by
  induction path with
  | hole => exact .inl rfl
  | child top below siblings ih =>
      rcases ih with rfl | ⟨outer, inner, others, same⟩ | ⟨outer, inner, others, same⟩
      · exact .inr (.inl ⟨hole, top, siblings, fun tree => rfl⟩)
      · exact .inr (.inl ⟨child top outer siblings, inner, others, fun tree => by
          rw [plug, same, plug]⟩)
      · exact .inr (.inr ⟨child top outer siblings, inner, others, fun tree => by
          rw [plug, same, plug]⟩)
  | sibling top children beside ih =>
      rcases ih with rfl | ⟨outer, inner, others, same⟩ | ⟨outer, inner, others, same⟩
      · exact .inr (.inr ⟨hole, top, children, fun tree => rfl⟩)
      · exact .inr (.inl ⟨sibling top children outer, inner, others, fun tree => by
          rw [plug, same, plug]⟩)
      · exact .inr (.inr ⟨sibling top children outer, inner, others, fun tree => by
          rw [plug, same, plug]⟩)

end Path

section Update

variable [DecidableEq Key] {target : Key}

theorem update_of_notMem (absent : target ∉ tree.nodes.map key)
    (change : Node → SiblingTree Node → SiblingTree Node → SiblingTree Node) :
    tree.update key target change = tree := by
  induction tree with
  | nil => rfl
  | node top children siblings ihChildren ihSiblings =>
      simp only [nodes, List.map_cons, List.map_append, List.mem_cons, List.mem_append,
        not_or] at absent
      rw [update, if_neg (Ne.symm absent.1), ihChildren absent.2.1, ihSiblings absent.2.2]

theorem family_of_notMem (absent : target ∉ tree.nodes.map key) :
    tree.family key target = [] := by
  induction tree with
  | nil => rfl
  | node top children siblings ihChildren ihSiblings =>
      simp only [nodes, List.map_cons, List.map_append, List.mem_cons, List.mem_append,
        not_or] at absent
      rw [family, if_neg (Ne.symm absent.1), ihChildren absent.2.1, ihSiblings absent.2.2,
        List.append_nil]

/-- Where a node is, there is a path to it, and a change there changes what is in the hole. -/
theorem exists_path (inside : target ∈ tree.nodes.map key)
    (distinct : (tree.nodes.map key).Nodup) :
    ∃ (path : Path Node) (top : Node) (children siblings : SiblingTree Node), key top = target ∧
      tree = path.plug (node top children siblings) ∧
      (∀ change, tree.update key target change = path.plug (change top children siblings)) ∧
      tree.family key target = top :: children.nodes := by
  induction tree with
  | nil => cases inside
  | node top children siblings ihChildren ihSiblings =>
      simp only [nodes, List.map_cons, List.map_append, List.mem_cons, List.mem_append,
        List.nodup_cons, List.nodup_append'] at inside distinct
      rcases distinct with ⟨fresh, below, beside, apart⟩
      by_cases here : key top = target
      · refine ⟨.hole, top, children, siblings, here, rfl, fun change => ?_, ?_⟩
        · rw [update, if_pos here]
          rfl
        · rw [family, if_pos here]
      rcases inside with same | inside | inside
      · exact (here same.symm).elim
      · have absent : target ∉ siblings.nodes.map key := fun other => apart inside other
        rcases ihChildren inside below with ⟨path, found, inner, others, same, plugged, changes, all⟩
        refine ⟨.child top path siblings, found, inner, others, same, ?_, fun change => ?_, ?_⟩
        · rw [plugged]
          rfl
        · rw [update, if_neg here, changes, update_of_notMem absent]
          rfl
        · rw [family, if_neg here, all, family_of_notMem absent, List.append_nil]
      · have absent : target ∉ children.nodes.map key := fun other => apart other inside
        rcases ihSiblings inside beside with
          ⟨path, found, inner, others, same, plugged, changes, all⟩
        refine ⟨.sibling top children path, found, inner, others, same, ?_, fun change => ?_, ?_⟩
        · rw [plugged]
          rfl
        · rw [update, if_neg here, changes, update_of_notMem absent]
          rfl
        · rw [family, if_neg here, all, family_of_notMem absent, List.nil_append]

end Update

end SiblingTree
