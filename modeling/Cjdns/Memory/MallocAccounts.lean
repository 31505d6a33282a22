import Cjdns.Memory.MallocAllocator

/-!
# Accounts of the malloc allocator

The memory of a tree of allocators represents the tree that its operations stand for, the counter
at the root is what the recorded sizes leave of the limit, and a free gives back what belongs to
an allocator and its descendants.
-/

namespace Cjdns.MallocAllocator

open LinkedList SiblingTree

theorem toNat_allocSize : allocSize.toNat = 176 := rfl

theorem toNat_realSize {size : BitVec 64} (small : size.toNat < 2 ^ 62) :
    (realSize size).toNat = 16 + size.toNat := by
  have header : allocationSize = 16 := rfl
  rw [realSize, BitVec.toNat_add, BitVec.toNat_ofNat, header]
  omega

theorem mem_blocks {nodes : List Node} {block : Block} :
    block ∈ blocks nodes ↔ ∃ top ∈ nodes, block ∈ top.blocks :=
  List.mem_flatMap

theorem block_mem_blocks (top : Node) : top.block ∈ top.blocks := by
  rw [Node.blocks, Node.allocations, List.map_append]
  exact List.mem_append_right _ List.mem_cons_self

theorem blocks_eq (top : Node) : top.blocks = top.entries.map Prod.fst ++ [top.block] := by
  rw [Node.blocks, Node.allocations, List.map_append]
  rfl

/-- What is allocated with an allocator, with its own allocation -/
def Node.recorded (top : Node) : ℕ := (top.allocations.map fun entry => entry.2.toNat).sum

def recorded (nodes : List Node) : ℕ := (nodes.map Node.recorded).sum

/-- The registered jobs are in allocations of their allocator. -/
def Node.Registers (top : Node) : Prop :=
  (top.jobs.map Prod.fst).Nodup ∧ ∀ job ∈ top.jobs.map Prod.fst, job ∈ top.entries.map Prod.fst

theorem Node.Registers.mem_blocks {top : Node} (registers : top.Registers) {job : Block}
    (inside : job ∈ top.jobs.map Prod.fst) : job ∈ top.blocks := by
  rw [blocks_eq]
  exact List.mem_append_left _ (registers.2 job inside)

/-- Nothing is changed in a block. -/
structure Agrees (heap after : Heap) (block : Block) : Prop where
  headers : after.headers block = heap.headers block
  contexts : after.contexts block = heap.contexts block
  jobs : after.jobs block = heap.jobs block

theorem Holds.transfer {heap after : Heap} {root : Block} {last first next : Option Block}
    {top : Node} (holds : Holds heap root last first next top) (registers : top.Registers)
    (context : after.contexts top.block = heap.contexts top.block)
    (headers : ∀ block ∈ top.blocks, after.headers block = heap.headers block)
    (jobs : ∀ block ∈ top.blocks, after.jobs block = heap.jobs block) :
    Holds after root last first next top := by
  rcases holds with ⟨found, describes⟩
  refine ⟨found, { describes with here := ?_, allocations := ?_, onFree := ?_ }⟩
  · rw [context, describes.here]
  · exact describes.allocations.congr headers
  · exact describes.onFree.congr fun job inside => jobs job (registers.mem_blocks inside)

theorem Holds.congr {heap after : Heap} {root : Block} {last first next : Option Block}
    {top : Node} (holds : Holds heap root last first next top) (registers : top.Registers)
    (agrees : ∀ block ∈ top.blocks, Agrees heap after block) :
    Holds after root last first next top :=
  holds.transfer registers (agrees _ (block_mem_blocks top)).contexts
    (fun block inside => (agrees block inside).headers)
    (fun block inside => (agrees block inside).jobs)

/-! ## The tree at an allocator -/

section Tree

variable {path : Path Node} {top : Node} {children siblings : Tree}

/-- The nodes apart from one -/
def others (path : Path Node) (children siblings : Tree) : List Node :=
  path.nodes ++ (children.nodes ++ siblings.nodes)

theorem nodes_perm (path : Path Node) (top : Node) (children siblings : Tree) :
    (path.plug (.node top children siblings)).nodes.Perm
      (top :: others path children siblings) :=
  (Path.nodes_plug _ _).trans List.perm_middle

theorem blocks_perm (path : Path Node) (top : Node) (children siblings : Tree) :
    (blocks (path.plug (.node top children siblings)).nodes).Perm
      (top.blocks ++ blocks (others path children siblings)) :=
  (nodes_perm path top children siblings).flatMap_right Node.blocks

theorem recorded_eq (path : Path Node) (top : Node) (children siblings : Tree) :
    recorded (path.plug (.node top children siblings)).nodes =
      top.recorded + recorded (others path children siblings) :=
  ((nodes_perm path top children siblings).map Node.recorded).sum_eq

theorem blocks_plug (path : Path Node) (part : Tree) :
    (blocks (path.plug part).nodes).Perm (blocks path.nodes ++ blocks part.nodes) := by
  have perm := (path.nodes_plug part).flatMap_right Node.blocks
  rw [List.flatMap_append] at perm
  exact perm

theorem recorded_plug (path : Path Node) (part : Tree) :
    recorded (path.plug part).nodes = recorded path.nodes + recorded part.nodes := by
  have sum := ((path.nodes_plug part).map Node.recorded).sum_eq
  rw [List.map_append, List.sum_append] at sum
  exact sum

end Tree

/-- The memory is that of the tree, and the counter is that of its allocations. -/
structure Invariant (run : Run) : Prop where
  distinct : (blocks run.tree.nodes).Nodup
  registers : ∀ top ∈ run.tree.nodes, top.Registers
  links : Represents run.heap run.root run.tree
  live : ∀ block, (run.heap.headers block).isSome ↔ block ∈ blocks run.tree.nodes
  rooted : run.tree = .nil ∨
    ∃ top children, run.tree = .node top children .nil ∧ top.block = run.root
  counts : run.tree ≠ .nil → ∃ context available, run.heap.contexts run.root = some context ∧
    run.heap.spaces run.root = some available ∧ context.maxSpace.toNat < 2 ^ 63 ∧
      available.toNat + recorded run.tree.nodes = context.maxSpace.toNat + 176

namespace Invariant

variable {run : Run}

/-- The allocators are different ones. -/
theorem keys (invariant : Invariant run) : (run.tree.nodes.map Node.block).Nodup := by
  refine List.Nodup.sublist ?_ invariant.distinct
  generalize run.tree.nodes = nodes
  induction nodes with
  | nil => exact List.Sublist.refl _
  | cons top nodes ih =>
      rw [blocks, List.flatMap_cons, List.map_cons, ← List.singleton_append]
      refine List.Sublist.append ?_ ih
      exact List.singleton_sublist.mpr (block_mem_blocks top)

/-- A part of the tree is exchanged for another one that starts with the same allocator. -/
theorem replace (invariant : Invariant run) {path : Path Node} {part changed : Tree}
    (plugged : run.tree = path.plug part) {after : Heap} {block : Block}
    (head : part.head Node.block = some block) (sameHead : changed.head Node.block = some block)
    (single : (∃ top children, part = .node top children .nil) →
      ∃ top children, changed = .node top children .nil)
    (frame : ∀ block ∉ blocks part.nodes, block ∈ blocks run.tree.nodes →
      Agrees run.heap after block)
    (here : ∀ last, part.Linked Node.block (Holds run.heap run.root) last →
      changed.Linked Node.block (Holds after run.root) last)
    (distinct : (blocks changed.nodes).Nodup)
    (fresh : ∀ block ∈ blocks changed.nodes,
      block ∈ blocks part.nodes ∨ run.heap.headers block = none)
    (registers : ∀ top ∈ changed.nodes, top.Registers)
    (live : ∀ block, (after.headers block).isSome ↔ block ∈ blocks changed.nodes ∨
      block ∉ blocks part.nodes ∧ (run.heap.headers block).isSome)
    (counts : ∀ context available, run.heap.contexts run.root = some context →
      run.heap.spaces run.root = some available → ∃ changedContext left,
        after.contexts run.root = some changedContext ∧ after.spaces run.root = some left ∧
          changedContext.maxSpace = context.maxSpace ∧
            left.toNat + recorded changed.nodes = available.toNat + recorded part.nodes) :
    Invariant ⟨run.root, after, path.plug changed⟩ := by
  have before := blocks_plug path part
  have later := blocks_plug path changed
  rw [← plugged] at before
  have apart := before.nodup_iff.mp invariant.distinct
  rw [List.nodup_append'] at apart
  have memBefore : ∀ block, block ∈ blocks run.tree.nodes ↔
      block ∈ blocks path.nodes ∨ block ∈ blocks part.nodes := fun block => by
    rw [before.mem_iff, List.mem_append]
  have nodes : ∀ other ∈ path.nodes, other ∈ run.tree.nodes := fun other inside => by
    rw [plugged, (path.nodes_plug part).mem_iff]
    exact List.mem_append_left _ inside
  refine ⟨?_, ?_, ?_, ?_, ?_, ?_⟩
  · refine later.nodup_iff.mpr (List.nodup_append'.mpr ⟨apart.1, distinct, ?_⟩)
    intro block outside inside
    rcases fresh block inside with same | unused
    · exact apart.2.2 outside same
    · have used := (invariant.live block).mpr ((memBefore block).mpr (.inl outside))
      rw [unused] at used
      cases used
  · intro other inside
    rcases List.mem_append.mp ((path.nodes_plug changed).mem_iff.mp inside) with outside | new
    · exact invariant.registers other (nodes other outside)
    · exact registers other new
  · have links := invariant.links
    rw [Represents, plugged, Path.linked_plug, head] at links
    rw [Represents, Path.linked_plug, sameHead]
    refine ⟨links.1.congr fun other inside last first next holds => ?_, here _ links.2⟩
    refine holds.congr (invariant.registers other (nodes other inside)) fun block belongs => ?_
    have outside := mem_blocks.mpr ⟨other, inside, belongs⟩
    exact frame block (fun same => apart.2.2 outside same) ((memBefore block).mpr (.inl outside))
  · intro block
    rw [live, later.mem_iff, List.mem_append, invariant.live, memBefore]
    constructor
    · rintro (inside | ⟨outside, other | same⟩)
      · exact .inr inside
      · exact .inl other
      · exact (outside same).elim
    · rintro (other | inside)
      · exact .inr ⟨fun same => apart.2.2 other same, .inl other⟩
      · exact .inl inside
  · right
    rcases invariant.rooted with empty | ⟨first, below, alone, atRoot⟩
    · rw [empty] at plugged
      rcases path with _ | _ | _
      · cases plugged
        cases head
      · cases plugged
      · cases plugged
    · rw [alone] at plugged
      rcases path with _ | ⟨outer, inner, rest⟩ | ⟨outer, rest, inner⟩
      · cases plugged
        rcases single ⟨_, _, rfl⟩ with ⟨top, children, rfl⟩
        exact ⟨top, children, rfl,
          (Option.some.inj (sameHead.trans head.symm)).trans atRoot⟩
      · cases plugged
        exact ⟨_, _, rfl, atRoot⟩
      · rw [Path.plug, SiblingTree.node.injEq] at plugged
        rcases plugged with ⟨-, -, empty⟩
        rcases inner with _ | _ | _
        · cases empty
          cases head
        · cases empty
        · cases empty
  · intro _
    have more : run.tree ≠ .nil := by
      intro empty
      rw [plugged] at empty
      rcases path with _ | _ | _
      · cases empty
        cases head
      · cases empty
      · cases empty
    rcases invariant.counts more with ⟨context, available, found, space, bound, sum⟩
    rcases counts context available found space with
      ⟨changedContext, left, foundAfter, spaceAfter, sameMax, balance⟩
    rw [plugged, recorded_plug] at sum
    refine ⟨changedContext, left, foundAfter, spaceAfter, ?_, ?_⟩
    · rw [sameMax]
      exact bound
    · rw [recorded_plug, sameMax]
      omega

/-- One allocator is changed, and what it has in memory. -/
theorem exchange (invariant : Invariant run) {path : Path Node} {top changed : Node}
    {children siblings : Tree} (plugged : run.tree = path.plug (.node top children siblings))
    {after : Heap} (block : changed.block = top.block)
    (frame : ∀ block ∉ top.blocks, block ∈ blocks run.tree.nodes → Agrees run.heap after block)
    (here : ∀ last first next, Holds run.heap run.root last first next top →
      Holds after run.root last first next changed)
    (distinct : changed.blocks.Nodup)
    (fresh : ∀ block ∈ changed.blocks, block ∈ top.blocks ∨ run.heap.headers block = none)
    (registers : changed.Registers)
    (live : ∀ block, (after.headers block).isSome ↔ block ∈ changed.blocks ∨
      block ∉ top.blocks ∧ (run.heap.headers block).isSome)
    (counts : ∀ context available, run.heap.contexts run.root = some context →
      run.heap.spaces run.root = some available → ∃ changedContext left,
        after.contexts run.root = some changedContext ∧ after.spaces run.root = some left ∧
          changedContext.maxSpace = context.maxSpace ∧
            left.toNat + changed.recorded = available.toNat + top.recorded) :
    Invariant ⟨run.root, after, path.plug (.node changed children siblings)⟩ := by
  have all := (blocks_plug path (.node top children siblings)).nodup_iff.mp
    (plugged ▸ invariant.distinct)
  have apart := (List.nodup_append'.mp all).2.1
  change (top.blocks ++ blocks (children.nodes ++ siblings.nodes)).Nodup at apart
  rw [List.nodup_append'] at apart
  have inTree : ∀ other ∈ children.nodes ++ siblings.nodes, other ∈ run.tree.nodes := by
    intro other inside
    rw [plugged, (path.nodes_plug _).mem_iff]
    exact List.mem_append_right _ (List.mem_cons_of_mem _ inside)
  have keeps : ∀ other ∈ children.nodes ++ siblings.nodes, ∀ last first next,
      Holds run.heap run.root last first next other →
        Holds after run.root last first next other := by
    intro other inside last first next holds
    refine holds.congr (invariant.registers other (inTree other inside)) fun block belongs => ?_
    have outside := mem_blocks.mpr ⟨other, inside, belongs⟩
    exact frame block (fun same => apart.2.2 same outside)
      (mem_blocks.mpr ⟨other, inTree other inside, belongs⟩)
  refine invariant.replace plugged rfl (congrArg some block) ?_ ?_ ?_ ?_ ?_ ?_ ?_ ?_
  · rintro ⟨first, below, same⟩
    cases same
    exact ⟨changed, _, rfl⟩
  · intro other outside inside
    exact frame other (fun same => outside (List.mem_append_left _ same)) inside
  · rintro last ⟨holds, below, beside⟩
    refine ⟨here _ _ _ holds, ?_, ?_⟩
    · rw [block]
      exact below.congr fun other inside => keeps other (List.mem_append_left _ inside)
    · rw [block]
      exact beside.congr fun other inside => keeps other (List.mem_append_right _ inside)
  · change (changed.blocks ++ blocks (children.nodes ++ siblings.nodes)).Nodup
    refine List.nodup_append'.mpr ⟨distinct, apart.2.1, fun other inside outside => ?_⟩
    rcases fresh other inside with same | unused
    · exact apart.2.2 same outside
    · rcases mem_blocks.mp outside with ⟨owner, owns, belongs⟩
      have used := (invariant.live other).mpr (mem_blocks.mpr ⟨owner, inTree owner owns, belongs⟩)
      rw [unused] at used
      cases used
  · intro other inside
    rcases List.mem_append.mp inside with new | old
    · exact (fresh other new).imp_left fun same => List.mem_append_left _ same
    · exact .inl (List.mem_append_right _ old)
  · intro other inside
    rcases List.mem_cons.mp inside with rfl | old
    · exact registers
    · exact invariant.registers other (inTree other old)
  · intro other
    change _ ↔ other ∈ changed.blocks ++ blocks (children.nodes ++ siblings.nodes) ∨
      other ∉ top.blocks ++ blocks (children.nodes ++ siblings.nodes) ∧ _
    rw [live, List.mem_append, List.mem_append, not_or]
    constructor
    · rintro (new | ⟨outside, used⟩)
      · exact .inl (.inl new)
      · by_cases beside : other ∈ blocks (children.nodes ++ siblings.nodes)
        · exact .inl (.inr beside)
        · exact .inr ⟨⟨outside, beside⟩, used⟩
    · rintro ((new | old) | ⟨⟨outside, -⟩, used⟩)
      · exact .inl new
      · rcases mem_blocks.mp old with ⟨owner, owns, belongs⟩
        exact .inr ⟨fun same => apart.2.2 same old,
          (invariant.live other).mpr (mem_blocks.mpr ⟨owner, inTree owner owns, belongs⟩)⟩
      · exact .inr ⟨outside, used⟩
  · intro context available found space
    rcases counts context available found space with
      ⟨changedContext, left, foundAfter, spaceAfter, sameMax, balance⟩
    refine ⟨changedContext, left, foundAfter, spaceAfter, sameMax, ?_⟩
    change left.toNat + (changed.recorded + recorded (children.nodes ++ siblings.nodes)) =
      available.toNat + (top.recorded + recorded (children.nodes ++ siblings.nodes))
    omega

theorem holds (invariant : Invariant run) {path : Path Node} {top : Node}
    {children siblings : Tree} (plugged : run.tree = path.plug (.node top children siblings)) :
    Holds run.heap run.root (path.back Node.block none) (children.head Node.block)
      (siblings.head Node.block) top := by
  have links := invariant.links
  rw [Represents, plugged, Path.linked_plug] at links
  exact links.2.1

theorem root_mem (invariant : Invariant run) (more : run.tree ≠ .nil) :
    run.root ∈ blocks run.tree.nodes := by
  rcases invariant.rooted with empty | ⟨top, children, single, atRoot⟩
  · exact (more empty).elim
  · rw [single, ← atRoot]
    exact mem_blocks.mpr ⟨top, List.mem_cons_self, block_mem_blocks top⟩

theorem top_mem {path : Path Node} {top : Node} {children siblings : Tree}
    (plugged : run.tree = path.plug (.node top children siblings)) : top ∈ run.tree.nodes := by
  rw [plugged, (nodes_perm _ _ _ _).mem_iff]
  exact List.mem_cons_self

theorem blocks_mem {path : Path Node} {top : Node} {children siblings : Tree}
    (plugged : run.tree = path.plug (.node top children siblings)) {block : Block}
    (inside : block ∈ top.blocks) : block ∈ blocks run.tree.nodes :=
  mem_blocks.mpr ⟨top, top_mem plugged, inside⟩

theorem notMem_of_unused (invariant : Invariant run) {block : Block}
    (unused : run.heap.headers block = none) : block ∉ blocks run.tree.nodes := by
  rw [← invariant.live, unused]
  exact Bool.false_ne_true

theorem nodup_top (invariant : Invariant run) {path : Path Node} {top : Node}
    {children siblings : Tree} (plugged : run.tree = path.plug (.node top children siblings)) :
    top.blocks.Nodup := by
  have apart := (blocks_perm path top children siblings).nodup_iff.mp
    (plugged ▸ invariant.distinct)
  exact (List.nodup_append'.mp apart).1

theorem ne_nil {path : Path Node} {top : Node} {children siblings : Tree}
    (plugged : run.tree = path.plug (.node top children siblings)) : run.tree ≠ .nil := by
  intro empty
  have inside := top_mem plugged
  rw [empty] at inside
  cases inside

/-- One allocator is changed, and no allocation. -/
theorem exchange_jobs (invariant : Invariant run) {path : Path Node} {top changed : Node}
    {children siblings : Tree} (plugged : run.tree = path.plug (.node top children siblings))
    {after : Heap} (allocations : changed.allocations = top.allocations)
    (block : changed.block = top.block) (headers : after.headers = run.heap.headers)
    (spaces : after.spaces = run.heap.spaces)
    (contexts : ∀ block ≠ top.block, after.contexts block = run.heap.contexts block)
    (maxSpace : ∀ context, run.heap.contexts top.block = some context →
      ∃ changedContext, after.contexts top.block = some changedContext ∧
        changedContext.maxSpace = context.maxSpace)
    (jobs : ∀ job ∉ top.blocks, after.jobs job = run.heap.jobs job)
    (here : ∀ last first next, Holds run.heap run.root last first next top →
      Holds after run.root last first next changed)
    (registers : changed.Registers) :
    Invariant ⟨run.root, after, path.plug (.node changed children siblings)⟩ := by
  have sameBlocks : changed.blocks = top.blocks := congrArg (List.map Prod.fst) allocations
  have sameRecorded : changed.recorded = top.recorded := by
    rw [Node.recorded, allocations, Node.recorded]
  refine invariant.exchange plugged block ?_ here ?_ ?_ registers ?_ ?_
  · intro other outside inside
    refine ⟨congrFun headers other, contexts other fun same => ?_, jobs other outside⟩
    exact outside (same ▸ block_mem_blocks top)
  · exact sameBlocks ▸ invariant.nodup_top plugged
  · exact fun other inside => .inl (sameBlocks ▸ inside)
  · intro other
    rw [headers, sameBlocks]
    constructor
    · intro live
      by_cases old : other ∈ top.blocks
      · exact .inl old
      · exact .inr ⟨old, live⟩
    · rintro (old | ⟨-, live⟩)
      · exact (invariant.live other).mpr (blocks_mem plugged old)
      · exact live
  · intro context available found space
    rw [spaces, sameRecorded]
    by_cases atTop : run.root = top.block
    · rcases maxSpace context (atTop ▸ found) with ⟨changedContext, foundAfter, same⟩
      exact ⟨changedContext, available, atTop ▸ foundAfter, space, same, rfl⟩
    · exact ⟨context, available, (contexts _ atTop).trans found, space, rfl, rfl⟩

end Invariant

/-! ## Allocations -/

/-- Words that are no negative numbers are compared as they are. -/
theorem lt_of_not_sle {large small : BitVec 64} (large63 : large.toNat < 2 ^ 63)
    (small63 : small.toNat < 2 ^ 63) (above : ¬ large.sle small) : small.toNat < large.toNat := by
  rw [BitVec.sle, decide_eq_true_eq, BitVec.toInt_eq_toNat_of_lt (by omega),
    BitVec.toInt_eq_toNat_of_lt (by omega)] at above
  omega

theorem read_bind {α β : Type} (value : α) (next : α → Except Stop β) :
    (read (some value) >>= next) = next value :=
  rfl

theorem newAllocation_eq_ok {size : BitVec 64} {grant : Option Block} {context : Context}
    {available : BitVec 64} {heap : Heap} {result : Block × Context × BitVec 64 × Heap}
    (returns : newAllocation size grant context available heap = .ok result) :
    ∃ alloc, grant = some alloc ∧ ¬ available.sle (realSize size) ∧
      result = (alloc,
        { context with
          allocatedHere := context.allocatedHere + realSize size
          allocations := some alloc },
        available - realSize size, heap.grant alloc ⟨realSize size, context.allocations⟩) := by
  unfold newAllocation at returns
  split_ifs at returns with limit
  rcases grant with _ | alloc
  · cases returns
  · exact ⟨alloc, rfl, limit, (Except.ok.inj returns).symm⟩

section Malloc

variable {heap after : Heap} {allocator root block : Block} {context : Context}
  {available length : BitVec 64} {grant : Option Block}

theorem allocatorMalloc_eq_ok (found : heap.contexts allocator = some context)
    (points : context.spaceAvailable = some root) (space : heap.spaces root = some available)
    (returns : allocatorMalloc length allocator grant heap = .ok (block, after)) :
    grant = some block ∧ ¬ available.sle (realSize length) ∧
      after = (((heap.grant block ⟨realSize length, context.allocations⟩).setContext allocator
        { context with
          allocatedHere := context.allocatedHere + realSize length
          allocations := some block }).setSpace (some root) (available - realSize length)) := by
  rw [allocatorMalloc, found, read_bind, points, Option.bind_some, space, read_bind] at returns
  rcases outcome : newAllocation length grant context available heap with stop | result
  · rw [outcome] at returns
    cases returns
  · rcases newAllocation_eq_ok outcome with ⟨alloc, rfl, limit, rfl⟩
    rw [outcome] at returns
    cases returns
    exact ⟨rfl, limit, rfl⟩

/-- An allocation is moved, and what points to it. -/
structure Moved (heap after : Heap) (allocator root original block : Block)
    (locPtr : Option Block) (context : Context) (size left : BitVec 64)
    (next : Option Block) : Prop where
  headers : ∀ other, after.headers other = redirect (Function.update
    (Function.update heap.headers original none) block (some ⟨size, next⟩)) locPtr (some block) other
  here : ∃ changed : Context, after.contexts allocator = some { changed with
      allocations := if locPtr = none then some block else context.allocations } ∧
    { changed with allocatedHere := context.allocatedHere } = context
  contexts : ∀ other, other ≠ allocator → other ≠ original → other ≠ block →
    after.contexts other = heap.contexts other
  spaces : root ≠ original → root ≠ block → after.spaces root = some left
  jobs : ∀ other, other ≠ original → other ≠ block → after.jobs other = heap.jobs other

theorem reallocAt_eq_ok {original : Block} {header : Cell Block (BitVec 64)}
    {locPtr : Option Block} (found : heap.contexts allocator = some context)
    (points : context.spaceAvailable = some root) (space : heap.spaces root = some available)
    (old : heap.headers original = some header) (notOriginal : allocator ≠ original)
    (notGranted : ∀ block, grant = some block → allocator ≠ block)
    (returns : reallocAt original length allocator grant locPtr heap = .ok (block, after)) :
    grant = some block ∧ ¬ available + header.value < realSize length ∧
      Moved heap after allocator root original block locPtr context (realSize length)
        (available + header.value - realSize length) header.next := by
  have counter : context.spaceAvailable.bind heap.spaces = some available := by
    rw [points]
    exact space
  rw [reallocAt, found, read_bind, old, read_bind, counter, read_bind] at returns
  split_ifs at returns with limit
  rcases grant with _ | alloc
  · cases returns
  have notAlloc := notGranted alloc rfl
  have stays : (((heap.setSpace context.spaceAvailable
      (available + header.value - realSize length)).setContext allocator { context with
        allocatedHere := context.allocatedHere - header.value + realSize length }).drop
          original |>.grant alloc ⟨realSize length, header.next⟩).contexts allocator =
      some { context with
        allocatedHere := context.allocatedHere - header.value + realSize length } :=
    (Function.update_of_ne notAlloc ..).trans
      ((Function.update_of_ne notOriginal ..).trans (Function.update_self ..))
  rcases locPtr with _ | loc
  · dsimp only at returns
    rw [setLocation, stays, read_bind] at returns
    cases returns
    refine ⟨rfl, limit, ⟨fun other => ?_, ?_, ?_, ?_, ?_⟩⟩
    · rw [redirect, if_neg (by simp)]
      simp [Heap.setContext, Heap.grant, Heap.drop, Heap.setSpace]
    · exact ⟨{ context with
        allocatedHere := context.allocatedHere - header.value + realSize length },
        Function.update_self .., rfl⟩
    · intro other apart notOld notNew
      simp [Heap.setContext, Heap.grant, Heap.drop, Heap.setSpace, apart, notOld, notNew]
    · intro notOld notNew
      simp [Heap.setContext, Heap.grant, Heap.drop, Heap.setSpace, points, notOld, notNew]
    · intro other notOld notNew
      simp [Heap.setContext, Heap.grant, Heap.drop, Heap.setSpace, notOld, notNew]
  · cases returns
    refine ⟨rfl, limit, ⟨fun other => ?_, ?_, ?_, ?_, ?_⟩⟩
    · rfl
    · exact ⟨{ context with
        allocatedHere := context.allocatedHere - header.value + realSize length }, stays, rfl⟩
    · intro other apart notOld notNew
      simp [Heap.setContext, Heap.grant, Heap.drop, Heap.setSpace, apart, notOld, notNew]
    · intro notOld notNew
      simp [Heap.setContext, Heap.grant, Heap.drop, Heap.setSpace, points, notOld, notNew]
    · intro other notOld notNew
      simp [Heap.setContext, Heap.grant, Heap.drop, Heap.setSpace, notOld, notNew]

/-- An allocator that has nothing -/
def newContext (block : Block) (maxSpace : BitVec 64) : Context where
  allocations := some block
  onFree := none
  lastSibling := none
  nextSibling := none
  firstChild := none
  spaceAvailable := some block
  maxSpace := maxSpace
  allocatedHere := 0 + allocSize

theorem newWithIdentity_eq_ok {sizeLimit : BitVec 64}
    (returns : newWithIdentity sizeLimit grant heap = .ok (block, after)) :
    grant = some block ∧ ¬ (initialSpace sizeLimit).sle allocSize ∧
      after = ((heap.grant block ⟨allocSize, none⟩).setContext block
        (newContext block (initialSpace sizeLimit - allocSize))).setSpace (some block)
          (initialSpace sizeLimit - allocSize) := by
  unfold newWithIdentity at returns
  rcases outcome : newAllocation (BitVec.ofNat 64 firstCtxSize) grant stackContext
    (initialSpace sizeLimit) heap with stop | result
  · rw [outcome] at returns
    cases returns
  · rcases newAllocation_eq_ok outcome with ⟨alloc, rfl, limit, rfl⟩
    rw [outcome] at returns
    cases returns
    exact ⟨rfl, limit, rfl⟩

/-- The memory where an allocator, if there is one, has a certain last sibling -/
def withLastSibling (pointer last : Option Block) (heap : Heap) : Heap :=
  { heap with
    contexts := fun block =>
      if some block = pointer then
        (heap.contexts block).map fun context => { context with lastSibling := last }
      else heap.contexts block }

theorem setContext_eq_map {heap : Heap} {block : Block} {context : Context}
    (found : heap.contexts block = some context) (change : Context → Context) :
    heap.setContext block (change context) = { heap with
      contexts := fun other =>
        if some other = some block then (heap.contexts other).map change
        else heap.contexts other } := by
  rw [Heap.setContext]
  refine congrArg (fun contexts => { heap with contexts := contexts }) (funext ?_)
  intro other
  simp only [Function.update_apply, Option.some.injEq]
  split_ifs with same
  · rw [same, found]
    rfl
  · rfl

theorem setLastSibling_eq {pointer last : Option Block} {heap : Heap}
    (present : ∀ block, pointer = some block → (heap.contexts block).isSome) :
    setLastSibling pointer last heap = .ok (withLastSibling pointer last heap) := by
  rcases pointer with _ | block
  · exact congrArg Except.ok (by simp [withLastSibling])
  · rcases Option.isSome_iff_exists.mp (present block rfl) with ⟨context, found⟩
    rw [setLastSibling, found, read_bind, withLastSibling]
    exact congrArg Except.ok
      (setContext_eq_map found fun context => { context with lastSibling := last })

/-- A child was added to an allocator. -/
structure Grown (heap after : Heap) (allocator root block : Block) (context : Context)
    (left : BitVec 64) : Prop where
  headers : after.headers = Function.update heap.headers block (some ⟨allocSize, none⟩)
  child : after.contexts block = some { newContext block context.maxSpace with
    lastSibling := some allocator
    nextSibling := context.firstChild
    spaceAvailable := context.spaceAvailable }
  here : after.contexts allocator = some { context with firstChild := some block }
  first : ∀ first sibling, context.firstChild = some first → heap.contexts first = some sibling →
    after.contexts first = some { sibling with lastSibling := some block }
  contexts : ∀ other, other ≠ allocator → other ≠ block → some other ≠ context.firstChild →
    after.contexts other = heap.contexts other
  spaces : root ≠ block → after.spaces root = some left
  jobs : ∀ other ≠ block, after.jobs other = heap.jobs other

theorem childAllocator_eq_ok (found : heap.contexts allocator = some context)
    (points : context.spaceAvailable = some root) (space : heap.spaces root = some available)
    (siblings : ∀ first, context.firstChild = some first →
      first ≠ allocator ∧ (heap.contexts first).isSome)
    (fresh : ∀ block, grant = some block → allocator ≠ block ∧ context.firstChild ≠ some block)
    (returns : childAllocator allocator grant heap = .ok (block, after)) :
    grant = some block ∧ ¬ available.sle allocSize ∧
      Grown heap after allocator root block context (available - allocSize) := by
  have counter : context.spaceAvailable.bind heap.spaces = some available := by
    rw [points]
    exact space
  rw [childAllocator, found, read_bind, counter, read_bind] at returns
  split_ifs at returns with limit
  rcases outcome : newWithIdentity allocSize grant heap with stop | ⟨childAlloc, grown⟩
  · rw [outcome] at returns
    cases returns
  rcases newWithIdentity_eq_ok outcome with ⟨rfl, -, rfl⟩
  rcases fresh childAlloc rfl with ⟨notSame, notFirst⟩
  rw [outcome] at returns
  have new : ((((heap.grant childAlloc ⟨allocSize, none⟩).setContext childAlloc
      (newContext childAlloc (initialSpace allocSize - allocSize))).setSpace (some childAlloc)
        (initialSpace allocSize - allocSize)).setSpace context.spaceAvailable
          (available - allocSize)).contexts childAlloc =
      some (newContext childAlloc (initialSpace allocSize - allocSize)) :=
    Function.update_self ..
  change (read _ >>= fun child => _) = _ at returns
  rw [new, read_bind] at returns
  rw [setLastSibling_eq] at returns
  · change (read _ >>= fun context => _) = _ at returns
    have stays : (withLastSibling context.firstChild (some childAlloc) (((((heap.grant childAlloc
        ⟨allocSize, none⟩).setContext childAlloc (newContext childAlloc
          (initialSpace allocSize - allocSize))).setSpace (some childAlloc)
            (initialSpace allocSize - allocSize)).setSpace context.spaceAvailable
              (available - allocSize)).setContext childAlloc
                { newContext childAlloc (initialSpace allocSize - allocSize) with
                  maxSpace := context.maxSpace
                  lastSibling := some allocator
                  nextSibling := context.firstChild
                  spaceAvailable := context.spaceAvailable })).contexts allocator =
        some context := by
      have notFirstChild : ¬ some allocator = context.firstChild := fun same =>
        (siblings allocator same.symm).1 rfl
      simp [withLastSibling, Heap.setContext, Heap.setSpace, Heap.grant, Heap.drop, notSame,
        notFirstChild, found]
    rw [stays, read_bind] at returns
    cases returns
    refine ⟨rfl, limit, ⟨rfl, ?_, Function.update_self .., ?_, ?_, ?_, ?_⟩⟩
    · have notFirst' : ¬ some block = context.firstChild := fun same => notFirst same.symm
      simp [withLastSibling, Heap.setContext, Heap.setSpace, notSame.symm, notFirst', newContext]
    · intro first sibling firstIs foundFirst
      have notFresh : first ≠ block := fun same => notFirst (same ▸ firstIs)
      simp [withLastSibling, Heap.setContext, Heap.setSpace, Heap.grant, Heap.drop,
        (siblings first firstIs).1, notFresh, firstIs, foundFirst]
    · intro other notHere notNew notFirst
      simp [withLastSibling, Heap.setContext, Heap.setSpace, Heap.grant, Heap.drop, notHere, notNew,
        notFirst]
    · intro apart
      simp [withLastSibling, Heap.setContext, Heap.setSpace, points]
    · intro other notNew
      simp [withLastSibling, Heap.setContext, Heap.setSpace, Heap.grant, Heap.drop, notNew]
  · intro first points
    have notFresh : first ≠ childAlloc := fun same => notFirst (same ▸ points)
    have present := (siblings first points).2
    simp only [Heap.setContext, Heap.setSpace, Heap.grant, Heap.drop,
      Function.update_of_ne notFresh]
    exact present

end Malloc

namespace Invariant

variable {run : Run}

/-- Something more is allocated with an allocator. -/
theorem allocate (invariant : Invariant run) {path : Path Node} {top : Node}
    {children siblings : Tree} (plugged : run.tree = path.plug (.node top children siblings))
    {length : BitVec 64} (small : length.toNat < 2 ^ 62) {grant : Option Block} {block : Block}
    {after : Heap} (unused : ∀ block, grant = some block → run.heap.headers block = none)
    (returns : allocatorMalloc length top.block grant run.heap = .ok (block, after)) :
    grant = some block ∧
      Invariant ⟨run.root, after, path.plug (.node (top.allocate block length) children siblings)⟩ := by
  rcases invariant.holds plugged with ⟨context, describes⟩
  rcases invariant.counts (ne_nil plugged) with ⟨rootContext, available, atRoot, space, bound, sum⟩
  rcases allocatorMalloc_eq_ok describes.here describes.spaceAvailable space returns with
    ⟨rfl, limit, rfl⟩
  have size := toNat_realSize small
  have free := unused block rfl
  have notLive := invariant.notMem_of_unused free
  have fresh : block ∉ top.blocks := fun inside => notLive (blocks_mem plugged inside)
  have registers := invariant.registers top (top_mem plugged)
  have allBlocks : (top.allocate block length).blocks = block :: top.blocks := rfl
  rw [plugged, recorded_eq, Node.recorded, Node.allocations, List.map_append, List.sum_append]
    at sum
  have own : (List.map (fun entry : Block × BitVec 64 => entry.2.toNat)
    [(top.block, allocSize)]).sum = 176 := rfl
  have above := lt_of_not_sle (by omega) (by omega) limit
  refine ⟨rfl, invariant.exchange plugged rfl ?_ ?_ ?_ ?_ ?_ ?_ ?_⟩
  · intro other outside inside
    have notFresh : other ≠ block := fun same => notLive (same ▸ inside)
    have notTop : other ≠ top.block := fun same => outside (same ▸ block_mem_blocks top)
    constructor <;> simp [Heap.setSpace, Heap.setContext, Heap.grant, Heap.drop, notFresh, notTop]
  · rintro last first next ⟨described, holds⟩
    have same : described = context := Option.some.inj (holds.here.symm.trans describes.here)
    subst same
    refine ⟨{ described with
      allocatedHere := described.allocatedHere + realSize length
      allocations := some block }, { holds with here := ?_, allocations := ?_, onFree := ?_ }⟩
    · exact Function.update_self ..
    · refine ⟨rfl, described.allocations, Function.update_self .., ?_⟩
      refine holds.allocations.congr fun pointer inside => ?_
      have other : pointer ≠ block := fun same => fresh (same ▸ inside)
      exact Function.update_of_ne other ..
    · refine holds.onFree.congr fun job inside => ?_
      have other : job ≠ block := fun same => fresh (same ▸ registers.mem_blocks inside)
      exact Function.update_of_ne other ..
  · rw [allBlocks]
    exact List.nodup_cons.mpr ⟨fresh, invariant.nodup_top plugged⟩
  · intro other inside
    rcases List.mem_cons.mp (allBlocks ▸ inside) with rfl | old
    · exact .inr free
    · exact .inl old
  · exact ⟨registers.1, fun job inside => List.mem_cons_of_mem _ (registers.2 job inside)⟩
  · intro other
    rw [allBlocks, List.mem_cons]
    by_cases same : other = block
    · rw [same]
      simp [Heap.setSpace, Heap.setContext, Heap.grant]
    · have headers : (((run.heap.grant block ⟨realSize length, context.allocations⟩).setContext
          top.block { context with
            allocatedHere := context.allocatedHere + realSize length
            allocations := some block }).setSpace (some run.root)
          (available - realSize length)).headers other = run.heap.headers other := by
        simp [Heap.setSpace, Heap.setContext, Heap.grant, Heap.drop, same]
      rw [headers]
      constructor
      · intro live
        by_cases old : other ∈ top.blocks
        · exact .inl (.inr old)
        · exact .inr ⟨old, live⟩
      · rintro ((new | old) | ⟨-, live⟩)
        · exact (same new).elim
        · exact (invariant.live other).mpr (blocks_mem plugged old)
        · exact live
  · intro rootContext' available' found space'
    have sameContext := Option.some.inj (atRoot.symm.trans found)
    have sameSpace := Option.some.inj (space.symm.trans space')
    subst sameContext sameSpace
    have total : (top.allocate block length).recorded =
        (realSize length).toNat + top.recorded := rfl
    have left : (available - realSize length).toNat = available.toNat - (realSize length).toNat := by
      rw [BitVec.toNat_sub_of_le (by
        rw [BitVec.le_def]
        omega)]
    have notRoot : run.root ≠ block :=
      fun same => notLive (same ▸ invariant.root_mem (ne_nil plugged))
    have balance : (available - realSize length).toNat + (top.allocate block length).recorded =
        available.toNat + top.recorded := by
      rw [left, total]
      omega
    by_cases atTop : run.root = top.block
    · have sameTop := Option.some.inj ((atTop ▸ atRoot).symm.trans describes.here)
      refine ⟨{ context with
        allocatedHere := context.allocatedHere + realSize length
        allocations := some block }, _, ?_, if_pos rfl, ?_, balance⟩
      · rw [atTop]
        exact Function.update_self ..
      · rw [sameTop]
    · refine ⟨rootContext, _, ?_, if_pos rfl, rfl, balance⟩
      rw [← atRoot]
      exact (Function.update_of_ne atTop ..).trans (Function.update_of_ne notRoot ..)

theorem key_of_root (invariant : Invariant run) (more : run.tree ≠ .nil) :
    run.root ∈ run.tree.nodes.map Node.block := by
  rcases invariant.rooted with empty | ⟨top, children, single, atRoot⟩
  · exact (more empty).elim
  · rw [single, ← atRoot]
    exact List.mem_cons_self

/-- An allocation of an allocator is moved. -/
theorem move (invariant : Invariant run) {path : Path Node} {top : Node}
    {children siblings : Tree} (plugged : run.tree = path.plug (.node top children siblings))
    {size : BitVec 64} {original block : Block} {old : BitVec 64}
    {front back : List (Block × BitVec 64)}
    (split : top.entries = front ++ (original, old) :: back)
    (notJob : original ∉ top.jobs.map Prod.fst) (notRoot : run.root ≠ original)
    (unused : run.heap.headers block = none ∨ block = original) {after : Heap} {context : Context}
    (describes : Describes run.heap run.root (path.back Node.block none)
      (children.head Node.block) (siblings.head Node.block) top context) {available : BitVec 64}
    (space : run.heap.spaces run.root = some available)
    {next : Option Block} (header : run.heap.headers original = some ⟨old, next⟩)
    (limit : ¬ available + old < realSize size)
    (moved : Moved run.heap after top.block run.root original block (place front) context
      (realSize size) (available + old - realSize size) next) :
    Invariant ⟨run.root, after,
      path.plug (.node (top.reallocate original block size) children siblings)⟩ := by
  have registers := invariant.registers top (top_mem plugged)
  have distinct := invariant.nodup_top plugged
  have oldBlocks :
      top.blocks = front.map Prod.fst ++ original :: (back.map Prod.fst ++ [top.block]) := by
    rw [blocks_eq, split, List.map_append, List.map_cons, List.append_assoc, List.cons_append]
  have inTop : original ∈ top.blocks := by
    rw [oldBlocks]
    exact List.mem_append_right _ List.mem_cons_self
  rw [oldBlocks, List.nodup_append', List.nodup_cons] at distinct
  rcases distinct with ⟨frontDistinct, ⟨notBack, backDistinct⟩, apart⟩
  have notFront : original ∉ front.map Prod.fst := fun inside => apart inside List.mem_cons_self
  have newEntries : (top.reallocate original block size).entries =
      front ++ (block, realSize size) :: back := by
    have keeps : ∀ entries : List (Block × BitVec 64), original ∉ entries.map Prod.fst →
        entries.map (fun entry => if entry.1 = original then (block, realSize size) else entry) =
          entries := by
      intro entries absent
      refine (List.map_congr_left fun entry inside => if_neg ?_).trans (List.map_id _)
      exact ne_of_mem_of_not_mem (List.mem_map_of_mem inside) absent
    rw [Node.reallocate, split, List.map_append, List.map_cons, if_pos rfl, keeps _ notFront,
      keeps _ fun inside => notBack (List.mem_append_left _ inside)]
  have newBlocks : (top.reallocate original block size).blocks =
      front.map Prod.fst ++ block :: (back.map Prod.fst ++ [top.block]) := by
    rw [blocks_eq, newEntries, List.map_append, List.map_cons, List.append_assoc, List.cons_append]
    rfl
  -- The new block is none of the others.
  have apartNew : ∀ {other}, other ∈ blocks run.tree.nodes → other ≠ original → other ≠ block := by
    rintro other inside notOld rfl
    rcases unused with free | same
    · exact invariant.notMem_of_unused free inside
    · exact notOld same
  have inTree : ∀ {other}, other ∈ front.map Prod.fst ∨ other ∈ back.map Prod.fst ++ [top.block] →
      other ∈ top.blocks := by
    rintro other (inFront | inBack)
    · exact oldBlocks ▸ List.mem_append_left _ inFront
    · exact oldBlocks ▸ List.mem_append_right _ (List.mem_cons_of_mem _ inBack)
  have newNotFront : block ∉ front.map Prod.fst := fun inside =>
    apartNew (blocks_mem plugged (inTree (.inl inside)))
      (ne_of_mem_of_not_mem inside notFront) rfl
  have newNotBack : block ∉ back.map Prod.fst ++ [top.block] := fun inside =>
    apartNew (blocks_mem plugged (inTree (.inr inside)))
      (ne_of_mem_of_not_mem inside notBack) rfl
  have keyNotOld : top.block ≠ original :=
    ne_of_mem_of_not_mem (List.mem_append_right _ List.mem_cons_self) notBack
  have keyNotNew : top.block ≠ block :=
    ne_of_mem_of_not_mem (List.mem_append_right _ List.mem_cons_self) newNotBack
  have placeOld : ∀ {other}, some other = place front → other ∈ front.map Prod.fst :=
    fun same => place_mem same.symm
  have headers : ∀ other, other ≠ original → other ≠ block → some other ≠ place front →
      after.headers other = run.heap.headers other := by
    intro other notOld notNew notPlace
    rw [moved.headers, redirect, if_neg notPlace, Function.update_of_ne notNew,
      Function.update_of_ne notOld]
  have newHeader : after.headers block = some ⟨realSize size, next⟩ := by
    rw [moved.headers, redirect, if_neg fun same => newNotFront (placeOld same),
      Function.update_self]
  refine invariant.exchange plugged rfl ?_ ?_ ?_ ?_ ?_ ?_ ?_
  · intro other outside inside
    have notOld : other ≠ original := (ne_of_mem_of_not_mem inTop outside).symm
    have notNew := apartNew inside notOld
    refine ⟨headers other notOld notNew ?_, moved.contexts other ?_ notOld notNew,
      moved.jobs other notOld notNew⟩
    · exact fun same => outside (inTree (.inl (placeOld same)))
    · exact (ne_of_mem_of_not_mem (block_mem_blocks top) outside).symm
  · rintro last first next' ⟨described, holds⟩
    have same : described = context := Option.some.inj (holds.here.symm.trans describes.here)
    subst same
    rcases moved.here with ⟨changed, here, keeps⟩
    have linked := holds.allocations
    rw [Node.allocations, split, List.append_assoc, List.cons_append] at linked
    rcases linked.splice frontDistinct with ⟨link, ⟨starts, after', cell, rest⟩, empty, exchange⟩
    rw [header, Option.some.injEq, Cell.mk.injEq] at cell
    rcases cell with ⟨-, rfl⟩
    refine ⟨_, ⟨here, ?_, ?_, ?_, ?_, ?_, ?_⟩⟩
    · exact (congrArg Context.lastSibling keeps).trans holds.lastSibling
    · exact (congrArg Context.firstChild keeps).trans holds.firstChild
    · exact (congrArg Context.nextSibling keeps).trans holds.nextSibling
    · exact (congrArg Context.spaceAvailable keeps).trans holds.spaceAvailable
    · have tail : LinkedList.Linked after.headers (some block)
          ((block, realSize size) :: (back ++ [(top.block, allocSize)])) := by
        refine ⟨rfl, next, newHeader, rest.congr fun other inside => ?_⟩
        rw [List.map_append] at inside
        refine headers other (ne_of_mem_of_not_mem inside notBack)
          (ne_of_mem_of_not_mem inside newNotBack) fun same => ?_
        exact apart (placeOld same) (List.mem_cons_of_mem _ inside)
      have extended := exchange tail fun other inside => by
        rw [moved.headers, redirect, redirect,
          Function.update_of_ne (ne_of_mem_of_not_mem inside newNotFront),
          Function.update_of_ne (ne_of_mem_of_not_mem inside notFront)]
      rw [Node.allocations, newEntries, List.append_assoc, List.cons_append]
      simp only [place_eq_none]
      exact extended
    · refine Eq.mp (congrArg (fun start => LinkedList.Linked after.jobs start top.jobs)
        (congrArg Context.onFree keeps).symm) (holds.onFree.congr fun job inside => ?_)
      have notOld : job ≠ original := ne_of_mem_of_not_mem inside notJob
      exact moved.jobs job notOld
        (apartNew (blocks_mem plugged (registers.mem_blocks inside)) notOld)
  · rw [newBlocks, List.nodup_append', List.nodup_cons]
    refine ⟨frontDistinct, ⟨newNotBack, backDistinct⟩, fun other inFront inRest => ?_⟩
    rcases List.mem_cons.mp inRest with rfl | inBack
    · exact newNotFront inFront
    · exact apart inFront (List.mem_cons_of_mem _ inBack)
  · intro other inside
    rw [newBlocks, List.mem_append, List.mem_cons] at inside
    rcases inside with inFront | rfl | inBack
    · exact .inl (inTree (.inl inFront))
    · rcases unused with free | rfl
      · exact .inr free
      · exact .inl inTop
    · exact .inl (inTree (.inr inBack))
  · refine ⟨registers.1, fun job inside => ?_⟩
    have notOld : job ≠ original := ne_of_mem_of_not_mem inside notJob
    have inEntries := registers.2 job inside
    rw [split, List.map_append, List.map_cons, List.mem_append, List.mem_cons] at inEntries
    rw [newEntries, List.map_append, List.map_cons, List.mem_append, List.mem_cons]
    rcases inEntries with inFront | same | inBack
    · exact .inl inFront
    · exact (notOld same).elim
    · exact .inr (.inr inBack)
  · intro other
    by_cases new : other = block
    · rw [new, newHeader, newBlocks]
      exact iff_of_true rfl (.inl (List.mem_append_right _ List.mem_cons_self))
    by_cases isOld : other = original
    · rw [moved.headers, redirect, if_neg fun same => notFront (placeOld (isOld ▸ same)),
        Function.update_of_ne new, isOld, Function.update_self, newBlocks, List.mem_append,
        List.mem_cons]
      refine iff_of_false Bool.false_ne_true ?_
      rintro ((inFront | same | inBack) | ⟨outside, -⟩)
      · exact notFront inFront
      · exact new (isOld.trans same)
      · exact notBack inBack
      · exact outside inTop
    · have sameLive : (after.headers other).isSome = (run.heap.headers other).isSome := by
        rw [moved.headers, redirect, Function.update_of_ne new, Function.update_of_ne isOld]
        split_ifs
        · rw [Option.isSome_map]
        · rfl
      have sameIn : other ∈ (top.reallocate original block size).blocks ↔ other ∈ top.blocks := by
        rw [newBlocks, oldBlocks, List.mem_append, List.mem_append, List.mem_cons, List.mem_cons,
          or_iff_right new, or_iff_right isOld]
      rw [sameLive, sameIn]
      constructor
      · intro live
        by_cases inside : other ∈ top.blocks
        · exact .inl inside
        · exact .inr ⟨inside, live⟩
      · rintro (inside | ⟨-, live⟩)
        · exact (invariant.live other).mpr (blocks_mem plugged inside)
        · exact live
  · intro rootContext available' found space'
    have sameSpace := Option.some.inj (space.symm.trans space')
    subst sameSpace
    have more := ne_nil plugged
    have rootNotNew := apartNew (invariant.root_mem more) notRoot
    have balance : (available + old - realSize size).toNat +
        (top.reallocate original block size).recorded = available.toNat + top.recorded := by
      rcases invariant.counts more with ⟨context', available', -, space', bound, sum⟩
      have sameSpace := Option.some.inj (space.symm.trans space')
      subst sameSpace
      rw [plugged, recorded_eq] at sum
      have before : top.recorded = (front.map fun entry => entry.2.toNat).sum +
          (old.toNat + ((back.map fun entry => entry.2.toNat).sum + 176)) := by
        rw [Node.recorded, Node.allocations, split]
        simp [toNat_allocSize]
      have later : (top.reallocate original block size).recorded =
          (front.map fun entry => entry.2.toNat).sum +
            ((realSize size).toNat + ((back.map fun entry => entry.2.toNat).sum + 176)) := by
        rw [Node.recorded, Node.allocations, newEntries]
        simp [toNat_allocSize]
      have together : (available + old).toNat = available.toNat + old.toNat := by
        rw [BitVec.toNat_add, Nat.mod_eq_of_lt (by omega)]
      rw [BitVec.lt_def, together, not_lt] at limit
      have left : (available + old - realSize size).toNat =
          available.toNat + old.toNat - (realSize size).toNat := by
        rw [BitVec.toNat_sub_of_le (by rwa [BitVec.le_def, together]), together]
      omega
    by_cases atTop : run.root = top.block
    · rcases moved.here with ⟨changed, here, keeps⟩
      have sameContext := Option.some.inj ((atTop ▸ found).symm.trans describes.here)
      have sameMax := congrArg Context.maxSpace keeps
      refine ⟨_, _, atTop ▸ here, moved.spaces notRoot rootNotNew, ?_, balance⟩
      rw [sameContext]
      exact sameMax
    · refine ⟨rootContext, _, ?_, moved.spaces notRoot rootNotNew, rfl, balance⟩
      rw [moved.contexts _ atTop notRoot rootNotNew, found]

theorem reallocate (invariant : Invariant run) {path : Path Node} {top : Node}
    {children siblings : Tree} (plugged : run.tree = path.plug (.node top children siblings))
    {size : BitVec 64} {original : Block} (notKey : original ∉ run.tree.nodes.map Node.block)
    (notJob : original ∉ top.jobs.map Prod.fst) {grant : Option Block}
    (unused : ∀ block, grant = some block → run.heap.headers block = none ∨ block = original)
    {after : Heap} (settles : Fuel.Settles (fun fuel => (allocatorRealloc fuel (some original) size
      top.block grant run.heap).map Prod.snd) (.ok after)) :
    ∃ block, grant = some block ∧ Invariant ⟨run.root, after,
      path.plug (.node (top.reallocate original block size) children siblings)⟩ := by
  have more := ne_nil plugged
  rcases invariant.holds plugged with ⟨context, describes⟩
  rcases invariant.counts more with ⟨-, available, -, space, -⟩
  have topKey : top.block ∈ run.tree.nodes.map Node.block := List.mem_map_of_mem (top_mem plugged)
  have notTop := ne_of_mem_of_not_mem topKey notKey
  have finishes : ∀ {place}, Fuel.Settles (fun fuel => locate run.heap.headers original fuel none
      context.allocations) (some place) → (orFail place >>= fun locPtr =>
        reallocAt original size top.block grant locPtr run.heap).map Prod.snd = .ok after := by
    intro place finds
    have goes := finds.map fun found => (read found >>= fun place => orFail place >>= fun locPtr =>
      reallocAt original size top.block grant locPtr run.heap).map Prod.snd
    rw [read_bind] at goes
    refine goes.unique (Eq.mp (congrArg (Fuel.Settles · _) (funext fun fuel => ?_)) settles)
    rw [allocatorRealloc, describes.here, read_bind]
  by_cases inside : original ∈ top.allocations.map Prod.fst
  · have inEntries : original ∈ top.entries.map Prod.fst := by
      change original ∈ top.blocks at inside
      rw [blocks_eq, List.mem_append] at inside
      rcases inside with entry | own
      · exact entry
      · exact (notTop (List.mem_singleton.mp own).symm).elim
    rcases List.mem_map.mp inEntries with ⟨⟨pointer, old⟩, entry, same⟩
    change pointer = original at same
    subst same
    rcases List.append_of_mem entry with ⟨front, back, split⟩
    have linked := describes.allocations
    rw [Node.allocations, split, List.append_assoc, List.cons_append] at linked
    have distinct := invariant.nodup_top plugged
    rw [blocks_eq, split, List.map_append, List.map_cons, List.append_assoc,
      List.cons_append, List.nodup_append'] at distinct
    have finds := @locate_found _ _ _ _ _ _ _ _ none _ linked
      fun early => distinct.2.2 early List.mem_cons_self
    rw [Option.or_none] at finds
    have returns : (reallocAt pointer size top.block grant (place front) run.heap).map Prod.snd =
        .ok after := finishes finds
    rcases outcome : reallocAt pointer size top.block grant (place front) run.heap with
      stop | ⟨block, heap⟩
    · rw [outcome] at returns
      cases returns
    rw [outcome] at returns
    cases returns
    rcases linked.cell (List.mem_append_right _ List.mem_cons_self) with ⟨next, header⟩
    have notGranted : ∀ block, grant = some block → top.block ≠ block := by
      rintro block granted rfl
      rcases unused _ granted with free | same
      · exact invariant.notMem_of_unused free (blocks_mem plugged (block_mem_blocks top))
      · exact notTop same
    rcases reallocAt_eq_ok describes.here describes.spaceAvailable space header notTop notGranted
      outcome with ⟨granted, limit, moved⟩
    refine ⟨block, granted, invariant.move plugged split notJob
      (ne_of_mem_of_not_mem (invariant.key_of_root more) notKey) (unused block granted) describes
      space header limit moved⟩
  · cases finishes (locate_absent describes.allocations inside)

theorem part_keys (invariant : Invariant run) {path : Path Node} {top : Node}
    {children siblings : Tree} (plugged : run.tree = path.plug (.node top children siblings)) :
    (top.block ::
      (children.nodes.map Node.block ++ siblings.nodes.map Node.block)).Nodup := by
  have keys := ((path.nodes_plug (.node top children siblings)).map Node.block).nodup_iff.mp
    (plugged ▸ invariant.keys)
  rw [List.map_append, List.nodup_append', SiblingTree.nodes, List.map_cons,
    List.map_append] at keys
  exact keys.2.1

/-- A child is added to an allocator. -/
theorem grow (invariant : Invariant run) {path : Path Node} {top : Node}
    {children siblings : Tree} (plugged : run.tree = path.plug (.node top children siblings))
    {grant : Option Block} {block : Block} {after : Heap}
    (unused : ∀ block, grant = some block → run.heap.headers block = none)
    (returns : childAllocator top.block grant run.heap = .ok (block, after)) :
    grant = some block ∧ Invariant ⟨run.root, after,
      path.plug (.node top (.node ⟨block, [], []⟩ .nil children) siblings)⟩ := by
  have more := ne_nil plugged
  rcases invariant.holds plugged with ⟨context, describes⟩
  rcases invariant.counts more with ⟨rootContext, available, atRoot, space, bound, sum⟩
  have part : blocks (SiblingTree.node top children siblings).nodes =
      top.blocks ++ blocks (children.nodes ++ siblings.nodes) := rfl
  have changed : blocks (SiblingTree.node top (.node ⟨block, [], []⟩ .nil children) siblings).nodes =
      top.blocks ++ block :: blocks (children.nodes ++ siblings.nodes) := rfl
  have links := invariant.links
  rw [Represents, plugged, Path.linked_plug] at links
  rcases links with ⟨-, -, below, beside⟩
  have keys := invariant.part_keys plugged
  rw [List.nodup_cons, List.mem_append, not_or, List.nodup_append'] at keys
  rcases keys with ⟨⟨notChild, notSibling⟩, childKeys, siblingKeys, apartKeys⟩
  have nodes : ∀ other ∈ children.nodes ++ siblings.nodes, other ∈ run.tree.nodes := by
    intro other inside
    rw [plugged, (path.nodes_plug _).mem_iff]
    exact List.mem_append_right _ (List.mem_cons_of_mem _ inside)
  have present : ∀ other ∈ children.nodes, (run.heap.contexts other.block).isSome := by
    intro other inside
    rcases below.mem inside with ⟨last, first, next, found, holds⟩
    rw [holds.here]
    rfl
  have firstChild := describes.firstChild
  rcases childAllocator_eq_ok describes.here describes.spaceAvailable space (by
      rw [firstChild]
      intro first same
      rcases List.mem_map.mp (head_mem same) with ⟨other, inside, rfl⟩
      exact ⟨ne_of_mem_of_not_mem (List.mem_map_of_mem inside) notChild, present other inside⟩) (by
      rw [firstChild]
      intro block granted
      have notLive := invariant.notMem_of_unused (unused block granted)
      refine ⟨ne_of_mem_of_not_mem (blocks_mem plugged (block_mem_blocks top)) notLive, ?_⟩
      intro same
      rcases List.mem_map.mp (head_mem same) with ⟨other, inside, rfl⟩
      exact notLive (mem_blocks.mpr ⟨other, nodes other (List.mem_append_left _ inside),
        block_mem_blocks other⟩)) returns with ⟨rfl, limit, grown⟩
  have free := unused block rfl
  have notLive := invariant.notMem_of_unused free
  have notNew : ∀ {other}, other ∈ blocks run.tree.nodes → other ≠ block :=
    fun inside => ne_of_mem_of_not_mem inside notLive
  have notInPart : block ∉ top.blocks ++ blocks (children.nodes ++ siblings.nodes) := by
    intro inside
    refine notLive ?_
    rw [plugged, (blocks_plug path _).mem_iff]
    exact List.mem_append_right _ inside
  have headers : ∀ other ≠ block, after.headers other = run.heap.headers other := by
    intro other apart
    rw [grown.headers, Function.update_of_ne apart]
  have keeps : ∀ other ∈ run.tree.nodes, other.block ≠ top.block →
      some other.block ≠ children.head Node.block → ∀ last first next,
        Holds run.heap run.root last first next other →
          Holds after run.root last first next other := by
    intro other inside notTop notFirst last first next holds
    have belongs : ∀ block ∈ other.blocks, block ∈ blocks run.tree.nodes :=
      fun block own => mem_blocks.mpr ⟨other, inside, own⟩
    refine holds.transfer (invariant.registers other inside) ?_ ?_ ?_
    · exact grown.contexts _ notTop (notNew (belongs _ (block_mem_blocks other)))
        (firstChild ▸ notFirst)
    · exact fun block own => headers block (notNew (belongs block own))
    · exact fun block own => grown.jobs block (notNew (belongs block own))
  refine ⟨rfl, invariant.replace plugged rfl rfl ?_ ?_ ?_ ?_ ?_ ?_ ?_ ?_⟩
  · rintro ⟨first, inner, same⟩
    cases same
    exact ⟨top, _, rfl⟩
  · intro other outside inside
    rw [part, List.mem_append, not_or] at outside
    refine ⟨headers other (notNew inside), grown.contexts other ?_ (notNew inside) ?_,
      grown.jobs other (notNew inside)⟩
    · exact (ne_of_mem_of_not_mem (block_mem_blocks top) outside.1).symm
    · rw [firstChild]
      intro same
      rcases List.mem_map.mp (head_mem same.symm) with ⟨first, among, rfl⟩
      exact outside.2 (mem_blocks.mpr
        ⟨first, List.mem_append_left _ among, block_mem_blocks first⟩)
  · rintro last ⟨⟨described, holds⟩, belowLinked, besideLinked⟩
    have same : described = context := Option.some.inj (holds.here.symm.trans describes.here)
    subst same
    refine ⟨⟨_, { holds with
      here := grown.here
      firstChild := rfl
      allocations := ?_
      onFree := ?_ }⟩, ⟨⟨_, ⟨grown.child, rfl, rfl, firstChild, holds.spaceAvailable, ?_, rfl⟩⟩,
        trivial, ?_⟩, ?_⟩
    · exact holds.allocations.congr fun other inside =>
        headers other (notNew (blocks_mem plugged inside))
    · exact holds.onFree.congr fun job inside => grown.jobs job (notNew (blocks_mem plugged
        ((invariant.registers top (top_mem plugged)).mem_blocks inside)))
    · exact ⟨rfl, none, by rw [grown.headers, Function.update_self], rfl⟩
    · refine belowLinked.congr_last childKeys ?_ ?_
      · intro other inside notFirst last first next holds
        exact keeps other (nodes other (List.mem_append_left _ inside))
          (ne_of_mem_of_not_mem (List.mem_map_of_mem inside) notChild) notFirst _ _ _ holds
      · rintro other inside isFirst first next ⟨found, holdsOther⟩
        have belongs : ∀ block ∈ other.blocks, block ∈ blocks run.tree.nodes := fun block own =>
          mem_blocks.mpr ⟨other, nodes other (List.mem_append_left _ inside), own⟩
        refine ⟨_, { holdsOther with
          here := grown.first _ _ (firstChild.trans isFirst.symm) holdsOther.here
          lastSibling := rfl
          allocations := ?_
          onFree := ?_ }⟩
        · exact holdsOther.allocations.congr fun block own => headers block (notNew (belongs _ own))
        · exact holdsOther.onFree.congr fun job own => grown.jobs job (notNew (belongs _
            ((invariant.registers other (nodes other
              (List.mem_append_left _ inside))).mem_blocks own)))
    · refine besideLinked.congr fun other inside last first next holds => ?_
      have key := @List.mem_map_of_mem _ _ _ _ Node.block inside
      refine keeps other (nodes other (List.mem_append_right _ inside))
        (ne_of_mem_of_not_mem key notSibling) (fun isFirst => ?_) _ _ _ holds
      exact apartKeys (head_mem isFirst.symm) key
  · rw [changed]
    refine List.nodup_middle.mpr (List.nodup_cons.mpr ⟨notInPart, ?_⟩)
    have all := (blocks_plug path (.node top children siblings)).nodup_iff.mp
      (plugged ▸ invariant.distinct)
    exact (List.nodup_append'.mp all).2.1
  · intro other inside
    rw [changed, List.mem_append, List.mem_cons] at inside
    rw [part, List.mem_append]
    rcases inside with inTop | rfl | beside
    · exact .inl (.inl inTop)
    · exact .inr free
    · exact .inl (.inr beside)
  · intro other inside
    rcases List.mem_cons.mp inside with rfl | inside
    · exact invariant.registers _ (top_mem plugged)
    rcases List.mem_cons.mp inside with rfl | inside
    · exact ⟨List.nodup_nil, fun job impossible => by cases impossible⟩
    · exact invariant.registers other (nodes other inside)
  · intro other
    rw [changed, part, grown.headers]
    by_cases new : other = block
    · rw [new, Function.update_self]
      exact iff_of_true rfl (.inl (List.mem_append_right _ List.mem_cons_self))
    · rw [Function.update_of_ne new, List.mem_append, List.mem_append, List.mem_cons,
        or_iff_right new]
      constructor
      · intro live
        by_cases inPart : other ∈ top.blocks ∨ other ∈ blocks (children.nodes ++ siblings.nodes)
        · exact .inl inPart
        · exact .inr ⟨inPart, live⟩
      · rintro (inPart | ⟨-, live⟩)
        · refine (invariant.live other).mpr ?_
          rw [plugged, (blocks_plug path _).mem_iff, part]
          exact List.mem_append_right _ (List.mem_append.mpr inPart)
        · exact live
  · intro context' available' found space'
    have sameContext := Option.some.inj (atRoot.symm.trans found)
    have sameSpace := Option.some.inj (space.symm.trans space')
    subst sameContext sameSpace
    have rootNotNew := notNew (invariant.root_mem more)
    have own := recorded_plug path (.node top children siblings)
    have later : recorded (SiblingTree.node top (.node ⟨block, [], []⟩ .nil children)
        siblings).nodes = recorded (SiblingTree.node top children siblings).nodes + 176 := by
      change top.recorded + (176 + recorded (children.nodes ++ siblings.nodes)) =
        top.recorded + recorded (children.nodes ++ siblings.nodes) + 176
      omega
    have large : 176 ≤ recorded (SiblingTree.node top children siblings).nodes := by
      change 176 ≤ top.recorded + _
      rw [Node.recorded, Node.allocations, List.map_append, List.sum_append]
      exact le_trans (Nat.le_add_left _ _) (Nat.le_add_right _ _)
    rw [plugged, own] at sum
    have above := lt_of_not_sle (by omega) (by decide) limit
    rw [toNat_allocSize] at above
    have left : (available - allocSize).toNat = available.toNat - 176 := by
      rw [BitVec.toNat_sub_of_le (by
        rw [BitVec.le_def, toNat_allocSize]
        omega), toNat_allocSize]
    have maxSpace : ∃ changedContext, after.contexts run.root = some changedContext ∧
        changedContext.maxSpace = rootContext.maxSpace := by
      by_cases atTop : run.root = top.block
      · have sameTop := Option.some.inj ((atTop ▸ atRoot).symm.trans describes.here)
        exact ⟨_, atTop ▸ grown.here, by rw [sameTop]⟩
      by_cases atFirst : some run.root = context.firstChild
      · exact ⟨_, grown.first _ _ atFirst.symm atRoot, rfl⟩
      · exact ⟨_, (grown.contexts _ atTop rootNotNew atFirst).trans atRoot, rfl⟩
    rcases maxSpace with ⟨changedContext, foundAfter, sameMax⟩
    refine ⟨changedContext, _, foundAfter, grown.spaces rootNotNew, sameMax, ?_⟩
    rw [left, later]
    omega

/-! ## Jobs -/

theorem register (invariant : Invariant run) {path : Path Node} {top : Node}
    {children siblings : Tree} (plugged : run.tree = path.plug (.node top children siblings))
    {job : Block} (call : Call) (inside : job ∈ top.entries.map Prod.fst)
    (new : job ∉ top.jobs.map Prod.fst) :
    ∃ after, Fuel.Settles (fun fuel => appendJob fuel job top.block
        (run.heap.setJob job ⟨call, none⟩)) (.ok after) ∧
      Invariant ⟨run.root, after,
        path.plug (.node { top with jobs := top.jobs ++ [(job, call)] } children siblings)⟩ := by
  rcases invariant.holds plugged with ⟨context, describes⟩
  have registers := invariant.registers top (top_mem plugged)
  have inTop : job ∈ top.blocks := by
    rw [blocks_eq]
    exact List.mem_append_left _ inside
  have more : ({ top with jobs := top.jobs ++ [(job, call)] } : Node).Registers := by
    constructor
    · rw [List.map_append]
      refine List.Nodup.append registers.1 (List.nodup_singleton _) ?_
      intro other old single
      cases List.mem_singleton.mp single
      exact new old
    · intro other registered
      rw [List.map_append, List.mem_append] at registered
      rcases registered with old | single
      · exact registers.2 other old
      · cases List.mem_singleton.mp single
        exact inside
  have linked : LinkedList.Linked (run.heap.setJob job ⟨call, none⟩).jobs context.onFree
      top.jobs :=
    describes.onFree.congr fun other old =>
      Function.update_of_ne (ne_of_mem_of_not_mem old new) ..
  have single : ∀ {jobs : Block → Option (Cell Block Call)}, jobs job = some ⟨call, none⟩ →
      LinkedList.Linked jobs (some job) [(job, call)] :=
    fun cell => ⟨rfl, none, cell, rfl⟩
  have found : (run.heap.setJob job ⟨call, none⟩).contexts top.block = some context :=
    describes.here
  rw [← List.append_nil top.jobs] at linked
  rcases linked.splice registers.1 with ⟨link, -, empty, exchange⟩
  rw [List.append_nil] at linked
  rcases jobs : top.jobs with _ | ⟨first, rest⟩
  · have start : context.onFree = none := by
      rw [jobs] at linked
      exact linked
    refine ⟨(run.heap.setJob job ⟨call, none⟩).setContext top.block
      { context with onFree := some job }, Fuel.Settles.of_eq fun fuel => ?_, ?_⟩
    · rw [appendJob, found, read_bind, start]
    · refine invariant.exchange_jobs plugged rfl rfl rfl rfl ?_ ?_ ?_ ?_ (jobs ▸ more)
      · exact fun other apart => Function.update_of_ne apart ..
      · intro other same
        refine ⟨_, Function.update_self .., ?_⟩
        rw [Option.some.inj (same.symm.trans describes.here)]
      · exact fun other outside =>
          Function.update_of_ne (ne_of_mem_of_not_mem inTop outside).symm ..
      · rintro last first next ⟨described, holds⟩
        have same : described = context := Option.some.inj (holds.here.symm.trans describes.here)
        subst same
        exact ⟨{ described with onFree := some job }, { holds with
          here := Function.update_self ..
          onFree := single (Function.update_self ..) }⟩
  · have start : context.onFree = some first.1 := by
      rw [jobs] at linked
      exact linked.1
    rcases final : place top.jobs with _ | final'
    · rw [place_eq_none.mp final] at jobs
      cases jobs
    have finalOld := place_mem final
    have notNew : ¬ some job = some final' := by
      intro same
      exact new (Option.some.inj same ▸ finalOld)
    refine ⟨{ run.heap.setJob job ⟨call, none⟩ with
      jobs := redirect (run.heap.setJob job ⟨call, none⟩).jobs (some final') (some job) }, ?_, ?_⟩
    · have ends := last_eq (jobs ▸ linked)
      rw [← jobs, final] at ends
      have unfolds : (fun fuel => appendJob fuel job top.block (run.heap.setJob job ⟨call, none⟩)) =
          fun fuel => read (last (run.heap.setJob job ⟨call, none⟩).jobs fuel first.1) >>=
            fun final => .ok { run.heap.setJob job ⟨call, none⟩ with
              jobs := redirect (run.heap.setJob job ⟨call, none⟩).jobs (some final)
                (some job) } := by
        funext fuel
        rw [appendJob, found, read_bind, start]
      rw [unfolds]
      exact Fuel.Settles.bind (ends.map read) (.of_eq fun fuel => rfl)
    · refine invariant.exchange_jobs plugged rfl rfl rfl rfl (fun other apart => rfl) ?_ ?_ ?_
        (jobs ▸ more)
      · exact fun other same => ⟨other, same, rfl⟩
      · intro other outside
        have apart : ¬ some other = some final' := by
          intro same
          exact outside (registers.mem_blocks (Option.some.inj same ▸ finalOld))
        refine (if_neg apart).trans ?_
        exact Function.update_of_ne (ne_of_mem_of_not_mem inTop outside).symm ..
      · rintro last first' next ⟨described, holds⟩
        have same : described = context := Option.some.inj (holds.here.symm.trans describes.here)
        subst same
        refine ⟨described, { holds with here := holds.here, onFree := ?_ }⟩
        have extended := exchange (single ((if_neg notNew).trans (Function.update_self ..)))
          (fun other old => by rw [final])
        rw [jobs, if_neg (List.cons_ne_nil _ _)] at extended
        exact extended

theorem unregister (invariant : Invariant run) {path : Path Node} {top : Node}
    {children siblings : Tree} (plugged : run.tree = path.plug (.node top children siblings))
    (job : Block) :
    ∃ after, Fuel.Settles (fun fuel => (removeOnFreeJob fuel job top.block run.heap).map Prod.snd)
        (.ok after) ∧
      Invariant ⟨run.root, after, path.plug (.node (top.unregister job) children siblings)⟩ := by
  rcases invariant.holds plugged with ⟨context, describes⟩
  have registers := invariant.registers top (top_mem plugged)
  have less : (top.unregister job).Registers :=
    ⟨registers.1.sublist (List.filter_sublist.map _),
      fun other inside => registers.2 other ((List.filter_sublist.map _).subset inside)⟩
  have runs : ∀ {jobPtr result}, Fuel.Settles
      (fun fuel => locate run.heap.jobs job fuel none context.onFree) (some jobPtr) →
      removeJobAt job top.block jobPtr run.heap = .ok result →
        Fuel.Settles (fun fuel => (removeOnFreeJob fuel job top.block run.heap).map Prod.snd)
          (.ok result.2) := by
    intro jobPtr result finds returns
    have settles := finds.map fun found => (read found >>= fun jobPtr =>
      removeJobAt job top.block jobPtr run.heap).map Prod.snd
    rw [read_bind, returns] at settles
    refine Eq.mp (congrArg (Fuel.Settles · _) (funext fun fuel => ?_)) settles
    rw [removeOnFreeJob, describes.here, read_bind]
  by_cases registered : job ∈ top.jobs.map Prod.fst
  · rcases List.mem_map.mp registered with ⟨⟨pointer, call⟩, inside, rfl⟩
    rcases List.append_of_mem inside with ⟨front, back, split⟩
    have distinct := registers.1
    rw [split, List.map_append, List.map_cons, List.nodup_append'] at distinct
    rcases distinct with ⟨frontDistinct, backDistinct, apart⟩
    have notFront : pointer ∉ front.map Prod.fst := fun old => apart old List.mem_cons_self
    have kept : (top.unregister pointer).jobs = front ++ back := by
      rw [Node.unregister, split, List.filter_append, List.filter_cons_of_neg (by simp)]
      rw [List.filter_eq_self.mpr, List.filter_eq_self.mpr]
      · intro entry later
        refine decide_eq_true (ne_of_mem_of_not_mem (List.mem_map_of_mem later) ?_)
        exact (List.nodup_cons.mp backDistinct).1
      · intro entry earlier
        exact decide_eq_true (ne_of_mem_of_not_mem (List.mem_map_of_mem earlier) notFront)
    have linked := describes.onFree
    rw [split] at linked
    have finds := @locate_found _ _ _ _ _ _ _ _ none _ linked notFront
    rw [Option.or_none] at finds
    rcases linked.splice frontDistinct with ⟨link, ⟨-, next, cell, rest⟩, empty, exchange⟩
    rcases final : place front with _ | final'
    · have start := place_eq_none.mp final
      rw [final] at finds
      refine ⟨_, runs finds (show _ = Except.ok (true, run.heap.setContext top.block
        { context with onFree := next }) by
          rw [removeJobAt, describes.here, read_bind, cell, read_bind]), ?_⟩
      refine invariant.exchange_jobs plugged rfl rfl rfl rfl ?_ ?_ (fun _ _ => rfl) ?_ less
      · exact fun other apart => Function.update_of_ne apart ..
      · intro other same
        refine ⟨_, Function.update_self .., ?_⟩
        rw [Option.some.inj (same.symm.trans describes.here)]
      · rintro last first next' ⟨described, holds⟩
        have same : described = context := Option.some.inj (holds.here.symm.trans describes.here)
        subst same
        refine ⟨{ described with onFree := next }, { holds with
          here := Function.update_self ..
          onFree := ?_ }⟩
        rw [kept, start]
        exact rest
    · rw [final] at finds
      refine ⟨_, runs finds (show _ = Except.ok (true, { run.heap with
        jobs := redirect run.heap.jobs (some final') next }) by
          rw [removeJobAt, cell, read_bind]), ?_⟩
      have finalOld := place_mem final
      have more : front ≠ [] := by
        rintro rfl
        cases finalOld
      refine invariant.exchange_jobs plugged rfl rfl rfl rfl (fun _ _ => rfl) ?_ ?_ ?_ less
      · exact fun other same => ⟨other, same, rfl⟩
      · intro other outside
        refine if_neg fun same => outside (registers.mem_blocks ?_)
        rw [Option.some.inj same, split, List.map_append]
        exact List.mem_append_left _ finalOld
      · rintro last first next' ⟨described, holds⟩
        have same : described = context := Option.some.inj (holds.here.symm.trans describes.here)
        subst same
        refine ⟨described, { holds with here := holds.here, onFree := ?_ }⟩
        have kept' : LinkedList.Linked (redirect run.heap.jobs (some final') next) next back :=
          rest.congr fun later inside => if_neg fun same => by
            rw [Option.some.inj same] at inside
            exact apart finalOld (List.mem_cons_of_mem _ inside)
        have shorter := exchange kept' fun other old => by rw [final]
        rw [if_neg more] at shorter
        rw [kept]
        exact shorter
  · refine ⟨run.heap, runs (locate_absent describes.onFree registered) rfl, ?_⟩
    have same : top.unregister job = top := by
      rw [Node.unregister, List.filter_eq_self.mpr]
      intro entry inside
      exact decide_eq_true (ne_of_mem_of_not_mem (List.mem_map_of_mem inside) registered)
    rw [same, ← plugged]
    exact invariant

end Invariant

end Cjdns.MallocAllocator
