import Cjdns.Memory.MallocAccounts

/-!
# Freeing malloc allocators

A free of an allocator goes down to its children, each of which takes itself from the sibling
list, and gives back every allocation, with the allocator's own as the last one.
-/

namespace Cjdns.MallocAllocator

open LinkedList SiblingTree

/-- Blocks were given back, and nothing else was changed, apart from links. -/
structure Gone (root : Block) (gone : List Block) (size : ℕ) (calls : List Call)
    (order : List Block) (before after : Heap) : Prop where
  headers : ∀ block, after.headers block = if block ∈ gone then none else before.headers block
  jobs : ∀ block ∉ gone, after.jobs block = before.jobs block
  spaces : root ∉ gone → ∀ available, before.spaces root = some available →
    after.spaces root = some (available + BitVec.ofNat 64 size)
  ran : after.ran = before.ran ++ calls
  released : after.released = before.released ++ order

namespace Gone

variable {root : Block} {gone more order further : List Block} {size extra : ℕ}
  {calls later : List Call} {before middle after : Heap}

theorem headers_kept (freed : Gone root gone size calls order before after) {block : Block}
    (kept : block ∉ gone) : after.headers block = before.headers block := by
  rw [freed.headers, if_neg kept]

theorem trans (first : Gone root gone size calls order before middle)
    (second : Gone root more extra later further middle after) :
    Gone root (gone ++ more) (size + extra) (calls ++ later) (order ++ further) before after := by
  refine ⟨fun block => ?_, fun block kept => ?_, fun kept available space => ?_, ?_, ?_⟩
  · rw [second.headers, first.headers]
    simp only [List.mem_append]
    split_ifs <;> tauto
  · rw [List.mem_append, not_or] at kept
    rw [second.jobs block kept.2, first.jobs block kept.1]
  · rw [List.mem_append, not_or] at kept
    rw [second.spaces kept.2 _ (first.spaces kept.1 _ space), BitVec.ofNat_add, BitVec.add_assoc]
  · rw [second.ran, first.ran, List.append_assoc]
  · rw [second.released, first.released, List.append_assoc]

theorem congr (freed : Gone root gone size calls order before after)
    (same : ∀ block, block ∈ more ↔ block ∈ gone) :
    Gone root more size calls order before after := by
  refine ⟨fun block => ?_, fun block kept => freed.jobs block (kept ∘ (same block).mpr),
    fun kept => freed.spaces (kept ∘ (same root).mpr), freed.ran, freed.released⟩
  rw [freed.headers]
  simp only [same]

theorem refl (root : Block) (heap : Heap) : Gone root [] 0 [] [] heap heap := by
  refine ⟨fun block => rfl, fun block _ => rfl, fun _ available space => ?_, ?_, ?_⟩
  · rw [space, BitVec.add_zero]
  · exact (List.append_nil _).symm
  · exact (List.append_nil _).symm

end Gone

theorem runJobs_eq {heap : Heap} {start : Option Block} {jobs : List (Block × Call)}
    (linked : LinkedList.Linked heap.jobs start jobs) :
    Fuel.Settles (fun fuel => runJobs fuel start heap)
      (.ok { heap with ran := heap.ran ++ jobs.map Prod.snd }) := by
  induction jobs generalizing start heap with
  | nil =>
      cases linked
      refine Fuel.Settles.of_succ_eq fun fuel => ?_
      rw [runJobs, List.map_nil, List.append_nil]
  | cons job jobs ih =>
      rcases linked with ⟨rfl, next, cell, linked⟩
      have rest := @ih { heap with ran := heap.ran ++ [job.2] } next linked
      rw [List.append_assoc, List.singleton_append] at rest
      refine rest.succ fun fuel => ?_
      rw [runJobs, cell, read_bind]

/-- An allocation is given back, and what it took of the space. -/
theorem gone_release {heap : Heap} {root block : Block} {available size : BitVec 64}
    (space : heap.spaces root = some available) :
    Gone root [block] size.toNat [] [block] heap
      ((heap.setSpace (some root) (available + size)).release block) := by
  refine ⟨fun other => ?_, fun other kept => ?_, fun kept left found => ?_, ?_, rfl⟩
  · simp only [Heap.release, Heap.drop, Heap.setSpace, Function.update_apply, List.mem_singleton]
  · exact Function.update_of_ne (fun same => kept (List.mem_singleton.mpr same)) ..
  · rw [← Option.some.inj (space.symm.trans found), BitVec.ofNat_toNat, BitVec.setWidth_eq]
    refine (Function.update_of_ne (fun same => kept (List.mem_singleton.mpr same)) ..).trans ?_
    exact if_pos rfl
  · exact (List.append_nil _).symm

theorem freeAllocations_eq {allocator root : Block} {entries : List (Block × BitVec 64)}
    {own : BitVec 64} {heap : Heap} {start : Option Block} {context : Context}
    {available : BitVec 64}
    (linked : LinkedList.Linked heap.headers start (entries ++ [(allocator, own)]))
    (distinct : ((entries ++ [(allocator, own)]).map Prod.fst).Nodup)
    (found : heap.contexts allocator = some context) (points : context.spaceAvailable = some root)
    (space : heap.spaces root = some available) (notRoot : root ∉ entries.map Prod.fst) :
    ∃ after, Fuel.Settles (fun fuel => freeAllocations allocator fuel start heap) (.ok after) ∧
      Gone root ((entries ++ [(allocator, own)]).map Prod.fst)
        ((entries ++ [(allocator, own)]).map fun entry => entry.2.toNat).sum []
        ((entries ++ [(allocator, own)]).map Prod.fst) heap after ∧
      ∀ block ∉ (entries ++ [(allocator, own)]).map Prod.fst,
        after.contexts block = heap.contexts block := by
  have counter : context.spaceAvailable.bind heap.spaces = some available := by
    rw [points]
    exact space
  induction entries generalizing heap start available with
  | nil =>
      rcases linked with ⟨rfl, next, cell, rfl⟩
      refine ⟨(heap.setSpace (some root) (available + own)).release allocator, ?_, ?_, ?_⟩
      · refine Fuel.Settles.succ (@Fuel.Settles.of_succ_eq _ (fun fuel =>
          freeAllocations allocator fuel none
            ((heap.setSpace (some root) (available + own)).release allocator)) _
              fun fuel => rfl) fun fuel => ?_
        rw [freeAllocations, found, read_bind, counter, read_bind, cell, read_bind, points]
      · exact gone_release space
      · exact fun block kept => Function.update_of_ne (fun same =>
          kept (List.mem_singleton.mpr same)) ..
  | cons entry entries ih =>
      rcases linked with ⟨rfl, next, cell, linked⟩
      rw [List.cons_append, List.map_cons, List.nodup_cons] at distinct
      rw [List.map_cons, List.mem_cons, not_or] at notRoot
      have notOwn : allocator ≠ entry.1 := by
        refine ne_of_mem_of_not_mem ?_ distinct.1
        rw [List.map_append]
        exact List.mem_append_right _ List.mem_cons_self
      have freed := @gone_release heap root entry.1 available entry.2 space
      have spaceAfter := freed.spaces (fun same => notRoot.1 (List.mem_singleton.mp same)) _ space
      rcases ih (linked.congr fun pointer inside =>
          freed.headers_kept fun same => distinct.1 (List.mem_singleton.mp same ▸ inside))
        distinct.2 ((Function.update_of_ne notOwn ..).trans found) spaceAfter notRoot.2
        (by rw [points]; exact spaceAfter) with ⟨after, settles, gone, contexts⟩
      refine ⟨after, settles.succ fun fuel => ?_, ?_, fun block kept => ?_⟩
      · rw [freeAllocations, found, read_bind, counter, read_bind, cell, read_bind, points]
      · exact freed.trans gone
      · rw [List.cons_append, List.map_cons, List.mem_cons, not_or] at kept
        exact (contexts block kept.2).trans (Function.update_of_ne kept.1 ..)

/-! ## The sibling list -/

/-- What pointed to an allocator points past it. -/
def skip (allocator : Block) (next : Option Block) (context : Context) : Context :=
  if context.nextSibling = some allocator then { context with nextSibling := next }
  else { context with firstChild := next }

/-- The allocators after one was taken from the list -/
def rejoined (heap : Heap) (allocator : Block) (last next : Option Block) (block : Block) :
    Option Context :=
  if some block = last then (heap.contexts block).map (skip allocator next)
  else if some block = next then
    (heap.contexts block).map fun context => { context with lastSibling := last }
  else heap.contexts block

theorem ok_bind {α β : Type} (value : α) (next : α → Except Stop β) :
    (Except.ok value >>= next) = next value :=
  rfl

theorem passOver_eq {allocator : Block} {context : Context} {heap : Heap}
    (points : ∀ last, context.lastSibling = some last → ∃ sibling,
      heap.contexts last = some sibling ∧
        (sibling.nextSibling = some allocator ∨ sibling.firstChild = some allocator)) :
    passOver allocator context heap = .ok { heap with
      contexts := fun block =>
        if some block = context.lastSibling then
          (heap.contexts block).map (skip allocator context.nextSibling)
        else heap.contexts block } := by
  rcases list : context.lastSibling with _ | last
  · rw [passOver, list]
    simp
  · rcases points last list with ⟨sibling, found, link⟩
    have skips : passOver allocator context heap =
        .ok (heap.setContext last (skip allocator context.nextSibling sibling)) := by
      rw [passOver, list]
      dsimp only
      rw [found, read_bind, skip]
      split_ifs with isNext isFirst
      · rfl
      · rfl
      · exact (link.elim isNext isFirst).elim
    rw [skips, setContext_eq_map found (skip allocator context.nextSibling)]

theorem unlink_eq {allocator : Block} {context : Context} {heap : Heap}
    (found : heap.contexts allocator = some context)
    (points : ∀ last, context.lastSibling = some last → last ≠ allocator ∧ ∃ sibling,
      heap.contexts last = some sibling ∧
        (sibling.nextSibling = some allocator ∨ sibling.firstChild = some allocator))
    (present : ∀ next, context.nextSibling = some next →
      (heap.contexts next).isSome ∧ context.lastSibling ≠ some next) :
    unlink allocator heap = .ok { heap with
      contexts := rejoined heap allocator context.lastSibling context.nextSibling } := by
  have notLast : ¬ some allocator = context.lastSibling := fun same =>
    (points allocator same.symm).1 rfl
  rw [unlink, found, read_bind, passOver_eq fun last list => (points last list).2, ok_bind]
  dsimp only
  rw [if_neg notLast, found, read_bind, setLastSibling_eq]
  · refine congrArg (fun contexts => Except.ok { heap with contexts := contexts }) (funext ?_)
    intro other
    rw [rejoined]
    by_cases isLast : some other = context.lastSibling
    · have notNext : ¬ some other = context.nextSibling := fun same =>
        (present other same.symm).2 isLast.symm
      dsimp only
      rw [if_pos isLast, if_neg notNext, if_pos isLast]
    · dsimp only
      rw [if_neg isLast, if_neg isLast]
  · intro next list
    have notNext : ¬ some next = context.lastSibling := fun same => (present next list).2 same.symm
    dsimp only
    rw [if_neg notNext]
    exact (present next list).1

/-! ## The tree -/

/-- All children from a first one on can be freed. -/
def FreesChildren (root : Block) (tree : Tree) : Prop :=
  ∀ (heap : Heap) (parent : Block) (context : Context) (available : BitVec 64),
    heap.contexts parent = some context → context.firstChild = tree.head Node.block →
    (∀ next, context.nextSibling = some next → next ∉ tree.nodes.map Node.block) →
    parent ∉ blocks tree.nodes → tree.Linked Node.block (Holds heap root) (some parent) →
    (blocks tree.nodes).Nodup → (∀ top ∈ tree.nodes, top.Registers) →
    root ∉ blocks tree.nodes → heap.spaces root = some available →
    ∃ after order,
      Fuel.Settles (fun fuel => freeChildren fuel (tree.head Node.block) heap) (.ok after) ∧
        order.Perm (blocks tree.nodes) ∧
          Gone root (blocks tree.nodes) (recorded tree.nodes)
            ((registrations tree.nodes).map Prod.snd) order heap after ∧
            ∀ block ∉ blocks tree.nodes, after.contexts block =
              if block = parent then some { context with firstChild := none }
              else heap.contexts block

theorem freeAllocator_of {root : Block} {last next : Option Block} {top : Node} {children : Tree}
    {heap : Heap} {context : Context} {available : BitVec 64}
    (frees : FreesChildren root children)
    (describes : Describes heap root last (children.head Node.block) next top context)
    (links : children.Linked Node.block (Holds heap root) (some top.block))
    (distinct : (blocks (top :: children.nodes)).Nodup)
    (registers : ∀ other ∈ top :: children.nodes, other.Registers)
    (notRoot : root ∉ blocks children.nodes) (notEntry : root ∉ top.entries.map Prod.fst)
    (space : heap.spaces root = some available)
    (points : ∀ sibling, last = some sibling → sibling ∉ blocks (top :: children.nodes) ∧
      ∃ context, heap.contexts sibling = some context ∧
        (context.nextSibling = some top.block ∨ context.firstChild = some top.block))
    (present : ∀ sibling, next = some sibling → sibling ∉ blocks (top :: children.nodes) ∧
      (heap.contexts sibling).isSome ∧ last ≠ some sibling) :
    ∃ after order, Fuel.Settles (fun fuel => freeAllocator fuel top.block heap) (.ok after) ∧
      order.Perm (blocks (top :: children.nodes)) ∧
        Gone root (blocks (top :: children.nodes)) (recorded (top :: children.nodes))
          ((registrations (top :: children.nodes)).map Prod.snd) order heap after ∧
          ∀ block ∉ blocks (top :: children.nodes),
            after.contexts block = rejoined heap top.block last next block := by
  have allBlocks : blocks (top :: children.nodes) = top.blocks ++ blocks children.nodes := rfl
  rw [allBlocks] at points present ⊢
  rw [allBlocks, List.nodup_append'] at distinct
  rcases distinct with ⟨ownDistinct, childDistinct, apart⟩
  have own := block_mem_blocks top
  have notBelow : top.block ∉ blocks children.nodes := fun inside => apart own inside
  have topRegisters := registers top List.mem_cons_self
  -- The jobs.
  rcases runJobs_eq describes.onFree with ⟨one, ranJobs⟩
  have same : ∀ block, Agrees heap { heap with ran := heap.ran ++ top.jobs.map Prod.snd } block :=
    fun block => ⟨rfl, rfl, rfl⟩
  -- The children.
  rcases frees { heap with ran := heap.ran ++ top.jobs.map Prod.snd } top.block context available
    describes.here describes.firstChild
    (by
      rw [describes.nextSibling]
      intro sibling list inside
      rcases List.mem_map.mp inside with ⟨other, among, rfl⟩
      exact (present _ list).1 (List.mem_append_right _
        (mem_blocks.mpr ⟨other, among, block_mem_blocks other⟩))) notBelow
    (links.congr fun other inside last first next holds => holds.congr
      (registers other (List.mem_cons_of_mem _ inside)) fun block _ => same block)
    childDistinct (fun other inside => registers other (List.mem_cons_of_mem _ inside)) notRoot
    space with ⟨middle, childOrder, ⟨two, freedChildren⟩, childPerm, childGone, childContexts⟩
  have spaceMiddle := childGone.spaces notRoot available space
  have foundMiddle : middle.contexts top.block = some { context with firstChild := none } := by
    rw [childContexts _ notBelow, if_pos rfl]
  have outside : ∀ block, block ∉ top.blocks ++ blocks children.nodes →
      middle.contexts block = heap.contexts block := by
    intro block kept
    rw [List.mem_append, not_or] at kept
    rw [childContexts block kept.2, if_neg (ne_of_mem_of_not_mem own kept.1).symm]
  -- The links.
  have unlinks := unlink_eq foundMiddle (by
      intro sibling list
      have link := points sibling (describes.lastSibling ▸ list)
      refine ⟨fun same => link.1 (List.mem_append_left _ (same ▸ own)), ?_⟩
      rw [outside _ link.1]
      exact link.2) (by
      intro sibling list
      have link := present sibling (describes.nextSibling ▸ list)
      rw [outside _ link.1]
      refine ⟨link.2.1, ?_⟩
      change context.lastSibling ≠ _
      rw [describes.lastSibling]
      exact link.2.2)
  dsimp only at unlinks
  rw [describes.lastSibling, describes.nextSibling] at unlinks
  have foundLinked : rejoined middle top.block last next top.block =
      some { context with firstChild := none } := by
    rw [rejoined, if_neg, if_neg, foundMiddle]
    · exact fun list => (present _ list.symm).1 (List.mem_append_left _ own)
    · exact fun list => (points _ list.symm).1 (List.mem_append_left _ own)
  -- The allocations.
  rcases @freeAllocations_eq top.block root top.entries allocSize
    { middle with contexts := rejoined middle top.block last next } context.allocations
    { context with firstChild := none } _
    (describes.allocations.congr fun block inside =>
      childGone.headers_kept fun below => apart inside below)
    ownDistinct foundLinked describes.spaceAvailable spaceMiddle notEntry with
    ⟨after, ⟨three, freed⟩, gone, contexts⟩
  refine ⟨after, childOrder ++ top.blocks, ⟨one + two + three + 1, fun fuel more => ?_⟩, ?_, ?_, ?_⟩
  · rcases fuel with _ | fuel
    · omega
    dsimp only at ranJobs freedChildren freed
    change freeAllocator (fuel + 1) top.block heap = _
    rw [freeAllocator, describes.here, read_bind, ranJobs fuel (by omega), ok_bind,
      describes.firstChild, freedChildren fuel (by omega), ok_bind, unlinks, ok_bind]
    dsimp only
    rw [foundLinked, read_bind]
    exact freed fuel (by omega)
  · exact (childPerm.append_right _).trans List.perm_append_comm
  · have jobs : Gone root [] 0 (top.jobs.map Prod.snd) [] heap
        { heap with ran := heap.ran ++ top.jobs.map Prod.snd } :=
      ⟨fun block => rfl, fun block _ => rfl, fun _ available space => by
        rw [space, BitVec.add_zero], rfl, (List.append_nil _).symm⟩
    have allocations : Gone root top.blocks top.recorded [] top.blocks middle after :=
      ⟨gone.headers, gone.jobs, gone.spaces, gone.ran, gone.released⟩
    have all := (jobs.trans childGone).trans allocations
    have calls : (registrations (top :: children.nodes)).map Prod.snd =
        top.jobs.map Prod.snd ++ (registrations children.nodes).map Prod.snd := List.map_append ..
    have size : recorded (top :: children.nodes) = top.recorded + recorded children.nodes := rfl
    rw [List.append_nil, Nat.zero_add, Nat.add_comm, ← size, ← calls] at all
    refine all.congr fun block => ?_
    rw [List.mem_append, List.mem_append, List.nil_append, or_comm]
  · intro block kept
    rw [contexts block fun inside => kept (List.mem_append_left _ inside)]
    change rejoined middle _ _ _ block = _
    rw [rejoined, rejoined, outside block kept]

/-- Blocks that are kept, after an allocator was taken from the list -/
structure Rejoins (heap after : Heap) (allocator up : Block) (next : Option Block)
    (kept : List Block) : Prop where
  headers : ∀ block ∈ kept, after.headers block = heap.headers block
  jobs : ∀ block ∈ kept, after.jobs block = heap.jobs block
  contexts : ∀ block ∈ kept,
    after.contexts block = rejoined heap allocator (some up) next block

theorem Rejoins.mono {heap after : Heap} {allocator up : Block} {next : Option Block}
    {kept fewer : List Block} (rejoins : Rejoins heap after allocator up next kept)
    (subset : fewer ⊆ kept) : Rejoins heap after allocator up next fewer :=
  ⟨fun block inside => rejoins.headers block (subset inside),
    fun block inside => rejoins.jobs block (subset inside),
    fun block inside => rejoins.contexts block (subset inside)⟩

/-- The siblings of a freed allocator are what the allocator before it now points to. -/
theorem linked_of_rejoins {heap after : Heap} {root allocator up : Block}
    {siblings : Tree} (links : siblings.Linked Node.block (Holds heap root) (some allocator))
    (distinct : (siblings.nodes.map Node.block).Nodup)
    (registers : ∀ top ∈ siblings.nodes, top.Registers) (notUp : up ∉ blocks siblings.nodes)
    (rejoins : Rejoins heap after allocator up (siblings.head Node.block)
      (blocks siblings.nodes)) :
    siblings.Linked Node.block (Holds after root) (some up) := by
  have inside : ∀ other ∈ siblings.nodes, ∀ block ∈ other.blocks, block ∈ blocks siblings.nodes :=
    fun other among block own => mem_blocks.mpr ⟨other, among, own⟩
  have notLast : ∀ other ∈ siblings.nodes, ¬ some other.block = some up := by
    intro other among same
    exact notUp (Option.some.inj same ▸ inside other among _ (block_mem_blocks other))
  refine links.congr_last distinct ?_ ?_
  · intro other among notFirst last first next holds
    refine holds.transfer (registers other among) ?_ ?_ ?_
    · rw [rejoins.contexts _ (inside other among _ (block_mem_blocks other)), rejoined,
        if_neg (notLast other among), if_neg notFirst]
    · exact fun block own => rejoins.headers block (inside other among block own)
    · exact fun block own => rejoins.jobs block (inside other among block own)
  · rintro other among isFirst first next ⟨found, holds⟩
    refine ⟨{ found with lastSibling := some up }, { holds with
      here := ?_
      lastSibling := rfl
      allocations := ?_
      onFree := ?_ }⟩
    · rw [rejoins.contexts _ (inside other among _ (block_mem_blocks other)), rejoined,
        if_neg (notLast other among), if_pos isFirst, holds.here]
      rfl
    · exact holds.allocations.congr fun block own =>
        rejoins.headers block (inside other among block own)
    · exact holds.onFree.congr fun job own => rejoins.jobs job
        (inside other among job ((registers other among).mem_blocks own))

/-- Nodes elsewhere are as they were. -/
theorem linked_elsewhere {heap after : Heap} {root allocator up : Block} {tree : Tree}
    {last next : Option Block} (links : tree.Linked Node.block (Holds heap root) last)
    (registers : ∀ other ∈ tree.nodes, other.Registers)
    (rejoins : Rejoins heap after allocator up next (blocks tree.nodes))
    (notUp : up ∉ tree.nodes.map Node.block)
    (notNext : ∀ sibling, next = some sibling → sibling ∉ tree.nodes.map Node.block) :
    tree.Linked Node.block (Holds after root) last := by
  refine links.congr fun other inside last first next' holds => ?_
  have key := @List.mem_map_of_mem _ _ _ _ Node.block inside
  have belongs : ∀ block ∈ other.blocks, block ∈ blocks tree.nodes := fun block own =>
    mem_blocks.mpr ⟨other, inside, own⟩
  refine holds.transfer (registers other inside) ?_ ?_ ?_
  · rw [rejoins.contexts _ (belongs _ (block_mem_blocks other)), rejoined, if_neg, if_neg]
    · exact fun list => notNext _ list.symm key
    · exact fun same => notUp (Option.some.inj same ▸ key)
  · exact fun block own => rejoins.headers block (belongs block own)
  · exact fun block own => rejoins.jobs block (belongs block own)

theorem key_mem_blocks {nodes : List Node} {block : Block} (key : block ∈ nodes.map Node.block) :
    block ∈ blocks nodes := by
  rcases List.mem_map.mp key with ⟨other, among, rfl⟩
  exact mem_blocks.mpr ⟨other, among, block_mem_blocks other⟩

theorem blocks_append (first second : List Node) :
    blocks (first ++ second) = blocks first ++ blocks second :=
  List.flatMap_append ..

theorem registrations_append (first second : List Node) :
    registrations (first ++ second) = registrations first ++ registrations second :=
  List.flatMap_append ..

theorem recorded_append (first second : List Node) :
    recorded (first ++ second) = recorded first + recorded second := by
  rw [recorded, List.map_append, List.sum_append]
  rfl

theorem keys_sublist (nodes : List Node) : (nodes.map Node.block).Sublist (blocks nodes) := by
  induction nodes with
  | nil => exact List.Sublist.refl _
  | cons top nodes ih =>
      rw [blocks, List.flatMap_cons, List.map_cons, ← List.singleton_append]
      refine List.Sublist.append ?_ ih
      exact List.singleton_sublist.mpr (block_mem_blocks top)

theorem freesChildren (root : Block) (tree : Tree) : FreesChildren root tree := by
  induction tree with
  | nil =>
      intro heap parent context available found first next notParent links distinct registers
        notRoot space
      refine ⟨heap, [], Fuel.Settles.of_succ_eq fun fuel => rfl, List.Perm.refl _,
        Gone.refl root heap, fun block _ => ?_⟩
      split_ifs with same
      · rw [same, found]
        exact congrArg (fun child => some { context with firstChild := child }) first
      · rfl
  | node top children siblings ihChildren ihSiblings =>
      intro heap parent context available found first next notParent links distinct registers
        notRoot space
      rcases links with ⟨⟨own, describes⟩, below, beside⟩
      have split : blocks (SiblingTree.node top children siblings).nodes =
          blocks (top :: children.nodes) ++ blocks siblings.nodes :=
        blocks_append (top :: children.nodes) siblings.nodes
      rw [split] at distinct notParent notRoot
      rw [List.nodup_append'] at distinct
      rcases distinct with ⟨ownDistinct, besideDistinct, apart⟩
      rw [List.mem_append, not_or] at notParent notRoot
      have inFamily : top.block ∈ blocks (top :: children.nodes) :=
        List.mem_append_left _ (block_mem_blocks top)
      have familyRegisters : ∀ other ∈ top :: children.nodes, other.Registers := fun other among =>
        registers other ((List.mem_cons.mp among).elim (fun same => same ▸ List.mem_cons_self)
          fun inner => List.mem_cons_of_mem _ (List.mem_append_left _ inner))
      have besideRegisters : ∀ other ∈ siblings.nodes, other.Registers := fun other among =>
        registers other (List.mem_cons_of_mem _ (List.mem_append_right _ among))
      rcases freeAllocator_of ihChildren describes below ownDistinct familyRegisters
        (fun inside => notRoot.1 (List.mem_append_right _ inside))
        (fun inside => notRoot.1 (List.mem_append_left _ (by
          rw [blocks_eq]
          exact List.mem_append_left _ inside))) space
        (by
          intro sibling same
          cases same
          exact ⟨notParent.1, context, found, .inr first⟩)
        (by
          intro sibling list
          have key := head_mem list
          refine ⟨fun inside => apart inside (key_mem_blocks key), ?_, ?_⟩
          · rcases List.mem_map.mp key with ⟨other, among, rfl⟩
            rcases beside.mem among with ⟨_, _, _, context, holds⟩
            rw [holds.here]
            rfl
          · intro same
            exact notParent.2 (Option.some.inj same ▸ key_mem_blocks key)) with
        ⟨middle, order, ⟨one, frees⟩, perm, gone, contexts⟩
      have notNext : ¬ context.nextSibling = some top.block := fun same =>
        next _ same List.mem_cons_self
      have foundMiddle : middle.contexts parent =
          some { context with firstChild := siblings.head Node.block } := by
        rw [contexts _ notParent.1, rejoined, if_pos rfl, found, Option.map_some, skip,
          if_neg notNext]
      have keptBeside : ∀ block ∈ blocks siblings.nodes, block ∉ blocks (top :: children.nodes) :=
        fun block inside other => apart other inside
      rcases ihSiblings middle parent { context with firstChild := siblings.head Node.block } _
        foundMiddle rfl (fun sibling list inside =>
          next sibling list (List.mem_cons_of_mem _ (by
            rw [List.map_append]
            exact List.mem_append_right _ inside))) notParent.2
        (linked_of_rejoins beside (besideDistinct.sublist (keys_sublist _)) besideRegisters
          notParent.2 ⟨fun block inside => gone.headers_kept (keptBeside block inside),
            fun block inside => gone.jobs block (keptBeside block inside),
            fun block inside => contexts block (keptBeside block inside)⟩)
        besideDistinct besideRegisters notRoot.2 (gone.spaces notRoot.1 _ space) with
        ⟨after, further, ⟨two, freesNext⟩, permNext, goneNext, contextsNext⟩
      refine ⟨after, order ++ further, ⟨one + two + 1, fun fuel more => ?_⟩, ?_, ?_, ?_⟩
      · rcases fuel with _ | fuel
        · omega
        dsimp only at frees freesNext
        change freeChildren (fuel + 1) (some top.block) heap = _
        rw [freeChildren, describes.here, read_bind, frees fuel (by omega), ok_bind,
          describes.nextSibling]
        exact freesNext fuel (by omega)
      · rw [split]
        exact perm.append permNext
      · have all := gone.trans goneNext
        have calls : (registrations (SiblingTree.node top children siblings).nodes).map Prod.snd =
            (registrations (top :: children.nodes)).map Prod.snd ++
              (registrations siblings.nodes).map Prod.snd := by
          rw [← List.map_append]
          exact congrArg _ (registrations_append (top :: children.nodes) siblings.nodes)
        have size : recorded (SiblingTree.node top children siblings).nodes =
            recorded (top :: children.nodes) + recorded siblings.nodes :=
          recorded_append (top :: children.nodes) siblings.nodes
        rw [← split, ← calls, ← size] at all
        exact all
      · intro block kept
        rw [split, List.mem_append, not_or] at kept
        rw [contextsNext block kept.2]
        split_ifs with same
        · rfl
        · rw [contexts block kept.1, rejoined, if_neg fun list => same (Option.some.inj list),
            if_neg fun list => kept.2 (key_mem_blocks (head_mem list.symm))]

theorem map_maxSpace_rejoined (heap : Heap) (allocator : Block) (last next : Option Block)
    (block : Block) : (rejoined heap allocator last next block).map Context.maxSpace =
      (heap.contexts block).map Context.maxSpace := by
  rw [rejoined]
  split_ifs
  · rcases heap.contexts block with _ | context
    · rfl
    · rw [Option.map_some, skip]
      split_ifs <;> rfl
  · rcases heap.contexts block with _ | context <;> rfl
  · rfl

namespace Invariant

variable {run : Run}

/-- A part of the tree without a family of allocators that was freed -/
theorem remove (invariant : Invariant run) {path : Path Node} {part changed : Tree}
    (plugged : run.tree = path.plug part) {up : Block} {family : List Node} {allocator : Block}
    {next : Option Block} {calls : List Call} {order : List Block} {after : Heap}
    (head : part.head Node.block = some up) (sameHead : changed.head Node.block = some up)
    (single : (∃ top children, part = .node top children .nil) →
      ∃ top children, changed = .node top children .nil)
    (perm : part.nodes.Perm (family ++ changed.nodes))
    (nextInside : ∀ sibling, next = some sibling → sibling ∈ blocks part.nodes)
    (notRoot : run.root ∉ blocks family)
    (gone : Gone run.root (blocks family) (recorded family) calls order run.heap after)
    (contexts : ∀ block ∉ blocks family,
      after.contexts block = rejoined run.heap allocator (some up) next block)
    (here : ∀ last, part.Linked Node.block (Holds run.heap run.root) last →
      changed.Linked Node.block (Holds after run.root) last) :
    Invariant ⟨run.root, after, path.plug changed⟩ := by
  have all := (blocks_plug path part).nodup_iff.mp (plugged ▸ invariant.distinct)
  have partDistinct := (List.nodup_append'.mp all).2.1
  have blocksPerm : (blocks part.nodes).Perm (blocks family ++ blocks changed.nodes) := by
    rw [← blocks_append]
    exact perm.flatMap_right Node.blocks
  have memPart : ∀ block, block ∈ blocks part.nodes ↔
      block ∈ blocks family ∨ block ∈ blocks changed.nodes := fun block => by
    rw [blocksPerm.mem_iff, List.mem_append]
  have apart := blocksPerm.nodup_iff.mp partDistinct
  rw [List.nodup_append'] at apart
  have inTree : ∀ block ∈ blocks part.nodes, block ∈ blocks run.tree.nodes := by
    intro block inside
    rw [plugged, (blocks_plug path part).mem_iff]
    exact List.mem_append_right _ inside
  refine invariant.replace plugged head sameHead single ?_ here apart.2.1 ?_ ?_ ?_ ?_
  · intro block outside _
    have kept : block ∉ blocks family := fun inside => outside ((memPart block).mpr (.inl inside))
    refine ⟨gone.headers_kept kept, ?_, gone.jobs block kept⟩
    rw [contexts block kept, rejoined, if_neg, if_neg]
    · exact fun list => outside (nextInside _ list.symm)
    · intro same
      refine outside (key_mem_blocks (head_mem ?_))
      rw [head, same]
  · exact fun block inside => .inl ((memPart block).mpr (.inr inside))
  · intro other inside
    refine invariant.registers other ?_
    rw [plugged, (path.nodes_plug part).mem_iff]
    exact List.mem_append_right _ (perm.mem_iff.mpr (List.mem_append_right _ inside))
  · intro block
    rw [gone.headers]
    split_ifs with inFamily
    · refine iff_of_false Bool.false_ne_true ?_
      rintro (inChanged | ⟨outside, -⟩)
      · exact apart.2.2 inFamily inChanged
      · exact outside ((memPart block).mpr (.inl inFamily))
    · constructor
      · intro live
        by_cases inPart : block ∈ blocks part.nodes
        · exact .inl (((memPart block).mp inPart).resolve_left inFamily)
        · exact .inr ⟨inPart, live⟩
      · rintro (inChanged | ⟨-, live⟩)
        · exact (invariant.live block).mpr (inTree block ((memPart block).mpr (.inr inChanged)))
        · exact live
  · intro context available found space
    have more : run.tree ≠ .nil := by
      intro empty
      have inside := inTree up (key_mem_blocks (head_mem head))
      rw [empty] at inside
      cases inside
    rcases invariant.counts more with ⟨context', available', found', space', bound, sum⟩
    have sameSpace := Option.some.inj (space.symm.trans space')
    have sameContext := Option.some.inj (found.symm.trans found')
    subst sameSpace sameContext
    have split : recorded part.nodes = recorded family + recorded changed.nodes := by
      rw [← recorded_append]
      exact (perm.map Node.recorded).sum_eq
    rw [plugged, recorded_plug, split] at sum
    have sameMax := map_maxSpace_rejoined run.heap allocator (some up) next run.root
    rw [← contexts run.root notRoot, found] at sameMax
    rcases Option.map_eq_some_iff.mp sameMax with ⟨changedContext, foundAfter, maxSpace⟩
    refine ⟨changedContext, _, foundAfter, gone.spaces notRoot _ space, maxSpace, ?_⟩
    rw [split, BitVec.toNat_add, BitVec.toNat_ofNat]
    omega

/-- The root is in none of the families below another allocator. -/
theorem root_notMem (invariant : Invariant run) {path : Path Node} {part changed : Tree}
    (plugged : run.tree = path.plug part) {up : Block} {family : List Node}
    (head : part.head Node.block = some up)
    (perm : part.nodes.Perm (family ++ changed.nodes)) (inside : up ∈ blocks changed.nodes) :
    run.root ∉ blocks family := by
  have blocksPerm : (blocks part.nodes).Perm (blocks family ++ blocks changed.nodes) := by
    rw [← blocks_append]
    exact perm.flatMap_right Node.blocks
  have all := (blocks_plug path part).nodup_iff.mp (plugged ▸ invariant.distinct)
  rw [List.nodup_append'] at all
  have apart := blocksPerm.nodup_iff.mp all.2.1
  rw [List.nodup_append'] at apart
  have first : run.tree.head Node.block = some run.root := by
    rcases invariant.rooted with empty | ⟨top, children, single, atRoot⟩
    · rw [plugged] at empty
      have impossible := @Path.head_plug _ _ Node.block path part
      rw [empty, head] at impossible
      cases path <;> cases impossible
    · rw [single, ← atRoot]
      rfl
  rw [plugged, Path.head_plug, head] at first
  intro inFamily
  rcases Path.head_mem first with same | onPath
  · exact apart.2.2 inFamily (Option.some.inj same ▸ inside)
  · exact all.2.2 (key_mem_blocks onPath) (blocksPerm.mem_iff.mpr (List.mem_append_left _ inFamily))

/-- An allocator below another one can be freed. -/
theorem frees_below (invariant : Invariant run) {path : Path Node} {part changed : Tree}
    (plugged : run.tree = path.plug part) {up : Block} {top : Node} {children siblings : Tree}
    {context : Context} (head : part.head Node.block = some up)
    (perm : part.nodes.Perm ((top :: children.nodes) ++ changed.nodes))
    (inside : up ∈ blocks changed.nodes)
    (upContext : ∃ context, run.heap.contexts up = some context ∧
      (context.nextSibling = some top.block ∨ context.firstChild = some top.block))
    (describes : Describes run.heap run.root (some up) (children.head Node.block)
      (siblings.head Node.block) top context)
    (below : children.Linked Node.block (Holds run.heap run.root) (some top.block))
    (beside : siblings.Linked Node.block (Holds run.heap run.root) (some top.block))
    (among : ∀ other ∈ siblings.nodes, other ∈ changed.nodes)
    (upApart : up ∉ siblings.nodes.map Node.block) :
    ∃ after order, Fuel.Settles (fun fuel => freeAllocator fuel top.block run.heap) (.ok after) ∧
      order.Perm (blocks (top :: children.nodes)) ∧
        Gone run.root (blocks (top :: children.nodes)) (recorded (top :: children.nodes))
          ((registrations (top :: children.nodes)).map Prod.snd) order run.heap after ∧
          ∀ block ∉ blocks (top :: children.nodes), after.contexts block =
            rejoined run.heap top.block (some up) (siblings.head Node.block) block := by
  have notRoot := invariant.root_notMem plugged head perm inside
  have blocksPerm : (blocks part.nodes).Perm
      (blocks (top :: children.nodes) ++ blocks changed.nodes) := by
    rw [← blocks_append]
    exact perm.flatMap_right Node.blocks
  have all := (blocks_plug path part).nodup_iff.mp (plugged ▸ invariant.distinct)
  have apart := blocksPerm.nodup_iff.mp (List.nodup_append'.mp all).2.1
  rw [List.nodup_append'] at apart
  have nodes : ∀ other ∈ part.nodes, other ∈ run.tree.nodes := by
    intro other inPart
    rw [plugged, (path.nodes_plug part).mem_iff]
    exact List.mem_append_right _ inPart
  have more : run.tree ≠ .nil := by
    intro empty
    have inTree := nodes top (perm.mem_iff.mpr List.mem_cons_self)
    rw [empty] at inTree
    cases inTree
  rcases invariant.counts more with ⟨-, available, -, space, -⟩
  refine freeAllocator_of (freesChildren run.root children) describes below apart.1
    (fun other inFamily => invariant.registers other (nodes other
      (perm.mem_iff.mpr (List.mem_append_left _ inFamily))))
    (fun inChildren => notRoot (List.mem_append_right _ inChildren))
    (fun entry => notRoot (List.mem_append_left _ (by
      rw [blocks_eq]
      exact List.mem_append_left _ entry))) space ?_ ?_
  · intro sibling same
    cases same
    exact ⟨fun inFamily => apart.2.2 inFamily inside, upContext⟩
  · intro sibling list
    have key := head_mem list
    rcases List.mem_map.mp key with ⟨other, inSiblings, same⟩
    refine ⟨fun inFamily => apart.2.2 inFamily ?_, ?_, ?_⟩
    · rw [← same]
      exact mem_blocks.mpr ⟨other, among other inSiblings, block_mem_blocks other⟩
    · rcases beside.mem inSiblings with ⟨_, _, _, found, holds⟩
      rw [← same, holds.here]
      rfl
    · intro equal
      exact upApart (Option.some.inj equal ▸ key)

/-- What a free of an allocator does, and what is left of the tree -/
def Frees (run : Run) (top : Node) (children left : Tree) : Prop :=
  ∃ after order, Fuel.Settles (fun fuel => freeAllocator fuel top.block run.heap) (.ok after) ∧
    order.Perm (blocks (top :: children.nodes)) ∧
      Gone run.root (blocks (top :: children.nodes)) (recorded (top :: children.nodes))
        ((registrations (top :: children.nodes)).map Prod.snd) order run.heap after ∧
        Invariant ⟨run.root, after, left⟩

theorem free_root (invariant : Invariant run) {top : Node} {children siblings : Tree}
    (plugged : run.tree = .node top children siblings) :
    Frees run top children siblings := by
  rcases invariant.rooted with empty | ⟨first, below, single, atRoot⟩
  · rw [plugged] at empty
    cases empty
  rw [plugged] at single
  cases single
  have more : run.tree ≠ .nil := @ne_nil run .hole _ _ _ plugged
  rcases invariant.counts more with ⟨-, available, -, space, -⟩
  have all : blocks run.tree.nodes = blocks (top :: children.nodes) := by
    rw [plugged, SiblingTree.nodes, SiblingTree.nodes, List.append_nil]
  have distinct : (blocks (top :: children.nodes)).Nodup := all ▸ invariant.distinct
  have links := invariant.links
  rw [Represents, plugged] at links
  rcases links with ⟨⟨context, describes⟩, childLinks, -⟩
  have apart : (top.blocks ++ blocks children.nodes).Nodup := distinct
  rw [List.nodup_append', blocks_eq, List.nodup_append'] at apart
  rcases apart with ⟨⟨-, -, ownApart⟩, -, childApart⟩
  rcases freeAllocator_of (freesChildren run.root children) describes childLinks distinct
    (fun other inFamily => invariant.registers other (by
      rw [plugged, SiblingTree.nodes, SiblingTree.nodes, List.append_nil]
      exact inFamily))
    (fun inside => childApart (List.mem_append_right _ (List.mem_singleton.mpr atRoot.symm)) inside)
    (fun inside => ownApart inside (List.mem_singleton.mpr atRoot.symm)) space
    (fun sibling none => by cases none) (fun sibling none => by cases none) with
    ⟨after, order, settles, perm, gone, contexts⟩
  refine ⟨after, order, settles, perm, gone, ⟨List.nodup_nil, fun other impossible => ?_, trivial,
    fun block => ?_, .inl rfl, fun impossible => (impossible rfl).elim⟩⟩
  · cases impossible
  · rw [gone.headers]
    split_ifs with inside
    · exact iff_of_false Bool.false_ne_true (by rintro ⟨⟩)
    · have dead := invariant.live block
      rw [all] at dead
      exact iff_of_false (fun live => inside (dead.mp live)) (by rintro ⟨⟩)

/-- An allocator below another one is freed. -/
theorem free_below (invariant : Invariant run) {path : Path Node} {part changed : Tree}
    (plugged : run.tree = path.plug part) {up top : Node} {children siblings : Tree}
    {context : Context} (head : part.head Node.block = some up.block)
    (sameHead : changed.head Node.block = some up.block)
    (single : (∃ top children, part = .node top children .nil) →
      ∃ top children, changed = .node top children .nil)
    (perm : part.nodes.Perm ((top :: children.nodes) ++ changed.nodes))
    (inside : up.block ∈ blocks changed.nodes)
    (upContext : ∃ context, run.heap.contexts up.block = some context ∧
      (context.nextSibling = some top.block ∨ context.firstChild = some top.block))
    (describes : Describes run.heap run.root (some up.block) (children.head Node.block)
      (siblings.head Node.block) top context)
    (below : children.Linked Node.block (Holds run.heap run.root) (some top.block))
    (beside : siblings.Linked Node.block (Holds run.heap run.root) (some top.block))
    (among : ∀ other ∈ siblings.nodes, other ∈ changed.nodes)
    (upApart : up.block ∉ siblings.nodes.map Node.block)
    (here : ∀ after, Rejoins run.heap after top.block up.block (siblings.head Node.block)
      (blocks changed.nodes) → (blocks changed.nodes).Nodup →
      (∀ other ∈ changed.nodes, other.Registers) → ∀ last,
        part.Linked Node.block (Holds run.heap run.root) last →
          changed.Linked Node.block (Holds after run.root) last) :
    Frees run top children (path.plug changed) := by
  rcases invariant.frees_below plugged head perm inside upContext describes below beside among
    upApart with ⟨after, order, settles, ordered, gone, contexts⟩
  have all := (blocks_plug path _).nodup_iff.mp (plugged ▸ invariant.distinct)
  have split := (perm.flatMap_right Node.blocks).nodup_iff.mp (List.nodup_append'.mp all).2.1
  rw [List.flatMap_append, List.nodup_append'] at split
  have apart : ∀ block ∈ blocks changed.nodes, block ∉ blocks (top :: children.nodes) :=
    fun block kept inFamily => split.2.2 inFamily kept
  have registers : ∀ other ∈ changed.nodes, other.Registers := by
    intro other kept
    refine invariant.registers other ?_
    rw [plugged, (path.nodes_plug _).mem_iff]
    exact List.mem_append_right _ (perm.mem_iff.mpr (List.mem_append_right _ kept))
  refine ⟨after, order, settles, ordered, gone, invariant.remove plugged head sameHead single perm
    ?_ (invariant.root_notMem plugged head perm inside) gone contexts
    (here after ⟨fun block kept => gone.headers_kept (apart block kept),
      fun block kept => gone.jobs block (apart block kept),
      fun block kept => contexts block (apart block kept)⟩ split.2.1 registers)⟩
  intro sibling list
  rcases List.mem_map.mp (head_mem list) with ⟨other, inSiblings, rfl⟩
  exact mem_blocks.mpr ⟨other, perm.mem_iff.mpr (List.mem_append_right _ (among other inSiblings)),
    block_mem_blocks other⟩

theorem free_firstChild (invariant : Invariant run) {path : Path Node} {up top : Node}
    {children siblings beside : Tree}
    (plugged : run.tree = path.plug (.node up (.node top children siblings) beside)) :
    Frees run top children (path.plug (.node up siblings beside)) := by
  have perm : (SiblingTree.node up (.node top children siblings) beside).nodes.Perm
      ((top :: children.nodes) ++ (SiblingTree.node up siblings beside).nodes) := by
    simp only [SiblingTree.nodes, List.cons_append, List.append_assoc]
    exact (List.Perm.swap top up _).trans (List.Perm.cons top List.perm_middle.symm)
  have links := invariant.links
  rw [Represents, plugged, Path.linked_plug] at links
  rcases links with ⟨-, ⟨upContext, upDescribes⟩, ⟨⟨context, describes⟩, below, next⟩, -⟩
  have keys := invariant.part_keys plugged
  simp only [SiblingTree.nodes, List.map_cons, List.map_append, List.cons_append,
    List.nodup_cons, List.mem_cons, List.mem_append, not_or] at keys
  rcases keys with ⟨⟨-, ⟨-, upNotNext⟩, upNotBeside⟩, ⟨-, topNotBeside⟩, keys⟩
  rw [List.nodup_append', List.nodup_append'] at keys
  rcases keys with ⟨⟨-, nextKeys, -⟩, -, besideApart⟩
  refine invariant.free_below plugged rfl rfl ?_ perm (key_mem_blocks List.mem_cons_self)
    ⟨upContext, upDescribes.here, .inr upDescribes.firstChild⟩ describes below next
    (fun other inside => List.mem_cons_of_mem _ (List.mem_append_left _ inside)) upNotNext ?_
  · rintro ⟨first, inner, same⟩
    cases same
    exact ⟨up, siblings, rfl⟩
  rintro after rejoins distinct registers last ⟨⟨found, holds⟩, ⟨-, -, nextLinks⟩, besideLinks⟩
  have kept : blocks (SiblingTree.node up siblings beside).nodes =
      up.blocks ++ (blocks siblings.nodes ++ blocks beside.nodes) :=
    congrArg (up.blocks ++ ·) (blocks_append siblings.nodes beside.nodes)
  rw [kept] at rejoins distinct
  have atUp := rejoins.mono (List.subset_append_left _ _)
  have notNext : ¬ found.nextSibling = some top.block := by
    rw [holds.nextSibling]
    exact fun list => topNotBeside (head_mem list)
  refine ⟨⟨{ found with firstChild := siblings.head Node.block }, { holds with
    here := ?_
    firstChild := rfl
    allocations := ?_
    onFree := ?_ }⟩, ?_, ?_⟩
  · rw [atUp.contexts _ (block_mem_blocks up), rejoined, if_pos rfl, holds.here,
      Option.map_some, skip, if_neg notNext]
  · exact holds.allocations.congr atUp.headers
  · exact holds.onFree.congr fun job own => atUp.jobs job
      ((registers up List.mem_cons_self).mem_blocks own)
  · refine linked_of_rejoins nextLinks nextKeys (fun other inside => registers other
      (List.mem_cons_of_mem _ (List.mem_append_left _ inside))) ?_ (rejoins.mono ?_)
    · exact fun inside => (List.nodup_append'.mp distinct).2.2 (block_mem_blocks up)
        (List.mem_append_left _ inside)
    · exact fun block inside => List.mem_append_right _ (List.mem_append_left _ inside)
  · refine linked_elsewhere besideLinks (fun other inside => registers other
      (List.mem_cons_of_mem _ (List.mem_append_right _ inside))) (rejoins.mono ?_) upNotBeside
      fun sibling list inside => besideApart (List.mem_append_right _ (head_mem list)) inside
    exact fun block inside => List.mem_append_right _ (List.mem_append_right _ inside)

theorem free_nextSibling (invariant : Invariant run) {path : Path Node} {up top : Node}
    {children siblings beside : Tree}
    (plugged : run.tree = path.plug (.node up beside (.node top children siblings))) :
    Frees run top children (path.plug (.node up beside siblings)) := by
  have perm : (SiblingTree.node up beside (.node top children siblings)).nodes.Perm
      ((top :: children.nodes) ++ (SiblingTree.node up beside siblings).nodes) := by
    simp only [SiblingTree.nodes, List.cons_append]
    refine (List.Perm.cons up List.perm_middle).trans ((List.Perm.swap top up _).trans
      (List.Perm.cons top ?_))
    refine (List.Perm.cons up ?_).trans List.perm_middle.symm
    rw [← List.append_assoc, ← List.append_assoc]
    exact List.perm_append_comm.append_right _
  have links := invariant.links
  rw [Represents, plugged, Path.linked_plug] at links
  rcases links with ⟨-, ⟨upContext, upDescribes⟩, -, ⟨context, describes⟩, below, next⟩
  have keys := invariant.part_keys plugged
  simp only [SiblingTree.nodes, List.map_cons, List.map_append,
    List.nodup_cons, List.mem_cons, List.mem_append, not_or] at keys
  rcases keys with ⟨⟨upNotBeside, -, -, upNotNext⟩, keys⟩
  rw [List.nodup_append', List.nodup_cons, List.nodup_append'] at keys
  rcases keys with ⟨-, ⟨-, -, nextKeys, -⟩, besideApart⟩
  refine invariant.free_below plugged rfl rfl ?_ perm (key_mem_blocks List.mem_cons_self)
    ⟨upContext, upDescribes.here, .inl upDescribes.nextSibling⟩ describes below next
    (fun other inside => List.mem_cons_of_mem _ (List.mem_append_right _ inside)) upNotNext ?_
  · rintro ⟨first, inner, same⟩
    cases same
  rintro after rejoins distinct registers last ⟨⟨found, holds⟩, besideLinks, -, -, nextLinks⟩
  have kept : blocks (SiblingTree.node up beside siblings).nodes =
      up.blocks ++ (blocks beside.nodes ++ blocks siblings.nodes) :=
    congrArg (up.blocks ++ ·) (blocks_append beside.nodes siblings.nodes)
  rw [kept] at rejoins distinct
  have atUp := rejoins.mono (List.subset_append_left _ _)
  have isNext : found.nextSibling = some top.block := holds.nextSibling
  refine ⟨⟨{ found with nextSibling := siblings.head Node.block }, { holds with
    here := ?_
    nextSibling := rfl
    allocations := ?_
    onFree := ?_ }⟩, ?_, ?_⟩
  · rw [atUp.contexts _ (block_mem_blocks up), rejoined, if_pos rfl, holds.here,
      Option.map_some, skip, if_pos isNext]
  · exact holds.allocations.congr atUp.headers
  · exact holds.onFree.congr fun job own => atUp.jobs job
      ((registers up List.mem_cons_self).mem_blocks own)
  · refine linked_elsewhere besideLinks (fun other inside => registers other
      (List.mem_cons_of_mem _ (List.mem_append_left _ inside))) (rejoins.mono ?_) upNotBeside
      fun sibling list inside => besideApart inside
        (List.mem_cons_of_mem _ (List.mem_append_right _ (head_mem list)))
    exact fun block inside => List.mem_append_right _ (List.mem_append_left _ inside)
  · refine linked_of_rejoins nextLinks nextKeys (fun other inside => registers other
      (List.mem_cons_of_mem _ (List.mem_append_right _ inside))) ?_ (rejoins.mono ?_)
    · exact fun inside => (List.nodup_append'.mp distinct).2.2 (block_mem_blocks up)
        (List.mem_append_right _ inside)
    · exact fun block inside => List.mem_append_right _ (List.mem_append_right _ inside)

/-- Every allocator of the tree can be freed. -/
theorem free (invariant : Invariant run) {path : Path Node} {top : Node}
    {children siblings : Tree} (plugged : run.tree = path.plug (.node top children siblings)) :
    Frees run top children (path.plug siblings) := by
  rcases path.cases_end with rfl | ⟨outer, up, beside, same⟩ | ⟨outer, up, beside, same⟩
  · rcases invariant.rooted with empty | ⟨first, below, single, -⟩
    · rw [plugged] at empty
      cases empty
    · have alone := plugged.symm.trans single
      cases alone
      exact invariant.free_root plugged
  · rw [same] at plugged ⊢
    exact invariant.free_firstChild plugged
  · rw [same] at plugged ⊢
    exact invariant.free_nextSibling plugged

/-! ## What the invariant promises -/

theorem nodup_registrations (invariant : Invariant run) :
    ((registrations run.tree.nodes).map Prod.fst).Nodup := by
  have distinct := invariant.distinct
  rw [blocks, List.nodup_flatMap] at distinct
  rw [registrations, List.map_flatMap, List.nodup_flatMap]
  refine ⟨fun top inside => (invariant.registers top inside).1, ?_⟩
  refine distinct.2.imp_of_mem fun {first second} inFirst inSecond apart job own other => ?_
  exact apart ((invariant.registers first inFirst).mem_blocks own)
    ((invariant.registers second inSecond).mem_blocks other)

theorem recordedSize_eq (invariant : Invariant run) {top : Node} (inside : top ∈ run.tree.nodes)
    {entry : Block × BitVec 64} (own : entry ∈ top.allocations) :
    recordedSize run.heap entry.1 = entry.2.toNat := by
  rcases invariant.links.mem inside with ⟨last, first, next, context, holds⟩
  rcases holds.allocations.cell own with ⟨after, header⟩
  rw [recordedSize, header]
  rfl

theorem sum_recordedSize (invariant : Invariant run) :
    ((blocks run.tree.nodes).map (recordedSize run.heap)).sum = recorded run.tree.nodes := by
  have each : ∀ nodes : List Node, (∀ top ∈ nodes, top ∈ run.tree.nodes) →
      ((blocks nodes).map (recordedSize run.heap)).sum = recorded nodes := by
    intro nodes inside
    induction nodes with
    | nil => rfl
    | cons top nodes ih =>
        have rest := ih fun other later => inside other (List.mem_cons_of_mem _ later)
        have own : (top.blocks.map (recordedSize run.heap)).sum = top.recorded := by
          rw [Node.blocks, List.map_map, Node.recorded]
          refine congrArg List.sum (List.map_congr_left fun entry among => ?_)
          exact invariant.recordedSize_eq (inside top List.mem_cons_self) among
        rw [blocks, List.flatMap_cons, List.map_append, List.sum_append, own]
        exact congrArg (top.recorded + ·) rest
  exact each _ fun top inside => inside

theorem bytes (invariant : Invariant run) (more : run.tree ≠ .nil) :
    ∃ bytes, bytesAllocated run.root run.heap = .ok bytes ∧ bytes.toNat =
      (((blocks run.tree.nodes).erase run.root).map (recordedSize run.heap)).sum := by
  rcases invariant.counts more with ⟨context, available, found, space, bound, sum⟩
  rcases invariant.rooted with empty | ⟨top, children, single, atRoot⟩
  · exact (more empty).elim
  have links := invariant.links
  rw [Represents, single] at links
  rcases links with ⟨⟨topContext, describes⟩, -⟩
  have same : topContext = context :=
    Option.some.inj (describes.here.symm.trans (atRoot ▸ found))
  have counter : context.spaceAvailable.bind run.heap.spaces = some available := by
    rw [← same, describes.spaceAvailable]
    exact space
  refine ⟨context.maxSpace - available, ?_, ?_⟩
  · rw [bytesAllocated, found, read_bind, counter, read_bind]
  have inTop : top ∈ run.tree.nodes := by
    rw [single]
    exact List.mem_cons_self
  have own : recordedSize run.heap run.root = 176 := by
    rw [← atRoot]
    exact invariant.recordedSize_eq inTop (List.mem_append_right top.entries List.mem_cons_self)
  have total := invariant.sum_recordedSize
  rw [((List.perm_cons_erase (invariant.root_mem more)).map _).sum_eq, List.map_cons,
    List.sum_cons, own] at total
  rw [BitVec.toNat_sub_of_le (by
    rw [BitVec.le_def]
    omega)]
  omega

theorem freed (invariant : Invariant run) {allocator : Block}
    (inside : allocator ∈ run.tree.nodes.map Node.block) :
    ∃ after, Fuel.Settles (fun fuel => freeAllocator fuel allocator run.heap) (.ok after) ∧
      Freed run allocator after ∧ Invariant ⟨run.root, after,
        run.tree.update Node.block allocator fun _ _ siblings => siblings⟩ := by
  rcases exists_path inside invariant.keys with
    ⟨path, top, children, siblings, rfl, plugged, changes, family⟩
  rcases invariant.free plugged with ⟨after, order, settles, perm, gone, left⟩
  rw [changes]
  refine ⟨after, settles, ⟨?_, ⟨order, ?_, gone.released⟩, ?_, ?_, ?_⟩, left⟩
  · rw [family]
    exact gone.ran
  · rw [family]
    exact perm
  · intro block among
    rw [gone.headers, if_pos (family ▸ among)]
  · intro block kept
    exact gone.headers_kept (family ▸ kept)
  · rw [changes]
    exact left.links

theorem accounts (invariant : Invariant run) : Accounts run where
  live := invariant.live
  distinct := invariant.distinct
  registered := invariant.nodup_registrations
  links := invariant.links
  bytes := invariant.bytes
  frees := fun _ inside => by
    rcases invariant.freed inside with ⟨after, settles, freed, -⟩
    exact ⟨after, settles, freed⟩

end Invariant

/-! ## Runs -/

theorem invariant_of_initial {sizeLimit : BitVec 64} {run : Run}
    (starts : (system sizeLimit).initial run) : Invariant run := by
  rcases starts with ⟨grant, returns, tree⟩
  rcases newWithIdentity_eq_ok returns with ⟨rfl, limit, same⟩
  rcases run with ⟨root, heap, _⟩
  dsimp only at tree same
  subst tree same
  have nodes : (SiblingTree.node (⟨root, [], []⟩ : Node) .nil .nil).nodes = [⟨root, [], []⟩] := rfl
  have own : blocks [(⟨root, [], []⟩ : Node)] = [root] := rfl
  refine ⟨?_, ?_, ?_, ?_, .inr ⟨_, _, rfl, rfl⟩, fun _ => ?_⟩
  · rw [nodes, own]
    exact List.nodup_singleton root
  · intro top inside
    rw [nodes, List.mem_singleton] at inside
    rw [inside]
    exact ⟨List.nodup_nil, fun job impossible => by cases impossible⟩
  · refine ⟨⟨_, Function.update_self .., rfl, rfl, rfl, rfl, ?_, rfl⟩, trivial, trivial⟩
    exact ⟨rfl, none, Function.update_self .., rfl⟩
  · intro block
    rw [nodes, own, List.mem_singleton]
    by_cases same : block = root
    · rw [same]
      exact iff_of_true (by simp [Heap.setSpace, Heap.setContext, Heap.grant]) rfl
    · refine iff_of_false ?_ same
      simp [Heap.setSpace, Heap.setContext, Heap.grant, Heap.drop, Heap.empty, same]
  · refine ⟨_, _, Function.update_self .., if_pos rfl, ?_, rfl⟩
    change (initialSpace sizeLimit - allocSize).toNat < 2 ^ 63
    have large : ¬ (initialSpace sizeLimit).toInt ≤ allocSize.toInt := fun le =>
      limit (decide_eq_true le)
    have size : allocSize.toInt = 176 := rfl
    have positive : (initialSpace sizeLimit).toNat < 2 ^ 63 := by
      by_contra high
      rw [size, BitVec.toInt_eq_toNat_cond, if_neg (by omega)] at large
      have word := (initialSpace sizeLimit).isLt
      omega
    rw [size, BitVec.toInt_eq_toNat_of_lt (by omega)] at large
    rw [BitVec.toNat_sub_of_le (by
      rw [BitVec.le_def, toNat_allocSize]
      omega)]
    omega

theorem eq_of_settles {value result : Except Stop Heap}
    (settles : Fuel.Settles (fun _ => value) result) : value = result := by
  rcases settles with ⟨enough, same⟩
  exact same enough le_rfl

theorem ok_of_map {outcome : Except Stop (Block × Heap)} {after : Heap}
    (returns : outcome.map Prod.snd = .ok after) : ∃ block, outcome = .ok (block, after) := by
  rcases outcome with stop | ⟨block, heap⟩
  · cases returns
  · cases returns
    exact ⟨block, rfl⟩

namespace Invariant

variable {run : Run}

theorem onFree (invariant : Invariant run) {path : Path Node} {top : Node}
    {children siblings : Tree} (plugged : run.tree = path.plug (.node top children siblings))
    {call : Call} {grant : Option Block} {after : Heap}
    (unused : ∀ block, grant = some block → run.heap.headers block = none)
    (settles : Fuel.Settles (fun fuel =>
      (addOnFreeJob fuel call top.block grant run.heap).map Prod.snd) (.ok after)) :
    ∃ block, grant = some block ∧ Invariant ⟨run.root, after,
      path.plug (.node (top.register block call) children siblings)⟩ := by
  rcases allocated : allocatorMalloc (BitVec.ofNat 64 jobSize * 1) top.block grant run.heap with
    stop | ⟨block, heap⟩
  · have stops : ∀ fuel, (addOnFreeJob fuel call top.block grant run.heap).map Prod.snd =
        .error stop := by
      intro fuel
      rw [addOnFreeJob, allocatorCalloc, allocated]
      rfl
    rw [funext stops] at settles
    cases eq_of_settles settles
  rcases invariant.allocate plugged (by decide) unused allocated with ⟨granted, middle⟩
  have newJob : block ∉ top.jobs.map Prod.fst := fun old =>
    invariant.notMem_of_unused (unused block granted)
      (blocks_mem plugged ((invariant.registers top (top_mem plugged)).mem_blocks old))
  rcases @register ⟨run.root, heap, _⟩ middle path _ children siblings rfl block call
    List.mem_cons_self newJob with ⟨ends, appended, registered⟩
  have goes := appended.map fun outcome => (outcome >>= fun heap =>
    (.ok (block, heap) : Except Stop (Block × Heap))).map Prod.snd
  have same := goes.unique (Eq.mp (congrArg (Fuel.Settles · _) (funext fun fuel => by
    rw [addOnFreeJob, allocatorCalloc, allocated]
    rfl)) settles)
  cases same
  exact ⟨block, granted, registered⟩

end Invariant

theorem isInvariant (sizeLimit : BitVec 64) :
    (system sizeLimit).IsInvariant Contract Invariant where
  initial := invariant_of_initial
  step := by
    rintro before ⟨allocator, op, grant⟩ after invariant ⟨inside, proper⟩
      ⟨grants, sameRoot, settles, tree⟩
    rcases after with ⟨root, heap, _⟩
    dsimp only at sameRoot settles tree inside proper
    subst sameRoot tree
    rcases exists_path inside invariant.keys with
      ⟨path, top, children, siblings, rfl, plugged, changes, -⟩
    rw [Event.applyTo, changes]
    have unused : (∀ original size, op ≠ .realloc (some original) size) →
        ∀ block, grant = some block → before.heap.headers block = none := by
      intro other block granted
      rcases grants block granted with free | ⟨size, same⟩
      · exact free
      · exact (other _ _ same).elim
    rcases op with length | ⟨length, count⟩ | length | ⟨_ | original, size⟩ | _ | call | job | _
    · rcases ok_of_map (eq_of_settles settles) with ⟨block, returns⟩
      rcases invariant.allocate plugged proper (unused fun _ _ => by simp) returns with
        ⟨rfl, left⟩
      exact left
    · rcases ok_of_map (eq_of_settles settles) with ⟨block, returns⟩
      rcases invariant.allocate plugged proper (unused fun _ _ => by simp) returns with
        ⟨rfl, left⟩
      exact left
    · rcases ok_of_map (eq_of_settles settles) with ⟨block, returns⟩
      rcases invariant.allocate plugged proper (unused fun _ _ => by simp) returns with
        ⟨rfl, left⟩
      exact left
    · rcases ok_of_map (eq_of_settles settles) with ⟨block, returns⟩
      rcases invariant.allocate plugged proper.1 (unused fun _ _ => by simp) returns with
        ⟨rfl, left⟩
      exact left
    · rcases proper.2 original rfl with ⟨notKey, notJob⟩
      have notOwn : original ∉ top.jobs.map Prod.fst := by
        intro own
        rcases List.mem_map.mp own with ⟨job, registered, same⟩
        exact notJob (List.mem_map.mpr
          ⟨job, List.mem_flatMap.mpr ⟨top, Invariant.top_mem plugged, registered⟩, same⟩)
      have free : ∀ block, grant = some block →
          before.heap.headers block = none ∨ block = original := by
        intro block granted
        rcases grants block granted with free | ⟨_, same⟩
        · exact .inl free
        · cases same
          exact .inr rfl
      rcases invariant.reallocate plugged notKey notOwn free settles with ⟨block, rfl, left⟩
      exact left
    · rcases ok_of_map (eq_of_settles settles) with ⟨block, returns⟩
      rcases invariant.grow plugged (unused fun _ _ => by simp) returns with ⟨rfl, left⟩
      exact left
    · rcases invariant.onFree plugged (unused fun _ _ => by simp) settles with ⟨block, rfl, left⟩
      exact left
    · rcases invariant.unregister plugged job with ⟨result, returns, left⟩
      cases returns.unique settles
      exact left
    · rcases invariant.free plugged with ⟨result, -, returns, -, -, left⟩
      cases returns.unique settles
      exact left

/-- A tree that was made for a thousand bytes -/
def started : Run where
  root := 1
  heap := match newWithIdentity 1000 (some 1) .empty with
    | .ok (_, heap) => heap
    | .error _ => .empty
  tree := .node ⟨1, [], []⟩ .nil .nil

/-- A tree after an operation that needs little fuel -/
def performed (event : Event) (run : Run) : Run where
  root := run.root
  heap := match perform 2 event run.heap with
    | .ok heap => heap
    | .error _ => .empty
  tree := event.applyTo run.tree

theorem reachable_performed {run : Run} {event : Event}
    (reachable : (system 1000).Reachable Contract run) (contract : Contract run event)
    (unused : event.grant.bind run.heap.headers = none)
    (returns : ∀ fuel, perform (fuel + 2) event run.heap = .ok (performed event run).heap) :
    (system 1000).Reachable Contract (performed event run) := by
  refine reachable.step contract ⟨?_, rfl, ⟨2, fun fuel more => ?_⟩, rfl⟩
  · intro block granted
    rw [granted] at unused
    exact .inl unused
  · rcases Nat.exists_eq_add_of_le' more with ⟨rest, rfl⟩
    exact returns rest

def call : Call := { callback := 7, callbackContext := 8 }

/-- The root gets a child with a job, an allocation that moves and a child of its own. -/
def family : Run :=
  started |> performed ⟨1, .child, some 2⟩ |> performed ⟨2, .malloc 100, some 3⟩
    |> performed ⟨2, .onFree call, some 4⟩ |> performed ⟨2, .realloc (some 3) 200, some 5⟩
    |> performed ⟨2, .child, some 6⟩ |> performed ⟨6, .clone 10, some 7⟩

theorem reachable_family : (system 1000).Reachable Contract family := by
  have begins : (system 1000).initial started := ⟨some 1, rfl, rfl⟩
  have small (size : ℕ) (fits : size % 2 ^ 64 < 2 ^ 62) : (BitVec.ofNat 64 size).toNat < 2 ^ 62 :=
    fits
  refine reachable_performed ?_ ⟨by decide, small 10 (by decide)⟩ rfl fun _ => rfl
  refine reachable_performed ?_ ⟨by decide, trivial⟩ rfl fun _ => rfl
  refine reachable_performed ?_ ⟨by decide, small 200 (by decide), ?_⟩ rfl fun _ => rfl
  · refine reachable_performed ?_ ⟨by decide, trivial⟩ rfl fun _ => rfl
    refine reachable_performed ?_ ⟨by decide, small 100 (by decide)⟩ rfl fun _ => rfl
    exact reachable_performed (.initial begins) ⟨by decide, trivial⟩ rfl fun _ => rfl
  · intro block given
    rw [← Option.some.inj given]
    decide

end Cjdns.MallocAllocator
