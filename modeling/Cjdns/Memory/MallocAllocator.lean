import Cjdns.Library.LinkedList
import Cjdns.Library.SiblingTree
import Cjdns.Library.Transition

/-!
# The malloc allocator

`memory/MallocAllocator.c`: a tree of allocators on top of the C library. Every allocator is kept
in its own first allocation, next to the counter of free space; the allocators of a tree all point
to the counter of its root. The allocations and the jobs of an allocator are linked lists, and the
allocators are linked as a first child and its siblings.

What is in memory that was allocated for a caller is left out, and so is what a callback does: it
is only recorded that it is called.
-/

namespace Cjdns.MallocAllocator

open LinkedList

/-- `sizeof(struct MallocAllocator_Allocation)` -/
abbrev allocationSize : ℕ := 16

/-- `sizeof(struct MallocAllocator_FirstCtx)` on a 64-bit host, as the other sizes are -/
abbrev firstCtxSize : ℕ := 160

/-- `sizeof(struct Allocator)` -/
abbrev allocatorSize : ℕ := 72

/-- `sizeof(struct MallocAllocator_OnFreeJob)` -/
abbrev jobSize : ℕ := 24

/-- What the C library hands out, and what is kept in it -/
abbrev Block := ℕ

/-- What a job calls -/
structure Call where
  callback : BitVec 64
  callbackContext : BitVec 64
deriving DecidableEq

/-- `struct MallocAllocator_pvt`, apart from what an error message is made of -/
structure Context where
  allocations : Option Block
  onFree : Option Block
  lastSibling : Option Block
  nextSibling : Option Block
  firstChild : Option Block
  /-- The allocator next to which the counter is, unless it is on the stack -/
  spaceAvailable : Option Block
  maxSpace : BitVec 64
  allocatedHere : BitVec 64

structure Heap where
  /-- `struct MallocAllocator_Allocation`, with the size as its value -/
  headers : Block → Option (Cell Block (BitVec 64))
  contexts : Block → Option Context
  /-- The field `spaceAvailable` of `struct MallocAllocator_FirstCtx` -/
  spaces : Block → Option (BitVec 64)
  /-- `struct MallocAllocator_OnFreeJob` -/
  jobs : Block → Option (Cell Block Call)
  /-- The callbacks that were called -/
  ran : List Call
  /-- The blocks that were given back -/
  released : List Block

/-- Why an operation does not return -/
inductive Stop where
  /-- `failure` ends the program. -/
  | failure
  /-- A pointer that is no longer valid is followed, or there is too little fuel. -/
  | stuck
deriving DecidableEq

/-- Follow a pointer. -/
def read {α : Type} : Option α → Except Stop α
  | none => .error .stuck
  | some value => .ok value

/-- The program ends where there is nothing. -/
def orFail {α : Type} : Option α → Except Stop α
  | none => .error .failure
  | some value => .ok value

namespace Heap

def empty : Heap where
  headers := fun _ => none
  contexts := fun _ => none
  spaces := fun _ => none
  jobs := fun _ => none
  ran := []
  released := []

def setContext (heap : Heap) (block : Block) (context : Context) : Heap :=
  { heap with contexts := Function.update heap.contexts block (some context) }

def setSpace (heap : Heap) (pointer : Option Block) (available : BitVec 64) : Heap :=
  { heap with
    spaces := fun block => if some block = pointer then some available else heap.spaces block }

def setJob (heap : Heap) (block : Block) (job : Cell Block Call) : Heap :=
  { heap with jobs := Function.update heap.jobs block (some job) }

/-- A block is no longer there. -/
def drop (heap : Heap) (block : Block) : Heap :=
  { heap with
    headers := Function.update heap.headers block none
    contexts := Function.update heap.contexts block none
    spaces := Function.update heap.spaces block none
    jobs := Function.update heap.jobs block none }

/-- A new block with a header -/
def grant (heap : Heap) (block : Block) (header : Cell Block (BitVec 64)) : Heap :=
  { heap.drop block with headers := Function.update heap.headers block (some header) }

/-- `free` of the C library -/
def release (heap : Heap) (block : Block) : Heap :=
  { heap.drop block with released := heap.released ++ [block] }

end Heap

/-- What an allocation takes from the space -/
def realSize (size : BitVec 64) : BitVec 64 := BitVec.ofNat 64 allocationSize + size

/-- `newAllocation`, with what `malloc` returns, and with what `spaceAvailable` points to -/
def newAllocation (size : BitVec 64) (grant : Option Block) (context : Context)
    (available : BitVec 64) (heap : Heap) : Except Stop (Block × Context × BitVec 64 × Heap) :=
  if available.sle (realSize size) then .error .failure
  else
    match grant with
    | none => .error .failure
    | some alloc =>
        .ok (alloc,
          { context with
            allocatedHere := context.allocatedHere + realSize size
            allocations := some alloc },
          available - realSize size, heap.grant alloc ⟨realSize size, context.allocations⟩)

/-- `allocatorMalloc` -/
def allocatorMalloc (length : BitVec 64) (allocator : Block) (grant : Option Block) (heap : Heap) :
    Except Stop (Block × Heap) := do
  let context ← read (heap.contexts allocator)
  let available ← read (context.spaceAvailable.bind heap.spaces)
  let (alloc, changed, available, heap) ← newAllocation length grant context available heap
  .ok (alloc, (heap.setContext allocator changed).setSpace context.spaceAvailable available)

/-- `allocatorCalloc` -/
def allocatorCalloc (length count : BitVec 64) (allocator : Block) (grant : Option Block)
    (heap : Heap) : Except Stop (Block × Heap) :=
  allocatorMalloc (length * count) allocator grant heap

/-- `allocatorClone` -/
def allocatorClone (length : BitVec 64) (allocator : Block) (grant : Option Block) (heap : Heap) :
    Except Stop (Block × Heap) :=
  allocatorMalloc length allocator grant heap

/-- `*locPtr = alloc` in `allocatorRealloc`, where `locPtr` is the field of a header or else that
of the allocator -/
def setLocation (heap : Heap) (allocator : Block) (locPtr alloc : Option Block) :
    Except Stop Heap :=
  match locPtr with
  | none => do
      let context ← read (heap.contexts allocator)
      .ok (heap.setContext allocator { context with allocations := alloc })
  | some loc => .ok { heap with headers := redirect heap.headers (some loc) alloc }

/-- `allocatorRealloc`, where `locPtr` was found -/
def reallocAt (origLoc : Block) (size : BitVec 64) (allocator : Block) (grant : Option Block)
    (locPtr : Option Block) (heap : Heap) : Except Stop (Block × Heap) := do
  let context ← read (heap.contexts allocator)
  let header ← read (heap.headers origLoc)
  let available ← read (context.spaceAvailable.bind heap.spaces)
  if available + header.value < realSize size then .error .failure
  else
    let heap := heap.setSpace context.spaceAvailable (available + header.value - realSize size)
    let heap := heap.setContext allocator { context with
      allocatedHere := context.allocatedHere - header.value + realSize size }
    match grant with
    | none => .error .failure
    | some alloc => do
        let heap := (heap.drop origLoc).grant alloc ⟨realSize size, header.next⟩
        let heap ← setLocation heap allocator locPtr (some alloc)
        .ok (alloc, heap)

/-- `allocatorRealloc`, with what `realloc` returns -/
def allocatorRealloc (fuel : ℕ) (original : Option Block) (size : BitVec 64) (allocator : Block)
    (grant : Option Block) (heap : Heap) : Except Stop (Block × Heap) :=
  match original with
  | none => allocatorMalloc size allocator grant heap
  | some origLoc => do
      let context ← read (heap.contexts allocator)
      let found ← read (locate heap.headers origLoc fuel none context.allocations)
      let locPtr ← orFail found
      reallocAt origLoc size allocator grant locPtr heap

/-- The counter of `stackContext` in `MallocAllocator_newWithIdentity` -/
def initialSpace (sizeLimit : BitVec 64) : BitVec 64 :=
  if sizeLimit = 0 then BitVec.allOnes 64
  else sizeLimit + BitVec.ofNat 64 firstCtxSize + BitVec.ofNat 64 allocatorSize

/-- The context of `stackContext` in `MallocAllocator_newWithIdentity` -/
def stackContext : Context where
  allocations := none
  onFree := none
  lastSibling := none
  nextSibling := none
  firstChild := none
  spaceAvailable := none
  maxSpace := 0
  allocatedHere := 0

/-- `MallocAllocator_newWithIdentity` -/
def newWithIdentity (sizeLimit : BitVec 64) (grant : Option Block) (heap : Heap) :
    Except Stop (Block × Heap) := do
  let (firstContext, context, available, heap) ← newAllocation (BitVec.ofNat 64 firstCtxSize) grant
    stackContext (initialSpace sizeLimit) heap
  .ok (firstContext, (heap.setContext firstContext { context with
    spaceAvailable := some firstContext
    maxSpace := available }).setSpace (some firstContext) available)

/-- `allocSize` in `childAllocator` -/
def allocSize : BitVec 64 := BitVec.ofNat 64 (firstCtxSize + allocationSize)

/-- `lastSibling` of an allocator, if there is one -/
def setLastSibling (pointer last : Option Block) (heap : Heap) : Except Stop Heap :=
  match pointer with
  | none => .ok heap
  | some pointer => do
      let sibling ← read (heap.contexts pointer)
      .ok (heap.setContext pointer { sibling with lastSibling := last })

/-- `childAllocator` -/
def childAllocator (allocator : Block) (grant : Option Block) (heap : Heap) :
    Except Stop (Block × Heap) := do
  let context ← read (heap.contexts allocator)
  let available ← read (context.spaceAvailable.bind heap.spaces)
  if available.sle allocSize then .error .failure
  else
    let (childAlloc, heap) ← newWithIdentity allocSize grant heap
    let heap := heap.setSpace context.spaceAvailable (available - allocSize)
    let child ← read (heap.contexts childAlloc)
    let heap := heap.setContext childAlloc { child with
      maxSpace := context.maxSpace
      lastSibling := some allocator
      nextSibling := context.firstChild
      spaceAvailable := context.spaceAvailable }
    let heap ← setLastSibling context.firstChild (some childAlloc) heap
    let context ← read (heap.contexts allocator)
    .ok (childAlloc, heap.setContext allocator { context with firstChild := some childAlloc })

/-- The end of the list in `addOnFreeJob` -/
def appendJob (fuel : ℕ) (newJob allocator : Block) (heap : Heap) : Except Stop Heap := do
  let context ← read (heap.contexts allocator)
  match context.onFree with
  | none => .ok (heap.setContext allocator { context with onFree := some newJob })
  | some job => do
      let job ← read (last heap.jobs fuel job)
      .ok { heap with jobs := redirect heap.jobs (some job) (some newJob) }

/-- `addOnFreeJob` -/
def addOnFreeJob (fuel : ℕ) (call : Call) (allocator : Block) (grant : Option Block)
    (heap : Heap) : Except Stop (Block × Heap) := do
  let (newJob, heap) ← allocatorCalloc (BitVec.ofNat 64 jobSize) 1 allocator grant heap
  let heap ← appendJob fuel newJob allocator (heap.setJob newJob ⟨call, none⟩)
  .ok (newJob, heap)

/-- `removeOnFreeJob`, where `jobPtr` was found or not -/
def removeJobAt (toRemove allocator : Block) (jobPtr : Option (Option Block)) (heap : Heap) :
    Except Stop (Bool × Heap) :=
  match jobPtr with
  | none => .ok (false, heap)
  | some none => do
      let context ← read (heap.contexts allocator)
      let job ← read (heap.jobs toRemove)
      .ok (true, heap.setContext allocator { context with onFree := job.next })
  | some (some place) => do
      let job ← read (heap.jobs toRemove)
      .ok (true, { heap with jobs := redirect heap.jobs (some place) job.next })

/-- `removeOnFreeJob` -/
def removeOnFreeJob (fuel : ℕ) (toRemove allocator : Block) (heap : Heap) :
    Except Stop (Bool × Heap) := do
  let context ← read (heap.contexts allocator)
  let jobPtr ← read (locate heap.jobs toRemove fuel none context.onFree)
  removeJobAt toRemove allocator jobPtr heap

/-- The jobs in `freeAllocator` -/
def runJobs : ℕ → Option Block → Heap → Except Stop Heap
  | 0, _, _ => .error .stuck
  | _ + 1, none, heap => .ok heap
  | fuel + 1, some job, heap => do
      let cell ← read (heap.jobs job)
      runJobs fuel cell.next { heap with ran := heap.ran ++ [cell.value] }

/-- What points to an allocator in the sibling list points past it, in `freeAllocator`. -/
def passOver (allocator : Block) (context : Context) (heap : Heap) : Except Stop Heap :=
  match context.lastSibling with
  | none => .ok heap
  | some last => do
      let sibling ← read (heap.contexts last)
      if sibling.nextSibling = some allocator then
        .ok (heap.setContext last { sibling with nextSibling := context.nextSibling })
      else if sibling.firstChild = some allocator then
        .ok (heap.setContext last { sibling with firstChild := context.nextSibling })
      else .error .failure

/-- Taking an allocator from the sibling list in `freeAllocator` -/
def unlink (allocator : Block) (heap : Heap) : Except Stop Heap := do
  let context ← read (heap.contexts allocator)
  let heap ← passOver allocator context heap
  let context ← read (heap.contexts allocator)
  setLastSibling context.nextSibling context.lastSibling heap

/-- The allocations in `freeAllocator`, where that of the allocator itself comes last -/
def freeAllocations (allocator : Block) : ℕ → Option Block → Heap → Except Stop Heap
  | 0, _, _ => .error .stuck
  | _ + 1, none, heap => .ok heap
  | fuel + 1, some loc, heap => do
      let context ← read (heap.contexts allocator)
      let available ← read (context.spaceAvailable.bind heap.spaces)
      let header ← read (heap.headers loc)
      freeAllocations allocator fuel header.next
        ((heap.setSpace context.spaceAvailable (available + header.value)).release loc)

mutual

/-- `freeAllocator` -/
def freeAllocator : ℕ → Block → Heap → Except Stop Heap
  | 0, _, _ => .error .stuck
  | fuel + 1, allocator, heap => do
      let context ← read (heap.contexts allocator)
      let heap ← runJobs fuel context.onFree heap
      let heap ← freeChildren fuel context.firstChild heap
      let heap ← unlink allocator heap
      let context ← read (heap.contexts allocator)
      freeAllocations allocator fuel context.allocations heap

/-- The child allocators in `freeAllocator` -/
def freeChildren : ℕ → Option Block → Heap → Except Stop Heap
  | 0, _, _ => .error .stuck
  | _ + 1, none, heap => .ok heap
  | fuel + 1, some child, heap => do
      let context ← read (heap.contexts child)
      let nextChild := context.nextSibling
      let heap ← freeAllocator fuel child heap
      freeChildren fuel nextChild heap

end

/-- `MallocAllocator_bytesAllocated` -/
def bytesAllocated (allocator : Block) (heap : Heap) : Except Stop (BitVec 64) := do
  let context ← read (heap.contexts allocator)
  let available ← read (context.spaceAvailable.bind heap.spaces)
  .ok (context.maxSpace - available)

/-! ## Runs -/

inductive Op where
  | malloc (length : BitVec 64)
  | calloc (length count : BitVec 64)
  | clone (length : BitVec 64)
  | realloc (original : Option Block) (size : BitVec 64)
  | child
  | onFree (call : Call)
  | notOnFree (job : Block)
  | free

/-- An operation of an allocator, with what the C library hands out to it -/
structure Event where
  allocator : Block
  op : Op
  grant : Option Block

def perform (fuel : ℕ) (event : Event) (heap : Heap) : Except Stop Heap :=
  match event.op with
  | .malloc length => (allocatorMalloc length event.allocator event.grant heap).map Prod.snd
  | .calloc length count =>
      (allocatorCalloc length count event.allocator event.grant heap).map Prod.snd
  | .clone length => (allocatorClone length event.allocator event.grant heap).map Prod.snd
  | .realloc original size =>
      (allocatorRealloc fuel original size event.allocator event.grant heap).map Prod.snd
  | .child => (childAllocator event.allocator event.grant heap).map Prod.snd
  | .onFree call => (addOnFreeJob fuel call event.allocator event.grant heap).map Prod.snd
  | .notOnFree job => (removeOnFreeJob fuel job event.allocator heap).map Prod.snd
  | .free => freeAllocator fuel event.allocator heap

/-! ## What an allocator stands for -/

/-- An allocator: what was allocated with it and the jobs that are registered -/
structure Node where
  block : Block
  entries : List (Block × BitVec 64)
  jobs : List (Block × Call)

abbrev Tree := SiblingTree Node

/-- The allocations of an allocator, with its own -/
def Node.allocations (top : Node) : List (Block × BitVec 64) :=
  top.entries ++ [(top.block, allocSize)]

def Node.blocks (top : Node) : List Block := top.allocations.map Prod.fst

def blocks (nodes : List Node) : List Block := nodes.flatMap Node.blocks

def registrations (nodes : List Node) : List (Block × Call) := nodes.flatMap Node.jobs

def Node.allocate (block : Block) (size : BitVec 64) (top : Node) : Node :=
  { top with entries := (block, realSize size) :: top.entries }

def Node.reallocate (original block : Block) (size : BitVec 64) (top : Node) : Node :=
  { top with
    entries := top.entries.map fun entry =>
      if entry.1 = original then (block, realSize size) else entry }

def Node.register (block : Block) (call : Call) (top : Node) : Node :=
  { top.allocate block (BitVec.ofNat 64 jobSize) with jobs := top.jobs ++ [(block, call)] }

def Node.unregister (job : Block) (top : Node) : Node :=
  { top with jobs := top.jobs.filter fun entry => entry.1 ≠ job }

open SiblingTree in
/-- What an operation does to its allocator in the tree -/
def Op.change (block : Block) : Op → Node → Tree → Tree → Tree
  | malloc length, top, children, siblings => node (top.allocate block length) children siblings
  | calloc length count, top, children, siblings =>
      node (top.allocate block (length * count)) children siblings
  | clone length, top, children, siblings => node (top.allocate block length) children siblings
  | realloc none size, top, children, siblings => node (top.allocate block size) children siblings
  | realloc (some original) size, top, children, siblings =>
      node (top.reallocate original block size) children siblings
  | child, top, children, siblings => node top (node ⟨block, [], []⟩ nil children) siblings
  | onFree call, top, children, siblings => node (top.register block call) children siblings
  | notOnFree job, top, children, siblings => node (top.unregister job) children siblings
  | free, _, _, siblings => siblings

/-- The tree after an operation -/
def Event.applyTo (event : Event) (tree : Tree) : Tree :=
  tree.update Node.block event.allocator (event.op.change (event.grant.getD 0))

/-- The memory of an allocator -/
structure Describes (heap : Heap) (root : Block) (last first next : Option Block) (top : Node)
    (context : Context) : Prop where
  here : heap.contexts top.block = some context
  lastSibling : context.lastSibling = last
  firstChild : context.firstChild = first
  nextSibling : context.nextSibling = next
  spaceAvailable : context.spaceAvailable = some root
  allocations : LinkedList.Linked heap.headers context.allocations top.allocations
  onFree : LinkedList.Linked heap.jobs context.onFree top.jobs

def Holds (heap : Heap) (root : Block) (last first next : Option Block) (top : Node) : Prop :=
  ∃ context, Describes heap root last first next top context

/-- The allocators of a tree are in memory, with the links between them. -/
def Represents (heap : Heap) (root : Block) (tree : Tree) : Prop :=
  tree.Linked Node.block (Holds heap root) none

/-- A tree of allocators in memory, and what it stands for -/
structure Run where
  root : Block
  heap : Heap
  tree : Tree

/-- What `malloc` and `realloc` return is no block that is in use, apart from the one that is
reallocated. -/
def Grants (heap : Heap) (event : Event) : Prop :=
  ∀ block, event.grant = some block →
    heap.headers block = none ∨ ∃ size, event.op = .realloc (some block) size

/-- A tree that starts with a limit of its size -/
def system (sizeLimit : BitVec 64) : TransitionSystem Run Event where
  initial run := ∃ grant, newWithIdentity sizeLimit grant .empty = .ok (run.root, run.heap) ∧
    run.tree = .node ⟨run.root, [], []⟩ .nil .nil
  step before event after := Grants before.heap event ∧ after.root = before.root ∧
    Fuel.Settles (fun fuel => perform fuel event before.heap) (.ok after.heap) ∧
      after.tree = event.applyTo before.tree

/-- The sizes that are asked for, and what is reallocated -/
def Op.Proper (tree : Tree) : Op → Prop
  | malloc length => length.toNat < 2 ^ 62
  | calloc length count => (length * count).toNat < 2 ^ 62
  | clone length => length.toNat < 2 ^ 62
  | realloc original size => size.toNat < 2 ^ 62 ∧ ∀ block, original = some block →
      block ∉ tree.nodes.map Node.block ∧ block ∉ (registrations tree.nodes).map Prod.fst
  | _ => True

/-- What a caller keeps to: the allocator has not been freed. -/
def Contract (run : Run) (event : Event) : Prop :=
  event.allocator ∈ run.tree.nodes.map Node.block ∧ event.op.Proper run.tree

/-! ## What is promised -/

def recordedSize (heap : Heap) (block : Block) : ℕ :=
  (heap.headers block).elim 0 fun header => header.value.toNat

/-- An allocator was freed: the jobs of it and its descendants were run, and their allocations,
and no others, were given back. -/
structure Freed (run : Run) (allocator : Block) (after : Heap) : Prop where
  ran : after.ran =
    run.heap.ran ++ (registrations (run.tree.family Node.block allocator)).map Prod.snd
  released : ∃ order, order.Perm (blocks (run.tree.family Node.block allocator)) ∧
    after.released = run.heap.released ++ order
  gone : ∀ block ∈ blocks (run.tree.family Node.block allocator), after.headers block = none
  kept : ∀ block, block ∉ blocks (run.tree.family Node.block allocator) →
    after.headers block = run.heap.headers block
  links : Represents after run.root
    (run.tree.update Node.block allocator fun _ _ siblings => siblings)

structure Accounts (run : Run) : Prop where
  live : ∀ block, (run.heap.headers block).isSome ↔ block ∈ blocks run.tree.nodes
  distinct : (blocks run.tree.nodes).Nodup
  registered : ((registrations run.tree.nodes).map Prod.fst).Nodup
  links : Represents run.heap run.root run.tree
  bytes : run.tree ≠ .nil → ∃ bytes, bytesAllocated run.root run.heap = .ok bytes ∧
    bytes.toNat =
      (((blocks run.tree.nodes).erase run.root).map (recordedSize run.heap)).sum
  frees : ∀ allocator ∈ run.tree.nodes.map Node.block, ∃ after,
    Fuel.Settles (fun fuel => freeAllocator fuel allocator run.heap) (.ok after) ∧
      Freed run allocator after

end Cjdns.MallocAllocator
