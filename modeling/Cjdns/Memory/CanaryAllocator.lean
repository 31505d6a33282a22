import Cjdns.Library.Memory
import Cjdns.Library.Transition

/-!
# Canaries

`memory/CanaryAllocator.c` wraps an allocator and puts a word in front of each allocation and one
behind it, which it compares before the next allocation and when it is asked to. What the wrapped
allocator returns, and what it leaves in memory, comes with each call.

The context of the allocator and its list of allocations are records of their own and not bytes of
the memory: a write to a block of the wrapped allocator in which one of them is kept is left out.
-/

namespace Cjdns

/-- `struct CanaryAllocator_Allocation`; a file is where its name is in memory. -/
structure CanaryAllocator.Allocation where
  file : ℕ
  line : ℕ
  beginCanary : ℤ
  endCanary : ℤ
  canaryValue : BitVec 32

/-- `struct CanaryAllocator_pvt` -/
structure CanaryAllocator where
  allocations : List CanaryAllocator.Allocation
  /-- Store the first file to make sure the list hasn't been corrupted. -/
  firstFile : ℕ
  canaryValue : BitVec 32

namespace CanaryAllocator

/-- `SIZE_INTS` -/
def SIZE_INTS (size : ℕ) : ℕ :=
  (size + 11) % 2 ^ 64 / 4

/-- `SIZE_BYTES` -/
def SIZE_BYTES (size : ℕ) : ℕ :=
  SIZE_INTS size * 4

/-- `CanaryAllocator_isOverflow` -/
def isOverflow (memory : Memory) (ctx : CanaryAllocator) : Bool :=
  match ctx.allocations with
  | [] => false
  | first :: _ =>
      ctx.firstFile != first.file ||
        ctx.allocations.any fun allocation =>
          allocation.canaryValue != ctx.canaryValue ||
            memory.load allocation.beginCanary 32 != ctx.canaryValue ||
            memory.load allocation.endCanary 32 != ctx.canaryValue

/-- Where an allocation is made, for the messages -/
structure Ident where
  file : ℕ
  line : ℕ

/-- What the wrapped allocator returns, with the memory as it leaves it -/
structure Supply where
  out : ℤ
  memory : Memory

/-- What a call returns and leaves behind -/
structure Served where
  pointer : ℤ
  ctx : CanaryAllocator
  memory : Memory

/-- `newAllocation`; there is no result where the program is aborted. -/
def newAllocation (ctx : CanaryAllocator) (supply : Supply) (sizeInts : ℕ) (ident : Ident) :
    Option Served :=
  if isOverflow supply.memory ctx then none
  else
    let endCanary := supply.out + 4 * (sizeInts - 1 : ℕ)
    some
      { pointer := supply.out + 4
        ctx := { ctx with
          allocations := ctx.allocations ++ [
            { file := ident.file
              line := ident.line
              beginCanary := supply.out
              endCanary := endCanary
              canaryValue := ctx.canaryValue }]
          firstFile := if ctx.allocations.length + 1 = 1 then ident.file else ctx.firstFile }
        memory := (supply.memory.store supply.out ctx.canaryValue).store endCanary
          ctx.canaryValue }

/-- `allocatorMalloc`, where `SIZE_BYTES size` bytes are supplied -/
def allocatorMalloc (size : ℕ) (ctx : CanaryAllocator) (supply : Supply) (ident : Ident) :
    Option Served :=
  newAllocation ctx supply (SIZE_INTS size) ident

/-- `allocatorCalloc` -/
def allocatorCalloc (length count : ℕ) (ctx : CanaryAllocator) (supply : Supply) (ident : Ident) :
    Option Served :=
  let size := length * count % 2 ^ 64
  (allocatorMalloc size ctx supply ident).map fun served =>
    { served with memory := served.memory.write served.pointer (List.replicate size 0) }

/-- `allocatorClone` -/
def allocatorClone (length : ℕ) (toClone : ℤ) (ctx : CanaryAllocator) (supply : Supply)
    (ident : Ident) : Option Served :=
  (allocatorMalloc length ctx supply ident).map fun served =>
    { served with
      memory := served.memory.write served.pointer (served.memory.read toClone length) }

/-- `allocatorRealloc` -/
def allocatorRealloc (original : ℤ) (size : ℕ) (ctx : CanaryAllocator) (memory : Memory)
    (supply : Supply) (ident : Ident) : Option Served :=
  if original = 0 then allocatorMalloc size ctx supply ident
  else
    let beginCanary := original - 4
    if memory.load beginCanary 32 ≠ ctx.canaryValue then none
    else if ctx.allocations.any fun allocation => allocation.beginCanary = beginCanary then
      newAllocation
        { ctx with
          allocations := ctx.allocations.eraseP fun allocation =>
            allocation.beginCanary = beginCanary }
        supply (SIZE_INTS size) ident
    else none

/-- `CanaryAllocator_check`, with which `freeAllocator` begins -/
def check (ctx : CanaryAllocator) (memory : Memory) : Option Unit :=
  if isOverflow memory ctx then none else some ()

/-- `CanaryAllocator_new`, with the random number if there is a generator -/
def new (rand : Option (BitVec 32)) : CanaryAllocator where
  allocations := []
  firstFile := 0
  canaryValue := rand.getD 0xdc57b1a4

/-! ## Runs -/

/-- The calls of an allocator, and the bytes that the program writes in between -/
inductive Op where
  | malloc (size : ℕ) (supply : Supply) (ident : Ident)
  | calloc (length count : ℕ) (supply : Supply) (ident : Ident)
  | clone (length : ℕ) (toClone : ℤ) (supply : Supply) (ident : Ident)
  | realloc (original : ℤ) (size : ℕ) (supply : Supply) (ident : Ident)
  | check
  | write (address : ℤ) (byte : BitVec 8)

/-- Memory that was given to a caller -/
structure Grant where
  pointer : ℤ
  size : ℕ
  ident : Ident

namespace Grant

/-- The size up to a multiple of a word -/
def padded (grant : Grant) : ℕ :=
  (grant.size + 3) / 4 * 4

/-- The bytes that the caller asked for -/
def Contains (grant : Grant) (place : ℤ) : Prop :=
  grant.pointer ≤ place ∧ place < grant.pointer + grant.size

/-- The bytes with the canaries -/
def Extends (grant : Grant) (place : ℤ) : Prop :=
  grant.pointer - 4 ≤ place ∧ place < grant.pointer + grant.padded + 4

/-- Two grants have no byte in common, and no canary. -/
def Apart (first second : Grant) : Prop :=
  first.pointer + first.padded + 4 ≤ second.pointer - 4 ∨
    second.pointer + second.padded + 4 ≤ first.pointer - 4

/-- Neither canary has been written over. -/
def Fenced (grant : Grant) (canaryValue : BitVec 32) (memory : Memory) : Prop :=
  memory.load (grant.pointer - 4) 32 = canaryValue ∧
    memory.load (grant.pointer + grant.padded) 32 = canaryValue

end Grant

/-- An allocator, the memory, what callers hold, and if all bytes so far have been written to what
was granted or outside of everything that the allocator looks after -/
structure Run where
  ctx : CanaryAllocator
  memory : Memory
  granted : List Grant
  clean : Prop

/-- What is left if one grant is given back; the null pointer is no one's. -/
def without (original : ℤ) (granted : List Grant) : List Grant :=
  if original = 0 then granted else granted.eraseP fun grant => grant.pointer = original

/-- What a call does; there is no result where it aborts the program. -/
def serve (run : Run) : Op → Option Served
  | .malloc size supply ident => allocatorMalloc size run.ctx supply ident
  | .calloc length count supply ident => allocatorCalloc length count run.ctx supply ident
  | .clone length toClone supply ident => allocatorClone length toClone run.ctx supply ident
  | .realloc original size supply ident =>
      allocatorRealloc original size run.ctx run.memory supply ident
  | .check => (check run.ctx run.memory).map fun _ => ⟨0, run.ctx, run.memory⟩
  | .write address byte => some ⟨0, run.ctx, run.memory.store address byte⟩

/-- What callers hold after a call -/
def grantedAfter (granted : List Grant) (pointer : ℤ) : Op → List Grant
  | .malloc size _ ident => granted ++ [⟨pointer, size, ident⟩]
  | .calloc length count _ ident => granted ++ [⟨pointer, length * count, ident⟩]
  | .clone length _ _ ident => granted ++ [⟨pointer, length, ident⟩]
  | .realloc original size _ ident => without original granted ++ [⟨pointer, size, ident⟩]
  | _ => granted

/-- A byte that is no one else's -/
def Op.Clean (granted : List Grant) : Op → Prop
  | .write address _ => ∀ grant ∈ granted, grant.Extends address → grant.Contains address
  | _ => True

def system : TransitionSystem Run Op where
  initial run := (∃ rand, run.ctx = new rand) ∧ run.granted = [] ∧ run.clean
  step before op after := ∃ served, serve before op = some served ∧
    after = ⟨served.ctx, served.memory, grantedAfter before.granted served.pointer op,
      before.clean ∧ op.Clean before.granted⟩

/-- What is relied on of the wrapped allocator: what it supplies is apart from what is held, which
it does not touch. -/
structure Supplies (held : List Grant) (memory : Memory) (size : ℕ) (supply : Supply) : Prop where
  /-- The bytes that are asked for can be counted. -/
  small : size + 11 < 2 ^ 64
  apart : ∀ grant ∈ held, grant.Apart ⟨supply.out + 4, size, ⟨0, 0⟩⟩
  same : ∀ grant ∈ held, ∀ place, grant.Extends place → supply.memory place = memory place

/-- What callers and the wrapped allocator keep to. -/
def Contract (run : Run) : Op → Prop
  | .malloc size supply _ => Supplies run.granted run.memory size supply
  | .calloc length count supply _ => Supplies run.granted run.memory (length * count) supply
  | .clone length _ supply _ => Supplies run.granted run.memory length supply
  | .realloc original size supply _ =>
      (original = 0 ∨ ∃ grant ∈ run.granted, grant.pointer = original ∧
        ∀ index : ℕ, index < grant.padded → index < (size + 3) / 4 * 4 →
          supply.memory (supply.out + 4 + index) = run.memory (original + index)) ∧
        Supplies (without original run.granted) run.memory size supply
  | _ => True

/-! ## What is promised -/

/-- When a call aborts the program: a canary of what is held is not what it was. If memory is
reallocated, the canary behind it is not looked at, and if it was the first on the list, the next
one has to be from the same file. -/
def Alarm (run : Run) : Op → Prop
  | .write _ _ => False
  | .realloc original _ _ _ =>
      original ≠ 0 ∧ run.memory.load (original - 4) 32 ≠ run.ctx.canaryValue ∨
        (∃ grant ∈ without original run.granted,
          ¬grant.Fenced run.ctx.canaryValue run.memory) ∨
        ∃ first next, run.granted.head? = some first ∧
          (without original run.granted).head? = some next ∧ first.ident.file ≠ next.ident.file
  | _ => ∃ grant ∈ run.granted, ¬grant.Fenced run.ctx.canaryValue run.memory

/-- What is held during a call -/
def heldBy (granted : List Grant) : Op → List Grant
  | .realloc original _ _ _ => without original granted
  | _ => granted

/-- What is promised of an allocator at any time -/
structure Sound (run : Run) : Prop where
  apart : run.granted.Pairwise Grant.Apart
  alarm : ∀ op, Contract run op → (serve run op = none ↔ Alarm run op)
  /-- There is no alarm without a byte that was written where it should not be. -/
  quiet : run.clean → ∀ grant ∈ run.granted, grant.Fenced run.ctx.canaryValue run.memory
  keeps : ∀ op served, Contract run op → serve run op = some served →
    (∀ address byte, op ≠ .write address byte) → ∀ grant ∈ heldBy run.granted op, ∀ place,
      grant.Extends place → served.memory place = run.memory place
  moves : ∀ original size supply ident served,
    Contract run (.realloc original size supply ident) →
      serve run (.realloc original size supply ident) = some served → original ≠ 0 →
        ∃ grant ∈ run.granted, grant.pointer = original ∧ ∀ index : ℕ, index < grant.size →
          index < size → served.memory (served.pointer + index) = run.memory (original + index)

end CanaryAllocator

end Cjdns
