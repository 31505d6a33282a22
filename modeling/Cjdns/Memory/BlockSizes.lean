import Cjdns.Memory.BufferAllocator
import Cjdns.Memory.CanaryAllocator
import Cjdns.Memory.MallocAllocator

/-!
# The sizes of blocks

The allocators add to the size that they are asked for, in `size_t` or to a pointer, and
look only at the sum. Where no sum wraps, a block has the size that was asked for
(`le_of_grant`). Where one does, the call either ends the program or gives a pointer behind
which there is no block at all (`eq_zero_of_grant`).
-/

namespace Cjdns

/-- What `size_t`, `unsigned long` and pointers have in common -/
inductive Host where
  | bits32
  | bits64

namespace Host

/-- `sizeof(char*)` -/
def pointerSize : Host → ℕ
  | bits32 => 4
  | bits64 => 8

def width : Host → ℕ
  | bits32 => 32
  | bits64 => 64

/-- `sizeof(struct MallocAllocator_Allocation)`, a pointer and a size -/
def allocationSize (host : Host) : BitVec host.width :=
  BitVec.ofNat host.width (2 * host.pointerSize)

theorem lt_width (host : Host) : 2 ^ 31 < 2 ^ host.width := by
  cases host <;> decide

theorem one_ne_zero (host : Host) : (1 : BitVec host.width) ≠ 0 := by
  cases host <;> decide

theorem toNat_one (host : Host) : (1 : BitVec host.width).toNat = 1 := by
  cases host <;> rfl

end Host

namespace BlockSizes

variable {host : Host}

/-- `AllocatorTools_getAligned`, for the size of a pointer -/
def getAligned (pointer : BitVec host.width) : BitVec host.width :=
  pointer + BitVec.ofNat host.width host.pointerSize - 1 &&&
    ~~~(BitVec.ofNat host.width host.pointerSize - 1)

/-- `SIZE_INTS` -/
def SIZE_INTS (size : BitVec host.width) : BitVec host.width :=
  (size + BitVec.ofNat host.width 11) / BitVec.ofNat host.width 4

/-- `SIZE_BYTES` -/
def SIZE_BYTES (size : BitVec host.width) : BitVec host.width :=
  SIZE_INTS size * BitVec.ofNat host.width 4

/-- An allocator, with what a call of its `malloc` depends on -/
inductive Allocator (host : Host) where
  /-- `MallocAllocator`, with the space that is left, and whether `malloc()` has the memory -/
  | malloc (spaceAvailable : BitVec 64) (supplied : Bool)
  | buffer (pointer endPointer : BitVec host.width)
  /-- `CanaryAllocator`, with the allocator that it wraps, and whether all canaries are intact
  and its list gets its room -/
  | canary (alloc : Allocator host) (listed : Bool)

namespace Allocator

/-- How many bytes of the block are behind the pointer that `allocator->malloc` returns;
nothing where the program ends in the call. -/
def grant (size : BitVec host.width) : Allocator host → Option ℕ
  | .malloc spaceAvailable supplied =>
      let realSize := host.allocationSize + size
      -- a `size_t` of 32 bits is extended with zeros to `int64_t`
      if spaceAvailable.sle (realSize.setWidth 64) then none
      else if supplied then some (realSize.toNat - host.allocationSize.toNat)
      else none
  | .buffer contextPointer endPointer =>
      let pointer := getAligned contextPointer
      let endOfAlloc := pointer + size
      if endPointer ≤ endOfAlloc then none
      else if endOfAlloc < contextPointer then none
      else some (endOfAlloc.toNat - pointer.toNat)
  | .canary alloc listed =>
      -- an integer in front and one behind are for the canaries
      match grant (SIZE_BYTES size) alloc with
      | none => none
      | some bytes => if listed then some (min (bytes - 4) ((SIZE_BYTES size).toNat - 8)) else none

/-- No sum of the call wraps. -/
def fits (size : BitVec host.width) : Allocator host → Bool
  | .malloc _ _ => host.allocationSize.toNat + size.toNat < 2 ^ host.width
  | .buffer pointer _ => (getAligned pointer).toNat + size.toNat < 2 ^ host.width
  | .canary alloc _ => (size.toNat + 11 < 2 ^ host.width : Bool) && fits (SIZE_BYTES size) alloc

end Allocator

theorem toNat_ofNat_small (host : Host) {number : ℕ} (small : number < 2 ^ 32) :
    (BitVec.ofNat host.width number).toNat = number := by
  rw [BitVec.toNat_ofNat]
  apply Nat.mod_eq_of_lt
  cases host with
  | bits32 => exact small
  | bits64 => exact lt_trans small (by decide)

theorem toNat_SIZE_BYTES (size : BitVec host.width) :
    (SIZE_BYTES size).toNat = (size.toNat + 11) % 2 ^ host.width / 4 * 4 := by
  rw [SIZE_BYTES, SIZE_INTS, BitVec.toNat_mul, BitVec.toNat_udiv, BitVec.toNat_add,
    toNat_ofNat_small host (by decide), toNat_ofNat_small host (by decide)]
  apply Nat.mod_eq_of_lt
  have bound := Nat.mod_lt (size.toNat + 11) (Nat.two_pow_pos host.width)
  omega

theorem toNat_add_of_fits {one two : BitVec host.width}
    (small : one.toNat + two.toNat < 2 ^ host.width) :
    (one + two).toNat = one.toNat + two.toNat := by
  rw [BitVec.toNat_add, Nat.mod_eq_of_lt small]

theorem toNat_add_of_wraps {one two : BitVec host.width}
    (wraps : ¬one.toNat + two.toNat < 2 ^ host.width) :
    (one + two).toNat < one.toNat := by
  have first := one.isLt
  have second := two.isLt
  rw [BitVec.toNat_add, Nat.mod_eq_sub_mod (by omega), Nat.mod_eq_of_lt (by omega)]
  omega

namespace Allocator

/-- A block is as large as it has to be if no sum wraps. -/
theorem le_of_grant {allocator : Allocator host} {size : BitVec host.width} {bytes : ℕ}
    (fits : allocator.fits size = true) (granted : allocator.grant size = some bytes) :
    size.toNat ≤ bytes := by
  induction allocator generalizing size bytes with
  | malloc spaceAvailable supplied =>
      have sum := toNat_add_of_fits (of_decide_eq_true fits)
      rw [grant] at granted
      split_ifs at granted
      cases granted
      omega
  | buffer pointer endPointer =>
      have sum := toNat_add_of_fits (of_decide_eq_true fits)
      rw [grant] at granted
      split_ifs at granted
      cases granted
      omega
  | canary alloc listed ih =>
      rw [Allocator.fits, Bool.and_eq_true] at fits
      have small : size.toNat + 11 < 2 ^ host.width := of_decide_eq_true fits.1
      have whole := toNat_SIZE_BYTES size
      rw [Nat.mod_eq_of_lt small] at whole
      rw [grant] at granted
      cases wrapped : grant (SIZE_BYTES size) alloc with
      | none =>
          rw [wrapped] at granted
          cases granted
      | some supplied =>
          have enough := ih fits.2 wrapped
          simp only [wrapped] at granted
          split_ifs at granted
          cases granted
          omega

/-- There is no block if a sum wraps. -/
theorem eq_zero_of_grant {allocator : Allocator host} {size : BitVec host.width} {bytes : ℕ}
    (wraps : allocator.fits size = false) (granted : allocator.grant size = some bytes) :
    bytes = 0 := by
  induction allocator generalizing size bytes with
  | malloc spaceAvailable supplied =>
      have sum := toNat_add_of_wraps (of_decide_eq_false wraps)
      rw [grant] at granted
      split_ifs at granted
      cases granted
      omega
  | buffer pointer endPointer =>
      have sum := toNat_add_of_wraps (of_decide_eq_false wraps)
      rw [grant] at granted
      split_ifs at granted
      cases granted
      omega
  | canary alloc listed ih =>
      rw [Allocator.fits, Bool.and_eq_false_iff] at wraps
      rw [grant] at granted
      cases wrapped : grant (SIZE_BYTES size) alloc with
      | none =>
          rw [wrapped] at granted
          cases granted
      | some supplied =>
          simp only [wrapped] at granted
          split_ifs at granted
          cases granted
          rcases wraps with large | inner
          · have whole := toNat_SIZE_BYTES size
            have most := of_decide_eq_false large
            have bound := size.isLt
            have wide := host.lt_width
            rw [Nat.mod_eq_sub_mod (by omega), Nat.mod_eq_of_lt (by omega)] at whole
            omega
          · rw [ih inner wrapped]
            simp

/-! ## The allocators of a 64-bit host -/

/-- The block of a `BufferAllocator` ends where its pointer is afterwards. -/
theorem grant_buffer (size : BitVec 64) (context : BufferAllocator.Context) :
    @grant .bits64 size (.buffer context.pointer context.endPointer) =
      match BufferAllocator.allocatorMalloc size context with
      | .error _ => none
      | .ok (pointer, after) => some (after.pointer.toNat - pointer.toNat) := by
  change (if context.endPointer ≤ BufferAllocator.getAligned context.pointer + size then none
    else if BufferAllocator.getAligned context.pointer + size < context.pointer then none
    else some ((BufferAllocator.getAligned context.pointer + size).toNat -
      (BufferAllocator.getAligned context.pointer).toNat)) = _
  rw [BufferAllocator.allocatorMalloc]
  split_ifs <;> rfl

/-- The block of a `MallocAllocator` is what its header says, less the header. -/
theorem grant_malloc (size : BitVec 64) (alloc : Option MallocAllocator.Block)
    (context : MallocAllocator.Context) (available : BitVec 64) (heap : MallocAllocator.Heap) :
    @grant .bits64 size (.malloc available alloc.isSome) =
      match MallocAllocator.newAllocation size alloc context available heap with
      | .error _ => none
      | .ok (alloc, _, _, heap) => (heap.headers alloc).map fun header =>
          header.value.toNat - MallocAllocator.allocationSize := by
  change (if available.sle ((MallocAllocator.realSize size).setWidth 64) then none
    else if alloc.isSome then some ((MallocAllocator.realSize size).toNat -
      MallocAllocator.allocationSize) else none) = _
  rw [BitVec.setWidth_eq]
  cases alloc with
  | none => simp [MallocAllocator.newAllocation]
  | some block =>
      by_cases full : available.sle (MallocAllocator.realSize size) = true
      · simp [MallocAllocator.newAllocation, full]
      · simp [MallocAllocator.newAllocation, full, MallocAllocator.Heap.grant]

/-- The macros of `CanaryAllocator` are those for numbers. -/
theorem toNat_SIZE_BYTES_eq (size : BitVec 64) :
    (@SIZE_BYTES .bits64 size).toNat = CanaryAllocator.SIZE_BYTES size.toNat :=
  toNat_SIZE_BYTES _

end Allocator

end BlockSizes

end Cjdns
