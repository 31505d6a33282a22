import Cjdns.Memory.CanaryAllocator

/-!
# Alarms

The list of an allocator has the canaries of what callers hold, so what it compares tells if one of
them was written over. There are two exceptions, both of them where memory is reallocated.
-/

namespace Cjdns.CanaryAllocator

variable {ctx : CanaryAllocator} {memory other : Memory} {canaryValue : BitVec 32}
  {granted : List Grant} {size : ℕ} {supply : Supply} {ident : Ident} {served : Served}

/-! ## Sizes -/

theorem sizeInts_eq (small : size + 11 < 2 ^ 64) : SIZE_INTS size = (size + 3) / 4 + 2 := by
  rw [SIZE_INTS, Nat.mod_eq_of_lt small]
  omega

namespace Grant

variable {grant : Grant}

theorem size_le_padded (grant : Grant) : grant.size ≤ grant.padded := by
  rw [padded]
  omega

/-- What is not between the canaries and not one of them leaves them as they are. -/
theorem fenced_congr (same : ∀ place, grant.Extends place → other place = memory place) :
    grant.Fenced canaryValue other ↔ grant.Fenced canaryValue memory := by
  have front : other.load (grant.pointer - 4) 32 = memory.load (grant.pointer - 4) 32 :=
    Memory.load_congr fun place lower upper => same place ⟨lower, by omega⟩
  have behind : other.load (grant.pointer + grant.padded) 32 =
      memory.load (grant.pointer + grant.padded) 32 :=
    Memory.load_congr fun place lower upper => same place ⟨by omega, by omega⟩
  rw [Fenced, Fenced, front, behind]

/-- Bytes of the caller leave the canaries as they are. -/
theorem fenced_store {address : ℤ} {byte : BitVec 8}
    (own : grant.Extends address → grant.Contains address)
    (fenced : grant.Fenced canaryValue memory) :
    grant.Fenced canaryValue (memory.store address byte) := by
  have long := grant.size_le_padded
  rw [Extends, Contains] at own
  have front : (memory.store address byte).load (grant.pointer - 4) 32 =
      memory.load (grant.pointer - 4) 32 := by
    apply Memory.load_congr
    intro place lower upper
    apply Memory.store_outside
    omega
  have behind : (memory.store address byte).load (grant.pointer + grant.padded) 32 =
      memory.load (grant.pointer + grant.padded) 32 := by
    apply Memory.load_congr
    intro place lower upper
    apply Memory.store_outside
    omega
  rw [Fenced, front, behind]
  exact fenced

/-- The entry of a grant on the list -/
def allocation (canaryValue : BitVec 32) (grant : Grant) : Allocation where
  file := grant.ident.file
  line := grant.ident.line
  beginCanary := grant.pointer - 4
  endCanary := grant.pointer + grant.padded
  canaryValue := canaryValue

end Grant

/-! ## The list -/

/-- The list has the grants on it, and is compared with the first one. -/
structure Lists (ctx : CanaryAllocator) (granted : List Grant) : Prop where
  allocations : ctx.allocations = granted.map (Grant.allocation ctx.canaryValue)
  firstFile : ∀ first ∈ granted.head?, ctx.firstFile = first.ident.file

theorem isOverflow_iff {granted : List Grant}
    (allocations : ctx.allocations = granted.map (Grant.allocation ctx.canaryValue)) :
    isOverflow memory ctx = true ↔
      (∃ first ∈ granted.head?, ctx.firstFile ≠ first.ident.file) ∨
        ∃ grant ∈ granted, ¬grant.Fenced ctx.canaryValue memory := by
  rw [isOverflow, allocations]
  cases granted with
  | nil => simp
  | cons first rest =>
      rw [List.map_cons]
      dsimp only
      rw [← List.map_cons, Bool.or_eq_true, List.any_eq_true, bne_iff_ne]
      refine or_congr (by simp [Grant.allocation]) ?_
      constructor
      · rintro ⟨allocation, listed, broken⟩
        rcases List.mem_map.mp listed with ⟨grant, held, rfl⟩
        refine ⟨grant, held, ?_⟩
        rintro ⟨front, behind⟩
        simp [Grant.allocation, front, behind] at broken
      · rintro ⟨grant, held, broken⟩
        refine ⟨_, List.mem_map_of_mem held, ?_⟩
        rw [Grant.Fenced, not_and_or] at broken
        rcases broken with front | behind
        · simp [Grant.allocation, front]
        · simp [Grant.allocation, behind]

/-! ## Allocations -/

/-- What is made is fenced and on the list, and nothing that is held is touched. -/
structure Makes (ctx : CanaryAllocator) (memory : Memory) (held : List Grant) (new : Grant)
    (served : Served) : Prop where
  pointer : new.pointer = served.pointer
  lists : Lists served.ctx (held ++ [new])
  canaryValue : served.ctx.canaryValue = ctx.canaryValue
  apart : ∀ grant ∈ held, grant.Apart new
  fenced : new.Fenced ctx.canaryValue served.memory
  keeps : ∀ grant ∈ held, ∀ place, grant.Extends place → served.memory place = memory place

variable {held : List Grant} {new : Grant}

/-- What is supplied does not change the canaries of what is held. -/
theorem isOverflow_supply (allocations : ctx.allocations = held.map (Grant.allocation ctx.canaryValue))
    (supplies : Supplies held memory size supply) :
    isOverflow supply.memory ctx = true ↔
      (∃ first ∈ held.head?, ctx.firstFile ≠ first.ident.file) ∨
        ∃ grant ∈ held, ¬grant.Fenced ctx.canaryValue memory := by
  rw [isOverflow_iff allocations]
  apply or_congr Iff.rfl
  apply exists_congr
  intro grant
  apply and_congr_right
  intro isHeld
  rw [Grant.fenced_congr (supplies.same grant isHeld)]

theorem newAllocation_eq_none_iff {sizeInts : ℕ} :
    newAllocation ctx supply sizeInts ident = none ↔ isOverflow supply.memory ctx = true := by
  rw [newAllocation]
  split_ifs with overflow
  · exact iff_of_true rfl overflow
  · exact iff_of_false (by simp) overflow

theorem makes_of_newAllocation
    (allocations : ctx.allocations = held.map (Grant.allocation ctx.canaryValue))
    (supplies : Supplies held memory size supply)
    (fine : newAllocation ctx supply (SIZE_INTS size) ident = some served) :
    Makes ctx memory held ⟨supply.out + 4, size, ident⟩ served ∧
      ∀ index : ℕ, index < (size + 3) / 4 * 4 →
        served.memory (served.pointer + index) = supply.memory (supply.out + 4 + index) := by
  have overflow : ¬isOverflow supply.memory ctx = true := by
    rw [← newAllocation_eq_none_iff, fine]
    simp
  rw [newAllocation, if_neg overflow, Option.some.injEq] at fine
  rw [isOverflow_supply allocations supplies, not_or] at overflow
  subst fine
  have ints := sizeInts_eq supplies.small
  have stop : supply.out + 4 * ((SIZE_INTS size - 1 : ℕ) : ℤ) =
      supply.out + 4 + ((size + 3) / 4 * 4 : ℕ) := by
    rw [ints]
    omega
  refine ⟨⟨rfl, ⟨?_, ?_⟩, rfl, supplies.apart, ⟨?_, ?_⟩, ?_⟩, ?_⟩
  · dsimp only
    rw [allocations, List.map_append, stop]
    simp [Grant.allocation, Grant.padded]
  · intro first isFirst
    dsimp only
    cases held with
    | nil =>
        rw [allocations]
        cases isFirst
        rfl
    | cons head rest =>
        rw [allocations, List.map_cons, List.length_cons, if_neg (by omega)]
        by_contra other
        exact overflow.1 ⟨first, isFirst, other⟩
  · dsimp only
    rw [Memory.load_store_disjoint _ (by omega), add_sub_cancel_right,
      Memory.load_store _ _ _ (by norm_num)]
  · dsimp only
    rw [stop]
    exact Memory.load_store _ _ _ (by norm_num)
  · intro grant isHeld place inside
    have apart := supplies.apart grant isHeld
    rw [Grant.Apart] at apart
    dsimp only [Grant.padded] at apart
    rw [Grant.Extends] at inside
    dsimp only
    rw [Memory.store_outside _ (by rw [stop]; simp only [Grant.padded] at inside; omega),
      Memory.store_outside _ (by simp only [Grant.padded] at inside; omega),
      supplies.same grant isHeld place inside]
  · intro index small
    dsimp only
    rw [Memory.store_outside _ (by rw [stop]; omega), Memory.store_outside _ (by omega)]

/-- Writing to what was made changes nothing else. -/
theorem Makes.write (makes : Makes ctx memory held new served) {bytes : List (BitVec 8)}
    (fits : bytes.length ≤ new.size) :
    Makes ctx memory held new
      { served with memory := served.memory.write served.pointer bytes } := by
  have long := new.size_le_padded
  have outside {place : ℤ} (apart : place < new.pointer ∨ new.pointer + new.padded ≤ place) :
      served.memory.write served.pointer bytes place = served.memory place := by
    apply Memory.write_outside
    rw [← makes.pointer]
    omega
  refine ⟨makes.pointer, makes.lists, makes.canaryValue, makes.apart, ?_, ?_⟩
  · constructor
    · exact (Memory.load_congr fun place lower upper => outside (.inl (by omega))).trans
        makes.fenced.1
    · exact (Memory.load_congr fun place lower upper => outside (.inr lower)).trans
        makes.fenced.2
  · intro grant isHeld place inside
    have apart := makes.apart grant isHeld
    rw [← makes.keeps grant isHeld place inside]
    rw [Grant.Extends] at inside
    rw [Grant.Apart] at apart
    exact outside (by omega)

/-! ## Calls -/

structure Invariant (run : Run) : Prop where
  lists : Lists run.ctx run.granted
  apart : run.granted.Pairwise Grant.Apart
  quiet : run.clean → ∀ grant ∈ run.granted, grant.Fenced run.ctx.canaryValue run.memory

/-- A call that makes something, with what is held meanwhile -/
def Op.Makes (run : Run) (op : Op) (served : Served) : Prop :=
  ∃ new, grantedAfter run.granted served.pointer op = heldBy run.granted op ++ [new] ∧
    CanaryAllocator.Makes run.ctx run.memory (heldBy run.granted op) new served

variable {run : Run} {op : Op}

theorem serve_malloc (invariant : Invariant run) (contract : Contract run (.malloc size supply ident)) :
    (allocatorMalloc size run.ctx supply ident = none ↔
      ∃ grant ∈ run.granted, ¬grant.Fenced run.ctx.canaryValue run.memory) ∧
    ∀ served, allocatorMalloc size run.ctx supply ident = some served →
      Makes run.ctx run.memory run.granted ⟨served.pointer, size, ident⟩ served := by
  constructor
  · rw [allocatorMalloc, newAllocation_eq_none_iff,
      isOverflow_supply invariant.lists.allocations contract]
    apply or_iff_right
    rintro ⟨first, isFirst, other⟩
    exact other (invariant.lists.firstFile first isFirst)
  · intro served fine
    have makes := (makes_of_newAllocation invariant.lists.allocations contract fine).1
    have pointer := makes.pointer
    dsimp only at pointer
    rw [← pointer]
    exact makes

/-- What is left on the list if an entry is taken off it -/
theorem eraseP_allocations (lists : Lists ctx granted) {original : ℤ} (held : original ≠ 0) :
    (ctx.allocations.eraseP fun allocation => allocation.beginCanary = original - 4) =
      (without original granted).map (Grant.allocation ctx.canaryValue) := by
  rw [lists.allocations, without, if_neg held, List.eraseP_map]
  congr 2
  funext grant
  simp [Grant.allocation]

theorem serve_realloc (invariant : Invariant run) {original : ℤ}
    (contract : Contract run (.realloc original size supply ident)) :
    (allocatorRealloc original size run.ctx run.memory supply ident = none ↔
      Alarm run (.realloc original size supply ident)) ∧
    ∀ served, allocatorRealloc original size run.ctx run.memory supply ident = some served →
      Makes run.ctx run.memory (without original run.granted) ⟨served.pointer, size, ident⟩
          served ∧
        (original ≠ 0 → ∀ index : ℕ, index < (size + 3) / 4 * 4 →
          served.memory (served.pointer + index) =
            supply.memory (supply.out + 4 + index)) := by
  rcases contract with ⟨isHeld, supplies⟩
  rw [allocatorRealloc]
  by_cases null : original = 0
  · have all : without original run.granted = run.granted := if_pos null
    rw [all] at supplies
    rw [if_pos null]
    rcases serve_malloc invariant supplies with ⟨alarm, makes⟩
    refine ⟨alarm.trans ?_, fun served fine => ⟨by rw [all]; exact makes served fine,
      fun held => absurd null held⟩⟩
    rw [Alarm, all]
    constructor
    · exact fun broken => .inr (.inl broken)
    · rintro (⟨held, -⟩ | broken | ⟨first, next, isFirst, isNext, differ⟩)
      · exact absurd null held
      · exact broken
      · rw [isFirst, Option.some.injEq] at isNext
        rw [isNext] at differ
        exact absurd rfl differ
  have erased := eraseP_allocations invariant.lists null
  have listed : (run.ctx.allocations.any fun allocation =>
      allocation.beginCanary = original - 4) = true := by
    rcases isHeld with isNull | ⟨grant, granted, rfl, -⟩
    · exact absurd isNull null
    · rw [invariant.lists.allocations, List.any_eq_true]
      exact ⟨_, List.mem_map_of_mem granted, by simp [Grant.allocation]⟩
  rw [if_neg null]
  dsimp only
  by_cases broken : run.memory.load (original - 4) 32 ≠ run.ctx.canaryValue
  · rw [if_pos broken]
    exact ⟨iff_of_true rfl (.inl ⟨null, broken⟩), fun served impossible => by cases impossible⟩
  rw [if_neg broken, if_pos listed]
  constructor
  · have front : ¬(original ≠ 0 ∧ run.memory.load (original - 4) 32 ≠ run.ctx.canaryValue) :=
      fun changed => broken changed.2
    rw [newAllocation_eq_none_iff, isOverflow_supply erased supplies, or_comm, Alarm,
      or_iff_right front]
    refine or_congr Iff.rfl ?_
    constructor
    · rintro ⟨next, isNext, differ⟩
      have granted : run.granted ≠ [] := by
        intro none
        rw [without, none, if_neg null] at isNext
        cases isNext
      rcases Option.isSome_iff_exists.mp (List.isSome_head?.mpr granted) with ⟨first, isFirst⟩
      refine ⟨first, next, isFirst, isNext, ?_⟩
      rw [← invariant.lists.firstFile first isFirst]
      exact differ
    · rintro ⟨first, next, isFirst, isNext, differ⟩
      refine ⟨next, isNext, ?_⟩
      dsimp only
      rw [invariant.lists.firstFile first isFirst]
      exact differ
  · intro served fine
    rcases makes_of_newAllocation erased supplies fine with ⟨makes, kept⟩
    have pointer := makes.pointer
    dsimp only at pointer
    rw [pointer] at makes
    exact ⟨⟨rfl, makes.lists, makes.canaryValue, makes.apart, makes.fenced, makes.keeps⟩,
      fun _ => kept⟩

/-- When a call aborts the program -/
theorem serve_eq_none_iff (invariant : Invariant run) (contract : Contract run op) :
    serve run op = none ↔ Alarm run op := by
  cases op with
  | malloc size supply ident => exact (serve_malloc invariant contract).1
  | calloc length count supply ident =>
      have small : length * count < 2 ^ 64 := by
        have small := contract.small
        omega
      rw [serve, allocatorCalloc, Nat.mod_eq_of_lt small, Option.map_eq_none_iff]
      exact (serve_malloc invariant contract).1
  | clone length toClone supply ident =>
      rw [serve, allocatorClone, Option.map_eq_none_iff]
      exact (serve_malloc invariant contract).1
  | realloc original size supply ident => exact (serve_realloc invariant contract).1
  | check =>
      rw [serve, check, Option.map_eq_none_iff]
      have overflow := @isOverflow_iff run.ctx run.memory _ invariant.lists.allocations
      rw [or_iff_right (by
        rintro ⟨first, isFirst, other⟩
        exact other (invariant.lists.firstFile first isFirst))] at overflow
      refine Iff.trans ?_ overflow
      split_ifs with broken
      · exact iff_of_true rfl broken
      · exact iff_of_false (by simp) broken
  | write address byte => exact iff_of_false (by simp [serve]) id

/-- What a call that does not abort the program comes to -/
theorem serve_cases (invariant : Invariant run) (contract : Contract run op)
    (fine : serve run op = some served) :
    op = .check ∧ served = ⟨0, run.ctx, run.memory⟩ ∨
      (∃ address byte, op = .write address byte ∧
        served = ⟨0, run.ctx, run.memory.store address byte⟩) ∨
      op.Makes run served := by
  cases op with
  | malloc size supply ident =>
      exact .inr (.inr ⟨_, rfl, (serve_malloc invariant contract).2 served fine⟩)
  | calloc length count supply ident =>
      have small : length * count < 2 ^ 64 := by
        have small := contract.small
        omega
      rw [serve, allocatorCalloc, Nat.mod_eq_of_lt small] at fine
      rcases Option.map_eq_some_iff.mp fine with ⟨before, made, rfl⟩
      have makes := (serve_malloc invariant contract).2 before made
      exact .inr (.inr ⟨_, rfl, makes.write (by rw [List.length_replicate])⟩)
  | clone length toClone supply ident =>
      rw [serve, allocatorClone] at fine
      rcases Option.map_eq_some_iff.mp fine with ⟨before, made, rfl⟩
      have makes := (serve_malloc invariant contract).2 before made
      exact .inr (.inr ⟨_, rfl, makes.write (by rw [Memory.length_read])⟩)
  | realloc original size supply ident =>
      exact .inr (.inr ⟨_, rfl, ((serve_realloc invariant contract).2 served fine).1⟩)
  | check =>
      rcases Option.map_eq_some_iff.mp fine with ⟨_, -, rfl⟩
      exact .inl ⟨rfl, rfl⟩
  | write address byte =>
      cases fine
      exact .inr (.inl ⟨address, byte, rfl, rfl⟩)

/-- What is held during a call was held before it. -/
theorem heldBy_sublist (granted : List Grant) (op : Op) :
    (heldBy granted op).Sublist granted := by
  cases op with
  | realloc original size supply ident =>
      rw [heldBy, without]
      split_ifs
      · exact List.Sublist.refl _
      · exact List.eraseP_sublist
  | _ => exact List.Sublist.refl _

theorem isInvariant : system.IsInvariant Contract Invariant where
  initial := by
    rintro ⟨ctx, memory, granted, clean⟩ ⟨⟨rand, made⟩, none, -⟩
    dsimp only at made none
    subst made none
    exact ⟨⟨rfl, by simp⟩, List.Pairwise.nil, by simp⟩
  step := by
    rintro before op after invariant contract ⟨served, fine, rfl⟩
    rcases serve_cases invariant contract fine with
      ⟨rfl, rfl⟩ | ⟨address, byte, rfl, rfl⟩ | ⟨new, granted, makes⟩
    · exact ⟨invariant.lists, invariant.apart, fun clean => invariant.quiet clean.1⟩
    · refine ⟨invariant.lists, invariant.apart, fun clean grant held => ?_⟩
      exact Grant.fenced_store (clean.2 grant held) (invariant.quiet clean.1 grant held)
    · have held := heldBy_sublist before.granted op
      refine ⟨?_, ?_, ?_⟩
      · rw [granted]
        exact makes.lists
      · rw [granted]
        exact List.pairwise_append.mpr ⟨invariant.apart.sublist held, List.pairwise_singleton _ _,
          fun grant isHeld other isNew => by
            rw [List.mem_singleton.mp isNew]
            exact makes.apart grant isHeld⟩
      · intro clean grant isHeld
        dsimp only at isHeld ⊢
        rw [makes.canaryValue]
        rw [granted, List.mem_append, List.mem_singleton] at isHeld
        rcases isHeld with isHeld | rfl
        · rw [Grant.fenced_congr (makes.keeps grant isHeld)]
          exact invariant.quiet clean.1 grant (held.subset isHeld)
        · exact makes.fenced

/-- An allocator is sound in every run: it sounds the alarm where a canary is broken and not
without, apart from what reallocation does not look at, and what it looks at too much. -/
theorem detects_of_reachable (reachable : system.Reachable Contract run) : Sound run := by
  have invariant := reachable.invariant isInvariant
  refine ⟨invariant.apart, fun op contract => serve_eq_none_iff invariant contract,
    invariant.quiet, ?_, ?_⟩
  · intro op served contract fine calls grant isHeld place inside
    rcases serve_cases invariant contract fine with
      ⟨rfl, rfl⟩ | ⟨address, byte, rfl, rfl⟩ | ⟨new, granted, makes⟩
    · rfl
    · exact absurd rfl (calls address byte)
    · exact makes.keeps grant isHeld place inside
  · intro original size supply ident served contract fine held
    rcases contract.1 with null | ⟨grant, granted, same, moved⟩
    · exact absurd null held
    · refine ⟨grant, granted, same, fun index small fits => ?_⟩
      have long := grant.size_le_padded
      rw [((serve_realloc invariant contract).2 served fine).2 held index (by omega)]
      exact moved index (by omega) (by omega)

/-! ## An alarm without an overflow -/

/-- An allocator, with nothing in memory -/
def unused : Run := ⟨CanaryAllocator.new none, fun _ => 0, [], True⟩

/-- The state after a call -/
def Run.after (run : Run) (op : Op) (served : Served) : Run :=
  ⟨served.ctx, served.memory, grantedAfter run.granted served.pointer op,
    run.clean ∧ op.Clean run.granted⟩

/-- An allocation made in one file -/
def firstCall : Op := .malloc 4 ⟨1000, fun _ => 0⟩ ⟨1, 10⟩

def firstServed : Served where
  pointer := 1004
  ctx := ⟨[⟨1, 10, 1000, 1008, 0xdc57b1a4⟩], 1, 0xdc57b1a4⟩
  memory := (Memory.store (fun _ => 0) 1000 (0xdc57b1a4 : BitVec 32)).store 1008
    (0xdc57b1a4 : BitVec 32)

/-- An allocation made in another one -/
def secondCall : Op := .malloc 4 ⟨2000, firstServed.memory⟩ ⟨2, 20⟩

def secondServed : Served where
  pointer := 2004
  ctx := ⟨[⟨1, 10, 1000, 1008, 0xdc57b1a4⟩, ⟨2, 20, 2000, 2008, 0xdc57b1a4⟩], 1, 0xdc57b1a4⟩
  memory := (firstServed.memory.store 2000 (0xdc57b1a4 : BitVec 32)).store 2008
    (0xdc57b1a4 : BitVec 32)

/-- Two allocations, with nothing written -/
def twoFiles : Run := (unused.after firstCall firstServed).after secondCall secondServed

theorem serve_first : serve unused firstCall = some firstServed := by
  simp [serve, allocatorMalloc, newAllocation, isOverflow, unused, CanaryAllocator.new, firstCall,
    firstServed, SIZE_INTS]

theorem serve_second : serve (unused.after firstCall firstServed) secondCall = some secondServed := by
  have calm : isOverflow firstServed.memory firstServed.ctx = false := by decide +kernel
  have made : serve (unused.after firstCall firstServed) secondCall =
      newAllocation firstServed.ctx ⟨2000, firstServed.memory⟩ (SIZE_INTS 4) ⟨2, 20⟩ := rfl
  rw [made, newAllocation, if_neg (Bool.eq_false_iff.mp calm)]
  simp [firstServed, secondServed, SIZE_INTS]

theorem reachable_twoFiles : system.Reachable Contract twoFiles := by
  refine .step (.step (.initial ⟨⟨none, rfl⟩, rfl, trivial⟩) ?_ ⟨firstServed, serve_first, rfl⟩) ?_
    ⟨secondServed, serve_second, rfl⟩
  · exact ⟨by norm_num, by simp [unused], by simp [unused]⟩
  · refine ⟨by norm_num, ?_, fun _ _ _ _ => rfl⟩
    intro grant held
    rw [List.mem_singleton.mp held]
    exact .inl (by decide)

/-- A larger place for the first allocation, with its bytes -/
def moveFirst : Op := .realloc 1004 100 ⟨3000, secondServed.memory⟩ ⟨1, 11⟩

theorem contract_moveFirst : Contract twoFiles moveFirst := by
  refine ⟨.inr ⟨⟨1004, 4, ⟨1, 10⟩⟩, List.mem_cons_self, rfl, ?_⟩, by norm_num, ?_,
    fun _ _ _ _ => rfl⟩
  · intro index small _
    change index < 4 at small
    interval_cases index <;> decide +kernel
  · intro grant held
    have same : grant = ⟨2004, 4, ⟨2, 20⟩⟩ := List.mem_singleton.mp held
    rw [same]
    exact .inl (by decide)

/-- The first allocation can not be moved although nothing has been overwritten. -/
theorem sound_of_two_files :
    Sound twoFiles ∧ twoFiles.clean ∧ serve twoFiles moveFirst = none := by
  have sound := detects_of_reachable reachable_twoFiles
  refine ⟨sound, ⟨⟨trivial, trivial⟩, trivial⟩, (sound.alarm _ contract_moveFirst).mpr ?_⟩
  exact .inr (.inr ⟨⟨1004, 4, ⟨1, 10⟩⟩, ⟨2004, 4, ⟨2, 20⟩⟩, rfl, rfl, by decide⟩)

end Cjdns.CanaryAllocator
