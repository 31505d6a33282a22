import Cjdns.Memory.BufferAllocator

/-!
# The regions and the jobs of a buffer allocator

What is handed out since the last free lies in order between the allocator's own memory and its
pointer, and the list of jobs is in memory that was handed out to the allocator. So nothing that a
caller does changes the list, and a free runs the jobs that were registered since the last one.
-/

namespace Cjdns.BufferAllocator

/-! ## Allocating -/

theorem toNat_and_not_seven (word : BitVec 64) :
    (word &&& ~~~(7 : BitVec 64)).toNat = word.toNat / 8 * 8 := by
  have shifted : word &&& ~~~(7 : BitVec 64) = word >>> 3 <<< 3 := by
    apply BitVec.eq_of_getLsbD_eq
    intro index inside
    have low : (7 : BitVec 64).getLsbD index = decide (index < 3) := by
      rw [← BitVec.testBit_toNat]
      exact Nat.testBit_two_pow_sub_one 3 index
    rw [BitVec.getLsbD_and, BitVec.getLsbD_not, low, BitVec.getLsbD_shiftLeft,
      BitVec.getLsbD_ushiftRight]
    by_cases small : index < 3
    · simp [small]
    · rw [Nat.add_sub_cancel' (not_lt.mp small)]
      simp [small, inside]
  have := word.isLt
  rw [shifted, BitVec.toNat_shiftLeft, BitVec.toNat_ushiftRight, Nat.shiftLeft_eq,
    Nat.shiftRight_eq_div_pow, Nat.mod_eq_of_lt (by omega)]

theorem toNat_getAligned (pointer : BitVec 64) :
    (getAligned pointer).toNat = (pointer.toNat + 7) % 2 ^ 64 / 8 * 8 := by
  have seven : pointer + BitVec.ofNat 64 ALIGNMENT - 1 = pointer + 7 := by
    rw [BitVec.sub_eq_add_neg, BitVec.add_assoc]
    rfl
  have mask : ~~~(BitVec.ofNat 64 ALIGNMENT - 1) = ~~~(7 : BitVec 64) := rfl
  rw [getAligned, seven, mask, toNat_and_not_seven, BitVec.toNat_add]
  rfl

theorem dvd_getAligned (pointer : BitVec 64) : ALIGNMENT ∣ (getAligned pointer).toNat := by
  rw [toNat_getAligned]
  exact Dvd.intro_left _ rfl

/-- Skipping bytes leads to the aligned address, if it does not lead past all addresses. -/
theorem getAligned_eq_add {pointer : BitVec 64}
    (room : pointer.toNat + skipped pointer < 2 ^ 64) :
    (getAligned pointer).toNat = pointer.toNat + skipped pointer := by
  have := pointer.isLt
  have := (getAligned pointer).isLt
  rw [skipped, BitVec.toNat_sub] at room ⊢
  omega

theorem skipped_lt (pointer : BitVec 64) : skipped pointer < ALIGNMENT := by
  have := pointer.isLt
  rw [skipped, BitVec.toNat_sub, toNat_getAligned]
  change _ < 8
  omega

/-- What an allocation comes to -/
structure Allocated (length : BitVec 64) (context : Context) (pointer : BitVec 64)
    (after : Context) : Prop where
  lower : context.pointer.toNat ≤ pointer.toNat
  aligned : ALIGNMENT ∣ pointer.toNat
  upper : after.pointer.toNat = pointer.toNat + length.toNat
  below : after.pointer.toNat < context.endPointer.toNat
  same : after = { context with pointer := after.pointer }

theorem allocated_of_ok {length : BitVec 64} {context : Context} {pointer : BitVec 64}
    {after : Context} (fine : allocatorMalloc length context = .ok (pointer, after))
    (whole : skipped context.pointer + length.toNat < 2 ^ 64) :
    Allocated length context pointer after := by
  rw [allocatorMalloc] at fine
  split_ifs at fine with full low
  rw [Except.ok.injEq, Prod.mk.injEq] at fine
  rcases fine with ⟨rfl, rfl⟩
  rw [BitVec.le_def, not_le] at full
  rw [BitVec.lt_def, not_lt] at low
  have small := context.pointer.isLt
  have split : (getAligned context.pointer).toNat =
      (context.pointer.toNat + skipped context.pointer) % 2 ^ 64 := by
    have := (getAligned context.pointer).isLt
    rw [skipped, BitVec.toNat_sub]
    omega
  have sum : (getAligned context.pointer + length).toNat =
      (context.pointer.toNat + skipped context.pointer + length.toNat) % 2 ^ 64 := by
    rw [BitVec.toNat_add, split]
    omega
  -- an end that wraps is below the pointer
  have room : context.pointer.toNat + skipped context.pointer + length.toNat < 2 ^ 64 := by
    omega
  have start := @getAligned_eq_add context.pointer (by omega)
  refine ⟨by omega, dvd_getAligned _, ?_, full, rfl⟩
  rw [sum, Nat.mod_eq_of_lt room, start]

/-! ## The list of jobs -/

/-- A job and where it is -/
structure Node where
  place : BitVec 64
  call : Call

/-- The memory of a job -/
def Node.cell (node : Node) : Region := ⟨node.place, jobSize, false⟩

/-- The linked list at an address -/
def Linked (memory : Memory) : BitVec 64 → List Node → Prop
  | job, [] => job = 0
  | job, node :: nodes => job = node.place ∧ job ≠ 0 ∧ callAt memory job = node.call ∧
      Linked memory (next memory job) nodes

section Jobs

variable {memory after : Memory} {job : BitVec 64} {nodes : List Node}

theorem callAt_congr
    (same : ∀ place, Region.Contains ⟨job, jobSize, false⟩ place → after place = memory place) :
    callAt after job = callAt memory job := by
  have size : jobSize = 24 := rfl
  have first : after.load job.toNat 64 = memory.load job.toNat 64 :=
    Memory.load_congr fun place lower upper => same place ⟨lower, by
      change place < job.toNat + ((24 : ℕ) : ℤ)
      omega⟩
  have second : after.load (job.toNat + 8) 64 = memory.load (job.toNat + 8) 64 :=
    Memory.load_congr fun place lower upper => same place ⟨by
      change (job.toNat : ℤ) ≤ place
      omega, by
      change place < job.toNat + ((24 : ℕ) : ℤ)
      omega⟩
  rw [callAt, callAt, first, second]

theorem next_congr
    (same : ∀ place, Region.Contains ⟨job, jobSize, false⟩ place → after place = memory place) :
    next after job = next memory job :=
  Memory.load_congr fun place lower upper => same place ⟨by
    change (job.toNat : ℤ) ≤ place
    omega, by
    change place < job.toNat + ((24 : ℕ) : ℤ)
    omega⟩

theorem Linked.congr (linked : Linked memory job nodes)
    (same : ∀ node ∈ nodes, ∀ place, node.cell.Contains place → after place = memory place) :
    Linked after job nodes := by
  induction nodes generalizing job with
  | nil => exact linked
  | cons node nodes ih =>
      rcases linked with ⟨rfl, present, call, rest⟩
      have cell := same node List.mem_cons_self
      refine ⟨rfl, present, (callAt_congr cell).trans call, ?_⟩
      rw [next_congr cell]
      exact ih rest fun other inside => same other (List.mem_cons_of_mem _ inside)

/-- A free runs every job of the list. -/
theorem runJobs_eq {effect : Call → Memory → Memory} (linked : Linked memory job nodes)
    (keeps : ∀ call memory, ∀ node ∈ nodes, ∀ place, node.cell.Contains place →
      effect call memory place = memory place) :
    ∃ after, Fuel.Settles (fun fuel => runJobs effect fuel memory job)
      (some (nodes.map Node.call, after)) := by
  induction nodes generalizing job memory with
  | nil =>
      refine ⟨memory, Fuel.Settles.of_succ_eq fun fuel => ?_⟩
      have ends : job = 0 := linked
      rw [runJobs, if_pos ends]
      rfl
  | cons node nodes ih =>
      rcases linked with ⟨rfl, present, call, rest⟩
      have cell := keeps node.call memory node List.mem_cons_self
      have onward : Linked (effect node.call memory)
          (next (effect node.call memory) node.place) nodes := by
        rw [next_congr cell]
        exact rest.congr fun other inside =>
          keeps node.call memory other (List.mem_cons_of_mem _ inside)
      rcases ih onward (fun call memory other inside =>
        keeps call memory other (List.mem_cons_of_mem _ inside)) with ⟨after, settles⟩
      refine ⟨after, (settles.map (Option.map fun result =>
        (node.call :: result.1, result.2))).succ fun fuel => ?_⟩
      rw [runJobs, if_neg present]
      dsimp only
      rw [call]

theorem lastJob_eq {last : Node} (linked : Linked memory job (nodes ++ [last])) :
    Fuel.Settles (fun fuel => lastJob memory fuel job) (some last.place) := by
  induction nodes generalizing job with
  | nil =>
      rcases linked with ⟨rfl, -, -, rest⟩
      have ends : next memory last.place = 0 := rest
      refine Fuel.Settles.of_succ_eq fun fuel => ?_
      rw [lastJob, if_neg (not_not.mpr ends)]
  | cons node nodes ih =>
      rcases linked with ⟨rfl, -, -, rest⟩
      have present : next memory node.place ≠ 0 := by
        rcases nodes with _ | ⟨second, nodes⟩
        · exact rest.2.1
        · exact rest.2.1
      refine (ih rest).succ fun fuel => ?_
      rw [lastJob, if_pos present]

/-- A job is linked behind the last one. -/
theorem Linked.append {last new : Node} (linked : Linked memory job (nodes ++ [last]))
    (apart : ∀ node ∈ nodes, node.cell.Apart last.cell) (behind : last.cell.Apart new.cell)
    (present : new.place ≠ 0) (call : callAt memory new.place = new.call)
    (ends : next memory new.place = 0) :
    Linked (setNext memory last.place new.place) job (nodes ++ [last, new]) := by
  have elsewhere : ∀ {node : Node}, node.cell.Apart last.cell → ∀ place,
      node.cell.Contains place → setNext memory last.place new.place place = memory place := by
    intro node apart place contains
    have size : jobSize = 24 := rfl
    have inside : (node.place.toNat : ℤ) ≤ place ∧ place < node.place.toNat + (24 : ℕ) := contains
    have separate : node.place.toNat + 24 ≤ last.place.toNat ∨
        last.place.toNat + 24 ≤ node.place.toNat := apart
    exact Memory.store_outside _ (by omega)
  induction nodes generalizing job with
  | nil =>
      rcases linked with ⟨rfl, nonzero, same, -⟩
      have linkedTo : next (setNext memory last.place new.place) last.place = new.place := by
        rw [next, setNext, Memory.load_store _ _ _ (by norm_num)]
      have kept : callAt (setNext memory last.place new.place) last.place =
          callAt memory last.place := by
        rw [callAt, callAt, setNext, Memory.load_store_disjoint _ (.inl (by omega)),
          Memory.load_store_disjoint _ (.inl (by omega))]
      have cell := elsewhere (Or.symm behind)
      refine ⟨rfl, nonzero, kept.trans same, linkedTo, ?_, ?_, ?_⟩
      · rwa [linkedTo]
      · rw [linkedTo, ← call]
        exact callAt_congr cell
      · rw [linkedTo]
        exact (next_congr cell).trans ends
  | cons node nodes ih =>
      rcases linked with ⟨rfl, nonzero, same, rest⟩
      have cell := elsewhere (apart node List.mem_cons_self)
      refine ⟨rfl, nonzero, (callAt_congr cell).trans same, ?_⟩
      change Linked _ _ (nodes ++ [last, new])
      rw [next_congr cell]
      exact ih rest fun other inside => apart other (List.mem_cons_of_mem _ inside)

end Jobs

/-! ## The invariant -/

/-- The jobs of a list in memory that was handed out to the allocator -/
structure Listed (run : Run) (nodes : List Node) : Prop where
  linked : Linked run.memory run.context.onFree nodes
  calls : nodes.map Node.call = run.history.pending
  cells : ∀ node ∈ nodes, node.cell ∈ run.history.regions
  apart : nodes.Pairwise fun first second => first.cell.Apart second.cell

structure Invariant (buffer length : BitVec 64) (run : Run) : Prop where
  start : buffer.toNat ≤ (getAligned buffer).toNat
  base : (getAligned buffer).toNat + (contextSize + allocatorSize) ≤
    run.context.basePointer.toNat
  stop : run.context.endPointer.toNat = buffer.toNat + length.toNat
  above : run.context.basePointer.toNat ≤ run.context.pointer.toNat
  below : run.context.pointer.toNat < run.context.endPointer.toNat
  aligned : ∀ region ∈ run.history.regions, ALIGNMENT ∣ region.start.toNat
  lower : ∀ region ∈ run.history.regions,
    run.context.basePointer.toNat ≤ region.start.toNat
  upper : ∀ region ∈ run.history.regions,
    region.start.toNat + region.size ≤ run.context.pointer.toNat
  apart : run.history.regions.Pairwise Region.Apart
  jobs : run.history.pending = [] ∨ ∃ nodes, Listed run nodes

instance : Std.Symm Region.Apart := ⟨fun _ _ => Or.symm⟩

/-- The memory of a job is not memory of a caller. -/
theorem not_contains_of_apart {regions : List Region} (apart : regions.Pairwise Region.Apart)
    {cell : Region} (inside : cell ∈ regions) (own : cell.callers = false) {place : ℤ}
    (contains : cell.Contains place) :
    ∀ region ∈ regions, region.callers → ¬ region.Contains place := by
  intro region member callers contained
  have different : cell ≠ region := by
    rintro rfl
    rw [own] at callers
    exact absurd callers (by decide)
  have separate : cell.Apart region :=
    apart.forall inside member different
  have lower : (cell.start.toNat : ℤ) ≤ place ∧ place < cell.start.toNat + cell.size := contains
  have upper : (region.start.toNat : ℤ) ≤ place ∧ place < region.start.toNat + region.size :=
    contained
  rcases separate with before | before
  · omega
  · omega

namespace Invariant

variable {buffer length : BitVec 64} {run : Run}

theorem safe (invariant : Invariant buffer length run) : Safe buffer length run where
  aligned := invariant.aligned
  inside := by
    intro region inside
    have := invariant.start
    have := invariant.base
    have := invariant.stop
    have := invariant.below
    have := invariant.lower region inside
    have := invariant.upper region inside
    omega
  apart := invariant.apart
  context := by
    intro region inside
    have base := invariant.base
    have lower := invariant.lower region inside
    right
    change (getAligned buffer).toNat + (contextSize + allocatorSize) ≤ region.start.toNat
    omega

/-- The list of jobs, when nothing is left on it -/
theorem listed (invariant : Invariant buffer length run)
    (fresh : run.history.pending = [] → run.context.onFree = 0) : ∃ nodes, Listed run nodes := by
  rcases invariant.jobs with none | listed
  · exact ⟨[], fresh none, none.symm, by simp, List.Pairwise.nil⟩
  · exact listed

/-- Something is handed out. -/
theorem add (invariant : Invariant buffer length run) {size : BitVec 64} {pointer : BitVec 64}
    {context : Context} {memory : Memory}
    (allocated : Allocated size run.context pointer context) (callers : Bool) {asked : ℕ}
    (enough : asked ≤ size.toNat)
    (same : ∀ place : ℤ, place < run.context.pointer.toNat → memory place = run.memory place) :
    Invariant buffer length ⟨context, memory, run.history.add pointer asked callers⟩ := by
  have base : context.basePointer = run.context.basePointer := by rw [allocated.same]
  have stop : context.endPointer = run.context.endPointer := by rw [allocated.same]
  have onFree : context.onFree = run.context.onFree := by rw [allocated.same]
  have lower := allocated.lower
  have upper := allocated.upper
  have above := invariant.above
  refine ⟨invariant.start, ?_, ?_, ?_, ?_, ?_, ?_, ?_, ?_, ?_⟩
  · dsimp only
    rw [base]
    exact invariant.base
  · dsimp only
    rw [stop, invariant.stop]
  · dsimp only
    rw [base]
    omega
  · dsimp only
    rw [stop]
    exact allocated.below
  · intro region inside
    rcases List.mem_cons.mp inside with rfl | inside
    · exact allocated.aligned
    · exact invariant.aligned region inside
  · intro region inside
    dsimp only
    rw [base]
    rcases List.mem_cons.mp inside with rfl | inside
    · dsimp only
      omega
    · exact invariant.lower region inside
  · intro region inside
    dsimp only
    rcases List.mem_cons.mp inside with rfl | inside
    · dsimp only
      omega
    · have := invariant.upper region inside
      omega
  · refine List.pairwise_cons.mpr ⟨?_, invariant.apart⟩
    intro region inside
    have below := invariant.upper region inside
    right
    dsimp only
    omega
  · rcases invariant.jobs with none | ⟨nodes, listed⟩
    · exact .inl none
    · refine .inr ⟨nodes, ?_, listed.calls, fun node inside =>
        List.mem_cons_of_mem _ (listed.cells node inside), listed.apart⟩
      change Linked memory context.onFree nodes
      rw [onFree]
      refine listed.linked.congr fun node inside place contains => same place ?_
      have cell := invariant.upper node.cell (listed.cells node inside)
      have within : place < node.cell.start.toNat + node.cell.size := contains.2
      omega

/-- A caller writes to its own memory. -/
theorem write (invariant : Invariant buffer length run) {memory : Memory}
    (same : ∀ place, (∀ region ∈ run.history.regions, region.callers → ¬ region.Contains place) →
      memory place = run.memory place) :
    Invariant buffer length ⟨run.context, memory, run.history⟩ := by
  refine { invariant with jobs := ?_ }
  rcases invariant.jobs with none | ⟨nodes, listed⟩
  · exact .inl none
  · refine .inr ⟨nodes, ?_, listed.calls, listed.cells, listed.apart⟩
    refine listed.linked.congr fun node inside place contains => same place ?_
    exact not_contains_of_apart invariant.apart (listed.cells node inside) rfl contains

end Invariant

/-! ## The calls -/

/-- A call comes to an end, keeps the invariant and does what it is to do. -/
def Advances (buffer length : BitVec 64) (run : Run) (op : Op) : Prop :=
  ∃ outcome, Fuel.Settles (fun fuel => step fuel run.context run.memory op) (some outcome) ∧
    ∀ answer context memory, outcome = .ok (answer, context, memory) →
      Invariant buffer length ⟨context, memory, run.history.after answer.pointer op⟩ ∧
        answer.ran = due run op ∧ Preserves run answer memory op

section Calls

variable {buffer length : BitVec 64} {run : Run}

/-- A call that hands something out and then writes to it -/
theorem advances_of_alloc (invariant : Invariant buffer length run) {op : Op} {size : BitVec 64}
    (writes : BitVec 64 → Memory) {asked : ℕ} {callers : Bool}
    (steps : ∀ fuel, step fuel run.context run.memory op =
      some ((allocatorMalloc size run.context).map fun (pointer, context) =>
        ({ pointer := pointer }, context, writes pointer)))
    (whole : skipped run.context.pointer + size.toNat < 2 ^ 64)
    (after : ∀ pointer, run.history.after pointer op = run.history.add pointer asked callers)
    (enough : asked ≤ size.toNat) (none : due run op = [])
    (same : ∀ pointer, ∀ place : ℤ, place < pointer.toNat → writes pointer place = run.memory place)
    (preserves : ∀ pointer, run.context.pointer.toNat ≤ pointer.toNat →
      Preserves run { pointer := pointer } (writes pointer) op) :
    Advances buffer length run op := by
  refine ⟨_, Fuel.Settles.of_eq steps, ?_⟩
  intro answer context memory fine
  rcases allocates : allocatorMalloc size run.context with failure | ⟨pointer, later⟩
  · rw [allocates] at fine
    cases fine
  · rw [allocates] at fine
    change Except.ok _ = Except.ok _ at fine
    rw [Except.ok.injEq, Prod.mk.injEq, Prod.mk.injEq] at fine
    rcases fine with ⟨rfl, rfl, rfl⟩
    have allocated := allocated_of_ok allocates whole
    have lower := allocated.lower
    refine ⟨?_, none.symm, preserves pointer lower⟩
    rw [after]
    exact invariant.add allocated callers enough fun place below => same pointer place (by omega)

theorem advances_malloc (invariant : Invariant buffer length run) {size : BitVec 64}
    (sound : Sound run (.malloc size)) : Advances buffer length run (.malloc size) :=
  advances_of_alloc invariant (fun _ => run.memory) (fun _ => rfl) sound (fun _ => rfl)
    le_rfl rfl (fun _ _ _ => rfl) fun _ _ => trivial

theorem write_below {memory : Memory} {pointer : BitVec 64} {bytes : List (BitVec 8)} {place : ℤ}
    (below : place < pointer.toNat) : memory.write pointer.toNat bytes place = memory place :=
  Memory.write_outside _ (.inl below)

theorem advances_calloc (invariant : Invariant buffer length run) {size count : BitVec 64}
    (sound : Sound run (.calloc size count)) :
    Advances buffer length run (.calloc size count) := by
  have product : (size * count).toNat = size.toNat * count.toNat := by
    rw [BitVec.toNat_mul, Nat.mod_eq_of_lt]
    exact lt_of_le_of_lt (Nat.le_add_left _ _) sound
  refine advances_of_alloc invariant
    (fun pointer => run.memory.write pointer.toNat (List.replicate (size * count).toNat 0))
    (fun fuel => ?_) (?_ : skipped _ + (size * count).toNat < _) (fun _ => rfl) product.ge rfl
    (fun _ _ below => write_below below) fun _ _ => trivial
  · rw [step, allocatorCalloc]
    rcases allocatorMalloc (size * count) run.context with failure | ⟨pointer, context⟩
    · rfl
    · rfl
  · rw [product]
    exact sound

theorem map_allocatorClone (size toClone : BitVec 64) (context : Context) (memory : Memory) :
    (allocatorClone size toClone context memory).map
      (fun (pointer, context, memory) => (({ pointer := pointer } : Answer), context, memory)) =
    (allocatorMalloc size context).map fun (pointer, context) =>
      ({ pointer := pointer }, context,
        memory.write pointer.toNat (memory.read toClone.toNat size.toNat)) := by
  rw [allocatorClone]
  rcases allocatorMalloc size context with failure | ⟨pointer, context⟩
  · rfl
  · rfl

theorem advances_clone (invariant : Invariant buffer length run) {size toClone : BitVec 64}
    (sound : Sound run (.clone size toClone)) :
    Advances buffer length run (.clone size toClone) :=
  advances_of_alloc invariant
    (fun pointer => run.memory.write pointer.toNat (run.memory.read toClone.toNat size.toNat))
    (fun _ => congrArg some (map_allocatorClone _ _ _ _)) sound (fun _ => rfl) le_rfl rfl
    (fun _ _ below => write_below below) fun _ _ => trivial

theorem advances_child (invariant : Invariant buffer length run) (compound : BitVec 64) :
    Advances buffer length run (.child compound) := by
  have skips := skipped_lt run.context.pointer
  have size : (BitVec.ofNat 64 allocatorSize).toNat = 72 := rfl
  have eight : ALIGNMENT = 8 := rfl
  refine advances_of_alloc invariant (fun pointer => run.memory.write pointer.toNat
    (run.memory.read compound.toNat (BitVec.ofNat 64 allocatorSize).toNat))
    (fun _ => congrArg some (map_allocatorClone _ _ _ _)) ?_ (fun _ => rfl) le_rfl rfl
    (fun _ _ below => write_below below) fun _ _ => trivial
  omega

/-- What lies between an allocation and the pointer is no less than the allocation. -/
theorem advances_realloc (invariant : Invariant buffer length run) {original size : BitVec 64}
    (sound : Sound run (.realloc original size)) :
    Advances buffer length run (.realloc original size) := by
  by_cases null : original = 0
  · refine advances_of_alloc invariant (fun _ => run.memory) (fun fuel => ?_) sound (fun _ => rfl)
      le_rfl rfl (fun _ _ _ => rfl) fun pointer lower => ?_
    · rw [step, allocatorRealloc, if_pos null]
      rcases allocatorMalloc size run.context with failure | ⟨pointer, context⟩
      · rfl
      · rfl
    · -- nothing that was handed out is at the null pointer
      intro region inside _ start
      have above := invariant.lower region inside
      have base := invariant.base
      rw [start, null] at above
      change run.context.basePointer.toNat ≤ 0 at above
      change _ + 144 ≤ run.context.basePointer.toNat at base
      omega
  · let amount := if size < run.context.pointer - original then size
      else run.context.pointer - original
    refine advances_of_alloc invariant
      (fun pointer => run.memory.write pointer.toNat
        (run.memory.read original.toNat amount.toNat)) (fun fuel => ?_) sound (fun _ => rfl)
      le_rfl rfl (fun _ _ below => write_below below) fun pointer lower => ?_
    · rw [step, allocatorRealloc, if_neg null]
      rcases allocatorMalloc size run.context with failure | ⟨pointer, context⟩
      · rfl
      · rfl
    · intro region inside _ start
      have upper := invariant.upper region inside
      rw [start] at upper
      have between : (run.context.pointer - original).toNat =
          run.context.pointer.toNat - original.toNat := by
        have := run.context.pointer.isLt
        rw [BitVec.toNat_sub]
        omega
      have enough : min region.size size.toNat ≤ amount.toNat := by
        change _ ≤ (if size < _ then size else _ : BitVec 64).toNat
        split_ifs with less
        · exact min_le_right _ _
        · rw [between]
          exact le_trans (min_le_left _ _) (by omega)
      have written := Memory.read_write run.memory pointer.toNat
        (run.memory.read original.toNat amount.toNat)
      rw [Memory.length_read] at written
      dsimp only
      rw [← Memory.take_read _ _ enough, written, Memory.take_read _ _ enough]

theorem advances_write (invariant : Invariant buffer length run) {address : BitVec 64}
    {byte : BitVec 8} (contract : Contract run (.write address byte)) :
    Advances buffer length run (.write address byte) := by
  refine ⟨_, Fuel.Settles.of_eq fun _ => rfl, ?_⟩
  intro answer context memory fine
  rw [Except.ok.injEq, Prod.mk.injEq, Prod.mk.injEq] at fine
  rcases fine with ⟨rfl, rfl, rfl⟩
  refine ⟨invariant.write fun place outside => ?_, rfl, trivial⟩
  rcases contract with ⟨region, inside, callers, contains⟩
  have elsewhere : place ≠ address.toNat := by
    rintro rfl
    exact outside region inside callers contains
  refine Memory.write_outside _ ?_
  rw [List.length_singleton]
  omega

theorem advances_freeChild (invariant : Invariant buffer length run)
    (sound : Sound run .freeChild) : Advances buffer length run .freeChild := by
  refine ⟨_, Fuel.Settles.of_eq fun _ => rfl, ?_⟩
  intro answer context memory fine
  rw [Except.ok.injEq, Prod.mk.injEq, Prod.mk.injEq] at fine
  rcases fine with ⟨rfl, rfl, rfl⟩
  have none : run.history.pending = [] := sound
  exact ⟨invariant, none.symm, trivial⟩

theorem advances_free (invariant : Invariant buffer length run) {effect : Call → Memory → Memory}
    (contract : Contract run (.free effect)) (sound : Sound run (.free effect)) :
    Advances buffer length run (.free effect) := by
  rcases invariant.listed sound with ⟨nodes, listed⟩
  have keeps : ∀ call memory, ∀ node ∈ nodes, ∀ place, node.cell.Contains place →
      effect call memory place = memory place := by
    intro call memory node inside place contains
    exact contract call memory place
      (not_contains_of_apart invariant.apart (listed.cells node inside) rfl contains)
  rcases runJobs_eq listed.linked keeps with ⟨after, settles⟩
  let answered (result : List Call × Memory) : Except Failure (Answer × Context × Memory) :=
    .ok ({ ran := result.1 }, { run.context with pointer := run.context.basePointer }, result.2)
  refine ⟨answered (nodes.map Node.call, after), settles.map (Option.map answered), ?_⟩
  intro answer context memory fine
  rw [Except.ok.injEq, Prod.mk.injEq, Prod.mk.injEq] at fine
  rcases fine with ⟨rfl, rfl, rfl⟩
  refine ⟨⟨invariant.start, invariant.base, invariant.stop, le_rfl, ?_, ?_, ?_, ?_,
    List.Pairwise.nil, .inl rfl⟩, listed.calls, trivial⟩
  · exact lt_of_le_of_lt invariant.above invariant.below
  · intro region inside
    cases inside
  · intro region inside
    cases inside
  · intro region inside
    cases inside

/-- The memory with a new job -/
def withJob (memory : Memory) (pointer : BitVec 64) (call : Call) : Memory :=
  setCall (memory.write pointer.toNat (List.replicate jobSize 0)) pointer call

theorem callAt_withJob (memory : Memory) (pointer : BitVec 64) (call : Call) :
    callAt (withJob memory pointer call) pointer = call := by
  rw [callAt, withJob, setCall, Memory.load_store_disjoint _ (.inl (by omega)),
    Memory.load_store _ _ _ (by norm_num), Memory.load_store _ _ _ (by norm_num)]

theorem next_withJob (memory : Memory) (pointer : BitVec 64) (call : Call) :
    next (withJob memory pointer call) pointer = 0 := by
  rw [next, withJob, setCall, Memory.load_store_disjoint _ (.inr (by omega)),
    Memory.load_store_disjoint _ (.inr (by omega))]
  refine (Memory.load_congr fun place lower upper => ?_).trans (Memory.load_zero _)
  have inside : (place - pointer.toNat).toNat < jobSize := by
    change _ < 24
    omega
  rw [Memory.write, if_pos (by omega), List.getElem?_replicate_of_lt inside]
  rfl

theorem withJob_below {memory : Memory} {pointer : BitVec 64} {call : Call} {place : ℤ}
    (below : place < pointer.toNat) : withJob memory pointer call place = memory place := by
  rw [withJob, setCall, Memory.store_outside _ (.inl (by omega)),
    Memory.store_outside _ (.inl below), write_below below]

/-- A job behind the jobs of a list -/
theorem listed_append {nodes : List Node} (listed : Listed run nodes)
    (invariant : Invariant buffer length run) {pointer : BitVec 64} {call : Call}
    {context : Context} {memory : Memory} (above : run.context.pointer.toNat ≤ pointer.toNat)
    (linked : Linked memory context.onFree (nodes ++ [⟨pointer, call⟩])) :
    Listed ⟨context, memory, run.history.after pointer (.onFree call)⟩
      (nodes ++ [⟨pointer, call⟩]) where
  linked := linked
  calls := by
    rw [List.map_append, listed.calls]
    rfl
  cells := by
    intro node inside
    rcases List.mem_append.mp inside with inside | inside
    · exact List.mem_cons_of_mem _ (listed.cells node inside)
    · rw [List.mem_singleton.mp inside]
      exact List.mem_cons_self
  apart := by
    refine List.pairwise_append.mpr ⟨listed.apart, List.pairwise_singleton _ _, ?_⟩
    intro node inside new new_mem
    rw [List.mem_singleton.mp new_mem]
    have upper := invariant.upper node.cell (listed.cells node inside)
    left
    change _ ≤ pointer.toNat
    omega

theorem advances_onFree (invariant : Invariant buffer length run) {call : Call}
    (sound : Sound run (.onFree call)) : Advances buffer length run (.onFree call) := by
  rcases invariant.listed sound with ⟨nodes, listed⟩
  have product : BitVec.ofNat 64 jobSize * 1 = 24 := rfl
  have size : (24 : BitVec 64).toNat = jobSize := rfl
  rcases allocates : allocatorMalloc 24 run.context with failure | ⟨pointer, context⟩
  · refine ⟨.error failure, Fuel.Settles.of_eq fun fuel => ?_, ?_⟩
    · rw [step, addOnFreeJob, allocatorCalloc, product, allocates]
      rfl
    · intro answer context memory fine
      cases fine
  have skips := skipped_lt run.context.pointer
  have allocated := allocated_of_ok allocates (by
    change _ < 8 at skips
    change _ + 24 < _
    omega)
  have above := allocated.lower
  have onFree : context.onFree = run.context.onFree := by rw [allocated.same]
  have added := invariant.add allocated false size.ge fun place below =>
    @withJob_below run.memory pointer call place (by omega)
  have first : ∀ fuel, step fuel run.context run.memory (.onFree call) =
      if context.onFree = 0 then some (.ok ({ pointer := pointer },
        { context with onFree := pointer }, withJob run.memory pointer call))
      else (lastJob (withJob run.memory pointer call) fuel context.onFree).map fun job =>
        .ok ({ pointer := pointer }, context,
          setNext (withJob run.memory pointer call) job pointer) := by
    intro fuel
    rw [step, addOnFreeJob, allocatorCalloc, product, allocates]
    change Option.map _ (if context.onFree = 0 then _ else _) = _
    by_cases empty : context.onFree = 0
    · rw [if_pos empty, if_pos empty]
      rfl
    · rw [if_neg empty, if_neg empty, Option.map_map]
      rfl
  have present : pointer ≠ 0 := by
    rintro rfl
    have base := invariant.base
    have lower := invariant.above
    change _ + 144 ≤ run.context.basePointer.toNat at base
    change _ ≤ 0 at above
    omega
  rcases List.eq_nil_or_concat' nodes with rfl | ⟨front, last, rfl⟩
  · have empty : context.onFree = 0 := onFree.trans listed.linked
    refine ⟨.ok ({ pointer := pointer }, { context with onFree := pointer },
      withJob run.memory pointer call), Fuel.Settles.of_eq fun fuel => ?_, ?_⟩
    · rw [first, if_pos empty]
    · intro answer later memory fine
      rw [Except.ok.injEq, Prod.mk.injEq, Prod.mk.injEq] at fine
      rcases fine with ⟨rfl, rfl, rfl⟩
      refine ⟨{ added with jobs := .inr ⟨[⟨pointer, call⟩], ?_⟩ }, rfl, trivial⟩
      exact listed_append listed invariant above
        ⟨rfl, present, callAt_withJob _ _ _, next_withJob _ _ _⟩
  · have kept : Linked (withJob run.memory pointer call) context.onFree (front ++ [last]) := by
      rw [onFree]
      refine listed.linked.congr fun node inside place contains => withJob_below ?_
      have cell := invariant.upper node.cell (listed.cells node inside)
      have within : place < node.cell.start.toNat + node.cell.size := contains.2
      omega
    have filled : context.onFree ≠ 0 := by
      intro empty
      rcases front with _ | ⟨node, front⟩
      · exact kept.2.1 empty
      · exact kept.2.1 empty
    let answered (job : BitVec 64) : Except Failure (Answer × Context × Memory) :=
      .ok ({ pointer := pointer }, context, setNext (withJob run.memory pointer call) job pointer)
    refine ⟨answered last.place, ?_, ?_⟩
    · have linkedLast := (lastJob_eq kept).map (Option.map answered)
      rwa [← funext fun fuel => (first fuel).trans (if_neg filled)] at linkedLast
    · intro answer later memory fine
      rw [Except.ok.injEq, Prod.mk.injEq, Prod.mk.injEq] at fine
      rcases fine with ⟨rfl, rfl, rfl⟩
      refine ⟨{ added with jobs := .inr ⟨front ++ [last] ++ [⟨pointer, call⟩], ?_⟩ }, rfl, trivial⟩
      refine listed_append listed invariant above ?_
      rw [List.append_assoc]
      have upper := invariant.upper last.cell (listed.cells last (by simp))
      refine @Linked.append _ _ _ _ ⟨pointer, call⟩ kept ?_ (.inl ?_) present
        (callAt_withJob _ _ _) (next_withJob _ _ _)
      · exact fun node inside => (List.pairwise_append.mp listed.apart).2.2 node inside last
          (List.mem_singleton_self _)
      · change _ ≤ pointer.toNat
        omega

theorem advances (invariant : Invariant buffer length run) {op : Op} (contract : Contract run op)
    (sound : Sound run op) : Advances buffer length run op := by
  cases op with
  | malloc size => exact advances_malloc invariant sound
  | calloc size count => exact advances_calloc invariant sound
  | clone size toClone => exact advances_clone invariant sound
  | realloc original size => exact advances_realloc invariant sound
  | child compound => exact advances_child invariant compound
  | onFree call => exact advances_onFree invariant sound
  | free effect => exact advances_free invariant contract sound
  | freeChild => exact advances_freeChild invariant sound
  | write address byte => exact advances_write invariant contract

end Calls

/-! ## Runs -/

section Runs

variable {buffer length : BitVec 64}

/-- A new allocator lies in its buffer, unless it is at the end of all addresses. -/
theorem invariant_of_initial (whole : buffer.toNat + length.toNat < 2 ^ 64)
    (low : buffer.toNat + skipped buffer + contextSize < 2 ^ 64) {run : Run}
    (starts : (system buffer length).initial run) : Invariant buffer length run := by
  have size : contextSize = 72 := rfl
  have start := @getAligned_eq_add buffer (by omega)
  have stop : (buffer + length).toNat = buffer.toNat + length.toNat := by
    rw [BitVec.toNat_add, Nat.mod_eq_of_lt whole]
  have first : (getAligned buffer + BitVec.ofNat 64 contextSize).toNat =
      (getAligned buffer).toNat + contextSize := by
    rw [BitVec.toNat_add, BitVec.toNat_ofNat]
    omega
  rcases starts with ⟨fine, history⟩
  rw [newWithIdentity] at fine
  split_ifs at fine with reversed short
  · cases Except.ok.inj fine
  · cases Except.ok.inj fine
  · rcases allocates : allocatorMalloc (BitVec.ofNat 64 allocatorSize)
      { basePointer := getAligned buffer
        pointer := getAligned buffer + BitVec.ofNat 64 contextSize
        endPointer := buffer + length, onFree := 0 } with failure | ⟨pointer, context⟩
    · rw [allocates] at fine
      cases fine
    · rw [allocates] at fine
      have same : { context with basePointer := context.pointer } = run.context :=
        Option.some.inj (Except.ok.inj fine)
      have skips := skipped_lt (getAligned buffer + BitVec.ofNat 64 contextSize)
      have allocated := allocated_of_ok allocates (by
        change _ < 8 at skips
        change _ + 72 < _
        dsimp only
        omega)
      have lower := allocated.lower
      have upper := allocated.upper
      have below := allocated.below
      have ends : context.endPointer = buffer + length := by rw [allocated.same]
      change context.pointer.toNat = pointer.toNat + 72 at upper
      change (getAligned buffer + BitVec.ofNat 64 contextSize).toNat ≤ _ at lower
      have base : (getAligned buffer).toNat + (contextSize + allocatorSize) ≤
          context.pointer.toNat := by
        change _ + (_ + 72) ≤ _
        omega
      refine ⟨by omega, ?_, ?_, ?_, ?_, ?_, ?_, ?_, ?_, .inl ?_⟩
      · rw [← same]
        exact base
      · rw [← same, ← stop, ← ends]
      · rw [← same]
      · rw [← same]
        dsimp only
        rw [ends]
        exact below
      all_goals rw [history]
      · intro region inside
        cases inside
      · intro region inside
        cases inside
      · intro region inside
        cases inside
      · exact List.Pairwise.nil

theorem isInvariant (whole : buffer.toNat + length.toNat < 2 ^ 64)
    (low : buffer.toNat + skipped buffer + contextSize < 2 ^ 64) :
    (system buffer length).IsInvariant (fun run op => Contract run op ∧ Sound run op)
      (Invariant buffer length) where
  initial := invariant_of_initial whole low
  step := by
    intro before op after invariant met taken
    rcases taken with ⟨answer, settles, history⟩
    rcases advances invariant met.1 met.2 with ⟨outcome, settled, right⟩
    have same := Option.some.inj (settled.unique settles)
    have kept := (right _ _ _ same).1
    rwa [← history] at kept

/-- Every run whose sizes are what was asked for, with one free for the jobs that it runs -/
theorem keeps_of_reachable (whole : buffer.toNat + length.toNat < 2 ^ 64)
    (low : buffer.toNat + skipped buffer + contextSize < 2 ^ 64) {run : Run}
    (reachable : (system buffer length).Reachable (fun run op => Contract run op ∧ Sound run op)
      run) : Keeps (fun run op => Contract run op ∧ Sound run op) buffer length run := by
  have invariant := reachable.invariant (isInvariant whole low)
  refine ⟨invariant.safe, ?_⟩
  intro op met
  rcases advances invariant met.1 met.2 with ⟨outcome, settles, right⟩
  exact ⟨outcome, settles, fun answer context memory fine => (right _ _ _ fine).2⟩

end Runs

/-! ## A job that is run twice -/

/-- A kilobyte for an allocator -/
def unused : Run where
  context := { basePointer := 4240, pointer := 4240, endPointer := 5120, onFree := 0 }
  memory := fun _ => 0
  history := ⟨[], []⟩

/-- A job is registered. -/
def registered (call : Call) : Run where
  context := { basePointer := 4240, pointer := 4264, endPointer := 5120, onFree := 4240 }
  memory := withJob (fun _ => 0) 4240 call
  history := ⟨[⟨4240, jobSize, false⟩], [call]⟩

/-- The job was run. -/
def freed (call : Call) : Run where
  context := { basePointer := 4240, pointer := 4240, endPointer := 5120, onFree := 4240 }
  memory := withJob (fun _ => 0) 4240 call
  history := ⟨[], []⟩

theorem unused_initial : (system 4096 1024).initial unused :=
  ⟨rfl, rfl⟩

theorem step_registered (call : Call) :
    (system 4096 1024).step unused (.onFree call) (registered call) :=
  ⟨{ pointer := 4240 }, Fuel.Settles.of_eq fun _ => rfl, rfl⟩

theorem keeps_registered_job :
    Keeps (fun run op => Contract run op ∧ Sound run op) 4096 1024 (registered ⟨1, 2⟩) := by
  have met : Contract unused (.onFree ⟨1, 2⟩) ∧ Sound unused (.onFree ⟨1, 2⟩) :=
    ⟨trivial, fun _ => rfl⟩
  exact keeps_of_reachable (by decide) (by decide)
    (.step (.initial unused_initial) met (step_registered ⟨1, 2⟩))

/-- The list has the job on it, also when it was run. -/
theorem runJobs_registered (call : Call) : Fuel.Settles
    (fun fuel => runJobs (fun _ memory => memory) fuel (withJob (fun _ => 0) 4240 call) 4240)
    (some ([call], withJob (fun _ => 0) 4240 call)) := by
  have ends : Fuel.Settles
      (fun fuel => runJobs (fun _ memory => memory) fuel (withJob (fun _ => 0) 4240 call) 0)
      (some ([], withJob (fun _ => 0) 4240 call)) :=
    Fuel.Settles.of_succ_eq fun fuel => by rw [runJobs, if_pos rfl]
  refine (ends.map (Option.map fun result => (call :: result.1, result.2))).succ fun fuel => ?_
  rw [runJobs, if_neg (by decide)]
  dsimp only
  rw [callAt_withJob, next_withJob]

theorem step_freed {run : Run} (call : Call) (jobs : run.context.onFree = 4240)
    (memory : run.memory = withJob (fun _ => 0) 4240 call) : Fuel.Settles
      (fun fuel => step fuel run.context run.memory (.free fun _ memory => memory))
      (some (.ok ({ ran := [call] }, { run.context with pointer := run.context.basePointer },
        run.memory))) := by
  let answered (result : List Call × Memory) : Except Failure (Answer × Context × Memory) :=
    .ok ({ ran := result.1 }, { run.context with pointer := run.context.basePointer }, result.2)
  have runs := (runJobs_registered call).map (Option.map answered)
  rw [← memory, ← jobs] at runs
  exact runs

/-- A second free runs the job again. -/
theorem freed_job_runs_again : ¬ ∀ buffer length : BitVec 64,
    buffer.toNat + length.toNat < 2 ^ 64 → ∀ run,
      (system buffer length).Reachable Contract run → Keeps Contract buffer length run := by
  intro all
  have contract : Contract unused (.onFree ⟨1, 2⟩) := trivial
  have later : Contract (registered ⟨1, 2⟩) (.free fun _ memory => memory) := fun _ _ _ _ => rfl
  have reachable : (system 4096 1024).Reachable Contract (freed ⟨1, 2⟩) :=
    .step (.step (.initial unused_initial) contract (step_registered ⟨1, 2⟩)) later
      ⟨_, step_freed ⟨1, 2⟩ rfl rfl, rfl⟩
  rcases (all 4096 1024 (by decide) _ reachable).2 (.free fun _ memory => memory)
    (fun _ _ _ _ => rfl) with ⟨outcome, settles, right⟩
  have same := Option.some.inj (settles.unique (step_freed ⟨1, 2⟩ rfl rfl))
  have ran := (right _ _ _ same).1
  exact absurd ran (by decide)

end Cjdns.BufferAllocator
