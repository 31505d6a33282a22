import Cjdns.Library.Fuel
import Cjdns.Library.Memory
import Cjdns.Library.Transition

/-!
# The buffer allocator

`memory/BufferAllocator.c`: memory is handed out from the start of a buffer to its end, and a free
starts again at the start. The jobs that a free runs are a linked list in memory that the
allocator handed out to itself. The list is not emptied when the jobs were run, and the size that
`calloc` asks for is a product of words.
-/

namespace Cjdns.BufferAllocator

/-- `ALIGNMENT` -/
abbrev ALIGNMENT : ℕ := 8

/-- `sizeof(struct Job)` -/
abbrev jobSize : ℕ := 24

/-- `sizeof(struct BufferAllocator_context)` -/
abbrev contextSize : ℕ := 72

/-- `sizeof(struct Allocator)` -/
abbrev allocatorSize : ℕ := 72

/-- `struct BufferAllocator_context`, apart from what an error message is made of -/
structure Context where
  basePointer : BitVec 64
  pointer : BitVec 64
  endPointer : BitVec 64
  onFree : BitVec 64

/-- Why an allocation aborts the program -/
inductive Failure where
  | outOfMemory
  | offTheTop

/-- `AllocatorTools_getAligned`, for the size of a pointer -/
def getAligned (pointer : BitVec 64) : BitVec 64 :=
  pointer + BitVec.ofNat 64 ALIGNMENT - 1 &&& ~~~(BitVec.ofNat 64 ALIGNMENT - 1)

/-- `allocatorMalloc` -/
def allocatorMalloc (length : BitVec 64) (context : Context) :
    Except Failure (BitVec 64 × Context) :=
  let pointer := getAligned context.pointer
  let endOfAlloc := pointer + length
  if context.endPointer ≤ endOfAlloc then .error .outOfMemory
  else if endOfAlloc < context.pointer then .error .offTheTop
  else .ok (pointer, { context with pointer := endOfAlloc })

/-- `allocatorCalloc` -/
def allocatorCalloc (length count : BitVec 64) (context : Context) (memory : Memory) :
    Except Failure (BitVec 64 × Context × Memory) :=
  (allocatorMalloc (length * count) context).map fun (pointer, context) =>
    (pointer, context, memory.write pointer.toNat (List.replicate (length * count).toNat 0))

/-- `allocatorClone` -/
def allocatorClone (length toClone : BitVec 64) (context : Context) (memory : Memory) :
    Except Failure (BitVec 64 × Context × Memory) :=
  (allocatorMalloc length context).map fun (pointer, context) =>
    (pointer, context, memory.write pointer.toNat (memory.read toClone.toNat length.toNat))

/-- `allocatorRealloc` -/
def allocatorRealloc (original length : BitVec 64) (context : Context) (memory : Memory) :
    Except Failure (BitVec 64 × Context × Memory) :=
  if original = 0 then
    (allocatorMalloc length context).map fun (pointer, context) => (pointer, context, memory)
  else
    let amountToClone :=
      if length < context.pointer - original then length else context.pointer - original
    (allocatorMalloc length context).map fun (newAlloc, context) =>
      (newAlloc, context,
        memory.write newAlloc.toNat (memory.read original.toNat amountToClone.toNat))

/-- What a job calls -/
structure Call where
  callback : BitVec 64
  callbackContext : BitVec 64
deriving DecidableEq

/-- The call in the job at an address -/
def callAt (memory : Memory) (job : BitVec 64) : Call where
  callback := memory.load job.toNat 64
  callbackContext := memory.load (job.toNat + 8) 64

/-- The field `next` of the job at an address -/
def next (memory : Memory) (job : BitVec 64) : BitVec 64 :=
  memory.load (job.toNat + 16) 64

def setNext (memory : Memory) (job : BitVec 64) (value : BitVec 64) : Memory :=
  memory.store (job.toNat + 16) value

/-- The fields of a new job -/
def setCall (memory : Memory) (job : BitVec 64) (call : Call) : Memory :=
  (memory.store job.toNat call.callback).store (job.toNat + 8) call.callbackContext

/-- The loop of `freeAllocator`, where the callbacks have an effect on the memory -/
def runJobs (effect : Call → Memory → Memory) :
    ℕ → Memory → BitVec 64 → Option (List Call × Memory)
  | 0, _, _ => none
  | fuel + 1, memory, job =>
      if job = 0 then some ([], memory)
      else
        let call := callAt memory job
        let memory := effect call memory
        (runJobs effect fuel memory (next memory job)).map fun (calls, memory) =>
          (call :: calls, memory)

/-- The loop of `addOnFreeJob` -/
def lastJob (memory : Memory) : ℕ → BitVec 64 → Option (BitVec 64)
  | 0, _ => none
  | fuel + 1, job => if next memory job ≠ 0 then lastJob memory fuel (next memory job) else some job

/-- `addOnFreeJob` -/
def addOnFreeJob (fuel : ℕ) (call : Call) (context : Context) (memory : Memory) :
    Option (Except Failure (BitVec 64 × Context × Memory)) :=
  match allocatorCalloc (BitVec.ofNat 64 jobSize) 1 context memory with
  | .error failure => some (.error failure)
  | .ok (newJob, context, memory) =>
      let memory := setCall memory newJob call
      if context.onFree = 0 then some (.ok (newJob, { context with onFree := newJob }, memory))
      else (lastJob memory fuel context.onFree).map fun job =>
        .ok (newJob, context, setNext memory job newJob)

/-- `BufferAllocator_newWithIdentity`, where no allocator is a null pointer -/
def newWithIdentity (buffer length : BitVec 64) : Except Failure (Option Context) :=
  let context : Context :=
    { basePointer := getAligned buffer, pointer := getAligned buffer
      endPointer := buffer + length, onFree := 0 }
  if context.endPointer < context.pointer then .ok none
  else if length + buffer < context.pointer + BitVec.ofNat 64 contextSize then .ok none
  else
    (allocatorMalloc (BitVec.ofNat 64 allocatorSize)
      { context with pointer := context.pointer + BitVec.ofNat 64 contextSize }).map
        fun (_, context) => some { context with basePointer := context.pointer }

/-! ## Runs -/

/-- The calls of an allocator and of its children, and what their callers do in between: a child
is cloned from a compound literal, and callbacks write to memory. -/
inductive Op where
  | malloc (length : BitVec 64)
  | calloc (length count : BitVec 64)
  | clone (length toClone : BitVec 64)
  | realloc (original length : BitVec 64)
  | child (compound : BitVec 64)
  | onFree (call : Call)
  | free (effect : Call → Memory → Memory)
  | freeChild
  | write (address : BitVec 64) (byte : BitVec 8)

/-- What is returned, and which jobs were run -/
structure Answer where
  pointer : BitVec 64 := 0
  ran : List Call := []

/-- A call, unless there is too little fuel for its loop -/
def step (fuel : ℕ) (context : Context) (memory : Memory) :
    Op → Option (Except Failure (Answer × Context × Memory))
  | .malloc length => some ((allocatorMalloc length context).map fun (pointer, context) =>
      ({ pointer := pointer }, context, memory))
  | .calloc length count => some ((allocatorCalloc length count context memory).map
      fun (pointer, context, memory) => ({ pointer := pointer }, context, memory))
  | .clone length toClone => some ((allocatorClone length toClone context memory).map
      fun (pointer, context, memory) => ({ pointer := pointer }, context, memory))
  | .realloc original length => some ((allocatorRealloc original length context memory).map
      fun (pointer, context, memory) => ({ pointer := pointer }, context, memory))
  | .child compound =>
      some ((allocatorClone (BitVec.ofNat 64 allocatorSize) compound context memory).map
        fun (pointer, context, memory) => ({ pointer := pointer }, context, memory))
  | .onFree call => (addOnFreeJob fuel call context memory).map fun outcome =>
      outcome.map fun (pointer, context, memory) => ({ pointer := pointer }, context, memory)
  | .free effect => (runJobs effect fuel memory context.onFree).map fun (calls, memory) =>
      .ok ({ ran := calls }, { context with pointer := context.basePointer }, memory)
  | .freeChild => some (.ok ({}, context, memory))
  | .write address byte => some (.ok ({}, context, memory.write address.toNat [byte]))

/-- Memory that was handed out, with the size that was asked for -/
structure Region where
  start : BitVec 64
  size : ℕ
  /-- Whether the caller may write to it -/
  callers : Bool

/-- What happened since the last free: what was handed out, and the jobs that were registered -/
structure History where
  regions : List Region
  pending : List Call

/-- A history with something more handed out -/
def History.add (history : History) (start : BitVec 64) (size : ℕ) (callers : Bool) : History :=
  { history with regions := ⟨start, size, callers⟩ :: history.regions }

def History.after (history : History) (pointer : BitVec 64) : Op → History
  | .malloc length => history.add pointer length.toNat true
  | .calloc length count => history.add pointer (length.toNat * count.toNat) true
  | .clone length _ => history.add pointer length.toNat true
  | .realloc _ length => history.add pointer length.toNat true
  | .child _ => history.add pointer allocatorSize false
  | .onFree call =>
      { history.add pointer jobSize false with pending := history.pending ++ [call] }
  | .free _ => ⟨[], []⟩
  | .freeChild => history
  | .write _ _ => history

/-- An allocator and its history -/
structure Run where
  context : Context
  memory : Memory
  history : History

/-- The allocator of a buffer, with whatever is in memory -/
def system (buffer length : BitVec 64) : TransitionSystem Run Op where
  initial run := newWithIdentity buffer length = .ok (some run.context) ∧ run.history = ⟨[], []⟩
  step before op after := ∃ answer,
    Fuel.Settles (fun fuel => step fuel before.context before.memory op)
      (some (.ok (answer, after.context, after.memory))) ∧
      after.history = before.history.after answer.pointer op

/-! ## What is promised -/

def Region.Contains (region : Region) (place : ℤ) : Prop :=
  region.start.toNat ≤ place ∧ place < region.start.toNat + region.size

/-- Two regions have no byte in common. -/
def Region.Apart (first second : Region) : Prop :=
  first.start.toNat + first.size ≤ second.start.toNat ∨
    second.start.toNat + second.size ≤ first.start.toNat

/-- What a caller keeps to: it writes to its own memory, also in a callback, and gives back what
was handed out to it. -/
def Contract (run : Run) : Op → Prop
  | .realloc original _ =>
      original = 0 ∨ ∃ region ∈ run.history.regions, region.callers ∧ region.start = original
  | .write address _ =>
      ∃ region ∈ run.history.regions, region.callers ∧ region.Contains address.toNat
  | .free effect => ∀ call memory place,
      (∀ region ∈ run.history.regions, region.callers → ¬ region.Contains place) →
        effect call memory place = memory place
  | _ => True

/-- The regions since the last free -/
structure Safe (buffer length : BitVec 64) (run : Run) : Prop where
  aligned : ∀ region ∈ run.history.regions, ALIGNMENT ∣ region.start.toNat
  inside : ∀ region ∈ run.history.regions, buffer.toNat ≤ region.start.toNat ∧
    region.start.toNat + region.size ≤ buffer.toNat + length.toNat
  apart : run.history.regions.Pairwise Region.Apart
  context : ∀ region ∈ run.history.regions,
    region.Apart ⟨getAligned buffer, contextSize + allocatorSize, false⟩

/-- The jobs that are to be run -/
def due (run : Run) : Op → List Call
  | .free _ => run.history.pending
  | .freeChild => run.history.pending
  | _ => []

/-- What was in the memory is there after it was moved. -/
def Preserves (run : Run) (answer : Answer) (memory : Memory) : Op → Prop
  | .realloc original length => ∀ region ∈ run.history.regions, region.callers →
      region.start = original →
        memory.read answer.pointer.toNat (min region.size length.toNat) =
          run.memory.read original.toNat (min region.size length.toNat)
  | _ => True

/-- A call comes to an end, and does what it is to do unless there is no memory. -/
def Serves (run : Run) (op : Op) : Prop :=
  ∃ outcome, Fuel.Settles (fun fuel => step fuel run.context run.memory op) (some outcome) ∧
    ∀ answer context memory, outcome = .ok (answer, context, memory) →
      answer.ran = due run op ∧ Preserves run answer memory op

/-- What is promised for the runs whose steps meet a guard -/
def Keeps (guard : Run → Op → Prop) (buffer length : BitVec 64) (run : Run) : Prop :=
  Safe buffer length run ∧ ∀ op, guard run op → Serves run op

/-- How many bytes are skipped -/
def skipped (pointer : BitVec 64) : ℕ :=
  (getAligned pointer - pointer).toNat

/-- The sizes are no more than the words that are computed of them, no job is left on the list
from before the last free, and no child is freed while there are jobs. -/
def Sound (run : Run) : Op → Prop
  | .malloc length => skipped run.context.pointer + length.toNat < 2 ^ 64
  | .calloc length count =>
      skipped run.context.pointer + length.toNat * count.toNat < 2 ^ 64
  | .clone length _ => skipped run.context.pointer + length.toNat < 2 ^ 64
  | .realloc _ length => skipped run.context.pointer + length.toNat < 2 ^ 64
  | .onFree _ => run.history.pending = [] → run.context.onFree = 0
  | .free _ => run.history.pending = [] → run.context.onFree = 0
  | .freeChild => run.history.pending = []
  | .child _ => True
  | .write _ _ => True

end Cjdns.BufferAllocator
