import Mathlib.Tactic

/-!
# Readers and writers of arrays

A writer fills a buffer from its start on. A write that does not fit fails and leaves the buffer
alone, and from then on every write fails.
-/

namespace Cjdns

/-- `struct ArrayWriter_context` -/
structure ArrayWriter where
  /-- The bytes between `beginPointer` and `endPointer` -/
  buffer : List (BitVec 8)
  /-- How far `pointer` is behind `beginPointer` -/
  bytesWritten : ℕ
  returnCode : ℤ
  inside : bytesWritten ≤ buffer.length

namespace ArrayWriter

/-- `ArrayWriter_new` -/
def new (writeToBuffer : List (BitVec 8)) : ArrayWriter where
  buffer := writeToBuffer
  bytesWritten := 0
  returnCode := 0
  inside := Nat.zero_le _

/-- `write` -/
def write (toWrite : List (BitVec 8)) (context : ArrayWriter) : ℤ × ArrayWriter :=
  if context.returnCode ≠ 0 then (context.returnCode, context)
  else if fits : context.bytesWritten + toWrite.length ≤ context.buffer.length then
    (0, { context with
      buffer := context.buffer.take context.bytesWritten ++ toWrite ++
        context.buffer.drop (context.bytesWritten + toWrite.length)
      bytesWritten := context.bytesWritten + toWrite.length
      inside := by
        have := context.inside
        simp only [List.length_append, List.length_take, List.length_drop]
        omega })
  else (-1, { context with returnCode := -1 })

/-- The bytes that were written -/
def contents (context : ArrayWriter) : List (BitVec 8) :=
  context.buffer.take context.bytesWritten

/-- One write behind the other, with their results left alone -/
def writeAll (pieces : List (List (BitVec 8))) (context : ArrayWriter) : ArrayWriter :=
  pieces.foldl (fun context toWrite => (context.write toWrite).2) context

variable {context : ArrayWriter} {toWrite : List (BitVec 8)}

@[simp]
theorem contents_new (writeToBuffer : List (BitVec 8)) : (new writeToBuffer).contents = [] := by
  simp [new, contents]

@[simp]
theorem length_contents (context : ArrayWriter) :
    context.contents.length = context.bytesWritten := by
  rw [contents, List.length_take, min_eq_left context.inside]

theorem contents_of_full (full : context.bytesWritten = context.buffer.length) :
    context.contents = context.buffer := by
  rw [contents, full, List.take_length]

theorem write_of_failed (failed : context.returnCode ≠ 0) :
    context.write toWrite = (context.returnCode, context) := by
  rw [write, if_pos failed]

theorem write_of_full (fine : context.returnCode = 0)
    (full : context.buffer.length < context.bytesWritten + toWrite.length) :
    context.write toWrite = (-1, { context with returnCode := -1 }) := by
  rw [write, if_neg (not_not.mpr fine), dif_neg (not_le.mpr full)]

/-- A write returns the code that it leaves. -/
theorem write_fst (context : ArrayWriter) (toWrite : List (BitVec 8)) :
    (context.write toWrite).1 = (context.write toWrite).2.returnCode := by
  rw [write]
  split_ifs with failed fits
  · rfl
  · exact (not_not.mp failed).symm
  · rfl

/-- What a write that fits does -/
theorem write_of_fits (fine : context.returnCode = 0)
    (fits : context.bytesWritten + toWrite.length ≤ context.buffer.length) :
    (context.write toWrite).1 = 0 ∧ (context.write toWrite).2.returnCode = 0 ∧
      (context.write toWrite).2.bytesWritten = context.bytesWritten + toWrite.length ∧
      (context.write toWrite).2.contents = context.contents ++ toWrite := by
  have inside := context.inside
  rw [write, if_neg (not_not.mpr fine), dif_pos fits]
  refine ⟨rfl, fine, rfl, ?_⟩
  simp only [contents]
  apply List.take_left'
  simp only [List.length_append, List.length_take]
  omega

@[simp]
theorem length_buffer_write (context : ArrayWriter) (toWrite : List (BitVec 8)) :
    (context.write toWrite).2.buffer.length = context.buffer.length := by
  have inside := context.inside
  rw [write]
  split_ifs with failed fits
  · rfl
  · simp only [List.length_append, List.length_take, List.length_drop]
    omega
  · rfl

/-- What was written stays. -/
theorem contents_prefix_write (context : ArrayWriter) (toWrite : List (BitVec 8)) :
    context.contents <+: (context.write toWrite).2.contents := by
  by_cases fine : context.returnCode = 0
  · by_cases fits : context.bytesWritten + toWrite.length ≤ context.buffer.length
    · rw [(write_of_fits fine fits).2.2.2]
      exact List.prefix_append _ _
    · rw [write_of_full fine (not_le.mp fits)]
      exact List.prefix_refl _
  · rw [write_of_failed fine]

/-! ## Many writes -/

@[simp]
theorem writeAll_nil (context : ArrayWriter) : context.writeAll [] = context :=
  rfl

@[simp]
theorem writeAll_cons (first : List (BitVec 8)) (rest : List (List (BitVec 8)))
    (context : ArrayWriter) :
    context.writeAll (first :: rest) = (context.write first).2.writeAll rest :=
  rfl

theorem writeAll_append (first second : List (List (BitVec 8))) (context : ArrayWriter) :
    context.writeAll (first ++ second) = (context.writeAll first).writeAll second := by
  rw [writeAll, List.foldl_append]
  rfl

@[simp]
theorem length_buffer_writeAll (pieces : List (List (BitVec 8))) (context : ArrayWriter) :
    (context.writeAll pieces).buffer.length = context.buffer.length := by
  induction pieces generalizing context with
  | nil => rfl
  | cons first rest ih => rw [writeAll_cons, ih, length_buffer_write]

theorem contents_prefix_writeAll (pieces : List (List (BitVec 8))) (context : ArrayWriter) :
    context.contents <+: (context.writeAll pieces).contents := by
  induction pieces generalizing context with
  | nil => exact List.prefix_refl _
  | cons first rest ih => exact (contents_prefix_write context first).trans (ih _)

theorem writeAll_of_failed (failed : context.returnCode ≠ 0) (pieces : List (List (BitVec 8))) :
    context.writeAll pieces = context := by
  induction pieces with
  | nil => rfl
  | cons first rest ih => rw [writeAll_cons, write_of_failed failed, ih]

/-- The writes all go well exactly when there is room for all of them. -/
theorem writeAll_fine_iff (fine : context.returnCode = 0) (pieces : List (List (BitVec 8))) :
    (context.writeAll pieces).returnCode = 0 ↔
      context.bytesWritten + pieces.flatten.length ≤ context.buffer.length := by
  induction pieces generalizing context with
  | nil => simpa [fine] using context.inside
  | cons first rest ih =>
      rw [writeAll_cons, List.flatten_cons, List.length_append]
      by_cases fits : context.bytesWritten + first.length ≤ context.buffer.length
      · rcases write_of_fits fine fits with ⟨-, still, far, -⟩
        rw [ih still, far, length_buffer_write, Nat.add_assoc]
      · rw [write_of_full fine (not_le.mp fits), writeAll_of_failed (by norm_num)]
        simp only [Int.reduceNeg, neg_eq_zero, one_ne_zero, false_iff]
        omega

theorem contents_writeAll_of_fits (fine : context.returnCode = 0)
    (pieces : List (List (BitVec 8)))
    (fits : context.bytesWritten + pieces.flatten.length ≤ context.buffer.length) :
    (context.writeAll pieces).contents = context.contents ++ pieces.flatten := by
  induction pieces generalizing context with
  | nil => simp
  | cons first rest ih =>
      rw [List.flatten_cons, List.length_append] at fits
      rcases @write_of_fits context first fine (by omega) with ⟨-, still, far, whole⟩
      rw [writeAll_cons, ih still (by rw [far, length_buffer_write]; omega), whole,
        List.flatten_cons, List.append_assoc]

/-- What is there in the end is what was to be written, or its front. -/
theorem contents_writeAll_prefix (pieces : List (List (BitVec 8))) (context : ArrayWriter) :
    (context.writeAll pieces).contents <+: context.contents ++ pieces.flatten := by
  induction pieces generalizing context with
  | nil => simp
  | cons first rest ih =>
      rw [writeAll_cons, List.flatten_cons]
      by_cases fine : context.returnCode = 0
      · by_cases fits : context.bytesWritten + first.length ≤ context.buffer.length
        · have written := ih (context.write first).2
          rwa [(write_of_fits fine fits).2.2.2, List.append_assoc] at written
        · rw [write_of_full fine (not_le.mp fits), writeAll_of_failed (by norm_num)]
          exact List.prefix_append _ _
      · rw [write_of_failed fine, writeAll_of_failed fine]
        exact List.prefix_append _ _

end ArrayWriter

/-- `read` of `ArrayReader.c`: the bytes and the rest, unless there are too few. Reading nothing
is a look at the next byte. -/
def ArrayReader.read (length : ℕ) (reader : List (BitVec 8)) :
    Option (List (BitVec 8) × List (BitVec 8)) :=
  if reader.length < length then none
  else if length = 0 then some (reader.take 1, reader)
  else some (reader.take length, reader.drop length)

end Cjdns
