import Cjdns.Benc.StandardBencSerializer
import Cjdns.Memory.BlockSizes

/-!
# Sizes of strings near the end of the word

`parseString` takes a size of up to 21 digits, which `strtoul` brings down to `ULONG_MAX`.
It allocates one byte more and writes the terminator before it reads, and only then does
the reader compare the size with what is left. The reader is right for all sizes
(`read_eq_none_iff`). The allocation is not: the largest size wraps to an allocation of no
bytes, and for the sizes below it a sum inside the allocator wraps, which then returns a
pointer without a block (`safe_iff`).
-/

namespace Cjdns.StringLength

open Decimal StandardBencSerializer BlockSizes

/-- `struct ArrayReader_context`, with the bytes from the pointer to the end and the one there -/
structure ArrayReader (host : Host) where
  pointer : BitVec host.width
  endPointer : BitVec host.width
  bytes : BString
  behind : BitVec 8
  length_bytes : bytes.length = endPointer.toNat - pointer.toNat

namespace ArrayReader

variable {host : Host}

/-- The check at the front of `read`, in the arithmetic of pointers -/
def runsOff (length : BitVec host.width) (reader : ArrayReader host) : Prop :=
  reader.pointer + length > reader.endPointer ∨ reader.pointer + length < reader.pointer

instance (length : BitVec host.width) (reader : ArrayReader host) :
    Decidable (reader.runsOff length) :=
  inferInstanceAs (Decidable (_ ∨ _))

/-- What passes the check is left in the buffer. -/
theorem not_runsOff_iff {length : BitVec host.width} {reader : ArrayReader host} :
    ¬reader.runsOff length ↔
      reader.pointer.toNat + length.toNat ≤ reader.endPointer.toNat := by
  have one := reader.pointer.isLt
  have two := length.isLt
  have three := reader.endPointer.isLt
  rw [runsOff, not_or, gt_iff_lt, BitVec.not_lt, BitVec.not_lt, BitVec.le_def, BitVec.le_def,
    BitVec.toNat_add]
  generalize 2 ^ host.width = bound at one two three ⊢
  by_cases wraps : reader.pointer.toNat + length.toNat < bound
  · rw [Nat.mod_eq_of_lt wraps]
    omega
  · rw [Nat.mod_eq_sub_mod (by omega), Nat.mod_eq_of_lt (by omega)]
    omega

/-- `read`, with what it writes; for the length 0 it is the next byte. -/
def read (length : BitVec host.width) (reader : ArrayReader host) :
    Option (BString × ArrayReader host) :=
  if passes : reader.runsOff length then none
  else if length = 0 then some ([reader.bytes.headD reader.behind], reader)
  else some (reader.bytes.take length.toNat,
    { reader with
      pointer := reader.pointer + length
      bytes := reader.bytes.drop length.toNat
      length_bytes := by
        have inside := not_runsOff_iff.mp passes
        have bound := reader.endPointer.isLt
        rw [List.length_drop, reader.length_bytes, BitVec.toNat_add,
          Nat.mod_eq_of_lt (by omega)]
        omega })

theorem read_eq_none_iff {length : BitVec host.width} {reader : ArrayReader host} :
    reader.read length = none ↔
      reader.endPointer.toNat < reader.pointer.toNat + length.toNat := by
  have check := @not_runsOff_iff host length reader
  rw [read]
  by_cases off : reader.runsOff length
  · rw [dif_pos off]
    exact iff_of_true rfl (not_le.mp fun inside => check.mpr inside off)
  · rw [dif_neg off]
    refine iff_of_false ?_ (not_lt.mpr (check.mp off))
    by_cases zero : length = 0
    · rw [if_pos zero]
      exact Option.some_ne_none _
    · rw [if_neg zero]
      exact Option.some_ne_none _

/-- One byte of a buffer that has one -/
theorem read_one_of_cons {reader : ArrayReader host} {first : BitVec 8} {rest : BString}
    (bytes : reader.bytes = first :: rest) :
    ∃ after, reader.read 1 = some ([first], after) ∧ after.bytes = rest := by
  have length := reader.length_bytes
  rw [bytes, List.length_cons] at length
  have inside : ¬reader.runsOff 1 := by
    rw [not_runsOff_iff, host.toNat_one]
    omega
  rw [read, dif_neg inside, if_neg host.one_ne_zero]
  refine ⟨_, congrArg some (Prod.ext ?_ rfl), ?_⟩
  · change reader.bytes.take (1 : BitVec host.width).toNat = [first]
    rw [bytes, host.toNat_one]
    rfl
  · simp only [bytes, host.toNat_one, List.drop_one, List.tail_cons]

theorem read_one_of_nil {reader : ArrayReader host} (bytes : reader.bytes = []) :
    reader.read 1 = none := by
  have length := reader.length_bytes
  rw [bytes, List.length_nil] at length
  rw [read_eq_none_iff, host.toNat_one]
  omega

/-! ## Parsing a string -/

/-- The loop of `parseString`, with the turns that are left before the number is too long -/
def sizeLoop : ℕ → BString → ArrayReader host → Except Failure (BString × ArrayReader host)
  | turns, number, reader =>
      match reader.read 1 with
      | none => .error .OUT_OF_CONTENT_TO_READ
      | some (read, reader) =>
          let nextChar := read.headD 0
          if nextChar = COLON then .ok (number, reader)
          else if isDigit nextChar = false then .error .UNPARSABLE
          else
            match turns with
            | 0 => .error .UNPARSABLE
            | turns + 1 => sizeLoop turns (number ++ [nextChar]) reader

/-- `strtoul`, for a text of digits -/
def strtoul (host : Host) (number : BString) : BitVec host.width :=
  BitVec.ofNat host.width (min (value number) (2 ^ host.width - 1))

/-- What `parseString` does behind the colon -/
structure StringRead (host : Host) where
  /-- The number in front of the colon -/
  number : BString
  /-- What is left in the reader -/
  left : ℕ
  length : BitVec host.width
  /-- The size that the allocator is asked for -/
  size : BitVec host.width
  /-- The index at which the terminator is written -/
  terminator : BitVec host.width
  /-- The bytes of the block in which it is written; nothing where the program ends in one of
  the two allocations -/
  block : Option ℕ
  /-- What is returned: the string and what is left of the reader, or an error -/
  output : Option (Except Failure (BString × ArrayReader host))

/-- `parseString`, where the second allocation, of the `String`, succeeds or not -/
def parseString (allocator : Allocator host) (room : Bool) (reader : ArrayReader host) :
    Except Failure (StringRead host) :=
  match sizeLoop NUMBER_MAXLENGTH [] reader with
  | .error failure => .error failure
  | .ok (number, reader) =>
      let length := strtoul host number
      let block := if room then allocator.grant (length + 1) else none
      .ok
        { number := number
          left := reader.bytes.length
          length := length
          size := length + 1
          terminator := length
          block := block
          output := block.map fun _ =>
            match reader.read length with
            | none => .error .OUT_OF_CONTENT_TO_READ
            | some content => .ok content }

/-- What is expected of a string that is read -/
structure StringRead.Safe (string : StringRead host) : Prop where
  noWrap : string.size.toNat = string.length.toNat + 1
  inside : ∀ bytes ∈ string.block, string.terminator.toNat < bytes
  refused : string.left < value string.number →
    ∀ output ∈ string.output, output = .error .OUT_OF_CONTENT_TO_READ

/-- No string is read unsafely. -/
def ReadsSafely (allocator : Allocator host) (room : Bool) (reader : ArrayReader host) : Prop :=
  ∀ string, reader.parseString allocator room = .ok string → string.Safe

/-- A turn of the loop on a byte that is there -/
theorem sizeLoop_of_read {turns : ℕ} {number : BString} {reader after : ArrayReader host}
    {first : BitVec 8} (read : reader.read 1 = some ([first], after)) :
    sizeLoop turns number reader =
      if first = COLON then .ok (number, after)
      else if isDigit first = false then .error .UNPARSABLE
      else
        match turns with
        | 0 => .error .UNPARSABLE
        | turns + 1 => sizeLoop turns (number ++ [first]) after := by
  rw [sizeLoop, read]
  rfl

theorem sizeLoop_of_digits {digits rest : BString} {turns : ℕ} {number : BString}
    {reader : ArrayReader host} (all : ∀ digit ∈ digits, isDigit digit = true)
    (short : digits.length ≤ turns) (bytes : reader.bytes = digits ++ COLON :: rest) :
    ∃ after, sizeLoop turns number reader = .ok (number ++ digits, after) ∧
      after.bytes = rest := by
  induction digits generalizing turns number reader with
  | nil =>
      rcases read_one_of_cons bytes with ⟨after, read, bytes⟩
      refine ⟨after, ?_, bytes⟩
      rw [sizeLoop_of_read read, if_pos rfl, List.append_nil]
  | cons digit digits ih =>
      rcases read_one_of_cons bytes with ⟨after, read, bytes⟩
      cases turns with
      | zero => simp at short
      | succ turns =>
          have digit_is := all digit List.mem_cons_self
          have other : digit ≠ COLON := by
            rintro rfl
            exact absurd digit_is (by decide)
          rcases @ih turns (number ++ [digit]) after
              (fun next inside => all next (List.mem_cons_of_mem _ inside))
              (by simpa using short) bytes with ⟨last, loop, bytes⟩
          refine ⟨last, ?_, bytes⟩
          rw [sizeLoop_of_read read, if_neg other, if_neg (by simp [digit_is])]
          dsimp only
          rw [loop, List.append_assoc, List.singleton_append]

/-- A number is read only where there is a byte. -/
theorem read_of_sizeLoop {turns : ℕ} {number size : BString} {reader after : ArrayReader host}
    (loop : sizeLoop turns number reader = .ok (size, after)) :
    ∃ first next, reader.read 1 = some ([first], next) ∧ reader.bytes = first :: next.bytes := by
  cases bytes : reader.bytes with
  | nil =>
      rw [sizeLoop, read_one_of_nil bytes] at loop
      cases loop
  | cons first rest =>
      rcases read_one_of_cons bytes with ⟨next, read, same⟩
      exact ⟨first, next, read, by rw [same]⟩

theorem digits_of_sizeLoop {turns : ℕ} {number size : BString} {reader after : ArrayReader host}
    (loop : sizeLoop turns number reader = .ok (size, after)) :
    ∃ digits, (∀ digit ∈ digits, isDigit digit = true) ∧ digits.length ≤ turns ∧
      size = number ++ digits ∧ reader.bytes = digits ++ COLON :: after.bytes := by
  induction turns generalizing number reader with
  | zero =>
      rcases read_of_sizeLoop loop with ⟨first, next, read, bytes⟩
      rw [sizeLoop_of_read read] at loop
      split_ifs at loop with colon
      cases loop
      exact ⟨[], by simp, le_rfl, (List.append_nil _).symm, by rw [bytes, colon]; rfl⟩
  | succ turns ih =>
      rcases read_of_sizeLoop loop with ⟨first, next, read, bytes⟩
      rw [sizeLoop_of_read read] at loop
      split_ifs at loop with colon digit
      · cases loop
        exact ⟨[], by simp, Nat.zero_le _, (List.append_nil _).symm, by rw [bytes, colon]; rfl⟩
      · rcases ih loop with ⟨digits, all, short, same, whole⟩
        refine ⟨first :: digits, ?_, by simpa using short, by simp [same], ?_⟩
        · intro other inside
          rcases List.mem_cons.mp inside with rfl | inside
          · simpa using digit
          · exact all other inside
        · rw [bytes, whole, List.cons_append]

theorem toNat_strtoul (host : Host) (number : BString) :
    (strtoul host number).toNat = min (value number) (2 ^ host.width - 1) := by
  have positive := Nat.two_pow_pos host.width
  rw [strtoul, BitVec.toNat_ofNat, Nat.mod_eq_of_lt (by omega)]

/-- One byte more than the largest size is no byte at all. -/
theorem toNat_strtoul_add_one_of_largest {number : BString}
    (large : 2 ^ host.width - 1 ≤ value number) : (strtoul host number + 1).toNat = 0 := by
  have positive := Nat.two_pow_pos host.width
  have most : min (value number) (2 ^ host.width - 1) + 1 = 2 ^ host.width := by omega
  rw [BitVec.toNat_add, host.toNat_one, toNat_strtoul, most, Nat.mod_self]

theorem strtoul_add_one {number : BString} (small : value number < 2 ^ host.width - 1) :
    strtoul host number + 1 = BitVec.ofNat host.width (value number + 1) := by
  apply BitVec.eq_of_toNat_eq
  rw [BitVec.toNat_add, host.toNat_one, toNat_strtoul, BitVec.toNat_ofNat, min_eq_left small.le]

theorem toNat_strtoul_add_one {number : BString} (small : value number < 2 ^ host.width - 1) :
    (strtoul host number + 1).toNat = value number + 1 := by
  rw [strtoul_add_one small, BitVec.toNat_ofNat, Nat.mod_eq_of_lt (by omega)]

/-- The request of one byte more than a size is answered, although a sum of it wraps. -/
def Overruns (allocator : Allocator host) (room : Bool) (size : ℕ) : Prop :=
  room = true ∧ (allocator.grant (BitVec.ofNat host.width (size + 1))).isSome = true ∧
    allocator.fits (BitVec.ofNat host.width (size + 1)) = false

/-- The sizes that are not read safely -/
def Wraps (allocator : Allocator host) (room : Bool) (size : ℕ) : Prop :=
  2 ^ host.width - 1 ≤ size ∨ Overruns allocator room size

/-- A string is read safely exactly if neither its size nor the allocation wraps. -/
theorem StringRead.safe_iff {allocator : Allocator host} {room : Bool} {reader : ArrayReader host}
    {string : StringRead host} (parsed : reader.parseString allocator room = .ok string) :
    string.Safe ↔ ¬Wraps allocator room (value string.number) := by
  unfold parseString at parsed
  cases loop : sizeLoop NUMBER_MAXLENGTH [] reader with
  | error failure =>
      rw [loop] at parsed
      cases parsed
  | ok pair =>
      rcases pair with ⟨number, after⟩
      rw [loop] at parsed
      cases parsed
      dsimp only
      by_cases large : 2 ^ host.width - 1 ≤ value number
      · refine iff_of_false (fun safe => ?_) (not_not_intro (.inl large))
        have noWrap := safe.noWrap
        dsimp only at noWrap
        rw [toNat_strtoul_add_one_of_largest large] at noWrap
        omega
      · have small := not_le.mp large
        have fits := toNat_strtoul_add_one small
        have exact : (strtoul host number).toNat = value number := by
          rw [toNat_strtoul, min_eq_left small.le]
        have refused : after.bytes.length < value number →
            after.read (strtoul host number) = none := by
          intro short
          have left := after.length_bytes
          rw [read_eq_none_iff]
          omega
        rw [Wraps, or_iff_right large, Overruns, ← strtoul_add_one small]
        constructor
        · rintro safe ⟨rfl, granted, wraps⟩
          rcases Option.isSome_iff_exists.mp granted with ⟨bytes, granted⟩
          have inside := safe.inside bytes granted
          rw [Allocator.eq_zero_of_grant wraps granted] at inside
          exact absurd inside (Nat.not_lt_zero _)
        · intro stays
          refine ⟨by rw [fits, exact], fun bytes inside => ?_, fun short output given => ?_⟩
          · rcases Option.ite_none_right_eq_some.mp inside with ⟨supplied, granted⟩
            have whole : allocator.fits (strtoul host number + 1) = true := by
              by_contra wraps
              rw [Bool.not_eq_true] at wraps
              exact stays ⟨supplied, by rw [granted]; rfl, wraps⟩
            have enough := Allocator.le_of_grant whole granted
            dsimp only
            omega
          · rw [refused short] at given
            rcases Option.map_eq_some_iff.mp given with ⟨_, _, rfl⟩
            rfl

/--
`parseString` is safe for every input but those whose size is `ULONG_MAX` or more, or one
with which a sum wraps in the allocator.
-/
theorem readsSafely_iff (allocator : Allocator host) (room : Bool) (reader : ArrayReader host) :
    reader.ReadsSafely allocator room ↔
      ¬∃ digits rest, reader.bytes = digits ++ COLON :: rest ∧
        (∀ digit ∈ digits, isDigit digit = true) ∧ digits.length ≤ NUMBER_MAXLENGTH ∧
        Wraps allocator room (value digits) := by
  constructor
  · rintro safely ⟨digits, rest, bytes, all, short, wraps⟩
    rcases @sizeLoop_of_digits host digits rest NUMBER_MAXLENGTH [] reader all short bytes with
      ⟨after, loop, -⟩
    cases parsed : reader.parseString allocator room with
    | error failure =>
        rw [parseString, loop] at parsed
        cases parsed
    | ok string =>
        have stays := (StringRead.safe_iff parsed).mp (safely _ parsed)
        rw [parseString, loop] at parsed
        cases parsed
        exact stays wraps
  · intro none string parsed
    rw [StringRead.safe_iff parsed]
    intro wraps
    unfold parseString at parsed
    cases loop : sizeLoop NUMBER_MAXLENGTH [] reader with
    | error failure =>
        rw [loop] at parsed
        cases parsed
    | ok pair =>
        rcases digits_of_sizeLoop loop with ⟨digits, all, short, same, bytes⟩
        rw [loop] at parsed
        cases parsed
        dsimp only at wraps
        rw [same, List.nil_append] at wraps
        exact none ⟨digits, pair.2.bytes, bytes, all, short, wraps⟩

/-- The size 18446744073709551615 and its colon, and nothing behind it -/
def largestSize : ArrayReader .bits64 where
  pointer := 0
  endPointer := 21
  bytes := ofNat (2 ^ 64 - 1) ++ [COLON]
  behind := 0
  length_bytes := by decide +kernel

/-- No byte is allocated, and the terminator is written to the last address there is. -/
theorem size_of_largest : ¬largestSize.ReadsSafely (.malloc 0x100000 true) true := by
  intro safely
  have parsed : ((largestSize.parseString (.malloc 0x100000 true) true).map fun string =>
      (string.size, string.terminator)) = .ok (0, BitVec.allOnes 64) := by
    decide +kernel
  cases string : largestSize.parseString (.malloc 0x100000 true) true with
  | error failure =>
      rw [string] at parsed
      cases parsed
  | ok given =>
      have noWrap := (safely given string).noWrap
      rw [string] at parsed
      injection parsed with parsed
      injection parsed with size terminator
      rw [size] at noWrap
      exact absurd noWrap (Nat.succ_ne_zero _).symm

/-- The header of the block makes a size wrap that is 17 below 2^64: `malloc()` is asked for
no bytes at all. -/
example :
    (Allocator.malloc 0x100000 true : Allocator .bits64).grant (2 ^ 64 - 17 + 1) = some 0 := by
  decide +kernel

end ArrayReader

end Cjdns.StringLength
