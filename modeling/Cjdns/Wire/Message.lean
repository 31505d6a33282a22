import Cjdns.Library.Memory

/-!
# Messages

A `struct Message` is a window into memory: the content and, in front of it,
the padding into which headers are pushed. `Message_shift` moves the front edge
of the window and leaves the bytes where they are, so that whoever holds a
pointer into the message goes on seeing the same memory.
-/

namespace Cjdns

/-- `struct Message`, with the memory its pointer refers to. -/
structure Message where
  memory : Memory
  /-- The number of bytes of content. -/
  length : ℕ
  /-- The number of bytes of padding before the content. -/
  padding : ℕ
  /-- Where the content begins. -/
  bytes : ℤ

namespace Message

/-- The content. -/
def content (message : Message) : List (BitVec 8) :=
  message.memory.read message.bytes message.length

/-- `Message_shift`; there is no result where its assertion fails. -/
def shift (toShift : Message) (amount : ℤ) : Option Message :=
  if 0 < amount then
    if amount ≤ toShift.padding then
      some { toShift with
        length := (toShift.length + amount).toNat
        bytes := toShift.bytes - amount
        padding := (toShift.padding - amount).toNat }
    else none
  else if -amount ≤ toShift.length then
    some { toShift with
      length := (toShift.length + amount).toNat
      bytes := toShift.bytes - amount
      padding := (toShift.padding - amount).toNat }
  else none

@[simp]
theorem length_content (message : Message) : message.content.length = message.length := by
  simp [content]

/-- A shift moves the front edge and nothing else. -/
theorem shift_eq_some {toShift shifted : Message} {amount : ℤ}
    (shifts : toShift.shift amount = some shifted) :
    shifted.memory = toShift.memory ∧ shifted.bytes = toShift.bytes - amount ∧
      (shifted.length : ℤ) = toShift.length + amount ∧
      (shifted.padding : ℤ) = toShift.padding - amount := by
  simp only [shift] at shifts
  split_ifs at shifts with grows fits fits
  all_goals
    simp only [Option.some.injEq] at shifts
    subst shifts
    refine ⟨rfl, rfl, ?_, ?_⟩ <;> simp only <;> omega

/-- A shift towards the end of a long enough message is defined. -/
theorem shift_neg (toShift : Message) {amount : ℕ} (enough : amount ≤ toShift.length) :
    toShift.shift (-amount) = some { toShift with
      length := toShift.length - amount
      bytes := toShift.bytes + amount
      padding := toShift.padding + amount } := by
  rw [shift, if_neg (by omega), if_pos (by omega)]
  simp only [Option.some.injEq, mk.injEq, true_and]
  omega

/-- A shift into large enough padding is defined. -/
theorem shift_pos (toShift : Message) {amount : ℕ} (positive : 0 < amount)
    (enough : amount ≤ toShift.padding) :
    toShift.shift amount = some { toShift with
      length := toShift.length + amount
      bytes := toShift.bytes - amount
      padding := toShift.padding - amount } := by
  rw [shift, if_pos (by omega), if_pos (by omega)]
  simp only [Option.some.injEq, mk.injEq, true_and, and_true]
  omega

end Message

/-- Bytes that are read -/
structure Span where
  place : ℤ
  size : ℕ

/-- None of the bytes is beyond the end of the message. -/
def Span.Within (message : Message) (span : Span) : Prop :=
  span.place + span.size ≤ message.bytes + message.length

end Cjdns
