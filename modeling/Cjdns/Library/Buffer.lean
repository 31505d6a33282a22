import Cjdns.Library.Checked

/-!
# Buffers

An array of bytes with its length in 32 bits, and the writes into it. `Filled` says how far an
array has been written from its start.
-/

/-- An array of bytes that is given with its length -/
structure Buffer where
  bytes : List (BitVec 8)
  length_lt : bytes.length < 2 ^ 32

namespace Buffer

variable {original buffer : Buffer} {front : List (BitVec 8)}

def length (buffer : Buffer) : ℕ :=
  buffer.bytes.length

/-- Write a byte. -/
def write (buffer : Buffer) (index : ℕ) (byte : BitVec 8) : Checked Buffer :=
  if index < buffer.length then
    .ok ⟨buffer.bytes.set index byte, by simpa using buffer.length_lt⟩
  else .error .outOfBounds

/-- A write that succeeds is inside of the buffer. -/
theorem lt_length_of_write {after : Buffer} {index : ℕ} {byte : BitVec 8}
    (writes : buffer.write index byte = .ok after) :
    index < buffer.length ∧ after.length = buffer.length := by
  unfold write at writes
  split_ifs at writes with inside
  cases writes
  exact ⟨inside, List.length_set⟩

/-- The buffer that begins at the same place and is shorter -/
def take (count : ℕ) (buffer : Buffer) : Buffer where
  bytes := buffer.bytes.take count
  length_lt := by
    have whole := buffer.length_lt
    rw [List.length_take]
    omega

/-- A buffer of zeros -/
def zeros (count : BitVec 32) : Buffer where
  bytes := List.replicate count.toNat 0
  length_lt := by
    rw [List.length_replicate]
    exact count.isLt

@[simp]
theorem length_zeros (count : BitVec 32) : (zeros count).length = count.toNat :=
  List.length_replicate

/-- The buffer is the original one, with a text written to its start. -/
structure Filled (original : Buffer) (front : List (BitVec 8)) (buffer : Buffer) : Prop where
  bytes : buffer.bytes = front ++ original.bytes.drop front.length
  fits : front.length ≤ original.length

namespace Filled

theorem start (original : Buffer) : Filled original [] original where
  bytes := rfl
  fits := Nat.zero_le _

theorem length (filled : Filled original front buffer) : buffer.length = original.length := by
  have fits := filled.fits
  rw [Buffer.length, filled.bytes, List.length_append, List.length_drop]
  exact Nat.add_sub_cancel' fits

/-- Only what is behind the text can be written, and it grows by that. -/
theorem write (filled : Filled original front buffer) (room : front.length < original.length)
    (byte : BitVec 8) :
    ∃ after, buffer.write front.length byte = .ok after ∧
      Filled original (front ++ [byte]) after := by
  have inside : front.length < buffer.length := by rwa [filled.length]
  refine ⟨_, if_pos inside, ?_, ?_⟩
  · have next : original.bytes.drop front.length =
        original.bytes[front.length] :: original.bytes.drop (front.length + 1) :=
      List.drop_eq_getElem_cons room
    simp only [filled.bytes]
    rw [next, List.set_append_right _ _ (le_refl _), Nat.sub_self, List.set_cons_zero,
      List.append_assoc, List.length_append, List.length_singleton, List.singleton_append]
  · rw [List.length_append, List.length_singleton]
    exact room

/-- What has been written can be read. -/
theorem take_eq (filled : Filled original front buffer) :
    buffer.bytes.take front.length = front := by
  rw [filled.bytes, List.take_left]

end Filled

/-- A length that is returned as an `int` -/
def lengthAsInt (length : ℕ) : ℤ :=
  (BitVec.ofNat 32 length).toInt

/-- The length as a caller reads it from what is returned -/
def lengthOf (value : ℤ) : ℕ :=
  (BitVec.ofInt 32 value).toNat

theorem lengthAsInt_eq {length : ℕ} (small : length < 2 ^ 32) :
    lengthAsInt length = if length < 2 ^ 31 then (length : ℤ) else (length : ℤ) - 2 ^ 32 := by
  rw [lengthAsInt, BitVec.toInt_eq_toNat_cond, BitVec.toNat_ofNat, Nat.mod_eq_of_lt small]
  split_ifs <;> omega

theorem lengthOf_lengthAsInt {length : ℕ} (small : length < 2 ^ 32) :
    lengthOf (lengthAsInt length) = length := by
  rw [lengthOf, lengthAsInt, BitVec.ofInt_toInt, BitVec.toNat_ofNat, Nat.mod_eq_of_lt small]

/-- A letter of ASCII in lower case -/
def toLower (character : BitVec 8) : BitVec 8 :=
  if 0x41 ≤ character ∧ character ≤ 0x5a then character + 0x20 else character

end Buffer
