import Mathlib.Data.List.TakeWhile
import Mathlib.Data.Nat.Digits.Lemmas
import Mathlib.Tactic

/-!
# Decimal numbers

Numbers as text, as `snprintf` writes them and `strtoul`, `strtol` and `strtoll` read them. A `long`
has 64 bits.
-/

namespace Cjdns.Decimal

def isDigit (character : BitVec 8) : Bool :=
  0x30 ≤ character ∧ character ≤ 0x39

/-- `isspace` -/
def isSpace (character : BitVec 8) : Bool :=
  character = 0x20 ∨ 0x09 ≤ character ∧ character ≤ 0x0D

/-- The number that digits stand for -/
def value (digits : List (BitVec 8)) : ℕ :=
  digits.foldl (fun number digit => 10 * number + (digit.toNat - 0x30)) 0

/-- A number by `%u` -/
def ofNat (number : ℕ) : List (BitVec 8) :=
  if number = 0 then [0x30]
  else (Nat.digits 10 number).reverse.map fun digit => BitVec.ofNat 8 (0x30 + digit)

/-- A number by `%d` -/
def ofInt (number : ℤ) : List (BitVec 8) :=
  if number < 0 then 0x2D :: ofNat number.natAbs else ofNat number.natAbs

/-- `strtoul`, for a text that begins with a digit -/
def strtoul (text : List (BitVec 8)) : ℕ :=
  min (value (text.takeWhile isDigit)) (2 ^ 64 - 1)

/-- What `strtol` returns, and whether it sets `errno` to `ERANGE` -/
structure Strtol where
  number : ℤ
  outOfRange : Bool
deriving DecidableEq

/-- The sign at the front of a number, and the rest -/
def sign : List (BitVec 8) → Bool × List (BitVec 8)
  | 0x2D :: rest => (true, rest)
  | 0x2B :: rest => (false, rest)
  | text => (false, text)

/-- `strtol` with base 10 -/
def strtol (text : List (BitVec 8)) : Strtol :=
  let signed := sign (text.dropWhile isSpace)
  let magnitude := value (signed.2.takeWhile isDigit)
  if signed.1 then
    if magnitude ≤ 2 ^ 63 then { number := -magnitude, outOfRange := false }
    else { number := -2 ^ 63, outOfRange := true }
  else if magnitude < 2 ^ 63 then { number := magnitude, outOfRange := false }
  else { number := 2 ^ 63 - 1, outOfRange := true }

/-! ## Reading what was written -/

theorem value_append (front back : List (BitVec 8)) :
    value (front ++ back) =
      back.foldl (fun number digit => 10 * number + (digit.toNat - 0x30)) (value front) :=
  List.foldl_append

theorem value_concat (front : List (BitVec 8)) (last : BitVec 8) :
    value (front ++ [last]) = 10 * value front + (last.toNat - 0x30) := by
  rw [value_append]
  rfl

/-- Only zeros stand for zero. -/
theorem eq_zero_of_value_eq_zero {digits : List (BitVec 8)} (zero : value digits = 0)
    (all : ∀ digit ∈ digits, isDigit digit = true) : ∀ digit ∈ digits, digit = 0x30 := by
  induction digits using List.reverseRecOn with
  | nil => simp
  | append_singleton front last ih =>
      rw [value_concat] at zero
      have small : ∀ digit : BitVec 8, isDigit digit = true → digit.toNat - 0x30 = 0 →
          digit = 0x30 := by decide
      intro digit inside
      rcases List.mem_append.mp inside with inside | inside
      · exact ih (by omega) (fun other within => all other (List.mem_append_left _ within)) digit
          inside
      · rw [List.mem_singleton.mp inside]
        exact small last (all last (by simp)) (by omega)

/-- Digits below ten are written as they stand. -/
theorem toNat_digit {digit : ℕ} (small : digit < 10) :
    (BitVec.ofNat 8 (0x30 + digit)).toNat = 0x30 + digit := by
  rw [BitVec.toNat_ofNat, Nat.mod_eq_of_lt (by omega)]

theorem value_map_reverse {digits : List ℕ} (small : ∀ digit ∈ digits, digit < 10) :
    value (digits.reverse.map fun digit => BitVec.ofNat 8 (0x30 + digit)) =
      Nat.ofDigits 10 digits := by
  induction digits with
  | nil => rfl
  | cons digit digits ih =>
      rw [List.reverse_cons, List.map_append, List.map_singleton, value_concat,
        ih fun other inside => small other (List.mem_cons_of_mem _ inside),
        toNat_digit (small digit List.mem_cons_self), Nat.ofDigits_cons]
      omega

@[simp]
theorem value_ofNat (number : ℕ) : value (ofNat number) = number := by
  unfold ofNat
  split_ifs with zero
  · rw [zero]
    rfl
  · rw [value_map_reverse fun digit inside => Nat.digits_lt_base (by omega) inside,
      Nat.ofDigits_digits]

theorem isDigit_of_small {digit : ℕ} (small : digit < 10) :
    isDigit (BitVec.ofNat 8 (0x30 + digit)) = true := by
  interval_cases digit <;> rfl

theorem isDigit_of_mem_ofNat {number : ℕ} {character : BitVec 8}
    (inside : character ∈ ofNat number) : isDigit character = true := by
  unfold ofNat at inside
  split_ifs at inside with zero
  · rw [List.mem_singleton.mp inside]
    rfl
  · rcases List.mem_map.mp inside with ⟨digit, digitInside, rfl⟩
    exact isDigit_of_small (Nat.digits_lt_base (by omega) (List.mem_reverse.mp digitInside))

theorem ofNat_ne_nil (number : ℕ) : ofNat number ≠ [] := by
  unfold ofNat
  split_ifs with zero
  · exact List.cons_ne_nil _ _
  · have some : Nat.digits 10 number ≠ [] := Nat.digits_ne_nil_iff_ne_zero.mpr zero
    simpa using some

theorem length_ofNat_le {number width : ℕ} (positive : 0 < width) (small : number < 10 ^ width) :
    (ofNat number).length ≤ width := by
  unfold ofNat
  split_ifs with zero
  · exact positive
  · rw [List.length_map, List.length_reverse, Nat.digits_length_le_iff (by omega)]
    exact small

/-- Digits are all read up to something that is not one. -/
theorem takeWhile_isDigit {digits rest : List (BitVec 8)} {stop : BitVec 8}
    (all : ∀ digit ∈ digits, isDigit digit = true) (ends : isDigit stop = false) :
    (digits ++ stop :: rest).takeWhile isDigit = digits := by
  rw [List.takeWhile_append_of_pos all, List.takeWhile_cons_of_neg (by simp [ends]),
    List.append_nil]

/-- A digit is no space and no sign. -/
theorem sign_of_digit {digit : BitVec 8} {rest : List (BitVec 8)}
    (isDigit_eq : isDigit digit = true) :
    (digit :: rest).dropWhile isSpace = digit :: rest ∧
      sign (digit :: rest) = (false, digit :: rest) := by
  have cases : ∀ digit : BitVec 8, isDigit digit = true →
      isSpace digit = false ∧ digit ≠ 0x2D ∧ digit ≠ 0x2B := by decide
  rcases cases digit isDigit_eq with ⟨space, minus, plus⟩
  refine ⟨List.dropWhile_cons_of_neg (by simp [space]), ?_⟩
  unfold sign
  split
  · simp_all
  · simp_all
  · rfl

/-- What `strtol` makes of a sign and digits -/
theorem strtol_signed {negative : Bool} {digits rest : List (BitVec 8)} {stop : BitVec 8}
    (some : digits ≠ []) (all : ∀ digit ∈ digits, isDigit digit = true)
    (ends : isDigit stop = false) :
    strtol ((if negative then [0x2D] else []) ++ digits ++ stop :: rest) =
      if negative then
        if value digits ≤ 2 ^ 63 then { number := -value digits, outOfRange := false }
        else { number := -2 ^ 63, outOfRange := true }
      else if value digits < 2 ^ 63 then { number := value digits, outOfRange := false }
      else { number := 2 ^ 63 - 1, outOfRange := true } := by
  have front :
      sign (((if negative then [0x2D] else []) ++ digits ++ stop :: rest).dropWhile isSpace) =
        (negative, digits ++ stop :: rest) := by
    cases negative with
    | true => rfl
    | false =>
        rcases digits with _ | ⟨digit, digits⟩
        · exact absurd rfl some
        · have first := @sign_of_digit digit (digits ++ stop :: rest) (all digit List.mem_cons_self)
          simp only [Bool.false_eq_true, if_false, List.nil_append, List.cons_append, first.1,
            first.2]
  simp only [strtol, front, takeWhile_isDigit all ends]

/-- A number is read as it was written. -/
theorem strtol_ofNat {number : ℕ} (small : number < 2 ^ 63) :
    (strtol (ofNat number)).number = number := by
  have digits : ∀ digit ∈ ofNat number, isDigit digit = true :=
    fun digit inside => isDigit_of_mem_ofNat inside
  have all : (ofNat number).takeWhile isDigit = ofNat number :=
    List.takeWhile_eq_self_iff.mpr digits
  rcases text : ofNat number with _ | ⟨first, rest⟩
  · exact absurd text (ofNat_ne_nil number)
  rw [text] at digits all
  rcases @sign_of_digit first rest (digits first List.mem_cons_self) with ⟨spaces, signs⟩
  have read : value (first :: rest) = number := by
    rw [← text, value_ofNat]
  simp only [strtol, spaces, signs, all, read, Bool.false_eq_true, if_false, if_pos small]

theorem ofInt_natCast (number : ℕ) : ofInt number = ofNat number := by
  rw [ofInt, if_neg (by omega), Int.natAbs_natCast]

end Cjdns.Decimal
