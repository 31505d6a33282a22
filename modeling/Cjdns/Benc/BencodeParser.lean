import Cjdns.Benc.Bencode
import Mathlib.Data.List.TakeWhile

/-!
# What the bencode parser accepts

The parser against the grammar, for readers shorter than `2 ^ 64` bytes: it accepts the lenient
words, without extreme integers if `errno` is `ERANGE`, and may look for the last `e` behind the
end of the buffer.
-/

namespace Cjdns.StandardBencSerializer

open Decimal

/-! ## Strings -/

theorem sizeLoop_eq_ok {i : ℕ} {number size : BString} {reader reader' : Reader} (bound : i ≤ 21) :
    sizeLoop i number reader = .ok (size, reader') ↔
      ∃ digits, (∀ digit ∈ digits, isDigit digit = true) ∧ i + digits.length ≤ 21 ∧
        size = number ++ digits ∧ reader = digits ++ COLON :: reader' ∧ reader' ≠ [] := by
  fun_induction sizeLoop i number reader with
  | case1 i number next rest =>
      constructor
      · intro parsed
        cases parsed
        exact ⟨[], by simp, by simpa using bound, by simp, by simp, by simp⟩
      · rintro ⟨digits, all, -, rfl, whole, some⟩
        cases digits with
        | nil =>
            rw [List.nil_append, List.cons.injEq] at whole
            rw [List.append_nil, whole.2]
        | cons digit digits =>
            rw [List.cons_append, List.cons.injEq] at whole
            exact absurd (all digit List.mem_cons_self) (by rw [← whole.1]; decide)
  | case2 i number nextChar next rest other noDigit =>
      constructor
      · intro parsed
        cases parsed
      · rintro ⟨digits, all, -, rfl, whole, some⟩
        cases digits with
        | nil => exact absurd (List.cons.inj whole).1 other
        | cons digit digits =>
            have isDigit_eq := all digit List.mem_cons_self
            rw [← (List.cons.inj whole).1, noDigit] at isDigit_eq
            cases isDigit_eq
  | case3 i number nextChar next rest other aDigit long =>
      constructor
      · intro parsed
        cases parsed
      · rintro ⟨digits, all, short, rfl, whole, some⟩
        cases digits with
        | nil => exact absurd (List.cons.inj whole).1 other
        | cons digit digits =>
            rw [List.length_cons] at short
            simp only [NUMBER_MAXLENGTH] at long
            omega
  | case4 i number nextChar next rest other aDigit short ih =>
      simp only [NUMBER_MAXLENGTH] at short
      rw [ih (by omega)]
      constructor
      · rintro ⟨digits, all, bounded, rfl, whole, some⟩
        refine ⟨nextChar :: digits, ?_, by rw [List.length_cons]; omega, by simp,
          by rw [whole, List.cons_append], some⟩
        intro digit inside
        rcases List.mem_cons.mp inside with rfl | inside
        · simpa using aDigit
        · exact all digit inside
      · rintro ⟨digits, all, bounded, rfl, whole, some⟩
        cases digits with
        | nil => exact absurd (List.cons.inj whole).1 other
        | cons digit digits =>
            rw [List.cons_append, List.cons.injEq] at whole
            rw [List.length_cons] at bounded
            refine ⟨digits, fun other inside => all other (List.mem_cons_of_mem _ inside), by omega,
              by simp [whole.1], whole.2, some⟩
  | case5 i number reader few =>
      constructor
      · intro parsed
        cases parsed
      · rintro ⟨digits, all, bounded, rfl, whole, some⟩
        rcases digits with _ | ⟨digit, digits⟩ <;> rcases reader' with _ | ⟨next, rest⟩
        · exact absurd rfl some
        · exact absurd whole (few _ _ _)
        · exact absurd rfl some
        · rcases digits with _ | ⟨second, digits⟩
          · exact absurd whole (few _ _ _)
          · exact absurd whole (few _ _ _)

/-- Digits are their own size. -/
theorem strtoul_digits {digits : BString} (all : ∀ digit ∈ digits, isDigit digit = true) :
    strtoul digits = min (value digits) (2 ^ 64 - 1) := by
  rw [strtoul, List.takeWhile_eq_self_iff.mpr all]

/-- What `parseString` accepts -/
theorem parseString_eq_ok {reader reader' : Reader} {content : BString}
    (small : reader.length < 2 ^ 64) :
    parseString reader = .ok (content, reader') ↔
      ∃ word, IsString false word content ∧ reader = word ++ reader' ∧ reader' ≠ [] := by
  unfold parseString
  constructor
  · intro parsed
    cases loop : sizeLoop 0 [] reader with
    | error failure =>
        rw [loop] at parsed
        cases parsed
    | ok pair =>
        rcases pair with ⟨number, behind⟩
        rcases (sizeLoop_eq_ok (by omega)).mp loop with ⟨digits, all, short, same, rfl, some⟩
        rw [List.nil_append] at same
        subst same
        simp only [loop, strtoul_digits all] at parsed
        split_ifs at parsed with fits
        cases parsed
        rw [List.length_append, List.length_cons] at small
        have size : min (value number) (2 ^ 64 - 1) = value number := by omega
        rw [size] at fits ⊢
        refine ⟨number ++ COLON :: behind.take (value number), .intro all (by omega)
          (fun impossible => by cases impossible) (by rw [List.length_take]; omega), ?_, ?_⟩
        · rw [List.append_assoc, List.cons_append, List.take_append_drop]
        · intro empty
          rw [List.drop_eq_nil_iff] at empty
          omega
  · rintro ⟨word, ⟨all, short, -, size⟩, rfl, some⟩
    rename_i digits
    have loop : sizeLoop 0 [] (digits ++ COLON :: content ++ reader') =
        .ok (digits, content ++ reader') :=
      (sizeLoop_eq_ok (by omega)).mpr ⟨digits, all, by omega, rfl,
        by rw [List.append_assoc, List.cons_append], by simp [some]⟩
    have positive := List.length_pos_of_ne_nil some
    simp only [List.length_append, List.length_cons] at small
    have length : min (value digits) (2 ^ 64 - 1) = content.length := by omega
    simp only [loop, strtoul_digits all, length, List.length_append]
    rw [if_pos (by omega), List.take_left, List.drop_left]

/-! ## Integers -/

/-- Digits up to the `e` are all taken. -/
theorem integerLoop_eq_ok {i : ℕ} {buffer whole : BString} {reader reader' : Reader} (begun : 1 < i)
    (bound : i ≤ 22) :
    integerLoop i buffer reader = .ok (whole, reader') ↔
      ∃ digits, (∀ digit ∈ digits, isDigit digit = true) ∧ i + digits.length ≤ 22 ∧
        whole = buffer ++ (digits ++ [E]) ∧ reader = digits ++ E :: reader' ∧ reader' ≠ [] := by
  fun_induction integerLoop i buffer reader with
  | case1 => omega
  | case2 => omega
  | case3 i buffer next rest later =>
      constructor
      · intro parsed
        cases parsed
        exact ⟨[], by simp, by simpa using bound, by simp, by simp, by simp⟩
      · rintro ⟨digits, all, -, rfl, same, some⟩
        cases digits with
        | nil =>
            rw [List.nil_append, List.cons.injEq] at same
            rw [List.nil_append, same.2]
        | cons digit digits =>
            rw [List.cons_append, List.cons.injEq] at same
            exact absurd (all digit List.mem_cons_self) (by rw [← same.1]; decide)
  | case4 => omega
  | case5 i buffer nextChar next rest later other positive noDigit =>
      constructor
      · intro parsed
        cases parsed
      · rintro ⟨digits, all, -, rfl, same, some⟩
        cases digits with
        | nil => exact absurd (List.cons.inj same).1 other
        | cons digit digits =>
            have isDigit_eq := all digit List.mem_cons_self
            rw [← (List.cons.inj same).1, noDigit] at isDigit_eq
            cases isDigit_eq
  | case6 i buffer nextChar next rest later other positive aDigit long =>
      constructor
      · intro parsed
        cases parsed
      · rintro ⟨digits, all, short, rfl, same, some⟩
        cases digits with
        | nil => exact absurd (List.cons.inj same).1 other
        | cons digit digits =>
            rw [List.length_cons] at short
            omega
  | case7 i buffer nextChar next rest later other positive aDigit short ih =>
      rw [ih (by omega) (by omega)]
      constructor
      · rintro ⟨digits, all, bounded, rfl, same, some⟩
        refine ⟨nextChar :: digits, ?_, by rw [List.length_cons]; omega, by simp,
          by rw [same, List.cons_append], some⟩
        intro digit inside
        rcases List.mem_cons.mp inside with rfl | inside
        · simpa using aDigit
        · exact all digit inside
      · rintro ⟨digits, all, bounded, rfl, same, some⟩
        cases digits with
        | nil => exact absurd (List.cons.inj same).1 other
        | cons digit digits =>
            rw [List.cons_append, List.cons.injEq] at same
            rw [List.length_cons] at bounded
            refine ⟨digits, fun other inside => all other (List.mem_cons_of_mem _ inside), by omega,
              by simp [same.1], same.2, some⟩
  | case8 i buffer reader few =>
      constructor
      · intro parsed
        cases parsed
      · rintro ⟨digits, all, bounded, rfl, same, some⟩
        rcases digits with _ | ⟨digit, digits⟩ <;> rcases reader' with _ | ⟨next, rest⟩
        · exact absurd rfl some
        · exact absurd same (few _ _ _)
        · exact absurd rfl some
        · rcases digits with _ | ⟨second, digits⟩
          · exact absurd same (few _ _ _)
          · exact absurd same (few _ _ _)

/-- What the loop does with the first character behind the `i` -/
theorem integerLoop_first (nextChar : BitVec 8) {rest : Reader} (some : rest ≠ []) :
    integerLoop 1 [] (nextChar :: rest) =
      if nextChar = E then .ok ([E], rest)
      else if nextChar = MINUS then integerLoop 2 [MINUS] rest
      else if isDigit nextChar = false then .error .UNPARSABLE
      else integerLoop 2 [nextChar] rest := by
  rcases rest with _ | ⟨next, rest⟩
  · exact absurd rfl some
  · rw [integerLoop]
    split_ifs <;> simp_all

theorem integerLoop_one_eq_ok {whole : BString} {reader reader' : Reader} :
    integerLoop 1 [] reader = .ok (whole, reader') ↔
      ∃ negative digits, (∀ digit ∈ digits, isDigit digit = true) ∧
        (signed negative digits).length ≤ 21 ∧ whole = signed negative digits ++ [E] ∧
        reader = signed negative digits ++ E :: reader' ∧ reader' ≠ [] := by
  constructor
  · intro parsed
    rcases reader with _ | ⟨nextChar, rest⟩
    · cases parsed
    by_cases empty : rest = []
    · rw [empty] at parsed
      cases parsed
    rw [integerLoop_first nextChar empty] at parsed
    split_ifs at parsed with ends minus noDigit
    · cases parsed
      exact ⟨false, [], by simp, by simp [signed], rfl, by rw [ends]; rfl, empty⟩
    · rcases (integerLoop_eq_ok (by omega) (by omega)).mp parsed with
        ⟨digits, all, short, rfl, rfl, some⟩
      refine ⟨true, digits, all, ?_, rfl, by rw [minus]; rfl, some⟩
      rw [signed, if_pos rfl, List.length_append, List.length_singleton]
      omega
    · rcases (integerLoop_eq_ok (by omega) (by omega)).mp parsed with
        ⟨digits, all, short, rfl, rfl, some⟩
      refine ⟨false, nextChar :: digits, ?_, ?_, rfl, rfl, some⟩
      · intro digit inside
        rcases List.mem_cons.mp inside with rfl | inside
        · simpa using noDigit
        · exact all digit inside
      · simp only [signed, Bool.false_eq_true, if_false, List.nil_append, List.length_cons]
        omega
  · rintro ⟨negative, digits, all, short, rfl, rfl, some⟩
    cases negative with
    | true =>
        simp only [signed, if_true, List.singleton_append, List.length_cons] at short
        simp only [signed, if_true, List.cons_append]
        rw [integerLoop_first MINUS (by simp), if_neg (by decide), if_pos rfl]
        exact (integerLoop_eq_ok (by omega) (by omega)).mpr
          ⟨digits, all, by omega, rfl, rfl, some⟩
    | false =>
        simp only [signed, Bool.false_eq_true, if_false, List.nil_append] at short ⊢
        cases digits with
        | nil => rw [List.nil_append, integerLoop_first E some, if_pos rfl]; rfl
        | cons digit digits =>
            have isDigit_eq := all digit List.mem_cons_self
            have plain : ∀ digit : BitVec 8, isDigit digit = true → digit ≠ E ∧ digit ≠ MINUS := by
              decide
            rw [List.length_cons] at short
            rw [List.cons_append, integerLoop_first digit (by simp), if_neg (plain _ isDigit_eq).1,
              if_neg (plain _ isDigit_eq).2, if_neg (by rw [isDigit_eq]; decide)]
            exact (integerLoop_eq_ok (by omega) (by omega)).mpr
              ⟨digits, fun other inside => all other (List.mem_cons_of_mem _ inside), by omega, rfl,
                rfl, some⟩

theorem integerLoop_zero_eq_ok {whole : BString} {reader reader' : Reader} :
    integerLoop 0 [] reader = .ok (whole, reader') ↔
      ∃ negative digits, (∀ digit ∈ digits, isDigit digit = true) ∧
        (signed negative digits).length ≤ 21 ∧ whole = signed negative digits ++ [E] ∧
        reader = I :: (signed negative digits ++ E :: reader') ∧ reader' ≠ [] := by
  have first : integerLoop 0 [] reader = .ok (whole, reader') ↔
      ∃ rest, reader = I :: rest ∧ integerLoop 1 [] rest = .ok (whole, reader') := by
    constructor
    · intro parsed
      rcases reader with _ | ⟨nextChar, _ | ⟨next, rest⟩⟩
      · cases parsed
      · cases parsed
      · rw [integerLoop, if_pos rfl] at parsed
        split_ifs at parsed with is
        exact ⟨next :: rest, by rw [is], parsed⟩
    · rintro ⟨_ | ⟨next, rest⟩, rfl, parsed⟩
      · cases parsed
      · rw [integerLoop, if_pos rfl, if_pos rfl, parsed]
  rw [first]
  constructor
  · rintro ⟨rest, rfl, parsed⟩
    rcases integerLoop_one_eq_ok.mp parsed with ⟨negative, digits, all, short, same, rfl, some⟩
    exact ⟨negative, digits, all, short, same, rfl, some⟩
  · rintro ⟨negative, digits, all, short, same, rfl, some⟩
    exact ⟨_, rfl, integerLoop_one_eq_ok.mpr ⟨negative, digits, all, short, same, rfl, some⟩⟩

/-- A number is read as it stands, or is out of range and becomes an extreme one. -/
theorem strtol_buffer {negative : Bool} {digits : BString} (some : digits ≠ [])
    (all : ∀ digit ∈ digits, isDigit digit = true) :
    strtol (signed negative digits ++ [E]) = ⟨signedValue negative digits, false⟩ ∧
        -2 ^ 63 ≤ signedValue negative digits ∧ signedValue negative digits < 2 ^ 63 ∨
      (∃ number, strtol (signed negative digits ++ [E]) = ⟨number, true⟩ ∧
        (number = 2 ^ 63 - 1 ∨ number = -2 ^ 63)) ∧
        (signedValue negative digits < -2 ^ 63 ∨ 2 ^ 63 ≤ signedValue negative digits) := by
  have read := @strtol_signed negative digits [] E some all (by decide)
  rw [signed, read]
  cases negative with
  | true =>
      simp only [signedValue, if_true]
      split_ifs with fits
      · exact .inl ⟨rfl, by omega, by omega⟩
      · exact .inr ⟨⟨_, rfl, .inr rfl⟩, by omega⟩
  | false =>
      simp only [signedValue, Bool.false_eq_true, if_false]
      split_ifs with fits
      · exact .inl ⟨rfl, by omega, by omega⟩
      · exact .inr ⟨⟨_, rfl, .inl rfl⟩, by omega⟩

/-- A number that is zero begins with a zero. -/
theorem zero_first {negative : Bool} {digits : BString} (some : digits ≠ [])
    (all : ∀ digit ∈ digits, isDigit digit = true) (zero : signedValue negative digits = 0) :
    (signed negative digits ++ [E]).getD 0 0 = 0x30 ∨
      (signed negative digits ++ [E]).getD 0 0 = MINUS ∧
        (signed negative digits ++ [E]).getD 1 0 = 0x30 := by
  have nothing : value digits = 0 := by
    unfold signedValue at zero
    split_ifs at zero <;> omega
  rcases digits with _ | ⟨digit, digits⟩
  · exact absurd rfl some
  · have first := eq_zero_of_value_eq_zero nothing all digit List.mem_cons_self
    cases negative with
    | true => exact .inr ⟨rfl, first⟩
    | false => exact .inl first

/-- What `parseint64_t` accepts -/
theorem parseint64_t_eq_ok {erange : Bool} {reader reader' : Reader} {number : BitVec 64} :
    parseint64_t erange reader = .ok (number, reader') ↔
      ∃ word, IsInteger word number ∧ reader = word ++ reader' ∧ reader' ≠ [] ∧
        (erange = true → isExtreme number = false) := by
  unfold parseint64_t
  constructor
  · intro parsed
    cases loop : integerLoop 0 [] reader with
    | error failure =>
        rw [loop] at parsed
        cases parsed
    | ok pair =>
        rcases pair with ⟨buffer, behind⟩
        rcases integerLoop_zero_eq_ok.mp loop with ⟨negative, digits, all, short, rfl, rfl, some⟩
        have exist : digits ≠ [] := by
          rintro rfl
          rw [loop] at parsed
          cases negative <;> simp [signed, strtol, sign, isSpace, isDigit, value] at parsed
        rw [loop] at parsed
        rcases @strtol_buffer negative digits exist all with
          ⟨read, low, high⟩ | ⟨⟨extreme, read, is⟩, -⟩
        · simp only [read, Bool.or_false] at parsed
          split_ifs at parsed with zero stale
          cases parsed
          have toInt_eq : (BitVec.ofInt 64 (signedValue negative digits)).toInt =
              signedValue negative digits := by
            rw [BitVec.toInt_ofInt, Int.bmod_eq_of_le (by omega) (by omega)]
          refine ⟨I :: (signed negative digits ++ [E]), .intro all exist short toInt_eq, by simp,
            some, fun old => ?_⟩
          rw [Bool.eq_false_iff]
          intro isExtreme_eq
          rw [isExtreme_iff, toInt_eq] at isExtreme_eq
          exact stale ⟨isExtreme_eq, old⟩
        · simp only [read, Bool.or_true] at parsed
          rw [if_neg, if_pos ⟨is, trivial⟩] at parsed
          · cases parsed
          · rintro ⟨rfl, -⟩
            omega
  · rintro ⟨word, ⟨all, exist, short, is⟩, rfl, some, fine⟩
    rename_i negative digits
    have loop : integerLoop 0 [] (I :: (signed negative digits ++ [E]) ++ reader') =
        .ok (signed negative digits ++ [E], reader') :=
      integerLoop_zero_eq_ok.mpr ⟨negative, digits, all, short, rfl, by simp, some⟩
    have low := BitVec.le_toInt number
    have high := @BitVec.toInt_lt 64 number
    rcases @strtol_buffer negative digits exist all with
      ⟨read, -, -⟩ | ⟨-, beyond⟩
    · simp only [loop, read, Bool.or_false]
      rw [if_neg, if_neg]
      · rw [← is, BitVec.ofInt_toInt]
      · rintro ⟨extreme, old⟩
        rw [← is, ← isExtreme_iff] at extreme
        rw [fine old] at extreme
        cases extreme
      · rintro ⟨zero, first, second⟩
        rcases zero_first exist all zero with one | ⟨one, two⟩
        · exact first one
        · exact second.elim (fun apart => apart one) (fun apart => apart two)
    · omega

/-! ## What was accepted is a word -/

variable {erange : Bool}

/-- A reader whose rest is behind a word for the object -/
def ReadsValue (erange : Bool) (reader : Reader) (object : Object) (reader' : Reader) : Prop :=
  ∃ word tree, IsValue false word tree ∧ object = tree.mirror ∧
    (erange = true → tree.hasExtreme = false) ∧ reader = word ++ reader'

def ReadsItems (erange : Bool) (reader : Reader) (list : BList) (reader' : Reader) : Prop :=
  ∃ word tree, IsItems false word tree ∧ list = tree.mirror ∧
    (erange = true → tree.hasExtreme = false) ∧ reader = word ++ reader'

/-- The entries are read in front of those there already. -/
def ReadsEntries (erange : Bool) (last : Dict) (reader : Reader) (entries : Dict)
    (reader' : Reader) : Prop :=
  ∃ word tree, IsEntries false word tree ∧ entries = tree.mirrorOnto last ∧
    (erange = true → tree.hasExtreme = false) ∧ reader = word ++ reader'

/-- What `map` makes of an accepted text -/
theorem eq_ok_of_map {α β : Type} {parsed : Parsed α} {f : α → β} {result : β} {reader' : Reader}
    (mapped : (parsed.map fun pair => (f pair.1, pair.2)) = .ok (result, reader')) :
    ∃ value, parsed = .ok (value, reader') ∧ f value = result := by
  rcases parsed with failure | ⟨value, behind⟩
  · cases mapped
  · cases mapped
    exact ⟨value, rfl, rfl⟩

theorem readByte_eq_ok {byte : BitVec 8} {reader reader' : Reader} :
    readByte reader = .ok (byte, reader') ↔ reader = byte :: reader' ∧ reader' ≠ [] := by
  rcases reader with _ | ⟨first, _ | ⟨next, rest⟩⟩
  · simp [readByte]
  · simp [readByte]
  · simp only [readByte, Except.ok.injEq, Prod.mk.injEq, List.cons.injEq]
    constructor
    · rintro ⟨rfl, rfl⟩
      exact ⟨⟨rfl, rfl⟩, List.cons_ne_nil _ _⟩
    · rintro ⟨same, -⟩
      exact same

/-- What `map` makes of an accepted text behind a byte that was seen already -/
theorem eq_ok_of_readByte {α β : Type} {parse : Reader → Parsed α} {f : α → β} {result : β}
    {reader' : Reader} {first : BitVec 8} {rest : Reader}
    (mapped : (match readByte (first :: rest) with
      | .error failure => (Except.error failure : Parsed β)
      | .ok (_, reader) => (parse reader).map fun pair : α × Reader => (f pair.1, pair.2)) =
        .ok (result, reader')) :
    ∃ value, parse rest = .ok (value, reader') ∧ f value = result := by
  cases byte : readByte (first :: rest) with
  | error failure =>
      rw [byte] at mapped
      cases mapped
  | ok pair =>
      rcases (@readByte_eq_ok pair.1 _ pair.2).mp byte with ⟨same, -⟩
      rw [List.cons.injEq] at same
      rw [byte] at mapped
      rw [same.2]
      exact eq_ok_of_map mapped

/-- A string that begins with a digit is a strict one. -/
theorem strict_of_digit {word content reader rest : BString} {first : BitVec 8}
    (string : IsString false word content) (begins : first :: rest = word ++ reader)
    (digit : isDigit first = true) : IsString true word content := by
  rcases string with ⟨all, short, -, size⟩
  refine .intro all short ?_ size
  rintro - rfl
  rw [List.nil_append, List.cons_append, List.cons.injEq] at begins
  rw [begins.1] at digit
  cases digit

mutual

theorem readsValue_of_parse : ∀ (fuel : ℕ) {reader : Reader} {object : Object} {reader' : Reader},
    reader.length < 2 ^ 64 → parseGeneric erange fuel reader = .ok (object, reader') →
      ReadsValue erange reader object reader'
  | 0, _, _, _, _, parsed => by cases parsed
  | fuel + 1, [], _, _, _, parsed => by cases parsed
  | fuel + 1, first :: rest, object, reader', small, parsed => by
      rw [parseGeneric] at parsed
      split_ifs at parsed with digit integer list dict
      · rcases eq_ok_of_map parsed with ⟨bytes, string, rfl⟩
        rcases (parseString_eq_ok small).mp string with ⟨word, isString, whole, -⟩
        exact ⟨word, .string bytes, .string (strict_of_digit isString whole digit), rfl,
          fun _ => rfl, whole⟩
      · rcases eq_ok_of_map parsed with ⟨number, integer, rfl⟩
        rcases parseint64_t_eq_ok.mp integer with ⟨word, isInteger, whole, -, fine⟩
        exact ⟨word, .integer number, .integer isInteger, rfl, fine, whole⟩
      · rcases eq_ok_of_readByte parsed with ⟨items, loop, rfl⟩
        rw [List.length_cons] at small
        rcases readsItems_of_parse fuel (by omega) loop with ⟨word, tree, isItems, rfl, fine, rfl⟩
        exact ⟨L :: word, .list tree, .list isItems, rfl, fine, by rw [list]; rfl⟩
      · rcases eq_ok_of_readByte parsed with ⟨entries, loop, rfl⟩
        rw [List.length_cons] at small
        rcases readsEntries_of_parse fuel (by omega) loop with
          ⟨word, tree, isEntries, rfl, fine, rfl⟩
        exact ⟨D :: word, .dict tree, .dict isEntries, rfl, fine, by rw [dict]; rfl⟩

theorem readsItems_of_parse : ∀ (fuel : ℕ) {reader : Reader} {list : BList} {reader' : Reader},
    reader.length < 2 ^ 64 → listLoop erange fuel reader = .ok (list, reader') →
      ReadsItems erange reader list reader'
  | 0, _, _, _, _, parsed => by cases parsed
  | fuel + 1, [], _, _, _, parsed => by cases parsed
  | fuel + 1, nextChar :: rest, list, reader', small, parsed => by
      rw [listLoop] at parsed
      split_ifs at parsed with ends
      · cases parsed
        exact ⟨[E], .nil, .nil, rfl, fun _ => rfl, by rw [ends]; rfl⟩
      · cases value : parseGeneric erange fuel (nextChar :: rest) with
        | error failure =>
            rw [value] at parsed
            cases parsed
        | ok pair =>
            rw [value] at parsed
            rcases readsValue_of_parse fuel small value with
              ⟨word, tree, isValue, elem_eq, fine, whole⟩
            rcases eq_ok_of_map parsed with ⟨next, loop, rfl⟩
            rw [whole, List.length_append] at small
            rcases readsItems_of_parse fuel (by omega) loop with
              ⟨behind, items, isItems, rfl, others, after⟩
            refine ⟨word ++ behind, .cons tree items, .cons isValue isItems, ?_, ?_, ?_⟩
            · rw [elem_eq]
              rfl
            · intro old
              rw [BList.hasExtreme, fine old, others old]
              rfl
            · rw [whole, after, List.append_assoc]

theorem readsEntries_of_parse : ∀ (fuel : ℕ) {last : Dict} {reader : Reader} {entries : Dict}
    {reader' : Reader}, reader.length < 2 ^ 64 →
      dictionaryLoop erange fuel last reader = .ok (entries, reader') →
      ReadsEntries erange last reader entries reader'
  | 0, _, _, _, _, _, parsed => by cases parsed
  | fuel + 1, _, [], _, _, _, parsed => by cases parsed
  | fuel + 1, last, nextChar :: rest, entries, reader', small, parsed => by
      rw [dictionaryLoop] at parsed
      split_ifs at parsed with ends
      · cases parsed
        exact ⟨[E], .nil, .nil, rfl, fun _ => rfl, by rw [ends]; rfl⟩
      · cases string : parseString (nextChar :: rest) with
        | error failure =>
            rw [string] at parsed
            cases parsed
        | ok pair =>
            rcases pair with ⟨key, second⟩
            rcases (parseString_eq_ok small).mp string with ⟨front, isString, whole, -⟩
            rw [whole, List.length_append] at small
            simp only [string] at parsed
            cases value : parseGeneric erange fuel second with
            | error failure =>
                rw [value] at parsed
                cases parsed
            | ok pair =>
                rcases pair with ⟨val, third⟩
                simp only [value] at parsed
                rcases readsValue_of_parse fuel (by omega) value with
                  ⟨word, tree, isValue, rfl, fine, rfl⟩
                rw [List.length_append] at small
                rcases readsEntries_of_parse fuel (by omega) parsed with
                  ⟨behind, items, isEntries, rfl, others, rfl⟩
                refine ⟨front ++ (word ++ behind), .cons key tree items,
                  .cons isString isValue isEntries, rfl, ?_, ?_⟩
                · intro old
                  rw [Dict.hasExtreme, fine old, others old]
                  rfl
                · rw [whole, List.append_assoc, List.append_assoc]

end

/-! ## Words are accepted -/

/-- A string begins with a digit of its size, or with the colon. -/
theorem string_begins {strict : Bool} {word content : BString}
    (string : IsString strict word content) :
    ∃ first rest, word = first :: rest ∧ first ≠ E ∧ (strict = true → isDigit first = true) := by
  rcases string with ⟨all, short, some, size⟩
  rename_i digits
  rcases digits with _ | ⟨digit, digits⟩
  · refine ⟨COLON, content, rfl, by decide, fun strictly => absurd rfl (some strictly)⟩
  · have isDigit_eq := all digit List.mem_cons_self
    refine ⟨digit, _, rfl, ?_, fun _ => isDigit_eq⟩
    rintro rfl
    cases isDigit_eq

/-- No value begins with the character that ends lists and dictionaries. -/
theorem value_begins {strict : Bool} {word : BString} {object : Object} :
    IsValue strict word object → ∃ first rest, word = first :: rest ∧ first ≠ E
  | .string string => by
      rcases string_begins string with ⟨first, rest, same, apart, -⟩
      exact ⟨first, rest, same, apart⟩
  | .integer (.intro _ _ _ _) => ⟨I, _, rfl, by decide⟩
  | .list _ => ⟨L, _, rfl, by decide⟩
  | .dict _ => ⟨D, _, rfl, by decide⟩

theorem items_ne_nil {strict : Bool} {word : BString} {list : BList} :
    IsItems strict word list → word ≠ []
  | .nil => List.cons_ne_nil _ _
  | .cons elem _ => by
      rcases value_begins elem with ⟨first, rest, rfl, -⟩
      exact List.cons_ne_nil _ _

theorem entries_ne_nil {strict : Bool} {word : BString} {entries : Dict} :
    IsEntries strict word entries → word ≠ []
  | .nil => List.cons_ne_nil _ _
  | .cons key _ _ => by
      rcases string_begins key with ⟨first, rest, rfl, -⟩
      exact List.cons_ne_nil _ _

theorem readByte_cons {byte : BitVec 8} {rest : Reader} (some : rest ≠ []) :
    readByte (byte :: rest) = .ok (byte, rest) :=
  readByte_eq_ok.mpr ⟨rfl, some⟩

mutual

theorem parse_of_isValue {word : BString} {tree : Object} : IsValue false word tree →
    ∀ {fuel : ℕ} {rest : Reader}, 2 * word.length ≤ fuel → rest ≠ [] →
      word.length + rest.length < 2 ^ 64 → (erange = true → tree.hasExtreme = false) →
      parseGeneric erange fuel (word ++ rest) = .ok (tree.mirror, rest)
  | .string string, fuel, rest, enough, behind, small, fine => by
      rcases string_begins string with ⟨first, others, rfl, -, digit⟩
      rcases fuel with _ | fuel
      · simp at enough
      have parsed := (parseString_eq_ok (by rw [List.length_append]; exact small)).mpr
        ⟨first :: others, string.lenient, rfl, behind⟩
      rw [List.cons_append] at parsed ⊢
      rw [parseGeneric, if_pos (digit rfl), parsed]
      rfl
  | @IsValue.integer _ _ number integer, fuel, rest, enough, behind, small, fine => by
      rcases integer with ⟨all, exist, short, is⟩
      rename_i negative digits
      rcases fuel with _ | fuel
      · simp at enough
      have parsed : parseint64_t erange (I :: (signed negative digits ++ [E]) ++ rest) =
          .ok (number, rest) :=
        parseint64_t_eq_ok.mpr ⟨_, .intro all exist short is, rfl, behind, fine⟩
      rw [List.cons_append] at parsed ⊢
      rw [parseGeneric, if_neg (by decide), if_pos rfl, parsed]
      rfl
  | @IsValue.list _ word _ list, fuel, rest, enough, behind, small, fine => by
      rcases fuel with _ | fuel
      · simp at enough
      rw [List.length_cons] at enough small
      have loop := @parse_of_isItems _ _ list fuel rest (by omega) (by omega) fine
      rw [List.cons_append, parseGeneric, if_neg (by decide), if_neg (by decide), if_pos rfl,
        readByte_cons (by simp [behind])]
      simp only [loop]
      rfl
  | @IsValue.dict _ word _ dict, fuel, rest, enough, behind, small, fine => by
      rcases fuel with _ | fuel
      · simp at enough
      rw [List.length_cons] at enough small
      have loop := @parse_of_isEntries _ _ dict fuel .nil rest (by omega) (by omega) fine
      rw [List.cons_append, parseGeneric, if_neg (by decide), if_neg (by decide),
        if_neg (by decide), if_pos rfl, readByte_cons (by simp [behind])]
      simp only [loop]
      rfl

theorem parse_of_isItems {word : BString} {tree : BList} : IsItems false word tree →
    ∀ {fuel : ℕ} {rest : Reader}, 2 * word.length ≤ fuel →
      word.length + rest.length < 2 ^ 64 → (erange = true → tree.hasExtreme = false) →
      listLoop erange fuel (word ++ rest) = .ok (tree.mirror, rest)
  | .nil, fuel, rest, enough, small, fine => by
      rcases fuel with _ | fuel
      · simp at enough
      rw [List.singleton_append, listLoop, if_pos rfl]
      rfl
  | @IsItems.cons _ first second elem items elem_is next_is, fuel, rest, enough, small, fine => by
      rcases fuel with _ | fuel
      · have positive := List.length_pos_of_ne_nil (items_ne_nil (.cons elem_is next_is))
        omega
      have positive := List.length_pos_of_ne_nil (items_ne_nil next_is)
      rw [List.length_append] at enough small
      have fineFirst : erange = true → elem.hasExtreme = false := fun old =>
        (Bool.or_eq_false_iff.mp (fine old)).1
      have fineSecond : erange = true → items.hasExtreme = false := fun old =>
        (Bool.or_eq_false_iff.mp (fine old)).2
      have value := @parse_of_isValue _ _ elem_is fuel (second ++ rest) (by omega)
        (by simp [items_ne_nil next_is]) (by rw [List.length_append]; omega) fineFirst
      rcases value_begins elem_is with ⟨character, others, rfl, apart⟩
      rw [List.length_cons] at enough small
      have loop := @parse_of_isItems _ _ next_is fuel rest (by omega) (by omega) fineSecond
      rw [List.cons_append] at value
      rw [List.append_assoc, List.cons_append, listLoop, if_neg apart, value]
      simp only [loop]
      rfl

theorem parse_of_isEntries {word : BString} {tree : Dict} : IsEntries false word tree →
    ∀ {fuel : ℕ} {last : Dict} {rest : Reader}, 2 * word.length ≤ fuel →
      word.length + rest.length < 2 ^ 64 → (erange = true → tree.hasExtreme = false) →
      dictionaryLoop erange fuel last (word ++ rest) = .ok (tree.mirrorOnto last, rest)
  | .nil, fuel, last, rest, enough, small, fine => by
      rcases fuel with _ | fuel
      · simp at enough
      rw [List.singleton_append, dictionaryLoop, if_pos rfl]
      rfl
  | @IsEntries.cons _ first second third key val entries key_is val_is next_is, fuel, last, rest,
      enough, small, fine => by
      rcases fuel with _ | fuel
      · have positive := List.length_pos_of_ne_nil (entries_ne_nil (.cons key_is val_is next_is))
        omega
      have positive := List.length_pos_of_ne_nil (entries_ne_nil next_is)
      rw [List.length_append, List.length_append] at enough small
      have fineFirst : erange = true → val.hasExtreme = false := fun old =>
        (Bool.or_eq_false_iff.mp (fine old)).1
      have fineSecond : erange = true → entries.hasExtreme = false := fun old =>
        (Bool.or_eq_false_iff.mp (fine old)).2
      have string : parseString (first ++ (second ++ (third ++ rest))) =
          .ok (key, second ++ (third ++ rest)) :=
        (parseString_eq_ok (by simp only [List.length_append]; omega)).mpr
          ⟨first, key_is, rfl, by simp [entries_ne_nil next_is]⟩
      have value := @parse_of_isValue _ _ val_is fuel (third ++ rest) (by omega)
        (by simp [entries_ne_nil next_is]) (by rw [List.length_append]; omega) fineFirst
      rcases string_begins key_is with ⟨character, others, rfl, apart, -⟩
      rw [List.length_cons] at enough small
      have loop := @parse_of_isEntries _ _ next_is fuel (.cons key val.mirror last) rest (by omega)
        (by omega) fineSecond
      rw [List.cons_append] at string
      rw [List.append_assoc, List.append_assoc, List.cons_append, dictionaryLoop, if_neg apart,
        string]
      simp only [value, loop]
      rfl

end

/-! ## Dictionaries -/

/-- What `parseDictionary` accepts -/
theorem parseDictionary_eq_ok {reader reader' : Reader} {entries : Dict}
    (small : reader.length < 2 ^ 64) :
    parseDictionary erange reader = .ok (entries, reader') ↔
      ∃ word tree, IsDictionary false word tree ∧ entries = tree.mirrorOnto .nil ∧
        (erange = true → tree.hasExtreme = false) ∧ reader = word ++ reader' := by
  unfold parseDictionary
  constructor
  · intro parsed
    cases byte : readByte reader with
    | error failure =>
        rw [byte] at parsed
        cases parsed
    | ok pair =>
        rcases pair with ⟨nextChar, rest⟩
        rcases readByte_eq_ok.mp byte with ⟨rfl, -⟩
        simp only [byte] at parsed
        split_ifs at parsed with is
        rw [List.length_cons] at small
        rcases readsEntries_of_parse _ (by omega) parsed with
          ⟨word, tree, isEntries, whole, fine, rfl⟩
        exact ⟨D :: word, tree, .intro isEntries, whole, fine, by rw [is]; rfl⟩
  · rintro ⟨word, tree, ⟨isEntries⟩, rfl, fine, rfl⟩
    rename_i word
    rw [List.length_append, List.length_cons] at small
    have loop := @parse_of_isEntries erange _ _ isEntries (2 * (D :: word ++ reader').length) .nil
      reader' (by simp only [List.length_append, List.length_cons]; omega) (by omega) fine
    rw [List.cons_append] at loop ⊢
    rw [readByte_cons (by simp [entries_ne_nil isEntries])]
    simp only [if_true, loop]

/-! ## The fuel is enough -/

theorem sizeLoop_ne_outOfFuel (i : ℕ) (number : BString) (reader : Reader) :
    sizeLoop i number reader ≠ .error .outOfFuel := by
  fun_induction sizeLoop i number reader <;> simp_all

theorem parseString_ne_outOfFuel (reader : Reader) : parseString reader ≠ .error .outOfFuel := by
  have loop := sizeLoop_ne_outOfFuel 0 [] reader
  unfold parseString
  split
  · simp_all
  · dsimp only
    split_ifs <;> simp

theorem integerLoop_ne_outOfFuel (i : ℕ) (buffer : BString) (reader : Reader) :
    integerLoop i buffer reader ≠ .error .outOfFuel := by
  fun_induction integerLoop i buffer reader <;> simp_all

theorem parseint64_t_ne_outOfFuel (reader : Reader) :
    parseint64_t erange reader ≠ .error .outOfFuel := by
  have loop := integerLoop_ne_outOfFuel 0 [] reader
  unfold parseint64_t
  split
  · simp_all
  · dsimp only
    split_ifs <;> simp

/-- What is behind a value is shorter. -/
theorem length_lt_of_parse {fuel : ℕ} {reader reader' : Reader} {object : Object}
    (small : reader.length < 2 ^ 64)
    (parsed : parseGeneric erange fuel reader = .ok (object, reader')) :
    reader'.length < reader.length := by
  rcases readsValue_of_parse fuel small parsed with ⟨word, tree, isValue, -, -, rfl⟩
  rcases value_begins isValue with ⟨first, rest, rfl, -⟩
  rw [List.length_append, List.length_cons]
  omega

theorem map_ne_outOfFuel {α β : Type} {parsed : Parsed α} {f : α × Reader → β × Reader}
    (fine : parsed ≠ .error .outOfFuel) : parsed.map f ≠ .error .outOfFuel := by
  rcases parsed with failure | value
  · intro same
    cases same
    exact fine rfl
  · intro same
    cases same

mutual

theorem parseGeneric_ne_outOfFuel : ∀ (fuel : ℕ) {reader : Reader}, reader.length < 2 ^ 64 →
    2 * reader.length + 1 ≤ fuel → parseGeneric erange fuel reader ≠ .error .outOfFuel
  | 0, _, _, enough => by omega
  | _ + 1, [], _, _ => by simp [parseGeneric]
  | fuel + 1, first :: rest, small, enough => by
      rw [parseGeneric]
      rw [List.length_cons] at small enough
      split_ifs
      · exact map_ne_outOfFuel (parseString_ne_outOfFuel _)
      · exact map_ne_outOfFuel (parseint64_t_ne_outOfFuel _)
      · rcases rest with _ | ⟨next, rest⟩
        · simp [readByte]
        · exact map_ne_outOfFuel (listLoop_ne_outOfFuel fuel (by omega) (by omega))
      · rcases rest with _ | ⟨next, rest⟩
        · simp [readByte]
        · exact map_ne_outOfFuel (dictionaryLoop_ne_outOfFuel fuel _ (by omega) (by omega))
      · simp

theorem listLoop_ne_outOfFuel : ∀ (fuel : ℕ) {reader : Reader}, reader.length < 2 ^ 64 →
    2 * reader.length + 2 ≤ fuel → listLoop erange fuel reader ≠ .error .outOfFuel
  | 0, _, _, enough => by omega
  | _ + 1, [], _, _ => by simp [listLoop]
  | fuel + 1, nextChar :: rest, small, enough => by
      have value := @parseGeneric_ne_outOfFuel fuel (nextChar :: rest) small (by omega)
      rw [listLoop]
      split_ifs
      · simp
      · cases parsed : parseGeneric erange fuel (nextChar :: rest) with
        | error failure => simp_all
        | ok pair =>
            have shorter := length_lt_of_parse small parsed
            exact map_ne_outOfFuel (listLoop_ne_outOfFuel fuel (by omega) (by omega))

theorem dictionaryLoop_ne_outOfFuel : ∀ (fuel : ℕ) (last : Dict) {reader : Reader},
    reader.length < 2 ^ 64 → 2 * reader.length + 2 ≤ fuel →
      dictionaryLoop erange fuel last reader ≠ .error .outOfFuel
  | 0, _, _, _, enough => by omega
  | _ + 1, _, [], _, _ => by simp [dictionaryLoop]
  | fuel + 1, last, nextChar :: rest, small, enough => by
      have key := parseString_ne_outOfFuel (nextChar :: rest)
      rw [dictionaryLoop]
      split_ifs
      · simp
      · cases string : parseString (nextChar :: rest) with
        | error failure => simp_all
        | ok pair =>
            rcases pair with ⟨content, second⟩
            rcases (parseString_eq_ok small).mp string with ⟨word, isString, whole, -⟩
            have length := congrArg List.length whole
            rcases string_begins isString with ⟨first, others, rfl, -⟩
            rw [List.length_append, List.length_cons, List.length_cons] at length
            rw [List.length_cons] at small enough
            have value := @parseGeneric_ne_outOfFuel fuel second (by omega) (by omega)
            simp only
            cases parsed : parseGeneric erange fuel second with
            | error failure => simp_all
            | ok pair =>
                have shorter := length_lt_of_parse (by omega) parsed
                exact dictionaryLoop_ne_outOfFuel fuel _ (by omega) (by omega)

end

/-- The parser stops before the model does. -/
theorem parseDictionary_ne_outOfFuel {reader : Reader} (small : reader.length < 2 ^ 64) :
    parseDictionary erange reader ≠ .error .outOfFuel := by
  unfold parseDictionary
  rcases reader with _ | ⟨first, _ | ⟨next, rest⟩⟩
  · simp [readByte]
  · simp [readByte]
  · simp only [readByte]
    split_ifs
    · simp only [List.length_cons] at small
      exact dictionaryLoop_ne_outOfFuel _ _ (by simp only [List.length_cons]; omega)
        (by simp only [List.length_cons]; omega)
    · simp

/-! ## The words that are accepted -/

/-- The parser returns a tree and a number of bytes if they are those of a word at the front of the
bytes, and only then. -/
def AcceptsExactly (erange : Bool) (behind : BitVec 8) (bytes : BString) : Prop :=
  ∀ output size,
    (∃ reader, parseDictionary erange (newReader bytes behind) = .ok (output, reader) ∧
        bytesRead (newReader bytes behind) reader = size) ↔
      ∃ word tree, IsDictionary true word tree ∧ word <+: bytes ∧
        output = tree.mirrorOnto .nil ∧ size = word.length

/-- The words in front, with keys that may do without digits and one that may end behind the
buffer, are strict ones inside the buffer exactly if no extreme integer meets `ERANGE`. -/
def WordsAgree (erange : Bool) (behind : BitVec 8) (bytes : BString) : Prop :=
  ∀ word tree, IsDictionary false word tree → word <+: newReader bytes behind →
    (IsDictionary true word tree ∧ word <+: bytes ↔ ¬(erange = true ∧ tree.hasExtreme = true))

/-- There is one word in front, and it stands for one dictionary. -/
theorem word_unique {reader first second : Reader} {one two : Dict}
    (small : reader.length < 2 ^ 64) (firstIs : IsDictionary false first one)
    (secondIs : IsDictionary false second two) (firstIn : first <+: reader)
    (secondIn : second <+: reader) : first = second ∧ one = two := by
  rcases firstIn with ⟨firstRest, rfl⟩
  rcases secondIn with ⟨secondRest, same⟩
  have parseFirst := (@parseDictionary_eq_ok false _ _ _ small).mpr
    ⟨first, one, firstIs, rfl, fun impossible => absurd impossible (by decide), rfl⟩
  have parseSecond := (@parseDictionary_eq_ok false _ _ _ small).mpr
    ⟨second, two, secondIs, rfl, fun impossible => absurd impossible (by decide), same.symm⟩
  rw [parseFirst, Except.ok.injEq, Prod.mk.injEq] at parseSecond
  have mirrors := congrArg (fun dictionary => Dict.mirrorOnto dictionary .nil) parseSecond.1
  simp only [Dict.mirror_mirror] at mirrors
  rw [parseSecond.2] at same
  exact ⟨(List.append_cancel_right same).symm, mirrors⟩

theorem bytesRead_append (word rest : Reader) : bytesRead (word ++ rest) rest = word.length := by
  rw [bytesRead, List.length_append, Nat.add_sub_cancel]

/-- The parser accepts exactly bencode where the words agree. -/
theorem acceptsExactly_iff {behind : BitVec 8} {bytes : BString} (small : bytes.length < 2 ^ 63) :
    AcceptsExactly erange behind bytes ↔ WordsAgree erange behind bytes := by
  have bound : (newReader bytes behind).length < 2 ^ 64 := by
    rw [newReader, List.length_append, List.length_singleton]
    omega
  have inside {word : BString} (front : word <+: bytes) : word <+: newReader bytes behind :=
    front.trans (List.prefix_append _ _)
  constructor
  · intro exactly word tree lenient front
    rcases front with ⟨rest, whole⟩
    constructor
    · rintro ⟨strict, front⟩ ⟨old, extreme⟩
      rcases (exactly _ _).mpr ⟨word, tree, strict, front, rfl, rfl⟩ with ⟨reader, parsed, -⟩
      rcases (parseDictionary_eq_ok bound).mp parsed with ⟨other, written, isWritten, -, fine, same⟩
      rcases word_unique bound lenient isWritten ⟨rest, whole⟩ ⟨reader, same.symm⟩ with ⟨-, rfl⟩
      rw [fine old] at extreme
      cases extreme
    · intro fine
      have parsed := (@parseDictionary_eq_ok erange _ _ _ bound).mpr
        ⟨word, tree, lenient, rfl, fun old => Bool.eq_false_iff.mpr fun extreme =>
          fine ⟨old, extreme⟩, whole.symm⟩
      rcases (exactly _ _).mp ⟨rest, parsed, rfl⟩ with ⟨other, written, strict, front, -, -⟩
      rcases word_unique bound lenient strict.lenient ⟨rest, whole⟩ (inside front) with ⟨rfl, rfl⟩
      exact ⟨strict, front⟩
  · intro agree output size
    constructor
    · rintro ⟨reader, parsed, rfl⟩
      rcases (parseDictionary_eq_ok bound).mp parsed with ⟨word, tree, lenient, rfl, fine, whole⟩
      rcases (agree word tree lenient ⟨reader, whole.symm⟩).mpr (by
        rintro ⟨old, extreme⟩
        rw [fine old] at extreme
        cases extreme) with ⟨strict, front⟩
      exact ⟨word, tree, strict, front, rfl, by rw [whole, bytesRead_append]⟩
    · rintro ⟨word, tree, strict, front, rfl, rfl⟩
      rcases inside front with ⟨rest, whole⟩
      have fine := (agree word tree strict.lenient ⟨rest, whole⟩).mp ⟨strict, front⟩
      refine ⟨rest, (parseDictionary_eq_ok bound).mpr ⟨word, tree, strict.lenient, rfl,
        fun old => Bool.eq_false_iff.mpr fun extreme => fine ⟨old, extreme⟩, whole.symm⟩, ?_⟩
      rw [← whole, bytesRead_append]

/-- The word `d1:ai-7e1:bl2:xyd1:c1:zeee` -/
def mixedWord : BString :=
  [D, 0x31, COLON, 0x61, I, MINUS, 0x37, E, 0x31, COLON, 0x62, L, 0x32, COLON, 0x78, 0x79,
    D, 0x31, COLON, 0x63, 0x31, COLON, 0x7A, E, E, E]

/-- What the word stands for: an integer, and a list of a string and a dictionary -/
def mixedTree : Dict :=
  .cons [0x61] (.integer (-7))
    (.cons [0x62] (.list (.cons (.string [0x78, 0x79])
      (.cons (.dict (.cons [0x63] (.string [0x7A]) .nil)) .nil))) .nil)

theorem mixedWord_isDictionary : IsDictionary true mixedWord mixedTree := by
  have oneLetter (letter : BitVec 8) : IsString true ([0x31] ++ COLON :: [letter]) [letter] :=
    .intro (by decide) (by decide) (by simp) rfl
  have twoLetters : IsString true ([0x32] ++ COLON :: [0x78, 0x79]) [0x78, 0x79] :=
    .intro (by decide) (by decide) (by simp) rfl
  have integer : IsInteger (I :: (signed true [0x37] ++ [E])) (-7) :=
    .intro (by decide) (by decide) (by decide) (by decide)
  have inner : IsEntries true _ (.cons [0x63] (.string [0x7A]) .nil) :=
    .cons (oneLetter 0x63) (.string (oneLetter 0x7A)) .nil
  have items : IsItems true _ _ := .cons (.string twoLetters) (.cons (.dict inner) .nil)
  exact .intro (.cons (oneLetter 0x61) (.integer integer)
    (.cons (oneLetter 0x62) (.list items) .nil))

/-- A word with all kinds of values, and more bytes behind it -/
theorem acceptsExactly_of_mixed : AcceptsExactly true 0 (mixedWord ++ [COLON]) := by
  refine (acceptsExactly_iff (by decide)).mpr ?_
  intro word tree lenient front
  rcases word_unique (by decide) lenient mixedWord_isDictionary.lenient front (by decide) with
    ⟨rfl, rfl⟩
  refine ⟨fun _ fails => absurd fails.2 (by decide), fun _ => ⟨mixedWord_isDictionary, ?_⟩⟩
  exact List.prefix_append _ _

/-- A key without the digits of its size is taken for the empty one. -/
theorem key_without_digits : ¬AcceptsExactly false 0 [D, COLON, 0x30, COLON, E] := by
  intro exactly
  have parsed : parseDictionary false (newReader [D, COLON, 0x30, COLON, E] 0) =
      .ok (.cons [] (.string []) .nil, [0]) := by
    rfl
  rcases (exactly _ _).mp ⟨_, parsed, rfl⟩ with ⟨word, tree, ⟨isEntries⟩, front, -, -⟩
  rw [List.cons_prefix_cons] at front
  cases isEntries with
  | nil => exact absurd front.2 (by decide)
  | cons key_is val_is next_is =>
      rcases string_begins key_is with ⟨first, rest, rfl, -, digit⟩
      rw [List.cons_append, List.cons_prefix_cons] at front
      rw [front.2.1] at digit
      cases digit rfl

end Cjdns.StandardBencSerializer
