import Cjdns.Benc.Bencode
import Cjdns.Benc.JsonBencSerializer
import Cjdns.Library.Fuel

/-!
# What the JSON parser reads back

What the parser makes of a text that was written: it refuses the escapes and the minus in front of
a number, which it leaves out in a list.
-/

namespace Cjdns

open Decimal StandardBencSerializer JsonBencSerializer

/-! ## What is read back -/

/-- A number that is read -/
def readInt (erange : Bool) (magnitude : ℕ) : Option Object :=
  if magnitude < 2 ^ 63 ∧ ¬(erange = true ∧ magnitude = 2 ^ 63 - 1) then
    some (.integer (BitVec.ofNat 64 magnitude))
  else none

mutual

/-- The object that is read where the object was written, in a list or elsewhere -/
def Object.readBack (erange inList : Bool) : Object → Option Object
  | .string bytes => if bytes.all isPlain then some (.string bytes) else none
  | .integer number =>
      if number.toInt < 0 ∧ inList = false then none else readInt erange number.toInt.natAbs
  | .list list => (list.readBack erange).map .list
  | .dict dictionary => (dictionary.readBack erange).map .dict

def BList.readBack (erange : Bool) : BList → Option BList
  | .nil => some .nil
  | .cons elem next =>
      (elem.readBack erange true).bind fun first => (next.readBack erange).map (.cons first)

def Dict.readBack (erange : Bool) : Dict → Option Dict
  | .nil => some .nil
  | .cons key val next =>
      if key.all isPlain then
        (val.readBack erange false).bind fun first => (next.readBack erange).map (.cons key first)
      else none

end

mutual

/-- Strings fit the parser's buffer. -/
def Object.Fits : Object → Prop
  | .string bytes => bytes.length < 2 ^ 20 - 1
  | .integer _ => True
  | .list list => list.Fits
  | .dict dictionary => dictionary.Fits

def BList.Fits : BList → Prop
  | .nil => True
  | .cons elem next => elem.Fits ∧ next.Fits

def Dict.Fits : Dict → Prop
  | .nil => True
  | .cons key val next => key.length < 2 ^ 20 - 1 ∧ val.Fits ∧ next.Fits

end

namespace JsonBencSerializer

open Fuel

/-! ## Strings -/

/-- What is written for a character -/
abbrev written (chr : BitVec 8) : BString :=
  if isPlain chr then [chr] else escape chr

/-- The second digit of an escape is missing. -/
theorem decodeByte_escape (high : BitVec 8) : Hex.decodeByte high 0 = none := by
  revert high
  decide +kernel

theorem stringLoop_of_ne {char next : BitVec 8} {rest : Reader} (apart : char ≠ BACKSLASH) (i : ℕ)
    (buffer : BString) :
    stringLoop i buffer (char :: next :: rest) =
      if i ≥ BUFF_MAX - 1 then .error .UNPARSABLE
      else if char = QUOTE then .ok (buffer, next :: rest)
      else stringLoop (i + 1) (buffer ++ [char]) (next :: rest) := by
  rcases rest with _ | ⟨high, _ | ⟨low, _ | ⟨third, rest⟩⟩⟩ <;>
    rw [stringLoop, if_neg apart] <;> simp

theorem stringLoop_written {bytes : BString} {i : ℕ} {buffer : BString} {rest : Reader}
    (behind : rest ≠ []) (fits : i + bytes.length < 2 ^ 20 - 1) :
    (stringLoop i buffer (bytes.flatMap written ++ QUOTE :: rest)).toOption =
      if bytes.all isPlain then some (buffer ++ bytes, rest) else none := by
  induction bytes generalizing i buffer with
  | nil =>
      rcases rest with _ | ⟨next, rest⟩
      · exact absurd rfl behind
      · have inside : ¬i ≥ BUFF_MAX - 1 := by
          simp only [BUFF_MAX]
          simp only [List.length_nil] at fits
          omega
        rw [List.flatMap_nil, List.nil_append, stringLoop_of_ne (by decide), if_neg inside,
          if_pos rfl, List.append_nil]
        rfl
  | cons chr bytes ih =>
      rw [List.length_cons] at fits
      have inside : ¬i ≥ BUFF_MAX - 1 := by
        simp only [BUFF_MAX]
        omega
      rcases after : bytes.flatMap written ++ QUOTE :: rest with _ | ⟨next, others⟩
      · simp at after
      · rw [List.flatMap_cons, List.append_assoc, after, List.all_cons]
        by_cases plain : isPlain chr = true
        · have apart : chr ≠ BACKSLASH ∧ chr ≠ QUOTE := by
            simp only [isPlain, decide_eq_true_eq] at plain
            exact plain.2.2
          rw [written, if_pos plain, List.singleton_append, stringLoop_of_ne apart.1, if_neg inside,
            if_neg apart.2, ← after, ih (by omega), plain, Bool.true_and]
          simp
        · rw [written, if_neg plain, escape]
          simp only [List.take_succ_cons, List.take_zero, List.cons_append, List.nil_append]
          rw [stringLoop, if_neg inside, if_pos rfl]
          simp only [decodeByte_escape, plain]
          rfl

theorem readUntil_self {target : BitVec 8} {rest : Reader} (behind : rest ≠ []) :
    readUntil target (target :: rest) = (none, rest) := by
  rcases rest with _ | ⟨next, rest⟩
  · exact absurd rfl behind
  · rw [readUntil, if_pos rfl]

/-- Strings are read back if they are written without escapes. -/
theorem parseString_written {bytes : BString} {rest : Reader} (behind : rest ≠ [])
    (fits : bytes.length < 2 ^ 20 - 1) :
    (parseString (serializeString bytes ++ rest)).toOption =
      if bytes.all isPlain then some (bytes, rest) else none := by
  have text : serializeString bytes ++ rest =
      QUOTE :: (bytes.flatMap written ++ QUOTE :: rest) := by
    simp [serializeString]
  rw [parseString, text, readUntil_self (by simp)]
  dsimp only
  rw [stringLoop_written behind (by omega), List.nil_append]

/-! ## Integers -/

theorem integerLoop_digits {digits buffer : BString} {left i : ℕ} {sep : BitVec 8} {rest : Reader}
    (all : ∀ digit ∈ digits, isDigit digit = true) (enough : digits.length < left)
    (ends : isDigit sep = false) (noMinus : sep ≠ MINUS) :
    integerLoop left i buffer (digits ++ sep :: rest) = .ok (buffer ++ digits, sep :: rest) := by
  induction digits generalizing buffer left i with
  | nil =>
      rcases left with _ | left
      · simp at enough
      · rw [List.nil_append, integerLoop, if_neg (fun minus => noMinus minus.2), if_pos ends,
          List.append_nil]
  | cons digit digits ih =>
      rcases left with _ | left
      · simp at enough
      · have isDigit_eq := all digit List.mem_cons_self
        have apart : digit ≠ MINUS := by
          rintro rfl
          cases isDigit_eq
        rw [List.length_cons] at enough
        rw [List.cons_append, integerLoop, if_neg (fun minus => apart minus.2),
          if_neg (by rw [isDigit_eq]; decide),
          ih (fun other inside => all other (List.mem_cons_of_mem _ inside)) (by omega)]
        simp

/-- Digits are read back unless the number is too large, or taken to be. -/
theorem parseint64_t_digits {erange : Bool} {magnitude : ℕ} {sep : BitVec 8} {rest : Reader}
    (small : magnitude ≤ 2 ^ 63) (ends : isDigit sep = false) (noMinus : sep ≠ MINUS) :
    ((parseint64_t erange (ofNat magnitude ++ sep :: rest)).toOption.map
        fun parsed => (Object.integer parsed.1, parsed.2)) =
      (readInt erange magnitude).map fun object => (object, sep :: rest) := by
  have length : (ofNat magnitude).length ≤ 20 :=
    length_ofNat_le (by omega) (lt_of_le_of_lt small (by norm_num))
  have all : ∀ digit ∈ ofNat magnitude, isDigit digit = true := fun _ inside =>
    isDigit_of_mem_ofNat inside
  have read := @strtol_signed false (ofNat magnitude) [] 0 (ofNat_ne_nil _) all (by decide)
  simp only [Bool.false_eq_true, if_false, List.nil_append, value_ofNat] at read
  have zero : (ofNat magnitude).getD 0 0 = 0x30 ∨ magnitude ≠ 0 := by
    by_cases none : magnitude = 0
    · rw [none]
      exact .inl rfl
    · exact .inr none
  rw [parseint64_t, integerLoop_digits all (by omega) ends noMinus, List.nil_append]
  simp only [read]
  by_cases range : magnitude < 2 ^ 63
  · simp only [if_pos range, Bool.or_false]
    rw [if_neg (by
      rintro ⟨nothing, first, -⟩
      rcases zero with same | some
      · exact first same
      · exact some (by exact_mod_cast nothing))]
    by_cases stale : erange = true ∧ magnitude = 2 ^ 63 - 1
    · rw [if_pos ⟨.inl (by omega), stale.1⟩, readInt, if_neg (fun fine => fine.2 stale)]
      rfl
    · rw [if_neg (by
        rintro ⟨extreme, old⟩
        exact stale ⟨old, by omega⟩), readInt, if_pos ⟨range, stale⟩, BitVec.ofInt_natCast]
      rfl
  · simp only [if_neg range]
    rw [if_neg (by
      rintro ⟨nothing, -⟩
      norm_num at nothing), if_pos (by simp), readInt, if_neg (fun fine => range fine.1)]
    rfl

/-! ## The loops on what was written -/

variable {erange : Bool}

theorem PAD_eq_some {padSpaces fuel padCounter : ℕ} {spaces : BString}
    (written : PAD padSpaces fuel padCounter = some spaces) :
    padSpaces + padCounter ≤ 32 ∧ spaces = List.replicate (padSpaces - padCounter) SPACE := by
  induction fuel generalizing padCounter spaces with
  | zero => cases written
  | succ fuel ih =>
      rw [PAD] at written
      split_ifs at written with beyond
      · rcases Option.map_eq_some_iff.mp written with ⟨others, more, -⟩
        have bound := (ih more).1
        omega
      · exact ⟨by omega, (Option.some.inj written).symm⟩

/-- What a loop comes to with enough fuel; a failure of any kind is none. -/
abbrev Reads {α : Type} (run : ℕ → Parsed α) (result : Option (α × Reader)) : Prop :=
  Settles (fun fuel => (run fuel).toOption) result

theorem toOption_map {α β : Type} (parsed : Parsed α) (f : α × Reader → β × Reader) :
    (parsed.map f).toOption = parsed.toOption.map f := by
  cases parsed <;> rfl

theorem eq_ok_of_toOption {α : Type} {parsed : Parsed α} {pair : α × Reader}
    (same : parsed.toOption = some pair) : parsed = .ok pair := by
  cases parsed with
  | error failure => cases same
  | ok value =>
      cases same
      rfl

/-- A loop that makes a step before another one -/
theorem reads_step {α : Type} {run rest : ℕ → Parsed α} {result : Option (α × Reader)}
    (reads : Reads rest result) (step : ∀ fuel, run (fuel + 1) = rest fuel) : Reads run result :=
  reads.succ fun fuel => congrArg Except.toOption (step fuel)

/-- A loop that comes to its result in one step -/
theorem reads_of_eq {α : Type} {run : ℕ → Parsed α} {result : Option (α × Reader)}
    (same : ∀ fuel, (run (fuel + 1)).toOption = result) : Reads run result :=
  Settles.of_succ_eq same

/-- A loop that hands on what another one reads -/
theorem reads_map {α β : Type} {run : ℕ → Parsed β} {rest : ℕ → Parsed α}
    {result : Option (α × Reader)} (f : α × Reader → β × Reader) (reads : Reads rest result)
    (step : ∀ fuel, run (fuel + 1) = (rest fuel).map f) : Reads run (result.map f) :=
  (Settles.map (Option.map f) reads).succ fun fuel => by
    rw [step, toOption_map]

theorem genericLoop_space {reader : Reader} {result : Option (Object × Reader)} {char : BitVec 8}
    (reads : Reads (fun fuel => genericLoop erange fuel SPACE reader) result) :
    Reads (fun fuel => genericLoop erange fuel char (SPACE :: reader)) result :=
  reads_step reads fun fuel => by
    rw [genericLoop_cons]
    exact if_pos rfl

/-- What is not understood in a list is skipped. -/
theorem listLoop_skip {char : BitVec 8} {reader : Reader} {result : Option (BList × Reader)}
    (slash : char ≠ SLASH) (begins : beginsElement char = false) (ends : char ≠ LIST_END)
    (reads : Reads (fun fuel => listLoop erange fuel reader) result) :
    Reads (fun fuel => listLoop erange fuel (char :: reader)) result :=
  reads_step reads fun fuel => by
    rw [listLoop, if_neg slash, if_neg (by rw [begins]; decide), if_neg ends]

theorem listLoop_spaces {number : ℕ} {reader : Reader} {result : Option (BList × Reader)}
    (reads : Reads (fun fuel => listLoop erange fuel reader) result) :
    Reads (fun fuel => listLoop erange fuel (List.replicate number SPACE ++ reader)) result := by
  induction number with
  | zero => exact reads
  | succ number ih => exact listLoop_skip (by decide) (by decide) (by decide) ih

theorem dictionaryLoop_skip {char stale : BitVec 8} {last : Dict} {reader : Reader}
    {result : Option (Dict × Reader)} (quote : char ≠ QUOTE) (ends : char ≠ DICT_END)
    (slash : char ≠ SLASH)
    (reads : Reads (fun fuel => dictionaryLoop erange fuel char last reader) result) :
    Reads (fun fuel => dictionaryLoop erange fuel stale last (char :: reader)) result :=
  reads_step reads fun fuel => by
    rw [dictionaryLoop_cons, if_neg quote, if_neg ends, if_neg slash]

theorem dictionaryLoop_spaces {number : ℕ} {last : Dict} {reader : Reader}
    {result : Option (Dict × Reader)}
    (reads : ∀ stale, Reads (fun fuel => dictionaryLoop erange fuel stale last reader) result)
    (stale : BitVec 8) :
    Reads (fun fuel => dictionaryLoop erange fuel stale last
      (List.replicate number SPACE ++ reader)) result := by
  induction number generalizing stale with
  | zero => exact reads stale
  | succ number ih => exact dictionaryLoop_skip (by decide) (by decide) (by decide) (ih SPACE)

/-- An element and the rest of a list -/
theorem listLoop_element {char : BitVec 8} {rest after behind : Reader} {first : Option Object}
    {others : Option BList} (begins : beginsElement char = true)
    (elem : Reads (fun fuel => genericLoop erange fuel 0 (char :: rest))
      (first.map fun tree => (tree.mirror, after)))
    (items : Reads (fun fuel => listLoop erange fuel after)
      (others.map fun tree => (tree.mirror, behind))) :
    Reads (fun fuel => listLoop erange fuel (char :: rest))
      ((first.bind fun tree => others.map fun next => BList.cons tree next).map
        fun tree => (tree.mirror, behind)) := by
  have slash : char ≠ SLASH := by
    rintro rfl
    cases begins
  rcases elem with ⟨enough, elem⟩
  rcases items with ⟨further, items⟩
  refine ⟨max enough further + 1, fun fuel more => ?_⟩
  rcases fuel with _ | fuel
  · omega
  have elem_eq := elem fuel (by omega)
  have items_eq := items fuel (by omega)
  dsimp only at elem_eq items_eq ⊢
  rw [listLoop, if_neg slash, if_pos begins]
  cases parsed : genericLoop erange fuel 0 (char :: rest) with
  | error failure =>
      rw [parsed] at elem_eq
      rw [Option.map_eq_none_iff.mp elem_eq.symm]
      rfl
  | ok pair =>
      rw [parsed] at elem_eq
      rcases Option.map_eq_some_iff.mp elem_eq.symm with ⟨tree, rfl, rfl⟩
      dsimp only
      rw [toOption_map, items_eq]
      cases others <;> rfl

theorem dictionaryLoop_bad_key {text : BString} {stale : BitVec 8} {last : Dict}
    (string : (parseString (QUOTE :: text)).toOption = none) :
    Reads (fun fuel => dictionaryLoop erange fuel stale last (QUOTE :: text)) none :=
  reads_of_eq fun fuel => by
    rw [dictionaryLoop_cons, if_pos rfl]
    cases parsed : parseString (QUOTE :: text) with
    | error failure => rfl
    | ok pair =>
        rw [parsed] at string
        cases string

/-- A key with its value and the rest of a dictionary -/
theorem dictionaryLoop_entry {text key : BString} {second after : Reader} {first : Option Object}
    {stale : BitVec 8} {last : Dict} {result : Object → Option (Dict × Reader)}
    (string : parseString (QUOTE :: text) = .ok (key, second))
    (value : Reads (fun fuel => genericLoop erange fuel 0 (readUntil COLON second).2)
      (first.map fun tree => (tree.mirror, after)))
    (entries : ∀ tree, first = some tree →
      Reads (fun fuel => dictionaryLoop erange fuel QUOTE (.cons key tree.mirror last) after)
        (result tree)) :
    Reads (fun fuel => dictionaryLoop erange fuel stale last (QUOTE :: text))
      (first.bind result) := by
  rcases value with ⟨enough, value⟩
  cases first with
  | none =>
      refine ⟨enough + 1, fun fuel more => ?_⟩
      rcases fuel with _ | fuel
      · omega
      have value_eq := value fuel (by omega)
      dsimp only [Option.map_none] at value_eq ⊢
      rw [dictionaryLoop_cons, if_pos rfl, string]
      dsimp only
      cases parsed : genericLoop erange fuel 0 (readUntil COLON second).2 with
      | error failure => rfl
      | ok pair =>
          rw [parsed] at value_eq
          cases value_eq
  | some tree =>
      rcases entries tree rfl with ⟨further, entries⟩
      refine ⟨max enough further + 1, fun fuel more => ?_⟩
      rcases fuel with _ | fuel
      · omega
      have value_eq := value fuel (by omega)
      have entries_eq := entries fuel (by omega)
      dsimp only [Option.map_some] at value_eq entries_eq ⊢
      rw [dictionaryLoop_cons, if_pos rfl, string]
      dsimp only
      cases parsed : genericLoop erange fuel 0 (readUntil COLON second).2 with
      | error failure =>
          rw [parsed] at value_eq
          cases value_eq
      | ok pair =>
          rw [parsed] at value_eq
          cases value_eq
          exact entries_eq

/-! ## Every text that was written -/

/-- What follows an element -/
def IsSeparator (char : BitVec 8) : Prop :=
  char = COMMA ∨ char = NEWLINE

theorem IsSeparator.ends {char : BitVec 8} (separator : IsSeparator char) :
    isDigit char = false ∧ char ≠ MINUS := by
  rcases separator with rfl | rfl <;> exact ⟨by decide, by decide⟩

theorem natAbs_toInt_le (number : BitVec 64) : number.toInt.natAbs ≤ 2 ^ 63 := by
  have low := BitVec.le_toInt number
  have high := @BitVec.toInt_lt 64 number
  omega

/-- Digits that were written are read as a number. -/
theorem genericLoop_digits {magnitude : ℕ} {sep stale : BitVec 8} {rest : Reader}
    (small : magnitude ≤ 2 ^ 63) (separator : IsSeparator sep) :
    Reads (fun fuel => genericLoop erange fuel stale (ofNat magnitude ++ sep :: rest))
      ((readInt erange magnitude).map fun tree => (tree.mirror, sep :: rest)) := by
  have read := @parseint64_t_digits erange _ sep rest small separator.ends.1 separator.ends.2
  have whole : ((readInt erange magnitude).map fun tree => (tree.mirror, sep :: rest)) =
      (readInt erange magnitude).map fun tree => (tree, sep :: rest) := by
    unfold readInt
    split_ifs <;> rfl
  refine reads_of_eq fun fuel => ?_
  rcases text : ofNat magnitude with _ | ⟨digit, digits⟩
  · exact absurd text (ofNat_ne_nil _)
  · have isDigit_eq : isDigit digit = true :=
      isDigit_of_mem_ofNat (by rw [text]; exact List.mem_cons_self)
    have plain : ∀ digit : BitVec 8, isDigit digit = true →
        isWhite digit = false ∧ digit ≠ SLASH := by decide
    rw [text] at read
    rw [List.cons_append] at read ⊢
    rw [genericLoop_cons, if_neg (by rw [(plain _ isDigit_eq).1]; decide),
      if_neg (plain _ isDigit_eq).2, if_pos isDigit_eq, toOption_map, read, whole]

/-- The digits of a number begin an element. -/
theorem ofNat_begins (magnitude : ℕ) :
    ∃ digit digits, ofNat magnitude = digit :: digits ∧ beginsElement digit = true := by
  rcases text : ofNat magnitude with _ | ⟨digit, digits⟩
  · exact absurd text (ofNat_ne_nil _)
  · have isDigit_eq : isDigit digit = true :=
      isDigit_of_mem_ofNat (by rw [text]; exact List.mem_cons_self)
    exact ⟨digit, digits, rfl, by simp [beginsElement, isDigit_eq]⟩

/-- An object is a negative integer. -/
def IsNegative (object : Object) : Prop :=
  ∃ number : BitVec 64, object = .integer number ∧ number.toInt < 0

/-- Whatever is not a negative integer is understood in a list. -/
theorem written_begins {object : Object} {padFuel pad : ℕ} {text : BString}
    (written : serializeGenericWithPadding padFuel pad object = some text)
    (plain : ¬IsNegative object) :
    ∃ char others, text = char :: others ∧ beginsElement char = true := by
  cases object with
  | string bytes =>
      cases written
      exact ⟨QUOTE, _, rfl, by decide⟩
  | integer number =>
      cases written
      rw [ofInt, if_neg (fun negative => plain ⟨number, rfl, negative⟩)]
      exact ofNat_begins _
  | list list =>
      rw [serializeGenericWithPadding] at written
      rcases Option.bind_eq_some_iff.mp written with ⟨items, -, written⟩
      rcases Option.bind_eq_some_iff.mp written with ⟨spaces, -, written⟩
      cases written
      exact ⟨LIST_BEGIN, _, rfl, by decide⟩
  | dict dictionary =>
      rw [serializeGenericWithPadding] at written
      rcases Option.bind_eq_some_iff.mp written with ⟨entries, -, written⟩
      rcases Option.bind_eq_some_iff.mp written with ⟨spaces, -, written⟩
      cases written
      exact ⟨DICT_BEGIN, _, rfl, by decide⟩

theorem readBack_inList {object : Object} (plain : ¬IsNegative object) :
    object.readBack erange true = object.readBack erange false := by
  cases object with
  | string bytes => rfl
  | integer number =>
      have positive : ¬number.toInt < 0 := fun negative => plain ⟨number, rfl, negative⟩
      rw [Object.readBack, Object.readBack, if_neg (fun both => positive both.1),
        if_neg (fun both => positive both.1)]
  | list list => rfl
  | dict dictionary => rfl

mutual

theorem genericLoop_written : ∀ (object : Object) {padFuel pad : ℕ} {text : BString},
    serializeGenericWithPadding padFuel pad object = some text → object.Fits →
      ∀ {sep : BitVec 8} (rest : Reader) (stale : BitVec 8), IsSeparator sep →
        Reads (fun fuel => genericLoop erange fuel stale (text ++ sep :: rest))
          ((object.readBack erange false).map fun tree => (tree.mirror, sep :: rest))
  | .string bytes, _, _, _, written, fits, sep, rest, stale, separator => by
      cases written
      have read := parseString_written (List.cons_ne_nil sep rest) fits
      refine reads_of_eq fun fuel => ?_
      rw [serializeString, List.cons_append] at read ⊢
      rw [genericLoop_cons, if_neg (by decide), if_neg (by decide), if_neg (by decide),
        if_neg (by decide), if_neg (by decide), if_pos rfl, toOption_map, read, Object.readBack]
      split_ifs <;> rfl
  | .integer number, _, _, _, written, _, sep, rest, stale, separator => by
      cases written
      rw [Object.readBack]
      by_cases negative : number.toInt < 0
      · rw [if_pos ⟨negative, rfl⟩, ofInt, if_pos negative]
        refine reads_of_eq fun fuel => ?_
        rw [List.cons_append, genericLoop_cons, if_neg (by decide), if_neg (by decide),
          if_neg (by decide), if_neg (by decide), if_neg (by decide), if_neg (by decide)]
        rfl
      · rw [if_neg (fun both => negative both.1), ofInt, if_neg negative]
        exact genericLoop_digits (natAbs_toInt_le number) separator
  | .list list, padFuel, pad, _, written, fits, sep, rest, stale, separator => by
      rw [serializeGenericWithPadding] at written
      rcases Option.bind_eq_some_iff.mp written with ⟨items, itemsWritten, written⟩
      rcases Option.bind_eq_some_iff.mp written with ⟨spaces, spacesWritten, written⟩
      cases written
      rcases PAD_eq_some spacesWritten with ⟨-, rfl⟩
      have loop := listLoop_written list itemsWritten fits (pad - 0) (sep :: rest)
      have whole := @listLoop_skip erange NEWLINE _ _ (by decide) (by decide) (by decide) loop
      have reads := @reads_map _ _ (fun fuel => genericLoop erange fuel stale
        (LIST_BEGIN :: NEWLINE :: (items ++ NEWLINE ::
          (List.replicate (pad - 0) SPACE ++ LIST_END :: sep :: rest)))) _ _
        (fun parsed => (Object.list parsed.1, parsed.2)) whole fun fuel => by
          rw [genericLoop_cons, if_neg (by decide), if_neg (by decide), if_neg (by decide),
            if_pos rfl, readUntil_self (List.cons_ne_nil _ _)]
      have text : [LIST_BEGIN, NEWLINE] ++ (items ++ NEWLINE ::
          (List.replicate (pad - 0) SPACE ++ [LIST_END])) ++ sep :: rest =
            LIST_BEGIN :: NEWLINE :: (items ++ NEWLINE ::
              (List.replicate (pad - 0) SPACE ++ LIST_END :: sep :: rest)) := by
        simp
      rw [text, Object.readBack, Option.map_map]
      rw [Option.map_map] at reads
      exact reads
  | .dict dictionary, padFuel, pad, _, written, fits, sep, rest, stale, separator => by
      rw [serializeGenericWithPadding] at written
      rcases Option.bind_eq_some_iff.mp written with ⟨entries, entriesWritten, written⟩
      rcases Option.bind_eq_some_iff.mp written with ⟨spaces, spacesWritten, written⟩
      cases written
      rcases PAD_eq_some spacesWritten with ⟨-, rfl⟩
      have loop := dictionaryLoop_written dictionary entriesWritten fits (pad - 0) (sep :: rest)
        .nil NEWLINE
      have whole := @dictionaryLoop_skip erange NEWLINE 0 _ _ _ (by decide) (by decide) (by decide)
        loop
      have reads := @reads_map _ _ (fun fuel => genericLoop erange fuel stale
        (DICT_BEGIN :: NEWLINE :: (entries ++ NEWLINE ::
          (List.replicate (pad - 0) SPACE ++ DICT_END :: sep :: rest)))) _ _
        (fun parsed => (Object.dict parsed.1, parsed.2)) whole fun fuel => by
          rw [genericLoop_cons, if_neg (by decide), if_neg (by decide), if_neg (by decide),
            if_neg (by decide), if_pos rfl, readUntil_self (List.cons_ne_nil _ _)]
      have text : [DICT_BEGIN, NEWLINE] ++ (entries ++ NEWLINE ::
          (List.replicate (pad - 0) SPACE ++ [DICT_END])) ++ sep :: rest =
            DICT_BEGIN :: NEWLINE :: (entries ++ NEWLINE ::
              (List.replicate (pad - 0) SPACE ++ DICT_END :: sep :: rest)) := by
        simp
      rw [text, Object.readBack, Option.map_map]
      rw [Option.map_map] at reads
      exact reads

theorem listLoop_written : ∀ (list : BList) {padFuel pad : ℕ} {text : BString},
    serializeItems padFuel pad list = some text → list.Fits →
      ∀ (number : ℕ) (rest : Reader),
        Reads (fun fuel => listLoop erange fuel
            (text ++ NEWLINE :: (List.replicate number SPACE ++ LIST_END :: rest)))
          ((list.readBack erange).map fun tree => (tree.mirror, rest))
  | .nil, _, _, _, written, _, number, rest => by
      cases written
      refine listLoop_skip (by decide) (by decide) (by decide) (listLoop_spaces ?_)
      exact reads_of_eq fun fuel => by
        rw [listLoop, if_neg (by decide), if_neg (by decide), if_pos rfl]
        rfl
  | .cons elem next, padFuel, pad, _, written, fits, number, rest => by
      rw [serializeItems] at written
      rcases Option.bind_eq_some_iff.mp written with ⟨spaces, spacesWritten, written⟩
      rcases Option.bind_eq_some_iff.mp written with ⟨text, elemWritten, written⟩
      rcases Option.bind_eq_some_iff.mp written with ⟨restText, nextWritten, written⟩
      cases written
      rcases PAD_eq_some spacesWritten with ⟨-, rfl⟩
      have loop := listLoop_written next nextWritten fits.2 number rest
      have behind : ∃ sep others, listSeparator next ++ (restText ++
          NEWLINE :: (List.replicate number SPACE ++ LIST_END :: rest)) = sep :: others ∧
          IsSeparator sep ∧ Reads (fun fuel => listLoop erange fuel (sep :: others))
            ((next.readBack erange).map fun tree => (tree.mirror, rest)) := by
        cases next with
        | nil =>
            cases nextWritten
            exact ⟨NEWLINE, _, rfl, .inr rfl, loop⟩
        | cons second third =>
            exact ⟨COMMA, _, rfl, .inl rfl, listLoop_skip (by decide) (by decide) (by decide)
              (listLoop_skip (by decide) (by decide) (by decide) loop)⟩
      rcases behind with ⟨sep, others, behind, separator, items⟩
      simp only [List.append_assoc]
      rw [behind]
      refine listLoop_spaces ?_
      by_cases negative : IsNegative elem
      · rcases negative with ⟨integer, rfl, negative⟩
        cases elemWritten
        have value := @genericLoop_digits erange _ sep 0 others (natAbs_toInt_le integer) separator
        rcases ofNat_begins integer.toInt.natAbs with ⟨digit, digits, digits_eq, begins⟩
        rw [digits_eq] at value
        rw [ofInt, if_pos negative, digits_eq]
        refine listLoop_skip (by decide) (by decide) (by decide) ?_
        have whole := listLoop_element begins value items
        rw [BList.readBack, Object.readBack, if_neg (fun both => by cases both.2)]
        exact whole
      · have value := genericLoop_written elem elemWritten fits.1 others 0 separator
        rcases written_begins elemWritten negative with ⟨char, more, rfl, begins⟩
        rw [← readBack_inList negative] at value
        exact listLoop_element begins value items

theorem dictionaryLoop_written : ∀ (dictionary : Dict) {padFuel pad : ℕ} {text : BString},
    serializeEntries padFuel pad dictionary = some text → dictionary.Fits →
      ∀ (number : ℕ) (rest : Reader) (last : Dict) (stale : BitVec 8),
        Reads (fun fuel => dictionaryLoop erange fuel stale last
            (text ++ NEWLINE :: (List.replicate number SPACE ++ DICT_END :: rest)))
          ((dictionary.readBack erange).map fun tree => (tree.mirrorOnto last, rest))
  | .nil, _, _, _, written, _, number, rest, last, stale => by
      cases written
      refine dictionaryLoop_skip (by decide) (by decide) (by decide)
        (dictionaryLoop_spaces (fun stale => ?_) _)
      exact reads_of_eq fun fuel => by
        rw [dictionaryLoop_cons, if_neg (by decide), if_pos rfl]
        rfl
  | .cons key val next, padFuel, pad, _, written, fits, number, rest, last, stale => by
      rw [serializeEntries] at written
      rcases Option.bind_eq_some_iff.mp written with ⟨spaces, spacesWritten, written⟩
      rcases Option.bind_eq_some_iff.mp written with ⟨text, valWritten, written⟩
      rcases Option.bind_eq_some_iff.mp written with ⟨restText, nextWritten, written⟩
      cases written
      rcases PAD_eq_some spacesWritten with ⟨-, rfl⟩
      have loop := fun last => dictionaryLoop_written next nextWritten fits.2.2 number rest last
      have behind : ∃ sep others, dictSeparator next ++ (restText ++
          NEWLINE :: (List.replicate number SPACE ++ DICT_END :: rest)) = sep :: others ∧
          IsSeparator sep ∧ ∀ last, Reads
            (fun fuel => dictionaryLoop erange fuel QUOTE last (sep :: others))
            ((next.readBack erange).map fun tree => (tree.mirrorOnto last, rest)) := by
        cases next with
        | nil =>
            cases nextWritten
            exact ⟨NEWLINE, _, rfl, .inr rfl, fun last => loop last QUOTE⟩
        | cons second third fourth =>
            exact ⟨COMMA, _, rfl, .inl rfl, fun last =>
              dictionaryLoop_skip (by decide) (by decide) (by decide)
                (dictionaryLoop_skip (by decide) (by decide) (by decide) (loop last NEWLINE))⟩
      rcases behind with ⟨sep, others, behind, separator, entries⟩
      simp only [List.append_assoc]
      rw [behind]
      refine dictionaryLoop_spaces (fun stale => ?_) stale
      have value := @genericLoop_space erange _ _ 0
        (genericLoop_written val valWritten fits.2.1 others SPACE separator)
      have string := @parseString_written key ([SPACE, COLON, SPACE] ++ (text ++ sep :: others))
        (by simp) fits.1
      rw [Dict.readBack]
      rw [serializeString, List.cons_append] at string ⊢
      split_ifs with plain
      · rw [if_pos plain] at string
        have colon : (readUntil COLON ([SPACE, COLON, SPACE] ++ (text ++ sep :: others))).2 =
            SPACE :: (text ++ sep :: others) := by
          simp only [List.cons_append, List.nil_append]
          rw [readUntil, if_neg (by decide), readUntil_self (List.cons_ne_nil _ _)]
        rw [← colon] at value
        have entry := @dictionaryLoop_entry erange _ _ _ _ _ stale last
          (fun tree => (next.readBack erange).map fun entries =>
            (entries.mirrorOnto (.cons key tree.mirror last), rest))
          (eq_ok_of_toOption string) value (fun tree _ => entries (.cons key tree.mirror last))
        have whole : (((val.readBack erange false).bind fun first =>
            (next.readBack erange).map (Dict.cons key first)).map fun tree : Dict =>
              (tree.mirrorOnto last, rest)) =
            (val.readBack erange false).bind fun tree => (next.readBack erange).map
              fun entries => (entries.mirrorOnto (.cons key tree.mirror last), rest) := by
          cases val.readBack erange false <;> cases next.readBack erange <;> rfl
        rw [whole]
        exact entry
      · rw [if_neg plain] at string
        exact dictionaryLoop_bad_key string

end

end JsonBencSerializer

end Cjdns
