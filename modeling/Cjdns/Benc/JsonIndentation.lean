import Cjdns.Benc.JsonRoundTrip

/-!
# The lines of the JSON serializer

A text has the lines of its tree, and `PAD` is for the spaces in front of each. Its counter gets
larger, and is added to what it should be taken from: for more than 32 spaces, nothing but an
overflow of the counter could end the loop, and for fewer it is not entered.

A list or a dictionary without elements has a line with nothing on it. It may be counted as a line
of its elements, or be left out.
-/

namespace Cjdns

open Decimal StandardBencSerializer JsonBencSerializer

mutual

/-- How deep the deepest element in an object is -/
def Object.height : Object → ℕ
  | .string _ => 0
  | .integer _ => 0
  | .list list => list.height
  | .dict dictionary => dictionary.height

def BList.height : BList → ℕ
  | .nil => 0
  | .cons elem next => max (elem.height + 1) next.height

def Dict.height : Dict → ℕ
  | .nil => 0
  | .cons _ val next => max (val.height + 1) next.height

end

mutual

/-- The object contains a list or a dictionary without elements. -/
def Object.hasBlank : Object → Bool
  | .string _ => false
  | .integer _ => false
  | .list .nil => true
  | .list list => list.hasBlank
  | .dict .nil => true
  | .dict dictionary => dictionary.hasBlank

def BList.hasBlank : BList → Bool
  | .nil => false
  | .cons elem next => elem.hasBlank || next.hasBlank

def Dict.hasBlank : Dict → Bool
  | .nil => false
  | .cons _ val next => val.hasBlank || next.hasBlank

end

namespace JsonBencSerializer

/-- A line, with the depth of what is on it -/
structure Line where
  depth : ℕ
  content : BString

/-- The line with its indentation; a line with nothing on it has one if blanks are counted. -/
def Line.text (blanks : Bool) (line : Line) : BString :=
  if line.content = [] ∧ blanks = false then []
  else List.replicate (2 * line.depth) SPACE ++ line.content

/-- What is between the brackets -/
def orBlank (depth : ℕ) (lines : List Line) : List Line :=
  if lines.isEmpty then [⟨depth, []⟩] else lines

/-- What is behind an element and in front of the end of its line -/
def listComma : BList → BString
  | .nil => []
  | .cons _ _ => [COMMA]

def dictComma : Dict → BString
  | .nil => []
  | .cons _ _ _ => [COMMA]

mutual

/-- The lines of a value with something in front of it and something behind -/
def objectLines (depth : ℕ) (front behind : BString) : Object → List Line
  | .string string => [⟨depth, front ++ (serializeString string ++ behind)⟩]
  | .integer integer => [⟨depth, front ++ (ofInt integer.toInt ++ behind)⟩]
  | .list list =>
      ⟨depth, front ++ [LIST_BEGIN]⟩ ::
        (orBlank (depth + 1) (listLines (depth + 1) list) ++ [⟨depth, LIST_END :: behind⟩])
  | .dict dictionary =>
      ⟨depth, front ++ [DICT_BEGIN]⟩ ::
        (orBlank (depth + 1) (dictLines (depth + 1) dictionary) ++ [⟨depth, DICT_END :: behind⟩])

def listLines (depth : ℕ) : BList → List Line
  | .nil => []
  | .cons elem next => objectLines depth [] (listComma next) elem ++ listLines depth next

def dictLines (depth : ℕ) : Dict → List Line
  | .nil => []
  | .cons key val next =>
      objectLines depth (serializeString key ++ [SPACE, COLON, SPACE]) (dictComma next) val ++
        dictLines depth next

end

/-- The dictionary is written, with each line indented by twice its depth. -/
def Indents (blanks : Bool) (dictionary : Dict) : Prop :=
  ∃ fuel text, serializeDictionary fuel dictionary = some text ∧
    text.splitOn NEWLINE = (objectLines 0 [] [] (.dict dictionary)).map (Line.text blanks)

/-! ## What is written -/

mutual

theorem Object.written_of_height : ∀ (object : Object) {depth : ℕ},
    depth + object.height ≤ 16 →
      ∃ text, serializeGenericWithPadding 1 (2 * depth) object = some text
  | .string _, _, _ => ⟨_, rfl⟩
  | .integer _, _, _ => ⟨_, rfl⟩
  | .list list, depth, flat => by
      rw [Object.height] at flat
      rcases BList.written_of_height list flat with ⟨items, itemsWritten⟩
      rw [serializeGenericWithPadding, itemsWritten, PAD_of_le (by omega)]
      exact ⟨_, rfl⟩
  | .dict dictionary, depth, flat => by
      rw [Object.height] at flat
      rcases Dict.written_of_height dictionary flat with ⟨entries, entriesWritten⟩
      rw [serializeGenericWithPadding, entriesWritten, PAD_of_le (by omega)]
      exact ⟨_, rfl⟩

theorem BList.written_of_height : ∀ (list : BList) {depth : ℕ},
    depth + list.height ≤ 16 → ∃ text, serializeItems 1 (2 * depth + 2) list = some text
  | .nil, _, _ => ⟨_, rfl⟩
  | .cons elem next, depth, flat => by
      rw [BList.height] at flat
      have first : ∃ text, serializeGenericWithPadding 1 (2 * depth + 2) elem = some text :=
        Object.written_of_height elem (show depth + 1 + elem.height ≤ 16 by omega)
      rcases first with ⟨text, textWritten⟩
      rcases BList.written_of_height next (show depth + next.height ≤ 16 by omega) with
        ⟨rest, restWritten⟩
      rw [JsonBencSerializer.serializeItems, textWritten, restWritten, PAD_of_le (by omega)]
      exact ⟨_, rfl⟩

theorem Dict.written_of_height : ∀ (dictionary : Dict) {depth : ℕ},
    depth + dictionary.height ≤ 16 →
      ∃ text, serializeEntries 1 (2 * depth + 2) dictionary = some text
  | .nil, _, _ => ⟨_, rfl⟩
  | .cons key val next, depth, flat => by
      rw [Dict.height] at flat
      have first : ∃ text, serializeGenericWithPadding 1 (2 * depth + 2) val = some text :=
        Object.written_of_height val (show depth + 1 + val.height ≤ 16 by omega)
      rcases first with ⟨text, textWritten⟩
      rcases Dict.written_of_height next (show depth + next.height ≤ 16 by omega) with
        ⟨rest, restWritten⟩
      rw [JsonBencSerializer.serializeEntries, textWritten, restWritten, PAD_of_le (by omega)]
      exact ⟨_, rfl⟩

end

mutual

/-- What is written has no element that needs more than 32 spaces. -/
theorem Object.height_of_written : ∀ (object : Object) {fuel depth : ℕ} {text : BString},
    depth ≤ 16 → serializeGenericWithPadding fuel (2 * depth) object = some text →
      depth + object.height ≤ 16
  | .string _, _, _, _, flat, _ => flat
  | .integer _, _, _, _, flat, _ => flat
  | .list list, _, _, _, flat, written => by
      rw [serializeGenericWithPadding] at written
      rcases Option.bind_eq_some_iff.mp written with ⟨items, itemsWritten, -⟩
      exact BList.height_of_written list flat itemsWritten
  | .dict dictionary, _, _, _, flat, written => by
      rw [serializeGenericWithPadding] at written
      rcases Option.bind_eq_some_iff.mp written with ⟨entries, entriesWritten, -⟩
      exact Dict.height_of_written dictionary flat entriesWritten

theorem BList.height_of_written : ∀ (list : BList) {fuel depth : ℕ} {text : BString},
    depth ≤ 16 → serializeItems fuel (2 * depth + 2) list = some text →
      depth + list.height ≤ 16
  | .nil, _, _, _, flat, _ => flat
  | .cons elem next, _, depth, _, flat, written => by
      rw [JsonBencSerializer.serializeItems] at written
      rcases Option.bind_eq_some_iff.mp written with ⟨spaces, spacesWritten, written⟩
      rcases Option.bind_eq_some_iff.mp written with ⟨text, textWritten, written⟩
      rcases Option.bind_eq_some_iff.mp written with ⟨rest, restWritten, -⟩
      have few := (PAD_eq_some spacesWritten).1
      have first := Object.height_of_written elem (show depth + 1 ≤ 16 by omega) textWritten
      have others := BList.height_of_written next flat restWritten
      rw [BList.height]
      omega

theorem Dict.height_of_written : ∀ (dictionary : Dict) {fuel depth : ℕ} {text : BString},
    depth ≤ 16 → serializeEntries fuel (2 * depth + 2) dictionary = some text →
      depth + dictionary.height ≤ 16
  | .nil, _, _, _, flat, _ => flat
  | .cons key val next, _, depth, _, flat, written => by
      rw [JsonBencSerializer.serializeEntries] at written
      rcases Option.bind_eq_some_iff.mp written with ⟨spaces, spacesWritten, written⟩
      rcases Option.bind_eq_some_iff.mp written with ⟨text, textWritten, written⟩
      rcases Option.bind_eq_some_iff.mp written with ⟨rest, restWritten, -⟩
      have few := (PAD_eq_some spacesWritten).1
      have first := Object.height_of_written val (show depth + 1 ≤ 16 by omega) textWritten
      have others := Dict.height_of_written next flat restWritten
      rw [Dict.height]
      omega

end

/-! ## The lines of a text -/

/-- A text without newlines -/
def OneLine (text : BString) : Prop :=
  NEWLINE ∉ text

theorem oneLine_append {front back : BString} :
    OneLine (front ++ back) ↔ OneLine front ∧ OneLine back := by
  rw [OneLine, List.mem_append, not_or]
  rfl

theorem oneLine_cons {first : BitVec 8} {rest : BString} :
    OneLine (first :: rest) ↔ NEWLINE ≠ first ∧ OneLine rest := by
  rw [OneLine, List.mem_cons, not_or]
  rfl

theorem oneLine_nil : OneLine [] :=
  List.not_mem_nil

theorem oneLine_serializeString (string : BString) : OneLine (serializeString string) := by
  have escaped : ∀ chr, NEWLINE ∉ escape chr := by decide +kernel
  refine oneLine_cons.mpr ⟨by decide, oneLine_append.mpr ⟨?_, by simp [OneLine]⟩⟩
  intro member
  rcases List.mem_flatMap.mp member with ⟨chr, -, member⟩
  split_ifs at member with plain
  · rw [List.mem_singleton] at member
    rw [← member] at plain
    exact absurd plain (by decide)
  · exact escaped chr member

theorem oneLine_ofInt (number : ℤ) : OneLine (ofInt number) := by
  have digits : OneLine (ofNat number.natAbs) := fun member =>
    absurd (isDigit_of_mem_ofNat member) (by decide)
  rw [ofInt]
  split_ifs
  · exact oneLine_cons.mpr ⟨by decide, digits⟩
  · exact digits

theorem ofInt_ne_nil (number : ℤ) : ofInt number ≠ [] := by
  rw [ofInt]
  split_ifs
  · exact List.cons_ne_nil _ _
  · exact ofNat_ne_nil _

theorem oneLine_listComma (next : BList) : OneLine (listComma next) := by
  cases next <;> simp [OneLine, listComma]

theorem oneLine_dictComma (next : Dict) : OneLine (dictComma next) := by
  cases next <;> simp [OneLine, dictComma]

theorem Line.text_of_ne {blanks : Bool} {line : Line} (content : line.content ≠ []) :
    line.text blanks = List.replicate (2 * line.depth) SPACE ++ line.content := by
  rw [Line.text, if_neg fun blank => content blank.1]

/-- A text without newlines is a line. -/
theorem splitOn_line {depth : ℕ} {content : BString} (some : content ≠ [])
    (whole : OneLine content) :
    (List.replicate (2 * depth) SPACE ++ content).splitOn NEWLINE =
      [Line.text false ⟨depth, content⟩] := by
  have spaces : OneLine (List.replicate (2 * depth) SPACE) := fun member => by
    cases List.eq_of_mem_replicate member
  rw [Line.text_of_ne some, List.splitOn_eq_singleton (oneLine_append.mpr ⟨spaces, whole⟩)]

theorem objectLines_ne_nil (depth : ℕ) (front behind : BString) (object : Object) :
    objectLines depth front behind object ≠ [] := by
  cases object <;> exact List.cons_ne_nil _ _

theorem orBlank_of_ne_nil {depth : ℕ} {lines : List Line} (some : lines ≠ []) :
    orBlank depth lines = lines := by
  rw [orBlank, if_neg (by simpa using some)]

/-- The text between brackets that are on lines of their own -/
theorem splitOn_brackets {depth : ℕ} {front inner behind : BString} {first last : BitVec 8}
    {lines : List Line} (front_whole : OneLine front) (behind_whole : OneLine behind)
    (first_ne : NEWLINE ≠ first) (last_ne : NEWLINE ≠ last)
    (inside : inner.splitOn NEWLINE = lines.map (Line.text false)) :
    (List.replicate (2 * depth) SPACE ++ (front ++ ([first, NEWLINE] ++ (inner ++
      (NEWLINE :: (List.replicate (2 * depth) SPACE ++ [last]))) ++ behind))).splitOn NEWLINE =
      (⟨depth, front ++ [first]⟩ :: (lines ++ [⟨depth, last :: behind⟩])).map
        (Line.text false) := by
  have order : List.replicate (2 * depth) SPACE ++ (front ++ ([first, NEWLINE] ++ (inner ++
      (NEWLINE :: (List.replicate (2 * depth) SPACE ++ [last]))) ++ behind)) =
      (List.replicate (2 * depth) SPACE ++ (front ++ [first])) ++ NEWLINE ::
        (inner ++ NEWLINE :: (List.replicate (2 * depth) SPACE ++ last :: behind)) := by
    simp
  have begins := oneLine_append.mpr ⟨front_whole, oneLine_cons.mpr ⟨first_ne, oneLine_nil⟩⟩
  have ends := oneLine_cons.mpr ⟨last_ne, behind_whole⟩
  rw [order, List.splitOn_append_cons_self, List.splitOn_append_cons_self, inside,
    splitOn_line (by simp) begins, splitOn_line (by simp) ends]
  simp

mutual

theorem splitOn_object : ∀ (object : Object) {fuel depth : ℕ} {text front behind : BString},
    serializeGenericWithPadding fuel (2 * depth) object = some text → OneLine front →
      OneLine behind →
      (List.replicate (2 * depth) SPACE ++ (front ++ (text ++ behind))).splitOn NEWLINE =
        (objectLines depth front behind object).map (Line.text false)
  | .string string, _, depth, _, front, behind, written, front_whole, behind_whole => by
      cases written
      exact splitOn_line (by simp [serializeString]) (oneLine_append.mpr
        ⟨front_whole, oneLine_append.mpr ⟨oneLine_serializeString string, behind_whole⟩⟩)
  | .integer integer, _, depth, _, front, behind, written, front_whole, behind_whole => by
      cases written
      refine splitOn_line ?_ (oneLine_append.mpr
        ⟨front_whole, oneLine_append.mpr ⟨oneLine_ofInt _, behind_whole⟩⟩)
      simp [ofInt_ne_nil]
  | .list list, _, depth, _, front, behind, written, front_whole, behind_whole => by
      rw [serializeGenericWithPadding] at written
      rcases Option.bind_eq_some_iff.mp written with ⟨items, itemsWritten, written⟩
      rcases Option.bind_eq_some_iff.mp written with ⟨spaces, spacesWritten, written⟩
      rcases PAD_eq_some spacesWritten with ⟨-, rfl⟩
      cases written
      exact splitOn_brackets front_whole behind_whole (by decide) (by decide)
        (@splitOn_items list _ (depth + 1) _ itemsWritten)
  | .dict dictionary, _, depth, _, front, behind, written, front_whole, behind_whole => by
      rw [serializeGenericWithPadding] at written
      rcases Option.bind_eq_some_iff.mp written with ⟨entries, entriesWritten, written⟩
      rcases Option.bind_eq_some_iff.mp written with ⟨spaces, spacesWritten, written⟩
      rcases PAD_eq_some spacesWritten with ⟨-, rfl⟩
      cases written
      exact splitOn_brackets front_whole behind_whole (by decide) (by decide)
        (@splitOn_entries dictionary _ (depth + 1) _ entriesWritten)

theorem splitOn_items : ∀ (list : BList) {fuel depth : ℕ} {items : BString},
    serializeItems fuel (2 * depth) list = some items →
      items.splitOn NEWLINE = (orBlank depth (listLines depth list)).map (Line.text false)
  | .nil, _, _, _, written => by
      cases written
      rfl
  | .cons elem next, _, depth, _, written => by
      rw [JsonBencSerializer.serializeItems] at written
      rcases Option.bind_eq_some_iff.mp written with ⟨spaces, spacesWritten, written⟩
      rcases Option.bind_eq_some_iff.mp written with ⟨text, textWritten, written⟩
      rcases Option.bind_eq_some_iff.mp written with ⟨rest, restWritten, written⟩
      rcases PAD_eq_some spacesWritten with ⟨-, rfl⟩
      cases written
      have first := @splitOn_object elem _ depth _ [] (listComma next) textWritten
        oneLine_nil (oneLine_listComma next)
      have others := splitOn_items next restWritten
      rw [listLines, orBlank_of_ne_nil (by simp [objectLines_ne_nil])]
      cases next with
      | nil =>
          cases restWritten
          rw [listLines, List.append_nil (objectLines _ _ _ _), ← first]
          rfl
      | cons second next =>
          rw [orBlank_of_ne_nil (by simp [listLines, objectLines_ne_nil])] at others
          rw [List.map_append, ← first, ← others, ← List.splitOn_append_cons_self]
          simp [listSeparator, listComma]

theorem splitOn_entries : ∀ (dictionary : Dict) {fuel depth : ℕ} {entries : BString},
    serializeEntries fuel (2 * depth) dictionary = some entries →
      entries.splitOn NEWLINE =
        (orBlank depth (dictLines depth dictionary)).map (Line.text false)
  | .nil, _, _, _, written => by
      cases written
      rfl
  | .cons key val next, _, depth, _, written => by
      rw [JsonBencSerializer.serializeEntries] at written
      rcases Option.bind_eq_some_iff.mp written with ⟨spaces, spacesWritten, written⟩
      rcases Option.bind_eq_some_iff.mp written with ⟨text, textWritten, written⟩
      rcases Option.bind_eq_some_iff.mp written with ⟨rest, restWritten, written⟩
      rcases PAD_eq_some spacesWritten with ⟨-, rfl⟩
      cases written
      have first := @splitOn_object val _ depth _ (serializeString key ++ [SPACE, COLON, SPACE])
        (dictComma next) textWritten
        (oneLine_append.mpr ⟨oneLine_serializeString key, by simp [OneLine]⟩)
        (oneLine_dictComma next)
      have others := splitOn_entries next restWritten
      rw [dictLines, orBlank_of_ne_nil (by simp [objectLines_ne_nil])]
      cases next with
      | nil =>
          cases restWritten
          rw [dictLines, List.append_nil (objectLines _ _ _ _), ← first]
          simp [dictSeparator, dictComma]
      | cons other second next =>
          rw [orBlank_of_ne_nil (by simp [dictLines, objectLines_ne_nil])] at others
          rw [List.map_append, ← first, ← others, ← List.splitOn_append_cons_self]
          simp [dictSeparator, dictComma]

end

/-! ## Lines with nothing on them -/

/-- What is on the line, or the line is not indented at all. -/
def Line.Plain (line : Line) : Prop :=
  line.content = [] → line.depth = 0

theorem Line.text_eq_iff {line : Line} : line.text false = line.text true ↔ line.Plain := by
  by_cases blank : line.content = []
  · rw [Line.Plain, Line.text, if_pos ⟨blank, rfl⟩, Line.text, if_neg (by simp), blank,
      List.append_nil, eq_comm, List.replicate_eq_nil_iff]
    simp
  · rw [Line.text_of_ne blank, Line.text_of_ne blank]
    exact iff_of_true rfl fun empty => absurd empty blank

theorem Line.plain_of_ne {line : Line} (content : line.content ≠ []) : line.Plain :=
  fun blank => absurd blank content

/-- The brackets are on lines that are not blank. -/
theorem plain_brackets {depth : ℕ} {front behind : BString} {first last : BitVec 8}
    {lines : List Line} :
    (∀ line ∈ (⟨depth, front ++ [first]⟩ :: (lines ++ [⟨depth, last :: behind⟩]) : List Line),
      line.Plain) ↔ ∀ line ∈ lines, line.Plain := by
  rw [List.forall_mem_cons, List.forall_mem_append, List.forall_mem_singleton]
  constructor
  · rintro ⟨-, inside, -⟩
    exact inside
  · intro inside
    exact ⟨Line.plain_of_ne (by simp), inside, Line.plain_of_ne (by simp)⟩

theorem not_plain_blank (depth : ℕ) : ¬∀ line ∈ orBlank (depth + 1) [], line.Plain := by
  intro plain
  exact absurd (plain ⟨depth + 1, []⟩ List.mem_cons_self rfl) (Nat.succ_ne_zero depth)

mutual

theorem Object.plain_iff : ∀ (object : Object) {depth : ℕ} {front behind : BString},
    (∀ line ∈ objectLines depth front behind object, line.Plain) ↔ object.hasBlank = false
  | .string string, _, _, _ => by
      rw [objectLines, List.forall_mem_singleton]
      exact iff_of_true (Line.plain_of_ne (by simp [serializeString])) rfl
  | .integer integer, _, _, _ => by
      rw [objectLines, List.forall_mem_singleton]
      refine iff_of_true (Line.plain_of_ne ?_) rfl
      simp [ofInt_ne_nil]
  | .list .nil, depth, _, _ => by
      rw [objectLines, plain_brackets]
      exact iff_of_false (not_plain_blank depth) (by simp [Object.hasBlank])
  | .list (.cons elem next), _, _, _ => by
      rw [objectLines, plain_brackets, orBlank_of_ne_nil (by simp [listLines, objectLines_ne_nil]),
        BList.plain_iff (.cons elem next)]
      rfl
  | .dict .nil, depth, _, _ => by
      rw [objectLines, plain_brackets]
      exact iff_of_false (not_plain_blank depth) (by simp [Object.hasBlank])
  | .dict (.cons key val next), _, _, _ => by
      rw [objectLines, plain_brackets, orBlank_of_ne_nil (by simp [dictLines, objectLines_ne_nil]),
        Dict.plain_iff (.cons key val next)]
      rfl

theorem BList.plain_iff : ∀ (list : BList) {depth : ℕ},
    (∀ line ∈ listLines depth list, line.Plain) ↔ list.hasBlank = false
  | .nil, _ => iff_of_true (List.forall_mem_nil _) rfl
  | .cons elem next, _ => by
      rw [listLines, List.forall_mem_append, Object.plain_iff elem, BList.plain_iff next,
        BList.hasBlank, Bool.or_eq_false_iff]

theorem Dict.plain_iff : ∀ (dictionary : Dict) {depth : ℕ},
    (∀ line ∈ dictLines depth dictionary, line.Plain) ↔ dictionary.hasBlank = false
  | .nil, _ => iff_of_true (List.forall_mem_nil _) rfl
  | .cons key val next, _ => by
      rw [dictLines, List.forall_mem_append, Object.plain_iff val, Dict.plain_iff next,
        Dict.hasBlank, Bool.or_eq_false_iff]

end

/-! ## Dictionaries -/

theorem splitOn_dictionary {dictionary : Dict} {fuel : ℕ} {text : BString}
    (written : serializeDictionary fuel dictionary = some text) :
    text.splitOn NEWLINE = (objectLines 0 [] [] (.dict dictionary)).map (Line.text false) := by
  have lines := @splitOn_object (.dict dictionary) fuel 0 text [] [] written oneLine_nil oneLine_nil
  rw [List.append_nil] at lines
  exact lines

/-- The lines are written as they should be up to the depth 16, and those that are blank are not
indented. -/
theorem indents_iff (blanks : Bool) (dictionary : Dict) :
    Indents blanks dictionary ↔
      dictionary.height ≤ 16 ∧ (blanks = true → (Object.dict dictionary).hasBlank = false) := by
  have lines : (objectLines 0 [] [] (.dict dictionary)).map (Line.text false) =
      (objectLines 0 [] [] (.dict dictionary)).map (Line.text true) ↔
        (Object.dict dictionary).hasBlank = false := by
    rw [List.map_inj_left, ← @Object.plain_iff (.dict dictionary) 0 [] []]
    exact forall₂_congr fun line _ => Line.text_eq_iff
  constructor
  · rintro ⟨fuel, text, written, split⟩
    have flat := @Object.height_of_written (.dict dictionary) fuel 0 text (Nat.zero_le _) written
    rw [Nat.zero_add] at flat
    refine ⟨flat, ?_⟩
    rintro rfl
    rw [splitOn_dictionary written] at split
    exact lines.mp split
  · rintro ⟨flat, full⟩
    rcases @Object.written_of_height (.dict dictionary) 0 (by rw [Nat.zero_add]; exact flat) with
      ⟨text, written⟩
    refine ⟨1, text, written, ?_⟩
    rw [splitOn_dictionary written]
    cases blanks with
    | false => rfl
    | true => exact lines.mpr (full rfl)

/-- An integer in a number of lists -/
def nested : ℕ → Object
  | 0 => .integer 0
  | number + 1 => .list (.cons (nested number) .nil)

/-- What is at the depth 17 is never reached. -/
theorem nested_not_written : ¬Indents false (.cons [0x61] (nested 16) .nil) := by
  rintro ⟨fuel, text, written, -⟩
  have flat := @Object.height_of_written (.dict (.cons [0x61] (nested 16) .nil)) fuel 0 text
    (Nat.zero_le _) written
  exact absurd flat (by decide)

end JsonBencSerializer

end Cjdns
