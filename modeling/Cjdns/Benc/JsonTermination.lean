import Cjdns.Benc.BencodeParser
import Cjdns.Benc.JsonBencSerializer
import Cjdns.Library.Fuel

/-!
# Whether the JSON parser stops

The loops of the parser come from one position to the next. They go on for ever where a position
does not get the reader any further, and stop otherwise.
-/

namespace Cjdns.JsonBencSerializer

open Decimal StandardBencSerializer Fuel

variable {erange : Bool}

/-! ## How far the functions without fuel get -/

theorem length_readUntil_le (target : BitVec 8) (reader : Reader) :
    (readUntil target reader).2.length ≤ reader.length := by
  fun_induction readUntil target reader with
  | case1 => simp
  | case2 _ _ _ _ ih => exact le_trans ih (by simp)
  | case3 => exact le_rfl

theorem length_splatLoop_le (behindSplat : Bool) (reader : Reader) :
    (splatLoop behindSplat reader).2.length ≤ reader.length := by
  fun_induction splatLoop behindSplat reader with
  | case1 => simp
  | case2 _ _ _ _ ih => exact le_trans ih (by simp)
  | case3 _ _ _ _ _ ih => exact le_trans ih (by simp)
  | case4 => exact le_rfl

/-- A comment gets the reader further if two characters can be read. -/
theorem length_parseComment_lt (first second third : BitVec 8) (rest : Reader) :
    (parseComment (first :: second :: third :: rest)).2.length <
      (first :: second :: third :: rest).length := by
  have whole : (parseComment (first :: second :: third :: rest)).2.length ≤
      (third :: rest).length := by
    rw [parseComment]
    split_ifs
    · exact le_rfl
    · exact length_splatLoop_le _ _
    · exact length_readUntil_le _ _
    · exact le_rfl
  simp only [List.length_cons] at whole ⊢
  omega

theorem length_parseComment_le (reader : Reader) :
    (parseComment reader).2.length ≤ reader.length := by
  rcases reader with _ | ⟨first, _ | ⟨second, _ | ⟨third, rest⟩⟩⟩
  · exact le_rfl
  · exact le_rfl
  · exact le_rfl
  · exact (length_parseComment_lt first second third rest).le

theorem length_lt_of_stringLoop {i : ℕ} {buffer content : BString} {reader behind : Reader}
    (parsed : stringLoop i buffer reader = .ok (content, behind)) :
    behind.length < reader.length ∧ behind ≠ [] := by
  fun_induction stringLoop i buffer reader with
  | case1 => cases parsed
  | case2 i buffer next high low third rest inside byte decoded ih =>
      rcases ih parsed with ⟨shorter, some⟩
      simp only [List.length_cons] at shorter ⊢
      exact ⟨by omega, some⟩
  | case3 => cases parsed
  | case4 => cases parsed
  | case5 i buffer next rest =>
      cases parsed
      exact ⟨by simp, List.cons_ne_nil _ _⟩
  | case6 i buffer char next rest inside apart noQuote ih =>
      rcases ih parsed with ⟨shorter, some⟩
      simp only [List.length_cons] at shorter ⊢
      exact ⟨by omega, some⟩
  | case7 => cases parsed

theorem length_lt_of_parseString {reader behind : Reader} {content : BString}
    (parsed : parseString reader = .ok (content, behind)) : behind.length < reader.length := by
  unfold parseString at parsed
  have further := length_readUntil_le QUOTE reader
  rcases until_eq : readUntil QUOTE reader with ⟨_ | failure, second⟩
  · rw [until_eq] at parsed further
    exact lt_of_lt_of_le (length_lt_of_stringLoop parsed).1 further
  · rw [until_eq] at parsed
    cases parsed

theorem length_le_of_integerLoop {left i : ℕ} {buffer content : BString} {reader behind : Reader}
    (parsed : integerLoop left i buffer reader = .ok (content, behind)) :
    behind.length ≤ reader.length := by
  fun_induction integerLoop left i buffer reader with
  | case1 => cases parsed
  | case2 =>
      cases parsed
      exact le_rfl
  | case3 _ _ _ _ _ _ ih => exact ih parsed
  | case4 =>
      cases parsed
      exact le_rfl
  | case5 _ _ _ _ _ _ _ ih => exact le_trans (ih parsed) (by simp)

/-- A number that begins with a digit takes it. -/
theorem length_lt_of_parseint64_t {digit : BitVec 8} {rest behind : Reader} {number : BitVec 64}
    (isDigit_eq : isDigit digit = true)
    (parsed : parseint64_t erange (digit :: rest) = .ok (number, behind)) :
    behind.length < (digit :: rest).length := by
  have noMinus : digit ≠ MINUS := by
    rintro rfl
    cases isDigit_eq
  unfold parseint64_t at parsed
  rw [integerLoop, if_neg (fun minus => noMinus minus.2), if_neg (by rw [isDigit_eq]; decide)]
    at parsed
  cases loop : integerLoop 20 (0 + 1) ([] ++ [digit]) rest with
  | error failure =>
      rw [loop] at parsed
      cases parsed
  | ok pair =>
      have further := length_le_of_integerLoop loop
      rw [loop] at parsed
      dsimp only at parsed
      split_ifs at parsed
      cases parsed
      rw [List.length_cons]
      omega

mutual

/-- A value that is read gets the reader further. -/
theorem length_lt_of_genericLoop : ∀ (fuel : ℕ) {stale : BitVec 8} {reader behind : Reader}
    {object : Object}, genericLoop erange fuel stale reader = .ok (object, behind) →
      behind.length < reader.length
  | 0, _, _, _, _, parsed => by cases parsed
  | fuel + 1, stale, [], behind, object, parsed => by
      rw [genericLoop_nil] at parsed
      split_ifs at parsed
      exact length_lt_of_genericLoop fuel parsed
  | fuel + 1, stale, char :: rest, behind, object, parsed => by
      rw [genericLoop_cons] at parsed
      split_ifs at parsed with white slash digit list dict quote
      · exact lt_trans (length_lt_of_genericLoop fuel parsed) (by simp)
      · rcases comment : parseComment (char :: rest) with ⟨_ | failure, reader⟩
        · rw [comment] at parsed
          have further := length_parseComment_le (char :: rest)
          rw [comment] at further
          exact lt_of_lt_of_le (length_lt_of_genericLoop fuel parsed) further
        · rw [comment] at parsed
          cases parsed
      · rcases eq_ok_of_map parsed with ⟨number, integer, -⟩
        exact length_lt_of_parseint64_t digit integer
      · rcases eq_ok_of_map parsed with ⟨items, loop, -⟩
        exact lt_of_lt_of_le (length_lt_of_listLoop fuel loop) (length_readUntil_le _ _)
      · rcases eq_ok_of_map parsed with ⟨entries, loop, -⟩
        exact lt_of_lt_of_le (length_lt_of_dictionaryLoop fuel (fun _ => by decide) loop)
          (length_readUntil_le _ _)
      · rcases eq_ok_of_map parsed with ⟨content, string, -⟩
        exact length_lt_of_parseString string

theorem length_lt_of_listLoop : ∀ (fuel : ℕ) {reader behind : Reader} {list : BList},
    listLoop erange fuel reader = .ok (list, behind) → behind.length < reader.length
  | 0, _, _, _, parsed => by cases parsed
  | _ + 1, [], _, _, parsed => by cases parsed
  | fuel + 1, nextChar :: rest, behind, list, parsed => by
      rw [listLoop] at parsed
      split_ifs at parsed with slash begins ends
      · rcases comment : parseComment (nextChar :: rest) with ⟨_ | failure, reader⟩
        · rw [comment] at parsed
          have further := length_parseComment_le (nextChar :: rest)
          rw [comment] at further
          exact lt_of_lt_of_le (length_lt_of_listLoop fuel parsed) further
        · rw [comment] at parsed
          cases parsed
      · cases value : genericLoop erange fuel 0 (nextChar :: rest) with
        | error failure =>
            rw [value] at parsed
            cases parsed
        | ok pair =>
            rw [value] at parsed
            rcases eq_ok_of_map parsed with ⟨items, loop, -⟩
            exact lt_trans (length_lt_of_listLoop fuel loop) (length_lt_of_genericLoop fuel value)
      · cases parsed
        simp
      · exact lt_trans (length_lt_of_listLoop fuel parsed) (by simp)

/-- Beyond the end, a dictionary ends only behind the character that ends it. -/
theorem length_lt_of_dictionaryLoop : ∀ (fuel : ℕ) {stale : BitVec 8} {last entries : Dict}
    {reader behind : Reader}, (reader = [] → stale ≠ DICT_END) →
      dictionaryLoop erange fuel stale last reader = .ok (entries, behind) →
      behind.length < reader.length
  | 0, _, _, _, _, _, _, parsed => by cases parsed
  | fuel + 1, stale, last, entries, [], behind, apart, parsed => by
      rw [dictionaryLoop_nil] at parsed
      split_ifs at parsed with ends
      exact absurd ends (apart rfl)
  | fuel + 1, stale, last, entries, char :: rest, behind, apart, parsed => by
      rw [dictionaryLoop_cons] at parsed
      split_ifs at parsed with quote ends slash
      · rcases string : parseString (char :: rest) with failure | ⟨key, second⟩
        · rw [string] at parsed
          cases parsed
        · rw [string] at parsed
          dsimp only at parsed
          have secondShorter := length_lt_of_parseString string
          have further := length_readUntil_le COLON second
          rcases value : genericLoop erange fuel 0 (readUntil COLON second).2 with
            failure | ⟨val, third⟩
          · rw [value] at parsed
            cases parsed
          · rw [value] at parsed
            have thirdShorter := length_lt_of_genericLoop fuel value
            have behindShorter := length_lt_of_dictionaryLoop fuel
              (fun _ => by rw [quote]; decide) parsed
            omega
      · cases parsed
        simp
      · exact lt_of_lt_of_le (length_lt_of_dictionaryLoop fuel (fun _ => ends) parsed)
          (length_parseComment_le _)
      · exact lt_trans (length_lt_of_dictionaryLoop fuel (fun _ => ends) parsed) (by simp)

end

/-! ## Positions -/

/-- Where a loop of the parser is, with the character it read last -/
inductive Position where
  /-- In a dictionary, in front of a key -/
  | key (nextChar : BitVec 8) (reader : Reader)
  /-- In front of a value -/
  | value (firstChar : BitVec 8) (reader : Reader)
  /-- In a list, in front of an element -/
  | element (reader : Reader)

/-- Where the parser comes to from a position, also behind what it has read in between -/
inductive Next (erange : Bool) : Position → Position → Prop where
  | key_skip {stale char : BitVec 8} {rest : Reader} (quote : char ≠ QUOTE)
      (ends : char ≠ DICT_END) (slash : char ≠ SLASH) :
      Next erange (.key stale (char :: rest)) (.key char rest)
  | key_comment {stale : BitVec 8} {rest : Reader} :
      Next erange (.key stale (SLASH :: rest)) (.key SLASH (parseComment (SLASH :: rest)).2)
  | key_value {stale : BitVec 8} {text second : Reader} {content : BString}
      (string : parseString (QUOTE :: text) = .ok (content, second)) :
      Next erange (.key stale (QUOTE :: text)) (.value 0 (readUntil COLON second).2)
  | key_next {stale : BitVec 8} {text second third : Reader} {content : BString}
      {object : Object} {fuel : ℕ} (string : parseString (QUOTE :: text) = .ok (content, second))
      (value : genericLoop erange fuel 0 (readUntil COLON second).2 = .ok (object, third)) :
      Next erange (.key stale (QUOTE :: text)) (.key QUOTE third)
  | value_skip {stale char : BitVec 8} {rest : Reader} (white : isWhite char = true) :
      Next erange (.value stale (char :: rest)) (.value char rest)
  | value_comment {stale : BitVec 8} {rest reader : Reader}
      (comment : parseComment (SLASH :: rest) = (none, reader)) :
      Next erange (.value stale (SLASH :: rest)) (.value SLASH reader)
  | value_list {stale : BitVec 8} {rest : Reader} :
      Next erange (.value stale (LIST_BEGIN :: rest))
        (.element (readUntil LIST_BEGIN (LIST_BEGIN :: rest)).2)
  | value_dict {stale : BitVec 8} {rest : Reader} :
      Next erange (.value stale (DICT_BEGIN :: rest))
        (.key 0 (readUntil DICT_BEGIN (DICT_BEGIN :: rest)).2)
  | element_comment {rest reader : Reader}
      (comment : parseComment (SLASH :: rest) = (none, reader)) :
      Next erange (.element (SLASH :: rest)) (.element reader)
  | element_value {char : BitVec 8} {rest : Reader} (begins : beginsElement char = true) :
      Next erange (.element (char :: rest)) (.value 0 (char :: rest))
  | element_next {char : BitVec 8} {rest third : Reader} {object : Object} {fuel : ℕ}
      (begins : beginsElement char = true)
      (value : genericLoop erange fuel 0 (char :: rest) = .ok (object, third)) :
      Next erange (.element (char :: rest)) (.element third)
  | element_skip {char : BitVec 8} {rest : Reader} (slash : char ≠ SLASH)
      (begins : beginsElement char = false) (ends : char ≠ LIST_END) :
      Next erange (.element (char :: rest)) (.element rest)

/-- The positions that the parser comes to -/
abbrev Visits (erange : Bool) : Position → Position → Prop :=
  Relation.ReflTransGen (Next erange)

/-- The loop at the position does not get any further: a comment in front of a key that has at most
one character, white space before the end and behind it, or a list that begins behind the end -/
def Stuck : Position → Prop
  | .key _ reader => ∃ rest, reader = SLASH :: rest ∧ rest.length ≤ 1
  | .value stale reader => reader = [] ∧ isWhite stale = true ∨ reader = [LIST_BEGIN]
  | .element _ => False

/-- The loop at the position runs out of fuel. -/
def Position.RunsOut (erange : Bool) (last : Dict) (fuel : ℕ) : Position → Prop
  | .key nextChar reader => dictionaryLoop erange fuel nextChar last reader = .error .outOfFuel
  | .value firstChar reader => genericLoop erange fuel firstChar reader = .error .outOfFuel
  | .element reader => listLoop erange fuel reader = .error .outOfFuel

/-- The loop at the position goes on for ever. -/
def Position.Diverges (erange : Bool) (position : Position) : Prop :=
  ∀ last fuel, position.RunsOut erange last fuel

theorem genericLoop_stable (stale : BitVec 8) (reader : Reader) :
    Stable (fun fuel => genericLoop erange fuel stale reader) (.error .outOfFuel) :=
  fun fuel => genericLoop_succ fuel stale reader

/-- Fuel that is not enough runs out; enough of it gives the value that was read. -/
theorem genericLoop_cases {stale : BitVec 8} {reader behind : Reader} {object : Object} {some : ℕ}
    (value : genericLoop erange some stale reader = .ok (object, behind)) (fuel : ℕ) :
    genericLoop erange fuel stale reader = .error .outOfFuel ∨
      genericLoop erange fuel stale reader = .ok (object, behind) := by
  by_cases empty : genericLoop erange fuel stale reader = .error .outOfFuel
  · exact .inl empty
  · have settles := (genericLoop_stable stale reader).settles empty
    have other := @Stable.settles _ _ _ (@genericLoop_stable erange stale reader) some (by
      rw [value]
      exact fun impossible => by cases impossible)
    rw [value] at other
    exact .inr (settles.unique other)

/-! ## Loops that go on for ever -/

theorem parseComment_short {rest : Reader} (short : rest.length ≤ 1) :
    parseComment (SLASH :: rest) = (some .OUT_OF_CONTENT_TO_READ, SLASH :: rest) := by
  rcases rest with _ | ⟨second, _ | ⟨third, rest⟩⟩
  · rfl
  · rfl
  · simp at short

theorem diverges_of_stuck {position : Position} (stuck : Stuck position) :
    position.Diverges erange := by
  intro last fuel
  cases position with
  | key stale reader =>
      rcases stuck with ⟨rest, rfl, short⟩
      induction fuel generalizing stale with
      | zero => rfl
      | succ fuel ih =>
          change dictionaryLoop erange (fuel + 1) stale last (SLASH :: rest) = _
          rw [dictionaryLoop_cons, if_neg (by decide), if_neg (by decide), if_pos rfl,
            parseComment_short short]
          exact ih SLASH
  | value stale reader =>
      rcases stuck with ⟨rfl, white⟩ | rfl
      · induction fuel with
        | zero => rfl
        | succ fuel ih =>
            change genericLoop erange (fuel + 1) stale [] = _
            rw [genericLoop_nil, if_pos white]
            exact ih
      · -- The value is a list whose first element is that value again.
        have both : ∀ fuel stale, genericLoop erange fuel stale [LIST_BEGIN] = .error .outOfFuel ∧
            listLoop erange fuel [LIST_BEGIN] = .error .outOfFuel := by
          intro fuel
          induction fuel with
          | zero => exact fun stale => ⟨rfl, rfl⟩
          | succ fuel ih =>
              intro stale
              constructor
              · rw [genericLoop_cons, if_neg (by decide), if_neg (by decide), if_neg (by decide),
                  if_pos rfl]
                change (listLoop erange fuel [LIST_BEGIN]).map _ = _
                rw [(ih 0).2]
                rfl
              · rw [listLoop, if_neg (by decide), if_pos (by decide), (ih 0).1]
        exact (both fuel stale).1
  | element reader => exact stuck.elim

/-- A loop goes on for ever if it comes to a position where it does. -/
theorem Next.diverges {position next : Position} (step : Next erange position next)
    (diverges : next.Diverges erange) : position.Diverges erange := by
  intro last fuel
  rcases fuel with _ | fuel
  · cases position <;> rfl
  cases step with
  | key_skip quote ends slash =>
      exact (dictionaryLoop_cons _ _ _ _ _).trans
        (by rw [if_neg quote, if_neg ends, if_neg slash]; exact diverges last fuel)
  | key_comment =>
      exact (dictionaryLoop_cons _ _ _ _ _).trans
        (by rw [if_neg (by decide), if_neg (by decide), if_pos rfl]; exact diverges last fuel)
  | key_value string =>
      refine (dictionaryLoop_cons _ _ _ _ _).trans ?_
      have empty := diverges last fuel
      unfold Position.RunsOut at empty
      rw [if_pos rfl, string]
      dsimp only
      rw [empty]
  | key_next string value =>
      refine (dictionaryLoop_cons _ _ _ _ _).trans ?_
      rw [if_pos rfl, string]
      dsimp only
      rcases genericLoop_cases value fuel with empty | read
      · rw [empty]
      · rw [read]
        exact diverges _ fuel
  | value_skip white =>
      exact (genericLoop_cons _ _ _ _).trans (by rw [if_pos white]; exact diverges last fuel)
  | value_comment comment =>
      refine (genericLoop_cons _ _ _ _).trans ?_
      rw [if_neg (by decide), if_pos rfl, comment]
      exact diverges last fuel
  | value_list =>
      refine (genericLoop_cons _ _ _ _).trans ?_
      have empty := diverges last fuel
      unfold Position.RunsOut at empty
      rw [if_neg (by decide), if_neg (by decide), if_neg (by decide), if_pos rfl, empty]
      rfl
  | value_dict =>
      refine (genericLoop_cons _ _ _ _).trans ?_
      have empty := diverges .nil fuel
      unfold Position.RunsOut at empty
      rw [if_neg (by decide), if_neg (by decide), if_neg (by decide), if_neg (by decide),
        if_pos rfl, empty]
      rfl
  | element_comment comment =>
      change listLoop erange (fuel + 1) _ = _
      rw [listLoop, if_pos rfl, comment]
      exact diverges last fuel
  | element_value begins =>
      have empty := diverges last fuel
      unfold Position.RunsOut at empty
      change listLoop erange (fuel + 1) _ = _
      rw [listLoop, if_neg (by rintro rfl; cases begins), if_pos begins, empty]
  | element_next begins value =>
      change listLoop erange (fuel + 1) _ = _
      rw [listLoop, if_neg (by rintro rfl; cases begins), if_pos begins]
      rcases genericLoop_cases value fuel with empty | read
      · rw [empty]
      · have empty := diverges last fuel
        unfold Position.RunsOut at empty
        rw [read]
        dsimp only
        rw [empty]
        rfl
  | element_skip slash begins ends =>
      change listLoop erange (fuel + 1) _ = _
      rw [listLoop, if_neg slash, if_neg (by rw [begins]; decide), if_neg ends]
      exact diverges last fuel

theorem diverges_of_visits {position next : Position} (visits : Visits erange position next)
    (diverges : next.Diverges erange) : position.Diverges erange := by
  induction visits using Relation.ReflTransGen.head_induction_on with
  | refl => exact diverges
  | head step _ ih => exact step.diverges ih

/-! ## Loops that stop -/

theorem stringLoop_ne_outOfFuel (i : ℕ) (buffer : BString) (reader : Reader) :
    stringLoop i buffer reader ≠ .error .outOfFuel := by
  fun_induction stringLoop i buffer reader <;> simp_all

theorem parseString_ne_outOfFuel (reader : Reader) : parseString reader ≠ .error .outOfFuel := by
  unfold parseString
  have failure : ∀ failure, (readUntil QUOTE reader).1 = some failure → failure ≠ .outOfFuel := by
    fun_induction readUntil QUOTE reader <;> simp_all
  split
  · rename_i equal
    have fine := failure _ (congrArg Prod.fst equal)
    simpa using fine
  · exact stringLoop_ne_outOfFuel _ _ _

theorem integerLoop_ne_outOfFuel (left i : ℕ) (buffer : BString) (reader : Reader) :
    integerLoop left i buffer reader ≠ .error .outOfFuel := by
  fun_induction integerLoop left i buffer reader <;> simp_all

theorem parseint64_t_ne_outOfFuel (reader : Reader) :
    parseint64_t erange reader ≠ .error .outOfFuel := by
  have loop := integerLoop_ne_outOfFuel 21 0 [] reader
  unfold parseint64_t
  split
  · simp_all
  · dsimp only
    split_ifs <;> simp

theorem splatLoop_ne_outOfFuel (behindSplat : Bool) (reader : Reader) :
    (splatLoop behindSplat reader).1 ≠ some .outOfFuel := by
  fun_induction splatLoop behindSplat reader <;> simp_all

theorem readUntil_ne_outOfFuel (target : BitVec 8) (reader : Reader) :
    (readUntil target reader).1 ≠ some .outOfFuel := by
  fun_induction readUntil target reader <;> simp_all

theorem parseComment_ne_outOfFuel (reader : Reader) :
    (parseComment reader).1 ≠ some .outOfFuel := by
  rcases reader with _ | ⟨first, _ | ⟨second, _ | ⟨third, rest⟩⟩⟩
  · simp [parseComment]
  · simp [parseComment]
  · simp [parseComment]
  · rw [parseComment]
    split_ifs
    · simp
    · exact splatLoop_ne_outOfFuel _ _
    · exact readUntil_ne_outOfFuel _ _
    · simp

/-- A comment that is read gets the reader further. -/
theorem length_lt_of_comment {rest reader : Reader}
    (comment : parseComment (SLASH :: rest) = (none, reader)) :
    reader.length < (SLASH :: rest).length := by
  rcases rest with _ | ⟨second, _ | ⟨third, rest⟩⟩
  · cases comment
  · cases comment
  · have further := length_parseComment_lt SLASH second third rest
    rw [comment] at further
    exact further

/-- What gets smaller from one position to the next -/
def Position.size : Position → ℕ
  | .key _ reader => 2 * reader.length
  | .value _ reader => 2 * reader.length + 1
  | .element reader => 2 * reader.length + 2

/-- The loop at the position stops. -/
def Position.Stops (erange : Bool) (position : Position) : Prop :=
  ∀ last, ∃ fuel, ¬position.RunsOut erange last fuel

/-- A value in front of something else: it fails, or it is read with all the fuel from some on. -/
theorem value_cases {reader : Reader} (stops : (Position.value 0 reader).Stops erange) :
    ∃ enough, (∃ failure, failure ≠ .outOfFuel ∧
        genericLoop erange enough 0 reader = .error failure) ∨
      ∃ object behind, ∀ fuel ≥ enough, genericLoop erange fuel 0 reader = .ok (object, behind) := by
  rcases stops .nil with ⟨fuel, fine⟩
  have settles := (@genericLoop_stable erange 0 reader).settles fine
  rcases parsed : genericLoop erange fuel 0 reader with failure | ⟨object, behind⟩
  · exact ⟨fuel, .inl ⟨failure, fun same => fine (by subst same; exact parsed), parsed⟩⟩
  · rw [parsed] at settles
    rcases settles with ⟨enough, same⟩
    exact ⟨enough, .inr ⟨object, behind, same⟩⟩

/-- In front of a key -/
theorem stops_key {stale : BitVec 8} {reader : Reader}
    (free : ¬Stuck (.key stale reader))
    (next : ∀ position, Next erange (.key stale reader) position →
      position.size < (Position.key stale reader).size → position.Stops erange) :
    (Position.key stale reader).Stops erange := by
  intro last
  rcases reader with _ | ⟨char, rest⟩
  · refine ⟨1, ?_⟩
    simp only [Position.RunsOut]
    rw [dictionaryLoop_nil]
    split_ifs <;> simp
  by_cases quote : char = QUOTE
  · subst quote
    rcases string : parseString (QUOTE :: rest) with failure | ⟨content, second⟩
    · refine ⟨1, ?_⟩
      have fine := parseString_ne_outOfFuel (QUOTE :: rest)
      simp only [Position.RunsOut]
      rw [dictionaryLoop_cons, if_pos rfl, string]
      rw [string] at fine
      simpa using fine
    · have secondShorter := length_lt_of_parseString string
      have further := length_readUntil_le COLON second
      rw [List.length_cons] at secondShorter
      have value := next _ (.key_value string) (by
        simp only [Position.size, List.length_cons]
        omega)
      rcases value_cases value with ⟨enough, ⟨failure, fine, failed⟩ | ⟨object, third, read⟩⟩
      · refine ⟨enough + 1, ?_⟩
        simp only [Position.RunsOut]
        rw [dictionaryLoop_cons, if_pos rfl, string]
        dsimp only
        rw [failed]
        simpa using fine
      · have thirdShorter := length_lt_of_genericLoop enough (read enough le_rfl)
        have entries := next _ (.key_next string (read enough le_rfl)) (by
          simp only [Position.size, List.length_cons]
          omega)
        rcases entries (.cons content object last) with ⟨fuel, fine⟩
        have stable : Stable (fun fuel => dictionaryLoop erange fuel QUOTE
            (.cons content object last) third) (.error .outOfFuel) :=
          fun fuel => dictionaryLoop_succ fuel _ _ _
        rcases stable.settles fine with ⟨plenty, same⟩
        refine ⟨max enough plenty + 1, ?_⟩
        simp only [Position.RunsOut]
        rw [dictionaryLoop_cons, if_pos rfl, string]
        dsimp only
        rw [read _ (le_max_left _ _)]
        dsimp only at same ⊢
        rw [same _ (le_max_right _ _)]
        exact fine
  by_cases ends : char = DICT_END
  · refine ⟨1, ?_⟩
    simp only [Position.RunsOut]
    rw [dictionaryLoop_cons, if_neg quote, if_pos ends]
    simp
  by_cases slash : char = SLASH
  · subst slash
    have long : ¬rest.length ≤ 1 := fun short => free ⟨rest, rfl, short⟩
    rcases rest with _ | ⟨second, _ | ⟨third, rest⟩⟩
    · simp at long
    · simp at long
    · have further := length_parseComment_lt SLASH second third rest
      rcases next _ .key_comment (by
        simp only [Position.size]
        omega) last with ⟨fuel, fine⟩
      refine ⟨fuel + 1, ?_⟩
      simp only [Position.RunsOut] at fine ⊢
      rw [dictionaryLoop_cons, if_neg quote, if_neg ends, if_pos rfl]
      exact fine
  · rcases next _ (.key_skip quote ends slash) (by
      simp only [Position.size, List.length_cons]
      omega) last with ⟨fuel, fine⟩
    refine ⟨fuel + 1, ?_⟩
    simp only [Position.RunsOut] at fine ⊢
    rw [dictionaryLoop_cons, if_neg quote, if_neg ends, if_neg slash]
    exact fine

/-- In front of a value -/
theorem stops_value {stale : BitVec 8} {reader : Reader}
    (free : ¬Stuck (.value stale reader))
    (next : ∀ position, Next erange (.value stale reader) position →
      position.size < (Position.value stale reader).size → position.Stops erange) :
    (Position.value stale reader).Stops erange := by
  intro last
  rcases reader with _ | ⟨char, rest⟩
  · refine ⟨1, ?_⟩
    have white : ¬isWhite stale = true := fun white => free (.inl ⟨rfl, white⟩)
    simp only [Position.RunsOut]
    rw [genericLoop_nil, if_neg white]
    simp
  by_cases white : isWhite char = true
  · rcases next _ (.value_skip white) (by
      simp only [Position.size, List.length_cons]
      omega) last with ⟨fuel, fine⟩
    refine ⟨fuel + 1, ?_⟩
    simp only [Position.RunsOut] at fine ⊢
    rw [genericLoop_cons, if_pos white]
    exact fine
  by_cases slash : char = SLASH
  · subst slash
    rcases comment : parseComment (SLASH :: rest) with ⟨_ | failure, second⟩
    · have further := length_lt_of_comment comment
      rcases next _ (.value_comment comment) (by
        simp only [Position.size]
        omega) last with ⟨fuel, fine⟩
      refine ⟨fuel + 1, ?_⟩
      simp only [Position.RunsOut] at fine ⊢
      rw [genericLoop_cons, if_neg white, if_pos rfl, comment]
      exact fine
    · refine ⟨1, ?_⟩
      have fine := parseComment_ne_outOfFuel (SLASH :: rest)
      simp only [Position.RunsOut]
      rw [genericLoop_cons, if_neg white, if_pos rfl, comment]
      rw [comment] at fine
      simpa using fine
  by_cases digit : isDigit char = true
  · refine ⟨1, ?_⟩
    simp only [Position.RunsOut]
    rw [genericLoop_cons, if_neg white, if_neg slash, if_pos digit]
    exact map_ne_outOfFuel (parseint64_t_ne_outOfFuel _)
  by_cases list : char = LIST_BEGIN
  · subst list
    rcases rest with _ | ⟨second, rest⟩
    · exact absurd (.inr rfl) free
    · have inside : (readUntil LIST_BEGIN (LIST_BEGIN :: second :: rest)).2 = second :: rest := by
        rw [readUntil, if_pos rfl]
      rcases next _ .value_list (by
        rw [inside]
        simp only [Position.size, List.length_cons]
        omega) last with ⟨fuel, fine⟩
      refine ⟨fuel + 1, ?_⟩
      simp only [Position.RunsOut] at fine ⊢
      rw [genericLoop_cons, if_neg white, if_neg slash, if_neg digit, if_pos rfl]
      exact map_ne_outOfFuel fine
  by_cases dict : char = DICT_BEGIN
  · subst dict
    have further := length_readUntil_le DICT_BEGIN (DICT_BEGIN :: rest)
    rcases next _ .value_dict (by
      simp only [Position.size]
      omega) .nil with ⟨fuel, fine⟩
    refine ⟨fuel + 1, ?_⟩
    simp only [Position.RunsOut] at fine ⊢
    rw [genericLoop_cons, if_neg white, if_neg slash, if_neg digit, if_neg list, if_pos rfl]
    exact map_ne_outOfFuel fine
  refine ⟨1, ?_⟩
  simp only [Position.RunsOut]
  rw [genericLoop_cons, if_neg white, if_neg slash, if_neg digit, if_neg list, if_neg dict]
  split_ifs
  · exact map_ne_outOfFuel (parseString_ne_outOfFuel _)
  · simp

/-- In front of an element -/
theorem stops_element {reader : Reader}
    (next : ∀ position, Next erange (.element reader) position →
      position.size < (Position.element reader).size → position.Stops erange) :
    (Position.element reader).Stops erange := by
  intro last
  rcases reader with _ | ⟨char, rest⟩
  · exact ⟨1, fun empty => by cases empty⟩
  by_cases slash : char = SLASH
  · subst slash
    rcases comment : parseComment (SLASH :: rest) with ⟨_ | failure, second⟩
    · have further := length_lt_of_comment comment
      rcases next _ (.element_comment comment) (by
        simp only [Position.size]
        omega) last with ⟨fuel, fine⟩
      refine ⟨fuel + 1, ?_⟩
      simp only [Position.RunsOut] at fine ⊢
      rw [listLoop, if_pos rfl, comment]
      exact fine
    · refine ⟨1, ?_⟩
      have fine := parseComment_ne_outOfFuel (SLASH :: rest)
      simp only [Position.RunsOut]
      rw [listLoop, if_pos rfl, comment]
      rw [comment] at fine
      simpa using fine
  by_cases begins : beginsElement char = true
  · have value := next _ (.element_value begins) (by
      simp only [Position.size]
      omega)
    rcases value_cases value with ⟨enough, ⟨failure, fine, failed⟩ | ⟨object, third, read⟩⟩
    · refine ⟨enough + 1, ?_⟩
      simp only [Position.RunsOut]
      rw [listLoop, if_neg slash, if_pos begins, failed]
      simpa using fine
    · have thirdShorter := length_lt_of_genericLoop enough (read enough le_rfl)
      rcases next _ (.element_next begins (read enough le_rfl)) (by
        simp only [Position.size]
        omega) last with ⟨fuel, fine⟩
      have stable : Stable (fun fuel => listLoop erange fuel third) (.error .outOfFuel) :=
        fun fuel => listLoop_succ fuel _
      rcases stable.settles fine with ⟨plenty, same⟩
      refine ⟨max enough plenty + 1, ?_⟩
      simp only [Position.RunsOut]
      rw [listLoop, if_neg slash, if_pos begins, read _ (le_max_left _ _)]
      dsimp only at same ⊢
      rw [same _ (le_max_right _ _)]
      exact map_ne_outOfFuel fine
  by_cases ends : char = LIST_END
  · refine ⟨1, ?_⟩
    simp only [Position.RunsOut]
    rw [listLoop, if_neg slash, if_neg begins, if_pos ends]
    simp
  · rcases next _ (.element_skip slash (Bool.eq_false_iff.mpr begins) ends) (by
      simp only [Position.size, List.length_cons]
      omega) last with ⟨fuel, fine⟩
    refine ⟨fuel + 1, ?_⟩
    simp only [Position.RunsOut] at fine ⊢
    rw [listLoop, if_neg slash, if_neg begins, if_neg ends]
    exact fine

/-- A loop that comes to no position where it is stuck stops, as its positions get smaller. -/
theorem stops_of_free (size : ℕ) : ∀ {position : Position}, position.size ≤ size →
    (∀ next, Visits erange position next → ¬Stuck next) → position.Stops erange := by
  induction size using Nat.strong_induction_on with
  | _ size ih =>
      intro position bound free
      have next : ∀ next, Next erange position next → next.size < position.size →
          next.Stops erange := fun next step smaller =>
        ih next.size (by omega) le_rfl fun later visits => free later (.head step visits)
      cases position with
      | key stale reader => exact stops_key (free _ .refl) next
      | value stale reader => exact stops_value (free _ .refl) next
      | element reader => exact stops_element next

/-- The first position of `parseDictionary` -/
def start (bytes : BString) (behind : BitVec 8) : Position :=
  .key 0 (readUntil DICT_BEGIN (newReader bytes behind)).2

/-- The parser stops if and only if it comes to no position where it is stuck. -/
theorem parseDictionary_stops_iff {erange : Bool} {bytes : BString} {behind : BitVec 8} :
    (∃ fuel, parseDictionary erange fuel (newReader bytes behind) ≠ .error .outOfFuel) ↔
      ∀ position, Visits erange (start bytes behind) position → ¬Stuck position := by
  constructor
  · rintro ⟨fuel, fine⟩ position visits stuck
    exact fine (diverges_of_visits visits (diverges_of_stuck stuck) .nil fuel)
  · intro free
    exact stops_of_free _ le_rfl free .nil

/-- A slash at the end, in front of a key, is looked at for ever. -/
theorem slash_at_end :
    ¬∃ fuel, parseDictionary false fuel (newReader [DICT_BEGIN, SLASH] 0) ≠ .error .outOfFuel := by
  rintro ⟨fuel, fine⟩
  exact fine (diverges_of_stuck (show Stuck (.key 0 [SLASH, 0]) from ⟨[0], rfl, le_rfl⟩) .nil fuel)

end Cjdns.JsonBencSerializer
