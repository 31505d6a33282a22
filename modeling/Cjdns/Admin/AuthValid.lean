import Cjdns.Admin.Authentication

/-!
# What `authValid` does

Once the cookie is read, `authValid` stays within the request, as the hash is somewhere in it. It
returns true if the low bits of the cookie are current and the first text like the hash stands
where the signature belongs (`exists_authValid`).
-/

namespace Cjdns

open Decimal StandardBencSerializer

namespace Admin

/-! ## The cookie -/

theorem sign_append {text more : BString} :
    sign (text ++ 0 :: more) = ((sign text).1, (sign text).2 ++ 0 :: more) := by
  rcases text with _ | ⟨first, text⟩
  · rfl
  · rw [List.cons_append]
    by_cases minus : first = 0x2D
    · rw [minus]
      rfl
    by_cases plus : first = 0x2B
    · rw [plus]
      rfl
    · unfold sign
      split
      · simp_all
      · simp_all
      · split <;> simp_all

theorem takeWhile_append_stop {α : Type} {goes : α → Bool} {stop : α} (stops : goes stop = false)
    (text more : List α) : (text ++ stop :: more).takeWhile goes = text.takeWhile goes := by
  induction text with
  | nil => simp [stops]
  | cons first text ih => rw [List.cons_append, List.takeWhile_cons, List.takeWhile_cons, ih]

theorem dropWhile_append_stop {α : Type} {goes : α → Bool} {stop : α} (stops : goes stop = false)
    (text more : List α) :
    (text ++ stop :: more).dropWhile goes = text.dropWhile goes ++ stop :: more := by
  induction text with
  | nil => simp [stops]
  | cons first text ih =>
      rw [List.cons_append, List.dropWhile_cons, List.dropWhile_cons, ih]
      split_ifs <;> rfl

/-- A terminator ends a number. -/
theorem strtoll_terminated (text more : BString) :
    strtoll (text ++ 0 :: more) = .ok (strtol text).number := by
  have signs : sign ((text ++ 0 :: more).dropWhile isSpace) =
      ((sign (text.dropWhile isSpace)).1, (sign (text.dropWhile isSpace)).2 ++ 0 :: more) := by
    rw [dropWhile_append_stop (by decide), sign_append]
  rw [strtoll, signs, dropWhile_append_stop (by decide), if_neg (by simp), strtol, signs,
    takeWhile_append_stop (by decide), strtol]

/-- A single character is no number, but it may be the beginning of one. -/
theorem strtoll_single (character : BitVec 8) :
    strtoll [character] = if goesOn character then .error .outOfBounds else .ok 0 := by
  revert character
  decide +kernel

namespace Request

variable (request : Request)

theorem length_reader : (newReader request.bytes request.behind).length =
    request.bytes.length + 1 := by
  rw [newReader, List.length_append, List.length_singleton]

theorem small_reader : (newReader request.bytes request.behind).length < 2 ^ 64 := by
  have small := request.small
  rw [length_reader]
  unfold MAX_REQUEST_SIZE at small
  omega

variable {request}

/-- A string that is found is in memory. -/
theorem isRead_of_getString {key : BString} {string : CString}
    (found : request.entries.getString key = some string) : InMemory.IsRead string :=
  InMemory.isRead_of_parseDictionary request.parsed string
    (CDict.mem_strings_of_lookup (CDict.getString_eq_some_iff.mp found))

theorem bytes_of_getString {key : BString} {string : CString}
    (found : request.entries.getString key = some string) :
    if string.content = [] then string.bytes = [string.source.headD 0]
    else ∃ more, string.bytes = string.content ++ 0 :: more := by
  have read := isRead_of_getString found
  split_ifs with empty
  · rcases InMemory.string_of_parseDictionary request.small_reader request.parsed found with
      ⟨front, second, rest, -, parsed⟩
    have zero : string.len = 0 := by rw [← read.length_content, empty, List.length_nil]
    rcases InMemory.parseString_cases parsed with ⟨-, bytes, -⟩ | ⟨nonzero, -⟩
    · exact bytes
    · exact absurd zero nonzero
  · have some : string.len ≠ 0 := by
      rw [← read.length_content]
      exact fun zero => empty (List.length_eq_zero_iff.mp zero)
    rcases read.terminated_iff.mpr some with ⟨terminator, content⟩
    refine ⟨string.bytes.drop (string.len + 1), ?_⟩
    rw [← content]
    rcases List.getElem?_eq_some_iff.mp terminator with ⟨inside, zero⟩
    rw [← zero, List.getElem_cons_drop, List.take_append_drop]

/-- `strtoll` reads the content of the cookie, or it goes too far. -/
theorem strtoll_of_getString {key : BString} {string : CString}
    (found : request.entries.getString key = some string) :
    strtoll string.bytes =
      if string.content = [] ∧ goesOn (string.source.headD 0) = true then .error .outOfBounds
      else .ok (strtol string.content).number := by
  have bytes := bytes_of_getString found
  by_cases empty : string.content = []
  · rw [if_pos empty] at bytes
    rw [bytes, strtoll_single, empty]
    simp
    rfl
  · rw [if_neg empty] at bytes
    rcases bytes with ⟨more, bytes⟩
    rw [bytes, strtoll_terminated, if_neg (fun both => empty both.1)]

/-- `authValid` reads the cookie where it ends, with the low bits of its number. -/
theorem readCookie_eq (ends : CookieEnds request) :
    readCookie request.entries = .ok (BitVec.ofInt 32 (request.cookie.getD 0)) := by
  unfold readCookie cookie
  cases found : request.entries.lookup COOKIE with
  | none => simp [CDict.getString, CDict.getInt, found, bind, Except.bind]
  | some object =>
      cases object with
      | string string =>
          have isString := CDict.getString_eq_some_iff.mpr found
          have read := strtoll_of_getString isString
          rw [if_neg (fun both => absurd both.2 (by rw [ends string isString both.1]; decide))]
            at read
          have none : request.entries.getInt COOKIE = none := by simp [CDict.getInt, found]
          simp only [isString, none, read, Except.map, bind, Except.bind, Option.getD_some]
          split_ifs with zero
          · rw [zero]
          · rfl
      | integer number =>
          have low : BitVec.ofInt 32 number.toInt = number.setWidth 32 :=
            BitVec.signExtend_eq_setWidth_of_le number (by decide)
          simp [CDict.getString, CDict.getInt, found, bind, Except.bind, low]
      | list list => simp [CDict.getString, CDict.getInt, found, bind, Except.bind]
      | dict dictionary => simp [CDict.getString, CDict.getInt, found, bind, Except.bind]

/-- The cookie is only read if it ends. -/
theorem cookieEnds_of_readCookie {cookie : BitVec 32}
    (read : readCookie request.entries = .ok cookie) : CookieEnds request := by
  intro string found empty
  rw [Bool.eq_false_iff]
  intro further
  rw [readCookie, found] at read
  simp only [strtoll_of_getString found, if_pos (And.intro empty further)] at read
  cases read

/-! ## The hash -/

theorem length_place {hash : CString} (found : request.hash = some hash) :
    ∃ front rest, request.bytes = front ++ (hash.content ++ rest) ∧
      request.place hash = front.length := by
  rcases InMemory.source_of_parseDictionary request.small_reader request.parsed found with
    ⟨front, rest, whole, source, some⟩
  have place : request.place hash = front.length := by
    rw [Request.place, whole, List.length_append, Nat.add_sub_cancel]
  rcases (List.eq_nil_or_concat' rest).resolve_left some with ⟨others, last, rfl⟩
  rw [newReader, source, ← List.append_assoc, ← List.append_assoc] at whole
  refine ⟨front, others, ?_, place⟩
  rw [List.append_inj_left' whole rfl, List.append_assoc]

/-- The hash is in the request. -/
theorem hash_inside {hash : CString} (found : request.hash = some hash) :
    hash.content <+: request.bytes.drop (request.place hash) := by
  rcases length_place found with ⟨front, rest, whole, place⟩
  rw [whole, place, List.drop_left]
  exact List.prefix_append _ _

theorem place_add_length_le {hash : CString} (found : request.hash = some hash) :
    request.place hash + hash.content.length ≤ request.bytes.length := by
  rcases length_place found with ⟨front, rest, whole, place⟩
  rw [whole, place, List.length_append, List.length_append]
  omega

end Request

/-- What is searched for ends where the string has a zero. -/
theorem exists_cString_append (text more : BString) :
    ∃ rest, text ++ 0 :: more = AdminLog.cString text ++ 0 :: rest := by
  induction text with
  | nil => exact ⟨more, rfl⟩
  | cons first text ih =>
      by_cases zero : first = 0
      · exact ⟨text ++ 0 :: more, by simp [AdminLog.cString, zero]⟩
      · rcases ih with ⟨rest, same⟩
        refine ⟨rest, ?_⟩
        have front : AdminLog.cString (first :: text) = first :: AdminLog.cString text := by
          rw [AdminLog.cString, List.takeWhile_cons_of_pos (by simpa using zero)]
          rfl
        rw [front, List.cons_append, List.cons_append, same]

theorem zero_notMem_cString (text : BString) : 0 ∉ AdminLog.cString text := by
  intro member
  simpa using List.mem_takeWhile_imp member

/-- `strstr` finds the first text like the hash, without leaving the request. -/
theorem exists_strstr {request : Request} {hash : CString} (found : request.hash = some hash)
    (nonempty : hash.content ≠ []) :
    ∃ place, TextSearch.search 0 hash.bytes request.bytes = .ok place ∧ ∀ other,
      place = some other ↔
        TextSearch.IsFirst 0 request.bytes (AdminLog.cString hash.content) other := by
  have bytes := Request.bytes_of_getString found
  rw [if_neg nonempty] at bytes
  rcases bytes with ⟨more, bytes⟩
  rcases exists_cString_append hash.content more with ⟨rest, same⟩
  rw [bytes, same]
  apply TextSearch.exists_search (zero_notMem_cString _)
  exact (List.takeWhile_prefix _).trans (Request.hash_inside found)

/-! ## Writing into the request -/

section Put

variable {text bytes : BString} {place : ℕ}

theorem length_put (inside : place + text.length ≤ bytes.length) :
    (put text place bytes).length = bytes.length := by
  simp only [put, List.length_append, List.length_take, List.length_drop]
  omega

theorem drop_put (inside : place + text.length ≤ bytes.length) :
    (put text place bytes).drop place = text ++ bytes.drop (place + text.length) := by
  rw [put, List.append_assoc, List.drop_append_of_le_length, List.drop_eq_nil_of_le,
    List.nil_append]
  · rw [List.length_take]
    omega
  · rw [List.length_take]
    omega

/-- Different texts make a difference. -/
theorem put_injective {other : BString} (same : other.length = text.length)
    (inside : place + text.length ≤ bytes.length)
    (equal : put text place bytes = put other place bytes) : text = other := by
  have dropped := congrArg (List.drop place) equal
  rw [drop_put inside, drop_put (by omega), same] at dropped
  exact List.append_cancel_right dropped

end Put

/-! ## What `authValid` does -/

theorem length_hexEncode (sha : Sha256) (bytes : BString) :
    (Hex.encode (sha.digest bytes)).length = 64 := by
  rw [Hex.length_encode, sha.length_digest]

theorem length_signature (sha : Sha256) (secret bytes : BString) (place : ℕ) :
    (signature sha secret bytes place).length = 64 :=
  length_hexEncode sha _

/-- `authValid` takes the low bits of the cookie for fresh. -/
def IsCurrent (nowSecs : BitVec 64) (cookie : BitVec 32) : Prop :=
  ¬(cookie.setWidth 64 > nowSecs ∨ cookie.setWidth 64 < nowSecs - 20)

/-- When `authValid` returns true -/
def Accepts (sha : Sha256) (password : Option BString) (nowSecs : BitVec 64) (request : Request) :
    Prop :=
  ∃ secret ∈ password, ∃ hash ∈ request.hash, hash.len = 64 ∧
    IsCurrent nowSecs (BitVec.ofInt 32 (request.cookie.getD 0)) ∧
    ∃ place, TextSearch.IsFirst 0 request.bytes (AdminLog.cString hash.content) place ∧
      hash.content = signature sha
        (passAndCookie secret (BitVec.ofInt 32 (request.cookie.getD 0))) request.bytes place

theorem hexEncode_eq_ok {digest bytes : BString} {place : ℕ}
    (inside : place + (Hex.encode digest).length ≤ bytes.length) :
    hexEncode digest place bytes = .ok (put (Hex.encode digest) place bytes) := by
  rw [hexEncode, Checked.require, if_pos inside]
  rfl

/-- The signature is what is left where two digests were written. -/
theorem hexEncode_twice (sha : Sha256) (secret : BString) {bytes : BString} {place : ℕ}
    (inside : place + 64 ≤ bytes.length) :
    let once := put (Hex.encode (sha.digest secret)) place bytes
    let twice := put (Hex.encode (sha.digest once)) place once
    hexEncode (sha.digest secret) place bytes = .ok once ∧
      hexEncode (sha.digest once) place once = .ok twice ∧
      Checked.readAt twice place 64 = .ok (signature sha secret bytes place) := by
  intro once twice
  have firstSize := length_hexEncode sha secret
  have secondSize := length_hexEncode sha once
  have onceSize : once.length = bytes.length := length_put (by omega)
  have twiceSize : twice.length = once.length := length_put (by omega)
  refine ⟨hexEncode_eq_ok (by omega), hexEncode_eq_ok (by omega), ?_⟩
  rw [Checked.readAt_eq_ok]
  refine ⟨by omega, ?_⟩
  rw [drop_put (by omega)]
  exact List.take_left' secondSize

/-- The place of the hash that is found -/
theorem isFirst_unique {text word : BString} {first second : ℕ}
    (one : TextSearch.IsFirst 0 text word first) (two : TextSearch.IsFirst 0 text word second) :
    first = second :=
  le_antisymm (one.le two.here) (two.le one.here)

/-- `authValid` does not leave the request once it has the cookie. -/
theorem exists_authValid (sha : Sha256) (password : Option BString) (nowSecs : BitVec 64)
    {request : Request} (ends : CookieEnds request) :
    ∃ accepted, authValid sha password nowSecs request.entries request.bytes = .ok accepted ∧
      (accepted = true ↔ Accepts sha password nowSecs request) := by
  unfold authValid
  rw [Request.readCookie_eq ends]
  simp only [bind, Except.bind]
  cases found : request.entries.getString HASH with
  | none =>
      refine ⟨false, rfl, iff_of_false (by decide) ?_⟩
      rintro ⟨secret, -, hash, member, -⟩
      rw [Request.hash, found] at member
      cases member
  | some hash =>
      dsimp only
      split_ifs with outdated
      · refine ⟨false, rfl, iff_of_false (by decide) ?_⟩
        rintro ⟨secret, -, other, member, length, current, -⟩
        rw [Request.hash, found] at member
        cases member
        rcases outdated with late | early | short
        · exact current (.inl late)
        · exact current (.inr early)
        · exact short length
      rcases not_or.mp outdated with ⟨late, others⟩
      rcases not_or.mp others with ⟨early, length⟩
      rw [not_not] at length
      have read := Request.isRead_of_getString found
      have size : hash.content.length = 64 := read.length_content.trans length
      have submitted : Checked.readAt hash.bytes 0 64 = .ok hash.content := by
        have taken := read.take_bytes
        rw [length] at taken
        have long := congrArg List.length taken
        rw [List.length_take, size] at long
        rw [Checked.readAt_eq_ok, List.drop_zero]
        exact ⟨by omega, taken⟩
      rcases exists_strstr found (List.ne_nil_of_length_pos (by omega)) with
        ⟨place, searched, place_iff⟩
      rw [searched]
      cases place with
      | none =>
          refine ⟨false, rfl, iff_of_false (by decide) ?_⟩
          rintro ⟨secret, -, other, member, -, -, place, isFirst, -⟩
          rw [Request.hash, found] at member
          cases member
          cases (place_iff place).mpr isFirst
      | some place =>
          have isFirst := (place_iff place).mp rfl
          have within := isFirst.le
            ((List.takeWhile_prefix _).trans (Request.hash_inside found))
          have inside := Request.place_add_length_le found
          cases password with
          | none =>
              refine ⟨false, rfl, iff_of_false (by decide) ?_⟩
              rintro ⟨secret, impossible, -⟩
              cases impossible
          | some secret =>
              have fits : place + 64 ≤ request.bytes.length := by omega
              rcases hexEncode_twice sha (passAndCookie secret
                (BitVec.ofInt 32 (request.cookie.getD 0))) fits with ⟨first, second, written⟩
              simp only [first, second, written, submitted]
              refine ⟨_, rfl, ?_⟩
              rw [decide_eq_true_iff]
              constructor
              · intro same
                exact ⟨secret, rfl, hash, found, length, fun either => either.elim late early,
                  place, isFirst, same.symm⟩
              · rintro ⟨_, ⟨⟩, other, member, -, -, otherPlace, otherFirst, same⟩
                rw [Request.hash, found] at member
                cases member
                rw [isFirst_unique isFirst otherFirst]
                exact same.symm

/-- The clock does not wrap, and the cookie is fresh. -/
theorem isCurrent_iff {nowSecs : BitVec 64} {cookie : BitVec 32} :
    IsCurrent nowSecs cookie ↔ 20 ≤ nowSecs.toNat ∧ IsFresh nowSecs cookie.toNat := by
  have small := cookie.isLt
  have bound := nowSecs.isLt
  have same : (cookie.setWidth 64).toNat = cookie.toNat := by
    rw [BitVec.toNat_setWidth, Nat.mod_eq_of_lt (by omega)]
  have twenty : (20 : BitVec 64).toNat = 20 := rfl
  simp only [IsCurrent, IsFresh, gt_iff_lt, BitVec.lt_def, same, BitVec.toNat_sub, twenty]
  omega

/-- A fresh cookie that is current is its own low bits. -/
theorem toNat_of_fresh {nowSecs : BitVec 64} {cookie : ℤ} (fresh : IsFresh nowSecs cookie)
    (current : IsCurrent nowSecs (BitVec.ofInt 32 cookie)) :
    ((BitVec.ofInt 32 cookie).toNat : ℤ) = cookie := by
  rw [isCurrent_iff] at current
  simp only [IsFresh, BitVec.toNat_ofInt] at fresh current ⊢
  omega

theorem toNat_of_small {cookie : ℤ} (positive : 0 ≤ cookie) (small : cookie < 2 ^ 32) :
    ((BitVec.ofInt 32 cookie).toNat : ℤ) = cookie := by
  rw [BitVec.toNat_ofInt]
  omega

theorem cString_eq_self_iff {text : BString} : AdminLog.cString text = text ↔ 0 ∉ text := by
  simp only [AdminLog.cString, List.takeWhile_eq_self_iff, decide_eq_true_eq]
  exact ⟨fun all member => all 0 member rfl, fun apart byte member zero => apart (zero ▸ member)⟩

/-- The buffer has room for the password and the cookie. -/
theorem passAndCookie_eq_iff {secret : BString} {cookie : BitVec 32} :
    passAndCookie secret cookie = secret ++ ofNat cookie.toNat ↔
      0 ∉ secret ∧ (secret ++ ofNat cookie.toNat).length < 64 := by
  have front : AdminLog.cString secret <+: secret := List.takeWhile_prefix _
  have shorter := front.length_le
  rw [passAndCookie, ← cString_eq_self_iff]
  constructor
  · intro same
    have sizes := congrArg List.length same
    simp only [List.length_take, List.length_append] at sizes ⊢
    have positive := List.length_pos_of_ne_nil (ofNat_ne_nil cookie.toNat)
    exact ⟨front.eq_of_length (by omega), by omega⟩
  · rintro ⟨whole, short⟩
    rw [whole, List.take_of_length_le (by omega)]

theorem length_passAndCookie (secret : BString) (cookie : BitVec 32) :
    (passAndCookie secret cookie).length < 64 := by
  rw [passAndCookie, List.length_take]
  omega

/-- There is no zero in hexadecimal text. -/
theorem IsHex.zero_notMem {text : BString} (isHex : IsHex text) : 0 ∉ text := by
  rcases isHex with ⟨digest, -, rfl⟩
  have entity : ∀ nibble : BitVec 4, Hex.hexEntity nibble ≠ 0 := by decide
  intro member
  simp only [Hex.encode, List.mem_flatMap, List.mem_cons, List.not_mem_nil, or_false] at member
  rcases member with ⟨byte, -, zero | zero⟩
  · exact entity _ zero.symm
  · exact entity _ zero.symm

theorem isHex_signature (sha : Sha256) (secret bytes : BString) (place : ℕ) :
    IsHex (signature sha secret bytes place) :=
  ⟨_, sha.length_digest _, rfl⟩

end Admin

end Cjdns
