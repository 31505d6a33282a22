import Cjdns.Admin.AuthValid

/-!
# What a client sends

In the message that `calculateAuth` makes, only the hash depends on the hash. So `authValid` finds
what the client hashed when it puts the hash of the password there, if it finds the place.
-/

namespace Cjdns

open Decimal StandardBencSerializer

namespace Dict

theorem keys_append (front back : Dict) : (front.append back).keys = front.keys ++ back.keys := by
  induction front using keys.induct with
  | case1 => rfl
  | case2 key val next ih => rw [append, keys, keys, ih, List.cons_append]

/-- What is put stands in the same place whatever it is. -/
theorem exists_append_of_putObject (key : BString) (dictionary : Dict) :
    ∃ front back : Dict, ∀ value,
      dictionary.putObject key value = front.append (.cons key value back) := by
  induction dictionary using keys.induct with
  | case1 => exact ⟨.nil, .nil, fun _ => rfl⟩
  | case2 other val next ih =>
      by_cases less : BString.compare key other < 0
      · refine ⟨.nil, .cons other val next, fun value => ?_⟩
        simp only [putObject, if_pos less, append]
      by_cases same : BString.compare key other = 0
      · have equal := BString.compare_eq_zero_iff.mp same
        refine ⟨.nil, next, fun value => ?_⟩
        simp only [putObject, if_neg less, if_pos same, append]
        rw [equal]
      · rcases ih with ⟨front, back, all⟩
        refine ⟨.cons other val front, back, fun value => ?_⟩
        simp only [putObject, if_neg less, if_neg same, append, all value]

/-- What is put next to it does not depend on it. -/
theorem exists_append_of_putObject_of_ne {key other : BString} (apart : key ≠ other)
    (put : Object) (front back : Dict) :
    ∃ front' back' : Dict, ∀ value, (front.append (.cons other value back)).putObject key put =
      front'.append (.cons other value back') := by
  induction front using keys.induct with
  | case1 =>
      by_cases less : BString.compare key other < 0
      · refine ⟨.cons key put .nil, back, fun value => ?_⟩
        simp only [append, putObject, if_pos less]
      · have differ : BString.compare key other ≠ 0 :=
          fun same => apart (BString.compare_eq_zero_iff.mp same)
        refine ⟨.nil, back.putObject key put, fun value => ?_⟩
        simp only [append, putObject, if_neg less, if_neg differ]
  | case2 first val next ih =>
      by_cases less : BString.compare key first < 0
      · refine ⟨.cons key put (.cons first val next), back, fun value => ?_⟩
        simp only [append, putObject, if_pos less]
      by_cases same : BString.compare key first = 0
      · refine ⟨.cons first put next, back, fun value => ?_⟩
        simp only [append, putObject, if_neg less, if_pos same]
      · rcases ih with ⟨front', back', all⟩
        refine ⟨.cons first val front', back', fun value => ?_⟩
        simp only [append, putObject, if_neg less, if_neg same, all value]

/-- The entries in front are serialized in front. -/
theorem exists_serializeEntries_append (front : Dict) :
    ∃ word, ∀ back, serializeEntries (front.append back) = word ++ serializeEntries back := by
  induction front using keys.induct with
  | case1 => exact ⟨[], fun _ => rfl⟩
  | case2 key val next ih =>
      rcases ih with ⟨word, all⟩
      refine ⟨serializeString key ++ (serializeGeneric val ++ word), fun back => ?_⟩
      rw [append, serializeEntries, all back]
      simp

end Dict

namespace Admin

/-- A message with a hash is the same around the hash, whatever that is. -/
theorem exists_withAuth (cookieStr : BString) (message : Dict) :
    ∃ (front back : Dict) (word : BString), ∀ hashHex : BString,
      withAuth hashHex cookieStr message = front.append (.cons HASH (.string hashHex) back) ∧
      (hashHex.length = 64 → serializeDictionary (withAuth hashHex cookieStr message) =
        word ++ (hashHex ++ serializeEntries back)) := by
  rcases message.exists_append_of_putObject HASH with ⟨before, after, put⟩
  rcases Dict.exists_append_of_putObject_of_ne (show COOKIE ≠ HASH by decide)
    (.string cookieStr) before after with ⟨front, back, all⟩
  rcases front.exists_serializeEntries_append with ⟨word, serialized⟩
  have shape : ∀ hashHex : BString,
      withAuth hashHex cookieStr message = front.append (.cons HASH (.string hashHex) back) := by
    intro hashHex
    rw [withAuth, put, all]
  refine ⟨front, back, D :: (word ++ (serializeString HASH ++ (ofInt 64 ++ [COLON]))),
    fun hashHex => ⟨shape hashHex, fun size => ?_⟩⟩
  have number : (BitVec.ofNat 64 hashHex.length).toInt = 64 := by
    rw [size]
    rfl
  rw [shape, serializeDictionary, serialized, serializeEntries, serializeGeneric, serializeString,
    serializeString, number]
  simp

theorem put_append {text old : BString} (front tail : BString) (same : old.length = text.length) :
    put text front.length (front ++ (old ++ tail)) = front ++ (text ++ tail) := by
  rw [put, List.take_left, ← List.drop_drop, List.drop_left, ← same, List.drop_left,
    List.append_assoc]

variable {request : Request} {message signed : Dict} {sha : Sha256} {secret : BString}
  {cookie : BitVec 32}

/-- What is sent is a message with a signature and the cookie. -/
theorem exists_signed
    (calculated : calculateAuth sha message secret (ofNat cookie.toNat) = some signed) :
    signed = withAuth (Hex.encode (sha.digest (serializeDictionary (withAuth
      (Hex.encode (sha.digest (passAndCookie secret cookie))) (ofNat cookie.toNat) message))))
        (ofNat cookie.toNat) message := by
  have bound := cookie.isLt
  have number : BitVec.ofInt 32 (strtol (ofNat cookie.toNat)).number = cookie := by
    rw [strtol_ofNat (by omega), BitVec.ofInt_natCast, BitVec.ofNat_toNat, BitVec.setWidth_eq]
  simp only [calculateAuth, number] at calculated
  split_ifs at calculated with large
  exact (Option.some.inj calculated).symm

/-- A string of a request that was serialized is found, with what comes behind it. -/
theorem getString_of_sent {key content : BString} {front back : Dict}
    (distinct : (front.append (.cons key (.string content) back)).keys.Nodup)
    (sent : request.bytes =
      serializeDictionary (front.append (.cons key (.string content) back))) :
    ∃ string, request.entries.getString key = some string ∧ string.content = content ∧
      string.source = content ++ (serializeEntries back ++ [request.behind]) := by
  have small := request.small
  have apart : key ∉ back.keys := by
    rw [Dict.keys_append, Dict.keys] at distinct
    exact (List.nodup_cons.mp (List.Nodup.of_append_right distinct)).1
  have parsed := request.parsed
  rw [newReader, sent] at parsed
  apply InMemory.getString_of_serializeDictionary apart _ parsed
  rw [← sent, List.length_append, List.length_singleton]
  unfold MAX_REQUEST_SIZE at small
  omega

/-- The cookie of a client is the one that it was given. -/
theorem cookie_of_client
    (calculated : calculateAuth sha message secret (ofNat cookie.toNat) = some signed)
    (distinct : signed.keys.Nodup) (sent : request.bytes = serializeDictionary signed) :
    request.cookie = some (cookie.toNat : ℤ) := by
  have bound := cookie.isLt
  have is := exists_signed calculated
  generalize Hex.encode (sha.digest _) = text at is
  rcases (message.putObject HASH (.string text)).exists_append_of_putObject COOKIE with
    ⟨front, back, put⟩
  rw [is, withAuth, put] at distinct sent
  rcases getString_of_sent distinct sent with ⟨string, found, content, -⟩
  rw [CDict.getString_eq_some_iff] at found
  simp only [Request.cookie, found, content, strtol_ofNat (show cookie.toNat < 2 ^ 63 by omega)]

/-- The hash of a client is what there is to be in its place. -/
theorem hash_of_client
    (calculated : calculateAuth sha message secret (ofNat cookie.toNat) = some signed)
    (distinct : signed.keys.Nodup) (sent : request.bytes = serializeDictionary signed) :
    ∃ hash, request.hash = some hash ∧ hash.content =
      signature sha (passAndCookie secret cookie) request.bytes (request.place hash) := by
  have is := exists_signed calculated
  generalize text_eq : Hex.encode (sha.digest (serializeDictionary (withAuth
    (Hex.encode (sha.digest (passAndCookie secret cookie))) (ofNat cookie.toNat) message))) = text
    at is
  have size : text.length = 64 := by rw [← text_eq, length_hexEncode]
  rcases exists_withAuth (ofNat cookie.toNat) message with ⟨front, back, word, shape⟩
  have bytes := sent
  rw [is, (shape text).2 size] at bytes
  rw [is, (shape text).1] at distinct sent
  rcases getString_of_sent distinct sent with ⟨hash, found, content, source⟩
  have place : request.place hash = word.length := by
    rw [Request.place, newReader, bytes, source]
    simp only [List.length_append, List.length_singleton]
    omega
  refine ⟨hash, found, ?_⟩
  rw [content, place, signature, bytes, put_append _ _ (by rw [size, length_hexEncode]),
    ← (shape _).2 (length_hexEncode _ _), text_eq]

end Admin

end Cjdns
