import Cjdns.Admin.AuthClient

/-!
# When a request is authenticated exactly

`authValid` accepts what is genuine, and nothing else, for the requests that `IsPlain` describes.
For any other request, either the cookie is read beyond its block, or there is a function in the
place of SHA-256 that tells what `authValid` hashes from what it should hash.
-/

namespace Cjdns

open Decimal StandardBencSerializer

/-! ## Functions in the place of SHA-256 -/

namespace Sha256

/-- The same digest for everything -/
def constant (digest : BString) (size : digest.length = 32) : Sha256 where
  digest _ := digest
  length_digest _ := size

/-- Another digest for one text -/
def update (sha : Sha256) (text digest : BString) (size : digest.length = 32) : Sha256 where
  digest bytes := if bytes = text then digest else sha.digest bytes
  length_digest bytes := by
    split_ifs
    · exact size
    · exact sha.length_digest bytes

variable {sha : Sha256} {text other digest : BString} {size : digest.length = 32}

@[simp]
theorem digest_update_self : (sha.update text digest size).digest text = digest :=
  if_pos rfl

theorem digest_update_of_ne (apart : other ≠ text) :
    (sha.update text digest size).digest other = sha.digest other :=
  if_neg apart

end Sha256

namespace Admin

section Digests

variable {bytes : BString} {place : ℕ}

/-- A digest that begins with a byte -/
def digestOf (byte : BitVec 8) : BString :=
  byte :: List.replicate 31 0

theorem length_digestOf (byte : BitVec 8) : (digestOf byte).length = 32 := by
  rw [digestOf, List.length_cons, List.length_replicate]

theorem length_encode_digest {digest : BString} (size : digest.length = 32) :
    (Hex.encode digest).length = 64 := by
  rw [Hex.length_encode, size]

/-- There are more digests than there are texts to avoid. -/
theorem exists_put_notMem (inside : place + 64 ≤ bytes.length) {avoid : List BString}
    (few : avoid.length < 256) :
    ∃ digest : BString, digest.length = 32 ∧ put (Hex.encode digest) place bytes ∉ avoid := by
  let text (number : ℕ) := put (Hex.encode (digestOf (BitVec.ofNat 8 number))) place bytes
  have apart : Set.InjOn text (Finset.range 256) := by
    intro first firstIn second secondIn same
    rw [Finset.mem_coe, Finset.mem_range] at firstIn secondIn
    have size (number : ℕ) := length_encode_digest (length_digestOf (BitVec.ofNat 8 number))
    have digests := Hex.encode_injective
      (put_injective ((size _).trans (size _).symm) (by rw [size]; exact inside) same)
    have numbers := congrArg BitVec.toNat (List.cons.inj digests).1
    rw [BitVec.toNat_ofNat, BitVec.toNat_ofNat] at numbers
    omega
  have more : avoid.toFinset.card < ((Finset.range 256).image text).card := by
    rw [Finset.card_image_of_injOn apart, Finset.card_range]
    exact lt_of_le_of_lt avoid.toFinset_card_le few
  rcases Finset.exists_mem_notMem_of_card_lt_card more with ⟨found, member, free⟩
  rcases Finset.mem_image.mp member with ⟨number, -, rfl⟩
  exact ⟨_, length_digestOf _, fun inside => free (List.mem_toFinset.mpr inside)⟩

/-- Every hash is a signature for some function. -/
theorem exists_signature (secret : BString) (inside : place + 64 ≤ bytes.length) {text : BString}
    (isHex : IsHex text) : ∃ sha, text = signature sha secret bytes place := by
  rcases isHex with ⟨digest, size, rfl⟩
  rcases @exists_put_notMem _ _ inside [secret] (by simp) with ⟨inner, innerSize, apart⟩
  rw [List.mem_singleton] at apart
  refine ⟨(Sha256.constant digest size).update secret inner innerSize, ?_⟩
  rw [signature, Sha256.digest_update_self, Sha256.digest_update_of_ne apart]
  rfl

theorem exists_other_digest (digest : BString) :
    ∃ other : BString, other.length = 32 ∧ other ≠ digest := by
  by_cases zero : digestOf 0 = digest
  · refine ⟨digestOf 1, length_digestOf 1, fun one => ?_⟩
    rw [← zero] at one
    exact absurd (List.cons.inj one).1 (by decide)
  · exact ⟨digestOf 0, length_digestOf 0, zero⟩

theorem put_ne_of_short {secret : BString} (short : secret.length < 64) {digest : BString}
    (size : digest.length = 32) (inside : place + 64 ≤ bytes.length) :
    put (Hex.encode digest) place bytes ≠ secret := by
  rintro rfl
  have encoded := length_encode_digest size
  rw [length_put (by omega)] at short
  omega

/-- Two secrets can have different signatures, wherever these stand. -/
theorem exists_apart_of_secret {first second text : BString} {later : ℕ} (isHex : IsHex text)
    (short : first.length < 64) (apart : first ≠ second) (inside : place + 64 ≤ bytes.length)
    (laterInside : later + 64 ≤ bytes.length) :
    ∃ sha, text = signature sha first bytes place ∧ text ≠ signature sha second bytes later := by
  rcases isHex with ⟨digest, size, rfl⟩
  rcases exists_other_digest digest with ⟨wrong, wrongSize, differ⟩
  rcases @exists_put_notMem _ _ inside [second] (by simp) with ⟨one, oneSize, oneFree⟩
  rcases @exists_put_notMem _ _ laterInside [second, put (Hex.encode one) place bytes] (by simp)
    with ⟨two, twoSize, twoFree⟩
  simp only [List.mem_cons, List.not_mem_nil, or_false, not_or] at oneFree twoFree
  refine ⟨(((Sha256.constant wrong wrongSize).update (put (Hex.encode one) place bytes) digest
    size).update second two twoSize).update first one oneSize, ?_, ?_⟩
  · rw [signature, Sha256.digest_update_self,
      Sha256.digest_update_of_ne (put_ne_of_short short oneSize inside),
      Sha256.digest_update_of_ne oneFree, Sha256.digest_update_self]
  · rw [signature, Sha256.digest_update_of_ne apart.symm, Sha256.digest_update_self,
      Sha256.digest_update_of_ne (put_ne_of_short short twoSize laterInside),
      Sha256.digest_update_of_ne twoFree.1, Sha256.digest_update_of_ne twoFree.2]
    exact fun same => differ (Hex.encode_injective same).symm

theorem getElem?_put_of_lt {text : BString} {index : ℕ} (before : index < place)
    (inside : place ≤ bytes.length) : (put text place bytes)[index]? = bytes[index]? := by
  rw [put, List.append_assoc, List.getElem?_append_left, List.getElem?_take_of_lt before]
  rw [List.length_take]
  omega

/-- A digest can begin with another character. -/
theorem exists_digest_begins (character : BitVec 8) :
    ∃ byte : BitVec 8, Hex.hexEntity (byte.extractLsb' 4 4) ≠ character := by
  by_cases zero : character = 0x30
  · exact ⟨0x10, by rw [zero]; decide⟩
  · exact ⟨0, Ne.symm zero⟩

/-- A secret can have different signatures for two places of the text. -/
theorem exists_apart_of_place {secret text : BString} {later : ℕ} (isHex : IsHex text)
    (short : secret.length < 64) (before : place < later) (here : text <+: bytes.drop place)
    (laterInside : later + 64 ≤ bytes.length) :
    ∃ sha, text = signature sha secret bytes place ∧ text ≠ signature sha secret bytes later := by
  rcases isHex with ⟨digest, size, rfl⟩
  rcases exists_other_digest digest with ⟨wrong, wrongSize, differ⟩
  rcases digest with _ | ⟨front, digest⟩
  · cases size
  rcases exists_digest_begins (Hex.hexEntity (front.extractLsb' 4 4)) with ⟨byte, begins⟩
  have innerSize := length_digestOf byte
  have apart : put (Hex.encode (digestOf byte)) later bytes ≠
      put (Hex.encode (digestOf byte)) place bytes := by
    intro same
    have encoded := length_encode_digest innerSize
    have character := congrArg (fun text => text[place]?) same
    rcases here with ⟨rest, whole⟩
    have old : bytes[place]? = some (Hex.hexEntity (front.extractLsb' 4 4)) := by
      rw [← Nat.add_zero place, ← List.getElem?_drop, ← whole]
      rfl
    have new : (put (Hex.encode (digestOf byte)) place bytes)[place]? =
        some (Hex.hexEntity (byte.extractLsb' 4 4)) := by
      rw [← Nat.add_zero place, ← List.getElem?_drop, Nat.add_zero, drop_put (by omega)]
      rfl
    have fits : later ≤ bytes.length := by omega
    simp only [getElem?_put_of_lt before fits, old, new, Option.some.injEq] at character
    exact begins character.symm
  refine ⟨((Sha256.constant wrong wrongSize).update
    (put (Hex.encode (digestOf byte)) place bytes) _ size).update secret _ innerSize, ?_, ?_⟩
  · rw [signature, Sha256.digest_update_self,
      Sha256.digest_update_of_ne (put_ne_of_short short innerSize (by omega)),
      Sha256.digest_update_self]
  · rw [signature, Sha256.digest_update_self,
      Sha256.digest_update_of_ne (put_ne_of_short short innerSize laterInside),
      Sha256.digest_update_of_ne apart]
    exact fun same => differ (Hex.encode_injective same).symm

end Digests

/-! ## Exact requests -/

section Exact

variable {password : Option BString} {nowSecs : BitVec 64} {request : Request}

theorem cString_of_isHex {text : BString} (isHex : IsHex text) : AdminLog.cString text = text :=
  cString_eq_self_iff.mpr isHex.zero_notMem

/-- What a plain request accepts is genuine. -/
theorem IsPlain.genuine_of_accepts (plain : IsPlain password nowSecs request) {sha : Sha256}
    (accepts : Accepts sha password nowSecs request) : Genuine sha password nowSecs request := by
  rcases accepts with ⟨secret, isSecret, hash, found, length, current, place, isFirst, same⟩
  have isHex : IsHex hash.content := same ▸ isHex_signature _ _ _ _
  rw [cString_of_isHex isHex] at isFirst
  by_cases fresh : ∃ cookie ∈ request.cookie, IsFresh nowSecs cookie
  · rcases fresh with ⟨cookie, isCookie, fresh⟩
    rcases plain.of_fresh secret isSecret hash found isHex cookie isCookie fresh with
      ⟨late, small, whole, short, here⟩
    refine ⟨secret, isSecret, cookie, isCookie, fresh, hash, found, length, ?_⟩
    have low : request.cookie.getD 0 = cookie := by rw [isCookie, Option.getD_some]
    rw [low] at same current
    have number := toNat_of_fresh fresh current
    rw [← number, ofInt_natCast] at short ⊢
    rw [passAndCookie_eq_iff.mpr ⟨whole, short⟩, isFirst_unique isFirst here] at same
    exact same
  · have outdated : ∀ cookie ∈ request.cookie, ¬IsFresh nowSecs cookie :=
      fun cookie isCookie isFresh => fresh ⟨cookie, isCookie, isFresh⟩
    rcases isCurrent_iff.mp current with ⟨late, low⟩
    exact absurd isFirst
      (plain.of_outdated secret isSecret hash found isHex outdated late low place)

/-- What is genuine is accepted, if the request is plain. -/
theorem IsPlain.accepts_of_genuine (plain : IsPlain password nowSecs request) {sha : Sha256}
    (genuine : Genuine sha password nowSecs request) : Accepts sha password nowSecs request := by
  rcases genuine with ⟨secret, isSecret, cookie, isCookie, fresh, hash, found, length, same⟩
  have isHex : IsHex hash.content := same ▸ isHex_signature _ _ _ _
  rcases plain.of_fresh secret isSecret hash found isHex cookie isCookie fresh with
    ⟨late, small, whole, short, here⟩
  have low : request.cookie.getD 0 = cookie := by rw [isCookie, Option.getD_some]
  have number : ((BitVec.ofInt 32 cookie).toNat : ℤ) = cookie :=
    toNat_of_small (by have := fresh.1; omega) small
  refine ⟨secret, isSecret, hash, found, length, ?_, request.place hash, ?_, ?_⟩
  · rw [low, isCurrent_iff, number]
    exact ⟨late, fresh⟩
  · rw [cString_of_isHex isHex]
    exact here
  · rw [← number, ofInt_natCast] at short same
    rw [low, passAndCookie_eq_iff.mpr ⟨whole, short⟩]
    exact same

/-- A plain request of a client is accepted. -/
theorem IsPlain.accepts_of_client (plain : IsPlain password nowSecs request) {sha : Sha256}
    {message signed : Dict} {secret : BString} {cookie : BitVec 32} (isSecret : secret ∈ password)
    (calculated : calculateAuth sha message secret (ofNat cookie.toNat) = some signed)
    (distinct : signed.keys.Nodup) (sent : request.bytes = serializeDictionary signed)
    (fresh : IsFresh nowSecs cookie.toNat) : Accepts sha password nowSecs request := by
  have isCookie := cookie_of_client calculated distinct sent
  rcases hash_of_client calculated distinct sent with ⟨hash, found, same⟩
  have isHex : IsHex hash.content := same ▸ isHex_signature _ _ _ _
  rcases plain.of_fresh secret isSecret hash found isHex _ isCookie fresh with
    ⟨late, -, -, -, here⟩
  have low : BitVec.ofInt 32 (request.cookie.getD 0) = cookie := by
    rw [isCookie, Option.getD_some, BitVec.ofInt_natCast, BitVec.ofNat_toNat, BitVec.setWidth_eq]
  refine ⟨secret, isSecret, hash, found, ?_, ?_, request.place hash, ?_, ?_⟩
  · rw [← (Request.isRead_of_getString found).length_content, same, length_signature]
  · rw [low, isCurrent_iff]
    exact ⟨late, fresh⟩
  · rw [cString_of_isHex isHex]
    exact here
  · rw [low]
    exact same

theorem cookieEnds_of_isExact (isExact : IsExact password nowSecs request) :
    CookieEnds request := by
  rcases isExact.decides (.constant _ (length_digestOf 0)) with ⟨accepted, decided, -⟩
  rw [authValid, Checked.bind_eq_ok] at decided
  rcases decided with ⟨cookie, read, -⟩
  exact Request.cookieEnds_of_readCookie read

/-- An exact request is accepted exactly if it is genuine. -/
theorem accepts_iff_of_isExact (isExact : IsExact password nowSecs request) (sha : Sha256) :
    Accepts sha password nowSecs request ↔ Genuine sha password nowSecs request := by
  rcases isExact.decides sha with ⟨accepted, decided, genuine_iff⟩
  rcases exists_authValid sha password nowSecs (cookieEnds_of_isExact isExact) with
    ⟨result, returned, accepts_iff⟩
  rw [decided, Except.ok.injEq] at returned
  rw [← accepts_iff, ← returned, genuine_iff]

/-- The one signature that is genuine -/
theorem Genuine.eq_signature {sha : Sha256} (genuine : Genuine sha password nowSecs request)
    {secret : BString} {hash : CString} {cookie : ℤ} (isSecret : secret ∈ password)
    (found : hash ∈ request.hash) (isCookie : cookie ∈ request.cookie) :
    hash.content = signature sha (secret ++ ofInt cookie) request.bytes (request.place hash) := by
  rcases genuine with ⟨secret', isSecret', cookie', isCookie', -, hash', found', -, same⟩
  rw [Option.mem_unique isSecret isSecret', Option.mem_unique found found',
    Option.mem_unique isCookie isCookie']
  exact same

theorem length_of_isHex {text : BString} (isHex : IsHex text) : text.length = 64 := by
  rcases isHex with ⟨digest, size, rfl⟩
  exact length_encode_digest size

/-- An exact request with a fresh cookie has its hash where it is found first. -/
theorem of_fresh_of_isExact (isExact : IsExact password nowSecs request) {secret : BString}
    (isSecret : secret ∈ password) {hash : CString} (found : hash ∈ request.hash)
    (isHex : IsHex hash.content) {cookie : ℤ} (isCookie : cookie ∈ request.cookie)
    (fresh : IsFresh nowSecs cookie) :
    20 ≤ nowSecs.toNat ∧ cookie < 2 ^ 32 ∧ 0 ∉ secret ∧ (secret ++ ofInt cookie).length < 64 ∧
      TextSearch.IsFirst 0 request.bytes hash.content (request.place hash) := by
  have verdict := accepts_iff_of_isExact isExact
  have size := length_of_isHex isHex
  have length : hash.len = 64 := by
    rw [← (Request.isRead_of_getString found).length_content, size]
  have inside := Request.place_add_length_le found
  rw [size] at inside
  rcases exists_signature (secret ++ ofInt cookie) inside isHex with ⟨genuineSha, same⟩
  rcases (verdict genuineSha).mpr ⟨secret, isSecret, cookie, isCookie, fresh, hash, found, length,
    same⟩ with ⟨-, -, other, otherFound, -, current, place, isFirst, -⟩
  rw [← Option.mem_unique found otherFound, cString_of_isHex isHex] at isFirst
  have low : request.cookie.getD 0 = cookie := by rw [isCookie, Option.getD_some]
  rw [low] at current
  have number := toNat_of_fresh fresh current
  have small := (BitVec.ofInt 32 cookie).isLt
  have within := isFirst.le (Request.hash_inside found)
  -- A function with different signatures refutes the verdict.
  have together : ∀ sha, hash.content = signature sha
      (passAndCookie secret (BitVec.ofInt 32 cookie)) request.bytes place →
      hash.content = signature sha (secret ++ ofInt cookie) request.bytes (request.place hash) := by
    intro sha accepted
    have accepts : Accepts sha password nowSecs request := by
      refine ⟨secret, isSecret, hash, found, length, ?_, place, ?_, ?_⟩
      · rw [low]
        exact current
      · rw [cString_of_isHex isHex]
        exact isFirst
      · rw [low]
        exact accepted
    exact ((verdict sha).mp accepts).eq_signature isSecret found isCookie
  have text : passAndCookie secret (BitVec.ofInt 32 cookie) = secret ++ ofInt cookie := by
    by_contra apart
    rcases exists_apart_of_secret isHex (length_passAndCookie secret _) apart
      (show place + 64 ≤ _ by omega) inside with ⟨sha, accepted, differ⟩
    exact differ (together sha accepted)
  have here : place = request.place hash := by
    by_contra apart
    rcases exists_apart_of_place isHex (length_passAndCookie secret (BitVec.ofInt 32 cookie))
      (show place < request.place hash by omega) isFirst.here inside with ⟨sha, accepted, differ⟩
    apply differ
    rw [text]
    exact together sha accepted
  have digits : ofInt cookie = ofNat (BitVec.ofInt 32 cookie).toNat := by
    rw [← ofInt_natCast, number]
  rw [digits] at text ⊢
  rcases passAndCookie_eq_iff.mp text with ⟨whole, short⟩
  exact ⟨(isCurrent_iff.mp current).1, by omega, whole, short, here ▸ isFirst⟩

/-- An exact request with an old cookie is not taken for one with a fresh cookie. -/
theorem of_outdated_of_isExact (isExact : IsExact password nowSecs request) {secret : BString}
    (isSecret : secret ∈ password) {hash : CString} (found : hash ∈ request.hash)
    (isHex : IsHex hash.content) (outdated : ∀ cookie ∈ request.cookie, ¬IsFresh nowSecs cookie)
    (late : 20 ≤ nowSecs.toNat)
    (low : IsFresh nowSecs (BitVec.ofInt 32 (request.cookie.getD 0)).toNat) (place : ℕ) :
    ¬TextSearch.IsFirst 0 request.bytes hash.content place := by
  intro isFirst
  have size := length_of_isHex isHex
  have within := isFirst.le (Request.hash_inside found)
  have inside := Request.place_add_length_le found
  rcases exists_signature (passAndCookie secret (BitVec.ofInt 32 (request.cookie.getD 0)))
    (show place + 64 ≤ request.bytes.length by omega) isHex with ⟨sha, same⟩
  have accepts : Accepts sha password nowSecs request := by
    refine ⟨secret, isSecret, hash, found, ?_, isCurrent_iff.mpr ⟨late, low⟩, place, ?_, same⟩
    · rw [← (Request.isRead_of_getString found).length_content, size]
    · rw [cString_of_isHex isHex]
      exact isFirst
  rcases (accepts_iff_of_isExact isExact sha).mp accepts with ⟨-, -, cookie, isCookie, fresh, -⟩
  exact outdated cookie isCookie fresh

end Exact

/-- A request is treated exactly if it is plain, and only then. -/
theorem authentication_iff (password : Option BString) (nowSecs : BitVec 64) (request : Request) :
    IsExact password nowSecs request ↔ IsPlain password nowSecs request := by
  constructor
  · intro isExact
    refine ⟨cookieEnds_of_isExact isExact, ?_, ?_⟩
    · intro secret isSecret hash found isHex cookie isCookie fresh
      exact of_fresh_of_isExact isExact isSecret found isHex isCookie fresh
    · intro secret isSecret hash found isHex outdated late low
      exact of_outdated_of_isExact isExact isSecret found isHex outdated late low
  · intro plain
    refine ⟨fun sha => ?_, ?_⟩
    · rcases exists_authValid sha password nowSecs plain.cookie_ends with
        ⟨accepted, returned, accepts_iff⟩
      refine ⟨accepted, returned, accepts_iff.trans ⟨?_, ?_⟩⟩
      · exact plain.genuine_of_accepts
      · exact plain.accepts_of_genuine
    · intro sha message secret signed cookie isSecret calculated distinct sent fresh
      rcases exists_authValid sha password nowSecs plain.cookie_ends with
        ⟨accepted, returned, accepts_iff⟩
      rw [returned,
        accepts_iff.mpr (plain.accepts_of_client isSecret calculated distinct sent fresh)]

/-- A hash of zeros -/
abbrev zeroHash : BString :=
  List.replicate 64 0x30

/-- A request of a client that writes its keys in order, with a zero in the arguments:
`d2:aq4:ping4:argsd1:a1:.e6:cookie10:14000000004:hash64:...1:q4:authe` -/
def zeroInArguments : Dict :=
  .cons [0x61, 0x71] (.string [0x70, 0x69, 0x6E, 0x67]) <|
  .cons [0x61, 0x72, 0x67, 0x73] (.dict (.cons [0x61] (.string [0]) .nil)) <|
  .cons COOKIE (.string [0x31, 0x34, 0x30, 0x30, 0x30, 0x30, 0x30, 0x30, 0x30, 0x30]) <|
  .cons HASH (.string zeroHash) <|
  .cons [0x71] (.string [0x61, 0x75, 0x74, 0x68]) .nil

/-- What the parser makes of bytes with a zero behind them -/
def entriesOf (bytes : BString) : CDict :=
  match InMemory.parseDictionary InMemory.zeros false (newReader bytes 0) with
  | .ok (entries, _) => entries
  | .error _ => .nil

theorem parseDictionary_entriesOf {bytes : BString} {rest : Reader}
    (read : (InMemory.parseDictionary InMemory.zeros false (newReader bytes 0)).map Prod.snd =
      .ok rest) :
    InMemory.parseDictionary InMemory.zeros false (newReader bytes 0) =
      .ok (entriesOf bytes, rest) := by
  unfold entriesOf
  cases parsed : InMemory.parseDictionary InMemory.zeros false (newReader bytes 0) with
  | error failure =>
      rw [parsed] at read
      cases read
  | ok pair =>
      rw [parsed] at read
      cases read
      rfl

def zeroInArgumentsRequest : Request where
  bytes := serializeDictionary zeroInArguments
  behind := 0
  malloc := InMemory.zeros
  erange := false
  entries := entriesOf (serializeDictionary zeroInArguments)
  rest := [0]
  small := by decide +kernel
  parsed := parseDictionary_entriesOf (by decide +kernel)
  whole := by decide +kernel

/-- A client that knows the password is turned away for a zero in its arguments. -/
theorem genuine_request_refused :
    ¬IsExact (some [0x70]) 1400000000 zeroInArgumentsRequest := by
  intro isExact
  let sha := Sha256.constant (digestOf 0) (length_digestOf 0)
  have refused : authValid sha (some [0x70]) 1400000000 zeroInArgumentsRequest.entries
      zeroInArgumentsRequest.bytes = .ok false := by
    decide +kernel
  have isCookie : zeroInArgumentsRequest.cookie = some 1400000000 := by
    decide +kernel
  rcases @getString_of_sent zeroInArgumentsRequest HASH zeroHash
    (.cons [0x61, 0x71] (.string [0x70, 0x69, 0x6E, 0x67]) <|
      .cons [0x61, 0x72, 0x67, 0x73] (.dict (.cons [0x61] (.string [0]) .nil)) <|
      .cons COOKIE (.string [0x31, 0x34, 0x30, 0x30, 0x30, 0x30, 0x30, 0x30, 0x30, 0x30]) .nil)
    (.cons [0x71] (.string [0x61, 0x75, 0x74, 0x68]) .nil) (by decide) rfl with
    ⟨hash, found, content, -⟩
  have genuine : Genuine sha (some [0x70]) 1400000000 zeroInArgumentsRequest := by
    refine ⟨_, rfl, 1400000000, isCookie, ⟨by decide, by decide⟩, hash, found, ?_, ?_⟩
    · rw [← (Request.isRead_of_getString found).length_content, content]
      rfl
    · rw [content]
      rfl
  rcases isExact.decides sha with ⟨accepted, returned, genuine_iff⟩
  rw [refused, Except.ok.injEq] at returned
  rw [← returned] at genuine_iff
  exact absurd (genuine_iff.mpr genuine) (by decide)

end Admin

end Cjdns
