import Cjdns.Admin.Admin
import Cjdns.Admin.AdminLog
import Cjdns.Benc.StringPositions
import Cjdns.Library.TextSearch
import Cjdns.Util.Hex

/-!
# Authentication of admin requests

A request has a cookie, which is a time, and a hash. A client hashes the password with the cookie,
puts the result into the request in the place of the hash, and hashes that; this then is the hash.
`authValid` does the same, with the place of the hash that `strstr` gives: what it searches in are
bytes, which nothing terminates, and the hash may be somewhere else in them as well.

What is behind the request in memory is not its own; a reading or writing there is a fault.
-/

namespace Cjdns

open Decimal StandardBencSerializer

/-- SHA-256, of which only the size matters -/
structure Sha256 where
  digest : BString → BString
  length_digest : ∀ bytes, (digest bytes).length = 32

namespace Admin

/-- `Admin_MAX_REQUEST_SIZE` -/
abbrev MAX_REQUEST_SIZE : ℕ := 512

/-- The key `cookie` -/
abbrev COOKIE : BString := [0x63, 0x6F, 0x6F, 0x6B, 0x69, 0x65]

/-- The key `hash` -/
abbrev HASH : BString := [0x68, 0x61, 0x73, 0x68]

/-- `strtoll` of what is in a block, which has to hold something to stop at -/
def strtoll (block : BString) : Checked ℤ :=
  if (sign (block.dropWhile isSpace)).2.dropWhile isDigit = [] then .error .outOfBounds
  else .ok (strtol block).number

/-- The cookie that `authValid` reads -/
def readCookie (message : CDict) : Checked (BitVec 32) := do
  let cookie ←
    match message.getString COOKIE with
    | some cookieStr => (strtoll cookieStr.bytes).map (BitVec.ofInt 32)
    | none => .ok 0
  if cookie = 0 then
    match message.getInt COOKIE with
    | some cookieInt => .ok (cookieInt.setWidth 32)
    | none => .ok 0
  else .ok cookie

/-- What is in `passAndCookie`, a buffer of 64 bytes, up to the terminator -/
def passAndCookie (password : BString) (cookie : BitVec 32) : BString :=
  (AdminLog.cString password ++ ofNat cookie.toNat).take 63

/-- The bytes with a text in the place of others -/
def put (text : BString) (place : ℕ) (bytes : BString) : BString :=
  bytes.take place ++ text ++ bytes.drop (place + text.length)

/-- `Hex_encode` of a digest into bytes -/
def hexEncode (digest : BString) (place : ℕ) (bytes : BString) : Checked BString := do
  Checked.require .outOfBounds (place + (Hex.encode digest).length ≤ bytes.length)
  return put (Hex.encode digest) place bytes

/-- `authValid` -/
def authValid (sha : Sha256) (password : Option BString) (nowSecs : BitVec 64) (message : CDict)
    (messageBytes : BString) : Checked Bool := do
  let cookie ← readCookie message
  match message.getString HASH with
  | none => return false
  | some submittedHash =>
      if cookie.setWidth 64 > nowSecs ∨ cookie.setWidth 64 < nowSecs - 20 ∨
          submittedHash.len ≠ 64 then return false
      else
        let found ← TextSearch.search 0 submittedHash.bytes messageBytes
        match found, password with
        | some hashPtr, some password =>
            let hash := sha.digest (passAndCookie password cookie)
            let messageBytes ← hexEncode hash hashPtr messageBytes
            let hash := sha.digest messageBytes
            let messageBytes ← hexEncode hash hashPtr messageBytes
            let computed ← Checked.readAt messageBytes hashPtr 64
            let submitted ← Checked.readAt submittedHash.bytes 0 64
            return computed = submitted
        | _, _ => return false

/-! ## The client -/

/-- `AdminClient_MAX_MESSAGE_SIZE` -/
abbrev AdminClient_MAX_MESSAGE_SIZE : ℕ := 1023

/-- The message with a hash and a cookie -/
def withAuth (hashHex cookieStr : BString) (message : Dict) : Dict :=
  (message.putObject HASH (.string hashHex)).putObject COOKIE (.string cookieStr)

/-- `calculateAuth`, which fails if the message does not fit the buffer -/
def calculateAuth (sha : Sha256) (message : Dict) (password cookieStr : BString) : Option Dict :=
  let cookie := BitVec.ofInt 32 (strtol cookieStr).number
  let hashHex := Hex.encode (sha.digest (passAndCookie password cookie))
  let buffer := serializeDictionary (withAuth hashHex cookieStr message)
  if buffer.length > AdminClient_MAX_MESSAGE_SIZE then none
  else some (withAuth (Hex.encode (sha.digest buffer)) cookieStr message)

/-! ## Requests -/

/-- What `handleMessage` hands to `handleRequest` -/
structure Request where
  bytes : BString
  /-- The byte behind the request -/
  behind : BitVec 8
  malloc : Malloc
  erange : Bool
  entries : CDict
  rest : Reader
  small : bytes.length ≤ MAX_REQUEST_SIZE
  parsed : InMemory.parseDictionary malloc erange (newReader bytes behind) = .ok (entries, rest)
  whole : bytes.length ≤ bytesRead (newReader bytes behind) rest

namespace Request

/-- The hash that was submitted -/
def hash (request : Request) : Option CString :=
  request.entries.getString HASH

/-- The number that was submitted as the cookie -/
def cookie (request : Request) : Option ℤ :=
  match request.entries.lookup COOKIE with
  | some (.string string) => some (strtol string.content).number
  | some (.integer number) => some number.toInt
  | _ => none

/-- Where in the request a string is -/
def place (request : Request) (string : CString) : ℕ :=
  (newReader request.bytes request.behind).length - string.source.length

end Request

/-- The cookie is not in the future and not older than 20 seconds. -/
def IsFresh (nowSecs : BitVec 64) (cookie : ℤ) : Prop :=
  (nowSecs.toNat : ℤ) - 20 ≤ cookie ∧ cookie ≤ nowSecs.toNat

/-- The hash of bytes with the hash of a password and a cookie in some place -/
def signature (sha : Sha256) (secret bytes : BString) (place : ℕ) : BString :=
  Hex.encode (sha.digest (put (Hex.encode (sha.digest secret)) place bytes))

/-- The request has a fresh cookie, and a hash that shows that its sender has the password. -/
def Genuine (sha : Sha256) (password : Option BString) (nowSecs : BitVec 64) (request : Request) :
    Prop :=
  ∃ secret ∈ password, ∃ cookie ∈ request.cookie, IsFresh nowSecs cookie ∧
    ∃ hash ∈ request.hash, hash.len = 64 ∧
      hash.content =
        signature sha (secret ++ ofInt cookie) request.bytes (request.place hash)

/-- Whatever SHA-256 is, `authValid` stays within the request, accepts it if it is genuine and not
otherwise, and accepts it if it is what a client sends. -/
structure IsExact (password : Option BString) (nowSecs : BitVec 64) (request : Request) : Prop where
  decides : ∀ sha, ∃ accepted,
    authValid sha password nowSecs request.entries request.bytes = .ok accepted ∧
      (accepted = true ↔ Genuine sha password nowSecs request)
  accepts : ∀ sha message secret signed, ∀ cookie : BitVec 32, secret ∈ password →
    calculateAuth sha message secret (ofNat cookie.toNat) = some signed → signed.keys.Nodup →
    request.bytes = serializeDictionary signed → IsFresh nowSecs cookie.toNat →
    authValid sha password nowSecs request.entries request.bytes = .ok true

/-! ## Where the request tells -/

/-- `strtoll` goes on behind the character. -/
def goesOn (character : BitVec 8) : Bool :=
  isSpace character || isDigit character || character = 0x2D || character = 0x2B

/-- A cookie without any characters is not read any further. -/
def CookieEnds (request : Request) : Prop :=
  ∀ string, request.entries.getString COOKIE = some string → string.content = [] →
    goesOn (string.source.headD 0) = false

/-- A digest in small letters -/
def IsHex (text : BString) : Prop :=
  ∃ digest : BString, digest.length = 32 ∧ text = Hex.encode digest

/-- What `authValid` relies on: for a fresh cookie, that the clock does not wrap, the cookie has 32
bits, the password and the cookie fit their buffer, and the hash is the first text of its kind in
the request; and for any other, that its low bits are not those of a fresh one, unless the hash
comes behind a zero. -/
structure IsPlain (password : Option BString) (nowSecs : BitVec 64) (request : Request) :
    Prop where
  cookie_ends : CookieEnds request
  of_fresh : ∀ secret ∈ password, ∀ hash ∈ request.hash, IsHex hash.content →
    ∀ cookie ∈ request.cookie, IsFresh nowSecs cookie →
      20 ≤ nowSecs.toNat ∧ cookie < 2 ^ 32 ∧ 0 ∉ secret ∧
        (secret ++ ofInt cookie).length < 64 ∧
        TextSearch.IsFirst 0 request.bytes hash.content (request.place hash)
  of_outdated : ∀ secret ∈ password, ∀ hash ∈ request.hash, IsHex hash.content →
    (∀ cookie ∈ request.cookie, ¬IsFresh nowSecs cookie) → 20 ≤ nowSecs.toNat →
    IsFresh nowSecs (BitVec.ofInt 32 (request.cookie.getD 0)).toNat →
    ∀ place, ¬TextSearch.IsFirst 0 request.bytes hash.content place

end Admin

end Cjdns
