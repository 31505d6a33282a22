import Cjdns.Library.Transition
import Cjdns.Library.XorSum

/-!
# The random generator

`crypto/random/Random.c`: bytes are drawn from a buffer that salsa20 stirs, with a hash of the seed
and of the collected entropy as the key and a counter as the nonce. The hash and the keystream of
salsa20, by key, nonce and position, are parameters. What is handed on with the results of the
functions is which calls of salsa20 they make.
-/

namespace Cjdns

/-- How many bytes to buffer -/
abbrev Random.BUFFSIZE : ℕ := 128

/-- `union Random_SeedGen`; the seed is only read as bytes. -/
structure Random.SeedGen where
  seed : List (BitVec 8)
  collectedEntropy : Fin 8 → BitVec 32

/-- `struct Random` -/
structure Random where
  tempSeed : List (BitVec 8)
  nonce : BitVec 64
  buff : List (BitVec 8)
  nextByte : ℕ
  addRandomCounter : ℕ
  seedGen : Random.SeedGen

namespace Random

/-- The bytes of a word on the host -/
def wordBytes (word : BitVec 32) : List (BitVec 8) :=
  [word.extractLsb' 0 8, word.extractLsb' 8 8, word.extractLsb' 16 8, word.extractLsb' 24 8]

/-- `buff` of the union -/
def SeedGen.buff (seedGen : SeedGen) : List (BitVec 8) :=
  seedGen.seed ++ (List.ofFn seedGen.collectedEntropy).flatMap wordBytes

/-- A call of `crypto_stream_salsa20_xor`, for so many bytes -/
structure Call where
  key : List (BitVec 8)
  nonce : BitVec 64
  length : ℕ
  deriving DecidableEq

/-- What `Random_bytes` returns and leaves behind -/
structure Drawn where
  bytes : List (BitVec 8)
  random : Random
  calls : List Call

variable (sha256 : List (BitVec 8) → List (BitVec 8))
  (salsa20 : List (BitVec 8) → BitVec 64 → ℕ → BitVec 8)

/-- `crypto_stream_salsa20_xor` -/
def crypto_stream_salsa20_xor (input : List (BitVec 8)) (nonce : BitVec 64)
    (key : List (BitVec 8)) : List (BitVec 8) :=
  input.mapIdx fun position byte => byte ^^^ salsa20 key nonce position

/-- The macro `rotl`; for the rotation by 0, where C leaves the shift by 32 undefined, it is taken as
no rotation. -/
def rotl (a : BitVec 32) (b : ℕ) : BitVec 32 :=
  (a <<< b) ||| (a >>> (32 - b))

/-- `Random_addRandom` -/
def addRandom (random : Random) (randomNumber : BitVec 32) : Random :=
  let collectedEntropy slot :=
    if slot.val = random.addRandomCounter % 8 then
      random.seedGen.collectedEntropy slot ^^^ rotl randomNumber (random.addRandomCounter / 8)
    else random.seedGen.collectedEntropy slot
  let seedGen := { random.seedGen with collectedEntropy := collectedEntropy }
  if random.addRandomCounter + 1 ≥ 256 then
    { random with seedGen := seedGen, tempSeed := sha256 seedGen.buff, addRandomCounter := 0 }
  else { random with seedGen := seedGen, addRandomCounter := random.addRandomCounter + 1 }

/-- `stir` -/
def stir (random : Random) : Random :=
  { random with
    buff := crypto_stream_salsa20_xor salsa20 random.buff random.nonce random.tempSeed
    nonce := random.nonce + 1
    nextByte := 0 }

/-- The call that `stir` makes, or `Random_bytes` for so many bytes -/
def call (random : Random) (length : ℕ) : Call :=
  { key := random.tempSeed, nonce := random.nonce, length := length }

/-- How many bytes `randomCopy` copies -/
def copied (random : Random) (count : ℕ) : ℕ :=
  if count > BUFFSIZE - random.nextByte then BUFFSIZE - random.nextByte else count

/-- `randomCopy` -/
def randomCopy (random : Random) (count : ℕ) : List (BitVec 8) × Random :=
  let num := copied random count
  ((random.buff.drop random.nextByte).take num, { random with nextByte := random.nextByte + num })

/-- The loop of `Random_bytes` -/
def bytesLoop (random : Random) (count : ℕ) : Drawn :=
  let copy := randomCopy random count
  if count - copied random count = 0 then { bytes := copy.1, random := copy.2, calls := [] }
  else
    let rest := bytesLoop (stir salsa20 copy.2) (count - copied random count)
    { bytes := copy.1 ++ rest.bytes, random := rest.random,
      calls := copy.2.call BUFFSIZE :: rest.calls }
termination_by 2 * count + if random.nextByte ≥ BUFFSIZE then 1 else 0
decreasing_by
  have again : (stir salsa20 (randomCopy random count).2).nextByte = 0 := rfl
  rw [again]
  unfold copied BUFFSIZE at *
  split_ifs at * <;> omega

/-- `Random_bytes`, with what is at the location -/
def bytes (random : Random) (location : List (BitVec 8)) : Drawn :=
  if location.length > BUFFSIZE then
    -- A big request is not buffered.
    { bytes := crypto_stream_salsa20_xor salsa20 location random.nonce random.tempSeed
      random := { random with nonce := random.nonce + 1 }
      calls := [random.call location.length] }
  else bytesLoop salsa20 random location.length

/-- The generator as `Random_newWithSeed` allocates it -/
def unseeded (seedGen : SeedGen) : Random :=
  { tempSeed := List.replicate 32 0, nonce := 0, buff := List.replicate BUFFSIZE 0
    nextByte := BUFFSIZE, addRandomCounter := 255, seedGen := seedGen }

/-- `Random_newWithSeed`, with what `RandomSeed_get` supplies; without it, it raises. -/
def newWithSeed (supplied : Option SeedGen) : Option Drawn :=
  supplied.map fun seedGen =>
    let random := addRandom sha256 (unseeded seedGen) 0
    { bytes := [], random := stir salsa20 random, calls := [random.call BUFFSIZE] }

end Random

end Cjdns
