import Cjdns.Crypto.Random

/-!
# What the random generator draws

Over its whole life a generator calls salsa20 with one nonce after the other, whatever entropy is
added, so that what it draws does not come from the same place twice. The bytes of the small
requests are one stream, however they are cut.
-/

namespace Cjdns.Random

open XorSum

/-! ## The entropy -/

/-- What the collected entropy is after these samples -/
def pooled (initial : Fin 8 → BitVec 32) (samples : List (BitVec 32)) (slot : Fin 8) : BitVec 32 :=
  initial slot ^^^ xorSum (fun index =>
    if index % 8 = slot.val then rotl (samples.getD index 0) (index % 256 / 8) else 0#32)
    samples.length

theorem pooled_append (initial : Fin 8 → BitVec 32) (samples : List (BitVec 32))
    (sample : BitVec 32) (slot : Fin 8) :
    pooled initial (samples ++ [sample]) slot =
      if slot.val = samples.length % 256 % 8 then
        pooled initial samples slot ^^^ rotl sample (samples.length % 256 / 8)
      else pooled initial samples slot := by
  have last : (samples ++ [sample]).getD samples.length 0 = sample := by
    rw [List.getD_eq_getElem?_getD, List.getElem?_concat_length, Option.getD_some]
  have before (index : ℕ) (below : index < samples.length) :
      (samples ++ [sample]).getD index 0 = samples.getD index 0 := by
    rw [List.getD_eq_getElem?_getD, List.getElem?_append_left below, List.getD_eq_getElem?_getD]
  have turn : samples.length % 256 % 8 = samples.length % 8 :=
    Nat.mod_mod_of_dvd _ (by decide)
  rw [pooled, pooled, List.length_append, List.length_singleton, XorSum.succ, last, turn,
    XorSum.congr fun index below => by rw [before index below], ← BitVec.xor_assoc]
  split_ifs with here there there
  · rfl
  · exact absurd here.symm there
  · exact absurd there.symm here
  · exact BitVec.xor_zero

/-- The seed generator after these samples -/
def SeedGen.after (seedGen : SeedGen) (samples : List (BitVec 32)) : SeedGen :=
  { seedGen with collectedEntropy := pooled seedGen.collectedEntropy samples }

variable (sha256 : List (BitVec 8) → List (BitVec 8))
  (salsa20 : List (BitVec 8) → BitVec 64 → ℕ → BitVec 8)

/-- The key after these samples: only whole rounds of 256 of them are taken in. -/
def keyAfter (seedGen : SeedGen) (samples : List (BitVec 32)) : List (BitVec 8) :=
  sha256 (seedGen.after (samples.take (samples.length / 256 * 256))).buff

/-- What adding entropy has made of the generator -/
structure Seeded (seedGen : SeedGen) (samples : List (BitVec 32)) (random : Random) : Prop where
  seedGen_eq : random.seedGen = seedGen.after samples
  counter : random.addRandomCounter = samples.length % 256
  key : random.tempSeed = keyAfter sha256 seedGen samples

variable {sha256 salsa20} {seedGen : SeedGen} {samples : List (BitVec 32)} {random : Random}

theorem after_nil (seedGen : SeedGen) : seedGen.after [] = seedGen := by
  have same : pooled seedGen.collectedEntropy [] = seedGen.collectedEntropy :=
    funext fun _ => BitVec.xor_zero
  rw [SeedGen.after, same]

theorem rotl_zero (amount : ℕ) : rotl 0#32 amount = 0#32 := by
  rw [rotl, BitVec.zero_shiftLeft, BitVec.zero_ushiftRight, BitVec.or_zero]

/-- The call in `Random_newWithSeed` leaves the entropy alone. -/
theorem seeded_unseeded (seedGen : SeedGen) :
    Seeded sha256 seedGen [] (addRandom sha256 (unseeded seedGen) 0) := by
  have same : (fun slot : Fin 8 => if slot.val = 255 % 8 then
      seedGen.collectedEntropy slot ^^^ rotl 0 (255 / 8) else seedGen.collectedEntropy slot) =
      seedGen.collectedEntropy := by
    funext slot
    split_ifs
    · exact (congrArg _ (rotl_zero _)).trans BitVec.xor_zero
    · rfl
  have value : addRandom sha256 (unseeded seedGen) 0 =
      { unseeded seedGen with tempSeed := sha256 seedGen.buff, addRandomCounter := 0 } := by
    unfold addRandom unseeded
    simp only [same]
    rfl
  rw [value]
  exact
    { seedGen_eq := (after_nil seedGen).symm
      counter := rfl
      key := by rw [keyAfter, List.take_nil, after_nil] }

theorem Seeded.addRandom (seeded : Seeded sha256 seedGen samples random) (sample : BitVec 32) :
    Seeded sha256 seedGen (samples ++ [sample]) (addRandom sha256 random sample) := by
  have pool : (fun slot : Fin 8 => if slot.val = random.addRandomCounter % 8 then
      random.seedGen.collectedEntropy slot ^^^ rotl sample (random.addRandomCounter / 8)
      else random.seedGen.collectedEntropy slot) =
      pooled seedGen.collectedEntropy (samples ++ [sample]) := by
    funext slot
    rw [seeded.seedGen_eq, seeded.counter, pooled_append]
    rfl
  have full : ({ random.seedGen with
      collectedEntropy := pooled seedGen.collectedEntropy (samples ++ [sample]) } : SeedGen) =
      seedGen.after (samples ++ [sample]) := by
    rw [seeded.seedGen_eq]
    rfl
  have counter := seeded.counter
  rw [Random.addRandom]
  simp only [pool, full]
  split_ifs with whole
  · have rounds : (samples ++ [sample]).length / 256 * 256 = (samples ++ [sample]).length := by
      rw [List.length_append, List.length_singleton]
      omega
    refine ⟨rfl, ?_, ?_⟩
    · rw [List.length_append, List.length_singleton]
      change 0 = _
      omega
    · rw [keyAfter, rounds, List.take_length]
  · have rounds : (samples ++ [sample]).length / 256 * 256 = samples.length / 256 * 256 := by
      rw [List.length_append, List.length_singleton]
      omega
    refine ⟨rfl, ?_, ?_⟩
    · rw [List.length_append, List.length_singleton]
      change random.addRandomCounter + 1 = _
      omega
    · rw [keyAfter, rounds, List.take_append_of_le_length (Nat.div_mul_le_self _ _)]
      exact seeded.key

/-! ## The stream -/

variable (salsa20) in
/-- What the calls have made of a byte of the buffer -/
def mask (stirs : List Call) (position : ℕ) : BitVec 8 :=
  stirs.foldl (fun byte call => byte ^^^ salsa20 call.key call.nonce position) 0#8

variable (salsa20) in
/-- The byte of the stream at an index: stirring is put off until the buffer is used up. -/
def streamByte (stirs : List Call) (index : ℕ) : BitVec 8 :=
  mask salsa20 (stirs.take (index / BUFFSIZE + 1)) (index % BUFFSIZE)

variable (salsa20) in
/-- The buffer has been stirred so often, and so much has been drawn from it. -/
structure Buffered (stirs : List Call) (drawn : List (BitVec 8)) (random : Random) : Prop where
  buff : random.buff = (List.range BUFFSIZE).map (mask salsa20 stirs)
  nextByte_le : random.nextByte ≤ BUFFSIZE
  count : drawn.length + BUFFSIZE = BUFFSIZE * stirs.length + random.nextByte
  drawn_eq : drawn = (List.range drawn.length).map (streamByte salsa20 stirs)

section

variable {stirs : List Call} {drawn : List (BitVec 8)}

theorem buffered_unseeded (seedGen : SeedGen) :
    Buffered salsa20 [] [] (addRandom sha256 (unseeded seedGen) 0) := by
  have zeros : ∀ count, (List.range count).map (mask salsa20 []) = List.replicate count 0#8 := by
    intro count
    rw [List.eq_replicate_iff, List.length_map, List.length_range]
    refine ⟨rfl, fun byte inside => ?_⟩
    rcases List.mem_map.mp inside with ⟨position, -, rfl⟩
    rfl
  have kept : (addRandom sha256 (unseeded seedGen) 0).buff = List.replicate BUFFSIZE 0#8 ∧
      (addRandom sha256 (unseeded seedGen) 0).nextByte = BUFFSIZE := by
    unfold addRandom
    dsimp only
    split_ifs <;> exact ⟨rfl, rfl⟩
  exact
    { buff := kept.1.trans (zeros BUFFSIZE).symm
      nextByte_le := kept.2.le
      count := by rw [kept.2]; rfl
      drawn_eq := rfl }

theorem Buffered.addRandom (buffered : Buffered salsa20 stirs drawn random)
    (sample : BitVec 32) : Buffered salsa20 stirs drawn (addRandom sha256 random sample) := by
  unfold Random.addRandom
  dsimp only
  split_ifs <;> exact ⟨buffered.buff, buffered.nextByte_le, buffered.count, buffered.drawn_eq⟩

theorem copied_le (random : Random) (count : ℕ) : copied random count ≤ count := by
  rw [copied]
  split_ifs <;> omega

/-- What is copied goes on with the stream. -/
theorem Buffered.randomCopy (buffered : Buffered salsa20 stirs drawn random) (count : ℕ) :
    ((randomCopy random count).1).length = copied random count ∧
      Buffered salsa20 stirs (drawn ++ (randomCopy random count).1)
        (randomCopy random count).2 := by
  have fits : random.nextByte + copied random count ≤ BUFFSIZE := by
    have small := buffered.nextByte_le
    rw [copied]
    split_ifs <;> omega
  have copy : (Random.randomCopy random count).1 = (List.range (copied random count)).map
      fun index => streamByte salsa20 stirs (drawn.length + index) := by
    apply List.ext_getElem
    · rw [Random.randomCopy, List.length_take, List.length_drop, buffered.buff, List.length_map,
        List.length_range, List.length_map, List.length_range]
      omega
    · intro index inside below
      rw [List.length_map, List.length_range] at below
      have counted := buffered.count
      have small := buffered.nextByte_le
      have one : 1 ≤ stirs.length := by
        by_contra none
        have empty : stirs.length = 0 := by omega
        rw [empty] at counted
        omega
      have place : drawn.length + index =
          BUFFSIZE * (stirs.length - 1) + (random.nextByte + index) := by
        rw [Nat.mul_sub_one]
        have much := Nat.mul_le_mul_left BUFFSIZE one
        omega
      have row : (drawn.length + index) / BUFFSIZE + 1 = stirs.length := by
        rw [place, Nat.mul_add_div (by decide), Nat.div_eq_of_lt (by omega)]
        omega
      have column : (drawn.length + index) % BUFFSIZE = random.nextByte + index := by
        rw [place, Nat.mul_add_mod, Nat.mod_eq_of_lt (by omega)]
      simp only [Random.randomCopy, buffered.buff, List.getElem_take, List.getElem_drop,
        List.getElem_map, List.getElem_range]
      rw [streamByte, row, column, List.take_length]
  have length : (Random.randomCopy random count).1.length = copied random count := by
    rw [copy, List.length_map, List.length_range]
  refine ⟨length, buffered.buff, fits, ?_, ?_⟩
  · rw [List.length_append, length]
    have counted := buffered.count
    change _ = _ + (random.nextByte + copied random count)
    omega
  · rw [List.length_append, length, List.range_add, List.map_append, ← buffered.drawn_eq, copy,
      List.map_map]
    rfl

theorem mask_append (stirs : List Call) (call : Call) (position : ℕ) :
    mask salsa20 (stirs ++ [call]) position =
      mask salsa20 stirs position ^^^ salsa20 call.key call.nonce position := by
  rw [mask, mask, List.foldl_append]
  rfl

/-- Stirring a buffer that is used up changes nothing in what has been drawn. -/
theorem Buffered.stir (buffered : Buffered salsa20 stirs drawn random)
    (used : random.nextByte = BUFFSIZE) :
    Buffered salsa20 (stirs ++ [random.call BUFFSIZE]) drawn (stir salsa20 random) where
  buff := by
    change crypto_stream_salsa20_xor salsa20 random.buff random.nonce random.tempSeed = _
    rw [crypto_stream_salsa20_xor, buffered.buff]
    apply List.ext_getElem
    · rw [List.length_mapIdx, List.length_map, List.length_map]
    · intro position inside below
      rw [List.getElem_mapIdx, List.getElem_map, List.getElem_map, List.getElem_range,
        mask_append]
      rfl
  nextByte_le := Nat.zero_le _
  count := by
    have counted := buffered.count
    rw [used] at counted
    rw [List.length_append, List.length_singleton]
    change _ = _ + 0
    omega
  drawn_eq := by
    have counted := buffered.count
    conv_lhs => rw [buffered.drawn_eq]
    apply List.map_congr_left
    intro index inside
    rw [List.mem_range] at inside
    rw [streamByte, streamByte, List.take_append_of_le_length]
    have row : index / BUFFSIZE < stirs.length := by
      rw [Nat.div_lt_iff_lt_mul (by decide), Nat.mul_comm]
      omega
    exact row

/-! ## The calls -/

/-- The calls have the numbers from zero on as their nonces. -/
structure Counted (calls : List Call) (random : Random) : Prop where
  nonces : calls.map Call.nonce = (List.range calls.length).map (BitVec.ofNat 64)
  next : random.nonce = BitVec.ofNat 64 calls.length

theorem counted_nil (random : Random) (new : random.nonce = 0) : Counted [] random :=
  ⟨rfl, new⟩

theorem Counted.push {calls : List Call} {after : Random} (counted : Counted calls random)
    (length : ℕ) (next : after.nonce = random.nonce + 1) :
    Counted (calls ++ [random.call length]) after where
  nonces := by
    rw [List.map_append, counted.nonces, List.length_append, List.length_singleton,
      List.range_succ, List.map_append, List.map_singleton, List.map_singleton, ← counted.next]
    rfl
  next := by
    rw [next, counted.next, List.length_append, List.length_singleton, BitVec.ofNat_add]
    rfl

/-- While fewer than 2^64 calls are made, no nonce comes twice. -/
theorem Counted.nodup {calls : List Call} (counted : Counted calls random)
    (few : calls.length ≤ 2 ^ 64) : (calls.map Call.nonce).Nodup := by
  rw [counted.nonces]
  apply List.Nodup.map_on _ List.nodup_range
  intro first firstInside second secondInside same
  rw [List.mem_range] at firstInside secondInside
  have numbers := congrArg BitVec.toNat same
  rwa [BitVec.toNat_ofNat, BitVec.toNat_ofNat, Nat.mod_eq_of_lt (by omega),
    Nat.mod_eq_of_lt (by omega)] at numbers

/-- Drawing leaves the entropy alone, and every call is made with the key there is and the next
nonce. -/
structure Made (before : Random) (calls : List Call) (after : Random) : Prop where
  seedGen_eq : after.seedGen = before.seedGen
  counter : after.addRandomCounter = before.addRandomCounter
  key : after.tempSeed = before.tempSeed
  keys : ∀ call ∈ calls, call.key = before.tempSeed
  counted : ∀ {earlier}, Counted earlier before → Counted (earlier ++ calls) after

theorem Made.seeded {calls : List Call} {after : Random} (made : Made random calls after)
    (seeded : Seeded sha256 seedGen samples random) : Seeded sha256 seedGen samples after where
  seedGen_eq := made.seedGen_eq.trans seeded.seedGen_eq
  counter := made.counter.trans seeded.counter
  key := made.key.trans seeded.key

theorem bytesLoop_made (random : Random) (count : ℕ) :
    Made random (bytesLoop salsa20 random count).calls (bytesLoop salsa20 random count).random := by
  fun_induction bytesLoop salsa20 random count with
  | case1 random count copy whole =>
      refine ⟨rfl, rfl, rfl, fun call inside => ?_, fun counted => ?_⟩
      · cases inside
      · rw [List.append_nil]
        exact ⟨counted.nonces, counted.next⟩
  | case2 random count copy part rest ih =>
      refine ⟨ih.seedGen_eq, ih.counter, ih.key, fun call inside => ?_, fun counted => ?_⟩
      · rcases List.mem_cons.mp inside with rfl | inside
        · rfl
        · exact ih.keys call inside
      · rw [← List.singleton_append, ← List.append_assoc]
        have same : Counted _ copy.2 := ⟨counted.nonces, counted.next⟩
        exact ih.counted (same.push BUFFSIZE rfl)

/-- A small request draws the next bytes of the stream. -/
theorem bytesLoop_buffered (random : Random) (count : ℕ) :
    ∀ {stirs : List Call} {drawn : List (BitVec 8)}, Buffered salsa20 stirs drawn random →
      (bytesLoop salsa20 random count).bytes.length = count ∧
        (∀ call ∈ (bytesLoop salsa20 random count).calls, call.length = BUFFSIZE) ∧
        Buffered salsa20 (stirs ++ (bytesLoop salsa20 random count).calls)
          (drawn ++ (bytesLoop salsa20 random count).bytes)
          (bytesLoop salsa20 random count).random := by
  fun_induction bytesLoop salsa20 random count
  case case1 random count copy whole =>
      intro stirs drawn buffered
      rcases buffered.randomCopy count with ⟨length, copied⟩
      have small := copied_le random count
      refine ⟨?_, fun call inside => (List.not_mem_nil inside).elim, ?_⟩
      · exact length.trans (by omega)
      · rw [List.append_nil]
        exact copied
  case case2 random count copy part rest ih =>
      intro stirs drawn buffered
      rcases buffered.randomCopy count with ⟨length, copied⟩
      have small := copied_le random count
      -- What is not enough has been copied to its end.
      have used : copy.2.nextByte = BUFFSIZE := by
        have fits := buffered.nextByte_le
        change random.nextByte + Random.copied random count = BUFFSIZE
        rw [Random.copied] at part ⊢
        split_ifs at part ⊢ <;> omega
      rcases ih (copied.stir used) with ⟨restLength, restCalls, restBuffered⟩
      refine ⟨?_, fun call inside => ?_, ?_⟩
      · rw [List.length_append, length, restLength]
        omega
      · rcases List.mem_cons.mp inside with rfl | inside
        · rfl
        · exact restCalls call inside
      · rw [← List.singleton_append, ← List.append_assoc, ← List.append_assoc]
        exact restBuffered

end

/-! ## A life -/

variable (sha256 salsa20)

/-- A generator with what has happened to it: the samples that were added, the calls of salsa20, and
the bytes of the small requests -/
structure Life where
  random : Random
  samples : List (BitVec 32)
  calls : List Call
  drawn : List (BitVec 8)

/-- What is done with a generator -/
inductive Event where
  | addRandom (randomNumber : BitVec 32)
  | bytes (location : List (BitVec 8))

/-- What a call makes of a generator -/
def Life.next (life : Life) : Event → Life
  | .addRandom randomNumber =>
      { life with
        random := Random.addRandom sha256 life.random randomNumber
        samples := life.samples ++ [randomNumber] }
  | .bytes location =>
      let result := Random.bytes salsa20 life.random location
      { life with
        random := result.random
        calls := life.calls ++ result.calls
        drawn := if location.length > BUFFSIZE then life.drawn else life.drawn ++ result.bytes }

/-- The lives that begin with the seed -/
def lives (seedGen : SeedGen) : TransitionSystem Life Event where
  initial life := ∃ new, newWithSeed sha256 salsa20 (some seedGen) = some new ∧
    life = { random := new.random, samples := [], calls := new.calls, drawn := [] }
  step before event after := after = before.next sha256 salsa20 event

/-- The calls that stir the buffer -/
def Life.stirs (life : Life) : List Call :=
  life.calls.filter fun call => call.length = BUFFSIZE

/-- What is kept up in a life -/
structure Life.Invariant (seedGen : SeedGen) (life : Life) : Prop where
  seeded : Seeded sha256 seedGen life.samples life.random
  buffered : Buffered salsa20 life.stirs life.drawn life.random
  counted : Counted life.calls life.random
  keys : ∀ call ∈ life.calls, ∃ samples, samples <+: life.samples ∧
    call.key = keyAfter sha256 seedGen samples

variable {sha256 salsa20} {life : Life}

theorem bytes_big {location : List (BitVec 8)} (big : location.length > BUFFSIZE) :
    Random.bytes salsa20 random location =
      { bytes := crypto_stream_salsa20_xor salsa20 location random.nonce random.tempSeed
        random := { random with nonce := random.nonce + 1 }
        calls := [random.call location.length] } :=
  if_pos big

theorem bytes_small {location : List (BitVec 8)} (small : ¬ location.length > BUFFSIZE) :
    Random.bytes salsa20 random location = bytesLoop salsa20 random location.length :=
  if_neg small

theorem bytes_made (random : Random) (location : List (BitVec 8)) :
    Made random (Random.bytes salsa20 random location).calls
      (Random.bytes salsa20 random location).random := by
  by_cases big : location.length > BUFFSIZE
  · rw [bytes_big big]
    refine ⟨rfl, rfl, rfl, fun call inside => ?_, fun counted => counted.push _ rfl⟩
    rw [List.mem_singleton.mp inside]
    rfl
  · rw [bytes_small big]
    exact bytesLoop_made random location.length

theorem Life.Invariant.addRandom (invariant : life.Invariant sha256 salsa20 seedGen)
    (randomNumber : BitVec 32) :
    (life.next sha256 salsa20 (.addRandom randomNumber)).Invariant sha256 salsa20 seedGen where
  seeded := invariant.seeded.addRandom randomNumber
  buffered := invariant.buffered.addRandom randomNumber
  counted := by
    have kept : (Random.addRandom sha256 life.random randomNumber).nonce = life.random.nonce := by
      unfold Random.addRandom
      dsimp only
      split_ifs <;> rfl
    exact ⟨invariant.counted.nonces, kept.trans invariant.counted.next⟩
  keys call inside := by
    rcases invariant.keys call inside with ⟨samples, earlier, key⟩
    exact ⟨samples, earlier.trans (List.prefix_append _ _), key⟩

theorem Life.Invariant.bytes (invariant : life.Invariant sha256 salsa20 seedGen)
    (location : List (BitVec 8)) :
    (life.next sha256 salsa20 (.bytes location)).Invariant sha256 salsa20 seedGen := by
  have made : Made life.random (Random.bytes salsa20 life.random location).calls
      (Random.bytes salsa20 life.random location).random := bytes_made life.random location
  refine ⟨made.seeded invariant.seeded, ?_, made.counted invariant.counted,
    fun call inside => ?_⟩
  · by_cases big : location.length > BUFFSIZE
    · have other : ¬ (life.random.call location.length).length = BUFFSIZE := Nat.ne_of_gt big
      have stirs : (life.next sha256 salsa20 (.bytes location)).stirs = life.stirs := by
        change List.filter _ (life.calls ++ (Random.bytes salsa20 life.random location).calls) = _
        have none : [life.random.call location.length].filter
            (fun call => call.length = BUFFSIZE) = [] := by
          rw [List.filter_singleton, decide_eq_false other]
          rfl
        rw [List.filter_append, bytes_big big, none, List.append_nil]
        rfl
      have drawn : (life.next sha256 salsa20 (.bytes location)).drawn = life.drawn := if_pos big
      rw [stirs, drawn]
      change Buffered _ _ _ (Random.bytes salsa20 life.random location).random
      rw [bytes_big big]
      have before := invariant.buffered
      exact ⟨before.buff, before.nextByte_le, before.count, before.drawn_eq⟩
    · rcases bytesLoop_buffered _ location.length invariant.buffered with ⟨-, all, buffered⟩
      have stirs : (life.next sha256 salsa20 (.bytes location)).stirs =
          life.stirs ++ (bytesLoop salsa20 life.random location.length).calls := by
        change List.filter _ (life.calls ++ (Random.bytes salsa20 life.random location).calls) = _
        rw [List.filter_append, bytes_small big, List.filter_eq_self.mpr
          fun call inside => decide_eq_true (all call inside)]
        rfl
      have drawn : (life.next sha256 salsa20 (.bytes location)).drawn =
          life.drawn ++ (bytesLoop salsa20 life.random location.length).bytes := by
        rw [← bytes_small big]
        exact if_neg big
      rw [stirs, drawn]
      change Buffered _ _ _ (Random.bytes salsa20 life.random location).random
      rw [bytes_small big]
      exact buffered
  · rcases List.mem_append.mp inside with inside | inside
    · exact invariant.keys call inside
    · exact ⟨life.samples, List.prefix_rfl, (made.keys call inside).trans invariant.seeded.key⟩

/-- The first call is made before any sample is added. -/
theorem invariant_isInvariant (seedGen : SeedGen) :
    (lives sha256 salsa20 seedGen).IsInvariant (fun _ _ => True)
      (Life.Invariant sha256 salsa20 seedGen) where
  initial := by
    rintro _ ⟨new, created, rfl⟩
    rw [newWithSeed, Option.map_some, Option.some.injEq] at created
    subst created
    have seeded : Seeded sha256 seedGen [] (addRandom sha256 (unseeded seedGen) 0) :=
      seeded_unseeded seedGen
    have unused : (addRandom sha256 (unseeded seedGen) 0).nextByte = BUFFSIZE ∧
        (addRandom sha256 (unseeded seedGen) 0).nonce = 0 := by
      unfold addRandom
      dsimp only
      split_ifs <;> exact ⟨rfl, rfl⟩
    refine ⟨⟨seeded.seedGen_eq, seeded.counter, seeded.key⟩,
      (buffered_unseeded seedGen).stir unused.1,
      (counted_nil _ unused.2).push BUFFSIZE rfl, fun call inside => ?_⟩
    rw [List.mem_singleton.mp inside]
    exact ⟨[], List.prefix_rfl, seeded.key⟩
  step := by
    rintro before event _ invariant - rfl
    cases event with
    | addRandom randomNumber => exact invariant.addRandom randomNumber
    | bytes location => exact invariant.bytes location

variable (sha256 salsa20 seedGen life) in
/-- What holds in every life of a generator -/
structure Life.Sound : Prop where
  entropy : life.random.seedGen = seedGen.after life.samples
  key : life.random.tempSeed = keyAfter sha256 seedGen life.samples
  keys : ∀ call ∈ life.calls, ∃ samples, samples <+: life.samples ∧
    call.key = keyAfter sha256 seedGen samples
  /-- The nonce is counted on whatever happens to the key. -/
  nonces : life.calls.map Call.nonce = (List.range life.calls.length).map (BitVec.ofNat 64)
  unique : life.calls.length ≤ 2 ^ 64 → (life.calls.map Call.nonce).Nodup
  /-- The small requests cut one stream into pieces. -/
  drawn_eq : life.drawn = (List.range life.drawn.length).map (streamByte salsa20 life.stirs)
  frugal : BUFFSIZE * life.stirs.length ≤ life.drawn.length + BUFFSIZE
  length : ∀ location, (Random.bytes salsa20 life.random location).bytes.length = location.length
  /-- A big request has a nonce for itself. -/
  big : ∀ location, location.length > BUFFSIZE →
    (Random.bytes salsa20 life.random location).bytes =
      crypto_stream_salsa20_xor salsa20 location (BitVec.ofNat 64 life.calls.length)
        (keyAfter sha256 seedGen life.samples)

theorem sound_of_life (reachable : (lives sha256 salsa20 seedGen).Reachable (fun _ _ => True) life) :
    life.Sound sha256 salsa20 seedGen := by
  have invariant := reachable.invariant (invariant_isInvariant seedGen)
  refine
    { entropy := invariant.seeded.seedGen_eq
      key := invariant.seeded.key
      keys := invariant.keys
      nonces := invariant.counted.nonces
      unique := invariant.counted.nodup
      drawn_eq := invariant.buffered.drawn_eq
      frugal := ?_
      length := fun location => ?_
      big := fun location big => ?_ }
  · have counted := invariant.buffered.count
    have small := invariant.buffered.nextByte_le
    omega
  · by_cases big : location.length > BUFFSIZE
    · rw [bytes_big big, crypto_stream_salsa20_xor, List.length_mapIdx]
    · rw [bytes_small big]
      exact (bytesLoop_buffered _ location.length invariant.buffered).1
  · rw [bytes_big big, invariant.counted.next, invariant.seeded.key]

variable (sha256 salsa20 seedGen) in
/-- A life at its beginning -/
def Life.begun : Life :=
  let random := Random.addRandom sha256 (unseeded seedGen) 0
  { random := stir salsa20 random
    samples := []
    calls := [random.call BUFFSIZE]
    drawn := [] }

theorem reachable_begun :
    (lives sha256 salsa20 seedGen).Reachable (fun _ _ => True)
      (Life.begun sha256 salsa20 seedGen) :=
  .initial ⟨_, rfl, rfl⟩

theorem reachable_foldl (events : List Event)
    (reachable : (lives sha256 salsa20 seedGen).Reachable (fun _ _ => True) life) :
    (lives sha256 salsa20 seedGen).Reachable (fun _ _ => True)
      (events.foldl (Life.next sha256 salsa20) life) := by
  induction events generalizing life with
  | nil => exact reachable
  | cons event events ih => exact ih (reachable.step trivial rfl)

/-- A hash function that keeps the first bytes -/
def takeHash (input : List (BitVec 8)) : List (BitVec 8) := input.take 32

/-- A stream that counts on -/
def countingStream (_ : List (BitVec 8)) (nonce : BitVec 64) (position : ℕ) : BitVec 8 :=
  BitVec.ofNat 8 (nonce.toNat + position)

def evenSeed : SeedGen where
  seed := List.replicate 32 7
  collectedEntropy := fun _ => 1

/-- Samples are added between two small requests, for which the buffer is stirred once more, and a
big one. -/
theorem sound_of_requests :
    let events : List Event := [.addRandom 5, .bytes (List.replicate 100 0), .addRandom 6,
      .bytes (List.replicate 60 0), .bytes (List.replicate 200 0)]
    let life := events.foldl (Life.next takeHash countingStream)
      (Life.begun takeHash countingStream evenSeed)
    life.calls.length = 3 ∧ life.drawn.length = 160 ∧
      life.Sound takeHash countingStream evenSeed := by
  intro events life
  refine ⟨by decide +kernel, by decide +kernel, sound_of_life ?_⟩
  exact reachable_foldl events reachable_begun

/-! ## The same number again and again -/

/-- The same number is added so many times. -/
def Life.feed (sha256 : List (BitVec 8) → List (BitVec 8))
    (salsa20 : List (BitVec 8) → BitVec 64 → ℕ → BitVec 8) (randomNumber : BitVec 32) (life : Life) :
    ℕ → Life
  | 0 => life
  | times + 1 => (life.feed sha256 salsa20 randomNumber times).next sha256 salsa20
      (.addRandom randomNumber)

theorem samples_feed (randomNumber : BitVec 32) (life : Life) (times : ℕ) :
    (life.feed sha256 salsa20 randomNumber times).samples =
      life.samples ++ List.replicate times randomNumber := by
  induction times with
  | zero => exact (List.append_nil _).symm
  | succ times ih =>
      change (life.feed sha256 salsa20 randomNumber times).samples ++ [randomNumber] = _
      rw [ih, List.append_assoc, List.replicate_succ']

theorem reachable_feed (randomNumber : BitVec 32)
    (reachable : (lives sha256 salsa20 seedGen).Reachable (fun _ _ => True) life) (times : ℕ) :
    (lives sha256 salsa20 seedGen).Reachable (fun _ _ => True)
      (life.feed sha256 salsa20 randomNumber times) := by
  induction times with
  | zero => exact reachable
  | succ times ih => exact ih.step trivial rfl

/-- What the number does to the pool as the sample at an index -/
def effect (randomNumber : BitVec 32) (slot : Fin 8) (index : ℕ) : BitVec 32 :=
  if index % 8 = slot.val then rotl randomNumber (index % 256 / 8) else 0#32

theorem effect_periodic (randomNumber : BitVec 32) (slot : Fin 8) (start : ℕ) :
    Function.Periodic (fun index => effect randomNumber slot (start + index)) 256 := by
  intro index
  have eighth : (start + (index + 256)) % 8 = (start + index) % 8 := by omega
  have round : (start + (index + 256)) % 256 = (start + index) % 256 := by omega
  simp only [effect, eighth, round]

theorem pooled_replicate (initial : Fin 8 → BitVec 32) (samples : List (BitVec 32))
    (randomNumber : BitVec 32) (times : ℕ) (slot : Fin 8) :
    pooled initial (samples ++ List.replicate times randomNumber) slot =
      pooled initial samples slot ^^^
        xorSum (fun index => effect randomNumber slot (samples.length + index)) times := by
  have before (index : ℕ) (below : index < samples.length) :
      (samples ++ List.replicate times randomNumber).getD index 0 = samples.getD index 0 := by
    rw [List.getD_eq_getElem?_getD, List.getElem?_append_left below, List.getD_eq_getElem?_getD]
  have behind (index : ℕ) (below : index < times) :
      (samples ++ List.replicate times randomNumber).getD (samples.length + index) 0 =
        randomNumber := by
    rw [List.getD_eq_getElem?_getD, List.getElem?_append_right (Nat.le_add_right _ _),
      Nat.add_sub_cancel_left, List.getElem?_replicate, if_pos below, Option.getD_some]
  rw [pooled, pooled, List.length_append, List.length_replicate, XorSum.add,
    XorSum.congr fun index below => by rw [before index below], BitVec.xor_assoc]
  congr 2
  exact XorSum.congr fun index below => by rw [behind index below, effect]

/-- After two rounds with the same number the pool is what it was. -/
theorem after_two_rounds (seedGen : SeedGen) (samples : List (BitVec 32))
    (randomNumber : BitVec 32) (times : ℕ) :
    seedGen.after (samples ++ List.replicate (times + 512) randomNumber) =
      seedGen.after (samples ++ List.replicate times randomNumber) := by
  have same : pooled seedGen.collectedEntropy
      (samples ++ List.replicate (times + 512) randomNumber) =
      pooled seedGen.collectedEntropy (samples ++ List.replicate times randomNumber) := by
    funext slot
    rw [pooled_replicate, pooled_replicate]
    exact congrArg _ (XorSum.add_two_periods (effect_periodic randomNumber slot _) times)
  rw [SeedGen.after, SeedGen.after, same]

/-- The samples that a key depends on are some of the number's, from the second round on. -/
theorem keyAfter_two_rounds (seedGen : SeedGen) (samples : List (BitVec 32))
    (randomNumber : BitVec 32) {times : ℕ}
    (enough : 256 ≤ times ∨ samples.length % 256 = 0) :
    keyAfter sha256 seedGen (samples ++ List.replicate (times + 512) randomNumber) =
      keyAfter sha256 seedGen (samples ++ List.replicate times randomNumber) := by
  have taken : ∃ kept, (samples.length + times) / 256 * 256 = samples.length + kept ∧
      kept ≤ times :=
    ⟨(samples.length + times) / 256 * 256 - samples.length, by omega, by omega⟩
  rcases taken with ⟨kept, taken, few⟩
  have more : (samples.length + (times + 512)) / 256 * 256 = samples.length + (kept + 512) := by
    have rounds : (samples.length + times + 2 * 256) / 256 = (samples.length + times) / 256 + 2 :=
      Nat.add_mul_div_right _ _ (by decide)
    rw [← Nat.add_assoc, ← Nat.add_assoc, ← taken, rounds, Nat.add_mul]
  have fewer : min (kept + 512) (times + 512) = kept + 512 := by omega
  have first : (samples ++ List.replicate times randomNumber).take (samples.length + kept) =
      samples ++ List.replicate kept randomNumber := by
    rw [List.take_length_add_append, List.take_replicate, Nat.min_eq_left few]
  have second : (samples ++ List.replicate (times + 512) randomNumber).take
      (samples.length + (kept + 512)) = samples ++ List.replicate (kept + 512) randomNumber := by
    rw [List.take_length_add_append, List.take_replicate, fewer]
  rw [keyAfter, keyAfter, List.length_append, List.length_replicate, List.length_append,
    List.length_replicate, taken, more, first, second, after_two_rounds]

theorem getLsbD_rotl (word : BitVec 32) {amount index : ℕ} (less : amount < 32)
    (inside : index < 32) :
    (rotl word amount).getLsbD index = word.getLsbD ((index + (32 - amount)) % 32) := by
  rw [rotl, BitVec.getLsbD_or, BitVec.getLsbD_shiftLeft, BitVec.getLsbD_ushiftRight]
  by_cases low : index < amount
  · have place : (index + (32 - amount)) % 32 = 32 - amount + index := by omega
    rw [place]
    simp [low]
  · have place : (index + (32 - amount)) % 32 = index - amount := by omega
    have outside : 32 ≤ 32 - amount + index := by omega
    rw [place, BitVec.getLsbD_of_ge _ _ outside]
    simp [low, inside]

/-- The exclusive or of the bits of a word -/
def parity (word : BitVec 32) : BitVec 1 :=
  xorSum (fun index => BitVec.ofBool (word.getLsbD index)) 32

/-- Every bit of the exclusive or of all rotations of a word is the word's parity. -/
theorem xorSum_rotl (word : BitVec 32) :
    xorSum (rotl word) 32 = if parity word = 1 then BitVec.allOnes 32 else 0#32 := by
  have bit (index : ℕ) (inside : index < 32) :
      BitVec.ofBool ((xorSum (rotl word) 32).getLsbD index) = parity word := by
    rw [XorSum.map (fun word => BitVec.ofBool (word.getLsbD index))
      (by rw [BitVec.getLsbD_zero]; rfl)
      (fun left right => by rw [BitVec.getLsbD_xor, BitVec.ofBool_xor_ofBool])]
    -- The rotations bring every bit of the word to the index once, in the order of their distance.
    have walk : Function.Periodic
        (fun place => BitVec.ofBool (word.getLsbD (place % 32))) 32 := by
      intro place
      dsimp only
      rw [Nat.add_mod_right]
    have turned := XorSum.reverse
      (fun place => BitVec.ofBool (word.getLsbD ((index + 1 + place) % 32))) 32
    have shifted := XorSum.add_period walk (index + 1)
    rw [XorSum.add] at shifted
    rw [BitVec.xor_right_inj] at shifted
    have straight : parity word =
        xorSum (fun place => BitVec.ofBool (word.getLsbD (place % 32))) 32 :=
      XorSum.congr fun place below => by rw [Nat.mod_eq_of_lt below]
    rw [straight, ← shifted, ← turned]
    refine XorSum.congr fun amount below => ?_
    have place : (index + (32 - amount)) % 32 = (index + 1 + (32 - 1 - amount)) % 32 := by
      congr 1
      omega
    rw [getLsbD_rotl word below inside, place]
  apply BitVec.eq_of_getLsbD_eq
  intro index inside
  have same := bit index inside
  split_ifs with odd
  · rw [odd] at same
    rw [BitVec.getLsbD_allOnes, decide_eq_true inside]
    cases value : (xorSum (rotl word) 32).getLsbD index with
    | true => rfl
    | false =>
        rw [value] at same
        cases same
  · rw [BitVec.getLsbD_zero]
    cases value : (xorSum (rotl word) 32).getLsbD index with
    | false => rfl
    | true =>
        rw [value] at same
        exact absurd same.symm odd

/-- A whole round with the same number turns all bits around, or none. -/
theorem xorSum_effect (randomNumber : BitVec 32) (slot : Fin 8) (start : ℕ) :
    xorSum (fun index => effect randomNumber slot (start + index)) 256 =
      if parity randomNumber = 1 then BitVec.allOnes 32 else 0#32 := by
  have periodic : Function.Periodic (effect randomNumber slot) 256 := by
    intro index
    have moved := effect_periodic randomNumber slot 0 index
    simpa only [Nat.zero_add] using moved
  have shifted := XorSum.add_period periodic start
  rw [XorSum.add, BitVec.xor_right_inj] at shifted
  rw [shifted, ← xorSum_rotl, ← XorSum.stride 8 slot.isLt 32]
  refine XorSum.congr fun index below => ?_
  rw [effect, Nat.mod_eq_of_lt below]

variable (sha256 salsa20 life) in
/-- What adding one number again and again comes to -/
structure Life.Repeats (randomNumber : BitVec 32) : Prop where
  /-- The pool turns around with every round if the number has an odd number of ones. -/
  round : (life.feed sha256 salsa20 randomNumber 256).random.seedGen =
    { life.random.seedGen with
      collectedEntropy := fun slot => life.random.seedGen.collectedEntropy slot ^^^
        if parity randomNumber = 1 then BitVec.allOnes 32 else 0#32 }
  pool : ∀ times, (life.feed sha256 salsa20 randomNumber (times + 512)).random.seedGen =
    (life.feed sha256 salsa20 randomNumber times).random.seedGen
  /-- The keys come again. -/
  key : ∀ times, (256 ≤ times ∨ life.random.addRandomCounter = 0) →
    (life.feed sha256 salsa20 randomNumber (times + 512)).random.tempSeed =
      (life.feed sha256 salsa20 randomNumber times).random.tempSeed
  /-- But the calls do not: the nonce is not reset. -/
  call : ∀ times length later, life.calls.length < 2 ^ 64 →
    ∀ call ∈ (life.feed sha256 salsa20 randomNumber times).calls,
      call ≠ (life.feed sha256 salsa20 randomNumber later).random.call length

theorem calls_feed (randomNumber : BitVec 32) (life : Life) (times : ℕ) :
    (life.feed sha256 salsa20 randomNumber times).calls = life.calls := by
  induction times with
  | zero => rfl
  | succ times ih => exact ih

theorem repeats_of_life (randomNumber : BitVec 32)
    (reachable : (lives sha256 salsa20 seedGen).Reachable (fun _ _ => True) life) :
    life.Repeats sha256 salsa20 randomNumber := by
  have seeded := (reachable.invariant (invariant_isInvariant seedGen)).seeded
  have fed (times : ℕ) : Seeded sha256 seedGen
      (life.samples ++ List.replicate times randomNumber)
      (life.feed sha256 salsa20 randomNumber times).random := by
    have samples : (life.feed sha256 salsa20 randomNumber times).samples = _ :=
      samples_feed randomNumber life times
    rw [← samples]
    exact ((reachable_feed randomNumber reachable times).invariant
      (invariant_isInvariant seedGen)).seeded
  refine ⟨?_, fun times => ?_, fun times enough => ?_, fun times length later few call inside => ?_⟩
  · rw [(fed 256).seedGen_eq, seeded.seedGen_eq, SeedGen.after, SeedGen.after]
    congr 1
    funext slot
    rw [pooled_replicate, xorSum_effect]
  · rw [(fed (times + 512)).seedGen_eq, (fed times).seedGen_eq, after_two_rounds]
  · rw [seeded.counter] at enough
    rw [(fed (times + 512)).key, (fed times).key, keyAfter_two_rounds seedGen _ _ enough]
  · intro same
    have counted := ((reachable_feed randomNumber reachable later).invariant
      (invariant_isInvariant seedGen)).counted
    rw [calls_feed] at inside counted
    have pushed : Counted (life.calls ++ [_])
        { (life.feed sha256 salsa20 randomNumber later).random with nonce := _ } :=
      counted.push length rfl
    have unique := pushed.nodup (by rw [List.length_append, List.length_singleton]; omega)
    rw [List.map_append, List.map_singleton, List.nodup_append] at unique
    exact unique.2.2 _ (List.mem_map_of_mem inside) _ List.mem_cons_self (congrArg Call.nonce same)

/-- The same number, which has three ones, after a sample and a request -/
theorem repeats_of_request :
    let life := [.addRandom 5, .bytes (List.replicate 200 0)].foldl
      (Life.next takeHash countingStream) (Life.begun takeHash countingStream evenSeed)
    life.samples = [5] ∧ life.calls.length = 2 ∧ life.Repeats takeHash countingStream 7 := by
  intro life
  exact ⟨rfl, by decide +kernel, repeats_of_life 7 (reachable_foldl _ reachable_begun)⟩

end Cjdns.Random
