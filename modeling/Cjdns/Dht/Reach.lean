import Cjdns.Dht.PingTimeout

/-!
# The reach of a node

A response in time sets the reach of a node to the time that was left, times
`LINK_STATE_MULTIPLIER`. The product has 64 bits and the reach 32, so that it is lost for
the fastest responses (`exactReach_iff`). A time-out halves the reach, but a reach of 3 or 4
is where that stops (`iterate_reachAfterTimeout`).
-/

namespace Cjdns

variable [AddressCalc]

namespace RouterModule

abbrev MIN_TIMEOUT : BitVec 64 := 10

abbrev MAX_TIMEOUT : BitVec 64 := 10000

/-- `tryNextNodeAfter`, for the average of the roller and what `rand` returns -/
def tryNextNodeAfter (average : BitVec 32) (rand : BitVec 31) : BitVec 64 :=
  let x := average.setWidth 64 * 4
  let x := x + rand.setWidth 64 % (x ||| 1) / 2
  if x > MAX_TIMEOUT then MAX_TIMEOUT else if x < MIN_TIMEOUT then MIN_TIMEOUT else x

/-- The time that `tryNextNodeAfter` finds before it is kept within its bounds -/
def meanWait (average : BitVec 32) (rand : BitVec 31) : ℕ :=
  4 * average.toNat + rand.toNat % (4 * average.toNat + 1) / 2

omit [AddressCalc] in
theorem toNat_tryNextNodeAfter (average : BitVec 32) (rand : BitVec 31) :
    (tryNextNodeAfter average rand).toNat = max 10 (min 10000 (meanWait average rand)) := by
  have size := average.isLt
  have times : (average.setWidth 64 * 4).toNat = 4 * average.toNat := by
    rw [BitVec.toNat_mul, BitVec.toNat_setWidth, show (4 : BitVec 64).toNat = 4 from rfl]
    omega
  have odd : (average.setWidth 64 * 4 ||| 1).toNat = 4 * average.toNat + 1 := by
    rw [BitVec.toNat_or, times, show (1 : BitVec 64).toNat = 1 from rfl,
      show 4 * average.toNat = 2 ^ 2 * average.toNat from rfl,
      ← Nat.two_pow_add_eq_or_of_lt (by norm_num)]
  have part := Nat.mod_lt rand.toNat (show 0 < 4 * average.toNat + 1 by omega)
  have width : (rand.setWidth 64).toNat = rand.toNat := by
    rw [BitVec.toNat_setWidth]
    exact Nat.mod_eq_of_lt (by have := rand.isLt; omega)
  have wait : (average.setWidth 64 * 4 +
      rand.setWidth 64 % (average.setWidth 64 * 4 ||| 1) / 2).toNat = meanWait average rand := by
    rw [BitVec.toNat_add, BitVec.toNat_udiv, BitVec.toNat_umod, odd, times, width,
      show (2 : BitVec 64).toNat = 2 from rfl, meanWait]
    apply Nat.mod_eq_of_lt
    omega
  have most : MAX_TIMEOUT.toNat = 10000 := rfl
  have least : MIN_TIMEOUT.toNat = 10 := rfl
  simp only [tryNextNodeAfter, gt_iff_lt, BitVec.lt_def, wait, most, least]
  split_ifs with long short
  · rw [most]
    omega
  · rw [least]
    omega
  · rw [wait]
    omega

/-- The reach that is stored for a node -/
def reachAt (position : ℕ) (store : NodeStore) : Option (BitVec 32) :=
  store.entries[position]?.map (·.header.reach)

/-- What `NodeStore_updateReach` leaves at the position of its node -/
theorem updateReach_at {position : ℕ} {store : NodeStore} {entry : Entry} (reach : BitVec 32)
    (found : store.entries[position]? = some entry) :
    (store.updateReach position reach).entries[position]? =
      some ({ entry with body := { entry.body with reach := reach } }.withReach reach) := by
  have inside := (List.getElem?_eq_some_iff.mp found).1
  simp only [NodeStore.updateReach, found, List.getElem?_map, List.getElem?_set_self inside,
    Option.map_some]
  have through : LabelSplicer.routesThrough entry.body.address.path entry.body.address.path =
      true := LabelSplicer.routesThrough_refl _
  simp [NodeStore.reachOf, Entry.withReach, through]

/-! ## A response in time -/

/-- The reach for a response, as it is stored -/
def responseReach (worst : BitVec 64) (lag : BitVec 32) : BitVec 32 :=
  ((worst - lag.setWidth 64) * LINK_STATE_MULTIPLIER).setWidth 32

theorem reachAt_responseFromNode {chance : Chance} {position : ℕ} {lag : BitVec 32}
    {store : NodeStore} {entry : Entry} (found : store.entries[position]? = some entry)
    (inTime : lag.toNat < chance.worst.toNat) :
    reachAt position (responseFromNode chance position lag store) =
      some (responseReach chance.worst lag) := by
  have early : chance.worst > lag.setWidth 64 := by
    rw [gt_iff_lt, BitVec.lt_def, BitVec.toNat_setWidth,
      Nat.mod_eq_of_lt (by have := lag.isLt; omega)]
    exact inTime
  simp only [responseFromNode, early, if_true, reachAt, updateReach_at _ found, Option.map_some]
  rfl

omit [AddressCalc] in
theorem toNat_responseReach {worst : BitVec 64} {lag : BitVec 32} (most : worst.toNat ≤ 10000)
    (inTime : lag.toNat < worst.toNat) :
    (responseReach worst lag).toNat = (worst.toNat - lag.toNat) * 536870 % 2 ^ 32 := by
  have width : (lag.setWidth 64).toNat = lag.toNat := by
    rw [BitVec.toNat_setWidth, Nat.mod_eq_of_lt (by omega)]
  have left : (worst - lag.setWidth 64).toNat = worst.toNat - lag.toNat := by
    rw [BitVec.toNat_sub, width]
    omega
  rw [responseReach, BitVec.toNat_setWidth, BitVec.toNat_mul, left,
    show LINK_STATE_MULTIPLIER.toNat = 536870 from rfl]
  omega

/-- What the reach is expected to be after a response, for the time that was allowed -/
structure ExactReach (chance : Chance) (position : ℕ) (lag : BitVec 32) (store : NodeStore) :
    Prop where
  /-- Nothing of the product is lost. -/
  product : ∀ reach ∈ reachAt position (responseFromNode chance position lag store),
    reach.toNat = (chance.worst.toNat - lag.toNat) * LINK_STATE_MULTIPLIER.toNat
  /-- A faster response gives a larger reach. -/
  faster : ∀ sooner < lag,
    ∀ reach ∈ reachAt position (responseFromNode chance position lag store),
      ∀ other ∈ reachAt position (responseFromNode chance position sooner store), reach < other
  /-- The reach is one that `adjustReach` allows. -/
  allowed : ∀ reach ∈ reachAt position (responseFromNode chance position lag store),
    (reach.toNat : ℤ) ≤ INT32_MAX

/--
The reach is exact if the node is allowed 8000 milliseconds at most, of which not more than
4000 are left.
-/
theorem exactReach_iff {now : BitVec 64} {random : ℕ} {average : BitVec 32} {rand : BitVec 31}
    {lag : BitVec 32} {position : ℕ} {store : NodeStore} {entry : Entry}
    (found : store.entries[position]? = some entry)
    (inTime : lag.toNat < (tryNextNodeAfter average rand).toNat) :
    ExactReach { now := now, rand := random, worst := tryNextNodeAfter average rand } position
        lag store ↔
      meanWait average rand ≤ 8000 ∧ meanWait average rand ≤ 4000 + lag.toNat := by
  have bounds := toNat_tryNextNodeAfter average rand
  have stored {sooner : BitVec 32} (early : sooner.toNat ≤ lag.toNat) :
      reachAt position (responseFromNode
          { now := now, rand := random, worst := tryNextNodeAfter average rand } position sooner
          store) = some (responseReach (tryNextNodeAfter average rand) sooner) :=
    reachAt_responseFromNode found (lt_of_le_of_lt early inTime)
  have value {sooner : BitVec 32} (early : sooner.toNat ≤ lag.toNat) :
      (responseReach (tryNextNodeAfter average rand) sooner).toNat =
        ((tryNextNodeAfter average rand).toNat - sooner.toNat) * 536870 % 2 ^ 32 :=
    toNat_responseReach (by omega) (lt_of_le_of_lt early inTime)
  have multiplier : LINK_STATE_MULTIPLIER.toNat = 536870 := rfl
  constructor
  · intro exact
    have product := exact.product _ (stored le_rfl)
    have allowed := exact.allowed _ (stored le_rfl)
    have few : (tryNextNodeAfter average rand).toNat - lag.toNat ≤ 4000 := by
      rw [product, multiplier] at allowed
      simp only [INT32_MAX] at allowed
      omega
    have short : (tryNextNodeAfter average rand).toNat ≤ 8000 := by
      by_contra long
      -- with 8001 milliseconds left the product is lost
      have size := lag.isLt
      have sooner : (BitVec.ofNat 32 ((tryNextNodeAfter average rand).toNat - 8001)).toNat =
          (tryNextNodeAfter average rand).toNat - 8001 := by
        rw [BitVec.toNat_ofNat, Nat.mod_eq_of_lt (by omega)]
      have early : (BitVec.ofNat 32 ((tryNextNodeAfter average rand).toNat - 8001)).toNat ≤
          lag.toNat := by omega
      have less := exact.faster _ (by rw [BitVec.lt_def]; omega) _ (stored le_rfl) _
        (stored early)
      rw [BitVec.lt_def, product, multiplier, value early, sooner] at less
      dsimp only at less
      omega
    omega
  · rintro ⟨short, few⟩
    have whole {sooner : BitVec 32} (early : sooner.toNat ≤ lag.toNat) :
        (responseReach (tryNextNodeAfter average rand) sooner).toNat =
          ((tryNextNodeAfter average rand).toNat - sooner.toNat) * 536870 := by
      rw [value early]
      apply Nat.mod_eq_of_lt
      omega
    constructor
    · intro reach inside
      cases (stored le_rfl).symm.trans inside
      rw [whole le_rfl, multiplier]
    · intro sooner early reach inside other inside'
      rw [BitVec.lt_def] at early
      cases (stored le_rfl).symm.trans inside
      cases (stored early.le).symm.trans inside'
      rw [BitVec.lt_def, whole le_rfl, whole early.le]
      omega
    · intro reach inside
      cases (stored le_rfl).symm.trans inside
      rw [whole le_rfl]
      simp only [INT32_MAX]
      omega

omit [AddressCalc] in
/-- A response after 50 of 400 milliseconds -/
theorem exactReach_of_quick :
    letI := AddressCalc.plain
    ExactReach { now := 0, rand := 0, worst := tryNextNodeAfter 100 0 } 0 50
      awaitingPong.nodeStore := by
  let := AddressCalc.plain
  have found : awaitingPong.nodeStore.entries[0]? =
      some (((Entry.replaceNode pinged pinged.address).withReach 1).withVersion 2) := rfl
  exact (exactReach_iff found (by decide)).mpr ⟨by decide, by decide⟩

omit [AddressCalc] in
/-- With the average that the roller starts with, an immediate response is too good. -/
theorem initial_average_overflows :
    letI := AddressCalc.plain
    ¬ExactReach { now := 0, rand := 0, worst := tryNextNodeAfter 5000 0 } 0 0
      awaitingPong.nodeStore := by
  let := AddressCalc.plain
  intro exact
  have found : awaitingPong.nodeStore.entries[0]? =
      some (((Entry.replaceNode pinged pinged.address).withReach 1).withVersion 2) := rfl
  have stored := exact.product _ (reachAt_responseFromNode found (by decide))
  exact absurd stored (by decide)

/-! ## Time-outs -/

/-- The same node times out several times, and nothing is heard of it in between. -/
def timeOuts (position : ℕ) (count : ℕ) (store : NodeStore) : NodeStore :=
  (punish position)^[count] store

/-- What is expected of the time-outs of a node -/
structure FadesOut (position : ℕ) (store : NodeStore) : Prop where
  /-- Some number of them brings its reach to 0. -/
  gone : ∃ count, reachAt position (timeOuts position count store) = some 0
  /-- A time-out raises the reach of no node. -/
  lowers : ∀ (other : ℕ), ∀ before ∈ reachAt other store,
    ∀ after ∈ reachAt other (punish position store), after ≤ before

omit [AddressCalc] in
theorem toNat_reachAfterTimeout {reach : BitVec 32} (large : 3 ≤ reach.toNat) :
    (reachAfterTimeout reach).toNat = reach.toNat / 2 + 2 := by
  have size := reach.isLt
  have two : reach ≠ 2 := by
    rintro rfl
    exact absurd large (by decide)
  have few : ¬(reach = 1 ∨ reach = 0) := by
    rintro (rfl | rfl) <;> exact absurd large (by decide)
  rw [reachAfterTimeout, if_neg two, if_neg few, BitVec.toNat_add, BitVec.toNat_udiv,
    show (2 : BitVec 32).toNat = 2 from rfl]
  omega

omit [AddressCalc] in
/-- A reach of at least 3 never falls below it. -/
theorem iterate_reachAfterTimeout {reach : BitVec 32} (large : 3 ≤ reach.toNat) (count : ℕ) :
    3 ≤ (reachAfterTimeout^[count] reach).toNat := by
  induction count with
  | zero => exact large
  | succ count ih =>
      rw [Function.iterate_succ_apply', toNat_reachAfterTimeout ih]
      omega

theorem punish_at {position : ℕ} {store : NodeStore} {entry : Entry}
    (found : store.entries[position]? = some entry) (occupied : entry.body.address.path ≠ 0) :
    (punish position store).entries[position]? =
      some ({ entry with body := { entry.body with
        reach := reachAfterTimeout entry.body.reach } }.withReach
          (reachAfterTimeout entry.body.reach)) := by
  simp only [punish, found, occupied, ne_eq, not_false_eq_true, if_true]
  exact updateReach_at _ found

/-- After some time-outs the reach is the one in the node, halved as many times. -/
theorem timeOuts_at {position : ℕ} {store : NodeStore} {entry : Entry}
    (found : store.entries[position]? = some entry) (occupied : entry.body.address.path ≠ 0)
    (count : ℕ) :
    ∃ later, (timeOuts position (count + 1) store).entries[position]? = some later ∧
      later.body.address.path = entry.body.address.path ∧
      later.body.reach = reachAfterTimeout^[count + 1] entry.body.reach ∧
      later.header.reach = reachAfterTimeout^[count + 1] entry.body.reach := by
  induction count with
  | zero => exact ⟨_, punish_at found occupied, rfl, rfl, rfl⟩
  | succ count ih =>
      rcases ih with ⟨later, found', path, reach, _⟩
      have next := punish_at found' (by rwa [path])
      rw [timeOuts, Function.iterate_succ_apply']
      refine ⟨_, next, path, ?_, ?_⟩
      · rw [Function.iterate_succ_apply', ← reach]
        rfl
      · rw [Function.iterate_succ_apply', ← reach]
        rfl

/-- What a time-out does to the reach of any node -/
theorem punish_other {position other : ℕ} {store : NodeStore} {entry entry' : Entry}
    (found : store.entries[position]? = some entry) (occupied : entry.body.address.path ≠ 0)
    (elsewhere : position ≠ other) (found' : store.entries[other]? = some entry') :
    (punish position store).entries[other]? = some
      (NodeStore.reachOf entry.body.address.path (reachAfterTimeout entry.body.reach) entry') := by
  simp only [punish, found, occupied, ne_eq, not_false_eq_true, if_true, NodeStore.updateReach,
    List.getElem?_map, List.getElem?_set_ne elsewhere, found', Option.map_some]

/-- A reach of 1 is passed on to no other node. -/
theorem reachOf_le {path : BitVec 64} {reach : BitVec 32} {entry : Entry} (low : reach ≤ 1) :
    (NodeStore.reachOf path reach entry).header.reach ≤ entry.header.reach := by
  simp only [NodeStore.reachOf]
  split_ifs with behind above before raised
  · exact BitVec.le_of_lt above
  · exact BitVec.le_refl _
  · have present : entry.header.reach.toNat ≠ 0 := fun zero =>
      raised.2 (BitVec.eq_of_toNat_eq zero)
    have one : (1 : BitVec 32).toNat = 1 := rfl
    rw [BitVec.lt_def] at raised
    rw [BitVec.le_def, one] at low
    omega
  · exact BitVec.le_refl _
  · exact BitVec.le_refl _

/--
A node fades out, and its time-outs raise no reach, exactly if it has a reach of at most 2,
and not 2 where the table has 0.
-/
theorem fadesOut_iff {position : ℕ} {store : NodeStore} {entry : Entry}
    (found : store.entries[position]? = some entry) (occupied : entry.body.address.path ≠ 0) :
    FadesOut position store ↔
      entry.body.reach ≤ 2 ∧ (entry.body.reach = 2 → entry.header.reach ≠ 0) := by
  have here : reachAt position store = some entry.header.reach := by
    rw [reachAt, found, Option.map_some]
  have next : reachAt position (punish position store) =
      some (reachAfterTimeout entry.body.reach) := by
    rw [reachAt, punish_at found occupied]
    rfl
  have two : (2 : BitVec 32).toNat = 2 := rfl
  constructor
  · intro fades
    have own := fades.lowers position _ here _ next
    rcases fades.gone with ⟨count, gone⟩
    rw [BitVec.le_def, two]
    constructor
    · by_contra large
      have most : 3 ≤ entry.body.reach.toNat := by omega
      cases count with
      | zero =>
          have zero : entry.header.reach = 0 := Option.some.inj (here.symm.trans gone)
          have none : (0 : BitVec 32).toNat = 0 := rfl
          rw [zero, BitVec.le_def, toNat_reachAfterTimeout most, none] at own
          omega
      | succ count =>
          rcases timeOuts_at found occupied count with ⟨later, found', _, _, reach⟩
          rw [reachAt, found', Option.map_some, reach, Option.some.injEq] at gone
          have least := iterate_reachAfterTimeout most (count + 1)
          rw [gone] at least
          exact absurd least (by decide)
    · intro same zero
      rw [same, zero] at own
      exact absurd own (by decide)
  · rintro ⟨small, present⟩
    rw [BitVec.le_def, two] at small
    have cases' : entry.body.reach = 0 ∨ entry.body.reach = 1 ∨ entry.body.reach = 2 := by
      simp only [← BitVec.toNat_inj]
      change _ = 0 ∨ _ = 1 ∨ _ = 2
      omega
    have low : reachAfterTimeout entry.body.reach ≤ 1 := by
      rcases cases' with none | one | both
      · rw [none]
        decide
      · rw [one]
        decide
      · rw [both]
        decide
    constructor
    · rcases timeOuts_at found occupied 1 with ⟨later, found', _, _, reach⟩
      refine ⟨2, ?_⟩
      rw [reachAt, found', Option.map_some, reach]
      rcases cases' with none | one | both
      · rw [none]
        rfl
      · rw [one]
        rfl
      · rw [both]
        rfl
    · intro other before known after known'
      by_cases elsewhere : position = other
      · subst elsewhere
        cases here.symm.trans known
        cases next.symm.trans known'
        rcases cases' with none | one | both
        · rw [none]
          exact Nat.zero_le _
        · rw [one]
          exact Nat.zero_le _
        · rw [both, BitVec.le_def]
          have positive : entry.header.reach.toNat ≠ 0 := fun zero =>
            present both (BitVec.eq_of_toNat_eq zero)
          exact Nat.one_le_iff_ne_zero.mpr positive
      · rcases Option.map_eq_some_iff.mp known with ⟨entry', found', rfl⟩
        rw [reachAt, punish_other found occupied elsewhere found', Option.map_some] at known'
        cases known'
        exact reachOf_le low

/-- A node two hops away -/
def twoHops (reach : BitVec 32) : Entry :=
  (Entry.replaceNode { reach := reach, version := 2, address := pinged.address }
    { pinged.address with path := 0x115 }).withReach reach

/-- A table with that node alone -/
def lonely (reach : BitVec 32) : NodeStore where
  thisNodeAddress := bystander.address
  capacity := 1
  entries := [twoHops reach]
  labelSum := 8

omit [AddressCalc] in
/-- A node of reach 2 is gone after two time-outs. -/
theorem fadesOut_of_two :
    letI := AddressCalc.plain
    LabelSplicer.isOneHop (twoHops 2).body.address.path = false ∧ FadesOut 0 (lonely 2) := by
  let := AddressCalc.plain
  have found : (lonely 2).entries[0]? = some (twoHops 2) := rfl
  exact ⟨by decide, (fadesOut_iff found (by decide)).mpr ⟨by decide, by decide⟩⟩

omit [AddressCalc] in
/-- A reach of 4 stays at 4 however often the node times out. -/
theorem four_never_fades :
    letI := AddressCalc.plain
    LabelSplicer.isOneHop (twoHops 4).body.address.path = false ∧ ¬FadesOut 0 (lonely 4) := by
  let := AddressCalc.plain
  refine ⟨by decide, fun fades => ?_⟩
  have found : (lonely 4).entries[0]? = some (twoHops 4) := rfl
  rcases fades.gone with ⟨count, gone⟩
  cases count with
  | zero => exact absurd gone (by decide)
  | succ count =>
      rcases timeOuts_at found (by decide) count with ⟨later, found', _, _, reach⟩
      rw [reachAt, found', Option.map_some, reach, Option.some.injEq] at gone
      have large : 3 ≤ (twoHops 4).body.reach.toNat := by decide
      have least := iterate_reachAfterTimeout large (count + 1)
      rw [gone] at least
      exact absurd least (by decide)

end RouterModule

end Cjdns
