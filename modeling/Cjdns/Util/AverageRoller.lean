import Mathlib.Data.BitVec
import Mathlib.Tactic

/-!
# The rolling average

A circular array has the sum and the number of the entries of each second. An update refreshes the
place of its own second only, so that a second that is skipped leaves in the array what was in its
place before. What is counted are the entries whose place has not been taken by a later second.
-/

namespace Cjdns

/-- `struct SumAndEntryCount` -/
@[ext]
structure SumAndEntryCount where
  sum : BitVec 32
  entryCount : BitVec 32
deriving DecidableEq

/-- `struct AverageRoller` -/
structure AverageRoller where
  windowSeconds : BitVec 32
  lastUpdateTime : BitVec 32
  lastUpdateIndex : BitVec 32
  sum : BitVec 32
  entryCount : BitVec 32
  average : BitVec 32
  seconds : List SumAndEntryCount

namespace AverageRoller

/-- `AverageRoller_new`, with the time in seconds -/
def new (windowSeconds : BitVec 32) (now : BitVec 64) : AverageRoller where
  windowSeconds := windowSeconds
  lastUpdateTime := now.setWidth 32
  lastUpdateIndex := 0
  sum := 0
  entryCount := 0
  average := 0
  seconds := List.replicate windowSeconds.toNat { sum := 0, entryCount := 0 }

/-- The index of `update` -/
def indexFor (now : BitVec 64) (roller : AverageRoller) : BitVec 32 :=
  ((now - roller.lastUpdateTime.setWidth 64 + roller.lastUpdateIndex.setWidth 64) %
    roller.windowSeconds.setWidth 64).setWidth 32

/-- What an element of the array holds -/
def secondAt (index : ℕ) (roller : AverageRoller) : SumAndEntryCount :=
  roller.seconds.getD index { sum := 0, entryCount := 0 }

/-- The first half of `update` -/
def refresh (now : BitVec 64) (newEntry : BitVec 32) (roller : AverageRoller) : AverageRoller :=
  let index := (roller.indexFor now).toNat
  let second := roller.secondAt index
  if now.setWidth 32 > roller.lastUpdateTime then
    { roller with
      sum := roller.sum - second.sum
      entryCount := roller.entryCount - second.entryCount
      seconds := roller.seconds.set index { sum := newEntry, entryCount := 1 } }
  else
    { roller with
      seconds := roller.seconds.set index
        { sum := second.sum + newEntry, entryCount := second.entryCount + 1 } }

/-- `update`; there is no result where it divides by zero. -/
def update (now : BitVec 64) (newEntry : BitVec 32) (roller : AverageRoller) :
    Option AverageRoller :=
  if roller.windowSeconds = 0 then none
  else
    let index := roller.indexFor now
    let roller := roller.refresh now newEntry
    let sum := roller.sum + newEntry
    let entryCount := roller.entryCount + 1
    if entryCount = 0 then none
    else
      some
        { roller with
          sum := sum
          entryCount := entryCount
          average := sum / entryCount
          lastUpdateTime := now.setWidth 32
          lastUpdateIndex := index }

/-- A call of `AverageRoller_update` -/
structure Update where
  now : BitVec 64
  newEntry : BitVec 32
deriving DecidableEq

def run (updates : List Update) (roller : AverageRoller) : Option AverageRoller :=
  updates.foldlM (fun roller call => roller.update call.now call.newEntry) roller

/-! ## What is counted -/

def total (updates : List Update) : ℕ :=
  (updates.map fun call => call.newEntry.toNat).sum

/-- A later second has the place of the second of a call. -/
def Displaced (windowSeconds : ℕ) (updates : List Update) (call : Update) : Prop :=
  ∃ later ∈ updates, call.now < later.now ∧
    later.now.toNat % windowSeconds = call.now.toNat % windowSeconds

instance (windowSeconds : ℕ) (updates : List Update) (call : Update) :
    Decidable (Displaced windowSeconds updates call) :=
  inferInstanceAs (Decidable (∃ later ∈ updates, _ ∧ _))

/-- The entries whose place has not been taken by a later second -/
def counted (windowSeconds : ℕ) (updates : List Update) : List Update :=
  updates.filter fun call => ¬ Displaced windowSeconds updates call

/-- The entries of the last seconds before a time -/
def window (windowSeconds : ℕ) (now : BitVec 64) (updates : List Update) : List Update :=
  updates.filter fun call => now.toNat < call.now.toNat + windowSeconds

/-- The sum and the number of entries, as an element of the array has them -/
def sumOf (updates : List Update) : SumAndEntryCount where
  sum := BitVec.ofNat 32 (total updates)
  entryCount := BitVec.ofNat 32 updates.length

/-- The entries with a place in the array -/
def sharing (windowSeconds second : ℕ) (updates : List Update) : List Update :=
  updates.filter fun call => call.now.toNat % windowSeconds = second % windowSeconds

/-! ## Sums -/

variable {windowSeconds : ℕ} {updates front back : List Update} {call other : Update}

@[simp]
theorem total_append : total (front ++ back) = total front + total back := by
  simp [total]

@[simp]
theorem total_singleton : total [call] = call.newEntry.toNat := by
  simp [total]

/-- A list splits into what is kept and what is not. -/
theorem total_filter_add (keep : Update → Bool) (updates : List Update) :
    total (updates.filter keep) + total (updates.filter fun call => !keep call) =
      total updates := by
  induction updates with
  | nil => rfl
  | cons call updates ih =>
      simp only [total] at ih ⊢
      cases kept : keep call <;> simp [kept, ← ih] <;> omega

theorem sumOf_append_singleton :
    sumOf (front ++ [call]) =
      { sum := (sumOf front).sum + call.newEntry, entryCount := (sumOf front).entryCount + 1 } := by
  simp only [sumOf, total_append, total_singleton, List.length_append, List.length_singleton,
    BitVec.ofNat_add, BitVec.ofNat_toNat, BitVec.setWidth_eq]
  rfl

/-- What is left when some entries are taken off -/
theorem sumOf_filter (keep : Update → Bool) (updates : List Update) :
    sumOf (updates.filter fun call => !keep call) =
      { sum := (sumOf updates).sum - (sumOf (updates.filter keep)).sum
        entryCount := (sumOf updates).entryCount - (sumOf (updates.filter keep)).entryCount } := by
  have sums := total_filter_add keep updates
  have lengths := List.length_eq_length_filter_add (l := updates) keep
  simp only [sumOf, SumAndEntryCount.mk.injEq]
  constructor
  · rw [← sums, BitVec.ofNat_add]
    ring
  · rw [lengths, BitVec.ofNat_add]
    ring

/-! ## One update -/

/-- A later call takes the places of the earlier seconds that share its own. -/
theorem counted_append (latest : ∀ earlier ∈ updates, earlier.now ≤ call.now) :
    counted windowSeconds (updates ++ [call]) =
      (counted windowSeconds updates).filter (fun earlier =>
        !decide (earlier.now < call.now ∧
          call.now.toNat % windowSeconds = earlier.now.toNat % windowSeconds)) ++ [call] := by
  have last : ¬ Displaced windowSeconds (updates ++ [call]) call := by
    rintro ⟨later, inside, less, -⟩
    rcases List.mem_append.mp inside with inside | inside
    · exact absurd less (BitVec.not_lt.mpr (latest later inside))
    · rw [List.mem_singleton.mp inside] at less
      exact absurd less (BitVec.lt_irrefl _)
  have split (earlier : Update) : Displaced windowSeconds (updates ++ [call]) earlier ↔
      Displaced windowSeconds updates earlier ∨ (earlier.now < call.now ∧
        call.now.toNat % windowSeconds = earlier.now.toNat % windowSeconds) := by
    simp only [Displaced, List.mem_append, List.mem_singleton, or_and_right, exists_or,
      exists_eq_left]
  rw [counted, List.filter_append, counted, List.filter_filter]
  congr 1
  · apply List.filter_congr
    intro earlier _
    simp only [split, not_or, Bool.decide_and, decide_not, Bool.not_and]
    exact Bool.and_comm _ _
  · simp [last]

/-- The second of the last call; the time of the creation before the first -/
def lastTime (start : BitVec 64) (updates : List Update) : BitVec 64 :=
  (updates.getLast?.map fun call => call.now).getD start

/-- The roller after some calls -/
structure Holds (windowSeconds : BitVec 32) (start : BitVec 64) (updates : List Update)
    (roller : AverageRoller) : Prop where
  windowSeconds_eq : roller.windowSeconds = windowSeconds
  length_eq : roller.seconds.length = windowSeconds.toNat
  time_eq : roller.lastUpdateTime.setWidth 64 = lastTime start updates
  index_eq : roller.lastUpdateIndex.toNat =
    ((lastTime start updates).toNat - start.toNat) % windowSeconds.toNat
  sums : { sum := roller.sum, entryCount := roller.entryCount } =
    sumOf (counted windowSeconds.toNat updates)
  second_eq : ∀ second, start.toNat ≤ second →
    roller.secondAt ((second - start.toNat) % windowSeconds.toNat) =
      sumOf (sharing windowSeconds.toNat second (counted windowSeconds.toNat updates))

/-- The calls come in the order of their times, which begin with that of the creation. -/
def Ordered (start : BitVec 64) (updates : List Update) : Prop :=
  (start :: updates.map fun call => call.now).Pairwise (· ≤ ·)

variable {width : BitVec 32} {start : BitVec 64} {roller after : AverageRoller}

theorem holds_new (early : start.toNat < 2 ^ 32) :
    Holds width start [] (new width start) := by
  have same : (start.setWidth 32).setWidth 64 = start := by
    apply BitVec.eq_of_toNat_eq
    simp only [BitVec.toNat_setWidth]
    omega
  refine ⟨rfl, List.length_replicate, same, ?_, rfl, fun second _ => ?_⟩
  · simp [new, lastTime]
  · simp only [secondAt, new, List.getD_eq_getElem?_getD, List.getElem?_replicate]
    split_ifs <;> rfl

@[simp]
theorem lastTime_append : lastTime start (updates ++ [call]) = call.now := by
  simp [lastTime]

/-- The last call is after the creation and after every earlier call. -/
theorem Ordered.append (ordered : Ordered start (updates ++ [call])) :
    Ordered start updates ∧ start.toNat ≤ (lastTime start updates).toNat ∧
      (lastTime start updates).toNat ≤ call.now.toNat ∧
      ∀ earlier ∈ updates, earlier.now.toNat ≤ (lastTime start updates).toNat := by
  simp only [Ordered, List.map_append, List.map_cons, List.map_nil] at ordered ⊢
  rw [← List.cons_append] at ordered
  rcases List.pairwise_append.mp ordered with ⟨sorted, -, before⟩
  refine ⟨sorted, ?_⟩
  rcases List.eq_nil_or_concat' updates with rfl | ⟨front, last, rfl⟩
  · have first := before start (by simp) call.now (by simp)
    exact ⟨le_rfl, first, by simp⟩
  · rw [lastTime_append]
    rw [List.map_append, ← List.cons_append] at sorted
    have below := (List.pairwise_append.mp sorted).2.2
    refine ⟨below start (by simp) last.now (by simp), ?_, ?_⟩
    · exact before last.now (by simp) call.now (by simp)
    · intro earlier inside
      rcases List.mem_append.mp inside with inside | inside
      · apply below earlier.now _ last.now (by simp)
        exact List.mem_cons_of_mem _ (List.mem_map_of_mem inside)
      · rw [List.mem_singleton.mp inside]

/-- Two seconds have the same place exactly if they differ by a multiple of the window. -/
theorem place_eq_iff {base one two width : ℕ} (first : base ≤ one) (second : base ≤ two) :
    (one - base) % width = (two - base) % width ↔ one % width = two % width := by
  have cancel : (one - base + base) % width = (two - base + base) % width ↔
      (one - base) % width = (two - base) % width :=
    ⟨fun same => Nat.ModEq.add_right_cancel' base same, fun same => Nat.ModEq.add_right base same⟩
  rw [← cancel, Nat.sub_add_cancel first, Nat.sub_add_cancel second]

/-- The index is the place of the second. -/
theorem toNat_indexFor (holds : Holds width start updates roller)
    (after : start.toNat ≤ (lastTime start updates).toNat)
    (later : (lastTime start updates).toNat ≤ call.now.toNat) (early : call.now.toNat < 2 ^ 32) :
    (roller.indexFor call.now).toNat = (call.now.toNat - start.toNat) % width.toNat := by
  have narrow := width.isLt
  have place := holds.index_eq
  have index := roller.lastUpdateIndex.isLt
  have difference : (call.now - lastTime start updates).toNat =
      call.now.toNat - (lastTime start updates).toNat := BitVec.toNat_sub_of_le later
  simp only [indexFor, holds.time_eq, holds.windowSeconds_eq, BitVec.toNat_setWidth,
    BitVec.toNat_umod, BitVec.toNat_add, difference]
  have noWrap : (call.now.toNat - (lastTime start updates).toNat +
      roller.lastUpdateIndex.toNat) % 2 ^ 64 =
        call.now.toNat - (lastTime start updates).toNat + roller.lastUpdateIndex.toNat :=
    Nat.mod_eq_of_lt (by omega)
  rw [Nat.mod_eq_of_lt (a := roller.lastUpdateIndex.toNat) (by omega),
    Nat.mod_eq_of_lt (a := width.toNat) (by omega), noWrap, place]
  have together : call.now.toNat - (lastTime start updates).toNat +
      ((lastTime start updates).toNat - start.toNat) = call.now.toNat - start.toNat := by
    omega
  rw [Nat.add_mod_mod, together, Nat.mod_eq_of_lt]
  exact lt_of_le_of_lt (Nat.mod_le _ _) (by omega)

theorem newer_iff (holds : Holds width start updates roller) (early : call.now.toNat < 2 ^ 32) :
    call.now.setWidth 32 > roller.lastUpdateTime ↔
      (lastTime start updates).toNat < call.now.toNat := by
  have time := congrArg BitVec.toNat holds.time_eq
  have small := roller.lastUpdateTime.isLt
  rw [BitVec.toNat_setWidth, Nat.mod_eq_of_lt (by omega)] at time
  rw [gt_iff_lt, BitVec.lt_def, BitVec.toNat_setWidth, Nat.mod_eq_of_lt (by omega), time]

/-- An element of the array after it or another one has been written -/
theorem getD_set (elements : List SumAndEntryCount) (index other : ℕ) (value : SumAndEntryCount)
    (default : SumAndEntryCount) (inside : index < elements.length) :
    (elements.set index value).getD other default =
      if other = index then value else elements.getD other default := by
  simp only [List.getD_eq_getElem?_getD, List.getElem?_set]
  split_ifs with same here
  · rfl
  · exact absurd same.symm here
  · exact absurd inside (by omega)
  · rfl

/-- In a new second, the entries that shared its place go. -/
theorem counted_of_newer (newer : ∀ earlier ∈ updates, earlier.now < call.now) :
    counted windowSeconds (updates ++ [call]) =
      (counted windowSeconds updates).filter (fun earlier =>
        !decide (earlier.now.toNat % windowSeconds = call.now.toNat % windowSeconds)) ++
          [call] := by
  rw [counted_append fun earlier inside => BitVec.le_of_lt (newer earlier inside)]
  congr 1
  apply List.filter_congr
  intro earlier inside
  have before := newer earlier (List.mem_filter.mp inside).1
  simp only [before, true_and, eq_comm]

/-- In the same second as the last call no entry goes. -/
theorem counted_of_same (latest : ∀ earlier ∈ updates, earlier.now ≤ call.now)
    (same : lastTime start updates = call.now) :
    counted windowSeconds (updates ++ [call]) = counted windowSeconds updates ++ [call] := by
  rw [counted_append latest]
  congr 1
  rw [List.filter_eq_self]
  intro earlier inside
  rw [Bool.not_eq_true', decide_eq_false_iff_not]
  rintro ⟨before, shares⟩
  rcases List.eq_nil_or_concat' updates with rfl | ⟨front, last, rfl⟩
  · cases inside
  · rw [lastTime_append] at same
    have kept := (List.mem_filter.mp inside).2
    rw [decide_eq_true_eq] at kept
    exact kept ⟨last, by simp, same ▸ before, same ▸ shares⟩

/-- The entries that do not share the place of a second -/
def others (windowSeconds second : ℕ) (updates : List Update) : List Update :=
  updates.filter fun call => !decide (call.now.toNat % windowSeconds = second % windowSeconds)

theorem sharing_append_singleton {second : ℕ} :
    sharing windowSeconds second (updates ++ [call]) = sharing windowSeconds second updates ++
      if call.now.toNat % windowSeconds = second % windowSeconds then [call] else [] := by
  rw [sharing, List.filter_append, sharing]
  split_ifs with shares <;> simp [shares]

theorem sharing_others {second other : ℕ} :
    sharing windowSeconds second (others windowSeconds other updates) =
      if second % windowSeconds = other % windowSeconds then []
      else sharing windowSeconds second updates := by
  rw [sharing, others, List.filter_filter]
  split_ifs with same
  · rw [List.filter_eq_nil_iff]
    intro call _
    simp [same]
  · rw [sharing]
    apply List.filter_congr
    intro call _
    by_cases shares : call.now.toNat % windowSeconds = second % windowSeconds
    · simp [shares, same]
    · simp [shares]

/-- What an update does to the sums, and to the array -/
structure Refreshed (width : BitVec 32) (start : BitVec 64) (updates : List Update)
    (call : Update) (after : AverageRoller) : Prop where
  windowSeconds_eq : after.windowSeconds = width
  length_eq : after.seconds.length = width.toNat
  sums : { sum := after.sum + call.newEntry, entryCount := after.entryCount + 1 } =
    sumOf (counted width.toNat (updates ++ [call]))
  second_eq : ∀ second, start.toNat ≤ second →
    after.secondAt ((second - start.toNat) % width.toNat) =
      sumOf (sharing width.toNat second (counted width.toNat (updates ++ [call])))

/-- In a new second the place gets its first entry. -/
theorem refreshed_of_newer (holds : Holds width start updates roller) (positive : 0 < width.toNat)
    (ordered : Ordered start (updates ++ [call])) (early : call.now.toNat < 2 ^ 32)
    (newer : (lastTime start updates).toNat < call.now.toNat) :
    Refreshed width start updates call (roller.refresh call.now call.newEntry) := by
  rcases ordered.append with ⟨-, created, later, earlier⟩
  have inside : (call.now.toNat - start.toNat) % width.toNat < roller.seconds.length := by
    rw [holds.length_eq]
    exact Nat.mod_lt _ positive
  have counts : counted width.toNat (updates ++ [call]) =
      others width.toNat call.now.toNat (counted width.toNat updates) ++ [call] :=
    counted_of_newer fun other member =>
      BitVec.lt_def.mpr (lt_of_le_of_lt (earlier other member) newer)
  have sums := SumAndEntryCount.ext_iff.mp holds.sums
  rw [refresh, if_pos ((newer_iff holds early).mpr newer), toNat_indexFor holds created later early,
    holds.second_eq call.now.toNat (by omega)]
  refine ⟨holds.windowSeconds_eq, ?_, ?_, fun second fromStart => ?_⟩
  · rw [← holds.length_eq]
    exact List.length_set
  · rw [counts, sumOf_append_singleton, others, sumOf_filter, ← sums.1, ← sums.2]
    rfl
  · have place := @place_eq_iff start.toNat second call.now.toNat width.toNat fromStart (by omega)
    rw [secondAt, getD_set _ _ _ _ _ inside, counts, sharing_append_singleton, sharing_others]
    by_cases shares : second % width.toNat = call.now.toNat % width.toNat
    · rw [if_pos (place.mpr shares), if_pos shares, if_pos shares.symm, sumOf_append_singleton]
      simp [sumOf, total]
    · rw [if_neg fun equal => shares (place.mp equal), if_neg shares, if_neg (Ne.symm shares),
        List.append_nil, ← holds.second_eq second fromStart]
      rfl

/-- In the same second the entry is added to the place. -/
theorem refreshed_of_same (holds : Holds width start updates roller) (positive : 0 < width.toNat)
    (ordered : Ordered start (updates ++ [call])) (early : call.now.toNat < 2 ^ 32)
    (newer : ¬ (lastTime start updates).toNat < call.now.toNat) :
    Refreshed width start updates call (roller.refresh call.now call.newEntry) := by
  rcases ordered.append with ⟨-, created, later, earlier⟩
  have inside : (call.now.toNat - start.toNat) % width.toNat < roller.seconds.length := by
    rw [holds.length_eq]
    exact Nat.mod_lt _ positive
  have counts := @counted_of_same width.toNat updates call start
    (fun other member => BitVec.le_def.mpr (le_trans (earlier other member) later))
    (BitVec.eq_of_toNat_eq (by omega))
  have sums := SumAndEntryCount.ext_iff.mp holds.sums
  rw [refresh, if_neg fun fresh => newer ((newer_iff holds early).mp fresh),
    toNat_indexFor holds created later early, holds.second_eq call.now.toNat (by omega)]
  refine ⟨holds.windowSeconds_eq, ?_, ?_, fun second fromStart => ?_⟩
  · rw [← holds.length_eq]
    exact List.length_set
  · rw [counts, sumOf_append_singleton, ← sums.1, ← sums.2]
  · have place := @place_eq_iff start.toNat second call.now.toNat width.toNat fromStart (by omega)
    rw [secondAt, getD_set _ _ _ _ _ inside, counts, sharing_append_singleton]
    by_cases shares : second % width.toNat = call.now.toNat % width.toNat
    · have places : sharing width.toNat second (counted width.toNat updates) =
          sharing width.toNat call.now.toNat (counted width.toNat updates) := by
        rw [sharing, sharing, shares]
      rw [if_pos (place.mpr shares), if_pos shares.symm, places, sumOf_append_singleton]
    · rw [if_neg fun equal => shares (place.mp equal), if_neg (Ne.symm shares),
        List.append_nil, ← holds.second_eq second fromStart]
      rfl

/-- An update counts its entry, unless the number of entries gets to a multiple of 2 ^ 32. -/
theorem Holds.update (holds : Holds width start updates roller) (positive : 0 < width.toNat)
    (ordered : Ordered start (updates ++ [call])) (early : call.now.toNat < 2 ^ 32)
    (few : (counted width.toNat (updates ++ [call])).length < 2 ^ 32) :
    ∃ after, roller.update call.now call.newEntry = some after ∧
      Holds width start (updates ++ [call]) after ∧ after.average = after.sum / after.entryCount := by
  have refreshed : Refreshed width start updates call
      (roller.refresh call.now call.newEntry) := by
    by_cases newer : (lastTime start updates).toNat < call.now.toNat
    · exact refreshed_of_newer holds positive ordered early newer
    · exact refreshed_of_same holds positive ordered early newer
  have sums := SumAndEntryCount.ext_iff.mp refreshed.sums
  rcases ordered.append with ⟨-, created, later, earlier⟩
  have some : 0 < (counted width.toNat (updates ++ [call])).length := by
    rw [counted_append fun other member =>
      BitVec.le_def.mpr (le_trans (earlier other member) later)]
    simp
  have nonzero : (roller.refresh call.now call.newEntry).entryCount + 1 ≠ 0 := by
    intro zero
    have number := congrArg BitVec.toNat sums.2
    simp only [zero, sumOf, BitVec.toNat_ofNat, Nat.mod_eq_of_lt few] at number
    simp at number
    omega
  have width_ne : roller.windowSeconds ≠ 0 := by
    rw [holds.windowSeconds_eq]
    rintro rfl
    exact absurd positive (lt_irrefl 0)
  rw [AverageRoller.update, if_neg width_ne]
  dsimp only
  rw [if_neg nonzero]
  refine ⟨_, rfl, ⟨refreshed.windowSeconds_eq, refreshed.length_eq, ?_, ?_, ?_, ?_⟩, rfl⟩
  · rw [lastTime_append]
    apply BitVec.eq_of_toNat_eq
    simp only [BitVec.toNat_setWidth]
    omega
  · rw [lastTime_append]
    exact toNat_indexFor holds created later early
  · exact refreshed.sums
  · exact refreshed.second_eq

/-- The totals stay below 2 ^ 32 after every call. -/
def Fits (windowSeconds : ℕ) (updates : List Update) : Prop :=
  ∀ front, front <+: updates →
    total (counted windowSeconds front) < 2 ^ 32 ∧ (counted windowSeconds front).length < 2 ^ 32

theorem run_append_singleton (roller : AverageRoller) :
    run (updates ++ [call]) roller =
      (run updates roller).bind fun roller => roller.update call.now call.newEntry := by
  simp only [run, List.foldlM_append, List.foldlM_cons, List.foldlM_nil, bind_pure]
  rfl

/-- What the calls before the last one leave, by induction on the calls -/
theorem holds_run (positive : 0 < width.toNat) (created : start.toNat < 2 ^ 32)
    (ordered : Ordered start updates) (early : ∀ call ∈ updates, call.now.toNat < 2 ^ 32)
    (fits : Fits width.toNat updates) :
    ∃ roller, run updates (new width start) = some roller ∧ Holds width start updates roller ∧
      (updates ≠ [] → roller.average = roller.sum / roller.entryCount) := by
  induction updates using List.reverseRecOn with
  | nil => exact ⟨_, rfl, holds_new created, fun some => absurd rfl some⟩
  | append_singleton front call ih =>
      rcases ih ordered.append.1 (fun other inside => early other (List.mem_append_left _ inside))
        (fun shorter before => fits shorter (before.trans (List.prefix_append _ _)))
        with ⟨roller, ran, holds, -⟩
      rcases holds.update positive ordered (early call (by simp))
        (fits (front ++ [call]) List.prefix_rfl).2 with ⟨after, updated, kept, average⟩
      refine ⟨after, ?_, kept, fun _ => average⟩
      rw [run_append_singleton, ran]
      exact updated

theorem Ordered.le_lastTime (ordered : Ordered start updates) :
    ∀ call ∈ updates, call.now.toNat ≤ (lastTime start updates).toNat := by
  intro call inside
  rcases List.eq_nil_or_concat' updates with rfl | ⟨front, last, rfl⟩
  · cases inside
  · rw [lastTime_append]
    rcases ordered.append with ⟨-, -, later, earlier⟩
    rcases List.mem_append.mp inside with inside | inside
    · exact le_trans (earlier call inside) later
    · rw [List.mem_singleton.mp inside]

/-- No later second has the place of one of the last seconds. -/
theorem not_displaced (ordered : Ordered start updates)
    (recent : (lastTime start updates).toNat < call.now.toNat + windowSeconds) :
    ¬ Displaced windowSeconds updates call := by
  rintro ⟨later, inside, before, place⟩
  have latest := ordered.le_lastTime later inside
  have before := BitVec.lt_def.mp before
  have far : windowSeconds ∣ later.now.toNat - call.now.toNat :=
    (Nat.modEq_iff_dvd' (le_of_lt before)).mp place.symm
  have distance := Nat.le_of_dvd (by omega) far
  omega

/-- From the first call on, no second is skipped. -/
def Unskipped (start : BitVec 64) (updates : List Update) : Prop :=
  ∀ first ∈ updates, ∀ second, first.now.toNat ≤ second →
    second ≤ (lastTime start updates).toNat → ∃ call ∈ updates, call.now.toNat = second

theorem displaced_of_unskipped (positive : 0 < windowSeconds) (unskipped : Unskipped start updates)
    (inside : call ∈ updates)
    (old : call.now.toNat + windowSeconds ≤ (lastTime start updates).toNat) :
    Displaced windowSeconds updates call := by
  rcases unskipped call inside _ (Nat.le_add_right _ windowSeconds) old with
    ⟨later, member, second⟩
  refine ⟨later, member, BitVec.lt_def.mpr (by omega), ?_⟩
  rw [second]
  exact Nat.add_mod_right _ _

/-- The entries of the last seconds are among those that are counted. -/
theorem window_sublist_counted (ordered : Ordered start updates) :
    (window windowSeconds (lastTime start updates) updates).Sublist
      (counted windowSeconds updates) := by
  apply List.monotone_filter_right
  intro call recent
  rw [decide_eq_true_eq] at recent ⊢
  exact not_displaced ordered recent

theorem counted_of_unskipped (positive : 0 < windowSeconds) (ordered : Ordered start updates)
    (unskipped : Unskipped start updates) :
    counted windowSeconds updates = window windowSeconds (lastTime start updates) updates := by
  apply List.filter_congr
  intro call inside
  rw [decide_eq_decide]
  constructor
  · intro kept
    by_contra old
    exact kept (displaced_of_unskipped positive unskipped inside (not_lt.mp old))
  · exact not_displaced ordered

/-- After every update the average is that of the entries whose place no later second has taken:
all of those of the last seconds, and no others if no second was skipped. -/
theorem average_of_updates (positive : 0 < width.toNat) (nonempty : updates ≠ [])
    (ordered : Ordered start updates) (early : ∀ call ∈ updates, call.now.toNat < 2 ^ 32)
    (fits : Fits width.toNat updates) :
    ∃ roller, run updates (new width start) = some roller ∧
      0 < (counted width.toNat updates).length ∧
      roller.average.toNat =
        total (counted width.toNat updates) / (counted width.toNat updates).length ∧
      (window width.toNat (lastTime start updates) updates).Sublist
        (counted width.toNat updates) ∧
      (Unskipped start updates →
        counted width.toNat updates = window width.toNat (lastTime start updates) updates) := by
  rcases List.exists_mem_of_ne_nil updates nonempty with ⟨one, member⟩
  have created : start.toNat ≤ one.now.toNat :=
    List.rel_of_pairwise_cons ordered (List.mem_map_of_mem member)
  rcases holds_run positive (lt_of_le_of_lt created (early one member)) ordered early fits with
    ⟨roller, ran, holds, average⟩
  have sum : roller.sum = _ := congrArg SumAndEntryCount.sum holds.sums
  have entryCount : roller.entryCount = _ := congrArg SumAndEntryCount.entryCount holds.sums
  have fitting := fits updates List.prefix_rfl
  refine ⟨roller, ran, ?_, ?_, window_sublist_counted ordered,
    counted_of_unskipped positive ordered⟩
  · rcases List.eq_nil_or_concat' updates with rfl | ⟨front, last, rfl⟩
    · exact absurd rfl nonempty
    · apply List.length_pos_of_mem (a := last)
      apply List.mem_filter.mpr
      refine ⟨by simp, decide_eq_true (not_displaced ordered ?_)⟩
      rw [lastTime_append]
      omega
  · rw [average nonempty, BitVec.toNat_udiv, sum, entryCount, sumOf, BitVec.toNat_ofNat,
      BitVec.toNat_ofNat, Nat.mod_eq_of_lt fitting.1, Nat.mod_eq_of_lt fitting.2]

/-- The updates of a window of three seconds, of which the tenth second had none -/
def skipping : List Update :=
  [⟨7, 7⟩, ⟨8, 8⟩, ⟨9, 9⟩, ⟨11, 7⟩]

theorem average_of_updates_skipping :
    ∃ roller, run skipping (new 3 7) = some roller ∧
      roller.average.toNat = total (counted 3 skipping) / (counted 3 skipping).length := by
  have ordered : Ordered 7 skipping := by
    simp [Ordered, skipping]
  have fits : Fits 3 skipping := by
    intro front before
    rw [← List.mem_inits] at before
    revert front
    decide
  rcases @average_of_updates skipping 3 7 (by decide) (by decide) ordered (by decide) fits with
    ⟨roller, ran, -, average, -⟩
  exact ⟨roller, ran, average⟩

/-- What was in the place of the second that was skipped is still counted. -/
theorem stale_second_counted :
    (run skipping (new 3 7)).map (fun roller => roller.average.toNat) = some 7 ∧
      total (window 3 11 skipping) / (window 3 11 skipping).length = 8 ∧
      Ordered 7 skipping ∧ total skipping < 2 ^ 32 := by
  refine ⟨by decide, by decide, ?_, by decide⟩
  simp [Ordered, skipping]

end AverageRoller

end Cjdns
