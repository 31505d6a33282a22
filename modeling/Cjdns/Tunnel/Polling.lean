import Cjdns.Tunnel.IpTunnel

/-!
# Polling

Now and then the tunnel asks for the addresses of one connection that has none. The search begins
somewhere in the list, and what is wrapped around at its end is only the number that is compared
with the beginning: the index itself goes on beyond the end.
-/

namespace Cjdns.IpTunnel

/-- A connection that `timeout` asks addresses for -/
def Connection.Unassigned (connection : Connection) : Prop :=
  connection.isOutgoing = true ∧ connection.connectionIp6 = 0 ∧ connection.connectionIp4 = 0

instance (connection : Connection) : Decidable connection.Unassigned :=
  inferInstanceAs (Decidable (_ ∧ _ ∧ _))

/-- What `timeout` does: the places it looks at, and the one that it requests addresses for -/
structure Poll where
  looked : List ℕ
  requested : Option ℕ
deriving DecidableEq

/-- The loop of `timeout`, where `rounds` is how often the index can be incremented. There is no
result where it overflows. -/
def timeoutLoop (context : Context) (beginning : ℕ) (rounds i : ℕ) : Option Poll :=
  if (context.connections i).Unassigned then some ⟨[i], some i⟩
  else
    match rounds with
    | 0 => none
    | rounds + 1 =>
        if Int.tmod (i + 1 : ℕ) (BitVec.ofNat 32 context.count).toInt = beginning then
          some ⟨[i], none⟩
        else
          (timeoutLoop context beginning rounds (i + 1)).map fun poll =>
            { poll with looked := i :: poll.looked }

/-- `timeout`, with the result of `Random_int32`; there is none if the index is negative. -/
def timeout (random : BitVec 32) (context : Context) : Option Poll :=
  let count := BitVec.ofNat 32 context.count
  if count = 0 then some ⟨[], none⟩
  else
    let beginning := (random % count).toInt
    if beginning < 0 then none
    else timeoutLoop context beginning.toNat (2 ^ 31 - 1 - beginning.toNat) beginning.toNat

/-- What is expected: only the list is looked at, and a connection without addresses is asked for
them if there is one. -/
def Polls (random : BitVec 32) (context : Context) : Prop :=
  ∃ poll, timeout random context = some poll ∧
    (∀ i ∈ poll.looked, i < context.count) ∧
    ((∃ i, i < context.count ∧ (context.connections i).Unassigned) →
      ∃ i, i < context.count ∧ poll.requested = some i ∧ (context.connections i).Unassigned) ∧
    ((∀ i, i < context.count → ¬ (context.connections i).Unassigned) → poll.requested = none)

/-- The number that an index is compared modulo -/
def modulus (context : Context) : ℕ :=
  (BitVec.ofNat 32 context.count).toInt.natAbs

/-- The loop comes to a connection without addresses before it comes to an end, or there is none
and it ends within the list. -/
def Reached (random : BitVec 32) (context : Context) : Prop :=
  let beginning := random.toNat % context.count
  context.count = 0 ∨ beginning < 2 ^ 31 ∧
    ((∃ i, beginning ≤ i ∧ i < context.count ∧ i < 2 ^ 31 ∧
        (context.connections i).Unassigned ∧
        ∀ stop, beginning < stop → stop ≤ i → stop % modulus context ≠ beginning) ∨
      (∀ i, i < context.count → ¬ (context.connections i).Unassigned) ∧
        ∃ stop, beginning < stop ∧ stop ≤ context.count ∧ stop < 2 ^ 31 ∧
          stop % modulus context = beginning)

variable {context : Context} {random : BitVec 32} {beginning rounds i : ℕ} {poll : Poll}

theorem tmod_eq_iff (number : ℕ) :
    Int.tmod (number : ℕ) (BitVec.ofNat 32 context.count).toInt = beginning ↔
      number % modulus context = beginning := by
  rw [modulus]
  rcases Int.natAbs_eq (BitVec.ofNat 32 context.count).toInt with same | same
  all_goals
    generalize (BitVec.ofNat 32 context.count).toInt.natAbs = size at same ⊢
    rw [same]
  · rw [← Int.ofNat_tmod, Nat.cast_inj]
  · rw [Int.tmod_neg, ← Int.ofNat_tmod, Nat.cast_inj]

/-- The places that the loop looks at have no connection to poll, and it goes on behind them. -/
def Passed (context : Context) (beginning i stop : ℕ) : Prop :=
  ∀ place, i ≤ place → place < stop → ¬ (context.connections place).Unassigned ∧
    (place + 1) % modulus context ≠ beginning

/-- How the loop ends -/
inductive Ends (context : Context) (beginning i : ℕ) : ℕ → Poll → Prop where
  | found {place : ℕ} (le : i ≤ place) (passed : Passed context beginning i place)
      (unassigned : (context.connections place).Unassigned) :
      Ends context beginning i place ⟨List.range' i (place + 1 - i), some place⟩
  | wrapped {place : ℕ} (le : i ≤ place) (passed : Passed context beginning i place)
      (assigned : ¬ (context.connections place).Unassigned)
      (wraps : (place + 1) % modulus context = beginning) :
      Ends context beginning i (place + 1) ⟨List.range' i (place + 1 - i), none⟩

theorem Ends.cons {place : ℕ} (ends : Ends context beginning (i + 1) place poll)
    (assigned : ¬ (context.connections i).Unassigned)
    (goes : (i + 1) % modulus context ≠ beginning) :
    Ends context beginning i place { poll with looked := i :: poll.looked } := by
  have pass {stop : ℕ} (passed : Passed context beginning (i + 1) stop) :
      Passed context beginning i stop := by
    intro other lower upper
    rcases Nat.eq_or_lt_of_le lower with rfl | above
    · exact ⟨assigned, goes⟩
    · exact passed other above upper
  have looked {last : ℕ} (le : i + 1 ≤ last) :
      i :: List.range' (i + 1) (last + 1 - (i + 1)) = List.range' i (last + 1 - i) := by
    rw [← List.range'_succ, show last + 1 - (i + 1) + 1 = last + 1 - i by omega]
  cases ends with
  | found le passed unassigned =>
      rw [looked le]
      exact .found (by omega) (pass passed) unassigned
  | wrapped le passed assigned wraps =>
      rw [looked le]
      exact .wrapped (by omega) (pass passed) assigned wraps

theorem Ends.here (unassigned : (context.connections i).Unassigned) :
    Ends context beginning i i ⟨[i], some i⟩ := by
  have ends := @Ends.found context beginning i i le_rfl
    (fun other lower upper => absurd upper (not_lt.mpr lower)) unassigned
  rwa [Nat.add_sub_cancel_left] at ends

theorem Ends.behind (assigned : ¬ (context.connections i).Unassigned)
    (wraps : (i + 1) % modulus context = beginning) :
    Ends context beginning i (i + 1) ⟨[i], none⟩ := by
  have ends := Ends.wrapped le_rfl
    (fun other lower upper => absurd upper (not_lt.mpr lower)) assigned wraps
  rwa [Nat.add_sub_cancel_left] at ends

/-- The loop ends before the index overflows. -/
theorem ends_of_timeoutLoop (result : timeoutLoop context beginning rounds i = some poll) :
    ∃ place, place ≤ i + rounds ∧ Ends context beginning i place poll := by
  induction rounds generalizing i poll with
  | zero =>
      rw [timeoutLoop] at result
      split_ifs at result with unassigned
      rw [← Option.some.inj result]
      exact ⟨i, le_rfl, Ends.here unassigned⟩
  | succ rounds ih =>
      rw [timeoutLoop] at result
      split_ifs at result with unassigned wraps
      · rw [← Option.some.inj result]
        exact ⟨i, by omega, Ends.here unassigned⟩
      · rw [← Option.some.inj result]
        exact ⟨i + 1, by omega, Ends.behind unassigned ((tmod_eq_iff _).mp wraps)⟩
      · rcases Option.map_eq_some_iff.mp result with ⟨rest, goes, rfl⟩
        rcases ih goes with ⟨place, within, ends⟩
        exact ⟨place, by omega, ends.cons unassigned fun stop => wraps ((tmod_eq_iff _).mpr stop)⟩

/-- The loop ends if there is a place where it would. -/
theorem exists_timeoutLoop_eq {place : ℕ} (le : i ≤ place) (within : place ≤ i + rounds)
    (stops : (context.connections place).Unassigned ∨
      place < i + rounds ∧ (place + 1) % modulus context = beginning) :
    ∃ poll, timeoutLoop context beginning rounds i = some poll := by
  induction rounds generalizing i with
  | zero =>
      have same : place = i := by omega
      rw [same] at stops
      rw [timeoutLoop, if_pos (stops.resolve_right fun less => by omega)]
      exact ⟨_, rfl⟩
  | succ rounds ih =>
      rw [timeoutLoop]
      split_ifs with unassigned wraps
      · exact ⟨_, rfl⟩
      · exact ⟨_, rfl⟩
      · rw [tmod_eq_iff] at wraps
        have apart : i ≠ place := by
          rintro rfl
          rcases stops with found | ⟨-, stop⟩
          · exact unassigned found
          · exact wraps stop
        rcases ih (i := i + 1) (by omega) (by omega)
          (stops.imp_right fun stop => ⟨by omega, stop.2⟩) with ⟨poll, result⟩
        rw [result]
        exact ⟨_, rfl⟩

/-! ## The whole pass -/

/-- Where the search begins -/
theorem toNat_beginning (random : BitVec 32) (fits : context.count < 2 ^ 32) :
    (random % BitVec.ofNat 32 context.count).toNat = random.toNat % context.count := by
  rw [BitVec.toNat_umod, BitVec.toNat_ofNat, Nat.mod_eq_of_lt fits]

theorem timeout_eq (fits : context.count < 2 ^ 32) :
    timeout random context =
      if context.count = 0 then some ⟨[], none⟩
      else if 2 ^ 31 ≤ random.toNat % context.count then none
      else timeoutLoop context (random.toNat % context.count)
        (2 ^ 31 - 1 - random.toNat % context.count) (random.toNat % context.count) := by
  have empty : BitVec.ofNat 32 context.count = 0 ↔ context.count = 0 := by
    rw [← BitVec.toNat_inj, BitVec.toNat_ofNat, Nat.mod_eq_of_lt fits]
    rfl
  have number := toNat_beginning random fits
  have bound := (random % BitVec.ofNat 32 context.count).isLt
  rw [timeout]
  by_cases none : context.count = 0
  · rw [if_pos none]
    exact if_pos (empty.mpr none)
  · rw [if_neg none]
    refine (if_neg fun zero => none (empty.mp zero)).trans ?_
    have signed := BitVec.toInt_eq_toNat_cond (random % BitVec.ofNat 32 context.count)
    rw [number] at signed
    by_cases negative : 2 ^ 31 ≤ random.toNat % context.count
    · rw [if_neg (by omega)] at signed
      rw [if_pos negative]
      exact if_pos (by omega)
    · rw [if_pos (by omega)] at signed
      rw [if_neg negative, signed]
      exact if_neg (by omega)

/-- What has been looked at when the search ends -/
theorem Ends.outcome {place : ℕ} (ends : Ends context beginning i place poll) :
    (∃ found, poll.requested = some found ∧ place = found ∧
        (context.connections found).Unassigned ∧ i ≤ found ∧ Passed context beginning i found ∧
        ∀ other, other ∈ poll.looked ↔ i ≤ other ∧ other ≤ found) ∨
      ∃ last, poll.requested = none ∧ place = last + 1 ∧
        ¬ (context.connections last).Unassigned ∧ i ≤ last ∧ Passed context beginning i last ∧
        (last + 1) % modulus context = beginning ∧
        ∀ other, other ∈ poll.looked ↔ i ≤ other ∧ other ≤ last := by
  cases ends with
  | found le passed unassigned =>
      refine .inl ⟨place, rfl, rfl, unassigned, le, passed, fun other => ?_⟩
      rw [List.mem_range'_1]
      omega
  | @wrapped last le passed assigned wraps =>
      refine .inr ⟨last, rfl, rfl, assigned, le, passed, wraps, fun other => ?_⟩
      rw [List.mem_range'_1]
      omega

theorem reached_of_polls (fits : context.count < 2 ^ 32) (polls : Polls random context) :
    Reached random context := by
  rcases polls with ⟨poll, result, inside, requests, silent⟩
  rw [timeout_eq fits] at result
  rcases Nat.eq_zero_or_pos context.count with none | some
  · exact .inl none
  rw [if_neg (by omega)] at result
  split_ifs at result with negative
  refine .inr ⟨by omega, ?_⟩
  rcases ends_of_timeoutLoop result with ⟨place, within, ends⟩
  rcases ends.outcome with ⟨found, requested, rfl, unassigned, le, passed, looked⟩ |
    ⟨last, requested, rfl, assigned, le, passed, wraps, looked⟩
  · refine .inl ⟨_, le, inside _ ((looked _).mpr ⟨le, le_rfl⟩), by omega, unassigned, ?_⟩
    intro stop above below
    have before := (passed (stop - 1) (by omega) (by omega)).2
    rwa [Nat.sub_add_cancel (by omega)] at before
  · have listed := inside last ((looked last).mpr ⟨le, le_rfl⟩)
    refine .inr ⟨?_, last + 1, by omega, listed, by omega, wraps⟩
    intro other member unassigned
    rcases requests ⟨other, member, unassigned⟩ with ⟨asked, -, same, -⟩
    rw [requested] at same
    cases same

theorem polls_of_reached (fits : context.count < 2 ^ 32) (reached : Reached random context) :
    Polls random context := by
  rw [Polls, timeout_eq fits]
  by_cases none : context.count = 0
  · rw [if_pos none]
    refine ⟨_, rfl, fun i looked => absurd looked List.not_mem_nil, ?_, fun _ => rfl⟩
    rintro ⟨i, less, -⟩
    omega
  rcases reached.resolve_left none with ⟨positive, reached⟩
  rw [if_neg none, if_neg (not_le.mpr positive)]
  generalize random.toNat % context.count = beginning at positive reached
  -- the place where the loop would end if it had not ended before
  have stops : ∃ stop, beginning ≤ stop ∧ stop ≤ beginning + (2 ^ 31 - 1 - beginning) ∧
      stop < context.count ∧ ((context.connections stop).Unassigned ∨
        stop < beginning + (2 ^ 31 - 1 - beginning) ∧
          (stop + 1) % modulus context = beginning) := by
    rcases reached with ⟨i, le, inside, small, unassigned, -⟩ |
      ⟨-, stop, above, inside, small, wraps⟩
    · exact ⟨i, le, by omega, inside, .inl unassigned⟩
    · refine ⟨stop - 1, by omega, by omega, by omega, .inr ⟨by omega, ?_⟩⟩
      rwa [Nat.sub_add_cancel (by omega)]
  rcases stops with ⟨stop, le, within, listed, stops⟩
  have before {place : ℕ} (passed : Passed context beginning beginning place) :
      place < context.count := by
    refine lt_of_le_of_lt (not_lt.mp fun beyond => ?_) listed
    rcases stops with unassigned | ⟨-, wraps⟩
    · exact (passed stop le beyond).1 unassigned
    · exact (passed stop le beyond).2 wraps
  rcases exists_timeoutLoop_eq le within stops with ⟨poll, result⟩
  rcases ends_of_timeoutLoop result with ⟨place, -, ends⟩
  refine ⟨poll, result, ?_⟩
  rcases ends.outcome with ⟨found, requested, -, unassigned, -, passed, looked⟩ |
    ⟨last, requested, -, assigned, first, passed, wraps, looked⟩
  · refine ⟨fun i member => lt_of_le_of_lt ((looked i).mp member).2 (before passed), ?_, ?_⟩
    · intro _
      exact ⟨found, before passed, requested, unassigned⟩
    · intro silent
      exact absurd unassigned (silent found (before passed))
  · refine ⟨fun i member => lt_of_le_of_lt ((looked i).mp member).2 (before passed), ?_,
      fun _ => requested⟩
    rintro ⟨other, member, pending⟩
    rcases reached with ⟨i, lower, -, -, unassigned, goes⟩ | ⟨silent, -⟩
    · rcases lt_trichotomy i last with earlier | rfl | later
      · exact absurd unassigned (passed i lower earlier).1
      · exact absurd unassigned assigned
      · exact absurd wraps (goes (last + 1) (by omega) later)
    · exact absurd pending (silent other member)

/-- In a list of less than 2 ^ 31 connections the search does not come back to its front. -/
theorem reached_iff_of_small (small : context.count < 2 ^ 31) :
    Reached random context ↔ context.count = 0 ∨ random.toNat % context.count = 0 ∨
      ∃ i, random.toNat % context.count ≤ i ∧ i < context.count ∧
        (context.connections i).Unassigned := by
  have same : modulus context = context.count := by
    have number : (BitVec.ofNat 32 context.count).toNat = context.count := by
      rw [BitVec.toNat_ofNat, Nat.mod_eq_of_lt (by omega)]
    rw [modulus, BitVec.toInt_eq_toNat_cond, number, if_pos (by omega), Int.natAbs_natCast]
  rw [Reached, same]
  by_cases none : context.count = 0
  · simp only [none, true_or]
  simp only [none, false_or]
  have less := Nat.mod_lt random.toNat (Nat.pos_of_ne_zero none)
  generalize random.toNat % context.count = beginning at less
  constructor
  · rintro ⟨-, ⟨i, le, inside, -, unassigned, -⟩ | ⟨-, stop, above, inside, -, wraps⟩⟩
    · exact .inr ⟨i, le, inside, unassigned⟩
    · rcases Nat.eq_or_lt_of_le inside with rfl | below
      · rw [Nat.mod_self] at wraps
        exact .inl wraps.symm
      · rw [Nat.mod_eq_of_lt below] at wraps
        omega
  · intro reaches
    refine ⟨by omega, ?_⟩
    by_cases some : ∃ i, beginning ≤ i ∧ i < context.count ∧ (context.connections i).Unassigned
    · rcases some with ⟨i, le, inside, unassigned⟩
      refine .inl ⟨i, le, inside, by omega, unassigned, fun stop above below => ?_⟩
      rw [Nat.mod_eq_of_lt (by omega)]
      omega
    · have front := reaches.resolve_right some
      refine .inr ⟨fun i inside unassigned => some ⟨i, by omega, inside, unassigned⟩,
        context.count, less, le_rfl, small, ?_⟩
      rw [Nat.mod_self, front]

/-- A poll is as expected exactly if the loop comes to a connection to ask before it comes to the
end of the list, or if it begins at the front. -/
theorem polls_iff (fits : context.count < 2 ^ 32) :
    (Polls random context ↔ Reached random context) ∧
      (context.count < 2 ^ 31 →
        (Polls random context ↔ context.count = 0 ∨ random.toNat % context.count = 0 ∨
          ∃ i, random.toNat % context.count ≤ i ∧ i < context.count ∧
            (context.connections i).Unassigned)) := by
  have reaches : Polls random context ↔ Reached random context :=
    ⟨reached_of_polls fits, polls_of_reached fits⟩
  exact ⟨reaches, fun small => reaches.trans (reached_iff_of_small small)⟩

/-- An outgoing connection without addresses, and one that has an address -/
def pair : Context where
  connections i :=
    if i = 0 then ⟨1, 1, 0, 0, true, 0⟩ else ⟨2, 2, 0, 0x0100000A, true, 1⟩
  count := 2
  nextConnectionNumber := 2
  addressForPublicKey _ := 0

theorem polls_pair : Polls 0 pair := by
  have reaches := (@polls_iff pair 0 (by decide)).2 (by decide)
  exact reaches.mpr (.inr (.inl rfl))

/-- A search that begins behind the only connection to poll goes on beyond the end of the list. -/
theorem poll_beyond_end : timeout 1 pair = some ⟨[1, 2], none⟩ ∧ ¬ Polls 1 pair := by
  have result : timeout 1 pair = some ⟨[1, 2], none⟩ := by decide +kernel
  refine ⟨result, ?_⟩
  rintro ⟨poll, other, inside, -⟩
  rw [result, Option.some.injEq] at other
  rw [← other] at inside
  exact absurd (inside 2 (by decide)) (by decide)

end Cjdns.IpTunnel
