import Cjdns.Crypto.CryptoAuth
import Cjdns.Library.Transition

/-!
# The authorized passwords

The array of passwords that a handshake may be made with. The entries of a user
are removed in place: the slot at the index of the count is copied over the
entry. That is one slot too far, so only the last entry is removed rightly.
-/

namespace Cjdns

namespace CryptoAuth

/-! ## The table -/

/-- The fields `passwords` and `passwordCount`. A slot that was never written is all zero; behind
the capacity the array ends and whatever memory there is follows. -/
structure PasswordTable where
  passwords : ℕ → Option Auth
  passwordCount : ℕ

abbrev passwordCapacity : ℕ := 256

abbrev addUser_INVALID_AUTHTYPE : ℤ := -1

abbrev addUser_OUT_OF_SPACE : ℤ := -2

abbrev addUser_DUPLICATE : ℤ := -3

namespace PasswordTable

/-- The entries that the loops over the table come by; a zero slot is found by none of them. -/
def entries (table : PasswordTable) : List Auth :=
  (List.range table.passwordCount).filterMap table.passwords

/-- `CryptoAuth_addUser` -/
def addUser (password : String) (authType : BitVec 8) (user : Option ℕ) (table : PasswordTable) :
    ℤ × PasswordTable :=
  if authType ≠ 1 then (addUser_INVALID_AUTHTYPE, table)
  else if table.passwordCount = passwordCapacity then (addUser_OUT_OF_SPACE, table)
  else
    let a := hashPassword password
    if table.entries.any fun entry => entry.secret = a.secret then (addUser_DUPLICATE, table)
    else
      (0, {
        passwords := Function.update table.passwords table.passwordCount
          (some { a with user := user })
        passwordCount := table.passwordCount + 1 })

/-- The user of the entry in a slot -/
def userAt (table : PasswordTable) (index : ℕ) : Option ℕ :=
  (table.passwords index).bind Auth.user

/-- The loop of `CryptoAuth_removeUsers`. In every turn the index goes up or the count goes down,
so the number of turns is the distance between them. -/
def removeLoop (uid : ℕ) : ℕ → ℕ → PasswordTable → ℕ × PasswordTable
  | 0, _, table => (0, table)
  | turns + 1, i, table =>
      if table.userAt i = some uid then
        let (count, after) := removeLoop uid turns i {
          passwords := Function.update table.passwords i (table.passwords table.passwordCount)
          passwordCount := table.passwordCount - 1 }
        (count + 1, after)
      else removeLoop uid turns (i + 1) table

/-- `CryptoAuth_removeUsers`; without an identifier it removes everybody. -/
def removeUsers (uid : Option ℕ) (table : PasswordTable) : ℕ × PasswordTable :=
  match uid with
  | none => (table.passwordCount, { table with passwordCount := 0 })
  | some uid => removeLoop uid table.passwordCount 0 table

/-- `CryptoAuth_getUser`; a user that was removed is forgotten. -/
def getUser (wrapper : Wrapper) (table : PasswordTable) : Option ℕ × Wrapper :=
  match wrapper.user with
  | none => (none, wrapper)
  | some user =>
      if table.entries.any fun entry => entry.user = some user then (some user, wrapper)
      else (none, { wrapper with user := none })

/-- What a handshake finds in the table -/
def context (base : Context) (table : PasswordTable) : Context :=
  { base with passwords := table.entries }

end PasswordTable

/-! ## The users -/

/-- A user that was added -/
structure Member where
  password : String
  user : Option ℕ
deriving DecidableEq

/-- The entry of the user -/
def Member.auth (member : Member) : Auth :=
  { hashPassword member.password with user := member.user }

/-- The member is removed with this identifier. -/
def Member.goesWith (uid : Option ℕ) (member : Member) : Bool :=
  uid.isNone || member.user == uid

/-- The table, and who was added successfully and not removed since -/
structure Roster where
  table : PasswordTable
  members : List Member

inductive RosterCall where
  | addUser (password : String) (authType : BitVec 8) (user : Option ℕ)
  | removeUsers (uid : Option ℕ)

def Roster.call (roster : Roster) : RosterCall → Roster
  | .addUser password authType user =>
      let (result, table) := roster.table.addUser password authType user
      { table := table
        members := if result = 0 then roster.members ++ [⟨password, user⟩] else roster.members }
  | .removeUsers uid => {
      table := (roster.table.removeUsers uid).2
      members := roster.members.filter fun member => !member.goesWith uid }

/-- The runs of a table that `CryptoAuth_new` has allocated -/
def rosterRuns : TransitionSystem Roster RosterCall where
  initial roster := (∀ index < passwordCapacity, roster.table.passwords index = none) ∧
    roster.table.passwordCount = 0 ∧ roster.members = []
  step before call after := after = before.call call

/-- Where a user is removed, no entry but the last one is the user's. -/
def removesLast (roster : Roster) : RosterCall → Prop
  | .removeUsers (some uid) =>
      ∀ index, index + 1 < roster.table.passwordCount → roster.table.userAt index ≠ some uid
  | .removeUsers none | .addUser _ _ _ => True

/-- The entries are those of the members, each once. -/
structure Roster.IsKept (roster : Roster) : Prop where
  count : roster.table.passwordCount = roster.members.length
  bounded : roster.members.length ≤ passwordCapacity
  passwords : ∀ index < roster.members.length,
    roster.table.passwords index = roster.members[index]?.map Member.auth
  distinct : (roster.members.map Member.password).Nodup

namespace PasswordTable

variable {roster : Roster}

/-! ## Looking up -/

theorem entries_eq (kept : roster.IsKept) :
    roster.table.entries = roster.members.map Member.auth := by
  have slots : ∀ members : List Member, ∀ passwords : ℕ → Option Auth,
      (∀ index < members.length, passwords index = members[index]?.map Member.auth) →
      (List.range members.length).filterMap passwords = members.map Member.auth := by
    intro members
    induction members with
    | nil => simp
    | cons member members ih =>
        intro passwords agree
        have first := agree 0 (by simp)
        have rest := ih (fun index => passwords (index + 1)) fun index inside =>
          agree (index + 1) (by simpa using inside)
        rw [List.length_cons, List.range_succ_eq_map, List.filterMap_cons, List.filterMap_map]
        simp only [List.getElem?_cons_zero, Option.map_some] at first
        rw [first]
        exact congrArg _ rest
  rw [entries, kept.count]
  exact slots roster.members roster.table.passwords kept.passwords

end PasswordTable

/-- The challenge names the password. -/
def AuthChallenge.Names (challenge : AuthChallenge) (password : String) : Prop :=
  challenge.type = 1 ∧ challenge.lookup = .digest (.sha256 password)

variable {roster : Roster} {base : Context} {challenge : AuthChallenge} {uid : ℕ}

theorem AuthChallenge.Names.password_eq {password other : String}
    (names : challenge.Names password) (namesOther : challenge.Names other) : password = other := by
  have same := names.2.symm.trans namesOther.2
  simpa using same

/-- A lookup finds the member whose password is named. -/
theorem find_member {members : List Member} (distinct : (members.map Member.password).Nodup)
    (auth : Auth) :
    (members.map Member.auth).find? (fun entry =>
        entry.challenge.type = challenge.type && entry.challenge.lookup = challenge.lookup) =
      some auth ↔ ∃ member ∈ members, challenge.Names member.password ∧ member.auth = auth := by
  have found : ∀ member : Member, (decide (member.auth.challenge.type = challenge.type) &&
      decide (member.auth.challenge.lookup = challenge.lookup)) = true ↔
        challenge.Names member.password := by
    intro member
    rw [Bool.and_eq_true, decide_eq_true_iff, decide_eq_true_iff]
    exact and_congr eq_comm eq_comm
  constructor
  · intro here
    have named := List.find?_some here
    rcases List.mem_map.mp (List.mem_of_find?_eq_some here) with ⟨member, mem, rfl⟩
    exact ⟨member, mem, (found member).mp named, rfl⟩
  · rintro ⟨member, mem, names, rfl⟩
    induction members with
    | nil => cases mem
    | cons first members ih =>
        rw [List.map_cons, List.nodup_cons] at distinct
        rw [List.map_cons, List.find?_cons]
        rcases List.mem_cons.mp mem with rfl | mem
        · rw [(found member).mpr names]
        · have other : ¬challenge.Names first.password := by
            intro namesFirst
            apply distinct.1
            rw [namesFirst.password_eq names]
            exact List.mem_map_of_mem mem
          rw [Bool.eq_false_iff.mpr (mt (found first).mp other)]
          exact ih distinct.2 mem

/-- A handshake finds the members, and nobody else. -/
theorem Roster.IsKept.getAuth (kept : roster.IsKept) (auth : Auth) :
    getAuth challenge (roster.table.context base) = some auth ↔
      ∃ member ∈ roster.members, challenge.Names member.password ∧ member.auth = auth := by
  rw [CryptoAuth.getAuth, PasswordTable.context, PasswordTable.entries_eq kept]
  split
  · rename_i other
    constructor
    · intro found
      cases found
    · rintro ⟨member, _, names, _⟩
      exact absurd names.1 other
  · exact find_member kept.distinct auth

/-- A session has a user as long as one of the members is that user. -/
theorem Roster.IsKept.getUser (kept : roster.IsKept) (wrapper : Wrapper) :
    (roster.table.getUser wrapper).1 = some uid ↔
      wrapper.user = some uid ∧ ∃ member ∈ roster.members, member.user = some uid := by
  rw [PasswordTable.getUser, PasswordTable.entries_eq kept]
  cases wrapper.user with
  | none => simp
  | some user =>
      have present : ((roster.members.map Member.auth).any fun entry => entry.user = some user) =
          roster.members.any fun member => member.user = some user := by
        rw [List.any_map]
        rfl
      simp only [present]
      split_ifs with mine
      · rw [List.any_eq_true] at mine
        simp only [decide_eq_true_eq] at mine
        simp only [Option.some.injEq]
        constructor
        · rintro rfl
          exact ⟨rfl, mine⟩
        · exact And.left
      · rw [Bool.not_eq_true, List.any_eq_false] at mine
        simp only [Option.some.injEq, false_iff, not_and, not_exists]
        rintro rfl member mem
        simpa using mine member mem

/-! ## Adding and removing -/

/-- A user is turned down, or is new and gets the next slot. -/
theorem Roster.IsKept.addUser_cases (kept : roster.IsKept) (password : String)
    (authType : BitVec 8) (user : Option ℕ) :
    (∃ code ≠ 0, roster.table.addUser password authType user = (code, roster.table)) ∨
      roster.members.length < passwordCapacity ∧
      password ∉ roster.members.map Member.password ∧
      roster.table.addUser password authType user = (0, {
        passwords := Function.update roster.table.passwords roster.members.length
          (some (Member.auth ⟨password, user⟩))
        passwordCount := roster.members.length + 1 }) := by
  have bounded := kept.bounded
  rw [PasswordTable.addUser, PasswordTable.entries_eq kept, kept.count]
  split
  · exact .inl ⟨_, by decide, rfl⟩
  split
  · exact .inl ⟨_, by decide, rfl⟩
  rename_i space
  dsimp only
  split
  · exact .inl ⟨_, by decide, rfl⟩
  rename_i new
  refine .inr ⟨by omega, ?_, rfl⟩
  intro mem
  rcases List.mem_map.mp mem with ⟨member, present, rfl⟩
  apply new
  rw [List.any_eq_true]
  exact ⟨member.auth, List.mem_map_of_mem present, decide_eq_true rfl⟩

theorem Roster.IsKept.addUser (kept : roster.IsKept) (password : String) (authType : BitVec 8)
    (user : Option ℕ) : (roster.call (.addUser password authType user)).IsKept := by
  rw [Roster.call]
  rcases kept.addUser_cases password authType user with ⟨code, failed, same⟩ | ⟨space, new, same⟩
  · simp only [same, if_neg failed]
    exact kept
  · simp only [same, if_true]
    constructor
    · simp
    · simpa using space
    · intro index inside
      simp only [List.length_append, List.length_singleton] at inside
      by_cases final : index = roster.members.length
      · simp [final]
      · simp only [Function.update_of_ne final]
        rw [List.getElem?_append_left (by omega)]
        exact kept.passwords index (by omega)
    · rw [List.map_append]
      exact kept.distinct.append (List.nodup_singleton _) (by simpa using new)

namespace PasswordTable

/-- If no entry but the last one is the user's, the loop drops the last one or nothing. -/
theorem removeLoop_last (uid turns i : ℕ) (table : PasswordTable)
    (remaining : i + turns = table.passwordCount)
    (last : ∀ index, index + 1 < table.passwordCount → table.userAt index ≠ some uid) :
    removeLoop uid turns i table =
      if 0 < turns ∧ table.userAt (table.passwordCount - 1) = some uid then
        (1, {
          passwords := Function.update table.passwords (table.passwordCount - 1)
            (table.passwords table.passwordCount)
          passwordCount := table.passwordCount - 1 })
      else (0, table) := by
  induction turns generalizing i with
  | zero => rfl
  | succ turns ih =>
      rw [removeLoop]
      by_cases final : turns = 0
      · subst final
        have here : i = table.passwordCount - 1 := by omega
        simp [removeLoop, here]
      · rw [if_neg (last i (by omega)), ih (i + 1) (by omega)]
        simp [Nat.pos_of_ne_zero final]

end PasswordTable

theorem Roster.IsKept.userAt (kept : roster.IsKept) {index : ℕ}
    (inside : index < roster.members.length) :
    roster.table.userAt index = roster.members[index].user := by
  rw [PasswordTable.userAt, kept.passwords index inside, List.getElem?_eq_getElem inside]
  rfl

/-- Where only the last entry may be the user's, the others stay. -/
theorem Roster.IsKept.others_stay (kept : roster.IsKept)
    (last : removesLast roster (.removeUsers (some uid))) {front : List Member} {final : Member}
    (members : roster.members = front ++ [final]) :
    ∀ member ∈ front, member.goesWith (some uid) = false := by
  intro member mem
  rcases List.mem_iff_getElem.mp mem with ⟨index, inside, rfl⟩
  have before : index < roster.members.length := by
    rw [members, List.length_append]
    omega
  have other := last index (by
    rw [kept.count, members, List.length_append, List.length_singleton]
    omega)
  rw [kept.userAt before] at other
  simp only [members, List.getElem_append_left inside] at other
  simpa [Member.goesWith] using other

/-- The table without the last entry -/
theorem Roster.IsKept.dropLast (kept : roster.IsKept) {front : List Member} {final : Member}
    (members : roster.members = front ++ [final]) (stale : Option Auth) :
    Roster.IsKept {
      table := {
        passwords := Function.update roster.table.passwords front.length stale
        passwordCount := front.length }
      members := front } where
  count := rfl
  bounded := by
    have bounded := kept.bounded
    rw [members, List.length_append] at bounded
    exact (Nat.le_add_right _ _).trans bounded
  passwords := by
    intro index inside
    have before : index < front.length := inside
    have slot := kept.passwords index (by rw [members, List.length_append]; omega)
    rw [members, List.getElem?_append_left inside] at slot
    simp only [Function.update_of_ne inside.ne]
    exact slot
  distinct := by
    have distinct := kept.distinct
    rw [members, List.map_append] at distinct
    exact distinct.of_append_left

/-- Removing the last entry of the table removes the last member. -/
theorem Roster.IsKept.removeUsers (kept : roster.IsKept) (uid : Option ℕ)
    (last : removesLast roster (.removeUsers uid)) :
    (roster.call (.removeUsers uid)).IsKept ∧
      (roster.table.removeUsers uid).1 =
        (roster.members.filter fun member => member.goesWith uid).length := by
  cases uid with
  | none =>
      have everybody : ∀ member : Member, member.goesWith none = true := fun _ => rfl
      simp only [Roster.call, PasswordTable.removeUsers, everybody, kept.count]
      refine ⟨⟨?_, ?_, ?_, ?_⟩, ?_⟩ <;> simp
  | some uid =>
      have loop := PasswordTable.removeLoop_last uid roster.table.passwordCount 0
        roster.table (by omega) last
      simp only [Roster.call, PasswordTable.removeUsers, loop]
      rcases List.eq_nil_or_concat' roster.members with nobody | ⟨front, final, members⟩
      · have count := kept.count
        rw [nobody] at count
        simp only [count, nobody]
        refine ⟨⟨?_, ?_, ?_, ?_⟩, ?_⟩ <;> simp [kept.count, nobody]
      · have others := kept.others_stay last members
        have stay : (front.filter fun member => !member.goesWith (some uid)) = front := by
          rw [List.filter_eq_self]
          intro member mem
          rw [others member mem, Bool.not_false]
        have gone : (front.filter fun member => member.goesWith (some uid)) = [] := by
          rw [List.filter_eq_nil_iff]
          intro member mem
          rw [others member mem]
          exact Bool.false_ne_true
        have count : roster.table.passwordCount = front.length + 1 := by
          rw [kept.count, members, List.length_append, List.length_singleton]
        have user : roster.table.userAt front.length = final.user := by
          rw [kept.userAt (by rw [members, List.length_append]; simp)]
          simp [members]
        rw [members, List.filter_append, List.filter_append, stay, gone, count]
        simp only [Nat.add_sub_cancel, Nat.succ_pos, true_and, user]
        by_cases mine : final.user = some uid
        · have goes : final.goesWith (some uid) = true := by simp [Member.goesWith, mine]
          simp only [if_pos mine, List.filter_cons, goes, List.filter_nil]
          refine ⟨?_, rfl⟩
          simpa using kept.dropLast members _
        · have keeps : final.goesWith (some uid) = false := by simp [Member.goesWith, mine]
          simp only [if_neg mine, List.filter_cons, keeps, List.filter_nil]
          refine ⟨?_, rfl⟩
          simpa [← members] using kept

/-- A table as it is allocated -/
def newRoster : Roster where
  table := { passwords := fun _ => none, passwordCount := 0 }
  members := []

theorem newRoster_reachable (guard : Roster → RosterCall → Prop) :
    rosterRuns.Reachable guard newRoster :=
  .initial ⟨fun _ _ => rfl, rfl, rfl⟩

def keyless : Context where
  privateKey := .zero
  passwords := []
  resetAfterInactivitySeconds := 60

/-- Two users in the table -/
def pair : Roster :=
  (newRoster.call (.addUser "alice" 1 (some 1))).call (.addUser "bob" 1 (some 2))

theorem pair_reachable (guard : Roster → RosterCall → Prop)
    (adds : ∀ roster password authType user, guard roster (.addUser password authType user)) :
    rosterRuns.Reachable guard pair :=
  .step (.step (newRoster_reachable guard) (adds _ _ _ _) rfl) (adds _ _ _ _) rfl

end CryptoAuth

end Cjdns
