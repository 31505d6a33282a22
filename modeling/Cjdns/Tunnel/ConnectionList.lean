import Cjdns.Tunnel.IpTunnel

/-!
# The order of the connection list

`newConnection` makes room for an incoming connection by moving a hole down the list, from one
incoming entry to the next. The connections are all kept (`entries_runAll_perm`). A hole that comes
to an incoming entry goes below the outgoing ones; where there is none, it stays where it is, behind
them all.
-/

namespace Cjdns.IpTunnel

/-- A call of `IpTunnel_allowConnection` or `IpTunnel_connectTo` -/
inductive Call where
  | allow (key : BitVec 256) (ip6 : Option (BitVec 128)) (ip4 : Option (BitVec 32))
  | connect (key : BitVec 256)

namespace Call

def isOutgoing : Call → Bool
  | allow _ _ _ => false
  | connect _ => true

def run : Call → Context → Context
  | allow key ip6 ip4, context => allowConnection key ip6 ip4 context
  | connect key, context => connectTo key context

/-- The connection that the call is to make -/
def connection (context : Context) : Call → Connection
  | allow key ip6 ip4 =>
      ⟨context.addressForPublicKey key, key, ip6.getD 0, ip4.getD 0, false,
        context.nextConnectionNumber⟩
  | connect key =>
      ⟨context.addressForPublicKey key, key, 0, 0, true, context.nextConnectionNumber⟩

theorem isOutgoing_connection (context : Context) (call : Call) :
    (call.connection context).isOutgoing = call.isOutgoing := by
  cases call <;> rfl

theorem number_connection (context : Context) (call : Call) :
    (call.connection context).number = context.nextConnectionNumber := by
  cases call <;> rfl

end Call

/-- The connections of the list, in order -/
def Context.entries (context : Context) : List Connection :=
  (List.range context.count).map context.connections

/-- The incoming connections precede the outgoing ones. -/
def Context.IsOrdered (context : Context) : Prop :=
  ∀ i j, i < j → j < context.count → (context.connections i).isOutgoing = true →
    (context.connections j).isOutgoing = true

def runAll (calls : List Call) (context : Context) : Context :=
  calls.foldl (fun context call => call.run context) context

/-- The connections that the calls are to make, one after the other -/
def created : List Call → Context → List Connection
  | [], _ => []
  | call :: calls, context => call.connection context :: created calls (call.run context)

/-- What is expected of a list after some calls -/
structure ListsAll (calls : List Call) (context : Context) : Prop where
  entries : (runAll calls context).entries.Perm (created calls context)
  numbers : ((runAll calls context).entries.map (·.number)).Nodup
  ordered : (runAll calls context).IsOrdered

/-! ## The hole -/

/-- The place of the new connection, where the hole is in the end -/
def room (isOutgoing : Bool) (context : Context) : (ℕ → Connection) × ℕ :=
  if ¬isOutgoing then makeRoomLoop context.count context.connections context.count
  else (context.connections, context.count)

/-- A call puts its connection where the hole is. -/
theorem run_eq (call : Call) (context : Context) :
    call.run context = { context with
      connections := Function.update (room call.isOutgoing context).1
        (room call.isOutgoing context).2 (call.connection context)
      count := context.count + 1
      nextConnectionNumber := context.nextConnectionNumber + 1 } := by
  cases call with
  | allow key ip6 ip4 =>
      simp only [Call.run, allowConnection, newConnection, Function.update_self,
        Function.update_idem]
      rfl
  | connect key =>
      simp only [Call.run, connectTo, newConnection, Function.update_self, Function.update_idem]
      rfl

/-- Two places that change their contents -/
theorem map_swap_perm {α : Type*} (values : ℕ → α) {first second count : ℕ}
    (one : first < count) (two : second < count) :
    ((List.range count).map (values ∘ Equiv.swap first second)).Perm
      ((List.range count).map values) := by
  rw [← List.map_map]
  refine List.Perm.map values ?_
  rw [List.perm_ext_iff_of_nodup (List.nodup_range.map (Equiv.injective _)) List.nodup_range]
  intro place
  simp only [List.mem_map, List.mem_range]
  constructor
  · rintro ⟨other, inside, rfl⟩
    rw [Equiv.swap_apply_def]
    split_ifs
    · exact two
    · exact one
    · exact inside
  · intro inside
    refine ⟨Equiv.swap first second place, ?_, Equiv.swap_apply_self _ _ _⟩
    rw [Equiv.swap_apply_def]
    split_ifs
    · exact two
    · exact one
    · exact inside

/-- Moving an entry into the hole is changing it with what comes there in the end. -/
theorem update_move (connections : ℕ → Connection) {hole place : ℕ} (apart : hole ≠ place)
    (new : Connection) :
    Function.update (Function.update connections hole (connections place)) place new =
      Function.update connections hole new ∘ Equiv.swap hole place := by
  funext index
  rw [Function.comp_apply, Equiv.swap_apply_def]
  split_ifs with atHole atPlace
  · rw [atHole, Function.update_of_ne apart, Function.update_self, Function.update_of_ne apart.symm]
  · rw [atPlace, Function.update_self, Function.update_self]
  · rw [Function.update_of_ne atPlace, Function.update_of_ne atHole, Function.update_of_ne atHole]

/-- The loop keeps what is there beside the hole. -/
theorem makeRoomLoop_perm {count rounds hole : ℕ} {connections : ℕ → Connection}
    (new : Connection) (few : rounds ≤ count) (inside : hole ≤ count) :
    (makeRoomLoop rounds connections hole).2 ≤ count ∧
      ((List.range (count + 1)).map (Function.update (makeRoomLoop rounds connections hole).1
        (makeRoomLoop rounds connections hole).2 new)).Perm
        ((List.range (count + 1)).map (Function.update connections hole new)) := by
  induction rounds generalizing connections hole with
  | zero => exact ⟨inside, List.Perm.refl _⟩
  | succ i ih =>
      rw [makeRoomLoop]
      split_ifs with moves
      · rcases @ih (i + 1) (Function.update connections hole (connections (i + 1))) (by omega) few
          with ⟨bound, perm⟩
        refine ⟨bound, perm.trans ?_⟩
        rw [update_move connections moves.2]
        exact map_swap_perm _ (by omega) (by omega)
      · exact ih (by omega) inside

theorem room_perm (isOutgoing : Bool) (context : Context) (new : Connection) :
    ((List.range (context.count + 1)).map (Function.update (room isOutgoing context).1
      (room isOutgoing context).2 new)).Perm (new :: context.entries) := by
  have behind : ((List.range (context.count + 1)).map
      (Function.update context.connections context.count new)).Perm (new :: context.entries) := by
    have same : (List.range context.count).map
        (Function.update context.connections context.count new) = context.entries := by
      refine List.map_congr_left fun index inside => ?_
      exact Function.update_of_ne (List.mem_range.mp inside).ne _ _
    rw [List.range_succ, List.map_append, same, List.map_singleton, Function.update_self]
    exact List.perm_append_singleton _ _
  rw [room]
  split_ifs
  · exact behind
  · exact (makeRoomLoop_perm new le_rfl le_rfl).2.trans behind

/-- No connection is lost, and the new one is there once. -/
theorem entries_run_perm (call : Call) (context : Context) :
    (call.run context).entries.Perm (call.connection context :: context.entries) := by
  rw [run_eq]
  exact room_perm _ context _

/-! ## The order -/

/-- The entries in front of a place are incoming, and those behind it are outgoing. -/
def Splits (bound count : ℕ) (connections : ℕ → Connection) : Prop :=
  ∀ index, index < count → (connections index).isOutgoing = decide (bound ≤ index)

/-- So it is with the hole among the incoming ones, which is not looked at. -/
def SplitsAround (hole bound count : ℕ) (connections : ℕ → Connection) : Prop :=
  ∀ index, index ≤ count → index ≠ hole →
    (connections index).isOutgoing = decide (bound < index)

/-- From one incoming entry to the next, the hole stays among them. -/
theorem makeRoomLoop_incoming {bound count rounds hole : ℕ} {connections : ℕ → Connection}
    (inside : bound ≤ count) (low : hole ≤ bound) (front : rounds < hole)
    (splits : SplitsAround hole bound count connections) :
    (makeRoomLoop rounds connections hole).2 ≤ bound ∧
      SplitsAround (makeRoomLoop rounds connections hole).2 bound count
        (makeRoomLoop rounds connections hole).1 := by
  induction rounds generalizing connections hole with
  | zero => exact ⟨low, splits⟩
  | succ i ih =>
      have incoming (index : ℕ) (before : index < hole) :
          (connections index).isOutgoing = false := by
        rw [splits index (by omega) before.ne, decide_eq_false_iff_not]
        omega
      have moves : ¬(connections i).isOutgoing = true ∧ hole ≠ i + 1 := by
        rw [incoming i (by omega)]
        exact ⟨Bool.false_ne_true, front.ne'⟩
      rw [makeRoomLoop, if_pos moves]
      refine ih (by omega) (Nat.lt_succ_self i) fun index known apart => ?_
      by_cases filled : index = hole
      · rw [filled, Function.update_self, incoming (i + 1) front, eq_comm,
          decide_eq_false_iff_not]
        omega
      · rw [Function.update_of_ne filled]
        exact splits index known filled

/-- The loop passes the outgoing entries, and the hole goes below them. -/
theorem makeRoomLoop_splits {bound count rounds : ℕ} {connections : ℕ → Connection}
    (some : 0 < bound) (inside : bound ≤ count) (low : bound ≤ rounds) (few : rounds ≤ count)
    (splits : Splits bound count connections) :
    (makeRoomLoop rounds connections count).2 ≤ bound ∧
      SplitsAround (makeRoomLoop rounds connections count).2 bound count
        (makeRoomLoop rounds connections count).1 := by
  induction rounds with
  | zero => omega
  | succ i ih =>
      rw [makeRoomLoop]
      by_cases outgoing : bound ≤ i
      · have stays : ¬(¬(connections i).isOutgoing = true ∧ count ≠ i + 1) := by
          rintro ⟨incoming, -⟩
          rw [splits i few] at incoming
          exact incoming (decide_eq_true outgoing)
        rw [if_neg stays]
        exact ih outgoing (by omega)
      · have last : i + 1 = bound := by omega
        have incoming : ¬(connections i).isOutgoing = true := by
          rw [splits i few, decide_eq_true_eq]
          exact outgoing
        by_cases full : count = i + 1
        · rw [if_neg fun moves => moves.2 full]
          refine makeRoomLoop_incoming inside (by omega) (by omega) fun index known apart => ?_
          rw [splits index (by omega), decide_eq_decide]
          omega
        · rw [if_pos ⟨incoming, full⟩, last]
          refine makeRoomLoop_incoming inside le_rfl (by omega) fun index known apart => ?_
          by_cases filled : index = count
          · rw [filled, Function.update_self, splits bound (by omega), decide_eq_decide]
            omega
          · rw [Function.update_of_ne filled, splits index (by omega), decide_eq_decide]
            omega

/-- An incoming connection that is new among others that are incoming -/
theorem splits_run_allow {bound : ℕ} {context : Context} {call : Call}
    (allows : call.isOutgoing = false) (some : 0 < bound ∨ context.count = 0)
    (inside : bound ≤ context.count) (splits : Splits bound context.count context.connections) :
    Splits (bound + 1) (call.run context).count (call.run context).connections := by
  have around : (room false context).2 ≤ bound ∧
      SplitsAround (room false context).2 bound context.count (room false context).1 := by
    rw [room, if_pos Bool.false_ne_true]
    rcases some with some | none
    · exact makeRoomLoop_splits some inside inside le_rfl splits
    · rw [none]
      refine ⟨Nat.zero_le _, fun index known apart => ?_⟩
      exact absurd (Nat.le_zero.mp known) apart
  rw [run_eq, allows]
  intro index known
  dsimp only at known ⊢
  by_cases here : index = (room false context).2
  · rw [here, Function.update_self, Call.isOutgoing_connection, allows, eq_comm,
      decide_eq_false_iff_not]
    omega
  · rw [Function.update_of_ne here]
    exact around.2 index (by omega) here

/-- An outgoing connection is the last one. -/
theorem splits_run_connect {bound : ℕ} {context : Context} {call : Call}
    (connects : call.isOutgoing = true) (inside : bound ≤ context.count)
    (splits : Splits bound context.count context.connections) :
    Splits bound (call.run context).count (call.run context).connections := by
  rw [run_eq, connects, room, if_neg (by simp)]
  intro index known
  dsimp only at known ⊢
  by_cases here : index = context.count
  · rw [here, Function.update_self, Call.isOutgoing_connection, connects, eq_comm,
      decide_eq_true_eq]
    exact inside
  · rw [Function.update_of_ne here]
    exact splits index (by omega)

theorem isOrdered_of_splits {bound : ℕ} {context : Context}
    (splits : Splits bound context.count context.connections) : context.IsOrdered := by
  intro i j before known outgoing
  rw [splits i (by omega), decide_eq_true_eq] at outgoing
  rw [splits j known, decide_eq_true_eq]
  omega

/-- The first entry stays the first one as long as it is outgoing. -/
theorem makeRoomLoop_zero {rounds hole : ℕ} {connections : ℕ → Connection} (some : 0 < hole) :
    0 < (makeRoomLoop rounds connections hole).2 ∧
      (makeRoomLoop rounds connections hole).1 0 = connections 0 := by
  induction rounds generalizing connections hole with
  | zero => exact ⟨some, rfl⟩
  | succ i ih =>
      rw [makeRoomLoop]
      split_ifs with moves
      · have later := @ih (i + 1) (Function.update connections hole (connections (i + 1)))
          (Nat.succ_pos i)
        rw [Function.update_of_ne some.ne] at later
        exact later
      · exact ih some

theorem connections_run_zero {call : Call} {context : Context} (some : 0 < context.count) :
    (call.run context).connections 0 = context.connections 0 := by
  have place : 0 < (room call.isOutgoing context).2 ∧
      (room call.isOutgoing context).1 0 = context.connections 0 := by
    rw [room]
    split_ifs
    · exact ⟨some, rfl⟩
    · exact makeRoomLoop_zero some
  rw [run_eq]
  dsimp only
  rw [Function.update_of_ne place.1.ne, place.2]

/-! ## Runs -/

theorem count_run (call : Call) (context : Context) :
    (call.run context).count = context.count + 1 := by
  rw [run_eq]

theorem entries_runAll_perm (calls : List Call) (context : Context) :
    (runAll calls context).entries.Perm (context.entries ++ created calls context) := by
  induction calls generalizing context with
  | nil => simp [runAll, created]
  | cons call calls ih =>
      have step := (entries_run_perm call context).append_right (created calls (call.run context))
      refine (ih (call.run context)).trans (step.trans ?_)
      rw [created, List.cons_append]
      exact List.perm_middle.symm

/-- The numbers of what is created go up. -/
theorem numbers_created (calls : List Call) (context : Context) :
    (created calls context).map (·.number) =
      List.range' context.nextConnectionNumber calls.length := by
  induction calls generalizing context with
  | nil => rfl
  | cons call calls ih =>
      have next : (call.run context).nextConnectionNumber = context.nextConnectionNumber + 1 := by
        rw [run_eq]
      rw [created, List.map_cons, ih, next, Call.number_connection, List.length_cons,
        List.range'_succ]

theorem runAll_cons (call : Call) (calls : List Call) (context : Context) :
    runAll (call :: calls) context = runAll calls (call.run context) :=
  rfl

/-- A list of the incoming and the outgoing ones stays one if there are incoming ones. -/
theorem splits_runAll {bound : ℕ} {calls : List Call} {context : Context} (some : 0 < bound)
    (inside : bound ≤ context.count) (splits : Splits bound context.count context.connections) :
    (runAll calls context).IsOrdered := by
  induction calls generalizing bound context with
  | nil => exact isOrdered_of_splits splits
  | cons call calls ih =>
      have count := count_run call context
      rw [runAll_cons]
      cases connects : call.isOutgoing with
      | false =>
          exact ih (Nat.succ_pos bound) (by omega)
            (splits_run_allow connects (.inl some) inside splits)
      | true => exact ih some (by omega) (splits_run_connect connects inside splits)

theorem splits_runAll_connect {calls : List Call} {context : Context}
    (connect : ∀ call ∈ calls, call.isOutgoing = true)
    (splits : Splits 0 context.count context.connections) :
    (runAll calls context).IsOrdered := by
  induction calls generalizing context with
  | nil => exact isOrdered_of_splits splits
  | cons call calls ih =>
      rw [runAll_cons]
      exact ih (fun other inside => connect other (List.mem_cons_of_mem _ inside))
        (splits_run_connect (connect call List.mem_cons_self) (Nat.zero_le _) splits)

theorem connections_runAll_zero {calls : List Call} {context : Context}
    (some : 0 < context.count) :
    (runAll calls context).connections 0 = context.connections 0 := by
  induction calls generalizing context with
  | nil => rfl
  | cons call calls ih =>
      have count := count_run call context
      have later := @ih (call.run context) (by omega)
      rw [connections_run_zero some] at later
      exact later

theorem exists_created {calls : List Call} {context : Context} {call : Call}
    (inside : call ∈ calls) :
    ∃ connection ∈ created calls context, connection.isOutgoing = call.isOutgoing := by
  induction calls generalizing context with
  | nil => cases inside
  | cons first calls ih =>
      rcases List.mem_cons.mp inside with rfl | later
      · exact ⟨_, List.mem_cons_self, Call.isOutgoing_connection context call⟩
      · rcases @ih (first.run context) later with ⟨connection, known, same⟩
        exact ⟨connection, List.mem_cons_of_mem _ known, same⟩

/-- Behind an outgoing first entry, an incoming one is out of order. -/
theorem not_isOrdered {calls : List Call} {context : Context} {call : Call}
    (some : 0 < context.count) (outgoing : (context.connections 0).isOutgoing = true)
    (inside : call ∈ calls) (allows : call.isOutgoing = false) :
    ¬(runAll calls context).IsOrdered := by
  intro ordered
  rcases @exists_created calls context call inside with ⟨connection, known, incoming⟩
  have listed := (entries_runAll_perm calls context).mem_iff.mpr (List.mem_append_right _ known)
  rw [Context.entries, List.mem_map] at listed
  rcases listed with ⟨place, bound, rfl⟩
  rw [List.mem_range] at bound
  have first := @connections_runAll_zero calls context some
  rw [allows] at incoming
  rcases Nat.eq_zero_or_pos place with rfl | behind
  · rw [first, outgoing] at incoming
    cases incoming
  · rw [← first] at outgoing
    rw [ordered 0 place behind bound outgoing] at incoming
    cases incoming

/-- `IpTunnel_new`, with what is in the memory and how an address is computed -/
def new (connections : ℕ → Connection) (addressForPublicKey : BitVec 256 → BitVec 128) :
    Context where
  connections := connections
  count := 0
  nextConnectionNumber := 0
  addressForPublicKey := addressForPublicKey

/--
The list is as it should be exactly if no connection is incoming or the first one is. The
program ends itself before a number is given again.
-/
theorem listsAll_iff (memory : ℕ → Connection) (addressForPublicKey : BitVec 256 → BitVec 128)
    (calls : List Call) :
    ListsAll calls (new memory addressForPublicKey) ↔
      (∀ call ∈ calls, call.isOutgoing = true) ∨
        ∀ first ∈ calls.head?, first.isOutgoing = false := by
  constructor
  · intro lists
    by_contra neither
    rw [not_or] at neither
    rcases neither with ⟨some, front⟩
    cases calls with
    | nil => exact some fun call inside => by cases inside
    | cons first calls =>
        have connects : first.isOutgoing = true := by
          simpa using front
        have allow : ∃ call ∈ calls, call.isOutgoing = false := by
          by_contra none
          refine some fun call inside => ?_
          rcases List.mem_cons.mp inside with rfl | later
          · exact connects
          · by_contra incoming
            exact none ⟨call, later, Bool.eq_false_iff.mpr incoming⟩
        rcases allow with ⟨call, inside, allows⟩
        have ordered := lists.ordered
        rw [runAll_cons] at ordered
        refine not_isOrdered ?_ ?_ inside allows ordered
        · rw [count_run]
          exact Nat.succ_pos _
        · have place : (first.run (new memory addressForPublicKey)).connections 0 =
              first.connection (new memory addressForPublicKey) := by
            have hole : room true (new memory addressForPublicKey) = (memory, 0) := by
              simp [room, new]
            rw [run_eq, connects, hole]
            exact Function.update_self 0 (first.connection (new memory addressForPublicKey)) memory
          rw [place, Call.isOutgoing_connection, connects]
  · intro fine
    have perm := entries_runAll_perm calls (new memory addressForPublicKey)
    have numbers := perm.map (·.number)
    have empty : (new memory addressForPublicKey).entries = [] := rfl
    rw [empty, List.nil_append] at perm numbers
    rw [numbers_created] at numbers
    refine ⟨perm, numbers.nodup_iff.mpr List.nodup_range', ?_⟩
    have start (bound : ℕ) : Splits bound (new memory addressForPublicKey).count
        (new memory addressForPublicKey).connections :=
      fun index known => absurd known (Nat.not_lt_zero index)
    rcases fine with connect | allow
    · exact splits_runAll_connect connect (start 0)
    · cases calls with
      | nil => exact isOrdered_of_splits (start 0)
      | cons first calls =>
          have allows := allow first rfl
          rw [runAll_cons]
          refine splits_runAll (Nat.succ_pos 0) ?_
            (splits_run_allow allows (.inr rfl) le_rfl (start 0))
          rw [count_run]
          exact le_rfl

/-- A node is allowed to connect after the first connection to another one. -/
theorem incoming_behind_outgoing :
    ¬ListsAll [.connect 1, .allow 2 none none]
      (new (fun _ => ⟨0, 0, 0, 0, false, 0⟩) fun key => key.setWidth 128) := by
  intro lists
  exact absurd (lists.ordered 0 1 (by decide) (by decide)) (by decide)

end Cjdns.IpTunnel
