import Cjdns.Benc.Object
import Cjdns.Library.Transition

/-!
# Admin sessions

A client that has sent an authenticated request may be sent messages later on, as long as
it goes on sending requests. `Admin_sendMessage` looks that up unless a request is being
handled. It does not ask whether the message is an answer to that request.

The clock stands still while a request is handled: it is read once in a turn of the event
loop.
-/

namespace Cjdns

/-- `TIMEOUT_MILLISECONDS` -/
abbrev Admin.TIMEOUT_MILLISECONDS : BitVec 64 := 30000

/-- `INT64_MAX` -/
abbrev Admin.INT64_MAX : BitVec 64 := 0x7FFFFFFFFFFFFFFF

/-- `struct Admin`, with what the sessions need -/
structure Admin where
  addrLen : ℕ
  /-- The times of the last messages by address -/
  map : BString → Option (BitVec 64)
  inRequest : Bool
  asyncEnabled : Bool

namespace Admin

/-- The key `txid` -/
abbrev TXID : BString := [0x74, 0x78, 0x69, 0x64]

/-- The test in `checkAddress`; the second part checks for backwards time. -/
def isExpired (now timeOfLastMessage : BitVec 64) : Bool :=
  let diff := now - timeOfLastMessage
  decide (diff > TIMEOUT_MILLISECONDS) && decide (diff < INT64_MAX)

/-- What `checkAddress` leaves of the table where the entry has expired -/
def removeAddress (addr : BString) (admin : Admin) : Admin :=
  { admin with map := Function.update admin.map addr none }

/-- `clearExpiredAddresses` -/
def clearExpiredAddresses (now : BitVec 64) (admin : Admin) : Admin :=
  { admin with map := fun addr => (admin.map addr).filter fun time => !isExpired now time }

/-- What `Admin_sendMessage` leaves behind -/
structure Sent where
  admin : Admin
  /-- The address and the message that are handed to the interface; otherwise the call fails. -/
  delivered : Option (BString × Dict)

/-- The end of `Admin_sendMessage`, which bounces back the user-supplied transaction id -/
def deliver (message : Dict) (txid : BString) (admin : Admin) : Sent :=
  let userTxid := txid.drop admin.addrLen
  { admin := admin
    delivered := some (txid.take admin.addrLen,
      if txid.length > admin.addrLen then message.putObject TXID (.string userTxid)
      else message) }

/-- `Admin_sendMessage` -/
def sendMessage (now : BitVec 64) (message : Dict) (txid : BString) (admin : Admin) : Sent :=
  if admin.inRequest then admin.deliver message txid
  else
    match admin.map (txid.take admin.addrLen) with
    | none => { admin := admin, delivered := none }
    | some time =>
        if isExpired now time then
          { admin := admin.removeAddress (txid.take admin.addrLen), delivered := none }
        else admin.deliver message txid

/-- The part of `handleRequest` that tracks the address of a request that has not failed -/
def track (now : BitVec 64) (src : BString) (authed : Bool) (admin : Admin) : Admin :=
  if (admin.map src).isSome || authed then
    { admin with map := Function.update admin.map src (some now), asyncEnabled := true }
  else { admin with asyncEnabled := false }

/-! ## Runs -/

/-- The admin with what has happened so far -/
structure Session where
  admin : Admin
  /-- Milliseconds, of which the program has the low 64 bits -/
  clock : ℕ
  /-- The address of the request that is being handled -/
  handling : Option BString
  received : List (BString × ℕ)
  authenticated : List BString

inductive Event where
  | advance (milliseconds : ℕ)
  | receive (src : BString)
  /-- The request gets past the check of its authentication, if it has any. -/
  | track (authed : Bool)
  | send (message : Dict) (txid : BString)
  | finish
  | clearExpired

namespace Session

def now (session : Session) : BitVec 64 :=
  BitVec.ofNat 64 session.clock

def step (session : Session) : Event → Option Session
  | .advance milliseconds =>
      if session.handling = none then
        some { session with clock := session.clock + milliseconds }
      else none
  | .receive src =>
      if session.handling = none then
        some { session with
          admin := { session.admin with inRequest := true }
          handling := some src
          received := (src, session.clock) :: session.received }
      else none
  | .track authed =>
      session.handling.map fun src =>
        { session with
          admin := session.admin.track session.now src authed
          authenticated := if authed then src :: session.authenticated else session.authenticated }
  | .send message txid =>
      some { session with admin := (session.admin.sendMessage session.now message txid).admin }
  | .finish =>
      some { session with admin := { session.admin with inRequest := false }, handling := none }
  | .clearExpired =>
      some { session with admin := session.admin.clearExpiredAddresses session.now }

/-- An authenticated client of which a request was received in time -/
def Eligible (addr : BString) (session : Session) : Prop :=
  addr ∈ session.authenticated ∧ ∃ time, (addr, time) ∈ session.received ∧
    session.clock - time ≤ TIMEOUT_MILLISECONDS.toNat

/-- What a call sends goes to the client whose request is handled, or to an eligible one. -/
def OnlyEligible (session : Session) (message : Dict) (txid : BString) : Prop :=
  ∀ sent ∈ (session.admin.sendMessage session.now message txid).delivered,
    session.handling = some sent.1 ∨ Eligible sent.1 session

/-- The client is in the table, and it has not expired there. -/
def Live (addr : BString) (session : Session) : Prop :=
  ∃ time ∈ session.admin.map addr, isExpired session.now time = false

/-- While a request is handled, nothing is sent but to its client and to live ones, and the clock
stays below `INT64_MAX`. -/
def Attentive (session : Session) : Event → Prop
  | .send _ txid =>
      ∀ src ∈ session.handling, txid.take session.admin.addrLen = src ∨
        Live (txid.take session.admin.addrLen) session
  | .advance milliseconds => session.clock + milliseconds < INT64_MAX.toNat
  | .receive _ => True
  | .track _ => True
  | .finish => True
  | .clearExpired => True

end Session

/-- Requests, messages, expiry and time in any order -/
def sessions : TransitionSystem Session Event where
  initial session := ∃ addrLen, session =
    { admin := { addrLen := addrLen, map := fun _ => none, inRequest := false, asyncEnabled := false }
      clock := 0
      handling := none
      received := []
      authenticated := [] }
  step session event after := session.step event = some after

/-! ## The table -/

namespace Session

/-- What holds in every run -/
structure Accounted (session : Session) : Prop where
  bounded : session.clock < INT64_MAX.toNat
  inRequest_eq : session.admin.inRequest = session.handling.isSome
  current : ∀ src ∈ session.handling, (src, session.clock) ∈ session.received
  past : ∀ request ∈ session.received, request.2 ≤ session.clock
  table : ∀ addr, ∀ time ∈ session.admin.map addr, addr ∈ session.authenticated ∧
    ∃ received, (addr, received) ∈ session.received ∧ time = BitVec.ofNat 64 received

/-- The test for expiry is right about the times of the table. -/
theorem isExpired_ofNat {clock time : ℕ} (ordered : time ≤ clock)
    (bounded : clock < INT64_MAX.toNat) :
    isExpired (BitVec.ofNat 64 clock) (BitVec.ofNat 64 time) = false ↔
      clock - time ≤ TIMEOUT_MILLISECONDS.toNat := by
  have limit : INT64_MAX.toNat = 2 ^ 63 - 1 := rfl
  rw [limit] at bounded
  have diff : (BitVec.ofNat 64 clock - BitVec.ofNat 64 time).toNat = clock - time := by
    rw [BitVec.toNat_sub, BitVec.toNat_ofNat, BitVec.toNat_ofNat]
    omega
  have timeout : TIMEOUT_MILLISECONDS.toNat = 30000 := rfl
  simp only [isExpired, Bool.and_eq_false_iff, decide_eq_false_iff_not, gt_iff_lt, BitVec.lt_def,
    diff, limit, timeout]
  omega

/-- A live client is eligible. -/
theorem Accounted.eligible_of_live {session : Session} (accounted : Accounted session)
    {addr : BString} (live : Live addr session) : Eligible addr session := by
  rcases live with ⟨time, known, fresh⟩
  rcases accounted.table addr time known with ⟨authenticated, received, inside, rfl⟩
  refine ⟨authenticated, received, inside, ?_⟩
  exact (isExpired_ofNat (accounted.past _ inside) accounted.bounded).mp fresh

/-- Where no request is handled, only a live client is sent anything. -/
theorem live_of_delivered {session : Session} {message : Dict} {txid : BString}
    {sent : BString × Dict} (idle : session.admin.inRequest = false)
    (delivered : sent ∈ (session.admin.sendMessage session.now message txid).delivered) :
    Live sent.1 session := by
  simp only [sendMessage, idle, Bool.false_eq_true, if_false] at delivered
  cases known : session.admin.map (txid.take session.admin.addrLen) with
  | none => simp [known] at delivered
  | some time =>
      simp only [known] at delivered
      split_ifs at delivered with expired
      · simp at delivered
      · simp only [deliver, Option.mem_def, Option.some.injEq] at delivered
        subst delivered
        exact ⟨time, known, by simpa using expired⟩

/-- A call that is attentive reaches only eligible clients. -/
theorem Accounted.onlyEligible {session : Session} (accounted : Accounted session)
    {message : Dict} {txid : BString} (attentive : Attentive session (.send message txid)) :
    OnlyEligible session message txid := by
  intro sent delivered
  cases handled : session.handling with
  | none =>
      have idle : session.admin.inRequest = false := by
        rw [accounted.inRequest_eq, handled]
        rfl
      exact .inr (accounted.eligible_of_live (live_of_delivered idle delivered))
  | some src =>
      have busy : session.admin.inRequest = true := by
        rw [accounted.inRequest_eq, handled]
        rfl
      simp only [sendMessage, busy, if_true, deliver, Option.mem_def, Option.some.injEq] at delivered
      subst delivered
      rcases attentive src handled with same | live
      · exact .inl (congrArg some same.symm)
      · exact .inr (accounted.eligible_of_live live)

/-- The table loses entries at most. -/
theorem Accounted.of_subset {session : Session} (accounted : Accounted session) {admin : Admin}
    (inRequest_eq : admin.inRequest = session.admin.inRequest)
    (subset : ∀ addr, ∀ time ∈ admin.map addr, time ∈ session.admin.map addr) :
    Accounted { session with admin := admin } where
  bounded := accounted.bounded
  inRequest_eq := inRequest_eq.trans accounted.inRequest_eq
  current := accounted.current
  past := accounted.past
  table addr time known := accounted.table addr time (subset addr time known)

theorem map_sendMessage {now : BitVec 64} {message : Dict} {txid : BString} {admin : Admin} :
    (admin.sendMessage now message txid).admin.inRequest = admin.inRequest ∧
      ∀ addr, ∀ time ∈ (admin.sendMessage now message txid).admin.map addr,
        time ∈ admin.map addr := by
  have same : ∀ addr, ∀ time ∈ admin.map addr, time ∈ admin.map addr := fun _ _ known => known
  unfold sendMessage
  split_ifs with busy
  · exact ⟨rfl, same⟩
  · cases known : admin.map (txid.take admin.addrLen) with
    | none => exact ⟨rfl, same⟩
    | some time =>
        dsimp only
        split_ifs with expired
        · refine ⟨rfl, fun addr other inside => ?_⟩
          by_cases here : addr = txid.take admin.addrLen
          · subst here
            simp [removeAddress] at inside
          · simpa [removeAddress, Function.update_of_ne here] using inside
        · exact ⟨rfl, same⟩

theorem inRequest_track (now : BitVec 64) (src : BString) (authed : Bool) (admin : Admin) :
    (admin.track now src authed).inRequest = admin.inRequest := by
  unfold Admin.track
  split <;> rfl

/-- A new time in the table is that of the request, from a client that is known or authenticated. -/
theorem mem_map_track {now time : BitVec 64} {src addr : BString} {authed : Bool} {admin : Admin}
    (known : time ∈ (admin.track now src authed).map addr) :
    time ∈ admin.map addr ∨
      addr = src ∧ time = now ∧ (authed = true ∨ ∃ earlier, earlier ∈ admin.map src) := by
  unfold Admin.track at known
  by_cases tracked : ((admin.map src).isSome || authed) = true
  · rw [if_pos tracked] at known
    by_cases here : addr = src
    · right
      subst here
      simp only [Function.update_self, Option.mem_def, Option.some.injEq] at known
      rw [Bool.or_eq_true, Option.isSome_iff_exists] at tracked
      exact ⟨rfl, known.symm, tracked.symm⟩
    · left
      simpa [Function.update_of_ne here] using known
  · rw [if_neg tracked] at known
    exact .inl known

theorem Accounted.track {session : Session} (accounted : Accounted session) {src : BString}
    (handled : session.handling = some src) (authed : Bool) :
    Accounted
      { session with
        admin := session.admin.track session.now src authed
        authenticated :=
          if authed then src :: session.authenticated else session.authenticated } where
  bounded := accounted.bounded
  inRequest_eq := (inRequest_track ..).trans accounted.inRequest_eq
  current := accounted.current
  past := accounted.past
  table addr time known := by
    have grown {other : BString} (inside : other ∈ session.authenticated) :
        other ∈ if authed then src :: session.authenticated else session.authenticated := by
      split
      · exact List.mem_cons_of_mem _ inside
      · exact inside
    rcases mem_map_track known with known | ⟨rfl, rfl, authenticated⟩
    · rcases accounted.table addr time known with ⟨authenticated, received⟩
      exact ⟨grown authenticated, received⟩
    · refine ⟨?_, session.clock, accounted.current _ handled, rfl⟩
      rcases authenticated with rfl | ⟨earlier, known⟩
      · exact List.mem_cons_self
      · exact grown (accounted.table addr earlier known).1

theorem accounted_isInvariant : sessions.IsInvariant Attentive Accounted where
  initial := by
    rintro _ ⟨addrLen, rfl⟩
    exact
      { bounded := by simp
        inRequest_eq := rfl
        current := by simp
        past := by simp
        table := by simp }
  step {before event after} accounted attentive taken := by
    cases event with
    | advance milliseconds =>
        simp only [sessions, step, Option.ite_none_right_eq_some, Option.some.injEq] at taken
        rcases taken with ⟨idle, rfl⟩
        refine ⟨attentive, accounted.inRequest_eq, ?_, ?_, accounted.table⟩
        · intro src handled
          rw [idle] at handled
          cases handled
        · intro request inside
          exact le_trans (accounted.past request inside) (Nat.le_add_right _ _)
    | receive src =>
        simp only [sessions, step, Option.ite_none_right_eq_some, Option.some.injEq] at taken
        rcases taken with ⟨idle, rfl⟩
        refine ⟨accounted.bounded, rfl, ?_, ?_, ?_⟩
        · intro other handled
          rw [Option.mem_def, Option.some.injEq] at handled
          rw [← handled]
          exact List.mem_cons_self
        · intro request inside
          rcases List.mem_cons.mp inside with rfl | earlier
          · exact le_rfl
          · exact accounted.past request earlier
        · intro addr time known
          rcases accounted.table addr time known with ⟨authenticated, received, inside, same⟩
          exact ⟨authenticated, received, List.mem_cons_of_mem _ inside, same⟩
    | track authed =>
        rcases Option.map_eq_some_iff.mp taken with ⟨src, handled, rfl⟩
        exact accounted.track handled authed
    | send message txid =>
        simp only [sessions, step, Option.some.injEq] at taken
        subst taken
        exact accounted.of_subset map_sendMessage.1 map_sendMessage.2
    | finish =>
        simp only [sessions, step, Option.some.injEq] at taken
        subst taken
        exact ⟨accounted.bounded, rfl, by simp, accounted.past, accounted.table⟩
    | clearExpired =>
        simp only [sessions, step, Option.some.injEq] at taken
        subst taken
        have kept : ∀ addr, ∀ time ∈ (before.admin.clearExpiredAddresses before.now).map addr,
            time ∈ before.admin.map addr :=
          fun addr time known => (Option.mem_filter_iff.mp known).1
        exact accounted.of_subset rfl kept

/-- Messages go to eligible clients in every run that is attentive to whom it sends. -/
theorem onlyEligible_of_reachable {session : Session}
    (reachable : sessions.Reachable Attentive session) (message : Dict) (txid : BString)
    (attentive : Attentive session (.send message txid)) : OnlyEligible session message txid :=
  (reachable.invariant accounted_isInvariant).onlyEligible attentive

/-- The state before anything has happened, for addresses of one byte -/
def quiet : Session :=
  { admin := { addrLen := 1, map := fun _ => none, inRequest := false, asyncEnabled := false }
    clock := 0
    handling := none
    received := []
    authenticated := [] }

/-- A client that is sent a message ten seconds after its request -/
theorem onlyEligible_after_ten_seconds :
    ∃ session : Session, (session.admin.sendMessage session.now .nil [2]).delivered.isSome = true ∧
      OnlyEligible session .nil [2] := by
  have starts : sessions.Reachable Attentive quiet := .initial ⟨1, rfl⟩
  have received := starts.step (show Attentive quiet (.receive [2]) from trivial) rfl
  have tracked := received.step (show Attentive _ (.track true) from trivial) rfl
  have finished := tracked.step (show Attentive _ .finish from trivial) rfl
  have later := finished.step
    (show Attentive _ (.advance 10000) from by unfold Attentive; decide) rfl
  refine ⟨_, ?_, onlyEligible_of_reachable later .nil [2] ?_⟩
  · decide +kernel
  · intro src handled
    cases handled

/-- A request of one client, during which a message goes to another that has been silent for a
minute -/
theorem silent_client_sent :
    ∃ session, sessions.Reachable (fun _ _ => True) session ∧
      ¬ OnlyEligible session .nil [2] := by
  let events : List Event :=
    [.receive [2], .track true, .finish, .advance 60000, .receive [3], .track false]
  have run : (events.foldlM step quiet).any (fun session =>
      decide (session.handling = some [3] ∧ session.clock = 60000 ∧
          session.received = [([3], 60000), ([2], 0)]) &&
        (session.admin.sendMessage session.now .nil [2]).delivered.any
          fun sent => sent.1 = [2]) = true := by
    decide +kernel
  rcases (Option.any_eq_true _ _).mp run with ⟨session, run, reached⟩
  rw [Bool.and_eq_true, decide_eq_true_eq] at reached
  rcases reached with ⟨⟨handled, clock, received⟩, reached⟩
  rcases (Option.any_eq_true _ _).mp reached with ⟨sent, delivered, dest⟩
  rw [decide_eq_true_eq] at dest
  refine ⟨session, ?_, fun only => ?_⟩
  · exact TransitionSystem.Reachable.run (.initial ⟨1, rfl⟩) id (fun _ _ _ => trivial) run
  · rcases only sent delivered with own | ⟨_, time, inside, recent⟩
    · rw [handled, dest, Option.some.injEq] at own
      exact absurd own (by decide)
    · rw [received, dest] at inside
      simp only [List.mem_cons, Prod.mk.injEq, List.not_mem_nil, or_false] at inside
      rcases inside with ⟨other, _⟩ | ⟨_, rfl⟩
      · exact absurd other (by decide)
      · rw [clock] at recent
        exact absurd recent (by decide)

end Session

end Admin

end Cjdns
