import Cjdns.Crypto.Provenance
import Cjdns.Crypto.Sayings

/-!
# Delivery of data packets

The data packets of the initiator arrive at the responder in any order, lost or
repeated. The first of them completes the handshake; the others pass the replay
protector. The packet with the nonce four is a data packet for the handshake and
none for an established connection, so it is lost if it does not come first.
-/

namespace Cjdns

namespace CryptoAuth

variable {context : Context} {nowSecs : BitVec 64} {chance : Chance} {received : Packet}
  {rand : Random} {wrapper after : Wrapper} {message : List (BitVec 8)} {secret : Key}

/-! ## The replay protector in runs -/

theorem expire_isWindow (window : wrapper.replayProtector.IsWindow) :
    (expire context nowSecs wrapper).replayProtector.IsWindow := by
  rw [expire]
  split
  · exact ReplayProtector.isWindow_new
  · exact window

theorem encryptHandshake_replayProtector :
    (encryptHandshake context chance message rand wrapper).wrapper.replayProtector =
      wrapper.replayProtector := by
  simp only [encryptHandshake]
  split <;> rfl

theorem sendMessage_isWindow (window : wrapper.replayProtector.IsWindow) :
    (sendMessage context nowSecs chance message rand wrapper).wrapper.replayProtector.IsWindow := by
  have expired : (expire context nowSecs wrapper).replayProtector.IsWindow :=
    expire_isWindow window
  simp only [sendMessage, sendUnexpired]
  split_ifs
  · rw [encryptHandshake_replayProtector]
    exact expired
  · exact expired
  · exact expired

theorem callReceivedMessage_replayProtector {deed : Deed} :
    (callReceivedMessage nowSecs message deed rand wrapper).wrapper.replayProtector =
      wrapper.replayProtector := by
  simp only [callReceivedMessage]
  split <;> rfl

theorem decryptMessage_isWindow {nonce : ℕ}
    (opened : decryptMessage nonce received secret wrapper = some (after, message))
    (window : wrapper.replayProtector.IsWindow) :
    after.replayProtector.IsWindow := by
  revert opened
  rw [decryptMessage]
  split
  · split
    · simp
    · dsimp only
      split
      · simp only [Option.some.injEq, Prod.mk.injEq]
        rintro ⟨rfl, _⟩
        exact ReplayProtector.checkNonce_isWindow window
      · simp
  · split
    · simp
    · simp only [Option.some.injEq, Prod.mk.injEq]
      rintro ⟨rfl, _⟩
      exact window

theorem openHandshake_isWindow {user : Option ℕ} {herPermKey : Key} {nextNonce : ℕ}
    {sharedSecret : SharedSecret} (window : wrapper.replayProtector.IsWindow) :
    (openHandshake context nowSecs chance received user herPermKey nextNonce sharedSecret rand
      wrapper).wrapper.replayProtector.IsWindow := by
  rw [openHandshake]
  split
  · exact window
  split
  · exact window
  simp only [acceptHandshake]
  split
  · exact sendMessage_isWindow window
  · rw [callReceivedMessage_replayProtector]
    exact ReplayProtector.isWindow_new

theorem tryAuth_replayProtector {challenge : AuthChallenge} :
    (tryAuth context challenge wrapper).wrapper.replayProtector = wrapper.replayProtector := by
  rw [tryAuth]
  split <;> rfl

theorem decryptHandshake_isWindow (window : wrapper.replayProtector.IsWindow) :
    (decryptHandshake context nowSecs chance received rand
      wrapper).wrapper.replayProtector.IsWindow := by
  have tried : (tryAuth context received.handshake.auth wrapper).wrapper.replayProtector.IsWindow := by
    rw [tryAuth_replayProtector]
    exact window
  rw [decryptHandshake]
  split
  · exact window
  split
  · rw [answerConnectToMe, encryptHandshake_replayProtector]
    exact window
  dsimp only
  split
  · exact tried
  split
  · exact tried
  split
  · exact openHandshake_isWindow tried
  · exact openHandshake_isWindow tried

theorem receiveMessage_isWindow (window : wrapper.replayProtector.IsWindow) :
    (receiveMessage context nowSecs chance received rand
      wrapper).wrapper.replayProtector.IsWindow := by
  simp only [receiveMessage]
  split_ifs with runt early final late
  · exact window
  · rw [finalStep]
    split
    · rename_i opened
      have kept := decryptMessage_isWindow opened window
      rw [callReceivedMessage_replayProtector]
      exact kept
    · exact ReplayProtector.isWindow_new
  · exact decryptHandshake_isWindow window
  · rw [receiveData]
    split
    · rename_i opened
      rw [callReceivedMessage_replayProtector]
      exact decryptMessage_isWindow opened window
    · exact window
  · exact decryptHandshake_isWindow window

/-- No bit behind the twentieth is ever set. -/
theorem isWindow_isInvariant (source : ℕ) (passwords : List Auth)
    (resetAfterInactivitySeconds : BitVec 32) :
    (wrapperRuns source passwords resetAfterInactivitySeconds).IsInvariant (fun _ _ => True)
      fun watched => watched.endpoint.wrapper.replayProtector.IsWindow where
  initial := by
    intro watched starts
    rcases starts with ⟨_, _, _, _, _, _, rfl⟩
    exact ReplayProtector.isWindow_new
  step := by
    intro before call after window _ taken
    rcases taken with ⟨_, rfl⟩
    cases call with
    | send => exact sendMessage_isWindow window
    | receive => exact receiveMessage_isWindow window
    | reset => exact ReplayProtector.isWindow_new
    | getState => exact expire_isWindow window

/-! ## Arrivals -/

/-- A data packet that arrives, with what it was made from -/
structure Arrival where
  nowSecs : BitVec 64
  chance : Chance
  packet : Packet
  message : List (BitVec 8)

namespace Arrival

def nonce (arrival : Arrival) : ℕ :=
  arrival.packet.nonce.toNat

def call (arrival : Arrival) : Call :=
  .receive arrival.nowSecs arrival.chance arrival.packet

/-- The packet was encrypted by a wrapper with packet authentication, with this secret and role. -/
def IsFrom (secret : Key) (isInitiator : Bool) (arrival : Arrival) : Prop :=
  ∃ chance rand sender, arrival.packet =
      (encryptMessage chance arrival.message rand sender).packet ∧
    sender.authenticatePackets = true ∧ sender.secret = secret ∧
    sender.isInitiator = isInitiator ∧ 4 ≤ sender.nextNonce ∧ sender.nextNonce < 2 ^ 32

/-- What the receiver can tell of such a packet -/
structure IsReadable (secret : Key) (isInitiator : Bool) (arrival : Arrival) : Prop where
  length : 20 ≤ arrival.packet.length
  late : 4 ≤ arrival.nonce
  box : arrival.packet.handshake.box = none
  opens : decrypt arrival.nonce arrival.packet secret isInitiator true = some arrival.message

theorem IsFrom.isReadable {arrival : Arrival} {secret : Key} {isInitiator : Bool}
    (from_ : arrival.IsFrom secret (!isInitiator)) : arrival.IsReadable secret isInitiator := by
  rcases from_ with ⟨chance, rand, sender, packet, authenticates, rfl, role, late, bounded⟩
  have counter : arrival.nonce = sender.nextNonce := by
    rw [nonce, packet]
    exact (BitVec.toNat_ofNat _ _).trans (Nat.mod_eq_of_lt bounded)
  constructor
  · rw [packet, encryptMessage, authenticates]
    simp
  · rw [counter]
    exact late
  · rw [packet]
    rfl
  · rw [counter, packet]
    simp [encryptMessage, decrypt, authenticates, role, decryptNonce_eq, Option.filter_some]

end Arrival

def Outcome.isPassed : Outcome → Bool
  | .passed _ => true
  | .refused _ | .silent => false

/-- No packet is passed on twice, and each is passed on when it arrives for the first time and is not
more than twenty below one that was accepted. -/
def DeliversOnce (context : Context) : List ℕ → List ℕ → Endpoint → List Arrival → Prop
  | _, _, _, [] => True
  | arrived, accepted, endpoint, arrival :: rest =>
      let called := endpoint.call context arrival.call
      (arrival.nonce ∈ accepted → called.outcome.isPassed = false) ∧
        (arrival.nonce ∉ arrived → (∀ other ∈ accepted, other ≤ arrival.nonce + 20) →
          called.outcome = .passed arrival.message) ∧
        DeliversOnce context (arrival.nonce :: arrived)
          (if called.outcome.isPassed then arrival.nonce :: accepted else accepted)
          called.endpoint rest

/-- Where a packet arrives for the first time and is not more than twenty below an earlier one, the
replay protector does not block it from before, it does not have the nonce that asks for a hello if
it is the first one, and it does not have the nonce four if it is not. -/
def ArrivesWell (protector : ReplayProtector) : List ℕ → List ℕ → Prop
  | _, [] => True
  | arrived, nonce :: rest =>
      (nonce ∉ arrived → (∀ other ∈ arrived, other ≤ nonce + 20) →
        ¬protector.Blocks nonce ∧ if arrived = [] then nonce ≠ connectToMe else nonce ≠ 4) ∧
      ArrivesWell protector (nonce :: arrived) rest

/-! ## One arrival -/

variable {role : Bool} {arrival : Arrival}

theorem decryptMessage_readable (wrapper : Wrapper) (readable : arrival.IsReadable secret role)
    (authenticates : wrapper.authenticatePackets = true) (same : wrapper.isInitiator = role) :
    decryptMessage arrival.nonce arrival.packet secret wrapper =
      if (wrapper.replayProtector.checkNonce arrival.nonce).1 then
        some ({ wrapper with
          replayProtector := (wrapper.replayProtector.checkNonce arrival.nonce).2 },
          arrival.message)
      else none := by
  rw [decryptMessage, if_pos authenticates, same, readable.opens]

/-- The wrapper is established, with this secret and role. -/
structure Wrapper.Listens (secret : Key) (role : Bool) (wrapper : Wrapper) : Prop where
  established : 5 ≤ wrapper.nextNonce
  authenticates : wrapper.authenticatePackets = true
  secret_eq : wrapper.secret = secret
  role_eq : wrapper.isInitiator = role

/-- A packet without a box is no handshake packet. -/
theorem decryptHandshake_boxless (context : Context) (nowSecs : BitVec 64) (chance : Chance)
    (rand : Random) (started : 2 ≤ wrapper.nextNonce)
    (authenticates : wrapper.authenticatePackets = true) (box : received.handshake.box = none) :
    ∃ error, decryptHandshake context nowSecs chance received rand wrapper =
      refuse error rand wrapper := by
  have tried : (tryAuth context received.handshake.auth wrapper).wrapper = wrapper := by
    rw [tryAuth]
    split
    · rfl
    · cases wrapper
      cases authenticates
      rfl
  have closed : ∀ user herPermKey nextNonce sharedSecret,
      openHandshake context nowSecs chance received user herPermKey nextNonce sharedSecret rand
        wrapper = refuse Error.AUTHENTICATION rand wrapper := by
    intro user herPermKey nextNonce sharedSecret
    rw [openHandshake, decryptRndNonce, box]
    split <;> rfl
  rw [decryptHandshake]
  split
  · exact ⟨_, rfl⟩
  split
  · omega
  simp only [tried, closed]
  split
  · exact ⟨_, rfl⟩
  split
  · exact ⟨_, rfl⟩
  split
  · exact ⟨_, rfl⟩
  · exact ⟨_, rfl⟩

/-- The packet was passed on, and filed. -/
structure Accepts (secret : Key) (role : Bool) (wrapper : Wrapper) (arrival : Arrival)
    (received : Received) : Prop where
  passed : received.outcome = .passed arrival.message
  filed : received.wrapper.replayProtector =
    (wrapper.replayProtector.checkNonce arrival.nonce).2
  listens : received.wrapper.Listens secret role

theorem callReceivedMessage_listens {deed : Deed} (listens : wrapper.Listens secret role) :
    (callReceivedMessage nowSecs message deed rand wrapper).wrapper.Listens secret role := by
  rcases listens with ⟨established, authenticates, secret_eq, role_eq⟩
  simp only [callReceivedMessage]
  split
  · exact ⟨established, authenticates, secret_eq, role_eq⟩
  · exact ⟨established, authenticates, secret_eq, role_eq⟩

theorem receiveMessage_long (readable : arrival.IsReadable secret role) :
    ¬arrival.packet.length < wrapper.minLength := by
  have length := readable.length
  rw [Wrapper.minLength]
  split <;> omega

/-- The first packet completes the handshake. -/
theorem receive_first (state : wrapper.nextNonce = 2 ∨ wrapper.nextNonce = 3)
    (known : wrapper.knowHerKey = true) (authenticates : wrapper.authenticatePackets = true)
    (readable : arrival.IsReadable wrapper.finalSecret wrapper.isInitiator)
    (plain : arrival.nonce ≠ connectToMe)
    (passes : ¬wrapper.replayProtector.Blocks arrival.nonce) :
    Accepts wrapper.finalSecret wrapper.isInitiator wrapper arrival
      (receiveMessage context arrival.nowSecs arrival.chance arrival.packet rand wrapper) := by
  have late := readable.late
  have early : wrapper.nextNonce < 5 := by omega
  have final : 3 < arrival.packet.nonce.toNat ∧ arrival.packet.nonce.toNat ≠ connectToMe ∧
      wrapper.knowHerKey = true := ⟨late, plain, known⟩
  have opened := decryptMessage_readable { wrapper with nextNonce := wrapper.nextNonce + 3 } readable
    authenticates rfl
  rw [if_pos (ReplayProtector.checkNonce_iff.mpr passes)] at opened
  simp only [receiveMessage, if_neg (receiveMessage_long readable), if_pos early, if_pos final,
    finalStep]
  rw [Arrival.nonce] at opened
  rw [opened]
  exact ⟨rfl, callReceivedMessage_replayProtector,
    callReceivedMessage_listens ⟨by simp; omega, authenticates, rfl, rfl⟩⟩

/-- A first packet that is blocked, or looks like one that asks for a hello -/
theorem receive_first_refused (state : wrapper.nextNonce = 2 ∨ wrapper.nextNonce = 3)
    (authenticates : wrapper.authenticatePackets = true)
    (readable : arrival.IsReadable wrapper.finalSecret wrapper.isInitiator)
    (refused : arrival.nonce = connectToMe ∨ wrapper.replayProtector.Blocks arrival.nonce) :
    (receiveMessage context arrival.nowSecs arrival.chance arrival.packet rand
      wrapper).outcome.isPassed = false := by
  have late := readable.late
  have early : wrapper.nextNonce < 5 := by omega
  simp only [receiveMessage, if_neg (receiveMessage_long readable), if_pos early]
  split
  · rename_i final
    have blocked := refused.resolve_left final.2.1
    have opened := decryptMessage_readable { wrapper with nextNonce := wrapper.nextNonce + 3 }
      readable authenticates rfl
    rw [if_neg (fun passes => ReplayProtector.checkNonce_iff.mp passes blocked)] at opened
    rw [Arrival.nonce] at opened
    simp only [finalStep, opened]
    rfl
  · rcases decryptHandshake_boxless context arrival.nowSecs arrival.chance rand (by omega)
      authenticates readable.box with ⟨error, same⟩
    rw [same]
    rfl

/-- An established wrapper passes on what is new, unless it has the nonce four. -/
theorem Wrapper.Listens.accepts (listens : wrapper.Listens secret role)
    (readable : arrival.IsReadable secret role) (late : arrival.nonce ≠ 4)
    (passes : ¬wrapper.replayProtector.Blocks arrival.nonce) :
    Accepts secret role wrapper arrival
      (receiveMessage context arrival.nowSecs arrival.chance arrival.packet rand wrapper) := by
  rcases listens with ⟨established, authenticates, rfl, rfl⟩
  have after : 4 < arrival.packet.nonce.toNat := lt_of_le_of_ne readable.late (Ne.symm late)
  have opened := decryptMessage_readable wrapper readable authenticates rfl
  rw [if_pos (ReplayProtector.checkNonce_iff.mpr passes), Arrival.nonce] at opened
  simp only [receiveMessage, if_neg (receiveMessage_long readable),
    if_neg (not_lt.mpr established), if_pos after, receiveData, opened]
  exact ⟨rfl, callReceivedMessage_replayProtector,
    callReceivedMessage_listens ⟨established, authenticates, rfl, rfl⟩⟩

theorem Wrapper.Listens.refuses (context : Context) (rand : Random)
    (listens : wrapper.Listens secret role) (readable : arrival.IsReadable secret role)
    (refused : arrival.nonce = 4 ∨ wrapper.replayProtector.Blocks arrival.nonce) :
    ∃ error, receiveMessage context arrival.nowSecs arrival.chance arrival.packet rand wrapper =
      refuse error rand wrapper := by
  rcases listens with ⟨established, authenticates, rfl, rfl⟩
  simp only [receiveMessage, if_neg (receiveMessage_long readable),
    if_neg (not_lt.mpr established)]
  split
  · rename_i after
    have blocked := refused.resolve_left (ne_of_gt after)
    have opened := decryptMessage_readable wrapper readable authenticates rfl
    rw [if_neg (fun passes => ReplayProtector.checkNonce_iff.mp passes blocked),
      Arrival.nonce] at opened
    simp only [receiveData, opened]
    exact ⟨_, rfl⟩
  · exact decryptHandshake_boxless _ _ _ _ (by omega) authenticates readable.box

/-! ## Any order of arrivals -/

/-- The replay protector holds what was accepted, and what it held before. -/
structure Files (before : ReplayProtector) (arrived accepted : List ℕ)
    (protector : ReplayProtector) : Prop where
  window : protector.IsWindow
  filed : ∀ nonce ∈ accepted, protector.Blocks nonce
  blocks_iff : ∀ nonce, (∀ other ∈ accepted, other ≤ nonce + 20) →
    (protector.Blocks nonce ↔ nonce ∈ accepted ∨ before.Blocks nonce)
  arrives : ∀ nonce ∈ accepted, nonce ∈ arrived
  covers : ∀ nonce ∈ arrived, ∃ other ∈ accepted, nonce ≤ other

namespace Files

variable {before protector : ReplayProtector} {arrived accepted : List ℕ} {nonce : ℕ}

theorem near_iff (files : Files before arrived accepted protector) :
    (∀ other ∈ accepted, other ≤ nonce + 20) ↔ ∀ other ∈ arrived, other ≤ nonce + 20 := by
  constructor
  · intro near other mem
    rcases files.covers other mem with ⟨higher, accepts, le⟩
    exact le.trans (near higher accepts)
  · intro near other mem
    exact near other (files.arrives other mem)

theorem accept (files : Files before arrived accepted protector)
    (passes : ¬protector.Blocks nonce) :
    Files before (nonce :: arrived) (nonce :: accepted) (protector.checkNonce nonce).2 where
  window := ReplayProtector.checkNonce_isWindow files.window
  filed := by
    intro other mem
    rw [ReplayProtector.blocks_checkNonce_iff files.window passes]
    rcases List.mem_cons.mp mem with same | old
    · exact .inl same
    · exact .inr (.inr (files.filed other old))
  blocks_iff := by
    intro other near
    have here : nonce ≤ other + 20 := near nonce List.mem_cons_self
    rw [ReplayProtector.blocks_checkNonce_iff files.window passes,
      files.blocks_iff other fun higher mem => near higher (List.mem_cons_of_mem _ mem),
      List.mem_cons]
    constructor
    · rintro (same | far | known | blocked)
      · exact .inl (.inl same)
      · omega
      · exact .inl (.inr known)
      · exact .inr blocked
    · rintro ((same | known) | blocked)
      · exact .inl same
      · exact .inr (.inr (.inl known))
      · exact .inr (.inr (.inr blocked))
  arrives := by
    intro other mem
    rcases List.mem_cons.mp mem with rfl | old
    · exact List.mem_cons_self
    · exact List.mem_cons_of_mem _ (files.arrives other old)
  covers := by
    intro other mem
    rcases List.mem_cons.mp mem with rfl | old
    · exact ⟨other, List.mem_cons_self, le_rfl⟩
    · rcases files.covers other old with ⟨higher, accepts, le⟩
      exact ⟨higher, List.mem_cons_of_mem _ accepts, le⟩

/-- A packet that need not be passed on -/
theorem ignore (files : Files before arrived accepted protector)
    (excused : nonce ∈ arrived ∨ ∃ other ∈ accepted, nonce + 20 < other) :
    Files before (nonce :: arrived) accepted protector :=
  { files with
    arrives := fun other mem => List.mem_cons_of_mem _ (files.arrives other mem)
    covers := by
      intro other mem
      rcases List.mem_cons.mp mem with rfl | old
      · rcases excused with again | ⟨higher, accepts, far⟩
        · exact files.covers other again
        · exact ⟨higher, accepts, by omega⟩
      · exact files.covers other old }

end Files

/-- An established connection -/
theorem delivers_once_established (before : ReplayProtector) (arrivals : List Arrival)
    {arrived accepted : List ℕ} {endpoint : Endpoint}
    (listens : endpoint.wrapper.Listens secret role)
    (files : Files before arrived accepted endpoint.wrapper.replayProtector)
    (started : arrived ≠ [])
    (readable : ∀ arrival ∈ arrivals, arrival.IsReadable secret role) :
    DeliversOnce context arrived accepted endpoint arrivals ↔
      ArrivesWell before arrived (arrivals.map Arrival.nonce) := by
  induction arrivals generalizing arrived accepted endpoint with
  | nil => exact Iff.rfl
  | cons arrival rest ih =>
      have here := readable arrival List.mem_cons_self
      have later : ∀ other ∈ rest, other.IsReadable secret role := fun other mem =>
        readable other (List.mem_cons_of_mem _ mem)
      rw [DeliversOnce, List.map_cons, ArrivesWell, if_neg started, ← files.near_iff]
      by_cases passes : arrival.nonce ≠ 4 ∧
        ¬endpoint.wrapper.replayProtector.Blocks arrival.nonce
      · have accepts : Accepts secret role endpoint.wrapper arrival
            (receiveMessage context arrival.nowSecs arrival.chance arrival.packet endpoint.rand
              endpoint.wrapper) := listens.accepts here passes.1 passes.2
        have outcome : (endpoint.call context arrival.call).outcome = .passed arrival.message :=
          accepts.passed
        have next := files.accept passes.2
        rw [← accepts.filed] at next
        have rest_iff : DeliversOnce context _ _ (endpoint.call context arrival.call).endpoint rest ↔
            _ := ih accepts.listens next (List.cons_ne_nil _ _) later
        simp only [outcome, Outcome.isPassed, if_true, rest_iff]
        constructor
        · rintro ⟨_, _, well⟩
          refine ⟨?_, well⟩
          intro _ near
          refine ⟨?_, passes.1⟩
          intro blocked
          exact passes.2 ((files.blocks_iff _ near).mpr (.inr blocked))
        · rintro ⟨_, well⟩
          refine ⟨?_, fun _ _ => trivial, well⟩
          intro mem
          exact absurd (files.filed _ mem) passes.2
      · have refused : arrival.nonce = 4 ∨
            endpoint.wrapper.replayProtector.Blocks arrival.nonce := by
          by_contra other
          rw [not_or] at other
          exact passes other
        rcases listens.refuses context endpoint.rand here refused with ⟨error, same⟩
        have called : endpoint.call context arrival.call = ⟨endpoint, [], .refused error⟩ := by
          simp only [Endpoint.call, Arrival.call, same]
          rfl
        simp only [called, Outcome.isPassed, reduceCtorEq, if_false]
        by_cases excused : arrival.nonce ∈ arrived ∨ ∃ other ∈ accepted, arrival.nonce + 20 < other
        · rw [ih listens (files.ignore excused) (List.cons_ne_nil _ _) later]
          have vacuous : arrival.nonce ∉ arrived →
              ¬∀ other ∈ accepted, other ≤ arrival.nonce + 20 := by
            intro new near
            rcases excused.resolve_left new with ⟨other, mem, far⟩
            exact absurd (near other mem) (not_le.mpr far)
          constructor
          · rintro ⟨_, _, well⟩
            exact ⟨fun new near => absurd near (vacuous new), well⟩
          · rintro ⟨_, well⟩
            exact ⟨fun _ => trivial, fun new near => vacuous new near, well⟩
        · rw [not_or, not_exists] at excused
          rcases excused with ⟨new, none_far⟩
          have near : ∀ other ∈ accepted, other ≤ arrival.nonce + 20 := by
            intro other mem
            by_contra far
            exact none_far other ⟨mem, not_le.mp far⟩
          constructor
          · rintro ⟨_, passed, _⟩
            exact (passed new near).elim
          · rintro ⟨well, _⟩
            rcases well new near with ⟨free, late⟩
            rcases (files.blocks_iff _ near).mp (refused.resolve_left late) with known | blocked
            · exact absurd (files.arrives _ known) new
            · exact absurd blocked free

/-- The data packets of the other node, in any order, are each passed on once, if and only if they
arrive well. -/
theorem delivers_once_iff (source : ℕ) (passwords : List Auth)
    (resetAfterInactivitySeconds : BitVec 32) (watched : Watched) (arrivals : List Arrival)
    (reachable : (wrapperRuns source passwords resetAfterInactivitySeconds).Reachable
      (fun _ _ => True) watched)
    (state : watched.endpoint.wrapper.nextNonce = 2 ∨ watched.endpoint.wrapper.nextNonce = 3)
    (known : watched.endpoint.wrapper.knowHerKey = true)
    (authenticates : watched.endpoint.wrapper.authenticatePackets = true)
    (honest : ∀ arrival ∈ arrivals, arrival.IsFrom watched.endpoint.wrapper.finalSecret
      (!watched.endpoint.wrapper.isInitiator)) :
    DeliversOnce (newContext source passwords resetAfterInactivitySeconds) [] [] watched.endpoint
        arrivals ↔
      ArrivesWell watched.endpoint.wrapper.replayProtector [] (arrivals.map Arrival.nonce) := by
  have window := reachable.invariant
    (isWindow_isInvariant source passwords resetAfterInactivitySeconds)
  generalize watched.endpoint = endpoint at *
  generalize newContext source passwords resetAfterInactivitySeconds = context
  cases arrivals with
  | nil => exact Iff.rfl
  | cons arrival rest =>
      have here := (honest arrival List.mem_cons_self).isReadable
      have later : ∀ other ∈ rest,
          other.IsReadable endpoint.wrapper.finalSecret endpoint.wrapper.isInitiator :=
        fun other mem => (honest other (List.mem_cons_of_mem _ mem)).isReadable
      have files : Files endpoint.wrapper.replayProtector [] []
          endpoint.wrapper.replayProtector := by
        constructor
        · exact window
        all_goals simp
      rw [DeliversOnce, List.map_cons, ArrivesWell, if_pos rfl]
      by_cases passes : arrival.nonce ≠ connectToMe ∧
          ¬endpoint.wrapper.replayProtector.Blocks arrival.nonce
      · have accepts : Accepts endpoint.wrapper.finalSecret endpoint.wrapper.isInitiator
            endpoint.wrapper arrival (receiveMessage context arrival.nowSecs arrival.chance
              arrival.packet endpoint.rand endpoint.wrapper) :=
          receive_first state known authenticates here passes.1 passes.2
        have outcome : (endpoint.call context arrival.call).outcome = .passed arrival.message :=
          accepts.passed
        have next := files.accept passes.2
        rw [← accepts.filed] at next
        have rest_iff : DeliversOnce context _ _ (endpoint.call context arrival.call).endpoint rest ↔
            _ := delivers_once_established _ rest accepts.listens next (List.cons_ne_nil _ _) later
        simp only [outcome, Outcome.isPassed, if_true, rest_iff]
        simp [passes.1, passes.2]
      · have refused : arrival.nonce = connectToMe ∨
            endpoint.wrapper.replayProtector.Blocks arrival.nonce := by
          by_contra other
          rw [not_or] at other
          exact passes other
        have outcome : (endpoint.call context arrival.call).outcome.isPassed = false :=
          receive_first_refused state authenticates here refused
        constructor
        · rintro ⟨_, passed, _⟩
          rw [passed List.not_mem_nil (by simp)] at outcome
          cases outcome
        · rintro ⟨well, _⟩
          have free := well List.not_mem_nil (by simp)
          exact absurd ⟨free.2, free.1⟩ passes

/-- If the packet with the nonce four comes first to a new replay protector, all is well. -/
theorem arrivesWell_of_first (nonces : List ℕ) : ArrivesWell {} [] (4 :: nonces) := by
  have rest : ∀ nonces arrived, 4 ∈ arrived → ArrivesWell {} arrived nonces := by
    intro nonces
    induction nonces with
    | nil => exact fun _ _ => trivial
    | cons nonce nonces ih =>
        intro arrived first
        refine ⟨?_, ih _ (List.mem_cons_of_mem _ first)⟩
        intro new _
        refine ⟨ReplayProtector.not_blocks_new, ?_⟩
        rw [if_neg (List.ne_nil_of_mem first)]
        rintro rfl
        exact new first
  refine ⟨fun _ _ => ⟨ReplayProtector.not_blocks_new, ?_⟩, rest _ _ List.mem_cons_self⟩
  rw [if_pos rfl]
  norm_num

/-! ## First packets -/

/-- The wrapper after a hello, with its key packet sent -/
def keyWatched : Watched :=
  helloWatched.call (newContext 0 [] 60) (.send 0 .zero [])

theorem keyWatched_reachable : (wrapperRuns 0 [] 60).Reachable (fun _ _ => True) keyWatched := by
  have taken : (wrapperRuns 0 [] 60).step helloWatched (.send 0 .zero []) keyWatched :=
    ⟨trivial, rfl⟩
  exact .step (helloWatched_reachable.mono fun _ _ _ => trivial) trivial taken

/-- The packet with this nonce from the wrapper of the other node -/
def honestArrival (nonce : ℕ) : Arrival where
  nowSecs := 0
  chance := .zero
  packet := (encryptMessage .zero [42] { source := 1, drawn := 2 } {
    keyWatched.endpoint.wrapper with
    secret := keyWatched.endpoint.wrapper.finalSecret
    isInitiator := true
    nextNonce := nonce }).packet
  message := [42]

theorem honestArrival_isFrom {nonce : ℕ} (late : 4 ≤ nonce) (bounded : nonce < 2 ^ 32) :
    (honestArrival nonce).IsFrom keyWatched.endpoint.wrapper.finalSecret
      (!keyWatched.endpoint.wrapper.isInitiator) :=
  ⟨_, { source := 1, drawn := 2 }, _, rfl, rfl, rfl, rfl, late, bounded⟩

theorem delivers_once_inOrder :
    DeliversOnce (newContext 0 [] 60) [] [] keyWatched.endpoint
      [honestArrival 4, honestArrival 6, honestArrival 5, honestArrival 6] := by
  refine (delivers_once_iff 0 [] 60 keyWatched _ keyWatched_reachable (.inr rfl) rfl rfl ?_).mpr
    (arrivesWell_of_first [6, 5, 6])
  intro arrival mem
  simp only [List.mem_cons, List.not_mem_nil, or_false] at mem
  rcases mem with rfl | rfl | rfl | rfl
  · exact honestArrival_isFrom (by norm_num) (by norm_num)
  · exact honestArrival_isFrom (by norm_num) (by norm_num)
  · exact honestArrival_isFrom (by norm_num) (by norm_num)
  · exact honestArrival_isFrom (by norm_num) (by norm_num)

/-- The first data packet is lost if the second one comes before it. -/
theorem not_delivers_once_reordered :
    ¬∀ (source : ℕ) (passwords : List Auth) (resetAfterInactivitySeconds : BitVec 32)
      (watched : Watched) (arrivals : List Arrival),
      (wrapperRuns source passwords resetAfterInactivitySeconds).Reachable (fun _ _ => True)
        watched →
      watched.endpoint.wrapper.nextNonce = 2 ∨ watched.endpoint.wrapper.nextNonce = 3 →
      watched.endpoint.wrapper.knowHerKey = true →
      watched.endpoint.wrapper.authenticatePackets = true →
      (∀ arrival ∈ arrivals, arrival.IsFrom watched.endpoint.wrapper.finalSecret
        (!watched.endpoint.wrapper.isInitiator)) →
      DeliversOnce (newContext source passwords resetAfterInactivitySeconds) [] []
        watched.endpoint arrivals := by
  intro claimed
  have honest : ∀ arrival ∈ [honestArrival 5, honestArrival 4],
      arrival.IsFrom keyWatched.endpoint.wrapper.finalSecret
        (!keyWatched.endpoint.wrapper.isInitiator) := by
    intro arrival mem
    simp only [List.mem_cons, List.not_mem_nil, or_false] at mem
    rcases mem with rfl | rfl
    · exact honestArrival_isFrom (by norm_num) (by norm_num)
    · exact honestArrival_isFrom (by norm_num) (by norm_num)
  rcases claimed 0 [] 60 keyWatched _ keyWatched_reachable (.inr rfl) rfl rfl honest with
    ⟨_, _, _, second, _⟩
  have lost := second (by decide) (by decide)
  exact absurd lost (by decide)

end CryptoAuth

end Cjdns
