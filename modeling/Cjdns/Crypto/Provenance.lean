import Cjdns.Crypto.Endpoint
import Cjdns.Library.Transition

/-!
# Where passed messages come from

A wrapper should pass a message on only after a handshake with the owner of the
key it has for the other node. Packets are arbitrary, except that a box is
sealed under a secret that its maker can compute.

The source keeps to this unless a packet takes the handshake at its weak points.
The final step is taken in every state before the connection is established, in
the first states with a secret of zeros or one that an earlier connection left
behind; a key packet is opened with that secret too; the zero key passes for the
key of a node; and a hello of our own comes back as one of hers.
-/

namespace Cjdns

namespace CryptoAuth

/-! ## Runs of one wrapper -/

/-- A wrapper with the handshake packets that it has found authentic since it was created or last
reset -/
structure Watched where
  endpoint : Endpoint
  authenticated : List HandshakeBox

/-- What a deed adds to the authentic packets -/
def note (authenticated : List HandshakeBox) : Deed → List HandshakeBox
  | .reset => []
  | .took _ box => box :: authenticated
  | .asked _ | .said _ | .heard _ _ => authenticated

def Watched.call (context : Context) (watched : Watched) (call : Call) : Watched where
  endpoint := (watched.endpoint.call context call).endpoint
  authenticated := (watched.endpoint.call context call).deeds.foldl note watched.authenticated

/-- Whatever is encrypted in the packet, somebody could compute the secret, and for a box that was
its maker. -/
structure Packet.IsFeasible (packet : Packet) : Prop where
  box : ∀ box, packet.handshake.box = some box → Key.HeldBy box.maker box.sharedSecret.point
  data : ∀ data, packet.data = some data → ∃ owner, Key.HeldBy owner data.secret

def Call.IsFeasible : Call → Prop
  | .receive _ _ received => received.IsFeasible
  | .send _ _ _ | .reset | .getState _ => True

/-- `CryptoAuth_new`, with a private key from the node's own random source -/
def newContext (source : ℕ) (passwords : List Auth) (resetAfterInactivitySeconds : BitVec 32) :
    Context where
  privateKey := .random source 0
  passwords := passwords
  resetAfterInactivitySeconds := resetAfterInactivitySeconds

/-- The runs of a wrapper that `CryptoAuth_wrapInterface` has created -/
def wrapperRuns (source : ℕ) (passwords : List Auth) (resetAfterInactivitySeconds : BitVec 32) :
    TransitionSystem Watched Call where
  initial watched := ∃ herPublicKey requireAuth authenticatePackets nowSecs password drawn,
    watched = {
      endpoint := {
        wrapper := setAuth password
          (wrapInterface herPublicKey requireAuth authenticatePackets nowSecs)
        rand := { source := source, drawn := drawn } }
      authenticated := [] }
  step before call after := call.IsFeasible ∧
    after = before.call (newContext source passwords resetAfterInactivitySeconds) call

/-! ## Packets that come in order -/

/-- The packet is not one of those that the handshake should not take. -/
structure Packet.IsOrderly (received : Packet) (source : ℕ) (wrapper : Wrapper) : Prop where
  /-- The final step of the handshake comes after its first step. -/
  final : 3 < received.nonce.toNat → received.nonce.toNat ≠ connectToMe →
    wrapper.knowHerKey = true → 2 ≤ wrapper.nextNonce
  /-- A handshake packet has not been sealed by this node itself. -/
  maker : ∀ box, received.handshake.box = some box → box.maker ≠ source
  /-- A handshake packet does not give the zero key. -/
  publicKey : ∀ box, received.handshake.box = some box → received.handshake.publicKey ≠ .zero
  /-- A key packet that opens before a hello was sent is opened with a temporary secret. -/
  key : ∀ box, received.handshake.box = some box → 2 ≤ received.nonce.toNat →
    wrapper.nextNonce = 0 →
    box.sharedSecret.point = wrapper.secret.agreement wrapper.herPerminentPubKey →
    Key.DrawnBy source wrapper.secret

def comesInOrder (source : ℕ) (watched : Watched) : Call → Prop
  | .receive _ _ received => received.IsOrderly source watched.endpoint.wrapper
  | .send _ _ _ | .reset | .getState _ => True

/-! ## The invariant -/

/-- Once the handshake is under way, the owner of the key of the other node has sealed one of the
authentic packets. -/
structure View.IsGrounded (source : ℕ) (authenticated : List HandshakeBox) (view : View) :
    Prop where
  source_eq : view.rand.source = source
  bounded : view.nextNonce < 2 ^ 32
  greeted : view.nextNonce = 1 → Key.DrawnBy source view.secret
  met : 2 ≤ view.nextNonce →
    ∃ box ∈ authenticated, Key.OwnedBy box.maker view.herPerminentPubKey

variable {source : ℕ} {passwords : List Auth} {resetAfterInactivitySeconds : BitVec 32}
  {authenticated : List HandshakeBox} {before after : View} {deed : Deed}

/-- Moves without a packet -/
theorem Move.grounded {context : Context} (move : Move context before deed after)
    (own : deed.IsOwn) (grounded : before.IsGrounded source authenticated) :
    after.IsGrounded source (note authenticated deed) := by
  have bounded := move.nextNonce_lt grounded.bounded
  rcases grounded with ⟨source_eq, before_lt, greeted, met⟩
  cases move with
  | reset => exact ⟨source_eq, bounded, by simp, by simp⟩
  | asked => exact ⟨source_eq, bounded, by simp, by simp⟩
  | ask => exact ⟨source_eq, bounded, by simp, by simp⟩
  | hello => exact ⟨source_eq, bounded, fun _ => ⟨_, by rw [← source_eq]⟩, by simp⟩
  | helloAgain state => exact ⟨source_eq, bounded, fun _ => greeted state, by simp⟩
  | key state => exact ⟨source_eq, bounded, by simp, fun _ => met (by omega)⟩
  | keyAgain state => exact ⟨source_eq, bounded, by simp, fun _ => met (by omega)⟩
  | firstData state => exact ⟨source_eq, bounded, by simp, fun _ => met (by omega)⟩
  | data state =>
      refine ⟨source_eq, bounded, ?_, fun _ => met (by omega)⟩
      intro wrapped
      simp only at wrapped
      omega
  | tookHello => exact own.elim
  | tookKey => exact own.elim
  | final => exact own.elim
  | heard => exact own.elim

theorem Moves.grounded {context : Context} {deeds : List Deed}
    (moves : Moves context before deeds after)
    (grounded : before.IsGrounded source authenticated) :
    after.IsGrounded source (deeds.foldl note authenticated) := by
  induction moves generalizing authenticated with
  | nil => exact grounded
  | cons move own _ ih => exact ih (move.grounded own grounded)

/-- The owner of the key in a feasible hello has sealed it. -/
theorem ownedBy_of_agreement {owner : ℕ} {secret point : Key} (drawn : Key.DrawnBy source secret)
    (held : Key.HeldBy owner (secret.agreement point)) (other : owner ≠ source)
    (nonzero : point ≠ .zero) : Key.OwnedBy owner point := by
  rcases drawn with ⟨index, rfl⟩
  exact held.ownedBy other nonzero

/-- Moves with a packet that comes in order -/
theorem Reaction.grounded {received : Packet} {deeds : List Deed} {wrapper : Wrapper}
    {rand : Random}
    (reaction : Reaction (newContext source passwords resetAfterInactivitySeconds) received
      (wrapper.view rand) deeds after)
    (orderly : received.IsOrderly source wrapper) (feasible : received.IsFeasible)
    (grounded : (wrapper.view rand).IsGrounded source authenticated) :
    after.IsGrounded source (deeds.foldl note authenticated) := by
  cases reaction with
  | ignored moves => exact moves.grounded grounded
  | @took _ _ box _ move moves =>
      apply moves.grounded
      have bounded := move.nextNonce_lt grounded.bounded
      cases move with
      | tookHello sealing early point kept =>
          refine ⟨grounded.source_eq, bounded, by simp, fun _ => ⟨box, List.mem_cons_self, ?_⟩⟩
          have held := feasible.box box sealing
          rw [point] at held
          exact held.ownedBy (orderly.maker box sealing) (orderly.publicKey box sealing)
      | tookKey sealing late same point =>
          refine ⟨grounded.source_eq, bounded, by simp, fun _ => ?_⟩
          by_cases started : 2 ≤ wrapper.nextNonce
          · rcases grounded.met started with ⟨earlier, found, owned⟩
            exact ⟨earlier, List.mem_cons_of_mem _ found, owned⟩
          have drawn : Key.DrawnBy source wrapper.secret := by
            by_cases zero : wrapper.nextNonce = 0
            · exact orderly.key box sealing late zero point
            · have one : wrapper.nextNonce = 1 := by omega
              exact grounded.greeted one
          have held := feasible.box box sealing
          rw [point] at held
          refine ⟨box, List.mem_cons_self, ?_⟩
          exact ownedBy_of_agreement drawn held (orderly.maker box sealing)
            (same ▸ orderly.publicKey box sealing)
  | heard move =>
      have bounded := move.nextNonce_lt grounded.bounded
      cases move with
      | final early late known =>
          have started : 2 ≤ wrapper.nextNonce :=
            orderly.final late.1 late.2 (knowHerKey_iff.mpr known)
          refine ⟨grounded.source_eq, bounded, ?_, fun _ => grounded.met started⟩
          intro one
          simp only [Wrapper.view] at one
          omega
      | heard => exact grounded

/-- The invariant of the runs in which the packets come in order -/
theorem grounded_isInvariant (source : ℕ) (passwords : List Auth)
    (resetAfterInactivitySeconds : BitVec 32) :
    (wrapperRuns source passwords resetAfterInactivitySeconds).IsInvariant (comesInOrder source)
      fun watched => watched.endpoint.view.IsGrounded source watched.authenticated where
  initial := by
    intro watched starts
    rcases starts with ⟨_, _, _, _, _, _, rfl⟩
    exact ⟨rfl, by norm_num [Endpoint.view, Wrapper.view, setAuth, wrapInterface],
      by simp [Endpoint.view, Wrapper.view, setAuth, wrapInterface],
      by simp [Endpoint.view, Wrapper.view, setAuth, wrapInterface]⟩
  step := by
    intro before call after grounded inOrder taken
    rcases taken with ⟨feasible, rfl⟩
    rcases Endpoint.call_cases (newContext source passwords resetAfterInactivitySeconds)
      before.endpoint call with ⟨_, _, received, rfl, reaction⟩ | moves
    · exact reaction.grounded inOrder feasible grounded
    · exact moves.grounded grounded

/-- If the packets come in order, a message is passed on only after the owner of the key of the
other node has sealed a handshake packet that was found authentic since the last reset. -/
theorem passed_after_handshake (source : ℕ) (passwords : List Auth)
    (resetAfterInactivitySeconds : BitVec 32) (watched : Watched) (nowSecs : BitVec 64)
    (chance : Chance) (received : Packet) (message : List (BitVec 8))
    (reachable : (wrapperRuns source passwords resetAfterInactivitySeconds).Reachable
      (comesInOrder source) watched)
    (feasible : received.IsFeasible)
    (inOrder : received.IsOrderly source watched.endpoint.wrapper)
    (passed : (watched.endpoint.call (newContext source passwords resetAfterInactivitySeconds)
      (.receive nowSecs chance received)).outcome = .passed message) :
    ∃ box ∈ (watched.call (newContext source passwords resetAfterInactivitySeconds)
        (.receive nowSecs chance received)).authenticated,
      Key.OwnedBy box.maker
        (watched.call (newContext source passwords resetAfterInactivitySeconds)
          (.receive nowSecs chance received)).endpoint.wrapper.herPerminentPubKey := by
  have met : comesInOrder source watched (.receive nowSecs chance received) := inOrder
  have taken : (wrapperRuns source passwords resetAfterInactivitySeconds).step watched
      (.receive nowSecs chance received) _ :=
    ⟨feasible, rfl⟩
  have next : (wrapperRuns source passwords resetAfterInactivitySeconds).Reachable
      (comesInOrder source) (watched.call
        (newContext source passwords resetAfterInactivitySeconds)
        (.receive nowSecs chance received)) :=
    .step reachable met taken
  have grounded := next.invariant (grounded_isInvariant source passwords _)
  exact grounded.met (receiveMessage_passed passed)

/-! ## First packets -/

/-- A new wrapper that knows the other node and asks for packet authentication -/
def newWatched (requireAuth : Bool) : Watched where
  endpoint := {
    wrapper := setAuth none (wrapInterface (some (.publicKey (.random 1 0))) requireAuth true 0)
    rand := { source := 0, drawn := 1 } }
  authenticated := []

theorem newWatched_reachable (requireAuth : Bool) (guard : Watched → Call → Prop) :
    (wrapperRuns 0 [] 60).Reachable guard (newWatched requireAuth) :=
  .initial ⟨_, _, _, _, _, _, rfl⟩

/-- A hello from the node with the first random source -/
def honestHello : Packet where
  nonce := 0
  length := 121
  handshake := {
    auth := Chance.zero.auth
    nonce := 0
    publicKey := .publicKey (.random 1 0)
    box := some {
      sharedSecret := getSharedSecret (.random 1 0) (.publicKey (.random 0 0)) none
      nonce := 0
      encryptedTempKey := .publicKey (.random 1 1)
      content := [7]
      maker := 1 } }
  data := none
  garble := Chance.zero.garble

/-- The wrapper after the hello -/
def helloWatched : Watched :=
  (newWatched false).call (newContext 0 [] 60) (.receive 0 .zero honestHello)

/-- A data packet under the secret that the wrapper has after the hello -/
def honestData : Packet where
  nonce := 4
  length := 21
  handshake := {
    auth := Chance.zero.auth, nonce := 0, publicKey := .zero, box := none }
  data := some {
    secret := (Key.random 1 1).agreement (.publicKey .zero)
    nonce := decryptNonce 4 false
    authenticated := true
    content := [42] }
  garble := Chance.zero.garble

theorem honestHello_feasible : honestHello.IsFeasible where
  box := by
    intro box sealing
    cases sealing
    have held : Key.HeldBy 1 ((Key.random 1 0).agreement (.publicKey (.random 0 0))) :=
      .agreement (Key.heldBy_random 1 0) (.publicKey _)
    exact held
  data := by
    intro data written
    cases written

theorem honestHello_orderly : honestHello.IsOrderly 0 (newWatched false).endpoint.wrapper where
  final := by
    intro late
    cases (show ¬3 < honestHello.nonce.toNat by decide) late
  maker := by
    intro box sealing
    cases sealing
    decide
  publicKey := by
    intro _ _
    decide
  key := by
    intro _ _ late
    cases (show ¬2 ≤ honestHello.nonce.toNat by decide) late

theorem honestData_feasible : honestData.IsFeasible where
  box := by
    intro box sealing
    cases sealing
  data := by
    intro data written
    cases written
    have held : Key.HeldBy 1 ((Key.random 1 1).agreement (.publicKey .zero)) :=
      .agreement (Key.heldBy_random 1 1) (.publicKey _)
    exact ⟨1, held⟩

theorem honestData_orderly : honestData.IsOrderly 0 helloWatched.endpoint.wrapper where
  final := by
    intro _ _ _
    decide
  maker := by
    intro box sealing
    cases sealing
  publicKey := by
    intro box sealing
    cases sealing
  key := by
    intro box sealing
    cases sealing

theorem helloWatched_reachable :
    (wrapperRuns 0 [] 60).Reachable (comesInOrder 0) helloWatched := by
  have met : comesInOrder 0 (newWatched false) (.receive 0 .zero honestHello) := honestHello_orderly
  have taken : (wrapperRuns 0 [] 60).step (newWatched false) (.receive 0 .zero honestHello)
      helloWatched :=
    ⟨honestHello_feasible, rfl⟩
  exact .step (newWatched_reachable _ _) met taken

theorem passed_after_handshake_honestData :
    ∃ box ∈ (helloWatched.call (newContext 0 [] 60)
        (.receive 0 .zero honestData)).authenticated,
      Key.OwnedBy box.maker (helloWatched.call (newContext 0 [] 60)
        (.receive 0 .zero honestData)).endpoint.wrapper.herPerminentPubKey :=
  passed_after_handshake 0 [] 60 helloWatched 0 .zero honestData [42] helloWatched_reachable
    honestData_feasible honestData_orderly rfl

/-- A data packet under the secret that comes of the zero key -/
def earlyData : Packet where
  nonce := 4
  length := 21
  handshake := {
    auth := Chance.zero.auth, nonce := 0, publicKey := .zero, box := none }
  data := some {
    secret := .null
    nonce := decryptNonce 4 false
    authenticated := true
    content := [42] }
  garble := Chance.zero.garble

theorem earlyData_feasible : earlyData.IsFeasible where
  box := by
    intro box sealing
    cases sealing
  data := by
    intro data written
    cases written
    have secret : Key.HeldBy 2 (Key.zero.agreement .zero) := .agreement .zero .zero
    exact ⟨2, secret⟩

/-- A wrapper with which nobody has made a handshake passes on a packet that anybody can write. -/
theorem earlyData_is_passed :
    ¬∀ (source : ℕ) (passwords : List Auth) (resetAfterInactivitySeconds : BitVec 32)
      (watched : Watched) (nowSecs : BitVec 64) (chance : Chance) (received : Packet)
      (message : List (BitVec 8)),
      (wrapperRuns source passwords resetAfterInactivitySeconds).Reachable (fun _ _ => True)
        watched →
      received.IsFeasible → 3 < received.nonce.toNat →
      (watched.endpoint.call (newContext source passwords resetAfterInactivitySeconds)
        (.receive nowSecs chance received)).outcome = .passed message →
      ∃ box ∈ (watched.call (newContext source passwords resetAfterInactivitySeconds)
          (.receive nowSecs chance received)).authenticated,
        Key.OwnedBy box.maker
          (watched.call (newContext source passwords resetAfterInactivitySeconds)
            (.receive nowSecs chance received)).endpoint.wrapper.herPerminentPubKey := by
  intro claimed
  rcases claimed 0 [] 60 (newWatched true) 0 .zero earlyData [42] (newWatched_reachable _ _)
    earlyData_feasible (by decide) rfl with ⟨box, found, _⟩
  cases found

end CryptoAuth

end Cjdns
