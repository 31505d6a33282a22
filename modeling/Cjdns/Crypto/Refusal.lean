import Cjdns.Crypto.CryptoAuth

/-!
# Packets that an established connection refuses

`tryAuth` runs before the authenticator of a handshake packet is looked at, and
it writes to the wrapper: a packet with an unknown password and the `A` bit
turns packet authentication on, whoever has sent it. That is all a refused
packet can change once the handshake is over.
-/

namespace Cjdns

namespace CryptoAuth

variable {context : Context} {nowSecs : BitVec 64} {chance : Chance} {received : Packet}
  {rand : Random} {wrapper : Wrapper} {error : BitVec 8}

theorem acceptHandshake_accepts (user : Option ℕ) (herPermKey : Key) (nextNonce : ℕ)
    (box : HandshakeBox) :
    (acceptHandshake context nowSecs chance received user herPermKey nextNonce box rand
      wrapper).outcome ≠ .refused error := by
  simp only [acceptHandshake]
  split
  · simp
  · simp [callReceivedMessage]

theorem openHandshake_refused {user : Option ℕ} {herPermKey : Key} {nextNonce : ℕ}
    {sharedSecret : SharedSecret}
    (refused : (openHandshake context nowSecs chance received user herPermKey nextNonce sharedSecret
      rand wrapper).outcome = .refused error) :
    (openHandshake context nowSecs chance received user herPermKey nextNonce sharedSecret rand
      wrapper).wrapper = wrapper := by
  revert refused
  rw [openHandshake]
  split_ifs
  · intro _
    rfl
  · split
    · intro _
      rfl
    · intro refused
      exact absurd refused (acceptHandshake_accepts _ _ _ _)

/-- The wrapper that a refused handshake packet leaves behind -/
theorem decryptHandshake_refused (started : 2 ≤ wrapper.nextNonce)
    (refused : (decryptHandshake context nowSecs chance received rand wrapper).outcome =
      .refused error) :
    (decryptHandshake context nowSecs chance received rand wrapper).wrapper =
      if received.length < Headers_CryptoAuth_SIZE then wrapper
      else (tryAuth context received.handshake.auth wrapper).wrapper := by
  revert refused
  rw [decryptHandshake]
  split
  · intro _
    rfl
  split
  · omega
  dsimp only
  split
  · intro _
    rfl
  split
  · intro _
    rfl
  split
  · exact openHandshake_refused
  · exact openHandshake_refused

/-- On an established connection, the packet gets as far as the password lookup. -/
def Packet.isLookedUp (received : Packet) : Bool :=
  received.nonce.toNat ≤ 4 && Headers_CryptoAuth_SIZE ≤ received.length

theorem isLookedUp_iff : received.isLookedUp = true ↔
    received.nonce.toNat ≤ 4 ∧ Headers_CryptoAuth_SIZE ≤ received.length := by
  simp [Packet.isLookedUp]

/-- The wrapper that a refused packet leaves behind -/
theorem receiveMessage_refused (established : 5 ≤ wrapper.nextNonce)
    (refused : (receiveMessage context nowSecs chance received rand wrapper).outcome =
      .refused error) :
    (receiveMessage context nowSecs chance received rand wrapper).wrapper =
      if received.isLookedUp then (tryAuth context received.handshake.auth wrapper).wrapper
      else wrapper := by
  have runtLength : wrapper.minLength < 120 := by
    rw [Wrapper.minLength]
    split <;> norm_num
  have looked : received.isLookedUp = true ↔ received.nonce.toNat ≤ 4 ∧ 120 ≤ received.length :=
    isLookedUp_iff
  revert refused
  simp only [receiveMessage]
  split
  · intro _
    rw [if_neg (by rw [looked]; omega)]
    rfl
  rw [if_neg (not_lt.mpr established)]
  split
  · rename_i late
    rw [if_neg (by rw [looked]; omega), receiveData]
    split
    · simp [callReceivedMessage]
    · intro _
      rfl
  · rename_i early
    intro refused
    rw [decryptHandshake_refused (by omega) refused]
    by_cases long : 120 ≤ received.length
    · rw [if_neg (not_lt.mpr long), if_pos (looked.mpr ⟨not_lt.mp early, long⟩)]
    · rw [if_pos (not_le.mp long), if_neg (fun enters => long (looked.mp enters).2)]

/-! ## What is disturbed -/

/-- Nothing is handed up, and nothing that later packets depend on changes. -/
structure Undisturbed (before : Wrapper) (received : Received) : Prop where
  nothing_passed : ∀ message, received.outcome ≠ .passed message
  nextNonce : received.wrapper.nextNonce = before.nextNonce
  isInitiator : received.wrapper.isInitiator = before.isInitiator
  secret : received.wrapper.secret = before.secret
  tempKey : received.wrapper.tempKey = before.tempKey
  herPerminentPubKey : received.wrapper.herPerminentPubKey = before.herPerminentPubKey
  user : received.wrapper.user = before.user
  authenticatePackets : received.wrapper.authenticatePackets = before.authenticatePackets
  requireAuth : received.wrapper.requireAuth = before.requireAuth
  replayProtector : received.wrapper.replayProtector = before.replayProtector

/-- A handshake packet that asks for packet authentication with a password nobody knows, on a
connection that does without. -/
def SwitchesAuthentication (context : Context) (received : Packet) (wrapper : Wrapper) : Prop :=
  received.isLookedUp = true ∧ wrapper.authenticatePackets = false ∧
    getAuth received.handshake.auth context = none ∧
    received.handshake.auth.requirePacketAuth = true

/-- A refused packet disturbs an established connection if and only if it switches packet
authentication on. -/
theorem refused_undisturbed_iff (established : 5 ≤ wrapper.nextNonce)
    (refused : (receiveMessage context nowSecs chance received rand wrapper).outcome =
      .refused error) :
    Undisturbed wrapper (receiveMessage context nowSecs chance received rand wrapper) ↔
      ¬SwitchesAuthentication context received wrapper := by
  have after := receiveMessage_refused established refused
  constructor
  · intro undisturbed switches
    rcases switches with ⟨looked, plain, unknown, required⟩
    have unchanged := undisturbed.authenticatePackets
    rw [after, if_pos looked, tryAuth, unknown] at unchanged
    simp [plain, required] at unchanged
  · intro quiet
    have same : (receiveMessage context nowSecs chance received rand wrapper).wrapper = wrapper := by
      rw [after]
      split
      · rename_i looked
        rw [tryAuth]
        split
        · rfl
        · rename_i unknown
          have kept : (wrapper.authenticatePackets ||
              received.handshake.auth.requirePacketAuth) = wrapper.authenticatePackets := by
            cases required : received.handshake.auth.requirePacketAuth with
            | false => exact Bool.or_false _
            | true =>
                cases plain : wrapper.authenticatePackets with
                | true => rfl
                | false => exact absurd ⟨looked, plain, unknown, required⟩ quiet
          simp only [kept]
      · rfl
    constructor
    case nothing_passed =>
      intro message passed
      rw [refused] at passed
      cases passed
    all_goals rw [same]

/-! ## A forged hello -/

/-- A context with no passwords and a reset after a minute -/
def bareContext : Context where
  privateKey := .random 0 0
  passwords := []
  resetAfterInactivitySeconds := 60

/-- An established connection without packet authentication -/
def plainConnection : Wrapper where
  __ := wrapInterface (some (.publicKey (.random 1 0))) false false 0
  secret := (Key.random 0 1).agreement (.publicKey (.random 1 1))
  tempKey := .publicKey (.random 1 1)
  nextNonce := 6
  isInitiator := true

/-- A hello in the name of the other node that nobody has sealed; it gives no password and sets
the `A` bit. -/
def forgedHello : Packet where
  nonce := 0
  length := 120
  handshake := {
    auth := { Chance.zero.auth with requirePacketAuth := true }
    nonce := 0
    publicKey := .publicKey (.random 1 0)
    box := none }
  data := none
  garble := Chance.zero.garble

theorem refused_undisturbed_iff_forgedHello :
    5 ≤ plainConnection.nextNonce ∧
      (receiveMessage bareContext 0 .zero forgedHello ⟨0, 2⟩ plainConnection).outcome =
        .refused Error.AUTHENTICATION ∧
      (Undisturbed plainConnection
          (receiveMessage bareContext 0 .zero forgedHello ⟨0, 2⟩ plainConnection) ↔
        ¬SwitchesAuthentication bareContext forgedHello plainConnection) :=
  ⟨by decide, rfl, refused_undisturbed_iff (by decide) rfl⟩

/-- The forged hello is refused, and turns packet authentication on. -/
theorem forgedHello_disturbs :
    ¬∀ (context : Context) (nowSecs : BitVec 64) (chance : Chance) (received : Packet)
      (rand : Random) (wrapper : Wrapper) (error : BitVec 8), 5 ≤ wrapper.nextNonce →
      (receiveMessage context nowSecs chance received rand wrapper).outcome = .refused error →
      Undisturbed wrapper (receiveMessage context nowSecs chance received rand wrapper) := by
  intro claimed
  have undisturbed := claimed bareContext 0 .zero forgedHello ⟨0, 2⟩ plainConnection
    Error.AUTHENTICATION (by decide) rfl
  have unchanged : true = false := undisturbed.authenticatePackets
  cases unchanged

end CryptoAuth

end Cjdns
