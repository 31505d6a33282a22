import Cjdns.Crypto.Passwords
import Cjdns.Crypto.Provenance

/-!
# Padding

What `sendMessage` needs in front of a message, and what an interface says that it needs. A new
wrapper says nothing, and what is said when a handshake packet was taken has the two cases the
wrong way round: the 36 bytes of a data packet before the handshake is complete.
-/

namespace Cjdns.CryptoAuth

/-! ## Shifts -/

namespace Shifts

/-- What `encryptRndNonce` does to the edges of a message -/
def encryptRndNonce (msg : Message) : Option Message :=
  if 32 ≤ msg.padding then msg.shift 16 else none

/-- `genReverseHandshake`, which keeps a copy of the message -/
def genReverseHandshake (message : Message) : Option Message := do
  let message ← message.shift (-Headers_CryptoAuth_SIZE)
  let message ← message.shift Headers_CryptoAuth_SIZE
  some { message with length := Headers_CryptoAuth_SIZE }

/-- `encryptHandshake` -/
def encryptHandshake (message : Message) (wrapper : Wrapper) : Option Message := do
  let message ← message.shift Headers_CryptoAuth_SIZE
  if !wrapper.knowHerKey then genReverseHandshake message
  else
    let message ← message.shift (32 - Headers_CryptoAuth_SIZE)
    let message ← encryptRndNonce message
    message.shift (Headers_CryptoAuth_SIZE - 32 - 16)

/-- `encryptMessage` -/
def encryptMessage (message : Message) (wrapper : Wrapper) : Option Message :=
  if message.padding < 36 then none
  else do
    let message ← if wrapper.authenticatePackets then encryptRndNonce message else some message
    message.shift 4

/-- `sendMessage`: the message that is passed on. There is none where an assertion fails. -/
def sendMessage (context : Context) (nowSecs : BitVec 64) (message : Message)
    (wrapper : Wrapper) : Option Message :=
  let wrapper := expire context nowSecs wrapper
  if wrapper.nextNonce < 4 then encryptHandshake message wrapper
  else encryptMessage message wrapper

variable {context : Context} {nowSecs : BitVec 64} {message : Message} {wrapper : Wrapper}

/-- A shift for which there is room on both sides -/
theorem exists_shift {toShift : Message} {amount : ℤ} (padded : amount ≤ toShift.padding)
    (long : -amount ≤ toShift.length) :
    ∃ shifted, toShift.shift amount = some shifted ∧
      (shifted.length : ℤ) = toShift.length + amount ∧
      (shifted.padding : ℤ) = toShift.padding - amount := by
  have shifts : ∃ shifted, toShift.shift amount = some shifted := by
    rw [Message.shift]
    split_ifs
    · exact ⟨_, rfl⟩
    · exact ⟨_, rfl⟩
  rcases shifts with ⟨shifted, shifts⟩
  rcases Message.shift_eq_some shifts with ⟨-, -, length, padding⟩
  exact ⟨shifted, shifts, length, padding⟩

theorem shift_eq_none {toShift : Message} {amount : ℤ} (positive : 0 < amount)
    (short : toShift.padding < amount) : toShift.shift amount = none := by
  rw [Message.shift, if_pos positive, if_neg (by omega)]

/-- Going back and forth over the header leaves the message where it is. -/
theorem genReverseHandshake_eq (long : 120 ≤ message.length) :
    ∃ sent, genReverseHandshake message = some sent ∧ sent.padding = message.padding := by
  rcases @exists_shift message (-(120 : ℕ)) (by omega) (by omega) with
    ⟨copied, first, length, padding⟩
  rcases @exists_shift copied (120 : ℕ) (by omega) (by omega) with ⟨sent, second, -, back⟩
  refine ⟨{ sent with length := 120 }, ?_, ?_⟩
  · simp only [genReverseHandshake, first, Option.bind_eq_bind, Option.bind_some]
    simp only [second, Option.bind_some]
  · change sent.padding = _
    omega

theorem encryptRndNonce_eq (padded : 32 ≤ message.padding) :
    ∃ sealed, encryptRndNonce message = some sealed ∧
      sealed.padding = message.padding - 16 := by
  rcases @exists_shift message (16 : ℕ) (by omega) (by omega) with ⟨sealed, shifts, -, padding⟩
  exact ⟨sealed, (if_pos padded).trans shifts, by omega⟩

/-- A handshake packet needs room for its header. -/
theorem encryptHandshake_eq (padded : 120 ≤ message.padding) :
    ∃ sent, encryptHandshake message wrapper = some sent ∧
      sent.padding = message.padding - 120 := by
  rcases @exists_shift message (120 : ℕ) (by omega) (by omega) with
    ⟨headed, first, length, padding⟩
  simp only [encryptHandshake, first, Option.bind_eq_bind, Option.bind_some]
  split_ifs
  · rcases @genReverseHandshake_eq headed (by omega) with ⟨sent, reversed, same⟩
    exact ⟨sent, reversed, by omega⟩
  · rcases @exists_shift headed (32 - (120 : ℕ)) (by omega) (by omega) with
      ⟨keyed, second, -, before⟩
    rcases @encryptRndNonce_eq keyed (by omega) with ⟨sealed, third, within⟩
    rcases @exists_shift sealed ((120 : ℕ) - 32 - 16) (by omega) (by omega) with
      ⟨sent, last, -, behind⟩
    refine ⟨sent, ?_, by omega⟩
    simp only [second, Option.bind_some, third]
    exact last

theorem encryptHandshake_eq_none (short : message.padding < 120) :
    encryptHandshake message wrapper = none := by
  have shifts : message.shift (120 : ℕ) = none := shift_eq_none (by omega) (by omega)
  simp only [encryptHandshake, shifts, Option.bind_eq_bind, Option.bind_none]

/-- What a data packet takes of the padding -/
def dataOverhead (wrapper : Wrapper) : ℕ :=
  if wrapper.authenticatePackets then 20 else 4

/-- A data packet needs room for its nonce and an authenticator, and 36 bytes anyway. -/
theorem encryptMessage_eq (padded : 36 ≤ message.padding) :
    ∃ sent, encryptMessage message wrapper = some sent ∧
      sent.padding = message.padding - dataOverhead wrapper := by
  rw [encryptMessage, if_neg (not_lt.mpr padded), dataOverhead]
  split_ifs
  · rcases @encryptRndNonce_eq message (by omega) with ⟨sealed, first, within⟩
    rcases @exists_shift sealed (4 : ℕ) (by omega) (by omega) with ⟨sent, last, -, behind⟩
    refine ⟨sent, ?_, by omega⟩
    simp only [first, Option.bind_eq_bind, Option.bind_some]
    exact last
  · rcases @exists_shift message (4 : ℕ) (by omega) (by omega) with ⟨sent, last, -, behind⟩
    refine ⟨sent, ?_, by omega⟩
    simp only [Option.bind_eq_bind, Option.bind_some]
    exact last

end Shifts

/-! ## What is advertised -/

/-- `setRequiredPadding`, with the padding that the wrapped interface requires -/
def setRequiredPadding (wrapped : BitVec 16) (nextNonce : ℕ) : BitVec 16 :=
  let padding : BitVec 32 :=
    if nextNonce < 4 then 36 else BitVec.ofNat 32 Headers_CryptoAuth_SIZE + 32
  (wrapped.setWidth 32 + padding).setWidth 16

/-- `decryptHandshake` comes to its end, where it calls `setRequiredPadding`: the content of a
handshake packet is passed on nowhere else. -/
def Received.setsPadding (received : Received) : Bool :=
  match received.outcome, received.deeds with
  | .passed _, .took _ _ :: _ => true
  | _, _ => false

/-- A wrapper with what its external interface requires -/
structure Padded where
  endpoint : Endpoint
  /-- `externalInterface.requiredPadding` -/
  requiredPadding : BitVec 16
  /-- The session state in which it was set last; no function reads it. -/
  setIn : Option ℕ

/-- A call from outside, where the passwords and the timeout may change between calls -/
inductive PaddedCall where
  | call (context : Context) (call : Call)
  | setAuth (password : Option String)
  | getUser (table : PasswordTable)

namespace Padded

/-- The wrapped interface requires the padding `wrapped`. -/
def call (wrapped : BitVec 16) (state : Padded) : PaddedCall → Padded
  | .call context (.receive nowSecs chance received) =>
      let after := receiveMessage context nowSecs chance received state.endpoint.rand
        state.endpoint.wrapper
      { endpoint := ⟨after.wrapper, after.rand⟩
        requiredPadding :=
          if after.setsPadding then setRequiredPadding wrapped after.wrapper.nextNonce
          else state.requiredPadding
        setIn := if after.setsPadding then some after.wrapper.nextNonce else state.setIn }
  | .call context other => { state with endpoint := (state.endpoint.call context other).endpoint }
  | .setAuth password =>
      { state with endpoint :=
          { state.endpoint with wrapper := CryptoAuth.setAuth password state.endpoint.wrapper } }
  | .getUser table =>
      { state with endpoint :=
          { state.endpoint with wrapper := (table.getUser state.endpoint.wrapper).2 } }

/-- The runs of a wrapper that `CryptoAuth_wrapInterface` has created -/
def runs (wrapped : BitVec 16) : TransitionSystem Padded PaddedCall where
  initial state := ∃ herPublicKey requireAuth authenticatePackets nowSecs rand,
    state = {
      endpoint := ⟨wrapInterface herPublicKey requireAuth authenticatePackets nowSecs, rand⟩
      requiredPadding := 0
      setIn := none }
  step before event after := after = before.call wrapped event

/-- Messages with the padding that is required are passed on with what the wrapped interface
requires. -/
def Suffices (context : Context) (nowSecs : BitVec 64) (wrapped : BitVec 16)
    (state : Padded) : Prop :=
  ∀ message : Message, state.requiredPadding.toNat ≤ message.padding →
    ∃ sent, Shifts.sendMessage context nowSecs message state.endpoint.wrapper = some sent ∧
      wrapped.toNat ≤ sent.padding

/-- The padding was set last for a key packet, or for a hello and the next packet is a data packet
nevertheless; and there was no overflow. -/
def SetInTime (context : Context) (nowSecs : BitVec 64) (wrapped : BitVec 16)
    (state : Padded) : Prop :=
  ∃ nextNonce, state.setIn = some nextNonce ∧
    (4 ≤ nextNonce ∧ wrapped.toNat + 152 < 2 ^ 16 ∨
      nextNonce < 4 ∧ wrapped.toNat + 36 < 2 ^ 16 ∧
        4 ≤ (expire context nowSecs state.endpoint.wrapper).nextNonce)

variable {context : Context} {nowSecs : BitVec 64} {wrapped : BitVec 16} {state : Padded}

theorem toNat_setRequiredPadding (nextNonce : ℕ) :
    (setRequiredPadding wrapped nextNonce).toNat =
      (wrapped.toNat + if nextNonce < 4 then 36 else 152) % 2 ^ 16 := by
  have small := wrapped.isLt
  rw [setRequiredPadding]
  split_ifs
  · rw [BitVec.toNat_setWidth, BitVec.toNat_add, BitVec.toNat_setWidth]
    change (wrapped.toNat % 2 ^ 32 + 36) % 2 ^ 32 % 2 ^ 16 = _
    omega
  · rw [BitVec.toNat_setWidth, BitVec.toNat_add, BitVec.toNat_setWidth]
    change (wrapped.toNat % 2 ^ 32 + 152) % 2 ^ 32 % 2 ^ 16 = _
    omega

/-- The interface requires what was set last, and a new one nothing. -/
def IsSet (wrapped : BitVec 16) (state : Padded) : Prop :=
  state.requiredPadding = (state.setIn.map (setRequiredPadding wrapped)).getD 0

theorem isSet_call (event : PaddedCall) (isSet : state.IsSet wrapped) :
    (state.call wrapped event).IsSet wrapped := by
  rcases event with ⟨context, call⟩ | password | table
  · rcases call with _ | ⟨nowSecs, chance, received⟩ | _ | _
    · exact isSet
    · simp only [IsSet, call]
      split_ifs
      · rfl
      · exact isSet
    · exact isSet
    · exact isSet
  · exact isSet
  · exact isSet

theorem isSet_isInvariant :
    (runs wrapped).IsInvariant (fun _ _ => True) (IsSet wrapped) where
  initial := by
    rintro _ ⟨_, _, _, _, _, rfl⟩
    rfl
  step := by
    rintro before event _ isSet - rfl
    exact isSet_call event isSet

theorem sendMessage_of_handshake {wrapper : Wrapper} (message : Message)
    (handshake : (expire context nowSecs wrapper).nextNonce < 4) :
    Shifts.sendMessage context nowSecs message wrapper =
      Shifts.encryptHandshake message (expire context nowSecs wrapper) := by
  rw [Shifts.sendMessage]
  exact if_pos handshake

theorem sendMessage_of_data {wrapper : Wrapper} (message : Message)
    (data : ¬ (expire context nowSecs wrapper).nextNonce < 4) :
    Shifts.sendMessage context nowSecs message wrapper =
      Shifts.encryptMessage message (expire context nowSecs wrapper) := by
  rw [Shifts.sendMessage]
  exact if_neg data

/-- A message with no more padding than is required -/
def tight (state : Padded) : Message where
  memory := fun _ => 0
  length := 0
  padding := state.requiredPadding.toNat
  bytes := 0

theorem suffices_iff_of_handshake
    (handshake : (expire context nowSecs state.endpoint.wrapper).nextNonce < 4) :
    state.Suffices context nowSecs wrapped ↔
      wrapped.toNat + 120 ≤ state.requiredPadding.toNat := by
  simp only [Suffices, sendMessage_of_handshake _ handshake]
  constructor
  · intro every
    rcases every state.tight le_rfl with ⟨sent, sends, left⟩
    rcases lt_or_ge state.requiredPadding.toNat 120 with short | padded
    · rw [Shifts.encryptHandshake_eq_none short] at sends
      cases sends
    · rcases @Shifts.encryptHandshake_eq state.tight
        (expire context nowSecs state.endpoint.wrapper) padded with ⟨other, same, rest⟩
      rw [same, Option.some.injEq] at sends
      rw [sends] at rest
      change _ = state.requiredPadding.toNat - 120 at rest
      omega
  · intro large message padded
    rcases @Shifts.encryptHandshake_eq message _ (by omega) with ⟨sent, sends, rest⟩
    exact ⟨sent, sends, by omega⟩

theorem suffices_iff_of_data
    (data : ¬ (expire context nowSecs state.endpoint.wrapper).nextNonce < 4) :
    state.Suffices context nowSecs wrapped ↔
      36 ≤ state.requiredPadding.toNat ∧ wrapped.toNat +
        Shifts.dataOverhead (expire context nowSecs state.endpoint.wrapper) ≤
          state.requiredPadding.toNat := by
  have most : Shifts.dataOverhead (expire context nowSecs state.endpoint.wrapper) ≤ 20 := by
    rw [Shifts.dataOverhead]
    split_ifs <;> omega
  simp only [Suffices, sendMessage_of_data _ data]
  constructor
  · intro every
    rcases every state.tight le_rfl with ⟨sent, sends, left⟩
    rcases lt_or_ge state.requiredPadding.toNat 36 with short | padded
    · have fails : Shifts.encryptMessage state.tight
          (expire context nowSecs state.endpoint.wrapper) = none := if_pos short
      rw [fails] at sends
      cases sends
    · rcases @Shifts.encryptMessage_eq state.tight
        (expire context nowSecs state.endpoint.wrapper) padded with ⟨other, same, rest⟩
      rw [same, Option.some.injEq] at sends
      rw [sends] at rest
      change _ = state.requiredPadding.toNat - _ at rest
      omega
  · rintro ⟨padded, large⟩ message enough
    rcases @Shifts.encryptMessage_eq message
      (expire context nowSecs state.endpoint.wrapper) (by omega) with ⟨sent, sends, rest⟩
    exact ⟨sent, sends, by omega⟩

/-- In every state of a run, what is required suffices exactly if it was set in time. -/
theorem suffices_iff_setInTime
    (reachable : (runs wrapped).Reachable (fun _ _ => True) state) :
    state.Suffices context nowSecs wrapped ↔ state.SetInTime context nowSecs wrapped := by
  have isSet : state.IsSet wrapped := reachable.invariant isSet_isInvariant
  have small := wrapped.isLt
  have most : Shifts.dataOverhead (expire context nowSecs state.endpoint.wrapper) ≤ 20 ∧
      4 ≤ Shifts.dataOverhead (expire context nowSecs state.endpoint.wrapper) := by
    rw [Shifts.dataOverhead]
    split_ifs <;> omega
  rw [IsSet] at isSet
  rw [SetInTime]
  rcases when : state.setIn with _ | nextNonce
  · rw [when] at isSet
    have nothing : state.requiredPadding.toNat = 0 := congrArg BitVec.toNat isSet
    refine iff_of_false (fun every => ?_) fun ⟨_, impossible, _⟩ => by cases impossible
    by_cases handshake : (expire context nowSecs state.endpoint.wrapper).nextNonce < 4
    · have needs := (suffices_iff_of_handshake handshake).mp every
      omega
    · have needs := ((suffices_iff_of_data handshake).mp every).1
      omega
  · rw [when] at isSet
    have required : state.requiredPadding.toNat = _ :=
      (congrArg BitVec.toNat isSet).trans (toNat_setRequiredPadding nextNonce)
    simp only [Option.some.injEq, exists_eq_left']
    by_cases handshake : (expire context nowSecs state.endpoint.wrapper).nextNonce < 4
    · rw [suffices_iff_of_handshake handshake, required]
      split_ifs <;> omega
    · rw [suffices_iff_of_data handshake, required]
      split_ifs <;> omega

/-! ## The first packets -/

/-- A new wrapper that knows the other node -/
def fresh : Padded where
  endpoint := ⟨wrapInterface (some (.publicKey (.random 1 0))) false true 0, ⟨0, 1⟩⟩
  requiredPadding := 0
  setIn := none

/-- The wrapper has taken a hello. -/
def greeted : Padded :=
  fresh.call 0 (.call (newContext 0 [] 60) (.receive 0 .zero honestHello))

/-- A data packet has come after the hello. -/
def established : Padded :=
  greeted.call 0 (.call (newContext 0 [] 60) (.receive 0 .zero honestData))

theorem suffices_established : established.Suffices (newContext 0 [] 60) 0 0 := by
  have new : (runs 0).Reachable (fun _ _ => True) fresh := .initial ⟨_, _, _, _, _, rfl⟩
  have hello : (runs 0).Reachable (fun _ _ => True) greeted := .step new trivial rfl
  have reachable : (runs 0).Reachable (fun _ _ => True) established := .step hello trivial rfl
  apply (suffices_iff_setInTime reachable).mpr
  exact ⟨2, by decide, .inr (by decide)⟩

/-- A new wrapper requires nothing, and 36 bytes when it is about to send a key. -/
theorem too_little_required :
    (runs 0).Reachable (fun _ _ => True) fresh ∧ (runs 0).Reachable (fun _ _ => True) greeted ∧
      fresh.requiredPadding = 0 ∧ ¬ fresh.Suffices (newContext 0 [] 60) 0 0 ∧
      greeted.requiredPadding = 36 ∧ ¬ greeted.Suffices (newContext 0 [] 60) 0 0 := by
  have new : (runs 0).Reachable (fun _ _ => True) fresh := .initial ⟨_, _, _, _, _, rfl⟩
  refine ⟨new, .step new trivial rfl, rfl, fun every => ?_, by decide, fun every => ?_⟩
  · have needs := (suffices_iff_of_handshake (by decide)).mp every
    exact absurd needs (by decide)
  · have needs := (suffices_iff_of_handshake (by decide)).mp every
    exact absurd needs (by decide)

end Padded

end Cjdns.CryptoAuth
