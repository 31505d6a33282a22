import Cjdns.Crypto.CryptoAuth

/-!
# The moves of the handshake

What CryptoAuth can do to the part of its state that the handshake is about, one
constructor for every case that the source tells apart. Every call of the source
is a sequence of moves, and results about runs are proved by cases on the move.
-/

namespace Cjdns

namespace CryptoAuth

/-! ## What is written -/

/-- A handshake packet as `encryptHandshake` writes it -/
structure Packet.IsHandshake (packet : Packet) (nonce : ℕ) (point tempKey : Key) (maker : ℕ) :
    Prop where
  nonce_eq : packet.nonce.toNat = nonce
  box : ∃ box, packet.handshake.box = some box ∧ box.sharedSecret.point = point ∧
    box.encryptedTempKey = tempKey ∧ box.maker = maker
  data : packet.data = none

/-- A data packet as `encryptMessage` writes it -/
structure Packet.IsData (packet : Packet) (nonce : ℕ) (secret : Key) (isInitiator : Bool) :
    Prop where
  box : packet.handshake.box = none
  data : ∃ data, packet.data = some data ∧ data.secret = secret ∧
    data.nonce = encryptNonce nonce isInitiator

/-- A packet in which nothing is encrypted -/
structure Packet.IsBare (packet : Packet) : Prop where
  box : packet.handshake.box = none
  data : packet.data = none

/-! ## Moves -/

/-- The part of the state that the handshake is about -/
structure View where
  herPerminentPubKey : Key
  secret : Key
  tempKey : Key
  nextNonce : ℕ
  isInitiator : Bool
  rand : Random

def Wrapper.view (wrapper : Wrapper) (rand : Random) : View where
  herPerminentPubKey := wrapper.herPerminentPubKey
  secret := wrapper.secret
  tempKey := wrapper.tempKey
  nextNonce := wrapper.nextNonce
  isInitiator := wrapper.isInitiator
  rand := rand

/-- The random value that is drawn next -/
abbrev View.fresh (view : View) : Key :=
  .random view.rand.source view.rand.drawn

/-- The random source once it is drawn -/
abbrev View.rest (view : View) : Random :=
  { view.rand with drawn := view.rand.drawn + 1 }

/-- The secret that the final step of the handshake computes -/
abbrev View.finalSecret (view : View) : Key :=
  view.secret.agreement view.tempKey

/-- One move, with what happened in it -/
inductive Move (context : Context) : View → Deed → View → Prop where
  | reset (view : View) : Move context view .reset
      { view with nextNonce := 0, isInitiator := false }
  | asked (view : View) (herPermKey : Key) (early : view.nextNonce < 2)
      (kept : view.herPerminentPubKey ≠ .zero → herPermKey = view.herPerminentPubKey) :
      Move context view (.asked herPermKey)
        { view with herPerminentPubKey := herPermKey, nextNonce := 0 }
  | ask (view : View) {packet : Packet} (unknown : view.herPerminentPubKey = .zero)
      (early : view.nextNonce < 4) (bare : packet.IsBare) :
      Move context view (.said packet) { view with nextNonce := 0 }
  | hello (view : View) {packet : Packet} (state : view.nextNonce = 0)
      (known : view.herPerminentPubKey ≠ .zero)
      (written : packet.IsHandshake 0 (context.privateKey.agreement view.herPerminentPubKey)
        (.publicKey view.fresh) view.rand.source) :
      Move context view (.said packet) { view with
        secret := view.fresh, tempKey := .publicKey view.fresh, isInitiator := true,
        nextNonce := 1, rand := view.rest }
  | helloAgain (view : View) {packet : Packet} (state : view.nextNonce = 1)
      (known : view.herPerminentPubKey ≠ .zero)
      (written : packet.IsHandshake 1 (context.privateKey.agreement view.herPerminentPubKey)
        view.tempKey view.rand.source) :
      Move context view (.said packet) { view with isInitiator := true, nextNonce := 1 }
  | key (view : View) {packet : Packet} (state : view.nextNonce = 2)
      (known : view.herPerminentPubKey ≠ .zero)
      (written : packet.IsHandshake 2 (context.privateKey.agreement view.tempKey)
        (.publicKey view.fresh) view.rand.source) :
      Move context view (.said packet) { view with
        secret := view.fresh, nextNonce := 3, rand := view.rest }
  | keyAgain (view : View) {packet : Packet} (state : view.nextNonce = 3)
      (known : view.herPerminentPubKey ≠ .zero)
      (written : packet.IsHandshake 3 (context.privateKey.agreement view.tempKey)
        (.publicKey view.secret) view.rand.source) :
      Move context view (.said packet) { view with nextNonce := 3 }
  | firstData (view : View) {packet : Packet} (state : view.nextNonce = 4)
      (written : packet.IsData 4 view.finalSecret view.isInitiator) :
      Move context view (.said packet) { view with secret := view.finalSecret, nextNonce := 5 }
  | data (view : View) {packet : Packet} (state : 5 ≤ view.nextNonce)
      (written : packet.IsData view.nextNonce view.secret view.isInitiator) :
      Move context view (.said packet)
        { view with nextNonce := (view.nextNonce + 1) % 2 ^ 32 }
  | tookHello (view : View) {received : Packet} {box : HandshakeBox}
      (sealing : received.handshake.box = some box) (early : received.nonce.toNat < 2)
      (point : box.sharedSecret.point = context.privateKey.agreement received.handshake.publicKey)
      (kept : view.herPerminentPubKey ≠ .zero → view.nextNonce ≠ 0 →
        received.handshake.publicKey = view.herPerminentPubKey) :
      Move context view (.took received box) { view with
        herPerminentPubKey := received.handshake.publicKey
        tempKey := box.encryptedTempKey, nextNonce := 2, isInitiator := false }
  | tookKey (view : View) {received : Packet} {box : HandshakeBox}
      (sealing : received.handshake.box = some box) (late : 2 ≤ received.nonce.toNat)
      (same : received.handshake.publicKey = view.herPerminentPubKey)
      (point : box.sharedSecret.point = view.secret.agreement view.herPerminentPubKey) :
      Move context view (.took received box) { view with
        tempKey := box.encryptedTempKey, nextNonce := 4 }
  | final (view : View) {received : Packet} {opened : Bool} (early : view.nextNonce < 5)
      (late : 3 < received.nonce.toNat ∧ received.nonce.toNat ≠ connectToMe)
      (known : view.herPerminentPubKey ≠ .zero)
      (opens : received.opensWith view.finalSecret view.isInitiator = opened) :
      Move context view (.heard received opened) { view with
        secret := view.finalSecret, nextNonce := view.nextNonce + 3 }
  | heard (view : View) {received : Packet} {opened : Bool} (state : 5 ≤ view.nextNonce)
      (late : 4 < received.nonce.toNat) : Move context view (.heard received opened) view

variable {context : Context}

/-- The nonce keeps to its thirty-two bits. -/
theorem Move.nextNonce_lt {before after : View} {deed : Deed} (move : Move context before deed after)
    (bounded : before.nextNonce < 2 ^ 32) : after.nextNonce < 2 ^ 32 := by
  cases move with
  | reset | asked | ask | hello | helloAgain | key | keyAgain | firstData => norm_num
  | data => exact Nat.mod_lt _ (by norm_num)
  | tookHello | tookKey => norm_num
  | final _ early =>
      simp only
      omega
  | heard => exact bounded

/-- The deed needs no packet from the other node. -/
def Deed.IsOwn : Deed → Prop
  | .took _ _ | .heard _ _ => False
  | _ => True

/-- A sequence of moves that take no packet -/
inductive Moves (context : Context) : View → List Deed → View → Prop where
  | nil (view : View) : Moves context view [] view
  | cons {before between after : View} {deed : Deed} {deeds : List Deed}
      (move : Move context before deed between) (own : deed.IsOwn)
      (moves : Moves context between deeds after) : Moves context before (deed :: deeds) after

/-- The moves in response to a packet: it is taken at the beginning, or not at all. -/
inductive Reaction (context : Context) (received : Packet) : View → List Deed → View → Prop where
  | ignored {before after : View} {deeds : List Deed} (moves : Moves context before deeds after) :
      Reaction context received before deeds after
  | took {before between after : View} {box : HandshakeBox} {deeds : List Deed}
      (move : Move context before (.took received box) between)
      (moves : Moves context between deeds after) :
      Reaction context received before (.took received box :: deeds) after
  | heard {before after : View} {opened : Bool}
      (move : Move context before (.heard received opened) after) :
      Reaction context received before [.heard received opened] after

theorem Moves.single {before after : View} {deed : Deed} (move : Move context before deed after)
    (own : deed.IsOwn) : Moves context before [deed] after :=
  .cons move own (.nil after)

/-! ## Calls are sequences of moves -/

variable {nowSecs : BitVec 64} {chance : Chance} {message : List (BitVec 8)}
  {received : Packet} {rand : Random} {wrapper : Wrapper}

theorem knowHerKey_iff : wrapper.knowHerKey = true ↔ wrapper.herPerminentPubKey ≠ .zero := by
  simp [Wrapper.knowHerKey]

/-- `encryptHandshake` is one move. -/
theorem encryptHandshake_move (context : Context) (chance : Chance) (message : List (BitVec 8))
    (rand : Random) (wrapper : Wrapper) (state : wrapper.nextNonce < 4) :
    Move context (wrapper.view rand)
      (.said (encryptHandshake context chance message rand wrapper).packet)
      ((encryptHandshake context chance message rand wrapper).wrapper.view
        (encryptHandshake context chance message rand wrapper).rand) := by
  by_cases known : wrapper.knowHerKey
  · have herKey := knowHerKey_iff.mp known
    have cases : wrapper.nextNonce = 0 ∨ wrapper.nextNonce = 1 ∨ wrapper.nextNonce = 2 ∨
      wrapper.nextNonce = 3 := by omega
    rcases cases with zero | one | two | three
    · simp only [encryptHandshake, known, zero]
      exact .hello (wrapper.view rand) zero herKey ⟨rfl, ⟨_, rfl, rfl, rfl, rfl⟩, rfl⟩
    · simp only [encryptHandshake, known, one]
      exact .helloAgain (wrapper.view rand) one herKey ⟨rfl, ⟨_, rfl, rfl, rfl, rfl⟩, rfl⟩
    · simp only [encryptHandshake, known, two]
      exact .key (wrapper.view rand) two herKey ⟨rfl, ⟨_, rfl, rfl, rfl, rfl⟩, rfl⟩
    · simp only [encryptHandshake, known, three]
      exact .keyAgain (wrapper.view rand) three herKey ⟨rfl, ⟨_, rfl, rfl, rfl, rfl⟩, rfl⟩
  · have unknown : wrapper.herPerminentPubKey = .zero := by
      simpa [Wrapper.knowHerKey] using known
    simp only [encryptHandshake, known]
    exact .ask (wrapper.view rand) unknown state ⟨rfl, rfl⟩

theorem encryptHandshake_deeds (context : Context) (chance : Chance) (message : List (BitVec 8))
    (rand : Random) (wrapper : Wrapper) :
    (encryptHandshake context chance message rand wrapper).deeds =
      [.said (encryptHandshake context chance message rand wrapper).packet] := by
  simp only [encryptHandshake]
  split_ifs <;> rfl

/-- `encryptMessage` is one move once the handshake is over. -/
theorem encryptMessage_move (state : 5 ≤ wrapper.nextNonce) :
    Move context (wrapper.view rand) (.said (encryptMessage chance message rand wrapper).packet)
      ((encryptMessage chance message rand wrapper).wrapper.view rand) :=
  .data (wrapper.view rand) state ⟨rfl, _, rfl, rfl, rfl⟩

/-- The first `encryptMessage` takes the final step of the handshake along. -/
theorem encryptMessage_finalSecret_move (state : wrapper.nextNonce = 4) :
    Move context (wrapper.view rand)
      (.said (encryptMessage chance message rand
        { wrapper with secret := wrapper.finalSecret }).packet)
      ((encryptMessage chance message rand
        { wrapper with secret := wrapper.finalSecret }).wrapper.view rand) := by
  simp only [encryptMessage, state]
  exact .firstData (wrapper.view rand) state ⟨rfl, _, rfl, rfl, rfl⟩

theorem expire_view (context : Context) (nowSecs : BitVec 64) (wrapper : Wrapper) (rand : Random) :
    (expire context nowSecs wrapper).view rand =
      if expires context nowSecs wrapper then
        { wrapper.view rand with nextNonce := 0, isInitiator := false } else wrapper.view rand := by
  rw [expire]
  split <;> rfl

theorem sendUnexpired_move (context : Context) (chance : Chance) (message : List (BitVec 8))
    (rand : Random) (wrapper : Wrapper) :
    Move context (wrapper.view rand)
      (.said (sendUnexpired context chance message rand wrapper).packet)
      ((sendUnexpired context chance message rand wrapper).wrapper.view
        (sendUnexpired context chance message rand wrapper).rand) := by
  rw [sendUnexpired]
  split_ifs with handshake final
  · exact encryptHandshake_move _ _ _ _ _ handshake
  · exact encryptMessage_finalSecret_move (by omega)
  · exact encryptMessage_move (by omega)

theorem sendMessage_deeds (context : Context) (nowSecs : BitVec 64) (chance : Chance)
    (message : List (BitVec 8)) (rand : Random) (wrapper : Wrapper) :
    (sendMessage context nowSecs chance message rand wrapper).deeds =
      (if expires context nowSecs wrapper then [.reset] else []) ++
        [.said (sendMessage context nowSecs chance message rand wrapper).packet] :=
  rfl

/-- `sendMessage` is one move, behind a reset or not. -/
theorem sendMessage_moves (context : Context) (nowSecs : BitVec 64) (chance : Chance)
    (message : List (BitVec 8)) (rand : Random) (wrapper : Wrapper) :
    Moves context (wrapper.view rand)
      (sendMessage context nowSecs chance message rand wrapper).deeds
      ((sendMessage context nowSecs chance message rand wrapper).wrapper.view
        (sendMessage context nowSecs chance message rand wrapper).rand) := by
  have move : Move context ((expire context nowSecs wrapper).view rand) _ _ :=
    sendUnexpired_move context chance message rand (expire context nowSecs wrapper)
  rw [sendMessage_deeds]
  by_cases expired : expires context nowSecs wrapper
  · rw [if_pos expired]
    rw [expire_view, if_pos expired] at move
    exact .cons (.reset _) trivial (.single move trivial)
  · rw [if_neg expired]
    rw [expire_view, if_neg expired] at move
    exact .single move trivial

/-- What a call that receives leaves behind is a reaction to the packet. -/
def Received.Follows (context : Context) (packet : Packet) (view : View) (received : Received) :
    Prop :=
  Reaction context packet view received.deeds (received.wrapper.view received.rand)

theorem refuse_follows (error : BitVec 8) (rand : Random) (wrapper : Wrapper) :
    (refuse error rand wrapper).Follows context received (wrapper.view rand) :=
  .ignored (.nil _)

theorem callReceivedMessage_view (nowSecs : BitVec 64) (message : List (BitVec 8)) (deed : Deed)
    (rand : Random) (wrapper : Wrapper) :
    (callReceivedMessage nowSecs message deed rand wrapper).wrapper.view rand =
      wrapper.view rand := by
  simp only [callReceivedMessage]
  split_ifs <;> rfl

/-- Passing a message on is no move of its own. -/
theorem callReceivedMessage_follows {nowSecs : BitVec 64} {message : List (BitVec 8)}
    {opened : Bool} {rand : Random} {wrapper : Wrapper} {view : View}
    (move : Move context view (.heard received opened) (wrapper.view rand)) :
    (callReceivedMessage nowSecs message (.heard received opened) rand wrapper).Follows context
      received view := by
  change Reaction context received view [.heard received opened]
    ((callReceivedMessage nowSecs message (.heard received opened) rand wrapper).wrapper.view rand)
  rw [callReceivedMessage_view]
  exact .heard move

/-- The end of `decryptHandshake` takes the packet and may send what was buffered. -/
theorem acceptHandshake_follows (nowSecs : BitVec 64) (chance : Chance) {received : Packet}
    {user : Option ℕ} {herPermKey : Key} {nextNonce : ℕ} {box : HandshakeBox} {rand : Random}
    {wrapper : Wrapper}
    (move : Move context (wrapper.view rand) (.took received box)
      ((wrapper.accept user herPermKey nextNonce box).view rand)) :
    (acceptHandshake context nowSecs chance received user herPermKey nextNonce box rand
      wrapper).Follows context received (wrapper.view rand) := by
  simp only [acceptHandshake]
  split
  · exact .took move (sendMessage_moves ..)
  · refine .took move ?_
    have same := callReceivedMessage_view nowSecs box.content (.took received box) rand
      { wrapper.accept user herPermKey nextNonce box with replayProtector := {} }
    exact same ▸ .nil _

theorem decryptRndNonce_eq_some {handshake : Handshake} {sharedSecret : SharedSecret}
    {box : HandshakeBox} (opened : decryptRndNonce handshake sharedSecret = some box) :
    handshake.box = some box ∧ box.sharedSecret = sharedSecret := by
  simp only [decryptRndNonce, Option.filter_eq_some_iff, Bool.and_eq_true, decide_eq_true_eq]
    at opened
  exact ⟨opened.1, opened.2.1⟩

theorem answerConnectToMe_follows (chance : Chance) {herPermKey : Key} (rand : Random)
    {wrapper : Wrapper} (early : wrapper.nextNonce < 2)
    (kept : wrapper.herPerminentPubKey ≠ .zero → herPermKey = wrapper.herPerminentPubKey) :
    (answerConnectToMe context chance herPermKey rand wrapper).Follows context received
      (wrapper.view rand) := by
  have initial : (0 : ℕ) < 4 := by norm_num
  simp only [Received.Follows, answerConnectToMe, encryptHandshake_deeds]
  exact .ignored (.cons (.asked _ _ early kept) trivial (.single
    (encryptHandshake_move context chance [] rand
      { wrapper with herPerminentPubKey := herPermKey, nextNonce := 0, user := none } initial)
    trivial))

theorem openHandshake_follows (nowSecs : BitVec 64) (chance : Chance) {received : Packet}
    {user : Option ℕ} {herPermKey : Key} {nextNonce : ℕ} {sharedSecret : SharedSecret}
    {rand : Random} {wrapper : Wrapper}
    (move : ∀ {box : HandshakeBox}, received.handshake.publicKey = herPermKey →
      received.handshake.box = some box → box.sharedSecret = sharedSecret →
      Move context (wrapper.view rand) (.took received box)
        ((wrapper.accept user herPermKey nextNonce box).view rand)) :
    (openHandshake context nowSecs chance received user herPermKey nextNonce sharedSecret rand
      wrapper).Follows context received (wrapper.view rand) := by
  rw [openHandshake]
  split_ifs with other
  · exact refuse_follows ..
  · split
    · exact refuse_follows ..
    · rename_i box opened
      rcases decryptRndNonce_eq_some opened with ⟨sealing, secret⟩
      exact acceptHandshake_follows _ _ (move (not_not.mp other) sealing secret)

theorem tryAuth_view (context : Context) (challenge : AuthChallenge) (wrapper : Wrapper)
    (rand : Random) : (tryAuth context challenge wrapper).wrapper.view rand = wrapper.view rand := by
  rw [tryAuth]
  split <;> rfl

/-- `decryptHandshake` does nothing, answers a request for a hello, or takes the packet. -/
theorem decryptHandshake_follows (context : Context) (nowSecs : BitVec 64) (chance : Chance)
    (received : Packet) (rand : Random) (wrapper : Wrapper) :
    (decryptHandshake context nowSecs chance received rand wrapper).Follows context received
      (wrapper.view rand) := by
  rw [decryptHandshake]
  split
  · exact refuse_follows ..
  split
  · rename_i asked
    apply answerConnectToMe_follows _ _ asked.1
    intro known
    exact if_pos (knowHerKey_iff.mpr known)
  have same := tryAuth_view context received.handshake.auth wrapper rand
  generalize tryAuth context received.handshake.auth wrapper = tried at same ⊢
  rw [← same]
  dsimp only
  split
  · exact refuse_follows ..
  split
  · exact refuse_follows ..
  split
  · rename_i hello
    apply openHandshake_follows
    intro box key sealing secret
    rw [← key] at secret ⊢
    apply Move.tookHello (tried.wrapper.view rand) sealing hello
    · rw [secret, getSharedSecret]
    · intro known started
      have her : tried.wrapper.knowHerKey = true := knowHerKey_iff.mpr known
      have begun : tried.wrapper.nextNonce ≠ 0 := started
      rw [key, Wrapper.helloKey, if_neg (by simp [her, begun])]
      rfl
  · rename_i late
    apply openHandshake_follows
    intro box key sealing secret
    apply Move.tookKey (tried.wrapper.view rand) sealing (by omega) key
    rw [secret, getSharedSecret]
    rfl

theorem decryptMessage_eq_some {nonce : ℕ} {secret : Key} {wrapper after : Wrapper}
    {message : List (BitVec 8)}
    (opened : decryptMessage nonce received secret wrapper = some (after, message)) :
    ∃ replayProtector, after = { wrapper with replayProtector := replayProtector } := by
  revert opened
  rw [decryptMessage]
  split_ifs
  · split
    · simp
    · dsimp only
      split_ifs
      · intro opened
        simp only [Option.some.injEq, Prod.mk.injEq] at opened
        exact ⟨_, opened.1.symm⟩
      · simp
  · split
    · simp
    · intro opened
      simp only [Option.some.injEq, Prod.mk.injEq] at opened
      exact ⟨wrapper.replayProtector, opened.1.symm⟩

/-- All that the final step of the handshake can do -/
theorem finalStep_cases (nowSecs : BitVec 64) (received : Packet) (rand : Random)
    (wrapper : Wrapper) :
    (∃ replayProtector message, finalStep nowSecs received rand wrapper =
      callReceivedMessage nowSecs message
        (.heard received (received.opensWith wrapper.finalSecret wrapper.isInitiator)) rand
        { wrapper with
          nextNonce := wrapper.nextNonce + 3
          replayProtector := replayProtector
          secret := wrapper.finalSecret }) ∨
    finalStep nowSecs received rand wrapper =
      { refuse Error.UNDELIVERABLE rand
          (reset { wrapper with nextNonce := wrapper.nextNonce + 3 }) with deeds := [.reset] } := by
  rw [finalStep]
  split
  · rename_i after message opened
    rcases decryptMessage_eq_some opened with ⟨replayProtector, rfl⟩
    exact .inl ⟨replayProtector, message, rfl⟩
  · exact .inr rfl

/-- All that a data packet can do -/
theorem receiveData_cases (nowSecs : BitVec 64) (received : Packet) (rand : Random)
    (wrapper : Wrapper) :
    (∃ replayProtector message, receiveData nowSecs received rand wrapper =
      callReceivedMessage nowSecs message
        (.heard received (received.opensWith wrapper.secret wrapper.isInitiator)) rand
        { wrapper with replayProtector := replayProtector }) ∨
    receiveData nowSecs received rand wrapper = refuse Error.UNDELIVERABLE rand wrapper := by
  rw [receiveData]
  split
  · rename_i after message opened
    rcases decryptMessage_eq_some opened with ⟨replayProtector, rfl⟩
    exact .inl ⟨replayProtector, message, rfl⟩
  · exact .inr rfl

theorem finalStep_follows (nowSecs : BitVec 64) (rand : Random) {wrapper : Wrapper}
    (early : wrapper.nextNonce < 5)
    (late : 3 < received.nonce.toNat ∧ received.nonce.toNat ≠ connectToMe)
    (known : wrapper.knowHerKey = true) :
    (finalStep nowSecs received rand wrapper).Follows context received (wrapper.view rand) := by
  rcases finalStep_cases nowSecs received rand wrapper with ⟨replayProtector, message, opens⟩ | fails
  · rw [opens]
    apply callReceivedMessage_follows
    exact .final (wrapper.view rand) early late (knowHerKey_iff.mp known) rfl
  · rw [fails]
    exact .ignored (.single (.reset _) trivial)

theorem receiveData_follows (nowSecs : BitVec 64) (rand : Random) {wrapper : Wrapper}
    (established : 5 ≤ wrapper.nextNonce) (late : 4 < received.nonce.toNat) :
    (receiveData nowSecs received rand wrapper).Follows context received (wrapper.view rand) := by
  rcases receiveData_cases nowSecs received rand wrapper with
    ⟨replayProtector, message, opens⟩ | fails
  · rw [opens]
    apply callReceivedMessage_follows
    exact .heard (wrapper.view rand) established late
  · rw [fails]
    exact refuse_follows ..

/-- `receiveMessage` reacts to the packet. -/
theorem receiveMessage_follows (context : Context) (nowSecs : BitVec 64) (chance : Chance)
    (received : Packet) (rand : Random) (wrapper : Wrapper) :
    (receiveMessage context nowSecs chance received rand wrapper).Follows context received
      (wrapper.view rand) := by
  simp only [receiveMessage]
  split_ifs with runt early final late
  · exact refuse_follows ..
  · exact finalStep_follows _ _ early ⟨final.1, final.2.1⟩ final.2.2
  · exact decryptHandshake_follows ..
  · exact receiveData_follows _ _ (not_lt.mp early) late
  · exact decryptHandshake_follows ..

end CryptoAuth

end Cjdns
