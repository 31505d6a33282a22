import Cjdns.Crypto.Moves

/-!
# Endpoints

A wrapper with its random source, and the calls that it can get from outside.
-/

namespace Cjdns

namespace CryptoAuth

structure Endpoint where
  wrapper : Wrapper
  rand : Random

/-- A call from outside -/
inductive Call where
  | send (nowSecs : BitVec 64) (chance : Chance) (message : List (BitVec 8))
  | receive (nowSecs : BitVec 64) (chance : Chance) (received : Packet)
  | reset
  | getState (nowSecs : BitVec 64)

/-- What a call leaves behind -/
structure Called where
  endpoint : Endpoint
  deeds : List Deed
  outcome : Outcome

namespace Endpoint

def view (endpoint : Endpoint) : View :=
  endpoint.wrapper.view endpoint.rand

def call (context : Context) (endpoint : Endpoint) : Call → Called
  | .send nowSecs chance message =>
      let written := sendMessage context nowSecs chance message endpoint.rand endpoint.wrapper
      ⟨⟨written.wrapper, written.rand⟩, written.deeds, .silent⟩
  | .receive nowSecs chance received =>
      let after := receiveMessage context nowSecs chance received endpoint.rand endpoint.wrapper
      ⟨⟨after.wrapper, after.rand⟩, after.deeds, after.outcome⟩
  | .reset => ⟨{ endpoint with wrapper := reset endpoint.wrapper }, [.reset], .silent⟩
  | .getState nowSecs =>
      ⟨{ endpoint with wrapper := expire context nowSecs endpoint.wrapper },
        if expires context nowSecs endpoint.wrapper then [.reset] else [], .silent⟩

variable {context : Context} {endpoint : Endpoint}

/-- A call reacts to a packet or moves without one. -/
theorem call_cases (context : Context) (endpoint : Endpoint) (call : Call) :
    (∃ nowSecs chance received, call = .receive nowSecs chance received ∧
      Reaction context received endpoint.view (endpoint.call context call).deeds
        (endpoint.call context call).endpoint.view) ∨
    Moves context endpoint.view (endpoint.call context call).deeds
      (endpoint.call context call).endpoint.view := by
  cases call with
  | send nowSecs chance message => exact .inr (sendMessage_moves ..)
  | receive nowSecs chance received =>
      exact .inl ⟨nowSecs, chance, received, rfl, receiveMessage_follows ..⟩
  | reset => exact .inr (.single (.reset _) trivial)
  | getState nowSecs =>
      right
      simp only [call, view, expire_view]
      split
      · exact .single (.reset _) trivial
      · exact .nil _

end Endpoint

/-! ## What is passed on -/

variable {context : Context} {nowSecs : BitVec 64} {chance : Chance} {received : Packet}
  {rand : Random} {wrapper : Wrapper} {message : List (BitVec 8)}

theorem callReceivedMessage_nextNonce (deed : Deed) :
    (callReceivedMessage nowSecs message deed rand wrapper).wrapper.nextNonce =
      wrapper.nextNonce := by
  simp only [callReceivedMessage]
  split_ifs <;> rfl

theorem openHandshake_passed {user : Option ℕ} {herPermKey : Key} {nextNonce : ℕ}
    {sharedSecret : SharedSecret}
    (passed : (openHandshake context nowSecs chance received user herPermKey nextNonce sharedSecret
      rand wrapper).outcome = .passed message) :
    (openHandshake context nowSecs chance received user herPermKey nextNonce sharedSecret rand
      wrapper).wrapper.nextNonce = nextNonce := by
  revert passed
  rw [openHandshake]
  split_ifs
  · simp [refuse]
  split
  · simp [refuse]
  simp only [acceptHandshake]
  split
  · simp
  · intro _
    exact callReceivedMessage_nextNonce _

/-- A handshake packet whose content is passed on was opened. -/
theorem decryptHandshake_eq_openHandshake
    (passed : (decryptHandshake context nowSecs chance received rand wrapper).outcome =
      .passed message) :
    ∃ tried user herPermKey nextNonce sharedSecret, 2 ≤ nextNonce ∧
      decryptHandshake context nowSecs chance received rand wrapper =
        openHandshake context nowSecs chance received user herPermKey nextNonce sharedSecret rand
          tried := by
  revert passed
  rw [decryptHandshake]
  split
  · simp [refuse]
  split
  · simp [answerConnectToMe]
  dsimp only
  split
  · simp [refuse]
  split
  · simp [refuse]
  split
  · intro _
    exact ⟨_, _, _, _, _, le_rfl, rfl⟩
  · intro _
    exact ⟨_, _, _, _, _, (by norm_num : 2 ≤ 4), rfl⟩

theorem decryptHandshake_passed
    (passed : (decryptHandshake context nowSecs chance received rand wrapper).outcome =
      .passed message) :
    2 ≤ (decryptHandshake context nowSecs chance received rand wrapper).wrapper.nextNonce := by
  rcases decryptHandshake_eq_openHandshake passed with ⟨_, _, _, nextNonce, _, greeted, opens⟩
  rw [opens] at passed ⊢
  rw [openHandshake_passed passed]
  exact greeted

/-- Whatever is passed on, the handshake is under way afterwards. -/
theorem receiveMessage_passed
    (passed : (receiveMessage context nowSecs chance received rand wrapper).outcome =
      .passed message) :
    2 ≤ (receiveMessage context nowSecs chance received rand wrapper).wrapper.nextNonce := by
  revert passed
  simp only [receiveMessage]
  split_ifs with runt early final late
  · simp [refuse]
  · rcases finalStep_cases nowSecs received rand wrapper with ⟨_, _, opens⟩ | fails
    · intro _
      rw [opens, callReceivedMessage_nextNonce]
      simp only
      omega
    · simp [fails, refuse]
  · exact decryptHandshake_passed
  · rcases receiveData_cases nowSecs received rand wrapper with ⟨_, _, opens⟩ | fails
    · intro _
      rw [opens, callReceivedMessage_nextNonce]
      simp only
      omega
    · simp [fails, refuse]
  · exact decryptHandshake_passed

theorem openHandshake_took {user : Option ℕ} {herPermKey : Key} {nextNonce : ℕ}
    {sharedSecret : SharedSecret}
    (passed : (openHandshake context nowSecs chance received user herPermKey nextNonce sharedSecret
      rand wrapper).outcome = .passed message) :
    ∃ box, .took received box ∈ (openHandshake context nowSecs chance received user herPermKey
      nextNonce sharedSecret rand wrapper).deeds ∧ box.content = message := by
  revert passed
  rw [openHandshake]
  split_ifs
  · simp [refuse]
  split
  · simp [refuse]
  rename_i box _
  simp only [acceptHandshake]
  split
  · simp
  · intro passed
    exact ⟨box, List.mem_singleton_self _, Outcome.passed.inj passed⟩

theorem decryptHandshake_took
    (passed : (decryptHandshake context nowSecs chance received rand wrapper).outcome =
      .passed message) :
    ∃ box, .took received box ∈ (decryptHandshake context nowSecs chance received rand
      wrapper).deeds ∧ box.content = message := by
  rcases decryptHandshake_eq_openHandshake passed with ⟨_, _, _, _, _, -, opens⟩
  rw [opens] at passed ⊢
  exact openHandshake_took passed

/-- What is passed on of a handshake packet was in its box. -/
theorem receiveMessage_took (early : received.nonce.toNat ≤ 3)
    (passed : (receiveMessage context nowSecs chance received rand wrapper).outcome =
      .passed message) :
    ∃ box, .took received box ∈ (receiveMessage context nowSecs chance received rand
      wrapper).deeds ∧ box.content = message := by
  revert passed
  simp only [receiveMessage]
  split_ifs with runt handshaking final late
  · simp [refuse]
  · omega
  · exact decryptHandshake_took
  · omega
  · exact decryptHandshake_took

/-! ## The key of the other node -/

variable {trusted : Key → Prop} {before after : View} {deed : Deed} {deeds : List Deed}

/-- The key of the other node is a trusted one, unless it is not known yet. -/
def View.Trusts (trusted : Key → Prop) (view : View) : Prop :=
  view.herPerminentPubKey = .zero ∧ view.nextNonce < 2 ∨ trusted view.herPerminentPubKey

/-- `View.Trusts`, which does not depend on the random source -/
def Wrapper.Trusts (trusted : Key → Prop) (wrapper : Wrapper) : Prop :=
  wrapper.herPerminentPubKey = .zero ∧ wrapper.nextNonce < 2 ∨ trusted wrapper.herPerminentPubKey

/-- Where the deed takes a key from a packet, it is a trusted one. -/
def Deed.Shows (trusted : Key → Prop) : Deed → Prop
  | .asked herPermKey => trusted herPermKey
  | .took packet _ => trusted packet.handshake.publicKey
  | _ => True

/-- A key that is known is a trusted one. -/
theorem View.Trusts.of_known (trusts : before.Trusts trusted)
    (known : before.herPerminentPubKey ≠ .zero) : trusted before.herPerminentPubKey :=
  trusts.resolve_left fun unknown => known unknown.1

/-- Once the handshake is under way, the key is a trusted one. -/
theorem View.Trusts.of_state (trusts : before.Trusts trusted) (state : 2 ≤ before.nextNonce) :
    trusted before.herPerminentPubKey :=
  trusts.resolve_left fun early => absurd early.2 (by omega)

theorem Move.trusts (move : Move context before deed after) (trusts : before.Trusts trusted)
    (shows : deed.Shows trusted) : after.Trusts trusted := by
  cases move with
  | reset => exact trusts.imp (fun unknown => ⟨unknown.1, Nat.two_pos⟩) id
  | ask => exact trusts.imp (fun unknown => ⟨unknown.1, Nat.two_pos⟩) id
  | asked => exact .inr shows
  | hello _ known => exact .inr (trusts.of_known known)
  | helloAgain _ known => exact .inr (trusts.of_known known)
  | key _ known => exact .inr (trusts.of_known known)
  | keyAgain _ known => exact .inr (trusts.of_known known)
  | firstData state => exact .inr (trusts.of_state (by omega))
  | data state => exact .inr (trusts.of_state (by omega))
  | tookHello => exact .inr shows
  | tookKey _ _ same => exact .inr (same ▸ shows)
  | final _ _ known => exact .inr (trusts.of_known known)
  | heard => exact trusts

theorem Moves.trusts (moves : Moves context before deeds after) (trusts : before.Trusts trusted)
    (shows : ∀ deed ∈ deeds, deed.Shows trusted) : after.Trusts trusted := by
  induction moves with
  | nil => exact trusts
  | cons move _ _ ih =>
      refine ih (move.trusts trusts ?_) fun deed inside => shows deed (List.mem_cons_of_mem _ inside)
      exact shows _ List.mem_cons_self

/-- A session trusts no key that it was not shown. -/
theorem receiveMessage_trusts (trusts : wrapper.Trusts trusted)
    (shows : ∀ deed ∈ (receiveMessage context nowSecs chance received rand wrapper).deeds,
      deed.Shows trusted) :
    (receiveMessage context nowSecs chance received rand wrapper).wrapper.Trusts trusted := by
  have trusts : (wrapper.view rand).Trusts trusted := trusts
  have follows := receiveMessage_follows context nowSecs chance received rand wrapper
  generalize receiveMessage context nowSecs chance received rand wrapper = reacted at *
  change (reacted.wrapper.view reacted.rand).Trusts trusted
  cases reacted with
  | mk after rest sent outcome deeds =>
      cases follows with
      | ignored moves => exact moves.trusts trusts shows
      | took move moves =>
          refine moves.trusts (move.trusts trusts ?_) fun deed inside =>
            shows deed (List.mem_cons_of_mem _ inside)
          exact shows _ List.mem_cons_self
      | heard move => exact move.trusts trusts trivial

theorem expire_trusts (context : Context) (nowSecs : BitVec 64) (trusts : wrapper.Trusts trusted) :
    (expire context nowSecs wrapper).Trusts trusted := by
  rw [expire]
  split
  · exact trusts.imp (fun unknown => ⟨unknown.1, Nat.two_pos⟩) id
  · exact trusts

theorem sendMessage_trusts (context : Context) (nowSecs : BitVec 64) (chance : Chance)
    (message : List (BitVec 8)) (rand : Random) (trusts : wrapper.Trusts trusted) :
    (sendMessage context nowSecs chance message rand wrapper).wrapper.Trusts trusted := by
  refine (sendMessage_moves context nowSecs chance message rand wrapper).trusts trusts ?_
  rw [sendMessage_deeds]
  intro deed inside
  rcases List.mem_append.mp inside with isReset | isSaid
  · split at isReset
    · rw [List.mem_singleton.mp isReset]
      trivial
    · cases isReset
  · rw [List.mem_singleton.mp isSaid]
    trivial

end CryptoAuth

end Cjdns
