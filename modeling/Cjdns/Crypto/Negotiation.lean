import Cjdns.Crypto.RoleAgreement

/-!
# Negotiation of packet authentication

A node that wants packet authentication says so in the challenges of its
handshake packets, and the other node takes that over before it looks at
anything else. A node that finds the password of the challenge does not take it
over; and where the bytes of a challenge are random it takes over a random bit.
-/

namespace Cjdns

namespace CryptoAuth

variable {context : Context} {nowSecs : BitVec 64} {chance : Chance} {received : Packet}
  {rand : Random} {wrapper : Wrapper} {message : List (BitVec 8)}

/-! ## The flag -/

/-- The packet gets through the first two tests of `decryptHandshake`. -/
abbrev Wrapper.enters (received : Packet) (wrapper : Wrapper) : Prop :=
  Headers_CryptoAuth_SIZE ≤ received.length ∧
    ¬(wrapper.nextNonce < 2 ∧ received.nonce.toNat = connectToMe ∧ !wrapper.requireAuth)

/-- The packet gets as far as the password lookup in `decryptHandshake`. -/
def Wrapper.looksUp (received : Packet) (wrapper : Wrapper) : Prop :=
  wrapper.enters received ∧
    if wrapper.nextNonce < 5 then
      ¬(3 < received.nonce.toNat ∧ received.nonce.toNat ≠ connectToMe ∧ wrapper.knowHerKey)
    else received.nonce.toNat ≤ 4

instance : Decidable (wrapper.looksUp received) := by
  unfold Wrapper.looksUp
  infer_instance

theorem expire_authenticatePackets (context : Context) (nowSecs : BitVec 64) (wrapper : Wrapper) :
    (expire context nowSecs wrapper).authenticatePackets = wrapper.authenticatePackets := by
  rw [expire]
  split <;> rfl

theorem encryptHandshake_authenticatePackets :
    (encryptHandshake context chance message rand wrapper).wrapper.authenticatePackets =
      wrapper.authenticatePackets := by
  simp only [encryptHandshake]
  split <;> rfl

theorem sendUnexpired_authenticatePackets :
    (sendUnexpired context chance message rand wrapper).wrapper.authenticatePackets =
      wrapper.authenticatePackets := by
  rw [sendUnexpired]
  split_ifs
  · exact encryptHandshake_authenticatePackets
  · rfl
  · rfl

theorem sendMessage_authenticatePackets :
    (sendMessage context nowSecs chance message rand wrapper).wrapper.authenticatePackets =
      wrapper.authenticatePackets :=
  sendUnexpired_authenticatePackets.trans (expire_authenticatePackets _ _ _)

theorem callReceivedMessage_authenticatePackets {deed : Deed} :
    (callReceivedMessage nowSecs message deed rand wrapper).wrapper.authenticatePackets =
      wrapper.authenticatePackets := by
  simp only [callReceivedMessage]
  split <;> rfl

theorem openHandshake_authenticatePackets {user : Option ℕ} {herPermKey : Key} {nextNonce : ℕ}
    {sharedSecret : SharedSecret} :
    (openHandshake context nowSecs chance received user herPermKey nextNonce sharedSecret rand
      wrapper).wrapper.authenticatePackets = wrapper.authenticatePackets := by
  rw [openHandshake]
  split
  · rfl
  split
  · rfl
  simp only [acceptHandshake]
  split
  · exact sendMessage_authenticatePackets
  · exact callReceivedMessage_authenticatePackets

theorem tryAuth_authenticatePackets {challenge : AuthChallenge} :
    (tryAuth context challenge wrapper).wrapper.authenticatePackets =
      (wrapper.authenticatePackets ||
        (getAuth challenge context).isNone && challenge.requirePacketAuth) := by
  rw [tryAuth]
  split
  · rename_i found
    rw [found]
    exact (Bool.or_false _).symm
  · rename_i found
    rw [found]
    rfl

theorem decryptHandshake_authenticatePackets :
    (decryptHandshake context nowSecs chance received rand wrapper).wrapper.authenticatePackets =
      if wrapper.enters received then
        (tryAuth context received.handshake.auth wrapper).wrapper.authenticatePackets
      else wrapper.authenticatePackets := by
  rw [decryptHandshake]
  by_cases runt : received.length < Headers_CryptoAuth_SIZE
  · have stays : ¬wrapper.enters received := fun enters => not_le.mpr runt enters.1
    rw [if_pos runt, if_neg stays]
    rfl
  rw [if_neg runt]
  by_cases asks : wrapper.nextNonce < 2 ∧ received.nonce.toNat = connectToMe ∧ !wrapper.requireAuth
  · have stays : ¬wrapper.enters received := fun enters => enters.2 asks
    rw [if_pos asks, if_neg stays, answerConnectToMe]
    exact encryptHandshake_authenticatePackets
  have enters : wrapper.enters received := ⟨not_lt.mp runt, asks⟩
  rw [if_neg asks, if_pos enters]
  dsimp only
  split
  · rfl
  split
  · rfl
  split
  · exact openHandshake_authenticatePackets
  · exact openHandshake_authenticatePackets

/-- The flag changes in the password lookup only. -/
theorem receiveMessage_authenticatePackets :
    (receiveMessage context nowSecs chance received rand wrapper).wrapper.authenticatePackets =
      if wrapper.looksUp received then
        (tryAuth context received.handshake.auth wrapper).wrapper.authenticatePackets
      else wrapper.authenticatePackets := by
  have runtLength : wrapper.minLength < Headers_CryptoAuth_SIZE := by
    rw [Wrapper.minLength]
    split <;> norm_num
  simp only [receiveMessage]
  split_ifs with runt looks early final looks looks final looks looks
  · exact absurd (runt.trans runtLength) (not_lt.mpr looks.1.1)
  · rfl
  · rw [Wrapper.looksUp, if_pos early] at looks
    exact absurd final looks.2
  · rcases finalStep_cases nowSecs received rand wrapper with ⟨_, _, opens⟩ | fails
    · rw [opens]
      exact callReceivedMessage_authenticatePackets
    · rw [fails]
      rfl
  · rw [decryptHandshake_authenticatePackets, if_pos looks.1]
  · rw [decryptHandshake_authenticatePackets, if_neg]
    intro enters
    exact looks ⟨enters, by rwa [if_pos early]⟩
  · rw [Wrapper.looksUp, if_neg early] at looks
    omega
  · rcases receiveData_cases nowSecs received rand wrapper with ⟨_, _, opens⟩ | fails
    · rw [opens]
      exact callReceivedMessage_authenticatePackets
    · rw [fails]
      rfl
  · rw [decryptHandshake_authenticatePackets, if_pos looks.1]
  · rw [decryptHandshake_authenticatePackets, if_neg]
    intro enters
    exact looks ⟨enters, by rw [if_neg early]; omega⟩

theorem decryptHandshake_not_took {taken : Packet} {box : HandshakeBox}
    (stays : ¬wrapper.enters received) :
    .took taken box ∉
      (decryptHandshake context nowSecs chance received rand wrapper).deeds := by
  rw [decryptHandshake]
  by_cases runt : received.length < Headers_CryptoAuth_SIZE
  · rw [if_pos runt]
    simp [refuse]
  rw [if_neg runt, if_pos]
  · simp [answerConnectToMe, encryptHandshake_deeds]
  · by_contra asks
    exact stays ⟨not_lt.mp runt, asks⟩

/-- A handshake packet is taken only behind the password lookup. -/
theorem looksUp_of_took {taken : Packet} {box : HandshakeBox}
    (took : .took taken box ∈
      (receiveMessage context nowSecs chance received rand wrapper).deeds) :
    wrapper.looksUp received := by
  by_contra looks
  revert took
  simp only [receiveMessage]
  split_ifs with runt early final late
  · simp [refuse]
  · rcases finalStep_cases nowSecs received rand wrapper with ⟨_, _, opens⟩ | fails
    · simp [opens, callReceivedMessage]
    · simp [fails, refuse]
  · exact decryptHandshake_not_took fun enters => looks ⟨enters, by rwa [if_pos early]⟩
  · rcases receiveData_cases nowSecs received rand wrapper with ⟨_, _, opens⟩ | fails
    · simp [opens, callReceivedMessage]
    · simp [fails, refuse]
  · exact decryptHandshake_not_took fun enters =>
      looks ⟨enters, by rw [if_neg early]; omega⟩

/-! ## What is written -/

/-- A packet of a node: a handshake packet with the flag of the node, a data packet, or one that
asks for a hello -/
structure Packet.IsMarked (flag : Bool) (packet : Packet) : Prop where
  challenge : packet.handshake.box.isSome → packet.handshake.auth.requirePacketAuth = flag
  data : 3 < packet.nonce.toNat → packet.nonce.toNat ≠ connectToMe → packet.data.isSome

theorem encryptHandshake_marked (wrapper : Wrapper) (state : wrapper.nextNonce < 4) :
    (encryptHandshake context chance message rand wrapper).packet.IsMarked
      wrapper.authenticatePackets := by
  simp only [encryptHandshake]
  split
  · constructor
    · simp [genReverseHandshake]
    · intro _ other
      exact absurd (by decide : (BitVec.ofNat 32 connectToMe).toNat = connectToMe) other
  · constructor
    · intro _
      rfl
    · intro late
      have small : wrapper.nextNonce < 2 ^ 32 := by omega
      simp only [BitVec.toNat_ofNat, Nat.mod_eq_of_lt small] at late
      omega

theorem encryptMessage_marked (flag : Bool) :
    (encryptMessage chance message rand wrapper).packet.IsMarked flag where
  challenge := by simp [encryptMessage]
  data := fun _ _ => rfl

theorem sendMessage_marked (wrapper : Wrapper) :
    (sendMessage context nowSecs chance message rand wrapper).packet.IsMarked
      wrapper.authenticatePackets := by
  rw [← expire_authenticatePackets context nowSecs wrapper]
  simp only [sendMessage, sendUnexpired]
  split_ifs with handshake
  · exact encryptHandshake_marked _ handshake
  · exact encryptMessage_marked _
  · exact encryptMessage_marked _

theorem openHandshake_marked {user : Option ℕ} {herPermKey : Key} {nextNonce : ℕ}
    {sharedSecret : SharedSecret} {packet : Packet}
    (said : .said packet ∈ (openHandshake context nowSecs chance received user herPermKey
      nextNonce sharedSecret rand wrapper).deeds) :
    packet.IsMarked wrapper.authenticatePackets := by
  revert said
  rw [openHandshake]
  split
  · simp [refuse]
  split
  · simp [refuse]
  rename_i box _
  simp only [acceptHandshake]
  split
  · simp only [List.mem_cons, reduceCtorEq, false_or, sendMessage_deeds, List.mem_append,
      List.not_mem_nil, or_false, Deed.said.injEq]
    rintro (silent | rfl)
    · split at silent
      · simp at silent
      · cases silent
    · exact sendMessage_marked (wrapper.accept user herPermKey nextNonce box)
  · simp [callReceivedMessage]

theorem decryptHandshake_marked {packet : Packet}
    (said : .said packet ∈
      (decryptHandshake context nowSecs chance received rand wrapper).deeds) :
    packet.IsMarked
      (decryptHandshake context nowSecs chance received rand wrapper).wrapper.authenticatePackets := by
  rw [decryptHandshake_authenticatePackets]
  revert said
  rw [decryptHandshake]
  by_cases runt : received.length < Headers_CryptoAuth_SIZE
  · rw [if_pos runt]
    simp [refuse]
  rw [if_neg runt]
  by_cases asks : wrapper.nextNonce < 2 ∧ received.nonce.toNat = connectToMe ∧ !wrapper.requireAuth
  · have stays : ¬wrapper.enters received := fun enters => enters.2 asks
    rw [if_pos asks, if_neg stays]
    simp only [answerConnectToMe, encryptHandshake_deeds, List.mem_cons, reduceCtorEq,
      Deed.said.injEq, List.not_mem_nil, or_false, false_or]
    rintro rfl
    exact encryptHandshake_marked
      { wrapper with herPerminentPubKey := _, nextNonce := 0, user := none } (by norm_num)
  have enters : wrapper.enters received := ⟨not_lt.mp runt, asks⟩
  rw [if_neg asks, if_pos enters]
  dsimp only
  split
  · simp [refuse]
  split
  · simp [refuse]
  split
  · exact openHandshake_marked
  · exact openHandshake_marked

/-- Every packet carries the flag that the node has after the call. -/
theorem Endpoint.call_marked {endpoint : Endpoint} {call : Call} {packet : Packet}
    (said : .said packet ∈ (endpoint.call context call).deeds) :
    packet.IsMarked (endpoint.call context call).endpoint.wrapper.authenticatePackets := by
  cases call with
  | send nowSecs chance message =>
      simp only [Endpoint.call, sendMessage_authenticatePackets]
      simp only [Endpoint.call, sendMessage_deeds, List.mem_append, List.mem_singleton,
        Deed.said.injEq] at said
      rcases said with silent | rfl
      · split at silent
        · simp at silent
        · cases silent
      · exact sendMessage_marked _
  | receive nowSecs chance received =>
      revert said
      simp only [Endpoint.call, receiveMessage]
      split_ifs with runt early final late
      · simp [refuse]
      · rcases finalStep_cases nowSecs received endpoint.rand endpoint.wrapper with
          ⟨_, _, opens⟩ | fails
        · simp [opens, callReceivedMessage]
        · simp [fails, refuse]
      · exact decryptHandshake_marked
      · rcases receiveData_cases nowSecs received endpoint.rand endpoint.wrapper with
          ⟨_, _, opens⟩ | fails
        · simp [opens, callReceivedMessage]
        · simp [fails, refuse]
      · exact decryptHandshake_marked
  | reset => simp [Endpoint.call] at said
  | getState nowSecs =>
      simp only [Endpoint.call] at said
      split at said
      · simp at said
      · cases said

/-! ## How far a node has come -/

/-- The flag of a node is at least what the node was created with and at most what one of the nodes
was created with, and it is the latter once a handshake packet was taken. -/
structure Negotiates (mine either flag herFlag : Bool) (nextNonce : ℕ) (sent : List Packet) :
    Prop where
  created : mine = true → flag = true
  limited : flag = true → either = true
  offers : ∀ packet ∈ sent, packet.handshake.box.isSome →
    (mine = true → packet.handshake.auth.requirePacketAuth = true) ∧
      (packet.handshake.auth.requirePacketAuth = true → either = true)
  kinds : ∀ packet ∈ sent, 3 < packet.nonce.toNat → packet.nonce.toNat ≠ connectToMe →
    packet.data.isSome
  started : 2 ≤ nextNonce → flag = either
  finished : 4 ≤ nextNonce → herFlag = either
  answers : ∀ packet ∈ sent, packet.handshake.box.isSome → 2 ≤ packet.nonce.toNat → flag = either
  data : ∀ packet ∈ sent, packet.data.isSome → flag = either ∧ herFlag = either

namespace Negotiates

variable {mine either flag herFlag raised : Bool} {nextNonce : ℕ} {sent : List Packet}

theorem eq_of_raised (raises : flag = true → raised = true)
    (limited : raised = true → either = true) (there : flag = either) : raised = either := by
  subst there
  exact Bool.eq_iff_iff.mpr ⟨limited, raises⟩

theorem raise (negotiates : Negotiates mine either flag herFlag nextNonce sent)
    (raises : flag = true → raised = true) (limited : raised = true → either = true) :
    Negotiates mine either raised herFlag nextNonce sent where
  created := fun wants => raises (negotiates.created wants)
  limited := limited
  offers := negotiates.offers
  kinds := negotiates.kinds
  started := fun state => eq_of_raised raises limited (negotiates.started state)
  finished := negotiates.finished
  answers := fun packet mem box late =>
    eq_of_raised raises limited (negotiates.answers packet mem box late)
  data := fun packet mem data =>
    (negotiates.data packet mem data).imp_left (eq_of_raised raises limited)

theorem raise_other (negotiates : Negotiates mine either flag herFlag nextNonce sent)
    (raises : herFlag = true → raised = true) (limited : raised = true → either = true) :
    Negotiates mine either flag raised nextNonce sent where
  created := negotiates.created
  limited := negotiates.limited
  offers := negotiates.offers
  kinds := negotiates.kinds
  started := negotiates.started
  finished := fun state => eq_of_raised raises limited (negotiates.finished state)
  answers := negotiates.answers
  data := fun packet mem data =>
    (negotiates.data packet mem data).imp_right (eq_of_raised raises limited)

/-- In another state, with what was known before -/
theorem go (negotiates : Negotiates mine either flag herFlag nextNonce sent) {after : ℕ}
    (started : 2 ≤ after → flag = either) (finished : 4 ≤ after → herFlag = either) :
    Negotiates mine either flag herFlag after sent :=
  { negotiates with started := started, finished := finished }

/-- With one more packet -/
theorem say (negotiates : Negotiates mine either flag herFlag nextNonce sent) {packet : Packet}
    (marked : packet.IsMarked flag)
    (answers : packet.handshake.box.isSome → 2 ≤ packet.nonce.toNat → flag = either)
    (data : packet.data.isSome → flag = either ∧ herFlag = either) :
    Negotiates mine either flag herFlag nextNonce (sent ++ [packet]) where
  created := negotiates.created
  limited := negotiates.limited
  offers := by
    intro other mem box
    rcases List.mem_append.mp mem with old | new
    · exact negotiates.offers other old box
    · cases List.mem_singleton.mp new
      rw [marked.challenge box]
      exact ⟨negotiates.created, negotiates.limited⟩
  kinds := by
    intro other mem
    rcases List.mem_append.mp mem with old | new
    · exact negotiates.kinds other old
    · cases List.mem_singleton.mp new
      exact marked.data
  started := negotiates.started
  finished := negotiates.finished
  answers := by
    intro other mem
    rcases List.mem_append.mp mem with old | new
    · exact negotiates.answers other old
    · cases List.mem_singleton.mp new
      exact answers
  data := by
    intro other mem
    rcases List.mem_append.mp mem with old | new
    · exact negotiates.data other old
    · cases List.mem_singleton.mp new
      exact data

end Negotiates

/-- What the flags must be where a packet is taken -/
def Deed.IsSettled (either flag herFlag : Bool) (nextNonce : ℕ) : Deed → Prop
  | .took received _ => flag = either ∧ (2 ≤ received.nonce.toNat → herFlag = either)
  | .heard _ _ => nextNonce < 5 → flag = either ∧ herFlag = either
  | .reset | .asked _ | .said _ => True

variable {mine either flag herFlag : Bool} {sent : List Packet} {me after : View} {deed : Deed}
  {deeds : List Deed}

theorem Packet.IsHandshake.data_isSome {packet : Packet} {nonce maker : ℕ} {point tempKey : Key}
    (written : packet.IsHandshake nonce point tempKey maker) : ¬packet.data.isSome := by
  rw [written.data]
  exact Bool.false_ne_true

/-- One move preserves what is known about the flags. -/
theorem Move.negotiates (move : Move context me deed after)
    (settled : deed.IsSettled either flag herFlag me.nextNonce)
    (marked : ∀ packet, deed = .said packet → packet.IsMarked flag)
    (negotiates : Negotiates mine either flag herFlag me.nextNonce sent) :
    Negotiates mine either flag herFlag after.nextNonce (sent ++ deed.packet?.toList) := by
  have started := negotiates.started
  have finished := negotiates.finished
  cases move with
  | reset | asked =>
      rw [Deed.packet?, Option.toList_none, List.append_nil]
      exact negotiates.go (by simp) (by simp)
  | ask _ _ bare =>
      refine (negotiates.go (by simp) (by simp)).say (marked _ rfl) ?_ ?_
      · simp [bare.box]
      · simp [bare.data]
  | hello _ _ written =>
      refine (negotiates.go (by simp) (by simp)).say (marked _ rfl) ?_ ?_
      · rw [written.nonce_eq]
        omega
      · exact fun data => absurd data written.data_isSome
  | helloAgain _ _ written =>
      refine (negotiates.go (by simp) (by simp)).say (marked _ rfl) ?_ ?_
      · rw [written.nonce_eq]
        omega
      · exact fun data => absurd data written.data_isSome
  | key state _ written =>
      refine (negotiates.go (fun _ => started (by omega)) (by simp)).say (marked _ rfl) ?_ ?_
      · exact fun _ _ => started (by omega)
      · exact fun data => absurd data written.data_isSome
  | keyAgain state _ written =>
      refine (negotiates.go (fun _ => started (by omega)) (by simp)).say (marked _ rfl) ?_ ?_
      · exact fun _ _ => started (by omega)
      · exact fun data => absurd data written.data_isSome
  | firstData state =>
      refine (negotiates.go (fun _ => started (by omega)) fun _ => finished (by omega)).say
        (marked _ rfl) ?_ ?_
      · exact fun _ _ => started (by omega)
      · exact fun _ => ⟨started (by omega), finished (by omega)⟩
  | data state =>
      refine (negotiates.go (fun _ => started (by omega)) fun _ => finished (by omega)).say
        (marked _ rfl) ?_ ?_
      · exact fun _ _ => started (by omega)
      · exact fun _ => ⟨started (by omega), finished (by omega)⟩
  | tookHello =>
      rw [Deed.packet?, Option.toList_none, List.append_nil]
      exact negotiates.go (fun _ => settled.1) (by simp)
  | tookKey _ late =>
      rw [Deed.packet?, Option.toList_none, List.append_nil]
      exact negotiates.go (fun _ => settled.1) fun _ => settled.2 late
  | final early =>
      rw [Deed.packet?, Option.toList_none, List.append_nil]
      exact negotiates.go (fun _ => (settled early).1) fun _ => (settled early).2
  | heard =>
      rw [Deed.packet?, Option.toList_none, List.append_nil]
      exact negotiates

theorem Deed.packets_cons (deed : Deed) (deeds : List Deed) :
    (deed :: deeds).filterMap Deed.packet? = deed.packet?.toList ++ deeds.filterMap Deed.packet? := by
  cases deed <;> rfl

theorem Moves.negotiates (moves : Moves context me deeds after)
    (marked : ∀ packet, .said packet ∈ deeds → packet.IsMarked flag)
    (negotiates : Negotiates mine either flag herFlag me.nextNonce sent) :
    Negotiates mine either flag herFlag after.nextNonce
      (sent ++ deeds.filterMap Deed.packet?) := by
  induction moves generalizing sent with
  | nil => simpa using negotiates
  | @cons before between _ deed deeds move own _ ih =>
      have settled : deed.IsSettled either flag herFlag before.nextNonce := by
        cases deed <;> first | exact trivial | exact own.elim
      have first := move.negotiates settled (fun packet same => marked packet (by simp [same]))
        negotiates
      have rest := ih (fun packet mem => marked packet (List.mem_cons_of_mem _ mem)) first
      rw [Deed.packets_cons, ← List.append_assoc]
      exact rest

theorem Reaction.negotiates (reaction : Reaction context received me deeds after)
    (took : ∀ box, .took received box ∈ deeds → received.handshake.box.isSome →
      flag = either ∧ (2 ≤ received.nonce.toNat → herFlag = either))
    (heard : 3 < received.nonce.toNat → received.nonce.toNat ≠ connectToMe →
      flag = either ∧ herFlag = either)
    (marked : ∀ packet, .said packet ∈ deeds → packet.IsMarked flag)
    (negotiates : Negotiates mine either flag herFlag me.nextNonce sent) :
    Negotiates mine either flag herFlag after.nextNonce
      (sent ++ deeds.filterMap Deed.packet?) := by
  cases reaction with
  | ignored moves => exact moves.negotiates marked negotiates
  | @took _ _ box _ move moves =>
      have sealed : received.handshake.box = some box := by
        cases move <;> assumption
      have settled := took box List.mem_cons_self (by rw [sealed]; rfl)
      have first := move.negotiates settled (by simp) negotiates
      have rest := moves.negotiates (fun packet mem => marked packet (List.mem_cons_of_mem _ mem))
        first
      rw [Deed.packets_cons, ← List.append_assoc]
      exact rest
  | @heard _ opened move =>
      have settled : (Deed.heard received opened).IsSettled either flag herFlag me.nextNonce := by
        intro early
        cases move with
        | final _ late => exact heard late.1 late.2
        | heard state => omega
      have first := move.negotiates settled (by simp) negotiates
      rw [Deed.packets_cons, ← List.append_assoc]
      simpa using first

/-! ## Runs -/

/-- The runs of two nodes that may know or not know each other's keys and passwords -/
def negotiationRuns (settings : LinkSettings) (created : Side → Bool) :
    TransitionSystem Link (Side × Call) where
  initial link := ∀ side, (∃ herPublicKey requireAuth nowSecs password drawn,
    link.endpoint side = {
      wrapper := setAuth password
        (wrapInterface herPublicKey requireAuth (created side) nowSecs)
      rand := { source := side.source, drawn := drawn } }) ∧ link.sent side = []
  step before event after := before.Delivers event.1 event.2 ∧
    after = before.call settings.context event.1 event.2

/-- A wrapper without packet authentication that looks up a challenge with the `A` bit does not
know the password, if the packet is a handshake packet. If it is not, the bit is random: the wrapper
knows the password, or one of the two was created with packet authentication. -/
def takesOverRightly (settings : LinkSettings) (created : Side → Bool) (link : Link) :
    Side × Call → Prop
  | (side, .receive _ _ received) =>
      (link.endpoint side).wrapper.looksUp received →
      received.handshake.auth.requirePacketAuth = true →
      (link.endpoint side).wrapper.authenticatePackets = false →
      if received.handshake.box.isSome then
        getAuth received.handshake.auth (settings.context side) = none
      else getAuth received.handshake.auth (settings.context side) ≠ none ∨
        (created .near || created .far) = true
  | (_, .send _ _ _) | (_, .reset) | (_, .getState _) => True

/-- The invariant, seen from one side -/
def Link.Negotiates (created : Side → Bool) (link : Link) (side : Side) : Prop :=
  CryptoAuth.Negotiates (created side) (created .near || created .far)
    (link.endpoint side).wrapper.authenticatePackets
    (link.endpoint side.other).wrapper.authenticatePackets
    (link.endpoint side).wrapper.nextNonce (link.sent side)

theorem Endpoint.call_authenticatePackets {endpoint : Endpoint} {call : Call} :
    (endpoint.call context call).endpoint.wrapper.authenticatePackets =
      match call with
      | .receive _ _ received =>
          if endpoint.wrapper.looksUp received then
            (tryAuth context received.handshake.auth endpoint.wrapper).wrapper.authenticatePackets
          else endpoint.wrapper.authenticatePackets
      | _ => endpoint.wrapper.authenticatePackets := by
  cases call with
  | send => exact sendMessage_authenticatePackets
  | receive => exact receiveMessage_authenticatePackets
  | reset => rfl
  | getState => exact expire_authenticatePackets _ _ _

section

variable {settings : LinkSettings} {created : Side → Bool} {link : Link} {side : Side} {call : Call}

theorem either_of_created (side : Side) (wants : created side = true) :
    (created .near || created .far) = true := by
  cases side with
  | near => rw [wants, Bool.true_or]
  | far => rw [wants, Bool.or_true]

theorem created_of_either (side : Side) (either : (created .near || created .far) = true) :
    created side = true ∨ created side.other = true := by
  rw [Bool.or_eq_true] at either
  cases side with
  | near => exact either
  | far => exact either.symm

/-- A call does not clear the flag. -/
theorem Endpoint.call_raises {endpoint : Endpoint}
    (flag : endpoint.wrapper.authenticatePackets = true) :
    (endpoint.call context call).endpoint.wrapper.authenticatePackets = true := by
  rw [Endpoint.call_authenticatePackets]
  cases call with
  | receive =>
      dsimp only
      split
      · rw [tryAuth_authenticatePackets, flag, Bool.true_or]
      · exact flag
  | send | reset | getState => exact flag

/-- A call sets the flag only if one of the nodes was created with it. -/
theorem Link.call_limited (here : link.Negotiates created side)
    (there : link.Negotiates created side.other) (delivers : link.Delivers side call)
    (rightly : takesOverRightly settings created link (side, call))
    (flag : ((link.endpoint side).call (settings.context side) call).endpoint.wrapper.authenticatePackets
      = true) : (created .near || created .far) = true := by
  rw [Endpoint.call_authenticatePackets] at flag
  cases call with
  | receive nowSecs chance received =>
      dsimp only at flag
      split at flag
      · rename_i looks
        rw [tryAuth_authenticatePackets, Bool.or_eq_true, Bool.and_eq_true,
          Option.isNone_iff_eq_none] at flag
        by_cases already : (link.endpoint side).wrapper.authenticatePackets = true
        · exact here.limited already
        · rcases flag with set | ⟨unknown, bit⟩
          · exact absurd set already
          · have rule := rightly looks bit (Bool.not_eq_true _ ▸ already)
            split at rule
            · rename_i box
              exact (there.offers received delivers box).2 bit
            · exact rule.resolve_left (not_not_intro unknown)
      · exact here.limited flag
  | send | reset | getState => exact here.limited flag

/-- Where a handshake packet was taken, the flag is what it should be. -/
theorem Link.call_settled (here : link.Negotiates created side)
    (there : link.Negotiates created side.other) {nowSecs : BitVec 64} {chance : Chance}
    {received : Packet} {box : HandshakeBox} (delivers : received ∈ link.sent side.other)
    (rightly : takesOverRightly settings created link (side, .receive nowSecs chance received))
    (took : .took received box ∈ ((link.endpoint side).call (settings.context side)
      (.receive nowSecs chance received)).deeds)
    (sealed : received.handshake.box.isSome) (either : (created .near || created .far) = true) :
    ((link.endpoint side).call (settings.context side)
      (.receive nowSecs chance received)).endpoint.wrapper.authenticatePackets = true := by
  rcases created_of_either side either with mine | hers
  · exact Endpoint.call_raises (here.created mine)
  · have looks := looksUp_of_took took
    have bit := (there.offers received delivers sealed).1 hers
    rw [Endpoint.call_authenticatePackets]
    dsimp only
    rw [if_pos looks, tryAuth_authenticatePackets, bit]
    by_cases already : (link.endpoint side).wrapper.authenticatePackets = true
    · rw [already, Bool.true_or]
    · have rule := rightly looks bit (Bool.not_eq_true _ ▸ already)
      rw [if_pos sealed] at rule
      rw [rule]
      simp

theorem Link.Negotiates.act (here : link.Negotiates created side)
    (there : link.Negotiates created side.other) (delivers : link.Delivers side call)
    (rightly : takesOverRightly settings created link (side, call)) :
    (link.call settings.context side call).Negotiates created side := by
  have limited := Link.call_limited here there delivers rightly
  have raised := here.raise Endpoint.call_raises limited
  have next : CryptoAuth.Negotiates (created side) (created .near || created .far)
      ((link.endpoint side).call (settings.context side) call).endpoint.wrapper.authenticatePackets
      (link.endpoint side.other).wrapper.authenticatePackets
      ((link.endpoint side).call (settings.context side) call).endpoint.wrapper.nextNonce
      (link.sent side ++
        ((link.endpoint side).call (settings.context side) call).deeds.filterMap
          Deed.packet?) := by
    rcases Endpoint.call_cases (settings.context side) (link.endpoint side) call with
      ⟨nowSecs, chance, received, rfl, reaction⟩ | moves
    · refine reaction.negotiates ?_ ?_ (fun _ => Endpoint.call_marked) raised
      · intro box took sealed
        constructor
        · exact Bool.eq_iff_iff.mpr
            ⟨limited, Link.call_settled here there delivers rightly took sealed⟩
        · exact there.answers received delivers sealed
      · intro late other
        have both := there.data received delivers (there.kinds received delivers late other)
        rw [Side.other_other] at both
        refine ⟨?_, both.1⟩
        exact Negotiates.eq_of_raised Endpoint.call_raises limited both.2
    · exact moves.negotiates (fun _ => Endpoint.call_marked) raised
  simpa [Link.Negotiates, Link.call, Function.update_of_ne side.ne_other.symm] using next

theorem Link.Negotiates.watch (here : link.Negotiates created side)
    (there : link.Negotiates created side.other) (delivers : link.Delivers side call)
    (rightly : takesOverRightly settings created link (side, call)) :
    (link.call settings.context side call).Negotiates created side.other := by
  have limited := Link.call_limited here there delivers rightly
  rw [Link.Negotiates, Side.other_other] at there
  have raised := there.raise_other Endpoint.call_raises limited
  simpa [Link.Negotiates, Link.call, Function.update_of_ne side.ne_other.symm] using raised

end

theorem negotiates_isInvariant (settings : LinkSettings) (created : Side → Bool) :
    (negotiationRuns settings created).IsInvariant (takesOverRightly settings created)
      fun link => ∀ side, link.Negotiates created side where
  initial := by
    intro link starts side
    rcases (starts side).1 with ⟨_, _, _, _, _, new⟩
    rcases (starts side.other).1 with ⟨_, _, _, _, _, newOther⟩
    rw [Link.Negotiates, (starts side).2, new, newOther]
    constructor
    · exact id
    · exact either_of_created side
    all_goals simp [setAuth, wrapInterface]
  step := by
    intro before event after negotiates rightly taken
    rcases event with ⟨acting, call⟩
    rcases taken with ⟨delivers, rfl⟩
    intro side
    rcases side.eq_or_eq_other acting with rfl | rfl
    · exact (negotiates side).act (negotiates side.other) delivers rightly
    · exact (negotiates acting).watch (negotiates acting.other) delivers rightly

/-- Established nodes have the flag both or none of them, and have it if one was created with it. -/
theorem authentication_negotiated (settings : LinkSettings) (created : Side → Bool) (link : Link)
    (reachable : (negotiationRuns settings created).Reachable
      (takesOverRightly settings created) link)
    (established : ∀ side, 5 ≤ (link.endpoint side).wrapper.nextNonce) (side : Side) :
    (link.endpoint side).wrapper.authenticatePackets = (created .near || created .far) :=
  (reachable.invariant (negotiates_isInvariant settings created) side).started
    (le_trans (by norm_num) (established side))

/-! ## Two runs -/

theorem negotiationRuns_step {settings : LinkSettings} {created : Side → Bool} (link : Link)
    (side : Side) (call : Call) (delivers : link.Delivers side call) :
    (negotiationRuns settings created).step link (side, call)
      (link.call settings.context side call) :=
  ⟨delivers, rfl⟩

/-- Two new endpoints that know each other's keys; the near one wants packet authentication. -/
def unequalLink (password : Option String) : Link where
  endpoint := fun side => {
    wrapper := setAuth (if side = .near then password else none)
      (wrapInterface (some (.publicKey (.random side.other.source 0))) false (side = .near) 0)
    rand := { source := side.source, drawn := 1 } }
  sent := fun _ => []

def nearWants (side : Side) : Bool :=
  side = .near

theorem unequalLink_reachable (settings : LinkSettings) (password : Option String)
    (guard : Link → Side × Call → Prop) :
    (negotiationRuns settings nearWants).Reachable guard (unequalLink password) :=
  .initial fun _ => ⟨⟨_, _, _, _, _, rfl⟩, rfl⟩

/-- Nobody knows a password. -/
theorem takesOverRightly_noPasswords (link : Link) (event : Side × Call) :
    takesOverRightly noPasswords nearWants link event := by
  rcases event with ⟨side, call⟩
  cases call with
  | receive =>
      intro _ _ _
      split
      · rw [getAuth]
        split <;> rfl
      · exact .inr rfl
  | send | reset | getState => trivial

theorem authentication_negotiated_inTurn :
    ((inTurn.foldl (Link.follow noPasswords) (unequalLink none)).endpoint
      .far).wrapper.authenticatePackets = true :=
  authentication_negotiated noPasswords nearWants _
    (Link.foldl_follow_reachable negotiationRuns_step (unequalLink_reachable _ none _)
      takesOverRightly_noPasswords inTurn)
    (by intro side; cases side <;> decide) .far

/-- The far node knows the password of the near one. -/
def onePassword : LinkSettings where
  passwords := fun side =>
    if side = .far then [{ hashPassword "secret" with user := some 1 }] else []
  resetAfterInactivitySeconds := fun _ => 60

/-- A node does not take over the flag from a node whose password it knows. -/
theorem authentication_not_negotiated :
    ¬∀ (settings : LinkSettings) (created : Side → Bool) (link : Link),
      (negotiationRuns settings created).Reachable (fun _ _ => True) link →
      (∀ side, 5 ≤ (link.endpoint side).wrapper.nextNonce) →
      (link.endpoint .near).wrapper.authenticatePackets =
        (link.endpoint .far).wrapper.authenticatePackets := by
  intro claimed
  have reachable := Link.foldl_follow_reachable negotiationRuns_step
    (unequalLink_reachable onePassword (some "secret") fun _ _ => True) (fun _ _ => trivial) inTurn
  have same := claimed onePassword nearWants _ reachable (by intro side; cases side <;> decide)
  exact absurd same (by decide)

end CryptoAuth

end Cjdns
