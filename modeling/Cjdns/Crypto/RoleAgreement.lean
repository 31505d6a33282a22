import Cjdns.Crypto.Coherence
import Cjdns.Crypto.Provenance

/-!
# Role agreement

Two nodes that know each other's keys, over a network that delivers any packet
that was sent, as often and as late as it likes, or never. Past the handshake,
nodes with the same secret should be in opposite roles.

A wrapper without packet authentication takes any packet for the first data
packet, also one that does not open because both nodes are in the same role.
When two hellos cross, both nodes give up the role of the initiator, and the key
packet that ends the handshake gives it back to none of them. If no packet is
taken that does not open, the roles agree.
-/

namespace Cjdns

namespace CryptoAuth

/-! ## Two nodes and a network -/

inductive Side where
  | near
  | far
deriving DecidableEq

namespace Side

def other : Side → Side
  | near => far
  | far => near

/-- The random source of the node on this side -/
def source : Side → ℕ
  | near => 0
  | far => 1

@[simp]
theorem other_other (side : Side) : side.other.other = side := by
  cases side <;> rfl

theorem source_ne_other (side : Side) : side.source ≠ side.other.source := by
  cases side <;> simp [source, other]

theorem eq_or_eq_other (side acting : Side) : side = acting ∨ side = acting.other := by
  cases side <;> cases acting <;> simp [other]

theorem ne_other (side : Side) : side ≠ side.other := by
  cases side <;> simp [other]

end Side

/-- The packet that was sent in the deed -/
def Deed.packet? : Deed → Option Packet
  | .said packet => some packet
  | .reset | .asked _ | .took _ _ | .heard _ _ => none

/-- Two endpoints, and the packets each of them has sent -/
structure Link where
  endpoint : Side → Endpoint
  sent : Side → List Packet

namespace Link

def view (link : Link) (side : Side) : View :=
  (link.endpoint side).view

/-- What the node on this side has said -/
def said (link : Link) (side : Side) (saying : Saying) : Prop :=
  ∃ packet ∈ link.sent side, packet.Says saying

def call (context : Side → Context) (link : Link) (side : Side) (call : Call) : Link where
  endpoint := Function.update link.endpoint side
    ((link.endpoint side).call (context side) call).endpoint
  sent := Function.update link.sent side (link.sent side ++
    ((link.endpoint side).call (context side) call).deeds.filterMap Deed.packet?)

/-- A node receives only what the other one has sent. -/
def Delivers (link : Link) (side : Side) : Call → Prop
  | .receive _ _ received => received ∈ link.sent side.other
  | .send _ _ _ | .reset | .getState _ => True

end Link

/-- What the two nodes are configured with -/
structure LinkSettings where
  passwords : Side → List Auth
  resetAfterInactivitySeconds : Side → BitVec 32

def LinkSettings.context (settings : LinkSettings) (side : Side) : Context :=
  newContext side.source (settings.passwords side) (settings.resetAfterInactivitySeconds side)

/-- The endpoint has just been created, and knows the key of the other node. -/
def Endpoint.IsNew (side : Side) (endpoint : Endpoint) : Prop :=
  ∃ requireAuth authenticatePackets nowSecs password drawn, endpoint = {
    wrapper := setAuth password (wrapInterface
      (some (.publicKey (.random side.other.source 0))) requireAuth authenticatePackets nowSecs)
    rand := { source := side.source, drawn := drawn } }

/-- The runs of the two nodes -/
def linkRuns (settings : LinkSettings) : TransitionSystem Link (Side × Call) where
  initial link := ∀ side, (link.endpoint side).IsNew side ∧ link.sent side = []
  step before event after := before.Delivers event.1 event.2 ∧
    after = before.call settings.context event.1 event.2

/-- A wrapper without packet authentication takes the final step of the handshake only for a packet
that was written under the secret it computes, in the other role. -/
def opensFinalStep (link : Link) : Side × Call → Prop
  | (side, .receive _ _ received) =>
      (link.endpoint side).wrapper.nextNonce < 5 → 3 < received.nonce.toNat →
      received.nonce.toNat ≠ connectToMe → (link.endpoint side).wrapper.authenticatePackets = false →
      received.opensWith (link.endpoint side).wrapper.finalSecret
        (link.endpoint side).wrapper.isInitiator = true
  | (_, .send _ _ _) | (_, .reset) | (_, .getState _) => True

/-! ## What is heard -/

variable {context : Context} {nowSecs : BitVec 64} {chance : Chance} {received : Packet}
  {rand : Random} {wrapper : Wrapper} {message : List (BitVec 8)} {opened : Bool}

theorem sendMessage_not_heard :
    .heard received opened ∉ (sendMessage context nowSecs chance message rand wrapper).deeds := by
  rw [sendMessage_deeds]
  split <;> simp

theorem openHandshake_not_heard {user : Option ℕ} {herPermKey : Key} {nextNonce : ℕ}
    {sharedSecret : SharedSecret} :
    .heard received opened ∉ (openHandshake context nowSecs chance received user herPermKey
      nextNonce sharedSecret rand wrapper).deeds := by
  rw [openHandshake]
  split
  · simp [refuse]
  split
  · simp [refuse]
  simp only [acceptHandshake]
  split
  · rw [List.mem_cons, not_or]
    exact ⟨by simp, sendMessage_not_heard⟩
  · simp [callReceivedMessage]

theorem decryptHandshake_not_heard :
    .heard received opened ∉
      (decryptHandshake context nowSecs chance received rand wrapper).deeds := by
  rw [decryptHandshake]
  split
  · simp [refuse]
  split
  · simp [answerConnectToMe, encryptHandshake_deeds]
  dsimp only
  split
  · simp [refuse]
  split
  · simp [refuse]
  split
  · exact openHandshake_not_heard
  · exact openHandshake_not_heard

/-- With packet authentication, what is decrypted was written for it. -/
theorem opensWith_of_decryptMessage {secret : Key} {after : Wrapper}
    (decrypted : decryptMessage received.nonce.toNat received secret wrapper =
      some (after, message))
    (authenticated : wrapper.authenticatePackets = true) :
    received.opensWith secret wrapper.isInitiator = true := by
  rw [decryptMessage, if_pos authenticated] at decrypted
  rw [Packet.opensWith]
  cases written : received.data with
  | none => simp [decrypt, written] at decrypted
  | some data =>
      by_cases opens : data.secret = secret ∧
          data.nonce = decryptNonce received.nonce.toNat wrapper.isInitiator
      · simp [opens]
      · have closed : ¬(data.secret = secret ∧
            data.nonce = decryptNonce received.nonce.toNat wrapper.isInitiator ∧
            data.authenticated = true) :=
          fun all => opens ⟨all.1, all.2.1⟩
        simp only [decrypt, written, Option.filter, Bool.and_eq_true, decide_eq_true_eq,
          and_assoc, closed, if_false] at decrypted
        simp at decrypted

/-- The final step of the handshake is taken for what opens. -/
theorem receiveMessage_opened (early : wrapper.nextNonce < 5)
    (heard : .heard received opened ∈
      (receiveMessage context nowSecs chance received rand wrapper).deeds)
    (opens : 3 < received.nonce.toNat → received.nonce.toNat ≠ connectToMe →
      wrapper.authenticatePackets = false →
      received.opensWith wrapper.finalSecret wrapper.isInitiator = true) : opened = true := by
  revert heard
  simp only [receiveMessage]
  split_ifs with runt final
  · simp [refuse]
  · rw [finalStep]
    dsimp only
    split
    · rename_i after message decrypted
      simp only [callReceivedMessage, List.mem_singleton, Deed.heard.injEq, true_and]
      rintro rfl
      by_cases authenticated : wrapper.authenticatePackets
      · have written := opensWith_of_decryptMessage decrypted authenticated
        exact written
      · exact opens final.1 final.2.1 (by simpa using authenticated)
    · simp
  · intro heard
    exact absurd heard decryptHandshake_not_heard

/-! ## The invariant -/

/-- The invariants of both nodes -/
structure Paired (privateKey herPrivateKey : Key) (me you : View) (mine yours : Saying → Prop) :
    Prop where
  coherent : Coherent privateKey herPrivateKey me you mine yours
  partner : Coherent herPrivateKey privateKey you me yours mine
  opposite : Opposite mine yours

variable {privateKey herPrivateKey : Key} {me you after : View} {mine yours : Saying → Prop}
  {deeds : List Deed} {deed : Deed}

theorem Paired.symm (paired : Paired privateKey herPrivateKey me you mine yours) :
    Paired herPrivateKey privateKey you me yours mine where
  coherent := paired.partner
  partner := paired.coherent
  opposite := by
    intro secret role other said heard
    rw [paired.opposite secret other role heard said, Bool.not_not]

theorem Paired.act (paired : Paired context.privateKey herPrivateKey me you mine yours)
    (move : Move context me deed after) (fair : deed.IsFair me yours) :
    Paired context.privateKey herPrivateKey after you (deed.adds mine) yours where
  coherent := paired.coherent.act paired.partner move fair
  partner := paired.partner.react move.later fun _ => Or.inl
  opposite := move.opposite paired.coherent paired.partner paired.opposite

/-- What the node has said after some deeds -/
def saidAfter (deeds : List Deed) (mine : Saying → Prop) : Saying → Prop :=
  deeds.foldl (fun said deed => deed.adds said) mine

theorem Paired.moves (paired : Paired context.privateKey herPrivateKey me you mine yours)
    (moves : Moves context me deeds after) :
    Paired context.privateKey herPrivateKey after you (saidAfter deeds mine) yours := by
  induction moves generalizing mine with
  | nil => exact paired
  | cons move own _ ih =>
      apply ih
      apply paired.act move
      cases move <;> first | exact trivial | exact own.elim

theorem Paired.reaction (paired : Paired context.privateKey herPrivateKey me you mine yours)
    (reaction : Reaction context received me deeds after)
    (heard : ∀ saying, received.Says saying → yours saying)
    (opens : ∀ opened, .heard received opened ∈ deeds → me.nextNonce < 5 → opened = true) :
    Paired context.privateKey herPrivateKey after you (saidAfter deeds mine) yours := by
  cases reaction with
  | ignored moves => exact paired.moves moves
  | took move moves =>
      have next := (paired.act move heard).moves moves
      exact next
  | heard move => exact paired.act move ⟨heard, opens _ (by simp)⟩

theorem saidAfter_eq (deeds : List Deed) (sent : List Packet) (saying : Saying) :
    saidAfter deeds (fun saying => ∃ packet ∈ sent, packet.Says saying) saying ↔
      ∃ packet ∈ sent ++ deeds.filterMap Deed.packet?, packet.Says saying := by
  induction deeds generalizing sent with
  | nil => simp [saidAfter]
  | cons deed deeds ih =>
      have adds : deed.adds (fun saying => ∃ packet ∈ sent, packet.Says saying) =
          fun saying => ∃ packet ∈ sent ++ deed.packet?.toList, packet.Says saying := by
        funext saying
        cases deed <;> simp [Deed.adds, Deed.Says, Deed.packet?, or_and_right, exists_or]
      have next := ih (sent ++ deed.packet?.toList)
      rw [← adds] at next
      refine next.trans ?_
      cases deed <;> simp [Deed.packet?]

/-- The invariant of the two nodes, seen from one side -/
def Link.IsPaired (link : Link) (side : Side) : Prop :=
  Paired (.random side.source 0) (.random side.other.source 0) (link.view side)
    (link.view side.other) (link.said side) (link.said side.other)

theorem Link.IsPaired.other {link : Link} {side : Side} (paired : link.IsPaired side) :
    link.IsPaired side.other := by
  have swapped := paired.symm
  simpa only [Link.IsPaired, Side.other_other] using swapped

theorem Endpoint.IsNew.view_eq {endpoint : Endpoint} {side : Side} (new : endpoint.IsNew side) :
    ∃ drawn, endpoint.view = {
      herPerminentPubKey := .publicKey (.random side.other.source 0)
      secret := .zero
      tempKey := .zero
      nextNonce := 0
      isInitiator := false
      rand := { source := side.source, drawn := drawn } } := by
  rcases new with ⟨_, _, _, _, drawn, rfl⟩
  exact ⟨drawn, rfl⟩

theorem coherent_initial {side : Side} {endpoint partner : Endpoint} {mine yours : Saying → Prop}
    (new : endpoint.IsNew side) (newToo : partner.IsNew side.other)
    (silent : ∀ saying, ¬mine saying) :
    Coherent (.random side.source 0) (.random side.other.source 0) endpoint.view partner.view
      mine yours := by
  rcases new.view_eq with ⟨drawn, view⟩
  rcases newToo.view_eq with ⟨drawnToo, viewToo⟩
  rw [view, viewToo]
  exact {
    keys := ⟨side.source_ne_other, by norm_num, rfl, .inl rfl, .inl rfl⟩
    saysKeys := ⟨by simp [silent], by simp [silent], by simp [silent]⟩
    saysData := ⟨by simp [silent], by simp [silent], by simp [silent]⟩
    phase := ⟨by simp, by simp, by simp, by simp, by simp⟩ }

section

variable (context : Side → Context) (link : Link) (side : Side) (call : Call)

theorem Link.view_call : (link.call context side call).view side =
    ((link.endpoint side).call (context side) call).endpoint.view := by
  simp [Link.view, Link.call]

theorem Link.view_call_other : (link.call context side call).view side.other =
    link.view side.other := by
  simp [Link.view, Link.call, Function.update_of_ne side.ne_other.symm]

theorem Link.said_call : (link.call context side call).said side =
    saidAfter ((link.endpoint side).call (context side) call).deeds (link.said side) := by
  funext saying
  apply propext
  refine Iff.trans ?_ (saidAfter_eq _ (link.sent side) saying).symm
  simp [Link.said, Link.call]

theorem Link.said_call_other : (link.call context side call).said side.other =
    link.said side.other := by
  funext saying
  simp [Link.said, Link.call, Function.update_of_ne side.ne_other.symm]

end

/-- A call of the node on this side preserves the invariant. -/
theorem Link.IsPaired.call {settings : LinkSettings} {link : Link} {side : Side} {call : Call}
    (paired : link.IsPaired side) (opens : opensFinalStep link (side, call))
    (delivers : link.Delivers side call) : (link.call settings.context side call).IsPaired side := by
  have both : Paired (settings.context side).privateKey (.random side.other.source 0)
    (link.endpoint side).view (link.view side.other) (link.said side)
    (link.said side.other) := paired
  rw [Link.IsPaired, Link.view_call, Link.view_call_other, Link.said_call, Link.said_call_other]
  rcases Endpoint.call_cases (settings.context side) (link.endpoint side) call with
    ⟨nowSecs, chance, received, rfl, reaction⟩ | moves
  · apply both.reaction reaction
    · exact fun _ saying => ⟨received, delivers, saying⟩
    · intro opened heard early
      exact receiveMessage_opened early heard (opens early)
  · exact both.moves moves

theorem Link.IsPaired.near {link : Link} {side : Side} (paired : link.IsPaired side) :
    link.IsPaired .near := by
  cases side with
  | near => exact paired
  | far => exact paired.other

theorem Link.IsPaired.at {link : Link} (paired : link.IsPaired .near) (side : Side) :
    link.IsPaired side := by
  cases side with
  | near => exact paired
  | far => exact paired.other

theorem link_isInvariant (settings : LinkSettings) :
    (linkRuns settings).IsInvariant opensFinalStep fun link => link.IsPaired .near where
  initial := by
    intro link starts
    have silent : ∀ side saying, ¬link.said side saying := by
      intro side saying said
      rcases said with ⟨packet, sent, _⟩
      rw [(starts side).2] at sent
      cases sent
    constructor
    · exact coherent_initial (starts .near).1 (starts .far).1 (silent _)
    · exact coherent_initial (starts .far).1 (starts .near).1 (silent _)
    · intro secret role other said
      exact absurd said (silent _ _)
  step := by
    intro before event after paired opens taken
    rcases event with ⟨side, call⟩
    rcases taken with ⟨delivers, rfl⟩
    exact ((paired.at side).call opens delivers).near

/-! ## Role agreement -/

/-- Past the handshake, a message opens under the secret of the connection in the other role, if it
is opened with the flag that it was written with. -/
theorem decrypt_sendUnexpired (context : Context) (chance : Chance) (message : List (BitVec 8))
    (rand : Random) {wrapper : Wrapper} (authenticate : Bool) (finished : 4 ≤ wrapper.nextNonce)
    (bounded : wrapper.nextNonce < 2 ^ 32) :
    decrypt (sendUnexpired context chance message rand wrapper).packet.nonce.toNat
        (sendUnexpired context chance message rand wrapper).packet
        (wrapper.view rand).sessionSecret (!wrapper.isInitiator) authenticate =
      if wrapper.authenticatePackets = authenticate then some message
      else if authenticate then none
      else some (chance.garble (wrapper.view rand).sessionSecret
        (decryptNonce wrapper.nextNonce !wrapper.isInitiator)) := by
  have counter : (BitVec.ofNat 32 wrapper.nextNonce).toNat = wrapper.nextNonce := by
    rw [BitVec.toNat_ofNat, Nat.mod_eq_of_lt bounded]
  have handshake : ¬wrapper.nextNonce < 4 := by omega
  have secret : (wrapper.view rand).sessionSecret =
      if wrapper.nextNonce < 5 then wrapper.finalSecret else wrapper.secret := rfl
  rw [secret, sendUnexpired, if_neg handshake]
  by_cases same : wrapper.authenticatePackets = authenticate
  · rw [if_pos same]
    split_ifs with final
    · simp [encryptMessage, decrypt, counter, decryptNonce_eq, Option.filter_some, same]
    · simp [encryptMessage, decrypt, counter, decryptNonce_eq, Option.filter_some, same]
  · rw [if_neg same]
    by_cases final : wrapper.nextNonce < 5
    · simp [final, encryptMessage, decrypt, counter, Option.filter_some, same]
    · simp [final, encryptMessage, decrypt, counter, Option.filter_some, same]

namespace Link

/-- Every data packet that the node on this side sends is decrypted by the other one, which looks
for an authenticator if its own flag is set. -/
def Understood (settings : LinkSettings) (link : Link) (side : Side) : Prop :=
  ∀ (chance : Chance) (message : List (BitVec 8)),
    let packet := (sendUnexpired (settings.context side) chance message
      (link.endpoint side).rand (link.endpoint side).wrapper).packet
    decrypt packet.nonce.toNat packet (link.view side.other).sessionSecret
      (link.view side.other).isInitiator
      (link.endpoint side.other).wrapper.authenticatePackets = some message

/-- In opposite roles, nodes with the same secret understand each other exactly if both or none of
them want packet authentication. -/
theorem understood_iff {settings : LinkSettings} {link : Link} {side : Side}
    (finished : 4 ≤ (link.endpoint side).wrapper.nextNonce)
    (bounded : (link.endpoint side).wrapper.nextNonce < 2 ^ 32)
    (same : (link.view side.other).sessionSecret = (link.view side).sessionSecret)
    (opposite : (link.view side.other).isInitiator = !(link.view side).isInitiator) :
    link.Understood settings side ↔
      (link.endpoint side).wrapper.authenticatePackets =
        (link.endpoint side.other).wrapper.authenticatePackets := by
  have opens := fun chance message => decrypt_sendUnexpired (settings.context side) chance message
    (link.endpoint side).rand (link.endpoint side.other).wrapper.authenticatePackets finished bounded
  constructor
  · intro understood
    by_contra differ
    have decrypted := understood .zero [0]
    dsimp only at decrypted
    rw [same, opposite] at decrypted
    have garbled := (opens .zero [0]).symm.trans decrypted
    rw [if_neg differ] at garbled
    split at garbled
    · cases garbled
    · cases garbled
  · intro flags chance message
    dsimp only
    rw [same, opposite]
    exact (opens chance message).trans (if_pos flags)

end Link

/--
Past the handshake, two nodes with the same secret are in opposite roles, and what the one encrypts
the other one decrypts exactly if both or none of them want packet authentication.
-/
theorem role_agreement (settings : LinkSettings) (link : Link)
    (reachable : (linkRuns settings).Reachable opensFinalStep link)
    (finished : ∀ side, 4 ≤ (link.endpoint side).wrapper.nextNonce)
    (same : (link.view .near).sessionSecret = (link.view .far).sessionSecret) :
    (link.view .near).isInitiator = !(link.view .far).isInitiator ∧
      ((∀ side, link.Understood settings side) ↔
        (link.endpoint .near).wrapper.authenticatePackets =
          (link.endpoint .far).wrapper.authenticatePackets) := by
  have paired := reachable.invariant (link_isInvariant settings)
  have roles : (link.view .near).isInitiator = !(link.view .far).isInitiator :=
    paired.coherent.opposite_roles paired.partner paired.opposite (finished .near) (finished .far)
      same
  have rolesBack : (link.view .far).isInitiator = !(link.view .near).isInitiator := by
    rw [roles, Bool.not_not]
  have near := @Link.understood_iff settings link .near (finished .near)
    (paired.at .near).coherent.keys.bounded same.symm rolesBack
  have far := @Link.understood_iff settings link .far (finished .far)
    (paired.at .far).coherent.keys.bounded same roles
  refine ⟨roles, fun understood => near.mp (understood .near), fun flags side => ?_⟩
  cases side with
  | near => exact near.mpr flags
  | far => exact far.mpr flags.symm

/-! ## Two runs -/

/-- The next call in a script -/
inductive Cue where
  | send (side : Side)
  /-- The packet with this number, of those that the other node has sent -/
  | deliver (side : Side) (number : ℕ)

def Link.follow (settings : LinkSettings) (link : Link) : Cue → Link
  | .send side => link.call settings.context side (.send 0 .zero [])
  | .deliver side number =>
      match (link.sent side.other)[number]? with
      | some packet => link.call settings.context side (.receive 0 .zero packet)
      | none => link

theorem Link.follow_reachable {system : TransitionSystem Link (Side × Call)}
    {settings : LinkSettings} {link : Link} {guard : Link → Side × Call → Prop}
    (steps : ∀ link side call, link.Delivers side call →
      system.step link (side, call) (link.call settings.context side call))
    (reachable : system.Reachable guard link) (met : ∀ event, guard link event) (cue : Cue) :
    system.Reachable guard (link.follow settings cue) := by
  cases cue with
  | send side => exact .step reachable (met _) (steps link side (.send 0 .zero []) trivial)
  | deliver side number =>
      rw [Link.follow]
      split
      · rename_i packet found
        have delivers : packet ∈ link.sent side.other := List.mem_of_getElem? found
        exact .step reachable (met _) (steps link side (.receive 0 .zero packet) delivers)
      · exact reachable

/-- A script that no guard stops -/
theorem Link.foldl_follow_reachable {system : TransitionSystem Link (Side × Call)}
    {settings : LinkSettings} {link : Link} {guard : Link → Side × Call → Prop}
    (steps : ∀ link side call, link.Delivers side call →
      system.step link (side, call) (link.call settings.context side call))
    (reachable : system.Reachable guard link) (met : ∀ link event, guard link event)
    (cues : List Cue) : system.Reachable guard (cues.foldl (Link.follow settings) link) := by
  induction cues generalizing link with
  | nil => exact reachable
  | cons cue cues ih => exact ih (Link.follow_reachable steps reachable (met link) cue)

theorem linkRuns_step {settings : LinkSettings} (link : Link) (side : Side) (call : Call)
    (delivers : link.Delivers side call) :
    (linkRuns settings).step link (side, call) (link.call settings.context side call) :=
  ⟨delivers, rfl⟩

def noPasswords : LinkSettings where
  passwords := fun _ => []
  resetAfterInactivitySeconds := fun _ => 60

/-- Two new endpoints -/
def newLink (authenticatePackets : Bool) : Link where
  endpoint := fun side => {
    wrapper := wrapInterface (some (.publicKey (.random side.other.source 0))) false
      authenticatePackets 0
    rand := { source := side.source, drawn := 1 } }
  sent := fun _ => []

theorem newLink_reachable (authenticatePackets : Bool) (guard : Link → Side × Call → Prop) :
    (linkRuns noPasswords).Reachable guard (newLink authenticatePackets) :=
  .initial fun _ => ⟨⟨false, authenticatePackets, 0, none, 1, rfl⟩, rfl⟩

/-- One node sends a hello and the first data packet, the other one the key. -/
def inTurn : List Cue :=
  [.send .near, .deliver .far 0, .send .far, .deliver .near 0, .send .near, .deliver .far 1]

theorem opensFinalStep_of_authenticated {link : Link}
    (authenticated : ∀ side, (link.endpoint side).wrapper.authenticatePackets = true)
    (event : Side × Call) : opensFinalStep link event := by
  rcases event with ⟨side, call⟩
  cases call with
  | receive =>
      intro _ _ _ off
      rw [authenticated side] at off
      cases off
  | send | reset | getState => trivial

theorem inTurn_reachable :
    (linkRuns noPasswords).Reachable opensFinalStep
      (inTurn.foldl (Link.follow noPasswords) (newLink true)) := by
  have start := newLink_reachable true opensFinalStep
  simp only [inTurn, List.foldl_cons, List.foldl_nil]
  refine Link.follow_reachable linkRuns_step ?_ ?_ _
  · refine Link.follow_reachable linkRuns_step ?_ ?_ _
    · refine Link.follow_reachable linkRuns_step ?_ ?_ _
      · refine Link.follow_reachable linkRuns_step ?_ ?_ _
        · refine Link.follow_reachable linkRuns_step ?_ ?_ _
          · refine Link.follow_reachable linkRuns_step start ?_ _
            exact opensFinalStep_of_authenticated (by intro side; cases side <;> rfl)
          · exact opensFinalStep_of_authenticated (by intro side; cases side <;> rfl)
        · exact opensFinalStep_of_authenticated (by intro side; cases side <;> rfl)
      · exact opensFinalStep_of_authenticated (by intro side; cases side <;> rfl)
    · exact opensFinalStep_of_authenticated (by intro side; cases side <;> rfl)
  · exact opensFinalStep_of_authenticated (by intro side; cases side <;> rfl)

/-- Both nodes send a hello, before they get the one of the other node; then one of them sends the
key and the other one the first data packet. -/
def crossing : List Cue :=
  [.send .near, .send .far, .deliver .near 0, .deliver .far 0, .send .near, .deliver .far 1,
    .send .far, .deliver .near 1]

theorem crossing_reachable :
    (linkRuns noPasswords).Reachable (fun _ _ => True)
      (crossing.foldl (Link.follow noPasswords) (newLink false)) :=
  Link.foldl_follow_reachable linkRuns_step (newLink_reachable false _) (fun _ _ => trivial) _

theorem role_agreement_inTurn :
    let link := inTurn.foldl (Link.follow noPasswords) (newLink true)
    (link.view .near).isInitiator = !(link.view .far).isInitiator ∧
      ∀ side, link.Understood noPasswords side := by
  have agreement := role_agreement noPasswords _ inTurn_reachable
    (by intro side; cases side <;> decide) rfl
  exact ⟨agreement.1, agreement.2.mpr (by decide)⟩

/-- Without packet authentication, both nodes can end up without the role of the initiator. -/
theorem crossing_same_role :
    ¬∀ (settings : LinkSettings) (link : Link),
      (linkRuns settings).Reachable (fun _ _ => True) link →
      (∀ side, 4 ≤ (link.endpoint side).wrapper.nextNonce) →
      (link.view .near).sessionSecret = (link.view .far).sessionSecret →
      (link.view .near).isInitiator = !(link.view .far).isInitiator := by
  intro claimed
  have roles := claimed noPasswords _ crossing_reachable
    (by intro side; cases side <;> decide) rfl
  exact absurd roles (by decide)

end CryptoAuth

end Cjdns
