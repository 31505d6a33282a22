import Cjdns.Crypto.Provenance
import Cjdns.Net.DefaultInterfaceController

/-!
# The gate between CryptoAuth and the switch

`receivedAfterCryptoAuth` of `DefaultInterfaceController.c` gets every message
that CryptoAuth passes on. Two state machines run side by side: the session may
fall back to the handshake at any time, while the state of the peer goes forward
only. The messages of a handshake, which may be replayed, are looked at only as
long as the peer is not established.
-/

namespace Cjdns.DefaultInterfaceController

open CryptoAuth (Context Endpoint Chance Packet)

/-- `enum InterfaceController_PeerState` -/
inductive PeerState where
  | UNAUTHENTICATED
  | HANDSHAKE
  | ESTABLISHED
  | UNRESPONSIVE
deriving DecidableEq

def PeerState.code : PeerState → ℕ
  | UNAUTHENTICATED => 0
  | HANDSHAKE => 1
  | ESTABLISHED => 2
  | UNRESPONSIVE => 3

/-- The numbers that `CryptoAuth_getState` returns -/
def stateCode : CryptoAuth.State → ℕ
  | .NEW => 0
  | .HANDSHAKE1 => 1
  | .HANDSHAKE2 => 2
  | .HANDSHAKE3 => 3
  | .ESTABLISHED => 4

abbrev UNRESPONSIVE_AFTER_MILLISECONDS : BitVec 64 := 20 * 1024

abbrev PING_AFTER_MILLISECONDS : BitVec 64 := 3 * 1024

abbrev FORGET_AFTER_MILLISECONDS : BitVec 64 := 256 * 1024

/-- `struct IFCPeer`, with the session behind `cryptoAuthIf` -/
structure IFCPeer where
  session : Endpoint
  timeOfLastMessage : BitVec 64
  transient : Bool
  state : PeerState

/-- A peer and the count of its controller -/
structure Peering where
  peer : IFCPeer
  pingCount : BitVec 32

/-- The turn of `pingCallback` for one peer; it has no result where the peer is forgotten. -/
def pingPeer (now : BitVec 64) (pingCount : BitVec 32) (ep : IFCPeer) : Option IFCPeer :=
  if now > ep.timeOfLastMessage + PING_AFTER_MILLISECONDS then
    if ep.transient && now > ep.timeOfLastMessage + FORGET_AFTER_MILLISECONDS then none
    else if now > ep.timeOfLastMessage + UNRESPONSIVE_AFTER_MILLISECONDS then
      if pingCount % 8 ≠ 0 then some ep else some { ep with state := .UNRESPONSIVE }
    else some ep
  else some ep

/-- `pingCallback` -/
def pingCallback (now : BitVec 64) (peering : Peering) : Option Peering :=
  (pingPeer now (peering.pingCount + 1) peering.peer).map fun ep =>
    { peer := ep, pingCount := peering.pingCount + 1 }

/-- The times of a call: of the event loop in seconds, for CryptoAuth, and in milliseconds -/
structure Times where
  seconds : BitVec 64
  milliseconds : BitVec 64

/-- What `receivedAfterCryptoAuth` leaves behind -/
structure Gated where
  /-- Nothing where the peer was forgotten -/
  peering : Option Peering
  /-- `moveEndpointIfNeeded` was called. -/
  moved : Bool
  /-- The message was passed to the switch. -/
  passed : Bool

/-- The label of the switch header directs the message to this router. -/
def directsHere (msg : List (BitVec 8)) : Bool :=
  !(msg.length < 8) && msg[7]? == some 1

/-- The result of `CryptoAuth_getState` -/
def getState (context : Context) (times : Times) (session : Endpoint) : CryptoAuth.State :=
  (CryptoAuth.expire context times.seconds session.wrapper).state

/-- The session after `CryptoAuth_getState` -/
def expired (context : Context) (times : Times) (session : Endpoint) : Endpoint :=
  (session.call context (.getState times.seconds)).endpoint

/-- `receivedAfterCryptoAuth` -/
def receivedAfterCryptoAuth (context : Context) (times : Times) (msg : List (BitVec 8))
    (peering : Peering) : Gated :=
  let ep := peering.peer
  let state := getState context times ep.session
  let session := expired context times ep.session
  if ep.state.code < PeerState.ESTABLISHED.code then
    if stateCode state ≥ stateCode .HANDSHAKE3 then
      { peering := some { peering with
          peer := { ep with session := session, state := .ESTABLISHED } }
        moved := true
        passed := true }
    else
      let peering := { peering with peer := { ep with session := session, state := .HANDSHAKE } }
      if msg.length < 8 ∨ msg[7]? ≠ some 1 then
        { peering := some peering, moved := false, passed := false }
      else { peering := pingCallback times.milliseconds peering, moved := false, passed := true }
  else if ep.state = .UNRESPONSIVE then
    if stateCode state ≥ stateCode .HANDSHAKE3 then
      { peering := some { peering with
          peer := { ep with session := session, state := .ESTABLISHED } }
        moved := false
        passed := true }
    else
      { peering := some { peering with
          peer := { ep with session := session, timeOfLastMessage := times.milliseconds } }
        moved := false
        passed := true }
  else
    { peering := some { peering with peer := { ep with timeOfLastMessage := times.milliseconds } }
      moved := false
      passed := true }

/-! ## The gate -/

/-- A message that may have been replayed is passed on only if it is for this router. -/
def GateHolds (context : Context) (times : Times) (msg : List (BitVec 8)) (peering : Peering) :
    Prop :=
  stateCode (getState context times peering.peer.session) < stateCode .HANDSHAKE3 →
    (receivedAfterCryptoAuth context times msg peering).passed = true → directsHere msg = true

theorem directsHere_iff (msg : List (BitVec 8)) :
    directsHere msg = true ↔ ¬(msg.length < 8 ∨ msg[7]? ≠ some 1) := by
  simp [directsHere]

/-- The gate is closed as long as the peer is not established; afterwards it is always open. -/
theorem gateHolds_iff (context : Context) (times : Times) (msg : List (BitVec 8))
    (peering : Peering) :
    GateHolds context times msg peering ↔
      peering.peer.state = .UNAUTHENTICATED ∨ peering.peer.state = .HANDSHAKE ∨
        stateCode .HANDSHAKE3 ≤ stateCode (getState context times peering.peer.session) ∨
        directsHere msg = true := by
  by_cases authentic : stateCode .HANDSHAKE3 ≤ stateCode (getState context times peering.peer.session)
  · simp only [GateHolds, not_lt.mpr authentic, authentic, IsEmpty.forall_iff, true_or, or_true]
  simp only [GateHolds, not_le.mp authentic, authentic, true_implies, false_or]
  cases state : peering.peer.state with
  | UNAUTHENTICATED | HANDSHAKE =>
      have passed : (receivedAfterCryptoAuth context times msg peering).passed = true ↔
          directsHere msg = true := by
        simp only [receivedAfterCryptoAuth, state, ge_iff_le, if_neg authentic, directsHere_iff]
        rw [if_pos (by decide)]
        split
        · rename_i elsewhere
          exact iff_of_false Bool.false_ne_true (not_not_intro elsewhere)
        · rename_i here
          exact iff_of_true rfl here
      simp [passed]
  | ESTABLISHED | UNRESPONSIVE =>
      simp [receivedAfterCryptoAuth, state, PeerState.code, authentic]

/-! ## Both machines together -/

/-- What may happen to a peer -/
inductive PeerEvent where
  /-- A packet comes from the network. -/
  | received (chance : Chance) (packet : Packet)
  /-- The switch sends a message. -/
  | sent (chance : Chance) (message : List (BitVec 8))
  /-- The ping timer goes off. -/
  | ping

/-- The message that CryptoAuth passes on, and the peer at that moment -/
def handedUp (context : Context) (times : Times) (chance : Chance) (packet : Packet)
    (peering : Peering) : Option (List (BitVec 8)) × Peering :=
  let called := peering.peer.session.call context (.receive times.seconds chance packet)
  (match called.outcome with
    | .passed message => some message
    | .refused _ | .silent => none,
  { peering with peer := { peering.peer with session := called.endpoint } })

/-- What an event makes of a peer -/
def Peering.next (context : Context) (times : Times) (peering : Peering) :
    PeerEvent → Option Peering
  | .received chance packet =>
      match handedUp context times chance packet peering with
      | (some message, after) => (receivedAfterCryptoAuth context times message after).peering
      | (none, after) => some after
  | .sent chance message => some { peering with peer := { peering.peer with
      session := (peering.peer.session.call context
        (.send times.seconds chance message)).endpoint } }
  | .ping => pingCallback times.milliseconds peering

/-- `registerPeer` -/
def registerPeer (herPublicKey : Option Key) (password : Option String)
    (requireAuth transient : Bool) (rand : CryptoAuth.Random) (times : Times) : IFCPeer where
  session := {
    wrapper := CryptoAuth.setAuth password
      (CryptoAuth.wrapInterface herPublicKey requireAuth true times.seconds)
    rand := rand }
  timeOfLastMessage := times.milliseconds - PING_AFTER_MILLISECONDS - 1
  transient := transient
  state := if requireAuth then .UNAUTHENTICATED else .HANDSHAKE

/-- The runs of a registered peer -/
def peerRuns (context : Context) : TransitionSystem Peering (Times × PeerEvent) where
  initial peering := ∃ herPublicKey password requireAuth transient rand times,
    peering.peer = registerPeer herPublicKey password requireAuth transient rand times
  step before event after := before.next context event.1 event.2 = some after

/-- A hello that carries a packet for another router -/
def transitHello : Packet :=
  { CryptoAuth.honestHello with
    length := 132
    handshake := { CryptoAuth.honestHello.handshake with
      box := CryptoAuth.honestHello.handshake.box.map fun box =>
        { box with content := [0, 0, 0, 0, 0, 0, 0, 0x13, 0, 0, 0, 0] } } }

def newContext60 : Context :=
  CryptoAuth.newContext 0 [] 60

def registered : Peering where
  peer := registerPeer (some (.publicKey (.random 1 0))) none false false
    { source := 0, drawn := 1 } { seconds := 0, milliseconds := 0 }
  pingCount := 0

def greeted : Peering :=
  (registered.next newContext60 ⟨0, 0⟩ (.received .zero transitHello)).getD registered

/-- The peer after the hello and the first data packet -/
def established : Peering :=
  (greeted.next newContext60 ⟨0, 0⟩ (.received .zero CryptoAuth.honestData)).getD greeted

theorem established_reachable :
    (peerRuns newContext60).Reachable (fun _ _ => True) established := by
  have initial : (peerRuns newContext60).initial registered := ⟨_, _, _, _, _, _, rfl⟩
  have hello : (peerRuns newContext60).step registered (⟨0, 0⟩, .received .zero transitHello) greeted :=
    rfl
  have data : (peerRuns newContext60).step greeted (⟨0, 0⟩, .received .zero CryptoAuth.honestData)
      established := rfl
  exact .step (.step (.initial initial) trivial hello) trivial data

/-- A replayed hello gets a packet for another router through to the switch. -/
theorem replay_passes_gate :
    ¬∀ (context : Context) (peering : Peering), (peerRuns context).Reachable (fun _ _ => True)
        peering →
      ∀ (times : Times) (chance : Chance) (packet : Packet) (message : List (BitVec 8))
        (after : Peering), handedUp context times chance packet peering = (some message, after) →
        GateHolds context times message after := by
  intro claimed
  have holds := claimed newContext60 established established_reachable ⟨0, 0⟩ .zero transitHello _ _ rfl
  exact absurd (holds (by decide) (by decide)) (by decide)

end Cjdns.DefaultInterfaceController
