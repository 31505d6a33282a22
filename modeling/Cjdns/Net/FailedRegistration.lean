import Cjdns.Dht.Address
import Cjdns.Net.StrayPackets

/-!
# Registrations that fail

`registerPeer` enters a peer in the map of the controller, and has its messages come in, before the
switch is asked for a slot. If there is none, the call returns an error and leaves the peer where it
is: the interface counts as registered, and the messages that CryptoAuth lets through go to a switch
interface that was never set. Only a bad key is noticed in time.
-/

namespace Cjdns.DefaultInterfaceController

open CryptoAuth (Context Chance Packet)

/-- What `registerPeer` returns -/
inductive Registered where
  | done
  | INTERNAL
  | BAD_KEY
  | OUT_OF_SPACE
deriving DecidableEq

/-- The controller with the sessions of its peers -/
structure Controller where
  table : PeerTable
  /-- The peers, by their handles -/
  peer : ℕ → IFCPeer
  pingCount : BitVec 32

/-- What a call of `registerPeer` leaves behind -/
structure Registration where
  result : Registered
  controller : Controller
  /-- `pingCallback` is called before it returns. -/
  kicks : Bool

/-- The key of a peer, with the bytes that stand for a key -/
def keyBytes (bytes : Key → BitVec 256) (herPublicKey : Option Key) : BitVec 256 :=
  (herPublicKey.map bytes).getD 0

/-- A key is given, and its address is not valid. -/
def BadKey [AddressCalc] (bytes : Key → BitVec 256) (herPublicKey : Option Key) : Prop :=
  ∃ key, herPublicKey = some key ∧
    AddressCalc.validAddress (AddressCalc.addressForPublicKey (bytes key)) = false

instance [AddressCalc] (bytes : Key → BitVec 256) (herPublicKey : Option Key) :
    Decidable (BadKey bytes herPublicKey) :=
  match herPublicKey with
  | none => .isFalse fun ⟨_, impossible, _⟩ => by cases impossible
  | some key =>
      decidable_of_iff
        (AddressCalc.validAddress (AddressCalc.addressForPublicKey (bytes key)) = false)
        ⟨fun invalid => ⟨key, rfl, invalid⟩, fun ⟨_, same, invalid⟩ => by cases same; exact invalid⟩

/-- The arguments of `registerPeer`, with the random source and the time -/
structure RegisterCall where
  herPublicKey : Option Key
  password : Option String
  requireAuth : Bool
  transient : Bool
  externalInterface : ℕ
  rand : CryptoAuth.Random
  times : Times

namespace Controller

/-- The interface is already registered. -/
def Knows (controller : Controller) (externalInterface : ℕ) : Prop :=
  (controller.table.peerMap.indexForKey externalInterface).isSome

instance (controller : Controller) (externalInterface : ℕ) :
    Decidable (controller.Knows externalInterface) :=
  inferInstanceAs (Decidable (_ = true))

/-- `registerPeer`, up to the call of `pingCallback` at its end. There is no result where the table
of the switch is overrun. -/
def registerPeer [AddressCalc] (bytes : Key → BitVec 256) (call : RegisterCall)
    (controller : Controller) : Option Registration :=
  if controller.Knows call.externalInterface then
    some { result := .done, controller := controller, kicks := false }
  else if BadKey bytes call.herPublicKey then
    some { result := .BAD_KEY, controller := controller, kicks := false }
  else
    let handle := controller.table.peerMap.nextHandle
    let ep := DefaultInterfaceController.registerPeer call.herPublicKey call.password
      call.requireAuth call.transient call.rand call.times
    (controller.table.registerPeer call.externalInterface
        (keyBytes bytes call.herPublicKey)).map fun table =>
      match controller.table.core.addInterface (handle + 1) 0 with
      | .outOfSpace =>
          -- The time is set at the end of the function only.
          { result := .OUT_OF_SPACE
            controller := { controller with
              table := table
              peer := Function.update controller.peer handle { ep with timeOfLastMessage := 0 } }
            kicks := false }
      | .stored _ _ _ | .outOfBounds =>
          { result := .done
            controller := { controller with
              table := table
              peer := Function.update controller.peer handle ep }
            kicks := call.herPublicKey.isSome }

/-! ## Messages -/

/-- A packet that arrives on an interface -/
structure Arrival where
  context : Context
  times : Times
  chance : Chance
  packet : Packet

/-- What becomes of a packet -/
structure Arrived where
  controller : Controller
  /-- The slot of the switch interface that the message is passed to, if it is; `some none` where
  that interface is not set -/
  passedTo : Option (Option (Fin NumberCompress.INTERFACES))

/-- A packet arrives on an external interface. The interfaces of registered peers lead to CryptoAuth
and from there to `receivedAfterCryptoAuth`; what that does to other peers is left out. -/
def receive (controller : Controller) (externalInterface : ℕ) (arrival : Arrival) : Arrived :=
  match controller.table.peerMap.indexForKey externalInterface with
  | none => { controller := controller, passedTo := none }
  | some entry =>
      let peering := { peer := controller.peer entry.handle, pingCount := controller.pingCount }
      match handedUp arrival.context arrival.times arrival.chance arrival.packet peering with
      | (none, after) =>
          { controller := { controller with
              peer := Function.update controller.peer entry.handle after.peer }
            passedTo := none }
      | (some message, after) =>
          let gated := receivedAfterCryptoAuth arrival.context arrival.times message after
          let left := gated.peering.getD after
          { controller := { controller with
              peer := Function.update controller.peer entry.handle left.peer
              pingCount := left.pingCount }
            passedTo := if gated.passed then some entry.value.receiverContext else none }

/-- Packets that arrive one after the other -/
def receiveAll (controller : Controller) (externalInterface : ℕ) (arrivals : List Arrival) :
    Controller :=
  arrivals.foldl (fun controller arrival => (controller.receive externalInterface arrival).controller)
    controller

end Controller

/-- A call has left no peer behind. -/
structure LeavesNoPeer (externalInterface : ℕ) (before after : Controller) : Prop where
  interfaces : ∀ iface, iface ∈ after.table.peerMap.entries.map (·.key) ↔
    iface ∈ before.table.peerMap.entries.map (·.key)
  unskipped : ¬ after.Knows externalInterface
  unreached : ∀ arrivals arrival,
    ((after.receiveAll externalInterface arrivals).receive externalInterface arrival).passedTo ≠
      some none

namespace Controller

variable {controller : Controller}

/-! ## Where a call ends -/

theorem knows_iff {externalInterface : ℕ} : controller.Knows externalInterface ↔
    externalInterface ∈ controller.table.peerMap.entries.map (·.key) := by
  rw [Knows, Map.indexForKey, List.find?_isSome, List.mem_map]
  simp only [decide_eq_true_eq]

/-- Nothing comes of packets on an interface that is not registered. -/
theorem receive_of_unknown {externalInterface : ℕ}
    (unknown : ¬ controller.Knows externalInterface) (arrival : Arrival) :
    controller.receive externalInterface arrival =
      { controller := controller, passedTo := none } := by
  have absent : controller.table.peerMap.indexForKey externalInterface = none :=
    Option.not_isSome_iff_eq_none.mp unknown
  rw [receive, absent]

theorem receiveAll_of_unknown {externalInterface : ℕ}
    (unknown : ¬ controller.Knows externalInterface) (arrivals : List Arrival) :
    controller.receiveAll externalInterface arrivals = controller := by
  induction arrivals with
  | nil => rfl
  | cons arrival arrivals ih =>
      rw [receiveAll, List.foldl_cons, receive_of_unknown unknown]
      exact ih

end Controller

variable [AddressCalc] {bytes : Key → BitVec 256} {call : RegisterCall} {controller : Controller}
  {registration : Registration}

/-- The three ways through `registerPeer` -/
theorem Controller.registerPeer_cases
    (registers : controller.registerPeer bytes call = some registration) :
    registration.result = .done ∨
      (¬ controller.Knows call.externalInterface ∧ BadKey bytes call.herPublicKey ∧
        registration.controller = controller) ∨
      (¬ controller.Knows call.externalInterface ∧ ¬ BadKey bytes call.herPublicKey ∧
        registration.result = .OUT_OF_SPACE ∧
        ∃ peer, registration.controller.table.peerMap =
          controller.table.peerMap.push call.externalInterface peer) := by
  rw [registerPeer] at registers
  split_ifs at registers with known bad
  · rw [← Option.some.inj registers]
    exact .inl rfl
  · rw [← Option.some.inj registers]
    exact .inr (.inl ⟨known, bad, rfl⟩)
  · rcases Option.map_eq_some_iff.mp registers with ⟨table, taken, rfl⟩
    rcases PeerTable.peerMap_registerPeer (Option.not_isSome_iff_eq_none.mp known) taken with
      ⟨peer, pushed⟩
    cases added : controller.table.core.addInterface
      (controller.table.peerMap.nextHandle + 1) 0 with
    | outOfSpace => exact .inr (.inr ⟨known, bad, rfl, peer, pushed⟩)
    | stored core slot label => exact .inl rfl
    | outOfBounds => exact .inl rfl

/-- A call that fails leaves no peer behind exactly if it fails because of the key. -/
theorem leavesNoPeer_iff (registers : controller.registerPeer bytes call = some registration)
    (fails : registration.result ≠ .done) :
    LeavesNoPeer call.externalInterface controller registration.controller ↔
      BadKey bytes call.herPublicKey := by
  rcases Controller.registerPeer_cases registers with
    done | ⟨unknown, bad, same⟩ | ⟨unknown, good, -, peer, pushed⟩
  · exact absurd done fails
  · rw [same]
    refine iff_of_true ⟨fun _ => Iff.rfl, unknown, fun arrivals arrival => ?_⟩ bad
    rw [Controller.receiveAll_of_unknown unknown, Controller.receive_of_unknown unknown]
    exact (Option.some_ne_none _).symm
  · refine iff_of_false (fun leaves => leaves.unskipped ?_) good
    rw [Controller.knows_iff, pushed, Map.push, List.map_append, List.mem_append]
    exact .inr List.mem_cons_self

/-! ## A switch without a slot -/

omit [AddressCalc]

/-- A controller without peers, behind a switch whose slots are all taken -/
def behindFull : Controller where
  table := { PeerTable.new with core := MultiInterface.Endpoints.fullTable }
  peer _ := DefaultInterfaceController.registerPeer none none false false ⟨0, 1⟩ ⟨0, 0⟩
  pingCount := 0

/-- A peer whose key is known -/
def newPeer : RegisterCall where
  herPublicKey := some (.publicKey (.random 1 0))
  password := none
  requireAuth := false
  transient := true
  externalInterface := 5
  rand := { source := 0, drawn := 1 }
  times := ⟨0, 0⟩

/-- A hello that carries a message for this router -/
def helloForUs : Controller.Arrival where
  context := newContext60
  times := ⟨0, 0⟩
  chance := .zero
  packet := { CryptoAuth.honestHello with
    length := 132
    handshake := { CryptoAuth.honestHello.handshake with
      box := CryptoAuth.honestHello.handshake.box.map fun box =>
        { box with content := [0, 0, 0, 0, 0, 0, 0, 1, 0, 0, 0, 0] } } }

theorem not_knows_behindFull (externalInterface : ℕ) :
    ¬ behindFull.Knows externalInterface :=
  Bool.false_ne_true

theorem leavesNoPeer_badKey :
    letI : AddressCalc := ⟨fun key => key.extractLsb' 0 128⟩
    ∃ registration, behindFull.registerPeer (fun _ => 1) newPeer = some registration ∧
      LeavesNoPeer newPeer.externalInterface behindFull registration.controller := by
  let : AddressCalc := ⟨fun key => key.extractLsb' 0 128⟩
  have bad : BadKey (fun _ => 1) newPeer.herPublicKey := ⟨_, rfl, by decide⟩
  have registers : behindFull.registerPeer (fun _ => 1) newPeer =
      some { result := .BAD_KEY, controller := behindFull, kicks := false } := by
    rw [Controller.registerPeer, if_neg (not_knows_behindFull _), if_pos bad]
  exact ⟨_, registers, (leavesNoPeer_iff registers (by decide)).mpr bad⟩

/-- The controller with the peer for which there was no slot -/
def withNewPeer : Controller where
  table := { behindFull.table with
    peerMap := behindFull.table.peerMap.push newPeer.externalInterface
      { herPublicKey := 1
        switchLabel := 0
        receiverContext := none
        jobs := [{ address := 1, callback := .closeInterface 0 }] }
    nextJob := 2 }
  peer := Function.update behindFull.peer 0
    { DefaultInterfaceController.registerPeer newPeer.herPublicKey none false true newPeer.rand
        newPeer.times with timeOfLastMessage := 0 }
  pingCount := 0

/-- Without a slot, the call returns an error, a second call does nothing, and a hello comes to a
switch interface that is not set. -/
theorem unslotted_peer_stays :
    letI : AddressCalc := AddressCalc.plain
    behindFull.registerPeer (fun _ => 1) newPeer =
        some { result := .OUT_OF_SPACE, controller := withNewPeer, kicks := false } ∧
      withNewPeer.registerPeer (fun _ => 1) newPeer =
        some { result := .done, controller := withNewPeer, kicks := false } ∧
      (withNewPeer.receive newPeer.externalInterface helloForUs).passedTo = some none ∧
      ¬ LeavesNoPeer newPeer.externalInterface behindFull withNewPeer := by
  let : AddressCalc := AddressCalc.plain
  have full : behindFull.table.core.addInterface (behindFull.table.peerMap.nextHandle + 1) 0 =
      .outOfSpace :=
    SwitchCore.addInterface_eq_outOfSpace_iff.mpr
      ⟨by decide, fun slot _ => Option.some_ne_none _⟩
  have good : ¬ BadKey (fun _ => 1) newPeer.herPublicKey := by
    rintro ⟨key, -, invalid⟩
    change AddressCalc.validAddress (AddressCalc.addressForPublicKey 1) = false at invalid
    revert invalid
    decide
  have known : withNewPeer.Knows newPeer.externalInterface := by decide
  have entered : behindFull.table.registerPeer newPeer.externalInterface
      (keyBytes (fun _ => 1) newPeer.herPublicKey) = some withNewPeer.table := by
    rw [PeerTable.registerPeer, if_neg (by decide)]
    simp only [full]
    rfl
  refine ⟨?_, ?_, by decide +kernel, fun leaves => leaves.unskipped known⟩
  · rw [Controller.registerPeer, if_neg (not_knows_behindFull _), if_neg good, entered,
      Option.map_some]
    simp only [full]
    rfl
  · rw [Controller.registerPeer, if_pos known]

end Cjdns.DefaultInterfaceController
