import Cjdns.Library.Transition
import Cjdns.Util.Map

/-!
# Interfaces with many peers

`MultiInterface.c`: one interface to the network, such as a socket, serves many peers.
A key of fixed length in front of a message says which peer it is from or to.
-/

namespace Cjdns

/-- A `struct Message` of which only the content and the size of the padding matter -/
structure PaddedMessage where
  padding : ℕ
  content : List (BitVec 8)

namespace PaddedMessage

/-- `Message_push`; there is no result where an assertion fails, here and below. -/
def push (object : List (BitVec 8)) (packet : PaddedMessage) : Option PaddedMessage :=
  if object.length ≤ packet.padding then
    some { padding := packet.padding - object.length, content := object ++ packet.content }
  else none

/-- `Message_pop` -/
def pop (size : ℕ) (packet : PaddedMessage) : Option (List (BitVec 8) × PaddedMessage) :=
  if size ≤ packet.content.length then
    some (packet.content.take size,
      { padding := packet.padding + size, content := packet.content.drop size })
  else none

theorem push_eq_some {object : List (BitVec 8)} {packet pushed : PaddedMessage}
    (pushes : packet.push object = some pushed) : pushed.content = object ++ packet.content := by
  rw [push, Option.ite_none_right_eq_some, Option.some.injEq] at pushes
  rw [← pushes.2]

theorem pop_eq_some {size : ℕ} {packet : PaddedMessage} {popped : List (BitVec 8) × PaddedMessage}
    (pops : packet.pop size = some popped) :
    size ≤ packet.content.length ∧ popped.1 = packet.content.take size ∧
      popped.2.content = packet.content.drop size := by
  rw [pop, Option.ite_none_right_eq_some, Option.some.injEq] at pops
  rcases pops with ⟨enough, rfl⟩
  exact ⟨enough, rfl, rfl⟩

end PaddedMessage

/-- `struct MultiInterface_pvt`. A key of the map points into the peer, and the peer is known by
the handle of its entry. -/
structure MultiInterface where
  keySize : ℕ
  peerMap : Map (List (BitVec 8)) Unit
  distinct : (peerMap.entries.map (·.key)).Nodup

namespace MultiInterface

/-- `MultiInterface_new` -/
def new (keySize : ℕ) : MultiInterface where
  keySize := keySize
  peerMap := .empty
  distinct := List.nodup_nil

/-- The key of a peer -/
def keyOf (peer : ℕ) (mif : MultiInterface) : Option (List (BitVec 8)) :=
  (mif.peerMap.entries.find? fun entry => entry.handle = peer).map (·.key)

/-- What `peerForKey` leaves behind and returns -/
structure Found where
  mif : MultiInterface
  peer : ℕ

/-- `peerForKey` -/
def peerForKey (key : List (BitVec 8)) (mif : MultiInterface) : Found :=
  match found : mif.peerMap.indexForKey key with
  | some entry => { mif := mif, peer := entry.handle }
  | none =>
      { mif :=
          { keySize := mif.keySize
            peerMap := mif.peerMap.push key ()
            distinct := by
              rw [Map.push, List.map_append, List.map_singleton, ← List.concat_eq_append,
                List.nodup_concat, List.mem_map]
              refine ⟨?_, mif.distinct⟩
              rintro ⟨entry, inside, same⟩
              simpa [same] using List.find?_eq_none.mp found entry inside }
        peer := mif.peerMap.nextHandle }

/-- `removePeer` -/
def removePeer (peer : ℕ) (mif : MultiInterface) : MultiInterface where
  keySize := mif.keySize
  peerMap := mif.peerMap.remove peer
  distinct := mif.distinct.sublist (List.filter_sublist.map _)

/-- `sendMessage` hands the message with the key of the peer to the network interface. -/
def sendMessage (msg : PaddedMessage) (peer : ℕ) (mif : MultiInterface) : Option PaddedMessage :=
  (mif.keyOf peer).bind fun key => msg.push key

/-- What `receiveMessage` leaves behind, the peer whose interface it hands the message to, and the
message -/
structure Handed where
  mif : MultiInterface
  peer : ℕ
  msg : PaddedMessage

/-- `receiveMessage`, which pushes the size of the key to have a `struct MapKey` to look up -/
def receiveMessage (msg : PaddedMessage) (mif : MultiInterface) : Option Handed :=
  if msg.padding < 4 then none
  else
    (msg.pop mif.keySize).map fun popped =>
      let found := mif.peerForKey popped.1
      { mif := found.mif, peer := found.peer, msg := popped.2 }

/-! ## Runs -/

inductive Event where
  | forKey (key : List (BitVec 8))
  /-- The allocator of a peer is freed. -/
  | free (peer : ℕ)

def step (mif : MultiInterface) : Event → MultiInterface
  | .forKey key => (mif.peerForKey key).mif
  | .free peer => mif.removePeer peer

/-- What a multi-interface may turn into -/
def changes (start : MultiInterface) : TransitionSystem MultiInterface Event where
  initial mif := mif = start
  step mif event after := mif.step event = after

/-- One multi-interface is the other, after peers have come and gone. -/
def Later (start later : MultiInterface) : Prop :=
  (changes start).Reachable (fun _ _ => True) later

variable {mif start later : MultiInterface} {key : List (BitVec 8)} {peer : ℕ}

theorem keyOf_eq_some :
    mif.keyOf peer = some key ↔ ∃ entry ∈ mif.peerMap.entries, entry.handle = peer ∧
      entry.key = key := by
  constructor
  · intro found
    rcases Option.map_eq_some_iff.mp found with ⟨entry, found, same⟩
    exact ⟨entry, List.mem_of_find?_eq_some found, by simpa using List.find?_some found, same⟩
  · rintro ⟨entry, inside, rfl, rfl⟩
    have some : (mif.peerMap.entries.find? fun other => other.handle = entry.handle).isSome :=
      List.find?_isSome.mpr ⟨entry, inside, by simp⟩
    rcases Option.isSome_iff_exists.mp some with ⟨other, found⟩
    have same := Map.eq_of_handle_eq (List.mem_of_find?_eq_some found) inside
      (by simpa using List.find?_some found)
    rw [keyOf, found, same, Option.map_some]

/-- The peer for a key has the key. -/
theorem keyOf_peerForKey (key : List (BitVec 8)) (mif : MultiInterface) :
    (mif.peerForKey key).mif.keyOf (mif.peerForKey key).peer = some key := by
  unfold peerForKey
  split
  next entry found =>
    rcases Map.indexForKey_eq_some found with ⟨inside, same⟩
    exact keyOf_eq_some.mpr ⟨entry, inside, rfl, same⟩
  next =>
    exact keyOf_eq_some.mpr ⟨_, List.mem_append_right _ List.mem_cons_self, rfl, rfl⟩

/-- A peer is found by its key. -/
theorem peerForKey_of_keyOf (known : mif.keyOf peer = some key) :
    mif.peerForKey key = { mif := mif, peer := peer } := by
  rcases keyOf_eq_some.mp known with ⟨entry, inside, rfl, rfl⟩
  unfold peerForKey
  split
  next other found =>
    rcases Map.indexForKey_eq_some found with ⟨otherInside, same⟩
    rw [List.inj_on_of_nodup_map mif.distinct otherInside inside same]
  next absent =>
    simpa using List.find?_eq_none.mp absent entry inside

@[simp]
theorem keySize_peerForKey (key : List (BitVec 8)) (mif : MultiInterface) :
    (mif.peerForKey key).mif.keySize = mif.keySize := by
  unfold peerForKey
  split <;> rfl

/-- The handles that are given out are never given out again. -/
theorem evolves_peerForKey (key : List (BitVec 8)) (mif : MultiInterface) :
    Map.Evolves Eq (fun _ => True) mif.peerMap (mif.peerForKey key).mif.peerMap := by
  have same : Map.Evolves Eq (fun _ => True) mif.peerMap mif.peerMap := .refl _ fun _ _ => rfl
  unfold peerForKey
  split
  · exact same
  · exact same.push trivial

theorem later_isInvariant : (changes start).IsInvariant (fun _ _ => True) fun mif =>
    mif.keySize = start.keySize ∧ Map.Evolves Eq (fun _ => True) start.peerMap mif.peerMap where
  initial := by
    rintro _ rfl
    exact ⟨rfl, .refl _ fun _ _ => rfl⟩
  step {before event after} invariant _ taken := by
    rcases invariant with ⟨size, evolves⟩
    subst taken
    cases event with
    | forKey key =>
        refine ⟨(keySize_peerForKey ..).trans size, ?_⟩
        exact evolves.trans (evolves_peerForKey key before) (fun _ _ _ => Eq.trans)
          fun _ _ _ _ => trivial
    | free peer =>
        refine ⟨size, evolves.nextHandle_le, fun entry inside => ?_⟩
        exact evolves.entry entry (List.mem_filter.mp inside).1

/-- A peer that was there at the start and still is has the key it had. -/
theorem Later.keyOf {other : List (BitVec 8)} (runs : Later start later)
    (known : start.keyOf peer = some key) (still : later.keyOf peer = some other) :
    other = key := by
  rcases keyOf_eq_some.mp known with ⟨entry, inside, rfl, rfl⟩
  rcases keyOf_eq_some.mp still with ⟨next, nextInside, same, rfl⟩
  rcases (runs.invariant later_isInvariant).2.entry next nextInside with
    ⟨_, oldInside, _, rfl⟩ | ⟨new, _⟩
  · rw [Map.eq_of_handle_eq oldInside inside same]
  · exact absurd (start.peerMap.below entry inside) (by omega)

end MultiInterface

end Cjdns
