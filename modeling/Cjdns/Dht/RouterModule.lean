import Cjdns.Dht.NodeStore

/-!
# Pings and pongs

`RouterModule_pingNode` puts a ping into a free slot and sends the number of the
slot in the transaction id; `handleReply` finds the ping by that number. A search
reply is compared with the address that the search was sent to. A pong is not: it
completes whatever ping is in the slot that it names (`handleReply_pings`).
-/

namespace Cjdns

variable [AddressCalc]

namespace RouterModule

/-- `RouterModule_MAX_CONCURRENT_PINGS` -/
abbrev MAX_CONCURRENT_PINGS : ℕ := 128

abbrev LINK_STATE_MULTIPLIER : BitVec 64 := 536870

/-- `struct RouterModule_Ping` -/
structure Ping where
  /-- A position of the node store, which may hold another node by now -/
  node : ℕ
  txid : Option (List (BitVec 8))
  isFromAdmin : Bool
  timeSent : BitVec 32
  /-- Where the request went; the program does not keep it. -/
  sentTo : Address

end RouterModule

/-- `struct RouterModule` -/
structure RouterModule where
  nodeStore : NodeStore
  pings : Fin RouterModule.MAX_CONCURRENT_PINGS → Option RouterModule.Ping

namespace RouterModule

/-- A reply as `handleReply` reads it -/
structure Reply where
  address : Address
  /-- `CJDHTConstants_PROTOCOL` -/
  protocol : Option (BitVec 64)
  /-- `CJDHTConstants_TXID` -/
  txid : Option (List (BitVec 8))
  /-- `CJDHTConstants_NODES` -/
  nodes : Option (List (BitVec 8))
  /-- `CJDHTConstants_VERSION` -/
  version : Option (List (BitVec 8))

/-- What a call gets from the clock, from `rand` and from `tryNextNodeAfter` -/
structure Chance where
  now : BitVec 64
  rand : ℕ
  worst : BitVec 64

/-- What `pingResponse` sends to the admin; a version of other length than 20 is called old. -/
structure PingResponse where
  txid : Option (List (BitVec 8))
  timeout : Bool
  ms : BitVec 32
  version : Option (List (BitVec 8))

/-- `pingResponse` -/
def pingResponse (ping : Ping) (timeout : Bool) (lag : BitVec 32)
    (versionBin : Option (List (BitVec 8))) : PingResponse :=
  { txid := ping.txid
    timeout := timeout
    ms := lag
    version := if timeout then none else versionBin.filter (·.length == 20) }

/-- `responseFromNode` -/
def responseFromNode (chance : Chance) (node : ℕ) (millisecondsSinceRequest : BitVec 32)
    (store : NodeStore) : NodeStore :=
  let milliseconds := millisecondsSinceRequest.setWidth 64
  if chance.worst > milliseconds then
    store.updateReach node (((chance.worst - milliseconds) * LINK_STATE_MULTIPLIER).setWidth 32)
  else store

/-- A ping that `handleReply` has completed -/
structure Completed where
  ping : Ping
  lag : BitVec 32
  response : Option PingResponse

inductive Verdict where
  /-- 0, the other modules get the reply. -/
  | passed
  /-- -1 -/
  | stopped
  /-- An assertion fails. -/
  | aborted
  /-- The reply is for a search. -/
  | toSearch
deriving DecidableEq

/-- What `handleReply` leaves behind -/
structure Handled where
  routerModule : RouterModule
  verdict : Verdict
  completed : Option Completed

/-- The slot that a pong names in its transaction id -/
def pongSlot (reply : Reply) (tid : List (BitVec 8)) : Option (BitVec 8) :=
  match reply.nodes, tid with
  | none, [first, slot] => if first = 0x70 then some slot else none
  | _, _ => none

/-- The ping in a slot is completed. -/
def completePing (chance : Chance) (reply : Reply) (node : ℕ)
    (index : Fin MAX_CONCURRENT_PINGS) (ping : Ping) (routerModule : RouterModule) : Handled :=
  let lag := (chance.now - ping.timeSent.setWidth 64).setWidth 32
  { routerModule :=
      { nodeStore := responseFromNode chance node lag routerModule.nodeStore
        pings := Function.update routerModule.pings index none }
    verdict := .passed
    completed := some
      { ping := ping
        lag := lag
        response :=
          if ping.isFromAdmin then some (pingResponse ping false lag reply.version) else none } }

/-- A call that completes no ping -/
def Handled.plain (routerModule : RouterModule) (verdict : Verdict) : Handled :=
  { routerModule := routerModule, verdict := verdict, completed := none }

/-- The branch of `handleReply` for a pong that names a slot -/
def handlePong (chance : Chance) (reply : Reply) (node : ℕ) (slot : BitVec 8)
    (routerModule : RouterModule) : Handled :=
  if inside : slot.toNat < MAX_CONCURRENT_PINGS then
    match routerModule.pings ⟨slot.toNat, inside⟩ with
    | some ping => completePing chance reply node ⟨slot.toNat, inside⟩ ping routerModule
    | none => .plain routerModule .passed
  else .plain routerModule .passed

/-- The part of `handleReply` after the sender has been added to the table -/
def handleTid (chance : Chance) (reply : Reply) (node : ℕ) (routerModule : RouterModule) :
    Handled :=
  match reply.txid with
  | none => .plain routerModule .stopped
  | some tid =>
      match pongSlot reply tid with
      | some slot => handlePong chance reply node slot routerModule
      | none =>
          match reply.nodes with
          | some nodes =>
              if nodes.length = 0 ∨ nodes.length % 40 ≠ 0 then .plain routerModule .stopped
              else .plain routerModule .toSearch
          | none => .plain routerModule .toSearch

/-- `handleReply`, up to where it turns to the searches -/
def handleReply (chance : Chance) (reply : Reply) (routerModule : RouterModule) : Handled :=
  match routerModule.nodeStore.getNodeByNetworkAddr chance.rand reply.address.path with
  | none => .plain routerModule .passed
  | some node =>
      if node.address.key ≠ reply.address.key then .plain routerModule .passed
      else
        let version := (reply.protocol.map (·.setWidth 32)).getD 0
        match routerModule.nodeStore.addNode reply.address 2 version with
        | .null _ | .aborted => .plain routerModule .aborted
        | .node added nodeStore =>
            handleTid chance reply added { routerModule with nodeStore := nodeStore }

/-- The request of a ping -/
structure Request where
  address : Address
  txid : List (BitVec 8)

/-- `RouterModule_pingNode` for the node at a position; no result where all slots are taken. -/
def pingNode (chance : Chance) (position : ℕ) (node : Node) (txid : Option (List (BitVec 8)))
    (routerModule : RouterModule) : Option (RouterModule × Request) :=
  ((List.finRange MAX_CONCURRENT_PINGS).find? fun index =>
      (routerModule.pings index).isNone).map fun index =>
    ({ routerModule with
        pings := Function.update routerModule.pings index (some
          { node := position
            txid := txid
            isFromAdmin := txid.isSome
            timeSent := chance.now.setWidth 32
            sentTo := node.address }) },
      { address := node.address, txid := [0x70, BitVec.ofNat 8 index] })

/-! ## Who is credited -/

/-- The reply gets to the ping slots: its sender is the node in the table under its path, and
the table takes the address once more. -/
def accepts (chance : Chance) (reply : Reply) (routerModule : RouterModule) : Bool :=
  match routerModule.nodeStore.getNodeByNetworkAddr chance.rand reply.address.path with
  | none => false
  | some node =>
      node.address.key == reply.address.key &&
        match routerModule.nodeStore.addNode reply.address 2
            ((reply.protocol.map (·.setWidth 32)).getD 0) with
        | .node _ _ => true
        | .null _ | .aborted => false

/-- The slot that the transaction id of a reply names, if it is that of a pong -/
def namedSlot (reply : Reply) : Option ℕ :=
  (reply.txid.bind (pongSlot reply)).map (·.toNat)

theorem handlePong_pings (chance : Chance) (reply : Reply) (node : ℕ) (slot : BitVec 8)
    (routerModule : RouterModule) (index : Fin MAX_CONCURRENT_PINGS) :
    (handlePong chance reply node slot routerModule).routerModule.pings index =
      if slot.toNat = index then none else routerModule.pings index := by
  unfold handlePong
  split
  · rename_i inside
    by_cases this : slot.toNat = index
    · have same : index = ⟨slot.toNat, inside⟩ := Fin.ext this.symm
      rw [if_pos this, same]
      cases occupied : routerModule.pings ⟨slot.toNat, inside⟩ with
      | none => simpa [Handled.plain] using occupied
      | some ping => simp [completePing]
    · have other : index ≠ ⟨slot.toNat, inside⟩ := by
        rintro rfl
        exact this rfl
      rw [if_neg this]
      cases routerModule.pings ⟨slot.toNat, inside⟩ with
      | none => rfl
      | some ping => exact Function.update_of_ne other ..
  · rename_i outside
    have other : slot.toNat ≠ index := by
      have := index.isLt
      omega
    rw [if_neg other]
    rfl

theorem handleTid_pings (chance : Chance) (reply : Reply) (node : ℕ)
    (routerModule : RouterModule) (index : Fin MAX_CONCURRENT_PINGS) :
    (handleTid chance reply node routerModule).routerModule.pings index =
      if namedSlot reply = some (index : ℕ) then none else routerModule.pings index := by
  unfold handleTid namedSlot
  cases reply.txid with
  | none => simp [Handled.plain]
  | some tid =>
      simp only [Option.bind_some]
      rcases Option.eq_none_or_eq_some (pongSlot reply tid) with named | ⟨slot, named⟩
      · simp only [named, Option.map_none, reduceCtorEq, if_false]
        split
        · split <;> rfl
        · rfl
      · simp [named, handlePong_pings]

/-- A reply that is accepted empties the slot that it names, and no other. -/
theorem handleReply_pings (chance : Chance) (reply : Reply) (routerModule : RouterModule)
    (index : Fin MAX_CONCURRENT_PINGS) :
    (handleReply chance reply routerModule).routerModule.pings index =
      if accepts chance reply routerModule = true ∧ namedSlot reply = some (index : ℕ) then none
      else routerModule.pings index := by
  unfold handleReply accepts
  cases routerModule.nodeStore.getNodeByNetworkAddr chance.rand reply.address.path with
  | none => simp [Handled.plain]
  | some node =>
      by_cases known : node.address.key = reply.address.key
      · simp only [known, ne_eq, not_true_eq_false, if_false, beq_self_eq_true, Bool.true_and]
        cases routerModule.nodeStore.addNode reply.address 2
            ((reply.protocol.map (·.setWidth 32)).getD 0) with
        | null store => simp [Handled.plain]
        | aborted => simp [Handled.plain]
        | node added store => simp [handleTid_pings]
      · simp [known, Handled.plain]

/-- Every ping that a reply completes was sent to the node that the reply comes from. -/
def CreditsSender (chance : Chance) (reply : Reply) (routerModule : RouterModule) : Prop :=
  ∀ index ping, routerModule.pings index = some ping →
    (handleReply chance reply routerModule).routerModule.pings index = none →
    ping.sentTo.isSameIp reply.address = true

/-- The right node is credited unless an accepted pong names the slot of a ping to another. -/
theorem creditsSender_iff (chance : Chance) (reply : Reply) (routerModule : RouterModule) :
    CreditsSender chance reply routerModule ↔
      ¬ (accepts chance reply routerModule = true ∧
        ∃ (index : Fin MAX_CONCURRENT_PINGS) (ping : Ping),
          namedSlot reply = some (index : ℕ) ∧ routerModule.pings index = some ping ∧
            ¬ ping.sentTo.isSameIp reply.address = true) := by
  constructor
  · rintro credits ⟨accepted, index, ping, named, outstanding, other⟩
    apply other
    apply credits index ping outstanding
    rw [handleReply_pings, if_pos ⟨accepted, named⟩]
  · intro directed index ping outstanding emptied
    rw [handleReply_pings] at emptied
    by_contra other
    by_cases reached : accepts chance reply routerModule = true ∧
        namedSlot reply = some (index : ℕ)
    · exact directed ⟨reached.1, index, ping, reached.2, outstanding, other⟩
    · rw [if_neg reached, outstanding] at emptied
      cases emptied

/-- The node that is pinged -/
def pinged : Node :=
  { reach := 1
    version := 2
    address := { ip6 := 0xFC000000000000000000000000000002, key := 2, path := 0x15 } }

/-- Another node of the table -/
def bystander : Node :=
  { reach := 1
    version := 2
    address := { ip6 := 0xFC000000000000000000000000000003, key := 3, path := 0x17 } }

/-- A table with both nodes, and a ping to one of them in the first slot -/
def awaitingPong : RouterModule where
  nodeStore :=
    { thisNodeAddress := { ip6 := 0xFC000000000000000000000000000001, key := 1, path := 1 }
      capacity := 2
      entries := [pinged, bystander].map fun node =>
        ((Entry.replaceNode node node.address).withReach 1).withVersion 2
      labelSum := 8 }
  pings := Function.update (fun _ => none) 0 (some
    { node := 0
      txid := none
      isFromAdmin := false
      timeSent := 0
      sentTo := pinged.address })

/-- A pong of the other node, which was not asked -/
def unaskedPong : Reply where
  address := bystander.address
  protocol := some 2
  txid := some [0x70, 0]
  nodes := none
  version := none

omit [AddressCalc] in
/-- The pong of a node that was not asked completes the ping to another. -/
theorem unasked_pong_credited :
    letI : AddressCalc := ⟨fun _ => 0⟩
    ¬ CreditsSender { now := 100, rand := 0, worst := 1000 } unaskedPong awaitingPong := by
  let : AddressCalc := ⟨fun _ => 0⟩
  intro credits
  have emptied := credits 0 _ rfl (by rw [handleReply_pings, if_pos ⟨by decide, by decide⟩])
  exact absurd emptied (by decide)

end RouterModule

end Cjdns
