import Cjdns.Dht.QueryExchange
import Cjdns.Switch.Walks

/-!
# Meshes

The routers of the nodes of a network, and the messages of the DHT that they send to each other. A
router is served one occasion after the other: a peer answers, a path is broken, a timer runs out, a
search is begun, a message comes in. A message goes where the switches take its label, and the one
who gets it knows the key of the sender and reads a path back off the label. It may come late, more
than once, or never.
-/

namespace Cjdns

open NumberCompress (INTERFACES)
open CJDHTConstants

variable [AddressCalc]

/-! ## One router -/

/-- The path to a peer, as `SwitchCore_addInterface` gives it out for its interface -/
def SwitchCore.switchLabel (ifIndex : Fin INTERFACES) : BitVec 64 :=
  let bits := NumberCompress.bitsUsedForNumber ifIndex
  NumberCompress.getCompressed ifIndex bits ||| (1 : BitVec 64) <<< bits

/-- A message that leaves a router, with the label that it is sent over -/
structure Letter where
  label : BitVec 64
  content : BString

/-- The message of a ping -/
def RouterModule.Request.letter (request : RouterModule.Request) : Letter where
  label := request.address.path
  content := (RouterModule.sendRequest QUERY_PING request.txid none []).contents

/-- The messages of a search -/
def Searcher.letters (outputs : List Searcher.SearchOutput) : List Letter :=
  outputs.filterMap fun
    | .request address txid target =>
        some
          { label := address.path
            content := (RouterModule.sendRequest QUERY_FN txid (some target) TARGET).contents }
    | .result => none
    | .finished => none

namespace RouterModule

/-- `RouterModule_addNode`, with what is on the stack of `RouterModule_lookup`; no result where an
assertion fails. -/
def addNode (chance : Chance) (stackKey : BitVec 256) (stackPath : BitVec 64) (address : Address)
    (version : BitVec 32) (routerModule : RouterModule) : Option (RouterModule × List Letter) :=
  let address := address.resolved
  (routerModule.nodeStore.addNode address 1 version).nodeStore.map fun nodeStore =>
    let added := { routerModule with nodeStore := nodeStore }
    match nodeStore.lookup address.ip6 stackKey stackPath with
    | none => (added, [])
    | some best =>
        if best.address.path = address.path then (added, [])
        else
          let position := nodeStore.entries.findIdx fun entry => entry.body.address == best.address
          match pingNode chance position best none added with
          | none => (added, [])
          | some (pinging, request) => (pinging, [request.letter])

end RouterModule

/-- What `incomingDHT` gets from outside: `errno`, the byte behind the message, how far the loop over
the versions is followed, and what is on the stack of `handleQuery` -/
structure Surroundings where
  chance : Searcher.SearchChance
  erange : Bool
  behind : BitVec 8
  fuel : ℕ
  stackAddr : Address

namespace Searcher

/-- `incomingDHT` and the modules; no result where the message is not one, or the program stops. -/
def incomingDHT (surroundings : Surroundings) (gitVersion : List.Vector (BitVec 8) 20)
    (addr : Address) (content : BString) (searcher : Searcher) :
    Option (Searcher × List Letter) :=
  (SerializationModule.handleIncoming surroundings.erange surroundings.behind
      (DHTMessage.received content)).bind fun asDict =>
    if (asDict.getString QUERY).isNone then
      match handleReply surroundings.chance (.ofDict addr asDict) searcher with
      | .error _ => none
      | .ok replied => some (replied.searcher, letters ((replied.advanced.map (·.2)).getD []))
    else
      let responder : Responder :=
        { nodeStore := searcher.routerModule.nodeStore
          gitVersion := gitVersion
          stackAddr := surroundings.stackAddr }
      (responder.nodeStore.addNode addr 1 (RouterModule.queryVersion asDict)).nodeStore.bind
        fun nodeStore =>
          (ReplyModule.handleIncoming false surroundings.fuel responder addr asDict).map fun reply =>
            (searcher.withNodeStore nodeStore,
              [{ label := addr.path, content := reply.contents }])

/-- What a router is called for -/
inductive Occasion where
  /-- `onPingResponse` of `DefaultInterfaceController.c`, for a peer with a key at an interface -/
  | peer (chance : RouterModule.Chance) (stackKey : BitVec 256) (stackPath : BitVec 64)
      (key : BitVec 256) (ifIndex : Fin INTERFACES) (version : BitVec 32)
  /-- `RouterModule_brokenPath` -/
  | broken (path : BitVec 64)
  /-- `RouterModule_pingNode` for the node at a position -/
  | ping (chance : RouterModule.Chance) (position : ℕ) (txid : Option (List (BitVec 8)))
  | pingTimeout (chance : RouterModule.Chance) (index : Fin RouterModule.MAX_CONCURRENT_PINGS)
  /-- `RouterModule_beginSearch` -/
  | begin (chance : SearchChance) (id : ℕ) (target : Address) (hasCallback : Bool)
  | searchTimeout (chance : SearchChance) (slot : Fin SearchStore.MAX_SEARCHES)
  | incoming (surroundings : Surroundings) (addr : Address) (content : BString)

/-- What a router does on an occasion, with the messages that it sends -/
def serve (gitVersion : List.Vector (BitVec 8) 20) (searcher : Searcher) :
    Occasion → Option (Searcher × List Letter)
  | .peer chance stackKey stackPath key ifIndex version =>
      (searcher.routerModule.addNode chance stackKey stackPath
          { ip6 := 0, key := key, path := SwitchCore.switchLabel ifIndex } version).map fun added =>
        ({ searcher with routerModule := added.1 }, added.2)
  | .broken path =>
      some (searcher.withNodeStore (searcher.routerModule.nodeStore.brokenPath path).2, [])
  | .ping chance position txid =>
      (searcher.routerModule.nodeStore.entries[position]?).bind fun entry =>
        (RouterModule.pingNode chance position entry.body txid searcher.routerModule).map
          fun sent => ({ searcher with routerModule := sent.1 }, [sent.2.letter])
  | .pingTimeout chance index =>
      (searcher.routerModule.pings index).map fun ping =>
        ({ searcher with
            routerModule :=
              (RouterModule.pingTimeoutCallback chance index ping searcher.routerModule).1 }, [])
  | .begin chance id target hasCallback =>
      match searcher.beginSearch chance id target hasCallback with
      | .error _ => none
      | .ok none => some (searcher, [])
      | .ok (some (later, outputs)) => some (later, letters outputs)
  | .searchTimeout chance slot =>
      (searcher.searches slot).map fun search =>
        let stepped := searcher.searchRequestTimeout chance slot search
        (stepped.1, letters stepped.2)
  | .incoming surroundings addr content =>
      searcher.incomingDHT surroundings gitVersion addr content

end Searcher

/-! ## All routers -/

/-- A network of nodes with keys, of which no two have the same address -/
structure Mesh (Node : Type*) extends Network Node where
  key : Node → BitVec 256
  gitVersion : Node → List.Vector (BitVec 8) 20
  apart : ∀ {node other}, AddressCalc.addressForPublicKey (key node) =
    AddressCalc.addressForPublicKey (key other) → node = other

namespace Mesh

variable {Node : Type*}

/-- The routers, and all messages that have been sent, with their senders -/
structure State (Node : Type*) where
  searchers : Node → Searcher
  sent : List (Node × Letter)

/-- A packet with a label is forwarded from the router of one node to that of another, which reads a
path back off the label that is left. -/
def Brings (mesh : Mesh Node) (sender : Node) (label : BitVec 64) (receiver : Node)
    (back : BitVec 64) : Prop :=
  ∃ packet hops consumed stop send handed, Headers.messageLabel packet = label ∧
    mesh.Travels ⟨sender, 1, packet⟩ hops consumed stop ∧ stop.node = receiver ∧
    (mesh.core stop.node).receiveMessage send stop.iface stop.message =
      some [.forwarded 1 handed] ∧
    back = Bits.bitReverse64 (Headers.messageLabel handed)

/-- What the switches make of a packet, if no link changes it: who gets it, and the path back -/
def carry (mesh : Mesh Node) : ℕ → Network.Arrival Node → Option (Node × BitVec 64)
  | 0, _ => none
  | fuel + 1, arrival =>
      match (mesh.core arrival.node).receiveMessage SwitchCore.accepting arrival.iface
        arrival.message with
      | some [.forwarded exit handed] =>
          if exit = 1 then
            some (arrival.node, Bits.bitReverse64 (Headers.messageLabel handed))
          else (mesh.link arrival.node exit).bind fun far => carry mesh fuel ⟨far.1, far.2, handed⟩
      | _ => none

theorem travels_of_carry {mesh : Mesh Node} {fuel : ℕ} {arrival : Network.Arrival Node}
    {receiver : Node} {back : BitVec 64}
    (carries : mesh.carry fuel arrival = some (receiver, back)) :
    ∃ hops consumed stop handed, mesh.Travels arrival hops consumed stop ∧ stop.node = receiver ∧
      (mesh.core stop.node).receiveMessage SwitchCore.accepting stop.iface stop.message =
        some [.forwarded 1 handed] ∧
      back = Bits.bitReverse64 (Headers.messageLabel handed) := by
  induction fuel generalizing arrival with
  | zero => cases carries
  | succ fuel ih =>
      rw [carry] at carries
      split at carries
      · next exit handed forwards =>
          split_ifs at carries with router
          · cases carries
            exact ⟨[], 0, arrival, handed, .here arrival, rfl, router ▸ forwards, rfl⟩
          · rcases Option.bind_eq_some_iff.mp carries with ⟨far, linked, onward⟩
            rcases ih onward with ⟨hops, consumed, stop, last, travels, arrived⟩
            refine ⟨_, _, stop, last, .hop forwards linked ?_ travels, arrived⟩
            exact (rfl : handed.content = handed.content)
      · cases carries

theorem brings_of_carry {mesh : Mesh Node} {fuel : ℕ} {sender receiver : Node}
    {label back : BitVec 64}
    (carries : mesh.carry fuel ⟨sender, 1, Headers.bareHeader label⟩ = some (receiver, back)) :
    mesh.Brings sender label receiver back := by
  rcases travels_of_carry carries with ⟨hops, consumed, stop, handed, travels, arrived⟩
  exact ⟨_, hops, consumed, stop, _, handed, Headers.messageLabel_bareHeader label, travels, arrived⟩

/-- What an occasion is owed to: a peer is at the end of a link, and a message has been sent and is
brought by the switches. -/
def Admits (mesh : Mesh Node) (state : State Node) (node : Node) : Searcher.Occasion → Prop
  | .peer _ _ _ key ifIndex _ =>
      ∃ other entry, mesh.link node ifIndex = some (other, entry) ∧ key = mesh.key other
  | .incoming _ addr content =>
      ∃ sender label path, (sender, ⟨label, content⟩) ∈ state.sent ∧
        mesh.Brings sender label node path ∧ addr = Address.forKey (mesh.key sender) path
  | _ => True

/-- The routers are served in any order. -/
def system (mesh : Mesh Node) [DecidableEq Node] :
    TransitionSystem (State Node) (Node × Searcher.Occasion) where
  initial state := (∀ node, (state.searchers node).routerModule.nodeStore.entries = [] ∧
    ∀ slot, (state.searchers node).searches slot = none) ∧ state.sent = []
  step before event after := mesh.Admits before event.1 event.2 ∧ ∃ later letters,
    (before.searchers event.1).serve (mesh.gitVersion event.1) event.2 = some (later, letters) ∧
      after =
        { searchers := Function.update before.searchers event.1 later
          sent := letters.map (fun letter => (event.1, letter)) ++ before.sent }

end Mesh

end Cjdns
