import Cjdns.Switch.SwitchCore

/-!
# Networks of switches

Switches joined by point-to-point links. A link carries the content of a
packet; where the receiving switch finds it in memory is left open, so that
what a packet undergoes is a relation (`Travels`) and what it is certain to
undergo a predicate (`Reaches`) on its arrival at a switch.
-/

namespace Cjdns

open NumberCompress (INTERFACES)

/-- Switches and the links between their interfaces. The router sits in slot 1. -/
structure Network (Node : Type*) where
  core : Node → SwitchCore
  link : Node → Fin INTERFACES → Option (Node × Fin INTERFACES)
  link_symm : ∀ {node iface other otherIface},
    link node iface = some (other, otherIface) → link other otherIface = some (node, iface)
  link_live : ∀ {node iface far}, link node iface = some far →
    ((core node).interfaces iface).Live
  link_router : ∀ node, link node 1 = none
  /-- No interface is flooding. -/
  metered : ∀ node iface,
    ((core node).interfaces iface).buffer ≤ ((core node).interfaces iface).bufferMax

namespace Network

variable {Node : Type*} (net : Network Node)

/-- A packet that arrives at a switch through one of its interfaces. -/
structure Arrival (Node : Type*) where
  node : Node
  iface : Fin INTERFACES
  message : Message

/-- A packet crosses a switch from one interface to another. -/
structure Hop (Node : Type*) where
  node : Node
  entry : Fin INTERFACES
  exit : Fin INTERFACES

/-- The same interfaces, crossed the other way. -/
def Hop.back (hop : Hop Node) : Hop Node :=
  ⟨hop.node, hop.exit, hop.entry⟩

/-- The hops back over a path. -/
def wayBack (hops : List (Hop Node)) : List (Hop Node) :=
  (hops.map Hop.back).reverse

/-- The packet at the far end of a link is the one that was put in. -/
def Carried (sent arrived : Message) : Prop :=
  sent.content = arrived.content

/--
A packet is forwarded from one arrival to another by `receiveMessage`. The
number counts the bits of the discriminators that are consumed on the way.
-/
inductive Travels : Arrival Node → List (Hop Node) → ℕ → Arrival Node → Prop where
  | here (arrival : Arrival Node) : Travels arrival [] 0 arrival
  | hop {arrival next stop : Arrival Node} {hops : List (Hop Node)} {consumed : ℕ}
      {exit : Fin INTERFACES} {handed : Message}
      {send : Fin INTERFACES → Message → BitVec 8 × Message}
      (forwards : (net.core arrival.node).receiveMessage send arrival.iface arrival.message =
        some [.forwarded exit handed])
      (linked : net.link arrival.node exit = some (next.node, next.iface))
      (carried : Carried handed next.message)
      (onward : Travels next hops consumed stop) :
      Travels arrival (⟨arrival.node, arrival.iface, exit⟩ :: hops)
        (NumberCompress.bitsUsedForLabel (Headers.messageLabel arrival.message) + consumed) stop

/-- A packet is certain to be forwarded over some hops to an arrival that meets the goal. -/
inductive Reaches (goal : Arrival Node → Prop) : Arrival Node → List (Hop Node) → Prop where
  | here {arrival : Arrival Node} (met : goal arrival) : Reaches goal arrival []
  | hop {arrival : Arrival Node} {hops : List (Hop Node)} {exit iface : Fin INTERFACES}
      {node : Node} {handed : Message}
      (forwards : (net.core arrival.node).receiveMessage SwitchCore.accepting arrival.iface
        arrival.message = some [.forwarded exit handed])
      (linked : net.link arrival.node exit = some (node, iface))
      (onward : ∀ arrived, Carried handed arrived → Reaches goal ⟨node, iface, arrived⟩ hops) :
      Reaches goal arrival (⟨arrival.node, arrival.iface, exit⟩ :: hops)

/-- The switch of an arrival hands the packet to the router at slot 1. -/
def HandsToRouter (arrival : Arrival Node) : Prop :=
  ∃ handed, (net.core arrival.node).receiveMessage SwitchCore.accepting arrival.iface
    arrival.message = some [.forwarded 1 handed]

/-- A packet is forwarded over some hops, the last of them to the router of a node. -/
def Delivers (arrival : Arrival Node) (hops : List (Hop Node)) (router : Node) : Prop :=
  ∃ way entry, hops = way ++ [⟨router, entry, 1⟩] ∧
    net.Reaches (fun last => last.node = router ∧ last.iface = entry ∧ net.HandsToRouter last)
      arrival way

/--
A packet put out through an interface gets to the router of a node: the router
itself is at slot 1, and any other interface leads to the far end of its link.
-/
def Returns (node : Node) (iface : Fin INTERFACES) (message : Message) (hops : List (Hop Node))
    (router : Node) : Prop :=
  (iface = 1 ∧ node = router ∧ hops = []) ∨
    ∃ other otherIface, net.link node iface = some (other, otherIface) ∧
      ∀ arrived, Carried message arrived → net.Delivers ⟨other, otherIface, arrived⟩ hops router

variable {net}

theorem Carried.messageLabel_eq {sent arrived : Message} (carried : Carried sent arrived)
    (long : Headers.SwitchHeader_SIZE ≤ sent.length) :
    Headers.messageLabel arrived = Headers.messageLabel sent :=
  (Headers.label_eq_of_content_eq carried long).symm

theorem Carried.length_eq {sent arrived : Message} (carried : Carried sent arrived) :
    arrived.length = sent.length := by
  simpa using (congrArg List.length carried).symm

theorem Reaches.mono {goal weaker : Arrival Node → Prop} {arrival : Arrival Node}
    {hops : List (Hop Node)} (reaches : net.Reaches goal arrival hops)
    (weakens : ∀ last, goal last → weaker last) : net.Reaches weaker arrival hops := by
  induction reaches with
  | here met => exact .here (weakens _ met)
  | hop forwards linked _ ih => exact .hop forwards linked ih

/-- An interface that a packet leaves through over a link is not the router's. -/
theorem exit_ne_router {node : Node} {exit : Fin INTERFACES} {far : Node × Fin INTERFACES}
    (linked : net.link node exit = some far) : exit ≠ 1 := by
  rintro rfl
  simp [net.link_router] at linked

/-- Two switches, each with a router, joined by their slots 2. -/
def pair : Network Bool where
  core _ :=
    { interfaces := fun slot =>
        { iface := if slot = 1 ∨ slot = 2 then some slot else none, buffer := 0, bufferMax := 0 }
      interfaceCount := 2
      routerAdded := true }
  link node iface := if iface = 2 then some (!node, 2) else none
  link_symm := by
    intro node iface other otherIface linked
    split_ifs at linked with slot
    simp only [Option.some.injEq, Prod.mk.injEq] at linked
    rw [← linked.1, ← linked.2, slot]
    simp
  link_live := by
    intro node iface far linked
    split_ifs at linked with slot
    simp [SwitchInterface.Live, slot]
  link_router _ := rfl
  metered _ _ := le_rfl

/-- A packet labelled 0x15 goes from one router of the pair to the other. -/
theorem pair_travels :
    pair.Travels ⟨false, 1, Headers.bareHeader 0x15⟩ [⟨false, 1, 2⟩] (4 + 0)
      ⟨true, 2, (pair.core false).relabelled 2 0x8000000000000001 (Headers.bareHeader 0x15)⟩ := by
  have receives : (pair.core false).receiveMessage SwitchCore.accepting 1
      (Headers.bareHeader 0x15) = some [.forwarded 2 _] :=
    SwitchCore.receiveMessage_of_route (pair.metered false 1) le_rfl
      (by
        rw [Headers.messageLabel_bareHeader]
        decide : (pair.core false).route 1 _ = .forward 2 0x8000000000000001)
  have width : NumberCompress.bitsUsedForLabel
      (Headers.messageLabel (Headers.bareHeader 0x15)) = 4 := by
    rw [Headers.messageLabel_bareHeader]
    decide
  rw [← width]
  refine .hop receives ?_ ?_ (.here _)
  · rfl
  · exact Eq.refl _

end Network

end Cjdns
