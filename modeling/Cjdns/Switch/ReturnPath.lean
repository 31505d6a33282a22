import Cjdns.Switch.Network

/-!
# The return path

While a packet travels, its label collects the way back: each switch writes the
discriminator of the interface it came in through, reversed, at the high end.
`Exchange.symm` says that the reversed label undoes one hop, and the induction
along the way carries the promise that a reversed label put out where the packet
came in gets back to its sender.
-/

namespace Cjdns.Network

open NumberCompress (INTERFACES)

variable {Node : Type*} {net : Network Node}

/-- Any packet whose label is the reversal of this one, put out here, takes the way back. -/
def Returnable (net : Network Node) (node : Node) (iface : Fin INTERFACES) (label : BitVec 64)
    (way : List (Hop Node)) (router : Node) : Prop :=
  (iface = 1 ∧ node = router ∧ way = []) ∨
    ∃ other otherIface, net.link node iface = some (other, otherIface) ∧
      ∀ arrived : Message, Headers.SwitchHeader_SIZE ≤ arrived.length →
        Headers.messageLabel arrived = Bits.bitReverse64 label →
        net.Delivers ⟨other, otherIface, arrived⟩ way router

theorem Returnable.returns {node router : Node} {iface : Fin INTERFACES} {label : BitVec 64}
    {way : List (Hop Node)} (returnable : net.Returnable node iface label way router)
    {back : Message} (long : Headers.SwitchHeader_SIZE ≤ back.length)
    (reversed : Headers.messageLabel back = Bits.bitReverse64 label) :
    net.Returns node iface back way router := by
  rcases returnable with atRouter | ⟨other, otherIface, linked, delivers⟩
  · exact Or.inl atRouter
  · refine Or.inr ⟨other, otherIface, linked, fun arrived carried => delivers arrived ?_ ?_⟩
    · rw [carried.length_eq]
      exact long
    · rw [carried.messageLabel_eq long, reversed]

/-- One more hop in front of a delivery that is certain wherever the packet lies in memory. -/
theorem Delivers.cons {arrival : Arrival Node} {exit iface : Fin INTERFACES} {node router : Node}
    {handed : Message} {hops : List (Hop Node)}
    (forwards : (net.core arrival.node).receiveMessage SwitchCore.accepting arrival.iface
      arrival.message = some [.forwarded exit handed])
    (linked : net.link arrival.node exit = some (node, iface))
    (onward : ∀ arrived, Carried handed arrived → net.Delivers ⟨node, iface, arrived⟩ hops router) :
    net.Delivers arrival (⟨arrival.node, arrival.iface, exit⟩ :: hops) router := by
  obtain ⟨way, entry, rfl, -⟩ := onward handed rfl
  refine ⟨_ :: way, entry, rfl, .hop forwards linked fun arrived carried => ?_⟩
  obtain ⟨sameWay, sameEntry, same, reaches⟩ := onward arrived carried
  obtain ⟨rfl, last⟩ := List.append_inj' same rfl
  obtain rfl : entry = sameEntry := by simpa using last
  exact reaches

/--
A hop is undone by the reversed label: put in where the packet left, it leaves
where the packet came in.
-/
theorem delivers_back {arrival : Arrival Node} {exit : Fin INTERFACES} {handed : Message}
    {send : Fin INTERFACES → Message → BitVec 8 × Message} {way : List (Hop Node)} {router : Node}
    (routerLive : ((net.core router).interfaces 1).Live)
    (forwards : (net.core arrival.node).receiveMessage send arrival.iface arrival.message =
      some [.forwarded exit handed])
    (returnable : net.Returnable arrival.node arrival.iface
      (Headers.messageLabel arrival.message) way router)
    {back : Message} (long : Headers.SwitchHeader_SIZE ≤ back.length)
    (reversed : Headers.messageLabel back = Bits.bitReverse64 (Headers.messageLabel handed)) :
    net.Delivers ⟨arrival.node, exit, back⟩ (⟨arrival.node, exit, arrival.iface⟩ :: way)
      router := by
  obtain ⟨_, routed⟩ := SwitchCore.route_of_receiveMessage forwards
  obtain ⟨_, bits, exchange, -⟩ := SwitchCore.exists_exchange_of_route routed
  have undone := exchange.symm
  rw [← reversed] at undone
  rcases returnable with ⟨atRouter, rfl, rfl⟩ | ⟨other, otherIface, linked, delivers⟩
  · -- the packet came from the router, whose own discriminator ends the way back
    rw [atRouter] at undone ⊢
    have routedBack : ∃ routerLabel, (net.core arrival.node).route exit _ = _ :=
      SwitchCore.route_of_exchange_router undone routerLive
    rcases routedBack with ⟨routerLabel, routedBack⟩
    exact ⟨[], exit, rfl, .here ⟨rfl, rfl, _,
      SwitchCore.receiveMessage_of_route (net.metered _ _) long routedBack⟩⟩
  · have routedBack : (net.core arrival.node).route exit _ = _ :=
      SwitchCore.route_of_exchange undone (net.link_live linked) (exit_ne_router linked)
    refine Delivers.cons (SwitchCore.receiveMessage_of_route (net.metered _ _) long routedBack)
      linked fun arrived carried => delivers arrived ?_ ?_
    · rw [carried.length_eq, SwitchCore.length_relabelled]
      exact long
    · rw [carried.messageLabel_eq (by simpa using long), SwitchCore.messageLabel_relabelled]

/-- The promise is kept over a hop to the next switch. -/
theorem Returnable.hop {arrival next : Arrival Node} {exit : Fin INTERFACES} {handed : Message}
    {send : Fin INTERFACES → Message → BitVec 8 × Message} {way : List (Hop Node)} {router : Node}
    (returnable : net.Returnable arrival.node arrival.iface
      (Headers.messageLabel arrival.message) way router)
    (routerLive : ((net.core router).interfaces 1).Live)
    (forwards : (net.core arrival.node).receiveMessage send arrival.iface arrival.message =
      some [.forwarded exit handed])
    (linked : net.link arrival.node exit = some (next.node, next.iface))
    (carried : Carried handed next.message) :
    net.Returnable next.node next.iface (Headers.messageLabel next.message)
      (⟨arrival.node, exit, arrival.iface⟩ :: way) router := by
  obtain ⟨⟨long, sameLength⟩, -⟩ := SwitchCore.route_of_receiveMessage forwards
  rw [← sameLength] at long
  refine Or.inr ⟨arrival.node, exit, net.link_symm linked, fun arrived backLong reversed => ?_⟩
  apply delivers_back routerLive forwards returnable backLong
  rw [reversed, carried.messageLabel_eq long]

/-- The promise is kept along the whole way. -/
theorem Travels.returnable {start stop : Arrival Node} {hops : List (Hop Node)} {consumed : ℕ}
    {way : List (Hop Node)} {router : Node} (travels : net.Travels start hops consumed stop)
    (routerLive : ((net.core router).interfaces 1).Live)
    (returnable : net.Returnable start.node start.iface (Headers.messageLabel start.message) way
      router) :
    net.Returnable stop.node stop.iface (Headers.messageLabel stop.message)
      (wayBack hops ++ way) router := by
  induction travels generalizing way with
  | here arrival => simpa [wayBack] using returnable
  | hop forwards linked carried _ ih =>
      have further := ih (returnable.hop routerLive forwards linked carried)
      simpa [wayBack, Hop.back] using further

/--
The reversed label of a packet leads back to the router that sent it, over the
same interfaces, from the router the packet is delivered to and from every
switch that refuses it.
-/
theorem return_path {router : Node} {packet : Message} {stop : Arrival Node}
    {hops : List (Hop Node)} {consumed : ℕ}
    (routerLive : ((net.core router).interfaces 1).Live)
    (travels : net.Travels ⟨router, 1, packet⟩ hops consumed stop) :
    (∀ send handed, (net.core stop.node).receiveMessage send stop.iface stop.message =
        some [.forwarded 1 handed] →
      ∀ back : Message, Headers.SwitchHeader_SIZE ≤ back.length →
        Headers.messageLabel back = Bits.bitReverse64 (Headers.messageLabel handed) →
        net.Delivers ⟨stop.node, 1, back⟩ (wayBack (hops ++ [⟨stop.node, stop.iface, 1⟩]))
          router) ∧
      ∀ send tried code cause, (net.core stop.node).handle send stop.iface stop.message =
          .refused tried code cause →
        ∀ back : Message, Headers.SwitchHeader_SIZE ≤ back.length →
          Headers.messageLabel back =
            Bits.bitReverse64 (Headers.label cause.memory stop.message.bytes) →
          net.Returns stop.node stop.iface back (wayBack hops) router := by
  have atSender : net.Returnable router 1 (Headers.messageLabel packet) [] router :=
    Or.inl ⟨rfl, rfl, rfl⟩
  have atStop := travels.returnable routerLive atSender
  rw [List.append_nil] at atStop
  constructor
  · intro send handed delivered back long reversed
    have delivers := delivers_back routerLive delivered atStop long reversed
    simpa [wayBack, Hop.back] using delivers
  · intro send tried code cause refused back long reversed
    rw [SwitchCore.label_of_refused refused] at reversed
    exact atStop.returns long reversed

/-- The reversal of the label that arrives leads back. -/
theorem return_path_pair :
    pair.Delivers ⟨true, 1, Headers.bareHeader 0x15⟩ [⟨true, 1, 2⟩, ⟨false, 2, 1⟩] false := by
  have live : ((pair.core false).interfaces 1).Live := by simp [pair, SwitchInterface.Live]
  have receives : (pair.core true).receiveMessage SwitchCore.accepting 2
      ((pair.core false).relabelled 2 0x8000000000000001 (Headers.bareHeader 0x15)) =
        some [.forwarded 1 _] :=
    SwitchCore.receiveMessage_of_route (pair.metered true 2) le_rfl
      (by
        rw [SwitchCore.messageLabel_relabelled]
        decide : (pair.core true).route 2 _ = .forward 1 0xA800000000000000)
  refine (return_path live pair_travels).1 SwitchCore.accepting _ receives
    (Headers.bareHeader 0x15) le_rfl ?_
  rw [Headers.messageLabel_bareHeader, SwitchCore.messageLabel_relabelled]
  decide

end Cjdns.Network
