import Cjdns.Net.PingPacket
import Cjdns.Switch.ReturnPath

/-!
# A ping comes back

The node that is pinged reverses the label and sends the packet back where it came from. The
switches on the way write back the label that they found, except for the first one: it does not know
in which width the discriminator was written that it has used up, and takes the least one.
-/

namespace Cjdns

open NumberCompress (INTERFACES)

/-! ## The label that comes back -/

/-- The first discriminator of the label is written in the least width. -/
def NumberCompress.Shortest (label : BitVec 64) : Prop :=
  bitsUsedForNumber (getDecompressed label (bitsUsedForLabel label)) = bitsUsedForLabel label

instance : DecidablePred NumberCompress.Shortest :=
  fun _ => inferInstanceAs (Decidable (_ = _))

namespace SwitchCore

variable {core : SwitchCore} {sourceIndex destIndex : Fin INTERFACES}
  {label targetLabel : BitVec 64}

/-- The router's packets are forwarded in the width of their label. -/
theorem exists_exchange_of_router
    (forwards : core.route 1 label = .forward destIndex targetLabel) :
    Exchange 1 destIndex (NumberCompress.bitsUsedForLabel label) label targetLabel ∧
      NumberCompress.getDecompressed label (NumberCompress.bitsUsedForLabel label) = destIndex := by
  rcases exists_exchange_of_route forwards with ⟨-, bits, exchange, width⟩
  by_cases router : destIndex = 1
  · subst router
    have decodes : label.toNat % 16 = 1 := by
      have low := congrArg BitVec.toNat exchange.starts
      rw [Word.toNat_low] at low
      change label.toNat % 2 ^ bits = 1 at low
      have four : 4 ≤ bits := routerFits bits exchange.width rfl
      rw [show 16 = 2 ^ 4 from rfl, ← Nat.mod_mod_of_dvd _ (Nat.pow_dvd_pow 2 four), low]
    have narrow := NumberCompress.bitsUsedForLabel_of_router decodes
    rw [route_router decodes] at forwards
    rcases forward_of_ite forwards with ⟨⟨zeros, -⟩, -, rfl⟩
    have least : NumberCompress.bitsUsedForNumber (1 : Fin INTERFACES) = 4 := rfl
    rw [narrow]
    refine ⟨?_, narrow ▸ (NumberCompress.getDecompressed_eq_one_iff label).mpr decodes⟩
    exact
      { width := .inl rfl
        sourceFits := least.le
        destFits := least.le
        starts := by
          apply BitVec.eq_of_toNat_eq
          rw [Word.toNat_low]
          exact decodes
        target_eq := rfl }
  · have same := width router
    subst same
    have notOne : (destIndex : ℕ) ≠ 1 := fun one => router (Fin.ext one)
    exact ⟨exchange, (NumberCompress.decode_of_low_eq exchange.width destIndex.isLt
      exchange.destFits notOne exchange.starts).2⟩

/-- Back at the switch of the sender, the packet is handed to the router with the label that was
sent, if the first discriminator was written in the least width, and otherwise with another one. -/
theorem route_home (live : (core.interfaces 1).Live)
    (forwards : core.route 1 label = .forward destIndex targetLabel) :
    ∃ home, core.route destIndex (Bits.bitReverse64 targetLabel) = .forward 1 home ∧
      (Bits.bitReverse64 home = label ↔ NumberCompress.Shortest label) := by
  rcases exists_exchange_of_router forwards with ⟨exchange, decodes⟩
  have back := exchange.symm
  rcases route_of_exchange_router back live with ⟨home, routed⟩
  have router : (Bits.bitReverse64 targetLabel).toNat % 16 = 1 := by
    have low := congrArg BitVec.toNat back.starts
    rw [Word.toNat_low] at low
    change _ % 2 ^ _ = 1 at low
    have four : 4 ≤ NumberCompress.bitsUsedForLabel label := routerFits _ exchange.width rfl
    rw [show 16 = 2 ^ 4 from rfl, ← Nat.mod_mod_of_dvd _ (Nat.pow_dvd_pow 2 four), low]
  refine ⟨home, routed, ?_⟩
  rw [route_router router] at routed
  rcases forward_of_ite routed with ⟨⟨zeros, -⟩, -, rfl⟩
  have homeward : Exchange destIndex 1 (NumberCompress.bitsUsedForNumber destIndex)
      (Bits.bitReverse64 targetLabel) _ :=
    { width := NumberCompress.isWidth_bitsUsedForNumber _
      sourceFits := le_rfl
      destFits := routerFits _ (NumberCompress.isWidth_bitsUsedForNumber _) rfl
      starts := by
        apply BitVec.eq_of_toNat_eq
        rw [Word.toNat_low, zeros]
        rfl
      target_eq := rfl }
  rw [NumberCompress.Shortest, decodes]
  constructor
  · intro same
    by_cases isRouter : destIndex = 1
    · subst isRouter
      have narrow := (NumberCompress.getDecompressed_eq_one_iff label).mp decodes
      rw [NumberCompress.bitsUsedForLabel_of_router narrow]
      rfl
    · have notOne : (destIndex : ℕ) ≠ 1 := fun one => isRouter (Fin.ext one)
      have width := (NumberCompress.decode_of_low_eq homeward.width destIndex.isLt le_rfl notOne
        homeward.low_reverse_target).1
      rw [same] at width
      exact width.symm
  · intro least
    rw [least, ← back.target_eq, Bits.bitReverse64_bitReverse64]

end SwitchCore

/-! ## The way back -/

namespace Network

variable {Node : Type*} {net : Network Node}

variable (net) in
/-- A packet is forwarded over some hops to the router of a node, and what that router is handed
meets the goal. -/
def Brings (goal : Message → Prop) (arrival : Arrival Node) (hops : List (Hop Node))
    (router : Node) : Prop :=
  ∃ way entry, hops = way ++ [⟨router, entry, 1⟩] ∧
    net.Reaches (fun last => last.node = router ∧ last.iface = entry ∧
      ∃ handed, (net.core last.node).receiveMessage SwitchCore.accepting last.iface last.message =
        some [.forwarded 1 handed] ∧ goal handed) arrival way

theorem Brings.mono {goal weaker : Message → Prop} {arrival : Arrival Node}
    {hops : List (Hop Node)} {router : Node} (brings : net.Brings goal arrival hops router)
    (weakens : ∀ handed, goal handed → weaker handed) :
    net.Brings weaker arrival hops router := by
  rcases brings with ⟨way, entry, same, reaches⟩
  refine ⟨way, entry, same, reaches.mono ?_⟩
  rintro last ⟨node, iface, handed, receives, met⟩
  exact ⟨node, iface, handed, receives, weakens handed met⟩

/-- One more hop in front -/
theorem Brings.cons {goal : Message → Prop} {arrival : Arrival Node} {exit iface : Fin INTERFACES}
    {node router : Node} {handed : Message} {hops : List (Hop Node)}
    (forwards : (net.core arrival.node).receiveMessage SwitchCore.accepting arrival.iface
      arrival.message = some [.forwarded exit handed])
    (linked : net.link arrival.node exit = some (node, iface))
    (onward : ∀ arrived, Carried handed arrived → net.Brings goal ⟨node, iface, arrived⟩ hops
      router) :
    net.Brings goal arrival (⟨arrival.node, arrival.iface, exit⟩ :: hops) router := by
  rcases onward handed rfl with ⟨way, entry, rfl, -⟩
  refine ⟨_ :: way, entry, rfl, .hop forwards linked fun arrived carried => ?_⟩
  rcases onward arrived carried with ⟨sameWay, sameEntry, same, reaches⟩
  rcases List.append_inj' same rfl with ⟨rfl, last⟩
  obtain rfl : entry = sameEntry := by simpa using last
  exact reaches

/-- What comes home: the payload that was sent back, under the label that was sent out if its first
discriminator is in the least width -/
structure Home (label : BitVec 64) (back handed : Message) : Prop where
  payload : back.SamePayload handed
  label_iff : Bits.bitReverse64 (Headers.messageLabel handed) = label ↔
    NumberCompress.Shortest label

variable (net) in
/-- Any packet with the reversal of a label that is put in here comes home. -/
def Homeward (sent : BitVec 64) (node : Node) (iface : Fin INTERFACES) (label : BitVec 64)
    (way : List (Hop Node)) (router : Node) : Prop :=
  ∀ arrived : Message, Headers.SwitchHeader_SIZE ≤ arrived.length →
    Headers.messageLabel arrived = Bits.bitReverse64 label →
    net.Brings (Home sent arrived) ⟨node, iface, arrived⟩ way router

/-- The switch of the sender gives its own packet back to the router. -/
theorem homeward_first {router : Node} {packet handed : Message} {exit : Fin INTERFACES}
    {send : Fin INTERFACES → Message → BitVec 8 × Message}
    (live : ((net.core router).interfaces 1).Live)
    (forwards : (net.core router).receiveMessage send 1 packet = some [.forwarded exit handed]) :
    net.Homeward (Headers.messageLabel packet) router exit (Headers.messageLabel handed)
      [⟨router, exit, 1⟩] router := by
  intro arrived long reversed
  rcases SwitchCore.route_of_receiveMessage forwards with ⟨-, routed⟩
  rcases SwitchCore.route_home live routed with ⟨home, back, least⟩
  rw [← reversed] at back
  have receives := SwitchCore.receiveMessage_of_route (net.metered router exit) long back
  refine ⟨[], exit, rfl, .here ⟨rfl, rfl, _, receives, SwitchCore.samePayload_relabelled _, ?_⟩⟩
  rw [SwitchCore.messageLabel_relabelled]
  exact least

/-- A switch on the way undoes the hop. -/
theorem Homeward.hop {sent : BitVec 64} {arrival : Arrival Node} {exit : Fin INTERFACES}
    {handed : Message} {send : Fin INTERFACES → Message → BitVec 8 × Message} {before : Node}
    {beforeIface : Fin INTERFACES} {way : List (Hop Node)} {router : Node}
    (homeward : net.Homeward sent before beforeIface (Headers.messageLabel arrival.message) way
      router)
    (linked : net.link before beforeIface = some (arrival.node, arrival.iface))
    (forwards : (net.core arrival.node).receiveMessage send arrival.iface arrival.message =
      some [.forwarded exit handed]) :
    net.Homeward sent arrival.node exit (Headers.messageLabel handed)
      (⟨arrival.node, exit, arrival.iface⟩ :: way) router := by
  intro arrived long reversed
  have backLink := net.link_symm linked
  rcases SwitchCore.route_of_receiveMessage forwards with ⟨-, routed⟩
  rcases SwitchCore.exists_exchange_of_route routed with ⟨-, bits, exchange, -⟩
  have undone := exchange.symm
  rw [← reversed] at undone
  have routedBack : (net.core arrival.node).route exit _ = _ :=
    SwitchCore.route_of_exchange undone (net.link_live backLink) (exit_ne_router backLink)
  refine Brings.cons (SwitchCore.receiveMessage_of_route (net.metered _ _) long routedBack)
    backLink fun next carried => ?_
  have same : arrived.SamePayload ((net.core arrival.node).relabelled arrival.iface
      (Bits.bitReverse64 (Headers.messageLabel arrival.message)) arrived) :=
    SwitchCore.samePayload_relabelled _
  have relabelledLong : Headers.SwitchHeader_SIZE ≤ ((net.core arrival.node).relabelled
      arrival.iface (Bits.bitReverse64 (Headers.messageLabel arrival.message)) arrived).length := by
    rw [SwitchCore.length_relabelled]
    exact long
  have onward := homeward next (by rw [carried.length_eq]; exact relabelledLong)
    (by rw [carried.messageLabel_eq relabelledLong, SwitchCore.messageLabel_relabelled])
  exact onward.mono fun last home =>
    ⟨(same.trans (carried.samePayload relabelledLong)).trans home.payload, home.label_iff⟩

/-- The promise is kept along the whole way. -/
theorem Travels.homeward {sent : BitVec 64} {start stop : Arrival Node} {hops : List (Hop Node)}
    {consumed : ℕ} {way : List (Hop Node)} {router before : Node}
    {beforeIface : Fin INTERFACES} (travels : net.Travels start hops consumed stop)
    (linked : net.link before beforeIface = some (start.node, start.iface))
    (homeward : net.Homeward sent before beforeIface (Headers.messageLabel start.message) way
      router) :
    ∃ last lastIface, net.link last lastIface = some (stop.node, stop.iface) ∧
      net.Homeward sent last lastIface (Headers.messageLabel stop.message) (wayBack hops ++ way)
        router := by
  induction travels generalizing before beforeIface way with
  | here arrival => exact ⟨before, beforeIface, linked, homeward⟩
  | hop forwards onwardLink carried _ ih =>
      rcases SwitchCore.route_of_receiveMessage forwards with ⟨⟨long, sameLength⟩, -⟩
      rw [← sameLength] at long
      have further := homeward.hop linked forwards
      rw [← carried.messageLabel_eq long] at further
      rcases ih onwardLink further with ⟨last, lastIface, lastLink, arrives⟩
      refine ⟨last, lastIface, lastLink, ?_⟩
      simpa [wayBack, Hop.back] using arrives

/-- What a packet has behind its header is not touched on the way. -/
theorem Travels.samePayload {start stop : Arrival Node} {hops : List (Hop Node)} {consumed : ℕ}
    (travels : net.Travels start hops consumed stop) :
    start.message.SamePayload stop.message := by
  induction travels with
  | here arrival => exact .refl _
  | hop forwards _ carried _ ih =>
      rcases SwitchCore.route_of_receiveMessage forwards with ⟨⟨long, sameLength⟩, -⟩
      rw [← sameLength] at long
      exact ((SwitchCore.samePayload_handed forwards).trans (carried.samePayload long)).trans ih

/-- What is put in with the reversed label at the router that a packet was delivered to comes home
to the sender. -/
theorem homeward_of_delivered {router : Node} {packet handed : Message} {stop : Arrival Node}
    {hops : List (Hop Node)} {consumed : ℕ} {send : Fin INTERFACES → Message → BitVec 8 × Message}
    (live : ((net.core router).interfaces 1).Live)
    (travels : net.Travels ⟨router, 1, packet⟩ hops consumed stop)
    (delivered : (net.core stop.node).receiveMessage send stop.iface stop.message =
      some [.forwarded 1 handed]) :
    net.Homeward (Headers.messageLabel packet) stop.node 1 (Headers.messageLabel handed)
      (wayBack (hops ++ [⟨stop.node, stop.iface, 1⟩])) router := by
  cases travels with
  | here => exact homeward_first live delivered
  | hop forwards linked carried onward =>
      rcases SwitchCore.route_of_receiveMessage forwards with ⟨⟨long, sameLength⟩, -⟩
      rw [← sameLength] at long
      have first := homeward_first live forwards
      rw [← carried.messageLabel_eq long] at first
      rcases onward.homeward linked first with ⟨last, lastIface, lastLink, arrives⟩
      have home := arrives.hop lastLink delivered
      simpa [wayBack, Hop.back] using home

end Network

end Cjdns
