import Cjdns.Switch.Directions
import Cjdns.Switch.Splicing

/-!
# Walks

Where directions lead from a router, and the directions that lead back. A walk is extended at its
end, as the label of a packet is that takes it: the switch takes off the next turn and writes the
interface that the packet came in through into the label (`Midway`). A packet whose label was made
of directions takes no other way, and the one who gets it reads the directions back off its label
(`Midway.handed`).
-/

namespace Cjdns.Network

open NumberCompress (INTERFACES)

variable {Node : Type*} {net : Network Node} {router middle last : Node}
  {entry lastEntry : Fin INTERFACES} {directions further back rest : Directions} {turn : Turn}

/-- Directions from a router to the switch of a node, with the interface through which they come
there and the turns that a packet has written into its label by then -/
inductive Walk (net : Network Node) (router : Node) :
    Directions → Node → Fin INTERFACES → Directions → Prop where
  | first {turn : Turn} {next : Node} {entry : Fin INTERFACES}
      (linked : net.link router turn.exit = some (next, entry)) : Walk net router [turn] next entry []
  | onward {directions back : Directions} {turn source : Turn} {middle next : Node}
      {entry : Fin INTERFACES} (walk : Walk net router directions middle source.exit back)
      (linked : net.link middle turn.exit = some (next, entry)) (width : source.bits = turn.bits) :
      Walk net router (directions ++ [turn]) next entry (source :: back)

namespace Walk

/-- What is written into the label takes the place of all turns but the first. -/
theorem bits_back (walk : net.Walk router directions last entry back) :
    ∃ first, directions.head? = some first ∧ directions.bits = first.bits + back.bits := by
  induction walk with
  | first linked => exact ⟨_, rfl, rfl⟩
  | @onward directions back turn source middle next entry walk linked width ih =>
      rcases ih with ⟨first, head, same⟩
      refine ⟨first, by rw [List.head?_append, head, Option.some_or], ?_⟩
      rw [Directions.bits_append, same, Directions.bits, Directions.bits, Directions.bits, width]
      omega

theorem entry_ne (walk : net.Walk router directions last entry back) : entry ≠ 1 := by
  cases walk with
  | first linked => exact exit_ne_router (net.link_symm linked)
  | onward walk linked width => exact exit_ne_router (net.link_symm linked)

/-- A walk goes on with another one, whose first turn may be written wider. -/
theorem append {directions further back more : Directions} {turn wide source : Turn}
    {middle last : Node} {lastEntry : Fin INTERFACES}
    (walk : net.Walk router directions middle source.exit back)
    (onward : net.Walk middle (turn :: further) last lastEntry more)
    (sameExit : wide.exit = turn.exit) (width : source.bits = wide.bits) :
    net.Walk router (directions ++ wide :: further) last lastEntry (more ++ source :: back) := by
  generalize whole : turn :: further = second at onward
  induction onward generalizing further with
  | first linked =>
      cases whole
      exact .onward walk (sameExit ▸ linked) width
  | @onward second more other source' middle' next entry earlier linked width' ih =>
      rcases second with _ | ⟨head, tail⟩
      · rcases earlier.bits_back with ⟨_, none, -⟩
        cases none
      · rw [List.cons_append, List.cons.injEq] at whole
        rcases whole with ⟨rfl, rfl⟩
        have extended := Walk.onward (ih rfl) linked width'
        rwa [List.append_assoc, List.cons_append] at extended

/-- What is written into a label leads back, behind the interface that the packet came in through. -/
theorem reverse (walk : net.Walk router directions last entry back) {source : Turn}
    (here : source.exit = entry) :
    ∃ first rest, directions = first :: rest ∧
      net.Walk last (source :: back) router first.exit rest := by
  induction walk generalizing source with
  | first linked =>
      subst here
      exact ⟨_, [], rfl, .first (net.link_symm linked)⟩
  | @onward directions back turn other middle next entry walk linked width ih =>
      subst here
      rcases ih rfl with ⟨first, rest, rfl, home⟩
      have hop : net.Walk next [source] middle turn.exit [] := .first (net.link_symm linked)
      exact ⟨first, rest ++ [turn], rfl, hop.append home rfl width.symm⟩

end Walk

/-! ## Labels on the way -/

/-- A packet on its way: of its directions some are behind it and some are left. -/
structure Midway (net : Network Node) (router : Node) (directions rest back : Directions)
    (arrival : Arrival Node) : Prop where
  walk : net.Walk router directions arrival.node arrival.iface back
  label_eq : Headers.messageLabel arrival.message =
    ((directions ++ rest).label >>> directions.bits) ||| back.label.reverse

namespace Midway

variable {arrival next : Arrival Node} {exit : Fin INTERFACES} {handed : Message}
  {send : Fin INTERFACES → Message → BitVec 8 × Message}

/-- The turns that are left stand at the low end, as far as nothing is written into the label. -/
theorem low_label (midway : net.Midway router directions rest back arrival)
    (room : (directions ++ rest).bits < 64) {kept : ℕ} (apart : back.bits + 1 + kept ≤ 64) :
    (Headers.messageLabel arrival.message).toNat % 2 ^ kept = rest.spell % 2 ^ kept := by
  have small : back.label.toNat < 2 ^ (back.bits + 1) := by
    rw [Directions.toNat_label (by omega)]
    exact Directions.spell_lt back
  rw [midway.label_eq, BitVec.toNat_or, Nat.or_mod_two_pow,
    Word.toNat_reverse_mod_of_lt small apart, Nat.or_zero, BitVec.toNat_ushiftRight,
    Nat.shiftRight_eq_div_pow, Directions.toNat_label room, Directions.spell_append_div]

/-- The label starts with the next turn. -/
theorem starts (midway : net.Midway router directions (turn :: rest) back arrival)
    (room : (directions ++ turn :: rest).bits < 64) :
    Word.low turn.bits (Headers.messageLabel arrival.message) =
      NumberCompress.getCompressed turn.exit turn.bits := by
  rcases midway.walk.bits_back with ⟨first, -, bits⟩
  have four := first.four_le_bits
  have total := room
  rw [Directions.bits_append, Directions.bits] at total
  have low := midway.low_label room (show back.bits + 1 + turn.bits ≤ 64 by omega)
  apply BitVec.eq_of_toNat_eq
  rw [Word.toNat_low, low, Directions.spell, Nat.mul_comm, Nat.mul_add_mod,
    Nat.mod_eq_of_lt turn.code_lt, Turn.code]

/-- Behind the last turn there is the router. -/
theorem low_four (midway : net.Midway router directions [] back arrival)
    (room : directions.bits < 64) : (Headers.messageLabel arrival.message).toNat % 16 = 1 := by
  rcases midway.walk.bits_back with ⟨first, -, bits⟩
  have four := first.four_le_bits
  exact midway.low_label (by rwa [List.append_nil]) (show back.bits + 1 + 4 ≤ 64 by omega)

/-- The packet leaves through the next interface, with the one that it came in through written into
its label. -/
theorem hop (midway : net.Midway router directions (turn :: rest) back arrival) {source : Turn}
    (here : source.exit = arrival.iface) (width : source.bits = turn.bits)
    (exchange : SwitchCore.Exchange arrival.iface turn.exit turn.bits
      (Headers.messageLabel arrival.message) (Headers.messageLabel next.message))
    (linked : net.link arrival.node turn.exit = some (next.node, next.iface)) :
    net.Midway router (directions ++ [turn]) rest (source :: back) next where
  walk := .onward (here ▸ midway.walk) linked width
  label_eq := by
    have written : ((back.label.reverse >>> turn.bits) |||
        (NumberCompress.getCompressed arrival.iface turn.bits).reverse).reverse =
          Directions.label (source :: back) := by
      rw [Word.reverse_or, Word.reverse_ushiftRight, BitVec.reverse_reverse_eq,
        BitVec.reverse_reverse_eq, Directions.label_cons, here, width]
    rw [exchange.target_eq, midway.label_eq, Bits.bitReverse64_eq_reverse, ← written,
      BitVec.reverse_reverse_eq, BitVec.ushiftRight_or_distrib, BitVec.or_assoc, List.append_assoc,
      List.singleton_append, Directions.bits_append, Directions.bits, Directions.bits,
      Nat.add_zero, BitVec.shiftRight_add]

/-- The first hop of a packet with a label for directions -/
theorem of_first {packet : Message} (label : Headers.messageLabel packet = Directions.label (turn :: rest))
    (exchange : SwitchCore.Exchange 1 turn.exit turn.bits (Headers.messageLabel packet)
      (Headers.messageLabel next.message))
    (linked : net.link router turn.exit = some (next.node, next.iface)) :
    net.Midway router [turn] rest [] next where
  walk := .first linked
  label_eq := by
    rw [exchange.target_eq, label, Bits.bitReverse64_eq_reverse, Directions.bits, Directions.bits,
      Nat.add_zero]
    rfl

end Midway

/-- The interface that is read off a label that starts with a turn -/
theorem exchange_of_starts {node : Node} {iface exit : Fin INTERFACES} {message handed : Message}
    {send : Fin INTERFACES → Message → BitVec 8 × Message}
    (starts : Word.low turn.bits (Headers.messageLabel message) =
      NumberCompress.getCompressed turn.exit turn.bits)
    (forwards : (net.core node).receiveMessage send iface message = some [.forwarded exit handed]) :
    exit = turn.exit ∧ SwitchCore.Exchange iface turn.exit turn.bits
      (Headers.messageLabel message) (Headers.messageLabel handed) := by
  obtain ⟨-, routed⟩ := SwitchCore.route_of_receiveMessage forwards
  obtain ⟨_, bits, exchange, width⟩ := SwitchCore.exists_exchange_of_route routed
  obtain ⟨reads, decodes⟩ := NumberCompress.decode_of_low_eq turn.width turn.exit.isLt turn.fits
    turn.exit_ne_one starts
  have peer : exit ≠ 1 := by
    rintro rfl
    have four : 2 ^ 4 ∣ 2 ^ bits := Nat.pow_dvd_pow 2 (by
      rcases exchange.width with width | width | width <;> omega)
    have low : (Headers.messageLabel message).toNat % 2 ^ bits = 1 := by
      rw [← Word.toNat_low, exchange.starts]
      rfl
    have router : (Headers.messageLabel message).toNat % 2 ^ 4 = 1 := by
      rw [← Nat.mod_mod_of_dvd _ four, low]
      rfl
    have one := (NumberCompress.getDecompressed_eq_one_iff _).mpr router
    rw [reads, decodes] at one
    exact turn.exit_ne_one one
  rw [width peer, reads] at exchange
  have same := (NumberCompress.decode_of_low_eq exchange.width exit.isLt exchange.destFits
    (fun one => peer (Fin.ext one)) exchange.starts).2
  rw [decodes] at same
  obtain rfl : exit = turn.exit := Fin.ext same.symm
  exact ⟨rfl, exchange⟩

/-- A packet does not leave the directions that it is on. -/
theorem Travels.midway {start stop : Arrival Node} {hops : List (Hop Node)} {consumed : ℕ}
    (travels : net.Travels start hops consumed stop)
    (midway : net.Midway router directions rest back start)
    (room : (directions ++ rest).bits < 64) :
    ∃ behind left back, behind ++ left = directions ++ rest ∧
      net.Midway router behind left back stop := by
  induction travels generalizing directions rest back with
  | here arrival => exact ⟨directions, rest, back, rfl, midway⟩
  | @hop arrival next stop hops consumed exit handed send forwards linked carried _ ih =>
      obtain ⟨⟨long, sameLength⟩, routed⟩ := SwitchCore.route_of_receiveMessage forwards
      rcases rest with _ | ⟨turn, rest⟩
      · rw [List.append_nil] at room
        rw [SwitchCore.route_router (midway.low_four room)] at routed
        exact absurd (SwitchCore.forward_of_ite routed).2.1.symm (exit_ne_router linked)
      · obtain ⟨rfl, exchange⟩ := exchange_of_starts (midway.starts room) forwards
        rw [← carried.messageLabel_eq (sameLength ▸ long)] at exchange
        let source : Turn :=
          ⟨arrival.iface, turn.bits, turn.width, exchange.sourceFits, midway.walk.entry_ne⟩
        have further := @Midway.hop _ _ _ _ _ _ _ _ _ midway source rfl rfl exchange linked
        have whole : (directions ++ [turn]) ++ rest = directions ++ turn :: rest := by
          rw [List.append_assoc, List.singleton_append]
        rcases ih further (whole ▸ room) with ⟨behind, left, back, same, still⟩
        exact ⟨behind, left, back, same.trans whole, still⟩

/-- Nor does a packet from the router that has not left yet. -/
theorem Travels.midway_of_router {packet : Message} {stop : Arrival Node}
    {hops : List (Hop Node)} {consumed : ℕ}
    (travels : net.Travels ⟨router, 1, packet⟩ hops consumed stop)
    (label : Headers.messageLabel packet = Directions.label (turn :: rest))
    (room : Directions.bits (turn :: rest) < 64) :
    stop = ⟨router, 1, packet⟩ ∨
      ∃ behind left back, behind ++ left = turn :: rest ∧
        net.Midway router behind left back stop := by
  generalize begins : (⟨router, 1, packet⟩ : Arrival Node) = start at travels
  cases travels with
  | here arrival => exact .inl rfl
  | @hop _ next _ hops consumed exit handed send forwards linked carried onward =>
      subst begins
      obtain ⟨⟨long, sameLength⟩, -⟩ := SwitchCore.route_of_receiveMessage forwards
      have starts : Word.low turn.bits (Headers.messageLabel packet) = _ :=
        label ▸ Directions.low_label turn rest
      obtain ⟨rfl, exchange⟩ := exchange_of_starts starts forwards
      rw [← carried.messageLabel_eq (sameLength ▸ long)] at exchange
      exact .inr (onward.midway (Midway.of_first label exchange linked) room)

/-- At the end of the directions there is nothing left but the terminator. -/
theorem Midway.label_of_end {arrival : Arrival Node}
    (midway : net.Midway router directions [] back arrival) (room : directions.bits < 64) :
    Headers.messageLabel arrival.message = 1 ||| back.label.reverse := by
  have one : directions.label >>> directions.bits = 1 := by
    have left := Directions.spell_append_div directions []
    rw [List.append_nil] at left
    apply BitVec.eq_of_toNat_eq
    rw [BitVec.toNat_ushiftRight, Nat.shiftRight_eq_div_pow, Directions.toNat_label room, left]
    rfl
  rw [midway.label_eq, List.append_nil, one]

/-- There is room for the way back if the switch takes the packet to be for the router. -/
theorem Midway.room_of_router {arrival : Arrival Node} {bits : ℕ}
    (midway : net.Midway router directions [] back arrival) (room : directions.bits < 64)
    (zeros : (Headers.messageLabel arrival.message).toNat % 2 ^ bits = 1) :
    back.bits + bits < 64 := by
  rcases midway.walk.bits_back with ⟨first, -, same⟩
  have four := first.four_le_bits
  by_contra long
  have written : (Headers.messageLabel arrival.message).getLsbD (63 - back.bits) = true := by
    rw [midway.label_of_end room, BitVec.getLsbD_or, BitVec.getLsbD_reverse,
      BitVec.getMsbD_eq_getLsbD, show 64 - 1 - (63 - back.bits) = back.bits by omega,
      Directions.getLsbD_label (by omega)]
    simp [show 63 - back.bits < 64 by omega]
  have bit := congrArg (·.testBit (63 - back.bits)) zeros
  simp only [Nat.testBit_mod_two_pow, BitVec.testBit_toNat, written, Bool.and_true] at bit
  have above : Nat.testBit 1 (63 - back.bits) = false :=
    Nat.testBit_lt_two_pow (Nat.one_lt_two_pow (by omega))
  rw [above, decide_eq_false_iff_not] at bit
  omega

/-- Whoever gets a packet that was sent on directions reads the way back off its label. -/
theorem Midway.handed {arrival : Arrival Node} {handed : Message}
    {send : Fin INTERFACES → Message → BitVec 8 × Message}
    (midway : net.Midway router directions rest back arrival)
    (room : (directions ++ rest).bits < 64)
    (forwards : (net.core arrival.node).receiveMessage send arrival.iface arrival.message =
      some [.forwarded 1 handed]) :
    rest = [] ∧ ∃ source : Turn, source.exit = arrival.iface ∧
      Directions.bits (source :: back) < 64 ∧
      Bits.bitReverse64 (Headers.messageLabel handed) = Directions.label (source :: back) := by
  rcases rest with _ | ⟨turn, rest⟩
  · rw [List.append_nil] at room
    obtain ⟨-, routed⟩ := SwitchCore.route_of_receiveMessage forwards
    rw [SwitchCore.route_router (midway.low_four room)] at routed
    rcases SwitchCore.forward_of_ite routed with ⟨⟨zeros, -⟩, -, target⟩
    let source := Turn.narrow arrival.iface midway.walk.entry_ne
    have four := source.four_le_bits
    have gone : (1 : BitVec 64) >>> NumberCompress.bitsUsedForNumber arrival.iface = 0#64 :=
      Word.ushiftRight_eq_zero_of_lt (Nat.one_lt_two_pow (by
        change source.bits ≠ 0
        omega))
    refine ⟨rfl, source, rfl, ?_, ?_⟩
    · rw [Directions.bits, Nat.add_comm]
      exact midway.room_of_router room zeros
    · rw [← target, midway.label_of_end room, BitVec.ushiftRight_or_distrib, gone,
        BitVec.zero_or, Bits.bitReverse64_eq_reverse, Bits.bitReverse64_eq_reverse,
        Word.reverse_or, Word.reverse_ushiftRight, BitVec.reverse_reverse_eq,
        BitVec.reverse_reverse_eq, Directions.label_cons]
      rfl
  · obtain ⟨same, -⟩ := exchange_of_starts (midway.starts room) forwards
    exact absurd same.symm turn.peer

/-! ## Getting there -/

/-- One more hop behind those that are certain -/
theorem Reaches.onward {goal further : Arrival Node → Prop} {start : Arrival Node}
    {hops : List (Hop Node)} {node next : Node} {iface exit entry : Fin INTERFACES}
    (reaches : net.Reaches goal start hops) (linked : net.link node exit = some (next, entry))
    (leaves : ∀ stop, goal stop → stop.node = node ∧ stop.iface = iface ∧ ∃ handed,
      (net.core node).receiveMessage SwitchCore.accepting iface stop.message =
        some [.forwarded exit handed] ∧
      ∀ arrived, Carried handed arrived → further ⟨next, entry, arrived⟩) :
    net.Reaches further start (hops ++ [⟨node, iface, exit⟩]) := by
  induction reaches with
  | @here arrival met =>
      rcases leaves _ met with ⟨rfl, rfl, handed, forwards, carries⟩
      exact .hop forwards linked fun arrived carried => .here (carries arrived carried)
  | hop forwards linked' _ ih => exact .hop forwards linked' ih

/-- A packet with the label of a walk, and of more turns behind it, gets to the end of the walk. -/
theorem Walk.reaches (walk : net.Walk router directions last entry back) {packet : Message}
    (long : Headers.SwitchHeader_SIZE ≤ packet.length)
    (label : Headers.messageLabel packet = (directions ++ rest).label)
    (room : (directions ++ rest).bits < 64) :
    ∃ hops, net.Reaches (fun stop => stop.node = last ∧ stop.iface = entry ∧
        Headers.SwitchHeader_SIZE ≤ stop.message.length ∧
          net.Midway router directions rest back stop) ⟨router, 1, packet⟩ hops := by
  induction walk generalizing rest with
  | @first turn next entry linked =>
      have exchange : SwitchCore.Exchange 1 turn.exit turn.bits (Headers.messageLabel packet) _ :=
        { width := turn.width
          sourceFits := SwitchCore.routerFits _ turn.width rfl
          destFits := turn.fits
          starts := label ▸ Directions.low_label turn rest
          target_eq := rfl }
      have routed : (net.core router).route 1 (Headers.messageLabel packet) = _ :=
        SwitchCore.route_of_exchange exchange (net.link_live linked) turn.peer
      refine ⟨_, .hop (SwitchCore.receiveMessage_of_route (net.metered _ _) long routed) linked
        fun arrived carried => .here ⟨rfl, rfl, ?_, ?_⟩⟩
      · rw [carried.length_eq, SwitchCore.length_relabelled]
        exact long
      · refine Midway.of_first label ?_ linked
        rw [carried.messageLabel_eq (by rwa [SwitchCore.length_relabelled]),
          SwitchCore.messageLabel_relabelled]
        exact exchange
  | @onward directions back turn source middle next entry walk linked width ih =>
      rw [List.append_assoc, List.singleton_append] at label room
      rcases ih label room with ⟨hops, reaches⟩
      refine ⟨hops ++ [⟨middle, source.exit, turn.exit⟩], reaches.onward linked ?_⟩
      rintro ⟨node, iface, message⟩ ⟨rfl, rfl, stillLong, midway⟩
      have exchange : SwitchCore.Exchange source.exit turn.exit turn.bits
          (Headers.messageLabel message) _ :=
        { width := turn.width
          sourceFits := width ▸ source.fits
          destFits := turn.fits
          starts := midway.starts room
          target_eq := rfl }
      have routed : (net.core node).route source.exit (Headers.messageLabel message) = _ :=
        SwitchCore.route_of_exchange exchange (net.link_live linked) turn.peer
      refine ⟨rfl, rfl, _,
        SwitchCore.receiveMessage_of_route (net.metered _ _) stillLong routed,
        fun arrived carried => ⟨rfl, rfl, ?_, ?_⟩⟩
      · rw [carried.length_eq, SwitchCore.length_relabelled]
        exact stillLong
      · refine midway.hop rfl width ?_ linked
        rw [carried.messageLabel_eq (by rwa [SwitchCore.length_relabelled]),
          SwitchCore.messageLabel_relabelled]
        exact exchange

/-- A packet with the label of a walk gets to the router at its end, if the way back has room. -/
theorem Walk.delivers (walk : net.Walk router directions last entry back) {packet : Message}
    (long : Headers.SwitchHeader_SIZE ≤ packet.length)
    (label : Headers.messageLabel packet = directions.label) (room : directions.bits < 64)
    (routerLive : ((net.core last).interfaces 1).Live)
    (return_room : back.bits + NumberCompress.bitsUsedForNumber entry < 64) :
    ∃ hops, net.Delivers ⟨router, 1, packet⟩ hops last := by
  have whole := List.append_nil directions
  rcases @Walk.reaches _ _ _ _ _ _ _ [] walk _ long (by rwa [whole]) (by rwa [whole]) with
    ⟨hops, reaches⟩
  refine ⟨_, hops, entry, rfl, reaches.mono ?_⟩
  rintro ⟨node, iface, message⟩ ⟨rfl, rfl, stillLong, midway⟩
  have apart : back.bits + NumberCompress.bitsUsedForNumber iface < 64 := return_room
  have zeros : (Headers.messageLabel message).toNat %
      2 ^ NumberCompress.bitsUsedForNumber iface = 1 := by
    rw [midway.low_label (by rwa [whole]) (by omega), Directions.spell, Nat.mod_eq_of_lt]
    refine Nat.one_lt_two_pow ?_
    have width := NumberCompress.isWidth_bitsUsedForNumber iface
    rcases width with width | width | width <;> omega
  have routed : (net.core node).route iface (Headers.messageLabel message) = _ :=
    SwitchCore.route_router (midway.low_four room)
  rw [if_pos ⟨zeros, routerLive⟩] at routed
  exact ⟨rfl, rfl, _, SwitchCore.receiveMessage_of_route (net.metered _ _) stillLong routed⟩

end Cjdns.Network
