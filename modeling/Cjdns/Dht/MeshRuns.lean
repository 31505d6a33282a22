import Cjdns.Dht.TrueRoutes

/-!
# Runs of a mesh

In whatever order the routers are served, and however often and late their messages come, each
address that one of them keeps or sends to is that of a node that the path of the address leads to.
Only the labels that are told to others must have room.
-/

namespace Cjdns.Mesh

open NumberCompress (INTERFACES)

variable [AddressCalc] {Node : Type*} {mesh : Mesh Node} {router : Node} {addr : Address}

/-- Every router knows routes only, and all messages are honest where they were sent. -/
structure Truthful (mesh : Mesh Node) (state : State Node) : Prop where
  holds : ∀ router, (state.searchers router).Holds (mesh.IsRoute router)
  honest : ∀ sender letter, (sender, letter) ∈ state.sent → letter.Honest (mesh.IsRoute sender)

/-- The router that is served tells only labels that have room. -/
def Spacious (state : State Node) (event : Node × Searcher.Occasion) : Prop :=
  (state.searchers event.1).Spacious event.2

theorem truthful_isInvariant [DecidableEq Node] :
    mesh.system.IsInvariant Spacious mesh.Truthful where
  initial := by
    rintro state ⟨vacant, silent⟩
    refine ⟨fun router => ⟨?_, fun slot search occupied => ?_⟩, fun sender letter sent => ?_⟩
    · rw [NodeStore.Holds, NodeStore.addresses, (vacant router).1]
      simp
    · rw [(vacant router).2] at occupied
      cases occupied
    · rw [silent] at sent
      cases sent
  step := by
    rintro before ⟨router, occasion⟩ after truthful spacious ⟨admits, later, letters, served, rfl⟩
    have meets := meets_of_admits truthful.honest admits
    rcases holds_serve (lasting_isRoute router) (truthful.holds router) meets spacious served with
      ⟨holds, honest⟩
    refine ⟨fun other => ?_, fun sender letter sent => ?_⟩
    · by_cases same : other = router
      · subst same
        dsimp only
        rwa [Function.update_self]
      · dsimp only
        rw [Function.update_of_ne same]
        exact truthful.holds other
    · rcases List.mem_append.mp sent with new | old
      · rcases List.mem_map.mp new with ⟨letter, inside, same⟩
        cases same
        exact honest letter inside
      · exact truthful.honest sender letter old

/-- The address is that of a node that every packet with its path gets to, if the way back has
room. -/
def Finds (mesh : Mesh Node) (router : Node) (addr : Address) : Prop :=
  ∃ other directions entry turns, addr.key = mesh.key other ∧
    addr.path = Directions.label directions ∧ mesh.Walk router directions other entry turns ∧
      ∀ packet, Headers.SwitchHeader_SIZE ≤ packet.length →
        Headers.messageLabel packet = addr.path → ((mesh.core other).interfaces 1).Live →
          turns.bits + NumberCompress.bitsUsedForNumber entry < 64 →
            ∃ hops, mesh.Delivers ⟨router, 1, packet⟩ hops other

theorem IsRoute.finds (route : mesh.IsRoute router addr) : mesh.Finds router addr := by
  rcases route with ⟨other, directions, leads⟩
  rcases leads.walks with ⟨entry, turns, walk⟩
  refine ⟨other, directions, entry, turns, leads.key_eq, leads.path_eq, walk, ?_⟩
  intro packet long label routerLive return_room
  exact walk.delivers long (label.trans leads.path_eq) leads.room routerLive return_room

/-- In every run all addresses in the tables and on the stacks of the searches are those of nodes
that their paths lead to, and so is whatever a message is sent to. -/
theorem finds_of_reachable [DecidableEq Node] {state : State Node}
    (reachable : mesh.system.Reachable Spacious state) :
    (∀ router, (state.searchers router).Holds (mesh.Finds router)) ∧
      ∀ sender letter, (sender, letter) ∈ state.sent →
        ∃ addr, letter.label = addr.path ∧ mesh.Finds sender addr := by
  have truthful := reachable.invariant truthful_isInvariant
  refine ⟨fun router => ⟨fun addr inside => ?_, fun slot search occupied addr inside => ?_⟩, ?_⟩
  · exact IsRoute.finds ((truthful.holds router).table addr inside)
  · exact IsRoute.finds ((truthful.holds router).stacked slot search occupied addr inside)
  · intro sender letter sent
    cases truthful.honest sender letter sent with
    | @request address _ _ _ given => exact ⟨address, rfl, IsRoute.finds given⟩
    | @reply asking _ _ given => exact ⟨asking, rfl, IsRoute.finds given⟩

/-! ## Runs that are computed -/

instance (asking addr : Address) : Decidable (asking.Fits addr) :=
  inferInstanceAs (Decidable (_ < _))

/-- `Spacious`, computed -/
def isSpacious (searcher : Searcher) : Searcher.Occasion → Bool
  | .incoming surroundings addr content =>
      (SerializationModule.handleIncoming surroundings.erange surroundings.behind
          (DHTMessage.received content)).all fun asDict =>
        (RouterModule.queryTarget asDict).all fun target =>
          (searcher.routerModule.nodeStore.addNode addr 1
              (RouterModule.queryVersion asDict)).nodeStore.all fun store =>
            (store.getClosestNodes
              { surroundings.stackAddr with ip6 := bigEndian 128 target } (some addr)
              (Searcher.K + 5) false (RouterModule.queryVersion asDict)).all fun node =>
                decide (addr.Fits node.address)
  | _ => true

theorem spacious_of_isSpacious {searcher : Searcher} {occasion : Searcher.Occasion}
    (fits : isSpacious searcher occasion = true) : searcher.Spacious occasion := by
  cases occasion with
  | incoming surroundings addr content =>
      intro asDict target store read aimed added node inside
      simp only [isSpacious, read, aimed, added, Option.all_some, List.all_eq_true,
        decide_eq_true_eq] at fits
      exact fits node inside
  | peer chance stackKey stackPath key ifIndex version => trivial
  | broken path => trivial
  | ping chance position txid => trivial
  | pingTimeout chance index => trivial
  | begin chance id target hasCallback => trivial
  | searchTimeout chance slot => trivial

/-- What happens next, where the switches are followed -/
inductive Move (Node : Type*) where
  | peer (router : Node) (ifIndex : Fin INTERFACES) (version : BitVec 32)
  | ping (router : Node) (chance : RouterModule.Chance) (position : ℕ)
  | begin (router : Node) (chance : Searcher.SearchChance) (target : Address)
  /-- One of the messages that have been sent comes where it is brought. -/
  | deliver (index : ℕ) (surroundings : Surroundings)

/-- The occasion of a move, with the router that it is for -/
def Move.event (mesh : Mesh Node) (state : State Node) : Move Node →
    Option (Node × Searcher.Occasion)
  | peer router ifIndex version =>
      (mesh.link router ifIndex).map fun far =>
        (router, .peer ⟨0, 0, 0⟩ 0 0 (mesh.key far.1) ifIndex version)
  | ping router chance position => some (router, .ping chance position none)
  | begin router chance target => some (router, .begin chance 0 target false)
  | deliver index surroundings =>
      (state.sent[index]?).bind fun sent =>
        (mesh.carry 64 ⟨sent.1, 1, Headers.bareHeader sent.2.label⟩).map fun brought =>
          (brought.1, .incoming surroundings
            (Address.forKey (mesh.key sent.1) brought.2) sent.2.content)

theorem admits_of_event {state : State Node} {move : Move Node}
    {event : Node × Searcher.Occasion} (happens : move.event mesh state = some event) :
    mesh.Admits state event.1 event.2 := by
  cases move with
  | peer router ifIndex version =>
      rcases Option.map_eq_some_iff.mp happens with ⟨⟨other, entry⟩, linked, rfl⟩
      exact ⟨other, entry, linked, rfl⟩
  | ping router chance position =>
      cases happens
      trivial
  | begin router chance target =>
      cases happens
      trivial
  | deliver index surroundings =>
      rcases Option.bind_eq_some_iff.mp happens with ⟨⟨sender, letter⟩, sent, happens⟩
      rcases Option.map_eq_some_iff.mp happens with ⟨⟨receiver, back⟩, carries, rfl⟩
      exact ⟨sender, letter.label, back, List.mem_of_getElem? sent, brings_of_carry carries, rfl⟩

/-- A step of the mesh, as far as all labels have room -/
def play [DecidableEq Node] (mesh : Mesh Node) (state : State Node) (move : Move Node) :
    Option (State Node) :=
  (move.event mesh state).bind fun event =>
    if isSpacious (state.searchers event.1) event.2 then
      ((state.searchers event.1).serve (mesh.gitVersion event.1) event.2).map fun served =>
        { searchers := Function.update state.searchers event.1 served.1
          sent := served.2.map (fun letter => (event.1, letter)) ++ state.sent }
    else none

theorem reachable_of_play [DecidableEq Node] {state after : State Node} {move : Move Node}
    (reachable : mesh.system.Reachable Spacious state)
    (plays : mesh.play state move = some after) : mesh.system.Reachable Spacious after := by
  rcases Option.bind_eq_some_iff.mp plays with ⟨event, happens, plays⟩
  rcases Option.ite_none_right_eq_some.mp plays with ⟨fits, plays⟩
  rcases Option.map_eq_some_iff.mp plays with ⟨⟨later, letters⟩, served, rfl⟩
  exact reachable.step (spacious_of_isSpacious fits)
    ⟨admits_of_event happens, later, letters, served, rfl⟩

/-! ## A line of three nodes -/

/-- The node in the middle has the others at the interfaces 2 and 3. -/
def line : Network (Fin 3) where
  core _ :=
    { interfaces := fun slot =>
        { iface := if slot = 1 ∨ slot = 2 ∨ slot = 3 then some slot else none
          buffer := 0
          bufferMax := 0 }
      interfaceCount := 3
      routerAdded := true }
  link
    | 0, 2 => some (1, 2)
    | 1, 2 => some (0, 2)
    | 1, 3 => some (2, 2)
    | 2, 2 => some (1, 3)
    | _, _ => none
  link_symm := by
    intro node iface other otherIface linked
    split at linked <;> cases linked <;> rfl
  link_live := by
    intro node iface far linked
    split at linked <;> cases linked <;> simp [SwitchInterface.Live]
  link_router node := by
    fin_cases node <;> rfl
  metered _ _ := le_rfl

/-- The key of a node of the line -/
def lineKey (node : Fin 3) : BitVec 256 :=
  BitVec.ofNat 256 (node + 1) <<< 32

omit [AddressCalc] in
theorem lineKey_apart : ∀ node other, @AddressCalc.addressForPublicKey AddressCalc.plain
    (lineKey node) = @AddressCalc.addressForPublicKey AddressCalc.plain (lineKey other) →
      node = other := by
  decide

def lineMesh : @Mesh AddressCalc.plain (Fin 3) :=
  letI := AddressCalc.plain
  { line with
    key := lineKey
    gitVersion := fun _ => List.Vector.replicate 20 0
    apart := fun same => lineKey_apart _ _ same }

/-- Nobody knows anybody yet. -/
def lineStart : @State AddressCalc.plain (Fin 3) :=
  letI := AddressCalc.plain
  { searchers := fun node =>
      { routerModule :=
          { nodeStore :=
              { thisNodeAddress := Address.forKey (lineKey node) 1
                capacity := 8
                entries := []
                labelSum := 0 }
            pings := fun _ => none }
        searches := fun _ => none }
    sent := [] }

/-- The peers answer, an end asks the middle for the other end and is told of it, and pings it over
two hops. -/
def lineMoves : List (Move (Fin 3)) :=
  let surroundings : Surroundings :=
    { chance := Searcher.quietChance
      erange := true
      behind := 0
      fuel := 10
      stackAddr := Searcher.numbered 0 0 }
  [.peer 1 2 2, .peer 1 3 2, .peer 0 2 2,
    .begin 0 Searcher.quietChance (Searcher.numbered 3 0),
    .deliver 0 surroundings, .deliver 0 surroundings,
    .ping 0 Searcher.quietChance.toChance 1, .deliver 0 surroundings, .deliver 0 surroundings]

omit [AddressCalc] in
/-- The ends of the line find each other. -/
theorem finds_in_line : letI := AddressCalc.plain
    ∃ state, lineMoves.foldlM lineMesh.play lineStart = some state ∧
      (state.searchers 0).routerModule.nodeStore.addresses =
        [Address.forKey (lineKey 1) 0x15, Address.forKey (lineKey 2) 0x175] ∧
      (state.searchers 2).routerModule.nodeStore.addresses =
        [Address.forKey (lineKey 0) 0x155] ∧
      state.sent.length = 4 ∧
      (∀ router, (state.searchers router).Holds (lineMesh.Finds router)) ∧
      ∀ sender letter, (sender, letter) ∈ state.sent →
        ∃ addr, letter.label = addr.path ∧ lineMesh.Finds sender addr := by
  let := AddressCalc.plain
  have ends : (lineMoves.foldlM lineMesh.play lineStart).any (fun state =>
      decide ((state.searchers 0).routerModule.nodeStore.addresses =
        [Address.forKey (lineKey 1) 0x15, Address.forKey (lineKey 2) 0x175]) &&
      decide ((state.searchers 2).routerModule.nodeStore.addresses =
        [Address.forKey (lineKey 0) 0x155]) &&
      decide (state.sent.length = 4)) = true := by
    decide +kernel
  rcases (Option.any_eq_true _ _).mp ends with ⟨state, run, ends⟩
  simp only [Bool.and_eq_true, decide_eq_true_eq] at ends
  rcases ends with ⟨⟨near, far⟩, sent⟩
  have starts : lineMesh.system.Reachable Spacious lineStart :=
    .initial ⟨fun node => ⟨rfl, fun slot => rfl⟩, rfl⟩
  refine ⟨state, run, near, far, sent, finds_of_reachable ?_⟩
  exact TransitionSystem.invariant_of_foldlM (fun _ _ => reachable_of_play) run starts

end Cjdns.Mesh
