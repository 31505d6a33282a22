import Cjdns.Net.Ducttape

/-!
# Where packets of other nodes go

`core` asks the router for the next hop, unless `incomingFromTun` has left one in the
field `forwardTo`. It is left there for good where the packet never gets to `core`,
as it is sent directly or is a packet that `core` drops. The next packet of another
node follows it then.
-/

namespace Cjdns

open CryptoAuth (Packet)

namespace Ducttape

/-- The call does not choose a next hop and does not change what one is chosen by. -/
structure SameRouting (before after : Ducttape) : Prop where
  forwardTo : after.forwardTo = before.forwardTo
  lookup : after.router.lookup = before.router.lookup
  routed : ∀ destinationAddr nextHop, .routed destinationAddr nextHop ∈ after.deeds →
    .routed destinationAddr nextHop ∈ before.deeds

variable {setting : Setting} {moment : Moment} {context before between after : Ducttape}

namespace SameRouting

theorem refl (context : Ducttape) : SameRouting context context where
  forwardTo := rfl
  lookup := rfl
  routed _ _ same := same

theorem trans (first : SameRouting before between) (second : SameRouting between after) :
    SameRouting before after where
  forwardTo := second.forwardTo.trans first.forwardTo
  lookup := second.lookup.trans first.lookup
  routed destinationAddr nextHop inside :=
    first.routed destinationAddr nextHop (second.routed destinationAddr nextHop inside)

theorem log (deed : Deed) (context : Ducttape)
    (other : ∀ destinationAddr nextHop, deed ≠ .routed destinationAddr nextHop) :
    SameRouting context (context.log deed) where
  forwardTo := rfl
  lookup := rfl
  routed destinationAddr nextHop inside := by
    rcases List.mem_append.mp inside with earlier | last
    · exact earlier
    · exact absurd (List.mem_singleton.mp last).symm (other destinationAddr nextHop)

theorem assign (change : Session → Session) (context : Ducttape) :
    SameRouting context (context.assign change) := by
  rw [Ducttape.assign]
  split <;> exact ⟨rfl, rfl, fun _ _ same => same⟩

end SameRouting

theorem sendToSwitch_sameRouting {packet : Packet}
    (sends : sendToSwitch setting moment packet context = some after) :
    SameRouting context after := by
  rcases sendToSwitch_eq_some sends with ⟨_, _, _, -, rfl⟩
  exact (SameRouting.assign _ _).trans (.log _ _ (by simp))

theorem encrypt_sameRouting {header : Option IP6Header} {message : List (BitVec 8)} {packet : Packet}
    (encrypts : encrypt setting moment header message context = some (packet, after)) :
    SameRouting context after := by
  rcases encrypt_eq_some encrypts with ⟨_, _, -, -, rfl⟩
  exact ⟨rfl, rfl, fun _ _ same => same⟩

theorem setVersion_lookup (version : BitVec 32) (router : Router) (pointer : NodePointer) :
    (router.setVersion version pointer).lookup = router.lookup := by
  cases pointer <;> rfl

theorem sendToRouter_sameRouting {pointer : NodePointer} {message : List (BitVec 8)}
    (sends : sendToRouter setting moment pointer message context = some after) :
    SameRouting context after := by
  simp only [sendToRouter, Option.bind_eq_some_iff, Prod.exists] at sends
  rcases sends with ⟨session, -, packet, encrypted, encrypts, sends⟩
  have sealed := encrypt_sameRouting encrypts
  have sent := sendToSwitch_sameRouting sends
  refine SameRouting.trans ⟨?_, ?_, ?_⟩ sent
  · exact sealed.forwardTo
  · exact sealed.lookup.trans (setVersion_lookup ..)
  · exact sealed.routed

theorem deliverForMe_sameRouting {message ip6 : List (BitVec 8)} {herPubKey : Key}
    (delivers : deliverForMe setting message ip6 herPubKey context = some after) :
    SameRouting context after := by
  rcases deliverForMe_eq_some delivers with
    rfl | ⟨-, ⟨_, _, -, rfl⟩ | ⟨_, -, rfl⟩⟩
  · exact .refl _
  · exact .log _ _ (by simp)
  · exact .log _ _ (by simp)

theorem incomingForMe_sameRouting {message : List (BitVec 8)} {herPubKey : Key}
    {containsHandle : Bool}
    (delivers : incomingForMe setting message herPubKey containsHandle context = some after) :
    SameRouting context after := by
  rcases incomingForMe_eq_some delivers with ⟨handle, session, -, -, ⟨-, -, delivers⟩ | delivers⟩
  · have bound : SameRouting context (context.bindInner message handle session) :=
      (SameRouting.assign _ _).trans (.log _ _ (by simp))
    exact bound.trans (deliverForMe_sameRouting delivers)
  · exact deliverForMe_sameRouting delivers

theorem bindOuter_sameRouting (handle : ℕ) (context : Ducttape) :
    SameRouting context (context.bindOuter handle) := by
  rw [bindOuter]
  split
  · have bound := (SameRouting.assign (fun session => { session with
      sendHandle_be := context.currentSessionSendHandle_be
      version := context.currentSessionVersion }) context).trans (.log (.bound handle
        context.currentSessionSendHandle_be context.currentSessionVersion) _ (by simp))
    exact ⟨bound.forwardTo, bound.lookup, bound.routed⟩
  · exact .refl _

/-! ## Packets that get to `core` -/

/-- All packets have gone where the table says, and none is under way to another place. -/
structure Routes (table : List (BitVec 8) → Option ℕ) (context : Ducttape) : Prop where
  forwardTo : context.forwardTo = none
  lookup : context.router.lookup = table
  routed : ∀ destinationAddr nextHop, .routed destinationAddr nextHop ∈ context.deeds →
    nextHop = table destinationAddr

variable {table : List (BitVec 8) → Option ℕ}

theorem SameRouting.routes (same : SameRouting before after) (routes : Routes table before) :
    Routes table after where
  forwardTo := same.forwardTo.trans routes.forwardTo
  lookup := same.lookup.trans routes.lookup
  routed destinationAddr nextHop inside :=
    routes.routed destinationAddr nextHop (same.routed destinationAddr nextHop inside)

/-- A continuation keeps to the table. -/
def KeepsRoutes (table : List (BitVec 8) → Option ℕ) (core : Continuation) : Prop :=
  ∀ header content context after, Routes table context → core header content context = some after →
    Routes table after

theorem logReceived_sameRouting (handle : ℕ) (session : Session) (received : CryptoAuth.Received)
    (context : Ducttape) : SameRouting context (context.logReceived handle session received) := by
  refine ⟨rfl, rfl, fun destinationAddr nextHop inside => ?_⟩
  rcases List.mem_append.mp inside with earlier | later
  · exact earlier
  · rcases List.mem_map.mp later with ⟨_, -, different⟩
    cases different

theorem take_sameRouting (handle : ℕ) (session : Session) (received : CryptoAuth.Received)
    (context : Ducttape) : SameRouting context (context.take handle session received) :=
  (logReceived_sameRouting ..).trans (.assign _ _)

theorem respond_sameRouting (handle : ℕ) (session : Session) (received : CryptoAuth.Received)
    (sent : Packet) (context : Ducttape) :
    SameRouting context (context.respond moment handle session received sent) := by
  have assigned := (logReceived_sameRouting handle session received context).trans
    (.assign (responding moment context.ip6Header received sent) _)
  exact ⟨assigned.forwardTo, assigned.lookup, assigned.routed⟩

variable {core : Continuation}

theorem outgoingFromMe_routes {header : IP6Header} {packet : Packet}
    (keeps : KeepsRoutes table core) (routes : Routes table context)
    (sends : outgoingFromMe setting core header packet context = some after) :
    Routes table after := by
  have logged : Routes table (context.log (.fromMe header)) :=
    (SameRouting.log _ context (by simp)).routes routes
  simp only [outgoingFromMe] at sends
  split at sends
  · exact keeps _ _ _ _ logged sends
  · split at sends
    · exact keeps _ _ _ _ logged sends
    · cases sends

theorem outgoingFromCryptoAuth_routes {header : IP6Header} {packet : Packet}
    (keeps : KeepsRoutes table core) (routes : Routes table context)
    (sends : outgoingFromCryptoAuth setting moment core header packet context = some after) :
    Routes table after := by
  have entered : Routes table { context with layer := .INVALID } :=
    ⟨routes.forwardTo, routes.lookup, routes.routed⟩
  simp only [outgoingFromCryptoAuth] at sends
  split at sends
  · exact (sendToSwitch_sameRouting sends).routes entered
  · exact outgoingFromMe_routes keeps entered sends

theorem incomingFromRouter_routes {message : List (BitVec 8)} (keeps : KeepsRoutes table core)
    (routes : Routes table context) (receives : incomingFromRouter core message context = some after) :
    Routes table after := by
  simp only [incomingFromRouter, Option.bind_eq_some_iff] at receives
  rcases receives with ⟨handle, -, session, -, receives⟩
  have bound := (bindOuter_sameRouting handle context).routes routes
  split at receives
  · exact keeps _ _ _ _ bound receives
  · rw [← Option.some.inj receives]
    exact (SameRouting.log _ _ (by simp)).routes bound

theorem incomingFromCryptoAuth_routes {message : List (BitVec 8)} {herPubKey : Key}
    (keeps : KeepsRoutes table core) (routes : Routes table context)
    (receives : incomingFromCryptoAuth setting core message herPubKey context = some after) :
    Routes table after := by
  have entered : Routes table { context with layer := .INVALID } :=
    ⟨routes.forwardTo, routes.lookup, routes.routed⟩
  simp only [incomingFromCryptoAuth] at receives
  split at receives
  · exact incomingFromRouter_routes keeps entered receives
  · exact (incomingForMe_sameRouting receives).routes entered
  · cases receives

theorem receive_routes {packet : Packet} (keeps : KeepsRoutes table core)
    (routes : Routes table context)
    (receives : receive setting moment core packet context = some after) : Routes table after := by
  rcases receive_eq_some receives with ⟨handle, session, received, -, -, -,
    ⟨sent, -, sends⟩ | ⟨message, -, passes⟩ | rfl⟩
  · exact outgoingFromCryptoAuth_routes keeps ((respond_sameRouting ..).routes routes) sends
  · refine incomingFromCryptoAuth_routes keeps (SameRouting.routes ?_ routes) passes
    exact (take_sameRouting ..).trans (.log _ _ (by simp))
  · exact (take_sameRouting ..).routes routes

/-- A packet whose next hop is the one of the table -/
theorem core_forwards {depth : ℕ} {header : IP6Header} {content : List (BitVec 8)}
    (foreign : header.destinationAddr ≠ setting.myAddr) (alive : header.hopLimit ≠ 0)
    (lookup : context.router.lookup = table)
    (hop : context.forwardTo.or (table header.destinationAddr) = table header.destinationAddr)
    (routed : ∀ destinationAddr nextHop, .routed destinationAddr nextHop ∈ context.deeds →
      nextHop = table destinationAddr)
    (forwards : Ducttape.core setting (depth + 1) moment header content context = some after) :
    Routes table after := by
  simp only [Ducttape.core, if_neg foreign, if_neg alive, lookup, hop] at forwards
  have logged (ip6Header : IP6Header) (ip6Length : ℕ) : Routes table
      (log (.routed header.destinationAddr (table header.destinationAddr))
        { context with ip6Header := ip6Header, ip6Length := ip6Length, forwardTo := none }) := by
    refine ⟨rfl, lookup, fun destinationAddr nextHop inside => ?_⟩
    rcases List.mem_append.mp inside with earlier | last
    · exact routed destinationAddr nextHop earlier
    · rcases List.mem_singleton.mp last with ⟨⟩
      rfl
  split at forwards
  · exact (sendToRouter_sameRouting forwards).routes (logged _ _)
  · rw [← Option.some.inj forwards]
    exact logged _ _

/-- `core` keeps to the table, however often it is called. -/
theorem core_keepsRoutes (setting : Setting) (table : List (BitVec 8) → Option ℕ) (depth : ℕ)
    (moment : Moment) : KeepsRoutes table (Ducttape.core setting depth moment) := by
  induction depth generalizing moment with
  | zero =>
      intro header content context after _ forwards
      cases forwards
  | succ depth ih =>
      intro header content context after routes forwards
      by_cases foreign : header.destinationAddr ≠ setting.myAddr
      · by_cases alive : header.hopLimit ≠ 0
        · exact core_forwards foreign alive routes.lookup (by rw [routes.forwardTo, Option.none_or])
            routes.routed forwards
        · simp only [Ducttape.core, if_neg foreign, if_pos (not_not.mp alive)] at forwards
          rw [← Option.some.inj forwards]
          exact ⟨routes.forwardTo, routes.lookup, routes.routed⟩
      · simp only [Ducttape.core, if_pos (not_not.mp foreign), Option.bind_eq_some_iff] at forwards
        rcases forwards with ⟨session, -, forwards⟩
        split at forwards
        · refine receive_routes (ih _) ?_ forwards
          exact ⟨routes.forwardTo, routes.lookup, routes.routed⟩
        · refine (incomingForMe_sameRouting forwards).routes ?_
          exact ⟨routes.forwardTo, routes.lookup, routes.routed⟩

/-! ## Calls and runs -/

theorem incomingTraffic_routes {depth : ℕ} {switchHeader : SwitchHeader} {handle_be : BitVec 32}
    {packet : Packet} (routes : Routes table context)
    (receives : incomingTraffic setting depth moment switchHeader handle_be packet context =
      some after) : Routes table after := by
  have routes := (SameRouting.log (.arrived handle_be packet) context (by simp)).routes routes
  have found : Routes table (sessionOf setting moment handle_be packet
      (context.log (.arrived handle_be packet))).2 := by
    simp only [sessionOf]
    split_ifs <;> exact ⟨routes.forwardTo, routes.lookup, routes.routed⟩
  simp only [incomingTraffic] at receives
  split at receives
  · rename_i absent
    rw [absent] at found
    rw [← Option.some.inj receives]
    exact found
  · rename_i session context' present
    rw [present] at found
    split at receives
    · rw [← Option.some.inj receives]
      exact found
    · refine receive_routes (core_keepsRoutes _ _ _ _) ?_ receives
      exact ⟨found.forwardTo, found.lookup, found.routed⟩

/-- `incomingFromTun` takes the packet for one of this node's own to another node. -/
def isOwnTraffic (setting : Setting) (ethertype : BitVec 16) (header : IP6Header) : Bool :=
  ethertype = Ethernet_TYPE_IP6 && header.getIpVersion = 6 && validAddress header.sourceAddr &&
    header.sourceAddr = setting.myAddr && header.destinationAddr ≠ setting.myAddr

/--
The packet gets to `core`, which takes the next hop out of the context: it is not
for the next hop itself, and its hop limit is not zero.
-/
def GetsToCore (router : Router) (header : IP6Header) : Prop :=
  ∀ index, router.lookup header.destinationAddr = some index →
    header.destinationAddr ≠ (router.nodes index).address.ip6 ∧ header.hopLimit ≠ 0

theorem sendInner_routes {depth : ℕ} {header : IP6Header} {message : List (BitVec 8)}
    (foreign : header.destinationAddr ≠ setting.myAddr) (alive : header.hopLimit ≠ 0)
    (lookup : context.router.lookup = table)
    (forwardTo : context.forwardTo = table header.destinationAddr)
    (routed : ∀ destinationAddr nextHop, .routed destinationAddr nextHop ∈ context.deeds →
      nextHop = table destinationAddr)
    (sends : sendInner setting depth moment header message context = some after) :
    Routes table after := by
  simp only [sendInner, Option.bind_eq_some_iff] at sends
  rcases sends with ⟨session, -, sends⟩
  split at sends
  · cases sends
  rcases Option.bind_eq_some_iff.mp sends with ⟨⟨packet, encrypted⟩, encrypts, sends⟩
  have same := encrypt_sameRouting encrypts
  have forwarded : encrypted.forwardTo = table header.destinationAddr :=
    same.forwardTo.trans forwardTo
  have known : encrypted.router.lookup = table := same.lookup.trans lookup
  have earlierRouted (destinationAddr : List (BitVec 8)) (nextHop : Option ℕ)
      (inside : .routed destinationAddr nextHop ∈ encrypted.deeds) : nextHop = table destinationAddr :=
    routed destinationAddr nextHop (same.routed destinationAddr nextHop inside)
  have inner : encrypted.layer = .INNER := by
    rcases encrypt_eq_some encrypts with ⟨_, _, -, -, rfl⟩
    rfl
  clear same encrypts
  -- The packet is for the inner layer, so that it goes to `core` under its own header.
  simp only [outgoingFromCryptoAuth, inner, reduceCtorEq, if_false, outgoingFromMe,
    if_neg foreign] at sends
  split at sends
  · cases depth with
    | zero => cases sends
    | succ depth =>
        refine core_forwards ?_ ?_ ?_ ?_ ?_ sends
        · exact foreign
        · exact alive
        · exact known
        · change encrypted.forwardTo.or _ = _
          rw [forwarded, Option.or_self]
        · intro destinationAddr nextHop inside
          rcases List.mem_append.mp inside with earlier | last
          · exact earlierRouted destinationAddr nextHop earlier
          · cases List.mem_singleton.mp last
  · cases sends

theorem incomingFromTun_routes {depth : ℕ} {ethertype : BitVec 16} {message : List (BitVec 8)}
    (routes : Routes table context)
    (through : isOwnTraffic setting ethertype (IP6Header.ofBytes message) = true →
      GetsToCore context.router (IP6Header.ofBytes message))
    (receives : incomingFromTun setting depth moment ethertype message context = some after) :
    Routes table after := by
  rcases incomingFromTun_eq_some receives with rfl | rfl | rfl |
    ⟨isIp6, version, valid, fromMe, toOther, sends⟩
  · exact routes
  · exact (SameRouting.log _ _ (by simp)).routes routes
  · exact (SameRouting.log _ _ (by simp)).routes routes
  have own : isOwnTraffic setting ethertype (IP6Header.ofBytes message) = true := by
    simp only [isOwnTraffic, Bool.and_eq_true, decide_eq_true_eq]
    exact ⟨⟨⟨⟨isIp6, version⟩, valid⟩, fromMe⟩, toOther⟩
  rcases sends with ⟨index, found, sends⟩ | ⟨missing, rfl⟩
  · have gets := through own index found
    rcases sends with ⟨direct, -⟩ | ⟨-, sends⟩
    · exact (gets.1 direct).elim
    refine sendInner_routes toOther gets.2 ?_ ?_ ?_ sends
    · exact routes.lookup
    · exact congrFun routes.lookup _
    · exact routes.routed
  · exact ⟨missing, routes.lookup, routes.routed⟩

theorem sendToNode_sameRouting {nodeIp6Addr : List (BitVec 8)} {nodeKey : Key}
    {message : List (BitVec 8)}
    (sends : sendToNode setting moment nodeIp6Addr nodeKey message context = some after) :
    SameRouting context after := by
  have searches : SameRouting context
      (beginSearch moment nodeIp6Addr { context with switchHeader := none }) := by
    rw [beginSearch]
    split
    · have logged := SameRouting.log (.searched nodeIp6Addr) context (by simp)
      exact ⟨logged.forwardTo, logged.lookup, logged.routed⟩
    · exact ⟨rfl, rfl, fun _ _ same => same⟩
  simp only [sendToNode] at sends
  split at sends
  · split at sends
    · have same := sendToRouter_sameRouting sends
      exact ⟨same.forwardTo, same.lookup, same.routed⟩
    · rw [← Option.some.inj sends]
      exact searches
  · rw [← Option.some.inj sends]
    exact searches

theorem handleOutgoing_sameRouting {address : Address} {version : BitVec 32}
    {message : List (BitVec 8)}
    (sends : handleOutgoing setting moment address version message context = some after) :
    SameRouting context after := by
  have same := sendToRouter_sameRouting sends
  exact ⟨same.forwardTo, same.lookup, same.routed⟩

/-- The event is no packet of this node's own that leaves its next hop behind. -/
def LeavesNothing (setting : Setting) (router : Router) : Event → Prop
  | .called (.incomingFromTun ethertype message) =>
      isOwnTraffic setting ethertype (IP6Header.ofBytes message) = true →
        GetsToCore router (IP6Header.ofBytes message)
  | _ => True

theorem run_routes {depth : ℕ} {call : Call}
    (clears : LeavesNothing setting context.router (.called call)) (routes : Routes table context)
    (runs : run setting depth moment context call = some after) : Routes table after := by
  cases call with
  | incomingFromSwitch switchHeader handle_be packet => exact incomingTraffic_routes routes runs
  | incomingFromTun ethertype message => exact incomingFromTun_routes routes clears runs
  | handleOutgoing address version message => exact (handleOutgoing_sameRouting runs).routes routes
  | sendToNode nodeIp6Addr nodeKey message => exact (sendToNode_sameRouting runs).routes routes

variable {depth : ℕ} {running next : Running} {event : Event} {stack rest : List Frame}

/-- What a step does to packets, where no next hop is left over from an earlier one -/
theorem step_routes (clears : LeavesNothing setting context.router event)
    (forwardTo : context.forwardTo = none)
    (steps : step setting depth moment context stack event = some (after, rest)) :
    after.forwardTo = none ∧ ∀ destinationAddr nextHop,
      .routed destinationAddr nextHop ∈ after.deeds →
        nextHop = context.router.lookup destinationAddr := by
  cases event with
  | called call =>
      rcases Option.map_eq_some_iff.mp steps with ⟨ran, runs, same⟩
      have routes : Routes context.router.lookup ran := by
        refine run_routes ?_ ?_ runs
        · exact clears
        · exact ⟨forwardTo, rfl, by simp⟩
      split at same
      · cases same
        exact ⟨routes.forwardTo, routes.routed⟩
      · cases same
        exact ⟨routes.forwardTo, routes.routed⟩
  | returned =>
      simp only [step] at steps
      split at steps
      · cases steps
        exact ⟨forwardTo, by simp [Frame.finish]⟩
      · cases steps
  | cleanup =>
      simp only [step] at steps
      split at steps
      · cases steps
        exact ⟨forwardTo, by simp⟩
      · cases steps
  | learned router =>
      cases steps
      exact ⟨forwardTo, by simp⟩

/-- A run in which no packet of this node's own leaves its next hop behind -/
def LeavesNothingIn (setting : Setting) (running : Running) (event : Moment × Event) : Prop :=
  LeavesNothing setting running.context.router event.2

/--
As long as no packet of this node's own leaves its next hop behind, every packet that
`core` forwards goes to the node that the table has for its destination, or nowhere
if there is none.
-/
theorem transit_follows_table
    (reachable : (runs setting depth).Reachable (LeavesNothingIn setting) running)
    (clears : LeavesNothing setting running.context.router event)
    (steps : running.next setting depth moment event = some next)
    {destinationAddr : List (BitVec 8)} {nextHop : Option ℕ}
    (routed : .routed destinationAddr nextHop ∈ next.context.deeds) :
    nextHop = running.context.router.lookup destinationAddr := by
  have preserved : (runs setting depth).IsInvariant (LeavesNothingIn setting)
      fun running => running.context.forwardTo = none := by
    refine ⟨?_, ?_⟩
    · rintro _ ⟨rand, router, rfl⟩
      rfl
    · rintro before ⟨moment, event⟩ after forwardTo clears steps
      exact (step_routes clears forwardTo (next_eq_some steps).1).1
  exact (step_routes clears (reachable.invariant preserved) (next_eq_some steps).1).2
    destinationAddr nextHop routed

/-! ## A next hop that is left behind -/

/-- This node has sent a packet to the node 1. -/
def sentDirectly : Running :=
  (started.next quietSetting 1 firstMoment (.called (.incomingFromTun Ethernet_TYPE_IP6
    ((plainHeader 0 1).toBytes ++ [1])))).getD started

/-- The switch has returned. -/
def sentAndReturned : Running :=
  (sentDirectly.next quietSetting 1 firstMoment .returned).getD started

/-- The node 2 has sent a packet for the node 3. -/
def transitForwarded : Running :=
  (sentAndReturned.next quietSetting 1 firstMoment (.called (.incomingFromSwitch plainSwitchHeader 0
    (helloFrom 2 ((plainHeader 2 3).toBytes ++ [1]))))).getD started

theorem sentAndReturned_reachable :
    (runs quietSetting 1).Reachable (fun _ _ => True) sentAndReturned := by
  have initial : (runs quietSetting 1).initial started := ⟨_, _, rfl⟩
  have sent : (runs quietSetting 1).step started (firstMoment, .called (.incomingFromTun
      Ethernet_TYPE_IP6 ((plainHeader 0 1).toBytes ++ [1]))) sentDirectly :=
    eq_some_getD started (by decide +kernel)
  have returned : (runs quietSetting 1).step sentDirectly (firstMoment, .returned)
      sentAndReturned := eq_some_getD started (by decide +kernel)
  exact .step (.step (.initial initial) trivial sent) trivial returned

/-- The deed is the choice of this next hop. -/
def Deed.isRouted (destinationAddr : List (BitVec 8)) (nextHop : Option ℕ) : Deed → Bool
  | .routed destination hop => destination = destinationAddr && hop = nextHop
  | _ => false

theorem routed_mem {deeds : List Deed} {destinationAddr : List (BitVec 8)} {nextHop : Option ℕ}
    (there : deeds.any (Deed.isRouted destinationAddr nextHop) = true) :
    .routed destinationAddr nextHop ∈ deeds := by
  rcases List.any_eq_true.mp there with ⟨deed, inside, same⟩
  cases deed with
  | routed destination hop =>
      simp only [Deed.isRouted, Bool.and_eq_true, decide_eq_true_eq] at same
      rw [← same.1, ← same.2]
      exact inside
  | _ => cases same

/-- A packet of the node 2 to the node 3 goes to the node 1. -/
theorem transit_goes_astray :
    ¬ ∀ (setting : Setting) (depth : ℕ) (running next : Running) (moment : Moment)
        (switchHeader : SwitchHeader) (handle_be : BitVec 32) (packet : Packet)
        (destinationAddr : List (BitVec 8)) (nextHop : Option ℕ),
      (runs setting depth).Reachable (fun _ _ => True) running →
      running.next setting depth moment
        (.called (.incomingFromSwitch switchHeader handle_be packet)) = some next →
      .routed destinationAddr nextHop ∈ next.context.deeds →
      nextHop = running.context.router.lookup destinationAddr := by
  intro claimed
  have forwarded : sentAndReturned.next quietSetting 1 firstMoment (.called (.incomingFromSwitch
      plainSwitchHeader 0 (helloFrom 2 ((plainHeader 2 3).toBytes ++ [1])))) =
        some transitForwarded := eq_some_getD started (by decide +kernel)
  have routed : .routed (addressOf 3) (some 1) ∈ transitForwarded.context.deeds :=
    routed_mem (by decide +kernel)
  have same := claimed _ _ _ _ _ _ _ _ _ _ sentAndReturned_reachable forwarded routed
  exact absurd same (by decide +kernel)

/-- This node has sent a packet to the node 3, through the node 2. -/
def sentThrough : Running :=
  (started.next quietSetting 1 firstMoment (.called (.incomingFromTun Ethernet_TYPE_IP6
    ((plainHeader 0 3).toBytes ++ [1])))).getD started

/-- The node 2 has sent a packet for the node 1. -/
def transitFollowed : Running :=
  (sentThrough.next quietSetting 1 firstMoment (.called (.incomingFromSwitch plainSwitchHeader 0
    (helloFrom 2 ((plainHeader 2 1).toBytes ++ [1]))))).getD started

theorem sentThrough_reachable :
    (runs quietSetting 1).Reachable (LeavesNothingIn quietSetting) sentThrough := by
  have initial : (runs quietSetting 1).initial started := ⟨_, _, rfl⟩
  have sent : (runs quietSetting 1).step started (firstMoment, .called (.incomingFromTun
      Ethernet_TYPE_IP6 ((plainHeader 0 3).toBytes ++ [1]))) sentThrough :=
    eq_some_getD started (by decide +kernel)
  refine .step (.initial initial) ?_ sent
  intro _ index found
  have second : started.context.router.lookup
      (IP6Header.ofBytes ((plainHeader 0 3).toBytes ++ [1])).destinationAddr = some 2 := by
    decide +kernel
  rcases Option.some.inj (second.symm.trans found) with rfl
  decide +kernel

theorem transit_follows_table_sentThrough :
    some 1 = sentThrough.context.router.lookup (addressOf 1) := by
  have forwarded : sentThrough.next quietSetting 1 firstMoment (.called (.incomingFromSwitch
      plainSwitchHeader 0 (helloFrom 2 ((plainHeader 2 1).toBytes ++ [1])))) =
        some transitFollowed := eq_some_getD started (by decide +kernel)
  have routed : .routed (addressOf 1) (some 1) ∈ transitFollowed.context.deeds :=
    routed_mem (by decide +kernel)
  refine transit_follows_table sentThrough_reachable ?_ forwarded routed
  exact trivial

end Ducttape

end Cjdns
