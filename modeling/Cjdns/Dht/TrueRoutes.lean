import Cjdns.Dht.KeptAddresses
import Cjdns.Dht.Mesh

/-!
# True routes

Every address in the table of a router of a mesh is a route that leads to the node with its key. The
one who asks is found back over the way that its query came, and what it is told lies behind the one
who tells.
-/

namespace Cjdns

open NumberCompress (INTERFACES)
open CJDHTConstants

variable [AddressCalc]

/-! ## Messages between honest routers -/

/-- There is room for the label of an address as it is told to the one who asks. -/
def Address.Fits (asking addr : Address) : Prop :=
  Bits.log2x64 addr.path +
    (NumberCompress.bitsUsedForLabel asking.path - NumberCompress.bitsUsedForLabel addr.path) < 64

/-- A message that a router sends to where a property of addresses holds: a request, or a reply that
tells only nodes that the property holds of. -/
inductive Letter.Honest (property : Address → Prop) : Letter → Prop where
  | request {address : Address} {queryType txid : BString} {target : Option (BitVec 128)}
      (given : property address) (named : queryType.length ≤ 2) (numbered : txid.length ≤ 8) :
      Honest property
        { label := address.path
          content := (RouterModule.sendRequest queryType txid target TARGET).contents }
  | reply {asking : Address} {content : BString} {dictionary : Dict} (given : property asking)
      (reads : ∀ erange behind, SerializationModule.handleIncoming erange behind
        (DHTMessage.received content) = some dictionary)
      (plain : dictionary.getString QUERY = none)
      (tells : ∀ nodes, dictionary.getString NODES = some nodes → ∃ nodeList,
        nodes = RouterModule.replyNodes asking nodeList ∧
          ∀ node ∈ nodeList, property node.address ∧ asking.Fits node.address) :
      Honest property { label := asking.path, content := content }

variable {property : Address → Prop} {queryType txid : BString}
  {searchTarget : Option (BitVec 128)} {query dictionary : Dict} {responder : Responder}
  {asking addr : Address} {fuel : ℕ} {message : DHTMessage}

/-- What a router replies to a request, if it is not stopped -/
theorem reply_cases (asks : RouterModule.Asks queryType txid searchTarget query)
    (reply : ReplyModule.replyDict fuel responder asking query = some dictionary) :
    (dictionary = replyBase txid ∨ dictionary = replyPong txid responder.gitVersion.toList) ∨
      ∃ store target versionsStr,
        (responder.nodeStore.addNode asking 1 (RouterModule.queryVersion query)).nodeStore =
            some store ∧
          searchTarget = some target ∧ versionsStr.length ≤ 53 ∧
            dictionary = replyTelling txid (RouterModule.replyNodes asking
              (RouterModule.closestNodes responder asking target store)) versionsStr := by
  rw [replyDict_of_asks asks, RouterModule.handleQuery] at reply
  rcases Option.bind_eq_some_iff.mp reply with ⟨store, added, answer⟩
  rw [queryTarget_of_asks asks] at answer
  cases searchTarget with
  | none =>
      cases answer
      exact .inl (.inr rfl)
  | some target =>
      have aimed : bigEndian 128 (bigEndianBytes 16 target) = target :=
        bigEndian_bigEndianBytes 16 target target.isLt
      dsimp only [Option.map_some] at answer
      rw [aimed, queryVersion_of_asks asks] at answer
      change (if (RouterModule.closestNodes responder asking target store).isEmpty then _ else _) =
        _ at answer
      split_ifs at answer with nothing
      · cases answer
        exact .inl (.inl rfl)
      · rcases Option.map_eq_some_iff.mp answer with ⟨versionsStr, written, rfl⟩
        have few := (NodeStore.getClosestNodes_answers store
          { responder.stackAddr with ip6 := target } asking (Searcher.K + 5) false
          Version.CURRENT_PROTOCOL).atMost
        exact .inr ⟨store, target, versionsStr, added, rfl, length_versionsStr_le few written, rfl⟩

omit [AddressCalc] in
/-- What is read of a dictionary as it was written, and as it is read back -/
theorem Letter.Honest.of_dictionary {size : ℕ} (given : property asking)
    (ascending : dictionary.Ascending) (modest : Modest size dictionary)
    (small : size < DHTMessage.MAX_SIZE) (plain : dictionary.getString QUERY = none)
    (tells : ∀ nodes, dictionary.getString NODES = some nodes → ∃ nodeList,
      nodes = RouterModule.replyNodes asking nodeList ∧
        ∀ node ∈ nodeList, property node.address ∧ asking.Fits node.address) :
    Letter.Honest property
      { label := asking.path
        content := (SerializationModule.handleOutgoing (List.replicate DHTMessage.MAX_SIZE 0)
          dictionary).contents } := by
  refine .reply given (handleIncoming_handleOutgoing (modest.fits small) modest.plain) ?_ ?_
  · rwa [Dict.getString_mirror ascending.nodup]
  · rwa [Dict.getString_mirror ascending.nodup]

/-- What a router replies to a request is honest, if all labels that it tells have room. -/
theorem honest_reply (lasting : Address.Lasting property)
    (asks : RouterModule.Asks queryType txid searchTarget query) (numbered : txid.length ≤ 8)
    (given : property asking) (table : responder.nodeStore.Holds property)
    (spacious : ∀ store target,
      (responder.nodeStore.addNode asking 1 (RouterModule.queryVersion query)).nodeStore =
          some store → searchTarget = some target →
        ∀ node ∈ RouterModule.closestNodes responder asking target store,
          asking.Fits node.address)
    (reply : ReplyModule.handleIncoming false fuel responder asking query = some message) :
    Letter.Honest property { label := asking.path, content := message.contents } := by
  rw [ReplyModule.handleIncoming, if_neg Bool.false_ne_true] at reply
  rcases Option.map_eq_some_iff.mp reply with ⟨dictionary, replies, rfl⟩
  rcases reply_cases asks replies with
    (rfl | rfl) | ⟨store, target, versionsStr, added, aimed, short, rfl⟩
  · refine .of_dictionary given ascending_replyBase (modest_replyBase numbered) (by decide)
      (getString_replyBase_of_ne (by decide) (by decide)) fun nodes told => ?_
    rw [getString_replyBase_of_ne (by decide) (by decide)] at told
    cases told
  · refine .of_dictionary given ascending_replyPong
      (modest_replyPong numbered responder.gitVersion.toList_length) (by decide) ?_
      fun nodes told => ?_
    · rw [replyPong, Dict.getString_putObject_of_ne (by decide),
        getString_replyBase_of_ne (by decide) (by decide)]
    · rw [replyPong, Dict.getString_putObject_of_ne (by decide),
        getString_replyBase_of_ne (by decide) (by decide)] at told
      cases told
  · have few := (NodeStore.getClosestNodes_answers store
      { responder.stackAddr with ip6 := target } asking (Searcher.K + 5) false
      Version.CURRENT_PROTOCOL).atMost
    have nodes : (RouterModule.replyNodes asking
        (RouterModule.closestNodes responder asking target store)).length ≤ 520 := by
      rw [length_replyNodes]
      exact Nat.mul_le_mul_right 40 few
    refine .of_dictionary given ascending_replyTelling (modest_replyTelling numbered nodes short)
      (by decide) ?_ fun nodes told => ?_
    · rw [replyTelling, Dict.getString_putObject_of_ne (by decide),
        Dict.getString_putObject_of_ne (by decide),
        getString_replyBase_of_ne (by decide) (by decide)]
    · rw [replyTelling, Dict.getString_putObject_of_ne (by decide),
        Dict.getString_putObject_self] at told
      have after := table.addNode (lasting.resolved given) added
      exact ⟨_, (Option.some.inj told).symm, fun node inside =>
        ⟨after.getClosestNodes inside, spacious store target added aimed node inside⟩⟩

/-! ## One router -/

/-- What an occasion brings to a router: a peer that the property holds of, or an honest message over
a path that it holds of -/
def Searcher.Occasion.Meets (property : Address → Prop) : Searcher.Occasion → Prop
  | .peer _ _ _ key ifIndex _ =>
      property { ip6 := 0, key := key, path := SwitchCore.switchLabel ifIndex }
  | .incoming surroundings addr content =>
      property addr ∧ ∀ asDict, SerializationModule.handleIncoming surroundings.erange
          surroundings.behind (DHTMessage.received content) = some asDict →
        (∃ queryType txid target, txid.length ≤ 8 ∧
          RouterModule.Asks queryType txid target asDict) ∨
        asDict.getString QUERY = none ∧ Searcher.Tells property (.ofDict addr asDict)
  | _ => True

/-- All labels that a router tells on an occasion have room. -/
def Searcher.Spacious (searcher : Searcher) : Searcher.Occasion → Prop
  | .incoming surroundings addr content =>
      ∀ asDict target store, SerializationModule.handleIncoming surroundings.erange
          surroundings.behind (DHTMessage.received content) = some asDict →
        RouterModule.queryTarget asDict = some target →
        (searcher.routerModule.nodeStore.addNode addr 1
          (RouterModule.queryVersion asDict)).nodeStore = some store →
        ∀ node ∈ store.getClosestNodes
            { surroundings.stackAddr with ip6 := bigEndian 128 target } (some addr)
            (Searcher.K + 5) false (RouterModule.queryVersion asDict),
          addr.Fits node.address
  | _ => True

variable {searcher later : Searcher} {letters : List Letter} {outputs : List Searcher.SearchOutput}
  {occasion : Searcher.Occasion} {gitVersion : List.Vector (BitVec 8) 20}

omit [AddressCalc] in
theorem honest_letters (sends : Searcher.Sends property outputs) :
    ∀ letter ∈ Searcher.letters outputs, letter.Honest property := by
  intro letter inside
  rcases List.mem_filterMap.mp inside with ⟨output, sent, made⟩
  cases output with
  | request address txid target =>
      cases made
      rcases sends address txid target sent with ⟨given, numbered⟩
      exact .request given le_rfl numbered
  | result => cases made
  | finished => cases made

theorem honest_pingNode {chance : RouterModule.Chance} {position : ℕ} {node : Node}
    {adminTxid : Option (List (BitVec 8))} {routerModule after : RouterModule}
    {request : RouterModule.Request} (given : property node.address)
    (pings : RouterModule.pingNode chance position node adminTxid routerModule =
      some (after, request)) :
    after.nodeStore = routerModule.nodeStore ∧ request.letter.Honest property := by
  rcases Option.map_eq_some_iff.mp pings with ⟨index, -, results⟩
  rw [Prod.mk.injEq] at results
  rcases results with ⟨rfl, rfl⟩
  exact ⟨rfl, @Letter.Honest.request property node.address QUERY_PING
    [0x70, BitVec.ofNat 8 index] none given le_rfl (by simp)⟩

theorem holds_addNode {chance : RouterModule.Chance} {stackKey : BitVec 256}
    {stackPath : BitVec 64} {version : BitVec 32} {routerModule after : RouterModule}
    (lasting : Address.Lasting property) (table : routerModule.nodeStore.Holds property)
    (given : property addr)
    (adds : routerModule.addNode chance stackKey stackPath addr version = some (after, letters)) :
    after.nodeStore.Holds property ∧ ∀ letter ∈ letters, letter.Honest property := by
  rcases Option.map_eq_some_iff.mp adds with ⟨nodeStore, added, results⟩
  have kept := table.addNode (lasting.resolved (lasting.resolved given)) added
  have silent : ∀ letter ∈ ([] : List Letter), letter.Honest property := by simp
  cases best : nodeStore.lookup addr.resolved.ip6 stackKey stackPath with
  | none =>
      simp only [best, Prod.mk.injEq] at results
      rcases results with ⟨rfl, rfl⟩
      exact ⟨kept, silent⟩
  | some node =>
      simp only [best] at results
      split_ifs at results with same
      · rw [Prod.mk.injEq] at results
        rcases results with ⟨rfl, rfl⟩
        exact ⟨kept, silent⟩
      · split at results
        · rw [Prod.mk.injEq] at results
          rcases results with ⟨rfl, rfl⟩
          exact ⟨kept, silent⟩
        · next pinging request pings =>
            rw [Prod.mk.injEq] at results
            rcases results with ⟨rfl, rfl⟩
            rcases honest_pingNode (kept.getBest best).1 pings with ⟨same, honest⟩
            exact ⟨same ▸ kept, List.forall_mem_singleton.mpr honest⟩

theorem holds_incomingDHT {surroundings : Surroundings} {content : BString}
    (lasting : Address.Lasting property) (holds : searcher.Holds property)
    (meets : (Searcher.Occasion.incoming surroundings addr content).Meets property)
    (spacious : searcher.Spacious (.incoming surroundings addr content))
    (served : searcher.incomingDHT surroundings gitVersion addr content = some (later, letters)) :
    later.Holds property ∧ ∀ letter ∈ letters, letter.Honest property := by
  rcases meets with ⟨given, reads⟩
  rcases Option.bind_eq_some_iff.mp served with ⟨asDict, read, result⟩
  have spacious := fun target store => spacious asDict target store read
  rcases reads asDict read with ⟨queryType, txid, target, numbered, asks⟩ | ⟨plain, tells⟩
  · rw [asks.type, if_neg (by simp)] at result
    rcases Option.bind_eq_some_iff.mp result with ⟨store, added, replied⟩
    rcases Option.map_eq_some_iff.mp replied with ⟨reply, handled, same⟩
    rw [Prod.mk.injEq] at same
    rcases same with ⟨rfl, rfl⟩
    have after : store.Holds property := holds.table.addNode (lasting.resolved given) added
    refine ⟨holds.withNodeStore after, List.forall_mem_singleton.mpr ?_⟩
    refine honest_reply lasting asks numbered given holds.table ?_ handled
    rintro other aim added rfl node inside
    have aimed : bigEndian 128 (bigEndianBytes 16 aim) = aim :=
      bigEndian_bigEndianBytes 16 aim aim.isLt
    refine spacious (bigEndianBytes 16 aim) other (queryTarget_of_asks asks) added node ?_
    rw [aimed, queryVersion_of_asks asks]
    exact inside
  · rw [plain, Option.isNone_none, if_pos rfl] at result
    cases handles : Searcher.handleReply surroundings.chance (.ofDict addr asDict) searcher with
    | error fault =>
        rw [handles] at result
        cases result
    | ok replied =>
        rw [handles, Option.some.injEq, Prod.mk.injEq] at result
        rcases result with ⟨rfl, rfl⟩
        rcases holds.handleReply lasting given tells handles with ⟨kept, advances⟩
        refine ⟨kept, honest_letters ?_⟩
        cases advanced : replied.advanced with
        | none =>
            intro address txid target impossible
            cases impossible
        | some advance => exact advances advance.1 advance.2 advanced

/-- A router that is served honestly keeps the property, and sends only honest messages. -/
theorem holds_serve (lasting : Address.Lasting property) (holds : searcher.Holds property)
    (meets : occasion.Meets property) (spacious : searcher.Spacious occasion)
    (served : searcher.serve gitVersion occasion = some (later, letters)) :
    later.Holds property ∧ ∀ letter ∈ letters, letter.Honest property := by
  have silent : ∀ letter ∈ ([] : List Letter), letter.Honest property := by simp
  cases occasion with
  | peer chance stackKey stackPath key ifIndex version =>
      rcases Option.map_eq_some_iff.mp served with ⟨added, adds, same⟩
      rw [Prod.mk.injEq] at same
      rcases same with ⟨rfl, rfl⟩
      rcases holds_addNode lasting holds.table meets adds with ⟨table, honest⟩
      exact ⟨⟨table, holds.stacked⟩, honest⟩
  | broken path =>
      cases served
      exact ⟨holds.withNodeStore (holds.table.brokenPath path), silent⟩
  | ping chance position txid =>
      rcases Option.bind_eq_some_iff.mp served with ⟨entry, found, pinged⟩
      rcases Option.map_eq_some_iff.mp pinged with ⟨⟨pinging, request⟩, pings, same⟩
      rw [Prod.mk.injEq] at same
      rcases same with ⟨rfl, rfl⟩
      have given := holds.table.entry (List.mem_of_getElem? found)
      rcases honest_pingNode given pings with ⟨same, honest⟩
      exact ⟨⟨same ▸ holds.table, holds.stacked⟩, List.forall_mem_singleton.mpr honest⟩
  | pingTimeout chance index =>
      rcases Option.map_eq_some_iff.mp served with ⟨ping, present, same⟩
      rw [Prod.mk.injEq] at same
      rcases same with ⟨rfl, rfl⟩
      refine ⟨⟨?_, holds.stacked⟩, silent⟩
      change (RouterModule.punish ping.node searcher.routerModule.nodeStore).Holds property
      rw [RouterModule.punish]
      split
      · split_ifs
        · exact holds.table.updateReach _ _
        · exact holds.table
      · exact holds.table
  | begin chance id target hasCallback =>
      rw [Searcher.serve] at served
      split at served
      · cases served
      · cases served
        exact ⟨holds, silent⟩
      · next begun outputs begins =>
          cases served
          rcases holds.beginSearch begins with ⟨kept, sends⟩
          exact ⟨kept, honest_letters sends⟩
  | searchTimeout chance slot =>
      rcases Option.map_eq_some_iff.mp served with ⟨search, occupied, same⟩
      rw [Prod.mk.injEq] at same
      rcases same with ⟨rfl, rfl⟩
      rcases holds.searchRequestTimeout lasting occupied with ⟨kept, sends⟩
      exact ⟨kept, honest_letters sends⟩
  | incoming surroundings addr content =>
      exact holds_incomingDHT lasting holds meets spacious served

/-! ## Routes -/

namespace Mesh

open Searcher (SERIALIZED_SIZE hear)

variable {Node : Type*} {mesh : Mesh Node} {router sender receiver other : Node}
  {directions turns : Directions} {turn : Turn} {back : BitVec 64} {own given : Address}

/-- The address is that of a node, over directions that lead there. -/
structure Leads (mesh : Mesh Node) (router other : Node) (directions : Directions)
    (addr : Address) : Prop where
  key_eq : addr.key = mesh.key other
  ip6_eq : addr.resolved.ip6 = AddressCalc.addressForPublicKey (mesh.key other)
  path_eq : addr.path = directions.label
  room : directions.bits < 64
  walks : ∃ entry turns, mesh.Walk router directions other entry turns

/-- The address is that of a node that its path leads to. -/
def IsRoute (mesh : Mesh Node) (router : Node) (addr : Address) : Prop :=
  ∃ other directions, mesh.Leads router other directions addr

theorem lasting_isRoute (router : Node) : Address.Lasting (mesh.IsRoute router) where
  resolved := by
    rintro addr ⟨other, directions, leads⟩
    exact ⟨other, directions, by rw [Address.resolved_key, leads.key_eq],
      by rw [Address.resolved_resolved, leads.ip6_eq], by rw [Address.resolved_path, leads.path_eq],
      leads.room, leads.walks⟩
  exchanged := by
    rintro addr second ⟨other, directions, leads⟩ ⟨another, others, further⟩ filled filled' same
    have ip6 := leads.ip6_eq
    have ip6' := further.ip6_eq
    rw [filled] at ip6
    rw [filled', same, ip6] at ip6'
    obtain rfl := mesh.apart ip6'
    refine ⟨other, others, leads.key_eq, ?_, further.path_eq, further.room, further.walks⟩
    have kept : ({ addr with path := second.path } : Address).resolved.ip6 = addr.resolved.ip6 := by
      rw [Address.resolved, Address.resolved]
      split_ifs <;> rfl
    rw [kept, leads.ip6_eq]

omit [AddressCalc] in
theorem label_switchLabel (ifIndex : Fin INTERFACES) (peer : ifIndex ≠ 1) :
    SwitchCore.switchLabel ifIndex = Directions.label [Turn.narrow ifIndex peer] := by
  rw [Directions.label_cons, BitVec.or_comm]
  rfl

/-- A peer is found over its interface. -/
theorem isRoute_peer {ifIndex entry : Fin INTERFACES}
    (linked : mesh.link router ifIndex = some (other, entry)) :
    mesh.IsRoute router
      { ip6 := 0, key := mesh.key other, path := SwitchCore.switchLabel ifIndex } := by
  have peer : ifIndex ≠ 1 := Network.exit_ne_router linked
  have narrow := (Turn.narrow ifIndex peer).bits_le_ten
  refine ⟨other, [Turn.narrow ifIndex peer], rfl, by rw [Address.resolved, if_pos rfl],
    label_switchLabel ifIndex peer, ?_, entry, [], .first linked⟩
  rw [Directions.bits, Directions.bits]
  omega

/-- A packet that is brought over directions has walked them, and the way back is read off its
label. -/
theorem walk_of_brings (brings : mesh.Brings sender (Directions.label (turn :: directions)) receiver
      back) (room : Directions.bits (turn :: directions) < 64) :
    ∃ source turns, back = Directions.label (source :: turns) ∧
      Directions.bits (source :: turns) < 64 ∧
        mesh.Walk sender (turn :: directions) receiver source.exit turns := by
  rcases brings with
    ⟨packet, hops, consumed, stop, send, handed, label, travels, rfl, forwards, rfl⟩
  rcases travels.midway_of_router label room with rfl | ⟨behind, left, turns, whole, midway⟩
  · have starts : Word.low turn.bits (Headers.messageLabel packet) = _ :=
      label ▸ Directions.low_label turn directions
    exact absurd (Network.exchange_of_starts starts forwards).1.symm turn.peer
  · rcases midway.handed (whole ▸ room) forwards with ⟨rfl, source, here, small, written⟩
    rw [List.append_nil] at whole
    subst whole
    exact ⟨source, turns, written, small, here ▸ midway.walk⟩

/-! ## What is brought -/

theorem leads_forKey {entry : Fin INTERFACES} (room : directions.bits < 64)
    (walk : mesh.Walk router directions other entry turns) :
    mesh.Leads router other directions (Address.forKey (mesh.key other) directions.label) where
  key_eq := rfl
  ip6_eq := by
    rw [Address.resolved, Address.forKey]
    split_ifs <;> rfl
  path_eq := rfl
  room := room
  walks := ⟨entry, turns, walk⟩

theorem Leads.exists_cons (leads : mesh.Leads router other directions addr) :
    ∃ first rest, directions = first :: rest := by
  rcases leads.walks with ⟨entry, turns, walk⟩
  rcases walk.bits_back with ⟨first, head, -⟩
  exact List.exists_cons_of_ne_nil (by rintro rfl; cases head)

/-- Whoever gets a message reads the way back to its sender off its label. -/
theorem Leads.home (leads : mesh.Leads sender other directions addr)
    (brings : mesh.Brings sender addr.path receiver back) :
    ∃ first rest source turns, directions = first :: rest ∧
      back = Directions.label (source :: turns) ∧ Directions.bits (source :: turns) < 64 ∧
        mesh.Walk receiver (source :: turns) sender first.exit rest := by
  rcases leads.exists_cons with ⟨turn, onward, rfl⟩
  rw [leads.path_eq] at brings
  rcases walk_of_brings brings leads.room with ⟨source, turns, same, room, walk⟩
  rcases walk.reverse rfl with ⟨first, rest, split, home⟩
  exact ⟨first, rest, source, turns, split, same, room, home⟩

theorem isRoute_sender (route : mesh.IsRoute sender given)
    (brings : mesh.Brings sender given.path receiver back) :
    mesh.IsRoute receiver (Address.forKey (mesh.key sender) back) := by
  rcases route with ⟨other, directions, leads⟩
  rcases leads.home brings with ⟨first, rest, source, turns, -, rfl, room, home⟩
  exact ⟨sender, _, leads_forKey room home⟩

/-- What the sender of a reply tells lies behind the sender. -/
theorem isRoute_toldAs {node : Cjdns.Node} (route : mesh.IsRoute sender given)
    (brings : mesh.Brings sender given.path receiver back)
    (told : mesh.IsRoute sender node.address) (fits : given.Fits node.address)
    (spliced : LabelSplicer.splice (toldAs given node).path back ≠ BitVec.allOnes 64) :
    mesh.IsRoute receiver (Address.forKey node.address.key
      (LabelSplicer.splice (toldAs given node).path back)) := by
  rcases route with ⟨other, directions, leads⟩
  rcases leads.home brings with ⟨first, rest, source, turns, rfl, rfl, room, home⟩
  rcases told with ⟨another, onward, further⟩
  rcases further.exists_cons with ⟨turn, more, rfl⟩
  have wide : Directions.bits (turn.widen first :: more) < 64 := by
    rw [Address.Fits, further.path_eq, leads.path_eq, Directions.log2x64_label further.room,
      (Directions.decode_label first rest).1, (Directions.decode_label turn more).1,
      Directions.bits] at fits
    have width : (turn.widen first).bits = max turn.bits first.bits := rfl
    rw [Directions.bits, width]
    omega
  have path : (toldAs given node).path = Directions.label (turn.widen first :: more) := by
    rw [← Directions.getLabelFor_label wide, ← leads.path_eq, ← further.path_eq]
    rfl
  rw [path] at spliced ⊢
  rcases Directions.splice_label_cases room wide with none | ⟨short, same⟩
  · exact absurd none spliced
  · rcases further.walks with ⟨entry, passed, walk⟩
    -- The packet is written into in the width of the turn that it takes behind the sender.
    have through : mesh.Walk receiver (source :: turns) sender (first.widen turn).exit rest := home
    rw [same, further.key_eq]
    refine ⟨another, _, leads_forKey ?_ (through.append walk rfl (max_comm _ _))⟩
    rw [Directions.bits_append]
    omega

theorem tells_of_brings {dictionary : Dict} (route : mesh.IsRoute sender given)
    (brings : mesh.Brings sender given.path receiver back)
    (tells : ∀ nodes, dictionary.getString NODES = some nodes → ∃ nodeList,
      nodes = RouterModule.replyNodes given nodeList ∧
        ∀ node ∈ nodeList, mesh.IsRoute sender node.address ∧ given.Fits node.address) :
    Searcher.Tells (mesh.IsRoute receiver)
      (.ofDict (Address.forKey (mesh.key sender) back) dictionary) := by
  rintro own nodes i addr has ⟨index, rfl⟩ inside hears
  rcases tells nodes has with ⟨nodeList, rfl, honest⟩
  have found := List.getElem?_eq_getElem (lt_length_replyNodes_iff.mp inside)
  rcases honest _ (List.mem_of_getElem? found) with ⟨told, fits⟩
  rw [hear_replyNodes found, Except.ok.injEq, meant] at hears
  split_ifs at hears with again mine long valid
  rw [Searcher.Heard.told.injEq] at hears
  exact hears ▸ isRoute_toldAs route brings told fits long

/-- What the network brings to a router is honest there if it was where it was sent. -/
theorem meets_of_admits {state : State Node} {occasion : Searcher.Occasion}
    (honest : ∀ sender letter, (sender, letter) ∈ state.sent →
      letter.Honest (mesh.IsRoute sender))
    (admits : mesh.Admits state receiver occasion) : occasion.Meets (mesh.IsRoute receiver) := by
  cases occasion with
  | peer chance stackKey stackPath key ifIndex version =>
      rcases admits with ⟨other, entry, linked, rfl⟩
      exact isRoute_peer linked
  | incoming surroundings addr content =>
      rcases admits with ⟨sender, label, path, sent, brings, rfl⟩
      cases honest sender _ sent with
      | request given named numbered =>
          refine ⟨isRoute_sender given brings, fun asDict read => .inl ?_⟩
          rcases RouterModule.asks_of_sendRequest named numbered surroundings.erange
            surroundings.behind with ⟨query, reads, asks⟩
          rw [reads, Option.some.injEq] at read
          exact read ▸ ⟨_, _, _, numbered, asks⟩
      | reply given reads plain tells =>
          refine ⟨isRoute_sender given brings, fun asDict read => .inr ?_⟩
          rw [reads, Option.some.injEq] at read
          exact read ▸ ⟨plain, tells_of_brings given brings tells⟩
  | broken path => trivial
  | ping chance position txid => trivial
  | pingTimeout chance index => trivial
  | begin chance id target hasCallback => trivial
  | searchTimeout chance slot => trivial

end Mesh

end Cjdns
