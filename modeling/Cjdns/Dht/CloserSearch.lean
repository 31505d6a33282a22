import Cjdns.Dht.Search
import Cjdns.Dht.SearchOnce
import Cjdns.Library.Comparison

/-!
# Getting closer

The loop of `handleReply` puts nodes on the stack of a search. An entry of the reply that is not
closer to the target than the sender is passed over, by the prefix and by the whole address. But
what is put on the stack is not the entry: it is what `NodeStore_getBest` finds for it, which is the
next hop on the way there. `searchStep` looks whether that is the same node, the loop does not.
-/

namespace Cjdns

/-- The short cut takes nothing away: `xorcmp` compares the exclusive ors. -/
theorem xorcmp_eq_sign (target one two : BitVec 32) :
    xorcmp target one two =
      Comparison.sign (one ^^^ target).toNat (two ^^^ target).toNat := by
  rw [xorcmp, Comparison.sign]
  simp only [BitVec.lt_def, BitVec.toNat_inj, BitVec.xor_left_inj]
  by_cases equal : one = two
  · rw [if_pos equal, equal, if_neg (lt_irrefl _), if_pos rfl]
  · rw [if_neg equal, if_neg equal]

theorem xorcmp_neg_iff {target one two : BitVec 32} :
    xorcmp target one two < 0 ↔ one ^^^ target < two ^^^ target := by
  rw [xorcmp_eq_sign, Comparison.sign_neg_iff, BitVec.lt_def]

theorem xorcmp_eq_zero_iff {target one two : BitVec 32} :
    xorcmp target one two = 0 ↔ one ^^^ target = two ^^^ target := by
  rw [xorcmp_eq_sign, Comparison.sign_eq_zero_iff, BitVec.toNat_inj]

variable [AddressCalc]

/-- The quarter of an address that begins at a bit -/
def quarter (position : ℕ) (addr : Address) : BitVec 32 :=
  addr.resolved.ip6.extractLsb' position 32

/-- The distance of two addresses in the order of `xorCompare`, which takes the quarters of the
address as they are named in `ip6.ints` -/
def xorDistance (target addr : Address) : BitVec (32 + (32 + (32 + 32))) :=
  let part (position : ℕ) : BitVec 32 := quarter position addr ^^^ quarter position target
  part 32 ++ (part 0 ++ (part 96 ++ part 64))

/-- `xorCompare` tells which of two nodes is closer to the target. -/
theorem xorCompare_neg_iff {target one two : Address} :
    xorCompare target one two < 0 ↔ xorDistance target one < xorDistance target two := by
  simp only [xorCompare, xorDistance, Word.append_lt_append_iff, ← xorcmp_neg_iff,
    ← xorcmp_eq_zero_iff, quarter]
  split_ifs <;> omega

/-- The prefix is the first quarter that is compared. -/
theorem xorDistance_lt_of_first {target one two : Address}
    (closer : one.getPrefix ^^^ target.getPrefix < two.getPrefix ^^^ target.getPrefix) :
    xorDistance target one < xorDistance target two :=
  Word.append_lt_append_iff.mpr (.inl closer)

namespace Searcher

open SearchStore (Search)

/-- The two tests of the loop together come to one. -/
theorem isNoise_iff {reading : Reading} {addr : Address} :
    isNoise reading addr = true ↔
      ¬ xorDistance reading.target addr < xorDistance reading.target reading.parent := by
  rw [isNoise, Bool.and_eq_true, decide_eq_true_eq, decide_eq_true_eq, ge_iff_le, ge_iff_le,
    ← not_lt (b := (0 : ℤ)), xorCompare_neg_iff]
  refine ⟨fun noise => noise.2, fun far => ⟨?_, far⟩⟩
  rw [BitVec.not_lt.symm]
  exact fun closer => far (xorDistance_lt_of_first closer)

/-! ## The loop -/

/-- A place in the list of nodes, and what has been made of the nodes before it -/
structure Progress where
  i : ℕ
  state : Absorbed

/-- The loop of `handleReply`, turn by turn -/
def turns (reading : Reading) (nodeStore : NodeStore) (search : Search) :
    TransitionSystem Progress Unit where
  initial progress :=
    progress = { i := 0, state := { nodeStore := nodeStore, search := search, added := [] } }
  step before _ after :=
    before.i < reading.nodes.length ∧ turn reading before.i before.state = .ok (some after.state) ∧
      after.i = before.i + SERIALIZED_SIZE

/-- The loop is at a place. -/
def Comes (reading : Reading) (nodeStore : NodeStore) (search : Search) (progress : Progress) :
    Prop :=
  (turns reading nodeStore search).Reachable (fun _ _ => True) progress

/-- The address is closer to the target of the search than the sender. -/
def Closer (reading : Reading) (addr : Address) : Prop :=
  xorDistance reading.target addr < xorDistance reading.target reading.parent

/-- Whatever the loop has put on the stack of the search is closer to the target. -/
def OnlyCloser (reading : Reading) (nodeStore : NodeStore) (search : Search) : Prop :=
  ∀ progress, Comes reading nodeStore search progress →
    ∀ addr ∈ progress.state.added, Closer reading addr

/-- An entry that is closer to the target is put into the table, and the next hop to it is another
node, which has not been asked and is not closer to the target. -/
structure Diverted (reading : Reading) (progress : Progress) (addr : Address)
    (nodeStore : NodeStore) (hop : Node) : Prop where
  inside : progress.i < reading.nodes.length
  told : hear reading.own reading.sender reading.nodes progress.i = .ok (.told addr)
  inserted : ∃ version, versionAt reading progress.i = .ok version ∧
    insertTold addr version progress.state.nodeStore = .ok nodeStore
  closer : Closer reading addr
  best : nodeStore.getBest addr = some hop
  other : hop.address.ip6 ≠ addr.ip6
  unasked : SearchStore.alreadyAsked hop.address progress.state.search
    (List.finRange SearchStore.SEARCH_NODES) = false
  farther : ¬ Closer reading hop.address

variable {reading : Reading} {nodeStore : NodeStore} {search : Search} {progress : Progress}
  {addr : Address} {hop : Node}

/-- What a turn does for an entry that is not passed over -/
theorem consider_of_closer {state : Absorbed} (closer : Closer reading addr)
    (unasked : SearchStore.alreadyAsked (candidate addr nodeStore) state.search
      (List.finRange SearchStore.SEARCH_NODES) = false) :
    (consider reading addr nodeStore state).added = candidate addr nodeStore :: state.added := by
  have heard : ¬ isNoise reading addr = true := fun noise => isNoise_iff.mp noise closer
  rw [consider, if_neg heard, SearchStore.addNodeToSearch_eq, if_neg (by rw [unasked]; decide)]

/-- A turn leaves the list as it is, or adds what the table has for an entry that is closer. -/
theorem added_of_consider (reading : Reading) (addr : Address) (nodeStore : NodeStore)
    (state : Absorbed) :
    (consider reading addr nodeStore state).added = state.added ∨
      Closer reading addr ∧
        SearchStore.alreadyAsked (candidate addr nodeStore) state.search
          (List.finRange SearchStore.SEARCH_NODES) = false ∧
        (consider reading addr nodeStore state).added =
          candidate addr nodeStore :: state.added := by
  by_cases noise : isNoise reading addr = true
  · left
    rw [consider, if_pos noise]
  have closer : Closer reading addr := by
    by_contra far
    exact noise (isNoise_iff.mpr far)
  cases asked : SearchStore.alreadyAsked (candidate addr nodeStore) state.search
      (List.finRange SearchStore.SEARCH_NODES) with
  | false => exact .inr ⟨closer, rfl, consider_of_closer closer asked⟩
  | true =>
      left
      rw [consider, if_neg noise, SearchStore.addNodeToSearch_eq, if_pos asked]

/-- A turn takes the loop to the next place. -/
theorem Comes.turn {state : Absorbed} (comes : Comes reading nodeStore search progress)
    (inside : progress.i < reading.nodes.length)
    (taken : turn reading progress.i progress.state = .ok (some state)) :
    Comes reading nodeStore search { i := progress.i + SERIALIZED_SIZE, state := state } := by
  have step : (turns reading nodeStore search).step progress ()
      { i := progress.i + SERIALIZED_SIZE, state := state } := ⟨inside, taken, rfl⟩
  exact .step comes trivial step

/-- What the loop ends with is a place that it comes to. -/
theorem comes_of_absorbLoop {rounds : ℕ} {result : Absorbed}
    (comes : Comes reading nodeStore search progress)
    (ends : absorbLoop reading rounds progress.i progress.state = .ok result) :
    ∃ last, Comes reading nodeStore search last ∧ last.state = result := by
  induction rounds generalizing progress with
  | zero => exact ⟨progress, comes, by simpa [absorbLoop] using ends⟩
  | succ rounds ih =>
      rw [absorbLoop] at ends
      split_ifs at ends with inside
      · rw [Checked.bind_eq_ok] at ends
        rcases ends with ⟨next, taken, ends⟩
        cases next with
        | none => exact ⟨progress, comes, by simpa using ends⟩
        | some state => exact ih (comes.turn inside taken) ends
      · exact ⟨progress, comes, by simpa using ends⟩

/-- What `handleReply` adds for a reply is what its loop comes to. -/
theorem comes_of_absorbReply {reply : SearchReply} {asked : SearchStore.Asked}
    {nodes : List (BitVec 8)} {absorbed : Absorbed}
    (absorbs : absorbReply reply asked nodes nodeStore = .ok absorbed) :
    ∃ versions last,
      Comes (readingOf reply asked nodeStore nodes versions) nodeStore asked.search last ∧
        last.state = absorbed := by
  rw [absorbReply, Checked.bind_eq_ok] at absorbs
  rcases absorbs with ⟨versions, -, ends⟩
  rcases comes_of_absorbLoop (.initial rfl) ends with ⟨last, comes, same⟩
  exact ⟨versions, last, comes, same⟩

/-- A turn that is taken goes through one of the branches. -/
theorem turn_eq_ok_some {i : ℕ} {state next : Absorbed}
    (taken : turn reading i state = .ok (some next)) :
    next.added = state.added ∨
      ∃ addr version nodeStore,
        hear reading.own reading.sender reading.nodes i = .ok (.told addr) ∧
          versionAt reading i = .ok version ∧
          insertTold addr version state.nodeStore = .ok nodeStore ∧
          next = consider reading addr nodeStore state := by
  rw [turn, Checked.bind_eq_ok] at taken
  rcases taken with ⟨heard, hears, taken⟩
  cases heard with
  | skipped =>
      simp only [Except.ok.injEq, Option.some.injEq] at taken
      exact .inl (congrArg Absorbed.added taken.symm)
  | looped path =>
      simp only [Except.ok.injEq, Option.some.injEq] at taken
      rw [← taken]
      exact .inl rfl
  | garbage => simp at taken
  | told addr =>
      simp only [Checked.bind_eq_ok] at taken
      rcases taken with ⟨version, reads, nodeStore, inserts, taken⟩
      simp only [Except.ok.injEq, Option.some.injEq] at taken
      exact .inr ⟨addr, version, nodeStore, hears, reads, inserts, taken.symm⟩

/-- What a node is told of has an address. -/
theorem ne_zero_of_told {own sender : Address} {nodes : List (BitVec 8)} {i : ℕ}
    (told : hear own sender nodes i = .ok (.told addr)) : addr.ip6 ≠ 0 := by
  rw [hear, Checked.bind_eq_ok] at told
  rcases told with ⟨duplicate, -, told⟩
  cases duplicate with
  | true => simp at told
  | false =>
      rw [if_neg Bool.false_ne_true, Checked.bind_eq_ok] at told
      rcases told with ⟨input, -, told⟩
      dsimp only at told
      split_ifs at told with loops unspliced valid <;>
        simp only [Except.ok.injEq, reduceCtorEq, Heard.told.injEq] at told
      subst told
      intro zero
      rw [zero] at valid
      exact absurd valid (by decide)

/-- A node with the address of the entry is as close as the entry. -/
theorem closer_of_same_ip6 (told : addr.ip6 ≠ 0) (same : hop.address.ip6 = addr.ip6)
    (closer : Closer reading addr) : Closer reading hop.address := by
  have resolved : hop.address.resolved.ip6 = addr.resolved.ip6 := by
    rw [Address.resolved_of_ne told, Address.resolved_of_ne (same ▸ told), same]
  rw [Closer, xorDistance] at closer ⊢
  simp only [quarter, resolved]
  exact closer

/-- What is added is closer, but for a next hop that is not the node itself. -/
theorem closer_candidate
    (told : hear reading.own reading.sender reading.nodes progress.i = .ok (.told addr))
    (closer : Closer reading addr)
    (straight : ∀ hop, nodeStore.getBest addr = some hop → hop.address.ip6 ≠ addr.ip6 →
      Closer reading hop.address) :
    Closer reading (candidate addr nodeStore) := by
  rw [candidate]
  cases best : nodeStore.getBest addr with
  | none => exact closer
  | some hop =>
      by_cases same : hop.address.ip6 = addr.ip6
      · exact closer_of_same_ip6 (ne_zero_of_told told) same closer
      · exact straight hop best same

/-- A search only gets closer exactly where no entry is diverted. -/
theorem onlyCloser_iff (reading : Reading) (nodeStore : NodeStore) (search : Search) :
    OnlyCloser reading nodeStore search ↔
      ∀ progress addr store hop, Comes reading nodeStore search progress →
        ¬ Diverted reading progress addr store hop := by
  constructor
  · intro only progress addr store hop comes diverted
    rcases diverted with ⟨inside, told, ⟨version, reads, inserts⟩, closer, best, -, unasked, farther⟩
    have same : candidate addr store = hop.address := by
      rw [candidate, best]
    rw [← same] at unasked
    have taken : turn reading progress.i progress.state =
        .ok (some (consider reading addr store progress.state)) := by
      rw [turn, told]
      change versionAt reading progress.i >>= _ = _
      rw [reads]
      change insertTold addr version progress.state.nodeStore >>= _ = _
      rw [inserts]
      rfl
    apply farther
    apply only _ (comes.turn inside taken)
    rw [consider_of_closer closer unasked, same]
    exact List.mem_cons_self
  · intro straight progress comes
    induction comes with
    | initial starts =>
        rw [starts]
        exact fun _ inside => absurd inside List.not_mem_nil
    | @step before after event earlier met taken ih =>
        rcases taken with ⟨inside, taken, -⟩
        rcases turn_eq_ok_some taken with same | ⟨addr, version, store, told, reads, inserts, next⟩
        · rw [same]
          exact ih
        rw [next]
        rcases added_of_consider reading addr store before.state with
          same | ⟨closer, unasked, added⟩
        · rw [same]
          exact ih
        rw [added]
        intro other member
        rcases List.mem_cons.mp member with rfl | member
        · refine closer_candidate told closer fun hop best different => ?_
          by_contra farther
          rw [candidate, best] at unasked
          exact straight before addr store hop earlier
            ⟨inside, told, ⟨version, reads, inserts⟩, closer, best, different, unasked, farther⟩
        · exact ih other member

/-! ## A search that goes back -/

/-- The address with a number for its prefix, where the prefix is taken from the key -/
def numbered (number : BitVec 256) (path : BitVec 64) : Address :=
  @Address.forKey AddressCalc.plain (number <<< 32) path

/-- A node that is in use -/
def usedNode (addr : Address) : Entry :=
  ((Entry.replaceNode { reach := 0, version := 0, address := addr } addr).withReach 5).withVersion 2

/-- A router with a neighbour, and with the sender of a reply behind it -/
def withNeighbour : NodeStore where
  thisNodeAddress := numbered 0xFF 1
  capacity := 8
  entries := [usedNode (numbered 8 0x15), usedNode (numbered 4 0x135)]
  labelSum := 12

/-- The sender has been asked for the number 0. -/
def askedSender : SearchStore.Asked where
  slot := 0
  search :=
    { id := 0
      searchStack := []
      nodesAskedIndex := 1
      nodesAsked := fun position =>
        if position = 0 then { timeOfRequest := 1, txid := some [], address := numbered 4 0x135 }
        else SearchStore.SearchNode.unused
      callbackContext :=
        { hasCallback := true
          totalRequests := 0
          targetAddress := numbered 0 0
          lastNodeCalled := 0 } }
  node := { timeOfRequest := 1, txid := some [], address := numbered 4 0x135 }

/-- A reply that tells of the number 2 -/
def replyWithTwo : SearchReply where
  address := numbered 4 0x135
  protocol := some 2
  txid := some []
  nodes := some (List.replicate 27 0 ++ [2, 0, 0, 0, 0] ++ [0, 0, 0, 0, 0, 0, 0, 0x15])
  version := none
  nodeProtocols := none

omit [AddressCalc] in
/-- Told of a node that is closer than the sender, the search turns to the neighbour, which is not. -/
theorem turns_back : letI := AddressCalc.plain
    ∃ reading nodeStore search, ¬ OnlyCloser reading nodeStore search := by
  let := AddressCalc.plain
  have goes : (absorbReply replyWithTwo askedSender (replyWithTwo.nodes.getD [])
      withNeighbour).toOption.any (fun absorbed => absorbed.added.any fun addr =>
        !decide (xorDistance (numbered 0 0) addr < xorDistance (numbered 0 0) (numbered 4 0x135))) =
      true := by
    decide +kernel
  rcases (Option.any_eq_true _ _).mp goes with ⟨absorbed, found, goes⟩
  rcases List.any_eq_true.mp goes with ⟨addr, inside, farther⟩
  have absorbs : absorbReply replyWithTwo askedSender (replyWithTwo.nodes.getD []) withNeighbour =
      .ok absorbed := by
    cases result : absorbReply replyWithTwo askedSender (replyWithTwo.nodes.getD [])
        withNeighbour with
    | error fault => simp [result, Except.toOption] at found
    | ok other =>
        rw [result] at found
        exact congrArg Except.ok (Option.some.inj found)
  rcases comes_of_absorbReply absorbs with ⟨versions, last, comes, rfl⟩
  refine ⟨readingOf replyWithTwo askedSender withNeighbour (replyWithTwo.nodes.getD []) versions,
    withNeighbour, askedSender.search, fun only => ?_⟩
  have closer := only last comes addr inside
  rw [Bool.not_eq_true', decide_eq_false_iff_not] at farther
  exact farther closer

end Searcher

end Cjdns
