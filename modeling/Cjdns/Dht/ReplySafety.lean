import Cjdns.Dht.AddNode
import Cjdns.Dht.CloserSearch

/-!
# Replies that stop the program

What `handleReply` takes from a reply without a check is here: the version of the sender, without
which `NodeStore_addNode` returns `NULL`, the list of the versions, which is followed although it
may be `NULL`, and the length of that list, which is not compared with the number of the nodes.
-/

namespace Cjdns

theorem Version.isCompatible_current_iff {version : BitVec 32} :
    isCompatible CURRENT_PROTOCOL version = true ↔ version ≠ 0 := by
  have zero : version = 0 ↔ version.toNat = 0 :=
    ⟨fun none => by rw [none]; rfl, fun none => BitVec.eq_of_toNat_eq none⟩
  rw [ne_eq, zero, isCompatible]
  simp only [CURRENT_PROTOCOL, BitVec.reduceToNat]
  by_cases high : version.toNat ≥ 3
  · rw [if_pos high]
    exact iff_of_true (by decide) (by omega)
  · rw [if_neg high]
    have all : ∀ number < 3, isCompatConst 2 number = true ↔ ¬number = 0 := by decide
    exact all version.toNat (by omega)

variable [AddressCalc]

namespace NodeStore

variable {addr : Address} {reachDifference : ℤ} {version : BitVec 32} {store : NodeStore}

/-- A node that we have heard of ourselves is added but for a version 0 or our own address. -/
theorem addNode_null_iff (heard : reachDifference > 0) :
    (∃ after, store.addNode addr reachDifference version = .null after) ↔
      version = 0 ∨ addr.resolved.ip6 = store.thisNodeAddress.ip6 := by
  constructor
  · rintro ⟨after, nothing⟩
    by_contra considered
    rw [not_or] at considered
    by_cases valid : AddressCalc.validAddress addr.resolved.ip6 = true
    · rcases @addNode_ends _ addr store reachDifference version
        ⟨Version.isCompatible_current_iff.mpr considered.1, considered.2, valid⟩ with
        ⟨last, middle, arrives, ends⟩
      rw [nothing] at ends
      generalize outcome : Added.null after = result at ends
      cases ends with
      | refreshed => cases outcome
      | replaced =>
          rw [putEntry] at outcome
          dsimp only at outcome
          split_ifs at outcome
      | blocked _ _ _ told => exact told heard
      | inserted =>
          rw [insert] at outcome
          split_ifs at outcome
          all_goals
            rw [putEntry] at outcome
            dsimp only at outcome
            split_ifs at outcome
    · rw [addNode, Version.isCompatible_current_iff.mpr considered.1] at nothing
      simp [considered.2, valid] at nothing
  · rintro (unknown | own)
    · refine ⟨store, if_pos ?_⟩
      rw [unknown]
      decide
    · refine ⟨store, ?_⟩
      rw [addNode]
      split_ifs
      · rfl
      · exact if_pos own

end NodeStore

namespace Searcher

open SearchStore (Search Asked)
open RouterModule (Verdict)

/-! ## What stops the program -/

/-- The reply as `VersionList_parse` finds it: it looks at the first byte of an empty string, which
is the zero behind it, and returns `NULL` as it does for a size of zero. -/
def terminated (reply : SearchReply) : SearchReply :=
  { reply with
    nodeProtocols := reply.nodeProtocols.map fun str => if str = [] then [0] else str }

/-- No assertion fails, no null pointer is followed, and nothing is read past an end. -/
def SurvivesReply (chance : SearchChance) (reply : SearchReply) (searcher : Searcher) : Prop :=
  Checked.Safe (handleReply chance (terminated reply) searcher)

/-- The sender is in the table under its path and its key. -/
def Known (chance : SearchChance) (reply : SearchReply) (searcher : Searcher) : Prop :=
  ∃ node, searcher.routerModule.nodeStore.getNodeByNetworkAddr chance.rand reply.address.path =
    some node ∧ node.address.key = reply.address.key

/-- The search that a reply is for, and what the loop over the nodes begins with -/
structure Expected (chance : SearchChance) (reply : SearchReply) (searcher : Searcher)
    (asked : Asked) (nodes : List (BitVec 8)) (nodeStore : NodeStore) : Prop where
  found : (reply.txid.bind fun tid => SearchStore.getNode tid searcher.searches) = some asked
  sender : asked.node.address.isSameIp reply.address = true
  nodes_eq : reply.nodes = some nodes
  filled : nodes.length ≠ 0
  whole : SERIALIZED_SIZE ∣ nodes.length
  nodeStore_eq : ∃ added after,
    searcher.routerModule.nodeStore.addNode reply.address 2 (senderVersion reply.toReply) =
      .node added after ∧
    nodeStore = RouterModule.responseFromNode chance.toChance added
      ((chance.now - asked.node.timeOfRequest).setWidth 32) after

/-- The sender of version 1, whose list of versions is rewritten, has none that can be parsed. -/
def ListMissing (reply : SearchReply) : Prop :=
  senderVersion reply.toReply < 2 ∧
    ∃ str ∈ (terminated reply).nodeProtocols, VersionList.parse str = .ok none

/-- The list of the versions has no place for an entry, and no garbage comes before it. -/
structure Unlisted (reading : Reading) (i : ℕ) : Prop where
  inside : i < reading.nodes.length
  place : SERIALIZED_SIZE ∣ i
  told : ∃ addr, hear reading.own reading.sender reading.nodes i = .ok (.told addr)
  short : ∃ versions, reading.versions = some versions ∧ versions.length ≤ i / SERIALIZED_SIZE
  clean : ∀ earlier < i, SERIALIZED_SIZE ∣ earlier →
    hear reading.own reading.sender reading.nodes earlier ≠ .ok .garbage

/-- The loop is at an entry for which the table finds its count of the labels wrong. -/
structure Overruns (reading : Reading) (progress : Progress) : Prop where
  inside : progress.i < reading.nodes.length
  aborts : ∃ addr version,
    hear reading.own reading.sender reading.nodes progress.i = .ok (.told addr) ∧
      versionAt reading progress.i = .ok version ∧
      progress.state.nodeStore.addNode addr 0 version = .aborted

/-- A reply with entries that the search expects: the table has its sender, the list of versions is
there if it is to be rewritten, it has a version for every entry that is taken, and the count of the
labels is right. -/
def Acceptable (reply : SearchReply) (asked : Asked) (nodes : List (BitVec 8))
    (nodeStore : NodeStore) : Prop :=
  ¬ ListMissing reply ∧ ∀ versions,
    versionsOf (senderVersion reply.toReply) (terminated reply) = .ok versions →
      (∀ i, ¬ Unlisted (readingOf reply asked nodeStore nodes versions) i) ∧
      ∀ progress, Comes (readingOf reply asked nodeStore nodes versions) nodeStore asked.search
        progress → ¬ Overruns (readingOf reply asked nodeStore nodes versions) progress

/-- The sender is not added to the table: it has no version, its address is our own, or the table
asserts something else of it. -/
def SenderRefused (reply : SearchReply) (store : NodeStore) : Prop :=
  senderVersion reply.toReply = 0 ∨ reply.address.resolved.ip6 = store.thisNodeAddress.ip6 ∨
    store.addNode reply.address 2 (senderVersion reply.toReply) = .aborted

/-! ## An entry -/

variable {own sender : Address} {nodes : List (BitVec 8)} {index i : ℕ}

omit [AddressCalc] in
/-- While the nodes are a whole number of entries, an entry can be read. -/
theorem readAt_safe (whole : SERIALIZED_SIZE ∣ nodes.length) (place : SERIALIZED_SIZE ∣ i)
    (inside : i < nodes.length) {count : ℕ} (small : count ≤ SERIALIZED_SIZE) :
    Checked.Safe (Checked.readAt nodes i count) := by
  have entry : ∀ length i, 40 ∣ length → 40 ∣ i → i < length → i + 40 ≤ length := by omega
  have room := entry nodes.length i whole place inside
  exact ⟨_, Checked.readAt_eq_ok.mpr ⟨le_trans (Nat.add_le_add_left small i) room, rfl⟩⟩

omit [AddressCalc] in
theorem duplicateLoop_safe (whole : SERIALIZED_SIZE ∣ nodes.length)
    (place : SERIALIZED_SIZE ∣ index) (inside : index < nodes.length) {rounds : ℕ}
    (other : SERIALIZED_SIZE ∣ i) : Checked.Safe (duplicateLoop nodes index rounds i) := by
  induction rounds generalizing i with
  | zero => exact Checked.safe_ok false
  | succ rounds ih =>
      have next := ih (Nat.dvd_add other (Nat.dvd_refl SERIALIZED_SIZE))
      rw [duplicateLoop]
      split_ifs with before same
      · exact next
      · rcases readAt_safe whole place inside (show KEY_SIZE ≤ _ by decide) with ⟨mine, reads⟩
        refine Checked.safe_bind_iff.mpr ⟨mine, reads, ?_⟩
        rcases readAt_safe whole other before (show KEY_SIZE ≤ _ by decide) with ⟨key, reads⟩
        refine Checked.safe_bind_iff.mpr ⟨key, reads, ?_⟩
        split_ifs
        · exact Checked.safe_ok true
        · exact next
      · exact Checked.safe_ok false

theorem hear_safe (whole : SERIALIZED_SIZE ∣ nodes.length) (place : SERIALIZED_SIZE ∣ i)
    (inside : i < nodes.length) : Checked.Safe (hear own sender nodes i) := by
  rcases @duplicateLoop_safe nodes i i whole place inside (nodes.length / SERIALIZED_SIZE + 1)
    place with ⟨duplicate, looks⟩
  refine Checked.safe_bind_iff.mpr ⟨duplicate, looks, ?_⟩
  split_ifs
  · exact Checked.safe_ok _
  rcases readAt_safe whole place inside le_rfl with ⟨input, reads⟩
  refine Checked.safe_bind_iff.mpr ⟨input, reads, ?_⟩
  dsimp only
  split_ifs <;> exact Checked.safe_ok _

/-! ## A turn -/

variable {reading : Reading} {nodeStore : NodeStore} {search : Search} {progress : Progress}

theorem insertTold_safe_iff {addr : Address} {version : BitVec 32} {store : NodeStore} :
    Checked.Safe (insertTold addr version store) ↔ store.addNode addr 0 version ≠ .aborted := by
  rw [insertTold]
  cases store.addNode addr 0 version with
  | node index after => exact iff_of_true (Checked.safe_ok _) (by simp)
  | null after => exact iff_of_true (Checked.safe_ok _) (by simp)
  | aborted => exact iff_of_false (Checked.not_safe_error _) (by simp)

omit [AddressCalc] in
theorem versionAt_safe_iff :
    Checked.Safe (versionAt reading i) ↔
      ¬ ∃ versions, reading.versions = some versions ∧ versions.length ≤ i / SERIALIZED_SIZE := by
  rw [versionAt]
  cases reading.versions with
  | none => exact iff_of_true (Checked.safe_ok _) (by simp)
  | some versions =>
      rw [Checked.safe_elementAt_iff]
      simp

/-- A turn for an entry that is not taken goes through. -/
theorem turn_of_untold {state : Absorbed} {heard : Heard}
    (hears : hear reading.own reading.sender reading.nodes i = .ok heard)
    (untold : ∀ addr, heard ≠ .told addr) : Checked.Safe (turn reading i state) := by
  rw [turn, hears]
  cases heard with
  | skipped => exact Checked.safe_ok _
  | looped path => exact Checked.safe_ok _
  | garbage => exact Checked.safe_ok _
  | told addr => exact absurd rfl (untold addr)

/-- A turn for an entry that is taken -/
theorem turn_of_told {state : Absorbed} {addr : Address}
    (hears : hear reading.own reading.sender reading.nodes i = .ok (.told addr)) :
    turn reading i state = versionAt reading i >>= fun version =>
      insertTold addr version state.nodeStore >>= fun nodeStore =>
        .ok (some (consider reading addr nodeStore state)) := by
  rw [turn, hears]
  rfl

/-- The turn for an entry is safe but for a version that is not there and a wrong count. -/
theorem turn_safe_iff (whole : SERIALIZED_SIZE ∣ reading.nodes.length)
    (place : SERIALIZED_SIZE ∣ progress.i) (inside : progress.i < reading.nodes.length) :
    Checked.Safe (turn reading progress.i progress.state) ↔
      ¬ ((∃ addr, hear reading.own reading.sender reading.nodes progress.i = .ok (.told addr)) ∧
          ∃ versions, reading.versions = some versions ∧
            versions.length ≤ progress.i / SERIALIZED_SIZE) ∧
        ¬ Overruns reading progress := by
  rcases @hear_safe _ reading.own reading.sender _ _ whole place inside with ⟨heard, hears⟩
  by_cases told : ∃ addr, heard = .told addr
  · rcases told with ⟨addr, rfl⟩
    rw [turn_of_told hears]
    constructor
    · intro safe
      rcases Checked.safe_bind_iff.mp safe with ⟨version, reads, safe⟩
      rcases Checked.safe_bind_iff.mp safe with ⟨store, inserts, -⟩
      refine ⟨fun short => versionAt_safe_iff.mp ⟨version, reads⟩ short.2, ?_⟩
      rintro ⟨-, other, number, otherHears, numberReads, aborts⟩
      rw [hears, Except.ok.injEq, Heard.told.injEq] at otherHears
      rw [reads, Except.ok.injEq] at numberReads
      subst otherHears numberReads
      exact insertTold_safe_iff.mp ⟨store, inserts⟩ aborts
    · rintro ⟨listed, counted⟩
      rcases versionAt_safe_iff.mpr fun short => listed ⟨⟨addr, hears⟩, short⟩ with
        ⟨version, reads⟩
      refine Checked.safe_bind_iff.mpr ⟨version, reads, ?_⟩
      rcases insertTold_safe_iff.mpr fun aborts =>
        counted ⟨inside, addr, version, hears, reads, aborts⟩ with ⟨store, inserts⟩
      exact Checked.safe_bind_iff.mpr ⟨store, inserts, Checked.safe_ok _⟩
  · have untold : ∀ addr, heard ≠ .told addr := fun addr same => told ⟨addr, same⟩
    refine iff_of_true (turn_of_untold hears untold) ⟨?_, ?_⟩
    · rintro ⟨⟨addr, other⟩, -⟩
      rw [hears, Except.ok.injEq] at other
      exact untold addr other
    · rintro ⟨-, addr, version, other, -⟩
      rw [hears, Except.ok.injEq] at other
      exact untold addr other

/-- The loop is left for garbage only. -/
theorem garbage_of_turn {state : Absorbed} (left : turn reading i state = .ok none) :
    hear reading.own reading.sender reading.nodes i = .ok .garbage := by
  rw [turn, Checked.bind_eq_ok] at left
  rcases left with ⟨heard, hears, left⟩
  cases heard with
  | garbage => exact hears
  | skipped => cases left
  | looped path => cases left
  | told addr =>
      simp [Checked.bind_eq_ok] at left

/-- The loop does not go on behind garbage. -/
theorem turn_of_garbage {state : Absorbed}
    (hears : hear reading.own reading.sender reading.nodes i = .ok .garbage) :
    turn reading i state = .ok none := by
  rw [turn, hears]
  rfl

/-! ## The loop -/

theorem Comes.place (comes : Comes reading nodeStore search progress) :
    SERIALIZED_SIZE ∣ progress.i := by
  induction comes with
  | initial starts =>
      rw [starts]
      exact Nat.dvd_zero _
  | step earlier met taken ih =>
      rw [taken.2.2]
      exact Nat.dvd_add ih (Nat.dvd_refl _)

/-- No garbage comes before a place that the loop comes to. -/
theorem Comes.clean (comes : Comes reading nodeStore search progress) {earlier : ℕ}
    (before : earlier < progress.i) (place : SERIALIZED_SIZE ∣ earlier) :
    hear reading.own reading.sender reading.nodes earlier ≠ .ok .garbage := by
  induction comes with
  | initial starts =>
      rw [starts] at before
      exact absurd before (Nat.not_lt_zero _)
  | @step last next event comes met taken ih =>
      rcases taken with ⟨inside, taken, same⟩
      rw [same] at before
      have entry : ∀ i earlier, 40 ∣ i → 40 ∣ earlier → earlier < i + 40 →
          earlier < i ∨ earlier = i := by omega
      rcases entry last.i earlier (Comes.place comes) place before with less | rfl
      · exact ih less
      · intro hears
        rw [turn_of_garbage hears] at taken
        cases taken

/-- Whatever the loop begins with, it ends if no turn stops it. -/
theorem absorbLoop_safe (comes : Comes reading nodeStore search progress)
    (fine : ∀ progress, Comes reading nodeStore search progress →
      progress.i < reading.nodes.length →
        Checked.Safe (turn reading progress.i progress.state)) (rounds : ℕ) :
    Checked.Safe (absorbLoop reading rounds progress.i progress.state) := by
  induction rounds generalizing progress with
  | zero => exact Checked.safe_ok _
  | succ rounds ih =>
      rw [absorbLoop]
      split_ifs with inside
      · rcases fine progress comes inside with ⟨next, taken⟩
        refine Checked.safe_bind_iff.mpr ⟨next, taken, ?_⟩
        cases next with
        | none => exact Checked.safe_ok _
        | some state => exact ih (comes.turn inside taken)
      · exact Checked.safe_ok _

/-- What is left of the loop at a place that it comes to is safe. -/
theorem Comes.rest_safe {rounds : ℕ} (enough : reading.nodes.length ≤ rounds * SERIALIZED_SIZE)
    (safe : Checked.Safe (absorbLoop reading rounds 0
      { nodeStore := nodeStore, search := search, added := [] }))
    (comes : Comes reading nodeStore search progress) :
    ∃ rest, reading.nodes.length ≤ rest * SERIALIZED_SIZE + progress.i ∧
      Checked.Safe (absorbLoop reading rest progress.i progress.state) := by
  induction comes with
  | initial starts =>
      rw [starts]
      exact ⟨rounds, enough, safe⟩
  | @step last next event comes met taken ih =>
      rcases taken with ⟨inside, taken, same⟩
      rcases ih with ⟨rest, left, safe⟩
      cases rest with
      | zero =>
          rw [Nat.zero_mul, Nat.zero_add] at left
          exact absurd inside (not_lt.mpr left)
      | succ rest =>
          rw [absorbLoop, if_pos inside, taken] at safe
          rw [same]
          refine ⟨rest, ?_, safe⟩
          rw [Nat.succ_mul] at left
          omega

/-- A loop that ends has gone through every turn that it came to. -/
theorem Comes.turn_safe {rounds : ℕ} (enough : reading.nodes.length ≤ rounds * SERIALIZED_SIZE)
    (safe : Checked.Safe (absorbLoop reading rounds 0
      { nodeStore := nodeStore, search := search, added := [] }))
    (comes : Comes reading nodeStore search progress) (inside : progress.i < reading.nodes.length) :
    Checked.Safe (Searcher.turn reading progress.i progress.state) := by
  rcases comes.rest_safe enough safe with ⟨rest, left, safe⟩
  cases rest with
  | zero =>
      rw [Nat.zero_mul, Nat.zero_add] at left
      exact absurd inside (not_lt.mpr left)
  | succ rest =>
      rw [absorbLoop, if_pos inside] at safe
      rcases Checked.safe_bind_iff.mp safe with ⟨next, taken, -⟩
      exact ⟨next, taken⟩

/-- Unless a turn stops it, the loop comes to every entry that no garbage comes before. -/
theorem comes_of_clean
    (fine : ∀ progress, Comes reading nodeStore search progress →
      progress.i < reading.nodes.length → Checked.Safe (turn reading progress.i progress.state))
    {number : ℕ} (inside : number * SERIALIZED_SIZE < reading.nodes.length)
    (clean : ∀ earlier < number * SERIALIZED_SIZE, SERIALIZED_SIZE ∣ earlier →
      hear reading.own reading.sender reading.nodes earlier ≠ .ok .garbage) :
    ∃ state, Comes reading nodeStore search { i := number * SERIALIZED_SIZE, state := state } := by
  induction number with
  | zero =>
      refine ⟨{ nodeStore := nodeStore, search := search, added := [] }, ?_⟩
      rw [Nat.zero_mul]
      exact .initial rfl
  | succ number ih =>
      have before : number * SERIALIZED_SIZE < (number + 1) * SERIALIZED_SIZE := by
        rw [Nat.succ_mul]
        exact Nat.lt_add_of_pos_right (by decide)
      rcases ih (lt_trans before inside) fun earlier less => clean earlier (lt_trans less before)
        with ⟨state, comes⟩
      rcases fine _ comes (lt_trans before inside) with ⟨next, taken⟩
      cases next with
      | none => exact absurd (garbage_of_turn taken) (clean _ before (Nat.dvd_mul_left _ _))
      | some next =>
          have later := comes.turn (lt_trans before inside) taken
          rw [Nat.succ_mul]
          exact ⟨next, later⟩

/-- The loop of `handleReply` ends for a whole number of entries that the list has versions for,
while the count of the labels is right. -/
theorem absorbLoop_safe_iff (whole : SERIALIZED_SIZE ∣ reading.nodes.length) {rounds : ℕ}
    (enough : reading.nodes.length ≤ rounds * SERIALIZED_SIZE) :
    Checked.Safe (absorbLoop reading rounds 0
        { nodeStore := nodeStore, search := search, added := [] }) ↔
      (∀ i, ¬ Unlisted reading i) ∧
        ∀ progress, Comes reading nodeStore search progress → ¬ Overruns reading progress := by
  constructor
  · intro safe
    have fine (progress : Progress) (comes : Comes reading nodeStore search progress)
        (inside : progress.i < reading.nodes.length) :
        Checked.Safe (turn reading progress.i progress.state) :=
      comes.turn_safe enough safe inside
    constructor
    · rintro i ⟨inside, place, told, short, clean⟩
      have multiple := place
      rcases multiple with ⟨number, rfl⟩
      rw [Nat.mul_comm] at inside place told short clean
      rcases comes_of_clean fine inside clean with ⟨state, comes⟩
      exact ((turn_safe_iff whole place inside).mp (fine _ comes inside)).1 ⟨told, short⟩
    · intro progress comes overruns
      have inside := overruns.inside
      exact ((turn_safe_iff whole comes.place inside).mp (fine _ comes inside)).2 overruns
  · rintro ⟨listed, counted⟩
    refine @absorbLoop_safe _ reading nodeStore search _ (.initial rfl) ?_ rounds
    intro progress comes inside
    refine (turn_safe_iff whole comes.place inside).mpr ⟨?_, counted progress comes⟩
    rintro ⟨told, short⟩
    exact listed progress.i ⟨inside, comes.place, told, short, fun _ before => comes.clean before⟩

/-! ## The reply -/

variable {chance : SearchChance} {reply : SearchReply} {searcher : Searcher}

omit [AddressCalc] in
theorem terminated_parses {str : List (BitVec 8)}
    (present : str ∈ (terminated reply).nodeProtocols) : Checked.Safe (VersionList.parse str) := by
  rcases Option.map_eq_some_iff.mp (Option.mem_def.mp present) with ⟨written, -, same⟩
  have filled : str ≠ [] := by
    rw [← same]
    split_ifs with empty
    · exact List.cons_ne_nil _ _
    · exact empty
  rcases List.exists_cons_of_ne_nil filled with ⟨first, rest, rfl⟩
  exact ⟨_, VersionList.parse_cons first rest⟩

omit [AddressCalc] in
/-- The list of the versions is there where it is rewritten. -/
theorem versionsOf_safe_iff :
    Checked.Safe (versionsOf (senderVersion reply.toReply) (terminated reply)) ↔
      ¬ ListMissing reply := by
  rw [versionsOf, ListMissing]
  cases present : (terminated reply).nodeProtocols with
  | none => exact iff_of_true (Checked.safe_ok _) (by simp)
  | some str =>
      rcases terminated_parses (Option.mem_def.mpr present) with ⟨parsed, parses⟩
      dsimp only
      rw [parses]
      change Checked.Safe (if _ then _ else _) ↔ _
      split_ifs with old
      · cases parsed with
        | none =>
            refine iff_of_false (Checked.not_safe_error _) (not_not.mpr ⟨old, str, rfl, parses⟩)
        | some list =>
            refine iff_of_true (Checked.safe_ok _) ?_
            rintro ⟨-, other, same, nothing⟩
            rw [Option.mem_some_iff] at same
            rw [← same, parses] at nothing
            cases nothing
      · exact iff_of_true (Checked.safe_ok _) fun missing => old missing.1

/-- A reply with entries is none to a ping. -/
theorem handleTid_of_nodes {node : ℕ} {routerModule : RouterModule} {tid : List (BitVec 8)}
    (has : reply.txid = some tid) (gives : reply.nodes = some nodes) (filled : nodes.length ≠ 0)
    (whole : SERIALIZED_SIZE ∣ nodes.length) :
    RouterModule.handleTid chance.toChance reply.toReply node routerModule =
      .plain routerModule .toSearch := by
  have rejected : ¬(nodes.length = 0 ∨ nodes.length % 40 ≠ 0) := by
    rintro (empty | ragged)
    · exact filled empty
    · exact ragged (Nat.mod_eq_zero_of_dvd whole)
  simp only [RouterModule.handleTid, has, RouterModule.pongSlot, gives, if_neg rejected]

/-- What gets to the searches has left the router module as it was, and its nodes are a whole number
of entries. -/
theorem handleTid_toSearch {node : ℕ} {routerModule : RouterModule}
    (toSearch : (RouterModule.handleTid chance.toChance reply.toReply node routerModule).verdict =
      .toSearch) :
    (RouterModule.handleTid chance.toChance reply.toReply node routerModule).routerModule =
        routerModule ∧
      ∀ nodes, reply.nodes = some nodes → nodes.length ≠ 0 ∧ SERIALIZED_SIZE ∣ nodes.length := by
  have answered (slot : BitVec 8) :
      (RouterModule.handlePong chance.toChance reply.toReply node slot routerModule).verdict =
        .passed := by
    rw [RouterModule.handlePong]
    split_ifs
    · cases routerModule.pings _ <;> rfl
    · rfl
  unfold RouterModule.handleTid at toSearch ⊢
  cases has : reply.txid with
  | none =>
      rw [has] at toSearch
      cases toSearch
  | some tid =>
      simp only [has] at toSearch ⊢
      cases named : RouterModule.pongSlot reply.toReply tid with
      | some slot =>
          simp only [named, answered, reduceCtorEq] at toSearch
      | none =>
          simp only [named] at toSearch ⊢
          cases gives : reply.nodes with
          | none => exact ⟨rfl, fun nodes impossible => by cases impossible⟩
          | some nodes =>
              simp only [gives] at toSearch ⊢
              split_ifs at toSearch ⊢ with rejected
              · cases toSearch
              · refine ⟨rfl, fun other same => ?_⟩
                rw [Option.some.injEq] at same
                rw [← same]
                rw [not_or, not_not] at rejected
                exact ⟨rejected.1, Nat.dvd_of_mod_eq_zero rejected.2⟩

/-- The part for a reply with entries that the search expects -/
theorem handleExpected_safe_iff {node : ℕ} {asked : Asked}
    (gives : reply.nodes = some nodes) (whole : SERIALIZED_SIZE ∣ nodes.length)
    (same : RouterModule.responseFromNode chance.toChance node
      ((chance.now - asked.node.timeOfRequest).setWidth 32) searcher.routerModule.nodeStore =
        nodeStore) :
    Checked.Safe (handleExpected chance (terminated reply) node asked searcher) ↔
      Acceptable reply asked nodes nodeStore := by
  have enough : nodes.length ≤ (nodes.length / SERIALIZED_SIZE + 1) * SERIALIZED_SIZE := by
    have rounds : ∀ length, length ≤ (length / 40 + 1) * 40 := by omega
    exact rounds nodes.length
  have given : (terminated reply).nodes = some nodes := gives
  rw [handleExpected, given]
  dsimp only
  rw [same, absorbReply, Acceptable]
  constructor
  · intro safe
    rcases Checked.safe_bind_iff.mp safe with ⟨absorbed, absorbs, -⟩
    rcases Checked.bind_eq_ok.mp absorbs with ⟨versions, lists, loop⟩
    refine ⟨versionsOf_safe_iff.mp ⟨versions, lists⟩, fun other reads => ?_⟩
    have same : Except.ok versions = Except.ok other := lists.symm.trans reads
    rw [Except.ok.injEq] at same
    subst same
    exact (absorbLoop_safe_iff whole enough).mp ⟨absorbed, loop⟩
  · rintro ⟨listed, rest⟩
    rcases versionsOf_safe_iff.mpr listed with ⟨versions, lists⟩
    rcases (absorbLoop_safe_iff whole enough).mpr (rest versions lists) with ⟨absorbed, loop⟩
    refine Checked.safe_bind_iff.mpr ⟨absorbed, ?_, Checked.safe_ok _⟩
    exact Checked.bind_eq_ok.mpr ⟨versions, lists, loop⟩

theorem not_senderRefused_iff {store : NodeStore} :
    ¬ SenderRefused reply store ↔ ∃ added after,
      store.addNode reply.address 2 (senderVersion reply.toReply) = .node added after := by
  have nothing := @NodeStore.addNode_null_iff _ reply.address 2 (senderVersion reply.toReply) store
    (by decide)
  rw [SenderRefused, ← or_assoc, ← nothing]
  cases store.addNode reply.address 2 (senderVersion reply.toReply) with
  | node added after => simp
  | null after => simp
  | aborted => simp

/-- With its sender in the table, a reply gets to the searches or is dealt with before. -/
theorem handleReply_of_added {node : Node} {added : ℕ} {after : NodeStore}
    (found : searcher.routerModule.nodeStore.getNodeByNetworkAddr chance.rand reply.address.path =
      some node) (same : node.address.key = reply.address.key)
    (adds : searcher.routerModule.nodeStore.addNode reply.address 2 (senderVersion reply.toReply) =
      .node added after) :
    Checked.Safe (handleReply chance reply searcher) ↔
      ((RouterModule.handleTid chance.toChance reply.toReply added
          { searcher.routerModule with nodeStore := after }).verdict = .toSearch →
        Checked.Safe (handleSearchReply chance reply added
          { searcher with
            routerModule := { searcher.routerModule with nodeStore := after } })) := by
  rw [handleReply, found]
  dsimp only
  rw [if_neg (not_not.mpr same), adds]
  dsimp only
  split_ifs with toSearch
  · rw [(handleTid_toSearch toSearch).1]
    exact ⟨fun safe _ => safe, fun safe => safe toSearch⟩
  · exact iff_of_true (Checked.safe_ok _) fun impossible => absurd impossible toSearch

/-- Without its sender in the table, a reply ends in an assertion. -/
theorem not_safe_of_unadded {node : Node}
    (found : searcher.routerModule.nodeStore.getNodeByNetworkAddr chance.rand reply.address.path =
      some node) (same : node.address.key = reply.address.key)
    (unadded : ¬ ∃ added after, searcher.routerModule.nodeStore.addNode reply.address 2
      (senderVersion reply.toReply) = .node added after) :
    ¬ Checked.Safe (handleReply chance reply searcher) := by
  rw [handleReply, found]
  dsimp only
  rw [if_neg (not_not.mpr same)]
  cases outcome : searcher.routerModule.nodeStore.addNode reply.address 2
      (senderVersion reply.toReply) with
  | node added after => exact absurd ⟨added, after, outcome⟩ unadded
  | null after => exact Checked.not_safe_error _
  | aborted => exact Checked.not_safe_error _

/-- A router with a search, which has asked the sender of the reply -/
def waiting : Searcher where
  routerModule := { nodeStore := withNeighbour, pings := fun _ => none }
  searches := fun slot =>
    if (slot : ℕ) = 0 then
      some
        { askedSender.search with
          nodesAsked := fun position =>
            if position = 0 then
              { timeOfRequest := 1, txid := some (List.replicate 8 0), address := numbered 4 0x135 }
            else SearchStore.SearchNode.unused }
    else none

def quietChance : SearchChance :=
  { now := 2, rand := 0, worst := 0, magic := 0 }

/-- The reply that tells of the number 2, with other fields -/
def replyWith (protocol : Option (BitVec 64)) (nodeProtocols : Option (List (BitVec 8))) :
    SearchReply :=
  { replyWithTwo with
    protocol := protocol
    txid := some (List.replicate 8 0)
    nodeProtocols := nodeProtocols }

omit [AddressCalc] in
theorem known_replyWith (protocol : Option (BitVec 64))
    (nodeProtocols : Option (List (BitVec 8))) : letI := AddressCalc.plain
    Known quietChance (replyWith protocol nodeProtocols) waiting := by
  let := AddressCalc.plain
  have found : (withNeighbour.getNodeByNetworkAddr 0 0x135).any
      (fun node => node.address.key == (numbered 4 0x135).key) = true := by
    decide +kernel
  rcases (Option.any_eq_true _ _).mp found with ⟨node, present, same⟩
  exact ⟨node, present, eq_of_beq same⟩

end Searcher

end Cjdns
