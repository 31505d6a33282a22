import Cjdns.Dht.LinkStateOrder
import Cjdns.Library.Ranking

/-!
# Nodes that are farther than the router

A query is to be answered only with nodes that are closer to the target than the router
itself. The collector of `NodeStore_getClosestNodes` does not look at that, so such an
answer comes about only where the table has no other candidates (`neverBackwards_iff`) or,
with a limited number of nodes, where better ones take all the places.
-/

namespace Cjdns

variable [AddressCalc]

namespace NodeStore

open LinkStateNodeCollector (IsAdmissible HasAddress Takes IsPassed positions collect
  rank rankOf)

/-- An answer to a query that is also free of nodes that are farther from the target than us -/
structure NeverBackwards (store : NodeStore) (target requestor : Address) (count : ℕ)
    (version : BitVec 32) (nodes : List Node) : Prop where
  atMost : nodes.length ≤ count
  closer : ∀ node ∈ nodes,
    node.address.distance target < store.thisNodeAddress.distance target
  elsewhere : ∀ node ∈ nodes, getSwitchIndex node.address ≠ getSwitchIndex requestor
  compatible : ∀ node ∈ nodes, Version.isCompatible node.version version = true

/-- An entry that the loop offers to the collector and that has a place in it -/
def isOffered (target requestor : Address) (version : BitVec 32) (entry : Entry) : Bool :=
  !skips (some requestor) version entry && decide (entry.collectorDistance target < UINT32_MAX)

def candidates (store : NodeStore) (target requestor : Address) (version : BitVec 32) :
    List Entry :=
  store.entries.filter (isOffered target requestor version)

/-- The entry is as far from the target as the router itself, or farther. -/
def IsFarther (store : NodeStore) (target : Address) (entry : Entry) : Prop :=
  store.thisNodeAddress.distance target ≤ entry.body.address.distance target

/-- What decides between two candidates at some positions: the later one wins a tie. -/
def order (target : Address) (item : Entry × ℕ) : (Bool ×ₗ ℕ) ×ₗ ℕ :=
  toLex (rank target.getPrefix target.resolved item.1, item.2)

/-- How many of some entries go before the one at a position -/
def outranking (target : Address) (entries : List Entry) (item : Entry × ℕ) : ℕ :=
  entries.zipIdx.countP fun other => order target item < order target other

/-! ## What is offered -/

variable {target requestor : Address} {version : BitVec 32}

theorem collectClosest_eq (collector : NodeCollector)
    (aimed : collector.targetPrefix = target.getPrefix ∧
      collector.targetAddress = target.resolved ∧ collector.thisNodeDistance = UINT32_MAX)
    (entries : List Entry) :
    collectClosest (some requestor) version collector entries =
      collect collector (entries.filter (isOffered target requestor version)) := by
  induction entries generalizing collector with
  | nil => rfl
  | cons entry entries ih =>
      have admissible : IsAdmissible collector entry ↔
          entry.collectorDistance target < UINT32_MAX := by
        rw [IsAdmissible, aimed.1, aimed.2.1, aimed.2.2]
        rfl
      by_cases skipped : skips (some requestor) version entry = true
      · have left : ¬isOffered target requestor version entry = true := by
          simp [isOffered, skipped]
        rw [List.filter_cons_of_neg left, ← ih collector aimed]
        simp [collectClosest, skipped]
      · have offered : collectClosest (some requestor) version collector (entry :: entries) =
            collectClosest (some requestor) version
              (LinkStateNodeCollector.addNode entry collector) entries := by
          simp [collectClosest, skipped]
        by_cases near : IsAdmissible collector entry
        · have taken : isOffered target requestor version entry = true := by
            simp [isOffered, skipped, admissible.mp near]
          rw [offered, List.filter_cons_of_pos taken, ih]
          · rfl
          · simpa using aimed
        · have left : ¬isOffered target requestor version entry = true := by
            simp only [isOffered, admissible.not.mp near]
            simp
          rw [offered, LinkStateNodeCollector.addNode_of_not_isAdmissible near,
            List.filter_cons_of_neg left, ih collector aimed]

/-- The array behind an answer: the candidates have been offered one after the other. -/
def answering (store : NodeStore) (target requestor : Address) (count : ℕ)
    (version : BitVec 32) : NodeCollector :=
  collect (NodeCollector.new target count store.thisNodeAddress true)
    (store.candidates target requestor version)

theorem mem_getClosestNodes {store : NodeStore} {count : ℕ} {farther : Bool} {node : Node} :
    node ∈ store.getClosestNodes target (some requestor) count farther version ↔
      ∃ entry : Entry, some entry ∈ positions (store.answering target requestor count version) ∧
        entry.synchronized.body = node := by
  have collected := @collectClosest_eq _ target requestor version
    (NodeCollector.new target count store.thisNodeAddress true) ⟨rfl, rfl, rfl⟩ store.entries
  rw [getClosestNodes, collected]
  simp only [List.mem_filterMap, Option.map_eq_some_iff, positions, List.mem_map]
  constructor
  · rintro ⟨element, inside, entry, holds, same⟩
    exact ⟨entry, ⟨element, inside, holds⟩, same⟩
  · rintro ⟨entry, ⟨element, inside, holds⟩, same⟩
    exact ⟨element, inside, entry, holds, same⟩

/-- Only the distance to the target is open. -/
theorem neverBackwards_iff_not_isFarther {store : NodeStore} {count : ℕ} {farther : Bool} :
    NeverBackwards store target requestor count version
        (store.getClosestNodes target (some requestor) count farther version) ↔
      ∀ entry, some entry ∈ positions (store.answering target requestor count version) →
        ¬store.IsFarther target entry := by
  have answers := store.getClosestNodes_answers target requestor count farther version
  constructor
  · intro never entry inside behind
    have closer := never.closer _ (mem_getClosestNodes.mpr ⟨entry, inside, rfl⟩)
    exact absurd closer (BitVec.not_lt.mpr behind)
  · intro none
    refine ⟨answers.atMost, fun node inside => ?_, answers.elsewhere, answers.compatible⟩
    rcases mem_getClosestNodes.mp inside with ⟨entry, kept, rfl⟩
    exact BitVec.not_le.mp (none entry kept)

/-! ## As much room as is needed -/

/-- While there is room, every node that was offered has its address in the array. -/
structure Covers (offered : List Entry) (count : ℕ) (held : List (Option Entry)) : Prop where
  /-- What is unused is at the low end. -/
  free : held.Pairwise fun one two => two = none → one = none
  room : count ≤ held.countP Option.isNone + offered.length
  covered : ∀ entry ∈ offered, ∃ other ∈ held, HasAddress entry other

theorem covers_replicate (count : ℕ) : Covers [] count (List.replicate count none) where
  free := List.pairwise_replicate.mpr (Or.inr fun _ => rfl)
  room := by simp [List.countP_replicate]
  covered := by simp

theorem head?_of_free {held : List (Option Entry)}
    (free : held.Pairwise fun one two => two = none → one = none) (inside : none ∈ held) :
    held.head? = some none := by
  cases held with
  | nil => exact absurd inside List.not_mem_nil
  | cons first held =>
      rcases List.mem_cons.mp inside with here | later
      · rw [here, List.head?_cons]
      · rw [(List.pairwise_cons.mp free).1 none later rfl, List.head?_cons]

/-- The array stays unused from the low end on if a used element comes in. -/
theorem free_of_used {front rest : List (Option Entry)} (entry : Entry)
    (free : (front ++ rest).Pairwise fun one two => two = none → one = none)
    (used : none ∉ rest) :
    (front ++ some entry :: rest).Pairwise fun one two => two = none → one = none := by
  rcases List.pairwise_append.mp free with ⟨frontFree, restFree, across⟩
  refine List.pairwise_append.mpr ⟨frontFree, List.pairwise_cons.mpr
    ⟨fun held inside empty => ?_, restFree⟩, fun held inside other later empty => ?_⟩
  · subst empty
    exact absurd inside used
  · rcases List.mem_cons.mp later with rfl | later
    · cases empty
    · exact across held inside other later empty

/-- The addresses stay covered if no element goes out but unused ones and those with the address of
the node that comes in. -/
theorem Covers.covered_of_kept {offered : List Entry} {count : ℕ}
    {before after : List (Option Entry)} {entry : Entry} (covers : Covers offered count before)
    (kept : ∀ held ∈ before, held = none ∨ HasAddress entry held ∨ held ∈ after)
    (own : some entry ∈ after) :
    ∀ other ∈ offered ++ [entry], ∃ held ∈ after, HasAddress other held := by
  intro other known
  rcases List.mem_append.mp known with earlier | new
  · rcases covers.covered other earlier with ⟨held, inside, found⟩
    rcases kept held inside with rfl | same | stays
    · rcases found with ⟨_, nothing, _⟩
      cases nothing
    · rcases found with ⟨_, rfl, found⟩
      rcases same with ⟨_, holds, same⟩
      cases holds
      exact ⟨some entry, own, entry, rfl, found.trans same.symm⟩
    · exact ⟨held, stays, found⟩
  · rw [List.mem_singleton.mp new]
    exact ⟨some entry, own, entry, rfl, rfl⟩

theorem Covers.takes {offered : List Entry} {count : ℕ} {before after : List (Option Entry)}
    {entry : Entry} (covers : Covers offered count before) (room : offered.length < count)
    (takes : Takes target.getPrefix target.resolved entry before after) :
    Covers (offered ++ [entry]) count after := by
  have unused : none ∈ before := by
    have few := covers.room
    have some_free : 0 < before.countP Option.isNone := by omega
    rcases List.countP_pos_iff.mp some_free with ⟨held, inside, free⟩
    rwa [← Option.isNone_iff_eq_none.mp free]
  have worst := head?_of_free covers.free unused
  have passed : IsPassed target.getPrefix target.resolved entry none := bot_le
  cases takes with
  | none rest above => exact absurd passed (above none worst)
  | insert first front rest below above unseen =>
      -- the element that goes out was unused
      rw [List.cons_append, List.head?_cons, Option.some_inj] at worst
      subst worst
      have free := (List.pairwise_cons.mp covers.free).2
      constructor
      · refine free_of_used entry free fun inside => above none ?_ passed
        exact head?_of_free (List.pairwise_append.mp free).2.1 inside
      · have enough := covers.room
        simp only [List.countP_append, List.countP_cons, Option.isNone_none, Option.isNone_some,
          List.length_append, List.length_singleton, if_true, Bool.false_eq_true,
          if_false] at enough ⊢
        omega
      · refine covers.covered_of_kept (fun held inside => ?_) (by simp)
        rcases List.mem_cons.mp inside with rfl | inside
        · exact .inl rfl
        · rcases List.mem_append.mp inside with inFront | inRest
          · exact .inr (.inr (List.mem_append_left _ inFront))
          · exact .inr (.inr (List.mem_append_right _ (List.mem_cons_of_mem _ inRest)))
  | replace first front old back rest below above same unseen =>
      have shape (held : Option Entry) : first :: (front ++ held :: back) ++ rest =
          (first :: front) ++ held :: (back ++ rest) := by simp
      have used := same
      rcases used with ⟨_, rfl, _⟩
      have free := covers.free
      rw [shape] at free
      constructor
      · rw [shape]
        refine free_of_used entry (free.sublist ?_) fun inside => ?_
        · exact List.Sublist.append_left (List.sublist_cons_self _ _) _
        · have later := (List.pairwise_append.mp free).2.1
          cases (List.pairwise_cons.mp later).1 none inside rfl
      · have enough := covers.room
        simp only [List.countP_append, List.countP_cons, Option.isNone_some, List.length_append,
          List.length_singleton, Bool.false_eq_true, if_false] at enough ⊢
        omega
      · rw [shape]
        refine covers.covered_of_kept (fun held inside => ?_) (by simp)
        rw [shape] at inside
        rcases List.mem_append.mp inside with inFront | later
        · exact .inr (.inr (List.mem_append_left _ inFront))
        · rcases List.mem_cons.mp later with rfl | inRest
          · exact .inr (.inl same)
          · exact .inr (.inr (List.mem_append_right _ (List.mem_cons_of_mem _ inRest)))

/-! ## One candidate after the other -/

/-- The array of a collector for a target holds some nodes. -/
structure Collected (target : Address) (held : List (Option Entry)) (collector : NodeCollector) :
    Prop where
  targetPrefix : collector.targetPrefix = target.getPrefix
  targetAddress : collector.targetAddress = target.resolved
  thisNodeDistance : collector.thisNodeDistance = UINT32_MAX
  exact : collector.nodes =
    held.map (LinkStateNodeCollector.holding target.getPrefix target.resolved)

theorem Collected.positions_eq {held : List (Option Entry)} {collector : NodeCollector}
    (holds : Collected target held collector) : positions collector = held := by
  rw [positions, holds.exact]
  exact LinkStateNodeCollector.map_node (LinkStateNodeCollector.node_holding _ _) held

theorem collected_new (target self : Address) (count : ℕ) :
    Collected target (List.replicate count none) (NodeCollector.new target count self true) where
  targetPrefix := rfl
  targetAddress := rfl
  thisNodeDistance := rfl
  exact := by
    rw [List.map_replicate]
    rfl

theorem Collected.addNode {held : List (Option Entry)} {collector : NodeCollector} {entry : Entry}
    (holds : Collected target held collector) (near : entry.collectorDistance target < UINT32_MAX) :
    ∃ after, Takes target.getPrefix target.resolved entry held after ∧
      Collected target after (LinkStateNodeCollector.addNode entry collector) := by
  rcases holds with ⟨targetPrefix, targetAddress, thisNodeDistance, exact⟩
  have admissible : IsAdmissible collector entry := by
    rw [IsAdmissible, targetPrefix, targetAddress, thisNodeDistance]
    exact near
  rw [← targetPrefix, ← targetAddress] at exact ⊢
  rcases LinkStateNodeCollector.addNode_takes exact admissible with ⟨after, takes, result⟩
  refine ⟨after, takes, ?_⟩
  rw [result]
  exact ⟨targetPrefix, targetAddress, thisNodeDistance, by rw [targetPrefix, targetAddress]⟩

/-- What holds of an empty array and stays with every candidate holds at the end. -/
theorem holds_of_takes {self : Address} {count : ℕ} {offered : List Entry}
    (holds : List Entry → List (Option Entry) → Prop)
    (start : holds [] (List.replicate count none))
    (step : ∀ seen entry before after, seen ++ [entry] <+: offered → holds seen before →
      Takes target.getPrefix target.resolved entry before after → holds (seen ++ [entry]) after)
    (near : ∀ entry ∈ offered, entry.collectorDistance target < UINT32_MAX) :
    holds offered (positions (collect (NodeCollector.new target count self true) offered)) := by
  have run : ∀ seen, seen <+: offered → ∃ held, holds seen held ∧
      Collected target held (collect (NodeCollector.new target count self true) seen) := by
    intro seen
    induction seen using List.reverseRecOn with
    | nil => exact fun _ => ⟨_, start, collected_new target self count⟩
    | append_singleton seen entry ih =>
        intro part
        rcases ih ((List.prefix_append seen [entry]).trans part) with ⟨before, kept, array⟩
        have inside : entry ∈ offered := part.subset (by simp)
        rcases array.addNode (near entry inside) with ⟨after, takes, added⟩
        rw [LinkStateNodeCollector.collect_concat]
        exact ⟨after, step seen entry before after part kept takes, added⟩
  rcases run offered (List.prefix_refl offered) with ⟨held, kept, array⟩
  rwa [array.positions_eq]

theorem near_of_mem_candidates {store : NodeStore} {entry : Entry}
    (inside : entry ∈ store.candidates target requestor version) :
    entry.collectorDistance target < UINT32_MAX := by
  have candidate := (List.mem_filter.mp inside).2
  rw [isOffered, Bool.and_eq_true] at candidate
  exact of_decide_eq_true candidate.2

/-- A node of the answer is a candidate. -/
theorem mem_candidates_of_mem {store : NodeStore} {count : ℕ} {entry : Entry}
    (inside : some entry ∈ positions (store.answering target requestor count version)) :
    entry ∈ store.candidates target requestor version := by
  refine holds_of_takes (fun seen held => ∀ entry, some entry ∈ held → entry ∈ seen)
    ?_ ?_ (fun _ => near_of_mem_candidates) entry inside
  · intro other free
    exact absurd (List.eq_of_mem_replicate free) (Option.some_ne_none other)
  · intro seen new before after _ known takes other kept
    rcases takes.mem kept with earlier | here
    · exact List.mem_append_left _ (known other earlier)
    · rw [Option.some.inj here]
      exact List.mem_append_right _ List.mem_cons_self

/-- With room for all candidates, each of them is in the answer or a node with its address. -/
theorem covers_answering (store : NodeStore) (target requestor : Address)
    (version : BitVec 32) :
    Covers (store.candidates target requestor version)
      (store.candidates target requestor version).length
      (positions (store.answering target requestor
        (store.candidates target requestor version).length version)) := by
  apply holds_of_takes (fun seen held =>
    Covers seen (store.candidates target requestor version).length held)
  · exact covers_replicate _
  · intro seen entry before after part covers takes
    have lengths := part.length_le
    rw [List.length_append, List.length_singleton] at lengths
    exact covers.takes lengths takes
  · exact fun _ => near_of_mem_candidates

theorem isFarther_congr {store : NodeStore} {one two : Entry}
    (same : one.body.address.ip6 = two.body.address.ip6) :
    store.IsFarther target one ↔ store.IsFarther target two := by
  simp only [IsFarther, Address.distance, Address.getPrefix, Entry.resolved_eq, same]

/-- Whatever number of nodes is asked for, none is behind the router. -/
theorem neverBackwards_all_iff (store : NodeStore) (target requestor : Address)
    (version : BitVec 32) :
    (∀ count, NeverBackwards store target requestor count version
        (store.getClosestNodes target (some requestor) count false version)) ↔
      ∀ entry ∈ store.candidates target requestor version, ¬store.IsFarther target entry := by
  simp only [neverBackwards_iff_not_isFarther]
  constructor
  · intro never entry candidate behind
    rcases (covers_answering store target requestor version).covered entry candidate with
      ⟨_, inside, other, rfl, same⟩
    exact never _ other inside ((isFarther_congr same).mp behind)
  · intro none count entry inside
    exact none entry (mem_candidates_of_mem inside)

/-! ## A limited number -/

/-- A later candidate passes what does not rank above it. -/
theorem rankOf_order_le_iff {entry : Entry} {position : ℕ} {held : Option (Entry × ℕ)}
    (earlier : ∀ item ∈ held, item.2 < position) :
    Ranking.rankOf (order target) (some (entry, position)) ≤ Ranking.rankOf (order target) held ↔
      ¬IsPassed target.getPrefix target.resolved entry (held.map Prod.fst) := by
  cases held with
  | none =>
      refine iff_of_false (not_le.mpr (WithBot.bot_lt_coe _)) (not_not_intro bot_le)
  | some item =>
      have before := earlier item rfl
      simp only [Ranking.rankOf, IsPassed, rankOf, Option.map_some, WithBot.coe_le_coe, order,
        Prod.Lex.toLex_le_toLex, not_le]
      constructor
      · rintro (less | ⟨_, after⟩)
        · exact less
        · omega
      · exact Or.inl

/-- A candidate with a new address goes to its place. -/
theorem takes_eq_place {entry : Entry} {position : ℕ} {held : List (Option (Entry × ℕ))}
    {after : List (Option Entry)}
    (earlier : ∀ other ∈ held, ∀ item ∈ other, item.2 < position)
    (apart : ∀ other ∈ held, ¬HasAddress entry (other.map Prod.fst))
    (takes : Takes target.getPrefix target.resolved entry
      (held.map (Option.map Prod.fst)) after) :
    after = (Ranking.place (order target) (entry, position) held).map (Option.map Prod.fst) := by
  generalize before : held.map (Option.map Prod.fst) = nodes at takes
  cases takes with
  | none _ above =>
      have placed := @Ranking.place_append _ _ _ (order target) (entry, position) [] held
        (fun _ inside => absurd inside List.not_mem_nil) (fun other first => by
          have inside : other ∈ held := List.mem_of_mem_head? first
          rw [rankOf_order_le_iff (earlier other inside)]
          apply above
          rw [← before, List.head?_map, first]
          rfl)
      rw [List.nil_append] at placed
      rw [placed, List.nil_append, List.tail_cons, before]
  | insert first front rest below above unseen =>
      rcases List.map_eq_append_iff.mp before with ⟨passed, later, rfl, mapped, rfl⟩
      have placed := @Ranking.place_append _ _ _ (order target) (entry, position) passed later
        (fun other inside => by
          rw [rankOf_order_le_iff (earlier other (List.mem_append_left _ inside)), not_not]
          apply below
          rw [← mapped]
          exact List.mem_map_of_mem inside)
        (fun other head => by
          have inside : other ∈ later := List.mem_of_mem_head? head
          rw [rankOf_order_le_iff (earlier other (List.mem_append_right _ inside))]
          apply above
          rw [List.head?_map, head]
          rfl)
      rcases List.map_eq_cons_iff.mp mapped with ⟨item, passed, rfl, _, rfl⟩
      rw [placed]
      simp
  | replace first front old back rest below above same unseen =>
      have inside : old ∈ held.map (Option.map Prod.fst) := by
        rw [before]
        simp
      rcases List.mem_map.mp inside with ⟨other, known, rfl⟩
      exact absurd same (apart other known)

/-- Among candidates with different addresses the best ones are in the answer. -/
theorem positions_answering {store : NodeStore} {count : ℕ}
    (apart : (store.candidates target requestor version).Pairwise
      fun one two => one.body.address.ip6 ≠ two.body.address.ip6) :
    positions (store.answering target requestor count version) =
      ((store.candidates target requestor version).zipIdx.foldl
        (fun held item => Ranking.place (order target) item held)
        (List.replicate count none)).map (Option.map Prod.fst) := by
  refine holds_of_takes (fun seen held => held = (seen.zipIdx.foldl
    (fun held item => Ranking.place (order target) item held)
      (List.replicate count none)).map (Option.map Prod.fst)) ?_ ?_
    fun _ => near_of_mem_candidates
  · rw [List.zipIdx_nil, List.foldl_nil, List.map_replicate]
    rfl
  · rintro seen entry _ after part rfl takes
    rw [List.zipIdx_append, List.foldl_append, List.zipIdx_singleton, List.foldl_cons,
      List.foldl_nil, zero_add]
    have known : ∀ other ∈ seen.zipIdx.foldl
        (fun held item => Ranking.place (order target) item held) (List.replicate count none),
        ∀ item ∈ other, item ∈ seen.zipIdx := by
      rintro _ inside item rfl
      rw [Ranking.foldl_place, List.mem_append] at inside
      rcases inside with free | best
      · exact absurd (List.eq_of_mem_replicate free) (Option.some_ne_none item)
      · rcases List.mem_map.mp best with ⟨_, best, same⟩
        rw [Option.some.inj same] at best
        rcases Ranking.mem_best_iff.mp best with ⟨position, inside, _⟩
        exact List.fst_mem_of_mem_zipIdx inside
    refine takes_eq_place (fun other inside item holds => ?_) (fun other inside same => ?_) takes
    · exact List.snd_lt_of_mem_zipIdx (known other inside item holds)
    · rcases same with ⟨_, holds, same⟩
      rcases Option.map_eq_some_iff.mp holds with ⟨item, rfl, rfl⟩
      have earlier : item.1 ∈ seen := List.fst_mem_of_mem_zipIdx (known _ inside item rfl)
      have different := (List.pairwise_append.mp (apart.sublist part.sublist)).2.2
      exact different item.1 earlier entry List.mem_cons_self same.symm

/-- How many stand above a candidate, with its position counted twice -/
theorem above_zipIdx {entries : List Entry} {item : Entry × ℕ} {position : ℕ}
    (inside : (item, position) ∈ entries.zipIdx.zipIdx) :
    Ranking.above (order target) entries.zipIdx (item, position) =
      outranking target entries item := by
  have single : ∀ other ∈ entries.zipIdx.zipIdx, other.1.2 = other.2 := by
    intro other known
    have here := List.mem_zipIdx_iff_getElem?.mp known
    rw [List.getElem?_zipIdx] at here
    rcases Option.map_eq_some_iff.mp here with ⟨entry, _, same⟩
    rw [← same, zero_add]
  have counted : outranking target entries item =
      (entries.zipIdx.zipIdx.map Prod.fst).countP fun other =>
        order target item < order target other := by
    rw [List.zipIdx_map_fst]
    rfl
  rw [counted, List.countP_map, Ranking.above]
  apply List.countP_congr
  intro other known
  simp only [Function.comp_apply, decide_eq_true_eq, Ranking.standing_lt_iff]
  constructor
  · rintro (less | ⟨same, later⟩)
    · exact less
    · have places := congrArg (fun key => (ofLex key).2) same
      simp only [order, ofLex_toLex] at places
      have first := single _ inside
      have second := single _ known
      simp only at first
      omega
  · exact Or.inl

theorem mem_answering_iff {store : NodeStore} {count : ℕ} {entry : Entry}
    (apart : (store.candidates target requestor version).Pairwise
      fun one two => one.body.address.ip6 ≠ two.body.address.ip6) :
    some entry ∈ positions (store.answering target requestor count version) ↔
      ∃ position, (entry, position) ∈ (store.candidates target requestor version).zipIdx ∧
        outranking target (store.candidates target requestor version) (entry, position) <
          count := by
  rw [positions_answering apart, Ranking.foldl_place, List.map_append, List.mem_append,
    List.map_replicate, List.map_map]
  constructor
  · rintro (free | best)
    · exact absurd (List.eq_of_mem_replicate free) (Option.some_ne_none entry)
    · rcases List.mem_map.mp best with ⟨item, best, same⟩
      rcases Ranking.mem_best_iff.mp best with ⟨position, inside, few⟩
      rw [above_zipIdx inside] at few
      cases same
      exact ⟨item.2, List.fst_mem_of_mem_zipIdx inside, few⟩
  · rintro ⟨position, inside, few⟩
    right
    refine List.mem_map.mpr ⟨(entry, position), Ranking.mem_best_iff.mpr ⟨position, ?_⟩, rfl⟩
    have twice : ((entry, position), position) ∈
        (store.candidates target requestor version).zipIdx.zipIdx := by
      rw [List.mem_zipIdx_iff_getElem?] at inside ⊢
      rw [List.getElem?_zipIdx, inside, Option.map_some, zero_add]
    exact ⟨twice, by rwa [above_zipIdx twice]⟩

/-- With different addresses, a candidate stays out only if enough others go before it. -/
theorem neverBackwards_limited_iff {store : NodeStore} (count : ℕ)
    (apart : (store.candidates target requestor version).Pairwise
      fun one two => one.body.address.ip6 ≠ two.body.address.ip6) :
    NeverBackwards store target requestor count version
        (store.getClosestNodes target (some requestor) count false version) ↔
      ∀ item ∈ (store.candidates target requestor version).zipIdx,
        store.IsFarther target item.1 →
          count ≤ outranking target (store.candidates target requestor version) item := by
  simp only [neverBackwards_iff_not_isFarther, mem_answering_iff apart]
  constructor
  · intro none item inside behind
    exact not_lt.mp fun few => none item.1 ⟨item.2, inside, few⟩ behind
  · rintro enough entry ⟨position, inside, few⟩ behind
    exact absurd few (not_lt.mpr (enough (entry, position) inside behind))

/--
The answers to a query never point backwards, whatever number of nodes is asked for,
exactly if the table has no candidate that is not closer than the router. For a given
number, and candidates with different addresses, they do not exactly if each such
candidate is outranked by as many others.
-/
theorem neverBackwards_iff (store : NodeStore) (target requestor : Address)
    (version : BitVec 32) :
    ((∀ count, NeverBackwards store target requestor count version
        (store.getClosestNodes target (some requestor) count false version)) ↔
      ∀ entry ∈ store.candidates target requestor version, ¬store.IsFarther target entry) ∧
    ((store.candidates target requestor version).Pairwise
        (fun one two => one.body.address.ip6 ≠ two.body.address.ip6) →
      ∀ count, NeverBackwards store target requestor count version
          (store.getClosestNodes target (some requestor) count false version) ↔
        ∀ item ∈ (store.candidates target requestor version).zipIdx,
          store.IsFarther target item.1 →
            count ≤ outranking target (store.candidates target requestor version) item) :=
  ⟨neverBackwards_all_iff store target requestor version,
    fun apart count => neverBackwards_limited_iff count apart⟩

/-- A node far from the target `closeTarget` -/
def farNode : Address :=
  { ip6 := 0xFC000000000000000000000200000000, key := 2, path := 0x15 }

def closeTarget : Address :=
  { ip6 := 0xFC000000000000000000000000000001, key := 0, path := 0 }

def askingNode : Address :=
  { ip6 := 0xFC000000000000000000000300000000, key := 3, path := 0x17 }

/-- A router one away from `closeTarget` that knows only `farNode`, two away -/
def nextToTarget : NodeStore where
  thisNodeAddress := { ip6 := 0xFC000000000000000000000100000000, key := 1, path := 1 }
  capacity := 1
  entries := [((Entry.replaceNode { reach := 0, version := 0, address := farNode }
    farNode).withReach 1).withVersion 2]
  labelSum := 4

omit [AddressCalc] in
/-- A query is answered with a node that is farther from the target than the router itself. -/
theorem farther_node_sent :
    letI : AddressCalc := ⟨fun _ => 0⟩
    ¬ NeverBackwards nextToTarget closeTarget askingNode 13 2
      (nextToTarget.getClosestNodes closeTarget (some askingNode) 13 false 2) := by
  let : AddressCalc := ⟨fun _ => 0⟩
  intro never
  have closer := never.closer { reach := 1, version := 2, address := farNode }
    (List.mem_of_mem_head? rfl)
  exact absurd closer (by decide)

/-- A node that is closer to `closeTarget` -/
def closerNode : Address :=
  { ip6 := 0xFC000000000000000000000000000005, key := 5, path := 0x13 }

/-- The same router with a second node -/
def besideTarget : NodeStore :=
  { nextToTarget with
    capacity := 2
    entries := nextToTarget.entries ++ [((Entry.replaceNode
      { reach := 0, version := 0, address := closerNode } closerNode).withReach 1).withVersion 2] }

omit [AddressCalc] in
/-- The farther node is told to who asks for two, and not to who asks for one. -/
theorem neverBackwards_besideTarget :
    letI : AddressCalc := ⟨fun _ => 0⟩
    NeverBackwards besideTarget closeTarget askingNode 1 2
        (besideTarget.getClosestNodes closeTarget (some askingNode) 1 false 2) ∧
      ¬NeverBackwards besideTarget closeTarget askingNode 2 2
        (besideTarget.getClosestNodes closeTarget (some askingNode) 2 false 2) := by
  let : AddressCalc := ⟨fun _ => 0⟩
  have limited := (neverBackwards_iff besideTarget closeTarget askingNode 2).2 (by decide)
  rw [limited 1, limited 2]
  simp only [IsFarther]
  decide +kernel

end NodeStore

end Cjdns
