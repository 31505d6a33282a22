import Cjdns.Dht.ClosestNodes

/-!
# The order of a link-state collector

`LinkStateNodeCollector_addNode` looks for the place of a node from the worst element on.
A node whose address is not in the array goes in there, and the worst element goes out. A
node whose address has been passed on the way takes the place of that element, which is
the right one only if nothing has been passed after it. An address further on is not found
at all.
-/

namespace Cjdns

variable [AddressCalc]

namespace LinkStateNodeCollector

open NodeCollector (Element)

/-- A node has a place in the collector. -/
def IsAdmissible (collector : NodeCollector) (entry : Entry) : Prop :=
  nodeDistance collector.targetPrefix collector.targetAddress entry < collector.thisNodeDistance

/-- An element holds the address of a node. -/
def HasAddress (entry : Entry) (held : Option Entry) : Prop :=
  ∃ other ∈ held, entry.body.address.ip6 = other.body.address.ip6

section Places

variable (targetPrefix : BitVec 32) (targetAddress : Address)

/-- The rank of an element; one that is unused ranks below all others. -/
def rankOf : Option Entry → WithBot (Bool ×ₗ ℕ)
  | none => ⊥
  | some entry => (rank targetPrefix targetAddress entry : Bool ×ₗ ℕ)

variable {targetPrefix targetAddress}

theorem nodeDistance_congr {entry other : Entry}
    (same : entry.body.address.ip6 = other.body.address.ip6) :
    nodeDistance targetPrefix targetAddress entry =
      nodeDistance targetPrefix targetAddress other := by
  have samePrefix : entry.header.addressPrefix = other.header.addressPrefix := by
    rw [entry.addressPrefix_eq, other.addressPrefix_eq, Address.getPrefix, Address.getPrefix,
      entry.resolved_eq, other.resolved_eq, same]
  simp only [nodeDistance, samePrefix, same]

theorem sameAddress_holding (entry : Entry) (i : ℕ) (held : Option Entry) :
    sameAddress entry i (holding targetPrefix targetAddress held) = true ↔
      0 < i ∧ HasAddress entry held := by
  cases held with
  | none => simp [sameAddress, holding, Element.unused, HasAddress]
  | some other => simp [sameAddress, holding, HasAddress]

/-! ## The loop -/

/-- The loop ends at the first element of higher rank. -/
theorem search_of_lt {entry : Entry} {held : Option Entry} (rest : List Element) (i found : ℕ)
    (above : (rank targetPrefix targetAddress entry : WithBot (Bool ×ₗ ℕ)) <
      rankOf targetPrefix targetAddress held) :
    search entry (nodeDistance targetPrefix targetAddress entry)
      (holding targetPrefix targetAddress held :: rest) i found = (i, found) := by
  cases held with
  | none => exact absurd above (not_lt_bot)
  | some other =>
      rw [rankOf, WithBot.coe_lt_coe, rank, rank, Prod.Lex.toLex_lt_toLex] at above
      simp only [search, holding]
      by_cases mine : nodeDistance targetPrefix targetAddress entry = 0#32 <;>
        by_cases its : nodeDistance targetPrefix targetAddress other = 0#32
      · have less : getValue entry < getValue other := by simpa [mine, its] using above
        simp [mine, its, less]
      · simp only [mine, its, decide_true, decide_false, Bool.true_eq_false, false_and,
          or_false] at above
        exact absurd above (by decide)
      · simp [mine, its]
      · have less : getValue entry < getValue other := by simpa [mine, its] using above
        simp [mine, its, less]

/-- It passes any other element, and it remembers where the address was. -/
theorem search_of_le {entry : Entry} {held : Option Entry} (rest : List Element) (i found : ℕ)
    (below : rankOf targetPrefix targetAddress held ≤
      (rank targetPrefix targetAddress entry : WithBot (Bool ×ₗ ℕ))) :
    search entry (nodeDistance targetPrefix targetAddress entry)
        (holding targetPrefix targetAddress held :: rest) i found =
      search entry (nodeDistance targetPrefix targetAddress entry) rest (i + 1)
        (if sameAddress entry i (holding targetPrefix targetAddress held) then i + 1
          else found) := by
  cases held with
  | none =>
      have unused : UINT32_MAX ≠ 0#32 := by decide
      have other : sameAddress entry i (holding targetPrefix targetAddress none) = false := by
        rw [← Bool.not_eq_true, sameAddress_holding]
        simp [HasAddress]
      simp only [search, other, Bool.false_eq_true, if_false]
      simp only [holding, Element.unused, unused, Nat.not_lt_zero, if_false, false_iff, ne_eq]
      by_cases mine : nodeDistance targetPrefix targetAddress entry = 0#32 <;> simp [mine]
  | some other =>
      rw [rankOf, WithBot.coe_le_coe, rank, rank, Prod.Lex.toLex_le_toLex] at below
      by_cases same : HasAddress entry (some other)
      · have near : nodeDistance targetPrefix targetAddress entry =
            nodeDistance targetPrefix targetAddress other := by
          rcases same with ⟨_, held, same⟩
          cases held
          exact nodeDistance_congr same
        have value : ¬getValue entry < getValue other := by
          rw [near] at below
          rcases below with less | ⟨_, le⟩
          · exact absurd less (lt_irrefl _)
          · exact not_lt.mpr le
        simp only [search, holding, near, value, if_true, if_false]
      · have differs : sameAddress entry i (holding targetPrefix targetAddress (some other)) =
            false := by
          rw [← Bool.not_eq_true, sameAddress_holding]
          exact fun found => same found.2
        simp only [search, differs, Bool.false_eq_true, if_false]
        simp only [holding]
        by_cases mine : nodeDistance targetPrefix targetAddress entry = 0#32 <;>
          by_cases its : nodeDistance targetPrefix targetAddress other = 0#32
        · have le : getValue other ≤ getValue entry := by simpa [mine, its] using below
          simp [mine, its, not_lt.mpr le]
        · simp [mine, its]
        · simp only [mine, its, decide_true, decide_false, Bool.true_eq_false, false_and,
            or_false] at below
          exact absurd below (by decide)
        · have le : getValue other ≤ getValue entry := by simpa [mine, its] using below
          simp [mine, its, not_lt.mpr le]

/-- Elements that do not rank above the node are passed. -/
theorem search_passed {entry : Entry} {passed : List (Option Entry)} (rest : List Element)
    (i found : ℕ) (below : ∀ held ∈ passed, rankOf targetPrefix targetAddress held ≤
      (rank targetPrefix targetAddress entry : WithBot (Bool ×ₗ ℕ))) :
    ∃ last, search entry (nodeDistance targetPrefix targetAddress entry)
        (passed.map (holding targetPrefix targetAddress) ++ rest) i found =
      search entry (nodeDistance targetPrefix targetAddress entry) rest (i + passed.length)
        last ∧
      ((∀ held ∈ passed, ¬HasAddress entry held) → last = found) := by
  induction passed generalizing i found with
  | nil => exact ⟨found, by simp, fun _ => rfl⟩
  | cons held passed ih =>
      rcases ih (i + 1) _ (fun other inside => below other (List.mem_cons_of_mem _ inside)) with
        ⟨last, equal, unseen⟩
      refine ⟨last, ?_, fun elsewhere => ?_⟩
      · rw [List.map_cons, List.cons_append,
          search_of_le _ _ _ (below held List.mem_cons_self), equal, List.length_cons]
        congr 1
        omega
      · rw [unseen fun other inside => elsewhere other (List.mem_cons_of_mem _ inside), if_neg]
        rw [sameAddress_holding]
        exact fun found => elsewhere held List.mem_cons_self found.2

/-- The loop is over at the first element that ranks above the node. -/
theorem search_stops {entry : Entry} {rest : List (Option Entry)} (i found : ℕ)
    (above : ∀ held ∈ rest.head?, (rank targetPrefix targetAddress entry :
      WithBot (Bool ×ₗ ℕ)) < rankOf targetPrefix targetAddress held) :
    search entry (nodeDistance targetPrefix targetAddress entry)
      (rest.map (holding targetPrefix targetAddress)) i found = (i, found) := by
  cases rest with
  | nil => rfl
  | cons held rest => exact search_of_lt _ _ _ (above held rfl)

end Places

/-! ## The array -/

theorem ite_moveDown (nodes : List Element) (count : ℕ) :
    (if 1 < count + 1 then moveDown nodes count else nodes) = moveDown nodes count := by
  cases count with
  | zero => simp [moveDown]
  | succ count => exact if_pos (by omega)

/-- The array without its first element, with a new one where the elements have moved away -/
theorem set_moveDown (first : Element) (passed rest : List Element) (new : Element) :
    (moveDown (first :: passed ++ rest) passed.length).set passed.length new =
      passed ++ new :: rest := by
  have tail : (first :: passed ++ rest).drop passed.length =
      (first :: passed).drop passed.length ++ rest :=
    List.drop_append_of_le_length (by simp)
  have one : ((first :: passed).drop passed.length).length = 1 := by simp
  rcases List.length_eq_one_iff.mp one with ⟨last, single⟩
  rw [moveDown, List.cons_append, List.drop_one, List.tail_cons, List.take_left,
    ← List.cons_append, tail, single, List.set_append_right _ _ le_rfl, Nat.sub_self]
  rfl

section Places

variable (targetPrefix : BitVec 32) (targetAddress : Address) (entry : Entry)

/-- An element does not rank above the node. -/
def IsPassed (held : Option Entry) : Prop :=
  rankOf targetPrefix targetAddress held ≤
    (rank targetPrefix targetAddress entry : WithBot (Bool ×ₗ ℕ))

/-- What becomes of an array when an admissible node is offered -/
inductive Takes : List (Option Entry) → List (Option Entry) → Prop where
  /-- The worst element ranks above the node already. -/
  | none (rest : List (Option Entry))
      (above : ∀ held ∈ rest.head?, ¬IsPassed targetPrefix targetAddress entry held) :
      Takes rest rest
  /-- The node goes in behind the elements that it has passed. -/
  | insert (first : Option Entry) (passed rest : List (Option Entry))
      (below : ∀ held ∈ first :: passed, IsPassed targetPrefix targetAddress entry held)
      (above : ∀ held ∈ rest.head?, ¬IsPassed targetPrefix targetAddress entry held)
      (unseen : ∀ held ∈ passed, ¬HasAddress entry held) :
      Takes (first :: passed ++ rest) (passed ++ some entry :: rest)
  /-- The node takes the place of an element with its address. -/
  | replace (first : Option Entry) (front : List (Option Entry)) (old : Option Entry)
      (back rest : List (Option Entry))
      (below : ∀ held ∈ first :: (front ++ old :: back),
        IsPassed targetPrefix targetAddress entry held)
      (above : ∀ held ∈ rest.head?, ¬IsPassed targetPrefix targetAddress entry held)
      (same : HasAddress entry old) (unseen : ∀ held ∈ back, ¬HasAddress entry held) :
      Takes (first :: (front ++ old :: back) ++ rest)
        (first :: (front ++ some entry :: back) ++ rest)

variable {targetPrefix targetAddress entry}

/-- Where the loop ends in an array of which it passes the elements up to some place -/
theorem search_first {first : Option Entry} {passed rest : List (Option Entry)}
    (below : ∀ held ∈ first :: passed, IsPassed targetPrefix targetAddress entry held)
    (above : ∀ held ∈ rest.head?, ¬IsPassed targetPrefix targetAddress entry held) :
    ∃ found, search entry (nodeDistance targetPrefix targetAddress entry)
        ((first :: passed ++ rest).map (holding targetPrefix targetAddress)) 0 0 =
      (passed.length + 1, found) ∧
      ((∀ held ∈ passed, ¬HasAddress entry held) → found = 0) ∧
      ∀ front old back, passed = front ++ old :: back → HasAddress entry old →
        (∀ held ∈ back, ¬HasAddress entry held) → found = front.length + 2 := by
  have stops := fun i found => search_stops i found
    fun held inside => not_le.mp (above held inside)
  have start : search entry (nodeDistance targetPrefix targetAddress entry)
      ((first :: passed ++ rest).map (holding targetPrefix targetAddress)) 0 0 =
        search entry (nodeDistance targetPrefix targetAddress entry)
          (passed.map (holding targetPrefix targetAddress) ++
            rest.map (holding targetPrefix targetAddress)) 1 0 := by
    rw [List.cons_append, List.map_cons, search_of_le _ _ _ (below first List.mem_cons_self),
      if_neg, List.map_append]
    rw [sameAddress_holding]
    exact fun later => absurd later.1 (lt_irrefl 0)
  have passedBelow : ∀ held ∈ passed, IsPassed targetPrefix targetAddress entry held :=
    fun held inside => below held (List.mem_cons_of_mem _ inside)
  rcases search_passed (rest.map (holding targetPrefix targetAddress)) 1 0 passedBelow with
    ⟨found, equal, unseen⟩
  rw [stops] at equal
  refine ⟨found, by rw [start, equal, Nat.add_comm], unseen, ?_⟩
  rintro front old back rfl same absent
  rw [List.map_append, List.append_assoc] at equal
  rcases search_passed ((old :: back).map (holding targetPrefix targetAddress) ++
      rest.map (holding targetPrefix targetAddress)) 1 0
      (fun held inside => passedBelow held (List.mem_append_left _ inside)) with
    ⟨earlier, toOld, _⟩
  rw [toOld, List.map_cons, List.cons_append, search_of_le _ _ _
    (passedBelow old (List.mem_append_right _ List.mem_cons_self)), if_pos] at equal
  · rcases search_passed (rest.map (holding targetPrefix targetAddress)) (1 + front.length + 1)
        (1 + front.length + 1) (fun held inside => passedBelow held
          (List.mem_append_right _ (List.mem_cons_of_mem _ inside))) with ⟨last, toEnd, stays⟩
    rw [toEnd, stops, Prod.mk.injEq] at equal
    rw [← equal.2, stays absent]
    omega
  · rw [sameAddress_holding]
    exact ⟨by omega, same⟩

/-- What a node does to the array: it goes in, or takes a place, or nothing. -/
theorem addNode_takes {collector : NodeCollector} {positions : List (Option Entry)}
    (exact : collector.nodes =
      positions.map (holding collector.targetPrefix collector.targetAddress))
    (near : IsAdmissible collector entry) :
    ∃ after, Takes collector.targetPrefix collector.targetAddress entry positions after ∧
      addNode entry collector = { collector with
        nodes := after.map (holding collector.targetPrefix collector.targetAddress) } := by
  rcases Selection.exists_leading
      (IsPassed collector.targetPrefix collector.targetAddress entry) positions with
    ⟨taken, rest, rfl, below, above⟩
  rw [IsAdmissible] at near
  cases taken with
  | nil =>
      refine ⟨rest, .none rest above, ?_⟩
      have stops := search_stops 0 0
        fun held inside => not_le.mp (above held inside)
      rw [List.nil_append] at exact
      simp only [addNode, near, if_true, exact, stops, gt_iff_lt, lt_irrefl, if_false]
      rw [← exact]
  | cons first passed =>
      rcases search_first below above with ⟨found, equal, unseen, seen⟩
      rcases Selection.forall_not_or_exists_last (HasAddress entry) passed with absent |
        ⟨front, old, back, rfl, same, absent⟩
      · refine ⟨passed ++ some entry :: rest, .insert first passed rest below above absent, ?_⟩
        rw [unseen absent] at equal
        simp only [addNode, near, if_true, exact, equal, gt_iff_lt, Nat.succ_pos, lt_irrefl,
          if_false, Nat.add_sub_cancel]
        congr 1
        have shifted := set_moveDown (holding collector.targetPrefix collector.targetAddress first)
          (passed.map (holding collector.targetPrefix collector.targetAddress))
          (rest.map (holding collector.targetPrefix collector.targetAddress))
          (holding collector.targetPrefix collector.targetAddress (some entry))
        rw [List.length_map] at shifted
        rw [ite_moveDown, List.map_append, List.map_append, List.map_cons, List.map_cons]
        exact shifted
      · refine ⟨_, .replace first front old back rest below above same absent, ?_⟩
        rw [seen front old back rfl same absent] at equal
        simp only [addNode, near, if_true, exact, equal, gt_iff_lt, Nat.succ_pos]
        congr 1
        have place : (first :: (front ++ old :: back) ++ rest).set (front.length + 1)
            (some entry) = first :: (front ++ some entry :: back) ++ rest := by
          simp
        rw [← place, List.map_set]
        rfl

/-! ## Order and addresses after a step -/

/-- Two elements have different addresses, if they are in use. -/
def Apart (one two : Option Entry) : Prop :=
  ∀ first ∈ one, ∀ second ∈ two, first.body.address.ip6 ≠ second.body.address.ip6

theorem apart_some_left {held : Option Entry} :
    Apart (some entry) held ↔ ¬HasAddress entry held := by
  simp [Apart, HasAddress]

theorem apart_some_right {held : Option Entry} :
    Apart held (some entry) ↔ ¬HasAddress entry held := by
  simp only [Apart, HasAddress, Option.mem_some_iff, forall_eq', not_exists, not_and, ne_comm,
    ne_eq]

/-- The place of an element is the same for all nodes with its address. -/
theorem apart_congr {old held : Option Entry} (same : HasAddress entry old) :
    (Apart old held ↔ Apart (some entry) held) ∧ (Apart held old ↔ Apart held (some entry)) := by
  rcases same with ⟨other, inside, same⟩
  cases inside
  simp [Apart, same]

/-- An address is in one place of an array of different addresses. -/
theorem place_unique {front front' back back' : List (Option Entry)} {old old' : Option Entry}
    (apart : (front ++ old :: back).Pairwise Apart) (same : HasAddress entry old)
    (same' : HasAddress entry old') (equal : front ++ old :: back = front' ++ old' :: back') :
    front = front' ∧ old = old' ∧ back = back' := by
  have clash {one two : Option Entry} (first : HasAddress entry one)
      (second : HasAddress entry two) : ¬Apart one two := by
    rw [(apart_congr first).1, apart_some_left]
    exact not_not_intro second
  induction front generalizing front' with
  | nil =>
      cases front' with
      | nil => exact ⟨rfl, List.cons.inj equal⟩
      | cons first front' =>
          rcases List.cons.inj equal with ⟨rfl, rest⟩
          refine absurd ((List.pairwise_cons.mp apart).1 old' ?_) (clash same same')
          rw [rest]
          exact List.mem_append_right _ List.mem_cons_self
  | cons first front ih =>
      rw [List.cons_append, List.pairwise_cons] at apart
      cases front' with
      | nil =>
          rcases List.cons.inj equal with ⟨rfl, rest⟩
          exact absurd (apart.1 old (List.mem_append_right _ List.mem_cons_self))
            (clash same' same)
      | cons first' front' =>
          rcases List.cons.inj equal with ⟨rfl, rest⟩
          rcases ih apart.2 rest with ⟨rfl, rfl, rfl⟩
          exact ⟨rfl, rfl, rfl⟩

variable (targetPrefix targetAddress) in
/-- The order of the elements, from the worst to the best -/
def Below (one two : Option Entry) : Prop :=
  rankOf targetPrefix targetAddress one ≤ rankOf targetPrefix targetAddress two

variable (targetPrefix targetAddress entry) in
/-- The node is worse than the worst element, or its address is found where it belongs: at
the low end, or where nothing that is worse than the node comes after it. -/
def IsPlaced (positions : List (Option Entry)) : Prop :=
  ∀ front old back, positions = front ++ old :: back → HasAddress entry old →
    (∀ worst ∈ positions.head?, ¬IsPassed targetPrefix targetAddress entry worst) ∨
      IsPassed targetPrefix targetAddress entry old ∧
        (front = [] ∨ ∀ held ∈ back, Below targetPrefix targetAddress (some entry) held)

/-- What comes after an element above the node is above the node. -/
theorem not_isPassed_of_head {rest : List (Option Entry)}
    (ordered : rest.Pairwise (Below targetPrefix targetAddress))
    (above : ∀ held ∈ rest.head?, ¬IsPassed targetPrefix targetAddress entry held) :
    ∀ held ∈ rest, ¬IsPassed targetPrefix targetAddress entry held := by
  intro held inside passed
  cases rest with
  | nil => exact absurd inside List.not_mem_nil
  | cons first rest =>
      apply above first rfl
      rcases List.mem_cons.mp inside with rfl | inside
      · exact passed
      · exact le_trans ((List.pairwise_cons.mp ordered).1 held inside) passed

theorem below_of_not_isPassed {held : Option Entry}
    (above : ¬IsPassed targetPrefix targetAddress entry held) :
    Below targetPrefix targetAddress (some entry) held :=
  (not_le.mp above).le

/-- Order and addresses are kept by a step exactly if the node is placed. -/
theorem Takes.keeps_iff {before after : List (Option Entry)}
    (takes : Takes targetPrefix targetAddress entry before after)
    (ordered : before.Pairwise (Below targetPrefix targetAddress))
    (apart : before.Pairwise Apart) :
    after.Pairwise (Below targetPrefix targetAddress) ∧ after.Pairwise Apart ↔
      IsPlaced targetPrefix targetAddress entry before := by
  cases takes with
  | none _ above => exact iff_of_true ⟨ordered, apart⟩ fun _ _ _ _ _ => Or.inl above
  | insert first passed rest below above unseen =>
      rw [List.cons_append, List.pairwise_cons] at ordered apart
      rcases List.pairwise_append.mp ordered.2 with ⟨passedOrdered, restOrdered, _⟩
      rcases List.pairwise_append.mp apart.2 with ⟨passedApart, restApart, across⟩
      have higher := not_isPassed_of_head restOrdered above
      have low : IsPassed targetPrefix targetAddress entry first := below first List.mem_cons_self
      constructor
      · rintro ⟨_, distinct⟩ front old back equal same
        refine Or.inr ?_
        cases front with
        | nil =>
            rcases List.cons.inj equal with ⟨rfl, _⟩
            exact ⟨low, Or.inl rfl⟩
        | cons first' front =>
            have tail : passed ++ rest = front ++ old :: back := (List.cons.inj equal).2
            have inside : old ∈ passed ++ rest := by
              rw [tail]
              exact List.mem_append_right _ List.mem_cons_self
            rcases List.mem_append.mp inside with inside | inside
            · exact absurd same (unseen old inside)
            · have other := (List.pairwise_cons.mp (List.pairwise_append.mp distinct).2.1).1
                old inside
              exact absurd same (apart_some_left.mp other)
      · intro placed
        have fresh : ∀ held ∈ rest, ¬HasAddress entry held := by
          intro held inside same
          rcases List.append_of_mem inside with ⟨front, back, rfl⟩
          rcases placed (first :: passed ++ front) held back (by simp) same with above | ⟨passed, _⟩
          · exact above first rfl low
          · exact higher held inside passed
        constructor
        · refine List.pairwise_append.mpr ⟨passedOrdered, List.pairwise_cons.mpr
            ⟨fun held inside => below_of_not_isPassed (higher held inside), restOrdered⟩, ?_⟩
          intro held inside other later
          have passes := below held (List.mem_cons_of_mem _ inside)
          rcases List.mem_cons.mp later with rfl | later
          · exact passes
          · exact le_trans passes (below_of_not_isPassed (higher other later))
        · refine List.pairwise_append.mpr ⟨passedApart, List.pairwise_cons.mpr
            ⟨fun held inside => apart_some_left.mpr (fresh held inside), restApart⟩, ?_⟩
          intro held inside other later
          rcases List.mem_cons.mp later with rfl | later
          · exact apart_some_right.mpr (unseen held inside)
          · exact across held inside other later
  | replace first front old back rest below above same unseen =>
      have shape (held : Option Entry) : first :: (front ++ held :: back) ++ rest =
          (first :: front) ++ held :: (back ++ rest) := by simp
      rw [shape] at ordered apart ⊢
      rw [shape]
      rcases List.pairwise_append.mp ordered with ⟨frontOrdered, oldOrdered, across⟩
      rcases List.pairwise_append.mp apart with ⟨frontApart, oldApart, acrossApart⟩
      rw [List.pairwise_cons] at oldOrdered oldApart
      have passes : ∀ held ∈ first :: front, IsPassed targetPrefix targetAddress entry held := by
        intro held inside
        apply below held
        rw [← List.cons_append]
        exact List.mem_append_left _ inside
      constructor
      · rintro ⟨sorted, _⟩ front' old' back' equal same'
        rcases place_unique apart same same' equal with ⟨rfl, rfl, rfl⟩
        refine Or.inr ⟨below old ?_, Or.inr ?_⟩
        · simp
        · exact (List.pairwise_cons.mp (List.pairwise_append.mp sorted).2.1).1
      · intro placed
        rcases placed (first :: front) old (back ++ rest) rfl same with above | ⟨_, empty | later⟩
        · exact absurd (passes first List.mem_cons_self) (above first rfl)
        · exact absurd empty (List.cons_ne_nil _ _)
        · constructor
          · refine List.pairwise_append.mpr ⟨frontOrdered, List.pairwise_cons.mpr
              ⟨later, oldOrdered.2⟩, ?_⟩
            intro held inside other after
            rcases List.mem_cons.mp after with rfl | after
            · exact passes held inside
            · exact across held inside other (List.mem_cons_of_mem _ after)
          · refine List.pairwise_append.mpr ⟨frontApart, List.pairwise_cons.mpr
              ⟨fun held inside => (apart_congr same).1.mp (oldApart.1 held inside),
                oldApart.2⟩, ?_⟩
            intro held inside other after
            rcases List.mem_cons.mp after with rfl | after
            · exact (apart_congr same).2.mp (acrossApart held inside old List.mem_cons_self)
            · exact acrossApart held inside other (List.mem_cons_of_mem _ after)

/-- The last element is as good as the node and as good as it was. -/
theorem le_getLast {before after rest : List (Option Entry)} {bound : WithBot (Bool ×ₗ ℕ)}
    (nonempty : before ≠ [])
    (below : ∀ held ∈ before, IsPassed targetPrefix targetAddress entry held)
    (ordered : (after ++ some entry :: rest).Pairwise (Below targetPrefix targetAddress))
    (best : ∀ last ∈ (before ++ rest).getLast?, bound ≤ rankOf targetPrefix targetAddress last) :
    ∀ last ∈ (after ++ some entry :: rest).getLast?,
      bound ≤ rankOf targetPrefix targetAddress last ∧
        Below targetPrefix targetAddress (some entry) last := by
  rcases List.eq_nil_or_concat' rest with rfl | ⟨rest, last, rfl⟩
  · rcases List.eq_nil_or_concat' before with rfl | ⟨before, last, rfl⟩
    · exact absurd rfl nonempty
    · intro new inside
      rw [List.getLast?_concat, Option.mem_some_iff] at inside
      subst inside
      rw [List.append_nil] at best
      have bounded := best last (by rw [List.getLast?_concat]; rfl)
      exact ⟨le_trans bounded (below last (List.mem_append_right _ List.mem_cons_self)), le_refl _⟩
  · intro other inside
    rw [← List.cons_append, ← List.append_assoc, List.getLast?_concat,
      Option.mem_some_iff] at inside
    subst inside
    refine ⟨best last (by rw [← List.append_assoc, List.getLast?_concat]; rfl), ?_⟩
    have later := (List.pairwise_cons.mp (List.pairwise_append.mp ordered).2.1).1
    exact later last (List.mem_append_right _ List.mem_cons_self)

/-- A bound that the last element meets, it meets after the step, and so does the node. -/
theorem Takes.best {before after : List (Option Entry)} {bound : WithBot (Bool ×ₗ ℕ)}
    (takes : Takes targetPrefix targetAddress entry before after)
    (ordered : after.Pairwise (Below targetPrefix targetAddress))
    (best : ∀ last ∈ before.getLast?, bound ≤ rankOf targetPrefix targetAddress last) :
    ∀ last ∈ after.getLast?, bound ≤ rankOf targetPrefix targetAddress last ∧
      Below targetPrefix targetAddress (some entry) last := by
  cases takes with
  | none _ above =>
      intro last inside
      refine ⟨best last inside, below_of_not_isPassed ?_⟩
      exact not_isPassed_of_head ordered above last (List.mem_of_getLast? inside)
  | insert first passed rest below above unseen =>
      exact le_getLast (List.cons_ne_nil _ _) below ordered best
  | replace first front old back rest below above same unseen =>
      have shape (held : Option Entry) : first :: (front ++ held :: back) ++ rest =
          (first :: front) ++ held :: (back ++ rest) := by simp
      have shape' : first :: (front ++ old :: back) ++ rest =
          (first :: (front ++ [old])) ++ (back ++ rest) := by simp
      rw [shape] at ordered ⊢
      rw [shape'] at best
      refine le_getLast (List.cons_ne_nil _ _) (fun held inside => below held ?_) ordered best
      simp only [List.mem_cons, List.mem_append, List.not_mem_nil, or_false] at inside ⊢
      rcases inside with first | front | old
      · exact Or.inl first
      · exact Or.inr (Or.inl front)
      · exact Or.inr (Or.inr (Or.inl old))

/-- A node of the array was there before, or it is the one that is offered. -/
theorem Takes.mem {before after : List (Option Entry)}
    (takes : Takes targetPrefix targetAddress entry before after) {held : Option Entry}
    (inside : held ∈ after) : held ∈ before ∨ held = some entry := by
  cases takes with
  | none => exact Or.inl inside
  | insert first passed rest below above unseen =>
      simp only [List.mem_append, List.mem_cons] at inside ⊢
      tauto
  | replace first front old back rest below above same unseen =>
      simp only [List.mem_append, List.mem_cons] at inside ⊢
      tauto

end Places

/-! ## Runs -/

/-- The nodes of the array, from its low end on -/
def positions (collector : NodeCollector) : List (Option Entry) :=
  collector.nodes.map (·.node)

/-- Nodes are offered one after the other. -/
def collect (collector : NodeCollector) (offered : List Entry) : NodeCollector :=
  offered.foldl (fun collector entry => addNode entry collector) collector

/-- What is expected of a collector to which some nodes have been offered -/
structure InOrder (offered : List Entry) (collector : NodeCollector) : Prop where
  exact : collector.nodes = (positions collector).map
    (holding collector.targetPrefix collector.targetAddress)
  /-- The elements in use are at the high end, in order from the worst to the best. -/
  ordered : (positions collector).Pairwise
    (Below collector.targetPrefix collector.targetAddress)
  /-- What is in use holds an admissible node that was offered. -/
  source : ∀ entry, some entry ∈ positions collector →
    entry ∈ offered ∧ IsAdmissible collector entry
  /-- The last element is as good as any of these. -/
  best : ∀ last ∈ (positions collector).getLast?, ∀ entry ∈ offered,
    IsAdmissible collector entry →
      Below collector.targetPrefix collector.targetAddress (some entry) last
  /-- No two elements have the same address. -/
  distinct : (positions collector).Pairwise Apart

/-- An admissible node finds its place in the array. -/
def Placed (entry : Entry) (collector : NodeCollector) : Prop :=
  IsAdmissible collector entry →
    IsPlaced collector.targetPrefix collector.targetAddress entry (positions collector)

/-- Elements that hold nodes hold these. -/
theorem map_node {element : Option Entry → Element} (holds : ∀ held, (element held).node = held)
    (held : List (Option Entry)) : (held.map element).map (·.node) = held := by
  rw [List.map_map]
  exact List.map_id'' holds held

theorem node_holding (targetPrefix : BitVec 32) (targetAddress : Address) (held : Option Entry) :
    (holding targetPrefix targetAddress held).node = held := by
  cases held <;> rfl

theorem addNode_of_not_isAdmissible {entry : Entry} {collector : NodeCollector}
    (far : ¬IsAdmissible collector entry) : addNode entry collector = collector := by
  rw [IsAdmissible] at far
  simp only [addNode, far, if_false]

/-- A call keeps the collector in order exactly if the node finds its place. -/
theorem inOrder_addNode_iff {offered : List Entry} {entry : Entry} {collector : NodeCollector}
    (before : InOrder offered collector) :
    InOrder (offered ++ [entry]) (addNode entry collector) ↔ Placed entry collector := by
  by_cases near : IsAdmissible collector entry
  · rcases addNode_takes before.exact near with ⟨after, takes, result⟩
    have nodes : positions (addNode entry collector) = after := by
      rw [result, positions, map_node (node_holding _ _)]
    have keeps := takes.keeps_iff before.ordered before.distinct
    rw [Placed, imp_iff_right near, ← keeps]
    constructor
    · intro holds
      have ordered := holds.ordered
      have distinct := holds.distinct
      rw [nodes] at ordered distinct
      rw [addNode_targetPrefix, addNode_targetAddress] at ordered
      exact ⟨ordered, distinct⟩
    · rintro ⟨ordered, distinct⟩
      have admissible (other : Entry) :
          IsAdmissible (addNode entry collector) other ↔ IsAdmissible collector other := by
        simp only [IsAdmissible, addNode_targetPrefix, addNode_targetAddress,
          addNode_thisNodeDistance]
      constructor
      · rw [nodes, result]
      · rwa [nodes, addNode_targetPrefix, addNode_targetAddress]
      · intro other inside
        rw [nodes] at inside
        rw [admissible, List.mem_append, List.mem_singleton]
        rcases takes.mem inside with earlier | new
        · exact ⟨Or.inl (before.source other earlier).1, (before.source other earlier).2⟩
        · cases new
          exact ⟨Or.inr rfl, near⟩
      · intro last inside other known accepted
        rw [nodes] at inside
        rw [admissible] at accepted
        rw [addNode_targetPrefix, addNode_targetAddress]
        rcases List.mem_append.mp known with earlier | new
        · exact (takes.best ordered
            (fun last inside => before.best last inside other earlier accepted) last inside).1
        · rw [List.mem_singleton.mp new]
          have least : ∀ last ∈ (positions collector).getLast?,
              ⊥ ≤ rankOf collector.targetPrefix collector.targetAddress last :=
            fun _ _ => bot_le
          exact (takes.best ordered least last inside).2
      · rwa [nodes]
  · rw [addNode_of_not_isAdmissible near]
    refine iff_of_true ?_ fun accepted => absurd accepted near
    refine { before with
      source := fun other inside => ⟨List.mem_append_left _ (before.source other inside).1,
        (before.source other inside).2⟩
      best := fun last inside other known accepted => ?_ }
    rcases List.mem_append.mp known with earlier | new
    · exact before.best last inside other earlier accepted
    · rw [List.mem_singleton.mp new] at accepted
      exact absurd accepted near

theorem inOrder_new (target self : Address) (capacity : ℕ) (farther : Bool) :
    InOrder [] (NodeCollector.new target capacity self farther) := by
  have unused : positions (NodeCollector.new target capacity self farther) =
      List.replicate capacity none := by
    simp [positions, NodeCollector.new, NodeCollector.Element.unused]
  constructor
  · rw [unused, List.map_replicate]
    rfl
  · rw [unused, List.pairwise_replicate]
    exact Or.inr le_rfl
  · intro entry inside
    rw [unused] at inside
    exact absurd (List.eq_of_mem_replicate inside) (Option.some_ne_none entry)
  · intro _ _ entry inside
    exact absurd inside List.not_mem_nil
  · rw [unused, List.pairwise_replicate]
    exact Or.inr fun _ inside => absurd inside (Option.not_mem_none _)

theorem collect_concat (collector : NodeCollector) (offered : List Entry) (entry : Entry) :
    collect collector (offered ++ [entry]) = addNode entry (collect collector offered) := by
  rw [collect, List.foldl_append]
  rfl

/--
A collector is in order after every call of a run exactly if in each call the node
found its place.
-/
theorem inOrder_iff_placed (target self : Address) (capacity : ℕ) (farther : Bool)
    (offered : List Entry) :
    (∀ seen, seen <+: offered →
        InOrder seen (collect (NodeCollector.new target capacity self farther) seen)) ↔
      ∀ seen entry, seen ++ [entry] <+: offered →
        Placed entry (collect (NodeCollector.new target capacity self farther) seen) := by
  constructor
  · intro holds seen entry part
    have before := holds seen ((List.prefix_append seen [entry]).trans part)
    have after := holds (seen ++ [entry]) part
    rw [collect_concat] at after
    exact (inOrder_addNode_iff before).mp after
  · intro placed seen
    induction seen using List.reverseRecOn with
    | nil => exact fun _ => inOrder_new target self capacity farther
    | append_singleton seen entry ih =>
        intro part
        have before := ih ((List.prefix_append seen [entry]).trans part)
        rw [collect_concat]
        exact (inOrder_addNode_iff before).mpr (placed seen entry part)

/-- Among the matches, and among the other nodes, the values are in order. -/
theorem InOrder.values {offered : List Entry} {collector : NodeCollector}
    (holds : InOrder offered collector) :
    collector.nodes.Pairwise fun one two =>
      (one.distance = 0#32 ↔ two.distance = 0#32) → one.value ≤ two.value := by
  rw [holds.exact, List.pairwise_map]
  refine holds.ordered.imp fun {one two} below agree => ?_
  cases one with
  | none => exact Nat.zero_le _
  | some one =>
      cases two with
      | none => exact absurd below (not_le.mpr (WithBot.bot_lt_coe _))
      | some two =>
          rw [Below, rankOf, rankOf, WithBot.coe_le_coe, rank, rank,
            Prod.Lex.toLex_le_toLex] at below
          rcases below with less | ⟨_, le⟩
          · simp only [holding] at agree
            simp only [agree] at less
            exact absurd less (lt_irrefl _)
          · exact le

omit [AddressCalc] in
/-- A better path to the worse of two nodes leaves it below the other one. -/
theorem better_path_below :
    letI := AddressCalc.plain
    ∃ (target self : Address) (offered : List Entry),
      ¬∀ seen, seen <+: offered →
        InOrder seen (collect (NodeCollector.new target 3 self true) seen) := by
  let := AddressCalc.plain
  let address (key : BitVec 256) (path : BitVec 64) : Address :=
    { ip6 := AddressCalc.addressForPublicKey key, key := key, path := path }
  let node (address : Address) : Entry :=
    (Entry.replaceNode { reach := 0, version := 0, address := address } address).withReach 1
  refine ⟨address 1 1, address 1 1, [node (address 0x200000000 0x1015),
    node (address 0x300000000 0x115), node (address 0x200000000 0x17)], fun holds => ?_⟩
  exact absurd (holds _ (List.prefix_refl _)).values (by decide +kernel)

end LinkStateNodeCollector

end Cjdns
