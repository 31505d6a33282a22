import Mathlib.Tactic
import Mathlib.Data.List.Sort
import Mathlib.Data.Prod.Lex
import Mathlib.Order.WithBot

/-!
# Ranking a list

The items of a list are ranked by a key, the earlier ones first among those of equal
key. An array of a fixed size in which each item is put behind those of smaller key, and
which drops its first element for that, ends with the best items of the list
(`foldl_place`). Two keys have the same best items exactly if they agree on how these
compare with all others (`best_eq_iff`).
-/

namespace Cjdns.Ranking

variable {α β : Type*} [LinearOrder β]

/-- Where an item stands that is at a position of the list -/
def standing (key : α → β) (item : α × ℕ) : β ×ₗ ℕᵒᵈ :=
  toLex (key item.1, OrderDual.toDual item.2)

/-- The items with their positions, from the worst to the best -/
def ranking (key : α → β) (items : List α) : List (α × ℕ) :=
  items.zipIdx.insertionSort fun one two => standing key one ≤ standing key two

/-- The best items, as many as are wanted and there are, from the worst to the best -/
def best (key : α → β) (count : ℕ) (items : List α) : List α :=
  ((ranking key items).drop (items.length - count)).map Prod.fst

/-- How many items of a list stand above an item -/
def above (key : α → β) (items : List α) (item : α × ℕ) : ℕ :=
  items.zipIdx.countP fun other => standing key item < standing key other

theorem standing_lt_iff {key : α → β} {one two : α × ℕ} :
    standing key one < standing key two ↔
      key one.1 < key two.1 ∨ key one.1 = key two.1 ∧ two.2 < one.2 := by
  rw [standing, standing, Prod.Lex.toLex_lt_toLex]
  rfl

theorem standing_le_iff {key : α → β} {one two : α × ℕ} :
    standing key one ≤ standing key two ↔
      key one.1 < key two.1 ∨ key one.1 = key two.1 ∧ two.2 ≤ one.2 := by
  rw [standing, standing, Prod.Lex.toLex_le_toLex]
  rfl

omit [LinearOrder β] in
/-- Two items of a list never stand at the same place. -/
theorem eq_of_standing_eq {key : α → β} {items : List α} {one two : α × ℕ}
    (first : one ∈ items.zipIdx) (second : two ∈ items.zipIdx)
    (same : standing key one = standing key two) : one = two := by
  have position : one.2 = two.2 := congrArg (fun place => (ofLex place).2) same
  rw [List.mem_zipIdx_iff_getElem?] at first second
  rw [position, second, Option.some.injEq] at first
  exact Prod.ext first.symm position

theorem perm_ranking (key : α → β) (items : List α) : (ranking key items).Perm items.zipIdx :=
  List.perm_insertionSort _ _

@[simp]
theorem mem_ranking (key : α → β) {items : List α} {item : α × ℕ} :
    item ∈ ranking key items ↔ item ∈ items.zipIdx :=
  (perm_ranking key items).mem_iff

@[simp]
theorem length_ranking (key : α → β) (items : List α) :
    (ranking key items).length = items.length := by
  rw [(perm_ranking key items).length_eq, List.length_zipIdx]

theorem pairwise_le_ranking (key : α → β) (items : List α) :
    (ranking key items).Pairwise fun one two => standing key one ≤ standing key two := by
  have : Std.Total fun one two : α × ℕ => standing key one ≤ standing key two :=
    ⟨fun one two => le_total (standing key one) (standing key two)⟩
  have : IsTrans (α × ℕ) fun one two => standing key one ≤ standing key two :=
    ⟨fun _ _ _ => le_trans⟩
  exact List.pairwise_insertionSort _ _

theorem pairwise_lt_ranking (key : α → β) (items : List α) :
    (ranking key items).Pairwise fun one two => standing key one < standing key two := by
  have different : (ranking key items).Nodup := by
    rw [(perm_ranking key items).nodup_iff]
    apply List.Nodup.of_map Prod.snd
    rw [List.zipIdx_map_snd]
    exact List.nodup_range'
  refine ((pairwise_le_ranking key items).and different).imp_of_mem ?_
  rintro one two first second ⟨le, other⟩
  refine lt_of_le_of_ne le fun same => other ?_
  exact eq_of_standing_eq ((mem_ranking key).mp first) ((mem_ranking key).mp second) same

/-! ## One item more -/

/-- An order is carried along an insertion if it agrees on the item that goes in. -/
theorem map_orderedInsert_of_agree {δ ε : Type*} {one : δ → δ → Prop} (two : ε → ε → Prop)
    [DecidableRel one] [DecidableRel two] (project : δ → ε) (new : δ) (items : List δ)
    (agree : ∀ item ∈ items, one new item ↔ two (project new) (project item)) :
    (items.orderedInsert one new).map project =
      (items.map project).orderedInsert two (project new) := by
  induction items with
  | nil => rfl
  | cons item items ih =>
      have here := agree item List.mem_cons_self
      have later := ih fun other inside => agree other (List.mem_cons_of_mem _ inside)
      by_cases before : one new item
      · simp [before, here.mp before]
      · have after : ¬two (project new) (project item) := fun holds => before (here.mpr holds)
        simp [before, after, later]

theorem ranking_concat (key : α → β) (items : List α) (new : α) :
    ranking key (items ++ [new]) = (ranking key items).orderedInsert
      (fun one two => standing key one ≤ standing key two) (new, items.length) := by
  have : Std.Total fun one two : α × ℕ => standing key one ≤ standing key two :=
    ⟨fun one two => le_total (standing key one) (standing key two)⟩
  have : IsTrans (α × ℕ) fun one two => standing key one ≤ standing key two :=
    ⟨fun _ _ _ => le_trans⟩
  have perm : (ranking key (items ++ [new])).Perm ((ranking key items).orderedInsert
      (fun one two => standing key one ≤ standing key two) (new, items.length)) := by
    refine (perm_ranking key _).trans (List.Perm.trans ?_ (List.perm_orderedInsert _ _ _).symm)
    rw [List.zipIdx_append, List.zipIdx_singleton, zero_add]
    exact (List.perm_append_singleton _ _).trans ((perm_ranking key items).symm.cons _)
  refine List.Perm.eq_of_pairwise ?_ (pairwise_le_ranking key _)
    ((pairwise_le_ranking key items).orderedInsert _ _) perm
  intro one two first second le ge
  exact eq_of_standing_eq ((mem_ranking key).mp first)
    ((mem_ranking key).mp (perm.mem_iff.mpr second))
    (le_antisymm le ge)

/-- The last item of a list is the worst among those of equal key. -/
theorem map_fst_ranking_concat (key : α → β) (items : List α) (new : α) :
    (ranking key (items ++ [new])).map Prod.fst =
      ((ranking key items).map Prod.fst).orderedInsert
        (fun one two => key one ≤ key two) new := by
  rw [ranking_concat, map_orderedInsert_of_agree fun one two => key one ≤ key two]
  intro item inside
  have earlier : item.2 < items.length := by
    have position := List.mem_zipIdx_iff_getElem?.mp ((mem_ranking key).mp inside)
    exact (List.getElem?_eq_some_iff.mp position).1
  rw [standing_le_iff]
  constructor
  · rintro (less | ⟨same, _⟩)
    · exact less.le
    · exact same.le
  · intro le
    rcases le.lt_or_eq with less | same
    · exact Or.inl less
    · exact Or.inr ⟨same, earlier.le⟩

/-! ## An array of a fixed size -/

/-- The rank of a place; one that is free ranks below all items. -/
def rankOf (key : α → β) : Option α → WithBot β
  | none => ⊥
  | some item => (key item : β)

/-- An item is put behind those of smaller key, and the first element is dropped. -/
def place (key : α → β) (new : α) (held : List (Option α)) : List (Option α) :=
  (held.orderedInsert (fun one two => rankOf key one ≤ rankOf key two) (some new)).tail

/-- Where an item goes in that is above one part of the array and not above the rest -/
theorem place_append {key : α → β} {new : α} {passed rest : List (Option α)}
    (below : ∀ held ∈ passed, ¬rankOf key (some new) ≤ rankOf key held)
    (above : ∀ held ∈ rest.head?, rankOf key (some new) ≤ rankOf key held) :
    place key new (passed ++ rest) = (passed ++ some new :: rest).tail := by
  have inserted : (passed ++ rest).orderedInsert
      (fun one two => rankOf key one ≤ rankOf key two) (some new) =
        passed ++ some new :: rest := by
    induction passed with
    | nil =>
        cases rest with
        | nil => rfl
        | cons held rest => exact if_pos (above held rfl)
    | cons held passed ih =>
        rw [List.cons_append, List.orderedInsert_cons, if_neg (below held List.mem_cons_self),
          ih fun other inside => below other (List.mem_cons_of_mem _ inside), List.cons_append]
  rw [place, inserted]

theorem orderedInsert_free (key : α → β) (free : ℕ) (new : α) (items : List α) :
    (List.replicate free none ++ items.map some).orderedInsert
        (fun one two => rankOf key one ≤ rankOf key two) (some new) =
      List.replicate free none ++
        (items.orderedInsert (fun one two => key one ≤ key two) new).map some := by
  induction free with
  | zero =>
      rw [List.replicate_zero, List.nil_append, List.nil_append,
        map_orderedInsert_of_agree fun one two => rankOf key one ≤ rankOf key two]
      exact fun item _ => WithBot.coe_le_coe.symm
  | succ free ih =>
      have taken : ¬rankOf key (some new) ≤ rankOf key none :=
        not_le.mpr (WithBot.bot_lt_coe _)
      rw [List.replicate_succ, List.cons_append, List.orderedInsert_cons, if_neg taken, ih,
        List.cons_append]

/-- Dropping elements first makes no difference. -/
theorem tail_orderedInsert_drop {rank : α → β} {items : List α}
    (ordered : items.Pairwise fun one two => rank one ≤ rank two) (new : α) (count : ℕ) :
    ((items.drop count).orderedInsert (fun one two => rank one ≤ rank two) new).tail =
      (items.orderedInsert (fun one two => rank one ≤ rank two) new).drop (count + 1) := by
  induction items generalizing count with
  | nil => simp
  | cons item items ih =>
      rw [List.pairwise_cons] at ordered
      cases count with
      | zero => rw [List.drop_zero, zero_add, List.drop_one]
      | succ count =>
          rw [List.drop_succ_cons]
          by_cases before : rank new ≤ rank item
          · rw [List.orderedInsert_cons, if_pos before, List.drop_succ_cons, List.drop_succ_cons]
            cases rest : items.drop count with
            | nil => rfl
            | cons next rest =>
                have inside : next ∈ items :=
                  List.mem_of_mem_drop (i := count) (by rw [rest]; exact List.mem_cons_self)
                rw [List.orderedInsert_cons, if_pos (le_trans before (ordered.1 next inside)),
                  List.tail_cons]
          · rw [List.orderedInsert_cons, if_neg before, List.drop_succ_cons]
            exact ih ordered.2 count

theorem pairwise_key_ranking (key : α → β) (items : List α) :
    ((ranking key items).map Prod.fst).Pairwise fun one two => key one ≤ key two := by
  rw [List.pairwise_map]
  refine (pairwise_le_ranking key items).imp fun {one two} le => ?_
  rcases standing_le_iff.mp le with less | ⟨same, _⟩
  · exact less.le
  · exact same.le

/-- The array ends with the best items of the list. -/
theorem foldl_place (key : α → β) (count : ℕ) (items : List α) :
    items.foldl (fun held new => place key new held) (List.replicate count none) =
      List.replicate (count - items.length) none ++ (best key count items).map some := by
  have held : items.foldl (fun held new => place key new held) (List.replicate count none) =
      (List.replicate count none ++ ((ranking key items).map Prod.fst).map some).drop
        items.length := by
    induction items using List.reverseRecOn with
    | nil => simp [ranking]
    | append_singleton items new ih =>
        have ordered : (List.replicate count none ++
            ((ranking key items).map Prod.fst).map some).Pairwise
              fun one two => rankOf key one ≤ rankOf key two := by
          rw [List.pairwise_append, List.pairwise_replicate, List.pairwise_map]
          refine ⟨Or.inr le_rfl, ?_, fun one free two _ => ?_⟩
          · exact (pairwise_key_ranking key items).imp WithBot.coe_le_coe.mpr
          · rw [List.eq_of_mem_replicate free]
            exact bot_le
        rw [List.foldl_append, ih, List.foldl_cons, List.foldl_nil, place,
          tail_orderedInsert_drop ordered, orderedInsert_free, map_fst_ranking_concat,
          List.length_append, List.length_singleton]
  rw [held, List.drop_append, List.drop_replicate, List.length_replicate, ← List.map_drop,
    ← List.map_drop, best]

/-- Items that win against all others are all selected, unless there are too many. -/
theorem filter_best_perm {key : α → β} {items : List α} {count : ℕ} (wins : α → Bool)
    (better : ∀ one ∈ items, ∀ two ∈ items, wins one = true → wins two = false →
      key two < key one) (few : items.countP wins ≤ count) :
    ((best key count items).filter wins).Perm (items.filter wins) := by
  have split := List.take_append_drop (items.length - count) (ranking key items)
  have whole : ((ranking key items).map Prod.fst).Perm items := by
    have perm := (perm_ranking key items).map Prod.fst
    rwa [List.zipIdx_map_fst] at perm
  have member {item : α × ℕ} (inside : item ∈ ranking key items) : item.1 ∈ items :=
    whole.mem_iff.mp (List.mem_map_of_mem inside)
  have none : (((ranking key items).take (items.length - count)).map Prod.fst).filter wins =
      [] := by
    rw [List.filter_eq_nil_iff]
    intro item inside won
    rcases List.mem_map.mp inside with ⟨item, left, rfl⟩
    have lower : ∀ kept ∈ (ranking key items).drop (items.length - count),
        key item.1 ≤ key kept.1 := by
      intro kept selected
      have ordered := pairwise_le_ranking key items
      rw [← split] at ordered
      have le := (List.pairwise_append.mp ordered).2.2 item left kept selected
      rcases standing_le_iff.mp le with less | ⟨same, _⟩
      · exact less.le
      · exact same.le
    have all : ∀ kept ∈ (ranking key items).drop (items.length - count),
        wins kept.1 = true := by
      intro kept selected
      by_contra lost
      rw [Bool.not_eq_true] at lost
      have less := better item.1 (member (List.mem_of_mem_take left)) kept.1
        (member (List.mem_of_mem_drop selected)) won lost
      exact absurd (lower kept selected) (not_le.mpr less)
    have counted := whole.countP_eq wins
    rw [← split, List.map_append, List.countP_append] at counted
    have first : 0 < (((ranking key items).take (items.length - count)).map Prod.fst).countP
        wins := List.countP_pos_iff.mpr ⟨item.1, inside, won⟩
    have second : (((ranking key items).drop (items.length - count)).map Prod.fst).countP
        wins = items.length - (items.length - count) := by
      rw [List.countP_eq_length.mpr, List.length_map, List.length_drop, length_ranking]
      intro kept selected
      rcases List.mem_map.mp selected with ⟨pair, inside, rfl⟩
      exact all pair inside
    have positive : 0 < items.length - count := by
      by_contra zero
      rw [Nat.eq_zero_of_not_pos zero] at left
      exact absurd left List.not_mem_nil
    omega
  have parts := whole.filter wins
  rwa [← split, List.map_append, List.filter_append, none, List.nil_append] at parts

/-! ## Two keys -/

/-- What stands behind an item in the ranking stands above it. -/
theorem standing_lt_iff_mem {key : α → β} {items : List α} {front back : List (α × ℕ)}
    {item other : α × ℕ} (split : ranking key items = front ++ item :: back)
    (inside : other ∈ items.zipIdx) :
    standing key item < standing key other ↔ other ∈ back := by
  have ordered := pairwise_lt_ranking key items
  rw [split] at ordered
  rcases List.pairwise_append.mp ordered with ⟨_, later, earlier⟩
  constructor
  · intro less
    rw [← mem_ranking key, split, List.mem_append, List.mem_cons] at inside
    rcases inside with before | rfl | behind
    · exact absurd (earlier other before item List.mem_cons_self) less.asymm
    · exact absurd less (lt_irrefl _)
    · exact behind
  · exact (List.pairwise_cons.mp later).1 other

theorem above_eq_length {key : α → β} {items : List α} {front back : List (α × ℕ)}
    {item : α × ℕ} (split : ranking key items = front ++ item :: back) :
    above key items item = back.length := by
  have ordered := pairwise_lt_ranking key items
  rw [split] at ordered
  rcases List.pairwise_append.mp ordered with ⟨_, later, earlier⟩
  have count := ((perm_ranking key items).countP_eq
    fun other => decide (standing key item < standing key other)).symm
  rw [above, count, split, List.countP_append, List.countP_cons_of_neg (by simp)]
  have none : front.countP (fun other => decide (standing key item < standing key other)) = 0 := by
    rw [List.countP_eq_zero]
    intro other inside
    rw [decide_eq_true_eq]
    exact (earlier other inside item List.mem_cons_self).asymm
  have all : back.countP (fun other => decide (standing key item < standing key other)) =
      back.length := by
    rw [List.countP_eq_length]
    intro other inside
    exact decide_eq_true ((List.pairwise_cons.mp later).1 other inside)
  rw [none, all, zero_add]

theorem nodup_ranking (key : α → β) (items : List α) : (ranking key items).Nodup :=
  (pairwise_lt_ranking key items).imp fun {one two} less same => by
    rw [same] at less
    exact lt_irrefl _ less

/-- An item is among the best if too few stand above it. -/
theorem mem_drop_ranking_iff {key : α → β} {items : List α} {count : ℕ} {item : α × ℕ} :
    item ∈ (ranking key items).drop (items.length - count) ↔
      item ∈ items.zipIdx ∧ above key items item < count := by
  have split := List.take_append_drop (items.length - count) (ranking key items)
  have length : ((ranking key items).drop (items.length - count)).length =
      items.length - (items.length - count) := by
    rw [List.length_drop, length_ranking]
  constructor
  · intro inside
    rcases List.append_of_mem inside with ⟨first, rest, equal⟩
    rw [equal, ← List.append_assoc] at split
    refine ⟨(mem_ranking key).mp (List.mem_of_mem_drop inside), ?_⟩
    rw [equal, List.length_append, List.length_cons] at length
    rw [above_eq_length split.symm]
    omega
  · rintro ⟨known, few⟩
    rw [← mem_ranking key, ← split, List.mem_append] at known
    refine known.resolve_left fun before => ?_
    rcases List.append_of_mem before with ⟨first, rest, equal⟩
    have whole := congrArg List.length equal
    rw [equal, List.append_assoc, List.cons_append] at split
    rw [above_eq_length split.symm, List.length_append, length] at few
    rw [List.length_take, length_ranking, List.length_append, List.length_cons] at whole
    omega

theorem mem_best_iff {key : α → β} {items : List α} {count : ℕ} {item : α} :
    item ∈ best key count items ↔
      ∃ position, (item, position) ∈ items.zipIdx ∧ above key items (item, position) < count := by
  simp only [best, List.mem_map, mem_drop_ranking_iff, Prod.exists, exists_and_right,
    exists_eq_right]

section TwoKeys

variable {γ : Type*} [LinearOrder γ] {one : α → β} {two : α → γ} {items : List α}

/-- The best items determine their positions: of the same item the earlier one is better. -/
theorem eq_of_map_fst_eq {front back front' back' : List (α × ℕ)}
    (split : ranking one items = front ++ back) (split' : ranking two items = front' ++ back')
    (same : back.map Prod.fst = back'.map Prod.fst) : back = back' := by
  induction back generalizing back' front front' with
  | nil => exact (List.map_eq_nil_iff.mp same.symm).symm
  | cons item back ih =>
      cases back' with
      | nil => cases same
      | cons item' back' =>
          rcases List.cons.inj same with ⟨first, rest⟩
          have later : back = back' := @ih (front ++ [item]) (front' ++ [item']) back'
            (by rw [split, List.append_assoc, List.singleton_append])
            (by rw [split', List.append_assoc, List.singleton_append]) rest
          subst later
          have inside : item ∈ items.zipIdx := by
            rw [← mem_ranking one, split]
            exact List.mem_append_right _ List.mem_cons_self
          have inside' : item' ∈ items.zipIdx := by
            rw [← mem_ranking two, split']
            exact List.mem_append_right _ List.mem_cons_self
          have different := nodup_ranking one items
          have different' := nodup_ranking two items
          rw [split, List.nodup_append, List.nodup_cons] at different
          rw [split', List.nodup_append, List.nodup_cons] at different'
          rcases lt_trichotomy item.2 item'.2 with earlier | position | earlier
          · refine absurd ((standing_lt_iff_mem split' inside).mp ?_) different.2.1.1
            exact standing_lt_iff.mpr (Or.inr ⟨congrArg two first.symm, earlier⟩)
          · rw [Prod.ext first position]
          · refine absurd ((standing_lt_iff_mem split inside').mp ?_) different'.2.1.1
            exact standing_lt_iff.mpr (Or.inr ⟨congrArg one first, earlier⟩)

/-- Two keys that agree on the items from some place on have these in common. -/
theorem ranking_split_of_agree {count : ℕ} (inside : count ≤ items.length)
    (agree : ∀ item ∈ items.zipIdx, above one items item < count → ∀ other ∈ items.zipIdx,
      standing one item < standing one other ↔ standing two item < standing two other) :
    ∃ front front' back, ranking one items = front ++ back ∧
      ranking two items = front' ++ back ∧ back.length = count := by
  induction count with
  | zero => exact ⟨_, _, [], (List.append_nil _).symm, (List.append_nil _).symm, rfl⟩
  | succ count ih =>
      rcases ih (by omega) fun item known few => agree item known (by omega) with
        ⟨front, front', back, split, split', rfl⟩
      have lengths := congrArg List.length split
      have lengths' := congrArg List.length split'
      rw [length_ranking, List.length_append] at lengths lengths'
      rcases List.eq_nil_or_concat' front with rfl | ⟨front, item, rfl⟩
      · simp at lengths
        omega
      · rcases List.eq_nil_or_concat' front' with rfl | ⟨front', item', rfl⟩
        · simp at lengths'
          omega
        · rw [List.append_assoc, List.singleton_append] at split split'
          have known : item ∈ items.zipIdx := by
            rw [← mem_ranking one, split]
            exact List.mem_append_right _ List.mem_cons_self
          have known' : item' ∈ items.zipIdx := by
            rw [← mem_ranking two, split']
            exact List.mem_append_right _ List.mem_cons_self
          have agrees := agree item known (by rw [above_eq_length split]; omega)
          have different := nodup_ranking one items
          rw [split, List.nodup_append, List.nodup_cons] at different
          have same : item = item' := by
            have place := known
            rw [← mem_ranking two, split', List.mem_append, List.mem_cons] at place
            rcases place with before | here | behind
            · -- the other item would be better by the second key, and so by the first
              have ordered := pairwise_lt_ranking two items
              rw [split'] at ordered
              have less := (List.pairwise_append.mp ordered).2.2 item before item'
                List.mem_cons_self
              have worse := (standing_lt_iff_mem split known').mp ((agrees item' known').mpr less)
              have different' := nodup_ranking two items
              rw [split', List.nodup_append, List.nodup_cons] at different'
              exact absurd worse different'.2.1.1
            · exact here
            · exact absurd behind different.2.1.1
          subst same
          exact ⟨front, front', item :: back, split, split', rfl⟩

/--
Two keys select the same items exactly if they agree on how those that the first one
selects compare with all others.
-/
theorem best_eq_iff (count : ℕ) :
    best one count items = best two count items ↔
      ∀ item ∈ items.zipIdx, above one items item < count → ∀ other ∈ items.zipIdx,
        standing one item < standing one other ↔ standing two item < standing two other := by
  have split := List.take_append_drop (items.length - count) (ranking one items)
  have split' := List.take_append_drop (items.length - count) (ranking two items)
  constructor
  · intro same item known few other known'
    have tail := eq_of_map_fst_eq split.symm split'.symm same
    rw [← tail] at split'
    generalize shown : (ranking one items).drop (items.length - count) = back at split split'
    have length : back.length = items.length - (items.length - count) := by
      rw [← shown, List.length_drop, length_ranking]
    have place := known
    rw [← mem_ranking one, ← split, List.mem_append] at place
    rcases place with before | inside
    · -- an item that is left out has all that are selected above it
      rcases List.append_of_mem before with ⟨first, rest, equal⟩
      rw [equal, List.append_assoc, List.cons_append] at split
      have many := above_eq_length split.symm
      have whole := congrArg List.length split
      rw [length_ranking] at whole
      simp only [List.length_append, List.length_cons] at many whole
      omega
    · rcases List.append_of_mem inside with ⟨first, rest, rfl⟩
      rw [← List.append_assoc] at split split'
      rw [standing_lt_iff_mem split.symm known', standing_lt_iff_mem split'.symm known']
  · intro agree
    rcases @ranking_split_of_agree α β _ γ _ one two items
        (items.length - (items.length - count)) (by omega)
        (fun item known few => agree item known (by omega)) with
      ⟨front, front', back, equal, equal', length⟩
    have lengths := congrArg List.length equal
    have lengths' := congrArg List.length equal'
    rw [length_ranking, List.length_append] at lengths lengths'
    rw [best, best, equal, equal', List.drop_left' (by omega), List.drop_left' (by omega)]

end TwoKeys

end Cjdns.Ranking
