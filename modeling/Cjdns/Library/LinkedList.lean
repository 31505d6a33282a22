import Cjdns.Library.Fuel

/-!
# Singly linked lists in memory

A memory maps pointers to cells, each with a value and the pointer to the next cell. `Linked`
says which list of pointers and values a start pointer stands for. A list is changed at one
place: in the variable that points to its start, or in the field `next` of a cell.
-/

namespace LinkedList

variable {Pointer Value : Type}

structure Cell (Pointer Value : Type) where
  value : Value
  next : Option Pointer

/-- The list that is in memory from a pointer on -/
def Linked (cells : Pointer → Option (Cell Pointer Value)) :
    Option Pointer → List (Pointer × Value) → Prop
  | start, [] => start = none
  | start, (pointer, value) :: rest =>
      start = some pointer ∧ ∃ next, cells pointer = some ⟨value, next⟩ ∧ Linked cells next rest

variable {cells other : Pointer → Option (Cell Pointer Value)} {start : Option Pointer}
  {entries front rest : List (Pointer × Value)}

theorem Linked.congr (linked : Linked cells start entries)
    (same : ∀ pointer ∈ entries.map Prod.fst, other pointer = cells pointer) :
    Linked other start entries := by
  induction entries generalizing start with
  | nil => exact linked
  | cons entry entries ih =>
      rcases linked with ⟨starts, next, cell, linked⟩
      refine ⟨starts, next, ?_, ih linked fun pointer inside => ?_⟩
      · rw [same _ List.mem_cons_self, cell]
      · exact same pointer (List.mem_cons_of_mem _ inside)

theorem Linked.cell (linked : Linked cells start entries) {pointer : Pointer} {value : Value}
    (inside : (pointer, value) ∈ entries) : ∃ next, cells pointer = some ⟨value, next⟩ := by
  induction entries generalizing start with
  | nil => cases inside
  | cons entry entries ih =>
      rcases linked with ⟨starts, next, cell, linked⟩
      rcases List.mem_cons.mp inside with rfl | later
      · exact ⟨next, cell⟩
      · exact ih linked later

/-- The cell whose field `next` points past the front of a list, if the front is not empty -/
def place (front : List (Pointer × Value)) : Option Pointer :=
  front.getLast?.map Prod.fst

theorem place_cons (entry : Pointer × Value) (front : List (Pointer × Value)) :
    place (entry :: front) = some ((place front).getD entry.1) := by
  rcases front with _ | ⟨second, front⟩
  · rfl
  · rw [place, List.getLast?_cons_cons, place, List.getLast?_cons, Option.map_some,
      Option.getD_some]

theorem place_eq_none : place front = none ↔ front = [] := by
  rw [place, Option.map_eq_none_iff, List.getLast?_eq_none_iff]

theorem place_mem {pointer : Pointer} (last : place front = some pointer) :
    pointer ∈ front.map Prod.fst := by
  rcases Option.map_eq_some_iff.mp last with ⟨entry, found, rfl⟩
  exact List.mem_map_of_mem (List.mem_of_getLast? found)

/-- The last cell from a pointer on -/
def last (cells : Pointer → Option (Cell Pointer Value)) : ℕ → Pointer → Option Pointer
  | 0, _ => none
  | fuel + 1, pointer => (cells pointer).bind fun cell =>
      match cell.next with
      | none => some pointer
      | some next => last cells fuel next

theorem last_eq {entry : Pointer × Value} (linked : Linked cells start (entry :: rest)) :
    Fuel.Settles (fun fuel => last cells fuel entry.1) (place (entry :: rest)) := by
  induction rest generalizing start entry with
  | nil =>
      rcases linked with ⟨-, next, cell, rfl⟩
      refine Fuel.Settles.of_succ_eq fun fuel => ?_
      rw [last, cell]
      rfl
  | cons second rest ih =>
      rcases linked with ⟨-, next, cell, linked⟩
      have starts := linked.1
      rw [place, List.getLast?_cons_cons]
      refine (ih linked).succ fun fuel => ?_
      rw [last, cell, Option.bind_some, starts]

variable [DecidableEq Pointer]

/-- Let the cell at a place, if there is one, point to something else. -/
def redirect (cells : Pointer → Option (Cell Pointer Value)) (place link : Option Pointer) :
    Pointer → Option (Cell Pointer Value) := fun pointer =>
  if some pointer = place then (cells pointer).map fun cell => { cell with next := link }
  else cells pointer

/-- The rest of a list may be exchanged for another one, where its start is pointed to. -/
theorem Linked.splice (linked : Linked cells start (front ++ rest))
    (distinct : (front.map Prod.fst).Nodup) :
    ∃ link, Linked cells link rest ∧ (front = [] → start = link) ∧
      ∀ {other : Pointer → Option (Cell Pointer Value)} {changed : Option Pointer}
        {tail : List (Pointer × Value)}, Linked other changed tail →
        (∀ pointer ∈ front.map Prod.fst,
          other pointer = redirect cells (place front) changed pointer) →
        Linked other (if front = [] then changed else start) (front ++ tail) := by
  induction front generalizing start with
  | nil =>
      refine ⟨start, linked, fun _ => rfl, ?_⟩
      intro other changed tail tailLinked _
      exact tailLinked
  | cons entry front ih =>
      rcases linked with ⟨starts, next, cell, linked⟩
      rcases List.nodup_cons.mp distinct with ⟨fresh, distinct⟩
      rcases ih linked distinct with ⟨link, restLinked, empty, exchange⟩
      refine ⟨link, restLinked, fun impossible => (List.cons_ne_nil _ _ impossible).elim, ?_⟩
      intro other changed tail tailLinked agrees
      rw [if_neg (List.cons_ne_nil _ _)]
      have here := agrees entry.1 List.mem_cons_self
      have later : ∀ pointer ∈ front.map Prod.fst,
          other pointer = redirect cells (place front) changed pointer := by
        intro pointer inside
        rw [agrees pointer (List.mem_cons_of_mem _ inside), place_cons]
        rcases last : place front with _ | final
        · rw [place_eq_none.mp last] at inside
          cases inside
        · rfl
      refine ⟨starts, if front = [] then changed else next, ?_, exchange tailLinked later⟩
      rw [here, redirect, place_cons]
      rcases last : place front with _ | final
      · rw [Option.getD_none, if_pos rfl, if_pos (place_eq_none.mp last), cell]
        rfl
      · have other : ¬ some entry.1 = some final := by
          intro same
          exact fresh (Option.some.inj same ▸ place_mem last)
        have more : front ≠ [] := by
          rintro rfl
          cases last
        rw [Option.getD_some, if_neg other, if_neg more, cell]

/-- Look for a pointer: the place that points to it, or nothing if the list has an end before
it. -/
def locate (cells : Pointer → Option (Cell Pointer Value)) (target : Pointer) :
    ℕ → Option Pointer → Option Pointer → Option (Option (Option Pointer))
  | 0, _, _ => none
  | _ + 1, _, none => some none
  | fuel + 1, holder, some pointer =>
      if pointer = target then some (some holder)
      else (cells pointer).bind fun cell => locate cells target fuel (some pointer) cell.next

theorem locate_found {value : Value} {holder : Option Pointer} {target : Pointer}
    (linked : Linked cells start (front ++ (target, value) :: rest))
    (absent : target ∉ front.map Prod.fst) :
    Fuel.Settles (fun fuel => locate cells target fuel holder start)
      (some (some ((place front).or holder))) := by
  induction front generalizing start holder with
  | nil =>
      rcases linked with ⟨rfl, -⟩
      refine Fuel.Settles.of_succ_eq fun fuel => ?_
      rw [locate, if_pos rfl]
      rfl
  | cons entry front ih =>
      rcases linked with ⟨rfl, next, cell, linked⟩
      rw [List.map_cons, List.mem_cons, not_or] at absent
      have there : (place (entry :: front)).or holder = (place front).or (some entry.1) := by
        rw [place_cons]
        cases place front <;> rfl
      rw [there]
      refine (@ih _ (some entry.1) linked absent.2).succ fun fuel => ?_
      rw [locate, if_neg (Ne.symm absent.1), cell, Option.bind_some]

theorem locate_absent {holder : Option Pointer} {target : Pointer}
    (linked : Linked cells start entries) (absent : target ∉ entries.map Prod.fst) :
    Fuel.Settles (fun fuel => locate cells target fuel holder start) (some none) := by
  induction entries generalizing start holder with
  | nil =>
      cases linked
      exact Fuel.Settles.of_succ_eq fun fuel => rfl
  | cons entry entries ih =>
      rcases linked with ⟨rfl, next, cell, linked⟩
      rw [List.map_cons, List.mem_cons, not_or] at absent
      refine (@ih _ (some entry.1) linked absent.2).succ fun fuel => ?_
      rw [locate, if_neg (Ne.symm absent.1), cell, Option.bind_some]

end LinkedList
