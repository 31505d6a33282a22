import Cjdns.Dht.SearchStore
import Cjdns.Library.Transition

/-!
# Asking a node once

`SearchStore_addNodeToSearch` refuses a node that has been asked in the search, but not
one that is waiting to be. Such a node is in the stack twice and is asked twice. Where no
node is added while it is waiting, no node is asked twice (`nodup_of_reachable`).
-/

namespace Cjdns

namespace SearchStore

/-! ## What has been asked -/

/-- A node that is not refused differs from each that is compared with it. -/
theorem key_ne_of_alreadyAsked {addr : Address} {search : Search}
    {front back : List (Fin SEARCH_NODES)} {i : Fin SEARCH_NODES}
    (passed : ∀ j ∈ front, j ≠ search.nodesAskedIndex)
    (accepted : alreadyAsked addr search (front ++ i :: back) = false) :
    addr.key ≠ (search.nodesAsked i).address.key := by
  induction front with
  | nil =>
      rw [List.nil_append, alreadyAsked] at accepted
      intro same
      rw [if_pos same] at accepted
      exact Bool.true_eq_false_eq_False accepted
  | cons j front ih =>
      apply ih fun other inside => passed other (List.mem_cons_of_mem _ inside)
      rw [List.cons_append, alreadyAsked] at accepted
      split_ifs at accepted with same stop
      · exact absurd stop.1 (passed j List.mem_cons_self)
      · exact accepted

/-- A node that is not refused differs from all that have been asked, up to the index. -/
theorem key_ne_of_accepted {addr : Address} {search : Search}
    (accepted : alreadyAsked addr search (List.finRange SEARCH_NODES) = false)
    {i : Fin SEARCH_NODES} (asked : i ≤ search.nodesAskedIndex) :
    addr.key ≠ (search.nodesAsked i).address.key := by
  rcases List.append_of_mem (List.mem_finRange i) with ⟨front, back, split⟩
  rw [split] at accepted
  apply key_ne_of_alreadyAsked _ accepted
  intro j inside
  have ordered := List.pairwise_lt_finRange SEARCH_NODES
  rw [split] at ordered
  have before := (List.pairwise_append.mp ordered).2.2 j inside i List.mem_cons_self
  exact (lt_of_lt_of_le before asked).ne

/-! ## Runs -/

/-- A search with the nodes that it has returned and the number of the calls for them -/
structure Session where
  search : Search
  returned : List Address
  calls : ℕ

inductive Call where
  /-- `SearchStore_addNodeToSearch` -/
  | add (addr : Address)
  /-- `SearchStore_getNextNode` -/
  | next (slot : Fin MAX_SEARCHES) (now : BitVec 64) (magic : BitVec 32)

namespace Session

def step (session : Session) : Call → Session
  | .add addr => { session with search := (addNodeToSearch addr session.search).getD session.search }
  | .next slot now magic =>
      match getNextNode slot now magic session.search with
      | none => { session with calls := session.calls + 1 }
      | some (position, search) =>
          { search := search
            returned := session.returned ++ [(search.nodesAsked position).address]
            calls := session.calls + 1 }

/-- A search that has just been made -/
structure IsNew (session : Session) : Prop where
  searchStack : session.search.searchStack = []
  nodesAskedIndex : session.search.nodesAskedIndex = 0
  nodesAsked : ∀ i, session.search.nodesAsked i = SearchNode.unused
  returned : session.returned = []
  calls : session.calls = 0

end Session

/-- Calls on one search in any order -/
def sessions : TransitionSystem Session Call where
  initial := Session.IsNew
  step before call after := before.step call = after

/-- The nodes that go on waiting when one is added; a full stack loses its top. -/
def staying (search : Search) : List Address :=
  if search.searchStack.length < SEARCH_NODES then search.searchStack else search.searchStack.tail

/-- No node is added that is waiting. -/
def NotWaiting (session : Session) : Call → Prop
  | .add addr => alreadyAsked addr session.search (List.finRange SEARCH_NODES) = false →
      addr.key ∉ (staying session.search).map (·.key)
  | .next _ _ _ => True

/-- As long as the array has not wrapped, it has the nodes that were returned, and those that
wait are others. -/
structure Session.Unwrapped (session : Session) : Prop where
  index : (session.search.nodesAskedIndex : ℕ) = session.returned.length
  asked : ∀ i : Fin SEARCH_NODES, (session.search.nodesAsked i).address.key =
    ((session.returned[(i : ℕ)]?).map (·.key)).getD 0
  distinct : ((session.search.searchStack ++ session.returned).map (·.key)).Nodup
  nonzero : ∀ addr ∈ session.search.searchStack, addr.key ≠ 0

/-- What holds of a session -/
structure Session.Sound (session : Session) : Prop where
  counted : session.returned.length ≤ session.calls
  nodup : (session.returned.map (·.key)).Nodup
  unwrapped : session.returned.length < SEARCH_NODES → session.Unwrapped

theorem addNodeToSearch_eq (addr : Address) (search : Search) :
    addNodeToSearch addr search =
      if alreadyAsked addr search (List.finRange SEARCH_NODES) then none
      else some { search with searchStack := addr :: staying search } := by
  rw [addNodeToSearch, staying]
  split_ifs <;> rfl

theorem staying_sublist (search : Search) : (staying search).Sublist search.searchStack := by
  rw [staying]
  split_ifs
  · exact List.Sublist.refl _
  · exact List.tail_sublist _

/-- A node that is accepted has not been returned, and it has a key. -/
theorem Session.Unwrapped.accepted {session : Session} (unwrapped : session.Unwrapped)
    {addr : Address} (few : session.returned.length < SEARCH_NODES)
    (accepted : alreadyAsked addr session.search (List.finRange SEARCH_NODES) = false) :
    addr.key ∉ session.returned.map (·.key) ∧ addr.key ≠ 0 := by
  constructor
  · intro inside
    rcases List.mem_map.mp inside with ⟨other, inside, same⟩
    rcases List.mem_iff_getElem?.mp inside with ⟨i, found⟩
    have bound := (List.getElem?_eq_some_iff.mp found).1
    have differs := key_ne_of_accepted (i := ⟨i, by omega⟩) accepted
      (by rw [Fin.le_def, unwrapped.index]; exact bound.le)
    rw [unwrapped.asked] at differs
    simp only [found, Option.map_some, Option.getD_some] at differs
    exact differs same.symm
  · have differs := key_ne_of_accepted accepted (le_refl session.search.nodesAskedIndex)
    rw [unwrapped.asked, unwrapped.index, List.getElem?_eq_none le_rfl] at differs
    exact differs

/-- What a call returns that finds a node waiting -/
theorem Session.returns {session : Session} {address : Address} {rest : List Address}
    (slot : Fin MAX_SEARCHES) (now : BitVec 64) (magic : BitVec 32)
    (waiting : session.search.searchStack = address :: rest) :
    ∃ search, session.step (.next slot now magic) =
        { search := search
          returned := session.returned ++ [address]
          calls := session.calls + 1 } ∧
      search.searchStack = rest ∧
      search.nodesAskedIndex = session.search.nodesAskedIndex + 1 ∧
      ∀ i, (search.nodesAsked i).address.key =
        if i = session.search.nodesAskedIndex then address.key
        else (session.search.nodesAsked i).address.key := by
  simp only [Session.step, getNextNode, waiting, Function.update_self]
  refine ⟨_, rfl, rfl, rfl, fun i => ?_⟩
  dsimp only
  rw [Function.update_apply]
  split_ifs <;> rfl

theorem sound_isInvariant : sessions.IsInvariant NotWaiting
    fun session => session.calls ≤ SEARCH_NODES → session.Sound where
  initial {session} starts _ := by
    refine ⟨by rw [starts.returned, starts.calls]; exact le_rfl, by rw [starts.returned]; exact
      List.nodup_nil, fun _ => ⟨?_, ?_, ?_, ?_⟩⟩
    · rw [starts.nodesAskedIndex, starts.returned]
      rfl
    · intro i
      rw [starts.nodesAsked, starts.returned]
      rfl
    · rw [starts.searchStack, starts.returned]
      exact List.nodup_nil
    · intro addr inside
      rw [starts.searchStack] at inside
      exact absurd inside List.not_mem_nil
  step {before call after} holds met taken few := by
    rcases taken with rfl
    cases call with
    | add addr =>
        have sound := holds few
        refine ⟨sound.counted, sound.nodup, fun unfull => ?_⟩
        have unwrapped := sound.unwrapped unfull
        simp only [Session.step, addNodeToSearch_eq]
        by_cases refused : alreadyAsked addr before.search (List.finRange SEARCH_NODES) = true
        · rw [if_pos refused]
          exact unwrapped
        · rw [if_neg refused]
          rw [Bool.not_eq_true] at refused
          rcases unwrapped.accepted unfull refused with ⟨unasked, nonzero⟩
          have sublist := staying_sublist before.search
          refine ⟨unwrapped.index, unwrapped.asked, ?_, ?_⟩
          · change ((addr :: staying before.search ++ before.returned).map (·.key)).Nodup
            rw [List.cons_append, List.map_cons, List.nodup_cons]
            constructor
            · rw [List.map_append, List.mem_append]
              rintro (waiting | asked)
              · exact met refused waiting
              · exact unasked asked
            · exact unwrapped.distinct.sublist ((sublist.append_right _).map _)
          · intro other inside
            rcases List.mem_cons.mp inside with rfl | inside
            · exact nonzero
            · exact unwrapped.nonzero other (sublist.subset inside)
    | next slot now magic =>
        have counted : (before.step (.next slot now magic)).calls = before.calls + 1 := by
          simp only [Session.step]
          split <;> rfl
        rw [counted] at few
        have sound := holds (by omega)
        have unfull : before.returned.length < SEARCH_NODES := by
          have := sound.counted
          omega
        have unwrapped := sound.unwrapped unfull
        have distinct := unwrapped.distinct
        cases waiting : before.search.searchStack with
        | nil =>
            have stays : before.step (.next slot now magic) =
                { before with calls := before.calls + 1 } := by
              simp only [Session.step, getNextNode, waiting]
            rw [stays]
            exact ⟨sound.counted.trans (Nat.le_succ _), sound.nodup,
              fun _ => ⟨unwrapped.index, unwrapped.asked, unwrapped.distinct, unwrapped.nonzero⟩⟩
        | cons address rest =>
            rw [waiting] at distinct
            rcases Session.returns slot now magic waiting with ⟨search, result, stack, index, asked⟩
            rw [result]
            have perm : (rest ++ (before.returned ++ [address])).Perm
                (address :: rest ++ before.returned) :=
              (List.append_assoc rest before.returned [address]).symm ▸
                List.perm_append_singleton address (rest ++ before.returned)
            have apart := ((perm.map (·.key)).nodup_iff).mpr distinct
            refine ⟨?_, ?_, fun room => ⟨?_, ?_, ?_, ?_⟩⟩
            · rw [List.length_append, List.length_singleton]
              exact Nat.succ_le_succ sound.counted
            · rw [List.map_append] at apart
              exact (List.nodup_append.mp apart).2.1
            · rw [List.length_append, List.length_singleton] at room
              change (search.nodesAskedIndex : ℕ) = _
              rw [index, Fin.val_add, unwrapped.index, List.length_append, List.length_singleton]
              exact Nat.mod_eq_of_lt room
            · intro i
              change (search.nodesAsked i).address.key = _
              rw [asked, unwrapped.asked, List.getElem?_append]
              by_cases here : (i : ℕ) = before.returned.length
              · have this : i = before.search.nodesAskedIndex :=
                  Fin.ext (here.trans unwrapped.index.symm)
                rw [if_pos this, here, if_neg (lt_irrefl _), Nat.sub_self]
                rfl
              · have other : i ≠ before.search.nodesAskedIndex := by
                  intro this
                  exact here ((congrArg Fin.val this).trans unwrapped.index)
                rw [if_neg other]
                split_ifs with earlier
                · rfl
                · rw [List.getElem?_eq_none (by omega), List.getElem?_eq_none]
                  rw [List.length_singleton]
                  omega
            · change ((search.searchStack ++ (before.returned ++ [address])).map (·.key)).Nodup
              rw [stack]
              exact apart
            · intro addr inside
              change addr ∈ search.searchStack at inside
              rw [stack] at inside
              apply unwrapped.nonzero
              rw [waiting]
              exact List.mem_cons_of_mem _ inside

/-- No node is asked twice in 256 calls, if none was added while it was waiting. -/
theorem nodup_of_reachable {session : Session} (reachable : sessions.Reachable NotWaiting session)
    (few : session.calls ≤ SEARCH_NODES) : (session.returned.map (·.key)).Nodup :=
  (reachable.invariant sound_isInvariant few).nodup

/-- A new search -/
def emptySession : Session where
  search :=
    { id := 0
      searchStack := []
      nodesAskedIndex := 0
      nodesAsked := fun _ => SearchNode.unused
      callbackContext :=
        { hasCallback := false
          totalRequests := 0
          targetAddress := { ip6 := 1, key := 1, path := 1 }
          lastNodeCalled := 0 } }
  returned := []
  calls := 0

theorem isNew_emptySession : emptySession.IsNew :=
  ⟨rfl, rfl, fun _ => rfl, rfl, rfl⟩

theorem reachable_step {guard : Session → Call → Prop} {session : Session}
    (reachable : sessions.Reachable guard session) (call : Call) (met : guard session call) :
    sessions.Reachable guard (session.step call) :=
  reachable.step met rfl

/-- Two nodes that are asked one after the other -/
theorem nodup_two_nodes :
    ∃ session : Session, session.returned.length = 2 ∧
      (session.returned.map (·.key)).Nodup := by
  have one := reachable_step (.initial isNew_emptySession)
    (.add { ip6 := 2, key := 2, path := 0x15 }) (show NotWaiting _ _ from fun _ => List.not_mem_nil)
  have two := reachable_step one (.next 0 1 1) trivial
  have three := reachable_step two (.add { ip6 := 3, key := 3, path := 0x17 })
    (fun _ => List.not_mem_nil)
  have four := reachable_step three (.next 0 2 2) trivial
  exact ⟨_, rfl, nodup_of_reachable four (by decide)⟩

/-- A node that is told of twice before its turn is asked twice. -/
theorem waiting_node_asked_twice :
    ∃ session, sessions.Reachable (fun _ _ => True) session ∧ session.calls ≤ SEARCH_NODES ∧
      ¬(session.returned.map (·.key)).Nodup := by
  have start : sessions.Reachable (fun _ _ => True) emptySession := .initial isNew_emptySession
  have one := reachable_step start (.add { ip6 := 2, key := 2, path := 0x15 }) trivial
  have two := reachable_step one (.add { ip6 := 2, key := 2, path := 0x15 }) trivial
  have three := reachable_step two (.next 0 1 1) trivial
  have four := reachable_step three (.next 0 2 2) trivial
  exact ⟨_, four, by decide, by decide⟩

end SearchStore

end Cjdns
