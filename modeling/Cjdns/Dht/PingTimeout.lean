import Cjdns.Dht.Representation
import Cjdns.Dht.RouterModule

/-!
# Pings that time out

A ping remembers its node by the position in the table. When it times out, the reach of
the node at that position is lowered, and with it that of every node behind it. A position
that has become free has the path 0 and is left alone. But a position that some other node
has come into is not told from one that still holds the node that was pinged.
-/

namespace Cjdns

variable [AddressCalc]

namespace RouterModule

/-- `reachAfterTimeout` -/
def reachAfterTimeout (oldReach : BitVec 32) : BitVec 32 :=
  if oldReach = 2 then 1
  else if oldReach = 1 ∨ oldReach = 0 then 0
  else oldReach / 2 + 2

/-- The part of `pingTimeoutCallback` that lowers the reach; a position past the size has path 0. -/
def punish (node : ℕ) (store : NodeStore) : NodeStore :=
  match store.entries[node]? with
  | some entry =>
      if entry.body.address.path ≠ 0 then
        store.updateReach node (reachAfterTimeout entry.body.reach)
      else store
  | none => store

/-- `pingTimeoutCallback` for the ping in a slot -/
def pingTimeoutCallback (chance : Chance) (index : Fin MAX_CONCURRENT_PINGS) (ping : Ping)
    (routerModule : RouterModule) : RouterModule × Option PingResponse :=
  let lag := chance.now.setWidth 32 - ping.timeSent
  ({ nodeStore := punish ping.node routerModule.nodeStore
     pings := Function.update routerModule.pings index none },
    if ping.isFromAdmin then some (pingResponse ping true lag none) else none)

/-! ## Runs -/

/-- A time-out of a run: whom the ping was sent to, and the table before and after -/
structure TimeoutRecord where
  sentTo : Address
  before : NodeStore
  after : NodeStore

/-- The module with the time-outs that there have been -/
structure Timeline where
  routerModule : RouterModule
  timeouts : List TimeoutRecord

inductive TimelineEvent where
  /-- `RouterModule_pingNode` for the node at a position -/
  | ping (chance : Chance) (position : ℕ) (txid : Option (List (BitVec 8)))
  | store (event : NodeStore.StoreEvent)
  | reply (chance : Chance) (reply : Reply)
  /-- The ping in a slot times out. -/
  | timeout (chance : Chance) (index : Fin MAX_CONCURRENT_PINGS)

def timelineStep (timeline : Timeline) : TimelineEvent → Option Timeline
  | .ping chance position txid =>
      (timeline.routerModule.nodeStore.entries[position]?).bind fun entry =>
        (pingNode chance position entry.body txid timeline.routerModule).map fun sent =>
          { timeline with routerModule := sent.1 }
  | .store event =>
      (timeline.routerModule.nodeStore.storeStep event).map fun nodeStore =>
        { timeline with routerModule := { timeline.routerModule with nodeStore := nodeStore } }
  | .reply chance reply =>
      let handled := handleReply chance reply timeline.routerModule
      if handled.verdict = .aborted then none
      else some { timeline with routerModule := handled.routerModule }
  | .timeout chance index =>
      (timeline.routerModule.pings index).map fun ping =>
        let after := (pingTimeoutCallback chance index ping timeline.routerModule).1
        { routerModule := after
          timeouts :=
            { sentTo := ping.sentTo
              before := timeline.routerModule.nodeStore
              after := after.nodeStore } :: timeline.timeouts }

/-- The router module with an empty table -/
def new (myAddress : Address) (capacity : ℕ) : RouterModule where
  nodeStore := .new myAddress capacity
  pings _ := none

/-- Pings, changes of the table, replies and time-outs in any order -/
def timelines : TransitionSystem Timeline TimelineEvent where
  initial timeline := ∃ myAddress capacity, 1 ≤ capacity ∧
    timeline = { routerModule := new myAddress capacity, timeouts := [] }
  step timeline event after := timelineStep timeline event = some after

/-- The entry is the one that was pinged. -/
def IsPinged (sentTo : Address) (entry : Entry) : Prop :=
  entry.body.address.key = sentTo.key ∧ entry.body.address.path = sentTo.path

instance (sentTo : Address) (entry : Entry) : Decidable (IsPinged sentTo entry) :=
  inferInstanceAs (Decidable (_ ∧ _))

/-- The reach of an entry, in the header and in the node -/
def reachIn (entry : Entry) : BitVec 32 × BitVec 32 :=
  (entry.header.reach, entry.body.reach)

/-- The reach of an entry is less than before. -/
def Lowered (entry later : Entry) : Prop :=
  later.header.reach < entry.header.reach ∨ later.body.reach < entry.body.reach

/-- A time-out punishes the node that was pinged and those behind it, and without that node none. -/
structure TimeoutRecord.PunishesOnly (record : TimeoutRecord) : Prop where
  behind : ∀ (position : ℕ) (entry later : Entry),
    record.before.entries[position]? = some entry →
    record.after.entries[position]? = some later → Lowered entry later →
      IsPinged record.sentTo entry ∨
        LabelSplicer.routesThrough entry.body.address.path record.sentTo.path = true
  gone : (∀ entry ∈ record.before.entries, ¬ IsPinged record.sentTo entry) →
    record.after.entries.map reachIn = record.before.entries.map reachIn

/-- When a ping times out, its position is free, or the entry there is the one that was pinged or
one behind it, and the one that was pinged is still in the table. -/
def Tracked (timeline : Timeline) : TimelineEvent → Prop
  | .timeout _ index =>
      ∀ ping ∈ timeline.routerModule.pings index,
        ∀ entry ∈ timeline.routerModule.nodeStore.entries[ping.node]?,
          entry.body.address.path ≠ 0 →
            LabelSplicer.routesThrough entry.body.address.path ping.sentTo.path = true ∧
              ∃ other ∈ timeline.routerModule.nodeStore.entries, IsPinged ping.sentTo other
  | .ping _ _ _ => True
  | .store _ => True
  | .reply _ _ => True

/-! ## Who is punished -/

theorem not_lowered_self (entry : Entry) : ¬ Lowered entry entry := by
  rintro (lowered | lowered) <;> exact absurd lowered (BitVec.lt_irrefl _)

theorem reachOf_lowered {path : BitVec 64} {reach : BitVec 32} {entry : Entry}
    (lowered : Lowered entry (NodeStore.reachOf path reach entry)) :
    LabelSplicer.routesThrough entry.body.address.path path = true := by
  by_contra elsewhere
  simp only [NodeStore.reachOf, if_neg elsewhere] at lowered
  split_ifs at lowered with nearer raised
  · rcases lowered with lowered | lowered
    · exact absurd (BitVec.lt_trans raised.1 lowered) (BitVec.lt_irrefl _)
    · exact absurd lowered (BitVec.lt_irrefl _)
  · exact not_lowered_self entry lowered
  · exact not_lowered_self entry lowered

/-- `NodeStore_updateReach` lowers the reach of entries behind its node only. -/
theorem updateReach_lowered {index position : ℕ} {reach : BitVec 32} {store : NodeStore}
    {node entry later : Entry} (at_index : store.entries[index]? = some node)
    (found : store.entries[position]? = some entry)
    (result : (store.updateReach index reach).entries[position]? = some later)
    (lowered : Lowered entry later) :
    LabelSplicer.routesThrough entry.body.address.path node.body.address.path = true := by
  simp only [NodeStore.updateReach, at_index, List.getElem?_map] at result
  by_cases here : index = position
  · subst here
    rw [at_index, Option.some.injEq] at found
    rw [← found]
    exact LabelSplicer.routesThrough_refl _
  · rw [List.getElem?_set_ne here, found, Option.map_some, Option.some.injEq] at result
    exact reachOf_lowered (result ▸ lowered)

/-- A time-out that finds its node punishes it and those behind it. -/
theorem punishesOnly_of_tracked {timeline : Timeline} {chance : Chance}
    {index : Fin MAX_CONCURRENT_PINGS} {ping : Ping}
    (outstanding : timeline.routerModule.pings index = some ping)
    (tracked : Tracked timeline (.timeout chance index)) :
    TimeoutRecord.PunishesOnly
      { sentTo := ping.sentTo
        before := timeline.routerModule.nodeStore
        after := punish ping.node timeline.routerModule.nodeStore } := by
  have unpunished : TimeoutRecord.PunishesOnly
      { sentTo := ping.sentTo
        before := timeline.routerModule.nodeStore
        after := timeline.routerModule.nodeStore } := by
    refine ⟨fun position entry later found same lowered => ?_, fun _ => rfl⟩
    cases found.symm.trans same
    exact absurd lowered (not_lowered_self entry)
  unfold punish
  cases found : timeline.routerModule.nodeStore.entries[ping.node]? with
  | none => exact unpunished
  | some node =>
      simp only
      split_ifs with occupied
      · rcases tracked ping outstanding node found occupied with ⟨behind, other, inside, pinged⟩
        constructor
        · intro position entry later before after lowered
          right
          exact LabelSplicer.routesThrough_trans
            (updateReach_lowered found before after lowered) behind
        · intro gone
          exact absurd pinged (gone other inside)
      · exact unpunished

theorem tracked_isInvariant : timelines.IsInvariant Tracked
    fun timeline => ∀ record ∈ timeline.timeouts, record.PunishesOnly where
  initial := by
    rintro _ ⟨myAddress, capacity, _, rfl⟩ record inside
    exact absurd inside List.not_mem_nil
  step {before event after} holds met taken := by
    cases event with
    | ping chance position txid =>
        rcases Option.bind_eq_some_iff.mp taken with ⟨entry, _, taken⟩
        rcases Option.map_eq_some_iff.mp taken with ⟨sent, _, rfl⟩
        exact holds
    | store event =>
        rcases Option.map_eq_some_iff.mp taken with ⟨nodeStore, _, rfl⟩
        exact holds
    | reply chance reply =>
        simp only [timelines, timelineStep, Option.ite_none_left_eq_some,
          Option.some.injEq] at taken
        exact taken.2 ▸ holds
    | timeout chance index =>
        rcases Option.map_eq_some_iff.mp taken with ⟨ping, outstanding, rfl⟩
        intro record inside
        rcases List.mem_cons.mp inside with rfl | earlier
        · exact punishesOnly_of_tracked outstanding met
        · exact holds record earlier

/-- A time-out punishes the node that was pinged, in every run in which it still finds it. -/
theorem punishesOnly_of_reachable {timeline : Timeline}
    (reachable : timelines.Reachable Tracked timeline) :
    ∀ record ∈ timeline.timeouts, record.PunishesOnly :=
  reachable.invariant tracked_isInvariant

omit [AddressCalc] in
/-- A node that stays where it was when it was pinged -/
theorem punishesOnly_unmoved :
    letI := AddressCalc.plain
    ∃ timeline : Timeline, timeline.timeouts.length = 1 ∧
      ∀ record ∈ timeline.timeouts, record.PunishesOnly := by
  let := AddressCalc.plain
  let me : Address := { ip6 := 0xFC000000000000000000000000000001, key := 1, path := 1 }
  let chance : Chance := { now := 100, rand := 0, worst := 1000 }
  have run : ([.store (.add pinged.address 100 2), .ping chance 0 none].foldlM timelineStep
      { routerModule := new me 8, timeouts := [] }).any (fun before =>
        decide (∀ ping ∈ before.routerModule.pings 0,
          ∀ entry ∈ before.routerModule.nodeStore.entries[ping.node]?,
            entry.body.address.path ≠ 0 →
              LabelSplicer.routesThrough entry.body.address.path ping.sentTo.path = true ∧
                ∃ other ∈ before.routerModule.nodeStore.entries, IsPinged ping.sentTo other) &&
          (timelineStep before (.timeout chance 0)).any (·.timeouts.length = 1)) = true := by
    decide +kernel
  rcases (Option.any_eq_true _ _).mp run with ⟨before, waiting, run⟩
  rw [Bool.and_eq_true, decide_eq_true_eq] at run
  rcases (Option.any_eq_true _ _).mp run.2 with ⟨timeline, expires, once⟩
  have starts : timelines.Reachable Tracked { routerModule := new me 8, timeouts := [] } :=
    .initial ⟨me, 8, by decide, rfl⟩
  have reachable : timelines.Reachable Tracked before := by
    refine starts.run id (fun _ event inside => ?_) waiting
    simp only [List.mem_cons, List.not_mem_nil, or_false] at inside
    rcases inside with rfl | rfl <;> trivial
  have tracked : Tracked before (.timeout chance 0) := run.1
  exact ⟨timeline, of_decide_eq_true once,
    punishesOnly_of_reachable (reachable.step tracked expires)⟩

omit [AddressCalc] in
/-- The node that has moved into the place of the one that was pinged is punished for it. -/
theorem bystander_punished :
    letI := AddressCalc.plain
    ∃ timeline, timelines.Reachable (fun _ _ => True) timeline ∧
      ¬ ∀ record ∈ timeline.timeouts, record.PunishesOnly := by
  let := AddressCalc.plain
  let me : Address := { ip6 := 0xFC000000000000000000000000000001, key := 1, path := 1 }
  let chance : Chance := { now := 100, rand := 0, worst := 1000 }
  have run : ([.store (.add pinged.address 100 2), .store (.add bystander.address 100 2),
      .ping chance 0 none, .store (.remove 0), .timeout chance 0].foldlM timelineStep
        { routerModule := new me 8, timeouts := [] }).any (fun timeline =>
          timeline.timeouts.any fun record =>
            decide ((∀ entry ∈ record.before.entries, ¬ IsPinged record.sentTo entry) ∧
              record.after.entries.map reachIn ≠ record.before.entries.map reachIn)) = true := by
    decide +kernel
  rcases (Option.any_eq_true _ _).mp run with ⟨timeline, run, punished⟩
  rcases List.any_eq_true.mp punished with ⟨record, inside, changed⟩
  rw [decide_eq_true_eq] at changed
  refine ⟨timeline, ?_, fun holds => changed.2 ((holds record inside).gone changed.1)⟩
  exact TransitionSystem.Reachable.run (.initial ⟨me, 8, by decide, rfl⟩) id
    (fun _ _ _ => trivial) run

end RouterModule

end Cjdns
