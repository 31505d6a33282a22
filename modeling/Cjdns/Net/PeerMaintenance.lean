import Cjdns.Net.FailedRegistration
import Cjdns.Net.PingTable

/-!
# The maintenance of peers

`pingCallback` of `DefaultInterfaceController.c` goes through the peers by their index, pings those
that were not heard of lately and drops those that were forgotten. A peer that is dropped leaves the
map under the loop, and the turn goes on with it nevertheless.
-/

namespace Cjdns.DefaultInterfaceController

open SwitchPinger (PingTable Pong)

/-! ## The pass -/

/-- What the pass, and its caller after it, do with a peer -/
inductive Access where
  /-- The loop comes to the peer. -/
  | examined (handle : ℕ)
  /-- Its allocator is freed. -/
  | dropped (handle : ℕ)
  | written (handle : ℕ)
  /-- Its label is read for a ping, which gets a pointer to the peer. -/
  | pinged (handle : ℕ)
  | used (handle : ℕ)
deriving DecidableEq

/-- The peer of an access -/
def Access.handle : Access → ℕ
  | examined handle | dropped handle | written handle | pinged handle | used handle => handle

/-- The controller with the slots of its pinger -/
structure Maintenance where
  controller : Controller
  pings : PingTable

/-- A pass on its way, with what it has done so far -/
structure Pass extends Maintenance where
  log : List Access

/-- Who calls `pingCallback` -/
inductive Caller where
  | timer
  | registerPeer
  /-- A message of the peer came in, which is passed on by way of the peer afterwards. -/
  | receivedAfterCryptoAuth (ep : ℕ)

def Caller.uses : Caller → List Access
  | timer | registerPeer => []
  | receivedAfterCryptoAuth ep => [.used ep]

namespace Pass

/-- `Allocator_free` for the allocator of a peer, which calls `closeInterface` -/
def drop (handle : ℕ) (pass : Pass) : Option Pass :=
  (pass.controller.table.free handle).map fun table =>
    { controller := { pass.controller with table := table }
      pings := SwitchPinger.orphan handle pass.pings
      log := pass.log ++ [.dropped handle] }

/-- The ping for a peer -/
def pingFor (ep : Map.Entry ℕ RegisteredPeer) : SwitchPinger.Ping where
  label := ep.value.switchLabel
  data := some []
  onResponseContext := some ep.handle
  orphaned := false

/-- A new ping is sent to a peer. Where it comes back at once, with an error from the switch, its
slot is free again. -/
def ping (returned : ℕ → Bool) (ep : Map.Entry ℕ RegisteredPeer) (pass : Pass) : Option Pass :=
  (SwitchPinger.newPing (pingFor ep) pass.pings).map fun (slot, pings) =>
    { pass with
      pings := if returned ep.handle then Function.update pings slot none else pings
      log := pass.log ++ [.pinged ep.handle] }

/-- The body of the loop of `pingCallback` -/
def turn (now : BitVec 64) (returned : ℕ → Bool) (entry : Map.Entry ℕ RegisteredPeer)
    (pass : Pass) : Option Pass :=
  let ep := pass.controller.peer entry.handle
  let pass := { pass with log := pass.log ++ [.examined entry.handle] }
  if now > ep.timeOfLastMessage + PING_AFTER_MILLISECONDS then
    if ep.transient && now > ep.timeOfLastMessage + FORGET_AFTER_MILLISECONDS then
      -- The turn goes on; the label is read from memory that is freed by then.
      (pass.drop entry.handle).bind (ping returned entry)
    else if now > ep.timeOfLastMessage + UNRESPONSIVE_AFTER_MILLISECONDS then
      if pass.controller.pingCount % 8 ≠ 0 then some pass
      else
        ping returned entry
          { pass with
            controller := { pass.controller with
              peer := Function.update pass.controller.peer entry.handle
                { ep with state := .UNRESPONSIVE } }
            log := pass.log ++ [.written entry.handle] }
    else pass.ping returned entry
  else some pass

/-- The loop of `pingCallback` from an index on -/
def loop (now : BitVec 64) (returned : ℕ → Bool) : ℕ → ℕ → Pass → Option Pass
  | 0, _, pass => some pass
  | rounds + 1, i, pass =>
      match pass.controller.table.peerMap.entries[i]? with
      | none => some pass
      | some entry => (pass.turn now returned entry).bind (loop now returned rounds (i + 1))

end Pass

namespace Maintenance

/-- `pingCallback`, and what its caller does with a peer afterwards. There is no result where an
assertion fails or a null pointer is written through. -/
def pingCallback (now : BitVec 64) (returned : ℕ → Bool) (caller : Caller)
    (state : Maintenance) : Option Pass :=
  let start : Pass :=
    { controller := { state.controller with pingCount := state.controller.pingCount + 1 }
      pings := state.pings
      log := [] }
  (start.loop now returned state.controller.table.peerMap.entries.length 0).map fun pass =>
    { pass with log := pass.log ++ caller.uses }

/-! ## Runs -/

inductive Event where
  /-- The last argument tells which pings come back at once. -/
  | pingCallback (now : BitVec 64) (caller : Caller) (returned : ℕ → Bool)
  /-- Peers are registered, merged and freed. -/
  | peers (event : PeerTable.Event)
  /-- A message, or its registration, sets the fields of a peer. -/
  | updated (handle : ℕ) (ep : IFCPeer)
  /-- Another module sends a ping. -/
  | newPing (label : BitVec 64) (data : Option (List (BitVec 8)))
  | pongReceived (slot : Fin Pinger.MAX_CONCURRENT_PINGS) (pong : Pong)
  | timeout (slot : Fin Pinger.MAX_CONCURRENT_PINGS)

end Maintenance

/-- The peer whose allocator is freed -/
def PeerTable.frees (table : PeerTable) : PeerTable.Event → Option ℕ
  | .registerPeer _ _ | .learnKey _ _ => none
  | .moveEndpointIfNeeded ep =>
      (table.peerMap.find ep).bind fun peer =>
        (table.oldEndpoint ep peer.herPublicKey).map fun this => this.handle
  | .free ep => some ep

namespace Maintenance

def step (state : Maintenance) : Event → Option Maintenance
  | .pingCallback now caller returned =>
      (state.pingCallback now returned caller).map fun pass => pass.toMaintenance
  | .peers event =>
      (state.controller.table.step event).map fun table =>
        { controller := { state.controller with table := table }
          pings :=
            match state.controller.table.frees event with
            | none => state.pings
            | some handle => SwitchPinger.orphan handle state.pings }
  | .updated handle ep =>
      some { state with
        controller := { state.controller with
          peer := Function.update state.controller.peer handle ep } }
  | .newPing label data =>
      (SwitchPinger.newPing
        { label := label, data := data, onResponseContext := none, orphaned := false }
        state.pings).map fun (_, pings) => { state with pings := pings }
  | .pongReceived slot _ | .timeout slot =>
      some { state with pings := Function.update state.pings slot none }

/-- No pong that arrives now is attributed to a peer that was dropped since its ping was sent. -/
def Attached (state : Maintenance) : Prop :=
  ∀ slot pong ping, SwitchPinger.answered state.pings slot pong = some ping → ping.orphaned = false

end Maintenance

/-- A pass has left out no peer, and has left alone those it dropped. -/
structure Pass.Sound (registered : List (Map.Entry ℕ RegisteredPeer)) (pass : Pass) : Prop where
  examined : ∀ entry ∈ registered, pass.log.count (.examined entry.handle) = 1
  unused : pass.log.Pairwise fun earlier later =>
    ∀ handle, earlier = .dropped handle → later.handle ≠ handle

namespace Maintenance

/-- A pass comes to its end, soundly. -/
def Does (state : Maintenance) : Event → Prop
  | .pingCallback now caller returned =>
      ∃ pass, state.pingCallback now returned caller = some pass ∧
        pass.Sound state.controller.table.peerMap.entries
  | _ => True

/-- Every pass of a run is sound, and no pong is ever attributed to a peer that was dropped. -/
def Harmless : Maintenance → List Event → Prop
  | state, [] => state.Attached
  | state, event :: events =>
      state.Attached ∧ state.Does event ∧
        ∀ after, state.step event = some after → after.Harmless events

/-- The peer is to be dropped. -/
def Forgotten (now : BitVec 64) (ep : IFCPeer) : Prop :=
  ep.transient ∧ now > ep.timeOfLastMessage + PING_AFTER_MILLISECONDS ∧
    now > ep.timeOfLastMessage + FORGET_AFTER_MILLISECONDS

/-- The peer is to be pinged. -/
def Pinged (now : BitVec 64) (pingCount : BitVec 32) (ep : IFCPeer) : Prop :=
  now > ep.timeOfLastMessage + PING_AFTER_MILLISECONDS ∧
    (now > ep.timeOfLastMessage + UNRESPONSIVE_AFTER_MILLISECONDS → pingCount % 8 = 0)

instance (now : BitVec 64) (ep : IFCPeer) : Decidable (Forgotten now ep) :=
  inferInstanceAs (Decidable (_ ∧ _))

instance (now : BitVec 64) (pingCount : BitVec 32) (ep : IFCPeer) :
    Decidable (Pinged now pingCount ep) :=
  inferInstanceAs (Decidable (_ ∧ _))

/-- Which peers get a ping that stays in its slot, at the next pass -/
def holds (state : Maintenance) (now : BitVec 64) (returned : ℕ → Bool)
    (entry : Map.Entry ℕ RegisteredPeer) : Bool :=
  decide (Pinged now (state.controller.pingCount + 1) (state.controller.peer entry.handle)) &&
    !returned entry.handle

/-- The pass has nobody to drop, and a slot for every ping. -/
structure Spares (state : Maintenance) (now : BitVec 64) (returned : ℕ → Bool) : Prop where
  remembered : ∀ entry ∈ state.controller.table.peerMap.entries,
    ¬ Forgotten now (state.controller.peer entry.handle)
  room : ∀ front entry back, state.controller.table.peerMap.entries = front ++ entry :: back →
    Pinged now (state.controller.pingCount + 1) (state.controller.peer entry.handle) →
      front.countP (state.holds now returned) < SwitchPinger.vacant state.pings

/-- A pass has nobody to drop, and no peer is freed as long as a ping for it is in a slot. -/
def Meets (state : Maintenance) : Event → Prop
  | .pingCallback now _ returned => state.Spares now returned
  | .peers event => (state.controller.table.step event).isSome →
      ∀ handle, state.controller.table.frees event = some handle →
        ¬ SwitchPinger.Outstanding state.pings handle
  | _ => True

/-- Every step of a run meets the condition. -/
def AllMeet : Maintenance → List Event → Prop
  | _, [] => True
  | state, event :: events =>
      state.Meets event ∧ ∀ after, state.step event = some after → after.AllMeet events

end Maintenance

/-! ## Turns -/

open SwitchPinger (NoOrphan vacant)

variable {now : BitVec 64} {returned : ℕ → Bool} {entry : Map.Entry ℕ RegisteredPeer}
  {front back : List (Map.Entry ℕ RegisteredPeer)}

/-- The peer that the loop comes to, if the access is that -/
def Access.examination : Access → Option ℕ
  | examined handle => some handle
  | _ => none

namespace Pass

variable {pass after : Pass} {start : Maintenance}

/-- The first peers have had their turn, and none of them was dropped. -/
structure Reached (now : BitVec 64) (returned : ℕ → Bool) (start : Maintenance)
    (front : List (Map.Entry ℕ RegisteredPeer)) (pass : Pass) : Prop where
  table : pass.controller.table = start.controller.table
  pingCount : pass.controller.pingCount = start.controller.pingCount + 1
  turned : ∀ entry ∈ front,
    pingPeer now (start.controller.pingCount + 1) (start.controller.peer entry.handle) =
      some (pass.controller.peer entry.handle)
  others : ∀ handle ∉ front.map fun entry => entry.handle,
    pass.controller.peer handle = start.controller.peer handle
  examined : pass.log.filterMap Access.examination = front.map fun entry => entry.handle
  undropped : ∀ handle, .dropped handle ∉ pass.log
  attached : NoOrphan start.pings → NoOrphan pass.pings
  vacant : vacant pass.pings + front.countP (start.holds now returned) = vacant start.pings

/-- A ping takes a slot, if there is one, and leaves the peers alone. -/
theorem ping_cases (returned : ℕ → Bool) (entry : Map.Entry ℕ RegisteredPeer) (pass : Pass) :
    pass.ping returned entry = none ∧ vacant pass.pings = 0 ∨
      ∃ after, pass.ping returned entry = some after ∧ 0 < vacant pass.pings ∧
        after.controller = pass.controller ∧ after.log = pass.log ++ [.pinged entry.handle] ∧
        (NoOrphan pass.pings → NoOrphan after.pings) ∧
        vacant after.pings + (if returned entry.handle then 0 else 1) = vacant pass.pings := by
  cases added : SwitchPinger.newPing (pingFor entry) pass.pings with
  | none =>
      refine .inl ⟨by rw [ping, added, Option.map_none], ?_⟩
      exact (SwitchPinger.newPing_eq_none_iff (by simp [pingFor])).mp added
  | some result =>
      rcases result with ⟨slot, pings⟩
      rcases SwitchPinger.newPing_eq_some added with ⟨free, filled⟩
      have taken := SwitchPinger.vacant_update (pingFor entry) free
      rw [← filled] at taken
      refine .inr ⟨{ pass with
        pings := if returned entry.handle then Function.update pings slot none else pings
        log := pass.log ++ [.pinged entry.handle] }, by rw [ping, added, Option.map_some],
        by omega, rfl, rfl, ?_, ?_⟩
      · intro none
        have kept : NoOrphan pings := filled ▸ none.update fun ping same => by
          rw [← Option.some.inj same, pingFor]
        show NoOrphan (if _ then _ else _)
        split_ifs
        · exact kept.update fun ping impossible => by cases impossible
        · exact kept
      · show vacant (if _ then _ else _) + _ = _
        split_ifs
        · rw [filled, Function.update_idem, ← free, Function.update_eq_self, Nat.add_zero]
        · exact taken

/-- What a ping that is sent leaves -/
theorem of_ping {before : Pass} (sent : before.ping returned entry = some after) :
    after.controller = before.controller ∧ after.log = before.log ++ [.pinged entry.handle] := by
  rcases ping_cases returned entry before with ⟨fails, -⟩ | ⟨other, same, -, kept, log, -⟩
  · rw [fails] at sent
    cases sent
  · rw [Option.some.inj (sent.symm.trans same)]
    exact ⟨kept, log⟩

/-- One more peer has had its turn. -/
theorem Reached.next {ep : IFCPeer} (reached : pass.Reached now returned start front)
    (rest : List Access) (new : entry.handle ∉ front.map fun entry => entry.handle)
    (table : after.controller.table = pass.controller.table)
    (pingCount : after.controller.pingCount = pass.controller.pingCount)
    (peer : after.controller.peer = Function.update pass.controller.peer entry.handle ep)
    (turned : pingPeer now (start.controller.pingCount + 1) (start.controller.peer entry.handle) =
      some ep)
    (log : after.log = pass.log ++ .examined entry.handle :: rest)
    (quiet : ∀ access ∈ rest, access.examination = none ∧ ∀ handle, access ≠ .dropped handle)
    (attached : NoOrphan pass.pings → NoOrphan after.pings)
    (slots : SwitchPinger.vacant after.pings + (if start.holds now returned entry then 1 else 0) =
      SwitchPinger.vacant pass.pings) :
    after.Reached now returned start (front ++ [entry]) where
  table := table.trans reached.table
  pingCount := pingCount.trans reached.pingCount
  turned other inside := by
    rw [peer]
    rcases List.mem_append.mp inside with before | last
    · have distinct : other.handle ≠ entry.handle := fun same =>
        new (same ▸ List.mem_map_of_mem before)
      rw [Function.update_of_ne distinct]
      exact reached.turned other before
    · rw [List.mem_singleton.mp last, Function.update_self]
      exact turned
  others handle outside := by
    simp only [List.map_append, List.map_cons, List.map_nil, List.mem_append, List.mem_singleton,
      not_or] at outside
    rw [peer, Function.update_of_ne outside.2]
    exact reached.others handle outside.1
  examined := by
    have none : rest.filterMap Access.examination = [] :=
      List.filterMap_eq_nil_iff.mpr fun access inside => (quiet access inside).1
    rw [log, List.filterMap_append, reached.examined, List.filterMap_cons, none, List.map_append]
    rfl
  undropped handle inside := by
    rw [log, List.mem_append, List.mem_cons] at inside
    rcases inside with before | same | last
    · exact reached.undropped handle before
    · cases same
    · exact (quiet _ last).2 handle rfl
  attached none := attached (reached.attached none)
  vacant := by
    rw [← reached.vacant, ← slots, List.countP_append, List.countP_singleton]
    omega

/-- A ping ends the turn of a peer. -/
theorem Reached.pinged {ep : IFCPeer} (reached : pass.Reached now returned start front)
    (marked : Pass) (rest : List Access)
    (new : entry.handle ∉ front.map fun entry => entry.handle)
    (due : Maintenance.Pinged now (start.controller.pingCount + 1)
      (start.controller.peer entry.handle))
    (turned : pingPeer now (start.controller.pingCount + 1) (start.controller.peer entry.handle) =
      some ep)
    (table : marked.controller.table = pass.controller.table)
    (pingCount : marked.controller.pingCount = pass.controller.pingCount)
    (peer : marked.controller.peer = Function.update pass.controller.peer entry.handle ep)
    (log : marked.log = pass.log ++ .examined entry.handle :: rest)
    (quiet : ∀ access ∈ rest, access.examination = none ∧ ∀ handle, access ≠ .dropped handle)
    (pings : marked.pings = pass.pings) :
    marked.ping returned entry = none ∧ SwitchPinger.vacant pass.pings = 0 ∨
      ∃ after, marked.ping returned entry = some after ∧
        after.Reached now returned start (front ++ [entry]) ∧
        0 < SwitchPinger.vacant pass.pings := by
  rcases ping_cases returned entry marked with
    ⟨fails, full⟩ | ⟨after, sent, free, controller, grown, attached, slots⟩
  · exact .inl ⟨fails, pings ▸ full⟩
  · refine .inr ⟨after, sent, ?_, pings ▸ free⟩
    rw [pings] at attached slots
    refine reached.next (rest ++ [.pinged entry.handle]) new (controller ▸ table)
      (controller ▸ pingCount) (controller ▸ peer) turned (by rw [grown, log]; simp) ?_ attached ?_
    · intro access inside
      rcases List.mem_append.mp inside with before | last
      · exact quiet access before
      · rw [List.mem_singleton.mp last]
        exact ⟨rfl, fun handle impossible => by cases impossible⟩
    · rw [← slots, Maintenance.holds, decide_eq_true due]
      cases returned entry.handle <;> rfl

/-- The turn of a peer that is not dropped -/
theorem Reached.turn (reached : pass.Reached now returned start front)
    (new : entry.handle ∉ front.map fun entry => entry.handle)
    (remembered : ¬ Maintenance.Forgotten now (start.controller.peer entry.handle)) :
    (pass.turn now returned entry = none ∧ SwitchPinger.vacant pass.pings = 0 ∧
        Maintenance.Pinged now (start.controller.pingCount + 1)
          (start.controller.peer entry.handle)) ∨
      ∃ after, pass.turn now returned entry = some after ∧
        after.Reached now returned start (front ++ [entry]) ∧
        (Maintenance.Pinged now (start.controller.pingCount + 1)
          (start.controller.peer entry.handle) → 0 < SwitchPinger.vacant pass.pings) := by
  have same := reached.others entry.handle new
  have count := reached.pingCount
  have unchanged : Function.update pass.controller.peer entry.handle
      (start.controller.peer entry.handle) = pass.controller.peer := by
    rw [← same, Function.update_eq_self]
  have keeps : ¬ ((start.controller.peer entry.handle).transient &&
      decide (now > (start.controller.peer entry.handle).timeOfLastMessage +
        FORGET_AFTER_MILLISECONDS)) = true ∨
      ¬ now > (start.controller.peer entry.handle).timeOfLastMessage + PING_AFTER_MILLISECONDS := by
    by_contra dropped
    simp only [not_or, not_not, Bool.and_eq_true, decide_eq_true_eq] at dropped
    exact remembered ⟨dropped.1.1, dropped.2, dropped.1.2⟩
  simp only [Pass.turn, same]
  by_cases lazy : now >
      (start.controller.peer entry.handle).timeOfLastMessage + PING_AFTER_MILLISECONDS
  · have kept := keeps.resolve_right (not_not.mpr lazy)
    rw [if_pos lazy, if_neg kept]
    by_cases down : now >
        (start.controller.peer entry.handle).timeOfLastMessage + UNRESPONSIVE_AFTER_MILLISECONDS
    · rw [if_pos down]
      by_cases skips : (start.controller.pingCount + 1) % 8 ≠ 0
      · -- Seven times out of eight, a peer that is down is passed by.
        have idle : ¬ Maintenance.Pinged now (start.controller.pingCount + 1)
            (start.controller.peer entry.handle) := fun due => skips (due.2 down)
        rw [if_pos (count ▸ skips)]
        refine .inr ⟨_, rfl, ?_, fun due => absurd due idle⟩
        refine reached.next [] new rfl rfl unchanged.symm ?_ rfl (by simp) id ?_
        · rw [pingPeer, if_pos lazy, if_neg kept, if_pos down, if_pos skips]
        · rw [Maintenance.holds, decide_eq_false idle]
          rfl
      · have due : Maintenance.Pinged now (start.controller.pingCount + 1)
            (start.controller.peer entry.handle) := ⟨lazy, fun _ => not_not.mp skips⟩
        rw [if_neg (count ▸ skips)]
        have turned : pingPeer now (start.controller.pingCount + 1)
            (start.controller.peer entry.handle) =
              some { start.controller.peer entry.handle with state := .UNRESPONSIVE } := by
          rw [pingPeer, if_pos lazy, if_neg kept, if_pos down, if_neg skips]
        rcases reached.pinged { pass with
            controller := { pass.controller with
              peer := Function.update pass.controller.peer entry.handle
                { start.controller.peer entry.handle with state := .UNRESPONSIVE } }
            log := pass.log ++ [.examined entry.handle] ++ [.written entry.handle] }
            [.written entry.handle] new due turned rfl rfl rfl (by simp)
            (by simp [Access.examination]) rfl with
          ⟨fails, full⟩ | ⟨after, sent, goes, free⟩
        · exact .inl ⟨fails, full, due⟩
        · exact .inr ⟨after, sent, goes, fun _ => free⟩
    · have due : Maintenance.Pinged now (start.controller.pingCount + 1)
          (start.controller.peer entry.handle) := ⟨lazy, fun isDown => absurd isDown down⟩
      rw [if_neg down]
      have turned : pingPeer now (start.controller.pingCount + 1)
          (start.controller.peer entry.handle) = some (start.controller.peer entry.handle) := by
        rw [pingPeer, if_pos lazy, if_neg kept, if_neg down]
      rcases reached.pinged { pass with log := pass.log ++ [.examined entry.handle] } [] new due
          turned rfl rfl unchanged.symm rfl (by simp) rfl with
        ⟨fails, full⟩ | ⟨after, sent, goes, free⟩
      · exact .inl ⟨fails, full, due⟩
      · exact .inr ⟨after, sent, goes, fun _ => free⟩
  · have idle : ¬ Maintenance.Pinged now (start.controller.pingCount + 1)
        (start.controller.peer entry.handle) := fun due => lazy due.1
    rw [if_neg lazy]
    refine .inr ⟨_, rfl, ?_, fun due => absurd due idle⟩
    refine reached.next [] new rfl rfl unchanged.symm ?_ rfl (by simp) id ?_
    · rw [pingPeer, if_neg lazy]
    · rw [Maintenance.holds, decide_eq_false idle]
      rfl

/-! ### The loop -/

theorem loop_done {rounds i : ℕ}
    (done : pass.controller.table.peerMap.entries[i]? = none) :
    pass.loop now returned rounds i = some pass := by
  cases rounds with
  | zero => rfl
  | succ rounds => rw [loop, done]

theorem loop_turn {rounds i : ℕ}
    (here : pass.controller.table.peerMap.entries[i]? = some entry) :
    pass.loop now returned (rounds + 1) i =
      (pass.turn now returned entry).bind (loop now returned rounds (i + 1)) := by
  rw [loop, here]

/-- A pass only adds to what it has done. -/
theorem log_of_turn (goes : pass.turn now returned entry = some after) :
    pass.log <+: after.log := by
  simp only [Pass.turn] at goes
  split_ifs at goes
  · rcases Option.bind_eq_some_iff.mp goes with ⟨freed, drops, sent⟩
    rcases Option.map_eq_some_iff.mp drops with ⟨table, -, rfl⟩
    rw [(of_ping sent).2]
    simp
  · rw [← Option.some.inj goes]
    exact List.prefix_append _ _
  · rw [(of_ping goes).2]
    simp
  · rw [(of_ping goes).2]
    simp
  · rw [← Option.some.inj goes]
    exact List.prefix_append _ _

theorem log_of_loop {rounds i : ℕ} (ends : pass.loop now returned rounds i = some after) :
    pass.log <+: after.log := by
  induction rounds generalizing i pass with
  | zero => rw [← Option.some.inj ends]
  | succ rounds ih =>
      cases here : pass.controller.table.peerMap.entries[i]? with
      | none =>
          rw [loop_done here] at ends
          rw [← Option.some.inj ends]
      | some entry =>
          rw [loop_turn here] at ends
          rcases Option.bind_eq_some_iff.mp ends with ⟨middle, goes, rest⟩
          exact (log_of_turn goes).trans (ih rest)

/-- A peer that is dropped is pinged in the same turn. -/
theorem log_of_forgotten (forgotten : Maintenance.Forgotten now (pass.controller.peer entry.handle))
    (goes : pass.turn now returned entry = some after) :
    ∃ before, after.log = before ++ [.dropped entry.handle, .pinged entry.handle] := by
  have drops : ((pass.controller.peer entry.handle).transient &&
      decide (now > (pass.controller.peer entry.handle).timeOfLastMessage +
        FORGET_AFTER_MILLISECONDS)) = true := by
    simp only [Bool.and_eq_true, decide_eq_true_eq]
    exact ⟨forgotten.1, forgotten.2.2⟩
  simp only [Pass.turn] at goes
  rw [if_pos forgotten.2.1, if_pos drops] at goes
  rcases Option.bind_eq_some_iff.mp goes with ⟨freed, drops, sent⟩
  rcases Option.map_eq_some_iff.mp drops with ⟨table, -, rfl⟩
  rw [(of_ping sent).2]
  exact ⟨pass.log ++ [.examined entry.handle], by simp⟩

/-- The loop goes on with the first of the peers that had no turn yet. -/
theorem Reached.here (reached : pass.Reached now returned start front)
    (entries : start.controller.table.peerMap.entries = front ++ back) :
    pass.controller.table.peerMap.entries[front.length]? = back.head? := by
  rw [reached.table, entries, List.getElem?_append_right (le_refl _), Nat.sub_self,
    List.head?_eq_getElem?]

theorem new_of_entries (entries : start.controller.table.peerMap.entries = front ++ entry :: back) :
    entry.handle ∉ front.map fun entry => entry.handle := by
  intro before
  rcases List.mem_map.mp before with ⟨other, earlier, same⟩
  have ascends := start.controller.table.peerMap.sorted
  rw [entries, List.pairwise_append] at ascends
  exact absurd same (ascends.2.2 other earlier entry List.mem_cons_self).ne

/-- A loop that comes to its end has dropped nobody, or used a peer that it had dropped. -/
theorem Reached.remembered {rounds : ℕ} (reached : pass.Reached now returned start front)
    (entries : start.controller.table.peerMap.entries = front ++ back)
    (enough : back.length ≤ rounds) (ends : pass.loop now returned rounds front.length = some after)
    (unused : after.log.Pairwise fun earlier later =>
      ∀ handle, earlier = .dropped handle → later.handle ≠ handle) :
    ∀ entry ∈ back, ¬ Maintenance.Forgotten now (start.controller.peer entry.handle) := by
  induction back generalizing pass front rounds with
  | nil => exact fun entry impossible => absurd impossible List.not_mem_nil
  | cons entry back ih =>
      rcases rounds with _ | rounds
      · cases enough
      have new := new_of_entries entries
      rw [loop_turn (reached.here entries)] at ends
      rcases Option.bind_eq_some_iff.mp ends with ⟨middle, goes, rest⟩
      by_cases forgotten : Maintenance.Forgotten now (start.controller.peer entry.handle)
      · rw [← reached.others _ new] at forgotten
        rcases log_of_forgotten forgotten goes with ⟨before, log⟩
        have ordered := unused.sublist (log_of_loop rest).sublist
        rw [log, List.pairwise_append] at ordered
        have apart := List.rel_of_pairwise_cons ordered.2.1 (List.mem_singleton_self _)
        exact absurd rfl (apart entry.handle rfl)
      · rcases reached.turn new forgotten with ⟨fails, -⟩ | ⟨other, same, further, -⟩
        · rw [fails] at goes
          cases goes
        · rw [Option.some.inj (same.symm.trans goes)] at further
          have longer : (front ++ [entry]).length = front.length + 1 := by simp
          rw [← longer] at rest
          simp only [List.mem_cons, forall_eq_or_imp]
          exact ⟨forgotten, ih further (by rw [entries]; simp) (by simpa using enough) rest⟩

/-- If nobody is dropped, the loop ends exactly if every ping finds a slot. -/
theorem Reached.loop_iff {rounds : ℕ} (reached : pass.Reached now returned start front)
    (entries : start.controller.table.peerMap.entries = front ++ back)
    (enough : back.length ≤ rounds)
    (remembered : ∀ entry ∈ back,
      ¬ Maintenance.Forgotten now (start.controller.peer entry.handle)) :
    ((∃ after, pass.loop now returned rounds front.length = some after) ↔
      ∀ middle entry rest, back = middle ++ entry :: rest →
        Maintenance.Pinged now (start.controller.pingCount + 1)
          (start.controller.peer entry.handle) →
          (front ++ middle).countP (start.holds now returned) <
            SwitchPinger.vacant start.pings) ∧
      ∀ after, pass.loop now returned rounds front.length = some after →
        after.Reached now returned start start.controller.table.peerMap.entries := by
  induction back generalizing pass front rounds with
  | nil =>
      have done : pass.loop now returned rounds front.length = some pass :=
        loop_done (reached.here entries)
      rw [List.append_nil] at entries
      rw [done, entries]
      refine ⟨iff_of_true ⟨pass, rfl⟩ (by simp), fun after same => ?_⟩
      rw [← Option.some.inj same]
      exact reached
  | cons entry back ih =>
      rcases rounds with _ | rounds
      · cases enough
      have longer : (front ++ [entry]).length = front.length + 1 := by simp
      rw [loop_turn (reached.here entries), ← longer]
      rcases reached.turn (new_of_entries entries) (remembered entry List.mem_cons_self) with
        ⟨fails, full, due⟩ | ⟨middle, goes, further, free⟩
      · have none := reached.vacant
        rw [full, Nat.zero_add] at none
        rw [fails]
        refine ⟨iff_of_false (fun ⟨after, impossible⟩ => by cases impossible) (fun room => ?_),
          fun after impossible => by cases impossible⟩
        have fits := room [] entry back rfl due
        rw [List.append_nil, none] at fits
        exact Nat.lt_irrefl _ fits
      · rcases ih further (by rw [entries]; simp) (Nat.le_of_succ_le_succ enough)
          (fun other inside => remembered other (List.mem_cons_of_mem _ inside)) with ⟨ends, last⟩
        rw [goes, Option.bind_some, ends]
        refine ⟨⟨?_, ?_⟩, last⟩
        · intro room before other rest same due
          rcases before with _ | ⟨first, before⟩
          · rcases List.cons.inj same with ⟨rfl, -⟩
            rw [List.append_nil, ← reached.vacant]
            exact Nat.lt_add_of_pos_left (free due)
          · rcases List.cons.inj same with ⟨rfl, tail⟩
            rw [List.append_cons]
            exact room before other rest tail due
        · intro room before other rest same due
          have fits := room (entry :: before) other rest (by rw [same, List.cons_append]) due
          rwa [List.append_cons] at fits

end Pass

namespace Maintenance

variable {state : Maintenance} {pass : Pass} {caller : Caller}

/-- The state in which the loop begins -/
def beginning (state : Maintenance) : Pass where
  controller := { state.controller with pingCount := state.controller.pingCount + 1 }
  pings := state.pings
  log := []

theorem reached_beginning (state : Maintenance) (now : BitVec 64) (returned : ℕ → Bool) :
    state.beginning.Reached now returned state [] where
  table := rfl
  pingCount := rfl
  turned := by simp
  others _ _ := rfl
  examined := rfl
  undropped := by simp [beginning]
  attached := id
  vacant := rfl

theorem pingCallback_eq_some : state.pingCallback now returned caller = some pass ↔
    ∃ ended : Pass,
      state.beginning.loop now returned state.controller.table.peerMap.entries.length 0 =
        some ended ∧ { ended with log := ended.log ++ caller.uses } = pass :=
  Option.map_eq_some_iff

/-- Where nobody is dropped, a pass gives every peer its turn. -/
theorem pass_of_spares (caller : Caller) (spares : state.Spares now returned) :
    ∃ ended : Pass, state.pingCallback now returned caller =
        some { ended with log := ended.log ++ caller.uses } ∧
      ended.Reached now returned state state.controller.table.peerMap.entries := by
  rcases (state.reached_beginning now returned).loop_iff rfl (le_refl _) spares.remembered with
    ⟨ends, reached⟩
  rcases ends.mpr spares.room with ⟨ended, ends⟩
  exact ⟨ended, pingCallback_eq_some.mpr ⟨ended, ends, rfl⟩, reached ended ends⟩

theorem sound_of_reached
    (reached : pass.Reached now returned state state.controller.table.peerMap.entries) :
    Pass.Sound state.controller.table.peerMap.entries
      { pass with log := pass.log ++ caller.uses } where
  examined entry inside := by
    have unexamined : caller.uses.count (.examined entry.handle) = 0 := by
      cases caller <;> simp [Caller.uses]
    have turns : pass.log.count (.examined entry.handle) =
        (pass.log.filterMap Access.examination).count entry.handle := by
      rw [List.count_filterMap, List.count_eq_countP]
      refine List.countP_congr fun access _ => ?_
      cases access <;> simp [Access.examination]
    have distinct :
        (state.controller.table.peerMap.entries.map fun entry => entry.handle).Nodup := by
      rw [List.nodup_iff_pairwise_ne, List.pairwise_map]
      exact state.controller.table.peerMap.sorted.imp fun ascends => ascends.ne
    rw [List.count_append, unexamined, Nat.add_zero, turns, reached.examined]
    exact List.count_eq_one_of_mem distinct (List.mem_map_of_mem inside)
  unused := by
    refine List.pairwise_of_forall_mem_list fun earlier inside later _ handle same => ?_
    rcases List.mem_append.mp inside with before | last
    · exact absurd (same ▸ before) (reached.undropped handle)
    · cases caller <;> simp [Caller.uses, same] at last

/-- A pass is sound exactly if it has nobody to drop and slots enough. -/
theorem does_pingCallback_iff (caller : Caller) :
    state.Does (.pingCallback now caller returned) ↔ state.Spares now returned := by
  constructor
  · rintro ⟨pass, passes, sound⟩
    rcases pingCallback_eq_some.mp passes with ⟨ended, ends, rfl⟩
    have begins := state.reached_beginning now returned
    have remembered := begins.remembered rfl (le_refl _) ends
      (sound.unused.sublist (List.sublist_append_left _ _))
    have room := (begins.loop_iff rfl (le_refl _) remembered).1.mp ⟨ended, ends⟩
    exact ⟨remembered, room⟩
  · intro spares
    rcases pass_of_spares caller spares with ⟨ended, passes, reached⟩
    exact ⟨_, passes, sound_of_reached reached⟩

/-! ## Steps and runs -/

theorem attached_iff : state.Attached ↔ NoOrphan state.pings :=
  SwitchPinger.noOrphan_iff.symm

/-- One step -/
theorem meets_iff (attached : NoOrphan state.pings) (event : Event) :
    (state.Does event ∧ ∀ after, state.step event = some after → NoOrphan after.pings) ↔
      state.Meets event := by
  cases event with
  | pingCallback now caller returned =>
      refine Iff.trans ?_ (does_pingCallback_iff caller)
      refine and_iff_left_of_imp fun does after steps => ?_
      have spares := (does_pingCallback_iff caller).mp does
      rcases pass_of_spares caller spares with ⟨ended, passes, reached⟩
      rw [step, passes, Option.map_some] at steps
      rw [← Option.some.inj steps]
      exact reached.attached attached
  | peers event =>
      simp only [Does, true_and, Meets, step]
      cases runs : state.controller.table.step event with
      | none => simp
      | some table =>
          simp only [Option.map_some, Option.some.injEq, forall_eq', Option.isSome_some,
            true_imp_iff]
          cases frees : state.controller.table.frees event with
          | none => simpa using attached
          | some handle => simpa using SwitchPinger.noOrphan_orphan_iff attached handle
  | updated handle ep =>
      refine iff_of_true ⟨trivial, fun after steps => ?_⟩ trivial
      rw [← Option.some.inj steps]
      exact attached
  | newPing label data =>
      refine iff_of_true ⟨trivial, fun after steps => ?_⟩ trivial
      rcases Option.map_eq_some_iff.mp steps with ⟨⟨slot, pings⟩, added, rfl⟩
      rw [(SwitchPinger.newPing_eq_some added).2]
      exact attached.update fun ping same => by rw [← Option.some.inj same]
  | pongReceived slot pong =>
      refine iff_of_true ⟨trivial, fun after steps => ?_⟩ trivial
      rw [← Option.some.inj steps]
      exact attached.update fun ping impossible => by cases impossible
  | timeout slot =>
      refine iff_of_true ⟨trivial, fun after steps => ?_⟩ trivial
      rw [← Option.some.inj steps]
      exact attached.update fun ping impossible => by cases impossible

/-- A run is harmless exactly if no pass in it has a peer to drop or runs out of slots, and no peer
is freed while a ping for it is in a slot. -/
theorem harmless_iff (state : Maintenance) (events : List Event) :
    state.Harmless events ↔ NoOrphan state.pings ∧ state.AllMeet events := by
  induction events generalizing state with
  | nil => rw [Harmless, AllMeet, and_true, attached_iff]
  | cons event events ih =>
      rw [Harmless, AllMeet, attached_iff]
      refine and_congr_right fun attached => ?_
      rw [← meets_iff attached, and_assoc, ← forall_and]
      refine and_congr_right fun _ => forall_congr' fun after => ?_
      rw [← imp_and]
      exact imp_congr_right fun _ => ih after

/-! ## A peer that is dropped -/

/-- The first of two peers has not been heard of for a long time. -/
def withForgotten : Maintenance where
  controller :=
    { table := ((PeerTable.new.registerPeer 11 1).bind fun table =>
        table.registerPeer 12 2).getD .new
      peer := fun handle =>
        { DefaultInterfaceController.registerPeer none none false true ⟨0, 1⟩ ⟨0, 0⟩ with
          timeOfLastMessage := if handle = 0 then 0 else 400000 }
      pingCount := 0 }
  pings _ := none

/-- A message of the first peer sets off a pass, which drops that peer, sends it a ping nevertheless
and leaves out the other peer; then the message is passed on by way of the peer that is gone. -/
theorem forgotten_peer_used :
    withForgotten.controller.table.peerMap.entries.map (fun entry => entry.handle) = [0, 1] ∧
      withForgotten.Attached ∧
      (withForgotten.pingCallback 400000 (fun _ => false) (.receivedAfterCryptoAuth 0)).map
        (fun pass => pass.log) = some [.examined 0, .dropped 0, .pinged 0, .used 0] ∧
      ¬ withForgotten.Harmless
        [.pingCallback 400000 (.receivedAfterCryptoAuth 0) fun _ => false] := by
  have log : (withForgotten.pingCallback 400000 (fun _ => false) (.receivedAfterCryptoAuth 0)).map
      (fun pass => pass.log) = some [.examined 0, .dropped 0, .pinged 0, .used 0] := by
    decide
  refine ⟨by decide, attached_iff.mpr (fun _ _ inSlot => by cases inSlot), log, ?_⟩
  rintro ⟨-, ⟨pass, passes, sound⟩, -⟩
  rw [passes, Option.map_some, Option.some.injEq] at log
  have unused := sound.unused
  simp [log, Access.handle] at unused

end Maintenance

end Cjdns.DefaultInterfaceController
