import Cjdns.Switch.InterfaceTable
import Cjdns.Util.Map

/-!
# Merging peers

When a peer is established that is already known by another interface,
`moveEndpointIfNeeded` gives it the slot and the label of the old endpoint and frees the old
one. The slots of the switch, the interfaces that are in them and the jobs of the allocators
that vacate them refer to one another; the invariant says how.

A job has a number for its address. The interface of a peer is known to the switch by the successor
of its handle, and the interface of the router by zero.
-/

namespace Cjdns.DefaultInterfaceController

open NumberCompress (INTERFACES)

/-- What a job of an allocator calls, and on what -/
inductive OnFree where
  | closeInterface (handle : ℕ)
  | removeInterface (slot : Fin INTERFACES)

/-- `struct MallocAllocator_OnFreeJob` -/
structure OnFreeJob where
  address : ℕ
  callback : OnFree

/-- `removeOnFreeJob`; there is no result where the job is not found. -/
def removeOnFreeJob (toRemove : ℕ) : List OnFreeJob → Option (List OnFreeJob)
  | [] => none
  | job :: jobs =>
      if job.address = toRemove then some jobs
      else (removeOnFreeJob toRemove jobs).map fun rest => job :: rest

/-- `struct IFCPeer`, with the jobs of its allocator -/
structure RegisteredPeer where
  /-- The key of its CryptoAuth session, zeros if it is not known -/
  herPublicKey : BitVec 256
  switchLabel : BitVec 64
  /-- The slot that `switchIf` refers to -/
  receiverContext : Option (Fin INTERFACES)
  jobs : List OnFreeJob

/-- The peers of the controller and the slots of the switch -/
structure PeerTable where
  core : SwitchCore
  /-- The job that vacates a slot -/
  onFree : Fin INTERFACES → ℕ
  /-- By external interface -/
  peerMap : Map ℕ RegisteredPeer
  nextJob : ℕ

namespace PeerTable

/-- `registerPeer`, for a key that is valid or not known. There is no result where the table of the
switch is overrun. -/
def registerPeer (externalInterface : ℕ) (herPublicKey : BitVec 256) (table : PeerTable) :
    Option PeerTable :=
  if (table.peerMap.indexForKey externalInterface).isSome then some table
  else
    let handle := table.peerMap.nextHandle
    let close : OnFreeJob := { address := table.nextJob, callback := .closeInterface handle }
    match table.core.addInterface (handle + 1) 0 with
    | .outOfSpace =>
        some { table with
          peerMap := table.peerMap.push externalInterface
            { herPublicKey := herPublicKey
              switchLabel := 0
              receiverContext := none
              jobs := [close] }
          nextJob := table.nextJob + 1 }
    | .stored core slot labelOut =>
        some
          { core := core
            onFree := Function.update table.onFree slot (table.nextJob + 1)
            peerMap := table.peerMap.push externalInterface
              { herPublicKey := herPublicKey
                switchLabel := labelOut
                receiverContext := some slot
                jobs := [close,
                  { address := table.nextJob + 1, callback := .removeInterface slot }] }
            nextJob := table.nextJob + 2 }
    | .outOfBounds => none

/-- `closeInterface` and `removeInterface`; there is no result where an assertion fails. -/
def runJob (table : PeerTable) (job : OnFreeJob) : Option PeerTable :=
  match job.callback with
  | .closeInterface handle =>
      (table.peerMap.indexForHandle (BitVec.ofNat 32 handle)).map fun entry =>
        { table with peerMap := table.peerMap.remove entry.handle }
  | .removeInterface slot =>
      some { table with
        core := table.core.removeInterface slot
        onFree := Function.update table.onFree slot 0 }

/-- The allocator of a peer is freed, which runs its jobs. -/
def free (ep : ℕ) (table : PeerTable) : Option PeerTable :=
  (table.peerMap.find ep).bind fun peer => peer.jobs.foldlM runJob table

/-- `SwitchCore_swapInterfaces`; there is no result where a pointer is null or an assertion fails. -/
def swapInterfaces (if1 if2 : ℕ) (table : PeerTable) : Option PeerTable :=
  (table.peerMap.find if1).bind fun peer1 => (table.peerMap.find if2).bind fun peer2 =>
    peer1.receiverContext.bind fun si1 => peer2.receiverContext.bind fun si2 =>
      (removeOnFreeJob (table.onFree si1) peer1.jobs).bind fun jobs1 =>
        (removeOnFreeJob (table.onFree si2) peer2.jobs).map fun jobs2 =>
          { core :=
              { table.core with
                interfaces :=
                  Function.update (Function.update table.core.interfaces si1
                    (table.core.interfaces si2)) si2 (table.core.interfaces si1) }
            onFree :=
              Function.update (Function.update table.onFree si1 table.nextJob) si2
                (table.nextJob + 1)
            peerMap :=
              (table.peerMap.modify if1 fun peer =>
                { peer with
                  receiverContext := some si2
                  jobs := jobs1 ++
                    [{ address := table.nextJob + 1, callback := .removeInterface si2 }] }).modify
                if2 fun peer =>
                  { peer with
                    receiverContext := some si1
                    jobs := jobs2 ++
                      [{ address := table.nextJob, callback := .removeInterface si1 }] }
            nextJob := table.nextJob + 2 }

/-- The other endpoint that the loop of `moveEndpointIfNeeded` finds -/
def oldEndpoint (ep : ℕ) (key : BitVec 256) (table : PeerTable) : Option (Map.Entry ℕ RegisteredPeer) :=
  table.peerMap.entries.find? fun this => this.handle ≠ ep ∧ this.value.herPublicKey = key

/-- `moveEndpointIfNeeded` -/
def moveEndpointIfNeeded (ep : ℕ) (table : PeerTable) : Option PeerTable :=
  (table.peerMap.find ep).bind fun peer =>
    match table.oldEndpoint ep peer.herPublicKey with
    | none => some table
    | some this =>
        let labelled := { table with
          peerMap := table.peerMap.modify ep fun peer =>
            { peer with switchLabel := this.value.switchLabel } }
        (labelled.swapInterfaces this.handle ep).bind fun swapped => swapped.free this.handle

/-- A session learns the key of its peer. -/
def learnKey (ep : ℕ) (key : BitVec 256) (table : PeerTable) : PeerTable :=
  { table with peerMap := table.peerMap.modify ep fun peer => { peer with herPublicKey := key } }

/-! ## Runs -/

inductive Event where
  | registerPeer (externalInterface : ℕ) (herPublicKey : BitVec 256)
  | learnKey (ep : ℕ) (key : BitVec 256)
  | moveEndpointIfNeeded (ep : ℕ)
  | free (ep : ℕ)

def step (table : PeerTable) : Event → Option PeerTable
  | .registerPeer externalInterface herPublicKey =>
      table.registerPeer externalInterface herPublicKey
  | .learnKey ep key => some (table.learnKey ep key)
  | .moveEndpointIfNeeded ep => table.moveEndpointIfNeeded ep
  | .free ep => table.free ep

/-- The router has its slot, and no peer is registered. -/
def new : PeerTable where
  core := SwitchCore.new.setRouterInterface 0
  onFree _ := 0
  peerMap := .empty
  nextJob := 1

/-- Peers that come, are merged and go -/
def peers : TransitionSystem PeerTable Event where
  initial table := table = new
  step table event after := table.step event = some after

/-- No counter wraps around. -/
def NoWrap (table : PeerTable) : Event → Prop
  | .registerPeer _ _ =>
      table.core.interfaceCount.toNat + 2 < 2 ^ 32 ∧ table.peerMap.nextHandle < 2 ^ 32
  | .learnKey _ _ => True
  | .moveEndpointIfNeeded _ => True
  | .free _ => True

/-! ## What merging should do -/

/-- The slot holds the interface of the peer, and the label of the peer leads there. -/
structure InSlot (table : PeerTable) (entry : Map.Entry ℕ RegisteredPeer) (slot : Fin INTERFACES) :
    Prop where
  peer : slot ≠ 1
  holds : (table.core.interfaces slot).iface = some (entry.handle + 1)
  reached : NumberCompress.getDecompressed entry.value.switchLabel
    (NumberCompress.bitsUsedForLabel entry.value.switchLabel) = slot

/-- Freeing a peer vacates the slot it refers to and no other, and removes the peer. -/
def FreesItself (table : PeerTable) (entry : Map.Entry ℕ RegisteredPeer) : Prop :=
  ∃ after, table.free entry.handle = some after ∧
    (∀ slot, after.core.interfaces slot =
      if entry.value.receiverContext = some slot then .vacant else table.core.interfaces slot) ∧
    ∀ other, other ∈ after.peerMap.entries ↔
      other ∈ table.peerMap.entries ∧ other.handle ≠ entry.handle

/-- The new endpoint has the slot and the label of the old one, and the old one is gone with
the slot that the new one had. -/
structure Exchanged (table after : PeerTable) (old new : Map.Entry ℕ RegisteredPeer) : Prop where
  gone : ∀ entry ∈ after.peerMap.entries, entry.handle ≠ old.handle
  stays : ∃ entry ∈ after.peerMap.entries, entry.handle = new.handle ∧
    entry.value.receiverContext = old.value.receiverContext ∧
    entry.value.switchLabel = old.value.switchLabel
  slots : ∀ slot, after.core.interfaces slot =
    if old.value.receiverContext = some slot then
      match new.value.receiverContext with
      | none => .vacant
      | some other => table.core.interfaces other
    else if new.value.receiverContext = some slot then .vacant
    else table.core.interfaces slot

/-- What merging leaves behind -/
structure MergedWell (table : PeerTable) (new : Map.Entry ℕ RegisteredPeer) (after : PeerTable) :
    Prop where
  exchanged : ∀ old ∈ table.peerMap.entries, old.handle ≠ new.handle →
    old.value.herPublicKey = new.value.herPublicKey → table.Exchanged after old new
  inSlot : ∀ entry ∈ after.peerMap.entries, ∀ slot ∈ entry.value.receiverContext,
    after.InSlot entry slot
  frees : ∀ entry ∈ after.peerMap.entries, after.FreesItself entry
  distinct : ∀ first ∈ after.peerMap.entries, ∀ second ∈ after.peerMap.entries,
    first.value.herPublicKey = second.value.herPublicKey → first.value.herPublicKey ≠ 0 →
      first = second

/-- Merging a peer comes to its end and leaves everything in order. -/
def MergesWell (table : PeerTable) (new : Map.Entry ℕ RegisteredPeer) : Prop :=
  ∃ after, table.moveEndpointIfNeeded new.handle = some after ∧ table.MergedWell new after

/-- The other peers have different keys, and if one of them is merged, both have a slot. -/
structure Mergeable (table : PeerTable) (new : Map.Entry ℕ RegisteredPeer) : Prop where
  distinct : ∀ first ∈ table.peerMap.entries, ∀ second ∈ table.peerMap.entries,
    first.handle ≠ new.handle → second.handle ≠ new.handle →
      first.value.herPublicKey = second.value.herPublicKey →
        first.value.herPublicKey ≠ 0 ∨ first.value.herPublicKey = new.value.herPublicKey →
          first = second
  slots : ∀ old ∈ table.peerMap.entries, old.handle ≠ new.handle →
    old.value.herPublicKey = new.value.herPublicKey →
      old.value.receiverContext.isSome ∧ new.value.receiverContext.isSome

/-! ## The invariant -/

/-- The jobs of a peer close it and vacate its slot. -/
def jobsOf (table : PeerTable) (entry : Map.Entry ℕ RegisteredPeer) (close : ℕ) : List OnFreeJob :=
  { address := close, callback := .closeInterface entry.handle } ::
    match entry.value.receiverContext with
    | none => []
    | some slot => [{ address := table.onFree slot, callback := .removeInterface slot }]

structure Seated (table : PeerTable) (entry : Map.Entry ℕ RegisteredPeer) : Prop where
  inSlot : ∀ slot ∈ entry.value.receiverContext, table.InSlot entry slot
  jobs : ∃ close < table.nextJob, entry.value.jobs = table.jobsOf entry close ∧
    ∀ slot ∈ entry.value.receiverContext, close ≠ table.onFree slot

structure WellFormed (table : PeerTable) : Prop where
  core : table.core.TableInvariant
  seated : ∀ entry ∈ table.peerMap.entries, table.Seated entry
  handles : table.peerMap.nextHandle ≤ 2 ^ 32

variable {table after : PeerTable} {entry old new : Map.Entry ℕ RegisteredPeer}
  {slot first second : Fin INTERFACES} {close : ℕ}

theorem InSlot.live (inSlot : table.InSlot entry slot) : (table.core.interfaces slot).Live := by
  rw [SwitchInterface.Live, inSlot.holds]
  exact Option.some_ne_none _

/-- A slot holds one interface. -/
theorem InSlot.handle_eq {other : Map.Entry ℕ RegisteredPeer} (inSlot : table.InSlot entry slot)
    (otherInSlot : table.InSlot other slot) : entry.handle = other.handle := by
  have same := inSlot.holds.symm.trans otherInSlot.holds
  rw [Option.some.injEq] at same
  exact Nat.succ.inj same

/-- What does not touch the slot of a peer leaves it seated. -/
theorem Seated.of_same (seated : table.Seated entry)
    (same : ∀ slot ∈ entry.value.receiverContext,
      after.core.interfaces slot = table.core.interfaces slot ∧
        after.onFree slot = table.onFree slot)
    (later : table.nextJob ≤ after.nextJob) : after.Seated entry := by
  constructor
  · intro slot refers
    rcases seated.inSlot slot refers with ⟨peer, holds, reached⟩
    exact ⟨peer, by rw [(same slot refers).1, holds], reached⟩
  · rcases seated.jobs with ⟨close, earlier, jobs, apart⟩
    refine ⟨close, earlier.trans_le later, ?_, fun slot refers => ?_⟩
    · rw [jobs, jobsOf, jobsOf]
      cases refers : entry.value.receiverContext with
      | none => rfl
      | some slot => simp only [(same slot refers).2]
    · rw [(same slot refers).2]
      exact apart slot refers

/-! ## Freeing -/

/-- The table without a peer -/
def without (entry : Map.Entry ℕ RegisteredPeer) (table : PeerTable) : PeerTable :=
  let closed := { table with peerMap := table.peerMap.remove entry.handle }
  match entry.value.receiverContext with
  | none => closed
  | some slot =>
      { closed with
        core := table.core.removeInterface slot
        onFree := Function.update table.onFree slot 0 }

theorem free_of_jobs (inside : entry ∈ table.peerMap.entries)
    (bounded : table.peerMap.nextHandle ≤ 2 ^ 32)
    (jobs : entry.value.jobs = table.jobsOf entry close) :
    table.free entry.handle = some (table.without entry) := by
  have closes : table.runJob { address := close, callback := .closeInterface entry.handle } =
      some { table with peerMap := table.peerMap.remove entry.handle } := by
    simp only [runJob, Map.indexForHandle_of_mem inside bounded, Option.map_some]
  rw [free, Map.find_of_mem inside, Option.bind_some, jobs, jobsOf, List.foldlM_cons, closes]
  cases refers : entry.value.receiverContext <;> simp [without, refers, runJob]

theorem peerMap_without : (table.without entry).peerMap = table.peerMap.remove entry.handle := by
  unfold without
  cases entry.value.receiverContext <;> rfl

theorem nextJob_without : (table.without entry).nextJob = table.nextJob := by
  unfold without
  cases entry.value.receiverContext <;> rfl

theorem interfaces_without (slot : Fin INTERFACES) : (table.without entry).core.interfaces slot =
    if entry.value.receiverContext = some slot then .vacant
    else table.core.interfaces slot := by
  unfold without
  cases refers : entry.value.receiverContext with
  | none => simp
  | some own =>
      by_cases same : slot = own
      · simp [SwitchCore.removeInterface, same]
      · simp [SwitchCore.removeInterface, same, Ne.symm same]

theorem onFree_without_of_ne (other : entry.value.receiverContext ≠ some slot) :
    (table.without entry).onFree slot = table.onFree slot := by
  unfold without
  cases refers : entry.value.receiverContext with
  | none => rfl
  | some own =>
      rw [refers, Ne, Option.some.injEq] at other
      simp [Ne.symm other]

theorem freesItself_of_jobs (inside : entry ∈ table.peerMap.entries)
    (bounded : table.peerMap.nextHandle ≤ 2 ^ 32)
    (jobs : entry.value.jobs = table.jobsOf entry close) : table.FreesItself entry := by
  refine ⟨_, free_of_jobs inside bounded jobs, interfaces_without, fun other => ?_⟩
  rw [peerMap_without, Map.mem_remove]

theorem WellFormed.freesItself (wellFormed : table.WellFormed)
    (inside : entry ∈ table.peerMap.entries) : table.FreesItself entry := by
  rcases (wellFormed.seated entry inside).jobs with ⟨close, -, jobs, -⟩
  exact freesItself_of_jobs inside wellFormed.handles jobs

theorem tableInvariant_without (invariant : table.core.TableInvariant)
    (inSlot : ∀ slot ∈ entry.value.receiverContext,
      (table.core.interfaces slot).Live ∧ slot ≠ 1) :
    (table.without entry).core.TableInvariant := by
  unfold without
  cases refers : entry.value.receiverContext with
  | none => exact invariant
  | some slot =>
      have taken : table.core.tableStep (.free slot) = some (table.core.removeInterface slot) :=
        if_pos (inSlot slot refers)
      have met : table.core.WithRoom (.free slot) := trivial
      exact invariant.step met taken

theorem WellFormed.without (wellFormed : table.WellFormed)
    (inside : entry ∈ table.peerMap.entries) : (table.without entry).WellFormed := by
  have seated := wellFormed.seated entry inside
  constructor
  · exact tableInvariant_without wellFormed.core fun slot refers =>
      ⟨(seated.inSlot slot refers).live, (seated.inSlot slot refers).peer⟩
  · intro other otherInside
    rw [peerMap_without, Map.mem_remove] at otherInside
    have otherSeated := wellFormed.seated other otherInside.1
    refine otherSeated.of_same (fun slot refers => ?_) nextJob_without.ge
    have apart : entry.value.receiverContext ≠ some slot := fun own =>
      otherInside.2 ((otherSeated.inSlot slot refers).handle_eq (seated.inSlot slot own))
    rw [interfaces_without, if_neg apart, onFree_without_of_ne apart]
    exact ⟨rfl, rfl⟩
  · rw [peerMap_without]
    exact wellFormed.handles

/-! ## Registering -/

/-- A new peer is seated where its interface was stored, if it was. -/
theorem WellFormed.push (wellFormed : table.WellFormed)
    (room : table.peerMap.nextHandle < 2 ^ 32) {key : ℕ} {peer : RegisteredPeer}
    (core : after.core.TableInvariant)
    (peerMap : after.peerMap = table.peerMap.push key peer)
    (same : ∀ slot, (table.core.interfaces slot).Live → slot ≠ 1 →
      after.core.interfaces slot = table.core.interfaces slot ∧
        after.onFree slot = table.onFree slot)
    (later : table.nextJob ≤ after.nextJob)
    (seated : after.Seated
      { handle := table.peerMap.nextHandle, key := key, value := peer }) :
    after.WellFormed := by
  refine ⟨core, fun entry inside => ?_, ?_⟩
  · rw [peerMap] at inside
    rcases List.mem_append.mp inside with earlier | last
    · have old := wellFormed.seated entry earlier
      exact old.of_same (fun slot refers =>
        same slot (old.inSlot slot refers).live (old.inSlot slot refers).peer) later
    · rw [List.mem_singleton.mp last]
      exact seated
  · rw [peerMap]
    exact room

theorem WellFormed.registerPeer (wellFormed : table.WellFormed) {external : ℕ}
    {key : BitVec 256} (room : table.NoWrap (.registerPeer external key))
    (taken : table.registerPeer external key = some after) : after.WellFormed := by
  rw [PeerTable.registerPeer] at taken
  by_cases known : (table.peerMap.indexForKey external).isSome
  · rw [if_pos known, Option.some.injEq] at taken
    exact taken ▸ wellFormed
  rw [if_neg known] at taken
  rcases wellFormed.core.addInterface_cases (table.peerMap.nextHandle + 1) 0 with
    ⟨outcome, -⟩ | ⟨slot, outcome, peer, vacant, -⟩ | ⟨outcome, -⟩
  · simp only [outcome, Option.some.injEq] at taken
    subst taken
    have absent {slot : Fin INTERFACES} {statement : Prop}
        (refers : slot ∈ (none : Option (Fin INTERFACES))) : statement := by
      cases refers
    refine wellFormed.push room.2 wellFormed.core rfl (fun _ _ _ => ⟨rfl, rfl⟩) (Nat.le_succ _) ?_
    exact ⟨fun _ => absent, table.nextJob, Nat.lt_succ_self _, rfl, fun _ => absent⟩
  · simp only [outcome, SwitchCore.store, Option.some.injEq] at taken
    subst taken
    have stored := wellFormed.core.add room.1 (SwitchCore.tableStep_of_store outcome)
    refine wellFormed.push room.2 stored rfl (fun other live _ => ?_) (by simp) ⟨?_, ?_⟩
    · have apart : other ≠ slot := by
        rintro rfl
        exact vacant live
      exact ⟨Function.update_of_ne apart .., Function.update_of_ne apart ..⟩
    · intro other refers
      rw [Option.mem_def, Option.some.injEq] at refers
      subst refers
      exact ⟨peer, by simp [SwitchCore.withInterface], SwitchCore.getDecompressed_label peer⟩
    · refine ⟨table.nextJob, by simp, by simp [jobsOf], fun other refers => ?_⟩
      rw [Option.mem_def, Option.some.injEq] at refers
      simp [← refers]
  · simp only [outcome, reduceCtorEq] at taken

theorem WellFormed.learnKey (wellFormed : table.WellFormed) (ep : ℕ) (key : BitVec 256) :
    (table.learnKey ep key).WellFormed := by
  refine ⟨wellFormed.core, fun entry inside => ?_, wellFormed.handles⟩
  rcases Map.mem_modify inside with ⟨earlier, -⟩ | ⟨old, earlier, -, rfl⟩
  · have seated := wellFormed.seated entry earlier
    exact seated.of_same (fun _ _ => ⟨rfl, rfl⟩) le_rfl
  · rcases wellFormed.seated old earlier with ⟨inSlot, jobs⟩
    refine ⟨fun slot refers => ?_, jobs⟩
    rcases inSlot slot refers with ⟨peer, holds, reached⟩
    exact ⟨peer, holds, reached⟩

/-! ## Merging -/

theorem removeOnFreeJob_jobsOf (refers : entry.value.receiverContext = some slot)
    (apart : close ≠ table.onFree slot) :
    removeOnFreeJob (table.onFree slot) (table.jobsOf entry close) =
      some [{ address := close, callback := .closeInterface entry.handle }] := by
  simp [jobsOf, refers, removeOnFreeJob, apart]

theorem oldEndpoint_eq_some {ep : ℕ} {key : BitVec 256}
    (found : table.oldEndpoint ep key = some old) :
    old ∈ table.peerMap.entries ∧ old.handle ≠ ep ∧ old.value.herPublicKey = key := by
  have holds := List.find?_some found
  rw [decide_eq_true_eq] at holds
  exact ⟨List.mem_of_find?_eq_some found, holds⟩

/-- The new endpoint once it has been merged -/
def successor (table : PeerTable) (old new : Map.Entry ℕ RegisteredPeer) (slot : Fin INTERFACES)
    (close : ℕ) : Map.Entry ℕ RegisteredPeer :=
  { new with
    value :=
      { herPublicKey := new.value.herPublicKey
        switchLabel := old.value.switchLabel
        receiverContext := some slot
        jobs := [{ address := close, callback := .closeInterface new.handle },
          { address := table.nextJob, callback := .removeInterface slot }] } }

/-- What merging two endpoints comes to -/
structure Merged (table after : PeerTable) (old new : Map.Entry ℕ RegisteredPeer)
    (first second : Fin INTERFACES) (close : ℕ) : Prop where
  core : after.core = { table.core with
    interfaces := Function.update (Function.update table.core.interfaces first
      (table.core.interfaces second)) second .vacant }
  onFree : after.onFree =
    Function.update (Function.update table.onFree first table.nextJob) second 0
  nextJob : after.nextJob = table.nextJob + 2
  nextHandle : after.peerMap.nextHandle = table.peerMap.nextHandle
  entries : ∀ entry, entry ∈ after.peerMap.entries ↔
    entry ∈ table.peerMap.entries ∧ entry.handle ≠ old.handle ∧ entry.handle ≠ new.handle ∨
      entry = table.successor old new first close

/-- The new endpoint gets the label, then both get their slots and jobs, then the old one goes. -/
theorem mem_merged {map : Map ℕ RegisteredPeer}
    {label swapOld swapNew : RegisteredPeer → RegisteredPeer} (newInside : new ∈ map.entries)
    (apart : old.handle ≠ new.handle) :
    entry ∈ ((((map.modify new.handle label).modify old.handle swapOld).modify new.handle
        swapNew).remove old.handle).entries ↔
      entry ∈ map.entries ∧ entry.handle ≠ old.handle ∧ entry.handle ≠ new.handle ∨
        entry = { new with value := swapNew (label new.value) } := by
  rw [Map.mem_remove]
  constructor
  · rintro ⟨inside, notOld⟩
    rcases Map.mem_modify inside with ⟨earlier, notNew⟩ | ⟨swapped, earlier, same, whole⟩
    · rcases Map.mem_modify earlier with ⟨labelled, -⟩ | ⟨_, _, same, rfl⟩
      · rcases Map.mem_modify labelled with ⟨start, -⟩ | ⟨_, _, same, rfl⟩
        · exact .inl ⟨start, notOld, notNew⟩
        · exact absurd same notNew
      · exact absurd same notOld
    · rcases Map.mem_modify earlier with ⟨labelled, -⟩ | ⟨_, _, other, rfl⟩
      · rcases Map.mem_modify labelled with ⟨_, notNew⟩ | ⟨first, start, own, rfl⟩
        · exact absurd same notNew
        · rw [Map.eq_of_handle_eq start newInside own] at whole
          exact .inr whole
      · exact absurd (other.symm.trans same) apart
  · rintro (⟨inside, notOld, notNew⟩ | rfl)
    · refine ⟨?_, notOld⟩
      exact Map.mem_modify_of_ne _ (Map.mem_modify_of_ne _ (Map.mem_modify_of_ne _ inside notNew)
        notOld) notNew
    · refine ⟨?_, apart.symm⟩
      have labelled := Map.mem_modify_of_ne swapOld (Map.mem_modify_self label newInside)
        (Ne.symm apart)
      exact Map.mem_modify_self swapNew labelled

/-- Swapping the interfaces of two endpoints and freeing the old one -/
theorem WellFormed.swap_free (wellFormed : table.WellFormed)
    (oldInside : old ∈ table.peerMap.entries) (newInside : new ∈ table.peerMap.entries)
    (apart : old.handle ≠ new.handle) (oldRefers : old.value.receiverContext = some first)
    (newRefers : new.value.receiverContext = some second) :
    ∃ after close, (({ table with
        peerMap := table.peerMap.modify new.handle fun peer =>
          { peer with switchLabel := old.value.switchLabel } }).swapInterfaces
            old.handle new.handle).bind (fun swapped => swapped.free old.handle) = some after ∧
      Merged table after old new first second close ∧ close < table.nextJob := by
  rcases (wellFormed.seated old oldInside).jobs with ⟨oldClose, -, oldJobs, oldApart⟩
  rcases (wellFormed.seated new newInside).jobs with ⟨newClose, earlier, newJobs, newApart⟩
  have oldRemoved := removeOnFreeJob_jobsOf oldRefers (oldApart first oldRefers)
  have newRemoved := removeOnFreeJob_jobsOf newRefers (newApart second newRefers)
  rw [← oldJobs] at oldRemoved
  rw [← newJobs] at newRemoved
  generalize labels : (fun peer : RegisteredPeer =>
    { peer with switchLabel := old.value.switchLabel }) = label
  have oldFound := Map.find_of_mem (Map.mem_modify_of_ne label oldInside apart)
  have newFound := Map.find_of_mem (Map.mem_modify_self label newInside)
  dsimp only at newFound
  have newLabelled : (label new.value).receiverContext = some second ∧
      (label new.value).jobs = new.value.jobs := by
    subst labels
    exact ⟨newRefers, rfl⟩
  simp only [swapInterfaces, oldFound, newFound, Option.bind_some, oldRefers, newLabelled.1,
    newLabelled.2, oldRemoved, newRemoved, Option.map_some]
  generalize swapsOld : (fun peer : RegisteredPeer =>
    ({ peer with
      receiverContext := some second
      jobs := [{ address := oldClose, callback := .closeInterface old.handle }] ++
        [{ address := table.nextJob + 1, callback := .removeInterface second }] } : RegisteredPeer)) =
      swapOld
  generalize swapsNew : (fun peer : RegisteredPeer =>
    ({ peer with
      receiverContext := some first
      jobs := [{ address := newClose, callback := .closeInterface new.handle }] ++
        [{ address := table.nextJob, callback := .removeInterface first }] } : RegisteredPeer)) =
      swapNew
  have oldSwapped : ({ old with value := swapOld old.value } : Map.Entry ℕ RegisteredPeer) ∈
      (((table.peerMap.modify new.handle label).modify old.handle swapOld).modify new.handle
        swapNew).entries :=
    Map.mem_modify_of_ne _ (Map.mem_modify_self _ (Map.mem_modify_of_ne _ oldInside apart)) apart
  refine ⟨_, newClose, @free_of_jobs _ { old with value := swapOld old.value } oldClose oldSwapped
    wellFormed.handles ?_, ?_, earlier⟩
  · subst swapsOld
    simp [jobsOf]
  · have refers : (swapOld old.value).receiverContext = some second := by
      subst swapsOld
      rfl
    constructor
    · simp [PeerTable.without, refers, SwitchCore.removeInterface]
    · simp [PeerTable.without, refers]
    · exact nextJob_without
    · rw [peerMap_without]
      rfl
    · intro entry
      rw [peerMap_without, mem_merged newInside apart]
      subst labels swapsNew
      rfl

/-- Two endpoints that are merged, with their slots -/
structure Pair (table : PeerTable) (old new : Map.Entry ℕ RegisteredPeer)
    (first second : Fin INTERFACES) : Prop where
  oldInside : old ∈ table.peerMap.entries
  newInside : new ∈ table.peerMap.entries
  apart : old.handle ≠ new.handle
  oldRefers : old.value.receiverContext = some first
  newRefers : new.value.receiverContext = some second

theorem WellFormed.slots_ne (wellFormed : table.WellFormed) (pair : table.Pair old new first second) :
    first ≠ second := by
  rintro rfl
  have oldInSlot := (wellFormed.seated old pair.oldInside).inSlot first pair.oldRefers
  have newInSlot := (wellFormed.seated new pair.newInside).inSlot first pair.newRefers
  exact pair.apart (oldInSlot.handle_eq newInSlot)

theorem Merged.interfaces (merged : Merged table after old new first second close)
    (differ : first ≠ second) (slot : Fin INTERFACES) : after.core.interfaces slot =
      if slot = first then table.core.interfaces second
      else if slot = second then .vacant
      else table.core.interfaces slot := by
  rw [merged.core]
  by_cases one : slot = first
  · subst one
    simp [differ]
  · by_cases two : slot = second <;> simp [one, two, differ.symm]

/-- Merging leaves everything in order. -/
theorem WellFormed.merged (wellFormed : table.WellFormed)
    (pair : table.Pair old new first second) (merged : Merged table after old new first second close)
    (earlier : close < table.nextJob) : after.WellFormed := by
  have differ := wellFormed.slots_ne pair
  have oldInSlot := (wellFormed.seated old pair.oldInside).inSlot first pair.oldRefers
  have newInSlot := (wellFormed.seated new pair.newInside).inSlot second pair.newRefers
  have interfaces := merged.interfaces differ
  have append : after.core.appendIndex = table.core.appendIndex := by
    rw [merged.core]
    rfl
  constructor
  · constructor
    · intro slot peer live
      rw [append]
      apply wellFormed.core.below slot peer
      rw [interfaces] at live
      split_ifs at live with one two
      · exact one ▸ oldInSlot.live
      · exact absurd live SwitchInterface.not_live_vacant
      · exact live
    · intro live
      rw [interfaces, if_neg oldInSlot.peer.symm, if_neg newInSlot.peer.symm] at live
      rw [merged.core]
      exact wellFormed.core.router live
    · rw [merged.core]
      exact wellFormed.core.counted
    · rw [merged.core]
      exact wellFormed.core.noWrap
  · intro entry inside
    rcases (merged.entries entry).mp inside with ⟨earlier, notOld, notNew⟩ | rfl
    · have seated := wellFormed.seated entry earlier
      refine seated.of_same (fun slot refers => ?_) (by rw [merged.nextJob]; omega)
      have inSlot := seated.inSlot slot refers
      have one : slot ≠ first := by
        rintro rfl
        exact notOld (inSlot.handle_eq oldInSlot)
      have two : slot ≠ second := by
        rintro rfl
        exact notNew (inSlot.handle_eq newInSlot)
      rw [interfaces, if_neg one, if_neg two, merged.onFree, Function.update_of_ne two,
        Function.update_of_ne one]
      exact ⟨rfl, rfl⟩
    · have job : after.onFree first = table.nextJob := by
        rw [merged.onFree, Function.update_of_ne differ, Function.update_self]
      constructor
      · intro slot refers
        obtain rfl : first = slot := Option.some.inj refers
        refine ⟨oldInSlot.peer, ?_, oldInSlot.reached⟩
        rw [interfaces, if_pos rfl]
        exact newInSlot.holds
      · refine ⟨close, by rw [merged.nextJob]; omega, ?_, fun slot refers => ?_⟩
        · simp [successor, jobsOf, job]
        · obtain rfl : first = slot := Option.some.inj refers
          rw [job]
          exact earlier.ne
  · rw [merged.nextHandle]
    exact wellFormed.handles

theorem Merged.exchanged (merged : Merged table after old new first second close)
    (differ : first ≠ second) (pair : table.Pair old new first second) :
    table.Exchanged after old new := by
  constructor
  · intro entry inside
    rcases (merged.entries entry).mp inside with ⟨-, notOld, -⟩ | rfl
    · exact notOld
    · exact pair.apart.symm
  · exact ⟨_, (merged.entries _).mpr (.inr rfl), rfl, pair.oldRefers.symm, rfl⟩
  · intro slot
    rw [merged.interfaces differ, pair.oldRefers, pair.newRefers]
    simp only [Option.some.injEq, eq_comm]

theorem move_of_alone (newInside : new ∈ table.peerMap.entries)
    (alone : table.oldEndpoint new.handle new.value.herPublicKey = none) :
    table.moveEndpointIfNeeded new.handle = some table := by
  rw [moveEndpointIfNeeded, Map.find_of_mem newInside, Option.bind_some, alone]

theorem move_of_found (newInside : new ∈ table.peerMap.entries)
    (found : table.oldEndpoint new.handle new.value.herPublicKey = some old) :
    table.moveEndpointIfNeeded new.handle =
      (({ table with
        peerMap := table.peerMap.modify new.handle fun peer =>
          { peer with switchLabel := old.value.switchLabel } }).swapInterfaces
            old.handle new.handle).bind fun swapped => swapped.free old.handle := by
  rw [moveEndpointIfNeeded, Map.find_of_mem newInside, Option.bind_some, found]

/-- A swap needs both slots. -/
theorem pair_of_move (newInside : new ∈ table.peerMap.entries)
    (found : table.oldEndpoint new.handle new.value.herPublicKey = some old)
    (moved : table.moveEndpointIfNeeded new.handle = some after) :
    ∃ first second, table.Pair old new first second := by
  rcases oldEndpoint_eq_some found with ⟨oldInside, apart, -⟩
  rw [move_of_found newInside found, Option.bind_eq_some_iff] at moved
  rcases moved with ⟨swapped, swaps, -⟩
  have oldFound := Map.find_of_mem (Map.mem_modify_of_ne
    (fun peer : RegisteredPeer => { peer with switchLabel := old.value.switchLabel }) oldInside apart)
  have newFound := Map.find_of_mem (Map.mem_modify_self
    (fun peer : RegisteredPeer => { peer with switchLabel := old.value.switchLabel }) newInside)
  dsimp only at newFound
  simp only [swapInterfaces, oldFound, newFound, Option.bind_some, Option.bind_eq_some_iff] at swaps
  rcases swaps with ⟨first, oldRefers, second, newRefers, -⟩
  exact ⟨first, second, oldInside, newInside, apart, oldRefers, newRefers⟩

/-- Where both endpoints have a slot, merging comes to its end. -/
theorem WellFormed.move (wellFormed : table.WellFormed) (pair : table.Pair old new first second)
    (found : table.oldEndpoint new.handle new.value.herPublicKey = some old) :
    ∃ after close, table.moveEndpointIfNeeded new.handle = some after ∧
      Merged table after old new first second close ∧ after.WellFormed := by
  rcases wellFormed.swap_free pair.oldInside pair.newInside pair.apart pair.oldRefers
    pair.newRefers with ⟨after, close, moved, merged, earlier⟩
  rw [← move_of_found pair.newInside found] at moved
  exact ⟨after, close, moved, merged, wellFormed.merged pair merged earlier⟩

/-! ## Results -/

theorem wellFormed_isInvariant : peers.IsInvariant NoWrap WellFormed where
  initial := by
    rintro _ rfl
    have starts : SwitchCore.table.Reachable SwitchCore.WithRoom SwitchCore.new := .initial rfl
    have router : SwitchCore.new.WithRoom (.setRouter 0) := by
      rw [SwitchCore.WithRoom]
      decide
    exact ⟨(starts.step router rfl).invariant SwitchCore.tableInvariant, by simp [new, Map.empty],
      by simp [new, Map.empty]⟩
  step {before event after} wellFormed room taken := by
    cases event with
    | registerPeer external key => exact wellFormed.registerPeer room taken
    | learnKey ep key =>
        obtain rfl := Option.some.inj taken
        exact wellFormed.learnKey ep key
    | moveEndpointIfNeeded ep =>
        have moved : before.moveEndpointIfNeeded ep = some after := taken
        rcases known : before.peerMap.find ep with _ | peer
        · simp [moveEndpointIfNeeded, known] at moved
        rcases Map.find_eq_some known with ⟨entry, inside, rfl, -⟩
        cases found : before.oldEndpoint entry.handle entry.value.herPublicKey with
        | none =>
            rw [move_of_alone inside found, Option.some.injEq] at moved
            exact moved ▸ wellFormed
        | some old =>
            rcases pair_of_move inside found moved with ⟨first, second, pair⟩
            rcases wellFormed.move pair found with ⟨other, _, same, _, result⟩
            rw [moved, Option.some.injEq] at same
            exact same ▸ result
    | free ep =>
        have freed : before.free ep = some after := taken
        rcases known : before.peerMap.find ep with _ | peer
        · simp [PeerTable.free, known] at freed
        rcases Map.find_eq_some known with ⟨entry, inside, rfl, -⟩
        rcases (wellFormed.seated entry inside).jobs with ⟨close, -, jobs, -⟩
        rw [free_of_jobs inside wellFormed.handles jobs, Option.some.injEq] at freed
        exact freed ▸ wellFormed.without inside

/-- What holds of a table in order, whatever was merged -/
theorem WellFormed.mergedWell (wellFormed : after.WellFormed)
    (exchanged : ∀ old ∈ table.peerMap.entries, old.handle ≠ new.handle →
      old.value.herPublicKey = new.value.herPublicKey → table.Exchanged after old new)
    (distinct : ∀ first ∈ after.peerMap.entries, ∀ second ∈ after.peerMap.entries,
      first.value.herPublicKey = second.value.herPublicKey → first.value.herPublicKey ≠ 0 →
        first = second) :
    table.MergedWell new after where
  exchanged := exchanged
  inSlot entry inside := (wellFormed.seated entry inside).inSlot
  frees _ inside := wellFormed.freesItself inside
  distinct := distinct

/-- Nothing is found where there is nothing to merge. -/
theorem ne_of_alone {ep : ℕ} {key : BitVec 256} (alone : table.oldEndpoint ep key = none)
    (inside : entry ∈ table.peerMap.entries) (other : entry.handle ≠ ep) :
    entry.value.herPublicKey ≠ key := by
  have none := List.find?_eq_none.mp alone entry inside
  simpa [other] using none

theorem WellFormed.mergesWell_of_mergeable (wellFormed : table.WellFormed)
    (newInside : new ∈ table.peerMap.entries) (mergeable : table.Mergeable new) :
    table.MergesWell new := by
  cases found : table.oldEndpoint new.handle new.value.herPublicKey with
  | none =>
      refine ⟨table, move_of_alone newInside found, wellFormed.mergedWell ?_ ?_⟩
      · intro old inside other same
        exact absurd same (ne_of_alone found inside other)
      · intro one oneInside two twoInside same known
        by_cases first : one.handle = new.handle
        · obtain rfl := Map.eq_of_handle_eq oneInside newInside first
          by_cases second : two.handle = one.handle
          · exact (Map.eq_of_handle_eq twoInside oneInside second).symm
          · exact absurd same.symm (ne_of_alone found twoInside second)
        · by_cases second : two.handle = new.handle
          · obtain rfl := Map.eq_of_handle_eq twoInside newInside second
            exact absurd same (ne_of_alone found oneInside first)
          · exact mergeable.distinct one oneInside two twoInside first second same (.inl known)
  | some old =>
      rcases oldEndpoint_eq_some found with ⟨oldInside, apart, sameKey⟩
      rcases mergeable.slots old oldInside apart sameKey with ⟨oldSlot, newSlot⟩
      rcases Option.isSome_iff_exists.mp oldSlot with ⟨first, oldRefers⟩
      rcases Option.isSome_iff_exists.mp newSlot with ⟨second, newRefers⟩
      have pair : table.Pair old new first second :=
        ⟨oldInside, newInside, apart, oldRefers, newRefers⟩
      rcases wellFormed.move pair found with ⟨after, close, moved, merged, result⟩
      refine ⟨after, moved, result.mergedWell ?_ ?_⟩
      · intro other inside otherApart same
        obtain rfl := mergeable.distinct other inside old oldInside otherApart apart
          (same.trans sameKey.symm) (.inr same)
        exact merged.exchanged (wellFormed.slots_ne pair) pair
      · -- Nobody but the old endpoint shares the key of the new one.
        have unique {entry : Map.Entry ℕ RegisteredPeer} (inside : entry ∈ table.peerMap.entries)
            (notOld : entry.handle ≠ old.handle) (notNew : entry.handle ≠ new.handle) :
            entry.value.herPublicKey ≠ new.value.herPublicKey := by
          intro same
          exact notOld (congrArg Map.Entry.handle (mergeable.distinct entry inside old oldInside
            notNew apart (same.trans sameKey.symm) (.inr same)))
        intro one oneInside two twoInside same known
        rcases (merged.entries one).mp oneInside with ⟨oneInside, oneOld, oneNew⟩ | rfl
        · rcases (merged.entries two).mp twoInside with ⟨twoInside, twoOld, twoNew⟩ | rfl
          · exact mergeable.distinct one oneInside two twoInside oneNew twoNew same (.inl known)
          · exact absurd same (unique oneInside oneOld oneNew)
        · rcases (merged.entries two).mp twoInside with ⟨twoInside, twoOld, twoNew⟩ | rfl
          · exact absurd same.symm (unique twoInside twoOld twoNew)
          · rfl

theorem WellFormed.mergeable_of_mergesWell (wellFormed : table.WellFormed)
    (newInside : new ∈ table.peerMap.entries) (mergesWell : table.MergesWell new) :
    table.Mergeable new := by
  rcases mergesWell with ⟨after, moved, mergedWell⟩
  cases found : table.oldEndpoint new.handle new.value.herPublicKey with
  | none =>
      rw [move_of_alone newInside found, Option.some.injEq] at moved
      subst moved
      constructor
      · intro one oneInside two twoInside first _ same known
        rcases known with known | shared
        · exact mergedWell.distinct one oneInside two twoInside same known
        · exact absurd shared (ne_of_alone found oneInside first)
      · intro old inside other same
        exact absurd same (ne_of_alone found inside other)
  | some old =>
      rcases oldEndpoint_eq_some found with ⟨oldInside, apart, sameKey⟩
      rcases pair_of_move newInside found moved with ⟨first, second, pair⟩
      rcases wellFormed.move pair found with ⟨_, close, same, merged, -⟩
      obtain rfl := Option.some.inj (moved.symm.trans same)
      -- Whoever shares the key of the new endpoint is gone, and only the old one goes.
      have shares {entry : Map.Entry ℕ RegisteredPeer} (inside : entry ∈ table.peerMap.entries)
          (other : entry.handle ≠ new.handle)
          (same : entry.value.herPublicKey = new.value.herPublicKey) : entry = old := by
        by_contra different
        have stays := (merged.entries entry).mpr (.inl ⟨inside, fun one =>
          different (Map.eq_of_handle_eq inside oldInside one), other⟩)
        exact (mergedWell.exchanged entry inside other same).gone entry stays rfl
      constructor
      · intro one oneInside two twoInside oneNew twoNew same known
        by_cases shared : one.value.herPublicKey = new.value.herPublicKey
        · rw [shares oneInside oneNew shared, shares twoInside twoNew (same.symm.trans shared)]
        · rcases known with known | impossible
          · have stays {entry : Map.Entry ℕ RegisteredPeer} (inside : entry ∈ table.peerMap.entries)
                (other : entry.handle ≠ new.handle)
                (key : entry.value.herPublicKey = one.value.herPublicKey) :
                entry ∈ after.peerMap.entries := by
              refine (merged.entries entry).mpr (.inl ⟨inside, fun gone => ?_, other⟩)
              rw [← key, Map.eq_of_handle_eq inside oldInside gone] at shared
              exact shared sameKey
            exact mergedWell.distinct one (stays oneInside oneNew rfl) two
              (stays twoInside twoNew same.symm) same known
          · exact absurd impossible shared
      · intro other inside otherApart same
        rw [shares inside otherApart same, pair.oldRefers, pair.newRefers]
        exact ⟨rfl, rfl⟩

/-- In every run, freeing a peer vacates its own slot and no other, and merging leaves everything in
order exactly where there is no more than one endpoint to merge with, and both have a slot. -/
theorem mergesWell_iff {table : PeerTable} (reachable : peers.Reachable NoWrap table)
    {new : Map.Entry ℕ RegisteredPeer} (inside : new ∈ table.peerMap.entries) :
    (∀ slot ∈ new.value.receiverContext, table.InSlot new slot) ∧ table.FreesItself new ∧
      (table.MergesWell new ↔ table.Mergeable new) := by
  have wellFormed := reachable.invariant wellFormed_isInvariant
  exact ⟨(wellFormed.seated new inside).inSlot, wellFormed.freesItself inside,
    wellFormed.mergeable_of_mergesWell inside, wellFormed.mergesWell_of_mergeable inside⟩

/-- The handle and the key of a peer, and whether it has a slot -/
def Summary (entry : Map.Entry ℕ RegisteredPeer) : ℕ × BitVec 256 × Bool :=
  (entry.handle, entry.value.herPublicKey, entry.value.receiverContext.isSome)

/-- A peer that is known by one other interface is merged. -/
theorem mergesWell_of_two : ∃ table new, peers.Reachable NoWrap table ∧
    new ∈ table.peerMap.entries ∧ (table.oldEndpoint new.handle new.value.herPublicKey).isSome ∧
      table.MergesWell new := by
  let one := (new.step (.registerPeer 10 5)).get (by decide +kernel)
  let two := (one.step (.registerPeer 11 5)).get (by decide +kernel)
  have firstRoom : NoWrap new (.registerPeer 10 5) := ⟨by decide +kernel, by decide +kernel⟩
  have secondRoom : NoWrap one (.registerPeer 11 5) := ⟨by decide +kernel, by decide +kernel⟩
  have reachable : peers.Reachable NoWrap two :=
    .step (.step (.initial rfl) firstRoom (Option.some_get _).symm) secondRoom
      (Option.some_get _).symm
  have entries : two.peerMap.entries.map Summary = [(0, 5, true), (1, 5, true)] := by
    decide +kernel
  have either {entry : Map.Entry ℕ RegisteredPeer} (inside : entry ∈ two.peerMap.entries) :
      Summary entry = (0, 5, true) ∨ Summary entry = (1, 5, true) := by
    have listed := List.mem_map_of_mem (f := Summary) inside
    rw [entries] at listed
    simpa using listed
  have second : (1, 5, true) ∈ two.peerMap.entries.map Summary := by
    rw [entries]
    decide
  rcases List.mem_map.mp second with ⟨new, inside, summary⟩
  simp only [Summary, Prod.mk.injEq] at either summary
  refine ⟨two, new, reachable, inside, ?_, (mergesWell_iff reachable inside).2.2.mpr ⟨?_, ?_⟩⟩
  · rw [summary.1, summary.2.1]
    decide +kernel
  · intro first firstInside other otherInside firstApart otherApart _ _
    rw [summary.1] at firstApart otherApart
    refine Map.eq_of_handle_eq firstInside otherInside ?_
    rcases either firstInside with one | one
    · rcases either otherInside with two | two
      · rw [one.1, two.1]
      · exact absurd two.1 otherApart
    · exact absurd one.1 firstApart
  · intro old oldInside _ _
    rcases either oldInside with one | one
    · exact ⟨one.2.2, summary.2.2⟩
    · exact ⟨one.2.2, summary.2.2⟩

/-- A peer that is known by two other interfaces is merged with the first only. -/
theorem three_endpoints : ∃ table new, peers.Reachable (fun _ _ => True) table ∧
    new ∈ table.peerMap.entries ∧ ¬ table.MergesWell new := by
  let events : List Event := [.registerPeer 10 5, .registerPeer 11 5, .registerPeer 12 5]
  have run : (events.foldlM step new).any (fun table =>
      decide (2 ∈ table.peerMap.entries.map fun entry => entry.handle) &&
        (table.moveEndpointIfNeeded 2).any fun after =>
          decide (after.peerMap.entries.map Summary = [(1, 5, true), (2, 5, true)])) = true := by
    decide +kernel
  rcases (Option.any_eq_true _ _).mp run with ⟨table, run, holds⟩
  rw [Bool.and_eq_true, decide_eq_true_eq] at holds
  rcases List.mem_map.mp holds.1 with ⟨new, inside, handle⟩
  refine ⟨table, new, .run (.initial rfl) id (fun _ _ _ => trivial) run, inside, ?_⟩
  rintro ⟨after, moved, mergedWell⟩
  rw [handle] at moved
  rw [moved, Option.any_some, decide_eq_true_eq] at holds
  have first : (1, 5, true) ∈ after.peerMap.entries.map Summary := by
    rw [holds.2]
    decide
  have second : (2, 5, true) ∈ after.peerMap.entries.map Summary := by
    rw [holds.2]
    decide
  rcases List.mem_map.mp first with ⟨one, oneInside, oneSummary⟩
  rcases List.mem_map.mp second with ⟨two, twoInside, twoSummary⟩
  simp only [Summary, Prod.mk.injEq] at oneSummary twoSummary
  have same := mergedWell.distinct one oneInside two twoInside
    (oneSummary.2.1.trans twoSummary.2.1.symm) (by rw [oneSummary.2.1]; decide)
  rw [same, twoSummary.1] at oneSummary
  exact absurd oneSummary.1 (by decide)

end PeerTable

end Cjdns.DefaultInterfaceController
