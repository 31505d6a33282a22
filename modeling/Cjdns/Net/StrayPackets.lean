import Cjdns.Interface.MultiInterface
import Cjdns.Net.PeerGate
import Cjdns.Net.PeerMerging

/-!
# Stray packets

A packet from a key that is not known creates a peer in three modules before it is judged: in the
map of the multi-interface, in the map of the controller, and in a slot of the switch. If CryptoAuth
does not let the packet through, the allocator of the peer is freed, and its jobs take the peer out
of all three. The maps and the slots are as they were, but the switch has counted one interface
more, and nothing ever counts it down.
-/

namespace Cjdns

open NumberCompress (INTERFACES)

namespace Map

variable {α β : Type*}

/-- What was put last is taken out again. -/
theorem entries_remove_push (map : Map α β) (key : α) (value : β) :
    ((map.push key value).remove map.nextHandle).entries = map.entries := by
  simp only [remove, push, List.filter_append]
  have kept : map.entries.filter (fun entry => decide (entry.handle ≠ map.nextHandle)) =
      map.entries := by
    rw [List.filter_eq_self]
    intro entry inside
    rw [decide_eq_true_eq]
    exact (map.below entry inside).ne
  rw [kept]
  simp

theorem indexForKey_push [DecidableEq α] {map : Map α β} {key : α} (value : β)
    (absent : map.indexForKey key = none) :
    (map.push key value).indexForKey key =
      some { handle := map.nextHandle, key := key, value := value } := by
  rw [indexForKey] at absent ⊢
  rw [push, List.find?_append, absent]
  simp

end Map

namespace SwitchCore

variable {core : SwitchCore} {iface : ℕ} {trust : BitVec 64}

/-- No slot is vacant, and the append index is right behind the last one. -/
def Full (core : SwitchCore) : Prop :=
  core.appendIndex = BitVec.ofNat 32 INTERFACES ∧
    ∀ slot, slot ≠ 1 → (core.interfaces slot).Live

theorem addInterface_eq_outOfSpace_iff :
    core.addInterface iface trust = .outOfSpace ↔ core.Full := by
  rw [addInterface]
  cases search : core.vacantBelow core.appendIndex with
  | some slot =>
      rcases vacantBelow_eq_some search with ⟨-, vacant, peer⟩
      simp only [store, reduceCtorEq, false_iff]
      exact fun full => vacant (full.2 slot peer)
  | none =>
      dsimp only
      split_ifs with last inside
      · simp only [true_iff]
        refine ⟨last, fun slot peer => live_of_vacantBelow_eq_none search ?_ peer⟩
        rw [last]
        exact slot.isLt
      · simp only [store, reduceCtorEq, false_iff]
        exact fun full => last full.1
      · simp only [false_iff]
        exact fun full => last full.1

/-- An interface that is stored is counted. -/
theorem interfaceCount_of_stored {after : SwitchCore} {slot : Fin INTERFACES} {label : BitVec 64}
    (stored : core.addInterface iface trust = .stored after slot label) :
    after.interfaceCount = core.interfaceCount + 1 := by
  rw [addInterface] at stored
  cases search : core.vacantBelow core.appendIndex with
  | some found =>
      simp only [search, store, Added.stored.injEq] at stored
      rw [← stored.1]
      rfl
  | none =>
      simp only [search] at stored
      split_ifs at stored
      simp only [store, Added.stored.injEq] at stored
      rw [← stored.1]
      rfl

end SwitchCore

namespace DefaultInterfaceController.PeerTable

variable {table after : PeerTable}

/-- Nothing that is freed is counted down. -/
theorem interfaceCount_runJob {job : OnFreeJob} (runs : table.runJob job = some after) :
    after.core.interfaceCount = table.core.interfaceCount := by
  rw [runJob] at runs
  cases calls : job.callback with
  | closeInterface handle =>
      rw [calls] at runs
      rcases Option.map_eq_some_iff.mp runs with ⟨_, -, rfl⟩
      rfl
  | removeInterface slot =>
      rw [calls] at runs
      rw [← Option.some.inj runs]
      rfl

theorem interfaceCount_free {ep : ℕ} (freed : table.free ep = some after) :
    after.core.interfaceCount = table.core.interfaceCount := by
  rw [free, Option.bind_eq_some_iff] at freed
  rcases freed with ⟨_, -, run⟩
  let Kept (other : PeerTable) := other.core.interfaceCount = table.core.interfaceCount
  apply @TransitionSystem.invariant_of_foldlM _ _ _ Kept _ _ _ _ run rfl
  intro before after job _ kept runs
  exact (interfaceCount_runJob runs).trans kept

/-- A peer for which the switch has no slot -/
def unslotted (table : PeerTable) : RegisteredPeer where
  herPublicKey := 0
  switchLabel := 0
  receiverContext := none
  jobs := [{ address := table.nextJob, callback := .closeInterface table.peerMap.nextHandle }]

/-- `closeInterface` will find the peer that is registered next by its handle. -/
def ClosesNext (table : PeerTable) (externalInterface : ℕ) : Prop :=
  ((table.peerMap.push externalInterface table.unslotted).indexForHandle
    (BitVec.ofNat 32 table.peerMap.nextHandle)).map (·.handle) = some table.peerMap.nextHandle

/-- It does as long as no handle is truncated. -/
theorem closesNext (unwrapped : table.peerMap.nextHandle < 2 ^ 32) (externalInterface : ℕ) :
    table.ClosesNext externalInterface := by
  let entry : Map.Entry ℕ RegisteredPeer :=
    { handle := table.peerMap.nextHandle, key := externalInterface, value := table.unslotted }
  have inside : entry ∈ (table.peerMap.push externalInterface table.unslotted).entries :=
    List.mem_append_right _ List.mem_cons_self
  have found := Map.indexForHandle_of_mem inside unwrapped
  rw [ClosesNext, found]
  rfl

/-- The table with a peer for which the switch has no slot -/
def withUnslotted (externalInterface : ℕ) (table : PeerTable) : PeerTable :=
  { table with
    peerMap := table.peerMap.push externalInterface table.unslotted
    nextJob := table.nextJob + 1 }

/-- A new peer is without a slot, or counted. -/
theorem registerPeer_of_unused {external : ℕ} (unused : table.peerMap.indexForKey external = none) :
    (table.core.Full ∧ table.registerPeer external 0 = some (table.withUnslotted external)) ∨
      ¬ table.core.Full ∧ ∀ after, table.registerPeer external 0 = some after →
        (∃ peer, after.peerMap = table.peerMap.push external peer) ∧
          after.core.interfaceCount = table.core.interfaceCount + 1 := by
  have notKnown : ¬ (table.peerMap.indexForKey external).isSome = true := by
    rw [unused]
    exact Bool.false_ne_true
  rw [registerPeer, if_neg notKnown]
  have full_iff : table.core.addInterface (table.peerMap.nextHandle + 1) 0 = .outOfSpace ↔
      table.core.Full := SwitchCore.addInterface_eq_outOfSpace_iff
  cases added : table.core.addInterface (table.peerMap.nextHandle + 1) 0 with
  | outOfSpace =>
      simp only [added]
      exact .inl ⟨full_iff.mp added, rfl⟩
  | stored core slot label =>
      simp only [added, reduceCtorEq, false_iff] at full_iff ⊢
      refine .inr ⟨full_iff, fun after taken => ?_⟩
      rw [← Option.some.inj taken]
      exact ⟨⟨_, rfl⟩, SwitchCore.interfaceCount_of_stored added⟩
  | outOfBounds =>
      simp only [added, reduceCtorEq, false_iff] at full_iff ⊢
      exact .inr ⟨full_iff, fun after taken => taken.elim⟩

/-- A new interface is entered in the map, whether or not the switch has a slot for it. -/
theorem peerMap_registerPeer {external : ℕ} {key : BitVec 256}
    (unused : table.peerMap.indexForKey external = none)
    (taken : table.registerPeer external key = some after) :
    ∃ peer, after.peerMap = table.peerMap.push external peer := by
  have notKnown : ¬ (table.peerMap.indexForKey external).isSome = true := by
    rw [unused]
    exact Bool.false_ne_true
  rw [registerPeer, if_neg notKnown] at taken
  cases added : table.core.addInterface (table.peerMap.nextHandle + 1) 0 with
  | outOfSpace =>
      simp only [added, Option.some.injEq] at taken
      exact ⟨_, congrArg peerMap taken.symm⟩
  | stored core slot label =>
      simp only [added, Option.some.injEq] at taken
      exact ⟨_, congrArg peerMap taken.symm⟩
  | outOfBounds =>
      simp only [added, reduceCtorEq] at taken

/-- Freeing a peer that has no slot takes the entry away that `closeInterface` finds. -/
theorem free_withUnslotted (external : ℕ) :
    (table.withUnslotted external).free table.peerMap.nextHandle =
      ((table.withUnslotted external).peerMap.indexForHandle
        (BitVec.ofNat 32 table.peerMap.nextHandle)).map fun entry =>
          { table.withUnslotted external with
            peerMap := (table.withUnslotted external).peerMap.remove entry.handle } := by
  let entry : Map.Entry ℕ RegisteredPeer :=
    { handle := table.peerMap.nextHandle, key := external, value := table.unslotted }
  have inside : entry ∈ (table.withUnslotted external).peerMap.entries :=
    List.mem_append_right _ List.mem_cons_self
  have found := Map.find_of_mem inside
  rw [free, found, Option.bind_some]
  change List.foldlM runJob _ [_] = _
  rw [List.foldlM_cons]
  simp only [List.foldlM_nil, runJob]
  exact bind_pure _

/-- The slot of a new peer was vacant, and the other slots stay as they are. -/
theorem slots_registerPeer {external : ℕ} (invariant : table.core.TableInvariant)
    (unused : table.peerMap.indexForKey external = none)
    (taken : table.registerPeer external 0 = some after) :
    ∃ peer, after.peerMap = table.peerMap.push external peer ∧
      ∀ slot, (peer.receiverContext = some slot → ¬ (table.core.interfaces slot).Live) ∧
        (peer.receiverContext ≠ some slot →
          after.core.interfaces slot = table.core.interfaces slot) := by
  rw [registerPeer, if_neg (by simp [unused])] at taken
  rcases invariant.addInterface_cases (table.peerMap.nextHandle + 1) 0 with
    ⟨outcome, -⟩ | ⟨place, outcome, -, vacant, -⟩ | ⟨outcome, -⟩
  · simp only [outcome, Option.some.injEq] at taken
    subst taken
    refine ⟨_, rfl, fun slot => ⟨fun refers => ?_, fun _ => rfl⟩⟩
    cases refers
  · simp only [outcome, SwitchCore.store, Option.some.injEq] at taken
    subst taken
    refine ⟨_, rfl, fun slot => ⟨fun refers => ?_, fun other => ?_⟩⟩
    · rw [← Option.some.inj refers]
      exact vacant
    · have apart : slot ≠ place := fun same => other (congrArg some same.symm)
      exact Function.update_of_ne apart ..
  · simp only [outcome, reduceCtorEq] at taken

/-- Whatever the switch has for a new peer is as it was when the peer is freed. -/
theorem restores {freed : PeerTable} {external : ℕ} (wellFormed : table.WellFormed)
    (room : table.NoWrap (.registerPeer external 0))
    (unused : table.peerMap.indexForKey external = none)
    (registers : table.registerPeer external 0 = some after)
    (frees : after.free table.peerMap.nextHandle = some freed) :
    freed.WellFormed ∧ freed.peerMap.entries = table.peerMap.entries ∧
      ∀ slot, (freed.core.interfaces slot).Live ↔ (table.core.interfaces slot).Live := by
  have registered := wellFormed.registerPeer room registers
  rcases slots_registerPeer wellFormed.core unused registers with ⟨peer, pushed, slots⟩
  let entry : Map.Entry ℕ RegisteredPeer :=
    { handle := table.peerMap.nextHandle, key := external, value := peer }
  have inside : entry ∈ after.peerMap.entries := by
    rw [pushed]
    exact List.mem_append_right _ List.mem_cons_self
  rcases (registered.seated entry inside).jobs with ⟨close, -, jobs, -⟩
  have freesEntry := free_of_jobs inside registered.handles jobs
  obtain rfl := Option.some.inj (frees.symm.trans freesEntry)
  refine ⟨registered.without inside, ?_, fun slot => ?_⟩
  · rw [peerMap_without, pushed]
    exact Map.entries_remove_push ..
  · rw [interfaces_without]
    by_cases own : entry.value.receiverContext = some slot
    · rw [if_pos own]
      exact iff_of_false SwitchInterface.not_live_vacant ((slots slot).1 own)
    · rw [if_neg own, (slots slot).2 own]

end DefaultInterfaceController.PeerTable

namespace MultiInterface

open DefaultInterfaceController (PeerState PeerTable RegisteredPeer)

/-- A multi-interface with the controller and the switch behind it -/
structure Endpoints where
  mif : MultiInterface
  /-- Where the interface of a peer is -/
  internalIf : ℕ → ℕ
  controller : PeerTable
  /-- What the controller takes a peer for, by the interface of the peer -/
  state : ℕ → PeerState

/-- What comes behind the multi-interface: CryptoAuth, and everything it passes the message on to.
There is no result where an assertion fails. -/
abbrev Core : Type :=
  ℕ → PaddedMessage → Endpoints → Option Endpoints

namespace Endpoints

/-- `registerPeer`, which the multi-interface calls without a key and with `requireAuth` -/
def registerPeer (peer : ℕ) (ends : Endpoints) : Option Endpoints :=
  let external := ends.internalIf peer
  if (ends.controller.peerMap.indexForKey external).isSome then some ends
  else
    (ends.controller.registerPeer external 0).map fun controller =>
      { ends with
        controller := controller
        state := Function.update ends.state external .UNAUTHENTICATED }

/-- `peerForKey` with `regIfNew`, and the peer that it returns -/
def peerForKey (key : List (BitVec 8)) (ends : Endpoints) : Option (Endpoints × ℕ) :=
  let found := ends.mif.peerForKey key
  match ends.mif.peerMap.indexForKey key with
  | some _ => some (ends, found.peer)
  | none =>
      (registerPeer found.peer { ends with mif := found.mif }).map fun ends => (ends, found.peer)

/-- `getPeerState`; there is no result where the peer is not registered. -/
def getPeerState (peer : ℕ) (ends : Endpoints) : Option PeerState :=
  (ends.controller.peerMap.indexForKey (ends.internalIf peer)).map fun _ =>
    ends.state (ends.internalIf peer)

/-- The allocator of a peer is freed, whose first job is `removePeer`. -/
def free (peer : ℕ) (ends : Endpoints) : Option Endpoints :=
  (ends.controller.peerMap.indexForKey (ends.internalIf peer)).bind fun entry =>
    (ends.controller.free entry.handle).map fun controller =>
      { ends with mif := ends.mif.removePeer peer, controller := controller }

/-- `receiveMessage` -/
def receiveMessage (core : Core) (msg : PaddedMessage) (ends : Endpoints) : Option Endpoints :=
  if msg.padding < 4 then none
  else
    (msg.pop ends.mif.keySize).bind fun popped => (ends.peerForKey popped.1).bind fun found =>
      (core found.2 popped.2 found.1).bind fun ends =>
        (ends.getPeerState found.2).bind fun state =>
          if state = .UNAUTHENTICATED then ends.free found.2 else some ends

/-! ## What a stray packet should leave behind -/

/-- The peers and the occupied slots are the same. -/
structure SamePeers (before after : Endpoints) : Prop where
  peers : after.mif.peerMap.entries = before.mif.peerMap.entries
  registered : after.controller.peerMap.entries = before.controller.peerMap.entries
  occupied : ∀ slot, (after.controller.core.interfaces slot).Live ↔
    (before.controller.core.interfaces slot).Live

/-- So is the number of interfaces. -/
structure Same (before after : Endpoints) : Prop extends SamePeers before after where
  interfaceCount : after.controller.core.interfaceCount = before.controller.core.interfaceCount

/-- A packet from a key that is not known, which CryptoAuth does not let through. The memory of its
peer is in no use. -/
structure Stray (core : Core) (msg : PaddedMessage) (ends : Endpoints) : Prop where
  padded : 4 ≤ msg.padding
  long : ends.mif.keySize ≤ msg.content.length
  unknown : ends.mif.peerMap.indexForKey (msg.content.take ends.mif.keySize) = none
  unused : ends.controller.peerMap.indexForKey (ends.internalIf ends.mif.peerMap.nextHandle) = none
  rejected : ∀ found, ends.peerForKey (msg.content.take ends.mif.keySize) = some found →
    ∀ rest, core found.2 rest found.1 = some found.1

/-- The packet is received, and nothing of it is left. -/
def LeavesNoState (core : Core) (msg : PaddedMessage) (ends : Endpoints) : Prop :=
  ∃ after, ends.receiveMessage core msg = some after ∧ ends.Same after

/-! ## Results -/

variable {core : Core} {msg : PaddedMessage} {ends : Endpoints}

theorem SamePeers.trans {first second third : Endpoints} (one : first.SamePeers second)
    (two : second.SamePeers third) : first.SamePeers third :=
  ⟨two.peers.trans one.peers, two.registered.trans one.registered,
    fun slot => (two.occupied slot).trans (one.occupied slot)⟩

theorem peerForKey_of_unknown {key : List (BitVec 8)} {mif : MultiInterface}
    (unknown : mif.peerMap.indexForKey key = none) :
    (mif.peerForKey key).mif.peerMap = mif.peerMap.push key () ∧
      (mif.peerForKey key).peer = mif.peerMap.nextHandle := by
  unfold MultiInterface.peerForKey
  split
  next entry found =>
    rw [unknown] at found
    cases found
  next => exact ⟨rfl, rfl⟩

/-- The multi-interface and the controller after a peer has come and gone -/
theorem receiveMessage_of_stray (stray : ends.Stray core msg) :
    ∃ mif state, mif.peerMap.entries = ends.mif.peerMap.entries ∧
      ends.receiveMessage core msg =
        (ends.controller.registerPeer (ends.internalIf ends.mif.peerMap.nextHandle) 0).bind
          fun controller => (controller.free ends.controller.peerMap.nextHandle).map
            fun controller =>
              { mif := mif
                internalIf := ends.internalIf
                controller := controller
                state := state } := by
  rcases stray with ⟨padded, long, unknown, unused, rejected⟩
  rcases peerForKey_of_unknown unknown with ⟨pushed, new⟩
  let mif := (ends.mif.peerForKey (msg.content.take ends.mif.keySize)).mif
  let state := Function.update ends.state (ends.internalIf ends.mif.peerMap.nextHandle)
    .UNAUTHENTICATED
  refine ⟨mif.removePeer ends.mif.peerMap.nextHandle, state, ?_, ?_⟩
  · change (Map.remove _ (MultiInterface.peerMap _)).entries = _
    rw [pushed, Map.entries_remove_push]
  have notPadded : ¬ msg.padding < 4 := not_lt.mpr padded
  have notKnown : ¬ (ends.controller.peerMap.indexForKey
      (ends.internalIf ends.mif.peerMap.nextHandle)).isSome = true := by
    rw [unused]
    exact Bool.false_ne_true
  have peer : ends.peerForKey (msg.content.take ends.mif.keySize) =
      (ends.controller.registerPeer (ends.internalIf ends.mif.peerMap.nextHandle) 0).map
        fun controller => ({ ends with mif := mif, controller := controller, state := state },
          ends.mif.peerMap.nextHandle) := by
    simp only [peerForKey, unknown, registerPeer, new, if_neg notKnown, Option.map_map]
    rfl
  rw [receiveMessage, if_neg notPadded, PaddedMessage.pop, if_pos long, Option.bind_some]
  dsimp only
  rw [peer] at rejected ⊢
  cases taken : ends.controller.registerPeer
      (ends.internalIf ends.mif.peerMap.nextHandle) 0 with
  | none => rfl
  | some controller =>
      rcases PeerTable.peerMap_registerPeer unused taken with ⟨value, registered⟩
      have found := Map.indexForKey_push value unused
      rw [taken] at rejected
      simp only [Option.map_some, Option.bind_some]
      rw [rejected _ rfl]
      simp only [Option.bind_some, getPeerState, registered, found, Option.map_some]
      rw [if_pos (Function.update_self ..), free]
      simp only [registered, found, Option.bind_some]

/-- Where the switch has a slot for the peer, or writes beyond its table, one more interface is
counted if the packet is received at all. -/
theorem interfaceCount_of_stray {after : Endpoints} (stray : ends.Stray core msg)
    (notFull : ¬ ends.controller.core.Full) (taken : ends.receiveMessage core msg = some after) :
    after.controller.core.interfaceCount = ends.controller.core.interfaceCount + 1 := by
  rcases receiveMessage_of_stray stray with ⟨mif, state, -, received⟩
  rcases PeerTable.registerPeer_of_unused stray.unused with ⟨full, -⟩ | ⟨-, registered⟩
  · exact absurd full notFull
  rw [received] at taken
  rcases Option.bind_eq_some_iff.mp taken with ⟨controller, registers, taken⟩
  rcases Option.map_eq_some_iff.mp taken with ⟨freed, frees, rfl⟩
  exact (PeerTable.interfaceCount_free frees).trans (registered _ registers).2

theorem not_leavesNoState (stray : ends.Stray core msg) (notFull : ¬ ends.controller.core.Full) :
    ¬ ends.LeavesNoState core msg := by
  rintro ⟨after, taken, same⟩
  have counted := interfaceCount_of_stray stray notFull taken
  rw [same.interfaceCount] at counted
  exact absurd counted (by simp)

/-- A stray packet leaves no state exactly where the switch, with its table filled to the very end,
has no slot for the peer, and the controller finds the peer again. -/
theorem leavesNoState_iff (stray : ends.Stray core msg) :
    ends.LeavesNoState core msg ↔
      ends.controller.core.Full ∧
        ends.controller.ClosesNext (ends.internalIf ends.mif.peerMap.nextHandle) := by
  by_cases full : ends.controller.core.Full
  · rcases receiveMessage_of_stray stray with ⟨mif, state, peers, received⟩
    rcases PeerTable.registerPeer_of_unused stray.unused with ⟨-, registered⟩ | ⟨notFull, -⟩
    · rw [LeavesNoState, received, registered, Option.bind_some, PeerTable.free_withUnslotted,
        PeerTable.ClosesNext]
      constructor
      · rintro ⟨after, taken, same⟩
        refine ⟨full, ?_⟩
        rw [Option.map_map, Option.map_eq_some_iff] at taken
        rcases taken with ⟨entry, found, rfl⟩
        refine Option.map_eq_some_iff.mpr ⟨entry, found, ?_⟩
        -- If another entry was taken away, the new one is still there.
        by_contra other
        let new : Map.Entry ℕ RegisteredPeer :=
          { handle := ends.controller.peerMap.nextHandle
            key := ends.internalIf ends.mif.peerMap.nextHandle
            value := ends.controller.unslotted }
        have inside : new ∈ (ends.controller.withUnslotted new.key).peerMap.entries :=
          List.mem_append_right _ List.mem_cons_self
        have stays := Map.mem_remove.mpr ⟨inside, Ne.symm other⟩
        have old : new ∈ ends.controller.peerMap.entries := same.registered ▸ stays
        exact absurd (ends.controller.peerMap.below _ old) (Nat.lt_irrefl _)
      · rintro ⟨-, closes⟩
        rcases Option.map_eq_some_iff.mp closes with ⟨entry, found, handle⟩
        refine ⟨_, Option.map_eq_some_iff.mpr
          ⟨_, Option.map_eq_some_iff.mpr ⟨entry, found, rfl⟩, rfl⟩,
          ⟨peers, ?_, fun _ => Iff.rfl⟩, rfl⟩
        rw [handle]
        exact Map.entries_remove_push ..
    · exact absurd full notFull
  · exact iff_of_false (not_leavesNoState stray full) fun conditions => full conditions.1

/-! ## Any number of stray packets -/

/-- A stray packet that is received leaves the peers and the slots as they were. -/
theorem samePeers_of_stray {after : Endpoints} (wellFormed : ends.controller.WellFormed)
    (room : ends.controller.NoWrap (.registerPeer 0 0)) (stray : ends.Stray core msg)
    (taken : ends.receiveMessage core msg = some after) :
    ends.SamePeers after ∧ after.controller.WellFormed := by
  rcases receiveMessage_of_stray stray with ⟨mif, state, peers, received⟩
  rw [received] at taken
  rcases Option.bind_eq_some_iff.mp taken with ⟨controller, registers, taken⟩
  rcases Option.map_eq_some_iff.mp taken with ⟨freed, frees, rfl⟩
  have known : ends.controller.NoWrap
      (.registerPeer (ends.internalIf ends.mif.peerMap.nextHandle) 0) := room
  rcases PeerTable.restores wellFormed known stray.unused registers frees with
    ⟨result, registered, occupied⟩
  exact ⟨⟨peers, registered, occupied⟩, result⟩

/-- Stray packets that come in one after the other -/
def strays (core : Core) (start : Endpoints) : TransitionSystem Endpoints PaddedMessage where
  initial ends := ends = start
  step ends msg after := ends.receiveMessage core msg = some after

/-- The packet is a stray one, and no counter wraps around. -/
def StrayWithRoom (core : Core) (ends : Endpoints) (msg : PaddedMessage) : Prop :=
  ends.Stray core msg ∧ ends.controller.NoWrap (.registerPeer 0 0)

/-- However many stray packets come in, the peers and the slots are those of the start. -/
theorem samePeers_isInvariant {start : Endpoints} (wellFormed : start.controller.WellFormed) :
    (strays core start).IsInvariant (StrayWithRoom core) fun ends =>
      start.SamePeers ends ∧ ends.controller.WellFormed where
  initial := by
    rintro _ rfl
    exact ⟨⟨rfl, rfl, fun _ => Iff.rfl⟩, wellFormed⟩
  step {before msg after} invariant met taken := by
    rcases invariant with ⟨same, wellFormed⟩
    rcases samePeers_of_stray wellFormed met.2 met.1 taken with ⟨next, result⟩
    exact ⟨same.trans next, result⟩

/-! ## Packets from nobody -/

/-- Nobody is known behind a table of the switch. -/
def behind (core : SwitchCore) : Endpoints where
  mif := .new 8
  internalIf peer := peer
  controller := { PeerTable.new with core := core }
  state _ := .UNAUTHENTICATED

/-- CryptoAuth lets nothing through. -/
def rejecting : Core :=
  fun _ _ ends => some ends

def packet : PaddedMessage where
  padding := 4
  content := List.replicate 8 0

theorem stray_packet (core : SwitchCore) : (behind core).Stray rejecting packet :=
  ⟨le_rfl, le_rfl, rfl, rfl, fun _ _ _ => rfl⟩

/-- A table with every slot occupied -/
def fullTable : SwitchCore where
  interfaces _ := { iface := some 0, buffer := 0, bufferMax := 0 }
  interfaceCount := BitVec.ofNat 32 INTERFACES
  routerAdded := true

/-- With a table that is full, nothing is left of a stray packet. -/
theorem leavesNoState_full : (behind fullTable).LeavesNoState rejecting packet := by
  refine (leavesNoState_iff (stray_packet fullTable)).mpr ⟨⟨by decide, fun slot _ => ?_⟩, ?_⟩
  · exact Option.some_ne_none _
  · exact PeerTable.closesNext (by decide) _

/-- In a router that has just been started, one stray packet is counted as an interface. -/
theorem stray_counted : ∃ (ends : Endpoints) (msg : PaddedMessage),
    ends.Stray rejecting msg ∧ ¬ ends.LeavesNoState rejecting msg := by
  refine ⟨behind PeerTable.new.core, packet, stray_packet _, not_leavesNoState (stray_packet _) ?_⟩
  intro full
  exact absurd full.1 (by decide)

end Endpoints

end MultiInterface

end Cjdns
