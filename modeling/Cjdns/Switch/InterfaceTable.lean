import Cjdns.Library.Transition
import Cjdns.Switch.SwitchCore

/-!
# The interface table of the switch

`addInterface` looks for a vacant slot below the append index, and takes the
slot at the append index if there is none. The append index grows with every
interface that is added and does not shrink when an interface is removed; every
occupied slot is below it, which is the invariant of the table, but after enough
churn it is beyond the end of the table.
-/

namespace Cjdns

open NumberCompress (INTERFACES)

namespace SwitchInterface

/-- A slot of zeros, as `removeInterface` leaves it. -/
def vacant : SwitchInterface := ⟨none, 0, 0⟩

@[simp]
theorem not_live_vacant : ¬ vacant.Live := by
  simp [vacant, Live]

end SwitchInterface

namespace SwitchCore

/-- `SwitchCore_new` -/
def new : SwitchCore where
  interfaces _ := .vacant
  interfaceCount := 0
  routerAdded := false

/-- The start of `SwitchCore_addInterface`, where the router's slot 1 is left out. -/
def appendIndex (core : SwitchCore) : BitVec 32 :=
  let ifIndex := core.interfaceCount
  if 0 < ifIndex ∧ ¬ core.routerAdded then ifIndex + 1
  else if ifIndex = 1 then ifIndex - 1
  else ifIndex

/-- The loop of `SwitchCore_addInterface` over the slots of the table. -/
def vacantBelow (core : SwitchCore) (ifIndex : BitVec 32) : Option (Fin INTERFACES) :=
  (List.finRange INTERFACES).find? fun i =>
    (i : ℕ) < ifIndex.toNat ∧ (core.interfaces i).iface = none ∧ i ≠ 1

/-- The outcome of `SwitchCore_addInterface`. -/
inductive Added where
  /-- `SwitchCore_addInterface_OUT_OF_SPACE` -/
  | outOfSpace
  | stored (after : SwitchCore) (slot : Fin INTERFACES) (labelOut : BitVec 64)
  /-- The table is read or written beyond its end. -/
  | outOfBounds

/-- The table with an interface stored in a slot. -/
def withInterface (core : SwitchCore) (iface : ℕ) (trust : BitVec 64) (ifIndex : Fin INTERFACES) :
    SwitchCore :=
  { core with
    interfaces := Function.update core.interfaces ifIndex
      { iface := some iface, buffer := 0, bufferMax := trust.toInt }
    interfaceCount := core.interfaceCount + 1 }

/-- The end of `SwitchCore_addInterface`, where the interface is stored. -/
def store (core : SwitchCore) (iface : ℕ) (trust : BitVec 64) (ifIndex : Fin INTERFACES) : Added :=
  let bits := NumberCompress.bitsUsedForNumber ifIndex
  .stored (core.withInterface iface trust ifIndex) ifIndex
    (NumberCompress.getCompressed ifIndex bits ||| (1 : BitVec 64) <<< bits)

/-- `SwitchCore_addInterface` -/
def addInterface (iface : ℕ) (trust : BitVec 64) (core : SwitchCore) : Added :=
  let ifIndex := core.appendIndex
  match core.vacantBelow ifIndex with
  | some i => core.store iface trust i
  | none =>
      if ifIndex = BitVec.ofNat 32 INTERFACES then .outOfSpace
      else if inside : ifIndex.toNat < INTERFACES then core.store iface trust ⟨_, inside⟩
      else .outOfBounds

/-- `SwitchCore_setRouterInterface` -/
def setRouterInterface (iface : ℕ) (core : SwitchCore) : SwitchCore :=
  { interfaces := Function.update core.interfaces 1
      { iface := some iface, buffer := 0, bufferMax := 2 ^ 63 - 1 }
    interfaceCount := core.interfaceCount + 1
    routerAdded := true }

/-- `removeInterface` -/
def removeInterface (slot : Fin INTERFACES) (core : SwitchCore) : SwitchCore :=
  { core with interfaces := Function.update core.interfaces slot .vacant }

/-! ## Runs -/

/-- What happens to the table. -/
inductive TableEvent where
  | add (iface : ℕ) (trust : BitVec 64)
  /-- The interface in a slot is freed, which calls `removeInterface`. -/
  | free (slot : Fin INTERFACES)
  | setRouter (iface : ℕ)

/--
The table after an event. Interfaces other than the router's are freed while
they are registered, and the router is set once. There is no result where the
table is overrun.
-/
def tableStep (core : SwitchCore) : TableEvent → Option SwitchCore
  | .add iface trust =>
      match core.addInterface iface trust with
      | .outOfSpace => some core
      | .stored after _ _ => some after
      | .outOfBounds => none
  | .free slot =>
      if (core.interfaces slot).Live ∧ slot ≠ 1 then some (core.removeInterface slot) else none
  | .setRouter iface => if core.routerAdded then none else some (core.setRouterInterface iface)

/-- The table as a transition system. -/
def table : TransitionSystem SwitchCore TableEvent where
  initial core := core = new
  step core event after := core.tableStep event = some after

/-- The law of the table: what `addInterface` may do. -/
def Lawful (core : SwitchCore) (iface : ℕ) : Added → Prop
  | .outOfSpace => ∀ slot, slot ≠ 1 → (core.interfaces slot).Live
  | .stored after slot labelOut =>
      slot ≠ 1 ∧ ¬ (core.interfaces slot).Live ∧ (after.interfaces slot).iface = some iface ∧
        (∀ other, other ≠ slot → after.interfaces other = core.interfaces other) ∧
        NumberCompress.getDecompressed labelOut (NumberCompress.bitsUsedForLabel labelOut) = slot
  | .outOfBounds => False

/-- A slot is vacant, or the append index is not beyond the end of the table. -/
def HasRoom (core : SwitchCore) : Prop :=
  core.appendIndex.toNat ≤ INTERFACES ∨ ∃ slot, slot ≠ 1 ∧ ¬ (core.interfaces slot).Live

/-- Interfaces are added where there is room, and the counter does not wrap around. -/
def WithRoom (core : SwitchCore) : TableEvent → Prop
  | .add _ _ => core.HasRoom ∧ core.interfaceCount.toNat + 2 < 2 ^ 32
  | .free _ => True
  | .setRouter _ => core.interfaceCount.toNat + 2 < 2 ^ 32

/-! ## The invariant -/

/-- Every occupied slot other than the router's is below the append index. -/
structure TableInvariant (core : SwitchCore) : Prop where
  below : ∀ slot, slot ≠ 1 → (core.interfaces slot).Live → (slot : ℕ) < core.appendIndex.toNat
  router : (core.interfaces 1).Live → core.routerAdded
  counted : core.routerAdded → 0 < core.interfaceCount.toNat
  noWrap : core.interfaceCount.toNat + 1 < 2 ^ 32

variable {core after : SwitchCore} {iface : ℕ} {trust : BitVec 64} {slot : Fin INTERFACES}

theorem toNat_appendIndex (noWrap : core.interfaceCount.toNat + 1 < 2 ^ 32) :
    core.appendIndex.toNat =
      if core.routerAdded then
        if core.interfaceCount.toNat = 1 then 0 else core.interfaceCount.toNat
      else if core.interfaceCount.toNat = 0 then 0 else core.interfaceCount.toNat + 1 := by
  simp only [appendIndex, BitVec.lt_def, ← BitVec.toNat_inj,
    show (0 : BitVec 32).toNat = 0 from rfl, show (1 : BitVec 32).toNat = 1 from rfl]
  generalize core.interfaceCount = count at *
  cases core.routerAdded with
  | false =>
      by_cases zero : count.toNat = 0
      · simp [zero]
      · rw [if_pos ⟨by omega, by simp⟩, BitVec.toNat_add, show (1 : BitVec 32).toNat = 1 from rfl,
          Nat.mod_eq_of_lt noWrap]
        simp [zero]
  | true =>
      by_cases one : count.toNat = 1
      · have : count = 1 := BitVec.eq_of_toNat_eq one
        simp [this]
      · simp [one]

theorem appendIndex_ne_one (noWrap : core.interfaceCount.toNat + 1 < 2 ^ 32) :
    core.appendIndex.toNat ≠ 1 := by
  rw [toNat_appendIndex noWrap]
  split_ifs <;> omega

theorem toNat_count_succ (noWrap : core.interfaceCount.toNat + 2 < 2 ^ 32) :
    (core.interfaceCount + 1).toNat = core.interfaceCount.toNat + 1 := by
  rw [BitVec.toNat_add, show (1 : BitVec 32).toNat = 1 from rfl, Nat.mod_eq_of_lt (by omega)]

theorem live_withInterface_iff {other : Fin INTERFACES} :
    ((core.withInterface iface trust slot).interfaces other).Live ↔
      other = slot ∨ (core.interfaces other).Live := by
  by_cases same : other = slot <;> simp [withInterface, SwitchInterface.Live, same]

theorem tableStep_of_store (outcome : core.addInterface iface trust = core.store iface trust slot) :
    core.tableStep (.add iface trust) = some (core.withInterface iface trust slot) := by
  simp only [tableStep, outcome, store]

theorem after_of_tableStep (taken : core.tableStep (.add iface trust) = some after) :
    after = core ∨ ∃ place, after = core.withInterface iface trust place := by
  have outcomes : core.addInterface iface trust = .outOfSpace ∨
      core.addInterface iface trust = .outOfBounds ∨
      ∃ place, core.addInterface iface trust = core.store iface trust place := by
    rw [addInterface]
    split
    · exact Or.inr (Or.inr ⟨_, rfl⟩)
    · split_ifs
      · exact Or.inl rfl
      · exact Or.inr (Or.inr ⟨_, rfl⟩)
      · exact Or.inr (Or.inl rfl)
  rcases outcomes with outcome | outcome | ⟨place, outcome⟩
  · simp only [tableStep, outcome, Option.some.injEq] at taken
    exact Or.inl taken.symm
  · simp [tableStep, outcome] at taken
  · rw [tableStep_of_store outcome, Option.some.injEq] at taken
    exact Or.inr ⟨place, taken.symm⟩

/-- What the loop over the slots finds. -/
theorem vacantBelow_eq_some {ifIndex : BitVec 32} (found : core.vacantBelow ifIndex = some slot) :
    (slot : ℕ) < ifIndex.toNat ∧ ¬ (core.interfaces slot).Live ∧ slot ≠ 1 := by
  have holds := List.find?_some found
  simpa [SwitchInterface.Live] using holds

theorem live_of_vacantBelow_eq_none {ifIndex : BitVec 32}
    (notFound : core.vacantBelow ifIndex = none) (inside : (slot : ℕ) < ifIndex.toNat)
    (peer : slot ≠ 1) : (core.interfaces slot).Live := by
  have all := List.find?_eq_none.mp notFound slot (List.mem_finRange slot)
  intro vacant
  simp [vacant, peer] at all
  omega

/-- The label of an interface decompresses to the slot of the interface. -/
theorem getDecompressed_label (peer : slot ≠ 1) :
    let bits := NumberCompress.bitsUsedForNumber slot
    let labelOut := NumberCompress.getCompressed slot bits ||| (1 : BitVec 64) <<< bits
    NumberCompress.getDecompressed labelOut (NumberCompress.bitsUsedForLabel labelOut) = slot := by
  intro bits labelOut
  have width := NumberCompress.isWidth_bitsUsedForNumber slot
  have small := NumberCompress.toNat_getCompressed_lt width slot.isLt le_rfl
  have notOne : (slot : ℕ) ≠ 1 := fun one => peer (Fin.ext one)
  have starts : Word.low bits labelOut = NumberCompress.getCompressed slot bits := by
    apply BitVec.eq_of_toNat_eq
    have bound : bits ≤ 64 := by
      rcases width with width | width | width <;> omega
    have parts : labelOut =
        (1 : BitVec 64) <<< bits ||| NumberCompress.getCompressed slot bits :=
      BitVec.or_comm ..
    rw [Word.toNat_low, parts, Word.toNat_shiftLeft_or bound small, Nat.mul_comm, Nat.mul_add_mod,
      Nat.mod_eq_of_lt small]
  obtain ⟨decodedWidth, decoded⟩ :=
    NumberCompress.decode_of_low_eq width slot.isLt le_rfl notOne starts
  rw [decodedWidth, decoded]

/-- Storing an interface in a vacant slot other than the router's is lawful. -/
theorem lawful_store (peer : slot ≠ 1) (vacant : ¬ (core.interfaces slot).Live) :
    core.Lawful iface (core.store iface trust slot) := by
  refine ⟨peer, vacant, ?_, fun other different => ?_, getDecompressed_label peer⟩
  · simp [withInterface]
  · simp [withInterface, different]

/-- The three outcomes of `addInterface` under the invariant. -/
theorem TableInvariant.addInterface_cases (invariant : core.TableInvariant) (iface : ℕ)
    (trust : BitVec 64) :
    (core.addInterface iface trust = .outOfSpace ∧ core.appendIndex.toNat = INTERFACES ∧
        ∀ slot, slot ≠ 1 → (core.interfaces slot).Live) ∨
      (∃ slot, core.addInterface iface trust = core.store iface trust slot ∧ slot ≠ 1 ∧
        ¬ (core.interfaces slot).Live ∧ (slot : ℕ) ≤ core.appendIndex.toNat) ∨
      (core.addInterface iface trust = .outOfBounds ∧ INTERFACES < core.appendIndex.toNat ∧
        ∀ slot, slot ≠ 1 → (core.interfaces slot).Live) := by
  have notOne := appendIndex_ne_one invariant.noWrap
  rw [addInterface]
  cases search : core.vacantBelow core.appendIndex with
  | some found =>
      obtain ⟨inside, vacant, peer⟩ := vacantBelow_eq_some search
      exact Or.inr (Or.inl ⟨found, rfl, peer, vacant, inside.le⟩)
  | none =>
      have allLive (large : INTERFACES ≤ core.appendIndex.toNat) (slot : Fin INTERFACES)
          (peer : slot ≠ 1) : (core.interfaces slot).Live :=
        live_of_vacantBelow_eq_none search (lt_of_lt_of_le slot.isLt large) peer
      by_cases full : core.appendIndex = BitVec.ofNat 32 INTERFACES
      · have bound : core.appendIndex.toNat = INTERFACES := by rw [full]; rfl
        exact Or.inl ⟨by simp [full], bound, allLive bound.ge⟩
      · have different : core.appendIndex.toNat ≠ INTERFACES := fun same =>
          full (BitVec.eq_of_toNat_eq same)
        by_cases inside : core.appendIndex.toNat < INTERFACES
        · have peer : (⟨_, inside⟩ : Fin INTERFACES) ≠ 1 := fun one =>
            notOne (congrArg Fin.val one)
          refine Or.inr (Or.inl ⟨⟨_, inside⟩, by simp [full, inside], peer, fun live => ?_, le_rfl⟩)
          exact absurd (invariant.below _ peer live) (lt_irrefl _)
        · have large : INTERFACES < core.appendIndex.toNat :=
            lt_of_le_of_ne (not_lt.mp inside) different.symm
          exact Or.inr (Or.inr ⟨by simp [full, inside], large, allLive large.le⟩)

/-- `addInterface` keeps the law of the table exactly where there is room. -/
theorem TableInvariant.lawful_iff (invariant : core.TableInvariant) :
    core.Lawful iface (core.addInterface iface trust) ↔ core.HasRoom := by
  rcases invariant.addInterface_cases iface trust with
    ⟨outcome, full, allLive⟩ | ⟨slot, outcome, peer, vacant, -⟩ | ⟨outcome, large, allLive⟩
  · rw [outcome]
    exact iff_of_true allLive (Or.inl full.le)
  · rw [outcome]
    exact iff_of_true (lawful_store peer vacant) (Or.inr ⟨slot, peer, vacant⟩)
  · rw [outcome]
    refine iff_of_false id fun room => ?_
    rcases room with small | ⟨slot, peer, vacant⟩
    · exact absurd small (not_le.mpr large)
    · exact vacant (allLive slot peer)

/-- Adding an interface keeps the invariant. -/
theorem TableInvariant.add (invariant : core.TableInvariant)
    (noWrap : core.interfaceCount.toNat + 2 < 2 ^ 32)
    (taken : core.tableStep (.add iface trust) = some after) : after.TableInvariant := by
  rcases invariant.addInterface_cases iface trust with
    ⟨outcome, -⟩ | ⟨slot, outcome, peer, -, inside⟩ | ⟨outcome, -⟩
  · simp only [tableStep, outcome, Option.some.injEq] at taken
    exact taken ▸ invariant
  · rw [tableStep_of_store outcome, Option.some.injEq] at taken
    subst taken
    have count : (core.withInterface iface trust slot).interfaceCount.toNat =
        core.interfaceCount.toNat + 1 := toNat_count_succ noWrap
    have grows : core.appendIndex.toNat < (core.withInterface iface trust slot).appendIndex.toNat := by
      have counted := invariant.counted
      rw [toNat_appendIndex invariant.noWrap, toNat_appendIndex (by rw [count]; omega), count]
      simp only [withInterface]
      split_ifs <;> simp_all
    exact {
      below := fun other otherPeer live => by
        rcases live_withInterface_iff.mp live with rfl | before
        · exact lt_of_le_of_lt inside grows
        · exact (invariant.below other otherPeer before).trans grows
      router := fun live => by
        rcases live_withInterface_iff.mp live with same | before
        · exact absurd same.symm peer
        · exact invariant.router before
      counted := fun _ => by rw [count]; omega
      noWrap := by rw [count]; omega }
  · simp [tableStep, outcome] at taken

/-- One event keeps the invariant. -/
theorem TableInvariant.step (invariant : core.TableInvariant) {event : TableEvent}
    (room : core.WithRoom event) (taken : core.tableStep event = some after) :
    after.TableInvariant := by
  cases event with
  | add iface trust => exact invariant.add room.2 taken
  | free slot =>
      simp only [tableStep, Option.ite_none_right_eq_some, Option.some.injEq] at taken
      obtain ⟨⟨-, peer⟩, rfl⟩ := taken
      have stays {other : Fin INTERFACES}
          (live : ((core.removeInterface slot).interfaces other).Live) :
          (core.interfaces other).Live := by
        by_cases same : other = slot
        · simp [removeInterface, same] at live
        · simpa [removeInterface, same] using live
      exact {
        below := fun other otherPeer live => invariant.below other otherPeer (stays live)
        router := fun live => invariant.router (stays live)
        counted := invariant.counted
        noWrap := invariant.noWrap }
  | setRouter iface =>
      simp only [tableStep, Option.ite_none_left_eq_some, Option.some.injEq] at taken
      obtain ⟨notAdded, rfl⟩ := taken
      have noWrap : core.interfaceCount.toNat + 2 < 2 ^ 32 := room
      have count : (core.setRouterInterface iface).interfaceCount.toNat =
          core.interfaceCount.toNat + 1 := toNat_count_succ noWrap
      have same : (core.setRouterInterface iface).appendIndex.toNat = core.appendIndex.toNat := by
        rw [toNat_appendIndex invariant.noWrap, toNat_appendIndex (by rw [count]; omega), count]
        simp only [setRouterInterface, notAdded]
        split_ifs <;> simp_all
      exact {
        below := fun other otherPeer live => by
          rw [same]
          apply invariant.below other otherPeer
          simpa [setRouterInterface, otherPeer] using live
        router := fun _ => rfl
        counted := fun _ => by rw [count]; omega
        noWrap := by rw [count]; omega }

/-- The invariant of the table over runs that add interfaces where there is room. -/
theorem tableInvariant : table.IsInvariant WithRoom TableInvariant where
  initial := by
    rintro _ rfl
    exact {
      below := fun slot _ live => absurd live SwitchInterface.not_live_vacant
      router := fun live => absurd live SwitchInterface.not_live_vacant
      counted := fun added => by simp [new] at added
      noWrap := by simp [new] }
  step := fun invariant room taken => invariant.step room taken

/--
The law of the table over every run that adds interfaces where there is room:
the next interface is added lawfully exactly where there is room again, and
slot 1 is vacant until the router is set.
-/
theorem table_lawful (reachable : table.Reachable WithRoom core) :
    (∀ iface trust, core.Lawful iface (core.addInterface iface trust) ↔ core.HasRoom) ∧
      (core.routerAdded = false → ¬ (core.interfaces 1).Live) := by
  have invariant := reachable.invariant tableInvariant
  refine ⟨fun _ _ => invariant.lawful_iff, fun notAdded live => ?_⟩
  rw [invariant.router live] at notAdded
  cases notAdded

/-- Trust is a positive number, also when it is read as a signed one. -/
def Trusting (_ : SwitchCore) : TableEvent → Prop
  | .add _ trust => trust.toNat < 2 ^ 63
  | _ => True

/-- No interface is flooding, as nothing but `addInterface` writes the buffers. -/
theorem metered_of_reachable (reachable : table.Reachable Trusting core) (slot : Fin INTERFACES) :
    (core.interfaces slot).buffer ≤ (core.interfaces slot).bufferMax := by
  have metered : table.IsInvariant Trusting fun core =>
      ∀ slot, (core.interfaces slot).buffer ≤ (core.interfaces slot).bufferMax := by
    constructor
    · rintro _ rfl slot
      exact le_rfl
    · intro before event after holds trusting taken slot
      have written {place : Fin INTERFACES} {value : SwitchInterface}
          (fine : value.buffer ≤ value.bufferMax) :
          (Function.update before.interfaces place value slot).buffer ≤
            (Function.update before.interfaces place value slot).bufferMax := by
        by_cases same : slot = place
        · rw [same, Function.update_self]
          exact fine
        · rw [Function.update_of_ne same]
          exact holds slot
      cases event with
      | add iface trust =>
          have positive : 0 ≤ trust.toInt := by
            change trust.toNat < 2 ^ 63 at trusting
            rw [BitVec.toInt_eq_toNat_of_lt (by omega)]
            omega
          rcases after_of_tableStep taken with rfl | ⟨place, rfl⟩
          · exact holds slot
          · exact written (by exact positive)
      | free slot =>
          simp only [table, tableStep, Option.ite_none_right_eq_some, Option.some.injEq] at taken
          rw [← taken.2]
          exact written le_rfl
      | setRouter iface =>
          simp only [table, tableStep, Option.ite_none_left_eq_some, Option.some.injEq] at taken
          rw [← taken.2]
          exact written (by norm_num)
  exact reachable.invariant metered slot

/-- There is room in a table that has only the router. -/
theorem table_lawful_router :
    (new.setRouterInterface 0).Lawful 1 ((new.setRouterInterface 0).addInterface 1 0) := by
  have noWrap : new.WithRoom (.setRouter 0) := by simp [WithRoom, new]
  have reachable : table.Reachable WithRoom (new.setRouterInterface 0) :=
    .step (.initial rfl) noWrap rfl
  exact ((table_lawful reachable).1 1 0).mpr (Or.inl (by decide))

/-! ## Churn -/

/-- The router is set and `added` interfaces fill the table from the start. -/
structure Filled (core : SwitchCore) (added : ℕ) : Prop where
  router : core.routerAdded = true
  count : core.interfaceCount.toNat = added + 1
  live_iff : ∀ slot, slot ≠ 1 →
    ((core.interfaces slot).Live ↔ (slot : ℕ) < if added = 0 then 0 else added + 1)

theorem Filled.appendIndex_eq {added : ℕ} (filled : core.Filled added) (small : added ≤ 256) :
    core.appendIndex.toNat = if added = 0 then 0 else added + 1 := by
  rw [toNat_appendIndex (by rw [filled.count]; omega), filled.count, filled.router]
  simp

theorem Filled.tableInvariant {added : ℕ} (filled : core.Filled added) (small : added ≤ 256) :
    core.TableInvariant where
  below slot peer live := by
    rw [filled.appendIndex_eq small]
    exact (filled.live_iff slot peer).mp live
  router _ := filled.router
  counted _ := by rw [filled.count]; omega
  noWrap := by rw [filled.count]; omega

/-- The next interface goes into the next slot. -/
theorem Filled.add {added : ℕ} (filled : core.Filled added) (small : added < 256) (iface : ℕ) :
    ∃ after, core.tableStep (.add iface 0) = some after ∧ after.Filled (added + 1) := by
  have index := filled.appendIndex_eq small.le
  have below : core.appendIndex.toNat < 257 := by rw [index]; split_ifs <;> omega
  rcases (filled.tableInvariant small.le).addInterface_cases iface 0 with
    ⟨-, full, -⟩ | ⟨slot, outcome, peer, vacant, inside⟩ | ⟨-, large, -⟩
  · change core.appendIndex.toNat = 257 at full
    omega
  · have place : (slot : ℕ) = if added = 0 then 0 else added + 1 := by
      have above := (filled.live_iff slot peer).not.mp vacant
      omega
    refine ⟨_, tableStep_of_store outcome, filled.router, ?_, fun other otherPeer => ?_⟩
    · rw [← filled.count]
      exact toNat_count_succ (by rw [filled.count]; omega)
    · have notOne : (other : ℕ) ≠ 1 := fun one => otherPeer (Fin.ext one)
      rw [live_withInterface_iff, filled.live_iff other otherPeer, Fin.ext_iff, place,
        if_neg (Nat.succ_ne_zero added)]
      by_cases zero : added = 0
      · rw [if_pos zero, zero]
        omega
      · rw [if_neg zero]
        omega
  · change 257 < core.appendIndex.toNat at large
    omega

/-- Add a number of interfaces. -/
def fill (added : ℕ) : List TableEvent :=
  (List.range added).map fun iface => .add (iface + 1) 0

theorem filled_run (added : ℕ) (small : added ≤ 256) :
    ∃ core, (fill added).foldlM tableStep (new.setRouterInterface 0) = some core ∧
      core.Filled added := by
  induction added with
  | zero =>
      refine ⟨_, rfl, rfl, by decide, fun slot peer => ?_⟩
      simp [setRouterInterface, peer, new]
  | succ added ih =>
      obtain ⟨core, run, filled⟩ := ih (by omega)
      obtain ⟨after, taken, filledAfter⟩ := filled.add (by omega) (added + 1)
      refine ⟨after, ?_, filledAfter⟩
      rw [fill, List.range_succ, List.map_append, List.foldlM_append, ← fill, run]
      simpa using taken

/-- One run after another. -/
theorem foldlM_append_of {first second : List TableEvent} {start middle stop : SwitchCore}
    (one : first.foldlM tableStep start = some middle)
    (two : second.foldlM tableStep middle = some stop) :
    (first ++ second).foldlM tableStep start = some stop := by
  rw [List.foldlM_append, one]
  exact two

/-- Fill the table, free one slot, and use it again. -/
def churn : List TableEvent :=
  [.setRouter 0] ++ fill 256 ++ [.free 2, .add 257 0]

/-- The table is full after the churn, but the next interface is not refused. -/
theorem not_lawful_after_churn :
    ∃ core, churn.foldlM tableStep new = some core ∧
      ¬ core.Lawful 258 (core.addInterface 258 0) := by
  obtain ⟨full, run, filled⟩ := filled_run 256 le_rfl
  have allLive (slot : Fin INTERFACES) (peer : slot ≠ 1) : (full.interfaces slot).Live :=
    (filled.live_iff slot peer).mpr slot.isLt
  have freed : full.tableStep (.free 2) = some (full.removeInterface 2) := by
    simp [tableStep, allLive]
  have freedInvariant : (full.removeInterface 2).TableInvariant :=
    (filled.tableInvariant le_rfl).step (by trivial : full.WithRoom (.free 2)) freed
  have freedCount : (full.removeInterface 2).interfaceCount.toNat = 257 := filled.count
  have noWrap : (full.removeInterface 2).interfaceCount.toNat + 2 < 2 ^ 32 := by
    rw [freedCount]
    omega
  have freedLive (slot : Fin INTERFACES) (peer : slot ≠ 1) (other : slot ≠ 2) :
      ((full.removeInterface 2).interfaces slot).Live := by
    simpa [removeInterface, other] using allLive slot peer
  have freedVacant : ¬ ((full.removeInterface 2).interfaces 2).Live := by
    simp [removeInterface]
  rcases freedInvariant.addInterface_cases 257 0 with
    ⟨-, -, live⟩ | ⟨slot, outcome, peer, vacant, -⟩ | ⟨-, -, live⟩
  · exact absurd (live 2 (by decide)) freedVacant
  · obtain rfl : slot = 2 := by
      by_contra other
      exact vacant (freedLive slot peer other)
    have added := tableStep_of_store outcome
    have invariant := freedInvariant.add noWrap added
    refine ⟨(full.removeInterface 2).withInterface 257 0 2, ?_, fun lawful => ?_⟩
    · have router : [TableEvent.setRouter 0].foldlM tableStep new =
          some (new.setRouterInterface 0) := by
        simp [tableStep, new]
      have reuse : [TableEvent.free 2, .add 257 0].foldlM tableStep full =
          some ((full.removeInterface 2).withInterface 257 0 2) := by
        simp only [List.foldlM_cons, List.foldlM_nil, Option.bind_eq_bind, freed,
          Option.bind_some, added, Option.pure_def]
      exact foldlM_append_of (foldlM_append_of router run) reuse
    · rcases invariant.lawful_iff.mp lawful with small | ⟨slot, slotPeer, slotVacant⟩
      · have index := toNat_appendIndex invariant.noWrap
        rw [show ((full.removeInterface 2).withInterface 257 0 2).interfaceCount.toNat = 258 from
          (toNat_count_succ noWrap).trans (by rw [freedCount]),
          show ((full.removeInterface 2).withInterface 257 0 2).routerAdded = true from
          filled.router] at index
        rw [if_pos rfl, if_neg (by omega)] at index
        change _ ≤ 257 at small
        omega
      · rw [live_withInterface_iff, not_or] at slotVacant
        exact slotVacant.2 (freedLive slot slotPeer slotVacant.1)
  · exact absurd (live 2 (by decide)) freedVacant

end SwitchCore

end Cjdns
