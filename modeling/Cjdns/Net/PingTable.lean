import Cjdns.Net.SwitchPinger

/-!
# The slots of the pinger

A ping stays in its slot until a pong comes in or it times out. It holds a pointer to the peer that
it is for, which nobody clears when the peer is dropped.
-/

namespace Cjdns.SwitchPinger

open Pinger (MAX_CONCURRENT_PINGS)

/-- `Control_Ping_MAX_SIZE` -/
abbrev Ping_MAX_SIZE : ℕ := 256

/-- `enum SwitchPinger_Result` -/
inductive Result where
  | OK
  | LABEL_MISMATCH
  | WRONG_DATA
  | ERROR_RESPONSE
  | TIMEOUT
deriving DecidableEq

/-- `struct Ping` -/
structure Ping where
  label : BitVec 64
  data : Option (List (BitVec 8))
  /-- The peer that the pointer refers to, if the ping is for a peer -/
  onResponseContext : Option ℕ
  /-- That peer has been dropped since the ping was sent, which the program does not know. -/
  orphaned : Bool
deriving DecidableEq

/-- The slots of the pinger -/
abbrev PingTable : Type :=
  Fin MAX_CONCURRENT_PINGS → Option Ping

/-- What comes in for a slot -/
structure Pong where
  incomingLabel : BitVec 64
  isError : Bool
  data : List (BitVec 8)

/-- The result that `onPingResponse` passes on; a ping without a pong has timed out. -/
def onPingResponse (pong : Option Pong) (p : Ping) : Result :=
  match pong with
  | none => .TIMEOUT
  | some pong =>
      if pong.incomingLabel ≠ p.label then .LABEL_MISMATCH
      else if (p.data.isSome ∨ 0 < pong.data.length) ∧ p.data ≠ some pong.data then .WRONG_DATA
      else if pong.isError then .ERROR_RESPONSE
      else .OK

/-- The slot that `Pinger_newPing` finds -/
def freeSlot (pings : PingTable) : Option (Fin MAX_CONCURRENT_PINGS) :=
  (List.finRange MAX_CONCURRENT_PINGS).find? fun slot => (pings slot).isNone

/-- `SwitchPinger_newPing`, with the slot of the ping; there is no result where it returns a null
pointer. -/
def newPing (ping : Ping) (pings : PingTable) : Option (Fin MAX_CONCURRENT_PINGS × PingTable) :=
  if Ping_MAX_SIZE < (ping.data.getD []).length then none
  else (freeSlot pings).map fun slot => (slot, Function.update pings slot (some ping))

/-- The ping that a pong for a slot is an answer to -/
def answered (pings : PingTable) (slot : Fin MAX_CONCURRENT_PINGS) (pong : Pong) : Option Ping :=
  (pings slot).filter fun ping => onPingResponse (some pong) ping = .OK

/-- The peer with a handle is dropped; its pings stay. -/
def orphan (handle : ℕ) (pings : PingTable) : PingTable := fun slot =>
  (pings slot).map fun ping =>
    if ping.onResponseContext = some handle then { ping with orphaned := true } else ping

/-- A ping for the peer is in a slot. -/
def Outstanding (pings : PingTable) (handle : ℕ) : Prop :=
  ∃ slot ping, pings slot = some ping ∧ ping.onResponseContext = some handle

/-- No ping is for a peer that has been dropped since. -/
def NoOrphan (pings : PingTable) : Prop :=
  ∀ slot ping, pings slot = some ping → ping.orphaned = false

/-- How many slots are free -/
def vacant (pings : PingTable) : ℕ :=
  (Finset.univ.filter fun slot => pings slot = none).card

/-! ## Pings that come and go -/

variable {pings after : PingTable} {ping : Ping} {slot : Fin MAX_CONCURRENT_PINGS}

theorem freeSlot_eq_none_iff : freeSlot pings = none ↔ vacant pings = 0 := by
  rw [freeSlot, List.find?_eq_none, vacant, Finset.card_eq_zero, Finset.filter_eq_empty_iff]
  simp

/-- A ping goes into a slot that was free. -/
theorem newPing_eq_some (added : newPing ping pings = some (slot, after)) :
    pings slot = none ∧ after = Function.update pings slot (some ping) := by
  rw [newPing] at added
  split_ifs at added
  rcases Option.map_eq_some_iff.mp added with ⟨found, free, same⟩
  rcases Prod.mk.inj same with ⟨rfl, rfl⟩
  exact ⟨by simpa using List.find?_some free, rfl⟩

theorem newPing_eq_none_iff (short : (ping.data.getD []).length ≤ Ping_MAX_SIZE) :
    newPing ping pings = none ↔ vacant pings = 0 := by
  rw [newPing, if_neg (by omega), Option.map_eq_none_iff, freeSlot_eq_none_iff]

theorem vacant_update (ping : Ping) (free : pings slot = none) :
    vacant (Function.update pings slot (some ping)) + 1 = vacant pings := by
  have erased :
      (Finset.univ.filter fun other => Function.update pings slot (some ping) other = none) =
        (Finset.univ.filter fun other => pings other = none).erase slot := by
    ext other
    by_cases same : other = slot
    · simp [same]
    · simp [same]
  rw [vacant, erased, vacant]
  exact Finset.card_erase_add_one (by simpa using free)

/-- Pongs find out every ping that is for a peer that was dropped. -/
theorem noOrphan_iff : NoOrphan pings ↔
    ∀ slot pong ping, answered pings slot pong = some ping → ping.orphaned = false := by
  constructor
  · intro none slot pong ping answers
    exact none slot ping (Option.filter_eq_some_iff.mp answers).1
  · intro attached slot ping inSlot
    refine attached slot
      { incomingLabel := ping.label, isError := false, data := ping.data.getD [] } ping ?_
    rw [answered, Option.filter_eq_some_iff]
    refine ⟨inSlot, ?_⟩
    cases data : ping.data with
    | none => simp [onPingResponse, data]
    | some data => simp [onPingResponse, data]

theorem NoOrphan.update (none : NoOrphan pings) {content : Option Ping}
    (fresh : ∀ ping, content = some ping → ping.orphaned = false) :
    NoOrphan (Function.update pings slot content) := by
  intro other ping inSlot
  by_cases same : other = slot
  · subst same
    exact fresh ping (by simpa using inSlot)
  · exact none other ping (by simpa [same] using inSlot)

/-- A peer that is dropped leaves no ping behind exactly if none is in a slot. -/
theorem noOrphan_orphan_iff (none : NoOrphan pings) (handle : ℕ) :
    NoOrphan (orphan handle pings) ↔ ¬ Outstanding pings handle := by
  constructor
  · rintro left ⟨slot, ping, inSlot, refers⟩
    have marked := left slot { ping with orphaned := true } (by simp [orphan, inSlot, refers])
    cases marked
  · intro absent slot ping inSlot
    rcases Option.map_eq_some_iff.mp inSlot with ⟨before, there, rfl⟩
    have other : before.onResponseContext ≠ some handle := fun refers =>
      absent ⟨slot, before, there, refers⟩
    rw [if_neg other]
    exact none slot before there

end Cjdns.SwitchPinger
