import Cjdns.Benc.Object
import Cjdns.Library.Transition
import Cjdns.Util.Hex
import Cjdns.Util.Map

/-!
# Requests to the angel

`Hermes_callAngel` puts a request into a map and sends its handle as the transaction id.
An answer from the angel and the time-out compete for the request, and the one that comes
first removes it. A call that cannot write or send its message raises an exception, and
then the request stays in the map and nothing removes it.
-/

namespace Cjdns

/-- `struct Request`; it is the entry of the map with its handle. -/
structure Hermes.Request where
  /-- `handle` -/
  handle : BitVec 32
  /-- The interval of the time-out is set. -/
  armed : Bool

/-- `struct Hermes` -/
structure Hermes where
  requestSet : Map Unit Hermes.Request

namespace Hermes

/-- The key `txid` -/
abbrev TXID : BString := [0x74, 0x78, 0x69, 0x64]

/-- The bytes of a handle in memory; the host is little endian. -/
def handleBytes (handle : BitVec 32) : List (BitVec 8) :=
  [handle.extractLsb' 0 8, handle.extractLsb' 8 8, handle.extractLsb' 16 8,
    handle.extractLsb' 24 8]

/-- The handle that a transaction id stands for, if it is one -/
def handleOf (txid : BString) : Option (BitVec 32) :=
  if txid.length = 8 then
    (Hex.decode txid).bind fun
      | [b0, b1, b2, b3] => some (b3 ++ b2 ++ b1 ++ b0)
      | _ => none
  else none

/-- How writing and sending the message goes -/
inductive Outcome where
  | sent
  /-- The message does not fit into the buffer. -/
  | ESERIALIZE
  /-- The interface fails. -/
  | ESEND
deriving DecidableEq

/-- What `Hermes_callAngel` leaves behind; it raises unless the message is sent. -/
structure Called where
  hermes : Hermes
  message : Dict

/-- `Hermes_callAngel` -/
def callAngel (message : Dict) (outcome : Outcome) (hermes : Hermes) : Called :=
  let handle := BitVec.ofNat 32 hermes.requestSet.nextHandle
  let requestSet := hermes.requestSet.push () { handle := handle, armed := false }
  let withTxid := message.putObject TXID (.string (Hex.encode (handleBytes handle)))
  match outcome with
  | .ESERIALIZE => { hermes := { requestSet := requestSet }, message := withTxid }
  | .ESEND => { hermes := { requestSet := requestSet }, message := withTxid.remove TXID }
  | .sent =>
      { hermes :=
          { requestSet := requestSet.modify hermes.requestSet.nextHandle
              fun request => { request with armed := true } }
        message := withTxid.remove TXID }

/-- `removeReqFromSet`, which runs when the memory of the request is freed -/
def removeReqFromSet (request : Request) (hermes : Hermes) : Hermes :=
  match hermes.requestSet.indexForHandle request.handle with
  | some entry => { requestSet := hermes.requestSet.remove entry.handle }
  | none => hermes

/-! ## Runs -/

/-- The arguments of a call, with how it goes -/
structure Call where
  message : Dict
  outcome : Outcome

/-- The calls that a callback makes -/
def callAll (calls : List Call) (hermes : Hermes) : Hermes :=
  calls.foldl (fun hermes call => (hermes.callAngel call.message call.outcome).hermes) hermes

/-- A call of `onResponse`: for which request, with which transaction id or with the time-out -/
structure Response where
  number : ℕ
  txid : Option BString

/-- The state with the responses that there have been, the last one first -/
structure History where
  hermes : Hermes
  responses : List Response

/-- `onResponse` is called, which makes calls of its own, and then the request is freed. -/
def History.respond (entry : Map.Entry Unit Request) (txid : Option BString) (nested : List Call)
    (history : History) : History :=
  { hermes := (callAll nested history.hermes).removeReqFromSet entry.value
    responses := { number := entry.handle, txid := txid } :: history.responses }

inductive Event where
  | call (made : Call)
  /-- A message with a transaction id from the angel, and what the callback calls -/
  | receive (txid : Option BString) (nested : List Call)
  /-- The interval of a request runs out. -/
  | timeout (number : ℕ) (nested : List Call)

/-- `receiveMessage2` -/
def receiveMessage2 (txid : Option BString) (nested : List Call) (history : History) : History :=
  match (txid.bind handleOf).bind history.hermes.requestSet.indexForHandle with
  | none => history
  | some entry => history.respond entry txid nested

def History.step (history : History) : Event → Option History
  | .call made => some { history with hermes := callAll [made] history.hermes }
  | .receive txid nested => some (receiveMessage2 txid nested history)
  | .timeout number nested =>
      (history.hermes.requestSet.entries.find? fun entry =>
          entry.handle = number && entry.value.armed).map
        fun entry => history.respond entry none nested

/-- `Hermes_new` -/
def new : Hermes where
  requestSet := .empty

/-- Calls, messages from the angel and time-outs in any order -/
def angel : TransitionSystem History Event where
  initial history := history = { hermes := new, responses := [] }
  step history event after := history.step event = some after

/-- The calls of an event -/
def Event.calls : Event → List Call
  | .call made => [made]
  | .receive _ nested => nested
  | .timeout _ nested => nested

/-- No call raises, and the handles of the requests fit into 32 bits. -/
def Calm (history : History) (event : Event) : Prop :=
  (∀ call ∈ event.calls, call.outcome = .sent) ∧
    history.hermes.requestSet.nextHandle + event.calls.length ≤ 2 ^ 32

/-- The responses to a request -/
def History.responsesTo (number : ℕ) (history : History) : List Response :=
  history.responses.filter fun response => response.number = number

/-- The request is in the map, and its time-out is still to come. -/
def History.Pending (number : ℕ) (history : History) : Prop :=
  ∃ entry ∈ history.hermes.requestSet.entries, entry.handle = number ∧ entry.value.armed = true

/--
Every request is waiting for an answer or for its time-out and has got none, or it has
been answered once. An answer carries the handle of the request.
-/
structure AnsweredOnce (history : History) : Prop where
  once : ∀ number < history.hermes.requestSet.nextHandle,
    (history.Pending number ∧ history.responsesTo number = []) ∨
      (¬ history.Pending number ∧ (history.responsesTo number).length = 1)
  own : ∀ response ∈ history.responses, ∀ txid ∈ response.txid,
    handleOf txid = some (BitVec.ofNat 32 response.number)

/-- A call that raises leaves the map and the message as they were. -/
def LeavesNothing (history : History) (call : Call) : Prop :=
  call.outcome ≠ .sent →
    history.hermes.callAngel call.message call.outcome =
      { hermes := history.hermes, message := call.message }

/-! ## The map -/

/-- The entry of a request that has been sent -/
def fresh (number : ℕ) : Map.Entry Unit Request :=
  { handle := number, key := (), value := { handle := BitVec.ofNat 32 number, armed := true } }

theorem mem_callAngel_sent {message : Dict} {hermes : Hermes} {entry : Map.Entry Unit Request} :
    entry ∈ (hermes.callAngel message .sent).hermes.requestSet.entries ↔
      entry ∈ hermes.requestSet.entries ∨ entry = fresh hermes.requestSet.nextHandle := by
  have older : ∀ entry ∈ hermes.requestSet.entries,
      entry.handle ≠ hermes.requestSet.nextHandle :=
    fun entry inside => (hermes.requestSet.below entry inside).ne
  simp only [callAngel, Map.modify, Map.push, List.map_append, List.map_singleton, if_true,
    List.mem_append, List.mem_singleton, fresh]
  refine or_congr_left ?_
  rw [List.map_congr_left fun entry inside => if_neg (older entry inside), List.map_id']

theorem nextHandle_callAngel {message : Dict} {outcome : Outcome} {hermes : Hermes} :
    (hermes.callAngel message outcome).hermes.requestSet.nextHandle =
      hermes.requestSet.nextHandle + 1 := by
  cases outcome <;> rfl

/-- A call that raises does leave something: the request. -/
theorem not_leavesNothing {history : History} {call : Call} (raises : call.outcome ≠ .sent) :
    ¬ LeavesNothing history call := by
  intro leaves
  have same := congrArg (fun called : Called => called.hermes.requestSet.nextHandle) (leaves raises)
  rw [nextHandle_callAngel] at same
  exact absurd same (Nat.succ_ne_self _)

/-- Calls that raise nothing add their requests and change nothing else. -/
theorem callAll_sent {calls : List Call} {hermes : Hermes}
    (sent : ∀ call ∈ calls, call.outcome = .sent) :
    (callAll calls hermes).requestSet.nextHandle = hermes.requestSet.nextHandle + calls.length ∧
      ∀ entry, entry ∈ (callAll calls hermes).requestSet.entries ↔
        entry ∈ hermes.requestSet.entries ∨
          ∃ number, hermes.requestSet.nextHandle ≤ number ∧
            number < hermes.requestSet.nextHandle + calls.length ∧ entry = fresh number := by
  induction calls generalizing hermes with
  | nil =>
      refine ⟨rfl, fun entry => ⟨.inl, ?_⟩⟩
      rintro (inside | ⟨number, lower, upper, _⟩)
      · exact inside
      · exact absurd upper (not_lt.mpr lower)
  | cons call calls ih =>
      have first := sent call List.mem_cons_self
      have later := @ih (hermes.callAngel call.message call.outcome).hermes
        fun other inside => sent other (List.mem_cons_of_mem _ inside)
      rw [nextHandle_callAngel, first] at later
      change (callAll calls (hermes.callAngel call.message call.outcome).hermes).requestSet.nextHandle
        = _ ∧ _
      rw [first, List.length_cons]
      refine ⟨by rw [later.1]; omega, fun entry => ?_⟩
      have unfolded : callAll (call :: calls) hermes =
          callAll calls (hermes.callAngel call.message .sent).hermes := by
        rw [callAll, List.foldl_cons, first]
        rfl
      rw [unfolded, later.2 entry, mem_callAngel_sent]
      constructor
      · rintro ((inside | rfl) | ⟨number, lower, upper, rfl⟩)
        · exact .inl inside
        · exact .inr ⟨_, le_rfl, by omega, rfl⟩
        · exact .inr ⟨number, by omega, by omega, rfl⟩
      · rintro (inside | ⟨number, lower, upper, rfl⟩)
        · exact .inl (.inl inside)
        · rcases Nat.eq_or_lt_of_le lower with rfl | less
          · exact .inl (.inr rfl)
          · exact .inr ⟨number, less, by omega, rfl⟩

/-! ## Runs in which no call raises -/

/-- What holds in every such run -/
structure Settled (history : History) : Prop where
  bounded : history.hermes.requestSet.nextHandle ≤ 2 ^ 32
  shaped : ∀ entry ∈ history.hermes.requestSet.entries, entry = fresh entry.handle
  answered : ∀ response ∈ history.responses,
    response.number < history.hermes.requestSet.nextHandle
  once : ∀ number < history.hermes.requestSet.nextHandle,
    (fresh number ∈ history.hermes.requestSet.entries ∧ history.responsesTo number = []) ∨
      (fresh number ∉ history.hermes.requestSet.entries ∧
        (history.responsesTo number).length = 1)
  own : ∀ response ∈ history.responses, ∀ txid ∈ response.txid,
    handleOf txid = some (BitVec.ofNat 32 response.number)

theorem Settled.pending_iff {history : History} (settled : Settled history) (number : ℕ) :
    history.Pending number ↔ fresh number ∈ history.hermes.requestSet.entries := by
  constructor
  · rintro ⟨entry, inside, rfl, _⟩
    exact settled.shaped entry inside ▸ inside
  · intro inside
    exact ⟨_, inside, rfl, rfl⟩

theorem Settled.answeredOnce {history : History} (settled : Settled history) :
    AnsweredOnce history where
  once number below := by
    rw [settled.pending_iff]
    exact settled.once number below
  own := settled.own

theorem responsesTo_of_fresh {history : History} (settled : Settled history) {number : ℕ}
    (new : history.hermes.requestSet.nextHandle ≤ number) : history.responsesTo number = [] := by
  rw [History.responsesTo, List.filter_eq_nil_iff]
  intro response inside same
  have below := settled.answered response inside
  rw [of_decide_eq_true same] at below
  omega

/-- Calls keep what holds. -/
theorem Settled.callAll {history : History} {calls : List Call} (settled : Settled history)
    (sent : ∀ call ∈ calls, call.outcome = .sent)
    (room : history.hermes.requestSet.nextHandle + calls.length ≤ 2 ^ 32) :
    Settled { history with hermes := Hermes.callAll calls history.hermes } := by
  have grown := @callAll_sent _ history.hermes sent
  constructor
  · exact grown.1.trans_le room
  · intro entry inside
    rcases (grown.2 entry).mp inside with old | ⟨number, _, _, rfl⟩
    · exact settled.shaped entry old
    · rfl
  · intro response inside
    exact (settled.answered response inside).trans_le (grown.1 ▸ Nat.le_add_right _ _)
  · intro number below
    simp only [grown.1] at below
    simp only [grown.2]
    by_cases old : number < history.hermes.requestSet.nextHandle
    · rcases settled.once number old with ⟨inside, none⟩ | ⟨gone, one⟩
      · exact .inl ⟨.inl inside, none⟩
      · refine .inr ⟨?_, one⟩
        rintro (inside | ⟨other, lower, _, same⟩)
        · exact gone inside
        · have : number = other := congrArg Map.Entry.handle same
          omega
    · refine .inl ⟨.inr ⟨number, by omega, below, rfl⟩, ?_⟩
      exact responsesTo_of_fresh settled (not_lt.mp old)
  · exact settled.own

/-- Freeing a request that is in the map removes it and no other. -/
theorem removeReqFromSet_fresh {history : History} (settled : Settled history) {number : ℕ}
    (inside : fresh number ∈ history.hermes.requestSet.entries) :
    history.hermes.removeReqFromSet (fresh number).value =
      { requestSet := history.hermes.requestSet.remove number } := by
  have found := history.hermes.requestSet.indexForHandle_of_mem inside settled.bounded
  change history.hermes.requestSet.indexForHandle (BitVec.ofNat 32 number) = _ at found
  simp only [removeReqFromSet, fresh, found]

/-- A response to a request in the map keeps what holds. -/
theorem Settled.respond {history : History} {entry : Map.Entry Unit Request}
    {txid : Option BString} {nested : List Call} (settled : Settled history)
    (inside : entry ∈ history.hermes.requestSet.entries)
    (own : ∀ answer ∈ txid, handleOf answer = some (BitVec.ofNat 32 entry.handle))
    (sent : ∀ call ∈ nested, call.outcome = .sent)
    (room : history.hermes.requestSet.nextHandle + nested.length ≤ 2 ^ 32) :
    Settled (history.respond entry txid nested) := by
  have shape := settled.shaped entry inside
  have below := history.hermes.requestSet.below entry inside
  generalize entry.handle = number at shape own below
  subst shape
  have called := settled.callAll sent room
  have grown := @callAll_sent _ history.hermes sent
  have still : fresh number ∈ (Hermes.callAll nested history.hermes).requestSet.entries :=
    (grown.2 _).mpr (.inl inside)
  have unanswered : history.responsesTo number = [] := by
    rcases settled.once number below with ⟨_, none⟩ | ⟨gone, _⟩
    · exact none
    · exact absurd inside gone
  have freed := removeReqFromSet_fresh called still
  simp only [History.respond]
  rw [freed]
  constructor
  · exact called.bounded
  · intro other kept
    exact called.shaped other (List.mem_filter.mp kept).1
  · intro response answered
    rcases List.mem_cons.mp answered with rfl | earlier
    · exact below.trans_le (grown.1 ▸ Nat.le_add_right _ _)
    · exact called.answered response earlier
  · intro other otherBelow
    simp only [Map.remove, List.mem_filter, decide_eq_true_eq, History.responsesTo]
    by_cases same : other = number
    · subst same
      right
      refine ⟨fun kept => kept.2 rfl, ?_⟩
      rw [List.filter_cons_of_pos (by simp [fresh]), List.length_cons]
      change (history.responsesTo other).length + 1 = 1
      rw [unanswered, List.length_nil]
    · rw [List.filter_cons_of_neg (by simp [fresh, Ne.symm same])]
      have different : (fresh other).handle ≠ number := same
      rcases called.once other otherBelow with ⟨waiting, none⟩ | ⟨gone, one⟩
      · exact .inl ⟨⟨waiting, different⟩, none⟩
      · exact .inr ⟨fun kept => gone kept.1, one⟩
  · intro response answered
    rcases List.mem_cons.mp answered with rfl | earlier
    · exact own
    · exact settled.own response earlier

theorem settled_isInvariant : angel.IsInvariant Calm Settled where
  initial := by
    rintro _ rfl
    constructor
    · exact Nat.zero_le _
    · intro entry inside
      exact absurd inside List.not_mem_nil
    · intro response inside
      exact absurd inside List.not_mem_nil
    · intro number below
      exact absurd below (Nat.not_lt_zero _)
    · intro response inside
      exact absurd inside List.not_mem_nil
  step {before event after} settled calm taken := by
    rcases calm with ⟨sent, room⟩
    cases event with
    | call made =>
        simp only [angel, History.step, Option.some.injEq] at taken
        exact taken ▸ settled.callAll sent room
    | receive txid nested =>
        simp only [angel, History.step, Option.some.injEq, receiveMessage2] at taken
        cases found : (txid.bind handleOf).bind before.hermes.requestSet.indexForHandle with
        | none =>
            simp only [found] at taken
            exact taken ▸ settled
        | some entry =>
            simp only [found] at taken
            rcases Option.bind_eq_some_iff.mp found with ⟨handle, decoded, found⟩
            rcases Option.bind_eq_some_iff.mp decoded with ⟨text, given, decoded⟩
            have inside := Map.indexForHandle_eq_some found
            have itself := before.hermes.requestSet.indexForHandle_of_mem inside settled.bounded
            subst taken
            refine settled.respond inside ?_ sent room
            intro answer same
            rw [Option.mem_def.mp same, Option.some.injEq] at given
            rw [given, decoded, Map.handle_of_indexForHandle found]
    | timeout number nested =>
        rcases Option.map_eq_some_iff.mp taken with ⟨entry, found, rfl⟩
        refine settled.respond (List.mem_of_find?_eq_some found) ?_ sent room
        intro answer same
        cases same

/-- Every request is answered once, by its own answer or by its time-out, if no call raises. -/
theorem answeredOnce_of_reachable {history : History} (reachable : angel.Reachable Calm history) :
    AnsweredOnce history ∧
      ∀ call, LeavesNothing history call ↔ call.outcome = .sent := by
  refine ⟨(reachable.invariant settled_isInvariant).answeredOnce, fun call => ⟨?_, ?_⟩⟩
  · intro leaves
    by_contra raises
    exact not_leavesNothing raises leaves
  · intro sent raises
    exact absurd sent raises

/-- A request that has been answered -/
theorem answeredOnce_after_answer :
    ∃ history, history.responses.length = 1 ∧ AnsweredOnce history := by
  let call : Call := { message := .nil, outcome := .sent }
  let answer : BString := Hex.encode (handleBytes 0)
  let start : History := { hermes := new, responses := [] }
  let called : History := { start with hermes := callAll [call] new }
  have calm : Calm start (.call call) := ⟨by simp [Event.calls, call], by decide⟩
  have stillCalm : Calm called (.receive (some answer) []) := ⟨by simp [Event.calls], by decide⟩
  have starts : angel.Reachable Calm start := .initial rfl
  have reachable : angel.Reachable Calm called := starts.step calm rfl
  refine ⟨receiveMessage2 (some answer) [] called, by decide +kernel, ?_⟩
  exact (answeredOnce_of_reachable (reachable.step stillCalm rfl)).1

/-- A message with a string that does not fit into the buffer leaves its request in the map. -/
theorem request_left_behind :
    angel.Reachable (fun _ _ => True) { hermes := new, responses := [] } ∧
      ¬ LeavesNothing { hermes := new, responses := [] }
        { message := .cons [0x61] (.string (List.replicate 1024 0x61)) .nil
          outcome := .ESERIALIZE } := by
  refine ⟨.initial rfl, not_leavesNothing ?_⟩
  decide

end Hermes

end Cjdns
