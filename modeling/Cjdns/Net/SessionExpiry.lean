import Cjdns.Net.SessionManager

/-!
# Expiry of sessions

`cleanup` of `SessionManager.c` removes the sessions that are idle, by the time that `getSession`
sets. `sessionForHandle`, which finds the session of every data packet that comes in, leaves that
time alone. It is kept in 32 bits, as are the handles.
-/

namespace Cjdns.SessionManager

/-! ## The loop of `cleanup` -/

/-- The loop of `cleanup` from an index on -/
def cleanupLoop (nowSecs : BitVec 64) : ℕ → ℕ → SessionManager → SessionManager
  | 0, _, sm => sm
  | rounds + 1, i, sm =>
      match sm.entries[i]? with
      | none => sm
      | some entry =>
          if isIdle nowSecs entry.value then cleanupLoop nowSecs rounds i (sm.remove entry.handle)
          else cleanupLoop nowSecs rounds (i + 1) sm

/-! ## Calls -/

/-- What the calls have done so far -/
inductive Record where
  /-- `getSession` has created the session and has given it the handle. -/
  | issued (session : ℕ) (handle : BitVec 32)
  /-- `getSession` has returned the session. -/
  | got (session : ℕ) (time : BitVec 64)
  /-- `sessionForHandle` has returned the session. -/
  | resolved (session : ℕ) (time : BitVec 64)
deriving DecidableEq

structure History where
  sm : SessionManager
  clock : BitVec 64
  log : List Record

inductive Call where
  | getSession (lookupKey : List (BitVec 8)) (cryptoKey : Option Key)
  | sessionForHandle (handle : BitVec 32)
  | cleanup
  /-- A caller writes to a session that it was given. -/
  | write (session : ℕ) (wrapper : CryptoAuth.Wrapper) (sendHandle_be version : BitVec 32)
      (bufferedHeader : Option IP6Header)

namespace History

/-- No session is there yet. -/
def new (clock : BitVec 64) : History where
  sm := .empty
  clock := clock
  log := []

/-- A call at a time -/
def perform (nowSecs : BitVec 64) (history : History) : Call → History
  | .getSession lookupKey cryptoKey =>
      let (sm, session) := SessionManager.getSession lookupKey cryptoKey nowSecs history.sm
      { sm := sm
        clock := nowSecs
        log := history.log ++
          (if (history.sm.indexForKey lookupKey).isSome then []
            else [.issued session (BitVec.ofNat 32 session)]) ++ [.got session nowSecs] }
  | .sessionForHandle handle =>
      { history with
        clock := nowSecs
        log := history.log ++
          ((SessionManager.sessionForHandle handle history.sm).map fun session =>
            Record.resolved session nowSecs).toList }
  | .cleanup =>
      { history with sm := SessionManager.cleanup nowSecs history.sm, clock := nowSecs }
  | .write session wrapper sendHandle_be version bufferedHeader =>
      { history with
        sm := history.sm.modify session fun session =>
          { session with
            wrapper := wrapper
            sendHandle_be := sendHandle_be
            version := version
            bufferedHeader := bufferedHeader }
        clock := nowSecs }

/-- The clock does not go back, and is above the timeout. -/
def step (history : History) (nowSecs : BitVec 64) (call : Call) : Option History :=
  if history.clock ≤ nowSecs ∧ SESSION_TIMEOUT_SECONDS < nowSecs then
    some (history.perform nowSecs call)
  else none

/-- One of the two lookups has returned the session at the time. -/
def Returned (history : History) (session : ℕ) (time : BitVec 64) : Prop :=
  .got session time ∈ history.log ∨ .resolved session time ∈ history.log

/-- The time is one of the last seconds before the timeout. -/
def Recent (nowSecs time : BitVec 64) : Prop :=
  nowSecs.toNat ≤ time.toNat + SESSION_TIMEOUT_SECONDS.toNat

/-- Both lookups return every session that is there, and a handle leads to no session but the one it
was issued for. -/
structure Resolves (history : History) : Prop where
  byAddress : ∀ entry ∈ history.sm.entries, ∀ cryptoKey nowSecs,
    (SessionManager.getSession entry.value.ip6 cryptoKey nowSecs history.sm).2 = entry.handle
  byHandle : ∀ entry ∈ history.sm.entries,
    SessionManager.sessionForHandle (Endian.bigEndianToHost32 entry.value.receiveHandle_be)
      history.sm = some entry.handle
  unique : ∀ handle session, SessionManager.sessionForHandle handle history.sm = some session →
    ∀ other, .issued other handle ∈ history.log → other = session

/-- A session that is removed was not returned lately. -/
def RemovesIdle (before : History) (nowSecs : BitVec 64) (after : History) : Prop :=
  ∀ entry ∈ before.sm.entries,
    (∀ other ∈ after.sm.entries, other.handle ≠ entry.handle) →
      ∀ time, before.Returned entry.handle time → ¬ Recent nowSecs time

/-- Sessions expire as they should in a sequence of calls, and can be looked up until then. -/
def Correct : History → List (BitVec 64 × Call) → Prop
  | history, [] => history.Resolves
  | history, (nowSecs, call) :: calls =>
      history.Resolves ∧ ∀ after, history.step nowSecs call = some after →
        history.RemovesIdle nowSecs after ∧ after.Correct calls

/-- A session that was returned lately was returned by `getSession` lately, and never when the
clock had outgrown 32 bits. -/
def Refreshed (history : History) (nowSecs : BitVec 64) : Prop :=
  ∀ entry ∈ history.sm.entries,
    (∃ time, history.Returned entry.handle time ∧ Recent nowSecs time) →
      (∃ time, .got entry.handle time ∈ history.log ∧ Recent nowSecs time) ∧
        ∀ time, .got entry.handle time ∈ history.log → time.toNat < 2 ^ 32

/-- A call that cleans up finds every session refreshed that was returned lately, and a call that
creates a session has a new handle for it. -/
def Meets (history : History) (nowSecs : BitVec 64) : Call → Prop
  | .getSession lookupKey _ => history.sm.indexForKey lookupKey = none →
      history.Refreshed nowSecs ∧ history.sm.nextHandle < 2 ^ 32
  | .cleanup => history.Refreshed nowSecs
  | .sessionForHandle _ | .write .. => True

/-- Every call meets the condition. -/
def AllMeet : History → List (BitVec 64 × Call) → Prop
  | _, [] => True
  | history, (nowSecs, call) :: calls =>
      ∀ after, history.step nowSecs call = some after →
        history.Meets nowSecs call ∧ after.AllMeet calls

end History

/-! ## The loop removes the idle sessions -/

theorem cleanupLoop_eq {nowSecs : BitVec 64} {rounds : ℕ} {sm : SessionManager}
    {front back : List (Map.Entry (List (BitVec 8)) Session)} (entries : sm.entries = front ++ back)
    (busy : ∀ entry ∈ front, isIdle nowSecs entry.value = false) (enough : back.length ≤ rounds) :
    cleanupLoop nowSecs rounds front.length sm = cleanup nowSecs sm := by
  induction back generalizing front rounds sm with
  | nil =>
      rw [List.append_nil] at entries
      have same : cleanup nowSecs sm = sm := by
        have all : sm.entries.filter (fun entry => !isIdle nowSecs entry.value) = sm.entries := by
          rw [List.filter_eq_self, entries]
          exact fun entry inside => by rw [busy entry inside, Bool.not_false]
        simp only [cleanup, Map.keep, all]
      have done : sm.entries[front.length]? = none := by simp [entries]
      cases rounds with
      | zero => rw [cleanupLoop, same]
      | succ rounds => rw [cleanupLoop, done, same]
  | cons entry back ih =>
      rcases rounds with _ | rounds
      · cases enough
      have here : sm.entries[front.length]? = some entry := by simp [entries]
      have enough : back.length ≤ rounds := Nat.le_of_succ_le_succ enough
      rw [cleanupLoop, here]
      by_cases idle : isIdle nowSecs entry.value = true
      · have others (other : Map.Entry (List (BitVec 8)) Session) (inside : other ∈ front ++ back) :
            other.handle ≠ entry.handle := by
          have ascends := sm.sorted
          rw [entries, List.pairwise_append, List.pairwise_cons] at ascends
          rcases List.mem_append.mp inside with before | after
          · exact (ascends.2.2 other before entry List.mem_cons_self).ne
          · exact (ascends.2.1.1 other after).ne'
        have removed : sm.entries.filter (fun other => other.handle ≠ entry.handle) =
            front ++ back := by
          rw [entries, List.filter_append, List.filter_cons_of_neg (by simp),
            ← List.filter_append, List.filter_eq_self]
          exact fun other inside => decide_eq_true (others other inside)
        simp only [if_pos idle]
        rw [ih removed busy enough]
        refine Map.eq_of_entries ?_ rfl
        change (sm.entries.filter fun other => other.handle ≠ entry.handle).filter _ =
          sm.entries.filter _
        rw [removed, entries, List.filter_append, List.filter_append,
          List.filter_cons_of_neg (by simp [idle])]
      · have longer : front.length + 1 = (front ++ [entry]).length := by simp
        simp only [if_neg idle]
        rw [longer, ih (by rw [entries]; simp) ?_ enough]
        intro other inside
        rcases List.mem_append.mp inside with before | last
        · exact busy other before
        · rw [List.mem_singleton.mp last]
          exact Bool.eq_false_of_not_eq_true idle

/-- What shifts while the loop goes on is not left out. -/
theorem cleanup_eq_loop (nowSecs : BitVec 64) (sm : SessionManager) :
    cleanup nowSecs sm = cleanupLoop nowSecs sm.entries.length 0 sm :=
  (cleanupLoop_eq (List.nil_append _).symm (by simp) (le_refl _)).symm

/-! ## What the sessions and the records have to do with each other -/

namespace History

variable {history after : History} {nowSecs : BitVec 64}
  {entry : Map.Entry (List (BitVec 8)) Session}

/-- The session is kept under its address and has its own handle. -/
structure Labelled (entry : Map.Entry (List (BitVec 8)) Session) : Prop where
  ip6 : entry.value.ip6 = entry.key
  receiveHandle : entry.value.receiveHandle_be =
    Endian.hostToBigEndian32 (BitVec.ofNat 32 entry.handle)

/-- The handle by which the session is looked up -/
theorem Labelled.host (labelled : Labelled entry) :
    Endian.bigEndianToHost32 entry.value.receiveHandle_be = BitVec.ofNat 32 entry.handle := by
  rw [labelled.receiveHandle]
  exact Endian.byteSwap32_byteSwap32 _

/-- The time of the session is the low half of the time when `getSession` returned it last. -/
def Timed (log : List Record) (entry : Map.Entry (List (BitVec 8)) Session) : Prop :=
  ∃ time, .got entry.handle time ∈ log ∧ entry.value.lastMessageTime = time.setWidth 32 ∧
    ∀ other, .got entry.handle other ∈ log → other.toNat ≤ time.toNat

structure Keeps (history : History) : Prop where
  keys : (history.sm.entries.map fun entry => entry.key).Nodup
  labelled : ∀ entry ∈ history.sm.entries, Labelled entry
  timed : ∀ entry ∈ history.sm.entries, Timed history.log entry
  past : ∀ session time, history.Returned session time →
    session < history.sm.nextHandle ∧ time.toNat ≤ history.clock.toNat
  issued : ∀ session handle, .issued session handle ∈ history.log ↔
    session < history.sm.nextHandle ∧ handle = BitVec.ofNat 32 session

theorem keeps_new (clock : BitVec 64) : (new clock).Keeps where
  keys := .nil
  labelled _ inside := by cases inside
  timed _ inside := by cases inside
  past session time returned := by
    rcases returned with got | resolved
    · cases got
    · cases resolved
  issued session handle := by simp [new, Map.empty]

theorem Keeps.indexForKey (keeps : history.Keeps) (inside : entry ∈ history.sm.entries) :
    history.sm.indexForKey entry.key = some entry := by
  have there : (history.sm.indexForKey entry.key).isSome := by
    rw [Map.indexForKey, List.find?_isSome]
    exact ⟨entry, inside, by simp⟩
  rcases Option.isSome_iff_exists.mp there with ⟨other, found⟩
  rcases Map.indexForKey_eq_some found with ⟨otherInside, same⟩
  rw [found, List.inj_on_of_nodup_map keeps.keys otherInside inside same]

/-- The test of `cleanup` where the clock is above the timeout -/
theorem isIdle_iff (above : SESSION_TIMEOUT_SECONDS < nowSecs) (session : Session) :
    isIdle nowSecs session = true ↔
      session.lastMessageTime.toNat + SESSION_TIMEOUT_SECONDS.toNat < nowSecs.toNat := by
  rw [BitVec.lt_def] at above
  have difference : (nowSecs - SESSION_TIMEOUT_SECONDS).toNat =
      nowSecs.toNat - SESSION_TIMEOUT_SECONDS.toNat :=
    BitVec.toNat_sub_of_le (BitVec.le_def.mpr above.le)
  rw [isIdle, decide_eq_true_eq, BitVec.lt_def, difference, BitVec.toNat_setWidth,
    Nat.mod_eq_of_lt (session.lastMessageTime.isLt.trans (by norm_num))]
  omega

/-- `cleanup` is right to remove a session, or leaves it alone, exactly if it is refreshed. -/
theorem Keeps.removal_iff (keeps : history.Keeps) (inside : entry ∈ history.sm.entries)
    (forward : history.clock ≤ nowSecs) (above : SESSION_TIMEOUT_SECONDS < nowSecs) :
    (isIdle nowSecs entry.value = true →
        ∀ time, history.Returned entry.handle time → ¬ Recent nowSecs time) ↔
      ((∃ time, history.Returned entry.handle time ∧ Recent nowSecs time) →
        (∃ time, .got entry.handle time ∈ history.log ∧ Recent nowSecs time) ∧
          ∀ time, .got entry.handle time ∈ history.log → time.toNat < 2 ^ 32) := by
  rcases keeps.timed entry inside with ⟨last, got, time, latest⟩
  have low : entry.value.lastMessageTime.toNat = last.toNat % 2 ^ 32 := by
    rw [time, BitVec.toNat_setWidth]
  have behind := (keeps.past entry.handle last (.inl got)).2
  rw [BitVec.le_def] at forward
  rw [isIdle_iff above, low]
  constructor
  · rintro spared ⟨time, returned, recent⟩
    have busy : ¬ last.toNat % 2 ^ 32 + SESSION_TIMEOUT_SECONDS.toNat < nowSecs.toNat :=
      fun idle => spared idle time returned recent
    have within : last.toNat < 2 ^ 32 := by
      have timeout : SESSION_TIMEOUT_SECONDS.toNat = 600 := rfl
      omega
    refine ⟨⟨last, got, ?_⟩, fun time got => (latest time got).trans_lt within⟩
    rw [Nat.mod_eq_of_lt within] at busy
    exact Nat.le_of_not_lt busy
  · intro refreshed idle time returned recent
    rcases refreshed ⟨time, returned, recent⟩ with ⟨⟨lately, gotLately, recently⟩, within⟩
    have later := latest lately gotLately
    rw [Nat.mod_eq_of_lt (within last got)] at idle
    rw [Recent] at recently
    omega

/-! ## Calls keep it so -/

theorem Keeps.cleanup (keeps : history.Keeps) (forward : history.clock ≤ nowSecs) :
    (history.perform nowSecs .cleanup).Keeps where
  keys := keeps.keys.sublist (List.filter_sublist.map _)
  labelled entry inside := keeps.labelled entry (List.mem_filter.mp inside).1
  timed entry inside := keeps.timed entry (List.mem_filter.mp inside).1
  past session time returned := by
    rcases keeps.past session time returned with ⟨known, past⟩
    exact ⟨known, past.trans (BitVec.le_def.mp forward)⟩
  issued := keeps.issued

theorem Timed.of_log {log more : List Record} (timed : Timed log entry)
    (same : ∀ time, .got entry.handle time ∈ more ↔ .got entry.handle time ∈ log) :
    Timed more entry := by
  rcases timed with ⟨time, got, low, latest⟩
  refine ⟨time, (same time).mpr got, low, fun other gotOther => ?_⟩
  exact latest other ((same other).mp gotOther)

/-- What was returned before, or is returned now, is in the past afterwards. -/
theorem Keeps.past_of (keeps : history.Keeps) (forward : history.clock ≤ nowSecs)
    (clock : after.clock = nowSecs) (grows : history.sm.nextHandle ≤ after.sm.nextHandle)
    (recorded : ∀ session time, after.Returned session time →
      history.Returned session time ∨ session < after.sm.nextHandle ∧ time = nowSecs) :
    ∀ session time, after.Returned session time →
      session < after.sm.nextHandle ∧ time.toNat ≤ after.clock.toNat := by
  intro session time returned
  rw [clock]
  rcases recorded session time returned with before | ⟨known, rfl⟩
  · rcases keeps.past session time before with ⟨known, past⟩
    exact ⟨known.trans_le grows, past.trans (BitVec.le_def.mp forward)⟩
  · exact ⟨known, le_refl _⟩

/-- A lookup that leaves the sessions alone is recorded. -/
theorem Keeps.sessionForHandle (keeps : history.Keeps) (forward : history.clock ≤ nowSecs)
    (handle : BitVec 32) : (history.perform nowSecs (.sessionForHandle handle)).Keeps := by
  have added (record : Record) : record ∈ (history.perform nowSecs (.sessionForHandle handle)).log ↔
      record ∈ history.log ∨ ∃ session, SessionManager.sessionForHandle handle history.sm =
        some session ∧ record = .resolved session nowSecs := by
    simp [perform, eq_comm]
  refine ⟨keeps.keys, keeps.labelled, ?_, ?_, ?_⟩
  · intro entry inside
    refine (keeps.timed entry inside).of_log fun time => ?_
    simp [added]
  · refine keeps.past_of forward rfl (le_refl _) fun session time returned => ?_
    rw [Returned, added, added] at returned
    rcases returned with (got | ⟨_, _, impossible⟩) | resolved | ⟨other, found, same⟩
    · exact .inl (.inl got)
    · cases impossible
    · exact .inl (.inr resolved)
    · rcases Record.resolved.inj same with ⟨rfl, rfl⟩
      rcases Option.map_eq_some_iff.mp found with ⟨entry, searched, rfl⟩
      exact .inr ⟨history.sm.below entry (Map.indexForHandle_eq_some searched), rfl⟩
  · intro session issued
    simp [keeps.issued, perform]

/-- An assignment leaves the keys alone. -/
theorem keys_modify (sm : SessionManager) (handle : ℕ) (assign : Session → Session) :
    ((sm.modify handle assign).entries.map fun entry => entry.key) =
      sm.entries.map fun entry => entry.key := by
  rw [Map.modify, List.map_map]
  refine List.map_congr_left fun entry _ => ?_
  simp only [Function.comp_apply]
  split_ifs <;> rfl

/-- What callers write to a session is not what it is found by. -/
theorem Keeps.write (keeps : history.Keeps) (forward : history.clock ≤ nowSecs) (session : ℕ)
    (wrapper : CryptoAuth.Wrapper) (sendHandle_be version : BitVec 32)
    (bufferedHeader : Option IP6Header) :
    (history.perform nowSecs
      (.write session wrapper sendHandle_be version bufferedHeader)).Keeps where
  keys := by
    rw [perform, keys_modify]
    exact keeps.keys
  labelled entry inside := by
    rcases Map.mem_modify inside with ⟨before, -⟩ | ⟨old, before, -, rfl⟩
    · exact keeps.labelled entry before
    · exact ⟨(keeps.labelled old before).ip6, (keeps.labelled old before).receiveHandle⟩
  timed entry inside := by
    rcases Map.mem_modify inside with ⟨before, -⟩ | ⟨old, before, -, rfl⟩
    · exact keeps.timed entry before
    · exact keeps.timed old before
  past := keeps.past_of forward rfl (le_refl _) fun _ _ returned => .inl returned
  issued := keeps.issued

theorem perform_of_known {lookupKey : List (BitVec 8)} (cryptoKey : Option Key)
    (found : history.sm.indexForKey lookupKey = some entry) :
    history.perform nowSecs (.getSession lookupKey cryptoKey) =
      { sm := history.sm.modify entry.handle (refresh cryptoKey nowSecs)
        clock := nowSecs
        log := history.log ++ [.got entry.handle nowSecs] } := by
  simp [perform, getSession, found]

theorem perform_of_unknown {lookupKey : List (BitVec 8)} (cryptoKey : Option Key)
    (absent : history.sm.indexForKey lookupKey = none) :
    history.perform nowSecs (.getSession lookupKey cryptoKey) =
      { sm := (SessionManager.cleanup nowSecs history.sm).push lookupKey
          (newSession lookupKey cryptoKey nowSecs history.sm.nextHandle)
        clock := nowSecs
        log := history.log ++
          [.issued history.sm.nextHandle (BitVec.ofNat 32 history.sm.nextHandle),
            .got history.sm.nextHandle nowSecs] } := by
  have gone : (SessionManager.cleanup nowSecs history.sm).indexForKey lookupKey = none :=
    Map.indexForKey_keep absent _
  simp [perform, getSession, absent, Map.put, gone]
  exact ⟨rfl, ⟨rfl, rfl⟩, rfl⟩

/-- A session that is there is refreshed. -/
theorem Keeps.known {lookupKey : List (BitVec 8)} (keeps : history.Keeps) (cryptoKey : Option Key)
    (forward : history.clock ≤ nowSecs)
    (found : history.sm.indexForKey lookupKey = some entry) :
    (history.perform nowSecs (.getSession lookupKey cryptoKey)).Keeps := by
  rcases Map.indexForKey_eq_some found with ⟨foundInside, -⟩
  rw [perform_of_known cryptoKey found]
  refine ⟨?_, ?_, ?_, ?_, ?_⟩
  · rw [keys_modify]
    exact keeps.keys
  · intro other inside
    rcases Map.mem_modify inside with ⟨before, -⟩ | ⟨old, before, -, rfl⟩
    · exact keeps.labelled other before
    · exact ⟨(keeps.labelled old before).ip6, (keeps.labelled old before).receiveHandle⟩
  · intro other inside
    rcases Map.mem_modify inside with ⟨before, different⟩ | ⟨old, before, same, rfl⟩
    · refine (keeps.timed other before).of_log fun time => ?_
      simp [different]
    · refine ⟨nowSecs, by simp [same], rfl, fun time got => ?_⟩
      rw [List.mem_append, List.mem_singleton] at got
      rcases got with earlier | now
      · exact (keeps.past _ time (.inl earlier)).2.trans (BitVec.le_def.mp forward)
      · rw [(Record.got.inj now).2]
  · refine keeps.past_of forward rfl (le_refl _) fun session time returned => ?_
    simp only [Returned, List.mem_append, List.mem_singleton, reduceCtorEq, or_false] at returned
    rcases returned with (got | now) | resolved
    · exact .inl (.inl got)
    · rcases Record.got.inj now with ⟨rfl, rfl⟩
      exact .inr ⟨history.sm.below entry foundInside, rfl⟩
    · exact .inl (.inr resolved)
  · intro session handle
    simp [keeps.issued, Map.modify]

/-- A new session comes after those that are left. -/
theorem Keeps.unknown {lookupKey : List (BitVec 8)} (keeps : history.Keeps) (cryptoKey : Option Key)
    (forward : history.clock ≤ nowSecs)
    (absent : history.sm.indexForKey lookupKey = none) :
    (history.perform nowSecs (.getSession lookupKey cryptoKey)).Keeps := by
  rw [perform_of_unknown cryptoKey absent]
  have unused : ∀ entry ∈ history.sm.entries, entry.key ≠ lookupKey := by
    rw [Map.indexForKey, List.find?_eq_none] at absent
    simpa using absent
  have older (entry : Map.Entry (List (BitVec 8)) Session) (inside : entry ∈ history.sm.entries) :
      entry.handle ≠ history.sm.nextHandle := (history.sm.below entry inside).ne
  have pushed (other : Map.Entry (List (BitVec 8)) Session)
      (inside : other ∈ ((SessionManager.cleanup nowSecs history.sm).push lookupKey
        (newSession lookupKey cryptoKey nowSecs history.sm.nextHandle)).entries) :
      other ∈ history.sm.entries ∨ other =
        { handle := history.sm.nextHandle
          key := lookupKey
          value := newSession lookupKey cryptoKey nowSecs history.sm.nextHandle } := by
    rcases List.mem_append.mp inside with before | last
    · exact .inl (List.mem_filter.mp before).1
    · exact .inr (List.mem_singleton.mp last)
  refine ⟨?_, ?_, ?_, ?_, ?_⟩
  · rw [Map.push, List.map_append, List.map_singleton, List.nodup_append]
    refine ⟨keeps.keys.sublist (List.filter_sublist.map _), List.nodup_singleton _, ?_⟩
    intro key before last only same
    rcases List.mem_map.mp before with ⟨entry, inside, rfl⟩
    rw [List.mem_singleton.mp only] at same
    exact unused entry (List.mem_filter.mp inside).1 same
  · intro other inside
    rcases pushed other inside with before | rfl
    · exact keeps.labelled other before
    · exact ⟨rfl, rfl⟩
  · intro other inside
    rcases pushed other inside with before | rfl
    · refine (keeps.timed other before).of_log fun time => ?_
      simp [older other before]
    · refine ⟨nowSecs, by simp, rfl, fun time got => ?_⟩
      simp only [List.mem_append, List.mem_cons, List.not_mem_nil, reduceCtorEq, or_false,
        false_or] at got
      rcases got with earlier | now
      · exact absurd (keeps.past _ time (.inl earlier)).1 (Nat.lt_irrefl _)
      · rw [(Record.got.inj now).2]
  · refine keeps.past_of forward rfl (Nat.le_succ _) fun session time returned => ?_
    simp only [Returned, List.mem_append, List.mem_cons, List.not_mem_nil, reduceCtorEq, or_false,
      false_or] at returned
    rcases returned with (got | now) | resolved
    · exact .inl (.inl got)
    · rcases Record.got.inj now with ⟨rfl, rfl⟩
      exact .inr ⟨Nat.lt_succ_self _, rfl⟩
    · exact .inl (.inr resolved)
  · intro session handle
    simp only [List.mem_append, List.mem_cons, List.not_mem_nil, reduceCtorEq, or_false,
      keeps.issued, Record.issued.injEq]
    change _ ↔ session < history.sm.nextHandle + 1 ∧ _
    rw [Nat.lt_succ_iff_lt_or_eq, or_and_right]
    refine or_congr_right (and_congr_right fun same => ?_)
    rw [same]

theorem Keeps.perform (keeps : history.Keeps) (forward : history.clock ≤ nowSecs) (call : Call) :
    (history.perform nowSecs call).Keeps := by
  cases call with
  | getSession lookupKey cryptoKey =>
      cases found : history.sm.indexForKey lookupKey with
      | none => exact keeps.unknown cryptoKey forward found
      | some entry => exact keeps.known cryptoKey forward found
  | sessionForHandle handle => exact keeps.sessionForHandle forward handle
  | cleanup => exact keeps.cleanup forward
  | write session wrapper sendHandle_be version bufferedHeader =>
      exact keeps.write forward session wrapper sendHandle_be version bufferedHeader

/-! ## Lookups -/

/-- As long as no handle was given out twice, every session is found. -/
theorem Keeps.resolves (keeps : history.Keeps) (bounded : history.sm.nextHandle ≤ 2 ^ 32) :
    history.Resolves where
  byAddress entry inside cryptoKey nowSecs := by
    rw [(keeps.labelled entry inside).ip6, getSession, keeps.indexForKey inside]
  byHandle entry inside := by
    rw [(keeps.labelled entry inside).host, SessionManager.sessionForHandle,
      Map.indexForHandle_of_mem inside bounded, Option.map_some]
  unique handle session found other issued := by
    rcases Option.map_eq_some_iff.mp found with ⟨entry, searched, rfl⟩
    have own := Map.handle_of_indexForHandle searched
    have known := history.sm.below entry (Map.indexForHandle_eq_some searched)
    rcases (keeps.issued other handle).mp issued with ⟨given, same⟩
    have equal := congrArg BitVec.toNat (same.symm.trans own.symm)
    rwa [BitVec.toNat_ofNat, BitVec.toNat_ofNat, Nat.mod_eq_of_lt (given.trans_le bounded),
      Nat.mod_eq_of_lt (known.trans_le bounded)] at equal

/-- A session that is created with a handle that was given out before cannot be looked up. -/
theorem Keeps.lt_of_resolves (keeps : history.Keeps) (resolves : history.Resolves)
    (inside : entry ∈ history.sm.entries) : entry.handle < 2 ^ 32 := by
  by_contra truncated
  have found := resolves.byHandle entry inside
  rw [(keeps.labelled entry inside).host] at found
  have known := history.sm.below entry inside
  have first : .issued (entry.handle - 2 ^ 32) (BitVec.ofNat 32 entry.handle) ∈ history.log := by
    refine (keeps.issued _ _).mpr ⟨by omega, BitVec.eq_of_toNat_eq ?_⟩
    rw [BitVec.toNat_ofNat, BitVec.toNat_ofNat]
    omega
  have same := resolves.unique _ _ found _ first
  omega

/-! ## Steps and runs -/

theorem mem_cleanup : entry ∈ (SessionManager.cleanup nowSecs history.sm).entries ↔
    entry ∈ history.sm.entries ∧ isIdle nowSecs entry.value = false := by
  simp [SessionManager.cleanup, Map.keep]

/-- Where the sessions are those that `cleanup` leaves, and some that are new -/
theorem Keeps.removesIdle_iff (keeps : history.Keeps) (forward : history.clock ≤ nowSecs)
    (above : SESSION_TIMEOUT_SECONDS < nowSecs)
    (left : ∀ entry ∈ history.sm.entries,
      (∀ other ∈ after.sm.entries, other.handle ≠ entry.handle) ↔
        isIdle nowSecs entry.value = true) :
    history.RemovesIdle nowSecs after ↔ history.Refreshed nowSecs := by
  refine forall₂_congr fun entry inside => ?_
  rw [left entry inside]
  exact keeps.removal_iff inside forward above

theorem removesIdle_of_kept
    (kept : ∀ entry ∈ history.sm.entries, ∃ other ∈ after.sm.entries, other.handle = entry.handle) :
    history.RemovesIdle nowSecs after := by
  intro entry inside gone
  rcases kept entry inside with ⟨other, there, same⟩
  exact absurd same (gone other there)

/-- `cleanup` takes away a session exactly if it is idle. -/
theorem gone_iff (inside : entry ∈ history.sm.entries) :
    (∀ other ∈ (SessionManager.cleanup nowSecs history.sm).entries, other.handle ≠ entry.handle) ↔
      isIdle nowSecs entry.value = true := by
  constructor
  · intro gone
    by_contra busy
    exact gone entry (mem_cleanup.mpr ⟨inside, Bool.eq_false_of_not_eq_true busy⟩) rfl
  · intro idle other there same
    rcases mem_cleanup.mp there with ⟨otherInside, busy⟩
    rw [Map.eq_of_handle_eq otherInside inside same, idle] at busy
    cases busy

/-- Every session is still there after an assignment. -/
theorem kept_modify (handle : ℕ) (assign : Session → Session)
    (inside : entry ∈ history.sm.entries) :
    ∃ other ∈ (history.sm.modify handle assign).entries, other.handle = entry.handle := by
  refine ⟨_, Map.mem_modify_of_mem assign inside, ?_⟩
  split_ifs <;> rfl

/-- A call that meets the condition gives out no handle twice. -/
theorem nextHandle_le (bounded : history.sm.nextHandle ≤ 2 ^ 32) {call : Call}
    (meets : history.Meets nowSecs call) :
    (history.perform nowSecs call).sm.nextHandle ≤ 2 ^ 32 := by
  cases call with
  | getSession lookupKey cryptoKey =>
      cases found : history.sm.indexForKey lookupKey with
      | none =>
          rw [perform_of_unknown cryptoKey found]
          exact (meets found).2
      | some entry =>
          rw [perform_of_known cryptoKey found]
          exact bounded
  | sessionForHandle handle => exact bounded
  | cleanup => exact bounded
  | write session wrapper sendHandle_be version bufferedHeader => exact bounded

/-- A new session is all right exactly if the others are refreshed and its handle is new. -/
theorem Keeps.unknown_iff {lookupKey : List (BitVec 8)} (keeps : history.Keeps)
    (cryptoKey : Option Key) (forward : history.clock ≤ nowSecs)
    (above : SESSION_TIMEOUT_SECONDS < nowSecs)
    (absent : history.sm.indexForKey lookupKey = none) :
    (history.RemovesIdle nowSecs (history.perform nowSecs (.getSession lookupKey cryptoKey)) ∧
      (history.perform nowSecs (.getSession lookupKey cryptoKey)).Resolves) ↔
      history.Refreshed nowSecs ∧ history.sm.nextHandle < 2 ^ 32 := by
  have after := keeps.perform forward (.getSession lookupKey cryptoKey)
  rw [perform_of_unknown cryptoKey absent] at after ⊢
  refine and_congr (keeps.removesIdle_iff forward above fun entry inside => ?_) ⟨?_, ?_⟩
  · rw [← gone_iff inside]
    refine ⟨fun gone other there => gone other (List.mem_append_left _ there), ?_⟩
    intro gone other there
    rcases List.mem_append.mp there with before | last
    · exact gone other before
    · rw [List.mem_singleton.mp last]
      exact (history.sm.below entry inside).ne'
  · intro resolves
    exact after.lt_of_resolves resolves (List.mem_append_right _ (List.mem_singleton_self _))
  · intro small
    exact after.resolves small

/-- One call -/
theorem Keeps.meets_iff (keeps : history.Keeps) (bounded : history.sm.nextHandle ≤ 2 ^ 32)
    (forward : history.clock ≤ nowSecs) (above : SESSION_TIMEOUT_SECONDS < nowSecs) (call : Call) :
    (history.RemovesIdle nowSecs (history.perform nowSecs call) ∧
      (history.perform nowSecs call).Resolves) ↔ history.Meets nowSecs call := by
  have after := keeps.perform forward call
  cases call with
  | getSession lookupKey cryptoKey =>
      cases found : history.sm.indexForKey lookupKey with
      | none =>
          rw [keeps.unknown_iff cryptoKey forward above found]
          exact ⟨fun meets _ => meets, fun meets => meets found⟩
      | some entry =>
          rw [perform_of_known cryptoKey found] at after ⊢
          refine iff_of_true ⟨removesIdle_of_kept fun other inside => ?_, after.resolves bounded⟩ ?_
          · exact kept_modify _ _ inside
          · intro absent
            rw [found] at absent
            cases absent
  | sessionForHandle handle =>
      refine iff_of_true ⟨removesIdle_of_kept fun entry inside => ?_, ?_⟩ trivial
      · exact ⟨entry, inside, rfl⟩
      · exact after.resolves bounded
  | cleanup =>
      rw [and_iff_left (after.resolves bounded)]
      exact keeps.removesIdle_iff forward above fun entry inside => gone_iff inside
  | write session wrapper sendHandle_be version bufferedHeader =>
      refine iff_of_true ⟨removesIdle_of_kept fun entry inside => ?_, ?_⟩ trivial
      · exact kept_modify _ _ inside
      · exact after.resolves bounded

theorem Correct.resolves {calls : List (BitVec 64 × Call)} (correct : history.Correct calls) :
    history.Resolves := by
  cases calls with
  | nil => exact correct
  | cons call calls => exact correct.1

/-- A sequence of calls -/
theorem Keeps.correct_iff (keeps : history.Keeps) (bounded : history.sm.nextHandle ≤ 2 ^ 32)
    (calls : List (BitVec 64 × Call)) : history.Correct calls ↔ history.AllMeet calls := by
  induction calls generalizing history with
  | nil => exact iff_of_true (keeps.resolves bounded) trivial
  | cons first calls ih =>
      rcases first with ⟨nowSecs, call⟩
      rw [Correct, AllMeet, and_iff_right (keeps.resolves bounded)]
      refine forall₂_congr fun after steps => ?_
      rw [step] at steps
      split_ifs at steps with clock
      rw [← Option.some.inj steps]
      have one := keeps.meets_iff bounded clock.1 clock.2 call
      have next := keeps.perform clock.1 call
      constructor
      · rintro ⟨removes, correct⟩
        have meets := one.mp ⟨removes, correct.resolves⟩
        exact ⟨meets, (ih next (nextHandle_le bounded meets)).mp correct⟩
      · rintro ⟨meets, others⟩
        exact ⟨(one.mpr meets).1, (ih next (nextHandle_le bounded meets)).mpr others⟩

/-- Sessions expire as they should exactly if every session that was returned lately was returned by
`getSession` lately whenever sessions are cleaned up, and neither the clock nor the handles outgrow
32 bits. -/
theorem expiry_iff (clock : BitVec 64) (calls : List (BitVec 64 × Call)) :
    (new clock).Correct calls ↔ (new clock).AllMeet calls :=
  (keeps_new clock).correct_iff (Nat.zero_le _) calls

/-! ## A session that is in use -/

/-- A session that was looked up by its handle a hundred seconds ago -/
def lookedUp : List (BitVec 64 × Call) :=
  [(1000, .getSession (List.replicate 16 0) none), (1550, .sessionForHandle 0), (1650, .cleanup)]

/-- The session is gone, though its handle led to it a hundred seconds before. -/
theorem session_in_use_removed : ¬ (new 1000).Correct lookedUp := by
  intro correct
  have created := (correct.2 _ (if_pos (by decide))).2
  have found := (created.2 _ (if_pos (by decide))).2
  have removes := (found.2 _ (if_pos (by decide))).1
  refine removes
    { handle := 0
      key := List.replicate 16 0
      value := newSession (List.replicate 16 0) none 1000 0 } List.mem_cons_self ?_ 1550 ?_ ?_
  · intro other there
    cases there
  · exact .inr (by decide)
  · exact (by decide : (1650#64).toNat ≤ (1550#64).toNat + SESSION_TIMEOUT_SECONDS.toNat)

end History

end Cjdns.SessionManager
