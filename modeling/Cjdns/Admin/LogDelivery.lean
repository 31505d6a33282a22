import Cjdns.Admin.AdminLog
import Cjdns.Library.Transition
import Mathlib.Data.List.TakeWhile

/-!
# Delivery of the log

The one message of a line has the stream id of the first subscription that matches, and a
removal moves a subscription past the index of the loop. So a line is delivered as it should be if
it is for one subscription at most. That one must not be the last of several if it fails, and
its filter must not have been turned into an address that is not the one of the path.
-/

namespace Cjdns.AdminLog

variable (literals : Literals)

/-! ## What a line should do -/

/-- The line is for whoever asks for this. -/
def Wants (line : Line) (asked : Filter) : Prop :=
  asked.level.code ≤ line.logLevel.code ∧
    (asked.line = 0 ∨ asked.line.toInt = line.line.toNat) ∧
      ∀ name ∈ asked.file, lastComponent (literals.text line.fullFilePath) = name

instance (line : Line) (asked : Filter) : Decidable (Wants literals line asked) :=
  inferInstanceAs (Decidable (_ ∧ _ ∧ _))

/-- A message can be sent to the client of the subscription. -/
def Open (clock : BitVec 64) (line : Line) (admin : Admin) (subscription : Subscription) : Prop :=
  (admin.sendMessage clock .nil subscription.txid).delivered.isSome ∧
    line.accepts (subscription.txid.take admin.addrLen)

instance (clock : BitVec 64) (line : Line) (admin : Admin) (subscription : Subscription) :
    Decidable (Open clock line admin subscription) :=
  inferInstanceAs (Decidable (_ ∧ _))

/-- The message that a subscription should be sent, with the address -/
def messageTo (line : Line) (admin : Admin) (subscription : Subscription) : BString × Dict :=
  (subscription.txid.take admin.addrLen,
    let message := makeLogMessage literals line subscription
    if subscription.txid.length > admin.addrLen then
      message.putObject Admin.TXID (.string (subscription.txid.drop admin.addrLen))
    else message)

/-- The message has the stream id for its tag. -/
def Tagged (streamId : BString) (sent : BString × Dict) : Prop :=
  sent.2.getString STREAM_ID = some (Hex.encode streamId)

instance (streamId : BString) (sent : BString × Dict) : Decidable (Tagged streamId sent) :=
  inferInstanceAs (Decidable (_ = _))

/-- What a subscription keeps of itself when a line goes by -/
def Subscription.identity (subscription : Subscription) : BString × BString × Filter :=
  (subscription.txid, subscription.streamId, subscription.asked)

/-- The line comes to every open subscription that it is for, once and with the tag of the
subscription, and those that it is for and that are not open are removed. -/
def Delivers (clock : BitVec 64) (line : Line) (log : AdminLog) (admin : Admin) : Prop :=
  ∃ after, log.doLog literals clock line admin = some after ∧
    (∀ subscription ∈ log.subscriptions, Wants literals line subscription.asked →
      Open clock line admin subscription →
        after.sent.filter (fun sent => Tagged subscription.streamId sent) =
          [messageTo literals line admin subscription]) ∧
    (after.subscriptions.map Subscription.identity).Perm
      ((log.subscriptions.filter fun subscription =>
        ¬ (Wants literals line subscription.asked ∧ ¬ Open clock line admin subscription)).map
          Subscription.identity)

/-- Removing the subscription does not copy it onto itself. -/
def Removable (index : ℕ) (log : AdminLog) : Prop :=
  log.subscriptions.length = 1 ∨ index + 1 < log.subscriptions.length

instance (index : ℕ) (log : AdminLog) : Decidable (Removable index log) :=
  inferInstanceAs (Decidable (_ ∨ _))

/-- The line is for one subscription at most, which can be removed if it has to be, and whose filter
is not an address other than that of the path. -/
structure CarefulLine (clock : BitVec 64) (line : Line) (log : AdminLog) (admin : Admin) : Prop where
  alone : ∀ (one two : ℕ) (first second : Subscription), log.subscriptions[one]? = some first →
    log.subscriptions[two]? = some second → Wants literals line first.asked →
      Wants literals line second.asked → one = two
  removable : ∀ index subscription, log.subscriptions[index]? = some subscription →
    Wants literals line subscription.asked → ¬ Open clock line admin subscription →
      Removable index log
  internal : ∀ subscription ∈ log.subscriptions, ∀ address,
    subscription.file = some (.internal address) → Wants literals line subscription.asked →
      line.fullFilePath = address

/-! ## Filters -/

/-- The address is that of a name without a path. -/
def IsShort (address : ℕ) : Prop :=
  lastComponent (literals.text address) = literals.text address

/-- The file filter of a subscription says what was asked for. -/
def NameKept (asked : Option BString) : Option FileName → Prop
  | none => asked = none
  | some (.copied name) => asked = some name
  | some (.internal address) => asked = some (literals.text address) ∧ IsShort literals address

/-- A subscription has the filter that was asked for. -/
structure Kept (subscription : Subscription) : Prop where
  level : subscription.level = subscription.asked.level
  line : subscription.lineNum.toInt = subscription.asked.line.toInt
  bounded : 0 ≤ subscription.asked.line.toInt ∧ subscription.asked.line.toInt < 2 ^ 30
  name : NameKept literals subscription.asked.file subscription.file

variable {literals} {line : Line} {subscription : Subscription} {clock : BitVec 64}

theorem lastComponent_suffix (path : BString) : lastComponent path <:+ path := by
  have front : path.reverse.takeWhile (fun character : BitVec 8 => decide (character ≠ 0x2F)) <+:
      path.reverse := List.takeWhile_prefix _
  have whole := front.reverse
  rwa [List.reverse_reverse] at whole

@[simp]
theorem lastComponent_lastComponent (path : BString) :
    lastComponent (lastComponent path) = lastComponent path := by
  rw [lastComponent, lastComponent, List.reverse_reverse, List.takeWhile_idem]

/-- A short name is the last component of the path. -/
@[simp]
theorem text_getShortName (address : ℕ) :
    literals.text (literals.getShortName address) = lastComponent (literals.text address) := by
  rw [Literals.getShortName, literals.text_add _ _ (Nat.sub_le _ _)]
  exact (List.suffix_iff_eq_drop.mp (lastComponent_suffix _)).symm

theorem isShort_getShortName (address : ℕ) : IsShort literals (literals.getShortName address) := by
  rw [IsShort, text_getShortName, lastComponent_lastComponent]

variable (literals line) in
/-- The name of a subscription, if there is one, is that of the line. -/
def IsNamed : Option FileName → Prop
  | none => True
  | some (.internal address) => line.fullFilePath = address
  | some (.copied name) => lastComponent (literals.text line.fullFilePath) = name

/-- `isMatch` agrees with the filter, unless a name has become an address. -/
theorem Kept.isMatch_iff (kept : Kept literals subscription)
    (internal : ∀ address, subscription.file = some (.internal address) →
      Wants literals line subscription.asked → line.fullFilePath = address) :
    isMatch literals line subscription = true ↔ Wants literals line subscription.asked := by
  have level : (!decide (line.logLevel.code < subscription.level.code)) = true ↔
      subscription.asked.level.code ≤ line.logLevel.code := by
    rw [kept.level]
    simp
  have number : (subscription.lineNum = 0 ∨ line.line.toInt = subscription.lineNum.toInt) ↔
      (subscription.asked.line = 0 ∨ subscription.asked.line.toInt = line.line.toNat) := by
    have zero : subscription.lineNum = 0 ↔ subscription.asked.line = 0 := by
      rw [← BitVec.toInt_inj, ← BitVec.toInt_inj, kept.line]
      rfl
    rw [zero, kept.line]
    have bounded := kept.bounded
    have sign := BitVec.toInt_eq_toNat_cond line.line
    have small := line.line.isLt
    refine or_congr_right ⟨fun same => ?_, fun same => ?_⟩
    · split_ifs at sign <;> omega
    · split_ifs at sign <;> omega
  have split : isMatch literals line subscription = true ↔
      IsNamed literals line subscription.file ∧
      subscription.asked.level.code ≤ line.logLevel.code ∧
        (subscription.asked.line = 0 ∨ subscription.asked.line.toInt = line.line.toNat) := by
    rw [isMatch, Bool.and_eq_true, Bool.and_eq_true, level, Bool.or_eq_true, decide_eq_true_eq,
      decide_eq_true_eq, number, and_assoc]
    refine and_congr_left fun _ => ?_
    cases subscription.file with
    | none => simp [IsNamed]
    | some name => cases name <;> simp [IsNamed]
  rw [split]
  have name := kept.name
  cases file : subscription.file with
  | none =>
      rw [file] at name
      simp [IsNamed, Wants, show subscription.asked.file = none from name]
  | some fileName =>
      cases fileName with
      | copied text =>
          rw [file] at name
          simp only [IsNamed, Wants, show subscription.asked.file = some text from name,
            Option.mem_def, Option.some.injEq, forall_eq']
          tauto
      | internal address =>
          rw [file] at name
          rcases name with ⟨asked, short⟩
          constructor
          · rintro ⟨rfl, level, number⟩
            refine ⟨level, number, fun text given => ?_⟩
            rw [asked, Option.mem_def, Option.some.injEq] at given
            rw [← given]
            exact short
          · intro wants
            exact ⟨internal address file wants, wants.1, wants.2.1⟩

@[simp]
theorem identity_swapName : (swapName literals line subscription).identity =
    subscription.identity := by
  unfold swapName
  split
  · dsimp only
    split_ifs <;> rfl
  · rfl

theorem Kept.swapName (kept : Kept literals subscription) :
    Kept literals (swapName literals line subscription) := by
  unfold AdminLog.swapName
  split
  next text file =>
    dsimp only
    split_ifs with same
    · have name := kept.name
      rw [file] at name
      refine ⟨kept.level, kept.line, kept.bounded, ?_, isShort_getShortName _⟩
      rw [same]
      exact name
    · exact kept
  next => exact kept

/-! ## The loop -/

/-- The subscriptions have the filters that were asked for, and the names of files are short. -/
structure Sound (literals : Literals) (subscriptions : List Subscription)
    (fileNames : ℕ → Option ℕ) : Prop where
  kept : ∀ subscription ∈ subscriptions, Kept literals subscription
  short : ∀ index, ∀ address ∈ fileNames index, IsShort literals address

variable {logging after : Logging} {index : ℕ}

theorem short_rememberName {fileNames : ℕ → Option ℕ}
    (short : ∀ index, ∀ address ∈ fileNames index, IsShort literals address) :
    ∀ index, ∀ address ∈ rememberName literals line subscription fileNames index,
      IsShort literals address := by
  rcases file : subscription.file with _ | name | address
  · simpa only [rememberName, file] using short
  · simp only [rememberName, file]
    split_ifs
    · intro index address
      generalize List.find? _ (List.range FILE_NAME_COUNT) = found
      cases found with
      | none => exact short index address
      | some place =>
          dsimp only
          split_ifs
          · exact short index address
          · intro inside
            by_cases next : index = (place + 1) % FILE_NAME_COUNT
            · subst next
              simp at inside
            · rw [Function.update_of_ne next] at inside
              by_cases here : index = place
              · subst here
                rw [Function.update_self, Option.mem_def, Option.some.injEq] at inside
                exact inside ▸ isShort_getShortName _
              · rw [Function.update_of_ne here] at inside
                exact short index address inside
    · exact short
  · simpa only [rememberName, file] using short

/-- The subscriptions after `isMatch` has looked at one of them -/
theorem map_identity_set (literals : Literals) (line : Line)
    (found : logging.subscriptions[index]? = some subscription) :
    (logging.subscriptions.set index (swapName literals line subscription)).map
      Subscription.identity = logging.subscriptions.map Subscription.identity := by
  rcases List.getElem?_eq_some_iff.mp found with ⟨inside, rfl⟩
  have mapped : index < (logging.subscriptions.map Subscription.identity).length := by
    rwa [List.length_map]
  rw [List.map_set, identity_swapName, ← List.getElem_map Subscription.identity,
    List.set_getElem_self mapped]
  exact mapped

theorem Sound.look (sound : Sound literals logging.subscriptions logging.fileNames) (line : Line)
    (found : logging.subscriptions[index]? = some subscription) :
    Sound literals (logging.subscriptions.set index (swapName literals line subscription))
      (rememberName literals line subscription logging.fileNames) := by
  refine ⟨fun other inside => ?_, short_rememberName sound.short⟩
  rcases List.mem_or_eq_of_mem_set inside with earlier | rfl
  · exact sound.kept other earlier
  · exact (sound.kept subscription (List.mem_of_getElem? found)).swapName

/-- Subscriptions that do not match let the line pass. -/
theorem logLoop_of_quiet (clock : BitVec 64) (rounds : ℕ)
    (sound : Sound literals logging.subscriptions logging.fileNames)
    (quiet : ∀ place subscription, index ≤ place →
      logging.subscriptions[place]? = some subscription →
        isMatch literals line subscription = false) :
    ∃ after, logLoop literals clock line rounds index logging = some after ∧
      after.sent = logging.sent ∧ Sound literals after.subscriptions after.fileNames ∧
        after.subscriptions.map Subscription.identity =
          logging.subscriptions.map Subscription.identity := by
  induction rounds generalizing index logging with
  | zero => exact ⟨logging, rfl, rfl, sound, rfl⟩
  | succ rounds ih =>
      rw [logLoop]
      cases found : logging.subscriptions[index]? with
      | none => exact ⟨logging, rfl, rfl, sound, rfl⟩
      | some subscription =>
          have passes := quiet index subscription le_rfl found
          simp only [offer, passes, Bool.false_eq_true, if_false]
          rcases @ih { logging with
            subscriptions := logging.subscriptions.set index (swapName literals line subscription)
            fileNames := rememberName literals line subscription logging.fileNames } (index + 1)
            (sound.look line found) (fun place other later inside => by
              rw [List.getElem?_set_ne (by omega)] at inside
              exact quiet place other (by omega) inside) with ⟨after, runs, sent, sound, same⟩
          exact ⟨after, runs, sent, sound, same.trans (map_identity_set literals line found)⟩

/-- Whether a message can be sent does not depend on the message. -/
theorem delivered_eq (clock : BitVec 64) (admin : Admin) (message : Dict) (txid : BString) :
    (admin.sendMessage clock message txid).delivered =
      if (admin.sendMessage clock .nil txid).delivered.isSome then
        (admin.deliver message txid).delivered
      else none := by
  by_cases busy : admin.inRequest
  · simp [Admin.sendMessage, busy, Admin.deliver]
  · cases known : admin.map (txid.take admin.addrLen) with
    | none => simp [Admin.sendMessage, busy, known]
    | some time =>
        by_cases expired : Admin.isExpired clock time
        · simp [Admin.sendMessage, busy, known, expired]
        · simp [Admin.sendMessage, busy, known, expired, Admin.deliver]

/-- What offering a line to a subscription that matches comes to, if it is the first that does -/
theorem offer_of_match (clock : BitVec 64) (index : ℕ)
    (matched : isMatch literals line subscription = true)
    (fresh : logging.message = none) :
    let offered := offer literals clock line index subscription logging
    offered.logging.subscriptions =
        logging.subscriptions.set index (swapName literals line subscription) ∧
      offered.logging.fileNames = rememberName literals line subscription logging.fileNames ∧
      if Open clock line logging.admin subscription then
        offered.failed = false ∧
          offered.logging.sent =
            logging.sent ++ [messageTo literals line logging.admin subscription]
      else offered.failed = true ∧ offered.logging.sent = logging.sent := by
  have delivered := delivered_eq clock logging.admin
    (makeLogMessage literals line subscription) subscription.txid
  by_cases sends : (logging.admin.sendMessage clock .nil subscription.txid).delivered.isSome
  · rw [if_pos sends] at delivered
    simp only [offer, matched, if_true, fresh, Option.getD_none, delivered, Admin.deliver, Open,
      sends, true_and]
    by_cases accepted : line.accepts (subscription.txid.take logging.admin.addrLen) = true
    · simp only [accepted, if_true, messageTo]
      exact ⟨trivial, trivial, trivial, trivial⟩
    · simp only [accepted, Bool.false_eq_true, if_false]
      exact ⟨trivial, trivial, trivial, trivial⟩
  · rw [if_neg sends] at delivered
    have closed : ¬ Open clock line logging.admin subscription := fun can => sends can.1
    simp only [closed, if_false, offer, matched, if_true, fresh, Option.getD_none, delivered]
    exact ⟨trivial, trivial, trivial, trivial⟩

/-- Removing a subscription, as to who is left -/
def dropIdentity {α : Type*} (index : ℕ) (identities : List α) : List α :=
  if identities.length = 1 then [] else SwapRemove.swapRemove index identities

theorem removeSubscription_of_removable {subscriptions : List Subscription}
    (removable : subscriptions.length = 1 ∨ index + 1 < subscriptions.length) :
    removeSubscription index subscriptions = some (dropIdentity index subscriptions) := by
  unfold removeSubscription dropIdentity
  split_ifs with one last
  · rfl
  · omega
  · rfl

theorem map_dropIdentity {α β : Type*} (assign : α → β) (elements : List α) :
    (dropIdentity index elements).map assign = dropIdentity index (elements.map assign) := by
  unfold dropIdentity
  rw [List.length_map]
  split_ifs
  · rfl
  · exact SwapRemove.map_swapRemove assign index elements

theorem mem_of_mem_dropIdentity {α : Type*} {elements : List α} {element : α}
    (inside : element ∈ dropIdentity index elements) : element ∈ elements := by
  unfold dropIdentity at inside
  split_ifs at inside
  · cases inside
  · exact SwapRemove.mem_of_mem_swapRemove inside

theorem perm_dropIdentity {α : Type*} {elements : List α} {element : α}
    (found : elements[index]? = some element) :
    (element :: dropIdentity index elements).Perm elements := by
  unfold dropIdentity
  split_ifs with one
  · rcases List.length_eq_one_iff.mp one with ⟨only, rfl⟩
    rcases List.getElem?_eq_some_iff.mp found with ⟨inside, rfl⟩
    have first : index = 0 := by simpa using inside
    subst first
    rfl
  · exact SwapRemove.cons_swapRemove_perm found

/-- Behind the place of the removal, nothing new appears. -/
theorem getElem?_dropIdentity {α : Type*} {elements : List α} {element : α} {place : ℕ}
    (behind : index < place) (found : (dropIdentity index elements)[place]? = some element) :
    elements[place]? = some element := by
  unfold dropIdentity at found
  split_ifs at found with one
  · simp at found
  · rcases List.eq_nil_or_concat' elements with rfl | ⟨front, last, rfl⟩
    · simp at found
    · rw [SwapRemove.swapRemove_concat, List.getElem?_set_ne behind.ne] at found
      rw [List.getElem?_append_left (List.getElem?_eq_some_iff.mp found).1]
      exact found

/-- A line that is for one subscription is sent to it, or that one is removed. -/
theorem logLoop_of_alone (clock : BitVec 64) {rounds place : ℕ} (here : index ≤ place)
    (sound : Sound literals logging.subscriptions logging.fileNames)
    (enough : logging.subscriptions.length ≤ rounds + index)
    (found : logging.subscriptions[place]? = some subscription)
    (matched : isMatch literals line subscription = true)
    (others : ∀ other next, index ≤ other → other ≠ place →
      logging.subscriptions[other]? = some next → isMatch literals line next = false)
    (fresh : logging.message = none)
    (removable : ¬ Open clock line logging.admin subscription →
      logging.subscriptions.length = 1 ∨ place + 1 < logging.subscriptions.length) :
    ∃ after, logLoop literals clock line rounds index logging = some after ∧
      Sound literals after.subscriptions after.fileNames ∧
      if Open clock line logging.admin subscription then
        after.sent = logging.sent ++ [messageTo literals line logging.admin subscription] ∧
          after.subscriptions.map Subscription.identity =
            logging.subscriptions.map Subscription.identity
      else
        after.sent = logging.sent ∧ after.subscriptions.map Subscription.identity =
          dropIdentity place (logging.subscriptions.map Subscription.identity) := by
  have inside := (List.getElem?_eq_some_iff.mp found).1
  induction rounds generalizing index logging with
  | zero => omega
  | succ rounds ih =>
      rw [logLoop]
      by_cases at_place : index = place
      · subst at_place
        rw [found]
        dsimp only
        rcases offer_of_match clock index matched fresh with
          ⟨subscriptions, fileNames, outcome⟩
        generalize offer literals clock line index subscription logging = offered at *
        have looked := sound.look line found
        rw [← subscriptions, ← fileNames] at looked
        have same := map_identity_set literals line found
        rw [← subscriptions] at same
        have rest (other : ℕ) (next : Subscription) (later : index + 1 ≤ other)
            (inside : offered.logging.subscriptions[other]? = some next) :
            isMatch literals line next = false := by
          rw [subscriptions, List.getElem?_set_ne (by omega)] at inside
          exact others other next (by omega) (by omega) inside
        by_cases sends : Open clock line logging.admin subscription
        · simp only [sends, if_true] at outcome ⊢
          simp only [outcome.1, Bool.false_eq_true, if_false]
          rcases logLoop_of_quiet clock rounds looked rest with
            ⟨after, runs, sent, sound, kept⟩
          exact ⟨after, runs, sound, sent.trans outcome.2, kept.trans same⟩
        · simp only [sends, if_false] at outcome ⊢
          simp only [outcome.1, if_true]
          have length : offered.logging.subscriptions.length = logging.subscriptions.length := by
            rw [subscriptions, List.length_set]
          have room := removable sends
          rw [← length] at room
          rw [removeSubscription_of_removable room, Option.bind_some]
          have dropped : Sound literals (dropIdentity index offered.logging.subscriptions)
              offered.logging.fileNames :=
            ⟨fun next inside => looked.kept next (mem_of_mem_dropIdentity inside), looked.short⟩
          let removed : Logging := { offered.logging with
            subscriptions := dropIdentity index offered.logging.subscriptions }
          have quiet (other : ℕ) (next : Subscription) (later : index + 1 ≤ other)
              (inside : removed.subscriptions[other]? = some next) :
              isMatch literals line next = false :=
            rest other next later (getElem?_dropIdentity (by omega) inside)
          have dropped : Sound literals removed.subscriptions removed.fileNames := dropped
          rcases logLoop_of_quiet clock rounds dropped quiet with ⟨after, runs, sent, sound, kept⟩
          refine ⟨after, runs, sound, sent.trans outcome.2, kept.trans ?_⟩
          rw [map_dropIdentity, same]
      · cases first : logging.subscriptions[index]? with
        | none =>
            have past := List.getElem?_eq_none_iff.mp first
            omega
        | some early =>
            have passes := others index early le_rfl at_place first
            simp only [offer, passes, Bool.false_eq_true, if_false]
            rcases @ih { logging with
              subscriptions := logging.subscriptions.set index (swapName literals line early)
              fileNames := rememberName literals line early logging.fileNames } (index + 1)
              (by omega) (sound.look line first) (by rw [List.length_set]; omega)
              (by rw [List.getElem?_set_ne at_place]; exact found)
              (fun other next later apart inside => by
                rw [List.getElem?_set_ne (by omega)] at inside
                exact others other next (by omega) apart inside)
              fresh (fun fails => by rw [List.length_set]; exact removable fails)
              (by rw [List.length_set]; exact inside) with ⟨after, runs, sound, outcome⟩
            refine ⟨after, runs, sound, ?_⟩
            rwa [map_identity_set literals line first] at outcome

/-- What is left was at another place. -/
theorem getElem?_of_mem_dropIdentity {α : Type*} {elements : List α} {element : α}
    (inside : element ∈ dropIdentity index elements) (bound : index < elements.length) :
    ∃ place, place ≠ index ∧ elements[place]? = some element := by
  rcases List.mem_iff_getElem?.mp inside with ⟨place, found⟩
  rcases Nat.lt_trichotomy place index with before | same | behind
  · refine ⟨place, before.ne, ?_⟩
    unfold dropIdentity at found
    split_ifs at found
    · simp at found
    · have front := congrArg (fun list : List α => list[place]?)
        (SwapRemove.take_swapRemove bound)
      simp only [List.getElem?_take, before, if_true] at front
      rw [← front, found]
  · subst same
    unfold dropIdentity at found
    split_ifs at found
    · simp at found
    · rcases List.eq_nil_or_concat' elements with rfl | ⟨front, last, rfl⟩
      · simp at found
      · rw [SwapRemove.swapRemove_concat] at found
        have within := (List.getElem?_eq_some_iff.mp found).1
        rw [List.length_set] at within
        rw [List.getElem?_set_self within, Option.some.injEq] at found
        exact ⟨front.length, within.ne', by simp [found]⟩
  · exact ⟨place, behind.ne', getElem?_dropIdentity behind found⟩

/-- The message for a subscription has its tag. -/
theorem tagged_messageTo (literals : Literals) (line : Line) (admin : Admin)
    (subscription : Subscription) :
    Tagged subscription.streamId (messageTo literals line admin subscription) := by
  have apart : STREAM_ID ≠ Admin.TXID ∧ STREAM_ID ≠ MESSAGE ∧ STREAM_ID ≠ LINE ∧
      STREAM_ID ≠ FILE ∧ STREAM_ID ≠ LEVEL ∧ STREAM_ID ≠ TIME := by decide
  have made : (makeLogMessage literals line subscription).lookup STREAM_ID =
      some (.string (Hex.encode subscription.streamId)) := by
    simp only [makeLogMessage]
    rw [Dict.lookup_putObject_of_ne apart.2.1, Dict.lookup_putObject_of_ne apart.2.2.1,
      Dict.lookup_putObject_of_ne apart.2.2.2.1, Dict.lookup_putObject_of_ne apart.2.2.2.2.1,
      Dict.lookup_putObject_of_ne apart.2.2.2.2.2, Dict.lookup_putObject_self]
  unfold Tagged messageTo
  dsimp only
  split_ifs
  · rw [Dict.getString, Dict.lookup_putObject_of_ne apart.1, made]
  · rw [Dict.getString, made]

/-- A careful line is delivered, and leaves the subscriptions with their filters. -/
theorem Sound.delivers {log : AdminLog} {admin : Admin}
    (sound : Sound literals log.subscriptions log.fileNames)
    (careful : CarefulLine literals clock line log admin) :
    Delivers literals clock line log admin ∧
      ∀ after, log.doLog literals clock line admin = some after →
        Sound literals after.subscriptions after.fileNames ∧
          ∀ left ∈ after.subscriptions.map Subscription.identity,
            left ∈ log.subscriptions.map Subscription.identity := by
  have agrees (place : ℕ) (subscription : Subscription)
      (found : log.subscriptions[place]? = some subscription) :
      isMatch literals line subscription = true ↔ Wants literals line subscription.asked := by
    have inside := List.mem_of_getElem? found
    exact (sound.kept subscription inside).isMatch_iff (careful.internal subscription inside)
  let start : Logging :=
    { subscriptions := log.subscriptions
      fileNames := log.fileNames
      admin := admin
      message := none
      sent := [] }
  by_cases wanted : ∃ (place : ℕ) (subscription : Subscription),
      log.subscriptions[place]? = some subscription ∧ Wants literals line subscription.asked
  · rcases wanted with ⟨place, subscription, found, wants⟩
    have inside := (List.getElem?_eq_some_iff.mp found).1
    have only {other : ℕ} {next : Subscription} (here : log.subscriptions[other]? = some next)
        (wanting : Wants literals line next.asked) : other = place ∧ next = subscription := by
      have same := careful.alone other place next subscription here found wanting wants
      rw [same, found, Option.some.injEq] at here
      exact ⟨same, here.symm⟩
    have others (other : ℕ) (next : Subscription) (_ : 0 ≤ other) (apart : other ≠ place)
        (here : start.subscriptions[other]? = some next) :
        isMatch literals line next = false := by
      rw [← Bool.not_eq_true, agrees other next here]
      exact fun wanting => apart (only here wanting).1
    have sound : Sound literals start.subscriptions start.fileNames := sound
    rcases logLoop_of_alone clock (Nat.zero_le place) sound (Nat.le_refl _) found
      ((agrees _ _ found).mpr wants) others rfl (careful.removable place subscription found wants)
      with ⟨after, runs, keeps, outcome⟩
    have runs : log.doLog literals clock line admin = some after := runs
    have left : after.subscriptions.map Subscription.identity =
        if Open clock line admin subscription then
          log.subscriptions.map Subscription.identity
        else dropIdentity place (log.subscriptions.map Subscription.identity) := by
      split_ifs at outcome ⊢
      · exact outcome.2
      · exact outcome.2
    refine ⟨⟨after, runs, ?_, ?_⟩, ?_⟩
    · intro next inside wanting sends
      rcases List.mem_iff_getElem?.mp inside with ⟨other, here⟩
      obtain rfl := (only here wanting).2
      have sent : after.sent = [] ++ [messageTo literals line admin next] := by
        rw [if_pos sends] at outcome
        exact outcome.1
      rw [sent, List.nil_append, List.filter_singleton]
      simp [tagged_messageTo]
    · rw [left]
      by_cases sends : Open clock line admin subscription
      · rw [if_pos sends, List.filter_eq_self.mpr]
        intro next inside
        rcases List.mem_iff_getElem?.mp inside with ⟨other, here⟩
        simp only [not_and_or, not_not, decide_eq_true_eq]
        by_cases wanting : Wants literals line next.asked
        · rw [(only here wanting).2]
          exact .inr sends
        · exact .inl wanting
      · rw [if_neg sends, ← map_dropIdentity]
        refine List.Perm.map _ ?_
        have whole := (perm_dropIdentity found).filter fun next : Subscription =>
          ¬ (Wants literals line next.asked ∧ ¬ Open clock line admin next)
        rw [List.filter_cons_of_neg (by simp [wants, sends]), List.filter_eq_self.mpr] at whole
        · exact whole
        · intro next left
          rcases getElem?_of_mem_dropIdentity left inside with ⟨other, apart, here⟩
          simp only [not_and_or, not_not, decide_eq_true_eq]
          exact .inl fun wanting => apart (only here wanting).1
    · intro other same
      rw [runs, Option.some.injEq] at same
      subst same
      refine ⟨keeps, fun identity inside => ?_⟩
      rw [left] at inside
      split_ifs at inside
      · exact inside
      · exact mem_of_mem_dropIdentity inside
  · have quiet (place : ℕ) (subscription : Subscription) (_ : 0 ≤ place)
        (here : start.subscriptions[place]? = some subscription) :
        isMatch literals line subscription = false := by
      rw [← Bool.not_eq_true, agrees place subscription here]
      exact fun wants => wanted ⟨place, subscription, here, wants⟩
    have nobody (subscription : Subscription) (inside : subscription ∈ log.subscriptions) :
        ¬ Wants literals line subscription.asked := by
      intro wants
      rcases List.mem_iff_getElem?.mp inside with ⟨place, here⟩
      exact wanted ⟨place, subscription, here, wants⟩
    have sound : Sound literals start.subscriptions start.fileNames := sound
    rcases logLoop_of_quiet clock log.subscriptions.length sound quiet with
      ⟨after, runs, -, keeps, same⟩
    have runs : log.doLog literals clock line admin = some after := runs
    have same : after.subscriptions.map Subscription.identity =
        log.subscriptions.map Subscription.identity := same
    refine ⟨⟨after, runs, fun next inside wants => absurd wants (nobody next inside), ?_⟩, ?_⟩
    · rw [same, List.filter_eq_self.mpr]
      intro next inside
      simp [nobody next inside]
    · intro other equal
      rw [runs, Option.some.injEq] at equal
      subst equal
      exact ⟨keeps, fun identity inside => same ▸ inside⟩

/-! ## Runs -/

/-- The log, the admin and the clock -/
structure State where
  log : AdminLog
  admin : Admin
  clock : BitVec 64

inductive Event where
  /-- Clients come and go, and time passes. -/
  | others (admin : Admin) (clock : BitVec 64)
  | subscribe (request : Request)
  | unsubscribe (streamIdHex : BString)
  | doLog (line : Line)

def State.step (literals : Literals) (state : State) : Event → Option State
  | .others admin clock => some { state with admin := admin, clock := clock }
  | .subscribe request => some { state with log := state.log.subscribe literals request }
  | .unsubscribe streamIdHex =>
      (state.log.unsubscribe streamIdHex).map fun log => { state with log := log }
  | .doLog line =>
      (state.log.doLog literals state.clock line state.admin).map fun after =>
        { state with
          log := { subscriptions := after.subscriptions, fileNames := after.fileNames }
          admin := after.admin }

/-- Subscribing, unsubscribing and logging in any order -/
def logs (literals : Literals) : TransitionSystem State Event where
  initial state := state.log = { subscriptions := [], fileNames := fun _ => none }
  step state event after := state.step literals event = some after

/-- What an event should do: a line is delivered, who unsubscribes is removed, and nobody else. -/
def DoesRight (literals : Literals) (state : State) : Event → Prop
  | .others _ _ => True
  | .subscribe request =>
      state.log.subscriptions <+: (state.log.subscribe literals request).subscriptions
  | .unsubscribe streamIdHex =>
      ∃ after, state.log.unsubscribe streamIdHex = some after ∧
        after.subscriptions.Perm (state.log.subscriptions.filter fun subscription =>
          ¬ (streamIdHex.length = 16 ∧ Hex.decode streamIdHex = some subscription.streamId))
  | .doLog line => Delivers literals state.clock line state.log state.admin

/-- Lines are careful, line numbers fit into their field, stream ids are not used twice, and the
last of several subscriptions is not unsubscribed. -/
def Careful (literals : Literals) (state : State) : Event → Prop
  | .others _ _ => True
  | .subscribe request =>
      (∀ line ∈ request.line, line.toInt < 2 ^ 30) ∧
        request.streamId ∉ state.log.subscriptions.map Subscription.streamId
  | .unsubscribe streamIdHex =>
      ∀ index ∈ state.log.indexOf streamIdHex, Removable index state.log
  | .doLog line => CarefulLine literals state.clock line state.log state.admin

/-- What holds in every careful run -/
structure InOrder (literals : Literals) (state : State) : Prop where
  sound : Sound literals state.log.subscriptions state.log.fileNames
  distinct : (state.log.subscriptions.map Subscription.streamId).Nodup

variable {state : State}

theorem toInt_setWidth {number : BitVec 64} (positive : 0 ≤ number.toInt)
    (small : number.toInt < 2 ^ 30) : (number.setWidth 31).toInt = number.toInt := by
  have wide := BitVec.toInt_eq_toNat_cond number
  have narrow := BitVec.toInt_eq_toNat_cond (number.setWidth 31)
  have bound := number.isLt
  rw [BitVec.toNat_setWidth] at narrow
  split_ifs at wide narrow <;> omega

/-- A new subscription has the filter that was asked for. -/
theorem kept_newSubscription {request : Request} {log : AdminLog}
    (short : ∀ index, ∀ address ∈ log.fileNames index, IsShort literals address)
    (positive : ¬ (request.line.any fun line => decide (line.toInt < 0)) = true)
    (small : ∀ line ∈ request.line, line.toInt < 2 ^ 30) :
    Kept literals (log.newSubscription literals request) := by
  have bounded : 0 ≤ (request.line.getD 0).toInt ∧ (request.line.getD 0).toInt < 2 ^ 30 := by
    cases given : request.line with
    | none => decide
    | some line =>
        rw [given, Option.any_some, decide_eq_true_eq] at positive
        exact ⟨not_lt.mp positive, small line given⟩
  refine ⟨rfl, toInt_setWidth bounded.1 bounded.2, bounded, ?_⟩
  simp only [newSubscription]
  cases request.fileName with
  | none => rfl
  | some file =>
      rw [Option.map_some]
      split
      next address found =>
        rcases List.exists_of_findSome?_eq_some found with ⟨index, -, found⟩
        rw [Option.filter_eq_some_iff] at found
        have same : literals.text address = file := by simpa using found.2
        exact ⟨by rw [same], short index address found.1⟩
      next => rfl

theorem InOrder.subscribe (inOrder : InOrder literals state) {request : Request}
    (careful : Careful literals state (.subscribe request)) :
    InOrder literals { state with log := state.log.subscribe literals request } ∧
      DoesRight literals state (.subscribe request) := by
  change _ ∧ state.log.subscriptions <+: (state.log.subscribe literals request).subscriptions
  unfold AdminLog.subscribe
  split_ifs with negative full
  · exact ⟨inOrder, List.prefix_rfl⟩
  · exact ⟨inOrder, List.prefix_rfl⟩
  · refine ⟨⟨⟨?_, inOrder.sound.short⟩, ?_⟩, List.prefix_append _ _⟩
    · intro subscription inside
      rcases List.mem_append.mp inside with earlier | last
      · exact inOrder.sound.kept subscription earlier
      · rw [List.mem_singleton.mp last]
        exact kept_newSubscription inOrder.sound.short negative careful.1
    · rw [List.map_append, List.map_singleton, ← List.concat_eq_append, List.nodup_concat]
      exact ⟨careful.2, inOrder.distinct⟩

theorem InOrder.unsubscribe (inOrder : InOrder literals state) {streamIdHex : BString}
    (careful : Careful literals state (.unsubscribe streamIdHex)) :
    DoesRight literals state (.unsubscribe streamIdHex) ∧
      ∀ after, state.log.unsubscribe streamIdHex = some after →
        InOrder literals { state with log := after } := by
  cases found : state.log.indexOf streamIdHex with
  | none =>
      have runs : state.log.unsubscribe streamIdHex = some state.log := by
        simp only [AdminLog.unsubscribe, found]
      refine ⟨⟨_, runs, ?_⟩, fun after same => ?_⟩
      · rw [List.filter_eq_self.mpr]
        intro subscription inside
        simp only [decide_not, Bool.not_eq_true', decide_eq_false_iff_not]
        rintro ⟨length, decoded⟩
        rw [indexOf, if_pos length, decoded, Option.bind_some, List.findIdx?_eq_none_iff] at found
        simpa using found subscription inside
      · rw [runs, Option.some.injEq] at same
        subst same
        exact inOrder
  | some index =>
      have runs : state.log.unsubscribe streamIdHex = some { state.log with
          subscriptions := dropIdentity index state.log.subscriptions } := by
        simp only [AdminLog.unsubscribe, found,
          removeSubscription_of_removable (careful index found), Option.map_some]
      rw [indexOf, Option.ite_none_right_eq_some, Option.bind_eq_some_iff] at found
      rcases found with ⟨length, streamId, decoded, found⟩
      rw [List.findIdx?_eq_some_iff_getElem] at found
      rcases found with ⟨inside, own, -⟩
      rw [decide_eq_true_eq] at own
      have here : state.log.subscriptions[index]? = some state.log.subscriptions[index] :=
        List.getElem?_eq_getElem inside
      have perm : (dropIdentity index state.log.subscriptions).Perm
          (state.log.subscriptions.filter fun subscription =>
            ¬ (streamIdHex.length = 16 ∧
              Hex.decode streamIdHex = some subscription.streamId)) := by
        have whole := (perm_dropIdentity here).filter fun subscription : Subscription =>
          ¬ (streamIdHex.length = 16 ∧ Hex.decode streamIdHex = some subscription.streamId)
        rw [List.filter_cons_of_neg (by simp [length, decoded, own]), List.filter_eq_self.mpr]
          at whole
        · exact whole
        · intro other left
          rcases getElem?_of_mem_dropIdentity left inside with ⟨place, apart, there⟩
          simp only [decide_not, Bool.not_eq_true', decide_eq_false_iff_not]
          rintro ⟨-, same⟩
          rw [decoded, Option.some.injEq, ← own] at same
          rcases List.getElem?_eq_some_iff.mp there with ⟨placeInside, rfl⟩
          have equal := List.inj_on_of_nodup_map inOrder.distinct (List.getElem_mem placeInside)
            (List.getElem_mem inside) same.symm
          exact apart ((List.Nodup.getElem_inj_iff (List.Nodup.of_map _ inOrder.distinct)).mp equal)
      refine ⟨⟨_, runs, perm⟩, fun after same => ?_⟩
      rw [runs, Option.some.injEq] at same
      subst same
      refine ⟨⟨fun other left => inOrder.sound.kept other (mem_of_mem_dropIdentity left),
        inOrder.sound.short⟩, ?_⟩
      exact (perm.map _).nodup_iff.mpr (inOrder.distinct.sublist (List.filter_sublist.map _))

theorem InOrder.doLog (inOrder : InOrder literals state)
    (careful : Careful literals state (.doLog line)) :
    DoesRight literals state (.doLog line) ∧
      ∀ after, state.step literals (.doLog line) = some after → InOrder literals after := by
  rcases inOrder.sound.delivers careful with ⟨delivers, keeps⟩
  refine ⟨delivers, fun after taken => ?_⟩
  rcases Option.map_eq_some_iff.mp taken with ⟨logging, runs, rfl⟩
  refine ⟨(keeps logging runs).1, ?_⟩
  rcases delivers with ⟨other, same, -, perm⟩
  rw [runs, Option.some.injEq] at same
  subst same
  have ids := perm.map fun identity => identity.2.1
  rw [List.map_map, List.map_map] at ids
  exact ids.nodup_iff.mpr (inOrder.distinct.sublist (List.filter_sublist.map _))

theorem inOrder_isInvariant (literals : Literals) :
    (logs literals).IsInvariant (Careful literals) (InOrder literals) where
  initial := by
    intro state starts
    have starts : state.log = { subscriptions := [], fileNames := fun _ => none } := starts
    refine ⟨?_, ?_⟩
    · rw [starts]
      exact ⟨by simp, by simp⟩
    · rw [starts]
      exact List.nodup_nil
  step {before event after} inOrder careful taken := by
    cases event with
    | others admin clock =>
        obtain rfl := Option.some.inj taken
        exact ⟨inOrder.sound, inOrder.distinct⟩
    | subscribe request =>
        obtain rfl := Option.some.inj taken
        exact (inOrder.subscribe careful).1
    | unsubscribe streamIdHex =>
        rcases Option.map_eq_some_iff.mp taken with ⟨log, runs, rfl⟩
        exact (inOrder.unsubscribe careful).2 log runs
    | doLog line => exact (inOrder.doLog careful).2 after taken

/-- In every run that is careful, every event that is careful does what it should. -/
theorem doesRight_of_reachable (literals : Literals) {state : State}
    (reachable : (logs literals).Reachable (Careful literals) state) (event : Event)
    (careful : Careful literals state event) : DoesRight literals state event := by
  have inOrder := reachable.invariant (inOrder_isInvariant literals)
  cases event with
  | others admin clock => trivial
  | subscribe request => exact (inOrder.subscribe careful).2
  | unsubscribe streamIdHex => exact (inOrder.unsubscribe careful).1
  | doLog line => exact (inOrder.doLog careful).1

/-- A program whose only path is `a/b` -/
def sources : Literals where
  text address := [0x61, 0x2F, 0x62].drop address
  text_add address offset _ := by rw [List.drop_drop]

/-- Nobody has subscribed, and messages can be sent. -/
def empty : State where
  log := { subscriptions := [], fileNames := fun _ => none }
  admin := { addrLen := 1, map := fun _ => none, inRequest := true, asyncEnabled := false }
  clock := 0

/-- A request for all lines from a client, with a stream id of one byte repeated -/
def plainRequest (client : BitVec 8) : Request where
  level := none
  line := none
  file := none
  txid := [client]
  streamId := List.replicate 8 client

def plainLine : Line where
  logLevel := .INFO
  fullFilePath := 0
  line := 7
  text := [0x78]
  now := 0
  accepts _ := true

/-- The address that a file filter has become -/
def Subscription.internalName (subscription : Subscription) : Option ℕ :=
  match subscription.file with
  | some (.internal address) => some address
  | _ => none

theorem Subscription.mem_internalName (subscription : Subscription) (address : ℕ) :
    address ∈ subscription.internalName ↔ subscription.file = some (.internal address) := by
  unfold internalName
  split <;> simp_all

theorem carefulLine_iff (literals : Literals) (clock : BitVec 64) (line : Line) (log : AdminLog)
    (admin : Admin) :
    CarefulLine literals clock line log admin ↔
      (∀ one ∈ log.subscriptions.zipIdx, ∀ two ∈ log.subscriptions.zipIdx,
        Wants literals line one.1.asked → Wants literals line two.1.asked → one.2 = two.2) ∧
      (∀ one ∈ log.subscriptions.zipIdx, Wants literals line one.1.asked →
        ¬ Open clock line admin one.1 → Removable one.2 log) ∧
      ∀ subscription ∈ log.subscriptions, ∀ address ∈ subscription.internalName,
        Wants literals line subscription.asked → line.fullFilePath = address := by
  simp only [Prod.forall, List.mk_mem_zipIdx_iff_getElem?, Subscription.mem_internalName]
  constructor
  · rintro ⟨alone, removable, internal⟩
    refine ⟨fun first one oneFound second two => alone one two first second oneFound, ?_, internal⟩
    exact fun first one => removable one first
  · rintro ⟨alone, removable, internal⟩
    refine ⟨fun one two first second oneFound => alone first one oneFound second two, ?_, internal⟩
    exact fun one first => removable first one

instance (literals : Literals) (clock : BitVec 64) (line : Line) (log : AdminLog) (admin : Admin) :
    Decidable (CarefulLine literals clock line log admin) :=
  decidable_of_iff' _ (carefulLine_iff literals clock line log admin)

instance (literals : Literals) (state : State) : ∀ event, Decidable (Careful literals state event)
  | .others _ _ => inferInstanceAs (Decidable True)
  | .subscribe request =>
      have unused : Decidable (request.streamId ∉ state.log.subscriptions.map Subscription.streamId) :=
        decidable_of_iff' _ List.forall_mem_ne.symm
      @instDecidableAnd _ _ (Option.decidableForallMem request.line) unused
  | .unsubscribe streamIdHex => Option.decidableForallMem (state.log.indexOf streamIdHex)
  | .doLog _ => inferInstanceAs (Decidable (CarefulLine _ _ _ _ _))

/-- One client asks for a file and one for a line of it. Lines come, the first client leaves, and a
line for the second one comes when it has gone. -/
theorem doesRight_of_two_clients :
    let firstLine := { plainLine with fullFilePath := 2 }
    let secondLine := { firstLine with line := 8, accepts := fun _ => false }
    let leaving : Event := .unsubscribe (Hex.encode (List.replicate 8 1))
    ∃ state after, state.log.subscriptions.map Subscription.internalName = [some 2, none] ∧
      DoesRight sources state (.doLog firstLine) ∧ DoesRight sources state leaving ∧
      state.step sources leaving = some after ∧
      (after.log.subscriptions.map fun subscription =>
        decide (Wants sources secondLine subscription.asked ∧
          ¬ Open after.clock secondLine after.admin subscription)) = [true] ∧
      DoesRight sources after (.doLog secondLine) := by
  intro firstLine secondLine leaving
  let next (state : State) (event : Event) : Option State :=
    if Careful sources state event then state.step sources event else none
  have taken {before after : State} {event : Event} (steps : next before event = some after) :
      Careful sources before event ∧ before.step sources event = some after :=
    Option.ite_none_right_eq_some.mp steps
  let events : List Event := [
    .subscribe { plainRequest 1 with file := some [0x62], txid := [1, 9] },
    .subscribe { plainRequest 2 with level := some Level.INFO.name, line := some 8 },
    .doLog firstLine]
  have run : (events.foldlM next empty).any (fun state =>
      decide (state.log.subscriptions.map Subscription.internalName = [some 2, none]) &&
        (next state (.doLog firstLine)).isSome &&
        (next state leaving).any fun after =>
          decide ((after.log.subscriptions.map fun subscription =>
            decide (Wants sources secondLine subscription.asked ∧
              ¬ Open after.clock secondLine after.admin subscription)) = [true]) &&
            (next after (.doLog secondLine)).isSome) = true := by
    decide +kernel
  rcases (Option.any_eq_true _ _).mp run with ⟨state, run, ends⟩
  simp only [Bool.and_eq_true, decide_eq_true_eq, Option.any_eq_true, Option.isSome_iff_exists]
    at ends
  rcases ends with ⟨⟨named, _, first⟩, after, left, closed, _, second⟩
  have starts : (logs sources).Reachable (Careful sources) empty := .initial rfl
  have reachable := starts.foldlM (fun event _ _ steps => taken steps) run
  have later := reachable.step (taken left).1 (taken left).2
  refine ⟨state, after, named, ?_, ?_, (taken left).2, closed, ?_⟩
  · exact doesRight_of_reachable sources reachable _ (taken first).1
  · exact doesRight_of_reachable sources reachable leaving (taken left).1
  · exact doesRight_of_reachable sources later _ (taken second).1

/-- Of two subscriptions for the same line, the second is sent the tag of the first. -/
theorem second_untagged : ∃ state, (logs sources).Reachable (fun _ _ => True) state ∧
    ¬ DoesRight sources state (.doLog plainLine) := by
  let events : List Event := [.subscribe (plainRequest 1), .subscribe (plainRequest 2)]
  have run : events.foldlM (State.step sources) empty = some { empty with
      log := (empty.log.subscribe sources (plainRequest 1)).subscribe sources (plainRequest 2) } :=
    rfl
  have starts : (logs sources).Reachable (fun _ _ => True) empty := .initial rfl
  refine ⟨_, starts.run id (fun _ _ _ => trivial) run, ?_⟩
  rintro ⟨after, runs, tagged, -⟩
  have sent := tagged _ (List.mem_append_right _ (List.mem_singleton_self _)) (by decide +kernel)
    (by decide +kernel)
  have none : (AdminLog.doLog sources 0 plainLine
      ((empty.log.subscribe sources (plainRequest 1)).subscribe sources (plainRequest 2))
      empty.admin).any (fun after => (after.sent.filter fun sent =>
        Tagged (List.replicate 8 2) sent).isEmpty) = true := by
    decide +kernel
  have runs : AdminLog.doLog sources 0 plainLine
      ((empty.log.subscribe sources (plainRequest 1)).subscribe sources (plainRequest 2))
      empty.admin = some after := runs
  rw [runs, Option.any_some, List.isEmpty_iff] at none
  exact absurd (none.symm.trans sent) (by simp)

end Cjdns.AdminLog
