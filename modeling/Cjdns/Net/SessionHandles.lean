import Cjdns.Crypto.Endpoint
import Cjdns.Net.Ducttape

/-!
# Handles of sessions

The handle of the other node comes with a handshake packet, outside of what is
encrypted in the outer layer. It waits in the context until the packet is found
authentic, and goes to the session that is the current one then.

A handshake packet that only lets a buffered message go is not passed on, so that
its handle is still there while the message is sent. A data packet that comes in
meanwhile puts it in its own session.
-/

namespace Cjdns

open CryptoAuth (Packet)

namespace Ducttape

/-! ## Handles and deeds -/

/-- The last handle that the session was given, or zero -/
def lastBound (deeds : List Deed) (handle : ℕ) : BitVec 32 :=
  deeds.foldl
    (fun last deed => match deed with
      | .bound other sendHandle_be _ => if other = handle then sendHandle_be else last
      | _ => last)
    0

/-- The deed gives a handle to a session. -/
def Deed.isBound : Deed → Bool
  | .bound .. => true
  | _ => false

/--
A handshake packet that the session found authentic carried the handle, in front of
it or in it, and the version is one that such a packet stands for.
-/
inductive Carried (deeds : List Deed) (handle : ℕ) : BitVec 32 → BitVec 32 → Prop where
  | outer {ip6 : List (BitVec 8)} {handle_be : BitVec 32} {packet : Packet}
      {box : CryptoAuth.HandshakeBox} (arrived : .arrived handle_be packet ∈ deeds)
      (took : .session handle ip6 (.took packet box) ∈ deeds) :
      Carried deeds handle (handle_be ||| HANDLE_FLAG_BIT_be) 1
  | inner {ip6 : List (BitVec 8)} {packet : Packet} {box : CryptoAuth.HandshakeBox}
      {version : BitVec 32} (took : .session handle ip6 (.took packet box) ∈ deeds)
      (long : 4 ≤ box.content.length) (known : version ≠ 0) :
      Carried deeds handle (Bytes.load32 box.content ||| HANDLE_FLAG_BIT_be) version

theorem Carried.mono {deeds more : List Deed} {handle : ℕ} {sendHandle_be version : BitVec 32}
    (carried : Carried deeds handle sendHandle_be version)
    (grows : ∀ deed ∈ deeds, deed ∈ more) : Carried more handle sendHandle_be version := by
  cases carried with
  | outer arrived took => exact .outer (grows _ arrived) (grows _ took)
  | inner took long known => exact .inner (grows _ took) long known

theorem lastBound_append_bound (deeds : List Deed) (handle other : ℕ)
    (sendHandle_be version : BitVec 32) :
    lastBound (deeds ++ [.bound other sendHandle_be version]) handle =
      if other = handle then sendHandle_be else lastBound deeds handle := by
  simp [lastBound, List.foldl_append]

theorem lastBound_append {rest : List Deed} (deeds : List Deed) (handle : ℕ)
    (others : ∀ deed ∈ rest, deed.isBound = false) :
    lastBound (deeds ++ rest) handle = lastBound deeds handle := by
  induction rest using List.reverseRecOn with
  | nil => rw [List.append_nil]
  | append_singleton rest last ih =>
      have before := ih fun deed inside => others deed (List.mem_append_left _ inside)
      have other := others last (List.mem_append_right _ (List.mem_singleton_self last))
      rw [← List.append_assoc, ← before]
      cases last with
      | bound => cases other
      | _ => simp [lastBound, List.foldl_append]

theorem lastBound_eq_zero {deeds : List Deed} {handle : ℕ}
    (never : ∀ other sendHandle_be version, .bound other sendHandle_be version ∈ deeds →
      other ≠ handle) : lastBound deeds handle = 0 := by
  induction deeds using List.reverseRecOn with
  | nil => rfl
  | append_singleton deeds last ih =>
      have before := ih fun other sendHandle_be version inside =>
        never other sendHandle_be version (List.mem_append_left _ inside)
      cases last with
      | bound other sendHandle_be version =>
          have different := never other sendHandle_be version
            (List.mem_append_right _ (List.mem_singleton_self _))
          rw [lastBound_append_bound, if_neg different, before]
      | _ =>
          rw [lastBound_append deeds handle (by simp [Deed.isBound]), before]

/-! ## Calls that leave the handles alone -/

/-- The session goes on with its handle. -/
def KeepsHandle (old entry : Map.Entry (List (BitVec 8)) Session) : Prop :=
  entry.value.sendHandle_be = old.value.sendHandle_be

/-- The session has no handle yet. -/
def HasNoHandle (entry : Map.Entry (List (BitVec 8)) Session) : Prop :=
  entry.value.sendHandle_be = 0

/-- What becomes of the sessions where no handle is given to one -/
abbrev SameHandlesIn (before after : SessionManager) : Prop :=
  Map.Evolves KeepsHandle HasNoHandle before after

/-- The call gives no handle to a session. -/
structure SameHandles (before after : Ducttape) : Prop where
  sm : SameHandlesIn before.sm after.sm
  deeds : ∃ rest, after.deeds = before.deeds ++ rest ∧ ∀ deed ∈ rest, deed.isBound = false

theorem SameHandlesIn.refl (sm : SessionManager) : SameHandlesIn sm sm :=
  Map.Evolves.refl sm fun _ _ => rfl

theorem SameHandlesIn.trans {before between after : SessionManager}
    (first : SameHandlesIn before between) (second : SameHandlesIn between after) :
    SameHandlesIn before after :=
  Map.Evolves.trans first second (fun _ _ _ kept keptOn => keptOn.trans kept)
    fun _ _ none kept => kept.trans none

theorem SameHandlesIn.modify {handle : ℕ} {change : Session → Session} (sm : SessionManager)
    (keeps : ∀ session, (change session).sendHandle_be = session.sendHandle_be) :
    SameHandlesIn sm (sm.modify handle change) := by
  refine Map.Evolves.modify (SameHandlesIn.refl sm) fun entry _ _ => ⟨?_, ?_⟩
  · exact fun old kept => (keeps entry.value).trans kept
  · exact fun none => (keeps entry.value).trans none

theorem getSession_sameHandles (lookupKey : List (BitVec 8)) (cryptoKey : Option Key)
    (nowSecs : BitVec 64) (sm : SessionManager) :
    SameHandlesIn sm (SessionManager.getSession lookupKey cryptoKey nowSecs sm).1 := by
  refine SessionManager.getSession_evolves (SameHandlesIn.refl sm) ?_ fun _ => rfl
  exact fun entry _ _ => ⟨fun old kept => kept, fun none => none⟩

variable {setting : Setting} {moment : Moment} {context before between after : Ducttape}

namespace SameHandles

theorem refl (context : Ducttape) : SameHandles context context where
  sm := .refl _
  deeds := ⟨[], (List.append_nil _).symm, by simp⟩

theorem trans (first : SameHandles before between) (second : SameHandles between after) :
    SameHandles before after where
  sm := SameHandlesIn.trans first.sm second.sm
  deeds := by
    rcases first.deeds with ⟨earlier, firstDeeds, firstOthers⟩
    rcases second.deeds with ⟨later, secondDeeds, secondOthers⟩
    refine ⟨earlier ++ later, by rw [secondDeeds, firstDeeds, List.append_assoc], ?_⟩
    intro deed inside
    exact (List.mem_append.mp inside).elim (firstOthers deed) (secondOthers deed)

theorem log (deed : Deed) (context : Ducttape) (other : deed.isBound = false) :
    SameHandles context (context.log deed) where
  sm := .refl _
  deeds := ⟨[deed], rfl, by simpa using other⟩

theorem assign {change : Session → Session} (context : Ducttape)
    (keeps : ∀ session, (change session).sendHandle_be = session.sendHandle_be) :
    SameHandles context (context.assign change) := by
  rw [Ducttape.assign]
  split
  · exact ⟨.modify _ keeps, [], (List.append_nil _).symm, by simp⟩
  · exact .refl context

end SameHandles

theorem sendToSwitch_sameHandles {packet : Packet}
    (sends : sendToSwitch setting moment packet context = some after) :
    SameHandles context after := by
  rcases sendToSwitch_eq_some sends with ⟨_, _, _, -, rfl⟩
  refine SameHandles.trans (.assign context ?_) (.log _ _ rfl)
  exact fun _ => rfl

theorem encrypt_sameHandles {header : Option IP6Header} {message : List (BitVec 8)} {packet : Packet}
    (encrypts : encrypt setting moment header message context = some (packet, after)) :
    SameHandles context after := by
  rcases encrypt_eq_some encrypts with ⟨_, _, -, -, rfl⟩
  refine ⟨(SameHandles.assign context ?_).sm, [], (List.append_nil _).symm, by simp⟩
  exact fun _ => rfl

theorem sendToRouter_sameHandles {pointer : NodePointer} {message : List (BitVec 8)}
    (sends : sendToRouter setting moment pointer message context = some after) :
    SameHandles context after := by
  simp only [sendToRouter, Option.bind_eq_some_iff, Prod.exists] at sends
  rcases sends with ⟨session, -, packet, encrypted, encrypts, sends⟩
  have sealed := encrypt_sameHandles encrypts
  have sent := sendToSwitch_sameHandles sends
  have found := getSession_sameHandles (pointer.node context.router).address.ip6
    (some (pointer.node context.router).address.key) moment.nowSecs context.sm
  have toEncrypted : SameHandles context encrypted := by
    refine ⟨SameHandlesIn.trans ?_ sealed.sm, sealed.deeds⟩
    dsimp only
    refine found.trans ?_
    apply SameHandlesIn.modify
    exact fun _ => rfl
  exact toEncrypted.trans ⟨sent.sm, sent.deeds⟩

theorem deliverForMe_sameHandles {message ip6 : List (BitVec 8)} {herPubKey : Key}
    (delivers : deliverForMe setting message ip6 herPubKey context = some after) :
    SameHandles context after := by
  rcases deliverForMe_eq_some delivers with rfl | ⟨-, ⟨_, _, -, rfl⟩ | ⟨_, -, rfl⟩⟩
  · exact .refl _
  · exact .log _ _ rfl
  · exact .log _ _ rfl

theorem logReceived_sameHandles (handle : ℕ) (session : Session) (received : CryptoAuth.Received)
    (context : Ducttape) : SameHandles context (context.logReceived handle session received) := by
  refine ⟨.refl _, _, rfl, fun deed inside => ?_⟩
  rcases List.mem_map.mp inside with ⟨_, -, rfl⟩
  rfl

theorem take_sameHandles (handle : ℕ) (session : Session) (received : CryptoAuth.Received)
    (context : Ducttape) : SameHandles context (context.take handle session received) := by
  refine (logReceived_sameHandles ..).trans (.assign _ ?_)
  exact fun _ => rfl

theorem passOn_sameHandles (handle : ℕ) (session : Session) (received : CryptoAuth.Received)
    (message : List (BitVec 8)) (context : Ducttape) :
    SameHandles context (context.passOn handle session received message) :=
  (take_sameHandles ..).trans (.log _ _ rfl)

theorem respond_sameHandles (handle : ℕ) (session : Session) (received : CryptoAuth.Received)
    (sent : Packet) (context : Ducttape) :
    SameHandles context (context.respond moment handle session received sent) := by
  have assigned : SameHandles context ((context.logReceived handle session received).assign
      (responding moment context.ip6Header received sent)) := by
    refine (logReceived_sameHandles ..).trans (.assign _ fun session => ?_)
    rw [responding]
    split <;> rfl
  exact ⟨assigned.sm, assigned.deeds⟩

/-! ## What is given to the sessions -/

/-- Every session has the handle it was given last, and the handles were carried to the sessions. -/
structure Tracks (past : List Deed) (context : Ducttape) : Prop where
  last : ∀ entry ∈ context.sm.entries,
    entry.value.sendHandle_be = lastBound (past ++ context.deeds) entry.handle
  known : ∀ handle sendHandle_be version, .bound handle sendHandle_be version ∈
    past ++ context.deeds → handle < context.sm.nextHandle
  carried : ∀ handle sendHandle_be version, .bound handle sendHandle_be version ∈ context.deeds →
    Carried context.deeds handle sendHandle_be version

variable {past : List Deed}

theorem SameHandles.mem_of_isBound {deed : Deed} (same : SameHandles before after)
    (inside : deed ∈ after.deeds) (bound : deed.isBound = true) : deed ∈ before.deeds := by
  rcases same.deeds with ⟨rest, deeds, others⟩
  rw [deeds] at inside
  rcases List.mem_append.mp inside with earlier | later
  · exact earlier
  · rw [others deed later] at bound
    cases bound

theorem SameHandles.mem {deed : Deed} (same : SameHandles before after)
    (inside : deed ∈ before.deeds) : deed ∈ after.deeds := by
  rcases same.deeds with ⟨rest, deeds, -⟩
  rw [deeds]
  exact List.mem_append_left _ inside

theorem SameHandles.tracks (same : SameHandles before after) (tracks : Tracks past before) :
    Tracks past after where
  last entry inside := by
    rcases same.deeds with ⟨rest, deeds, others⟩
    rw [deeds, ← List.append_assoc, lastBound_append _ _ others]
    rcases same.sm.entry entry inside with ⟨old, oldInside, sameHandle, kept⟩ | ⟨new, none⟩
    · rw [← sameHandle, ← tracks.last old oldInside]
      exact kept
    · refine Eq.trans none (lastBound_eq_zero fun other sendHandle_be version bound => ?_).symm
      have old := tracks.known other sendHandle_be version bound
      omega
  known handle sendHandle_be version inside := by
    refine (tracks.known handle sendHandle_be version ?_).trans_le same.sm.nextHandle_le
    rcases List.mem_append.mp inside with earlier | later
    · exact List.mem_append_left _ earlier
    · exact List.mem_append_right _ (same.mem_of_isBound later rfl)
  carried handle sendHandle_be version inside :=
    (tracks.carried handle sendHandle_be version (same.mem_of_isBound inside rfl)).mono
      fun _ earlier => same.mem earlier

/-- A session is given a handle that was carried to it. -/
theorem Tracks.bind {handle : ℕ} {session : Session} {sendHandle_be version : BitVec 32}
    (change : Session → Session) (tracks : Tracks past context)
    (current : context.session = some handle) (found : context.sm.find handle = some session)
    (gives : ∀ session, (change session).sendHandle_be = sendHandle_be)
    (carried : Carried context.deeds handle sendHandle_be version) :
    Tracks past ((context.assign change).log (.bound handle sendHandle_be version)) := by
  have known : handle < context.sm.nextHandle := by
    rcases Map.find_eq_some found with ⟨entry, inside, rfl, -⟩
    exact context.sm.below entry inside
  rw [assign, current]
  constructor
  case last =>
    intro entry inside
    change _ = lastBound (past ++ (context.deeds ++ _)) _
    rw [← List.append_assoc, lastBound_append_bound]
    rcases Map.mem_modify inside with ⟨earlier, different⟩ | ⟨old, oldInside, same, rfl⟩
    · rw [if_neg fun same => different same.symm]
      exact tracks.last entry earlier
    · rw [if_pos same.symm]
      exact gives _
  case known =>
    intro other otherHandle otherVersion inside
    change _ ∈ past ++ (context.deeds ++ _) at inside
    rw [← List.append_assoc] at inside
    rcases List.mem_append.mp inside with earlier | last
    · exact tracks.known other otherHandle otherVersion earlier
    · cases List.mem_singleton.mp last
      exact known
  case carried =>
    intro other otherHandle otherVersion inside
    rcases List.mem_append.mp inside with earlier | last
    · exact (tracks.carried other otherHandle otherVersion earlier).mono
        fun _ => List.mem_append_left _
    · cases List.mem_singleton.mp last
      exact carried.mono fun _ => List.mem_append_left _

/-- A continuation gives the sessions only what was carried to them. -/
def KeepsTracks (past : List Deed) (core : Continuation) : Prop :=
  ∀ header content context after, Tracks past context → core header content context = some after →
    Tracks past after

variable {core : Continuation} {packet : Packet} {message : List (BitVec 8)} {herPubKey : Key}

theorem incomingForMe_tracks {containsHandle : Bool} (tracks : Tracks past context)
    (carries : containsHandle = true → 4 ≤ message.length → ∀ handle version,
      context.session = some handle → version ≠ 0 →
        Carried context.deeds handle (Bytes.load32 message ||| HANDLE_FLAG_BIT_be) version)
    (delivers : incomingForMe setting message herPubKey containsHandle context = some after) :
    Tracks past after := by
  rcases incomingForMe_eq_some delivers with
    ⟨handle, session, current, found, ⟨contains, long, delivers⟩ | delivers⟩
  · refine (deliverForMe_sameHandles delivers).tracks ?_
    refine tracks.bind _ current found (fun _ => rfl) (carries contains long handle _ current ?_)
    split_ifs with known
    · exact known
    · decide
  · exact (deliverForMe_sameHandles delivers).tracks tracks

theorem incomingFromRouter_tracks (keeps : KeepsTracks past core) (tracks : Tracks past context)
    (carries : context.currentSessionVersion > 0 → ∀ handle, context.session = some handle →
      Carried context.deeds handle context.currentSessionSendHandle_be
        context.currentSessionVersion)
    (receives : incomingFromRouter core message context = some after) : Tracks past after := by
  simp only [incomingFromRouter, Option.bind_eq_some_iff] at receives
  rcases receives with ⟨handle, current, session, found, receives⟩
  have bound : Tracks past (context.bindOuter handle) := by
    rw [bindOuter]
    split
    · rename_i cached
      have given := tracks.bind
        (fun session => { session with
          sendHandle_be := context.currentSessionSendHandle_be
          version := context.currentSessionVersion })
        current found (fun _ => rfl) (carries cached handle current)
      exact ⟨given.last, given.known, given.carried⟩
    · exact tracks
  split at receives
  · exact keeps _ _ _ _ bound receives
  · rw [← Option.some.inj receives]
    exact (SameHandles.log _ _ rfl).tracks bound

theorem outgoingFromCryptoAuth_tracks {header : IP6Header} (keeps : KeepsTracks past core)
    (tracks : Tracks past context)
    (sends : outgoingFromCryptoAuth setting moment core header packet context = some after) :
    Tracks past after := by
  have entered : Tracks past { context with layer := .INVALID } :=
    ⟨tracks.last, tracks.known, tracks.carried⟩
  simp only [outgoingFromCryptoAuth] at sends
  split at sends
  · exact (sendToSwitch_sameHandles sends).tracks entered
  · have logged := (SameHandles.log (.fromMe header) _ rfl).tracks entered
    simp only [outgoingFromMe] at sends
    split at sends
    · exact keeps _ _ _ _ logged sends
    · split at sends
      · exact keeps _ _ _ _ logged sends
      · cases sends

theorem incomingFromCryptoAuth_tracks (keeps : KeepsTracks past core) (tracks : Tracks past context)
    (outer : context.layer = .OUTER → context.currentSessionVersion > 0 → ∀ handle,
      context.session = some handle →
        Carried context.deeds handle context.currentSessionSendHandle_be
          context.currentSessionVersion)
    (inner : context.layer = .INNER → context.initMessage = true → 4 ≤ message.length →
      ∀ handle version, context.session = some handle → version ≠ 0 →
        Carried context.deeds handle (Bytes.load32 message ||| HANDLE_FLAG_BIT_be) version)
    (receives : incomingFromCryptoAuth setting core message herPubKey context = some after) :
    Tracks past after := by
  have entered : Tracks past { context with layer := .INVALID } :=
    ⟨tracks.last, tracks.known, tracks.carried⟩
  simp only [incomingFromCryptoAuth] at receives
  split at receives
  · rename_i isOuter
    refine incomingFromRouter_tracks keeps entered ?_ receives
    exact outer isOuter
  · rename_i isInner
    refine incomingForMe_tracks entered ?_ receives
    exact inner isInner
  · cases receives

/-- A packet whose handle, if there is one, is in front of it or in it -/
structure Carries (packet : Packet) (context : Ducttape) : Prop where
  outer : context.layer = .OUTER → context.currentSessionVersion > 0 → packet.nonce.toNat ≤ 3 ∧
    context.currentSessionVersion = 1 ∧ ∃ handle_be, .arrived handle_be packet ∈ context.deeds ∧
      context.currentSessionSendHandle_be = handle_be ||| HANDLE_FLAG_BIT_be
  inner : context.layer = .INNER → context.initMessage = true → packet.nonce.toNat ≤ 3

theorem receive_tracks (keeps : KeepsTracks past core) (tracks : Tracks past context)
    (carries : ∀ handle session message, context.session = some handle →
      context.sm.find handle = some session →
      (CryptoAuth.receiveMessage setting.cryptoAuth moment.nowSecs (moment.chance 0) packet
        context.rand session.wrapper).outcome = .passed message → Carries packet context)
    (receives : receive setting moment core packet context = some after) : Tracks past after := by
  rcases receive_eq_some receives with ⟨handle, session, received, current, found, called,
    ⟨sent, -, sends⟩ | ⟨message, passed, passes⟩ | rfl⟩
  · exact outgoingFromCryptoAuth_tracks keeps ((respond_sameHandles ..).tracks tracks) sends
  · rw [called] at passed
    have carried := carries handle session message current found passed
    -- A handshake packet was found authentic by the current session.
    have took (early : packet.nonce.toNat ≤ 3) : ∃ box,
        .session handle session.ip6 (.took packet box) ∈
          (context.passOn handle session received message).deeds ∧ box.content = message := by
      rcases CryptoAuth.receiveMessage_took early passed with ⟨box, took, content⟩
      rw [← called] at took
      refine ⟨box, List.mem_append_left _ ?_, content⟩
      rw [take_eq]
      exact List.mem_append_right _ (List.mem_map_of_mem took)
    have kept := passOn_sameHandles handle session received message context
    refine incomingFromCryptoAuth_tracks keeps (kept.tracks tracks) ?_ ?_ passes
    · simp only [passOn_layer, passOn_currentSessionVersion, passOn_session,
        passOn_currentSessionSendHandle_be]
      intro outer cached other same
      rcases Option.some.inj (current.symm.trans same) with rfl
      rcases carried.outer outer cached with ⟨early, version, handle_be, arrived, given⟩
      rcases took early with ⟨box, took, -⟩
      rw [given, version]
      exact .outer (kept.mem arrived) took
    · simp only [passOn_layer, passOn_initMessage, passOn_session]
      intro inner contains long other version same known
      rcases Option.some.inj (current.symm.trans same) with rfl
      rcases took (carried.inner inner contains) with ⟨box, took, rfl⟩
      exact .inner took long known
  · exact (take_sameHandles ..).tracks tracks

/-- `core` gives the sessions only what was carried to them, however often it is called. -/
theorem core_keepsTracks (setting : Setting) (past : List Deed) (depth : ℕ) (moment : Moment) :
    KeepsTracks past (Ducttape.core setting depth moment) := by
  induction depth generalizing moment with
  | zero =>
      intro header content context after _ goes
      cases goes
  | succ depth ih =>
      intro header content context after tracks goes
      simp only [Ducttape.core] at goes
      split at goes
      · rcases Option.bind_eq_some_iff.mp goes with ⟨session, -, goes⟩
        split at goes
        · have found := getSession_sameHandles header.sourceAddr none moment.nowSecs context.sm
          have entered : SameHandles context { context with
              sm := (SessionManager.getSession header.sourceAddr none moment.nowSecs context.sm).1 } :=
            ⟨found, [], (List.append_nil _).symm, by simp⟩
          have tracks := entered.tracks tracks
          refine receive_tracks (ih _) ?_ ?_ goes
          · exact ⟨tracks.last, tracks.known, tracks.carried⟩
          · intro handle inner message _ _ _
            refine ⟨fun outer => ?_, fun _ init => ?_⟩
            · cases outer
            · simpa using init
        · refine incomingForMe_tracks ?_ ?_ goes
          · exact ⟨tracks.last, tracks.known, tracks.carried⟩
          · intro contains
            cases contains
      · split at goes
        · rw [← Option.some.inj goes]
          exact ⟨tracks.last, tracks.known, tracks.carried⟩
        · have logged (ip6Header : IP6Header) (ip6Length : ℕ) := (SameHandles.log (.routed
              header.destinationAddr (context.forwardTo.or
                (context.router.lookup header.destinationAddr))) { context with
              ip6Header := ip6Header, ip6Length := ip6Length, forwardTo := none } rfl).tracks
            ⟨tracks.last, tracks.known, tracks.carried⟩
          split at goes
          · exact (sendToRouter_sameHandles goes).tracks (logged _ _)
          · rw [← Option.some.inj goes]
            exact logged _ _

/-! ## Calls and runs -/

/-- The packet is a data packet of a session, whose `receiveMessage` will pass it on. -/
def OpensData (setting : Setting) (moment : Moment) (handle_be : BitVec 32) (packet : Packet)
    (context : Ducttape) : Prop :=
  packet.nonce > 3 ∧ packet.nonce ≠ 0xffffffff ∧ ∃ handle session message,
    SessionManager.sessionForHandle
      (Endian.bigEndianToHost32 (handle_be &&& ~~~HANDLE_FLAG_BIT_be)) context.sm = some handle ∧
    context.sm.find handle = some session ∧
    (CryptoAuth.receiveMessage setting.cryptoAuth moment.nowSecs (moment.chance 0) packet context.rand
      session.wrapper).outcome = .passed message

/-- No data packet is passed on while the handle of another packet waits in the context. -/
def NothingWaits (setting : Setting) (moment : Moment) (context : Ducttape) : Event → Prop
  | .called (.incomingFromSwitch _ handle_be packet) =>
      OpensData setting moment handle_be packet context → context.currentSessionVersion = 0
  | _ => True

theorem sendInner_tracks {depth : ℕ} {header : IP6Header} (tracks : Tracks past context)
    (sends : sendInner setting depth moment header message context = some after) :
    Tracks past after := by
  simp only [sendInner, Option.bind_eq_some_iff] at sends
  rcases sends with ⟨session, -, sends⟩
  split at sends
  · cases sends
  rcases Option.bind_eq_some_iff.mp sends with ⟨⟨packet, encrypted⟩, encrypts, sends⟩
  have found := getSession_sameHandles header.destinationAddr none moment.nowSecs context.sm
  have sealed := encrypt_sameHandles encrypts
  have toEncrypted : SameHandles context encrypted := by
    refine ⟨SameHandlesIn.trans ?_ sealed.sm, sealed.deeds⟩
    dsimp only
    refine found.trans ?_
    apply SameHandlesIn.modify
    exact fun _ => rfl
  exact outgoingFromCryptoAuth_tracks (core_keepsTracks _ _ _ _) (toEncrypted.tracks tracks) sends

theorem incomingFromTun_tracks {depth : ℕ} {ethertype : BitVec 16} (tracks : Tracks past context)
    (receives : incomingFromTun setting depth moment ethertype message context = some after) :
    Tracks past after := by
  have asked (nextHop : Option ℕ) :
      Tracks past { context with switchHeader := none, forwardTo := nextHop } :=
    ⟨tracks.last, tracks.known, tracks.carried⟩
  rcases incomingFromTun_eq_some receives with rfl | rfl | rfl |
    ⟨-, -, -, -, -, ⟨_, -, ⟨-, sends⟩ | ⟨-, sends⟩⟩ | ⟨-, rfl⟩⟩
  · exact tracks
  · exact (SameHandles.log _ _ rfl).tracks tracks
  · exact (SameHandles.log _ _ rfl).tracks tracks
  · exact (sendToRouter_sameHandles sends).tracks (asked _)
  · exact sendInner_tracks (asked _) sends
  · exact asked _

theorem sendToNode_sameHandles {nodeIp6Addr : List (BitVec 8)} {nodeKey : Key}
    (sends : sendToNode setting moment nodeIp6Addr nodeKey message context = some after) :
    SameHandles context after := by
  have searches : SameHandles context
      (beginSearch moment nodeIp6Addr { context with switchHeader := none }) := by
    rw [beginSearch]
    split
    · have logged := SameHandles.log (.searched nodeIp6Addr) context rfl
      exact ⟨logged.sm, logged.deeds⟩
    · exact ⟨.refl _, [], (List.append_nil _).symm, by simp⟩
  simp only [sendToNode] at sends
  split at sends
  · split at sends
    · have same := sendToRouter_sameHandles sends
      exact ⟨same.sm, same.deeds⟩
    · rw [← Option.some.inj sends]
      exact searches
  · rw [← Option.some.inj sends]
    exact searches

theorem incomingTraffic_tracks {depth : ℕ} {switchHeader : SwitchHeader} {handle_be : BitVec 32}
    (tracks : Tracks past context)
    (nothing : OpensData setting moment handle_be packet context → context.currentSessionVersion = 0)
    (receives : incomingTraffic setting depth moment switchHeader handle_be packet context =
      some after) : Tracks past after := by
  have tracks := (SameHandles.log (.arrived handle_be packet) context rfl).tracks tracks
  rcases incomingTraffic_eq_some receives with rfl | ⟨handle, data, traffic, known, receives⟩ |
    ⟨sm, handle, early, session, receives⟩
  · exact tracks
  -- The handle in front of a data packet does not wait in the context.
  · refine receive_tracks (core_keepsTracks _ _ _ _) ?_ ?_ receives
    · exact ⟨tracks.last, tracks.known, tracks.carried⟩
    · intro other opened message current found passed
      rcases Option.some.inj current with rfl
      refine ⟨fun _ cached => ?_, fun inner => ?_⟩
      · have empty := nothing ⟨data, traffic, handle, opened, message, known, found, passed⟩
        change context.currentSessionVersion > 0 at cached
        rw [empty] at cached
        exact absurd cached (by decide)
      · cases inner
  -- The handle in front of a handshake packet does.
  · have found := getSession_sameHandles (setting.addressForPublicKey packet.handshake.publicKey)
      (some packet.handshake.publicKey) moment.nowSecs context.sm
    rw [← session] at found
    have entered : SameHandles (context.log (.arrived handle_be packet))
        { context.log (.arrived handle_be packet) with sm := sm } :=
      ⟨found, [], (List.append_nil _).symm, by simp⟩
    have tracks := entered.tracks tracks
    refine receive_tracks (core_keepsTracks _ _ _ _) ?_ ?_ receives
    · exact ⟨tracks.last, tracks.known, tracks.carried⟩
    · intro other opened message _ _ _
      refine ⟨fun _ _ => ⟨BitVec.le_def.mp early, rfl, handle_be, ?_, rfl⟩, fun inner => ?_⟩
      · exact List.mem_append_right _ (List.mem_singleton_self _)
      · cases inner

theorem handleOutgoing_sameHandles {address : Address} {version : BitVec 32}
    (sends : handleOutgoing setting moment address version message context = some after) :
    SameHandles context after := by
  have same := sendToRouter_sameHandles sends
  exact ⟨same.sm, same.deeds⟩

theorem run_tracks {depth : ℕ} {call : Call} (tracks : Tracks past context)
    (nothing : NothingWaits setting moment context (.called call))
    (runs : run setting depth moment context call = some after) : Tracks past after := by
  cases call with
  | incomingFromSwitch switchHeader handle_be packet =>
      exact incomingTraffic_tracks tracks nothing runs
  | incomingFromTun ethertype message => exact incomingFromTun_tracks tracks runs
  | handleOutgoing address version message =>
      exact (handleOutgoing_sameHandles runs).tracks tracks
  | sendToNode nodeIp6Addr nodeKey message => exact (sendToNode_sameHandles runs).tracks tracks

theorem finish_sameHandles (frame : Frame) (context : Ducttape) :
    SameHandles context (frame.finish context) := by
  refine ⟨?_, [], (List.append_nil _).symm, by simp⟩
  cases released : frame.released with
  | none =>
      simp only [Frame.finish, released]
      exact .refl _
  | some handle =>
      simp only [Frame.finish, released]
      exact .modify _ fun _ => rfl

variable {depth : ℕ} {running next : Running} {event : Event} {stack rest : List Frame}

/-- What a step gives to the sessions -/
theorem step_tracks (tracks : Tracks past { context with deeds := [] })
    (nothing : NothingWaits setting moment context event)
    (steps : step setting depth moment context stack event = some (after, rest)) :
    Tracks past after := by
  cases event with
  | called call =>
      rcases Option.map_eq_some_iff.mp steps with ⟨ran, runs, same⟩
      have ranTracks : Tracks past ran := by
        refine run_tracks ?_ ?_ runs
        · exact ⟨tracks.last, tracks.known, tracks.carried⟩
        · exact nothing
      split at same
      · cases same
        exact ranTracks
      · cases same
        exact (finish_sameHandles ..).tracks ranTracks
  | returned =>
      simp only [step] at steps
      split at steps
      · cases steps
        exact (finish_sameHandles ..).tracks tracks
      · cases steps
  | cleanup =>
      simp only [step] at steps
      split at steps
      · cases steps
        refine SameHandles.tracks ⟨?_, [], rfl, by simp⟩ tracks
        have kept : SameHandlesIn context.sm (SessionManager.cleanup moment.nowSecs context.sm) :=
          (SameHandlesIn.refl context.sm).keep _
        exact kept
      · cases steps
  | learned router =>
      cases steps
      exact ⟨tracks.last, tracks.known, tracks.carried⟩

/-- A run in which no data packet is passed on while the handle of another packet waits -/
def NothingWaitsIn (setting : Setting) (running : Running) (event : Moment × Event) : Prop :=
  NothingWaits setting event.1 running.context event.2

/-- Between two steps, the sessions have the handles that were given to them. -/
structure HandlesTracked (running : Running) : Prop where
  tracks : Tracks running.history.flatten { running.context with deeds := [] }
  carried : ∀ deeds ∈ running.history, ∀ handle sendHandle_be version,
    .bound handle sendHandle_be version ∈ deeds → Carried deeds handle sendHandle_be version

theorem next_handlesTracked (tracked : HandlesTracked running)
    (nothing : NothingWaits setting moment running.context event)
    (steps : running.next setting depth moment event = some next) : HandlesTracked next := by
  rcases next_eq_some steps with ⟨taken, history⟩
  have tracks := step_tracks tracked.tracks nothing taken
  refine ⟨⟨?_, ?_, by simp⟩, fun deeds inside handle sendHandle_be version bound => ?_⟩
  · simpa [history] using tracks.last
  · simpa [history] using tracks.known
  · rw [history] at inside
    rcases List.mem_append.mp inside with earlier | last
    · exact tracked.carried deeds earlier handle sendHandle_be version bound
    · rw [List.mem_singleton.mp last] at bound ⊢
      exact tracks.carried handle sendHandle_be version bound

/--
As long as no data packet is passed on while the handle of another packet waits in the
context, a session is given a handle and a version only together with a handshake
packet that it found authentic and that carried the handle, and has the handle that it
was given last.
-/
theorem handles_bound_by_handshakes
    (reachable : (runs setting depth).Reachable (NothingWaitsIn setting) running) :
    (∀ deeds ∈ running.history, ∀ handle sendHandle_be version,
      .bound handle sendHandle_be version ∈ deeds →
        Carried deeds handle sendHandle_be version) ∧
      ∀ entry ∈ running.context.sm.entries,
        entry.value.sendHandle_be = lastBound running.history.flatten entry.handle := by
  have preserved : (runs setting depth).IsInvariant (NothingWaitsIn setting) HandlesTracked := by
    refine ⟨?_, fun tracked nothing steps => next_handlesTracked tracked nothing steps⟩
    rintro _ ⟨rand, router, rfl⟩
    refine ⟨⟨fun entry inside => ?_, by simp, by simp⟩, by simp⟩
    cases inside
  have tracked := reachable.invariant preserved
  refine ⟨tracked.carried, fun entry inside => ?_⟩
  simpa using tracked.tracks.last entry inside

/-- The deed gives this handle and version to the session. -/
def Deed.isBoundTo (handle : ℕ) (sendHandle_be version : BitVec 32) : Deed → Bool
  | .bound other otherHandle_be otherVersion =>
      other = handle && otherHandle_be = sendHandle_be && otherVersion = version
  | _ => false

theorem bound_mem {deeds : List Deed} {handle : ℕ} {sendHandle_be version : BitVec 32}
    (there : deeds.any (Deed.isBoundTo handle sendHandle_be version) = true) :
    .bound handle sendHandle_be version ∈ deeds := by
  rcases List.any_eq_true.mp there with ⟨deed, inside, same⟩
  cases deed with
  | bound other otherHandle_be otherVersion =>
      simp only [Deed.isBoundTo, Bool.and_eq_true, decide_eq_true_eq] at same
      rw [← same.1.1, ← same.1.2, ← same.2]
      exact inside
  | _ => cases same

/-- The node 3 has sent a hello to the node 0. -/
def helloTaken : Running :=
  (started.next quietSetting 1 firstMoment (.called (.incomingFromSwitch plainSwitchHeader 0x0700
    (helloFrom 3 [1])))).getD started

theorem handles_bound_by_handshakes_helloTaken :
    Carried helloTaken.context.deeds 0 0x0780 1 ∧
      ∀ entry ∈ helloTaken.context.sm.entries,
        entry.value.sendHandle_be = lastBound helloTaken.history.flatten entry.handle := by
  have initial : (runs quietSetting 1).initial started := ⟨_, _, rfl⟩
  have taken : (runs quietSetting 1).step started (firstMoment, .called (.incomingFromSwitch
      plainSwitchHeader 0x0700 (helloFrom 3 [1]))) helloTaken :=
    eq_some_getD started (by decide +kernel)
  have nothing : NothingWaitsIn quietSetting started (firstMoment, .called (.incomingFromSwitch
      plainSwitchHeader 0x0700 (helloFrom 3 [1]))) :=
    fun opens => absurd opens.1 (by decide)
  have tracked := handles_bound_by_handshakes (.step (.initial initial) nothing taken)
  refine ⟨tracked.1 _ ?_ 0 0x0780 1 (bound_mem (by decide +kernel)), tracked.2⟩
  rw [(next_eq_some taken).2]
  exact List.mem_append_right _ (List.mem_singleton_self _)

/-! ## A handle that waits too long -/

/--
No packet with this nonce arrives behind the handle, and the session takes none that
has another nonce or the handle in it.
-/
def Deed.keepsApart (nonce : BitVec 32) (handle : ℕ) (sendHandle_be : BitVec 32) : Deed → Bool
  | .arrived handle_be packet =>
      handle_be ||| HANDLE_FLAG_BIT_be ≠ sendHandle_be || packet.nonce ≠ nonce
  | .session other _ (.took packet box) =>
      other ≠ handle || packet.nonce = nonce &&
        Bytes.load32 box.content ||| HANDLE_FLAG_BIT_be ≠ sendHandle_be
  | _ => true

/-- The handshake packets of the session have a nonce that no packet behind the handle has. -/
theorem not_carried {deeds : List Deed} {handle : ℕ} {sendHandle_be version : BitVec 32}
    (nonce : BitVec 32) (apart : deeds.all (Deed.keepsApart nonce handle sendHandle_be) = true) :
    ¬ Carried deeds handle sendHandle_be version := by
  rw [List.all_eq_true] at apart
  rintro (⟨arrived, took⟩ | ⟨took, -, -⟩)
  · have before := apart _ arrived
    have same := apart _ took
    simp only [Deed.keepsApart, ne_eq, not_true_eq_false, decide_false, Bool.false_or,
      Bool.and_eq_true, decide_eq_true_eq] at before same
    exact before same.1
  · have other := apart _ took
    simp [Deed.keepsApart] at other

/-- The node 2 answers to the first hello of the node 0. -/
def keyFromSecond : Packet where
  nonce := 2
  length := CryptoAuth.Headers_CryptoAuth_SIZE + 1
  handshake := {
    auth := CryptoAuth.Chance.zero.auth
    nonce := 0
    publicKey := .publicKey (.random 2 0)
    box := some {
      sharedSecret := CryptoAuth.getSharedSecret (.random 0 1) (.publicKey (.random 2 0)) none
      nonce := 0
      encryptedTempKey := .publicKey (.random 2 1)
      content := [1]
      maker := 2 } }
  data := none
  garble := CryptoAuth.Chance.zero.garble

/-- The node 2 goes on with data. -/
def dataFromSecond : Packet where
  nonce := 4
  length := 21
  handshake := {
    auth := CryptoAuth.Chance.zero.auth, nonce := 0, publicKey := .zero, box := none }
  data := some {
    secret := (CryptoAuth.getSharedSecret (.random 0 1) (.publicKey (.random 2 1)) none).point
    nonce := (4, 0)
    authenticated := true
    content := [1] }
  garble := CryptoAuth.Chance.zero.garble

/--
A packet for the node 3, whose key is not known, is buffered. Then the node 0 hears of
the key, and is sent an empty hello. While the buffered packet is sent, there is a data
packet of the node 2.
-/
def mixUp : List Event := [
  .called (.incomingFromTun Ethernet_TYPE_IP6 ((plainHeader 0 3).toBytes ++ [1])),
  .returned,
  .called (.incomingFromSwitch plainSwitchHeader 0x0500 keyFromSecond),
  .returned,
  .called (.handleOutgoing (nodeOf 3).address 1 [1]),
  .returned,
  .called (.incomingFromSwitch plainSwitchHeader 0x0700 (helloFrom 3 [])),
  .called (.incomingFromSwitch plainSwitchHeader (Endian.hostToBigEndian32 1) dataFromSecond)]

def mixedUp : Running :=
  (started.play quietSetting 2 firstMoment mixUp).getD started

/-- The session of the node 2 has the handle that only the node 3 has ever sent. -/
theorem handle_of_other_session :
    ¬ ∀ (setting : Setting) (depth : ℕ) (running : Running),
      (runs setting depth).Reachable (fun _ _ => True) running →
      ∀ deeds ∈ running.history, ∀ handle sendHandle_be version,
        .bound handle sendHandle_be version ∈ deeds →
          Carried running.history.flatten handle sendHandle_be version := by
  intro claimed
  have initial : (runs quietSetting 2).initial started := ⟨_, _, rfl⟩
  have played : started.play quietSetting 2 firstMoment mixUp = some mixedUp :=
    eq_some_getD started (by decide +kernel)
  have bound : .bound 1 0x0780 1 ∈ mixedUp.history.flatten := bound_mem (by decide +kernel)
  rcases List.mem_flatten.mp bound with ⟨deeds, inside, bound⟩
  refine not_carried 2 ?_ (claimed quietSetting 2 mixedUp (play_reachable (.initial initial) played)
    deeds inside 1 0x0780 1 bound)
  decide +kernel

end Ducttape

end Cjdns
