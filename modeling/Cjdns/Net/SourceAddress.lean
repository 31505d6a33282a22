import Cjdns.Crypto.Endpoint
import Cjdns.Net.Ducttape

/-!
# Source addresses

The address of a node is computed from its key. A session is looked up by an address,
and takes the key from a handshake packet if it has none or starts over. In the outer
layer the session is looked up by the address of that key. In the inner layer it is
looked up by the source of the IPv6 header, and nothing compares the address with the
key: `incomingForMe` compares two copies of the address.
-/

namespace Cjdns

open CryptoAuth (Packet)

namespace Ducttape

/-! ## Names -/

/--
The deed gives no session the key of another address, and sends nothing from this node
to itself.
-/
def Deed.isNamed (setting : Setting) : Deed → Bool
  | .session _ ip6 (.asked herPermKey) => setting.addressForPublicKey herPermKey = ip6
  | .session _ ip6 (.took packet _) =>
      setting.addressForPublicKey packet.handshake.publicKey = ip6
  | .fromMe header =>
      header.destinationAddr ≠ setting.myAddr || header.sourceAddr ≠ setting.myAddr
  | _ => true

/-- The content is of a message that was decrypted under a key of the address. -/
def Opened (setting : Setting) (deeds : List Deed) (key : Key) (ip6 content : List (BitVec 8)) :
    Prop :=
  ∃ handle message, .opened handle key message ∈ deeds ∧ content <:+: message ∧
    setting.addressForPublicKey key = ip6

/-- What is delivered as coming from an address was decrypted under a key of that address. -/
def Vouched (setting : Setting) (deeds : List Deed) : Deed → Prop
  | .toUser header content => ∃ key, Opened setting deeds key header.sourceAddr content
  | .toDht address content => Opened setting deeds address.key address.ip6 content
  | _ => True

/-- The session has a key of the address by which it is looked up, or none. -/
structure Named (setting : Setting) (entry : Map.Entry (List (BitVec 8)) Session) : Prop where
  key : entry.key = entry.value.ip6
  wrapper : entry.value.wrapper.Trusts fun key => setting.addressForPublicKey key = entry.value.ip6

/-- All sessions are named. -/
abbrev Names (setting : Setting) (sm : SessionManager) : Prop :=
  Map.Evolves (fun _ _ => True) (Named setting) Map.empty sm

/-- The addresses that the router knows are those of the keys. -/
def Router.Matches (setting : Setting) (router : Router) : Prop :=
  ∀ index, setting.addressForPublicKey (router.nodes index).address.key =
    (router.nodes index).address.ip6

/-- What holds as long as no deed gives a session a wrong key -/
structure Sound (setting : Setting) (sm : SessionManager) (router : Router) (deeds : List Deed) :
    Prop where
  sessions : Names setting sm
  nodes : router.Matches setting
  vouched : ∀ deed ∈ deeds, Vouched setting deeds deed

/-- All deeds so far are named. -/
abbrev AllNamed (setting : Setting) (deeds : List Deed) : Prop :=
  ∀ deed ∈ deeds, deed.isNamed setting = true

/-- If all deeds so far are named, everything is sound. -/
def Genuine (setting : Setting) (context : Ducttape) : Prop :=
  AllNamed setting context.deeds → Sound setting context.sm context.router context.deeds

variable {setting : Setting} {moment : Moment} {context after : Ducttape} {sm : SessionManager}

theorem Opened.mono {deeds more : List Deed} {key : Key} {ip6 content : List (BitVec 8)}
    (opened : Opened setting deeds key ip6 content) (grows : ∀ deed ∈ deeds, deed ∈ more) :
    Opened setting more key ip6 content := by
  rcases opened with ⟨handle, message, inside, part, named⟩
  exact ⟨handle, message, grows _ inside, part, named⟩

theorem Vouched.mono {deeds more : List Deed} {deed : Deed} (vouched : Vouched setting deeds deed)
    (grows : ∀ deed ∈ deeds, deed ∈ more) : Vouched setting more deed := by
  cases deed with
  | toUser header content =>
      rcases vouched with ⟨key, opened⟩
      exact ⟨key, opened.mono grows⟩
  | toDht address content => exact Opened.mono vouched grows
  | _ => trivial

/-! ## Changes of the sessions -/

/-- The session keeps its name in the change. -/
def KeepsName (setting : Setting) (change : Session → Session) (session : Session) : Prop :=
  (change session).ip6 = session.ip6 ∧
    (session.wrapper.Trusts (fun key => setting.addressForPublicKey key = session.ip6) →
      (change session).wrapper.Trusts fun key => setting.addressForPublicKey key = session.ip6)

theorem Names.modify {handle : ℕ} {change : Session → Session} (names : Names setting sm)
    (keeps : ∀ session, sm.find handle = some session → KeepsName setting change session) :
    Names setting (sm.modify handle change) := by
  refine Map.Evolves.modify names fun entry inside same => ⟨fun _ _ => trivial, fun named => ?_⟩
  rcases keeps entry.value (same ▸ Map.find_of_mem inside) with ⟨ip6, wrapper⟩
  refine ⟨named.key.trans ip6.symm, ?_⟩
  simp only [ip6]
  exact wrapper named.wrapper

theorem Names.of_find {handle : ℕ} {session : Session} (names : Names setting sm)
    (found : sm.find handle = some session) :
    session.wrapper.Trusts fun key => setting.addressForPublicKey key = session.ip6 := by
  rcases Map.find_eq_some found with ⟨entry, inside, -, rfl⟩
  exact (names.starts_of_mem inside).wrapper

theorem getSession_names {lookupKey : List (BitVec 8)} {cryptoKey : Option Key}
    (nowSecs : BitVec 64) (names : Names setting sm)
    (same : ∀ key, cryptoKey = some key → setting.addressForPublicKey key = lookupKey) :
    Names setting (SessionManager.getSession lookupKey cryptoKey nowSecs sm).1 := by
  refine SessionManager.getSession_evolves names (fun entry inside key => ?_) fun handle => ?_
  · refine ⟨fun _ _ => trivial, fun named => ⟨named.key, ?_⟩⟩
    cases known : entry.value.wrapper.knowHerKey with
    | true => simpa [SessionManager.refresh, known] using named.wrapper
    | false =>
        cases cryptoKey with
        | none => simpa [SessionManager.refresh, known] using named.wrapper
        | some cryptoKey =>
            refine .inr ?_
            simpa [SessionManager.refresh, known, ← named.key, key] using same cryptoKey rfl
  · refine ⟨rfl, ?_⟩
    cases cryptoKey with
    | none => exact .inl ⟨rfl, Nat.two_pos⟩
    | some cryptoKey => exact .inr (same cryptoKey rfl)

namespace Genuine

theorem log {deed : Deed} (genuine : Genuine setting context)
    (vouched : AllNamed setting context.deeds → Vouched setting context.deeds deed) :
    Genuine setting (context.log deed) := by
  intro named
  have grows : ∀ earlier ∈ context.deeds, earlier ∈ context.deeds ++ [deed] :=
    fun _ => List.mem_append_left _
  have earlierNamed : AllNamed setting context.deeds := fun earlier inside =>
    named earlier (grows earlier inside)
  have sound := genuine earlierNamed
  refine ⟨sound.sessions, sound.nodes, fun other inside => ?_⟩
  rcases List.mem_append.mp inside with earlier | last
  · exact (sound.vouched other earlier).mono grows
  · rw [List.mem_singleton.mp last]
    exact (vouched earlierNamed).mono grows

theorem assign {change : Session → Session} (genuine : Genuine setting context)
    (keeps : AllNamed setting context.deeds → ∀ session, context.current = some session →
      KeepsName setting change session) :
    Genuine setting (context.assign change) := by
  rw [Ducttape.assign]
  split
  · rename_i handle current
    intro named
    have sound := genuine named
    refine ⟨sound.sessions.modify fun session found => keeps named session ?_, sound.nodes,
      sound.vouched⟩
    rw [Ducttape.current, current]
    exact found
  · exact genuine

theorem assign_sm {change : Session → Session} (genuine : Genuine setting context)
    (keeps : AllNamed setting context.deeds → ∀ session, context.current = some session →
      KeepsName setting change session) :
    Genuine setting { context with sm := (context.assign change).sm } := by
  rw [← assign_eq]
  exact genuine.assign keeps

/-- The sessions may be replaced by other ones that are named. -/
theorem replace (genuine : Genuine setting context)
    (names : Router.Matches setting context.router → Names setting context.sm →
      Names setting sm) : Genuine setting { context with sm := sm } := by
  intro named
  have sound := genuine named
  exact ⟨names sound.nodes sound.sessions, sound.nodes, sound.vouched⟩

end Genuine

theorem sendToSwitch_genuine {packet : Packet} (genuine : Genuine setting context)
    (sends : sendToSwitch setting moment packet context = some after) : Genuine setting after := by
  rcases sendToSwitch_eq_some sends with ⟨session, _, _, current, rfl⟩
  refine Genuine.log (genuine.assign fun _ other same => ⟨rfl, fun trusts => ?_⟩) fun _ => trivial
  rcases Option.some.inj (current.symm.trans same) with rfl
  exact CryptoAuth.expire_trusts _ _ trusts

theorem encrypt_genuine {header : Option IP6Header} {message : List (BitVec 8)} {packet : Packet}
    (genuine : Genuine setting context)
    (encrypts : encrypt setting moment header message context = some (packet, after)) :
    Genuine setting after := by
  rcases encrypt_eq_some encrypts with ⟨session, written, current, rfl, rfl⟩
  refine genuine.assign_sm fun _ other same => ⟨rfl, fun trusts => ?_⟩
  rcases Option.some.inj (current.symm.trans same) with rfl
  exact CryptoAuth.sendMessage_trusts _ _ _ _ _ trusts

theorem setVersion_matches {router : Router} (version : BitVec 32) (pointer : NodePointer)
    (matching : router.Matches setting) : (router.setVersion version pointer).Matches setting := by
  cases pointer with
  | onStack node => exact matching
  | stored stored =>
      intro index
      by_cases same : index = stored
      · simpa [Router.setVersion, same] using matching stored
      · simpa [Router.setVersion, same] using matching index

theorem sendToRouter_genuine {pointer : NodePointer} {message : List (BitVec 8)}
    (genuine : Genuine setting context)
    (matching : Router.Matches setting context.router →
      setting.addressForPublicKey (pointer.node context.router).address.key =
        (pointer.node context.router).address.ip6)
    (sends : sendToRouter setting moment pointer message context = some after) :
    Genuine setting after := by
  simp only [sendToRouter, Option.bind_eq_some_iff, Prod.exists] at sends
  rcases sends with ⟨session, -, packet, encrypted, encrypts, sends⟩
  have sealed : Genuine setting encrypted := by
    refine encrypt_genuine (fun named => ?_) encrypts
    have sound := genuine named
    refine ⟨?_, setVersion_matches _ _ sound.nodes, sound.vouched⟩
    dsimp only
    apply Names.modify
    · refine getSession_names _ sound.sessions fun key same => ?_
      rw [← Option.some.inj same]
      exact matching sound.nodes
    · exact fun _ _ => ⟨rfl, id⟩
  refine sendToSwitch_genuine ?_ sends
  exact sealed

/-! ## Packets for this node -/

theorem deliverForMe_genuine {message ip6 : List (BitVec 8)} {herPubKey : Key}
    (genuine : Genuine setting context)
    (opened : AllNamed setting context.deeds →
      Opened setting context.deeds herPubKey ip6 message)
    (delivers : deliverForMe setting message ip6 herPubKey context = some after) :
    Genuine setting after := by
  rcases deliverForMe_eq_some delivers with
    rfl | ⟨same, ⟨path, content, part, rfl⟩ | ⟨header, source, rfl⟩⟩
  · exact genuine
  · refine genuine.log fun named => ?_
    rcases opened named with ⟨handle, whole, inside, wholePart, key⟩
    exact ⟨handle, whole, inside, part.trans wholePart, key⟩
  · refine genuine.log fun named => ⟨herPubKey, ?_⟩
    rw [source, ← same]
    exact opened named

/-- The content was decrypted in the current session. -/
def FromCurrent (setting : Setting) (herPubKey : Key) (content : List (BitVec 8))
    (context : Ducttape) : Prop :=
  AllNamed setting context.deeds → ∀ session, context.current = some session →
    session.wrapper.herPerminentPubKey = herPubKey ∧
      Opened setting context.deeds herPubKey session.ip6 content

theorem FromCurrent.part {herPubKey : Key} {content part : List (BitVec 8)}
    (fromCurrent : FromCurrent setting herPubKey content context) (isPart : part <:+: content) :
    FromCurrent setting herPubKey part context := by
  intro named session current
  rcases fromCurrent named session current with ⟨key, handle, message, inside, whole, matching⟩
  exact ⟨key, handle, message, inside, isPart.trans whole, matching⟩

theorem current_assign (change : Session → Session) (context : Ducttape) :
    (context.assign change).current = context.current.map change := by
  cases pointer : context.session with
  | none => simp [assign, current, pointer]
  | some handle => simp [assign, current, pointer, Map.find_modify]

/-- The current session is given a handle and a version. -/
def bind (handle : ℕ) (sendHandle_be version : BitVec 32) (context : Ducttape) : Ducttape :=
  (context.assign fun session => { session with
    sendHandle_be := sendHandle_be, version := version }).log (.bound handle sendHandle_be version)

variable (handle : ℕ) (sendHandle_be version : BitVec 32)

theorem current_bind : (context.bind handle sendHandle_be version).current =
    context.current.map fun session => { session with
      sendHandle_be := sendHandle_be, version := version } :=
  current_assign _ context

theorem Genuine.bind (genuine : Genuine setting context) :
    Genuine setting (context.bind handle sendHandle_be version) := by
  refine Genuine.log ?_ fun _ => trivial
  exact genuine.assign fun _ _ _ => ⟨rfl, id⟩

theorem FromCurrent.bind {herPubKey : Key} {content : List (BitVec 8)}
    (fromCurrent : FromCurrent setting herPubKey content context) :
    FromCurrent setting herPubKey content (context.bind handle sendHandle_be version) := by
  intro named session current
  have grows : ∀ earlier ∈ context.deeds,
      earlier ∈ (context.bind handle sendHandle_be version).deeds := by
    intro earlier inside
    rw [Ducttape.bind, assign_eq]
    exact List.mem_append_left _ inside
  rw [current_bind] at current
  rcases Option.map_eq_some_iff.mp current with ⟨before, found, rfl⟩
  rcases fromCurrent (fun earlier inside => named earlier (grows earlier inside)) before found with
    ⟨key, opened⟩
  exact ⟨key, opened.mono grows⟩

theorem incomingForMe_genuine {message : List (BitVec 8)} {herPubKey : Key} {containsHandle : Bool}
    (genuine : Genuine setting context) (fromCurrent : FromCurrent setting herPubKey message context)
    (delivers : incomingForMe setting message herPubKey containsHandle context = some after) :
    Genuine setting after := by
  rcases incomingForMe_eq_some delivers with ⟨handle, session, pointer, found, delivers⟩
  have current : context.current = some session := by
    rw [Ducttape.current, pointer]
    exact found
  rcases delivers with ⟨-, -, delivers⟩ | delivers
  · have bound : Genuine setting (context.bindInner message handle session) :=
      genuine.bind _ _ _
    have fromBound : FromCurrent setting herPubKey (message.drop 4)
        (context.bindInner message handle session) :=
      (fromCurrent.part (List.drop_suffix 4 message).isInfix).bind _ _ _
    have currentBound : (context.bindInner message handle session).current = some _ :=
      (current_bind ..).trans (congrArg (Option.map _) current)
    exact deliverForMe_genuine bound (fun named => (fromBound named _ currentBound).2) delivers
  · exact deliverForMe_genuine genuine (fun named => (fromCurrent named session current).2) delivers

/-! ## Packets that get to `core` -/

/-- A continuation keeps everything sound, if what it gets for this node was just decrypted. -/
def KeepsGenuine (setting : Setting) (core : Continuation) : Prop :=
  ∀ header content context after, Genuine setting context →
    (header.destinationAddr = setting.myAddr →
      ∃ herPubKey, FromCurrent setting herPubKey content context) →
    core header content context = some after → Genuine setting after

variable {core : Continuation} {packet : Packet} {message : List (BitVec 8)} {herPubKey : Key}

theorem bindOuter_genuine (genuine : Genuine setting context) :
    Genuine setting (context.bindOuter handle) := by
  rw [bindOuter]
  split
  · have bound := genuine.bind handle context.currentSessionSendHandle_be
      context.currentSessionVersion
    exact bound
  · exact genuine

theorem bindOuter_fromCurrent (fromCurrent : FromCurrent setting herPubKey message context) :
    FromCurrent setting herPubKey message (context.bindOuter handle) := by
  rw [bindOuter]
  split
  · have bound := fromCurrent.bind handle context.currentSessionSendHandle_be
      context.currentSessionVersion
    exact bound
  · exact fromCurrent

theorem incomingFromRouter_genuine (keeps : KeepsGenuine setting core)
    (genuine : Genuine setting context) (fromCurrent : FromCurrent setting herPubKey message context)
    (receives : incomingFromRouter core message context = some after) : Genuine setting after := by
  simp only [incomingFromRouter, Option.bind_eq_some_iff] at receives
  rcases receives with ⟨handle, -, session, -, receives⟩
  have bound := bindOuter_genuine handle genuine
  split at receives
  · refine keeps _ _ _ _ bound (fun _ => ⟨herPubKey, bindOuter_fromCurrent handle ?_⟩) receives
    exact fromCurrent.part (List.drop_suffix _ _).isInfix
  · rw [← Option.some.inj receives]
    exact bound.log fun _ => trivial

theorem outgoingFromMe_genuine {header : IP6Header} (keeps : KeepsGenuine setting core)
    (genuine : Genuine setting context)
    (sends : outgoingFromMe setting core header packet context = some after) :
    Genuine setting after := by
  have logged : Genuine setting (context.log (.fromMe header)) := genuine.log fun _ => trivial
  simp only [outgoingFromMe] at sends
  split at sends
  · rename_i toMe
    refine keeps _ _ _ _ logged (fun backToMe => ⟨.zero, fun named => ?_⟩) sends
    -- What comes out of the inner layer is not from this node to itself.
    have apart := named (.fromMe header) (List.mem_append_right _ (List.mem_singleton_self _))
    have fromMe : header.sourceAddr = setting.myAddr := backToMe
    simp [Deed.isNamed, toMe, fromMe] at apart
  · rename_i foreign
    split at sends
    · refine keeps _ _ _ _ logged (fun toMe => ?_) sends
      exact absurd toMe foreign
    · cases sends

theorem outgoingFromCryptoAuth_genuine {header : IP6Header} (keeps : KeepsGenuine setting core)
    (genuine : Genuine setting context)
    (sends : outgoingFromCryptoAuth setting moment core header packet context = some after) :
    Genuine setting after := by
  have entered : Genuine setting { context with layer := .INVALID } := genuine
  simp only [outgoingFromCryptoAuth] at sends
  split at sends
  · exact sendToSwitch_genuine entered sends
  · exact outgoingFromMe_genuine keeps entered sends

theorem incomingFromCryptoAuth_genuine (keeps : KeepsGenuine setting core)
    (genuine : Genuine setting context) (fromCurrent : FromCurrent setting herPubKey message context)
    (receives : incomingFromCryptoAuth setting core message herPubKey context = some after) :
    Genuine setting after := by
  have entered : Genuine setting { context with layer := .INVALID } := genuine
  have decrypted : FromCurrent setting herPubKey message { context with layer := .INVALID } :=
    fromCurrent
  simp only [incomingFromCryptoAuth] at receives
  split at receives
  · exact incomingFromRouter_genuine keeps entered decrypted receives
  · exact incomingForMe_genuine entered decrypted receives
  · cases receives

/-! ## What a session takes -/

variable {handle : ℕ} {session : Session} {received : CryptoAuth.Received}

theorem logReceived_genuine (handle : ℕ) (session : Session) (received : CryptoAuth.Received)
    (genuine : Genuine setting context) :
    Genuine setting (context.logReceived handle session received) := by
  intro named
  have sound := genuine fun deed inside => named deed (List.mem_append_left _ inside)
  refine ⟨sound.sessions, sound.nodes, fun deed inside => ?_⟩
  rcases List.mem_append.mp inside with earlier | later
  · exact (sound.vouched deed earlier).mono fun _ => List.mem_append_left _
  · rcases List.mem_map.mp later with ⟨_, -, rfl⟩
    trivial

/-- The wrapper of the current session is replaced by what it has become. -/
theorem react_genuine {change : Session → Session} (genuine : Genuine setting context)
    (current : context.current = some session)
    (called : received = CryptoAuth.receiveMessage setting.cryptoAuth moment.nowSecs
      (moment.chance 0) packet context.rand session.wrapper)
    (reacts : ∀ other, (change other).ip6 = other.ip6 ∧
      ∀ trusted, received.wrapper.Trusts trusted → (change other).wrapper.Trusts trusted) :
    Genuine setting ((context.logReceived handle session received).assign change) := by
  refine (logReceived_genuine handle session received genuine).assign fun named other same => ?_
  rcases Option.some.inj (current.symm.trans same) with rfl
  refine ⟨(reacts session).1, fun trusts => (reacts session).2 _ ?_⟩
  rw [called]
  refine CryptoAuth.receiveMessage_trusts trusts fun deed inside => ?_
  rw [← called] at inside
  have shown := named (.session handle session.ip6 deed)
    (List.mem_append_right _ (List.mem_map_of_mem inside))
  cases deed with
  | asked | took =>
      have same := of_decide_eq_true shown
      exact same
  | reset | said | heard => trivial

theorem take_genuine (genuine : Genuine setting context) (current : context.current = some session)
    (called : received = CryptoAuth.receiveMessage setting.cryptoAuth moment.nowSecs
      (moment.chance 0) packet context.rand session.wrapper) :
    Genuine setting (context.take handle session received) :=
  react_genuine genuine current called fun _ => ⟨rfl, fun _ => id⟩

theorem respond_genuine (sent : Packet) (genuine : Genuine setting context)
    (current : context.current = some session)
    (called : received = CryptoAuth.receiveMessage setting.cryptoAuth moment.nowSecs
      (moment.chance 0) packet context.rand session.wrapper) :
    Genuine setting (context.respond moment handle session received sent) := by
  have assigned : Genuine setting ((context.logReceived handle session received).assign
      (responding moment context.ip6Header received sent)) := by
    refine react_genuine genuine current called fun other => ?_
    rw [responding]
    split
    · exact ⟨rfl, fun _ => id⟩
    · exact ⟨rfl, fun _ => id⟩
  exact assigned

/-- What a session passes on, it has decrypted under a key of its address. -/
theorem passOn_fromCurrent (genuine : Genuine setting (context.passOn handle session received message))
    (current : context.current = some session) (state : 2 ≤ received.wrapper.nextNonce) :
    FromCurrent setting received.wrapper.herPerminentPubKey message
      (context.passOn handle session received message) := by
  intro named taken takenCurrent
  have sound := genuine named
  rcases Option.bind_eq_some_iff.mp takenCurrent with ⟨other, -, found⟩
  have became : (context.passOn handle session received message).current =
      some { session with wrapper := received.wrapper } :=
    (current_assign _ _).trans (congrArg (Option.map _) current)
  rcases Option.some.inj (became.symm.trans takenCurrent) with rfl
  refine ⟨rfl, handle, message, ?_, List.infix_refl message, ?_⟩
  · exact List.mem_append_right _ (List.mem_singleton_self _)
  · refine (sound.sessions.of_find found).resolve_left fun early => ?_
    exact absurd early.2 (Nat.not_lt.mpr state)

theorem receive_genuine (keeps : KeepsGenuine setting core) (genuine : Genuine setting context)
    (receives : receive setting moment core packet context = some after) : Genuine setting after := by
  rcases receive_eq_some receives with ⟨handle, session, received, pointer, found, called, receives⟩
  have current : context.current = some session := by
    rw [Ducttape.current, pointer]
    exact found
  rcases receives with ⟨sent, -, sends⟩ | ⟨message, passed, passes⟩ | rfl
  · exact outgoingFromCryptoAuth_genuine keeps (respond_genuine sent genuine current called) sends
  · have passedOn : Genuine setting (context.passOn handle session received message) :=
      (take_genuine genuine current called).log fun _ => trivial
    have state : 2 ≤ received.wrapper.nextNonce := by
      rw [called] at passed ⊢
      exact CryptoAuth.receiveMessage_passed passed
    exact incomingFromCryptoAuth_genuine keeps passedOn
      (passOn_fromCurrent passedOn current state) passes
  · exact take_genuine genuine current called

/-- `core` delivers only what was decrypted under the right key, however often it is called. -/
theorem core_keepsGenuine (setting : Setting) (depth : ℕ) (moment : Moment) :
    KeepsGenuine setting (Ducttape.core setting depth moment) := by
  induction depth generalizing moment with
  | zero =>
      intro header content context after _ _ goes
      cases goes
  | succ depth ih =>
      intro header content context after genuine forMe goes
      have entered (ip6Header : IP6Header) (ip6Length : ℕ) : Genuine setting { context with
          ip6Header := ip6Header, ip6Length := ip6Length } := genuine
      simp only [Ducttape.core] at goes
      split at goes
      · rename_i toMe
        rcases forMe toMe with ⟨herPubKey, fromCurrent⟩
        rcases Option.bind_eq_some_iff.mp goes with ⟨session, current, goes⟩
        split at goes
        -- Another layer of encryption, in the session of the source
        · refine receive_genuine (ih _) ?_ goes
          refine genuine.replace fun _ names => getSession_names _ names fun key some => ?_
          cases some
        · refine incomingForMe_genuine ?_ ?_ goes
          · exact entered _ _
          · intro named other same
            rcases Option.some.inj (current.symm.trans same) with rfl
            rcases fromCurrent named session current with ⟨key, opened⟩
            exact ⟨rfl, key ▸ opened⟩
      · split at goes
        · rw [← Option.some.inj goes]
          exact genuine
        · have logged (ip6Header : IP6Header) (ip6Length : ℕ) : Genuine setting
              (log (.routed header.destinationAddr (context.forwardTo.or
                (context.router.lookup header.destinationAddr))) { context with
                ip6Header := ip6Header, ip6Length := ip6Length, forwardTo := none }) := by
            refine Genuine.log ?_ fun _ => trivial
            exact genuine
          split at goes
          · refine sendToRouter_genuine (logged _ _) (fun matching => ?_) goes
            exact matching _
          · rw [← Option.some.inj goes]
            exact logged _ _

/-! ## Calls and runs -/

theorem incomingTraffic_genuine {depth : ℕ} {switchHeader : SwitchHeader} {handle_be : BitVec 32}
    (genuine : Genuine setting context)
    (receives : incomingTraffic setting depth moment switchHeader handle_be packet context =
      some after) : Genuine setting after := by
  have arrived : Genuine setting (context.log (.arrived handle_be packet)) :=
    genuine.log fun _ => trivial
  rcases incomingTraffic_eq_some receives with rfl | ⟨handle, -, -, -, receives⟩ |
    ⟨sm, handle, -, session, receives⟩
  · exact arrived
  · refine receive_genuine (core_keepsGenuine _ _ _) ?_ receives
    exact arrived
  · refine receive_genuine (core_keepsGenuine _ _ _) ?_ receives
    refine arrived.replace fun _ names => ?_
    have found : Names setting (SessionManager.getSession
        (setting.addressForPublicKey packet.handshake.publicKey)
        (some packet.handshake.publicKey) moment.nowSecs context.sm).1 :=
      getSession_names moment.nowSecs names fun key same => by rw [Option.some.inj same]
    rw [← session] at found
    exact found

theorem sendInner_genuine {depth : ℕ} {header : IP6Header} (genuine : Genuine setting context)
    (sends : sendInner setting depth moment header message context = some after) :
    Genuine setting after := by
  simp only [sendInner, Option.bind_eq_some_iff] at sends
  rcases sends with ⟨session, found, sends⟩
  split at sends
  · cases sends
  rcases Option.bind_eq_some_iff.mp sends with ⟨⟨packet, encrypted⟩, encrypts, sends⟩
  refine outgoingFromCryptoAuth_genuine (core_keepsGenuine _ _ _) (encrypt_genuine ?_ encrypts) sends
  refine genuine.replace fun _ names => ?_
  apply Names.modify
  · refine getSession_names _ names fun key some => ?_
    cases some
  · intro other same
    rcases Option.some.inj (found.symm.trans same) with rfl
    exact ⟨rfl, CryptoAuth.expire_trusts _ _⟩

theorem incomingFromTun_genuine {depth : ℕ} {ethertype : BitVec 16} (genuine : Genuine setting context)
    (receives : incomingFromTun setting depth moment ethertype message context = some after) :
    Genuine setting after := by
  have asked (nextHop : Option ℕ) :
      Genuine setting { context with switchHeader := none, forwardTo := nextHop } := genuine
  rcases incomingFromTun_eq_some receives with rfl | rfl | rfl |
    ⟨-, -, -, -, -, ⟨_, -, ⟨-, sends⟩ | ⟨-, sends⟩⟩ | ⟨-, rfl⟩⟩
  · exact genuine
  · exact genuine.log fun _ => trivial
  · exact genuine.log fun _ => trivial
  · refine sendToRouter_genuine (asked _) (fun matching => ?_) sends
    exact matching _
  · exact sendInner_genuine (asked _) sends
  · exact asked _

theorem sendToNode_genuine {nodeIp6Addr : List (BitVec 8)} {nodeKey : Key}
    (genuine : Genuine setting context)
    (sends : sendToNode setting moment nodeIp6Addr nodeKey message context = some after) :
    Genuine setting after := by
  have searches : Genuine setting
      (beginSearch moment nodeIp6Addr { context with switchHeader := none }) := by
    rw [beginSearch]
    split
    · refine Genuine.log ?_ fun _ => trivial
      exact genuine
    · exact genuine
  simp only [sendToNode] at sends
  split at sends
  · split at sends
    · refine sendToRouter_genuine ?_ (fun matching => ?_) sends
      · exact genuine
      · exact matching _
    · rw [← Option.some.inj sends]
      exact searches
  · rw [← Option.some.inj sends]
    exact searches

theorem handleOutgoing_genuine {address : Address} {version : BitVec 32}
    (genuine : Genuine setting context)
    (matching : setting.addressForPublicKey address.key = address.ip6)
    (sends : handleOutgoing setting moment address version message context = some after) :
    Genuine setting after := by
  refine sendToRouter_genuine ?_ (fun nodes => ?_) sends
  · exact genuine
  · split
    · exact nodes _
    · exact matching

/-- The addresses that the DHT gives to Ducttape are those of the keys. -/
def AddressesMatch (setting : Setting) (context : Ducttape) : Event → Prop
  | .called (.handleOutgoing address _ _) =>
      context.router.Matches setting ∧ setting.addressForPublicKey address.key = address.ip6
  | _ => context.router.Matches setting

theorem AddressesMatch.nodes {event : Event} (addresses : AddressesMatch setting context event) :
    context.router.Matches setting := by
  cases event with
  | called call =>
      cases call with
      | handleOutgoing => exact addresses.1
      | _ => exact addresses
  | _ => exact addresses

theorem run_genuine {depth : ℕ} {call : Call} (genuine : Genuine setting context)
    (addresses : AddressesMatch setting context (.called call))
    (runs : run setting depth moment context call = some after) : Genuine setting after := by
  cases call with
  | incomingFromSwitch switchHeader handle_be packet => exact incomingTraffic_genuine genuine runs
  | incomingFromTun ethertype message => exact incomingFromTun_genuine genuine runs
  | handleOutgoing address version message =>
      exact handleOutgoing_genuine genuine addresses.2 runs
  | sendToNode nodeIp6Addr nodeKey message => exact sendToNode_genuine genuine runs

theorem finish_names (frame : Frame) (names : Names setting context.sm) :
    Names setting (frame.finish context).sm := by
  cases released : frame.released with
  | none =>
      simp only [Frame.finish, released]
      exact names
  | some handle =>
      simp only [Frame.finish, released]
      exact names.modify fun _ _ => ⟨rfl, id⟩

variable {depth : ℕ} {running next : Running} {event : Event} {stack rest : List Frame}

/-- What a step delivers, if all its deeds are named -/
theorem step_vouched (names : Names setting context.sm)
    (addresses : AddressesMatch setting context event)
    (steps : step setting depth moment context stack event = some (after, rest))
    (named : AllNamed setting after.deeds) :
    Names setting after.sm ∧ ∀ deed ∈ after.deeds, Vouched setting after.deeds deed := by
  cases event with
  | called call =>
      rcases Option.map_eq_some_iff.mp steps with ⟨ran, runs, same⟩
      have genuine : Genuine setting ran := by
        refine run_genuine (fun _ => ?_) ?_ runs
        · exact ⟨names, addresses.nodes, by simp⟩
        · exact addresses
      split at same
      · cases same
        exact ⟨(genuine named).sessions, (genuine named).vouched⟩
      · cases same
        exact ⟨finish_names _ (genuine named).sessions, (genuine named).vouched⟩
  | returned =>
      simp only [step] at steps
      split at steps
      · rename_i frame _
        cases steps
        have finished : Names setting (frame.finish { context with deeds := [] }).sm :=
          finish_names frame names
        exact ⟨finished, by simp [Frame.finish]⟩
      · cases steps
  | cleanup =>
      simp only [step] at steps
      split at steps
      · cases steps
        have kept : Names setting (SessionManager.cleanup moment.nowSecs context.sm) :=
          Map.Evolves.keep names _
        exact ⟨kept, by simp⟩
      · cases steps
  | learned router =>
      cases steps
      exact ⟨names, by simp⟩

/-- The DHT knows every node by the address of its key. -/
def AddressesMatchIn (setting : Setting) (running : Running) (event : Moment × Event) : Prop :=
  AddressesMatch setting running.context event.2

/--
No session takes a handshake packet with the key of another address or answers one, and
the inner layer sends nothing from this node to itself.
-/
def KeysMatchIn (setting : Setting) (depth : ℕ) (running : Running) (event : Moment × Event) :
    Prop :=
  ∀ next, running.next setting depth event.1 event.2 = some next →
    AllNamed setting next.context.deeds

/--
As long as no session takes the key of another address, what is delivered to the user or
to the DHT as coming from an address was decrypted under a key of that address.
-/
theorem delivered_under_key_of_source
    (reachable : (runs setting depth).Reachable
      (fun running event => AddressesMatchIn setting running event ∧
        KeysMatchIn setting depth running event) running)
    {deeds : List Deed} {deed : Deed} (inside : deeds ∈ running.history) (done : deed ∈ deeds) :
    Vouched setting deeds deed := by
  have preserved : (runs setting depth).IsInvariant
      (fun running event => AddressesMatchIn setting running event ∧
        KeysMatchIn setting depth running event)
      fun running => Names setting running.context.sm ∧
        ∀ deeds ∈ running.history, ∀ deed ∈ deeds, Vouched setting deeds deed := by
    refine ⟨?_, ?_⟩
    · rintro _ ⟨rand, router, rfl⟩
      refine ⟨Map.Evolves.refl _ fun _ _ => trivial, by simp⟩
    · rintro before ⟨moment, event⟩ after ⟨names, vouched⟩ ⟨addresses, keys⟩ steps
      rcases next_eq_some steps with ⟨taken, history⟩
      rcases step_vouched names addresses taken (keys after steps) with ⟨namesAfter, last⟩
      refine ⟨namesAfter, fun deeds inside => ?_⟩
      rw [history] at inside
      rcases List.mem_append.mp inside with earlier | latest
      · exact vouched deeds earlier
      · rw [List.mem_singleton.mp latest]
        exact last
  exact (reachable.invariant preserved).2 deeds inside deed done

/-- The deed writes the content to the TUN device as coming from this address. -/
def Deed.isFrom (sourceAddr content : List (BitVec 8)) : Deed → Bool
  | .toUser header other => header.sourceAddr = sourceAddr && other = content
  | _ => false

theorem toUser_mem {deeds : List Deed} {sourceAddr content : List (BitVec 8)}
    (there : deeds.any (Deed.isFrom sourceAddr content) = true) :
    ∃ header : IP6Header, header.sourceAddr = sourceAddr ∧ .toUser header content ∈ deeds := by
  rcases List.any_eq_true.mp there with ⟨deed, inside, same⟩
  cases deed with
  | toUser header other =>
      simp only [Deed.isFrom, Bool.and_eq_true, decide_eq_true_eq] at same
      exact ⟨header, same.1, same.2 ▸ inside⟩
  | _ => cases same

/-- The node 2 sends a packet from one node to this one, in a hello. -/
def sentAs (source : ℕ) : Event :=
  .called (.incomingFromSwitch plainSwitchHeader 0
    (helloFrom 2 ((plainHeader source 0).toBytes ++ [1])))

/-- The node 2 has sent a packet in its own name. -/
def ownName : Running :=
  (started.next quietSetting 1 firstMoment (sentAs 2)).getD started

theorem delivered_under_key_of_source_ownName :
    ∃ key, Opened quietSetting ownName.context.deeds key (addressOf 2) [1] := by
  have initial : (runs quietSetting 1).initial started := ⟨_, _, rfl⟩
  have taken : started.next quietSetting 1 firstMoment (sentAs 2) = some ownName :=
    eq_some_getD started (by decide +kernel)
  have stepped : (runs quietSetting 1).step started (firstMoment, sentAs 2) ownName := taken
  have addresses : AddressesMatchIn quietSetting started (firstMoment, sentAs 2) := fun _ => rfl
  have keys : KeysMatchIn quietSetting 1 started (firstMoment, sentAs 2) := by
    intro next steps
    rw [← Option.some.inj (taken.symm.trans steps)]
    exact List.all_eq_true.mp (by decide +kernel)
  have there : ownName.context.deeds.any (Deed.isFrom (addressOf 2) [1]) = true := by
    decide +kernel
  rcases toUser_mem there with ⟨header, source, inside⟩
  have history : ownName.context.deeds ∈ ownName.history := by
    rw [(next_eq_some taken).2]
    exact List.mem_append_right _ (List.mem_singleton_self _)
  have vouched :=
    delivered_under_key_of_source (.step (.initial initial) ⟨addresses, keys⟩ stepped) history inside
  rw [← source]
  exact vouched

/-! ## A name that is taken -/

/-- The deed passes on no message under a key of the address. -/
def Deed.isNotUnder (setting : Setting) (ip6 : List (BitVec 8)) : Deed → Bool
  | .opened _ key _ => setting.addressForPublicKey key ≠ ip6
  | _ => true

theorem not_opened {setting : Setting} {deeds : List Deed} {key : Key}
    {ip6 content : List (BitVec 8)} (others : deeds.all (Deed.isNotUnder setting ip6) = true) :
    ¬ Opened setting deeds key ip6 content := by
  rintro ⟨handle, message, inside, -, same⟩
  have other := List.all_eq_true.mp others _ inside
  simp [Deed.isNotUnder, same] at other

/-- The content of the packet stands for another hello of the node 2, in the inner layer. -/
def forgingSetting : Setting :=
  { quietSetting with
    readPacket := fun content =>
      if content = [1] then helloFrom 2 [0, 0, 0, 0, 1] else quietSetting.readPacket content }

/-- The node 2 has sent a packet in the name of the node 3. -/
def otherName : Running :=
  (started.next forgingSetting 2 firstMoment (sentAs 3)).getD started

/-- The node 2 delivers a packet as coming from the node 3. -/
theorem delivered_under_other_key :
    ¬ ∀ (setting : Setting) (depth : ℕ) (running : Running),
      (runs setting depth).Reachable (AddressesMatchIn setting) running →
      ∀ deeds ∈ running.history, ∀ deed ∈ deeds, Vouched setting deeds deed := by
  intro claimed
  have initial : (runs forgingSetting 2).initial started := ⟨_, _, rfl⟩
  have taken : started.next forgingSetting 2 firstMoment (sentAs 3) = some otherName :=
    eq_some_getD started (by decide +kernel)
  have stepped : (runs forgingSetting 2).step started (firstMoment, sentAs 3) otherName := taken
  have addresses : AddressesMatchIn forgingSetting started (firstMoment, sentAs 3) := fun _ => rfl
  have there : otherName.context.deeds.any (Deed.isFrom (addressOf 3) [1]) = true := by
    decide +kernel
  rcases toUser_mem there with ⟨header, source, inside⟩
  have history : otherName.context.deeds ∈ otherName.history := by
    rw [(next_eq_some taken).2]
    exact List.mem_append_right _ (List.mem_singleton_self _)
  rcases claimed forgingSetting 2 otherName (.step (.initial initial) addresses stepped) _ history
    _ inside with ⟨key, opened⟩
  rw [source] at opened
  exact not_opened (by decide +kernel) opened

end Ducttape

end Cjdns
