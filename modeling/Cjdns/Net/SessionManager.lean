import Cjdns.Crypto.CryptoAuth
import Cjdns.Util.Map
import Cjdns.Wire.IP6Header

/-!
# Sessions

`interface/SessionManager.c` keeps a CryptoAuth session for every address. A session
may be there before the key of the other node is known.
-/

namespace Cjdns

/-- `struct SessionManager_Session` -/
structure Session where
  /-- What `iface` belongs to -/
  wrapper : CryptoAuth.Wrapper
  lastMessageTime : BitVec 32
  receiveHandle_be : BitVec 32
  sendHandle_be : BitVec 32
  version : BitVec 32
  ip6 : List (BitVec 8)
  /-- The IPv6 header in the padding of the buffered message, where there is one -/
  bufferedHeader : Option IP6Header

/-- The map of a `struct SessionManager` -/
abbrev SessionManager := Map (List (BitVec 8)) Session

namespace SessionManager

/-- `SESSION_TIMEOUT_SECONDS` -/
abbrev SESSION_TIMEOUT_SECONDS : BitVec 64 := 600

/-- The test in `cleanup` -/
def isIdle (nowSecs : BitVec 64) (session : Session) : Bool :=
  session.lastMessageTime.setWidth 64 < nowSecs - SESSION_TIMEOUT_SECONDS

/-- `cleanup` -/
def cleanup (nowSecs : BitVec 64) (sm : SessionManager) : SessionManager :=
  sm.keep fun session => !isIdle nowSecs session

/-- The session that `SessionManager_getSession` creates -/
def newSession (lookupKey : List (BitVec 8)) (cryptoKey : Option Key) (nowSecs : BitVec 64)
    (handle : ℕ) : Session where
  wrapper := CryptoAuth.wrapInterface cryptoKey false true nowSecs
  lastMessageTime := nowSecs.setWidth 32
  receiveHandle_be := Endian.hostToBigEndian32 (BitVec.ofNat 32 handle)
  sendHandle_be := 0
  version := 0
  ip6 := lookupKey
  bufferedHeader := none

/-- What `SessionManager_getSession` does to a session that exists -/
def refresh (cryptoKey : Option Key) (nowSecs : BitVec 64) (session : Session) : Session :=
  { session with
    lastMessageTime := nowSecs.setWidth 32
    wrapper := { session.wrapper with
      herPerminentPubKey :=
        if session.wrapper.knowHerKey then session.wrapper.herPerminentPubKey
        else cryptoKey.getD session.wrapper.herPerminentPubKey } }

/-- `SessionManager_getSession`, with the handle of the session -/
def getSession (lookupKey : List (BitVec 8)) (cryptoKey : Option Key) (nowSecs : BitVec 64)
    (sm : SessionManager) : SessionManager × ℕ :=
  match sm.indexForKey lookupKey with
  | none =>
      let sm := cleanup nowSecs sm
      sm.put lookupKey (newSession lookupKey cryptoKey nowSecs sm.nextHandle)
  | some entry => (sm.modify entry.handle (refresh cryptoKey nowSecs), entry.handle)

/-- `SessionManager_sessionForHandle` -/
def sessionForHandle (handle : BitVec 32) (sm : SessionManager) : Option ℕ :=
  (sm.indexForHandle handle).map (·.handle)

variable {keeps : Map.Entry (List (BitVec 8)) Session → Map.Entry (List (BitVec 8)) Session → Prop}
  {starts : Map.Entry (List (BitVec 8)) Session → Prop} {start sm : SessionManager}

/-- What `getSession` does to the sessions: one is refreshed, or one is new. -/
theorem getSession_evolves {lookupKey : List (BitVec 8)} {cryptoKey : Option Key}
    {nowSecs : BitVec 64} (evolves : Map.Evolves keeps starts start sm)
    (refreshes : ∀ entry ∈ sm.entries, entry.key = lookupKey →
      Map.Allows keeps starts (refresh cryptoKey nowSecs) entry)
    (begins : ∀ handle, starts
      { handle := handle, key := lookupKey, value := newSession lookupKey cryptoKey nowSecs handle }) :
    Map.Evolves keeps starts start (getSession lookupKey cryptoKey nowSecs sm).1 := by
  cases found : sm.indexForKey lookupKey with
  | none =>
      simp only [getSession, found, Map.put, cleanup, Map.indexForKey_keep found]
      exact (evolves.keep _).push (begins _)
  | some entry =>
      simp only [getSession, found]
      rcases Map.indexForKey_eq_some found with ⟨inside, key⟩
      refine evolves.modify fun other otherInside same => ?_
      rw [Map.eq_of_handle_eq otherInside inside same]
      exact refreshes entry inside key

end SessionManager

end Cjdns
