import Cjdns.Crypto.ReplayProtector
import Cjdns.Library.KeyAgreement
import Cjdns.Wire.Headers

/-!
# CryptoAuth

The handshake and the transport encryption between two nodes. The primitives are
ideal: a box opens under the secret and the nonce it was sealed with and under
no others, a key agreement is symbolic, a hash stands for what was hashed, and a
key drawn from a random source is new.

The bytes behind the nonce of a packet are read in two ways, as a handshake
header or as a data packet. A packet holds both readings; the one it was not
written for is left to chance.

A call takes the wrapper and the random source and gives their next states, the
packet it sent to the wrapped interface, and what it did with the message. The
upper layer is called last in every function of the source, so whatever it does
in return is a later call.
-/

namespace Cjdns

namespace CryptoAuth

/-! ## Secrets -/

/-- The hash of a password, hashed again for a derivation count. -/
inductive PasswordHash where
  | sha256 (password : String)
  | derived (secret : PasswordHash) (derivations : BitVec 8)
deriving DecidableEq

/-- A secret for one box: the agreed point, mixed with a password hash. -/
structure SharedSecret where
  point : Key
  passwordHash : Option PasswordHash
deriving DecidableEq

/-- `getSharedSecret` -/
def getSharedSecret (myPrivateKey herPublicKey : Key) (passwordHash : Option PasswordHash) :
    SharedSecret where
  point := myPrivateKey.agreement herPublicKey
  passwordHash := passwordHash

/-- The state of `struct Random`: whose it is and how many keys it has given. -/
structure Random where
  source : ℕ
  drawn : ℕ
deriving DecidableEq

/-- `Random_bytes`, for a key -/
def Random.draw (rand : Random) : Key × Random :=
  (.random rand.source rand.drawn, { rand with drawn := rand.drawn + 1 })

/-! ## Packets -/

/-- The seven bytes that a password is looked up by. -/
inductive Lookup where
  | digest (secret : PasswordHash)
  | bytes (value : BitVec 56)
deriving DecidableEq

/-- `union Headers_AuthChallenge` -/
structure AuthChallenge where
  type : BitVec 8
  lookup : Lookup
  /-- The `A` bit -/
  requirePacketAuth : Bool
  derivations : BitVec 15
deriving DecidableEq

/-- The encrypted part of a handshake packet. -/
structure HandshakeBox where
  sharedSecret : SharedSecret
  nonce : BitVec 192
  encryptedTempKey : Key
  content : List (BitVec 8)
  /-- Whose random source the sealing party used; no function reads it. -/
  maker : ℕ
deriving DecidableEq

/-- The fields of `union Headers_CryptoAuth` behind the nonce, with the content. -/
structure Handshake where
  auth : AuthChallenge
  nonce : BitVec 192
  publicKey : Key
  box : Option HandshakeBox

/-- `nonceAs.ints` -/
abbrev CounterNonce := ℕ × ℕ

/-- What `encrypt` has made of a message. -/
structure Enciphered where
  secret : Key
  nonce : CounterNonce
  authenticated : Bool
  content : List (BitVec 8)
deriving DecidableEq

/-- A packet on the wrapped interface. -/
structure Packet where
  nonce : BitVec 32
  length : ℕ
  handshake : Handshake
  data : Option Enciphered
  /-- What the stream cipher makes of the bytes under a key it was not written for. -/
  garble : Key → CounterNonce → List (BitVec 8)

/-- What is left to chance when a packet is written. -/
structure Chance where
  auth : AuthChallenge
  nonce : BitVec 192
  publicKey : Key
  garble : Key → CounterNonce → List (BitVec 8)

/-- All bytes zero -/
def Chance.zero : Chance where
  auth := { type := 0, lookup := .bytes 0, requirePacketAuth := false, derivations := 0 }
  nonce := 0
  publicKey := .zero
  garble := fun _ _ => []

/-- `Headers_CryptoAuth_SIZE` -/
abbrev Headers_CryptoAuth_SIZE : ℕ := 120

/-- `UINT32_MAX`, the nonce of a packet that asks for a hello -/
abbrev connectToMe : ℕ := 2 ^ 32 - 1

/-! ## State -/

/-- `struct CryptoAuth_Auth` -/
structure Auth where
  challenge : AuthChallenge
  secret : PasswordHash
  user : Option ℕ
deriving DecidableEq

/-- `struct CryptoAuth_pvt` -/
structure Context where
  privateKey : Key
  passwords : List Auth
  resetAfterInactivitySeconds : BitVec 32

/-- The field `pub.publicKey` -/
def Context.publicKey (context : Context) : Key :=
  .publicKey context.privateKey

/-- `struct CryptoAuth_Wrapper` -/
structure Wrapper where
  herPerminentPubKey : Key
  user : Option ℕ
  secret : Key
  tempKey : Key
  bufferedMessage : Option (List (BitVec 8))
  password : Option String
  replayProtector : ReplayProtector
  nextNonce : ℕ
  timeOfLastPacket : BitVec 32
  isInitiator : Bool
  authenticatePackets : Bool
  requireAuth : Bool
  hasBufferedMessage : Bool
deriving DecidableEq

/-- `CryptoAuth_wrapInterface` -/
def wrapInterface (herPublicKey : Option Key) (requireAuth authenticatePackets : Bool)
    (nowSecs : BitVec 64) : Wrapper where
  herPerminentPubKey := herPublicKey.getD .zero
  user := none
  secret := .zero
  tempKey := .zero
  bufferedMessage := none
  password := none
  replayProtector := {}
  nextNonce := 0
  timeOfLastPacket := nowSecs.setWidth 32
  isInitiator := false
  authenticatePackets := authenticatePackets
  requireAuth := requireAuth
  hasBufferedMessage := false

/-- `CryptoAuth_setAuth`; type one is the only type there is. -/
def setAuth (password : Option String) (wrapper : Wrapper) : Wrapper :=
  { wrapper with password := password }

/-- The field `authType`, which `CryptoAuth_setAuth` sets along with the password -/
def Wrapper.authType (wrapper : Wrapper) : BitVec 8 :=
  if wrapper.password.isSome then 1 else 0

/-- `knowHerKey` -/
def Wrapper.knowHerKey (wrapper : Wrapper) : Bool :=
  wrapper.herPerminentPubKey != .zero

/-- `CryptoAuth_reset` -/
def reset (wrapper : Wrapper) : Wrapper :=
  { wrapper with nextNonce := 0, isInitiator := false, replayProtector := {} }

/-- The test in `CryptoAuth_getState` for a while without traffic -/
def expires (context : Context) (nowSecs : BitVec 64) (wrapper : Wrapper) : Bool :=
  nowSecs - wrapper.timeOfLastPacket.setWidth 64 >
    context.resetAfterInactivitySeconds.setWidth 64

/-- The reset in `CryptoAuth_getState` -/
def expire (context : Context) (nowSecs : BitVec 64) (wrapper : Wrapper) : Wrapper :=
  if expires context nowSecs wrapper then
    reset { wrapper with timeOfLastPacket := nowSecs.setWidth 32 }
  else wrapper

/-- The states that `CryptoAuth_getState` tells apart -/
inductive State where
  | NEW
  | HANDSHAKE1
  | HANDSHAKE2
  | HANDSHAKE3
  | ESTABLISHED
deriving DecidableEq

/-- The result of `CryptoAuth_getState` -/
def Wrapper.state (wrapper : Wrapper) : State :=
  match wrapper.nextNonce with
  | 0 => .NEW
  | 1 => .HANDSHAKE1
  | 2 | 3 => .HANDSHAKE2
  | 4 => .HANDSHAKE3
  | _ => .ESTABLISHED

/-! ## Passwords -/

/-- `hashPassword` -/
def hashPassword (password : String) : Auth where
  challenge := {
    type := 1
    lookup := .digest (.sha256 password)
    requirePacketAuth := false
    derivations := 0 }
  secret := .sha256 password
  user := none

/-- `getAuth` -/
def getAuth (auth : AuthChallenge) (context : Context) : Option Auth :=
  if auth.type ≠ 1 then none
  else context.passwords.find? fun entry =>
    entry.challenge.type = auth.type && entry.challenge.lookup = auth.lookup

/-- `getPasswordHash_typeOne`; the count goes through a variable of eight bits. -/
def getPasswordHash_typeOne (derivations : BitVec 15) (auth : Auth) : PasswordHash :=
  if derivations = 0 then auth.secret else .derived auth.secret (derivations.setWidth 8)

/-- What `tryAuth` finds out, and the wrapper it leaves behind -/
structure AuthResult where
  passwordHash : Option PasswordHash
  user : Option ℕ
  wrapper : Wrapper

/-- `tryAuth` -/
def tryAuth (context : Context) (challenge : AuthChallenge) (wrapper : Wrapper) : AuthResult :=
  match getAuth challenge context with
  | some auth => {
      passwordHash := some (getPasswordHash_typeOne challenge.derivations auth)
      user := if challenge.derivations = 0 then auth.user else none
      wrapper := wrapper }
  | none => {
      passwordHash := none
      user := none
      wrapper := { wrapper with
        authenticatePackets := wrapper.authenticatePackets || challenge.requirePacketAuth } }

/-! ## Ciphers -/

/-- Where `encrypt` puts the counter. -/
def encryptNonce (nonce : ℕ) (isInitiator : Bool) : CounterNonce :=
  if isInitiator then (0, nonce) else (nonce, 0)

/-- Where `decrypt` puts the counter. -/
def decryptNonce (nonce : ℕ) (isInitiator : Bool) : CounterNonce :=
  if isInitiator then (nonce, 0) else (0, nonce)

/-- `decrypt` -/
def decrypt (nonce : ℕ) (received : Packet) (secret : Key) (isInitiator authenticate : Bool) :
    Option (List (BitVec 8)) :=
  let nonceAs := decryptNonce nonce isInitiator
  let opened := received.data.filter fun data =>
    data.secret = secret && data.nonce = nonceAs && data.authenticated = authenticate
  match opened with
  | some data => some data.content
  | none => if authenticate then none else some (received.garble secret nonceAs)

/-- The packet was written under this secret by a node in the other role. -/
def Packet.opensWith (received : Packet) (secret : Key) (isInitiator : Bool) : Bool :=
  received.data.any fun data =>
    data.secret = secret && data.nonce = decryptNonce received.nonce.toNat isInitiator

/-- `decryptRndNonce`, on the encrypted part of a handshake packet -/
def decryptRndNonce (handshake : Handshake) (sharedSecret : SharedSecret) : Option HandshakeBox :=
  handshake.box.filter fun box =>
    box.sharedSecret = sharedSecret && box.nonce = handshake.nonce

/-! ## Sending -/

/-- What happened in a call, for statements about runs -/
inductive Deed where
  /-- `CryptoAuth_reset` was called. -/
  | reset
  /-- The other node asked for a hello and was taken to have this key. -/
  | asked (herPermKey : Key)
  /-- A packet was sent. -/
  | said (packet : Packet)
  /-- A handshake packet was found authentic. -/
  | took (received : Packet) (box : HandshakeBox)
  /-- A data packet was passed on; it had been written for this secret and role, or not. -/
  | heard (received : Packet) (opened : Bool)

/-- What a call that sends leaves behind -/
structure Written where
  wrapper : Wrapper
  rand : Random
  packet : Packet
  /-- The wrapper was reset before the packet was written. -/
  wasReset : Bool

/-- What happened in a call that sends -/
def Written.deeds (written : Written) : List Deed :=
  (if written.wasReset then [.reset] else []) ++ [.said written.packet]

/-- `genReverseHandshake` -/
def genReverseHandshake (context : Context) (chance : Chance) (message : List (BitVec 8))
    (rand : Random) (wrapper : Wrapper) : Written where
  wrapper := { wrapper with
    nextNonce := 0, bufferedMessage := some message, hasBufferedMessage := true }
  rand := rand
  wasReset := false
  packet := {
    nonce := BitVec.ofNat 32 connectToMe
    length := Headers_CryptoAuth_SIZE
    handshake := {
      auth := chance.auth, nonce := chance.nonce, publicKey := context.publicKey, box := none }
    data := none
    garble := chance.garble }

/-- `encryptHandshake` -/
def encryptHandshake (context : Context) (chance : Chance) (message : List (BitVec 8))
    (rand : Random) (wrapper : Wrapper) : Written :=
  if !wrapper.knowHerKey then genReverseHandshake context chance message rand wrapper
  else
    let passwordHash := wrapper.password.map fun password => (hashPassword password).secret
    let challenge := match wrapper.password with
      | some password => (hashPassword password).challenge
      | none => chance.auth
    let auth := { challenge with
      type := wrapper.authType, requirePacketAuth := wrapper.authenticatePackets }
    -- A hello and the first key get a new pair of temporary keys.
    let (secret, rest) :=
      if wrapper.nextNonce = 0 ∨ wrapper.nextNonce = 2 then rand.draw else (wrapper.secret, rand)
    let tempKey := if wrapper.nextNonce = 0 then .publicKey secret else wrapper.tempKey
    let encryptedTempKey :=
      if wrapper.nextNonce = 0 ∨ wrapper.nextNonce = 2 ∨ wrapper.nextNonce = 3 then
        .publicKey secret
      else wrapper.tempKey
    let sharedSecret := getSharedSecret context.privateKey
      (if wrapper.nextNonce < 2 then wrapper.herPerminentPubKey else wrapper.tempKey) passwordHash
    { wrapper := { wrapper with
        secret := secret
        tempKey := tempKey
        isInitiator := if wrapper.nextNonce < 2 then true else wrapper.isInitiator
        nextNonce := if wrapper.nextNonce < 2 then 1 else 3 }
      rand := rest
      wasReset := false
      packet := {
        nonce := BitVec.ofNat 32 wrapper.nextNonce
        length := Headers_CryptoAuth_SIZE + message.length
        handshake := {
          auth := auth
          nonce := chance.nonce
          publicKey := context.publicKey
          box := some {
            sharedSecret := sharedSecret
            nonce := chance.nonce
            encryptedTempKey := encryptedTempKey
            content := message
            maker := rand.source } }
        data := none
        garble := chance.garble } }

/-- `encryptMessage` -/
def encryptMessage (chance : Chance) (message : List (BitVec 8)) (rand : Random)
    (wrapper : Wrapper) : Written where
  wrapper := { wrapper with nextNonce := (wrapper.nextNonce + 1) % 2 ^ 32 }
  rand := rand
  wasReset := false
  packet := {
    nonce := BitVec.ofNat 32 wrapper.nextNonce
    length := 4 + (if wrapper.authenticatePackets then 16 else 0) + message.length
    handshake := {
      auth := chance.auth, nonce := chance.nonce, publicKey := chance.publicKey, box := none }
    data := some {
      secret := wrapper.secret
      nonce := encryptNonce wrapper.nextNonce wrapper.isInitiator
      authenticated := wrapper.authenticatePackets
      content := message }
    garble := chance.garble }

/-- The secret of an established connection, which the final step of the handshake computes -/
def Wrapper.finalSecret (wrapper : Wrapper) : Key :=
  (getSharedSecret wrapper.secret wrapper.tempKey none).point

/-- `sendMessage`, behind the call of `CryptoAuth_getState` -/
def sendUnexpired (context : Context) (chance : Chance) (message : List (BitVec 8)) (rand : Random)
    (wrapper : Wrapper) : Written :=
  if wrapper.nextNonce < 4 then encryptHandshake context chance message rand wrapper
  else if wrapper.nextNonce < 5 then
    encryptMessage chance message rand { wrapper with secret := wrapper.finalSecret }
  else encryptMessage chance message rand wrapper

/-- `sendMessage` -/
def sendMessage (context : Context) (nowSecs : BitVec 64) (chance : Chance)
    (message : List (BitVec 8)) (rand : Random) (wrapper : Wrapper) : Written :=
  { sendUnexpired context chance message rand (expire context nowSecs wrapper) with
    wasReset := expires context nowSecs wrapper }

/-! ## Receiving -/

/-- What a call made of a packet -/
inductive Outcome where
  /-- It returned an error of its own. -/
  | refused (error : BitVec 8)
  /-- It returned `Error_NONE` without calling the upper layer. -/
  | silent
  /-- It called the upper layer with a message. -/
  | passed (message : List (BitVec 8))
deriving DecidableEq

/-- What a call that receives leaves behind -/
structure Received where
  wrapper : Wrapper
  rand : Random
  sent : Option Packet
  outcome : Outcome
  deeds : List Deed

/-- A call that returns an error -/
def refuse (error : BitVec 8) (rand : Random) (wrapper : Wrapper) : Received where
  wrapper := wrapper
  rand := rand
  sent := none
  outcome := .refused error
  deeds := []

/-- `callReceivedMessage` -/
def callReceivedMessage (nowSecs : BitVec 64) (message : List (BitVec 8)) (deed : Deed)
    (rand : Random) (wrapper : Wrapper) : Received where
  wrapper := if wrapper.authenticatePackets then
    { wrapper with timeOfLastPacket := nowSecs.setWidth 32 } else wrapper
  rand := rand
  sent := none
  outcome := .passed message
  deeds := [deed]

/-- `decryptMessage`; the packet is not filed in the replay protector where there is no result. -/
def decryptMessage (nonce : ℕ) (content : Packet) (secret : Key) (wrapper : Wrapper) :
    Option (Wrapper × List (BitVec 8)) :=
  if wrapper.authenticatePackets then
    match decrypt nonce content secret wrapper.isInitiator true with
    | none => none
    | some message =>
        let (isNew, replayProtector) := wrapper.replayProtector.checkNonce nonce
        if isNew then some ({ wrapper with replayProtector := replayProtector }, message) else none
  else
    match decrypt nonce content secret wrapper.isInitiator false with
    | none => none
    | some message => some (wrapper, message)

/-- What `decryptHandshake` writes once the authenticator of the packet was found to be right -/
def Wrapper.accept (user : Option ℕ) (herPermKey : Key) (nextNonce : ℕ) (box : HandshakeBox)
    (wrapper : Wrapper) : Wrapper :=
  { wrapper with
    user := user
    tempKey := box.encryptedTempKey
    nextNonce := nextNonce
    isInitiator := if nextNonce = 2 then false else wrapper.isInitiator
    herPerminentPubKey := herPermKey }

/-- The end of `decryptHandshake` -/
def acceptHandshake (context : Context) (nowSecs : BitVec 64) (chance : Chance)
    (received : Packet) (user : Option ℕ) (herPermKey : Key) (nextNonce : ℕ)
    (box : HandshakeBox) (rand : Random) (wrapper : Wrapper) : Received :=
  let wrapper := wrapper.accept user herPermKey nextNonce box
  match wrapper.hasBufferedMessage && box.content.isEmpty, wrapper.bufferedMessage with
  | true, some buffered =>
      let written := sendMessage context nowSecs chance buffered rand wrapper
      { wrapper := { written.wrapper with hasBufferedMessage := false }
        rand := written.rand
        sent := some written.packet
        outcome := .silent
        deeds := .took received box :: written.deeds }
  | _, _ =>
      callReceivedMessage nowSecs box.content (.took received box) rand
        { wrapper with replayProtector := {} }

/-- `decryptHandshake`, for a packet that asks for a hello -/
def answerConnectToMe (context : Context) (chance : Chance) (herPermKey : Key) (rand : Random)
    (wrapper : Wrapper) : Received :=
  let written := encryptHandshake context chance [] rand
    { wrapper with herPerminentPubKey := herPermKey, nextNonce := 0, user := none }
  { wrapper := written.wrapper
    rand := written.rand
    sent := some written.packet
    outcome := .silent
    deeds := .asked herPermKey :: written.deeds }

/-- `decryptHandshake`, from the key it has chosen for the other node to the authenticator -/
def openHandshake (context : Context) (nowSecs : BitVec 64) (chance : Chance) (received : Packet)
    (user : Option ℕ) (herPermKey : Key) (nextNonce : ℕ) (sharedSecret : SharedSecret)
    (rand : Random) (wrapper : Wrapper) : Received :=
  if received.handshake.publicKey ≠ herPermKey then refuse Error.AUTHENTICATION rand wrapper
  else
    match decryptRndNonce received.handshake sharedSecret with
    | none => refuse Error.AUTHENTICATION rand wrapper
    | some box =>
        acceptHandshake context nowSecs chance received user herPermKey nextNonce box rand wrapper

/-- The permanent key that a hello is checked against -/
def Wrapper.helloKey (header : Handshake) (wrapper : Wrapper) : Key :=
  if !wrapper.knowHerKey || wrapper.nextNonce == 0 then header.publicKey
  else wrapper.herPerminentPubKey

/-- `decryptHandshake` -/
def decryptHandshake (context : Context) (nowSecs : BitVec 64) (chance : Chance)
    (received : Packet) (rand : Random) (wrapper : Wrapper) : Received :=
  if received.length < Headers_CryptoAuth_SIZE then
    refuse Error.UNDERSIZE_MESSAGE rand wrapper
  else if wrapper.nextNonce < 2 ∧ received.nonce.toNat = connectToMe ∧ !wrapper.requireAuth then
    answerConnectToMe context chance
      (if wrapper.knowHerKey then wrapper.herPerminentPubKey else received.handshake.publicKey)
      rand wrapper
  else
    let tried := tryAuth context received.handshake.auth wrapper
    let wrapper := tried.wrapper
    if wrapper.requireAuth && tried.user.isNone then refuse Error.AUTHENTICATION rand wrapper
    else if tried.passwordHash.isNone && received.handshake.auth.type != 0 then
      refuse Error.AUTHENTICATION rand wrapper
    else if received.nonce.toNat < 2 then
      let herPermKey := wrapper.helloKey received.handshake
      openHandshake context nowSecs chance received tried.user herPermKey 2
        (getSharedSecret context.privateKey herPermKey tried.passwordHash) rand wrapper
    else
      openHandshake context nowSecs chance received tried.user wrapper.herPerminentPubKey 4
        (getSharedSecret wrapper.secret wrapper.herPerminentPubKey tried.passwordHash) rand wrapper

/-- `receiveMessage`, for what may be the first data packet -/
def finalStep (nowSecs : BitVec 64) (received : Packet) (rand : Random) (wrapper : Wrapper) :
    Received :=
  -- The state is advanced before the packet is decrypted, and put back if it does not open.
  let advanced := { wrapper with nextNonce := wrapper.nextNonce + 3 }
  match decryptMessage received.nonce.toNat received wrapper.finalSecret advanced with
  | some (after, message) =>
      callReceivedMessage nowSecs message
        (.heard received (received.opensWith wrapper.finalSecret wrapper.isInitiator)) rand
        { after with secret := wrapper.finalSecret }
  | none => { refuse Error.UNDELIVERABLE rand (reset advanced) with deeds := [.reset] }

/-- `receiveMessage`, for a data packet of an established connection -/
def receiveData (nowSecs : BitVec 64) (received : Packet) (rand : Random) (wrapper : Wrapper) :
    Received :=
  match decryptMessage received.nonce.toNat received wrapper.secret wrapper with
  | some (after, message) =>
      callReceivedMessage nowSecs message
        (.heard received (received.opensWith wrapper.secret wrapper.isInitiator)) rand after
  | none => refuse Error.UNDELIVERABLE rand wrapper

/-- The length below which `receiveMessage` drops a packet -/
def Wrapper.minLength (wrapper : Wrapper) : ℕ :=
  if wrapper.authenticatePackets then 20 else 4

/-- `receiveMessage` -/
def receiveMessage (context : Context) (nowSecs : BitVec 64) (chance : Chance)
    (received : Packet) (rand : Random) (wrapper : Wrapper) : Received :=
  let nonce := received.nonce.toNat
  if received.length < wrapper.minLength then refuse Error.UNDERSIZE_MESSAGE rand wrapper
  else if wrapper.nextNonce < 5 then
    if 3 < nonce ∧ nonce ≠ connectToMe ∧ wrapper.knowHerKey then
      finalStep nowSecs received rand wrapper
    else decryptHandshake context nowSecs chance received rand wrapper
  else if 4 < nonce then receiveData nowSecs received rand wrapper
  else decryptHandshake context nowSecs chance received rand wrapper

end CryptoAuth

end Cjdns
