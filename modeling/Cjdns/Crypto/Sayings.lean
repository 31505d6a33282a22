import Cjdns.Crypto.Endpoint

/-!
# What two honest nodes say to each other

The packets of a node that follows the handshake, reduced to what they say, and
the invariant of a node in a run with another one. Every temporary secret is
drawn once, for a hello or for a key, and never comes back once it was given up
for an agreed secret; so an agreed secret under which data was sent tells who
has sent the hello in it.
-/

namespace Cjdns

namespace CryptoAuth

/-! ## Sayings -/

/-- What a packet says -/
inductive Saying where
  | hello (point tempKey : Key)
  | key (point tempKey : Key)
  | data (secret : Key) (isInitiator : Bool)

def Packet.Says (packet : Packet) : Saying → Prop
  | .hello point tempKey => packet.nonce.toNat < 2 ∧
      ∃ box, packet.handshake.box = some box ∧ box.sharedSecret.point = point ∧
        box.encryptedTempKey = tempKey
  | .key point tempKey => 2 ≤ packet.nonce.toNat ∧
      ∃ box, packet.handshake.box = some box ∧ box.sharedSecret.point = point ∧
        box.encryptedTempKey = tempKey
  | .data secret isInitiator => ∃ data, packet.data = some data ∧ data.secret = secret ∧
      ∃ nonce, nonce ≠ 0 ∧ data.nonce = encryptNonce nonce isInitiator

/-- What is said in a deed -/
def Deed.Says : Deed → Saying → Prop
  | .said packet, saying => packet.Says saying
  | .reset, _ | .asked _, _ | .took _ _, _ | .heard _ _, _ => False

variable {packet : Packet} {saying : Saying} {point tempKey secret : Key} {nonce maker : ℕ}
  {isInitiator : Bool}

theorem encryptNonce_inj {nonce other : ℕ} {role otherRole : Bool} (nonzero : nonce ≠ 0)
    (same : encryptNonce nonce role = encryptNonce other otherRole) : role = otherRole := by
  cases role <;> cases otherRole <;> simp [encryptNonce] at same ⊢
  · exact nonzero same.1
  · exact nonzero same.2

theorem decryptNonce_eq (nonce : ℕ) (isInitiator : Bool) :
    decryptNonce nonce isInitiator = encryptNonce nonce (!isInitiator) := by
  cases isInitiator <;> rfl

theorem Packet.IsHandshake.says_hello (written : packet.IsHandshake nonce point tempKey maker)
    (early : nonce < 2) : packet.Says saying ↔ saying = .hello point tempKey := by
  rcases written with ⟨rfl, ⟨box, sealing, rfl, rfl, rfl⟩, noData⟩
  cases saying with
  | hello => simp [Packet.Says, sealing, early, eq_comm]
  | key => simp [Packet.Says, early]
  | data => simp [Packet.Says, noData]

theorem Packet.IsHandshake.says_key (written : packet.IsHandshake nonce point tempKey maker)
    (late : 2 ≤ nonce) : packet.Says saying ↔ saying = .key point tempKey := by
  rcases written with ⟨rfl, ⟨box, sealing, rfl, rfl, rfl⟩, noData⟩
  cases saying with
  | hello => simp [Packet.Says, not_lt.mpr late]
  | key => simp [Packet.Says, sealing, late, eq_comm]
  | data => simp [Packet.Says, noData]

theorem Packet.IsData.says_data (written : packet.IsData nonce secret isInitiator)
    (nonzero : nonce ≠ 0) :
    packet.Says saying ↔ saying = .data secret isInitiator := by
  rcases written with ⟨noBox, data, wrote, rfl, placed⟩
  cases saying with
  | hello => simp [Packet.Says, noBox]
  | key => simp [Packet.Says, noBox]
  | data other role =>
      simp only [Packet.Says, wrote, Option.some.injEq, exists_eq_left', Saying.data.injEq]
      constructor
      · rintro ⟨rfl, otherNonce, _, same⟩
        exact ⟨rfl, (encryptNonce_inj nonzero (placed.symm.trans same)).symm⟩
      · rintro ⟨rfl, rfl⟩
        exact ⟨rfl, nonce, nonzero, placed⟩

theorem Packet.IsBare.says_nothing (bare : packet.IsBare) : ¬packet.Says saying := by
  cases saying with
  | hello => simp [Packet.Says, bare.box]
  | key => simp [Packet.Says, bare.box]
  | data => simp [Packet.Says, bare.data]

/-- A data packet that opens was written by a node in the other role. -/
theorem Packet.says_of_opensWith (opens : packet.opensWith secret isInitiator = true)
    (nonzero : packet.nonce.toNat ≠ 0) : packet.Says (.data secret !isInitiator) := by
  simp only [Packet.opensWith, Option.any_eq_true, Bool.and_eq_true, decide_eq_true_eq] at opens
  rcases opens with ⟨data, wrote, rfl, placed⟩
  exact ⟨data, wrote, rfl, _, nonzero, placed.trans (decryptNonce_eq _ _)⟩

/-- The other direction: the other role opens what was written. -/
theorem Packet.IsData.opensWith (written : packet.IsData packet.nonce.toNat secret isInitiator) :
    packet.opensWith secret (!isInitiator) = true := by
  rcases written with ⟨_, data, wrote, rfl, placed⟩
  simp [Packet.opensWith, wrote, placed, decryptNonce_eq]

/-! ## Secrets of a node -/

/-- The node has drawn the key. -/
def View.Drew (view : View) (key : Key) : Prop :=
  ∃ index < view.rand.drawn, key = .random view.rand.source index

/-- The key is agreed between a secret of the one and a secret of the other. -/
def View.Shares (me you : View) (key : Key) : Prop :=
  ∃ mine yours, me.Drew mine ∧ you.Drew yours ∧ key = mine.agreement (.publicKey yours)

/-- A node gets no secret back that it has given up. -/
structure View.Later (before after : View) : Prop where
  source_eq : after.rand.source = before.rand.source
  drawn_le : before.rand.drawn ≤ after.rand.drawn
  secret_ne : ∀ key, before.Drew key → before.secret ≠ key → after.secret ≠ key

variable {me you before after : View} {key other : Key} {deed : Deed} {context : Context}

theorem View.Later.drew (later : before.Later after) (drew : before.Drew key) : after.Drew key := by
  rcases drew with ⟨index, inside, rfl⟩
  exact ⟨index, inside.trans_le later.drawn_le, by rw [later.source_eq]⟩

theorem View.Drew.ne_agreement (drew : me.Drew key) (secret point : Key) :
    secret.agreement point ≠ key := by
  rcases drew with ⟨index, _, rfl⟩
  exact Key.agreement_ne_random _ _ _ _

theorem View.Drew.ne_fresh (drew : me.Drew key) : me.fresh ≠ key := by
  rcases drew with ⟨index, inside, rfl⟩
  intro same
  rw [Key.random.injEq] at same
  omega

theorem Move.later (move : Move context before deed after) : before.Later after := by
  cases move with
  | reset | asked | ask | helloAgain | keyAgain | data | tookHello | tookKey | heard =>
      exact ⟨rfl, le_rfl, fun _ _ other => other⟩
  | hello | key => exact ⟨rfl, Nat.le_succ _, fun _ drew _ => drew.ne_fresh⟩
  | firstData | final => exact ⟨rfl, le_rfl, fun _ drew _ => drew.ne_agreement _ _⟩

theorem View.Shares.later_left {later : View} (shares : me.Shares you key) (step : me.Later later) :
    later.Shares you key := by
  rcases shares with ⟨x, y, drewX, drewY, same⟩
  exact ⟨x, y, step.drew drewX, drewY, same⟩

theorem View.Shares.later_right {later : View} (shares : me.Shares you key)
    (step : you.Later later) : me.Shares later key := by
  rcases shares with ⟨x, y, drewX, drewY, same⟩
  exact ⟨x, y, drewX, step.drew drewY, same⟩

/-! ## The invariant -/

/-- The kinds of keys that the node holds -/
structure HoldsKeys (herPrivateKey : Key) (me you : View) : Prop where
  apart : me.rand.source ≠ you.rand.source
  bounded : me.nextNonce < 2 ^ 32
  herKey : me.herPerminentPubKey = .publicKey herPrivateKey
  secret : me.secret = .zero ∨ me.Drew me.secret ∨ me.Shares you me.secret
  tempKey : me.tempKey = .zero ∨ ∃ key, me.tempKey = .publicKey key ∧ (me.Drew key ∨ you.Drew key)

/-- What the node has said. A key packet for a secret that the other node still has answers a
hello, and what it offers is new. -/
structure SaysKeys (privateKey herPrivateKey : Key) (me you : View) (mine yours : Saying → Prop) :
    Prop where
  hello : ∀ point tempKey, mine (.hello point tempKey) →
    point = privateKey.agreement (.publicKey herPrivateKey) ∧
      ∃ x, me.Drew x ∧ tempKey = .publicKey x
  key : ∀ point tempKey, mine (.key point tempKey) →
    ∃ y, you.Drew y ∧ point = privateKey.agreement (.publicKey y) ∧
      (∃ z, tempKey = .publicKey z ∧ (me.Drew z ∨ me.Shares you z)) ∧
      (you.secret ≠ y ∨
        (∃ hello, yours (.hello hello (.publicKey y))) ∧ ∃ z, me.Drew z ∧ tempKey = .publicKey z)
  distinct : ∀ hello point tempKey, mine (.hello hello tempKey) → ¬mine (.key point tempKey)

/-- What the node has sent data under. The secret is given up for good, and it was agreed from a
hello of this node, unless the other node has sent data under it too. -/
structure SaysData (me you : View) (mine yours : Saying → Prop) : Prop where
  agreed : ∀ secret role, mine (.data secret role) → ∃ x y, me.Drew x ∧ you.Drew y ∧
    secret = x.agreement (.publicKey y) ∧ me.secret ≠ x ∧
    ((∃ hello, mine (.hello hello (.publicKey x))) ∧
        (∃ point, yours (.key point (.publicKey y))) ∨
      ∃ other, yours (.data secret other))
  role : ∀ secret role, mine (.data secret role) → 5 ≤ me.nextNonce → me.secret = secret →
    me.isInitiator = role
  unique : ∀ secret role other, mine (.data secret role) → mine (.data secret other) → role = other

/-- What the state of the node says about its keys -/
structure InPhase (me you : View) (mine yours : Saying → Prop) : Prop where
  greeted : me.nextNonce = 1 →
    me.Drew me.secret ∧ me.tempKey = .publicKey me.secret ∧ ∃ hello, mine (.hello hello me.tempKey)
  answering : me.nextNonce = 2 ∨ me.nextNonce = 3 →
    ∃ y, you.Drew y ∧ me.tempKey = .publicKey y ∧
      (you.secret ≠ y ∨ ∃ hello, yours (.hello hello me.tempKey))
  answered : me.nextNonce = 3 →
    me.Drew me.secret ∧ (∃ point, mine (.key point (.publicKey me.secret))) ∨
      me.Shares you me.secret ∧ ∃ y, me.tempKey = .publicKey y ∧ you.secret ≠ y
  finishing : me.nextNonce = 4 →
    me.Drew me.secret ∧ (∃ hello, mine (.hello hello (.publicKey me.secret))) ∧
      ∃ y point, you.Drew y ∧ me.tempKey = .publicKey y ∧ yours (.key point (.publicKey y))
  established : 5 ≤ me.nextNonce →
    me.Shares you me.secret ∧
      (mine (.data me.secret me.isInitiator) ∨ yours (.data me.secret !me.isInitiator))

/-- The invariant of a node in a run with another one -/
structure Coherent (privateKey herPrivateKey : Key) (me you : View) (mine yours : Saying → Prop) :
    Prop where
  keys : HoldsKeys herPrivateKey me you
  saysKeys : SaysKeys privateKey herPrivateKey me you mine yours
  saysData : SaysData me you mine yours
  phase : InPhase me you mine yours

variable {privateKey herPrivateKey : Key} {mine yours yours' : Saying → Prop} {you' : View}

/-- A move of the other node leaves the invariant of this one as it is. -/
theorem Coherent.react (coherent : Coherent privateKey herPrivateKey me you mine yours)
    (later : you.Later you') (heard : ∀ saying, yours saying → yours' saying) :
    Coherent privateKey herPrivateKey me you' mine yours' := by
  rcases coherent with ⟨keys, saysKeys, saysData, phase⟩
  refine ⟨⟨?_, keys.bounded, keys.herKey, ?_, ?_⟩, ⟨?_, ?_, saysKeys.distinct⟩,
    ⟨?_, saysData.role, saysData.unique⟩, ⟨phase.greeted, ?_, ?_, ?_, ?_⟩⟩
  · exact later.source_eq ▸ keys.apart
  · exact keys.secret.imp_right (Or.imp_right fun shares => shares.later_right later)
  · refine keys.tempKey.imp_right ?_
    rintro ⟨key, same, drew⟩
    exact ⟨key, same, drew.imp_right later.drew⟩
  · exact saysKeys.hello
  · intro point tempKey said
    rcases saysKeys.key point tempKey said with ⟨y, drew, at_, ⟨z, content, kind⟩, fate⟩
    refine ⟨y, later.drew drew, at_, ⟨z, content, ?_⟩, ?_⟩
    · exact kind.imp_right fun shares => shares.later_right later
    · exact fate.imp (later.secret_ne y drew) (And.imp_left (Exists.imp fun _ => heard _))
  · intro secret role said
    rcases saysData.agreed secret role said with ⟨x, y, drewX, drewY, agreed, gone, origin⟩
    refine ⟨x, y, drewX, later.drew drewY, agreed, gone, ?_⟩
    refine origin.imp (And.imp_right ?_) ?_
    · exact Exists.imp fun _ => heard _
    · exact Exists.imp fun _ => heard _
  · intro state
    rcases phase.answering state with ⟨y, drew, same, fate⟩
    exact ⟨y, later.drew drew, same,
      fate.imp (later.secret_ne y drew) (Exists.imp fun _ => heard _)⟩
  · intro state
    refine (phase.answered state).imp_right ?_
    rintro ⟨shares, y, same, gone⟩
    refine ⟨shares.later_right later, y, same, ?_⟩
    rcases phase.answering (.inr state) with ⟨y', drew, same', _⟩
    have equal : y = y' := by simpa using same.symm.trans same'
    exact later.secret_ne y (equal ▸ drew) gone
  · intro state
    rcases phase.finishing state with ⟨drew, greeted, y, point, drewY, same, answered⟩
    exact ⟨drew, greeted, y, point, later.drew drewY, same, heard _ answered⟩
  · intro state
    rcases phase.established state with ⟨shares, said⟩
    exact ⟨shares.later_right later, said.imp_right (heard _)⟩

end CryptoAuth

end Cjdns
