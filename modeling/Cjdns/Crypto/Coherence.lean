import Cjdns.Crypto.Sayings

/-!
# The invariant of two honest nodes

Every move of a node preserves its invariant, if the packets that it takes were
said by the other node and the final step of the handshake is taken only for a
packet that was written under the secret it computes.
-/

namespace Cjdns

namespace CryptoAuth

variable {context : Context} {privateKey herPrivateKey : Key} {me you after : View}
  {mine yours : Saying → Prop} {deed : Deed}

/-- The node takes only what the other node has said, and the final step of the handshake only for
what opens. -/
def Deed.IsFair (before : View) (yours : Saying → Prop) : Deed → Prop
  | .took received _ => ∀ saying, received.Says saying → yours saying
  | .heard received opened =>
      (∀ saying, received.Says saying → yours saying) ∧ (before.nextNonce < 5 → opened = true)
  | .reset | .asked _ | .said _ => True

/-- What the node has said after a deed -/
def Deed.adds (deed : Deed) (mine : Saying → Prop) (saying : Saying) : Prop :=
  mine saying ∨ deed.Says saying

theorem Deed.said_says {packet : Packet} {saying : Saying} :
    (Deed.said packet).Says saying ↔ packet.Says saying :=
  Iff.rfl

theorem Deed.adds_nothing (silent : ∀ saying, ¬deed.Says saying) : deed.adds mine = mine := by
  funext saying
  exact propext (or_iff_left (silent saying))

theorem Deed.adds_iff (mine : Saying → Prop) {packet : Packet} {said : Saying}
    (spoken : ∀ {saying}, packet.Says saying ↔ saying = said) (saying : Saying) :
    (Deed.said packet).adds mine saying ↔ mine saying ∨ saying = said :=
  or_congr Iff.rfl spoken

/-- The two nodes do not send data under one secret in the same role. -/
def Opposite (mine yours : Saying → Prop) : Prop :=
  ∀ secret role other, mine (.data secret role) → yours (.data secret other) → role = !other

theorem View.Drew.ne_of_apart {key other : Key} (apart : me.rand.source ≠ you.rand.source)
    (drew : me.Drew key) (drewOther : you.Drew other) : key ≠ other := by
  rcases drew with ⟨index, _, rfl⟩
  rcases drewOther with ⟨otherIndex, _, rfl⟩
  intro same
  rw [Key.random.injEq] at same
  exact apart same.1

section

variable (coherent : Coherent privateKey herPrivateKey me you mine yours)
  (partner : Coherent herPrivateKey privateKey you me yours mine)

include coherent partner

/-- If the other node has sent data under the final secret of this one, this one still has its
temporary secret and the other one has not. -/
theorem Coherent.of_final_said {role : Bool} (said : yours (.data me.finalSecret role)) :
    me.Drew me.secret ∧ ∃ y, you.Drew y ∧ me.tempKey = .publicKey y ∧ you.secret ≠ y := by
  rcases partner.saysData.agreed _ role said with ⟨y, x, drewY, drewX, agreed, gone, _⟩
  rcases Key.agreement_eq_agreement agreed with ⟨other, same, ⟨hers, _⟩ | ⟨own, rfl⟩⟩
  · rcases coherent.keys.secret with zero | drew | ⟨_, _, _, _, shared⟩
    · rcases drewY with ⟨_, _, rfl⟩
      rw [zero] at hers
      cases hers
    · exact absurd hers (drew.ne_of_apart coherent.keys.apart drewY)
    · exact absurd (shared.symm.trans hers) (drewY.ne_agreement _ _)
  · exact ⟨own ▸ drewX, other, drewY, same, gone⟩

omit partner in
/-- Nothing was sent under the final secret as long as its temporary secret is there. -/
theorem Coherent.final_not_said {y : Key} (drewY : you.Drew y) (same : me.tempKey = .publicKey y)
    (role : Bool) : ¬mine (.data me.finalSecret role) := by
  intro said
  rcases coherent.saysData.agreed _ role said with ⟨x, z, drewX, _, agreed, gone, _⟩
  rcases Key.agreement_eq_agreement agreed with ⟨other, same', ⟨own, _⟩ | ⟨_, rfl⟩⟩
  · exact gone own
  · rw [same, Key.publicKey.injEq] at same'
    exact drewX.ne_of_apart coherent.keys.apart drewY same'.symm

omit coherent in
/-- A key packet that opens answers a hello of this node. -/
theorem Coherent.of_key_taken {tempKey : Key}
    (said : yours (.key (me.secret.agreement (.publicKey herPrivateKey)) tempKey)) :
    me.Drew me.secret ∧ (∃ hello, mine (.hello hello (.publicKey me.secret))) ∧
      ∃ y, you.Drew y ∧ tempKey = .publicKey y := by
  rcases partner.saysKeys.key _ _ said with ⟨x, drewX, agreed, _, fate⟩
  have own : me.secret = x := by
    rcases Key.agreement_eq_agreement agreed with ⟨other, same, ⟨left, right⟩ | ⟨left, _⟩⟩
    · rw [left, ← right]
      exact Key.publicKey.inj same
    · exact left
  subst own
  rcases fate with gone | ⟨greeted, offered⟩
  · exact absurd rfl gone
  · exact ⟨drewX, greeted, offered⟩

/-- As long as this node has not taken the final step, the other one has not sent data under the
secret of it. -/
theorem Coherent.final_not_heard (state : me.nextNonce = 4) (role : Bool) :
    ¬yours (.data me.finalSecret role) := by
  intro heard
  rcases coherent.phase.finishing state with ⟨drew, _, y, point, drewY, offered, answered⟩
  rcases partner.saysData.agreed _ _ heard with
    ⟨y', x, drewY', drewX, agreed, gone, ⟨⟨hello, greeted⟩, _⟩ | ⟨_, mineToo⟩⟩
  · -- The other node would have offered one secret in a hello and in a key.
    have equal : y' = y := by
      rcases Key.agreement_eq_agreement agreed with ⟨_, same, ⟨left, _⟩ | ⟨_, right⟩⟩
      · exact absurd left (drew.ne_of_apart coherent.keys.apart drewY')
      · exact right.symm.trans (Key.publicKey.inj (same.symm.trans offered))
    exact absurd answered (partner.saysKeys.distinct _ _ _ (equal ▸ greeted))
  · exact absurd mineToo (coherent.final_not_said drewY offered _)

end

/-! ## Keys -/

section

variable (coherent : Coherent context.privateKey herPrivateKey me you mine yours)
  (partner : Coherent herPrivateKey context.privateKey you me yours mine)

include coherent partner

theorem Move.holdsKeys (move : Move context me deed after) (fair : deed.IsFair me yours) :
    HoldsKeys herPrivateKey after you := by
  have bounded := move.nextNonce_lt coherent.keys.bounded
  have later := move.later
  rcases coherent.keys with ⟨apart, _, herKey, secret, tempKey⟩
  have drewFresh : View.Drew { me with rand := me.rest } me.fresh := ⟨_, Nat.lt_succ_self _, rfl⟩
  cases move with
  | reset | ask | helloAgain | keyAgain | data | heard =>
      exact ⟨apart, bounded, herKey, secret, tempKey⟩
  | asked _ _ kept => exact ⟨apart, bounded, (kept (by simp [herKey])).trans herKey, secret, tempKey⟩
  | hello =>
      exact ⟨apart, bounded, herKey, .inr (.inl drewFresh), .inr ⟨_, rfl, .inl drewFresh⟩⟩
  | key =>
      refine ⟨apart, bounded, herKey, .inr (.inl drewFresh), tempKey.imp_right ?_⟩
      rintro ⟨key, same, drew⟩
      exact ⟨key, same, drew.imp_left later.drew⟩
  | firstData state =>
      rcases coherent.phase.finishing state with ⟨drew, _, y, _, drewY, same, _⟩
      have shares : me.Shares you me.finalSecret := ⟨_, y, drew, drewY, same ▸ rfl⟩
      exact ⟨apart, bounded, herKey, .inr (.inr shares), tempKey⟩
  | final early late known opens =>
      have said := fair.1 _ (Packet.says_of_opensWith (opens.trans (fair.2 early)) (by omega))
      rcases coherent.of_final_said partner said with ⟨drew, y, drewY, same, _⟩
      have shares : me.Shares you me.finalSecret := ⟨_, y, drew, drewY, same ▸ rfl⟩
      exact ⟨apart, bounded, herKey, .inr (.inr shares), tempKey⟩
  | @tookHello received box sealing early point kept =>
      have said : yours (.hello box.sharedSecret.point box.encryptedTempKey) :=
        fair _ ⟨early, box, sealing, rfl, rfl⟩
      rcases partner.saysKeys.hello _ _ said with ⟨agreed, y, drewY, offered⟩
      have her : received.handshake.publicKey = .publicKey herPrivateKey := by
        rcases Key.agreement_eq_agreement (point.symm.trans agreed) with
          ⟨other, same, ⟨left, right⟩ | ⟨_, right⟩⟩
        · rw [same, right, left]
        · rw [same, right]
      exact ⟨apart, bounded, her, secret, .inr ⟨y, offered, .inr drewY⟩⟩
  | @tookKey received box sealing late same point =>
      have said : yours (.key box.sharedSecret.point box.encryptedTempKey) :=
        fair _ ⟨late, box, sealing, rfl, rfl⟩
      rw [point, herKey] at said
      rcases partner.of_key_taken said with ⟨_, _, y, drewY, offered⟩
      exact ⟨apart, bounded, herKey, secret, .inr ⟨y, offered, .inr drewY⟩⟩

end

/-! ## Sayings -/

variable {point tempKey : Key} {more : Saying → Prop}

theorem SaysKeys.later (offers : SaysKeys privateKey herPrivateKey me you mine yours)
    (step : me.Later after) : SaysKeys privateKey herPrivateKey after you mine yours where
  hello := by
    intro point tempKey said
    exact (offers.hello point tempKey said).imp_right
      (Exists.imp fun _ => And.imp_left step.drew)
  key := by
    intro point tempKey said
    rcases offers.key point tempKey said with ⟨y, drewY, agreed, ⟨z, same, kind⟩, fate⟩
    refine ⟨y, drewY, agreed, ⟨z, same, ?_⟩, fate.imp_right (And.imp_right ?_)⟩
    · exact kind.imp step.drew fun shares => shares.later_left step
    · exact Exists.imp fun _ => And.imp_left step.drew
  distinct := offers.distinct

theorem SaysKeys.add_data (offers : SaysKeys privateKey herPrivateKey me you mine yours)
    {secret : Key} {role : Bool}
    (adds : ∀ saying, more saying ↔ mine saying ∨ saying = .data secret role) :
    SaysKeys privateKey herPrivateKey me you more yours := by
  have hello : ∀ point tempKey, more (.hello point tempKey) → mine (.hello point tempKey) := by
    intro point tempKey said
    rcases (adds _).mp said with old | new
    · exact old
    · cases new
  have key : ∀ point tempKey, more (.key point tempKey) → mine (.key point tempKey) := by
    intro point tempKey said
    rcases (adds _).mp said with old | new
    · exact old
    · cases new
  constructor
  · exact fun _ _ said => offers.hello _ _ (hello _ _ said)
  · exact fun _ _ said => offers.key _ _ (key _ _ said)
  · exact fun _ _ _ said other => offers.distinct _ _ _ (hello _ _ said) (key _ _ other)

theorem SaysKeys.add_hello (offers : SaysKeys privateKey herPrivateKey me you mine yours)
    (adds : ∀ saying, more saying ↔ mine saying ∨ saying = .hello point tempKey)
    (agreed : point = privateKey.agreement (.publicKey herPrivateKey))
    (drew : ∃ x, me.Drew x ∧ tempKey = .publicKey x)
    (noKey : ∀ other, ¬mine (.key other tempKey)) :
    SaysKeys privateKey herPrivateKey me you more yours where
  hello := by
    intro other offered said
    rcases (adds _).mp said with old | new
    · exact offers.hello _ _ old
    · cases new
      exact ⟨agreed, drew⟩
  key := by
    intro other offered said
    rcases (adds _).mp said with old | new
    · exact offers.key _ _ old
    · cases new
  distinct := by
    intro hello other offered said otherSaid
    rcases (adds _).mp otherSaid with oldKey | new
    · rcases (adds _).mp said with old | new
      · exact offers.distinct _ _ _ old oldKey
      · cases new
        exact noKey _ oldKey
    · cases new

theorem SaysKeys.add_key (offers : SaysKeys privateKey herPrivateKey me you mine yours)
    (adds : ∀ saying, more saying ↔ mine saying ∨ saying = .key point tempKey) {y : Key}
    (drewY : you.Drew y) (agreed : point = privateKey.agreement (.publicKey y))
    (kind : ∃ z, tempKey = .publicKey z ∧ (me.Drew z ∨ me.Shares you z))
    (fate : you.secret ≠ y ∨
      (∃ hello, yours (.hello hello (.publicKey y))) ∧ ∃ z, me.Drew z ∧ tempKey = .publicKey z)
    (noHello : ∀ hello, ¬mine (.hello hello tempKey)) :
    SaysKeys privateKey herPrivateKey me you more yours where
  hello := by
    intro other offered said
    rcases (adds _).mp said with old | new
    · exact offers.hello _ _ old
    · cases new
  key := by
    intro other offered said
    rcases (adds _).mp said with old | new
    · exact offers.key _ _ old
    · cases new
      exact ⟨y, drewY, agreed, kind, fate⟩
  distinct := by
    intro hello other offered said otherSaid
    rcases (adds _).mp said with oldHello | new
    · rcases (adds _).mp otherSaid with old | new
      · exact offers.distinct _ _ _ oldHello old
      · cases new
        exact noHello _ oldHello
    · cases new

/-- What is fresh was not offered before. -/
theorem SaysKeys.fresh_not_key (offers : SaysKeys privateKey herPrivateKey me you mine yours)
    (point : Key) : ¬mine (.key point (.publicKey me.fresh)) := by
  intro said
  rcases offers.key _ _ said with ⟨_, _, _, ⟨z, same, drew | ⟨x, y, _, _, shared⟩⟩, _⟩
  · exact drew.ne_fresh (Key.publicKey.inj same)
  · exact Key.agreement_ne_random _ _ _ _ (shared.symm.trans (Key.publicKey.inj same).symm)

theorem SaysKeys.fresh_not_hello (offers : SaysKeys privateKey herPrivateKey me you mine yours)
    (hello : Key) : ¬mine (.hello hello (.publicKey me.fresh)) := by
  intro said
  rcases offers.hello _ _ said with ⟨_, x, drew, same⟩
  exact drew.ne_fresh (Key.publicKey.inj same)

theorem Move.saysKeys (coherent : Coherent context.privateKey herPrivateKey me you mine yours)
    (move : Move context me deed after) :
    SaysKeys context.privateKey herPrivateKey after you (deed.adds mine) yours := by
  have later := move.later
  have old := coherent.saysKeys.later later
  have drewFresh : View.Drew { me with rand := me.rest } me.fresh := ⟨_, Nat.lt_succ_self _, rfl⟩
  rcases coherent.phase with ⟨greeted, answering, answered, _, _⟩
  cases move with
  | reset | asked | tookHello | tookKey | final | heard =>
      rw [Deed.adds_nothing (by simp [Deed.Says])]
      exact old
  | ask _ _ bare =>
      have silent : ∀ saying, ¬(Deed.said _).Says saying := fun _ => bare.says_nothing
      rw [Deed.adds_nothing silent]
      exact old
  | hello state known written =>
      apply old.add_hello (Deed.adds_iff _ (written.says_hello (by norm_num)))
      · rw [coherent.keys.herKey]
      · exact ⟨_, drewFresh, rfl⟩
      · exact coherent.saysKeys.fresh_not_key
  | helloAgain state known written =>
      rcases greeted state with ⟨drew, same, hello, said⟩
      apply old.add_hello (Deed.adds_iff _ (written.says_hello (by norm_num)))
      · rw [coherent.keys.herKey]
      · exact ⟨_, drew, same⟩
      · exact fun _ => coherent.saysKeys.distinct _ _ _ said
  | key state known written =>
      rcases answering (.inl state) with ⟨y, drewY, same, fate⟩
      apply old.add_key (Deed.adds_iff _ (written.says_key le_rfl)) drewY
      · rw [same]
      · exact ⟨_, rfl, .inl drewFresh⟩
      · exact fate.imp_right fun heard => ⟨same ▸ heard, _, drewFresh, rfl⟩
      · exact coherent.saysKeys.fresh_not_hello
  | keyAgain state known written =>
      rcases answering (.inr state) with ⟨y, drewY, same, fate⟩
      apply old.add_key (Deed.adds_iff _ (written.says_key (by norm_num))) drewY
      · rw [same]
      · refine ⟨_, rfl, ?_⟩
        exact (answered state).imp And.left And.left
      · rcases answered state with ⟨drew, _⟩ | ⟨_, y', same', gone⟩
        · exact fate.imp_right fun heard => ⟨same ▸ heard, _, drew, rfl⟩
        · have equal : y' = y := Key.publicKey.inj (same'.symm.trans same)
          exact .inl (equal ▸ gone)
      · intro hello said
        rcases answered state with ⟨_, point, answer⟩ | ⟨⟨_, _, _, _, shared⟩, _⟩
        · exact coherent.saysKeys.distinct _ _ _ said answer
        · rcases coherent.saysKeys.hello _ _ said with ⟨_, z, drewZ, content⟩
          exact drewZ.ne_agreement _ _ (shared.symm.trans (Key.publicKey.inj content))
  | firstData _ written => exact old.add_data (Deed.adds_iff _ (written.says_data (by norm_num)))
  | data state written => exact old.add_data (Deed.adds_iff _ (written.says_data (by omega)))

/-! ## Data -/

theorem SaysData.advance (speech : SaysData me you mine yours) (step : me.Later after)
    (kept : ∀ secret role, mine (.data secret role) → 5 ≤ after.nextNonce →
      after.secret = secret → after.isInitiator = role) : SaysData after you mine yours where
  agreed := by
    intro secret role said
    rcases speech.agreed secret role said with ⟨x, y, drewX, drewY, agreed, gone, origin⟩
    exact ⟨x, y, step.drew drewX, drewY, agreed, step.secret_ne x drewX gone, origin⟩
  role := kept
  unique := speech.unique

theorem SaysData.mono (speech : SaysData me you mine yours)
    (grows : ∀ saying, mine saying → more saying)
    (noData : ∀ secret role, more (.data secret role) → mine (.data secret role)) :
    SaysData me you more yours where
  agreed := by
    intro secret role said
    rcases speech.agreed secret role (noData _ _ said) with ⟨x, y, drewX, drewY, agreed, gone, origin⟩
    exact ⟨x, y, drewX, drewY, agreed, gone,
      origin.imp_left (And.imp_left (Exists.imp fun _ => grows _))⟩
  role _ _ said := speech.role _ _ (noData _ _ said)
  unique _ _ _ said other := speech.unique _ _ _ (noData _ _ said) (noData _ _ other)

theorem SaysData.add_data (speech : SaysData me you mine yours) {secret x y : Key} {role : Bool}
    (adds : ∀ saying, more saying ↔ mine saying ∨ saying = .data secret role)
    (drewX : me.Drew x) (drewY : you.Drew y) (agreed : secret = x.agreement (.publicKey y))
    (gone : me.secret ≠ x)
    (origin : (∃ hello, mine (.hello hello (.publicKey x))) ∧
        (∃ point, yours (.key point (.publicKey y))) ∨ ∃ other, yours (.data secret other))
    (held : 5 ≤ me.nextNonce → me.secret = secret → me.isInitiator = role)
    (single : ∀ other, mine (.data secret other) → role = other) :
    SaysData me you more yours where
  agreed := by
    intro other otherRole said
    rcases (adds _).mp said with old | new
    · rcases speech.agreed _ _ old with ⟨x', y', drewX', drewY', agreed', gone', origin'⟩
      exact ⟨x', y', drewX', drewY', agreed', gone',
        origin'.imp_left (And.imp_left (Exists.imp fun _ earlier => (adds _).mpr (.inl earlier)))⟩
    · cases new
      exact ⟨x, y, drewX, drewY, agreed, gone,
        origin.imp_left (And.imp_left (Exists.imp fun _ earlier => (adds _).mpr (.inl earlier)))⟩
  role := by
    intro other otherRole said
    rcases (adds _).mp said with old | new
    · exact speech.role _ _ old
    · cases new
      exact held
  unique := by
    intro other first second said saidToo
    rcases (adds _).mp said with old | new <;> rcases (adds _).mp saidToo with oldToo | newToo
    · exact speech.unique _ _ _ old oldToo
    · cases newToo
      exact (single _ old).symm
    · cases new
      exact single _ oldToo
    · cases new
      cases newToo
      rfl

/-- A handshake packet is no data. -/
theorem SaysData.add_handshake (speech : SaysData me you mine yours) {said : Saying}
    (adds : ∀ saying, more saying ↔ mine saying ∨ saying = said)
    (handshake : ∀ secret role, said ≠ .data secret role) : SaysData me you more yours := by
  apply speech.mono
  · exact fun saying old => (adds saying).mpr (.inl old)
  · intro secret role now
    rcases (adds _).mp now with old | new
    · exact old
    · exact absurd new.symm (handshake secret role)

section

variable (coherent : Coherent context.privateKey herPrivateKey me you mine yours)
  (partner : Coherent herPrivateKey context.privateKey you me yours mine)

include coherent partner

/-- What was sent under the secret of an established connection was sent in the present role. -/
theorem Move.keeps_role (move : Move context me deed after) (fair : deed.IsFair me yours)
    (secret : Key) (role : Bool) (said : mine (.data secret role)) (established : 5 ≤ after.nextNonce)
    (same : after.secret = secret) : after.isInitiator = role := by
  cases move with
  | reset | asked | ask | hello | helloAgain | key | keyAgain | tookHello | tookKey =>
      simp at established
  | data state => exact coherent.saysData.role _ _ said state same
  | heard state => exact coherent.saysData.role _ _ said state same
  | firstData state =>
      rcases coherent.phase.finishing state with ⟨_, _, y, _, drewY, offered, _⟩
      subst same
      exact absurd said (coherent.final_not_said drewY offered role)
  | final early late _ opens =>
      have heard := fair.1 _ (Packet.says_of_opensWith (opens.trans (fair.2 early)) (by omega))
      rcases coherent.of_final_said partner heard with ⟨_, y, drewY, offered, _⟩
      subst same
      exact absurd said (coherent.final_not_said drewY offered role)

theorem Move.saysData (move : Move context me deed after) (fair : deed.IsFair me yours) :
    SaysData after you (deed.adds mine) yours := by
  have old := coherent.saysData.advance move.later (move.keeps_role coherent partner fair)
  cases move with
  | reset | asked | tookHello | tookKey | final | heard =>
      rw [Deed.adds_nothing (by simp [Deed.Says])]
      exact old
  | ask _ _ bare =>
      have silent : ∀ saying, ¬(Deed.said _).Says saying := fun _ => bare.says_nothing
      rw [Deed.adds_nothing silent]
      exact old
  | hello _ _ written =>
      exact old.add_handshake (Deed.adds_iff _ (written.says_hello (by norm_num))) (by simp)
  | helloAgain _ _ written =>
      exact old.add_handshake (Deed.adds_iff _ (written.says_hello (by norm_num))) (by simp)
  | key _ _ written => exact old.add_handshake (Deed.adds_iff _ (written.says_key le_rfl)) (by simp)
  | keyAgain _ _ written =>
      exact old.add_handshake (Deed.adds_iff _ (written.says_key (by norm_num))) (by simp)
  | firstData state written =>
      rcases coherent.phase.finishing state with ⟨drew, greeted, y, point, drewY, offered, answered⟩
      apply old.add_data (Deed.adds_iff _ (written.says_data (by norm_num))) drew drewY
      · rw [View.finalSecret, offered]
      · exact drew.ne_agreement _ _
      · exact .inl ⟨greeted, point, answered⟩
      · exact fun _ _ => rfl
      · intro other said
        exact absurd said (coherent.final_not_said drewY offered other)
  | data state written =>
      have adds := Deed.adds_iff mine (written.says_data (by omega))
      rcases coherent.phase.established state with ⟨⟨x, y, drewX, drewY, shared⟩, earlier | theirs⟩
      · apply old.mono fun saying said => (adds saying).mpr (.inl said)
        intro secret role said
        rcases (adds _).mp said with said | new
        · exact said
        · cases new
          exact earlier
      · apply old.add_data adds drewX drewY shared
        · exact shared ▸ drewX.ne_agreement _ _
        · exact .inr ⟨_, theirs⟩
        · exact fun _ _ => rfl
        · exact fun other said => coherent.saysData.role _ _ said state rfl

/-! ## State -/

theorem Move.inPhase (move : Move context me deed after) (fair : deed.IsFair me yours) :
    InPhase after you (deed.adds mine) yours := by
  have later := move.later
  rcases coherent.phase with ⟨greeted, answering, answered, finishing, established⟩
  have drewFresh : View.Drew { me with rand := me.rest } me.fresh := ⟨_, Nat.lt_succ_self _, rfl⟩
  cases move with
  | reset | asked | ask => constructor <;> simp
  | hello state known written =>
      have offers := (Deed.adds_iff mine (written.says_hello (by norm_num)) _).mpr (.inr rfl)
      refine ⟨fun _ => ⟨drewFresh, rfl, _, offers⟩, ?_, ?_, ?_, ?_⟩ <;> simp
  | helloAgain state known written =>
      rcases greeted state with ⟨drew, same, hello, said⟩
      refine ⟨fun _ => ⟨drew, same, hello, .inl said⟩, ?_, ?_, ?_, ?_⟩ <;> simp
  | key state known written =>
      have offers := (Deed.adds_iff mine (written.says_key le_rfl) _).mpr (.inr rfl)
      refine ⟨by simp, fun _ => answering (.inl state), fun _ => .inl ⟨drewFresh, _, offers⟩, ?_, ?_⟩
        <;> simp
  | keyAgain state known written =>
      refine ⟨by simp, fun _ => answering (.inr state), ?_, by simp, by simp⟩
      intro _
      exact (answered state).imp_left (And.imp_right (Exists.imp fun _ => Or.inl))
  | firstData state written =>
      rcases finishing state with ⟨drew, _, y, _, drewY, offered, _⟩
      have shares : me.Shares you me.finalSecret := ⟨_, y, drew, drewY, offered ▸ rfl⟩
      have said := (Deed.adds_iff mine (written.says_data (by norm_num)) _).mpr (.inr rfl)
      refine ⟨?_, ?_, ?_, ?_, fun _ => ⟨shares, .inl said⟩⟩ <;> simp
  | data state written =>
      have small := coherent.keys.bounded
      have said := (Deed.adds_iff mine (written.says_data (by omega)) _).mpr (.inr rfl)
      refine ⟨?_, ?_, ?_, ?_, fun _ => ⟨(established state).1, .inl said⟩⟩
      all_goals
        intro wrapped
        simp only at wrapped
        omega
  | @tookHello received box sealing early point kept =>
      have said : yours (.hello box.sharedSecret.point box.encryptedTempKey) :=
        fair _ ⟨early, box, sealing, rfl, rfl⟩
      rcases partner.saysKeys.hello _ _ said with ⟨_, y, drewY, offered⟩
      refine ⟨?_, fun _ => ⟨y, drewY, offered, .inr ⟨_, said⟩⟩, ?_, ?_, ?_⟩ <;> simp
  | @tookKey received box sealing late same point =>
      have said : yours (.key box.sharedSecret.point box.encryptedTempKey) :=
        fair _ ⟨late, box, sealing, rfl, rfl⟩
      have own := said
      rw [point, coherent.keys.herKey] at own
      rcases partner.of_key_taken own with ⟨drew, ⟨hello, greeting⟩, y, drewY, offered⟩
      refine ⟨by simp, by simp, by simp, fun _ => ?_, by simp⟩
      exact ⟨drew, ⟨hello, .inl greeting⟩, y, _, drewY, offered, offered ▸ said⟩
  | final early late known opens =>
      have heard := fair.1 _ (Packet.says_of_opensWith (opens.trans (fair.2 early)) (by omega))
      rcases coherent.of_final_said partner heard with ⟨drew, y, drewY, offered, gone⟩
      have shares : me.Shares you me.finalSecret := ⟨_, y, drew, drewY, offered ▸ rfl⟩
      refine ⟨?_, ?_, ?_, ?_, ?_⟩
      · simp
      · exact fun _ => ⟨y, drewY, offered, .inl gone⟩
      · exact fun _ => .inr ⟨shares, y, offered, gone⟩
      · intro four
        simp only at four
        have one : me.nextNonce = 1 := by omega
        rcases greeted one with ⟨drewOwn, same, _⟩
        have equal : me.secret = y := Key.publicKey.inj (same.symm.trans offered)
        exact absurd equal (drewOwn.ne_of_apart coherent.keys.apart drewY)
      · exact fun _ => ⟨shares, .inr heard⟩
  | heard state =>
      rw [Deed.adds_nothing (by simp [Deed.Says])]
      exact coherent.phase

/-- The two nodes keep sending data in opposite roles. -/
theorem Move.opposite (opposite : Opposite mine yours) (move : Move context me deed after) :
    Opposite (deed.adds mine) yours := by
  intro secret role other said heard
  rcases said with old | new
  · exact opposite secret role other old heard
  cases move with
  | reset | asked | tookHello | tookKey | final | heard => exact new.elim
  | ask _ _ bare => exact absurd (Deed.said_says.mp new) bare.says_nothing
  | hello _ _ written => cases (written.says_hello (by norm_num)).mp (Deed.said_says.mp new)
  | helloAgain _ _ written => cases (written.says_hello (by norm_num)).mp (Deed.said_says.mp new)
  | key _ _ written => cases (written.says_key le_rfl).mp (Deed.said_says.mp new)
  | keyAgain _ _ written => cases (written.says_key (by norm_num)).mp (Deed.said_says.mp new)
  | firstData state written =>
      cases (written.says_data (by norm_num)).mp (Deed.said_says.mp new)
      exact absurd heard (coherent.final_not_heard partner state other)
  | data state written =>
      cases (written.says_data (by omega)).mp (Deed.said_says.mp new)
      rcases (coherent.phase.established state).2 with earlier | theirs
      · exact opposite _ _ _ earlier heard
      · rw [← partner.saysData.unique _ _ _ theirs heard, Bool.not_not]

/-- A fair move preserves the invariant of the node that makes it. -/
theorem Coherent.act (move : Move context me deed after) (fair : deed.IsFair me yours) :
    Coherent context.privateKey herPrivateKey after you (deed.adds mine) yours where
  keys := move.holdsKeys coherent partner fair
  saysKeys := move.saysKeys coherent
  saysData := move.saysData coherent partner fair
  phase := move.inPhase coherent partner fair

end

/-! ## Roles -/

/-- The secret of the connection, once it is agreed -/
def View.sessionSecret (view : View) : Key :=
  if view.nextNonce < 5 then view.finalSecret else view.secret

section

variable
  (coherent : Coherent privateKey herPrivateKey me you mine yours)
  (partner : Coherent herPrivateKey privateKey you me yours mine)

include coherent partner

/-- A node that has not taken the final step does not agree with one that has. -/
theorem Coherent.final_ne_established (finishing : me.nextNonce = 4)
    (established : 5 ≤ you.nextNonce) : me.finalSecret ≠ you.secret := by
  intro same
  rcases coherent.phase.finishing finishing with ⟨_, _, y, _, drewY, offered, _⟩
  rcases (partner.phase.established established).2 with theirs | own
  · exact coherent.final_not_heard partner finishing _ (same ▸ theirs)
  · exact coherent.final_not_said drewY offered _ (same ▸ own)

/-- Two nodes that have not taken the final step do not agree. -/
theorem Coherent.final_ne_final (finishing : me.nextNonce = 4) (finishingToo : you.nextNonce = 4) :
    me.finalSecret ≠ you.finalSecret := by
  intro same
  rcases coherent.phase.finishing finishing with ⟨drew, _, y, point, drewY, offered, answered⟩
  rcases partner.phase.finishing finishingToo with
    ⟨drewToo, ⟨hello, greeted⟩, x, _, drewX, offeredToo, _⟩
  rw [View.finalSecret, View.finalSecret, offeredToo] at same
  have equal : you.secret = y := by
    rcases Key.agreement_eq_agreement same with ⟨_, content, ⟨left, _⟩ | ⟨_, right⟩⟩
    · exact absurd left (drew.ne_of_apart coherent.keys.apart drewToo)
    · exact right.symm.trans (Key.publicKey.inj (content.symm.trans offered))
  exact partner.saysKeys.distinct _ _ _ (equal ▸ greeted) answered

/-- Established nodes with one secret are in opposite roles. -/
theorem Coherent.established_roles (opposite : Opposite mine yours)
    (established : 5 ≤ me.nextNonce) (establishedToo : 5 ≤ you.nextNonce)
    (same : me.secret = you.secret) : me.isInitiator = !you.isInitiator := by
  rcases (coherent.phase.established established).2 with own | theirs
  · rcases (partner.phase.established establishedToo).2 with theirs | ownToo
    · exact opposite _ _ _ (same ▸ own) theirs
    · exact coherent.saysData.unique _ _ _ own (same ▸ ownToo)
  · rw [partner.saysData.role _ _ theirs establishedToo same.symm, Bool.not_not]

/-- Past the handshake, nodes with one secret are in opposite roles. -/
theorem Coherent.opposite_roles (opposite : Opposite mine yours) (mineOver : 4 ≤ me.nextNonce)
    (yoursOver : 4 ≤ you.nextNonce) (same : me.sessionSecret = you.sessionSecret) :
    me.isInitiator = !you.isInitiator := by
  simp only [View.sessionSecret] at same
  split_ifs at same with early earlyToo earlyToo
  · exact absurd same (coherent.final_ne_final partner (by omega) (by omega))
  · exact absurd same (coherent.final_ne_established partner (by omega) (by omega))
  · exact absurd same.symm (partner.final_ne_established coherent (by omega) (by omega))
  · exact coherent.established_roles partner opposite (by omega) (by omega) same

end

end CryptoAuth

end Cjdns
