import Mathlib.Tactic

/-!
# Symbolic key agreement

Keys are terms, so that two keys are equal only where the same operations were
applied to the same random values. An agreement on a public key is symmetric in
the two secrets; an agreement on the zero point is a constant that everybody
knows; an agreement on a point of which no secret is known keeps both arguments.

`Derives` says which keys can be computed from the known ones. Public keys are
public. A party that starts from its own random values derives no other random
value, and derives an agreement only if it derives one of the two secrets.
-/

/-- A secret or a point. -/
inductive Key where
  | zero
  | random (source index : ℕ)
  | publicKey (secret : Key)
  | agreed (first second : Key)
  | null
  | stray (secret point : Key)
deriving DecidableEq

namespace Key

/-! ## Agreement -/

/-- A key spelled out from left to right. -/
def spelling : Key → List ℕ
  | zero => [0]
  | random source index => [1, source, index]
  | publicKey secret => 2 :: secret.spelling
  | agreed first second => 3 :: (first.spelling ++ second.spelling)
  | null => [4]
  | stray secret point => 5 :: (secret.spelling ++ point.spelling)

/-- No spelling is a proper prefix of another one. -/
theorem spelling_append_inj : ∀ {key other : Key} {rest otherRest : List ℕ},
    key.spelling ++ rest = other.spelling ++ otherRest → key = other ∧ rest = otherRest := by
  intro key
  induction key with
  | zero =>
      intro other rest otherRest same
      cases other <;> simp_all [spelling]
  | random source index =>
      intro other rest otherRest same
      cases other <;> simp_all [spelling]
  | publicKey secret ih =>
      intro other rest otherRest same
      cases other <;> simp only [spelling, List.cons_append, List.cons.injEq] at same
      case publicKey => simpa using ih same.2
      all_goals simp at same
  | agreed first second ihFirst ihSecond =>
      intro other rest otherRest same
      cases other <;> simp only [spelling, List.cons_append, List.cons.injEq,
        List.append_assoc] at same
      case agreed =>
        rcases ihFirst same.2 with ⟨rfl, tail⟩
        simpa using ihSecond tail
      all_goals simp at same
  | null =>
      intro other rest otherRest same
      cases other <;> simp_all [spelling]
  | stray secret point ihSecret ihPoint =>
      intro other rest otherRest same
      cases other <;> simp only [spelling, List.cons_append, List.cons.injEq,
        List.append_assoc] at same
      case stray =>
        rcases ihSecret same.2 with ⟨rfl, tail⟩
        simpa using ihPoint tail
      all_goals simp at same

theorem spelling_injective : Function.Injective spelling := by
  intro key other same
  have appended : key.spelling ++ [] = other.spelling ++ [] := by rw [same]
  exact (spelling_append_inj appended).1

/-- The result of combining a secret with a point. -/
def agreement (secret : Key) : Key → Key
  | publicKey other =>
      if secret.spelling ≤ other.spelling then agreed secret other else agreed other secret
  | zero => null
  | point => stray secret point

/-- Both parties arrive at the same key. -/
theorem agreement_comm (secret other : Key) :
    agreement secret (publicKey other) = agreement other (publicKey secret) := by
  simp only [agreement]
  split_ifs with before after after
  · rw [spelling_injective (le_antisymm before after)]
  · rfl
  · rfl
  · exact absurd (le_total _ _) (not_or.mpr ⟨before, after⟩)

theorem agreement_publicKey (secret other : Key) :
    agreement secret (publicKey other) = agreed secret other ∨
      agreement secret (publicKey other) = agreed other secret := by
  simp only [agreement]
  split_ifs
  · exact .inl rfl
  · exact .inr rfl

/-- An agreement on a public key determines the two secrets up to their order. -/
theorem agreement_eq_agreed {secret point first second : Key}
    (same : agreement secret point = agreed first second) :
    ∃ other, point = publicKey other ∧
      (secret = first ∧ other = second ∨ secret = second ∧ other = first) := by
  cases point with
  | publicKey other =>
      refine ⟨other, rfl, ?_⟩
      rcases agreement_publicKey secret other with ordered | ordered
      · rw [ordered, agreed.injEq] at same
        exact .inl same
      · rw [ordered, agreed.injEq] at same
        exact .inr ⟨same.2, same.1⟩
  | zero => exact absurd same (by simp [agreement])
  | random | agreed | null | stray => exact absurd same (by simp [agreement])

theorem agreement_eq_agreement {secret point first second : Key}
    (same : agreement secret point = agreement first (publicKey second)) :
    ∃ other, point = publicKey other ∧
      (secret = first ∧ other = second ∨ secret = second ∧ other = first) := by
  rcases agreement_publicKey first second with ordered | ordered
  · exact agreement_eq_agreed (same.trans ordered)
  · rcases agreement_eq_agreed (same.trans ordered) with ⟨other, point, secrets⟩
    exact ⟨other, point, secrets.symm⟩

@[simp]
theorem agreement_ne_random (secret point : Key) (source index : ℕ) :
    agreement secret point ≠ random source index := by
  cases point <;> simp only [agreement, ne_eq, reduceCtorEq, not_false_eq_true]
  split_ifs <;> simp

@[simp]
theorem agreement_ne_zero (secret point : Key) : agreement secret point ≠ zero := by
  cases point <;> simp only [agreement, ne_eq, reduceCtorEq, not_false_eq_true]
  split_ifs <;> simp

/-! ## What a party can compute -/

/-- The keys that can be computed from the known ones. -/
inductive Derives (known : Key → Prop) : Key → Prop where
  | known {key : Key} (knows : known key) : Derives known key
  | zero : Derives known zero
  | publicKey (secret : Key) : Derives known (publicKey secret)
  | agreement {secret point : Key} (holds : Derives known secret) (sees : Derives known point) :
      Derives known (agreement secret point)

/-- A party knows the random values it has drawn itself. -/
def DrawnBy (source : ℕ) (key : Key) : Prop :=
  ∃ index, key = random source index

/-- The keys that the owner of a random source can compute. -/
def HeldBy (source : ℕ) (key : Key) : Prop :=
  Derives (DrawnBy source) key

theorem heldBy_random (source index : ℕ) : HeldBy source (random source index) :=
  .known ⟨index, rfl⟩

/-- Random values stay with the party that has drawn them. -/
theorem HeldBy.source_eq {owner source index : ℕ} (held : HeldBy owner (random source index)) :
    owner = source := by
  generalize equal : random source index = key at held
  cases held with
  | known knows =>
      rcases knows with ⟨drawn, same⟩
      rw [same, random.injEq] at equal
      exact equal.1.symm
  | zero => cases equal
  | publicKey => cases equal
  | agreement => exact (agreement_ne_random _ _ _ _ equal.symm).elim

/-- Whoever can compute an agreement holds one of the two secrets. -/
theorem HeldBy.of_agreement {owner : ℕ} {secret other : Key}
    (held : HeldBy owner (agreement secret (publicKey other))) :
    HeldBy owner secret ∨ HeldBy owner other := by
  generalize equal : agreement secret (publicKey other) = key at held
  cases held with
  | known knows =>
      rcases knows with ⟨drawn, same⟩
      exact (agreement_ne_random _ _ _ _ (equal.trans same)).elim
  | zero => exact (agreement_ne_zero _ _ equal).elim
  | publicKey =>
      rcases agreement_publicKey secret other with ordered | ordered
      · exact absurd (ordered.symm.trans equal) (by simp)
      · exact absurd (ordered.symm.trans equal) (by simp)
  | agreement holds sees =>
      rcases agreement_eq_agreement equal.symm with ⟨_, rfl, ⟨rfl, rfl⟩ | ⟨rfl, rfl⟩⟩
      · exact .inl holds
      · exact .inr holds

/-- An agreement on a stray point takes the secret. -/
theorem HeldBy.of_stray {owner : ℕ} {secret point : Key} (held : HeldBy owner (stray secret point)) :
    HeldBy owner secret := by
  generalize equal : stray secret point = key at held
  cases held with
  | known knows =>
      rcases knows with ⟨drawn, same⟩
      cases equal.trans same
  | zero => cases equal
  | publicKey => cases equal
  | @agreement holder at_ holds sees =>
      cases at_ with
      | publicKey other =>
          rcases agreement_publicKey holder other with ordered | ordered
          · cases equal.trans ordered
          · cases equal.trans ordered
      | zero => cases equal
      | random | agreed | null | stray =>
          simp only [agreement, stray.injEq] at equal
          rw [equal.1]
          exact holds

/-- The party can compute the secret of a public key. -/
def OwnedBy (owner : ℕ) (point : Key) : Prop :=
  ∃ secret, point = publicKey secret ∧ HeldBy owner secret

/-- Whoever agrees with a random value of somebody else, on a point that is not zero, owns the
point. -/
theorem HeldBy.ownedBy {owner source index : ℕ} {point : Key}
    (held : HeldBy owner (agreement (random source index) point)) (other : owner ≠ source)
    (nonzero : point ≠ zero) : OwnedBy owner point := by
  have unknown : ¬HeldBy owner (random source index) := fun known => other known.source_eq
  cases point with
  | publicKey secret =>
      refine ⟨secret, rfl, ?_⟩
      rcases held.of_agreement with known | known
      · exact absurd known unknown
      · exact known
  | zero => exact absurd rfl nonzero
  | random | agreed | null | stray => exact absurd held.of_stray unknown

/-! ## Agreements as pairs -/

/-- An agreement that makes no exception of the zero point -/
def pairing (secret : Key) : Key → Key
  | publicKey other => agreement secret (publicKey other)
  | point => stray secret point

theorem pairing_eq_agreement {secret point : Key} (nonzero : point ≠ zero) :
    pairing secret point = agreement secret point := by
  cases point with
  | zero => exact absurd rfl nonzero
  | random | publicKey | agreed | null | stray => rfl

/-- The key is a part of the other one. -/
inductive OccursIn (key : Key) : Key → Prop where
  | here : OccursIn key key
  | publicKey {secret : Key} (inside : OccursIn key secret) : OccursIn key (publicKey secret)
  | first {first : Key} (second : Key) (inside : OccursIn key first) :
      OccursIn key (agreed first second)
  | second (first : Key) {second : Key} (inside : OccursIn key second) :
      OccursIn key (agreed first second)
  | secret {secret : Key} (point : Key) (inside : OccursIn key secret) :
      OccursIn key (stray secret point)
  | point (secret : Key) {point : Key} (inside : OccursIn key point) :
      OccursIn key (stray secret point)

namespace OccursIn

variable {key secret point : Key}

theorem trans {whole : Key} (inside : OccursIn key secret) (outer : OccursIn secret whole) :
    OccursIn key whole := by
  induction outer with
  | here => exact inside
  | publicKey _ ih => exact .publicKey ih
  | first _ _ ih => exact .first _ ih
  | second _ _ ih => exact .second _ ih
  | secret _ _ ih => exact .secret _ ih
  | point _ _ ih => exact .point _ ih

theorem length_le {whole : Key} (inside : OccursIn key whole) :
    key.spelling.length ≤ whole.spelling.length := by
  induction inside with
  | here => exact le_rfl
  | publicKey | first | second | secret | point =>
      simp only [spelling, List.length_cons, List.length_append]
      omega

end OccursIn

theorem occursIn_pairing (secret point : Key) : OccursIn secret (pairing secret point) := by
  cases point with
  | publicKey other =>
      rcases agreement_publicKey secret other with ordered | ordered
      · rw [pairing, ordered]
        exact .first _ .here
      · rw [pairing, ordered]
        exact .second _ .here
  | zero | random | agreed | null | stray => exact .secret _ .here

/-- A pairing is no part of its secret. -/
theorem not_pairing_occursIn (secret point : Key) : ¬OccursIn (pairing secret point) secret := by
  intro inside
  have shorter := inside.length_le
  cases point with
  | publicKey other =>
      rcases agreement_publicKey secret other with ordered | ordered <;>
        simp only [pairing, ordered, spelling, List.length_cons, List.length_append] at shorter <;>
        omega
  | zero | random | agreed | null | stray =>
      simp only [pairing, spelling, List.length_cons, List.length_append] at shorter
      omega

/-- A random value in a pairing was there before. -/
theorem occursIn_of_pairing {source index : ℕ} {secret point : Key}
    (inside : OccursIn (random source index) (pairing secret point)) :
    OccursIn (random source index) secret ∨ OccursIn (random source index) point := by
  cases point with
  | publicKey other =>
      rcases agreement_publicKey secret other with ordered | ordered
      · rw [pairing, ordered] at inside
        cases inside with
        | first _ inside => exact .inl inside
        | second _ inside => exact .inr (.publicKey inside)
      · rw [pairing, ordered] at inside
        cases inside with
        | first _ inside => exact .inr (.publicKey inside)
        | second _ inside => exact .inl inside
  | zero | random | agreed | null | stray =>
      cases inside with
      | secret _ inside => exact .inl inside
      | point _ inside => exact .inr inside

end Key
