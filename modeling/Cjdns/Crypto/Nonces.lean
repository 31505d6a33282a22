import Cjdns.Crypto.Provenance
import Cjdns.Crypto.Sayings

/-!
# Nonces are used once

The nonce of a data packet goes up by one, down to zero and two and four, and
wraps around, while the secret is drawn, agreed, and agreed again from itself.
What is encrypted under one secret ends for good when the nonce comes down: the
next data packet needs another final step, and that makes a secret of which the
old one is a part.

The zero point makes an exception, since every secret agrees with it on the same
key. So the secret is followed as a symbol in which all agreements are pairs of
keys. As long as the zero point does not come in, symbol and secret are the same.
-/

namespace Cjdns

namespace CryptoAuth

open Key (OccursIn)

/-! ## The ledger -/

/-- A call of `encryptMessage` -/
structure Use where
  symbol : Key
  secret : Key
  isInitiator : Bool
  nonce : ℕ

/-- The secret under which it encrypts, as a symbol, with its role and its nonce -/
def Use.triple (use : Use) : Key × Bool × ℕ :=
  (use.symbol, use.isInitiator, use.nonce)

/-- The secret of the wrapper as a symbol, and the calls of `encryptMessage` so far -/
structure Ledger where
  symbol : Key
  used : List Use

/-- What a deed makes of the ledger -/
def Ledger.next (before : View) (ledger : Ledger) : Deed → Ledger
  | .said packet =>
      match packet.data with
      | some data =>
          -- The first data packet takes the final step along.
          let symbol := if before.nextNonce < 5 then ledger.symbol.pairing before.tempKey
            else ledger.symbol
          { symbol := symbol
            used := ⟨symbol, data.secret, before.isInitiator, before.nextNonce⟩ :: ledger.used }
      | none =>
          if packet.handshake.box.isSome ∧ (before.nextNonce = 0 ∨ before.nextNonce = 2) then
            { ledger with symbol := before.fresh }
          else ledger
  | .heard _ _ =>
      if before.nextNonce < 5 then { ledger with symbol := ledger.symbol.pairing before.tempKey }
      else ledger
  | .reset | .asked _ | .took _ _ => ledger

/-- The ledger along a sequence of moves -/
inductive Tells (context : Context) : View → Ledger → List Deed → View → Ledger → Prop where
  | nil (view : View) (ledger : Ledger) : Tells context view ledger [] view ledger
  | cons {before between after : View} {ledger told : Ledger} {deed : Deed} {deeds : List Deed}
      (move : Move context before deed between)
      (tells : Tells context between (ledger.next before deed) deeds after told) :
      Tells context before ledger (deed :: deeds) after told

/-- A wrapper with its ledger -/
structure Traced where
  endpoint : Endpoint
  ledger : Ledger

/-- No random value is in a packet before it is drawn. -/
def Call.IsFresh (rand : Random) : Call → Prop
  | .receive _ _ received => ∀ box, received.handshake.box = some box →
      ∀ index, OccursIn (.random rand.source index) box.encryptedTempKey → index < rand.drawn
  | .send _ _ _ | .reset | .getState _ => True

/-- The runs of a wrapper with its ledger -/
def ledgerRuns (source : ℕ) (passwords : List Auth) (resetAfterInactivitySeconds : BitVec 32) :
    TransitionSystem Traced Call where
  initial traced := ∃ herPublicKey requireAuth authenticatePackets nowSecs password drawn,
    traced = {
      endpoint := {
        wrapper := setAuth password
          (wrapInterface herPublicKey requireAuth authenticatePackets nowSecs)
        rand := { source := source, drawn := drawn } }
      ledger := { symbol := .zero, used := [] } }
  step before call after := call.IsFresh before.endpoint.rand ∧
    after.endpoint = (before.endpoint.call
      (newContext source passwords resetAfterInactivitySeconds) call).endpoint ∧
    Tells (newContext source passwords resetAfterInactivitySeconds) before.endpoint.view
      before.ledger (before.endpoint.call
        (newContext source passwords resetAfterInactivitySeconds) call).deeds
      after.endpoint.view after.ledger

variable {context : Context} {before after me : View} {ledger : Ledger} {deed : Deed}
  {deeds : List Deed} {received : Packet}

theorem Moves.tells (moves : Moves context before deeds after) (ledger : Ledger) :
    ∃ told, Tells context before ledger deeds after told := by
  induction moves generalizing ledger with
  | nil => exact ⟨_, .nil _ _⟩
  | cons move _ _ ih =>
      rcases ih (ledger.next _ _) with ⟨told, tells⟩
      exact ⟨told, .cons move tells⟩

theorem Reaction.tells (reaction : Reaction context received before deeds after)
    (ledger : Ledger) : ∃ told, Tells context before ledger deeds after told := by
  cases reaction with
  | ignored moves => exact moves.tells ledger
  | took move moves =>
      rcases moves.tells (ledger.next _ _) with ⟨told, tells⟩
      exact ⟨told, .cons move tells⟩
  | heard move => exact ⟨_, .cons move (.nil _ _)⟩

/-! ## The invariant -/

/-- The random values of the node in the key are drawn. -/
def View.Knows (view : View) (key : Key) : Prop :=
  ∀ index, OccursIn (.random view.rand.source index) key → index < view.rand.drawn

/-- What was encrypted under another secret will not be encrypted under again, and what was
encrypted under this one had a lower nonce. -/
structure Ledger.IsSound (view : View) (ledger : Ledger) : Prop where
  knows : view.Knows ledger.symbol
  knowsTemp : view.Knows view.tempKey
  knowsUsed : ∀ use ∈ ledger.used, view.Knows use.symbol
  once : ∀ use ∈ ledger.used, ¬OccursIn ledger.symbol use.symbol ∨
    use.symbol = ledger.symbol ∧ (view.nextNonce < 5 ∨ use.nonce < view.nextNonce)
  distinct : (ledger.used.map Use.triple).Nodup
  denotes : ¬OccursIn .null view.secret → ledger.symbol = view.secret
  denotesUsed : ∀ use ∈ ledger.used, ¬OccursIn .null use.secret → use.symbol = use.secret

namespace Ledger.IsSound

/-- In a state in which nothing is encrypted under the secret -/
theorem go (sound : ledger.IsSound me) (temp : after.Knows after.tempKey)
    (rand : after.rand = me.rand) (secret : after.secret = me.secret)
    (state : after.nextNonce < 5 ∨ after.nextNonce = me.nextNonce) : ledger.IsSound after := by
  have knows : ∀ {key}, me.Knows key → after.Knows key := by
    intro key known
    rw [View.Knows, rand]
    exact known
  refine ⟨knows sound.knows, temp, fun use mem => knows (sound.knowsUsed use mem), ?_,
    sound.distinct, secret ▸ sound.denotes, sound.denotesUsed⟩
  intro use mem
  refine (sound.once use mem).imp_right (And.imp_right ?_)
  intro lower
  rcases state with early | same
  · exact .inl early
  · rw [same]
    exact lower

/-- With a new secret -/
theorem renew (sound : ledger.IsSound me) {symbol : Key}
    (later : me.rand.drawn ≤ after.rand.drawn) (source : after.rand.source = me.rand.source)
    (temp : ∀ index, OccursIn (.random me.rand.source index) after.tempKey →
      index < after.rand.drawn)
    (knows : after.Knows symbol) (new : ∀ use ∈ ledger.used, ¬OccursIn symbol use.symbol)
    (denotes : ¬OccursIn .null after.secret → symbol = after.secret) :
    ({ ledger with symbol := symbol } : Ledger).IsSound after := by
  refine ⟨knows, ?_, ?_, fun use mem => .inl (new use mem), sound.distinct, denotes,
    sound.denotesUsed⟩
  · intro index inside
    exact temp index (source ▸ inside)
  · intro use mem index inside
    exact lt_of_lt_of_le (sound.knowsUsed use mem index (source ▸ inside)) later

theorem pairing_new (sound : ledger.IsSound me) :
    ∀ use ∈ ledger.used, ¬OccursIn (ledger.symbol.pairing me.tempKey) use.symbol := by
  intro use mem inside
  rcases sound.once use mem with other | ⟨same, _⟩
  · exact other ((Key.occursIn_pairing _ _).trans inside)
  · rw [same] at inside
    exact Key.not_pairing_occursIn _ _ inside

theorem fresh_new (sound : ledger.IsSound me) :
    ∀ use ∈ ledger.used, ¬OccursIn me.fresh use.symbol := by
  intro use mem inside
  exact absurd (sound.knowsUsed use mem _ inside) (lt_irrefl _)

theorem knows_pairing (sound : ledger.IsSound me) :
    me.Knows (ledger.symbol.pairing me.tempKey) := by
  intro index inside
  rcases Key.occursIn_of_pairing inside with old | temp
  · exact sound.knows index old
  · exact sound.knowsTemp index temp

/-- The zero point apart, the pairing is the secret of the connection. -/
theorem denotes_pairing (sound : ledger.IsSound me) (plain : ¬OccursIn .null me.finalSecret) :
    ledger.symbol.pairing me.tempKey = me.finalSecret := by
  have nonzero : me.tempKey ≠ .zero := by
    intro zero
    apply plain
    rw [View.finalSecret, zero]
    exact .here
  rw [View.finalSecret, ← Key.pairing_eq_agreement nonzero] at plain ⊢
  rw [sound.denotes fun inside => plain (inside.trans (Key.occursIn_pairing _ _))]

/-- A data packet under the symbol of the ledger -/
theorem use (sound : ledger.IsSound me) {secret : Key}
    (unused : ∀ use ∈ ledger.used, use.symbol = ledger.symbol → use.nonce < me.nextNonce)
    (denotes : ¬OccursIn .null secret → ledger.symbol = secret)
    (temp : after.Knows after.tempKey) (rand : after.rand = me.rand)
    (same : after.secret = me.secret)
    (next : after.nextNonce < 5 ∨ after.nextNonce = me.nextNonce + 1) :
    ({ ledger with used := ⟨ledger.symbol, secret, me.isInitiator, me.nextNonce⟩ :: ledger.used } :
      Ledger).IsSound after := by
  have knows : ∀ {key}, me.Knows key → after.Knows key := by
    intro key known
    rw [View.Knows, rand]
    exact known
  refine ⟨knows sound.knows, temp, ?_, ?_, ?_, same ▸ sound.denotes, ?_⟩
  · intro use mem
    rcases List.mem_cons.mp mem with rfl | old
    · exact knows sound.knows
    · exact knows (sound.knowsUsed use old)
  · intro use mem
    rcases List.mem_cons.mp mem with rfl | old
    · refine .inr ⟨rfl, next.imp_right ?_⟩
      intro one
      simp only [one]
      omega
    · rcases sound.once use old with other | ⟨this, _⟩
      · exact .inl other
      · have lower := unused use old this
        exact .inr ⟨this, next.imp_right fun one => by omega⟩
  · rw [List.map_cons, List.nodup_cons]
    refine ⟨?_, sound.distinct⟩
    intro mem
    rcases List.mem_map.mp mem with ⟨use, old, equal⟩
    simp only [Use.triple, Prod.mk.injEq] at equal
    have lower := unused use old equal.1
    omega
  · intro use mem
    rcases List.mem_cons.mp mem with rfl | old
    · exact denotes
    · exact sound.denotesUsed use old

end Ledger.IsSound

theorem Packet.IsHandshake.next {packet : Packet} {nonce maker : ℕ} {point tempKey : Key}
    (written : packet.IsHandshake nonce point tempKey maker) :
    ledger.next before (.said packet) =
      if before.nextNonce = 0 ∨ before.nextNonce = 2 then { ledger with symbol := before.fresh }
      else ledger := by
  rcases written.box with ⟨box, sealed, _⟩
  simp [Ledger.next, written.data, sealed]

theorem Packet.IsData.next {packet : Packet} {nonce : ℕ} {secret : Key} {isInitiator : Bool}
    (written : packet.IsData nonce secret isInitiator) {symbol : Key}
    (same : (if before.nextNonce < 5 then ledger.symbol.pairing before.tempKey
      else ledger.symbol) = symbol) :
    ledger.next before (.said packet) = {
      symbol := symbol
      used := ⟨symbol, secret, before.isInitiator, before.nextNonce⟩ :: ledger.used } := by
  rcases written.data with ⟨data, wrote, rfl, _⟩
  simp [Ledger.next, wrote, same]

/-- Every data packet is in the ledger. -/
theorem Tells.recorded {told : Ledger} (tells : Tells context me ledger deeds after told) :
    (∀ use ∈ ledger.used, use ∈ told.used) ∧
      ∀ packet data, .said packet ∈ deeds → packet.data = some data →
        ∃ use ∈ told.used, use.secret = data.secret ∧
          data.nonce = encryptNonce use.nonce use.isInitiator := by
  induction tells with
  | nil => exact ⟨fun _ => id, by simp⟩
  | @cons before between after ledger told deed deeds move tells ih =>
      rcases ih with ⟨kept, recorded⟩
      have keeps : ∀ use ∈ ledger.used, use ∈ (ledger.next before deed).used := by
        intro use mem
        cases deed with
        | said packet =>
            simp only [Ledger.next]
            split
            · exact List.mem_cons_of_mem _ mem
            · split <;> exact mem
        | heard =>
            simp only [Ledger.next]
            split <;> exact mem
        | reset | asked | took => exact mem
      refine ⟨fun use mem => kept use (keeps use mem), ?_⟩
      intro packet data said wrote
      rcases List.mem_cons.mp said with rfl | later
      · have use : ∃ use ∈ (ledger.next before (.said packet)).used,
            use.secret = data.secret ∧ use.nonce = before.nextNonce ∧
              use.isInitiator = before.isInitiator := by
          simp only [Ledger.next, wrote]
          exact ⟨_, List.mem_cons_self, rfl, rfl, rfl⟩
        rcases use with ⟨use, mem, secret, nonce, role⟩
        refine ⟨use, kept use mem, secret, ?_⟩
        rw [nonce, role]
        cases move with
        | ask _ _ bare => exact absurd (bare.data.symm.trans wrote) (by simp)
        | hello _ _ written => exact absurd (written.data.symm.trans wrote) (by simp)
        | helloAgain _ _ written => exact absurd (written.data.symm.trans wrote) (by simp)
        | key _ _ written => exact absurd (written.data.symm.trans wrote) (by simp)
        | keyAgain _ _ written => exact absurd (written.data.symm.trans wrote) (by simp)
        | firstData state written =>
            rcases written.data with ⟨_, same, _, placed⟩
            cases same.symm.trans wrote
            rw [state]
            exact placed
        | data _ written =>
            rcases written.data with ⟨_, same, _, placed⟩
            cases same.symm.trans wrote
            exact placed
      · exact recorded packet data later wrote

/-- One move keeps the ledger sound. -/
theorem Move.isSound (move : Move context me deed after)
    (fresh : ∀ received box, deed = .took received box → me.Knows box.encryptedTempKey)
    (bounded : me.nextNonce < 2 ^ 32) (sound : ledger.IsSound me) :
    (ledger.next me deed).IsSound after := by
  have drewFresh : View.Knows { me with rand := me.rest } me.fresh := by
    intro index inside
    cases inside
    exact Nat.lt_succ_self _
  have keeps : ∀ {key}, me.Knows key → View.Knows { me with rand := me.rest } key :=
    fun known index inside => (known index inside).trans (Nat.lt_succ_self _)
  cases move with
  | reset | asked => exact sound.go sound.knowsTemp rfl rfl (.inl (by norm_num))
  | @ask packet _ _ bare =>
      have same : ledger.next me (.said packet) = ledger := by
        simp [Ledger.next, bare.data, bare.box]
      rw [same]
      exact sound.go sound.knowsTemp rfl rfl (.inl (by norm_num))
  | hello state _ written =>
      rw [written.next, if_pos (.inl state)]
      refine sound.renew (Nat.le_succ _) rfl ?_ drewFresh sound.fresh_new fun _ => rfl
      intro index inside
      cases inside with
      | publicKey inside =>
          cases inside
          exact Nat.lt_succ_self _
  | helloAgain state _ written =>
      rw [written.next, if_neg (by omega)]
      exact sound.go sound.knowsTemp rfl rfl (.inl (by norm_num))
  | key state _ written =>
      rw [written.next, if_pos (.inr state)]
      refine sound.renew (Nat.le_succ _) rfl ?_ drewFresh sound.fresh_new fun _ => rfl
      exact keeps sound.knowsTemp
  | keyAgain state _ written =>
      rw [written.next, if_neg (by omega)]
      exact sound.go sound.knowsTemp rfl rfl (.inl (by norm_num))
  | firstData state written =>
      rw [written.next (if_pos (by omega))]
      have between : Ledger.IsSound { me with secret := me.finalSecret }
          { ledger with symbol := ledger.symbol.pairing me.tempKey } :=
        sound.renew le_rfl rfl sound.knowsTemp sound.knows_pairing sound.pairing_new
          sound.denotes_pairing
      refine between.use ?_ between.denotes sound.knowsTemp rfl rfl (.inr ?_)
      · intro use mem same
        exact absurd (same ▸ OccursIn.here) (sound.pairing_new use mem)
      · simp [state]
  | data state written =>
      rw [written.next (if_neg (by omega))]
      refine sound.use ?_ sound.denotes sound.knowsTemp rfl rfl ?_
      · intro use mem same
        rcases sound.once use mem with other | ⟨_, early | lower⟩
        · exact absurd (same ▸ OccursIn.here) other
        · omega
        · exact lower
      · simp only
        omega
  | tookHello =>
      exact sound.go (fresh _ _ rfl) rfl rfl (.inl (by norm_num))
  | tookKey =>
      exact sound.go (fresh _ _ rfl) rfl rfl (.inl (by norm_num))
  | final early =>
      rw [Ledger.next, if_pos early]
      exact sound.renew le_rfl rfl sound.knowsTemp sound.knows_pairing sound.pairing_new
        sound.denotes_pairing
  | heard state =>
      rw [Ledger.next, if_neg (by omega)]
      exact sound

theorem View.Knows.later {key : Key} (knows : before.Knows key) (later : before.Later after) :
    after.Knows key := by
  intro index inside
  rw [later.source_eq] at inside
  exact (knows index inside).trans_le later.drawn_le

/-- The moves of a call keep the ledger sound. -/
theorem Tells.isSound {told : Ledger} (tells : Tells context me ledger deeds after told)
    (fresh : ∀ received box, .took received box ∈ deeds → me.Knows box.encryptedTempKey)
    (bounded : me.nextNonce < 2 ^ 32) (sound : ledger.IsSound me) :
    told.IsSound after ∧ after.nextNonce < 2 ^ 32 := by
  induction tells with
  | nil => exact ⟨sound, bounded⟩
  | cons move _ ih =>
      apply ih
      · intro received box mem
        exact (fresh received box (List.mem_cons_of_mem _ mem)).later move.later
      · exact move.nextNonce_lt bounded
      · apply move.isSound _ bounded sound
        rintro received box rfl
        exact fresh received box List.mem_cons_self

/-- A handshake packet that is taken is the one that was received. -/
theorem Endpoint.call_took {endpoint : Endpoint} {call : Call} {taken : Packet}
    {box : HandshakeBox} (took : .took taken box ∈ (endpoint.call context call).deeds) :
    ∃ nowSecs chance, call = .receive nowSecs chance taken ∧ taken.handshake.box = some box := by
  have own : ∀ {before after : View} {deeds : List Deed}, Moves context before deeds after →
      .took taken box ∉ deeds := by
    intro before after deeds moves
    induction moves with
    | nil => exact List.not_mem_nil
    | cons move owns _ ih =>
        intro mem
        rcases List.mem_cons.mp mem with rfl | later
        · exact owns
        · exact ih later
  rcases Endpoint.call_cases context endpoint call with
    ⟨nowSecs, chance, received, rfl, reaction⟩ | moves
  · generalize (endpoint.call context (.receive nowSecs chance received)).deeds = deeds at *
    cases reaction with
    | ignored moves => exact absurd took (own moves)
    | took move moves =>
        rcases List.mem_cons.mp took with same | later
        · rw [Deed.took.injEq] at same
          rcases same with ⟨rfl, rfl⟩
          refine ⟨nowSecs, chance, rfl, ?_⟩
          cases move <;> assumption
        · exact absurd later (own moves)
    | heard => simp at took
  · exact absurd took (own moves)

theorem isSound_isInvariant (source : ℕ) (passwords : List Auth)
    (resetAfterInactivitySeconds : BitVec 32) :
    (ledgerRuns source passwords resetAfterInactivitySeconds).IsInvariant (fun _ _ => True)
      fun traced => traced.ledger.IsSound traced.endpoint.view ∧
        traced.endpoint.view.nextNonce < 2 ^ 32 where
  initial := by
    intro traced starts
    rcases starts with ⟨_, _, _, _, _, _, rfl⟩
    have knows : ∀ view : View, view.Knows .zero := by
      intro view index inside
      cases inside
    refine ⟨⟨knows _, knows _, ?_, ?_, ?_, fun _ => rfl, ?_⟩, ?_⟩
    all_goals simp [Endpoint.view, Wrapper.view, setAuth, wrapInterface]
  step := by
    intro before call after sound _ taken
    rcases taken with ⟨fresh, same, tells⟩
    refine tells.isSound ?_ sound.2 sound.1
    intro received box took
    rcases Endpoint.call_took took with ⟨nowSecs, chance, rfl, sealed⟩
    exact fresh box sealed

/-- No two data packets are encrypted under the same secret, in the same role and with the same
nonce. The secret is taken as a symbol; it is the secret of the wrapper wherever no agreement with
the zero point is a part of that. -/
theorem nonces_used_once (source : ℕ) (passwords : List Auth)
    (resetAfterInactivitySeconds : BitVec 32) (traced : Traced)
    (reachable : (ledgerRuns source passwords resetAfterInactivitySeconds).Reachable
      (fun _ _ => True) traced) :
    (traced.ledger.used.map Use.triple).Nodup ∧
      ∀ use ∈ traced.ledger.used, ¬OccursIn .null use.secret → use.symbol = use.secret := by
  have sound := (reachable.invariant (isSound_isInvariant source passwords _)).1
  exact ⟨sound.distinct, sound.denotesUsed⟩

/-! ## A run -/

/-- The symbol of the secret that a wrapper has after a hello and the first data packet -/
def agreedSymbol : Key :=
  Key.zero.pairing (.publicKey (.random 1 1))

def dataTraced : Traced where
  endpoint :=
    (helloWatched.endpoint.call (newContext 0 [] 60) (.receive 0 .zero honestData)).endpoint
  ledger := { symbol := agreedSymbol, used := [] }

def onceTraced : Traced where
  endpoint := (dataTraced.endpoint.call (newContext 0 [] 60) (.send 0 .zero [1])).endpoint
  ledger := { symbol := agreedSymbol, used := [⟨agreedSymbol, agreedSymbol, false, 5⟩] }

/-- The wrapper after two packets of its own -/
def twiceTraced : Traced where
  endpoint := (onceTraced.endpoint.call (newContext 0 [] 60) (.send 0 .zero [2])).endpoint
  ledger := {
    symbol := agreedSymbol
    used := [⟨agreedSymbol, agreedSymbol, false, 6⟩, ⟨agreedSymbol, agreedSymbol, false, 5⟩] }

theorem twiceTraced_reachable :
    (ledgerRuns 0 [] 60).Reachable (fun _ _ => True) twiceTraced := by
  have new : (ledgerRuns 0 [] 60).Reachable (fun _ _ => True)
      ⟨(newWatched false).endpoint, ⟨.zero, []⟩⟩ := .initial ⟨_, _, _, _, _, _, rfl⟩
  have hello : (ledgerRuns 0 [] 60).step ⟨(newWatched false).endpoint, ⟨.zero, []⟩⟩
      (.receive 0 .zero honestHello) ⟨helloWatched.endpoint, ⟨.zero, []⟩⟩ := by
    refine ⟨?_, rfl, ?_⟩
    · intro box sealed index inside
      cases sealed
      cases inside with
      | publicKey inside => cases inside
    · refine .cons (.tookHello _ rfl (by decide) rfl ?_) (.nil _ _)
      intro _ _
      rfl
  have final : (ledgerRuns 0 [] 60).step ⟨helloWatched.endpoint, ⟨.zero, []⟩⟩
      (.receive 0 .zero honestData) dataTraced := by
    refine ⟨?_, rfl, .cons (.final _ (by decide) (by decide) (by decide) rfl) (.nil _ _)⟩
    intro box sealed
    cases sealed
  have first : (ledgerRuns 0 [] 60).step dataTraced (.send 0 .zero [1]) onceTraced :=
    ⟨trivial, rfl, .cons (.data _ (by decide) ⟨rfl, _, rfl, rfl, rfl⟩) (.nil _ _)⟩
  have second : (ledgerRuns 0 [] 60).step onceTraced (.send 0 .zero [2]) twiceTraced :=
    ⟨trivial, rfl, .cons (.data _ (by decide) ⟨rfl, _, rfl, rfl, rfl⟩) (.nil _ _)⟩
  exact .step (.step (.step (.step new trivial hello) trivial final) trivial first) trivial second

theorem nonces_used_once_twice :
    (twiceTraced.ledger.used.map Use.triple).Nodup ∧
      ∀ use ∈ twiceTraced.ledger.used, ¬OccursIn .null use.secret → use.symbol = use.secret :=
  nonces_used_once 0 [] 60 twiceTraced twiceTraced_reachable

end CryptoAuth

end Cjdns
