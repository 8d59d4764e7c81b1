import PersonalBlockchain.Lib.FiniteMap
import PersonalBlockchain.Model.HttpServer

/-!
# Personal blockchain — logging in with a wallet

`WalletManager` hands out a random challenge for an address and its public key,
and a signature of the challenge logs in. A `std::unordered_map` keeps the
challenges that are not answered yet. Both calls change it under the mutex of
the wallet manager, `createLoginChallenge` after it has drawn the challenge and
read the clock, so each is one step with its own reading of the clock.

## Results

* `verifyLogin_store` — whatever the outcome, the challenge is used up;
* `Issued.step` — one call keeps the invariant that says where stored challenges come
  from;
* `login_challenges_single_use` — a login with a token answers a challenge that was
  created for its address and key at most five minutes before and was never named by a
  login since, and its signature verifies.
-/

namespace PersonalBlockchain

open Std Machine FiniteMap HttpServer

/-! ## The wallet manager -/

/-- `struct ChallengeRecord`. -/
structure ChallengeRecord where
  address : String
  publicKey : String
  /-- nanoseconds since the epoch -/
  expiresAt : Int

/-- The challenges that are not answered yet. -/
structure WalletManager where
  challengeStore : ExtTreeMap String ChallengeRecord := ∅

/-- `now() + std::chrono::minutes(5)`, in the 64 bits of the clock. -/
def challengeExpiry (now : TimePoint) : Int :=
  ((now.ns : Int) + 5 * 60 * 1000000000).bmod (2 ^ 64)

namespace WalletManager

/-- `createLoginChallenge`, with the value of `randomChallenge`; an error is
what it throws. -/
def createLoginChallenge (C : Crypto) (now : TimePoint) (randomChallenge address publicKey : String)
    (wm : WalletManager) : Except String String × WalletManager :=
  if addressFromPublicKey C publicKey ≠ address then
    (.error "Address/public key mismatch", wm)
  else
    (.ok randomChallenge, ⟨wm.challengeStore.insert randomChallenge
      ⟨address, publicKey, challengeExpiry now⟩⟩)

/-- `verifyLogin`: a token, or none. A challenge that is found is erased before
anything else is looked at, so that no answer to it gets a second try. -/
def verifyLogin (C : Crypto) (now : TimePoint) (address publicKey challenge signatureHex : String)
    (wm : WalletManager) : Option String × WalletManager :=
  match wm.challengeStore[challenge]? with
  | none => (none, wm)
  | some record =>
    let erased : WalletManager := ⟨wm.challengeStore.erase challenge⟩
    if record.expiresAt < now.ns then (none, erased)
    else if record.address ≠ address ∨ record.publicKey ≠ publicKey then (none, erased)
    else if addressFromPublicKey C publicKey ≠ address then (none, erased)
    else if !C.verify challenge signatureHex publicKey then (none, erased)
    else (some (C.sha256 (address ++ ":" ++ toString now.ns)), erased)

variable {C : Crypto} {now : TimePoint} {address publicKey challenge signatureHex : String}
  {wm wm' : WalletManager}

/-- **A challenge is used up**, and no other one is touched. -/
theorem verifyLogin_store (other : String) :
    (wm.verifyLogin C now address publicKey challenge signatureHex).2.challengeStore[other]? =
      if challenge = other then none else wm.challengeStore[other]? := by
  unfold verifyLogin
  split
  · rename_i hmissing
    split
    · rename_i heq
      rw [← heq, hmissing]
    · rfl
  · -- every way out erases
    split_ifs <;> simp_all [getElem?_erase_eq]

/-- What a login satisfies that gets a token. -/
structure LogsIn (C : Crypto) (now : TimePoint) (address publicKey challenge signatureHex : String)
    (record : ChallengeRecord) : Prop where
  intime : (now.ns : Int) ≤ record.expiresAt
  address_eq : record.address = address
  publicKey_eq : record.publicKey = publicKey
  derived : addressFromPublicKey C publicKey = address
  signed : C.verify challenge signatureHex publicKey = true

theorem verifyLogin_token {token : String}
    (h : (wm.verifyLogin C now address publicKey challenge signatureHex).1 = some token) :
    ∃ record, wm.challengeStore[challenge]? = some record ∧
      LogsIn C now address publicKey challenge signatureHex record := by
  unfold verifyLogin at h
  split at h
  · cases h
  · rename_i record hstored
    split_ifs at h with hexpired hrecord hderived hsigned
    simp only [not_or, not_not] at hrecord
    exact ⟨record, hstored, Int.not_lt.mp hexpired, hrecord.1, hrecord.2, not_not.mp hderived,
      by simpa using hsigned⟩

end WalletManager

/-- The expiry is no later than five minutes after the call. -/
theorem challengeExpiry_le (now : TimePoint) :
    challengeExpiry now ≤ (now.ns : Int) + 5 * 60 * 1000000000 := by
  have hrange := now.inRange
  unfold challengeExpiry
  rw [Int.bmod_def]
  split <;> omega

/-! ## Calls in any order -/

/-- The calls of the wallet manager. -/
inductive LoginOp
  | createLoginChallenge (randomChallenge address publicKey : String)
  | verifyLogin (address publicKey challenge signatureHex : String)

/-- A call and the reading of the clock it works with. -/
structure LoginCall where
  now : TimePoint
  op : LoginOp

/-- What the calls answer. -/
inductive LoginAnswer
  | challenge (result : Except String String)
  | token (result : Option String)

/-- One call of the wallet manager. -/
def loginStep (C : Crypto) (call : LoginCall) (wm : WalletManager) :
    Option (LoginAnswer × WalletManager) :=
  match call.op with
  | .createLoginChallenge randomChallenge address publicKey =>
    let out := wm.createLoginChallenge C call.now randomChallenge address publicKey
    some (.challenge out.1, out.2)
  | .verifyLogin address publicKey challenge signatureHex =>
    let out := wm.verifyLogin C call.now address publicKey challenge signatureHex
    some (.token out.1, out.2)

/-- A call of the wallet manager, with the store before and after it. -/
abbrev LoginEntry := Entry WalletManager LoginCall LoginAnswer

/-- The challenge a call created, with its address and key. -/
def created (e : LoginEntry) : Option (String × String × String) :=
  match e.call.op, e.ret with
  | .createLoginChallenge _ address publicKey, .challenge (.ok challenge) =>
    some (challenge, address, publicKey)
  | _, _ => none

/-- The challenge a login names. -/
def named (e : LoginEntry) : Option String :=
  match e.call.op with
  | .verifyLogin _ _ challenge _ => some challenge
  | .createLoginChallenge _ _ _ => none

/-- The challenge the call creates has not been created before. -/
def FreshChallenge (before : List LoginEntry) (e : LoginEntry) : Prop :=
  ∀ earlier ∈ before, created e ≠ none → (created e).map Prod.fst ≠ (created earlier).map Prod.fst

instance (before : List LoginEntry) (e : LoginEntry) : Decidable (FreshChallenge before e) := by
  unfold FreshChallenge
  infer_instance

/-- A challenge was created for this address and key, once, and no login has
named it since. -/
structure CreatedBy (tr : List LoginEntry) (challenge address publicKey : String)
    (before : List LoginEntry) (e : LoginEntry) (after : List LoginEntry) : Prop where
  split : tr = before ++ e :: after
  creates : created e = some (challenge, address, publicKey)
  once : ∀ other ∈ before ++ after, (created other).map Prod.fst ≠ some challenge
  unnamed : ∀ other ∈ after, named other ≠ some challenge

/-- Where the stored challenges come from. -/
def Issued (tr : List LoginEntry) (wm : WalletManager) : Prop :=
  ∀ challenge record, wm.challengeStore[challenge]? = some record →
    ∃ before e after, CreatedBy tr challenge record.address record.publicKey before e after ∧
      record.expiresAt = challengeExpiry e.call.now

variable {C : Crypto} {tr : List LoginEntry} {e : LoginEntry} {wm wm' : WalletManager}

/-- One more call that neither creates nor names the challenge. -/
theorem CreatedBy.snoc {challenge address publicKey : String} {before after : List LoginEntry}
    {e' : LoginEntry} (h : CreatedBy tr challenge address publicKey before e' after)
    (hother : (created e).map Prod.fst ≠ some challenge) (hunnamed : named e ≠ some challenge) :
    CreatedBy (tr ++ [e]) challenge address publicKey before e' (after ++ [e]) where
  split := by rw [h.split, List.append_assoc, List.cons_append]
  creates := h.creates
  once := by
    intro other hmem
    rw [← List.append_assoc] at hmem
    rcases List.mem_append.mp hmem with hmem | hmem
    · exact h.once other hmem
    · rwa [List.mem_singleton.mp hmem]
  unnamed := by
    intro other hmem
    rcases List.mem_append.mp hmem with hmem | hmem
    · exact h.unnamed other hmem
    · rwa [List.mem_singleton.mp hmem]

/-- One call keeps the origin of the stored challenges. -/
theorem Issued.step (h : Issued tr e.pre) (hfresh : FreshChallenge tr e)
    (hs : loginStep C e.call e.pre = some (e.ret, e.post)) : Issued (tr ++ [e]) e.post := by
  -- what was stored and still is, if the call is about another challenge
  have hkept : ∀ challenge record, e.pre.challengeStore[challenge]? = some record →
      (created e).map Prod.fst ≠ some challenge → named e ≠ some challenge →
      ∃ before e' after,
        CreatedBy (tr ++ [e]) challenge record.address record.publicKey before e' after ∧
          record.expiresAt = challengeExpiry e'.call.now := by
    intro challenge record hstored hother hunnamed
    obtain ⟨before, e', after, hcreated, hexpiry⟩ := h challenge record hstored
    exact ⟨before, e', after ++ [e], hcreated.snoc hother hunnamed, hexpiry⟩
  obtain ⟨pre, ⟨now, op⟩, ret, post⟩ := e
  intro challenge record hstored
  cases op with
  | createLoginChallenge randomChallenge address publicKey =>
    simp only [loginStep, WalletManager.createLoginChallenge] at hs
    split_ifs at hs with hderived
    · -- the call threw
      simp only [Option.some.injEq, Prod.mk.injEq] at hs
      obtain ⟨rfl, rfl⟩ := hs
      exact hkept challenge record hstored (by simp [created]) (by simp [named])
    · simp only [Option.some.injEq, Prod.mk.injEq] at hs
      obtain ⟨rfl, rfl⟩ := hs
      rw [getElem?_insert_eq] at hstored
      split_ifs at hstored with hsame
      · -- the challenge that has just been created
        subst hsame
        cases hstored
        refine ⟨tr, _, [], ⟨rfl, rfl, fun other hmem => ?_, by simp⟩, by dsimp only⟩
        rw [List.append_nil] at hmem
        exact (hfresh other hmem (by simp [created])).symm
      · exact hkept challenge record hstored (by simpa [created] using hsame) (by simp [named])
  | verifyLogin address publicKey answered signatureHex =>
    simp only [loginStep, Option.some.injEq, Prod.mk.injEq] at hs
    obtain ⟨rfl, rfl⟩ := hs
    rw [WalletManager.verifyLogin_store] at hstored
    split_ifs at hstored with hsame
    exact hkept challenge record hstored (by simp [created]) (by simpa [named] using hsame)

/-- **Login challenges are used once.** A login with a token answers a challenge
that was created for its address and key, at most five minutes earlier, and that
no other login has named; every login uses up the challenge it names and touches
no other one. -/
theorem login_challenges_single_use (hrun : Run (loginStep C) {} tr wm)
    (hfresh : Along FreshChallenge tr) :
    ∀ before e after address publicKey challenge signatureHex, tr = before ++ e :: after →
      e.call.op = .verifyLogin address publicKey challenge signatureHex →
      (∀ token, e.ret = .token (some token) →
        addressFromPublicKey C publicKey = address ∧
          C.verify challenge signatureHex publicKey = true ∧
          ∃ before' created after', CreatedBy before challenge address publicKey
              before' created after' ∧
            e.call.now.ns ≤ created.call.now.ns + 5 * 60 * 1000000000) ∧
        ∀ other, e.post.challengeStore[other]? =
          if challenge = other then none else e.pre.challengeStore[other]? := by
  -- every stored challenge was created in the run
  have hissued := (hrun.history_of (J := Issued) (C := FreshChallenge)
    (fun challenge record hstored => by simp at hstored) (fun _ _ => Issued.step) hfresh).2
  intro before e after address publicKey challenge signatureHex hsplit hop
  obtain ⟨hs, hbefore⟩ := hissued before e after hsplit
  obtain ⟨pre, ⟨now, op⟩, ret, post⟩ := e
  obtain rfl : op = .verifyLogin address publicKey challenge signatureHex := hop
  simp only [loginStep, Option.some.injEq, Prod.mk.injEq] at hs
  obtain ⟨rfl, rfl⟩ := hs
  refine ⟨fun token htoken => ?_, fun other => WalletManager.verifyLogin_store other⟩
  obtain ⟨record, hstored, hlogs⟩ := WalletManager.verifyLogin_token (LoginAnswer.token.inj htoken)
  obtain ⟨before', created, after', hcreated, hexpiry⟩ := hbefore challenge record hstored
  rw [hlogs.address_eq, hlogs.publicKey_eq] at hcreated
  refine ⟨hlogs.derived, hlogs.signed, before', created, after', hcreated, ?_⟩
  -- the store has the latest time at which it may be used
  have hintime := hlogs.intime
  have hlatest := challengeExpiry_le created.call.now
  rw [← hexpiry] at hlatest
  exact_mod_cast hintime.trans hlatest

/-! ## A login, and the same answer again

The challenge, the signature and the digests are genuine. -/

section Sample

/-- The key of the sample. -/
def loginPublicKey : String :=
  "02bee95d427d3f1b7990d05f62f3592ae789d2670468de543611c05c31f3f4d23e"
def loginAddress : String := "PCN_11f099065b3d2841aac5b6ace09e7e84bd8a6e95"
def loginChallenge : String := "6ecbcbde278e1bdbfb2df9da73240cf97a2141d26cbae84d5a227206eeb9b897"
def loginSignature : String :=
  "304402203329b372bb293a35061052d96df1a7d67bc36c649e3015d053863c0072e680de" ++
    "0220340cc5d953a7cf75204e53e4f33667a5637911287bd784339dd294c3a972bd01"

/-- The digests and the one signature of the sample. -/
def loginCrypto : Crypto :=
  .ofTable
    [(loginPublicKey, "11f099065b3d2841aac5b6ace09e7e84bd8a6e95a847ab5d4ca287ad14db74d6"),
      (loginAddress ++ ":1773489610000000000",
        "68d272f2eac4864ae22574fc8e5f09d8c748cf27b1e6b81edb1bccc539cb507f")]
    [(loginChallenge, loginSignature, loginPublicKey)]

/-- The owner of the key answers after ten seconds, and again a second later. -/
def loginCalls : List LoginCall :=
  [⟨.ofSeconds 1773489600 (by decide),
      .createLoginChallenge loginChallenge loginAddress loginPublicKey⟩,
    ⟨.ofSeconds 1773489610 (by decide),
      .verifyLogin loginAddress loginPublicKey loginChallenge loginSignature⟩,
    ⟨.ofSeconds 1773489611 (by decide),
      .verifyLogin loginAddress loginPublicKey loginChallenge loginSignature⟩]

/-- Only the first of two answers gets a token. -/
def firstAnswered : List LoginAnswer → Bool
  | [_, .token (some _), .token none] => true
  | _ => false

theorem firstAnswered_cases {created first second : LoginAnswer}
    (h : firstAnswered [created, first, second] = true) :
    (∃ token, first = .token (some token)) ∧ second = .token none := by
  unfold firstAnswered at h
  split at h
  next token heq =>
    simp only [List.cons.injEq, and_true] at heq
    exact ⟨⟨token, heq.2.1⟩, heq.2.2⟩
  next => cases h

end Sample

/-- The first answer gets a token for the challenge that was created, the second
one none. -/
theorem login_challenges_single_use_replayed :
    ∃ tr wm, Run (loginStep loginCrypto) {} tr wm ∧
      ∃ before e after again, tr = before ++ e :: after ∧ after = [again] ∧
        (∃ token, e.ret = .token (some token)) ∧ again.ret = .token none ∧
        ∃ before' created after',
          CreatedBy before loginChallenge loginAddress loginPublicKey before' created after' ∧
            e.call.now.ns ≤ created.call.now.ns + 5 * 60 * 1000000000 := by
  obtain ⟨tr, wm, hrun, hcalls, hcheck⟩ := Run.exists_of_exec_map (loginStep loginCrypto) loginCalls
    {} (fun r => decide (Along FreshChallenge r.1) &&
      firstAnswered (r.1.map Entry.ret)) (by decide +kernel)
  have hlength : tr.length = 3 := (List.length_map _).symm.trans (congrArg List.length hcalls)
  -- created, answered, and answered once more
  obtain ⟨e₁, e₂, e₃, rfl⟩ := List.length_eq_three.mp hlength
  simp only [Bool.and_eq_true, decide_eq_true_eq] at hcheck
  obtain ⟨hfresh, hrets⟩ := hcheck
  obtain ⟨⟨token, hfirst⟩, hsecond⟩ := firstAnswered_cases hrets
  have hcall : e₂.call.op =
      .verifyLogin loginAddress loginPublicKey loginChallenge loginSignature := by
    simp only [loginCalls, List.map_cons, List.cons.injEq] at hcalls
    rw [hcalls.2.1]
  have hlogin := login_challenges_single_use hrun hfresh [e₁] e₂ [e₃] _ _ _ _ rfl hcall
  obtain ⟨-, -, hcreated⟩ := hlogin.1 token hfirst
  exact ⟨_, wm, hrun, [e₁], e₂, [e₃], e₃, rfl, rfl, ⟨token, hfirst⟩, hsecond, hcreated⟩

end PersonalBlockchain
