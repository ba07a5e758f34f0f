import Infernum.Authentication.Token

/-!
# Two-factor authentication

`IOLoginData::gameworldAuthentication`: who gives the password of an account
and the code of its secret plays its character. The code is asked for only if
the secret decodes to a key, so a secret that is broken or too short asks for
none.
-/

namespace Infernum.Authentication

/-- The column `secret`: sixteen characters, of at most three bytes each. -/
structure Secret where
  bytes : Str
  fits : bytes.length ≤ 48

/-- A row of `accounts`. -/
structure AccountRow where
  id : UInt32
  password : Str
  secret : Option Secret

/-- `getString("secret")`: a column without a value reads as the empty string. -/
def AccountRow.secretString (row : AccountRow) : Str :=
  match row.secret with
  | some secret => secret.bytes
  | none => []

/-- A row of `players`. -/
structure PlayerRow where
  account_id : UInt32
  name : Str
  deletion : UInt64

/-- What the two queries find under a name. -/
structure Records where
  account : Str → Option AccountRow
  player : Str → Option PlayerRow

/-- The account id, zero for nobody, and the name of the character. -/
structure Login where
  accountId : UInt32
  characterName : Str
  deriving DecidableEq

/-- Whether the code is that of the tick or of one of its neighbours. -/
def tokenValid (secret token : Str) (tokenTime : UInt32) : Option Bool := do
  let now ← generateToken secret tokenTime
  let before ← generateToken secret (tokenTime - 1)
  let after ← generateToken secret (tokenTime + 1)
  return token == now || token == before || token == after

/-- The second factor lets the caller pass. -/
def tokenPasses (secret token : Str) (tokenTime : UInt32) : Option Bool :=
  if secret.isEmpty then
    some true
  else if token.isEmpty then
    some false
  else
    tokenValid secret token tokenTime

/-- The character belongs to the account. -/
def enterCharacter (db : Records) (accountId : UInt32) (characterName : Str) : Login :=
  match db.player characterName with
  | none => { accountId := 0, characterName := characterName }
  | some row =>
      if row.account_id ≠ accountId ∨ row.deletion ≠ 0 then
        { accountId := 0, characterName := characterName }
      else
        { accountId := accountId, characterName := row.name }

/-- There is no answer where a key runs over the pads of `generateToken`. -/
def gameworldAuthentication (db : Records) (accountName password characterName token : Str)
    (tokenTime : UInt32) : Option Login :=
  let refused : Login := { accountId := 0, characterName := characterName }
  match db.account accountName with
  | none => some refused
  | some row => do
      let secret := decodeSecret row.secretString
      let passes ← tokenPasses secret token tokenTime
      if !passes then
        return refused
      else if transformToSHA1 password ≠ row.password then
        return refused
      else
        return enterCharacter db row.id characterName

/-! ### Answers -/

/-- The keys of stored secrets have codes. -/
theorem tokenPasses_isSome (secret : Secret) (token : Str) (tokenTime : UInt32) :
    (tokenPasses (decodeSecret secret.bytes) token tokenTime).isSome := by
  have hkey : (decodeSecret secret.bytes).length ≤ 64 := by
    have hlen := length_decodeSecret_le secret.bytes
    have hfits := secret.fits
    omega
  have hcode : ∀ ticks, ∃ code, generateToken (decodeSecret secret.bytes) ticks = some code :=
    fun ticks => Option.isSome_iff_exists.mp (generateToken_isSome hkey ticks)
  rw [tokenPasses]
  split
  · rfl
  · split
    · rfl
    · obtain ⟨now, hnow⟩ := hcode tokenTime
      obtain ⟨before, hbefore⟩ := hcode (tokenTime - 1)
      obtain ⟨after, hafter⟩ := hcode (tokenTime + 1)
      rw [tokenValid, hnow, hbefore, hafter]
      rfl

/-- The function always answers: no stored secret runs over the pads. -/
theorem gameworldAuthentication_isSome (db : Records)
    (accountName password characterName token : Str) (tokenTime : UInt32) :
    (gameworldAuthentication db accountName password characterName token tokenTime).isSome := by
  unfold gameworldAuthentication
  cases db.account accountName with
  | none => rfl
  | some row =>
      have hsome : (tokenPasses (decodeSecret row.secretString) token tokenTime).isSome := by
        rw [AccountRow.secretString]
        split
        · exact tokenPasses_isSome _ token tokenTime
        · rfl
      obtain ⟨passes, hpasses⟩ := Option.isSome_iff_exists.mp hsome
      simp only [hpasses, Option.bind_eq_bind, Option.bind_some, Option.pure_def]
      split
      · rfl
      · split <;> rfl

/-- Somebody who is let in has passed the second factor and given the
password. -/
theorem passed_of_admitted {db : Records} {accountName password characterName token : Str}
    {tokenTime : UInt32} {row : AccountRow} {login : Login}
    (hrow : db.account accountName = some row)
    (h : gameworldAuthentication db accountName password characterName token tokenTime =
      some login) (hid : login.accountId ≠ 0) :
    tokenPasses (decodeSecret row.secretString) token tokenTime = some true ∧
      transformToSHA1 password = row.password := by
  rw [gameworldAuthentication, hrow] at h
  obtain ⟨passes, hpasses, hrest⟩ := Option.bind_eq_some_iff.mp h
  cases passes with
  | false =>
      cases hrest
      exact absurd rfl hid
  | true =>
      refine ⟨hpasses, ?_⟩
      by_cases hpassword : transformToSHA1 password = row.password
      · exact hpassword
      · simp only [Bool.not_true, Bool.false_eq_true, if_false, hpassword, ne_eq,
          not_false_eq_true, if_true] at hrest
        cases hrest
        exact absurd rfl hid

/-- The token is a code of the key for the tick or one of its neighbours. -/
def IsCode (key token : Str) (tokenTime : UInt32) : Prop :=
  ∃ ticks ∈ [tokenTime, tokenTime - 1, tokenTime + 1], generateToken key ticks = some token

/-- With a key, only its codes pass. -/
theorem isCode_of_passes {key token : Str} {tokenTime : UInt32} (hkey : key ≠ [])
    (h : tokenPasses key token tokenTime = some true) :
    token ≠ [] ∧ IsCode key token tokenTime := by
  rw [tokenPasses, if_neg (by simpa using hkey)] at h
  split at h
  · cases h
  · rename_i htoken
    obtain ⟨now, hnow, h⟩ := Option.bind_eq_some_iff.mp h
    obtain ⟨before, hbefore, h⟩ := Option.bind_eq_some_iff.mp h
    obtain ⟨after, hafter, h⟩ := Option.bind_eq_some_iff.mp h
    simp only [Option.pure_def, Option.some.injEq, Bool.or_eq_true, beq_iff_eq] at h
    refine ⟨by simpa using htoken, ?_⟩
    rcases h with (rfl | rfl) | rfl
    · exact ⟨tokenTime, by simp, hnow⟩
    · exact ⟨tokenTime - 1, by simp, hbefore⟩
    · exact ⟨tokenTime + 1, by simp, hafter⟩

/-- Nobody gets into an account with this secret without a code of its key. -/
def SecondFactorHolds (secret : Secret) : Prop :=
  ∀ (db : Records) (accountName : Str) (row : AccountRow), db.account accountName = some row →
    row.secret = some secret →
    ∀ (password characterName token : Str) (tokenTime : UInt32) (login : Login),
      gameworldAuthentication db accountName password characterName token tokenTime =
        some login →
      login.accountId ≠ 0 →
        transformToSHA1 password = row.password ∧ token ≠ [] ∧
          IsCode (decodeSecret secret.bytes) token tokenTime

/-- A database with one account, for the password "", and its character. -/
def oneAccount (secret : Secret) : Records :=
  { account := fun _ => some { id := 1, password := transformToSHA1 [], secret := some secret }
    player := fun name => some { account_id := 1, name := name, deletion := 0 } }

theorem admitted_of_no_key {secret : Secret} (hkey : decodeSecret secret.bytes = []) :
    gameworldAuthentication (oneAccount secret) [] [] [] [] 0 =
      some { accountId := 1, characterName := [] } := by
  have hpasses : tokenPasses (decodeSecret secret.bytes) [] 0 = some true := by
    rw [hkey]
    rfl
  show (tokenPasses (decodeSecret secret.bytes) [] 0 >>= _) = _
  rw [hpasses]
  simp [oneAccount, enterCharacter]

/-- The second factor holds exactly for the secrets of at least two characters
that are all among A–Z and 2–7. -/
theorem second_factor_iff (secret : Secret) :
    SecondFactorHolds secret ↔
      2 ≤ secret.bytes.length ∧
        ∀ ch ∈ secret.bytes, (65 ≤ ch ∧ ch ≤ 90) ∨ (50 ≤ ch ∧ ch ≤ 55) := by
  have hvalue : ∀ ch, (base32Value ch).isSome ↔ (65 ≤ ch ∧ ch ≤ 90) ∨ (50 ≤ ch ∧ ch ≤ 55) := by
    intro ch
    rw [base32Value]
    split
    · rename_i hletter
      exact iff_of_true rfl (.inl hletter)
    · rename_i hletter
      split
      · rename_i hdigit
        exact iff_of_true rfl (.inr hdigit)
      · rename_i hdigit
        exact iff_of_false (by simp) (by simp only [hletter, hdigit, or_self, not_false_eq_true])
  have hiff : decodeSecret secret.bytes ≠ [] ↔ _ := decodeSecret_ne_nil_iff secret.bytes
  simp only [hvalue] at hiff
  rw [← hiff]
  constructor
  · intro hholds hkey
    have hcode := hholds (oneAccount secret) [] _ rfl rfl [] [] [] 0 _ (admitted_of_no_key hkey)
      (by decide)
    exact hcode.2.1 rfl
  · intro hkey db accountName row hrow hsecret password characterName token tokenTime login h hid
    have hstring : row.secretString = secret.bytes := by
      rw [AccountRow.secretString, hsecret]
    obtain ⟨hpasses, hpassword⟩ := passed_of_admitted hrow h hid
    rw [hstring] at hpasses
    exact ⟨hpassword, isCode_of_passes hkey hpasses⟩

/-- The secret "a", which is no base 32. -/
def lowerCase : Secret := { bytes := [97], fits := by decide }

/-- An account with a broken secret is open to its password alone. -/
theorem broken_secret_admits : ¬ ∀ secret : Secret, secret.bytes ≠ [] → SecondFactorHolds secret := by
  intro h
  have hkey : decodeSecret lowerCase.bytes = [] := by decide
  have hcode := h lowerCase (by decide) (oneAccount lowerCase) [] _ rfl rfl [] [] [] 0 _
    (admitted_of_no_key hkey) (by decide)
  exact hcode.2.1 rfl

end Infernum.Authentication
