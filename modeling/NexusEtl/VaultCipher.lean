import NexusEtl.Text

/-!
# Keys, tokens and locators of the vault

Secrets are encrypted with data keys, and data keys are wrapped with a master
key that is derived from a passphrase and never stored. The token scheme, the
key derivation and the hash functions are parameters; what is assumed of them
is that a token opens under its own key and under no other, and that a digest
determines what was digested.
-/

set_option autoImplicit false

namespace NexusEtl

abbrev Bytes := List UInt8

inductive VaultErrorKind
  | secretKeyConfig | secretStore | secretRead | secretDecryption | secretIntegrity
  | startupKeyValidation | startupProbeCorrupted | startupStorageReadonly
  | startupUninitializedReadonly | managementOperation
  | valueError | runtimeError | sqlite
  deriving DecidableEq, Repr

/-- An exception of the vault with the `reason` of its details. -/
structure VaultError where
  kind : VaultErrorKind
  message : String
  reason : String
  deriving DecidableEq, Repr

/-- The Fernet scheme: keys and tokens are their base64 texts. -/
structure Fernet where
  validKey : String → Bool
  encrypt : Nat → String → String → String
  decrypt : String → String → Option String
  envelope : String → Bool

/-- Authenticated encryption: a token opens under its key and under no other. -/
structure Fernet.Correct (fernet : Fernet) : Prop where
  opens : ∀ n k p, fernet.validKey k = true →
    fernet.decrypt k (fernet.encrypt n k p) = some p
  closed : ∀ n k k' p, fernet.validKey k = true → fernet.validKey k' = true → k ≠ k' →
    fernet.decrypt k' (fernet.encrypt n k p) = none
  token : ∀ n k p, fernet.encrypt n k p ≠ "" ∧ fernet.envelope (fernet.encrypt n k p) = true

def fernetV1 : String := "FERNET_V1"

def ensureAlgo (algo : String) : Except VaultError Unit :=
  if algo = fernetV1 then .ok () else
    .error ⟨.secretIntegrity,"Unsupported vault algorithm","unsupported_algorithm"⟩

namespace Fernet

variable (fernet : Fernet)

def checkToken (token : String) : Except VaultError Unit :=
  if token = "" then
    .error ⟨.secretIntegrity,"Ciphertext token is empty","empty_token"⟩
  else if fernet.envelope token then .ok ()
  else .error ⟨.secretIntegrity,"Ciphertext token has invalid Fernet envelope",
    "invalid_fernet_envelope"⟩

def checkDek (dek : String) : Except VaultError Unit :=
  if fernet.validKey dek then .ok () else
    .error ⟨.secretIntegrity,"Invalid DEK format","invalid_dek"⟩

def checkMasterKey (key : String) : Except VaultError Unit :=
  if fernet.validKey key then .ok () else
    .error ⟨.secretKeyConfig,"Invalid master key format","invalid_master_key"⟩

/-- `FernetEnvelopeCipher.encrypt`; the nonce is the scheme's own randomness. -/
def encryptSecret (nonce : Nat) (plaintext dek algo : String) : Except VaultError String := do
  ensureAlgo algo
  fernet.checkDek dek
  return fernet.encrypt nonce dek plaintext

def decryptSecret (ciphertext dek algo : String) : Except VaultError String := do
  ensureAlgo algo
  fernet.checkToken ciphertext
  fernet.checkDek dek
  match fernet.decrypt dek ciphertext with
  | some plaintext => return plaintext
  | none => throw ⟨.secretDecryption,"Failed to decrypt secret payload","invalid_token"⟩

def wrapDek (nonce : Nat) (dek key algo : String) : Except VaultError String := do
  ensureAlgo algo
  fernet.checkMasterKey key
  return fernet.encrypt nonce key dek

def unwrapDek (wrapped key algo : String) : Except VaultError String := do
  ensureAlgo algo
  fernet.checkToken wrapped
  fernet.checkMasterKey key
  match fernet.decrypt key wrapped with
  | some dek => return dek
  | none => throw ⟨.secretDecryption,"Failed to unwrap DEK","invalid_token"⟩

variable {fernet}

theorem wrapDek_of_valid {key : String} (hk : fernet.validKey key = true) (nonce : Nat)
    (dek : String) : fernet.wrapDek nonce dek key fernetV1 = .ok (fernet.encrypt nonce key dek) := by
  simp [wrapDek, ensureAlgo, checkMasterKey, hk, bind, Except.bind, pure, Except.pure]

theorem encryptSecret_of_valid {dek : String} (hk : fernet.validKey dek = true) (nonce : Nat)
    (plaintext : String) :
    fernet.encryptSecret nonce plaintext dek fernetV1 = .ok (fernet.encrypt nonce dek plaintext) := by
  simp [encryptSecret, ensureAlgo, checkDek, hk, bind, Except.bind, pure, Except.pure]

theorem Correct.decryptSecret (h : fernet.Correct) {dek algo : String} (ha : algo = fernetV1)
    (hk : fernet.validKey dek = true) (nonce : Nat) (plaintext : String) :
    fernet.decryptSecret (fernet.encrypt nonce dek plaintext) dek algo = .ok plaintext := by
  have htoken := h.token nonce dek plaintext
  simp [Fernet.decryptSecret, ensureAlgo, checkToken, checkDek, ha, hk, htoken.1, htoken.2,
    h.opens nonce dek plaintext hk, bind, Except.bind, pure, Except.pure]

/-- A wrapped data key opens under a key exactly if that is the key it was wrapped with. -/
theorem Correct.unwrapDek (h : fernet.Correct) {key key' algo : String} (ha : algo = fernetV1)
    (hk : fernet.validKey key = true) (nonce : Nat) (dek : String) :
    fernet.unwrapDek (fernet.encrypt nonce key dek) key' algo =
      if fernet.validKey key' then
        if key' = key then .ok dek
        else .error ⟨.secretDecryption,"Failed to unwrap DEK","invalid_token"⟩
      else .error ⟨.secretKeyConfig,"Invalid master key format","invalid_master_key"⟩ := by
  have htoken := h.token nonce key dek
  cases hk' : fernet.validKey key' with
  | false =>
    simp [Fernet.unwrapDek, ensureAlgo, checkToken, checkMasterKey, ha, hk', htoken.1, htoken.2,
      bind, Except.bind]
  | true =>
    by_cases hsame : key' = key
    · subst hsame
      simp [Fernet.unwrapDek, ensureAlgo, checkToken, checkMasterKey, ha, hk, htoken.1, htoken.2,
        h.opens nonce key' dek hk, bind, Except.bind, pure, Except.pure]
    · simp [Fernet.unwrapDek, ensureAlgo, checkToken, checkMasterKey, ha, hk', htoken.1, htoken.2,
        h.closed nonce key key' dek hk hk' (Ne.symm hsame), hsame, bind, Except.bind, throw,
        throwThe, MonadExceptOf.throw]

end Fernet

structure VaultMasterKey where
  keyVersion : String
  keyMaterial : String
  isActive : Bool
  deriving DecidableEq, Repr

structure VaultUnsealMetadata where
  keyVersion : String
  kdfAlgo : String
  kdfSalt : Bytes
  kdfTimeCost : Int
  kdfMemoryCostKib : Int
  kdfParallelism : Int
  kdfHashLen : Int
  hmacAlgo : String
  hmacSalt : Bytes
  hmacDigest : Bytes
  createdAt : String
  updatedAt : String
  deriving DecidableEq, Repr

/-- Argon2id, which may refuse its parameters, and HMAC-SHA256. -/
structure Kdf where
  argon2id : String → Bytes → Int → Int → Int → Int → Option Bytes
  hmacSha256 : Bytes → Bytes → Bytes

def base64Digit (n : Nat) : Char :=
  "ABCDEFGHIJKLMNOPQRSTUVWXYZabcdefghijklmnopqrstuvwxyz0123456789-_".toList.getD (n % 64) 'A'

def base64Digits : List Nat → List Char
  | [] => []
  | [a] => [base64Digit (a / 4),base64Digit (a * 16),'=','=']
  | [a,b] => [base64Digit (a / 4),base64Digit (a * 16 + b / 16),base64Digit (b * 4),'=']
  | a::b::c::rest => base64Digit (a / 4)::base64Digit (a * 16 + b / 16)::
      base64Digit (b * 4 + c / 64)::base64Digit c::base64Digits rest

/-- `base64.urlsafe_b64encode`. -/
def urlsafeB64 (raw : Bytes) : String := String.ofList (base64Digits (raw.map UInt8.toNat))

theorem base64Digits_length (raw : List Nat) :
    (base64Digits raw).length = 4 * ((raw.length + 2) / 3) := by
  fun_induction base64Digits raw with
  | case1 => rfl
  | case2 a => simp
  | case3 a b => simp
  | case4 a b c rest ih =>
    simp only [List.length_cons, ih]
    omega

/-- A digest determines its key, and 32 bytes make a key of the scheme. -/
structure Kdf.Correct (kdf : Kdf) (fernet : Fernet) : Prop where
  hmac : ∀ k k' m, kdf.hmacSha256 k m = kdf.hmacSha256 k' m → k = k'
  length : ∀ secret salt time memory lanes raw,
    kdf.argon2id secret salt time memory lanes 32 = some raw → raw.length = 32
  key : ∀ raw : Bytes, raw.length = 32 → fernet.validKey (urlsafeB64 raw) = true

def hmacMessagePrefix : Bytes := "ankey-vault-unseal-v1".toList.map fun c => c.toNat.toUInt8

namespace Kdf

variable (kdf : Kdf)

def requirePassphrase (passphrase : String) : Except VaultError Unit :=
  if passphrase = "" then
    .error ⟨.secretKeyConfig,"Vault unseal passphrase is empty","unseal_passphrase_empty"⟩
  else .ok ()

def validateKdfParams (metadata : VaultUnsealMetadata) : Except VaultError Unit :=
  let refuse := fun (what : String) => Except.error
    ⟨.secretKeyConfig,"Unsupported vault unseal KDF " ++ what,"unsupported_unseal_kdf_params"⟩
  if ¬ (16 ≤ metadata.kdfSalt.length ∧ metadata.kdfSalt.length ≤ 128) then refuse "salt length"
  else if ¬ (1 ≤ metadata.kdfTimeCost ∧ metadata.kdfTimeCost ≤ 10) then refuse "time cost"
  else if ¬ (8192 ≤ metadata.kdfMemoryCostKib ∧ metadata.kdfMemoryCostKib ≤ 1048576) then
    refuse "memory cost"
  else if ¬ (1 ≤ metadata.kdfParallelism ∧ metadata.kdfParallelism ≤ 16) then
    refuse "parallelism"
  else .ok ()

def deriveRawKey (passphrase : String) (metadata : VaultUnsealMetadata) :
    Except VaultError Bytes := do
  if metadata.kdfAlgo ≠ "argon2id" then
    throw ⟨.secretKeyConfig,"Unsupported vault unseal KDF","unsupported_unseal_kdf"⟩
  validateKdfParams metadata
  if metadata.kdfHashLen ≠ 32 then
    throw ⟨.secretKeyConfig,"Unsupported vault unseal key length",
      "unsupported_unseal_key_length"⟩
  match kdf.argon2id passphrase metadata.kdfSalt metadata.kdfTimeCost metadata.kdfMemoryCostKib
      metadata.kdfParallelism metadata.kdfHashLen with
  | some raw => return raw
  | none => throw ⟨.secretKeyConfig,"Failed to derive vault unseal key","unseal_kdf_failed"⟩

def buildHmac (rawKey : Bytes) (metadata : VaultUnsealMetadata) : Except VaultError Bytes :=
  if metadata.hmacAlgo ≠ "hmac-sha256" then
    .error ⟨.secretKeyConfig,"Unsupported vault unseal HMAC","unsupported_unseal_hmac"⟩
  else .ok (kdf.hmacSha256 rawKey (hmacMessagePrefix ++ [124] ++ metadata.hmacSalt))

def toMasterKey (keyVersion : String) (rawKey : Bytes) : VaultMasterKey :=
  ⟨keyVersion,urlsafeB64 rawKey,true⟩

/-- `VaultUnsealService.create_metadata`, with its two random salts. -/
def createMetadata (salt hmacSalt : Bytes) (passphrase keyVersion now : String) :
    Except VaultError (VaultUnsealMetadata × VaultMasterKey) := do
  requirePassphrase passphrase
  let metadata : VaultUnsealMetadata :=
    { keyVersion := keyVersion, kdfAlgo := "argon2id", kdfSalt := salt, kdfTimeCost := 3
      kdfMemoryCostKib := 65536, kdfParallelism := 4, kdfHashLen := 32
      hmacAlgo := "hmac-sha256", hmacSalt := hmacSalt, hmacDigest := []
      createdAt := now, updatedAt := now }
  let rawKey ← kdf.deriveRawKey passphrase metadata
  let digest ← kdf.buildHmac rawKey metadata
  return ({ metadata with hmacDigest := digest },toMasterKey keyVersion rawKey)

def deriveKey (passphrase : String) (metadata : VaultUnsealMetadata) :
    Except VaultError VaultMasterKey := do
  requirePassphrase passphrase
  let rawKey ← kdf.deriveRawKey passphrase metadata
  let expected ← kdf.buildHmac rawKey metadata
  if expected ≠ metadata.hmacDigest then
    throw ⟨.secretKeyConfig,"Vault unseal passphrase is invalid","unseal_passphrase_invalid"⟩
  return toMasterKey metadata.keyVersion rawKey

variable {kdf} {fernet : Fernet}

/-- A derived key belongs to the raw key that its digest was made from. -/
theorem deriveKey_eq_ok {passphrase : String} {metadata : VaultUnsealMetadata}
    {key : VaultMasterKey} (h : kdf.deriveKey passphrase metadata = .ok key) :
    ∃ raw, kdf.deriveRawKey passphrase metadata = .ok raw ∧
      kdf.buildHmac raw metadata = .ok metadata.hmacDigest ∧
      key = toMasterKey metadata.keyVersion raw := by
  unfold deriveKey at h
  cases hpass : requirePassphrase passphrase with
  | error e => simp [hpass, bind, Except.bind] at h
  | ok _ =>
    cases hraw : kdf.deriveRawKey passphrase metadata with
    | error e => simp [hpass, hraw, bind, Except.bind] at h
    | ok raw =>
      cases hhmac : kdf.buildHmac raw metadata with
      | error e => simp [hpass, hraw, hhmac, bind, Except.bind] at h
      | ok expected =>
        by_cases hdigest : expected = metadata.hmacDigest
        · subst hdigest
          refine ⟨raw,rfl,hhmac,?_⟩
          simpa [hpass, hraw, hhmac, bind, Except.bind, pure, Except.pure, eq_comm] using h
        · simp [hpass, hraw, hhmac, hdigest, bind, Except.bind, throw, throwThe,
            MonadExceptOf.throw] at h

theorem deriveRawKey_eq_ok {passphrase : String} {metadata : VaultUnsealMetadata} {raw : Bytes}
    (h : kdf.deriveRawKey passphrase metadata = .ok raw) :
    kdf.argon2id passphrase metadata.kdfSalt metadata.kdfTimeCost metadata.kdfMemoryCostKib
      metadata.kdfParallelism 32 = some raw := by
  simp only [deriveRawKey, bind, Except.bind, pure, Except.pure] at h
  split at h
  · cases h
  · split at h
    · cases h
    · split at h
      · cases h
      · rename_i hlen
        rw [not_not.mp hlen] at h
        split at h
        · rename_i hargon
          rw [← Except.ok.inj h]
          exact hargon
        · cases h

theorem Correct.rawKey_length (h : kdf.Correct fernet) {passphrase : String}
    {metadata : VaultUnsealMetadata} {raw : Bytes}
    (hraw : kdf.deriveRawKey passphrase metadata = .ok raw) : raw.length = 32 :=
  h.length _ _ _ _ _ raw (deriveRawKey_eq_ok hraw)

/-- A key that was derived fits the token scheme. -/
theorem Correct.deriveKey_valid (h : kdf.Correct fernet) {passphrase : String}
    {metadata : VaultUnsealMetadata} {key : VaultMasterKey}
    (hkey : kdf.deriveKey passphrase metadata = .ok key) :
    fernet.validKey key.keyMaterial = true := by
  obtain ⟨raw,hraw,_,rfl⟩ := deriveKey_eq_ok hkey
  exact h.key raw (h.rawKey_length hraw)

/-- The metadata describe one key, whatever the passphrase. -/
theorem Correct.deriveKey_unique (h : kdf.Correct fernet) {passphrase passphrase' : String}
    {metadata : VaultUnsealMetadata} {key key' : VaultMasterKey}
    (hkey : kdf.deriveKey passphrase metadata = .ok key)
    (hkey' : kdf.deriveKey passphrase' metadata = .ok key') : key = key' := by
  obtain ⟨raw,_,hhmac,rfl⟩ := deriveKey_eq_ok hkey
  obtain ⟨raw',_,hhmac',rfl⟩ := deriveKey_eq_ok hkey'
  unfold buildHmac at hhmac hhmac'
  by_cases halgo : metadata.hmacAlgo ≠ "hmac-sha256"
  · simp [halgo] at hhmac
  · rw [if_neg halgo] at hhmac hhmac'
    rw [h.hmac raw raw' _ (Except.ok.inj (hhmac.trans hhmac'.symm))]

theorem deriveKey_of_raw {passphrase : String} {metadata : VaultUnsealMetadata} {raw digest : Bytes}
    (hpass : requirePassphrase passphrase = .ok ())
    (hraw : kdf.deriveRawKey passphrase metadata = .ok raw)
    (hdigest : kdf.buildHmac raw metadata = .ok digest) (createdAt : String) :
    kdf.deriveKey passphrase { metadata with hmacDigest := digest, createdAt := createdAt } =
      .ok (toMasterKey metadata.keyVersion raw) := by
  have hraw' : kdf.deriveRawKey passphrase
      { metadata with hmacDigest := digest, createdAt := createdAt } = .ok raw := hraw
  have hdigest' : kdf.buildHmac raw
      { metadata with hmacDigest := digest, createdAt := createdAt } = .ok digest := hdigest
  simp [deriveKey, hpass, hraw', hdigest', bind, Except.bind, pure, Except.pure]

/-- What `create_metadata` gives: its passphrase derives the key from it again, whatever the
time of creation that the vault keeps. -/
theorem createMetadata_spec {salt hmacSalt : Bytes} {passphrase version now : String}
    {metadata : VaultUnsealMetadata} {key : VaultMasterKey}
    (h : kdf.createMetadata salt hmacSalt passphrase version now = .ok (metadata,key)) :
    metadata.keyVersion = version ∧ key.keyVersion = version ∧
      ∀ createdAt, kdf.deriveKey passphrase { metadata with createdAt := createdAt } = .ok key := by
  simp only [createMetadata, bind, Except.bind, pure, Except.pure] at h
  split at h
  · cases h
  · rename_i hpass
    split at h
    · cases h
    · rename_i raw hraw
      split at h
      · cases h
      · rename_i digest hdigest
        obtain ⟨rfl,rfl⟩ := Prod.mk.inj (Except.ok.inj h)
        refine ⟨rfl,rfl,fun createdAt => ?_⟩
        exact deriveKey_of_raw hpass hraw hdigest createdAt

/-- Metadata are made for a passphrase that argon2id takes with a salt of the right length. -/
theorem createMetadata_isOk {salt hmacSalt : Bytes} {passphrase version now : String}
    (hsalt : salt.length = 32) :
    (∃ pair, kdf.createMetadata salt hmacSalt passphrase version now = .ok pair) ↔
      passphrase ≠ "" ∧ (kdf.argon2id passphrase salt 3 65536 4 32).isSome = true := by
  by_cases hpass : passphrase = ""
  · simp [createMetadata, requirePassphrase, hpass, bind, Except.bind]
  · cases hargon : kdf.argon2id passphrase salt 3 65536 4 32 with
    | none =>
      simp [createMetadata, requirePassphrase, deriveRawKey, validateKdfParams, hpass, hsalt,
        hargon, bind, Except.bind, throw, throwThe, MonadExceptOf.throw]
    | some raw =>
      simp [createMetadata, requirePassphrase, deriveRawKey, validateKdfParams, buildHmac, hpass,
        hsalt, hargon, bind, Except.bind, pure, Except.pure]

end Kdf

/-- A scheme without secrecy: its tokens show their key. It meets the laws of the others. -/
def Fernet.transparent : Fernet where
  validKey key := key.length == 44
  encrypt _ key plaintext := String.ofList ('g'::(key.toList ++ plaintext.toList))
  decrypt key token :=
    if ('g'::key.toList) <+: token.toList then
      some (String.ofList (token.toList.drop (key.length + 1)))
    else none
  envelope token := token.toList.head? == some 'g'

theorem Fernet.transparent_correct : Fernet.transparent.Correct := by
  constructor
  · intro n k p _
    have hdrop : (k.toList ++ p.toList).drop k.length = p.toList :=
      List.drop_left' String.length_toList
    simp [transparent, hdrop]
  · intro n k k' p hk hk' hne
    simp only [transparent, beq_iff_eq] at hk hk'
    have hnot : ¬ ('g'::k'.toList) <+: ('g'::(k.toList ++ p.toList)) := by
      intro hpre
      have hprefix : k'.toList <+: k.toList ++ p.toList := by simpa using hpre
      have hlength : k.toList.length = k'.toList.length := by
        rw [String.length_toList, String.length_toList, hk, hk']
      have heq := List.prefix_of_prefix_length_le hprefix (List.prefix_append _ _) hlength.symm.le
      exact hne (String.toList_injective (heq.eq_of_length hlength.symm).symm)
    simp [transparent, hnot]
  · intro n k p
    constructor
    · intro h
      simpa [transparent] using congrArg String.toList h
    · simp [transparent]

def Kdf.transparent : Kdf where
  argon2id secret _ _ _ _ length :=
    some ((secret.toList.map fun c => c.toNat.toUInt8).rightpad length.toNat 0 |>.take length.toNat)
  hmacSha256 key message := key ++ message

theorem Kdf.transparent_correct : Kdf.transparent.Correct Fernet.transparent := by
  constructor
  · intro k k' m h
    exact List.append_cancel_right h
  · intro secret salt time memory lanes raw h
    rw [← Option.some.inj h]
    simp
    omega
  · intro raw h
    simp [Fernet.transparent, urlsafeB64, base64Digits_length, h]

/-- What the locator of a secret digests: its versioned place and its match key as JSON. -/
def locatorText (dataset field matchKey version : String) : String :=
  let canonical := if matchKey = "" then "\x7b\x7d" else
    "\x7b" ++ (Text.jsonString "match_key" ++ ":" ++ (Text.jsonString matchKey ++ "\x7d"))
  version ++ "|" ++ dataset ++ "|" ++ field ++ "|" ++ canonical

/-- `SecretLocatorService.build_locator_hash` for a source reference with a match key. -/
def buildLocatorHash (sha256 : String → String) (dataset field matchKey version : String) :
    Except VaultError String :=
  if version ≠ "v1" then
    .error ⟨.valueError,"Unsupported locator version: " ++ version,""⟩
  else .ok (sha256 (locatorText dataset field matchKey version))

theorem buildLocatorHash_v1 (sha256 : String → String) (dataset field matchKey : String) :
    buildLocatorHash sha256 dataset field matchKey "v1" =
      .ok (sha256 (locatorText dataset field matchKey "v1")) := if_neg (by simp)

theorem locatorText_matchKey {dataset field version k k' : String} (hk : k ≠ "") (hk' : k' ≠ "")
    (h : locatorText dataset field k version = locatorText dataset field k' version) :
    k = k' := by
  simp only [locatorText, if_neg hk, if_neg hk'] at h
  have hlist := congrArg String.toList h
  simp only [String.toList_append, List.append_cancel_left_eq, List.append_cancel_right_eq,
    String.toList_inj] at hlist
  exact Text.jsonString_injective hlist

end NexusEtl
