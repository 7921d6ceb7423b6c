import NexusEtl.VaultFacts

/-!
# Managing the vault keys

The startup guard opens a probe with the key it is given and creates the probe
where there is none. A vault is initialised with a passphrase; a rotation
replaces the passphrase and wraps every data key anew. The guard verifies what
these operations leave: inside the transaction of an initialisation, after that
of a rotation.
-/

set_option autoImplicit false

namespace NexusEtl
open NexusEtl.Library

namespace VaultStartupGuard

def probeName : String := "vault.system.healthcheck"

def probePayload : String := "vault_startup_probe_v1"

def probeCorrupted (reason : String) : VaultError :=
  ⟨.startupProbeCorrupted,"Vault startup probe is corrupted",reason⟩

def keyValidation (reason : String) : VaultError :=
  ⟨.startupKeyValidation,"Vault startup key validation failed",reason⟩

/-- A failure of the kinds is reported as a corrupted probe. -/
def orCorrupted (kinds : List VaultErrorKind) (reason : String) (e : VaultError) : VaultError :=
  if e.kind ∈ kinds then probeCorrupted reason else e

def dekErrors : DekErrors where
  onRead := orCorrupted [.secretRead] "dek_read_failed"
  onWrap := orCorrupted [.secretDecryption, .secretIntegrity] "dek_wrap_failed"
  onStore := orCorrupted [.secretStore] "dek_write_failed"
  unwrapFailed := keyValidation "dek_unwrap_failed"

variable (env : VaultEnv) (crypto : VaultCrypto) (provider : VaultKeyProvider)

def loadProbe : VaultM (Option VaultProbeRecord) :=
  mapError (orCorrupted [.secretRead] "probe_read_failed")
    (env.read fun v => Dict.get? v.probes probeName)

def createProbe (activeKey : VaultMasterKey) : VaultM VaultProbeRecord := do
  let now ← env.utcNow
  let (dek,plain) ← ensureActiveDek env crypto provider dekErrors activeKey now
  let nonce ← VaultEnv.draw
  let ciphertext ← mapError
    (orCorrupted [.secretDecryption, .secretIntegrity] "probe_encrypt_failed")
    (Prog.ofExcept (crypto.fernet.encryptSecret nonce probePayload plain fernetV1))
  let record : VaultProbeRecord :=
    { probeName := probeName, ciphertext := ciphertext, cipherAlgo := fernetV1
      keyVersion := activeKey.keyVersion, dekVersion := dek.dekVersion
      createdAt := now, updatedAt := now }
  mapError (orCorrupted [.secretStore] "probe_write_failed")
    (env.write fun v => v.upsertProbe record)
  match ← loadProbe env with
  | some stored => return stored
  | none => throw (probeCorrupted "probe_write_missing")

def validateProbeRecord (probe : VaultProbeRecord) : Except VaultError Unit :=
  if probe.probeName ≠ probeName then .error (probeCorrupted "probe_name_mismatch")
  else if probe.cipherAlgo = "" then .error (probeCorrupted "probe_cipher_algo_missing")
  else if probe.keyVersion = "" then .error (probeCorrupted "probe_key_version_missing")
  else if probe.dekVersion = "" then .error (probeCorrupted "probe_dek_version_missing")
  else if probe.ciphertext = "" then .error (probeCorrupted "probe_ciphertext_missing")
  else .ok ()

def loadProbeDek (probe : VaultProbeRecord) : VaultM VaultDekRecord := do
  match ← mapError (orCorrupted [.secretRead] "probe_dek_read_failed")
      (env.read fun v => v.deks.getDek probe.dekVersion) with
  | some dek => return dek
  | none => throw (probeCorrupted "probe_dek_missing")

/-- A probe that does not decrypt tells of a wrong key, another failure of a broken probe. -/
def probeDecryptError (e : VaultError) : VaultError :=
  match e.kind with
  | .secretDecryption => keyValidation "probe_decrypt_failed"
  | .secretIntegrity => probeCorrupted "probe_ciphertext_corrupted"
  | _ => e

def verifyProbe (probe : VaultProbeRecord) : VaultM Unit := do
  let dek ← loadProbeDek env probe
  let plain ← unwrapDek env crypto provider dekErrors dek
  let payload ← mapError probeDecryptError
    (Prog.ofExcept (crypto.fernet.decryptSecret probe.ciphertext plain probe.cipherAlgo))
  if payload ≠ probePayload then throw (probeCorrupted "probe_payload_mismatch")

/-- The stored probe, or a new one where the storage can be written. -/
def obtainProbe (activeKey : VaultMasterKey) (readonly : Bool) : VaultM VaultProbeRecord := do
  match ← loadProbe env with
  | some probe => return probe
  | none =>
    if readonly then throw ⟨.startupUninitializedReadonly,
      "Vault storage is readonly and probe is missing","probe_missing"⟩
    else createProbe env crypto provider activeKey

def ensureReady : VaultM Unit := do
  let activeKey ← provider.getActiveKey env crypto
  let readonly ← env.isReadonly
  let probe ← obtainProbe env crypto provider activeKey readonly
  Prog.ofExcept (validateProbeRecord probe)
  verifyProbe env crypto provider probe
  if readonly then throw ⟨.startupStorageReadonly,"Vault storage is readonly","readonly_storage"⟩

end VaultStartupGuard

structure VaultKeyManagementResult where
  operation : String
  runId : String
  activeKeyVersion : String
  dekRewrappedCount : Nat
  rotatedAt : Option String
  deriving DecidableEq, Repr

namespace VaultKeyManagement

variable (env : VaultEnv) (crypto : VaultCrypto)

def operationError (message reason : String) : VaultError :=
  ⟨.managementOperation,message,reason⟩

/-- `VaultStartupGuardPostVerifier`: the guard with the key of the operation. -/
def postVerify (key : VaultMasterKey) : VaultM Unit :=
  VaultStartupGuard.ensureReady env crypto (.static key [])

def setMeta (key value : String) : VaultM Unit :=
  env.write fun v => { v with managementMeta := Dict.set v.managementMeta key value }

def setLastRotationRunId (runId : String) : VaultM Unit := setMeta env "last_rotation_run_id" runId

/-- Both values are written in one transaction. -/
def setLastRotationResult (result reason : String) : VaultM Unit :=
  env.write fun v =>
    let stated := Dict.set v.managementMeta "last_rotation_result" result
    { v with managementMeta := Dict.set stated "last_rotation_reason" reason }

def markSuccess (runId reason : String) (rotatedAt : Option String) : VaultM Unit := do
  setLastRotationRunId env runId
  setLastRotationResult env "ok" reason
  match rotatedAt with
  | some time => setMeta env "last_rotated_at" time
  | none => pure ()

def markFailed (runId reason : String) : VaultM Unit := do
  setLastRotationRunId env runId
  setLastRotationResult env "failed" reason

def effectiveRunId (runId : Option String) : VaultM String :=
  match runId.filter fun r => r != "" with
  | some r => pure r
  | none => do return "vault_mgmt_" ++ env.uuid (← VaultEnv.draw)

/-- The attempts that are left to draw a version that is not in use. -/
def uniqueKeyVersion (existing : List String) : Nat → VaultM String
  | 0 => throw (operationError "Failed to generate unique master key version"
      "key_version_collision")
  | attempts + 1 => do
    let version := "mk_" ++ env.uuid (← VaultEnv.draw)
    if version ∈ existing then uniqueKeyVersion existing attempts else return version

def requireMetadata : VaultM VaultUnsealMetadata := do
  match ← env.read Vault.metadata with
  | some metadata => return metadata
  | none => throw (operationError "Vault unseal metadata is not initialized"
      "unseal_not_initialized")

def asOperationError (reason : String) (e : VaultError) : VaultError :=
  match e.kind with
  | .managementOperation => e
  | .secretRead | .secretStore => operationError "Vault management operation failed" "storage_error"
  | .secretKeyConfig | .secretDecryption | .secretIntegrity =>
    operationError "Vault management operation failed" "crypto_error"
  | _ => operationError "Vault management operation failed" reason

/-- `VaultUnsealService.create_metadata` for a version that is not in use. -/
def newMetadata (passphrase : String) (existing : List String) (now : String) :
    VaultM (VaultUnsealMetadata × VaultMasterKey) := do
  let version ← uniqueKeyVersion env existing 10
  let salt := env.urandom (← VaultEnv.draw)
  let hmacSalt := env.urandom (← VaultEnv.draw)
  Prog.ofExcept (crypto.kdf.createMetadata salt hmacSalt passphrase version now)

/-- The body of an operation; a failure is recorded and reported as the operation's. -/
def guarded {A : Type} (runId reason : String) (body : VaultM A) : VaultM A :=
  tryCatch body fun e => do
    markFailed env runId reason
    throw (asOperationError reason e)

def initKeyring (passphrase : String) (runId : Option String) :
    VaultM VaultKeyManagementResult := do
  let runId ← effectiveRunId env runId
  if (← env.read Vault.metadata).isSome then
    throw (operationError "Vault unseal metadata is already initialized" "already_initialized")
  let now ← env.utcNow
  let (metadata,activeKey) ← newMetadata env crypto passphrase [] now
  guarded env runId "init_failed" (env.transaction do
    env.write fun v => v.upsertUnsealMetadata metadata
    postVerify env crypto activeKey)
  markSuccess env runId "init_completed" (some now)
  return ⟨"init",runId,activeKey.keyVersion,0,some now⟩

def verifyUnseal (passphrase : String) : VaultM VaultMasterKey := do
  let metadata ← requireMetadata env
  let activeKey ← Prog.ofExcept (crypto.kdf.deriveKey passphrase metadata)
  postVerify env crypto activeKey
  return activeKey

def rewrapFailed : VaultError :=
  operationError "Failed to unwrap DEK during vault-management operation" "dek_unwrap_failed"

/-- The loop over the data keys; its result is how many were wrapped anew. -/
def rewrapDeks (activeKey : VaultMasterKey) (candidates : List VaultMasterKey)
    (updatedAt : String) : List VaultDekRecord → VaultM Nat
  | [] => pure 0
  | record::records => do
    let plain ← Prog.ofExcept (unwrapWith crypto record rewrapFailed candidates)
    let nonce ← VaultEnv.draw
    let wrapped ← Prog.ofExcept
      (crypto.fernet.wrapDek nonce plain activeKey.keyMaterial record.wrapAlgo)
    let rewrapped : VaultDekRecord :=
      { dekVersion := record.dekVersion, wrappedDek := wrapped, wrapAlgo := record.wrapAlgo
        wrapKeyVersion := activeKey.keyVersion, isActive := record.isActive
        createdAt := record.createdAt, updatedAt := updatedAt }
    env.write fun v => { v with deks := v.deks.upsertDek rewrapped }
    return (← rewrapDeks activeKey candidates updatedAt records) + 1

/-- A rotation stores new metadata, a mere rewrap none. -/
def storeMetadata (newMetadata : Option VaultUnsealMetadata) : VaultM Unit :=
  match newMetadata with
  | some metadata => env.write fun v => v.upsertUnsealMetadata metadata
  | none => pure ()

def rewrapInTransaction (activeKey : VaultMasterKey) (candidates : List VaultMasterKey)
    (runId reason : String) (newMetadata : Option VaultUnsealMetadata) : VaultM Nat := do
  let updatedAt ← env.utcNow
  env.transaction do
    setLastRotationRunId env runId
    setLastRotationResult env "rotating" reason
    storeMetadata env newMetadata
    let records ← env.read fun v => v.deks.listDeks
    rewrapDeks env crypto activeKey candidates updatedAt records

/-- What a rotation has at hand before it touches the vault. -/
structure RotationKeys where
  runId : String
  oldKey : VaultMasterKey
  now : String
  metadata : VaultUnsealMetadata
  newKey : VaultMasterKey
  deriving DecidableEq, Repr

def prepareRotation (currentPassphrase newPassphrase : String) (runId : Option String) :
    VaultM RotationKeys := do
  let runId ← effectiveRunId env runId
  let metadata ← requireMetadata env
  let oldKey ← Prog.ofExcept (crypto.kdf.deriveKey currentPassphrase metadata)
  let now ← env.utcNow
  let (metadata',newKey) ← newMetadata env crypto newPassphrase [metadata.keyVersion] now
  return ⟨runId,oldKey,now,metadata',newKey⟩

def rotateAndRewrap (currentPassphrase newPassphrase : String) (runId : Option String) :
    VaultM VaultKeyManagementResult := do
  let keys ← prepareRotation env crypto currentPassphrase newPassphrase runId
  let rewrapped ← guarded env keys.runId "rotate_failed" do
    let count ← rewrapInTransaction env crypto keys.newKey [keys.oldKey] keys.runId
      "rotate_in_progress" (some keys.metadata)
    postVerify env crypto keys.newKey
    return count
  markSuccess env keys.runId "rotate_completed" (some keys.now)
  return ⟨"rotate",keys.runId,keys.newKey.keyVersion,rewrapped,some keys.now⟩

def rewrapAllDek (passphrase : String) (runId : Option String) :
    VaultM VaultKeyManagementResult := do
  let runId ← effectiveRunId env runId
  let metadata ← requireMetadata env
  let activeKey ← Prog.ofExcept (crypto.kdf.deriveKey passphrase metadata)
  let rewrapped ← guarded env runId "rewrap_failed" do
    let count ← rewrapInTransaction env crypto activeKey [activeKey] runId "rewrap_in_progress" none
    postVerify env crypto activeKey
    return count
  markSuccess env runId "rewrap_completed" none
  return ⟨"rewrap",runId,activeKey.keyVersion,rewrapped,none⟩

end VaultKeyManagement
end NexusEtl
