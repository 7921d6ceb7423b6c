import NexusEtl.Library.Programs
import NexusEtl.Value
import NexusEtl.VaultTables

/-!
# Reading, writing and deleting secrets

The services are programs over the vault database and the memory of the process.
Each call of the repository is one atomic step that may fail; a transaction is
one atomic step whose failure leaves the database as it was. The master key is
derived at its first use and kept in memory from then on.
-/

set_option autoImplicit false

namespace NexusEtl
open NexusEtl.Library

/-- The vault with what the processes hold in memory: the keys that their providers have
unsealed, and how many calls, random draws and readings of the clock there were. -/
structure VaultWorld where
  vault : Vault
  unsealed : Nat → Option VaultMasterKey
  calls : Nat
  draws : Nat
  inTransaction : Bool

def VaultWorld.empty : VaultWorld := ⟨Vault.empty,fun _ => none,0,0,false⟩

/-- What the outside answers: which calls fail, whether the file can be written, the time
and the random values. -/
structure VaultEnv where
  fails : Nat → Bool
  readonly : Nat → Bool
  clock : Nat → String
  urandom : Nat → Bytes
  uuid : Nat → String
  /-- whether a call with a transaction of its own fails at its BEGIN or COMMIT -/
  boundary : Nat → Bool := fun _ => false

abbrev VaultM := Prog VaultWorld VaultError

/-- The crypto services of a process. -/
structure VaultCrypto where
  fernet : Fernet
  kdf : Kdf
  sha256 : String → String

namespace VaultEnv

variable (env : VaultEnv)

def storeFailed : VaultError := ⟨.secretStore,"Failed to store vault data","sqlite_error"⟩

def readFailed : VaultError := ⟨.secretRead,"Failed to read vault data","sqlite_error"⟩

/-- One call of the repository. -/
def call {A : Type} (failed : VaultError) (f : Vault → A × Vault) : VaultM A :=
  Prog.atomic fun w =>
    if env.fails w.calls then (.error failed,{ w with calls := w.calls + 1 })
    else (.ok (f w.vault).1,{ w with vault := (f w.vault).2, calls := w.calls + 1 })

def read {A : Type} (f : Vault → A) : VaultM A := env.call readFailed fun v => (f v,v)

def write (f : Vault → Vault) : VaultM Unit := env.call storeFailed fun v => ((),f v)

def sqliteError : VaultError := ⟨.sqlite,"database error",""⟩

/-- A call in a transaction of its own, or in the one that is open. The repository translates the
errors of its statements only. -/
def writeUnit (f : Vault → Vault) : VaultM Unit :=
  Prog.atomic fun w =>
    if env.fails w.calls then
      (.error (if !w.inTransaction && env.boundary w.calls then sqliteError else storeFailed),
        { w with calls := w.calls + 1 })
    else (.ok (),{ w with vault := f w.vault, calls := w.calls + 1 })

/-- `SqliteVaultRepository.transaction`: begin, body, commit; an exception rolls back. -/
def transaction {A : Type} (body : VaultM A) : VaultM A :=
  Prog.atomic fun w =>
    if w.inTransaction then
      (.error ⟨.runtimeError,"Nested vault transactions are not supported",""⟩,w)
    else if env.fails w.calls || env.readonly w.calls then
      (.error storeFailed,{ w with calls := w.calls + 1 })
    else match body.run { w with calls := w.calls + 1, inTransaction := true } with
      | (.ok a,w') =>
        if env.fails w'.calls then (.error storeFailed,
          { w' with vault := w.vault, calls := w'.calls + 1, inTransaction := false })
        else (.ok a,{ w' with calls := w'.calls + 1, inTransaction := false })
      | (.error e,w') => (.error e,{ w' with vault := w.vault, inTransaction := false })

/-- `SqliteEngine.is_readonly`; a write transaction is proof enough. -/
def isReadonly : VaultM Bool :=
  Prog.atomic fun w =>
    if w.inTransaction then (.ok false,w)
    else if env.readonly w.calls then (.ok true,{ w with calls := w.calls + 1 })
    else if env.fails w.calls then
      (.error ⟨.sqlite,"database error",""⟩,{ w with calls := w.calls + 1 })
    else (.ok false,{ w with calls := w.calls + 1 })

/-- The number of this random draw or reading of the clock. -/
def draw : VaultM Nat := Prog.atomic fun w => (.ok w.draws,{ w with draws := w.draws + 1 })

def utcNow : VaultM String := do return env.clock (← draw)

end VaultEnv

def mapError {A : Type} (f : VaultError → VaultError) (p : VaultM A) : VaultM A :=
  tryCatch p fun e => throw (f e)

/-- A key provider: keys given once, or a passphrase whose key is derived at first use and
kept under the number of the provider. -/
inductive VaultKeyProvider
  | static (first : VaultMasterKey) (others : List VaultMasterKey)
  | unsealed (id : Nat) (passphrase : Option String)
  deriving DecidableEq, Repr

section Services

variable (env : VaultEnv) (crypto : VaultCrypto)

namespace VaultKeyProvider

/-- `_load_active_key`. -/
def loadActiveKey (passphrase : Option String) : VaultM VaultMasterKey :=
  match passphrase with
  | none => throw ⟨.secretKeyConfig,"Vault unseal passphrase was not provided",
      "unseal_passphrase_missing"⟩
  | some passphrase => do
    match ← env.read Vault.metadata with
    | none => throw ⟨.secretKeyConfig,"Vault unseal metadata is missing",
        "unseal_metadata_missing"⟩
    | some metadata => Prog.ofExcept (crypto.kdf.deriveKey passphrase metadata)

def cached (id : Nat) : VaultM (Option VaultMasterKey) := Prog.atomic fun w => (.ok (w.unsealed id),w)

def keep (id : Nat) (key : VaultMasterKey) : VaultM Unit :=
  Prog.atomic fun w => (.ok (),{ w with unsealed := Function.update w.unsealed id (some key) })

def getActiveKey : VaultKeyProvider → VaultM VaultMasterKey
  | .static first _ => pure first
  | .unsealed id passphrase => do
    match ← cached id with
    | some key => return key
    | none =>
      let key ← loadActiveKey env crypto passphrase
      keep id key
      return key

def getAllKeys : VaultKeyProvider → VaultM (List VaultMasterKey)
  | .static first others => pure (first::others)
  | .unsealed id passphrase => do return [← getActiveKey env crypto (.unsealed id passphrase)]

def findKey (version : String) : VaultKeyProvider → VaultM (Option VaultMasterKey)
  | .static first others =>
    pure ((first::others).reverse.find? fun key => key.keyVersion == version)
  | .unsealed id passphrase => do
    let active ← getActiveKey env crypto (.unsealed id passphrase)
    return if active.keyVersion = version then some active else none

/-- `_candidate_master_keys`: the key that the record names, then the others. -/
def candidateMasterKeys (provider : VaultKeyProvider) (version : String) :
    VaultM (List VaultMasterKey) := do
  let hinted ← provider.findKey env crypto version
  let all ← provider.getAllKeys env crypto
  return hinted.toList ++ all.filter fun key => hinted.all fun h => key.keyVersion != h.keyVersion

end VaultKeyProvider

/-- The first candidate that opens the data key; only a key that does not fit is passed over. -/
def unwrapWith (record : VaultDekRecord) (failed : VaultError) :
    List VaultMasterKey → Except VaultError String
  | [] => .error failed
  | key::keys => match crypto.fernet.unwrapDek record.wrappedDek key.keyMaterial record.wrapAlgo with
    | .ok dek => .ok dek
    | .error e => if e.kind = .secretDecryption ∨ e.kind = .secretIntegrity then
        unwrapWith record failed keys else .error e

/-- How a service reports the failures on the way to a data key. -/
structure DekErrors where
  onRead : VaultError → VaultError
  onWrap : VaultError → VaultError
  onStore : VaultError → VaultError
  unwrapFailed : VaultError

variable (provider : VaultKeyProvider) (errors : DekErrors)

def unwrapDek (record : VaultDekRecord) : VaultM String := do
  let keys ← provider.candidateMasterKeys env crypto record.wrapKeyVersion
  Prog.ofExcept (unwrapWith crypto record errors.unwrapFailed keys)

/-- The active data key and its plaintext; without one a new key is wrapped and stored. -/
def ensureActiveDek (activeKey : VaultMasterKey) (now : String) :
    VaultM (VaultDekRecord × String) := do
  match ← mapError errors.onRead (env.read fun v => v.deks.getActiveDek) with
  | some active => return (active,← unwrapDek env crypto provider errors active)
  | none =>
    let dek := urlsafeB64 (env.urandom (← VaultEnv.draw))
    let nonce ← VaultEnv.draw
    let wrapped ← mapError errors.onWrap
      (Prog.ofExcept (crypto.fernet.wrapDek nonce dek activeKey.keyMaterial fernetV1))
    let version := "dek_" ++ env.uuid (← VaultEnv.draw)
    let record : VaultDekRecord :=
      { dekVersion := version, wrappedDek := wrapped, wrapAlgo := fernetV1
        wrapKeyVersion := activeKey.keyVersion, isActive := true
        createdAt := now, updatedAt := now }
    mapError errors.onStore (env.writeUnit fun v => { v with deks := v.deks.upsertDek record })
    return (record,dek)

namespace SecretVaultWriteService

def storeError (reason : String) : VaultError :=
  ⟨.secretStore,"Failed to store secrets in vault",reason⟩

def dekErrors : DekErrors := ⟨id,id,id,storeError "dek_unwrap_failed"⟩

def storeSecret (dataset matchKey : String) (runId : Option String) (now : String)
    (activeKey : VaultMasterKey) (dek : VaultDekRecord × String) (secret : String × String) :
    VaultM Unit := do
  let locatorHash ← Prog.ofExcept (buildLocatorHash crypto.sha256 dataset secret.1 matchKey "v1")
  let nonce ← VaultEnv.draw
  let ciphertext ← Prog.ofExcept
    (crypto.fernet.encryptSecret nonce secret.2 dek.2 fernetV1)
  let record : VaultSecretRecord :=
    { dataset := dataset, field := secret.1, matchKey := some matchKey
      locatorHash := locatorHash, locatorVersion := "v1", runId := runId
      ciphertext := ciphertext, cipherAlgo := fernetV1, keyVersion := activeKey.keyVersion
      dekVersion := dek.1.dekVersion, createdAt := now, updatedAt := now }
  env.write fun v => { v with secrets := v.secrets.upsert record }

def storeSecrets (dataset matchKey : String) (runId : Option String) (now : String)
    (activeKey : VaultMasterKey) (dek : VaultDekRecord × String) :
    List (String × String) → VaultM Unit
  | [] => pure ()
  | secret::secrets => do
    storeSecret env crypto dataset matchKey runId now activeKey dek secret
    storeSecrets dataset matchKey runId now activeKey dek secrets

/-- The `except` clauses of `put_many`. -/
def translate (e : VaultError) : VaultError :=
  match e.kind with
  | .secretStore => e
  | .secretRead => storeError "dek_read_failed"
  | .secretKeyConfig | .secretIntegrity | .secretDecryption | .valueError =>
    storeError "crypto_error"
  | _ => storeError "unexpected_error"

def putMany (dataset matchKey : String) (secrets : Dict String String) (runId : Option String) :
    VaultM Unit :=
  let normalized := Text.strip matchKey
  if secrets = [] then pure ()
  else if normalized = "" then throw (storeError "match_key_missing")
  else do
    let now ← env.utcNow
    mapError translate (env.transaction do
      let activeKey ← provider.getActiveKey env crypto
      let dek ← ensureActiveDek env crypto provider dekErrors activeKey now
      storeSecrets env crypto dataset normalized runId now activeKey dek secrets)

end SecretVaultWriteService

/-- The stripped match key of a source reference, when there is one. -/
def normalizeSourceRef (sourceRef : Option Fields) : Option String :=
  match sourceRef.map fun ref => Fields.read ref "match_key" with
  | some (.str raw) => if Text.strip raw = "" then none else some (Text.strip raw)
  | _ => none

namespace SecretVaultReadService

def readError (reason : String) : VaultError :=
  ⟨.secretRead,"Failed to read secret from vault",reason⟩

def dekErrors : DekErrors :=
  ⟨id,id,id,⟨.secretDecryption,"Failed to decrypt secret","dek_unwrap_failed"⟩⟩

def translate (e : VaultError) : VaultError :=
  match e.kind with
  | .secretRead | .secretDecryption | .secretIntegrity => e
  | .secretKeyConfig => readError "key_config_error"
  | .valueError => readError "locator_error"
  | _ => readError "unexpected_error"

/-- The secret of a record: its data key is read, unwrapped and applied. -/
def openRecord (record : SecretRow) : VaultM String := do
  match ← env.read fun v => v.deks.getDek record.dekVersion with
  | none => throw (readError "dek_not_found")
  | some dek =>
    let plain ← unwrapDek env crypto provider dekErrors dek
    Prog.ofExcept (crypto.fernet.decryptSecret record.ciphertext plain record.cipherAlgo)

def getSecret (defaultRunId : Option String) (dataset field : String) (sourceRef : Option Fields)
    (runId : Option String) : VaultM (Option String) :=
  match normalizeSourceRef sourceRef with
  | none => pure none
  | some matchKey => mapError translate do
    let locatorHash ← Prog.ofExcept (buildLocatorHash crypto.sha256 dataset field matchKey "v1")
    match ← env.read fun v => v.secrets.getSecret dataset field (some matchKey) locatorHash "v1"
        (runId.or defaultRunId) with
    | none => return none
    | some record => return some (← openRecord env crypto provider record)

end SecretVaultReadService

/-- How `VaultRetentionService` deletes the secret of one field. -/
def VaultRetentionService.deleteSecret (dataset field matchKey : String) (runId : Option String) :
    VaultM Nat := do
  let locatorHash ← Prog.ofExcept (buildLocatorHash crypto.sha256 dataset field matchKey "v1")
  env.call VaultEnv.storeFailed fun v =>
    let (deleted,rows) := v.secrets.deleteSecret dataset field locatorHash "v1" runId
    (deleted,{ v with secrets := rows })

end Services
end NexusEtl
