import NexusEtl.Library.Fallible
import NexusEtl.VaultWrites

/-!
# What the startup guard promises

The guard passes only over a probe that the keyring opens and a storage that can
be written. What it leaves when it fails half-way, a data key without a probe or
a probe that was not verified, is again something that the same keyring opens,
so a later run of the guard on a healthy store succeeds. A keyring whose active
key is not well-formed, or shares its version with another key, is the exception.
-/

set_option autoImplicit false

namespace NexusEtl
open NexusEtl.Library

/-- `_candidate_master_keys` over the keys of a provider. -/
def candidatesOf (keys : List VaultMasterKey) (version : String) : List VaultMasterKey :=
  let hinted := keys.reverse.find? fun key => key.keyVersion == version
  hinted.toList ++ keys.filter fun key => hinted.all fun h => key.keyVersion != h.keyVersion

namespace VaultKeyProvider

/-- The keys that the provider gives, the active one first, once it has its key in memory. -/
def Unlocked (active : VaultMasterKey) (others : List VaultMasterKey) (w : VaultWorld) :
    VaultKeyProvider → Prop
  | .static first rest => first = active ∧ rest = others
  | .unsealed id _ => others = [] ∧ w.unsealed id = some active

/-- The keys that the provider has or can derive. -/
def Keyring (crypto : VaultCrypto) (active : VaultMasterKey) (others : List VaultMasterKey)
    (w : VaultWorld) (provider : VaultKeyProvider) : Prop :=
  provider.Unlocked active others w ∨ ∃ id secret metadata, provider = .unsealed id (some secret) ∧
    others = [] ∧ w.unsealed id = none ∧ w.vault.metadata = some metadata ∧
    crypto.kdf.deriveKey secret metadata = .ok active

/-- Whether the active key has to be derived from the stored metadata. -/
def readsMetadata (w : VaultWorld) : VaultKeyProvider → Bool
  | .static _ _ => false
  | .unsealed id passphrase => (w.unsealed id).isNone && passphrase.isSome

end VaultKeyProvider

/-- The active key is well-formed and is the one that its version names. -/
structure UsableKeys (crypto : VaultCrypto) (active : VaultMasterKey)
    (others : List VaultMasterKey) : Prop where
  valid : crypto.fernet.validKey active.keyMaterial = true
  named : active.keyVersion ≠ ""
  versions : ((active::others).map VaultMasterKey.keyVersion).Nodup

namespace VaultStartupGuard

/-- What the keys make of a data key. -/
def openDek (crypto : VaultCrypto) (keys : List VaultMasterKey) (d : VaultDekRecord) :
    Except VaultError String :=
  unwrapWith crypto d dekErrors.unwrapFailed (candidatesOf keys d.wrapKeyVersion)

/-- A stored data key that can be used. -/
def DekOpens (crypto : VaultCrypto) (keys : List VaultMasterKey) (d : VaultDekRecord) : Prop :=
  d.dekVersion ≠ "" ∧ ∃ plain, openDek crypto keys d = .ok plain ∧
    crypto.fernet.validKey plain = true

/-- The probe decrypts to the payload under a data key that the keys unwrap. -/
def ProbeReads (crypto : VaultCrypto) (keys : List VaultMasterKey) (deks : DekTable)
    (probe : VaultProbeRecord) : Prop :=
  ∃ d plain, deks.getDek probe.dekVersion = some d ∧ openDek crypto keys d = .ok plain ∧
    crypto.fernet.decryptSecret probe.ciphertext plain probe.cipherAlgo = .ok probePayload

/-- The stored data keys can be used and the stored probe opens. -/
structure StoredOpens (crypto : VaultCrypto) (keys : List VaultMasterKey) (v : Vault) : Prop where
  deks : ∀ d ∈ v.deks.rows, DekOpens crypto keys d
  probe : ∀ probe, Dict.get? v.probes probeName = some probe →
    validateProbeRecord probe = .ok () ∧ ProbeReads crypto keys v.deks probe

/-- The errors that the guard may raise. -/
def Expected (e : VaultError) : Prop :=
  e.kind ∈ [VaultErrorKind.startupKeyValidation, .startupProbeCorrupted, .startupStorageReadonly,
    .startupUninitializedReadonly, .secretKeyConfig]

/-- The number of the call that finds out whether the storage can be written. -/
def readyCall (provider : VaultKeyProvider) (w : VaultWorld) : Nat :=
  w.calls + (provider.readsMetadata w).toNat

/-- `is_readonly` answers that the storage can be written. -/
def Writable (env : VaultEnv) (provider : VaultKeyProvider) (w : VaultWorld) : Prop :=
  w.inTransaction = true ∨
    (env.readonly (readyCall provider w) = false ∧ env.fails (readyCall provider w) = false)

/-- The calls answer whose errors nobody translates: the reading of the unseal metadata,
`is_readonly`, and the BEGIN and COMMIT of a write. -/
structure Answered (env : VaultEnv) (provider : VaultKeyProvider) (w : VaultWorld) : Prop where
  metadata : provider.readsMetadata w = true → env.fails w.calls = false
  ready : w.inTransaction = true ∨ env.readonly (readyCall provider w) = true ∨
    env.fails (readyCall provider w) = false
  boundary : ∀ n, env.boundary n = false

/-- A store on which nothing fails, and that can be written. -/
structure Healthy (env : VaultEnv) : Prop where
  calm : env.Calm
  writable : ∀ n, env.readonly n = false
  random : env.Random

end VaultStartupGuard

section Keys

variable (env : VaultEnv) {crypto : VaultCrypto} {provider : VaultKeyProvider}
  {active : VaultMasterKey} {others : List VaultMasterKey}

theorem candidatesOf_single (key : VaultMasterKey) (version : String) :
    candidatesOf [key] version = [key] := by
  by_cases hv : key.keyVersion = version
  · simp [candidatesOf, hv]
  · simp [candidatesOf, hv]

/-- Among distinct versions the candidates for that of the active key begin with the active
key. -/
theorem candidatesOf_active (h : UsableKeys crypto active others) :
    ∃ rest, candidatesOf (active::others) active.keyVersion = active::rest := by
  have hfirst : (active::others).reverse.find? (fun key => key.keyVersion == active.keyVersion) =
      some active := by
    have hnone : ∀ key ∈ others, ¬(key.keyVersion == active.keyVersion) = true := by
      intro key hkey heq
      have hnew := (List.nodup_cons.mp h.versions).1
      exact hnew (List.mem_map.mpr ⟨key,hkey,by simpa using heq⟩)
    rw [List.reverse_cons, List.find?_append, List.find?_eq_none.mpr fun key hkey =>
      hnone key (List.mem_reverse.mp hkey)]
    simp
  unfold candidatesOf
  rw [hfirst]
  exact ⟨_,rfl⟩

theorem VaultKeyProvider.Unlocked.later {w w' : VaultWorld}
    (h : provider.Unlocked active others w) (hu : w'.unsealed = w.unsealed) :
    provider.Unlocked active others w' := by
  cases provider with
  | static first rest => exact h
  | unsealed id passphrase => exact ⟨h.1,hu ▸ h.2⟩

/-- An unlocked provider gives its candidates without a call of the database. -/
theorem VaultKeyProvider.Unlocked.run_candidates {w : VaultWorld}
    (h : provider.Unlocked active others w) (version : String) :
    (provider.candidateMasterKeys env crypto version).run w =
      (.ok (candidatesOf (active::others) version),w) := by
  cases provider with
  | static first rest =>
    obtain ⟨rfl,rfl⟩ := h
    rfl
  | unsealed id passphrase =>
    obtain ⟨rfl,hkept⟩ := h
    have hactive := @run_getActiveKey_unsealed env crypto id passphrase active w hkept
    rw [candidatesOf_single]
    simp only [candidateMasterKeys, findKey, getAllKeys, Prog.run_bind, hactive, Prog.andThen_ok,
      Prog.run_pure]
    by_cases hv : active.keyVersion = version
    · simp [hv]
    · simp [hv]

theorem VaultKeyProvider.Unlocked.run_unwrapDek {w : VaultWorld}
    (h : provider.Unlocked active others w) (d : VaultDekRecord) :
    (unwrapDek env crypto provider VaultStartupGuard.dekErrors d).run w =
      (VaultStartupGuard.openDek crypto (active::others) d,w) := by
  rw [unwrapDek, Prog.run_bind, h.run_candidates env]
  rfl

theorem validateKdfParams_error {metadata : VaultUnsealMetadata} {e : VaultError}
    (h : Kdf.validateKdfParams metadata = .error e) : e.kind = .secretKeyConfig := by
  unfold Kdf.validateKdfParams at h
  dsimp only at h
  repeat' split at h
  all_goals cases h
  all_goals rfl

theorem deriveRawKey_error {kdf : Kdf} {passphrase : String} {metadata : VaultUnsealMetadata}
    {e : VaultError} (h : kdf.deriveRawKey passphrase metadata = .error e) :
    e.kind = .secretKeyConfig := by
  simp only [Kdf.deriveRawKey, bind, Except.bind, pure, Except.pure, throw, throwThe,
    MonadExceptOf.throw] at h
  split at h
  · cases h
    rfl
  · cases hparams : Kdf.validateKdfParams metadata with
    | error e' =>
      rw [hparams] at h
      cases h
      exact validateKdfParams_error hparams
    | ok _ =>
      rw [hparams] at h
      dsimp only at h
      split at h
      · cases h
        rfl
      · split at h
        · cases h
        · cases h
          rfl

theorem deriveKey_error {kdf : Kdf} {passphrase : String} {metadata : VaultUnsealMetadata}
    {e : VaultError} (h : kdf.deriveKey passphrase metadata = .error e) :
    e.kind = .secretKeyConfig := by
  simp only [Kdf.deriveKey, Kdf.requirePassphrase, Kdf.buildHmac, bind, Except.bind, pure,
    Except.pure, throw, throwThe, MonadExceptOf.throw] at h
  by_cases hempty : passphrase = ""
  · rw [if_pos hempty] at h
    cases h
    rfl
  rw [if_neg hempty] at h
  cases hraw : kdf.deriveRawKey passphrase metadata with
  | error e' =>
    rw [hraw] at h
    cases h
    exact deriveRawKey_error hraw
  | ok raw =>
    rw [hraw] at h
    dsimp only at h
    by_cases halgo : metadata.hmacAlgo ≠ "hmac-sha256"
    · rw [if_pos halgo] at h
      cases h
      rfl
    · rw [if_neg halgo] at h
      dsimp only at h
      split at h
      · cases h
        rfl
      · cases h

end Keys

section Unlocking

variable (env : VaultEnv) {crypto : VaultCrypto} {provider : VaultKeyProvider}
  {active : VaultMasterKey} {others : List VaultMasterKey}

theorem VaultKeyProvider.Keyring.later {w w' : VaultWorld}
    (h : provider.Keyring crypto active others w) (hm : w'.vault.metadata = w.vault.metadata)
    (hu : w'.unsealed = w.unsealed) : provider.Keyring crypto active others w' := by
  rcases h with hunlocked | ⟨id,secret,metadata,hprovider,hothers,hnone,hmeta,hkey⟩
  · exact .inl (hunlocked.later hu)
  · exact .inr ⟨id,secret,metadata,hprovider,hothers,by rw [hu, hnone],hm.trans hmeta,hkey⟩

/-- With a keyring the guard gets its key, unless the metadata cannot be read. -/
theorem VaultKeyProvider.Keyring.unlocks {w : VaultWorld}
    (h : provider.Keyring crypto active others w) :
    Prog.Ends (fun r w₁ => SameVault w w₁ ∧ w₁.calls = VaultStartupGuard.readyCall provider w ∧
      ((r = .ok active ∧ provider.Unlocked active others w₁) ∨
        ∃ e, r = .error e ∧ w₁.unsealed = w.unsealed ∧ provider.readsMetadata w = true ∧
          env.fails w.calls = true))
      (provider.getActiveKey env crypto) w := by
  rcases h with hunlocked | ⟨id,secret,metadata,rfl,rfl,hnone,hmeta,hkey⟩
  · cases provider with
    | static first rest =>
      obtain ⟨rfl,rfl⟩ := hunlocked
      exact Prog.Ends.pure ⟨.refl w,rfl,.inl ⟨rfl,rfl,rfl⟩⟩
    | unsealed id passphrase =>
      obtain ⟨rfl,hkept⟩ := hunlocked
      rw [Prog.Ends, run_getActiveKey_unsealed env hkept]
      refine ⟨.refl w,?_,.inl ⟨rfl,rfl,hkept⟩⟩
      simp [VaultStartupGuard.readyCall, readsMetadata, hkept]
  · have hreads : (VaultKeyProvider.unsealed id (some secret)).readsMetadata w = true := by
      simp [readsMetadata, hnone]
    have hcalls : VaultStartupGuard.readyCall (.unsealed id (some secret)) w = w.calls + 1 := by
      simp [VaultStartupGuard.readyCall, hreads]
    rw [hcalls]
    refine Prog.Ends.bind (Prog.Ends.atomic ?_)
    simp only [hnone, loadActiveKey]
    refine Prog.Ends.bind (Prog.Ends.bind ((ends_read_clear env _ w).mono fun r w₁ hr => ?_))
    obtain ⟨rfl,⟨rfl,_⟩ | ⟨e,rfl,hfail⟩⟩ := hr
    · simp only [hmeta]
      refine Prog.Ends.ofExcept ?_
      rw [hkey]
      refine Prog.Ends.bind (Prog.Ends.atomic (Prog.Ends.pure ?_))
      exact ⟨⟨rfl,rfl⟩,rfl,.inl ⟨rfl,rfl,Function.update_self ..⟩⟩
    · exact ⟨⟨rfl,rfl⟩,rfl,.inr ⟨e,rfl,rfl,hreads,hfail⟩⟩

/-- Without a keyring the guard ends at its first step. -/
theorem ends_getActiveKey_locked {w : VaultWorld}
    (h : ∀ active others, ¬provider.Keyring crypto active others w) :
    Prog.Ends (fun r w₁ => SameVault w w₁ ∧ ∃ e, r = .error e ∧
      ((provider.readsMetadata w = true → env.fails w.calls = false) →
        e.kind = .secretKeyConfig))
      (provider.getActiveKey env crypto) w := by
  cases provider with
  | static first rest => exact absurd (.inl ⟨rfl,rfl⟩) (h first rest)
  | unsealed id passphrase =>
    cases hkept : w.unsealed id with
    | some key => exact absurd (.inl ⟨rfl,hkept⟩) (h key [])
    | none =>
      refine Prog.Ends.bind (Prog.Ends.atomic ?_)
      simp only [hkept]
      cases passphrase with
      | none => exact Prog.Ends.bind (Prog.Ends.throw ⟨⟨rfl,rfl⟩,_,rfl,fun _ => rfl⟩)
      | some secret =>
        unfold VaultKeyProvider.loadActiveKey
        refine Prog.Ends.bind (Prog.Ends.bind ((ends_read_clear env _ w).mono fun r w₁ hr => ?_))
        obtain ⟨rfl,⟨rfl,_⟩ | ⟨e,rfl,hfail⟩⟩ := hr
        · cases hmeta : w.vault.metadata with
          | none => exact Prog.Ends.throw ⟨⟨rfl,rfl⟩,_,rfl,fun _ => rfl⟩
          | some metadata =>
            refine Prog.Ends.ofExcept ?_
            cases hkey : crypto.kdf.deriveKey secret metadata with
            | ok key =>
              exact absurd (.inr ⟨id,secret,metadata,rfl,rfl,hkept,hmeta,hkey⟩) (h key [])
            | error e => exact ⟨⟨rfl,rfl⟩,e,rfl,fun _ => deriveKey_error hkey⟩
        · refine ⟨⟨rfl,rfl⟩,e,rfl,fun hclear => ?_⟩
          have hreads : (VaultKeyProvider.unsealed id (some secret)).readsMetadata w = true := by
            simp [VaultKeyProvider.readsMetadata, hkept]
          rw [hclear hreads] at hfail
          cases hfail

end Unlocking

section Calls

variable (env : VaultEnv)

theorem ends_read_exact {A : Type} (f : Vault → A) (w : VaultWorld) :
    Prog.Ends (fun r w' => w' = { w with calls := w.calls + 1 } ∧
      (r = .ok (f w.vault) ∨ (r = .error VaultEnv.readFailed ∧ ¬env.Calm))) (env.read f) w := by
  refine (ends_read_answers env f w).mono fun r w' hr => ⟨hr.1,?_⟩
  exact hr.2.imp And.left fun hfail => ⟨hfail.1,env.not_calm hfail.2⟩

theorem ends_write_exact (f : Vault → Vault) (w : VaultWorld) :
    Prog.Ends (fun r w' => (r = .ok () ∧ w' = { w with vault := f w.vault, calls := w.calls + 1 }) ∨
      (r = .error VaultEnv.storeFailed ∧ ¬env.Calm ∧ w' = { w with calls := w.calls + 1 }))
      (env.write f) w := by
  refine (ends_write_changes env f w).mono fun r w' hr => ?_
  obtain ⟨hok,_,hw⟩ | ⟨herror,hfail,hw⟩ := hr
  · exact .inl ⟨hok,hw⟩
  · exact .inr ⟨herror,env.not_calm hfail,hw⟩

theorem ends_writeUnit_exact (f : Vault → Vault) (w : VaultWorld) :
    Prog.Ends (fun r w' => (r = .ok () ∧ w' = { w with vault := f w.vault, calls := w.calls + 1 }) ∨
      (∃ e, r = .error e ∧ ((∀ n, env.boundary n = false) → e = VaultEnv.storeFailed) ∧
        ¬env.Calm ∧ w' = { w with calls := w.calls + 1 })) (env.writeUnit f) w := by
  refine (ends_writeUnit_changes env f w).mono fun r w' hr => ?_
  obtain ⟨hok,_,hw⟩ | ⟨herror,hfail,hw⟩ := hr
  · exact .inl ⟨hok,hw⟩
  · refine .inr ⟨_,herror,fun hboundary => ?_,env.not_calm hfail,hw⟩
    simp [hboundary w.calls]

end Calls

namespace VaultStartupGuard

section Errors

variable {crypto : VaultCrypto}

theorem ensureAlgo_error {algo : String} {e : VaultError} (h : ensureAlgo algo = .error e) :
    e.kind = .secretIntegrity := by
  unfold ensureAlgo at h
  split at h
  · cases h
  · cases h
    rfl

theorem checkToken_error {token : String} {e : VaultError}
    (h : crypto.fernet.checkToken token = .error e) : e.kind = .secretIntegrity := by
  unfold Fernet.checkToken at h
  repeat' split at h
  all_goals cases h
  all_goals rfl

/-- A data key that is refused is no data key, does not fit, or the master key is malformed. -/
theorem unwrapDek_error {wrapped key algo : String} {e : VaultError}
    (h : crypto.fernet.unwrapDek wrapped key algo = .error e) :
    e.kind = .secretIntegrity ∨ e.kind = .secretKeyConfig ∨ e.kind = .secretDecryption := by
  unfold Fernet.unwrapDek at h
  rcases bind_error h with halgo | ⟨_,h⟩
  · exact .inl (ensureAlgo_error halgo)
  rcases bind_error h with htoken | ⟨_,h⟩
  · exact .inl (checkToken_error htoken)
  rcases bind_error h with hkey | ⟨_,h⟩
  · unfold Fernet.checkMasterKey at hkey
    split at hkey
    · cases hkey
    · cases hkey
      exact .inr (.inl rfl)
  · split at h
    · cases h
    · cases h
      exact .inr (.inr rfl)

theorem decryptSecret_error {ciphertext plain algo : String} {e : VaultError}
    (h : crypto.fernet.decryptSecret ciphertext plain algo = .error e) :
    e.kind = .secretIntegrity ∨ e.kind = .secretDecryption := by
  unfold Fernet.decryptSecret at h
  rcases bind_error h with halgo | ⟨_,h⟩
  · exact .inl (ensureAlgo_error halgo)
  rcases bind_error h with htoken | ⟨_,h⟩
  · exact .inl (checkToken_error htoken)
  rcases bind_error h with hkey | ⟨_,h⟩
  · unfold Fernet.checkDek at hkey
    split at hkey
    · cases hkey
    · cases hkey
      exact .inl rfl
  · split at h
    · cases h
    · cases h
      exact .inr rfl

theorem probeCorrupted_expected (reason : String) : Expected (probeCorrupted reason) := by
  simp [Expected, probeCorrupted]

theorem keyValidation_expected (reason : String) : Expected (keyValidation reason) := by
  simp [Expected, keyValidation]

theorem orCorrupted_expected {kinds : List VaultErrorKind} {reason : String} {e : VaultError}
    (h : e.kind ∈ kinds ∨ Expected e) : Expected (orCorrupted kinds reason e) := by
  unfold orCorrupted
  split
  · exact probeCorrupted_expected reason
  · rename_i hnot
    exact h.resolve_left hnot

/-- A key that does not open a data key is passed over, a malformed one ends the search. -/
theorem openDek_expected {keys : List VaultMasterKey} {d : VaultDekRecord} {e : VaultError}
    (h : openDek crypto keys d = .error e) : Expected e := by
  unfold openDek at h
  have hsearch : ∀ candidates, unwrapWith crypto d dekErrors.unwrapFailed candidates = .error e →
      Expected e := by
    intro candidates
    induction candidates with
    | nil =>
      intro hnone
      cases hnone
      exact keyValidation_expected _
    | cons key candidates ih =>
      intro hfirst
      unfold unwrapWith at hfirst
      split at hfirst
      · cases hfirst
      · rename_i e' hopen
        split at hfirst
        · exact ih hfirst
        · rename_i hkind
          cases hfirst
          have hconfig : e.kind = .secretKeyConfig := by
            rcases unwrapDek_error hopen with h | h | h
            · exact absurd (.inr h) hkind
            · exact h
            · exact absurd (.inl h) hkind
          simp [Expected, hconfig]
  exact hsearch _ h

theorem decrypt_expected {ciphertext plain algo : String} {e : VaultError}
    (h : crypto.fernet.decryptSecret ciphertext plain algo = .error e) :
    Expected (probeDecryptError e) := by
  unfold probeDecryptError
  rcases decryptSecret_error h with hkind | hkind
  · rw [hkind]
    exact probeCorrupted_expected _
  · rw [hkind]
    exact keyValidation_expected _

theorem validate_expected {probe : VaultProbeRecord} {e : VaultError}
    (h : validateProbeRecord probe = .error e) : Expected e := by
  unfold validateProbeRecord at h
  repeat' split at h
  all_goals cases h
  all_goals exact probeCorrupted_expected _

end Errors

section Steps

variable (env : VaultEnv) {crypto : VaultCrypto} {provider : VaultKeyProvider}
  {active : VaultMasterKey} {others : List VaultMasterKey}

/-- What a step of the guard leaves as it was, and what it leaves openable. -/
structure Kept (crypto : VaultCrypto) (env : VaultEnv) (active : VaultMasterKey)
    (others : List VaultMasterKey) (w w' : VaultWorld) : Prop where
  unsealed : w'.unsealed = w.unsealed
  metadata : w'.vault.metadata = w.vault.metadata
  opens : UsableKeys crypto active others → env.Random →
    StoredOpens crypto (active::others) w.vault → StoredOpens crypto (active::others) w'.vault

/-- A failed step raises what the guard may raise, and on a healthy store with usable keys it is a
stored data key or probe that cannot be opened. -/
def Blamed (crypto : VaultCrypto) (env : VaultEnv) (active : VaultMasterKey)
    (others : List VaultMasterKey) (w : VaultWorld) (e : VaultError) : Prop :=
  ((∀ n, env.boundary n = false) → Expected e) ∧ (UsableKeys crypto active others → env.Random →
    StoredOpens crypto (active::others) w.vault → ¬env.Calm)

theorem Blamed.of_call {kinds : List VaultErrorKind} {reason : String} {w : VaultWorld}
    {e : VaultError} (he : e.kind ∈ kinds ∨ Expected e) (hcalm : ¬env.Calm) :
    Blamed crypto env active others w (orCorrupted kinds reason e) :=
  ⟨fun _ => orCorrupted_expected he,fun _ _ _ => hcalm⟩

theorem Kept.of_same {w w' : VaultWorld} (hv : w'.vault = w.vault) (hu : w'.unsealed = w.unsealed) :
    Kept crypto env active others w w' :=
  ⟨hu,by rw [hv],fun _ _ h => hv ▸ h⟩

theorem DekOpens.keepsKey {keys : List VaultMasterKey} {d d' : VaultDekRecord}
    (h : DekOpens crypto keys d) (hkeeps : DekTable.KeepsKey d d') : DekOpens crypto keys d' := by
  have hopen : ∀ candidates, unwrapWith crypto d' dekErrors.unwrapFailed candidates =
      unwrapWith crypto d dekErrors.unwrapFailed candidates := by
    intro candidates
    induction candidates with
    | nil => rfl
    | cons key candidates ih => rw [unwrapWith, unwrapWith, hkeeps.wrapped, hkeeps.algo, ih]
  obtain ⟨hversion,plain,hplain,hvalid⟩ := h
  refine ⟨hkeeps.version ▸ hversion,plain,?_,hvalid⟩
  rw [openDek, hkeeps.keyVersion, hopen]
  exact hplain

/-- The probe decrypts, or tells why not. -/
theorem ends_verify {w : VaultWorld} (h : provider.Unlocked active others w)
    (probe : VaultProbeRecord) :
    Prog.Ends (fun r w' => w'.vault = w.vault ∧ w'.unsealed = w.unsealed ∧
      (r = .ok () → ProbeReads crypto (active::others) w.vault.deks probe) ∧
      ∀ e, r = .error e → Expected e ∧
        (ProbeReads crypto (active::others) w.vault.deks probe → ¬env.Calm))
      (verifyProbe env crypto provider probe) w := by
  unfold verifyProbe loadProbeDek
  refine Prog.Ends.bind (Prog.Ends.bind (ends_mapError ((ends_read_exact env _ w).mono
    fun r w₁ hr => ?_)))
  obtain ⟨rfl,rfl | ⟨rfl,hcalm⟩⟩ := hr
  · simp only [Except.mapError]
    cases hget : w.vault.deks.getDek probe.dekVersion with
    | none =>
      refine Prog.Ends.throw ⟨rfl,rfl,fun h => (by cases h),fun e he => ?_⟩
      cases he
      refine ⟨probeCorrupted_expected _,?_⟩
      rintro ⟨d,_,hd,_⟩
      rw [hget] at hd
      cases hd
    | some d =>
      refine Prog.Ends.pure (Prog.Ends.bind ?_)
      have hunlocked : provider.Unlocked active others { w with calls := w.calls + 1 } :=
        h.later rfl
      rw [Prog.Ends, hunlocked.run_unwrapDek env]
      have hsame : ∀ d' plain, w.vault.deks.getDek probe.dekVersion = some d' →
          openDek crypto (active::others) d' = .ok plain →
            openDek crypto (active::others) d = .ok plain := by
        intro d' plain hd' hopen
        rw [hget] at hd'
        cases hd'
        exact hopen
      cases hopen : openDek crypto (active::others) d with
      | error e =>
        refine ⟨rfl,rfl,fun h => (by cases h),fun e' he => ?_⟩
        cases he
        refine ⟨openDek_expected hopen,?_⟩
        rintro ⟨d',plain,hd',hplain,_⟩
        have heq := hsame d' plain hd' hplain
        rw [hopen] at heq
        cases heq
      | ok plain =>
        refine Prog.Ends.bind (ends_mapError (Prog.Ends.ofExcept ?_))
        have hreads : ProbeReads crypto (active::others) w.vault.deks probe ↔
            crypto.fernet.decryptSecret probe.ciphertext plain probe.cipherAlgo =
              .ok probePayload := by
          constructor
          · rintro ⟨d',plain',hd',hplain',hdecrypt⟩
            have heq := hsame d' plain' hd' hplain'
            rw [hopen] at heq
            cases heq
            exact hdecrypt
          · exact fun hdecrypt => ⟨d,plain,hget,hopen,hdecrypt⟩
        rw [hreads]
        cases hdecrypt : crypto.fernet.decryptSecret probe.ciphertext plain probe.cipherAlgo with
        | error e =>
          refine ⟨rfl,rfl,fun h => (by cases h),fun e' he => ?_⟩
          cases he
          exact ⟨decrypt_expected hdecrypt,fun h => by cases h⟩
        | ok payload =>
          simp only [Except.mapError]
          by_cases hpayload : payload = probePayload
          · subst hpayload
            rw [if_neg (not_not.mpr rfl)]
            exact Prog.Ends.pure ⟨rfl,rfl,fun _ => rfl,fun e he => by cases he⟩
          · rw [if_pos hpayload]
            refine Prog.Ends.throw ⟨rfl,rfl,fun h => (by cases h),fun e he => ?_⟩
            cases he
            exact ⟨probeCorrupted_expected _,fun h => absurd (Except.ok.inj h) hpayload⟩
  · refine ⟨rfl,rfl,fun h => (by cases h),fun e he => ?_⟩
    cases he
    exact ⟨orCorrupted_expected (.inl (by simp [VaultEnv.readFailed])),fun _ => hcalm⟩

/-- The data key is there under its version and opens to the plaintext. -/
def DekReady (crypto : VaultCrypto) (keys : List VaultMasterKey) (deks : DekTable)
    (d : VaultDekRecord) (plain : String) : Prop :=
  d.dekVersion ≠ "" ∧ crypto.fernet.validKey plain = true ∧
    ∃ d', deks.getDek d.dekVersion = some d' ∧ openDek crypto keys d' = .ok plain

/-- A new data key opens, and so do those that were stored before. -/
theorem StoredOpens.upsertDek (hc : crypto.Correct) (hkeys : UsableKeys crypto active others)
    {v : Vault} (h : StoredOpens crypto (active::others) v)
    (hnone : Dict.get? v.probes probeName = none) {d : VaultDekRecord} {nonce : Nat}
    {plain : String} (hplain : crypto.fernet.validKey plain = true) (hversion : d.dekVersion ≠ "")
    (halgo : d.wrapAlgo = fernetV1) (hkey : d.wrapKeyVersion = active.keyVersion)
    (hwrapped : d.wrappedDek = crypto.fernet.encrypt nonce active.keyMaterial plain) :
    StoredOpens crypto (active::others) { v with deks := v.deks.upsertDek d } ∧
      DekReady crypto (active::others) (v.deks.upsertDek d) d plain := by
  have hopen : ∀ createdAt, openDek crypto (active::others) { d with createdAt := createdAt } =
      .ok plain := by
    intro createdAt
    obtain ⟨rest,hrest⟩ := candidatesOf_active hkeys
    unfold openDek
    dsimp only
    rw [hkey, hrest, unwrapWith, hwrapped, hc.fernet.unwrapDek halgo hkeys.valid,
      if_pos hkeys.valid, if_pos rfl]
  constructor
  · refine ⟨fun d' hd' => ?_,fun probe hprobe => ?_⟩
    · rcases DekTable.mem_upsertDek.mp hd' with ⟨old,_,_,rfl⟩ | ⟨old,hold,_,rfl⟩ | ⟨_,rfl⟩
      · exact ⟨hversion,plain,hopen _,hplain⟩
      · exact (h.deks old hold).keepsKey (DekTable.othersAfter_keepsKey d old)
      · exact ⟨hversion,plain,hopen _,hplain⟩
    · dsimp only at hprobe
      rw [hnone] at hprobe
      cases hprobe
  · obtain ⟨createdAt,hstored⟩ := v.deks.upsertDek_stored d
    have hget : (v.deks.upsertDek d).getDek d.dekVersion = some { d with createdAt := createdAt } :=
      DekTable.getDek_of_mem hstored
    exact ⟨hversion,hplain,_,hget,hopen createdAt⟩

/-- The step to the active data key: it gives a data key that is ready, or tells why not. -/
structure GivesDek (crypto : VaultCrypto) (env : VaultEnv) (active : VaultMasterKey)
    (others : List VaultMasterKey) (w : VaultWorld)
    (r : Except VaultError (VaultDekRecord × String)) (w' : VaultWorld) : Prop where
  kept : Kept crypto env active others w w'
  ready : ∀ d plain, r = .ok (d,plain) → UsableKeys crypto active others → env.Random →
    StoredOpens crypto (active::others) w.vault →
      DekReady crypto (active::others) w'.vault.deks d plain
  blamed : ∀ e, r = .error e → Blamed crypto env active others w e

theorem GivesDek.of_error {w w' : VaultWorld} {e : VaultError} (hv : w'.vault = w.vault)
    (hu : w'.unsealed = w.unsealed) (h : Blamed crypto env active others w e) :
    GivesDek crypto env active others w (.error e) w' := by
  refine ⟨.of_same env hv hu,fun _ _ hr => (by cases hr),fun e' he => ?_⟩
  cases he
  exact h

/-- A data key that is there is only opened. -/
theorem givesDek_opened {w w' : VaultWorld} {d : VaultDekRecord} (hd : d ∈ w.vault.deks.rows)
    (hv : w'.vault = w.vault) (hu : w'.unsealed = w.unsealed) :
    GivesDek crypto env active others w
      ((openDek crypto (active::others) d).map fun plain => (d,plain)) w' := by
  cases hopen : openDek crypto (active::others) d with
  | error e =>
    refine .of_error env hv hu ⟨fun _ => openDek_expected hopen,fun _ _ hstored => ?_⟩
    obtain ⟨_,plain,hplain,_⟩ := hstored.deks d hd
    rw [hopen] at hplain
    cases hplain
  | ok plain =>
    refine ⟨.of_same env hv hu,?_,fun e he => by cases he⟩
    intro d' plain' hr _ _ hstored
    cases hr
    obtain ⟨hversion,plain',hplain',hvalid⟩ := hstored.deks d hd
    rw [hopen] at hplain'
    cases hplain'
    rw [hv]
    exact ⟨hversion,hvalid,d,DekTable.getDek_of_mem hd,hopen⟩

theorem ends_guardDek (hc : crypto.Correct) (now : String) {w : VaultWorld}
    (h : provider.Unlocked active others w) (hnone : Dict.get? w.vault.probes probeName = none) :
    Prog.Ends (GivesDek crypto env active others w)
      (ensureActiveDek env crypto provider dekErrors active now) w := by
  refine Prog.Ends.bind (ends_mapError ((ends_read_exact env _ w).mono fun r w₁ hr => ?_))
  obtain ⟨rfl,rfl | ⟨rfl,hcalm⟩⟩ := hr
  · simp only [Except.mapError]
    cases hget : w.vault.deks.getActiveDek with
    | some d =>
      refine Prog.Ends.bind ?_
      have hunlocked : provider.Unlocked active others { w with calls := w.calls + 1 } :=
        h.later rfl
      rw [Prog.Ends, hunlocked.run_unwrapDek env]
      have hgives : GivesDek crypto env active others w
          ((openDek crypto (active::others) d).map fun plain => (d,plain))
          { w with calls := w.calls + 1 } :=
        givesDek_opened env (DekTable.getActiveDek_mem hget).1 rfl rfl
      cases hopen : openDek crypto (active::others) d with
      | error e =>
        rw [hopen] at hgives
        exact hgives
      | ok plain =>
        rw [hopen] at hgives
        exact Prog.Ends.pure hgives
    | none =>
      refine Prog.Ends.bind (Prog.Ends.atomic (Prog.Ends.bind (Prog.Ends.atomic ?_)))
      refine Prog.Ends.bind (ends_mapError (Prog.Ends.ofExcept ?_))
      by_cases hvalid : crypto.fernet.validKey active.keyMaterial = true
      · rw [Fernet.wrapDek_of_valid hvalid]
        refine Prog.Ends.bind (Prog.Ends.atomic (Prog.Ends.bind (ends_mapError
          ((ends_writeUnit_exact env _ _).mono fun r w₂ hr => ?_))))
        obtain ⟨rfl,rfl⟩ | ⟨e,rfl,hboundary,hcalm,rfl⟩ := hr
        · let d : VaultDekRecord := ⟨"dek_" ++ env.uuid (w.draws + 1 + 1),
            crypto.fernet.encrypt (w.draws + 1) active.keyMaterial
              (urlsafeB64 (env.urandom w.draws)),fernetV1,active.keyVersion,true,now,now⟩
          have hmade := fun (hkeys : UsableKeys crypto active others) (hrandom : env.Random)
              (hstored : StoredOpens crypto (active::others) w.vault) =>
            hstored.upsertDek (d := d) hc hkeys hnone (hc.kdf.key _ (hrandom w.draws)) (by simp [d])
              rfl rfl rfl
          refine Prog.Ends.pure ⟨⟨rfl,rfl,fun hkeys hrandom hstored =>
            (hmade hkeys hrandom hstored).1⟩,?_,fun e he => by cases he⟩
          intro d plain hr hkeys hrandom hstored
          cases hr
          exact (hmade hkeys hrandom hstored).2
        · refine .of_error env rfl rfl ⟨fun hall => ?_,fun _ _ _ => hcalm⟩
          rw [hboundary hall]
          exact orCorrupted_expected (.inl (by simp [VaultEnv.storeFailed]))
      · have hrefused : crypto.fernet.wrapDek (w.draws + 1) (urlsafeB64 (env.urandom w.draws))
            active.keyMaterial fernetV1 = .error ⟨.secretKeyConfig,"Invalid master key format",
              "invalid_master_key"⟩ := by
          simp [Fernet.wrapDek, ensureAlgo, Fernet.checkMasterKey, hvalid, bind, Except.bind]
        rw [hrefused]
        exact .of_error env rfl rfl ⟨fun _ => orCorrupted_expected (.inr (by simp [Expected])),
          fun hkeys _ _ _ => hvalid hkeys.valid⟩
  · exact .of_error env rfl rfl (.of_call env (.inl (by simp [VaultEnv.readFailed])) hcalm)

/-- A new probe opens. -/
theorem StoredOpens.upsertProbe (hc : crypto.Correct) (hkeys : UsableKeys crypto active others)
    {v : Vault} (h : StoredOpens crypto (active::others) v) {d : VaultDekRecord} {plain : String}
    (hd : DekReady crypto (active::others) v.deks d plain) {nonce : Nat}
    {record : VaultProbeRecord} (hname : record.probeName = probeName)
    (hversion : record.keyVersion = active.keyVersion) (hdek : record.dekVersion = d.dekVersion)
    (halgo : record.cipherAlgo = fernetV1)
    (hcipher : record.ciphertext = crypto.fernet.encrypt nonce plain probePayload) :
    StoredOpens crypto (active::others) (v.upsertProbe record) := by
  obtain ⟨hnamed,hvalid,d',hget,hopen⟩ := hd
  refine ⟨h.deks,fun probe hprobe => ?_⟩
  unfold Vault.upsertProbe at hprobe
  rw [hname, Dict.get?_set_self] at hprobe
  cases hprobe
  constructor
  · have htoken := (hc.fernet.token nonce plain probePayload).1
    simp [validateProbeRecord, halgo, fernetV1, hversion, hkeys.named, hdek, hnamed,
      hcipher, htoken]
  · refine ⟨d',plain,by rw [← hget, ← hdek]; rfl,hopen,?_⟩
    dsimp only
    rw [hcipher]
    exact hc.fernet.decryptSecret halgo hvalid nonce _

/-- The probe is the stored one, or the step tells why there is none. -/
def Obtained (crypto : VaultCrypto) (env : VaultEnv) (active : VaultMasterKey)
    (others : List VaultMasterKey) (w : VaultWorld) (r : Except VaultError VaultProbeRecord)
    (w' : VaultWorld) : Prop :=
  Kept crypto env active others w w' ∧
    (∀ probe, r = .ok probe → Dict.get? w'.vault.probes probeName = some probe) ∧
    ∀ e, r = .error e → Blamed crypto env active others w e

theorem Obtained.of_error {w w' : VaultWorld} {e : VaultError}
    (hkept : Kept crypto env active others w w') (h : Blamed crypto env active others w e) :
    Obtained crypto env active others w (.error e) w' := by
  refine ⟨hkept,fun _ hr => (by cases hr),fun e' he => ?_⟩
  cases he
  exact h

theorem ends_newProbe (hc : crypto.Correct) {w : VaultWorld}
    (h : provider.Unlocked active others w) (hnone : Dict.get? w.vault.probes probeName = none) :
    Prog.Ends (Obtained crypto env active others w) (createProbe env crypto provider active) w := by
  refine Prog.Ends.bind (Prog.Ends.bind (Prog.Ends.atomic (Prog.Ends.pure ?_)))
  have hdek := ends_guardDek env hc (env.clock w.draws) (w := { w with draws := w.draws + 1 })
    (h.later rfl) hnone
  refine Prog.Ends.bind (hdek.mono fun r w₁ hr => ?_)
  obtain ⟨hmade,hready,hblamed⟩ := hr
  have hkept : Kept crypto env active others w w₁ := ⟨hmade.unsealed,hmade.metadata,hmade.opens⟩
  cases r with
  | error e => exact .of_error env hkept (hblamed e rfl)
  | ok made =>
    obtain ⟨d,plain⟩ := made
    refine Prog.Ends.bind (Prog.Ends.atomic (Prog.Ends.bind (ends_mapError
      (Prog.Ends.ofExcept ?_))))
    by_cases hvalid : crypto.fernet.validKey plain = true
    · rw [Fernet.encryptSecret_of_valid hvalid]
      refine Prog.Ends.bind (ends_mapError ((ends_write_exact env _ _).mono fun r w₂ hr => ?_))
      obtain ⟨rfl,rfl⟩ | ⟨rfl,hcalm,rfl⟩ := hr
      · have hnew : Kept crypto env active others w { w₁ with vault := (w₁.vault.upsertProbe
            ⟨probeName,crypto.fernet.encrypt w₁.draws plain probePayload,fernetV1,
              active.keyVersion,d.dekVersion,env.clock w.draws,env.clock w.draws⟩) } :=
          ⟨hkept.unsealed,hkept.metadata,fun hkeys hrandom hstored =>
            (hkept.opens hkeys hrandom hstored).upsertProbe hc hkeys
              (hready d plain rfl hkeys hrandom hstored) rfl rfl rfl rfl rfl⟩
        refine Prog.Ends.bind (ends_mapError ((ends_read_exact env _ _).mono fun r w₃ hr => ?_))
        obtain ⟨rfl,rfl | ⟨rfl,hcalm⟩⟩ := hr
        · simp only [Except.mapError, Vault.upsertProbe, Dict.get?_set_self]
          refine Prog.Ends.pure ⟨⟨hnew.unsealed,hnew.metadata,hnew.opens⟩,fun probe hprobe => ?_,
            fun e he => by cases he⟩
          cases hprobe
          exact Dict.get?_set_self _ _ _
        · exact .of_error env ⟨hnew.unsealed,hnew.metadata,hnew.opens⟩
            (.of_call env (.inl (by simp [VaultEnv.readFailed])) hcalm)
      · exact .of_error env ⟨hkept.unsealed,hkept.metadata,hkept.opens⟩
          (.of_call env (.inl (by simp [VaultEnv.storeFailed])) hcalm)
    · have hrefused : crypto.fernet.encryptSecret w₁.draws probePayload plain fernetV1 =
          .error ⟨.secretIntegrity,"Invalid DEK format","invalid_dek"⟩ := by
        simp [Fernet.encryptSecret, ensureAlgo, Fernet.checkDek, hvalid, bind, Except.bind]
      rw [hrefused]
      exact .of_error env ⟨hkept.unsealed,hkept.metadata,hkept.opens⟩
        ⟨fun _ => orCorrupted_expected (.inl (by simp)),fun hkeys hrandom hstored =>
          absurd (hready d plain rfl hkeys hrandom hstored).2.1 hvalid⟩

theorem ends_obtainProbe (hc : crypto.Correct) {w : VaultWorld}
    (h : provider.Unlocked active others w) :
    Prog.Ends (Obtained crypto env active others w)
      (obtainProbe env crypto provider active false) w := by
  refine Prog.Ends.bind (ends_mapError ((ends_read_exact env _ w).mono fun r w₁ hr => ?_))
  obtain ⟨rfl,rfl | ⟨rfl,hcalm⟩⟩ := hr
  · simp only [Except.mapError]
    cases hprobe : Dict.get? w.vault.probes probeName with
    | some probe =>
      refine Prog.Ends.pure ⟨.of_same env rfl rfl,fun probe' hp => ?_,fun e he => by cases he⟩
      cases hp
      exact hprobe
    | none =>
      refine (ends_newProbe env hc (w := { w with calls := w.calls + 1 }) (h.later rfl) hprobe).mono
        fun r w' hr => ?_
      exact ⟨⟨hr.1.unsealed,hr.1.metadata,hr.1.opens⟩,hr.2⟩
  · exact .of_error env (.of_same env rfl rfl)
      (.of_call env (.inl (by simp [VaultEnv.readFailed])) hcalm)

/-- On read-only storage the probe is looked up and nothing else happens. -/
theorem ends_obtainProbe_readonly (w : VaultWorld) :
    Prog.Ends (fun r w' => w'.vault = w.vault ∧ w'.unsealed = w.unsealed ∧
        ∀ e, r = .error e → Expected e)
      (obtainProbe env crypto provider active true) w := by
  refine Prog.Ends.bind (ends_mapError ((ends_read_exact env _ w).mono fun r w₁ hr => ?_))
  obtain ⟨rfl,rfl | ⟨rfl,_⟩⟩ := hr
  · simp only [Except.mapError]
    cases Dict.get? w.vault.probes probeName with
    | some probe => exact Prog.Ends.pure ⟨rfl,rfl,fun e he => by cases he⟩
    | none =>
      refine Prog.Ends.throw ⟨rfl,rfl,fun e he => ?_⟩
      cases he
      simp [Expected]
  · refine ⟨rfl,rfl,fun e he => ?_⟩
    cases he
    exact orCorrupted_expected (.inl (by simp [VaultEnv.readFailed]))

theorem ends_readiness (w : VaultWorld) :
    Prog.Ends (fun r w' => w'.vault = w.vault ∧ w'.unsealed = w.unsealed ∧
      ((r = .ok false ∧ (w.inTransaction = true ∨
          (env.readonly w.calls = false ∧ env.fails w.calls = false))) ∨
        (r = .ok true ∧ w.inTransaction = false ∧ env.readonly w.calls = true) ∨
        ∃ e, r = .error e ∧ w.inTransaction = false ∧ env.readonly w.calls = false ∧
          env.fails w.calls = true)) env.isReadonly w := by
  cases hin : w.inTransaction with
  | false =>
    refine (ends_isReadonly env hin).mono fun r w' hr => ?_
    obtain ⟨rfl,⟨rfl,hro⟩ | ⟨rfl,hro,hfail⟩ | ⟨e,rfl,hro,hfail⟩⟩ := hr
    · exact ⟨rfl,rfl,.inr (.inl ⟨rfl,rfl,hro⟩)⟩
    · exact ⟨rfl,rfl,.inl ⟨rfl,.inr ⟨hro,hfail⟩⟩⟩
    · exact ⟨rfl,rfl,.inr (.inr ⟨e,rfl,rfl,hro,hfail⟩)⟩
  | true =>
    refine Prog.Ends.atomic ?_
    rw [if_pos hin]
    exact ⟨rfl,rfl,.inl ⟨rfl,.inl rfl⟩⟩

/-- What a run of the guard with its keyring ends in. -/
structure GuardRun (crypto : VaultCrypto) (env : VaultEnv) (provider : VaultKeyProvider)
    (active : VaultMasterKey) (others : List VaultMasterKey) (w : VaultWorld)
    (r : Except VaultError Unit) (w' : VaultWorld) : Prop where
  ready : r = .ok () → Writable env provider w ∧
    ∃ probe, Dict.get? w'.vault.probes probeName = some probe ∧
      ProbeReads crypto (active::others) w'.vault.deks probe
  untouched : w.inTransaction = false → env.readonly (readyCall provider w) = true →
    w'.vault = w.vault
  expected : ∀ e, r = .error e → Answered env provider w → Expected e
  opens : UsableKeys crypto active others → env.Random →
    StoredOpens crypto (active::others) w.vault → StoredOpens crypto (active::others) w'.vault
  succeeds : UsableKeys crypto active others → Healthy env →
    StoredOpens crypto (active::others) w.vault → r = .ok ()

/-- The outcomes of a failed run. -/
theorem GuardRun.of_error {w w' : VaultWorld} {e : VaultError}
    (hopens : UsableKeys crypto active others → env.Random →
      StoredOpens crypto (active::others) w.vault → StoredOpens crypto (active::others) w'.vault)
    (huntouched : w.inTransaction = false → env.readonly (readyCall provider w) = true →
      w'.vault = w.vault)
    (hexpected : Answered env provider w → Expected e)
    (hblame : UsableKeys crypto active others → Healthy env →
      ¬StoredOpens crypto (active::others) w.vault) :
    GuardRun crypto env provider active others w (.error e) w' :=
  ⟨fun h => (by cases h),huntouched,fun e' he => (by cases he; exact hexpected),hopens,
    fun hkeys hhealthy hstored => absurd hstored (hblame hkeys hhealthy)⟩

/-- The guard on storage that can be written. -/
theorem ends_writable (hc : crypto.Correct) {w w₂ : VaultWorld} (hvault : w₂.vault = w.vault)
    (hunlocked : provider.Unlocked active others w₂) (hwritable : Writable env provider w) :
    Prog.Ends (GuardRun crypto env provider active others w) (do
        let probe ← obtainProbe env crypto provider active false
        Prog.ofExcept (validateProbeRecord probe)
        verifyProbe env crypto provider probe
        if false then throw ⟨.startupStorageReadonly,"Vault storage is readonly",
          "readonly_storage"⟩) w₂ := by
  have huntouched : ∀ v : Vault, w.inTransaction = false →
      env.readonly (readyCall provider w) = true → v = w.vault := by
    intro v hout hreadonly
    rcases hwritable with hin | ⟨hwrite,_⟩
    · rw [hin] at hout
      cases hout
    · rw [hwrite] at hreadonly
      cases hreadonly
  refine Prog.Ends.bind ((ends_obtainProbe env hc hunlocked).mono fun r w₃ hr => ?_)
  rw [Obtained] at hr
  obtain ⟨hkept,hprobe,hblamed⟩ := hr
  have hopens := hkept.opens
  rw [hvault] at hopens
  cases r with
  | error e =>
    obtain ⟨hexpected,hcalm⟩ := hblamed e rfl
    rw [hvault] at hcalm
    exact .of_error env hopens (huntouched _) (fun h => hexpected h.boundary)
      fun hkeys hhealthy hstored => hcalm hkeys hhealthy.random hstored hhealthy.calm
  | ok probe =>
    have hfound := hprobe probe rfl
    refine Prog.Ends.bind (Prog.Ends.ofExcept ?_)
    cases hvalid : validateProbeRecord probe with
    | error e =>
      refine .of_error env hopens (huntouched _) (fun _ => validate_expected hvalid) ?_
      intro hkeys hhealthy hstored
      have hok := ((hopens hkeys hhealthy.random hstored).probe probe hfound).1
      rw [hvalid] at hok
      cases hok
    | ok _ =>
      have hlater : provider.Unlocked active others w₃ := hunlocked.later hkept.unsealed
      refine Prog.Ends.bind ((ends_verify env hlater probe).mono fun r w₄ hr => ?_)
      obtain ⟨hv₄,_,hreads,hfailed⟩ := hr
      rw [← hv₄] at hfound hopens hreads
      cases r with
      | error e =>
        refine .of_error env hopens (huntouched _) (fun _ => (hfailed e rfl).1) ?_
        intro hkeys hhealthy hstored
        have hstored' := hopens hkeys hhealthy.random hstored
        rw [hv₄] at hstored' hfound
        exact (hfailed e rfl).2 (hstored'.probe probe hfound).2 hhealthy.calm
      | ok _ =>
        exact Prog.Ends.pure ⟨fun _ => ⟨hwritable,probe,hfound,hreads rfl⟩,huntouched _,
          fun e he => (by cases he),hopens,fun _ _ _ => rfl⟩

/-- The guard on read-only storage. -/
theorem ends_unwritable {w w₂ : VaultWorld} (hvault : w₂.vault = w.vault)
    (hunlocked : provider.Unlocked active others w₂)
    (hreadonly : env.readonly (readyCall provider w) = true) :
    Prog.Ends (GuardRun crypto env provider active others w) (do
        let probe ← obtainProbe env crypto provider active true
        Prog.ofExcept (validateProbeRecord probe)
        verifyProbe env crypto provider probe
        if true then throw ⟨.startupStorageReadonly,"Vault storage is readonly",
          "readonly_storage"⟩) w₂ := by
  have hfails : ∀ e w', w'.vault = w.vault → Expected e →
      GuardRun crypto env provider active others w (.error e) w' := by
    intro e w' hv hexpected
    refine .of_error env (fun _ _ h => hv ▸ h) (fun _ _ => hv) (fun _ => hexpected) ?_
    intro _ hhealthy _
    rw [hhealthy.writable] at hreadonly
    cases hreadonly
  refine Prog.Ends.bind ((ends_obtainProbe_readonly env w₂).mono fun r w₃ hr => ?_)
  obtain ⟨hv₃,hu₃,hexpected⟩ := hr
  rw [hvault] at hv₃
  cases r with
  | error e => exact hfails e w₃ hv₃ (hexpected e rfl)
  | ok probe =>
    refine Prog.Ends.bind (Prog.Ends.ofExcept ?_)
    cases hvalid : validateProbeRecord probe with
    | error e => exact hfails e w₃ hv₃ (validate_expected hvalid)
    | ok _ =>
      have hlater : provider.Unlocked active others w₃ := hunlocked.later hu₃
      refine Prog.Ends.bind ((ends_verify env hlater probe).mono fun r w₄ hr => ?_)
      obtain ⟨hv₄,_,_,hfailed⟩ := hr
      rw [hv₃] at hv₄
      cases r with
      | error e => exact hfails e w₄ hv₄ (hfailed e rfl).1
      | ok _ => exact Prog.Ends.throw (hfails _ w₄ hv₄ (by simp [Expected]))

theorem ends_ensureReady (hc : crypto.Correct) {w : VaultWorld}
    (h : provider.Keyring crypto active others w) :
    Prog.Ends (GuardRun crypto env provider active others w) (ensureReady env crypto provider)
      w := by
  refine Prog.Ends.bind ((h.unlocks env).mono fun r w₁ hr => ?_)
  obtain ⟨hsame,hcalls,⟨rfl,hunlocked⟩ | ⟨e,rfl,hu,hreads,hfail⟩⟩ := hr
  · refine Prog.Ends.bind ((ends_readiness env w₁).mono fun r w₂ hr => ?_)
    rw [hcalls, hsame.inTransaction] at hr
    obtain ⟨hv,hu,hr⟩ := hr
    have hvault : w₂.vault = w.vault := hv.trans hsame.vault
    obtain ⟨rfl,hwritable⟩ | ⟨rfl,_,hreadonly⟩ | ⟨e,rfl,hin,hreadonly,hfail⟩ := hr
    · exact ends_writable env hc hvault (hunlocked.later hu) hwritable
    · exact ends_unwritable env hvault (hunlocked.later hu) hreadonly
    · refine .of_error env (fun _ _ h => hvault ▸ h) (fun _ _ => hvault) (fun hanswered => ?_) ?_
      · rcases hanswered.ready with h | h | h
        · simp [hin] at h
        · simp [hreadonly] at h
        · simp [hfail] at h
      · intro _ hhealthy _
        simp [hhealthy.calm _] at hfail
  · refine .of_error env (fun _ _ h => hsame.vault ▸ h) (fun _ _ => hsame.vault)
      (fun hanswered => ?_) ?_
    · simp [hanswered.metadata hreads] at hfail
    · intro _ hhealthy _
      simp [hhealthy.calm _] at hfail

/-- Without its key the guard does nothing. -/
theorem ends_ensureReady_locked {w : VaultWorld}
    (h : ∀ active others, ¬provider.Keyring crypto active others w) :
    Prog.Ends (fun r w' => w'.vault = w.vault ∧ ∃ e, r = .error e ∧
        (Answered env provider w → Expected e)) (ensureReady env crypto provider) w := by
  refine Prog.Ends.bind ((ends_getActiveKey_locked env h).mono fun r w₁ hr => ?_)
  obtain ⟨hsame,e,rfl,hkind⟩ := hr
  exact ⟨hsame.vault,e,rfl,fun hanswered => by simp [Expected, hkind hanswered.metadata]⟩

end Steps

/-- The guard passes only if the storage can be written and the stored probe opens with the
keyring. On read-only storage it writes nothing. Unless a call fails whose errors are not
translated, it raises its own errors or that the key is not configured. With a usable keyring
what it stores opens, and a run on a healthy store that holds only what opens succeeds. -/
theorem startup_guard_sound (env : VaultEnv) {crypto : VaultCrypto} (hc : crypto.Correct)
    (provider : VaultKeyProvider) (w : VaultWorld) :
    let run := (ensureReady env crypto provider).run w
    (run.1 = .ok () → ∃ active others, provider.Keyring crypto active others w ∧
      Writable env provider w ∧ ∃ probe, Dict.get? run.2.vault.probes probeName = some probe ∧
        ProbeReads crypto (active::others) run.2.vault.deks probe) ∧
    (w.inTransaction = false → env.readonly (readyCall provider w) = true →
      run.2.vault = w.vault) ∧
    (∀ e, run.1 = .error e → Answered env provider w → Expected e) ∧
    ∀ active others, provider.Keyring crypto active others w → UsableKeys crypto active others →
      (env.Random → StoredOpens crypto (active::others) w.vault →
        StoredOpens crypto (active::others) run.2.vault) ∧
      (StoredOpens crypto (active::others) run.2.vault → ∀ env' provider' w',
        w'.vault = run.2.vault → VaultKeyProvider.Keyring crypto active others w' provider' →
          Healthy env' → ((ensureReady env' crypto provider').run w').1 = .ok ()) := by
  dsimp only
  have hrecover : ∀ active others, UsableKeys crypto active others → ∀ v,
      StoredOpens crypto (active::others) v → ∀ env' provider' w', w'.vault = v →
        VaultKeyProvider.Keyring crypto active others w' provider' → Healthy env' →
          ((ensureReady env' crypto provider').run w').1 = .ok () := by
    rintro active others hkeys v hstored env' provider' w' rfl hkeyring hhealthy
    exact (ends_ensureReady env' hc hkeyring).succeeds hkeys hhealthy hstored
  by_cases hexists : ∃ active others, provider.Keyring crypto active others w
  · obtain ⟨active,others,hkeyring⟩ := hexists
    have hrun := ends_ensureReady env hc hkeyring
    refine ⟨fun hok => ⟨active,others,hkeyring,hrun.ready hok⟩,hrun.untouched,hrun.expected,?_⟩
    intro active' others' hkeyring' hkeys
    have hrun' := ends_ensureReady env hc hkeyring'
    exact ⟨hrun'.opens hkeys,hrecover active' others' hkeys _⟩
  · have hlocked : ∀ active others, ¬provider.Keyring crypto active others w :=
      fun active others h => hexists ⟨active,others,h⟩
    obtain ⟨hvault,e,herror,hexpected⟩ := ends_ensureReady_locked env hlocked
    refine ⟨fun hok => ?_,fun _ _ => hvault,fun e' he => ?_,fun active others h => ?_⟩
    · rw [herror] at hok
      cases hok
    · rw [herror] at he
      cases he
      exact hexpected
    · exact absurd h (hlocked active others)

def sampleKey (version : String) : VaultMasterKey :=
  ⟨version,"AAAAAAAAAAAAAAAAAAAAAAAAAAAAAAAAAAAAAAAAAAA=",true⟩

/-- The first run of the guard initialises an empty vault. -/
theorem startup_guard_sound_first_run :
    ∃ active others, VaultKeyProvider.Keyring .transparent active others .empty
        (.static (sampleKey "k") []) ∧
      Writable .quiet (.static (sampleKey "k") []) .empty ∧
      ∃ probe, Dict.get? ((ensureReady .quiet .transparent (.static (sampleKey "k") [])).run
          .empty).2.vault.probes probeName = some probe ∧
        ProbeReads .transparent (active::others)
          ((ensureReady .quiet .transparent (.static (sampleKey "k") [])).run .empty).2.vault.deks
          probe :=
  (startup_guard_sound .quiet VaultCrypto.transparent_correct (.static (sampleKey "k") [])
    .empty).1 rfl

def doubledKey : VaultMasterKey :=
  ⟨"k","BAAAAAAAAAAAAAAAAAAAAAAAAAAAAAAAAAAAAAAAAAA=",false⟩

/-- Without a passphrase or with a malformed key nothing is ever stored, and every run fails. An
active key without a version, or one that shares it, opens what it stored, and the run fails. -/
theorem unusable_keyring_never_ready :
    let guard := fun provider => (ensureReady .quiet .transparent provider).run
    (∀ provider ∈ [.unsealed 0 none,.static ⟨"k","short",true⟩ []],
      (guard provider .empty).1.isOk = false ∧ (guard provider .empty).2.vault.deks.rows = [] ∧
        (guard provider .empty).2.vault.probes = [] ∧
        (guard provider (guard provider .empty).2).1.isOk = false) ∧
    ∀ key provider, (key,provider) ∈ [(sampleKey "",.static (sampleKey "") []),
        (sampleKey "k",.static (sampleKey "k") [doubledKey])] →
      (guard provider .empty).1.isOk = false ∧
        (∃ d plain probe, (guard provider .empty).2.vault.deks.rows = [d] ∧
          Opens .transparent key d plain ∧
          (guard provider .empty).2.vault.probes = [(probeName,probe)] ∧
          ProbeOpens .transparent key (guard provider .empty).2.vault.deks probe) ∧
        (guard provider (guard provider .empty).2).1.isOk = false := by
  constructor
  · simp only [List.forall_mem_cons]
    exact ⟨⟨rfl,rfl,rfl,rfl⟩,⟨rfl,rfl,rfl,rfl⟩,nofun⟩
  · intro key provider h
    rcases List.mem_pair.mp h with h | h
    · cases h
      exact ⟨rfl,⟨_,_,_,rfl,rfl,rfl,_,rfl,_,rfl,rfl⟩,rfl⟩
    · cases h
      exact ⟨rfl,⟨_,_,_,rfl,rfl,rfl,_,rfl,_,rfl,rfl⟩,rfl⟩

end VaultStartupGuard

end NexusEtl
