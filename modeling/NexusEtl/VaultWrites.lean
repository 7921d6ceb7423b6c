import NexusEtl.KeyConsistency

/-!
# What a write to the vault guarantees

Nothing is assumed of the vault, of the keys of the provider or of what fails. A
write stores every secret of the call so that it opens through a stored data key
and a key of the provider, or it leaves the secrets and the data keys as they
were. Over any sequence of writes there is one active data key at most, and none
is lost.
-/

set_option autoImplicit false

namespace NexusEtl
open NexusEtl.Library

/-- The provider has the key, now that it was asked for its keys. -/
def VaultKeyProvider.Has (w : VaultWorld) (key : VaultMasterKey) : VaultKeyProvider → Prop
  | .static first others => key ∈ first::others
  | .unsealed id _ => w.unsealed id = some key

/-- The secret is stored under its scope, and opens through a stored data key and a key of the
provider. -/
def SecretStored (crypto : VaultCrypto) (provider : VaultKeyProvider) (w : VaultWorld)
    (dataset matchKey : String) (runId : Option String) (secret : String × String) : Prop :=
  ∃ r ∈ w.vault.secrets.rows, r.scope = ⟨dataset,secret.1,"v1",
      crypto.sha256 (locatorText dataset secret.1 matchKey "v1"),runId.getD ""⟩ ∧
    ∃ d ∈ w.vault.deks.rows, d.dekVersion = r.dekVersion ∧
      ∃ key plain, provider.Has w key ∧ Opens crypto key d plain ∧
        crypto.fernet.decryptSecret r.ciphertext plain r.cipherAlgo = .ok secret.2

/-- One data key at most is active. -/
def DekTable.OneActive (t : DekTable) : Prop :=
  ∀ d ∈ t.rows, ∀ d' ∈ t.rows, d.isActive = true → d'.isActive = true → d = d'

def DekTable.HasVersion (t : DekTable) (version : String) : Prop :=
  ∃ d ∈ t.rows, d.dekVersion = version

/-- What writes make of a vault: no data key is lost, one at most is active if that was so, and a
secret that is not an old one has its data key. -/
structure VaultGrows (v v' : Vault) : Prop where
  versions : ∀ version, v.deks.HasVersion version → v'.deks.HasVersion version
  active : v.deks.OneActive → v'.deks.OneActive
  secrets : ∀ r ∈ v'.secrets.rows, r ∈ v.secrets.rows ∨ v'.deks.HasVersion r.dekVersion

section Growing

theorem VaultGrows.refl (v : Vault) : VaultGrows v v := ⟨fun _ h => h,id,fun _ h => .inl h⟩

theorem VaultGrows.of_eq {v v' : Vault} (h : v' = v) : VaultGrows v v' := h ▸ .refl v

theorem VaultGrows.trans {a b c : Vault} (h : VaultGrows a b) (h' : VaultGrows b c) :
    VaultGrows a c := by
  refine ⟨fun version hv => h'.versions version (h.versions version hv),
    fun hone => h'.active (h.active hone),fun r hr => ?_⟩
  rcases h'.secrets r hr with hold | hstored
  · exact (h.secrets r hold).imp_right (h'.versions _)
  · exact .inr hstored

theorem DekTable.oneActive_iff {t : DekTable} : t.OneActive ↔
    ∀ version version', t.ActiveVersion version → t.ActiveVersion version' →
      version = version' := by
  constructor
  · rintro h version version' ⟨d,hd,rfl,ha⟩ ⟨d',hd',rfl,ha'⟩
    rw [h d hd d' hd' ha ha']
  · intro h d hd d' hd' ha ha'
    exact List.inj_on_of_nodup_map t.versions hd hd' (h _ _ ⟨d,hd,rfl,ha⟩ ⟨d',hd',rfl,ha'⟩)

theorem DekTable.upsertDek_oneActive {t : DekTable} (h : t.OneActive) (record : VaultDekRecord) :
    (t.upsertDek record).OneActive := by
  rw [DekTable.oneActive_iff] at h ⊢
  intro version version' hv hv'
  rw [DekTable.activeVersion_upsertDek] at hv hv'
  by_cases ha : record.isActive = true
  · rw [if_pos ha] at hv hv'
    rw [hv, hv']
  · rw [if_neg ha] at hv hv'
    exact h version version' hv.1 hv'.1

theorem DekTable.upsertDek_hasVersion {t : DekTable} {version : String}
    (h : t.HasVersion version) (record : VaultDekRecord) :
    (t.upsertDek record).HasVersion version := by
  obtain ⟨d,hd,rfl⟩ := h
  by_cases hv : d.dekVersion = record.dekVersion
  · exact ⟨_,DekTable.mem_upsertDek.mpr (.inl ⟨d,hd,hv,rfl⟩),hv.symm⟩
  · exact ⟨_,DekTable.mem_upsertDek.mpr (.inr (.inl ⟨d,hd,hv,rfl⟩)),
      (DekTable.othersAfter_keepsKey record d).version⟩

theorem VaultGrows.upsertDek (v : Vault) (record : VaultDekRecord) :
    VaultGrows v { v with deks := v.deks.upsertDek record } :=
  ⟨fun _ h => DekTable.upsertDek_hasVersion h record,
    fun h => DekTable.upsertDek_oneActive h record,fun _ hr => .inl hr⟩

theorem VaultGrows.upsertSecret (v : Vault) {record : VaultSecretRecord}
    (h : v.deks.HasVersion record.dekVersion) :
    VaultGrows v { v with secrets := v.secrets.upsert record } := by
  refine ⟨fun _ h => h,id,fun r hr => ?_⟩
  rcases SecretTable.mem_upsert.mp hr with ⟨hr,_⟩ | ⟨old,_,_,rfl⟩ | ⟨_,rfl⟩
  · exact .inl hr
  · exact .inr h
  · exact .inr h

end Growing

section Providers

variable (env : VaultEnv) {crypto : VaultCrypto}

theorem VaultKeyProvider.Has.later {w w' : VaultWorld} {key : VaultMasterKey}
    {provider : VaultKeyProvider} (h : provider.Has w key) (hu : w'.unsealed = w.unsealed) :
    provider.Has w' key := by
  cases provider with
  | static first others => exact h
  | unsealed id passphrase =>
    unfold Has at h ⊢
    rw [hu]
    exact h

/-- A provider that has unsealed its key gives it again. -/
theorem run_getActiveKey_unsealed {id : Nat} {passphrase : Option String} {key : VaultMasterKey}
    {w : VaultWorld} (h : w.unsealed id = some key) :
    (VaultKeyProvider.getActiveKey env crypto (.unsealed id passphrase)).run w = (.ok key,w) := by
  unfold VaultKeyProvider.getActiveKey VaultKeyProvider.cached
  rw [Prog.run_bind, Prog.run_atomic, Prog.andThen_ok]
  simp only [h]
  rfl

theorem ends_getActiveKey (provider : VaultKeyProvider) (w : VaultWorld) :
    Prog.Ends (fun r w' => SameVault w w' ∧ ∀ key, r = .ok key → provider.Has w' key)
      (provider.getActiveKey env crypto) w := by
  cases provider with
  | static first others =>
    refine Prog.Ends.pure ⟨.refl w,fun key hkey => ?_⟩
    cases hkey
    exact List.mem_cons_self
  | unsealed id passphrase =>
    cases hkept : w.unsealed id with
    | some key =>
      rw [Prog.Ends, run_getActiveKey_unsealed env hkept]
      refine ⟨.refl w,fun key hkey => ?_⟩
      cases hkey
      exact hkept
    | none =>
      refine Prog.Ends.bind (Prog.Ends.atomic ?_)
      simp only [hkept]
      have hload : Prog.Ends (fun _ w' => SameVault w w')
          (VaultKeyProvider.loadActiveKey env crypto passphrase) w :=
        ends_loadActiveKey_same env passphrase w
      refine Prog.Ends.bind (hload.mono fun r w₁ hsame => ?_)
      cases r with
      | error e => exact ⟨hsame,fun key hkey => by cases hkey⟩
      | ok key =>
        refine Prog.Ends.bind (Prog.Ends.atomic (Prog.Ends.pure
          ⟨⟨hsame.vault,hsame.inTransaction⟩,fun key' hkey => ?_⟩))
        cases hkey
        exact Function.update_self ..

theorem ends_candidates_has (provider : VaultKeyProvider) (version : String) (w : VaultWorld) :
    Prog.Ends (fun r w' => SameVault w w' ∧ ∀ keys, r = .ok keys →
        ∀ key ∈ keys, provider.Has w' key)
      (provider.candidateMasterKeys env crypto version) w := by
  cases provider with
  | static first others =>
    refine Prog.Ends.pure ⟨.refl w,fun keys hkeys key hkey => ?_⟩
    cases hkeys
    rcases List.mem_append.mp hkey with hhinted | hother
    · have hfound := List.mem_of_find?_eq_some (Option.mem_toList.mp hhinted)
      exact List.mem_reverse.mp hfound
    · exact (List.mem_filter.mp hother).1
  | unsealed id passphrase =>
    refine Prog.Ends.bind (Prog.Ends.bind ((ends_getActiveKey env _ w).mono fun r w₁ hr => ?_))
    obtain ⟨hsame,hhas⟩ := hr
    cases r with
    | error e => exact ⟨hsame,fun keys hkeys => by cases hkeys⟩
    | ok active =>
      have hkept := hhas active rfl
      refine Prog.Ends.pure (Prog.Ends.bind (Prog.Ends.bind ?_))
      rw [Prog.Ends, run_getActiveKey_unsealed env hkept]
      refine Prog.Ends.pure (Prog.Ends.pure ⟨hsame,fun keys hkeys key hkey => ?_⟩)
      cases hkeys
      have heq : key = active := by
        by_cases hv : active.keyVersion = version
        · simpa [hv] using hkey
        · simpa [hv] using hkey
      subst heq
      exact hkept

theorem opens_of_unwrapWith {d : VaultDekRecord} {failed : VaultError}
    {keys : List VaultMasterKey} {plain : String}
    (h : unwrapWith crypto d failed keys = .ok plain) :
    ∃ key ∈ keys, Opens crypto key d plain := by
  induction keys with
  | nil => cases h
  | cons key keys ih =>
    unfold unwrapWith at h
    split at h
    · rename_i dek hopen
      cases h
      exact ⟨key,List.mem_cons_self,hopen⟩
    · split at h
      · obtain ⟨other,hother,hopens⟩ := ih h
        exact ⟨other,.tail _ hother,hopens⟩
      · cases h

/-- What stands in the table under the version of a data key that was just written. -/
theorem DekTable.upsertDek_stored (t : DekTable) (d : VaultDekRecord) :
    ∃ createdAt, { d with createdAt := createdAt } ∈ (t.upsertDek d).rows := by
  by_cases hmem : d.dekVersion ∈ t.rows.map VaultDekRecord.dekVersion
  · obtain ⟨old,hold,hversion⟩ := List.mem_map.mp hmem
    exact ⟨old.createdAt,DekTable.mem_upsertDek.mpr (.inl ⟨old,hold,hversion,rfl⟩)⟩
  · exact ⟨d.createdAt,DekTable.mem_upsertDek.mpr (.inr (.inr ⟨hmem,rfl⟩))⟩

/-- The data key of a write is stored, and a key of the provider opens it. -/
theorem ends_ensureActiveDek_opens (hc : crypto.Correct) (provider : VaultKeyProvider)
    (errors : DekErrors) (now : String) {activeKey : VaultMasterKey} {w : VaultWorld}
    (hactive : provider.Has w activeKey) :
    Prog.Ends (fun r w' => VaultGrows w.vault w'.vault ∧ ∀ d plain, r = .ok (d,plain) →
        ∃ d' ∈ w'.vault.deks.rows, d'.dekVersion = d.dekVersion ∧
          ∃ key, provider.Has w' key ∧ Opens crypto key d' plain)
      (ensureActiveDek env crypto provider errors activeKey now) w := by
  refine Prog.Ends.bind (ends_mapError ((ends_read env _ w).mono fun r w₁ hr => ?_))
  obtain ⟨⟨hsame,hu⟩,rfl | ⟨e,rfl,_⟩⟩ := hr
  · simp only [Except.mapError]
    cases hget : w.vault.deks.getActiveDek with
    | some d =>
      refine Prog.Ends.bind (Prog.Ends.bind ((ends_candidates_has env provider _ w₁).mono
        fun r w₂ hr => ?_))
      obtain ⟨hsame₂,hhas⟩ := hr
      have hvault := hsame₂.vault.trans hsame.vault
      cases r with
      | error e => exact ⟨.of_eq hvault,fun _ _ h => by cases h⟩
      | ok keys =>
        refine Prog.Ends.ofExcept ?_
        cases hopen : unwrapWith crypto d errors.unwrapFailed keys with
        | error e => exact ⟨.of_eq hvault,fun _ _ h => by cases h⟩
        | ok plain =>
          refine Prog.Ends.pure ⟨.of_eq hvault,fun d' plain' h => ?_⟩
          cases h
          obtain ⟨key,hkey,hopens⟩ := opens_of_unwrapWith hopen
          have hd := (DekTable.getActiveDek_mem hget).1
          exact ⟨d,hvault ▸ hd,rfl,key,hhas keys rfl key hkey,hopens⟩
    | none =>
      refine Prog.Ends.bind ((ends_draw w₁).mono fun r w₂ hr => ?_)
      obtain ⟨hsame₂,hu₂,i,rfl⟩ := hr
      refine Prog.Ends.bind ((ends_draw w₂).mono fun r w₃ hr => ?_)
      obtain ⟨hsame₃,hu₃,nonce,rfl⟩ := hr
      have hsame' := (hsame.trans hsame₂).trans hsame₃
      refine Prog.Ends.bind (ends_mapError (Prog.Ends.ofExcept ?_))
      by_cases hk : crypto.fernet.validKey activeKey.keyMaterial = true
      · rw [Fernet.wrapDek_of_valid hk]
        refine Prog.Ends.bind ((ends_draw w₃).mono fun r w₄ hr => ?_)
        obtain ⟨hsame₄,hu₄,j,rfl⟩ := hr
        refine Prog.Ends.bind (ends_mapError ((ends_writeUnit env _ w₄).mono fun r w₅ hr => ?_))
        have hbefore := (hsame'.trans hsame₄).vault
        obtain ⟨hu₅,_,⟨rfl,hv⟩ | ⟨e,rfl,hv,_⟩⟩ := hr
        · refine Prog.Ends.pure ⟨by rw [hv, ← hbefore]; exact .upsertDek _ _,fun d plain h => ?_⟩
          cases h
          obtain ⟨createdAt,hstored⟩ := w₄.vault.deks.upsertDek_stored
            ⟨"dek_" ++ env.uuid j,crypto.fernet.encrypt nonce activeKey.keyMaterial
              (urlsafeB64 (env.urandom i)),fernetV1,activeKey.keyVersion,true,now,now⟩
          have hdeks := congrArg (fun v => v.deks.rows) hv
          dsimp only at hdeks
          rw [← hdeks] at hstored
          refine ⟨_,hstored,rfl,activeKey,
            hactive.later (hu₅.trans (hu₄.trans (hu₃.trans (hu₂.trans hu)))),?_⟩
          unfold Opens
          rw [hc.fernet.unwrapDek rfl hk, if_pos hk, if_pos rfl]
        · exact ⟨.of_eq (hv.trans hbefore),fun _ _ h => by cases h⟩
      · have hrefused : ∃ e, crypto.fernet.wrapDek nonce (urlsafeB64 (env.urandom i))
            activeKey.keyMaterial fernetV1 = .error e := by
          simp [Fernet.wrapDek, ensureAlgo, Fernet.checkMasterKey, hk, bind, Except.bind]
        obtain ⟨e,he⟩ := hrefused
        rw [he]
        exact ⟨.of_eq hsame'.vault,fun _ _ h => by cases h⟩
  · exact ⟨.of_eq hsame.vault,fun _ _ h => by cases h⟩

end Providers

section Secrets

variable (env : VaultEnv) {crypto : VaultCrypto} {provider : VaultKeyProvider}
  {dataset matchKey now : String} {runId : Option String} {activeKey : VaultMasterKey}

theorem SecretStored.later {w w' : VaultWorld} {secret : String × String}
    (h : SecretStored crypto provider w dataset matchKey runId secret)
    (hdeks : w'.vault.deks = w.vault.deks) (hu : w'.unsealed = w.unsealed)
    (hrows : ∀ r ∈ w.vault.secrets.rows, r.field = secret.1 → r ∈ w'.vault.secrets.rows) :
    SecretStored crypto provider w' dataset matchKey runId secret := by
  obtain ⟨r,hr,hscope,d,hd,hversion,key,plain,hkey,hopens,hplain⟩ := h
  have hfield : r.field = secret.1 := congrArg SecretScope.field hscope
  exact ⟨r,hrows r hr hfield,hscope,d,hdeks ▸ hd,hversion,key,plain,hkey.later hu,hopens,hplain⟩

/-- What stands in the table under the scope of a secret that was just written. -/
theorem SecretTable.upsert_stored (t : SecretTable) (record : VaultSecretRecord) :
    ∃ r ∈ (t.upsert record).rows, r.scope = record.scope ∧ r.dekVersion = record.dekVersion ∧
      r.ciphertext = record.ciphertext ∧ r.cipherAlgo = record.cipherAlgo := by
  by_cases hmem : record.scope ∈ t.rows.map fun r => r.scope
  · obtain ⟨old,hold,hscope⟩ := List.mem_map.mp hmem
    exact ⟨_,SecretTable.mem_upsert.mpr (.inr (.inl ⟨old,hold,hscope,rfl⟩)),hscope,rfl,rfl,rfl⟩
  · exact ⟨_,SecretTable.mem_upsert.mpr (.inr (.inr ⟨hmem,rfl⟩)),rfl,rfl,rfl,rfl⟩

theorem encryptSecret_inv {nonce : Nat} {plaintext dek ciphertext : String}
    (h : crypto.fernet.encryptSecret nonce plaintext dek fernetV1 = .ok ciphertext) :
    crypto.fernet.validKey dek = true ∧ ciphertext = crypto.fernet.encrypt nonce dek plaintext := by
  by_cases hk : crypto.fernet.validKey dek = true
  · rw [Fernet.encryptSecret_of_valid hk] at h
    cases h
    exact ⟨hk,rfl⟩
  · simp [Fernet.encryptSecret, ensureAlgo, Fernet.checkDek, hk, bind, Except.bind] at h

/-- One secret is stored under the data key, and the rows of other fields stay. -/
theorem ends_storeSecret_stored (hc : crypto.Correct) {d d' : VaultDekRecord} {plain : String}
    {key : VaultMasterKey} {w : VaultWorld} (hd' : d' ∈ w.vault.deks.rows)
    (hversion : d'.dekVersion = d.dekVersion) (hkey : provider.Has w key)
    (hopens : Opens crypto key d' plain) (secret : String × String) :
    Prog.Ends (fun r w' => w'.unsealed = w.unsealed ∧ w'.vault.deks = w.vault.deks ∧
      VaultGrows w.vault w'.vault ∧ (r = .ok () → SecretStored crypto provider w' dataset matchKey runId secret ∧
        ∀ row ∈ w.vault.secrets.rows, row.field ≠ secret.1 → row ∈ w'.vault.secrets.rows))
      (SecretVaultWriteService.storeSecret env crypto dataset matchKey runId now activeKey (d,plain)
        secret) w := by
  unfold SecretVaultWriteService.storeSecret
  rw [buildLocatorHash_v1]
  refine Prog.Ends.bind (Prog.Ends.ofExcept (Prog.Ends.bind ((ends_draw w).mono fun r w₁ hr => ?_)))
  obtain ⟨hsame,hu,nonce,rfl⟩ := hr
  refine Prog.Ends.bind (Prog.Ends.ofExcept ?_)
  cases hcipher : crypto.fernet.encryptSecret nonce secret.2 plain fernetV1 with
  | error e => exact ⟨hu,congrArg _ hsame.vault,.of_eq hsame.vault,fun h => by cases h⟩
  | ok ciphertext =>
    obtain ⟨hplain,rfl⟩ := encryptSecret_inv hcipher
    refine (ends_write env _ w₁).mono fun r w₂ hr => ?_
    obtain ⟨hu',_,⟨rfl,hv⟩ | ⟨e,rfl,hv,_⟩⟩ := hr
    · rw [hsame.vault] at hv
      refine ⟨hu'.trans hu,by rw [hv],?_,fun _ => ⟨?_,fun row hrow hfield => ?_⟩⟩
      · rw [hv]
        exact .upsertSecret _ ⟨d',hd',hversion⟩
      · obtain ⟨row,hrow,hscope,hdek,htext,halgo⟩ := w.vault.secrets.upsert_stored
          ⟨dataset,secret.1,some matchKey,
            crypto.sha256 (locatorText dataset secret.1 matchKey "v1"),"v1",runId,
            crypto.fernet.encrypt nonce plain secret.2,fernetV1,activeKey.keyVersion,d.dekVersion,
            now,now⟩
        refine ⟨row,by rw [hv]; exact hrow,hscope,d',by rw [hv]; exact hd',
          hversion.trans hdek.symm,key,plain,hkey.later (hu'.trans hu),hopens,?_⟩
        rw [htext, halgo]
        exact hc.fernet.decryptSecret rfl hplain nonce secret.2
      · rw [hv]
        refine SecretTable.mem_upsert.mpr (.inl ⟨hrow,fun hscope => ?_⟩)
        exact hfield (congrArg SecretScope.field hscope)
    · exact ⟨hu'.trans hu,by rw [hv, hsame.vault],.of_eq (hv.trans hsame.vault),
        fun h => by cases h⟩

/-- The secrets of a call, whose fields are distinct, are stored one after the other. -/
theorem ends_storeSecrets_stored (hc : crypto.Correct) {d d' : VaultDekRecord} {plain : String}
    {key : VaultMasterKey} (hversion : d'.dekVersion = d.dekVersion)
    (hopens : Opens crypto key d' plain) (secrets : List (String × String))
    (hfields : (Dict.keys secrets).Nodup) {w : VaultWorld} (hd' : d' ∈ w.vault.deks.rows)
    (hkey : provider.Has w key) :
    Prog.Ends (fun r w' => w'.unsealed = w.unsealed ∧ w'.vault.deks = w.vault.deks ∧
      VaultGrows w.vault w'.vault ∧ (r = .ok () →
        (∀ secret ∈ secrets, SecretStored crypto provider w' dataset matchKey runId secret) ∧
        ∀ row ∈ w.vault.secrets.rows, row.field ∉ Dict.keys secrets →
          row ∈ w'.vault.secrets.rows))
      (SecretVaultWriteService.storeSecrets env crypto dataset matchKey runId now activeKey
        (d,plain) secrets) w := by
  induction secrets generalizing w with
  | nil => exact Prog.Ends.pure ⟨rfl,rfl,.refl _,fun _ => ⟨by simp,fun row hrow _ => hrow⟩⟩
  | cons secret secrets ih =>
    obtain ⟨hnew,hrest⟩ := List.nodup_cons.mp hfields
    refine Prog.Ends.bind ((ends_storeSecret_stored env hc hd' hversion hkey hopens
      secret).mono fun r w₁ hr => ?_)
    obtain ⟨hu,hdeks,hgrows,hok⟩ := hr
    cases r with
    | error e => exact ⟨hu,hdeks,hgrows,fun h => by cases h⟩
    | ok _ =>
      obtain ⟨hstored,hkept⟩ := hok rfl
      refine (ih hrest (hdeks ▸ hd') (hkey.later hu)).mono fun r w₂ hr => ?_
      obtain ⟨hu₂,hdeks₂,hgrows₂,hok₂⟩ := hr
      refine ⟨hu₂.trans hu,hdeks₂.trans hdeks,hgrows.trans hgrows₂,fun hr => ?_⟩
      obtain ⟨hstored₂,hkept₂⟩ := hok₂ hr
      refine ⟨List.forall_mem_cons.mpr ⟨?_,hstored₂⟩,fun row hrow hfield => ?_⟩
      · refine hstored.later hdeks₂ hu₂ fun row hrow hfield => hkept₂ row hrow ?_
        exact hfield ▸ hnew
      · obtain ⟨hne,hother⟩ := not_or.mp fun hin => hfield (List.mem_cons.mpr hin)
        exact hkept₂ row (hkept row hrow hne) hother

theorem translate_kind (e : VaultError) :
    (SecretVaultWriteService.translate e).kind = .secretStore := by
  unfold SecretVaultWriteService.translate
  split
  · assumption
  · rfl
  · rfl
  · rfl
  · rfl
  · rfl
  · rfl

/-- A call stores every secret, or leaves the vault as it was and raises a store error. -/
theorem ends_putMany_atomic (hc : crypto.Correct) (provider : VaultKeyProvider)
    (dataset matchKey : String) {secrets : Dict String String}
    (hfields : (Dict.keys secrets).Nodup) (runId : Option String) (w : VaultWorld) :
    Prog.Ends (fun r w' => (r = .ok () ∧ VaultGrows w.vault w'.vault ∧ ∀ secret ∈ secrets,
        SecretStored crypto provider w' dataset (Text.strip matchKey) runId secret) ∨
      ∃ e, r = .error e ∧ e.kind = .secretStore ∧ w'.vault = w.vault)
      (SecretVaultWriteService.putMany env crypto provider dataset matchKey secrets runId) w := by
  unfold SecretVaultWriteService.putMany
  by_cases hempty : secrets = []
  · subst hempty
    rw [if_pos rfl]
    exact Prog.Ends.pure (.inl ⟨rfl,.refl _,by simp⟩)
  rw [if_neg hempty]
  by_cases hblank : Text.strip matchKey = ""
  · rw [if_pos hblank]
    exact Prog.Ends.throw (.inr ⟨_,rfl,rfl,rfl⟩)
  rw [if_neg hblank]
  refine Prog.Ends.bind (Prog.Ends.bind ((ends_draw w).mono fun r w₀ hr => ?_))
  obtain ⟨hsame₀,hu₀,i,rfl⟩ := hr
  refine Prog.Ends.pure (ends_mapError ?_)
  by_cases hnested : w₀.inTransaction = true
  · refine Prog.Ends.atomic ?_
    rw [if_pos hnested]
    exact .inr ⟨_,rfl,translate_kind _,hsame₀.vault⟩
  refine ends_transaction env (by simpa using hnested) (fun e w' hsame _ =>
    .inr ⟨_,rfl,translate_kind _,hsame.vault.trans hsame₀.vault⟩) ?_
  refine Prog.Ends.bind ((ends_getActiveKey env provider _).mono fun r w₁ hr => ?_)
  obtain ⟨hsame₁,hhas⟩ := hr
  -- whatever fails from here on, the transaction takes back
  have hback : ∀ e w', SameVault w₀ w' → ∃ e', ((.error e : Except VaultError Unit).mapError
      SecretVaultWriteService.translate) = .error e' ∧ e'.kind = .secretStore ∧
        w'.vault = w.vault :=
    fun e w' hsame => ⟨_,rfl,translate_kind _,hsame.vault.trans hsame₀.vault⟩
  cases r with
  | error e => exact ⟨fun e w' hsame _ => .inr (hback e w' hsame),fun a w' h => by cases h⟩
  | ok activeKey =>
    refine Prog.Ends.bind ((ends_ensureActiveDek_opens env hc provider _ _
      (hhas activeKey rfl)).mono fun r w₂ hr => ?_)
    obtain ⟨hgrows,hopened⟩ := hr
    cases r with
    | error e => exact ⟨fun e w' hsame _ => .inr (hback e w' hsame),fun a w' h => by cases h⟩
    | ok dek =>
      obtain ⟨d,plain⟩ := dek
      obtain ⟨d',hd',hversion,key,hkey,hopens⟩ := hopened d plain rfl
      refine (ends_storeSecrets_stored env hc hversion hopens secrets hfields hd'
        hkey).mono fun r w₃ hr => ?_
      obtain ⟨_,_,hgrows₃,hok⟩ := hr
      refine ⟨fun e w' hsame _ => .inr (hback e w' hsame),fun a w' hr hv hu _ =>
        .inl ⟨rfl,?_,fun secret hsecret => ?_⟩⟩
      · rw [hv]
        exact (VaultGrows.of_eq (hsame₁.vault.trans hsame₀.vault)).trans (hgrows.trans hgrows₃)
      · refine ((hok hr).1 secret hsecret).later (by rw [hv]) hu fun row hrow _ => ?_
        rw [hv]
        exact hrow

end Secrets

section Runs

/-- A write to the vault, by a service or by the repository itself, and what the outside answers
it. -/
inductive VaultWriteCall
  | putMany (env : VaultEnv) (provider : VaultKeyProvider) (dataset matchKey : String)
      (secrets : Dict String String) (runId : Option String)
  | upsertDek (env : VaultEnv) (record : VaultDekRecord)

/-- The secrets of a call are a dict: a field stands in it once. -/
def VaultWriteCall.Fields : VaultWriteCall → Prop
  | .putMany _ _ _ _ secrets _ => (Dict.keys secrets).Nodup
  | .upsertDek _ _ => True

variable (crypto : VaultCrypto)

def VaultWriteCall.program : VaultWriteCall → VaultM Unit
  | .putMany env provider dataset matchKey secrets runId =>
    SecretVaultWriteService.putMany env crypto provider dataset matchKey secrets runId
  | .upsertDek env record => env.writeUnit fun v => { v with deks := v.deks.upsertDek record }

/-- The vault after some calls, of which each may have failed. -/
def afterWrites (calls : List VaultWriteCall) (w : VaultWorld) : VaultWorld :=
  calls.foldl (fun w call => ((call.program crypto).run w).2) w

/-- One data key at most is active, and every secret has its data key. -/
structure Vault.Sound (v : Vault) : Prop where
  active : v.deks.OneActive
  stored : ∀ r ∈ v.secrets.rows, v.deks.HasVersion r.dekVersion

variable {crypto}

theorem Vault.Sound.empty : Vault.empty.Sound :=
  ⟨fun _ hd => absurd hd List.not_mem_nil,fun _ hr => absurd hr List.not_mem_nil⟩

theorem Vault.Sound.grows {v v' : Vault} (h : v.Sound) (hgrows : VaultGrows v v') : v'.Sound := by
  refine ⟨hgrows.active h.active,fun r hr => ?_⟩
  rcases hgrows.secrets r hr with hold | hstored
  · exact hgrows.versions _ (h.stored r hold)
  · exact hstored

theorem write_grows (hc : crypto.Correct) {call : VaultWriteCall} (hfields : call.Fields)
    (w : VaultWorld) : VaultGrows w.vault ((call.program crypto).run w).2.vault := by
  cases call with
  | putMany env provider dataset matchKey secrets runId =>
    rcases ends_putMany_atomic env hc provider dataset matchKey hfields runId w with
      ⟨_,hgrows,_⟩ | ⟨_,_,_,hv⟩
    · exact hgrows
    · exact .of_eq hv
  | upsertDek env record =>
    rcases ends_writeUnit env (fun v => { v with deks := v.deks.upsertDek record }) w with
      ⟨_,_,⟨_,hv⟩ | ⟨_,_,hv,_⟩⟩
    · rw [VaultWriteCall.program, hv]
      exact .upsertDek _ _
    · exact .of_eq hv

theorem afterWrites_grows (hc : crypto.Correct) {calls : List VaultWriteCall}
    (hfields : ∀ call ∈ calls, call.Fields) (w : VaultWorld) :
    VaultGrows w.vault (afterWrites crypto calls w).vault := by
  induction calls generalizing w with
  | nil => exact .refl _
  | cons call calls ih =>
    have hstep := write_grows hc (hfields call List.mem_cons_self) w
    exact hstep.trans (ih (fun call hcall => hfields call (.tail _ hcall)) _)

end Runs

/-- A call of `put_many` on any vault stores every secret or changes nothing and raises a store
error; any sequence of writes keeps the vault sound and loses no data key. -/
theorem put_many_all_or_nothing {crypto : VaultCrypto} (hc : crypto.Correct) :
    (∀ (env : VaultEnv) (provider : VaultKeyProvider) (dataset matchKey : String)
        (secrets : Dict String String) (runId : Option String) (w : VaultWorld),
      (Dict.keys secrets).Nodup →
      Prog.Ends (fun r w' => (r = .ok () ∧ ∀ secret ∈ secrets,
          SecretStored crypto provider w' dataset (Text.strip matchKey) runId secret) ∨
        ∃ e, r = .error e ∧ e.kind = .secretStore ∧
          w'.vault.secrets = w.vault.secrets ∧ w'.vault.deks = w.vault.deks)
        (SecretVaultWriteService.putMany env crypto provider dataset matchKey secrets runId) w) ∧
    ∀ (calls : List VaultWriteCall) (w : VaultWorld), (∀ call ∈ calls, call.Fields) →
      w.vault.Sound → (afterWrites crypto calls w).vault.Sound ∧
        ∀ version, w.vault.deks.HasVersion version →
          (afterWrites crypto calls w).vault.deks.HasVersion version := by
  constructor
  · intro env provider dataset matchKey secrets runId w hfields
    refine (ends_putMany_atomic env hc provider dataset matchKey hfields runId w).mono
      fun r w' hr => ?_
    rcases hr with ⟨hok,_,hstored⟩ | ⟨e,hr,hkind,hv⟩
    · exact .inl ⟨hok,hstored⟩
    · exact .inr ⟨e,hr,hkind,by rw [hv],by rw [hv]⟩
  · intro calls w hfields hsound
    have hgrows := afterWrites_grows hc hfields w
    exact ⟨hsound.grows hgrows,hgrows.versions⟩

/-- Two secrets into an empty vault with a key in memory. -/
theorem put_many_first_write : (∀ secret ∈ [("password","p1"), ("token","t1")],
      SecretStored .transparent (.static vaultKey [])
        ((SecretVaultWriteService.putMany .quiet .transparent (.static vaultKey []) "employees"
          " E1 " [("password","p1"), ("token","t1")] none).run .empty).2
        "employees" (Text.strip " E1 ") none secret) ∧
    (afterWrites .transparent [.putMany .quiet (.static vaultKey []) "employees" "E1"
        [("password","p1")] none] .empty).vault.Sound := by
  obtain ⟨hput,hrun⟩ := put_many_all_or_nothing VaultCrypto.transparent_correct
  have hok : ((SecretVaultWriteService.putMany .quiet .transparent (.static vaultKey []) "employees"
      " E1 " [("password","p1"), ("token","t1")] none).run .empty).1.isOk = true := by
    decide
  constructor
  · rcases hput .quiet (.static vaultKey []) "employees" " E1 "
      [("password","p1"), ("token","t1")] none .empty (by decide) with ⟨_,hstored⟩ | ⟨e,hr,_⟩
    · exact hstored
    · rw [hr] at hok
      cases hok
  · exact (hrun _ .empty (by simp [VaultWriteCall.Fields, Dict.keys]) Vault.Sound.empty).1

end NexusEtl
