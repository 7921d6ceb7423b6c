import NexusEtl.VaultServices

/-!
# What the vault services do

While a provider gives one key and every data key is wrapped with it, a data key
opens to what was wrapped, a stored secret to what was encrypted, and a write
either fails and changes nothing or stores every secret of the call.
-/

set_option autoImplicit false

namespace NexusEtl
open NexusEtl.Library

/-- The random bytes come in the number asked for. -/
def VaultEnv.Random (env : VaultEnv) : Prop := ∀ i, (env.urandom i).length = 32

structure VaultCrypto.Correct (crypto : VaultCrypto) : Prop where
  fernet : crypto.fernet.Correct
  kdf : crypto.kdf.Correct crypto.fernet

def VaultCrypto.transparent : VaultCrypto := ⟨Fernet.transparent,Kdf.transparent,id⟩

theorem VaultCrypto.transparent_correct : VaultCrypto.transparent.Correct :=
  ⟨Fernet.transparent_correct,Kdf.transparent_correct⟩

def vaultKey : VaultMasterKey := ⟨"mk_1",urlsafeB64 (List.replicate 32 1),true⟩

/-- The data key is the plaintext, wrapped with the master key. -/
structure WrappedUnder (crypto : VaultCrypto) (key : VaultMasterKey) (d : VaultDekRecord)
    (plain : String) : Prop where
  algo : d.wrapAlgo = fernetV1
  masterKey : crypto.fernet.validKey key.keyMaterial = true
  dataKey : crypto.fernet.validKey plain = true
  wrapped : ∃ nonce, d.wrappedDek = crypto.fernet.encrypt nonce key.keyMaterial plain

/-- The record holds the secret, under a data key that the master key opens. -/
def RecordHolds (crypto : VaultCrypto) (key : VaultMasterKey) (deks : DekTable)
    (r : VaultSecretRecord) (secret : String) : Prop :=
  r.cipherAlgo = fernetV1 ∧ ∃ d ∈ deks.rows, d.dekVersion = r.dekVersion ∧
    ∃ plain, WrappedUnder crypto key d plain ∧
      ∃ nonce, r.ciphertext = crypto.fernet.encrypt nonce plain secret

/-- All data keys are wrapped with the key, and unless there are none one is active. -/
structure DekKeys (crypto : VaultCrypto) (key : VaultMasterKey) (deks : DekTable) : Prop where
  wrapped : ∀ d ∈ deks.rows, ∃ plain, WrappedUnder crypto key d plain
  active : deks.rows = [] ∨ ∃ d ∈ deks.rows, d.isActive = true

/-- The provider has the key in memory or derives it from the metadata. -/
def VaultKeyProvider.Provides (crypto : VaultCrypto) (key : VaultMasterKey) (w : VaultWorld) :
    VaultKeyProvider → Prop
  | .static first others => first = key ∧ others = []
  | .unsealed id passphrase => w.unsealed id = some key ∨ (w.unsealed id = none ∧
      ∃ secret metadata, passphrase = some secret ∧ w.vault.metadata = some metadata ∧
        crypto.kdf.deriveKey secret metadata = .ok key)

section Unwrapping

variable {crypto : VaultCrypto} {key : VaultMasterKey}

/-- A data key under one candidate: it opens exactly if the candidate is its master key. -/
theorem WrappedUnder.unwrapWith (h : crypto.Correct) {d : VaultDekRecord} {plain : String}
    (hd : WrappedUnder crypto key d plain) (failed : VaultError) {key' : VaultMasterKey}
    (hk : crypto.fernet.validKey key'.keyMaterial = true) :
    unwrapWith crypto d failed [key'] =
      if key'.keyMaterial = key.keyMaterial then .ok plain else .error failed := by
  obtain ⟨nonce,hw⟩ := hd.wrapped
  rw [NexusEtl.unwrapWith, hw, h.fernet.unwrapDek hd.algo hd.masterKey nonce plain, if_pos hk]
  by_cases hsame : key'.keyMaterial = key.keyMaterial <;> simp [hsame, NexusEtl.unwrapWith]

theorem WrappedUnder.unique (h : crypto.Correct) {d : VaultDekRecord} {plain plain' : String}
    (hd : WrappedUnder crypto key d plain) (hd' : WrappedUnder crypto key d plain') :
    plain = plain' := by
  have hfailed : VaultError := ⟨.sqlite,"",""⟩
  have hleft := hd.unwrapWith h hfailed hd.masterKey
  rw [hd'.unwrapWith h hfailed hd.masterKey, if_pos rfl, if_pos rfl] at hleft
  exact (Except.ok.inj hleft).symm

theorem RecordHolds.unique (h : crypto.Correct) {deks : DekTable} {r : VaultSecretRecord}
    {secret secret' : String} (hr : RecordHolds crypto key deks r secret)
    (hr' : RecordHolds crypto key deks r secret') : secret = secret' := by
  obtain ⟨halgo,d,hd,hv,plain,hw,nonce,hc⟩ := hr
  obtain ⟨_,d',hd',hv',plain',hw',nonce',hc'⟩ := hr'
  obtain rfl : d = d' :=
    List.inj_on_of_nodup_map deks.versions hd hd' (hv.trans hv'.symm)
  obtain rfl := hw.unique h hw'
  have hopen := h.fernet.opens nonce plain secret hw.dataKey
  rw [← hc, hc', h.fernet.opens nonce' plain secret' hw.dataKey] at hopen
  exact (Option.some.inj hopen).symm

theorem RecordHolds.mono {deks deks' : DekTable} (hsub : ∀ d ∈ deks.rows, d ∈ deks'.rows)
    {r : VaultSecretRecord} {secret : String} (hr : RecordHolds crypto key deks r secret) :
    RecordHolds crypto key deks' r secret := by
  obtain ⟨halgo,d,hd,hrest⟩ := hr
  exact ⟨halgo,d,hsub d hd,hrest⟩

end Unwrapping

section Calls

variable (env : VaultEnv)

/-- No call of the database fails. -/
def VaultEnv.Calm : Prop := ∀ n, env.fails n = false

/-- Nothing fails, and the clock and the random values count the readings. -/
def VaultEnv.quiet : VaultEnv where
  fails _ := false
  readonly _ := false
  clock n := Nat.repr n
  urandom n := List.replicate 32 n.toUInt8
  uuid n := Nat.repr n

theorem VaultEnv.quiet_calm : VaultEnv.quiet.Calm := fun _ => rfl

theorem VaultEnv.quiet_random : VaultEnv.quiet.Random := fun _ => List.length_replicate

/-- Only what is not in the database may have changed. -/
structure SameVault (w w' : VaultWorld) : Prop where
  vault : w'.vault = w.vault
  inTransaction : w'.inTransaction = w.inTransaction

theorem SameVault.refl (w : VaultWorld) : SameVault w w := ⟨rfl,rfl⟩

theorem SameVault.trans {w w' w'' : VaultWorld} (h : SameVault w w') (h' : SameVault w' w'') :
    SameVault w w'' :=
  ⟨h'.vault.trans h.vault,h'.inTransaction.trans h.inTransaction⟩

theorem VaultEnv.not_calm {n : Nat} (h : env.fails n = true) : ¬env.Calm :=
  fun hcalm => by simp [hcalm n] at h

/-- A call that is to change the vault does so, or it fails with its error. -/
def VaultEnv.Changes (f : Vault → Vault) (failed : VaultError) (w : VaultWorld)
    (r : Except VaultError Unit) (w' : VaultWorld) : Prop :=
  (r = .ok () ∧ env.fails w.calls = false ∧
    w' = { w with vault := f w.vault, calls := w.calls + 1 }) ∨
  (r = .error failed ∧ env.fails w.calls = true ∧ w' = { w with calls := w.calls + 1 })

theorem ends_read_answers {A : Type} (f : Vault → A) (w : VaultWorld) :
    Prog.Ends (fun r w' => w' = { w with calls := w.calls + 1 } ∧
      ((r = .ok (f w.vault) ∧ env.fails w.calls = false) ∨
        (r = .error VaultEnv.readFailed ∧ env.fails w.calls = true))) (env.read f) w := by
  refine Prog.Ends.atomic ?_
  dsimp only
  split
  · rename_i h
    exact ⟨rfl,.inr ⟨rfl,h⟩⟩
  · rename_i h
    exact ⟨rfl,.inl ⟨rfl,by simpa using h⟩⟩

theorem ends_write_changes (f : Vault → Vault) (w : VaultWorld) :
    Prog.Ends (env.Changes f VaultEnv.storeFailed w) (env.write f) w := by
  refine Prog.Ends.atomic ?_
  dsimp only
  split
  · rename_i h
    exact .inr ⟨rfl,h,rfl⟩
  · rename_i h
    exact .inl ⟨rfl,by simpa using h,rfl⟩

theorem ends_writeUnit_changes (f : Vault → Vault) (w : VaultWorld) :
    Prog.Ends (env.Changes f (if !w.inTransaction && env.boundary w.calls then VaultEnv.sqliteError
      else VaultEnv.storeFailed) w) (env.writeUnit f) w := by
  refine Prog.Ends.atomic ?_
  by_cases hfail : env.fails w.calls = true
  · rw [if_pos hfail]
    exact .inr ⟨rfl,hfail,rfl⟩
  · rw [if_neg hfail]
    exact .inl ⟨rfl,by simpa using hfail,rfl⟩

theorem ends_read {A : Type} (f : Vault → A) (w : VaultWorld) :
    Prog.Ends (fun r w' => (SameVault w w' ∧ w'.unsealed = w.unsealed) ∧
      (r = .ok (f w.vault) ∨ ∃ e, r = .error e ∧ ¬ env.Calm)) (env.read f) w := by
  refine (ends_read_answers env f w).mono fun r w' hr => ?_
  obtain ⟨rfl,⟨rfl,_⟩ | ⟨rfl,hfail⟩⟩ := hr
  · exact ⟨⟨⟨rfl,rfl⟩,rfl⟩,.inl rfl⟩
  · exact ⟨⟨⟨rfl,rfl⟩,rfl⟩,.inr ⟨_,rfl,env.not_calm hfail⟩⟩

theorem VaultEnv.Changes.vault {f : Vault → Vault} {failed : VaultError} {w w' : VaultWorld}
    {r : Except VaultError Unit} (h : env.Changes f failed w r w') :
    w'.unsealed = w.unsealed ∧ w'.inTransaction = w.inTransaction ∧
      ((r = .ok () ∧ w'.vault = f w.vault) ∨ ∃ e, r = .error e ∧ w'.vault = w.vault ∧
        ¬ env.Calm) := by
  obtain ⟨rfl,_,rfl⟩ | ⟨rfl,hfail,rfl⟩ := h
  · exact ⟨rfl,rfl,.inl ⟨rfl,rfl⟩⟩
  · exact ⟨rfl,rfl,.inr ⟨_,rfl,rfl,env.not_calm hfail⟩⟩

theorem ends_write (f : Vault → Vault) (w : VaultWorld) :
    Prog.Ends (fun r w' => w'.unsealed = w.unsealed ∧ w'.inTransaction = w.inTransaction ∧
      ((r = .ok () ∧ w'.vault = f w.vault) ∨ ∃ e, r = .error e ∧ w'.vault = w.vault ∧
        ¬ env.Calm)) (env.write f) w :=
  (ends_write_changes env f w).mono fun _ _ h => h.vault

theorem ends_writeUnit (f : Vault → Vault) (w : VaultWorld) :
    Prog.Ends (fun r w' => w'.unsealed = w.unsealed ∧ w'.inTransaction = w.inTransaction ∧
      ((r = .ok () ∧ w'.vault = f w.vault) ∨ ∃ e, r = .error e ∧ w'.vault = w.vault ∧
        ¬ env.Calm)) (env.writeUnit f) w :=
  (ends_writeUnit_changes env f w).mono fun _ _ h => h.vault

theorem ends_draw (w : VaultWorld) :
    Prog.Ends (fun r w' => SameVault w w' ∧ w'.unsealed = w.unsealed ∧ ∃ n, r = .ok n)
      VaultEnv.draw w := Prog.Ends.atomic ⟨⟨rfl,rfl⟩,rfl,_,rfl⟩

theorem ends_mapError {A : Type} {Q : Except VaultError A → VaultWorld → Prop}
    {f : VaultError → VaultError} {p : VaultM A} {w : VaultWorld}
    (h : Prog.Ends (fun r w => Q (r.mapError f) w) p w) : Prog.Ends Q (mapError f p) w := by
  refine Prog.Ends.tryCatch (h.mono fun r w hr => ?_)
  cases r with
  | ok a => exact hr
  | error e => exact hr

/-- A transaction does not begin, or its body fails, or the commit does, and the database is as
it was; otherwise it ends as its body does. -/
theorem ends_transaction_clear {A : Type} {Q : Except VaultError A → VaultWorld → Prop}
    {body : VaultM A} {w : VaultWorld} (hout : w.inTransaction = false)
    (hbegin : (env.fails w.calls || env.readonly w.calls) = true → ∀ e w', SameVault w w' →
      w'.unsealed = w.unsealed → Q (.error e) w')
    (hbody : (env.fails w.calls || env.readonly w.calls) = false → Prog.Ends (fun r w₁ =>
        ((r.isOk = false ∨ env.fails w₁.calls = true) → ∀ e w', SameVault w w' →
          w'.unsealed = w₁.unsealed → Q (.error e) w') ∧
        ∀ a, r = .ok a → env.fails w₁.calls = false →
          Q (.ok a) { w₁ with calls := w₁.calls + 1, inTransaction := false }) body
      { w with calls := w.calls + 1, inTransaction := true }) :
    Prog.Ends Q (env.transaction body) w := by
  refine Prog.Ends.atomic ?_
  rw [if_neg (by simp [hout])]
  cases hstart : env.fails w.calls || env.readonly w.calls with
  | true => exact hbegin hstart _ _ ⟨rfl,rfl⟩ rfl
  | false =>
    have hends := hbody hstart
    unfold Prog.Ends at hends
    rcases hb : body.run { w with calls := w.calls + 1, inTransaction := true } with
      ⟨e | a,w₁⟩ <;> rw [hb] at hends
    · exact hends.1 (.inl rfl) e _ ⟨rfl,hout.symm⟩ rfl
    · cases hcommit : env.fails w₁.calls with
      | true =>
        simp only [hcommit]
        exact hends.1 (.inr hcommit) _ _ ⟨rfl,hout.symm⟩ rfl
      | false =>
        simp only [hcommit]
        exact hends.2 a rfl hcommit

/-- A transaction fails and the database is as it was, or it ends as its body does. -/
theorem ends_transaction {A : Type} {Q : Except VaultError A → VaultWorld → Prop}
    {body : VaultM A} {w : VaultWorld} (hout : w.inTransaction = false)
    (hfail : ∀ e w', SameVault w w' → w'.unsealed = w.unsealed → Q (.error e) w')
    (hbody : Prog.Ends (fun r w₁ => (∀ e w', SameVault w w' → w'.unsealed = w₁.unsealed →
        Q (.error e) w') ∧ ∀ a w', r = .ok a → w'.vault = w₁.vault →
          w'.unsealed = w₁.unsealed → w'.inTransaction = false → Q (.ok a) w') body
      { w with calls := w.calls + 1, inTransaction := true }) :
    Prog.Ends Q (env.transaction body) w :=
  ends_transaction_clear env hout (fun _ => hfail) fun _ => hbody.mono fun _ _ h =>
    ⟨fun _ => h.1,fun a hr _ => h.2 a _ hr rfl rfl rfl⟩

end Calls

section Providers

variable (env : VaultEnv) {crypto : VaultCrypto} {key : VaultMasterKey}

theorem VaultKeyProvider.Provides.of_same {w w' : VaultWorld} {provider : VaultKeyProvider}
    (h : provider.Provides crypto key w) (hm : w'.vault.metadata = w.vault.metadata)
    (hu : w'.unsealed = w.unsealed) : provider.Provides crypto key w' := by
  cases provider with
  | static first others => exact h
  | unsealed id passphrase =>
    simp only [Provides] at h ⊢
    rw [hm, hu]
    exact h

/-- The provider gives its key, if the database answers. -/
theorem VaultKeyProvider.Provides.getActiveKey {w : VaultWorld} {provider : VaultKeyProvider}
    (h : provider.Provides crypto key w) :
    Prog.Ends (fun r w' => SameVault w w' ∧ provider.Provides crypto key w' ∧
      (r = .ok key ∨ ∃ e, r = .error e ∧ ¬ env.Calm)) (provider.getActiveKey env crypto) w := by
  cases provider with
  | static first others =>
    obtain ⟨rfl,rfl⟩ := h
    exact Prog.Ends.pure ⟨.refl w,⟨rfl,rfl⟩,.inl rfl⟩
  | unsealed id passphrase =>
    rcases h with hkept | ⟨hnone,secret,metadata,rfl,hm,hd⟩
    · refine Prog.Ends.bind (Prog.Ends.atomic ?_)
      simp only [hkept]
      exact Prog.Ends.pure ⟨.refl w,.inl hkept,.inl rfl⟩
    · have hread := ends_read env Vault.metadata w
      refine Prog.Ends.bind (Prog.Ends.atomic ?_)
      simp only [hnone, loadActiveKey]
      refine Prog.Ends.bind (Prog.Ends.bind (hread.mono fun r w' hr => ?_))
      obtain ⟨⟨hsame,hu⟩,rfl | ⟨e,rfl,hfail⟩⟩ := hr
      · simp only [hm]
        refine Prog.Ends.ofExcept ?_
        simp only [hd]
        refine Prog.Ends.bind (Prog.Ends.atomic (Prog.Ends.pure ?_))
        exact ⟨⟨hsame.vault,hsame.inTransaction⟩,.inl (Function.update_self ..),.inl rfl⟩
      · refine ⟨hsame,?_,.inr ⟨e,rfl,hfail⟩⟩
        exact .inr ⟨hu ▸ hnone,secret,metadata,rfl,hsame.vault ▸ hm,hd⟩

/-- The one candidate is the provider's key. -/
theorem VaultKeyProvider.Provides.candidates {w : VaultWorld} {provider : VaultKeyProvider}
    (h : provider.Provides crypto key w) (version : String) :
    Prog.Ends (fun r w' => SameVault w w' ∧ provider.Provides crypto key w' ∧
      (r = .ok [key] ∨ ∃ e, r = .error e ∧ ¬ env.Calm))
      (provider.candidateMasterKeys env crypto version) w := by
  cases provider with
  | static first others =>
    obtain ⟨rfl,rfl⟩ := h
    refine Prog.Ends.bind (Prog.Ends.pure (Prog.Ends.bind (Prog.Ends.pure (Prog.Ends.pure ?_))))
    refine ⟨.refl w,⟨rfl,rfl⟩,.inl ?_⟩
    by_cases hv : first.keyVersion = version <;> simp [hv]
  | unsealed id passphrase =>
    refine Prog.Ends.bind (Prog.Ends.bind ((h.getActiveKey env).mono fun r w₁ hr => ?_))
    obtain ⟨hsame,hp,rfl | ⟨e,rfl,hfail⟩⟩ := hr
    · refine Prog.Ends.pure (Prog.Ends.bind (Prog.Ends.bind
        ((hp.getActiveKey env).mono fun r w₂ hr => ?_)))
      obtain ⟨hsame',hp',rfl | ⟨e,rfl,hfail⟩⟩ := hr
      · refine Prog.Ends.pure (Prog.Ends.pure ⟨hsame.trans hsame',hp',.inl ?_⟩)
        by_cases hv : key.keyVersion = version <;> simp [hv]
      · exact ⟨hsame.trans hsame',hp',.inr ⟨e,rfl,hfail⟩⟩
    · exact ⟨hsame,hp,.inr ⟨e,rfl,hfail⟩⟩

/-- A wrapped data key is unwrapped by a provider of its master key, and by no other. -/
theorem ends_unwrapDek (hc : crypto.Correct) {key' : VaultMasterKey} {w : VaultWorld}
    {provider : VaultKeyProvider} (h : provider.Provides crypto key' w)
    (hk : crypto.fernet.validKey key'.keyMaterial = true) {d : VaultDekRecord} {plain : String}
    (hd : WrappedUnder crypto key d plain) (errors : DekErrors) :
    Prog.Ends (fun r w' => SameVault w w' ∧ provider.Provides crypto key' w' ∧
      ((r = .ok plain ∧ key'.keyMaterial = key.keyMaterial) ∨
        ∃ e, r = .error e ∧ (env.Calm → key'.keyMaterial ≠ key.keyMaterial)))
      (unwrapDek env crypto provider errors d) w := by
  refine Prog.Ends.bind ((h.candidates env d.wrapKeyVersion).mono fun r w' hr => ?_)
  obtain ⟨hsame,hp,rfl | ⟨e,rfl,hfail⟩⟩ := hr
  · refine Prog.Ends.ofExcept ⟨hsame,hp,?_⟩
    rw [hd.unwrapWith hc errors.unwrapFailed hk]
    by_cases hm : key'.keyMaterial = key.keyMaterial
    · rw [if_pos hm]
      exact .inl ⟨rfl,hm⟩
    · rw [if_neg hm]
      exact .inr ⟨_,rfl,fun _ => hm⟩
  · exact ⟨hsame,hp,.inr ⟨e,rfl,fun hcalm => absurd hcalm hfail⟩⟩

/-- Data keys may have been added, all under the master key; the rest is as it was. -/
structure DeksGrow (crypto : VaultCrypto) (key : VaultMasterKey) (v v' : Vault) : Prop where
  secrets : v'.secrets = v.secrets
  metadata : v'.metadata = v.metadata
  probes : v'.probes = v.probes
  kept : ∀ d ∈ v.deks.rows, d ∈ v'.deks.rows
  keys : DekKeys crypto key v'.deks

theorem DeksGrow.of_eq {v v' : Vault} (h : v' = v) (hkeys : DekKeys crypto key v.deks) :
    DeksGrow crypto key v v' := by
  subst h
  exact ⟨rfl,rfl,rfl,fun d hd => hd,hkeys⟩

theorem DekTable.upsertDek_of_nil {deks : DekTable} (h : deks.rows = []) (d : VaultDekRecord) :
    (deks.upsertDek d).rows = [d] := by
  have hnil : ∀ t : DekTable, t.rows = [] → (t.insertOrReplace d).rows = [d] := by
    intro t ht
    rw [insertOrReplace, dif_neg (by simp [ht])]
    simp [ht]
  rw [upsertDek]
  by_cases ha : d.isActive = true
  · rw [if_pos ha]
    exact hnil _ (by simp [deactivateOthers, modify, h])
  · rw [if_neg ha]
    exact hnil _ h

theorem DeksGrow.first {v v' : Vault} {d : VaultDekRecord} {plain : String}
    (hv : v' = { v with deks := v.deks.upsertDek d }) (hnil : v.deks.rows = [])
    (hd : WrappedUnder crypto key d plain) (ha : d.isActive = true) :
    DeksGrow crypto key v v' ∧ d ∈ v'.deks.rows := by
  subst hv
  have hrows := DekTable.upsertDek_of_nil hnil d
  have hmem : d ∈ (v.deks.upsertDek d).rows := by simp [hrows]
  refine ⟨⟨rfl,rfl,rfl,by simp [hnil],⟨?_,.inr ⟨d,hmem,ha⟩⟩⟩,hmem⟩
  intro d' hd'
  obtain rfl : d' = d := by simpa [hrows] using hd'
  exact ⟨plain,hd⟩

/-- The active data key and its plaintext; only a vault without data keys gets a new one. -/
theorem ends_ensureActiveDek (hc : crypto.Correct) (hrandom : env.Random)
    {key' : VaultMasterKey} {w : VaultWorld} {provider : VaultKeyProvider}
    (h : provider.Provides crypto key' w) (hk : crypto.fernet.validKey key'.keyMaterial = true)
    (hdeks : DekKeys crypto key w.vault.deks)
    (hfirst : w.vault.deks.rows = [] → key'.keyMaterial = key.keyMaterial) (errors : DekErrors)
    (now : String) :
    Prog.Ends (fun r w' => provider.Provides crypto key' w' ∧
      w'.inTransaction = w.inTransaction ∧ DeksGrow crypto key w.vault w'.vault ∧
      ((∃ d plain, r = .ok (d,plain) ∧ d ∈ w'.vault.deks.rows ∧ WrappedUnder crypto key d plain) ∨
        ∃ e, r = .error e ∧ (env.Calm → key'.keyMaterial ≠ key.keyMaterial)))
      (ensureActiveDek env crypto provider errors key' now) w := by
  refine Prog.Ends.bind (ends_mapError ((ends_read env _ w).mono fun r w₁ hr => ?_))
  obtain ⟨⟨hsame,hu⟩,rfl | ⟨e,rfl,hfail⟩⟩ := hr
  · have hp : provider.Provides crypto key' w₁ := h.of_same (congrArg _ hsame.vault) hu
    simp only [Except.mapError]
    cases hactive : w.vault.deks.getActiveDek with
    | some d =>
      have hd := (DekTable.getActiveDek_mem hactive).1
      obtain ⟨plain,hwrapped⟩ := hdeks.wrapped d hd
      refine Prog.Ends.bind ((ends_unwrapDek env hc hp hk hwrapped errors).mono fun r w₂ hr => ?_)
      obtain ⟨hsame',hp',⟨rfl,_⟩ | ⟨e,rfl,hfail⟩⟩ := hr
      · have hv := hsame'.vault.trans hsame.vault
        exact Prog.Ends.pure ⟨hp',hsame'.inTransaction.trans hsame.inTransaction,.of_eq hv hdeks,
          .inl ⟨d,plain,rfl,hv ▸ hd,hwrapped⟩⟩
      · exact ⟨hp',hsame'.inTransaction.trans hsame.inTransaction,
          .of_eq (hsame'.vault.trans hsame.vault) hdeks,.inr ⟨e,rfl,hfail⟩⟩
    | none =>
      have hnil : w.vault.deks.rows = [] := by
        rcases hdeks.active with hnil | ⟨d,hd,ha⟩
        · exact hnil
        · simp [DekTable.getActiveDek_eq_none.mp hactive d hd] at ha
      have hmat := hfirst hnil
      refine Prog.Ends.bind ((ends_draw w₁).mono fun r w₂ hr => ?_)
      obtain ⟨hsame₂,hu₂,i,rfl⟩ := hr
      refine Prog.Ends.bind ((ends_draw w₂).mono fun r w₃ hr => ?_)
      obtain ⟨hsame₃,hu₃,nonce,rfl⟩ := hr
      refine Prog.Ends.bind (ends_mapError (Prog.Ends.ofExcept ?_))
      rw [Fernet.wrapDek_of_valid hk]
      refine Prog.Ends.bind ((ends_draw w₃).mono fun r w₄ hr => ?_)
      obtain ⟨hsame₄,hu₄,j,rfl⟩ := hr
      refine Prog.Ends.bind (ends_mapError ((ends_writeUnit env _ w₄).mono fun r w₅ hr => ?_))
      have hsame' := ((hsame.trans hsame₂).trans hsame₃).trans hsame₄
      obtain ⟨hu₅,hin,⟨rfl,hv⟩ | ⟨e,rfl,hv,hfail⟩⟩ := hr
      · rw [hsame'.vault] at hv
        have hu' := hu₅.trans (hu₄.trans (hu₃.trans hu₂))
        have hwrapped : WrappedUnder crypto key
            ⟨"dek_" ++ env.uuid j,crypto.fernet.encrypt nonce key'.keyMaterial
              (urlsafeB64 (env.urandom i)),fernetV1,key'.keyVersion,true,now,now⟩
            (urlsafeB64 (env.urandom i)) :=
          ⟨rfl,hmat ▸ hk,hc.kdf.key _ (hrandom i),nonce,by rw [hmat]⟩
        obtain ⟨hgrow,hmem⟩ := DeksGrow.first hv hnil hwrapped rfl
        exact Prog.Ends.pure ⟨hp.of_same (hgrow.metadata.trans (congrArg _ hsame.vault.symm)) hu',
          hin.trans hsame'.inTransaction,hgrow,.inl ⟨_,_,rfl,hmem,hwrapped⟩⟩
      · have hsame₅ : SameVault w w₅ := hsame'.trans ⟨hv,hin⟩
        exact ⟨hp.of_same (congrArg _ (hsame₅.vault.trans hsame.vault.symm))
            (hu₅.trans (hu₄.trans (hu₃.trans hu₂))),
          hsame₅.inTransaction,.of_eq hsame₅.vault hdeks,
          .inr ⟨_,rfl,fun hcalm => absurd hcalm hfail⟩⟩
  · exact ⟨h.of_same (congrArg _ hsame.vault) hu,hsame.inTransaction,.of_eq hsame.vault hdeks,
      .inr ⟨_,rfl,fun hcalm => absurd hcalm hfail⟩⟩

end Providers

section Secrets

variable (env : VaultEnv) {crypto : VaultCrypto} {key : VaultMasterKey}

/-- The record that `put_many` makes of a secret. -/
structure Written (crypto : VaultCrypto) (key : VaultMasterKey) (deks : DekTable)
    (dataset matchKey : String) (runId : Option String) (secret : String × String)
    (record : VaultSecretRecord) : Prop where
  dataset_eq : record.dataset = dataset
  field_eq : record.field = secret.1
  matchKey_eq : record.matchKey = some matchKey
  locator : record.locatorHash = crypto.sha256 (locatorText dataset secret.1 matchKey "v1")
  version : record.locatorVersion = "v1"
  runId_eq : record.runId = runId
  holds : RecordHolds crypto key deks record secret.2

theorem ends_storeSecret {dataset matchKey now : String} {runId : Option String}
    {activeKey : VaultMasterKey} {d : VaultDekRecord} {plain : String} {w : VaultWorld}
    (hmem : d ∈ w.vault.deks.rows) (hd : WrappedUnder crypto key d plain)
    (secret : String × String) :
    Prog.Ends (fun r w' => w'.unsealed = w.unsealed ∧
      ((r = .ok () ∧ ∃ record, Written crypto key w.vault.deks dataset matchKey runId secret record ∧
        w'.vault = { w.vault with secrets := w.vault.secrets.upsert record }) ∨
      ∃ e, r = .error e ∧ w'.vault = w.vault))
      (SecretVaultWriteService.storeSecret env crypto dataset matchKey runId now activeKey (d,plain)
        secret) w := by
  unfold SecretVaultWriteService.storeSecret
  rw [buildLocatorHash_v1]
  refine Prog.Ends.bind (Prog.Ends.ofExcept (Prog.Ends.bind ((ends_draw w).mono fun r w₁ hr => ?_)))
  obtain ⟨hsame,hu,nonce,rfl⟩ := hr
  refine Prog.Ends.bind (Prog.Ends.ofExcept ?_)
  rw [Fernet.encryptSecret_of_valid hd.dataKey]
  refine (ends_write env _ w₁).mono fun r w₂ hr => ?_
  obtain ⟨hu',_,⟨rfl,hv⟩ | ⟨e,rfl,hv,_⟩⟩ := hr
  · rw [hsame.vault] at hv
    exact ⟨hu'.trans hu,.inl ⟨rfl,_,⟨rfl,rfl,rfl,rfl,rfl,rfl,rfl,d,hmem,rfl,plain,hd,nonce,rfl⟩,hv⟩⟩
  · exact ⟨hu'.trans hu,.inr ⟨e,rfl,hv.trans hsame.vault⟩⟩

/-- The writes of a call, one secret after the other. -/
theorem ends_storeSecrets {dataset matchKey now : String} {runId : Option String}
    {activeKey : VaultMasterKey} {d : VaultDekRecord} {plain : String}
    (hd : WrappedUnder crypto key d plain) (secrets : List (String × String)) {w : VaultWorld}
    (hmem : d ∈ w.vault.deks.rows) :
    Prog.Ends (fun r w' => w'.unsealed = w.unsealed ∧ w'.vault.metadata = w.vault.metadata ∧
      (r = .ok () → ∃ records, List.Forall₂
          (Written crypto key w.vault.deks dataset matchKey runId) secrets records ∧
        w'.vault = { w.vault with secrets := records.foldl SecretTable.upsert w.vault.secrets }))
      (SecretVaultWriteService.storeSecrets env crypto dataset matchKey runId now activeKey
        (d,plain) secrets) w := by
  induction secrets generalizing w with
  | nil => exact Prog.Ends.pure ⟨rfl,rfl,fun _ => ⟨[],.nil,rfl⟩⟩
  | cons secret secrets ih =>
    refine Prog.Ends.bind ((ends_storeSecret env hmem hd secret).mono fun r w₁ hr => ?_)
    obtain ⟨hu,⟨rfl,record,hrecord,hv⟩ | ⟨e,rfl,hv⟩⟩ := hr
    · have hdeks : w₁.vault.deks = w.vault.deks := by rw [hv]
      refine (ih (hdeks ▸ hmem)).mono fun r w₂ hr => ?_
      obtain ⟨hu',hm,hok⟩ := hr
      refine ⟨hu'.trans hu,hm.trans (by rw [hv]),fun h => ?_⟩
      obtain ⟨records,hrecords,hv'⟩ := hok h
      rw [hdeks] at hrecords
      exact ⟨record::records,.cons hrecord hrecords,by rw [hv', hv]; rfl⟩
    · exact ⟨hu,by rw [hv],fun h => by cases h⟩

/-- What a `put_many` of the secrets leaves in the vault. -/
structure Stored (crypto : VaultCrypto) (key : VaultMasterKey) (v v' : Vault)
    (dataset matchKey : String) (runId : Option String) (secrets : Dict String String) : Prop where
  named : secrets ≠ [] → Text.strip matchKey ≠ ""
  written : ∃ v₁ records, DeksGrow crypto key v v₁ ∧ List.Forall₂
      (Written crypto key v₁.deks dataset (Text.strip matchKey) runId) secrets records ∧
    v' = { v₁ with secrets := records.foldl SecretTable.upsert v₁.secrets }

/-- What the transaction of `put_many` does. -/
theorem ends_putSecrets (hc : crypto.Correct) (hrandom : env.Random) {key' : VaultMasterKey}
    {w : VaultWorld} {provider : VaultKeyProvider} (h : provider.Provides crypto key' w)
    (hk : crypto.fernet.validKey key'.keyMaterial = true)
    (hdeks : DekKeys crypto key w.vault.deks)
    (hfirst : w.vault.deks.rows = [] → key'.keyMaterial = key.keyMaterial)
    (dataset matchKey now : String) (runId : Option String) (secrets : List (String × String))
    (errors : DekErrors) :
    Prog.Ends (fun r w' => provider.Provides crypto key' w' ∧
      w'.vault.metadata = w.vault.metadata ∧
      (r = .ok () → ∃ v₁ records, DeksGrow crypto key w.vault v₁ ∧
        List.Forall₂ (Written crypto key v₁.deks dataset matchKey runId) secrets records ∧
        w'.vault = { v₁ with secrets := records.foldl SecretTable.upsert v₁.secrets }))
      (do
        let activeKey ← provider.getActiveKey env crypto
        let dek ← ensureActiveDek env crypto provider errors activeKey now
        SecretVaultWriteService.storeSecrets env crypto dataset matchKey runId now activeKey dek
          secrets) w := by
  refine Prog.Ends.bind ((h.getActiveKey env).mono fun r w₁ hr => ?_)
  obtain ⟨hsame,hp,rfl | ⟨e,rfl,_⟩⟩ := hr
  · have hv := hsame.vault
    rw [← hv] at hdeks hfirst ⊢
    refine Prog.Ends.bind ((ends_ensureActiveDek env hc hrandom hp hk hdeks hfirst errors
      now).mono fun r w₂ hr => ?_)
    obtain ⟨hp₂,_,hgrow,⟨d,plain,rfl,hmem,hd⟩ | ⟨e,rfl,_⟩⟩ := hr
    · refine (ends_storeSecrets env hd secrets hmem).mono fun r w₃ hr => ?_
      obtain ⟨hu,hm,hok⟩ := hr
      refine ⟨hp₂.of_same hm hu,hm.trans hgrow.metadata,fun hr => ?_⟩
      obtain ⟨records,hrecords,hv₃⟩ := hok hr
      exact ⟨w₂.vault,records,hgrow,hrecords,hv₃⟩
    · exact ⟨hp₂,hgrow.metadata,fun h => by cases h⟩
  · exact ⟨hp,congrArg _ hsame.vault,fun h => by cases h⟩

/-- A call of `put_many` stores all of its secrets or leaves the vault as it was. -/
theorem ends_putMany (hc : crypto.Correct) (hrandom : env.Random) {key' : VaultMasterKey}
    {w : VaultWorld} {provider : VaultKeyProvider} (h : provider.Provides crypto key' w)
    (hk : crypto.fernet.validKey key'.keyMaterial = true)
    (hdeks : DekKeys crypto key w.vault.deks)
    (hfirst : w.vault.deks.rows = [] → key'.keyMaterial = key.keyMaterial)
    (hout : w.inTransaction = false) (dataset matchKey : String) (secrets : Dict String String)
    (runId : Option String) :
    Prog.Ends (fun r w' => provider.Provides crypto key' w' ∧ w'.inTransaction = false ∧
      ((r = .ok () ∧ Stored crypto key w.vault w'.vault dataset matchKey runId secrets) ∨
        ∃ e, r = .error e ∧ w'.vault = w.vault))
      (SecretVaultWriteService.putMany env crypto provider dataset matchKey secrets runId) w := by
  unfold SecretVaultWriteService.putMany
  by_cases hempty : secrets = []
  · subst hempty
    rw [if_pos rfl]
    exact Prog.Ends.pure ⟨h,hout,.inl ⟨rfl,by simp,w.vault,[],.of_eq rfl hdeks,.nil,rfl⟩⟩
  · rw [if_neg hempty]
    by_cases hblank : Text.strip matchKey = ""
    · rw [if_pos hblank]
      exact Prog.Ends.throw ⟨h,hout,.inr ⟨_,rfl,rfl⟩⟩
    · rw [if_neg hblank]
      refine Prog.Ends.bind (Prog.Ends.bind ((ends_draw w).mono fun r w₀ hr => ?_))
      obtain ⟨hsame₀,hu₀,i,rfl⟩ := hr
      refine Prog.Ends.pure (ends_mapError (ends_transaction env (hsame₀.inTransaction.trans hout)
        (fun e w' hsame hu => ?_) ?_))
      · exact ⟨h.of_same (congrArg _ (hsame.vault.trans hsame₀.vault)) (hu.trans hu₀),
          hsame.inTransaction.trans (hsame₀.inTransaction.trans hout),
          .inr ⟨_,rfl,hsame.vault.trans hsame₀.vault⟩⟩
      · have hv₀ := hsame₀.vault
        rw [← hv₀] at hdeks hfirst ⊢
        have hp₀ : provider.Provides crypto key'
            { w₀ with calls := w₀.calls + 1, inTransaction := true } :=
          h.of_same (congrArg _ hv₀) hu₀
        refine (ends_putSecrets env hc hrandom hp₀ hk hdeks hfirst dataset _ _ runId secrets
          _).mono fun r w₁ hr => ?_
        obtain ⟨hp₁,hm,hok⟩ := hr
        constructor
        · intro e w' hsame hu
          exact ⟨hp₁.of_same ((congrArg _ hsame.vault).trans hm.symm) hu,
            hsame.inTransaction.trans (hsame₀.inTransaction.trans hout),
            .inr ⟨_,rfl,hsame.vault⟩⟩
        · rintro a w' rfl hv hu hin
          obtain ⟨v₁,records,hgrow,hrecords,hv₁⟩ := hok rfl
          exact ⟨hp₁.of_same (congrArg _ hv) hu,hin,
            .inl ⟨rfl,fun _ => hblank,v₁,records,hgrow,hrecords,hv.trans hv₁⟩⟩

/-- A record opens to its secret, if the provider's key is the master key. -/
theorem ends_openRecord (hc : crypto.Correct) {key' : VaultMasterKey} {w : VaultWorld}
    {provider : VaultKeyProvider} (h : provider.Provides crypto key' w)
    (hk : crypto.fernet.validKey key'.keyMaterial = true) {row : SecretRow} {secret : String}
    (hrow : RecordHolds crypto key w.vault.deks row.toVaultSecretRecord secret) :
    Prog.Ends (fun r w' => SameVault w w' ∧ provider.Provides crypto key' w' ∧
      (r = .ok secret ∨ ∃ e, r = .error e ∧ (env.Calm → key'.keyMaterial ≠ key.keyMaterial)))
      (SecretVaultReadService.openRecord env crypto provider row) w := by
  obtain ⟨halgo,d,hd,hversion,plain,hwrapped,nonce,hcipher⟩ := hrow
  refine Prog.Ends.bind ((ends_read env _ w).mono fun r w₁ hr => ?_)
  obtain ⟨⟨hsame,hu⟩,rfl | ⟨e,rfl,hfail⟩⟩ := hr
  · have hp : provider.Provides crypto key' w₁ := h.of_same (congrArg _ hsame.vault) hu
    have hget : w.vault.deks.getDek row.dekVersion = some d :=
      hversion ▸ DekTable.getDek_of_mem hd
    simp only [hget]
    refine Prog.Ends.bind ((ends_unwrapDek env hc hp hk hwrapped _).mono fun r w₂ hr => ?_)
    obtain ⟨hsame',hp',⟨rfl,_⟩ | ⟨e,rfl,hfail⟩⟩ := hr
    · refine Prog.Ends.ofExcept ⟨hsame.trans hsame',hp',.inl ?_⟩
      rw [hcipher]
      exact hc.fernet.decryptSecret halgo hwrapped.dataKey nonce secret
    · exact ⟨hsame.trans hsame',hp',.inr ⟨e,rfl,hfail⟩⟩
  · exact ⟨hsame,h.of_same (congrArg _ hsame.vault) hu,
      .inr ⟨e,rfl,fun hcalm => absurd hcalm hfail⟩⟩

/-- The row that a read of the secret chooses. -/
def SecretTable.chosen (t : SecretTable) (sha256 : String → String)
    (dataset field matchKey : String) (runId : Option String) : Option SecretRow :=
  t.getSecret dataset field (some matchKey) (sha256 (locatorText dataset field matchKey "v1")) "v1"
    runId

/-- With a match key the run plays no part. -/
theorem SecretTable.chosen_eq {t : SecretTable} {sha256 : String → String}
    {dataset field matchKey : String} (hname : matchKey ≠ "") (runId : Option String) :
    t.chosen sha256 dataset field matchKey runId =
      (newest ((t.rows.filter fun r => r.dataset == dataset && r.field == field).filter
        fun r => r.matchKey == some matchKey)).or
      (newest ((t.rows.filter fun r => r.dataset == dataset && r.field == field).filter fun r =>
        r.locatorHash == sha256 (locatorText dataset field matchKey "v1") &&
          r.locatorVersion == "v1")) := by
  have hkey : (some matchKey).filter (fun k : String => k != "") = some matchKey := by
    simp [hname]
  simp only [chosen, getSecret, hkey]

theorem normalizeSourceRef_ne {sourceRef : Option Fields} {matchKey : String}
    (h : normalizeSourceRef sourceRef = some matchKey) : matchKey ≠ "" := by
  unfold normalizeSourceRef at h
  split at h
  · split at h
    · cases h
    · rename_i hne
      exact Option.some.inj h ▸ hne
  · cases h

/-- A read gives the secret of the chosen row, and nothing if there is none. -/
theorem ends_getSecret (hc : crypto.Correct) {w : VaultWorld} {provider : VaultKeyProvider}
    (h : provider.Provides crypto key w) (hk : crypto.fernet.validKey key.keyMaterial = true)
    {defaultRunId runId : Option String} {dataset field matchKey secret : String}
    {sourceRef : Option Fields} (href : normalizeSourceRef sourceRef = some matchKey)
    (hrow : ∀ row, w.vault.secrets.chosen crypto.sha256 dataset field matchKey
        (runId.or defaultRunId) = some row →
      RecordHolds crypto key w.vault.deks row.toVaultSecretRecord secret) :
    Prog.Ends (fun r w' => SameVault w w' ∧
      (r = .ok ((w.vault.secrets.chosen crypto.sha256 dataset field matchKey
        (runId.or defaultRunId)).map fun _ => secret) ∨ ∃ e, r = .error e ∧ ¬ env.Calm))
      (SecretVaultReadService.getSecret env crypto provider defaultRunId dataset field sourceRef
        runId) w := by
  unfold SecretVaultReadService.getSecret
  simp only [href, buildLocatorHash_v1]
  refine ends_mapError (Prog.Ends.bind (Prog.Ends.ofExcept (Prog.Ends.bind
    ((ends_read env _ w).mono fun r w₁ hr => ?_))))
  obtain ⟨⟨hsame,hu⟩,rfl | ⟨e,rfl,hfail⟩⟩ := hr
  · have hp : provider.Provides crypto key w₁ := h.of_same (congrArg _ hsame.vault) hu
    rw [← SecretTable.chosen]
    cases hchosen : w.vault.secrets.chosen crypto.sha256 dataset field matchKey
        (runId.or defaultRunId) with
    | none => exact Prog.Ends.pure ⟨hsame,.inl rfl⟩
    | some row =>
      have hholds := hrow row hchosen
      rw [← hsame.vault] at hholds
      refine Prog.Ends.bind ((ends_openRecord env hc hp hk hholds).mono fun r w₂ hr => ?_)
      obtain ⟨hsame',_,rfl | ⟨e,rfl,hfail⟩⟩ := hr
      · exact Prog.Ends.pure ⟨hsame.trans hsame',.inl rfl⟩
      · exact ⟨hsame.trans hsame',.inr ⟨_,rfl,fun hcalm => hfail hcalm rfl⟩⟩
  · exact ⟨hsame,.inr ⟨_,rfl,hfail⟩⟩

/-- A deletion takes the rows of exactly its run, or fails and takes none. -/
theorem ends_deleteSecret (dataset field matchKey : String) (runId : Option String)
    (w : VaultWorld) :
    Prog.Ends (fun r w' => w'.unsealed = w.unsealed ∧ w'.inTransaction = w.inTransaction ∧
      ((∃ n, r = .ok n ∧ w'.vault = { w.vault with
          secrets := (w.vault.secrets.deleteSecret dataset field
            (crypto.sha256 (locatorText dataset field matchKey "v1")) "v1" runId).2 }) ∨
        (r = .error VaultEnv.storeFailed ∧ w'.vault = w.vault)))
      (VaultRetentionService.deleteSecret env crypto dataset field matchKey runId) w := by
  unfold VaultRetentionService.deleteSecret
  rw [buildLocatorHash_v1]
  refine Prog.Ends.bind (Prog.Ends.ofExcept (Prog.Ends.atomic ?_))
  dsimp only
  split
  · exact ⟨rfl,rfl,.inr ⟨rfl,rfl⟩⟩
  · exact ⟨rfl,rfl,.inl ⟨_,rfl,rfl⟩⟩

end Secrets

end NexusEtl
