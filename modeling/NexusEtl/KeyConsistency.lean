import NexusEtl.KeyRotation

/-!
# Vault management beside running imports

Processes share one vault file: some initialise it and replace or rewrap its keys,
others verify it once and then store and read secrets with the key they unsealed.
Whatever the order of their steps, the stored metadata describe one master key,
every data key is wrapped with it, and no stored secret is lost.
-/

set_option autoImplicit false

namespace NexusEtl
open NexusEtl.Library

section Vaults

variable {crypto : VaultCrypto} {key : VaultMasterKey}

/-- The metadata describe the key: some passphrase derives it from them. -/
def Describes (crypto : VaultCrypto) (metadata : VaultUnsealMetadata) (key : VaultMasterKey) :
    Prop := ∃ passphrase, crypto.kdf.deriveKey passphrase metadata = .ok key

/-- A vault that was never initialised. -/
structure BlankVault (v : Vault) : Prop where
  metadata : v.metadata = none
  deks : v.deks.rows = []
  probe : v.probe = none
  secrets : v.secrets.rows = []

/-- A vault whose metadata describe the key that its data keys are wrapped with. -/
structure KeyedVault (crypto : VaultCrypto) (key : VaultMasterKey) (v : Vault) : Prop where
  described : ∃ metadata, v.metadata = some metadata ∧ Describes crypto metadata key
  wrapped : ∀ d ∈ v.deks.rows, ∃ plain, WrappedUnder crypto key d plain
  active : ∃ d ∈ v.deks.rows, d.isActive = true
  probe : v.probe.isSome = true
  secrets : ∀ r ∈ v.secrets.rows, ∃ secret,
    RecordHolds crypto key v.deks r.toVaultSecretRecord secret

/-- What operations may change without touching keys, probe or secrets. -/
structure SameStore (v v' : Vault) : Prop where
  metadata : v'.metadata = v.metadata
  deks : v'.deks = v.deks
  probe : v'.probe = v.probe
  secrets : v'.secrets = v.secrets

theorem SameStore.refl (v : Vault) : SameStore v v := ⟨rfl,rfl,rfl,rfl⟩

theorem SameStore.of_eq {v v' : Vault} (h : v' = v) : SameStore v v' := h ▸ .refl v

theorem BlankVault.of_same {v v' : Vault} (h : BlankVault v) (hsame : SameStore v v') :
    BlankVault v' :=
  ⟨hsame.metadata.trans h.metadata,(congrArg _ hsame.deks).trans h.deks,hsame.probe.trans h.probe,
    (congrArg _ hsame.secrets).trans h.secrets⟩

theorem KeyedVault.of_same {v v' : Vault} (h : KeyedVault crypto key v) (hsame : SameStore v v') :
    KeyedVault crypto key v' := by
  constructor
  · rw [hsame.metadata]
    exact h.described
  · rw [hsame.deks]
    exact h.wrapped
  · rw [hsame.deks]
    exact h.active
  · rw [hsame.probe]
    exact h.probe
  · rw [hsame.deks, hsame.secrets]
    exact h.secrets

/-- The metadata describe one key. -/
theorem KeyedVault.unique (hc : crypto.Correct) {key' : VaultMasterKey} {v : Vault}
    (h : KeyedVault crypto key v) (h' : KeyedVault crypto key' v) : key' = key := by
  obtain ⟨metadata,hm,passphrase,hkey⟩ := h.described
  obtain ⟨metadata',hm',passphrase',hkey'⟩ := h'.described
  obtain rfl := Option.some.inj (hm.symm.trans hm')
  exact hc.kdf.deriveKey_unique hkey' hkey

def Initialised (crypto : VaultCrypto) (w : VaultWorld) : Prop :=
  ∃ key, KeyedVault crypto key w.vault

/-- Between two steps the vault is blank, and then no process has unsealed a key, or keyed. -/
structure KeyConsistent (crypto : VaultCrypto) (w : VaultWorld) : Prop where
  idle : w.inTransaction = false
  vault : (BlankVault w.vault ∧ ∀ id, w.unsealed id = none) ∨ Initialised crypto w

/-- What is keyed stays so, and the secrets that it holds stay held, perhaps under another
master key. -/
def Preserves (crypto : VaultCrypto) (w w' : VaultWorld) : Prop :=
  ∀ key, KeyedVault crypto key w.vault → ∃ key', KeyedVault crypto key' w'.vault ∧
    ∀ r secret, RecordHolds crypto key w.vault.deks r secret →
      RecordHolds crypto key' w'.vault.deks r secret

theorem Preserves.refl (w : VaultWorld) : Preserves crypto w w :=
  fun key h => ⟨key,h,fun _ _ hr => hr⟩

theorem Preserves.trans {w w' w'' : VaultWorld} (h : Preserves crypto w w')
    (h' : Preserves crypto w' w'') : Preserves crypto w w'' := by
  intro key hkeyed
  obtain ⟨key',hkeyed',hholds⟩ := h key hkeyed
  obtain ⟨key'',hkeyed'',hholds'⟩ := h' key' hkeyed'
  exact ⟨key'',hkeyed'',fun r secret hr => hholds' r secret (hholds r secret hr)⟩

theorem Preserves.of_keyed (hc : crypto.Correct) {key' : VaultMasterKey} {w w' : VaultWorld}
    (h : KeyedVault crypto key w.vault) (h' : KeyedVault crypto key' w'.vault)
    (hholds : ∀ r secret, RecordHolds crypto key w.vault.deks r secret →
      RecordHolds crypto key' w'.vault.deks r secret) : Preserves crypto w w' := by
  intro key₀ hkeyed
  obtain rfl := h.unique hc hkeyed
  exact ⟨key',h',hholds⟩

theorem Initialised.later {w w' : VaultWorld} (h : Initialised crypto w)
    (hpreserves : Preserves crypto w w') : Initialised crypto w' := by
  obtain ⟨key,hkeyed⟩ := h
  obtain ⟨key',hkeyed',_⟩ := hpreserves key hkeyed
  exact ⟨key',hkeyed'⟩

theorem KeyConsistent.initialised {w : VaultWorld} (h : KeyConsistent crypto w)
    (hm : w.vault.metadata ≠ none) : Initialised crypto w := by
  rcases h.vault with ⟨hblank,_⟩ | hinit
  · exact absurd hblank.metadata hm
  · exact hinit

/-- A step that leaves the store and the memory alone. -/
theorem KeyConsistent.step {w w' : VaultWorld} (h : KeyConsistent crypto w)
    (hsame : SameStore w.vault w'.vault) (hin : w'.inTransaction = w.inTransaction)
    (hu : w'.unsealed = w.unsealed) : KeyConsistent crypto w' ∧ Preserves crypto w w' := by
  refine ⟨⟨hin.trans h.idle,?_⟩,fun key hkeyed => ⟨key,hkeyed.of_same hsame,?_⟩⟩
  · rcases h.vault with ⟨hblank,hnone⟩ | ⟨key,hkeyed⟩
    · exact .inl ⟨hblank.of_same hsame,fun id => hu ▸ hnone id⟩
    · exact .inr ⟨key,hkeyed.of_same hsame⟩
  · rw [hsame.deks]
    exact fun r secret hr => hr

/-- A step of an initialised vault that leaves the store alone. -/
theorem KeyConsistent.step_initialised {w w' : VaultWorld} (h : KeyConsistent crypto w)
    (hinit : Initialised crypto w) (hsame : SameStore w.vault w'.vault)
    (hin : w'.inTransaction = w.inTransaction) :
    KeyConsistent crypto w' ∧ Preserves crypto w w' := by
  obtain ⟨key,hkeyed⟩ := hinit
  refine ⟨⟨hin.trans h.idle,.inr ⟨key,hkeyed.of_same hsame⟩⟩,
    fun key hkeyed => ⟨key,hkeyed.of_same hsame,?_⟩⟩
  rw [hsame.deks]
  exact fun r secret hr => hr

end Vaults

section Steps

variable (env : VaultEnv) {crypto : VaultCrypto}

/-- A call that leaves the store alone; what it returns was there at some later state. -/
theorem keeps_call {A : Type} (failed : VaultError) (f : Vault → A × Vault)
    (hf : ∀ v, SameStore v (f v).2) (w : VaultWorld) :
    Prog.Keeps (KeyConsistent crypto) (Preserves crypto)
      (fun r t => ∀ a, r = .ok a → ∃ s, Preserves crypto w s ∧ KeyConsistent crypto s ∧
        Preserves crypto s t ∧ a = (f s.vault).1)
      (env.call failed f) w := by
  refine Prog.Keeps.atomic fun s hs hI => ?_
  by_cases hfail : env.fails s.calls = true
  · rw [if_pos hfail]
    have hstep : KeyConsistent crypto { s with calls := s.calls + 1 } ∧
        Preserves crypto s { s with calls := s.calls + 1 } := hI.step (.refl _) rfl rfl
    exact ⟨hstep.1,hstep.2,fun t _ _ a ha => by cases ha⟩
  · rw [if_neg hfail]
    have hstep : KeyConsistent crypto { s with vault := (f s.vault).2, calls := s.calls + 1 } ∧
        Preserves crypto s { s with vault := (f s.vault).2, calls := s.calls + 1 } :=
      hI.step (hf _) rfl rfl
    exact ⟨hstep.1,hstep.2,fun t ht _ a ha =>
      ⟨s,hs,hI,hstep.2.trans ht,(Except.ok.inj ha).symm⟩⟩

theorem keeps_read {A : Type} (f : Vault → A) (w : VaultWorld) :
    Prog.Keeps (KeyConsistent crypto) (Preserves crypto)
      (fun r t => ∀ a, r = .ok a → ∃ s, Preserves crypto w s ∧ KeyConsistent crypto s ∧
        Preserves crypto s t ∧ a = f s.vault) (env.read f) w :=
  keeps_call env VaultEnv.readFailed (fun v => (f v,v)) (fun v => .refl v) w

theorem keeps_write (f : Vault → Vault) (hf : ∀ v, SameStore v (f v)) (w : VaultWorld) :
    Prog.Keeps (KeyConsistent crypto) (Preserves crypto) (fun _ _ => True) (env.write f) w :=
  (keeps_call env VaultEnv.storeFailed (fun v => ((),f v)) hf w).weaken fun _ _ _ _ => trivial

theorem keeps_draw (w : VaultWorld) :
    Prog.Keeps (KeyConsistent crypto) (Preserves crypto) (fun _ _ => True) VaultEnv.draw w := by
  refine Prog.Keeps.atomic fun s _ hI => ?_
  have hstep : KeyConsistent crypto { s with draws := s.draws + 1 } ∧
      Preserves crypto s { s with draws := s.draws + 1 } := hI.step (.refl _) rfl rfl
  exact ⟨hstep.1,hstep.2,fun _ _ _ => trivial⟩

theorem keeps_isReadonly (w : VaultWorld) :
    Prog.Keeps (KeyConsistent crypto) (Preserves crypto) (fun _ _ => True) env.isReadonly w := by
  refine Prog.Keeps.atomic fun s _ hI => ?_
  have hstep : KeyConsistent crypto { s with calls := s.calls + 1 } ∧
      Preserves crypto s { s with calls := s.calls + 1 } := hI.step (.refl _) rfl rfl
  rw [if_neg (by simp [hI.idle])]
  split
  · exact ⟨hstep.1,hstep.2,fun _ _ _ => trivial⟩
  · split <;> exact ⟨hstep.1,hstep.2,fun _ _ _ => trivial⟩

variable {A B : Type}

/-- The end of a program, when nothing more is asked of it. -/
theorem keeps_done (r : Except VaultError A) (w : VaultWorld) :
    Prog.Keeps (KeyConsistent crypto) (Preserves crypto) (fun _ _ => True) (Prog.done r) w :=
  Prog.Keeps.done fun _ _ _ => trivial

theorem keeps_seq {Q : Except VaultError A → VaultWorld → Prop}
    {Q' : Except VaultError B → VaultWorld → Prop} {p : VaultM A} {f : A → VaultM B}
    {w : VaultWorld} (h : Prog.Keeps (KeyConsistent crypto) (Preserves crypto) Q p w)
    (hok : ∀ a t, Preserves crypto w t → Q (.ok a) t →
      Prog.Keeps (KeyConsistent crypto) (Preserves crypto) Q' (f a) t)
    (herror : ∀ e t, Preserves crypto w t → Q (.error e) t → Q' (.error e) t) :
    Prog.Keeps (KeyConsistent crypto) (Preserves crypto) Q' (p >>= f) w :=
  Prog.Keeps.seq Preserves.refl (fun _ _ _ => Preserves.trans) h hok herror

/-- A sequence of which nothing more is asked. -/
theorem keeps_then {Q : Except VaultError A → VaultWorld → Prop} {p : VaultM A}
    {f : A → VaultM B} {w : VaultWorld}
    (h : Prog.Keeps (KeyConsistent crypto) (Preserves crypto) Q p w)
    (hok : ∀ a t, Preserves crypto w t → Q (.ok a) t →
      Prog.Keeps (KeyConsistent crypto) (Preserves crypto) (fun _ _ => True) (f a) t) :
    Prog.Keeps (KeyConsistent crypto) (Preserves crypto) (fun _ _ => True) (p >>= f) w :=
  keeps_seq h hok fun _ _ _ _ => trivial

theorem keeps_keep (id : Nat) (key : VaultMasterKey) {w : VaultWorld}
    (hinit : Initialised crypto w) :
    Prog.Keeps (KeyConsistent crypto) (Preserves crypto) (fun _ t => Initialised crypto t)
      (VaultKeyProvider.keep id key) w := by
  refine Prog.Keeps.atomic fun s hs hI => ?_
  have hstep : ∀ unsealed, KeyConsistent crypto { s with unsealed := unsealed } ∧
      Preserves crypto s { s with unsealed := unsealed } :=
    fun _ => hI.step_initialised (hinit.later hs) (.refl _) rfl
  exact ⟨(hstep _).1,(hstep _).2,fun t ht _ => hinit.later (hs.trans ((hstep _).2.trans ht))⟩

/-- A passphrase is tried only on a vault that is keyed. -/
theorem keeps_loadActiveKey (passphrase : Option String) (w : VaultWorld) :
    Prog.Keeps (KeyConsistent crypto) (Preserves crypto)
      (fun r t => ∀ key, r = .ok key → Initialised crypto t)
      (VaultKeyProvider.loadActiveKey env crypto passphrase) w := by
  cases passphrase with
  | none => exact Prog.Keeps.done fun _ _ _ _ h => by cases h
  | some passphrase =>
    refine keeps_seq (keeps_read env Vault.metadata w) (fun metadata t _ hread => ?_)
      fun _ _ _ _ _ h => by cases h
    obtain ⟨s,_,hI,hlater,rfl⟩ := hread metadata rfl
    cases hm : s.vault.metadata with
    | none => exact Prog.Keeps.done fun _ _ _ _ h => by cases h
    | some metadata =>
      have hinit : Initialised crypto t := (hI.initialised (by simp [hm])).later hlater
      exact Prog.Keeps.done fun t' ht' _ _ _ => hinit.later ht'

/-- A provider that is kept in memory gives out a key only if the vault is keyed. -/
theorem keeps_getActiveKey (id : Nat) (passphrase : Option String) (w : VaultWorld) :
    Prog.Keeps (KeyConsistent crypto) (Preserves crypto)
      (fun r t => ∀ key, r = .ok key → Initialised crypto t)
      (VaultKeyProvider.getActiveKey env crypto (.unsealed id passphrase)) w := by
  refine Prog.Keeps.bind Preserves.refl (Prog.Keeps.atomic fun s _ hI => ?_)
  refine ⟨hI,.refl s,fun t ht _ => ?_⟩
  cases hcached : s.unsealed id with
  | some key =>
    refine Prog.Keeps.done fun t' ht' _ _ _ => ?_
    rcases hI.vault with ⟨_,hnone⟩ | hinit
    · cases (hnone id).symm.trans hcached
    · exact hinit.later (ht.trans ht')
  | none =>
    refine keeps_seq (keeps_loadActiveKey env passphrase t) (fun key t₁ _ hinit => ?_)
      fun _ _ _ _ _ h => by cases h
    refine keeps_seq (keeps_keep id key (hinit key rfl)) (fun _ t₂ _ hinit₂ => ?_)
      fun _ _ _ _ _ h => by cases h
    exact Prog.Keeps.done fun t₃ ht₃ _ _ _ => hinit₂.later ht₃

theorem keeps_activeKey (provider : VaultKeyProvider) (w : VaultWorld) :
    Prog.Keeps (KeyConsistent crypto) (Preserves crypto) (fun _ _ => True)
      (provider.getActiveKey env crypto) w := by
  cases provider with
  | static first others => exact keeps_done _ _
  | unsealed id passphrase =>
    exact (keeps_getActiveKey env id passphrase w).weaken fun _ _ _ _ => trivial

theorem keeps_candidates (provider : VaultKeyProvider) (version : String) (w : VaultWorld) :
    Prog.Keeps (KeyConsistent crypto) (Preserves crypto) (fun _ _ => True)
      (provider.candidateMasterKeys env crypto version) w := by
  have hactive := @keeps_activeKey env crypto provider
  cases provider with
  | static first others => exact keeps_done _ _
  | unsealed id passphrase =>
    refine keeps_then (keeps_then (hactive w) fun _ t _ _ => keeps_done _ t) fun _ t _ _ => ?_
    exact keeps_then (keeps_then (hactive t) fun _ t' _ _ => keeps_done _ t') fun _ t' _ _ =>
      keeps_done _ t'

theorem keeps_unwrapDek (provider : VaultKeyProvider) (errors : DekErrors) (d : VaultDekRecord)
    (w : VaultWorld) :
    Prog.Keeps (KeyConsistent crypto) (Preserves crypto) (fun _ _ => True)
      (unwrapDek env crypto provider errors d) w :=
  keeps_then (keeps_candidates env provider _ w) fun _ t _ _ => keeps_done _ t

/-- A result that comes through a renaming of the errors. -/
theorem keeps_mapError {Q : A → VaultWorld → Prop} {f : VaultError → VaultError} {p : VaultM A}
    {w : VaultWorld} (h : Prog.Keeps (KeyConsistent crypto) (Preserves crypto)
      (fun r t => ∀ a, r = .ok a → Q a t) p w) :
    Prog.Keeps (KeyConsistent crypto) (Preserves crypto) (fun r t => ∀ a, r = .ok a → Q a t)
      (mapError f p) w := by
  refine Prog.Keeps.rethrow (h.weaken fun r t _ hr a ha => ?_)
  cases r with
  | ok a' => exact hr a ha
  | error e => cases ha

theorem keeps_renamed {Q : Except VaultError A → VaultWorld → Prop}
    {f : VaultError → VaultError} {p : VaultM A} {w : VaultWorld}
    (h : Prog.Keeps (KeyConsistent crypto) (Preserves crypto) Q p w) :
    Prog.Keeps (KeyConsistent crypto) (Preserves crypto) (fun _ _ => True) (mapError f p) w :=
  Prog.Keeps.rethrow (h.weaken fun _ _ _ _ => trivial)

theorem keeps_verifyProbe (provider : VaultKeyProvider) (probe : VaultProbeRecord)
    (w : VaultWorld) :
    Prog.Keeps (KeyConsistent crypto) (Preserves crypto) (fun _ _ => True)
      (VaultStartupGuard.verifyProbe env crypto provider probe) w := by
  have hdek : Prog.Keeps (KeyConsistent crypto) (Preserves crypto) (fun _ _ => True)
      (VaultStartupGuard.loadProbeDek env probe) w := by
    refine keeps_then (keeps_renamed (keeps_read env _ w)) fun d t _ _ => ?_
    cases d <;> exact keeps_done _ t
  refine keeps_then hdek fun d t _ _ => keeps_then (keeps_unwrapDek env provider _ d t)
    fun plain t' _ _ => ?_
  refine keeps_then (keeps_renamed (keeps_done _ t')) fun payload t'' _ _ => ?_
  split <;> exact keeps_done _ t''

/-- In a keyed vault the guard finds a probe and makes none. -/
theorem keeps_obtainProbe (provider : VaultKeyProvider) (activeKey : VaultMasterKey)
    (readonly : Bool) {w : VaultWorld} (hinit : Initialised crypto w) :
    Prog.Keeps (KeyConsistent crypto) (Preserves crypto) (fun _ _ => True)
      (VaultStartupGuard.obtainProbe env crypto provider activeKey readonly) w := by
  have hload : Prog.Keeps (KeyConsistent crypto) (Preserves crypto)
      (fun r _ => ∀ probe, r = .ok probe → probe.isSome = true)
      (VaultStartupGuard.loadProbe env) w := by
    refine keeps_mapError ((keeps_read env (fun v => v.probe) w).weaken fun r t _ hr probe h => ?_)
    obtain ⟨s,hs,_,_,rfl⟩ := hr probe h
    obtain ⟨key,hkeyed⟩ := hinit.later hs
    exact hkeyed.probe
  refine keeps_then hload fun probe t _ hsome => ?_
  cases probe with
  | some probe => exact keeps_done _ t
  | none => cases hsome none rfl

/-- The guard of a keyed vault, once it has a key. -/
theorem keeps_guard (provider : VaultKeyProvider) (activeKey : VaultMasterKey) {w : VaultWorld}
    (hinit : Initialised crypto w) :
    Prog.Keeps (KeyConsistent crypto) (Preserves crypto) (fun _ _ => True)
      (do
        let readonly ← env.isReadonly
        let probe ← VaultStartupGuard.obtainProbe env crypto provider activeKey readonly
        Prog.ofExcept (VaultStartupGuard.validateProbeRecord probe)
        VaultStartupGuard.verifyProbe env crypto provider probe
        if readonly then throw ⟨.startupStorageReadonly,"Vault storage is readonly",
          "readonly_storage"⟩ : VaultM Unit) w := by
  refine keeps_then (keeps_isReadonly env w) fun readonly t ht _ => ?_
  refine keeps_then (keeps_obtainProbe env provider activeKey readonly (hinit.later ht))
    fun probe t₁ _ _ => keeps_then (keeps_done _ t₁) fun _ t₂ _ _ => ?_
  refine keeps_then (keeps_verifyProbe env provider probe t₂) fun _ t₃ _ _ => ?_
  split <;> exact keeps_done _ t₃

theorem keeps_postVerify (key : VaultMasterKey) {w : VaultWorld} (hinit : Initialised crypto w) :
    Prog.Keeps (KeyConsistent crypto) (Preserves crypto) (fun _ _ => True)
      (VaultKeyManagement.postVerify env crypto key) w :=
  keeps_then (keeps_activeKey env _ w) fun activeKey _ ht _ =>
    keeps_guard env _ activeKey (hinit.later ht)

/-- The guard at the start of an import. -/
theorem keeps_ensureReady (id : Nat) (passphrase : Option String) (w : VaultWorld) :
    Prog.Keeps (KeyConsistent crypto) (Preserves crypto) (fun _ _ => True)
      (VaultStartupGuard.ensureReady env crypto (.unsealed id passphrase)) w :=
  keeps_then (keeps_getActiveKey env id passphrase w) fun activeKey _ _ hinit =>
    keeps_guard env _ activeKey (hinit activeKey rfl)

theorem keeps_openRecord (provider : VaultKeyProvider) (record : SecretRow) (w : VaultWorld) :
    Prog.Keeps (KeyConsistent crypto) (Preserves crypto) (fun _ _ => True)
      (SecretVaultReadService.openRecord env crypto provider record) w := by
  refine keeps_then (keeps_read env _ w) fun dek t _ _ => ?_
  cases dek with
  | none => exact keeps_done _ t
  | some dek =>
    exact keeps_then (keeps_unwrapDek env provider _ dek t) fun _ t' _ _ => keeps_done _ t'

theorem keeps_getSecret (provider : VaultKeyProvider) (defaultRunId : Option String)
    (dataset field : String) (sourceRef : Option Fields) (runId : Option String) (w : VaultWorld) :
    Prog.Keeps (KeyConsistent crypto) (Preserves crypto) (fun _ _ => True)
      (SecretVaultReadService.getSecret env crypto provider defaultRunId dataset field sourceRef
        runId) w := by
  unfold SecretVaultReadService.getSecret
  cases normalizeSourceRef sourceRef with
  | none => exact keeps_done _ w
  | some matchKey =>
    refine keeps_renamed (keeps_then (keeps_done _ w) fun locatorHash t _ _ =>
      keeps_then (keeps_read env _ t) fun row t' _ _ => ?_)
    cases row with
    | none => exact keeps_done _ t'
    | some row =>
      exact keeps_then (keeps_openRecord env provider row t') fun _ t'' _ _ => keeps_done _ t''

end Steps

section Storing

variable (env : VaultEnv) {crypto : VaultCrypto} {key : VaultMasterKey}

/-- Whatever candidate opens a data key, it opens to what was wrapped. -/
theorem WrappedUnder.unwrapWith_eq (hc : crypto.Correct) {d : VaultDekRecord}
    {plain plain' : String} {failed : VaultError} {keys : List VaultMasterKey}
    (hd : WrappedUnder crypto key d plain)
    (h : NexusEtl.unwrapWith crypto d failed keys = .ok plain') :
    plain' = plain := by
  induction keys with
  | nil => cases h
  | cons key' keys ih =>
    obtain ⟨nonce,hwrapped⟩ := hd.wrapped
    rw [NexusEtl.unwrapWith, hwrapped, hc.fernet.unwrapDek hd.algo hd.masterKey nonce plain] at h
    by_cases hk : crypto.fernet.validKey key'.keyMaterial = true
    · rw [if_pos hk] at h
      by_cases hsame : key'.keyMaterial = key.keyMaterial
      · rw [if_pos hsame] at h
        exact (Except.ok.inj h).symm
      · rw [if_neg hsame] at h
        exact ih (by simpa using h)
    · rw [if_neg hk] at h
      simp at h

theorem ends_loadActiveKey_same (passphrase : Option String) (w : VaultWorld) :
    Prog.Ends (fun _ w' => SameVault w w')
      (VaultKeyProvider.loadActiveKey env crypto passphrase) w := by
  cases passphrase with
  | none => exact Prog.Ends.throw (.refl w)
  | some passphrase =>
    refine Prog.Ends.bind ((ends_read env Vault.metadata w).mono fun r w₁ hr => ?_)
    obtain ⟨⟨hsame,_⟩,rfl | ⟨e,rfl,_⟩⟩ := hr
    · cases w.vault.metadata with
      | none => exact Prog.Ends.throw hsame
      | some metadata => exact Prog.Ends.ofExcept hsame
    · exact hsame

theorem ends_activeKey_same (provider : VaultKeyProvider) (w : VaultWorld) :
    Prog.Ends (fun _ w' => SameVault w w') (provider.getActiveKey env crypto) w := by
  cases provider with
  | static first others => exact Prog.Ends.pure (.refl w)
  | unsealed id passphrase =>
    refine Prog.Ends.bind (Prog.Ends.atomic ?_)
    dsimp only
    cases w.unsealed id with
    | some key => exact Prog.Ends.pure (.refl w)
    | none =>
      refine Prog.Ends.bind ((ends_loadActiveKey_same env passphrase w).mono fun r w₁ hsame => ?_)
      cases r with
      | error e => exact hsame
      | ok key =>
        exact Prog.Ends.bind (Prog.Ends.atomic
          (Prog.Ends.pure ⟨hsame.vault,hsame.inTransaction⟩))

theorem ends_candidates_same (provider : VaultKeyProvider) (version : String) (w : VaultWorld) :
    Prog.Ends (fun _ w' => SameVault w w')
      (provider.candidateMasterKeys env crypto version) w := by
  have hactive := @ends_activeKey_same env crypto provider
  cases provider with
  | static first others => exact Prog.Ends.pure (.refl w)
  | unsealed id passphrase =>
    refine Prog.Ends.bind (Prog.Ends.bind ((hactive w).mono fun r w₁ hsame => ?_))
    cases r with
    | error e => exact hsame
    | ok key =>
      refine Prog.Ends.pure (Prog.Ends.bind (Prog.Ends.bind
        ((hactive w₁).mono fun r w₂ hsame₂ => ?_)))
      cases r with
      | error e => exact hsame.trans hsame₂
      | ok key => exact Prog.Ends.pure (Prog.Ends.pure (hsame.trans hsame₂))

/-- With an active data key none is made, and what it opens to was wrapped with the master key,
whatever keys the provider has. -/
theorem ends_ensureActiveDek_active (hc : crypto.Correct) (provider : VaultKeyProvider)
    (errors : DekErrors) (activeKey : VaultMasterKey) (now : String) {w : VaultWorld}
    (hwrapped : ∀ d ∈ w.vault.deks.rows, ∃ plain, WrappedUnder crypto key d plain)
    (hactive : ∃ d ∈ w.vault.deks.rows, d.isActive = true) :
    Prog.Ends (fun r w' => SameVault w w' ∧ ∀ d plain, r = .ok (d,plain) →
      d ∈ w.vault.deks.rows ∧ WrappedUnder crypto key d plain)
      (ensureActiveDek env crypto provider errors activeKey now) w := by
  refine Prog.Ends.bind (ends_mapError ((ends_read env _ w).mono fun r w₁ hr => ?_))
  obtain ⟨⟨hsame,_⟩,rfl | ⟨e,rfl,_⟩⟩ := hr
  · simp only [Except.mapError]
    cases hget : w.vault.deks.getActiveDek with
    | none =>
      obtain ⟨d,hd,ha⟩ := hactive
      simp [DekTable.getActiveDek_eq_none.mp hget d hd] at ha
    | some d =>
      have hd := (DekTable.getActiveDek_mem hget).1
      refine Prog.Ends.bind (Prog.Ends.bind ((ends_candidates_same env provider _ w₁).mono
        fun r w₂ hsame₂ => ?_))
      cases r with
      | error e => exact ⟨hsame.trans hsame₂,fun _ _ h => by cases h⟩
      | ok keys =>
        refine Prog.Ends.ofExcept ?_
        cases hopen : unwrapWith crypto d errors.unwrapFailed keys with
        | error e => exact ⟨hsame.trans hsame₂,fun _ _ h => by cases h⟩
        | ok plain =>
          refine Prog.Ends.pure ⟨hsame.trans hsame₂,fun d' plain' h => ?_⟩
          obtain ⟨rfl,rfl⟩ := Prod.mk.inj (Except.ok.inj h)
          obtain ⟨plain₀,hplain⟩ := hwrapped d hd
          exact ⟨hd,hplain.unwrapWith_eq hc hopen ▸ hplain⟩
  · exact ⟨hsame,fun _ _ h => by cases h⟩

/-- What holds of the stored secrets and of the written ones holds of all after the writes. -/
theorem SecretTable.forall_foldl_upsert {P : VaultSecretRecord → Prop}
    (hoverwrite : ∀ (r : SecretRow) record, P record → P (r.overwrite record).toVaultSecretRecord)
    {records : List VaultSecretRecord} (hrecords : ∀ record ∈ records, P record)
    {t : SecretTable} (ht : ∀ r ∈ t.rows, P r.toVaultSecretRecord) :
    ∀ r ∈ (records.foldl SecretTable.upsert t).rows, P r.toVaultSecretRecord := by
  induction records generalizing t with
  | nil => exact ht
  | cons record records ih =>
    refine ih (fun r hr => hrecords r (List.mem_cons_of_mem _ hr)) fun r hr => ?_
    have hrecord := hrecords record List.mem_cons_self
    rcases SecretTable.mem_upsert.mp hr with ⟨hr,_⟩ | ⟨old,_,_,rfl⟩ | ⟨_,rfl⟩
    · exact ht r hr
    · exact hoverwrite old record hrecord
    · exact hrecord

theorem mem_of_written {deks : DekTable} {dataset matchKey : String} {runId : Option String}
    {secrets : List (String × String)} {records : List VaultSecretRecord}
    (h : List.Forall₂ (Written crypto key deks dataset matchKey runId) secrets records)
    {record : VaultSecretRecord} (hr : record ∈ records) :
    ∃ secret, RecordHolds crypto key deks record secret := by
  induction h with
  | nil => cases hr
  | cons hfirst _ ih =>
    rcases List.mem_cons.mp hr with rfl | hr
    · exact ⟨_,hfirst.holds⟩
    · exact ih hr

/-- Secrets that hold under the same keys may be added and overwritten. -/
theorem KeyedVault.withSecrets {v : Vault} (h : KeyedVault crypto key v)
    {records : List VaultSecretRecord} (hrecords : ∀ record ∈ records, ∃ secret,
      RecordHolds crypto key v.deks record secret) :
    KeyedVault crypto key
      { v with secrets := records.foldl SecretTable.upsert v.secrets } := by
  refine ⟨h.described,h.wrapped,h.active,h.probe,?_⟩
  exact SecretTable.forall_foldl_upsert (fun r record hr => hr) hrecords h.secrets

/-- A transaction that fails leaves a consistent vault as it was. -/
theorem KeyConsistent.failed {w w' : VaultWorld} (h : KeyConsistent crypto w)
    (hsame : SameVault w w') (hu : (∀ id, w.unsealed id = none) → BlankVault w.vault →
      ∀ id, w'.unsealed id = none) : KeyConsistent crypto w' ∧ Preserves crypto w w' := by
  rcases h.vault with ⟨hblank,hnone⟩ | hinit
  · refine ⟨⟨hsame.inTransaction.trans h.idle,.inl ⟨hblank.of_same (.of_eq hsame.vault),
      hu hnone hblank⟩⟩,fun key hkeyed => ?_⟩
    rw [hsame.vault]
    exact ⟨key,hkeyed,fun _ _ hr => hr⟩
  · exact h.step_initialised hinit (.of_eq hsame.vault) hsame.inTransaction

/-- Without a key in memory nor metadata no key is given out. -/
theorem ends_activeKey_blank (id : Nat) (passphrase : Option String) (w : VaultWorld)
    (hnone : w.unsealed id = none) (hm : w.vault.metadata = none) :
    Prog.Ends (fun r w' => SameVault w w' ∧ w'.unsealed = w.unsealed ∧ ∃ e, r = .error e)
      (VaultKeyProvider.getActiveKey env crypto (.unsealed id passphrase)) w := by
  refine Prog.Ends.bind (Prog.Ends.atomic ?_)
  simp only [hnone]
  have hload : Prog.Ends (fun r w' => SameVault w w' ∧ w'.unsealed = w.unsealed ∧
      ∃ e, r = .error e) (VaultKeyProvider.loadActiveKey env crypto passphrase) w := by
    cases passphrase with
    | none => exact Prog.Ends.throw ⟨.refl w,rfl,_,rfl⟩
    | some passphrase =>
      refine Prog.Ends.bind ((ends_read env Vault.metadata w).mono fun r w₁ hr => ?_)
      obtain ⟨⟨hsame,hu⟩,rfl | ⟨e,rfl,_⟩⟩ := hr
      · simp only [hm]
        exact Prog.Ends.throw ⟨hsame,hu,_,rfl⟩
      · exact ⟨hsame,hu,e,rfl⟩
  refine Prog.Ends.bind (hload.mono fun r w₁ hr => ?_)
  obtain ⟨hsame,hu,e,rfl⟩ := hr
  exact ⟨hsame,hu,e,rfl⟩

/-- The transaction of `put_many`, for an importer whose key may be outdated. -/
theorem ends_putTransaction (hc : crypto.Correct) (id : Nat) (passphrase : Option String)
    (dataset matchKey now : String) (runId : Option String) (secrets : List (String × String))
    {w : VaultWorld} (hI : KeyConsistent crypto w) :
    Prog.Ends (fun _ w' => KeyConsistent crypto w' ∧ Preserves crypto w w')
      (env.transaction (do
        let activeKey ← VaultKeyProvider.getActiveKey env crypto (.unsealed id passphrase)
        let dek ← ensureActiveDek env crypto (.unsealed id passphrase)
          SecretVaultWriteService.dekErrors activeKey now
        SecretVaultWriteService.storeSecrets env crypto dataset matchKey runId now activeKey dek
          secrets)) w := by
  refine ends_transaction env hI.idle
    (fun e w' hsame hu => hI.failed hsame fun hnone _ id => hu ▸ hnone id) ?_
  rcases hI.vault with ⟨hblank,hnone⟩ | ⟨key,hkeyed⟩
  · have hactive : Prog.Ends (fun r w' => w'.unsealed = w.unsealed ∧ ∃ e, r = .error e)
        (VaultKeyProvider.getActiveKey env crypto (.unsealed id passphrase))
        { w with calls := w.calls + 1, inTransaction := true } :=
      (ends_activeKey_blank env id passphrase { w with calls := w.calls + 1, inTransaction := true }
        (hnone id) hblank.metadata).mono fun _ _ hr => hr.2
    refine Prog.Ends.bind (hactive.mono fun r w₁ hr => ?_)
    obtain ⟨hu,e,rfl⟩ := hr
    exact ⟨fun e w' hsame hu' => hI.failed hsame fun hnone _ id => (hu'.trans hu) ▸ hnone id,
      fun a w' h => by cases h⟩
  · have hfailed : ∀ w', SameVault w w' → KeyConsistent crypto w' ∧ Preserves crypto w w' :=
      fun w' hsame => hI.step_initialised ⟨key,hkeyed⟩ (.of_eq hsame.vault) hsame.inTransaction
    refine Prog.Ends.bind ((ends_activeKey_same env _ _).mono fun r w₁ hsame => ?_)
    cases r with
    | error e => exact ⟨fun e w' hsame' _ => hfailed w' hsame',fun a w' h => by cases h⟩
    | ok activeKey =>
      have hv : w₁.vault = w.vault := hsame.vault
      have hkeyed₁ : KeyedVault crypto key w₁.vault := hv ▸ hkeyed
      refine Prog.Ends.bind ((ends_ensureActiveDek_active env hc _ _ activeKey now
        hkeyed₁.wrapped hkeyed₁.active).mono fun r w₂ hr => ?_)
      obtain ⟨hsame₂,hdek⟩ := hr
      cases r with
      | error e => exact ⟨fun e w' hsame' _ => hfailed w' hsame',fun a w' h => by cases h⟩
      | ok pair =>
        obtain ⟨d,plain⟩ := pair
        obtain ⟨hmem,hwrapped⟩ := hdek d plain rfl
        rw [← hsame₂.vault] at hmem
        refine (ends_storeSecrets env hwrapped secrets hmem).mono fun r w₃ hr => ?_
        refine ⟨fun e w' hsame' _ => hfailed w' hsame',fun a w' hr' hv' hu' hin => ?_⟩
        obtain ⟨records,hrecords,hv₃⟩ := hr.2.2 hr'
        rw [hsame₂.vault, hv] at hv₃ hrecords
        have hkeyed' : KeyedVault crypto key w'.vault := by
          rw [hv', hv₃]
          exact hkeyed.withSecrets fun record hrecord => mem_of_written hrecords hrecord
        refine ⟨⟨hin,.inr ⟨key,hkeyed'⟩⟩,.of_keyed hc hkeyed hkeyed' ?_⟩
        rw [hv', hv₃]
        exact fun r secret hr => hr

end Storing

section Managing

variable (env : VaultEnv) {crypto : VaultCrypto} {key old new : VaultMasterKey}

/-- A key that opens a wrapped data key has the material of its master key. -/
theorem WrappedUnder.material_eq (hc : crypto.Correct) {d : VaultDekRecord} {plain plain' : String}
    (hd : WrappedUnder crypto key d plain) (h : Opens crypto old d plain') :
    old.keyMaterial = key.keyMaterial ∧ plain' = plain := by
  obtain ⟨nonce,hwrapped⟩ := hd.wrapped
  unfold Opens at h
  rw [hwrapped, hc.fernet.unwrapDek hd.algo hd.masterKey] at h
  split at h
  · split at h
    · exact ⟨‹_›,(Except.ok.inj h).symm⟩
    · cases h
  · cases h

/-- The data keys of a keyed vault, wrapped anew. -/
theorem NewWrapping.wrappedUnder (hc : crypto.Correct) {d d' : VaultDekRecord} {plain : String}
    (hk : crypto.fernet.validKey new.keyMaterial = true) (h : NewWrapping crypto old new d d')
    (hd : WrappedUnder crypto key d plain) : WrappedUnder crypto new d' plain := by
  obtain ⟨plain',nonce,hopens,hwrapped⟩ := h.plain
  obtain ⟨_,rfl⟩ := hd.material_eq hc hopens
  exact ⟨h.algo,hk,hd.dataKey,nonce,hwrapped⟩

theorem WrappedUnder.of_material {key' : VaultMasterKey} {d : VaultDekRecord} {plain : String}
    (hd : WrappedUnder crypto key d plain) (h : key'.keyMaterial = key.keyMaterial) :
    WrappedUnder crypto key' d plain := by
  obtain ⟨nonce,hwrapped⟩ := hd.wrapped
  exact ⟨hd.algo,h ▸ hd.masterKey,hd.dataKey,nonce,h ▸ hwrapped⟩

/-- A keyed vault whose data keys are wrapped anew with the key that its metadata describe. -/
theorem KeyedVault.rewrapped (hc : crypto.Correct)
    (hk : crypto.fernet.validKey new.keyMaterial = true) {v v' : Vault}
    (h : KeyedVault crypto key v) (htable : RewrappedTable crypto old new v.deks v'.deks)
    (hprobe : v'.probe = v.probe) (hsecrets : v'.secrets = v.secrets) {key' : VaultMasterKey}
    (hdescribed : ∃ metadata, v'.metadata = some metadata ∧ Describes crypto metadata key')
    (hsame : key'.keyMaterial = new.keyMaterial) :
    KeyedVault crypto key' v' ∧ ∀ r secret, RecordHolds crypto key v.deks r secret →
      RecordHolds crypto key' v'.deks r secret := by
  have hholds : ∀ r secret, RecordHolds crypto key v.deks r secret →
      RecordHolds crypto key' v'.deks r secret := by
    rintro r secret ⟨halgo,d,hd,hversion,plain,hwrapped,hcipher⟩
    obtain ⟨d',hd',hwrapping⟩ := htable.kept d hd
    exact ⟨halgo,d',hd',hwrapping.version.trans hversion,plain,
      (hwrapping.wrappedUnder hc hk hwrapped).of_material hsame,hcipher⟩
  refine ⟨⟨hdescribed,fun d' hd' => ?_,?_,hprobe ▸ h.probe,fun r hr => ?_⟩,hholds⟩
  · obtain ⟨d,hd,hwrapping⟩ := htable.source d' hd'
    obtain ⟨plain,hwrapped⟩ := h.wrapped d hd
    exact ⟨plain,(hwrapping.wrappedUnder hc hk hwrapped).of_material hsame⟩
  · obtain ⟨d,hlast⟩ := Option.isSome_iff_exists.mp (DekTable.lastActive_isSome_iff.mpr h.active)
    obtain ⟨d',hd',_,ha⟩ := (htable.active d.dekVersion).mpr (by simp [hlast])
    exact ⟨d',hd',ha⟩
  · rw [hsecrets] at hr
    obtain ⟨secret,hr⟩ := h.secrets r hr
    exact ⟨secret,hholds _ secret hr⟩

/-- The transaction of a rotation or a rewrap, for keys that may be outdated. -/
theorem ends_rewrapConsistent (hc : crypto.Correct)
    (hk : crypto.fernet.validKey new.keyMaterial = true) (runId reason updatedAt : String)
    (newMetadata : Option VaultUnsealMetadata)
    (hnew : ∀ metadata, newMetadata = some metadata → ∃ passphrase, ∀ createdAt,
      crypto.kdf.deriveKey passphrase { metadata with createdAt := createdAt } = .ok new)
    (hold : newMetadata = none → old = new) {w : VaultWorld} (hI : KeyConsistent crypto w)
    (hinit : Initialised crypto w) :
    Prog.Ends (fun _ w' => KeyConsistent crypto w' ∧ Preserves crypto w w')
      (env.transaction do
        VaultKeyManagement.setLastRotationRunId env runId
        VaultKeyManagement.setLastRotationResult env "rotating" reason
        VaultKeyManagement.storeMetadata env newMetadata
        let records ← env.read fun v => v.deks.listDeks
        VaultKeyManagement.rewrapDeks env crypto new [old] updatedAt records) w := by
  refine (ends_rewrapTransaction env hk runId reason updatedAt newMetadata hI.idle).mono
    fun r w' hr => ?_
  obtain ⟨hout,_,⟨news,rfl,hnews,hdeks,hm,hprobes,hsecrets,_,_⟩ | ⟨e,rfl,hv,_⟩⟩ := hr
  · obtain ⟨key,hkeyed⟩ := hinit
    have htable := RewrappedTable.of_foldl hnews
    rw [← hdeks] at htable
    have hdescribed : ∃ key', (∃ metadata, w'.vault.metadata = some metadata ∧
        Describes crypto metadata key') ∧ key'.keyMaterial = new.keyMaterial := by
      cases newMetadata with
      | some metadata =>
        obtain ⟨passphrase,hderives⟩ := hnew metadata rfl
        exact ⟨new,⟨_,hm,passphrase,hderives _⟩,rfl⟩
      | none =>
        obtain ⟨d,hd,_⟩ := hkeyed.active
        obtain ⟨plain,hwrapped⟩ := hkeyed.wrapped d hd
        obtain ⟨_,_,hwrapping⟩ := htable.kept d hd
        obtain ⟨plain',_,hopens,_⟩ := hwrapping.plain
        refine ⟨key,?_,?_⟩
        · rw [hm]
          exact hkeyed.described
        · rw [← hold rfl]
          exact (hwrapped.material_eq hc hopens).1.symm
    obtain ⟨key',hdescribed,hsame⟩ := hdescribed
    obtain ⟨hkeyed',hholds⟩ := hkeyed.rewrapped hc hk htable (congrArg (Dict.get? · _) hprobes)
      hsecrets hdescribed hsame
    exact ⟨⟨hout,.inr ⟨key',hkeyed'⟩⟩,.of_keyed hc hkeyed hkeyed' hholds⟩
  · exact hI.step_initialised hinit (.of_eq hv) (hout.trans hI.idle.symm)

theorem RecordHolds.of_material {key' : VaultMasterKey} {deks : DekTable} {r : VaultSecretRecord}
    {secret : String} (hr : RecordHolds crypto key deks r secret)
    (h : key'.keyMaterial = key.keyMaterial) : RecordHolds crypto key' deks r secret := by
  obtain ⟨halgo,d,hd,hversion,plain,hwrapped,hcipher⟩ := hr
  exact ⟨halgo,d,hd,hversion,plain,hwrapped.of_material h,hcipher⟩

/-- A blank vault that an initialisation verified is keyed. -/
theorem BlankVault.initialised {v v' : Vault} (h : BlankVault v)
    (hdescribed : ∃ metadata, v'.metadata = some metadata ∧ Describes crypto metadata key)
    (hdeks : VerifiedDeks env crypto key v v'.deks) (hprobe : v'.probe.isSome = true)
    (hsecrets : v'.secrets = v.secrets) : KeyedVault crypto key v' := by
  rcases hdeks with ⟨hsome,_⟩ | ⟨_,d,plain,huses⟩
  · rw [h.probe] at hsome
    cases hsome
  · obtain ⟨hactive,_⟩ | ⟨_,heq,ha,_,hwrapped,_⟩ := huses.source
    · have hd := (DekTable.getActiveDek_mem hactive).1
      rw [h.deks] at hd
      cases hd
    · have hrows : v'.deks.rows = [d] := heq ▸ DekTable.upsertDek_of_nil h.deks d
      refine ⟨hdescribed,fun d' hd' => ?_,⟨d,by simp [hrows],ha⟩,hprobe,fun r hr => ?_⟩
      · rw [hrows, List.mem_singleton] at hd'
        exact ⟨plain,hd' ▸ hwrapped⟩
      · rw [hsecrets, h.secrets] at hr
        cases hr

/-- A keyed vault passes the verification of an initialisation only with its own key. -/
theorem KeyedVault.initialised (hc : crypto.Correct) {v v' : Vault} (h : KeyedVault crypto old v)
    (hdescribed : ∃ metadata, v'.metadata = some metadata ∧ Describes crypto metadata key)
    (hdeks : VerifiedDeks env crypto key v v'.deks) (hprobe : v'.probe.isSome = true)
    (hsecrets : v'.secrets = v.secrets) (hsound : Sound crypto key v) :
    KeyedVault crypto key v' ∧ ∀ r secret, RecordHolds crypto old v.deks r secret →
      RecordHolds crypto key v'.deks r secret := by
  obtain ⟨probe,hstored⟩ := Option.isSome_iff_exists.mp h.probe
  have heq : v'.deks = v.deks := by
    rcases hdeks with ⟨_,heq⟩ | ⟨hnone,_⟩
    · exact heq
    · cases hstored.symm.trans hnone
  have hsame : key.keyMaterial = old.keyMaterial := by
    unfold Sound at hsound
    rw [hstored] at hsound
    obtain ⟨_,d,hget,plain,hopens,_⟩ := hsound
    obtain ⟨plain',hwrapped⟩ := h.wrapped d (DekTable.getDek_mem hget).1
    exact (hwrapped.material_eq hc hopens).1
  have hholds : ∀ r secret, RecordHolds crypto old v.deks r secret →
      RecordHolds crypto key v'.deks r secret := fun r secret hr => heq ▸ hr.of_material hsame
  refine ⟨⟨hdescribed,fun d hd => ?_,heq ▸ h.active,hprobe,fun r hr => ?_⟩,hholds⟩
  · obtain ⟨plain,hwrapped⟩ := h.wrapped d (heq ▸ hd)
    exact ⟨plain,hwrapped.of_material hsame⟩
  · obtain ⟨secret,hr⟩ := h.secrets r (hsecrets ▸ hr)
    exact ⟨secret,hholds _ secret hr⟩

theorem ends_initConsistent (hc : crypto.Correct) (hrandom : env.Random)
    {metadata : VaultUnsealMetadata}
    (hk : crypto.fernet.validKey key.keyMaterial = true) (hnamed : key.keyVersion ≠ "")
    (hderives : ∃ passphrase, ∀ createdAt,
      crypto.kdf.deriveKey passphrase { metadata with createdAt := createdAt } = .ok key)
    {w : VaultWorld} (hI : KeyConsistent crypto w) :
    Prog.Ends (fun _ w' => KeyConsistent crypto w' ∧ Preserves crypto w w')
      (env.transaction do
        env.write fun v => v.upsertUnsealMetadata metadata
        VaultKeyManagement.postVerify env crypto key) w := by
  have hfailed : ∀ w', SameVault w w' → w'.unsealed = w.unsealed →
      KeyConsistent crypto w' ∧ Preserves crypto w w' :=
    fun w' hsame hu => hI.failed hsame fun hnone _ id => hu ▸ hnone id
  refine ends_transaction env hI.idle (fun _ w' => hfailed w') ?_
  refine Prog.Ends.bind ((ends_write_clear env _ _).mono fun r w₁ hr => ?_)
  obtain ⟨rfl,_,rfl⟩ | ⟨e,rfl,_,rfl⟩ := hr
  · refine Prog.Ends.bind (Prog.Ends.pure (Prog.Ends.bind (Prog.Ends.atomic ?_)))
    refine (ends_ready env hc hrandom hk hnamed false _).mono fun r w₂ hr => ?_
    obtain ⟨⟨_,hu,hm,hs⟩,hr⟩ := hr
    refine ⟨fun _ w' hsame hu' => hfailed w' hsame (hu'.trans hu),
      fun a w' hok hv hu' hin => ?_⟩
    obtain ⟨_,hdeks,hprobe,_,_,_,hsound⟩ | ⟨e,rfl,_⟩ := hr
    · rw [← hv] at hdeks hprobe hm hs
      obtain ⟨passphrase,hderives⟩ := hderives
      have hdescribed : ∃ metadata, w'.vault.metadata = some metadata ∧
          Describes crypto metadata key := ⟨_,hm,passphrase,hderives _⟩
      rcases hI.vault with ⟨hblank,_⟩ | ⟨old,hkeyed⟩
      · have hkeyed' := hblank.initialised env hdescribed hdeks hprobe hs
        refine ⟨⟨hin,.inr ⟨key,hkeyed'⟩⟩,fun key₀ hkeyed => ?_⟩
        obtain ⟨metadata₀,hm₀,_⟩ := hkeyed.described
        cases hblank.metadata.symm.trans hm₀
      · obtain ⟨hkeyed',hholds⟩ :=
          hkeyed.initialised env hc hdescribed hdeks hprobe hs hsound
        exact ⟨⟨hin,.inr ⟨key,hkeyed'⟩⟩,.of_keyed hc hkeyed hkeyed' hholds⟩
    · cases hok
  · exact ⟨fun _ w' => hfailed w',fun a w' h => by cases h⟩

end Managing

section Processes

variable (env : VaultEnv) (crypto : VaultCrypto)

inductive VaultManagementCommand
  | init (passphrase : String) (runId : Option String)
  | verifyUnseal (passphrase : String)
  | rotate (current new : String) (runId : Option String)
  | rewrap (passphrase : String) (runId : Option String)
  deriving DecidableEq, Repr

inductive VaultImportCommand
  | putMany (dataset matchKey : String) (secrets : Dict String String) (runId : Option String)
  | getSecret (defaultRunId : Option String) (dataset field : String)
      (sourceRef : Option Fields) (runId : Option String)

/-- A process: it manages the vault, or verifies it once and imports. An importer keeps the key
that it unsealed under its own number. -/
inductive VaultProcess
  | manager (commands : List VaultManagementCommand)
  | importer (id : Nat) (passphrase : Option String) (commands : List VaultImportCommand)

def VaultManagementCommand.program : VaultManagementCommand → VaultM Unit
  | .init passphrase runId => do
    let _ ← VaultKeyManagement.initKeyring env crypto passphrase runId
  | .verifyUnseal passphrase => do
    let _ ← VaultKeyManagement.verifyUnseal env crypto passphrase
  | .rotate current new runId => do
    let _ ← VaultKeyManagement.rotateAndRewrap env crypto current new runId
  | .rewrap passphrase runId => do
    let _ ← VaultKeyManagement.rewrapAllDek env crypto passphrase runId

def VaultImportCommand.program (provider : VaultKeyProvider) : VaultImportCommand → VaultM Unit
  | .putMany dataset matchKey secrets runId =>
    SecretVaultWriteService.putMany env crypto provider dataset matchKey secrets runId
  | .getSecret defaultRunId dataset field sourceRef runId => do
    let _ ← SecretVaultReadService.getSecret env crypto provider defaultRunId dataset field
      sourceRef runId

/-- One command after the other; a failed one does not end the process. -/
def runCommands : List (VaultM Unit) → VaultM Unit
  | [] => pure ()
  | command::commands => do
    tryCatch command fun _ => pure ()
    runCommands commands

def VaultProcess.program : VaultProcess → VaultM Unit
  | .manager commands => runCommands (commands.map fun c => c.program env crypto)
  | .importer id passphrase commands => do
    VaultStartupGuard.ensureReady env crypto (.unsealed id passphrase)
    runCommands (commands.map fun c => c.program env crypto (.unsealed id passphrase))

/-- The processes at a vault file that has just been created. -/
def vaultPool {ι : Type} (processes : ι → VaultProcess) : Prog.Pool ι VaultWorld VaultError Unit :=
  ⟨fun i => (processes i).program env crypto,VaultWorld.empty⟩

end Processes

section Keeping

variable (env : VaultEnv) {crypto : VaultCrypto} {A : Type}

/-- A transaction is one step; its ends say what it keeps. -/
theorem keeps_transaction {body : VaultM A} {w : VaultWorld}
    (h : ∀ s, Preserves crypto w s → KeyConsistent crypto s →
      Prog.Ends (fun _ s' => KeyConsistent crypto s' ∧ Preserves crypto s s')
        (env.transaction body) s) :
    Prog.Keeps (KeyConsistent crypto) (Preserves crypto) (fun _ _ => True)
      (env.transaction body) w :=
  Prog.Keeps.of_ends fun s hs hI => (h s hs hI).mono fun _ _ hr =>
    ⟨hr.1,hr.2,fun _ _ _ => trivial⟩

theorem keeps_note (key value : String) (w : VaultWorld) :
    Prog.Keeps (KeyConsistent crypto) (Preserves crypto) (fun _ _ => True)
      (VaultKeyManagement.setMeta env key value) w := by
  unfold VaultKeyManagement.setMeta
  refine keeps_write env _ (fun _ => ?_) w
  exact ⟨rfl,rfl,rfl,rfl⟩

theorem keeps_result (result reason : String) (w : VaultWorld) :
    Prog.Keeps (KeyConsistent crypto) (Preserves crypto) (fun _ _ => True)
      (VaultKeyManagement.setLastRotationResult env result reason) w := by
  unfold VaultKeyManagement.setLastRotationResult
  refine keeps_write env _ (fun _ => ?_) w
  exact ⟨rfl,rfl,rfl,rfl⟩

theorem keeps_markSuccess (runId reason : String) (rotatedAt : Option String) (w : VaultWorld) :
    Prog.Keeps (KeyConsistent crypto) (Preserves crypto) (fun _ _ => True)
      (VaultKeyManagement.markSuccess env runId reason rotatedAt) w := by
  refine keeps_then (keeps_note env _ _ w) fun _ t _ _ =>
    keeps_then (keeps_result env _ _ t) fun _ t' _ _ => ?_
  cases rotatedAt with
  | some time => exact keeps_note env _ _ t'
  | none => exact keeps_done _ t'

theorem keeps_guarded {runId reason : String} {body : VaultM A} {w : VaultWorld}
    (h : Prog.Keeps (KeyConsistent crypto) (Preserves crypto) (fun _ _ => True) body w) :
    Prog.Keeps (KeyConsistent crypto) (Preserves crypto) (fun _ _ => True)
      (VaultKeyManagement.guarded env runId reason body) w := by
  refine Prog.Keeps.tryCatch Preserves.refl (h.weaken fun r t _ _ => ?_)
  cases r with
  | ok a => trivial
  | error e =>
    exact keeps_then (keeps_then (keeps_note env _ _ t) fun _ t' _ _ => keeps_result env _ _ t')
      fun _ t' _ _ => keeps_done _ t'

theorem keeps_effectiveRunId (runId : Option String) (w : VaultWorld) :
    Prog.Keeps (KeyConsistent crypto) (Preserves crypto) (fun _ _ => True)
      (VaultKeyManagement.effectiveRunId env runId) w := by
  unfold VaultKeyManagement.effectiveRunId
  split
  · exact keeps_done _ w
  · exact keeps_then (keeps_draw w) fun _ t _ _ => keeps_done _ t

theorem keeps_requireMetadata (w : VaultWorld) :
    Prog.Keeps (KeyConsistent crypto) (Preserves crypto)
      (fun r t => ∀ metadata, r = .ok metadata → Initialised crypto t)
      (VaultKeyManagement.requireMetadata env) w := by
  refine keeps_seq (keeps_read env Vault.metadata w) (fun metadata t _ hread => ?_)
    fun _ _ _ _ _ h => by cases h
  obtain ⟨s,_,hI,hlater,rfl⟩ := hread metadata rfl
  cases hm : s.vault.metadata with
  | none => exact Prog.Keeps.done fun _ _ _ _ h => by cases h
  | some metadata =>
    have hinit : Initialised crypto t := (hI.initialised (by simp [hm])).later hlater
    exact Prog.Keeps.done fun t' ht' _ _ _ => hinit.later ht'

theorem keeps_uniqueKeyVersion (existing : List String) (attempts : Nat) (w : VaultWorld) :
    Prog.Keeps (KeyConsistent crypto) (Preserves crypto)
      (fun r _ => ∀ version, r = .ok version → version ∉ existing ∧ version ≠ "")
      (VaultKeyManagement.uniqueKeyVersion env existing attempts) w := by
  induction attempts generalizing w with
  | zero => exact Prog.Keeps.done fun _ _ _ _ h => by cases h
  | succ attempts ih =>
    refine keeps_seq (keeps_draw w) (fun i t _ _ => ?_) fun _ _ _ _ _ h => by cases h
    dsimp only
    split
    · exact ih t
    · rename_i hnew
      refine Prog.Keeps.done fun _ _ _ version h => ?_
      obtain rfl := Except.ok.inj h
      refine ⟨hnew,fun hblank => ?_⟩
      simpa using congrArg String.toList hblank

theorem keeps_newMetadata (hc : crypto.Correct) (passphrase now : String) (existing : List String)
    (w : VaultWorld) :
    Prog.Keeps (KeyConsistent crypto) (Preserves crypto)
      (fun r _ => ∀ metadata key, r = .ok (metadata,key) →
        NewKey crypto passphrase existing metadata key)
      (VaultKeyManagement.newMetadata env crypto passphrase existing now) w := by
  refine keeps_seq (keeps_uniqueKeyVersion env existing 10 w) (fun version t _ hversion => ?_)
    fun _ _ _ _ _ _ h => by cases h
  obtain ⟨hfresh,hnamed⟩ := hversion version rfl
  refine keeps_seq (keeps_draw t) (fun i t₁ _ _ => keeps_seq (keeps_draw t₁)
    (fun j t₂ _ _ => Prog.Keeps.done fun _ _ _ metadata key h => ?_)
    fun _ _ _ _ _ _ h => by cases h) fun _ _ _ _ _ _ h => by cases h
  obtain ⟨hm,hkey,hderives⟩ := Kdf.createMetadata_spec h
  exact ⟨hm.trans hkey.symm,hkey ▸ hfresh,hkey ▸ hnamed,hderives,
    hc.kdf.deriveKey_valid (hderives "")⟩

theorem keeps_rewrapInTransaction (hc : crypto.Correct) (old : VaultMasterKey)
    {new : VaultMasterKey}
    (hk : crypto.fernet.validKey new.keyMaterial = true) (runId reason : String)
    (newMetadata : Option VaultUnsealMetadata)
    (hnew : ∀ metadata, newMetadata = some metadata → ∃ passphrase, ∀ createdAt,
      crypto.kdf.deriveKey passphrase { metadata with createdAt := createdAt } = .ok new)
    (hold : newMetadata = none → old = new) {w : VaultWorld} (hinit : Initialised crypto w) :
    Prog.Keeps (KeyConsistent crypto) (Preserves crypto) (fun _ _ => True)
      (VaultKeyManagement.rewrapInTransaction env crypto new [old] runId reason newMetadata) w := by
  refine keeps_then (keeps_then (keeps_draw w) fun _ t _ _ => keeps_done _ t) fun now t ht _ => ?_
  exact keeps_transaction env fun s hs hI =>
    ends_rewrapConsistent env hc hk runId reason now newMetadata hnew hold hI
      (hinit.later (ht.trans hs))

theorem keeps_initKeyring (hc : crypto.Correct) (hrandom : env.Random) (passphrase : String)
    (runId : Option String) (w : VaultWorld) :
    Prog.Keeps (KeyConsistent crypto) (Preserves crypto) (fun _ _ => True)
      (VaultKeyManagement.initKeyring env crypto passphrase runId) w := by
  refine keeps_then (keeps_effectiveRunId env runId w) fun run t _ _ =>
    keeps_then (keeps_read env Vault.metadata t) fun stored t₁ _ _ => ?_
  split
  · exact keeps_done _ t₁
  · refine keeps_then (keeps_then (keeps_draw t₁) fun _ t₂ _ _ => keeps_done _ t₂) fun now t₂ _ _ =>
      keeps_then (keeps_newMetadata env hc passphrase now [] t₂) fun pair t₃ _ hpair => ?_
    obtain ⟨metadata,key⟩ := pair
    have hnew := hpair metadata key rfl
    have hinit : Prog.Keeps (KeyConsistent crypto) (Preserves crypto) (fun _ _ => True)
        (env.transaction do
          env.write fun v => v.upsertUnsealMetadata metadata
          VaultKeyManagement.postVerify env crypto key) t₃ :=
      keeps_transaction env fun s _ hI =>
        ends_initConsistent env hc hrandom hnew.valid hnew.named ⟨passphrase,hnew.derives⟩ hI
    exact keeps_then (keeps_guarded env hinit) fun _ t₄ _ _ =>
      keeps_then (keeps_markSuccess env _ _ _ t₄) fun _ t₅ _ _ => keeps_done _ t₅

theorem keeps_verifyUnseal (passphrase : String) (w : VaultWorld) :
    Prog.Keeps (KeyConsistent crypto) (Preserves crypto) (fun _ _ => True)
      (VaultKeyManagement.verifyUnseal env crypto passphrase) w := by
  refine keeps_then (keeps_requireMetadata env w) fun metadata t _ hinit =>
    keeps_then (keeps_done _ t) fun key t₁ ht₁ _ => ?_
  exact keeps_then (keeps_postVerify env key ((hinit metadata rfl).later ht₁)) fun _ t₂ _ _ =>
    keeps_done _ t₂

theorem keeps_rotateAndRewrap (hc : crypto.Correct) (current new : String)
    (runId : Option String) (w : VaultWorld) :
    Prog.Keeps (KeyConsistent crypto) (Preserves crypto) (fun _ _ => True)
      (VaultKeyManagement.rotateAndRewrap env crypto current new runId) w := by
  have hprepare : Prog.Keeps (KeyConsistent crypto) (Preserves crypto)
      (fun r t => ∀ keys, r = .ok keys → Initialised crypto t ∧ ∃ existing,
        NewKey crypto new existing keys.metadata keys.newKey)
      (VaultKeyManagement.prepareRotation env crypto current new runId) w := by
    refine keeps_seq (keeps_effectiveRunId env runId w) (fun run t _ _ =>
      keeps_seq (keeps_requireMetadata env t) (fun metadata t₁ _ hinit => ?_)
        fun _ _ _ _ _ h => by cases h) fun _ _ _ _ _ h => by cases h
    have hinit₁ := hinit metadata rfl
    refine keeps_seq (keeps_done _ t₁) (fun oldKey t₂ ht₂ _ => keeps_seq (keeps_then
      (keeps_draw t₂) fun _ t₃ _ _ => keeps_done _ t₃) (fun now t₃ ht₃ _ => keeps_seq
        (keeps_newMetadata env hc new now [metadata.keyVersion] t₃) (fun pair t₄ ht₄ hpair => ?_)
        fun _ _ _ _ _ h => by cases h) fun _ _ _ _ _ h => by cases h)
      fun _ _ _ _ _ h => by cases h
    refine Prog.Keeps.done fun t₅ ht₅ _ keys h => ?_
    obtain rfl := Except.ok.inj h
    exact ⟨hinit₁.later (ht₂.trans (ht₃.trans (ht₄.trans ht₅))),_,hpair pair.1 pair.2 rfl⟩
  refine keeps_then hprepare fun keys t _ hkeys => ?_
  obtain ⟨hinit,existing,hnew⟩ := hkeys keys rfl
  have hrewrap := keeps_rewrapInTransaction env hc keys.oldKey hnew.valid keys.runId
    "rotate_in_progress" (some keys.metadata)
    (fun metadata h => ⟨new,Option.some.inj h ▸ hnew.derives⟩) (fun h => by cases h) hinit
  refine keeps_then (keeps_guarded env (keeps_then hrewrap fun count t₁ ht₁ _ =>
    keeps_then (keeps_postVerify env keys.newKey (hinit.later ht₁)) fun _ t₂ _ _ =>
      keeps_done _ t₂)) fun count t₃ _ _ => ?_
  exact keeps_then (keeps_markSuccess env _ _ _ t₃) fun _ t₄ _ _ => keeps_done _ t₄

theorem keeps_rewrapAllDek (hc : crypto.Correct) (passphrase : String) (runId : Option String)
    (w : VaultWorld) :
    Prog.Keeps (KeyConsistent crypto) (Preserves crypto) (fun _ _ => True)
      (VaultKeyManagement.rewrapAllDek env crypto passphrase runId) w := by
  refine keeps_then (keeps_effectiveRunId env runId w) fun run t _ _ =>
    keeps_then (keeps_requireMetadata env t) fun metadata t₁ _ hinit => ?_
  have hinit₁ := hinit metadata rfl
  have hderive : Prog.Keeps (KeyConsistent crypto) (Preserves crypto)
      (fun r _ => r = crypto.kdf.deriveKey passphrase metadata)
      (Prog.ofExcept (crypto.kdf.deriveKey passphrase metadata)) t₁ :=
    Prog.Keeps.done fun _ _ _ => rfl
  refine keeps_then hderive fun key t₂ ht₂ hkey => ?_
  have hinit₂ := hinit₁.later ht₂
  have hrewrap := keeps_rewrapInTransaction env hc key (hc.kdf.deriveKey_valid hkey.symm) run
    "rewrap_in_progress" none (fun metadata h => by cases h) (fun _ => rfl) hinit₂
  refine keeps_then (keeps_guarded env (keeps_then hrewrap fun count t₃ ht₃ _ =>
    keeps_then (keeps_postVerify env key (hinit₂.later ht₃)) fun _ t₄ _ _ =>
      keeps_done _ t₄)) fun count t₄ _ _ => ?_
  exact keeps_then (keeps_markSuccess env _ _ _ t₄) fun _ t₅ _ _ => keeps_done _ t₅

theorem keeps_putMany (hc : crypto.Correct) (id : Nat) (passphrase : Option String)
    (dataset matchKey : String) (secrets : Dict String String) (runId : Option String)
    (w : VaultWorld) :
    Prog.Keeps (KeyConsistent crypto) (Preserves crypto) (fun _ _ => True)
      (SecretVaultWriteService.putMany env crypto (.unsealed id passphrase) dataset matchKey
        secrets runId) w := by
  unfold SecretVaultWriteService.putMany
  split
  · exact keeps_done _ w
  · dsimp only
    split
    · exact keeps_done _ w
    · refine keeps_then (keeps_then (keeps_draw w) fun _ t _ _ => keeps_done _ t) fun now t _ _ =>
        keeps_renamed (keeps_transaction env fun s _ hI => ?_)
      exact ends_putTransaction env hc id passphrase dataset _ now runId secrets hI

theorem keeps_runCommands {commands : List (VaultM Unit)}
    (h : ∀ command ∈ commands, ∀ w, Prog.Keeps (KeyConsistent crypto) (Preserves crypto)
      (fun _ _ => True) command w) (w : VaultWorld) :
    Prog.Keeps (KeyConsistent crypto) (Preserves crypto) (fun _ _ => True)
      (runCommands commands) w := by
  induction commands generalizing w with
  | nil => exact keeps_done _ w
  | cons command commands ih =>
    have hfirst : Prog.Keeps (KeyConsistent crypto) (Preserves crypto) (fun _ _ => True)
        (tryCatch command fun _ => pure ()) w := by
      refine Prog.Keeps.tryCatch Preserves.refl
        ((h command List.mem_cons_self w).weaken fun r t _ _ => ?_)
      cases r with
      | ok a => trivial
      | error e => exact keeps_done _ t
    exact keeps_then hfirst fun _ t _ _ => ih (fun c hc => h c (List.mem_cons_of_mem _ hc)) t

theorem keeps_managementCommand (hc : crypto.Correct) (hrandom : env.Random)
    (command : VaultManagementCommand) (w : VaultWorld) :
    Prog.Keeps (KeyConsistent crypto) (Preserves crypto) (fun _ _ => True)
      (command.program env crypto) w := by
  cases command with
  | init passphrase runId =>
    exact keeps_then (keeps_initKeyring env hc hrandom passphrase runId w) fun _ t _ _ =>
      keeps_done _ t
  | verifyUnseal passphrase =>
    exact keeps_then (keeps_verifyUnseal env passphrase w) fun _ t _ _ => keeps_done _ t
  | rotate current new runId =>
    exact keeps_then (keeps_rotateAndRewrap env hc current new runId w) fun _ t _ _ =>
      keeps_done _ t
  | rewrap passphrase runId =>
    exact keeps_then (keeps_rewrapAllDek env hc passphrase runId w) fun _ t _ _ => keeps_done _ t

theorem keeps_importCommand (hc : crypto.Correct) (id : Nat) (passphrase : Option String)
    (command : VaultImportCommand) (w : VaultWorld) :
    Prog.Keeps (KeyConsistent crypto) (Preserves crypto) (fun _ _ => True)
      (command.program env crypto (.unsealed id passphrase)) w := by
  cases command with
  | putMany dataset matchKey secrets runId =>
    exact keeps_putMany env hc id passphrase dataset matchKey secrets runId w
  | getSecret defaultRunId dataset field sourceRef runId =>
    exact keeps_then (keeps_getSecret env _ defaultRunId dataset field sourceRef runId w)
      fun _ t _ _ => keeps_done _ t

theorem keeps_process (hc : crypto.Correct) (hrandom : env.Random) (process : VaultProcess)
    (w : VaultWorld) :
    Prog.Keeps (KeyConsistent crypto) (Preserves crypto) (fun _ _ => True)
      (process.program env crypto) w := by
  cases process with
  | manager commands =>
    refine keeps_runCommands (fun command hmem w => ?_) w
    obtain ⟨c,_,rfl⟩ := List.mem_map.mp hmem
    exact keeps_managementCommand env hc hrandom c w
  | importer id passphrase commands =>
    refine keeps_then (keeps_ensureReady env id passphrase w) fun _ t _ _ =>
      keeps_runCommands (fun command hmem w => ?_) t
    obtain ⟨c,_,rfl⟩ := List.mem_map.mp hmem
    exact keeps_importCommand env hc id passphrase c w

theorem KeyConsistent.empty : KeyConsistent crypto VaultWorld.empty :=
  ⟨rfl,.inl ⟨⟨rfl,rfl,rfl,rfl⟩,fun _ => rfl⟩⟩

theorem vaultPool_orderly (hc : crypto.Correct) (hrandom : env.Random) {ι : Type}
    (processes : ι → VaultProcess) :
    (vaultPool env crypto processes).Orderly (KeyConsistent crypto) (Preserves crypto)
      fun _ _ => True :=
  ⟨.empty,fun i => keeps_process env hc hrandom (processes i) _⟩

end Keeping

section Consistency

variable {crypto : VaultCrypto} {key : VaultMasterKey}

/-- The data key opens under the master key that the metadata describe. -/
def OpensByMetadata (crypto : VaultCrypto) (v : Vault) (d : VaultDekRecord) : Prop :=
  ∃ metadata, v.metadata = some metadata ∧ (∃ key, Describes crypto metadata key) ∧
    ∀ key, Describes crypto metadata key → ∃ plain, Opens crypto key d plain

/-- The record decrypts to the secret under the master key that the metadata describe. -/
def Decryptable (crypto : VaultCrypto) (v : Vault) (r : VaultSecretRecord) (secret : String) :
    Prop :=
  ∃ metadata, v.metadata = some metadata ∧ (∃ key, Describes crypto metadata key) ∧
    ∀ key, Describes crypto metadata key → ∃ d plain, v.deks.getDek r.dekVersion = some d ∧
      Opens crypto key d plain ∧
      crypto.fernet.decryptSecret r.ciphertext plain r.cipherAlgo = .ok secret

theorem WrappedUnder.opens (hc : crypto.Correct) {d : VaultDekRecord} {plain : String}
    (h : WrappedUnder crypto key d plain) : Opens crypto key d plain := by
  obtain ⟨nonce,hwrapped⟩ := h.wrapped
  unfold Opens
  rw [hwrapped, hc.fernet.unwrapDek h.algo h.masterKey, if_pos h.masterKey, if_pos rfl]

theorem KeyedVault.opensByMetadata (hc : crypto.Correct) {v : Vault}
    (h : KeyedVault crypto key v) {d : VaultDekRecord} (hd : d ∈ v.deks.rows) :
    OpensByMetadata crypto v d := by
  obtain ⟨metadata,hm,passphrase,hkey⟩ := h.described
  refine ⟨metadata,hm,⟨key,passphrase,hkey⟩,fun key' hkey' => ?_⟩
  obtain ⟨passphrase',hkey'⟩ := hkey'
  obtain rfl := hc.kdf.deriveKey_unique hkey hkey'
  obtain ⟨plain,hwrapped⟩ := h.wrapped d hd
  exact ⟨plain,hwrapped.opens hc⟩

theorem KeyedVault.decryptable (hc : crypto.Correct) {v : Vault} (h : KeyedVault crypto key v)
    {r : VaultSecretRecord} {secret : String} (hr : RecordHolds crypto key v.deks r secret) :
    Decryptable crypto v r secret := by
  obtain ⟨metadata,hm,passphrase,hkey⟩ := h.described
  refine ⟨metadata,hm,⟨key,passphrase,hkey⟩,fun key' hkey' => ?_⟩
  obtain ⟨passphrase',hkey'⟩ := hkey'
  obtain rfl := hc.kdf.deriveKey_unique hkey hkey'
  obtain ⟨halgo,d,hd,hversion,plain,hwrapped,nonce,hcipher⟩ := hr
  refine ⟨d,plain,hversion ▸ DekTable.getDek_of_mem hd,hwrapped.opens hc,?_⟩
  rw [hcipher]
  exact hc.fernet.decryptSecret halgo hwrapped.dataKey nonce secret

theorem Decryptable.unique {v : Vault} {r : VaultSecretRecord} {secret secret' : String}
    (h : Decryptable crypto v r secret) (h' : Decryptable crypto v r secret') :
    secret = secret' := by
  obtain ⟨metadata,hm,⟨key,hkey⟩,hall⟩ := h
  obtain ⟨metadata',hm',_,hall'⟩ := h'
  obtain rfl := Option.some.inj (hm.symm.trans hm')
  obtain ⟨d,plain,hget,hopens,hsecret⟩ := hall key hkey
  obtain ⟨d',plain',hget',hopens',hsecret'⟩ := hall' key hkey
  obtain rfl := Option.some.inj (hget.symm.trans hget')
  obtain rfl := Except.ok.inj (hopens.symm.trans hopens')
  exact Except.ok.inj (hsecret.symm.trans hsecret')

/-- However the steps of the processes interleave, every data key opens under the master key of
the stored metadata, every stored secret decrypts, and what a stored secret decrypts to at some
time it decrypts to ever after. -/
theorem keys_consistent (env : VaultEnv) (hc : crypto.Correct) (hrandom : env.Random) {ι : Type}
    [DecidableEq ι] (processes : ι → VaultProcess) (earlier later : List ι) :
    let before := ((vaultPool env crypto processes).schedule earlier).state.vault
    let after := ((vaultPool env crypto processes).schedule (earlier ++ later)).state.vault
    (∀ d ∈ after.deks.rows, OpensByMetadata crypto after d) ∧
      (∀ r ∈ after.secrets.rows, ∃ secret,
        Decryptable crypto after r.toVaultSecretRecord secret) ∧
      ∀ r ∈ before.secrets.rows, ∀ secret, Decryptable crypto before r.toVaultSecretRecord secret →
        Decryptable crypto after r.toVaultSecretRecord secret := by
  have htrans : ∀ a b c, Preserves crypto a b → Preserves crypto b c → Preserves crypto a c :=
    fun _ _ _ => Preserves.trans
  have hearlier := ((vaultPool_orderly env hc hrandom processes).schedule Preserves.refl htrans
    earlier).1
  obtain ⟨hafter,hpreserves⟩ := hearlier.schedule Preserves.refl htrans later
  have hsplit : (vaultPool env crypto processes).schedule (earlier ++ later) =
      ((vaultPool env crypto processes).schedule earlier).schedule later :=
    List.foldl_append ..
  intro before after
  have hend : KeyConsistent crypto
      ((vaultPool env crypto processes).schedule (earlier ++ later)).state :=
    hsplit ▸ hafter.holds
  rw [← hsplit] at hpreserves
  refine ⟨fun d hd => ?_,fun r hr => ?_,fun r hr secret hsecret => ?_⟩
  · rcases hend.vault with ⟨hblank,_⟩ | ⟨key,hkeyed⟩
    · rw [hblank.deks] at hd
      cases hd
    · exact hkeyed.opensByMetadata hc hd
  · rcases hend.vault with ⟨hblank,_⟩ | ⟨key,hkeyed⟩
    · rw [hblank.secrets] at hr
      cases hr
    · obtain ⟨secret,hholds⟩ := hkeyed.secrets r hr
      exact ⟨secret,hkeyed.decryptable hc hholds⟩
  · rcases hearlier.holds.vault with ⟨hblank,_⟩ | ⟨key,hkeyed⟩
    · rw [hblank.secrets] at hr
      cases hr
    · obtain ⟨secret',hholds⟩ := hkeyed.secrets r hr
      obtain rfl := hsecret.unique (hkeyed.decryptable hc hholds)
      obtain ⟨key',hkeyed',hlater⟩ := hpreserves key hkeyed
      exact hkeyed'.decryptable hc (hlater _ _ hholds)

end Consistency

/-- An administrator initialises and rotates while an import stores a password and reads it. -/
def sharedVault : Bool → VaultProcess
  | true => .manager [.init "old" none, .rotate "old" "new" none]
  | false => .importer 0 (some "old")
      [.putMany "employees" "E1" [("password","spring")] none,
        .getSecret none "employees" "password" (some [("match_key",.str "E1")]) none]

theorem keys_consistent_import :
    let stored := List.replicate 8 true ++ List.replicate 30 false
    let before := ((vaultPool .quiet .transparent sharedVault).schedule stored).state.vault
    let after := ((vaultPool .quiet .transparent sharedVault).schedule
      (stored ++ List.replicate 30 true)).state.vault
    (∀ d ∈ after.deks.rows, OpensByMetadata .transparent after d) ∧
      (∀ r ∈ after.secrets.rows, ∃ secret,
        Decryptable .transparent after r.toVaultSecretRecord secret) ∧
      ∀ r ∈ before.secrets.rows, ∀ secret,
        Decryptable .transparent before r.toVaultSecretRecord secret →
          Decryptable .transparent after r.toVaultSecretRecord secret :=
  keys_consistent .quiet VaultCrypto.transparent_correct VaultEnv.quiet_random sharedVault
    (List.replicate 8 true ++ List.replicate 30 false) (List.replicate 30 true)

end NexusEtl
