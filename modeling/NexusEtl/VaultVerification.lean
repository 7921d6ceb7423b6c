import NexusEtl.KeyRewrapping

/-!
# What the startup guard verifies

The guard with one key: it passes exactly if the file can be written, none of its
calls fails, and the probe it finds decrypts or a new one can be encrypted.
-/

set_option autoImplicit false

namespace NexusEtl
open NexusEtl.Library

section Verifying

variable (env : VaultEnv) {crypto : VaultCrypto} {key : VaultMasterKey}

theorem run_unwrapDek_static (errors : DekErrors) (d : VaultDekRecord) (w : VaultWorld) :
    (unwrapDek env crypto (.static key []) errors d).run w =
      (unwrapWith crypto d errors.unwrapFailed [key],w) := by
  have hkeys : (VaultKeyProvider.candidateMasterKeys env crypto (.static key [])
      d.wrapKeyVersion).run w = (.ok [key],w) := by
    by_cases hv : key.keyVersion = d.wrapKeyVersion <;>
      simp [VaultKeyProvider.candidateMasterKeys, VaultKeyProvider.findKey,
        VaultKeyProvider.getAllKeys, hv]
  rw [unwrapDek, Prog.run_bind, hkeys]
  rfl

/-- The probe decrypts to its payload. -/
def ProbeOpens (crypto : VaultCrypto) (key : VaultMasterKey) (deks : DekTable)
    (probe : VaultProbeRecord) : Prop :=
  ∃ d, deks.getDek probe.dekVersion = some d ∧ ∃ plain, Opens crypto key d plain ∧
    crypto.fernet.decryptSecret probe.ciphertext plain probe.cipherAlgo =
      .ok VaultStartupGuard.probePayload

theorem ends_verifyProbe (probe : VaultProbeRecord) (w : VaultWorld) :
    Prog.Ends (fun r w' => w' = { w with calls := w.calls + 1 } ∧
      ((r = .ok () ∧ env.fails w.calls = false ∧ ProbeOpens crypto key w.vault.deks probe) ∨
        ∃ e, r = .error e ∧
          ¬ (env.fails w.calls = false ∧ ProbeOpens crypto key w.vault.deks probe)))
      (VaultStartupGuard.verifyProbe env crypto (.static key []) probe) w := by
  unfold VaultStartupGuard.verifyProbe VaultStartupGuard.loadProbeDek
  refine Prog.Ends.bind (Prog.Ends.bind (ends_mapError ((ends_read_clear env _ w).mono
    fun r w₁ hr => ?_)))
  obtain ⟨rfl,⟨rfl,hclear⟩ | ⟨e,rfl,hfail⟩⟩ := hr
  · simp only [Except.mapError]
    cases hdek : w.vault.deks.getDek probe.dekVersion with
    | none =>
      refine Prog.Ends.throw ⟨rfl,.inr ⟨_,rfl,?_⟩⟩
      rintro ⟨_,d,hd,_⟩
      rw [hdek] at hd
      cases hd
    | some d =>
      refine Prog.Ends.pure (Prog.Ends.bind ?_)
      rw [Prog.Ends, run_unwrapDek_static]
      cases hopen : unwrapWith crypto d VaultStartupGuard.dekErrors.unwrapFailed [key] with
      | error e =>
        refine ⟨rfl,.inr ⟨_,rfl,?_⟩⟩
        rintro ⟨_,d',hd',plain,hplain,_⟩
        obtain rfl := Option.some.inj (hdek.symm.trans hd')
        rw [unwrapWith_eq_ok.mpr hplain] at hopen
        cases hopen
      | ok plain =>
        have hplain := unwrapWith_eq_ok.mp hopen
        refine Prog.Ends.bind (ends_mapError (Prog.Ends.ofExcept ?_))
        cases hdecrypt : crypto.fernet.decryptSecret probe.ciphertext plain probe.cipherAlgo with
        | error e =>
          refine ⟨rfl,.inr ⟨_,rfl,?_⟩⟩
          rintro ⟨_,d',hd',plain',hplain',hpayload⟩
          obtain rfl := Option.some.inj (hdek.symm.trans hd')
          obtain rfl := Except.ok.inj (hplain.symm.trans hplain')
          rw [hdecrypt] at hpayload
          cases hpayload
        | ok payload =>
          by_cases hsame : payload = VaultStartupGuard.probePayload
          · subst hsame
            simp only [Except.mapError, ne_eq, not_true_eq_false, if_false]
            exact Prog.Ends.pure ⟨rfl,.inl ⟨rfl,hclear,d,hdek,plain,hplain,hdecrypt⟩⟩
          · simp only [Except.mapError, ne_eq, hsame, not_false_eq_true, if_true]
            refine Prog.Ends.throw ⟨rfl,.inr ⟨_,rfl,?_⟩⟩
            rintro ⟨_,d',hd',plain',hplain',hpayload⟩
            obtain rfl := Option.some.inj (hdek.symm.trans hd')
            obtain rfl := Except.ok.inj (hplain.symm.trans hplain')
            rw [hdecrypt] at hpayload
            exact hsame (Except.ok.inj hpayload)
  · refine ⟨rfl,.inr ⟨_,rfl,?_⟩⟩
    rintro ⟨hclear,_⟩
    simp [hclear] at hfail

/-- What the guard leaves alone. -/
structure GuardFrame (w w' : VaultWorld) : Prop where
  inTransaction : w'.inTransaction = w.inTransaction
  unsealed : w'.unsealed = w.unsealed
  metadata : w'.vault.metadata = w.vault.metadata
  secrets : w'.vault.secrets = w.vault.secrets

theorem GuardFrame.trans {w w' w'' : VaultWorld} (h : GuardFrame w w') (h' : GuardFrame w' w'') :
    GuardFrame w w'' where
  inTransaction := h'.inTransaction.trans h.inTransaction
  unsealed := h'.unsealed.trans h.unsealed
  metadata := h'.metadata.trans h.metadata
  secrets := h'.secrets.trans h.secrets

/-- The data key that a new probe is encrypted with: the active one, or a new one. -/
structure UsesDek (env : VaultEnv) (crypto : VaultCrypto) (key : VaultMasterKey)
    (deks deks' : DekTable) (d : VaultDekRecord) (plain : String) : Prop where
  opens : Opens crypto key d plain
  source : (deks.getActiveDek = some d ∧ deks' = deks) ∨
    (deks.getActiveDek = none ∧ deks' = deks.upsertDek d ∧ d.isActive = true ∧
      d.wrapKeyVersion = key.keyVersion ∧ WrappedUnder crypto key d plain ∧
      ∃ i, d.dekVersion = "dek_" ++ env.uuid i)

/-- The calls that the choice of the data key makes. -/
def dekCalls (deks : DekTable) : Nat := if deks.getActiveDek.isSome then 1 else 2

theorem ends_activeDek (hc : crypto.Correct) (hrandom : env.Random)
    (hk : crypto.fernet.validKey key.keyMaterial = true) (errors : DekErrors) (now : String)
    (w : VaultWorld) :
    Prog.Ends (fun r w' => GuardFrame w w' ∧
      ((∃ d plain, r = .ok (d,plain) ∧ UsesDek env crypto key w.vault.deks w'.vault.deks d plain ∧
        w'.vault.probes = w.vault.probes ∧ w'.calls = w.calls + dekCalls w.vault.deks ∧
        env.Clear w.calls (dekCalls w.vault.deks)) ∨
      ∃ e, r = .error e ∧ ¬ (env.Clear w.calls (dekCalls w.vault.deks) ∧
        ∀ d, w.vault.deks.getActiveDek = some d → ∃ plain, Opens crypto key d plain)))
      (ensureActiveDek env crypto (.static key []) errors key now) w := by
  have hone : 1 ≤ dekCalls w.vault.deks := by
    unfold dekCalls
    split <;> omega
  have hfirst : ∀ {P : Prop}, env.fails w.calls = true →
      ¬ (env.Clear w.calls (dekCalls w.vault.deks) ∧ P) := by
    rintro P hfail ⟨hclear,_⟩
    have hok := hclear w.calls (Nat.le_refl _) (by omega)
    simp [hok] at hfail
  refine Prog.Ends.bind (ends_mapError ((ends_read_clear env _ w).mono fun r w₁ hr => ?_))
  obtain ⟨rfl,⟨rfl,hclear⟩ | ⟨e,rfl,hfail⟩⟩ := hr
  · simp only [Except.mapError]
    cases hactive : w.vault.deks.getActiveDek with
    | some d =>
      have hcalls : dekCalls w.vault.deks = 1 := by simp [dekCalls, hactive]
      refine Prog.Ends.bind ?_
      rw [Prog.Ends, run_unwrapDek_static, hcalls]
      cases hopen : unwrapWith crypto d errors.unwrapFailed [key] with
      | error e =>
        refine ⟨⟨rfl,rfl,rfl,rfl⟩,.inr ⟨e,rfl,?_⟩⟩
        rintro ⟨_,hall⟩
        obtain ⟨plain,hplain⟩ := hall d rfl
        rw [unwrapWith_eq_ok.mpr hplain] at hopen
        cases hopen
      | ok plain =>
        refine Prog.Ends.pure ⟨⟨rfl,rfl,rfl,rfl⟩,.inl ⟨d,plain,rfl,⟨unwrapWith_eq_ok.mp hopen,
          .inl ⟨hactive,rfl⟩⟩,rfl,rfl,(env.clear_succ _ 0).mpr ⟨hclear,env.clear_zero _⟩⟩⟩
    | none =>
      have hcalls : dekCalls w.vault.deks = 2 := by simp [dekCalls, hactive]
      refine Prog.Ends.bind (Prog.Ends.atomic (Prog.Ends.bind (Prog.Ends.atomic ?_)))
      refine Prog.Ends.bind (ends_mapError (Prog.Ends.ofExcept ?_))
      rw [Fernet.wrapDek_of_valid hk, hcalls]
      refine Prog.Ends.bind (Prog.Ends.atomic (Prog.Ends.bind (ends_mapError
        ((ends_writeUnit_clear env _ _).mono fun r w₂ hr => ?_))))
      obtain ⟨rfl,hclear₂,rfl⟩ | ⟨e,rfl,hfail,rfl⟩ := hr
      · refine Prog.Ends.pure ⟨⟨rfl,rfl,rfl,rfl⟩,.inl ⟨_,_,rfl,⟨?_,.inr ⟨hactive,rfl,rfl,rfl,?_,_,rfl⟩⟩,
          rfl,rfl,?_⟩⟩
        · unfold Opens
          rw [hc.fernet.unwrapDek rfl hk]
          simp [hk]
        · exact ⟨rfl,hk,hc.kdf.key _ (hrandom _),_,rfl⟩
        · rw [env.clear_succ, env.clear_succ]
          exact ⟨hclear,hclear₂,env.clear_zero _⟩
      · refine ⟨⟨rfl,rfl,rfl,rfl⟩,.inr ⟨_,rfl,?_⟩⟩
        rintro ⟨hall,_⟩
        have hok := ((env.clear_succ _ 1).mp hall).2 (w.calls + 1) (Nat.le_refl _) (by omega)
        simp [hok] at hfail
  · exact ⟨⟨rfl,rfl,rfl,rfl⟩,.inr ⟨_,rfl,hfirst hfail⟩⟩

/-- What the operation that verifies makes of the record it had just written. -/
structure NewProbe (crypto : VaultCrypto) (key : VaultMasterKey) (d : VaultDekRecord)
    (plain : String) (probe : VaultProbeRecord) : Prop where
  name : probe.probeName = VaultStartupGuard.probeName
  algo : probe.cipherAlgo = fernetV1
  keyVersion : probe.keyVersion = key.keyVersion
  dek : probe.dekVersion = d.dekVersion
  cipher : ∃ nonce,
    probe.ciphertext = crypto.fernet.encrypt nonce plain VaultStartupGuard.probePayload

theorem NewProbe.validate (hc : crypto.Correct) {d : VaultDekRecord} {plain : String}
    {probe : VaultProbeRecord} (h : NewProbe crypto key d plain probe)
    (hnamed : key.keyVersion ≠ "") :
    VaultStartupGuard.validateProbeRecord probe = .ok () ↔ d.dekVersion ≠ "" := by
  obtain ⟨nonce,hcipher⟩ := h.cipher
  have htoken := (hc.fernet.token nonce plain VaultStartupGuard.probePayload).1
  have halgo : fernetV1 ≠ "" := by decide
  simp [VaultStartupGuard.validateProbeRecord, h.name, h.algo, h.keyVersion, h.dek, hcipher,
    hnamed, htoken, halgo]

theorem UsesDek.opened {deks deks' : DekTable} {d : VaultDekRecord} {plain : String}
    (h : UsesDek env crypto key deks deks' d plain) :
    ∃ d', deks'.getDek d.dekVersion = some d' ∧ Opens crypto key d' plain := by
  obtain ⟨hactive,rfl⟩ | ⟨_,rfl,_⟩ := h.source
  · exact ⟨d,DekTable.getDek_of_mem (DekTable.getActiveDek_mem hactive).1,h.opens⟩
  · by_cases hmem : d.dekVersion ∈ deks.rows.map VaultDekRecord.dekVersion
    · obtain ⟨d₀,hd₀,hv⟩ := List.mem_map.mp hmem
      have hrow : { d with createdAt := d₀.createdAt } ∈ (deks.upsertDek d).rows :=
        DekTable.mem_upsertDek.mpr (.inl ⟨d₀,hd₀,hv,rfl⟩)
      have hget := DekTable.getDek_of_mem hrow
      exact ⟨_,hget,h.opens⟩
    · exact ⟨d,DekTable.getDek_of_mem (DekTable.mem_upsertDek.mpr (.inr (.inr ⟨hmem,rfl⟩))),
        h.opens⟩

theorem NewProbe.opens (hc : crypto.Correct) {deks deks' : DekTable} {d : VaultDekRecord}
    {plain : String} {probe : VaultProbeRecord} (h : NewProbe crypto key d plain probe)
    (hd : UsesDek env crypto key deks deks' d plain)
    (hplain : crypto.fernet.validKey plain = true) : ProbeOpens crypto key deks' probe := by
  obtain ⟨d',hget,hopens⟩ := hd.opened
  obtain ⟨nonce,hcipher⟩ := h.cipher
  refine ⟨d',h.dek ▸ hget,plain,hopens,?_⟩
  rw [hcipher]
  exact hc.fernet.decryptSecret h.algo hplain nonce _

theorem ends_createProbe (hc : crypto.Correct) (hrandom : env.Random)
    (hk : crypto.fernet.validKey key.keyMaterial = true) (w : VaultWorld) :
    Prog.Ends (fun r w' => GuardFrame w w' ∧
      ((∃ d plain probe, r = .ok probe ∧ NewProbe crypto key d plain probe ∧
        Dict.get? w'.vault.probes VaultStartupGuard.probeName = some probe ∧
        UsesDek env crypto key w.vault.deks w'.vault.deks d plain ∧
        crypto.fernet.validKey plain = true ∧
        w'.calls = w.calls + (dekCalls w.vault.deks + 2) ∧
        env.Clear w.calls (dekCalls w.vault.deks + 2)) ∨
      ∃ e, r = .error e ∧ ¬ (env.Clear w.calls (dekCalls w.vault.deks + 2) ∧
        ∀ d, w.vault.deks.getActiveDek = some d →
          ∃ plain, Opens crypto key d plain ∧ crypto.fernet.validKey plain = true)))
      (VaultStartupGuard.createProbe env crypto (.static key []) key) w := by
  refine Prog.Ends.bind (Prog.Ends.bind (Prog.Ends.atomic (Prog.Ends.pure ?_)))
  refine Prog.Ends.bind ((ends_activeDek env hc hrandom hk _ _ _).mono fun r w₁ hr => ?_)
  obtain ⟨⟨hin,hu,hm,hs⟩,⟨d,plain,rfl,huses,_,hcalls,hclear⟩ | ⟨e,rfl,hnot⟩⟩ := hr
  · refine Prog.Ends.bind (Prog.Ends.atomic (Prog.Ends.bind (ends_mapError
      (Prog.Ends.ofExcept ?_))))
    cases hplain : crypto.fernet.validKey plain with
    | false =>
      have hencrypt : ∀ nonce, crypto.fernet.encryptSecret nonce
          VaultStartupGuard.probePayload plain fernetV1 =
          .error ⟨.secretIntegrity,"Invalid DEK format","invalid_dek"⟩ := by
        intro nonce
        simp [Fernet.encryptSecret, ensureAlgo, Fernet.checkDek, hplain, bind, Except.bind]
      rw [hencrypt]
      refine ⟨⟨hin,hu,hm,hs⟩,.inr ⟨_,rfl,?_⟩⟩
      rintro ⟨_,hall⟩
      obtain ⟨hactive,_⟩ | ⟨_,_,_,_,hwrapped,_⟩ := huses.source
      · obtain ⟨plain',hopens,hvalid⟩ := hall d hactive
        obtain rfl := Except.ok.inj (hopens.symm.trans huses.opens)
        simp [hplain] at hvalid
      · have hvalid := hwrapped.dataKey
        simp [hplain] at hvalid
    | true =>
      rw [Fernet.encryptSecret_of_valid hplain]
      refine Prog.Ends.bind (ends_mapError ((ends_write_clear env _ _).mono fun r w₂ hr => ?_))
      obtain ⟨rfl,hclear₂,rfl⟩ | ⟨e,rfl,hfail,rfl⟩ := hr
      · refine Prog.Ends.bind (ends_mapError ((ends_read_clear env _ _).mono fun r w₃ hr => ?_))
        obtain ⟨rfl,⟨rfl,hclear₃⟩ | ⟨e,rfl,hfail⟩⟩ := hr
        · simp only [Except.mapError, Vault.upsertProbe, Dict.get?_set_self]
          refine Prog.Ends.pure ⟨⟨hin,hu,hm,hs⟩,
            .inl ⟨d,plain,_,rfl,⟨rfl,rfl,rfl,rfl,_,rfl⟩,Dict.get?_set_self _ _ _,huses,hplain,
            ?_,?_⟩⟩
          · dsimp only at hcalls ⊢
            omega
          · rw [env.clear_add, env.clear_succ, env.clear_succ, ← hcalls]
            exact ⟨hclear,hclear₂,hclear₃,env.clear_zero _⟩
        · refine ⟨⟨hin,hu,hm,hs⟩,.inr ⟨_,rfl,?_⟩⟩
          rintro ⟨hall,_⟩
          rw [env.clear_add, env.clear_succ, env.clear_succ, ← hcalls] at hall
          simp [hall.2.2.1] at hfail
      · refine ⟨⟨hin,hu,hm,hs⟩,.inr ⟨_,rfl,?_⟩⟩
        rintro ⟨hall,_⟩
        rw [env.clear_add, env.clear_succ, ← hcalls] at hall
        simp [hall.2.1] at hfail
  · refine ⟨⟨hin,hu,hm,hs⟩,.inr ⟨e,rfl,?_⟩⟩
    rintro ⟨hclear,hall⟩
    refine hnot ⟨((env.clear_add ..).mp hclear).1,fun d hd => ?_⟩
    obtain ⟨plain,hopens,_⟩ := hall d hd
    exact ⟨plain,hopens⟩

theorem ends_isReadonly {w : VaultWorld} (hout : w.inTransaction = false) :
    Prog.Ends (fun r w' => w' = { w with calls := w.calls + 1 } ∧
      ((r = .ok true ∧ env.readonly w.calls = true) ∨
        (r = .ok false ∧ env.readonly w.calls = false ∧ env.fails w.calls = false) ∨
        ∃ e, r = .error e ∧ env.readonly w.calls = false ∧ env.fails w.calls = true))
      env.isReadonly w := by
  refine Prog.Ends.atomic ?_
  rw [if_neg (by simp [hout])]
  by_cases hreadonly : env.readonly w.calls = true
  · rw [if_pos hreadonly]
    exact ⟨rfl,.inl ⟨rfl,hreadonly⟩⟩
  · rw [if_neg hreadonly]
    have hwritable : env.readonly w.calls = false := by simpa using hreadonly
    by_cases hfail : env.fails w.calls = true
    · rw [if_pos hfail]
      exact ⟨rfl,.inr (.inr ⟨_,rfl,hwritable,hfail⟩)⟩
    · rw [if_neg hfail]
      exact ⟨rfl,.inr (.inl ⟨rfl,hwritable,by simpa using hfail⟩)⟩

/-- The stored probe, if there is one. -/
def Vault.probe (v : Vault) : Option VaultProbeRecord :=
  Dict.get? v.probes VaultStartupGuard.probeName

/-- The calls of a verification after it has asked whether the file can be written. -/
def readyCalls (v : Vault) : Nat := if v.probe.isSome then 2 else dekCalls v.deks + 4

/-- What the verification looks at: the probe, or the data key that a new one is made with. -/
def Sound (crypto : VaultCrypto) (key : VaultMasterKey) (v : Vault) : Prop :=
  match v.probe with
  | some probe => VaultStartupGuard.validateProbeRecord probe = .ok () ∧
      ProbeOpens crypto key v.deks probe
  | none => ∀ d, v.deks.getActiveDek = some d → d.dekVersion ≠ "" ∧
      ∃ plain, Opens crypto key d plain ∧ crypto.fernet.validKey plain = true

/-- The data keys after a verification: as they were, or with an active one where there was
none. -/
def VerifiedDeks (env : VaultEnv) (crypto : VaultCrypto) (key : VaultMasterKey) (v : Vault)
    (deks' : DekTable) : Prop :=
  (v.probe.isSome = true ∧ deks' = v.deks) ∨
    (v.probe = none ∧ ∃ d plain, UsesDek env crypto key v.deks deks' d plain)

/-- The end of the guard, for the probe that was read or made. -/
theorem ends_checkProbe (probe : VaultProbeRecord) (readonly : Bool) (w : VaultWorld) :
    Prog.Ends (fun r w' => GuardFrame w w' ∧ w'.vault = w.vault ∧
      ((r = .ok () ∧ w'.calls = w.calls + 1 ∧ readonly = false ∧ env.fails w.calls = false ∧
        VaultStartupGuard.validateProbeRecord probe = .ok () ∧
        ProbeOpens crypto key w.vault.deks probe) ∨
      ∃ e, r = .error e ∧ ¬ (readonly = false ∧ env.fails w.calls = false ∧
        VaultStartupGuard.validateProbeRecord probe = .ok () ∧
        ProbeOpens crypto key w.vault.deks probe)))
      (do
        Prog.ofExcept (VaultStartupGuard.validateProbeRecord probe)
        VaultStartupGuard.verifyProbe env crypto (.static key []) probe
        if readonly then throw ⟨.startupStorageReadonly,"Vault storage is readonly",
          "readonly_storage"⟩) w := by
  refine Prog.Ends.bind (Prog.Ends.ofExcept ?_)
  cases hvalid : VaultStartupGuard.validateProbeRecord probe with
  | error e => exact ⟨⟨rfl,rfl,rfl,rfl⟩,rfl,.inr ⟨e,rfl,fun h => by cases h.2.2.1⟩⟩
  | ok _ =>
    refine Prog.Ends.bind ((ends_verifyProbe env probe w).mono fun r w₁ hr => ?_)
    obtain ⟨rfl,⟨rfl,hclear,hopens⟩ | ⟨e,rfl,hnot⟩⟩ := hr
    · cases readonly with
      | true => exact Prog.Ends.throw ⟨⟨rfl,rfl,rfl,rfl⟩,rfl,.inr
          ⟨_,rfl,fun h => by cases h.1⟩⟩
      | false => exact Prog.Ends.pure ⟨⟨rfl,rfl,rfl,rfl⟩,rfl,.inl ⟨rfl,rfl,rfl,hclear,rfl,hopens⟩⟩
    · exact ⟨⟨rfl,rfl,rfl,rfl⟩,rfl,.inr ⟨e,rfl,fun h => hnot ⟨h.2.1,h.2.2.2⟩⟩⟩

/-- The active data key, where there is one, has a name and opens. -/
def ActiveSound (crypto : VaultCrypto) (key : VaultMasterKey) (deks : DekTable) : Prop :=
  ∀ d, deks.getActiveDek = some d → d.dekVersion ≠ "" ∧
    ∃ plain, Opens crypto key d plain ∧ crypto.fernet.validKey plain = true

/-- The data key of a new probe has a name exactly when the active one is sound. -/
theorem UsesDek.named_iff {deks deks' : DekTable} {d : VaultDekRecord} {plain : String}
    (h : UsesDek env crypto key deks deks' d plain)
    (hplain : crypto.fernet.validKey plain = true) :
    d.dekVersion ≠ "" ↔ ActiveSound crypto key deks := by
  obtain ⟨hactive,_⟩ | ⟨hnone,_,_,_,_,i,hi⟩ := h.source
  · constructor
    · intro hnamed d' hd'
      obtain rfl := Option.some.inj (hactive.symm.trans hd')
      exact ⟨hnamed,plain,h.opens,hplain⟩
    · exact fun hsound => (hsound d hactive).1
  · constructor
    · intro _ d' hd'
      cases hnone.symm.trans hd'
    · intro _ hblank
      rw [hi] at hblank
      simpa using congrArg String.toList hblank

/-- The end of the guard for a probe that it has just made. -/
theorem ends_checkNew (hc : crypto.Correct) (hnamed : key.keyVersion ≠ "") {w w₂ : VaultWorld}
    {d : VaultDekRecord} {plain : String} {probe : VaultProbeRecord}
    (hnew : NewProbe crypto key d plain probe)
    (huses : UsesDek env crypto key w.vault.deks w₂.vault.deks d plain)
    (hplain : crypto.fernet.validKey plain = true) :
    Prog.Ends (fun r w' => GuardFrame w₂ w' ∧ w'.vault = w₂.vault ∧
      ((r = .ok () ∧ w'.calls = w₂.calls + 1 ∧ env.fails w₂.calls = false ∧
        ActiveSound crypto key w.vault.deks) ∨
      ∃ e, r = .error e ∧ ¬ (env.fails w₂.calls = false ∧ ActiveSound crypto key w.vault.deks)))
      (do
        Prog.ofExcept (VaultStartupGuard.validateProbeRecord probe)
        VaultStartupGuard.verifyProbe env crypto (.static key []) probe
        if false then throw ⟨.startupStorageReadonly,"Vault storage is readonly",
          "readonly_storage"⟩) w₂ := by
  have hvalid := (hnew.validate hc hnamed).trans (huses.named_iff env hplain)
  refine (ends_checkProbe env probe false w₂).mono fun r w₃ hr => ?_
  obtain ⟨hframe,hv,⟨rfl,hat,_,hclear,hok,_⟩ | ⟨e,rfl,hnot⟩⟩ := hr
  · exact ⟨hframe,hv,.inl ⟨rfl,hat,hclear,hvalid.mp hok⟩⟩
  · refine ⟨hframe,hv,.inr ⟨e,rfl,fun h => ?_⟩⟩
    exact hnot ⟨rfl,h.1,hvalid.mpr h.2,hnew.opens env hc huses hplain⟩

/-- The guard once it knows whether the file can be written. -/
theorem ends_ready (hc : crypto.Correct) (hrandom : env.Random)
    (hk : crypto.fernet.validKey key.keyMaterial = true) (hnamed : key.keyVersion ≠ "")
    (readonly : Bool) (w : VaultWorld) :
    Prog.Ends (fun r w' => GuardFrame w w' ∧
      ((r = .ok () ∧ VerifiedDeks env crypto key w.vault w'.vault.deks ∧
        w'.vault.probe.isSome = true ∧
        w'.calls = w.calls + readyCalls w.vault ∧ readonly = false ∧
        env.Clear w.calls (readyCalls w.vault) ∧ Sound crypto key w.vault) ∨
      ∃ e, r = .error e ∧ ¬ (readonly = false ∧ env.Clear w.calls (readyCalls w.vault) ∧
        Sound crypto key w.vault)))
      (do
        let probe ← VaultStartupGuard.obtainProbe env crypto (.static key []) key readonly
        Prog.ofExcept (VaultStartupGuard.validateProbeRecord probe)
        VaultStartupGuard.verifyProbe env crypto (.static key []) probe
        if readonly then throw ⟨.startupStorageReadonly,"Vault storage is readonly",
          "readonly_storage"⟩) w := by
  unfold VaultStartupGuard.obtainProbe VaultStartupGuard.loadProbe
  refine Prog.Ends.bind (Prog.Ends.bind (ends_mapError ((ends_read_clear env _ w).mono
    fun r w₁ hr => ?_)))
  obtain ⟨rfl,⟨rfl,hclear⟩ | ⟨e,rfl,hfail⟩⟩ := hr
  · simp only [Except.mapError]
    rw [← Vault.probe]
    cases hprobe : w.vault.probe with
    | some probe =>
      have hcalls : readyCalls w.vault = 1 + 1 := by simp [readyCalls, hprobe]
      refine Prog.Ends.pure ((ends_checkProbe env probe readonly _).mono fun r w₂ hr => ?_)
      simp only [Sound, VerifiedDeks, hprobe, hcalls, env.clear_succ, env.clear_zero, and_true]
      obtain ⟨⟨hin,hu,hm,hs⟩,hv,⟨rfl,hat,hwritable,hclear₂,hsound⟩ | ⟨e,rfl,hnot⟩⟩ := hr
      · refine ⟨⟨hin,hu,hm,hs⟩,.inl ⟨rfl,.inl ⟨rfl,congrArg _ hv⟩,?_,hat,hwritable,
          ⟨hclear,hclear₂⟩,hsound⟩⟩
        rw [hv, hprobe]
        rfl
      · exact ⟨⟨hin,hu,hm,hs⟩,.inr ⟨e,rfl,fun h => hnot ⟨h.1,h.2.1.2,h.2.2⟩⟩⟩
    | none =>
      have hcalls : readyCalls w.vault = 1 + ((dekCalls w.vault.deks + 2) + 1) := by
        simp only [readyCalls, hprobe, Option.isSome_none, Bool.false_eq_true, if_false]
        omega
      have hsplit : env.Clear w.calls (readyCalls w.vault) ↔ env.fails w.calls = false ∧
          env.Clear (w.calls + 1) (dekCalls w.vault.deks + 2) ∧
          env.fails (w.calls + 1 + (dekCalls w.vault.deks + 2)) = false := by
        rw [hcalls, env.clear_add, env.clear_add, env.clear_succ _ 0, env.clear_succ _ 0]
        simp [env.clear_zero]
      cases readonly with
      | true => exact Prog.Ends.throw ⟨⟨rfl,rfl,rfl,rfl⟩,.inr ⟨_,rfl,fun h => by cases h.1⟩⟩
      | false =>
        simp only [Sound, VerifiedDeks, hprobe, hsplit, true_and]
        refine (ends_createProbe env hc hrandom hk _).mono fun r w₂ hr => ?_
        obtain ⟨hmade,⟨d,plain,probe,rfl,hnew,hstored,huses,hplain,hat,hclear₂⟩ |
          ⟨e,rfl,hnot⟩⟩ := hr
        · have hframe : GuardFrame w w₂ := ⟨hmade.1,hmade.2,hmade.3,hmade.4⟩
          refine (ends_checkNew env hc hnamed hnew huses hplain).mono fun r w₃ hr => ?_
          obtain ⟨hchecked,hv,⟨rfl,hat',hclear₃,hsound⟩ | ⟨e,rfl,hnot⟩⟩ := hr
          · rw [hat] at hclear₃
            refine ⟨hframe.trans hchecked,.inl ⟨rfl,.inr ⟨d,plain,?_⟩,?_,?_,
              ⟨hclear,hclear₂,hclear₃⟩,hsound⟩⟩
            · rw [hv]
              exact huses
            · rw [hv, Vault.probe, hstored]
              rfl
            · dsimp only at hat ⊢
              omega
          · refine ⟨hframe.trans hchecked,.inr ⟨e,rfl,?_⟩⟩
            rintro ⟨⟨_,_,hclear₃⟩,hsound⟩
            exact hnot ⟨hat ▸ hclear₃,hsound⟩
        · refine ⟨⟨hmade.1,hmade.2,hmade.3,hmade.4⟩,.inr ⟨e,rfl,?_⟩⟩
          rintro ⟨⟨_,hclear₂,_⟩,hsound⟩
          exact hnot ⟨hclear₂,fun d hd => (hsound d hd).2⟩
  · refine ⟨⟨rfl,rfl,rfl,rfl⟩,.inr ⟨_,rfl,?_⟩⟩
    rintro ⟨_,hall,_⟩
    have hone : 0 < readyCalls w.vault := by
      unfold readyCalls
      split <;> omega
    have hclear := hall w.calls (Nat.le_refl _) (by omega)
    simp [hclear] at hfail

/-- What a verification needs, from its first call on. -/
structure VerifyPasses (env : VaultEnv) (crypto : VaultCrypto) (key : VaultMasterKey) (v : Vault)
    (start : Nat) : Prop where
  writable : env.readonly start = false
  clear : env.Clear start (readyCalls v + 1)
  sound : Sound crypto key v

theorem ends_postVerify (hc : crypto.Correct) (hrandom : env.Random)
    (hk : crypto.fernet.validKey key.keyMaterial = true) (hnamed : key.keyVersion ≠ "")
    {w : VaultWorld} (hout : w.inTransaction = false) :
    Prog.Ends (fun r w' => w'.inTransaction = false ∧ w'.vault.metadata = w.vault.metadata ∧
      ((r = .ok () ∧ VerifiedDeks env crypto key w.vault w'.vault.deks ∧
        w'.calls = w.calls + (readyCalls w.vault + 1) ∧
        VerifyPasses env crypto key w.vault w.calls) ∨
      ∃ e, r = .error e ∧ ¬ VerifyPasses env crypto key w.vault w.calls))
      (VaultKeyManagement.postVerify env crypto key) w := by
  refine Prog.Ends.bind (Prog.Ends.pure ?_)
  refine Prog.Ends.bind ((ends_isReadonly env hout).mono fun r w₁ hr => ?_)
  obtain ⟨rfl,⟨rfl,hreadonly⟩ | ⟨rfl,hwritable,hclear⟩ | ⟨e,rfl,_,hfail⟩⟩ := hr
  · refine (ends_ready env hc hrandom hk hnamed true _).mono fun r w₂ hr => ?_
    obtain ⟨⟨hin,_,hm,_⟩,⟨_,_,_,_,hwritable,_⟩ | ⟨e,rfl,_⟩⟩ := hr
    · cases hwritable
    · refine ⟨hin.trans hout,hm,.inr ⟨e,rfl,fun hpass => ?_⟩⟩
      simp [hpass.writable] at hreadonly
  · refine (ends_ready env hc hrandom hk hnamed false _).mono fun r w₂ hr => ?_
    obtain ⟨⟨hin,_,hm,_⟩,⟨rfl,hdeks,_,hat,_,hclear₂,hsound⟩ | ⟨e,rfl,hnot⟩⟩ := hr
    · refine ⟨hin.trans hout,hm,.inl ⟨rfl,hdeks,?_,hwritable,?_,hsound⟩⟩
      · dsimp only at hat
        omega
      · exact (env.clear_succ ..).mpr ⟨hclear,hclear₂⟩
    · exact ⟨hin.trans hout,hm,.inr ⟨e,rfl,fun hpass =>
        hnot ⟨rfl,((env.clear_succ ..).mp hpass.clear).2,hpass.sound⟩⟩⟩
  · refine ⟨hout,rfl,.inr ⟨e,rfl,fun hpass => ?_⟩⟩
    have hclear := ((env.clear_succ ..).mp hpass.clear).1
    simp [hclear] at hfail

end Verifying

end NexusEtl
