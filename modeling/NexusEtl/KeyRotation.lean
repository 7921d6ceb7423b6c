import NexusEtl.VaultVerification

/-!
# What a key rotation leaves

The verification of a rotation comes after its commit: where it fails, the rotation
raises although the old passphrase no longer opens anything. A rotation is atomic
exactly if no call after the commit fails and what it verifies is sound.
-/

set_option autoImplicit false

namespace NexusEtl
open NexusEtl.Library

section Preparing

variable (env : VaultEnv) {crypto : VaultCrypto}

/-- The draws that a run without an id makes for one. -/
def runIdDraws (runId : Option String) : Nat :=
  if (runId.filter fun r => r != "").isSome then 0 else 1

theorem ends_effectiveRunId (runId : Option String) (w : VaultWorld) :
    Prog.Ends (fun r w' => w' = { w with draws := w.draws + runIdDraws runId } ∧
      ∃ run, r = .ok run) (VaultKeyManagement.effectiveRunId env runId) w := by
  unfold VaultKeyManagement.effectiveRunId runIdDraws
  cases runId.filter fun r => r != "" with
  | some run => exact Prog.Ends.pure ⟨rfl,run,rfl⟩
  | none => exact Prog.Ends.bind (Prog.Ends.atomic (Prog.Ends.pure ⟨rfl,_,rfl⟩))

/-- The draw that gives the first key version not in use. -/
def VaultEnv.firstUnused (env : VaultEnv) (existing : List String) (start attempts : Nat) :
    Option Nat :=
  (List.range' start attempts).find? fun i => decide ("mk_" ++ env.uuid i ∉ existing)

theorem ends_uniqueKeyVersion (existing : List String) (attempts : Nat) (w : VaultWorld) :
    Prog.Ends (fun r w' => SameVault w w' ∧ w'.calls = w.calls ∧
      match env.firstUnused existing w.draws attempts with
      | some i => r = .ok ("mk_" ++ env.uuid i) ∧ w'.draws = i + 1
      | none => ∃ e, r = .error e)
      (VaultKeyManagement.uniqueKeyVersion env existing attempts) w := by
  induction attempts generalizing w with
  | zero => exact Prog.Ends.throw ⟨.refl w,rfl,_,rfl⟩
  | succ attempts ih =>
    refine Prog.Ends.bind (Prog.Ends.atomic ?_)
    dsimp only
    rw [VaultEnv.firstUnused, List.range'_succ, List.find?_cons]
    by_cases hused : "mk_" ++ env.uuid w.draws ∈ existing
    · rw [if_pos hused, decide_eq_false (not_not.mpr hused)]
      exact (ih _).mono fun r w' hr => ⟨⟨hr.1.vault,hr.1.inTransaction⟩,hr.2⟩
    · rw [if_neg hused, decide_eq_true hused]
      exact Prog.Ends.pure ⟨⟨rfl,rfl⟩,rfl,rfl,rfl⟩

/-- A new key: its passphrase derives it from the metadata, its version is not in use. -/
structure NewKey (crypto : VaultCrypto) (passphrase : String) (existing : List String)
    (metadata : VaultUnsealMetadata) (key : VaultMasterKey) : Prop where
  version : metadata.keyVersion = key.keyVersion
  fresh : key.keyVersion ∉ existing
  named : key.keyVersion ≠ ""
  derives : ∀ createdAt,
    crypto.kdf.deriveKey passphrase { metadata with createdAt := createdAt } = .ok key
  valid : crypto.fernet.validKey key.keyMaterial = true

/-- A key can be made: there is a passphrase, a version is found and argon2id takes it. -/
def KeyMade (env : VaultEnv) (crypto : VaultCrypto) (passphrase : String)
    (existing : List String) (start : Nat) : Prop :=
  ∃ i, env.firstUnused existing start 10 = some i ∧ passphrase ≠ "" ∧
    (crypto.kdf.argon2id passphrase (env.urandom (i + 1)) 3 65536 4 32).isSome = true

theorem ends_newMetadata (hc : crypto.Correct) (hrandom : env.Random)
    (passphrase now : String) (existing : List String) (w : VaultWorld) :
    Prog.Ends (fun r w' => SameVault w w' ∧ w'.calls = w.calls ∧
      ((∃ metadata key, r = .ok (metadata,key) ∧ NewKey crypto passphrase existing metadata key ∧
        KeyMade env crypto passphrase existing w.draws) ∨
      ∃ e, r = .error e ∧ ¬ KeyMade env crypto passphrase existing w.draws))
      (VaultKeyManagement.newMetadata env crypto passphrase existing now) w := by
  refine Prog.Ends.bind ((ends_uniqueKeyVersion env existing 10 w).mono fun r w₁ hr => ?_)
  obtain ⟨hsame,hcalls,hversion⟩ := hr
  cases hfirst : env.firstUnused existing w.draws 10 with
  | none =>
    rw [hfirst] at hversion
    obtain ⟨e,rfl⟩ := hversion
    refine ⟨hsame,hcalls,.inr ⟨e,rfl,?_⟩⟩
    rintro ⟨i,hi,_⟩
    cases hfirst.symm.trans hi
  | some i =>
    rw [hfirst] at hversion
    obtain ⟨rfl,hdraws⟩ := hversion
    have hmade : KeyMade env crypto passphrase existing w.draws ↔
        ∃ pair, crypto.kdf.createMetadata (env.urandom w₁.draws) (env.urandom (w₁.draws + 1))
          passphrase ("mk_" ++ env.uuid i) now = .ok pair := by
      rw [Kdf.createMetadata_isOk (hrandom _), hdraws, KeyMade, hfirst]
      simp
    refine Prog.Ends.bind (Prog.Ends.atomic (Prog.Ends.bind (Prog.Ends.atomic
      (Prog.Ends.ofExcept ⟨⟨hsame.vault,hsame.inTransaction⟩,hcalls,?_⟩))))
    dsimp only
    cases hcreate : crypto.kdf.createMetadata (env.urandom w₁.draws)
        (env.urandom (w₁.draws + 1)) passphrase ("mk_" ++ env.uuid i) now with
    | error e => exact .inr ⟨e,rfl,by simp [hmade, hcreate]⟩
    | ok pair =>
      obtain ⟨metadata,key⟩ := pair
      obtain ⟨hm,hkey,hderives⟩ := Kdf.createMetadata_spec hcreate
      have hunused := List.find?_some hfirst
      refine .inl ⟨metadata,key,rfl,⟨hm.trans hkey.symm,?_,?_,hderives,
        hc.kdf.deriveKey_valid (hderives "")⟩,hmade.mpr ⟨_,hcreate⟩⟩
      · rw [hkey]
        simpa using hunused
      · rw [hkey]
        intro hblank
        simpa using congrArg String.toList hblank

/-- What a rotation needs before its transaction: the metadata can be read, the passphrase
derives the old key from them, and a new key can be made. -/
structure Prepares (env : VaultEnv) (crypto : VaultCrypto) (current new : String)
    (runId : Option String) (w : VaultWorld) (metadata : VaultUnsealMetadata)
    (oldKey : VaultMasterKey) : Prop where
  stored : w.vault.metadata = some metadata
  read : env.fails w.calls = false
  derives : crypto.kdf.deriveKey current metadata = .ok oldKey
  newKey : KeyMade env crypto new [metadata.keyVersion] (w.draws + runIdDraws runId + 1)

theorem ends_prepareRotation (hc : crypto.Correct) (hrandom : env.Random) (current new : String)
    (runId : Option String) (w : VaultWorld) :
    Prog.Ends (fun r w' => SameVault w w' ∧
      ((∃ metadata keys, r = .ok keys ∧ w'.calls = w.calls + 1 ∧
        NewKey crypto new [metadata.keyVersion] keys.metadata keys.newKey ∧
        Prepares env crypto current new runId w metadata keys.oldKey) ∨
      ∃ e, r = .error e ∧
        ∀ metadata oldKey, ¬ Prepares env crypto current new runId w metadata oldKey))
      (VaultKeyManagement.prepareRotation env crypto current new runId) w := by
  unfold VaultKeyManagement.prepareRotation VaultKeyManagement.requireMetadata
  refine Prog.Ends.bind ((ends_effectiveRunId env runId w).mono fun r w₁ hr => ?_)
  obtain ⟨rfl,run,rfl⟩ := hr
  refine Prog.Ends.bind (Prog.Ends.bind ((ends_read_clear env _ _).mono fun r w₂ hr => ?_))
  obtain ⟨rfl,⟨rfl,hclear⟩ | ⟨e,rfl,hfail⟩⟩ := hr
  · dsimp only at hclear ⊢
    cases hm : w.vault.metadata with
    | none =>
      refine Prog.Ends.throw ⟨⟨rfl,rfl⟩,.inr ⟨_,rfl,fun metadata oldKey h => ?_⟩⟩
      cases hm.symm.trans h.stored
    | some metadata =>
      refine Prog.Ends.pure (Prog.Ends.bind (Prog.Ends.ofExcept ?_))
      cases hold : crypto.kdf.deriveKey current metadata with
      | error e =>
        refine ⟨⟨rfl,rfl⟩,.inr ⟨e,rfl,fun metadata' oldKey h => ?_⟩⟩
        obtain rfl := Option.some.inj (hm.symm.trans h.stored)
        cases hold.symm.trans h.derives
      | ok oldKey =>
        refine Prog.Ends.bind (Prog.Ends.bind (Prog.Ends.atomic (Prog.Ends.pure ?_)))
        refine Prog.Ends.bind ((ends_newMetadata env hc hrandom new _ _ _).mono fun r w₃ hr => ?_)
        obtain ⟨hsame,hcalls,⟨metadata',newKey,rfl,hnew,hmade⟩ | ⟨e,rfl,hnot⟩⟩ := hr
        · exact Prog.Ends.pure ⟨⟨hsame.vault,hsame.inTransaction⟩,
            .inl ⟨metadata,_,rfl,hcalls,hnew,hm,hclear,hold,hmade⟩⟩
        · refine ⟨⟨hsame.vault,hsame.inTransaction⟩,
            .inr ⟨e,rfl,fun metadata' oldKey' h => ?_⟩⟩
          obtain rfl := Option.some.inj (hm.symm.trans h.stored)
          exact hnot h.newKey
  · refine ⟨⟨rfl,rfl⟩,.inr ⟨e,rfl,fun metadata oldKey h => ?_⟩⟩
    have hclear := h.read
    simp [hclear] at hfail

end Preparing

section Rotated

variable {crypto : VaultCrypto} {old new : VaultMasterKey}

/-- What the table opens and which key is active, told of the table before the loop. -/
theorem RewrappedTable.probeOpens_iff (hc : crypto.Correct)
    (hk : crypto.fernet.validKey new.keyMaterial = true) {deks deks' : DekTable}
    (h : RewrappedTable crypto old new deks deks') (probe : VaultProbeRecord) :
    ProbeOpens crypto new deks' probe ↔ ProbeOpens crypto old deks probe := by
  constructor
  · rintro ⟨d',hget,plain,hopens,hpayload⟩
    obtain ⟨hd',hv⟩ := DekTable.getDek_mem hget
    obtain ⟨d,hd,hwrapping⟩ := h.source d' hd'
    refine ⟨d,?_,plain,(hwrapping.opens_iff hc hk).mp hopens,hpayload⟩
    rw [← hv, hwrapping.version]
    exact DekTable.getDek_of_mem hd
  · rintro ⟨d,hget,plain,hopens,hpayload⟩
    obtain ⟨hd,hv⟩ := DekTable.getDek_mem hget
    obtain ⟨d',hd',hwrapping⟩ := h.kept d hd
    refine ⟨d',?_,plain,(hwrapping.opens_iff hc hk).mpr hopens,hpayload⟩
    rw [← hv, ← hwrapping.version]
    exact DekTable.getDek_of_mem hd'

theorem RewrappedTable.getActiveDek_isSome {deks deks' : DekTable}
    (h : RewrappedTable crypto old new deks deks') :
    deks'.getActiveDek.isSome = deks.lastActive.isSome := by
  cases hlast : deks.lastActive with
  | none =>
    have hnone : deks'.getActiveDek = none := by
      refine DekTable.getActiveDek_eq_none.mpr fun d' hd' => ?_
      by_contra ha
      have hactive := (h.active d'.dekVersion).mp ⟨d',hd',rfl,by simpa using ha⟩
      simp [hlast] at hactive
    simp [hnone]
  | some d =>
    cases hactive : deks'.getActiveDek with
    | some d' => rfl
    | none =>
      obtain ⟨d',hd',_,ha⟩ := (h.active d.dekVersion).mpr (by simp [hlast])
      simp [DekTable.getActiveDek_eq_none.mp hactive d' hd'] at ha

theorem RewrappedTable.getActiveDek {deks deks' : DekTable}
    (h : RewrappedTable crypto old new deks deks') {d' : VaultDekRecord}
    (hactive : deks'.getActiveDek = some d') :
    ∃ d, deks.lastActive = some d ∧ NewWrapping crypto old new d d' := by
  obtain ⟨hd',ha⟩ := DekTable.getActiveDek_mem hactive
  have hversion := (h.active d'.dekVersion).mp ⟨d',hd',rfl,ha⟩
  obtain ⟨d,hlast,hv⟩ := Option.map_eq_some_iff.mp hversion
  obtain ⟨d₀,hd₀,hwrapping⟩ := h.source d' hd'
  obtain rfl : d₀ = d := List.inj_on_of_nodup_map deks.versions hd₀
    (DekTable.lastActive_mem hlast).1 (hwrapping.version.symm.trans hv.symm)
  exact ⟨d₀,hlast,hwrapping⟩

/-- Whether one data key is active is the same before and after. -/
theorem DekTable.lastActive_isSome (t : DekTable) :
    t.lastActive.isSome = t.getActiveDek.isSome := by
  have hnone : t.lastActive = none ↔ t.getActiveDek = none := by
    rw [lastActive_eq_none, getActiveDek_eq_none]
  cases hlast : t.lastActive <;> cases hactive : t.getActiveDek <;> simp_all

theorem RewrappedTable.readyCalls_eq {v v' : Vault}
    (h : RewrappedTable crypto old new v.deks v'.deks) (hprobe : v'.probe = v.probe) :
    readyCalls v' = readyCalls v := by
  unfold readyCalls dekCalls
  rw [hprobe, h.getActiveDek_isSome, DekTable.lastActive_isSome]

/-- What the verification after a rotation looks at, told of the vault before the rotation. -/
def SoundBefore (crypto : VaultCrypto) (old : VaultMasterKey) (v : Vault) : Prop :=
  match v.probe with
  | some probe => VaultStartupGuard.validateProbeRecord probe = .ok () ∧
      ProbeOpens crypto old v.deks probe
  | none => ∀ d, v.deks.lastActive = some d → d.dekVersion ≠ "" ∧
      ∃ plain, Opens crypto old d plain ∧ crypto.fernet.validKey plain = true

theorem RewrappedTable.sound_iff (hc : crypto.Correct)
    (hk : crypto.fernet.validKey new.keyMaterial = true) {v v' : Vault}
    (h : RewrappedTable crypto old new v.deks v'.deks) (hprobe : v'.probe = v.probe) :
    Sound crypto new v' ↔ SoundBefore crypto old v := by
  unfold Sound SoundBefore
  rw [hprobe]
  cases v.probe with
  | some probe => exact and_congr_right fun _ => h.probeOpens_iff hc hk probe
  | none =>
    constructor
    · intro hsound d hlast
      have hsome : v'.deks.getActiveDek.isSome = true := by
        rw [h.getActiveDek_isSome, hlast]
        rfl
      obtain ⟨d',hactive⟩ := Option.isSome_iff_exists.mp hsome
      obtain ⟨d₀,hlast₀,hwrapping⟩ := h.getActiveDek hactive
      obtain rfl := Option.some.inj (hlast.symm.trans hlast₀)
      obtain ⟨hnamed,plain,hopens,hvalid⟩ := hsound d' hactive
      exact ⟨hwrapping.version ▸ hnamed,plain,(hwrapping.opens_iff hc hk).mp hopens,hvalid⟩
    · intro hsound d' hactive
      obtain ⟨d,hlast,hwrapping⟩ := h.getActiveDek hactive
      obtain ⟨hnamed,plain,hopens,hvalid⟩ := hsound d hlast
      exact ⟨hwrapping.version ▸ hnamed,plain,(hwrapping.opens_iff hc hk).mpr hopens,hvalid⟩

end Rotated

section Outcomes

variable (env : VaultEnv) {crypto : VaultCrypto}

/-- The notes on the outcome touch neither the metadata nor the data keys. -/
structure SameKeys (v v' : Vault) : Prop where
  metadata : v'.metadata = v.metadata
  deks : v'.deks = v.deks

theorem ends_markFailed (runId reason : String) (w : VaultWorld) :
    Prog.Ends (fun _ w' => SameKeys w.vault w'.vault)
      (VaultKeyManagement.markFailed env runId reason) w := by
  unfold VaultKeyManagement.markFailed VaultKeyManagement.setLastRotationRunId
    VaultKeyManagement.setLastRotationResult VaultKeyManagement.setMeta
  refine Prog.Ends.bind ((ends_write_clear env _ w).mono fun r w₁ hr => ?_)
  obtain ⟨rfl,_,rfl⟩ | ⟨e,rfl,_,rfl⟩ := hr
  · refine (ends_write_clear env _ _).mono fun r w₂ hr => ?_
    obtain ⟨rfl,_,rfl⟩ | ⟨e,rfl,_,rfl⟩ := hr <;> exact ⟨rfl,rfl⟩
  · exact ⟨rfl,rfl⟩

theorem ends_markSuccess (runId reason time : String) (w : VaultWorld) :
    Prog.Ends (fun r w' => SameKeys w.vault w'.vault ∧
      ((r = .ok () ∧ env.Clear w.calls 3) ∨ ∃ e, r = .error e ∧ ¬ env.Clear w.calls 3))
      (VaultKeyManagement.markSuccess env runId reason (some time)) w := by
  simp only [env.clear_succ, env.clear_zero, and_true]
  unfold VaultKeyManagement.markSuccess VaultKeyManagement.setLastRotationRunId
    VaultKeyManagement.setLastRotationResult VaultKeyManagement.setMeta
  refine Prog.Ends.bind ((ends_write_clear env _ w).mono fun r w₁ hr => ?_)
  obtain ⟨rfl,h₀,rfl⟩ | ⟨e,rfl,hfail,rfl⟩ := hr
  · refine Prog.Ends.bind ((ends_write_clear env _ _).mono fun r w₂ hr => ?_)
    obtain ⟨rfl,h₁,rfl⟩ | ⟨e,rfl,hfail,rfl⟩ := hr
    · refine (ends_write_clear env _ _).mono fun r w₃ hr => ?_
      obtain ⟨rfl,h₂,rfl⟩ | ⟨e,rfl,hfail,rfl⟩ := hr
      · exact ⟨⟨rfl,rfl⟩,.inl ⟨rfl,h₀,h₁,h₂⟩⟩
      · exact ⟨⟨rfl,rfl⟩,.inr ⟨e,rfl,fun h => by simp [h.2.2] at hfail⟩⟩
    · exact ⟨⟨rfl,rfl⟩,.inr ⟨e,rfl,fun h => by simp [h.2.1] at hfail⟩⟩
  · exact ⟨⟨rfl,rfl⟩,.inr ⟨e,rfl,fun h => by simp [h.1] at hfail⟩⟩

/-- A failure of the body is noted; the body's own end decides over the keys. -/
theorem ends_guarded {A : Type} {Q : Except VaultError A → VaultWorld → Prop} {runId reason : String}
    {body : VaultM A} {w : VaultWorld}
    (h : Prog.Ends (fun r w₁ => match r with
      | .ok a => Q (.ok a) w₁
      | .error _ => ∀ e w₂, SameKeys w₁.vault w₂.vault → Q (.error e) w₂) body w) :
    Prog.Ends Q (VaultKeyManagement.guarded env runId reason body) w := by
  refine Prog.Ends.tryCatch (h.mono fun r w₁ hr => ?_)
  cases r with
  | ok a => exact hr
  | error e =>
    refine Prog.Ends.bind ((ends_markFailed env runId reason w₁).mono fun r w₂ hsame => ?_)
    cases r with
    | ok _ => exact Prog.Ends.throw (hr _ w₂ hsame)
    | error e' => exact hr e' w₂ hsame

/-- What a rotation has made of the vault: the new passphrase derives the new key, which opens
every data key to what the old key opened it to, and one data key is active. -/
structure Rotated (crypto : VaultCrypto) (current new : String) (v v' : Vault)
    (oldKey newKey : VaultMasterKey) : Prop where
  derived : ∃ metadata, v.metadata = some metadata ∧
    crypto.kdf.deriveKey current metadata = .ok oldKey
  verified : ∃ metadata, v'.metadata = some metadata ∧
    crypto.kdf.deriveKey new metadata = .ok newKey
  wrapped : ∀ d' ∈ v'.deks.rows, d'.wrapKeyVersion = newKey.keyVersion ∧
    ∃ plain, Opens crypto newKey d' plain
  kept : ∀ d ∈ v.deks.rows, ∃ d' ∈ v'.deks.rows, d'.dekVersion = d.dekVersion ∧
    ∃ plain, Opens crypto oldKey d plain ∧ Opens crypto newKey d' plain
  oneActive : ∃! d', d' ∈ v'.deks.rows ∧ d'.isActive = true

/-- A rotation that returns has rotated, and one that raises has changed no key. -/
def RotationAtomic (crypto : VaultCrypto) (current new : String) (v : Vault)
    (result : Except VaultError VaultKeyManagementResult) (v' : Vault) : Prop :=
  match result with
  | .ok _ => ∃ oldKey newKey, Rotated crypto current new v v' oldKey newKey
  | .error _ => SameKeys v v'

/-- What comes after the commit goes well: the file can be written, no call of the verification
or of the notes on the outcome fails, the verification finds what it needs, and if it finds a
probe there is an active data key besides. -/
structure AfterCommit (env : VaultEnv) (crypto : VaultCrypto) (oldKey : VaultMasterKey)
    (v : Vault) (start : Nat) : Prop where
  writable : env.readonly start = false
  clear : env.Clear start (readyCalls v + 1 + 3)
  sound : SoundBefore crypto oldKey v
  active : v.probe.isSome = true → ∃ d ∈ v.deks.rows, d.isActive = true

/-- If a rotation comes to commit, what follows goes well. -/
def RotationSound (env : VaultEnv) (crypto : VaultCrypto) (current new : String)
    (runId : Option String) (w : VaultWorld) : Prop :=
  ∀ metadata oldKey, Prepares env crypto current new runId w metadata oldKey →
    RewrapPasses env crypto oldKey w.vault.deks (w.calls + 1) (rewrapCalls 1 w.vault.deks) →
    AfterCommit env crypto oldKey w.vault (w.calls + 1 + rewrapCalls 1 w.vault.deks)

/-- The names drawn for new data keys are not those of stored ones. -/
def VaultEnv.NamesNewDeks (env : VaultEnv) (deks : DekTable) : Prop :=
  ∀ d ∈ deks.rows, ∀ i, d.dekVersion ≠ "dek_" ++ env.uuid i

theorem DekTable.oneActive {t : DekTable} {version : String}
    (h : ∀ v, t.ActiveVersion v ↔ version = v) : ∃! d, d ∈ t.rows ∧ d.isActive = true := by
  obtain ⟨d,hd,hv,ha⟩ := (h version).mpr rfl
  refine ⟨d,⟨hd,ha⟩,fun d' hd' => ?_⟩
  have hv' := (h d'.dekVersion).mp ⟨d',hd'.1,rfl,hd'.2⟩
  exact List.inj_on_of_nodup_map t.versions hd'.1 hd (hv'.symm.trans hv.symm)

theorem Opens.of_keepsKey {key : VaultMasterKey} {d d' : VaultDekRecord} {plain : String}
    (h : Opens crypto key d plain) (hkeeps : DekTable.KeepsKey d d') :
    Opens crypto key d' plain := by
  unfold Opens at h ⊢
  rw [hkeeps.wrapped, hkeeps.algo]
  exact h

section Tables

variable {oldKey newKey : VaultMasterKey} {deks deks' : DekTable}

/-- What the loop leaves, for the outcome of the rotation. -/
theorem RewrappedTable.wrapped (hc : crypto.Correct)
    (hk : crypto.fernet.validKey newKey.keyMaterial = true)
    (h : RewrappedTable crypto oldKey newKey deks deks') {d' : VaultDekRecord}
    (hd' : d' ∈ deks'.rows) : d'.wrapKeyVersion = newKey.keyVersion ∧
      ∃ plain, Opens crypto newKey d' plain := by
  obtain ⟨d,_,hwrapping⟩ := h.source d' hd'
  obtain ⟨plain,_,hopens,_⟩ := hwrapping.plain
  exact ⟨hwrapping.keyVersion,plain,(hwrapping.opens_iff hc hk).mpr hopens⟩

theorem RewrappedTable.kept_opens (hc : crypto.Correct)
    (hk : crypto.fernet.validKey newKey.keyMaterial = true)
    (h : RewrappedTable crypto oldKey newKey deks deks') {d : VaultDekRecord}
    (hd : d ∈ deks.rows) : ∃ d' ∈ deks'.rows, d'.dekVersion = d.dekVersion ∧
      ∃ plain, Opens crypto oldKey d plain ∧ Opens crypto newKey d' plain := by
  obtain ⟨d',hd',hwrapping⟩ := h.kept d hd
  obtain ⟨plain,_,hopens,_⟩ := hwrapping.plain
  exact ⟨d',hd',hwrapping.version,plain,hopens,(hwrapping.opens_iff hc hk).mpr hopens⟩

theorem RewrappedTable.oneActive (h : RewrappedTable crypto oldKey newKey deks deks')
    (hactive : deks.lastActive.isSome = true) :
    ∃! d', d' ∈ deks'.rows ∧ d'.isActive = true := by
  obtain ⟨d,hlast⟩ := Option.isSome_iff_exists.mp hactive
  have hversion : ∀ v, deks'.ActiveVersion v ↔ d.dekVersion = v := by
    intro v
    rw [h.active v, hlast]
    simp
  exact DekTable.oneActive hversion

theorem DekTable.lastActive_isSome_iff {t : DekTable} :
    t.lastActive.isSome = true ↔ ∃ d ∈ t.rows, d.isActive = true := by
  constructor
  · intro h
    obtain ⟨d,hlast⟩ := Option.isSome_iff_exists.mp h
    obtain ⟨hd,ha⟩ := lastActive_mem hlast
    exact ⟨d,hd,ha⟩
  · rintro ⟨d,hd,ha⟩
    cases hlast : t.lastActive with
    | some d' => rfl
    | none => simp [lastActive_eq_none.mp hlast d hd] at ha

/-- The data keys after loop and verification. -/
structure KeysRotated (crypto : VaultCrypto) (oldKey newKey : VaultMasterKey)
    (deks deks' : DekTable) : Prop where
  wrapped : ∀ d' ∈ deks'.rows, d'.wrapKeyVersion = newKey.keyVersion ∧
    ∃ plain, Opens crypto newKey d' plain
  kept : ∀ d ∈ deks.rows, ∃ d' ∈ deks'.rows, d'.dekVersion = d.dekVersion ∧
    ∃ plain, Opens crypto oldKey d plain ∧ Opens crypto newKey d' plain

theorem RewrappedTable.rotated (hc : crypto.Correct)
    (hk : crypto.fernet.validKey newKey.keyMaterial = true)
    (h : RewrappedTable crypto oldKey newKey deks deks') :
    KeysRotated crypto oldKey newKey deks deks' :=
  ⟨fun _ hd => h.wrapped hc hk hd,fun _ hd => h.kept_opens hc hk hd⟩

/-- A data key that the verification adds takes the place of none. -/
theorem RewrappedTable.rotated_upsert (hc : crypto.Correct)
    (hk : crypto.fernet.validKey newKey.keyMaterial = true) (hnames : env.NamesNewDeks deks)
    (h : RewrappedTable crypto oldKey newKey deks deks') {d : VaultDekRecord} {plain : String}
    (huses : UsesDek env crypto newKey deks' (deks'.upsertDek d) d plain)
    (hversion : d.wrapKeyVersion = newKey.keyVersion)
    (hname : ∃ i, d.dekVersion = "dek_" ++ env.uuid i) :
    KeysRotated crypto oldKey newKey deks (deks'.upsertDek d) := by
  obtain ⟨i,hi⟩ := hname
  have hnew : ∀ d' ∈ deks'.rows, d'.dekVersion ≠ d.dekVersion := by
    intro d' hd'
    obtain ⟨d₀,hd₀,hwrapping⟩ := h.source d' hd'
    rw [hwrapping.version, hi]
    exact hnames d₀ hd₀ i
  constructor
  · intro d' hd'
    rcases DekTable.mem_upsertDek.mp hd' with ⟨d₀,hd₀,hv,_⟩ | ⟨d₀,hd₀,_,rfl⟩ | ⟨_,rfl⟩
    · exact absurd hv (hnew d₀ hd₀)
    · have hkeeps := DekTable.othersAfter_keepsKey d d₀
      obtain ⟨hkey,plain',hopens⟩ := h.wrapped hc hk hd₀
      exact ⟨hkeeps.keyVersion.trans hkey,plain',hopens.of_keepsKey hkeeps⟩
    · exact ⟨hversion,plain,huses.opens⟩
  · intro d₀ hd₀
    obtain ⟨d',hd',hv,plain',hold,hopens⟩ := h.kept_opens hc hk hd₀
    have hkeeps := DekTable.othersAfter_keepsKey d d'
    exact ⟨_,DekTable.mem_upsertDek.mpr (.inr (.inl ⟨d',hd',hnew d' hd',rfl⟩)),
      hkeeps.version.trans hv,plain',hold,hopens.of_keepsKey hkeeps⟩

/-- After the verification the data keys are rotated, and one is active unless a probe let the
verification do without. -/
theorem RewrappedTable.verified (hc : crypto.Correct)
    (hk : crypto.fernet.validKey newKey.keyMaterial = true) {v v' : Vault}
    (hnames : env.NamesNewDeks v.deks) (h : RewrappedTable crypto oldKey newKey v.deks v'.deks)
    (hprobe : v'.probe = v.probe) {verified : DekTable}
    (hverified : VerifiedDeks env crypto newKey v' verified) :
    KeysRotated crypto oldKey newKey v.deks verified ∧
      ((∃! d, d ∈ verified.rows ∧ d.isActive = true) ↔
        (v.probe.isSome = true → ∃ d ∈ v.deks.rows, d.isActive = true)) := by
  rw [← DekTable.lastActive_isSome_iff]
  have hone : verified = v'.deks → ((∃! d, d ∈ verified.rows ∧ d.isActive = true) ↔
      v.deks.lastActive.isSome = true) := by
    rintro rfl
    constructor
    · rintro ⟨d,⟨hd,ha⟩,_⟩
      have hversion := (h.active d.dekVersion).mp ⟨d,hd,rfl,ha⟩
      obtain ⟨d₀,hlast,_⟩ := Option.map_eq_some_iff.mp hversion
      rw [hlast]
      rfl
    · exact h.oneActive
  rcases hverified with ⟨hsome,rfl⟩ | ⟨hnone,d,plain,huses⟩
  · rw [hprobe] at hsome
    refine ⟨h.rotated hc hk,?_⟩
    rw [hone rfl]
    simp [hsome]
  · rw [hprobe] at hnone
    obtain ⟨hactive,rfl⟩ | ⟨_,rfl,ha,hkey,_,hname⟩ := huses.source
    · have hlast := h.getActiveDek_isSome
      rw [hactive, Option.isSome_some] at hlast
      refine ⟨h.rotated hc hk,?_⟩
      rw [hone rfl]
      simp [← hlast]
    · refine ⟨h.rotated_upsert env hc hk hnames huses hkey hname,?_⟩
      have hversion : ∀ v, (v'.deks.upsertDek d).ActiveVersion v ↔ d.dekVersion = v := by
        intro v
        rw [DekTable.activeVersion_upsertDek, if_pos ha, eq_comm]
      simp [DekTable.oneActive hversion, hnone]

end Tables

section Rotation

variable {oldKey newKey : VaultMasterKey}

/-- The verification and the notes need what `AfterCommit` tells of the vault before. -/
theorem RewrappedTable.afterCommit_iff (hc : crypto.Correct)
    (hk : crypto.fernet.validKey newKey.keyMaterial = true) {v v' : Vault}
    (h : RewrappedTable crypto oldKey newKey v.deks v'.deks) (hprobe : v'.probe = v.probe)
    (start : Nat) :
    AfterCommit env crypto oldKey v start ↔ VerifyPasses env crypto newKey v' start ∧
      env.Clear (start + (readyCalls v' + 1)) 3 ∧
      (v.probe.isSome = true → ∃ d ∈ v.deks.rows, d.isActive = true) := by
  rw [h.readyCalls_eq hprobe]
  constructor
  · intro hafter
    have hclear := (env.clear_add ..).mp hafter.clear
    exact ⟨⟨hafter.writable,h.readyCalls_eq hprobe ▸ hclear.1,
      (h.sound_iff hc hk hprobe).mpr hafter.sound⟩,hclear.2,hafter.active⟩
  · rintro ⟨hpass,hnotes,hactive⟩
    have hverify := hpass.clear
    rw [h.readyCalls_eq hprobe] at hverify
    exact ⟨hpass.writable,(env.clear_add ..).mpr ⟨hverify,hnotes⟩,
      (h.sound_iff hc hk hprobe).mp hpass.sound,hactive⟩

/-- The guarded part of a rotation. -/
theorem ends_rotateBody (hc : crypto.Correct) (hrandom : env.Random)
    (hnew : crypto.fernet.validKey newKey.keyMaterial = true) (hnamed : newKey.keyVersion ≠ "")
    (runId : String) (metadata : VaultUnsealMetadata) {w : VaultWorld}
    (hout : w.inTransaction = false) :
    Prog.Ends (fun r w' =>
      (∃ e, r = .error e ∧ w'.vault = w.vault ∧
        ¬ RewrapPasses env crypto oldKey w.vault.deks w.calls (rewrapCalls 1 w.vault.deks)) ∨
      (RewrapPasses env crypto oldKey w.vault.deks w.calls (rewrapCalls 1 w.vault.deks) ∧
        w'.vault.metadata = (w.vault.upsertUnsealMetadata metadata).metadata ∧
        ∃ v, RewrappedTable crypto oldKey newKey w.vault.deks v.deks ∧
          v.probe = w.vault.probe ∧
          ((∃ n, r = .ok n ∧ VerifiedDeks env crypto newKey v w'.vault.deks ∧
            w'.calls = w.calls + rewrapCalls 1 w.vault.deks + (readyCalls v + 1) ∧
            VerifyPasses env crypto newKey v (w.calls + rewrapCalls 1 w.vault.deks)) ∨
          ∃ e, r = .error e ∧
            ¬ VerifyPasses env crypto newKey v (w.calls + rewrapCalls 1 w.vault.deks))))
      (do
        let count ← VaultKeyManagement.rewrapInTransaction env crypto newKey [oldKey] runId
          "rotate_in_progress" (some metadata)
        VaultKeyManagement.postVerify env crypto newKey
        return count) w := by
  refine Prog.Ends.bind ((ends_rewrapInTransaction env hnew _ _ _ hout).mono fun r w₁ hr => ?_)
  obtain ⟨hout₁,_,⟨news,rfl,hnews,hdeks,hm,hprobes,_,hcalls,hpass⟩ | ⟨e,rfl,hv,hnot⟩⟩ := hr
  · have htable := RewrappedTable.of_foldl hnews
    rw [← hdeks] at htable
    refine Prog.Ends.bind ((ends_postVerify env hc hrandom hnew hnamed hout₁).mono
      fun r w₂ hr => ?_)
    rw [hcalls] at hr
    obtain ⟨_,hm',⟨rfl,hverified,hcalls',hverify⟩ | ⟨e,rfl,hnot⟩⟩ := hr
    · exact Prog.Ends.pure (.inr ⟨hpass,hm'.trans hm,w₁.vault,htable,congrArg (Dict.get? · _) hprobes,
        .inl ⟨_,rfl,hverified,hcalls',hverify⟩⟩)
    · exact .inr ⟨hpass,hm'.trans hm,w₁.vault,htable,congrArg (Dict.get? · _) hprobes,
        .inr ⟨e,rfl,hnot⟩⟩
  · exact .inl ⟨e,rfl,hv,hnot⟩

theorem NewKey.metadata_ne {passphrase : String} {v : Vault}
    {metadata metadata' : VaultUnsealMetadata} (hstored : v.metadata = some metadata)
    (h : NewKey crypto passphrase [metadata.keyVersion] metadata' newKey) :
    (v.upsertUnsealMetadata metadata').metadata ≠ v.metadata := by
  intro heq
  rw [hstored] at heq
  have hversion := congrArg VaultUnsealMetadata.keyVersion (Option.some.inj heq)
  exact h.fresh (List.mem_singleton.mpr (h.version.symm.trans hversion))

theorem Prepares.unique {current new : String} {runId : Option String} {w : VaultWorld}
    {metadata metadata' : VaultUnsealMetadata} {oldKey oldKey' : VaultMasterKey}
    (h : Prepares env crypto current new runId w metadata oldKey)
    (h' : Prepares env crypto current new runId w metadata' oldKey') : oldKey' = oldKey := by
  obtain rfl := Option.some.inj (h.stored.symm.trans h'.stored)
  exact (Except.ok.inj (h.derives.symm.trans h'.derives)).symm

theorem rotationSound_iff {current new : String} {runId : Option String} {w : VaultWorld}
    {metadata : VaultUnsealMetadata} (h : Prepares env crypto current new runId w metadata oldKey) :
    RotationSound env crypto current new runId w ↔
      (RewrapPasses env crypto oldKey w.vault.deks (w.calls + 1) (rewrapCalls 1 w.vault.deks) →
        AfterCommit env crypto oldKey w.vault (w.calls + 1 + rewrapCalls 1 w.vault.deks)) := by
  constructor
  · exact fun hsound => hsound metadata oldKey h
  · intro hafter metadata' oldKey' h'
    obtain rfl := h.unique env h'
    exact hafter

/-- A rotation is atomic exactly if what follows a commit goes well. -/
theorem rotation_atomic_iff (hc : crypto.Correct) (hrandom : env.Random)
    (current new : String) (runId : Option String) (w : VaultWorld)
    (hout : w.inTransaction = false) (hnames : env.NamesNewDeks w.vault.deks) :
    RotationAtomic crypto current new w.vault
      ((VaultKeyManagement.rotateAndRewrap env crypto current new runId).run w).1
      ((VaultKeyManagement.rotateAndRewrap env crypto current new runId).run w).2.vault ↔
    RotationSound env crypto current new runId w := by
  have hends : Prog.Ends (fun r w' => RotationAtomic crypto current new w.vault r w'.vault ↔
      RotationSound env crypto current new runId w)
      (VaultKeyManagement.rotateAndRewrap env crypto current new runId) w := by
    refine Prog.Ends.bind ((ends_prepareRotation env hc hrandom current new runId w).mono
      fun r w₁ hr => ?_)
    obtain ⟨hsame,⟨metadata,keys,rfl,hcalls,hnew,hprepares⟩ | ⟨e,rfl,hnot⟩⟩ := hr
    · rw [rotationSound_iff env hprepares]
      have hbody := @ends_rotateBody env crypto keys.oldKey keys.newKey hc hrandom hnew.valid
        hnew.named keys.runId keys.metadata w₁ (hsame.inTransaction.trans hout)
      rw [hsame.vault, hcalls] at hbody
      refine Prog.Ends.bind (ends_guarded env (hbody.mono fun r w₂ hr => ?_))
      obtain ⟨e,rfl,hv,hnot⟩ | ⟨hpass,hm,v,htable,hprobe,hr⟩ := hr
      · intro e w₃ hkeys
        rw [hv] at hkeys
        exact ⟨fun _ hpass => absurd hpass hnot,fun _ => hkeys⟩
      · have hafter := htable.afterCommit_iff env hc hnew.valid hprobe
          (w.calls + 1 + rewrapCalls 1 w.vault.deks)
        have hchanged : ∀ {w' : VaultWorld}, SameKeys w₂.vault w'.vault →
            ¬ SameKeys w.vault w'.vault := by
          intro w' hkeys hkeys'
          exact NewKey.metadata_ne hprepares.stored hnew
            (hm ▸ hkeys.metadata.symm.trans hkeys'.metadata)
        obtain ⟨n,rfl,hverified,hcalls',hverify⟩ | ⟨e,rfl,hnot⟩ := hr
        · refine Prog.Ends.bind ((ends_markSuccess env _ _ _ w₂).mono fun r w₃ hr => ?_)
          rw [hcalls'] at hr
          obtain ⟨hkeys,⟨rfl,hclear⟩ | ⟨e,rfl,hnot⟩⟩ := hr
          · obtain ⟨hrotated,hone⟩ := htable.verified env hc hnew.valid hnames hprobe hverified
            rw [← hkeys.deks] at hrotated hone
            refine Prog.Ends.pure ⟨?_,fun hsound => ?_⟩
            · rintro ⟨_,_,hr⟩ _
              exact hafter.mpr ⟨hverify,hclear,hone.mp hr.oneActive⟩
            · have hactive := (hafter.mp (hsound hpass)).2.2
              exact ⟨keys.oldKey,keys.newKey,⟨metadata,hprepares.stored,hprepares.derives⟩,
                ⟨_,hkeys.metadata.trans hm,hnew.derives _⟩,hrotated.wrapped,hrotated.kept,
                hone.mpr hactive⟩
          · exact ⟨fun hsame' => absurd hsame' (hchanged hkeys),
              fun hsound => absurd (hafter.mp (hsound hpass)).2.1 hnot⟩
        · intro e' w₃ hkeys
          exact ⟨fun hsame' => absurd hsame' (hchanged hkeys),
            fun hsound => absurd (hafter.mp (hsound hpass)).1 hnot⟩
    · have hsound : RotationSound env crypto current new runId w :=
        fun metadata oldKey h => absurd h (hnot metadata oldKey)
      exact ⟨fun _ => hsound,fun _ => ⟨congrArg _ hsame.vault,congrArg _ hsame.vault⟩⟩
  exact hends

end Rotation

end Outcomes

/-- A vault that was just initialised with a passphrase. -/
def VaultWorld.initialised : VaultWorld :=
  ((VaultKeyManagement.initKeyring .quiet .transparent "old" (some "run_0")).run .empty).2

/-- One call fails. -/
def VaultEnv.quietBut (n : Nat) : VaultEnv := { VaultEnv.quiet with fails := fun i => i == n }

/-- The verification of a committed rotation cannot read the probe: the rotation raises, and the
old passphrase no longer opens the vault. -/
theorem raised_rotation_keeps_new_key :
    ¬ RotationAtomic .transparent "old" "new" VaultWorld.initialised.vault
      ((VaultKeyManagement.rotateAndRewrap (.quietBut 22) .transparent "old" "new"
        (some "run_1")).run .initialised).1
      ((VaultKeyManagement.rotateAndRewrap (.quietBut 22) .transparent "old" "new"
        (some "run_1")).run .initialised).2.vault ∧
    ((VaultKeyManagement.rotateAndRewrap (.quietBut 22) .transparent "old" "new"
        (some "run_1")).run .initialised).2.vault.metadata.map
      (Kdf.transparent.deriveKey "old") = some (.error ⟨.secretKeyConfig,
        "Vault unseal passphrase is invalid","unseal_passphrase_invalid"⟩) := by
  have hshown :
      let rotation := (VaultKeyManagement.rotateAndRewrap (.quietBut 22) .transparent "old" "new"
        (some "run_1")).run .initialised
      rotation.1 = .error ⟨.managementOperation,"Vault management operation failed",
        "rotate_failed"⟩ ∧
      rotation.2.vault.metadata ≠ VaultWorld.initialised.vault.metadata ∧
      rotation.2.vault.metadata.map (Kdf.transparent.deriveKey "old") = some (.error
        ⟨.secretKeyConfig,"Vault unseal passphrase is invalid","unseal_passphrase_invalid"⟩) := by
    decide
  refine ⟨fun hatomic => ?_,hshown.2.2⟩
  rw [hshown.1] at hatomic
  exact hshown.2.1 hatomic.metadata

/-- Nothing fails, and no drawn name is one of the initialised vault. -/
def VaultEnv.relabelled : VaultEnv := { VaultEnv.quiet with uuid := fun n => "r" ++ Nat.repr n }

theorem initialised_deks : VaultWorld.initialised.inTransaction = false ∧
    VaultWorld.initialised.vault.deks.rows.map VaultDekRecord.dekVersion = ["dek_7"] := by
  decide

theorem VaultEnv.unused_names : relabelled.NamesNewDeks VaultWorld.initialised.vault.deks := by
  intro d hd i heq
  have hversion := List.mem_map_of_mem (f := VaultDekRecord.dekVersion) hd
  rw [initialised_deks.2, List.mem_singleton, heq] at hversion
  have hlist := congrArg String.toList hversion
  simp [relabelled] at hlist

theorem rotation_atomic_iff_initialised :
    RotationAtomic .transparent "old" "new" VaultWorld.initialised.vault
      ((VaultKeyManagement.rotateAndRewrap .relabelled .transparent "old" "new"
        (some "run_1")).run .initialised).1
      ((VaultKeyManagement.rotateAndRewrap .relabelled .transparent "old" "new"
        (some "run_1")).run .initialised).2.vault ↔
    RotationSound .relabelled .transparent "old" "new" (some "run_1") .initialised :=
  rotation_atomic_iff .relabelled VaultCrypto.transparent_correct VaultEnv.quiet_random "old" "new"
    (some "run_1") .initialised initialised_deks.1 VaultEnv.unused_names

end NexusEtl
