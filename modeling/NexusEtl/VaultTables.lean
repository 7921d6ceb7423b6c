import Mathlib.Data.List.Sort
import NexusEtl.Library.Dict
import NexusEtl.VaultCipher

/-!
# The tables of the vault

Secrets are stored under a scope: data set, field, locator and run, where a
missing run and an empty one are the same to the unique index. A write to a
known scope keeps the row with its id, run and match key and replaces what it
holds. Data keys are stored under their version.
-/

set_option autoImplicit false

namespace NexusEtl
open NexusEtl.Library

structure VaultSecretRecord where
  dataset : String
  field : String
  matchKey : Option String
  locatorHash : String
  locatorVersion : String
  runId : Option String
  ciphertext : String
  cipherAlgo : String
  keyVersion : String
  dekVersion : String
  createdAt : String
  updatedAt : String
  deriving DecidableEq, Repr

/-- A stored record with its row id. -/
structure SecretRow extends VaultSecretRecord where
  secretId : Nat
  deriving DecidableEq, Repr

structure SecretScope where
  dataset : String
  field : String
  locatorVersion : String
  locatorHash : String
  run : String
  deriving DecidableEq, Repr

/-- The columns of the unique index, with `COALESCE(run_id, '')`. -/
def VaultSecretRecord.scope (r : VaultSecretRecord) : SecretScope :=
  ⟨r.dataset,r.field,r.locatorVersion,r.locatorHash,r.runId.getD ""⟩

def SecretRow.overwrite (r : SecretRow) (record : VaultSecretRecord) : SecretRow :=
  { r with
    ciphertext := record.ciphertext, cipherAlgo := record.cipherAlgo
    keyVersion := record.keyVersion, dekVersion := record.dekVersion
    updatedAt := record.updatedAt }

/-- `vault_secrets`: ids are never used twice, and a scope has one row. -/
structure SecretTable where
  rows : List SecretRow
  nextId : Nat
  lt_nextId : ∀ r ∈ rows, r.secretId < nextId
  ids : (rows.map SecretRow.secretId).Nodup
  scopes : (rows.map fun r => r.scope).Nodup

namespace SecretTable

def empty : SecretTable := ⟨[],1,by simp,by simp,by simp⟩

/-- Change rows in place, keeping their ids and scopes. -/
def modify (t : SecretTable) (f : SecretRow → SecretRow)
    (hid : ∀ r, (f r).secretId = r.secretId) (hscope : ∀ r, (f r).scope = r.scope) :
    SecretTable :=
  { rows := t.rows.map f
    nextId := t.nextId
    lt_nextId := by
      intro r hr
      obtain ⟨r',hr',rfl⟩ := List.mem_map.mp hr
      rw [hid]
      exact t.lt_nextId r' hr'
    ids := by
      rw [List.map_map]
      exact (List.map_congr_left fun r _ => hid r) ▸ t.ids
    scopes := by
      rw [List.map_map]
      exact (List.map_congr_left fun r _ => hscope r) ▸ t.scopes }

def insert (t : SecretTable) (record : VaultSecretRecord)
    (h : record.scope ∉ t.rows.map fun r => r.scope) : SecretTable :=
  { rows := t.rows ++ [⟨record,t.nextId⟩]
    nextId := t.nextId + 1
    lt_nextId := by
      intro r hr
      rcases List.mem_append.mp hr with hr | hr
      · exact Nat.lt_succ_of_lt (t.lt_nextId r hr)
      · rw [List.mem_singleton.mp hr]
        exact Nat.lt_succ_self _
    ids := by
      rw [List.map_append]
      refine List.nodup_append.mpr ⟨t.ids,by simp,?_⟩
      intro a ha b hb hab
      obtain ⟨r,hr,rfl⟩ := List.mem_map.mp ha
      simp only [List.map_cons, List.map_nil, List.mem_singleton] at hb
      exact absurd (t.lt_nextId r hr) (by omega)
    scopes := by
      rw [List.map_append]
      refine List.nodup_append.mpr ⟨t.scopes,by simp,?_⟩
      intro a ha b hb hab
      simp only [List.map_cons, List.map_nil, List.mem_singleton] at hb
      exact h (hb ▸ hab ▸ ha) }

def upsert (t : SecretTable) (record : VaultSecretRecord) : SecretTable :=
  if h : record.scope ∈ t.rows.map fun r => r.scope then
    t.modify (fun r => if r.scope = record.scope then r.overwrite record else r)
      (fun r => by split <;> rfl) (fun r => by split <;> rfl)
  else t.insert record h

def remove (t : SecretTable) (p : SecretRow → Bool) : SecretTable :=
  { rows := t.rows.filter fun r => !p r
    nextId := t.nextId
    lt_nextId := fun r hr => t.lt_nextId r (List.mem_filter.mp hr).1
    ids := t.ids.sublist (List.filter_sublist.map _)
    scopes := t.scopes.sublist (List.filter_sublist.map _) }

/-- `ORDER BY updated_at DESC, secret_id DESC LIMIT 1`. -/
def newest (rows : List SecretRow) : Option SecretRow :=
  (rows.insertionSort fun a b => b.updatedAt < a.updatedAt ∨
    (a.updatedAt = b.updatedAt ∧ b.secretId ≤ a.secretId)).head?

/-- `SqliteVaultRepository.get_secret`. -/
def getSecret (t : SecretTable) (dataset field : String) (matchKey : Option String)
    (locatorHash locatorVersion : String) (runId : Option String) : Option SecretRow :=
  let ofField := t.rows.filter fun r => r.dataset == dataset && r.field == field
  let located := ofField.filter fun r =>
    r.locatorHash == locatorHash && r.locatorVersion == locatorVersion
  match matchKey.filter fun key => key != "" with
  | some key => (newest (ofField.filter fun r => r.matchKey == some key)).or (newest located)
  | none => match runId with
    | some run => (newest (located.filter fun r => r.runId == some run)).or
        (newest (located.filter fun r => r.runId.isNone))
    | none => newest (located.filter fun r => r.runId.isNone)

/-- `delete_secret`: the rows of exactly this run, counted. -/
def deleteSecret (t : SecretTable) (dataset field locatorHash locatorVersion : String)
    (runId : Option String) : Nat × SecretTable :=
  let chosen := fun (r : SecretRow) => r.dataset == dataset && r.field == field &&
    r.locatorHash == locatorHash && r.locatorVersion == locatorVersion && r.runId == runId
  (t.rows.countP chosen,t.remove chosen)

theorem newest_mem {rows : List SecretRow} {r : SecretRow} (h : newest rows = some r) :
    r ∈ rows := (List.perm_insertionSort _ rows).mem_iff.mp (List.mem_of_head? h)

theorem newest_eq_none {rows : List SecretRow} : newest rows = none ↔ rows = [] := by
  rw [newest, List.head?_eq_none_iff]
  constructor
  · intro h
    have hperm := List.perm_insertionSort (fun a b : SecretRow => b.updatedAt < a.updatedAt ∨
      (a.updatedAt = b.updatedAt ∧ b.secretId ≤ a.secretId)) rows
    rw [h] at hperm
    exact hperm.symm.eq_nil
  · rintro rfl
    rfl

theorem upsert_rows_of_mem {t : SecretTable} {record : VaultSecretRecord}
    (h : record.scope ∈ t.rows.map fun r => r.scope) :
    (t.upsert record).rows =
      t.rows.map fun r => if r.scope = record.scope then r.overwrite record else r := by
  rw [upsert, dif_pos h]
  rfl

theorem upsert_rows_of_not_mem {t : SecretTable} {record : VaultSecretRecord}
    (h : record.scope ∉ t.rows.map fun r => r.scope) :
    (t.upsert record).rows = t.rows ++ [⟨record,t.nextId⟩] := by
  rw [upsert, dif_neg h]
  rfl

/-- A row is in the table after a write if it was there under another scope, or is what the
write left under its own. -/
theorem mem_upsert {t : SecretTable} {record : VaultSecretRecord} {r : SecretRow} :
    r ∈ (t.upsert record).rows ↔ (r ∈ t.rows ∧ r.scope ≠ record.scope) ∨
      (∃ old ∈ t.rows, old.scope = record.scope ∧ r = old.overwrite record) ∨
      (record.scope ∉ (t.rows.map fun r => r.scope) ∧ r = ⟨record,t.nextId⟩) := by
  by_cases h : record.scope ∈ t.rows.map fun r => r.scope
  · rw [upsert_rows_of_mem h]
    constructor
    · intro hr
      obtain ⟨old,hold,rfl⟩ := List.mem_map.mp hr
      by_cases hs : old.scope = record.scope
      · rw [if_pos hs]
        exact .inr (.inl ⟨old,hold,hs,rfl⟩)
      · rw [if_neg hs]
        exact .inl ⟨hold,hs⟩
    · rintro (⟨hr,hs⟩ | ⟨old,hold,hs,rfl⟩ | ⟨hnone,_⟩)
      · exact List.mem_map.mpr ⟨r,hr,if_neg hs⟩
      · exact List.mem_map.mpr ⟨old,hold,if_pos hs⟩
      · exact absurd h hnone
  · rw [upsert_rows_of_not_mem h]
    have hother : ∀ r ∈ t.rows, r.scope ≠ record.scope :=
      fun r hr hs => h (List.mem_map.mpr ⟨r,hr,hs⟩)
    constructor
    · intro hr
      rcases List.mem_append.mp hr with hr | hr
      · exact .inl ⟨hr,hother r hr⟩
      · exact .inr (.inr ⟨h,List.mem_singleton.mp hr⟩)
    · rintro (⟨hr,_⟩ | ⟨old,hold,hs,_⟩ | ⟨_,rfl⟩)
      · exact List.mem_append_left _ hr
      · exact absurd hs (hother old hold)
      · exact List.mem_append_right _ (List.mem_singleton.mpr rfl)

theorem mem_deleteSecret {t : SecretTable} {dataset field locatorHash locatorVersion : String}
    {runId : Option String} {r : SecretRow} :
    r ∈ (t.deleteSecret dataset field locatorHash locatorVersion runId).2.rows ↔
      r ∈ t.rows ∧ ¬ (r.dataset = dataset ∧ r.field = field ∧ r.locatorHash = locatorHash ∧
        r.locatorVersion = locatorVersion ∧ r.runId = runId) := by
  simp only [deleteSecret, remove, List.mem_filter, Bool.not_eq_true', Bool.and_eq_false_imp,
    Bool.and_eq_true, beq_iff_eq, beq_eq_false_iff_ne]
  grind

end SecretTable

structure VaultDekRecord where
  dekVersion : String
  wrappedDek : String
  wrapAlgo : String
  wrapKeyVersion : String
  isActive : Bool
  createdAt : String
  updatedAt : String
  deriving DecidableEq, Repr

structure VaultProbeRecord where
  probeName : String
  ciphertext : String
  cipherAlgo : String
  keyVersion : String
  dekVersion : String
  createdAt : String
  updatedAt : String
  deriving DecidableEq, Repr

/-- `vault_dek`: a version has one row. -/
structure DekTable where
  rows : List VaultDekRecord
  versions : (rows.map VaultDekRecord.dekVersion).Nodup

namespace DekTable

def empty : DekTable := ⟨[],by simp⟩

def modify (t : DekTable) (f : VaultDekRecord → VaultDekRecord)
    (hversion : ∀ d, (f d).dekVersion = d.dekVersion) : DekTable :=
  { rows := t.rows.map f
    versions := by
      rw [List.map_map]
      exact (List.map_congr_left fun d _ => hversion d) ▸ t.versions }

def deactivateOthers (t : DekTable) (version now : String) : DekTable :=
  t.modify (fun d => if d.isActive && d.dekVersion != version then
    { d with isActive := false, updatedAt := now } else d) (fun d => by split <;> rfl)

def insertOrReplace (t : DekTable) (record : VaultDekRecord) : DekTable :=
  if h : record.dekVersion ∈ t.rows.map VaultDekRecord.dekVersion then
    t.modify (fun d => if d.dekVersion = record.dekVersion then
      { record with dekVersion := d.dekVersion, createdAt := d.createdAt } else d)
      (fun d => by split <;> rfl)
  else
    { rows := t.rows ++ [record]
      versions := by
        rw [List.map_append]
        refine List.nodup_append.mpr ⟨t.versions,by simp,?_⟩
        intro a ha b hb hab
        simp only [List.map_cons, List.map_nil, List.mem_singleton] at hb
        exact h (hb ▸ hab ▸ ha) }

/-- `upsert_dek`: an active record takes the place of every other active one. -/
def upsertDek (t : DekTable) (record : VaultDekRecord) : DekTable :=
  (if record.isActive then t.deactivateOthers record.dekVersion record.updatedAt
    else t).insertOrReplace record

def getDek (t : DekTable) (version : String) : Option VaultDekRecord :=
  t.rows.find? fun d => d.dekVersion == version

/-- `ORDER BY is_active DESC, updated_at DESC, dek_version DESC`. -/
def listDeks (t : DekTable) : List VaultDekRecord :=
  t.rows.insertionSort fun a b => (b.isActive = false ∧ a.isActive = true) ∨
    (a.isActive = b.isActive ∧ (b.updatedAt < a.updatedAt ∨
      (a.updatedAt = b.updatedAt ∧ b.dekVersion ≤ a.dekVersion)))

def getActiveDek (t : DekTable) : Option VaultDekRecord :=
  ((t.rows.filter VaultDekRecord.isActive).insertionSort fun a b =>
    b.updatedAt < a.updatedAt ∨ (a.updatedAt = b.updatedAt ∧ b.dekVersion ≤ a.dekVersion)).head?

theorem getDek_mem {t : DekTable} {version : String} {d : VaultDekRecord}
    (h : t.getDek version = some d) : d ∈ t.rows ∧ d.dekVersion = version :=
  ⟨List.mem_of_find?_eq_some h,by simpa using List.find?_some h⟩

theorem getDek_of_mem {t : DekTable} {d : VaultDekRecord} (h : d ∈ t.rows) :
    t.getDek d.dekVersion = some d := by
  cases hget : t.getDek d.dekVersion with
  | none =>
    have hall := List.find?_eq_none.mp hget d h
    simp at hall
  | some e =>
    obtain ⟨he,hv⟩ := getDek_mem hget
    rw [List.inj_on_of_nodup_map t.versions he h hv]

theorem getActiveDek_mem {t : DekTable} {d : VaultDekRecord} (h : t.getActiveDek = some d) :
    d ∈ t.rows ∧ d.isActive = true :=
  List.mem_filter.mp ((List.perm_insertionSort _ _).mem_iff.mp (List.mem_of_head? h))

theorem getActiveDek_eq_none {t : DekTable} :
    t.getActiveDek = none ↔ ∀ d ∈ t.rows, d.isActive = false := by
  rw [getActiveDek, List.head?_eq_none_iff]
  constructor
  · intro h d hd
    have hperm := List.perm_insertionSort (fun a b : VaultDekRecord =>
      b.updatedAt < a.updatedAt ∨ (a.updatedAt = b.updatedAt ∧ b.dekVersion ≤ a.dekVersion))
      (t.rows.filter VaultDekRecord.isActive)
    rw [h] at hperm
    have hnil := hperm.symm.eq_nil
    simpa using List.filter_eq_nil_iff.mp hnil d hd
  · intro h
    rw [List.filter_eq_nil_iff.mpr fun d hd => by simp [h d hd]]
    rfl

theorem mem_listDeks {t : DekTable} {d : VaultDekRecord} : d ∈ t.listDeks ↔ d ∈ t.rows :=
  (List.perm_insertionSort _ t.rows).mem_iff

theorem listDeks_versions (t : DekTable) :
    (t.listDeks.map VaultDekRecord.dekVersion).Nodup :=
  ((List.perm_insertionSort _ t.rows).map _).nodup_iff.mpr t.versions

/-- The same key under the same version, active or not. -/
structure KeepsKey (d d' : VaultDekRecord) : Prop where
  version : d'.dekVersion = d.dekVersion
  wrapped : d'.wrappedDek = d.wrappedDek
  algo : d'.wrapAlgo = d.wrapAlgo
  keyVersion : d'.wrapKeyVersion = d.wrapKeyVersion

def ActiveVersion (t : DekTable) (version : String) : Prop :=
  ∃ d ∈ t.rows, d.dekVersion = version ∧ d.isActive = true

/-- What an upsert makes of a row of another version. -/
def othersAfter (record d : VaultDekRecord) : VaultDekRecord :=
  if record.isActive && (d.isActive && d.dekVersion != record.dekVersion) then
    { d with isActive := false, updatedAt := record.updatedAt } else d

theorem othersAfter_keepsKey (record d : VaultDekRecord) : KeepsKey d (othersAfter record d) := by
  unfold othersAfter
  split <;> exact ⟨rfl,rfl,rfl,rfl⟩

theorem othersAfter_isActive {record d : VaultDekRecord} (h : d.dekVersion ≠ record.dekVersion) :
    (othersAfter record d).isActive = (!record.isActive && d.isActive) := by
  unfold othersAfter
  cases hr : record.isActive <;> cases hd : d.isActive <;> simp [hd, h]

theorem deactivated_rows (t : DekTable) (record : VaultDekRecord) :
    (if record.isActive then t.deactivateOthers record.dekVersion record.updatedAt else t).rows =
      t.rows.map (othersAfter record) := by
  cases ha : record.isActive with
  | true => simp [deactivateOthers, modify, othersAfter, ha]
  | false =>
    have hid : othersAfter record = id := by
      funext d
      simp [othersAfter, ha]
    simp [hid]

theorem mem_insertOrReplace {t : DekTable} {record d' : VaultDekRecord} :
    d' ∈ (t.insertOrReplace record).rows ↔
      (∃ d ∈ t.rows, d.dekVersion = record.dekVersion ∧
        d' = { record with createdAt := d.createdAt }) ∨
      (d' ∈ t.rows ∧ d'.dekVersion ≠ record.dekVersion) ∨
      (record.dekVersion ∉ t.rows.map VaultDekRecord.dekVersion ∧ d' = record) := by
  unfold insertOrReplace
  by_cases h : record.dekVersion ∈ t.rows.map VaultDekRecord.dekVersion
  · rw [dif_pos h]
    simp only [modify, List.mem_map]
    constructor
    · rintro ⟨d,hd,rfl⟩
      by_cases hv : d.dekVersion = record.dekVersion
      · exact .inl ⟨d,hd,hv,by rw [if_pos hv, hv]⟩
      · rw [if_neg hv]
        exact .inr (.inl ⟨hd,hv⟩)
    · rintro (⟨d,hd,hv,rfl⟩ | ⟨hd,hv⟩ | ⟨hnone,_⟩)
      · exact ⟨d,hd,by rw [if_pos hv, hv]⟩
      · exact ⟨d',hd,if_neg hv⟩
      · exact absurd (List.mem_map.mp h) hnone
  · rw [dif_neg h]
    have hother : ∀ d ∈ t.rows, d.dekVersion ≠ record.dekVersion :=
      fun d hd hv => h (List.mem_map.mpr ⟨d,hd,hv⟩)
    constructor
    · intro hd
      rcases List.mem_append.mp hd with hd | hd
      · exact .inr (.inl ⟨hd,hother d' hd⟩)
      · exact .inr (.inr ⟨h,List.mem_singleton.mp hd⟩)
    · rintro (⟨d,hd,hv,_⟩ | ⟨hd,_⟩ | ⟨_,rfl⟩)
      · exact absurd hv (hother d hd)
      · exact List.mem_append_left _ hd
      · exact List.mem_append_right _ (List.mem_singleton.mpr rfl)

/-- The rows after an upsert: the record under its version, the others as they were but for
their activity. -/
theorem mem_upsertDek {t : DekTable} {record d' : VaultDekRecord} :
    d' ∈ (t.upsertDek record).rows ↔
      (∃ d ∈ t.rows, d.dekVersion = record.dekVersion ∧
        d' = { record with createdAt := d.createdAt }) ∨
      (∃ d ∈ t.rows, d.dekVersion ≠ record.dekVersion ∧ d' = othersAfter record d) ∨
      (record.dekVersion ∉ t.rows.map VaultDekRecord.dekVersion ∧ d' = record) := by
  have hversion : ∀ d, (othersAfter record d).dekVersion = d.dekVersion :=
    fun d => (othersAfter_keepsKey record d).version
  have hversions : (t.rows.map (othersAfter record)).map VaultDekRecord.dekVersion =
      t.rows.map VaultDekRecord.dekVersion := by
    rw [List.map_map]
    exact List.map_congr_left fun d _ => hversion d
  rw [upsertDek, mem_insertOrReplace, deactivated_rows, hversions]
  constructor
  · rintro (⟨d,hd,hv,rfl⟩ | ⟨hd,hv⟩ | hnew)
    · obtain ⟨d₀,hd₀,rfl⟩ := List.mem_map.mp hd
      have hcreated : (othersAfter record d₀).createdAt = d₀.createdAt := by
        unfold othersAfter
        split <;> rfl
      exact .inl ⟨d₀,hd₀,(hversion d₀).symm.trans hv,by rw [hcreated]⟩
    · obtain ⟨d₀,hd₀,rfl⟩ := List.mem_map.mp hd
      exact .inr (.inl ⟨d₀,hd₀,fun h => hv ((hversion d₀).trans h),rfl⟩)
    · exact .inr (.inr hnew)
  · rintro (⟨d,hd,hv,rfl⟩ | ⟨d,hd,hv,rfl⟩ | hnew)
    · have hcreated : (othersAfter record d).createdAt = d.createdAt := by
        unfold othersAfter
        split <;> rfl
      exact .inl ⟨_,List.mem_map.mpr ⟨d,hd,rfl⟩,(hversion d).trans hv,by rw [hcreated]⟩
    · exact .inr (.inl ⟨List.mem_map.mpr ⟨d,hd,rfl⟩,fun h => hv ((hversion d).symm.trans h)⟩)
    · exact .inr (.inr hnew)

/-- An active record becomes the only active one, another one is no longer active. -/
theorem activeVersion_upsertDek {t : DekTable} {record : VaultDekRecord} {version : String} :
    (t.upsertDek record).ActiveVersion version ↔
      if record.isActive then version = record.dekVersion
      else t.ActiveVersion version ∧ version ≠ record.dekVersion := by
  unfold ActiveVersion
  constructor
  · rintro ⟨d',hd',rfl,ha⟩
    rcases mem_upsertDek.mp hd' with ⟨d,_,_,rfl⟩ | ⟨d,hd,hv,rfl⟩ | ⟨_,rfl⟩
    · simp only at ha
      simp [ha]
    · rw [othersAfter_isActive hv, Bool.and_eq_true, Bool.not_eq_true'] at ha
      have hkey := othersAfter_keepsKey record d
      rw [if_neg (by simp [ha.1]), hkey.version]
      exact ⟨⟨d,hd,rfl,ha.2⟩,hv⟩
    · simp [ha]
  · intro h
    by_cases ha : record.isActive = true
    · rw [if_pos ha] at h
      subst h
      by_cases hmem : record.dekVersion ∈ t.rows.map VaultDekRecord.dekVersion
      · obtain ⟨d,hd,hv⟩ := List.mem_map.mp hmem
        exact ⟨_,mem_upsertDek.mpr (.inl ⟨d,hd,hv,rfl⟩),rfl,ha⟩
      · exact ⟨_,mem_upsertDek.mpr (.inr (.inr ⟨hmem,rfl⟩)),rfl,ha⟩
    · rw [if_neg ha] at h
      obtain ⟨⟨d,hd,rfl,hd'⟩,hv⟩ := h
      refine ⟨_,mem_upsertDek.mpr (.inr (.inl ⟨d,hd,hv,rfl⟩)),
        (othersAfter_keepsKey record d).version,?_⟩
      rw [othersAfter_isActive hv, hd']
      simp [ha]

end DekTable

/-- The vault database. -/
structure Vault where
  secrets : SecretTable
  deks : DekTable
  probes : Dict String VaultProbeRecord
  metadata : Option VaultUnsealMetadata
  managementMeta : Dict String String

def Vault.empty : Vault := ⟨SecretTable.empty,DekTable.empty,[],none,[]⟩

/-- `upsert_probe`: a known probe keeps the time of its creation. -/
def Vault.upsertProbe (v : Vault) (record : VaultProbeRecord) : Vault :=
  let createdAt := ((Dict.get? v.probes record.probeName).map VaultProbeRecord.createdAt).getD
    record.createdAt
  { v with probes := Dict.set v.probes record.probeName { record with createdAt := createdAt } }

/-- `upsert_unseal_metadata`: the one row keeps the time of its creation. -/
def Vault.upsertUnsealMetadata (v : Vault) (metadata : VaultUnsealMetadata) : Vault :=
  let createdAt := (v.metadata.map VaultUnsealMetadata.createdAt).getD metadata.createdAt
  { v with metadata := some { metadata with createdAt := createdAt } }

/-- `_migrate_v3_to_v4`: the rows get a column without a value. -/
def SecretTable.addMatchKey (t : SecretTable) : SecretTable :=
  t.modify (fun r => { r with matchKey := none }) (fun _ => rfl) (fun _ => rfl)

end NexusEtl
