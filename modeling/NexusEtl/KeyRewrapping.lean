import NexusEtl.VaultManagement

/-!
# Wrapping the data keys anew

The transaction of a rotation unwraps every data key with the old master key and
wraps it with the new one, or changes nothing. Which of both happens is decided by
the calls that fail and by what the old key opens.
-/

set_option autoImplicit false

namespace NexusEtl
open NexusEtl.Library

section Tables

namespace DekTable

/-- After upserts a row has the key of one of the records, or its own. -/
theorem mem_foldl_upsertDek {records : List VaultDekRecord} {t : DekTable} {d' : VaultDekRecord}
    (h : d' ∈ (records.foldl upsertDek t).rows) :
    (∃ n ∈ records, KeepsKey n d') ∨
      (d'.dekVersion ∉ records.map VaultDekRecord.dekVersion ∧ ∃ d ∈ t.rows, KeepsKey d d') := by
  induction records using List.reverseRecOn generalizing d' with
  | nil => exact .inr ⟨by simp,d',h,rfl,rfl,rfl,rfl⟩
  | append_singleton records n ih =>
    rw [List.foldl_append, List.foldl_cons, List.foldl_nil] at h
    rcases mem_upsertDek.mp h with ⟨d,_,_,rfl⟩ | ⟨d,hd,hv,rfl⟩ | ⟨_,rfl⟩
    · exact .inl ⟨n,by simp,rfl,rfl,rfl,rfl⟩
    · have hkey := othersAfter_keepsKey n d
      rcases ih hd with ⟨n',hn',hkeeps⟩ | ⟨hnone,d₀,hd₀,hkeeps⟩
      · exact .inl ⟨n',List.mem_append_left _ hn',hkey.version.trans hkeeps.version,
          hkey.wrapped.trans hkeeps.wrapped,hkey.algo.trans hkeeps.algo,
          hkey.keyVersion.trans hkeeps.keyVersion⟩
      · refine .inr ⟨?_,d₀,hd₀,hkey.version.trans hkeeps.version,
          hkey.wrapped.trans hkeeps.wrapped,hkey.algo.trans hkeeps.algo,
          hkey.keyVersion.trans hkeeps.keyVersion⟩
        rw [hkey.version, List.map_append, List.mem_append]
        rintro (hin | hin)
        · exact hnone hin
        · exact hv (by simpa using hin)
    · exact .inl ⟨d',by simp,rfl,rfl,rfl,rfl⟩

theorem mem_versions_upsertDek {t : DekTable} {record : VaultDekRecord} {version : String} :
    (∃ d ∈ (t.upsertDek record).rows, d.dekVersion = version) ↔
      (∃ d ∈ t.rows, d.dekVersion = version) ∨ version = record.dekVersion := by
  constructor
  · rintro ⟨d',hd',rfl⟩
    rcases mem_upsertDek.mp hd' with ⟨d,_,_,rfl⟩ | ⟨d,hd,_,rfl⟩ | ⟨_,rfl⟩
    · exact .inr rfl
    · exact .inl ⟨d,hd,((othersAfter_keepsKey record d).version).symm⟩
    · exact .inr rfl
  · rintro (⟨d,hd,rfl⟩ | rfl)
    · by_cases hv : d.dekVersion = record.dekVersion
      · exact ⟨_,mem_upsertDek.mpr (.inl ⟨d,hd,hv,rfl⟩),hv.symm⟩
      · exact ⟨_,mem_upsertDek.mpr (.inr (.inl ⟨d,hd,hv,rfl⟩)),
          (othersAfter_keepsKey record d).version⟩
    · by_cases hmem : record.dekVersion ∈ t.rows.map VaultDekRecord.dekVersion
      · obtain ⟨d,hd,hv⟩ := List.mem_map.mp hmem
        exact ⟨_,mem_upsertDek.mpr (.inl ⟨d,hd,hv,rfl⟩),rfl⟩
      · exact ⟨_,mem_upsertDek.mpr (.inr (.inr ⟨hmem,rfl⟩)),rfl⟩

theorem version_foldl_upsertDek {records : List VaultDekRecord} {t : DekTable} {version : String}
    (h : ∃ d ∈ t.rows, d.dekVersion = version) :
    ∃ d ∈ (records.foldl upsertDek t).rows, d.dekVersion = version := by
  induction records generalizing t with
  | nil => exact h
  | cons n records ih => exact ih (mem_versions_upsertDek.mpr (.inl h))

/-- The last of the active records stays active, and no other; without one whatever was active
under another version. -/
theorem activeVersion_foldl_upsertDek {records : List VaultDekRecord} {t : DekTable}
    (hnodup : (records.map VaultDekRecord.dekVersion).Nodup) {version : String} :
    (records.foldl upsertDek t).ActiveVersion version ↔
      match (records.filter VaultDekRecord.isActive).getLast? with
      | some n => version = n.dekVersion
      | none => t.ActiveVersion version ∧ version ∉ records.map VaultDekRecord.dekVersion := by
  induction records using List.reverseRecOn with
  | nil => simp
  | append_singleton records n ih =>
    rw [List.map_append, List.map_cons, List.map_nil] at hnodup
    have hrest := ih (List.nodup_append.mp hnodup).1
    have hnew : n.dekVersion ∉ records.map VaultDekRecord.dekVersion := fun hin =>
      (List.nodup_append.mp hnodup).2.2 _ hin _ (List.mem_singleton.mpr rfl) rfl
    rw [List.foldl_append, List.foldl_cons, List.foldl_nil, activeVersion_upsertDek, hrest]
    by_cases ha : n.isActive = true
    · simp [ha]
    · have hfilter : (records ++ [n]).filter VaultDekRecord.isActive =
          records.filter VaultDekRecord.isActive := by simp [ha]
      rw [if_neg ha, hfilter]
      cases hlast : (records.filter VaultDekRecord.isActive).getLast? with
      | some m =>
        have hm := List.mem_filter.mp (List.mem_of_getLast? hlast)
        constructor
        · exact fun h => h.1
        · intro h
          refine ⟨h,fun heq => hnew ?_⟩
          rw [← heq, h]
          exact List.mem_map.mpr ⟨m,hm.1,rfl⟩
      | none =>
        simp only [List.map_append, List.map_cons, List.map_nil, List.mem_append,
          List.mem_singleton]
        tauto

end DekTable

end Tables

section Rewrapping

variable (env : VaultEnv) {crypto : VaultCrypto}

/-- No call fails among so many from a number on. -/
def VaultEnv.Clear (env : VaultEnv) (start count : Nat) : Prop :=
  ∀ i, start ≤ i → i < start + count → env.fails i = false

theorem VaultEnv.clear_zero (start : Nat) : env.Clear start 0 :=
  fun i hlo hhi => absurd hhi (by omega)

theorem VaultEnv.clear_succ (start count : Nat) :
    env.Clear start (count + 1) ↔ env.fails start = false ∧ env.Clear (start + 1) count := by
  constructor
  · exact fun h => ⟨h start (Nat.le_refl _) (by omega),
      fun i hlo hhi => h i (by omega) (by omega)⟩
  · rintro ⟨hfirst,hrest⟩ i hlo hhi
    by_cases hi : i = start
    · exact hi ▸ hfirst
    · exact hrest i (by omega) (by omega)

theorem VaultEnv.clear_add (start m n : Nat) :
    env.Clear start (m + n) ↔ env.Clear start m ∧ env.Clear (start + m) n := by
  constructor
  · exact fun h => ⟨fun i hlo hhi => h i hlo (by omega),fun i hlo hhi => h i (by omega) (by omega)⟩
  · rintro ⟨hfirst,hrest⟩ i hlo hhi
    by_cases hi : i < start + m
    · exact hfirst i hlo hi
    · exact hrest i (by omega) (by omega)

/-- The key opens the data key to the plaintext. -/
def Opens (crypto : VaultCrypto) (key : VaultMasterKey) (d : VaultDekRecord) (plain : String) :
    Prop := crypto.fernet.unwrapDek d.wrappedDek key.keyMaterial d.wrapAlgo = .ok plain

theorem unwrapWith_eq_ok {d : VaultDekRecord} {failed : VaultError} {key : VaultMasterKey}
    {plain : String} :
    unwrapWith crypto d failed [key] = .ok plain ↔ Opens crypto key d plain := by
  unfold unwrapWith Opens
  cases crypto.fernet.unwrapDek d.wrappedDek key.keyMaterial d.wrapAlgo with
  | ok dek => exact Iff.rfl
  | error e =>
    dsimp only
    split <;> simp [unwrapWith]

theorem Opens.algo {key : VaultMasterKey} {d : VaultDekRecord} {plain : String}
    (h : Opens crypto key d plain) : d.wrapAlgo = fernetV1 := by
  unfold Opens Fernet.unwrapDek ensureAlgo at h
  split at h
  · assumption
  · cases h

theorem VaultEnv.Changes.clear {f : Vault → Vault} {failed : VaultError} {w w' : VaultWorld}
    {r : Except VaultError Unit} (h : env.Changes f failed w r w') :
    (r = .ok () ∧ env.fails w.calls = false ∧
        w' = { w with vault := f w.vault, calls := w.calls + 1 }) ∨
      ∃ e, r = .error e ∧ env.fails w.calls = true ∧ w' = { w with calls := w.calls + 1 } :=
  h.imp_right fun hfail => ⟨failed,hfail⟩

theorem ends_write_clear (f : Vault → Vault) (w : VaultWorld) :
    Prog.Ends (fun r w' =>
      (r = .ok () ∧ env.fails w.calls = false ∧
        w' = { w with vault := f w.vault, calls := w.calls + 1 }) ∨
      ∃ e, r = .error e ∧ env.fails w.calls = true ∧ w' = { w with calls := w.calls + 1 })
      (env.write f) w :=
  (ends_write_changes env f w).mono fun _ _ h => h.clear

theorem ends_writeUnit_clear (f : Vault → Vault) (w : VaultWorld) :
    Prog.Ends (fun r w' =>
      (r = .ok () ∧ env.fails w.calls = false ∧
        w' = { w with vault := f w.vault, calls := w.calls + 1 }) ∨
      ∃ e, r = .error e ∧ env.fails w.calls = true ∧ w' = { w with calls := w.calls + 1 })
      (env.writeUnit f) w :=
  (ends_writeUnit_changes env f w).mono fun _ _ h => h.clear

theorem ends_read_clear {A : Type} (f : Vault → A) (w : VaultWorld) :
    Prog.Ends (fun r w' => w' = { w with calls := w.calls + 1 } ∧
      ((r = .ok (f w.vault) ∧ env.fails w.calls = false) ∨
        ∃ e, r = .error e ∧ env.fails w.calls = true)) (env.read f) w :=
  (ends_read_answers env f w).mono fun _ _ h => ⟨h.1,h.2.imp_right fun hfail => ⟨_,hfail⟩⟩

/-- The data key of a row under its version, wrapped with the new master key. -/
structure NewWrapping (crypto : VaultCrypto) (old new : VaultMasterKey) (d n : VaultDekRecord) :
    Prop where
  version : n.dekVersion = d.dekVersion
  keyVersion : n.wrapKeyVersion = new.keyVersion
  algo : n.wrapAlgo = fernetV1
  plain : ∃ plain nonce, Opens crypto old d plain ∧
    n.wrappedDek = crypto.fernet.encrypt nonce new.keyMaterial plain

structure Rewrapped (crypto : VaultCrypto) (old new : VaultMasterKey) (d n : VaultDekRecord) :
    Prop extends NewWrapping crypto old new d n where
  active : n.isActive = d.isActive

/-- The loop wraps all data keys anew exactly if the old key opens them and no call fails. -/
theorem ends_rewrapDeks {old new : VaultMasterKey}
    (hk : crypto.fernet.validKey new.keyMaterial = true) (updatedAt : String)
    (records : List VaultDekRecord) (w : VaultWorld) :
    Prog.Ends (fun r w' => w'.unsealed = w.unsealed ∧ w'.vault.metadata = w.vault.metadata ∧
      ((∃ news, r = .ok records.length ∧
        List.Forall₂ (Rewrapped crypto old new) records news ∧
        w'.vault = { w.vault with deks := news.foldl DekTable.upsertDek w.vault.deks } ∧
        w'.calls = w.calls + records.length ∧ env.Clear w.calls records.length) ∨
      ∃ e, r = .error e ∧ ¬ (env.Clear w.calls records.length ∧
        ∀ d ∈ records, ∃ plain, Opens crypto old d plain)))
      (VaultKeyManagement.rewrapDeks env crypto new [old] updatedAt records) w := by
  induction records generalizing w with
  | nil =>
    exact Prog.Ends.pure ⟨rfl,rfl,.inl ⟨[],rfl,.nil,rfl,rfl,env.clear_zero _⟩⟩
  | cons record records ih =>
    cases hopen : unwrapWith crypto record VaultKeyManagement.rewrapFailed [old] with
    | error e =>
      refine Prog.Ends.bind (Prog.Ends.ofExcept ?_)
      rw [hopen]
      refine ⟨rfl,rfl,.inr ⟨e,rfl,?_⟩⟩
      rintro ⟨_,hall⟩
      obtain ⟨plain,hplain⟩ := hall record List.mem_cons_self
      rw [unwrapWith_eq_ok.mpr hplain] at hopen
      cases hopen
    | ok plain =>
      have hplain := unwrapWith_eq_ok.mp hopen
      refine Prog.Ends.bind (Prog.Ends.ofExcept ?_)
      rw [hopen]
      refine Prog.Ends.bind (Prog.Ends.atomic (Prog.Ends.bind (Prog.Ends.ofExcept ?_)))
      rw [hplain.algo, Fernet.wrapDek_of_valid hk]
      refine Prog.Ends.bind ((ends_write_clear env _ _).mono fun r w₁ hr => ?_)
      obtain ⟨rfl,hclear,rfl⟩ | ⟨e,rfl,hfail,rfl⟩ := hr
      · refine Prog.Ends.bind ((ih _).mono fun r w₂ hr => ?_)
        obtain ⟨hu,hm,⟨news,rfl,hnews,hv,hcalls,hrest⟩ | ⟨e,rfl,hnot⟩⟩ := hr
        · refine Prog.Ends.pure ⟨hu,hm,.inl ⟨_::news,rfl,.cons ?_ hnews,hv,?_,?_⟩⟩
          · exact ⟨⟨rfl,rfl,rfl,plain,_,hplain,rfl⟩,rfl⟩
          · rw [hcalls]
            simp only [List.length_cons]
            omega
          · exact (env.clear_succ _ _).mpr ⟨hclear,hrest⟩
        · refine ⟨hu,hm,.inr ⟨e,rfl,?_⟩⟩
          rintro ⟨hall,hopens⟩
          exact hnot ⟨((env.clear_succ _ _).mp hall).2,
            fun d hd => hopens d (List.mem_cons_of_mem _ hd)⟩
      · refine ⟨rfl,rfl,.inr ⟨e,rfl,?_⟩⟩
        rintro ⟨hall,_⟩
        have hclear := ((env.clear_succ _ _).mp hall).1
        simp [hclear] at hfail

/-- What the transaction of an operation needs: it can begin, no call from its first on fails
until it has committed, and the old key opens every data key. -/
structure RewrapPasses (env : VaultEnv) (crypto : VaultCrypto) (old : VaultMasterKey)
    (deks : DekTable) (start count : Nat) : Prop where
  writable : env.readonly start = false
  clear : env.Clear start count
  opens : ∀ d ∈ deks.rows, ∃ plain, Opens crypto old d plain

/-- The calls of the transaction: begin, two notes, the metadata if any, a list, every data key,
commit. -/
def rewrapCalls (stored : Nat) (deks : DekTable) : Nat := 5 + stored + deks.rows.length

def Vault.withMetadata (v : Vault) (newMetadata : Option VaultUnsealMetadata) : Vault :=
  newMetadata.elim v v.upsertUnsealMetadata

/-- The writes of the transaction before the loop. -/
theorem ends_rewrapStart (runId reason : String) (newMetadata : Option VaultUnsealMetadata)
    (w : VaultWorld) :
    Prog.Ends (fun r w' => w'.unsealed = w.unsealed ∧
      ((r = .ok w.vault.deks.listDeks ∧ w'.vault.deks = w.vault.deks ∧
        w'.vault.metadata = (w.vault.withMetadata newMetadata).metadata ∧
        w'.vault.probes = w.vault.probes ∧ w'.vault.secrets = w.vault.secrets ∧
        w'.calls = w.calls + (3 + newMetadata.toList.length) ∧
        env.Clear w.calls (3 + newMetadata.toList.length)) ∨
      ∃ e, r = .error e ∧ ¬ env.Clear w.calls (3 + newMetadata.toList.length)))
      (do
        VaultKeyManagement.setLastRotationRunId env runId
        VaultKeyManagement.setLastRotationResult env "rotating" reason
        VaultKeyManagement.storeMetadata env newMetadata
        env.read fun v => v.deks.listDeks) w := by
  have hfailed : ∀ {i n : Nat}, i < n → env.fails (w.calls + i) = true → ¬ env.Clear w.calls n := by
    intro i n hi hfail hclear
    have hok := hclear (w.calls + i) (by omega) (by omega)
    simp [hok] at hfail
  unfold VaultKeyManagement.setLastRotationRunId VaultKeyManagement.setLastRotationResult
    VaultKeyManagement.setMeta VaultKeyManagement.storeMetadata
  refine Prog.Ends.bind ((ends_write_clear env _ w).mono fun r w₁ hr => ?_)
  obtain ⟨rfl,h₀,rfl⟩ | ⟨e,rfl,hfail,rfl⟩ := hr
  · refine Prog.Ends.bind ((ends_write_clear env _ _).mono fun r w₂ hr => ?_)
    obtain ⟨rfl,h₁,rfl⟩ | ⟨e,rfl,hfail,rfl⟩ := hr
    · cases newMetadata with
      | none =>
        refine Prog.Ends.bind (Prog.Ends.pure ((ends_read_clear env _ _).mono fun r w₃ hr => ?_))
        obtain ⟨rfl,⟨rfl,h₂⟩ | ⟨e,rfl,hfail⟩⟩ := hr
        · refine ⟨rfl,.inl ⟨rfl,rfl,rfl,rfl,rfl,rfl,?_⟩⟩
          simp only [Option.toList_none, List.length_nil, env.clear_succ, env.clear_zero, and_true]
          exact ⟨h₀,h₁,h₂⟩
        · exact ⟨rfl,.inr ⟨e,rfl,hfailed (i := 2) (by simp) hfail⟩⟩
      | some metadata =>
        refine Prog.Ends.bind ((ends_write_clear env _ _).mono fun r w₃ hr => ?_)
        obtain ⟨rfl,h₂,rfl⟩ | ⟨e,rfl,hfail,rfl⟩ := hr
        · refine (ends_read_clear env _ _).mono fun r w₄ hr => ?_
          obtain ⟨rfl,⟨rfl,h₃⟩ | ⟨e,rfl,hfail⟩⟩ := hr
          · refine ⟨rfl,.inl ⟨rfl,rfl,rfl,rfl,rfl,rfl,?_⟩⟩
            simp only [Option.toList_some, List.length_singleton, env.clear_succ, env.clear_zero,
              and_true]
            exact ⟨h₀,h₁,h₂,h₃⟩
          · exact ⟨rfl,.inr ⟨e,rfl,hfailed (i := 3) (by simp) hfail⟩⟩
        · exact ⟨rfl,.inr ⟨e,rfl,hfailed (i := 2) (by simp) hfail⟩⟩
    · exact ⟨rfl,.inr ⟨e,rfl,hfailed (i := 1) (by omega) hfail⟩⟩
  · exact ⟨rfl,.inr ⟨e,rfl,hfailed (i := 0) (by omega) hfail⟩⟩

/-- The body of the transaction. -/
theorem ends_rewrapBody {old new : VaultMasterKey}
    (hk : crypto.fernet.validKey new.keyMaterial = true) (runId reason updatedAt : String)
    (newMetadata : Option VaultUnsealMetadata) (w : VaultWorld) :
    Prog.Ends (fun r w' => w'.unsealed = w.unsealed ∧
      ((∃ news, r = .ok w.vault.deks.rows.length ∧
        List.Forall₂ (Rewrapped crypto old new) w.vault.deks.listDeks news ∧
        w'.vault.deks = news.foldl DekTable.upsertDek w.vault.deks ∧
        w'.vault.metadata = (w.vault.withMetadata newMetadata).metadata ∧
        w'.vault.probes = w.vault.probes ∧ w'.vault.secrets = w.vault.secrets ∧
        w'.calls = w.calls + (3 + newMetadata.toList.length + w.vault.deks.rows.length) ∧
        env.Clear w.calls (3 + newMetadata.toList.length + w.vault.deks.rows.length)) ∨
      ∃ e, r = .error e ∧
        ¬ (env.Clear w.calls (3 + newMetadata.toList.length + w.vault.deks.rows.length) ∧
          ∀ d ∈ w.vault.deks.rows, ∃ plain, Opens crypto old d plain)))
      (do
        VaultKeyManagement.setLastRotationRunId env runId
        VaultKeyManagement.setLastRotationResult env "rotating" reason
        VaultKeyManagement.storeMetadata env newMetadata
        let records ← env.read fun v => v.deks.listDeks
        VaultKeyManagement.rewrapDeks env crypto new [old] updatedAt records) w := by
  have hcount : w.vault.deks.listDeks.length = w.vault.deks.rows.length :=
    List.length_insertionSort ..
  have hassoc : (do
        VaultKeyManagement.setLastRotationRunId env runId
        VaultKeyManagement.setLastRotationResult env "rotating" reason
        VaultKeyManagement.storeMetadata env newMetadata
        let records ← env.read fun v => v.deks.listDeks
        VaultKeyManagement.rewrapDeks env crypto new [old] updatedAt records) =
      (do
        VaultKeyManagement.setLastRotationRunId env runId
        VaultKeyManagement.setLastRotationResult env "rotating" reason
        VaultKeyManagement.storeMetadata env newMetadata
        env.read fun v => v.deks.listDeks) >>=
        VaultKeyManagement.rewrapDeks env crypto new [old] updatedAt := by
    simp only [Prog.bind_assoc]
  rw [hassoc]
  refine Prog.Ends.bind ((ends_rewrapStart env runId reason newMetadata w).mono fun r w₁ hr => ?_)
  obtain ⟨hu,⟨rfl,hd,hm,hp,hs,hcalls,hclear⟩ | ⟨e,rfl,hnot⟩⟩ := hr
  · refine (ends_rewrapDeks env hk updatedAt _ w₁).mono fun r w₂ hr => ?_
    rw [hcalls, hcount] at hr
    obtain ⟨hu',hm',⟨news,rfl,hnews,hv,hcalls',hclear'⟩ | ⟨e,rfl,hnot⟩⟩ := hr
    · refine ⟨hu'.trans hu,.inl ⟨news,rfl,hnews,?_,?_,?_,?_,?_,?_⟩⟩
      · rw [hv, hd]
      · exact hm'.trans hm
      · rw [hv, hp]
      · rw [hv, hs]
      · omega
      · exact (env.clear_add ..).mpr ⟨hclear,hclear'⟩
    · refine ⟨hu'.trans hu,.inr ⟨e,rfl,?_⟩⟩
      rintro ⟨hall,hopens⟩
      exact hnot ⟨((env.clear_add ..).mp hall).2,
        fun d hd => hopens d (DekTable.mem_listDeks.mp hd)⟩
  · refine ⟨hu,.inr ⟨e,rfl,?_⟩⟩
    rintro ⟨hall,_⟩
    exact hnot ((env.clear_add ..).mp hall).1

theorem rewrapped_of_mem {old new : VaultMasterKey} {records news : List VaultDekRecord}
    (h : List.Forall₂ (Rewrapped crypto old new) records news) {d : VaultDekRecord}
    (hd : d ∈ records) : ∃ n ∈ news, Rewrapped crypto old new d n := by
  induction h with
  | nil => cases hd
  | cons hfirst _ ih =>
    rcases List.mem_cons.mp hd with rfl | hd
    · exact ⟨_,List.mem_cons_self,hfirst⟩
    · obtain ⟨n,hn,hrewrapped⟩ := ih hd
      exact ⟨n,List.mem_cons_of_mem _ hn,hrewrapped⟩

theorem mem_of_rewrapped {old new : VaultMasterKey} {records news : List VaultDekRecord}
    (h : List.Forall₂ (Rewrapped crypto old new) records news) {n : VaultDekRecord}
    (hn : n ∈ news) : ∃ d ∈ records, Rewrapped crypto old new d n := by
  induction h with
  | nil => cases hn
  | cons hfirst _ ih =>
    rcases List.mem_cons.mp hn with rfl | hn
    · exact ⟨_,List.mem_cons_self,hfirst⟩
    · obtain ⟨d,hd,hrewrapped⟩ := ih hn
      exact ⟨d,List.mem_cons_of_mem _ hd,hrewrapped⟩

/-- The transaction itself. -/
theorem ends_rewrapTransaction {old new : VaultMasterKey}
    (hk : crypto.fernet.validKey new.keyMaterial = true) (runId reason updatedAt : String)
    (newMetadata : Option VaultUnsealMetadata) {w : VaultWorld} (hout : w.inTransaction = false) :
    Prog.Ends (fun r w' => w'.inTransaction = false ∧ w'.unsealed = w.unsealed ∧
      ((∃ news, r = .ok w.vault.deks.rows.length ∧
        List.Forall₂ (Rewrapped crypto old new) w.vault.deks.listDeks news ∧
        w'.vault.deks = news.foldl DekTable.upsertDek w.vault.deks ∧
        w'.vault.metadata = (w.vault.withMetadata newMetadata).metadata ∧
        w'.vault.probes = w.vault.probes ∧ w'.vault.secrets = w.vault.secrets ∧
        w'.calls = w.calls + rewrapCalls newMetadata.toList.length w.vault.deks ∧
        RewrapPasses env crypto old w.vault.deks w.calls
          (rewrapCalls newMetadata.toList.length w.vault.deks)) ∨
      ∃ e, r = .error e ∧ w'.vault = w.vault ∧ ¬ RewrapPasses env crypto old w.vault.deks w.calls
        (rewrapCalls newMetadata.toList.length w.vault.deks)))
      (env.transaction do
        VaultKeyManagement.setLastRotationRunId env runId
        VaultKeyManagement.setLastRotationResult env "rotating" reason
        VaultKeyManagement.storeMetadata env newMetadata
        let records ← env.read fun v => v.deks.listDeks
        VaultKeyManagement.rewrapDeks env crypto new [old] updatedAt records) w := by
  -- the calls of the transaction: its begin, those of the body, its commit
  have hcalls : rewrapCalls newMetadata.toList.length w.vault.deks =
      1 + ((3 + newMetadata.toList.length + w.vault.deks.rows.length) + 1) := by
    unfold rewrapCalls
    omega
  refine ends_transaction_clear env hout ?_ fun hstart => ?_
  · intro hbegin e w' hsame hu
    refine ⟨hsame.inTransaction.trans hout,hu,.inr ⟨e,rfl,hsame.vault,fun hpass => ?_⟩⟩
    have hfirst := hpass.clear w.calls (Nat.le_refl _) (by omega)
    simp [hfirst, hpass.writable] at hbegin
  · rw [Bool.or_eq_false_iff] at hstart
    refine (ends_rewrapBody env hk runId reason _ newMetadata _).mono fun r w₁ hr => ?_
    obtain ⟨hu,⟨news,rfl,hnews,hd,hm,hp,hs,hat,hclear⟩ | ⟨e,rfl,hnot⟩⟩ := hr
    · constructor
      · rintro (hok | hcommit) e w' hsame hu'
        · cases hok
        · refine ⟨hsame.inTransaction.trans hout,hu'.trans hu,.inr ⟨e,rfl,hsame.vault,?_⟩⟩
          intro hpass
          have hall := hpass.clear
          rw [hcalls, env.clear_add, env.clear_add] at hall
          have hlast := hall.2.2 w₁.calls (by rw [hat]) (by rw [hat]; exact Nat.lt_succ_self _)
          simp [hlast] at hcommit
      · intro a ha hcommit
        obtain rfl := Except.ok.inj ha
        refine ⟨rfl,hu,.inl ⟨news,rfl,hnews,hd,hm,hp,hs,?_,hstart.2,?_,?_⟩⟩
        · dsimp only at hat ⊢
          omega
        · rw [hcalls, env.clear_add, env.clear_add]
          refine ⟨(env.clear_succ _ 0).mpr ⟨hstart.1,env.clear_zero _⟩,hclear,?_⟩
          rw [show w.calls + 1 + (3 + newMetadata.toList.length + w.vault.deks.rows.length) =
            w₁.calls from hat.symm]
          exact (env.clear_succ _ 0).mpr ⟨hcommit,env.clear_zero _⟩
        · intro d hd
          obtain ⟨n,_,hn⟩ := rewrapped_of_mem hnews (DekTable.mem_listDeks.mpr hd)
          obtain ⟨plain,_,hplain,_⟩ := hn.plain
          exact ⟨plain,hplain⟩
    · constructor
      · intro _ e' w' hsame hu'
        refine ⟨hsame.inTransaction.trans hout,hu'.trans hu,.inr ⟨e',rfl,hsame.vault,?_⟩⟩
        intro hpass
        have hall := hpass.clear
        rw [hcalls, env.clear_add, env.clear_add] at hall
        exact hnot ⟨hall.2.1,hpass.opens⟩
      · exact fun a ha => by cases ha

theorem ends_rewrapInTransaction {old new : VaultMasterKey}
    (hk : crypto.fernet.validKey new.keyMaterial = true) (runId reason : String)
    (newMetadata : Option VaultUnsealMetadata) {w : VaultWorld} (hout : w.inTransaction = false) :
    Prog.Ends (fun r w' => w'.inTransaction = false ∧ w'.unsealed = w.unsealed ∧
      ((∃ news, r = .ok w.vault.deks.rows.length ∧
        List.Forall₂ (Rewrapped crypto old new) w.vault.deks.listDeks news ∧
        w'.vault.deks = news.foldl DekTable.upsertDek w.vault.deks ∧
        w'.vault.metadata = (w.vault.withMetadata newMetadata).metadata ∧
        w'.vault.probes = w.vault.probes ∧ w'.vault.secrets = w.vault.secrets ∧
        w'.calls = w.calls + rewrapCalls newMetadata.toList.length w.vault.deks ∧
        RewrapPasses env crypto old w.vault.deks w.calls
          (rewrapCalls newMetadata.toList.length w.vault.deks)) ∨
      ∃ e, r = .error e ∧ w'.vault = w.vault ∧ ¬ RewrapPasses env crypto old w.vault.deks w.calls
        (rewrapCalls newMetadata.toList.length w.vault.deks)))
      (VaultKeyManagement.rewrapInTransaction env crypto new [old] runId reason newMetadata) w := by
  refine Prog.Ends.bind (Prog.Ends.bind (Prog.Ends.atomic (Prog.Ends.pure ?_)))
  have hout' : ({ w with draws := w.draws + 1 } : VaultWorld).inTransaction = false := hout
  exact ends_rewrapTransaction env hk runId reason _ newMetadata hout'

end Rewrapping

section Outcome

variable {crypto : VaultCrypto} {old new : VaultMasterKey}

theorem NewWrapping.of_keepsKey {d n d' : VaultDekRecord} (h : NewWrapping crypto old new d n)
    (hkeeps : DekTable.KeepsKey n d') : NewWrapping crypto old new d d' := by
  obtain ⟨plain,nonce,hopens,hwrapped⟩ := h.plain
  exact ⟨hkeeps.version.trans h.version,hkeeps.keyVersion.trans h.keyVersion,
    hkeeps.algo.trans h.algo,plain,nonce,hopens,hkeeps.wrapped.trans hwrapped⟩

/-- The new key opens what the old one opened. -/
theorem NewWrapping.opens_iff (hc : crypto.Correct)
    (hk : crypto.fernet.validKey new.keyMaterial = true) {d d' : VaultDekRecord} {plain : String}
    (h : NewWrapping crypto old new d d') :
    Opens crypto new d' plain ↔ Opens crypto old d plain := by
  obtain ⟨plain₀,nonce,hopens,hwrapped⟩ := h.plain
  have hnew : Opens crypto new d' plain₀ := by
    unfold Opens
    rw [hwrapped, hc.fernet.unwrapDek h.algo hk, if_pos hk, if_pos rfl]
  constructor
  · intro h'
    obtain rfl := Except.ok.inj (hnew.symm.trans h')
    exact hopens
  · intro h'
    obtain rfl := Except.ok.inj (hopens.symm.trans h')
    exact hnew

/-- The active data key that comes last in the order of the loop. -/
def DekTable.lastActive (t : DekTable) : Option VaultDekRecord :=
  (t.listDeks.filter VaultDekRecord.isActive).getLast?

theorem DekTable.lastActive_mem {t : DekTable} {d : VaultDekRecord} (h : t.lastActive = some d) :
    d ∈ t.rows ∧ d.isActive = true := by
  obtain ⟨hd,ha⟩ := List.mem_filter.mp (List.mem_of_getLast? h)
  exact ⟨mem_listDeks.mp hd,ha⟩

theorem DekTable.lastActive_eq_none {t : DekTable} :
    t.lastActive = none ↔ ∀ d ∈ t.rows, d.isActive = false := by
  rw [lastActive, List.getLast?_eq_none_iff, List.filter_eq_nil_iff]
  simp only [mem_listDeks, Bool.not_eq_true]

/-- The table after the loop: the same data keys, wrapped anew; one stays active. -/
structure RewrappedTable (crypto : VaultCrypto) (old new : VaultMasterKey)
    (deks deks' : DekTable) : Prop where
  source : ∀ d' ∈ deks'.rows, ∃ d ∈ deks.rows, NewWrapping crypto old new d d'
  kept : ∀ d ∈ deks.rows, ∃ d' ∈ deks'.rows, NewWrapping crypto old new d d'
  active : ∀ version, deks'.ActiveVersion version ↔
    deks.lastActive.map VaultDekRecord.dekVersion = some version

theorem versions_of_rewrapped {records news : List VaultDekRecord}
    (h : List.Forall₂ (Rewrapped crypto old new) records news) :
    news.map VaultDekRecord.dekVersion = records.map VaultDekRecord.dekVersion := by
  induction h with
  | nil => rfl
  | cons hfirst _ ih => simp [hfirst.version, ih]

theorem activeVersions_of_rewrapped {records news : List VaultDekRecord}
    (h : List.Forall₂ (Rewrapped crypto old new) records news) :
    (news.filter VaultDekRecord.isActive).map VaultDekRecord.dekVersion =
      (records.filter VaultDekRecord.isActive).map VaultDekRecord.dekVersion := by
  induction h with
  | nil => rfl
  | cons hfirst _ ih =>
    rw [List.filter_cons, List.filter_cons, hfirst.active]
    split
    · rw [List.map_cons, List.map_cons, hfirst.version, ih]
    · exact ih

theorem RewrappedTable.of_foldl {deks : DekTable} {news : List VaultDekRecord}
    (h : List.Forall₂ (Rewrapped crypto old new) deks.listDeks news) :
    RewrappedTable crypto old new deks (news.foldl DekTable.upsertDek deks) := by
  have hversions := versions_of_rewrapped h
  have hall : ∀ d ∈ deks.rows, d.dekVersion ∈ news.map VaultDekRecord.dekVersion := by
    intro d hd
    rw [hversions]
    exact List.mem_map.mpr ⟨d,DekTable.mem_listDeks.mpr hd,rfl⟩
  have hsource : ∀ d' ∈ (news.foldl DekTable.upsertDek deks).rows,
      ∃ d ∈ deks.rows, NewWrapping crypto old new d d' := by
    intro d' hd'
    rcases DekTable.mem_foldl_upsertDek hd' with ⟨n,hn,hkeeps⟩ | ⟨hnone,d,hd,hkeeps⟩
    · obtain ⟨d,hd,hrewrapped⟩ := mem_of_rewrapped h hn
      exact ⟨d,DekTable.mem_listDeks.mp hd,hrewrapped.toNewWrapping.of_keepsKey hkeeps⟩
    · exact absurd (hkeeps.version ▸ hall d hd) hnone
  refine ⟨hsource,fun d hd => ?_,fun version => ?_⟩
  · have hrow : ∃ d' ∈ (news.foldl DekTable.upsertDek deks).rows, d'.dekVersion = d.dekVersion :=
      DekTable.version_foldl_upsertDek ⟨d,hd,rfl⟩
    obtain ⟨d',hd',hv⟩ := hrow
    obtain ⟨d₀,hd₀,hwrapping⟩ := hsource d' hd'
    obtain rfl : d₀ = d :=
      List.inj_on_of_nodup_map deks.versions hd₀ hd (hwrapping.version.symm.trans hv)
    exact ⟨d',hd',hwrapping⟩
  · have hnodup : (news.map VaultDekRecord.dekVersion).Nodup :=
      hversions ▸ deks.listDeks_versions
    have hlast := congrArg List.getLast? (activeVersions_of_rewrapped h)
    rw [List.getLast?_map, List.getLast?_map] at hlast
    rw [DekTable.activeVersion_foldl_upsertDek hnodup, DekTable.lastActive, ← hlast]
    cases (news.filter VaultDekRecord.isActive).getLast? with
    | some n => simp [eq_comm]
    | none =>
      simp only [Option.map_none, reduceCtorEq, iff_false]
      rintro ⟨⟨d,hd,rfl,_⟩,hnone⟩
      exact hnone (hall d hd)

end Outcome

end NexusEtl
