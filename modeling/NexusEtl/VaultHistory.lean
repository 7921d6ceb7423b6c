import Mathlib.Data.Set.Function
import NexusEtl.VaultFacts

/-!
# Which version of a secret a read gives

Secrets of one data set, field and match key are stored once a run. The log of
what was stored tells which secret a read for a run should give: the last one of
that run while it has a record, else the latest of what is left. A read with a
match key does not look at the run. It is right as long as no write meets a
record of another run that holds a different secret.
-/

set_option autoImplicit false

namespace NexusEtl
open NexusEtl.Library

/-- One secret of a `put_many` that went through. -/
structure StoredSecret where
  dataset : String
  field : String
  matchKey : String
  runId : Option String
  secret : String
  deriving DecidableEq, Repr

namespace StoredSecret

def ofKey (dataset field matchKey : String) (e : StoredSecret) : Bool :=
  e.dataset == dataset && e.field == field && e.matchKey == matchKey

def byRun (dataset field matchKey : String) (run : Option String) (e : StoredSecret) : Bool :=
  e.ofKey dataset field matchKey && e.runId == run

/-- The unique index takes an empty run for a missing one. -/
def inScope (dataset field matchKey run : String) (e : StoredSecret) : Bool :=
  e.ofKey dataset field matchKey && e.runId.getD "" == run

end StoredSecret

/-- The vault and what was ever stored in it, the newest first. -/
structure SecretHistory where
  world : VaultWorld
  log : List StoredSecret

inductive VaultEvent
  | put (dataset matchKey : String) (secrets : Dict String String) (runId : Option String)
  | delete (dataset field : String) (sourceRef : Option Fields) (runId : Option String)
  | migrate

namespace VaultEvent

def logged (dataset matchKey : String) (runId : Option String)
    (secrets : Dict String String) (log : List StoredSecret) : List StoredSecret :=
  secrets.foldl (fun log s => ⟨dataset,s.1,matchKey,runId,s.2⟩::log) log

variable (env : VaultEnv) (crypto : VaultCrypto) (provider : VaultKeyProvider)

/-- A write or a deletion of the services, or a file of schema 3 being opened: its rows were
written without a match key. -/
def apply (s : SecretHistory) : VaultEvent → SecretHistory
  | put dataset matchKey secrets runId =>
    match (SecretVaultWriteService.putMany env crypto provider dataset matchKey secrets
        runId).run s.world with
    | (.ok _,w) => ⟨w,logged dataset (Text.strip matchKey) runId secrets s.log⟩
    | (.error _,w) => ⟨w,s.log⟩
  | delete dataset field sourceRef runId => match normalizeSourceRef sourceRef with
    | none => s
    | some matchKey => ⟨((VaultRetentionService.deleteSecret env crypto dataset field matchKey
        runId).run s.world).2,s.log⟩
  | migrate => ⟨{ s.world with
      vault := { s.world.vault with secrets := s.world.vault.secrets.addMatchKey } },s.log⟩

def run (events : List VaultEvent) (s : SecretHistory) : SecretHistory :=
  events.foldl (apply env crypto provider) s

/-- What the locators of the event digest. -/
def locators : VaultEvent → List String
  | put dataset matchKey secrets _ =>
    secrets.map fun s => locatorText dataset s.1 (Text.strip matchKey) "v1"
  | delete dataset field sourceRef _ =>
    (normalizeSourceRef sourceRef).toList.map fun k => locatorText dataset field k "v1"
  | migrate => []

/-- A secret is stored only where the records of other runs hold the same. -/
def Agrees (key : VaultMasterKey) (s : SecretHistory) : VaultEvent → Prop
  | put dataset matchKey secrets runId =>
    ((SecretVaultWriteService.putMany env crypto provider dataset matchKey secrets
        runId).run s.world).1 = .ok () →
      ∀ secret ∈ secrets, ∀ r ∈ s.world.vault.secrets.rows, r.dataset = dataset →
        r.field = secret.1 →
        r.locatorHash = crypto.sha256 (locatorText dataset secret.1 (Text.strip matchKey) "v1") →
        r.runId ≠ runId →
        RecordHolds crypto key s.world.vault.deks r.toVaultSecretRecord secret.2
  | _ => True

def Agree (key : VaultMasterKey) : List VaultEvent → SecretHistory → Prop
  | [], _ => True
  | event::events, s => event.Agrees env crypto provider key s ∧
      Agree key events (event.apply env crypto provider s)

end VaultEvent

/-- The records of a data set, field and match key. -/
def SecretTable.keyRows (t : SecretTable) (sha256 : String → String)
    (dataset field matchKey : String) : List SecretRow :=
  t.rows.filter fun r => r.dataset == dataset && r.field == field &&
    r.locatorHash == sha256 (locatorText dataset field matchKey "v1") && r.locatorVersion == "v1"

/-- What a read for a run should give: the last secret of the run while it has a record,
otherwise the latest among the records that remain. -/
structure SecretHistory.Expected (s : SecretHistory) (sha256 : String → String)
    (dataset field matchKey : String) (run : Option String) (result : Option String) :
    Prop where
  ofRun : (∃ r ∈ s.world.vault.secrets.keyRows sha256 dataset field matchKey, r.runId = run) →
    result = (s.log.find? (StoredSecret.byRun dataset field matchKey run)).map StoredSecret.secret
  latest : (¬ ∃ r ∈ s.world.vault.secrets.keyRows sha256 dataset field matchKey, r.runId = run) →
    result = (s.log.find? fun e => e.ofKey dataset field matchKey &&
      (s.world.vault.secrets.keyRows sha256 dataset field matchKey).any fun r =>
        r.runId.getD "" == e.runId.getD "").map StoredSecret.secret
  absent : result = none ↔ s.world.vault.secrets.keyRows sha256 dataset field matchKey = []

section Rows

variable {crypto : VaultCrypto} {key : VaultMasterKey} {T : Set String}

/-- A row was stored under a match key and holds the secret that the log has for it. -/
structure RowFact (crypto : VaultCrypto) (key : VaultMasterKey) (T : Set String)
    (deks : DekTable) (log : List StoredSecret) (r : SecretRow) (k secret : String) : Prop where
  named : k ≠ ""
  touched : locatorText r.dataset r.field k "v1" ∈ T
  located : r.locatorHash = crypto.sha256 (locatorText r.dataset r.field k "v1")
  version : r.locatorVersion = "v1"
  keyed : ∀ k', r.matchKey = some k' → k' = k
  holds : RecordHolds crypto key deks r.toVaultSecretRecord secret
  lastOfScope : (log.find? (StoredSecret.inScope r.dataset r.field k (r.runId.getD ""))).map
    StoredSecret.secret = some secret
  lastOfRun : (log.find? (StoredSecret.byRun r.dataset r.field k r.runId)).map
    StoredSecret.secret = some secret

/-- Every row is accounted for, and the rows of one key hold one secret. -/
structure RowsSound (crypto : VaultCrypto) (key : VaultMasterKey) (T : Set String)
    (deks : DekTable) (log : List StoredSecret) (rows : List SecretRow) : Prop where
  facts : ∀ r ∈ rows, ∃ k secret, RowFact crypto key T deks log r k secret
  agree : ∀ r ∈ rows, ∀ r' ∈ rows, r.dataset = r'.dataset → r.field = r'.field →
    r.locatorHash = r'.locatorHash → ∃ secret,
      RecordHolds crypto key deks r.toVaultSecretRecord secret ∧
      RecordHolds crypto key deks r'.toVaultSecretRecord secret

theorem RowsSound.grow {deks deks' : DekTable} {log : List StoredSecret} {rows : List SecretRow}
    (h : RowsSound crypto key T deks log rows) (hsub : ∀ d ∈ deks.rows, d ∈ deks'.rows) :
    RowsSound crypto key T deks' log rows := by
  constructor
  · intro r hr
    obtain ⟨k,secret,hfact⟩ := h.facts r hr
    exact ⟨k,secret,{ hfact with holds := hfact.holds.mono hsub }⟩
  · intro r hr r' hr' hd hf hl
    obtain ⟨secret,hs,hs'⟩ := h.agree r hr r' hr' hd hf hl
    exact ⟨secret,hs.mono hsub,hs'.mono hsub⟩

theorem RowsSound.subset {deks : DekTable} {log : List StoredSecret} {rows rows' : List SecretRow}
    (h : RowsSound crypto key T deks log rows) (hsub : ∀ r ∈ rows', r ∈ rows) :
    RowsSound crypto key T deks log rows' :=
  ⟨fun r hr => h.facts r (hsub r hr),fun r hr r' hr' => h.agree r (hsub r hr) r' (hsub r' hr')⟩

theorem RowsSound.addMatchKey {deks : DekTable} {log : List StoredSecret} {t : SecretTable}
    (h : RowsSound crypto key T deks log t.rows) :
    RowsSound crypto key T deks log t.addMatchKey.rows := by
  have hrows : ∀ r ∈ t.addMatchKey.rows, ∃ r' ∈ t.rows, { r' with matchKey := none } = r :=
    fun r hr => List.mem_map.mp hr
  constructor
  · intro r hr
    obtain ⟨r',hr',rfl⟩ := hrows r hr
    obtain ⟨k,secret,hfact⟩ := h.facts r' hr'
    exact ⟨k,secret,hfact.named,hfact.touched,hfact.located,hfact.version,nofun,hfact.holds,
      hfact.lastOfScope,hfact.lastOfRun⟩
  · intro a ha b hb hd hf hl
    obtain ⟨a',ha',rfl⟩ := hrows a ha
    obtain ⟨b',hb',rfl⟩ := hrows b hb
    exact h.agree a' ha' b' hb' hd hf hl

/-- The records of other runs under the key of a secret hold that secret. -/
def Met (crypto : VaultCrypto) (key : VaultMasterKey) (deks : DekTable) (rows : List SecretRow)
    (dataset matchKey : String) (runId : Option String) (secret : String × String) : Prop :=
  ∀ r ∈ rows, r.dataset = dataset → r.field = secret.1 →
    r.locatorHash = crypto.sha256 (locatorText dataset secret.1 matchKey "v1") →
    r.runId ≠ runId → RecordHolds crypto key deks r.toVaultSecretRecord secret.2

variable {deks : DekTable} {dataset matchKey : String} {runId : Option String}
  {secret : String × String} {record : VaultSecretRecord} {t : SecretTable}

/-- After the write every row of its key holds the secret. -/
theorem Written.holds_of_key (hw : Written crypto key deks dataset matchKey runId secret record)
    (hmet : Met crypto key deks t.rows dataset matchKey runId secret) {r : SecretRow}
    (hr : r ∈ (t.upsert record).rows) (hd : r.dataset = dataset) (hf : r.field = secret.1)
    (hl : r.locatorHash = crypto.sha256 (locatorText dataset secret.1 matchKey "v1"))
    (hv : r.locatorVersion = "v1") :
    RecordHolds crypto key deks r.toVaultSecretRecord secret.2 := by
  rcases SecretTable.mem_upsert.mp hr with ⟨hmem,hscope⟩ | ⟨old,_,_,rfl⟩ | ⟨_,rfl⟩
  · refine hmet r hmem hd hf hl fun hrun => hscope ?_
    simp [VaultSecretRecord.scope, hd, hf, hl, hv, hrun, hw.dataset_eq, hw.field_eq, hw.locator,
      hw.version, hw.runId_eq]
  · exact hw.holds
  · exact hw.holds

/-- What a write into another scope leaves of a row's fact. -/
theorem RowFact.later {log : List StoredSecret} {r : SecretRow} {k s : String}
    (h : RowFact crypto key T deks log r k s) (e : StoredSecret)
    (he : ¬ (e.dataset = r.dataset ∧ e.field = r.field ∧ e.matchKey = k ∧
      e.runId.getD "" = r.runId.getD "")) : RowFact crypto key T deks (e::log) r k s := by
  have hscope : StoredSecret.inScope r.dataset r.field k (r.runId.getD "") e = false := by
    simpa [StoredSecret.inScope, StoredSecret.ofKey, and_assoc] using he
  have hrun : StoredSecret.byRun r.dataset r.field k r.runId e = false := by
    rw [Bool.eq_false_iff]
    intro hby
    simp only [StoredSecret.byRun, StoredSecret.ofKey, Bool.and_eq_true, beq_iff_eq] at hby
    exact he ⟨hby.1.1.1,hby.1.1.2,hby.1.2,by rw [hby.2]⟩
  refine { h with lastOfScope := ?_, lastOfRun := ?_ }
  · rw [List.find?_cons, hscope]
    exact h.lastOfScope
  · rw [List.find?_cons, hrun]
    exact h.lastOfRun

/-- What the write leaves of the fact of the row that it overwrites. -/
theorem RowFact.overwritten (hc : crypto.Correct) (hT : Set.InjOn crypto.sha256 T)
    {log : List StoredSecret} {old : SecretRow} {k s : String}
    (h : RowFact crypto key T deks log old k s) (hold : old ∈ t.rows) (hname : matchKey ≠ "")
    (htouch : locatorText dataset secret.1 matchKey "v1" ∈ T)
    (hw : Written crypto key deks dataset matchKey runId secret record)
    (hmet : Met crypto key deks t.rows dataset matchKey runId secret)
    (hscope : old.scope = record.scope) :
    RowFact crypto key T deks (⟨dataset,secret.1,matchKey,runId,secret.2⟩::log)
      (old.overwrite record) matchKey secret.2 := by
  have hcols := hscope
  simp only [VaultSecretRecord.scope, SecretScope.mk.injEq, hw.dataset_eq, hw.field_eq,
    hw.version, hw.locator, hw.runId_eq] at hcols
  obtain ⟨hd,hf,_,hl,hrun⟩ := hcols
  have htext := hT h.touched htouch (h.located.symm.trans hl)
  rw [hd, hf] at htext
  obtain rfl := locatorText_matchKey h.named hname htext
  refine ⟨hname,h.touched,h.located,h.version,h.keyed,hw.holds,?_,?_⟩
  · have hin : StoredSecret.inScope old.dataset old.field k (old.runId.getD "")
        ⟨dataset,secret.1,k,runId,secret.2⟩ = true := by
      simp [StoredSecret.inScope, StoredSecret.ofKey, hd, hf, hrun]
    exact congrArg _ (List.find?_cons_of_pos hin)
  · by_cases hsame : old.runId = runId
    · have hby : StoredSecret.byRun old.dataset old.field k old.runId
          ⟨dataset,secret.1,k,runId,secret.2⟩ = true := by
        simp [StoredSecret.byRun, StoredSecret.ofKey, hd, hf, hsame]
      exact congrArg _ (List.find?_cons_of_pos hby)
    · have hby : StoredSecret.byRun old.dataset old.field k old.runId
          ⟨dataset,secret.1,k,runId,secret.2⟩ = false := by
        simp [StoredSecret.byRun, Ne.symm hsame]
      have hheld := h.holds.unique hc (hmet old hold hd hf hl hsame)
      show (List.find? (StoredSecret.byRun old.dataset old.field k old.runId) _).map _ = _
      rw [List.find?_cons, hby, ← hheld]
      exact h.lastOfRun

/-- The write leaves the rows of the other keys as they were. -/
theorem Written.old_of_other_key
    (hw : Written crypto key deks dataset matchKey runId secret record) {r : SecretRow}
    (hr : r ∈ (t.upsert record).rows) (hkey : ¬ (r.dataset = dataset ∧ r.field = secret.1 ∧
      r.locatorHash = crypto.sha256 (locatorText dataset secret.1 matchKey "v1"))) :
    r ∈ t.rows := by
  rcases SecretTable.mem_upsert.mp hr with ⟨hmem,_⟩ | ⟨old,_,hscope,rfl⟩ | ⟨_,rfl⟩
  · exact hmem
  · have hcols := hscope
    simp only [VaultSecretRecord.scope, SecretScope.mk.injEq, hw.dataset_eq, hw.field_eq,
      hw.locator] at hcols
    exact absurd ⟨hcols.1,hcols.2.1,hcols.2.2.2.1⟩ hkey
  · exact absurd ⟨hw.dataset_eq,hw.field_eq,hw.locator⟩ hkey

theorem RowsSound.write (hc : crypto.Correct) (hT : Set.InjOn crypto.sha256 T)
    {log : List StoredSecret} (h : RowsSound crypto key T deks log t.rows)
    (hname : matchKey ≠ "") (htouch : locatorText dataset secret.1 matchKey "v1" ∈ T)
    (hw : Written crypto key deks dataset matchKey runId secret record)
    (hmet : Met crypto key deks t.rows dataset matchKey runId secret) :
    RowsSound crypto key T deks (⟨dataset,secret.1,matchKey,runId,secret.2⟩::log)
      (t.upsert record).rows := by
  have hversion : ∀ r ∈ (t.upsert record).rows, r.locatorVersion = "v1" := by
    intro r hr
    rcases SecretTable.mem_upsert.mp hr with ⟨hmem,_⟩ | ⟨old,hold,_,rfl⟩ | ⟨_,rfl⟩
    · obtain ⟨_,_,hfact⟩ := h.facts r hmem
      exact hfact.version
    · obtain ⟨_,_,hfact⟩ := h.facts old hold
      exact hfact.version
    · exact hw.version
  constructor
  · intro r hr
    rcases SecretTable.mem_upsert.mp hr with ⟨hmem,hscope⟩ | ⟨old,hold,hscope,rfl⟩ | ⟨_,rfl⟩
    · obtain ⟨k,s,hfact⟩ := h.facts r hmem
      refine ⟨k,s,hfact.later _ ?_⟩
      rintro ⟨hd,hf,hk,hrun⟩
      apply hscope
      simp only at hd hf hk hrun
      simp [VaultSecretRecord.scope, ← hd, ← hf, ← hrun, hfact.located, hfact.version, hk,
        hw.dataset_eq, hw.field_eq, hw.locator, hw.version, hw.runId_eq]
    · obtain ⟨k,s,hfact⟩ := h.facts old hold
      exact ⟨matchKey,secret.2,hfact.overwritten hc hT hold hname htouch hw hmet hscope⟩
    · refine ⟨matchKey,secret.2,hname,?_,?_,hw.version,?_,hw.holds,?_,?_⟩
      · simpa [hw.dataset_eq, hw.field_eq] using htouch
      · simpa [hw.dataset_eq, hw.field_eq] using hw.locator
      · intro k' hk'
        exact Option.some.inj (hk'.symm.trans hw.matchKey_eq)
      · simp [StoredSecret.inScope, StoredSecret.ofKey, hw.dataset_eq, hw.field_eq, hw.runId_eq]
      · simp [StoredSecret.byRun, StoredSecret.ofKey, hw.dataset_eq, hw.field_eq, hw.runId_eq]
  · intro r hr r' hr' hd hf hl
    by_cases hkey : r.dataset = dataset ∧ r.field = secret.1 ∧
        r.locatorHash = crypto.sha256 (locatorText dataset secret.1 matchKey "v1")
    · obtain ⟨hrd,hrf,hrl⟩ := hkey
      exact ⟨secret.2,hw.holds_of_key hmet hr hrd hrf hrl (hversion r hr),
        hw.holds_of_key hmet hr' (hd ▸ hrd) (hf ▸ hrf) (hl ▸ hrl) (hversion r' hr')⟩
    · have hkey' : ¬ (r'.dataset = dataset ∧ r'.field = secret.1 ∧
          r'.locatorHash = crypto.sha256 (locatorText dataset secret.1 matchKey "v1")) := by
        rw [← hd, ← hf, ← hl]
        exact hkey
      exact h.agree r (hw.old_of_other_key hr hkey) r' (hw.old_of_other_key hr' hkey') hd hf hl

theorem Met.upsert (hc : crypto.Correct)
    (hw : Written crypto key deks dataset matchKey runId secret record)
    (hmet : Met crypto key deks t.rows dataset matchKey runId secret) {other : String × String}
    (hother : Met crypto key deks t.rows dataset matchKey runId other) :
    Met crypto key deks (t.upsert record).rows dataset matchKey runId other := by
  intro r hr hd hf hl hrun
  rcases SecretTable.mem_upsert.mp hr with ⟨hmem,_⟩ | ⟨old,hold,hscope,rfl⟩ | ⟨_,rfl⟩
  · exact hother r hmem hd hf hl hrun
  · have hfield : old.field = secret.1 := (congrArg SecretScope.field hscope).trans hw.field_eq
    have hsame : other.1 = secret.1 := hf.symm.trans hfield
    have hlocated : old.locatorHash =
        crypto.sha256 (locatorText dataset secret.1 matchKey "v1") := by rw [← hsame]; exact hl
    have hheld := hmet old hold hd hfield hlocated hrun
    rw [(hother old hold hd hf hl hrun).unique hc hheld]
    exact hw.holds
  · exact absurd hw.runId_eq hrun

/-- All writes of a call, in the order of its secrets. -/
theorem RowsSound.writes (hc : crypto.Correct) (hT : Set.InjOn crypto.sha256 T)
    {log : List StoredSecret} {secrets : Dict String String} {records : List VaultSecretRecord}
    (hrecords : List.Forall₂ (Written crypto key deks dataset matchKey runId) secrets records)
    (h : RowsSound crypto key T deks log t.rows)
    (hname : secrets ≠ [] → matchKey ≠ "")
    (htouch : ∀ s ∈ secrets, locatorText dataset s.1 matchKey "v1" ∈ T)
    (hmet : ∀ s ∈ secrets, Met crypto key deks t.rows dataset matchKey runId s) :
    RowsSound crypto key T deks (VaultEvent.logged dataset matchKey runId secrets log)
      (records.foldl SecretTable.upsert t).rows := by
  induction hrecords generalizing t log with
  | nil => exact h
  | @cons secret record secrets records hw hrest ih =>
    have hfirst := hmet secret List.mem_cons_self
    apply ih (h.write hc hT (hname (by simp)) (htouch secret List.mem_cons_self) hw hfirst)
      (fun _ => hname (by simp)) fun s hs => htouch s (List.mem_cons_of_mem _ hs)
    exact fun s hs => hfirst.upsert hc hw (hmet s (List.mem_cons_of_mem _ hs))

end Rows

section Runs

variable (env : VaultEnv) {crypto : VaultCrypto} {key : VaultMasterKey} {T : Set String}
  {provider : VaultKeyProvider}

/-- The invariant of a history: one master key, and rows that the log accounts for. -/
structure SecretHistory.Sound (crypto : VaultCrypto) (key : VaultMasterKey)
    (provider : VaultKeyProvider) (T : Set String) (s : SecretHistory) : Prop where
  provides : provider.Provides crypto key s.world
  closed : s.world.inTransaction = false
  keys : DekKeys crypto key s.world.vault.deks
  rows : RowsSound crypto key T s.world.vault.deks s.log s.world.vault.secrets.rows

theorem SecretHistory.Sound.apply (hc : crypto.Correct) (hrandom : env.Random)
    (hk : crypto.fernet.validKey key.keyMaterial = true) (hT : Set.InjOn crypto.sha256 T)
    {s : SecretHistory} (h : s.Sound crypto key provider T) (event : VaultEvent)
    (htouch : ∀ text ∈ event.locators, text ∈ T)
    (hagree : event.Agrees env crypto provider key s) :
    (event.apply env crypto provider s).Sound crypto key provider T := by
  cases event with
  | put dataset matchKey secrets runId =>
    have hends := ends_putMany env hc hrandom h.provides hk h.keys (fun _ => rfl) h.closed dataset
      matchKey secrets runId
    rw [VaultEvent.apply]
    rcases hrun : (SecretVaultWriteService.putMany env crypto provider dataset matchKey secrets
        runId).run s.world with ⟨e | u,w⟩
    · obtain ⟨hp,hin,⟨heq,_⟩ | ⟨_,_,hv⟩⟩ := hends.of_run hrun
      · cases heq
      · exact ⟨hp,hin,hv ▸ h.keys,by simpa only [hv] using h.rows⟩
    · obtain ⟨hp,hin,⟨_,hstored⟩ | ⟨_,heq,_⟩⟩ := hends.of_run hrun
      · obtain ⟨v₁,records,hgrow,hrecords,hv⟩ := hstored.written
        have hmet := hagree (by rw [hrun])
        have hrows := h.rows.grow hgrow.kept
        rw [← hgrow.secrets] at hrows
        refine ⟨hp,hin,?_,?_⟩
        · simpa only [hv] using hgrow.keys
        · simp only [hv]
          refine hrows.writes hc hT hrecords hstored.named ?_ ?_
          · exact fun secret hs => htouch _ (List.mem_map.mpr ⟨secret,hs,rfl⟩)
          · intro secret hs r hr hd hf hl hrun
            rw [hgrow.secrets] at hr
            exact (hmet secret hs r hr hd hf hl hrun).mono hgrow.kept
      · cases heq
  | delete dataset field sourceRef runId =>
    rw [VaultEvent.apply]
    split
    · exact h
    · rename_i matchKey _
      have hends : Prog.Ends _ (VaultRetentionService.deleteSecret env crypto dataset field matchKey
        runId) s.world := ends_deleteSecret env dataset field matchKey runId s.world
      obtain ⟨hu,hin,⟨_,_,hv⟩ | ⟨_,hv⟩⟩ := hends
      · refine ⟨h.provides.of_same (by rw [hv]) hu,hin.trans h.closed,
          by simpa only [hv] using h.keys,?_⟩
        simp only [hv]
        exact h.rows.subset fun r hr => (SecretTable.mem_deleteSecret.mp hr).1
      · refine ⟨h.provides.of_same (by rw [hv]) hu,hin.trans h.closed,
          by simpa only [hv] using h.keys,?_⟩
        simpa only [hv] using h.rows
  | migrate => exact ⟨h.provides.of_same rfl rfl,h.closed,h.keys,h.rows.addMatchKey⟩

theorem SecretHistory.Sound.run (hc : crypto.Correct) (hrandom : env.Random)
    (hk : crypto.fernet.validKey key.keyMaterial = true) (hT : Set.InjOn crypto.sha256 T)
    (events : List VaultEvent) {s : SecretHistory} (h : s.Sound crypto key provider T)
    (htouch : ∀ event ∈ events, ∀ text ∈ event.locators, text ∈ T)
    (hagree : VaultEvent.Agree env crypto provider key events s) :
    (VaultEvent.run env crypto provider events s).Sound crypto key provider T := by
  induction events generalizing s with
  | nil => exact h
  | cons event events ih =>
    obtain ⟨hfirst,hrest⟩ := hagree
    exact ih (h.apply env hc hrandom hk hT event (htouch event List.mem_cons_self) hfirst)
      (fun e he => htouch e (List.mem_cons_of_mem _ he)) hrest

end Runs

section Reads

variable {crypto : VaultCrypto} {key : VaultMasterKey} {T : Set String} {deks : DekTable}
  {log : List StoredSecret} {t : SecretTable} {dataset field matchKey : String}

theorem SecretTable.mem_keyRows {sha256 : String → String} {r : SecretRow} :
    r ∈ t.keyRows sha256 dataset field matchKey ↔ r ∈ t.rows ∧ r.dataset = dataset ∧
      r.field = field ∧ r.locatorHash = sha256 (locatorText dataset field matchKey "v1") ∧
      r.locatorVersion = "v1" := by
  simp only [keyRows, List.mem_filter, Bool.and_eq_true, beq_iff_eq]
  tauto

/-- A row of the key was stored under its match key. -/
theorem RowFact.matchKey_eq (hT : Set.InjOn crypto.sha256 T) (hname : matchKey ≠ "")
    (htouch : locatorText dataset field matchKey "v1" ∈ T) {r : SecretRow} {k s : String}
    (h : RowFact crypto key T deks log r k s)
    (hr : r ∈ t.keyRows crypto.sha256 dataset field matchKey) : k = matchKey := by
  obtain ⟨_,hd,hf,hl,_⟩ := SecretTable.mem_keyRows.mp hr
  have htext := hT h.touched htouch (h.located.symm.trans hl)
  rw [hd, hf] at htext
  exact locatorText_matchKey h.named hname htext

/-- A read chooses among the rows of the key, and finds one if there is one. -/
theorem RowsSound.chosen_mem (h : RowsSound crypto key T deks log t.rows) (hname : matchKey ≠ "")
    {run : Option String} {r : SecretRow}
    (hr : t.chosen crypto.sha256 dataset field matchKey run = some r) :
    r ∈ t.keyRows crypto.sha256 dataset field matchKey := by
  rw [SecretTable.chosen_eq hname, Option.or_eq_some_iff] at hr
  rw [SecretTable.mem_keyRows]
  rcases hr with hr | ⟨_,hr⟩
  · have hmem := SecretTable.newest_mem hr
    simp only [List.mem_filter, Bool.and_eq_true, beq_iff_eq] at hmem
    obtain ⟨⟨hmem,hd,hf⟩,hk⟩ := hmem
    obtain ⟨k,s,hfact⟩ := h.facts r hmem
    obtain rfl := hfact.keyed matchKey hk
    exact ⟨hmem,hd,hf,by rw [hfact.located, hd, hf],hfact.version⟩
  · have hmem := SecretTable.newest_mem hr
    simp only [List.mem_filter, Bool.and_eq_true, beq_iff_eq] at hmem
    exact ⟨hmem.1.1,hmem.1.2.1,hmem.1.2.2,hmem.2.1,hmem.2.2⟩

theorem SecretTable.keyRows_of_chosen_none {sha256 : String → String} (hname : matchKey ≠ "")
    {run : Option String} (h : t.chosen sha256 dataset field matchKey run = none) :
    t.keyRows sha256 dataset field matchKey = [] := by
  rw [chosen_eq hname, Option.or_eq_none_iff] at h
  have hnil := newest_eq_none.mp h.2
  rw [List.eq_nil_iff_forall_not_mem]
  intro r hr
  obtain ⟨hmem,hd,hf,hl,hv⟩ := mem_keyRows.mp hr
  have hin : r ∉ ([] : List SecretRow) := List.not_mem_nil
  rw [← hnil] at hin
  simp [hmem, hd, hf, hl, hv] at hin

/-- The newest entry that meets a condition is also the newest for a narrower one it meets. -/
theorem find?_of_imp {A : Type} {p q : A → Bool} {l : List A} {a : A} (h : l.find? p = some a)
    (hq : q a = true) (himp : ∀ x, q x = true → p x = true) : l.find? q = some a := by
  induction l with
  | nil => cases h
  | cons x l ih =>
    cases hp : p x with
    | true =>
      rw [List.find?_cons_of_pos hp] at h
      obtain rfl := Option.some.inj h
      exact List.find?_cons_of_pos hq
    | false =>
      rw [List.find?_cons_of_neg (by simp [hp])] at h
      rw [List.find?_cons_of_neg fun hqx => by simp [himp x hqx] at hp]
      exact ih h

/-- The secret of the chosen row is the one expected. -/
theorem SecretHistory.Sound.expected (hc : crypto.Correct) (hT : Set.InjOn crypto.sha256 T)
    (hname : matchKey ≠ "") (htouch : locatorText dataset field matchKey "v1" ∈ T)
    {s : SecretHistory} {provider : VaultKeyProvider} (h : s.Sound crypto key provider T)
    {run : Option String} {result : Option SecretRow} {secret : String}
    (hresult : s.world.vault.secrets.chosen crypto.sha256 dataset field matchKey run = result)
    (hsecret : ∀ r, result = some r →
      RecordHolds crypto key s.world.vault.deks r.toVaultSecretRecord secret) :
    s.Expected crypto.sha256 dataset field matchKey run (result.map fun _ => secret) := by
  cases result with
  | none =>
    have hnil := SecretTable.keyRows_of_chosen_none hname hresult
    refine ⟨?_,?_,by simp [hnil]⟩
    · simp [hnil]
    · intro _
      simp [hnil]
  | some row =>
    have hrow := h.rows.chosen_mem hname hresult
    have hheld := hsecret row rfl
    -- all rows of the key hold the chosen secret
    have hall : ∀ r ∈ s.world.vault.secrets.keyRows crypto.sha256 dataset field matchKey,
        RowFact crypto key T s.world.vault.deks s.log r matchKey secret := by
      intro r hr
      obtain ⟨hmem,hd,hf,hl,_⟩ := SecretTable.mem_keyRows.mp hr
      obtain ⟨hmem',hd',hf',hl',_⟩ := SecretTable.mem_keyRows.mp hrow
      obtain ⟨k,s',hfact⟩ := h.rows.facts r hmem
      obtain rfl := hfact.matchKey_eq hT hname htouch hr
      obtain ⟨common,hr',hrow'⟩ := h.rows.agree r hmem row hmem' (hd.trans hd'.symm)
        (hf.trans hf'.symm) (hl.trans hl'.symm)
      obtain rfl := hrow'.unique hc hheld
      obtain rfl := hfact.holds.unique hc hr'
      exact hfact
    have hkey : ∀ r ∈ s.world.vault.secrets.keyRows crypto.sha256 dataset field matchKey,
        r.dataset = dataset ∧ r.field = field := fun r hr =>
      ⟨(SecretTable.mem_keyRows.mp hr).2.1,(SecretTable.mem_keyRows.mp hr).2.2.1⟩
    refine ⟨?_,?_,?_⟩
    · rintro ⟨r,hr,rfl⟩
      have hlast := (hall r hr).lastOfRun
      rw [(hkey r hr).1, (hkey r hr).2] at hlast
      exact hlast.symm
    · intro _
      have hlast := (hall row hrow).lastOfScope
      rw [(hkey row hrow).1, (hkey row hrow).2] at hlast
      obtain ⟨e₀,hfind₀,_⟩ := Option.map_eq_some_iff.mp hlast
      have hin₀ := List.find?_some hfind₀
      simp only [StoredSecret.inScope, Bool.and_eq_true, beq_iff_eq] at hin₀
      cases hfind : s.log.find? fun e => e.ofKey dataset field matchKey &&
          (s.world.vault.secrets.keyRows crypto.sha256 dataset field matchKey).any fun r =>
            r.runId.getD "" == e.runId.getD "" with
      | none =>
        have hnone := List.find?_eq_none.mp hfind e₀ (List.mem_of_find?_eq_some hfind₀)
        refine absurd ?_ hnone
        exact Bool.and_eq_true_iff.mpr ⟨hin₀.1,List.any_eq_true.mpr
          ⟨row,hrow,beq_iff_eq.mpr hin₀.2.symm⟩⟩
      | some e =>
        have hpe := List.find?_some hfind
        obtain ⟨hof,hany⟩ := Bool.and_eq_true_iff.mp hpe
        obtain ⟨r,hr,hrun⟩ := List.any_eq_true.mp hany
        have hscope := (hall r hr).lastOfScope
        rw [(hkey r hr).1, (hkey r hr).2, find?_of_imp hfind] at hscope
        · exact hscope.symm
        · exact Bool.and_eq_true_iff.mpr ⟨hof,by rw [beq_iff_eq] at hrun ⊢; exact hrun.symm⟩
        · intro x hx
          obtain ⟨hofx,hrunx⟩ := Bool.and_eq_true_iff.mp hx
          exact Bool.and_eq_true_iff.mpr ⟨hofx,List.any_eq_true.mpr
            ⟨r,hr,by rw [beq_iff_eq] at hrunx ⊢; exact hrunx.symm⟩⟩
    · simp only [Option.map_some, reduceCtorEq, false_iff]
      exact List.ne_nil_of_mem hrow

end Reads

/-- After every history in which a stored secret only meets records of other runs that hold the
same, a read gives what is expected of it. -/
theorem read_precedence (env reader : VaultEnv) (crypto : VaultCrypto) (hc : crypto.Correct)
    (hrandom : env.Random) (hcalm : reader.Calm) (key : VaultMasterKey)
    (hk : crypto.fernet.validKey key.keyMaterial = true) (provider : VaultKeyProvider)
    (start : VaultWorld) (hprovides : provider.Provides crypto key start)
    (hkeys : DekKeys crypto key start.vault.deks) (hempty : start.vault.secrets.rows = [])
    (hout : start.inTransaction = false) (events : List VaultEvent)
    (hagree : VaultEvent.Agree env crypto provider key events ⟨start,[]⟩)
    (dataset field matchKey : String) (sourceRef : Option Fields)
    (href : normalizeSourceRef sourceRef = some matchKey)
    (hsha : Set.InjOn crypto.sha256
      {text | text ∈ locatorText dataset field matchKey "v1"::events.flatMap VaultEvent.locators})
    (runId defaultRunId : Option String) :
    let s := VaultEvent.run env crypto provider events ⟨start,[]⟩
    ∃ result, ((SecretVaultReadService.getSecret reader crypto provider defaultRunId dataset field
        sourceRef runId).run s.world).1 = .ok result ∧
      s.Expected crypto.sha256 dataset field matchKey (runId.or defaultRunId) result := by
  intro s
  have hstart : SecretHistory.Sound crypto key provider
      {text | text ∈ locatorText dataset field matchKey "v1"::events.flatMap VaultEvent.locators}
      ⟨start,[]⟩ := by
    refine ⟨hprovides,hout,hkeys,?_,?_⟩
    · simp [hempty]
    · simp [hempty]
  have hsound : s.Sound crypto key provider _ := hstart.run env hc hrandom hk hsha events
    (fun event he text ht => List.mem_cons_of_mem _ (List.mem_flatMap.mpr ⟨event,he,ht⟩)) hagree
  have hname := normalizeSourceRef_ne href
  have htouch : locatorText dataset field matchKey "v1" ∈
      {text | text ∈ locatorText dataset field matchKey "v1"::events.flatMap VaultEvent.locators} :=
    List.mem_cons_self
  have hsecret : ∃ secret, ∀ row, s.world.vault.secrets.chosen crypto.sha256 dataset field matchKey
      (runId.or defaultRunId) = some row →
      RecordHolds crypto key s.world.vault.deks row.toVaultSecretRecord secret := by
    cases hchosen : s.world.vault.secrets.chosen crypto.sha256 dataset field matchKey
        (runId.or defaultRunId) with
    | none => exact ⟨"",nofun⟩
    | some row =>
      have hmem := SecretTable.mem_keyRows.mp (hsound.rows.chosen_mem hname hchosen)
      obtain ⟨k,secret,hfact⟩ := hsound.rows.facts row hmem.1
      refine ⟨secret,fun row' hrow' => ?_⟩
      obtain rfl := Option.some.inj hrow'
      exact hfact.holds
  obtain ⟨secret,hrow⟩ := hsecret
  have hread := ends_getSecret reader hc hsound.provides hk href hrow
  obtain ⟨_,hresult | ⟨e,_,hfail⟩⟩ := hread
  · exact ⟨_,hresult,hsound.expected hc hsha hname htouch rfl hrow⟩
  · exact absurd hcalm hfail

section TwoRuns

/-- The password of E1 is planned in one run and again, changed or not, in a later one. -/
def passwordRuns (first second : String) : List VaultEvent :=
  [.put "employees" "E1" [("password",first)] (some "run_1"),
   .put "employees" "E1" [("password",second)] (some "run_2")]

def historyOf (events : List VaultEvent) : SecretHistory :=
  VaultEvent.run .quiet .transparent (.static vaultKey []) events ⟨.empty,[]⟩

/-- What a read of that password gives for the first run. -/
def firstRunRead (s : SecretHistory) : Except VaultError (Option String) :=
  ((SecretVaultReadService.getSecret .quiet .transparent (.static vaultKey []) none "employees"
    "password" (some [("match_key",.str "E1")]) (some "run_1")).run s.world).1

/-- A read for the earlier run gives what the later run has stored. -/
theorem earlier_run_overtaken :
    firstRunRead (historyOf (passwordRuns "spring" "summer")) = .ok (some "summer") ∧
    ¬ (historyOf (passwordRuns "spring" "summer")).Expected id "employees" "password" "E1"
      (some "run_1") (some "summer") := by
  have hshown : firstRunRead (historyOf (passwordRuns "spring" "summer")) = .ok (some "summer") ∧
      (∃ r ∈ (historyOf (passwordRuns "spring" "summer")).world.vault.secrets.keyRows id
        "employees" "password" "E1", r.runId = some "run_1") ∧
      ((historyOf (passwordRuns "spring" "summer")).log.find?
        (StoredSecret.byRun "employees" "password" "E1" (some "run_1"))).map
          StoredSecret.secret ≠ some "summer" := by
    decide
  exact ⟨hshown.1,fun h => hshown.2.2 (h.ofRun hshown.2.1).symm⟩

/-- The runs may store the same password. -/
theorem passwordRuns_agree :
    VaultEvent.Agree .quiet .transparent (.static vaultKey []) vaultKey
      (passwordRuns "spring" "spring") ⟨.empty,[]⟩ := by
  have hfirst : VaultEvent.Agrees .quiet .transparent (.static vaultKey []) vaultKey ⟨.empty,[]⟩
      (.put "employees" "E1" [("password","spring")] (some "run_1")) :=
    fun _ _ _ r hr => absurd hr List.not_mem_nil
  have hstart : SecretHistory.Sound .transparent vaultKey (.static vaultKey []) Set.univ
      ⟨.empty,[]⟩ := by
    refine ⟨⟨rfl,rfl⟩,rfl,⟨?_,.inl rfl⟩,⟨?_,?_⟩⟩
    · exact fun d hd => absurd hd List.not_mem_nil
    · exact fun r hr => absurd hr List.not_mem_nil
    · exact fun r hr => absurd hr List.not_mem_nil
  have hsound := hstart.apply .quiet VaultCrypto.transparent_correct VaultEnv.quiet_random
    (by decide) Function.injective_id.injOn _ (fun _ _ => trivial) hfirst
  refine ⟨hfirst,fun _ secret hs r hr _ _ _ _ => ?_,trivial⟩
  obtain rfl := List.mem_singleton.mp hs
  obtain ⟨k,stored,hfact⟩ := hsound.rows.facts r hr
  obtain ⟨e,hfind,rfl⟩ := Option.map_eq_some_iff.mp hfact.lastOfRun
  have hlog : (VaultEvent.apply .quiet .transparent (.static vaultKey []) ⟨.empty,[]⟩
      (.put "employees" "E1" [("password","spring")] (some "run_1"))).log =
        [⟨"employees","password","E1",some "run_1","spring"⟩] := by decide
  have hmem := List.mem_of_find?_eq_some hfind
  rw [hlog, List.mem_singleton] at hmem
  obtain rfl := hmem
  exact hfact.holds

theorem read_precedence_password :
    ∃ result, firstRunRead (historyOf (passwordRuns "spring" "spring")) = .ok result ∧
      (historyOf (passwordRuns "spring" "spring")).Expected id "employees" "password" "E1"
        (some "run_1") result :=
  read_precedence .quiet .quiet .transparent VaultCrypto.transparent_correct
    VaultEnv.quiet_random VaultEnv.quiet_calm vaultKey (by decide) (.static vaultKey [])
    .empty ⟨rfl,rfl⟩ ⟨fun d hd => absurd hd List.not_mem_nil,.inl rfl⟩ rfl rfl
    (passwordRuns "spring" "spring") passwordRuns_agree "employees" "password" "E1"
    (some [("match_key",.str "E1")]) (by decide) Function.injective_id.injOn
    (some "run_1") none

end TwoRuns

end NexusEtl
