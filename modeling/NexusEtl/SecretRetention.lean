import NexusEtl.Apply
import NexusEtl.VaultFacts

/-!
# Clearing secrets after an apply

A plan item whose secrets are ephemeral has them deleted once it is applied. The
deletion names the run of the plan, the read that hydrated the request did not:
nothing of the secret is left exactly if all that the read could find was stored
by that run.
-/

set_option autoImplicit false

namespace NexusEtl
open NexusEtl.Library

inductive LifecycleMode
  | persistent | ephemeral
  deriving DecidableEq, Repr

structure SecretLifecycle where
  mode : LifecycleMode
  deleteOnSuccess : Bool
  ttlSeconds : Option Int
  deriving DecidableEq, Repr

def normalizeSecretLifecycle (raw : Option Fields) : SecretLifecycle :=
  let raw := raw.getD []
  let mode := if Fields.read raw "mode" = .str "ephemeral" then LifecycleMode.ephemeral
    else .persistent
  { mode := mode
    deleteOnSuccess := match Fields.read raw "delete_on_success" with
      | .bool delete => delete
      | _ => mode == .ephemeral
    ttlSeconds := match Fields.read raw "ttl_seconds" with
      | .int n => if 0 < n then some n else none
      | .bool b => if b then some 1 else none
      | _ => none }

structure RetentionCounters where
  deleted : Nat
  kept : Nat
  skipped : Nat
  errors : Nat
  deriving DecidableEq, Repr

def RetentionCounters.zero : RetentionCounters := ⟨0,0,0,0⟩

def RetentionCounters.toDict (c : RetentionCounters) : Dict String Int :=
  [("deleted",c.deleted), ("kept",c.kept), ("skipped",c.skipped), ("errors",c.errors)]

namespace VaultRetentionService

variable (env : VaultEnv) (crypto : VaultCrypto)

/-- One secret field: a failed deletion is counted and not raised. -/
def clearField (dataset matchKey : String) (runId : Option String) (counters : RetentionCounters)
    (field : String) : VaultM RetentionCounters :=
  tryCatch
    (do
      let deleted ← deleteSecret env crypto dataset field matchKey runId
      return if 0 < deleted then { counters with deleted := counters.deleted + deleted }
        else { counters with skipped := counters.skipped + 1 })
    fun e => if e.kind = .secretStore ∨ e.kind = .valueError then
      return { counters with errors := counters.errors + 1 } else throw e

def clearFields (dataset matchKey : String) (runId : Option String) :
    List String → RetentionCounters → VaultM RetentionCounters
  | [], counters => pure counters
  | field::fields, counters => do
    let counters ← clearField env crypto dataset matchKey runId counters field
    clearFields dataset matchKey runId fields counters

def onApplySuccess (call : RetentionCall) : VaultM RetentionCounters :=
  let policy := normalizeSecretLifecycle call.secretLifecycle
  if call.secretFields = [] then pure .zero
  else if policy.mode ≠ .ephemeral ∨ policy.deleteOnSuccess = false then
    pure { RetentionCounters.zero with kept := call.secretFields.length }
  else match normalizeSourceRef call.sourceRef with
    | none => pure { RetentionCounters.zero with skipped := call.secretFields.length }
    | some matchKey => clearFields env crypto call.dataset matchKey call.runId call.secretFields
        .zero

end VaultRetentionService

def VaultErrorKind.className : VaultErrorKind → String
  | .secretKeyConfig => "SecretKeyConfigError"
  | .secretStore => "SecretStoreError"
  | .secretRead => "SecretReadError"
  | .secretDecryption => "SecretDecryptionError"
  | .secretIntegrity => "SecretIntegrityError"
  | .startupKeyValidation => "VaultStartupKeyValidationError"
  | .startupProbeCorrupted => "VaultStartupProbeCorruptedError"
  | .startupStorageReadonly => "VaultStartupStorageReadonlyError"
  | .startupUninitializedReadonly => "VaultStartupUninitializedReadonlyError"
  | .managementOperation => "VaultManagementOperationError"
  | .valueError => "ValueError"
  | .runtimeError => "RuntimeError"
  | .sqlite => "DatabaseError"

def VaultError.toException (e : VaultError) : PyException := ⟨e.kind.className,e.message⟩

/-- The retention hook of the apply service. -/
def retentionHook (env : VaultEnv) (crypto : VaultCrypto) (call : RetentionCall)
    (w : VaultWorld) : Except PyException (Dict String Int) × VaultWorld :=
  let (result,w') := (VaultRetentionService.onApplySuccess env crypto call).run w
  (match result with
    | .ok counters => .ok counters.toDict
    | .error e => .error e.toException,w')

def VaultError.toFailure (e : VaultError) : SecretFailure :=
  match e.kind with
  | .secretRead => .read
  | .secretDecryption => .decryption
  | .secretIntegrity => .integrity
  | _ => .other e.toException

/-- The secrets of the apply adapter: the read service, made for the run of the plan. A read
leaves the vault as it is; each has an environment of its own. -/
def vaultSecrets (envs : SecretQuery → VaultEnv) (crypto : VaultCrypto)
    (provider : VaultKeyProvider) (planRunId : Option String) (query : SecretQuery)
    (w : VaultWorld) : Except SecretFailure (Option String) :=
  ((SecretVaultReadService.getSecret (envs query) crypto provider planRunId query.dataset
    query.field query.sourceRef none).run w).1.mapError VaultError.toFailure

/-- A secret field that the plan leaves to be hydrated. -/
def PlanItem.Hydrates (item : PlanItem) (field : String) : Prop :=
  field ∈ item.secretFields ∧ (Fields.read item.desiredState field).truthy = false

/-- The rows that a read of the secret can find, whatever the run. -/
def SecretTable.found (t : SecretTable) (sha256 : String → String)
    (dataset field matchKey : String) : List SecretRow :=
  t.rows.filter fun r => r.dataset == dataset && r.field == field &&
    (r.matchKey == some matchKey ||
      (r.locatorHash == sha256 (locatorText dataset field matchKey "v1") &&
        r.locatorVersion == "v1"))

/-- The record that the plaintext of a field comes from. -/
def HydratedFrom (env : VaultEnv) (crypto : VaultCrypto) (provider : VaultKeyProvider)
    (planRunId : Option String) (query : SecretQuery) (w : VaultWorld) (r : SecretRow)
    (secret : String) : Prop :=
  ∃ matchKey, normalizeSourceRef query.sourceRef = some matchKey ∧
    w.vault.secrets.chosen crypto.sha256 query.dataset query.field matchKey planRunId = some r ∧
    ∃ w₁, SameVault w w₁ ∧
      ((SecretVaultReadService.openRecord env crypto provider r).run w₁).1 = .ok secret

/-- The secret of a hydrated field is gone: the record that it came from is no longer there, and
nothing is found for the same key under any run. -/
structure SecretGone (envs : SecretQuery → VaultEnv) (crypto : VaultCrypto)
    (provider : VaultKeyProvider) (planRunId : Option String)
    (adapter : OperationApplyAdapter VaultWorld) (item : PlanItem) (field : String)
    (before after : VaultWorld) : Prop where
  record : ∃ r secret, adapter.getSecret before (adapter.queryOf item field) = .ok (some secret) ∧
    HydratedFrom (envs (adapter.queryOf item field)) crypto provider planRunId
      (adapter.queryOf item field) before r secret ∧
    ∀ r' ∈ after.vault.secrets.rows, r'.secretId ≠ r.secretId
  unreadable : ∀ (reader : VaultEnv) (other : VaultKeyProvider)
    (defaultRunId runId : Option String), reader.Calm →
    ((SecretVaultReadService.getSecret reader crypto other defaultRunId adapter.dataset field
      item.sourceRef runId).run after).1 = .ok none

/-- Whatever a read of the field can find was stored by the run. -/
def StoredByRun (crypto : VaultCrypto) (t : SecretTable) (dataset field : String)
    (sourceRef : Option Fields) (runId : Option String) : Prop :=
  ∀ matchKey, normalizeSourceRef sourceRef = some matchKey →
    ∀ r ∈ t.found crypto.sha256 dataset field matchKey,
      r.locatorHash = crypto.sha256 (locatorText dataset field matchKey "v1") ∧
        r.locatorVersion = "v1" ∧ r.runId = runId

section Reading

variable {crypto : VaultCrypto} {t : SecretTable} {dataset field matchKey : String}

theorem SecretTable.mem_found {sha256 : String → String} {r : SecretRow} :
    r ∈ t.found sha256 dataset field matchKey ↔ r ∈ t.rows ∧ r.dataset = dataset ∧
      r.field = field ∧ (r.matchKey = some matchKey ∨
        (r.locatorHash = sha256 (locatorText dataset field matchKey "v1") ∧
          r.locatorVersion = "v1")) := by
  simp only [found, List.mem_filter, Bool.and_eq_true, Bool.or_eq_true, beq_iff_eq]
  tauto

theorem SecretTable.chosen_eq_none_iff {sha256 : String → String} (hname : matchKey ≠ "")
    {run : Option String} : t.chosen sha256 dataset field matchKey run = none ↔
      t.found sha256 dataset field matchKey = [] := by
  rw [chosen_eq hname, Option.or_eq_none_iff, newest_eq_none, newest_eq_none]
  simp only [List.filter_filter, List.filter_eq_nil_iff, found]
  simp only [Bool.and_eq_true, Bool.or_eq_true, beq_iff_eq]
  grind

theorem SecretTable.chosen_mem_found {sha256 : String → String} (hname : matchKey ≠ "")
    {run : Option String} {r : SecretRow}
    (h : t.chosen sha256 dataset field matchKey run = some r) :
    r ∈ t.found sha256 dataset field matchKey := by
  rw [chosen_eq hname, Option.or_eq_some_iff] at h
  rw [mem_found]
  rcases h with h | ⟨_,h⟩
  · have hmem := newest_mem h
    simp only [List.mem_filter, Bool.and_eq_true, beq_iff_eq] at hmem
    exact ⟨hmem.1.1,hmem.1.2.1,hmem.1.2.2,.inl hmem.2⟩
  · have hmem := newest_mem h
    simp only [List.mem_filter, Bool.and_eq_true, beq_iff_eq] at hmem
    exact ⟨hmem.1.1,hmem.1.2.1,hmem.1.2.2,.inr hmem.2⟩

/-- A read that the database answers finds nothing exactly if no row is chosen. -/
theorem getSecret_none_iff {reader : VaultEnv} (hcalm : reader.Calm) (provider : VaultKeyProvider)
    {sourceRef : Option Fields} (href : normalizeSourceRef sourceRef = some matchKey)
    (defaultRunId runId : Option String) (w : VaultWorld) :
    ((SecretVaultReadService.getSecret reader crypto provider defaultRunId dataset field sourceRef
        runId).run w).1 = .ok none ↔
      w.vault.secrets.found crypto.sha256 dataset field matchKey = [] := by
  have hends : Prog.Ends (fun r _ => r = .ok none ↔
      w.vault.secrets.chosen crypto.sha256 dataset field matchKey (runId.or defaultRunId) = none)
      (SecretVaultReadService.getSecret reader crypto provider defaultRunId dataset field sourceRef
        runId) w := by
    unfold SecretVaultReadService.getSecret
    simp only [href, buildLocatorHash_v1]
    refine ends_mapError (Prog.Ends.bind (Prog.Ends.ofExcept (Prog.Ends.bind
      ((ends_read reader _ w).mono fun r w₁ hr => ?_))))
    obtain ⟨_,rfl | ⟨e,_,hfail⟩⟩ := hr
    · rw [← SecretTable.chosen]
      cases hchosen : w.vault.secrets.chosen crypto.sha256 dataset field matchKey
          (runId.or defaultRunId) with
      | none => exact Prog.Ends.pure ⟨fun _ => rfl,fun _ => rfl⟩
      | some row =>
        have hopen : Prog.Ends (fun _ _ => True)
          (SecretVaultReadService.openRecord reader crypto provider row) w₁ := trivial
        refine Prog.Ends.bind (hopen.mono fun r w₂ _ => ?_)
        cases r with
        | ok secret =>
          refine Prog.Ends.pure ?_
          constructor <;> intro h <;> cases h
        | error e => constructor <;> intro h <;> cases h
    · exact absurd hcalm hfail
  exact Iff.trans hends (SecretTable.chosen_eq_none_iff (normalizeSourceRef_ne href))

end Reading

namespace VaultRetentionService

variable (env : VaultEnv) {crypto : VaultCrypto}

theorem ends_clearField (dataset matchKey : String) (runId : Option String)
    (counters : RetentionCounters) (field : String) (w : VaultWorld) :
    Prog.Ends (fun r w' => ∃ after, r = .ok after ∧
      ((after.errors = counters.errors ∧ w'.vault.secrets =
          (w.vault.secrets.deleteSecret dataset field
            (crypto.sha256 (locatorText dataset field matchKey "v1")) "v1" runId).2) ∨
        after.errors = counters.errors + 1))
      (clearField env crypto dataset matchKey runId counters field) w := by
  refine Prog.Ends.tryCatch (Prog.Ends.bind
    ((ends_deleteSecret env dataset field matchKey runId w).mono fun r w' hr => ?_))
  obtain ⟨_,_,⟨n,rfl,hv⟩ | ⟨rfl,_⟩⟩ := hr
  · refine Prog.Ends.pure ⟨_,rfl,.inl ⟨?_,by rw [hv]⟩⟩
    split <;> rfl
  · exact Prog.Ends.pure ⟨_,rfl,.inr rfl⟩

/-- Without an error exactly the rows of the run are deleted, for every field. -/
theorem ends_clearFields (dataset matchKey : String) (runId : Option String)
    (fields : List String) (counters : RetentionCounters) (w : VaultWorld) :
    Prog.Ends (fun r w' => ∃ after, r = .ok after ∧ counters.errors ≤ after.errors ∧
      (after.errors = counters.errors → ∀ row, row ∈ w'.vault.secrets.rows ↔
        row ∈ w.vault.secrets.rows ∧ ¬ (row.dataset = dataset ∧ row.field ∈ fields ∧
          row.locatorHash = crypto.sha256 (locatorText dataset row.field matchKey "v1") ∧
          row.locatorVersion = "v1" ∧ row.runId = runId)))
      (clearFields env crypto dataset matchKey runId fields counters) w := by
  induction fields generalizing counters w with
  | nil => exact Prog.Ends.pure ⟨counters,rfl,Nat.le_refl _,by simp⟩
  | cons field fields ih =>
    refine Prog.Ends.bind ((ends_clearField env dataset matchKey runId counters field w).mono
      fun r w₁ hr => ?_)
    obtain ⟨after,rfl,⟨heq,hv⟩ | hmore⟩ := hr
    · refine (ih after w₁).mono fun r w₂ hr => ?_
      obtain ⟨last,rfl,hle,hrows⟩ := hr
      refine ⟨last,rfl,heq ▸ hle,fun hnone row => ?_⟩
      rw [hrows (hnone.trans heq.symm), hv, SecretTable.mem_deleteSecret, List.mem_cons]
      grind
    · refine (ih after w₁).mono fun r w₂ hr => ?_
      obtain ⟨last,rfl,hle,_⟩ := hr
      exact ⟨last,rfl,by omega,fun hnone => by omega⟩

end VaultRetentionService

namespace ImportApplyService

variable {V : Type} (service : ImportApplyService V) (ctx : ItemProcessContext V)

/-- A successful item has its secrets hydrated. -/
theorem hydrated_of_applied {item : PlanItem} {now : String} {st : ApplyState V}
    {adapter : OperationApplyAdapter V} (hadapter : ctx.adapter = some adapter)
    (h : (service.processItem ctx item now st).result.failedInc = 0) :
    ∃ source, adapter.hydratePayloadSource item st.vault = .ok source := by
  unfold processItem at h
  cases hsource : adapter.hydratePayloadSource item st.vault with
  | ok source => exact ⟨source,rfl⟩
  | error failure =>
    have hrefused : requestOf ctx item st = .error failure := by
      simp [requestOf, hadapter, OperationApplyAdapter.toRequest, hsource, Except.bind]
    rw [hrefused] at h
    simp [handleExceptionFailure, failItem] at h

/-- A successful item leaves the vault as its retention hook does. -/
theorem processItem_vault {item : PlanItem} {now : String} {st : ApplyState V}
    (hside : service.allowPostSuccessSideEffects = true)
    {hook : RetentionCall → V → Except PyException (Dict String Int) × V}
    (hhook : service.secretRetention = some hook)
    (h : (service.processItem ctx item now st).result.failedInc = 0) :
    (service.processItem ctx item now st).state.vault =
      (hook (retentionCallOf ctx item) st.vault).2 := by
  unfold processItem at h ⊢
  cases hspec : requestOf ctx item st with
  | error failure =>
    rw [hspec] at h
    simp [handleExceptionFailure, failItem] at h
  | ok spec =>
    simp only [hspec, ItemRun.after] at h ⊢
    cases hresult : (service.executor spec st.gateway).result with
    | error exc =>
      rw [hresult] at h
      simp [settleItem, handleBoundaryErrors, failItem] at h
    | ok result =>
      rw [hresult] at h
      by_cases hok : result.ok = true
      · simp only [settleItem, hok, if_true, handleSuccessItem, ItemRun.after, postWrite, hside,
          hhook] at h ⊢
        rcases hcall : hook (retentionCallOf ctx item) st.vault with ⟨e | counters,vault⟩
        · simp [hcall, handleExceptionFailure, failItem] at h
        · rfl
      · simp [settleItem, hok, handleFailedResult, failItem] at h

end ImportApplyService

section Hydration

variable {V : Type} {adapter : OperationApplyAdapter V} {item : PlanItem}

/-- Every secret field without a value of its own is read before the request is sent. -/
theorem hydrateFields_reads {vault : V} {fields : List String} {source result : Fields}
    (h : fields.foldlM (adapter.hydrateField item vault) source = .ok result) :
    ∀ field ∈ fields, (Fields.read source field).truthy = false →
      ∃ secret, adapter.getSecret vault (adapter.queryOf item field) = .ok (some secret) := by
  induction fields generalizing source with
  | nil => intro field hfield; cases hfield
  | cons first fields ih =>
    rw [List.foldlM_cons] at h
    intro field hfield hblank
    cases hfirst : adapter.hydrateField item vault source first with
    | error e =>
      rw [hfirst] at h
      cases h
    | ok source₁ =>
      rw [hfirst] at h
      have hstep := hfirst
      unfold OperationApplyAdapter.hydrateField at hstep
      by_cases hsame : field = first
      · subst hsame
        simp only [hblank, Bool.false_eq_true, if_false] at hstep
        cases hget : adapter.getSecret vault (adapter.queryOf item field) with
        | error failure => simp [hget] at hstep
        | ok secret =>
          cases secret with
          | none => simp [hget] at hstep
          | some secret => exact ⟨secret,rfl⟩
      · have hkept : Fields.read source₁ field = Fields.read source field := by
          dsimp only at hstep
          split at hstep
          · exact congrArg (Fields.read · field) (Except.ok.inj hstep).symm
          · split at hstep
            · cases hstep
            · split at hstep
              · rw [← Except.ok.inj hstep]
                exact Fields.read_set_ne _ _ (Ne.symm hsame)
              · cases hstep
        have hrest : field ∈ fields := (List.mem_cons.mp hfield).resolve_left hsame
        exact ih h field hrest (by rw [hkept]; exact hblank)

/-- What the adapter reads from the vault comes from the record that is chosen there. -/
theorem vaultSecrets_hydrated {envs : SecretQuery → VaultEnv} {crypto : VaultCrypto}
    {provider : VaultKeyProvider} {planRunId : Option String} {query : SecretQuery}
    {w : VaultWorld} {secret : String}
    (h : vaultSecrets envs crypto provider planRunId query w = .ok (some secret)) :
    ∃ r, HydratedFrom (envs query) crypto provider planRunId query w r secret := by
  have hends : Prog.Ends (fun r _ => r = .ok (some secret) →
      ∃ r, HydratedFrom (envs query) crypto provider planRunId query w r secret)
      (SecretVaultReadService.getSecret (envs query) crypto provider planRunId query.dataset
        query.field query.sourceRef none) w := by
    unfold SecretVaultReadService.getSecret
    cases href : normalizeSourceRef query.sourceRef with
    | none => exact Prog.Ends.pure (fun h => by cases h)
    | some matchKey =>
      simp only [buildLocatorHash_v1]
      refine ends_mapError (Prog.Ends.bind (Prog.Ends.ofExcept (Prog.Ends.bind
        ((ends_read (envs query) _ w).mono fun r w₁ hr => ?_))))
      obtain ⟨⟨hsame,_⟩,rfl | ⟨e,rfl,_⟩⟩ := hr
      · rw [← SecretTable.chosen, Option.none_or]
        cases hchosen : w.vault.secrets.chosen crypto.sha256 query.dataset query.field matchKey
            planRunId with
        | none => exact Prog.Ends.pure (fun h => by cases h)
        | some row =>
          have hopen : Prog.Ends (fun r _ => r = ((SecretVaultReadService.openRecord (envs query)
              crypto provider row).run w₁).1)
              (SecretVaultReadService.openRecord (envs query) crypto provider row) w₁ := rfl
          refine Prog.Ends.bind (hopen.mono fun r w₂ hr => ?_)
          cases r with
          | ok plain =>
            refine Prog.Ends.pure fun heq => ?_
            obtain rfl : plain = secret := by simpa [Except.mapError] using heq
            exact ⟨row,matchKey,href,hchosen,w₁,hsame,hr.symm⟩
          | error e => exact fun h => by cases h
      · exact fun h => by cases h
  refine hends ?_
  unfold vaultSecrets at h
  cases hr : ((SecretVaultReadService.getSecret (envs query) crypto provider planRunId query.dataset
      query.field query.sourceRef none).run w).1 with
  | ok found =>
    rw [hr] at h
    exact congrArg Except.ok (Except.ok.inj h)
  | error e =>
    rw [hr] at h
    cases h

end Hydration

section Clearing

variable {env : VaultEnv} {crypto : VaultCrypto} {call : RetentionCall} {w : VaultWorld}
  {counters : RetentionCounters} {matchKey : String}

/-- What a cleanup without an error leaves of the rows. -/
theorem mem_cleared (hmode : (normalizeSecretLifecycle call.secretLifecycle).mode = .ephemeral)
    (hdelete : (normalizeSecretLifecycle call.secretLifecycle).deleteOnSuccess = true)
    (href : normalizeSourceRef call.sourceRef = some matchKey)
    (hreport : ((VaultRetentionService.onApplySuccess env crypto call).run w).1 = .ok counters)
    (hnone : counters.errors = 0) (row : SecretRow) :
    row ∈ ((VaultRetentionService.onApplySuccess env crypto call).run w).2.vault.secrets.rows ↔
      row ∈ w.vault.secrets.rows ∧ ¬ (row.dataset = call.dataset ∧ row.field ∈ call.secretFields ∧
        row.locatorHash = crypto.sha256 (locatorText call.dataset row.field matchKey "v1") ∧
        row.locatorVersion = "v1" ∧ row.runId = call.runId) := by
  unfold VaultRetentionService.onApplySuccess at hreport ⊢
  by_cases hfields : call.secretFields = []
  · simp [hfields]
  · have hpolicy : ¬ ((normalizeSecretLifecycle call.secretLifecycle).mode ≠ .ephemeral ∨
        (normalizeSecretLifecycle call.secretLifecycle).deleteOnSuccess = false) := by
      simp [hmode, hdelete]
    simp only [if_neg hfields, if_neg hpolicy, href] at hreport ⊢
    obtain ⟨after,hafter,_,hrows⟩ := VaultRetentionService.ends_clearFields env call.dataset
      matchKey call.runId call.secretFields .zero w
    obtain rfl := Except.ok.inj (hafter.symm.trans hreport)
    exact hrows hnone row

/-- Nothing of a field is found after the cleanup exactly if all that was found was of the run. -/
theorem found_cleared_iff
    (hmode : (normalizeSecretLifecycle call.secretLifecycle).mode = .ephemeral)
    (hdelete : (normalizeSecretLifecycle call.secretLifecycle).deleteOnSuccess = true)
    (href : normalizeSourceRef call.sourceRef = some matchKey)
    (hreport : ((VaultRetentionService.onApplySuccess env crypto call).run w).1 = .ok counters)
    (hnone : counters.errors = 0) {field : String} (hfield : field ∈ call.secretFields) :
    ((VaultRetentionService.onApplySuccess env crypto call).run w).2.vault.secrets.found
        crypto.sha256 call.dataset field matchKey = [] ↔
      StoredByRun crypto w.vault.secrets call.dataset field call.sourceRef call.runId := by
  have hrows := mem_cleared hmode hdelete href hreport hnone
  constructor
  · intro hgone k hk r hr
    obtain rfl := Option.some.inj (href.symm.trans hk)
    obtain ⟨hmem,hd,hf,hfound⟩ := SecretTable.mem_found.mp hr
    have hdeleted : r ∉ ((VaultRetentionService.onApplySuccess env crypto
        call).run w).2.vault.secrets.rows := by
      intro hin
      have hstill := SecretTable.mem_found.mpr ⟨hin,hd,hf,hfound⟩
      rw [hgone] at hstill
      cases hstill
    rw [hrows] at hdeleted
    have hchosen := not_not.mp fun hnot => hdeleted ⟨hmem,hnot⟩
    rw [hf] at hchosen
    exact hchosen.2.2
  · intro hall
    rw [List.eq_nil_iff_forall_not_mem]
    intro r hr
    obtain ⟨hmem,hd,hf,hfound⟩ := SecretTable.mem_found.mp hr
    obtain ⟨hbefore,hkept⟩ := (hrows r).mp hmem
    have hstored := hall matchKey href r (SecretTable.mem_found.mpr ⟨hbefore,hd,hf,hfound⟩)
    exact hkept ⟨hd,hf ▸ hfield,by rw [hf]; exact hstored.1,hstored.2⟩

end Clearing

/-- After an item with ephemeral secrets was applied and its cleanup reported no error, the
hydrated secrets are gone exactly if all that a read could find was stored by the run of the plan. -/
theorem secrets_gone_iff (envs : SecretQuery → VaultEnv) (env : VaultEnv) (crypto : VaultCrypto)
    (provider : VaultKeyProvider) (service : ImportApplyService VaultWorld)
    (ctx : ItemProcessContext VaultWorld) (adapter : OperationApplyAdapter VaultWorld)
    (item : PlanItem) (now : String) (st : ApplyState VaultWorld) (counters : RetentionCounters)
    (hadapter : ctx.adapter = some adapter) (hdataset : adapter.dataset = ctx.dataset)
    (hsecrets : adapter.secrets = some (vaultSecrets envs crypto provider ctx.planRunId))
    (hside : service.allowPostSuccessSideEffects = true)
    (hhook : service.secretRetention = some (retentionHook env crypto))
    (hmode : (normalizeSecretLifecycle item.secretLifecycle).mode = .ephemeral)
    (hdelete : (normalizeSecretLifecycle item.secretLifecycle).deleteOnSuccess = true)
    (happlied : (service.processItem ctx item now st).result.failedInc = 0)
    (hreport : ((VaultRetentionService.onApplySuccess env crypto
      (ImportApplyService.retentionCallOf ctx item)).run st.vault).1 = .ok counters)
    (hnone : counters.errors = 0) :
    (∀ field, item.Hydrates field → SecretGone envs crypto provider ctx.planRunId adapter item field
        st.vault (service.processItem ctx item now st).state.vault) ↔
      ∀ field, item.Hydrates field → StoredByRun crypto st.vault.vault.secrets ctx.dataset field
        item.sourceRef ctx.planRunId := by
  have hvault : (service.processItem ctx item now st).state.vault =
      ((VaultRetentionService.onApplySuccess env crypto
        (ImportApplyService.retentionCallOf ctx item)).run st.vault).2 :=
    service.processItem_vault ctx hside hhook happlied
  have hread : ∀ field, item.Hydrates field → ∃ r secret,
      adapter.getSecret st.vault (adapter.queryOf item field) = .ok (some secret) ∧
      HydratedFrom (envs (adapter.queryOf item field)) crypto provider ctx.planRunId
        (adapter.queryOf item field) st.vault r secret := by
    intro field hfield
    obtain ⟨source,hsource⟩ := service.hydrated_of_applied ctx hadapter happlied
    obtain ⟨secret,hget⟩ := hydrateFields_reads hsource field hfield.1 hfield.2
    have hvaultRead := hget
    simp only [OperationApplyAdapter.getSecret, hsecrets] at hvaultRead
    obtain ⟨r,hfrom⟩ := vaultSecrets_hydrated hvaultRead
    exact ⟨r,secret,hget,hfrom⟩
  refine forall_congr' fun field => forall_congr' fun hfield => ?_
  obtain ⟨r,secret,hget,hfrom⟩ := hread field hfield
  obtain ⟨matchKey,href,hchosen,_⟩ := id hfrom
  have hfound := found_cleared_iff hmode hdelete href hreport hnone hfield.1
  rw [← hvault] at hfound
  refine Iff.trans ?_ hfound
  have hname : normalizeSourceRef item.sourceRef = some matchKey := href
  constructor
  · intro hgone
    have hunread := hgone.unreadable .quiet provider none none VaultEnv.quiet_calm
    rw [hdataset] at hunread
    exact (getSecret_none_iff VaultEnv.quiet_calm _ hname none none _).mp hunread
  · intro hempty
    refine ⟨⟨r,secret,hget,hfrom,?_⟩,?_⟩
    · intro r' hr' hid
      have hrows := mem_cleared hmode hdelete href hreport hnone r'
      rw [← hvault] at hrows
      have hbefore := (hrows.mp hr').1
      rw [show (adapter.queryOf item field).dataset = ctx.dataset from hdataset] at hchosen
      have hchosenMem := SecretTable.chosen_mem_found (normalizeSourceRef_ne href) hchosen
      obtain ⟨hmem,hd,hf,hfoundBy⟩ := SecretTable.mem_found.mp hchosenMem
      obtain rfl : r' = r := List.inj_on_of_nodup_map st.vault.vault.secrets.ids hbefore hmem hid
      have hstill : r' ∈ (service.processItem ctx item now st).state.vault.vault.secrets.found
          crypto.sha256 ctx.dataset field matchKey :=
        SecretTable.mem_found.mpr ⟨hr',hd,hf,hfoundBy⟩
      exact List.not_mem_nil (hempty ▸ hstill)
    · intro reader other defaultRunId runId hcalm
      rw [hdataset]
      exact (getSecret_none_iff hcalm other hname defaultRunId runId _).mpr hempty

section Hire

/-- A vault with the password of E1, stored by run_1. -/
def hireVault : VaultWorld :=
  ((SecretVaultWriteService.putMany .quiet .transparent (.static vaultKey []) "employees" "E1"
    [("password","spring")] (some "run_1")).run .empty).2

def hireItem : PlanItem :=
  { rowId := "line:2", lineNo := none, op := .create, targetId := .str "u-1"
    desiredState := [("_id",.str "u-1")], changes := []
    sourceRef := some [("match_key",.str "E1")], secretFields := ["password"]
    secretLifecycle := some [("mode",.str "ephemeral")] }

def hireAdapter (run : Option String) : OperationApplyAdapter VaultWorld :=
  ⟨"users.upsert",fun source => .ok source,"employees",.none,
    some (vaultSecrets (fun _ => .quiet) .transparent (.static vaultKey []) run)⟩

def hireContext (run : Option String) : ItemProcessContext VaultWorld :=
  ⟨[],some (hireAdapter run),"employees",run,10⟩

def hireService : ImportApplyService VaultWorld :=
  { executor := fun _ state =>
      ⟨.ok ⟨true,.int 200,.null,.none,none,none,none,none⟩,state,[]⟩
    identitySyncer := none
    secretRetention := some (retentionHook .quiet .transparent)
    allowPostSuccessSideEffects := true }

def hireState : ApplyState VaultWorld :=
  ⟨⟨0,0,0,0⟩,IdentityDb.empty,hireVault,[],[],[],[],false⟩

/-- The plan of a later run hires E1 with the password that an earlier run stored: the cleanup
deletes nothing, reports no error, and the password can still be read. -/
theorem later_plan_keeps_password :
    (hireService.processItem (hireContext (some "run_2")) hireItem "now" hireState).result.failedInc
      = 0 ∧
    ((VaultRetentionService.onApplySuccess .quiet .transparent (ImportApplyService.retentionCallOf
      (hireContext (some "run_2")) hireItem)).run hireState.vault).1 = .ok ⟨0,0,1,0⟩ ∧
    ¬ ∀ field, hireItem.Hydrates field → SecretGone (fun _ => .quiet) .transparent
      (.static vaultKey []) (some "run_2") (hireAdapter (some "run_2")) hireItem field
      hireState.vault
      (hireService.processItem (hireContext (some "run_2")) hireItem "now" hireState).state.vault := by
  have hshown : (hireService.processItem (hireContext (some "run_2")) hireItem "now"
        hireState).result.failedInc = 0 ∧
      ((VaultRetentionService.onApplySuccess .quiet .transparent (ImportApplyService.retentionCallOf
        (hireContext (some "run_2")) hireItem)).run hireState.vault).1 = .ok ⟨0,0,1,0⟩ ∧
      ((SecretVaultReadService.getSecret .quiet .transparent (.static vaultKey []) none "employees"
        "password" hireItem.sourceRef none).run (hireService.processItem (hireContext (some "run_2"))
          hireItem "now" hireState).state.vault).1 ≠ .ok none := by
    decide
  refine ⟨hshown.1,hshown.2.1,fun hgone => hshown.2.2 ?_⟩
  have hpassword := hgone "password" ⟨List.mem_cons_self,by decide⟩
  exact hpassword.unreadable .quiet (.static vaultKey []) none none VaultEnv.quiet_calm

theorem secrets_gone_iff_hire :
    (∀ field, hireItem.Hydrates field → SecretGone (fun _ => .quiet) .transparent
      (.static vaultKey []) (some "run_1") (hireAdapter (some "run_1")) hireItem field
      hireState.vault
      (hireService.processItem (hireContext (some "run_1")) hireItem "now"
        hireState).state.vault) ↔
      ∀ field, hireItem.Hydrates field → StoredByRun .transparent hireState.vault.vault.secrets
        "employees" field hireItem.sourceRef (some "run_1") :=
  secrets_gone_iff (fun _ => .quiet) .quiet .transparent (.static vaultKey []) hireService
    (hireContext (some "run_1")) (hireAdapter (some "run_1")) hireItem "now" hireState ⟨1,0,0,0⟩
    rfl rfl rfl rfl rfl (by decide) (by decide) (by decide)
    (by decide) rfl

end Hire

end NexusEtl
