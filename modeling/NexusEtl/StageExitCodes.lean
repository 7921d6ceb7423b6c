import NexusEtl.DedupRuns
import NexusEtl.DiagnosticsConserved
import NexusEtl.StageReports

/-!
# What the exit codes of the stage commands tell

The stage commands run a prefix of the same pipeline, and each looks for errors of its own stage
and of the topology filter. Over a whole run an exit code is zero if and only if that stage wrote
no error: what a row lost at an earlier stage does not count, a source that broke off counts
nowhere, and the matcher passes over the rows that the filter blocked.
-/

set_option autoImplicit false

namespace NexusEtl.StageReports
open NexusEtl.Library

variable {ρ : Type}

/-- Some of the errors are of the given stages. -/
def Within (stages : List DiagnosticStage) (errors : List DiagnosticItem) : Prop :=
  ∃ e ∈ errors, e.stage ∈ stages

namespace Within

variable {stages : List DiagnosticStage} {stage : DiagnosticStage} {old new : List DiagnosticItem}

/-- A stage among the given ones shows in its errors. -/
theorem grown (h : Grows stage old new) (hin : stage ∈ stages) :
    Within stages new ↔ Within stages old ∨ new ≠ old := by
  obtain ⟨added,rfl,hadded⟩ := h
  constructor
  · rintro ⟨e,he,hstage⟩
    rcases List.mem_append.mp he with he | he
    · exact .inl ⟨e,he,hstage⟩
    · exact .inr fun hsame => by simp [List.append_right_eq_self.mp hsame] at he
  · rintro (⟨e,he,hstage⟩ | hne)
    · exact ⟨e,List.mem_append_left _ he,hstage⟩
    · obtain ⟨e,he⟩ := List.exists_mem_of_ne_nil added fun hnil => hne (by simp [hnil])
      exact ⟨e,List.mem_append_right _ he,hadded e he ▸ hin⟩

/-- A stage that is not one of the given ones adds nothing to them. -/
theorem kept (h : Grows stage old new) (hout : stage ∉ stages) :
    Within stages new ↔ Within stages old := by
  obtain ⟨added,rfl,hadded⟩ := h
  constructor
  · rintro ⟨e,he,hstage⟩
    rcases List.mem_append.mp he with he | he
    · exact ⟨e,he,hstage⟩
    · exact (hout (hadded e he ▸ hstage)).elim
  · rintro ⟨e,he,hstage⟩
    exact ⟨e,List.mem_append_left _ he,hstage⟩

theorem none_of_own (h : ∀ e ∈ new, e.stage = stage) (hout : stage ∉ stages) :
    ¬Within stages new := by
  rintro ⟨e,he,hstage⟩
  exact hout (h e he ▸ hstage)

end Within

/-! ## The reporters -/

/-- A reporter that leaves upstream diagnostics out fails a row for the errors of its stages. -/
theorem fails_iff {reporter : StageResultReporter ρ}
    (hup : reporter.includeUpstreamDiagnostics = false) (hstages : reporter.reportStages ≠ [])
    (forceFailed : Bool) (result : TransformResult ρ) :
    reporter.fails { forceFailed := forceFailed } (some result) = true ↔
      forceFailed = true ∨ Within reporter.reportStages result.errors := by
  simp [StageResultReporter.fails, StageResultReporter.inScope,
    StageResultReporter.filterForReport, hup, hstages, Within]

/-- Where only rows without errors are skipped, the same errors block a row. -/
theorem blocks_iff {reporter : StageResultReporter ρ}
    (hup : reporter.includeUpstreamDiagnostics = false) (hstages : reporter.reportStages ≠ [])
    (hskip : ∀ result, reporter.strategy.shouldSkip (some result) = true → result.errors = [])
    (result : TransformResult ρ) :
    blocks reporter (fun _ => {}) result = true ↔ Within reporter.reportStages result.errors := by
  have hfails := fails_iff hup hstages false result
  rw [blocks, Bool.and_eq_true, hfails]
  simp only [Bool.false_eq_true, false_or, and_iff_right_iff_imp, Bool.not_eq_eq_eq_not,
    Bool.not_true]
  rintro ⟨e,he,_⟩
  by_contra hskipped
  rw [hskip result (Bool.not_eq_false _ ▸ hskipped)] at he
  cases he

theorem upstream_new (profile : ReportPolicyProfile) (includeItems : Bool)
    (contextKey : ReportContextKey) (okLabel failedLabel : String) (strategy : ReportStrategy ρ)
    (reportStage : Option DiagnosticStage) (reportStages : List DiagnosticStage) :
    (StageResultReporter.new profile includeItems contextKey okLabel failedLabel strategy
      reportStage reportStages false).includeUpstreamDiagnostics = false := Bool.and_false _

theorem blocks_mapping (profile : ReportPolicyProfile) (includeItems : Bool)
    (result : TransformResult Fields) :
    blocks (mappingReporter profile includeItems) (fun _ => {}) result = true ↔
      Within [.map] result.errors :=
  blocks_iff (upstream_new ..) (by simp [StageResultReporter.new])
    (fun _ h => Bool.noConfusion h) result

theorem blocks_normalize (profile : ReportPolicyProfile) (includeItems : Bool)
    (result : TransformResult Fields) :
    blocks (normalizeReporter profile includeItems) (fun _ => {}) result = true ↔
      Within [.normalize,.topologyValidate] result.errors :=
  blocks_iff (upstream_new ..) (by simp [StageResultReporter.new])
    (fun _ h => Bool.noConfusion h) result

theorem blocks_enrich (profile : ReportPolicyProfile) (includeItems : Bool)
    (payloadBuilder : TransformResult Fields → Option Fields) (result : TransformResult Fields) :
    blocks (enrichReporter profile includeItems payloadBuilder) (fun _ => {}) result = true ↔
      Within [.enrich,.topologyValidate] result.errors :=
  blocks_iff (upstream_new ..) (by simp [StageResultReporter.new])
    (fun _ h => Bool.noConfusion h) result

theorem blocks_resolve (profile : ReportPolicyProfile) (includeItems : Bool)
    (asdict : ResolvedRow → Fields) (result : TransformResult ResolvedRow) :
    blocks (resolveReporter profile includeItems asdict) (fun _ => {}) result = true ↔
      Within [.resolve,.topologyValidate] result.errors := by
  refine blocks_iff (upstream_new ..) (by simp [StageResultReporter.new]) ?_ result
  intro r h
  have hskip : shouldSkipResolveResult r = true := h
  simp only [shouldSkipResolveResult, Bool.and_eq_true, List.isEmpty_iff] at hskip
  exact hskip.1.1

/-- What blocks a row in the report of the matcher: that it was dropped as a duplicate, or an
error, unless nothing of the row came to the matcher. -/
theorem blocks_match (profile : ReportPolicyProfile) (includeItems : Bool)
    (asdict : MatchedRow → Fields) (result : TransformResult MatchedRow) :
    blocks (matchReporter profile includeItems asdict)
        (fun r => { forceFailed := droppedByMatch r }) result = true ↔
      shouldSkipMatchResult result = false ∧
        (droppedByMatch result = true ∨ Within [.matching,.topologyValidate] result.errors) := by
  have hskip : (matchReporter profile includeItems asdict).strategy.shouldSkip (some result) =
      shouldSkipMatchResult result := rfl
  have hfails : (matchReporter profile includeItems asdict).fails
      { forceFailed := droppedByMatch result } (some result) = true ↔
        droppedByMatch result = true ∨ Within [.matching,.topologyValidate] result.errors :=
    fails_iff (upstream_new ..) (by simp [StageResultReporter.new]) _ result
  rw [blocks, Bool.and_eq_true, hskip, hfails, Bool.not_eq_true']

/-! ## The rows of a run -/

section Rows
variable {D : Type} {p : PlanPipeline D} {r : Enriching}

theorem atFilter_row (h : (p.atFilter r).errors ≠ (p.atMap r).errors) :
    (p.atFilter r).row = none := by
  have hpassed : ∀ result : Enriching,
      (SourceTopologyFilterStage.passed p.catalog p.validation result).errors ≠ result.errors →
        (SourceTopologyFilterStage.passed p.catalog p.validation result).row = none := by
    intro result
    unfold SourceTopologyFilterStage.passed
    split
    · simp
    · split
      · simp
      · unfold SourceTopologyFilterStage.step
        split
        · simp
        · unfold SourceTopologyFilterStage.judge
          split
          · simp
          · split
            · simp
            · unfold SourceTopologyFilterStage.mark
              dsimp only
              split <;> simp
  exact hpassed (p.atMap r) h

theorem normalizeStage_row {normalizer : NormalizerCore} {collected : Enriching}
    (h : collected.row = none) : normalizeStage normalizer collected = collected := by
  unfold normalizeStage NormalizerCore.normalize
  split
  · rfl
  · rw [h]

theorem enrichStage_none {enricher : EnricherCore D} {deps : D} {catalog : ErrorCatalog}
    {collected : Enriching} (h : collected.row = none) :
    enrichStage enricher deps catalog collected = collected := by
  have hsame : enricher.enrich deps collected = .ok collected := by simp [EnricherCore.enrich, h]
  simp [enrichStage, hsame, diagnosticBoundary, TransformResult.addErrors]

theorem matchStage_none {core : MatchCore} {catalog : ErrorCatalog} {store : DedupStore}
    {enriched : Enriching} (h : enriched.row = none) :
    matchStage core catalog store enriched = (enriched.withoutRow,store) := by
  simp [matchStage, h]

theorem matched_none {deps : D} {store : DedupStore} (h : (p.atFilter r).row = none) :
    p.atMatch deps store r = (p.atFilter r).withoutRow := by
  have hnormalize : p.atNormalize r = p.atFilter r := normalizeStage_row h
  have henrich : p.atEnrich deps r = p.atFilter r :=
    (enrichStage_none (hnormalize ▸ h)).trans hnormalize
  rw [PlanPipeline.atMatch, henrich, matchStage_none h]

/-- A result as the extractor gives it. -/
structure Extracted (r : Enriching) : Prop where
  errors : ∀ e ∈ r.errors, e.stage = .extract
  warnings : r.warnings = []

theorem extracted_of_mem {catalog : ErrorCatalog} {records : List SourceRecord}
    {failure : Option PyException} (h : r ∈ extract catalog records failure) : Extracted r := by
  simp only [extract, List.mem_append, List.mem_map, Option.mem_toList,
    Option.map_eq_some_iff] at h
  rcases h with ⟨_,_,rfl⟩ | ⟨_,_,rfl⟩
  · exact ⟨by simp [extracted],rfl⟩
  · exact ⟨by simp [sourceFailure],rfl⟩

variable (hr : Extracted r)
include hr

theorem within_atMap : Within [.map] (p.atMap r).errors ↔ (p.atMap r).errors ≠ r.errors :=
  (Within.grown (mapStage_logs p.mapper p.catalog r).errors (by decide)).trans
    (or_iff_right (Within.none_of_own hr.errors (by decide)))

/-- The topology filter shows behind the map stage. -/
theorem within_atFilter {stages : List DiagnosticStage} (hmap : .map ∉ stages)
    (hextract : .extract ∉ stages) (hfilter : .topologyValidate ∈ stages) :
    Within stages (p.atFilter r).errors ↔ (p.atFilter r).errors ≠ (p.atMap r).errors := by
  have hnone : ¬Within stages (p.atMap r).errors := fun h => Within.none_of_own hr.errors hextract
    ((Within.kept (mapStage_logs p.mapper p.catalog r).errors hmap).mp h)
  exact (Within.grown (SourceTopologyFilterStage.passed_logs p.catalog p.validation
    (p.atMap r)).1.errors hfilter).trans (or_iff_right hnone)

theorem within_atNormalize :
    Within [.normalize,.topologyValidate] (p.atNormalize r).errors ↔
      (p.atFilter r).errors ≠ (p.atMap r).errors ∨
        (p.atNormalize r).errors ≠ (p.atFilter r).errors :=
  (Within.grown (normalizeStage_logs p.normalizer (p.atFilter r)).1.errors (by decide)).trans
    (or_congr_left (within_atFilter hr (by decide) (by decide) (by decide)))

/-- Behind the normalizer, a scope without its stage sees no more than before it. -/
theorem within_normalized {stages : List DiagnosticStage} (hmap : .map ∉ stages)
    (hextract : .extract ∉ stages) (hfilter : .topologyValidate ∈ stages)
    (hnormalize : .normalize ∉ stages) :
    Within stages (p.atNormalize r).errors ↔ (p.atFilter r).errors ≠ (p.atMap r).errors :=
  (Within.kept (normalizeStage_logs p.normalizer (p.atFilter r)).1.errors hnormalize).trans
    (within_atFilter hr hmap hextract hfilter)

theorem within_atEnrich (deps : D) :
    Within [.enrich,.topologyValidate] (p.atEnrich deps r).errors ↔
      (p.atFilter r).errors ≠ (p.atMap r).errors ∨
        (p.atEnrich deps r).errors ≠ (p.atNormalize r).errors :=
  (Within.grown (enrichStage_logs p.enricher deps p.catalog (p.atNormalize r)).1.errors
    (by decide)).trans (or_congr_left (within_normalized hr (by decide) (by decide) (by decide)
      (by decide)))

theorem within_enriched (deps : D) {stages : List DiagnosticStage} (hmap : .map ∉ stages)
    (hextract : .extract ∉ stages) (hfilter : .topologyValidate ∈ stages)
    (hnormalize : .normalize ∉ stages) (henrich : .enrich ∉ stages) :
    Within stages (p.atEnrich deps r).errors ↔ (p.atFilter r).errors ≠ (p.atMap r).errors :=
  (Within.kept (enrichStage_logs p.enricher deps p.catalog (p.atNormalize r)).1.errors
    henrich).trans (within_normalized hr hmap hextract hfilter hnormalize)

/-- Nothing of the matcher is among the diagnostics that a row brings to it. -/
theorem atFilter_unmatched :
    (∀ e ∈ (p.atFilter r).errors, e.stage ≠ .matching) ∧
      ∀ w ∈ (p.atFilter r).warnings, w.stage ≠ .matching := by
  have hmapped := mapStage_logs p.mapper p.catalog r
  have hfiltered := (SourceTopologyFilterStage.passed_logs p.catalog p.validation (p.atMap r)).1
  constructor
  · refine hfiltered.errors.avoids (by decide) (hmapped.errors.avoids (by decide) ?_)
    intro e he
    rw [hr.errors e he]
    decide
  · refine hfiltered.warnings.avoids (by decide) (hmapped.warnings.avoids (by decide) ?_)
    simp [hr.warnings]

/-- A row that the filter blocked does not come to the matcher, and its report skips it. -/
theorem filtered_skipped {deps : D} {store : DedupStore}
    (hdropped : droppedByMatch (p.atMatch deps store r) = false)
    (h : (p.atFilter r).errors ≠ (p.atMap r).errors) :
    shouldSkipMatchResult (p.atMatch deps store r) = true := by
  obtain ⟨herrors,hwarnings⟩ := atFilter_unmatched (p := p) hr
  rw [shouldSkipMatchResult, hdropped, matched_none (atFilter_row h)]
  have hnone : hasMatchStageDiagnostics
      ((p.atFilter r).withoutRow : TransformResult MatchedRow) = false := by
    simp only [hasMatchStageDiagnostics, List.any_eq_false, List.mem_append, beq_iff_eq]
    rintro d (hd | hd)
    · exact herrors d hd
    · exact hwarnings d hd
  simp [hnone]

theorem blocks_atMatch (profile : ReportPolicyProfile) (includeItems : Bool)
    (asdict : MatchedRow → Fields) (deps : D) (store : DedupStore) :
    blocks (matchReporter profile includeItems asdict)
        (fun r => { forceFailed := droppedByMatch r }) (p.atMatch deps store r) = true ↔
      droppedByMatch (p.atMatch deps store r) = true ∨
        (p.atMatch deps store r).errors ≠ (p.atEnrich deps r).errors := by
  have hlogs := (matchStage_logs p.matcher p.catalog store (p.atEnrich deps r)).1
  have hwithin : Within [.matching,.topologyValidate] (p.atMatch deps store r).errors ↔
      (p.atFilter r).errors ≠ (p.atMap r).errors ∨
        (p.atMatch deps store r).errors ≠ (p.atEnrich deps r).errors :=
    (Within.grown hlogs.errors (by decide)).trans (or_congr_left
      (within_enriched hr deps (by decide) (by decide) (by decide) (by decide) (by decide)))
  rw [blocks_match, hwithin]
  cases hdropped : droppedByMatch (p.atMatch deps store r) with
  | true => simp [shouldSkipMatchResult, hdropped]
  | false =>
    simp only [Bool.false_eq_true, false_or]
    constructor
    · rintro ⟨hskip,hfiltered | hmatched⟩
      · rw [filtered_skipped hr hdropped hfiltered] at hskip
        cases hskip
      · exact hmatched
    · intro hmatched
      obtain ⟨added,hadded,hstage⟩ := hlogs.errors
      obtain ⟨e,he⟩ := List.exists_mem_of_ne_nil added fun hnil =>
        hmatched (by rw [PlanPipeline.atMatch, hadded, hnil, List.append_nil])
      have hmem : e ∈ (p.atMatch deps store r).errors := by
        rw [PlanPipeline.atMatch, hadded]
        exact List.mem_append_right _ he
      have hdiagnostic : hasMatchStageDiagnostics (p.atMatch deps store r) = true := by
        rw [hasMatchStageDiagnostics, List.any_eq_true]
        exact ⟨e,List.mem_append_left _ hmem,beq_iff_eq.mpr (hstage e he)⟩
      exact ⟨by simp [shouldSkipMatchResult, hdiagnostic],.inr hmatched⟩

/-- What the resolver writes for a row, or the filter wrote for one that did not reach it. -/
theorem within_resolveRow (deps : D) (store : DedupStore) (stage : ResolveStage) (clock : Clock)
    (db : IdentityDb) :
    Within [.resolve,.topologyValidate]
        (stage.resolveRow clock db (p.atMatch deps store r)).1.errors ↔
      (p.atFilter r).errors ≠ (p.atMap r).errors ∨
        (p.atMatch deps store r).row.isSome ∧
          (stage.resolveRow clock db (p.atMatch deps store r)).1.errors ≠ [] := by
  have hlogs := (matchStage_logs p.matcher p.catalog store (p.atEnrich deps r)).1
  have hmatched : Within [.resolve,.topologyValidate] (p.atMatch deps store r).errors ↔
      (p.atFilter r).errors ≠ (p.atMap r).errors :=
    (Within.kept hlogs.errors (by decide)).trans
      (within_enriched hr deps (by decide) (by decide) (by decide) (by decide) (by decide))
  cases hrow : (p.atMatch deps store r).row with
  | none =>
    have hpassed : (stage.resolveRow clock db (p.atMatch deps store r)).1 =
        (p.atMatch deps store r).withoutRow := by simp [ResolveStage.resolveRow, hrow]
    rw [hpassed]
    simpa using hmatched
  | some row =>
    have hsome : (p.atMatch deps store r).row.isSome := by rw [hrow]; rfl
    have hfilter : (p.atFilter r).errors = (p.atMap r).errors := by
      by_contra hne
      rw [matched_none (atFilter_row hne)] at hsome
      cases hsome
    have hown : ∀ e ∈ (stage.resolveRow clock db (p.atMatch deps store r)).1.errors,
        e.stage = .resolve := resolveRow_stage hsome
    simp only [hfilter, ne_eq, not_true_eq_false, false_or, Option.isSome_some, true_and]
    constructor
    · rintro ⟨e,he,_⟩ hnil
      rw [hnil] at he
      cases he
    · intro hne
      obtain ⟨e,he⟩ := List.exists_mem_of_ne_nil _ hne
      exact ⟨e,he,by simp [hown e he]⟩

end Rows

/-! ## The exit codes -/

theorem exitCode_eq_zero (call : StageCall) : call.run.result.exitCode = 0 ↔
    call.run.stats.failedRows = 0 ∧ call.aside.2 = 0 := by
  rw [call.run_booked.2]
  split <;> omega

theorem countP_blocks {reporter : StageResultReporter ρ}
    {argsOf : TransformResult ρ → ProcessArgs} {results : List (TransformResult ρ)} :
    (processAll reporter argsOf results {}).stats.failedRows = 0 ↔
      ∀ (k : Nat) result, results[k]? = some result → ¬blocks reporter argsOf result = true := by
  rw [processAll_failedRows, Nat.zero_add, List.countP_eq_zero]
  exact ⟨fun h k result hk => h result (List.mem_of_getElem? hk),fun h result hresult =>
    (List.getElem?_of_mem hresult).elim fun k hk => h k result hk⟩

/-- What a stage command is called with beside its results. -/
structure StageOptions where
  profile : ReportPolicyProfile
  includeItems : Bool
  payloadBuilder : TransformResult Fields → Option Fields
  matchedAsdict : MatchedRow → Fields
  resolvedAsdict : ResolvedRow → Fields
  pendingOnExpire : Option PendingOnExpire

section Runs
variable {D : Type} (p : PlanPipeline D) (deps : Nat → D) (store : DedupStore)
  (source : List Enriching)

/-- The results of the resolve command, under a schedule of the clock and of the sweeps. -/
def resolveResults (schedule : Nat → Tick) (db : IdentityDb) : List (TransformResult ResolvedRow) :=
  ((planningStage p.resolver p.catalog (p.matched deps store source)).resolveStream schedule 0 db
    (p.matched deps store source)).1

/-- The results with the expired links that the loop of the command was handed beside them. -/
def resolveFeed (schedule : Nat → Tick) (db : IdentityDb) (earlier : List PendingLink)
    (drained : Nat → List PendingLink) (last : List PendingLink) : ResolveFeed :=
  ⟨earlier,(resolveResults p deps store source schedule db).mapIdx fun k result =>
    (result,drained k),last⟩

variable {p deps store source}

theorem resolveFeed_results {schedule : Nat → Tick} {db : IdentityDb} {earlier : List PendingLink}
    {drained : Nat → List PendingLink} {last : List PendingLink} :
    (resolveFeed p deps store source schedule db earlier drained last).results.map Prod.fst =
      resolveResults p deps store source schedule db := by
  apply List.ext_getElem?
  intro k
  rw [resolveFeed, List.getElem?_map, List.getElem?_mapIdx, Option.map_map]
  exact congrFun Option.map_id _

/-- When each stage command ends with exit code zero. -/
structure ExitCodes (p : PlanPipeline D) (deps : Nat → D) (store : DedupStore)
    (source : List Enriching) (options : StageOptions) : Prop where
  mapping : (runMapping options.profile options.includeItems (p.mapped source)).result.exitCode = 0 ↔
    ∀ r ∈ source, (p.atMap r).errors = r.errors
  normalize : (runNormalize options.profile options.includeItems
      (p.normalized source)).result.exitCode = 0 ↔
    ∀ r ∈ source, (p.atFilter r).errors = (p.atMap r).errors ∧
      (p.atNormalize r).errors = (p.atFilter r).errors
  enrich : (runEnrich options.profile options.includeItems options.payloadBuilder
      (p.enriched deps source)).result.exitCode = 0 ↔
    ∀ k r, source[k]? = some r → (p.atFilter r).errors = (p.atMap r).errors ∧
      (p.atEnrich (deps k) r).errors = (p.atNormalize r).errors
  matching : (runMatch options.profile options.includeItems options.matchedAsdict
      (p.matched deps store source)).result.exitCode = 0 ↔
    ∀ k r, source[k]? = some r →
      droppedByMatch (p.atMatch (deps k) (p.storeAt deps store source k) r) = false ∧
        (p.atMatch (deps k) (p.storeAt deps store source k) r).errors =
          (p.atEnrich (deps k) r).errors
  resolve : ∀ (schedule : Nat → Tick) (db : IdentityDb) (earlier : List PendingLink)
      (drained : Nat → List PendingLink) (last : List PendingLink),
    (runResolve options.profile options.includeItems options.resolvedAsdict p.catalog
        options.pendingOnExpire
        (resolveFeed p deps store source schedule db earlier drained last)).result.exitCode = 0 ↔
      expiredBlocked (options.pendingOnExpire.getD .error)
          (resolveFeed p deps store source schedule db earlier drained last).expired = 0 ∧
        ∀ k r resolved, source[k]? = some r →
          (resolveResults p deps store source schedule db)[k]? = some resolved →
            (p.atFilter r).errors = (p.atMap r).errors ∧
              ((p.atMatch (deps k) (p.storeAt deps store source k) r).row.isSome →
                resolved.errors = [])

/-- A claim about the rows of a run, position by position. -/
theorem forall_rows {P : Enriching → Prop} :
    (∀ r ∈ source, P r) ↔ ∀ (k : Nat) r, source[k]? = some r → P r :=
  ⟨fun h _ r hk => h r (List.mem_of_getElem? hk),fun h r hr =>
    (List.getElem?_of_mem hr).elim fun _ hk => h _ r hk⟩

/-- The positions of the results of a stage are those of its source. -/
theorem forall_results {results : List (TransformResult ρ)} {rowAt : Nat → Enriching → TransformResult ρ}
    (hget : ∀ k, results[k]? = source[k]?.map (rowAt k)) {P : Nat → TransformResult ρ → Prop} :
    (∀ (k : Nat) result, results[k]? = some result → P k result) ↔
      ∀ k r, source[k]? = some r → P k (rowAt k r) := by
  constructor
  · intro h k r hk
    exact h k (rowAt k r) (by rw [hget, hk]; rfl)
  · intro h k result hk
    rw [hget, Option.map_eq_some_iff] at hk
    obtain ⟨r,hr,rfl⟩ := hk
    exact h k r hr

theorem published_eq_zero {reporter : StageResultReporter Fields} {stages : List DiagnosticStage}
    {results : List (TransformResult Fields)} {rowAt : Nat → Enriching → TransformResult Fields}
    (hblocks : ∀ result, blocks reporter (fun _ => {}) result = true ↔ Within stages result.errors)
    (hget : ∀ k, results[k]? = source[k]?.map (rowAt k)) :
    (publish reporter (processAll reporter (fun _ => {}) results {})).result.exitCode = 0 ↔
      ∀ k r, source[k]? = some r → ¬Within stages (rowAt k r).errors := by
  have hexit : (publish reporter (processAll reporter (fun _ => {}) results {})).result.exitCode = 0 ↔
      (processAll reporter (fun _ => {}) results {}).stats.failedRows = 0 := by
    rw [publish, StageCommandResultResolver.resolve_exitCode]
    simp
  rw [hexit, countP_blocks]
  simp only [hblocks]
  exact forall_results hget

theorem runResolve_failedRows (profile : ReportPolicyProfile) (includeItems : Bool)
    (asdict : ResolvedRow → Fields) (catalog : ErrorCatalog)
    (pendingOnExpire : Option PendingOnExpire) (feed : ResolveFeed) :
    (runResolve profile includeItems asdict catalog pendingOnExpire feed).stats.failedRows =
      (feed.results.map Prod.fst).countP
        (blocks (resolveReporter profile includeItems asdict) fun _ => {}) := by
  simp only [runResolve, reportExpired_stats, resolveRounds_failedRows]
  exact Nat.zero_add _

/-- What the resolver makes of the row of a position. -/
def resolveAt (p : PlanPipeline D) (deps : Nat → D) (store : DedupStore) (source : List Enriching)
    (schedule : Nat → Tick) (db : IdentityDb) (k : Nat) (r : Enriching) :
    TransformResult ResolvedRow :=
  let stage := planningStage p.resolver p.catalog (p.matched deps store source)
  (stage.resolveRow (schedule (0 + k)).clock
    (stage.dbBefore schedule 0 db (p.matched deps store source) k)
    (p.atMatch (deps k) (p.storeAt deps store source k) r)).1

theorem resolveResults_get (schedule : Nat → Tick) (db : IdentityDb) (k : Nat) :
    (resolveResults p deps store source schedule db)[k]? =
      source[k]?.map (resolveAt p deps store source schedule db k) := by
  rw [resolveResults, ResolveStage.resolveStream_get, PlanPipeline.matched_get, Option.map_map]
  rfl

/-- The exit code of a stage command is zero if and only if its own stage, or the topology filter
before it, wrote no error for any row. The mapper runs before the filter, and the matcher does
not see the rows that the filter blocked; but the rows that it dropped as duplicates count. -/
theorem exit_codes (p : PlanPipeline D) (deps : Nat → D) (store : DedupStore)
    (records : List SourceRecord) (failure : Option PyException) (options : StageOptions) :
    ExitCodes p deps store (extract p.catalog records failure) options := by
  have hfresh : ∀ {k : Nat} {r : Enriching},
      (extract p.catalog records failure)[k]? = some r → Extracted r :=
    fun hk => extracted_of_mem (List.mem_of_getElem? hk)
  constructor
  · refine (published_eq_zero (blocks_mapping _ _) PlanPipeline.mapped_get).trans ?_
    rw [forall_rows]
    refine forall_congr' fun k => forall_congr' fun r => forall_congr' fun hk => ?_
    rw [within_atMap (hfresh hk), not_not]
  · refine (published_eq_zero (blocks_normalize _ _) PlanPipeline.normalized_get).trans ?_
    rw [forall_rows]
    refine forall_congr' fun k => forall_congr' fun r => forall_congr' fun hk => ?_
    rw [within_atNormalize (hfresh hk), not_or, not_not, not_not]
  · refine (published_eq_zero (blocks_enrich _ _ _) PlanPipeline.enriched_get).trans ?_
    refine forall_congr' fun k => forall_congr' fun r => forall_congr' fun hk => ?_
    rw [within_atEnrich (hfresh hk), not_or, not_not, not_not]
  · refine (exitCode_eq_zero (.matching _ _ _ _)).trans ?_
    refine (and_iff_left rfl).trans (countP_blocks.trans ((forall_results
      PlanPipeline.matched_get).trans ?_))
    refine forall_congr' fun k => forall_congr' fun r => forall_congr' fun hk => ?_
    rw [blocks_atMatch (hfresh hk), not_or, not_not, Bool.not_eq_true]
  · intro schedule db earlier drained last
    refine (exitCode_eq_zero (.resolve _ _ _ _ _ _)).trans (and_comm.trans (and_congr_right' ?_))
    refine (Eq.congr_left (runResolve_failedRows _ _ _ _ _ _)).trans ?_
    rw [resolveFeed_results, List.countP_eq_zero]
    constructor
    · intro h k r resolved hk hresolved
      have hblocked := h resolved (List.mem_of_getElem? hresolved)
      rw [blocks_resolve] at hblocked
      rw [resolveResults_get, hk] at hresolved
      obtain rfl := Option.some.inj hresolved
      have hwithin := (not_congr (within_resolveRow (hfresh hk) _ _ _ _ _)).mp hblocked
      rw [not_or, not_not, not_and, not_not] at hwithin
      exact hwithin
    · intro h resolved hresolved
      obtain ⟨k,hk⟩ := List.getElem?_of_mem hresolved
      have hget := hk
      rw [resolveResults_get, Option.map_eq_some_iff] at hget
      obtain ⟨r,hr,rfl⟩ := hget
      rw [blocks_resolve]
      refine (not_congr (within_resolveRow (hfresh hr) _ _ _ _ _)).mpr ?_
      rw [not_or, not_not, not_and, not_not]
      exact h k r _ hr hk

/-! ## A source that broke off -/

section Failure
variable (p : PlanPipeline D) (deps : Nat → D) (store : DedupStore) (source : List Enriching)
  (exc : PyException)

theorem atFilter_failure :
    p.atFilter (sourceFailure p.catalog exc) = sourceFailure p.catalog exc := by
  have hmap : p.atMap (sourceFailure p.catalog exc) = sourceFailure p.catalog exc := rfl
  rw [PlanPipeline.atFilter, hmap]
  unfold SourceTopologyFilterStage.passed
  split
  · rfl
  · split <;> rfl

theorem mapped_failure : p.mapped (source ++ [sourceFailure p.catalog exc]) =
    p.mapped source ++ [sourceFailure p.catalog exc] := List.map_append

theorem normalized_failure : p.normalized (source ++ [sourceFailure p.catalog exc]) =
    p.normalized source ++ [sourceFailure p.catalog exc] := by
  have hfilter := atFilter_failure p exc
  simp only [PlanPipeline.normalized, PlanPipeline.filtered, mapped_failure,
    SourceTopologyFilterStage.run_eq, List.map_append, List.map_cons, List.map_nil]
  rw [show SourceTopologyFilterStage.passed p.catalog p.validation (sourceFailure p.catalog exc) =
    sourceFailure p.catalog exc from hfilter, normalizeStage_row rfl]

theorem enriched_failure : p.enriched deps (source ++ [sourceFailure p.catalog exc]) =
    p.enriched deps source ++ [sourceFailure p.catalog exc] := by
  rw [PlanPipeline.enriched, normalized_failure, List.mapIdx_append, List.mapIdx_cons,
    List.mapIdx_nil, enrichStage_none rfl]
  rfl

theorem matched_failure : p.matched deps store (source ++ [sourceFailure p.catalog exc]) =
    p.matched deps store source ++ [(sourceFailure p.catalog exc).withoutRow] := by
  have hrest := matchStream_append p.matcher p.catalog store (p.enriched deps source) []
  rw [List.append_nil, matchStream, List.append_nil] at hrest
  rw [PlanPipeline.matched, enriched_failure, matchStream_append, ← hrest, matchStream,
    matchStage_none rfl]
  rfl

/-- A row without diagnostics in the scope of a report counts as passed. -/
theorem process_passed {reporter : StageResultReporter Fields}
    (hup : reporter.includeUpstreamDiagnostics = false) (hstages : reporter.reportStages ≠ [])
    (hskip : ∀ result, reporter.strategy.shouldSkip (some result) = false)
    (hout : .extract ∉ reporter.reportStages) (s : Reporting) (catalog : ErrorCatalog) :
    (reporter.process s {} (some (sourceFailure catalog exc))).stats =
      s.stats.onRow false false := by
  have hfails : reporter.fails {} (some (sourceFailure catalog exc)) = false := by
    rw [Bool.eq_false_iff, ne_eq, fails_iff hup hstages]
    rintro (h | ⟨e,he,hstage⟩)
    · cases h
    · obtain rfl := List.mem_singleton.mp he
      exact hout hstage
  have hwarnings : (reporter.inScope {} (some (sourceFailure catalog exc))).warnings = [] := by
    simp [StageResultReporter.inScope, StageResultReporter.filterForReport, hup, hstages,
      sourceFailure, extracted]
  rw [StageResultReporter.process, hskip]
  simp only [Bool.false_eq_true, if_false, hfails, hwarnings]
  rfl

end Failure

/-- The statistics of a stage command whose source broke off are those of the rows before, and
one row that passed. -/
theorem publish_failure {reporter : StageResultReporter Fields}
    (hup : reporter.includeUpstreamDiagnostics = false) (hstages : reporter.reportStages ≠ [])
    (hskip : ∀ result, reporter.strategy.shouldSkip (some result) = false)
    (hout : .extract ∉ reporter.reportStages) (results : List (TransformResult Fields))
    (catalog : ErrorCatalog) (exc : PyException) :
    (publish reporter (processAll reporter (fun _ => {})
        (results ++ [sourceFailure catalog exc]) {})).stats =
      (publish reporter (processAll reporter (fun _ => {}) results {})).stats.onRow false false := by
  simp only [publish, processAll, List.foldl_append, List.foldl_cons, List.foldl_nil]
  exact process_passed exc hup hstages hskip hout _ catalog

/-- What the stage commands make of a source that broke off with an exception. -/
structure FailureUnseen (p : PlanPipeline D) (deps : Nat → D) (store : DedupStore)
    (broken whole : List Enriching) (options : StageOptions) : Prop where
  mapping : (runMapping options.profile options.includeItems (p.mapped broken)).stats =
    (runMapping options.profile options.includeItems (p.mapped whole)).stats.onRow false false
  normalize : (runNormalize options.profile options.includeItems (p.normalized broken)).stats =
    (runNormalize options.profile options.includeItems (p.normalized whole)).stats.onRow false false
  enrich : (runEnrich options.profile options.includeItems options.payloadBuilder
      (p.enriched deps broken)).stats =
    (runEnrich options.profile options.includeItems options.payloadBuilder
      (p.enriched deps whole)).stats.onRow false false
  matching : runMatch options.profile options.includeItems options.matchedAsdict
      (p.matched deps store broken) =
    runMatch options.profile options.includeItems options.matchedAsdict
      (p.matched deps store whole)

theorem source_failure_unseen (p : PlanPipeline D) (deps : Nat → D) (store : DedupStore)
    (records : List SourceRecord) (exc : PyException) (options : StageOptions) :
    FailureUnseen p deps store (extract p.catalog records (some exc))
      (extract p.catalog records none) options := by
  have hbroken : extract p.catalog records (some exc) =
      extract p.catalog records none ++ [sourceFailure p.catalog exc] := by simp [extract]
  rw [hbroken]
  constructor
  · rw [mapped_failure]
    exact publish_failure (upstream_new ..) (by simp [StageResultReporter.new]) (fun _ => rfl)
      (by simp [StageResultReporter.new]) _ _ _
  · rw [normalized_failure]
    exact publish_failure (upstream_new ..) (by simp [StageResultReporter.new]) (fun _ => rfl)
      (by simp [StageResultReporter.new]) _ _ _
  · rw [enriched_failure]
    exact publish_failure (upstream_new ..) (by simp [StageResultReporter.new]) (fun _ => rfl)
      (by simp [StageResultReporter.new]) _ _ _
  · rw [matched_failure]
    have hskip : (matchReporter options.profile options.includeItems
        options.matchedAsdict).strategy.shouldSkip
          (some (sourceFailure p.catalog exc).withoutRow) = true := rfl
    have htopology : topologyContext (p.matched deps store (extract p.catalog records none) ++
        [(sourceFailure p.catalog exc).withoutRow]) =
          topologyContext (p.matched deps store (extract p.catalog records none)) := by
      simp [topologyContext, countTopology]
    simp only [runMatch, processAll, List.foldl_append, List.foldl_cons, List.foldl_nil,
      htopology, StageResultReporter.process, hskip, if_true]

end Runs

end NexusEtl.StageReports
