import NexusEtl.CommandLifecycle
import NexusEtl.EnrichModels
import NexusEtl.MatchModels
import NexusEtl.PendingExpiry
import NexusEtl.ReportContext
import NexusEtl.TargetKernel

/-!
# The report of a stage

A stage command counts the results of its stage twice: in the statistics from which its exit
code follows, and in the items that it sends to the report, whose counters give the status of
the report. Only diagnostics of the stage count, unless the policy lets others in. The payload
of an item is masked before it is sent.
-/

set_option autoImplicit false

namespace NexusEtl.StageReports
open NexusEtl.Library

variable {ρ : Type}

/-! ## Statistics of a stage -/

structure StageExecutionStats where
  rowsTotal : Nat := 0
  okRows : Nat := 0
  failedRows : Nat := 0
  warningsRows : Nat := 0
  vaultCandidatesRows : Nat := 0
  vaultCandidatesFieldsTotal : Nat := 0
  deriving DecidableEq, Repr

namespace StageExecutionStats

def onRow (stats : StageExecutionStats) (hasErrors hasWarnings : Bool) : StageExecutionStats :=
  { stats with
    rowsTotal := stats.rowsTotal + 1
    okRows := stats.okRows + if hasErrors then 0 else 1
    failedRows := stats.failedRows + if hasErrors then 1 else 0
    warningsRows := stats.warningsRows + if hasWarnings then 1 else 0 }

def onSecretFields (stats : StageExecutionStats) (secretFields : List String) :
    StageExecutionStats :=
  if secretFields = [] then stats
  else { stats with
    vaultCandidatesRows := stats.vaultCandidatesRows + 1
    vaultCandidatesFieldsTotal := stats.vaultCandidatesFieldsTotal + secretFields.length }

def toContextPayload (stats : StageExecutionStats) (okLabel failedLabel : String) : Fields :=
  [(okLabel,stats.okRows), (failedLabel,stats.failedRows), ("warnings_rows",stats.warningsRows),
    ("vault_candidates_rows",stats.vaultCandidatesRows),
    ("vault_candidates_fields_total",stats.vaultCandidatesFieldsTotal)].foldl
      (fun payload entry => Dict.set payload entry.1 (.int entry.2))
      [("rows_total",.int stats.rowsTotal)]

@[simp] theorem onRow_okRows (stats : StageExecutionStats) (hasErrors hasWarnings : Bool) :
    (stats.onRow hasErrors hasWarnings).okRows = stats.okRows + (!hasErrors).toNat := by
  cases hasErrors <;> rfl

@[simp] theorem onRow_failedRows (stats : StageExecutionStats) (hasErrors hasWarnings : Bool) :
    (stats.onRow hasErrors hasWarnings).failedRows = stats.failedRows + hasErrors.toNat := by
  cases hasErrors <;> rfl

@[simp] theorem onSecretFields_rowsTotal (stats : StageExecutionStats) (fields : List String) :
    (stats.onSecretFields fields).rowsTotal = stats.rowsTotal := by
  unfold onSecretFields
  split <;> rfl

@[simp] theorem onSecretFields_okRows (stats : StageExecutionStats) (fields : List String) :
    (stats.onSecretFields fields).okRows = stats.okRows := by
  unfold onSecretFields
  split <;> rfl

@[simp] theorem onSecretFields_failedRows (stats : StageExecutionStats) (fields : List String) :
    (stats.onSecretFields fields).failedRows = stats.failedRows := by
  unfold onSecretFields
  split <;> rfl

end StageExecutionStats

namespace StageCommandResultResolver

/-- `resolve`, with the default codes -/
def resolve (stats : StageExecutionStats) (hasConflicts : Bool) : CommandResult :=
  let result := resultWith (if 0 < stats.failedRows then .dataInvalid else .ok)
  if hasConflicts then result.addCode .conflict else result

theorem resolve_exitCode (stats : StageExecutionStats) (hasConflicts : Bool) :
    (resolve stats hasConflicts).exitCode =
      if 0 < stats.failedRows ∨ hasConflicts = true then 1 else 0 := by
  unfold resolve
  by_cases hfailed : 0 < stats.failedRows <;> cases hasConflicts <;>
    simp [hfailed, resultWith, CommandResult.empty, CommandResult.addCode,
      CommandResult.exitCode, CommandResult.primaryCode, resolvePrimaryCode, isFatal, exitCodeMap]

end StageCommandResultResolver

/-! ## The policy of a report -/

structure ReportPolicyCapabilities where
  includeOkItems : Bool
  includeFailedItems : Bool
  includeSkippedItems : Bool
  includePayloadMasked : Bool
  includeUpstreamDiagnostics : Bool
  includeSubsystemMetrics : Bool
  includeRuntimeSecondaryAsItems : Bool
  deriving DecidableEq, Repr

inductive ReportPolicyProfile
  | minimal | standard | debug
  deriving DecidableEq, Repr

namespace ReportPolicyProfile

/-- `REPORT_POLICY_PROFILE_MATRIX` -/
def capabilities : ReportPolicyProfile → ReportPolicyCapabilities
  | .minimal => ⟨false,true,false,false,false,false,true⟩
  | .standard => ⟨true,true,true,true,false,true,true⟩
  | .debug => ⟨true,true,true,true,true,true,true⟩

def resolveIncludeOkItems (profile : ReportPolicyProfile) (cliIncludeOkItems : Bool) : Bool :=
  profile.capabilities.includeOkItems && cliIncludeOkItems

def resolveIncludeUpstreamDiagnostics (profile : ReportPolicyProfile) (requested : Bool) : Bool :=
  profile.capabilities.includeUpstreamDiagnostics && requested

end ReportPolicyProfile

/-! ## Diagnostics of a report -/

def severityValue : DiagnosticSeverity → String
  | .error => "error"
  | .warning => "warning"

/-- A rule among the details of a diagnostic. -/
def ruleOf (details : Option Fields) : Option String :=
  match details.map fun fields => Fields.read fields "rule" with
  | some (.str rule) => if rule = "" then none else some rule
  | _ => none

/-- `_from_item` -/
def fromItem (item : DiagnosticItem) : ReportDiagnostic :=
  { severity := severityValue item.severity
    stage := .stage item.stage
    code := item.code
    field := item.field
    message := item.message
    rule := ruleOf item.details
    details := item.details }

def splitReportDiagnostics (errors warnings : List DiagnosticItem) :
    List ReportDiagnostic × List ReportDiagnostic :=
  let diagnostics := (errors ++ warnings).map fromItem
  (diagnostics.filter fun d => d.severity == "error",
    diagnostics.filter fun d => d.severity == "warning")

/-! ## Payloads -/

namespace PayloadSanitizer

/-- `sanitize`, of a payload that is a dictionary -/
def sanitize (payload : Fields) (secretFields : List String) : Fields :=
  secretFields.foldl (fun fields field => Dict.set fields field (.str "***"))
    (Sanitize.maskFields payload)

end PayloadSanitizer

structure ReportStrategy (ρ : Type) where
  shouldSkip : Option (TransformResult ρ) → Bool
  buildPayload : Option (TransformResult ρ) → Option Fields
  buildMeta : Option (TransformResult ρ) → Nat → Nat → List String → Fields

/-- `setdefault` -/
def withDefault (fields : Fields) (key : String) (v : Value) : Fields :=
  if Dict.contains fields key then fields else Dict.set fields key v

/-- `build_payload` of both strategies: the row as a dictionary, or what the builder makes of it -/
def payloadOf (asdict : ρ → Fields) (payloadBuilder : Option (TransformResult ρ → Option Fields)) :
    Option (TransformResult ρ) → Option Fields
  | none => none
  | some result => match result.row with
    | none => none
    | some row => match payloadBuilder with
      | some builder => builder result
      | none => some (asdict row)

def transformStageReportStrategy
    (payloadBuilder : Option (TransformResult Fields → Option Fields)) :
    ReportStrategy Fields where
  shouldSkip _ := false
  buildPayload := payloadOf id payloadBuilder
  buildMeta result? upstreamErrors upstreamWarnings secretFields :=
    [("match_key",optStr (result?.bind TransformResult.matchKey)),
      ("secret_candidate_fields",.list (secretFields.map .str)),
      ("upstream_errors_count",.int upstreamErrors),
      ("upstream_warnings_count",.int upstreamWarnings)]

def planningStageReportStrategy (asdict : ρ → Fields) (metaBuilder : TransformResult ρ → Fields)
    (shouldSkip : TransformResult ρ → Bool) : ReportStrategy ρ where
  shouldSkip result? := result?.any shouldSkip
  buildPayload := payloadOf asdict none
  buildMeta result? upstreamErrors upstreamWarnings _ :=
    withDefault (withDefault ((result?.map metaBuilder).getD []) "upstream_errors_count"
      (.int upstreamErrors)) "upstream_warnings_count" (.int upstreamWarnings)

/-! ## The reporter -/

structure StageResultReporter (ρ : Type) where
  profile : ReportPolicyProfile
  includeItems : Bool
  contextKey : ReportContextKey
  okLabel : String
  failedLabel : String
  strategy : ReportStrategy ρ
  reportStages : List DiagnosticStage
  includeUpstreamDiagnostics : Bool

/-- The statistics and what was sent to the report. -/
structure Reporting where
  stats : StageExecutionStats := {}
  emitted : List ReportEvent := []
  deriving DecidableEq, Repr

def Reporting.emit (s : Reporting) (event : ReportEvent) : Reporting :=
  { s with emitted := s.emitted ++ [event] }

/-- The arguments of `process` beside the result. -/
structure ProcessArgs where
  rowRef : Option RowRef := none
  forceFailed : Bool := false
  errorsOverride : Option (List DiagnosticItem) := none
  warningsOverride : Option (List DiagnosticItem) := none

/-- What `_filter_for_report` returns. -/
structure ReportScope where
  errors : List DiagnosticItem
  warnings : List DiagnosticItem
  upstreamErrors : Nat
  upstreamWarnings : Nat

/-- The declared secret fields of a result, or else the names of its candidates. -/
def secretFieldsOf (result : TransformResult ρ) : List String :=
  match Fields.read result.metadata "secret_fields" with
  | .list items => (items.filter Value.truthy).map Value.pyStr
  | _ => (Dict.keys result.secretCandidates).filter fun key => key ≠ ""

namespace StageResultReporter

/-- `__init__` -/
def new (profile : ReportPolicyProfile) (includeItems : Bool) (contextKey : ReportContextKey)
    (okLabel failedLabel : String) (strategy : ReportStrategy ρ)
    (reportStage : Option DiagnosticStage) (reportStages : List DiagnosticStage)
    (includeUpstreamDiagnostics : Bool) : StageResultReporter ρ :=
  { profile := profile
    includeItems := profile.resolveIncludeOkItems includeItems
    contextKey := contextKey
    okLabel := okLabel
    failedLabel := failedLabel
    strategy := strategy
    reportStages := reportStages ++ reportStage.toList.filter fun stage => stage ∉ reportStages
    includeUpstreamDiagnostics :=
      profile.resolveIncludeUpstreamDiagnostics includeUpstreamDiagnostics }

variable (reporter : StageResultReporter ρ)

/-- `_filter_for_report` -/
def filterForReport (errors warnings : List DiagnosticItem) : ReportScope :=
  if reporter.includeUpstreamDiagnostics ∨ reporter.reportStages = [] then ⟨errors,warnings,0,0⟩
  else
    let reportErrors := errors.filter fun item => reporter.reportStages.contains item.stage
    let reportWarnings := warnings.filter fun item => reporter.reportStages.contains item.stage
    ⟨reportErrors,reportWarnings,errors.length - reportErrors.length,
      warnings.length - reportWarnings.length⟩

/-- The diagnostics of a call that are in the scope of the report. -/
def inScope (args : ProcessArgs) (result? : Option (TransformResult ρ)) : ReportScope :=
  reporter.filterForReport
    (args.errorsOverride.getD ((result?.map TransformResult.errors).getD []))
    (args.warningsOverride.getD ((result?.map TransformResult.warnings).getD []))

def fails (args : ProcessArgs) (result? : Option (TransformResult ρ)) : Bool :=
  args.forceFailed || !(reporter.inScope args result?).errors.isEmpty

def rowRefOf (args : ProcessArgs) (result? : Option (TransformResult ρ)) : Option RowRef :=
  (args.rowRef.or (result?.bind TransformResult.rowRef)).or
    (result?.map fun result => ⟨some result.record.lineNo,result.record.recordId,none,none⟩)

def itemOf (args : ProcessArgs) (result? : Option (TransformResult ρ)) : AddItemEvent :=
  let scope := reporter.inScope args result?
  let failed := reporter.fails args result?
  let secretFields := (result?.map secretFieldsOf).getD []
  let store := (failed && reporter.profile.capabilities.includeFailedItems) || reporter.includeItems
  let report := splitReportDiagnostics scope.errors scope.warnings
  { status := .member (if failed then .failed else .ok)
    rowRef := rowRefOf args result?
    payload := if store then (reporter.strategy.buildPayload result?).map
        fun payload => PayloadSanitizer.sanitize payload secretFields else none
    errors := report.1
    warnings := report.2
    metadata := reporter.strategy.buildMeta result? scope.upstreamErrors scope.upstreamWarnings
      secretFields
    store := store
    preaggregated := false }

def process (s : Reporting) (args : ProcessArgs) (result? : Option (TransformResult ρ)) :
    Reporting :=
  if reporter.strategy.shouldSkip result? then s
  else
    let counted := s.stats.onRow (reporter.fails args result?)
      (!(reporter.inScope args result?).warnings.isEmpty)
    { stats := counted.onSecretFields ((result?.map secretFieldsOf).getD [])
      emitted := s.emitted ++ [.addItem (reporter.itemOf args result?)] }

def publishContext (s : Reporting) : Reporting :=
  s.emit (.setContext (.member reporter.contextKey)
    (s.stats.toContextPayload reporter.okLabel reporter.failedLabel))

end StageResultReporter

/-! ## The use cases -/

/-- The outcome of a use case whose stages did not raise. -/
structure StageRun where
  stats : StageExecutionStats
  emitted : List ReportEvent
  result : CommandResult
  deriving DecidableEq, Repr

/-- The loop over the results of a pipeline, each with what the use case passes along. -/
def processAll (reporter : StageResultReporter ρ) (argsOf : TransformResult ρ → ProcessArgs)
    (results : List (TransformResult ρ)) (s : Reporting) : Reporting :=
  results.foldl (fun s result => reporter.process s (argsOf result) (some result)) s

/-- The end of the transform use cases. -/
def publish (reporter : StageResultReporter ρ) (s : Reporting) : StageRun :=
  { stats := s.stats
    emitted := (reporter.publishContext s).emitted
    result := StageCommandResultResolver.resolve s.stats false }

def mappingReporter (profile : ReportPolicyProfile) (includeMappedItems : Bool) :
    StageResultReporter Fields :=
  .new profile includeMappedItems .mapping "mapped_ok" "mapping_failed"
    (transformStageReportStrategy none) (some .map) [] false

def normalizeReporter (profile : ReportPolicyProfile) (includeNormalizedItems : Bool) :
    StageResultReporter Fields :=
  .new profile includeNormalizedItems .normalize "normalized_ok" "normalize_failed"
    (transformStageReportStrategy none) (some .normalize) [.normalize,.topologyValidate] false

def enrichReporter (profile : ReportPolicyProfile) (includeEnrichedItems : Bool)
    (payloadBuilder : TransformResult Fields → Option Fields) : StageResultReporter Fields :=
  .new profile includeEnrichedItems .enrich "enriched_ok" "enrich_failed"
    (transformStageReportStrategy (some payloadBuilder)) (some .enrich)
    [.enrich,.topologyValidate] false

/-- `MappingUseCase.run` -/
def runMapping (profile : ReportPolicyProfile) (includeMappedItems : Bool)
    (results : List (TransformResult Fields)) : StageRun :=
  let reporter := mappingReporter profile includeMappedItems
  publish reporter (processAll reporter (fun _ => {}) results {})

/-- `NormalizeUseCase.run` -/
def runNormalize (profile : ReportPolicyProfile) (includeNormalizedItems : Bool)
    (results : List (TransformResult Fields)) : StageRun :=
  let reporter := normalizeReporter profile includeNormalizedItems
  publish reporter (processAll reporter (fun _ => {}) results {})

/-- `EnrichUseCase.run` -/
def runEnrich (profile : ReportPolicyProfile) (includeEnrichedItems : Bool)
    (payloadBuilder : TransformResult Fields → Option Fields)
    (results : List (TransformResult Fields)) : StageRun :=
  let reporter := enrichReporter profile includeEnrichedItems payloadBuilder
  publish reporter (processAll reporter (fun _ => {}) results {})

/-! ### Match -/

def hasMatchStageDiagnostics (result : TransformResult ρ) : Bool :=
  (result.errors ++ result.warnings).any fun item => item.stage == .matching

def droppedByMatch (result : TransformResult ρ) : Bool :=
  (Fields.read result.metadata "match_drop_reason").truthy

/-- `_should_skip_match_result` -/
def shouldSkipMatchResult (result : TransformResult ρ) : Bool :=
  !droppedByMatch result && result.row.isNone && !hasMatchStageDiagnostics result

def matchMeta (result : TransformResult MatchedRow) : Fields :=
  let decision := result.row.map MatchedRow.matchDecision
  [("match_status",optStr (decision.map fun d => d.status.value)),
    ("topology_match_mode",optStr (decision.bind fun d =>
      d.topologyMatchMode.map TopologyMatchMode.value)),
    ("topology_reason",optStr (decision.bind MatchDecision.topologyReason)),
    ("topology_evidence",.dict ((decision.map MatchDecision.topologyEvidence).getD []))]

def matchReporter (profile : ReportPolicyProfile) (includeMatchedItems : Bool)
    (asdict : MatchedRow → Fields) : StageResultReporter MatchedRow :=
  .new profile includeMatchedItems .matching "matched_ok" "match_failed"
    (planningStageReportStrategy asdict matchMeta shouldSkipMatchResult) (some .matching)
    [.matching,.topologyValidate] false

/-- The modes that the decisions name, and whether a decision used the topology at all. -/
def countTopology (acc : Bool × Dict String Int) (result : TransformResult MatchedRow) :
    Bool × Dict String Int :=
  match result.row with
  | none => acc
  | some row => match row.matchDecision.topologyMatchMode with
    | some mode =>
      (true,Dict.set acc.2 mode.value ((Dict.get? acc.2 mode.value).getD 0 + 1))
    | none =>
      (acc.1 || (Fields.read row.matchDecision.metadata "topology_applied").truthy,acc.2)

def topologyContext (results : List (TransformResult MatchedRow)) : Fields :=
  let counted := results.foldl countTopology (false,[])
  [("enabled",.bool counted.1),
    ("by_mode",.dict ((sortTexts (Dict.keys counted.2)).map fun mode =>
      (mode,.int ((Dict.get? counted.2 mode).getD 0))))]

/-- `MatchUseCase.run` -/
def runMatch (profile : ReportPolicyProfile) (includeMatchedItems : Bool)
    (asdict : MatchedRow → Fields) (results : List (TransformResult MatchedRow)) : StageRun :=
  let reporter := matchReporter profile includeMatchedItems asdict
  let s := processAll reporter (fun result => { forceFailed := droppedByMatch result }) results {}
  { stats := s.stats
    emitted := (s.emit (.setContext (.member .matching)
      (Dict.set (s.stats.toContextPayload "matched_ok" "match_failed") "topology"
        (.dict (topologyContext results))))).emitted
    result := StageCommandResultResolver.resolve s.stats (decide (0 < s.stats.failedRows)) }

/-! ### Resolve -/

inductive PendingOnExpire
  | error | reportOnly | skip
  deriving DecidableEq, Repr

/-- `_resolve_status(r) is None and r.row is None` -/
def shouldSkipResolveResult (result : TransformResult ρ) : Bool :=
  result.errors.isEmpty && !(result.warnings.any fun w => w.code == "RESOLVE_PENDING") &&
    result.row.isNone

def opValue : ResolveOp → String
  | .create => "create"
  | .update => "update"
  | .skip => "skip"
  | .conflict => "conflict"

def resolveMeta (result : TransformResult ResolvedRow) : Fields :=
  [("op",optStr (result.row.map fun row => opValue row.op))]

def resolveReporter (profile : ReportPolicyProfile) (includeResolvedItems : Bool)
    (asdict : ResolvedRow → Fields) : StageResultReporter ResolvedRow :=
  .new profile includeResolvedItems .resolve "resolved_ok" "resolve_failed"
    (planningStageReportStrategy asdict resolveMeta shouldSkipResolveResult) (some .resolve)
    [.resolve,.topologyValidate] false

/-- The diagnostic of an expired link, an error or a warning. -/
def expiredDiagnostic (catalog : ErrorCatalog) (mode : PendingOnExpire) (item : PendingLink) :
    DiagnosticItem :=
  let message := (item.reason.filter (· ≠ "")).getD "pending link expired"
  let ref : RowRef := ⟨none,item.sourceRowId,none,none⟩
  if mode = .reportOnly then
    diagWarning catalog .resolve "RESOLVE_EXPIRED" (some item.field) (some message) (some ref)
      none none
  else diagError catalog .resolve "RESOLVE_EXPIRED" (some item.field) (some message) (some ref) none

def expiredItem (catalog : ErrorCatalog) (mode : PendingOnExpire) (item : PendingLink) :
    AddItemEvent :=
  let diag := expiredDiagnostic catalog mode item
  let report := if mode = .reportOnly then splitReportDiagnostics [] [diag]
    else splitReportDiagnostics [diag] []
  { status := .member (if mode = .reportOnly then .ok else .failed)
    rowRef := diag.recordRef
    errors := report.1
    warnings := report.2
    metadata := [("pending_id",.int item.pendingId), ("lookup_key",.str item.lookupKey)] }

/-- One round of the loop of `_report_expired`: what it sends, and the failures so far. -/
def reportExpiredItem (catalog : ErrorCatalog) (mode : PendingOnExpire) (s : Reporting × Nat)
    (item : PendingLink) : Reporting × Nat :=
  let reported := s.1.emit (.addItem (expiredItem catalog mode item))
  if mode = .reportOnly then (reported.emit (.addOp (.member .resolveExpired) 1 0 1),s.2)
  else (reported.emit (.addOp (.member .resolveExpired) 0 1 1),s.2 + 1)

/-- `_report_expired` -/
def reportExpired (catalog : ErrorCatalog) (mode : PendingOnExpire) (s : Reporting × Nat)
    (expired : List PendingLink) : Reporting × Nat :=
  if mode = .skip then s else expired.foldl (reportExpiredItem catalog mode) s

/-- `_count_special_ops` -/
def countSpecialOps (s : Reporting) (result : TransformResult ρ) : Reporting :=
  let attempted := if result.errors.any fun e => e.code == "RESOLVE_MAX_ATTEMPTS" then
    s.emit (.addOp (.member .resolveMaxAttempts) 0 1 1) else s
  if result.warnings.any fun w => w.code == "RESOLVE_PENDING" then
    attempted.emit (.addOp (.member .resolvePending) 1 0 1) else attempted

/-- What `ResolveUseCase.run` reads: the links that had expired before the first result, each
result with those that were handed over behind it, and those of the last batch. -/
structure ResolveFeed where
  earlier : List PendingLink
  results : List (TransformResult ResolvedRow × List PendingLink)
  last : List PendingLink

/-- One round of the loop. -/
def resolveRound (reporter : StageResultReporter ResolvedRow) (catalog : ErrorCatalog)
    (mode : PendingOnExpire) (s : Reporting × Nat)
    (entry : TransformResult ResolvedRow × List PendingLink) : Reporting × Nat :=
  reportExpired catalog mode
    (reporter.process (countSpecialOps s.1 entry.1) {} (some entry.1),s.2) entry.2

/-- `ResolveUseCase.run`, where resolver settings may be missing -/
def runResolve (profile : ReportPolicyProfile) (includeResolvedItems : Bool)
    (asdict : ResolvedRow → Fields) (catalog : ErrorCatalog)
    (pendingOnExpire : Option PendingOnExpire) (feed : ResolveFeed) : StageRun :=
  let mode := pendingOnExpire.getD .error
  let reporter := resolveReporter profile includeResolvedItems asdict
  let started := reportExpired catalog mode ({},0) feed.earlier
  let looped := feed.results.foldl (resolveRound reporter catalog mode) started
  let s := reportExpired catalog mode looped feed.last
  { stats := s.1.stats
    emitted := (reporter.publishContext s.1).emitted
    result := StageCommandResultResolver.resolve s.1.stats
      (decide (0 < s.1.stats.failedRows) || decide (0 < s.2)) }

/-! ## The two counts -/

theorem deriveStatus_success {summary : ReportSummary} :
    InMemoryReportContext.deriveStatus summary = "SUCCESS" ↔ summary.rowsBlocked = 0 := by
  unfold InMemoryReportContext.deriveStatus
  split
  · simp_all
  · split <;> simp_all

theorem deriveStatus_failed {summary : ReportSummary} :
    InMemoryReportContext.deriveStatus summary = "FAILED" ↔
      summary.rowsBlocked ≠ 0 ∧ summary.rowsPassed ≤ 0 := by
  unfold InMemoryReportContext.deriveStatus
  split
  · simp_all
  · split
    · simp_all
    · simp_all

def okItem (event : ReportEvent) : Bool :=
  event.item?.any fun item => decide (item.status = .member .ok)

def failedItem (event : ReportEvent) : Bool :=
  event.item?.any fun item => decide (item.status = .member .failed)

def setsStatus : ReportEvent → Bool
  | .setStatus _ | .finish _ _ => true
  | _ => false

/-- An event that leaves the counters of rows and the status of the report alone. -/
structure Silent (event : ReportEvent) : Prop where
  item : event.item? = none
  rows : event.setsRows = false
  status : setsStatus event = false

/-- An event that counts a row as passed or as blocked, or is silent. -/
def CountsRow (event : ReportEvent) : Prop :=
  Silent event ∨ ∃ item, event = .addItem item ∧ item.preaggregated = false ∧
    (item.status = .member .ok ∨ item.status = .member .failed)

/-- The row counters of a report moved on by so many passed and so many blocked rows. -/
structure Moved (passed blocked : Nat) (old new : ReportSummary) : Prop where
  rowsTotal : new.rowsTotal = old.rowsTotal + (passed + blocked : Nat)
  rowsPassed : new.rowsPassed = old.rowsPassed + passed
  rowsBlocked : new.rowsBlocked = old.rowsBlocked + blocked
  rowsSkipped : new.rowsSkipped = old.rowsSkipped

theorem Moved.trans {p p' b b' : Nat} {s t u : ReportSummary} (h : Moved p b s t)
    (h' : Moved p' b' t u) : Moved (p + p') (b + b') s u := by
  obtain ⟨htotal,hpassed,hblocked,hskipped⟩ := h
  obtain ⟨htotal',hpassed',hblocked',hskipped'⟩ := h'
  refine ⟨?_,?_,?_,hskipped'.trans hskipped⟩
  · rw [htotal', htotal]
    omega
  · rw [hpassed', hpassed]
    omega
  · rw [hblocked', hblocked]
    omega

section Report
variable (upper : String → String)

theorem moved_append (c : InMemoryReportContext) {r : Reported} (h : CountsRow r.event) :
    Moved (okItem r.event).toNat (failedItem r.event).toNat c.summary
      (c.append upper r.now r.event).1.summary := by
  rcases h with ⟨hitem,hrows,-⟩ | ⟨item,hevent,hpre,hstatus⟩
  · obtain ⟨-,-,-,-,-,hkept⟩ := InMemoryReportContext.append_frame upper r.now c hitem
    obtain ⟨htotal,hpassed,hblocked,hskipped⟩ := hkept hrows
    simp only [okItem, failedItem, hitem, Option.any_none, Bool.toNat_false]
    exact ⟨by omega,by omega,by omega,hskipped⟩
  · have hsummary := fun status => (c.applyItem_cases status item).1
    rcases hstatus with hstatus | hstatus <;>
      · rw [hevent]
        simp only [okItem, failedItem, ReportEvent.item?, Option.any_some, hstatus,
          InMemoryReportContext.append, normalizeItemStatus]
        constructor <;>
          simp [hsummary, hpre, InMemoryReportContext.countDiagnostics,
            InMemoryReportContext.countRow]

theorem storeItem_status (c : InMemoryReportContext) (status : ReportItemStatus)
    (item : AddItemEvent) : (c.storeItem status item).status = c.status := by
  unfold InMemoryReportContext.storeItem
  split
  · rfl
  · split <;> rfl

theorem append_status (c : InMemoryReportContext) {r : Reported} (h : CountsRow r.event) :
    (c.append upper r.now r.event).1.status = c.status := by
  rcases h with ⟨hitem,-,hstatus⟩ | ⟨item,hevent,-,hstatus⟩
  · cases hevent : r.event with
    | addItem item => simp [hevent, ReportEvent.item?] at hitem
    | setStatus => simp [hevent, setsStatus] at hstatus
    | finish => simp [hevent, setsStatus] at hstatus
    | setContext | addOp | mergeOpFields =>
      simp only [InMemoryReportContext.append]
      split <;> rfl
    | _ => rfl
  · rw [hevent]
    rcases hstatus with hstatus | hstatus <;>
      simp only [InMemoryReportContext.append, hstatus, normalizeItemStatus,
        InMemoryReportContext.applyItem, storeItem_status]

/-- The row counters after a sequence of events are those of its items. -/
theorem moved_after (c : InMemoryReportContext) (es : List Reported)
    (h : ∀ r ∈ es, CountsRow r.event) :
    Moved (es.countP fun r => okItem r.event) (es.countP fun r => failedItem r.event) c.summary
      (c.after upper es).summary := by
  induction es generalizing c with
  | nil => exact ⟨by simp [InMemoryReportContext.after],by simp [InMemoryReportContext.after],
      by simp [InMemoryReportContext.after],rfl⟩
  | cons r es ih =>
    have hone := moved_append upper c (h r List.mem_cons_self)
    have hrest := ih (c.append upper r.now r.event).1
      fun r' hr' => h r' (List.mem_cons_of_mem r hr')
    have hone_nat : ∀ b : Bool, (if b = true then 1 else 0) = b.toNat := fun b => by cases b <;> rfl
    rw [List.countP_cons, List.countP_cons, Nat.add_comm (es.countP _), Nat.add_comm (es.countP _),
      hone_nat, hone_nat]
    exact hone.trans hrest

theorem after_status (c : InMemoryReportContext) (es : List Reported)
    (h : ∀ r ∈ es, CountsRow r.event) : (c.after upper es).status = c.status := by
  induction es generalizing c with
  | nil => rfl
  | cons r es ih =>
    exact (ih _ fun r' hr' => h r' (List.mem_cons_of_mem r hr')).trans
      (append_status upper c (h r List.mem_cons_self))

end Report

/-- The statistics count the items that were sent, but for so many passed and so many blocked
ones that were sent beside them. -/
structure Booked (s : Reporting) (asidePassed asideBlocked : Nat) : Prop where
  events : ∀ event ∈ s.emitted, CountsRow event
  rowsTotal : s.stats.rowsTotal = s.stats.okRows + s.stats.failedRows
  passed : s.stats.okRows + asidePassed = s.emitted.countP okItem
  blocked : s.stats.failedRows + asideBlocked = s.emitted.countP failedItem

namespace Booked

variable {s : Reporting} {p b : Nat}

theorem start : Booked {} 0 0 := ⟨fun _ h => (List.not_mem_nil h).elim,rfl,rfl,rfl⟩

theorem emit (h : Booked s p b) (event : ReportEvent) (hevent : Silent event) :
    Booked (s.emit event) p b := by
  refine ⟨fun e he => ?_,h.rowsTotal,?_,?_⟩
  · rcases List.mem_append.mp he with he | he
    · exact h.events e he
    · obtain rfl := List.mem_singleton.mp he
      exact .inl hevent
  · simpa [Reporting.emit, okItem, hevent.item] using h.passed
  · simpa [Reporting.emit, failedItem, hevent.item] using h.blocked

theorem item (h : Booked s p b) (item : AddItemEvent) (hpre : item.preaggregated = false)
    (failed : Bool) (hstatus : item.status = .member (if failed then .failed else .ok)) :
    Booked (s.emit (.addItem item)) (p + (!failed).toNat) (b + failed.toNat) := by
  refine ⟨fun e he => ?_,h.rowsTotal,?_,?_⟩
  · rcases List.mem_append.mp he with he | he
    · exact h.events e he
    · obtain rfl := List.mem_singleton.mp he
      cases failed
      · exact .inr ⟨item,rfl,hpre,.inl hstatus⟩
      · exact .inr ⟨item,rfl,hpre,.inr hstatus⟩
  · have hpassed := h.passed
    cases failed <;> simp [Reporting.emit, okItem, ReportEvent.item?, hstatus] <;> omega
  · have hblocked := h.blocked
    cases failed <;> simp [Reporting.emit, failedItem, ReportEvent.item?, hstatus] <;> omega

theorem process (h : Booked s p b) (reporter : StageResultReporter ρ) (args : ProcessArgs)
    (result? : Option (TransformResult ρ)) : Booked (reporter.process s args result?) p b := by
  unfold StageResultReporter.process
  split
  · exact h
  · obtain ⟨hevents,_,hpassed,hblocked⟩ := h.item (reporter.itemOf args result?) rfl
      (reporter.fails args result?) rfl
    have htotal := h.rowsTotal
    constructor
    · exact hevents
    · dsimp only
      simp only [StageExecutionStats.onSecretFields_rowsTotal,
        StageExecutionStats.onSecretFields_okRows, StageExecutionStats.onSecretFields_failedRows,
        StageExecutionStats.onRow_okRows, StageExecutionStats.onRow_failedRows]
      cases reporter.fails args result? <;> simp [StageExecutionStats.onRow] <;> omega
    · refine Eq.trans ?_ hpassed
      simp only [StageExecutionStats.onSecretFields_okRows, StageExecutionStats.onRow_okRows,
        Reporting.emit]
      omega
    · refine Eq.trans ?_ hblocked
      simp only [StageExecutionStats.onSecretFields_failedRows,
        StageExecutionStats.onRow_failedRows, Reporting.emit]
      omega

theorem processAll (h : Booked s p b) (reporter : StageResultReporter ρ)
    (argsOf : TransformResult ρ → ProcessArgs) (results : List (TransformResult ρ)) :
    Booked (processAll reporter argsOf results s) p b := by
  induction results generalizing s with
  | nil => exact h
  | cons result results ih => exact ih (h.process reporter (argsOf result) (some result))

theorem publishContext (h : Booked s p b) (reporter : StageResultReporter ρ) :
    Booked (reporter.publishContext s) p b := h.emit _ ⟨rfl,rfl,rfl⟩

theorem countSpecialOps (h : Booked s p b) (result : TransformResult ρ) :
    Booked (countSpecialOps s result) p b := by
  have hattempted : Booked (if result.errors.any fun e => e.code == "RESOLVE_MAX_ATTEMPTS" then
      s.emit (.addOp (.member .resolveMaxAttempts) 0 1 1) else s) p b := by
    split
    · exact h.emit _ ⟨rfl,rfl,rfl⟩
    · exact h
  unfold StageReports.countSpecialOps
  dsimp only
  split
  · exact hattempted.emit _ ⟨rfl,rfl,rfl⟩
  · exact hattempted

end Booked

/-- How many of the expired links are reported as passed rows. -/
def expiredPassed (mode : PendingOnExpire) (expired : List PendingLink) : Nat :=
  if mode = .reportOnly then expired.length else 0

/-- How many of the expired links are reported as blocked rows. -/
def expiredBlocked (mode : PendingOnExpire) (expired : List PendingLink) : Nat :=
  if mode = .error then expired.length else 0

/-- One expired link is one row, passed or blocked, that the statistics know nothing of. -/
theorem Booked.reportExpiredItem {s : Reporting × Nat} {p b : Nat} (h : Booked s.1 p b)
    (catalog : ErrorCatalog) {mode : PendingOnExpire} (hmode : mode ≠ .skip) (item : PendingLink) :
    Booked (reportExpiredItem catalog mode s item).1 (p + expiredPassed mode [item])
        (b + expiredBlocked mode [item]) ∧
      (reportExpiredItem catalog mode s item).2 = s.2 + expiredBlocked mode [item] := by
  cases mode with
  | skip => exact (hmode rfl).elim
  | error => exact ⟨(h.item (expiredItem catalog .error item) rfl true rfl).emit _ ⟨rfl,rfl,rfl⟩,rfl⟩
  | reportOnly =>
    exact ⟨(h.item (expiredItem catalog .reportOnly item) rfl false rfl).emit _ ⟨rfl,rfl,rfl⟩,rfl⟩

theorem expiredPassed_append (mode : PendingOnExpire) (xs ys : List PendingLink) :
    expiredPassed mode (xs ++ ys) = expiredPassed mode xs + expiredPassed mode ys := by
  unfold expiredPassed
  split <;> simp

theorem expiredBlocked_append (mode : PendingOnExpire) (xs ys : List PendingLink) :
    expiredBlocked mode (xs ++ ys) = expiredBlocked mode xs + expiredBlocked mode ys := by
  unfold expiredBlocked
  split <;> simp

theorem Booked.reportExpired {s : Reporting × Nat} {p b : Nat} (h : Booked s.1 p b)
    (catalog : ErrorCatalog) (mode : PendingOnExpire) (expired : List PendingLink) :
    Booked (reportExpired catalog mode s expired).1 (p + expiredPassed mode expired)
        (b + expiredBlocked mode expired) ∧
      (reportExpired catalog mode s expired).2 = s.2 + expiredBlocked mode expired := by
  unfold StageReports.reportExpired
  by_cases hmode : mode = .skip
  · rw [if_pos hmode, hmode]
    exact ⟨h,rfl⟩
  rw [if_neg hmode]
  induction expired generalizing s p b with
  | nil => simpa [expiredPassed, expiredBlocked] using h
  | cons item expired ih =>
    obtain ⟨hone,hcount⟩ := h.reportExpiredItem catalog hmode item
    obtain ⟨hrest,htotal⟩ := ih hone
    rw [List.foldl_cons, ← List.singleton_append, expiredPassed_append, expiredBlocked_append,
      ← Nat.add_assoc, ← Nat.add_assoc, ← Nat.add_assoc, ← hcount]
    exact ⟨hrest,htotal⟩

/-- The links that expired during a run of resolve. -/
def ResolveFeed.expired (feed : ResolveFeed) : List PendingLink :=
  feed.earlier ++ feed.results.flatMap Prod.snd ++ feed.last

theorem Booked.resolveRounds {s : Reporting × Nat} {p b : Nat} (h : Booked s.1 p b)
    (reporter : StageResultReporter ResolvedRow) (catalog : ErrorCatalog) (mode : PendingOnExpire)
    (results : List (TransformResult ResolvedRow × List PendingLink)) :
    Booked (results.foldl (resolveRound reporter catalog mode) s).1
        (p + expiredPassed mode (results.flatMap Prod.snd))
        (b + expiredBlocked mode (results.flatMap Prod.snd)) ∧
      (results.foldl (resolveRound reporter catalog mode) s).2 =
        s.2 + expiredBlocked mode (results.flatMap Prod.snd) := by
  induction results generalizing s p b with
  | nil => simpa [expiredPassed, expiredBlocked] using h
  | cons entry results ih =>
    have hrow := (h.countSpecialOps entry.1).process reporter {} (some entry.1)
    obtain ⟨hone,hcount⟩ := Booked.reportExpired (s := (_,s.2)) hrow catalog mode entry.2
    obtain ⟨hrest,htotal⟩ := ih hone
    rw [List.foldl_cons, List.flatMap_cons, expiredPassed_append, expiredBlocked_append,
      ← Nat.add_assoc, ← Nat.add_assoc, ← Nat.add_assoc]
    refine ⟨hrest,htotal.trans ?_⟩
    rw [hcount]

/-- A call of one of the stage commands, up to the results of its pipeline. -/
inductive StageCall
  | mapping (profile : ReportPolicyProfile) (includeItems : Bool)
      (results : List (TransformResult Fields))
  | normalize (profile : ReportPolicyProfile) (includeItems : Bool)
      (results : List (TransformResult Fields))
  | enrich (profile : ReportPolicyProfile) (includeItems : Bool)
      (payloadBuilder : TransformResult Fields → Option Fields)
      (results : List (TransformResult Fields))
  | matching (profile : ReportPolicyProfile) (includeItems : Bool) (asdict : MatchedRow → Fields)
      (results : List (TransformResult MatchedRow))
  | resolve (profile : ReportPolicyProfile) (includeItems : Bool) (asdict : ResolvedRow → Fields)
      (catalog : ErrorCatalog) (pendingOnExpire : Option PendingOnExpire) (feed : ResolveFeed)

namespace StageCall

def run : StageCall → StageRun
  | .mapping profile includeItems results => runMapping profile includeItems results
  | .normalize profile includeItems results => runNormalize profile includeItems results
  | .enrich profile includeItems payloadBuilder results =>
    runEnrich profile includeItems payloadBuilder results
  | .matching profile includeItems asdict results => runMatch profile includeItems asdict results
  | .resolve profile includeItems asdict catalog pendingOnExpire feed =>
    runResolve profile includeItems asdict catalog pendingOnExpire feed

/-- The rows that a call reports beside the results: passed ones and blocked ones. -/
def aside : StageCall → Nat × Nat
  | .resolve _ _ _ _ pendingOnExpire feed =>
    (expiredPassed (pendingOnExpire.getD .error) feed.expired,
      expiredBlocked (pendingOnExpire.getD .error) feed.expired)
  | _ => (0,0)

/-- Both counts of a call, and its exit code. -/
theorem run_booked (call : StageCall) :
    Booked ⟨call.run.stats,call.run.emitted⟩ call.aside.1 call.aside.2 ∧
      call.run.result.exitCode =
        if 0 < call.run.stats.failedRows ∨ 0 < call.aside.2 then 1 else 0 := by
  have hpublished : ∀ (reporter : StageResultReporter Fields)
      (results : List (TransformResult Fields)),
      Booked ⟨(publish reporter (processAll reporter (fun _ => {}) results {})).stats,
        (publish reporter (processAll reporter (fun _ => {}) results {})).emitted⟩ 0 0 ∧
      (publish reporter (processAll reporter (fun _ => {}) results {})).result.exitCode =
        if 0 < (publish reporter (processAll reporter (fun _ => {}) results {})).stats.failedRows ∨
          0 < 0 then 1 else 0 := fun reporter results =>
    ⟨(Booked.start.processAll reporter _ results).publishContext reporter,
      by simp [publish, StageCommandResultResolver.resolve_exitCode]⟩
  cases call with
  | mapping profile includeItems results => exact hpublished _ results
  | normalize profile includeItems results => exact hpublished _ results
  | enrich profile includeItems payloadBuilder results => exact hpublished _ results
  | matching profile includeItems asdict results =>
    refine ⟨(Booked.start.processAll _ _ results).emit _ ⟨rfl,rfl,rfl⟩,?_⟩
    simp [run, runMatch, aside, StageCommandResultResolver.resolve_exitCode]
  | resolve profile includeItems asdict catalog pendingOnExpire feed =>
    obtain ⟨hearlier,hearlierCount⟩ := Booked.reportExpired (s := ({},0)) Booked.start catalog
      (pendingOnExpire.getD .error) feed.earlier
    obtain ⟨hlooped,hloopedCount⟩ := hearlier.resolveRounds
      (resolveReporter profile includeItems asdict) catalog (pendingOnExpire.getD .error)
      feed.results
    obtain ⟨hlast,hlastCount⟩ := hlooped.reportExpired catalog (pendingOnExpire.getD .error)
      feed.last
    rw [hloopedCount, hearlierCount] at hlastCount
    simp only [Nat.zero_add] at hlast hlastCount
    simp only [aside, ResolveFeed.expired, expiredPassed_append, expiredBlocked_append]
    refine ⟨hlast.publishContext _,?_⟩
    rw [← hlastCount]
    refine (StageCommandResultResolver.resolve_exitCode _ _).trans ?_
    simp only [Bool.or_eq_true, decide_eq_true_eq, ← or_assoc, or_self]
    rfl

end StageCall

/-- Whether a result is reported as a failed row. -/
def blocks (reporter : StageResultReporter ρ) (argsOf : TransformResult ρ → ProcessArgs)
    (result : TransformResult ρ) : Bool :=
  !reporter.strategy.shouldSkip (some result) && reporter.fails (argsOf result) (some result)

theorem process_failedRows (reporter : StageResultReporter ρ)
    (argsOf : TransformResult ρ → ProcessArgs) (s : Reporting) (result : TransformResult ρ) :
    (reporter.process s (argsOf result) (some result)).stats.failedRows =
      s.stats.failedRows + (blocks reporter argsOf result).toNat := by
  unfold StageResultReporter.process blocks
  cases reporter.strategy.shouldSkip (some result) <;> simp

theorem processAll_failedRows (reporter : StageResultReporter ρ)
    (argsOf : TransformResult ρ → ProcessArgs) (results : List (TransformResult ρ))
    (s : Reporting) : (processAll reporter argsOf results s).stats.failedRows =
      s.stats.failedRows + results.countP (blocks reporter argsOf) := by
  induction results generalizing s with
  | nil => rfl
  | cons result results ih =>
    have hstep := process_failedRows reporter argsOf s result
    rw [processAll, List.foldl_cons, ← processAll, ih, hstep, List.countP_cons]
    cases blocks reporter argsOf result
    · simp
    · simp
      omega

theorem reportExpired_stats (catalog : ErrorCatalog) (mode : PendingOnExpire)
    (s : Reporting × Nat) (expired : List PendingLink) :
    (reportExpired catalog mode s expired).1.stats = s.1.stats := by
  unfold reportExpired
  split
  · rfl
  · induction expired generalizing s with
    | nil => rfl
    | cons item expired ih =>
      rw [List.foldl_cons, ih]
      unfold reportExpiredItem
      split <;> rfl

theorem countSpecialOps_stats (s : Reporting) (result : TransformResult ρ) :
    (countSpecialOps s result).stats = s.stats := by
  unfold countSpecialOps
  dsimp only
  split
  · split <;> rfl
  · split <;> rfl

theorem resolveRounds_failedRows (reporter : StageResultReporter ResolvedRow)
    (catalog : ErrorCatalog) (mode : PendingOnExpire) (s : Reporting × Nat)
    (results : List (TransformResult ResolvedRow × List PendingLink)) :
    (results.foldl (resolveRound reporter catalog mode) s).1.stats.failedRows =
      s.1.stats.failedRows + (results.map Prod.fst).countP (blocks reporter fun _ => {}) := by
  induction results generalizing s with
  | nil => rfl
  | cons entry results ih =>
    have hstep := process_failedRows reporter (fun _ => {}) (countSpecialOps s.1 entry.1) entry.1
    rw [countSpecialOps_stats] at hstep
    rw [List.foldl_cons, ih, resolveRound, reportExpired_stats, hstep, List.map_cons,
      List.countP_cons]
    cases blocks reporter (fun _ => {}) entry.1
    · simp
    · simp
      omega

/-- The counters of the report are the statistics of the call and the links that expired beside
its results. The report that is finished after it is a success if and only if the exit code is
zero, and a failure if and only if it is one and no row passed. -/
theorem verdict (call : StageCall) (upper : String → String) (c : InMemoryReportContext)
    {es : List Reported} (hes : es.map Reported.event = call.run.emitted)
    (hblocked : c.summary.rowsBlocked = 0) (hpassed : c.summary.rowsPassed = 0)
    (hstatus : c.status = none) (now : String) (finishedAt : Option String)
    (durationMs : Option Int) :
    Moved (call.run.stats.okRows + call.aside.1) (call.run.stats.failedRows + call.aside.2)
        c.summary (c.after upper es).summary ∧
      call.run.stats.rowsTotal = call.run.stats.okRows + call.run.stats.failedRows ∧
      (((c.after upper es).append upper now (.finish finishedAt durationMs)).1.status =
          some "SUCCESS" ↔ call.run.result.exitCode = 0) ∧
      (((c.after upper es).append upper now (.finish finishedAt durationMs)).1.status =
          some "FAILED" ↔ call.run.result.exitCode = 1 ∧
            call.run.stats.okRows + call.aside.1 = 0) := by
  obtain ⟨⟨hevents,htotal,hok,hfailed⟩,hexit⟩ := call.run_booked
  have hcounts : ∀ r ∈ es, CountsRow r.event := by
    intro r hr
    exact hevents r.event (hes ▸ List.mem_map_of_mem hr)
  have hmoved := moved_after upper c es hcounts
  have hkept := after_status upper c es hcounts
  have hcount : ∀ test : ReportEvent → Bool,
      (es.countP fun r => test r.event) = call.run.emitted.countP test := by
    intro test
    rw [← hes, List.countP_map]
    rfl
  rw [hcount okItem, hcount failedItem, ← hok, ← hfailed] at hmoved
  obtain ⟨-,hmovedPassed,hmovedBlocked,-⟩ := id hmoved
  have hfinished : ((c.after upper es).append upper now (.finish finishedAt durationMs)).1.status =
      some (InMemoryReportContext.deriveStatus (c.after upper es).summary) := by
    simp only [InMemoryReportContext.append, hkept, hstatus, Option.getD_none]
  rw [hblocked, Int.zero_add] at hmovedBlocked
  rw [hpassed, Int.zero_add] at hmovedPassed
  rw [hfinished, hexit, Option.some.injEq, Option.some.injEq, deriveStatus_success,
    deriveStatus_failed, hmovedBlocked, hmovedPassed]
  dsimp only
  refine ⟨hmoved,htotal,?_,?_⟩
  · split <;> omega
  · split <;> omega

/-- A link that expired before the only row of a run of resolve, which the matcher lost. -/
def expiredCall : StageCall :=
  .resolve .standard true (fun _ => []) [] none
    { earlier := [{ pendingId := 7, dataset := "employees", sourceRowId := "row:3"
                    field := "manager_id", lookupKey := "match:E2", status := .expired
                    reason := some "expired", attempts := 2, createdAt := "2024-01-01"
                    lastAttemptAt := none, expiresAt := some "2024-01-02", payload := none }]
      results := [({ record := ⟨4,"row:4",[]⟩, row := none, rowRef := none, matchKey := none
                     metadata := [], secretCandidates := [], errors := [diagError [] .matching
                       "MATCH_CONFLICT_TARGET" none none none none], warnings := [] },[])]
      last := [] }

theorem verdict_expired :
    ((((InMemoryReportContext.new "run" "resolve" "t").after id
        (expiredCall.run.emitted.map (Reported.mk "t"))).append id "t"
          (.finish none none)).1.status = some "FAILED" ↔
      expiredCall.run.result.exitCode = 1 ∧
        expiredCall.run.stats.okRows + expiredCall.aside.1 = 0) :=
  (verdict expiredCall id (.new "run" "resolve" "t") (by simp [Function.comp_def]) rfl rfl rfl "t"
    none none).2.2.2

end NexusEtl.StageReports
