import NexusEtl.EnrichModels

/-!
# The enricher

Operations run in order over one builder. Each collects candidates, resolves
their conflict and applies the selected value under its merge policy; the
events and hints go to the metadata. After the last operation the secret
candidates are stored and cleared. An exception that the core does not catch
leaves it and is turned into a diagnostic by the stage.
-/

set_option autoImplicit false

namespace NexusEtl
open NexusEtl.Library

structure EnricherCore (D : Type) where
  spec : EnricherSpec D
  putMany : Option (D → String → String → Dict String String → Option String →
    Except PyException Unit)
  dataset : String
  catalog : ErrorCatalog
  sinkSpec : Option SinkSpec
  runId : Option String

structure EnrichOpError where
  code : String
  message : String
  field : Option String
  deriving DecidableEq, Repr

abbrev Collected := Except EnrichOpError (List CandidateValue)

def secretPrefix : String := "secret:"

def isSecretTarget (field : String) : Bool := Text.hasPrefix secretPrefix field

def sinkFieldName (field : String) : String :=
  if isSecretTarget field then Text.dropPrefix secretPrefix field else field

def getFieldValue (builder : Enriching) (field : String) : Value :=
  if field = "match_key" then optStr builder.matchKey
  else if isSecretTarget field then
    optStr (Dict.get? builder.secretCandidates (sinkFieldName field))
  else match builder.row with
    | none => .null
    | some row => Fields.read row field

def setFieldValue (builder : Enriching) (field : String) (value : Value) : Enriching :=
  if field = "match_key" then { builder with matchKey := some value.pyStr }
  else if isSecretTarget field then
    if value.isNull then builder
    else { builder with
      secretCandidates := Dict.set builder.secretCandidates (sinkFieldName field) value.pyStr }
  else match builder.row with
    | none => builder
    | some row => { builder with row := some (Dict.set row field value) }

/-- `a or b or c`: the first text that is neither missing nor empty. -/
def firstText : List (Option String) → Option String
  | [] => none
  | [last] => last
  | some s::rest => if s ≠ "" then some s else firstText rest
  | none::rest => firstText rest

namespace EnricherCore

variable {D : Type} (core : EnricherCore D) (deps : D)

def makeError (builder : Enriching) (code message : String) (field : Option String)
    (details : Option Fields) : DiagnosticItem :=
  diagError core.catalog .enrich code field (some message) builder.rowRef details

def makeWarning (builder : Enriching) (code message : String) (field : Option String)
    (details : Option Fields) : DiagnosticItem :=
  diagWarning core.catalog .enrich code field (some message) builder.rowRef details none

def priorityFor (source : String) : Int := (Dict.get? core.spec.sourcePriorities source).getD 0

def reportByPolicy (builder : Enriching) (op : EnrichmentOperation D) (outcome : EnrichOutcome)
    (code message : String) (field : Option String) (reason : String) (details : Fields) :
    OperationReport :=
  let resolvedField := firstText [field,op.errorField,op.targets.head?]
  let resolvedDetails := Dict.update
    [("rule",.str op.name),("target",optStr op.targets.head?),("reason",.str reason)] details
  { op := op.name
    outcome := outcome
    events := []
    resolveHints := []
    warnings := if outcome = .warned ∨ outcome = .needsResolve then
      [core.makeWarning builder code message resolvedField (some resolvedDetails)] else []
    errors := if outcome = .failed then
      [core.makeError builder code message resolvedField (some resolvedDetails)] else [] }

def resolveKey (result : Enriching) (key : String) : Except PyException Value :=
  match Dict.get? core.spec.keyBuilders key with
  | some builder => builder result
  | none => .ok (Fields.read result.metadata key)

def resolveKeys (result : Enriching) : List String → Except PyException Fields
  | [] => .ok []
  | key::keys => do
    let value ← core.resolveKey result key
    let rest ← resolveKeys result keys
    return (key,value)::rest

def generatedCandidate (op : EnrichmentOperation D) (value : Value) : CandidateValue :=
  { field := op.targets.headD "", value := value, source := "generated"
    priority := some (core.priorityFor "generated"), confidence := none, evidence := none }

def missingOr (code : Option String) (message : String) (field : Option String) : Collected :=
  match firstText [code] with
  | some code => if code ≠ "" then .error ⟨code,message,field⟩ else .ok []
  | none => .ok []

def postprocessed (op : EnrichmentOperation D) (value : Value) : Except PyException Value :=
  match op.postprocess with
  | some f => f value
  | none => .ok value

/-- Whether the generated value may be used: it is free, or its owner is allowed. -/
def accepts (op : EnrichmentOperation D) (result : Enriching) (value : Value) :
    Except PyException Bool :=
  match op.existing with
  | none => .ok true
  | some existing => do
    match ← existing deps value with
    | none => return true
    | some owner => match op.allowIf with
      | some allow => allow result owner
      | none => return false

def generateAttempts (op : EnrichmentOperation D)
    (generator : Nat → Enriching → D → Except PyException Value) (result : Enriching)
    (attempt : Nat) : Nat → Except PyException Collected
  | 0 => .ok (missingOr op.conflictErrorCode "unable to generate unique value" op.errorField)
  | left+1 => do
    let candidate ← generator attempt result deps
    if candidate.isBlank then
      return missingOr op.missingErrorCode "required value is missing" op.errorField
    let candidate ← postprocessed op candidate
    if ← accepts deps op result candidate then
      return .ok [core.generatedCandidate op candidate]
    generateAttempts op generator result (attempt+1) left

def compiledBase (op : EnrichmentOperation D) (result : Enriching) (attempt : Nat) :
    Except PyException Value :=
  match firstGenerator with
  | none => .ok .null
  | some generator => do
    let base ← generator attempt result deps
    match op.condition with
    | none => return base
    | some condition =>
      if ← condition result deps then
        let appended ← match op.appendGenerator with
          | some append => append attempt result deps
          | none => pure .null
        if appended.isBlank then return base
        else if base.isBlank then return appended
        else return .str (base.pyStr ++ appended.pyStr)
      else return base
where
  firstGenerator := match op.baseGenerator with
    | some g => some g
    | none => op.generator

def compiledCandidates (op : EnrichmentOperation D) (base : Value) : List Value :=
  match op.conflictPolicy with
  | some policy => match policy.strategy with
    | .retryWithSuffixes => base::policy.suffixes.map fun s => .str (base.pyStr ++ s)
    | .error => [base]
  | none => [base]

/-- The first candidate of one attempt that is present and accepted. -/
def firstAccepted (op : EnrichmentOperation D) (result : Enriching) :
    List Value → Except PyException (Option Value)
  | [] => .ok none
  | candidate::rest => do
    let current ← postprocessed op candidate
    if current.isBlank then firstAccepted op result rest
    else if ← accepts deps op result current then return some current
    else firstAccepted op result rest

def compiledAttempts (op : EnrichmentOperation D) (result : Enriching) (attempt : Nat) :
    Nat → Except PyException Collected
  | 0 => .ok (missingOr op.conflictErrorCode "unable to generate unique value" op.errorField)
  | left+1 => do
    let base ← compiledBase deps op result attempt
    if base.isBlank then
      return missingOr op.missingErrorCode "required value is missing" op.errorField
    match ← firstAccepted deps op result (compiledCandidates op base) with
    | some value => return .ok [core.generatedCandidate op value]
    | none =>
      if op.conflictPolicy.isSome then
        return missingOr op.conflictErrorCode "unable to generate unique value" op.errorField
      else compiledAttempts op result (attempt+1) left

def generateCandidates (op : EnrichmentOperation D) (result : Enriching) :
    Except PyException Collected :=
  if op.baseGenerator.isSome || op.condition.isSome || op.appendGenerator.isSome
      || op.conflictPolicy.isSome then
    core.compiledAttempts deps op result 0 (match op.conflictPolicy with
      | some policy => policy.attempts
      | none => (max 1 op.maxAttempts).toNat)
  else match op.generator with
    | none => .ok (.ok [])
    | some generator =>
      core.generateAttempts deps op generator result 0 (max 1 op.maxAttempts).toNat

def providerError (op : EnrichmentOperation D) (exc : PyException) : EnrichOpError :=
  ⟨"ENRICH_PROVIDER_ERROR",exc.text,op.errorField⟩

def computeCandidates (op : EnrichmentOperation D) (result : Enriching) : Collected :=
  match op.compute with
  | none => .ok []
  | some compute => match compute result deps with
    | .error exc => .error (providerError op exc)
    | .ok values =>
      let target := op.targets.headD ""
      match Dict.get? values target with
      | none => .ok []
      | some value => .ok [{
          field := target, value := value, source := "computed"
          priority := some (core.priorityFor "computed"), confidence := none, evidence := none }]

def admitFetched (target : String) (candidates : List CandidateValue) :
    List CandidateValue → Collected
  | [] => .ok candidates
  | c::rest =>
    if c.field ≠ target then
      .error ⟨"ENRICH_TARGET_MISMATCH","candidate field does not match operation target",
        some c.field⟩
    else
      let c := if c.priority.isNone then { c with priority := some (core.priorityFor c.source) }
        else c
      admitFetched target (candidates ++ [c]) rest

def lookupCandidates (ctx : EnrichContext) (op : EnrichmentOperation D) (result : Enriching)
    (keys : Fields) (candidates : List CandidateValue) :
    List (EnrichContext → Enriching → D → Fields → Except PyException (List CandidateValue)) →
      Collected
  | [] => .ok candidates
  | fetch::rest => match fetch ctx result deps keys with
    | .error exc => .error (providerError op exc)
    | .ok fetched => do
      let candidates ← core.admitFetched (op.targets.headD "") candidates fetched
      lookupCandidates ctx op result keys candidates rest

def collectCandidates (ctx : EnrichContext) (op : EnrichmentOperation D) (result : Enriching)
    (keys : Fields) : Except PyException Collected :=
  match op.opType with
  | .compute => .ok (core.computeCandidates deps op result)
  | .generate => core.generateCandidates deps op result
  | .fillMissing | .lookup | .membership =>
    .ok (core.lookupCandidates deps ctx op result keys [] op.providers)

def sinkTargetIssues (field : String) (value : Value) : List DslIssue :=
  match core.sinkSpec with
  | none => []
  | some spec => validateSinkFields [(field,value)] spec [field] true

structure EnrichState where
  builder : Enriching
  writers : Dict String String
  deriving DecidableEq, Repr

def event (op : EnrichmentOperation D) (candidate : CandidateValue) (field : String)
    (before after : Value) (decision : String) (outcome : EnrichOutcome) : EnrichEvent :=
  { op := op.name, field := field, before := before, after := after
    source := candidate.source, decision := decision, outcome := outcome }

/-- The loop over the targets in `_apply_candidates`; a sink issue ends it with a report. -/
def applyTargets (op : EnrichmentOperation D) (candidate : CandidateValue) (mode : MergeMode) :
    List String → EnrichState → List EnrichEvent → EnrichState × OperationReport
  | [], state, events =>
    (state,{ op := op.name
             outcome := if events.any (·.outcome == .applied) then .applied else .skipped
             events := events, resolveHints := [], warnings := [], errors := [] })
  | field::fields, state, events =>
    let current := getFieldValue state.builder field
    let written := Dict.contains state.writers field
    if !MergeEngine.shouldApply core.spec.authoritativeSources current candidate mode then
      applyTargets op candidate mode fields state (events ++ [event op candidate field
        current current (if written then "conflict_skipped" else "policy_skip") .skipped])
    else match core.sinkTargetIssues (sinkFieldName field) candidate.value with
      | issue::_ =>
        (state,core.reportByPolicy state.builder op
          (op.strictness.getD core.spec.defaultStrictness).onProviderError
          issue.code issue.message (firstText [issue.field,some (sinkFieldName field)])
          "sink_validation" [])
      | [] =>
        applyTargets op candidate mode fields
          { builder := setFieldValue state.builder field candidate.value
            writers := Dict.set state.writers field op.name }
          (events ++ [event op candidate field current candidate.value
            (if written then "overridden_previous_op" else "applied") .applied])

def candidateRef (candidate : CandidateValue) : Fields :=
  let evidence := candidate.evidence.getD []
  [("source",.str candidate.source),("identity_key",Fields.read evidence "identity_key"),
    ("target_id",Fields.read evidence "target_id"),
    ("evidence",match candidate.evidence with | some e => .dict e | none => .null)]

def ambiguousHint (op : EnrichmentOperation D) (keys : Fields)
    (candidates : List CandidateValue) : ResolveHint :=
  { field := op.targets.headD ""
    lookupKey := [("keys",.dict keys),("strength",.str "strong"),("as_of",.null)]
    reason := "ambiguous"
    candidates := candidates.map candidateRef
    suggestedPolicy := some "manual" }

/-- What an operation does once its candidates are known. -/
def decideCandidates (op : EnrichmentOperation D) (keys : Fields) (state : EnrichState) :
    Collected → EnrichState × OperationReport
  | .error e =>
    (state,core.reportByPolicy state.builder op
      (op.strictness.getD core.spec.defaultStrictness).onProviderError
      e.code e.message e.field "provider_error" [])
  | .ok candidates =>
    let strictness := op.strictness.getD core.spec.defaultStrictness
    match ConflictResolver.decide candidates with
    | .none =>
      let report := match op.opType, firstText [op.missingErrorCode] with
        | .compute, some code =>
          if code ≠ "" then core.reportByPolicy state.builder op strictness.onProviderError
            code "computed value is missing" op.errorField "missing_value" []
          else noCandidates strictness
        | _, _ => noCandidates strictness
      (state,report)
    | .ambiguous candidates =>
      let report := core.reportByPolicy state.builder op strictness.onAmbiguous
        "ENRICH_AMBIGUOUS" "ambiguous candidates" none "ambiguous"
        [("candidates_count",.int candidates.length)]
      (state,{ report with
        resolveHints := report.resolveHints ++ [ambiguousHint op keys candidates] })
    | .selected candidate =>
      core.applyTargets op candidate (op.mergePolicy.getD core.spec.defaultMergePolicy)
        op.targets state []
where
  noCandidates (strictness : StrictnessPolicy) : OperationReport :=
    core.reportByPolicy state.builder op strictness.onNoCandidates "ENRICH_NO_CANDIDATES"
      "no candidates available" none "no_candidates" []

def executeOperation (ctx : EnrichContext) (op : EnrichmentOperation D) (state : EnrichState) :
    Except PyException (EnrichState × OperationReport) :=
  if op.targets.length ≠ 1 then
    .ok (state,core.reportByPolicy state.builder op .failed "ENRICH_MULTI_TARGET_UNSUPPORTED"
      "operation targets must contain exactly one field" none "invalid_operation" [])
  else do
    let keys ← core.resolveKeys state.builder op.requiredKeys
    if op.requiredKeys ≠ [] ∧ keys.any (fun kv => kv.2.isBlank) then
      return (state,core.reportByPolicy state.builder op
        (op.strictness.getD core.spec.defaultStrictness).onMissingKey "ENRICH_MISSING_KEY"
        "required key is missing" none "missing_key" [])
    let collected ← core.collectCandidates deps ctx op state.builder keys
    return core.decideCandidates op keys state collected

def shouldRunOperation (op : EnrichmentOperation D) (errors : List DiagnosticItem) : Bool :=
  if errors = [] then true
  else match op.runWhenErrors with
    | .always => true
    | .never => false
    | .onlyNonFatal => match core.spec.isFatalError with
      | none => false
      | some checker => !errors.any checker

/-- `meta[key].extend(items)`: nothing happens without items, else a list must be there. -/
def extendMeta (metadata : Fields) (key : String) (items : List Value) :
    Except PyException Fields :=
  if items = [] then .ok metadata
  else match Fields.read metadata key with
    | .list old => .ok (Dict.set metadata key (.list (old ++ items)))
    | other => .error ⟨"AttributeError",
        "'" ++ other.typeName ++ "' object has no attribute 'extend'"⟩

structure RunState where
  state : EnrichState
  summary : EnricherReport
  deriving DecidableEq, Repr

/-- One turn of the loop in `enrich`: the next state and whether the loop breaks. -/
def stepOperation (ctx : EnrichContext) (op : EnrichmentOperation D) (run : RunState) :
    Except PyException (RunState × Bool) :=
  if core.shouldRunOperation op run.state.builder.errors then do
    let (state,report) ← core.executeOperation deps ctx op run.state
    let events ← extendMeta state.builder.metadata "enrich_events"
      (report.events.map EnrichEvent.toValue)
    let fields ← extendMeta events "resolve_requests"
      (report.resolveHints.map ResolveHint.toValue)
    return ({
      state := { state with builder := { state.builder with
        metadata := fields
        errors := state.builder.errors ++ report.errors
        warnings := state.builder.warnings ++ report.warnings } }
      summary := run.summary.record report },
      core.spec.stopOnFailed && report.outcome == .failed)
  else .ok (run,false)

def runOperations (ctx : EnrichContext) :
    List (EnrichmentOperation D) → RunState → Except PyException RunState
  | [], run => .ok run
  | op::ops, run => do
    match ← core.stepOperation deps ctx op run with
    | (next,true) => return next
    | (next,false) => runOperations ctx ops next

def clearSecretFields (row : Fields) (fields : List String) : Fields :=
  fields.foldl (fun row f => if Dict.contains row f then Dict.set row f .null else row) row

def storeSecrets (builder : Enriching) : Enriching :=
  if builder.secretCandidates = [] then builder
  else match builder.matchKey with
    | none => builder.addErrors [core.makeError builder "SECRET_MATCH_KEY_MISSING"
        "match_key is required to store secrets" (some "matchKey") none]
    | some matchKey =>
      let stored := match core.putMany with
        | none => builder
        | some put => match put deps core.dataset matchKey builder.secretCandidates core.runId with
          | .ok () => builder
          | .error _ => builder.addErrors [core.makeError builder "SECRET_STORE_ERROR"
              "failed to store secrets" none none]
      let fields := Dict.keys builder.secretCandidates
      { stored with
        metadata := Dict.set stored.metadata "secret_fields" (.list (fields.map .str))
        row := stored.row.map fun row => clearSecretFields row fields
        secretCandidates := [] }

def ensureList (metadata : Fields) (key : String) : Fields :=
  if Dict.contains metadata key then metadata else Dict.set metadata key (.list [])

/-- The builder with which the loop over the operations starts. -/
def startBuilder (result : Enriching) : Enriching :=
  let builder := { result with
    metadata := ensureList (ensureList result.metadata "enrich_events") "resolve_requests" }
  if builder.errors ≠ [] ∧ core.spec.isFatalError.isNone ∧
      core.spec.operations.any (·.runWhenErrors == .onlyNonFatal) then
    { builder with warnings := builder.warnings ++ [core.makeWarning builder
      "ENRICH_FATAL_POLICY_UNSET"
      "run_when_errors=ONLY_NON_FATAL requires fatal error classifier" none none] }
  else builder

def context : EnrichContext := ⟨core.dataset,core.runId⟩

def startRun (result : Enriching) : RunState :=
  { state := { builder := core.startBuilder result, writers := [] }
    summary := { operationsTotal := 0, outcomes := [], updatedFields := 0 } }

def finish (run : RunState) : Enriching :=
  let builder := core.storeSecrets deps run.state.builder
  { builder with metadata := Dict.set builder.metadata "enrich_summary" run.summary.toValue }

def enrich (result : Enriching) : Except PyException Enriching :=
  match result.row with
  | none => .ok result
  | some _ => do
    let run ← core.runOperations deps core.context core.spec.operations (core.startRun result)
    return core.finish deps run

/-- The write of an operation, with the event that reports it. -/
structure Write (before after : EnrichState) (events : List EnrichEvent) where
  field : String
  value : Value
  builder : after.builder = setFieldValue before.builder field value
  logged : ∃ e ∈ events, e.field = field ∧ e.before = getFieldValue before.builder field ∧
    e.after = value

/-- What one operation may do to the builder: nothing, or one reported write. -/
def Effect (before after : EnrichState) (events : List EnrichEvent) : Prop :=
  after = before ∨ Nonempty (Write before after events)

theorem reportByPolicy_errors (builder : Enriching) (op : EnrichmentOperation D)
    (outcome : EnrichOutcome) (code message : String) (field : Option String)
    (reason : String) (details : Fields) :
    ∀ e ∈ (core.reportByPolicy builder op outcome code message field reason details).errors,
      e.stage = .enrich := by
  intro e he
  simp only [reportByPolicy] at he
  split at he
  · rw [List.mem_singleton.mp he]
    rfl
  · cases he

theorem applyTargets_single (op : EnrichmentOperation D) (candidate : CandidateValue)
    (mode : MergeMode) (field : String) (state : EnrichState) :
    Effect state (core.applyTargets op candidate mode [field] state []).1
      (core.applyTargets op candidate mode [field] state []).2.events ∧
    ∀ e ∈ (core.applyTargets op candidate mode [field] state []).2.errors,
      e.stage = .enrich := by
  simp only [applyTargets, List.nil_append]
  split
  · exact ⟨.inl rfl,by simp⟩
  · split
    · exact ⟨.inl rfl,core.reportByPolicy_errors _ _ _ _ _ _ _ _⟩
    · refine ⟨.inr ⟨⟨field,candidate.value,rfl,?_⟩⟩,by simp⟩
      exact ⟨_,List.mem_singleton.mpr rfl,rfl,rfl,rfl⟩

theorem decideCandidates_spec (op : EnrichmentOperation D) (keys : Fields)
    (state : EnrichState) (collected : Collected) (ht : op.targets.length = 1) :
    Effect state (core.decideCandidates op keys state collected).1
      (core.decideCandidates op keys state collected).2.events ∧
    ∀ e ∈ (core.decideCandidates op keys state collected).2.errors, e.stage = .enrich := by
  obtain ⟨field,hfield⟩ := List.length_eq_one_iff.mp ht
  unfold decideCandidates
  split
  · exact ⟨.inl rfl,core.reportByPolicy_errors _ _ _ _ _ _ _ _⟩
  · simp only
    split
    · refine ⟨.inl rfl,?_⟩
      dsimp only
      split
      · split
        · exact core.reportByPolicy_errors _ _ _ _ _ _ _ _
        · exact core.reportByPolicy_errors _ _ _ _ _ _ _ _
      · exact core.reportByPolicy_errors _ _ _ _ _ _ _ _
    · exact ⟨.inl rfl,core.reportByPolicy_errors _ _ _ _ _ _ _ _⟩
    · rw [hfield]
      exact core.applyTargets_single op _ _ field state

theorem executeOperation_spec {ctx : EnrichContext} {op : EnrichmentOperation D}
    {state next : EnrichState} {report : OperationReport}
    (h : core.executeOperation deps ctx op state = .ok (next,report)) :
    Effect state next report.events ∧ ∀ e ∈ report.errors, e.stage = .enrich := by
  unfold executeOperation at h
  split at h
  · cases h
    exact ⟨.inl rfl,core.reportByPolicy_errors _ _ _ _ _ _ _ _⟩
  · rename_i ht
    simp only [bind, Except.bind, pure, Except.pure] at h
    split at h
    · cases h
    · split at h
      · cases h
        exact ⟨.inl rfl,core.reportByPolicy_errors _ _ _ _ _ _ _ _⟩
      · split at h
        · cases h
        · rename_i keys _ _ _ collected _
          have hspec := core.decideCandidates_spec op keys state collected (by omega)
          rw [Except.ok.inj h] at hspec
          exact hspec

theorem extendMeta_events {metadata out : Fields} {key : String} {items : List Value}
    (h : extendMeta metadata key items = .ok out) :
    (items = [] ∧ out = metadata) ∨ ∃ old, Fields.read metadata key = .list old ∧
      out = Dict.set metadata key (.list (old ++ items)) := by
  unfold extendMeta at h
  split at h
  · rename_i hi
    cases h
    exact .inl ⟨hi,rfl⟩
  · split at h
    · rename_i old hold
      cases h
      exact .inr ⟨old,hold,rfl⟩
    · cases h

/-- One turn of the loop: skipped, or the effect of the operation with its events
appended to the metadata and its errors, all of the enrich stage, to the result. -/
theorem stepOperation_spec {ctx : EnrichContext} {op : EnrichmentOperation D}
    {run next : RunState} {stop : Bool}
    (h : core.stepOperation deps ctx op run = .ok (next,stop)) :
    next = run ∨ ∃ (state : EnrichState) (events : List EnrichEvent)
        (fields : Fields) (errs : List DiagnosticItem) (warns : List DiagnosticItem),
      Effect run.state state events ∧ (∀ e ∈ errs, e.stage = .enrich) ∧
      extendMeta state.builder.metadata "enrich_events"
        (events.map EnrichEvent.toValue) = .ok fields ∧
      (∃ hints, extendMeta fields "resolve_requests" hints =
        .ok next.state.builder.metadata) ∧
      next.state.builder = { state.builder with
        metadata := next.state.builder.metadata
        errors := state.builder.errors ++ errs
        warnings := state.builder.warnings ++ warns } := by
  unfold stepOperation at h
  split at h
  · simp only [bind, Except.bind, pure, Except.pure] at h
    split at h
    · cases h
    · rename_i executed hexec
      split at h
      · cases h
      · rename_i fields hfields
        split at h
        · cases h
        · rename_i out hout
          cases h
          obtain ⟨heffect,herrs⟩ := core.executeOperation_spec deps hexec
          exact .inr ⟨_,_,_,_,_,heffect,herrs,hfields,⟨_,hout⟩,rfl⟩
  · cases h
    exact .inl rfl

end EnricherCore
end NexusEtl
