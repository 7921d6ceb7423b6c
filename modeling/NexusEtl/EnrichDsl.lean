import NexusEtl.Enrich
import NexusEtl.MatchKeys
import NexusEtl.CacheDsl
import NexusEtl.Canonicalization

/-!
# The enrich specification and its compiler

A rule generates a value for its target or looks one up at a provider. The
schema restricts how the parts of a rule combine; a value of these types has
passed it. The compiler turns the match key and every rule into an operation of
the enricher, the look-ups before the rules that generate.
-/

set_option autoImplicit false

namespace NexusEtl
open NexusEtl.Library

structure SourceOpsBlock where
  source : Option String
  sources : Option (List String)
  ops : List OperationCall := []
  one_source : source.isSome = !sources.isSome

structure ProviderRef where
  name : String
  args : Fields := []
  canonicalization : Option (List CanonicalizeOpSpec) := none

structure EnrichConflictPolicy where
  strategy : ConflictStrategy
  suffixes : List String := []
  suffixes_ne : strategy = .retryWithSuffixes → suffixes ≠ []

inductive MergeChoice
  | recomputeAlways | fillOnlyIfEmpty | neverOverride | overrideIfEmpty
  | overrideIfAuthoritative
  deriving DecidableEq, Repr

inductive StrictnessChoice
  | skip | warn | error | needsResolve
  deriving DecidableEq, Repr

inductive RunChoice
  | never | ifAny | always
  deriving DecidableEq, Repr

/-- A rule as the schema leaves it: an `allow_if` given by name is a call without arguments. -/
structure EnrichRule where
  name : String
  target : String
  buildBlock : Option SourceOpsBlock := none
  whenBlock : Option SourceOpsBlock := none
  thenBlock : Option SourceOpsBlock := none
  provider : Option ProviderRef := none
  valuePath : Option String := none
  source : Option String := none
  sources : Option (List String) := none
  ops : List OperationCall := []
  onError : OnError := .error
  onMissingKey : Option StrictnessChoice := none
  onNoCandidates : Option StrictnessChoice := none
  onAmbiguous : Option StrictnessChoice := none
  onProviderError : Option OnError := none
  merge : Option MergeChoice := none
  existsRef : Option ProviderRef := none
  allowIf : Option OperationCall := none
  onConflict : Option EnrichConflictPolicy := none
  maxAttempts : Option Int := none
  runWhenErrors : Option RunChoice := none
  missingErrorCode : Option String := none
  conflictErrorCode : Option String := none
  errorField : Option String := none
  then_when : thenBlock.isSome = true → whenBlock.isSome = true

/-- What the schema asks of a look-up rule. -/
def EnrichRule.Plain (rule : EnrichRule) : Prop :=
  rule.buildBlock.isNone ∧ rule.whenBlock.isNone ∧ rule.thenBlock.isNone ∧ rule.onConflict.isNone

structure EnrichBlock where
  matchKey : Option MatchKeySpec := none
  secrets : Option (List String) := none
  generate : List EnrichRule := []
  lookup : List EnrichRule := []
  lookup_plain : ∀ rule ∈ lookup, rule.Plain

structure EnrichSpec where
  dataset : String
  enrich : EnrichBlock

structure EnrichDslBuildOptions where
  failOnUnknownOps : Bool := true
  requireMatchKey : Bool := false
  deriving DecidableEq, Repr

/-- The providers by name, and the rows of a cached dataset with or without the deleted ones. -/
structure ProviderGateway (D : Type) where
  lookup : Dict String (D → Value → Fields → Except PyException (List Fields))
  existing : Dict String (D → Value → Fields → Except PyException (Option Value))
  readAll : D → String → Bool → Except PyException (List Fields)

/-- The registry as it answers in each attempt, since an operation may draw at random. What is
not asked once an attempt is asked of the first. -/
abbrev TransformationEngine := Nat → OperationRegistry

/-! ## Reading the row -/

def readResultPath (result : Enriching) (path : String) : Value :=
  if path = "match_key" then optStr result.matchKey
  else if Text.hasPrefix "meta." path then
    readValuePath result.metadata (Text.dropPrefix "meta." path)
  else match result.row with
    | none => .null
    | some row => readValuePath row path

def readSources (result : Enriching) (source : Option String) (sources : Option (List String)) :
    Value :=
  if sources.getD [] ≠ [] then .list ((sources.getD []).map (readResultPath result))
  else if source.getD "" ≠ "" then readResultPath result (source.getD "")
  else .null

/-- `_resolve_rule_value` -/
def resolveSources (registry : OperationRegistry) (result : Enriching) (source : Option String)
    (sources : Option (List String)) (ops : List OperationCall) : Value :=
  if result.row.isNone then .null
  else
    let outcome := applyOps registry (readSources result source sources) ops
    if anyError outcome.issues then .null else outcome.value

def resolveBlock (registry : OperationRegistry) (result : Enriching) (block : SourceOpsBlock) :
    Value :=
  resolveSources registry result block.source block.sources block.ops

namespace ProviderGateway

variable {D : Type} (gateway : ProviderGateway D) (lib : TextLibrary)

def named {α : Type} (kind : String) (providers : Dict String (D → Value → Fields →
    Except PyException α)) (name : String) (deps : D) (value : Value) (args : Fields) :
    Except PyException α :=
  match Dict.get? providers name with
  | none => .error ⟨"KeyError",Value.strRepr ("Unknown " ++ kind ++ " provider: " ++ name)⟩
  | some provider => provider deps value args

def requiredArg (args : Fields) (name : String) : Except PyException String :=
  match Dict.get? args name with
  | none => .error ⟨"KeyError",Value.strRepr name⟩
  | some value => .ok value.pyStr

def modeOf (args : Fields) : String := ((Dict.get? args "mode").getD (.str "exact")).pyStr

/-- `lookup_cache_by_field_canonicalized` -/
def lookupCanonicalized (ops : List CompiledCanonicalizeOp) (deps : D) (value : Value)
    (args : Fields) : Except PyException (List Fields) := do
  let dataset ← requiredArg args "dataset"
  let field ← requiredArg args "field"
  let includeDeleted := (Fields.read args "include_deleted").truthy
  if modeOf args ≠ "exact" then
    .error ⟨"ValueError","canonicalized cache.by_field supports only mode='exact'"⟩
  let lookupKey ← lib.canonicalizeScalar ops value.pyStr
  let rows ← gateway.readAll deps dataset includeDeleted
  rows.filterM fun row => do
    let stored := Fields.read row field
    let key ← lib.canonicalizeScalar ops (if stored.truthy then stored.pyStr else "")
    return key == lookupKey

/-- `_compile_provider_canonicalizer` -/
def canonicalizer (provider : ProviderRef) : Option (List CompiledCanonicalizeOp) :=
  provider.canonicalization.map compileCanonicalization

/-- `_lookup_candidates` -/
def lookupCandidates (provider : ProviderRef) (deps : D) (value : Value) :
    Except PyException (List Fields) :=
  match canonicalizer provider with
  | some ops =>
    if provider.name = "cache.by_field" then
      gateway.lookupCanonicalized lib ops deps value provider.args
    else named "lookup" gateway.lookup provider.name deps value provider.args
  | none => named "lookup" gateway.lookup provider.name deps value provider.args

/-- The `_exists` of a rule with an exists provider. -/
def existingValue (provider : ProviderRef) (deps : D) (value : Value) :
    Except PyException (Option Value) :=
  match canonicalizer provider with
  | some ops =>
    if provider.name = "cache.exists_by_field" then do
      let rows ← gateway.lookupCanonicalized lib ops deps value provider.args
      return rows.head?.map .dict
    else named "exists" gateway.existing provider.name deps value provider.args
  | none => named "exists" gateway.existing provider.name deps value provider.args

end ProviderGateway

namespace EnrichRule

variable {D : Type} (rule : EnrichRule) (engine : TransformationEngine)
  (gateway : ProviderGateway D) (lib : TextLibrary)

/-! ## The parts of a rule that generates -/

/-- `_build_base_generator` -/
def builtValue (attempt : Nat) (result : Enriching) : Value :=
  match rule.buildBlock with
  | some block => resolveBlock (engine attempt) result block
  | none => resolveSources (engine attempt) result rule.source rule.sources rule.ops

/-- `_build_condition` -/
def conditionOf (block : SourceOpsBlock) (result : Enriching) : Bool :=
  (resolveBlock (engine 0) result block).truthy

/-- `_build_append_generator` -/
def appendedValue (block : SourceOpsBlock) (attempt : Nat) (result : Enriching) : Value :=
  resolveBlock (engine attempt) result block

/-- `_build_allow_if` -/
def allows (call : OperationCall) (result : Enriching) (owner : Value) : Bool :=
  let context : Fields := [("row",match result.row with | some row => .dict row | none => .null),
    ("meta",.dict result.metadata),("match_key",optStr result.matchKey),("existing",owner)]
  let outcome := applyOps (engine 0) (.dict context) [call]
  !anyError outcome.issues && outcome.value.truthy

/-- `_build_conflict_policy` -/
def conflictPolicy : Option CompiledConflictPolicy :=
  rule.onConflict.map fun policy =>
    { strategy := policy.strategy
      suffixes := policy.suffixes
      attempts := if policy.strategy = .error then 1 else 1 + policy.suffixes.length }

/-- `_resolve_max_attempts` -/
def resolveMaxAttempts : Int :=
  match rule.onConflict with
  | some policy =>
    if policy.strategy = .retryWithSuffixes then 1 + policy.suffixes.length else orThree
  | none => orThree
where
  orThree : Int := if rule.maxAttempts.getD 0 = 0 then 3 else rule.maxAttempts.getD 0

/-! ## Policies -/

/-- `_merge_policy_for` -/
def mergePolicyFor : Option MergeMode :=
  rule.merge.map fun
    | .recomputeAlways => .recomputeAlways
    | .fillOnlyIfEmpty => .overrideIfEmpty
    | .overrideIfEmpty => .overrideIfEmpty
    | .neverOverride => .neverOverride
    | .overrideIfAuthoritative => .overrideIfAuthoritative

def mapStrictnessOutcome (raw : Option StrictnessChoice) (fallback : EnrichOutcome) :
    EnrichOutcome :=
  match raw with
  | none => fallback
  | some .skip => .skipped
  | some .warn => .warned
  | some .error => .failed
  | some .needsResolve => .needsResolve

/-- A choice between `warn` and `error` as one of the wider list. -/
def ofOnError : OnError → StrictnessChoice
  | .warn => .warn
  | .error => .error

/-- `_strictness_for` -/
def strictnessFor : StrictnessPolicy :=
  let legacy : EnrichOutcome := if rule.onError = .warn then .warned else .failed
  { onMissingKey := mapStrictnessOutcome rule.onMissingKey .skipped
    onNoCandidates := mapStrictnessOutcome rule.onNoCandidates legacy
    onAmbiguous := mapStrictnessOutcome rule.onAmbiguous .needsResolve
    onProviderError := mapStrictnessOutcome (rule.onProviderError.map ofOnError) legacy }

/-- `_run_when_errors_for`. The runtime enumeration has no member `IF_ANY`. -/
def runWhenErrorsFor : Except PyException RunWhenErrors :=
  match rule.runWhenErrors with
  | some .always => .ok .always
  | some .ifAny => .error ⟨"AttributeError","IF_ANY"⟩
  | some .never => .ok .never
  | none => .ok .never

def fieldOfError : Option String := firstText [rule.errorField,some rule.target]

/-- `_build_generate_operation` -/
def generateOperation (secrets : List String) (runWhenErrors : RunWhenErrors) :
    EnrichmentOperation D where
  name := rule.name
  opType := .generate
  targets := [if rule.target ∈ secrets then secretPrefix ++ rule.target else rule.target]
  mergePolicy := rule.mergePolicyFor
  strictness := some rule.strictnessFor
  runWhenErrors := runWhenErrors
  generator := some fun attempt result _ => .ok (rule.builtValue engine attempt result)
  baseGenerator := some fun attempt result _ => .ok (rule.builtValue engine attempt result)
  condition := rule.whenBlock.map fun block result _ => .ok (conditionOf engine block result)
  appendGenerator := rule.thenBlock.map fun block attempt result _ =>
    .ok (appendedValue engine block attempt result)
  existing := rule.existsRef.map (gateway.existingValue lib)
  allowIf := rule.allowIf.map fun call result owner => .ok (allows engine call result owner)
  conflictPolicy := rule.conflictPolicy
  maxAttempts := rule.resolveMaxAttempts
  missingErrorCode := rule.missingErrorCode
  conflictErrorCode := rule.conflictErrorCode
  errorField := rule.fieldOfError

/-! ## Rules that look up -/

def providerMissing : String := "lookup rule '" ++ rule.name ++ "' requires provider"

/-- `_DslLookupProvider.fetch` -/
def fetch (provider : ProviderRef) (result : Enriching) (deps : D) :
    Except PyException (List CandidateValue) := do
  if result.row.isNone then return []
  let outcome := applyOps (engine 0) (readSources result rule.source rule.sources) rule.ops
  if anyError outcome.issues then
    .error ⟨"DslLoadError","lookup rule '" ++ rule.name ++ "' key operations failed"⟩
  if outcome.value.isBlank then return []
  let rows ← gateway.lookupCandidates lib provider deps outcome.value
  let path := (rule.valuePath.filter (· ≠ "")).getD rule.target
  return ((rows.map fun row => readValuePath row path).filter (!·.isNull)).map fun value =>
    { field := rule.target, value := value, source := provider.name, priority := none
      confidence := none, evidence := none }

def lookupOperation (provider : ProviderRef) (runWhenErrors : RunWhenErrors) :
    EnrichmentOperation D where
  name := rule.name
  opType := .lookup
  targets := [rule.target]
  providers := [fun _ result deps _ => rule.fetch engine gateway lib provider result deps]
  mergePolicy := rule.mergePolicyFor
  strictness := some rule.strictnessFor
  runWhenErrors := runWhenErrors
  missingErrorCode := rule.missingErrorCode
  conflictErrorCode := rule.conflictErrorCode
  errorField := rule.fieldOfError

/-! ## The compiler -/

/-- What `build_enricher_spec_from_dsl` catches: its own errors, and any other exception. -/
abbrev Compiling := Except (DslLoadError ⊕ PyException)

def compileGenerate (secrets : List String) : Compiling (EnrichmentOperation D) :=
  match rule.runWhenErrorsFor with
  | .error exc => .error (.inr exc)
  | .ok runs => .ok (rule.generateOperation engine gateway lib secrets runs)

/-- `_build_lookup_operation` -/
def compileLookup : Compiling (EnrichmentOperation D) :=
  match rule.provider with
  | none => .error (.inl {
      code := "ENRICH_DSL_LOOKUP_PROVIDER_MISSING"
      message := rule.providerMissing
      details := [("rule",.str rule.name),("target",.str rule.target)] })
  | some provider => match rule.runWhenErrorsFor with
    | .error exc => .error (.inr exc)
    | .ok runs => .ok (rule.lookupOperation engine gateway lib provider runs)

/-- The check of one provider that may declare a canonicalization: only the cache provider of
the given name reads it, and only in the exact mode. -/
def validateCanonicalization (cacheName kind unsupported exactOnly : String)
    (provider : ProviderRef) : Compiling Unit :=
  let details : Fields := [("rule",.str rule.name),("provider",.str provider.name)]
  if provider.canonicalization.isNone then .ok ()
  else if provider.name ≠ cacheName then .error (.inl {
    code := "ENRICH_DSL_COMPILE_INVALID"
    message := kind ++ " rule '" ++ rule.name ++ "' declares canonicalization for unsupported " ++
      unsupported ++ " '" ++ provider.name ++ "'"
    details := details })
  else if ProviderGateway.modeOf provider.args ≠ "exact" then .error (.inl {
    code := "ENRICH_DSL_COMPILE_INVALID"
    message := kind ++ " rule '" ++ rule.name ++ "' canonicalized " ++ exactOnly ++
      " supports only mode='exact'"
    details := details })
  else .ok ()

def validateProviderCanonicalization : Compiling Unit :=
  match rule.provider with
  | none => .ok ()
  | some provider =>
    rule.validateCanonicalization "cache.by_field" "lookup" "provider" "cache lookup" provider

def validateExistsCanonicalization : Compiling Unit :=
  match rule.existsRef with
  | none => .ok ()
  | some provider => rule.validateCanonicalization "cache.exists_by_field" "generate"
      "exists provider" "cache exists" provider

/-- `_validate_rule_provider_contract` -/
def validateProviderContract : Compiling Unit := do
  rule.validateProviderCanonicalization
  rule.validateExistsCanonicalization

end EnrichRule

def MatchKeySpec.operation {D : Type} (spec : MatchKeySpec) : EnrichmentOperation D where
  name := "build_match_key"
  opType := .compute
  targets := ["match_key"]
  runWhenErrors := .always
  strictness := some { onProviderError := .failed }
  compute := some fun result _ => .ok ((spec.compute result).getD [])
  missingErrorCode := some "MATCH_KEY_MISSING"
  errorField := some "matchKey"

namespace EnrichSpec
open EnrichRule

variable {D : Type} (spec : EnrichSpec) (options : EnrichDslBuildOptions)
  (engine : TransformationEngine) (gateway : ProviderGateway D) (lib : TextLibrary)

/-- The rules in the order in which they are compiled. -/
def rules : List EnrichRule := spec.enrich.lookup ++ spec.enrich.generate

def secretFields : List String := spec.enrich.secrets.getD []

def matchKeyOperations : Compiling (List (EnrichmentOperation D)) :=
  match spec.enrich.matchKey with
  | some matchKey => .ok [matchKey.operation]
  | none =>
    if options.requireMatchKey then .error (.inl {
      code := "ENRICH_DSL_COMPILE_INVALID"
      message := "enrich spec must define match_key"
      details := [] })
    else .ok []

def compileOperations : Compiling (List (EnrichmentOperation D)) := do
  spec.rules.forM validateProviderContract
  let matchKeys ← spec.matchKeyOperations options
  let lookups ← spec.enrich.lookup.mapM (compileLookup · engine gateway lib)
  let generates ←
    spec.enrich.generate.mapM (compileGenerate · engine gateway lib spec.secretFields)
  return matchKeys ++ lookups ++ generates

/-- `build_enricher_spec_from_dsl` -/
def buildEnricherSpec : Except DslLoadError (EnricherSpec D) :=
  match spec.compileOperations options engine gateway lib with
  | .ok operations => .ok { operations := operations }
  | .error (.inl e) => .error e
  | .error (.inr exc) => .error {
      code := "ENRICH_DSL_COMPILE_INVALID"
      message := "Invalid enrich DSL runtime contract: " ++ exc.text
      details := [] }

end EnrichSpec
end NexusEtl
