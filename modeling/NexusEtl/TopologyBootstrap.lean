import NexusEtl.Anchoring
import NexusEtl.CommandLifecycle
import NexusEtl.MatchCore
import NexusEtl.ResolveCore
import NexusEtl.SourceAdjacency
import NexusEtl.TargetTopology

/-!
# The topology bootstrap

Before its handler a command decides from the policies of its dataset which topology it needs,
builds it, and ends early when the build reports an error. The handler then wires its match and
resolve stages with what was built. The module says when that wiring succeeds: a policy that may
go without a topology lets the handler start on an empty target, and the wiring stops it there.
-/

set_option autoImplicit false

namespace NexusEtl.TopologyBootstrap
open NexusEtl.Library SourceAnchoring

/-! ## What the command activates -/

inductive PipelineCommand
  | mapping | normalize | enrich | matching | resolve | importPlan
  deriving DecidableEq, Repr

def PipelineCommand.value : PipelineCommand → String
  | .mapping => "mapping"
  | .normalize => "normalize"
  | .enrich => "enrich"
  | .matching => "match"
  | .resolve => "resolve"
  | .importPlan => "import-plan"

def pipelineCommands : List PipelineCommand :=
  [.mapping,.normalize,.enrich,.matching,.resolve,.importPlan]

def commandNamed (name : String) : Option PipelineCommand :=
  pipelineCommands.find? fun c => c.value == Text.lower (Text.strip name)

def PipelineCommand.preMatch : PipelineCommand → Bool
  | .mapping | .normalize | .enrich => true
  | _ => false

/-- `_MATCH_ACTIVATING_COMMANDS` -/
def PipelineCommand.activatesMatch : PipelineCommand → Bool
  | .matching | .importPlan => true
  | _ => false

/-- `_RESOLVE_ACTIVATING_COMMANDS` -/
def PipelineCommand.activatesResolve : PipelineCommand → Bool
  | .resolve | .importPlan => true
  | _ => false

/-- What the loaders give for a dataset: the topology capability of every dataset, and the
policies of the dataset itself. -/
structure TopologyDeclarations where
  capability : String → Option Bool
  matchPolicy : Option TopologyMatchPolicy
  resolvePolicy : Option ResolveTopologyLinkPolicy
  linkRules : List LinkFieldRule
  sourceValidationPolicy : Option OnUnanchored

inductive ActivationSource
  | matching | resolve | sourceValidation
  deriving DecidableEq, Repr

structure TopologyActivationDecision where
  pipelineDataset : String
  topologyDataset : Option String := none
  requireSourceTopology : Bool := false
  requireTargetTopology : Bool := false
  capabilityEnabled : Bool := false
  activationSources : List ActivationSource := []
  targetFailureIsHard : Bool := false
  skippedReason : Option String := none
  activationError : Option String := none
  deriving DecidableEq, Repr

def TopologyActivationDecision.activated (d : TopologyActivationDecision) : Bool :=
  d.capabilityEnabled && !d.activationSources.isEmpty && d.requireTargetTopology

/-- What the consumers looked at so far have activated. -/
structure Activation where
  sources : List ActivationSource
  dataset : String
  hard : Bool
  enabled : Bool
  deriving DecidableEq, Repr

/-- Why the resolver stops: two consumers disagree, or a consumer's dataset has no topology. -/
inductive ActivationStop
  | conflict (exc : PyException)
  | refused (text : String)
  deriving DecidableEq, Repr

/-- One consumer of the topology, as its policy describes it. -/
structure Consumer where
  source : ActivationSource
  wanted : Bool
  capability : Option Bool
  dataset : String
  hard : Bool
  conflict : String
  refusal : String
  deriving DecidableEq, Repr

def Consumer.activate (consumer : Consumer) (acc : Activation) :
    Except ActivationStop Activation :=
  if consumer.wanted = false then .ok acc
  else if consumer.capability = some true then
    if acc.sources ≠ [] ∧ acc.dataset ≠ consumer.dataset then
      .error (.conflict ⟨"ValueError",consumer.conflict⟩)
    else .ok ⟨acc.sources ++ [consumer.source],consumer.dataset,acc.hard || consumer.hard,true⟩
  else .error (.refused consumer.refusal)

namespace TopologyDeclarations

variable (decls : TopologyDeclarations) (command : PipelineCommand) (dataset : String)

/-- The match policy is looked at first, so that it never disagrees with an earlier one. -/
def matchConsumer : Consumer :=
  { source := .matching
    wanted := command.activatesMatch && decls.matchPolicy.any TopologyMatchPolicy.enabled
    capability := decls.capability dataset
    dataset := dataset
    hard := decls.matchPolicy.any fun p => p.onMissingTopology == .hardError
    conflict := ""
    refusal := "match topology policy is enabled for dataset '" ++ dataset ++
      "', but its topology capability is disabled" }

/-- `_load_resolve_topology_capability` finds the dataset that the field of the policy links to. -/
def resolveRule : Option LinkFieldRule :=
  decls.resolvePolicy.bind fun policy => decls.linkRules.find? fun rule => rule.field == policy.field

def resolveConsumer : Consumer :=
  { source := .resolve
    wanted := command.activatesResolve && decls.resolvePolicy.any ResolveTopologyLinkPolicy.enabled
    capability := decls.resolveRule.bind fun rule => decls.capability rule.targetDataset
    dataset := (decls.resolveRule.map LinkFieldRule.targetDataset).getD dataset
    hard := decls.resolvePolicy.any fun p => p.onMissingTopology == .hardError
    conflict := "match and resolve topology policies point to different topology datasets"
    refusal := "resolve topology_link is enabled for dataset '" ++ dataset ++
      "', but the target topology capability is disabled" }

def sourceValidationConsumer : Consumer :=
  { source := .sourceValidation
    wanted := command.activatesResolve && decls.sourceValidationPolicy.isSome
    capability := decls.capability dataset
    dataset := dataset
    hard := true
    conflict := "source validation and topology consumers point to different topology datasets"
    refusal := "source topology validation is enabled for dataset '" ++ dataset ++
      "', but its topology capability is disabled" }

def consumers : List Consumer :=
  [decls.matchConsumer command dataset,decls.resolveConsumer command dataset,
    decls.sourceValidationConsumer command dataset]

def activate : Except ActivationStop Activation :=
  (decls.consumers command dataset).foldlM (fun acc c => c.activate acc) ⟨[],dataset,false,false⟩

/-- The end of `TopologyRequirementResolver.resolve`, for the commands from match on. -/
def decide : Except PyException TopologyActivationDecision :=
  match decls.activate command dataset with
  | .error (.conflict exc) => .error exc
  | .error (.refused text) => .ok
      { pipelineDataset := dataset, skippedReason := some "capability_disabled"
        activationError := some text }
  | .ok acc =>
    let activated := !acc.sources.isEmpty
    .ok
      { pipelineDataset := dataset
        topologyDataset := if activated then some acc.dataset else none
        requireSourceTopology := acc.sources.contains .sourceValidation
        requireTargetTopology := activated
        capabilityEnabled := acc.enabled
        activationSources := acc.sources
        targetFailureIsHard := acc.hard
        skippedReason := if activated then none else some "topology_policy_disabled" }

/-- `TopologyRequirementResolver.resolve` -/
def resolve (commandName : String) : Except PyException TopologyActivationDecision :=
  match commandNamed commandName with
  | none => .ok { pipelineDataset := dataset, skippedReason := some "command_not_supported" }
  | some command =>
    if command.preMatch then
      let enabled := decls.capability dataset == some true
      .ok { pipelineDataset := dataset, capabilityEnabled := enabled
            skippedReason := some (if enabled then "checkpoint_before_topology_consumer"
              else "capability_disabled") }
    else decls.decide command dataset

end TopologyDeclarations

/-! ## The target and its readiness -/

structure RefreshTime where
  micros : Int
  isoformat : String
  deriving DecidableEq, Repr

structure TargetHierarchyReadMeta where
  cacheSnapshotRevision : Option String
  refreshedAt : Option RefreshTime
  rowCount : Nat
  deriving DecidableEq, Repr

inductive FreshnessMode
  | none | maxAge | revisionRequired
  deriving DecidableEq, Repr

def FreshnessMode.value : FreshnessMode → String
  | .none => "none"
  | .maxAge => "max_age"
  | .revisionRequired => "revision_required"

structure TopologyFreshnessPolicy where
  mode : FreshnessMode := .none
  maxAgeSeconds : Option Int := none
  requireRevision : Bool := false
  positive : ∀ s ∈ maxAgeSeconds, 0 < s
  bounded : mode = .maxAge → maxAgeSeconds.isSome = true

/-- `_default_freshness_policy` -/
def defaultFreshnessPolicy : TopologyFreshnessPolicy where
  positive := fun _ h => absurd h (Option.not_mem_none _)
  bounded := fun h => absurd h (by simp)

structure TopologyTargetReadinessResult where
  isReady : Bool
  errors : List DiagnosticItem
  warnings : List DiagnosticItem
  details : Fields
  deriving DecidableEq, Repr

section Readiness

variable (catalog : ErrorCatalog) (metadata : TargetHierarchyReadMeta)
  (policy : TopologyFreshnessPolicy) (required : Bool) (now : Int)

def evaluateFreshness : Option (String × Fields) :=
  let revisionRequired := policy.mode == .revisionRequired || policy.requireRevision
  if revisionRequired = true ∧ metadata.cacheSnapshotRevision = none then
    some ("missing_cache_snapshot_revision",[])
  else match policy.mode with
    | .none | .revisionRequired => none
    | .maxAge => match metadata.refreshedAt with
      | none => some ("missing_refreshed_at",[])
      | some refreshed =>
        let age := (now - refreshed.micros).tdiv 1000000
        if policy.maxAgeSeconds.getD 0 < age then
          some ("max_age_exceeded",[("age_seconds",.int age),
            ("max_age_seconds",policy.maxAgeSeconds.elim .null .int)])
        else none

def baseDetails : Fields :=
  [("policy_mode",.str policy.mode.value),("require_target_topology",.bool required),
    ("row_count",.int metadata.rowCount),
    ("cache_snapshot_revision",optionValue metadata.cacheSnapshotRevision),
    ("refreshed_at",optionValue (metadata.refreshedAt.map RefreshTime.isoformat))]

def degradedDecision : String := if required then "required_failure" else "optional_skip"

/-- `_degraded`: an error where the target is required, else a warning. -/
def degraded (code reason : String) (details : Fields) : TopologyTargetReadinessResult :=
  let shown := some (Dict.set details "reason" (.str reason))
  let present := !(Fields.read details "cache_snapshot_revision").isNull ||
    !(Fields.read details "refreshed_at").isNull
  let resultDetails := Dict.update details [("reason",.str reason),
    ("decision",.str (degradedDecision required)),("freshness_present",.bool present)]
  if required then
    ⟨false,[diagError catalog .topologyBootstrap code none none none shown],[],resultDetails⟩
  else
    ⟨false,[],[diagWarning catalog .topologyBootstrap code none none none shown (some .warning)],
      resultDetails⟩

/-- `TopologyTargetReadinessEvaluator.evaluate` -/
def evaluate (snapshot : TopologySnapshot) : TopologyTargetReadinessResult :=
  let details := baseDetails metadata policy required
  if snapshot.nodesById = [] then
    degraded catalog required "TOPOLOGY_TARGET_EMPTY" "snapshot_empty" details
  else match evaluateFreshness metadata policy now with
    | some (reason,extra) => degraded catalog required "TOPOLOGY_TARGET_STALE" reason
        (Dict.update details extra)
    | none =>
      let present := metadata.cacheSnapshotRevision.isSome || metadata.refreshedAt.isSome
      ⟨true,[],[],Dict.update details [("decision",.str "ready"),("reason",.str "ready"),
        ("freshness_present",.bool present)]⟩

end Readiness

structure TargetTopologyBuildResult where
  snapshot : TopologySnapshot
  metadata : TargetHierarchyReadMeta
  readiness : TopologyTargetReadinessResult
  deriving DecidableEq

/-- `TargetTopologyBuildUseCase.build` on the rows that were read. -/
def buildTarget (catalog : ErrorCatalog) (rows : List TargetHierarchyRow)
    (metadata : TargetHierarchyReadMeta) (policy : TopologyFreshnessPolicy) (required : Bool)
    (now : Int) : TargetTopologyBuildResult :=
  let built := TargetHierarchyTopologyBuilder.build ⟨catalog⟩ rows
  if built.2 ≠ [] then
    ⟨built.1,metadata,⟨false,built.2,[],[("decision",.str (degradedDecision required)),
      ("reason",.str "builder_validation_failed"),("policy_mode",.str policy.mode.value),
      ("require_target_topology",.bool required),("row_count",.int metadata.rowCount),
      ("cache_snapshot_revision",optionValue metadata.cacheSnapshotRevision),
      ("refreshed_at",optionValue (metadata.refreshedAt.map RefreshTime.isoformat))]⟩⟩
  else ⟨built.1,metadata,evaluate catalog metadata policy required now built.1⟩

/-! ## The validation of the source -/

structure SourceTopologyValidationResult where
  anchoring : SourceAnchoringResult
  validationState : SourceTopologyValidationState
  errors : List DiagnosticItem

def duplicateNodeDiagnostics (catalog : ErrorCatalog) (nodes : List SourceAdjacencyNode) :
    List DiagnosticItem :=
  let ids := nodes.map SourceAdjacencyNode.nodeId
  let repeated := (sortTexts ids.eraseDups).filter fun id => decide (1 < ids.count id)
  repeated.map fun id => diagError catalog .topologyValidate "TOPOLOGY_DUPLICATE_NODE"
    (some "node_id") (some ("Duplicate source topology node id: " ++ id)) none
    (some [("node_id",.str id),("count",.int (ids.count id))])

def unanchoredBootstrapDiagnostics (catalog : ErrorCatalog) (result : SourceAnchoringResult)
    (field : String) : List DiagnosticItem :=
  (sortTexts (Dict.keys result.dropped)).filterMap fun id =>
    (Dict.get? result.dropped id).map fun verdict =>
      diagError catalog .topologyValidate "TOPOLOGY_SOURCE_UNANCHORED" (some field)
        (some ("Source topology node '" ++ id ++ "' is not anchored")) none
        (some (SourceTopologyFilterStage.detailsOf id verdict))

/-- `SourceTopologyValidationUseCase.validate` on the nodes and target ids that were read. -/
def validateSource (catalog : ErrorCatalog) (fuel : Nat) (nodes : List SourceAdjacencyNode)
    (targetIds : List String) (nodeIdField pipelineField : String)
    (onUnanchored : OnUnanchored) : QueryRun SourceTopologyValidationResult :=
  (anchorSourceNodes fuel nodes targetIds).map fun run => run.map fun anchoring =>
    { anchoring := anchoring
      validationState := ⟨if pipelineField ≠ "" then pipelineField else nodeIdField,
        anchoring.dropped,onUnanchored⟩
      errors := duplicateNodeDiagnostics catalog nodes ++
        (if onUnanchored = .hardError then
          unanchoredBootstrapDiagnostics catalog anchoring nodeIdField
        else []) }

/-! ## The bootstrap and its step -/

/-- The source side of a topology specification. -/
inductive TopologySource
  | pathColumns (fields : List String)
  | adjacencyList (nodeIdField : String) (onUnanchored : OnUnanchored)
  deriving DecidableEq, Repr

def TopologySource.mode : TopologySource → String
  | .pathColumns _ => "path_columns"
  | .adjacencyList _ _ => "adjacency_list"

/-- What the readers and loaders give for a topology dataset. -/
structure TopologyData where
  hasCacheSpec : Bool
  source : TopologySource
  rows : List TargetHierarchyRow
  metadata : TargetHierarchyReadMeta
  nodes : List SourceAdjacencyNode
  targetIds : List String
  pipelineNodeIdField : String

/-- The snapshot of the target, and what the validation of the source keeps of its run. -/
structure TopologyRunArtifacts where
  targetSnapshot : TopologySnapshot
  sourceValidation : Option SourceTopologyValidationState
  deriving DecidableEq

structure TopologyBootstrapResult where
  artifacts : Option TopologyRunArtifacts
  errors : List DiagnosticItem
  warnings : List DiagnosticItem
  deriving DecidableEq

/-- How the bootstrap fails: with a diagnostic of its own, or with any other exception. -/
inductive BootstrapFailure
  | configuration (diagnostic : DiagnosticItem)
  | raised (exc : PyException)
  deriving DecidableEq

section Bootstrap

variable (catalog : ErrorCatalog) (data : String → TopologyData)

def requireCacheSpec (topologyDataset : String) : Except BootstrapFailure Unit :=
  if (data topologyDataset).hasCacheSpec then .ok ()
  else .error (.configuration (diagError catalog .topologyBootstrap
    "TOPOLOGY_TARGET_CACHE_SPEC_MISSING" none
    (some ("Target topology cache spec is missing for topology dataset '" ++ topologyDataset ++ "'"))
    none (some [("topology_dataset",.str topologyDataset)])))

def requireSourceAdjacencySpec (topologyDataset : String) :
    Except BootstrapFailure (String × OnUnanchored) :=
  match (data topologyDataset).source with
  | .adjacencyList field policy => .ok (field,policy)
  | source => .error (.configuration (diagError catalog .topologyBootstrap
      "TOPOLOGY_DSL_SPEC_INVALID" (some "topology.source.mode")
      (some ("Source topology validation requires adjacency_list source mode " ++
        "for topology dataset '" ++ topologyDataset ++ "'")) none
      (some [("topology_dataset",.str topologyDataset),("source_mode",.str source.mode)])))

/-- The validation of the source in the bootstrap; the anchoring is given fuel. -/
def runSourceValidation (fuel : Nat) (topologyDataset : String) :
    QueryRun (Except BootstrapFailure SourceTopologyValidationResult) :=
  match requireSourceAdjacencySpec catalog data topologyDataset with
  | .error failure => some (.ok (.error failure))
  | .ok (field,policy) =>
    match requireCacheSpec catalog data topologyDataset with
    | .error failure => some (.ok (.error failure))
    | .ok _ =>
      let read := data topologyDataset
      (validateSource catalog fuel read.nodes read.targetIds field read.pipelineNodeIdField
        policy).map fun run => run.map .ok

def bootstrapResult (target : TargetTopologyBuildResult)
    (validation : Option SourceTopologyValidationResult) : TopologyBootstrapResult :=
  let errors := target.readiness.errors ++ (validation.map fun v => v.errors).getD []
  { artifacts := if target.readiness.isReady = true ∧ errors = [] then
      some ⟨target.snapshot,validation.map fun v => v.validationState⟩ else none
    errors := errors
    warnings := target.readiness.warnings }

/-- `TopologyBootstrapUseCase.run` for an activated decision, which always asks for the target. -/
def runBootstrap (fuel : Nat) (now : Int) (topologyDataset : String) (requireSource hard : Bool) :
    Option (Except BootstrapFailure TopologyBootstrapResult) :=
  match requireCacheSpec catalog data topologyDataset with
  | .error failure => some (.error failure)
  | .ok _ =>
    let read := data topologyDataset
    let target := buildTarget catalog read.rows read.metadata defaultFreshnessPolicy hard now
    if requireSource = false then some (.ok (bootstrapResult target none))
    else match runSourceValidation catalog data fuel topologyDataset with
      | none => none
      | some (.error exc) => some (.error (.raised exc))
      | some (.ok (.error failure)) => some (.error failure)
      | some (.ok (.ok validation)) => some (.ok (bootstrapResult target (some validation)))

end Bootstrap

/-- What the handler is given: the provider holds the snapshot of the target. -/
structure TopologyRuntimeBinding where
  provider : Option TopologySnapshot
  requiresTargetTopology : Bool
  topologyDataset : String
  sourceValidation : Option SourceTopologyValidationState
  activationSources : List ActivationSource
  errors : List DiagnosticItem
  warnings : List DiagnosticItem
  skippedReason : Option String
  deriving DecidableEq

structure TopologyBootstrapStepResult where
  runtimeBinding : TopologyRuntimeBinding
  commandResult : Option CommandResult
  deriving DecidableEq

section Step

variable (catalog : ErrorCatalog) (decision : TopologyActivationDecision)

def bindingOf (result : TopologyBootstrapResult) : TopologyRuntimeBinding :=
  { provider := result.artifacts.map TopologyRunArtifacts.targetSnapshot
    requiresTargetTopology := decision.requireTargetTopology
    topologyDataset := (decision.topologyDataset.filter (· ≠ "")).getD decision.pipelineDataset
    sourceValidation := result.artifacts.bind TopologyRunArtifacts.sourceValidation
    activationSources := decision.activationSources
    errors := result.errors
    warnings := result.warnings
    skippedReason := none }

/-- The step ends the command when there are errors, and shows the warnings with them. -/
def stepResult (result : TopologyBootstrapResult) : TopologyBootstrapStepResult :=
  { runtimeBinding := bindingOf decision result
    commandResult := if result.errors = [] then none
      else some (CommandResult.empty.addDiagnostics catalog (result.errors ++ result.warnings)) }

def failedStep (diagnostic : DiagnosticItem) : TopologyBootstrapStepResult :=
  stepResult catalog decision ⟨none,[diagnostic],[]⟩

/-- `TopologyBootstrapStep.run` from the decision on. -/
def runDecided (data : String → TopologyData) (fuel : Nat) (now : Int) :
    Option (Except PyException TopologyBootstrapStepResult) :=
  match decision.activationError with
  | some text => some (.ok (failedStep catalog decision
      (diagError catalog .topologyBootstrap "TOPOLOGY_CAPABILITY_DISABLED" none (some text) none
        none)))
  | none =>
    if decision.activated = false then
      some (.ok
        { runtimeBinding := { bindingOf decision ⟨none,[],[]⟩ with
            skippedReason := some ((decision.skippedReason.filter (· ≠ "")).getD "not_required") }
          commandResult := none })
    else
      let topologyDataset := (decision.topologyDataset.filter (· ≠ "")).getD decision.pipelineDataset
      (runBootstrap catalog data fuel now topologyDataset decision.requireSourceTopology
        decision.targetFailureIsHard).map fun
        | .error (.configuration diagnostic) => .ok (failedStep catalog decision diagnostic)
        | .error (.raised exc) => .error exc
        | .ok result => .ok (stepResult catalog decision result)

end Step

/-- `TopologyBootstrapStep.run` -/
def runStep (catalog : ErrorCatalog) (decls : TopologyDeclarations) (data : String → TopologyData)
    (fuel : Nat) (now : Int) (commandName dataset : String) :
    Option (Except PyException TopologyBootstrapStepResult) :=
  match decls.resolve dataset commandName with
  | .error exc => some (.error exc)
  | .ok decision => runDecided catalog decision data fuel now

/-! ## The wiring of the stages -/

/-- The part that the two builders of dependencies share: a policy that is enabled needs an
activated topology and its snapshot. -/
def requireSnapshot (stage : String) (binding : TopologyRuntimeBinding) :
    Except PyException TopologySnapshot :=
  if binding.requiresTargetTopology = false then
    .error ⟨"ValueError",stage ++
      " topology policy is enabled but topology requirements were not activated"⟩
  else match binding.provider with
    | none => .error ⟨"ValueError",stage ++
        " topology policy is enabled but TopologyProviderPort is not wired"⟩
    | some snapshot => .ok snapshot

section Wiring

variable (decls : TopologyDeclarations) (dataset : String) (binding : TopologyRuntimeBinding)

/-- `_build_match_topology_dependencies`: the snapshot of the match service and the fields of its
locator. The dataset has a topology stage when its capability is enabled. -/
def matchTopologyDependencies (source : TopologySource) :
    Except PyException (Option (TopologySnapshot × List String)) :=
  if decls.capability dataset ≠ some true then .ok none
  else if decls.matchPolicy.any TopologyMatchPolicy.enabled = false then .ok none
  else match requireSnapshot "match" binding with
    | .error exc => .error exc
    | .ok snapshot => match source with
      | .pathColumns fields => .ok (some (snapshot,fields))
      | .adjacencyList _ _ => .ok none

/-- `_build_resolve_topology_dependencies`; `pathFields` are the source columns of the field. -/
def resolveTopologyDependencies (pathFields : String → Option (List String)) :
    Except PyException (Option (TopologySnapshot × List String)) :=
  match decls.resolvePolicy.filter ResolveTopologyLinkPolicy.enabled with
  | none => .ok none
  | some policy => match requireSnapshot "resolve" binding with
    | .error exc => .error exc
    | .ok snapshot => match pathFields policy.field with
      | some fields => .ok (some (snapshot,fields))
      | none => .error ⟨"ValueError","resolve topology field '" ++ policy.field ++
          "' does not have source mapping path columns"⟩

/-- The topology stages that the handler of a command makes: match, and after it resolve unless
the command ends with match. -/
def wireStages (command : PipelineCommand) (source : TopologySource)
    (pathFields : String → Option (List String)) : Except PyException
      (Option (TopologySnapshot × List String) × Option (TopologySnapshot × List String)) := do
  if command.preMatch then return (none,none)
  let matching ← matchTopologyDependencies decls dataset binding source
  if command = .matching then return (matching,none)
  let resolving ← resolveTopologyDependencies decls binding pathFields
  return (matching,resolving)

end Wiring

/-! ## What the resolver activates -/

theorem Consumer.activate_ok {c : Consumer} {acc acc' : Activation} (h : c.activate acc = .ok acc') :
    (c.wanted = false ∧ acc' = acc) ∨
      (c.wanted = true ∧ c.capability = some true ∧ (acc.sources ≠ [] → acc.dataset = c.dataset) ∧
        acc' = ⟨acc.sources ++ [c.source],c.dataset,acc.hard || c.hard,true⟩) := by
  unfold Consumer.activate at h
  split_ifs at h with hwanted hcapability hconflict
  · exact .inl ⟨hwanted,(Except.ok.inj h).symm⟩
  · refine .inr ⟨by simpa using hwanted,hcapability,fun hne => ?_,(Except.ok.inj h).symm⟩
    by_contra hdataset
    exact hconflict ⟨hne,hdataset⟩

/-- What the consumers make of an activation. -/
structure Activates (cs : List Consumer) (acc acc' : Activation) : Prop where
  sources : acc'.sources = acc.sources ++ (cs.filter Consumer.wanted).map Consumer.source
  hard : acc'.hard = (acc.hard || (cs.filter Consumer.wanted).any Consumer.hard)
  enabled : acc'.enabled = (acc.enabled || cs.any Consumer.wanted)
  wanted : ∀ c ∈ cs, c.wanted = true → c.capability = some true ∧ acc'.dataset = c.dataset
  keeps : acc.sources ≠ [] ∨ cs.any Consumer.wanted = false → acc'.dataset = acc.dataset

theorem activates_of_ok {cs : List Consumer} {acc acc' : Activation}
    (h : cs.foldlM (fun acc c => c.activate acc) acc = .ok acc') : Activates cs acc acc' := by
  induction cs generalizing acc with
  | nil =>
    obtain rfl := Except.ok.inj h
    exact ⟨by simp,by simp,by simp,by simp,fun _ => rfl⟩
  | cons c cs ih =>
    rw [List.foldlM_cons] at h
    cases hstep : c.activate acc with
    | error stop =>
      rw [hstep] at h
      cases h
    | ok next =>
      rw [hstep] at h
      have hrest := ih h
      rcases Consumer.activate_ok hstep with ⟨hwanted,rfl⟩ | ⟨hwanted,hcapability,hdataset,rfl⟩
      · refine ⟨?_,?_,?_,fun d hd hd' => ?_,fun hkeep => hrest.keeps ?_⟩
        · simpa [hwanted] using hrest.sources
        · simpa [hwanted] using hrest.hard
        · simpa [hwanted] using hrest.enabled
        · rcases List.mem_cons.mp hd with rfl | hd
          · rw [hwanted] at hd'
            cases hd'
          · exact hrest.wanted d hd hd'
        · simpa [hwanted] using hkeep
      · have hkept : acc'.dataset = c.dataset := hrest.keeps (.inl (by simp))
        refine ⟨?_,?_,?_,fun d hd hd' => ?_,fun hkeep => ?_⟩
        · simpa [hwanted] using hrest.sources
        · simpa [hwanted, Bool.or_assoc] using hrest.hard
        · simpa [hwanted] using hrest.enabled
        · rcases List.mem_cons.mp hd with rfl | hd
          · exact ⟨hcapability,hkept⟩
          · exact hrest.wanted d hd hd'
        · rcases hkeep with hne | hnone
          · rw [hkept, hdataset hne]
          · simp [hwanted] at hnone

namespace TopologyDeclarations

variable {decls : TopologyDeclarations} {command : PipelineCommand} {dataset : String}

/-- What an activated decision says, and what a decision without an error says at all. -/
structure Decides (decls : TopologyDeclarations) (command : PipelineCommand) (dataset : String)
    (d : TopologyActivationDecision) : Prop where
  pipeline : d.pipelineDataset = dataset
  activated : d.activated = d.requireTargetTopology
  requires : d.requireTargetTopology = (decls.consumers command dataset).any Consumer.wanted
  named : d.requireTargetTopology = true → ∃ name, d.topologyDataset = some name ∧
    ∀ c ∈ decls.consumers command dataset, c.wanted = true →
      c.capability = some true ∧ name = c.dataset
  hard : d.targetFailureIsHard =
    ((decls.consumers command dataset).filter Consumer.wanted).any Consumer.hard
  source : d.requireSourceTopology = (decls.sourceValidationConsumer command dataset).wanted

theorem decides_of_ok {d : TopologyActivationDecision}
    (h : decls.decide command dataset = .ok d) (hnone : d.activationError = none) :
    Decides decls command dataset d := by
  unfold decide at h
  split at h
  · cases h
  · obtain rfl := Except.ok.inj h
    cases hnone
  · rename_i acc hacc
    obtain rfl := Except.ok.inj h
    have hspec := activates_of_ok hacc
    have hempty : acc.sources.isEmpty = !(decls.consumers command dataset).any Consumer.wanted := by
      rw [hspec.sources, Bool.eq_iff_iff]
      simp [List.filter_eq_nil_iff]
    have henabled := hspec.enabled
    rw [Bool.false_or] at henabled
    refine ⟨rfl,?_,?_,fun hreq => ?_,by simpa using hspec.hard,?_⟩
    · simp [TopologyActivationDecision.activated, henabled, hempty]
    · simp [hempty]
    · dsimp only at hreq ⊢
      rw [if_pos hreq]
      exact ⟨acc.dataset,rfl,hspec.wanted⟩
    · have hsources := hspec.sources
      dsimp only
      rw [hsources, Bool.eq_iff_iff]
      simp only [consumers, List.filter_cons, List.filter_nil, matchConsumer, resolveConsumer,
        sourceValidationConsumer]
      split_ifs <;> simp_all

end TopologyDeclarations

/-! ## When the target is ready -/

section Target

variable {catalog : ErrorCatalog} {rows : List TargetHierarchyRow}
  {metadata : TargetHierarchyReadMeta} {hard : Bool} {now : Int}

theorem evaluateFreshness_default :
    evaluateFreshness metadata defaultFreshnessPolicy now = none := by
  simp [evaluateFreshness, defaultFreshnessPolicy]

theorem nodesById_eq_nil_iff {builder : TargetHierarchyTopologyBuilder} (h : IsHierarchy rows) :
    (builder.build rows).1.nodesById = [] ↔ rows = [] := by
  constructor
  · intro hnil
    rw [List.eq_nil_iff_forall_not_mem]
    intro row hrow
    have hnode : (builder.build rows).1.IsNode row.nodeId :=
      (TargetHierarchyTopologyBuilder.build_isNode h row.nodeId).mpr ⟨row,hrow,rfl⟩
    unfold TopologySnapshot.IsNode at hnode
    rw [hnil] at hnode
    cases hnode
  · rintro rfl
    rfl

/-- Without an error the rows are a hierarchy, the snapshot is theirs, and it is ready unless it
is empty; a hard failure would have been an error. -/
theorem buildTarget_spec
    (h : (buildTarget catalog rows metadata defaultFreshnessPolicy hard now).readiness.errors = []) :
    IsHierarchy rows ∧
      (buildTarget catalog rows metadata defaultFreshnessPolicy hard now).snapshot =
        (TargetHierarchyTopologyBuilder.build ⟨catalog⟩ rows).1 ∧
      ((buildTarget catalog rows metadata defaultFreshnessPolicy hard now).readiness.isReady = true ↔
        rows ≠ []) ∧ (hard = true → rows ≠ []) := by
  have hrows : IsHierarchy rows := by
    by_contra hnot
    have hbuilt : (TargetHierarchyTopologyBuilder.build ⟨catalog⟩ rows).2 ≠ [] :=
      (TargetHierarchyTopologyBuilder.build_of_not hnot).2
    unfold buildTarget at h
    rw [if_pos hbuilt] at h
    exact hbuilt h
  have hbuilt : ¬(TargetHierarchyTopologyBuilder.build ⟨catalog⟩ rows).2 ≠ [] := by
    rw [TargetHierarchyTopologyBuilder.build_of_isHierarchy hrows]
    simp
  have hnodes : (TargetHierarchyTopologyBuilder.build ⟨catalog⟩ rows).1.nodesById = [] ↔
      rows = [] := nodesById_eq_nil_iff hrows
  unfold buildTarget at h ⊢
  dsimp only at h ⊢
  rw [if_neg hbuilt] at h ⊢
  refine ⟨hrows,rfl,?_⟩
  unfold evaluate at h ⊢
  dsimp only at h ⊢
  by_cases hempty : (TargetHierarchyTopologyBuilder.build ⟨catalog⟩ rows).1.nodesById = []
  · rw [if_pos hempty] at h ⊢
    cases hard with
    | true => cases h
    | false => simp [degraded, hnodes.mp hempty]
  · rw [if_neg hempty, evaluateFreshness_default] at h ⊢
    have hsome : rows ≠ [] := fun h' => hempty (hnodes.mpr h')
    exact ⟨⟨fun _ => hsome,fun _ => rfl⟩,fun _ => hsome⟩

end Target

/-! ## What the handler is given -/

section Given

variable {catalog : ErrorCatalog} {data : String → TopologyData} {fuel : Nat} {now : Int}
  {d : TopologyActivationDecision} {step : TopologyBootstrapStepResult}

theorem bootstrapResult_artifacts {target : TargetTopologyBuildResult}
    {validation : Option SourceTopologyValidationResult}
    (h : (bootstrapResult target validation).errors = []) :
    target.readiness.errors = [] ∧ (∀ v ∈ validation, v.errors = []) ∧
      (bootstrapResult target validation).artifacts = if target.readiness.isReady = true then
        some ⟨target.snapshot,validation.map fun v => v.validationState⟩ else none := by
  have hparts := List.append_eq_nil_iff.mp h
  refine ⟨hparts.1,?_,?_⟩
  · rintro v rfl
    exact hparts.2
  · have hall : target.readiness.errors ++ (validation.map fun v => v.errors).getD [] = [] := h
    unfold bootstrapResult
    simp only [hall, and_true]

/-- The source validation of a bootstrap that ran it without an error. -/
def Validated (catalog : ErrorCatalog) (data : String → TopologyData) (fuel : Nat)
    (topologyDataset : String) (state : SourceTopologyValidationState) : Prop :=
  ∃ field policy v, (data topologyDataset).source = .adjacencyList field policy ∧
    validateSource catalog fuel (data topologyDataset).nodes (data topologyDataset).targetIds
      field (data topologyDataset).pipelineNodeIdField policy = some (.ok v) ∧
    v.errors = [] ∧ v.validationState = state

/-- A bootstrap without errors: its artifacts are there exactly when the target has rows. -/
structure Built (catalog : ErrorCatalog) (data : String → TopologyData) (fuel : Nat)
    (topologyDataset : String) (requireSource hard : Bool)
    (result : TopologyBootstrapResult) : Prop where
  hierarchy : IsHierarchy (data topologyDataset).rows
  provider : result.artifacts.map TopologyRunArtifacts.targetSnapshot =
    if (data topologyDataset).rows ≠ [] then
      some (TargetHierarchyTopologyBuilder.build ⟨catalog⟩ (data topologyDataset).rows).1
    else none
  validation : ∀ artifacts ∈ result.artifacts, if requireSource = true then
      ∃ state, artifacts.sourceValidation = some state ∧
        Validated catalog data fuel topologyDataset state
    else artifacts.sourceValidation = none
  hard : hard = true → (data topologyDataset).rows ≠ []

theorem built_of_errors {target : TargetTopologyBuildResult} {topologyDataset : String}
    {requireSource hard : Bool} {validation : Option SourceTopologyValidationResult}
    (htarget : target = buildTarget catalog (data topologyDataset).rows
      (data topologyDataset).metadata defaultFreshnessPolicy hard now)
    (hvalidation : if requireSource = true then ∃ v, validation = some v ∧
        (v.errors = [] → Validated catalog data fuel topologyDataset v.validationState)
      else validation = none)
    (h : (bootstrapResult target validation).errors = []) :
    Built catalog data fuel topologyDataset requireSource hard
      (bootstrapResult target validation) := by
  obtain ⟨herrors,hv,hartifacts⟩ := bootstrapResult_artifacts h
  rw [htarget] at herrors
  obtain ⟨hrows,hsnapshot,hready,hhard⟩ := buildTarget_spec herrors
  rw [← htarget] at hsnapshot hready
  refine ⟨hrows,?_,fun artifacts hmem => ?_,hhard⟩
  · rw [hartifacts]
    by_cases hr : target.readiness.isReady = true
    · rw [if_pos hr, if_pos (hready.mp hr), Option.map_some, hsnapshot]
    · rw [if_neg hr, if_neg (mt hready.mpr hr), Option.map_none]
  · rw [hartifacts] at hmem
    split_ifs at hmem with hr
    · obtain rfl := Option.some.inj hmem
      split_ifs at hvalidation ⊢ with hsource
      · obtain ⟨v,rfl,hvalid⟩ := hvalidation
        exact ⟨v.validationState,rfl,hvalid (hv v rfl)⟩
      · rw [hvalidation]
        rfl
    · cases hmem

theorem runBootstrap_built {topologyDataset : String} {requireSource hard : Bool}
    {result : TopologyBootstrapResult}
    (h : runBootstrap catalog data fuel now topologyDataset requireSource hard = some (.ok result))
    (herrors : result.errors = []) :
    Built catalog data fuel topologyDataset requireSource hard result := by
  unfold runBootstrap at h
  split at h
  · cases h
  dsimp only at h
  cases requireSource with
  | false =>
    rw [if_pos rfl] at h
    obtain rfl := Except.ok.inj (Option.some.inj h)
    exact built_of_errors rfl rfl herrors
  | true =>
    rw [if_neg (by simp)] at h
    cases hrun : runSourceValidation catalog data fuel topologyDataset with
    | none =>
      rw [hrun] at h
      cases h
    | some run =>
      rw [hrun] at h
      rcases run with exc | ⟨failure | validation⟩
      · cases h
      · cases h
      · obtain rfl := Except.ok.inj (Option.some.inj h)
        refine built_of_errors rfl ⟨validation,rfl,fun hv => ?_⟩ herrors
        unfold runSourceValidation requireSourceAdjacencySpec at hrun
        cases hsource : (data topologyDataset).source with
        | pathColumns fields =>
          rw [hsource] at hrun
          cases hrun
        | adjacencyList field policy =>
          simp only [hsource] at hrun
          split at hrun
          · cases hrun
          · obtain ⟨inner,hinner,hmap⟩ := Option.map_eq_some_iff.mp hrun
            cases inner with
            | error exc => cases hmap
            | ok v =>
              obtain rfl := Except.ok.inj (Except.ok.inj hmap)
              exact ⟨field,policy,v,hsource,hinner,hv,rfl⟩

end Given

section Handlers

variable {catalog : ErrorCatalog} {decls : TopologyDeclarations} {data : String → TopologyData}
  {fuel : Nat} {now : Int} {name dataset : String} {command : PipelineCommand}
  {d : TopologyActivationDecision} {step : TopologyBootstrapStepResult}

/-- What a step hands on that lets the handler run: nothing where nothing is activated, and else
what a bootstrap without errors has built. -/
structure HandsOn (catalog : ErrorCatalog) (data : String → TopologyData) (fuel : Nat)
    (d : TopologyActivationDecision) (binding : TopologyRuntimeBinding) : Prop where
  noError : d.activationError = none
  requires : binding.requiresTargetTopology = d.requireTargetTopology
  dataset : binding.topologyDataset =
    (d.topologyDataset.filter (· ≠ "")).getD d.pipelineDataset
  inactive : d.activated = false → binding.provider = none ∧ binding.sourceValidation = none
  active : d.activated = true → ∃ result, Built catalog data fuel binding.topologyDataset
      d.requireSourceTopology d.targetFailureIsHard result ∧
    binding.provider = result.artifacts.map TopologyRunArtifacts.targetSnapshot ∧
    binding.sourceValidation = result.artifacts.bind TopologyRunArtifacts.sourceValidation

theorem runDecided_handsOn (h : runDecided catalog d data fuel now = some (.ok step))
    (hruns : step.commandResult = none) : HandsOn catalog data fuel d step.runtimeBinding := by
  have hfailed (diagnostic : DiagnosticItem) :
      (failedStep catalog d diagnostic).commandResult ≠ none := by
    unfold failedStep stepResult
    simp
  unfold runDecided at h
  split at h
  · obtain rfl := Except.ok.inj (Option.some.inj h)
    exact absurd hruns (hfailed _)
  · rename_i herror
    split_ifs at h with hactivated
    · obtain rfl := Except.ok.inj (Option.some.inj h)
      refine ⟨herror,rfl,rfl,fun _ => ⟨rfl,rfl⟩,fun hactive => ?_⟩
      rw [hactivated] at hactive
      cases hactive
    · obtain ⟨run,hrun,hmap⟩ := Option.map_eq_some_iff.mp h
      rcases run with (diagnostic | exc) | result
      · obtain rfl := Except.ok.inj hmap
        exact absurd hruns (hfailed _)
      · cases hmap
      · obtain rfl := Except.ok.inj hmap
        have herrors : result.errors = [] := by
          unfold stepResult at hruns
          by_contra hne
          rw [if_neg hne] at hruns
          cases hruns
        refine ⟨herror,rfl,rfl,fun hidle => absurd hidle hactivated,fun _ => ?_⟩
        exact ⟨result,runBootstrap_built hrun herrors,rfl,rfl⟩

theorem runStep_handsOn (hname : commandNamed name = some command)
    (hlate : command.preMatch = false)
    (h : runStep catalog decls data fuel now name dataset = some (.ok step))
    (hruns : step.commandResult = none) :
    ∃ d, decls.Decides command dataset d ∧ HandsOn catalog data fuel d step.runtimeBinding := by
  unfold runStep at h
  cases hdecision : decls.resolve dataset name with
  | error exc =>
    rw [hdecision] at h
    cases h
  | ok d =>
    rw [hdecision] at h
    have hands := runDecided_handsOn h hruns
    unfold TopologyDeclarations.resolve at hdecision
    rw [hname] at hdecision
    simp only [hlate, Bool.false_eq_true, if_false] at hdecision
    exact ⟨d,TopologyDeclarations.decides_of_ok hdecision hands.noError,hands⟩

/-- The dataset has a topology and its match policy is enabled. -/
def MatchOn (decls : TopologyDeclarations) (dataset : String) : Prop :=
  decls.capability dataset = some true ∧ decls.matchPolicy.any TopologyMatchPolicy.enabled = true

/-- The command resolves links, and the policy for topology links is enabled. -/
def ResolveOn (decls : TopologyDeclarations) (command : PipelineCommand) : Prop :=
  command.activatesResolve = true ∧
    decls.resolvePolicy.any ResolveTopologyLinkPolicy.enabled = true

/-- A topology was activated, and its dataset has rows in the target. -/
def Available (data : String → TopologyData) (binding : TopologyRuntimeBinding) : Prop :=
  binding.requiresTargetTopology = true ∧ (data binding.topologyDataset).rows ≠ []

theorem requireSnapshot_ok_iff {stage : String} {binding : TopologyRuntimeBinding}
    {snapshot : TopologySnapshot} : requireSnapshot stage binding = .ok snapshot ↔
      binding.requiresTargetTopology = true ∧ binding.provider = some snapshot := by
  unfold requireSnapshot
  cases binding.requiresTargetTopology with
  | false => simp
  | true => cases binding.provider <;> simp

/-- A stage gets its snapshot exactly where the topology is available, and then that of the rows. -/
theorem HandsOn.snapshot_iff {binding : TopologyRuntimeBinding}
    (hd : decls.Decides command dataset d) (h : HandsOn catalog data fuel d binding)
    {stage : String} {snapshot : TopologySnapshot} :
    requireSnapshot stage binding = .ok snapshot ↔ Available data binding ∧
      snapshot = (TargetHierarchyTopologyBuilder.build ⟨catalog⟩
        (data binding.topologyDataset).rows).1 := by
  rw [requireSnapshot_ok_iff, Available, and_assoc]
  refine and_congr_right fun hrequires => ?_
  have hactive : d.activated = true := by rw [hd.activated, ← h.requires, hrequires]
  obtain ⟨result,hbuilt,hprovider,-⟩ := h.active hactive
  rw [hprovider, hbuilt.provider]
  split_ifs with hrows
  · simp [hrows, eq_comm]
  · simp [hrows]

section Stages

variable {binding : TopologyRuntimeBinding} {source : TopologySource}
  {pathFields : String → Option (List String)}

theorem matchDependencies_ok_iff :
    (∃ stage, matchTopologyDependencies decls dataset binding source = .ok stage) ↔
      (MatchOn decls dataset → ∃ snapshot, requireSnapshot "match" binding = .ok snapshot) := by
  unfold matchTopologyDependencies MatchOn
  split_ifs with hcapability hpolicy
  · simp [hcapability]
  · simp [hpolicy]
  · simp only [not_not] at hcapability
    cases requireSnapshot "match" binding with
    | error exc => simp [hcapability, hpolicy]
    | ok snapshot => cases source <;> simp

theorem resolveDependencies_ok_iff :
    (∃ stage, resolveTopologyDependencies decls binding pathFields = .ok stage) ↔
      ∀ policy ∈ decls.resolvePolicy, policy.enabled = true →
        (∃ snapshot, requireSnapshot "resolve" binding = .ok snapshot) ∧
          (pathFields policy.field).isSome = true := by
  unfold resolveTopologyDependencies
  cases decls.resolvePolicy with
  | none => simp
  | some policy =>
    by_cases henabled : policy.enabled = true
    · cases requireSnapshot "resolve" binding with
      | error exc => simp [Option.filter, henabled]
      | ok snapshot => cases hfields : pathFields policy.field <;> simp [Option.filter, henabled, hfields]
    · simp [Option.filter, henabled]

theorem wireStages_ok_iff (hlate : command.preMatch = false) :
    (∃ stages, wireStages decls dataset binding command source pathFields = .ok stages) ↔
      (∃ stage, matchTopologyDependencies decls dataset binding source = .ok stage) ∧
        (command.activatesResolve = true →
          ∃ stage, resolveTopologyDependencies decls binding pathFields = .ok stage) := by
  have hmatching : command = .matching ↔ command.activatesResolve = false := by
    cases command <;> simp_all [PipelineCommand.preMatch, PipelineCommand.activatesResolve]
  unfold wireStages
  simp only [hlate, Bool.false_eq_true, if_false]
  cases matchTopologyDependencies decls dataset binding source with
  | error exc => simp [bind, Except.bind]
  | ok stage =>
    by_cases hend : command = .matching
    · simp [bind, Except.bind, pure, Except.pure, hend, PipelineCommand.activatesResolve]
    · have hresolves : command.activatesResolve = true := by
        rw [← Bool.not_eq_false]
        exact mt hmatching.mpr hend
      cases resolveTopologyDependencies decls binding pathFields <;>
        simp [bind, Except.bind, pure, Except.pure, hend, hresolves]

end Stages

/-- Where the bootstrap lets the handler of a match, resolve or import-plan command run, its
topology stages can be made exactly if no policy that they follow is enabled or a topology was
activated whose target has rows, whatever the policies say about a missing topology; the link
field must also come from columns of the source. -/
theorem stages_wired_iff (hname : commandNamed name = some command)
    (hlate : command.preMatch = false)
    (h : runStep catalog decls data fuel now name dataset = some (.ok step))
    (hruns : step.commandResult = none) (source : TopologySource)
    (pathFields : String → Option (List String)) :
    (∃ stages, wireStages decls dataset step.runtimeBinding command source pathFields =
        .ok stages) ↔
      (MatchOn decls dataset ∨ ResolveOn decls command →
        Available data step.runtimeBinding) ∧
      (ResolveOn decls command → ∀ policy ∈ decls.resolvePolicy,
        (pathFields policy.field).isSome = true) := by
  obtain ⟨d,hd,hands⟩ := runStep_handsOn hname hlate h hruns
  have hsnapshot (stage : String) : (∃ snapshot,
      requireSnapshot stage step.runtimeBinding = .ok snapshot) ↔
        Available data step.runtimeBinding := by
    simp [hands.snapshot_iff hd]
  rw [wireStages_ok_iff hlate, matchDependencies_ok_iff, resolveDependencies_ok_iff]
  simp only [hsnapshot]
  unfold ResolveOn
  cases decls.resolvePolicy with
  | none => simp
  | some policy =>
    by_cases henabled : policy.enabled = true
    · simp only [Option.mem_def, Option.some.injEq, forall_eq', henabled, Option.any_some, and_true,
        forall_const]
      constructor
      · rintro ⟨hm,hr⟩
        exact ⟨fun hon => hon.elim hm fun hres => (hr hres).1,fun hres => (hr hres).2⟩
      · rintro ⟨hon,hfields⟩
        exact ⟨fun hm => hon (.inl hm),fun hres => ⟨hon (.inr hres),hfields hres⟩⟩
    · simp [henabled]

/-- A dataset that matches with a topology where it has one. -/
def softDeclarations : TopologyDeclarations :=
  ⟨fun _ => some true,some ⟨true,.ambiguousOnly,.skip⟩,none,[],none⟩

def emptyTarget : TopologyData :=
  ⟨true,.pathColumns ["unit"],[],⟨none,none,0⟩,[],[],"node"⟩

/-- The empty target only shows a warning. -/
def softStep : TopologyBootstrapStepResult :=
  stepResult [] ⟨"people",some "people",false,true,true,[.matching],false,none,none⟩
    (bootstrapResult (buildTarget [] [] ⟨none,none,0⟩ defaultFreshnessPolicy false 0) none)

theorem stages_wired_iff_soft :
    ¬∃ stages, wireStages softDeclarations "people" softStep.runtimeBinding .matching
      emptyTarget.source (fun _ => none) = .ok stages := by
  intro hwired
  have hrun : runStep [] softDeclarations (fun _ => emptyTarget) 0 0 "match" "people" =
      some (.ok softStep) := by decide +kernel
  have hiff := (stages_wired_iff (by decide +kernel) rfl hrun (by decide +kernel)
    emptyTarget.source fun _ => none).mp hwired
  exact (hiff.1 (.inl ⟨rfl,rfl⟩)).2 rfl

end Handlers

section Consumers

variable {catalog : ErrorCatalog} {decls : TopologyDeclarations} {data : String → TopologyData}
  {fuel : Nat} {now : Int} {name dataset : String} {command : PipelineCommand}
  {step : TopologyBootstrapStepResult}

/-- A consumer that the command asks for and that cannot do without its topology. -/
def HardConsumer (decls : TopologyDeclarations) (command : PipelineCommand) : Prop :=
  (command.activatesMatch = true ∧ ∃ policy ∈ decls.matchPolicy,
      policy.enabled = true ∧ policy.onMissingTopology = .hardError) ∨
    (command.activatesResolve = true ∧ ∃ policy ∈ decls.resolvePolicy,
      policy.enabled = true ∧ policy.onMissingTopology = .hardError) ∨
    (command.activatesResolve = true ∧ decls.sourceValidationPolicy.isSome = true)

theorem HardConsumer.exists_consumer (h : HardConsumer decls command) (dataset : String) :
    ∃ c ∈ decls.consumers command dataset, c.wanted = true ∧ c.hard = true := by
  unfold TopologyDeclarations.consumers
  rcases h with ⟨hcommand,policy,hpolicy,henabled,hhard⟩ | ⟨hcommand,policy,hpolicy,henabled,hhard⟩ |
    ⟨hcommand,hpolicy⟩
  · rw [Option.mem_def] at hpolicy
    exact ⟨decls.matchConsumer command dataset,by simp,
      by simp [TopologyDeclarations.matchConsumer, hcommand, hpolicy, henabled],
      by simp [TopologyDeclarations.matchConsumer, hpolicy, hhard]⟩
  · rw [Option.mem_def] at hpolicy
    exact ⟨decls.resolveConsumer command dataset,by simp,
      by simp [TopologyDeclarations.resolveConsumer, hcommand, hpolicy, henabled],
      by simp [TopologyDeclarations.resolveConsumer, hpolicy, hhard]⟩
  · exact ⟨decls.sourceValidationConsumer command dataset,by simp,
      by simp [TopologyDeclarations.sourceValidationConsumer, hcommand, hpolicy],rfl⟩

theorem wired_match {binding : TopologyRuntimeBinding} {source : TopologySource}
    {stage : TopologySnapshot × List String}
    (h : matchTopologyDependencies decls dataset binding source = .ok (some stage)) :
    MatchOn decls dataset ∧ requireSnapshot "match" binding = .ok stage.1 := by
  unfold matchTopologyDependencies at h
  split_ifs at h with hcapability hpolicy
  · cases Except.ok.inj h
  · cases Except.ok.inj h
  · cases hsnapshot : requireSnapshot "match" binding with
    | error exc =>
      rw [hsnapshot] at h
      cases h
    | ok snapshot =>
      rw [hsnapshot] at h
      cases source with
      | pathColumns fields =>
        obtain rfl := Option.some.inj (Except.ok.inj h)
        exact ⟨⟨not_not.mp hcapability,by simpa using hpolicy⟩,rfl⟩
      | adjacencyList field policy => cases Except.ok.inj h

theorem wired_resolve {binding : TopologyRuntimeBinding}
    {pathFields : String → Option (List String)} {stage : TopologySnapshot × List String}
    (h : resolveTopologyDependencies decls binding pathFields = .ok (some stage)) :
    requireSnapshot "resolve" binding = .ok stage.1 := by
  unfold resolveTopologyDependencies at h
  split at h
  · cases Except.ok.inj h
  · cases hsnapshot : requireSnapshot "resolve" binding with
    | error exc =>
      rw [hsnapshot] at h
      cases h
    | ok snapshot =>
      rw [hsnapshot] at h
      dsimp only at h
      split at h
      · rw [← Option.some.inj (Except.ok.inj h)]
      · cases h

/-- A consumer with a hard policy never meets a handler without its topology; every stage that is
wired reads a snapshot that shows the rows of the activated dataset; and where the command
activates the match policy, that dataset is the command's own. -/
theorem stages_wired_with (hname : commandNamed name = some command)
    (hlate : command.preMatch = false)
    (h : runStep catalog decls data fuel now name dataset = some (.ok step))
    (hruns : step.commandResult = none) :
    (HardConsumer decls command → Available data step.runtimeBinding) ∧
    (∀ source stage, matchTopologyDependencies decls dataset step.runtimeBinding source =
      .ok (some stage) → stage.1.Represents (data step.runtimeBinding.topologyDataset).rows) ∧
    (∀ pathFields stage, resolveTopologyDependencies decls step.runtimeBinding pathFields =
      .ok (some stage) → stage.1.Represents (data step.runtimeBinding.topologyDataset).rows) ∧
    (command.activatesMatch = true → MatchOn decls dataset →
      step.runtimeBinding.topologyDataset = dataset) := by
  obtain ⟨d,hd,hands⟩ := runStep_handsOn hname hlate h hruns
  have hwanted {c : Consumer} (hc : c ∈ decls.consumers command dataset)
      (hw : c.wanted = true) : d.requireTargetTopology = true := by
    rw [hd.requires]
    exact List.any_eq_true.mpr ⟨c,hc,hw⟩
  have hrepresents {stage : String} {snapshot : TopologySnapshot}
      (hs : requireSnapshot stage step.runtimeBinding = .ok snapshot) :
      snapshot.Represents (data step.runtimeBinding.topologyDataset).rows := by
    have havailable := (hands.snapshot_iff hd).mp hs
    obtain ⟨result,hbuilt,-,-⟩ := hands.active
      (by rw [hd.activated, ← hands.requires, havailable.1.1])
    rw [havailable.2]
    exact TargetHierarchyTopologyBuilder.build_represents hbuilt.hierarchy
  refine ⟨fun hhard => ?_,fun source stage hs => hrepresents (wired_match hs).2,
    fun pathFields stage hs => hrepresents (wired_resolve hs),fun hmatch hon => ?_⟩
  · obtain ⟨c,hc,hw,hch⟩ := hhard.exists_consumer dataset
    have hrequires := hwanted hc hw
    obtain ⟨result,hbuilt,-,-⟩ := hands.active (by rw [hd.activated, hrequires])
    refine ⟨by rw [hands.requires, hrequires],hbuilt.hard ?_⟩
    rw [hd.hard]
    exact List.any_eq_true.mpr ⟨c,List.mem_filter.mpr ⟨hc,hw⟩,hch⟩
  · have hc : decls.matchConsumer command dataset ∈ decls.consumers command dataset := by
      simp [TopologyDeclarations.consumers]
    have hw : (decls.matchConsumer command dataset).wanted = true := by
      simp [TopologyDeclarations.matchConsumer, hmatch, hon.2]
    obtain ⟨named,hnamed,hdataset⟩ := hd.named (hwanted hc hw)
    have hsame : named = dataset := (hdataset _ hc hw).2
    rw [hands.dataset, hnamed, hd.pipeline, hsame]
    by_cases hempty : dataset = "" <;> simp [Option.filter, hempty]

/-- Units that are planned with a validation of their source. -/
def unitDeclarations : TopologyDeclarations :=
  ⟨fun _ => some true,some ⟨true,.ambiguousOnly,.hardError⟩,none,[],some .skip⟩

def unitData : TopologyData :=
  { hasCacheSpec := true
    source := .adjacencyList "node" .skip
    rows := [⟨"1",none,"Board"⟩]
    metadata := ⟨none,none,1⟩
    nodes := [⟨"a",none,"A"⟩,⟨"b",some "x","B"⟩]
    targetIds := []
    pipelineNodeIdField := "unit" }

def unitState : SourceTopologyValidationState :=
  ⟨"unit",[("b",⟨"b",.missingParent,some "x"⟩)],.skip⟩

def unitStep : TopologyBootstrapStepResult :=
  stepResult [] ⟨"units",some "units",true,true,true,[.matching,.sourceValidation],true,none,none⟩
    ⟨some ⟨(TargetHierarchyTopologyBuilder.build ⟨[]⟩ unitData.rows).1,some unitState⟩,[],[]⟩

theorem unitStep_run : runStep [] unitDeclarations (fun _ => unitData) 3 0 "import-plan" "units" =
    some (.ok unitStep) := by decide +kernel

theorem stages_wired_with_units : Available (fun _ => unitData) unitStep.runtimeBinding :=
  (@stages_wired_with [] unitDeclarations (fun _ => unitData) 3 0 "import-plan" "units" .importPlan
    unitStep (by decide +kernel) rfl unitStep_run (by decide +kernel)).1
    (.inl ⟨rfl,_,rfl,rfl,rfl⟩)

end Consumers

/-! ## The filter of the source rows -/

section Filter

variable {catalog : ErrorCatalog} {data : String → TopologyData} {fuel : Nat}
  {topologyDataset : String} {state : SourceTopologyValidationState}

theorem unique_of_noDuplicates {nodes : List SourceAdjacencyNode}
    (h : duplicateNodeDiagnostics catalog nodes = []) : SourceAnchoring.Unique nodes := by
  unfold duplicateNodeDiagnostics at h
  have hfilter := List.map_eq_nil_iff.mp h
  rw [List.filter_eq_nil_iff] at hfilter
  unfold SourceAnchoring.Unique
  rw [List.nodup_iff_count_le_one]
  intro id
  by_cases hid : id ∈ nodes.map SourceAdjacencyNode.nodeId
  · have hmem : id ∈ sortTexts (nodes.map SourceAdjacencyNode.nodeId).eraseDups := by
      rw [TopologySnapshot.mem_sortTexts]
      simpa using hid
    simpa using hfilter id hmem
  · rw [List.count_eq_zero_of_not_mem hid]
    exact Nat.zero_le 1

/-- The nodes that the bootstrap drops: the unanchored ones and those below one. -/
def Lost (nodes : List SourceAdjacencyNode) (targetIds : List String) (id : String) : Prop :=
  Unanchored nodes targetIds id ∨ ∃ root, Unanchored nodes targetIds root ∧ Below nodes root id

theorem Validated.dropped_iff (h : Validated catalog data fuel topologyDataset state)
    (hfuel : (data topologyDataset).nodes.length < fuel) (id : String) :
    (Dict.get? state.dropped id).isSome = true ↔
      Lost (data topologyDataset).nodes (data topologyDataset).targetIds id := by
  obtain ⟨field,policy,v,-,hrun,herrors,rfl⟩ := h
  unfold validateSource at hrun
  obtain ⟨run,hanchoring,hmap⟩ := Option.map_eq_some_iff.mp hrun
  cases run with
  | error exc => cases hmap
  | ok anchoring =>
    obtain rfl := Except.ok.inj hmap
    have hunique := unique_of_noDuplicates (List.append_eq_nil_iff.mp herrors).1
    obtain ⟨memo,dropped,hran⟩ : ∃ memo dropped, Ran (data topologyDataset).nodes
        (data topologyDataset).targetIds fuel memo dropped := exists_ran hunique hfuel
    rw [hran.result] at hanchoring
    obtain rfl := Except.ok.inj (Option.some.inj hanchoring)
    exact hran.drops id

/-- Under the hard policy a validation without errors has dropped nothing. -/
theorem Validated.hard_dropped (h : Validated catalog data fuel topologyDataset state)
    (hhard : state.onUnanchored = .hardError) (id : String) :
    Dict.get? state.dropped id = none := by
  obtain ⟨field,policy,v,-,hrun,herrors,rfl⟩ := h
  unfold validateSource at hrun
  obtain ⟨run,-,hmap⟩ := Option.map_eq_some_iff.mp hrun
  cases run with
  | error exc => cases hmap
  | ok anchoring =>
    obtain rfl := Except.ok.inj hmap
    have hpolicy : policy = .hardError := hhard
    have hnone := (List.append_eq_nil_iff.mp herrors).2
    rw [if_pos hpolicy, unanchoredBootstrapDiagnostics, List.filterMap_eq_nil_iff] at hnone
    cases hget : Dict.get? anchoring.dropped id with
    | none => rfl
    | some verdict =>
      have hmem : id ∈ sortTexts (Dict.keys anchoring.dropped) := by
        rw [TopologySnapshot.mem_sortTexts]
        exact Dict.mem_keys_iff.mpr (by rw [hget]; rfl)
      have hrow := hnone id hmem
      rw [hget] at hrow
      cases hrow

/-- What the stage does to one row. -/
theorem filter_step (state : SourceTopologyValidationState) {result : TransformResult Fields}
    {row : Fields} (hrow : result.row = some row) :
    (SourceTopologyFilterStage.step catalog state result).row = some row ↔
      state.onUnanchored = .warn ∨
        ∀ id, SourceTopologyFilterStage.nodeId row state.nodeIdField = some id →
          Dict.get? state.dropped id = none := by
  unfold SourceTopologyFilterStage.step
  simp only [hrow]
  unfold SourceTopologyFilterStage.judge
  cases SourceTopologyFilterStage.nodeId row state.nodeIdField with
  | none => simp [hrow]
  | some id =>
    cases hverdict : Dict.get? state.dropped id with
    | none => simp [hverdict, hrow]
    | some verdict =>
      unfold SourceTopologyFilterStage.mark
      cases hpolicy : state.onUnanchored <;> simp [hverdict, hrow]

end Filter

section Filtered

variable {catalog : ErrorCatalog} {decls : TopologyDeclarations} {data : String → TopologyData}
  {fuel : Nat} {now : Int} {name dataset : String} {command : PipelineCommand}
  {step : TopologyBootstrapStepResult}

/-- A validation state that the handler is given was made by a validation without errors. -/
theorem validated_of_run (hname : commandNamed name = some command)
    (hlate : command.preMatch = false)
    (h : runStep catalog decls data fuel now name dataset = some (.ok step))
    (hruns : step.commandResult = none) {state : SourceTopologyValidationState}
    (hstate : step.runtimeBinding.sourceValidation = some state) :
    Validated catalog data fuel step.runtimeBinding.topologyDataset state := by
  obtain ⟨d,hd,hands⟩ := runStep_handsOn hname hlate h hruns
  have hactive : d.activated = true := by
    by_contra hidle
    rw [(hands.inactive (by simpa using hidle)).2] at hstate
    cases hstate
  obtain ⟨result,hbuilt,-,hvalidation⟩ := hands.active hactive
  rw [hvalidation] at hstate
  obtain ⟨artifacts,hartifacts,hsome⟩ := Option.bind_eq_some_iff.mp hstate
  have hspec := hbuilt.validation artifacts hartifacts
  split_ifs at hspec
  · obtain ⟨state',hstate',hvalid⟩ := hspec
    rw [hsome] at hstate'
    exact Option.some.inj hstate' ▸ hvalid
  · rw [hsome] at hspec
    cases hspec

/-- Where a bootstrap with source validation lets the handler run, a row goes through the filter
of the stream unless its node is unanchored or hangs below one that is; with the warning policy
every row goes through, and with the hard policy there is no such node. -/
theorem rows_kept_iff (hname : commandNamed name = some command)
    (hlate : command.preMatch = false)
    (h : runStep catalog decls data fuel now name dataset = some (.ok step))
    (hruns : step.commandResult = none) {state : SourceTopologyValidationState}
    (hstate : step.runtimeBinding.sourceValidation = some state)
    (hfuel : (data step.runtimeBinding.topologyDataset).nodes.length < fuel)
    (source : List (TransformResult Fields)) :
    (∀ (i : Nat) (result : TransformResult Fields) (row : Fields), source[i]? = some result →
      result.row = some row →
      ((((SourceTopologyFilterStage.run catalog step.runtimeBinding.sourceValidation source)[i]?).bind
          TransformResult.row) = some row ↔
        state.onUnanchored = .warn ∨
          ∀ id, SourceTopologyFilterStage.nodeId row state.nodeIdField = some id →
            ¬Lost (data step.runtimeBinding.topologyDataset).nodes
              (data step.runtimeBinding.topologyDataset).targetIds id)) ∧
    (state.onUnanchored = .hardError → ∀ id,
      ¬Lost (data step.runtimeBinding.topologyDataset).nodes
        (data step.runtimeBinding.topologyDataset).targetIds id) := by
  have hvalid := validated_of_run hname hlate h hruns hstate
  have hlost (id : String) : Dict.get? state.dropped id = none ↔
      ¬Lost (data step.runtimeBinding.topologyDataset).nodes
        (data step.runtimeBinding.topologyDataset).targetIds id := by
    rw [← hvalid.dropped_iff hfuel]
    simp
  refine ⟨fun i result row hi hrow => ?_,fun hhard id => (hlost id).mp (hvalid.hard_dropped hhard id)⟩
  rw [hstate, SourceTopologyFilterStage.run_eq_map, List.getElem?_map, hi, Option.map_some,
    Option.bind_some, filter_step state hrow]
  simp only [hlost]

theorem rows_kept_iff_units :
    (((SourceTopologyFilterStage.run [] unitStep.runtimeBinding.sourceValidation
        [⟨⟨1,"r1",[]⟩,some [("unit",.str "b")],none,none,[],[],[],[]⟩])[0]?).bind
          TransformResult.row) = some [("unit",.str "b")] ↔
      unitState.onUnanchored = .warn ∨
        ∀ id, SourceTopologyFilterStage.nodeId [("unit",.str "b")] unitState.nodeIdField = some id →
          ¬Lost unitData.nodes unitData.targetIds id :=
  (@rows_kept_iff [] unitDeclarations (fun _ => unitData) 3 0 "import-plan" "units" .importPlan
    unitStep (by decide +kernel) rfl unitStep_run (by decide +kernel) unitState
    (by decide +kernel) (by decide +kernel)
    [⟨⟨1,"r1",[]⟩,some [("unit",.str "b")],none,none,[],[],[],[]⟩]).1 0 _ _ rfl rfl

end Filtered

end NexusEtl.TopologyBootstrap
