import NexusEtl.CacheDsl
import NexusEtl.Mapper
import NexusEtl.NestedOperations
import NexusEtl.Normalizer

/-!
# The check of operations at compile time

The compilers of the mapping and the normalize rules look up every call of a rule in the
registry that the engine will use. Calls that stand in the arguments of `map_each` are not
looked up, and its engine has the core operations only. When no run ends in an unknown
operation is settled for every record.
-/

set_option autoImplicit false

namespace NexusEtl
open NexusEtl.Library

/-! ## The compilers -/

def unknownOperation (dataset place op : String) : DslLoadError :=
  { code := "DSL_OP_UNKNOWN"
    message := "Unknown operation '" ++ op ++ "' in " ++ place
    details := [("op",.str op),("dataset",.str dataset)] }

def checkCalls (ops : Operations) (dataset place : String) (calls : List OperationCall) :
    Except DslLoadError Unit :=
  calls.forM fun call => match Dict.get? ops call.op with
    | none => .error (unknownOperation dataset place call.op)
    | some _ => .ok ()

structure MapDslBuildOptions where
  failOnUnknownOps : Bool := true
  requireTargetsExistInSinkSpec : Bool := false

structure MappingSpec extends CompiledMapRules where
  dataset : String

namespace MapperDsl

/-- `rule.target or rule.targets` in a message -/
def targetText (rule : MappingRule) : String :=
  if rule.target.getD "" = "" then Value.pyStr (.list (rule.targets.map .str))
  else rule.target.getD ""

def validateOpsKnown (ops : Operations) (spec : MappingSpec) : Except DslLoadError Unit := do
  spec.rules.forM fun rule => checkCalls ops spec.dataset
    ("mapping rule for target '" ++ targetText rule ++ "'") rule.ops
  spec.metaRules.forM fun rule => checkCalls ops spec.dataset
    ("mapping meta rule for target '" ++ rule.target ++ "'") rule.ops

def checkedTargets (rule : MappingRule) : List String :=
  if rule.targets ≠ [] then rule.targets
  else if rule.target.getD "" = "" then [] else rule.target.toList

def compileInvalid (message : String) (details : Fields) : DslLoadError :=
  ⟨"MAP_DSL_COMPILE_INVALID",message,details⟩

def validateTargetsInSink (spec : MappingSpec) (sinkSpec : SinkSpec) :
    Except DslLoadError Unit :=
  spec.rules.forM fun rule => (checkedTargets rule).forM fun target =>
    if target ∈ (sinkSpec.fields ++ sinkSpec.systemFields).map SinkFieldSpec.name then .ok ()
    else .error (compileInvalid
      ("Mapping target '" ++ target ++ "' does not exist in sink spec")
      [("target",.str target),("dataset",.str spec.dataset)])

def checkTargets (options : MapDslBuildOptions) (spec : MappingSpec)
    (sinkSpec : Option SinkSpec) : Except DslLoadError Unit :=
  if options.requireTargetsExistInSinkSpec then
    match sinkSpec with
    | none => .error (compileInvalid
        "sink_spec is required when require_targets_exist_in_sink_spec=true"
        [("dataset",.str spec.dataset)])
    | some sink => validateTargetsInSink spec sink
  else .ok ()

def compile (ops : Operations) (options : MapDslBuildOptions) (spec : MappingSpec)
    (sinkSpec : Option SinkSpec) : Except DslLoadError CompiledMapRules := do
  checkTargets options spec sinkSpec
  if options.failOnUnknownOps then validateOpsKnown ops spec else .ok ()
  .ok spec.toCompiledMapRules

end MapperDsl

structure NormalizeDslBuildOptions where
  failOnUnknownOps : Bool := true
  validateOnlyTouchedFields : Bool := false

structure NormalizeSpec where
  dataset : String
  onError : OnError
  rules : List NormalizeRule

namespace NormalizerDsl

def validateOpsKnown (ops : Operations) (spec : NormalizeSpec) : Except DslLoadError Unit :=
  spec.rules.forM fun rule => checkCalls ops spec.dataset
    ("normalize rule for field '" ++ rule.field ++ "'") rule.ops

def compile (ops : Operations) (options : NormalizeDslBuildOptions) (spec : NormalizeSpec) :
    Except DslLoadError CompiledNormalizeRules := do
  if options.failOnUnknownOps then validateOpsKnown ops spec else .ok ()
  .ok ⟨spec.rules,spec.onError,options.validateOnlyTouchedFields⟩

end NormalizerDsl

/-- The registry knows every call of the chain. -/
def Known (ops : Operations) (calls : List OperationCall) : Prop :=
  ∀ call ∈ calls, Dict.get? ops call.op ≠ none

theorem checkCalls_ok_iff {ops : Operations} {dataset place : String}
    {calls : List OperationCall} :
    checkCalls ops dataset place calls = .ok () ↔ Known ops calls := by
  rw [checkCalls, forM_ok_iff]
  refine forall₂_congr fun call _ => ?_
  cases Dict.get? ops call.op with
  | none => simp
  | some operation => simp

theorem MapperDsl.compile_known {ops : Operations} {options : MapDslBuildOptions}
    {spec : MappingSpec} {sinkSpec : Option SinkSpec} {compiled : CompiledMapRules}
    (h : MapperDsl.compile ops options spec sinkSpec = .ok compiled)
    (hflag : options.failOnUnknownOps = true) :
    (∀ rule ∈ compiled.rules, Known ops rule.ops) ∧
      ∀ rule ∈ compiled.metaRules, Known ops rule.ops := by
  rw [MapperDsl.compile, if_pos hflag] at h
  obtain ⟨_,_,h⟩ := bind_ok_iff.mp h
  obtain ⟨_,hknown,h⟩ := bind_ok_iff.mp h
  obtain rfl : spec.toCompiledMapRules = compiled := by simpa using h
  obtain ⟨_,hrules,hmeta⟩ := bind_ok_iff.mp hknown
  rw [forM_ok_iff] at hrules hmeta
  exact ⟨fun rule hrule => checkCalls_ok_iff.mp (hrules rule hrule),
    fun rule hrule => checkCalls_ok_iff.mp (hmeta rule hrule)⟩

theorem NormalizerDsl.compile_known {ops : Operations} {options : NormalizeDslBuildOptions}
    {spec : NormalizeSpec} {compiled : CompiledNormalizeRules}
    (h : NormalizerDsl.compile ops options spec = .ok compiled)
    (hflag : options.failOnUnknownOps = true) :
    ∀ rule ∈ compiled.rules, Known ops rule.ops := by
  rw [NormalizerDsl.compile, if_pos hflag] at h
  obtain ⟨_,hknown,h⟩ := bind_ok_iff.mp h
  obtain rfl : CompiledNormalizeRules.mk spec.rules spec.onError
    options.validateOnlyTouchedFields = compiled := by simpa using h
  rw [NormalizerDsl.validateOpsKnown, forM_ok_iff] at hknown
  exact fun rule hrule => checkCalls_ok_iff.mp (hknown rule hrule)

/-! ## The chains of a run -/

namespace MapperCore

/-- The value that the operations of a rule start from. -/
def ruleInput (core : MapperCore) (record : SourceRecord) (rule : MappingRule) : Value :=
  (core.resolveRuleValue record { rule with ops := [] }).1

def metaInput (core : MapperCore) (record : SourceRecord) (row : Fields) (rule : MetaRule) :
    Value := (core.resolveMetaValue record row { rule with ops := [] }).1

/-- A run on the record applies the operations of a rule that it reaches. -/
inductive Applies (core : MapperCore) (record : SourceRecord) :
    Value → List OperationCall → Prop
  | rule {before after : List MappingRule} {rule : MappingRule} {state : Fields × Diagnosed}
      (split : core.compiled.rules = before ++ rule :: after)
      (reached : core.applyRules record before ([],⟨[],[]⟩) = .ok state) :
      Applies core record (core.ruleInput record rule) rule.ops
  | metaRule {row : Fields} {acc : Diagnosed} {before after : List MetaRule} {rule : MetaRule}
      {state : Fields × Diagnosed}
      (rules : core.applyRules record core.compiled.rules ([],⟨[],[]⟩) = .ok (row,acc))
      (required : requirePresent row core.compiled.schemaRequired = .ok ())
      (clean : (core.validateSink record row acc).errors = [])
      (split : core.compiled.metaRules = before ++ rule :: after)
      (reached : core.applyMetaRules record row before
        ([],core.validateSink record row acc) = .ok state) :
      Applies core record (core.metaInput record row rule) rule.ops

theorem Applies.mem {core : MapperCore} {record : SourceRecord} {value : Value}
    {calls : List OperationCall} (h : core.Applies record value calls) :
    (∃ rule ∈ core.compiled.rules, rule.ops = calls) ∨
      ∃ rule ∈ core.compiled.metaRules, rule.ops = calls := by
  cases h with
  | @rule before after rule state split reached => exact .inl ⟨rule,by simp [split],rfl⟩
  | @metaRule row acc before after rule state rules required clean split reached =>
    exact .inr ⟨rule,by simp [split],rfl⟩

end MapperCore

namespace NormalizerCore

inductive Applies (core : NormalizerCore) (source : TransformResult Fields) :
    Value → List OperationCall → Prop
  | rule {row : Fields} {before after : List NormalizeRule} {rule : NormalizeRule}
      (hasRow : source.row = some row) (split : core.compiled.rules = before ++ rule :: after) :
      Applies core source (Fields.read
        (before.foldl (core.applyRule source.rowRef) ⟨row,[],⟨[],[]⟩⟩).values rule.field) rule.ops

theorem Applies.mem {core : NormalizerCore} {source : TransformResult Fields} {value : Value}
    {calls : List OperationCall} (h : core.Applies source value calls) :
    ∃ rule ∈ core.compiled.rules, rule.ops = calls := by
  cases h with
  | @rule row before after rule hasRow split => exact ⟨rule,by simp [split],rfl⟩

end NormalizerCore

namespace Engine

variable (core : CoreOps) (depth : Nat) (ops : Operations)

theorem applyOps_functions (value : Value) (calls : List OperationCall) :
    applyOps (functions core depth ops) value calls =
      ⟨(apply core depth ops value calls).1,
        ((apply core depth ops value calls).2.map ChainIssue.toDslIssue).toList⟩ :=
  engineApply_functions core depth ops 0 value calls

/-- The issues of a mapping rule end with the issue of its chain. -/
theorem resolveRuleValue_functions (mapper : MapperCore) (record : SourceRecord)
    (rule : MappingRule) (h : mapper.registry = functions core depth ops) :
    (mapper.resolveRuleValue record rule).2 =
      (mapper.resolveRuleValue record { rule with ops := [] }).2 ++
        ((apply core depth ops (mapper.ruleInput record rule) rule.ops).2.map
          ChainIssue.toDslIssue).toList := by
  by_cases hops : rule.ops = []
  · simp [MapperCore.resolveRuleValue, hops, apply, applyCalls]
  · simp only [MapperCore.ruleInput, MapperCore.resolveRuleValue, if_neg hops, h,
      applyOps_functions, if_true]

theorem resolveMetaValue_functions (mapper : MapperCore) (record : SourceRecord) (row : Fields)
    (rule : MetaRule) (h : mapper.registry = functions core depth ops) :
    (mapper.resolveMetaValue record row rule).2 =
      ((apply core depth ops (mapper.metaInput record row rule) rule.ops).2.map
        ChainIssue.toDslIssue).toList := by
  by_cases hops : rule.ops = []
  · simp [MapperCore.resolveMetaValue, hops, apply, applyCalls]
  · rw [MapperCore.metaInput, MapperCore.resolveMetaValue, if_neg hops, h, applyOps_functions]
    rfl

/-- No chain that a run applies ends in an unknown operation. -/
def NeverUnknown (applies : Value → List OperationCall → Prop) : Prop :=
  ∀ value calls, applies value calls → ¬ EndsUnknown (apply core depth ops value calls).2

/-- Nested chains that a run arrives at look up core operations only. -/
def StaysInCore (applies : Value → List OperationCall → Prop) : Prop :=
  ∀ value calls, applies value calls →
    ∀ name ∈ nestedNames (opMapEach core depth) (mapEachNames core depth) ops value calls,
      name ∈ Operations.coreNames

variable {core depth ops}

theorem neverUnknown_iff {applies : Value → List OperationCall → Prop}
    (hknown : ∀ value calls, applies value calls → Known ops calls) :
    NeverUnknown core depth ops applies ↔ StaysInCore core depth ops applies := by
  refine forall₂_congr fun value calls => ?_
  refine imp_congr_right fun happlies => ?_
  rw [apply_endsUnknown core depth value (hknown value calls happlies)]
  push Not
  exact Iff.rfl

/-! ### Nested calls that stand in the arguments -/

/-- Every call in the arguments of `map_each`, at every depth, names a core operation. -/
def NestedKnown (core : CoreOps) : Nat → Fields → Prop
  | 0, _ => True
  | depth+1, args => ∀ arg calls, opsArgument args = .ok arg →
      coerceNestedOps core arg = .ok calls → ∀ call ∈ calls,
        call.op ∈ Operations.coreNames ∧ (call.op = "map_each" → NestedKnown core depth call.args)

/-- As far as the registry has `op_map_each` under the name of a call. -/
def CallsNestedKnown (core : CoreOps) (depth : Nat) (ops : Operations)
    (calls : List OperationCall) : Prop :=
  ∀ call ∈ calls, Dict.get? ops call.op = some .mapEach → NestedKnown core depth call.args

theorem mem_nestedNames {mapEach : MapEach} {inner : Value → Fields → List String}
    {value : Value} {calls : List OperationCall} {name : String}
    (h : name ∈ nestedNames mapEach inner ops value calls) :
    ∃ call ∈ calls, Dict.get? ops call.op = some .mapEach ∧
      ∃ current, name ∈ inner current call.args := by
  induction calls generalizing value with
  | nil => cases h
  | cons call calls ih =>
    rw [nestedNames] at h
    cases hop : Dict.get? ops call.op with
    | none => rw [hop] at h; cases h
    | some operation =>
      rw [hop] at h
      rcases List.mem_append.mp h with h | h
      · cases operation with
        | mapEach => exact ⟨call,List.mem_cons_self,hop,value,h⟩
        | func run => cases h
      · split at h
        · obtain ⟨found,hfound,rest⟩ := ih h
          exact ⟨found,List.mem_cons_of_mem _ hfound,rest⟩
        · cases h

theorem mem_itemNames {chain : Value → Value × Option ChainIssue} {names : Value → List String}
    {items : List Value} {name : String} (h : name ∈ itemNames chain names items) :
    ∃ item, name ∈ names item := by
  induction items with
  | nil => cases h
  | cons item items ih =>
    rw [itemNames] at h
    rcases List.mem_append.mp h with h | h
    · exact ⟨item,h⟩
    · split at h
      · exact ih h
      · cases h

theorem CoreOps.eq_map_each {name : String} (h : Dict.get? core.registry name = some .mapEach) :
    name = "map_each" := by
  by_contra hne
  have hmem := Dict.mem_of_get? h
  rw [CoreOps.registry, List.mem_map] at hmem
  obtain ⟨other,_,hother⟩ := hmem
  obtain ⟨rfl,hoperation⟩ := Prod.mk.inj hother
  rw [CoreOps.operation, if_neg hne] at hoperation
  cases hoperation

theorem nestedCalls_some {value : Value} {args : Fields} {calls : List OperationCall}
    (h : nestedCalls core value args = .ok (some calls)) :
    ∃ arg, opsArgument args = .ok arg ∧ coerceNestedOps core arg = .ok calls := by
  rw [nestedCalls] at h
  cases harg : opsArgument args with
  | error exc => rw [harg] at h; cases h
  | ok arg =>
    rw [harg] at h
    dsimp only at h
    split at h
    · cases h
    · refine ⟨arg,rfl,?_⟩
      cases hcoerce : coerceNestedOps core arg with
      | error exc => rw [hcoerce] at h; cases h
      | ok found =>
        rw [hcoerce] at h
        exact congrArg _ (Option.some.inj (Except.ok.inj h))

theorem mapEachNames_known (depth : Nat) {args : Fields} (h : NestedKnown core depth args)
    (value : Value) : ∀ name ∈ mapEachNames core depth value args,
      name ∈ Operations.coreNames := by
  induction depth generalizing args value with
  | zero => intro name hname; cases hname
  | succ depth ih =>
    intro name hname
    rw [mapEachNames] at hname
    split at hname
    · rename_i calls hcalls
      obtain ⟨arg,harg,hcoerce⟩ := nestedCalls_some hcalls
      have hknown := h arg calls harg hcoerce
      obtain ⟨item,hitem⟩ := mem_itemNames hname
      rcases List.mem_append.mp hitem with hitem | hitem
      · obtain ⟨call,hcall,rfl⟩ := mem_of_mem_ownNames hitem
        exact (hknown call hcall).1
      · obtain ⟨call,hcall,hop,current,hcurrent⟩ := mem_nestedNames hitem
        exact ih ((hknown call hcall).2 (CoreOps.eq_map_each hop)) current name hcurrent
    · cases hname

/-- The induction over nested lists: known calls at every depth keep every run in the core. -/
theorem staysInCore_of_nestedKnown {applies : Value → List OperationCall → Prop}
    (h : ∀ value calls, applies value calls → CallsNestedKnown core depth ops calls) :
    StaysInCore core depth ops applies := by
  intro value calls happlies name hname
  obtain ⟨call,hcall,hop,current,hcurrent⟩ := mem_nestedNames hname
  exact mapEachNames_known depth (h value calls happlies call hcall hop) current name hcurrent

end Engine

section
variable (core : CoreOps) (depth : Nat) (ops : Operations) (sinkSpec : Option SinkSpec)
  (catalog : ErrorCatalog)

/-- The stages run on the registry that the compilers looked at. -/
def mapperOf (rules : CompiledMapRules) : MapperCore :=
  ⟨rules,Engine.functions core depth ops,sinkSpec,catalog⟩

def normalizerOf (rules : CompiledNormalizeRules) : NormalizerCore :=
  ⟨rules,Engine.functions core depth ops,sinkSpec,catalog⟩

open Engine in
/-- A run of compiled rules ends in no unknown operation exactly when the nested chains that
it arrives at look up core operations only; so it is on every record when the calls in the
arguments of `map_each` name core operations at every depth. -/
theorem never_unknown_iff {mapOptions : MapDslBuildOptions} {mapping : MappingSpec}
    {mapSink : Option SinkSpec} {mapRules : CompiledMapRules}
    {normalizeOptions : NormalizeDslBuildOptions} {normalizing : NormalizeSpec}
    {normalizeRules : CompiledNormalizeRules}
    (hmap : MapperDsl.compile ops mapOptions mapping mapSink = .ok mapRules)
    (hmapFlag : mapOptions.failOnUnknownOps = true)
    (hnormalize : NormalizerDsl.compile ops normalizeOptions normalizing = .ok normalizeRules)
    (hnormalizeFlag : normalizeOptions.failOnUnknownOps = true) :
    (∀ record,
      NeverUnknown core depth ops
          ((mapperOf core depth ops sinkSpec catalog mapRules).Applies record) ↔
        StaysInCore core depth ops
          ((mapperOf core depth ops sinkSpec catalog mapRules).Applies record)) ∧
      (∀ source,
        NeverUnknown core depth ops
            ((normalizerOf core depth ops sinkSpec catalog normalizeRules).Applies source) ↔
          StaysInCore core depth ops
            ((normalizerOf core depth ops sinkSpec catalog normalizeRules).Applies source)) ∧
      ((∀ calls ∈ mapRules.rules.map MappingRule.ops ++ mapRules.metaRules.map MetaRule.ops,
          CallsNestedKnown core depth ops calls) →
        ∀ record, NeverUnknown core depth ops
          ((mapperOf core depth ops sinkSpec catalog mapRules).Applies record)) ∧
      ((∀ rule ∈ normalizeRules.rules, CallsNestedKnown core depth ops rule.ops) →
        ∀ source, NeverUnknown core depth ops
          ((normalizerOf core depth ops sinkSpec catalog normalizeRules).Applies source)) := by
  obtain ⟨hrules,hmeta⟩ := MapperDsl.compile_known hmap hmapFlag
  have hnormalizeRules := NormalizerDsl.compile_known hnormalize hnormalizeFlag
  have hmapper (record : SourceRecord) : NeverUnknown core depth ops
      ((mapperOf core depth ops sinkSpec catalog mapRules).Applies record) ↔
        StaysInCore core depth ops
          ((mapperOf core depth ops sinkSpec catalog mapRules).Applies record) := by
    refine neverUnknown_iff fun value calls happlies => ?_
    obtain ⟨rule,hrule,rfl⟩ | ⟨rule,hrule,rfl⟩ := happlies.mem
    · exact hrules rule hrule
    · exact hmeta rule hrule
  have hnormalizer (source : TransformResult Fields) : NeverUnknown core depth ops
      ((normalizerOf core depth ops sinkSpec catalog normalizeRules).Applies source) ↔
        StaysInCore core depth ops
          ((normalizerOf core depth ops sinkSpec catalog normalizeRules).Applies source) := by
    refine neverUnknown_iff fun value calls happlies => ?_
    obtain ⟨rule,hrule,rfl⟩ := happlies.mem
    exact hnormalizeRules rule hrule
  refine ⟨hmapper,hnormalizer,fun h record => ?_,fun h source => ?_⟩
  · refine (hmapper record).mpr (staysInCore_of_nestedKnown fun value calls happlies => ?_)
    obtain ⟨rule,hrule,rfl⟩ | ⟨rule,hrule,rfl⟩ := happlies.mem
    · exact h _ (List.mem_append_left _ (List.mem_map_of_mem hrule))
    · exact h _ (List.mem_append_right _ (List.mem_map_of_mem hrule))
  · refine (hnormalizer source).mpr (staysInCore_of_nestedKnown fun value calls happlies => ?_)
    obtain ⟨rule,hrule,rfl⟩ := happlies.mem
    exact h rule hrule

end

namespace OperationCheck

def core : CoreOps := ⟨fun _ value _ => .ok value,Value.pyRepr⟩

def shouting : Operations := core.registry ++ [("shout",.func fun value _ => .ok value)]

def mapEachOf (name : String) : OperationCall :=
  ⟨"map_each",[("ops",.list [.dict [("op",.str name)]])]⟩

def mapping (name : String) : MappingSpec :=
  { dataset := "employees"
    rules := [⟨some "name",[],some "name",[],[mapEachOf name],false,.error⟩]
    metaRules := [], schemaRequired := [], sourceColumns := ["name"] }

def normalizing (name : String) : NormalizeSpec :=
  ⟨"employees",.error,[⟨"name",[mapEachOf name],.error⟩]⟩

def ann : SourceRecord := ⟨1,"1",[("name",.str "ann")]⟩

end OperationCheck

open OperationCheck Engine in
/-- With a nested `trim` the rules compile, and no record ends in an unknown operation. -/
theorem never_unknown_iff_trim :
    (∀ record, NeverUnknown core 1 core.registry
      ((mapperOf core 1 core.registry none [] (mapping "trim").toCompiledMapRules).Applies
        record)) ∧
      ∀ source, NeverUnknown core 1 core.registry
        ((normalizerOf core 1 core.registry none []
          ⟨(normalizing "trim").rules,.error,false⟩).Applies source) := by
  have hmap : MapperDsl.compile core.registry {} (mapping "trim") none =
    .ok (mapping "trim").toCompiledMapRules := rfl
  have hnormalize : NormalizerDsl.compile core.registry {} (normalizing "trim") =
    .ok ⟨(normalizing "trim").rules,.error,false⟩ := rfl
  have h := never_unknown_iff core 1 core.registry none [] hmap rfl hnormalize rfl
  have hnested : CallsNestedKnown core 1 core.registry [mapEachOf "trim"] := by
    intro call hcall _ arg calls harg hcoerce inner hinner
    obtain rfl := List.mem_singleton.mp hcall
    obtain rfl : _ = arg := Except.ok.inj harg
    obtain rfl : _ = calls := Except.ok.inj hcoerce
    obtain rfl := List.mem_singleton.mp hinner
    exact ⟨by decide,fun _ => trivial⟩
  exact ⟨h.2.2.1 (by simpa [mapping] using hnested),h.2.2.2 (by simpa [normalizing] using hnested)⟩

open OperationCheck Engine in
/-- The rule with a nested `shout` compiles on a registry that has it, and fails on `ann`. -/
theorem nested_shout_unknown :
    Operations.register core.registry "shout" (.func fun value _ => .ok value) false =
        .ok shouting ∧
      MapperDsl.compile shouting {} (mapping "shout") none =
        .ok (mapping "shout").toCompiledMapRules ∧
      ¬ NeverUnknown core 1 shouting
        ((mapperOf core 1 shouting none [] (mapping "shout").toCompiledMapRules).Applies ann) := by
  refine ⟨rfl,rfl,fun h => ?_⟩
  refine h (.str "ann") [mapEachOf "shout"] ?_
    ⟨.nested (mapEachOf "shout") 0 (.unknown "shout" 0),rfl,trivial⟩
  exact @MapperCore.Applies.rule
    (mapperOf core 1 shouting none [] (mapping "shout").toCompiledMapRules) ann [] []
    ⟨some "name",[],some "name",[],[mapEachOf "shout"],false,.error⟩ ([],⟨[],[]⟩) rfl rfl

end NexusEtl
