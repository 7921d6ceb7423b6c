import NexusEtl.CacheRefresh

/-!
# The cache specification and its sync adapter

A dataset of the cache declares its table and how an item of the target becomes
a row of it. The compiler checks the declaration and keeps the part that the
table needs. The adapter evaluates the projection of one item.
-/

set_option autoImplicit false

namespace NexusEtl
open NexusEtl.Library

inductive CacheFieldType
  | string | int | float | bool | datetime | json
  deriving DecidableEq, Repr

structure CacheColumnSpec where
  name : String
  type : CacheFieldType
  required : Bool := false
  source : Option String := none
  deriving DecidableEq, Repr

structure CacheIndexSpec where
  name : String
  fields : List String
  unique : Bool := false
  fields_ne : fields ≠ []

/-- One column name, or a list of them. -/
inductive PrimaryKeySpec
  | column (name : String)
  | columns (names : List String)
  deriving DecidableEq, Repr

def PrimaryKeySpec.fields : PrimaryKeySpec → List String
  | .column name => [name]
  | .columns names => names

structure CacheTableSchemaSpec where
  primaryKey : PrimaryKeySpec
  columns : List CacheColumnSpec
  indexes : List CacheIndexSpec := []
  columns_ne : columns ≠ []

inductive CacheOnError
  | error | warn | skip | setNull
  deriving DecidableEq, Repr

/-- The validator of a value expression: it has a path, paths or a constant. -/
def HasOrigin (source : Option String) (sources : Option (List String)) (value : Value) : Prop :=
  source ≠ none ∨ sources.getD [] ≠ [] ∨ value ≠ .null

structure ValueExprSpec where
  source : Option String := none
  sources : Option (List String) := none
  value : Value := .null
  ops : List OperationCall := []
  required : Bool := false
  onError : CacheOnError := .error
  origin : HasOrigin source sources value

inductive SoftDeleteType
  | fieldEquals | fieldNotNull
  deriving DecidableEq, Repr

structure SoftDeleteRuleSpec where
  type : SoftDeleteType
  field : String
  value : Value := .null
  normalize : List OperationCall := []
  has_value : type = .fieldEquals → value ≠ .null

inductive SoftDeleteMode
  | anyOf | allOf
  deriving DecidableEq, Repr

structure SoftDeleteSpec where
  mode : SoftDeleteMode := .anyOf
  rules : List SoftDeleteRuleSpec
  rules_ne : rules ≠ []

structure CacheProjectionRuleSpec where
  target : String
  source : Option String := none
  sources : Option (List String) := none
  value : Value := .null
  ops : List OperationCall := []
  required : Bool := false
  onError : CacheOnError := .error
  origin : HasOrigin source sources value

structure CacheSyncSpec where
  dataset : Option String := none
  listOperationAlias : String
  itemKey : ValueExprSpec
  isDeleted : Option ValueExprSpec := none
  softDelete : Option SoftDeleteSpec := none
  projection : List CacheProjectionRuleSpec
  includeDeletedDefault : Bool := false
  projection_ne : projection ≠ []
  one_deletion : isDeleted = none ∨ softDelete = none

structure CacheDatasetSpec where
  dataset : String
  table : String
  schema : CacheTableSchemaSpec
  sync : Option CacheSyncSpec := none

structure CacheDslBuildOptions where
  failOnUnknownOps : Bool := true
  requireSyncDatasetMatch : Bool := true
  failOnUnknownPkFields : Bool := true
  failOnUnknownIndexFields : Bool := true
  failOnDuplicateProjectionTargets : Bool := true
  failOnUnknownProjectionTargets : Bool := true
  forbidIsDeletedAndSoftDeleteTogether : Bool := true
  deriving DecidableEq, Repr

structure DslLoadError where
  code : String
  message : String
  details : Fields
  deriving DecidableEq, Repr

structure FieldSpec where
  name : String
  type : CacheFieldType
  nullable : Bool
  source : Option String
  deriving DecidableEq, Repr

structure CacheSpec where
  dataset : String
  table : String
  primaryKey : List String
  fields : List FieldSpec
  uniqueIndexes : List (List String)
  indexes : List (List String)
  deriving DecidableEq, Repr

/-! ## The compiler -/

namespace CacheDsl

def textList (names : List String) : Value := .list (names.map .str)

/-- The names that a list holds more than once, each of them once and in order. -/
def duplicates (names : List String) : List String :=
  sortTexts (names.filter fun name => decide (1 < names.count name)).dedup

theorem nodup_of_duplicates {names : List String} (h : duplicates names = []) : names.Nodup := by
  rw [List.nodup_iff_count_le_one]
  intro name
  by_contra hc
  have hcount : 1 < names.count name := by omega
  have hin : name ∈ names := List.count_pos_iff.mp (by omega)
  have hdup : name ∈ (names.filter fun n => decide (1 < names.count n)).dedup :=
    List.mem_dedup.mpr (List.mem_filter.mpr ⟨hin,decide_eq_true hcount⟩)
  have hmem : name ∈ duplicates names := (List.mem_insertionSort _).mpr hdup
  rw [h] at hmem
  exact absurd hmem List.not_mem_nil

def reject (bad : Bool) (code message : String) (details : Fields) : Except DslLoadError Unit :=
  if bad then .error ⟨code,message,details⟩ else .ok ()

/-- `_iter_sync_operation_calls` -/
def syncOperationCalls (sync : CacheSyncSpec) : List (String × List OperationCall) :=
  [("cache.sync.item_key.ops",sync.itemKey.ops)] ++
    (sync.isDeleted.toList.map fun e => ("cache.sync.is_deleted.ops",e.ops)) ++
    (sync.softDelete.toList.flatMap fun s => s.rules.zipIdx.map fun (rule,idx) =>
      ("cache.sync.soft_delete.rules[" ++ toString idx ++ "].normalize",rule.normalize)) ++
    sync.projection.zipIdx.map fun (rule,idx) =>
      ("cache.sync.projection[" ++ toString idx ++ "].ops",rule.ops)

def unknownOps (registry : OperationRegistry) (sync : CacheSyncSpec) :
    List (String × String × Nat) :=
  (syncOperationCalls sync).flatMap fun (context,calls) => calls.zipIdx.filterMap fun (call,step) =>
    if Dict.get? registry call.op = none then some (call.op,context,step) else none

/-- `_validate_sync_ops_known` -/
def validateSyncOpsKnown (dataset : String) (sync : CacheSyncSpec) (registry : OperationRegistry) :
    Except DslLoadError Unit :=
  let unknown := unknownOps registry sync
  reject (!unknown.isEmpty) "DSL_OP_UNKNOWN"
    ("Unknown DSL operations in cache sync spec '" ++ dataset ++ "': " ++
      Value.pyRepr (textList (sortTexts (unknown.map Prod.fst).dedup)))
    [("dataset",.str dataset),("unknown_ops",.list (unknown.map fun (op,context,step) =>
      .dict [("op",.str op),("context",.str context),("step",.int step)]))]

def validateSync (dataset : String) (sync : CacheSyncSpec) (options : CacheDslBuildOptions)
    (registry : Option OperationRegistry) (knownColumns : List String) :
    Except DslLoadError Unit := do
  match registry with
  | some ops => if options.failOnUnknownOps then validateSyncOpsKnown dataset sync ops
  | none => pure ()
  reject (options.forbidIsDeletedAndSoftDeleteTogether &&
      (sync.isDeleted.isSome && sync.softDelete.isSome)) "CACHE_DSL_SPEC_INVALID"
    "cache.sync.is_deleted and cache.sync.soft_delete are mutually exclusive"
    [("dataset",.str dataset)]
  reject (options.requireSyncDatasetMatch && sync.dataset.any (· ≠ dataset))
    "CACHE_DSL_SPEC_INVALID"
    ("cache.sync.dataset mismatch: expected '" ++ dataset ++ "', got '" ++
      sync.dataset.getD "None" ++ "'")
    [("dataset",.str dataset)]
  let targets := sync.projection.map CacheProjectionRuleSpec.target
  let dupTargets := duplicates targets
  reject (options.failOnDuplicateProjectionTargets && !dupTargets.isEmpty) "CACHE_DSL_SPEC_INVALID"
    ("cache.sync.projection has duplicate targets: " ++ Value.pyRepr (textList dupTargets))
    [("dataset",.str dataset),("targets",textList dupTargets)]
  let unknown := sortTexts (targets.filter (· ∉ knownColumns)).dedup
  reject (options.failOnUnknownProjectionTargets && !unknown.isEmpty) "CACHE_DSL_SPEC_INVALID"
    ("cache.sync.projection references unknown target columns: " ++
      Value.pyRepr (textList unknown))
    [("dataset",.str dataset),("targets",textList unknown)]

/-- `_validate_semantics` -/
def validateSemantics (dataset : String) (spec : CacheDatasetSpec) (options : CacheDslBuildOptions)
    (registry : Option OperationRegistry) : Except DslLoadError Unit := do
  let names := spec.schema.columns.map CacheColumnSpec.name
  let dups := duplicates names
  reject (!dups.isEmpty) "CACHE_DSL_SPEC_INVALID"
    ("Duplicate columns in cache schema '" ++ dataset ++ "': " ++ Value.pyRepr (textList dups))
    [("dataset",.str dataset),("columns",textList dups)]
  spec.schema.primaryKey.fields.forM fun field =>
    reject (decide (field ∉ names) && options.failOnUnknownPkFields) "CACHE_DSL_SPEC_INVALID"
      ("Primary key field '" ++ field ++ "' is not declared in columns")
      [("dataset",.str dataset),("field",.str field)]
  spec.schema.indexes.forM fun idx =>
    let unknown := idx.fields.filter (· ∉ names)
    reject (!unknown.isEmpty && options.failOnUnknownIndexFields) "CACHE_DSL_SPEC_INVALID"
      ("Index '" ++ idx.name ++ "' references unknown fields: " ++ Value.pyRepr (textList unknown))
      [("dataset",.str dataset),("index",.str idx.name),("fields",textList unknown)]
  match spec.sync with
  | none => pure ()
  | some sync => validateSync dataset sync options registry names

/-- `_compile_cache_spec` -/
def compileCacheSpec (dataset : String) (spec : CacheDatasetSpec) : CacheSpec where
  dataset := dataset
  table := spec.table
  primaryKey := spec.schema.primaryKey.fields
  fields := spec.schema.columns.map fun column =>
    ⟨column.name,column.type,!column.required,column.source⟩
  uniqueIndexes := (spec.schema.indexes.filter (·.unique)).map CacheIndexSpec.fields
  indexes := (spec.schema.indexes.filter (!·.unique)).map CacheIndexSpec.fields

/-- One dataset of `compile_cache_runtime`. -/
def compileDataset (dataset : String) (spec : CacheDatasetSpec) (options : CacheDslBuildOptions)
    (coreOps : OperationRegistry) : Except DslLoadError CacheSpec := do
  validateSemantics dataset spec options (if options.failOnUnknownOps then some coreOps else none)
  return compileCacheSpec dataset spec

end CacheDsl

def CacheSpec.names (spec : CacheSpec) : List String := spec.fields.map FieldSpec.name

theorem CacheDsl.nodup_names {dataset : String} {spec : CacheDatasetSpec}
    {options : CacheDslBuildOptions} {ops : OperationRegistry} {compiled : CacheSpec}
    (h : compileDataset dataset spec options ops = .ok compiled) : compiled.names.Nodup := by
  cases hv : validateSemantics dataset spec options
      (if options.failOnUnknownOps then some ops else none) with
  | error e =>
    rw [compileDataset, hv] at h
    cases h
  | ok u =>
    rw [compileDataset, hv] at h
    have hc : compileCacheSpec dataset spec = compiled := Except.ok.inj h
    have hnames : compiled.names = spec.schema.columns.map CacheColumnSpec.name := by
      rw [← hc]
      simp [CacheSpec.names, compileCacheSpec, Function.comp_def]
    rw [hnames]
    apply nodup_of_duplicates
    cases hd : duplicates (spec.schema.columns.map CacheColumnSpec.name) with
    | nil => rfl
    | cons d ds =>
      rw [validateSemantics, hd] at hv
      cases hv

/-! ## The adapter -/

/-- What an expression gives: a value, or the sign to leave the field out. -/
inductive Evaluated
  | value (v : Value)
  | skipField
  deriving DecidableEq, Repr

def descend : Value → String → Value
  | .dict fields, part => Fields.read fields part
  | _, _ => .null

/-- `_read_path` -/
def readPath (data : Fields) (path : String) : Value :=
  if path.toList.contains '.' then (Text.splitOn '.' path).foldl descend (.dict data)
  else Fields.read data path

def isEmptyValue : Value → Bool
  | .null => true
  | .str s => Text.strip s == ""
  | _ => false

def isNullLike : Value → Bool
  | .null => true
  | .str s => ["", "null", "none"].contains (Text.lower (Text.strip s))
  | _ => false

/-- The rows of one sync specification; `skipText` is the text of the skip sign. -/
structure DslCacheSyncAdapter where
  dataset : String
  syncSpec : CacheSyncSpec
  engine : OperationRegistry
  skipText : String

namespace DslCacheSyncAdapter

variable (adapter : DslCacheSyncAdapter)

def readExprSource (raw : Fields) (expr : ValueExprSpec) : Value :=
  if expr.value ≠ .null then expr.value
  else match expr.source with
    | some source => readPath raw source
    | none => match expr.sources with
      | some (path::paths) => .list ((path::paths).map (readPath raw))
      | _ => .null

/-- `_eval_value_expr` -/
def evalValueExpr (raw : Fields) (expr : ValueExprSpec) : Except PyException Evaluated :=
  let current := readExprSource raw expr
  let result := applyOps adapter.engine current expr.ops
  if expr.ops ≠ [] ∧ result.issues ≠ [] then
    match expr.onError with
    | .error => .error ⟨"ValueError",Text.join "; " (result.issues.map DslIssue.message)⟩
    | .skip => .ok .skipField
    | .warn => .ok (.value .null)
    | .setNull => .ok (.value .null)
  else
    let current := if expr.ops ≠ [] then result.value else current
    if expr.required && isEmptyValue current then .error ⟨"ValueError","required value is empty"⟩
    else .ok (.value current)

def evalProjectionRule (raw : Fields) (rule : CacheProjectionRuleSpec) :
    Except PyException Evaluated :=
  adapter.evalValueExpr raw
    ⟨rule.source,rule.sources,rule.value,rule.ops,rule.required,rule.onError,rule.origin⟩

def projectRule (raw : Fields) (mapped : Fields) (rule : CacheProjectionRuleSpec) :
    Except PyException Fields := do
  match ← adapter.evalProjectionRule raw rule with
  | .skipField =>
    if rule.required then
      throw ⟨"ValueError","required cache field cannot be skipped: " ++ rule.target⟩
    else return mapped
  | .value v =>
    if v = .null ∧ rule.required = true then
      throw ⟨"ValueError","required cache field is empty: " ++ rule.target⟩
    else return Dict.set mapped rule.target v

def mapTargetToCache (raw : Fields) : Except PyException Fields :=
  adapter.syncSpec.projection.foldlM (adapter.projectRule raw) []

def getItemKey (raw : Fields) : Except PyException String := do
  match ← adapter.evalValueExpr raw adapter.syncSpec.itemKey with
  | .skipField => return adapter.skipText
  | .value v =>
    if isEmptyValue v then throw ⟨"ValueError","cache sync item_key is empty"⟩
    else return Value.pyStr v

/-- A value under the calls of a rule; a failing chain leaves it as it is. -/
def normalized (value : Value) (calls : List OperationCall) : Value :=
  let result := applyOps adapter.engine value calls
  if calls = [] ∨ result.issues ≠ [] then value else result.value

def matchesRule (raw : Fields) (rule : SoftDeleteRuleSpec) : Bool :=
  let value := adapter.normalized (readPath raw rule.field) rule.normalize
  match rule.type with
  | .fieldNotNull => !isNullLike value
  | .fieldEquals => Value.pyEq value (adapter.normalized rule.value rule.normalize)

/-- `_eval_soft_delete` -/
def evalSoftDelete (raw : Fields) (spec : SoftDeleteSpec) : Bool :=
  match spec.mode with
  | .allOf => spec.rules.all (adapter.matchesRule raw)
  | .anyOf => spec.rules.any (adapter.matchesRule raw)

def flagged : Value → Bool
  | .null => false
  | .bool b => b
  | .int n => n != 0
  | .float q => q != 0
  | v => ["1", "true", "yes", "y"].contains (Text.lower (Text.strip (Value.pyStr v)))

def isDeleted (raw : Fields) : Except PyException Bool :=
  match adapter.syncSpec.softDelete, adapter.syncSpec.isDeleted with
  | some spec, _ => .ok (adapter.evalSoftDelete raw spec)
  | none, none => .ok false
  | none, some expr => do
    match ← adapter.evalValueExpr raw expr with
    | .skipField => return flagged (.str adapter.skipText)
    | .value v => return flagged v

/-- The adapter as the refresh of the cache sees it. -/
def toSync : CacheSyncAdapter Fields where
  dataset := adapter.dataset
  listOperationAlias := adapter.syncSpec.listOperationAlias
  includeDeletedDefault := adapter.syncSpec.includeDeletedDefault
  getItemKey := adapter.getItemKey
  isDeleted := adapter.isDeleted
  mapTargetToCache := adapter.mapTargetToCache

end DslCacheSyncAdapter

end NexusEtl
