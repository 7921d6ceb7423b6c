import NexusEtl.Dsl

/-!
# The mapper

Mapping rules read source columns, run their operations and assign one or
several targets. The row is then checked for required fields and, only when no
error was recorded, the metadata rules run. A row with an error is dropped.
-/

set_option autoImplicit false

namespace NexusEtl
open NexusEtl.Library

structure MappingRule where
  target : Option String
  targets : List String
  source : Option String
  sources : List String
  ops : List OperationCall
  required : Bool
  onError : OnError
  deriving DecidableEq, Repr

structure MetaRule where
  target : String
  source : Option String
  sources : List String
  ops : List OperationCall
  onError : OnError
  deriving DecidableEq, Repr

structure CompiledMapRules where
  rules : List MappingRule
  metaRules : List MetaRule
  schemaRequired : List String
  sourceColumns : List String
  deriving DecidableEq, Repr

structure MapperCore where
  compiled : CompiledMapRules
  registry : OperationRegistry
  sinkSpec : Option SinkSpec
  catalog : ErrorCatalog

namespace MapperCore

def sourceIndex (columns : List String) : Dict String Nat :=
  columns.zipIdx.foldl (fun d p => Dict.set d p.1 p.2) []

def rowRefFromRecord (record : SourceRecord) : RowRef :=
  ⟨some record.lineNo,record.recordId,none,none⟩

/-- `_read_source`: a column by its name, else by its position as `col_N`. -/
def readSource (columns : List String) (record : SourceRecord) (name : String) : Option Value :=
  match Dict.get? record.values name with
  | some v => some v
  | none => match Dict.get? (sourceIndex columns) name with
    | some i => Dict.get? record.values ("col_" ++ toString i)
    | none => none

def missingColumn (name : String) : DslIssue :=
  { code := "missing_source_column", message := "Missing source column '" ++ name ++ "'"
    field := some name, details := none, severity := .error }

def readColumn (columns : List String) (record : SourceRecord) (name : String) :
    Value × List DslIssue :=
  match readSource columns record name with
  | some v => (v,[])
  | none => (.null,[missingColumn name])

def resolveRuleValue (core : MapperCore) (record : SourceRecord) (rule : MappingRule) :
    Value × List DslIssue :=
  let columns := core.compiled.sourceColumns
  let (value,issues) :=
    if rule.sources ≠ [] then
      let read := rule.sources.map (readColumn columns record)
      (Value.list (read.map Prod.fst),read.flatMap Prod.snd)
    else match rule.source with
      | some name => readColumn columns record name
      | none => (.null,[])
  if rule.ops = [] then (value,issues)
  else
    let applied := applyOps core.registry value rule.ops
    (applied.value,issues ++ applied.issues)

/-- `read_value`: an explicit `row.` or `record.` path, else the record before the row. -/
def readValue (record row : Fields) (path : String) : Value :=
  if Text.hasPrefix "row." path then Fields.read row (Text.dropPrefix "row." path)
  else if Text.hasPrefix "record." path then
    Fields.read record (Text.dropPrefix "record." path)
  else if Dict.contains record path then Fields.read record path
  else Fields.read row path

def resolveMetaValue (core : MapperCore) (record : SourceRecord) (row : Fields)
    (rule : MetaRule) : Value × List DslIssue :=
  let value :=
    if rule.sources ≠ [] then Value.list (rule.sources.map (readValue record.values row))
    else match rule.source with
      | some path => if path ≠ "" then readValue record.values row path else .null
      | none => .null
  if rule.ops = [] then (value,[])
  else
    let applied := applyOps core.registry value rule.ops
    (applied.value,applied.issues)

def isPresent (v : Value) : Bool := !v.isNull && !isBlankText v

/-- The required checks call a method `_append_issue` that the class does not define. -/
def appendIssueMissing : PyException :=
  ⟨"AttributeError","'MapperCore' object has no attribute '_append_issue'"⟩

def ruleTargets (rule : MappingRule) : List String :=
  if rule.targets ≠ [] then rule.targets else rule.target.toList

def targetValue (value : Value) (index : Nat) (target : String) : Value :=
  match value with
  | .dict fields => Fields.read fields target
  | .list items => items.getD index .null
  | v => v

def assignValues (row : Fields) (rule : MappingRule) (value : Value) : Fields :=
  if rule.targets ≠ [] then
    rule.targets.zipIdx.foldl
      (fun row p => Dict.set row p.1 (targetValue value p.2 p.1)) row
  else match rule.target with
    | some target => Dict.set row target value
    | none => row

def requirePresent (row : Fields) (names : List String) : Except PyException Unit :=
  if names.all fun name => isPresent (Fields.read row name) then .ok ()
  else .error appendIssueMissing

def append (core : MapperCore) (record : SourceRecord) (onError : OnError) (acc : Diagnosed)
    (issues : List DslIssue) : Diagnosed :=
  appendDslIssues .map core.catalog (some (rowRefFromRecord record)) onError acc issues

def applyRules (core : MapperCore) (record : SourceRecord) :
    List MappingRule → Fields × Diagnosed → Except PyException (Fields × Diagnosed)
  | [], state => .ok state
  | rule::rules, (row,acc) =>
    let (value,issues) := core.resolveRuleValue record rule
    let acc := core.append record rule.onError acc issues
    if anyError issues then core.applyRules record rules (row,acc)
    else
      let row := assignValues row rule value
      match requirePresent row (if rule.required then ruleTargets rule else []) with
      | .ok () => core.applyRules record rules (row,acc)
      | .error exc => .error exc

def validateSink (core : MapperCore) (record : SourceRecord) (row : Fields)
    (acc : Diagnosed) : Diagnosed :=
  match core.sinkSpec with
  | none => acc
  | some spec => core.append record .warn acc (validateSinkRow row spec false)

def typeError (text : String) : PyException := ⟨"TypeError",text⟩

def itemAssignmentError : Value → PyException
  | .list _ => typeError "list indices must be integers or slices, not str"
  | v => typeError ("'" ++ v.typeName ++ "' object does not support item assignment")

/-- `_set_meta`: nested dictionaries are made on the way; another value there raises. -/
def setMeta : Fields → List String → Value → Except PyException Fields
  | fields, [], _ => .ok fields
  | fields, [key], value => .ok (Dict.set fields key value)
  | fields, key::key'::keys, value =>
    match (Dict.get? fields key).getD (.dict []) with
    | .dict inner => match setMeta inner (key'::keys) value with
      | .ok inner => .ok (Dict.set fields key (.dict inner))
      | .error exc => .error exc
    | other =>
      if keys = [] then .error (itemAssignmentError other)
      else .error ⟨"AttributeError",
        "'" ++ other.typeName ++ "' object has no attribute 'setdefault'"⟩

def applyMetaRules (core : MapperCore) (record : SourceRecord) (row : Fields) :
    List MetaRule → Fields × Diagnosed → Except PyException (Fields × Diagnosed)
  | [], state => .ok state
  | rule::rules, (fields,acc) =>
    let (value,issues) := core.resolveMetaValue record row rule
    let acc := core.append record rule.onError acc issues
    if anyError issues || value.isNull then core.applyMetaRules record row rules (fields,acc)
    else match setMeta fields (Text.splitOn '.' rule.target) value with
      | .ok fields => core.applyMetaRules record row rules (fields,acc)
      | .error exc => .error exc

/-- `MapperCore.map_record` with the rules of `_apply_rules`. -/
def mapRecord (core : MapperCore) (record : SourceRecord) :
    Except PyException (TransformResult Fields) := do
  let (row,acc) ← core.applyRules record core.compiled.rules ([],⟨[],[]⟩)
  requirePresent row core.compiled.schemaRequired
  let acc := core.validateSink record row acc
  let metaRules := if acc.errors = [] then core.compiled.metaRules else []
  let (fields,acc) ← core.applyMetaRules record row metaRules ([],acc)
  return {
    record := record
    row := if acc.errors = [] then some row else none
    rowRef := none
    matchKey := none
    metadata := fields
    secretCandidates := []
    errors := acc.errors
    warnings := acc.warnings }

theorem append_errorsOf (core : MapperCore) (record : SourceRecord) (onError : OnError)
    {acc : Diagnosed} (h : acc.ErrorsOf .map) (issues : List DslIssue) :
    (core.append record onError acc issues).ErrorsOf .map :=
  appendDslIssues_errorsOf core.catalog _ onError h issues

theorem applyRules_errorsOf (core : MapperCore) (record : SourceRecord)
    {rules : List MappingRule} {state out : Fields × Diagnosed} (h : state.2.ErrorsOf .map)
    (hr : core.applyRules record rules state = .ok out) : out.2.ErrorsOf .map := by
  induction rules generalizing state with
  | nil =>
    simp only [applyRules, Except.ok.injEq] at hr
    exact hr ▸ h
  | cons rule rules ih =>
    obtain ⟨row,acc⟩ := state
    simp only [applyRules] at hr
    have hacc := core.append_errorsOf record rule.onError h (core.resolveRuleValue record rule).2
    split at hr
    · exact ih hacc hr
    · split at hr
      · exact ih hacc hr
      · cases hr

theorem applyMetaRules_errorsOf (core : MapperCore) (record : SourceRecord) (row : Fields)
    {rules : List MetaRule} {state out : Fields × Diagnosed} (h : state.2.ErrorsOf .map)
    (hr : core.applyMetaRules record row rules state = .ok out) : out.2.ErrorsOf .map := by
  induction rules generalizing state with
  | nil =>
    simp only [applyMetaRules, Except.ok.injEq] at hr
    exact hr ▸ h
  | cons rule rules ih =>
    obtain ⟨fields,acc⟩ := state
    simp only [applyMetaRules] at hr
    have hacc := core.append_errorsOf record rule.onError h
      (core.resolveMetaValue record row rule).2
    split at hr
    · exact ih hacc hr
    · split at hr
      · exact ih hacc hr
      · cases hr

theorem validateSink_errorsOf (core : MapperCore) (record : SourceRecord) (row : Fields)
    {acc : Diagnosed} (h : acc.ErrorsOf .map) :
    (core.validateSink record row acc).ErrorsOf .map := by
  unfold validateSink
  split
  · exact h
  · exact core.append_errorsOf record .warn h _

/-- What a mapped record is: its own record, no reference or key yet, no secrets,
errors of the map stage only, and a row exactly when there are none. -/
theorem mapRecord_spec {core : MapperCore} {record : SourceRecord}
    {out : TransformResult Fields} (h : core.mapRecord record = .ok out) :
    out.record = record ∧ out.rowRef = none ∧ out.matchKey = none ∧
      out.secretCandidates = [] ∧ (∀ e ∈ out.errors, e.stage = .map) ∧
      (out.row = none ↔ out.errors ≠ []) := by
  simp only [mapRecord, bind, Except.bind, pure, Except.pure] at h
  split at h
  · cases h
  rename_i ruled hruled
  split at h
  · cases h
  split at h
  · cases h
  rename_i final hfinal
  cases h
  have hrules : ruled.2.ErrorsOf .map :=
    core.applyRules_errorsOf record (by simp [Diagnosed.ErrorsOf]) hruled
  have hsink := core.validateSink_errorsOf record ruled.1 hrules
  have hmeta := core.applyMetaRules_errorsOf record ruled.1 hsink hfinal
  refine ⟨rfl,rfl,rfl,rfl,hmeta,?_⟩
  by_cases he : final.2.errors = [] <;> simp [he]

end MapperCore
end NexusEtl
