import NexusEtl.TransformResult

/-!
# The operation engine and the sink schema

A registry maps operation names to functions; the engine runs a chain of calls
and stops at the first unknown or failing one. The sink schema checks required
fields and types. Both report issues, which a stage turns into its diagnostics
according to its error policy.
-/

set_option autoImplicit false

namespace NexusEtl
open NexusEtl.Library

inductive OnError
  | error | warn
  deriving DecidableEq, Repr

structure DslIssue where
  code : String
  message : String
  field : Option String
  details : Option Fields
  severity : DiagnosticSeverity
  deriving DecidableEq, Repr

def anyError (issues : List DslIssue) : Bool :=
  issues.any fun i => i.severity == .error

/-- Errors and warnings that a stage collects for one row. -/
structure Diagnosed where
  errors : List DiagnosticItem
  warnings : List DiagnosticItem
  deriving DecidableEq, Repr

def appendDslIssue (stage : DiagnosticStage) (catalog : ErrorCatalog)
    (recordRef : Option RowRef) (onError : OnError) (acc : Diagnosed) (issue : DslIssue) :
    Diagnosed :=
  if issue.severity == .warning || onError == .warn then
    { acc with warnings := acc.warnings ++ [diagWarning catalog stage issue.code issue.field
        (some issue.message) recordRef issue.details (some .warning)] }
  else
    { acc with errors := acc.errors ++ [diagError catalog stage issue.code issue.field
        (some issue.message) recordRef issue.details] }

def appendDslIssues (stage : DiagnosticStage) (catalog : ErrorCatalog)
    (recordRef : Option RowRef) (onError : OnError) (acc : Diagnosed)
    (issues : List DslIssue) : Diagnosed :=
  issues.foldl (appendDslIssue stage catalog recordRef onError) acc

/-- Every collected error names the given stage. -/
def Diagnosed.ErrorsOf (stage : DiagnosticStage) (d : Diagnosed) : Prop :=
  ∀ e ∈ d.errors, e.stage = stage

theorem appendDslIssue_errorsOf {stage : DiagnosticStage} (catalog : ErrorCatalog)
    (ref : Option RowRef) (onError : OnError) {acc : Diagnosed} (h : acc.ErrorsOf stage)
    (issue : DslIssue) :
    (appendDslIssue stage catalog ref onError acc issue).ErrorsOf stage := by
  unfold appendDslIssue
  split
  · exact h
  · intro e he
    rcases List.mem_append.mp he with he | he
    · exact h e he
    · rw [List.mem_singleton.mp he, diagError_stage]

theorem appendDslIssues_errorsOf {stage : DiagnosticStage} (catalog : ErrorCatalog)
    (ref : Option RowRef) (onError : OnError) {acc : Diagnosed} (h : acc.ErrorsOf stage)
    (issues : List DslIssue) :
    (appendDslIssues stage catalog ref onError acc issues).ErrorsOf stage := by
  induction issues generalizing acc with
  | nil => exact h
  | cons i is ih => exact ih (appendDslIssue_errorsOf catalog ref onError h i)

structure OperationCall where
  op : String
  args : Fields
  deriving DecidableEq, Repr

abbrev OperationFunc := Value → Fields → Except PyException Value

abbrev OperationRegistry := Dict String OperationFunc

structure EngineResult where
  value : Value
  issues : List DslIssue

/-- `TransformationEngine.apply`: calls run in order, the first issue ends the chain. -/
def engineApply (registry : OperationRegistry) : Nat → Value → List OperationCall → EngineResult
  | _, current, [] => ⟨current,[]⟩
  | step, current, call::calls =>
    match Dict.get? registry call.op with
    | none =>
      ⟨current,[{ code := "DSL_OP_UNKNOWN", message := "Unknown operation '" ++ call.op ++ "'"
                  field := none
                  details := some [("op",.str call.op),("step",.int step)]
                  severity := .error }]⟩
    | some func =>
      match func current call.args with
      | .ok next => engineApply registry (step+1) next calls
      | .error exc =>
        ⟨current,[{ code := "DSL_OP_FAILED"
                    message := "Operation '" ++ call.op ++ "' failed: " ++ exc.text
                    field := none
                    details := some [("op",.str call.op),("args",.dict call.args),
                      ("step",.int step),("error",.str exc.text)]
                    severity := .error }]⟩

def applyOps (registry : OperationRegistry) (value : Value) (ops : List OperationCall) :
    EngineResult := engineApply registry 0 value ops

inductive SinkType
  | string | int | float | bool | object | list
  deriving DecidableEq, Repr

def SinkType.name : SinkType → String
  | .string => "string" | .int => "int" | .float => "float" | .bool => "bool"
  | .object => "object" | .list => "list"

structure SinkFieldSpec where
  name : String
  type : SinkType
  required : Bool
  nullable : Bool
  deriving DecidableEq, Repr

structure SinkSpec where
  fields : List SinkFieldSpec
  systemFields : List SinkFieldSpec
  deriving DecidableEq, Repr

def boolWords : List String := ["true", "false", "1", "0", "yes", "no", "y", "n"]

def matchesType : Value → SinkType → Bool
  | .str _, .string => true
  | _, .string => false
  | .bool _, .bool => true
  | .str s, .bool => boolWords.contains (Text.lower (Text.strip s))
  | _, .bool => false
  | .int _, .int => true
  | .str s, .int => Text.isDigit (Text.strip s)
  | _, .int => false
  | .int _, .float => true
  | .float _, .float => true
  | .str s, .float => Text.isFloatText s
  | _, .float => false
  | .dict _, .object => true
  | _, .object => false
  | .list _, .list => true
  | _, .list => false

def missingRequiredIssue (field : String) : DslIssue :=
  { code := "SINK_REQUIRED_MISSING", message := field ++ " is required by sink schema"
    field := some field, details := none, severity := .error }

def typeIssue (field : String) (expected : SinkType) (value : Value) : DslIssue :=
  { code := "SINK_TYPE_INVALID"
    message := field ++ " has invalid type (expected " ++ expected.name ++ ")"
    field := some field
    details := some [("expected",.str expected.name),("actual",.str value.typeName)]
    severity := .error }

def isBlankText : Value → Bool
  | .str s => Text.strip s == ""
  | _ => false

def validateField (row : Fields) (field : SinkFieldSpec) (checkTypes : Bool) : List DslIssue :=
  let value := Fields.read row field.name
  if field.required && (!Dict.contains row field.name
      || ((value.isNull || isBlankText value) && !field.nullable)) then
    [missingRequiredIssue field.name]
  else if !checkTypes || value.isNull || matchesType value field.type then []
  else [typeIssue field.name field.type value]

def validateSinkRow (row : Fields) (spec : SinkSpec) (checkTypes : Bool) : List DslIssue :=
  spec.fields.flatMap fun field => validateField row field checkTypes

/-- The field table of `validate_sink_fields`: a later declaration replaces an earlier one. -/
def SinkSpec.indexed (spec : SinkSpec) : Dict String SinkFieldSpec :=
  (spec.fields ++ spec.systemFields).foldl (fun d f => Dict.set d f.name f) []

def validateSinkFields (row : Fields) (spec : SinkSpec) (names : List String)
    (checkTypes : Bool) : List DslIssue :=
  names.flatMap fun name => match Dict.get? spec.indexed name with
    | some field => validateField row field checkTypes
    | none => []

end NexusEtl
