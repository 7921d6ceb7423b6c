import NexusEtl.Dsl

/-!
# The normalizer

Normalize rules run their operations on one field each, in order, over the
values of the row so far. The result is checked against the sink schema, either
on the touched fields or on the whole row. New errors drop the row; the errors
and warnings of the source stay in front.
-/

set_option autoImplicit false

namespace NexusEtl
open NexusEtl.Library

structure NormalizeRule where
  field : String
  ops : List OperationCall
  onError : OnError
  deriving DecidableEq, Repr

structure CompiledNormalizeRules where
  rules : List NormalizeRule
  onError : OnError
  validateOnlyTouchedFields : Bool
  deriving DecidableEq, Repr

structure NormalizerCore where
  compiled : CompiledNormalizeRules
  registry : OperationRegistry
  sinkSpec : Option SinkSpec
  catalog : ErrorCatalog

namespace NormalizerCore

structure State where
  values : Fields
  touched : List String
  diagnosed : Diagnosed

def append (core : NormalizerCore) (ref : Option RowRef) (onError : OnError)
    (acc : Diagnosed) (issues : List DslIssue) : Diagnosed :=
  appendDslIssues .normalize core.catalog ref onError acc issues

def applyRule (core : NormalizerCore) (ref : Option RowRef) (state : State)
    (rule : NormalizeRule) : State :=
  if rule.ops = [] then state
  else
    let applied := applyOps core.registry (Fields.read state.values rule.field) rule.ops
    { values := Dict.set state.values rule.field applied.value
      touched := if rule.field ∈ state.touched then state.touched
        else state.touched ++ [rule.field]
      diagnosed := core.append ref rule.onError state.diagnosed applied.issues }

def sinkIssues (core : NormalizerCore) (state : State) : List DslIssue :=
  match core.sinkSpec with
  | none => []
  | some spec =>
    if core.compiled.validateOnlyTouchedFields then
      validateSinkFields state.values spec state.touched true
    else validateSinkRow state.values spec true

def normalize (core : NormalizerCore) (source : TransformResult Fields) :
    TransformResult Fields :=
  match source.row with
  | none => source
  | some row =>
    let state := core.compiled.rules.foldl (core.applyRule source.rowRef) ⟨row,[],⟨[],[]⟩⟩
    let acc := core.append source.rowRef core.compiled.onError state.diagnosed
      (core.sinkIssues state)
    { source with
      row := if acc.errors = [] then some state.values else none
      errors := source.errors ++ acc.errors
      warnings := source.warnings ++ acc.warnings }

theorem applyRules_errorsOf (core : NormalizerCore) (ref : Option RowRef)
    (rules : List NormalizeRule) {state : State} (h : state.diagnosed.ErrorsOf .normalize) :
    (rules.foldl (core.applyRule ref) state).diagnosed.ErrorsOf .normalize := by
  induction rules generalizing state with
  | nil => exact h
  | cons rule rules ih =>
    apply ih
    unfold applyRule
    split
    · exact h
    · exact appendDslIssues_errorsOf core.catalog ref rule.onError h _

/-- Normalizing only appends errors of its own stage and keeps everything else but
the row, the warnings and the errors; a row that comes out has no new error. -/
theorem normalize_spec (core : NormalizerCore) (source : TransformResult Fields) :
    ∃ added : List DiagnosticItem, (core.normalize source).errors = source.errors ++ added ∧
      (∀ e ∈ added, e.stage = .normalize) ∧
      (source.row = none → core.normalize source = source) ∧
      ((core.normalize source).row.isSome → added = []) ∧
      (core.normalize source).secretCandidates = source.secretCandidates ∧
      (core.normalize source).record = source.record := by
  unfold normalize
  split
  · rename_i h
    exact ⟨[],by simp,by simp,by simp,by simp,rfl,rfl⟩
  · rename_i row h
    refine ⟨_,rfl,?_,by simp [h],?_,rfl,rfl⟩
    · exact appendDslIssues_errorsOf core.catalog _ _
        (core.applyRules_errorsOf source.rowRef _ (by simp [Diagnosed.ErrorsOf])) _
    · intro hrow
      by_contra hne
      simp [hne] at hrow

end NormalizerCore
end NexusEtl
