import NexusEtl.Diagnostics

/-!
# Transform results

The record that every stage passes on: the source record, the row when there
still is one, metadata, secret candidates and the diagnostics so far. A stage
edits it through a builder, which here is an update of the record's fields.
-/

set_option autoImplicit false

namespace NexusEtl
open NexusEtl.Library

structure SourceRecord where
  lineNo : Int
  recordId : String
  values : Fields
  deriving DecidableEq, Repr

structure TransformResult (ρ : Type) where
  record : SourceRecord
  row : Option ρ
  rowRef : Option RowRef
  matchKey : Option String
  metadata : Fields
  secretCandidates : Dict String String
  errors : List DiagnosticItem
  warnings : List DiagnosticItem
  deriving DecidableEq, Repr

namespace TransformResult

variable {ρ σ : Type}

/-- The builder with its row removed and more errors appended. -/
def dropRow (r : TransformResult ρ) (errs : List DiagnosticItem) : TransformResult σ :=
  { r with row := none, errors := r.errors ++ errs }

/-- A result without a row, whose row type is free to change with the stage. -/
def withoutRow (r : TransformResult ρ) : TransformResult σ := { r with row := none }

def addErrors (r : TransformResult ρ) (errs : List DiagnosticItem) : TransformResult ρ :=
  { r with errors := r.errors ++ errs }

@[simp] theorem dropRow_row (r : TransformResult ρ) (errs : List DiagnosticItem) :
    (r.dropRow errs : TransformResult σ).row = none := rfl

@[simp] theorem dropRow_errors (r : TransformResult ρ) (errs : List DiagnosticItem) :
    (r.dropRow errs : TransformResult σ).errors = r.errors ++ errs := rfl

@[simp] theorem withoutRow_row (r : TransformResult ρ) :
    (r.withoutRow : TransformResult σ).row = none := rfl

@[simp] theorem withoutRow_errors (r : TransformResult ρ) :
    (r.withoutRow : TransformResult σ).errors = r.errors := rfl

@[simp] theorem addErrors_row (r : TransformResult ρ) (errs : List DiagnosticItem) :
    (r.addErrors errs).row = r.row := rfl

@[simp] theorem addErrors_errors (r : TransformResult ρ) (errs : List DiagnosticItem) :
    (r.addErrors errs).errors = r.errors ++ errs := rfl

end TransformResult
end NexusEtl
