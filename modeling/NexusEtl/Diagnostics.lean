import NexusEtl.Value

/-!
# Diagnostics

Diagnostic items, references to source rows and the catalog that supplies a
message and a severity for a code. Codes are taken to be registered, so the
strict mode of the catalog, which aborts the whole run on an unknown code,
does not occur. The boundary turns an exception of a stage into one item.
-/

set_option autoImplicit false

namespace NexusEtl
open NexusEtl.Library

inductive DiagnosticStage
  | extract | map | normalize | enrich | validate | matching | resolve | plan | apply | cache
  | sink | topologyValidate | topologyBootstrap
  deriving DecidableEq, Repr

inductive DiagnosticSeverity
  | error | warning
  deriving DecidableEq, Repr

structure RowRef where
  lineNo : Option Int
  rowId : String
  identityPrimary : Option String
  identityValue : Option String
  deriving DecidableEq, Repr

structure Identity where
  primary : String
  values : Dict String String
  deriving DecidableEq, Repr

def Identity.primaryValue (i : Identity) : String := (Dict.get? i.values i.primary).getD ""

structure DiagnosticItem where
  stage : DiagnosticStage
  code : String
  field : Option String
  message : String
  recordRef : Option RowRef
  details : Option Fields
  severity : DiagnosticSeverity
  deriving DecidableEq, Repr

/-- The taxonomy behind the diagnostic codes, for stop policies and exit codes. -/
inductive SystemErrorCode
  | ok | unknownCode | internalError | dataInvalid | authUnauthorized | authForbidden | conflict
  | infraTimeout | infraUnavailable | ioError | cacheError
  deriving DecidableEq, Repr

structure CatalogEntry where
  systemCode : SystemErrorCode
  defaultMessage : Option String
  severity : Option DiagnosticSeverity
  deriving DecidableEq, Repr

abbrev ErrorCatalog := Dict String CatalogEntry

namespace ErrorCatalog

def classify (catalog : ErrorCatalog) (code : String) : SystemErrorCode :=
  ((Dict.get? catalog code).map CatalogEntry.systemCode).getD .unknownCode

def resolveSeverity (catalog : ErrorCatalog) (code : String)
    (explicit : Option DiagnosticSeverity) (fallback : DiagnosticSeverity) :
    DiagnosticSeverity :=
  match explicit with
  | some s => s
  | none => ((Dict.get? catalog code).bind CatalogEntry.severity).getD fallback

def resolveMessage (catalog : ErrorCatalog) (code : String) (explicit : Option String) :
    String :=
  match explicit with
  | some m => if m ≠ "" then m else fromEntry
  | none => fromEntry
where
  fromEntry : String := match (Dict.get? catalog code).bind CatalogEntry.defaultMessage with
    | some m => if m ≠ "" then m else code
    | none => code

end ErrorCatalog

/-- `DiagnosticItem.from_catalog`, shared by the error and warning factories. -/
def DiagnosticItem.fromCatalog (catalog : ErrorCatalog) (stage : DiagnosticStage)
    (code : String) (field : Option String) (message : Option String)
    (recordRef : Option RowRef) (details : Option Fields)
    (severity : Option DiagnosticSeverity) (default : DiagnosticSeverity) : DiagnosticItem :=
  { stage := stage
    code := code
    field := field
    message := catalog.resolveMessage code message
    recordRef := recordRef
    details := details
    severity := catalog.resolveSeverity code severity default }

def diagError (catalog : ErrorCatalog) (stage : DiagnosticStage) (code : String)
    (field : Option String) (message : Option String) (recordRef : Option RowRef)
    (details : Option Fields) : DiagnosticItem :=
  .fromCatalog catalog stage code field message recordRef details none .error

def diagWarning (catalog : ErrorCatalog) (stage : DiagnosticStage) (code : String)
    (field : Option String) (message : Option String) (recordRef : Option RowRef)
    (details : Option Fields) (severity : Option DiagnosticSeverity) : DiagnosticItem :=
  .fromCatalog catalog stage code field message recordRef details severity .warning

@[simp] theorem diagError_stage (catalog : ErrorCatalog) (stage : DiagnosticStage)
    (code : String) (field message : Option String) (ref : Option RowRef)
    (details : Option Fields) :
    (diagError catalog stage code field message ref details).stage = stage := rfl

/-- An exception carries its class and its text. -/
structure PyException where
  name : String
  text : String
  deriving DecidableEq, Repr

def translateException (catalog : ErrorCatalog) (stage : DiagnosticStage) (exc : PyException)
    (recordRef : Option RowRef) : DiagnosticItem :=
  diagError catalog stage "INTERNAL_ERROR" none (some exc.text) recordRef none

@[simp] theorem translateException_stage (catalog : ErrorCatalog) (stage : DiagnosticStage)
    (exc : PyException) (ref : Option RowRef) :
    (translateException catalog stage exc ref).stage = stage := rfl

/-- `diagnostic_boundary`: the body's result, or nothing and the items for the sink. -/
def diagnosticBoundary {α : Type} (stage : DiagnosticStage) (catalog : ErrorCatalog)
    (recordRef : Option RowRef) : Except PyException α → Option α × List DiagnosticItem
  | .ok a => (some a,[])
  | .error exc => (none,[translateException catalog stage exc recordRef])

end NexusEtl
