import NexusEtl.Dsl
import Mathlib.Data.List.Sort

/-!
# Enrich: outcomes, policies, candidates and compiled operations

An operation carries the closures that the DSL compiler builds: providers, a
compute function and the parts of a generate rule. A closure may raise. The
generators are also given the number of the attempt, since two calls of a
random or counting generator need not agree.
-/

set_option autoImplicit false

namespace NexusEtl
open NexusEtl.Library

inductive EnrichOutcome
  | applied | skipped | warned | failed | needsResolve
  deriving DecidableEq, Repr

def EnrichOutcome.value : EnrichOutcome → String
  | .applied => "APPLIED" | .skipped => "SKIPPED" | .warned => "WARNED"
  | .failed => "FAILED" | .needsResolve => "NEEDS_RESOLVE"

inductive RunWhenErrors
  | never | onlyNonFatal | always
  deriving DecidableEq, Repr

inductive EnrichOperationType
  | compute | fillMissing | lookup | generate | membership
  deriving DecidableEq, Repr

inductive MergeMode
  | fillOnlyIfEmpty | recomputeAlways | overrideIfEmpty | overrideIfAuthoritative
  | neverOverride
  deriving DecidableEq, Repr

structure StrictnessPolicy where
  onMissingKey : EnrichOutcome := .skipped
  onNoCandidates : EnrichOutcome := .skipped
  onAmbiguous : EnrichOutcome := .needsResolve
  onProviderError : EnrichOutcome := .warned
  deriving DecidableEq, Repr

structure CandidateValue where
  field : String
  value : Value
  source : String
  priority : Option Int
  confidence : Option Rat
  evidence : Option Fields
  deriving DecidableEq, Repr

structure EnrichEvent where
  op : String
  field : String
  before : Value
  after : Value
  source : String
  decision : String
  outcome : EnrichOutcome
  deriving DecidableEq, Repr

/-- `event.__dict__`, the form in which an event enters the metadata. -/
def EnrichEvent.toValue (e : EnrichEvent) : Value :=
  .dict [("op",.str e.op),("field",.str e.field),("before",e.before),("after",e.after),
    ("source",.str e.source),("decision",.str e.decision),("outcome",.str e.outcome.value)]

structure ResolveHint where
  field : String
  lookupKey : Fields
  reason : String
  candidates : List Fields
  suggestedPolicy : Option String
  deriving DecidableEq, Repr

def optStr : Option String → Value
  | some s => .str s
  | none => .null

def ResolveHint.toValue (h : ResolveHint) : Value :=
  .dict [("field",.str h.field),("lookup_key",.dict h.lookupKey),("reason",.str h.reason),
    ("candidates",.list (h.candidates.map .dict)),("suggested_policy",optStr h.suggestedPolicy)]

structure OperationReport where
  op : String
  outcome : EnrichOutcome
  events : List EnrichEvent
  resolveHints : List ResolveHint
  warnings : List DiagnosticItem
  errors : List DiagnosticItem
  deriving DecidableEq, Repr

structure EnrichContext where
  dataset : String
  runId : Option String
  deriving DecidableEq, Repr

inductive ConflictStrategy
  | error | retryWithSuffixes
  deriving DecidableEq, Repr

structure CompiledConflictPolicy where
  strategy : ConflictStrategy
  suffixes : List String
  attempts : Nat
  deriving DecidableEq, Repr

abbrev Enriching := TransformResult Fields

structure EnrichmentOperation (D : Type) where
  name : String
  opType : EnrichOperationType
  targets : List String
  requiredKeys : List String := []
  providers : List (EnrichContext → Enriching → D → Fields →
    Except PyException (List CandidateValue)) := []
  mergePolicy : Option MergeMode := none
  strictness : Option StrictnessPolicy := none
  runWhenErrors : RunWhenErrors := .never
  compute : Option (Enriching → D → Except PyException Fields) := none
  generator : Option (Nat → Enriching → D → Except PyException Value) := none
  baseGenerator : Option (Nat → Enriching → D → Except PyException Value) := none
  condition : Option (Enriching → D → Except PyException Bool) := none
  appendGenerator : Option (Nat → Enriching → D → Except PyException Value) := none
  existing : Option (D → Value → Except PyException (Option Value)) := none
  allowIf : Option (Enriching → Value → Except PyException Bool) := none
  conflictPolicy : Option CompiledConflictPolicy := none
  maxAttempts : Int := 3
  postprocess : Option (Value → Except PyException Value) := none
  missingErrorCode : Option String := none
  conflictErrorCode : Option String := none
  errorField : Option String := none

structure EnricherSpec (D : Type) where
  operations : List (EnrichmentOperation D)
  keyBuilders : Dict String (Enriching → Except PyException Value) := []
  sourcePriorities : Dict String Int := []
  defaultMergePolicy : MergeMode := .fillOnlyIfEmpty
  defaultStrictness : StrictnessPolicy := {}
  authoritativeSources : List String := ["sink_cache"]
  isFatalError : Option (DiagnosticItem → Bool) := none
  stopOnFailed : Bool := false

/-- The report of one row: `EnricherReport`. -/
structure EnricherReport where
  operationsTotal : Nat
  outcomes : Dict String Nat
  updatedFields : Nat
  deriving DecidableEq, Repr

def EnricherReport.record (r : EnricherReport) (report : OperationReport) : EnricherReport :=
  let key := report.outcome.value
  { operationsTotal := r.operationsTotal + 1
    outcomes := Dict.set r.outcomes key ((Dict.get? r.outcomes key).getD 0 + 1)
    updatedFields := r.updatedFields + (report.events.filter (·.outcome == .applied)).length }

def EnricherReport.toValue (r : EnricherReport) : Value :=
  .dict [("operations_total",.int r.operationsTotal),
    ("outcomes",.dict (r.outcomes.map fun p => (p.1,.int p.2))),
    ("updated_fields",.int r.updatedFields)]

inductive CandidateDecision
  | none
  | selected (candidate : CandidateValue)
  | ambiguous (candidates : List CandidateValue)
  deriving DecidableEq, Repr

/-- The order of `ConflictResolver`: priority first, then confidence, both descending. -/
def candidateLe (a b : CandidateValue) : Prop :=
  b.priority.getD 0 < a.priority.getD 0 ∨
    (a.priority.getD 0 = b.priority.getD 0 ∧ b.confidence.getD 0 ≤ a.confidence.getD 0)

instance : DecidableRel candidateLe := fun a b => by
  unfold candidateLe
  infer_instance

def ConflictResolver.decide : List CandidateValue → CandidateDecision
  | [] => .none
  | [c] => .selected c
  | candidates => match candidates.insertionSort candidateLe with
    | top::second::rest =>
      if top.priority = second.priority ∧ top.confidence.getD 0 = second.confidence.getD 0 then
        .ambiguous (top::second::rest)
      else .selected top
    | [top] => .selected top
    | [] => .none

def MergeEngine.shouldApply (authoritative : List String) (current : Value)
    (candidate : CandidateValue) : MergeMode → Bool
  | .recomputeAlways => true
  | .neverOverride => false
  | .overrideIfAuthoritative => authoritative.contains candidate.source
  | .overrideIfEmpty | .fillOnlyIfEmpty => current.isBlank

end NexusEtl
