import NexusEtl.JsonDumps
import NexusEtl.PendingTexts
import NexusEtl.TextLines

/-!
# The ledger of runs as JSON lines

Every run of a component appends one record to the component's ledger. The file backend
writes a JSON text and a line feed, reads the lines from the end and rewrites the file
when it prunes. What `json.loads` makes of a line and on which day a time stamp falls in
UTC are given.
-/

set_option autoImplicit false

namespace NexusEtl
open NexusEtl.Library

structure RunLedgerRowCounters where
  rowsTotal : Int := 0
  rowsPassed : Int := 0
  rowsBlocked : Int := 0
  rowsSkipped : Int := 0
  rowsWithWarnings : Int := 0
  errorsTotal : Int := 0
  warningsTotal : Int := 0
  deriving DecidableEq, Repr

structure RunLedgerRecord where
  runId : String
  pipelineRunId : String
  component : String
  startedAt : String
  finishedAt : Option String
  status : String
  rowCounters : RunLedgerRowCounters
  logPath : Option String
  reportPath : Option String
  planPath : Option String
  deriving DecidableEq, Repr

namespace RunLedgerRowCounters

def payload (c : RunLedgerRowCounters) : Fields :=
  [("rows_total",.int c.rowsTotal),("rows_passed",.int c.rowsPassed),
    ("rows_blocked",.int c.rowsBlocked),("rows_skipped",.int c.rowsSkipped),
    ("rows_with_warnings",.int c.rowsWithWarnings),("errors_total",.int c.errorsTotal),
    ("warnings_total",.int c.warningsTotal)]

end RunLedgerRowCounters

namespace RunLedgerRecord

def optionalText : Option String → Value
  | some text => .str text
  | none => .null

/-- `to_payload` -/
def payload (r : RunLedgerRecord) : Fields :=
  [("run_id",.str r.runId),("pipeline_run_id",.str r.pipelineRunId),
    ("component",.str r.component),("started_at",.str r.startedAt),
    ("finished_at",optionalText r.finishedAt),("status",.str r.status),
    ("row_counters",.dict r.rowCounters.payload),("log_path",optionalText r.logPath),
    ("report_path",optionalText r.reportPath),("plan_path",optionalText r.planPath)]

/-- What `append` writes before the line feed. -/
def line (r : RunLedgerRecord) : String := Value.dumps (.dict r.payload)

/-- `finished_at`, or `started_at` where there is none. -/
def effective (r : RunLedgerRecord) : String := r.finishedAt.getD r.startedAt

end RunLedgerRecord

namespace JsonlRunLedger

/-- The time stamp of a line: unreadable, on a day in UTC, or one that raises. -/
inductive StampDay
  | unreadable
  | day (number : Int)
  | raises (exc : PyException)
  deriving DecidableEq, Repr

/-! ## Records from payloads -/

/-- `int(value)` -/
def toInt : Value → Except PyException Int
  | .int n => .ok n
  | .bool b => .ok (if b then 1 else 0)
  | .float q => .ok (Int.tdiv q.num q.den)
  | .str s => match Text.parseInt s with
    | some n => .ok n
    | none => .error ⟨"ValueError","invalid literal for int() with base 10: " ++ Value.strRepr s⟩
  | v => .error ⟨"TypeError","int() argument must be a string, a bytes-like object or a real " ++
      "number, not '" ++ v.typeName ++ "'"⟩

def counter (counters : Fields) (name : String) : Except PyException Int :=
  match Dict.get? counters name with
  | some v => toInt v
  | none => .ok 0

def countersFromPayload (counters : Fields) : Except PyException RunLedgerRowCounters := do
  let rowsTotal ← counter counters "rows_total"
  let rowsPassed ← counter counters "rows_passed"
  let rowsBlocked ← counter counters "rows_blocked"
  let rowsSkipped ← counter counters "rows_skipped"
  let rowsWithWarnings ← counter counters "rows_with_warnings"
  let errorsTotal ← counter counters "errors_total"
  let warningsTotal ← counter counters "warnings_total"
  .ok ⟨rowsTotal,rowsPassed,rowsBlocked,rowsSkipped,rowsWithWarnings,errorsTotal,warningsTotal⟩

/-- `str(payload.get(name, ""))` -/
def textOf (payload : Fields) (name : String) : String :=
  ((Dict.get? payload name).map Value.pyStr).getD ""

/-- `payload.get(name) if isinstance(payload.get(name), str) else None` -/
def textOrNone (payload : Fields) (name : String) : Option String :=
  match Dict.get? payload name with
  | some (.str text) => some text
  | _ => none

def rowCounters (payload : Fields) : Fields :=
  match Dict.get? payload "row_counters" with
  | some (.dict counters) => counters
  | _ => []

/-- `_record_from_payload` -/
def recordFromPayload : Value → Except PyException (Option RunLedgerRecord)
  | .dict payload => do
    let counters ← countersFromPayload (rowCounters payload)
    .ok (some {
      runId := textOf payload "run_id"
      pipelineRunId := textOf payload "pipeline_run_id"
      component := textOf payload "component"
      startedAt := textOf payload "started_at"
      finishedAt := textOrNone payload "finished_at"
      status := textOf payload "status"
      rowCounters := counters
      logPath := textOrNone payload "log_path"
      reportPath := textOrNone payload "report_path"
      planPath := textOrNone payload "plan_path" })
  | _ => .ok none

theorem recordFromPayload_payload (r : RunLedgerRecord) :
    recordFromPayload (.dict r.payload) = .ok (some r) := by
  obtain ⟨runId,pipelineRunId,component,startedAt,finishedAt,status,counters,logPath,reportPath,
    planPath⟩ := r
  cases finishedAt <;> cases logPath <;> cases reportPath <;> cases planPath <;> rfl

/-! ## The file -/

section
variable (loads : String → JsonOutcome) (stampDay : String → StampDay)

/-- The text of a ledger file after an append. -/
def append (file : String) (record : RunLedgerRecord) : String := file ++ record.line ++ "\n"

def isBlank (line : String) : Bool := Text.strip line = ""

/-- The lines from the last one on, up to the first that holds a record. -/
def latestOf : List String → Except PyException (Option RunLedgerRecord)
  | [] => .ok none
  | line::lines =>
    if isBlank line then latestOf lines
    else match loads line with
      | .decodeError => latestOf lines
      | .raises exc => .error exc
      | .value document =>
        match recordFromPayload document with
        | .error exc => .error exc
        | .ok (some record) => .ok (some record)
        | .ok none => latestOf lines

/-- `latest_record` -/
def latestRecord (file : String) : Except PyException (Option RunLedgerRecord) :=
  latestOf loads (Text.splitLines file).reverse

/-- `payload.get("finished_at") or payload.get("started_at")` -/
def effectiveIso (payload : Fields) : Value :=
  if (Fields.read payload "finished_at").truthy then Fields.read payload "finished_at"
  else Fields.read payload "started_at"

/-- `_should_keep_jsonl_line` -/
def shouldKeep (cutoff : Int) (line : String) : Except PyException Bool :=
  match loads line with
  | .decodeError => .ok true
  | .raises exc => .error exc
  | .value (.dict payload) =>
    match effectiveIso payload with
    | .str text =>
      match stampDay text with
      | .unreadable => .ok true
      | .day number => .ok (cutoff ≤ number)
      | .raises exc => .error exc
    | _ => .ok true
  | .value document =>
    .error ⟨"AttributeError","'" ++ document.typeName ++ "' object has no attribute 'get'"⟩

def keptLines (cutoff : Int) (file : String) : Except PyException (List String) :=
  ((Text.splitLines file).filter fun line => !isBlank line).filterM
    (shouldKeep loads stampDay cutoff)

/-- The lines as `prune` writes them back. -/
def linesText (lines : List String) : String :=
  Text.join "\n" lines ++ if lines = [] then "" else "\n"

/-- `prune`, given the day of the cutoff -/
def prune (cutoff : Int) (file : String) : Except PyException String :=
  (keptLines loads stampDay cutoff file).map linesText

end

end JsonlRunLedger

end NexusEtl
