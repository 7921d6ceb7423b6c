import NexusEtl.Diagnostics
import NexusEtl.Value
import Mathlib.Algebra.Ring.Int.Defs
import Mathlib.Data.List.Induction

/-!
# The report of a command

A report is a fold over events. The counters of rows, of diagnostics and of stored items
agree with the events behind them. The operation counters need not be there when they are
added to: an entry that was opened by a merge has the merged fields only.
-/

set_option autoImplicit false

namespace NexusEtl
open NexusEtl.Library

inductive ReportItemStatus
  | ok | failed | skipped
  deriving DecidableEq, Repr

inductive ReportContextKey
  | config | input | runtime | reportPolicy | stats | dictionary | topology | targetRuntime
  | vaultRollout | apply | applyTarget | cacheStatus | cacheClear | cacheRefresh | mapping
  | normalize | enrich | matching | resolve
  deriving DecidableEq, Repr

inductive ReportOpKey
  | create | update | skip | plan | applyFailed | cacheRefresh | resolveExpired
  | resolveMaxAttempts | resolvePending
  deriving DecidableEq, Repr

def ReportContextKey.value : ReportContextKey → String
  | .config => "config"
  | .input => "input"
  | .runtime => "runtime"
  | .reportPolicy => "report_policy"
  | .stats => "stats"
  | .dictionary => "dictionary"
  | .topology => "topology"
  | .targetRuntime => "target_runtime"
  | .vaultRollout => "vault_rollout"
  | .apply => "apply"
  | .applyTarget => "apply_target"
  | .cacheStatus => "cache_status"
  | .cacheClear => "cache_clear"
  | .cacheRefresh => "cache_refresh"
  | .mapping => "mapping"
  | .normalize => "normalize"
  | .enrich => "enrich"
  | .matching => "match"
  | .resolve => "resolve"

def ReportOpKey.value : ReportOpKey → String
  | .create => "create"
  | .update => "update"
  | .skip => "skip"
  | .plan => "plan"
  | .applyFailed => "apply_failed"
  | .cacheRefresh => "cache_refresh"
  | .resolveExpired => "resolve_expired"
  | .resolveMaxAttempts => "resolve_max_attempts"
  | .resolvePending => "resolve_pending"

def DiagnosticStage.value : DiagnosticStage → String
  | .extract => "EXTRACT"
  | .map => "MAP"
  | .normalize => "NORMALIZE"
  | .enrich => "ENRICH"
  | .validate => "VALIDATE"
  | .matching => "MATCH"
  | .resolve => "RESOLVE"
  | .plan => "PLAN"
  | .apply => "APPLY"
  | .cache => "CACHE"
  | .sink => "SINK"
  | .topologyValidate => "TOPOLOGY_VALIDATE"
  | .topologyBootstrap => "TOPOLOGY_BOOTSTRAP"

/-- A member of an enumeration, or a text. -/
inductive EnumArg (κ : Type)
  | member (key : κ)
  | text (s : String)
  deriving DecidableEq, Repr

def normalizeKey {κ : Type} (noun : String) (value : κ → String) :
    EnumArg κ → Except PyException String
  | .member key => .ok (value key)
  | .text s =>
    if Text.strip s = "" then .error ⟨"ValueError",noun ++ " key must be non-empty"⟩
    else .ok (Text.strip s)

def normalizeContextKey : EnumArg ReportContextKey → Except PyException String :=
  normalizeKey "Context" ReportContextKey.value

def normalizeOpKey : EnumArg ReportOpKey → Except PyException String :=
  normalizeKey "Operation" ReportOpKey.value

def normalizeItemStatus (upper : String → String) :
    EnumArg ReportItemStatus → Except PyException ReportItemStatus
  | .member status => .ok status
  | .text s =>
    let value := upper (Text.strip s)
    if value = "OK" then .ok .ok
    else if value = "FAILED" then .ok .failed
    else if value = "SKIPPED" then .ok .skipped
    else .error ⟨"ValueError",(Value.str value).pyRepr ++ " is not a valid ReportItemStatus"⟩

/-- The stage of a diagnostic, as `getattr` may find it. -/
inductive StageArg
  | missing
  | stage (s : DiagnosticStage)
  | text (s : String)
  deriving DecidableEq, Repr

def StageArg.key : StageArg → String
  | .missing => "UNKNOWN"
  | .stage s => s.value
  | .text s => s

structure ReportDiagnostic where
  severity : String
  stage : StageArg
  code : String
  field : Option String
  message : String
  rule : Option String := none
  details : Option Fields := none
  deriving DecidableEq, Repr

structure ReportItem where
  status : ReportItemStatus
  rowRef : Option RowRef
  payload : Option Fields
  diagnostics : List ReportDiagnostic
  metadata : Fields
  deriving DecidableEq, Repr

structure ReportMeta where
  runId : String
  dataset : Option String
  command : String
  startedAt : String
  finishedAt : Option String := none
  durationMs : Option Int := none
  itemsLimit : Option Int := none
  itemsTruncated : Bool := false
  appVersion : Option String := none
  gitRev : Option String := none
  deriving DecidableEq, Repr

structure StageCounters where
  errorsTotal : Int
  warningsTotal : Int
  deriving DecidableEq, Repr

def StageCounters.addError (entry : StageCounters) : StageCounters :=
  { entry with errorsTotal := entry.errorsTotal + 1 }

def StageCounters.addWarning (entry : StageCounters) : StageCounters :=
  { entry with warningsTotal := entry.warningsTotal + 1 }

structure ReportSummary where
  rowsTotal : Int := 0
  rowsPassed : Int := 0
  rowsBlocked : Int := 0
  rowsSkipped : Int := 0
  rowsWithWarnings : Int := 0
  errorsTotal : Int := 0
  warningsTotal : Int := 0
  byStage : Dict String StageCounters := []
  ops : Dict String (Dict String Int) := []
  deriving DecidableEq, Repr

structure AddItemEvent where
  status : EnumArg ReportItemStatus
  rowRef : Option RowRef := none
  payload : Option Fields := none
  errors : List ReportDiagnostic := []
  warnings : List ReportDiagnostic := []
  metadata : Fields := []
  store : Bool := true
  preaggregated : Bool := false
  deriving DecidableEq, Repr

inductive ReportEvent
  | setMeta (dataset : Option String) (itemsLimit : Option Int) (appVersion gitRev : Option String)
  | setContext (name : EnumArg ReportContextKey) (value : Fields)
  | addOp (name : EnumArg ReportOpKey) (ok failed count : Int)
  | mergeOpFields (name : EnumArg ReportOpKey) (values : Dict String Int)
  | setRowCounters (rowsTotal rowsPassed rowsBlocked rowsWithWarnings rowsSkipped : Int)
  | addItem (item : AddItemEvent)
  | setItemsTruncated (value : Bool)
  | ensureErrorsTotalAtLeast (value : Int)
  | setStatus (status : Option String)
  | finish (finishedAt : Option String) (durationMs : Option Int)
  | activityMetric (name : String) (payload : Fields)
  deriving DecidableEq, Repr

structure InMemoryReportContext where
  metadata : ReportMeta
  summary : ReportSummary := {}
  items : List ReportItem := []
  context : Dict String Fields := []
  status : Option String := none
  deriving DecidableEq, Repr

namespace InMemoryReportContext

def deriveStatus (summary : ReportSummary) : String :=
  if summary.rowsBlocked = 0 then "SUCCESS"
  else if 0 < summary.rowsPassed then "PARTIAL"
  else "FAILED"

/-- `entry[key] += n` for each pair in turn. -/
def increment : Dict String Int → List (String × Int) → Dict String Int × Option PyException
  | entry, [] => (entry,none)
  | entry, (key,n)::rest =>
    match Dict.get? entry key with
    | none => (entry,some ⟨"KeyError",(Value.str key).pyRepr⟩)
    | some old => increment (Dict.set entry key (old + n)) rest

/-- `_count_stage`, where the bump adds one to a field of the entry. -/
def countStage (bump : StageCounters → StageCounters) (byStage : Dict String StageCounters)
    (d : ReportDiagnostic) : Dict String StageCounters :=
  Dict.set byStage d.stage.key (bump ((Dict.get? byStage d.stage.key).getD ⟨0,0⟩))

def countDiagnostics (summary : ReportSummary) (errors warnings : List ReportDiagnostic) :
    ReportSummary :=
  { summary with
    errorsTotal := summary.errorsTotal + errors.length
    warningsTotal := summary.warningsTotal + warnings.length
    byStage := warnings.foldl (countStage StageCounters.addWarning)
      (errors.foldl (countStage StageCounters.addError) summary.byStage) }

/-- The row counters of an item that is not preaggregated. -/
def countRow (summary : ReportSummary) (status : ReportItemStatus)
    (warnings : List ReportDiagnostic) : ReportSummary :=
  { summary with
    rowsTotal := summary.rowsTotal + 1
    rowsBlocked := summary.rowsBlocked + if status = .failed then 1 else 0
    rowsPassed := summary.rowsPassed + if status = .ok then 1 else 0
    rowsSkipped := summary.rowsSkipped + if status = .skipped then 1 else 0
    rowsWithWarnings := summary.rowsWithWarnings + if warnings ≠ [] then 1 else 0 }

def shouldStoreItem (c : InMemoryReportContext) : Bool :=
  match c.metadata.itemsLimit with
  | none => true
  | some limit => decide ((c.items.length : Int) < limit)

def storeItem (c : InMemoryReportContext) (status : ReportItemStatus) (event : AddItemEvent) :
    InMemoryReportContext :=
  if event.store && c.shouldStoreItem then
    { c with items := c.items ++ [{ status := status, rowRef := event.rowRef
                                    payload := event.payload
                                    diagnostics := event.errors ++ event.warnings
                                    metadata := event.metadata }] }
  else if event.store then { c with metadata := { c.metadata with itemsTruncated := true } }
  else c

/-- `_apply_add_item`, once the status is known. -/
def applyItem (c : InMemoryReportContext) (status : ReportItemStatus) (event : AddItemEvent) :
    InMemoryReportContext :=
  let summary := if event.preaggregated then c.summary
    else countRow c.summary status event.warnings
  { c with summary := countDiagnostics summary event.errors event.warnings }.storeItem status event

def addOp (summary : ReportSummary) (key : String) (ok failed count : Int) :
    ReportSummary × Option PyException :=
  let entry := (Dict.get? summary.ops key).getD [("ok",0),("failed",0),("count",0)]
  let counted := increment entry [("ok",ok),("failed",failed),("count",count)]
  ({ summary with ops := Dict.set summary.ops key counted.1 },counted.2)

def mergeOpFields (summary : ReportSummary) (key : String) (values : Dict String Int) :
    ReportSummary :=
  { summary with
    ops := Dict.set summary.ops key (Dict.update ((Dict.get? summary.ops key).getD []) values) }

/-- `append`, where the clock reads `now`: the context after the event, and what it raised. -/
def append (upper : String → String) (now : String) (c : InMemoryReportContext) :
    ReportEvent → InMemoryReportContext × Option PyException
  | .setMeta dataset itemsLimit appVersion gitRev =>
    ({ c with metadata := { c.metadata with
        dataset := dataset.or c.metadata.dataset
        itemsLimit := itemsLimit.or c.metadata.itemsLimit
        appVersion := appVersion.or c.metadata.appVersion
        gitRev := gitRev.or c.metadata.gitRev } },none)
  | .setContext name value =>
    match normalizeContextKey name with
    | .error exc => (c,some exc)
    | .ok key => ({ c with context := Dict.set c.context key value },none)
  | .addOp name ok failed count =>
    match normalizeOpKey name with
    | .error exc => (c,some exc)
    | .ok key =>
      let counted := addOp c.summary key ok failed count
      ({ c with summary := counted.1 },counted.2)
  | .mergeOpFields name values =>
    match normalizeOpKey name with
    | .error exc => (c,some exc)
    | .ok key => ({ c with summary := mergeOpFields c.summary key values },none)
  | .setRowCounters total passed blocked withWarnings skipped =>
    ({ c with summary := { c.summary with
        rowsTotal := total, rowsPassed := passed, rowsBlocked := blocked
        rowsWithWarnings := withWarnings, rowsSkipped := skipped } },none)
  | .addItem item =>
    match normalizeItemStatus upper item.status with
    | .error exc => (c,some exc)
    | .ok status => (c.applyItem status item,none)
  | .setItemsTruncated value =>
    ({ c with metadata := { c.metadata with itemsTruncated := value } },none)
  | .ensureErrorsTotalAtLeast value =>
    ({ c with summary := { c.summary with
        errorsTotal := if c.summary.errorsTotal < value then value
          else c.summary.errorsTotal } },none)
  | .setStatus status => ({ c with status := status },none)
  | .finish finishedAt durationMs =>
    ({ c with
        metadata := { c.metadata with
          finishedAt := some (((finishedAt.filter (· ≠ "")).getD now))
          durationMs := durationMs }
        status := some (c.status.getD (deriveStatus c.summary)) },none)
  | .activityMetric name payload =>
    let stats := ReportContextKey.stats.value
    let activity := Dict.set ((Dict.get? c.context stats).getD []) name (.dict payload)
    ({ c with context := Dict.set c.context stats activity },none)

def new (runId command startedAt : String) : InMemoryReportContext :=
  { metadata := { runId := runId, dataset := none, command := command, startedAt := startedAt } }

end InMemoryReportContext

/-! ## Runs of events -/

/-- An event, with what the clock reads when it is appended. -/
structure Reported where
  now : String
  event : ReportEvent
  deriving DecidableEq, Repr

def ReportEvent.item? : ReportEvent → Option AddItemEvent
  | .addItem item => some item
  | _ => none

def ReportEvent.limit? : ReportEvent → Option Int
  | .setMeta _ itemsLimit _ _ => itemsLimit
  | _ => none

def ReportEvent.setsRows : ReportEvent → Bool
  | .setRowCounters .. => true
  | _ => false

def ReportEvent.ensuresErrors : ReportEvent → Bool
  | .ensureErrorsTotalAtLeast _ => true
  | _ => false

def ReportEvent.setsTruncated : ReportEvent → Bool
  | .setItemsTruncated _ => true
  | _ => false

def itemsOf (es : List Reported) : List AddItemEvent := es.filterMap fun r => r.event.item?

def errorsOf (items : List AddItemEvent) : Int := (items.map fun i => (i.errors.length : Int)).sum

def warningsOf (items : List AddItemEvent) : Int :=
  (items.map fun i => (i.warnings.length : Int)).sum

/-- The sum of a counter over the stages. -/
def stageSum (counter : StageCounters → Int) (byStage : Dict String StageCounters) : Int :=
  (byStage.map fun kv => counter kv.2).sum

namespace InMemoryReportContext

variable (upper : String → String)

def after (c : InMemoryReportContext) (es : List Reported) : InMemoryReportContext :=
  es.foldl (fun c r => (c.append upper r.now r.event).1) c

theorem after_append (c : InMemoryReportContext) (es es' : List Reported) :
    c.after upper (es ++ es') = (c.after upper es).after upper es' := List.foldl_append

theorem after_concat (c : InMemoryReportContext) (es : List Reported) (r : Reported) :
    c.after upper (es ++ [r]) = ((c.after upper es).append upper r.now r.event).1 := by
  rw [after_append]
  rfl

end InMemoryReportContext

/-! ## Counters -/

theorem stageSum_set (counter : StageCounters → Int) (byStage : Dict String StageCounters)
    (key : String) (v : StageCounters) :
    stageSum counter (Dict.set byStage key v) =
      stageSum counter byStage + counter v - ((Dict.get? byStage key).map counter).getD 0 := by
  induction byStage with
  | nil => simp [stageSum, Dict.set]
  | cons kv byStage ih =>
    obtain ⟨k,w⟩ := kv
    simp only [stageSum] at ih ⊢
    by_cases h : k = key
    · simp only [Dict.set, Dict.get?, h, if_true, List.map_cons, List.sum_cons, Option.map_some,
        Option.getD_some]
      omega
    · simp only [Dict.set, Dict.get?, h, if_false, List.map_cons, List.sum_cons, ih]
      omega

namespace InMemoryReportContext

theorem foldl_countStage_sum {counter : StageCounters → Int} {bump : StageCounters → StageCounters}
    (n : Int) (hbump : ∀ entry, counter (bump entry) = counter entry + n)
    (hzero : counter ⟨0,0⟩ = 0) (byStage : Dict String StageCounters) (ds : List ReportDiagnostic) :
    stageSum counter (ds.foldl (countStage bump) byStage) =
      stageSum counter byStage + n * ds.length := by
  induction ds generalizing byStage with
  | nil => simp
  | cons d ds ih =>
    have hone : stageSum counter (countStage bump byStage d) = stageSum counter byStage + n := by
      rw [countStage, stageSum_set, hbump]
      cases Dict.get? byStage d.stage.key with
      | none =>
        simp only [Option.getD_none, Option.map_none, hzero]
        omega
      | some entry =>
        simp only [Option.getD_some, Option.map_some]
        omega
    rw [List.foldl_cons, ih, hone, List.length_cons, Int.natCast_succ, Int.mul_add]
    omega

theorem countDiagnostics_sums (summary : ReportSummary) (errors warnings : List ReportDiagnostic) :
    stageSum StageCounters.errorsTotal (countDiagnostics summary errors warnings).byStage =
        stageSum StageCounters.errorsTotal summary.byStage + errors.length ∧
      stageSum StageCounters.warningsTotal (countDiagnostics summary errors warnings).byStage =
        stageSum StageCounters.warningsTotal summary.byStage + warnings.length := by
  have hkeepErrors : ∀ entry : StageCounters,
      entry.addWarning.errorsTotal = entry.errorsTotal + 0 := fun entry => (Int.add_zero _).symm
  have hkeepWarnings : ∀ entry : StageCounters,
      entry.addError.warningsTotal = entry.warningsTotal + 0 := fun entry => (Int.add_zero _).symm
  have haddErrors : ∀ entry : StageCounters,
      entry.addError.errorsTotal = entry.errorsTotal + 1 := fun entry => rfl
  have haddWarnings : ∀ entry : StageCounters,
      entry.addWarning.warningsTotal = entry.warningsTotal + 1 := fun entry => rfl
  dsimp only [countDiagnostics]
  constructor
  · rw [foldl_countStage_sum 0 hkeepErrors rfl, foldl_countStage_sum 1 haddErrors rfl]
    omega
  · rw [foldl_countStage_sum 1 haddWarnings rfl, foldl_countStage_sum 0 hkeepWarnings rfl]
    omega

/-- The counters agree with the events. -/
structure Tallied (es : List Reported) (c : InMemoryReportContext) : Prop where
  rows : (∀ r ∈ es, r.event.setsRows = false) →
    c.summary.rowsTotal = c.summary.rowsPassed + c.summary.rowsBlocked + c.summary.rowsSkipped ∧
      c.summary.rowsTotal = (itemsOf es).countP fun i => !i.preaggregated
  errors : (∀ r ∈ es, r.event.ensuresErrors = false) →
    c.summary.errorsTotal = errorsOf (itemsOf es)
  warnings : c.summary.warningsTotal = warningsOf (itemsOf es)
  stageErrors : stageSum StageCounters.errorsTotal c.summary.byStage = errorsOf (itemsOf es)
  stageWarnings : stageSum StageCounters.warningsTotal c.summary.byStage = warningsOf (itemsOf es)
  stored : c.items.length ≤ (itemsOf es).countP AddItemEvent.store
  truncated : (∀ r ∈ es, r.event.setsTruncated = false) →
    (c.metadata.itemsTruncated = true ↔
      c.items.length < (itemsOf es).countP AddItemEvent.store)

theorem tallied_new (runId command startedAt : String) :
    Tallied [] (new runId command startedAt) where
  rows _ := ⟨rfl,rfl⟩
  errors _ := rfl
  warnings := rfl
  stageErrors := rfl
  stageWarnings := rfl
  stored := Nat.le_refl 0
  truncated _ := by simp [new, itemsOf]

theorem itemsOf_concat (es : List Reported) (r : Reported) :
    itemsOf (es ++ [r]) = itemsOf es ++ r.event.item?.toList := by
  rw [itemsOf, List.filterMap_append]
  cases h : r.event.item? <;> simp [itemsOf, h]

/-- An event that adds no item leaves the counters of items alone. -/
theorem append_frame (upper : String → String) (now : String) (c : InMemoryReportContext)
    {e : ReportEvent} (h : e.item? = none) :
    (c.append upper now e).1.items = c.items ∧
      (c.append upper now e).1.summary.byStage = c.summary.byStage ∧
      (c.append upper now e).1.summary.warningsTotal = c.summary.warningsTotal ∧
      (e.ensuresErrors = false →
        (c.append upper now e).1.summary.errorsTotal = c.summary.errorsTotal) ∧
      (e.setsTruncated = false →
        (c.append upper now e).1.metadata.itemsTruncated = c.metadata.itemsTruncated) ∧
      (e.setsRows = false →
        (c.append upper now e).1.summary.rowsTotal = c.summary.rowsTotal ∧
          (c.append upper now e).1.summary.rowsPassed = c.summary.rowsPassed ∧
          (c.append upper now e).1.summary.rowsBlocked = c.summary.rowsBlocked ∧
          (c.append upper now e).1.summary.rowsSkipped = c.summary.rowsSkipped) := by
  cases e with
  | addItem item => cases h
  | setContext name value =>
    simp only [append]
    split <;> simp
  | addOp name ok failed count =>
    simp only [append]
    split <;> simp [addOp]
  | mergeOpFields name values =>
    simp only [append]
    split <;> simp [mergeOpFields]
  | setRowCounters => simp [append, ReportEvent.setsRows]
  | ensureErrorsTotalAtLeast => simp [append, ReportEvent.ensuresErrors]
  | setItemsTruncated => simp [append, ReportEvent.setsTruncated]
  | _ => simp [append]

theorem Tallied.frame {es : List Reported} {c : InMemoryReportContext} (h : Tallied es c)
    (upper : String → String) {r : Reported} (hitem : r.event.item? = none) :
    Tallied (es ++ [r]) (c.append upper r.now r.event).1 := by
  obtain ⟨hitems,hstage,hwarnings,herrors,htruncated,hrows⟩ := append_frame upper r.now c hitem
  have hsame : itemsOf (es ++ [r]) = itemsOf es := by simp [itemsOf_concat, hitem]
  constructor
  · intro hall
    obtain ⟨htotal,hpassed,hblocked,hskipped⟩ := hrows (hall r (by simp))
    rw [hsame, htotal, hpassed, hblocked, hskipped]
    exact h.rows fun r' hr' => hall r' (List.mem_append_left _ hr')
  · intro hall
    rw [hsame, herrors (hall r (by simp))]
    exact h.errors fun r' hr' => hall r' (List.mem_append_left _ hr')
  · rw [hsame, hwarnings, h.warnings]
  · rw [hsame, hstage, h.stageErrors]
  · rw [hsame, hstage, h.stageWarnings]
  · rw [hsame, hitems]
    exact h.stored
  · intro hall
    rw [hsame, hitems, htruncated (hall r (by simp))]
    exact h.truncated fun r' hr' => hall r' (List.mem_append_left _ hr')

/-- What an item does to the list of items and to the flag. -/
theorem storeItem_cases (c : InMemoryReportContext) (status : ReportItemStatus)
    (event : AddItemEvent) :
    (c.storeItem status event).summary = c.summary ∧
      ((event.store = false ∧ (c.storeItem status event).items = c.items ∧
          (c.storeItem status event).metadata = c.metadata) ∨
        (event.store = true ∧ c.shouldStoreItem = true ∧
          (c.storeItem status event).items.length = c.items.length + 1 ∧
          (c.storeItem status event).metadata = c.metadata) ∨
        (event.store = true ∧ c.shouldStoreItem = false ∧
          (c.storeItem status event).items = c.items ∧
          (c.storeItem status event).metadata = { c.metadata with itemsTruncated := true })) := by
  unfold storeItem
  cases event.store <;> cases c.shouldStoreItem <;> simp

theorem applyItem_cases (c : InMemoryReportContext) (status : ReportItemStatus)
    (event : AddItemEvent) :
    (c.applyItem status event).summary = countDiagnostics (if event.preaggregated then c.summary
        else countRow c.summary status event.warnings) event.errors event.warnings ∧
      ((event.store = false ∧ (c.applyItem status event).items = c.items ∧
          (c.applyItem status event).metadata = c.metadata) ∨
        (event.store = true ∧ c.shouldStoreItem = true ∧
          (c.applyItem status event).items.length = c.items.length + 1 ∧
          (c.applyItem status event).metadata = c.metadata) ∨
        (event.store = true ∧ c.shouldStoreItem = false ∧
          (c.applyItem status event).items = c.items ∧
          (c.applyItem status event).metadata = { c.metadata with itemsTruncated := true })) :=
  storeItem_cases { c with summary := countDiagnostics (if event.preaggregated then c.summary
    else countRow c.summary status event.warnings) event.errors event.warnings } status event

theorem Tallied.item {es : List Reported} {c : InMemoryReportContext} (h : Tallied es c)
    {r : Reported} {event : AddItemEvent} (hitem : r.event = .addItem event)
    (status : ReportItemStatus) : Tallied (es ++ [r]) (c.applyItem status event) := by
  obtain ⟨hsummary,hstore⟩ := c.applyItem_cases status event
  have hone : itemsOf (es ++ [r]) = itemsOf es ++ [event] := by
    simp [itemsOf_concat, hitem, ReportEvent.item?]
  have hsums := countDiagnostics_sums (if event.preaggregated then c.summary
    else countRow c.summary status event.warnings) event.errors event.warnings
  have hstage : (if event.preaggregated then c.summary
      else countRow c.summary status event.warnings).byStage = c.summary.byStage := by
    split <;> rfl
  rw [hstage] at hsums
  constructor
  · intro hall
    obtain ⟨hparts,hcount⟩ := h.rows fun r' hr' => hall r' (List.mem_append_left _ hr')
    rw [hsummary, hone, List.countP_append]
    cases hpre : event.preaggregated with
    | true => exact ⟨hparts,by simpa [hpre, countDiagnostics] using hcount⟩
    | false =>
      simp only [Bool.false_eq_true, if_false, countDiagnostics, countRow]
      refine ⟨?_,by simp [hpre, hcount]⟩
      cases status <;> simp <;> omega
  · intro hall
    have herrors := h.errors fun r' hr' => hall r' (List.mem_append_left _ hr')
    rw [hsummary, hone]
    cases event.preaggregated <;> simp [countDiagnostics, countRow, errorsOf, herrors]
  · rw [hsummary, hone]
    cases event.preaggregated <;> simp [countDiagnostics, countRow, warningsOf, h.warnings]
  · rw [hsummary, hone, hsums.1, h.stageErrors]
    simp [errorsOf]
  · rw [hsummary, hone, hsums.2, h.stageWarnings]
    simp [warningsOf]
  · have hold := h.stored
    rw [hone, List.countP_append]
    rcases hstore with ⟨hs,hitems,-⟩ | ⟨hs,-,hitems,-⟩ | ⟨hs,-,hitems,-⟩
    · simpa [hs, hitems] using hold
    · simp [hs, hitems, hold]
    · rw [hitems]
      omega
  · intro hall
    have hold := h.stored
    have htruncated := h.truncated fun r' hr' => hall r' (List.mem_append_left _ hr')
    rw [hone, List.countP_append]
    rcases hstore with ⟨hs,hitems,hmeta⟩ | ⟨hs,-,hitems,hmeta⟩ | ⟨hs,-,hitems,hmeta⟩
    · simpa [hs, hitems, hmeta] using htruncated
    · simpa [hs, hitems, hmeta] using htruncated
    · simp only [hitems, hmeta, List.countP_singleton, hs, if_true, true_iff]
      omega

/-- Events whose statuses are known keep the counters in step. -/
theorem tallied_after (upper : String → String) (runId command startedAt : String)
    {es : List Reported} (h : ∀ item ∈ itemsOf es, ∃ status,
      normalizeItemStatus upper item.status = .ok status) :
    Tallied es ((new runId command startedAt).after upper es) := by
  induction es using List.reverseRecOn with
  | nil => exact tallied_new runId command startedAt
  | append_singleton es r ih =>
    rw [itemsOf_concat] at h
    have hes := ih fun item hitem => h item (List.mem_append_left _ hitem)
    rw [after_concat]
    cases hitem : r.event.item? with
    | none => exact hes.frame upper hitem
    | some item =>
      have hevent : r.event = .addItem item := by
        unfold ReportEvent.item? at hitem
        split at hitem
        · rename_i heq
          rw [heq, Option.some.inj hitem]
        · cases hitem
      obtain ⟨status,hstatus⟩ := h item (by simp [hitem])
      rw [hevent]
      simp only [append, hstatus]
      exact hes.item hevent status

/-! ## The limit of the stored items -/

/-- The limit that a sequence of events leaves. -/
def limitOf (es : List Reported) : Option Int :=
  es.foldl (fun limit r => r.event.limit?.or limit) none

/-- The limit is set before the first item, and not again. -/
def FixedLimit (es : List Reported) (limit : Int) : Prop :=
  ∃ before later, es = before ++ later ∧ itemsOf before = [] ∧ limitOf before = some limit ∧
    ∀ r ∈ later, r.event.limit? = none

theorem append_limit (upper : String → String) (now : String) (c : InMemoryReportContext)
    (e : ReportEvent) :
    (c.append upper now e).1.metadata.itemsLimit = e.limit?.or c.metadata.itemsLimit := by
  cases e with
  | setMeta => rfl
  | addItem item =>
    simp only [append]
    split
    · rfl
    · rename_i status _
      obtain ⟨-,⟨-,-,hmeta⟩ | ⟨-,-,-,hmeta⟩ | ⟨-,-,-,hmeta⟩⟩ := c.applyItem_cases status item <;>
        simp [hmeta, ReportEvent.limit?]
  | setContext name value =>
    simp only [append]
    split <;> rfl
  | addOp name ok failed count =>
    simp only [append]
    split <;> rfl
  | mergeOpFields name values =>
    simp only [append]
    split <;> rfl
  | _ => rfl

theorem after_limit (upper : String → String) (c : InMemoryReportContext) (es : List Reported) :
    (c.after upper es).metadata.itemsLimit =
      es.foldl (fun limit r => r.event.limit?.or limit) c.metadata.itemsLimit := by
  induction es generalizing c with
  | nil => rfl
  | cons r es ih =>
    rw [List.foldl_cons, ← append_limit upper r.now c r.event]
    exact ih _

/-- Under a limit one event stores at most up to it. -/
theorem append_within {upper : String → String} {c : InMemoryReportContext} {limit : Int}
    (hlimit : c.metadata.itemsLimit = some limit) (hitems : c.items.length ≤ limit.toNat)
    (now : String) (e : ReportEvent) :
    (c.append upper now e).1.items.length ≤ limit.toNat := by
  cases hitem : e.item? with
  | none => rwa [(append_frame upper now c hitem).1]
  | some item =>
    unfold ReportEvent.item? at hitem
    split at hitem
    · simp only [append]
      split
      · exact hitems
      · rename_i event _ status _
        obtain ⟨-,⟨-,hsame,-⟩ | ⟨-,hstore,hlength,-⟩ | ⟨-,-,hsame,-⟩⟩ :=
          c.applyItem_cases status event
        · rwa [hsame]
        · rw [shouldStoreItem, hlimit] at hstore
          have hlt : (c.items.length : Int) < limit := of_decide_eq_true hstore
          dsimp only
          omega
        · rwa [hsame]
    · cases hitem

theorem after_within {upper : String → String} {c : InMemoryReportContext} {limit : Int}
    {es : List Reported} (hlimit : c.metadata.itemsLimit = some limit)
    (hitems : c.items.length ≤ limit.toNat) (hes : ∀ r ∈ es, r.event.limit? = none) :
    (c.after upper es).items.length ≤ limit.toNat := by
  induction es generalizing c with
  | nil => exact hitems
  | cons r es ih =>
    refine ih ?_ (append_within hlimit hitems r.now r.event)
      fun r' hr' => hes r' (List.mem_cons_of_mem r hr')
    rw [append_limit, hes r List.mem_cons_self, hlimit]
    rfl

theorem after_items {upper : String → String} {c : InMemoryReportContext} {es : List Reported}
    (h : itemsOf es = []) : (c.after upper es).items = c.items := by
  induction es generalizing c with
  | nil => rfl
  | cons r es ih =>
    obtain ⟨hr,hes⟩ := List.filterMap_eq_nil_iff.mp h |> List.forall_mem_cons.mp
    exact (ih (List.filterMap_eq_nil_iff.mpr hes)).trans (append_frame upper r.now c hr).1

theorem fixedLimit_within (upper : String → String) (runId command startedAt : String)
    {es : List Reported} {limit : Int} (h : FixedLimit es limit) :
    ((new runId command startedAt).after upper es).items.length ≤ limit.toNat := by
  obtain ⟨before,later,rfl,hitems,hlimit,hlater⟩ := h
  rw [after_append]
  refine after_within ?_ ?_ hlater
  · rw [after_limit]
    exact hlimit
  · rw [after_items hitems]
    exact Nat.zero_le _

/-! ## The counters of operations -/

def counterNames : List String := ["ok", "failed", "count"]

/-- The event opens or changes the entry of an operation. -/
def NamesOp (key : String) : ReportEvent → Prop
  | .addOp name _ _ _ => normalizeOpKey name = .ok key
  | .mergeOpFields name _ => normalizeOpKey name = .ok key
  | _ => False

/-- The event leaves a field in the entry of an operation. -/
def GivesOp (key field : String) : ReportEvent → Prop
  | .addOp name _ _ _ => normalizeOpKey name = .ok key ∧ field ∈ counterNames
  | .mergeOpFields name values => normalizeOpKey name = .ok key ∧ field ∈ Dict.keys values
  | _ => False

/-- The entries of the operations are those that the events gave. -/
structure OpsHeld (es : List Reported) (ops : Dict String (Dict String Int)) : Prop where
  names : ∀ key, (Dict.get? ops key).isSome = true ↔ ∃ r ∈ es, NamesOp key r.event
  gives : ∀ key field, ((Dict.get? ops key).bind (Dict.get? · field)).isSome = true ↔
    ∃ r ∈ es, GivesOp key field r.event

theorem increment_keys (entry : Dict String Int) (counts : List (String × Int)) (field : String) :
    (Dict.get? (increment entry counts).1 field).isSome = (Dict.get? entry field).isSome := by
  induction counts generalizing entry with
  | nil => rfl
  | cons kv counts ih =>
    obtain ⟨key,n⟩ := kv
    unfold increment
    split
    · rfl
    · rename_i old hold
      rw [ih, Dict.get?_set]
      by_cases h : key = field
      · simp [← h, hold]
      · simp [h]

/-- Adding to the counters raises when one of them is missing. -/
theorem increment_quiet_iff (entry : Dict String Int) (counts : List (String × Int)) :
    (increment entry counts).2 = none ↔
      ∀ field ∈ counts.map Prod.fst, (Dict.get? entry field).isSome = true := by
  induction counts generalizing entry with
  | nil => simp [increment]
  | cons kv counts ih =>
    obtain ⟨key,n⟩ := kv
    unfold increment
    split
    · rename_i hnone
      simp [hnone]
    · rename_i old hold
      have hset : ∀ field, (Dict.get? (Dict.set entry key (old + n)) field).isSome =
          (Dict.get? entry field).isSome := by
        intro field
        rw [Dict.get?_set]
        by_cases h : key = field
        · simp [← h, hold]
        · simp [h]
      simp only [ih, hset, List.map_cons, List.forall_mem_cons, hold, Option.isSome_some, true_and]

theorem get?_update_isSome (entry values : Dict String Int) (field : String) :
    (Dict.get? (Dict.update entry values) field).isSome = true ↔
      (Dict.get? entry field).isSome = true ∨ field ∈ Dict.keys values := by
  induction values generalizing entry with
  | nil => simp [Dict.update, Dict.keys]
  | cons kv values ih =>
    have hstep : Dict.update entry (kv::values) = Dict.update (Dict.set entry kv.1 kv.2) values :=
      rfl
    have hkeys : Dict.keys (kv::values) = kv.1::Dict.keys values := rfl
    rw [hstep, hkeys, ih, Dict.get?_set, List.mem_cons]
    by_cases h : kv.1 = field
    · simp [h]
    · simp [h, Ne.symm h]

theorem addOp_quiet_iff (summary : ReportSummary) (key : String) (ok failed count : Int) :
    (addOp summary key ok failed count).2 = none ↔ Dict.get? summary.ops key = none ∨
      ∀ field ∈ counterNames,
        ((Dict.get? summary.ops key).bind (Dict.get? · field)).isSome = true := by
  unfold addOp
  dsimp only
  rw [increment_quiet_iff]
  cases Dict.get? summary.ops key with
  | none => simp [Dict.get?]
  | some entry => simp [counterNames]

/-- The entry of an operation after an addition that went through. -/
theorem addOp_gives {summary : ReportSummary} {key : String} {ok failed count : Int}
    (h : (addOp summary key ok failed count).2 = none) (key' field : String) :
    ((Dict.get? (addOp summary key ok failed count).1.ops key').bind
        (Dict.get? · field)).isSome = true ↔
      ((Dict.get? summary.ops key').bind (Dict.get? · field)).isSome = true ∨
        key = key' ∧ field ∈ counterNames := by
  have hquiet := (addOp_quiet_iff summary key ok failed count).mp h
  unfold addOp
  dsimp only
  rw [Dict.get?_set]
  by_cases hkey : key = key'
  · subst hkey
    rw [if_pos rfl, Option.bind_some, increment_keys]
    cases hget : Dict.get? summary.ops key with
    | none =>
      have hdefault : (Dict.get? [("ok",(0 : Int)),("failed",0),("count",0)] field).isSome = true ↔
          field ∈ counterNames := by
        rw [← Dict.mem_keys_iff]
        rfl
      simp [hdefault]
    | some entry =>
      rw [hget] at hquiet
      simp only [Option.getD_some, Option.bind_some, true_and]
      refine ⟨Or.inl,fun hor => hor.elim id fun hfield => ?_⟩
      exact (hquiet.resolve_left (by simp)) field hfield
  · simp [hkey]

theorem mergeOpFields_gives (summary : ReportSummary) (key : String) (values : Dict String Int)
    (key' field : String) :
    ((Dict.get? (mergeOpFields summary key values).ops key').bind
        (Dict.get? · field)).isSome = true ↔
      ((Dict.get? summary.ops key').bind (Dict.get? · field)).isSome = true ∨
        key = key' ∧ field ∈ Dict.keys values := by
  unfold mergeOpFields
  dsimp only
  rw [Dict.get?_set]
  by_cases hkey : key = key'
  · subst hkey
    rw [if_pos rfl, Option.bind_some, get?_update_isSome]
    cases Dict.get? summary.ops key <;> simp
  · simp [hkey]

theorem append_ops (upper : String → String) (now : String) (c : InMemoryReportContext)
    {e : ReportEvent} (h : ∀ key, ¬NamesOp key e) :
    (c.append upper now e).1.summary.ops = c.summary.ops := by
  cases e with
  | addItem item =>
    simp only [append]
    split
    · rfl
    · rename_i status _
      rw [(c.applyItem_cases status item).1]
      cases item.preaggregated <;> rfl
  | setContext name value =>
    simp only [append]
    split <;> rfl
  | addOp name ok failed count =>
    simp only [append]
    split
    · rfl
    · rename_i key hkey
      exact absurd hkey (h key)
  | mergeOpFields name values =>
    simp only [append]
    split
    · rfl
    · rename_i key hkey
      exact absurd hkey (h key)
  | _ => rfl

theorem OpsHeld.concat {es : List Reported} {r : Reported}
    {ops ops' : Dict String (Dict String Int)} (h : OpsHeld es ops)
    (hnames : ∀ key, (Dict.get? ops' key).isSome = true ↔
      (Dict.get? ops key).isSome = true ∨ NamesOp key r.event)
    (hgives : ∀ key field, ((Dict.get? ops' key).bind (Dict.get? · field)).isSome = true ↔
      ((Dict.get? ops key).bind (Dict.get? · field)).isSome = true ∨ GivesOp key field r.event) :
    OpsHeld (es ++ [r]) ops' where
  names key := by simp [hnames, h.names, or_and_right, exists_or]
  gives key field := by simp [hgives, h.gives, or_and_right, exists_or]

/-- An event that raises nothing keeps the entries in step. -/
theorem OpsHeld.append {es : List Reported} {upper : String → String} {c : InMemoryReportContext}
    (h : OpsHeld es c.summary.ops) {r : Reported}
    (hquiet : (c.append upper r.now r.event).2 = none) :
    OpsHeld (es ++ [r]) (c.append upper r.now r.event).1.summary.ops := by
  by_cases hnames : ∀ key, ¬NamesOp key r.event
  · have hgives : ∀ key field, ¬GivesOp key field r.event := by
      intro key field hg
      cases he : r.event <;> rw [he] at hg hnames <;> first
        | exact hg
        | exact hnames key hg.1
    rw [append_ops upper r.now c hnames]
    exact h.concat (fun key => (or_iff_left (hnames key)).symm)
      fun key field => (or_iff_left (hgives key field)).symm
  · obtain ⟨key,hkey⟩ := not_forall_not.mp hnames
    cases he : r.event with
    | addOp name ok failed count =>
      rw [he] at hkey hquiet
      have hok : normalizeOpKey name = .ok key := hkey
      simp only [InMemoryReportContext.append, hok] at hquiet ⊢
      refine h.concat (fun key' => ?_) fun key' field => ?_
      · simp only [he, NamesOp, hok, addOp, Dict.get?_set, Except.ok.injEq]
        by_cases hk : key = key' <;> simp [hk]
      · rw [addOp_gives hquiet, he]
        simp only [GivesOp, hok, Except.ok.injEq]
    | mergeOpFields name values =>
      rw [he] at hkey
      have hok : normalizeOpKey name = .ok key := hkey
      simp only [InMemoryReportContext.append, hok]
      refine h.concat (fun key' => ?_) fun key' field => ?_
      · simp only [he, NamesOp, hok, mergeOpFields, Dict.get?_set, Except.ok.injEq]
        by_cases hk : key = key' <;> simp [hk]
      · rw [mergeOpFields_gives, he]
        simp only [GivesOp, hok, Except.ok.injEq]
    | _ =>
      rw [he] at hkey
      exact absurd hkey id

/-! ## Runs that raise nothing -/

/-- The names and the status of an event are among those that the report takes. -/
def Named (upper : String → String) : ReportEvent → Prop
  | .setContext name _ => ∃ key, normalizeContextKey name = .ok key
  | .addOp name _ _ _ => ∃ key, normalizeOpKey name = .ok key
  | .mergeOpFields name _ => ∃ key, normalizeOpKey name = .ok key
  | .addItem item => ∃ status, normalizeItemStatus upper item.status = .ok status
  | _ => True

/-- An addition to an operation is the first event to name it, or each of its counters was
given before. -/
def CountersGiven (before : List Reported) : ReportEvent → Prop
  | .addOp name _ _ _ => ∀ key, normalizeOpKey name = .ok key →
      (∀ r ∈ before, ¬NamesOp key r.event) ∨
        ∀ field ∈ counterNames, ∃ r ∈ before, GivesOp key field r.event
  | _ => True

def AllCountersGiven : List Reported → List Reported → Prop
  | _, [] => True
  | before, r::es => CountersGiven before r.event ∧ AllCountersGiven (before ++ [r]) es

/-- No event of the sequence raises. -/
def Quiet (upper : String → String) : InMemoryReportContext → List Reported → Prop
  | _, [] => True
  | c, r::es => (c.append upper r.now r.event).2 = none ∧
      Quiet upper (c.append upper r.now r.event).1 es

theorem opsHeld_new (runId command startedAt : String) :
    OpsHeld [] (new runId command startedAt).summary.ops where
  names key := by simp [new]
  gives key field := by simp [new]

theorem append_quiet_iff (upper : String → String) (now : String) {c : InMemoryReportContext}
    {before : List Reported} (h : OpsHeld before c.summary.ops) (e : ReportEvent) :
    (c.append upper now e).2 = none ↔ Named upper e ∧ CountersGiven before e := by
  cases e with
  | setContext name value =>
    simp only [append, Named, CountersGiven, and_true]
    cases normalizeContextKey name <;> simp
  | addOp name ok failed count =>
    simp only [append, Named, CountersGiven]
    cases normalizeOpKey name with
    | error exc => simp
    | ok key =>
      have hnew : Dict.get? c.summary.ops key = none ↔ ∀ r ∈ before, ¬NamesOp key r.event := by
        rw [← Option.not_isSome_iff_eq_none, h.names key]
        simp
      simp [addOp_quiet_iff, hnew, h.gives]
  | mergeOpFields name values =>
    simp only [append, Named, CountersGiven, and_true]
    cases normalizeOpKey name <;> simp
  | addItem item =>
    simp only [append, Named, CountersGiven, and_true]
    cases normalizeItemStatus upper item.status <;> simp
  | _ => simp [append, Named, CountersGiven]

theorem quiet_iff (upper : String → String) {c : InMemoryReportContext} {before : List Reported}
    (h : OpsHeld before c.summary.ops) (es : List Reported) :
    Quiet upper c es ↔ (∀ r ∈ es, Named upper r.event) ∧ AllCountersGiven before es := by
  induction es generalizing c before with
  | nil => simp [Quiet, AllCountersGiven]
  | cons r es ih =>
    simp only [Quiet, AllCountersGiven, List.forall_mem_cons]
    constructor
    · rintro ⟨hr,hes⟩
      obtain ⟨hnamed,hgiven⟩ := (append_quiet_iff upper r.now h r.event).mp hr
      obtain ⟨hnames,hrest⟩ := (ih (h.append hr)).mp hes
      exact ⟨⟨hnamed,hnames⟩,hgiven,hrest⟩
    · rintro ⟨⟨hnamed,hnames⟩,hgiven,hrest⟩
      have hr := (append_quiet_iff upper r.now h r.event).mpr ⟨hnamed,hgiven⟩
      exact ⟨hr,(ih (h.append hr)).mpr ⟨hnames,hrest⟩⟩

/-- What a report promises of the events it was given. -/
structure Consistent (upper : String → String) (c : InMemoryReportContext)
    (es : List Reported) : Prop where
  quiet : Quiet upper c es
  rows : (∀ r ∈ es, r.event.setsRows = false) →
    (c.after upper es).summary.rowsTotal = (c.after upper es).summary.rowsPassed +
        (c.after upper es).summary.rowsBlocked + (c.after upper es).summary.rowsSkipped ∧
      (c.after upper es).summary.rowsTotal = (itemsOf es).countP fun i => !i.preaggregated
  diagnostics : (∀ r ∈ es, r.event.ensuresErrors = false) →
    (c.after upper es).summary.errorsTotal =
        stageSum StageCounters.errorsTotal (c.after upper es).summary.byStage ∧
      (c.after upper es).summary.errorsTotal = errorsOf (itemsOf es) ∧
      (c.after upper es).summary.warningsTotal =
        stageSum StageCounters.warningsTotal (c.after upper es).summary.byStage ∧
      (c.after upper es).summary.warningsTotal = warningsOf (itemsOf es)
  stored : ∀ limit, FixedLimit es limit → ((c.after upper es).items.length : Int) ≤ limit
  truncated : (∀ r ∈ es, r.event.setsTruncated = false) →
    ((c.after upper es).metadata.itemsTruncated = true ↔
      (c.after upper es).items.length < (itemsOf es).countP AddItemEvent.store)

/-- The sequences of events that a report can follow. -/
structure Orderly (upper : String → String) (es : List Reported) : Prop where
  named : ∀ r ∈ es, Named upper r.event
  given : AllCountersGiven [] es
  limits : ∀ limit, FixedLimit es limit → 0 ≤ limit

theorem named_statuses {upper : String → String} {es : List Reported}
    (h : ∀ r ∈ es, Named upper r.event) {item : AddItemEvent} (hitem : item ∈ itemsOf es) :
    ∃ status, normalizeItemStatus upper item.status = .ok status := by
  obtain ⟨r,hr,hsome⟩ := List.mem_filterMap.mp hitem
  have hnamed := h r hr
  cases he : r.event with
  | addItem item' =>
    rw [he] at hsome hnamed
    cases hsome
    exact hnamed
  | _ =>
    rw [he] at hsome
    cases hsome

/-- A report is consistent when its names are known, its limit is no negative number, and
no addition meets an entry that a merge left without the counters. -/
theorem report_consistent_iff (upper : String → String) (runId command startedAt : String)
    (es : List Reported) :
    Consistent upper (new runId command startedAt) es ↔ Orderly upper es := by
  have hquiet := quiet_iff upper (opsHeld_new runId command startedAt) es
  constructor
  · intro h
    obtain ⟨hnamed,hgiven⟩ := hquiet.mp h.quiet
    refine ⟨hnamed,hgiven,fun limit hlimit => ?_⟩
    have hstored := h.stored limit hlimit
    omega
  · intro h
    have htallied := tallied_after upper runId command startedAt fun item hitem =>
      named_statuses h.named hitem
    refine ⟨hquiet.mpr ⟨h.named,h.given⟩,htallied.rows,fun hall => ?_,?_,htallied.truncated⟩
    · have herrors := htallied.errors hall
      exact ⟨herrors.trans htallied.stageErrors.symm,herrors,
        htallied.warnings.trans htallied.stageWarnings.symm,htallied.warnings⟩
    · intro limit hlimit
      have hwithin := fixedLimit_within upper runId command startedAt hlimit
      have hlimits := h.limits limit hlimit
      omega

/-- The fields of a plan, and then an addition to the same operation. -/
def mergedPlan : List Reported :=
  [⟨"2026-06-01T10:00:00Z",.mergeOpFields (.member .plan) [("planned_create",1)]⟩,
    ⟨"2026-06-01T10:00:01Z",.addOp (.member .plan) 1 0 1⟩]

/-- The merge opens an entry without counters, and the addition does not find them. -/
theorem addition_after_merge_raises :
    ¬∀ (upper : String → String) (runId command startedAt : String) (es : List Reported),
      (∀ r ∈ es, Named upper r.event ∧ ∀ limit, r.event.limit? = some limit → 0 ≤ limit) →
        Consistent upper (new runId command startedAt) es := by
  intro h
  have hlimits : ∀ r ∈ mergedPlan, Named id r.event ∧
      ∀ limit, r.event.limit? = some limit → 0 ≤ limit := by
    simp only [mergedPlan, List.forall_mem_cons]
    refine ⟨⟨⟨"plan",rfl⟩,?_⟩,⟨⟨"plan",rfl⟩,?_⟩,by simp⟩ <;> simp [ReportEvent.limit?]
  have hquiet := (h id "run" "apply" "2026-06-01T10:00:00Z" mergedPlan hlimits).quiet
  exact absurd hquiet.2.1 (by decide)

end InMemoryReportContext

end NexusEtl
