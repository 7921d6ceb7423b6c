import NexusEtl.Apply
import NexusEtl.JsonLoads

/-!
# The plan file

The import plan goes from the planning command to the apply command as an indented JSON file.
The writer puts the items of the builder under the run's metadata, and the reader checks the
outline of the document, takes what has the expected shape and gives defaults for the rest.
-/

set_option autoImplicit false

namespace NexusEtl.PlanFile
open NexusEtl.Library

/-! ## Writing -/

def operationText : Operation → String
  | .create => "create"
  | .update => "update"
  | .other text => text

def orNull {α : Type} (f : α → Value) : Option α → Value
  | none => .null
  | some a => f a

def itemFields (item : PlanItem) : Fields :=
  [("row_id",.str item.rowId), ("line_no",orNull .int item.lineNo),
    ("op",.str (operationText item.op)), ("target_id",item.targetId),
    ("desired_state",.dict item.desiredState), ("changes",.dict item.changes),
    ("source_ref",orNull .dict item.sourceRef),
    ("secret_fields",.list (item.secretFields.map .str)),
    ("secret_lifecycle",orNull .dict item.secretLifecycle)]

/-- `_serialize_plan_item` -/
def serializePlanItem (item : PlanItem) : Value := .dict (itemFields item)

def count (n : Nat) : Value := .int n

/-- `summary_as_dict` -/
def summaryAsDict (summary : PlanSummary) : Fields :=
  [("rows_total",count summary.rowsTotal), ("valid_rows",count summary.validRows),
    ("failed_rows",count summary.failedRows), ("planned_create",count summary.plannedCreate),
    ("planned_update",count summary.plannedUpdate), ("skipped",count summary.skipped)]

/-- What the planning command says about a run. -/
structure PlanRun where
  runId : String
  generatedAt : String
  dataset : String
  includeDeleted : Bool
  deriving DecidableEq, Repr

def PlanRun.metaFields (run : PlanRun) : Fields :=
  [("csv_path",.null), ("include_deleted",.bool run.includeDeleted), ("dataset",.str run.dataset)]

/-- `_build_plan_payload` -/
def buildPlanPayload (run : PlanRun) (built : PlanBuilder) : Value :=
  .dict [("meta",.dict (Dict.update [("run_id",.str run.runId),
      ("generated_at",.str run.generatedAt)] run.metaFields)),
    ("summary",.dict (summaryAsDict built.summary)),
    ("items",.list (built.planItems.map serializePlanItem))]

/-- The style of `atomic_write_json`. -/
def artifact : Json.Style := { ensureAscii := false, indent := some 2 }

def planText (run : PlanRun) (built : PlanBuilder) : String :=
  artifact.dumps (buildPlanPayload run built)

/-! ## Reading -/

/-- An item as it is read: what the reader does not check is still any value. -/
structure FileItem where
  rowId : String
  lineNo : Value
  op : String
  targetId : String
  desiredState : Fields
  changes : Fields
  sourceRef : Option Fields
  secretFields : List Value
  secretLifecycle : Option Fields
  deriving DecidableEq, Repr

structure FileMeta where
  runId : Option String
  generatedAt : Option String
  dataset : String
  csvPath : Option String
  planPath : String
  includeDeleted : Value
  deriving DecidableEq, Repr

structure FileSummary where
  rowsTotal : Int
  validRows : Int
  failedRows : Int
  plannedCreate : Int
  plannedUpdate : Int
  skipped : Int
  deriving DecidableEq, Repr

structure FilePlan where
  fileMeta : FileMeta
  summary : FileSummary
  items : List FileItem
  deriving DecidableEq, Repr

/-- `_get_str` -/
def getStr : Value → Option String
  | .null => none
  | v => some v.pyStr

def valueError (text : String) : PyException := ⟨"ValueError",text⟩

def notReadable (text : String) : PyException :=
  let digits := ((Text.stripNumber text).toList.filter Text.isDecimalChar).length
  if 4300 < digits then
    valueError ("Exceeds the limit (4300 digits) for integer string conversion: value has " ++
      toString digits ++ " digits; use sys.set_int_max_str_digits() to increase the limit")
  else valueError ("invalid literal for int() with base 10: " ++ Value.strRepr text)

def notANumber (v : Value) : PyException :=
  ⟨"TypeError","int() argument must be a string, a bytes-like object or a real number, not '" ++
    v.typeName ++ "'"⟩

/-- `int(value or 0)` -/
def intOf (v : Value) : Except PyException Int :=
  if v.truthy = false then .ok 0
  else match v with
    | .bool _ => .ok 1
    | .int n => .ok n
    | .float q => .ok (q.num.tdiv q.den)
    | .str s => match Text.parseInt s with
      | some n => .ok n
      | none => .error (notReadable s)
    | v => .error (notANumber v)

def dictOr (data : Fields) (name : String) : Fields :=
  match Fields.read data name with
  | .dict fields => fields
  | _ => []

def dict? : Value → Option Fields
  | .dict fields => some fields
  | _ => none

/-- `_load_plan_raw`, from the parsed document on. -/
def loadPlanRaw : Value → Except PyException (Fields × Fields × List Value)
  | .dict data =>
    match (Dict.get? data "items").getD (.list []) with
    | .list items => .ok (dictOr data "meta",dictOr data "summary",items)
    | _ => .error (valueError "Invalid plan format: items must be list")
  | _ => .error (valueError "Invalid plan format: root must be object")

/-- `_resolve_dataset` -/
def resolveDataset (metaRaw : Fields) : Except PyException String :=
  let dataset := Fields.read metaRaw "dataset"
  let chosen := if dataset.truthy then dataset else Fields.read metaRaw "dataset_name"
  match getStr chosen with
  | none | some "" => .error (valueError "Invalid plan format: dataset is missing in meta")
  | some text => .ok text

def mask : String := "***"

/-- Without a password that is only the mask of one. -/
def unmasked (desired : Fields) : Fields :=
  if Fields.read desired "password" = .str mask then desired.filter fun f => f.1 != "password"
  else desired

def readItem (raw : Fields) : FileItem :=
  let targetId := Fields.read raw "target_id"
  let named := if targetId.isNull then Fields.read raw "resource_id" else targetId
  { rowId := (getStr (Fields.read raw "row_id")).getD ""
    lineNo := Fields.read raw "line_no"
    op := (getStr (Fields.read raw "op")).getD ""
    targetId := (getStr named).getD ""
    desiredState := unmasked (dictOr raw "desired_state")
    changes := dictOr raw "changes"
    sourceRef := dict? (Fields.read raw "source_ref")
    secretFields := match Fields.read raw "secret_fields" with
      | .list names => names
      | _ => []
    secretLifecycle := dict? (Fields.read raw "secret_lifecycle") }

def readSummary (raw : Fields) : Except PyException FileSummary := do
  let rowsTotal ← intOf (Fields.read raw "rows_total")
  let validRows ← intOf (Fields.read raw "valid_rows")
  let failedRows ← intOf (Fields.read raw "failed_rows")
  let plannedCreate ← intOf (Fields.read raw "planned_create")
  let plannedUpdate ← intOf (Fields.read raw "planned_update")
  let skipped ← intOf (Fields.read raw "skipped")
  return ⟨rowsTotal,validRows,failedRows,plannedCreate,plannedUpdate,skipped⟩

def planOf (path : String) (metaRaw : Fields) (dataset : String) (summary : FileSummary)
    (itemsRaw : List Value) : FilePlan :=
  { fileMeta :=
      { runId := getStr (Fields.read metaRaw "run_id")
        generatedAt := getStr (Fields.read metaRaw "generated_at")
        dataset := dataset
        csvPath := getStr (Fields.read metaRaw "csv_path")
        planPath := path
        includeDeleted := Fields.read metaRaw "include_deleted" }
    summary := summary
    items := (itemsRaw.filterMap dict?).map readItem }

/-- `_build_plan` -/
def buildPlan (path : String) (metaRaw summaryRaw : Fields) (itemsRaw : List Value) :
    Except PyException FilePlan := do
  let dataset ← resolveDataset metaRaw
  let summary ← readSummary summaryRaw
  return planOf path metaRaw dataset summary itemsRaw

theorem buildPlan_ok (path : String) {metaRaw summaryRaw : Fields} {dataset : String}
    {summary : FileSummary} (hdataset : resolveDataset metaRaw = .ok dataset)
    (hsummary : readSummary summaryRaw = .ok summary) (itemsRaw : List Value) :
    buildPlan path metaRaw summaryRaw itemsRaw =
      .ok (planOf path metaRaw dataset summary itemsRaw) := by
  rw [buildPlan, hdataset, hsummary]
  rfl

def readDocument (path : String) (document : Value) : Except PyException FilePlan := do
  let raw ← loadPlanRaw document
  buildPlan path raw.1 raw.2.1 raw.2.2

theorem readDocument_ok (path : String) {document : Value} {metaRaw summaryRaw : Fields}
    {itemsRaw : List Value} {dataset : String} {summary : FileSummary}
    (hraw : loadPlanRaw document = .ok (metaRaw,summaryRaw,itemsRaw))
    (hdataset : resolveDataset metaRaw = .ok dataset)
    (hsummary : readSummary summaryRaw = .ok summary) :
    readDocument path document = .ok (planOf path metaRaw dataset summary itemsRaw) := by
  rw [readDocument, hraw]
  exact buildPlan_ok path hdataset hsummary itemsRaw

/-- Why there is no plan: the text is no JSON, or the reader raises. -/
inductive PlanFailure
  | decodeError
  | raised (exc : PyException)
  deriving DecidableEq, Repr

/-- `readPlanFile` on the text of the file. -/
def readPlanFile (path text : String) : Except PlanFailure FilePlan :=
  match Json.loads text with
  | none => .error .decodeError
  | some document => match readDocument path document with
    | .ok plan => .ok plan
    | .error exc => .error (.raised exc)

/-- `except (OSError, ValueError)`: the error of a text that is no JSON is a `ValueError` too. -/
def PlanFailure.handled : PlanFailure → Bool
  | .decodeError => true
  | .raised exc => exc.name == "ValueError"

/-! ## What the apply loop is given -/

def operationOf (text : String) : Operation :=
  if text = "create" then .create else if text = "update" then .update else .other text

def lineNo? : Value → Option (Option Int)
  | .null => some none
  | .int n => some (some n)
  | _ => none

def text? : Value → Option String
  | .str s => some s
  | _ => none

def count? (n : Int) : Option Nat := if 0 ≤ n then some n.toNat else none

/-- The item, when what the reader does not check has the expected types too. -/
def FileItem.toItem (item : FileItem) : Option PlanItem := do
  let lineNo ← lineNo? item.lineNo
  let secretFields ← item.secretFields.mapM text?
  return { rowId := item.rowId, lineNo := lineNo, op := operationOf item.op
           targetId := .str item.targetId, desiredState := item.desiredState
           changes := item.changes, sourceRef := item.sourceRef, secretFields := secretFields
           secretLifecycle := item.secretLifecycle }

def FileSummary.toSummary (s : FileSummary) : Option PlanSummary := do
  let rowsTotal ← count? s.rowsTotal
  let validRows ← count? s.validRows
  let failedRows ← count? s.failedRows
  let plannedCreate ← count? s.plannedCreate
  let plannedUpdate ← count? s.plannedUpdate
  let skipped ← count? s.skipped
  return ⟨rowsTotal,validRows,failedRows,plannedCreate,plannedUpdate,skipped⟩

def FilePlan.toPlan (plan : FilePlan) : Option Plan := do
  let summary ← plan.summary.toSummary
  let items ← plan.items.mapM FileItem.toItem
  return ⟨⟨plan.fileMeta.runId,some plan.fileMeta.dataset⟩,summary,items⟩

/-! ## What is written is read back -/

/-- The item that is read for a written one: the id is a text, and a masked password is gone. -/
def asRead (item : PlanItem) : PlanItem :=
  { item with
    op := operationOf (operationText item.op)
    targetId := .str ((getStr item.targetId).getD "")
    desiredState := unmasked item.desiredState }

theorem mapM_text (names : List String) : (names.map Value.str).mapM text? = some names := by
  induction names with
  | nil => rfl
  | cons name names ih => simp [List.mapM_cons, text?, ih]

theorem lineNo_orNull (n : Option Int) : lineNo? (orNull .int n) = some n := by
  cases n <;> rfl

theorem dict_orNull (fields : Option Fields) : dict? (orNull .dict fields) = fields := by
  cases fields <;> rfl

theorem readItem_itemFields (item : PlanItem) :
    (readItem (itemFields item)).toItem = some (asRead item) := by
  have hid : (getStr (if item.targetId.isNull then
      Fields.read (itemFields item) "resource_id" else item.targetId)).getD "" =
      (getStr item.targetId).getD "" := by
    cases item.targetId <;> rfl
  have hread : readItem (itemFields item) =
      { rowId := item.rowId, lineNo := orNull .int item.lineNo, op := operationText item.op
        targetId := (getStr item.targetId).getD "", desiredState := unmasked item.desiredState
        changes := item.changes, sourceRef := item.sourceRef
        secretFields := item.secretFields.map .str, secretLifecycle := item.secretLifecycle } := by
    rw [← hid]
    conv_rhs => rw [← dict_orNull item.sourceRef, ← dict_orNull item.secretLifecycle]
    rfl
  rw [hread, FileItem.toItem]
  simp only [lineNo_orNull, mapM_text]
  rfl

/-- What is in the file comes back without loss. -/
structure Storable (built : PlanBuilder) : Prop where
  decimal : ∀ item ∈ built.planItems, (serializePlanItem item).Decimal
  distinct : ∀ item ∈ built.planItems, (serializePlanItem item).DistinctKeys

theorem decimalItems_of_forall {items : List Value} (h : ∀ v ∈ items, v.Decimal) :
    Value.DecimalItems items := by
  induction items with
  | nil => trivial
  | cons v items ih => exact ⟨h v List.mem_cons_self,ih fun w hw => h w (List.mem_cons_of_mem v hw)⟩

theorem payload_decimal (run : PlanRun) {built : PlanBuilder} (h : Storable built) :
    (buildPlanPayload run built).Decimal := by
  have hitems : Value.DecimalItems (built.planItems.map serializePlanItem) := by
    apply decimalItems_of_forall
    intro v hv
    obtain ⟨item,hitem,rfl⟩ := List.mem_map.mp hv
    exact h.decimal item hitem
  exact ⟨⟨trivial,trivial,trivial,trivial,trivial,trivial⟩,
    ⟨trivial,trivial,trivial,trivial,trivial,trivial,trivial⟩,hitems,trivial⟩

theorem payload_distinct (run : PlanRun) {built : PlanBuilder} (h : Storable built) :
    (buildPlanPayload run built).DistinctKeys := by
  have hitems : Value.DistinctItems (built.planItems.map serializePlanItem) := by
    apply Json.distinctItems_of_forall
    intro v hv
    obtain ⟨item,hitem,rfl⟩ := List.mem_map.mp hv
    exact h.distinct item hitem
  have hmeta : (["run_id","generated_at","csv_path","include_deleted","dataset"] : List String).Nodup := by
    decide
  have hsummary : (["rows_total","valid_rows","failed_rows","planned_create","planned_update",
      "skipped"] : List String).Nodup := by decide
  have hroot : (["meta","summary","items"] : List String).Nodup := by decide
  exact ⟨hroot,⟨hmeta,⟨trivial,trivial,trivial,trivial,trivial,trivial⟩⟩,
    ⟨hsummary,⟨trivial,trivial,trivial,trivial,trivial,trivial,trivial⟩⟩,hitems,trivial⟩

theorem intOf_int (n : Int) : intOf (.int n) = .ok n := by
  unfold intOf
  split
  · rename_i h
    have hzero : n = 0 := by simpa [Value.truthy] using h
    rw [hzero]
  · rfl

theorem readSummary_written (summary : PlanSummary) :
    readSummary (summaryAsDict summary) =
      .ok ⟨summary.rowsTotal,summary.validRows,summary.failedRows,summary.plannedCreate,
        summary.plannedUpdate,summary.skipped⟩ := by
  have hread (name : String) (n : Nat) (h : Fields.read (summaryAsDict summary) name = count n) :
      intOf (Fields.read (summaryAsDict summary) name) = .ok n := by
    rw [h, count, intOf_int]
  rw [readSummary, hread "rows_total" _ rfl, hread "valid_rows" _ rfl, hread "failed_rows" _ rfl,
    hread "planned_create" _ rfl, hread "planned_update" _ rfl, hread "skipped" _ rfl]
  rfl

theorem items_filterMap (items : List PlanItem) :
    ((items.map serializePlanItem).filterMap dict?).map readItem =
      items.map fun item => readItem (itemFields item) := by
  induction items with
  | nil => rfl
  | cons item items ih => exact congrArg _ ih

theorem mapM_readItem (items : List PlanItem) :
    (items.map fun item => readItem (itemFields item)).mapM FileItem.toItem =
      some (items.map asRead) := by
  induction items with
  | nil => rfl
  | cons item items ih => simp [List.mapM_cons, readItem_itemFields, ih]

/-- A written plan is read as the plan with the items as they are read. -/
theorem read_written (run : PlanRun) {built : PlanBuilder} (hdataset : run.dataset ≠ "")
    (h : Storable built) (path : String) :
    ∃ plan, readPlanFile path (planText run built) = .ok plan ∧
      plan.toPlan = some ⟨⟨some run.runId,some run.dataset⟩,built.summary,
        built.planItems.map asRead⟩ := by
  let metaRaw := Dict.update [("run_id",.str run.runId),("generated_at",.str run.generatedAt)]
    run.metaFields
  have hloads : Json.loads (planText run built) = some (buildPlanPayload run built) :=
    Json.Style.loads_dumps artifact (payload_decimal run h) (payload_distinct run h)
  have hraw : loadPlanRaw (buildPlanPayload run built) = .ok (metaRaw,summaryAsDict built.summary,
      built.planItems.map serializePlanItem) := rfl
  have hname : resolveDataset metaRaw = .ok run.dataset := by
    have hread : Fields.read metaRaw "dataset" = .str run.dataset := rfl
    have htruthy : (Value.str run.dataset).truthy = true := by simpa [Value.truthy] using hdataset
    unfold resolveDataset
    simp only [hread, htruthy, if_true, getStr, Value.pyStr_str]
  obtain ⟨summary,hsummary,hcounts⟩ : ∃ summary,
      readSummary (summaryAsDict built.summary) = .ok summary ∧
        summary.toSummary = some built.summary := ⟨_,readSummary_written _,rfl⟩
  refine ⟨planOf path metaRaw run.dataset summary (built.planItems.map serializePlanItem),?_,?_⟩
  · rw [readPlanFile, hloads]
    simp only [readDocument_ok path hraw hname hsummary]
  · have hrunId : (planOf path metaRaw run.dataset summary
        (built.planItems.map serializePlanItem)).fileMeta.runId = some run.runId := rfl
    rw [FilePlan.toPlan, hrunId]
    simp only [planOf, hcounts, items_filterMap, mapM_readItem]
    rfl

def hiredRow : ResolvedRow :=
  { rowRef := ⟨some 2,"line:2",none,none⟩, identity := ⟨"email",[("email","a@b.c")]⟩, op := .create
    desiredState := [("email",.str "a@b.c"),("rate",.float (-5/2)),("tags",.list [.str "é\n",.null])]
    existing := none, changes := [], targetId := .str "7f", sourceRef := some [("line",.int 2)]
    secretFields := ["password"], secretLifecycle := none }

def hired : List (TransformResult ResolvedRow) :=
  [{ record := ⟨2,"line:2",[]⟩, row := some hiredRow, rowRef := some ⟨some 2,"line:2",none,none⟩
     matchKey := none, metadata := [], secretCandidates := [], errors := [], warnings := [] }]

theorem hired_items : (PlanBuilder.buildFromStream hired).planItems =
    [PlanBuilder.serializePlanItem hiredRow] := rfl

theorem hired_storable : Storable (PlanBuilder.buildFromStream hired) := by
  refine ⟨?_,?_⟩ <;> rw [hired_items] <;> intro item hitem <;>
    rw [List.mem_singleton.mp hitem]
  · exact ⟨trivial,trivial,trivial,trivial,
      ⟨trivial,show 10^400 % (-5/2 : Rat).den = 0 by decide +kernel,
        ⟨trivial,trivial,trivial⟩,trivial⟩,trivial,⟨trivial,trivial⟩,
      ⟨trivial,trivial⟩,trivial,trivial⟩
  · refine ⟨?_,trivial,trivial,trivial,trivial,⟨?_,trivial,trivial,⟨trivial,trivial,trivial⟩,trivial⟩,
      ⟨List.nodup_nil,trivial⟩,⟨List.nodup_singleton _,trivial,trivial⟩,⟨trivial,trivial⟩,trivial,
      trivial⟩
    · decide
    · decide

theorem masked_mem {desired : Fields} (h : Fields.read desired "password" = .str mask) :
    ("password",Value.str mask) ∈ desired := by
  unfold Fields.read at h
  cases hget : Dict.get? desired "password" with
  | none =>
    rw [hget] at h
    cases h
  | some v =>
    rw [hget] at h
    cases h
    exact Dict.mem_of_get? hget

theorem unmasked_eq_iff (desired : Fields) :
    unmasked desired = desired ↔ Fields.read desired "password" ≠ .str mask := by
  unfold unmasked
  constructor
  · intro h hmask
    rw [if_pos hmask] at h
    have hmem := masked_mem hmask
    rw [← h] at hmem
    exact absurd (List.mem_filter.mp hmem).2 (by decide)
  · intro h
    rw [if_neg h]

/-- No password that is read is the mask. -/
theorem unmasked_password (desired : Fields) :
    Fields.read (unmasked desired) "password" ≠ .str mask := by
  intro hmask
  have hmem := masked_mem hmask
  unfold unmasked at hmask hmem
  split at hmask
  · rename_i h
    rw [if_pos h] at hmem
    exact absurd (List.mem_filter.mp hmem).2 (by decide)
  · rename_i h
    exact h hmask

/-- Built items are creates and updates, which keep their texts. -/
theorem operation_built {results : List (TransformResult ResolvedRow)} {item : PlanItem}
    (h : item ∈ (PlanBuilder.buildFromStream results).planItems) :
    operationOf (operationText item.op) = item.op := by
  rw [(PlanBuilder.buildFromStream_spec results).1, List.mem_filterMap] at h
  obtain ⟨resolved,-,hitem⟩ := h
  unfold PlanBuilder.itemOf at hitem
  obtain ⟨row,-,hrow⟩ := Option.bind_eq_some_iff.mp hitem
  split at hrow
  · rw [← Option.some.inj hrow, PlanBuilder.serializePlanItem]
    dsimp only
    split <;> rfl
  · cases hrow

theorem asRead_eq_iff {item : PlanItem} (hop : operationOf (operationText item.op) = item.op) :
    asRead item = item ↔
      (∃ id, item.targetId = .str id) ∧ Fields.read item.desiredState "password" ≠ .str mask := by
  constructor
  · intro h
    exact ⟨⟨_,(congrArg PlanItem.targetId h).symm⟩,
      (unmasked_eq_iff _).mp (congrArg PlanItem.desiredState h)⟩
  · rintro ⟨⟨id,hid⟩,hmask⟩
    rw [asRead, hop, (unmasked_eq_iff _).mpr hmask, hid]
    cases item
    cases hid
    rfl

theorem map_eq_self_iff {α : Type} {f : α → α} {l : List α} :
    l.map f = l ↔ ∀ a ∈ l, f a = a := by
  conv_lhs => rhs; rw [← List.map_id l]
  exact List.map_inj_left

/-- The apply command reads the very plan that was built, unless an id is no text or a password
is a mask. -/
theorem read_exact_iff (run : PlanRun) (results : List (TransformResult ResolvedRow))
    (hdataset : run.dataset ≠ "") (h : Storable (PlanBuilder.buildFromStream results))
    (path : String) :
    (∃ plan, readPlanFile path (planText run (PlanBuilder.buildFromStream results)) = .ok plan ∧
      plan.toPlan = some ⟨⟨some run.runId,some run.dataset⟩,
        (PlanBuilder.buildFromStream results).summary,
        (PlanBuilder.buildFromStream results).planItems⟩) ↔
      ∀ item ∈ (PlanBuilder.buildFromStream results).planItems,
        (∃ id, item.targetId = .str id) ∧
          Fields.read item.desiredState "password" ≠ .str mask := by
  obtain ⟨plan,hplan,hread⟩ := read_written run hdataset h path
  have hitems : (PlanBuilder.buildFromStream results).planItems.map asRead =
      (PlanBuilder.buildFromStream results).planItems ↔
      ∀ item ∈ (PlanBuilder.buildFromStream results).planItems,
        (∃ id, item.targetId = .str id) ∧
          Fields.read item.desiredState "password" ≠ .str mask := by
    rw [map_eq_self_iff]
    exact forall₂_congr fun item hitem => asRead_eq_iff (operation_built hitem)
  rw [← hitems]
  constructor
  · rintro ⟨plan',hplan',hread'⟩
    rw [hplan] at hplan'
    obtain rfl := Except.ok.inj hplan'
    rw [hread] at hread'
    exact (Plan.mk.inj (Option.some.inj hread')).2.2
  · intro heq
    rw [heq] at hread
    exact ⟨plan,hplan,hread⟩

theorem read_exact_hired : ∃ plan,
    readPlanFile "plan.json" (planText ⟨"r1","2024-01-01","people",true⟩
      (PlanBuilder.buildFromStream hired)) = .ok plan ∧
    plan.toPlan = some ⟨⟨some "r1",some "people"⟩,(PlanBuilder.buildFromStream hired).summary,
      (PlanBuilder.buildFromStream hired).planItems⟩ := by
  refine (read_exact_iff ⟨"r1","2024-01-01","people",true⟩ hired (by decide) hired_storable
    "plan.json").mpr ?_
  intro item hitem
  rw [hired_items] at hitem
  rw [List.mem_singleton.mp hitem]
  exact ⟨⟨"7f",rfl⟩,by decide⟩

/-! ## What the reader accepts -/

def countNames : List String :=
  ["rows_total","valid_rows","failed_rows","planned_create","planned_update","skipped"]

def container (v : Value) : Bool :=
  v.truthy && match v with
    | .list _ | .dict _ => true
    | _ => false

def intError (v : Value) : Option PyException :=
  match intOf v with
  | .ok _ => none
  | .error exc => some exc

theorem notReadable_name (s : String) : (notReadable s).name = "ValueError" := by
  unfold notReadable
  dsimp only
  split <;> rfl

theorem intOf_error {v : Value} {exc : PyException} (h : intOf v = .error exc) :
    (exc.name = "ValueError" ∧ container v = false) ∨
      (exc.name = "TypeError" ∧ container v = true) := by
  unfold intOf at h
  split at h
  · cases h
  · rename_i htruthy
    cases v with
    | null => exact absurd rfl htruthy
    | bool b => cases h
    | int n => cases h
    | float q => cases h
    | str s =>
      dsimp only at h
      split at h
      · cases h
      · rw [← Except.error.inj h]
        exact .inl ⟨notReadable_name s,by simp [container]⟩
    | list items =>
      rw [← Except.error.inj h]
      exact .inr ⟨rfl,by simpa [container] using htruthy⟩
    | dict fields =>
      rw [← Except.error.inj h]
      exact .inr ⟨rfl,by simpa [container] using htruthy⟩

theorem bind_error_iff {β : Type} (v : Value) {f : Int → Except PyException β}
    {exc : PyException} {values : List Value}
    (h : ∀ n, f n = .error exc ↔ values.findSome? intError = some exc) :
    (intOf v >>= f) = .error exc ↔ (v::values).findSome? intError = some exc := by
  rw [List.findSome?_cons]
  unfold intError
  cases intOf v with
  | error e => exact ⟨fun heq => congrArg some (Except.error.inj heq),
      fun heq => congrArg Except.error (Option.some.inj heq)⟩
  | ok n => exact h n

/-- The first counter that is no number decides. -/
theorem readSummary_error_iff (raw : Fields) (exc : PyException) :
    readSummary raw = .error exc ↔
      (countNames.map (Fields.read raw)).findSome? intError = some exc := by
  apply bind_error_iff
  intro rowsTotal
  apply bind_error_iff
  intro validRows
  apply bind_error_iff
  intro failedRows
  apply bind_error_iff
  intro plannedCreate
  apply bind_error_iff
  intro plannedUpdate
  apply bind_error_iff
  intro skipped
  constructor
  · intro h
    cases h
  · intro h
    cases h

theorem loadPlanRaw_error {document : Value} {exc : PyException}
    (h : loadPlanRaw document = .error exc) : exc.name = "ValueError" := by
  unfold loadPlanRaw at h
  split at h
  · split at h
    · cases h
    · rw [← Except.error.inj h]
      rfl
  · rw [← Except.error.inj h]
    rfl

theorem resolveDataset_error {metaRaw : Fields} {exc : PyException}
    (h : resolveDataset metaRaw = .error exc) : exc.name = "ValueError" := by
  unfold resolveDataset at h
  dsimp only at h
  split at h
  · rw [← Except.error.inj h]
    rfl
  · rw [← Except.error.inj h]
    rfl
  · cases h

theorem resolveDataset_ok {metaRaw : Fields} {dataset : String}
    (h : resolveDataset metaRaw = .ok dataset) : dataset ≠ "" := by
  rintro rfl
  unfold resolveDataset at h
  dsimp only at h
  split at h
  · cases h
  · cases h
  · rename_i hne heq
    exact hne (Except.ok.inj h)

/-- The first counter that `int` refuses is an object or a list with something in it. -/
def FirstRefused (summaryRaw : Fields) : Prop :=
  ∃ v, (countNames.map (Fields.read summaryRaw)).find? (fun v => (intError v).isSome) = some v ∧
    container v = true

theorem findSome_intError {values : List Value} {exc : PyException} :
    values.findSome? intError = some exc ↔
      ∃ v, values.find? (fun v => (intError v).isSome) = some v ∧ intError v = some exc := by
  induction values with
  | nil => simp
  | cons w values ih =>
    rw [List.findSome?_cons, List.find?_cons]
    cases hw : intError w with
    | none => simpa using ih
    | some e => simp [hw]

theorem summary_escapes_iff (summaryRaw : Fields) :
    (∃ exc, readSummary summaryRaw = .error exc ∧ exc.name ≠ "ValueError") ↔
      FirstRefused summaryRaw := by
  have herror {v : Value} {exc : PyException} (h : intError v = some exc) :
      intOf v = .error exc := by
    unfold intError at h
    split at h
    · cases h
    · rename_i heq
      rw [heq, Option.some.inj h]
  constructor
  · rintro ⟨exc,h,hname⟩
    obtain ⟨v,hfind,hv⟩ := findSome_intError.mp ((readSummary_error_iff summaryRaw exc).mp h)
    rcases intOf_error (herror hv) with ⟨hvalue,-⟩ | ⟨-,hcontainer⟩
    · exact absurd hvalue hname
    · exact ⟨v,hfind,hcontainer⟩
  · rintro ⟨v,hfind,hcontainer⟩
    have hsome := List.find?_some (p := fun v => (intError v).isSome) hfind
    obtain ⟨exc,hexc⟩ := Option.isSome_iff_exists.mp hsome
    refine ⟨exc,(readSummary_error_iff summaryRaw exc).mpr (findSome_intError.mpr ⟨v,hfind,hexc⟩),?_⟩
    rcases intOf_error (herror hexc) with ⟨-,hscalar⟩ | ⟨hname,-⟩
    · rw [hscalar] at hcontainer
      cases hcontainer
    · rw [hname]
      decide

/-- The steps of the reader, in their order. -/
theorem readDocument_cases (path : String) (document : Value) :
    (∃ exc, exc.name = "ValueError" ∧ readDocument path document = .error exc ∧
        ∀ raw dataset, loadPlanRaw document = .ok raw → resolveDataset raw.1 ≠ .ok dataset) ∨
      ∃ raw dataset, loadPlanRaw document = .ok raw ∧ resolveDataset raw.1 = .ok dataset ∧
        readDocument path document =
          (readSummary raw.2.1).map fun summary => planOf path raw.1 dataset summary raw.2.2 := by
  cases hraw : loadPlanRaw document with
  | error exc =>
    refine .inl ⟨exc,loadPlanRaw_error hraw,?_,?_⟩
    · rw [readDocument, hraw]
      rfl
    · intro raw dataset h
      cases h
  | ok raw =>
    cases hdataset : resolveDataset raw.1 with
    | error exc =>
      refine .inl ⟨exc,resolveDataset_error hdataset,?_,?_⟩
      · rw [readDocument, hraw]
        show buildPlan path raw.1 raw.2.1 raw.2.2 = _
        rw [buildPlan, hdataset]
        rfl
      · intro raw' dataset h
        rw [← Except.ok.inj h, hdataset]
        intro heq
        cases heq
    | ok dataset =>
      refine .inr ⟨raw,dataset,rfl,hdataset,?_⟩
      rw [readDocument, hraw]
      show buildPlan path raw.1 raw.2.1 raw.2.2 = _
      rw [buildPlan, hdataset]
      cases readSummary raw.2.1 <;> rfl

/-- What is accepted names a dataset, has an item for each object of the list in its order, and
no password in it is the mask. -/
theorem readPlanFile_accepted {path text : String} {plan : FilePlan}
    (h : readPlanFile path text = .ok plan) :
    plan.fileMeta.dataset ≠ "" ∧ plan.fileMeta.planPath = path ∧
      (∃ document raw, Json.loads text = some document ∧ loadPlanRaw document = .ok raw ∧
        plan.items = (raw.2.2.filterMap dict?).map readItem) ∧
      ∀ item ∈ plan.items, Fields.read item.desiredState "password" ≠ .str mask := by
  unfold readPlanFile at h
  split at h
  · cases h
  · rename_i document hloads
    split at h
    · rename_i read hread
      obtain rfl := Except.ok.inj h
      rcases readDocument_cases path document with ⟨exc,-,herror,-⟩ |
        ⟨raw,dataset,hraw,hdataset,hok⟩
      · rw [herror] at hread
        cases hread
      · cases hs : readSummary raw.2.1 with
        | error exc =>
          rw [hok, hs] at hread
          cases hread
        | ok summary =>
          rw [hok, hs] at hread
          obtain rfl := Except.ok.inj hread
          refine ⟨resolveDataset_ok hdataset,rfl,⟨document,raw,hloads,hraw,rfl⟩,?_⟩
          intro item hitem
          obtain ⟨fields,-,rfl⟩ := List.mem_map.mp hitem
          exact unmasked_password _
    · cases h

end NexusEtl.PlanFile
