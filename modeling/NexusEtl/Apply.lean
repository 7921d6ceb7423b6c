import NexusEtl.Gateway
import NexusEtl.Planning

/-!
# Applying a plan

The adapter turns a plan item into a request: it hydrates the secret fields,
builds the payload and, where the dataset asks for it, takes the `target_id` as
the operation's parameter. The service sends the request, reports the outcome
and after a success enters the record into the identity index and cleans up its
secrets. What the service does to the outside is a list of events.
-/

set_option autoImplicit false

namespace NexusEtl
open NexusEtl.Library

structure RecordRef where
  rowId : String
  lineNo : Option Int
  deriving DecidableEq, Repr

def PlanItem.recordRef (item : PlanItem) : RecordRef := ⟨item.rowId,item.lineNo⟩

def RequestSpec.operation (name : String) (payload : Value) (params : Option Fields) :
    Except PyException RequestSpec :=
  if h : Text.strip name = "" then .error ⟨"ValueError","operation_alias must not be empty"⟩
  else .ok ⟨Text.strip name,payload,params,Text.strip_strip name,h⟩

inductive SecretFailure
  | notFound | read | decryption | integrity
  | other (exc : PyException)
  deriving DecidableEq, Repr

structure SecretQuery where
  dataset : String
  field : String
  rowId : String
  lineNo : Option Int
  sourceRef : Option Fields
  targetId : Value
  deriving DecidableEq, Repr

structure MissingRequiredSecretError where
  query : SecretQuery
  diagCode : String
  deriving DecidableEq, Repr

inductive ApplyFailure
  | missingSecret (err : MissingRequiredSecretError)
  | raised (exc : PyException)
  deriving DecidableEq, Repr

namespace ApplyFailure

def code : ApplyFailure → String
  | .missingSecret err => err.diagCode
  | .raised _ => "UNEXPECTED_ERROR"

def field : ApplyFailure → Option String
  | .missingSecret err => some err.query.field
  | .raised _ => none

def message : ApplyFailure → String
  | .missingSecret err => "Missing required secret '" ++ err.query.field ++ "' (dataset=" ++
      err.query.dataset ++ ", row_id=" ++ err.query.rowId ++ ", line_no=" ++
      (err.query.lineNo.elim "None" toString) ++ ", target_id=" ++ err.query.targetId.pyStr ++ ")"
  | .raised exc => exc.text

end ApplyFailure

inductive ParamsMode
  | targetId | none
  deriving DecidableEq, Repr

def buildTargetIdParams (item : PlanItem) : Except PyException Fields :=
  let normalized := Text.strip item.targetId.pyStr
  if item.targetId.isNull || normalized == "" then
    .error ⟨"ValueError","target_id is required for operation params"⟩
  else .ok [("target_id",.str normalized)]

/-- The adapter of a dataset; the secrets are read from the state `V` of the vault. -/
structure OperationApplyAdapter (V : Type) where
  operationAlias : String
  payloadBuilder : Fields → Except PyException Fields
  dataset : String
  paramsMode : ParamsMode
  secrets : Option (SecretQuery → V → Except SecretFailure (Option String))

namespace OperationApplyAdapter

variable {V : Type} (adapter : OperationApplyAdapter V)

def queryOf (item : PlanItem) (field : String) : SecretQuery :=
  { dataset := adapter.dataset, field := field, rowId := item.rowId, lineNo := item.lineNo
    sourceRef := item.sourceRef, targetId := item.targetId }

def getSecret (vault : V) (query : SecretQuery) : Except SecretFailure (Option String) :=
  match adapter.secrets with
  | some provider => provider query vault
  | none => .ok none

def refuse (query : SecretQuery) : SecretFailure → ApplyFailure
  | .notFound => .missingSecret ⟨query,"SECRET_REQUIRED"⟩
  | .read => .missingSecret ⟨query,"SECRET_READ_ERROR"⟩
  | .decryption => .missingSecret ⟨query,"SECRET_DECRYPTION_ERROR"⟩
  | .integrity => .missingSecret ⟨query,"SECRET_INTEGRITY_ERROR"⟩
  | .other exc => .raised exc

/-- One secret field: a field that holds a value already is not read again. -/
def hydrateField (item : PlanItem) (vault : V) (source : Fields) (field : String) :
    Except ApplyFailure Fields :=
  let query := adapter.queryOf item field
  if (Fields.read source field).truthy then .ok source
  else match adapter.getSecret vault query with
    | .error failure => .error (refuse query failure)
    | .ok secret => match secret.filter fun s => s != "" with
      | some s => .ok (Dict.set source field (.str s))
      | none => .error (.missingSecret ⟨query,"SECRET_REQUIRED"⟩)

def hydratePayloadSource (item : PlanItem) (vault : V) : Except ApplyFailure Fields :=
  item.secretFields.foldlM (adapter.hydrateField item vault) item.desiredState

def paramsOf (item : PlanItem) : Except PyException (Option Fields) :=
  match adapter.paramsMode with
  | .targetId => (buildTargetIdParams item).map some
  | .none => .ok none

def buildRequest (item : PlanItem) (source : Fields) : Except PyException RequestSpec := do
  let payload ← adapter.payloadBuilder source
  let params ← adapter.paramsOf item
  RequestSpec.operation adapter.operationAlias (.dict payload) params

def toRequest (item : PlanItem) (vault : V) : Except ApplyFailure RequestSpec :=
  (adapter.hydratePayloadSource item vault).bind fun source =>
    (adapter.buildRequest item source).mapError .raised

end OperationApplyAdapter

inductive ApplyEvent
  | called (call : DriverCall)
  | itemOk (ref : RecordRef) (op : Operation) (targetId : Value)
  | itemError (ref : RecordRef) (op : Operation) (diag : DiagnosticItem)
  | indexed (entry : IdentityEntry)
  deriving DecidableEq, Repr

structure ApplyItemOutcome where
  recordRef : RecordRef
  op : Operation
  status : String
  targetId : Value
  diagnostics : List DiagnosticItem
  deriving DecidableEq, Repr

structure ApplyState (V : Type) where
  gateway : GatewayState
  db : IdentityDb
  vault : V
  errorStats : Dict String Nat
  retentionStats : Dict String Int
  systemCodes : List SystemErrorCode
  outcomes : List ApplyItemOutcome
  outcomesDropped : Bool

structure RetentionCall where
  dataset : String
  op : Operation
  sourceRef : Option Fields
  secretFields : List String
  secretLifecycle : Option Fields
  runId : Option String
  deriving DecidableEq, Repr

structure ImportApplyService (V : Type) where
  executor : RequestSpec → GatewayState → Execution
  identitySyncer : Option IdentityIndexSyncer
  secretRetention : Option (RetentionCall → V → Except PyException (Dict String Int) × V)
  allowPostSuccessSideEffects : Bool

/-- What one `apply_plan` fixes for all of its items. -/
structure ItemProcessContext (V : Type) where
  catalog : ErrorCatalog
  adapter : Option (OperationApplyAdapter V)
  dataset : String
  planRunId : Option String
  maxItemOutcomes : Int

structure ItemProcessResult where
  createdInc : Nat
  updatedInc : Nat
  failedInc : Nat
  itemFatal : Bool
  deriving DecidableEq, Repr

structure ItemRun (V : Type) where
  result : ItemProcessResult
  state : ApplyState V
  events : List ApplyEvent

def ItemRun.after {V : Type} (events : List ApplyEvent) (run : ItemRun V) : ItemRun V :=
  { run with events := events ++ run.events }

def isFatal : SystemErrorCode → Bool
  | .authUnauthorized | .authForbidden | .internalError => true
  | _ => false

def mapSystemCode : Option SystemErrorCode → String
  | some .authUnauthorized => "SINK_UNAUTHORIZED"
  | some .authForbidden => "SINK_FORBIDDEN"
  | some .conflict => "SINK_CONFLICT"
  | some .infraTimeout => "SINK_TIMEOUT"
  | some .ioError => "SINK_IO_ERROR"
  | some .infraUnavailable => "SINK_UNAVAILABLE"
  | _ => "SINK_HTTP_ERROR"

def SystemErrorCode.value : SystemErrorCode → String
  | .ok => "OK"
  | .unknownCode => "UNKNOWN_CODE"
  | .internalError => "INTERNAL_ERROR"
  | .dataInvalid => "DATA_INVALID"
  | .authUnauthorized => "AUTH_UNAUTHORIZED"
  | .authForbidden => "AUTH_FORBIDDEN"
  | .conflict => "CONFLICT"
  | .infraTimeout => "INFRA_TIMEOUT"
  | .infraUnavailable => "INFRA_UNAVAILABLE"
  | .ioError => "IO_ERROR"
  | .cacheError => "CACHE_ERROR"

def ResponsePayloadFormat.value : ResponsePayloadFormat → String
  | .none => "none"
  | .json => "json"
  | .text => "text"
  | .bytes => "bytes"
  | .rows => "rows"
  | .object => "object"

def optionValue (s : Option String) : Value := s.elim .null .str

def translateExecutionResult (catalog : ErrorCatalog) (result : ExecutionResult) :
    DiagnosticItem :=
  let details : Fields :=
    [("answer_code",result.answerCode), ("response_format",.str result.responseFormat.value),
     ("error_code",optionValue (result.errorCode.map SystemErrorCode.value)),
     ("error_reason",optionValue result.errorReason),
     ("error_details",result.errorDetails.elim .null .dict)]
  let message := (result.errorMessage.filter fun m => m != "").getD "request failed"
  diagError catalog .sink (mapSystemCode result.errorCode) none (some message) none (some details)

namespace ApplyState

variable {V : Type} (st : ApplyState V)

def registerError (catalog : ErrorCatalog) (diag : DiagnosticItem) : ApplyState V :=
  let sysCode := catalog.classify diag.code
  { st with
    errorStats := Dict.set st.errorStats diag.code ((Dict.get? st.errorStats diag.code).getD 0 + 1)
    systemCodes := if sysCode ∈ st.systemCodes then st.systemCodes else st.systemCodes ++ [sysCode] }

def addOutcome (maxItemOutcomes : Int) (outcome : ApplyItemOutcome) : ApplyState V :=
  if st.outcomes.length < maxItemOutcomes then { st with outcomes := st.outcomes ++ [outcome] }
  else { st with outcomesDropped := true }

def registerRetention (counters : Dict String Int) : ApplyState V :=
  let addCounter := fun (stats : Dict String Int) (kv : String × Int) =>
    Dict.set stats kv.1 ((Dict.get? stats kv.1).getD 0 + kv.2)
  { st with retentionStats := counters.foldl addCounter st.retentionStats }

end ApplyState

/-- The id that `_sync_identity_index` hands on: the answer's, else the planned state's. -/
def resolvedIdOf (idField : String) (item : PlanItem) (payload : Value) : Value :=
  let shown := match payload with
    | .dict fields => Fields.read fields idField
    | _ => .null
  if shown.isNull then Fields.read item.desiredState idField else shown

def PlanItem.keyValues (item : PlanItem) : Fields :=
  Dict.update (Dict.update [] (item.sourceRef.getD [])) item.desiredState

namespace ImportApplyService

variable {V : Type} (service : ImportApplyService V) (ctx : ItemProcessContext V)

/-- A failed item: its diagnostics are registered and reported, one outcome is kept. -/
def failItem (item : PlanItem) (diags : List DiagnosticItem) (fatal : Bool)
    (st : ApplyState V) : ItemRun V :=
  let registered := diags.foldl (fun st diag => st.registerError ctx.catalog diag) st
  { result := ⟨0,0,1,fatal⟩
    state := registered.addOutcome ctx.maxItemOutcomes
      ⟨item.recordRef,item.op,"FAILED",item.targetId,diags⟩
    events := diags.map fun diag => .itemError item.recordRef item.op diag }

def handleBoundaryErrors (item : PlanItem) (diags : List DiagnosticItem) (st : ApplyState V) :
    ItemRun V :=
  failItem ctx item diags (diags.head?.any fun d => isFatal (ctx.catalog.classify d.code)) st

def handleExceptionFailure (item : PlanItem) (failure : ApplyFailure) (st : ApplyState V) :
    ItemRun V :=
  let diag := diagError ctx.catalog .apply failure.code failure.field (some failure.message)
    none none
  failItem ctx item [diag] false st

def handleFailedResult (item : PlanItem) (result : ExecutionResult) (st : ApplyState V) :
    ItemRun V :=
  let diag := translateExecutionResult ctx.catalog result
  failItem ctx item [diag] (isFatal (ctx.catalog.classify diag.code)) st

/-- The entries that the post-write sync of an item makes. -/
def indexEntries (item : PlanItem) (payload : Value) : List IdentityEntry :=
  match service.allowPostSuccessSideEffects, service.identitySyncer with
  | true, some syncer => syncer.entries ctx.dataset
      (resolvedIdOf (syncer.idFieldFor ctx.dataset) item payload) item.keyValues
  | _, _ => []

def syncIdentityIndex (item : PlanItem) (payload : Value) (now : String) (db : IdentityDb) :
    IdentityDb :=
  match service.identitySyncer with
  | some syncer => syncer.sync db ctx.dataset
      (resolvedIdOf (syncer.idFieldFor ctx.dataset) item payload) item.keyValues now
  | none => db

def retentionCallOf (item : PlanItem) : RetentionCall :=
  { dataset := ctx.dataset, op := item.op, sourceRef := item.sourceRef
    secretFields := item.secretFields, secretLifecycle := item.secretLifecycle
    runId := ctx.planRunId }

def successResult (item : PlanItem) : ItemProcessResult :=
  match item.op with
  | .create => ⟨1,0,0,false⟩
  | .update => ⟨0,1,0,false⟩
  | .other _ => ⟨0,0,0,false⟩

/-- The steps after the report of a success; the retention hook may still raise. -/
def postWrite (item : PlanItem) (payload : Value) (now : String) (st : ApplyState V) :
    ItemRun V :=
  if service.allowPostSuccessSideEffects then
    let st := { st with db := service.syncIdentityIndex ctx item payload now st.db }
    match service.secretRetention with
    | none => ⟨successResult item,st,[]⟩
    | some hook =>
      match hook (retentionCallOf ctx item) st.vault with
      | (.ok counters,vault) => ⟨successResult item,{ st with vault := vault }.registerRetention counters,[]⟩
      | (.error exc,vault) => handleExceptionFailure ctx item (.raised exc) { st with vault := vault }
  else ⟨successResult item,st,[]⟩

def handleSuccessItem (item : PlanItem) (payload : Value) (now : String) (st : ApplyState V) :
    ItemRun V :=
  ItemRun.after (.itemOk item.recordRef item.op item.targetId::
      (service.indexEntries ctx item payload).map .indexed)
    (service.postWrite ctx item payload now st)

/-- What the end of the executor's call makes of the item. -/
def settleItem (item : PlanItem) (now : String) (st : ApplyState V) :
    Except PyException ExecutionResult → ItemRun V
  | .error exc => handleBoundaryErrors ctx item [translateException ctx.catalog .apply exc none] st
  | .ok result =>
    if result.ok then service.handleSuccessItem ctx item result.responsePayload now st
    else handleFailedResult ctx item result st

def requestOf (item : PlanItem) (st : ApplyState V) : Except ApplyFailure RequestSpec :=
  match ctx.adapter with
  | none => .error (.raised ⟨"ValueError","Apply adapter is not configured"⟩)
  | some adapter => adapter.toRequest item st.vault

def processItem (item : PlanItem) (now : String) (st : ApplyState V) : ItemRun V :=
  match requestOf ctx item st with
  | .error failure => handleExceptionFailure ctx item failure st
  | .ok spec =>
    let execution := service.executor spec st.gateway
    ItemRun.after (execution.calls.map .called)
      (service.settleItem ctx item now { st with gateway := execution.state } execution.result)

end ImportApplyService

structure PlanMeta where
  runId : Option String
  dataset : Option String
  deriving DecidableEq, Repr

structure Plan where
  planMeta : PlanMeta
  summary : PlanSummary
  items : List PlanItem
  deriving DecidableEq, Repr

structure ApplyProgress (V : Type) where
  created : Nat
  updated : Nat
  failed : Nat
  actionsCount : Nat
  fatalError : Bool
  stopped : Bool
  state : ApplyState V
  events : List ApplyEvent

structure ApplyOptions where
  stopOnFirstError : Bool
  maxActions : Option Int
  deriving DecidableEq, Repr

namespace ImportApplyService

variable {V : Type} (service : ImportApplyService V) (ctx : ItemProcessContext V)
  (options : ApplyOptions) (clock : Nat → String)

def halted (p : ApplyProgress V) : Bool :=
  p.stopped || options.maxActions.any fun limit => decide (limit ≤ (p.actionsCount : Int))

/-- One round of the loop in `apply_plan`. -/
def step (p : ApplyProgress V) (item : PlanItem) : ApplyProgress V :=
  let run := service.processItem ctx item (clock p.actionsCount) p.state
  { created := p.created + run.result.createdInc
    updated := p.updated + run.result.updatedInc
    failed := p.failed + run.result.failedInc
    actionsCount := p.actionsCount + 1
    fatalError := p.fatalError || run.result.itemFatal
    stopped := options.stopOnFirstError && decide (0 < run.result.failedInc)
    state := run.state
    events := p.events ++ run.events }

def runItems : List PlanItem → ApplyProgress V → ApplyProgress V
  | [], p => p
  | item::rest, p => if halted options p then p else runItems rest (service.step ctx options clock p item)

/-- The items that the loop processes, each with the progress it meets. -/
def processed : List PlanItem → ApplyProgress V → List (PlanItem × ApplyProgress V)
  | [], _ => []
  | item::rest, p =>
    if halted options p then [] else (item,p)::processed rest (service.step ctx options clock p item)

def itemEvents (item : PlanItem) (p : ApplyProgress V) : List ApplyEvent :=
  (service.processItem ctx item (clock p.actionsCount) p.state).events

/-- Everything a run does to the outside comes from the items it processes, in order. -/
theorem runItems_events (items : List PlanItem) (p : ApplyProgress V) :
    (service.runItems ctx options clock items p).events = p.events ++
      (service.processed ctx options clock items p).flatMap fun ip =>
        service.itemEvents ctx clock ip.1 ip.2 := by
  induction items generalizing p with
  | nil => simp [runItems, processed]
  | cons item rest ih =>
    unfold runItems processed
    by_cases hhalt : halted options p = true
    · simp [hhalt]
    · have hevents : (service.step ctx options clock p item).events =
          p.events ++ service.itemEvents ctx clock item p := rfl
      simp [hhalt, ih, hevents, List.append_assoc]

end ImportApplyService

structure ApplySummary where
  created : Nat
  updated : Nat
  failed : Nat
  skipped : Nat
  itemsTotal : Nat
  rowsWithWarnings : Nat
  errorStats : Dict String Nat
  retentionStats : Dict String Int
  deriving DecidableEq, Repr

structure ApplyResult where
  summary : ApplySummary
  primaryCode : SystemErrorCode
  allCodes : List SystemErrorCode
  fatalError : Bool
  itemOutcomes : List ApplyItemOutcome
  outcomesTruncated : Bool
  deriving DecidableEq, Repr

def sortCodes (codes : List SystemErrorCode) : List SystemErrorCode :=
  codes.mergeSort fun a b => decide (a.value ≤ b.value)

def resolvePrimaryCode (codes : List SystemErrorCode) : SystemErrorCode :=
  let fatal := [SystemErrorCode.internalError, .authUnauthorized, .authForbidden].find? fun code =>
    codes.contains code && isFatal code
  if codes = [] then .ok
  else if codes = [.ok] then .ok
  else match fatal with
    | some code => code
    | none =>
      if .dataInvalid ∈ codes then .dataInvalid
      else if .conflict ∈ codes then .conflict
      else (sortCodes codes).headD .ok

namespace ImportApplyService

variable {V : Type} (service : ImportApplyService V)

def startProgress (gateway : GatewayState) (db : IdentityDb) (vault : V) : ApplyProgress V :=
  { created := 0, updated := 0, failed := 0, actionsCount := 0, fatalError := false
    stopped := false, events := []
    state := { gateway := gateway, db := db, vault := vault, errorStats := []
               retentionStats := [], systemCodes := [], outcomes := [], outcomesDropped := false } }

def resultOf (plan : Plan) (p : ApplyProgress V) : ApplyResult :=
  let codes := if p.state.systemCodes = [] then [.ok] else p.state.systemCodes
  { summary :=
      { created := p.created, updated := p.updated, failed := p.failed
        skipped := plan.summary.skipped, itemsTotal := p.actionsCount, rowsWithWarnings := 0
        errorStats := p.state.errorStats, retentionStats := p.state.retentionStats }
    primaryCode := resolvePrimaryCode codes
    allCodes := sortCodes codes
    fatalError := p.fatalError
    itemOutcomes := p.state.outcomes
    outcomesTruncated := p.state.outcomesDropped }

def contextOf (plan : Plan) (catalog : ErrorCatalog) (adapter : Option (OperationApplyAdapter V))
    (dataset : String) (maxItemOutcomes : Int) : ItemProcessContext V :=
  { catalog := catalog, adapter := adapter, dataset := dataset
    planRunId := plan.planMeta.runId, maxItemOutcomes := maxItemOutcomes }

def applyPlan (plan : Plan) (catalog : ErrorCatalog) (adapter : Option (OperationApplyAdapter V))
    (options : ApplyOptions) (maxItemOutcomes : Int) (clock : Nat → String)
    (start : ApplyProgress V) : Except PyException (ApplyResult × ApplyProgress V) :=
  match plan.planMeta.dataset.filter fun d => d != "" with
  | none => .error ⟨"ValueError","Plan meta.dataset is required for apply"⟩
  | some dataset =>
    let ctx := contextOf plan catalog adapter dataset maxItemOutcomes
    let final := service.runItems ctx options clock plan.items start
    .ok (resultOf plan final,final)

end ImportApplyService
end NexusEtl
