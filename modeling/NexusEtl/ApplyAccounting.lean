import NexusEtl.Apply

/-!
# The accounts of an apply run

An item is sent through the adapter and the executor, and after an acknowledged
write come the identity sync and the retention hook. Each of these steps may
raise, and each may change what lies outside the service. The report of a
success is sent before the steps that may still fail, so the run's counters and
its reports part exactly where one of those steps raises.
-/

set_option autoImplicit false

namespace NexusEtl
open NexusEtl.Library

/-- What lies outside the service: the target, the identity database and the vault. -/
structure Outside (V : Type) where
  gateway : GatewayState
  db : IdentityDb
  vault : V

abbrev OutsideCall (V α : Type) := Outside V → Except ApplyFailure α × Outside V

namespace ApplyState

variable {V : Type} (st : ApplyState V)

def outside : Outside V := ⟨st.gateway,st.db,st.vault⟩

def resume (o : Outside V) : ApplyState V :=
  { st with gateway := o.gateway, db := o.db, vault := o.vault }

end ApplyState

structure IdentitySyncPort (V : Type) where
  idFieldFor : String → String
  sync : String → Value → Fields → String → OutsideCall V Unit

structure ApplyPorts (V : Type) where
  toRequest : Option (PlanItem → OutsideCall V RequestSpec)
  execute : RequestSpec → Outside V → Except PyException (Option ExecutionResult) × Outside V
  identitySyncer : Option (IdentitySyncPort V)
  retentionHook : Option (RetentionCall → OutsideCall V (Dict String Int))
  allowPostSuccessSideEffects : Bool

namespace ApplyPorts

variable {V : Type} (ports : ApplyPorts V) (ctx : ItemProcessContext V)

def syncIdentityIndex (item : PlanItem) (payload : Value) (now : String) : OutsideCall V Unit :=
  match ports.identitySyncer with
  | none => fun o => (.ok (),o)
  | some syncer => syncer.sync ctx.dataset
      (resolvedIdOf (syncer.idFieldFor ctx.dataset) item payload) item.keyValues now

def retain (item : PlanItem) : OutsideCall V (Dict String Int) :=
  match ports.retentionHook with
  | none => fun o => (.ok [],o)
  | some hook => hook (ImportApplyService.retentionCallOf ctx item)

/-- The steps after the report of a success: the sync, then the retention hook. -/
def postWrite (item : PlanItem) (payload : Value) (now : String) :
    OutsideCall V (Dict String Int) := fun o =>
  if ports.allowPostSuccessSideEffects then
    match ports.syncIdentityIndex ctx item payload now o with
    | (.error failure,o) => (.error failure,o)
    | (.ok (),o) => ports.retain ctx item o
  else (.ok [],o)

def handleSuccessItem (item : PlanItem) (payload : Value) (now : String) (st : ApplyState V) :
    ItemRun V :=
  ItemRun.after [.itemOk item.recordRef item.op item.targetId]
    (match ports.postWrite ctx item payload now st.outside with
    | (.ok counters,o) =>
      ⟨ImportApplyService.successResult item,(st.resume o).registerRetention counters,[]⟩
    | (.error failure,o) =>
      ImportApplyService.handleExceptionFailure ctx item failure (st.resume o))

def handleEmptyResult (item : PlanItem) (st : ApplyState V) : ItemRun V :=
  let diag := diagError ctx.catalog .apply "INTERNAL_ERROR" none (some "empty execution result")
    none none
  ImportApplyService.failItem ctx item [diag] false st

def settleItem (item : PlanItem) (now : String) (st : ApplyState V) :
    Except PyException (Option ExecutionResult) → ItemRun V
  | .error exc => ImportApplyService.handleBoundaryErrors ctx item
      [translateException ctx.catalog .apply exc none] st
  | .ok none => handleEmptyResult ctx item st
  | .ok (some result) =>
    if result.ok then ports.handleSuccessItem ctx item result.responsePayload now st
    else ImportApplyService.handleFailedResult ctx item result st

def requestOf (item : PlanItem) : OutsideCall V RequestSpec :=
  match ports.toRequest with
  | none => fun o => (.error (.raised ⟨"ValueError","Apply adapter is not configured"⟩),o)
  | some toRequest => toRequest item

/-- `_process_item`, with every step that may raise. -/
def processItem (item : PlanItem) (now : String) (st : ApplyState V) : ItemRun V :=
  match ports.requestOf item st.outside with
  | (.error failure,o) => ImportApplyService.handleExceptionFailure ctx item failure (st.resume o)
  | (.ok spec,o) =>
    let execution := ports.execute spec o
    ports.settleItem ctx item now (st.resume execution.2) execution.1

/-- The payload of the target's acknowledgement, and what lies outside after it. -/
def acknowledged (item : PlanItem) (o : Outside V) : Option (Value × Outside V) :=
  match ports.requestOf item o with
  | (.error _,_) => none
  | (.ok spec,o) => match ports.execute spec o with
    | (.ok (some result),o) => if result.ok then some (result.responsePayload,o) else none
    | _ => none

/-- An acknowledged item is of a known operation and no step after its write raises. -/
def SettlesCleanly (item : PlanItem) (now : String) (o : Outside V) : Prop :=
  ∀ payload after, ports.acknowledged item o = some (payload,after) →
    (item.op = .create ∨ item.op = .update) ∧
      ∃ counters, (ports.postWrite ctx item payload now after).1 = .ok counters

end ApplyPorts

section Items

variable {V : Type} {ports : ApplyPorts V} {ctx : ItemProcessContext V} {item : PlanItem}
  {now : String} {st : ApplyState V}

def ApplyEvent.record? : ApplyEvent → Option RecordRef
  | .itemOk ref _ _ => some ref
  | .itemError ref _ _ => some ref
  | _ => none

/-- An item that failed and was reported as failed, once. -/
structure ItemRun.FailedOnce (run : ItemRun V) (item : PlanItem) : Prop where
  created : run.result.createdInc = 0
  updated : run.result.updatedInc = 0
  failed : run.result.failedInc = 1
  reported : run.events.map ApplyEvent.record? = [some item.recordRef]

theorem failItem_failedOnce (diag : DiagnosticItem) (fatal : Bool) :
    (ImportApplyService.failItem ctx item [diag] fatal st).FailedOnce item :=
  ⟨rfl,rfl,rfl,rfl⟩

namespace ApplyPorts

theorem processItem_refused (h : ports.acknowledged item st.outside = none) :
    (ports.processItem ctx item now st).FailedOnce item := by
  unfold processItem
  unfold acknowledged at h
  cases hrequest : ports.requestOf item st.outside with
  | mk request o =>
    rw [hrequest] at h
    cases request with
    | error failure => exact failItem_failedOnce _ _
    | ok spec =>
      dsimp only at h ⊢
      cases hexec : ports.execute spec o with
      | mk answer after =>
        rw [hexec] at h
        cases answer with
        | error exc => exact failItem_failedOnce _ _
        | ok result =>
          cases result with
          | none => exact failItem_failedOnce _ _
          | some result =>
            have hrefused : result.ok = false := by
              by_contra hok
              simp [hok] at h
            simp only [settleItem, hrefused]
            exact failItem_failedOnce _ _

theorem processItem_acknowledged {payload : Value} {after : Outside V}
    (h : ports.acknowledged item st.outside = some (payload,after)) :
    ports.processItem ctx item now st =
      ports.handleSuccessItem ctx item payload now (st.resume after) := by
  unfold processItem
  unfold acknowledged at h
  cases hrequest : ports.requestOf item st.outside with
  | mk request o =>
    rw [hrequest] at h
    cases request with
    | error failure => cases h
    | ok spec =>
      dsimp only at h ⊢
      cases hexec : ports.execute spec o with
      | mk answer world =>
        rw [hexec] at h
        cases answer with
        | error exc => cases h
        | ok result =>
          cases result with
          | none => cases h
          | some result =>
            by_cases hok : result.ok = true
            · simp only [hok, if_true, Option.some.injEq, Prod.mk.injEq] at h
              rw [← h.1, ← h.2]
              simp only [settleItem, hok, if_true]
            · simp [hok] at h

theorem handleSuccessItem_clean {payload : Value} {counters : Dict String Int}
    (h : (ports.postWrite ctx item payload now st.outside).1 = .ok counters) :
    (ports.handleSuccessItem ctx item payload now st).result =
        ImportApplyService.successResult item ∧
      (ports.handleSuccessItem ctx item payload now st).events.map ApplyEvent.record? =
        [some item.recordRef] := by
  unfold handleSuccessItem
  cases hpost : ports.postWrite ctx item payload now st.outside with
  | mk ended o =>
    rw [hpost] at h
    cases h
    exact ⟨rfl,rfl⟩

/-- The report of the success is out already when a later step raises. -/
theorem handleSuccessItem_raised {payload : Value} {failure : ApplyFailure}
    (h : (ports.postWrite ctx item payload now st.outside).1 = .error failure) :
    (ports.handleSuccessItem ctx item payload now st).result.failedInc = 1 ∧
      (ports.handleSuccessItem ctx item payload now st).events.length = 2 := by
  unfold handleSuccessItem
  cases hpost : ports.postWrite ctx item payload now st.outside with
  | mk ended o =>
    rw [hpost] at h
    cases h
    exact ⟨rfl,rfl⟩

/-- What the accounts owe to one item. -/
structure ItemAccounted (ports : ApplyPorts V) (ctx : ItemProcessContext V) (item : PlanItem)
    (now : String) (st : ApplyState V) : Prop where
  reported : (ports.processItem ctx item now st).events.map ApplyEvent.record? =
    [some item.recordRef]
  notFailed : (ports.acknowledged item st.outside).isSome = true →
    (ports.processItem ctx item now st).result.failedInc = 0
  counted : (ports.acknowledged item st.outside).isSome = true →
    (ports.processItem ctx item now st).result.createdInc = 1 ∨
      (ports.processItem ctx item now st).result.updatedInc = 1

theorem successResult_counted_iff :
    ((ImportApplyService.successResult item).createdInc = 1 ∨
      (ImportApplyService.successResult item).updatedInc = 1) ↔
      item.op = .create ∨ item.op = .update := by
  unfold ImportApplyService.successResult
  cases item.op <;> simp

theorem itemAccounted_iff :
    ports.ItemAccounted ctx item now st ↔ ports.SettlesCleanly ctx item now st.outside := by
  cases hack : ports.acknowledged item st.outside with
  | none =>
    have hfailed : (ports.processItem ctx item now st).FailedOnce item := processItem_refused hack
    constructor
    · intro _ payload after h
      rw [hack] at h
      cases h
    · intro _
      exact ⟨hfailed.reported,by simp [hack],by simp [hack]⟩
  | some answer =>
    have hrun : ports.processItem ctx item now st =
        ports.handleSuccessItem ctx item answer.1 now (st.resume answer.2) :=
      processItem_acknowledged hack
    have houtside : (st.resume answer.2).outside = answer.2 := rfl
    constructor
    · intro h payload after hanswer
      rw [hack] at hanswer
      cases hanswer
      have hisSome : (ports.acknowledged item st.outside).isSome = true := by rw [hack]; rfl
      cases hpost : (ports.postWrite ctx item payload now after).1 with
      | error failure =>
        have hpost' : (ports.postWrite ctx item payload now (st.resume after).outside).1 =
            .error failure := hpost
        have hraised := (handleSuccessItem_raised hpost').1
        rw [← hrun, h.notFailed hisSome] at hraised
        cases hraised
      | ok counters =>
        have hpost' : (ports.postWrite ctx item payload now (st.resume after).outside).1 =
            .ok counters := hpost
        have hclean := (handleSuccessItem_clean hpost').1
        have hcounted := h.counted hisSome
        rw [hrun, hclean] at hcounted
        exact ⟨successResult_counted_iff.mp hcounted,counters,rfl⟩
    · intro h
      obtain ⟨hop,counters,hpost⟩ := h answer.1 answer.2 hack
      have hpost' : (ports.postWrite ctx item answer.1 now (st.resume answer.2).outside).1 =
          .ok counters := hpost
      obtain ⟨hresult,hevents⟩ := handleSuccessItem_clean hpost'
      refine ⟨by rw [hrun, hevents],fun _ => ?_,fun _ => ?_⟩
      · rw [hrun, hresult]
        unfold ImportApplyService.successResult
        cases item.op <;> rfl
      · rw [hrun, hresult]
        exact successResult_counted_iff.mpr hop

/-- An accounted item raises exactly one of the three counters, by one. -/
theorem ItemAccounted.increments (h : ports.ItemAccounted ctx item now st) :
    (ports.processItem ctx item now st).result.createdInc +
      (ports.processItem ctx item now st).result.updatedInc +
      (ports.processItem ctx item now st).result.failedInc = 1 := by
  cases hack : ports.acknowledged item st.outside with
  | none =>
    have hfailed : (ports.processItem ctx item now st).FailedOnce item := processItem_refused hack
    rw [hfailed.created, hfailed.updated, hfailed.failed]
  | some answer =>
    obtain ⟨hop,counters,hpost⟩ := itemAccounted_iff.mp h answer.1 answer.2 hack
    have hpost' : (ports.postWrite ctx item answer.1 now (st.resume answer.2).outside).1 =
        .ok counters := hpost
    rw [processItem_acknowledged hack, (handleSuccessItem_clean hpost').1]
    unfold ImportApplyService.successResult
    rcases hop with hop | hop
    · simp only [hop]
    · simp only [hop]

end ApplyPorts
end Items

namespace ApplyPorts

variable {V : Type} (ports : ApplyPorts V) (ctx : ItemProcessContext V)
  (options : ApplyOptions) (clock : Nat → String)

def itemRun (p : ApplyProgress V) (item : PlanItem) : ItemRun V :=
  ports.processItem ctx item (clock p.actionsCount) p.state

def step (p : ApplyProgress V) (item : PlanItem) : ApplyProgress V :=
  let run := ports.itemRun ctx clock p item
  { created := p.created + run.result.createdInc
    updated := p.updated + run.result.updatedInc
    failed := p.failed + run.result.failedInc
    actionsCount := p.actionsCount + 1
    fatalError := p.fatalError || run.result.itemFatal
    stopped := options.stopOnFirstError && decide (0 < run.result.failedInc)
    state := run.state
    events := p.events ++ run.events }

def runItems : List PlanItem → ApplyProgress V → ApplyProgress V
  | [], p => p
  | item::rest, p =>
    if ImportApplyService.halted options p then p
    else runItems rest (ports.step ctx options clock p item)

/-- The items that the loop reaches, each with the progress it meets. -/
def processed : List PlanItem → ApplyProgress V → List (PlanItem × ApplyProgress V)
  | [], _ => []
  | item::rest, p =>
    if ImportApplyService.halted options p then []
    else (item,p)::processed rest (ports.step ctx options clock p item)

def applyPlan (plan : Plan) (catalog : ErrorCatalog) (options : ApplyOptions)
    (maxItemOutcomes : Int) (clock : Nat → String) (start : ApplyProgress V) :
    Except PyException (ApplyResult × ApplyProgress V) :=
  match plan.planMeta.dataset.filter fun d => d != "" with
  | none => .error ⟨"ValueError","Plan meta.dataset is required for apply"⟩
  | some dataset =>
    let ctx := ImportApplyService.contextOf plan catalog none dataset maxItemOutcomes
    let final := ports.runItems ctx options clock plan.items start
    .ok (ImportApplyService.resultOf plan final,final)

end ApplyPorts

namespace ApplyPorts

variable {V : Type} {ports : ApplyPorts V} {ctx : ItemProcessContext V}
  {options : ApplyOptions} {clock : Nat → String} {p : ApplyProgress V} {items : List PlanItem}

theorem processed_is_initial :
    (ports.processed ctx options clock items p).map Prod.fst <+: items := by
  induction items generalizing p with
  | nil => simp [processed]
  | cons item rest ih =>
    unfold processed
    by_cases hhalt : ImportApplyService.halted options p = true
    · simp [hhalt]
    · simpa [hhalt] using ih

theorem runItems_actionsCount :
    (ports.runItems ctx options clock items p).actionsCount =
      p.actionsCount + (ports.processed ctx options clock items p).length := by
  induction items generalizing p with
  | nil => rfl
  | cons item rest ih =>
    unfold runItems processed
    by_cases hhalt : ImportApplyService.halted options p = true
    · simp [hhalt]
    · have hstep : (ports.step ctx options clock p item).actionsCount = p.actionsCount + 1 := rfl
      simp only [hhalt, if_false, ih, hstep, List.length_cons, Bool.false_eq_true]
      omega

theorem runItems_reports :
    (ports.runItems ctx options clock items p).events = p.events ++
      (ports.processed ctx options clock items p).flatMap fun ip =>
        (ports.itemRun ctx clock ip.2 ip.1).events := by
  induction items generalizing p with
  | nil => simp [runItems, processed]
  | cons item rest ih =>
    unfold runItems processed
    by_cases hhalt : ImportApplyService.halted options p = true
    · simp [hhalt]
    · have hstep : (ports.step ctx options clock p item).events =
          p.events ++ (ports.itemRun ctx clock p item).events := rfl
      simp [hhalt, ih, hstep, List.append_assoc]

def Balanced (p : ApplyProgress V) : Prop :=
  p.actionsCount = p.created + p.updated + p.failed

theorem Balanced.step {item : PlanItem} (h : Balanced p)
    (hitem : ports.ItemAccounted ctx item (clock p.actionsCount) p.state) :
    Balanced (ports.step ctx options clock p item) := by
  have hinc := hitem.increments
  unfold Balanced at h
  show p.actionsCount + 1 = p.created + (ports.itemRun ctx clock p item).result.createdInc +
    (p.updated + (ports.itemRun ctx clock p item).result.updatedInc) +
    (p.failed + (ports.itemRun ctx clock p item).result.failedInc)
  unfold itemRun
  omega

theorem Balanced.runItems (h : Balanced p)
    (hitems : ∀ ip ∈ ports.processed ctx options clock items p,
      ports.ItemAccounted ctx ip.1 (clock ip.2.actionsCount) ip.2.state) :
    Balanced (ports.runItems ctx options clock items p) := by
  induction items generalizing p with
  | nil => exact h
  | cons item rest ih =>
    unfold ApplyPorts.runItems
    unfold processed at hitems
    by_cases hhalt : ImportApplyService.halted options p = true
    · simpa only [hhalt, if_true] using h
    · simp only [hhalt, if_false, Bool.false_eq_true] at hitems ⊢
      apply ih (h.step (hitems (item,p) List.mem_cons_self))
      intro ip hip
      exact hitems ip (List.mem_cons_of_mem _ hip)

/-- What the accounts of a whole run owe: its items in their order, each counted once and
reported once, and no acknowledged write among the failures. -/
structure Accounted (ports : ApplyPorts V) (ctx : ItemProcessContext V) (options : ApplyOptions)
    (clock : Nat → String) (items : List PlanItem) (start : ApplyProgress V)
    (summary : ApplySummary) (reports : List ApplyEvent) : Prop where
  inOrder : (ports.processed ctx options clock items start).map Prod.fst <+: items
  counted : summary.itemsTotal = (ports.processed ctx options clock items start).length
  balanced : summary.itemsTotal = summary.created + summary.updated + summary.failed
  reported : reports.map ApplyEvent.record? =
    (ports.processed ctx options clock items start).map fun ip => some ip.1.recordRef
  items : ∀ ip ∈ ports.processed ctx options clock items start,
    ports.ItemAccounted ctx ip.1 (clock ip.2.actionsCount) ip.2.state

theorem applyPlan_spec {plan : Plan} {catalog : ErrorCatalog} {maxItemOutcomes : Int}
    {result : ApplyResult} {start final : ApplyProgress V}
    (h : ports.applyPlan plan catalog options maxItemOutcomes clock start = .ok (result,final)) :
    final = ports.runItems (ImportApplyService.contextOf plan catalog none
        (plan.planMeta.dataset.getD "") maxItemOutcomes) options clock plan.items start ∧
      result = ImportApplyService.resultOf plan final := by
  unfold applyPlan at h
  cases hdataset : plan.planMeta.dataset.filter fun d => d != "" with
  | none =>
    rw [hdataset] at h
    cases h
  | some dataset =>
    rw [hdataset] at h
    cases h
    rw [(Option.filter_eq_some_iff.mp hdataset).1]
    exact ⟨rfl,rfl⟩

/-- The accounts of a run hold exactly when each acknowledged item is a create or an update
and no step after its write raises. -/
theorem apply_accounted_iff (ports : ApplyPorts V) (plan : Plan) (catalog : ErrorCatalog)
    (options : ApplyOptions) (maxItemOutcomes : Int) (clock : Nat → String)
    (gateway : GatewayState) (db : IdentityDb) (vault : V)
    (result : ApplyResult) (final : ApplyProgress V)
    (h : ports.applyPlan plan catalog options maxItemOutcomes clock
      (ImportApplyService.startProgress gateway db vault) = .ok (result,final)) :
    let ctx := ImportApplyService.contextOf plan catalog none (plan.planMeta.dataset.getD "")
      maxItemOutcomes
    let start := ImportApplyService.startProgress gateway db vault
    Accounted ports ctx options clock plan.items start result.summary final.events ↔
      ∀ ip ∈ ports.processed ctx options clock plan.items start,
        ports.SettlesCleanly ctx ip.1 (clock ip.2.actionsCount) ip.2.state.outside := by
  intro ctx start
  obtain ⟨hfinal,hresult⟩ := applyPlan_spec h
  have htotal : result.summary.itemsTotal = final.actionsCount := by rw [hresult]; rfl
  have hcount : final.actionsCount = (ports.processed ctx options clock plan.items start).length := by
    rw [hfinal, runItems_actionsCount]
    exact Nat.zero_add _
  constructor
  · intro haccounted ip hip
    exact itemAccounted_iff.mp (haccounted.items ip hip)
  · intro hclean
    have hitems : ∀ ip ∈ ports.processed ctx options clock plan.items start,
        ports.ItemAccounted ctx ip.1 (clock ip.2.actionsCount) ip.2.state :=
      fun ip hip => itemAccounted_iff.mpr (hclean ip hip)
    have hbalanced : Balanced final := by
      rw [hfinal]
      exact Balanced.runItems rfl hitems
    have hevents : final.events = (ports.processed ctx options clock plan.items start).flatMap
        fun ip => (ports.itemRun ctx clock ip.2 ip.1).events := by
      rw [hfinal, runItems_reports]
      rfl
    refine ⟨processed_is_initial,htotal.trans hcount,?_,?_,hitems⟩
    · rw [htotal, hresult]
      exact hbalanced
    · rw [hevents, List.map_flatMap, List.map_eq_flatMap]
      apply List.flatMap_congr
      intro ip hip
      exact (hitems ip hip).reported

end ApplyPorts

namespace ImportApplyService

variable {V : Type} (service : ImportApplyService V) (adapter : Option (OperationApplyAdapter V))

/-- The service of a real run: its executor always answers and its sync never raises. -/
def ports : ApplyPorts V where
  toRequest := adapter.map fun a item o => (a.toRequest item o.vault,o)
  execute spec o :=
    let execution := service.executor spec o.gateway
    (execution.result.map some,{ o with gateway := execution.state })
  identitySyncer := service.identitySyncer.map fun syncer =>
    ⟨syncer.idFieldFor,fun dataset resolvedId values now o =>
      (.ok (),{ o with db := syncer.sync o.db dataset resolvedId values now })⟩
  retentionHook := service.secretRetention.map fun hook call o =>
    ((hook call o.vault).1.mapError .raised,{ o with vault := (hook call o.vault).2 })
  allowPostSuccessSideEffects := service.allowPostSuccessSideEffects

end ImportApplyService

namespace ItemRun

variable {V : Type}

/-- What the telemetry sink sees of an item. -/
def reports (run : ItemRun V) : ItemRun V :=
  { run with events := run.events.filter fun e => e.record?.isSome }

theorem reports_after_report {e : ApplyEvent} (h : e.record?.isSome = true) (es : List ApplyEvent)
    (run : ItemRun V) : (run.after (e::es)).reports = (run.after es).reports.after [e] := by
  simp [reports, after, h]

theorem reports_after_other {es : List ApplyEvent} (h : ∀ e ∈ es, e.record? = none)
    (run : ItemRun V) : (run.after es).reports = run.reports := by
  have hnone : es.filter (fun e => e.record?.isSome) = [] := by
    apply List.filter_eq_nil_iff.mpr
    intro e he
    simp [h e he]
  simp [reports, after, hnone]

end ItemRun

namespace ImportApplyService

variable {V : Type} {service : ImportApplyService V} {ctx : ItemProcessContext V}
  {item : PlanItem} {now : String} {st : ApplyState V}

theorem failItem_reports (diags : List DiagnosticItem) (fatal : Bool) :
    (failItem ctx item diags fatal st).reports = failItem ctx item diags fatal st := by
  have hall : ((failItem ctx item diags fatal st).events.filter fun e => e.record?.isSome) =
      (failItem ctx item diags fatal st).events := by
    apply List.filter_eq_self.mpr
    intro e he
    obtain ⟨diag,_,rfl⟩ := List.mem_map.mp he
    rfl
  unfold ItemRun.reports
  rw [hall]

theorem ports_handleSuccessItem (payload : Value) :
    (service.ports ctx.adapter).handleSuccessItem ctx item payload now st =
      (service.handleSuccessItem ctx item payload now st).reports := by
  unfold handleSuccessItem
  rw [ItemRun.reports_after_report rfl, ItemRun.reports_after_other (by
    intro e he
    obtain ⟨entry,_,rfl⟩ := List.mem_map.mp he
    rfl)]
  unfold ApplyPorts.handleSuccessItem
  congr 1
  unfold ApplyPorts.postWrite postWrite syncIdentityIndex ApplyPorts.syncIdentityIndex
    ApplyPorts.retain ports
  cases service.allowPostSuccessSideEffects with
  | false => rfl
  | true =>
    have hvault : st.outside.vault = st.vault := rfl
    cases service.identitySyncer <;> cases service.secretRetention with
    | none => rfl
    | some hook =>
      simp only [if_true, Option.map_some, Option.map_none, hvault]
      cases hook (retentionCallOf ctx item) st.vault with
      | mk ended vault =>
        cases ended with
        | error exc => exact (failItem_reports _ _).symm
        | ok counters => rfl

theorem ports_settleItem (ended : Except PyException ExecutionResult) :
    (service.ports ctx.adapter).settleItem ctx item now st (ended.map some) =
      (service.settleItem ctx item now st ended).reports := by
  cases ended with
  | error exc => exact (failItem_reports _ _).symm
  | ok result =>
    unfold settleItem
    by_cases hok : result.ok = true
    · simp only [Except.map, ApplyPorts.settleItem, hok, if_true]
      exact ports_handleSuccessItem _
    · simp only [Except.map, ApplyPorts.settleItem, hok]
      exact (failItem_reports _ _).symm

theorem ports_requestOf :
    (service.ports ctx.adapter).requestOf item st.outside = (requestOf ctx item st,st.outside) := by
  unfold ApplyPorts.requestOf requestOf ports
  cases ctx.adapter <;> rfl

/-- The general model runs the service as the service itself does, up to the events that no
telemetry sink sees. -/
theorem ports_processItem :
    (service.ports ctx.adapter).processItem ctx item now st =
      (service.processItem ctx item now st).reports := by
  unfold ApplyPorts.processItem processItem
  rw [ports_requestOf]
  cases requestOf ctx item st with
  | error failure => exact (failItem_reports _ _).symm
  | ok spec =>
    dsimp only
    rw [ItemRun.reports_after_other (by
      intro e he
      obtain ⟨call,_,rfl⟩ := List.mem_map.mp he
      rfl), ← ports_settleItem]
    rfl

end ImportApplyService

namespace ApplyProgress

variable {V : Type}

def reports (p : ApplyProgress V) : ApplyProgress V :=
  { p with events := p.events.filter fun e => e.record?.isSome }

end ApplyProgress

namespace ImportApplyService

variable {V : Type} (service : ImportApplyService V) (ctx : ItemProcessContext V)
  (options : ApplyOptions) (clock : Nat → String)

theorem ports_step (p : ApplyProgress V) (item : PlanItem) :
    (service.ports ctx.adapter).step ctx options clock p.reports item =
      (service.step ctx options clock p item).reports := by
  have hrun : (service.ports ctx.adapter).itemRun ctx clock p.reports item =
      (service.processItem ctx item (clock p.actionsCount) p.state).reports := ports_processItem
  unfold ApplyPorts.step
  rw [hrun]
  simp only [step, ApplyProgress.reports, ItemRun.reports, List.filter_append]
  rfl

/-- A run of the service is a run of the general model. -/
theorem ports_runItems (items : List PlanItem) (p : ApplyProgress V) :
    (service.ports ctx.adapter).runItems ctx options clock items p.reports =
      (service.runItems ctx options clock items p).reports := by
  induction items generalizing p with
  | nil => rfl
  | cons item rest ih =>
    unfold ApplyPorts.runItems runItems
    have hhalted : halted options p.reports = halted options p := rfl
    rw [hhalted, ports_step, ih]
    by_cases hhalt : halted options p = true
    · simp only [hhalt, if_true]
    · simp only [hhalt, if_false, Bool.false_eq_true]

end ImportApplyService

namespace ApplyPorts

/-- The target acknowledges the write of every request. -/
def acknowledging (sync : OutsideCall Unit Unit) : ApplyPorts Unit :=
  { toRequest := some fun _ o =>
      ((RequestSpec.operation "users.upsert" (.dict []) none).mapError .raised,o)
    execute := fun _ o => (.ok (some ⟨true,.int 200,.null,.none,none,none,none,none⟩),o)
    identitySyncer := some ⟨fun _ => "_id",fun _ _ _ _ => sync⟩
    retentionHook := none
    allowPostSuccessSideEffects := true }

/-- The identity database is locked by another process when the sync writes to it. -/
def lockedSync : OutsideCall Unit Unit := fun o =>
  (.error (.raised ⟨"OperationalError","database is locked"⟩),o)

def hirePlan : Plan :=
  ⟨⟨some "run-1",some "employees"⟩,⟨1,1,0,1,0,0⟩,
    [{ rowId := "line:2", lineNo := none, op := .create, targetId := .str "u-1"
       desiredState := [("_id",.str "u-1")], changes := [], sourceRef := none
       secretFields := [], secretLifecycle := none }]⟩

def hireStart : ApplyProgress Unit :=
  ImportApplyService.startProgress ⟨0,0,0,0⟩ IdentityDb.empty ()

def hireRun (sync : OutsideCall Unit Unit) : ApplyResult × ApplyProgress Unit :=
  let ctx := ImportApplyService.contextOf hirePlan [] none "employees" 10
  let final := (acknowledging sync).runItems ctx ⟨false,none⟩ (fun _ => "now") hirePlan.items
    hireStart
  (ImportApplyService.resultOf hirePlan final,final)

/-- The write of the one item is acknowledged, the sync after it raises: the item is reported
as a success and as a failure, and is counted as failed. -/
theorem acknowledged_item_counted_failed :
    (acknowledging lockedSync).applyPlan hirePlan [] ⟨false,none⟩ 10 (fun _ => "now") hireStart =
        .ok (hireRun lockedSync) ∧
      (hireRun lockedSync).1.summary.created = 0 ∧ (hireRun lockedSync).1.summary.failed = 1 ∧
      (hireRun lockedSync).2.events.map ApplyEvent.record? =
        [some ⟨"line:2",none⟩,some ⟨"line:2",none⟩] ∧
      ¬Accounted (acknowledging lockedSync)
        (ImportApplyService.contextOf hirePlan [] none "employees" 10) ⟨false,none⟩
        (fun _ => "now") hirePlan.items hireStart (hireRun lockedSync).1.summary
        (hireRun lockedSync).2.events := by
  have hreports : (hireRun lockedSync).2.events.map ApplyEvent.record? =
      [some ⟨"line:2",none⟩,some ⟨"line:2",none⟩] := by decide
  refine ⟨rfl,by decide,by decide,hreports,fun h => ?_⟩
  have hlength := congrArg List.length h.reported
  rw [hreports, List.length_map, ← h.counted] at hlength
  revert hlength
  decide

theorem apply_accounted_iff_hire :
    Accounted (acknowledging fun o => (.ok (),o))
        (ImportApplyService.contextOf hirePlan [] none "employees" 10) ⟨false,none⟩
        (fun _ => "now") hirePlan.items hireStart (hireRun fun o => (.ok (),o)).1.summary
        (hireRun fun o => (.ok (),o)).2.events ↔
      ∀ ip ∈ (acknowledging fun o => (.ok (),o)).processed
          (ImportApplyService.contextOf hirePlan [] none "employees" 10) ⟨false,none⟩
          (fun _ => "now") hirePlan.items hireStart,
        (acknowledging fun o => (.ok (),o)).SettlesCleanly
          (ImportApplyService.contextOf hirePlan [] none "employees" 10) ip.1 "now"
          ip.2.state.outside :=
  apply_accounted_iff (acknowledging fun o => (.ok (),o)) hirePlan [] ⟨false,none⟩ 10
    (fun _ => "now") ⟨0,0,0,0⟩ IdentityDb.empty () (hireRun fun o => (.ok (),o)).1
    (hireRun fun o => (.ok (),o)).2 rfl

end ApplyPorts
end NexusEtl
