import NexusEtl.Apply

/-!
# Agreement on the id of an applied record

The plan fixes an id for a record and other items copy it into their link
fields. A retry may draw a new one before the target takes the record. The
module compares the id under which the target took the record with the id that
the item reports, the ids its sync enters into the identity index and the ids in
the link fields of the plan.
-/

set_option autoImplicit false

namespace NexusEtl
open NexusEtl.Library

def TargetSpec.operationAddressed (ts : TargetSpec) (name : String) : Bool :=
  match ts.getCompiledOperation name with
  | .ok op => op.addressed
  | .error _ => false

/-- The id under which a taken request was accepted: the one that its path names, else the one
that the target assigned. -/
def takenAs (ts : TargetSpec) (world : TargetWorld) (call : DriverCall) : String :=
  if ts.operationAddressed call.spec.operationAlias then (call.spec.targetId?.getD .null).pyStr
  else world.assigns call.number

namespace ApplyEvent

def taken? (ts : TargetSpec) (world : TargetWorld) : ApplyEvent → Option String
  | .called call => if call.answer.ok then some (takenAs ts world call) else none
  | _ => none

def entry? : ApplyEvent → Option IdentityEntry
  | .indexed entry => some entry
  | _ => none

def isError : ApplyEvent → Bool
  | .itemError _ _ _ => true
  | _ => false

end ApplyEvent

def acceptedId (ts : TargetSpec) (world : TargetWorld) (events : List ApplyEvent) :
    Option String :=
  events.findSome? (ApplyEvent.taken? ts world)

def ItemSucceeded (item : PlanItem) (events : List ApplyEvent) : Prop :=
  ∃ v, .itemOk item.recordRef item.op v ∈ events

/-- The id that an answer shows after redaction. -/
def shownId (idField : String) : Value → Value
  | .dict fields => Fields.read fields idField
  | _ => .null

namespace ImportApplyService

variable {V : Type} (service : ImportApplyService V) (ctx : ItemProcessContext V)

/-- The keys of an item that the post-write sync enters into the index. -/
def indexKeys (item : PlanItem) : List String :=
  match service.allowPostSuccessSideEffects, service.identitySyncer with
  | true, some syncer => IdentityIndexSyncer.keysOf
      ((Dict.get? syncer.identityKeys ctx.dataset).getD []) item.keyValues
  | _, _ => []

def idField : String :=
  service.identitySyncer.elim "_id" fun syncer => syncer.idFieldFor ctx.dataset

/-- One id for the record: the target's, the reported one, the one of every index key of the
item, and the one of every link field of the plan that names the record. -/
structure IdsAgreeOn (plan : Plan) (linkFields : List String) (item : PlanItem)
    (events : List ApplyEvent) (id : String) : Prop where
  reported : ∀ ref op v, .itemOk ref op v ∈ events → v.pyStr = id
  indexed : events.filterMap ApplyEvent.entry? =
    (service.indexKeys ctx item).map fun key => ⟨ctx.dataset,key,id⟩
  linked : ∀ other ∈ plan.items, ∀ f ∈ linkFields,
    (Fields.read other.desiredState f).pyStr = item.targetId.pyStr →
      (Fields.read other.desiredState f).pyStr = id

def IdsAgree (ts : TargetSpec) (world : TargetWorld) (plan : Plan) (linkFields : List String)
    (item : PlanItem) (events : List ApplyEvent) : Prop :=
  ∃ id, acceptedId ts world events = some id ∧
    service.IdsAgreeOn ctx plan linkFields item events id

/-- The answers let the target take the item under its planned id: an addressed request is not
changed on the way and its id has no blanks around it, or the target assigns that id itself. -/
def TakenAsPlanned (ts : TargetSpec) (world : TargetWorld) (name : String) (item : PlanItem)
    (start m : Nat) : Prop :=
  if ts.operationAddressed name then
    (∀ j, start ≤ j → j < m → ts.asksMutation (world.answers j) = false) ∧
      Text.strip item.targetId.pyStr = item.targetId.pyStr
  else world.assigns m = item.targetId.pyStr

/-- The redacted answer shows the planned id, or it shows none and the planned state holds it. -/
def ShownAsPlanned (ts : TargetSpec) (item : PlanItem) (resp : DriverResponse) : Prop :=
  let shown := shownId (service.idField ctx) (ts.safeBody resp.payload)
  let desired := Fields.read item.desiredState (service.idField ctx)
  (shown.isNull = false ∧
      IdentityIndexSyncer.normalizeValue shown = some item.targetId.pyStr) ∨
    (shown.isNull = true ∧
      IdentityIndexSyncer.normalizeValue desired = some item.targetId.pyStr)

/-- The condition on the answers from a position on and on the planned item. -/
def IdsPlanned (ts : TargetSpec) (world : TargetWorld) (name : String) (item : PlanItem)
    (start : Nat) : Prop :=
  ∃ m resp, FirstOk world.answers start m ∧ world.answers m = .response resp ∧
    TakenAsPlanned ts world name item start m ∧
    (service.indexKeys ctx item = [] ∨ service.ShownAsPlanned ctx ts item resp)

variable {service ctx}

theorem filterMap_entry?_errors {errors : List ApplyEvent}
    (h : ∀ e ∈ errors, ApplyEvent.isError e = true) : errors.filterMap ApplyEvent.entry? = [] := by
  rw [List.filterMap_eq_nil_iff]
  intro e he
  have herror := h e he
  cases e <;> first | rfl | cases herror

theorem filterMap_entry?_calls (calls : List DriverCall) :
    (calls.map ApplyEvent.called).filterMap ApplyEvent.entry? = [] := by
  rw [List.filterMap_eq_nil_iff]
  intro e he
  obtain ⟨c,_,rfl⟩ := List.mem_map.mp he
  rfl

theorem filterMap_entry?_entries (entries : List IdentityEntry) :
    (entries.map ApplyEvent.indexed).filterMap ApplyEvent.entry? = entries := by
  simp [List.filterMap_map, Function.comp_def, ApplyEvent.entry?]

theorem failItem_events {item : PlanItem} {diags : List DiagnosticItem} {fatal : Bool}
    {st : ApplyState V} {e : ApplyEvent} (h : e ∈ (failItem ctx item diags fatal st).events) :
    e.isError = true := by
  obtain ⟨d,_,rfl⟩ := List.mem_map.mp h
  rfl

theorem postWrite_events {item : PlanItem} {payload : Value} {now : String}
    {st : ApplyState V} {e : ApplyEvent}
    (h : e ∈ (service.postWrite ctx item payload now st).events) : e.isError = true := by
  unfold postWrite at h
  split at h
  · dsimp only at h
    split at h
    · cases h
    · split at h
      · cases h
      · exact failItem_events h
  · cases h

/-- The events of an item that succeeds: its calls, the report, the index entries, and errors
of the retention hook at most. -/
theorem processItem_succeeded {item : PlanItem} {now : String} {st : ApplyState V}
    (h : ItemSucceeded item (service.processItem ctx item now st).events) :
    ∃ spec r errors, requestOf ctx item st = .ok spec ∧
      TargetGateway.Succeeds (service.executor spec st.gateway) r ∧
      (∀ e ∈ errors, ApplyEvent.isError e = true) ∧
      (service.processItem ctx item now st).events =
        (service.executor spec st.gateway).calls.map .called ++
          (.itemOk item.recordRef item.op item.targetId::
            ((service.indexEntries ctx item r.responsePayload).map .indexed ++ errors)) := by
  obtain ⟨v,hv⟩ := h
  unfold processItem at hv ⊢
  split at hv
  · have herror := failItem_events hv
    cases herror
  · rename_i spec hspec
    have hsettled : ApplyEvent.itemOk item.recordRef item.op v ∈
        (service.settleItem ctx item now { st with gateway := (service.executor spec st.gateway).state }
          (service.executor spec st.gateway).result).events := by
      rcases List.mem_append.mp hv with hcall | h
      · obtain ⟨call,_,hcall⟩ := List.mem_map.mp hcall
        cases hcall
      · exact h
    cases hresult : (service.executor spec st.gateway).result with
    | error exc =>
      rw [hresult] at hsettled
      have herror := failItem_events hsettled
      cases herror
    | ok r =>
      rw [hresult] at hsettled
      by_cases hok : r.ok = true
      · refine ⟨spec,r,(service.postWrite ctx item r.responsePayload now
          { st with gateway := (service.executor spec st.gateway).state }).events,hspec,
          ⟨hresult,hok⟩,fun e he => postWrite_events he,?_⟩
        simp only [hresult, ItemRun.after, settleItem, hok, if_true, handleSuccessItem]
        rfl
      · simp only [settleItem, hok] at hsettled
        have herror := failItem_events hsettled
        cases herror

/-- The index entries among the events of an item that succeeds. -/
theorem filterMap_entry?_succeeded {calls : List DriverCall} {ref : RecordRef} {op : Operation}
    {v : Value} {entries : List IdentityEntry} {errors : List ApplyEvent}
    (h : ∀ e ∈ errors, ApplyEvent.isError e = true) :
    (calls.map ApplyEvent.called ++
        (ApplyEvent.itemOk ref op v::(entries.map ApplyEvent.indexed ++ errors))).filterMap
      ApplyEvent.entry? = entries := by
  rw [List.filterMap_append, filterMap_entry?_calls, List.nil_append,
    List.filterMap_cons_none rfl, List.filterMap_append, filterMap_entry?_entries,
    filterMap_entry?_errors h, List.append_nil]

/-- The report among the events of an item that succeeds. -/
theorem mem_itemOk_succeeded {calls : List DriverCall} {ref ref' : RecordRef}
    {op op' : Operation} {v v' : Value} {entries : List IdentityEntry} {errors : List ApplyEvent}
    (h : ∀ e ∈ errors, ApplyEvent.isError e = true) :
    ApplyEvent.itemOk ref' op' v' ∈ calls.map ApplyEvent.called ++
        (ApplyEvent.itemOk ref op v::(entries.map ApplyEvent.indexed ++ errors)) ↔
      ref' = ref ∧ op' = op ∧ v' = v := by
  have herror : ApplyEvent.itemOk ref' op' v' ∉ errors := fun hv => by cases h _ hv
  simp [herror]

theorem toRequest_spec {adapter : OperationApplyAdapter V} {item : PlanItem} {vault : V}
    {spec : RequestSpec} (h : adapter.toRequest item vault = .ok spec) :
    spec.operationAlias = Text.strip adapter.operationAlias ∧
      spec.targetId? = match adapter.paramsMode with
        | .targetId => some (.str (Text.strip item.targetId.pyStr))
        | .none => none := by
  unfold OperationApplyAdapter.toRequest at h
  cases hsource : adapter.hydratePayloadSource item vault with
  | error failure =>
    rw [hsource] at h
    cases h
  | ok source =>
    rw [hsource] at h
    have hbuild : adapter.buildRequest item source = .ok spec := by
      cases hb : adapter.buildRequest item source with
      | error exc => simp [Except.bind, hb, Except.mapError] at h
      | ok built => simpa [Except.bind, hb, Except.mapError] using h
    unfold OperationApplyAdapter.buildRequest at hbuild
    cases hpayload : adapter.payloadBuilder source with
    | error exc => simp [hpayload, bind, Except.bind] at hbuild
    | ok payload =>
      cases hparams : adapter.paramsOf item with
      | error exc => simp [hpayload, hparams, bind, Except.bind] at hbuild
      | ok params =>
        simp only [hpayload, hparams, bind, Except.bind, RequestSpec.operation] at hbuild
        split at hbuild
        · cases hbuild
        · cases hbuild
          refine ⟨rfl,?_⟩
          unfold OperationApplyAdapter.paramsOf buildTargetIdParams at hparams
          cases hmode : adapter.paramsMode with
          | none =>
            rw [hmode] at hparams
            cases hparams
            rfl
          | targetId =>
            rw [hmode] at hparams
            dsimp only at hparams
            split at hparams
            · cases hparams
            · cases hparams
              rfl

theorem acceptedId_calls {ts : TargetSpec} {world : TargetWorld} {refused : List DriverCall}
    {last : DriverCall} {rest : List ApplyEvent}
    (hrefused : ∀ c ∈ refused, c.answer.ok = false) (hlast : last.answer.ok = true) :
    acceptedId ts world ((refused ++ [last]).map .called ++ rest) =
      some (takenAs ts world last) := by
  have hnone : (refused.map ApplyEvent.called).findSome? (ApplyEvent.taken? ts world) = none := by
    rw [List.findSome?_eq_none_iff]
    intro e he
    obtain ⟨c,hc,rfl⟩ := List.mem_map.mp he
    simp [ApplyEvent.taken?, hrefused c hc]
  simp [acceptedId, List.findSome?_append, hnone, ApplyEvent.taken?, hlast]

/-- The entries of an item carry one given id exactly when the sync resolves that id, unless
there is no key to enter. -/
theorem indexEntries_eq_iff {item : PlanItem} {payload : Value} {id : String} :
    service.indexEntries ctx item payload =
        (service.indexKeys ctx item).map (fun key => ⟨ctx.dataset,key,id⟩) ↔
      service.indexKeys ctx item = [] ∨ IdentityIndexSyncer.normalizeValue
        (resolvedIdOf (service.idField ctx) item payload) = some id := by
  unfold indexEntries indexKeys idField
  cases service.allowPostSuccessSideEffects with
  | false => simp
  | true =>
    cases service.identitySyncer with
    | none => simp
    | some syncer =>
      simp only [IdentityIndexSyncer.entries, Option.elim_some]
      generalize IdentityIndexSyncer.keysOf _ item.keyValues = keys
      cases IdentityIndexSyncer.normalizeValue
          (resolvedIdOf (syncer.idFieldFor ctx.dataset) item payload) with
      | none => cases keys <;> simp
      | some r =>
        cases keys with
        | nil => simp
        | cons key keys =>
          simp only [List.map_cons, List.cons.injEq, IdentityEntry.mk.injEq, true_and,
            List.map_inj_left, reduceCtorEq, false_or, Option.some.injEq]
          exact ⟨And.left,fun h => ⟨h,fun _ _ => h⟩⟩

theorem resolvedIdOf_eq_iff (ts : TargetSpec) {item : PlanItem} {resp : DriverResponse} :
    IdentityIndexSyncer.normalizeValue
        (resolvedIdOf (service.idField ctx) item (ts.safeBody resp.payload)) =
        some item.targetId.pyStr ↔ service.ShownAsPlanned ctx ts item resp := by
  have hshown : resolvedIdOf (service.idField ctx) item (ts.safeBody resp.payload) =
      if (shownId (service.idField ctx) (ts.safeBody resp.payload)).isNull then
        Fields.read item.desiredState (service.idField ctx)
      else shownId (service.idField ctx) (ts.safeBody resp.payload) := by
    unfold resolvedIdOf shownId
    cases ts.safeBody resp.payload <;> rfl
  rw [hshown]
  unfold ShownAsPlanned
  dsimp only
  cases (shownId (service.idField ctx) (ts.safeBody resp.payload)).isNull <;> simp

/-- The target took the request under the planned id exactly when its answers let it. -/
theorem takenAs_planned_iff {ts : TargetSpec} {engine : RetryEngine} {world : TargetWorld}
    {adapter : OperationApplyAdapter V} {item : PlanItem} {vault : V} {st : GatewayState}
    {spec final : RequestSpec} {e : Execution} {m : Nat} {resp : DriverResponse}
    {request : HttpRequest} {refused : List DriverCall}
    (hfresh : ∀ k, world.uuids k ≠ item.targetId.pyStr)
    (hspec : adapter.toRequest item vault = .ok spec)
    (h : TargetGateway.Accepts (ankeyGateway ts engine) world spec st e m resp final request
      refused) :
    takenAs ts world ⟨m,final,request,.response resp⟩ = item.targetId.pyStr ↔
      TakenAsPlanned ts world (Text.strip adapter.operationAlias) item st.requests m := by
  obtain ⟨halias,hid⟩ := toRequest_spec hspec
  unfold takenAs TakenAsPlanned
  dsimp only
  rw [h.sameAlias, halias]
  by_cases haddressed : ts.operationAddressed (Text.strip adapter.operationAlias) = true
  · rw [if_pos haddressed, if_pos haddressed]
    by_cases hmutated : ∃ j, st.requests ≤ j ∧ j < m ∧ ts.asksMutation (world.answers j) = true
    · -- A mutation on the way leaves a drawn id, which is not the planned one.
      obtain ⟨k,hk⟩ := h.renewed hmutated
      obtain ⟨j,hj,hm,hasks⟩ := hmutated
      constructor
      · intro heq
        rw [hk] at heq
        exact absurd heq (hfresh k)
      · rintro ⟨hnone,_⟩
        rw [hnone j hj hm] at hasks
        cases hasks
    · have hnone : ∀ j, st.requests ≤ j → j < m → ts.asksMutation (world.answers j) = false := by
        intro j hj hm
        by_contra hne
        exact hmutated ⟨j,hj,hm,by simpa using hne⟩
      have hkept : final = spec := h.kept hnone
      have hmode : adapter.paramsMode = .targetId := by
        by_contra hne
        have hnomode : adapter.paramsMode = .none := by
          cases hm : adapter.paramsMode with
          | targetId => exact absurd hm hne
          | none => rfl
        have hbuilt := h.built
        rw [hkept, TargetGateway.buildRequest, show (ankeyGateway ts engine).spec = ts from rfl,
          halias] at hbuilt
        unfold TargetSpec.operationAddressed at haddressed
        cases hop : ts.getCompiledOperation (Text.strip adapter.operationAlias) with
        | error exc =>
          rw [hop] at haddressed
          cases haddressed
        | ok op =>
          rw [hop] at hbuilt haddressed
          obtain ⟨v,hv⟩ := op.build_addressed hbuilt haddressed
          rw [hnomode] at hid
          rw [RequestSpec.targetId?, hv] at hid
          cases hid
      rw [hmode] at hid
      rw [hkept, hid]
      exact ⟨fun h => ⟨hnone,h⟩,And.right⟩
  · simp [haddressed]

theorem failItem_db {item : PlanItem} {diags : List DiagnosticItem} {fatal : Bool}
    {st : ApplyState V} : (failItem ctx item diags fatal st).state.db = st.db := by
  have hregister : ∀ (ds : List DiagnosticItem) (st : ApplyState V),
      (ds.foldl (fun st diag => st.registerError ctx.catalog diag) st).db = st.db := by
    intro ds
    induction ds with
    | nil => exact fun _ => rfl
    | cons d ds ih => exact fun st => ih _
  unfold failItem ApplyState.addOutcome
  dsimp only
  split <;> exact hregister _ _

theorem postWrite_db {item : PlanItem} {payload : Value} {now : String} {st : ApplyState V} :
    (service.postWrite ctx item payload now st).state.db =
      if service.allowPostSuccessSideEffects then service.syncIdentityIndex ctx item payload now st.db
      else st.db := by
  unfold postWrite
  split
  · dsimp only
    split
    · rfl
    · split
      · rfl
      · exact failItem_db
  · rfl

theorem postWrite_index {item : PlanItem} {payload : Value} {now : String} {st : ApplyState V} :
    (service.postWrite ctx item payload now st).state.db.index =
      ((service.indexEntries ctx item payload).foldl IdentityDb.upsertIdentity st.db).index := by
  rw [postWrite_db]
  unfold indexEntries syncIdentityIndex
  cases service.allowPostSuccessSideEffects with
  | false => rfl
  | true =>
    cases service.identitySyncer with
    | none => rfl
    | some syncer => exact syncer.sync_index _ _ _ _ _

/-- What an item reports as indexed is what its processing adds to the identity index. -/
theorem processItem_index {item : PlanItem} {now : String} {st : ApplyState V} :
    (service.processItem ctx item now st).state.db.index =
      (((service.processItem ctx item now st).events.filterMap ApplyEvent.entry?).foldl
        IdentityDb.upsertIdentity st.db).index := by
  have hfailed : ∀ (diags : List DiagnosticItem) (fatal : Bool) (st : ApplyState V),
      (failItem ctx item diags fatal st).state.db.index =
        (((failItem ctx item diags fatal st).events.filterMap ApplyEvent.entry?).foldl
          IdentityDb.upsertIdentity st.db).index := by
    intro diags fatal st
    have hnone : (failItem ctx item diags fatal st).events.filterMap ApplyEvent.entry? = [] :=
      filterMap_entry?_errors fun e he => failItem_events he
    rw [hnone, failItem_db]
    rfl
  unfold processItem
  split
  · exact hfailed _ _ _
  · rename_i spec hspec
    simp only [ItemRun.after, List.filterMap_append, filterMap_entry?_calls, List.nil_append]
    generalize (service.executor spec st.gateway).state = gateway
    cases (service.executor spec st.gateway).result with
    | error exc => exact hfailed _ _ { st with gateway := gateway }
    | ok r =>
      unfold settleItem
      by_cases hok : r.ok = true
      · have herrors : (service.postWrite ctx item r.responsePayload now
            { st with gateway := gateway }).events.filterMap ApplyEvent.entry? = [] :=
          filterMap_entry?_errors fun e he => postWrite_events he
        simp only [hok, if_true, handleSuccessItem, ItemRun.after, List.cons_append,
          List.filterMap_cons_none (show ApplyEvent.entry? (.itemOk _ _ _) = none from rfl),
          List.filterMap_append, filterMap_entry?_entries, herrors, List.append_nil]
        exact postWrite_index
      · simp only [hok]
        exact hfailed _ _ { st with gateway := gateway }

/-- The ids of an applied item agree exactly when the target takes it under its planned id and
the sync is told that id. -/
theorem ids_agree_iff (ts : TargetSpec) (engine : RetryEngine) (world : TargetWorld)
    (syncer : Option IdentityIndexSyncer)
    (retention : Option (RetentionCall → V → Except PyException (Dict String Int) × V))
    (sideEffects : Bool) (plan : Plan) (catalog : ErrorCatalog)
    (adapter : OperationApplyAdapter V) (dataset : String) (maxItemOutcomes : Int)
    (options : ApplyOptions) (clock : Nat → String) (start : ApplyProgress V)
    (linkFields : List String) (item : PlanItem) (p : ApplyProgress V) :
    let service : ImportApplyService V :=
      ⟨(ankeyGateway ts engine).execute world,syncer,retention,sideEffects⟩
    let ctx := contextOf plan catalog (some adapter) dataset maxItemOutcomes
    (∀ k, world.uuids k ≠ item.targetId.pyStr) →
      (item,p) ∈ service.processed ctx options clock plan.items start →
      ItemSucceeded item (service.itemEvents ctx clock item p) →
      (service.IdsAgree ctx ts world plan linkFields item (service.itemEvents ctx clock item p) ↔
        service.IdsPlanned ctx ts world (Text.strip adapter.operationAlias) item
          p.state.gateway.requests) := by
  intro service ctx hfresh hitem hsucceeded
  obtain ⟨spec,r,errors,hspec,hr,herrors,hevents⟩ := processItem_succeeded hsucceeded
  obtain ⟨m,resp,final,request,refused,hresult,haccepts⟩ :=
    TargetGateway.execute_accepts ts engine hr
  have htaken := takenAs_planned_iff hfresh hspec haccepts
  have hcalls : (service.executor spec p.state.gateway).calls =
      refused ++ [⟨m,final,request,.response resp⟩] := haccepts.calls
  have hok : resp.ok = true := by
    have htook := haccepts.first.taken
    rw [haccepts.answer] at htook
    exact htook
  have hid : acceptedId ts world (service.itemEvents ctx clock item p) =
      some (takenAs ts world ⟨m,final,request,.response resp⟩) := by
    rw [itemEvents, hevents, hcalls]
    exact acceptedId_calls haccepts.faults hok
  have hentries : (service.itemEvents ctx clock item p).filterMap ApplyEvent.entry? =
      service.indexEntries ctx item (ts.safeBody resp.payload) := by
    have hpayload : r.responsePayload = ts.safeBody resp.payload := by
      rw [hresult]
      rfl
    rw [itemEvents, hevents, filterMap_entry?_succeeded herrors, hpayload]
  have hreported : ∀ ref op v, .itemOk ref op v ∈ service.itemEvents ctx clock item p ↔
      ref = item.recordRef ∧ op = item.op ∧ v = item.targetId := by
    intro ref op v
    rw [itemEvents, hevents]
    exact mem_itemOk_succeeded herrors
  constructor
  · rintro ⟨id,haccepted,hagree⟩
    have hplanned : item.targetId.pyStr = id :=
      hagree.reported _ _ _ ((hreported _ _ _).mpr ⟨rfl,rfl,rfl⟩)
    have heq : takenAs ts world ⟨m,final,request,.response resp⟩ = item.targetId.pyStr := by
      rw [hplanned]
      exact Option.some.inj (hid.symm.trans haccepted)
    refine ⟨m,resp,haccepts.first,haccepts.answer,htaken.mp heq,?_⟩
    have hindexed := hagree.indexed
    rw [hentries, ← hplanned] at hindexed
    rcases indexEntries_eq_iff.mp hindexed with hnone | hresolved
    · exact .inl hnone
    · exact .inr ((resolvedIdOf_eq_iff ts).mp hresolved)
  · rintro ⟨n,shown,hfirst,hanswer,hplanned,hindex⟩
    have hn : n = m := hfirst.unique haccepts.first
    subst hn
    have hresp : shown = resp := by
      rw [haccepts.answer] at hanswer
      exact (Answer.response.inj hanswer).symm
    subst hresp
    refine ⟨item.targetId.pyStr,by rw [hid, htaken.mpr hplanned],?_,?_,?_⟩
    · intro ref op v hv
      rw [((hreported ref op v).mp hv).2.2]
    · rw [hentries]
      apply indexEntries_eq_iff.mpr
      rcases hindex with hnone | hshown
      · exact .inl hnone
      · exact .inr ((resolvedIdOf_eq_iff ts).mpr hshown)
    · exact fun _ _ _ _ h => h

end ImportApplyService

namespace Samples

def userUpsert : OperationSpec :=
  { operationAlias := "users.upsert", expectedStatuses := [200], method := "PUT"
    pathTemplate := [.text "/managed/user/", .param "target_id"]
    queryDefaults := [], headerDefaults := [] }

def healthCheck : OperationSpec :=
  { operationAlias := "health.check", expectedStatuses := [200], method := "GET"
    pathTemplate := [.text "/health"], queryDefaults := [], headerDefaults := [] }

theorem no_range : (none : Option (Int × Int)).all (fun r => decide (r.1 ≤ r.2)) = true := rfl

theorem check_declared : TargetCapability.check ∈ [TargetCapability.check,.execute] := by decide

/-- A target that answers a taken id with a conflict, on which the id is drawn anew. -/
def userTarget : TargetSpec :=
  { targetType := "ankey"
    capabilities := [.check, .execute]
    faultRules := [⟨.conflict,some 409,none,none,by decide,by decide,no_range⟩]
    retryRules := [⟨.retryBackoff,some .conflict,none,some "resourceexists",
      some "regenerate_target_id",by decide,by decide,by decide⟩]
    maxAttempts := 3
    bodyMode := .truncated
    healthAlias := "health.check"
    operations := [("users.upsert",userUpsert), ("health.check",healthCheck)]
    checked := check_declared
    healthDeclared := by decide
    aliasKeys := by decide }

def promptEngine : RetryEngine := ⟨fun _ => .seconds 0,fun _ => .ok ()⟩

def answerOf (ok : Bool) (status : Int) (reason : Option String) : Answer :=
  .response ⟨ok,.int status,.dict [("status",.str "done")],none,.json,reason,none⟩

/-- The first id is taken already; the second request goes through, and its answer is silent
about the id. -/
def conflictWorld : TargetWorld :=
  { answers := fun n => if n = 0 then answerOf false 409 (some "resourceexists")
      else answerOf true 200 none
    assigns := fun n => "assigned-" ++ toString n
    uuids := fun n => "drawn-" ++ toString n }

def itemFor (rowId targetId : String) (desired : Fields) : PlanItem :=
  { rowId := rowId, lineNo := none, op := .create, targetId := .str targetId
    desiredState := ("_id",.str targetId)::desired, changes := [], sourceRef := none
    secretFields := [], secretLifecycle := none }

def manager : PlanItem := itemFor "line:2" "u-1" [("tab_num",.str "7")]

def report : PlanItem := itemFor "line:3" "u-2" [("tab_num",.str "8"), ("manager_id",.str "u-1")]

def teamPlan : Plan :=
  ⟨⟨some "run-1",some "employees"⟩,⟨2,2,0,2,0,0⟩,[manager, report]⟩

def userAdapter : OperationApplyAdapter Unit :=
  ⟨"users.upsert",fun source => .ok source,"employees",.targetId,none⟩

def employeeSyncer : IdentityIndexSyncer := ⟨[("employees",["tab_num"])],[]⟩

def teamService : ImportApplyService Unit :=
  ⟨(ankeyGateway userTarget promptEngine).execute conflictWorld,some employeeSyncer,none,true⟩

def teamContext : ItemProcessContext Unit :=
  ImportApplyService.contextOf teamPlan [] (some userAdapter) "employees" 10

def teamStart : ApplyProgress Unit :=
  ImportApplyService.startProgress ⟨0,0,0,0⟩ IdentityDb.empty ()

def managerEvents : List ApplyEvent :=
  teamService.itemEvents teamContext (fun _ => "now") manager teamStart

end Samples

namespace ImportApplyService
open Samples

/-- The first record of the plan is taken under a drawn id; the report, the index and the link
of the second record keep the planned one. -/
theorem manager_taken_elsewhere :
    (manager,teamStart) ∈ teamService.processed teamContext ⟨false,none⟩ (fun _ => "now")
        teamPlan.items teamStart ∧
      ItemSucceeded manager managerEvents ∧
      acceptedId userTarget conflictWorld managerEvents = some "drawn-0" ∧
      .itemOk manager.recordRef .create (.str "u-1") ∈ managerEvents ∧
      managerEvents.filterMap ApplyEvent.entry? = [⟨"employees","tab_num:7","u-1"⟩] ∧
      Fields.read report.desiredState "manager_id" = .str "u-1" ∧
      ¬teamService.IdsAgree teamContext userTarget conflictWorld teamPlan ["manager_id"] manager
        managerEvents := by
  have hreported : ApplyEvent.itemOk manager.recordRef .create (.str "u-1") ∈ managerEvents := by
    decide
  have haccepted : acceptedId userTarget conflictWorld managerEvents = some "drawn-0" := by
    decide
  refine ⟨List.mem_cons_self,⟨_,hreported⟩,haccepted,hreported,by decide,
    by decide,?_⟩
  rintro ⟨id,hid,hagree⟩
  have hplanned : "u-1" = id := hagree.reported _ _ _ hreported
  rw [← hplanned, haccepted] at hid
  revert hid
  decide

theorem ids_agree_iff_manager :
    teamService.IdsAgree teamContext userTarget conflictWorld teamPlan ["manager_id"] manager
        (teamService.itemEvents teamContext (fun _ => "now") manager teamStart) ↔
      teamService.IdsPlanned teamContext userTarget conflictWorld
        (Text.strip userAdapter.operationAlias) manager 0 := by
  have hsucceeded : ApplyEvent.itemOk manager.recordRef manager.op (.str "u-1") ∈
      managerEvents := by decide
  refine ids_agree_iff userTarget promptEngine conflictWorld (some employeeSyncer) none true
    teamPlan [] userAdapter "employees" 10 ⟨false,none⟩ (fun _ => "now") teamStart
    ["manager_id"] manager teamStart ?_ List.mem_cons_self ⟨_,hsucceeded⟩
  intro k h
  have hchars := congrArg (fun s => s.toList.head?) h
  simp [conflictWorld, manager, itemFor, Value.pyStr] at hchars

end ImportApplyService
end NexusEtl
