import NexusEtl.ApplyAccounting
import NexusEtl.CommandLifecycle

/-!
# Dry runs and the codes of a run

A dry run sends nothing and indexes nothing: an item fails in it exactly when its request cannot
be built. Such an item fails in the real run too, with the same diagnostic, as long as the real
run cleans up no secret that it needs. The codes of a run, dry or not, are those of the
diagnostics it reports, and from them follows the exit code.
-/

set_option autoImplicit false

namespace NexusEtl
open NexusEtl.Library

/-- `DryRunExecutor.execute` -/
def dryRunExecutor (_ : RequestSpec) (gateway : GatewayState) : Execution :=
  { result := .ok { ok := true, answerCode := .null, responsePayload := .null
                    responseFormat := .none, errorCode := none, errorMessage := none
                    errorReason := none, errorDetails := none }
    state := gateway
    calls := [] }

section Outcomes

variable {V : Type} (st : ApplyState V) (limit : Int) (outcome : ApplyItemOutcome)

theorem addOutcome_outside : (st.addOutcome limit outcome).outside = st.outside := by
  unfold ApplyState.addOutcome
  split_ifs <;> rfl

theorem addOutcome_systemCodes : (st.addOutcome limit outcome).systemCodes = st.systemCodes := by
  unfold ApplyState.addOutcome
  split_ifs <;> rfl

end Outcomes

namespace ImportApplyService

variable {V : Type} {service : ImportApplyService V} {ctx : ItemProcessContext V}
  {options : ApplyOptions} {clock : Nat → String}

/-- What every item keeps the run keeps. -/
theorem runItems_keeps {P : ApplyProgress V → Prop}
    (hstep : ∀ p item, P p → P (service.step ctx options clock p item)) (items : List PlanItem)
    {p : ApplyProgress V} (h : P p) : P (service.runItems ctx options clock items p) := by
  induction items generalizing p with
  | nil => exact h
  | cons item items ih =>
    unfold runItems
    split_ifs
    · exact h
    · exact ih (hstep p item h)

/-- A service that is wired for a dry run. -/
structure Dry (service : ImportApplyService V) : Prop where
  executor : service.executor = dryRunExecutor
  effects : service.allowPostSuccessSideEffects = false

/-- In a dry run an item fails exactly when its request cannot be built. -/
theorem Dry.processItem (h : Dry service) (item : PlanItem) (now : String) (st : ApplyState V) :
    service.processItem ctx item now st = match requestOf ctx item st with
      | .error failure => handleExceptionFailure ctx item failure st
      | .ok _ => ⟨successResult item,st,[.itemOk item.recordRef item.op item.targetId]⟩ := by
  unfold ImportApplyService.processItem
  cases requestOf ctx item st with
  | error failure => rfl
  | ok spec =>
    have hentries : service.indexEntries ctx item .null = [] := by
      simp [indexEntries, h.effects]
    have hpost : service.postWrite ctx item .null now st = ⟨successResult item,st,[]⟩ := by
      simp [postWrite, h.effects]
    rw [h.executor]
    show ItemRun.after [] (service.handleSuccessItem ctx item .null now st) = _
    rw [handleSuccessItem, hentries, hpost]
    rfl

theorem Dry.processItem_outside (h : Dry service) (item : PlanItem) (now : String)
    (st : ApplyState V) : (service.processItem ctx item now st).state.outside = st.outside := by
  rw [h.processItem]
  cases requestOf ctx item st with
  | ok _ => rfl
  | error failure => exact addOutcome_outside _ ctx.maxItemOutcomes _

theorem Dry.processItem_reports (h : Dry service) (item : PlanItem) (now : String)
    (st : ApplyState V) :
    ∀ e ∈ (service.processItem ctx item now st).events, e.record?.isSome = true := by
  rw [h.processItem]
  cases requestOf ctx item st with
  | ok _ => simp [ApplyEvent.record?]
  | error failure => simp [handleExceptionFailure, failItem, ApplyEvent.record?]

/-- Neither the target nor the identity database nor the vault changes in a dry run, and nothing
is sent or indexed. -/
theorem Dry.runItems (h : Dry service) (items : List PlanItem) {p : ApplyProgress V}
    (hp : ∀ e ∈ p.events, e.record?.isSome = true) :
    (service.runItems ctx options clock items p).state.outside = p.state.outside ∧
      ∀ e ∈ (service.runItems ctx options clock items p).events, e.record?.isSome = true := by
  refine runItems_keeps
    (P := fun q => q.state.outside = p.state.outside ∧ ∀ e ∈ q.events, e.record?.isSome = true)
    (fun q item hq => ⟨?_,?_⟩) items ⟨rfl,hp⟩
  · exact (h.processItem_outside item _ q.state).trans hq.1
  · intro e he
    rcases List.mem_append.mp he with hold | hnew
    · exact hq.2 e hold
    · exact h.processItem_reports item _ q.state e hnew

/-! ## The codes of a run -/

end ImportApplyService

def ApplyEvent.error? : ApplyEvent → Option DiagnosticItem
  | .itemError _ _ diag => some diag
  | _ => none

/-- The diagnostics of the failed items, in the order of their reports. -/
def reportedErrors (events : List ApplyEvent) : List DiagnosticItem :=
  events.filterMap ApplyEvent.error?

theorem reportedErrors_append (es fs : List ApplyEvent) :
    reportedErrors (es ++ fs) = reportedErrors es ++ reportedErrors fs := List.filterMap_append

/-- The item adds the codes of the diagnostics it reports, and counts as failed if there is one. -/
structure ItemRun.Registers {V : Type} (catalog : ErrorCatalog) (st : ApplyState V)
    (run : ItemRun V) : Prop where
  codes : ∀ c, c ∈ run.state.systemCodes ↔
    c ∈ st.systemCodes ∨ ∃ d ∈ reportedErrors run.events, c = catalog.classify d.code
  failed : run.result.failedInc = 0 ↔ reportedErrors run.events = []

namespace ItemRun.Registers

variable {V : Type} {catalog : ErrorCatalog} {st st' : ApplyState V} {run : ItemRun V}

theorem after {es : List ApplyEvent} (h : run.Registers catalog st) (hes : reportedErrors es = []) :
    (run.after es).Registers catalog st := by
  have hevents : reportedErrors (run.after es).events = reportedErrors run.events := by
    show reportedErrors (es ++ run.events) = _
    rw [reportedErrors_append, hes, List.nil_append]
  exact ⟨fun c => by rw [hevents]; exact h.codes c,by rw [hevents]; exact h.failed⟩

theorem from_state (h : run.Registers catalog st') (hst : st'.systemCodes = st.systemCodes) :
    run.Registers catalog st :=
  ⟨fun c => by rw [← hst]; exact h.codes c,h.failed⟩

end ItemRun.Registers

section Registering

variable {V : Type} {catalog : ErrorCatalog}

theorem mem_registerError {st : ApplyState V} {diag : DiagnosticItem} {c : SystemErrorCode} :
    c ∈ (st.registerError catalog diag).systemCodes ↔
      c ∈ st.systemCodes ∨ c = catalog.classify diag.code := by
  show c ∈ (if catalog.classify diag.code ∈ st.systemCodes then st.systemCodes
    else st.systemCodes ++ [catalog.classify diag.code]) ↔ _
  split_ifs with hmem
  · constructor
    · exact .inl
    · rintro (h | rfl)
      · exact h
      · exact hmem
  · simp

theorem mem_registerErrors {diags : List DiagnosticItem} {st : ApplyState V}
    {c : SystemErrorCode} :
    c ∈ (diags.foldl (fun st diag => st.registerError catalog diag) st).systemCodes ↔
      c ∈ st.systemCodes ∨ ∃ d ∈ diags, c = catalog.classify d.code := by
  induction diags generalizing st with
  | nil => simp
  | cons diag diags ih =>
    rw [List.foldl_cons, ih, mem_registerError]
    simp [or_assoc]

end Registering

namespace ImportApplyService

variable {V : Type} {service : ImportApplyService V} {ctx : ItemProcessContext V}
  {options : ApplyOptions} {clock : Nat → String}

theorem failItem_registers (item : PlanItem) (diag : DiagnosticItem) (fatal : Bool)
    (st : ApplyState V) : (failItem ctx item [diag] fatal st).Registers ctx.catalog st := by
  constructor
  · intro c
    show c ∈ (ApplyState.addOutcome _ ctx.maxItemOutcomes _).systemCodes ↔ _
    rw [addOutcome_systemCodes]
    exact mem_registerErrors
  · exact ⟨fun h => absurd h Nat.one_ne_zero,fun h => absurd h (List.cons_ne_nil _ _)⟩

theorem success_registers (item : PlanItem) {st st' : ApplyState V}
    (h : st'.systemCodes = st.systemCodes) :
    ItemRun.Registers ctx.catalog st ⟨successResult item,st',[]⟩ := by
  constructor
  · intro c
    simp [h, reportedErrors]
  · have hzero : (successResult item).failedInc = 0 := by
      unfold successResult
      cases item.op <;> rfl
    simp [hzero, reportedErrors]

theorem postWrite_registers (item : PlanItem) (payload : Value) (now : String)
    (st : ApplyState V) :
    (service.postWrite ctx item payload now st).Registers ctx.catalog st := by
  unfold postWrite
  split
  · split
    · exact success_registers item rfl
    · dsimp only
      split
      · exact success_registers item rfl
      · exact (failItem_registers item _ false _).from_state rfl
  · exact success_registers item rfl

theorem reportedErrors_indexed (entries : List IdentityEntry) :
    reportedErrors (entries.map .indexed) = [] := by
  rw [reportedErrors, List.filterMap_map, List.filterMap_eq_nil_iff]
  exact fun _ _ => rfl

theorem reportedErrors_called (calls : List DriverCall) : reportedErrors (calls.map .called) = [] := by
  rw [reportedErrors, List.filterMap_map, List.filterMap_eq_nil_iff]
  exact fun _ _ => rfl

/-- Every item registers exactly what it reports. -/
theorem processItem_registers (item : PlanItem) (now : String) (st : ApplyState V) :
    (service.processItem ctx item now st).Registers ctx.catalog st := by
  unfold processItem
  split
  · exact failItem_registers item _ false st
  · refine ItemRun.Registers.after ?_ (reportedErrors_called _)
    unfold settleItem
    split
    · exact (failItem_registers item _ _ _).from_state rfl
    · split_ifs
      · refine ItemRun.Registers.after ?_ (reportedErrors_indexed _)
        exact (postWrite_registers item _ now _).from_state rfl
      · exact (failItem_registers item _ _ _).from_state rfl

/-- What the run has registered: the codes of the reported diagnostics, and no failed item
without one. -/
structure Registered (catalog : ErrorCatalog) (p : ApplyProgress V) : Prop where
  codes : ∀ c, c ∈ p.state.systemCodes ↔ ∃ d ∈ reportedErrors p.events, c = catalog.classify d.code
  failed : p.failed = 0 ↔ reportedErrors p.events = []

theorem runItems_registered (items : List PlanItem) {p : ApplyProgress V}
    (hp : Registered ctx.catalog p) :
    Registered ctx.catalog (service.runItems ctx options clock items p) := by
  refine runItems_keeps (fun q item hq => ?_) items hp
  have hitem : (service.processItem ctx item (clock q.actionsCount) q.state).Registers ctx.catalog
      q.state := processItem_registers item _ _
  have hevents : reportedErrors (service.step ctx options clock q item).events =
      reportedErrors q.events ++ reportedErrors (service.itemEvents ctx clock item q) :=
    reportedErrors_append _ _
  constructor
  · intro c
    rw [hevents]
    refine (hitem.codes c).trans ?_
    rw [hq.codes]
    simp [List.mem_append, or_and_right, exists_or, itemEvents]
  · rw [hevents, List.append_eq_nil_iff, ← hq.failed]
    refine (Nat.add_eq_zero_iff).trans (and_congr Iff.rfl hitem.failed)

end ImportApplyService

/-! ## What a dry run tells about the real one -/

namespace ImportApplyService

variable {V : Type} {service : ImportApplyService V} {ctx : ItemProcessContext V}
  {options : ApplyOptions} {clock : Nat → String}

/-- The retention hook does not change what the requests of the items are built from. -/
def Spares (service : ImportApplyService V) (ctx : ItemProcessContext V)
    (items : List PlanItem) : Prop :=
  ∀ hook ∈ service.secretRetention, ∀ adapter ∈ ctx.adapter, ∀ item ∈ items, ∀ call vault,
    adapter.toRequest item (hook call vault).2 = adapter.toRequest item vault

theorem failItem_vault (item : PlanItem) (diag : DiagnosticItem) (fatal : Bool)
    (st : ApplyState V) : (failItem ctx item [diag] fatal st).state.vault = st.vault :=
  congrArg Outside.vault (addOutcome_outside _ ctx.maxItemOutcomes _)

/-- An item leaves the vault as it is or as one call of the retention hook leaves it. -/
theorem processItem_vault_or (item : PlanItem) (now : String) (st : ApplyState V) :
    (service.processItem ctx item now st).state.vault = st.vault ∨
      ∃ hook ∈ service.secretRetention, ∃ call,
        (service.processItem ctx item now st).state.vault = (hook call st.vault).2 := by
  unfold processItem
  split
  · exact .inl (failItem_vault item _ false st)
  · simp only [ItemRun.after]
    unfold settleItem
    split
    · exact .inl (failItem_vault item _ _ _)
    · split_ifs
      · simp only [handleSuccessItem, ItemRun.after]
        unfold postWrite
        split
        · split
          · exact .inl rfl
          · rename_i hook hhook
            refine .inr ⟨hook,hhook,retentionCallOf ctx item,?_⟩
            dsimp only
            split
            · next hcall => rw [hcall]; rfl
            · next hcall => rw [hcall]; exact failItem_vault item _ false _
        · exact .inl rfl
      · exact .inl (failItem_vault item _ _ _)

theorem Spares.requestOf_processItem {items : List PlanItem} (h : Spares service ctx items)
    {other : PlanItem} (hother : other ∈ items) (item : PlanItem) (now : String)
    (st : ApplyState V) :
    requestOf ctx other (service.processItem ctx item now st).state = requestOf ctx other st := by
  unfold requestOf
  cases hadapter : ctx.adapter with
  | none => rfl
  | some adapter =>
    obtain hvault | ⟨hook,hhook,call,hvault⟩ :
        (service.processItem ctx item now st).state.vault = st.vault ∨
          ∃ hook ∈ service.secretRetention, ∃ call,
            (service.processItem ctx item now st).state.vault = (hook call st.vault).2 :=
      processItem_vault_or item now st
    · simp only [hvault]
    · simp only [hvault]
      exact h hook hhook adapter hadapter other hother call st.vault

theorem Dry.spares {dry : ImportApplyService V} (h : Dry dry) (other item : PlanItem)
    (now : String) (st : ApplyState V) :
    requestOf ctx other (dry.processItem ctx item now st).state = requestOf ctx other st := by
  have hvault : (dry.processItem ctx item now st).state.vault = st.vault :=
    congrArg Outside.vault (h.processItem_outside item now st)
  unfold requestOf
  simp only [hvault]

/-- What a dry run and a real run over the same items have in common while both go on. -/
structure Shadows (ctx : ItemProcessContext V) (items : List PlanItem)
    (p q : ApplyProgress V) : Prop where
  requests : ∀ item ∈ items, requestOf ctx item p.state = requestOf ctx item q.state
  actions : p.actionsCount = q.actionsCount
  goes : p.stopped = q.stopped
  errors : (reportedErrors p.events).Sublist (reportedErrors q.events)

theorem Dry.item_errors {dry : ImportApplyService V} (h : Dry dry) (item : PlanItem)
    {now now' : String} {st st' : ApplyState V}
    (hrequest : requestOf ctx item st = requestOf ctx item st') :
    (reportedErrors (dry.processItem ctx item now st).events).Sublist
      (reportedErrors (service.processItem ctx item now' st').events) := by
  rw [h.processItem, hrequest]
  cases hspec : requestOf ctx item st' with
  | error failure =>
    unfold ImportApplyService.processItem
    rw [hspec]
    exact .refl _
  | ok spec => exact List.nil_sublist _

theorem Dry.step_shadows {dry : ImportApplyService V} (h : Dry dry) {items : List PlanItem}
    (hspares : Spares service ctx items) (hgo : options.stopOnFirstError = false)
    {p q : ApplyProgress V} (hpq : Shadows ctx items p q) {item : PlanItem} (hitem : item ∈ items) :
    Shadows ctx items (dry.step ctx options clock p item)
      (service.step ctx options clock q item) := by
  constructor
  · intro other hother
    refine (h.spares other item _ p.state).trans ?_
    exact (hpq.requests other hother).trans
      (hspares.requestOf_processItem hother item _ q.state).symm
  · exact congrArg (· + 1) hpq.actions
  · show (options.stopOnFirstError && _) = (options.stopOnFirstError && _)
    rw [hgo, Bool.false_and, Bool.false_and]
  · show (reportedErrors (p.events ++ _)).Sublist (reportedErrors (q.events ++ _))
    rw [reportedErrors_append, reportedErrors_append]
    exact hpq.errors.append (h.item_errors item (hpq.requests item hitem))

/-- Whatever a dry run reports as failed, the real run over the same items reports too. -/
theorem Dry.runItems_shadows {dry : ImportApplyService V} (h : Dry dry) {all : List PlanItem}
    (hspares : Spares service ctx all) (hgo : options.stopOnFirstError = false)
    {items : List PlanItem} (hitems : ∀ item ∈ items, item ∈ all) {p q : ApplyProgress V}
    (hpq : Shadows ctx all p q) :
    (reportedErrors (dry.runItems ctx options clock items p).events).Sublist
      (reportedErrors (service.runItems ctx options clock items q).events) := by
  induction items generalizing p q with
  | nil => exact hpq.errors
  | cons item items ih =>
    have hhalt : halted options p = halted options q := by
      unfold halted
      rw [hpq.goes, hpq.actions]
    unfold ImportApplyService.runItems
    rw [hhalt]
    split_ifs
    · exact hpq.errors
    · exact ih (fun other hother => hitems other (List.mem_cons_of_mem item hother))
        (h.step_shadows hspares hgo hpq (hitems item List.mem_cons_self))

end ImportApplyService

/-! ## The exit code -/

/-- The exit code that the diagnostics of the failed items call for. -/
def exitCodeOf (catalog : ErrorCatalog) (errors : List DiagnosticItem) : Nat :=
  let codes := errors.map fun d => catalog.classify d.code
  if codes = [] then 0
  else if codes.any isFatal then 2
  else if .dataInvalid ∈ codes ∨ .conflict ∈ codes then 1
  else 2

theorem mem_fatal_iff (code : SystemErrorCode) :
    isFatal code = true ↔ code ∈ [SystemErrorCode.internalError,.authUnauthorized,.authForbidden] := by
  cases code <;> simp [isFatal]

/-- Among codes of failures a fatal one decides, then an error in the data. -/
theorem exitCodeMap_primaryCode {codes : List SystemErrorCode} (hne : codes ≠ [])
    (hok : .ok ∉ codes) : exitCodeMap (resolvePrimaryCode codes) =
      if codes.any isFatal then 2
      else if .dataInvalid ∈ codes ∨ .conflict ∈ codes then 1 else 2 := by
  have hnot : codes ≠ [.ok] := fun h => hok (by rw [h]; exact List.mem_singleton_self _)
  unfold resolvePrimaryCode
  rw [if_neg hne, if_neg hnot]
  cases hfind : [SystemErrorCode.internalError,.authUnauthorized,.authForbidden].find?
      fun code => codes.contains code && isFatal code with
  | some code =>
    have hpair : code ∈ codes ∧ isFatal code = true := by
      simpa using List.find?_some hfind
    have hany : codes.any isFatal = true := List.any_eq_true.mpr ⟨code,hpair⟩
    rw [if_pos hany]
    have hmem := (mem_fatal_iff code).mp hpair.2
    simp only [List.mem_cons, List.not_mem_nil, or_false] at hmem
    rcases hmem with rfl | rfl | rfl <;> rfl
  | none =>
    have hany : ¬codes.any isFatal = true := by
      intro h
      obtain ⟨code,hcode,hfatal⟩ := List.any_eq_true.mp h
      have hnone := List.find?_eq_none.mp hfind code ((mem_fatal_iff code).mp hfatal)
      simp [hcode, hfatal] at hnone
    rw [if_neg hany]
    dsimp only
    by_cases hinvalid : .dataInvalid ∈ codes
    · rw [if_pos hinvalid, if_pos (.inl hinvalid)]
      rfl
    by_cases hconflict : .conflict ∈ codes
    · rw [if_neg hinvalid, if_pos hconflict, if_pos (.inr hconflict)]
      rfl
    rw [if_neg hinvalid, if_neg hconflict, if_neg (by simp [hinvalid, hconflict])]
    cases hsort : sortCodes codes with
    | nil =>
      obtain ⟨code,hcode⟩ := List.exists_mem_of_ne_nil _ hne
      have hmem : code ∈ sortCodes codes := List.mem_mergeSort.mpr hcode
      rw [hsort] at hmem
      cases hmem
    | cons first rest =>
      have hfirst : first ∈ codes := by
        have hmem : first ∈ sortCodes codes := by rw [hsort]; exact List.mem_cons_self
        exact List.mem_mergeSort.mp hmem
      show exitCodeMap first = 2
      cases first with
      | ok => exact absurd hfirst hok
      | dataInvalid => exact absurd hfirst hinvalid
      | conflict => exact absurd hfirst hconflict
      | _ => rfl

end NexusEtl
