import NexusEtl.ApplyRuns
import NexusEtl.PlanFile
import NexusEtl.VaultRollout

/-!
# The apply command

The command reads a plan, asks the vault gate, runs the startup guard where the vault is
enabled, and wires the apply service for a real run or a dry one. A dry run touches nothing
but what the startup guard touches, and fails no item that the real run would not fail. The exit
code follows from the items that failed.
-/

set_option autoImplicit false

namespace NexusEtl.ApplyCommand
open NexusEtl.Library

/-- Why there is no plan, and whether the exception is an `OSError` or a `ValueError`. -/
structure PlanReadError where
  exc : PyException
  handled : Bool
  deriving DecidableEq, Repr

/-- How the startup guard fails; its own errors stop the command with their code. -/
inductive StartupFailure
  | startup (code text : String)
  | other (exc : PyException)
  deriving DecidableEq, Repr

structure Options where
  planPath : Option String
  stopOnFirstError : Option Bool := none
  maxActions : Option Int := none
  dryRun : Option Bool := none
  reportItemsLimit : Option Int := none
  vaultMode : Option String := none
  deriving DecidableEq, Repr

/-- The settings of the application that the command reads. -/
structure AppConfig where
  stopOnFirstError : Bool
  maxActions : Option Int
  dryRun : Bool
  itemsLimit : Int
  rollout : VaultRolloutPolicySettings
  deriving DecidableEq, Repr

/-- What the command takes from its container. -/
structure Container (V : Type) where
  readPlan : String → Except PlanReadError Plan
  digest : String → Nat
  vaultReady : V → Except StartupFailure Unit × V
  catalog : String → Except PyException ErrorCatalog
  identityIndexPlan : Except PyException (Dict String (List String) × Dict String String)
  hasApplyRuntime : Bool
  target : Except PyException (RequestSpec → GatewayState → Execution)
  readService : Option String → SecretQuery → V → Except SecretFailure (Option String)
  applyAdapter : String → Option (SecretQuery → V → Except SecretFailure (Option String)) →
    Except PyException (Option (OperationApplyAdapter V))
  retention : RetentionCall → V → Except PyException (Dict String Int) × V
  runMaintenance : V → Except PyException (Dict String Int) × V
  clock : Nat → String

/-- A plan that was applied. -/
structure Applied (V : Type) where
  plan : Plan
  dryRun : Bool
  service : ImportApplyService V
  ctx : ItemProcessContext V
  result : ApplyResult
  progress : ApplyProgress V

structure CommandEnd (V : Type) where
  result : Except PyException CommandResult
  echoes : List String
  outside : Outside V
  applied : Option (Applied V)

section Command

variable {V : Type}

def stopped (o : Outside V) (echo : String) (code : SystemErrorCode) : CommandEnd V :=
  ⟨.ok (resultWith code),[echo],o,none⟩

def raised (o : Outside V) (exc : PyException) : CommandEnd V := ⟨.error exc,[],o,none⟩

variable (container : Container V) (config : AppConfig) (opts : Options) (runId : String)

def vaultRequest (plan : Plan) : VaultRequest :=
  { mode := opts.vaultMode
    requiresVault := planRequiresVault plan.items
    dataset := plan.planMeta.dataset
    runId := some ((plan.planMeta.runId.filter (· ≠ "")).getD runId) }

def rolloutDecision (plan : Plan) : VaultRolloutDecision :=
  importApplyGate.rolloutOf config.rollout container.digest (vaultRequest opts runId plan)

def isDryRun (plan : Plan) : Bool :=
  opts.dryRun.getD config.dryRun || (rolloutDecision container config opts runId plan).forceDryRun

def applyOptions : ApplyOptions :=
  { stopOnFirstError := opts.stopOnFirstError.getD config.stopOnFirstError
    maxActions := opts.maxActions.or config.maxActions }

/-- The syncer of a process that could not read the index plan knows no keys. -/
def identitySyncer : Option IdentityIndexSyncer :=
  if container.hasApplyRuntime then
    match container.identityIndexPlan with
    | .ok (keys,idFields) => some ⟨keys,idFields⟩
    | .error _ => some ⟨[],[]⟩
  else none

def serviceFor (dryRun vaultEnabled : Bool)
    (executor : RequestSpec → GatewayState → Execution) : ImportApplyService V :=
  { executor := if dryRun then dryRunExecutor else executor
    identitySyncer := identitySyncer container
    secretRetention := if dryRun || !vaultEnabled then none else some container.retention
    allowPostSuccessSideEffects := !dryRun }

/-- `secret_retention.run_maintenance()`, where there is a retention service. -/
def maintain (service : ImportApplyService V) (vault : V) : Except PyException Unit × V :=
  match service.secretRetention with
  | none => (.ok (),vault)
  | some _ => let (stats,vault) := container.runMaintenance vault; (stats.map fun _ => (),vault)

def commandResult (codes : List SystemErrorCode) : CommandResult :=
  codes.foldl CommandResult.addCode CommandResult.empty

/-- From the wired service to the result of the command. -/
def applyWith (service : ImportApplyService V) (catalog : ErrorCatalog)
    (adapter : Option (OperationApplyAdapter V)) (plan : Plan) (dryRun : Bool)
    (o : Outside V) : CommandEnd V :=
  let limit := opts.reportItemsLimit.getD config.itemsLimit
  match service.applyPlan plan catalog adapter (applyOptions config opts) limit container.clock
      (ImportApplyService.startProgress o.gateway o.db o.vault) with
  | .error exc => raised o exc
  | .ok (result,progress) =>
    let ctx := ImportApplyService.contextOf plan catalog adapter
      (plan.planMeta.dataset.getD "") limit
    let (ended,vault) := maintain container service progress.state.vault
    { result := ended.map fun _ => commandResult result.allCodes
      echoes := []
      outside := { progress.state.outside with vault := vault }
      applied := some ⟨plan,dryRun,service,ctx,result,progress⟩ }

/-- What the service is made of: the catalog, the executor of the target and the adapter of the
dataset, which reads secrets where the vault is enabled. -/
structure Parts (V : Type) where
  catalog : ErrorCatalog
  executor : RequestSpec → GatewayState → Execution
  adapter : Option (OperationApplyAdapter V)

def wire (plan : Plan) (vaultEnabled : Bool) : Except PyException (Parts V) := do
  let dataset := plan.planMeta.dataset.getD ""
  let catalog ← container.catalog dataset
  let executor ← container.target
  let adapter ← container.applyAdapter dataset
    (if vaultEnabled then some (container.readService plan.planMeta.runId) else none)
  return ⟨catalog,executor,adapter⟩

/-- The handler from the passed startup guard on. -/
def applyEnabled (plan : Plan) (o : Outside V) : CommandEnd V :=
  let enabled := (rolloutDecision container config opts runId plan).vaultEnabled
  let dryRun := isDryRun container config opts runId plan
  match wire container plan enabled with
  | .error exc => raised o exc
  | .ok parts => applyWith container config opts (serviceFor container dryRun enabled parts.executor)
      parts.catalog parts.adapter plan dryRun o

def guarded (plan : Plan) (o : Outside V) : CommandEnd V :=
  if (rolloutDecision container config opts runId plan).vaultEnabled then
    match container.vaultReady o.vault with
    | (.ok _,vault) => applyEnabled container config opts runId plan { o with vault := vault }
    | (.error (.startup code text),vault) =>
      stopped { o with vault := vault } ("ERROR: " ++ code ++ ": " ++ text) .internalError
    | (.error (.other exc),vault) => raised { o with vault := vault } exc
  else applyEnabled container config opts runId plan o

def applyRead (plan : Plan) (o : Outside V) : CommandEnd V :=
  match importApplyGate.refusal config.rollout container.digest (vaultRequest opts runId plan) with
  | some echo => stopped o echo .internalError
  | none => guarded container config opts runId plan o

def handler (o : Outside V) : CommandEnd V :=
  match opts.planPath.filter (· ≠ "") with
  | none => stopped o "ERROR: --plan is required (apply no longer builds plan from CSV)" .ioError
  | some path =>
    match container.readPlan path with
    | .error err =>
      if err.handled then stopped o ("ERROR: import apply failed: " ++ err.exc.text) .ioError
      else raised o err.exc
    | .ok plan => applyRead container config opts runId plan o

end Command

/-! ## What a call of the handler comes to -/

section Cases

variable {V : Type} (container : Container V) (config : AppConfig) (opts : Options)
  (runId : String) (o : Outside V)

/-- The command ends without applying a plan: of all outside only the startup guard can have
changed something, and a result that it returns is that of a failure. -/
structure Halts (e : CommandEnd V) : Prop where
  applied : e.applied = none
  outside : e.outside = o ∨ e.outside = { o with vault := (container.vaultReady o.vault).2 }
  result : ∀ result, e.result = .ok result → result.exitCode = 2

/-- What a run that gets as far as the apply service has been given. -/
structure Wired (plan : Plan) where
  path : String
  vault : V
  parts : Parts V
  named : opts.planPath.filter (· ≠ "") = some path
  read : container.readPlan path = .ok plan
  allowed : importApplyGate.refusal config.rollout container.digest
    (vaultRequest opts runId plan) = none
  ready : if (rolloutDecision container config opts runId plan).vaultEnabled then
      container.vaultReady o.vault = (.ok (),vault)
    else vault = o.vault
  wired : wire container plan (rolloutDecision container config opts runId plan).vaultEnabled =
    .ok parts

variable {container config opts runId o}

theorem halts_raised {exc : PyException} {o' : Outside V}
    (h : o' = o ∨ o' = { o with vault := (container.vaultReady o.vault).2 }) :
    Halts container o (raised o' exc) :=
  ⟨rfl,h,fun _ hr => by cases hr⟩

theorem halts_stopped {echo : String} {code : SystemErrorCode} {o' : Outside V}
    (hcode : exitCodeMap code = 2)
    (h : o' = o ∨ o' = { o with vault := (container.vaultReady o.vault).2 }) :
    Halts container o (stopped o' echo code) := by
  refine ⟨rfl,h,fun result hr => ?_⟩
  obtain rfl := Except.ok.inj hr
  rw [exitCode_resultWith, hcode]

namespace Wired

variable {plan : Plan} (w : Wired container config opts runId o plan)

def dryRun (_ : Wired container config opts runId o plan) : Bool :=
  isDryRun container config opts runId plan

def service : ImportApplyService V :=
  serviceFor container w.dryRun (rolloutDecision container config opts runId plan).vaultEnabled
    w.parts.executor

def started : Outside V := { o with vault := w.vault }

theorem started_cases :
    w.started = o ∨ w.started = { o with vault := (container.vaultReady o.vault).2 } := by
  have hready := w.ready
  split_ifs at hready with henabled
  · right
    rw [hready, started]
  · left
    rw [started, hready]

end Wired

theorem Wired.handler_eq {plan : Plan} (w : Wired container config opts runId o plan) :
    handler container config opts runId o =
      applyWith container config opts w.service w.parts.catalog w.parts.adapter plan w.dryRun
        w.started := by
  have henabled (o' : Outside V) : applyEnabled container config opts runId plan o' =
      applyWith container config opts w.service w.parts.catalog w.parts.adapter plan w.dryRun
        o' := by
    unfold applyEnabled
    simp only [w.wired]
    rfl
  have hready := w.ready
  unfold handler
  simp only [w.named, w.read]
  unfold applyRead
  rw [w.allowed]
  unfold Wired.started guarded
  split_ifs at hready with h
  · rw [if_pos h, hready]
    exact henabled _
  · rw [if_neg h, hready]
    exact henabled o

/-- The last part of the handler, once the startup guard has left the vault as it is. -/
theorem applyEnabled_cases {plan : Plan} {path : String} {vault : V}
    (hpath : opts.planPath.filter (· ≠ "") = some path)
    (hplan : container.readPlan path = .ok plan)
    (hallowed : importApplyGate.refusal config.rollout container.digest
      (vaultRequest opts runId plan) = none)
    (hready : if (rolloutDecision container config opts runId plan).vaultEnabled then
        container.vaultReady o.vault = (.ok (),vault) else vault = o.vault) :
    Halts container o (applyEnabled container config opts runId plan { o with vault := vault }) ∨
      Nonempty (Wired container config opts runId o plan) := by
  have hstart : ({ o with vault := vault } : Outside V) = o ∨
      ({ o with vault := vault } : Outside V) =
        { o with vault := (container.vaultReady o.vault).2 } := by
    split_ifs at hready
    · exact .inr (by rw [hready])
    · exact .inl (by rw [hready])
  unfold applyEnabled
  cases hwired : wire container plan (rolloutDecision container config opts runId plan).vaultEnabled with
  | error exc =>
    simp only [hwired]
    exact .inl (halts_raised hstart)
  | ok parts => exact .inr ⟨⟨path,vault,parts,hpath,hplan,hallowed,hready,hwired⟩⟩

variable (container config opts runId o) in
/-- A call of the handler halts early or is wired for its plan. -/
theorem handler_cases : Halts container o (handler container config opts runId o) ∨
    ∃ plan, Nonempty (Wired container config opts runId o plan) := by
  unfold handler
  split
  · exact .inl (halts_stopped rfl (.inl rfl))
  rename_i path hpath
  split
  · rename_i err _
    cases err.handled with
    | true => exact .inl (halts_stopped rfl (.inl rfl))
    | false => exact .inl (halts_raised (.inl rfl))
  rename_i plan hplan
  unfold applyRead
  split
  · exact .inl (halts_stopped rfl (.inl rfl))
  rename_i hallowed
  unfold guarded
  split_ifs with henabled
  · cases hready : container.vaultReady o.vault with
    | mk outcome vault =>
      have hvault : (container.vaultReady o.vault).2 = vault := by rw [hready]
      cases outcome with
      | ok _ =>
        refine (applyEnabled_cases hpath hplan hallowed ?_).imp_right fun hw => ⟨plan,hw⟩
        rw [if_pos henabled, hready]
      | error failure =>
        left
        cases failure with
        | startup code text => exact halts_stopped rfl (.inr (by rw [hvault]))
        | other exc => exact halts_raised (.inr (by rw [hvault]))
  · refine (applyEnabled_cases hpath hplan hallowed ?_).imp_right fun hw => ⟨plan,hw⟩
    rw [if_neg henabled]

namespace Wired

variable {plan : Plan} (w : Wired container config opts runId o plan)

def ctx : ItemProcessContext V :=
  ImportApplyService.contextOf plan w.parts.catalog w.parts.adapter
    (plan.planMeta.dataset.getD "") (opts.reportItemsLimit.getD config.itemsLimit)

/-- The progress of the apply loop at its end. -/
def final : ApplyProgress V :=
  w.service.runItems w.ctx (applyOptions config opts) container.clock plan.items
    (ImportApplyService.startProgress w.started.gateway w.started.db w.started.vault)

def ended : Except PyException Unit × V := maintain container w.service w.final.state.vault

def run : Applied V :=
  ⟨plan,w.dryRun,w.service,w.ctx,ImportApplyService.resultOf plan w.final,w.final⟩

def ending : CommandEnd V :=
  { result := w.ended.1.map fun _ => commandResult w.run.result.allCodes
    echoes := []
    outside := { w.final.state.outside with vault := w.ended.2 }
    applied := some w.run }

/-- A wired call comes through the loop over the items, or raises for want of a dataset. -/
theorem handler_ends : handler container config opts runId o =
    if (plan.planMeta.dataset.getD "") = "" then
      raised w.started ⟨"ValueError","Plan meta.dataset is required for apply"⟩
    else w.ending := by
  rw [w.handler_eq]
  unfold applyWith ImportApplyService.applyPlan
  cases hdataset : plan.planMeta.dataset with
  | none => rfl
  | some name =>
    by_cases hname : name = ""
    · subst hname
      rfl
    · have hfilter : (some name).filter (fun d => d != "") = some name := by
        simpa [Option.filter_some] using hname
      rw [if_neg (show ¬(some name).getD "" = "" from hname)]
      simp only [hfilter, ending, run, ended, final, ctx, hdataset]
      rfl

end Wired

variable (container config opts runId o) in
/-- How a call of the handler ends: it halts early, or it comes through the loop. -/
theorem handler_ends : Halts container o (handler container config opts runId o) ∨
    ∃ plan, ∃ w : Wired container config opts runId o plan,
      handler container config opts runId o = w.ending := by
  rcases handler_cases container config opts runId o with hhalts | ⟨plan,⟨w⟩⟩
  · exact .inl hhalts
  · have hends := w.handler_ends
    split_ifs at hends
    · left
      rw [hends]
      exact halts_raised w.started_cases
    · exact .inr ⟨plan,w,hends⟩

end Cases

/-! ## A plan of two items -/

/-- The first item has no id, so that no request can be built for it; the target refuses the
second. -/
def movedPlan : Plan :=
  let item (rowId : String) (targetId : Value) : PlanItem :=
    { rowId := rowId, lineNo := none, op := .update, targetId := targetId
      desiredState := [("city",.str "Oslo")], changes := [], sourceRef := none
      secretFields := [], secretLifecycle := none }
  ⟨⟨some "r1",some "people"⟩,⟨2,2,0,0,2,0⟩,[item "line:2" .null,item "line:3" (.str "7f")]⟩

def movedContainer : Container Unit :=
  { readPlan := fun _ => .ok movedPlan
    digest := fun _ => 7
    vaultReady := fun vault => (.ok (),vault)
    catalog := fun _ => .ok []
    identityIndexPlan := .ok ([],[])
    hasApplyRuntime := true
    target := .ok fun _ gateway =>
      ⟨.ok ⟨false,.int 409,.null,.none,some .conflict,none,none,none⟩,gateway,[]⟩
    readService := fun _ _ _ => .ok none
    applyAdapter := fun _ _ => .ok (some ⟨"users.upsert",.ok,"people",.targetId,none⟩)
    retention := fun _ vault => (.ok [],vault)
    runMaintenance := fun vault => (.ok [],vault)
    clock := fun _ => "now" }

def movedConfig : AppConfig := ⟨false,none,false,10,{ }⟩

def movedOptions : Options := { planPath := some "plan.json" }

def nowhere : Outside Unit := ⟨⟨0,0,0,0⟩,IdentityDb.empty,()⟩

def movedRun (dryRun : Bool) : CommandEnd Unit :=
  handler movedContainer movedConfig { movedOptions with dryRun := some dryRun } "r2" nowhere

section Results

open ImportApplyService

variable {V : Type} {container : Container V} {config : AppConfig} {opts : Options}
  {runId : String} {o : Outside V}

/-! ## Dry runs -/

theorem serviceFor_dry (enabled : Bool) (executor : RequestSpec → GatewayState → Execution) :
    Dry (serviceFor container true enabled executor) := ⟨rfl,rfl⟩

theorem maintain_dry (enabled : Bool) (executor : RequestSpec → GatewayState → Execution)
    (vault : V) : maintain container (serviceFor container true enabled executor) vault =
      (.ok (),vault) := rfl

theorem Wired.dry {plan : Plan} {w : Wired container config opts runId o plan}
    (h : w.dryRun = true) : Dry w.service ∧
      ∀ vault, maintain container w.service vault = (.ok (),vault) := by
  unfold Wired.service
  rw [h]
  exact ⟨serviceFor_dry _ _,maintain_dry _ _⟩

theorem applied_dryRun {run : Applied V}
    (h : run ∈ (handler container config opts runId o).applied) :
    run.dryRun = isDryRun container config opts runId run.plan := by
  rcases handler_ends container config opts runId o with hhalts | ⟨plan,w,hend⟩
  · rw [hhalts.applied] at h
    cases h
  · rw [hend] at h
    obtain rfl := Option.some.inj h
    rfl

/-- A call that applies no plan, or applies it dry, changes nothing outside that the startup
guard does not change, and the dry run sends nothing and indexes nothing. -/
theorem dry_run_clean
    (hdry : ∀ run ∈ (handler container config opts runId o).applied, run.dryRun = true) :
    ((handler container config opts runId o).outside = o ∨
      (handler container config opts runId o).outside =
        { o with vault := (container.vaultReady o.vault).2 }) ∧
    ∀ run ∈ (handler container config opts runId o).applied, ∀ e ∈ run.progress.events,
      e.record?.isSome = true := by
  rcases handler_ends container config opts runId o with hhalts | ⟨plan,w,hend⟩
  · refine ⟨hhalts.outside,fun run hrun => ?_⟩
    rw [hhalts.applied] at hrun
    cases hrun
  · have hw : w.dryRun = true := hdry _ (by rw [hend]; rfl)
    obtain ⟨hservice,hmaintain⟩ := Wired.dry hw
    have hfinal : w.final.state.outside = w.started ∧ ∀ e ∈ w.final.events, e.record?.isSome = true :=
      Dry.runItems hservice plan.items fun e he => by cases he
    have hended : w.ended.2 = w.final.state.vault := by
      rw [Wired.ended, hmaintain]
    have houtside : w.ending.outside = w.started := by
      show { w.final.state.outside with vault := w.ended.2 } = w.started
      rw [hended]
      exact hfinal.1
    rw [hend, houtside]
    refine ⟨w.started_cases,fun run hrun => ?_⟩
    obtain rfl := Option.some.inj hrun
    exact hfinal.2

theorem dry_run_clean_moved :
    ((movedRun true).outside = nowhere ∨ (movedRun true).outside =
        { nowhere with vault := (movedContainer.vaultReady nowhere.vault).2 }) ∧
      ∀ run ∈ (movedRun true).applied, ∀ e ∈ run.progress.events, e.record?.isSome = true :=
  @dry_run_clean Unit movedContainer movedConfig { movedOptions with dryRun := some true } "r2"
    nowhere fun _ hrun => applied_dryRun hrun

/-- The same wiring for another choice of the dry run. -/
def Wired.withDryRun {plan : Plan} (w : Wired container config opts runId o plan)
    (dryRun : Option Bool) : Wired container config { opts with dryRun := dryRun } runId o plan :=
  ⟨w.path,w.vault,w.parts,w.named,w.read,w.allowed,w.ready,w.wired⟩

/-- The errors of a dry run are among those of any run that is wired alike, when that run does
not stop at the first error and cleans up no secret that its items need. -/
theorem Wired.final_errors {plan : Plan} (w : Wired container config opts runId o plan)
    (hdry : w.dryRun = true) (dryRun : Option Bool)
    (hgo : opts.stopOnFirstError.getD config.stopOnFirstError = false)
    (hspares : Spares (w.withDryRun dryRun).service (w.withDryRun dryRun).ctx plan.items) :
    (reportedErrors w.final.events).Sublist
      (reportedErrors (w.withDryRun dryRun).final.events) := by
  have hstart : Shadows w.ctx plan.items
      (startProgress w.started.gateway w.started.db w.started.vault)
      (startProgress w.started.gateway w.started.db w.started.vault) :=
    ⟨fun _ _ => rfl,rfl,rfl,.refl _⟩
  exact (Wired.dry hdry).1.runItems_shadows hspares hgo (fun _ hitem => hitem) hstart

theorem moved_applied (dryRun : Bool) : (movedRun dryRun).applied.isSome = true := by
  cases dryRun <;> rfl

theorem mem_commandResult {codes : List SystemErrorCode} {code : SystemErrorCode} :
    code ∈ (commandResult codes).systemCodes ↔ code ∈ codes := by
  have hfold (result : CommandResult) :
      code ∈ (codes.foldl CommandResult.addCode result).systemCodes ↔
        code ∈ result.systemCodes ∨ code ∈ codes := by
    induction codes generalizing result with
    | nil => simp
    | cons c codes ih =>
      rw [List.foldl_cons, ih, mem_systemCodes_addCode]
      simp [or_assoc]
  rw [commandResult, hfold]
  simp [CommandResult.empty]

/-- The exit code of a result whose codes are those of some diagnostics. -/
theorem exitCode_commandResult {catalog : ErrorCatalog} {codes : List SystemErrorCode}
    {errors : List DiagnosticItem} (hok : ∀ code, catalog.classify code ≠ .ok)
    (hcodes : ∀ c, c ∈ codes ↔ ∃ d ∈ errors, c = catalog.classify d.code) :
    (commandResult (sortCodes (if codes = [] then [.ok] else codes))).exitCode =
      exitCodeOf catalog errors := by
  by_cases hnil : errors = []
  · have hempty : codes = [] := by
      rw [List.eq_nil_iff_forall_not_mem]
      intro c hc
      obtain ⟨d,hd,_⟩ := (hcodes c).mp hc
      rw [hnil] at hd
      cases hd
    have hsorted : sortCodes [.ok] = [.ok] := by simp [sortCodes]
    rw [hempty, hnil, if_pos rfl, hsorted]
    exact exitCode_resultWith .ok
  · obtain ⟨d,hd⟩ := List.exists_mem_of_ne_nil _ hnil
    have hne : codes ≠ [] := List.ne_nil_of_mem ((hcodes _).mpr ⟨d,hd,rfl⟩)
    have hmem : ∀ c, c ∈ (commandResult (sortCodes codes)).systemCodes ↔
        c ∈ errors.map fun d => catalog.classify d.code := by
      intro c
      rw [mem_commandResult, sortCodes, List.mem_mergeSort, hcodes]
      simp [eq_comm]
    have hmap : (errors.map fun d => catalog.classify d.code) ≠ [] := by simpa using hnil
    have hsome : (commandResult (sortCodes codes)).systemCodes ≠ [] := by
      obtain ⟨c,hc⟩ := List.exists_mem_of_ne_nil _ hmap
      exact List.ne_nil_of_mem ((hmem c).mpr hc)
    have hnot : .ok ∉ (commandResult (sortCodes codes)).systemCodes := by
      intro h
      obtain ⟨e,_,he⟩ := List.mem_map.mp ((hmem .ok).mp h)
      exact hok e.code he
    have hfatal : (commandResult (sortCodes codes)).systemCodes.any isFatal =
        (errors.map fun d => catalog.classify d.code).any isFatal := by
      rw [Bool.eq_iff_iff, List.any_eq_true, List.any_eq_true]
      simp only [hmem]
    rw [if_neg hne]
    show exitCodeMap (resolvePrimaryCode _) = _
    rw [exitCodeMap_primaryCode hsome hnot, hfatal, exitCodeOf, if_neg hmap]
    simp only [hmem]

theorem wire_catalog {plan : Plan} {enabled : Bool} {parts : Parts V}
    (h : wire container plan enabled = .ok parts) :
    container.catalog (plan.planMeta.dataset.getD "") = .ok parts.catalog := by
  unfold wire at h
  cases hcatalog : container.catalog (plan.planMeta.dataset.getD "") with
  | error exc =>
    simp only [hcatalog] at h
    cases h
  | ok catalog =>
    simp only [hcatalog, bind, Except.bind, pure, Except.pure] at h
    split at h
    · cases h
    · split at h
      · cases h
      · rw [← Except.ok.inj h]

theorem startProgress_registered (catalog : ErrorCatalog) (o' : Outside V) :
    Registered catalog (startProgress o'.gateway o'.db o'.vault) :=
  ⟨fun c => by simp [startProgress, reportedErrors],by simp [startProgress, reportedErrors]⟩

theorem exitCodeOf_eq_zero {catalog : ErrorCatalog} {errors : List DiagnosticItem} :
    exitCodeOf catalog errors = 0 ↔ errors = [] := by
  unfold exitCodeOf
  dsimp only
  split_ifs with hnil
  · simpa using hnil
  all_goals simpa using hnil

/-- A result that the command returns has the exit code 2 where no plan was applied, and else
the one that the reported errors call for; it is 0 exactly when a plan was applied and no item of
it failed. -/
theorem handler_exitCode (hok : ∀ dataset catalog, container.catalog dataset = .ok catalog →
      ∀ code, catalog.classify code ≠ .ok) {result : CommandResult}
    (h : (handler container config opts runId o).result = .ok result) :
    (result.exitCode = match (handler container config opts runId o).applied with
      | none => 2
      | some run => exitCodeOf run.ctx.catalog (reportedErrors run.progress.events)) ∧
    (result.exitCode = 0 ↔ ∃ run ∈ (handler container config opts runId o).applied,
      run.result.summary.failed = 0) := by
  rcases handler_ends container config opts runId o with hhalts | ⟨plan,w,hend⟩
  · rw [hhalts.applied, hhalts.result result h]
    simp
  · rw [hend] at h ⊢
    have hregistered : Registered w.parts.catalog w.final :=
      @runItems_registered V w.service w.ctx (applyOptions config opts) container.clock plan.items
        _ (startProgress_registered w.parts.catalog w.started)
    have hcatalog := hok _ _ (wire_catalog w.wired)
    have hresult : commandResult w.run.result.allCodes = result := by
      change w.ended.1.map _ = .ok result at h
      cases hended : w.ended.1 with
      | error exc =>
        rw [hended] at h
        cases h
      | ok _ =>
        rw [hended] at h
        exact Except.ok.inj h
    have hexit : result.exitCode = exitCodeOf w.parts.catalog (reportedErrors w.final.events) := by
      rw [← hresult]
      exact exitCode_commandResult hcatalog hregistered.codes
    refine ⟨hexit,?_⟩
    rw [hexit, exitCodeOf_eq_zero, ← hregistered.failed]
    constructor
    · exact fun hzero => ⟨_,rfl,hzero⟩
    · rintro ⟨run,hrun,hzero⟩
      obtain rfl := Option.some.inj hrun
      exact hzero

theorem handler_exitCode_moved : ∃ result, (movedRun false).result = .ok result ∧
    (result.exitCode = match (movedRun false).applied with
      | none => 2
      | some run => exitCodeOf run.ctx.catalog (reportedErrors run.progress.events)) ∧
    (result.exitCode = 0 ↔ ∃ run ∈ (movedRun false).applied, run.result.summary.failed = 0) := by
  obtain ⟨result,hresult⟩ : ∃ result, (movedRun false).result = .ok result := ⟨_,rfl⟩
  refine ⟨result,hresult,handler_exitCode (fun dataset catalog hcatalog code => ?_) hresult⟩
  obtain rfl := Except.ok.inj hcatalog
  intro h
  cases h

end Results

/-! ## The gate of planning and the gate of apply -/

theorem enabled_requested {command : GatedCommand} {settings : VaultRolloutPolicySettings}
    {digest : String → Nat} {request : VaultRequest}
    (h : (command.rolloutOf settings digest request).vaultEnabled = true) :
    (resolveVaultRuntimeMode request.mode request.requiresVault).requestedVault = true := by
  unfold GatedCommand.rolloutOf at h
  cases hrequested : (resolveVaultRuntimeMode request.mode request.requiresVault).requestedVault with
  | true => rfl
  | false =>
    rw [hrequested] at h
    cases h

/-- A request with a valid mode other than `off` passes a gate that grants the vault. -/
theorem refusal_none {command : GatedCommand} {settings : VaultRolloutPolicySettings}
    {digest : String → Nat} {request : VaultRequest}
    (hmode : normalizeVaultMode request.mode = (.auto,true) ∨
      normalizeVaultMode request.mode = (.on,true))
    (hgranted : (resolveVaultRuntimeMode request.mode request.requiresVault).requestedVault = true →
      (command.rolloutOf settings digest request).vaultEnabled = true) :
    command.refusal settings digest request = none := by
  have hdecision : (resolveVaultRuntimeMode request.mode request.requiresVault).reason ≠
      .invalidMode ∧ (resolveVaultRuntimeMode request.mode request.requiresVault).mode ≠ .off := by
    rcases hmode with h | h
    · refine ⟨?_,by simp [resolveVaultRuntimeMode, h]⟩
      cases hrequires : request.requiresVault <;> simp [resolveVaultRuntimeMode, h]
    · simp [resolveVaultRuntimeMode, h]
  unfold GatedCommand.refusal
  dsimp only
  rw [if_neg hdecision.1, if_neg fun h => hdecision.2 h.1, if_neg]
  rintro ⟨hrequested,hdenied⟩
  rw [hgranted hrequested] at hdenied
  cases hdenied

end NexusEtl.ApplyCommand
