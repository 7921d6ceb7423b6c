import NexusEtl.Apply
import NexusEtl.Library.Programs

/-!
# The command lifecycle

The orchestrator runs one command: it creates the container, opens the
observability session, checks the requirements, initialises the resources,
bootstraps the topology and calls the handler. The first of these to raise or to
return a result decides the result of the command. Whatever happened, the standard
streams are restored, each resource subcontainer is shut down, the report is
finalised, and the observability runtime is closed last.
-/

set_option autoImplicit false

namespace NexusEtl
open NexusEtl.Library

/-- The system codes are a set, listed in the order in which they were added. -/
structure CommandResult where
  systemCodes : List SystemErrorCode
  diagnostics : List DiagnosticItem
  deriving DecidableEq, Repr

def exitCodeMap : SystemErrorCode → Nat
  | .ok => 0
  | .dataInvalid | .conflict => 1
  | _ => 2

namespace CommandResult

def empty : CommandResult := ⟨[],[]⟩

def addCode (result : CommandResult) (code : SystemErrorCode) : CommandResult :=
  if code ∈ result.systemCodes then result
  else { result with systemCodes := result.systemCodes ++ [code] }

def addDiagnostics (catalog : ErrorCatalog) (result : CommandResult)
    (items : List DiagnosticItem) : CommandResult :=
  items.foldl (fun r item =>
    addCode { r with diagnostics := r.diagnostics ++ [item] } (catalog.classify item.code)) result

def primaryCode (result : CommandResult) : SystemErrorCode :=
  resolvePrimaryCode result.systemCodes

def exitCode (result : CommandResult) : Nat := exitCodeMap result.primaryCode

end CommandResult

def resultWith (code : SystemErrorCode) : CommandResult := CommandResult.empty.addCode code

@[simp] theorem exitCode_resultWith (code : SystemErrorCode) :
    (resultWith code).exitCode = exitCodeMap code := by
  have hprimary : resolvePrimaryCode [code] = code := by
    cases code <;> simp [resolvePrimaryCode, isFatal, sortCodes]
  show exitCodeMap (resolvePrimaryCode [code]) = _
  rw [hprimary]

theorem exitCodeMap_eq_zero {code : SystemErrorCode} : exitCodeMap code = 0 ↔ code = .ok := by
  cases code <;> simp [exitCodeMap]

structure SettingsIssue where
  code : String
  fieldPath : String
  source : String
  rawValue : Value
  message : String
  hint : String

/-- The classes of exceptions that the orchestrator tells apart. -/
inductive FaultKind
  | settingsLoad (issues : List SettingsIssue)
  | dslLoad (code : String) (details : Fields)
  | runtimeWithCode (exitCode : Int)
  | sqlite
  | vaultDomain (code : String)
  | other

structure RuntimeFault where
  kind : FaultKind
  exc : PyException

def stageForCommand (command : String) : DiagnosticStage :=
  let normalized := Text.lower (command.map fun c => if c = '-' then '_' else c)
  let stages : Dict String DiagnosticStage :=
    [("mapping",.map), ("normalize",.normalize), ("enrich",.enrich), ("match",.matching),
     ("resolve",.resolve), ("import_plan",.plan), ("import_apply",.apply),
     ("cache_refresh",.cache), ("cache_clear",.cache), ("cache_status",.cache),
     ("vault_management_init",.sink), ("vault_management_status",.sink),
     ("vault_management_rotate",.sink), ("vault_management_rewrap",.sink)]
  (Dict.get? stages normalized).getD .sink

def translateSettingsIssue (catalog : ErrorCatalog) (stage : DiagnosticStage)
    (issue : SettingsIssue) : DiagnosticItem :=
  diagError catalog stage issue.code (some issue.fieldPath) (some issue.message) none
    (some [("source",.str issue.source), ("raw_value",issue.rawValue), ("hint",.str issue.hint)])

def translateSettingsLoadError (catalog : ErrorCatalog) (stage : DiagnosticStage)
    (issues : List SettingsIssue) : List DiagnosticItem :=
  issues.map (translateSettingsIssue catalog stage)

def buildRuntimeErrorResult (catalog : ErrorCatalog) (command message : String)
    (details : Fields) : CommandResult :=
  CommandResult.empty.addDiagnostics catalog
    [diagError catalog (stageForCommand command) "INTERNAL_ERROR" none (some message) none
      (some details)]

def echoCommandDiagnostics (text : String) (items : List DiagnosticItem) : List String :=
  text :: items.map fun item =>
    let field := match item.field.filter (· != "") with
      | some f => " (" ++ f ++ ")"
      | none => ""
    "- [" ++ item.code ++ "]" ++ field ++ " " ++ item.message

/-- What an `except` branch makes of its exception: the lines for the user, the result of the
command and the source under which the report names it. -/
structure FaultReport where
  echoes : List String
  result : CommandResult
  source : String

def RuntimeFault.report (catalog : ErrorCatalog) (command : String) (fault : RuntimeFault) :
    FaultReport :=
  match fault.kind with
  | .settingsLoad issues =>
    let items := translateSettingsLoadError catalog (stageForCommand command) issues
    { echoes := echoCommandDiagnostics "ERROR: invalid settings configuration" items
      result := CommandResult.empty.addDiagnostics catalog items
      source := "settings_load_error" }
  | .dslLoad code details =>
    let item := diagError catalog (stageForCommand command) code none (some fault.exc.text) none
      (some details)
    { echoes := ["ERROR: " ++ code ++ ": " ++ fault.exc.text]
      result := CommandResult.empty.addDiagnostics catalog [item]
      source := "dsl_load_error" }
  | .runtimeWithCode exitCode =>
    { echoes := ["ERROR: " ++ fault.exc.text]
      result := buildRuntimeErrorResult catalog command fault.exc.text
        [("runtime_exit_code",.int exitCode), ("runtime_error",.str "RuntimeErrorWithCode")]
      source := "runtime_validation_error" }
  | _ =>
    { echoes := ["ERROR: command failed (see logs/report)"]
      result := buildRuntimeErrorResult catalog command fault.exc.text
        [("runtime_error",.str fault.exc.name)]
      source := "runtime_exception" }

/-- The codes of the diagnostics that an exception becomes. -/
def RuntimeFault.codes (fault : RuntimeFault) : List String :=
  match fault.kind with
  | .settingsLoad issues => issues.map SettingsIssue.code
  | .dslLoad code _ => [code]
  | _ => ["INTERNAL_ERROR"]

inductive Subcontainer
  | target | dictionary | cache | sqlite | vault | pipeline
  deriving DecidableEq, Repr

/-- The subcontainers that own resources. -/
def resourceShutdownContainers : List Subcontainer := [.target, .dictionary, .cache, .sqlite]

inductive OutStream
  | raw (name : String)
  | tee (original : OutStream) (logged : String)
  deriving DecidableEq, Repr

structure SysStreams where
  stdout : OutStream
  stderr : OutStream
  deriving DecidableEq, Repr

inductive LifecycleEvent
  | createContainer | openObservability | captureStreams | validateRequirements
  | initResources | bootstrapTopology | runHandler
  | echo (text : String)
  | reported (source : String) (result : Option CommandResult) (secondary : Bool)
  | restoreStreams
  | shutdown (sub : Subcontainer)
  | finalizeReport | publishPointers
  | recordLedger (final : Option CommandResult)
  | closeObservability | clearContext
  deriving DecidableEq

/-- How each phase of a command ends. -/
structure CommandPhases where
  createContainer : Except RuntimeFault Unit
  openObservability : Except RuntimeFault Unit
  validateRequirements : Except RuntimeFault Unit
  initContainer : Except RuntimeFault Unit
  bootstrapTopology : Except RuntimeFault (Option CommandResult)
  handler : Except RuntimeFault (Option CommandResult)
  shutdown : Subcontainer → Except RuntimeFault Unit
  finalizeReport : Except RuntimeFault Unit
  closeObservability : Except RuntimeFault Unit

structure Lifecycle where
  streams : SysStreams
  hasContainer : Bool
  exitResult : Option CommandResult
  events : List LifecycleEvent

namespace Lifecycle

def note (event : LifecycleEvent) (run : Lifecycle) : Lifecycle :=
  { run with events := run.events ++ [event] }

/-- `exit_code_from_result`; without a result the command returns normally. -/
def exitCode (run : Lifecycle) : Nat :=
  match run.exitResult with
  | none => 0
  | some result => result.exitCode

end Lifecycle

abbrev LifecycleProg := Prog Lifecycle RuntimeFault

namespace LifecycleProg

def attempt {A : Type} (event : LifecycleEvent) (outcome : Except RuntimeFault A) :
    LifecycleProg A :=
  .atomic fun run => (outcome,run.note event)

def modify (change : Lifecycle → Lifecycle) : LifecycleProg Unit :=
  .atomic fun run => (.ok (),change run)

def echo (text : String) : LifecycleProg Unit := modify (Lifecycle.note (.echo text))

/-- Stores the result of the command and puts it into the report. -/
def settle (source : String) (result : Option CommandResult) : LifecycleProg Unit :=
  modify fun run => { run.note (.reported source result false) with exitResult := result }

end LifecycleProg

open LifecycleProg

/-- A failed `init` becomes a result, save for an error of the DSL, which is raised on. -/
def initializeContainerResources (phases : CommandPhases) :
    LifecycleProg (Option CommandResult) := do
  modify (Lifecycle.note .initResources)
  match phases.initContainer with
  | .ok _ => return none
  | .error fault =>
    match fault.kind with
    | .dslLoad _ _ => throw fault
    | .sqlite =>
      echo "ERROR: failed to initialize cache resources (see logs/report)"
      return some (resultWith .cacheError)
    | .vaultDomain code =>
      echo ("ERROR: " ++ code ++ ": " ++ fault.exc.text)
      return some (resultWith .internalError)
    | _ =>
      echo "ERROR: failed to initialize runtime resources (see logs/report)"
      return some (resultWith .internalError)

def bootstrapAndHandle (phases : CommandPhases) : LifecycleProg Unit := do
  match ← attempt .bootstrapTopology phases.bootstrapTopology with
  | some result => settle "topology_bootstrap" (some result)
  | none =>
    let result ← attempt .runHandler phases.handler
    settle "handler_result" result

/-- The body of the `try` of `run_with_report`. -/
def executeCommand (phases : CommandPhases) : LifecycleProg Unit := do
  attempt .createContainer phases.createContainer
  modify fun run => { run with hasContainer := true }
  attempt .openObservability phases.openObservability
  modify fun run =>
    { run.note .captureStreams with
      streams := ⟨.tee run.streams.stdout "stdout",.tee run.streams.stderr "stderr"⟩ }
  attempt .validateRequirements phases.validateRequirements
  match ← initializeContainerResources phases with
  | some result => settle "runtime_init" (some result)
  | none => bootstrapAndHandle phases

def reportFault (catalog : ErrorCatalog) (command : String) (fault : RuntimeFault) :
    LifecycleProg Unit := do
  let report := fault.report catalog command
  modify fun run => { run with events := run.events ++ report.echoes.map LifecycleEvent.echo }
  settle report.source (some report.result)

def guardedCommand (catalog : ErrorCatalog) (command : String) (phases : CommandPhases) :
    LifecycleProg Unit :=
  tryCatch (executeCommand phases) (reportFault catalog command)

def shutdownStep (phases : CommandPhases) (acc : List (Subcontainer × RuntimeFault) × Lifecycle)
    (sub : Subcontainer) : List (Subcontainer × RuntimeFault) × Lifecycle :=
  let run := acc.2.note (.shutdown sub)
  match phases.shutdown sub with
  | .ok _ => (acc.1,run)
  | .error fault => (acc.1 ++ [(sub,fault)],run)

def shutdownContainerResources (phases : CommandPhases) (emitUserError : Bool)
    (run : Lifecycle) : Option CommandResult × Lifecycle :=
  if run.hasContainer then
    let (failures,run) := resourceShutdownContainers.foldl (shutdownStep phases) ([],run)
    if failures = [] then (none,run)
    else
      let run := if emitUserError then
          run.note (.echo "ERROR: runtime teardown failed (see logs/report)")
        else run
      (some (resultWith .internalError),run)
  else (none,run)

def finalizeReportArtifacts (phases : CommandPhases) (emitUserError : Bool)
    (run : Lifecycle) : Option CommandResult × Lifecycle :=
  let run := run.note .finalizeReport
  match phases.finalizeReport with
  | .ok _ => (none,run)
  | .error _ =>
    let run := if emitUserError then
        run.note (.echo "ERROR: failed to finalize report (see logs)")
      else run
    (some (resultWith .internalError),run)

/-- A failure after the command is secondary to a result that it already has. -/
def Lifecycle.adopt (source : String) (result : Option CommandResult) (run : Lifecycle) :
    Lifecycle :=
  match result with
  | none => run
  | some r =>
    { run.note (.reported source (some r) run.exitResult.isSome) with
      exitResult := some (run.exitResult.getD r) }

/-- An exception of the runtime's own shutdown is dropped. -/
def closeObservabilityRuntime (phases : CommandPhases) (run : Lifecycle) : Lifecycle :=
  if run.hasContainer then
    match phases.closeObservability with
    | .ok _ => run.note .closeObservability
    | .error _ => run.note .closeObservability
  else run

/-- The `finally` block of `run_with_report`. -/
def teardown (phases : CommandPhases) (original : SysStreams) (run : Lifecycle) : Lifecycle :=
  let run := { run.note .restoreStreams with streams := original }
  let (shutdownResult,run) := shutdownContainerResources phases run.exitResult.isNone run
  let run := run.adopt "runtime_shutdown" shutdownResult
  let (finalizeResult,run) := finalizeReportArtifacts phases run.exitResult.isNone run
  let run := run.adopt "runtime_finalize" finalizeResult
  let run := run.note .publishPointers
  let run := run.note (.recordLedger run.exitResult)
  (closeObservabilityRuntime phases run).note .clearContext

def runWithReport (catalog : ErrorCatalog) (command : String) (phases : CommandPhases)
    (streams : SysStreams) : Lifecycle :=
  let start : Lifecycle :=
    { streams := streams, hasContainer := false, exitResult := none, events := [] }
  teardown phases streams ((guardedCommand catalog command phases).run start).2

section Deciding

variable (catalog : ErrorCatalog) (command : String)

/-- The result of the command: that of the first phase to return one, or the one that the first
phase to raise is given. -/
def decidedResult : List (Except RuntimeFault (Option CommandResult)) → Option CommandResult
  | [] => none
  | .error fault :: _ => some (fault.report catalog command).result
  | .ok (some result) :: _ => some result
  | .ok none :: rest => decidedResult rest

def CommandPhases.initOutcome (phases : CommandPhases) :
    Except RuntimeFault (Option CommandResult) :=
  match phases.initContainer with
  | .ok _ => .ok none
  | .error fault =>
    match fault.kind with
    | .dslLoad _ _ => .error fault
    | .sqlite => .ok (some (resultWith .cacheError))
    | _ => .ok (some (resultWith .internalError))

/-- The phases up to the handler, in their order. -/
def CommandPhases.outcomes (phases : CommandPhases) :
    List (Except RuntimeFault (Option CommandResult)) :=
  [phases.createContainer.map fun _ => none, phases.openObservability.map fun _ => none,
   phases.validateRequirements.map fun _ => none, phases.initOutcome, phases.bootstrapTopology,
   phases.handler]

def CommandPhases.created (phases : CommandPhases) : Bool := phases.createContainer.isOk

def LifecycleEvent.closes : LifecycleEvent → Bool
  | .shutdown _ | .closeObservability => true
  | _ => false

/-- Nothing has been shut down so far. -/
def Lifecycle.Open (run : Lifecycle) : Prop := ∀ event ∈ run.events, event.closes = false

theorem Lifecycle.Open.note {run : Lifecycle} {event : LifecycleEvent} (h : run.Open)
    (he : event.closes = false) : (run.note event).Open := by
  intro e hmem
  rcases List.mem_append.mp hmem with hmem | hmem
  · exact h e hmem
  · rw [List.mem_singleton.mp hmem]
    exact he

/-- The command, or a part of it, has ended with the result that the phases decide. -/
structure Decides (created : Bool) (result : Option CommandResult) (r : Except RuntimeFault Unit)
    (run : Lifecycle) : Prop where
  result : match r with
    | .ok _ => run.exitResult = result
    | .error fault => some (fault.report catalog command).result = result
  hasContainer : run.hasContainer = created
  isOpen : run.Open

variable {catalog command} {created : Bool}
  {rest : List (Except RuntimeFault (Option CommandResult))} {phases : CommandPhases}
  {run : Lifecycle}

theorem ends_settle {source : String} {result : Option CommandResult} (hrun : run.Open)
    (hcreated : run.hasContainer = created) :
    Prog.Ends (Decides catalog command created result) (settle source result) run :=
  Prog.Ends.atomic ⟨rfl,hcreated,hrun.note rfl⟩

/-- A phase that raises decides; one that does not goes on to the next. -/
theorem ends_attempt_bind {A : Type} {event : LifecycleEvent} {outcome : Except RuntimeFault A}
    {next : A → LifecycleProg Unit} (summary : A → Option CommandResult)
    (hcloses : event.closes = false) (hrun : run.Open)
    (hcreated : ∀ fault, outcome = .error fault → run.hasContainer = created)
    (h : ∀ a, outcome = .ok a → (run.note event).Open →
      Prog.Ends (Decides catalog command created
        (decidedResult catalog command (.ok (summary a) :: rest))) (next a) (run.note event)) :
    Prog.Ends (Decides catalog command created
      (decidedResult catalog command (outcome.map summary :: rest)))
      (attempt event outcome >>= next) run := by
  refine Prog.Ends.bind (Prog.Ends.atomic ?_)
  cases outcome with
  | error fault => exact ⟨rfl,hcreated fault rfl,hrun.note hcloses⟩
  | ok a => exact h a rfl (hrun.note hcloses)

theorem ends_initializeContainerResources (hrun : run.Open) (phases : CommandPhases) :
    Prog.Ends (fun r run' => r = phases.initOutcome ∧ run'.hasContainer = run.hasContainer ∧
      run'.Open) (initializeContainerResources phases) run := by
  have hnoted : (run.note .initResources).Open := hrun.note rfl
  refine Prog.Ends.bind (Prog.Ends.atomic ?_)
  cases hinit : phases.initContainer with
  | ok _ => exact Prog.Ends.pure ⟨by rw [CommandPhases.initOutcome, hinit],rfl,hnoted⟩
  | error fault =>
    obtain ⟨kind,exc⟩ := fault
    cases kind with
    | dslLoad code details =>
      exact Prog.Ends.throw ⟨by rw [CommandPhases.initOutcome, hinit],rfl,hnoted⟩
    | _ =>
      exact Prog.Ends.bind (Prog.Ends.atomic
        (Prog.Ends.pure ⟨by rw [CommandPhases.initOutcome, hinit],rfl,hnoted.note rfl⟩))

theorem ends_bootstrapAndHandle (hrun : run.Open) (hcreated : run.hasContainer = created) :
    Prog.Ends (Decides catalog command created
      (decidedResult catalog command [phases.bootstrapTopology,phases.handler]))
      (bootstrapAndHandle phases) run := by
  have hid {o : Except RuntimeFault (Option CommandResult)} : o = o.map id := by cases o <;> rfl
  rw [hid (o := phases.bootstrapTopology)]
  refine ends_attempt_bind id (by rfl) hrun (fun _ _ => hcreated) fun result _ hopen => ?_
  cases result with
  | some result => exact ends_settle hopen hcreated
  | none =>
    have hhandler : decidedResult catalog command [phases.handler] =
        decidedResult catalog command [phases.handler.map id] :=
      congrArg (fun o => decidedResult catalog command [o]) hid
    show Prog.Ends (Decides catalog command created
      (decidedResult catalog command [phases.handler]))
      (attempt .runHandler phases.handler >>= settle "handler_result") _
    rw [hhandler]
    refine ends_attempt_bind id (by rfl) hopen (fun _ _ => hcreated) fun result _ hopen => ?_
    cases result with
    | some result => exact ends_settle hopen hcreated
    | none => exact ends_settle hopen hcreated

theorem ends_executeCommand (hrun : run.Open) (hnone : run.hasContainer = false) :
    Prog.Ends (Decides catalog command phases.created
      (decidedResult catalog command phases.outcomes)) (executeCommand phases) run := by
  refine ends_attempt_bind (fun _ => none) rfl hrun (fun fault h => ?_) fun _ hok hopen => ?_
  · rw [hnone, CommandPhases.created, h]
    rfl
  have htrue : true = phases.created := by
    rw [CommandPhases.created, hok]
    rfl
  refine Prog.Ends.bind (Prog.Ends.atomic ?_)
  refine ends_attempt_bind (fun _ => none) rfl hopen (fun _ _ => htrue) fun _ _ hopen => ?_
  refine Prog.Ends.bind (Prog.Ends.atomic ?_)
  refine ends_attempt_bind (fun _ => none) rfl (hopen.note rfl) (fun _ _ => htrue)
    fun _ _ hopen => ?_
  refine Prog.Ends.bind ((ends_initializeContainerResources hopen phases).mono
    fun r run' hr => ?_)
  obtain ⟨hinit,hkept,hopen⟩ := hr
  have hcreated : run'.hasContainer = phases.created := hkept.trans htrue
  rw [← hinit]
  rcases r with fault | (_ | result)
  · exact ⟨rfl,hcreated,hopen⟩
  · exact ends_bootstrapAndHandle hopen hcreated
  · exact ends_settle hopen hcreated

/-- The command is over, with this result. -/
structure CommandEnded (created : Bool) (result : Option CommandResult) (run : Lifecycle) :
    Prop where
  result : run.exitResult = result
  hasContainer : run.hasContainer = created
  isOpen : run.Open

theorem ends_reportFault (fault : RuntimeFault) (hrun : run.Open)
    (hcreated : run.hasContainer = created) :
    Prog.Ends (fun _ => CommandEnded created (some (fault.report catalog command).result))
      (reportFault catalog command fault) run := by
  refine Prog.Ends.bind (Prog.Ends.atomic (Prog.Ends.atomic ⟨rfl,hcreated,?_⟩))
  refine Lifecycle.Open.note (fun event hmem => ?_) rfl
  rcases List.mem_append.mp hmem with hmem | hmem
  · exact hrun event hmem
  · obtain ⟨text,_,rfl⟩ := List.mem_map.mp hmem
    rfl

/-- However the phases end, the command leaves the result that they decide. -/
theorem ends_guardedCommand (hrun : run.Open) (hnone : run.hasContainer = false) :
    Prog.Ends (fun _ => CommandEnded phases.created (decidedResult catalog command phases.outcomes))
      (guardedCommand catalog command phases) run := by
  have hexecute : Prog.Ends (Decides catalog command phases.created
      (decidedResult catalog command phases.outcomes)) (executeCommand phases) run :=
    ends_executeCommand hrun hnone
  refine Prog.Ends.tryCatch (hexecute.mono fun r after h => ?_)
  cases r with
  | ok _ => exact ⟨h.result,h.hasContainer,h.isOpen⟩
  | error fault =>
    have hresult : some (fault.report catalog command).result =
        decidedResult catalog command phases.outcomes := h.result
    rw [← hresult]
    exact ends_reportFault fault h.isOpen h.hasContainer

end Deciding

section Teardown

variable (phases : CommandPhases)

/-- The shutdowns that fail, in the order of their attempts. -/
def CommandPhases.failuresOf (phases : CommandPhases) (subs : List Subcontainer) :
    List (Subcontainer × RuntimeFault) :=
  subs.filterMap fun sub =>
    match phases.shutdown sub with
    | .ok _ => none
    | .error fault => some (sub,fault)

/-- Each subcontainer is shut down, whatever became of those before it. -/
theorem foldl_shutdownStep (subs : List Subcontainer)
    (acc : List (Subcontainer × RuntimeFault) × Lifecycle) :
    subs.foldl (shutdownStep phases) acc =
      (acc.1 ++ phases.failuresOf subs,
        { acc.2 with events := acc.2.events ++ subs.map LifecycleEvent.shutdown }) := by
  induction subs generalizing acc with
  | nil => simp [CommandPhases.failuresOf]
  | cons sub subs ih =>
    rw [List.foldl_cons, ih, shutdownStep]
    cases hsub : phases.shutdown sub <;>
      simp [CommandPhases.failuresOf, hsub, Lifecycle.note]

/-- Between the two states the events were added, and after them only some that close nothing. -/
structure EventsAfter (run : Lifecycle) (events : List LifecycleEvent) (run' : Lifecycle) :
    Prop where
  streams : run'.streams = run.streams
  hasContainer : run'.hasContainer = run.hasContainer
  events : ∃ quiet, run'.events = run.events ++ events ++ quiet ∧
    ∀ event ∈ quiet, event.closes = false

variable {phases} {run run' run'' : Lifecycle} {events : List LifecycleEvent}

theorem EventsAfter.refl : EventsAfter run [] run := ⟨rfl,rfl,[],by simp,by simp⟩

theorem EventsAfter.trans (h : EventsAfter run events run') (h' : EventsAfter run' [] run'') :
    EventsAfter run events run'' := by
  obtain ⟨quiet,hevents,hquiet⟩ := h.events
  obtain ⟨quiet',hevents',hquiet'⟩ := h'.events
  refine ⟨h'.streams.trans h.streams,h'.hasContainer.trans h.hasContainer,quiet ++ quiet',?_,?_⟩
  · rw [hevents', hevents]
    simp
  · intro event hmem
    rcases List.mem_append.mp hmem with hmem | hmem
    · exact hquiet event hmem
    · exact hquiet' event hmem

theorem after_note {event : LifecycleEvent} (h : event.closes = false) :
    EventsAfter run [] (run.note event) := by
  refine ⟨rfl,rfl,[event],?_,?_⟩
  · simp [Lifecycle.note]
  · simp [h]

theorem after_echo_if {emit : Bool} {text : String} :
    EventsAfter run [] (if emit then run.note (.echo text) else run) := by
  cases emit with
  | true => exact after_note rfl
  | false => exact EventsAfter.refl

theorem after_adopt {source : String} {result : Option CommandResult} :
    EventsAfter run [] (run.adopt source result) := by
  cases result with
  | none => exact EventsAfter.refl
  | some r =>
    have hnote : EventsAfter run [] (run.note (.reported source (some r) run.exitResult.isSome)) :=
      after_note rfl
    exact ⟨hnote.streams,hnote.hasContainer,hnote.events⟩

@[simp] theorem exitResult_adopt (source : String) (result : Option CommandResult) :
    (run.adopt source result).exitResult = run.exitResult.or result := by
  cases result with
  | none => simp [Lifecycle.adopt]
  | some r => cases h : run.exitResult <;> simp [Lifecycle.adopt, h]

def CommandPhases.shutdownEvents (hasContainer : Bool) : List LifecycleEvent :=
  if hasContainer then resourceShutdownContainers.map LifecycleEvent.shutdown else []

def CommandPhases.shutdownResult (phases : CommandPhases) (hasContainer : Bool) :
    Option CommandResult :=
  if hasContainer && phases.failuresOf resourceShutdownContainers ≠ [] then
    some (resultWith .internalError)
  else none

def CommandPhases.finalizeResult (phases : CommandPhases) : Option CommandResult :=
  if phases.finalizeReport.isOk then none else some (resultWith .internalError)

theorem shutdownContainerResources_spec (phases : CommandPhases) (emit : Bool) (run : Lifecycle) :
    let out := shutdownContainerResources phases emit run
    out.1 = phases.shutdownResult run.hasContainer ∧ out.2.exitResult = run.exitResult ∧
      EventsAfter run (CommandPhases.shutdownEvents run.hasContainer) out.2 := by
  unfold shutdownContainerResources CommandPhases.shutdownResult CommandPhases.shutdownEvents
  cases hcontainer : run.hasContainer with
  | false => exact ⟨rfl,rfl,EventsAfter.refl⟩
  | true =>
    rw [foldl_shutdownStep]
    have hattempted : EventsAfter run (resourceShutdownContainers.map LifecycleEvent.shutdown)
        { run with events :=
            run.events ++ resourceShutdownContainers.map LifecycleEvent.shutdown } :=
      ⟨rfl,rfl,[],by simp,by simp⟩
    cases hfailures : phases.failuresOf resourceShutdownContainers with
    | nil => exact ⟨rfl,rfl,hattempted⟩
    | cons failure failures =>
      refine ⟨rfl,?_,hattempted.trans after_echo_if⟩
      cases emit <;> rfl

theorem finalizeReportArtifacts_spec (phases : CommandPhases) (emit : Bool) (run : Lifecycle) :
    let out := finalizeReportArtifacts phases emit run
    out.1 = phases.finalizeResult ∧ out.2.exitResult = run.exitResult ∧
      EventsAfter run [] out.2 := by
  have hnote : EventsAfter run [] (run.note .finalizeReport) := after_note rfl
  unfold finalizeReportArtifacts CommandPhases.finalizeResult
  cases hfinal : phases.finalizeReport with
  | ok _ => exact ⟨rfl,rfl,hnote⟩
  | error fault =>
    refine ⟨rfl,?_,hnote.trans after_echo_if⟩
    cases emit <;> rfl

theorem closeObservabilityRuntime_eq (run : Lifecycle) :
    closeObservabilityRuntime phases run =
      { run with events := run.events ++
          if run.hasContainer then [.closeObservability] else [] } := by
  unfold closeObservabilityRuntime
  by_cases hcontainer : run.hasContainer = true
  · rw [if_pos hcontainer, if_pos hcontainer]
    cases phases.closeObservability <;> rfl
  · rw [if_neg hcontainer, if_neg hcontainer, List.append_nil]

/-- A command ends with its own result, or else that of the shutdown, or else that of the
report. The observability runtime is closed after all the rest. -/
theorem teardown_spec (phases : CommandPhases) (original : SysStreams) (run : Lifecycle) :
    let final := teardown phases original run
    final.streams = original ∧
      final.exitResult = (run.exitResult.or (phases.shutdownResult run.hasContainer)).or
        phases.finalizeResult ∧
      ∃ quiet, final.events = run.events ++ [.restoreStreams] ++
          CommandPhases.shutdownEvents run.hasContainer ++ quiet ++
          (if run.hasContainer then [.closeObservability] else []) ++ [.clearContext] ∧
        ∀ event ∈ quiet, event.closes = false := by
  let restored : Lifecycle := { run.note .restoreStreams with streams := original }
  let down := shutdownContainerResources phases restored.exitResult.isNone restored
  let adopted := down.2.adopt "runtime_shutdown" down.1
  let written := finalizeReportArtifacts phases adopted.exitResult.isNone adopted
  let ended := written.2.adopt "runtime_finalize" written.1
  let recorded := (ended.note .publishPointers).note (.recordLedger ended.exitResult)
  have hfinal : teardown phases original run =
      (closeObservabilityRuntime phases recorded).note .clearContext := rfl
  obtain ⟨hshutdown,hkept,hdown⟩ :=
    shutdownContainerResources_spec phases restored.exitResult.isNone restored
  obtain ⟨hfinalize,hkept',hwritten⟩ :=
    finalizeReportArtifacts_spec phases adopted.exitResult.isNone adopted
  have hafter : EventsAfter restored (CommandPhases.shutdownEvents run.hasContainer) recorded :=
    ((((hdown.trans after_adopt).trans hwritten).trans after_adopt).trans
      (after_note rfl)).trans (after_note rfl)
  have hended : recorded.exitResult =
      (run.exitResult.or (phases.shutdownResult run.hasContainer)).or phases.finalizeResult := by
    show (written.2.adopt _ written.1).exitResult = _
    rw [exitResult_adopt, hkept', hfinalize, exitResult_adopt, hkept, hshutdown]
    rfl
  obtain ⟨quiet,hevents,hquiet⟩ := hafter.events
  have hcontainer : recorded.hasContainer = run.hasContainer := hafter.hasContainer
  rw [hfinal, closeObservabilityRuntime_eq, hcontainer]
  refine ⟨hafter.streams,hended,quiet,?_,hquiet⟩
  show recorded.events ++ _ ++ [.clearContext] = _
  rw [hevents]
  rfl

end Teardown

section ExitCode

variable (catalog : ErrorCatalog) (command : String)

theorem mem_systemCodes_addCode {result : CommandResult} {code code' : SystemErrorCode} :
    code' ∈ (result.addCode code).systemCodes ↔ code' ∈ result.systemCodes ∨ code' = code := by
  unfold CommandResult.addCode
  by_cases hmem : code ∈ result.systemCodes
  · rw [if_pos hmem]
    constructor
    · exact .inl
    · rintro (h | rfl)
      · exact h
      · exact hmem
  · rw [if_neg hmem]
    simp

theorem mem_systemCodes_addDiagnostics {items : List DiagnosticItem} {result : CommandResult}
    {code : SystemErrorCode} :
    code ∈ (result.addDiagnostics catalog items).systemCodes ↔
      code ∈ result.systemCodes ∨ ∃ item ∈ items, code = catalog.classify item.code := by
  unfold CommandResult.addDiagnostics
  induction items generalizing result with
  | nil => simp
  | cons item items ih =>
    rw [List.foldl_cons, ih, mem_systemCodes_addCode]
    simp [or_assoc]

/-- The result of an exception has the codes that the catalog gives its diagnostics. -/
theorem mem_systemCodes_report {fault : RuntimeFault} {code : SystemErrorCode} :
    code ∈ (fault.report catalog command).result.systemCodes ↔
      ∃ diag ∈ fault.codes, code = catalog.classify diag := by
  obtain ⟨kind,exc⟩ := fault
  cases kind with
  | settingsLoad issues =>
    rw [show (RuntimeFault.report catalog command ⟨.settingsLoad issues,exc⟩).result =
      CommandResult.empty.addDiagnostics catalog (translateSettingsLoadError catalog
        (stageForCommand command) issues) from rfl, mem_systemCodes_addDiagnostics]
    simp [CommandResult.empty, translateSettingsLoadError, RuntimeFault.codes,
      translateSettingsIssue, diagError, DiagnosticItem.fromCatalog]
  | _ =>
    refine (mem_systemCodes_addDiagnostics catalog).trans ?_
    simp [CommandResult.empty, RuntimeFault.codes, diagError, DiagnosticItem.fromCatalog]

theorem ok_mem_of_primaryCode {codes : List SystemErrorCode}
    (h : resolvePrimaryCode codes = .ok) : codes = [] ∨ .ok ∈ codes := by
  by_cases hnil : codes = []
  · exact .inl hnil
  right
  by_cases hok : codes = [.ok]
  · rw [hok]
    exact List.mem_singleton_self _
  unfold resolvePrimaryCode at h
  rw [if_neg hnil, if_neg hok] at h
  split at h
  · next code hfatal =>
    have hmem := List.mem_of_find?_eq_some hfatal
    rw [h] at hmem
    simp at hmem
  · by_cases hinvalid : .dataInvalid ∈ codes
    · rw [if_pos hinvalid] at h
      cases h
    by_cases hconflict : .conflict ∈ codes
    · rw [if_neg hinvalid, if_pos hconflict] at h
      cases h
    rw [if_neg hinvalid, if_neg hconflict] at h
    have hsorted : ∀ code, code ∈ sortCodes codes ↔ code ∈ codes :=
      fun code => List.mem_mergeSort
    cases hsort : sortCodes codes with
    | nil =>
      obtain ⟨code,hcode⟩ := List.exists_mem_of_ne_nil _ hnil
      have hmem := (hsorted code).mpr hcode
      rw [hsort] at hmem
      cases hmem
    | cons first rest =>
      rw [hsort] at h
      have hfirst : first = .ok := h
      exact (hsorted .ok).mp (by rw [hsort, hfirst]; exact List.mem_cons_self)

/-- An exception gives the command an exit code other than zero, unless it carries no
diagnostic or one that the catalog counts as none. -/
theorem exitCode_report_ne_zero {fault : RuntimeFault} (hcodes : fault.codes ≠ [])
    (hok : ∀ code ∈ fault.codes, catalog.classify code ≠ .ok) :
    (fault.report catalog command).result.exitCode ≠ 0 := by
  intro hzero
  have hprimary : resolvePrimaryCode (fault.report catalog command).result.systemCodes = .ok :=
    exitCodeMap_eq_zero.mp hzero
  rcases ok_mem_of_primaryCode hprimary with hnil | hmem
  · obtain ⟨code,hcode⟩ := List.exists_mem_of_ne_nil _ hcodes
    have hsome := (mem_systemCodes_report catalog command).mpr ⟨code,hcode,rfl⟩
    rw [hnil] at hsome
    cases hsome
  · obtain ⟨code,hcode,hclass⟩ := (mem_systemCodes_report catalog command).mp hmem
    exact hok code hcode hclass.symm

/-- The phases up to the one that decides. -/
def ranPhases : List (Except RuntimeFault (Option CommandResult)) →
    List (Except RuntimeFault (Option CommandResult))
  | .ok none :: rest => .ok none :: ranPhases rest
  | outcome :: _ => [outcome]
  | [] => []

/-- A phase fails with an exception or with a result that has an exit code other than zero.
An exception whose diagnostics the catalog counts as none is no failure. -/
def PhaseFailed : Except RuntimeFault (Option CommandResult) → Prop
  | .error fault => fault.codes ≠ [] ∧ ∀ code ∈ fault.codes, catalog.classify code ≠ .ok
  | .ok (some result) => result.exitCode ≠ 0
  | .ok none => False

theorem not_failed_of_decided {outcomes : List (Except RuntimeFault (Option CommandResult))}
    (h : ∀ result, decidedResult catalog command outcomes = some result → result.exitCode = 0) :
    ∀ outcome ∈ ranPhases outcomes, ¬ PhaseFailed catalog outcome := by
  induction outcomes with
  | nil => simp [ranPhases]
  | cons outcome rest ih =>
    match outcome with
    | .error fault =>
      simp only [ranPhases, List.mem_singleton, forall_eq]
      exact fun ⟨hcodes,hok⟩ => exitCode_report_ne_zero catalog command hcodes hok (h _ rfl)
    | .ok (some result) =>
      simp only [ranPhases, List.mem_singleton, forall_eq]
      exact fun hfailed => hfailed (h _ rfl)
    | .ok none =>
      simp only [ranPhases, List.mem_cons, forall_eq_or_imp]
      exact ⟨fun hfailed => hfailed,ih h⟩

/-- What the exit code of a command is about: the result of the deciding phase, and without one
the shutdowns and the report. -/
def CommandPhases.Succeeds (phases : CommandPhases) : Prop :=
  match decidedResult catalog command phases.outcomes with
  | some result => result.exitCode = 0
  | none => phases.finalizeReport.isOk ∧
      ∀ sub ∈ resourceShutdownContainers, (phases.shutdown sub).isOk

end ExitCode

section Runs

variable (catalog : ErrorCatalog) (command : String) (phases : CommandPhases)

theorem failuresOf_eq_nil {subs : List Subcontainer} :
    phases.failuresOf subs = [] ↔ ∀ sub ∈ subs, (phases.shutdown sub).isOk := by
  unfold CommandPhases.failuresOf
  rw [List.filterMap_eq_nil_iff]
  refine forall₂_congr fun sub _ => ?_
  cases phases.shutdown sub <;> simp [Except.isOk, Except.toBool]

/-- A phase decides, or the container was created. -/
theorem created_of_decided_none (h : decidedResult catalog command phases.outcomes = none) :
    phases.created = true := by
  unfold CommandPhases.created
  cases hcreate : phases.createContainer with
  | ok _ => rfl
  | error fault =>
    rw [CommandPhases.outcomes, hcreate] at h
    cases h

theorem exitCode_teardown_iff {final : Lifecycle}
    (hfinal : final.exitResult = ((decidedResult catalog command phases.outcomes).or
      (phases.shutdownResult phases.created)).or phases.finalizeResult) :
    final.exitCode = 0 ↔ phases.Succeeds catalog command := by
  unfold Lifecycle.exitCode CommandPhases.Succeeds
  rw [hfinal]
  cases hdecided : decidedResult catalog command phases.outcomes with
  | some result => rfl
  | none =>
    have hcreated := created_of_decided_none catalog command phases hdecided
    rw [← failuresOf_eq_nil]
    unfold CommandPhases.shutdownResult CommandPhases.finalizeResult
    rw [hcreated]
    by_cases hfailures : phases.failuresOf resourceShutdownContainers = []
    · by_cases hfinalize : phases.finalizeReport.isOk = true
      · simp [hfailures, hfinalize]
      · simp [hfailures, hfinalize, exitCodeMap]
    · simp [hfailures, exitCodeMap]

theorem count_eq_zero_of_open {events : List LifecycleEvent} (event : LifecycleEvent)
    (h : ∀ e ∈ events, e.closes = false) (hevent : event.closes = true) :
    events.count event = 0 := by
  refine List.count_eq_zero.mpr fun hmem => ?_
  rw [h event hmem] at hevent
  cases hevent

/-- Whatever the phases do, the streams are restored, each resource subcontainer is shut down
once and the observability runtime is closed after all else. The exit code is zero when the
deciding phase succeeded, or when none decided and the shutdowns and the report succeeded. -/
theorem run_with_report_lifecycle (streams : SysStreams) :
    let run := runWithReport catalog command phases streams
    run.streams = streams ∧
      (∀ sub ∈ resourceShutdownContainers,
        run.events.count (.shutdown sub) = if phases.created then 1 else 0) ∧
      (∃ before, run.events =
          before ++ (if phases.created then [.closeObservability] else []) ++ [.clearContext] ∧
        .closeObservability ∉ before) ∧
      (run.exitCode = 0 ↔ phases.Succeeds catalog command) ∧
      (run.exitCode = 0 →
        ∀ outcome ∈ ranPhases phases.outcomes, ¬ PhaseFailed catalog outcome) := by
  let start : Lifecycle :=
    { streams := streams, hasContainer := false, exitResult := none, events := [] }
  let after := ((guardedCommand catalog command phases).run start).2
  have hopen : start.Open := fun event hmem => absurd hmem List.not_mem_nil
  have hafter : CommandEnded phases.created (decidedResult catalog command phases.outcomes) after :=
    ends_guardedCommand hopen rfl
  obtain ⟨hstreams,hexit,quiet,hevents,hquiet⟩ :=
    teardown_spec phases streams after
  rw [hafter.result, hafter.hasContainer] at hexit
  rw [hafter.hasContainer] at hevents
  have hzero := exitCode_teardown_iff catalog command phases hexit
  refine ⟨hstreams,fun sub hsub => ?_,⟨_,hevents,?_⟩,hzero,fun hcode => ?_⟩
  · show (teardown phases streams after).events.count _ = _
    rw [hevents]
    have hbefore := count_eq_zero_of_open (.shutdown sub) hafter.isOpen rfl
    have hbetween := count_eq_zero_of_open (.shutdown sub) hquiet rfl
    have hnodup : resourceShutdownContainers.Nodup := by decide
    have honce : (resourceShutdownContainers.map LifecycleEvent.shutdown).count
        (.shutdown sub) = 1 :=
      List.count_eq_one_of_mem (hnodup.map fun _ _ h => LifecycleEvent.shutdown.inj h)
        (List.mem_map_of_mem hsub)
    unfold CommandPhases.shutdownEvents
    cases phases.created with
    | true => simp [hbefore, hbetween, honce]
    | false => simp [hbefore, hbetween]
  · rw [← List.count_eq_zero]
    have hbefore := count_eq_zero_of_open .closeObservability hafter.isOpen rfl
    have hbetween := count_eq_zero_of_open .closeObservability hquiet rfl
    unfold CommandPhases.shutdownEvents
    cases phases.created with
    | true => simp [hbefore, hbetween, resourceShutdownContainers]
    | false => simp [hbefore, hbetween]
  · refine not_failed_of_decided catalog command fun result hresult => ?_
    have hsucceeds := hzero.mp hcode
    rw [CommandPhases.Succeeds, hresult] at hsucceeds
    exact hsucceeds

end Runs

/-- The handler returns a result without errors, and then one shutdown raises. -/
def lateFailure : CommandPhases where
  createContainer := .ok ()
  openObservability := .ok ()
  validateRequirements := .ok ()
  initContainer := .ok ()
  bootstrapTopology := .ok none
  handler := .ok (some (resultWith .ok))
  shutdown := fun sub => if sub = .cache then
      .error ⟨.other,⟨"RuntimeError","shutdown failed"⟩⟩
    else .ok ()
  finalizeReport := .ok ()
  closeObservability := .ok ()

/-- The exit code does not tell of it. -/
theorem shutdown_failure_unseen :
    (runWithReport [] "mapping" lateFailure ⟨.raw "stdout",.raw "stderr"⟩).exitCode = 0 ∧
      ¬ ∀ sub ∈ resourceShutdownContainers, (lateFailure.shutdown sub).isOk := by
  decide

end NexusEtl
