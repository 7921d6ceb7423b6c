import NexusEtl.PipelineOrchestrator

/-!
# The terminal hooks of a monitored stage

A stage that has started ends by its exhaustion, by an exception, or by its
consumer giving it up, and each of them has its hook. The hook of the exhaustion
is called where exceptions are still watched, so that what it raises is reported
as an error of the stage as well; and an interrupt has no hook. Every other run of
any number of stages fires one terminal hook for each stage that has started.
-/

set_option autoImplicit false

namespace NexusEtl.Pipeline
open NexusEtl.Library

/-- The hooks of which a stage that has started is to fire one. -/
inductive TerminalHook
  | complete | error | abort
  deriving DecidableEq, Repr

/-- What comes up through `_monitored`: a failure, or the `GeneratorExit` of a generator that is
given up. -/
inductive Raised
  | failure (cause : Failure)
  | generatorExit
  deriving DecidableEq, Repr

/-- The hook of the `except` clause that catches it. An interrupt is caught by none. -/
def Raised.hooks : Raised → List TerminalHook
  | .generatorExit => [.abort]
  | .failure (.exception _) => [.error]
  | .failure (.interrupt _) => []

theorem Raised.hooks_eq_singleton (cause : Raised) :
    (∃ hook, cause.hooks = [hook]) ↔ ∀ name, cause ≠ .failure (.interrupt name) := by
  cases cause with
  | generatorExit => exact iff_of_true ⟨.abort,rfl⟩ fun _ => by simp
  | failure cause =>
    cases cause with
    | exception exc => exact iff_of_true ⟨.error,rfl⟩ fun _ => by simp
    | interrupt name =>
      exact iff_of_false (fun ⟨_,h⟩ => by cases h) fun h => h name rfl

theorem Raised.hooks_eq_nil (cause : Raised) :
    cause.hooks = [] ↔ ∃ name, cause = .failure (.interrupt name) := by
  cases cause with
  | generatorExit => simp [hooks]
  | failure cause => cases cause <;> simp [hooks]

inductive MonitorStatus
  | fresh | pulling | suspended | finished
  deriving DecidableEq, Repr

/-- The generator of `_monitored`, with the terminal hooks that it has fired. A hook that is not
set counts as one that does nothing. -/
structure Monitor where
  status : MonitorStatus
  started : Bool
  itemsCount : Nat
  fired : List TerminalHook
  deriving DecidableEq, Repr

/-- What can happen to the generator: its consumer asks for an item, closes it or raises at its
`yield`; its stream yields, ends or raises. The hook of the start and that of the exhaustion may
raise when they are called. -/
inductive MonitorEvent
  | next
  | close
  | throw (cause : Raised)
  | item (startHook : Option Raised)
  | exhausted (completeHook : Option Raised)
  | failed (cause : Raised)
  deriving DecidableEq, Repr

namespace Monitor

def fresh : Monitor := ⟨.fresh,false,0,[]⟩

/-- The `except` clauses; they fire nothing before the start. -/
def handle (m : Monitor) (cause : Raised) : Monitor :=
  { m with status := .finished, fired := m.fired ++ if m.started then cause.hooks else [] }

/-- The end of the stream, after the loop and still inside the `try`. -/
def exhaust (m : Monitor) (completeHook : Option Raised) : Monitor :=
  if m.started then
    let called := { m with status := .finished, fired := m.fired ++ [.complete] }
    match completeHook with
    | none => called
    | some cause => called.handle cause
  else { m with status := .finished }

/-- The first item starts the stage before its hook is called. -/
def receive (m : Monitor) (startHook : Option Raised) : Monitor :=
  match startHook with
  | some cause => if m.started then { m with status := .suspended, itemsCount := m.itemsCount + 1 }
      else { m with started := true }.handle cause
  | none => { m with status := .suspended, started := true, itemsCount := m.itemsCount + 1 }

def step (m : Monitor) : MonitorEvent → Monitor
  | .next => match m.status with
    | .fresh | .suspended => { m with status := .pulling }
    | _ => m
  | .close => match m.status with
    | .suspended => m.handle .generatorExit
    | .fresh => { m with status := .finished }
    | _ => m
  | .throw cause => match m.status with
    | .suspended => m.handle cause
    | .fresh => { m with status := .finished }
    | _ => m
  | .item startHook => if m.status = .pulling then m.receive startHook else m
  | .exhausted completeHook => if m.status = .pulling then m.exhaust completeHook else m
  | .failed cause => if m.status = .pulling then m.handle cause else m

/-- A stage that started and ended fired one terminal hook. -/
def OneTerminal (m : Monitor) : Prop :=
  m.started = true → m.status = .finished → ∃ hook, m.fired = [hook]

/-- The event is no interrupt that ends a started stage, and no exception of the hook of the
exhaustion. -/
def Allows (m : Monitor) : MonitorEvent → Prop
  | .next | .close => True
  | .throw cause => m.status = .suspended → m.started = true →
      ∀ name, cause ≠ .failure (.interrupt name)
  | .item startHook => m.status = .pulling → m.started = false →
      ∀ name, startHook ≠ some (.failure (.interrupt name))
  | .exhausted completeHook => m.status = .pulling → m.started = true →
      ∀ cause, completeHook = some cause → ∃ name, cause = .failure (.interrupt name)
  | .failed cause => m.status = .pulling → m.started = true →
      ∀ name, cause ≠ .failure (.interrupt name)

/-- What holds of a monitor in every run: hooks are fired at its end, after a start. -/
structure Sound (m : Monitor) : Prop where
  unfired : m.status ≠ .finished → m.fired = []
  unstarted : m.started = false → m.fired = []
  unopened : m.status = .fresh → m.started = false

theorem sound_fresh : fresh.Sound := ⟨fun _ => rfl,fun _ => rfl,fun _ => rfl⟩

theorem Sound.handle {m : Monitor} (h : m.Sound) (cause : Raised) : (m.handle cause).Sound := by
  refine ⟨fun hopen => absurd rfl hopen,fun hstarted => ?_,fun hstatus => by cases hstatus⟩
  have hnever : m.started = false := hstarted
  simp [Monitor.handle, hnever, h.unstarted hnever]

theorem Sound.exhaust {m : Monitor} (h : m.Sound) (completeHook : Option Raised) :
    (m.exhaust completeHook).Sound := by
  unfold Monitor.exhaust
  by_cases hstarted : m.started = true
  · rw [if_pos hstarted]
    have hcalled : Monitor.Sound { m with status := .finished, fired := m.fired ++ [.complete] } :=
      ⟨fun hopen => absurd rfl hopen,fun hnot => absurd (hstarted.symm.trans hnot) (by simp),
        fun hstatus => by cases hstatus⟩
    cases completeHook with
    | none => exact hcalled
    | some cause => exact hcalled.handle cause
  · rw [if_neg hstarted]
    exact ⟨fun hopen => absurd rfl hopen,h.unstarted,fun h => by cases h⟩

theorem Sound.receive {m : Monitor} (h : m.Sound) (hopen : m.status ≠ .finished)
    (startHook : Option Raised) : (m.receive startHook).Sound := by
  have hfired := h.unfired hopen
  unfold Monitor.receive
  cases startHook with
  | none => exact ⟨fun _ => hfired,fun _ => hfired,fun h => by cases h⟩
  | some cause =>
    by_cases hstarted : m.started = true
    · simp only [if_pos hstarted]
      exact ⟨fun _ => hfired,fun _ => hfired,fun h => by cases h⟩
    · simp only [if_neg hstarted]
      refine ⟨fun hopen => absurd rfl hopen,fun hnot => (by cases hnot),fun hs => by cases hs⟩

/-- A generator that has ended does nothing more. -/
theorem step_finished {m : Monitor} (h : m.status = .finished) (event : MonitorEvent) :
    m.step event = m := by
  cases event <;> simp [step, h]

theorem Sound.step {m : Monitor} (h : m.Sound) (event : MonitorEvent) : (m.step event).Sound := by
  have hpulling : m.status = .pulling → m.status ≠ .finished := fun hp hf => by simp [hp] at hf
  have hended : m.status = .fresh → Monitor.Sound { m with status := .finished } := fun hstatus =>
    ⟨fun hopen => absurd rfl hopen,h.unstarted,fun hs => by cases hs⟩
  cases event with
  | next =>
    unfold Monitor.step
    cases hstatus : m.status with
    | fresh => exact ⟨fun _ => h.unfired (by simp [hstatus]),h.unstarted,fun hs => by cases hs⟩
    | suspended => exact ⟨fun _ => h.unfired (by simp [hstatus]),h.unstarted,fun hs => by cases hs⟩
    | pulling => exact h
    | finished => exact h
  | close =>
    unfold Monitor.step
    cases hstatus : m.status with
    | fresh => exact hended hstatus
    | suspended => exact h.handle _
    | pulling => exact h
    | finished => exact h
  | throw cause =>
    unfold Monitor.step
    cases hstatus : m.status with
    | fresh => exact hended hstatus
    | suspended => exact h.handle _
    | pulling => exact h
    | finished => exact h
  | item startHook =>
    unfold Monitor.step
    dsimp only
    split
    · rename_i hstatus
      exact h.receive (hpulling hstatus) startHook
    · exact h
  | exhausted completeHook =>
    unfold Monitor.step
    dsimp only
    split
    · exact h.exhaust completeHook
    · exact h
  | failed cause =>
    unfold Monitor.step
    dsimp only
    split
    · exact h.handle cause
    · exact h

/-- The `except` clauses fire one hook of a started stage, unless it was interrupted. -/
theorem handle_oneTerminal {m : Monitor} (hfired : m.fired = []) (cause : Raised) :
    (m.handle cause).OneTerminal ↔
      (m.started = true → ∀ name, cause ≠ .failure (.interrupt name)) := by
  rw [← Raised.hooks_eq_singleton]
  by_cases hstarted : m.started = true
  · have hhook : (m.handle cause).fired = cause.hooks := by
      simp [Monitor.handle, hfired, hstarted]
    unfold OneTerminal
    rw [hhook]
    exact ⟨fun hone hstarted => hone hstarted rfl,fun hone hstarted _ => hone hstarted⟩
  · exact ⟨fun _ h => absurd h hstarted,fun _ h _ => absurd h hstarted⟩

/-- The hook of the exhaustion is the only one unless what it raises is handled, too. -/
theorem exhaust_oneTerminal {m : Monitor} (hfired : m.fired = []) (completeHook : Option Raised) :
    (m.exhaust completeHook).OneTerminal ↔ (m.started = true →
      ∀ cause, completeHook = some cause → ∃ name, cause = .failure (.interrupt name)) := by
  unfold Monitor.exhaust
  by_cases hstarted : m.started = true
  · rw [if_pos hstarted, forall_prop_of_true hstarted]
    cases completeHook with
    | none =>
      exact iff_of_true (fun _ _ => ⟨.complete,by simp [hfired]⟩) fun cause h => by cases h
    | some cause =>
      have hhook : (handle { m with status := .finished, fired := m.fired ++ [.complete] }
          cause).fired = .complete::cause.hooks := by
        simp [Monitor.handle, hfired, hstarted]
      constructor
      · intro hone cause' hcause
        cases hcause
        obtain ⟨hook,hone⟩ := hone hstarted rfl
        rw [hhook] at hone
        exact cause.hooks_eq_nil.mp (List.cons.inj hone).2
      · intro hcause _ _
        have hnone := cause.hooks_eq_nil.mpr (hcause cause rfl)
        exact ⟨.complete,by rw [hhook, hnone]⟩
  · rw [if_neg hstarted]
    exact ⟨fun _ h => absurd h hstarted,fun _ h _ => absurd h hstarted⟩

/-- A step keeps one terminal hook for a started stage exactly if it is allowed. -/
theorem step_oneTerminal_iff {m : Monitor} (h : m.Sound) (hone : m.OneTerminal)
    (event : MonitorEvent) : (m.step event).OneTerminal ↔ m.Allows event := by
  have hopen : ∀ {m' : Monitor}, m'.status ≠ .finished → m'.OneTerminal :=
    fun hne _ hended => absurd hended hne
  have hunopened : m.status = .fresh → OneTerminal { m with status := .finished } := by
    intro hstatus hstarted
    exact absurd hstarted (by simp [h.unopened hstatus])
  have hunfired : ∀ {status}, m.status = status → status ≠ .finished → m.fired = [] :=
    fun hstatus hne => h.unfired (hstatus ▸ hne)
  unfold Monitor.step Monitor.Allows
  cases event with
  | next =>
    refine iff_true_intro ?_
    cases hstatus : m.status with
    | fresh => exact hopen (by simp)
    | suspended => exact hopen (by simp)
    | pulling => exact hone
    | finished => exact hone
  | close =>
    refine iff_true_intro ?_
    cases hstatus : m.status with
    | fresh => exact hunopened hstatus
    | suspended =>
      exact (handle_oneTerminal (hunfired hstatus (by simp)) _).mpr fun _ _ => by simp
    | pulling => exact hone
    | finished => exact hone
  | throw cause =>
    cases hstatus : m.status with
    | fresh => exact iff_of_true (hunopened hstatus) fun hs => by cases hs
    | suspended =>
      dsimp only
      rw [forall_prop_of_true rfl]
      exact handle_oneTerminal (hunfired hstatus (by simp)) cause
    | pulling => exact iff_of_true hone fun hs => by cases hs
    | finished => exact iff_of_true hone fun hs => by cases hs
  | item startHook =>
    by_cases hstatus : m.status = .pulling
    · have hfired := hunfired hstatus (by simp)
      dsimp only
      rw [if_pos hstatus, forall_prop_of_true hstatus]
      unfold Monitor.receive
      cases startHook with
      | none => exact iff_of_true (hopen (by simp)) fun _ _ => by simp
      | some cause =>
        by_cases hstarted : m.started = true
        · simp only [if_pos hstarted]
          exact iff_of_true (hopen (by simp)) fun hnot => absurd hstarted (by simp [hnot])
        · have hnever : m.started = false := by simpa using hstarted
          have hhandled := handle_oneTerminal (m := { m with started := true }) hfired cause
          simp only [if_neg hstarted]
          rw [hhandled, forall_prop_of_true rfl, forall_prop_of_true hnever]
          simp
    · dsimp only
      rw [if_neg hstatus]
      exact iff_of_true hone fun hs => absurd hs hstatus
  | exhausted completeHook =>
    by_cases hstatus : m.status = .pulling
    · dsimp only
      rw [if_pos hstatus, forall_prop_of_true hstatus]
      exact exhaust_oneTerminal (hunfired hstatus (by simp)) completeHook
    · dsimp only
      rw [if_neg hstatus]
      exact iff_of_true hone fun hs => absurd hs hstatus
  | failed cause =>
    by_cases hstatus : m.status = .pulling
    · dsimp only
      rw [if_pos hstatus, forall_prop_of_true hstatus]
      exact handle_oneTerminal (hunfired hstatus (by simp)) cause
    · dsimp only
      rw [if_neg hstatus]
      exact iff_of_true hone fun hs => absurd hs hstatus

/-- A stage that did not end with one hook has ended. -/
theorem step_of_not_oneTerminal {m : Monitor} (h : ¬m.OneTerminal) (event : MonitorEvent) :
    m.step event = m := by
  unfold OneTerminal at h
  push Not at h
  exact step_finished h.2.1 event

end Monitor

section Stages

variable {I : Type} [DecidableEq I]

/-- Each stage of a chain is monitored by itself; an event is one of a stage. -/
def stepStage (stages : I → Monitor) (event : I × MonitorEvent) : I → Monitor :=
  Function.update stages event.1 ((stages event.1).step event.2)

def runStageEvents : List (I × MonitorEvent) → (I → Monitor) → I → Monitor
  | [], stages => stages
  | event::events, stages => runStageEvents events (stepStage stages event)

/-- Each event is allowed where it comes. -/
def Allowed : List (I × MonitorEvent) → (I → Monitor) → Prop
  | [], _ => True
  | event::events, stages =>
    (stages event.1).Allows event.2 ∧ Allowed events (stepStage stages event)

theorem stepStage_sound {stages : I → Monitor} (h : ∀ i, (stages i).Sound)
    (event : I × MonitorEvent) (i : I) : (stepStage stages event i).Sound := by
  by_cases hi : i = event.1
  · subst hi
    rw [stepStage, Function.update_self]
    exact (h event.1).step event.2
  · rw [stepStage, Function.update_of_ne hi]
    exact h i

theorem stepStage_oneTerminal_iff {stages : I → Monitor} (h : ∀ i, (stages i).Sound)
    (hone : ∀ i, (stages i).OneTerminal) (event : I × MonitorEvent) :
    (∀ i, (stepStage stages event i).OneTerminal) ↔ (stages event.1).Allows event.2 := by
  rw [← Monitor.step_oneTerminal_iff (h event.1) (hone event.1)]
  constructor
  · intro hall
    have hstep := hall event.1
    rwa [stepStage, Function.update_self] at hstep
  · intro hstep i
    by_cases hi : i = event.1
    · subst hi
      rwa [stepStage, Function.update_self]
    · rw [stepStage, Function.update_of_ne hi]
      exact hone i

/-- Nothing that comes later makes up for a hook that is missing or one too many. -/
theorem runStageEvents_of_not_oneTerminal {stages : I → Monitor} {i : I}
    (h : ¬(stages i).OneTerminal) (events : List (I × MonitorEvent)) :
    ¬(runStageEvents events stages i).OneTerminal := by
  induction events generalizing stages with
  | nil => exact h
  | cons event events ih =>
    apply ih
    by_cases hi : i = event.1
    · subst hi
      rwa [stepStage, Function.update_self, Monitor.step_of_not_oneTerminal h]
    · rwa [stepStage, Function.update_of_ne hi]

theorem runStageEvents_oneTerminal_iff (events : List (I × MonitorEvent)) {stages : I → Monitor}
    (h : ∀ i, (stages i).Sound) (hone : ∀ i, (stages i).OneTerminal) :
    (∀ i, (runStageEvents events stages i).OneTerminal) ↔ Allowed events stages := by
  induction events generalizing stages with
  | nil => exact iff_of_true hone trivial
  | cons event events ih =>
    have hstep := stepStage_oneTerminal_iff h hone event
    have hrest := ih (stepStage_sound h event)
    constructor
    · intro hfinal
      have hkept : ∀ i, (stepStage stages event i).OneTerminal := by
        intro i
        by_contra hbad
        exact runStageEvents_of_not_oneTerminal hbad events (hfinal i)
      exact ⟨hstep.mp hkept,(hrest hkept).mp hfinal⟩
    · rintro ⟨hallows,hallowed⟩
      exact (hrest (hstep.mpr hallows)).mpr hallowed

theorem runStageEvents_single (i : I) (events : List MonitorEvent) (stages : I → Monitor) :
    runStageEvents (events.map (Prod.mk i)) stages i = events.foldl Monitor.step (stages i) := by
  induction events generalizing stages with
  | nil => rfl
  | cons event events ih =>
    rw [List.map_cons, runStageEvents, ih, stepStage, Function.update_self]
    rfl

/-- However the stages are run and given up, each that started and ended fired one terminal hook
if and only if every event was allowed. -/
theorem one_terminal_hook_iff (events : List (I × MonitorEvent)) :
    (∀ i, (runStageEvents events (fun _ => Monitor.fresh) i).OneTerminal) ↔
      Allowed events fun _ => Monitor.fresh :=
  runStageEvents_oneTerminal_iff events (fun _ => Monitor.sound_fresh)
    fun _ hstarted => by cases hstarted

/-- A stage of one item whose hook of the exhaustion raises reports its completion and an error. -/
theorem complete_hook_reported_as_error :
    let stages := runStageEvents [((),.next),((),.item none),((),.next),
      ((),.exhausted (some (.failure (.exception ⟨"ValueError",""⟩))))] fun _ => Monitor.fresh
    stages () = ⟨.finished,true,1,[.complete,.error]⟩ ∧ ¬(stages ()).OneTerminal := by
  refine ⟨rfl,fun hone => ?_⟩
  obtain ⟨hook,hone⟩ := hone rfl rfl
  cases hone

end Stages

section Watched

variable {W ρ : Type} {hooks : PipelineHooks W} {name : String} {log : W → List TerminalHook}

/-- The terminal hooks are set, and the state tells which were called for the stage. -/
structure Logged (hooks : PipelineHooks W) (name : String) (log : W → List TerminalHook) :
    Prop where
  start : ∀ callback, hooks.onStageStart = some callback →
    ∀ w, log (callback name w).2 = log w
  complete : ∃ callback, hooks.onStageComplete = some callback ∧
    ∀ count w, log (callback name count w).2 = log w ++ [.complete]
  error : ∃ callback, hooks.onStageError = some callback ∧
    ∀ exc w, log (callback name exc w).2 = log w ++ [.error]
  abort : ∃ callback, hooks.onStageAbort = some callback ∧
    ∀ w, log (callback name w).2 = log w ++ [.abort]

theorem Logged.raised (h : Logged hooks name log) (watch : Watch) (failure : Failure) (n : Nat)
    (close : W → W) (w : W) :
    log ((hooks.raised name watch failure : Rows W ρ).consume (n + 1) close w).2 =
      log w ++ if watch.started then (Raised.failure failure).hooks else [] := by
  obtain ⟨callback,hset,hcall⟩ := h.error
  cases failure with
  | interrupt cause => simp [PipelineHooks.raised, Gen.consume, Raised.hooks]
  | exception exc =>
    simp only [PipelineHooks.raised, hset]
    by_cases hstarted : watch.started = true
    · rw [if_pos hstarted, if_pos hstarted]
      simp only [Gen.perform, Gen.consume]
      cases (callback name exc w).1 <;> exact hcall exc w
    · rw [if_neg hstarted, if_neg hstarted, List.append_nil]
      rfl

/-- The monitor stands where the watched loop does. -/
structure Follows (log : W → List TerminalHook) (m : Monitor) (watch : Watch) (w : W) : Prop where
  pulling : m.status = .pulling
  started : m.started = watch.started
  itemsCount : m.itemsCount = watch.itemsCount
  fired : m.fired = log w

theorem Follows.handle {m : Monitor} {watch : Watch} {w : W} (h : Follows log m watch w)
    (hlogged : Logged hooks name log) (failure : Failure) (n : Nat) (close : W → W) :
    (m.handle (.failure failure)).fired =
      log ((hooks.raised name watch failure : Rows W ρ).consume (n + 1) close w).2 := by
  rw [hlogged.raised]
  simp only [Monitor.handle, h.fired, h.started]

/-- The exhaustion of the stream, with what its hook then raises. -/
theorem Follows.ended {m : Monitor} {watch : Watch} {w : W} (h : Follows log m watch w)
    (hlogged : Logged hooks name log) (n : Nat) (close : W → W) :
    ∃ completeHook, (m.step (.exhausted completeHook)).status = .finished ∧
      (m.step (.exhausted completeHook)).fired =
        log (((hooks.watchLoop (ρ := ρ) name).ended watch).consume (n + 1) close w).2 := by
  obtain ⟨callback,hset,hcall⟩ := hlogged.complete
  have hexhaust : ∀ hook, m.step (.exhausted hook) = m.exhaust hook :=
    fun _ => by rw [Monitor.step, if_pos h.pulling]
  simp only [PipelineHooks.watchLoop, hset, hexhaust]
  by_cases hstarted : watch.started = true
  · have hm : m.started = true := h.started.trans hstarted
    have hcalled := hcall watch.itemsCount w
    rw [if_pos hstarted]
    simp only [Gen.perform, Gen.consume]
    cases hresult : (callback name watch.itemsCount w).1 with
    | ok _ =>
      refine ⟨none,?_,?_⟩
      · simp [Monitor.exhaust, hm]
      · simp [Monitor.exhaust, hm, h.fired, hcalled, Gen.consume]
    | error failure =>
      refine ⟨some (.failure failure),?_,?_⟩
      · simp [Monitor.exhaust, hm, Monitor.handle]
      · rw [hlogged.raised]
        simp [Monitor.exhaust, hm, Monitor.handle, h.fired, hcalled, hstarted]
  · have hm : m.started = false := by rw [h.started]; simpa using hstarted
    rw [if_neg hstarted]
    refine ⟨none,?_,?_⟩
    · simp [Monitor.exhaust, hm]
    · simp [Monitor.exhaust, hm, h.fired, Gen.consume]

/-- An item leaves the monitor at its `yield`, or the hook of the start ended it. -/
theorem Follows.received {m : Monitor} {watch : Watch} {w : W} (h : Follows log m watch w)
    (hlogged : Logged hooks name log) (item : TransformResult ρ) (own : W → W)
    (next : Watch → Rows W ρ) (n : Nat) (close : W → W) :
    let body := (hooks.watchLoop name).body watch item own next
    let watched := Gen.yield item (fun w => own (hooks.closed name w))
      (next ⟨true,watch.itemsCount + 1⟩)
    ∃ startHook, (∃ w', m.step (.item startHook) =
          ⟨.suspended,true,watch.itemsCount + 1,log w'⟩ ∧
        (body.consume (n + 1) close w).2 = (watched.consume (n + 1) close w').2) ∨
      ((m.step (.item startHook)).status = .finished ∧
        (m.step (.item startHook)).fired = log (body.consume (n + 1) close w).2) := by
  have hreceive : ∀ startHook, m.step (.item startHook) = m.receive startHook :=
    fun _ => by rw [Monitor.step, if_pos h.pulling]
  have hquiet : m.receive none = ⟨.suspended,true,watch.itemsCount + 1,log w⟩ := by
    rw [Monitor.receive, h.itemsCount, h.fired]
  simp only [PipelineHooks.watchLoop, hreceive]
  cases hset : hooks.onStageStart with
  | none => exact ⟨none,.inl ⟨w,hquiet,rfl⟩⟩
  | some callback =>
    dsimp only
    by_cases hstarted : watch.started = true
    · rw [if_pos hstarted]
      exact ⟨none,.inl ⟨w,hquiet,rfl⟩⟩
    · rw [if_neg hstarted, Gen.perform, Gen.consume]
      have hcall := hlogged.start callback hset w
      cases hresult : (callback name w).1 with
      | ok _ => exact ⟨none,.inl ⟨_,hcall ▸ hquiet,rfl⟩⟩
      | error failure =>
        have hm : m.started = false := by rw [h.started]; simpa using hstarted
        refine ⟨some (.failure failure),.inr ?_⟩
        dsimp only
        rw [hlogged.raised, hcall]
        simp [Monitor.receive, Monitor.handle, hm, h.fired]

/-- The watched loop fires what the monitor fires, by induction on the stream. -/
theorem Follows.run (hlogged : Logged hooks name log) {stream : Rows W ρ}
    (hstream : stream.Keeps log) {m : Monitor} {watch : Watch} {w : W}
    (h : Follows log m watch w) (n : Nat) (close : W → W) :
    ∃ events : List MonitorEvent, (events.foldl Monitor.step m).status = .finished ∧
      (events.foldl Monitor.step m).fired =
        log ((Gen.loop (hooks.watchLoop name) stream watch).consume (n + 1) close w).2 := by
  induction stream generalizing m watch w n close with
  | done =>
    obtain ⟨completeHook,hended⟩ := h.ended hlogged n close
    exact ⟨[.exhausted completeHook],hended⟩
  | raise failure =>
    refine ⟨[.failed (.failure failure)],?_,?_⟩
    · simp [Monitor.step, h.pulling, Monitor.handle]
    · have hfired := h.handle (ρ := ρ) hlogged failure n close
      rw [List.foldl_cons, List.foldl_nil, Monitor.step, if_pos h.pulling, hfired]
      rfl
  | yield item own rest ih =>
    obtain ⟨hown,hrest⟩ := hstream
    obtain ⟨startHook,⟨w',hitem,hconsume⟩ | hended⟩ :=
      h.received hlogged item own (Gen.loop (hooks.watchLoop name) rest) n close
    · rw [Gen.loop, hconsume]
      cases n with
      | zero =>
        obtain ⟨callback,hset,hcall⟩ := hlogged.abort
        refine ⟨[.item startHook,.close],?_⟩
        rw [List.foldl_cons, hitem]
        simp [Monitor.step, Monitor.handle, Raised.hooks, Gen.consume, hown,
          PipelineHooks.closed, hset, hcall]
      | succ n =>
        have hnext : Follows log ⟨.pulling,true,watch.itemsCount + 1,log w'⟩
            ⟨true,watch.itemsCount + 1⟩ w' := ⟨rfl,rfl,rfl,rfl⟩
        obtain ⟨events,hevents⟩ := ih hrest hnext n fun w => own (hooks.closed name w)
        refine ⟨.item startHook::.next::events,?_⟩
        rw [List.foldl_cons, List.foldl_cons, hitem]
        exact hevents
    · exact ⟨[.item startHook],hended⟩
  | act change next ih =>
    exact ih w (hstream.2 w) ⟨h.pulling,h.started,h.itemsCount,h.fired.trans (hstream.1 w).symm⟩
      n close

/-- The hooks that a watched stream fires for a consumer who asks for so many items and gives it
up are those of a run of the monitor. -/
theorem monitored_consume {I : Type} [DecidableEq I] (hlogged : Logged hooks name log)
    {stream : Rows W ρ} (hstream : stream.Keeps log) (n : Nat) {w : W} (hw : log w = []) (i : I) :
    ∃ (events : List (I × MonitorEvent)) (m : Monitor),
      m = runStageEvents events (fun _ => Monitor.fresh) i ∧ m.status = .finished ∧
        m.fired = log ((hooks.monitored name stream).consume n id w).2 := by
  obtain ⟨events,hevents⟩ : ∃ events : List MonitorEvent,
      (events.foldl Monitor.step Monitor.fresh).status = .finished ∧
        (events.foldl Monitor.step Monitor.fresh).fired =
          log ((hooks.monitored name stream).consume n id w).2 := by
    cases n with
    | zero =>
      have hclosed : ((hooks.monitored name stream).consume 0 id w).2 = w := by
        cases hooks.monitored name stream <;> rfl
      exact ⟨[.close],rfl,by rw [hclosed, hw]; rfl⟩
    | succ n =>
      have hfirst : Follows log ⟨.pulling,false,0,[]⟩ ⟨false,0⟩ w := ⟨rfl,rfl,rfl,hw.symm⟩
      obtain ⟨events,hevents⟩ := hfirst.run hlogged hstream n id
      exact ⟨.next::events,hevents⟩
  exact ⟨events.map (Prod.mk i),_,rfl,by rwa [runStageEvents_single]⟩

end Watched

end NexusEtl.Pipeline
