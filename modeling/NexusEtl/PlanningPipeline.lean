import NexusEtl.PipelineOrchestrator

/-!
# The planning pipeline

`open` hands out a lazy stream. The first row that the consumer asks for makes
the resolve context read the match stage to its end, and only when that stage
ends after a row does its hook clear the match runtime scope. What a consumer
sees of this depends on how far the stages get.
-/

set_option autoImplicit false

namespace NexusEtl.Pipeline
open NexusEtl.Library

/-- The dedup store with the runtime scope of the run, the number of calls of `clear_scope`, and
what the other stages and the ports act on. -/
structure PlanningWorld (R : Type) where
  dedup : DedupStore
  clears : Nat
  rest : R
  deriving DecidableEq

section Calls

variable {R α : Type}

/-- A call that has no access to the match runtime. -/
def onRest (call : R → Except Failure α × R) (w : PlanningWorld R) :
    Except Failure α × PlanningWorld R :=
  ((call w.rest).1,{ w with rest := (call w.rest).2 })

def changeRest (change : R → R) (w : PlanningWorld R) : PlanningWorld R :=
  { w with rest := change w.rest }

/-- A call of the matcher, which owns the dedup store. -/
def onMatch (call : DedupStore × R → Except Failure α × DedupStore × R) (w : PlanningWorld R) :
    Except Failure α × PlanningWorld R :=
  let answer := call (w.dedup,w.rest)
  (answer.1,{ w with dedup := answer.2.1, rest := answer.2.2 })

/-- `clear_scope`: the entries of the scope are deleted. -/
def clearScope (w : PlanningWorld R) : PlanningWorld R :=
  { w with
    dedup := { w.dedup with shared := w.dedup.shared.map fun _ => [] }
    clears := w.clears + 1 }

end Calls

structure PlanningPipeline (R ρ I : Type) where
  mapper : SourceRecord → R → Except Failure (TransformResult ρ) × R
  normalizer : TransformResult ρ → R → Except Failure (TransformResult ρ) × R
  enricher : TransformResult ρ → R → Except Failure (TransformResult ρ) × R
  matcher : TransformResult ρ → DedupStore × R → Except Failure (TransformResult ρ) × DedupStore × R
  buildBatchIndex : List (TransformResult ρ) → R → Except Failure I × R
  setIndex : I → R → R
  getIndex : R → Except Failure I × R
  resolve : ρ → SourceRecord → Fields → I → R →
    Except Failure (Option ρ × List DiagnosticItem × List DiagnosticItem) × R
  catalog : ErrorCatalog
  matchSettings : MatchBatchSettings
  matchClock : Nat → Rat
  resolveBatchSize : Int
  resolveFlushIntervalMs : Int
  resolveClock : Nat → Rat
  sweep : R → Except Failure Unit × R
  begin : R → R
  commit : R → R
  rollback : R → R
  drainExpired : R → R

namespace PlanningPipeline

variable {R ρ I : Type} (pipeline : PlanningPipeline R ρ I)

abbrev Streamed (R ρ : Type) := Rows (PlanningWorld R) ρ

/-- `PlanningPipelineHooks.plan_hooks`. -/
def planHooks : PipelineHooks (PlanningWorld R) where
  onStageComplete := some fun name _ w =>
    if name = "match" then (.ok (),clearScope w)
    else if name = "resolve" then onRest pipeline.sweep w
    else (.ok (),w)

def unbatched (stage : Stage (PlanningWorld R) ρ I) :
    BatchableStage (PlanningWorld R) ρ I Unit := ⟨stage,none⟩

def mapStage : Stage (PlanningWorld R) ρ I :=
  .map ⟨fun record => onRest (pipeline.mapper record),pipeline.catalog⟩

def normalizeStage : Stage (PlanningWorld R) ρ I :=
  .normalize ⟨fun x => onRest (pipeline.normalizer x),pipeline.catalog⟩

def enrichStage : Stage (PlanningWorld R) ρ I :=
  .enrich ⟨fun x => onRest (pipeline.enricher x),pipeline.catalog⟩

def matchStage : MatchStage (PlanningWorld R) ρ :=
  ⟨fun x => onMatch (pipeline.matcher x),pipeline.catalog,pipeline.matchSettings,
    pipeline.matchClock⟩

def contextStage : ResolveContextStage (PlanningWorld R) ρ I :=
  ⟨fun records => onRest (pipeline.buildBatchIndex records),
    fun index => changeRest (pipeline.setIndex index)⟩

def resolveStage : Stage (PlanningWorld R) ρ I :=
  .resolve ⟨fun row record metadata index => onRest (pipeline.resolve row record metadata index),
    pipeline.catalog,onRest pipeline.getIndex⟩

/-- The stages up to the checkpoint `RESOLVE_CONTEXT`. -/
def preResolve : PipelineOrchestrator (PlanningWorld R) ρ I Unit where
  stages := [unbatched pipeline.mapStage,unbatched pipeline.normalizeStage,
    unbatched pipeline.enrichStage,unbatched (.matching pipeline.matchStage),
    unbatched (.resolveContext pipeline.contextStage)]
  hooks := pipeline.planHooks

/-- What a stage of the pipeline hands on. -/
def watched (stage : Stage (PlanningWorld R) ρ I) (source : Streamed R ρ) : Streamed R ρ :=
  pipeline.planHooks.monitored stage.stageName (stage.run source)

def enriched (source : Streamed R ρ) : Streamed R ρ :=
  pipeline.watched pipeline.enrichStage
    (pipeline.watched pipeline.normalizeStage (pipeline.watched pipeline.mapStage source))

def matched (source : Streamed R ρ) : Streamed R ρ :=
  pipeline.watched (.matching pipeline.matchStage) (pipeline.enriched source)

def contextualized (source : Streamed R ρ) : Streamed R ρ :=
  pipeline.watched (.resolveContext pipeline.contextStage) (pipeline.matched source)

/-- The loop of `_iter_resolved`, a transaction for each batch. -/
def resolveLoop : Gen.Loop (PlanningWorld R) Failure (List (TransformResult ρ))
    (TransformResult ρ) Unit where
  body _ batch close next := Gen.loop
    { body := fun _ resolved own go => .yield resolved
        (fun w => close (own (changeRest pipeline.rollback w))) (go ())
      ended := fun _ => .act (changeRest pipeline.commit) fun _ =>
        .act (changeRest pipeline.begin) fun _ => next ()
      raised := fun _ failure => .act (changeRest pipeline.rollback) fun _ => .raise failure }
    (pipeline.watched pipeline.resolveStage (.ofList batch)) ()
  ended _ := .act (changeRest pipeline.commit) fun _ => .done
  raised _ failure := .act (changeRest pipeline.rollback) fun _ => .raise failure

/-- `iter_resolved`, once the pending rows are loaded. -/
def iterResolved (matchedSource : Streamed R ρ) (pendingRows : List (TransformResult ρ)) :
    Streamed R ρ :=
  .act (changeRest pipeline.begin) fun _ => Gen.loop pipeline.resolveLoop
    (microBatches pipeline.resolveBatchSize pipeline.resolveFlushIntervalMs pipeline.resolveClock
      (.chain id .raise matchedSource (.ofList pendingRows))) ()

/-- `Extractor.run`. -/
def extracted (records : List SourceRecord) (failure : Option PyException) :
    List (TransformResult ρ) :=
  (extract pipeline.catalog records failure).map TransformResult.withoutRow

/-- A run of the block of `open`: its consumer asks for at most so many rows. -/
def openRun (records : List SourceRecord) (failure : Option PyException)
    (pendingRows : List (TransformResult ρ)) (pulls : Nat) (w : PlanningWorld R) :
    (List (TransformResult ρ) × Option Failure) × PlanningWorld R :=
  let source := pipeline.contextualized (.ofList (pipeline.extracted records failure))
  let resolved := pipeline.iterResolved source pendingRows
  let run := resolved.consume pulls id { w with dedup := w.dedup.reset }
  (run.1,changeRest pipeline.drainExpired run.2)

/-- The run after the resolve context has read its source. -/
def resolvedFrom (records : Streamed R ρ) (pendingRows : List (TransformResult ρ)) :
    Streamed R ρ :=
  Gen.loop pipeline.resolveLoop
    (microBatches pipeline.resolveBatchSize pipeline.resolveFlushIntervalMs pipeline.resolveClock
      (.chain id .raise (pipeline.planHooks.monitored "resolve_context" records)
        (.ofList pendingRows))) ()

/-- What the block starts from, once the store is reset and the transaction is open. -/
def started (w : PlanningWorld R) : PlanningWorld R :=
  changeRest pipeline.begin { w with dedup := w.dedup.reset }

section Keeping

variable {pipeline} {V : Type} {v : PlanningWorld R → V}

theorem attempt_world {W α β : Type} (stage : DiagnosticStage) (catalog : ErrorCatalog)
    (ref : Option RowRef) (call : W → Except Failure α × W)
    (settle : Option α × List DiagnosticItem → β) (w : W) :
    (attempt stage catalog ref call settle w).2 = (call w).2 := by
  unfold attempt
  split
  · rename_i hcall
    rw [hcall]
  · rename_i hcall
    rw [hcall]
    split <;> rfl
  · rename_i hcall
    rw [hcall]

variable (hv : ∀ w rest, v { w with rest := rest } = v w)
include hv

theorem keeps_monitored {name : String} (hname : name ≠ "match") {stream : Streamed R ρ}
    (h : stream.Keeps v) : (pipeline.planHooks.monitored name stream).Keeps v := by
  apply Gen.keeps_loop _ _ _ h
  · intro watch
    simp only [planHooks, PipelineHooks.watchLoop]
    split
    · apply Gen.keeps_perform
      · intro w
        split
        · exact hv w _
        · rfl
      · exact fun _ => trivial
      · intro failure
        cases failure <;> trivial
    · trivial
  · intro _ failure
    cases failure <;> trivial
  · exact fun _ _ _ _ hclose hnext => ⟨hclose,hnext _⟩

theorem keeps_upstream (source : List (TransformResult ρ)) :
    (pipeline.enriched (.ofList source)).Keeps v := by
  have hrow : ∀ (stage : DiagnosticStage) (ref : Option RowRef)
      (call : R → Except Failure (TransformResult ρ) × R)
      (settle : Option (TransformResult ρ) × List DiagnosticItem → TransformResult ρ)
      (w : PlanningWorld R),
      v (attempt stage pipeline.catalog ref (onRest call) settle w).2 = v w := by
    intro stage ref call settle w
    rw [attempt_world]
    exact hv w _
  have hmap : (pipeline.watched pipeline.mapStage (.ofList source)).Keeps v := by
    apply keeps_monitored hv (show "map" ≠ "match" by decide)
    apply Gen.keeps_each _ (Gen.keeps_ofList _)
    intro x w
    unfold MapStage.process
    split
    · rfl
    · exact hrow _ _ _ _ w
  have hnormalize : (pipeline.watched pipeline.normalizeStage
      (pipeline.watched pipeline.mapStage (.ofList source))).Keeps v := by
    apply keeps_monitored hv (show "normalize" ≠ "match" by decide)
    apply Gen.keeps_each _ hmap
    intro x w
    unfold NormalizeStage.process
    split
    · rfl
    · exact hrow _ _ _ _ w
  apply keeps_monitored hv (show "enrich" ≠ "match" by decide)
  apply Gen.keeps_each _ hnormalize
  exact fun x w => hrow _ _ _ _ w

theorem keeps_resolved (batch : List (TransformResult ρ)) :
    (pipeline.watched pipeline.resolveStage (.ofList batch)).Keeps v := by
  apply keeps_monitored hv (show "resolve" ≠ "match" by decide)
  apply Gen.keeps_loop _ _ _ (Gen.keeps_ofList _)
  · exact fun _ => trivial
  · exact fun _ _ => trivial
  · intro known x close next hclose hnext
    have hanswer : ∀ index, (Gen.perform (ResolveStage.process
        ⟨fun row record metadata index => onRest (pipeline.resolve row record metadata index),
          pipeline.catalog,onRest pipeline.getIndex⟩ index x)
        (fun result => .yield result close (next (some index))) .raise).Keeps v := by
      intro index
      apply Gen.keeps_perform
      rotate_left
      · exact fun _ => ⟨hclose,hnext _⟩
      · exact fun _ => trivial
      intro w
      unfold ResolveStage.process
      split
      · rfl
      · rw [attempt_world]
        exact hv w _
    cases known with
    | some index => exact hanswer index
    | none => exact Gen.keeps_perform (fun w => hv w _) hanswer fun _ => trivial

theorem keeps_resolvedFrom {records : Streamed R ρ} (h : records.Keeps v)
    (pendingRows : List (TransformResult ρ)) : (pipeline.resolvedFrom records pendingRows).Keeps v := by
  have hsource : (Gen.chain id .raise (pipeline.planHooks.monitored "resolve_context" records)
      (.ofList pendingRows)).Keeps v :=
    Gen.keeps_chain (fun _ => rfl) (fun _ => trivial) (keeps_monitored hv (by decide) h)
      (Gen.keeps_ofList _)
  apply Gen.keeps_loop _ _ _ (keeps_microBatches hsource)
  · exact fun _ => ⟨fun w => hv w _,fun _ => trivial⟩
  · exact fun _ _ => ⟨fun w => hv w _,fun _ => trivial⟩
  · intro _ batch close next hclose hnext
    apply Gen.keeps_loop _ _ _ (keeps_resolved hv batch)
    · exact fun _ => ⟨fun w => hv w _,fun _ => ⟨fun w => hv w _,fun _ => hnext _⟩⟩
    · exact fun _ _ => ⟨fun w => hv w _,fun _ => trivial⟩
    · intro _ resolved own go hown hgo
      refine ⟨fun w => ?_,hgo _⟩
      exact (hclose _).trans ((hown _).trans (hv w _))

end Keeping

section Clearing

/-- The scope was cleared during the run, and a later run knows no key from it. -/
def Cleared (before after : PlanningWorld R) : Prop :=
  before.clears < after.clears ∧ ∀ key, after.dedup.reset.find? key = none

/-- A row is asked for, the source brings one (or raises, which the extractor turns into a
result), and no stage up to match raises. -/
structure MatchCompletes (pipeline : PlanningPipeline R ρ I) (records : List SourceRecord)
    (failure : Option PyException) (pulls : Nat) (w : PlanningWorld R) : Prop where
  asked : 0 < pulls
  rows : records ≠ [] ∨ failure ≠ none
  unbroken : ((pipeline.matched (.ofList (pipeline.extracted records failure))).drain
    (pipeline.started w)).1.2 = none

/-- Watching the match stage clears the scope at its end, once an item has come. The induction is
on the stream, with the watch as it stands. -/
theorem drain_watchLoop (stream : Streamed R ρ) (watch : Watch) (w : PlanningWorld R) :
    (Gen.loop (pipeline.planHooks.watchLoop "match") stream watch).drain w =
      if (stream.drain w).1.2 = none ∧ (watch.started = true ∨ (stream.drain w).1.1 ≠ []) then
        ((stream.drain w).1,clearScope (stream.drain w).2)
      else stream.drain w := by
  induction stream generalizing watch w with
  | done =>
    obtain ⟨started,count⟩ := watch
    cases started <;> rfl
  | raise failure => cases failure <;> rfl
  | yield item close rest ih =>
    have hrest := ih ⟨true,watch.itemsCount + 1⟩ w
    show ((item::_,_),_) = _
    rw [hrest]
    by_cases hend : (rest.drain w).1.2 = none
    · simp [hend, Gen.drain]
    · simp [hend, Gen.drain]
  | act change next ih => exact ih w watch (change w)

theorem drain_watched_match (stream : Streamed R ρ) (w : PlanningWorld R) :
    (pipeline.planHooks.monitored "match" stream).drain w =
      if (stream.drain w).1.2 = none ∧ (stream.drain w).1.1 ≠ [] then
        ((stream.drain w).1,clearScope (stream.drain w).2)
      else stream.drain w := by
  rw [PipelineHooks.monitored, drain_watchLoop]
  simp

theorem keeps_matchRun {source : Streamed R ρ} (h : source.Keeps PlanningWorld.clears) :
    (pipeline.matchStage.run source).Keeps PlanningWorld.clears := by
  apply Gen.keeps_loop _ _ _ (keeps_microBatches h)
  · exact fun _ => trivial
  · exact fun _ _ => trivial
  · intro _ batch close next hclose hnext
    apply Gen.keeps_eachOf _ hclose _ (hnext _)
    intro x w
    unfold MatchStage.process
    split
    · rfl
    · rw [attempt_world]
      rfl

theorem hands_watched {stage : Stage (PlanningWorld R) ρ I} {source : Streamed R ρ}
    {results : List (TransformResult ρ)} (h : (pipeline.watched stage source).Hands results) :
    ∃ inputs, source.Hands inputs ∧ inputs.length = results.length := by
  obtain ⟨inputs,hinputs,hall⟩ := Stage.hands_run (pipeline.planHooks.hands_monitored h)
  exact ⟨inputs,hinputs,hall.length_eq⟩

/-- As many rows come to the end of match as the source gives. -/
theorem length_matched {source : List (TransformResult ρ)} {w : PlanningWorld R}
    (h : ((pipeline.matched (.ofList source)).drain w).1.2 = none) :
    ((pipeline.matched (.ofList source)).drain w).1.1.length = source.length := by
  have hmatched : (pipeline.matched (.ofList source)).Hands
      ((pipeline.matched (.ofList source)).drain w).1.1 := Gen.hands_drain h
  obtain ⟨enriched,henriched,hlen⟩ := hands_watched pipeline hmatched
  obtain ⟨normalized,hnormalized,hlen₁⟩ := hands_watched pipeline henriched
  obtain ⟨mapped,hmapped,hlen₂⟩ := hands_watched pipeline hnormalized
  obtain ⟨inputs,hinputs,hlen₃⟩ := hands_watched pipeline hmapped
  rw [Gen.hands_ofList.mp hinputs] at hlen₃
  omega

/-- The resolve context reads its source to the end first, and then leaves the match runtime
alone. -/
theorem settle_context {V : Type} {v : PlanningWorld R → V}
    (hv : ∀ w rest, v { w with rest := rest } = v w) (source : Streamed R ρ)
    (w : PlanningWorld R) : ∃ records : Streamed R ρ, records.Keeps v ∧
      (pipeline.contextStage.run source).settle w = records.settle (source.drain w).2 := by
  refine ⟨_,?_,Gen.settle_gather (fun _ _ _ _ => rfl) source [] w⟩
  split
  · apply Gen.keeps_perform
    · exact fun w => hv w _
    · exact fun _ => ⟨fun w => hv w _,fun _ => Gen.keeps_ofList _⟩
    · exact fun _ => trivial
  · trivial

theorem settle_resolvedFrom {records others : Streamed R ρ} {w w' : PlanningWorld R}
    (h : records.settle w = others.settle w') (pendingRows : List (TransformResult ρ)) :
    (pipeline.resolvedFrom records pendingRows).settle w =
      (pipeline.resolvedFrom others pendingRows).settle w' := by
  have hcontext := Gen.settle_loop_congr h (pipeline.planHooks.watchLoop "resolve_context") ⟨false,0⟩
  have hchain := Gen.settle_chain_congr hcontext id .raise (.ofList pendingRows)
  exact Gen.settle_loop_congr (Gen.settle_loop_congr hchain _ _) pipeline.resolveLoop ()

theorem iterResolved_contextualized (source : Streamed R ρ)
    (pendingRows : List (TransformResult ρ)) :
    pipeline.iterResolved (pipeline.contextualized source) pendingRows =
      .act (changeRest pipeline.begin) fun _ => pipeline.resolvedFrom
        (pipeline.contextStage.run (pipeline.matched source)) pendingRows := rfl

/-- A consumer that asks for a row makes the match stage run to its end or to its error, and
nothing after that touches the match runtime. -/
theorem openRun_world {V : Type} {v : PlanningWorld R → V}
    (hv : ∀ w rest, v { w with rest := rest } = v w) (records : List SourceRecord)
    (failure : Option PyException) (pendingRows : List (TransformResult ρ)) (pulls : Nat)
    (w : PlanningWorld R) :
    v (pipeline.openRun records failure pendingRows (pulls + 1) w).2 =
      v ((pipeline.matched (.ofList (pipeline.extracted records failure))).drain
        (pipeline.started w)).2 := by
  unfold openRun
  dsimp only
  generalize pipeline.extracted records failure = source
  obtain ⟨gathered,hkeeps,hsettle⟩ := settle_context pipeline hv (pipeline.matched (.ofList source))
    (pipeline.started w)
  rw [iterResolved_contextualized, Gen.consume_act]
  have hrun := Gen.consume_of_settle_eq (settle_resolvedFrom pipeline hsettle pendingRows) pulls id
  calc v (changeRest pipeline.drainExpired _) = v _ := hv _ _
    _ = v _ := congrArg (fun run => v run.2) hrun
    _ = _ := (keeps_resolvedFrom hv hkeeps pendingRows).consume (pulls + 1) (fun _ => rfl) _

theorem find?_clearScope (w : PlanningWorld R) (key : String) :
    (clearScope w).dedup.reset.find? key = none := by
  simp only [clearScope, DedupStore.reset, DedupStore.find?, Dict.get?_nil]
  cases w.dedup.shared <;> rfl

/-- The calls of `clear_scope` up to the end of the match stage. -/
theorem clears_matched (source : List (TransformResult ρ)) (w : PlanningWorld R) :
    (((pipeline.matched (.ofList source)).drain w).1.2 = none ∧ source ≠ [] →
      ((pipeline.matched (.ofList source)).drain w).2.clears = w.clears + 1 ∧
      ∀ key, ((pipeline.matched (.ofList source)).drain w).2.dedup.reset.find? key = none) ∧
    (¬(((pipeline.matched (.ofList source)).drain w).1.2 = none ∧ source ≠ []) →
      ((pipeline.matched (.ofList source)).drain w).2.clears = w.clears) := by
  have hupstream : (pipeline.enriched (.ofList source)).Keeps PlanningWorld.clears :=
    keeps_upstream (fun _ _ => rfl) source
  have hclears := (keeps_matchRun pipeline hupstream).drain w
  have hdrain : (pipeline.matched (.ofList source)).drain w = _ := drain_watched_match pipeline _ w
  have hrows : ∀ {run : (List (TransformResult ρ) × Option Failure) × PlanningWorld R},
      (pipeline.matched (.ofList source)).drain w = run → run.1.2 = none →
      (run.1.1 ≠ [] ↔ source ≠ []) := by
    rintro run rfl hend
    rw [← List.length_pos_iff, ← List.length_pos_iff, length_matched pipeline hend]
  rw [hdrain]
  split
  · rename_i hend
    rw [if_pos hend] at hdrain
    refine ⟨fun _ => ⟨congrArg (· + 1) hclears,find?_clearScope _⟩,fun hnot => ?_⟩
    exact absurd ⟨hend.1,(hrows hdrain hend.1).mp hend.2⟩ hnot
  · rename_i hnot
    rw [if_neg hnot] at hdrain
    exact ⟨fun hend => absurd ⟨hend.1,(hrows hdrain hend.1).mpr hend.2⟩ hnot,fun _ => hclears⟩

end Clearing

/-- The scope is cleared exactly when the match stage comes to its end on a row. -/
theorem scope_cleared_iff (pipeline : PlanningPipeline R ρ I) (records : List SourceRecord)
    (failure : Option PyException) (pendingRows : List (TransformResult ρ)) (pulls : Nat)
    (w : PlanningWorld R) :
    Cleared w (pipeline.openRun records failure pendingRows pulls w).2 ↔
      MatchCompletes pipeline records failure pulls w := by
  obtain ⟨hended,hbroken⟩ :=
    clears_matched pipeline (pipeline.extracted records failure) (pipeline.started w)
  have hrows : pipeline.extracted records failure ≠ [] ↔ records ≠ [] ∨ failure ≠ none := by
    cases records <;> cases failure <;> simp [extracted, extract]
  cases pulls with
  | zero =>
    constructor
    · exact fun h => absurd h.1 (Nat.lt_irrefl _)
    · exact fun h => absurd h.asked (Nat.lt_irrefl _)
  | succ pulls =>
    have hclears : (pipeline.openRun records failure pendingRows (pulls + 1) w).2.clears = _ :=
      openRun_world pipeline (fun _ _ => rfl) records failure pendingRows pulls w
    have hdedup : (pipeline.openRun records failure pendingRows (pulls + 1) w).2.dedup = _ :=
      openRun_world pipeline (fun _ _ => rfl) records failure pendingRows pulls w
    unfold Cleared
    rw [hclears, hdedup]
    constructor
    · rintro ⟨hlt,_⟩
      by_contra hnot
      rw [hbroken fun hend => hnot ⟨Nat.succ_pos _,hrows.mp hend.2,hend.1⟩] at hlt
      exact absurd hlt (Nat.lt_irrefl _)
    · intro h
      obtain ⟨hcount,hempty⟩ := hended ⟨h.unbroken,hrows.mpr h.rows⟩
      refine ⟨?_,hempty⟩
      rw [hcount]
      exact Nat.lt_succ_self _

/-- A row before and after match. -/
inductive PlanRow
  | fields (row : Fields)
  | matched (row : MatchedRow)

/-- A planning run over the matcher by code, with one row in a match batch. The operator
interrupts the run while the row of line 3 is enriched. -/
def interrupted : PlanningPipeline Unit PlanRow Unit where
  mapper record r :=
    (.ok { record := record, row := some (.fields record.values)
           rowRef := some ⟨some record.lineNo,record.recordId,none,none⟩, matchKey := none
           metadata := [], secretCandidates := [], errors := [], warnings := [] },r)
  normalizer x r := (.ok x,r)
  enricher x r :=
    (if x.record.lineNo = 3 then .error (.interrupt "KeyboardInterrupt") else .ok x,r)
  matcher x w := match x.row with
    | some (.fields row) =>
      match (dedupMatcher {}).matchWithSourceDedup w.1 { x with row := some row } with
      | .ok (m,store) => (.ok { m with row := m.row.map .matched },store,w.2)
      | .error exc => (.error (.exception exc),w)
    | _ => (.ok x,w)
  buildBatchIndex _ r := (.ok (),r)
  setIndex _ r := r
  getIndex r := (.ok (),r)
  resolve row _ _ _ r := (.ok (some row,[],[]),r)
  catalog := dedupCatalog
  matchSettings := ⟨1,500⟩
  matchClock _ := 0
  resolveBatchSize := 500
  resolveFlushIntervalMs := 500
  resolveClock _ := 0
  sweep r := (.ok (),r)
  begin := id
  commit := id
  rollback := id
  drainExpired := id

def employeeRecord (line : Int) (name : String) : SourceRecord :=
  ⟨line,"",[("code",.str "E1"),("name",.str name)]⟩

/-- Nothing is known in the scope, to begin with. -/
def freshScope : PlanningWorld Unit := ⟨⟨[],some []⟩,0,()⟩

def interruptedRun : (List (TransformResult PlanRow) × Option Failure) × PlanningWorld Unit :=
  interrupted.openRun [employeeRecord 2 "Ann",employeeRecord 3 "Bob"] none [] 5 freshScope

/-- The scope keeps the first row of the interrupted run, and the next run in the scope takes its
only row for a conflict. Without a row, too, the scope is not cleared. -/
theorem interrupted_run_not_cleared :
    interruptedRun.1.2 = some (.interrupt "KeyboardInterrupt") ∧
      ¬Cleared freshScope interruptedRun.2 ∧
      interruptedRun.2.dedup.shared = some [("code:E1","code=E1 name=Ann")] ∧
      (interrupted.openRun [employeeRecord 4 "Anna"] none [] 5 interruptedRun.2).1.1.map
        (fun r => r.errors.map DiagnosticItem.code) = [["MATCH_CONFLICT_SOURCE"]] ∧
      ¬Cleared freshScope (interrupted.openRun [] none [] 5 freshScope).2 := by
  refine ⟨by decide,fun h => ?_,by decide,by decide,fun h => ?_⟩
  · exact absurd h.1 (by decide)
  · exact absurd h.1 (by decide)

end PlanningPipeline
end NexusEtl.Pipeline
