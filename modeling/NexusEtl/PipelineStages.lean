import NexusEtl.DedupRuns
import NexusEtl.Library.Generators
import NexusEtl.TransformStages

/-!
# The stages as generators

Each stage reads a stream of results and hands out one result for each, through
an engine that acts on a shared state and may raise. The rows of a stage keep
their own type throughout, which the orchestrator does not look into.
-/

set_option autoImplicit false

namespace NexusEtl.Pipeline
open NexusEtl.Library

/-- What ends a stage: an `Exception`, or a `BaseException` that no boundary catches. -/
inductive Failure
  | exception (exc : PyException)
  | interrupt (name : String)
  deriving DecidableEq, Repr

abbrev Rows (W ρ : Type) := Gen W Failure (TransformResult ρ)

section Boundary

variable {W α β : Type}

/-- A call inside `diagnostic_boundary` and what is made of its result and of the items in the
sink. An unknown diagnostic code of a strict catalog goes through. -/
def attempt (stage : DiagnosticStage) (catalog : ErrorCatalog) (ref : Option RowRef)
    (call : W → Except Failure α × W) (settle : Option α × List DiagnosticItem → β) (w : W) :
    Except Failure β × W :=
  match call w with
  | (.ok a,w) => (.ok (settle (some a,[])),w)
  | (.error (.exception exc),w) =>
    if exc.name = "UnknownDiagnosticCodeError" then (.error (.exception exc),w)
    else (.ok (settle (none,[translateException catalog stage exc ref])),w)
  | (.error (.interrupt name),w) => (.error (.interrupt name),w)

end Boundary

section Batches

variable {W ε T : Type}

/-- The loop of `iter_micro_batches`; the clock is read once for each item. -/
def microBatchLoop (size : Nat) (interval : Int) (clock : Nat → Rat) :
    Gen.Loop W ε T (List T) (MicroBatch T × Nat) where
  body s item close next :=
    let due := s.1.flushDue interval (clock s.2)
    let kept := if due then [] else s.1.items
    let openedAt := if kept.isEmpty then some (clock s.2) else s.1.openedAt
    let grown := kept ++ [item]
    let rest := if size ≤ grown.length then .yield grown close (next (⟨[],none⟩,s.2+1))
      else next (⟨grown,openedAt⟩,s.2+1)
    if due then .yield s.1.items close rest else rest
  ended s := if s.1.items.isEmpty then .done else .yield s.1.items id .done
  raised _ := .raise

def microBatches (batchSize flushIntervalMs : Int) (clock : Nat → Rat) (source : Gen W ε T) :
    Gen W ε (List T) :=
  Gen.loop (microBatchLoop (if 0 < batchSize then batchSize.toNat else 1)
    (if 0 < flushIntervalMs then flushIntervalMs else 0) clock) source (⟨[],none⟩,0)

/-- The batches are those of the items that the source handed out. -/
theorem hands_microBatches {batchSize flushIntervalMs : Int} {clock : Nat → Rat}
    {source : Gen W ε T} {batches : List (List T)}
    (h : (microBatches batchSize flushIntervalMs clock source).Hands batches) :
    ∃ xs, source.Hands xs ∧ batches = iterMicroBatches batchSize flushIntervalMs clock xs := by
  unfold microBatches at h
  unfold iterMicroBatches
  generalize (if 0 < batchSize then batchSize.toNat else 1) = size at h ⊢
  generalize (if 0 < flushIntervalMs then flushIntervalMs else 0) = interval at h ⊢
  apply Gen.hands_loop (r := fun s xs batches => batches =
    microBatchesFrom size interval clock s.2 s.1 xs) _ _ _ h
  · intro s ys hys
    simp only [microBatchLoop] at hys
    rw [microBatchesFrom]
    by_cases hempty : s.1.items.isEmpty
    · rw [if_pos hempty] at hys ⊢
      exact hys
    · rw [if_neg hempty] at hys ⊢
      obtain ⟨m,rfl,hm⟩ := hys
      rw [show m = [] from hm]
  · exact fun _ _ _ => id
  · intro s item close next p hnext ys hys
    have hgrown : ∀ grown openedAt zs,
        (if size ≤ grown.length then Gen.yield grown close (next (⟨[],none⟩,s.2+1))
          else next (⟨grown,openedAt⟩,s.2+1)).Hands zs → ∃ xs, p xs ∧ zs =
        if size ≤ grown.length then
          grown::microBatchesFrom size interval clock (s.2+1) ⟨[],none⟩ xs
        else microBatchesFrom size interval clock (s.2+1) ⟨grown,openedAt⟩ xs := by
      intro grown openedAt zs hzs
      by_cases hfull : size ≤ grown.length
      · rw [if_pos hfull] at hzs
        obtain ⟨m,rfl,hm⟩ := hzs
        obtain ⟨xs,hxs,heq⟩ := hnext _ m hm
        exact ⟨xs,hxs,by rw [if_pos hfull, heq]⟩
      · rw [if_neg hfull] at hzs
        obtain ⟨xs,hxs,heq⟩ := hnext _ zs hzs
        exact ⟨xs,hxs,by rw [if_neg hfull, heq]⟩
    simp only [microBatchLoop] at hys
    by_cases hdue : s.1.flushDue interval (clock s.2)
    · rw [if_pos hdue] at hys
      obtain ⟨m,rfl,hm⟩ := hys
      obtain ⟨xs,hxs,heq⟩ := hgrown _ _ m hm
      exact ⟨xs,hxs,by simp only [microBatchesFrom, heq, if_pos hdue]⟩
    · rw [if_neg hdue] at hys
      obtain ⟨xs,hxs,heq⟩ := hgrown _ _ ys hys
      exact ⟨xs,hxs,by simp only [microBatchesFrom, heq, if_neg hdue]⟩

theorem keeps_microBatches {V : Type} {v : W → V} {batchSize flushIntervalMs : Int}
    {clock : Nat → Rat} {source : Gen W ε T} (h : source.Keeps v) :
    (microBatches batchSize flushIntervalMs clock source).Keeps v := by
  unfold microBatches
  generalize (if 0 < batchSize then batchSize.toNat else 1) = size
  generalize (if 0 < flushIntervalMs then flushIntervalMs else 0) = interval
  apply Gen.keeps_loop _ _ _ h
  · intro s
    simp only [microBatchLoop]
    split
    · trivial
    · exact ⟨fun _ => rfl,trivial⟩
  · exact fun _ _ => trivial
  · intro s item close next hclose hnext
    have hgrown : ∀ (grown : List T) openedAt,
        (if size ≤ grown.length then Gen.yield grown close (next (⟨[],none⟩,s.2+1))
          else next (⟨grown,openedAt⟩,s.2+1)).Keeps v := by
      intro grown openedAt
      split
      · exact ⟨hclose,hnext _⟩
      · exact hnext _
    simp only [microBatchLoop]
    split
    · exact ⟨hclose,hgrown _ _⟩
    · exact hgrown _ _

end Batches

section Stages

variable {W ρ I : Type}

/-- What normalize, enrich and match make of the engine's answer. -/
def settleRow (collected : TransformResult ρ) :
    Option (TransformResult ρ) × List DiagnosticItem → TransformResult ρ
  | (none,boundary) => collected.dropRow boundary
  | (some answer,boundary) => answer.addErrors boundary

structure MapStage (W ρ : Type) where
  mapper : SourceRecord → W → Except Failure (TransformResult ρ) × W
  catalog : ErrorCatalog

def MapStage.settle (collected : TransformResult ρ) :
    Option (TransformResult ρ) × List DiagnosticItem → TransformResult ρ
  | (none,boundary) => collected.dropRow boundary
  | (some mapped,boundary) =>
    { mapped with
      metadata := if collected.metadata = [] then mapped.metadata
        else Dict.update collected.metadata mapped.metadata
      errors := collected.errors ++ boundary ++ mapped.errors
      warnings := collected.warnings ++ mapped.warnings }

def MapStage.process (stage : MapStage W ρ) (collected : TransformResult ρ) (w : W) :
    Except Failure (TransformResult ρ) × W :=
  if collected.errors ≠ [] then (.ok collected.withoutRow,w)
  else attempt .map stage.catalog collected.rowRef (stage.mapper collected.record)
    (MapStage.settle collected) w

structure NormalizeStage (W ρ : Type) where
  normalizer : TransformResult ρ → W → Except Failure (TransformResult ρ) × W
  catalog : ErrorCatalog

def NormalizeStage.process (stage : NormalizeStage W ρ) (collected : TransformResult ρ) (w : W) :
    Except Failure (TransformResult ρ) × W :=
  if collected.errors ≠ [] then (.ok collected,w)
  else attempt .normalize stage.catalog collected.rowRef (stage.normalizer collected)
    (settleRow collected) w

structure EnrichStage (W ρ : Type) where
  enricher : TransformResult ρ → W → Except Failure (TransformResult ρ) × W
  catalog : ErrorCatalog

def EnrichStage.process (stage : EnrichStage W ρ) (collected : TransformResult ρ) (w : W) :
    Except Failure (TransformResult ρ) × W :=
  attempt .enrich stage.catalog collected.rowRef (stage.enricher collected)
    (settleRow collected) w

structure MatchStage (W ρ : Type) where
  matcher : TransformResult ρ → W → Except Failure (TransformResult ρ) × W
  catalog : ErrorCatalog
  batchSettings : MatchBatchSettings
  clock : Nat → Rat

def MatchStage.process (stage : MatchStage W ρ) (enriched : TransformResult ρ) (w : W) :
    Except Failure (TransformResult ρ) × W :=
  if enriched.row.isNone then (.ok enriched,w)
  else attempt .matching stage.catalog enriched.rowRef (stage.matcher enriched)
    (settleRow enriched) w

def MatchStage.run (stage : MatchStage W ρ) (source : Rows W ρ) : Rows W ρ :=
  Gen.loop { body := fun _ batch close next => Gen.eachOf stage.process close batch (next ())
             ended := fun _ => .done
             raised := fun _ => .raise }
    (microBatches stage.batchSettings.batchSize stage.batchSettings.flushIntervalMs stage.clock
      source) ()

structure ResolveContextStage (W ρ I : Type) where
  buildBatchIndex : List (TransformResult ρ) → W → Except Failure I × W
  setIndex : I → W → W

def ResolveContextStage.run (stage : ResolveContextStage W ρ I) (source : Rows W ρ) : Rows W ρ :=
  Gen.loop { body := fun records record _ next => next (records ++ [record])
             ended := fun records => .perform (stage.buildBatchIndex records)
               (fun index => .act (stage.setIndex index) fun _ => .ofList records) .raise
             raised := fun _ => .raise } source []

structure ResolveStage (W ρ I : Type) where
  resolve : ρ → SourceRecord → Fields → I → W →
    Except Failure (Option ρ × List DiagnosticItem × List DiagnosticItem) × W
  catalog : ErrorCatalog
  getIndex : W → Except Failure I × W

def ResolveStage.settle (matched : TransformResult ρ) :
    Option (Option ρ × List DiagnosticItem × List DiagnosticItem) × List DiagnosticItem →
      TransformResult ρ
  | (none,boundary) => { matched with row := none, errors := boundary, warnings := [] }
  | (some (row,errors,warnings),boundary) =>
    { matched with row := row, errors := errors ++ boundary, warnings := warnings }

def ResolveStage.process (stage : ResolveStage W ρ I) (index : I) (matched : TransformResult ρ)
    (w : W) : Except Failure (TransformResult ρ) × W :=
  match matched.row with
  | none => (.ok matched,w)
  | some row => attempt .resolve stage.catalog matched.rowRef
      (stage.resolve row matched.record matched.metadata index) (ResolveStage.settle matched) w

/-- The index is read when the first record has come. -/
def ResolveStage.run (stage : ResolveStage W ρ I) (source : Rows W ρ) : Rows W ρ :=
  Gen.loop { body := fun (known : Option I) matched close next =>
               let answer := fun index => Gen.perform (stage.process index matched)
                 (fun result => .yield result close (next (some index))) .raise
               match known with
               | some index => answer index
               | none => .perform stage.getIndex answer .raise
             ended := fun _ => .done
             raised := fun _ => .raise } source none

theorem MatchStage.hands_run {stage : MatchStage W ρ} {source : Rows W ρ}
    {results : List (TransformResult ρ)} (h : (stage.run source).Hands results) :
    ∃ inputs, source.Hands inputs ∧
      List.Forall₂ (fun x y => ∃ w, (stage.process x w).1 = .ok y) inputs results := by
  obtain ⟨batches,hbatches,hall⟩ : ∃ batches, (microBatches stage.batchSettings.batchSize
      stage.batchSettings.flushIntervalMs stage.clock source).Hands batches ∧
      List.Forall₂ (fun x y => ∃ w, (stage.process x w).1 = .ok y) batches.flatten results := by
    apply Gen.hands_loop (r := fun _ batches results =>
      List.Forall₂ (fun x y => ∃ w, (stage.process x w).1 = .ok y) batches.flatten results) _ _ _ h
    · rintro _ ys rfl
      exact .nil
    · exact fun _ _ _ => id
    · intro _ batch close next p hnext ys hys
      obtain ⟨front,back,rfl,hback,hfront⟩ := Gen.hands_eachOf hys
      obtain ⟨batches,hbatches,hrest⟩ := hnext () back hback
      exact ⟨batches,hbatches,List.rel_append hfront hrest⟩
  obtain ⟨inputs,hinputs,rfl⟩ := hands_microBatches hbatches
  rw [iterMicroBatches_flatten] at hall
  exact ⟨inputs,hinputs,hall⟩

theorem ResolveContextStage.hands_run {stage : ResolveContextStage W ρ I} {source : Rows W ρ}
    {results : List (TransformResult ρ)} (h : (stage.run source).Hands results) :
    source.Hands results := by
  obtain ⟨inputs,hinputs,rfl⟩ : ∃ inputs, source.Hands inputs ∧ results = [] ++ inputs := by
    apply Gen.hands_loop (r := fun records inputs results => results = records ++ inputs) _ _ _ h
    · intro records ys hys
      obtain ⟨_,_,_,_,hlist⟩ := Gen.hands_perform (fun _ => id) hys
      rw [List.append_nil]
      exact Gen.hands_ofList.mp hlist
    · exact fun _ _ _ => id
    · intro records record _ next p hnext ys hys
      obtain ⟨inputs,hinputs,rfl⟩ := hnext _ ys hys
      exact ⟨inputs,hinputs,by simp⟩
  exact hinputs

theorem ResolveStage.hands_run {stage : ResolveStage W ρ I} {source : Rows W ρ}
    {results : List (TransformResult ρ)} (h : (stage.run source).Hands results) :
    ∃ inputs, source.Hands inputs ∧
      List.Forall₂ (fun x y => ∃ index w, (stage.process index x w).1 = .ok y) inputs results := by
  apply Gen.hands_loop (r := fun _ => List.Forall₂ fun x y =>
    ∃ index w, (stage.process index x w).1 = .ok y) _ _ _ h
  · rintro _ ys rfl
    exact .nil
  · exact fun _ _ _ => id
  · intro known matched close next p hnext ys hys
    have hanswer : ∀ index, (Gen.perform (stage.process index matched)
        (fun result => .yield result close (next (some index))) .raise).Hands ys →
        ∃ xs, p xs ∧ List.Forall₂ (fun x y => ∃ index w, (stage.process index x w).1 = .ok y)
          (matched::xs) ys := by
      intro index hrow
      obtain ⟨w,result,hresult,rest,rfl,hrest⟩ := Gen.hands_perform (fun _ => id) hrow
      obtain ⟨xs,hxs,hall⟩ := hnext _ rest hrest
      exact ⟨xs,hxs,.cons ⟨index,w,hresult⟩ hall⟩
    cases known with
    | some index => exact hanswer index hys
    | none =>
      obtain ⟨_,index,_,hrow⟩ := Gen.hands_perform (fun _ => id) hys
      exact hanswer index hrow

inductive Stage (W ρ I : Type)
  | map (stage : MapStage W ρ)
  | normalize (stage : NormalizeStage W ρ)
  | enrich (stage : EnrichStage W ρ)
  | matching (stage : MatchStage W ρ)
  | resolveContext (stage : ResolveContextStage W ρ I)
  | resolve (stage : ResolveStage W ρ I)

namespace Stage

def stageName : Stage W ρ I → String
  | map _ => "map"
  | normalize _ => "normalize"
  | enrich _ => "enrich"
  | matching _ => "match"
  | resolveContext _ => "resolve_context"
  | resolve _ => "resolve"

def run : Stage W ρ I → Rows W ρ → Rows W ρ
  | map stage, source => .each stage.process source
  | normalize stage, source => .each stage.process source
  | enrich stage, source => .each stage.process source
  | matching stage, source => stage.run source
  | resolveContext stage, source => stage.run source
  | resolve stage, source => stage.run source

/-- A result that the stage can give for a result of its source. -/
def Answers : Stage W ρ I → TransformResult ρ → TransformResult ρ → Prop
  | map stage, x, y => ∃ w, (stage.process x w).1 = .ok y
  | normalize stage, x, y => ∃ w, (stage.process x w).1 = .ok y
  | enrich stage, x, y => ∃ w, (stage.process x w).1 = .ok y
  | matching stage, x, y => ∃ w, (stage.process x w).1 = .ok y
  | resolveContext _, x, y => y = x
  | resolve stage, x, y => ∃ index w, (stage.process index x w).1 = .ok y

/-- Each stage hands out one result for each result of its source, in their order. -/
theorem hands_run {stage : Stage W ρ I} {source : Rows W ρ} {results : List (TransformResult ρ)}
    (h : (stage.run source).Hands results) :
    ∃ inputs, source.Hands inputs ∧ List.Forall₂ stage.Answers inputs results := by
  cases stage with
  | map stage => exact Gen.hands_each h
  | normalize stage => exact Gen.hands_each h
  | enrich stage => exact Gen.hands_each h
  | matching stage => exact stage.hands_run h
  | resolveContext stage =>
    exact ⟨results,stage.hands_run h,List.forall₂_same.mpr fun _ _ => rfl⟩
  | resolve stage => exact stage.hands_run h

end Stage
end Stages
end NexusEtl.Pipeline
