import NexusEtl.PipelineStages

/-!
# The pipeline orchestrator

The orchestrator chains the stages. It cuts the stream of a stage with a batch
config into batches, of a fixed size or by a key, and watches the output of each
stage to fire the hooks. Whatever the batches are, no result is lost or doubled.
-/

set_option autoImplicit false

namespace NexusEtl.Pipeline
open NexusEtl.Library

section Buffering

variable {W ε T K : Type} [DecidableEq K]

/-- `_buffer_into_batches` without a key. -/
def fixedBatches (batchSize : Nat) (stream : Gen W ε T) : Gen W ε (List T) :=
  Gen.loop { body := fun batch item close next =>
               let grown := batch ++ [item]
               if batchSize ≤ grown.length then .yield grown close (next []) else next grown
             ended := fun batch => if batch.isEmpty then .done else .yield batch id .done
             raised := fun _ => .raise } stream []

/-- `_buffer_into_batches` with a key. -/
def keyedBatches (batchSize : Nat) (key : T → K) (stream : Gen W ε T) : Gen W ε (List T) :=
  Gen.loop { body := fun buckets item close next =>
               let bucket := (Dict.get? buckets (key item)).getD [] ++ [item]
               if batchSize ≤ bucket.length then
                 .yield bucket close (next (Dict.set buckets (key item) []))
               else next (Dict.set buckets (key item) bucket)
             ended := fun buckets => .ofList ((Dict.values buckets).filter fun b => !b.isEmpty)
             raised := fun _ => .raise } stream ([] : Dict K (List T))

def bufferIntoBatches (batchSize : Int) (key? : Option (T → K)) (stream : Gen W ε T) :
    Gen W ε (List T) :=
  let size := if 0 < batchSize then batchSize.toNat else 1
  match key? with
  | none => fixedBatches size stream
  | some key => keyedBatches size key stream

theorem hands_fixedBatches {batchSize : Nat} {stream : Gen W ε T} {batches : List (List T)}
    (h : (fixedBatches batchSize stream).Hands batches) : stream.Hands batches.flatten := by
  obtain ⟨xs,hxs,heq⟩ : ∃ xs, stream.Hands xs ∧ batches.flatten = [] ++ xs := by
    apply Gen.hands_loop (r := fun batch xs batches => batches.flatten = batch ++ xs) _ _ _ h
    · intro batch ys hys
      dsimp only at hys
      by_cases hempty : batch.isEmpty
      · rw [if_pos hempty] at hys
        rw [show ys = [] from hys, List.isEmpty_iff.mp hempty]
        rfl
      · rw [if_neg hempty] at hys
        obtain ⟨m,rfl,hm⟩ := hys
        rw [show m = [] from hm]
        simp
    · exact fun _ _ _ => id
    · intro batch item close next p hnext ys hys
      dsimp only at hys
      split at hys
      · obtain ⟨m,rfl,hm⟩ := hys
        obtain ⟨xs,hxs,heq⟩ := hnext _ m hm
        exact ⟨xs,hxs,by simp [heq]⟩
      · obtain ⟨xs,hxs,heq⟩ := hnext _ ys hys
        exact ⟨xs,hxs,by simp [heq]⟩
  exact heq ▸ hxs

/-- The same items, those of each key in the same order. -/
def KeptPerKey (key : T → K) (xs ys : List T) : Prop :=
  ∀ k, ys.filter (fun x => decide (key x = k)) = xs.filter fun x => decide (key x = k)

theorem KeptPerKey.perm {key : T → K} {xs ys : List T} (h : KeptPerKey key xs ys) :
    ys.Perm xs := by
  classical
  rw [List.perm_iff_count]
  intro a
  have hcount : ∀ l : List T,
      List.count a l = List.count a (l.filter fun x => decide (key x = key a)) :=
    fun l => (List.count_filter (by simp)).symm
  rw [hcount ys, h (key a), ← hcount xs]

/-- What the buckets hold is filed under its key, and each key has one bucket. -/
structure Filed (key : T → K) (buckets : Dict K (List T)) : Prop where
  distinct : (Dict.keys buckets).Nodup
  own : ∀ k, ∀ x ∈ (Dict.get? buckets k).getD [], key x = k

theorem Filed.set {key : T → K} {buckets : Dict K (List T)} (h : Filed key buckets) {k : K}
    {bucket : List T} (hbucket : ∀ x ∈ bucket, key x = k) :
    Filed key (Dict.set buckets k bucket) := by
  refine ⟨Dict.nodup_keys_set h.distinct k bucket,fun k' x hx => ?_⟩
  rw [Dict.get?_set] at hx
  by_cases hk : k = k'
  · rw [if_pos hk] at hx
    exact (hbucket x hx).trans hk
  · rw [if_neg hk] at hx
    exact h.own k' x hx

/-- All that is left in the buckets, read key by key. -/
theorem Filed.filter_values {key : T → K} {buckets : Dict K (List T)} (h : Filed key buckets)
    (k : K) : (Dict.values buckets).flatten.filter (fun x => decide (key x = k)) =
      (Dict.get? buckets k).getD [] := by
  induction buckets with
  | nil => rfl
  | cons entry buckets ih =>
    obtain ⟨k',bucket⟩ := entry
    obtain ⟨hnew,hdistinct⟩ := List.nodup_cons.mp h.distinct
    have hrest : Filed key buckets := by
      refine ⟨hdistinct,fun k x hx => ?_⟩
      by_cases hk : k' = k
      · subst hk
        rw [Dict.get?_eq_none hnew] at hx
        cases hx
      · apply h.own k x
        simp only [Dict.get?, hk, if_false]
        exact hx
    have hown : ∀ x ∈ bucket, key x = k' := fun x hx => h.own k' x (by simpa [Dict.get?] using hx)
    simp only [Dict.values, List.map_cons, List.flatten_cons, List.filter_append]
    rw [show (buckets.map Prod.snd).flatten.filter _ = _ from ih hrest]
    by_cases hk : k' = k
    · subst hk
      have hall : bucket.filter (fun x => decide (key x = k')) = bucket :=
        List.filter_eq_self.mpr fun x hx => decide_eq_true (hown x hx)
      simp [hall, Dict.get?_eq_none hnew, Dict.get?]
    · have hnone : bucket.filter (fun x => decide (key x = k)) = [] :=
        List.filter_eq_nil_iff.mpr fun x hx hx' => hk ((hown x hx).symm.trans (of_decide_eq_true hx'))
      simp [hnone, Dict.get?, hk]

theorem hands_keyedBatches {batchSize : Nat} {key : T → K} {stream : Gen W ε T}
    {batches : List (List T)} (h : (keyedBatches batchSize key stream).Hands batches) :
    ∃ xs, stream.Hands xs ∧ KeptPerKey key xs batches.flatten := by
  obtain ⟨xs,hxs,heq⟩ : ∃ xs, stream.Hands xs ∧ (Filed key [] → ∀ k,
      batches.flatten.filter (fun x => decide (key x = k)) =
        (Dict.get? ([] : Dict K (List T)) k).getD [] ++
          xs.filter fun x => decide (key x = k)) := by
    apply Gen.hands_loop (r := fun buckets xs batches => Filed key buckets → ∀ k,
      batches.flatten.filter (fun x => decide (key x = k)) =
        (Dict.get? buckets k).getD [] ++ xs.filter fun x => decide (key x = k)) _ _ _ h
    · intro buckets ys hys hfiled k
      rw [Gen.hands_ofList.mp hys, List.flatten_filter_not_isEmpty, hfiled.filter_values,
        List.filter_nil, List.append_nil]
    · exact fun _ _ _ => id
    · intro buckets item close next p hnext ys hys
      have hown : Filed key buckets → ∀ x ∈ (Dict.get? buckets (key item)).getD [] ++ [item],
          key x = key item := by
        intro hfiled x hx
        rcases List.mem_append.mp hx with hx | hx
        · exact hfiled.own _ x hx
        · rw [List.mem_singleton.mp hx]
      dsimp only at hys
      split at hys
      · obtain ⟨m,rfl,hm⟩ := hys
        obtain ⟨xs,hxs,heq⟩ := hnext _ m hm
        refine ⟨xs,hxs,fun hfiled k => ?_⟩
        have hrest := heq (hfiled.set fun x hx => by cases hx) k
        rw [List.flatten_cons, List.filter_append, hrest, Dict.get?_set]
        by_cases hk : key item = k
        · subst hk
          rw [List.filter_eq_self.mpr fun x hx => decide_eq_true (hown hfiled x hx)]
          simp
        · have hnone : ((Dict.get? buckets (key item)).getD [] ++ [item]).filter
              (fun x => decide (key x = k)) = [] := List.filter_eq_nil_iff.mpr fun x hx hx' =>
            hk ((hown hfiled x hx).symm.trans (of_decide_eq_true hx'))
          simp [hnone, hk]
      · obtain ⟨xs,hxs,heq⟩ := hnext _ ys hys
        refine ⟨xs,hxs,fun hfiled k => ?_⟩
        have hrest := heq (hfiled.set (hown hfiled)) k
        rw [hrest, Dict.get?_set]
        by_cases hk : key item = k
        · subst hk
          simp
        · simp [hk]
  exact ⟨xs,hxs,fun k => by simpa using heq ⟨List.nodup_nil,fun _ _ hx => by simp at hx⟩ k⟩

end Buffering

section Orchestrator

variable {W ρ I K : Type} [DecidableEq K]

structure BatchConfig (ρ K : Type) where
  batchSize : Int := 1000
  key : Option (TransformResult ρ → K) := none

/-- A stage with its `batch_config`, when it has one. -/
structure BatchableStage (W ρ I K : Type) where
  stage : Stage W ρ I
  batchConfig : Option (BatchConfig ρ K)

/-- A callback of the hooks acts on the shared state and may raise. -/
abbrev Callback (W : Type) := W → Except Failure Unit × W

/-- The callbacks, without the durations that they are told. -/
structure PipelineHooks (W : Type) where
  onStageBind : Option (String → Callback W) := none
  onStageStart : Option (String → Callback W) := none
  onStageComplete : Option (String → Nat → Callback W) := none
  onStageError : Option (String → PyException → Callback W) := none
  onStageAbort : Option (String → Callback W) := none

/-- Whether the first item has come, and the number of items. -/
structure Watch where
  started : Bool
  itemsCount : Nat

namespace PipelineHooks

variable (hooks : PipelineHooks W)

/-- `except Exception`; what the callback raises takes the place of the exception. -/
def raised {T : Type} (name : String) (watch : Watch) : Failure → Gen W Failure T
  | .interrupt cause => .raise (.interrupt cause)
  | .exception exc => match hooks.onStageError with
    | some callback => if watch.started
        then .perform (callback name exc) (fun _ => .raise (.exception exc)) .raise
        else .raise (.exception exc)
    | none => .raise (.exception exc)

/-- `except GeneratorExit`. -/
def closed (name : String) (w : W) : W :=
  match hooks.onStageAbort with
  | some callback => (callback name w).2
  | none => w

def watchLoop (name : String) :
    Gen.Loop W Failure (TransformResult ρ) (TransformResult ρ) Watch where
  body watch item close next :=
    let item := .yield item (fun w => close (hooks.closed name w)) (next ⟨true,watch.itemsCount + 1⟩)
    match hooks.onStageStart with
    | some callback => if watch.started then item
        else .perform (callback name) (fun _ => item) (hooks.raised name ⟨true,0⟩)
    | none => item
  ended watch := match hooks.onStageComplete with
    | some callback => if watch.started
        then .perform (callback name watch.itemsCount) (fun _ => .done) (hooks.raised name watch)
        else .done
    | none => .done
  raised := hooks.raised name

/-- `_monitored`. -/
def monitored (name : String) (stream : Rows W ρ) : Rows W ρ :=
  Gen.loop (hooks.watchLoop name) stream ⟨false,0⟩

theorem not_hands_raised {T : Type} (name : String) (watch : Watch) (failure : Failure)
    (items : List T) : ¬(hooks.raised name watch failure).Hands items := by
  cases failure with
  | interrupt cause => exact id
  | exception exc =>
    unfold raised
    cases hooks.onStageError with
    | none => exact id
    | some callback =>
      dsimp only
      split
      · intro h
        obtain ⟨_,_,_,hraise⟩ := Gen.hands_perform (fun _ => id) h
        exact hraise
      · exact id

/-- Watching a stream changes nothing in it. -/
theorem hands_monitored {name : String} {stream : Rows W ρ} {results : List (TransformResult ρ)}
    (h : (hooks.monitored name stream).Hands results) : stream.Hands results := by
  obtain ⟨xs,hxs,rfl⟩ : ∃ xs, stream.Hands xs ∧ results = xs := by
    apply Gen.hands_loop (r := fun _ xs results => results = xs) _ _ _ h
    · intro watch ys hys
      simp only [watchLoop] at hys
      cases hcallback : hooks.onStageComplete with
      | none =>
        rw [hcallback] at hys
        exact hys
      | some callback =>
        rw [hcallback] at hys
        dsimp only at hys
        split at hys
        · obtain ⟨_,_,_,hdone⟩ := Gen.hands_perform (hooks.not_hands_raised name watch · ys) hys
          exact hdone
        · exact hys
    · exact fun watch failure ys => hooks.not_hands_raised name watch failure ys
    · intro watch item close next p hnext ys hys
      have hitem : (Gen.yield item (fun w => close (hooks.closed name w))
          (next ⟨true,watch.itemsCount + 1⟩)).Hands ys → ∃ xs, p xs ∧ ys = item::xs := by
        rintro ⟨rest,rfl,hrest⟩
        obtain ⟨xs,hxs,rfl⟩ := hnext _ rest hrest
        exact ⟨_,hxs,rfl⟩
      simp only [watchLoop] at hys
      cases hcallback : hooks.onStageStart with
      | none =>
        rw [hcallback] at hys
        exact hitem hys
      | some callback =>
        rw [hcallback] at hys
        dsimp only at hys
        split at hys
        · exact hitem hys
        · obtain ⟨_,_,_,hrow⟩ := Gen.hands_perform (hooks.not_hands_raised name ⟨true,0⟩ · ys) hys
          exact hitem hrow
  exact hxs

end PipelineHooks

namespace BatchableStage

/-- `_run_batched_stage`. -/
def runBatched (st : BatchableStage W ρ I K) (config : BatchConfig ρ K) (source : Rows W ρ) :
    Rows W ρ :=
  Gen.loop { body := fun _ batch close next =>
               Gen.chain close .raise (st.stage.run (.ofList batch)) (next ())
             ended := fun _ => .done
             raised := fun _ => .raise }
    (bufferIntoBatches config.batchSize config.key source) ()

def execute (st : BatchableStage W ρ I K) (hooks : PipelineHooks W) (source : Rows W ρ) :
    Rows W ρ :=
  hooks.monitored st.stage.stageName <| match st.batchConfig with
    | some config => st.runBatched config source
    | none => st.stage.run source

def key (st : BatchableStage W ρ I K) : Option (TransformResult ρ → K) :=
  st.batchConfig.bind BatchConfig.key

/-- One result for each result of the source, in their order, or with a key in an order that is
that of the source for each key. -/
def Emits (st : BatchableStage W ρ I K) (inputs results : List (TransformResult ρ)) : Prop :=
  match st.key with
  | none => List.Forall₂ st.stage.Answers inputs results
  | some key => ∃ order, order.Perm inputs ∧ KeptPerKey key inputs order ∧
      List.Forall₂ st.stage.Answers order results

end BatchableStage

structure PipelineOrchestrator (W ρ I K : Type) where
  stages : List (BatchableStage W ρ I K)
  hooks : PipelineHooks W

namespace PipelineOrchestrator

/-- `on_stage_bind` is called when the chain is built. -/
def bind (hooks : PipelineHooks W) (name : String) : Callback W :=
  match hooks.onStageBind with
  | some callback => callback name
  | none => fun w => (.ok (),w)

def runStages (hooks : PipelineHooks W) :
    List (BatchableStage W ρ I K) → Rows W ρ → W → Except Failure (Rows W ρ) × W
  | [], current, w => (.ok current,w)
  | st::rest, current, w => match bind hooks st.stage.stageName w with
    | (.error failure,w) => (.error failure,w)
    | (.ok _,w) => runStages hooks rest (st.execute hooks current) w

def run (orchestrator : PipelineOrchestrator W ρ I K) (source : Rows W ρ) (w : W) :
    Except Failure (Rows W ρ) × W :=
  runStages orchestrator.hooks orchestrator.stages source w

/-- What the stages make of the results, stage by stage. -/
def Conserves : List (BatchableStage W ρ I K) → List (TransformResult ρ) →
    List (TransformResult ρ) → Prop
  | [], inputs, results => results = inputs
  | st::rest, inputs, results => ∃ mid, st.Emits inputs mid ∧ Conserves rest mid results

/-- A result that the stages, one after another, can give for a result of the source. -/
def AnswersAll : List (BatchableStage W ρ I K) → TransformResult ρ → TransformResult ρ → Prop
  | [], x, y => y = x
  | st::rest, x, y => ∃ z, st.stage.Answers x z ∧ AnswersAll rest z y

end PipelineOrchestrator

namespace BatchableStage

theorem hands_runBatched {st : BatchableStage W ρ I K} {config : BatchConfig ρ K}
    {source : Rows W ρ} {results : List (TransformResult ρ)}
    (h : (st.runBatched config source).Hands results) : ∃ batches,
      (bufferIntoBatches config.batchSize config.key source).Hands batches ∧
        List.Forall₂ st.stage.Answers batches.flatten results := by
  apply Gen.hands_loop (r := fun _ batches results =>
    List.Forall₂ st.stage.Answers batches.flatten results) _ _ _ h
  · rintro _ ys rfl
    exact .nil
  · exact fun _ _ _ => id
  · intro _ batch close next p hnext ys hys
    obtain ⟨front,back,rfl,hfront,hback⟩ := Gen.hands_chain (fun _ _ => id) hys
    obtain ⟨inputs,hinputs,hall⟩ := Stage.hands_run hfront
    obtain ⟨batches,hbatches,hrest⟩ := hnext () back hback
    exact ⟨batches,hbatches,List.rel_append (Gen.hands_ofList.mp hinputs ▸ hall) hrest⟩

theorem hands_execute {st : BatchableStage W ρ I K} {hooks : PipelineHooks W}
    {source : Rows W ρ} {results : List (TransformResult ρ)}
    (h : (st.execute hooks source).Hands results) :
    ∃ inputs, source.Hands inputs ∧ st.Emits inputs results := by
  have hraw := hooks.hands_monitored h
  unfold Emits key
  cases hconfig : st.batchConfig with
  | none =>
    rw [hconfig] at hraw
    exact Stage.hands_run hraw
  | some config =>
    rw [hconfig] at hraw
    obtain ⟨batches,hbatches,hall⟩ := hands_runBatched hraw
    unfold bufferIntoBatches at hbatches
    dsimp only [Option.bind_some]
    cases hkey : config.key with
    | none =>
      rw [hkey] at hbatches
      exact ⟨_,hands_fixedBatches hbatches,hall⟩
    | some key =>
      rw [hkey] at hbatches
      obtain ⟨inputs,hinputs,hkept⟩ := hands_keyedBatches hbatches
      exact ⟨inputs,hinputs,_,hkept.perm,hkept,hall⟩

end BatchableStage

namespace PipelineOrchestrator

/-- The run of the chain, by induction on the stages: each takes the stream of the one before. -/
theorem hands_runStages {hooks : PipelineHooks W} {stages : List (BatchableStage W ρ I K)}
    {source stream : Rows W ρ} {w w' : W} {results : List (TransformResult ρ)}
    (hrun : runStages hooks stages source w = (.ok stream,w')) (h : stream.Hands results) :
    ∃ inputs, source.Hands inputs ∧ Conserves stages inputs results := by
  induction stages generalizing source w with
  | nil =>
    cases hrun
    exact ⟨results,h,rfl⟩
  | cons st rest ih =>
    unfold runStages at hrun
    split at hrun
    · cases congrArg Prod.fst hrun
    · obtain ⟨mid,hmid,hrest⟩ := ih hrun
      obtain ⟨inputs,hinputs,hemits⟩ := BatchableStage.hands_execute hmid
      exact ⟨inputs,hinputs,mid,hemits,hrest⟩

theorem forall₂_trans {α β γ : Type} {R : α → β → Prop} {S : β → γ → Prop} {xs : List α}
    {ys : List β} {zs : List γ} (h : List.Forall₂ R xs ys) (h' : List.Forall₂ S ys zs) :
    List.Forall₂ (fun x z => ∃ y, R x y ∧ S y z) xs zs := by
  induction h generalizing zs with
  | nil =>
    cases h'
    exact .nil
  | cons hxy _ ih =>
    cases h' with
    | cons hyz hrest => exact .cons ⟨_,hxy,hyz⟩ (ih hrest)

theorem Conserves.length_eq {stages : List (BatchableStage W ρ I K)}
    {inputs results : List (TransformResult ρ)} (h : Conserves stages inputs results) :
    results.length = inputs.length := by
  induction stages generalizing inputs with
  | nil =>
    cases h
    rfl
  | cons st rest ih =>
    obtain ⟨mid,hemits,hrest⟩ := h
    have hmid : mid.length = inputs.length := by
      unfold BatchableStage.Emits at hemits
      split at hemits
      · exact hemits.length_eq.symm
      · obtain ⟨order,hperm,_,hall⟩ := hemits
        exact hall.length_eq.symm.trans hperm.length_eq
    exact (ih hrest).trans hmid

theorem Conserves.answersAll {stages : List (BatchableStage W ρ I K)}
    (hkeys : ∀ st ∈ stages, st.key = none) {inputs results : List (TransformResult ρ)}
    (h : Conserves stages inputs results) : List.Forall₂ (AnswersAll stages) inputs results := by
  induction stages generalizing inputs with
  | nil =>
    cases h
    exact List.forall₂_same.mpr fun _ _ => rfl
  | cons st rest ih =>
    obtain ⟨mid,hemits,hrest⟩ := h
    have hall := ih (fun st hst => hkeys st (List.mem_cons_of_mem _ hst)) hrest
    unfold BatchableStage.Emits at hemits
    rw [hkeys st List.mem_cons_self] at hemits
    exact forall₂_trans hemits hall

/-- A run to the end of the stream hands out one result for each result that its source handed
out: in the same order when no stage batches by a key, else in the order of each key. -/
theorem record_conservation (orchestrator : PipelineOrchestrator W ρ I K) (source : Rows W ρ)
    {stream : Rows W ρ} {w w₁ w₂ : W} {results : List (TransformResult ρ)}
    (hrun : orchestrator.run source w = (.ok stream,w₁))
    (hall : stream.drain w₁ = ((results,none),w₂)) :
    ∃ inputs, source.Hands inputs ∧ Conserves orchestrator.stages inputs results ∧
      results.length = inputs.length ∧
      ((∀ st ∈ orchestrator.stages, st.key = none) →
        List.Forall₂ (AnswersAll orchestrator.stages) inputs results) := by
  obtain ⟨inputs,hinputs,hconserves⟩ := hands_runStages hrun (Gen.hands_of_drain hall)
  exact ⟨inputs,hinputs,hconserves,hconserves.length_eq,fun hkeys => hconserves.answersAll hkeys⟩

/-- Engines that count their calls and hand the row on, and a batch key of two values. -/
def countingPipeline : PipelineOrchestrator Nat String Nat Bool :=
  let engine := fun (x : TransformResult String) (calls : Nat) =>
    ((.ok x : Except Failure (TransformResult String)),calls + 1)
  let keyed : BatchConfig String Bool := ⟨2,some fun x => x.record.lineNo % 2 == 0⟩
  { stages := [⟨.normalize ⟨engine,[]⟩,none⟩,⟨.enrich ⟨engine,[]⟩,some keyed⟩,
      ⟨.matching ⟨engine,[],⟨2,500⟩,fun _ => 0⟩,none⟩,
      ⟨.resolveContext ⟨fun records calls => (.ok records.length,calls),fun _ calls => calls⟩,
        none⟩,
      ⟨.resolve ⟨fun row _ _ _ calls => (.ok (some row,[],[]),calls + 1),[],
        fun calls => (.ok calls,calls)⟩,none⟩]
    hooks := { onStageComplete := some fun _ items calls => (.ok (),calls + items) } }

def countedRow (line : Int) (row : Option String) : TransformResult String :=
  { record := ⟨line,"",[]⟩, row := row, rowRef := none, matchKey := none, metadata := []
    secretCandidates := [], errors := [], warnings := [] }

def countedRows : List (TransformResult String) :=
  [countedRow 1 (some "a"),countedRow 2 (some "b"),countedRow 4 none,countedRow 3 (some "c"),
    countedRow 5 (some "d")]

def countedStream : Rows Nat String :=
  match (countingPipeline.run (.ofList countedRows) 0).1 with
  | .ok stream => stream
  | .error failure => .raise failure

def countedResults : List (TransformResult String) :=
  [countedRow 2 (some "b"),countedRow 4 none,countedRow 1 (some "a"),countedRow 3 (some "c"),
    countedRow 5 (some "d")]

theorem record_conservation_counting :
    ∃ inputs, (Gen.ofList countedRows : Rows Nat String).Hands inputs ∧
      Conserves countingPipeline.stages inputs countedResults ∧
      countedResults.length = inputs.length ∧
      ((∀ st ∈ countingPipeline.stages, st.key = none) →
        List.Forall₂ (AnswersAll countingPipeline.stages) inputs countedResults) :=
  record_conservation countingPipeline (.ofList countedRows)
    (show countingPipeline.run _ 0 = (.ok countedStream,0) from rfl)
    (show countedStream.drain 0 = ((countedResults,none),43) by decide +kernel)

end PipelineOrchestrator
end Orchestrator
end NexusEtl.Pipeline
