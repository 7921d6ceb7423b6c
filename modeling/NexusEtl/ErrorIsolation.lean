import NexusEtl.SecretFlow
import NexusEtl.SourceDedup
import NexusEtl.PlanningHistory

/-!
# Errors on their way to the plan

Every stage up to the matcher keeps the errors of a row and appends errors of
its own. The resolve stage starts a new list: it keeps the errors of a row that
arrives without its row and forgets those of a row that arrives with it.
-/

set_option autoImplicit false

namespace NexusEtl
open NexusEtl.Library

/-- A stage appends errors of its own to those of the row. -/
def Appends {ρ σ : Type} (stage : DiagnosticStage) (before : TransformResult ρ)
    (after : TransformResult σ) : Prop :=
  ∃ added, after.errors = before.errors ++ added ∧ ∀ e ∈ added, e.stage = stage

theorem Appends.mem {ρ σ : Type} {stage : DiagnosticStage} {before : TransformResult ρ}
    {after : TransformResult σ} (h : Appends stage before after) {e : DiagnosticItem}
    (he : e ∈ before.errors) : e ∈ after.errors := by
  obtain ⟨added,heq,_⟩ := h
  exact heq ▸ List.mem_append_left _ he

theorem Appends.of_mem {ρ σ : Type} {stage : DiagnosticStage} {before : TransformResult ρ}
    {after : TransformResult σ} (h : Appends stage before after) {e : DiagnosticItem}
    (he : e ∈ after.errors) : e ∈ before.errors ∨ e.stage = stage := by
  obtain ⟨added,heq,hs⟩ := h
  rw [heq] at he
  exact (List.mem_append.mp he).imp_right (hs e)

theorem Appends.keep {ρ σ : Type} {stage : DiagnosticStage} {before : TransformResult ρ}
    {after : TransformResult σ} (h : after.errors = before.errors) :
    Appends stage before after := ⟨[],by simp [h],by simp⟩

theorem mapStage_appends (mapper : MapperCore) (catalog : ErrorCatalog) (collected : Enriching) :
    Appends .map collected (mapStage mapper catalog collected) := by
  unfold mapStage
  split
  · exact Appends.keep rfl
  · cases hm : mapper.mapRecord collected.record with
    | error exc => exact ⟨_,rfl,by simp⟩
    | ok mapped =>
      refine ⟨mapped.errors,by simp [diagnosticBoundary],?_⟩
      exact (MapperCore.mapRecord_spec hm).2.2.2.2.1

theorem normalizeStage_appends (normalizer : NormalizerCore) (collected : Enriching) :
    Appends .normalize collected (normalizeStage normalizer collected) := by
  unfold normalizeStage
  split
  · exact Appends.keep rfl
  · obtain ⟨added,herrors,hstage,_⟩ := normalizer.normalize_spec collected
    exact ⟨added,herrors,hstage⟩

namespace EnricherCore

variable {D : Type} (core : EnricherCore D) (deps : D)

@[simp] theorem setFieldValue_errors (builder : Enriching) (field : String) (v : Value) :
    (setFieldValue builder field v).errors = builder.errors := by
  unfold setFieldValue
  split
  · rfl
  · split
    · split <;> rfl
    · split <;> rfl

theorem Effect.errors {before after : EnrichState} {events : List EnrichEvent}
    (h : Effect before after events) : after.builder.errors = before.builder.errors := by
  rcases h with rfl | ⟨field,value,hbuilder,_⟩
  · rfl
  · rw [hbuilder, setFieldValue_errors]

theorem stepOperation_appends {ctx : EnrichContext} {op : EnrichmentOperation D}
    {run next : RunState} {stop : Bool} {result : Enriching}
    (h : core.stepOperation deps ctx op run = .ok (next,stop))
    (hrun : Appends .enrich result run.state.builder) :
    Appends .enrich result next.state.builder := by
  rcases core.stepOperation_spec deps h with rfl | ⟨state,_,_,errs,_,heffect,hs,_,_,hnext⟩
  · exact hrun
  · obtain ⟨added,heq,hadded⟩ := hrun
    refine ⟨added ++ errs,?_,?_⟩
    · rw [hnext]
      simp only [heffect.errors, heq, List.append_assoc]
    · intro e he
      rcases List.mem_append.mp he with he | he
      · exact hadded e he
      · exact hs e he

theorem storeSecrets_appends {result builder : Enriching} (h : Appends .enrich result builder) :
    Appends .enrich result (core.storeSecrets deps builder) := by
  obtain ⟨added,heq,hadded⟩ := h
  have hmore : ∀ (e : DiagnosticItem) (out : Enriching), e.stage = .enrich →
      out.errors = builder.errors ++ [e] → Appends .enrich result out := by
    intro e out he hout
    refine ⟨added ++ [e],by rw [hout, heq, List.append_assoc],?_⟩
    intro d hd
    rcases List.mem_append.mp hd with hd | hd
    · exact hadded d hd
    · rw [List.mem_singleton.mp hd, he]
  have hsame : ∀ out : Enriching, out.errors = builder.errors → Appends .enrich result out :=
    fun out hout => ⟨added,by rw [hout, heq],hadded⟩
  unfold storeSecrets
  split
  · exact hsame _ rfl
  · split
    · exact hmore _ _ rfl rfl
    · dsimp only
      split
      · exact hsame _ rfl
      · split
        · exact hsame _ rfl
        · exact hmore _ _ rfl rfl

theorem enrich_appends {result out : Enriching} (h : core.enrich deps result = .ok out) :
    Appends .enrich result out := by
  unfold enrich at h
  split at h
  · cases h
    exact Appends.keep rfl
  · simp only [bind, Except.bind, pure, Except.pure] at h
    split at h
    · cases h
    · rename_i final hfinal
      cases h
      have hstart : Appends .enrich result (core.startRun result).state.builder := by
        refine Appends.keep ?_
        unfold startRun startBuilder
        dsimp only
        split <;> rfl
      have hend := core.runOperations_keeps deps
        (P := fun run => Appends .enrich result run.state.builder)
        (fun _ _ _ _ hstep hrun => core.stepOperation_appends deps hstep hrun)
        (core.start_mem_visited deps _ _) hfinal hstart
      exact core.storeSecrets_appends deps hend

end EnricherCore

theorem enrichStage_appends {D : Type} (enricher : EnricherCore D) (deps : D)
    (catalog : ErrorCatalog) (collected : Enriching) :
    Appends .enrich collected (enrichStage enricher deps catalog collected) := by
  unfold enrichStage
  cases he : enricher.enrich deps collected with
  | error exc => exact ⟨_,rfl,by simp⟩
  | ok enriched =>
    obtain ⟨added,heq,hs⟩ := enricher.enrich_appends deps he
    exact ⟨added,by simp [diagnosticBoundary, heq],hs⟩

theorem matchStage_appends (core : MatchCore) (catalog : ErrorCatalog) (store : DedupStore)
    (enriched : TransformResult Fields) :
    Appends .matching enriched (matchStage core catalog store enriched).1 := by
  obtain ⟨added,herrors,hs,_⟩ := matchStage_errors core catalog store enriched
  exact ⟨added,herrors,hs⟩

/-- The errors of a row that reaches the resolver are those of the resolve stage alone. -/
theorem resolveRow_stage {stage : ResolveStage} {clock : Clock} {db : IdentityDb}
    {m : TransformResult MatchedRow} (h : m.row.isSome) :
    ∀ e ∈ (stage.resolveRow clock db m).1.errors, e.stage = .resolve := by
  intro e he
  obtain ⟨row,hrow⟩ := Option.isSome_iff_exists.mp h
  simp only [ResolveStage.resolveRow, hrow] at he
  cases hres : (stage.resolver.resolve db (stage.callOf m row clock)).result with
  | error exc =>
    simp only [hres, ResolveStage.resultOf, diagnosticBoundary, List.mem_singleton] at he
    rw [he]
    rfl
  | ok r =>
    simp only [hres, ResolveStage.resultOf, diagnosticBoundary, List.append_nil] at he
    exact ResolveCore.resolve_stage hres e he

/-- The cores of the stages of a planning run. -/
structure Pipeline (D : Type) where
  mapper : MapperCore
  normalizer : NormalizerCore
  enricher : EnricherCore D
  matcher : MatchCore
  resolver : ResolveCore
  catalog : ErrorCatalog

namespace Pipeline

variable {D : Type} (p : Pipeline D) (deps : Nat → D) (store : DedupStore)
  (source : List Enriching)

def mapped : List Enriching := source.map (mapStage p.mapper p.catalog)

def normalized : List Enriching := (p.mapped source).map (normalizeStage p.normalizer)

def enriched : List Enriching :=
  (p.normalized source).mapIdx fun k r => enrichStage p.enricher (deps k) p.catalog r

def matched : List (TransformResult MatchedRow) :=
  matchStream p.matcher p.catalog store (p.enriched deps source)

/-- An error that some stage recorded for the row of a position. -/
def Recorded (results : List (TransformResult ResolvedRow)) (k : Nat) (e : DiagnosticItem) :
    Prop :=
  (∃ r ∈ source[k]?, e ∈ r.errors) ∨ (∃ r ∈ (p.mapped source)[k]?, e ∈ r.errors) ∨
    (∃ r ∈ (p.normalized source)[k]?, e ∈ r.errors) ∨
    (∃ r ∈ (p.enriched deps source)[k]?, e ∈ r.errors) ∨
    (∃ r ∈ (p.matched deps store source)[k]?, e ∈ r.errors) ∨
    ∃ r ∈ results[k]?, e ∈ r.errors

/-- Every recorded error reaches the builder, which counts the row as failed and makes no
item of it. -/
def Isolated (results : List (TransformResult ResolvedRow)) : Prop :=
  ∀ k e, p.Recorded deps store source results k e → ∃ r, results[k]? = some r ∧ e ∈ r.errors ∧
    ∀ b : PlanBuilder, (b.addResult r).planItems = b.planItems ∧
      (b.addResult r).summary.failedRows = b.summary.failedRows + 1

variable {p deps store source}

/-- Up to the matcher an error stays with its row. -/
theorem recorded_cases {results : List (TransformResult ResolvedRow)} {k : Nat}
    {e : DiagnosticItem} (h : p.Recorded deps store source results k e) :
    (∃ m, (p.matched deps store source)[k]? = some m ∧ e ∈ m.errors) ∨
      ∃ r, results[k]? = some r ∧ e ∈ r.errors := by
  have hmatch : ∀ r, (p.enriched deps source)[k]? = some r → e ∈ r.errors →
      ∃ m, (p.matched deps store source)[k]? = some m ∧ e ∈ m.errors := by
    intro r hr he
    have hget := matchStream_get p.matcher p.catalog store (p.enriched deps source) k
    rw [hr] at hget
    exact ⟨_,hget,(matchStage_appends p.matcher p.catalog _ r).mem he⟩
  have henrich : ∀ r, (p.normalized source)[k]? = some r → e ∈ r.errors →
      ∃ r', (p.enriched deps source)[k]? = some r' ∧ e ∈ r'.errors := fun r hr he =>
    ⟨_,by simp [enriched, hr],(enrichStage_appends p.enricher (deps k) p.catalog r).mem he⟩
  have hnormalize : ∀ r, (p.mapped source)[k]? = some r → e ∈ r.errors →
      ∃ r', (p.normalized source)[k]? = some r' ∧ e ∈ r'.errors := fun r hr he =>
    ⟨_,by simp [normalized, hr],(normalizeStage_appends p.normalizer r).mem he⟩
  have hmap : ∀ r, source[k]? = some r → e ∈ r.errors →
      ∃ r', (p.mapped source)[k]? = some r' ∧ e ∈ r'.errors := fun r hr he =>
    ⟨_,by simp [mapped, hr],(mapStage_appends p.mapper p.catalog r).mem he⟩
  rcases h with ⟨r,hr,he⟩ | ⟨r,hr,he⟩ | ⟨r,hr,he⟩ | ⟨r,hr,he⟩ | ⟨r,hr,he⟩ | ⟨r,hr,he⟩
  · obtain ⟨a,ha,hea⟩ := hmap r hr he
    obtain ⟨b,hb,heb⟩ := hnormalize a ha hea
    obtain ⟨c,hc,hec⟩ := henrich b hb heb
    exact .inl (hmatch c hc hec)
  · obtain ⟨b,hb,heb⟩ := hnormalize r hr he
    obtain ⟨c,hc,hec⟩ := henrich b hb heb
    exact .inl (hmatch c hc hec)
  · obtain ⟨c,hc,hec⟩ := henrich r hr he
    exact .inl (hmatch c hc hec)
  · exact .inl (hmatch r hr he)
  · exact .inl ⟨r,hr,he⟩
  · exact .inr ⟨r,hr,he⟩

/-- No error of a matched result is of the resolve stage. -/
theorem matched_stage {records : List SourceRecord} {failure : Option PyException} {k : Nat}
    {m : TransformResult MatchedRow}
    (hm : (p.matched deps store (extract p.catalog records failure))[k]? = some m) :
    ∀ e ∈ m.errors, e.stage ≠ .resolve := by
  have hget := matchStream_get p.matcher p.catalog store
    (p.enriched deps (extract p.catalog records failure)) k
  rw [matched] at hm
  rw [hm] at hget
  obtain ⟨c,hc,rfl⟩ := Option.map_eq_some_iff.mp hget.symm
  simp only [enriched, normalized, mapped, List.getElem?_mapIdx, List.getElem?_map,
    Option.map_eq_some_iff] at hc
  obtain ⟨b,⟨a,⟨r,hr,rfl⟩,rfl⟩,rfl⟩ := hc
  have hextract : ∀ e ∈ r.errors, e.stage = .extract := by
    have hmem := List.mem_of_getElem? hr
    simp only [extract, List.mem_append, List.mem_map, Option.mem_toList,
      Option.map_eq_some_iff] at hmem
    rcases hmem with ⟨_,_,rfl⟩ | ⟨_,_,rfl⟩
    · simp [extracted]
    · simp [sourceFailure]
  intro e he
  rcases (matchStage_appends p.matcher p.catalog _ _).of_mem he with he | he
  · rcases (enrichStage_appends p.enricher (deps k) p.catalog _).of_mem he with he | he
    · rcases (normalizeStage_appends p.normalizer _).of_mem he with he | he
      · rcases (mapStage_appends p.mapper p.catalog r).of_mem he with he | he
        · simp [hextract e he]
        · simp [he]
      · simp [he]
    · simp [he]
  · simp [he]

end Pipeline

theorem PlanBuilder.addResult_failed (b : PlanBuilder) {r : TransformResult ResolvedRow}
    (h : r.errors ≠ []) : (b.addResult r).planItems = b.planItems ∧
      (b.addResult r).summary.failedRows = b.summary.failedRows + 1 := by
  unfold addResult
  split
  · exact ⟨rfl,rfl⟩
  · rw [if_pos h]
    exact ⟨rfl,rfl⟩

/-- Errors are isolated in a planning run exactly when no row leaves the match stage
together with errors. -/
theorem error_isolated_iff {D : Type} (p : Pipeline D) (deps : Nat → D) (store : DedupStore)
    (records : List SourceRecord) (failure : Option PyException) (es : List Event)
    (dataset : String) (schedule : Nat → Tick) :
    ∃ planned, iterResolved p.resolver p.catalog dataset schedule (World.after es).db
        (p.matched deps store (extract p.catalog records failure)) = .ok planned ∧
      (p.Isolated deps store (extract p.catalog records failure) planned.results ↔
        ∀ m ∈ p.matched deps store (extract p.catalog records failure),
          m.row.isSome → m.errors = []) := by
  obtain ⟨replayed,hload,_⟩ := (World.after_sound es).load dataset
  have hplan := iterResolved_of_load p.resolver p.catalog hload schedule
    (p.matched deps store (extract p.catalog records failure))
  refine ⟨_,hplan,fun hiso m hm hrow => ?_,fun hclean k e hrec => ?_⟩
  · by_contra hne
    obtain ⟨e,he⟩ := List.exists_mem_of_ne_nil _ hne
    obtain ⟨k,hk⟩ := List.mem_iff_getElem?.mp hm
    obtain ⟨r,hr,her,_⟩ := hiso k e (.inr (.inr (.inr (.inr (.inl ⟨m,hk,he⟩)))))
    obtain ⟨db,hget⟩ := iterResolved_get hplan hk
    rw [hr, Option.some.injEq] at hget
    exact Pipeline.matched_stage hk e he (resolveRow_stage hrow e (hget ▸ her))
  · have hresult : ∃ r, ((planningStage p.resolver p.catalog (p.matched deps store
        (extract p.catalog records failure))).resolveStream schedule 0 (World.after es).db
        (p.matched deps store (extract p.catalog records failure) ++ replayed)).1[k]? = some r ∧
          e ∈ r.errors := by
      rcases Pipeline.recorded_cases hrec with ⟨m,hm,he⟩ | hr
      · obtain ⟨db,hget⟩ := iterResolved_get hplan hm
        have hnone : m.row = none := by
          cases hrow : m.row with
          | none => rfl
          | some row =>
            rw [hclean m (List.mem_of_getElem? hm) (by simp [hrow])] at he
            cases he
        exact ⟨_,hget,by simpa [ResolveStage.resolveRow, hnone] using he⟩
      · exact hr
    obtain ⟨r,hr,he⟩ := hresult
    exact ⟨r,hr,he,fun b => b.addResult_failed (List.ne_nil_of_mem he)⟩

section Samples

/-- A run whose secret store is down: the generated password is lost. -/
def lostSecret : Pipeline Unit :=
  { mapper := mailMapper
    normalizer := plainNormalizer
    enricher :=
      { passwordEnricher with
        spec := { passwordEnricher.spec with
          operations := { name := "target_id", opType := .compute, targets := ["target_id"]
                          compute := some fun _ _ => .ok [("target_id",.str "emp-1")] } ::
            passwordEnricher.spec.operations }
        putMany := some fun _ _ _ _ _ => .error ⟨"RuntimeError","store is down"⟩ }
    matcher := fieldMatcher ["mail"] []
    resolver := plainCore []
    catalog := [] }

end Samples

/-- The store error of the enrich stage is gone after the resolve stage. -/
theorem store_error_forgotten :
    ¬ ∀ (p : Pipeline Unit) (deps : Nat → Unit) (store : DedupStore)
      (records : List SourceRecord) (failure : Option PyException) (es : List Event)
      (dataset : String) (schedule : Nat → Tick) (planned : Planned),
      iterResolved p.resolver p.catalog dataset schedule (World.after es).db
        (p.matched deps store (extract p.catalog records failure)) = .ok planned →
      p.Isolated deps store (extract p.catalog records failure) planned.results := by
  intro h
  have hresults : (iterResolved lostSecret.resolver [] "employees" steady (World.after []).db
      (lostSecret.matched (fun _ => ()) ⟨[],none⟩ (extract [] [mailRecord] none))).map
        (fun planned => planned.results.map fun r => r.errors) = .ok [[]] := by decide
  have hlost : ((lostSecret.matched (fun _ => ()) ⟨[],none⟩ (extract [] [mailRecord] none))[0]?.any
      fun m => m.errors ≠ []) = true := by decide
  obtain ⟨m,hm,hne⟩ := (Option.any_eq_true _ _).mp hlost
  obtain ⟨e,he⟩ := List.exists_mem_of_ne_nil _ (of_decide_eq_true hne)
  cases hrun : iterResolved lostSecret.resolver [] "employees" steady (World.after []).db
      (lostSecret.matched (fun _ => ()) ⟨[],none⟩ (extract [] [mailRecord] none)) with
  | error exc =>
    rw [hrun] at hresults
    cases hresults
  | ok planned =>
    rw [hrun] at hresults
    obtain ⟨r,hr,her,_⟩ := h lostSecret (fun _ => ()) ⟨[],none⟩ [mailRecord] none [] "employees"
      steady planned hrun 0 e (.inr (.inr (.inr (.inr (.inl ⟨m,hm,he⟩)))))
    have hall : planned.results.map (fun r => r.errors) = [[]] := Except.ok.inj hresults
    have hmem := List.mem_map_of_mem (f := fun r => r.errors) (List.mem_of_getElem? hr)
    rw [hall, List.mem_singleton] at hmem
    rw [hmem] at her
    cases her

end NexusEtl
